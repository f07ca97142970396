import GManager.PartialRuns
import GManager.Revocation

/-!
# Tabs of one browser

`client.ts`: each tab has one refresh under way at most, and all tabs share the cookie that the server
replaces at every refresh. The interceptor fetches a CSRF token first, and a rejection there ends the
session of the tab too. A request carries the cookie of the moment when it is sent, and the cookie changes
when a response arrives; requests and responses may be lost. Two refreshes that carry one cookie look like a
theft to the server, so the tabs are trusted as long as no cookie is carried to it twice.
-/

namespace GManager.Auth

open Txn

/-- Where the refresh of a tab stands: the CSRF token is fetched, the request is sent,
the server has answered. -/
inductive Stage
  | preparing
  | requested (cookie : Option String)
  | answered (answer : Except Failure Session)

/-- The `refreshPromise` of a tab. -/
structure Flight where
  tab : ℕ
  stage : Stage

/-- The server's tables, the jar, the access tokens and refreshes of the tabs, and what the server has
answered. `used` are the cookies whose refreshes came through, with a new session or a rejection. -/
structure Browser where
  db : AuthDb
  jar : Option String
  accessTokens : ℕ → Option UUID
  flights : Table Flight.tab
  answers : List (Except Failure Session)
  used : List String

inductive TabEvent
  | refreshAccessToken (tab : ℕ)
  | csrfFails (tab : ℕ) (status : Option HttpStatus)
  | post (tab : ℕ)
  | loseRequest (tab : ℕ)
  | serve (tab : ℕ) (c : AuthCall)
  | loseResponse (tab : ℕ)
  | arrive (tab : ℕ)

namespace Browser

/-- A browser that has just logged in. -/
def signedIn (db : AuthDb) (session : Session) : Browser :=
  { db, jar := some session.refreshToken, accessTokens := fun _ => none, flights := .empty,
    answers := [], used := [] }

/-- The refresh of the tab ends. -/
def finish (b : Browser) (tab : ℕ) : Browser := { b with flights := b.flights.delete fun f => f.tab = tab }

/-- The refresh of a tab, if it is at a stage of this kind. -/
def flight (b : Browser) (tab : ℕ) : Option Stage := (b.flights.find? tab).map Flight.stage

def setFlight (b : Browser) (tab : ℕ) (stage : Stage) : Browser :=
  { b with flights := b.flights.save ⟨tab, stage⟩ }

/-- The cookie after a response of `AuthController.refresh`. -/
def cookieAfter (jar : Option String) : Except Failure Session → Option String
  | .ok session => some session.refreshToken
  | .error (.application _) => none
  | .error _ => jar

/-- The `catch` of a refresh: `clearSession` on 401 and 403. A failure without a response has no status. -/
def tokenCaught (token : Option UUID) (status : Option HttpStatus) : Option UUID :=
  if status = some .unauthorized ∨ status = some .forbidden then none else token

/-- What a tab does with a response to its refresh: `setSession`, or what `catch` does. -/
def tokenAfter (token : Option UUID) : Except Failure Session → Option UUID
  | .ok session => some session.userId
  | .error (.application e) => tokenCaught token (some e.status)
  | .error _ => token

/-- The cookies that have come through after an answer. -/
def usedAfter (used : List String) (cookie : Option String) : Except Failure Session → List String
  | .ok _ | .error (.application _) => (presented cookie).toList ++ used
  | .error _ => used

def step (A : AuthSettings) (b : Browser) : TabEvent → Option Browser
  | .refreshAccessToken tab => (b.flights.insert ⟨tab, .preparing⟩).map fun flights => { b with flights }
  | .csrfFails tab status => match b.flight tab with
    | some .preparing =>
      let token := tokenCaught (b.accessTokens tab) status
      some ({ b with accessTokens := Function.update b.accessTokens tab token }.finish tab)
    | _ => none
  | .post tab => match b.flight tab with
    | some .preparing => some (b.setFlight tab (.requested b.jar))
    | _ => none
  | .loseRequest tab => match b.flight tab with
    | some (.requested _) => some (b.finish tab)
    | _ => none
  | .serve tab c => match b.flight tab with
    | some (.requested cookie) =>
      let (answer, db) := A.refresh cookie c b.db
      some ({ b with db, answers := answer :: b.answers, used := usedAfter b.used cookie answer }.setFlight
        tab (.answered answer))
    | _ => none
  | .loseResponse tab => match b.flight tab with
    | some (.answered _) => some (b.finish tab)
    | _ => none
  | .arrive tab => match b.flight tab with
    | some (.answered answer) =>
      some ({ b with
        jar := cookieAfter b.jar answer
        accessTokens :=
          Function.update b.accessTokens tab (tokenAfter (b.accessTokens tab) answer) }.finish tab)
    | _ => none

def run (A : AuthSettings) (b : Browser) (es : List TabEvent) : Option Browser := es.foldlM (step A) b

end Browser

/-! ### A refresh with a live token -/

section refresh

variable {A : AuthSettings} {c : AuthCall} {db db' : AuthDb} {sessionId : UUID} {raw : String}

/-- A token of the session that is not revoked. -/
def Live (db : AuthDb) (sessionId : UUID) (h : String) : Prop :=
  ∃ t ∈ db.tokens, t.tokenHash = h ∧ t.sessionId = sessionId ∧ t.revoked = false

def Known (db : AuthDb) (h : String) : Prop := ∃ t ∈ db.tokens, t.tokenHash = h

/-- What a refresh with a live token does: it is exchanged, rejected, or the exchange breaks off. -/
inductive Exchanges (A : AuthSettings) (db : AuthDb) (sessionId : UUID) :
    Except Failure Session → AuthDb → Prop
  | exchanged {session : Session} {db' : AuthDb} (hlive : Live db' sessionId (A.hash session.refreshToken))
      (hnew : ¬ Known db (A.hash session.refreshToken)) (hknown : ∀ h, Known db h → Known db' h) :
      Exchanges A db sessionId (.ok session) db'
  | rejected {db' : AuthDb} (hknown : ∀ h, Known db h → Known db' h) :
      Exchanges A db sessionId (.error unauthorizedSession) db'
  | broken : Exchanges A db sessionId (.error .dataIntegrity) db

theorem Live.known {h : String} (hl : Live db sessionId h) : Known db h := by
  obtain ⟨t, ht, hhash, -, -⟩ := hl
  exact ⟨t, ht, hhash⟩

theorem Known.save {h : String} {t t' : RefreshToken} (hk : Known db h) (ht : t ∈ db.tokens)
    (hhash : t'.tokenHash = t.tokenHash) : Known { db with tokens := db.tokens.save t' } h := by
  obtain ⟨x, hx, rfl⟩ := hk
  by_cases hxt : x.tokenHash = t.tokenHash
  · exact ⟨t', (Table.mem_save_of_mem ht hhash).2 (.inl rfl), hhash.trans hxt.symm⟩
  · exact ⟨x, (Table.mem_save_of_mem ht hhash).2 (.inr ⟨hx, hxt⟩), rfl⟩

theorem Known.revokeAll {h : String} (hk : Known db h) (p : RefreshToken → Bool) :
    Known (db.revokeAll p) h := by
  obtain ⟨x, hx, rfl⟩ := hk
  exact ⟨x.revokedIf p, AuthDb.mem_revokeAll.2 ⟨x, hx, rfl⟩, rfl⟩

theorem insertToken_free {t : RefreshToken} {tokens : Table RefreshToken.tokenHash}
    (h : db.tokens.insert t = some tokens) : (insertToken t).run c { db with issued := db.issued + 1 } =
    .ok ((), { db with tokens, issued := db.issued + 1 }) := by
  refine run_bind_get.trans ?_
  dsimp only
  rw [h]
  rfl

theorem insertToken_taken {t : RefreshToken} (h : db.tokens.insert t = none) :
    (insertToken t).run c { db with issued := db.issued + 1 } = .error .dataIntegrity := by
  refine run_bind_get.trans (run_bind_of_error ?_)
  dsimp only
  rw [h]
  rfl

theorem rotate_eq {existing : RefreshToken} (hf : db.tokens.find? (A.hash raw) = some existing)
    (hrevoked : existing.revoked = false) {r : Except Failure (RotationResult × AuthDb)}
    (hr : Txn.run (if existing.expiresAt ≤ c.now then do
        saveToken (existing.revoke none)
        return .invalid
      else match (db.users.find? existing.userId).filter (·.active) with
        | none => do
          revokeAllBySessionId existing.sessionId
          return .invalid
        | some user => do
          let id ← randomUUID
          insertToken (A.replacement c existing user id)
          saveToken (existing.revoke (some id))
          return .success ⟨user.id, c.randomToken, existing.sessionId⟩) c db = r) :
    (A.rotate raw).run c db = r := by
  unfold AuthSettings.rotate
  rw [run_bind_of_ok (a := c) rfl, run_bind_get, hf]
  dsimp only
  rw [hrevoked, if_neg (by simp)]
  exact hr

/-- A refresh with a live token. -/
theorem refresh_live (hlive : Live db sessionId (A.hash raw)) (hb : presented (some raw) = some raw) :
    Exchanges A db sessionId (A.refresh (some raw) c db).1 (A.refresh (some raw) c db).2 := by
  obtain ⟨existing, hmem, hhash, rfl, hrevoked⟩ := hlive
  have hf : db.tokens.find? (A.hash raw) = some existing := Table.find?_eq_some.2 ⟨hmem, hhash⟩
  unfold AuthSettings.refresh
  rw [hb]
  dsimp only
  by_cases hexpired : existing.expiresAt ≤ c.now
  · have hrun : (A.rotate raw).run c db =
        .ok (.invalid, { db with tokens := db.tokens.save (existing.revoke none) }) := by
      refine rotate_eq hf hrevoked ?_
      rw [if_pos hexpired]
      rfl
    have hk : (existing.revoke none).tokenHash = existing.tokenHash := rfl
    rw [hrun]
    exact .rejected fun h hknown => hknown.save hmem hk
  · cases huser : (db.users.find? existing.userId).filter (·.active) with
    | none =>
      have hrun : (A.rotate raw).run c db =
          .ok (.invalid, db.revokeAll fun t => t.sessionId == existing.sessionId && !t.revoked) := by
        refine rotate_eq hf hrevoked ?_
        rw [if_neg hexpired, huser]
        rfl
      rw [hrun]
      exact .rejected fun h hk => hk.revokeAll _
    | some user =>
      cases hins : db.tokens.insert (A.replacement c existing user db.issued) with
      | none =>
        have hrun : (A.rotate raw).run c db = .error .dataIntegrity := by
          refine rotate_eq hf hrevoked ?_
          rw [if_neg hexpired, huser]
          exact (run_bind_of_ok (a := db.issued) rfl).trans (run_bind_of_error (insertToken_taken hins))
        rw [hrun]
        exact .broken
      | some tokens =>
        have hrun : (A.rotate raw).run c db = .ok (.success ⟨user.id, c.randomToken, existing.sessionId⟩,
            { db with
              tokens := tokens.save (existing.revoke (some db.issued)), issued := db.issued + 1 }) := by
          refine rotate_eq hf hrevoked ?_
          rw [if_neg hexpired, huser]
          exact (run_bind_of_ok (a := db.issued) rfl).trans
            ((run_bind_of_ok (insertToken_free hins)).trans rfl)
        rw [hrun]
        have hnew : ∀ t ∈ db.tokens, t.tokenHash ≠ A.hash c.randomToken := (Table.insert_eq_some.1 hins).1
        have hmem' : existing ∈ tokens := (Table.mem_insert hins).2 (.inl hmem)
        have hne : (A.replacement c existing user db.issued).tokenHash ≠ existing.tokenHash :=
          fun heq => hnew existing hmem heq.symm
        have hk : (existing.revoke (some db.issued)).tokenHash = existing.tokenHash := rfl
        have hrow : A.replacement c existing user db.issued ∈ tokens.save
            (existing.revoke (some db.issued)) :=
          (Table.mem_save_of_mem hmem' hk).2 (.inr ⟨(Table.mem_insert hins).2 (.inr rfl), hne⟩)
        refine .exchanged ⟨_, hrow, rfl, rfl, rfl⟩ (fun hk => ?_) fun h hk => ?_
        · obtain ⟨t, ht, hhash⟩ := hk
          exact hnew t ht hhash
        · obtain ⟨t, ht, rfl⟩ := hk
          have hk' : Known { db with tokens } t.tokenHash := ⟨t, (Table.mem_insert hins).2 (.inl ht), rfl⟩
          exact hk'.save hmem' rfl

end refresh

/-! ### Cookies that are carried once -/

/-- The refresh carries the cookie to the server. -/
def Stage.Carries (raw : String) : Stage → Prop
  | .requested cookie => presented cookie = some raw
  | _ => False

/-- The refresh has a cookie on its way, to the server or back. -/
def Stage.Busy (stage : Stage) : Prop :=
  (∃ raw, stage.Carries raw) ∨ ∃ session, stage = .answered (.ok session)

namespace Browser

variable {A : AuthSettings} {b b' : Browser} {sessionId : UUID} {tab : ℕ} {stage stage' : Stage}

/-- A refresh is sent with a cookie that no other refresh carries, and with which none came through. -/
def Careful (b : Browser) : TabEvent → Prop
  | .post _ => ∀ raw, presented b.jar = some raw → raw ∉ b.used ∧ ∀ f ∈ b.flights.rows, ¬ f.stage.Carries raw
  | _ => True

/-- No refresh was taken for a theft, and the session has a live token unless a refresh
was told that it is over. -/
def Trusted (sessionId : UUID) (b : Browser) : Prop :=
  .error reuseDetected ∉ b.answers ∧
    (.error unauthorizedSession ∈ b.answers ∨ ∃ t ∈ b.db.tokens, t.sessionId = sessionId ∧ t.revoked = false)

structure Inv (A : AuthSettings) (sessionId : UUID) (b : Browser) : Prop where
  requested : ∀ f ∈ b.flights, ∀ raw, f.stage.Carries raw → Live b.db sessionId (A.hash raw)
  answered : ∀ f ∈ b.flights, ∀ session, f.stage = .answered (.ok session) →
    session.refreshToken ∉ b.used ∧ Live b.db sessionId (A.hash session.refreshToken)
  alone : ∀ f ∈ b.flights, ∀ f' ∈ b.flights, f.stage.Busy → f'.stage.Busy → f = f'
  jar : ∀ raw, presented b.jar = some raw → raw ∉ b.used →
    Live b.db sessionId (A.hash raw) ∧ ∀ f ∈ b.flights, f.stage.Busy → f.stage.Carries raw
  used : ∀ raw ∈ b.used, Known b.db (A.hash raw)
  trusted : b.Trusted sessionId

theorem presented_eq_some {cookie : Option String} {raw : String} (h : presented cookie = some raw) :
    cookie = some raw :=
  (Option.filter_eq_some_iff.1 h).1

theorem flight_eq_some (h : b.flight tab = some stage) : ⟨tab, stage⟩ ∈ b.flights := by
  obtain ⟨f, hf, rfl⟩ := Option.map_eq_some_iff.1 h
  obtain ⟨hmem, rfl⟩ := Table.find?_eq_some.1 hf
  exact hmem

theorem mem_setFlight (h : ⟨tab, stage⟩ ∈ b.flights) {f : Flight} :
    f ∈ (b.setFlight tab stage').flights ↔ f = ⟨tab, stage'⟩ ∨ f ∈ b.flights ∧ f.tab ≠ tab := by
  have hk : (⟨tab, stage'⟩ : Flight).tab = (⟨tab, stage⟩ : Flight).tab := rfl
  exact Table.mem_save_of_mem h hk

theorem Inv.signedIn {db : AuthDb} {session : Session}
    (hlive : Live db session.sessionId (A.hash session.refreshToken)) :
    (signedIn db session).Inv A session.sessionId where
  requested := fun _ hf => absurd hf Table.not_mem_empty
  answered := fun _ hf => absurd hf Table.not_mem_empty
  alone := fun _ hf => absurd hf Table.not_mem_empty
  jar := fun raw hraw _ => by
    cases presented_eq_some hraw
    exact ⟨hlive, fun _ hf => absurd hf Table.not_mem_empty⟩
  used := fun _ hraw => by cases hraw
  trusted := by
    obtain ⟨t, ht, -, hsession, hrevoked⟩ := hlive
    exact ⟨List.not_mem_nil, .inr ⟨t, ht, hsession, hrevoked⟩⟩

/-- The end of a refresh takes nothing from the others. -/
theorem Inv.finish (h : b.Inv A sessionId) (tab : ℕ) : (b.finish tab).Inv A sessionId := by
  have hsub : ∀ f, f ∈ (b.finish tab).flights → f ∈ b.flights := fun f hf => (Table.mem_delete.1 hf).1
  exact ⟨fun f hf => h.requested f (hsub f hf), fun f hf => h.answered f (hsub f hf),
    fun f hf f' hf' => h.alone f (hsub f hf) f' (hsub f' hf'),
    fun raw hraw hused => ⟨(h.jar raw hraw hused).1, fun f hf => (h.jar raw hraw hused).2 f (hsub f hf)⟩,
    h.used, h.trusted⟩

theorem not_busy_preparing : ¬ Stage.Busy .preparing := by
  rintro (⟨raw, hraw⟩ | ⟨session, hsession⟩)
  · exact hraw
  · cases hsession

theorem not_busy_failed {e : Failure} : ¬ Stage.Busy (.answered (.error e)) := by
  rintro (⟨raw, hraw⟩ | ⟨session, hsession⟩)
  · exact hraw
  · cases hsession

/-- A refresh begins. -/
theorem Inv.refreshAccessToken {flights : Table Flight.tab} (h : b.Inv A sessionId)
    (hins : b.flights.insert ⟨tab, .preparing⟩ = some flights) :
    ({ b with flights } : Browser).Inv A sessionId := by
  have hold : ∀ f ∈ flights, f.stage.Busy → f ∈ b.flights := by
    intro f hf hbusy
    rcases (Table.mem_insert hins).1 hf with hf | rfl
    · exact hf
    · exact absurd hbusy not_busy_preparing
  exact ⟨fun f hf raw hraw => h.requested f (hold f hf (.inl ⟨raw, hraw⟩)) raw hraw,
    fun f hf session hs => h.answered f (hold f hf (.inr ⟨session, hs⟩)) session hs,
    fun f hf f' hf' hb hb' => h.alone f (hold f hf hb) f' (hold f' hf' hb') hb hb',
    fun raw hraw hused =>
    ⟨(h.jar raw hraw hused).1, fun f hf hb => (h.jar raw hraw hused).2 f (hold f hf hb) hb⟩,
    h.used, h.trusted⟩

theorem Inv.post (h : b.Inv A sessionId) (hc : b.Careful (.post tab)) (hf : ⟨tab, .preparing⟩ ∈ b.flights) :
    (b.setFlight tab (.requested b.jar)).Inv A sessionId := by
  have hmem : ∀ f, f ∈ (b.setFlight tab (.requested b.jar)).flights ↔ f = ⟨tab, .requested b.jar⟩ ∨
      f ∈ b.flights ∧ f.tab ≠ tab := fun f => mem_setFlight hf
  -- The refresh that is sent carries the cookie of the jar, and no other has one on its way then.
  have hfree : ∀ raw, presented b.jar = some raw → ∀ f ∈ b.flights, ¬ f.stage.Busy := fun raw hraw f hfl hb =>
    (hc raw hraw).2 f hfl ((h.jar raw hraw (hc raw hraw).1).2 f hfl hb)
  have hsent : Stage.Busy (.requested b.jar) → ∃ raw, presented b.jar = some raw := by
    rintro (⟨raw, hraw⟩ | ⟨session, hs⟩)
    · exact ⟨raw, hraw⟩
    · cases hs
  refine ⟨fun f hfl raw hraw => ?_, fun f hfl session hs => ?_, fun f hfl f' hfl' hb hb' => ?_,
    fun raw hraw hused => ?_, h.used, h.trusted⟩
  · rcases (hmem f).1 hfl with rfl | ⟨hfl, -⟩
    · exact (h.jar raw hraw (hc raw hraw).1).1
    · exact h.requested f hfl raw hraw
  · rcases (hmem f).1 hfl with rfl | ⟨hfl, -⟩
    · cases hs
    · exact h.answered f hfl session hs
  · rcases (hmem f).1 hfl with rfl | ⟨hfl, -⟩ <;> rcases (hmem f').1 hfl' with rfl | ⟨hfl', -⟩
    · rfl
    · obtain ⟨raw, hraw⟩ := hsent hb
      exact absurd hb' (hfree raw hraw f' hfl')
    · obtain ⟨raw, hraw⟩ := hsent hb'
      exact absurd hb (hfree raw hraw f hfl)
    · exact h.alone f hfl f' hfl' hb hb'
  · refine ⟨(h.jar raw hraw hused).1, fun f hfl hb => ?_⟩
    rcases (hmem f).1 hfl with rfl | ⟨hfl, -⟩
    · exact hraw
    · exact (h.jar raw hraw hused).2 f hfl hb

theorem honest_cons {answer : Except Failure Session} {answers : List (Except Failure Session)}
    (h : .error reuseDetected ∉ answers) (hne : answer ≠ .error reuseDetected) :
    .error reuseDetected ∉ answer :: answers := fun hmem =>
  (List.mem_cons.1 hmem).elim (fun heq => hne heq.symm) h

/-- While a refresh carries a cookie, no other has one on its way. -/
theorem Inv.others_idle {raw : String} (h : b.Inv A sessionId) (hf : ⟨tab, stage⟩ ∈ b.flights)
    (hc : stage.Carries raw) {f : Flight} (hfl : f ∈ b.flights) (htab : f.tab ≠ tab) :
    ¬ f.stage.Busy := fun hb =>
  htab (congrArg Flight.tab (h.alone f hfl _ hf hb (.inl ⟨raw, hc⟩)))

/-- The jar has no other cookie that did not come through. -/
theorem Inv.jar_carried {raw raw' : String} (h : b.Inv A sessionId)
    (hf : ⟨tab, .requested (some raw)⟩ ∈ b.flights) (hp : presented (some raw) = some raw)
    (hjar : presented b.jar = some raw') (hused : raw' ∉ b.used) : raw' = raw := by
  have hcarries : presented (some raw) = some raw' := (h.jar raw' hjar hused).2 _ hf (.inl ⟨raw, hp⟩)
  rw [hp] at hcarries
  exact (Option.some.inj hcarries).symm

/-- A refresh without a cookie. -/
theorem Inv.serve_none {answers : List (Except Failure Session)} (h : b.Inv A sessionId)
    (hf : ⟨tab, stage⟩ ∈ b.flights) (hanswers : answers = .error unauthorizedSession :: b.answers) :
    ({ b with answers }.setFlight tab (.answered (.error unauthorizedSession))).Inv A sessionId := by
  have hold : ∀ f ∈ (b.setFlight tab (.answered (.error unauthorizedSession))).flights, f.stage.Busy →
      f ∈ b.flights := by
    intro f hfl hb
    rcases (mem_setFlight hf).1 hfl with rfl | ⟨hfl, -⟩
    · exact absurd hb not_busy_failed
    · exact hfl
  subst hanswers
  exact ⟨fun f hfl raw hraw => h.requested f (hold f hfl (.inl ⟨raw, hraw⟩)) raw hraw,
    fun f hfl session hs => h.answered f (hold f hfl (.inr ⟨session, hs⟩)) session hs,
    fun f hfl f' hfl' hb hb' => h.alone f (hold f hfl hb) f' (hold f' hfl' hb') hb hb',
    fun raw hraw hused =>
    ⟨(h.jar raw hraw hused).1, fun f hfl hb => (h.jar raw hraw hused).2 f (hold f hfl hb) hb⟩, h.used,
    honest_cons h.trusted.1 (by decide), .inl (.head _)⟩

/-- The answer to the refresh that carries a cookie. -/
theorem Inv.serve_some {raw : String} {answer : Except Failure Session} {db : AuthDb} (h : b.Inv A sessionId)
    (hf : ⟨tab, .requested (some raw)⟩ ∈ b.flights) (hp : presented (some raw) = some raw)
    (he : Exchanges A b.db sessionId answer db) :
    ({ b with db, answers := answer :: b.answers, used := usedAfter b.used (some raw) answer }.setFlight tab
      (.answered answer)).Inv A sessionId := by
  have hlive := h.requested _ hf raw hp
  have hmem : ∀ f ∈ (b.setFlight tab (.answered answer)).flights, f = ⟨tab, .answered answer⟩ ∨
      ¬ f.stage.Busy := by
    intro f hfl
    rcases (mem_setFlight hf).1 hfl with rfl | ⟨hfl, htab⟩
    · exact .inl rfl
    · exact .inr (h.others_idle hf hp hfl htab)
  have hcarries : ∀ f ∈ (b.setFlight tab (.answered answer)).flights, ∀ raw', ¬ f.stage.Carries raw' := by
    intro f hfl raw' hraw'
    rcases hmem f hfl with rfl | hidle
    · exact hraw'
    · exact hidle (.inl ⟨raw', hraw'⟩)
  have halone : ∀ f ∈ (b.setFlight tab (.answered answer)).flights,
    ∀ f' ∈ (b.setFlight tab (.answered answer)).flights,
      f.stage.Busy → f'.stage.Busy → f = f' := by
    intro f hfl f' hfl' hb hb'
    rw [(hmem f hfl).resolve_right fun hidle => hidle hb, (hmem f' hfl').resolve_right fun hidle => hidle hb']
  have hanswered : ∀ f ∈ (b.setFlight tab (.answered answer)).flights, ∀ session, f.stage = .answered
    (.ok session) →
      answer = .ok session := by
    intro f hfl session hs
    rcases hmem f hfl with rfl | hidle
    · exact Stage.answered.inj hs
    · exact absurd (.inr ⟨session, hs⟩) hidle
  -- A cookie that came through is not the jar's any more, as far as the invariant goes.
  have hjar : ∀ raw', presented b.jar = some raw' → raw' ∈ raw :: b.used := by
    intro raw' hraw'
    by_cases hused : raw' ∈ b.used
    · exact List.mem_cons_of_mem _ hused
    · rw [h.jar_carried hf hp hraw' hused]
      exact List.mem_cons_self
  have hknows : (∀ k, Known b.db k → Known db k) → ∀ raw' ∈ raw :: b.used, Known db (A.hash raw') := by
    intro hknown raw' hraw'
    rcases List.mem_cons.1 hraw' with rfl | hraw'
    · exact hknown _ hlive.known
    · exact hknown _ (h.used _ hraw')
  have hthrough : (presented (some raw)).toList ++ b.used = raw :: b.used := by
    rw [hp]
    rfl
  cases he with
  | @exchanged session _ hnext hnew hknown =>
    have hused : usedAfter b.used (some raw) (.ok session) = raw :: b.used := hthrough
    rw [hused]
    refine ⟨fun f hfl raw' hraw' => absurd hraw' (hcarries f hfl raw'), fun f hfl session' hs => ?_, halone,
      fun raw' hraw' hused => absurd (hjar raw' hraw') hused, hknows hknown,
      honest_cons h.trusted.1 (by simp), .inr ?_⟩
    · cases hanswered f hfl session' hs
      refine ⟨fun hmem' => hnew ?_, hnext⟩
      rcases List.mem_cons.1 hmem' with heq | hmem'
      · rw [heq]
        exact hlive.known
      · exact h.used _ hmem'
    · obtain ⟨t, ht, -, hsession, hrevoked⟩ := hnext
      exact ⟨t, ht, hsession, hrevoked⟩
  | rejected hknown =>
    have hused : usedAfter b.used (some raw) (.error unauthorizedSession) = raw :: b.used := hthrough
    rw [hused]
    refine ⟨fun f hfl raw' hraw' => absurd hraw' (hcarries f hfl raw'), fun f hfl session' hs => ?_, halone,
      fun raw' hraw' hused => absurd (hjar raw' hraw') hused, hknows hknown,
      honest_cons h.trusted.1 (by decide), .inl (.head _)⟩
    cases hanswered f hfl session' hs
  | broken =>
    refine ⟨fun f hfl raw' hraw' => absurd hraw' (hcarries f hfl raw'), fun f hfl session' hs => ?_, halone,
      fun raw' hraw' hused => ⟨(h.jar raw' hraw' hused).1, fun f hfl hb => ?_⟩, h.used,
      honest_cons h.trusted.1 (by decide), h.trusted.2.imp_left fun hmem' => List.mem_cons_of_mem _ hmem'⟩
    · cases hanswered f hfl session' hs
    · rcases hmem f hfl with rfl | hidle
      · exact absurd hb not_busy_failed
      · exact absurd hb hidle

/-- The server knows nothing of the access tokens in the tabs. -/
theorem Inv.tokens (h : b.Inv A sessionId) (tokens : ℕ → Option UUID) :
    ({ b with accessTokens := tokens } : Browser).Inv A sessionId :=
  ⟨h.requested, h.answered, h.alone, h.jar, h.used, h.trusted⟩

/-- A response arrives: its cookie is the jar's. -/
theorem Inv.arrive {answer : Except Failure Session} {tokens : ℕ → Option UUID} (h : b.Inv A sessionId)
    (hf : ⟨tab, .answered answer⟩ ∈ b.flights) :
    ({ b with jar := cookieAfter b.jar answer, accessTokens := tokens }.finish tab).Inv A sessionId := by
  have hsub : ∀ f, f ∈ (b.finish tab).flights → f ∈ b.flights ∧ f.tab ≠ tab := by
    intro f hfl
    obtain ⟨hfl, htab⟩ := Table.mem_delete.1 hfl
    exact ⟨hfl, of_decide_eq_false htab⟩
  have hold := h.finish tab
  refine ⟨hold.requested, hold.answered, hold.alone, fun raw hraw hused => ?_, hold.used, hold.trusted⟩
  match answer with
  | .ok session =>
    cases presented_eq_some hraw
    refine ⟨(h.answered _ hf session rfl).2, fun f hfl hb => ?_⟩
    obtain ⟨hfl, htab⟩ := hsub f hfl
    exact absurd (congrArg Flight.tab (h.alone f hfl _ hf hb (.inr ⟨session, rfl⟩))) htab
  | .error (.application e) => cases presented_eq_some hraw
  | .error .accessDenied | .error .arithmetic | .error .noSuchElement | .error .dataIntegrity =>
    exact hold.jar raw hraw hused

theorem Inv.step {e : TabEvent} (h : b.Inv A sessionId) (hc : b.Careful e) (hs : b.step A e = some b') :
    b'.Inv A sessionId := by
  cases e with
  | refreshAccessToken tab =>
    obtain ⟨flights, hins, rfl⟩ := Option.map_eq_some_iff.1 hs
    exact h.refreshAccessToken hins
  | csrfFails tab status =>
    simp only [Browser.step] at hs
    split at hs
    · cases hs
      exact (h.finish tab).tokens _
    · cases hs
  | post tab =>
    simp only [Browser.step] at hs
    split at hs
    · cases hs
      exact h.post hc (flight_eq_some ‹_›)
    · cases hs
  | loseRequest tab =>
    simp only [Browser.step] at hs
    split at hs
    · cases hs
      exact h.finish tab
    · cases hs
  | serve tab c =>
    simp only [Browser.step] at hs
    split at hs
    · rename_i cookie hflight
      cases hs
      have hf := flight_eq_some hflight
      cases hp : presented cookie with
      | none =>
        have hrefresh : A.refresh cookie c b.db = (.error unauthorizedSession, b.db) := by
          unfold AuthSettings.refresh
          rw [hp]
        have hused : usedAfter b.used cookie (.error unauthorizedSession) = b.used := by
          show (presented cookie).toList ++ b.used = _
          rw [hp]
          rfl
        rw [hrefresh]
        dsimp only
        rw [hused]
        exact h.serve_none hf rfl
      | some raw =>
        cases presented_eq_some hp
        exact h.serve_some hf hp (refresh_live (h.requested _ hf raw hp) hp)
    · cases hs
  | loseResponse tab =>
    simp only [Browser.step] at hs
    split at hs
    · cases hs
      exact h.finish tab
    · cases hs
  | arrive tab =>
    simp only [Browser.step] at hs
    split at hs
    · cases hs
      exact h.arrive (flight_eq_some ‹_›)
    · cases hs

/-- Every step of the run is careful. -/
abbrev CarefulRun (A : AuthSettings) (b : Browser) (es : List TabEvent) : Prop :=
  RunMeets (Browser.step A) Careful b es

theorem Inv.run {es : List TabEvent} (h : b.Inv A sessionId) (hc : CarefulRun A b es)
    (hs : b.run A es = some b') : b'.Inv A sessionId :=
  hc.keeps (fun _ _ _ h hc hs => h.step hc hs) h hs

theorem login_live {c : AuthCall} {db : AuthDb} (email password : String) :
    wp (A.login email password)
      (fun session db' => Live db' session.sessionId (A.hash session.refreshToken)) c db := by
  simp only [AuthSettings.login, AuthSettings.createSession, insertToken, wp_bind, wp_get, wp_orThrow,
    wp_require, wp_ask, wp_randomUUID, wp_modify, wp_pure]
  intro user _ _ tokens hins
  exact ⟨_, (Table.mem_insert hins).2 (.inr rfl), rfl, rfl, rfl⟩

/-- As long as no cookie is carried to the server twice, the tabs of a browser that logged in are trusted. -/
theorem tabs_trusted (A : AuthSettings) (db : AuthDb) (c : AuthCall) (email password : String)
    (session : Session) (db' : AuthDb) (hlogin : (A.login email password).run c db = .ok (session, db'))
    (es : List TabEvent) (b : Browser) (hc : CarefulRun A (signedIn db' session) es)
    (hs : (signedIn db' session).run A es = some b) : b.Trusted session.sessionId :=
  ((Inv.signedIn (login_live email password session db' hlogin)).run hc hs).trusted

end Browser

/-! ### Two tabs -/

instance (raw : String) : DecidablePred (Stage.Carries raw)
  | .requested cookie => inferInstanceAs (Decidable (presented cookie = some raw))
  | .preparing | .answered _ => isFalse id

namespace Browser

instance (b : Browser) : (e : TabEvent) → Decidable (b.Careful e)
  | .post _ =>
    inferInstanceAs (Decidable (∀ raw, presented b.jar = some raw → raw ∉ b.used ∧
      ∀ f ∈ b.flights.rows, ¬ f.stage.Carries raw))
  | .refreshAccessToken _ | .csrfFails .. | .loseRequest _ | .serve .. | .loseResponse _
  | .arrive _ => isTrue trivial

end Browser

namespace Visit

def session : Session := ⟨7, "t1", 0⟩

/-- The tables after the login. -/
def loggedIn : AuthDb := (plain.login "a@b" "old").commit (call "t1") (.start users)

def browser : Browser := .signedIn loggedIn session

/-- Both tabs start up at once and send the cookie that they share. -/
def together : List TabEvent :=
  [.refreshAccessToken 1, .refreshAccessToken 2, .post 1, .post 2, .serve 1 (call "t2"), .arrive 1,
    .serve 2 (call "t3")]

/-- The response to a refresh is lost, and the tab tries again. -/
def again : List TabEvent :=
  [.refreshAccessToken 1, .post 1, .serve 1 (call "t2"), .loseResponse 1, .refreshAccessToken 1, .post 1,
    .serve 1 (call "t3")]

/-- The tabs refresh one after the other; one request is lost on its way. -/
def inTurn : List TabEvent :=
  [.refreshAccessToken 1, .refreshAccessToken 2, .post 1, .loseRequest 1, .post 2, .serve 2 (call "t2"),
    .arrive 2, .refreshAccessToken 1, .post 1, .serve 1 (call "t3"), .arrive 1]

end Visit

open Visit in
/-- Two tabs that share a cookie, and one whose response was lost, are told that their token was used again,
and their session is revoked. -/
theorem tabs_suspected :
    (∃ b ∈ browser.run plain together, .error reuseDetected ∈ b.answers ∧ ∀ t ∈ b.db.tokens.rows, t.revoked) ∧
      ∃ b ∈ browser.run plain again, .error reuseDetected ∈ b.answers ∧
      ∀ t ∈ b.db.tokens.rows, t.revoked := by
  refine ⟨⟨_, rfl, ?_, ?_⟩, _, rfl, ?_, ?_⟩
  · exact .head _
  · decide +kernel
  · exact .head _
  · decide +kernel

open Visit in
theorem tabs_trusted_inTurn : ∃ b ∈ browser.run plain inTurn, b.Trusted 0 :=
  ⟨_, rfl, Browser.tabs_trusted plain (.start users) (call "t1") "a@b" "old" session loggedIn rfl inTurn _
    (by decide +kernel) rfl⟩

end GManager.Auth
