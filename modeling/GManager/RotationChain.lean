import GManager.RefreshTokens
import GManager.Occurrences

/-!
# The chain of refresh tokens

`Later` says once what a request can do to the tokens: revoke some of them, open a session with one token
for a user in `U`, or exchange the live token of a session for its only live successor. Hence a session has
at most one live token in every run (`Chained`), a session without live tokens stays so (`Dead.later`), and
no token is exchanged twice.
-/

namespace GManager.Auth

open Txn

/-- The row is the same, unless it was revoked. -/
structure RefreshToken.Fades (t t' : RefreshToken) : Prop where
  tokenHash : t'.tokenHash = t.tokenHash
  sessionId : t'.sessionId = t.sessionId
  userId : t'.userId = t.userId
  revoked : t.revoked → t'.revoked

/-- The new row `n` is in a new session, or succeeds a live row of its session; no other
row of its session is live. -/
structure Issues (U : UUID → Prop) (db db' : AuthDb) (n : RefreshToken) : Prop where
  source : db.issued ≤ n.sessionId ∧ U n.userId ∨
    ∃ t ∈ db.tokens, t.sessionId = n.sessionId ∧ t.userId = n.userId ∧ t.revoked = false
  below : n.sessionId < db'.issued
  alone : ∀ t' ∈ db'.tokens, t'.sessionId = n.sessionId → t' = n ∨ t'.revoked ∧ ∃ t ∈ db.tokens, t.Fades t'

/-- No token of the session is live. -/
def Dead (sessionId : UUID) (db : AuthDb) : Prop := ∀ t ∈ db.tokens, t.sessionId = sessionId → t.revoked

/-- No token of the user is live. -/
def UserDead (userId : UUID) (db : AuthDb) : Prop := ∀ t ∈ db.tokens, t.userId = userId → t.revoked

/-- What a request does to the tokens; a password change revokes the tokens of its user. -/
structure Later (U : UUID → Prop) (db db' : AuthDb) : Prop where
  issued : db.issued ≤ db'.issued
  kept : ∀ t ∈ db.tokens, ∃ t' ∈ db'.tokens, t.Fades t'
  rows : ∀ t' ∈ db'.tokens, (∃ t ∈ db.tokens, t.Fades t') ∨ Issues U db db' t'
  changes : ∀ p ∈ db'.changes, p.revoked → p ∈ db.changes ∨ UserDead p.user.id db'

/-- What every run keeps: one live token and one user for each session, and sessions that were drawn. -/
structure Chained (db : AuthDb) : Prop where
  single : ∀ t ∈ db.tokens, ∀ t' ∈ db.tokens, t.sessionId = t'.sessionId → t.revoked = false →
    t'.revoked = false → t = t'
  owner : ∀ t ∈ db.tokens, ∀ t' ∈ db.tokens, t.sessionId = t'.sessionId → t.userId = t'.userId
  below : ∀ t ∈ db.tokens, t.sessionId < db.issued

section later

variable {U : UUID → Prop} {db db' : AuthDb} {t n : RefreshToken} {sessionId userId : UUID} {h : String}

theorem RefreshToken.Fades.rfl : t.Fades t := ⟨.refl _, .refl _, .refl _, fun h => h⟩

theorem RefreshToken.fades_revoke (t : RefreshToken) (id : Option UUID) : t.Fades (t.revoke id) :=
  ⟨.refl _, .refl _, .refl _, fun _ => .refl _⟩

theorem RefreshToken.fades_revokedIf (p : RefreshToken → Bool) (t : RefreshToken) : t.Fades (t.revokedIf p) :=
  ⟨.refl _, .refl _, .refl _, fun ht => by simp [revokedIf, ht]⟩

theorem Later.of_tokens (ht : db'.tokens = db.tokens) (hi : db.issued ≤ db'.issued)
    (hp : ∀ p ∈ db'.changes, p.revoked → p ∈ db.changes) : Later U db db' := by
  refine ⟨hi, fun t h => ⟨t, ?_, .rfl⟩, fun t h => .inl ⟨t, ?_, .rfl⟩, fun p h hr => .inl (hp p h hr)⟩
  · rw [ht]
    exact h
  · rw [← ht]
    exact h

theorem Later.refl (db : AuthDb) : Later U db db := .of_tokens rfl le_rfl fun _ h _ => h

theorem AuthDb.mem_revokeAll {p : RefreshToken → Bool} : t ∈ (db.revokeAll p).tokens ↔
    ∃ t₀ ∈ db.tokens, t₀.revokedIf p = t :=
  List.mem_map

theorem Later.revokeAll (p : RefreshToken → Bool) : Later U db (db.revokeAll p) := by
  refine ⟨le_rfl, fun t ht => ⟨t.revokedIf p, ?_, t.fades_revokedIf p⟩, fun t' ht' => .inl ?_,
    fun _ h _ => .inl h⟩
  · exact AuthDb.mem_revokeAll.2 ⟨t, ht, rfl⟩
  · obtain ⟨t, ht, rfl⟩ := AuthDb.mem_revokeAll.1 ht'
    exact ⟨t, ht, t.fades_revokedIf p⟩

theorem Later.save {t' : RefreshToken} (ht : t ∈ db.tokens) (hfade : t.Fades t') :
    Later U db { db with tokens := db.tokens.save t' } := by
  refine ⟨le_rfl, fun x hx => ?_, fun x hx => .inl ?_, fun _ h _ => .inl h⟩
  · by_cases hk : x.tokenHash = t'.tokenHash
    · obtain rfl : x = t := Table.eq_of_key hx ht (hk.trans hfade.tokenHash)
      exact ⟨t', Table.mem_save_self hx hk, hfade⟩
    · exact ⟨x, Table.mem_save.2 (.inl ⟨hx, hk⟩), .rfl⟩
  · rcases Table.mem_save.1 hx with ⟨hx, -⟩ | ⟨rfl, -⟩
    · exact ⟨x, hx, .rfl⟩
    · exact ⟨t, ht, hfade⟩

/-- A session is opened. -/
theorem Chained.open (hc : Chained db) {tokens : Table RefreshToken.tokenHash}
    (hins : db.tokens.insert n = some tokens) (hn : n.sessionId = db.issued) (hu : U n.userId) :
    Later U db { db with tokens, issued := db.issued + 1 + 1 } := by
  refine ⟨Nat.le_add_right db.issued 2, fun t ht => ⟨t, (Table.mem_insert hins).2 (.inl ht), .rfl⟩,
    fun t' ht' => ?_, fun _ h _ => .inl h⟩
  · rcases (Table.mem_insert hins).1 ht' with ht' | rfl
    · exact .inl ⟨t', ht', .rfl⟩
    · refine .inr ⟨.inl ⟨hn.ge, hu⟩, hn ▸ Nat.lt_add_of_pos_right Nat.two_pos, fun x hx hs => ?_⟩
      rcases (Table.mem_insert hins).1 hx with hx | rfl
      · exact absurd (hs.trans hn) (hc.below x hx).ne
      · exact .inl rfl

/-- The live token of a session is exchanged for `n`. -/
theorem Chained.exchange (hc : Chained db) {tokens : Table RefreshToken.tokenHash} {id : Option UUID}
    (ht : t ∈ db.tokens) (hlive : t.revoked = false) (hins : db.tokens.insert n = some tokens)
    (hs : n.sessionId = t.sessionId) (hu : n.userId = t.userId) :
    Later U db { db with tokens := tokens.save (t.revoke id), issued := db.issued + 1 } := by
  have hold : ∀ x ∈ tokens.save (t.revoke id), x = n ∨ ∃ y ∈ db.tokens, y.Fades x ∧
      (x.sessionId = t.sessionId → x.revoked) := by
    intro x hx
    rcases Table.mem_save.1 hx with ⟨hx, hk⟩ | ⟨rfl, -⟩
    · rcases (Table.mem_insert hins).1 hx with hx | rfl
      · refine .inr ⟨x, hx, .rfl, fun hxs => ?_⟩
        by_contra hr
        have hxt : x = t := hc.single x hx t ht hxs (by simpa using hr) hlive
        exact hk (hxt ▸ rfl)
      · exact .inl rfl
    · exact .inr ⟨t, ht, t.fades_revoke id, fun _ => rfl⟩
  refine ⟨Nat.le_succ _, fun x hx => ?_, fun x hx => ?_, fun _ h _ => .inl h⟩
  · by_cases hk : x.tokenHash = t.tokenHash
    · obtain rfl : x = t := Table.eq_of_key hx ht hk
      exact ⟨x.revoke id, Table.mem_save_self ((Table.mem_insert hins).2 (.inl hx)) rfl, x.fades_revoke id⟩
    · exact ⟨x, Table.mem_save.2 (.inl ⟨(Table.mem_insert hins).2 (.inl hx), hk⟩), .rfl⟩
  · rcases hold x hx with rfl | ⟨y, hy, hfade, -⟩
    · refine .inr ⟨.inr ⟨t, ht, hs.symm, hu.symm, hlive⟩, hs ▸ Nat.lt_succ_of_lt (hc.below t ht),
        fun z hz hzs => ?_⟩
      rcases hold z hz with rfl | ⟨y, hy, hfade, hr⟩
      · exact .inl rfl
      · exact .inr ⟨hr (hzs.trans hs), y, hy, hfade⟩
    · exact .inl ⟨y, hy, hfade⟩

theorem Chained.later (hc : Chained db) (hl : Later U db db') : Chained db' := by
  refine ⟨fun t ht t' ht' hs hr hr' => ?_, fun t ht t' ht' hs => ?_, fun t ht => ?_⟩
  · rcases hl.rows t ht with ⟨u, hu, hfade⟩ | hn
    · rcases hl.rows t' ht' with ⟨u', hu', hfade'⟩ | hn'
      · have hsu : u.sessionId = u'.sessionId := by rw [← hfade.sessionId, hs, hfade'.sessionId]
        have hlive : u.revoked = false := by
          by_contra h
          simp [hfade.revoked (by simpa using h)] at hr
        have hlive' : u'.revoked = false := by
          by_contra h
          simp [hfade'.revoked (by simpa using h)] at hr'
        have huu : u = u' := hc.single u hu u' hu' hsu hlive hlive'
        exact Table.eq_of_key ht ht' (by rw [hfade.tokenHash, huu, hfade'.tokenHash])
      · rcases hn'.alone t ht hs with h | ⟨h, -⟩
        · exact h
        · simp [h] at hr
    · rcases hn.alone t' ht' hs.symm with h | ⟨h, -⟩
      · exact h.symm
      · simp [h] at hr'
  · have hnew : ∀ x ∈ db'.tokens, ∀ y ∈ db'.tokens, Issues U db db' x → y.sessionId = x.sessionId →
        y.userId = x.userId := by
      intro x _ y hy hx hxy
      rcases hx.alone y hy hxy with rfl | ⟨-, u, hu, hfade⟩
      · rfl
      · rcases hx.source with ⟨hfresh, -⟩ | ⟨v, hv, hvs, hvu, -⟩
        · have hlt : u.sessionId < x.sessionId := lt_of_lt_of_le (hc.below u hu) hfresh
          exact absurd (hfade.sessionId.symm.trans hxy) hlt.ne
        · rw [hfade.userId, ← hvu]
          exact hc.owner u hu v hv (by rw [← hfade.sessionId, hxy, hvs])
    rcases hl.rows t ht with ⟨u, hu, hfade⟩ | hn
    · rcases hl.rows t' ht' with ⟨u', hu', hfade'⟩ | hn'
      · rw [hfade.userId, hfade'.userId]
        exact hc.owner u hu u' hu' (by rw [← hfade.sessionId, hs, hfade'.sessionId])
      · exact hnew t' ht' t ht hn' hs
    · exact (hnew t ht t' ht' hn hs.symm).symm
  · rcases hl.rows t ht with ⟨u, hu, hfade⟩ | hn
    · rw [hfade.sessionId]
      exact lt_of_lt_of_le (hc.below u hu) hl.issued
    · exact hn.below

/-- A session that was drawn gets no live token once it has none. -/
theorem Dead.later (hd : Dead sessionId db) (hs : sessionId < db.issued) (hl : Later U db db') :
    Dead sessionId db' := by
  intro t ht hts
  rcases hl.rows t ht with ⟨u, hu, hfade⟩ | hn
  · exact hfade.revoked (hd u hu (hfade.sessionId.symm.trans hts))
  · rcases hn.source with ⟨hfresh, -⟩ | ⟨u, hu, hus, -, hlive⟩
    · exact absurd hts (lt_of_lt_of_le hs hfresh).ne'
    · simp [hd u hu (hus.trans hts)] at hlive

/-- A user without live tokens gets one by opening a session only. -/
theorem UserDead.later (hd : UserDead userId db) (hu : ¬ U userId) (hl : Later U db db') :
    UserDead userId db' := by
  intro t ht hts
  rcases hl.rows t ht with ⟨u, hu, hfade⟩ | hn
  · exact hfade.revoked (hd u hu (hfade.userId.symm.trans hts))
  · rcases hn.source with ⟨-, hopen⟩ | ⟨v, hv, -, hvu, hlive⟩
    · exact absurd (hts ▸ hopen) hu
    · simp [hd v hv (hvu.trans hts)] at hlive

/-- The token with this hash was revoked. -/
def Spent (db : AuthDb) (h : String) : Prop := ∃ t ∈ db.tokens, t.tokenHash = h ∧ t.revoked

theorem Spent.later (hs : Spent db h) (hl : Later U db db') : Spent db' h := by
  obtain ⟨t, ht, hk, hr⟩ := hs
  obtain ⟨t', ht', hfade⟩ := hl.kept t ht
  exact ⟨t', ht', hfade.tokenHash.trans hk, hfade.revoked hr⟩

end later

/-! ### Requests -/

section requests

variable {A : AuthSettings} {c : AuthCall} {U : UUID → Prop} {db : AuthDb}

@[simp] theorem wp_randomUUID {Q : UUID → AuthDb → Prop} :
    wp randomUUID Q c db ↔ Q db.issued { db with issued := db.issued + 1 } := by
  simp only [randomUUID, wp_bind, wp_get, wp_modify, wp_pure]

@[simp] theorem wp_requireCurrentUser {Q : UUID → AuthDb → Prop} :
    wp requireCurrentUser Q c db ↔ ∀ u, c.actor = some u → Q u db := by
  simp only [requireCurrentUser, wp_bind, wp_ask, wp_orThrow]

theorem revokeAll_later (p : RefreshToken → Bool) : wp (revokeAll p) (fun _ => Later U db) c db :=
  wp_modify.2 (.revokeAll p)

/-- The users whom a login with these credentials opens a session for. -/
def AuthSettings.opens (A : AuthSettings) (db : AuthDb) (email password : String) (userId : UUID) : Prop :=
  ∃ user, A.candidate db email = some user ∧ A.passwordMatches password user.passwordHash ∧ user.id = userId

theorem login_later (hc : Chained db) (email password : String) :
    wp (A.login email password) (fun _ => Later (A.opens db email password) db) c db := by
  simp only [AuthSettings.login, AuthSettings.createSession, insertToken, wp_bind, wp_get, wp_orThrow,
    wp_require, wp_ask, wp_randomUUID, wp_modify, wp_pure]
  intro user huser hpass tokens hins
  exact hc.open hins rfl ⟨user, huser, hpass, rfl⟩

/-- What a rotation returns, and with what effect. -/
theorem rotate_spec (hc : Chained db) (raw : String) :
    wp (A.rotate raw) (fun r db' => Later U db db' ∧ match r with
      | .success session => session.refreshToken = c.randomToken ∧ Spent db' (A.hash raw) ∧
          ¬ Spent db (A.hash raw)
      | .invalid => True
      | .reused => Spent db (A.hash raw)) c db := by
  simp only [AuthSettings.rotate, wp_bind, wp_ask, wp_get]
  cases hf : db.tokens.find? (A.hash raw) with
  | none => exact wp_pure.2 ⟨.refl db, trivial⟩
  | some existing =>
    obtain ⟨hmem, hk⟩ := Table.find?_eq_some.1 hf
    simp only [wp_ite]
    refine ⟨fun hr => ?_, fun hr => ⟨fun _ => ?_, fun _ => ?_⟩⟩
    · simp only [wp_bind, wp_pure]
      exact wp_mono (revokeAll_later _) fun _ _ hl => ⟨hl, existing, hmem, hk, hr⟩
    · simp only [saveToken, wp_bind, wp_modify, wp_pure]
      exact ⟨.save hmem (existing.fades_revoke none), trivial⟩
    · cases hu : (db.users.find? existing.userId).filter (·.active) with
      | none =>
        simp only [wp_bind, wp_pure]
        exact wp_mono (revokeAll_later _) fun _ _ hl => ⟨hl, trivial⟩
      | some user =>
        simp only [insertToken, saveToken, wp_bind, wp_randomUUID, wp_get, wp_orThrow, wp_modify, wp_pure]
        intro tokens hins
        have huser : user.id = existing.userId := (Table.find?_eq_some.1 (Option.filter_eq_some_iff.1 hu).1).2
        have hlive : existing.revoked = false := by simpa using hr
        refine ⟨hc.exchange hmem hlive hins rfl huser, trivial,
          ⟨existing.revoke (some db.issued), ?_, hk, rfl⟩, ?_⟩
        · exact Table.mem_save_self ((Table.mem_insert hins).2 (.inl hmem)) rfl
        · rintro ⟨t, ht, htk, htr⟩
          obtain rfl : t = existing := Table.eq_of_key ht hmem (htk.trans hk.symm)
          exact hr htr

theorem refresh_later (hc : Chained db) (rawToken : Option String) :
    Later U db (A.refresh rawToken c db).2 := by
  unfold AuthSettings.refresh
  cases presented rawToken with
  | none => exact .refl db
  | some raw =>
    have h := rotate_spec (A := A) (c := c) (U := U) hc raw
    dsimp only
    cases hrun : (A.rotate raw).run c db with
    | error e => exact .refl db
    | ok r =>
      obtain ⟨r, db'⟩ := r
      cases r with
      | success session => exact (h _ _ hrun).1
      | invalid => exact (h _ _ hrun).1
      | reused => exact (h _ _ hrun).1

theorem AuthSettings.tokenOf_mem {rawToken : Option String} {t : RefreshToken}
    (h : A.tokenOf db rawToken = some t) : t ∈ db.tokens := by
  obtain ⟨raw, -, hf⟩ := Option.bind_eq_some_iff.1 h
  exact (Table.find?_eq_some.1 hf).1

theorem logout_later (rawToken : Option String) : wp (A.logout rawToken) (fun _ => Later U db) c db := by
  simp only [AuthSettings.logout, wp_bind, wp_get]
  cases ht : A.tokenOf db rawToken with
  | none => exact wp_pure.2 (.refl db)
  | some token => exact wp_modify.2 (.save (AuthSettings.tokenOf_mem ht) (token.fades_revoke none))

theorem revokeSession_later (tokenId : UUID) (rawCurrentToken : Option String) :
    wp (A.revokeSession tokenId rawCurrentToken) (fun _ => Later U db) c db := by
  simp only [AuthSettings.revokeSession, wp_bind, wp_requireCurrentUser, wp_get, wp_orThrow, wp_pure]
  exact fun _ _ token _ => wp_mono (revokeAll_later _) fun _ _ hl => hl

theorem revokeAllSessions_later : wp revokeAllSessions (fun _ => Later U db) c db := by
  simp only [revokeAllSessions, wp_bind, wp_requireCurrentUser]
  exact fun _ _ => revokeAll_later _

theorem changePassword_later (request : ℕ) (currentPassword newPassword encoded : String) :
    wp (A.changePassword request currentPassword newPassword encoded) (fun _ => Later U db) c db := by
  simp only [AuthSettings.changePassword, wp_bind, wp_requireCurrentUser, wp_get, wp_orThrow,
    wp_require, wp_modify]
  intro userId _ user _ _ _ changes hins
  refine .of_tokens rfl le_rfl fun p hp hr => ?_
  rcases (Table.mem_insert hins).1 hp with hp | rfl
  · exact hp
  · cases hr

theorem userDead_revokeAll (userId : UUID) :
    UserDead userId (db.revokeAll fun t => t.userId == userId && !t.revoked) := by
  intro x hx hu
  obtain ⟨y, -, rfl⟩ := AuthDb.mem_revokeAll.1 hx
  have hu' : y.userId = userId := hu
  cases hy : y.revoked <;> simp [RefreshToken.revokedIf, hu', hy]

theorem revokeForChange_later (request : ℕ) : wp (revokeForChange request) (fun _ => Later U db) c db := by
  simp only [revokeForChange, revokeAllByUserId, revokeAll, wp_bind, wp_get, wp_orThrow, wp_modify]
  intro change _
  have hl : Later U db (db.revokeAll fun t => t.userId == change.user.id && !t.revoked) := .revokeAll _
  refine ⟨hl.issued, hl.kept, fun t ht => (hl.rows t ht).imp_right fun hn =>
    ⟨hn.source, hn.below, hn.alone⟩, ?_⟩
  intro p hp _
  rcases Table.mem_save.1 hp with ⟨hp, -⟩ | ⟨rfl, -⟩
  · exact .inl hp
  · exact .inr (userDead_revokeAll change.user.id)

theorem abandonChange_later (request : ℕ) : wp (abandonChange request) (fun _ => Later U db) c db :=
  wp_modify.2 (.of_tokens rfl le_rfl fun _ hp _ => (Table.mem_delete.1 hp).1)

theorem commitChange_later (request : ℕ) : wp (commitChange request) (fun _ => Later U db) c db := by
  simp only [commitChange, abandonChange, wp_bind, wp_get, wp_orThrow, wp_modify]
  intro change _
  split
  · exact wp_pure.2 (.of_tokens rfl le_rfl fun _ hp _ => (Table.mem_delete.1 hp).1)
  · simp only [wp_bind, wp_modify, wp_pure]
    exact .of_tokens rfl le_rfl fun _ hp _ => (Table.mem_delete.1 hp).1

/-- The users whom an event may open a session for. -/
def AuthSettings.opener (A : AuthSettings) (db : AuthDb) : AuthEvent → UUID → Prop
  | .login _ email password => A.opens db email password
  | _ => fun _ => False

theorem Chained.step (hc : Chained db) (e : AuthEvent) : Later (A.opener db e) db (A.step db e) := by
  cases e with
  | login c email password => exact commit_of_wp (.refl db) (login_later hc email password)
  | refresh c rawToken => exact refresh_later hc rawToken
  | logout c rawToken => exact commit_of_wp (.refl db) (logout_later rawToken)
  | revokeSession c tokenId rawCurrentToken =>
    exact commit_of_wp (.refl db) (revokeSession_later tokenId rawCurrentToken)
  | revokeAllSessions c => exact commit_of_wp (.refl db) revokeAllSessions_later
  | changePassword c request currentPassword newPassword encoded =>
    exact commit_of_wp (.refl db) (changePassword_later request currentPassword newPassword encoded)
  | revokeForChange c request => exact commit_of_wp (.refl db) (revokeForChange_later request)
  | commitChange c request => exact commit_of_wp (.refl db) (commitChange_later request)
  | abandonChange c request => exact commit_of_wp (c := c) (.refl db) (abandonChange_later request)
  | manage c user => exact .of_tokens rfl le_rfl fun _ h _ => h

end requests

/-! ### Runs -/

section runs

variable {A : AuthSettings} {db : AuthDb}

theorem Chained.start (users : Table UserRow.id) : Chained (.start users) :=
  ⟨fun _ h => absurd h Table.not_mem_empty, fun _ h => absurd h Table.not_mem_empty, fun _ h =>
    absurd h Table.not_mem_empty⟩

theorem Chained.run (hc : Chained db) (es : List AuthEvent) : Chained (A.run db es) := by
  induction es generalizing db with
  | nil => exact hc
  | cons e es ih => exact ih (hc.later (hc.step e))

theorem Dead.run {sessionId : UUID} (hc : Chained db) (hd : Dead sessionId db) (hs : sessionId < db.issued)
    (es : List AuthEvent) : Dead sessionId (A.run db es) := by
  induction es generalizing db with
  | nil => exact hd
  | cons e es ih =>
    have hl : Later (A.opener db e) db (A.step db e) := hc.step e
    exact ih (hc.later hl) (hd.later hs hl) (lt_of_lt_of_le hs hl.issued)

/-- The event is a refresh that exchanges this token. -/
def AuthSettings.exchanged (A : AuthSettings) (raw : String) (db : AuthDb) : AuthEvent → Bool
  | .refresh c (some s) => s == raw && (A.refresh (some s) c db).1.isOk
  | _ => false

/-- How often a run exchanges this token. -/
def AuthSettings.exchanges (A : AuthSettings) (raw : String) : AuthDb → List AuthEvent → ℕ :=
  occurrences A.step (A.exchanged raw)

/-- An exchange spends the token, which was not spent before. -/
theorem Chained.exchanged (hc : Chained db) {raw : String} {e : AuthEvent} (he : A.exchanged raw db e) :
    Spent (A.step db e) (A.hash raw) ∧ ¬ Spent db (A.hash raw) := by
  cases e with
  | refresh c rawToken =>
    cases rawToken with
    | none => cases he
    | some s =>
      simp only [AuthSettings.exchanged, Bool.and_eq_true, beq_iff_eq] at he
      obtain ⟨rfl, hok⟩ := he
      have h := rotate_spec (A := A) (c := c) (U := fun _ => False) hc s
      show Spent (A.refresh (some s) c db).2 _ ∧ _
      unfold AuthSettings.refresh at hok ⊢
      cases hp : presented (some s) with
      | none =>
        rw [hp] at hok
        cases hok
      | some raw =>
        obtain ⟨hraw, -⟩ := Option.filter_eq_some_iff.1 hp
        cases hraw
        rw [hp] at hok
        dsimp only at hok ⊢
        cases hrun : (A.rotate s).run c db with
        | error e =>
          rw [hrun] at hok
          cases hok
        | ok r =>
          obtain ⟨r, db'⟩ := r
          rw [hrun] at hok
          cases r with
          | success session => exact (h _ _ hrun).2.2
          | invalid => cases hok
          | reused => cases hok
  | _ => cases he

theorem exchanged_once (A : AuthSettings) (raw : String) :
    Once A.step (A.exchanged raw) Chained fun db => Spent db (A.hash raw) where
  inv _ e hc := hc.later (hc.step e)
  stays _ e hc hs := hs.later (hc.step e)
  marks _ _ hc he := (hc.exchanged he).1
  free _ _ hc he := (hc.exchanged he).2

/-- A spent token ends its session. -/
theorem rotate_spent {c : AuthCall} {raw : String} {t : RefreshToken} (ht : t ∈ db.tokens)
    (hk : t.tokenHash = A.hash raw) (hr : t.revoked) : ∃ db', (A.rotate raw).run c db = .ok (.reused, db') ∧
      db'.tokens.rows.map (·.tokenHash) = db.tokens.rows.map (·.tokenHash) ∧ Dead t.sessionId db' := by
  have hf : db.tokens.find? (A.hash raw) = some t := Table.find?_eq_some.2 ⟨ht, hk⟩
  refine ⟨db.revokeAll fun x => x.sessionId == t.sessionId && !x.revoked, ?_, ?_, fun x hx hs => ?_⟩
  · unfold AuthSettings.rotate
    rw [run_bind_of_ok (a := c) rfl, run_bind_get, hf]
    dsimp only
    rw [if_pos hr]
    rfl
  · show (db.tokens.rows.map _).map _ = _
    rw [List.map_map]
    rfl
  · obtain ⟨y, -, rfl⟩ := AuthDb.mem_revokeAll.1 hx
    have hs' : y.sessionId = t.sessionId := hs
    cases hy : y.revoked <;> simp [RefreshToken.revokedIf, hs', hy]

end runs

/-- In every run, a session has at most one live token, a token is exchanged at most once, and a refresh
with a revoked token is answered as a reuse, creates no token and leaves its session without live tokens. -/
theorem rotation_chain (A : AuthSettings) (users : Table UserRow.id) (es : List AuthEvent) :
    let db := A.run (.start users) es
    (∀ t ∈ db.tokens, ∀ t' ∈ db.tokens, t.sessionId = t'.sessionId → t.revoked = false →
      t'.revoked = false → t = t') ∧
    (∀ raw, A.exchanges raw (.start users) es ≤ 1) ∧
    ∀ raw c, ∀ t ∈ db.tokens, t.tokenHash = A.hash raw → t.revoked → ∃ db',
      (A.rotate raw).run c db = .ok (.reused, db') ∧
      (isBlank raw = false → A.refresh (some raw) c db = (.error reuseDetected, db')) ∧
      db'.tokens.rows.map (·.tokenHash) = db.tokens.rows.map (·.tokenHash) ∧
      ∀ t' ∈ db'.tokens, t'.sessionId = t.sessionId → t'.revoked := by
  intro db
  have hc : Chained db := (Chained.start users).run es
  refine ⟨hc.single, fun raw => (exchanged_once A raw).le_one (.start users) es, fun raw c t ht hk hr => ?_⟩
  obtain ⟨db', hrun, hrows, hdead⟩ := rotate_spent (c := c) ht hk hr
  refine ⟨db', hrun, fun hb => ?_, hrows, hdead⟩
  have hp : presented (some raw) = some raw := by simp [presented, hb]
  simp only [AuthSettings.refresh, hp, hrun]

end GManager.Auth
