import GManager.Revocation

/-!
# Logins that are overtaken

`AuthService.login` reads its user without a lock, checks the password and inserts the token at the
end of its transaction, so other requests run in between: `read` and `finish` are the two ends. A
session that a login has opened is one with the password that it has read, also when the password was
changed since. `revocation_final` says when every request that returns has ended the sessions that it
has to end, over any interleaving.
-/

namespace GManager.Auth

open Txn

/-- A login that has read its user and checked the password. `before` counts the changes of passwords that
had returned then, and `session` is the session that it has opened. -/
structure OpenLogin where
  request : ℕ
  user : UserRow
  before : ℕ
  session : Option UUID
  deriving DecidableEq, Repr

/-- The tables, the logins, and the users to whom a change of the password has returned, in order. -/
structure LoginDb where
  db : AuthDb
  logins : Table OpenLogin.request
  returned : List UUID

/-- The other requests are those of `AuthEvent`. A login that fails behind its check does not finish. -/
inductive LoginEvent
  | read (request : ℕ) (email password : String)
  | finish (c : AuthCall) (request : ℕ)
  | request (e : AuthEvent)

def LoginDb.start (users : Table UserRow.id) : LoginDb := ⟨.start users, .empty, []⟩

/-- The user to whom a change of the password returns. -/
def AuthEvent.returns (db : AuthDb) : AuthEvent → Option UUID
  | .commitChange c request => match (Auth.commitChange request).run c db with
    | .ok (user, _) => user
    | .error _ => none
  | _ => none

namespace AuthSettings

variable (A : AuthSettings)

def loginStep (s : LoginDb) : LoginEvent → LoginDb
  | .read request email password =>
    match (A.candidate s.db email).filter fun user => A.passwordMatches password user.passwordHash with
    | none => s
    | some user =>
      { s with logins := (s.logins.insert ⟨request, user, s.returned.length, none⟩).getD s.logins }
  | .finish c request =>
    match (s.logins.find? request).filter fun l => l.session.isNone with
    | none => s
    | some l => match (A.createSession l.user).run c s.db with
      | .error _ => s
      | .ok (session, db) =>
        { s with db, logins := s.logins.save { l with session := some session.sessionId } }
  | .request e => { s with db := A.step s.db e, returned := s.returned ++ (e.returns s.db).toList }

def loginRun (s : LoginDb) (es : List LoginEvent) : LoginDb := es.foldl A.loginStep s

theorem loginRun_append (s : LoginDb) (es fs : List LoginEvent) :
    A.loginRun s (es ++ fs) = A.loginRun (A.loginRun s es) fs :=
  List.foldl_append ..

/-- The sessions that the event, a request that returns, has to end by the state `s'`. The
return of a changed password ends those of the user, and those that a login opens later which
had read the user by then. -/
def EndsBy (s s' : LoginDb) : LoginEvent → UUID → Prop
  | .request e, sessionId => A.Ends s.db e sessionId ∨
    ∃ userId ∈ e.returns s.db, ∃ l ∈ s.logins, l.user.id = userId ∧
      ∃ l' ∈ s'.logins, l'.request = l.request ∧ l'.session = some sessionId
  | _, _ => False

/-- After the run, no token of a session that a request of the run had to end is usable. -/
def Final (s : LoginDb) (es : List LoginEvent) : Prop :=
  ∀ pre e post, es = pre ++ e :: post →
    ∀ sessionId, A.EndsBy (A.loginRun s pre) (A.loginRun s es) e sessionId →
    ∀ raw, A.sessionOf (A.loginRun s es).db (some raw) = some sessionId → ¬ A.Usable (A.loginRun s es).db raw

/-- A login does not finish while a running password change has revoked the tokens of its user, nor after a
password change of the user that has returned since it read the user. -/
def CarefulLogin (s : LoginDb) : LoginEvent → Prop
  | .read .. => True
  | .finish _ request => ∀ l ∈ s.logins, l.request = request → l.session = none →
    (∀ p ∈ s.db.changes, p.revoked → p.user.id ≠ l.user.id) ∧ l.user.id ∉ s.returned.drop l.before
  | .request e => A.Careful s.db e

def CarefulRun (s : LoginDb) : List LoginEvent → Prop
  | [] => True
  | e :: es => A.CarefulLogin s e ∧ CarefulRun (A.loginStep s e) es

end AuthSettings

section logins

variable {A : AuthSettings} {c : AuthCall} {s s' : LoginDb} {e : LoginEvent} {sessionId : UUID}
  {l : OpenLogin} {db db' : AuthDb}

/-- A login goes on, or has opened its session. -/
structure OpenLogin.Goes (l l' : OpenLogin) : Prop where
  request : l'.request = l.request
  user : l'.user = l.user
  before : l'.before = l.before
  session : ∀ id ∈ l.session, l'.session = some id

theorem OpenLogin.Goes.rfl : l.Goes l := ⟨.refl _, .refl _, .refl _, fun _ h => h⟩

theorem createSession_later (hc : Chained db) (user : UserRow) : wp (A.createSession user) (fun session db' =>
    Later (fun u => u = user.id) db db' ∧ ∃ t ∈ db'.tokens, t.sessionId = session.sessionId ∧
      t.userId = user.id) c db := by
  simp only [AuthSettings.createSession, insertToken, wp_bind, wp_get, wp_orThrow, wp_ask, wp_randomUUID,
    wp_modify, wp_pure]
  intro tokens hins
  exact ⟨hc.open hins rfl rfl, _, (Table.mem_insert hins).2 (.inr rfl), rfl, rfl⟩

/-! ### A step -/

/-- What a step does: nothing, the start of a login, a new session, or a request. -/
inductive LoginEffect (A : AuthSettings) (s : LoginDb) : LoginEvent → LoginDb → Prop
  | stay {e : LoginEvent} (h : ∀ x, e ≠ .request x) : LoginEffect A s e s
  | read {e : LoginEvent} {l : OpenLogin} {logins : Table OpenLogin.request}
      (hins : s.logins.insert l = some logins) (hbefore : l.before = s.returned.length)
        (hopen : l.session = none) : LoginEffect A s e { s with logins }
  | finish {c : AuthCall} {l : OpenLogin} {session : Session} {db : AuthDb} (hl : l ∈ s.logins)
      (hopen : l.session = none) (hrun : (A.createSession l.user).run c s.db = .ok (session, db)) :
      LoginEffect A s (.finish c l.request)
        { s with db, logins := s.logins.save { l with session := some session.sessionId } }
  | request (e : AuthEvent) : LoginEffect A s (.request e)
      { s with db := A.step s.db e, returned := s.returned ++ (e.returns s.db).toList }

theorem loginStep_effect (A : AuthSettings) (s : LoginDb) (e : LoginEvent) :
    LoginEffect A s e (A.loginStep s e) := by
  cases e with
  | read request email password =>
    simp only [AuthSettings.loginStep]
    split
    · exact .stay (by simp)
    · rename_i user _
      cases hins : s.logins.insert ⟨request, user, s.returned.length, none⟩ with
      | none => exact .stay (by simp)
      | some logins => exact .read hins rfl rfl
  | finish c request =>
    simp only [AuthSettings.loginStep]
    split
    · exact .stay (by simp)
    · rename_i l hl
      obtain ⟨hfind, hopen⟩ := Option.filter_eq_some_iff.1 hl
      obtain ⟨hmem, rfl⟩ := Table.find?_eq_some.1 hfind
      split
      · exact .stay (by simp)
      · rename_i session db hrun
        exact .finish hmem (Option.isNone_iff_eq_none.1 hopen) hrun
  | request e => exact .request e

/-- The users whom a step may open a session for. -/
def opensFor (A : AuthSettings) (s : LoginDb) : LoginEvent → UUID → Prop
  | .read .. => fun _ => False
  | .finish _ request => fun userId => ∃ l ∈ s.logins, l.request = request ∧ l.session = none ∧
      l.user.id = userId
  | .request e => A.opener s.db e

theorem LoginEffect.later (h : LoginEffect A s e s') (hc : Chained s.db) :
    Later (opensFor A s e) s.db s'.db := by
  cases h with
  | stay => exact .refl s.db
  | read => exact .refl s.db
  | @finish c l session db hl hopen hrun =>
    have hlater := (createSession_later hc l.user _ _ hrun).1
    refine ⟨hlater.issued, hlater.kept, fun t ht => (hlater.rows t ht).imp_right fun hn => ?_, hlater.changes⟩
    exact ⟨hn.source.imp_left fun h => ⟨h.1, l, hl, rfl, hopen, h.2.symm⟩, hn.below, hn.alone⟩
  | request e => exact hc.step e

/-- What every run keeps. -/
structure LoginDb.Inv (s : LoginDb) : Prop where
  chained : Chained s.db
  opened : ∀ l ∈ s.logins, ∀ id ∈ l.session, ∃ t ∈ s.db.tokens, t.sessionId = id ∧ t.userId = l.user.id
  before : ∀ l ∈ s.logins, l.before ≤ s.returned.length

theorem LoginDb.Inv.effect (h : s.Inv) (he : LoginEffect A s e s') : s'.Inv := by
  have hl := he.later h.chained
  have hkept : ∀ {id userId : UUID}, (∃ t ∈ s.db.tokens, t.sessionId = id ∧ t.userId = userId) →
      ∃ t ∈ s'.db.tokens, t.sessionId = id ∧ t.userId = userId := by
    rintro id userId ⟨t, ht, hid, hu⟩
    obtain ⟨t', ht', hfade⟩ := hl.kept t ht
    exact ⟨t', ht', hfade.sessionId.trans hid, hfade.userId.trans hu⟩
  cases he with
  | stay => exact h
  | @read _ l logins hins hbefore hopen =>
    refine ⟨h.chained, fun x hx id hid => ?_, fun x hx => ?_⟩
    · rcases (Table.mem_insert hins).1 hx with hx | rfl
      · exact h.opened x hx id hid
      · rw [hopen] at hid
        cases hid
    · rcases (Table.mem_insert hins).1 hx with hx | rfl
      · exact h.before x hx
      · exact hbefore.le
  | @finish c l session db hmem hopen hrun =>
    refine ⟨h.chained.later hl, fun x hx id hid => ?_, fun x hx => ?_⟩
    · rcases Table.mem_save.1 hx with ⟨hx, -⟩ | ⟨rfl, -⟩
      · exact hkept (h.opened x hx id hid)
      · cases hid
        exact (createSession_later h.chained l.user _ _ hrun).2
    · rcases Table.mem_save.1 hx with ⟨hx, -⟩ | ⟨rfl, -⟩
      · exact h.before x hx
      · exact h.before l hmem
  | request e =>
    exact ⟨h.chained.later hl, fun x hx id hid => hkept (h.opened x hx id hid), fun x hx =>
      (h.before x hx).trans (by simp)⟩

theorem LoginEffect.goes (h : LoginEffect A s e s') (hl : l ∈ s.logins) : ∃ l' ∈ s'.logins, l.Goes l' := by
  cases h with
  | stay => exact ⟨l, hl, .rfl⟩
  | read hins _ _ => exact ⟨l, (Table.mem_insert hins).2 (.inl hl), .rfl⟩
  | @finish c l₀ session db hmem hopen hrun =>
    by_cases hr : l.request = l₀.request
    · obtain rfl := Table.eq_of_key hl hmem hr
      exact ⟨_, Table.mem_save_self hl rfl, rfl, rfl, rfl, fun id hid => by rw [hopen] at hid; cases hid⟩
    · exact ⟨l, Table.mem_save.2 (.inl ⟨hl, hr⟩), .rfl⟩
  | request e => exact ⟨l, hl, .rfl⟩

theorem LoginEffect.shut (h : LoginEffect A s e s') (hs : Shut s.db) (hi : s.Inv)
    (he : A.CarefulLogin s e) : Shut s'.db := by
  refine hs.later (h.later hi.chained) fun p hp hr => ?_
  cases e with
  | read request email password => exact fun h => h
  | finish c request =>
    rintro ⟨l, hl, hreq, hopen, huser⟩
    exact (he l hl hreq hopen).1 p hp hr huser.symm
  | request e => exact AuthSettings.Careful.opener he p hp hr

/-! ### Runs -/

/-- The login has read its user before a change of the password that has returned,
and has opened no session. -/
def Overtaken (request : ℕ) (s : LoginDb) : Prop :=
  ∃ l ∈ s.logins, l.request = request ∧ l.session = none ∧ l.user.id ∈ s.returned.drop l.before

theorem Overtaken.effect {request : ℕ} (h : Overtaken request s) (hstep : LoginEffect A s e s')
    (he : A.CarefulLogin s e) :
    Overtaken request s' := by
  obtain ⟨l, hl, hreq, hopen, huser⟩ := h
  cases hstep with
  | stay => exact ⟨l, hl, hreq, hopen, huser⟩
  | read hins _ _ => exact ⟨l, (Table.mem_insert hins).2 (.inl hl), hreq, hopen, huser⟩
  | @finish c l₀ session db hmem hopen₀ hrun =>
    refine ⟨l, Table.mem_save.2 (.inl ⟨hl, fun hr => ?_⟩), hreq, hopen, huser⟩
    exact (he l hl hr hopen).2 huser
  | request e =>
    refine ⟨l, hl, hreq, hopen, ?_⟩
    rw [List.drop_append]
    exact List.mem_append_left _ huser

theorem AuthSettings.careful_append (es fs : List LoginEvent) :
    A.CarefulRun s (es ++ fs) ↔ A.CarefulRun s es ∧ A.CarefulRun (A.loginRun s es) fs := by
  induction es generalizing s with
  | nil => exact (iff_of_eq (true_and _)).symm
  | cons e es ih => exact (and_congr_right fun _ => ih).trans and_assoc.symm

/-- What holds in a careful run, from any of its states on. -/
theorem AuthSettings.CarefulRun.keeps {es : List LoginEvent} (h : A.CarefulRun s es) (hi : s.Inv)
    (hs : Shut s.db) (sessionId : UUID) : (A.loginRun s es).Inv ∧ Shut (A.loginRun s es).db ∧
      (sessionId < s.db.issued → Dead sessionId s.db → Dead sessionId (A.loginRun s es).db) ∧
      (∀ l ∈ s.logins, ∃ l' ∈ (A.loginRun s es).logins, l.Goes l') ∧
      ∀ request, Overtaken request s → Overtaken request (A.loginRun s es) := by
  induction es generalizing s with
  | nil => exact ⟨hi, hs, fun _ hd => hd, fun l hl => ⟨l, hl, .rfl⟩, fun _ h => h⟩
  | cons e es ih =>
    have hstep := loginStep_effect A s e
    have hl := hstep.later hi.chained
    obtain ⟨hi', hs', hd', hgoes, hover⟩ := ih h.2 (hi.effect hstep) (hstep.shut hs hi h.1)
    refine ⟨hi', hs', fun hlt hd => hd' (lt_of_lt_of_le hlt hl.issued) (hd.later hlt hl), fun l hmem => ?_,
      fun request ho => hover request (ho.effect hstep h.1)⟩
    obtain ⟨l₁, hl₁, h₁⟩ := hstep.goes hmem
    obtain ⟨l₂, hl₂, h₂⟩ := hgoes l₁ hl₁
    exact ⟨l₂, hl₂, h₂.request.trans h₁.request, h₂.user.trans h₁.user, h₂.before.trans h₁.before,
      fun id hid => h₂.session id (h₁.session id hid)⟩

theorem LoginDb.Inv.start (users : Table UserRow.id) : (LoginDb.start users).Inv :=
  ⟨.start users, fun _ h => absurd h Table.not_mem_empty, fun _ h => absurd h Table.not_mem_empty⟩

/-- A change of the password that returns is a commit. -/
theorem AuthEvent.returns_eq_some {e : AuthEvent} {userId : UUID} (h : e.returns db = some userId) :
    ∃ c request db', e = .commitChange c request ∧
    (Auth.commitChange request).run c db = .ok (some userId, db') := by
  cases e with
  | commitChange c request =>
    simp only [AuthEvent.returns] at h
    split at h
    · rename_i user db' hrun
      cases h
      exact ⟨c, request, db', rfl, hrun⟩
    · cases h
  | _ => cases h

/-- The login that had read the user when the change of the password returned has
opened its session before. -/
theorem ends_of_login {e : AuthEvent} {userId : UUID} {post : List LoginEvent} (hi : s.Inv) (hs : Shut s.db)
    (h : A.CarefulRun s (.request e :: post)) (hreturn : e.returns s.db = some userId) (hl : l ∈ s.logins)
    (huser : l.user.id = userId) {l' : OpenLogin} (hl' : l' ∈ (A.loginRun s (.request e :: post)).logins)
    (hreq : l'.request = l.request) (hsession : l'.session = some sessionId) : A.Ends s.db e sessionId := by
  have hstep := loginStep_effect A s (.request e)
  obtain ⟨-, -, -, hgoes, hovertaken⟩ := h.2.keeps (hi.effect hstep) (hstep.shut hs hi h.1) sessionId
  cases hopen : l.session with
  | some id =>
    obtain ⟨l₁, hl₁, h₁⟩ := hstep.goes hl
    obtain ⟨l₂, hl₂, h₂⟩ := hgoes l₁ hl₁
    have hsame : l₂ = l' := Table.eq_of_key hl₂ hl' ((h₂.request.trans h₁.request).trans hreq.symm)
    have hid := h₂.session id (h₁.session id hopen)
    rw [hsame, hsession] at hid
    cases hid
    obtain ⟨t, ht, htid, htu⟩ := hi.opened l hl sessionId hopen
    obtain ⟨c, request, db', rfl, hrun⟩ := AuthEvent.returns_eq_some hreturn
    exact ⟨userId, db', hrun, t, ht, htu.trans huser, htid⟩
  | none =>
    have hdrop : (s.returned ++ (e.returns s.db).toList).drop l.before =
        s.returned.drop l.before ++ [userId] := by
      rw [List.drop_append_of_le_length (hi.before l hl), hreturn]
      rfl
    have hover : Overtaken l.request (A.loginStep s (.request e)) := by
      refine ⟨l, hl, rfl, hopen, ?_⟩
      show l.user.id ∈ (s.returned ++ (e.returns s.db).toList).drop l.before
      rw [hdrop, huser]
      exact List.mem_append_right _ List.mem_cons_self
    obtain ⟨x, hx, hxreq, hxopen, -⟩ := hovertaken _ hover
    have hsame : x = l' := Table.eq_of_key hx hl' (hxreq.trans hreq.symm)
    rw [hsame, hsession] at hxopen
    cases hxopen

end logins

/-- In a run of careful requests, a session that a request had to end has no usable
token in any later state. -/
theorem revocation_final (A : AuthSettings) (users : Table UserRow.id) (es : List LoginEvent)
    (h : A.CarefulRun (.start users) es) : A.Final (.start users) es := by
  rintro pre e post rfl sessionId hs raw hraw
  obtain ⟨hpre, hpost⟩ := (AuthSettings.careful_append pre (e :: post)).1 h
  obtain ⟨hi, hshut, -⟩ := hpre.keeps (.start users) (fun _ hp => absurd hp Table.not_mem_empty) sessionId
  rw [A.loginRun_append] at hs hraw ⊢
  cases e with
  | read request email password => exact hs.elim
  | finish c request => exact hs.elim
  | request e =>
    have hends : A.Ends (A.loginRun (.start users) pre).db e sessionId := by
      rcases hs with hends | ⟨userId, hreturn, l, hl, huser, l', hl', hreq, hsession⟩
      · exact hends
      · exact ends_of_login hi hshut hpost hreturn hl huser hl' hreq hsession
    obtain ⟨hd, hlt⟩ := hi.chained.ends hshut hpost.1 hends
    have hstep := loginStep_effect A (A.loginRun (.start users) pre) (.request e)
    have hlater := hstep.later hi.chained
    obtain ⟨-, -, hdead, -⟩ := hpost.2.keeps (hi.effect hstep) (hstep.shut hshut hi hpost.1) sessionId
    exact (hdead (lt_of_lt_of_le hlt hlater.issued) hd).not_usable hraw

/-! ### Examples of runs -/

namespace Visit

def read (request : ℕ) : LoginEvent := .read request "a@b" "old"

def finish (request : ℕ) (token : String) : LoginEvent := .finish (call token) request

/-- The three transactions of a change of the password. -/
def change : List LoginEvent :=
  [.request (.changePassword (call "") 0 "old" "new" "new"), .request (.revokeForChange (call "") 0),
    .request (.commitChange (call "") 0)]

/-- A token is exchanged, and the user logs out with the new one; then the password is changed. -/
def orderly : List LoginEvent :=
  [read 0, finish 0 "t1", .request (.refresh (call "t2") (some "t1")),
    .request (.logout (call "") (some "t2")), read 1, finish 1 "t3"] ++ change

/-- A token is exchanged, and the user logs out with the old one. -/
def stale : List LoginEvent :=
  [read 0, finish 0 "t1", .request (.refresh (call "t2") (some "t1")),
    .request (.logout (call "") (some "t1"))]

/-- A login comes in between the revocation and the commit of a password change. -/
def between : List LoginEvent := change.take 2 ++ [read 0, finish 0 "t1"] ++ change.drop 2

/-- A login reads the user before a password change, and opens its session when that has returned. -/
def overtaken : List LoginEvent := read 0 :: change ++ [finish 0 "t1"]

end Visit

open Visit in
theorem revocation_final_orderly : plain.CarefulRun (.start users) orderly ∧
    plain.Final (.start users) orderly := by
  have hfinish : ∀ s : LoginDb, s.db.changes.rows = [] → s.returned = [] → ∀ request token,
      plain.CarefulLogin s (finish request token) := by
    intro s hchanges hreturned request token l _ _ _
    refine ⟨fun p hp => ?_, by simp [hreturned]⟩
    have hp' : p ∈ s.db.changes.rows := hp
    simp [hchanges] at hp'
  have h : plain.CarefulRun (.start users) orderly := by
    refine ⟨trivial, hfinish _ (by decide +kernel) (by decide +kernel) 0 "t1", trivial, fun t ht hr => ?_,
      trivial, hfinish _ (by decide +kernel) (by decide +kernel) 1 "t3", trivial, trivial, trivial, trivial⟩
    have hlive : (plain.tokenOf (plain.loginRun (.start users)
      [read 0, finish 0 "t1", .request (.refresh (call "t2") (some "t1"))]).db (some "t2")).all
        (!·.revoked) := by decide +kernel
    have ht' : plain.tokenOf (plain.loginRun (.start users)
      [read 0, finish 0 "t1", .request (.refresh (call "t2") (some "t1"))]).db (some "t2") = some t := ht
    simp [ht', hr] at hlive
  exact ⟨h, revocation_final plain users orderly h⟩

open Visit in
/-- After a logout with an exchanged token its successor is exchanged again, and so is, after a change of
the password, the token of a login with the old one that came in between or that was overtaken. -/
theorem not_final : ¬ plain.Final (.start users) stale ∧ ¬ plain.Final (.start users) between ∧
    ¬ plain.Final (.start users) overtaken := by
  refine ⟨fun h => ?_, fun h => ?_, fun h => ?_⟩
  · refine h [read 0, finish 0 "t1", .request (.refresh (call "t2") (some "t1"))] _ [] rfl 0 (.inl ?_) "t2"
      (by decide +kernel) ?_
    · show plain.sessionOf _ (some "t1") = some 0
      decide +kernel
    · exact ⟨call "t3", by decide +kernel⟩
  · refine h (change.take 2 ++ [read 0, finish 0 "t1"]) _ [] rfl 0 (.inl ⟨7, _, rfl, ?_⟩) "t1"
      (by decide +kernel) ?_
    · exact ⟨_, List.mem_singleton.2 rfl, rfl, rfl⟩
    · exact ⟨call "t2", by decide +kernel⟩
  · refine h (read 0 :: change.take 2) _ [finish 0 "t1"] rfl 0 (.inr ⟨7, by decide +kernel, ?_⟩) "t1"
      (by decide +kernel) ?_
    · exact ⟨_, List.mem_singleton.2 rfl, rfl, _, List.mem_singleton.2 rfl, rfl, rfl⟩
    · exact ⟨call "t2", by decide +kernel⟩

end GManager.Auth
