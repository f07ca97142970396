import GManager.RotationChain

/-!
# Revocations are final

Which sessions the end of a request promises to have ended, and when it keeps the promise. A session without
live tokens stays so; a revocation by session or by user leaves none. A logout revokes the one row that it
is shown, so it leaves the successor of a token that was exchanged before; and a login between the
revocation of a password change and its commit opens a session with the old password. A login that another
transaction can overtake is in `Logins`.
-/

namespace GManager.Auth

open Txn

namespace AuthSettings

variable (A : AuthSettings)

/-- The session of the token that a request presents. -/
def sessionOf (db : AuthDb) (rawToken : Option String) : Option UUID :=
  (A.tokenOf db rawToken).map (·.sessionId)

/-- Some refresh with this token succeeds. -/
def Usable (db : AuthDb) (raw : String) : Prop := ∃ c, (A.refresh (some raw) c db).1.isOk

/-- The sessions that the event, a request that returns normally, has to end. -/
def Ends (db : AuthDb) : AuthEvent → UUID → Prop
  | .logout _ rawToken, sessionId => A.sessionOf db rawToken = some sessionId
  | .revokeSession c tokenId _, sessionId =>
    ∃ userId t, c.actor = some userId ∧ db.findByIdAndUserId tokenId userId = some t ∧ t.sessionId = sessionId
  | .revokeAllSessions c, sessionId => ∃ t ∈ db.tokens, c.actor = some t.userId ∧ t.sessionId = sessionId
  | .commitChange c request, sessionId =>
    ∃ userId db', (commitChange request).run c db = .ok (some userId, db') ∧
      ∃ t ∈ db.tokens, t.userId = userId ∧ t.sessionId = sessionId
  | _, _ => False

/-- A logout does not present a token that was exchanged while its session is in use, and a login is not for
a user whose tokens a running password change has revoked. -/
def Careful (db : AuthDb) : AuthEvent → Prop
  | .logout _ rawToken => ∀ t, A.tokenOf db rawToken = some t → t.revoked → Dead t.sessionId db
  | .login _ email password =>
    ∀ userId, A.opens db email password userId → ∀ p ∈ db.changes, p.revoked → p.user.id ≠ userId
  | _ => True

end AuthSettings

/-- The user of a password change that has revoked the user's tokens has no live token. -/
def Shut (db : AuthDb) : Prop := ∀ p ∈ db.changes, p.revoked → UserDead p.user.id db

section revocation

variable {A : AuthSettings} {c : AuthCall} {db : AuthDb} {e : AuthEvent} {sessionId : UUID}

theorem Shut.later {U : UUID → Prop} {db' : AuthDb} (hs : Shut db) (hl : Later U db db')
    (hU : ∀ p ∈ db.changes, p.revoked → ¬ U p.user.id) : Shut db' := by
  intro p hp hr
  rcases hl.changes p hp hr with hold | hdead
  · exact (hs p hold hr).later (hU p hold hr) hl
  · exact hdead

/-- A careful request opens no session for a user whose tokens a running password change has revoked. -/
theorem AuthSettings.Careful.opener (he : A.Careful db e) : ∀ p ∈ db.changes, p.revoked →
    ¬ A.opener db e p.user.id := by
  intro p hp hr hopen
  cases e with
  | login c email password => exact he p.user.id hopen p hp hr rfl
  | _ => exact hopen

/-- A token of a dead session is not usable. -/
theorem Dead.not_usable (hd : Dead sessionId db) {raw : String}
    (hs : A.sessionOf db (some raw) = some sessionId) : ¬ A.Usable db raw := by
  obtain ⟨t, ht, rfl⟩ := Option.map_eq_some_iff.1 hs
  obtain ⟨r, hp, hf⟩ := Option.bind_eq_some_iff.1 ht
  obtain ⟨hr, -⟩ := Option.filter_eq_some_iff.1 hp
  cases hr
  obtain ⟨hmem, hk⟩ := Table.find?_eq_some.1 hf
  rintro ⟨c, hok⟩
  obtain ⟨db', hrun, -⟩ := rotate_spent (A := A) (c := c) hmem hk (hd t hmem rfl)
  simp only [AuthSettings.refresh, hp, hrun] at hok
  cases hok

theorem Chained.dead_of_user (hc : Chained db) {t : RefreshToken} (ht : t ∈ db.tokens)
    (hd : UserDead t.userId db) : Dead t.sessionId db := fun x hx hs => hd x hx (hc.owner x hx t ht hs)

theorem dead_revokeAll (sessionId : UUID) :
    Dead sessionId (db.revokeAll fun t => t.sessionId == sessionId && !t.revoked) := by
  intro x hx hs
  obtain ⟨y, -, rfl⟩ := AuthDb.mem_revokeAll.1 hx
  have hs' : y.sessionId = sessionId := hs
  cases hy : y.revoked <;> simp [RefreshToken.revokedIf, hs', hy]

/-- The row of a session's live token is revoked. -/
theorem Chained.dead_save (hc : Chained db) {t : RefreshToken} (ht : t ∈ db.tokens)
    (hlive : t.revoked = false) (id : Option UUID) :
    Dead t.sessionId { db with tokens := db.tokens.save (t.revoke id) } := by
  intro x hx hs
  rcases Table.mem_save.1 hx with ⟨hx, hk⟩ | ⟨rfl, -⟩
  · by_contra hr
    have hxt : x = t := hc.single x hx t ht hs (by simpa using hr) hlive
    exact hk (hxt ▸ rfl)
  · rfl

theorem logout_dead (hc : Chained db) {rawToken : Option String} (he : A.Careful db (.logout c rawToken))
    (hs : A.sessionOf db rawToken = some sessionId) : Dead sessionId (A.step db (.logout c rawToken)) := by
  obtain ⟨t, ht, rfl⟩ := Option.map_eq_some_iff.1 hs
  have hmem := AuthSettings.tokenOf_mem ht
  have hstep : A.step db (.logout c rawToken) = { db with tokens := db.tokens.save (t.revoke none) } := by
    simp only [AuthSettings.step, AuthSettings.logout, commit, run_bind_get, ht]
    rfl
  cases hr : t.revoked with
  | false => exact hstep ▸ hc.dead_save hmem hr none
  | true => exact (he t ht hr).later (hc.below t hmem) (hc.step _)

theorem revokeSession_dead {tokenId userId : UUID} {rawCurrentToken : Option String} {t : RefreshToken}
    (hu : c.actor = some userId) (ht : db.findByIdAndUserId tokenId userId = some t) :
    Dead t.sessionId (A.step db (.revokeSession c tokenId rawCurrentToken)) := by
  have hstep : A.step db (.revokeSession c tokenId rawCurrentToken) =
      db.revokeAll fun x => x.sessionId == t.sessionId && !x.revoked := by
    have huser : requireCurrentUser.run c db = .ok (userId, db) := by
      simp only [requireCurrentUser, Txn.run, bind, ask, orThrow, hu]
    simp only [AuthSettings.step, AuthSettings.revokeSession, commit, run_bind_of_ok huser, run_bind_get, ht]
    rfl
  exact hstep ▸ dead_revokeAll t.sessionId

theorem revokeAllSessions_dead {userId : UUID} (hu : c.actor = some userId) :
    UserDead userId (A.step db (.revokeAllSessions c)) := by
  have hstep : A.step db (.revokeAllSessions c) = db.revokeAll fun t => t.userId == userId && !t.revoked := by
    have huser : requireCurrentUser.run c db = .ok (userId, db) := by
      simp only [requireCurrentUser, Txn.run, bind, ask, orThrow, hu]
    simp only [AuthSettings.step, revokeAllSessions, commit, run_bind_of_ok huser]
    rfl
  exact hstep ▸ userDead_revokeAll userId

/-- A password change commits after its revocation only. -/
theorem commitChange_revoked {request : ℕ} :
    wp (commitChange request) (fun r _ => ∀ userId, r = some userId → ∃ p ∈ db.changes, p.revoked ∧
      p.user.id = userId) c db := by
  simp only [commitChange, abandonChange, wp_bind, wp_get, wp_orThrow, wp_modify]
  intro change hchange
  obtain ⟨hf, hr⟩ := Option.filter_eq_some_iff.1 hchange
  split
  · exact wp_pure.2 fun _ h => by cases h
  · simp only [wp_bind, wp_modify, wp_pure]
    rintro userId h
    cases h
    exact ⟨change, (Table.find?_eq_some.1 hf).1, hr, rfl⟩

/-- A careful request ends the sessions that it has to end. -/
theorem Chained.ends (hc : Chained db) (hshut : Shut db) (he : A.Careful db e) (hs : A.Ends db e sessionId) :
    Dead sessionId (A.step db e) ∧ sessionId < db.issued := by
  cases e with
  | logout c rawToken =>
    refine ⟨logout_dead hc he hs, ?_⟩
    obtain ⟨t, ht, rfl⟩ := Option.map_eq_some_iff.1 hs
    exact hc.below t (AuthSettings.tokenOf_mem ht)
  | revokeSession c tokenId rawCurrentToken =>
    obtain ⟨userId, t, hu, ht, rfl⟩ := hs
    exact ⟨revokeSession_dead hu ht, hc.below t (List.mem_of_find?_eq_some ht)⟩
  | revokeAllSessions c =>
    obtain ⟨t, ht, hu, rfl⟩ := hs
    refine ⟨?_, hc.below t ht⟩
    have hl := hc.step (A := A) (.revokeAllSessions c)
    obtain ⟨t', ht', hfade⟩ := hl.kept t ht
    rw [← hfade.sessionId]
    exact (hc.later hl).dead_of_user ht' (hfade.userId ▸ revokeAllSessions_dead hu)
  | commitChange c request =>
    obtain ⟨userId, db', hrun, t, ht, rfl, rfl⟩ := hs
    obtain ⟨p, hp, hr, hu⟩ := commitChange_revoked _ _ hrun _ rfl
    have hd : Dead t.sessionId db := hc.dead_of_user ht (hu ▸ hshut p hp hr)
    exact ⟨hd.later (hc.below t ht) (hc.step _), hc.below t ht⟩
  | _ => exact hs.elim

end revocation

/-! ### Settings for runs on fixed inputs -/

namespace Visit

/-- Digests and encoded passwords are the strings themselves. -/
def plain : AuthSettings := ⟨id, (· == ·), (· == ·), 30⟩

def users : Table UserRow.id := ⟨[⟨7, "a@b", "old", true, false, 0⟩], by decide⟩

def call (token : String) : AuthCall := ⟨some 7, 0, 0, ⟨"device", "agent", "ip"⟩, token⟩

end Visit

end GManager.Auth
