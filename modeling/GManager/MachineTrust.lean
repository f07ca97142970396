import GManager.IdentityLifecycle

/-!
# Machine identities over whole runs

The step lemma of `IdentityLifecycle`, carried through runs: an enrolment token and a challenge are used
once, a lapsed identity gets no challenge and no token and its tokens are refused, and a revocation covers
all that a station has until a new enrolment token is created and exchanged.
-/

namespace GManager.Machines

open Txn

/-- The stations that an event may create an enrolment token for. -/
def MachineEvent.Creates : MachineEvent → UUID → Prop
  | .createToken _ stationId _, s => s = stationId
  | _, _ => False

/-- The station that an event enrols an identity of. -/
def Enrols (K : MachineCrypto) (db : MachineDb) : MachineEvent → UUID → Prop
  | .enroll c r, s => ∃ response db', request (enroll K r) c db = .ok (response, db') ∧ s = response.stationId
  | _, _ => False

/-- The event exchanges this enrolment token. -/
def enrolled (K : MachineCrypto) (raw : String) (db : MachineDb) : MachineEvent → Bool
  | .enroll c r => r.enrollmentToken == raw && (request (enroll K r) c db).isOk
  | _ => false

/-- The event exchanges this challenge. -/
def answered (K : MachineCrypto) (challengeId : UUID) (db : MachineDb) : MachineEvent → Bool
  | .token c r => r.challengeId == challengeId && (request (token K r) c db).isOk
  | _ => false

/-- The identity obtains no challenge and no token, and no bearer token authenticates it. -/
structure Barred (K : MachineCrypto) (db : MachineDb) (identityId : UUID) : Prop where
  challenge : ∀ c, (request (challenge K identityId) c db).isOk = false
  token : ∀ c r, r.identityId = identityId → (request (token K r) c db).isOk = false
  bearer : ∀ c b p db', request (authenticate K b) c db = .ok (some p, db') → p.identityId ≠ identityId

/-! ### Steps -/

section steps

variable {K : MachineCrypto} {c : MachineCall} {U V : UUID → Prop} {db db' : MachineDb} {e : MachineEvent}
  {α : Type} {x : MachineTx α} {i : StationMachineIdentity}

/-- What a transaction establishes when it is called with its readings, its request establishes. -/
theorem after_of_wp {P : MachineDb → Prop} (h0 : P db)
    (h : ∀ a db', request x c db = .ok (a, db') → P db') : P (after x c db) := by
  unfold after
  split
  · exact h _ _ ‹_›
  · exact h0

theorem after_of_ok {a : α} (h : request x c db = .ok (a, db')) : after x c db = db' := by
  rw [after, h]

theorem Ages.unlisten {readings : List Instant}
    (h : Ages U V { db with clock := { db.clock with readings } } db') :
    Ages U V db db' := ⟨h.clock, h.tokens, h.identities, h.challenges⟩

theorem Ages.refl (db : MachineDb) : Ages U V db db := .of_eq le_rfl rfl rfl rfl

/-- What an event does to the tables. -/
theorem step_ages (K : MachineCrypto) (db : MachineDb) (e : MachineEvent) :
    Ages e.Creates (Enrols K db e) db (step K db e) := by
  cases e with
  | createToken c stationId purpose =>
    exact after_of_wp (.refl db) fun _ _ h => (createToken_spec stationId purpose _ _ h).1.unlisten
  | revoke c stationId => exact after_of_wp (.refl db) fun _ _ h => (revoke_spec stationId _ _ h).1.unlisten
  | enroll c r =>
    refine after_of_wp (.refl db) fun response db' h => ?_
    exact (enroll_spec r _ _ h).1.unlisten.mono (fun _ h => h) fun s hs => ⟨response, db', h, hs⟩
  | challenge c identityId => exact after_of_wp (.refl db) fun _ _ h =>
      (challenge_spec identityId _ _ h).1.unlisten
  | token c r => exact after_of_wp (.refl db) fun _ _ h => (token_spec r _ _ h).1.unlisten
  | authenticate c bearer =>
    exact after_of_wp (.refl db) fun _ _ h => (authenticate_spec bearer _ _ h).1.ages.unlisten
  | advance t => exact .of_eq (le_max_left _ _) rfl rfl rfl
  | configure station => exact .of_eq le_rfl rfl rfl rfl

theorem step_orderly (h : Orderly db.identities) (e : MachineEvent) : Orderly (step K db e).identities := by
  cases e with
  | createToken c stationId purpose =>
    refine after_of_wp (P := fun d => Orderly d.identities) h fun _ _ hrun => ?_
    rw [(createToken_spec (V := fun _ => False) stationId purpose _ _ hrun).2]
    exact h
  | revoke c stationId =>
    exact after_of_wp (P := fun d => Orderly d.identities) h fun _ _ hrun =>
      (revoke_spec (U := fun _ => False) (V := fun _ => False) stationId _ _ hrun).2.1 h
  | enroll c r =>
    exact after_of_wp (P := fun d => Orderly d.identities) h fun _ _ hrun =>
      (enroll_spec (U := fun _ => False) r _ _ hrun).2.1 h
  | challenge c identityId =>
    refine after_of_wp (P := fun d => Orderly d.identities) h fun _ _ hrun => ?_
    rw [(challenge_spec (U := fun _ => False) (V := fun _ => False) identityId _ _ hrun).2.1]
    exact h
  | token c r =>
    exact after_of_wp (P := fun d => Orderly d.identities) h fun _ _ hrun =>
      (token_spec (U := fun _ => False) (V := fun _ => False) r _ _ hrun).2.1 h
  | authenticate c bearer =>
    refine after_of_wp (P := fun d => Orderly d.identities) h fun _ _ hrun => ?_
    obtain ⟨k, -, hk⟩ := (authenticate_spec bearer _ _ hrun).1
    rw [hk]
    exact h
  | advance t => exact h
  | configure station => exact h

/-! ### Enrolment tokens -/

/-- The enrolment token is used, revoked or expired. -/
def Void (K : MachineCrypto) (raw : String) (db : MachineDb) : Prop :=
  ∃ t ∈ db.tokens, t.tokenHash = K.hash raw ∧ (t.status ≠ .active ∨ t.expiresAt ≤ db.clock.now)

theorem enrolled_ok {raw : String} (h : enrolled K raw db e) : ∃ c r response db', e = .enroll c r ∧
    r.enrollmentToken = raw ∧ request (enroll K r) c db = .ok (response, db') ∧ step K db e = db' := by
  cases e with
  | enroll c r =>
    simp only [enrolled, Bool.and_eq_true, beq_iff_eq] at h
    cases hrun : request (enroll K r) c db with
    | error f =>
      rw [hrun] at h
      cases h.2
    | ok a =>
      obtain ⟨response, db'⟩ := a
      exact ⟨c, r, response, db', rfl, h.1, hrun, after_of_ok hrun⟩
  | _ => cases h

theorem enrolled_once (K : MachineCrypto) (raw : String) :
    Once (step K) (enrolled K raw) (fun _ => True) (Void K raw) where
  inv _ _ h := h
  stays db e _ := by
    rintro ⟨t, ht, hk, hv⟩
    have ha := step_ages K db e
    obtain ⟨t', ht', hf⟩ := ha.tokens.kept ht
    refine ⟨t', ht', hf.tokenHash.trans hk, ?_⟩
    rcases hv with hv | hv
    · exact .inl (by rw [hf.used hv]; exact hv)
    · exact .inr (hf.expiresAt ▸ le_trans hv ha.clock)
  marks db e _ h := by
    obtain ⟨c, r, response, db', rfl, rfl, hrun, hstep⟩ := enrolled_ok h
    obtain ⟨-, -, t, -, hk, -, -, -, t', ht', hk', hc⟩ := enroll_spec (U := fun _ => False) r _ _ hrun
    rw [hstep]
    exact ⟨t', ht', hk'.trans hk, .inl (by simp [hc])⟩
  free db e _ h := by
    obtain ⟨c, r, response, db', rfl, rfl, hrun, -⟩ := enrolled_ok h
    obtain ⟨-, -, t, ht, hk, -, hactive, hexp, -⟩ := enroll_spec (U := fun _ => False) r _ _ hrun
    rintro ⟨x, hx, hxk, hv⟩
    obtain rfl : x = t := Table.eq_of_key hx ht (hxk.trans hk.symm)
    rcases hv with hv | hv
    · exact hv hactive
    · exact absurd hexp (not_lt.2 hv)

/-! ### Challenges -/

theorem answered_ok {challengeId : UUID} (h : answered K challengeId db e) :
    ∃ c r response db', e = .token c r ∧ r.challengeId = challengeId ∧
    request (token K r) c db = .ok (response, db') ∧ step K db e = db' := by
  cases e with
  | token c r =>
    simp only [answered, Bool.and_eq_true, beq_iff_eq] at h
    cases hrun : request (token K r) c db with
    | error f =>
      rw [hrun] at h
      cases h.2
    | ok a =>
      obtain ⟨response, db'⟩ := a
      exact ⟨c, r, response, db', rfl, h.1, hrun, after_of_ok hrun⟩
  | _ => cases h

theorem answered_once (K : MachineCrypto) (challengeId : UUID) :
    Once (step K) (answered K challengeId) (fun _ => True) fun db =>
    ∃ x ∈ db.challenges, x.id = challengeId ∧ x.consumedAt ≠ none where
  inv _ _ h := h
  stays db e _ := by
    rintro ⟨x, hx, hid, hc⟩
    obtain ⟨x', hx', hf⟩ := (step_ages K db e).challenges.kept hx
    exact ⟨x', hx', hf.id.trans hid, hf.consumedAt hc⟩
  marks db e _ h := by
    obtain ⟨c, r, response, db', rfl, rfl, hrun, hstep⟩ := answered_ok h
    obtain ⟨-, -, -, x, -, hid, -, -, x', hx', hid', hc⟩ :=
      token_spec (U := fun _ => False) (V := fun _ => False) r _ _ hrun
    rw [hstep]
    exact ⟨x', hx', hid'.trans hid, hc⟩
  free db e _ h := by
    obtain ⟨c, r, response, db', rfl, rfl, hrun, -⟩ := answered_ok h
    obtain ⟨-, -, -, x, hx, hid, -, hfree, -⟩ :=
      token_spec (U := fun _ => False) (V := fun _ => False) r _ _ hrun
    rintro ⟨y, hy, hyid, hc⟩
    obtain rfl : y = x := Table.eq_of_key hy hx (hyid.trans hid.symm)
    exact hc hfree

/-- The challenge was issued for this identity. -/
def IssuedFor (challengeId identityId : UUID) (db : MachineDb) : Prop :=
  ∃ x ∈ db.challenges, x.id = challengeId ∧ x.identityId = identityId

theorem IssuedFor.run {challengeId identityId : UUID} (h : IssuedFor challengeId identityId db)
    (es : List MachineEvent) : IssuedFor challengeId identityId (run K db es) := by
  refine foldl_keeps (C := fun _ _ => True) (fun d e hd _ => ?_) h fun _ _ _ _ => trivial
  obtain ⟨x, hx, hid, hi⟩ := hd
  obtain ⟨x', hx', hf⟩ := (step_ages K d e).challenges.kept hx
  exact ⟨x', hx', hf.id.trans hid, hf.identityId.trans hi⟩

theorem IssuedFor.token {challengeId identityId : UUID} (h : IssuedFor challengeId identityId db)
    {r : TokenRequest} {response : MachineTokenResponse} (hr : r.challengeId = challengeId)
    (hrun : request (token K r) c db = .ok (response, db')) : r.identityId = identityId := by
  obtain ⟨-, -, -, x, hx, hid, hi, -⟩ := token_spec (U := fun _ => False) (V := fun _ => False) r _ _ hrun
  obtain ⟨y, hy, hyid, hyi⟩ := h
  obtain rfl : y = x := Table.eq_of_key hy hx (hyid.trans (hr.symm.trans hid.symm))
  exact hi.symm.trans hyi

/-! ### Lapsed identities -/

/-- The identity with this key has lapsed. -/
def Gone (identityId : UUID) (db : MachineDb) : Prop :=
  ∃ i ∈ db.identities, i.id = identityId ∧ i.Lapsed db.clock.now

theorem Gone.step {identityId : UUID} (h : Gone identityId db) (e : MachineEvent) :
    Gone identityId (step K db e) := by
  obtain ⟨i, hi, hid, hl⟩ := h
  have ha := step_ages K db e
  obtain ⟨i', hi', hf⟩ := ha.identities.kept hi
  exact ⟨i', hi', hf.id.trans hid, hl.follows hf ha.clock⟩

theorem Gone.run {identityId : UUID} (h : Gone identityId db) (es : List MachineEvent) :
    Gone identityId (run K db es) :=
  foldl_keeps (C := fun _ _ => True) (fun _ e hd _ => hd.step e) h fun _ _ _ _ => trivial

theorem Gone.barred {identityId : UUID} (h : Gone identityId db) : Barred K db identityId := by
  obtain ⟨i, hi, rfl, hl⟩ := h
  have hno : ∀ j ∈ db.identities, j.id = i.id → ¬ j.Lapsed db.clock.now → False :=
    fun j hj hid hn => hn (Table.eq_of_key hj hi hid ▸ hl)
  refine ⟨fun c => ?_, fun c r hr => ?_, fun c b p db' hrun hp => ?_⟩
  · cases hrun : request (Machines.challenge K i.id) c db with
    | error f => rfl
    | ok a =>
      obtain ⟨-, -, ⟨j, hj, hid, hn⟩, -⟩ :=
        challenge_spec (U := fun _ => False) (V := fun _ => False) i.id _ _ hrun
      exact (hno j hj hid hn).elim
  · cases hrun : request (Machines.token K r) c db with
    | error f => rfl
    | ok a =>
      obtain ⟨-, -, ⟨j, hj, hid, hn, -⟩, -⟩ :=
        token_spec (U := fun _ => False) (V := fun _ => False) r _ _ hrun
      exact (hno j hj (hid.trans hr) hn).elim
  · obtain ⟨j, hj, hid, hn⟩ := (authenticate_spec b _ _ hrun).2 p rfl
    exact hno j hj (hid.trans hp) hn

/-! ### Revocation -/

theorem Off.step {stationId : UUID} (h : Off stationId db) (he : ¬ e.Creates stationId) :
    Off stationId (step K db e) := by
  have ha := step_ages K db e
  refine ⟨fun t ht hs => ?_, fun i hi hs => ?_⟩
  · rcases ha.tokens.mem ht with ⟨t₀, ht₀, hf⟩ | hn
    · have h₀ := h.1 t₀ ht₀ (hf.stationId.symm.trans hs)
      rw [hf.used h₀]
      exact h₀
    · exact absurd (hs ▸ hn) he
  · rcases ha.identities.mem hi with ⟨i₀, hi₀, hf⟩ | hn
    · exact hf.revoked (h.2 i₀ hi₀ (hf.stationId.symm.trans hs))
    · cases e with
      | enroll c r =>
        obtain ⟨response, db', hrun, hst⟩ := hn
        obtain ⟨-, -, t, ht, -, hts, hactive, -⟩ := enroll_spec (U := fun _ => False) r _ _ hrun
        exact absurd hactive (h.1 t ht (hts.trans (hst.symm.trans hs)))
      | _ => exact hn.elim

/-- While no enrolment token is created for a station that is off, none is exchanged. -/
theorem Off.not_enrols {stationId : UUID} (h : Off stationId db) : ¬ Enrols K db e stationId := by
  intro hn
  cases e with
  | enroll c r =>
    obtain ⟨response, db', hrun, hst⟩ := hn
    obtain ⟨-, -, t, ht, -, hts, hactive, -⟩ := enroll_spec (U := fun _ => False) r _ _ hrun
    exact absurd hactive (h.1 t ht (hts.trans hst.symm))
  | _ => exact hn.elim

/-- Every identity of the station is revoked. -/
def AllRevoked (stationId : UUID) (db : MachineDb) : Prop :=
  ∀ i ∈ db.identities, i.stationId = stationId → i.status = .revoked

theorem AllRevoked.step {stationId : UUID} (h : AllRevoked stationId db) (he : ¬ Enrols K db e stationId) :
    AllRevoked stationId (step K db e) := by
  intro i hi hs
  rcases (step_ages K db e).identities.mem hi with ⟨i₀, hi₀, hf⟩ | hn
  · exact hf.revoked (h i₀ hi₀ (hf.stationId.symm.trans hs))
  · exact absurd (hs ▸ hn) he

theorem AllRevoked.barred {stationId : UUID} (h : AllRevoked stationId db) (hi : i ∈ db.identities)
    (hs : i.stationId = stationId) : Barred K db i.id := Gone.barred ⟨i, hi, rfl, .inl (h i hi hs)⟩

end steps

/-- The life of machine identities, in every run from a new installation. -/
theorem machine_identity_lifecycle (K : MachineCrypto) (t₀ : Instant) (es : List MachineEvent) :
    let db := run K (.empty t₀) es
    -- One identity of a station is active at most, and key versions rise in the order of enrolment.
    (∀ i ∈ db.identities, ∀ j ∈ db.identities, i.stationId = j.stationId → i.status = .active →
      j.status = .active → i = j) ∧
    db.identities.rows.Pairwise (fun i j => i.stationId = j.stationId → i.keyVersion < j.keyVersion) ∧
    -- An enrolment token is exchanged once at most, and never after its use, its revocation or its expiry.
    (∀ raw, occurrences (step K) (enrolled K raw) (.empty t₀) es ≤ 1) ∧
    (∀ raw, ∀ t ∈ db.tokens, t.tokenHash = K.hash raw → t.status ≠ .active ∨ t.expiresAt ≤ db.clock.now →
      ∀ post, occurrences (step K) (enrolled K raw) db post = 0) ∧
    -- A challenge is exchanged once at most, and by the identity that it was issued for.
    (∀ id, occurrences (step K) (answered K id) (.empty t₀) es ≤ 1) ∧
    (∀ c identityId response db', request (challenge K identityId) c db = .ok (response, db') →
      ∀ post c' r issued db'', r.challengeId = response.challengeId →
        request (token K r) c' (run K db' post) = .ok (issued, db'') → r.identityId = identityId ∧
        ∃ i ∈ (run K db' post).identities, i.id = identityId ∧
          issued.token = K.issueMachine ⟨i.id, i.stationId, i.keyVersion⟩ issued.issuedAt) ∧
    -- An identity that is revoked, or rotating past its overlap, is barred for good.
    (∀ i ∈ db.identities, i.Lapsed db.clock.now → ∀ post, Barred K (run K db post) i.id) ∧
    -- After a revocation, nothing of the station is usable until a token is created, and no identity until
    -- one is enrolled.
    (∀ c stationId n db', request (revoke stationId) c db = .ok (n, db') → ∀ post,
      ((∀ e ∈ post, ¬ e.Creates stationId) → (∀ e, ¬ Enrols K (run K db' post) e stationId) ∧
        ∀ i ∈ (run K db' post).identities, i.stationId = stationId → Barred K (run K db' post) i.id) ∧
      ((∀ pre e rest, post = pre ++ e :: rest → ¬ Enrols K (run K db' pre) e stationId) →
        ∀ i ∈ (run K db' post).identities, i.stationId = stationId → Barred K (run K db' post) i.id)) := by
  intro db
  have hempty : Orderly (MachineDb.empty t₀).identities :=
    ⟨fun _ h => absurd h Table.not_mem_empty, List.Pairwise.nil⟩
  have horderly : Orderly db.identities :=
    foldl_keeps (P := fun d : MachineDb => Orderly d.identities) (C := fun _ _ => True)
      (fun _ e h _ => step_orderly h e) hempty fun _ _ _ _ => trivial
  refine ⟨horderly.single, horderly.versions, fun raw => (enrolled_once K raw).le_one trivial es, ?_,
    fun id => (answered_once K id).le_one trivial es, ?_, ?_, ?_⟩
  · exact fun raw t ht hk hv post => (enrolled_once K raw).marked trivial ⟨t, ht, hk, hv⟩ post
  · intro c identityId response db' hrun post c' r issued db'' hr hissued
    have hfor : IssuedFor response.challengeId identityId (run K db' post) :=
      IssuedFor.run (challenge_spec (U := fun _ => False) (V := fun _ => False) identityId _ _ hrun).2.2.2
        post
    have hid := hfor.token hr hissued
    obtain ⟨-, -, ⟨i, hi, hii, -, htoken⟩, -⟩ :=
      token_spec (U := fun _ => False) (V := fun _ => False) r _ _ hissued
    exact ⟨hid, i, hi, hii.trans hid, htoken⟩
  · exact fun i hi hl post => (Gone.run ⟨i, hi, rfl, hl⟩ post).barred
  · intro c stationId n db' hrun post
    have hoff : Off stationId db' :=
      (revoke_spec (U := fun _ => False) (V := fun _ => False) stationId _ _ hrun).2.2
    refine ⟨fun hpost => ?_, fun hpost i hi hs => ?_⟩
    · have hend : Off stationId (run K db' post) := by
        refine foldl_keeps (C := fun _ e => ¬ e.Creates stationId) (fun _ _ h he => h.step he) hoff
          fun pre e rest hes => ?_
        exact hpost e (hes ▸ List.mem_append_right _ List.mem_cons_self)
      exact ⟨fun e => hend.not_enrols, fun i hi hs => AllRevoked.barred hend.2 hi hs⟩
    · have hend : AllRevoked stationId (run K db' post) :=
        foldl_keeps (C := fun d e => ¬ Enrols K d e stationId) (fun _ _ h he => h.step he) hoff.2 hpost
      exact hend.barred hi hs

end GManager.Machines
