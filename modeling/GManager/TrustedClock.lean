import GManager.ClientState
import GManager.PartialRuns

/-!
# The trusted clock of the client

`TrustedLeaseClock` over a wall clock that may read anything and a counter that runs forward within one
process, and what `ClientRuntime` does with it: leases are validated, observed and taken over, the recovery
state is saved with the time as its floor, and a new process recovers from what was saved. `elapsed` is
`TimeProvider.GetElapsedTime`.
-/

namespace GManager.Client

structure TrustedLeaseClock where
  anchor : Instant
  started : ℤ
  deriving DecidableEq, Repr

namespace TrustedLeaseClock

/-- The constructor. The wall clock is read to compare it with the floor, and again for the value. -/
def new (floor compared value : Instant) (timestamp : ℤ) : TrustedLeaseClock :=
  ⟨if floor < compared then value else floor, timestamp⟩

section

variable (elapsed : ℤ → ℤ) (c : TrustedLeaseClock)

/-- `Now`. -/
def now (timestamp : ℤ) : Instant := c.anchor + elapsed (timestamp - c.started)

/-- `Observe`, which reads the counter to compare and again for the new start. -/
def observe (verifiedServerTime : Instant) (timestamp timestamp' : ℤ) : TrustedLeaseClock :=
  if c.now elapsed timestamp < verifiedServerTime then ⟨verifiedServerTime, timestamp'⟩ else c

end

variable {elapsed : ℤ → ℤ} {c : TrustedLeaseClock} {floor compared value v : Instant} {t t' t'' : ℤ}

/-- What the time source promises. -/
structure Forward (elapsed : ℤ → ℤ) : Prop where
  mono : ∀ d d', d ≤ d' → elapsed d ≤ elapsed d'
  zero : elapsed 0 = 0

theorem now_mono (he : Forward elapsed) (h : t ≤ t') : c.now elapsed t ≤ c.now elapsed t' :=
  add_le_add_right (he.mono _ _ (sub_le_sub_right h _)) _

theorem anchor_le_now (he : Forward elapsed) (h : c.started ≤ t) : c.anchor ≤ c.now elapsed t := by
  have h0 := he.mono 0 (t - c.started) (sub_nonneg.2 h)
  rw [he.zero] at h0
  exact le_add_of_nonneg_right h0

theorem now_le_observe (he : Forward elapsed) (h : t ≤ t') (h' : t' ≤ t'') :
    c.now elapsed t ≤ (c.observe elapsed v t t').now elapsed t'' := by
  rw [observe]
  split
  · rename_i hlt
    exact hlt.le.trans (anchor_le_now he h')
  · exact now_mono he (h.trans h')

theorem le_observe (he : Forward elapsed) (h : t ≤ t') (h' : t' ≤ t'') :
    v ≤ (c.observe elapsed v t t').now elapsed t'' := by
  rw [observe]
  split
  · exact anchor_le_now (c := ⟨v, t'⟩) he h'
  · rename_i hlt
    exact (not_lt.1 hlt).trans (now_mono he (h.trans h'))

/-- A new clock respects its floor unless the wall clock falls behind it between the two readings. -/
theorem floor_le_new (he : Forward elapsed) : floor ≤ (new floor compared value t).now elapsed t ↔
    ¬ (floor < compared ∧ value < floor) := by
  have hnow : (new floor compared value t).now elapsed t = if floor < compared then value else floor := by
    rw [now, new, sub_self, he.zero, add_zero]
  rw [hnow]
  split
  · rename_i hlt
    simp [hlt]
  · rename_i hlt
    simp [hlt]

end TrustedLeaseClock

/-- A later time locks what an earlier one locks. -/
theorem SessionLease.mustLock.mono {l : SessionLease} {t t' : Instant} (h : l.mustLock t) (hle : t ≤ t') :
    l.mustLock t' := by
  obtain h | h | h | h | ⟨e, he, h⟩ := h
  · exact .inl h
  · exact .inr (.inl h)
  · exact .inr (.inr (.inl h))
  · exact .inr (.inr (.inr (.inl (h.trans hle))))
  · exact .inr (.inr (.inr (.inr ⟨e, he, h.trans hle⟩)))

/-- `l'` is not behind `l`. -/
def SessionLease.Precedes (l l' : SessionLease) : Prop :=
  l.issuedAt ≤ l'.issuedAt ∧ l.commandCursor ≤ l'.commandCursor

instance (l l' : SessionLease) : Decidable (l.Precedes l') := inferInstanceAs (Decidable (_ ∧ _))

theorem precedes_of_validate {r : ClientRecoveryState} {lease : SessionLease}
    (h : validateRecovery (some r) lease = .ok ()) :
    r.lease.Precedes lease := by
  rw [validateRecovery] at h
  split at h
  · cases h
  · rename_i hn
    simp only [not_or, not_lt] at hn
    exact ⟨hn.2.2, hn.2.1⟩

/-- What passes the verification is the payload. -/
theorem payload_of_verify {envelope : SignedSessionLease} {stationId : UUID} {l : SessionLease}
    (h : envelope.verify stationId = .ok l) : envelope.payload = .lease l := by
  obtain ⟨payload, key, signature⟩ := envelope
  cases payload with
  | lease l' =>
    simp only [SignedSessionLease.verify] at h
    split_ifs at h
    cases h
    rfl
  | notBase64 | notJson | null =>
    simp only [SignedSessionLease.verify] at h
    split_ifs at h

/-- A new process: the readings of its first clock, whether the configured key still trusts the saved
envelope, and the readings of the clock that `Recover` makes. -/
structure Launch where
  floor : Instant
  compared : Instant
  value : Instant
  timestamp : ℤ
  trustedKey : Bool
  compared' : Instant
  value' : Instant
  timestamp' : ℤ
  deriving DecidableEq, Repr

/-- Verified server times that were observed and leases that were taken over. -/
structure Marks where
  times : List Instant
  leases : List SessionLease
  deriving DecidableEq, Repr

def Marks.empty : Marks := ⟨[], []⟩

def Marks.append (m m' : Marks) : Marks := ⟨m.times ++ m'.times, m.leases ++ m'.leases⟩

/-- The clock, the recovery state and what is saved of it. The history of the device comes behind: the
readings of `Now` in this process and those of each save, and the marks of this process since its last save,
those before a save, and those of a process that ended without. -/
structure Device where
  clock : TrustedLeaseClock
  timestamp : ℤ
  recovery : Option ClientRecoveryState
  snapshot : Option ClientRecoveryState
  reads : List Instant
  saves : List Instant
  recent : Marks
  kept : Marks
  lost : Marks
  deriving DecidableEq, Repr

/-- A lease that `Validate` lets pass is accepted where it is taken over. It is dropped
where the configuration has another version, or where a logout is not confirmed; its time
may have been observed by then. -/
inductive ClockEvent
  | read (timestamp : ℤ)
  | observe (verifiedServerTime : Instant) (timestamp timestamp' : ℤ)
  | accept (envelope : SignedSessionLease) (locallyLocked : Bool) (timestamp timestamp' timestamp'' : ℤ)
  | drop (envelope : SignedSessionLease) (observed : Bool) (timestamp timestamp' : ℤ)
  | edit (r : ClientRecoveryState)
  | save (timestamp : ℤ)
  | restart (l : Launch)
  deriving DecidableEq, Repr

/-- The recovery state with a new lease. -/
def adopted (recovery : Option ClientRecoveryState) (envelope : SignedSessionLease) (lease : SessionLease)
    (locallyLocked : Bool) (now : Instant) : ClientRecoveryState where
  envelope
  lease
  appliedSequence := (recovery.map (·.appliedSequence)).getD 0
  trustedUtcFloor := now
  pendingLockSequence := recovery.bind (·.pendingLockSequence)
  pendingLockSessionId := recovery.bind (·.pendingLockSessionId)
  locallyLocked
  blockedSessionId := recovery.bind (·.blockedSessionId)
  pendingCommandAckSequence := recovery.bind (·.pendingCommandAckSequence)

/-- The verification of the saved envelope in a new process. -/
def Launch.verify (l : Launch) (stationId : UUID) (r : ClientRecoveryState) : Except Exn SessionLease :=
  SignedSessionLease.verify { r.envelope with trustedKey := l.trustedKey } stationId

/-- A new process up to the end of `Recover`; if the verification fails, its first clock remains. -/
def Device.restart (d : Device) (stationId : UUID) (l : Launch) : Device :=
  let first := TrustedLeaseClock.new l.floor l.compared l.value l.timestamp
  let d := { d with
      clock := first, timestamp := l.timestamp, recovery := d.snapshot, reads := [], recent := .empty,
      lost := d.lost.append d.recent }
  match d.snapshot with
  | none => d
  | some r =>
    match l.verify stationId r with
    | .error _ => d
    | .ok lease => { d with
        recovery := some { r with lease, locallyLocked := true }
        clock := .new r.trustedUtcFloor l.compared' l.value' l.timestamp'
        timestamp := l.timestamp' }

/-- `SaveRecovery`. -/
def Device.save (elapsed : ℤ → ℤ) (d : Device) (timestamp : ℤ) : Device :=
  match d.recovery with
  | none => d
  | some r =>
    let r := { r with trustedUtcFloor := d.clock.now elapsed timestamp }
    { d with
      recovery := some r
      snapshot := some r
      saves := d.saves ++ [r.trustedUtcFloor]
      recent := .empty
      kept := d.kept.append d.recent }

/-- `Observe` at two readings of the counter. -/
def Device.observe (elapsed : ℤ → ℤ) (d : Device) (v : Instant) (t t' : ℤ) : Device :=
  { d with clock := d.clock.observe elapsed v t t', timestamp := t', recent := d.recent.append ⟨[v], []⟩ }

/-- The lease of the envelope, if it passes `Verify` and `Validate`. -/
def Device.validated (stationId : UUID) (d : Device) (envelope : SignedSessionLease) : Option SessionLease :=
  match envelope.verify stationId with
  | .error _ => none
  | .ok lease =>
    match validateRecovery d.recovery lease with
    | .error _ => none
    | .ok _ => some lease

/-- The counter runs forward within a process. All but the lease may be edited at any time. -/
def Device.step (stationId : UUID) (elapsed : ℤ → ℤ) (d : Device) : ClockEvent → Option Device
  | .read t => if d.timestamp ≤ t then some { d with
      timestamp := t, reads := d.reads ++ [d.clock.now elapsed t] } else none
  | .observe v t t' => if d.timestamp ≤ t ∧ t ≤ t' then some (d.observe elapsed v t t') else none
  | .accept envelope locallyLocked t t' t'' =>
    match d.validated stationId envelope with
    | none => none
    | some lease =>
      if d.timestamp ≤ t ∧ t ≤ t' ∧ t' ≤ t'' then
        let d := d.observe elapsed lease.issuedAt t t'
        some { d with
          timestamp := t''
          recovery := some (adopted d.recovery envelope lease locallyLocked (d.clock.now elapsed t''))
          recent := d.recent.append ⟨[], [lease]⟩ }
      else none
  | .drop envelope observed t t' =>
    match d.validated stationId envelope with
    | none => none
    | some lease =>
      if d.timestamp ≤ t ∧ t ≤ t' then
        some (if observed then d.observe elapsed lease.issuedAt t t' else { d with timestamp := t' })
      else none
  | .edit r => some { d with recovery := d.recovery.map fun old => { r with
      envelope := old.envelope, lease := old.lease } }
  | .save t => if d.timestamp ≤ t then some { d.save elapsed t with timestamp := t } else none
  | .restart l => some (d.restart stationId l)

/-- The first process of a device. -/
def Device.installed (l : Launch) : Device :=
  ⟨.new l.floor l.compared l.value l.timestamp, l.timestamp, none, none, [], [], .empty, .empty, .empty⟩

/-- The saved envelope is still trusted, and the wall clock does not fall below the
floor between the readings. -/
def Launch.Restores (stationId : UUID) (l : Launch) (snapshot : Option ClientRecoveryState) : Prop :=
  ∀ r ∈ snapshot, (l.verify stationId r).isOk ∧
    ¬ (r.trustedUtcFloor < l.compared' ∧ l.value' < r.trustedUtcFloor)

/-- A new process restores the clock. -/
def Device.Restoring (stationId : UUID) (d : Device) : ClockEvent → Prop
  | .restart l => l.Restores stationId d.snapshot
  | _ => True

/-- A process ends with everything saved. -/
def Device.Saved (d : Device) : ClockEvent → Prop
  | .restart _ => d.recent = .empty
  | _ => True

instance (stationId : UUID) (l : Launch) (snapshot : Option ClientRecoveryState) :
    Decidable (l.Restores stationId snapshot) :=
  inferInstanceAs (Decidable (∀ r ∈ snapshot, _ ∧ _))

instance (stationId : UUID) (d : Device) : (e : ClockEvent) → Decidable (d.Restoring stationId e)
  | .restart l => inferInstanceAs (Decidable (l.Restores stationId d.snapshot))
  | .read _ | .observe .. | .accept .. | .drop .. | .edit _ | .save _ => isTrue trivial

instance (d : Device) : (e : ClockEvent) → Decidable (d.Saved e)
  | .restart _ => inferInstanceAs (Decidable (d.recent = .empty))
  | .read _ | .observe .. | .accept .. | .drop .. | .edit _ | .save _ => isTrue trivial

section

variable {stationId : UUID} {elapsed : ℤ → ℤ} {d d' : Device}
  {e : ClockEvent} {es : List ClockEvent} {l : Launch}

theorem Device.restart_of_none (hs : d.snapshot = none) : d.restart stationId l = { d with
    clock := .new l.floor l.compared l.value l.timestamp
    timestamp := l.timestamp
    recovery := none
    reads := []
    recent := .empty
    lost := d.lost.append d.recent } := by
  simp only [Device.restart, hs]

theorem Device.restart_of_ok {r : ClientRecoveryState} {lease : SessionLease} (hs : d.snapshot = some r)
    (hv : l.verify stationId r = .ok lease) : d.restart stationId l = { d with
    clock := .new r.trustedUtcFloor l.compared' l.value' l.timestamp'
    timestamp := l.timestamp'
    recovery := some { r with lease, locallyLocked := true }
    reads := []
    recent := .empty
    lost := d.lost.append d.recent } := by
  simp only [Device.restart, hs, hv]

theorem Device.of_validated {envelope : SignedSessionLease} {lease : SessionLease}
    (h : d.validated stationId envelope = some lease) :
    envelope.verify stationId = .ok lease ∧ validateRecovery d.recovery lease = .ok () := by
  simp only [Device.validated] at h
  split at h
  · cases h
  · rename_i lease' hv
    split at h
    · cases h
    · rename_i hval
      obtain rfl := Option.some.inj h
      exact ⟨hv, hval⟩

/-- What the clock, the recovery state and the snapshot have to uphold. -/
structure Device.Upholds (elapsed : ℤ → ℤ) (d : Device) : Prop where
  reads : ∀ v ∈ d.reads, v ≤ d.clock.now elapsed d.timestamp
  saves : ∀ v ∈ d.saves, v ≤ d.clock.now elapsed d.timestamp
  recent : ∀ v ∈ d.recent.times, v ≤ d.clock.now elapsed d.timestamp
  kept : ∀ v ∈ d.kept.times, v ≤ d.clock.now elapsed d.timestamp
  lease : ∀ l, l ∈ d.recent.leases ∨ l ∈ d.kept.leases → ∃ r ∈ d.recovery, l.Precedes r.lease
  floor : ∀ v, v ∈ d.saves ∨ v ∈ d.kept.times → ∃ r ∈ d.snapshot, v ≤ r.trustedUtcFloor
  saved : ∀ l ∈ d.kept.leases, ∃ r ∈ d.snapshot, l.Precedes r.lease
  signed : ∀ r, r ∈ d.recovery ∨ r ∈ d.snapshot → r.envelope.payload = .lease r.lease

namespace Device.Upholds

/-- The clock advances, and nothing else changes. -/
theorem advance (h : d.Upholds elapsed) {clock : TrustedLeaseClock} {t : ℤ}
    (hle : d.clock.now elapsed d.timestamp ≤ clock.now elapsed t) :
    Device.Upholds elapsed { d with clock, timestamp := t } :=
  ⟨fun v hv => (h.reads v hv).trans hle, fun v hv => (h.saves v hv).trans hle, fun v hv =>
    (h.recent v hv).trans hle, fun v hv => (h.kept v hv).trans hle, h.lease, h.floor, h.saved, h.signed⟩

theorem read (he : TrustedLeaseClock.Forward elapsed) (h : d.Upholds elapsed) {t : ℤ} (ht : d.timestamp ≤ t) :
    Device.Upholds elapsed { d with timestamp := t, reads := d.reads ++ [d.clock.now elapsed t] } :=
  { h.advance (TrustedLeaseClock.now_mono he ht) with
    reads := List.forall_mem_append.2 ⟨(h.advance (TrustedLeaseClock.now_mono he ht)).reads, by simp⟩ }

theorem observe (he : TrustedLeaseClock.Forward elapsed) (h : d.Upholds elapsed) {v : Instant} {t t' : ℤ}
    (ht : d.timestamp ≤ t) (ht' : t ≤ t') : (d.observe elapsed v t t').Upholds elapsed :=
  have hadv := h.advance ((TrustedLeaseClock.now_mono he ht).trans
      (TrustedLeaseClock.now_le_observe (v := v) he ht' le_rfl))
  { hadv with
    recent := List.forall_mem_append.2
      ⟨hadv.recent, List.forall_mem_singleton.2 (TrustedLeaseClock.le_observe he ht' le_rfl)⟩
    lease := fun l hl => h.lease l (by simpa [Device.observe, Marks.append] using hl) }

/-- A validated lease is not behind the others. -/
theorem accept (h : d.Upholds elapsed) {envelope : SignedSessionLease} {lease : SessionLease}
    {locallyLocked : Bool} {now : Instant} (hv : envelope.verify stationId = .ok lease)
    (hval : validateRecovery d.recovery lease = .ok ()) : Device.Upholds elapsed { d with
      recovery := some (adopted d.recovery envelope lease locallyLocked now)
      recent := d.recent.append ⟨[], [lease]⟩ } := by
  refine ⟨h.reads, h.saves, by simpa [Marks.append] using h.recent, h.kept, fun l hl => ⟨_, rfl, ?_⟩,
    h.floor, h.saved, ?_⟩
  · have hold : l ∈ d.recent.leases ∨ l ∈ d.kept.leases → l.Precedes lease := by
      intro hl
      obtain ⟨r, hr, hle⟩ := h.lease l hl
      rw [Option.mem_def.1 hr] at hval
      have hnext := precedes_of_validate hval
      exact ⟨hle.1.trans hnext.1, hle.2.trans hnext.2⟩
    rcases hl with hl | hl
    · rcases List.mem_append.1 hl with hl | hl
      · exact hold (.inl hl)
      · obtain rfl := List.mem_singleton.1 hl
        exact ⟨le_rfl, le_rfl⟩
    · exact hold (.inr hl)
  · rintro r (hr | hr)
    · obtain rfl := Option.some.inj hr
      exact payload_of_verify hv
    · exact h.signed r (.inr hr)

theorem edit (h : d.Upholds elapsed) (r : ClientRecoveryState) : Device.Upholds elapsed
    { d with recovery := d.recovery.map fun old => { r with
      envelope := old.envelope, lease := old.lease } } := by
  refine { h with lease := fun l hl => ?_, signed := fun r' hr' => ?_ }
  · obtain ⟨old, hold, hle⟩ := h.lease l hl
    refine ⟨{ r with envelope := old.envelope, lease := old.lease }, ?_, hle⟩
    simp [Option.mem_def.1 hold]
  · rcases hr' with hr' | hr'
    · obtain ⟨old, hold, rfl⟩ := Option.map_eq_some_iff.1 hr'
      exact h.signed old (.inl hold)
    · exact h.signed r' (.inr hr')

/-- What was observed and accepted before is saved with the time as its floor. -/
theorem save (h : d.Upholds elapsed) : (d.save elapsed d.timestamp).Upholds elapsed := by
  rw [Device.save]
  cases hr : d.recovery with
  | none => exact h
  | some r =>
    have hkept : ∀ v ∈ d.kept.times ++ d.recent.times, v ≤ d.clock.now elapsed d.timestamp :=
      List.forall_mem_append.2 ⟨h.kept, h.recent⟩
    have hsaves : ∀ v ∈ d.saves ++ [d.clock.now elapsed d.timestamp], v ≤ d.clock.now elapsed d.timestamp :=
      List.forall_mem_append.2 ⟨h.saves, by simp⟩
    have hlease : ∀ l ∈ d.kept.leases ++ d.recent.leases, l.Precedes r.lease := by
      intro l hl
      obtain ⟨r', hr', hle⟩ := h.lease l (List.mem_append.1 hl).symm
      rw [hr] at hr'
      exact Option.some.inj hr' ▸ hle
    refine ⟨h.reads, hsaves, by simp [Marks.empty], hkept, fun l hl => ⟨_, rfl, ?_⟩, fun v hv => ⟨_, rfl, ?_⟩,
      fun l hl => ⟨_, rfl, hlease l hl⟩, ?_⟩
    · exact hlease l (hl.resolve_left (by simp [Marks.empty]))
    · exact hv.elim (hsaves v) (hkept v)
    · rintro r' (hr' | hr') <;> obtain rfl := Option.some.inj hr' <;> exact h.signed r (.inl hr)

/-- A process that restores the clock does not fall behind what was saved. -/
theorem restart (he : TrustedLeaseClock.Forward elapsed) (h : d.Upholds elapsed)
    (hl : l.Restores stationId d.snapshot) : (d.restart stationId l).Upholds elapsed := by
  cases hs : d.snapshot with
  | none =>
    have hnone : ∀ v, ¬ (v ∈ d.saves ∨ v ∈ d.kept.times) := by
      intro v hv
      obtain ⟨r, hr, -⟩ := h.floor v hv
      simp [hs] at hr
    have hsaved : ∀ lease, lease ∉ d.kept.leases := by
      intro lease hlease
      obtain ⟨r, hr, -⟩ := h.saved lease hlease
      simp [hs] at hr
    rw [Device.restart_of_none hs]
    exact ⟨by simp, fun v hv => (hnone v (.inl hv)).elim, by simp [Marks.empty], fun v hv =>
      (hnone v (.inr hv)).elim, fun lease hlease =>
      (hsaved lease (hlease.resolve_left (by simp [Marks.empty]))).elim, fun v hv => (hnone v hv).elim,
      fun lease hlease => (hsaved lease hlease).elim, by simp [hs]⟩
  | some r =>
    obtain ⟨hok, hjump⟩ := hl r hs
    have hsigned := h.signed r (.inr hs)
    obtain ⟨lease, hv⟩ : ∃ lease, l.verify stationId r = .ok lease := by
      cases hv : l.verify stationId r with
      | error x => rw [hv] at hok; cases hok
      | ok lease => exact ⟨lease, rfl⟩
    obtain rfl : r.lease = lease := by
      have hpayload : SignedSessionLease.payload { r.envelope with trustedKey := l.trustedKey } = .lease
          lease := payload_of_verify hv
      exact LeasePayload.lease.inj (hsigned.symm.trans hpayload)
    have hle := (TrustedLeaseClock.floor_le_new he (t := l.timestamp')).2 hjump
    have hfloor : ∀ v, v ∈ d.saves ∨ v ∈ d.kept.times → v ≤ r.trustedUtcFloor := by
      intro v hv
      obtain ⟨r', hr', hle⟩ := h.floor v hv
      obtain rfl := Option.some.inj (hs.symm.trans hr')
      exact hle
    have hsaved : ∀ lease ∈ d.kept.leases, lease.Precedes r.lease := by
      intro lease hlease
      obtain ⟨r', hr', hle⟩ := h.saved lease hlease
      obtain rfl := Option.some.inj (hs.symm.trans hr')
      exact hle
    rw [Device.restart_of_ok hs hv]
    refine ⟨by simp, fun v hv => (hfloor v (.inl hv)).trans hle, by simp [Marks.empty], fun v hv =>
      (hfloor v (.inr hv)).trans hle, fun lease hlease =>
      ⟨_, rfl, hsaved lease (hlease.resolve_left (by simp [Marks.empty]))⟩, fun v hv => ⟨r, hs, hfloor v hv⟩,
      fun lease hlease => ⟨r, hs, hsaved lease hlease⟩, ?_⟩
    rintro r' (hr' | hr')
    · obtain rfl := Option.some.inj hr'
      exact hsigned
    · exact h.signed r' (.inr hr')

theorem installed (l : Launch) : (Device.installed l).Upholds elapsed :=
  ⟨by simp [Device.installed], by simp [Device.installed], by simp [Device.installed, Marks.empty],
    by simp [Device.installed, Marks.empty], by simp [Device.installed, Marks.empty], by
      simp [Device.installed, Marks.empty],
    by simp [Device.installed, Marks.empty], by simp [Device.installed]⟩

theorem step (he : TrustedLeaseClock.Forward elapsed) (h : d.Upholds elapsed) (hC : d.Restoring stationId e)
    (hs : d.step stationId elapsed e = some d') : d'.Upholds elapsed := by
  cases e with
  | read t =>
    simp only [Device.step] at hs
    split at hs
    · cases hs
      exact h.read he ‹_›
    · cases hs
  | observe v t t' =>
    simp only [Device.step] at hs
    split at hs
    · rename_i ht
      cases hs
      exact h.observe he ht.1 ht.2
    · cases hs
  | accept envelope locallyLocked t t' t'' =>
    simp only [Device.step] at hs
    split at hs
    · cases hs
    · rename_i lease hval
      obtain ⟨hv, hval⟩ := Device.of_validated hval
      split at hs
      · rename_i ht
        cases hs
        have hobs : (d.observe elapsed lease.issuedAt t t').Upholds elapsed := h.observe he ht.1 ht.2.1
        have hadv := hobs.advance (TrustedLeaseClock.now_mono he ht.2.2)
        exact hadv.accept hv hval
      · cases hs
  | drop envelope observed t t' =>
    simp only [Device.step] at hs
    split at hs
    · cases hs
    · rename_i lease hval
      split at hs
      · rename_i ht
        cases hs
        cases observed with
        | false => exact h.advance (TrustedLeaseClock.now_mono he (ht.1.trans ht.2))
        | true => exact h.observe he ht.1 ht.2
      · cases hs
  | edit r =>
    cases hs
    exact h.edit r
  | save t =>
    simp only [Device.step] at hs
    split at hs
    · rename_i ht
      cases hs
      have hadv := (h.advance (TrustedLeaseClock.now_mono he ht)).save
      cases hr : d.recovery <;> simpa [Device.save, hr] using hadv
    · cases hs
  | restart l =>
    cases hs
    exact h.restart he hC

theorem run (he : TrustedLeaseClock.Forward elapsed) (h : d.Upholds elapsed)
    (hC : RunMeets (Device.step stationId elapsed) (Device.Restoring stationId) d es)
    (hs : es.foldlM (Device.step stationId elapsed) d = some d') : d'.Upholds elapsed :=
  hC.keeps (I := Device.Upholds elapsed) (fun _ _ _ hd hC hs => Device.Upholds.step he hd hC hs) h hs

end Device.Upholds

/-- Nothing is lost when everything was saved. -/
theorem Device.lost_step (h : d.lost = .empty)
    (hC : d.Saved e) (hs : d.step stationId elapsed e = some d') : d'.lost = .empty := by
  cases e with
  | restart l =>
    cases hs
    have hlost : d.lost.append d.recent = .empty := by
      rw [h, show d.recent = .empty from hC]
      rfl
    simp only [Device.restart]
    split
    · exact hlost
    · split
      · exact hlost
      · exact hlost
  | edit r =>
    cases hs
    exact h
  | save t =>
    simp only [Device.step] at hs
    split at hs
    · cases hs
      cases hr : d.recovery <;> simpa [Device.save, hr] using h
    · cases hs
  | read t | observe v t t' =>
    simp only [Device.step] at hs
    split at hs
    · cases hs
      exact h
    · cases hs
  | accept envelope locallyLocked t t' t'' =>
    simp only [Device.step] at hs
    split at hs
    · cases hs
    · split at hs
      · cases hs
        exact h
      · cases hs
  | drop envelope observed t t' =>
    simp only [Device.step] at hs
    split at hs
    · cases hs
    · split at hs
      · cases hs
        cases observed with
        | false => exact h
        | true => exact h
      · cases hs

/-- `TrustedLeaseClock` and `LeaseRecoveryPolicy`, in a run whose new processes restore the clock: it does
not fall below a reading of its process, a saved one, or a server time observed in its process or before a
save, so what had to be locked at a saved time stays locked; a lease that passes is not behind those
accepted, which means taken over, in this process or before a save; and when each process ends with
everything saved, that leaves out nothing. -/
theorem trusted_clock (he : TrustedLeaseClock.Forward elapsed)
    (hC : RunMeets (Device.step stationId elapsed) (Device.Restoring stationId) (Device.installed l) es)
    (hrun : es.foldlM (Device.step stationId elapsed) (Device.installed l) = some d) :
    (∀ t, d.timestamp ≤ t → ∀ v, v ∈ d.reads ∨ v ∈ d.saves ∨ v ∈ d.recent.times ∨ v ∈ d.kept.times →
      v ≤ d.clock.now elapsed t) ∧
    (∀ t, d.timestamp ≤ t → ∀ v ∈ d.saves, ∀ lease : SessionLease, lease.mustLock v →
      lease.mustLock (d.clock.now elapsed t)) ∧
    (∀ lease, validateRecovery d.recovery lease = .ok () → ∀ old, old ∈ d.recent.leases ∨
      old ∈ d.kept.leases → old.Precedes lease) ∧
    (RunMeets (Device.step stationId elapsed) Device.Saved (Device.installed l) es → d.lost = .empty) := by
  have h : d.Upholds elapsed := (Device.Upholds.installed l).run he hC hrun
  have hnow : ∀ t, d.timestamp ≤ t → d.clock.now elapsed d.timestamp ≤ d.clock.now elapsed t :=
    fun t ht => TrustedLeaseClock.now_mono he ht
  refine ⟨fun t ht v hv => ?_, fun t ht v hv lease hlock => hlock.mono ((h.saves v hv).trans (hnow t ht)),
    fun lease hval old hold => ?_, fun hsaved => ?_⟩
  · obtain hv | hv | hv | hv := hv
    · exact (h.reads v hv).trans (hnow t ht)
    · exact (h.saves v hv).trans (hnow t ht)
    · exact (h.recent v hv).trans (hnow t ht)
    · exact (h.kept v hv).trans (hnow t ht)
  · obtain ⟨r, hr, hle⟩ := h.lease old hold
    rw [Option.mem_def.1 hr] at hval
    have hnext := precedes_of_validate hval
    exact ⟨hle.1.trans hnext.1, hle.2.trans hnext.2⟩
  · exact hsaved.keeps (I := fun d => d.lost = .empty)
      (fun _ _ _ hd hC hs => Device.lost_step hd hC hs) rfl hrun

end

namespace Arcade

/-- A lease for the session until `ends`. -/
def lease (issuedAt ends cursor : ℤ) : SessionLease :=
  ⟨1, 7, some 5, some 9, some 400, 1, issuedAt, ends, ends, cursor, .active, none, some .timeBalance,
    some 0, some 10, none, none⟩

def signed (l : SessionLease) : SignedSessionLease := ⟨.lease l, true, true⟩

/-- A process with these readings of the wall clock, whose counter starts at zero. -/
def launch (compared value : Instant) : Launch := ⟨compared, compared, value, 0, true, compared, value, 0⟩

/-- A lease is taken over and saved at 111, a new process starts after the wall clock fell back to 50. -/
def fallenBack : List ClockEvent :=
  [.accept (signed (lease 100 105 1)) true 1 1 2, .read 10, .save 12, .restart (launch 50 50), .read 3]

theorem trusted_clock_fallenBack :
    ∃ d, fallenBack.foldlM (Device.step 7 id) (Device.installed (launch 60 60)) = some d ∧
    (∀ t, d.timestamp ≤ t → ∀ v, v ∈ d.reads ∨ v ∈ d.saves ∨ v ∈ d.recent.times ∨ v ∈ d.kept.times →
      v ≤ d.clock.now id t) ∧
    d.lost = .empty := by
  have he : TrustedLeaseClock.Forward id := ⟨fun _ _ h => h, rfl⟩
  have hC : RunMeets (Device.step 7 id) (Device.Restoring 7)
      (Device.installed (launch 60 60)) fallenBack := by decide +kernel
  obtain ⟨d, hrun, -⟩ :
      ∃ d ∈ fallenBack.foldlM (Device.step 7 id) (Device.installed (launch 60 60)), d.saves = [111] := by
    decide +kernel
  have h := trusted_clock he hC hrun
  exact ⟨d, hrun, h.1, h.2.2.2 (by decide +kernel)⟩

/-- The wall clock falls back between the two readings of the constructor; a lease
is lost with its process. -/
def jumping : List ClockEvent :=
  [.accept (signed (lease 100 105 1)) true 1 1 2, .save 12, .restart (launch 500 50)]

def unsaved : List ClockEvent :=
  [.accept (signed (lease 100 105 1)) true 1 1 2, .save 12, .accept (signed (lease 200 300 2)) true 13 13
    13, .restart (launch 50 50)]

theorem clock_runs_back :
    (∃ d, jumping.foldlM (Device.step 7 id) (Device.installed (launch 60 60)) = some d ∧
      ∃ v ∈ d.saves, d.clock.now id d.timestamp < v ∧ (lease 100 105 1).mustLock v ∧
        ¬ (lease 100 105 1).mustLock (d.clock.now id d.timestamp)) ∧
    ∃ d, unsaved.foldlM (Device.step 7 id) (Device.installed (launch 60 60)) = some d ∧
      validateRecovery d.recovery (lease 150 300 1) = .ok () ∧ ∃ old ∈ d.lost.leases,
      ¬ old.Precedes (lease 150 300 1) := by
  have hjump : ∃ d ∈ jumping.foldlM (Device.step 7 id) (Device.installed (launch 60 60)),
      ∃ v ∈ d.saves, d.clock.now id d.timestamp < v ∧ (lease 100 105 1).mustLock v ∧
        ¬ (lease 100 105 1).mustLock (d.clock.now id d.timestamp) := by decide +kernel
  have hunsaved : ∃ d ∈ unsaved.foldlM (Device.step 7 id) (Device.installed (launch 60 60)),
      validateRecovery d.recovery (lease 150 300 1) = .ok () ∧ ∃ old ∈ d.lost.leases,
      ¬ old.Precedes (lease 150 300 1) := by
    decide +kernel
  exact ⟨hjump, hunsaved⟩

end Arcade

end GManager.Client
