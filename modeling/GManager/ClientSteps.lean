import GManager.ClientSettles

/-!
# What the client does

`Acts` and `Does` list once what an act of a job can do, each with the facts that its place in the source
gives it: what was delivered before, what is saved, what is in place. `process_does` shows it of every job by
following the text of the processes; between jobs `Current` holds. Every property of runs is then a case
analysis over these few acts, the moves beside them and the restart.
-/

namespace GManager.Client

open Proc (get modify stateful lift when failIf ifPresent)

/-- The cursor that is saved. -/
def Runtime.persisted (c : Runtime) : ℤ := (c.snapshots.head?.map (·.appliedSequence)).getD 0

/-- What is pending belongs to applied commands. -/
structure ClientRecoveryState.PendingApplied (r : ClientRecoveryState) : Prop where
  lock : ∀ n ∈ r.pendingLockSequence, n ≤ r.appliedSequence
  ack : ∀ n ∈ r.pendingCommandAckSequence, n ≤ r.appliedSequence

/-- Between the jobs the saved cursor is that in memory. -/
structure Runtime.Current (c : Runtime) : Prop where
  fresh : c.recovery = none → c.persisted = 0
  saved : ∀ r, c.recovery = some r → r.appliedSequence = c.persisted
  pending : ∀ r, c.recovery = some r → r.PendingApplied

/-- A command that locks. -/
def MachineCommand.Locks (command : MachineCommand) : Prop :=
  command.expired = false ∧ (command.type = .sessionTerminated ∨ command.type = .forceLock)

/-- The local lock that a command of the session asks for is in place and recorded. -/
structure Runtime.LockInPlace (c : Runtime) (s : UUID) (n : ℤ) : Prop where
  view : c.view.mode ≠ .active
  recorded : ∃ r, c.recovery = some r ∧ r.pendingLockSequence = some n ∧ r.pendingLockSessionId = some s ∧
    r.blockedSessionId = some s

/-- The command was delivered for the station of the client. -/
structure Delivered (env : ClientEnvironment) (x : Exchanges) (command : MachineCommand)
    (s : UUID) : Prop where
  mem : command ∈ x.delivered
  valid : ∃ st, env.stationId = some st ∧ command.validate st = .ok s

/-- A command with the sequence `n` was delivered, and its lock, if it asks for one, is in place. -/
def InPlace (env : ClientEnvironment) (w : Runtime × Exchanges) (n : ℤ) : Prop :=
  ∃ command s, Delivered env w.2 command s ∧ command.sequence = n ∧ (command.Locks → w.1.LockInPlace s n)

/-- What a request may carry over the network: an acknowledgement only of what is saved. -/
inductive Carries (c : Runtime) : Exchanges → Exchanges → Prop
  | nothing (x) : Carries c x x
  | handOut (l x) : Carries c x (x.handOut l)
  | deliver (cs x) : Carries c x (x.deliver cs)
  | acknowledge {r n} (x) (hr : c.recovery = some r) (hp : r.pendingCommandAckSequence = some n)
      (hn : n ≤ c.persisted) : Carries c x (x.acknowledge n)
  | acknowledgeLock {r s n} (x) (hr : c.recovery = some r) (hp : r.pendingLockSequence = some n)
      (hs : r.pendingLockSessionId = some s) (hl : r.locallyLocked = true) (hn : n ≤ c.persisted) :
      Carries c x (x.acknowledgeLock s n)

/-- The acts of the parts that every job shares. -/
inductive Acts (env : ClientEnvironment) : Runtime × Exchanges → Runtime × Exchanges → Prop
  | settle {c c' x} (h : c.Settles c') : Acts env (c, x) (c', x)
  | carry {c x x'} (h : Carries c x x') : Acts env (c, x) (c, x')
  | dropAck {c x} : Acts env (c, x)
      (c.updateRecovery fun r => { r with pendingCommandAckSequence := none }, x)
  | start {c x r command s} (hr : c.recovery = some r) (hd : Delivered env x command s)
      (ht : command.type = .sessionStarted) (he : command.expired = false)
      (hn : command.sequence = r.appliedSequence + 1) : Acts env (c, x) (c.recordStart s command.sequence, x)
  | lock {c x r command s} (hr : c.recovery = some r) (hd : Delivered env x command s) (hl : command.Locks)
      (hn : command.sequence = r.appliedSequence + 1) (ha : r.appliedSequence = c.persisted)
      (hp : ∀ m ∈ r.pendingLockSequence, m ≤ r.appliedSequence)
      (hv : c.view.mode ≠ .active) : Acts env (c, x) (c.recordLock s command.sequence, x)
  | advance {c x r n} (hr : c.recovery = some r) (hn : n = r.appliedSequence + 1)
      (hc : n ≤ r.lease.commandCursor) (h : InPlace env (c, x) n) :
      Acts env (c, x) (c.updateRecovery fun r =>
        { r with appliedSequence := n, pendingCommandAckSequence := some n }, x)
  | save {c x} (h : ∀ r, c.recovery = some r → r.appliedSequence = c.persisted ∨
      r.appliedSequence = c.persisted + 1 ∧ InPlace env (c, x) r.appliedSequence)
      (hp : ∀ r, c.recovery = some r → r.PendingApplied) : Acts env (c, x) (c.saveRecovery, x)
  | dropLock {c x r n s} (hr : c.recovery = some r) (hp : r.pendingLockSequence = some n)
      (hs : r.pendingLockSessionId = some s)
      (h : (s, n) ∈ x.lockAcknowledged ∨ r.lease.directive = .active ∧ r.lease.sessionId ≠ some s) :
      Acts env (c, x) (c.dropPendingLock, x)
  | block {c x r s} (hr : c.recovery = some r) (hs : r.lease.sessionId = some s)
      (hv : c.view.mode ≠ .active) : Acts env (c, x) (c.block s, x)

/-- A customer's login with both credentials. -/
def Job.IsLogin (k : Job) : Prop :=
  ∃ email password administrator, k = .handle (.login (some email) (some password)) administrator

/-- The acts of a job. -/
inductive Does (env : ClientEnvironment) (k : Job) : Runtime × Exchanges → Runtime × Exchanges → Prop
  | act {w w'} (h : Acts env w w') : Does env k w w'
  | adopt {c x st envelope lease} (b : Bool) (hst : env.stationId = some st)
      (hv : envelope.verify st = .ok lease) (hx : envelope ∈ x.leases)
        (hr : validateRecovery c.recovery lease = .ok ()) (ht : lease.issuedAt ≤ c.trusted) :
      Does env k (c, x) (c.adopt envelope lease b, x)
  | enter {c x r result} (hk : k.IsLogin) (hr : c.recovery = some r) (hc : c.Current) :
      Does env k (c, x) ((c.enter result r.lease).2, x)

theorem Carries.delivered {c : Runtime} {x x' : Exchanges} (h : Carries c x x') {command : MachineCommand}
    (hd : command ∈ x.delivered) : command ∈ x'.delivered := by
  cases h with
  | nothing | handOut | acknowledge | acknowledgeLock => exact hd
  | deliver cs => exact List.mem_append_right cs hd

theorem Acts.delivered {env : ClientEnvironment} {w w' : Runtime × Exchanges} (h : Acts env w w')
    {command : MachineCommand} (hd : command ∈ w.2.delivered) : command ∈ w'.2.delivered := by
  cases h with
  | carry h => exact h.delivered hd
  | _ => exact hd

/-! ### Assertions -/

def Current (w : Runtime × Exchanges) : Prop := w.1.Current

/-- Settling does not invalidate the assertion. -/
def Closed (P : Runtime × Exchanges → Prop) : Prop := ∀ c c' x, P (c, x) → c.Settles c' → P (c', x)

variable {env : ClientEnvironment} {offered : MachineCommand → Bool} {k : Job} {α : Type}
  {P A : Runtime × Exchanges → Prop} {E : Exn → Runtime × Exchanges → Prop}

theorem Closed.stable (h : Closed P) : (client env offered).toSurroundings.Stable P :=
  fun i w hw => h w.1 _ w.2 hw (Runtime.move_settles i)

theorem Closed.and (h : Closed P) (h' : Closed A) : Closed fun w => P w ∧ A w :=
  fun c c' x hp hs => ⟨h c c' x hp.1 hs, h' c c' x hp.2 hs⟩

theorem ClientRecoveryState.LockedTo.pendingApplied {v v' : ClientViewState} {r r' : ClientRecoveryState}
    (h : r.LockedTo v v' r') (hp : r.PendingApplied) : r'.PendingApplied := by
  refine ⟨fun n hn => ?_, fun n hn => ?_⟩
  · rw [h.appliedSequence]
    exact hp.lock n (h.pendingLockSequence ▸ hn)
  · rw [h.appliedSequence]
    exact hp.ack n (h.pendingCommandAckSequence ▸ hn)

namespace Runtime

variable {c c' : Runtime}

theorem Settles.persisted (h : c.Settles c') : c'.persisted = c.persisted := by
  rw [Runtime.persisted, h.snapshots, Runtime.persisted]

theorem Settles.recovery_eq_none (h : c.Settles c') (hn : c'.recovery = none) : c.recovery = none := by
  have h := h.recovery
  rw [hn] at h
  generalize c.recovery = o at h ⊢
  cases h
  rfl

theorem Settles.current (h : c.Settles c') (hc : c.Current) : c'.Current := by
  refine ⟨fun hn => h.persisted.trans (hc.fresh (h.recovery_eq_none hn)), fun r' hr' => ?_, fun r' hr' => ?_⟩
  all_goals obtain ⟨r, hr, hl⟩ := h.exists_of_mem hr'
  · rw [hl.appliedSequence, h.persisted]
    exact hc.saved r hr
  · exact hl.pendingApplied (hc.pending r hr)

theorem Settles.lockInPlace (h : c.Settles c') {s : UUID} {n : ℤ} (hl : c.LockInPlace s n) :
    c'.LockInPlace s n := by
  obtain ⟨hv, r, hr, hn, hs, hb⟩ := hl
  obtain ⟨r', hr', hl⟩ := h.exists_mem hr
  exact ⟨h.not_active hv, r', hr', hl.pendingLockSequence.trans hn, hl.pendingLockSessionId.trans hs,
    (hl.blocked_of_ne hv).trans hb⟩

theorem Settles.inPlace (h : c.Settles c') {x : Exchanges} {n : ℤ} (hi : InPlace env (c, x) n) :
    InPlace env (c', x) n := by
  obtain ⟨command, s, hd, hn, hl⟩ := hi
  exact ⟨command, s, hd, hn, fun hc => h.lockInPlace (hl hc)⟩

end Runtime

theorem closed_current : Closed Current := fun _ _ _ hc hs => hs.current hc

/-! ### Rules for the acts -/

theorem holds_settle {f : Runtime → Runtime} (hP : Closed P) (hf : ∀ c : Runtime, c.Settles (f c)) :
    (client env offered).toSurroundings.Holds (Acts env) P (modify f) (fun _ => P) E :=
  .modify hP.stable hP.stable fun w hw => ⟨.settle (hf w.1), hP _ _ _ hw (hf w.1)⟩

/-- What was read is still so up to settling. -/
def Since (P : Runtime × Exchanges → Prop) (c : Runtime) (w : Runtime × Exchanges) : Prop :=
  P w ∧ P (c, w.2) ∧ c.Settles w.1

theorem Closed.since (hP : Closed P) (c : Runtime) : Closed (Since P c) :=
  fun _ _ _ h hs => ⟨hP _ _ _ h.1 hs, h.2.1, h.2.2.trans hs⟩

theorem holds_get (hP : Closed P) :
    (client env offered).toSurroundings.Holds (Acts env) P get (Since P) E := by
  refine .get hP.stable (fun c => (hP.since c).stable) fun _ hw => ?_
  exact ⟨.settle .rfl, hw, hw, .rfl⟩

/-- A request that leaves nothing behind on the network. -/
theorem holds_send {r : MachineRequest} (hP : Closed P) (hr : ∀ a x, (Exchanges.answer offered r a x).2 = x) :
    (client env offered).toSurroundings.Holds (Acts env) P (send r) (fun _ => P) fun _ => P := by
  refine .request hP.stable (fun _ => hP.stable) (fun _ => hP.stable) fun w a hw => ?_
  have hx : ((client env offered).answer r a w.2).2 = w.2 := hr a w.2
  rw [hx]
  exact ⟨.carry (.nothing _), fun _ _ => hw, fun _ _ => hw⟩

theorem holds_pure {a : α} (hP : Closed P) (h : ∀ w, A w → P w) :
    (client env offered).toSurroundings.Holds (Acts env) A (pure a) (fun _ => P) E := .pure hP.stable h

theorem holds_throw {e : Exn} (hP : Closed P) (h : ∀ w, A w → P w) :
    (client env offered).toSurroundings.Holds (Acts env) (α := α) A (.throw e) (fun _ => P) fun _ => P :=
  .throw hP.stable h

theorem sendHeartbeat_holds (hP : Closed P) :
    (client env offered).toSurroundings.Holds (Acts env) P (sendHeartbeat env) (fun _ => P) fun _ => P :=
  .bind (holds_get hP) fun _ => (holds_send hP fun a _ => by cases a <;> rfl).weaken fun _ h => h.1

theorem ensureToken_holds (hP : Closed P) :
    (client env offered).toSurroundings.Holds (Acts env) P ensureToken (fun _ => P) fun _ => P := by
  refine .bind (holds_get hP) fun c => .ite (fun _ => holds_pure hP fun _ h => h.1) fun _ => ?_
  refine .bind ((holds_send hP fun a _ => by cases a <;> rfl).weaken fun _ h => h.1) fun _ => ?_
  exact holds_settle hP fun c => .of_eq rfl rfl rfl id id rfl le_rfl

/-! ### Commands and acknowledgements -/

theorem Runtime.updateRecovery_of_eq {c : Runtime} {r : ClientRecoveryState} (hr : c.recovery = some r)
    (f : ClientRecoveryState → ClientRecoveryState) : (c.updateRecovery f).recovery = some (f r) := by
  rw [updateRecovery, hr]
  rfl

theorem Runtime.saveRecovery_of_eq {c : Runtime} {r : ClientRecoveryState} (hr : c.recovery = some r) :
    c.saveRecovery = { c with recovery := some { r with trustedUtcFloor := c.trusted }
                              snapshots := { r with trustedUtcFloor := c.trusted } :: c.snapshots } := by
  rw [saveRecovery, hr]

theorem Runtime.Current.of_none {c : Runtime} (hn : c.recovery = none)
    (hp : c.persisted = 0) : c.Current := by
  refine ⟨fun _ => hp, fun r hr => ?_, fun r hr => ?_⟩
  all_goals
    rw [hn] at hr
    cases hr

/-- Saving makes the cursor in memory current. -/
theorem Runtime.saveRecovery_current {c : Runtime} (hf : c.recovery = none → c.persisted = 0)
    (h : ∀ r, c.recovery = some r → r.PendingApplied) : c.saveRecovery.Current := by
  cases hr : c.recovery with
  | none =>
    rw [saveRecovery, hr]
    exact .of_none hr (hf hr)
  | some r =>
    rw [saveRecovery_of_eq hr]
    refine ⟨fun hn => absurd hn (Option.some_ne_none _), fun r' hr' => ?_, fun r' hr' => ?_⟩
    · cases hr'
      rfl
    · cases hr'
      exact ⟨(h r hr).lock, (h r hr).ack⟩

theorem holds_save : (client env offered).toSurroundings.Holds (Acts env) Current (modify (·.saveRecovery))
    (fun _ => Current) E :=
  .modify closed_current.stable closed_current.stable fun _ hw =>
    ⟨.save (fun r hr => .inl (hw.saved r hr)) hw.pending, Runtime.saveRecovery_current hw.fresh hw.pending⟩

theorem Runtime.Current.update {c : Runtime} (hc : c.Current) {f : ClientRecoveryState → ClientRecoveryState}
    (ha : ∀ r, (f r).appliedSequence = r.appliedSequence)
    (hp : ∀ r n, (f r).pendingLockSequence = some n → r.pendingLockSequence = some n)
    (hk : ∀ r n, (f r).pendingCommandAckSequence = some n → r.pendingCommandAckSequence = some n) :
    (c.updateRecovery f).Current := by
  refine ⟨fun hn => hc.fresh (Option.map_eq_none_iff.1 hn), fun r' hr' => ?_, fun r' hr' => ?_⟩
  all_goals obtain ⟨r, hr, rfl⟩ := Option.map_eq_some_iff.1 hr'
  · exact (ha r).trans (hc.saved r hr)
  · refine ⟨fun n hn => ?_, fun n hn => ?_⟩
    · exact (ha r).symm ▸ (hc.pending r hr).lock n (hp r n hn)
    · exact (ha r).symm ▸ (hc.pending r hr).ack n (hk r n hn)

theorem ackPendingCommand_holds :
    (client env offered).toSurroundings.Holds (Acts env) Current ackPendingCommand
      (fun _ => Current) fun _ => Current := by
  refine .bind (holds_get closed_current) fun c => ?_
  split
  · exact holds_pure closed_current fun _ h => h.1
  · rename_i n hn
    obtain ⟨r, hr, hn⟩ := Option.bind_eq_some_iff.1 hn
    refine .bind (Q := fun _ => Current) (.tryCatch (E := fun _ => Current) ?_ fun e => ?_) fun _ =>
      .bind (Q := fun _ => Current) ?_ fun _ => holds_save
    · refine .request (closed_current.since c).stable (fun _ => closed_current.stable)
        (fun _ => closed_current.stable) fun w a hw => ⟨.carry ?_, fun _ _ => hw.1, fun _ _ => hw.1⟩
      obtain ⟨r', hr', hl⟩ := hw.2.2.exists_mem hr
      have happ := hw.1.saved r' hr'
      have hn' : r'.pendingCommandAckSequence = some n := hl.pendingCommandAckSequence.trans hn
      show Carries w.1 w.2 (Exchanges.answer offered (.ack n) a w.2).2
      simp only [Exchanges.answer]
      split
      · exact .acknowledge _ hr' hn' (happ ▸ (hw.1.pending r' hr').ack n hn')
      · exact .nothing _
    · refine .bind (holds_get closed_current) fun c =>
        .ite (fun _ => holds_pure closed_current fun _ h => h.1) fun _ => ?_
      exact holds_throw closed_current fun _ h => h.1
    · refine .modify closed_current.stable closed_current.stable fun w hw => ⟨.dropAck, ?_⟩
      exact Runtime.Current.update hw (fun _ => rfl) (fun _ _ => id) fun _ _ h => nomatch h

/-- The command is next in turn, and the lease admits it. -/
structure Due (env : ClientEnvironment) (command : MachineCommand) (s : UUID)
    (w : Runtime × Exchanges) : Prop where
  current : Current w
  delivered : Delivered env w.2 command s
  next : ∃ r, w.1.recovery = some r ∧ command.sequence = r.appliedSequence + 1 ∧
    command.sequence ≤ r.lease.commandCursor

/-- The effect of the command with the sequence `n` is in place, and the cursor in
memory still to be moved. -/
structure Ready (env : ClientEnvironment) (n : ℤ) (w : Runtime × Exchanges) : Prop where
  inPlace : InPlace env w n
  next : ∃ r, w.1.recovery = some r ∧ n = r.appliedSequence + 1 ∧ n ≤ r.lease.commandCursor ∧
    r.appliedSequence = w.1.persisted ∧ (∀ m ∈ r.pendingLockSequence, m ≤ n) ∧
    ∀ m ∈ r.pendingCommandAckSequence, m ≤ n

/-- The cursor in memory has moved and is still to be saved. -/
structure Moved (env : ClientEnvironment) (n : ℤ) (w : Runtime × Exchanges) : Prop where
  inPlace : InPlace env w n
  next : ∃ r, w.1.recovery = some r ∧ n = r.appliedSequence ∧ n = w.1.persisted + 1 ∧
    (∀ m ∈ r.pendingLockSequence, m ≤ n) ∧ ∀ m ∈ r.pendingCommandAckSequence, m ≤ n

theorem closed_due {command : MachineCommand} {s : UUID} : Closed (Due env command s) := by
  rintro c c' x ⟨hc, hd, r, hr, hn, hl⟩ hs
  obtain ⟨r', hr', hlk⟩ := hs.exists_mem hr
  exact ⟨closed_current _ _ _ hc hs, hd, r', hr', by rw [hlk.appliedSequence]; exact hn,
    by rw [hlk.lease]; exact hl⟩

theorem closed_ready {n : ℤ} : Closed (Ready env n) := by
  rintro c c' x ⟨hi, r, hr, hn⟩ hs
  obtain ⟨r', hr', hlk⟩ := hs.exists_mem hr
  refine ⟨hs.inPlace hi, r', hr', ?_⟩
  rw [hlk.appliedSequence, hlk.lease, hlk.pendingLockSequence, hlk.pendingCommandAckSequence]
  exact hs.persisted ▸ hn

theorem closed_moved {n : ℤ} : Closed (Moved env n) := by
  rintro c c' x ⟨hi, r, hr, hn⟩ hs
  obtain ⟨r', hr', hlk⟩ := hs.exists_mem hr
  refine ⟨hs.inPlace hi, r', hr', ?_⟩
  rw [hlk.appliedSequence, hlk.pendingLockSequence, hlk.pendingCommandAckSequence]
  exact hs.persisted ▸ hn

theorem Due.pending {command : MachineCommand} {s : UUID} {w : Runtime × Exchanges} (h : Due env command s w)
    {r : ClientRecoveryState} (hr : w.1.recovery = some r) :
    (∀ m ∈ r.pendingLockSequence, m ≤ command.sequence) ∧
    ∀ m ∈ r.pendingCommandAckSequence, m ≤ command.sequence := by
  obtain ⟨r', hr', hn, -⟩ := h.next
  rw [hr] at hr'
  cases hr'
  have hp := h.current.pending r hr
  exact ⟨fun m hm => (hp.lock m hm).trans (by omega), fun m hm => (hp.ack m hm).trans (by omega)⟩

/-- A command without a lock needs no more to be in place. -/
theorem Due.ready {command : MachineCommand} {s : UUID} {w : Runtime × Exchanges} (h : Due env command s w)
    (hl : ¬ command.Locks) : Ready env command.sequence w := by
  obtain ⟨r, hr, hn, hc⟩ := h.next
  exact ⟨⟨command, s, h.delivered, rfl, fun hl' => absurd hl' hl⟩, r, hr, hn, hc,
    h.current.saved r hr, h.pending hr⟩

theorem InPlace.updateRecovery {c : Runtime} {x : Exchanges} {n : ℤ} (h : InPlace env (c, x) n)
    {f : ClientRecoveryState → ClientRecoveryState}
    (hf : ∀ r, (f r).pendingLockSequence = r.pendingLockSequence ∧
      (f r).pendingLockSessionId = r.pendingLockSessionId ∧ (f r).blockedSessionId = r.blockedSessionId) :
    InPlace env (c.updateRecovery f, x) n := by
  obtain ⟨command, s, hd, hn, hl⟩ := h
  refine ⟨command, s, hd, hn, fun hk => ?_⟩
  obtain ⟨hv, r, hr, hp, hs, hb⟩ := hl hk
  obtain ⟨h₁, h₂, h₃⟩ := hf r
  exact ⟨hv, f r, Runtime.updateRecovery_of_eq hr f, h₁.trans hp, h₂.trans hs, h₃.trans hb⟩

theorem advance_holds {n : ℤ} : (client env offered).toSurroundings.Holds (Acts env) (Ready env n) (advance n)
    (fun _ => Current) fun _ => Current := by
  refine .bind (Q := fun _ => Moved env n) ?_ fun _ => .bind (Q := fun _ => Current) ?_ fun _ =>
    ackPendingCommand_holds
  · refine .modify closed_ready.stable closed_moved.stable fun w hw => ?_
    obtain ⟨hi, r, hr, hn, hc, ha, hp, hk⟩ := hw
    refine ⟨.advance hr hn hc hi, hi.updateRecovery fun r => ⟨rfl, rfl, rfl⟩, _,
      Runtime.updateRecovery_of_eq hr _, rfl, hn.trans (congrArg (· + 1) ha), hp, fun m hm => ?_⟩
    cases hm
    exact le_rfl
  · refine .modify closed_moved.stable closed_current.stable fun w hw => ?_
    obtain ⟨hi, r, hr, hn, ha, hp⟩ := hw
    have hpending : ∀ r', w.1.recovery = some r' → r'.PendingApplied := fun r' hr' => by
      rw [hr] at hr'
      cases hr'
      exact ⟨hn ▸ hp.1, hn ▸ hp.2⟩
    refine ⟨.save (fun r' hr' => .inr ?_) hpending, Runtime.saveRecovery_current (fun hn => ?_) hpending⟩
    · rw [hr] at hr'
      cases hr'
      exact ⟨hn ▸ ha, hn ▸ hi⟩
    · rw [hr] at hn
      cases hn

/-- What `takeEffect` leaves, by its answer. -/
def Taken (env : ClientEnvironment) (n : ℤ) : Bool → Runtime × Exchanges → Prop
  | true => Ready env n
  | false => Current

theorem takeEffect_holds {r : ClientRecoveryState} {command : MachineCommand} {s : UUID}
    (he : command.expired = false) :
    (client env offered).toSurroundings.Holds (Acts env) (Due env command s) (takeEffect r s command)
      (Taken env command.sequence) fun _ => Current := by
  refine .ite (fun hl => ?_) fun hl => .ite (fun hst => ?_) fun hst => .ite (fun ht => ?_) fun ht => ?_
  · have hlocks : command.Locks := ⟨he, hl⟩
    refine .bind (Q := fun _ w => Due env command s w ∧ w.1.view.mode ≠ .active) ?_ fun _ =>
      .bind (Q := fun _ => Ready env command.sequence) ?_ fun _ => .pure closed_ready.stable fun _ hw => hw
    · refine .modify closed_due.stable (Closed.stable fun c c' x h hs =>
        ⟨closed_due _ _ _ h.1 hs, hs.not_active h.2⟩) fun w hw => ?_
      exact ⟨.settle Runtime.lockLocal_settles, closed_due _ _ _ hw Runtime.lockLocal_settles,
        Runtime.lockLocal_view⟩
    · refine .modify (Closed.stable fun c c' x h hs => ⟨closed_due _ _ _ h.1 hs, hs.not_active h.2⟩)
        closed_ready.stable fun w hw => ?_
      obtain ⟨r, hr, hn, hc⟩ := hw.1.next
      have ha := hw.1.current.saved r hr
      have hp := (hw.1.current.pending r hr).lock
      have hr' := Runtime.updateRecovery_of_eq hr fun r : ClientRecoveryState =>
        { r with pendingLockSequence := some command.sequence
                 pendingLockSessionId := some s
                 locallyLocked := true
                 blockedSessionId := some s }
      refine ⟨.lock hr hw.1.delivered hlocks hn ha hp hw.2,
        ⟨command, s, hw.1.delivered, rfl, fun _ => ⟨hw.2, _, hr', rfl, rfl, rfl⟩⟩, _, hr', hn, hc, ha,
        fun m hm => ?_, (hw.1.pending hr).2⟩
      cases hm
      exact le_rfl
  · refine .bind (Q := fun _ => Ready env command.sequence) ?_ fun _ =>
      .pure closed_ready.stable fun _ hw => hw
    refine .modify closed_due.stable closed_ready.stable fun w hw => ?_
    obtain ⟨r', hr', hn, hc⟩ := hw.next
    refine ⟨.start hr' hw.delivered hst.1 he hn, ⟨command, s, hw.delivered, rfl, fun h => absurd h.2 hl⟩, _,
      Runtime.updateRecovery_of_eq hr' _, ?_⟩
    obtain ⟨hp, hk⟩ := hw.pending hr'
    unfold ClientRecoveryState.acceptStarted
    split
    · exact ⟨hn, hc, hw.current.saved r' hr', (fun m hm => nomatch hm), hk⟩
    · exact ⟨hn, hc, hw.current.saved r' hr', hp, hk⟩
  · exact .pure closed_ready.stable fun _ hw => hw.ready fun h => hl h.2
  · refine .bind (Q := fun _ => Current) ?_ fun _ => ?_
    · exact (holds_settle closed_current fun _ => Runtime.openGap_settles).weaken fun _ hw => hw.current
    exact .pure closed_current.stable fun _ hw => hw

/-- The commands were delivered. -/
def AllDelivered (l : List MachineCommand) (w : Runtime × Exchanges) : Prop :=
  ∀ command ∈ l, command ∈ w.2.delivered

theorem closed_allDelivered {l : List MachineCommand} : Closed (AllDelivered l) := fun _ _ _ h _ => h

theorem AllDelivered.acts {l : List MachineCommand} {w w' : Runtime × Exchanges} (hw : AllDelivered l w)
    (h : Acts env w w') : AllDelivered l w' := fun command hm => h.delivered (hw command hm)

theorem applyCommands_holds {st : UUID} (hst : env.stationId = some st) (l : List MachineCommand) :
    (client env offered).toSurroundings.Holds (Acts env) (fun w => Current w ∧ AllDelivered l w)
      (applyCommands st l) (fun _ => Current) fun _ => Current := by
  induction l with
  | nil => exact holds_pure closed_current fun _ h => h.1
  | cons command rest ih =>
    have hP : Closed fun w => Current w ∧ AllDelivered (command :: rest) w :=
      closed_current.and closed_allDelivered
    refine .bind (holds_get hP) fun c => ?_
    split
    · exact holds_pure closed_current fun _ h => h.1.1
    · rename_i r hr
      split
      · exact ih.weaken fun w h => ⟨h.1.1, fun command hm => h.1.2 command (List.mem_cons_of_mem _ hm)⟩
      · exact (holds_settle closed_current fun _ => Runtime.openGap_settles).weaken fun w h => h.1.1
      · rename_i happly
        refine .bind ((Surroundings.Holds.lift (hP.since c).stable).mono (fun _ => id) (fun _ _ => id)
          fun e w h => h.2.1.1) fun s => .ite (fun hc => ?_) fun hc => ?_
        · exact (holds_settle closed_current fun _ => Runtime.openGap_settles).weaken fun w h => h.2.1.1
        · have hdue : ∀ w, command.validate st = .ok s ∧
            Since (fun w => Current w ∧ AllDelivered (command :: rest) w) c w →
              Due env command s w ∧ AllDelivered rest w := by
            rintro w ⟨hs, hw, -, hset⟩
            obtain ⟨r', hr', hl⟩ := hset.exists_mem hr
            refine ⟨⟨hw.1, ⟨hw.2 command List.mem_cons_self, st, hst, hs⟩, r', hr', ?_, ?_⟩,
              fun command hm => hw.2 command (List.mem_cons_of_mem _ hm)⟩
            · rw [hl.appliedSequence]
              exact SequenceDecision.decide_eq_apply happly
            · rw [hl.lease]
              exact not_lt.1 hc
          have hall : (client env offered).toSurroundings.Stable (AllDelivered rest) :=
            closed_allDelivered.stable
          have hadv : (client env offered).toSurroundings.Holds (Acts env)
              (fun w => Ready env command.sequence w ∧ AllDelivered rest w) (advance command.sequence)
              (fun _ w => Current w ∧ AllDelivered rest w) fun _ w => Current w ∧ AllDelivered rest w :=
            advance_holds.frame hall fun _ _ => AllDelivered.acts
          refine .ite (fun he => ?_) fun he => ?_
          · refine .bind (hadv.mono (fun w h => ?_) (fun _ _ => id) fun _ _ h => h.1) fun _ => ih
            exact ⟨(hdue w h).1.ready fun hl => by rw [hl.1] at he; exact Bool.noConfusion he, (hdue w h).2⟩
          · refine .bind (((takeEffect_holds (by simpa using he)).frame hall fun _ _ =>
              AllDelivered.acts).mono hdue (fun _ _ => id) fun _ _ h => h.1) fun taken => ?_
            cases taken with
            | true => exact .bind (hadv.mono (fun _ => id) (fun _ _ => id) fun _ _ h => h.1) fun _ => ih
            | false => exact holds_pure closed_current fun _ h => h.1

theorem reconcileCommands_holds {st : UUID} (hst : env.stationId = some st) :
    (client env offered).toSurroundings.Holds (Acts env) Current (reconcileCommands st) (fun _ => Current)
      fun _ => Current := by
  refine .bind (holds_get closed_current) fun c => ?_
  split
  · exact holds_pure closed_current fun _ h => h.1
  · refine .bind (Q := fun _ => Current)
      ((holds_settle closed_current fun c => ?_).weaken fun _ h => h.1) fun _ =>
      .bind ackPendingCommand_holds fun _ => .bind (holds_get closed_current) fun c => ?_
    · exact .of_eq rfl rfl rfl id (fun h => Bool.noConfusion h) rfl le_rfl
    · refine .bind (Q := fun cs w => Current w ∧ AllDelivered cs w) ?_ fun cs => ?_
      · refine .request (closed_current.since _).stable
          (fun cs => (closed_current.and closed_allDelivered).stable)
            (fun _ => closed_current.stable) fun w a hw => ?_
        cases a with
        | commands cs =>
          refine ⟨.carry (.deliver (cs.filter offered) _), fun l hl => ?_, fun e he => hw.1⟩
          cases hl
          exact ⟨hw.1, fun command hm => List.mem_append_left _ hm⟩
        | _ => exact ⟨.carry (.nothing _), (fun _ h => nomatch h), fun _ _ => hw.1⟩
      · refine (applyCommands_holds hst _).weaken fun w h => ⟨h.1, fun command hm => h.2 command ?_⟩
        exact (List.mem_insertionSort _).1 hm

theorem Runtime.Current.dropPendingLock {c : Runtime} (hc : c.Current) : c.dropPendingLock.Current :=
  hc.update (fun _ => rfl) (fun _ _ h => nomatch h) fun _ _ => id

theorem ackPendingLock_holds :
    (client env offered).toSurroundings.Holds (Acts env) Current (ackPendingLock env)
      (fun _ => Current) fun _ => Current := by
  refine .bind (holds_get closed_current) fun c => ?_
  split
  · exact holds_pure closed_current fun _ h => h.1
  · rename_i r hr
    split
    · rename_i n s hn hs
      refine .ite (fun _ => holds_pure closed_current fun _ h => h.1) fun hg =>
        .ite (fun ha => ?_) fun ha => ?_
      · refine .modify (closed_current.since c).stable closed_current.stable fun w hw =>
          ⟨?_, hw.1.dropPendingLock⟩
        obtain ⟨r', hr', hl⟩ := hw.2.2.exists_mem hr
        exact .dropLock hr' (hl.pendingLockSequence.trans hn) (hl.pendingLockSessionId.trans hs)
          (.inr (by rw [hl.lease]; exact ha))
      · have hclosed : Closed fun w => Since Current c w ∧ (s, n) ∈ w.2.lockAcknowledged :=
          (closed_current.since c).and fun _ _ _ h _ => h
        refine .bind (Q := fun _ w => Since Current c w ∧ (s, n) ∈ w.2.lockAcknowledged) ?_ fun _ => ?_
        · refine .request (closed_current.since c).stable (fun _ => hclosed.stable)
            (fun _ => closed_current.stable) fun w a hw => ?_
          obtain ⟨r', hr', hl⟩ := hw.2.2.exists_mem hr
          have hn' := hl.pendingLockSequence.trans hn
          have happ := hw.1.saved r' hr'
          have hp := (hw.1.pending r' hr').lock
          have hlocked : r'.locallyLocked = true :=
            hl.locked (by simpa using fun h => hg (.inr (.inr (.inr h))))
          have hc := Carries.acknowledgeLock w.2 hr' hn' (hl.pendingLockSessionId.trans hs) hlocked
            (happ ▸ hp n hn')
          cases a with
          | done => exact ⟨.carry hc, fun _ _ => ⟨hw, List.mem_cons_self⟩, fun _ h => nomatch h⟩
          | lost => exact ⟨.carry hc, (fun _ h => nomatch h), fun _ _ => hw.1⟩
          | _ => exact ⟨.carry (.nothing _), (fun _ h => nomatch h), fun _ _ => hw.1⟩
        · refine .modify hclosed.stable closed_current.stable fun w hw => ⟨?_, hw.1.1.dropPendingLock⟩
          obtain ⟨r', hr', hl⟩ := hw.1.2.2.exists_mem hr
          exact .dropLock hr' (hl.pendingLockSequence.trans hn) (hl.pendingLockSessionId.trans hs) (.inl hw.2)
    · exact holds_pure closed_current fun _ h => h.1

end GManager.Client
