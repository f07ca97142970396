import GManager.JobCancellation

/-!
# Timeouts of jobs

The watchdog interrupts a worker and then reports the failure. The worker takes the interrupt for a
cancellation, so which report counts is a race. If none of the worker's counts in between, a job is cancelled
only on request and every attempt that has timed out ends as failed.
-/

namespace GManager

open Txn

/-- Nobody's job is cancelled unasked, and an attempt that has timed out ends as a failed one: under its token
nothing else is ever reported, and after the watchdog's report the token is no job's. -/
structure EndsRight (s : JobSystem) : Prop where
  asked : ∀ j ∈ s.db.jobs, j.status = .cancelled → Pending j.id s.log
  failed : ∀ t ∈ s.tasks, t.timedOut → ∀ token status, t.job.leaseToken = some token →
    .ended token status ∈ s.log → status = t.job.outcome
  freed : ∀ t ∈ s.tasks, t.watchdog = .fired → ∀ token, t.job.leaseToken = some token →
    ∀ j ∈ s.db.jobs, j.leaseToken ≠ some token

/-- Between the interrupt of a worker and the report of its watchdog, the worker's completion or
cancellation does not count: the lease is not in force any more, or the worker reports a completion of a job
that is to be cancelled. -/
def JobSystem.Prompt (s : JobSystem) : RunnerOp → Prop
  | .report token retryAt => ∀ t ∈ s.tasks, t.job.leaseToken = some token → t.watchdog = .interrupting →
    t.phase = .completing ∨ t.phase = .cancelling →
    ∀ j ∈ s.db.jobs, j.leaseToken = some token → j.status ∉ (t.reports retryAt).1.accepts
  | _ => True

def JobSystem.RunPrompt : JobSystem → List RunnerOp → Prop
  | _, [] => True
  | s, op :: ops => s.Prompt op ∧ (s.step op).RunPrompt ops

instance (s : JobSystem) : ∀ op, Decidable (s.Prompt op)
  | .report token retryAt => inferInstanceAs (Decidable (∀ t ∈ s.tasks.rows, t.job.leaseToken = some token →
    t.watchdog = .interrupting → t.phase = .completing ∨ t.phase = .cancelling →
    ∀ j ∈ s.db.jobs.rows, j.leaseToken = some token → j.status ∉ (t.reports retryAt).1.accepts))
  | .insert _ _ _ _ _ _ _ _ _ | .requestCancellation _ | .retry _ _ | .poll _ | .begin _ | .check _
  | .heartbeat _ _ _ | .swallow _
  | .returns _ | .fails _ | .interrupt _ | .timeout _ _ => inferInstanceAs (Decidable True)

instance decidableRunPrompt : ∀ (s : JobSystem) ops, Decidable (s.RunPrompt ops)
  | _, [] => inferInstanceAs (Decidable True)
  | s, op :: ops => @instDecidableAnd _ _ _ (decidableRunPrompt (s.step op) ops)

/-- What every run keeps of the tasks: only a watchdog interrupts; a worker that has given up without an
interrupt does not hold a running job; and only the last step of a worker or a watchdog is a report. -/
structure Watched (s : JobSystem) : Prop where
  interrupted : ∀ t ∈ s.tasks, t.interrupted = true → t.timedOut
  cancelling : ∀ t ∈ s.tasks, t.phase = .cancelling → t.timedOut ∨
    ∀ token, t.job.leaseToken = some token → ∀ j ∈ s.db.jobs, j.leaseToken = some token → j.status ≠ .running
  ended : ∀ t ∈ s.tasks, ∀ token status, t.job.leaseToken = some token → .ended token status ∈ s.log →
    t.phase = .done ∨ t.watchdog = .fired
  known : ∀ token status, .ended token status ∈ s.log → ∃ t ∈ s.tasks, t.job.leaseToken = some token

section timeouts

variable {s s' : JobSystem} {op : RunnerOp} {db db' : JobDb} {e : JobEvent} {j : Job} {w : JobWrite}
  {t t' : JobTask} {l : List JobNote}

theorem Watched.empty : Watched .empty :=
  ⟨fun _ h => absurd h Table.not_mem_empty, fun _ h => absurd h Table.not_mem_empty, fun _ h =>
    absurd h Table.not_mem_empty, fun _ _ h => absurd h List.not_mem_nil⟩

/-- The jobs that run under some token ran under it before. -/
def StillRunning (db db' : JobDb) : Prop :=
  ∀ j' ∈ db'.jobs, ∀ token, j'.leaseToken = some token → j'.status = .running →
    ∃ j ∈ db.jobs, j.leaseToken = some token ∧ j.status = .running

theorem JobEvent.Occurs.stillRunning (he : (JobEvent.write j w).Occurs db db') : StillRunning db db' := by
  intro j' hj' token ht hr
  rcases he.mem_iff.1 hj' with rfl | ⟨-, hj'⟩
  · cases he with
    | write hj hs =>
      cases w with
      | renew => exact ⟨j, hj, ht, List.mem_singleton.1 hs⟩
      | fail dead => cases dead <;> cases hr
      | complete | cancel | withdraw | ask | retry => cases hr
  · exact ⟨j', hj', ht, hr⟩

theorem stillRunning_insert (he : (JobEvent.insert j).Occurs db db') : StillRunning db db' := by
  intro j' hj' token ht hr
  rcases he.mem_iff.1 hj' with rfl | ⟨-, hj'⟩
  · cases he with
    | insert _ hq =>
      have hq : JobStatus.queued = .running := hq.symm.trans hr
      cases hq
  · exact ⟨j', hj', ht, hr⟩

/-- Changes of the tables that start no attempt, with notes that are no reports. -/
theorem Watched.quiet (h : Watched s) (hr : StillRunning s.db db)
    (hl : ∀ token status, .ended token status ∈ l → .ended token status ∈ s.log) :
    Watched { s with db, log := l } := by
  refine ⟨h.interrupted, fun t ht hp => ?_, fun t ht token status htok hn =>
    h.ended t ht token status htok (hl _ _ hn), fun token status hn => h.known token status (hl _ _ hn)⟩
  refine (h.cancelling t ht hp).imp_right fun hno token htok j hj hjt hs => ?_
  obtain ⟨x, hx, hxt, hxs⟩ := hr j hj token hjt hs
  exact hno token htok x hx hxt hxs

theorem Watched.save (h : Watched s) (ht : t ∈ s.tasks) (hjob : t'.job = t.job)
    (hi : t'.interrupted = true → t'.timedOut)
    (hc : t'.phase = .cancelling → t'.timedOut ∨ ∀ token, t.job.leaseToken = some token →
      ∀ j ∈ s.db.jobs, j.leaseToken = some token → j.status ≠ .running)
    (he : ∀ token status, t.job.leaseToken = some token → .ended token status ∈ l → t'.phase = .done ∨
      t'.watchdog = .fired)
    (hl : ∀ token status, .ended token status ∈ l → .ended token status ∈ s.log ∨
      t.job.leaseToken = some token) :
    Watched { s with tasks := s.tasks.save t', log := l } := by
  have hcases : ∀ x ∈ s.tasks.save t', x ∈ s.tasks ∧ x.job.leaseToken ≠ t.job.leaseToken ∨ x = t' := by
    intro x hx
    rcases Table.mem_save.1 hx with ⟨hx, hk⟩ | ⟨rfl, -⟩
    · exact .inl ⟨hx, by rw [hjob] at hk; exact hk⟩
    · exact .inr rfl
  refine ⟨fun x hx hxi => ?_, fun x hx hp => ?_, fun x hx token status htok hn => ?_,
    fun token status hn => ?_⟩
  · rcases hcases x hx with ⟨hx, -⟩ | rfl
    · exact h.interrupted x hx hxi
    · exact hi hxi
  · rcases hcases x hx with ⟨hx, -⟩ | rfl
    · exact h.cancelling x hx hp
    · rw [hjob]
      exact hc hp
  · rcases hcases x hx with ⟨hx, hne⟩ | rfl
    · rcases hl token status hn with hn | hn
      · exact h.ended x hx token status htok hn
      · exact absurd (htok.trans hn.symm) hne
    · exact he token status (by rw [← hjob]; exact htok) hn
  · rcases hl token status hn with hn | hn
    · obtain ⟨x, hx, hxt⟩ := h.known token status hn
      by_cases hk : x.job.leaseToken = t'.job.leaseToken
      · exact ⟨t', Table.mem_save_self ht (congrArg _ hjob.symm), hk.symm.trans hxt⟩
      · exact ⟨x, Table.mem_save.2 (.inl ⟨hx, hk⟩), hxt⟩
    · exact ⟨t', Table.mem_save_self ht (congrArg _ hjob.symm), by rw [hjob]; exact hn⟩

/-- A claim gives a job to a new task, whose token nobody has reported under. -/
theorem Watched.claim {c : Claim} {tasks : Table fun t : JobTask => t.job.leaseToken} (h : Watched s)
    (he : (JobEvent.claim j c).Occurs s.db db) (ht : s.tasks.insert (.submit (c.record j)) = some tasks) :
    Watched ⟨db, tasks, .claimed j.id :: s.log⟩ := by
  have hfresh : ∀ x ∈ s.tasks, x.job.leaseToken ≠ some (c.tokens j.id) := (Table.insert_eq_some.1 ht).1
  have hlog : ∀ {token status}, .ended token status ∈ JobNote.claimed j.id :: s.log →
      .ended token status ∈ s.log := by
    intro token status hn
    exact (List.mem_cons.1 hn).resolve_left (by simp)
  refine ⟨fun x hx hi => ?_, fun x hx hp => ?_, fun x hx token status htok hn => ?_,
    fun token status hn => ?_⟩
  · rcases (Table.mem_insert ht).1 hx with hx | rfl
    · exact h.interrupted x hx hi
    · cases hi
  · rcases (Table.mem_insert ht).1 hx with hx | rfl
    · refine (h.cancelling x hx hp).imp_right fun hno token htok y hy hyt => ?_
      rcases he.mem_iff.1 hy with rfl | ⟨-, hy⟩
      · exact absurd (htok.trans hyt.symm) (hfresh x hx)
      · exact hno token htok y hy hyt
    · cases hp
  · rcases (Table.mem_insert ht).1 hx with hx | rfl
    · exact h.ended x hx token status htok (hlog hn)
    · obtain ⟨y, hy, hyt⟩ := h.known token status (hlog hn)
      exact absurd (hyt.trans htok.symm) (hfresh y hy)
  · obtain ⟨y, hy, hyt⟩ := h.known token status (hlog hn)
    exact ⟨y, (Table.mem_insert ht).2 (.inl hy), hyt⟩

theorem JobDb.Updated.stillRunning {id : UUID} {p : Job → Prop} {b : Bool} (hu : db.Updated id p w b db') :
    StillRunning db db' := by
  rcases hu with ⟨-, j, -, -, -, he⟩ | ⟨-, rfl, -⟩
  · exact he.stillRunning
  · exact fun j hj _ ht hs => ⟨j, hj, ht, hs⟩

theorem mem_ended {b : Bool} {token k : UUID} {status status' : JobStatus}
    (h : .ended k status' ∈ if b then .ended token status :: l else l) :
    (b = true ∧ k = token ∧ status' = status) ∨ JobNote.ended k status' ∈ l := by
  cases b with
  | false => exact .inr h
  | true =>
    rcases List.mem_cons.1 h with h | h
    · obtain ⟨rfl, rfl⟩ := JobNote.ended.inj h
      exact .inl ⟨rfl, rfl, rfl⟩
    · exact .inr h

theorem Watched.move (h : Watched s) (hi : Tied s) (ht : t ∈ s.tasks) (hm : t.Moves s t') :
    Watched (s.setTask t') := by
  have hold : ∀ {x : JobTask}, (t.phase = .done → x.phase = .done) →
    (t.watchdog = .fired → x.watchdog = .fired) →
      ∀ token status, t.job.leaseToken = some token → .ended token status ∈ s.log → x.phase = .done ∨
      x.watchdog = .fired := by
    intro x hd hf token status htok hn
    exact (h.ended t ht token status htok hn).imp hd hf
  have hlog : ∀ token status, .ended token status ∈ s.log →
      .ended token status ∈ s.log ∨ t.job.leaseToken = some token :=
    fun _ _ => .inl
  cases hm with
  | begins hp =>
    refine h.save ht rfl (h.interrupted t ht) (fun hc => by cases hc) (hold (fun hd => ?_) id) hlog
    exact absurd (hp.symm.trans hd) (by simp)
  | swallow hp =>
    exact h.save ht rfl (fun h => by cases h)
      (fun hc => absurd (hp.symm.trans hc) (by simp)) (hold id id) hlog
  | returns hp =>
    refine h.save ht rfl (h.interrupted t ht) (fun hc => by cases hc) (hold (fun hd => ?_) id) hlog
    exact absurd (hp.symm.trans hd) (by simp)
  | passes hp =>
    refine h.save ht rfl (h.interrupted t ht) (fun hc => by cases hc) (hold (fun hd => ?_) id) hlog
    exact absurd (hp.symm.trans hd) (by simp)
  | fails hp =>
    refine h.save ht rfl (h.interrupted t ht) (fun hc => by cases hc) (hold (fun hd => ?_) id) hlog
    rcases hp with hp | hp
    · exact absurd (hp.symm.trans hd) (by simp)
    · exact absurd (hp.symm.trans hd) (by simp)
  | cancels hp why =>
    refine h.save ht rfl (h.interrupted t ht) (fun _ => ?_) (hold (fun hd => ?_) id) hlog
    · refine why.imp (h.interrupted t ht) fun hno token htok j hj hjt => ?_
      exact hno j hj (hi.id_eq ht htok hj hjt).symm (hjt.trans htok.symm)
    · rcases hp with hp | hp | hp
      · exact absurd (hp.symm.trans hd) (by simp)
      · exact absurd (hp.symm.trans hd) (by simp)
      · exact absurd (hp.symm.trans hd) (by simp)
  | idle hw hp =>
    refine h.save ht rfl (fun hi => ?_) (fun hc => absurd (hp.symm.trans hc) (by simp))
      (fun _ _ _ _ => .inl hp) hlog
    rcases h.interrupted t ht hi with hw' | hw'
    · exact absurd (hw.symm.trans hw') (by simp)
    · exact absurd (hw.symm.trans hw') (by simp)
  | stops hw hp =>
    exact h.save ht rfl (fun _ => .inl rfl) (fun hc => by cases hc) (fun _ _ _ _ => .inl rfl) hlog
  | interrupts hw hd hp =>
    refine h.save ht rfl (fun _ => .inl rfl) (fun _ => .inl (.inl rfl)) (hold id fun hf => ?_) hlog
    exact absurd (hw.symm.trans hf) (by simp)

theorem Watched.step (h : Watched s) (hi : Tied s) (hs : JobStep s op s') : Watched s' := by
  cases hs with
  | same => exact h
  | insert _ he => exact h.quiet (stillRunning_insert he) fun _ _ => id
  | request _ _ he => exact h.quiet he.stillRunning fun _ _ hn => (List.mem_cons.1 hn).resolve_left (by simp)
  | retry _ he => exact h.quiet he.stillRunning fun _ _ hn => (List.mem_cons.1 hn).resolve_left (by simp)
  | poll hes hpolls ht =>
    exact poll_induct (P := Watched) (fun s j db h _ _ he => h.quiet he.stillRunning fun _ _ => id)
      (fun s j db tasks h _ he ht => h.claim he ht) hes hpolls ht h
  | @start _ t ht _ hp =>
    refine h.save ht rfl (h.interrupted t ht) (fun hc => by cases hc) (fun token status htok hn => ?_)
      fun token status hn => ?_
    · have hn := (List.mem_cons.1 hn).resolve_left (by simp)
      refine (h.ended t ht token status htok hn).imp_left fun hd => ?_
      exact absurd (hp.symm.trans hd) (by simp)
    · exact .inl ((List.mem_cons.1 hn).resolve_left (by simp))
  | renew he => exact h.quiet he.stillRunning fun _ _ => id
  | task ht hm => exact h.move hi ht hm
  | @report _ _ t _ _ ht htoken _ hu =>
    refine (h.quiet (l := s.log) hu.stillRunning fun _ _ => id).save ht rfl (h.interrupted t ht)
      (fun hc => by cases hc) (fun _ _ _ _ => .inl rfl) fun token status hn => ?_
    exact (mem_ended hn).symm.imp_right fun hn => htoken.trans (congrArg some hn.2.1.symm)
  | @timeout _ _ t _ _ ht htoken _ hu =>
    refine (h.quiet (l := s.log) hu.stillRunning fun _ _ => id).save ht rfl (fun _ => .inr rfl)
      (fun _ => .inl (.inr rfl)) (fun _ _ _ _ => .inr rfl) fun token status hn => ?_
    exact (mem_ended hn).symm.imp_right fun hn => htoken.trans (congrArg some hn.2.1.symm)

theorem Watched.run (h : Watched s) (hi : Tied s) (ops : List RunnerOp) : Watched (s.run ops) := by
  induction ops generalizing s with
  | nil => exact h
  | cons op ops ih => exact ih (h.step hi (s.step_cases op)) (hi.step (s.step_cases op))

/-! ### Every attempt ends right -/

/-- Only a cancellation, or the withdrawal of a waiting job, cancels a job. -/
theorem JobWrite.status_eq_cancelled (h : (w.apply j).status = .cancelled) (hs : j.status ∈ w.accepts) :
    w = .cancel ∨ w = .withdraw := by
  cases w with
  | cancel => exact .inl rfl
  | withdraw => exact .inr rfl
  | renew =>
    have hs := List.mem_singleton.1 hs
    simp [apply, hs] at h
  | fail dead => cases dead <;> simp [apply, Job.release] at h
  | complete | ask | retry => simp [apply, Job.release] at h

/-- The event does not cancel its job unasked, and no lease of a finished task comes back. -/
theorem EndsRight.event (h : EndsRight s) (he : e.Occurs s.db db) (hinh : Inherits s.db db)
    (hask : e.after.status = .cancelled → Pending e.id l)
    (hl : ∀ id, id ≠ e.id → Pending id s.log → Pending id l)
    (hended : ∀ token status, .ended token status ∈ l → .ended token status ∈ s.log) :
    EndsRight { s with db, log := l } := by
  refine ⟨fun x hx hs => ?_, fun t ht hto token status htok hn => h.failed t ht hto token status htok
    (hended _ _ hn), ?_⟩
  · rcases he.mem_iff.1 hx with rfl | ⟨hid, hx⟩
    · rw [e.after_id]
      exact hask hs
    · exact hl x.id hid (h.asked x hx hs)
  · intro t ht hw token htok x hx hxt
    obtain ⟨y, hy, hyt, -⟩ := hinh x hx token hxt
    exact h.freed t ht hw token htok y hy hyt

theorem EndsRight.save (h : EndsRight s) (hjob : t'.job = t.job)
    (hp : ∀ id, Pending id s.log → Pending id l)
    (hf : t'.timedOut → ∀ token status, t.job.leaseToken = some token → .ended token status ∈ l →
      status = t.job.outcome)
    (ho : t'.watchdog = .fired → ∀ token, t.job.leaseToken = some token →
      ∀ j ∈ s.db.jobs, j.leaseToken ≠ some token)
    (hl : ∀ token status, .ended token status ∈ l → .ended token status ∈ s.log ∨
      t.job.leaseToken = some token) :
    EndsRight { s with tasks := s.tasks.save t', log := l } := by
  refine ⟨fun x hx hs => hp _ (h.asked x hx hs), fun x hx hto token status htok hn => ?_,
    fun x hx hw token htok => ?_⟩
  · rcases Table.mem_save.1 hx with ⟨hx, hk⟩ | ⟨rfl, -⟩
    · rcases hl token status hn with hn | hn
      · exact h.failed x hx hto token status htok hn
      · exact absurd (htok.trans (hn.symm.trans (congrArg _ hjob.symm))) hk
    · rw [hjob] at htok ⊢
      exact hf hto token status htok hn
  · rcases Table.mem_save.1 hx with ⟨hx, -⟩ | ⟨rfl, -⟩
    · exact h.freed x hx hw token htok
    · rw [hjob] at htok
      exact ho hw token htok

/-- After the report of a failure no job has the token of the attempt. -/
theorem Tied.gone (h : Tied s) {token : UUID} {b dead : Bool} {at' : Instant} {ending : JobAttemptStatus}
    (ht : t ∈ s.tasks) (htoken : t.job.leaseToken = some token)
    (hu : s.db.Updated t.job.id (fun j => j.leaseToken = some token) (.fail dead at' ending) b db) :
    ∀ j ∈ db.jobs, j.leaseToken ≠ some token := by
  intro j hj hjt
  rcases hu with ⟨-, y, hy, hyid, -, he⟩ | ⟨-, rfl, hno⟩
  · rcases he.mem_iff.1 hj with rfl | ⟨hne, hj⟩
    · cases hjt
    · exact hne ((h.id_eq ht htoken hj hjt).symm.trans hyid.symm)
  · have hheld := (h.leased.status j hj).1 (by rw [hjt]; rfl)
    exact hno j hj (h.id_eq ht htoken hj hjt).symm hjt
      (by simpa [JobWrite.accepts, JobStatus.held] using hheld)

theorem EndsRight.move (h : EndsRight s) (hw : Watched s)
    (ht : t ∈ s.tasks) (hm : t.Moves s t') : EndsRight (s.setTask t') := by
  have hkeep : t'.watchdog = t.watchdog → EndsRight (s.setTask t') := by
    intro hwatch
    refine h.save hm.job_eq (fun _ => id) (fun hto => ?_) (fun hf => ?_) fun _ _ => .inl
    · exact h.failed t ht (by rw [JobTask.timedOut, ← hwatch]; exact hto)
    · exact h.freed t ht (hwatch.symm.trans hf)
  -- a task that is interrupted now has not been reported yet
  have hnone : t.watchdog = .armed → t.phase ≠ .done → ∀ token status, t.job.leaseToken = some token →
      .ended token status ∈ s.log → status = t.job.outcome := by
    intro harm hd token status htok hn
    rcases hw.ended t ht token status htok hn with hd' | hf
    · exact absurd hd' hd
    · exact absurd (harm.symm.trans hf) (by simp)
  cases hm with
  | begins | swallow | returns | passes | fails | cancels => exact hkeep rfl
  | idle => exact h.save rfl (fun _ => id) (fun hto =>
      by rcases hto with hto | hto <;> cases hto) (fun hf => by cases hf) fun _ _ => .inl
  | stops harm hp =>
    exact h.save rfl (fun _ => id) (fun _ => hnone harm (by simp [hp])) (fun hf => by cases hf)
      fun _ _ => .inl
  | interrupts harm hd _ =>
    exact h.save rfl (fun _ => id) (fun _ => hnone harm hd) (fun hf => by cases hf) fun _ _ => .inl

/-- What a worker reports of an attempt that has timed out is a failure, and what it
cancels was to be cancelled. -/
theorem EndsRight.reported (h : EndsRight s) (hi : Tied s) (ha : Asked s) (hw : Watched s) {token : UUID}
    {retryAt : Instant} (hop : s.Prompt (.report token retryAt)) (ht : t ∈ s.tasks)
    (htoken : t.job.leaseToken = some token) (hj : j ∈ s.db.jobs) (hjt : j.leaseToken = some token)
    (hs : j.status ∈ (t.reports retryAt).1.accepts)
    (hp : t.phase = .completing ∨ t.phase = .cancelling ∨ t.phase = .failing) :
    (t.timedOut → (t.reports retryAt).2 = t.job.outcome) ∧
    ((t.reports retryAt).1 = .cancel → Pending j.id s.log) := by
  have hnf : t.watchdog ≠ .fired := fun hf => h.freed t ht hf token htoken j hj hjt
  have hfail : t.watchdog = .interrupting → t.phase = .failing := by
    intro hint
    rcases hp with hp | hp | hp
    · exact absurd hs (hop t ht htoken hint (.inl hp) j hj hjt)
    · exact absurd hs (hop t ht htoken hint (.inr hp) j hj hjt)
    · exact hp
  refine ⟨fun hto => ?_, fun hc => ?_⟩
  · have hp := hfail (hto.resolve_right hnf)
    simp [JobTask.reports, hp]
  · have hcan : t.phase = .cancelling := by
      rcases hp with hp | hp | hp
      · simp [JobTask.reports, hp] at hc
      · exact hp
      · simp [JobTask.reports, hp] at hc
    rcases hw.cancelling t ht hcan with (hint | hf) | hrun
    · exact absurd (hcan.symm.trans (hfail hint)) (by simp)
    · exact absurd hf hnf
    · have hheld := (hi.leased.status j hj).1 (by rw [hjt]; rfl)
      exact ha j hj (hheld.resolve_left (hrun token htoken j hj hjt))

/-- The report of a worker or a watchdog, on the tables and the history. -/
theorem EndsRight.updated {id token : UUID} {b : Bool} (h : EndsRight s) (hi : Tied s)
    (hu : s.db.Updated id (fun j => j.leaseToken = some token) w b db) (hw : w ≠ .withdraw)
    (hc : w = .cancel → ∀ j ∈ s.db.jobs, j.leaseToken = some token → j.status ∈ w.accepts →
      Pending j.id s.log) :
    EndsRight { s with db } := by
  rcases hu with ⟨-, j, hj, -, hjt, he⟩ | ⟨-, rfl, -⟩
  · refine h.event he (hi.leased.inherits_write he) (fun hs => ?_) (fun _ _ hp => hp) fun _ _ hn => hn
    cases he with
    | write _ hacc => exact hc ((JobWrite.status_eq_cancelled hs hacc).resolve_right hw) j hj hjt hacc
  · exact h

theorem EndsRight.step (h : EndsRight s) (hi : Tied s) (ha : Asked s) (hw : Watched s) (hop : s.Prompt op)
    (hs : JobStep s op s') :
    EndsRight s' := by
  cases hs with
  | same => exact h
  | insert _ he =>
    refine h.event he (inherits_insert he) (fun hs => ?_) (fun _ _ hp => hp) fun _ _ hn => hn
    cases he with
    | insert _ hq => exact absurd (hq.symm.trans hs) (by simp)
  | @request id j w _ hid hw he =>
    refine h.event he (hi.leased.inherits_write he) (fun _ => .inl hid.symm)
      (fun _ _ hp => .inr hp) fun _ _ hn => ?_
    exact (List.mem_cons.1 hn).resolve_left (by simp)
  | @retry id now j _ hid he =>
    refine h.event he (hi.leased.inherits_write he) (fun hs => by cases hs)
      (fun k hk hp => ⟨fun hik => hk ?_, hp⟩) fun _ _ hn => ?_
    · exact hik.symm.trans hid.symm
    · exact (List.mem_cons.1 hn).resolve_left (by simp)
  | poll hes hpolls ht =>
    refine (poll_induct (P := fun s => EndsRight s ∧ Tied s ∧ Asked s) ?_ ?_ hes hpolls ht ⟨h, hi, ha⟩).1
    · rintro s j db ⟨h, hi, ha⟩ - hs he
      refine ⟨?_, hi.write he (by simp [JobWrite.ending]), ha.write he (by simp) fun _ _ hp => hp⟩
      refine h.event he (hi.leased.inherits_write he) (fun _ => ?_) (fun _ _ hp => hp) fun _ _ hn => hn
      cases he with
      | write hj _ => exact ha j hj hs
    · rintro s j db tasks ⟨h, hi, ha⟩ - he ht
      have hfresh := (Table.insert_eq_some.1 ht).1
      refine ⟨⟨fun x hx hs => ?_, fun x hx hto token status htok hn => ?_,
        fun x hx hf token htok y hy hyt => ?_⟩, hi.claim he ht,
        ha.event he (by simp [JobEvent.after, Claim.run]) fun _ _ hp => hp⟩
      · rcases he.mem_iff.1 hx with rfl | ⟨-, hx⟩
        · cases hs
        · exact h.asked x hx hs
      · rcases (Table.mem_insert ht).1 hx with hx | rfl
        · exact h.failed x hx hto token status htok ((List.mem_cons.1 hn).resolve_left (by simp))
        · rcases hto with hto | hto <;> cases hto
      · rcases (Table.mem_insert ht).1 hx with hx | rfl
        · rcases he.mem_iff.1 hy with rfl | ⟨-, hy⟩
          · exact hfresh x hx (htok.trans hyt.symm)
          · exact h.freed x hx hf token htok y hy hyt
        · cases hf
  | @start _ t ht =>
    have hlog : ∀ {token status}, .ended token status ∈ JobNote.started t.job.id :: s.log →
        .ended token status ∈ s.log :=
      fun hn => (List.mem_cons.1 hn).resolve_left (by simp)
    exact h.save rfl (fun _ hp => hp) (fun hto token status htok hn => h.failed t ht hto token status htok
      (hlog hn)) (h.freed t ht) fun _ _ hn => .inl (hlog hn)
  | renew he =>
    refine h.event he (hi.leased.inherits_write he) (fun hs => ?_) (fun _ _ hp => hp) fun _ _ hn => hn
    cases he with
    | write _ hacc => exact absurd (JobWrite.status_eq_cancelled hs hacc) (by simp)
  | task ht hm => exact h.move hw ht hm
  | @report token retryAt t b db ht htoken hp hu =>
    have hrep : ∀ j ∈ s.db.jobs, j.leaseToken = some token → j.status ∈ (t.reports retryAt).1.accepts →
        (t.timedOut → (t.reports retryAt).2 = t.job.outcome) ∧
        ((t.reports retryAt).1 = .cancel → Pending j.id s.log) :=
      fun j hj hjt hs => h.reported hi ha hw hop ht htoken hj hjt hs hp
    have hdb : EndsRight { s with db } := by
      refine h.updated hi hu ?_ fun hc j hj hjt hs => (hrep j hj hjt hs).2 hc
      · unfold JobTask.reports
        split <;> simp
    refine hdb.save rfl (fun _ hp => pending_ended.2 hp) (fun hto k status htok hn => ?_) (hdb.freed t ht)
      fun k status hn => ?_
    · rcases mem_ended hn with ⟨rfl, -, rfl⟩ | hn
      · rcases hu with ⟨-, j, hj, -, hjt, he⟩ | ⟨hb, -⟩
        · cases he with
          | write _ hs => exact (hrep j hj hjt hs).1 hto
        · cases hb
      · exact h.failed t ht hto k status htok hn
    · exact (mem_ended hn).symm.imp_right fun hn => htoken.trans (congrArg some hn.2.1.symm)
  | @timeout token retryAt t b db ht htoken hint hu =>
    have hdb : EndsRight { s with db } := h.updated hi hu (by simp) (by simp)
    refine hdb.save rfl (fun _ hp => pending_ended.2 hp) (fun _ k status htok hn => ?_) (fun _ k htok => ?_)
      fun k status hn => ?_
    · rcases mem_ended hn with ⟨-, -, rfl⟩ | hn
      · rfl
      · exact h.failed t ht (.inl hint) k status htok hn
    · obtain rfl := Option.some.inj (htoken.symm.trans htok)
      exact hi.gone ht htoken hu
    · exact (mem_ended hn).symm.imp_right fun hn => htoken.trans (congrArg some hn.2.1.symm)

theorem EndsRight.empty : EndsRight .empty :=
  ⟨fun _ h => absurd h Table.not_mem_empty, fun _ h => absurd h Table.not_mem_empty, fun _ h =>
    absurd h Table.not_mem_empty⟩

theorem EndsRight.run (h : EndsRight s) (hi : Tied s) (ha : Asked s) (hw : Watched s) {ops : List RunnerOp}
    (hops : s.RunPrompt ops) : EndsRight (s.run ops) := by
  induction ops generalizing s with
  | nil => exact h
  | cons op ops ih =>
    have hs := s.step_cases op
    exact ih (h.step hi ha hw hops.1 hs) (hi.step hs) (ha.step hs) (hw.step hi hs) hops.2

/-- A completion or a cancellation that counts after the interrupt is no failure. -/
theorem Tied.prompt (hi : Tied s) (h : EndsRight (s.step op)) : s.Prompt op := by
  cases op with
  | report token retryAt =>
    intro t ht htoken hint hp j hj hjt hs
    have hstep : s.step (.report token retryAt) = s.report token retryAt t := withTask_eq ht htoken
    have hp' : t.phase = .completing ∨ t.phase = .cancelling ∨ t.phase = .failing := hp.imp_right .inl
    obtain ⟨b, db, hu, heq⟩ := @JobSystem.report_eq s token retryAt t htoken hp'
    rw [hstep, heq] at h
    rcases hu with ⟨rfl, -⟩ | ⟨-, -, hno⟩
    · -- the report counts, so its note is in the history
      have hmem : ({ t with phase := .done } : JobTask) ∈ s.tasks.save { t with phase := .done } :=
        Table.mem_save_self ht rfl
      have hout := h.failed _ hmem (.inl hint) token (t.reports retryAt).2 htoken List.mem_cons_self
      have hne : (t.reports retryAt).2 = .completed ∨ (t.reports retryAt).2 = .cancelled := by
        rcases hp with hp | hp
        · simp [JobTask.reports, hp]
        · simp [JobTask.reports, hp]
      have hfail : t.job.outcome = .dead ∨ t.job.outcome = .retry := by
        unfold JobRecord.outcome
        split
        · exact .inl rfl
        · exact .inr rfl
      rw [hout] at hne
      rcases hfail with hf | hf
      · simp [hf] at hne
      · simp [hf] at hne
    · exact hno j hj (hi.id_eq ht htoken hj hjt).symm hjt hs
  | insert | requestCancellation | retry | poll | begin | check | heartbeat | swallow | returns | fails
  | interrupt | timeout => trivial

/-- While no completion or cancellation counts between an interrupt and the watchdog's report, every cancelled
job was asked to be and every attempt that has timed out ends as a failure; and a step after such a run breaks
that exactly if it is such a report. -/
theorem timeouts_end_right (ops : List RunnerOp) (hops : JobSystem.empty.RunPrompt ops) :
    EndsRight (JobSystem.empty.run ops) ∧
      ∀ op, EndsRight ((JobSystem.empty.run ops).step op) ↔ (JobSystem.empty.run ops).Prompt op := by
  have hi : Tied (JobSystem.empty.run ops) := Tied.empty.run ops
  have h₀ : Asked .empty := fun _ h => absurd h Table.not_mem_empty
  have ha : Asked (JobSystem.empty.run ops) := h₀.run ops
  have hw : Watched (JobSystem.empty.run ops) := Watched.empty.run Tied.empty ops
  have h : EndsRight (JobSystem.empty.run ops) := EndsRight.empty.run Tied.empty h₀ Watched.empty hops
  exact ⟨h, fun op => ⟨hi.prompt, fun hop => h.step hi ha hw hop ((JobSystem.empty.run ops).step_cases op)⟩⟩

/-! A job with three attempts whose first is interrupted under the token `11`. -/

def Stopped.interrupted : List RunnerOp :=
  [Stopped.insert, .poll (Stopped.poll 1), .begin 11, .check 11, .interrupt 11, .check 11]

/-- The watchdog reports first. -/
theorem timeouts_end_right_watchdog :
    (JobSystem.empty.run (Stopped.interrupted ++ [.timeout 11 2, .report 11 2])).log =
    [.ended 11 .retry, .started 1, .claimed 1] ∧
      EndsRight (JobSystem.empty.run (Stopped.interrupted ++ [.timeout 11 2, .report 11 2])) :=
  ⟨by decide +kernel, (timeouts_end_right (Stopped.interrupted ++ [.timeout 11 2, .report 11 2])
    (by decide +kernel)).1⟩

/-- The worker reports first: the job is cancelled, though nobody asked, and will not be tried again. -/
theorem timeout_cancels :
    (JobSystem.empty.run (Stopped.interrupted ++ [.report 11 2, .timeout 11 2])).db.jobs.rows.map
      (·.status) = [.cancelled] ∧
      (JobSystem.empty.run (Stopped.interrupted ++ [.report 11 2, .timeout 11 2])).log =
        [.ended 11 .cancelled, .started 1, .claimed 1] ∧
      ¬ EndsRight (JobSystem.empty.run (Stopped.interrupted ++ [.report 11 2, .timeout 11 2])) := by
  refine ⟨by decide +kernel, by decide +kernel, fun h => ?_⟩
  have hasked :
    ∀ j ∈ (JobSystem.empty.run (Stopped.interrupted ++ [.report 11 2, .timeout 11 2])).db.jobs.rows,
    j.status = .cancelled → Pending j.id
      (JobSystem.empty.run (Stopped.interrupted ++ [.report 11 2, .timeout 11 2])).log := h.asked
  revert hasked
  decide +kernel

end timeouts

end GManager
