import GManager.JobRunner

/-!
# Cancellation of jobs

Two questions about `requestCancellation` and the workers. Is a request that was granted ever lost: is the job
claimed again, or its handler started, before an operator retries the job? And is a job ever cancelled that
nobody asked to cancel? The report of a failure does not look at the request, a worker that begins looks for a
request under its own lease only, and the interrupt of the watchdog is taken for a cancellation; the theorems
say exactly which steps these are.
-/

namespace GManager

open Txn

/-! ### Histories -/

/-- A request for the job was granted, and no retry since. -/
def Pending (id : UUID) : List JobNote → Prop
  | [] => False
  | .requested k :: log => k = id ∨ Pending id log
  | .retried k :: log => k ≠ id ∧ Pending id log
  | .claimed _ :: log | .started _ :: log | .ended _ _ :: log => Pending id log

/-- No job was claimed, and no handler started, while a request was pending. -/
def Respects : List JobNote → Prop
  | [] => True
  | .claimed k :: log | .started k :: log => ¬ Pending k log ∧ Respects log
  | .requested _ :: log | .retried _ :: log | .ended _ _ :: log => Respects log

instance decidablePending (id : UUID) : ∀ log, Decidable (Pending id log)
  | [] => inferInstanceAs (Decidable False)
  | .requested k :: log => @instDecidableOr (k = id) _ _ (decidablePending id log)
  | .retried k :: log => @instDecidableAnd (k ≠ id) _ _ (decidablePending id log)
  | .claimed _ :: log | .started _ :: log | .ended _ _ :: log => decidablePending id log

instance decidableRespects : ∀ log, Decidable (Respects log)
  | [] => inferInstanceAs (Decidable True)
  | .claimed _ :: log | .started _ :: log => @instDecidableAnd _ _ _ (decidableRespects log)
  | .requested _ :: log | .retried _ :: log | .ended _ _ :: log => decidableRespects log

/-! ### What every run keeps -/

/-- What every event of a sequence keeps, the sequence keeps, with the tasks of its claims. -/
theorem events_induct {P : JobSystem → Prop} {Q : JobEvent → Prop} (hinsert : ∀ j, ¬ Q (.insert j))
    (hwrite : ∀ (s : JobSystem) j w db, P s → Q (.write j w) → (JobEvent.write j w).Occurs s.db db →
      P { s with db })
    (hclaim : ∀ (s : JobSystem) j c db tasks, P s → Q (.claim j c) → (JobEvent.claim j c).Occurs s.db db →
      s.tasks.insert (.submit (c.record j)) = some tasks → P ⟨db, tasks, .claimed j.id :: s.log⟩)
    {db db' : JobDb} {es : List JobEvent} (hes : JobEvents db es db') (hq : ∀ e ∈ es, Q e) :
    ∀ {tasks tasks' : Table fun t : JobTask => t.job.leaseToken} {log : List JobNote},
      (es.filterMap JobEvent.record).foldlM (fun tasks r => tasks.insert (JobTask.submit r)) tasks =
        some tasks' →
      P ⟨db, tasks, log⟩ → P ⟨db', tasks',
        ((es.filterMap JobEvent.record).map fun r => .claimed r.id).reverse ++ log⟩ := by
  induction hes with
  | nil =>
    intro tasks tasks' log ht h
    obtain rfl : tasks = tasks' := Option.some.inj ht
    exact h
  | @cons db db₁ db' e es he _ ih =>
    intro tasks tasks' log ht h
    have hrest : ∀ e ∈ es, Q e := fun e he => hq e (List.mem_cons_of_mem _ he)
    have hQ := hq e List.mem_cons_self
    cases e with
    | insert j => exact absurd hQ (hinsert j)
    | write j w => exact ih hrest ht (hwrite ⟨db, tasks, log⟩ j w db₁ h hQ he)
    | claim j c =>
      have hcons : (JobEvent.claim j c :: es).filterMap JobEvent.record = c.record j ::
          es.filterMap JobEvent.record := rfl
      rw [hcons, List.foldlM_cons] at ht
      obtain ⟨tasks₁, ht₁, ht⟩ := Option.bind_eq_some_iff.1 ht
      rw [hcons, List.map_cons, List.reverse_cons, List.append_assoc]
      exact ih hrest ht (hclaim ⟨db, tasks, log⟩ j c db₁ tasks₁ h hQ he ht₁)

/-- What every step of a poll keeps, the poll keeps. -/
theorem poll_induct {P : JobSystem → Prop} {c : Claim} {db₀ : JobDb}
    (hexpire : ∀ (s : JobSystem) j db, P s → j ∈ db₀.jobs → j.status = .cancelRequested →
      (JobEvent.write j .cancel).Occurs s.db db → P { s with db })
    (hclaim : ∀ (s : JobSystem) j db tasks, P s → j ∈ db₀.taken c → (JobEvent.claim j c).Occurs s.db db →
      s.tasks.insert (.submit (c.record j)) = some tasks → P ⟨db, tasks, .claimed j.id :: s.log⟩)
    {db db' : JobDb} {es : List JobEvent} (hes : JobEvents db es db') (hpolls : ∀ e ∈ es, c.Polls db₀ e) :
    ∀ {tasks tasks' : Table fun t : JobTask => t.job.leaseToken} {log : List JobNote},
      (es.filterMap JobEvent.record).foldlM (fun tasks r => tasks.insert (JobTask.submit r)) tasks =
        some tasks' →
      P ⟨db, tasks, log⟩ → P ⟨db', tasks',
        ((es.filterMap JobEvent.record).map fun r => .claimed r.id).reverse ++ log⟩ := by
  refine events_induct (fun j hj => ?_) (fun s j w db h hj he => ?_)
    (fun s j c' db tasks h hj he ht => ?_) hes hpolls
  · rcases hj with ⟨x, -, hx⟩ | ⟨x, -, -, hx⟩
    · cases hx
    · cases hx
  · rcases hj with ⟨x, -, hx⟩ | ⟨x, hx, hs, heq⟩
    · cases hx
    · cases heq
      exact hexpire s j db h hx hs he
  · rcases hj with ⟨x, hx, heq⟩ | ⟨x, -, -, hx⟩
    · cases heq
      exact hclaim s j db tasks h hx he ht
    · cases hx

/-- The rows that are held come from held rows of the same attempts. -/
def Inherits (db db' : JobDb) : Prop :=
  ∀ j' ∈ db'.jobs, ∀ token, j'.leaseToken = some token → ∃ j ∈ db.jobs, j.leaseToken = some token ∧
    j.id = j'.id ∧ j.attempts = j'.attempts ∧ j.maxAttempts = j'.maxAttempts

/-- A held row is that of the task with its token. -/
structure Tied (s : JobSystem) : Prop where
  leased : Leased s.db
  task : ∀ j ∈ s.db.jobs, ∀ token, j.leaseToken = some token → ∃ t ∈ s.tasks, t.job.leaseToken = some token ∧
    t.job.id = j.id ∧ t.job.attempt = j.attempts ∧ t.job.maxAttempts = j.maxAttempts

section tied

variable {s s' : JobSystem} {op : RunnerOp} {db db' : JobDb} {e : JobEvent} {j : Job} {w : JobWrite}
  {t t' : JobTask} {l : List JobNote}

theorem Inherits.refl : Inherits db db := fun j hj _ ht => ⟨j, hj, ht, rfl, rfl, rfl⟩

theorem Leased.not_held (h : Leased db) (hj : j ∈ db.jobs) (hs : ¬ j.status.held) : j.leaseToken = none := by
  cases ht : j.leaseToken with
  | none => rfl
  | some token => exact absurd ((h.status j hj).1 (by rw [ht]; rfl)) hs

/-- An update leaves the row of its job to the same attempt, or to none. -/
theorem Leased.inherits_write (h : Leased db) (he : (JobEvent.write j w).Occurs db db') :
    Inherits db db' := by
  intro j' hj' token ht
  rcases he.mem_iff.1 hj' with rfl | ⟨-, hj'⟩
  · cases he with
    | write hj hs =>
      cases w with
      | renew | ask | withdraw => exact ⟨j, hj, ht, rfl, rfl, rfl⟩
      | complete | fail | cancel => cases ht
      | retry =>
        have hnone : j.leaseToken = none := by
          refine h.not_held hj fun hheld => ?_
          rcases List.mem_pair.1 hs with hs | hs
          · simp [hs, JobStatus.held] at hheld
          · simp [hs, JobStatus.held] at hheld
        exact absurd (hnone.symm.trans ht) (by simp)
  · exact ⟨j', hj', ht, rfl, rfl, rfl⟩

theorem inherits_insert (he : (JobEvent.insert j).Occurs db db') : Inherits db db' := by
  intro j' hj' token ht
  rcases he.mem_iff.1 hj' with rfl | ⟨-, hj'⟩
  · cases he with
    | insert _ _ _ hl => exact absurd (hl.symm.trans ht) (by simp)
  · exact ⟨j', hj', ht, rfl, rfl, rfl⟩

/-- Only a request asks the worker of a job to cancel it. -/
theorem JobWrite.status_eq_cancelRequested (h : (w.apply j).status = .cancelRequested)
    (hs : j.status ∈ w.accepts) : w = .ask := by
  cases w with
  | ask => rfl
  | renew =>
    have hs := List.mem_singleton.1 hs
    simp [apply, hs] at h
  | fail dead => cases dead <;> simp [apply, Job.release] at h
  | complete | cancel | withdraw | retry => simp [apply, Job.release] at h

theorem JobTask.Moves.job_eq (hm : t.Moves s t') : t'.job = t.job := by cases hm <;> rfl

theorem Tied.empty : Tied .empty :=
  ⟨.empty, fun _ h => absurd h Table.not_mem_empty⟩

/-- The tables change, and the tasks stay. -/
theorem Tied.inherit (h : Tied s) (hl : Leased db) (hi : Inherits s.db db) :
    Tied { s with db, log := l } := by
  refine ⟨hl, fun j' hj' token ht => ?_⟩
  obtain ⟨j, hj, htok, hid, hat, hmax⟩ := hi j' hj' token ht
  obtain ⟨t, ht, htt, htid, hta, htm⟩ := h.task j hj token htok
  exact ⟨t, ht, htt, htid.trans hid, hta.trans hat, htm.trans hmax⟩

theorem Tied.write (h : Tied s) (he : (JobEvent.write j w).Occurs s.db db) (hend : w.ending ≠ some .running) :
    Tied { s with db, log := l } := h.inherit (h.leased.write he hend) (h.leased.inherits_write he)

/-- A task is at another point, and the tables stay. -/
theorem Tied.save (h : Tied s) (ht : t ∈ s.tasks) (hjob : t'.job = t.job) :
    Tied { s with tasks := s.tasks.save t', log := l } := by
  refine ⟨h.leased, fun j hj token htok => ?_⟩
  obtain ⟨x, hx, hxtok, hrest⟩ := h.task j hj token htok
  by_cases hk : x.job.leaseToken = t'.job.leaseToken
  · have hxt : x = t := Table.eq_of_key hx ht (hk.trans (congrArg _ hjob))
    subst hxt
    refine ⟨t', Table.mem_save_self ht (congrArg _ hjob.symm), ?_⟩
    rw [hjob]
    exact ⟨hxtok, hrest⟩
  · exact ⟨x, Table.mem_save.2 (.inl ⟨hx, hk⟩), hxtok, hrest⟩

theorem Tied.updated {id : UUID} {p : Job → Prop} {b : Bool} (h : Tied s) (hu : s.db.Updated id p w b db)
    (hend : w.ending ≠ some .running) : Tied { s with db, log := l } := by
  rcases hu with ⟨-, j, -, -, -, he⟩ | ⟨-, rfl, -⟩
  · exact h.write he hend
  · exact h.inherit h.leased .refl

theorem JobTask.reports_ending (t : JobTask) (retryAt : Instant) :
    (t.reports retryAt).1.ending ≠ some .running := by
  unfold reports
  split <;> simp [JobWrite.ending]

theorem Tied.claim {c : Claim} {tasks : Table fun t : JobTask => t.job.leaseToken} (h : Tied s)
    (he : (JobEvent.claim j c).Occurs s.db db) (ht : s.tasks.insert (.submit (c.record j)) = some tasks) :
    Tied ⟨db, tasks, l⟩ := by
  refine ⟨h.leased.claim he, fun j' hj' token htok => ?_⟩
  rcases he.mem_iff.1 hj' with rfl | ⟨-, hj'⟩
  · exact ⟨_, (Table.mem_insert ht).2 (.inr rfl), htok, rfl, rfl, rfl⟩
  · obtain ⟨x, hx, hrest⟩ := h.task j' hj' token htok
    exact ⟨x, (Table.mem_insert ht).2 (.inl hx), hrest⟩

theorem Tied.step (h : Tied s) (hs : JobStep s op s') : Tied s' := by
  cases hs with
  | same => exact h
  | insert _ he => exact h.inherit (h.leased.insert he) (inherits_insert he)
  | request _ hw he =>
    refine h.write he ?_
    rcases hw with rfl | rfl
    · simp [JobWrite.ending]
    · simp [JobWrite.ending]
  | retry _ he => exact h.write he (by simp [JobWrite.ending])
  | poll hes hpolls ht =>
    refine poll_induct (P := Tied) (fun s j db h _ _ he => h.write he (by simp [JobWrite.ending]))
      (fun s j db tasks h _ he ht => h.claim he ht) hes hpolls ht h
  | start ht => exact h.save ht rfl
  | renew he => exact h.write he (by simp [JobWrite.ending])
  | task ht hm => exact h.save ht hm.job_eq
  | @report _ _ t _ _ ht _ hp hu => exact (h.updated (l := s.log) hu (t.reports_ending _)).save ht rfl
  | timeout ht _ _ hu => exact (h.updated (l := s.log) hu (by simp [JobWrite.ending])).save ht rfl

theorem Tied.run (h : Tied s) (ops : List RunnerOp) : Tied (s.run ops) := by
  induction ops generalizing s with
  | nil => exact h
  | cons op ops ih => exact ih (h.step (s.step_cases op))

end tied

/-! ### Requests are kept -/

/-- The worker is asked to stop, or the job is cancelled. -/
def JobStatus.stopping (status : JobStatus) : Prop := status = .cancelRequested ∨ status = .cancelled

/-- No request is lost: no job was claimed and no handler started while a request was pending, and a job
with a pending request is cancelled or about to be. -/
structure KeepsRequests (s : JobSystem) : Prop where
  quiet : Respects s.log
  stopping : ∀ id, Pending id s.log → ∃ j ∈ s.db.jobs, j.id = id ∧
    (j.status = .cancelRequested ∨ j.status = .cancelled)

/-- The step does not overlook a request: no failure is reported for a job that is to be cancelled, by its
worker or its watchdog, and no handler starts under a lost lease while a request for the job is pending. -/
def JobSystem.Heeds (s : JobSystem) : RunnerOp → Prop
  | .report token _ => ∀ t ∈ s.tasks, t.job.leaseToken = some token → t.phase = .failing →
    ∀ j ∈ s.db.jobs, j.leaseToken = some token → j.status ≠ .cancelRequested
  | .timeout token _ => ∀ t ∈ s.tasks, t.job.leaseToken = some token → t.watchdog = .interrupting →
    ∀ j ∈ s.db.jobs, j.leaseToken = some token → j.status ≠ .cancelRequested
  | .check token => ∀ t ∈ s.tasks, t.job.leaseToken = some token → t.phase = .begun → t.interrupted = false →
    Pending t.job.id s.log → ∃ j ∈ s.db.jobs, j.leaseToken = some token
  | _ => True

def JobSystem.RunHeeds : JobSystem → List RunnerOp → Prop
  | _, [] => True
  | s, op :: ops => s.Heeds op ∧ (s.step op).RunHeeds ops

instance (s : JobSystem) : ∀ op, Decidable (s.Heeds op)
  | .report token _ =>
    inferInstanceAs (Decidable (∀ t ∈ s.tasks.rows, t.job.leaseToken = some token → t.phase = .failing →
    ∀ j ∈ s.db.jobs.rows, j.leaseToken = some token → j.status ≠ .cancelRequested))
  | .timeout token _ => inferInstanceAs (Decidable (∀ t ∈ s.tasks.rows, t.job.leaseToken = some token →
    t.watchdog = .interrupting → ∀ j ∈ s.db.jobs.rows, j.leaseToken = some token →
    j.status ≠ .cancelRequested))
  | .check token =>
    inferInstanceAs (Decidable (∀ t ∈ s.tasks.rows, t.job.leaseToken = some token → t.phase = .begun →
    t.interrupted = false → Pending t.job.id s.log → ∃ j ∈ s.db.jobs.rows, j.leaseToken = some token))
  | .insert _ _ _ _ _ _ _ _ _ | .requestCancellation _ | .retry _ _ | .poll _ | .begin _ | .heartbeat _ _ _
  | .swallow _ | .returns _
  | .fails _ | .interrupt _ => inferInstanceAs (Decidable True)

instance decidableRunHeeds : ∀ (s : JobSystem) ops, Decidable (s.RunHeeds ops)
  | _, [] => inferInstanceAs (Decidable True)
  | s, op :: ops => @instDecidableAnd _ _ _ (decidableRunHeeds (s.step op) ops)

/-- Only a pending request asks a worker to stop. -/
def Asked (s : JobSystem) : Prop := ∀ j ∈ s.db.jobs, j.status = .cancelRequested → Pending j.id s.log

section requests

variable {s s' : JobSystem} {op : RunnerOp} {db db' : JobDb} {e : JobEvent} {j : Job} {w : JobWrite}
  {l : List JobNote}

theorem pending_ended {b : Bool} {id token : UUID} {status : JobStatus} :
    Pending id (if b then .ended token status :: l else l) ↔ Pending id l := by
  cases b <;> exact Iff.rfl

theorem respects_ended {b : Bool} {token : UUID} {status : JobStatus} :
    Respects (if b then .ended token status :: l else l) ↔ Respects l := by
  cases b <;> exact Iff.rfl

/-- The row that the event writes is not to be cancelled; the others are as they were. -/
theorem Asked.event (h : Asked s) (he : e.Occurs s.db db) (hnot : e.after.status ≠ .cancelRequested)
    (hl : ∀ id, id ≠ e.id → Pending id s.log → Pending id l) : Asked { s with db, log := l } := by
  intro j hj hs
  rcases he.mem_iff.1 hj with rfl | ⟨hid, hj⟩
  · exact absurd hs hnot
  · exact hl j.id hid (h j hj hs)

theorem Asked.write (h : Asked s) (he : (JobEvent.write j w).Occurs s.db db) (hw : w ≠ .ask)
    (hl : ∀ id, id ≠ j.id → Pending id s.log → Pending id l) : Asked { s with db, log := l } := by
  refine h.event he ?_ hl
  cases he with
  | write _ hs => exact fun hc => hw (JobWrite.status_eq_cancelRequested hc hs)

theorem Asked.updated {id : UUID} {p : Job → Prop} {b : Bool} (h : Asked s) (hu : s.db.Updated id p w b db)
    (hw : w ≠ .ask) : Asked { s with db } := by
  rcases hu with ⟨-, j, -, -, -, he⟩ | ⟨-, rfl, -⟩
  · exact h.write he hw fun _ _ h => h
  · exact h

theorem JobTask.reports_ne_ask (t : JobTask) (retryAt : Instant) : (t.reports retryAt).1 ≠ .ask := by
  unfold reports
  split <;> simp

theorem Asked.step (h : Asked s) (hs : JobStep s op s') : Asked s' := by
  cases hs with
  | same => exact h
  | insert _ he =>
    refine h.event he ?_ fun _ _ => id
    cases he with
    | insert _ hq => simp [JobEvent.after, hq]
  | @request id j w db hid _ he =>
    intro x hx hs
    rcases he.mem_iff.1 hx with rfl | ⟨-, hx⟩
    · exact .inl (hid.symm.trans (JobWrite.apply_id w j).symm)
    · exact .inr (h x hx hs)
  | @retry id _ j _ hid he => exact h.write he (by simp) fun k hk hp =>
      ⟨fun hik => hk (hik.symm.trans hid.symm), hp⟩
  | poll hes hpolls ht =>
    refine poll_induct (P := Asked) (fun s j db h _ _ he => h.write he (by simp) fun _ _ => id)
      ?_ hes hpolls ht h
    exact fun s j db tasks h _ he _ => h.event he (by simp [JobEvent.after, Claim.run]) fun _ _ => id
  | start => exact h
  | renew he => exact h.write he (by simp) fun _ _ => id
  | task => exact h
  | @report _ _ t b _ _ _ _ hu =>
    intro j hj hs
    exact pending_ended.2 (h.updated hu (t.reports_ne_ask _) j hj hs)
  | timeout _ _ _ hu =>
    intro j hj hs
    exact pending_ended.2 (h.updated hu (by simp) j hj hs)

theorem Asked.run (h : Asked s) (ops : List RunnerOp) : Asked (s.run ops) := by
  induction ops generalizing s with
  | nil => exact h
  | cons op ops ih => exact ih (h.step (s.step_cases op))

/-- If the event leaves its job stopping, a job with a pending request is stopping after it. -/
theorem KeepsRequests.event (h : KeepsRequests s) (he : e.Occurs s.db db)
    (hkeep : ∀ j ∈ s.db.jobs, j.id = e.id → j.status.stopping → e.after.status.stopping) {id : UUID}
    (hp : Pending id s.log) :
    ∃ j ∈ db.jobs, j.id = id ∧ (j.status = .cancelRequested ∨ j.status = .cancelled) := by
  obtain ⟨j, hj, hid, hs⟩ := h.stopping id hp
  by_cases hje : j.id = e.id
  · exact ⟨e.after, he.after_mem, e.after_id.trans (hje.symm.trans hid), hkeep j hj hje hs⟩
  · exact ⟨j, he.mem_iff.2 (.inr ⟨hje, hj⟩), hid, hs⟩

/-- An update that lets a stopping job go is a retry, or the report of a failure. -/
theorem JobWrite.stopping (hs : j.status ∈ w.accepts) (hj : j.status.stopping)
    (hretry : ∀ now, w ≠ .retry now) (hfail : ∀ dead at' ending, w = .fail dead at' ending →
      j.status ≠ .cancelRequested) : (w.apply j).status.stopping := by
  cases w with
  | cancel => exact .inr rfl
  | ask => exact .inl rfl
  | withdraw => exact .inr rfl
  | retry now => exact absurd rfl (hretry now)
  | fail dead at' ending =>
    rcases hj with hj | hj
    · exact absurd hj (hfail dead at' ending rfl)
    · simp [accepts, hj] at hs
  | renew | complete =>
    rcases hj with hj | hj
    · simp [accepts, hj] at hs
    · simp [accepts, hj] at hs

theorem KeepsRequests.write (h : KeepsRequests s) (he : (JobEvent.write j w).Occurs s.db db)
    (hretry : ∀ now, w ≠ .retry now) (hfail : ∀ dead at' ending, w = .fail dead at' ending →
      j.status ≠ .cancelRequested) {id : UUID} (hp : Pending id s.log) :
    ∃ j ∈ db.jobs, j.id = id ∧ (j.status = .cancelRequested ∨ j.status = .cancelled) := by
  refine h.event he (fun x hx hid hst => ?_) hp
  cases he with
  | write hj hs =>
    obtain rfl := Table.eq_of_key hx hj hid
    exact JobWrite.stopping hs hst hretry hfail

/-- A claim takes no job that is to be cancelled or was. -/
theorem Leased.claim_not_stopping (h : Leased db) {c : Claim} (he : (JobEvent.claim j c).Occurs db db')
    {x : Job} (hx : x ∈ db.jobs) (hid : x.id = j.id) : ¬ x.status.stopping := by
  intro hst
  cases he with
  | claim hj hdue hcan =>
    obtain rfl := Table.eq_of_key hx hj hid
    rcases hst with hst | hst
    · obtain ⟨token, htoken⟩ := Option.isSome_iff_exists.1 ((h.status x hx).2 (.inr hst))
      rw [Job.cancellation_eq_some.2 ⟨hst, htoken⟩] at hcan
      cases hcan
    · rcases hdue with ⟨hd, -⟩ | ⟨hd, -⟩
      · simp [hst] at hd
      · simp [hst] at hd

/-- The task with the token of a row is about the job of the row. -/
theorem Tied.id_eq (h : Tied s) {t : JobTask} {token : UUID} (ht : t ∈ s.tasks)
    (htoken : t.job.leaseToken = some token) (hj : j ∈ s.db.jobs) (hjt : j.leaseToken = some token) :
    t.job.id = j.id := by
  obtain ⟨x, hx, hxtok, hid, -⟩ := h.task j hj token hjt
  rw [← hid, Table.eq_of_key ht hx (htoken.trans hxtok.symm)]

theorem KeepsRequests.updated {id : UUID} {token : UUID} {b : Bool} (h : KeepsRequests s)
    (hu : s.db.Updated id (fun j => j.leaseToken = some token) w b db) (hretry : ∀ now, w ≠ .retry now)
    (hfail : ∀ dead at' ending, w = .fail dead at' ending → ∀ j ∈ s.db.jobs, j.leaseToken = some token →
      j.status ≠ .cancelRequested)
    {k : UUID} (hp : Pending k s.log) :
    ∃ j ∈ db.jobs, j.id = k ∧ (j.status = .cancelRequested ∨ j.status = .cancelled) := by
  rcases hu with ⟨-, j, hj, -, htok, he⟩ | ⟨-, rfl, -⟩
  · exact h.write he hretry (fun dead at' ending hw => hfail dead at' ending hw j hj htok) hp
  · exact h.stopping k hp

theorem KeepsRequests.step (h : KeepsRequests s) (ht : Tied s) (hop : s.Heeds op) (hs : JobStep s op s') :
    KeepsRequests s' := by
  cases hs with
  | same => exact h
  | insert _ he =>
    refine ⟨h.quiet, fun id hp => h.event he (fun j hj hid _ => ?_) hp⟩
    cases he with
    | insert hi => exact absurd hid ((Table.insert_eq_some.1 hi).1 j hj)
  | @request id j w db hid hw he =>
    refine ⟨h.quiet, fun k hp => ?_⟩
    have hst : (w.apply j).status.stopping := by
      rcases hw with rfl | rfl
      · exact .inr rfl
      · exact .inl rfl
    rcases hp with rfl | hp
    · exact ⟨w.apply j, he.after_mem, (JobWrite.apply_id w j).trans hid, hst⟩
    · exact h.event he (fun _ _ _ _ => hst) hp
  | @retry id now j db hid he =>
    refine ⟨h.quiet, fun k hp => ?_⟩
    obtain ⟨x, hx, hxk, hst⟩ := h.stopping k hp.2
    refine ⟨x, he.mem_iff.2 (.inr ⟨fun hxe => hp.1 ?_, hx⟩), hxk, hst⟩
    rw [← hid, ← hxk, hxe]
    rfl
  | poll hes hpolls htasks =>
    refine (poll_induct (P := fun s => KeepsRequests s ∧ Tied s) ?_ ?_ hes hpolls htasks ⟨h, ht⟩).1
    · rintro s j db ⟨h, ht⟩ - - he
      refine ⟨⟨h.quiet, fun k hp => h.write he (by simp) (by simp) hp⟩,
        ht.write he (by simp [JobWrite.ending])⟩
    · rintro s j db tasks ⟨h, ht⟩ - he htask
      have hno : ∀ x ∈ s.db.jobs, x.id = j.id → ¬ x.status.stopping :=
        fun x hx hid => ht.leased.claim_not_stopping he hx hid
      refine ⟨⟨⟨fun hp => ?_, h.quiet⟩, fun k hp => ?_⟩, ht.claim he htask⟩
      · obtain ⟨x, hx, hid, hst⟩ := h.stopping _ hp
        exact hno x hx hid hst
      · exact h.event he (fun x hx hid hst => absurd hst (hno x hx hid)) hp
  | @start token t htm htoken hp hi hc =>
    refine ⟨⟨fun hpend => ?_, h.quiet⟩, h.stopping⟩
    obtain ⟨j, hj, hjt⟩ := hop t htm htoken hp hi hpend
    have hid := ht.id_eq htm htoken hj hjt
    obtain ⟨x, hx, hxid, hst⟩ := h.stopping _ hpend
    obtain rfl := Table.eq_of_key hx hj (hxid.trans hid)
    rcases hst with hst | hst
    · exact hc ⟨x, hx, hxid, hjt, hst⟩
    · have hheld := (ht.leased.status x hx).1 (by rw [hjt]; rfl)
      simp [JobStatus.held, hst] at hheld
  | renew he => exact ⟨h.quiet, fun k hp => h.write he (by simp) (by simp) hp⟩
  | task => exact ⟨h.quiet, h.stopping⟩
  | @report token retryAt t b db htm htoken hp hu =>
    refine ⟨respects_ended.2 h.quiet, fun k hk => h.updated hu ?_ ?_ (pending_ended.1 hk)⟩
    · unfold JobTask.reports
      split <;> simp
    · intro dead at' ending hw
      refine hop t htm htoken ?_
      rcases hp with hp | hp | hp
      · simp [JobTask.reports, hp] at hw
      · simp [JobTask.reports, hp] at hw
      · exact hp
  | @timeout token retryAt t b db htm htoken hw hu =>
    refine ⟨respects_ended.2 h.quiet, fun k hk => h.updated hu (by simp) ?_ (pending_ended.1 hk)⟩
    exact fun _ _ _ _ => hop t htm htoken hw

theorem KeepsRequests.empty : KeepsRequests .empty := ⟨trivial, fun _ h => h.elim⟩

theorem KeepsRequests.run (h : KeepsRequests s) (ht : Tied s) {ops : List RunnerOp} (hops : s.RunHeeds ops) :
    KeepsRequests (s.run ops) := by
  induction ops generalizing s with
  | nil => exact h
  | cons op ops ih => exact ih (h.step ht hops.1 (s.step_cases op)) (ht.step (s.step_cases op)) hops.2

theorem withTask_eq {t : JobTask} {token : UUID} {f : JobTask → JobSystem} (ht : t ∈ s.tasks)
    (htoken : t.job.leaseToken = some token) : s.withTask token f = f t := by
  unfold JobSystem.withTask
  rw [Table.find?_eq_some.2 ⟨ht, htoken⟩]

/-- The report of a failure takes the job of its lease away from the request. -/
theorem Tied.failed_not_stopping (h : Tied s) {t : JobTask} {token : UUID} {b dead : Bool} {at' : Instant}
    {ending : JobAttemptStatus} (ht : t ∈ s.tasks) (htoken : t.job.leaseToken = some token)
    (hj : j ∈ s.db.jobs) (hjt : j.leaseToken = some token) (hs : j.status = .cancelRequested)
    (hu : s.db.Updated t.job.id (fun j => j.leaseToken = some token) (.fail dead at' ending) b db) :
    ∀ x ∈ db.jobs, x.id = j.id → ¬ x.status.stopping := by
  have hid := h.id_eq ht htoken hj hjt
  intro x hx hxid hst
  rcases hu with ⟨-, y, hy, hyid, -, he⟩ | ⟨-, -, hno⟩
  · rcases he.mem_iff.1 hx with rfl | ⟨hne, -⟩
    · cases dead <;> simp [JobEvent.after, JobWrite.apply, Job.release, JobStatus.stopping] at hst
    · exact hne (hxid.trans (hid.symm.trans hyid.symm))
  · exact hno j hj hid.symm hjt (by simp [JobWrite.accepts, hs])

/-- A step that overlooks a request loses it. -/
theorem Tied.heeds (h : Tied s) (ha : Asked s) (hk : KeepsRequests (s.step op)) : s.Heeds op := by
  have hlost : ∀ {t : JobTask} {token : UUID} {b dead : Bool} {at' : Instant} {ending : JobAttemptStatus}
      {status : JobStatus} {t' : JobTask} {db : JobDb}, t ∈ s.tasks → t.job.leaseToken = some token →
      s.db.Updated t.job.id (fun j => j.leaseToken = some token) (.fail dead at' ending) b db →
      KeepsRequests ⟨db, s.tasks.save t', if b then .ended token status :: s.log else s.log⟩ →
      ∀ j ∈ s.db.jobs, j.leaseToken = some token → j.status ≠ .cancelRequested := by
    intro t token b dead at' ending status t' db ht htoken hu hk j hj hjt hs
    obtain ⟨x, hx, hid, hst⟩ := hk.stopping j.id (pending_ended.2 (ha j hj hs))
    exact h.failed_not_stopping ht htoken hj hjt hs hu x hx hid hst
  cases op with
  | report token retryAt =>
    intro t ht htoken hp
    have hstep : s.step (.report token retryAt) = s.report token retryAt t := withTask_eq ht htoken
    obtain ⟨b, db, hu, heq⟩ := @JobSystem.report_eq s token retryAt t htoken (.inr (.inr hp))
    rw [hstep, heq] at hk
    simp only [JobTask.reports, hp] at hu
    exact hlost ht htoken hu hk
  | timeout token retryAt =>
    intro t ht htoken hw
    have hstep : s.step (.timeout token retryAt) = s.timeout token retryAt t := withTask_eq ht htoken
    obtain ⟨b, db, hrun, hu⟩ := @failJob_updated s.db t.job retryAt .timedOut
    rw [hstep, JobSystem.timeout, if_pos hw] at hk
    simp only [JobSystem.commit_eq hrun] at hk
    rw [htoken] at hu
    exact hlost ht htoken (JobSystem.Updated.token hu) hk
  | check token =>
    intro t ht htoken hp hi hpend
    by_contra hno
    push Not at hno
    have hstep : s.step (.check token) = s.check token t := withTask_eq ht htoken
    have hnc : ¬ (t.interrupted = true ∨ s.isCancellationRequested t.job.id token) := by
      rintro (hi' | ⟨j, hj, -, hjt, -⟩)
      · cases hi.symm.trans hi'
      · exact hno j hj hjt
    rw [hstep, JobSystem.check, if_pos (.inl hp), if_neg hnc, if_pos hp] at hk
    exact hk.quiet.1 hpend
  | insert | requestCancellation | retry | poll | begin | heartbeat | swallow | returns | fails
  | interrupt => trivial

/-- While no step overlooks a request, none is lost; and a step after such a run loses one
exactly if it overlooks one. -/
theorem cancellation_kept (ops : List RunnerOp) (hops : JobSystem.empty.RunHeeds ops) :
    KeepsRequests (JobSystem.empty.run ops) ∧
      ∀ op, KeepsRequests ((JobSystem.empty.run ops).step op) ↔ (JobSystem.empty.run ops).Heeds op := by
  have ht : Tied (JobSystem.empty.run ops) := Tied.empty.run ops
  have ha : Asked (JobSystem.empty.run ops) := Asked.run (fun _ h => absurd h Table.not_mem_empty) ops
  have hk : KeepsRequests (JobSystem.empty.run ops) := KeepsRequests.empty.run Tied.empty hops
  exact ⟨hk, fun op =>
    ⟨fun hk' => ht.heeds ha hk', fun hop => hk.step ht hop ((JobSystem.empty.run ops).step_cases op)⟩⟩

/-! A job with three attempts, claimed at the instant `1` under the token `11` and
then asked to be cancelled. -/

def Stopped.poll (now : Instant) : Claim :=
  { Retried.poll now with tokens := fun job => 10 * job + now.toNat }

def Stopped.insert : RunnerOp := .insert 1 "REPORT" "{}" "c" none 0 3 30 0

def Stopped.requested : List RunnerOp :=
  [Stopped.insert, .poll (Stopped.poll 1), .begin 11, .check 11, .requestCancellation 1]

/-- The worker notices. -/
theorem cancellation_kept_noticed :
    Pending 1 (JobSystem.empty.run (Stopped.requested ++ [.check 11, .report 11 2])).log ∧
      KeepsRequests (JobSystem.empty.run (Stopped.requested ++ [.check 11, .report 11 2])) :=
  ⟨by decide +kernel, (cancellation_kept (Stopped.requested ++ [.check 11, .report 11 2])
    (by decide +kernel)).1⟩

/-- The handler fails before the worker notices: the job is claimed again, and its handler starts again. And a
worker that begins after its lease starts the handler of a cancelled job. -/
theorem cancellation_lost :
    (JobSystem.empty.run (Stopped.requested ++
      [.fails 11, .report 11 2, .poll (Stopped.poll 3), .begin 13, .check 13])).log =
        [.started 1, .claimed 1, .ended 11 .retry, .requested 1, .started 1, .claimed 1] ∧
      ¬ KeepsRequests (JobSystem.empty.run
        (Stopped.requested ++ [.fails 11, .report 11 2, .poll (Stopped.poll 3), .begin 13, .check 13])) ∧
      (JobSystem.empty.run [Stopped.insert, .poll (Stopped.poll 1), .requestCancellation 1,
        .poll (Stopped.poll 100000000), .begin 11,
        .check 11]).log = [.started 1, .requested 1, .claimed 1] := by
  refine ⟨by decide +kernel, fun h => ?_, by decide +kernel⟩
  have hq := h.quiet
  revert hq
  decide +kernel

end requests

end GManager
