import GManager.JobTimeouts

/-!
# Overlapping executions

A claim takes over a job whose lease has run out, whether or not its worker is still at it, and only a
handler that sends heartbeats renews its lease. Every handler here ends within the timeout of its job.
If its report is committed before the watchdog looks and before the lease has run out, executions of one
job never overlap exactly if the leases are as long as the timeouts, with what passes between a claim
and the submission of its jobs.
-/

namespace GManager

open Txn

/-- The settings of the workers, and how long the submission of a job may lag behind
the instant of its claim. -/
structure Timing where
  leaseSeconds : ℕ
  timeoutSeconds : ℕ
  delaySeconds : ℕ

/-- The task has time at `now`: it was claimed `leaseSeconds` before the end of its lease. -/
def JobTask.InTime (p : Timing) (now : Instant) (t : JobTask) : Prop :=
  ∀ e ∈ t.job.leaseExpiresAt, now.plusSeconds p.leaseSeconds ≤ e.plusSeconds
    (p.timeoutSeconds + p.delaySeconds)

/-- The step is one of workers with these settings whose handlers end in time: a poll finds only handlers
that still have time, heartbeats come after their claim, and a watchdog finds that the handler has ended. -/
def JobSystem.Timely (p : Timing) (s : JobSystem) : RunnerOp → Prop
  | .insert _ _ _ _ _ _ _ timeoutSeconds _ => timeoutSeconds = p.timeoutSeconds
  | .poll c => c.leaseSeconds = p.leaseSeconds ∧ ∀ t ∈ s.tasks, ¬ t.ended → t.InTime p c.now
  | .heartbeat token now leaseSeconds => leaseSeconds = p.leaseSeconds ∧
    ∀ t ∈ s.tasks, t.job.leaseToken = some token →
    ∀ e ∈ t.job.leaseExpiresAt, e ≤ now.plusSeconds leaseSeconds
  | .interrupt token => ∀ t ∈ s.tasks, t.job.leaseToken = some token → t.ended
  | _ => True

def JobSystem.RunTimely (p : Timing) : JobSystem → List RunnerOp → Prop
  | _, [] => True
  | s, op :: ops => s.Timely p op ∧ (s.step op).RunTimely p ops

/-- The step does not come between the end of a handler and the report of its worker: a poll finds the lease
of such a worker in force, a watchdog finds its task done, and no completion fails. -/
def JobSystem.Reported (s : JobSystem) : RunnerOp → Prop
  | .poll c => ∀ t ∈ s.tasks, t.ended → t.phase ≠ .done → ∀ j ∈ s.db.jobs, j.leaseToken = t.job.leaseToken →
    ∀ e ∈ j.leaseExpiresAt, c.now ≤ e
  | .interrupt token => ∀ t ∈ s.tasks, t.job.leaseToken = some token → t.ended → t.phase = .done
  | .fails token => ∀ t ∈ s.tasks, t.job.leaseToken = some token → t.phase ≠ .completing
  | _ => True

def JobSystem.RunReported : JobSystem → List RunnerOp → Prop
  | _, [] => True
  | s, op :: ops => s.Reported op ∧ (s.step op).RunReported ops

/-- No two executions of a job are in progress, the lease of each is in force, and one that returns is on
its way to complete its job unless it is to be cancelled. -/
structure Undisputed (s : JobSystem) : Prop where
  single : ∀ t ∈ s.tasks, ∀ t' ∈ s.tasks, t.phase ≠ .done → t'.phase ≠ .done → t.job.id = t'.job.id → t = t'
  held : ∀ t ∈ s.tasks, t.phase ≠ .done → ∃ j ∈ s.db.jobs, j.id = t.job.id ∧ j.leaseToken = t.job.leaseToken
  passes : ∀ t ∈ s.tasks, ∀ token, t.job.leaseToken = some token → t.phase = .returned →
    (∀ j ∈ s.db.jobs, j.id = t.job.id → j.status ≠ .cancelRequested) →
    { t with phase := .completing } ∈ (s.step (.check token)).tasks
  completes : ∀ t ∈ s.tasks, ∀ token retryAt, t.job.leaseToken = some token → t.phase = .completing →
    (∀ j ∈ s.db.jobs, j.id = t.job.id → j.status ≠ .cancelRequested) →
    ∃ j ∈ (s.step (.report token retryAt)).db.jobs, j.id = t.job.id ∧ j.status = .completed

instance (p : Timing) (now : Instant) (t : JobTask) : Decidable (t.InTime p now) :=
  inferInstanceAs (Decidable (∀ e ∈ t.job.leaseExpiresAt, _))

instance (p : Timing) (s : JobSystem) : ∀ op, Decidable (s.Timely p op)
  | .insert _ _ _ _ _ _ _ timeoutSeconds _ => inferInstanceAs (Decidable (timeoutSeconds = p.timeoutSeconds))
  | .poll c => inferInstanceAs (Decidable (c.leaseSeconds = p.leaseSeconds ∧
    ∀ t ∈ s.tasks.rows, ¬ t.ended → t.InTime p c.now))
  | .heartbeat token now leaseSeconds => inferInstanceAs (Decidable (leaseSeconds = p.leaseSeconds ∧
    ∀ t ∈ s.tasks.rows, t.job.leaseToken = some token →
    ∀ e ∈ t.job.leaseExpiresAt, e ≤ now.plusSeconds leaseSeconds))
  | .interrupt token =>
    inferInstanceAs (Decidable (∀ t ∈ s.tasks.rows, t.job.leaseToken = some token → t.ended))
  | .requestCancellation _ | .retry _ _ | .begin _ | .check _ | .swallow _ | .returns _ | .fails _
  | .report _ _ | .timeout _ _ =>
    inferInstanceAs (Decidable True)

instance decidableRunTimely (p : Timing) : ∀ (s : JobSystem) ops, Decidable (s.RunTimely p ops)
  | _, [] => inferInstanceAs (Decidable True)
  | s, op :: ops => @instDecidableAnd _ _ _ (decidableRunTimely p (s.step op) ops)

/-! ### Leases that last -/

/-- The lease of the record is in force, at least as long as its claim said. -/
def JobDb.Holds (db : JobDb) (r : JobRecord) : Prop :=
  ∃ j ∈ db.jobs, j.id = r.id ∧ j.leaseToken.isSome ∧ j.leaseToken = r.leaseToken ∧
    ∃ e ∈ r.leaseExpiresAt, ∃ e' ∈ j.leaseExpiresAt, e ≤ e'

/-- No watchdog has interrupted a worker, and every execution in progress holds its lease. -/
structure Holding (s : JobSystem) : Prop where
  calm : ∀ t ∈ s.tasks, t.interrupted = false ∧ t.watchdog ≠ .interrupting
  holds : ∀ t ∈ s.tasks, t.phase ≠ .done → s.db.Holds t.job

section overlaps

variable {p : Timing} {s : JobSystem} {op : RunnerOp} {db db' : JobDb} {e : JobEvent} {j : Job} {w : JobWrite}
  {r : JobRecord} {t t' : JobTask} {l : List JobNote}

theorem JobDb.Holds.other (h : db.Holds r) (he : e.Occurs db db') (hid : r.id ≠ e.id) : db'.Holds r := by
  obtain ⟨j, hj, hjr, hrest⟩ := h
  exact ⟨j, he.mem_iff.2 (.inr ⟨hjr.trans_ne hid, hj⟩), hjr, hrest⟩

theorem JobDb.Holds.insert (h : db.Holds r) (he : (JobEvent.insert j).Occurs db db') : db'.Holds r := by
  obtain ⟨x, hx, hxr, -⟩ := id h
  refine h.other he fun hid => ?_
  cases he with
  | insert hi => exact (Table.insert_eq_some.1 hi).1 x hx (hxr.trans hid)

/-- An update that is no report leaves the lease as it is, or renews it. -/
theorem JobDb.Holds.write (h : db.Holds r) (he : (JobEvent.write j w).Occurs db db') (hend : w.ending = none)
    (hrenew : ∀ expiry, w = .renew expiry → j.leaseToken = r.leaseToken →
      ∀ e ∈ r.leaseExpiresAt, e ≤ expiry) : db'.Holds r := by
  by_cases hid : r.id = j.id
  · obtain ⟨x, hx, hxr, hsome, htoken, e, he₀, e', he', hle⟩ := h
    have hj : j ∈ db.jobs := by
      cases he with
      | write hj => exact hj
    obtain rfl := Table.eq_of_key hx hj (hxr.trans hid)
    have hmem := he.after_mem
    cases w with
    | complete | fail | cancel => cases hend
    | renew expiry => exact ⟨_, hmem, hxr, hsome, htoken, e, he₀, expiry, rfl, hrenew expiry rfl htoken e he₀⟩
    | withdraw | ask | retry => exact ⟨_, hmem, hxr, hsome, htoken, e, he₀, e', he', hle⟩
  · exact h.other he hid

/-! ### What the steps keep -/

theorem Holding.empty : Holding .empty :=
  ⟨fun _ h => absurd h Table.not_mem_empty, fun _ h => absurd h Table.not_mem_empty⟩

/-- The tables change, and the tasks stay. -/
theorem Holding.tables (h : Holding s)
    (hdb : ∀ t ∈ s.tasks, t.phase ≠ .done → s.db.Holds t.job → db.Holds t.job) :
    Holding { s with db, log := l } :=
  ⟨h.calm, fun t ht hd => hdb t ht hd (h.holds t ht hd)⟩

/-- A task is at another point, and the tables stay. -/
theorem Holding.save (h : Holding s) (ht : t ∈ s.tasks) (hjob : t'.job = t.job) (hi : t'.interrupted = false)
    (hw : t'.watchdog ≠ .interrupting) (hd : t'.phase ≠ .done → t.phase ≠ .done) :
    Holding { s with tasks := s.tasks.save t', log := l } := by
  refine ⟨fun x hx => ?_, fun x hx hp => ?_⟩
  · rcases Table.mem_save.1 hx with ⟨hx, -⟩ | ⟨rfl, -⟩
    · exact h.calm x hx
    · exact ⟨hi, hw⟩
  · rcases Table.mem_save.1 hx with ⟨hx, -⟩ | ⟨rfl, -⟩
    · exact h.holds x hx hp
    · rw [hjob]
      exact h.holds t ht (hd hp)

theorem Holding.withTask {token : UUID} {f : JobTask → JobSystem} (h : Holding s)
    (hf : ∀ t ∈ s.tasks, t.job.leaseToken = some token → Holding (f t)) : Holding (s.withTask token f) := by
  unfold JobSystem.withTask
  split
  · rename_i t ht
    obtain ⟨hmem, hkey⟩ := Table.find?_eq_some.1 ht
    exact hf t hmem hkey
  · exact h

/-- The worker goes on. -/
theorem Holding.phase {phase : JobPhase} (h : Holding s) (ht : t ∈ s.tasks) (hd : t.phase ≠ .done) :
    Holding { s with tasks := s.tasks.save { t with phase }, log := l } :=
  h.save ht rfl (h.calm t ht).1 (h.calm t ht).2 fun _ => hd

theorem Holding.check {token : UUID} (h : Holding s) (ht : t ∈ s.tasks) : Holding (s.check token t) := by
  unfold JobSystem.check
  split
  · rename_i hp
    have hd : t.phase ≠ .done := by
      rcases hp with hp | hp | hp
      · simp [hp]
      · simp [hp]
      · simp [hp]
    split
    · exact h.phase (l := s.log) ht hd
    · split
      · exact h.phase ht hd
      · split
        · exact h.phase (l := s.log) ht hd
        · exact h
  · exact h

/-- An update that is no report leaves the executions in progress their leases. -/
theorem Holding.updated {id : UUID} {q : Job → Prop} {b : Bool} (h : Holding s)
    (hu : s.db.Updated id q w b db) (hend : w.ending = none)
    (hrenew : ∀ expiry, w = .renew expiry → ∀ j, q j → ∀ t ∈ s.tasks, t.job.leaseToken = j.leaseToken →
      ∀ e ∈ t.job.leaseExpiresAt, e ≤ expiry) : Holding { s with db, log := l } := by
  rcases hu with ⟨-, j, -, -, hq, he⟩ | ⟨-, rfl, -⟩
  · refine h.tables fun t ht _ hr => hr.write he hend fun expiry hw htoken => ?_
    exact hrenew expiry hw j hq t ht htoken.symm
  · exact h.tables fun _ _ _ hr => hr

theorem Holding.heartbeat {token : UUID} {now : Instant} {leaseSeconds : ℤ} (h : Holding s) (ht : t ∈ s.tasks)
    (hop : s.Timely p (.heartbeat token now leaseSeconds)) :
    Holding (s.heartbeat token now leaseSeconds t) := by
  unfold JobSystem.heartbeat
  split
  · rename_i hp
    obtain ⟨b, db, hrun, hu⟩ := @heartbeatJob_updated s.db t.job.id token now leaseSeconds
    rw [JobSystem.commit_eq hrun]
    have hdb : ∀ l, Holding { s with db, log := l } := fun l => by
      refine h.updated hu rfl fun expiry hw j hq x hx htoken e he => ?_
      cases hw
      exact hop.2 x hx (htoken.trans hq) e he
    cases b with
    | true => exact hdb _
    | false => exact (hdb s.log).phase (l := s.log) ht (by simp [hp])
  · exact h

/-- A report ends its execution, and leaves the leases of the others. -/
theorem Holding.report {token : UUID} {retryAt : Instant} (h : Holding s) (ht : t ∈ s.tasks)
    (htoken : t.job.leaseToken = some token) : Holding (s.report token retryAt t) := by
  by_cases hp : t.phase = .completing ∨ t.phase = .cancelling ∨ t.phase = .failing
  · obtain ⟨b, db, hu, heq⟩ := @JobSystem.report_eq s token retryAt t htoken hp
    rw [heq]
    refine ⟨fun x hx => ?_, fun x hx hd => ?_⟩
    · rcases Table.mem_save.1 hx with ⟨hx, -⟩ | ⟨rfl, -⟩
      · exact h.calm x hx
      · exact h.calm t ht
    · rcases Table.mem_save.1 hx with ⟨hx, hk⟩ | ⟨rfl, -⟩
      · have hr := h.holds x hx hd
        rcases hu with ⟨-, j, hj, -, hjt, he⟩ | ⟨-, rfl, -⟩
        · refine hr.other he fun hid => hk ?_
          obtain ⟨y, hy, hyr, -, hyt, -⟩ := hr
          obtain rfl := Table.eq_of_key hy hj (hyr.trans hid)
          exact hyt.symm.trans (hjt.trans htoken.symm)
        · exact hr
      · exact absurd rfl hd
  · have hsame : s.report token retryAt t = s := by
      unfold JobSystem.report
      split
      · exact absurd (.inl ‹_›) hp
      · exact absurd (.inr (.inl ‹_›)) hp
      · exact absurd (.inr (.inr ‹_›)) hp
      · rfl
    rw [hsame]
    exact h

theorem Holding.interrupt {token : UUID} (h : Holding s) (ht : t ∈ s.tasks)
    (htoken : t.job.leaseToken = some token) (hop : s.Timely p (.interrupt token))
    (hrep : s.Reported (.interrupt token)) : Holding (s.interrupt t) := by
  have hd : t.phase = .done := hrep t ht htoken (hop t ht htoken)
  rw [JobSystem.interrupt, if_pos hd]
  split
  · exact h.save (l := s.log) ht rfl (h.calm t ht).1 (by simp) fun hn => absurd hd hn
  · exact h

/-- The lease of every execution in progress is in force at `now`. -/
def InForce (now : Instant) (s : JobSystem) : Prop :=
  ∀ t ∈ s.tasks, t.phase ≠ .done → ∀ j ∈ s.db.jobs, j.leaseToken = t.job.leaseToken →
    ∀ e ∈ j.leaseExpiresAt, now ≤ e

/-- What the events of a poll keep. -/
structure Unclaimed (now : Instant) (s : JobSystem) : Prop where
  tied : Tied s
  holding : Holding s
  inForce : InForce now s

/-- The lease of a handler that has time lasts, and so does that of a worker that is about to report. -/
theorem Holding.inForce {c : Claim} (h : Holding s) (htied : Tied s)
    (hle : p.timeoutSeconds + p.delaySeconds ≤ p.leaseSeconds) (hop : s.Timely p (.poll c))
    (hrep : s.Reported (.poll c)) : InForce c.now s := by
  intro t ht hd j hj hjt e he
  by_cases hend : t.ended
  · exact hrep t ht hend hd j hj hjt e he
  · obtain ⟨x, hx, hxid, hsome, htok, e₁, he₁, e₂, he₂, hle₁⟩ := h.holds t ht hd
    obtain ⟨token, htoken⟩ := Option.isSome_iff_exists.1 hsome
    have hxj : t.job.id = j.id :=
      htied.id_eq ht (htok.symm.trans htoken) hj (hjt.trans (htok.symm.trans htoken))
    obtain rfl := Table.eq_of_key hx hj (hxid.trans hxj)
    obtain rfl := Option.some.inj (he₂.symm.trans he)
    have htime := hop.2 t ht hend e₁ he₁
    unfold Instant.plusSeconds microsPerSecond at htime
    have hcast : (p.timeoutSeconds : ℤ) + p.delaySeconds ≤ p.leaseSeconds := by exact_mod_cast hle
    linarith

/-- A poll takes no job from its worker. -/
theorem Unclaimed.not_due {now : Instant} (h : Unclaimed now s) (hj : j ∈ s.db.jobs) (hdue : j.due now)
    (ht : t ∈ s.tasks) (hd : t.phase ≠ .done) : t.job.id ≠ j.id := by
  intro hid
  obtain ⟨x, hx, hxid, hsome, htok, -, -, e, he, -⟩ := h.holding.holds t ht hd
  obtain rfl := Table.eq_of_key hx hj (hxid.trans hid)
  have hheld := (h.tied.leased.status x hx).1 hsome
  rcases hdue with ⟨hs, -⟩ | ⟨-, e₁, he₁, hlt⟩
  · rcases hs with hs | hs
    · simp [hs, JobStatus.held] at hheld
    · simp [hs, JobStatus.held] at hheld
  · exact absurd (hlt.trans_le (h.inForce t ht hd x hx htok e₁ he₁)) (lt_irrefl _)

/-- A claim that is cancelled for good leaves the leases of the others. -/
theorem Unclaimed.expire {now : Instant} (h : Unclaimed now s) (hdue : j.due now)
    (he : (JobEvent.write j .cancel).Occurs s.db db) : Unclaimed now { s with db, log := l } := by
  have hj : j ∈ s.db.jobs := by
    cases he with
    | write hj => exact hj
  refine ⟨h.tied.write he (by simp [JobWrite.ending]), ?_, fun t ht hd x hx hxt => ?_⟩
  · exact h.holding.tables fun t ht hd hr => hr.other he (h.not_due hj hdue ht hd)
  · rcases he.mem_iff.1 hx with rfl | ⟨-, hx⟩
    · intro e hexp
      cases hexp
    · exact h.inForce t ht hd x hx hxt

theorem Unclaimed.claim {c : Claim} {tasks : Table fun t : JobTask => t.job.leaseToken}
    (h : Unclaimed c.now s) (hlease : 0 ≤ c.leaseSeconds) (hdue : j.due c.now)
    (he : (JobEvent.claim j c).Occurs s.db db) (ht : s.tasks.insert (.submit (c.record j)) = some tasks) :
    Unclaimed c.now ⟨db, tasks, l⟩ := by
  have hj : j ∈ s.db.jobs := by
    cases he with
    | claim hj => exact hj
  have hfresh : ∀ x ∈ s.tasks, x.job.leaseToken ≠ some (c.tokens j.id) := (Table.insert_eq_some.1 ht).1
  refine ⟨h.tied.claim he ht, ⟨fun x hx => ?_, fun x hx hd => ?_⟩, fun x hx hd y hy hyt e hexp => ?_⟩
  · rcases (Table.mem_insert ht).1 hx with hx | rfl
    · exact h.holding.calm x hx
    · exact ⟨rfl, by simp [JobTask.submit]⟩
  · rcases (Table.mem_insert ht).1 hx with hx | rfl
    · exact (h.holding.holds x hx hd).other he (h.not_due hj hdue hx hd)
    · exact ⟨_, he.after_mem, rfl, rfl, rfl, _, rfl, _, rfl, le_rfl⟩
  · rcases he.mem_iff.1 hy with rfl | ⟨-, hy⟩
    · -- the claimed row has the new lease
      obtain rfl := Option.some.inj hexp
      unfold Instant.plusSeconds microsPerSecond
      linarith
    · rcases (Table.mem_insert ht).1 hx with hx | rfl
      · exact h.inForce x hx hd y hy hyt e hexp
      · obtain ⟨z, hz, hzt, -⟩ := h.tied.task y hy _ hyt
        exact absurd hzt (hfresh z hz)

theorem Holding.poll {c : Claim} (h : Holding s) (htied : Tied s)
    (hle : p.timeoutSeconds + p.delaySeconds ≤ p.leaseSeconds) (hop : s.Timely p (.poll c))
    (hrep : s.Reported (.poll c)) : Holding (s.poll c) := by
  unfold JobSystem.poll
  split
  · rename_i rs db hrun
    obtain ⟨es, hes, rfl, hdoes⟩ := wp_claim_events c s.db rs db hrun
    split
    · rename_i tasks htasks
      have hdue : ∀ e ∈ es, ∃ j : Job, j.due c.now ∧ (e = .claim j c ∨ e = .write j .cancel) := fun e he => by
        obtain ⟨j, hj, hje⟩ := hdoes e he
        have hdue := (List.mem_filter.1 ((List.perm_insertionSort _ _).mem_iff.1 hj)).2
        exact ⟨j, of_decide_eq_true hdue, hje.imp And.left And.left⟩
      have hlease : (0 : ℤ) ≤ c.leaseSeconds := by
        rw [hop.1]
        positivity
      refine (events_induct (P := Unclaimed c.now) ?_ ?_ ?_ hes hdue htasks
        ⟨htied, h, h.inForce htied hle hop hrep⟩).holding
      · rintro j ⟨x, -, hx | hx⟩
        · cases hx
        · cases hx
      · rintro s j w db hs ⟨x, hdue, hx | hx⟩ he
        · cases hx
        · cases hx
          exact hs.expire hdue he
      · rintro s j c' db tasks hs ⟨x, hdue, hx | hx⟩ he ht
        · cases hx
          exact hs.claim hlease hdue he ht
        · cases hx
    · exact h
  · exact h

theorem Holding.step (h : Holding s) (htied : Tied s)
    (hle : p.timeoutSeconds + p.delaySeconds ≤ p.leaseSeconds) (hop : s.Timely p op)
    (hrep : s.Reported op) : Holding (s.step op) := by
  cases op with
  | insert id type payload correlationId dedupeKey priority maxAttempts timeoutSeconds availableAt =>
    have hwp := @wp_insertJob_event s.db id type payload correlationId dedupeKey priority maxAttempts
      timeoutSeconds availableAt
    refine commit_of_wp (P := fun db => Holding { s with db }) h (wp_mono hwp ?_)
    rintro - db (rfl | ⟨j, -, -, he⟩)
    · exact h
    · exact h.tables fun _ _ _ hr => hr.insert he
  | requestCancellation id =>
    obtain ⟨b, db, hrun, hu⟩ := @requestCancellation_updated s.db id
    show Holding (s.commit _ _).2
    rw [JobSystem.commit_eq hrun]
    rcases hu with ⟨hu, -⟩ | hu
    · exact h.updated hu rfl fun _ hw => by cases hw
    · exact h.updated hu rfl fun _ hw => by cases hw
  | retry id now =>
    obtain ⟨b, db, hrun, hu⟩ := @retryJob_updated s.db id now
    show Holding (s.commit _ _).2
    rw [JobSystem.commit_eq hrun]
    exact h.updated hu rfl fun _ hw => by cases hw
  | poll c => exact h.poll htied hle hop hrep
  | begin token =>
    refine h.withTask fun t ht _ => ?_
    split
    · rename_i hp
      exact h.phase (l := s.log) ht (by simp [hp])
    · exact h
  | check token => exact h.withTask fun t ht _ => h.check ht
  | heartbeat token => exact h.withTask fun t ht _ => h.heartbeat ht hop
  | swallow token =>
    refine h.withTask fun t ht _ => ?_
    split
    · exact h.save (l := s.log) ht rfl rfl (h.calm t ht).2 id
    · exact h
  | returns token =>
    refine h.withTask fun t ht _ => ?_
    split
    · rename_i hp
      exact h.phase (l := s.log) ht (by simp [hp])
    · exact h
  | fails token =>
    refine h.withTask fun t ht _ => ?_
    split
    · rename_i hp
      refine h.phase (l := s.log) ht ?_
      rcases hp with hp | hp
      · simp [hp]
      · simp [hp]
    · exact h
  | report token => exact h.withTask fun t ht htoken => h.report ht htoken
  | interrupt token => exact h.withTask fun t ht htoken => h.interrupt ht htoken hop hrep
  | timeout token =>
    refine h.withTask fun t ht _ => ?_
    rw [JobSystem.timeout, if_neg (h.calm t ht).2]
    exact h

theorem Holding.run (h : Holding s) (htied : Tied s)
    (hle : p.timeoutSeconds + p.delaySeconds ≤ p.leaseSeconds) {ops : List RunnerOp}
    (hops : s.RunTimely p ops) (hrep : s.RunReported ops) : Holding (s.run ops) := by
  induction ops generalizing s with
  | nil => exact h
  | cons op ops ih => exact ih (h.step htied hle hops.1 hrep.1) (htied.step (s.step_cases op)) hops.2 hrep.2

theorem JobSystem.poll_of_run {c : Claim} {rs : List JobRecord}
    (tasks : Table fun t : JobTask => t.job.leaseToken) (hrun : (claim c).run () s.db = .ok (rs, db))
    (ht : rs.foldlM (fun tasks r => tasks.insert (JobTask.submit r)) s.tasks = some tasks) :
    s.poll c = ⟨db, tasks, (rs.map fun r => .claimed r.id).reverse ++ s.log⟩ := by
  unfold poll
  rw [hrun]
  dsimp only
  rw [ht]

theorem JobSystem.run_concat (s : JobSystem) (ops : List RunnerOp) (op : RunnerOp) :
    s.run (ops ++ [op]) = (s.run ops).step op :=
  List.foldl_append

theorem Holding.undisputed (h : Holding s) (htied : Tied s) : Undisputed s := by
  refine ⟨fun t ht t' ht' hd hd' hid => ?_, fun t ht hd => ?_, fun t ht token htoken hp hno => ?_,
    fun t ht token retryAt htoken hp hno => ?_⟩
  · obtain ⟨j, hj, hjt, -, htok, -⟩ := h.holds t ht hd
    obtain ⟨j', hj', hjt', -, htok', -⟩ := h.holds t' ht' hd'
    obtain rfl := Table.eq_of_key hj hj' (hjt.trans (hid.trans hjt'.symm))
    exact Table.eq_of_key ht ht' (htok.symm.trans htok')
  · obtain ⟨j, hj, hjt, -, htok, -⟩ := h.holds t ht hd
    exact ⟨j, hj, hjt, htok⟩
  · have hstep : s.step (.check token) = s.check token t := withTask_eq ht htoken
    have hnc : ¬ (t.interrupted = true ∨ s.isCancellationRequested t.job.id token) := by
      rintro (hi | ⟨j, hj, hid, -, hs⟩)
      · rw [(h.calm t ht).1] at hi
        cases hi
      · exact hno j hj hid hs
    rw [hstep, JobSystem.check, if_pos (.inr (.inr hp)), if_neg hnc, if_neg (by simp [hp]), if_pos hp]
    exact Table.mem_save_self ht rfl
  · have hstep : s.step (.report token retryAt) = s.report token retryAt t := withTask_eq ht htoken
    obtain ⟨b, db, hu, heq⟩ := @JobSystem.report_eq s token retryAt t htoken (.inl hp)
    simp only [JobTask.reports, hp] at hu
    rw [hstep, heq]
    rcases hu with ⟨-, j, -, hid, -, he⟩ | ⟨-, -, hrefused⟩
    · exact ⟨_, he.after_mem, hid, rfl⟩
    · -- the row under the lease runs, so the update would have found it
      obtain ⟨j, hj, hid, hsome, htok, -⟩ := h.holds t ht (by simp [hp])
      refine absurd ?_ (hrefused j hj hid (htok.trans htoken))
      rcases (htied.leased.status j hj).1 hsome with hs | hs
      · simp [JobWrite.accepts, hs]
      · exact absurd hs (hno j hj hid)

end overlaps

/-! ### Short leases -/

namespace Overtaken

def poll (p : Timing) (now : Instant) (token : UUID) : Claim :=
  { workerId := "worker", tokens := fun _ => token, locked := fun _ => false, limit := 4, now,
    leaseSeconds := p.leaseSeconds }

def job (p : Timing) : Job :=
  { id := 1, type := "REPORT", payload := "{}", correlationId := "c", dedupeKey := none, status := .queued,
    priority := 0, attempts := 0,
    maxAttempts := 4, availableAt := 0, leaseOwner := none, leaseToken := none, leaseExpiresAt := none,
    timeoutSeconds := p.timeoutSeconds, createdAt := 0 }

/-- A report is claimed at the instant `0`, and its handler starts. -/
def started (p : Timing) : List RunnerOp :=
  [.insert 1 "REPORT" "{}" "c" none 0 ⟨4, Nat.succ_pos 3⟩ p.timeoutSeconds 0, .poll (poll p 0 10),
    .begin 10, .check 10]

/-- The instant after the end of the lease. -/
def expiry (p : Timing) : Instant := Instant.plusSeconds 0 p.leaseSeconds + 1

def task (p : Timing) : JobTask := { JobTask.submit ((poll p 0 10).record (job p)) with phase := .handling }

variable {p : Timing}

theorem run_started (p : Timing) : JobSystem.empty.run (started p) =
    { db := ⟨⟨[(poll p 0 10).run (job p)], by simp⟩, ⟨[⟨1, 1, "worker", 10, .running⟩], by simp⟩⟩
      tasks := ⟨[task p], by simp⟩
      log := [.started 1, .claimed 1] } := rfl

/-- The next poll takes the job from its worker. -/
theorem run_taken (p : Timing) :
    ((JobSystem.empty.run (started p)).step (.poll (poll p (expiry p) 20))).tasks.rows =
    [task p, .submit ((poll p (expiry p) 20).record ((poll p 0 10).run (job p)))] := by
  rw [run_started]
  have hdue : ((poll p 0 10).run (job p)).due (poll p (expiry p) 20).now :=
    .inr ⟨.inl rfl, _, rfl, lt_add_one _⟩
  have htaken : (JobDb.mk ⟨[(poll p 0 10).run (job p)], by simp⟩
    ⟨[⟨1, 1, "worker", 10, .running⟩], by simp⟩).taken (poll p (expiry p) 20) =
      [(poll p 0 10).run (job p)] := by
    simp only [JobDb.taken, JobDb.candidates, List.filter_cons, hdue, decide_true, if_true, List.filter_nil]
    rfl
  rcases claim_run (poll p (expiry p) 20)
    (JobDb.mk ⟨[(poll p 0 10).run (job p)], by simp⟩ ⟨[⟨1, 1, "worker", 10, .running⟩], by simp⟩)
    with ⟨-, db, hrun⟩ | ⟨⟨j, hj, hn⟩, -⟩
  · rw [htaken] at hrun
    exact congrArg (fun s : JobSystem => s.tasks.rows)
      (JobSystem.poll_of_run ⟨[task p, .submit _], by simp [task, JobTask.submit, Claim.record, poll]⟩ hrun
        rfl)
  · rw [htaken, List.mem_singleton] at hj
    subst hj
    refine absurd ?_ hn
    simp [JobDb.NextFree, job, Claim.run, ← Table.mem_rows]

/-- Its handler has all the time that it may have. -/
theorem timely (h : p.leaseSeconds < p.timeoutSeconds + p.delaySeconds) :
    JobSystem.empty.RunTimely p (started p ++ [.poll (poll p (expiry p) 20)]) := by
  refine ⟨rfl, ⟨rfl, fun t ht => absurd ht Table.not_mem_empty⟩, trivial, trivial,
    ⟨rfl, fun t ht _ e he => ?_⟩, trivial⟩
  have hrows : t ∈ (JobSystem.empty.run (started p)).tasks := ht
  rw [run_started, ← Table.mem_rows, List.mem_singleton] at hrows
  subst hrows
  obtain rfl := Option.some.inj he
  have hcast : (p.leaseSeconds : ℤ) + 1 ≤ p.timeoutSeconds + p.delaySeconds := by exact_mod_cast h
  simp only [poll, expiry, Instant.plusSeconds, microsPerSecond]
  linarith

/-- And no handler has ended. -/
theorem reported (p : Timing) :
    JobSystem.empty.RunReported (started p ++ [.poll (poll p (expiry p) 20)]) := by
  refine ⟨trivial, fun t ht => absurd ht Table.not_mem_empty, trivial, trivial, fun t ht hend => ?_, trivial⟩
  have hrows : t ∈ (JobSystem.empty.run (started p)).tasks := ht
  rw [run_started, ← Table.mem_rows, List.mem_singleton] at hrows
  subst hrows
  exact absurd rfl hend.2.2

/-- Two executions of the report are in progress. -/
theorem disputed {s : JobSystem} {r : JobRecord} (hrows : s.tasks.rows = [task p, .submit r])
    (hr : r.id = 1) : ¬ Undisputed s := by
  intro h
  have hmem : ∀ t, t ∈ s.tasks ↔ t = task p ∨ t = .submit r := fun t => by
    rw [← Table.mem_rows, hrows, List.mem_pair]
  have heq := h.single (task p) ((hmem _).2 (.inl rfl)) (.submit r) ((hmem _).2 (.inr rfl)) (by simp [task])
    (by simp [JobTask.submit]) hr.symm
  exact absurd (congrArg JobTask.phase heq) (by simp [task, JobTask.submit])

end Overtaken

/-- Executions of one job whose reports come in time are kept apart exactly by leases that are as long as the
timeouts, with the lag of the submissions. -/
theorem executions_apart (p : Timing) :
    (∀ ops, JobSystem.empty.RunTimely p ops → JobSystem.empty.RunReported ops →
      Undisputed (JobSystem.empty.run ops)) ↔ p.timeoutSeconds + p.delaySeconds ≤ p.leaseSeconds := by
  refine ⟨fun h => ?_, fun hle ops hops hrep => ?_⟩
  · by_contra hlt
    have hu := h _ (Overtaken.timely (not_le.1 hlt)) (Overtaken.reported p)
    have hrows := Overtaken.run_taken p
    rw [JobSystem.run_concat] at hu
    exact Overtaken.disputed hrows rfl hu
  · exact (Holding.empty.run Tied.empty hle hops hrep).undisputed (Tied.empty.run ops)

/-- The settings as they are shipped. -/
def Timing.shipped : Timing := { leaseSeconds := 60, timeoutSeconds := 300, delaySeconds := 0 }

/-- Leases that are long enough. -/
def Timing.long : Timing := { leaseSeconds := 400, timeoutSeconds := 300, delaySeconds := 10 }

/-- A report that takes more than a minute is claimed a second time: both handlers run, and when
the first one returns, its completion is refused. And with long leases, a handler that returns
just in time is interrupted while its completion is under way: the watchdog reports first, and the
job is to be tried again. -/
theorem executions_overlap :
    JobSystem.empty.RunTimely .shipped (Overtaken.started .shipped ++
        [.poll (Overtaken.poll .shipped (Overtaken.expiry .shipped) 20), .begin 20, .check 20]) ∧
      ((JobSystem.empty.run (Overtaken.started .shipped ++
        [.poll (Overtaken.poll .shipped (Overtaken.expiry .shipped) 20), .begin 20,
          .check 20])).tasks.rows.map fun t =>
          (t.job.id, t.phase)) = [(1, .handling), (1, .handling)] ∧
      ((JobSystem.empty.run (Overtaken.started .shipped ++
        [.poll (Overtaken.poll .shipped (Overtaken.expiry .shipped) 20), .begin 20, .check 20, .returns 10,
          .check 10, .report 10 0])).db.jobs.rows.map (·.status)) = [.running] ∧
      JobSystem.empty.RunTimely .long (Overtaken.started .long ++
        [.returns 10, .check 10, .interrupt 10, .timeout 10 0, .report 10 0]) ∧
      ((JobSystem.empty.run (Overtaken.started .long ++
        [.returns 10, .check 10, .interrupt 10, .timeout 10 0, .report 10 0])).db.jobs.rows.map
          (·.status)) = [.retry] := by
  refine ⟨by decide +kernel, by decide +kernel, by decide +kernel, by decide +kernel, by decide +kernel⟩

end GManager
