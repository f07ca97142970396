import GManager.JobLeases

/-!
# Workers of background jobs

`JobRunner`: a poll claims jobs and submits a task for each; the worker of a task asks whether the job was
cancelled, runs the handler, asks again and reports; a watchdog interrupts the worker when the job's time is
up and reports the failure itself. The steps of `JobSystem` are the single transactions and thread actions, so
its runs are the interleavings of any number of workers and watchdogs, of one process or many. A task is known
by its lease token: tokens are random UUIDs, and a poll that drew one again is not a step.
-/

namespace GManager

open Txn

/-- Where `execute` stands: in the queue of its pool, before the first check, in the handler, after it, and
before each of the reports. -/
inductive JobPhase
  | submitted | begun | handling | returned | completing | failing | cancelling | done
  deriving DecidableEq, Repr

/-- Where `timeout` stands: not yet due, between the interrupt and the report, after the report, or done
because the task was done first. -/
inductive Watchdog
  | armed | interrupting | fired | idle
  deriving DecidableEq, Repr

structure JobTask where
  job : JobRecord
  phase : JobPhase
  interrupted : Bool
  watchdog : Watchdog
  deriving DecidableEq, Repr

/-- `submit`. -/
def JobTask.submit (r : JobRecord) : JobTask := ⟨r, .submitted, false, .armed⟩

/-- The handler is over, or will never start: only the report is missing, if anything. -/
def JobTask.ended (t : JobTask) : Prop := t.phase ≠ .submitted ∧ t.phase ≠ .begun ∧ t.phase ≠ .handling

instance (t : JobTask) : Decidable t.ended := inferInstanceAs (Decidable (_ ∧ _))

def JobTask.timedOut (t : JobTask) : Prop := t.watchdog = .interrupting ∨ t.watchdog = .fired

/-- What a failed attempt leaves. -/
def JobRecord.outcome (r : JobRecord) : JobStatus := if r.maxAttempts ≤ r.attempt then .dead else .retry

/-- What has happened, for the statements about histories: a claim of a job, a start of its handler, a
cancellation request and a retry that were granted, and a report that counted. -/
inductive JobNote
  | claimed (id : UUID)
  | started (id : UUID)
  | requested (id : UUID)
  | retried (id : UUID)
  | ended (token : UUID) (status : JobStatus)
  deriving DecidableEq, Repr

/-- The tables, the tasks of all workers, and the history with the newest note first. -/
structure JobSystem where
  db : JobDb
  tasks : Table fun t : JobTask => t.job.leaseToken
  log : List JobNote

namespace JobSystem

def empty : JobSystem := ⟨.empty, .empty, []⟩

/-- `isCancellationRequested`. -/
def isCancellationRequested (s : JobSystem) (id token : UUID) : Prop :=
  ∃ j ∈ s.db.jobs.rows, j.id = id ∧ j.leaseToken = some token ∧ j.status = .cancelRequested

instance (s : JobSystem) (id token : UUID) : Decidable (s.isCancellationRequested id token) :=
  inferInstanceAs (Decidable (∃ j ∈ s.db.jobs.rows, _))

/-- Commits a transaction, and notes it if it counted. -/
def commit (s : JobSystem) (x : JobTx Bool) (notes : List JobNote) : Bool × JobSystem :=
  match x.run () s.db with
  | .ok (b, db) => (b, { s with db, log := if b then notes ++ s.log else s.log })
  | .error _ => (false, s)

def setTask (s : JobSystem) (t : JobTask) : JobSystem := { s with tasks := s.tasks.save t }

/-- A step of the worker or the watchdog of the task `token`. -/
def withTask (s : JobSystem) (token : UUID) (f : JobTask → JobSystem) : JobSystem :=
  match s.tasks.find? (some token) with
  | some t => f t
  | none => s

/-- `poll`. -/
def poll (s : JobSystem) (c : Claim) : JobSystem := match (claim c).run () s.db with
  | .ok (rs, db) => match rs.foldlM (fun tasks r => tasks.insert (JobTask.submit r)) s.tasks with
    | some tasks => ⟨db, tasks, (rs.map fun r => .claimed r.id).reverse ++ s.log⟩
    | none => s
  | .error _ => s

/-- `checkCancellation`, before the handler, in it or after it; the handler starts
when the first one passes. -/
def check (s : JobSystem) (token : UUID) (t : JobTask) : JobSystem :=
  if t.phase = .begun ∨ t.phase = .handling ∨ t.phase = .returned then
    if t.interrupted ∨ s.isCancellationRequested t.job.id token then s.setTask { t with phase := .cancelling }
    else if t.phase = .begun then
      { s.setTask { t with phase := .handling } with log := .started t.job.id :: s.log }
    else if t.phase = .returned then s.setTask { t with phase := .completing }
    else s
  else s

/-- `heartbeat` in the handler. -/
def heartbeat (s : JobSystem) (token : UUID) (now : Instant) (leaseSeconds : ℤ) (t : JobTask) : JobSystem :=
  if t.phase = .handling then
    match s.commit (heartbeatJob t.job.id token now leaseSeconds) [] with
    | (true, s') => s'
    | (false, s') => s'.setTask { t with phase := .cancelling }
  else s

/-- The last transaction of `execute`. -/
def report (s : JobSystem) (token : UUID) (retryAt : Instant) (t : JobTask) : JobSystem := match t.phase with
  | .completing => (s.commit (completeJob t.job.id token) [.ended token .completed]).2.setTask
      { t with phase := .done }
  | .cancelling => (s.commit (cancelledJob t.job) [.ended token .cancelled]).2.setTask
      { t with phase := .done }
  | .failing =>
    (s.commit (failJob t.job retryAt .failed) [.ended token t.job.outcome]).2.setTask
      { t with phase := .done }
  | _ => s

/-- `future.cancel(true)`, unless the task is done: a task that no thread has taken will never begin. -/
def interrupt (s : JobSystem) (t : JobTask) : JobSystem :=
  if t.watchdog = .armed then
    if t.phase = .done then s.setTask { t with watchdog := .idle }
    else if t.phase = .submitted then s.setTask { t with phase := .done, watchdog := .interrupting }
    else s.setTask { t with interrupted := true, watchdog := .interrupting }
  else s

/-- The watchdog's report. -/
def timeout (s : JobSystem) (token : UUID) (retryAt : Instant) (t : JobTask) : JobSystem :=
  if t.watchdog = .interrupting then
    (s.commit (failJob t.job retryAt .timedOut) [.ended token t.job.outcome]).2.setTask
      { t with watchdog := .fired }
  else s

end JobSystem

/-- The transactions and thread actions: a thread of the pool takes a task, and goes on. The
handler may fail or return at any point, and it may clear the interrupt of its thread; the
transaction of a completion may fail. -/
inductive RunnerOp
  | insert (id : UUID) (type payload correlationId : String) (dedupeKey : Option String) (priority : ℤ)
      (maxAttempts : ℕ+) (timeoutSeconds : ℤ) (availableAt : Instant)
  | requestCancellation (id : UUID)
  | retry (id : UUID) (now : Instant)
  | poll (c : Claim)
  | begin (token : UUID)
  | check (token : UUID)
  | heartbeat (token : UUID) (now : Instant) (leaseSeconds : ℤ)
  | swallow (token : UUID)
  | returns (token : UUID)
  | fails (token : UUID)
  | report (token : UUID) (retryAt : Instant)
  | interrupt (token : UUID)
  | timeout (token : UUID) (retryAt : Instant)

namespace JobSystem

def step (s : JobSystem) : RunnerOp → JobSystem
  | .insert id type payload correlationId dedupeKey priority maxAttempts timeoutSeconds availableAt =>
    let x := insertJob id type payload correlationId dedupeKey priority maxAttempts timeoutSeconds availableAt
    { s with db := x.commit () s.db }
  | .requestCancellation id => (s.commit (GManager.requestCancellation id) [.requested id]).2
  | .retry id now => (s.commit (retryJob id now) [.retried id]).2
  | .poll c => s.poll c
  | .begin token => s.withTask token fun t =>
      if t.phase = .submitted then s.setTask { t with phase := .begun } else s
  | .check token => s.withTask token (s.check token)
  | .heartbeat token now leaseSeconds => s.withTask token (s.heartbeat token now leaseSeconds)
  | .swallow token => s.withTask token fun t =>
      if t.phase = .handling then s.setTask { t with interrupted := false } else s
  | .returns token => s.withTask token fun t =>
      if t.phase = .handling then s.setTask { t with phase := .returned } else s
  | .fails token => s.withTask token fun t =>
    if t.phase = .handling ∨ t.phase = .completing then s.setTask { t with phase := .failing } else s
  | .report token retryAt => s.withTask token (s.report token retryAt)
  | .interrupt token => s.withTask token s.interrupt
  | .timeout token retryAt => s.withTask token (s.timeout token retryAt)

def run (s : JobSystem) (ops : List RunnerOp) : JobSystem := ops.foldl step s

end JobSystem

/-! ### What a step does -/

/-- The events of a poll: it claims the jobs that it takes, and cancels others. -/
def Claim.Polls (c : Claim) (db : JobDb) (e : JobEvent) : Prop :=
  (∃ j ∈ db.taken c, e = .claim j c) ∨ ∃ j ∈ db.jobs, j.status = .cancelRequested ∧ e = .write j .cancel

/-- The report that the worker makes in the phase. -/
def JobTask.reports (t : JobTask) (retryAt : Instant) : JobWrite × JobStatus := match t.phase with
  | .completing => (.complete, .completed)
  | .cancelling => (.cancel, .cancelled)
  | _ => (.fail (t.job.maxAttempts ≤ t.job.attempt) retryAt .failed, t.job.outcome)

/-- The step changed the task only, from `t` to `t'`, or gave it up because of `why`. -/
inductive JobTask.Moves (s : JobSystem) (t : JobTask) : JobTask → Prop
  | begins (hp : t.phase = .submitted) : Moves s t { t with phase := .begun }
  | swallow (hp : t.phase = .handling) : Moves s t { t with interrupted := false }
  | returns (hp : t.phase = .handling) : Moves s t { t with phase := .returned }
  | passes (hp : t.phase = .returned) : Moves s t { t with phase := .completing }
  | fails (hp : t.phase = .handling ∨ t.phase = .completing) : Moves s t { t with phase := .failing }
  | cancels (hp : t.phase = .begun ∨ t.phase = .handling ∨ t.phase = .returned)
      (why : t.interrupted = true ∨
        ∀ j ∈ s.db.jobs, j.id = t.job.id → j.leaseToken = t.job.leaseToken → j.status ≠ .running) :
      Moves s t { t with phase := .cancelling }
  | idle (hw : t.watchdog = .armed) (hp : t.phase = .done) : Moves s t { t with watchdog := .idle }
  | stops (hw : t.watchdog = .armed) (hp : t.phase = .submitted) :
      Moves s t { t with phase := .done, watchdog := .interrupting }
  | interrupts (hw : t.watchdog = .armed) (hd : t.phase ≠ .done) (hp : t.phase ≠ .submitted) :
      Moves s t { t with interrupted := true, watchdog := .interrupting }

/-- The possible ends of a step. -/
inductive JobStep (s : JobSystem) : RunnerOp → JobSystem → Prop
  | same {op : RunnerOp} : JobStep s op s
  | insert {id : UUID} {type payload correlationId : String} {dedupeKey : Option String} {priority : ℤ}
      {maxAttempts : ℕ+} {timeoutSeconds : ℤ} {availableAt : Instant} {j : Job} {db : JobDb}
      (hj : j.maxAttempts = maxAttempts) (he : (JobEvent.insert j).Occurs s.db db) :
      JobStep s (.insert id type payload correlationId dedupeKey priority maxAttempts timeoutSeconds
        availableAt) { s with db }
  | request {id : UUID} {j : Job} {w : JobWrite} {db : JobDb} (hid : j.id = id)
      (hw : w = .withdraw ∨ w = .ask) (he : (JobEvent.write j w).Occurs s.db db) :
      JobStep s (.requestCancellation id) { s with db, log := .requested id :: s.log }
  | retry {id : UUID} {now : Instant} {j : Job} {db : JobDb} (hid : j.id = id)
      (he : (JobEvent.write j (.retry now)).Occurs s.db db) :
      JobStep s (.retry id now) { s with db, log := .retried id :: s.log }
  | poll {c : Claim} {es : List JobEvent} {db : JobDb} {tasks : Table fun t : JobTask => t.job.leaseToken}
      (hes : JobEvents s.db es db) (hpolls : ∀ e ∈ es, c.Polls s.db e)
      (ht : (es.filterMap JobEvent.record).foldlM (fun tasks r => tasks.insert (JobTask.submit r))
        s.tasks = some tasks) :
      JobStep s (.poll c) ⟨db, tasks,
        ((es.filterMap JobEvent.record).map fun r => .claimed r.id).reverse ++ s.log⟩
  | start {token : UUID} {t : JobTask} (ht : t ∈ s.tasks) (htoken : t.job.leaseToken = some token)
      (hp : t.phase = .begun) (hi : t.interrupted = false) (hc : ¬ s.isCancellationRequested t.job.id token) :
      JobStep s (.check token) { s.setTask { t with phase := .handling } with
        log := .started t.job.id :: s.log }
  | renew {token : UUID} {now : Instant} {leaseSeconds : ℤ} {j : Job} {expiry : Instant} {db : JobDb}
      (he : (JobEvent.write j (.renew expiry)).Occurs s.db db) :
      JobStep s (.heartbeat token now leaseSeconds) { s with db }
  | task {op : RunnerOp} {t t' : JobTask} (ht : t ∈ s.tasks) (hm : t.Moves s t') : JobStep s op (s.setTask t')
  | report {token : UUID} {retryAt : Instant} {t : JobTask} {b : Bool} {db : JobDb} (ht : t ∈ s.tasks)
      (htoken : t.job.leaseToken = some token) (hp : t.phase = .completing ∨ t.phase = .cancelling ∨
        t.phase = .failing)
      (hu : s.db.Updated t.job.id (fun j => j.leaseToken = some token) (t.reports retryAt).1 b db) :
      JobStep s (.report token retryAt)
        ⟨db, s.tasks.save { t with phase := .done },
          if b then .ended token (t.reports retryAt).2 :: s.log else s.log⟩
  | timeout {token : UUID} {retryAt : Instant} {t : JobTask} {b : Bool} {db : JobDb} (ht : t ∈ s.tasks)
      (htoken : t.job.leaseToken = some token) (hw : t.watchdog = .interrupting)
      (hu : s.db.Updated t.job.id (fun j => j.leaseToken = some token)
        (.fail (t.job.maxAttempts ≤ t.job.attempt) retryAt .timedOut) b db) :
      JobStep s (.timeout token retryAt)
        ⟨db, s.tasks.save { t with watchdog := .fired },
          if b then .ended token t.job.outcome :: s.log else s.log⟩

namespace JobSystem

variable {s : JobSystem} {op : RunnerOp}

theorem commit_eq {x : JobTx Bool} {notes : List JobNote} {b : Bool} {db : JobDb}
    (h : x.run () s.db = .ok (b, db)) :
    s.commit x notes = (b, { s with db, log := if b then notes ++ s.log else s.log }) := by
  rw [commit, h]

theorem withTask_step {token : UUID} {f : JobTask → JobSystem}
    (h : ∀ t ∈ s.tasks, t.job.leaseToken = some token → JobStep s op (f t)) :
    JobStep s op (s.withTask token f) := by
  unfold withTask
  split
  · rename_i t ht
    obtain ⟨hmem, hkey⟩ := Table.find?_eq_some.1 ht
    exact h t hmem hkey
  · exact .same

/-- A poll claims the jobs that it takes. -/
theorem poll_step (s : JobSystem) (c : Claim) : JobStep s (.poll c) (s.poll c) := by
  unfold poll
  split
  · rename_i rs db hrun
    obtain ⟨es, hes, rfl, hdoes⟩ := wp_claim_events c s.db rs db hrun
    split
    · rename_i tasks ht
      refine .poll hes (fun e he => ?_) ht
      obtain ⟨j, hj, ⟨rfl, -, -⟩ | ⟨rfl, hcan⟩⟩ := hdoes e he
      · -- the record of the claimed job is one of those that the claim returns
        refine .inl ⟨j, ?_, rfl⟩
        have hrec : c.record j ∈ es.filterMap JobEvent.record := List.mem_filterMap.2 ⟨_, he, rfl⟩
        rcases claim_run c s.db with ⟨-, db', hclaim⟩ | ⟨-, hclaim⟩
        · rw [hrun] at hclaim
          obtain ⟨hlist, -⟩ := Prod.mk.inj (Except.ok.inj hclaim)
          rw [hlist, List.nil_append] at hrec
          obtain ⟨x, hx, hxj⟩ := List.mem_map.1 hrec
          have hid : x.id = j.id := congrArg JobRecord.id hxj
          have hjm : j ∈ s.db.jobs := (List.mem_filter.1 ((List.perm_insertionSort _ _).mem_iff.1 hj)).1
          rw [← Table.eq_of_key (JobDb.mem_of_mem_taken hx) hjm hid]
          exact hx
        · rw [hrun] at hclaim
          cases hclaim
      · have hjm : j ∈ s.db.jobs := (List.mem_filter.1 ((List.perm_insertionSort _ _).mem_iff.1 hj)).1
        obtain ⟨token, htoken⟩ := Option.isSome_iff_exists.1 hcan
        exact .inr ⟨j, hjm, (Job.cancellation_eq_some.1 htoken).1, rfl⟩
    · exact .same
  · exact .same

theorem check_step {token : UUID} {t : JobTask} (ht : t ∈ s.tasks) (htoken : t.job.leaseToken = some token) :
    JobStep s (.check token) (s.check token t) := by
  unfold check
  split
  · rename_i hp
    split
    · rename_i hc
      refine .task ht (.cancels hp ?_)
      rcases hc with hc | ⟨j, hj, hid, htok, hs⟩
      · exact .inl hc
      · refine .inr fun x hx hxid _ hrun => ?_
        obtain rfl := Table.eq_of_key hx hj (hxid.trans hid.symm)
        rw [hs] at hrun
        cases hrun
    · rename_i hc
      split
      · rename_i hp
        exact .start ht htoken hp (Bool.eq_false_iff.2 fun h => hc (.inl h)) fun h => hc (.inr h)
      · split
        · rename_i hp
          exact .task ht (.passes hp)
        · exact .same
  · exact .same

theorem heartbeat_step {token : UUID} {now : Instant} {leaseSeconds : ℤ} {t : JobTask} (ht : t ∈ s.tasks)
    (htoken : t.job.leaseToken = some token) :
    JobStep s (.heartbeat token now leaseSeconds) (s.heartbeat token now leaseSeconds t) := by
  unfold heartbeat
  split
  · rename_i hp
    obtain ⟨b, db, hrun, hu⟩ := @heartbeatJob_updated s.db t.job.id token now leaseSeconds
    rw [commit_eq hrun]
    rcases hu with ⟨rfl, j, -, -, -, he⟩ | ⟨rfl, rfl, hno⟩
    · exact .renew he
    · refine .task ht (.cancels (.inr (.inl hp)) (.inr fun j hj hid htok hs => ?_))
      exact hno j hj hid (htok.trans htoken) (by simp [JobWrite.accepts, hs])
  · exact .same

theorem Updated.token {db db' : JobDb} {id token : UUID} {w : JobWrite} {b : Bool}
    (h : db.Updated id (fun j => j.leaseToken.isSome ∧ j.leaseToken = some token) w b db') :
    db.Updated id (fun j => j.leaseToken = some token) w b db' := by
  rcases h with ⟨hb, j, hj, hid, ⟨-, ht⟩, he⟩ | ⟨hb, hdb, hno⟩
  · exact .inl ⟨hb, j, hj, hid, ht, he⟩
  · exact .inr ⟨hb, hdb, fun j hj hid ht => hno j hj hid ⟨by rw [ht]; rfl, ht⟩⟩

/-- The report counts exactly if the token of the task is the lease of the job. -/
theorem report_eq {token : UUID} (retryAt : Instant) {t : JobTask} (htoken : t.job.leaseToken = some token)
    (hp : t.phase = .completing ∨ t.phase = .cancelling ∨ t.phase = .failing) :
    ∃ b db, s.db.Updated t.job.id (fun j => j.leaseToken = some token) (t.reports retryAt).1 b db ∧
      s.report token retryAt t =
        ⟨db, s.tasks.save { t with phase := .done }, if b then .ended token (t.reports retryAt).2 ::
          s.log else s.log⟩ := by
  unfold report JobTask.reports
  rcases hp with hp | hp | hp
  · obtain ⟨b, db, hrun, hu⟩ := @completeJob_updated s.db t.job.id token
    simp only [hp, commit_eq hrun]
    exact ⟨b, db, Updated.token hu, rfl⟩
  · obtain ⟨b, db, hrun, hu⟩ := @cancelledJob_updated s.db t.job
    rw [htoken] at hu
    simp only [hp, commit_eq hrun]
    exact ⟨b, db, Updated.token hu, rfl⟩
  · obtain ⟨b, db, hrun, hu⟩ := @failJob_updated s.db t.job retryAt .failed
    rw [htoken] at hu
    simp only [hp, commit_eq hrun]
    exact ⟨b, db, Updated.token hu, rfl⟩

theorem report_step {token : UUID} {retryAt : Instant} {t : JobTask} (ht : t ∈ s.tasks)
    (htoken : t.job.leaseToken = some token) :
    JobStep s (.report token retryAt) (s.report token retryAt t) := by
  by_cases hp : t.phase = .completing ∨ t.phase = .cancelling ∨ t.phase = .failing
  · obtain ⟨b, db, hu, heq⟩ := @report_eq s token retryAt t htoken hp
    rw [heq]
    exact .report ht htoken hp hu
  · have hsame : s.report token retryAt t = s := by
      unfold report
      split
      · exact absurd (.inl ‹_›) hp
      · exact absurd (.inr (.inl ‹_›)) hp
      · exact absurd (.inr (.inr ‹_›)) hp
      · rfl
    rw [hsame]
    exact .same

theorem interrupt_step {token : UUID} {t : JobTask} (ht : t ∈ s.tasks) :
    JobStep s (.interrupt token) (s.interrupt t) := by
  unfold interrupt
  split
  · rename_i hw
    split
    · exact .task ht (.idle hw ‹_›)
    · split
      · exact .task ht (.stops hw ‹_›)
      · exact .task ht (.interrupts hw ‹_› ‹_›)
  · exact .same

theorem timeout_step {token : UUID} {retryAt : Instant} {t : JobTask} (ht : t ∈ s.tasks)
    (htoken : t.job.leaseToken = some token) :
    JobStep s (.timeout token retryAt) (s.timeout token retryAt t) := by
  unfold timeout
  split
  · rename_i hw
    obtain ⟨b, db', hrun, hu⟩ := @failJob_updated s.db t.job retryAt .timedOut
    rw [commit_eq hrun]
    rw [htoken] at hu
    exact .timeout ht htoken hw (Updated.token hu)
  · exact .same

/-- Every step ends in one of these ways. -/
theorem step_cases (s : JobSystem) (op : RunnerOp) : JobStep s op (s.step op) := by
  cases op with
  | insert id type payload correlationId dedupeKey priority maxAttempts timeoutSeconds availableAt =>
    have hwp := @wp_insertJob_event s.db id type payload correlationId dedupeKey priority maxAttempts
      timeoutSeconds availableAt
    refine commit_of_wp (P := fun db => JobStep s _ { s with db }) .same (wp_mono hwp ?_)
    rintro - db (rfl | ⟨j, -, hmax, he⟩)
    · exact .same
    · exact .insert hmax he
  | requestCancellation id =>
    obtain ⟨b, db, hrun, h⟩ := @requestCancellation_updated s.db id
    show JobStep s _ (s.commit _ _).2
    rw [commit_eq hrun]
    rcases h with ⟨⟨rfl, j, -, hid, -, he⟩ | ⟨rfl, -, -⟩, hb⟩ | ⟨rfl, j, -, hid, -, he⟩ | ⟨rfl, rfl, -⟩
    · exact .request hid (.inl rfl) he
    · cases hb
    · exact .request hid (.inr rfl) he
    · exact .same
  | retry id now =>
    obtain ⟨b, db, hrun, h⟩ := @retryJob_updated s.db id now
    show JobStep s _ (s.commit _ _).2
    rw [commit_eq hrun]
    rcases h with ⟨rfl, j, -, hid, -, he⟩ | ⟨rfl, rfl, -⟩
    · exact .retry hid he
    · exact .same
  | poll c => exact s.poll_step c
  | begin token =>
    refine withTask_step fun t ht _ => ?_
    split
    · exact .task ht (.begins ‹_›)
    · exact .same
  | check token => exact withTask_step fun t ht htoken => check_step ht htoken
  | heartbeat token => exact withTask_step fun t ht htoken => heartbeat_step ht htoken
  | swallow token =>
    refine withTask_step fun t ht _ => ?_
    split
    · exact .task ht (.swallow ‹_›)
    · exact .same
  | returns token =>
    refine withTask_step fun t ht _ => ?_
    split
    · exact .task ht (.returns ‹_›)
    · exact .same
  | fails token =>
    refine withTask_step fun t ht _ => ?_
    split
    · exact .task ht (.fails ‹_›)
    · exact .same
  | report token retryAt => exact withTask_step fun t ht htoken => report_step ht htoken
  | interrupt token => exact withTask_step fun t ht _ => interrupt_step ht
  | timeout token retryAt => exact withTask_step fun t ht htoken => timeout_step ht htoken

end JobSystem

end GManager
