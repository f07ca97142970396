import GManager.Rows
import Mathlib.Data.List.Sort
import Mathlib.Logic.Relation

/-!
# Background jobs

`JobStore`: jobs and the history of their attempts. A claim takes the due jobs in their order and numbers
each new attempt from the job's counter; the schema keeps the numbers of a job's attempts distinct. An
operator's retry sets the counter back and leaves the history, so the number of the next attempt may be
taken, and then the whole claim is rolled back.
-/

namespace GManager

open Txn

/-! ### The store -/

inductive JobStatus
  | queued | retry | running | cancelRequested | completed | cancelled | dead
  deriving DecidableEq, Repr

inductive JobAttemptStatus
  | running | completed | failed | timedOut | cancelled | leaseExpired
  deriving DecidableEq, Repr

/-- A row of `background_jobs`. -/
structure Job where
  id : UUID
  type : String
  payload : String
  correlationId : String
  dedupeKey : Option String
  status : JobStatus
  priority : ℤ
  attempts : ℕ
  maxAttempts : ℕ
  availableAt : Instant
  leaseOwner : Option String
  leaseToken : Option UUID
  leaseExpiresAt : Option Instant
  timeoutSeconds : ℤ
  createdAt : Instant
  deriving DecidableEq, Repr

/-- A row of `background_job_attempts`. -/
structure JobAttempt where
  jobId : UUID
  attemptNumber : ℕ
  workerId : String
  leaseToken : UUID
  status : JobAttemptStatus
  deriving DecidableEq, Repr

/-- What a worker gets of a job. -/
structure JobRecord where
  id : UUID
  type : String
  payload : String
  correlationId : String
  attempt : ℕ
  maxAttempts : ℕ
  timeoutSeconds : ℤ
  leaseToken : Option UUID
  leaseExpiresAt : Option Instant
  deriving DecidableEq, Repr

/-- The two tables; `uk_job_attempt_number` is the key of the attempts. -/
structure JobDb where
  jobs : Table Job.id
  attempts : Table fun a : JobAttempt => (a.jobId, a.attemptNumber)

def JobDb.empty : JobDb := ⟨.empty, .empty⟩

abbrev JobTx := Txn Unit JobDb Failure

/-- `UPDATE background_jobs SET … WHERE id = ? AND …`: whether a row was updated. -/
def updateJob (id : UUID) (p : Job → Prop) [DecidablePred p] (f : Job → Job) : JobTx Bool := do
  let db ← get
  match (db.jobs.find? id).filter fun j => p j with
  | some j => do
    modify fun db => { db with jobs := db.jobs.save (f j) }
    return true
  | none => return false

/-- An attempt that runs under the lease `token` ends with `status`. -/
def JobAttempt.finish (jobId token : UUID) (status : JobAttemptStatus) (a : JobAttempt) : JobAttempt :=
  if a.jobId = jobId ∧ a.leaseToken = token ∧ a.status = .running then { a with status } else a

theorem JobAttempt.finish_key (jobId token : UUID) (status : JobAttemptStatus) (a : JobAttempt) :
    ((a.finish jobId token status).jobId, (a.finish jobId token status).attemptNumber) =
    (a.jobId, a.attemptNumber) := by
  unfold finish
  split
  · rfl
  · rfl

/-- `finishAttempt`. -/
def finishAttempt (jobId token : UUID) (status : JobAttemptStatus) : JobTx Unit :=
  modify fun db =>
    { db with attempts := db.attempts.edit (·.finish jobId token status) (JobAttempt.finish_key _ _ _) }

def insertAttempt (a : JobAttempt) : JobTx Unit := do
  let db ← get
  let t ← orThrow (db.attempts.insert a) .dataIntegrity
  modify fun db => { db with attempts := t }

/-- `insert`: a new job, unless its identifier or its dedupe key is known. -/
def insertJob (id : UUID) (type payload correlationId : String) (dedupeKey : Option String) (priority : ℤ)
    (maxAttempts : ℕ) (timeoutSeconds : ℤ) (availableAt : Instant) : JobTx UUID := do
  let job : Job :=
    { id, type, payload, correlationId, dedupeKey, status := .queued, priority, attempts := 0, maxAttempts,
                     availableAt, leaseOwner := none, leaseToken := none, leaseExpiresAt :=
                     none, timeoutSeconds,
                     createdAt := availableAt }
  let db ← get
  when (¬ ∃ j ∈ db.jobs.rows, dedupeKey.isSome ∧ j.dedupeKey = dedupeKey)
    (modify fun db => { db with jobs := (db.jobs.insert job).getD db.jobs })
  match dedupeKey with
  | none => return id
  | some key => do
    let db ← get
    let known ← orThrow (db.jobs.rows.find? fun j => j.dedupeKey = some key) .noSuchElement
    return known.id

/-! ### Claims -/

/-- The condition of the claiming queries. -/
def Job.due (now : Instant) (j : Job) : Prop :=
  (j.status = .queued ∨ j.status = .retry) ∧ j.availableAt ≤ now ∨
    (j.status = .running ∨ j.status = .cancelRequested) ∧ ∃ e ∈ j.leaseExpiresAt, e < now

instance (now : Instant) (j : Job) : Decidable (j.due now) := inferInstanceAs (Decidable (_ ∨ _))

/-- `ORDER BY priority DESC, created_at, id`. -/
def Job.before (a b : Job) : Bool :=
  b.priority < a.priority ∨ a.priority = b.priority ∧
    (a.createdAt < b.createdAt ∨ a.createdAt = b.createdAt ∧ a.id ≤ b.id)

/-- The due jobs in the order of claims. -/
def JobDb.candidates (db : JobDb) (now : Instant) : List Job :=
  (db.jobs.rows.filter fun j => j.due now).insertionSort fun a b => a.before b

/-- What a claim is told: the worker, the random lease tokens of the jobs, the rows that other transactions
hold locked, the number of free slots, the instant and the length of the leases. -/
structure Claim where
  workerId : String
  tokens : UUID → UUID
  locked : UUID → Bool
  limit : ℕ
  now : Instant
  leaseSeconds : ℤ

/-- The record of a claimed job. -/
def Claim.record (c : Claim) (j : Job) : JobRecord :=
  { id := j.id
    type := j.type
    payload := j.payload
    correlationId := j.correlationId
    attempt := j.attempts + 1
    maxAttempts := j.maxAttempts
    timeoutSeconds := j.timeoutSeconds
    leaseToken := some (c.tokens j.id)
    leaseExpiresAt := some (c.now.plusSeconds c.leaseSeconds) }

/-- The job while its claim runs. -/
def Claim.run (c : Claim) (j : Job) : Job :=
  { j with
    status := .running
    attempts := j.attempts + 1
    leaseOwner := some c.workerId
    leaseToken := some (c.tokens j.id)
    leaseExpiresAt := some (c.now.plusSeconds c.leaseSeconds) }

/-- `claimOne`. -/
def claimOne (c : Claim) (j : Job) : JobTx JobRecord := do
  ifPresent j.leaseToken fun token => finishAttempt j.id token .leaseExpired
  modify fun db => { db with jobs := db.jobs.save (c.run j) }
  insertAttempt ⟨j.id, j.attempts + 1, c.workerId, c.tokens j.id, .running⟩
  return c.record j

/-- A job that is not running any more. -/
def Job.release (status : JobStatus) (j : Job) : Job :=
  { j with status, leaseOwner := none, leaseToken := none, leaseExpiresAt := none }

/-- `cancelExpired`. -/
def cancelExpired (j : Job) (token : UUID) : JobTx Unit := do
  let _ ← updateJob j.id (fun j => j.leaseToken = some token ∧ j.status = .cancelRequested)
    (Job.release .cancelled)
  finishAttempt j.id token .cancelled

/-- The lease of a job whose cancellation was requested. -/
def Job.cancellation (j : Job) : Option UUID := if j.status = .cancelRequested then j.leaseToken else none

/-- The loop of `claim` over its candidates. -/
def claimLoop (c : Claim) : List UUID → List JobRecord → JobTx (List JobRecord)
  | [], claimed => return claimed
  | id :: ids, claimed =>
    if c.limit ≤ claimed.length then return claimed
    else do
      let db ← get
      match (db.jobs.find? id).filter fun j => j.due c.now ∧ c.locked id = false with
      | none => claimLoop c ids claimed
      | some j => match j.cancellation with
        | some token => do
          cancelExpired j token
          claimLoop c ids claimed
        | none => do
          let r ← claimOne c j
          claimLoop c ids (claimed ++ [r])

/-- `claim`. -/
def claim (c : Claim) : JobTx (List JobRecord) := do
  let db ← get
  claimLoop c ((db.candidates c.now).map (·.id)) []

/-! ### The other operations -/

def heartbeatJob (id token : UUID) (now : Instant) (leaseSeconds : ℤ) : JobTx Bool :=
  updateJob id (fun j => j.leaseToken = some token ∧ j.status = .running)
    fun j => { j with leaseExpiresAt := some (now.plusSeconds leaseSeconds) }

/-- What `complete`, `fail` and `cancelled` share: a job leaves its lease, and so does its attempt. -/
def leave (id : UUID) (token : Option UUID) (statuses : List JobStatus) (f : Job → Job)
    (status : JobAttemptStatus) :
    JobTx Bool := do
  let updated ← updateJob id (fun j => j.leaseToken.isSome ∧ j.leaseToken = token ∧ j.status ∈ statuses) f
  ifPresent (token.filter fun _ => updated) fun token => finishAttempt id token status
  return updated

/-- `complete`. -/
def completeJob (id token : UUID) : JobTx Bool :=
  leave id (some token) [.running] (Job.release .completed) .completed

/-- `fail`. -/
def failJob (job : JobRecord) (retryAt : Instant) (status : JobAttemptStatus) : JobTx Bool :=
  leave job.id job.leaseToken [.running, .cancelRequested]
    (fun j => { j.release (if job.maxAttempts ≤ job.attempt then .dead else .retry) with
      availableAt := retryAt }) status

/-- `cancelled`. -/
def cancelledJob (job : JobRecord) : JobTx Bool :=
  leave job.id job.leaseToken [.running, .cancelRequested] (Job.release .cancelled) .cancelled

/-- `requestCancellation`. -/
def requestCancellation (id : UUID) : JobTx Bool := do
  let queued ← updateJob id (fun j => j.status = .queued ∨ j.status = .retry) fun j =>
    { j with status := .cancelled }
  if queued then return true
  else updateJob id (fun j => j.status = .running) fun j => { j with status := .cancelRequested }

/-- `retry`: the operator's way to run a dead or cancelled job again. -/
def retryJob (id : UUID) (now : Instant) : JobTx Bool :=
  updateJob id (fun j => j.status = .dead ∨ j.status = .cancelled)
    fun j => { j with status := .retry, attempts := 0, availableAt := now }

inductive JobOp
  | insert (id : UUID) (type payload correlationId : String) (dedupeKey : Option String) (priority : ℤ)
      (maxAttempts : ℕ) (timeoutSeconds : ℤ) (availableAt : Instant)
  | claim (c : Claim)
  | heartbeat (id token : UUID) (now : Instant) (leaseSeconds : ℤ)
  | complete (id token : UUID)
  | fail (job : JobRecord) (retryAt : Instant) (status : JobAttemptStatus)
  | cancelled (job : JobRecord)
  | requestCancellation (id : UUID)
  | retry (id : UUID) (now : Instant)

def JobOp.perform : JobOp → JobTx Unit
  | insert id type payload correlationId dedupeKey priority maxAttempts timeoutSeconds availableAt =>
    (insertJob id type payload correlationId dedupeKey priority maxAttempts timeoutSeconds
      availableAt).discard
  | claim c => (GManager.claim c).discard
  | heartbeat id token now leaseSeconds => (heartbeatJob id token now leaseSeconds).discard
  | complete id token => (completeJob id token).discard
  | fail job retryAt status => (failJob job retryAt status).discard
  | cancelled job => (cancelledJob job).discard
  | requestCancellation id => (GManager.requestCancellation id).discard
  | retry id now => (retryJob id now).discard

/-- Each operation is a transaction: it commits, or nothing changes. -/
def JobDb.step (db : JobDb) (op : JobOp) : JobDb := op.perform.commit () db

def JobDb.run (db : JobDb) (ops : List JobOp) : JobDb := ops.foldl JobDb.step db

/-! ### What a claim does -/

/-- The number of the job's next attempt is not taken. -/
def JobDb.NextFree (db : JobDb) (j : Job) : Prop :=
  ∀ a ∈ db.attempts, ¬ (a.jobId = j.id ∧ a.attemptNumber = j.attempts + 1)

/-- The jobs among the candidates that a claim may take. -/
def Claim.takes (c : Claim) (js : List Job) : List Job :=
  js.filter fun j => c.locked j.id = false ∧ j.cancellation = none

/-- The jobs that the claim takes: the first due ones, as many as there are slots. -/
def JobDb.taken (db : JobDb) (c : Claim) : List Job := (c.takes (db.candidates c.now)).take c.limit

/-- Only the job `id` and its attempts have changed. -/
structure Others (id : UUID) (db db' : JobDb) : Prop where
  jobs : ∀ j, j.id ≠ id → (j ∈ db'.jobs ↔ j ∈ db.jobs)
  attempts : ∀ j : Job, j.id ≠ id → (db'.NextFree j ↔ db.NextFree j)

section claims

variable {c : Claim} {db : JobDb} {j : Job}

theorem mem_jobs_save {t : Table Job.id} {j j' : Job} (hid : j.id ≠ j'.id) : j ∈ t.save j' ↔ j ∈ t := by
  rw [Table.mem_save]
  constructor
  · rintro (⟨h, -⟩ | ⟨rfl, -⟩)
    · exact h
    · exact absurd rfl hid
  · exact fun h => .inl ⟨h, hid⟩

theorem JobDb.nextFree_finish {jobs jobs' : Table Job.id}
    {t : Table fun a : JobAttempt => (a.jobId, a.attemptNumber)} (id token : UUID)
    (status : JobAttemptStatus) (j : Job) :
    (JobDb.mk jobs' (t.edit (·.finish id token status) (JobAttempt.finish_key id token status))).NextFree j ↔
      (JobDb.mk jobs t).NextFree j := by
  have hkey : ∀ a : JobAttempt, ((a.finish id token status).jobId = j.id ∧
      (a.finish id token status).attemptNumber = j.attempts + 1) ↔
      (a.jobId = j.id ∧ a.attemptNumber = j.attempts + 1) := by
    intro a
    have h := JobAttempt.finish_key id token status a
    rw [Prod.mk.injEq] at h
    rw [h.1, h.2]
  constructor
  · exact fun h a ha hn => h (a.finish id token status) (List.mem_map.2 ⟨a, ha, rfl⟩) ((hkey a).2 hn)
  · intro h b hb hn
    obtain ⟨a, ha, rfl⟩ := List.mem_map.1 hb
    exact h a ha ((hkey a).1 hn)

/-- The next attempt is recorded exactly if its number is free. -/
theorem insertAttempt_run (w : String) (token : UUID) (status : JobAttemptStatus) :
    (db.NextFree j ∧ ∃ t, (∀ a, a ∈ t ↔ a ∈ db.attempts ∨ a = ⟨j.id, j.attempts + 1, w, token, status⟩) ∧
      (insertAttempt ⟨j.id, j.attempts + 1, w, token, status⟩).run () db = .ok
        ((), { db with attempts := t })) ∨
    (¬ db.NextFree j ∧ (insertAttempt ⟨j.id, j.attempts + 1, w, token, status⟩).run ()
      db = .error .dataIntegrity) := by
  cases hi : db.attempts.insert ⟨j.id, j.attempts + 1, w, token, status⟩ with
  | some t =>
    refine .inl ⟨fun a ha hn => ?_, t, fun a => Table.mem_insert hi, ?_⟩
    · exact (Table.insert_eq_some.1 hi).1 a ha (Prod.ext hn.1 hn.2)
    · simp only [insertAttempt, commits_bind, commits_get, commits_orThrow, commits_modify]
      exact ⟨db, db, ⟨rfl, rfl⟩, t, db, ⟨hi, rfl⟩, rfl⟩
  | none =>
    refine .inr ⟨fun hfree => ?_, ?_⟩
    · unfold Table.insert at hi
      split at hi
      · rename_i hk
        obtain ⟨a, ha, hk⟩ := List.mem_map.1 hk
        exact hfree a ha (Prod.mk.inj hk)
      · cases hi
    · refine run_bind_get.trans (run_bind_of_error ?_)
      rw [hi]
      rfl

theorem updateJob_run (id : UUID) (p : Job → Prop) [DecidablePred p] (f : Job → Job) (db : JobDb) :
    (∃ j ∈ db.jobs, j.id = id ∧ p j ∧
      (updateJob id p f).run () db = .ok (true, { db with jobs := db.jobs.save (f j) })) ∨
    ((∀ j ∈ db.jobs, j.id = id → ¬ p j) ∧ (updateJob id p f).run () db = .ok (false, db)) := by
  unfold updateJob
  rw [run_bind_get]
  cases hf : (db.jobs.find? id).filter fun j => p j with
  | some j =>
    obtain ⟨hj, hp⟩ := Option.filter_eq_some_iff.1 hf
    obtain ⟨hmem, hid⟩ := Table.find?_eq_some.1 hj
    exact .inl ⟨j, hmem, hid, by simpa using hp, rfl⟩
  | none =>
    refine .inr ⟨fun j hj hid hp => ?_, rfl⟩
    rw [Table.find?_eq_some.2 ⟨hj, hid⟩] at hf
    simp [hp] at hf

theorem cancelExpired_run (token : UUID) : ∃ db', (cancelExpired j token).run () db = .ok ((), db') ∧
    Others j.id db db' := by
  have hupd : ∃ b db₁, (updateJob j.id (fun j => j.leaseToken = some token ∧ j.status = .cancelRequested)
      (Job.release .cancelled)).run () db = .ok (b, db₁) ∧ db₁.attempts = db.attempts ∧
      ∀ x, x.id ≠ j.id → (x ∈ db₁.jobs ↔ x ∈ db.jobs) := by
    rcases updateJob_run j.id (fun j => j.leaseToken = some token ∧ j.status = .cancelRequested)
      (Job.release .cancelled) db
      with ⟨y, -, hid, -, hrun⟩ | ⟨-, hrun⟩
    · exact ⟨_, _, hrun, rfl, fun x hx => mem_jobs_save (by rw [Job.release, hid]; exact hx)⟩
    · exact ⟨_, _, hrun, rfl, fun _ _ => Iff.rfl⟩
  obtain ⟨b, db₁, hrun, ha, hj⟩ := hupd
  refine ⟨_, (run_bind_of_ok hrun).trans rfl, hj, fun x _ => ?_⟩
  refine (@JobDb.nextFree_finish db.jobs _ _ _ _ _ x).trans ?_
  rw [ha]

/-- A claim of one job records its next attempt, if the number is free, and fails otherwise. -/
theorem claimOne_run (c : Claim) (j : Job) (db : JobDb) :
    (db.NextFree j ∧ ∃ db', (claimOne c j).run () db = .ok (c.record j, db') ∧ Others j.id db db') ∨
    (¬ db.NextFree j ∧ (claimOne c j).run () db = .error .dataIntegrity) := by
  have hfirst : ∃ db₁, (ifPresent j.leaseToken fun token => finishAttempt j.id token .leaseExpired).run ()
    db = .ok ((), db₁) ∧
      db₁.jobs = db.jobs ∧ ∀ x : Job, db₁.NextFree x ↔ db.NextFree x := by
    cases j.leaseToken with
    | none => exact ⟨db, rfl, rfl, fun _ => Iff.rfl⟩
    | some token => exact ⟨_, rfl, rfl, fun x => @JobDb.nextFree_finish db.jobs _ _ _ _ _ x⟩
  obtain ⟨db₁, hrun, hjobs, hfree⟩ := hfirst
  have hsame : ∀ x : Job, (JobDb.mk (db₁.jobs.save (c.run j)) db₁.attempts).NextFree x ↔
      db.NextFree x := hfree
  rcases @insertAttempt_run ⟨db₁.jobs.save (c.run j), db₁.attempts⟩ j c.workerId (c.tokens j.id) .running
    with ⟨hn, t, ht, hins⟩ | ⟨hn, hins⟩
  · refine .inl ⟨(hsame j).1 hn, _,
      (run_bind_of_ok hrun).trans ((run_bind_of_ok rfl).trans (run_bind_of_ok hins)), ?_, ?_⟩
    · intro x hx
      show x ∈ db₁.jobs.save (c.run j) ↔ _
      rw [hjobs]
      exact mem_jobs_save hx
    · intro x hx
      refine Iff.trans ?_ (hsame x)
      constructor
      · exact fun h a ha => h a ((ht a).2 (.inl ha))
      · intro h a ha hn
        rcases (ht a).1 ha with ha | rfl
        · exact h a ha hn
        · exact hx hn.1.symm
  · refine .inr ⟨fun h => hn ((hsame j).2 h), ?_⟩
    exact (run_bind_of_ok hrun).trans ((run_bind_of_ok rfl).trans (run_bind_of_error hins))

theorem Claim.mem_of_mem_takes {js : List Job} {n : ℕ} (h : j ∈ (c.takes js).take n) : j ∈ js :=
  (List.mem_filter.1 (List.mem_of_mem_take h)).1

theorem Claim.takes_cons_of_pos {js : List Job} (h : c.locked j.id = false ∧ j.cancellation = none) :
    c.takes (j :: js) = j :: c.takes js := List.filter_cons_of_pos (by simpa using h)

theorem Claim.takes_cons_of_neg {js : List Job} (h : ¬ (c.locked j.id = false ∧ j.cancellation = none)) :
    c.takes (j :: js) = c.takes js := List.filter_cons_of_neg (by simpa using h)

/-- How a claim ends that is to take the jobs `js`: it takes them, or fails at one
whose next number is taken. -/
def Claim.EndsWith (c : Claim) (js : List Job) (claimed : List JobRecord) (x : JobTx (List JobRecord))
    (db : JobDb) : Prop :=
  ((∀ j ∈ js, db.NextFree j) ∧ ∃ db', x.run () db = .ok (claimed ++ js.map c.record, db')) ∨
    ((∃ j ∈ js, ¬ db.NextFree j) ∧ x.run () db = .error .dataIntegrity)

/-- The numbers of other jobs stay free or taken while one job is claimed. -/
theorem Claim.EndsWith.others {js : List Job} {claimed : List JobRecord} {x y : JobTx (List JobRecord)}
    {db' : JobDb} {id : UUID} (h : c.EndsWith js claimed x db') (ho : Others id db db')
    (hne : ∀ j ∈ js, j.id ≠ id) (hrun : y.run () db = x.run () db') : c.EndsWith js claimed y db := by
  rcases h with ⟨hfree, db₁, hx⟩ | ⟨⟨j, hj, hn⟩, hx⟩
  · exact .inl ⟨fun j hj => (ho.attempts j (hne j hj)).1 (hfree j hj), db₁, hrun.trans hx⟩
  · exact .inr ⟨⟨j, hj, fun h => hn ((ho.attempts j (hne j hj)).2 h)⟩, hrun.trans hx⟩

/-- The loop takes the first candidates that it may take. -/
theorem claimLoop_run (c : Claim) (js : List Job) :
    ∀ (claimed : List JobRecord) (db : JobDb), (js.map (·.id)).Nodup → (∀ j ∈ js, j ∈ db.jobs ∧ j.due c.now) →
    c.EndsWith ((c.takes js).take (c.limit - claimed.length)) claimed
      (claimLoop c (js.map (·.id)) claimed) db := by
  induction js with
  | nil =>
    intro claimed db _ _
    rw [show c.takes [] = [] from rfl, List.take_nil]
    refine .inl ⟨fun j hj => absurd hj List.not_mem_nil, db, ?_⟩
    show _ = Except.ok (claimed ++ [], db)
    rw [List.append_nil]
    rfl
  | cons j js ih =>
    intro claimed db hnodup hmem
    obtain ⟨hj, hdue⟩ := hmem j List.mem_cons_self
    obtain ⟨hnot, hnodup⟩ := List.nodup_cons.1 hnodup
    have hne : ∀ x ∈ js, x.id ≠ j.id := fun x hx he => hnot (List.mem_map.2 ⟨x, hx, he⟩)
    have hmem' : ∀ {db'}, Others j.id db db' → ∀ x ∈ js, x ∈ db'.jobs ∧ x.due c.now := fun ho x hx =>
      ⟨(ho.jobs x (hne x hx)).2 (hmem x (List.mem_cons_of_mem _ hx)).1,
        (hmem x (List.mem_cons_of_mem _ hx)).2⟩
    have hfind : db.jobs.find? j.id = some j := Table.find?_eq_some.2 ⟨hj, rfl⟩
    rw [List.map_cons, claimLoop]
    by_cases hl : c.limit ≤ claimed.length
    · rw [if_pos hl, Nat.sub_eq_zero_of_le hl, List.take_zero]
      refine .inl ⟨fun x hx => absurd hx List.not_mem_nil, db, ?_⟩
      rw [List.map_nil, List.append_nil]
      rfl
    · rw [if_neg hl]
      by_cases hlock : c.locked j.id = false
      · have hrow : (db.jobs.find? j.id).filter (fun x => x.due c.now ∧ c.locked j.id = false) = some j := by
          simp [hfind, hdue, hlock]
        cases hcan : j.cancellation with
        | some token =>
          rw [Claim.takes_cons_of_neg (by simp [hcan])]
          obtain ⟨db', hrun, ho⟩ := @cancelExpired_run db j token
          refine (ih claimed db' hnodup (hmem' ho)).others ho
            (fun x hx => hne x (Claim.mem_of_mem_takes hx)) ?_
          rw [run_bind_get, hrow]
          simp only [hcan]
          exact run_bind_of_ok hrun
        | none =>
          have hrest : c.limit - claimed.length = (c.limit - (claimed ++ [c.record j]).length) + 1 := by
            rw [List.length_append, List.length_singleton]
            omega
          rw [Claim.takes_cons_of_pos ⟨hlock, hcan⟩, hrest, List.take_succ_cons]
          unfold Claim.EndsWith
          rw [run_bind_get, hrow]
          simp only [hcan, List.mem_cons, forall_eq_or_imp, exists_eq_or_imp, List.map_cons]
          rcases claimOne_run c j db with ⟨hfree, db', hrun, ho⟩ | ⟨hn, hrun⟩
          · rw [run_bind_of_ok hrun]
            have hfree' : ∀ x ∈ (c.takes js).take (c.limit - (claimed ++ [c.record j]).length),
                (db'.NextFree x ↔ db.NextFree x) :=
              fun x hx => ho.attempts x (hne x (Claim.mem_of_mem_takes hx))
            rcases ih (claimed ++ [c.record j]) db' hnodup
              (hmem' ho) with ⟨hall, db₁, hx⟩ | ⟨⟨x, hx, hnx⟩, herr⟩
            · refine .inl ⟨⟨hfree, fun x hx => (hfree' x hx).1 (hall x hx)⟩, db₁, ?_⟩
              rw [hx, List.append_assoc, List.singleton_append]
            · exact .inr ⟨.inr ⟨x, hx, fun h => hnx ((hfree' x hx).2 h)⟩, herr⟩
          · exact .inr ⟨.inl hn, run_bind_of_error hrun⟩
      · have hrow : (db.jobs.find? j.id).filter (fun x => x.due c.now ∧ c.locked j.id = false) = none := by
          simp [hfind, hlock]
        rw [Claim.takes_cons_of_neg (by simp [hlock])]
        have hsame : Others j.id db db := ⟨fun _ _ => Iff.rfl, fun _ _ => Iff.rfl⟩
        refine (ih claimed db hnodup fun x hx => hmem x (List.mem_cons_of_mem _ hx)).others hsame
          (fun x hx => hne x (Claim.mem_of_mem_takes hx)) ?_
        rw [run_bind_get, hrow]

theorem claim_run (c : Claim) (db : JobDb) : c.EndsWith (db.taken c) [] (claim c) db := by
  have hperm :=
    List.perm_insertionSort (fun a b => a.before b = true) (db.jobs.rows.filter fun j => j.due c.now)
  have hnodup : ((db.candidates c.now).map (·.id)).Nodup :=
    (hperm.map _).nodup_iff.2 (db.jobs.nodup.sublist (List.filter_sublist.map _))
  have hmem : ∀ j ∈ db.candidates c.now, j ∈ db.jobs ∧ j.due c.now := by
    intro j hj
    obtain ⟨hj, hdue⟩ := List.mem_filter.1 (hperm.mem_iff.1 hj)
    exact ⟨hj, of_decide_eq_true hdue⟩
  exact claimLoop_run c (db.candidates c.now) [] db hnodup hmem

end claims

/-! ### Counters and histories -/

namespace JobDb

/-- The attempts counter of a job. -/
def counter (db : JobDb) (id : UUID) : Option ℕ := (db.jobs.find? id).map (·.attempts)

/-- Whether the history has an attempt with this number. -/
def Numbered (db : JobDb) (id : UUID) (n : ℕ) : Prop := ∃ a ∈ db.attempts, a.jobId = id ∧ a.attemptNumber = n

theorem counter_eq {db : JobDb} {j : Job} (hj : j ∈ db.jobs) : db.counter j.id = some j.attempts := by
  rw [counter, Table.find?_eq_some.2 ⟨hj, rfl⟩, Option.map_some]

theorem counter_save {db db' : JobDb} {j j' : Job} (hj : j ∈ db.jobs) (hid : j'.id = j.id)
    (hjobs : db'.jobs = db.jobs.save j') (id : UUID) :
    db'.counter id = if id = j.id then some j'.attempts else db.counter id := by
  rw [counter, hjobs, Table.find?_save, hid]
  split
  · rename_i h
    rw [h, Table.find?_eq_some.2 ⟨hj, rfl⟩]
    rfl
  · rfl

end JobDb

/-- A change of the counters or the histories. -/
inductive JobEffect (db : JobDb) : JobDb → Prop
  | kept {db' : JobDb} (hc : ∀ id, db'.counter id = db.counter id) (hn : ∀ id n, db'.Numbered id n ↔
      db.Numbered id n) : JobEffect db db'
  | inserted {db' : JobDb} (id : UUID) (hnew : db.counter id = none)
      (hc : ∀ k, db'.counter k = if k = id then some 0 else db.counter k)
      (hn : ∀ k n, db'.Numbered k n ↔ db.Numbered k n) : JobEffect db db'
  | claimed {db' : JobDb} (id : UUID) (m : ℕ) (hold : db.counter id = some m)
      (hc : ∀ k, db'.counter k = if k = id then some (m + 1) else db.counter k)
      (hn : ∀ k n, db'.Numbered k n ↔ db.Numbered k n ∨ k = id ∧ n = m + 1) : JobEffect db db'

abbrev JobEffects : JobDb → JobDb → Prop := Relation.ReflTransGen JobEffect

section effects

variable {c : Claim} {db : JobDb}

theorem wp_updateJob {id : UUID} {p : Job → Prop} [DecidablePred p] {f : Job → Job} {Q : Bool → JobDb → Prop}
    (hf : ∀ j ∈ db.jobs, j.id = id → p j → Q true { db with jobs := db.jobs.save (f j) }) (hno : Q false db) :
    wp (updateJob id p f) Q () db := by
  rcases updateJob_run id p f db with ⟨j, hj, hid, hp, hrun⟩ | ⟨-, hrun⟩
  · exact wp_of_run hrun (hf j hj hid hp)
  · exact wp_of_run hrun hno

/-- An update that leaves the counter alone. -/
theorem wp_updateJob_kept {id : UUID} {p : Job → Prop} [DecidablePred p] {f : Job → Job}
    (hf : ∀ j, (f j).id = j.id ∧ (f j).attempts = j.attempts) :
    wp (updateJob id p f) (fun _ => JobEffects db) () db := by
  refine wp_updateJob (fun j hj _ _ => .single (.kept (fun k => ?_) fun _ _ => Iff.rfl)) .refl
  rw [JobDb.counter_save hj (hf j).1 rfl, (hf j).2]
  split
  · rename_i h
    rw [h, JobDb.counter_eq hj]
  · rfl

theorem wp_finishAttempt {id token : UUID} {status : JobAttemptStatus} :
    wp (finishAttempt id token status) (fun _ db' => JobEffect db db' ∧ db'.jobs = db.jobs) () db := by
  have hkey : ∀ a : JobAttempt, (a.finish id token status).jobId = a.jobId ∧
      (a.finish id token status).attemptNumber = a.attemptNumber :=
    fun a => Prod.mk.inj (JobAttempt.finish_key id token status a)
  refine wp_modify.2 ⟨.kept (fun _ => rfl) fun k n => ⟨?_, ?_⟩, rfl⟩
  · rintro ⟨b, hb, hk, hn⟩
    obtain ⟨a, ha, rfl⟩ := List.mem_map.1 hb
    exact ⟨a, ha, (hkey a).1.symm.trans hk, (hkey a).2.symm.trans hn⟩
  · rintro ⟨a, ha, hk, hn⟩
    exact ⟨a.finish id token status, List.mem_map.2 ⟨a, ha, rfl⟩, (hkey a).1.trans hk, (hkey a).2.trans hn⟩

theorem wp_claimOne {j : Job} (hj : j ∈ db.jobs) : wp (claimOne c j) (fun _ => JobEffects db) () db := by
  simp only [claimOne, insertAttempt, wp_bind, wp_get, wp_modify, wp_orThrow, wp_pure]
  have hfirst : wp (ifPresent j.leaseToken fun token => finishAttempt j.id token .leaseExpired)
      (fun _ db' => JobEffects db db' ∧ db'.jobs = db.jobs) () db := by
    cases j.leaseToken with
    | none => exact wp_pure.2 ⟨.refl, rfl⟩
    | some token => exact wp_mono wp_finishAttempt fun _ _ h => ⟨.single h.1, h.2⟩
  refine wp_mono hfirst fun _ db₁ h₁ t ht => ?_
  refine h₁.1.tail (.claimed j.id j.attempts (JobDb.counter_eq (by rw [h₁.2]; exact hj))
    (fun k => ?_) fun k n => ?_)
  · have hj₁ : j ∈ db₁.jobs := by rw [h₁.2]; exact hj
    exact @JobDb.counter_save db₁ _ j (c.run j) hj₁ rfl rfl k
  · constructor
    · rintro ⟨a, ha, hk, hn⟩
      rcases (Table.mem_insert ht).1 ha with ha | rfl
      · exact .inl ⟨a, ha, hk, hn⟩
      · exact .inr ⟨hk.symm, hn.symm⟩
    · rintro (⟨a, ha, hk, hn⟩ | ⟨rfl, rfl⟩)
      · exact ⟨a, (Table.mem_insert ht).2 (.inl ha), hk, hn⟩
      · exact ⟨_, (Table.mem_insert ht).2 (.inr rfl), rfl, rfl⟩

theorem wp_cancelExpired {j : Job} {token : UUID} :
    wp (cancelExpired j token) (fun _ => JobEffects db) () db := by
  refine wp_bind.2 (wp_mono (wp_updateJob_kept fun _ => ⟨rfl, rfl⟩) fun _ db₁ h₁ => ?_)
  exact wp_mono wp_finishAttempt fun _ _ h => h₁.tail h.1

theorem wp_claimLoop (ids : List UUID) : ∀ (claimed : List JobRecord) (db : JobDb),
    wp (claimLoop c ids claimed) (fun _ => JobEffects db) () db := by
  induction ids with
  | nil => exact fun _ _ => wp_pure.2 .refl
  | cons id ids ih =>
    intro claimed db
    simp only [claimLoop, wp_ite, wp_pure, wp_bind, wp_get]
    refine ⟨fun _ => .refl, fun _ => ?_⟩
    split
    · exact ih claimed db
    · rename_i j hj
      obtain ⟨hj, -⟩ := Option.filter_eq_some_iff.1 hj
      obtain ⟨hmem, -⟩ := Table.find?_eq_some.1 hj
      split
      · exact wp_bind.2 (wp_mono wp_cancelExpired fun _ db₁ h₁ =>
          wp_mono (ih claimed db₁) fun _ _ h₂ => h₁.trans h₂)
      · exact wp_bind.2 (wp_mono (wp_claimOne hmem) fun r db₁ h₁ =>
          wp_mono (ih _ db₁) fun _ _ h₂ => h₁.trans h₂)

theorem wp_leave {id : UUID} {token : Option UUID} {statuses : List JobStatus} {f : Job → Job}
    {status : JobAttemptStatus} (hf : ∀ j, (f j).id = j.id ∧ (f j).attempts = j.attempts) :
    wp (leave id token statuses f status) (fun _ => JobEffects db) () db := by
  refine wp_bind.2 (wp_mono (wp_updateJob_kept hf) fun updated db₁ h₁ => ?_)
  cases ht : token.filter fun _ => updated with
  | none => exact wp_bind.2 (wp_pure.2 (wp_pure.2 h₁))
  | some token => exact wp_bind.2 (wp_mono wp_finishAttempt fun _ _ h => wp_pure.2 (h₁.tail h.1))

theorem wp_insertJob {id : UUID} {type payload correlationId : String} {dedupeKey : Option String}
    {priority : ℤ} {maxAttempts : ℕ} {timeoutSeconds : ℤ} {availableAt : Instant} :
    wp (insertJob id type payload correlationId dedupeKey priority maxAttempts timeoutSeconds availableAt)
      (fun _ => JobEffects db) () db := by
  have hnew : ∀ job : Job, job.id = id → job.attempts = 0 →
      JobEffects db { db with jobs := (db.jobs.insert job).getD db.jobs } := by
    intro job hid h0
    cases hi : db.jobs.insert job with
    | none => exact .refl
    | some t =>
      have hfresh : db.counter id = none := by
        rw [JobDb.counter, Table.find?_eq_none.2 (by rw [← hid]; exact (Table.insert_eq_some.1 hi).1)]
        rfl
      refine .single (.inserted id hfresh (fun k => ?_) fun _ _ => Iff.rfl)
      show (t.find? k).map _ = _
      split
      · rename_i hk
        rw [Table.find?_eq_some.2 ⟨(Table.mem_insert hi).2 (.inr rfl), hid.trans hk.symm⟩,
          Option.map_some, h0]
      · rename_i hk
        rw [Table.find?_insert hi (by rw [hid]; exact hk)]
        rfl
  simp only [insertJob, Txn.when, wp_bind, wp_get, wp_ite, wp_modify, wp_pure]
  cases dedupeKey with
  | none => exact ⟨fun _ => wp_pure.2 (hnew _ rfl rfl), fun _ => wp_pure.2 .refl⟩
  | some key =>
    simp only [wp_bind, wp_get, wp_orThrow, wp_pure]
    exact ⟨fun _ _ _ => hnew _ rfl rfl, fun _ _ _ => .refl⟩

/-- The operations except the retry. -/
theorem wp_jobOp {op : JobOp} (hop : ∀ id now, op ≠ .retry id now) :
    wp op.perform (fun _ => JobEffects db) () db := by
  cases op with
  | insert => exact wp_discard wp_insertJob
  | claim c => exact wp_discard (wp_bind.2 (wp_get.2 (wp_claimLoop _ _ _)))
  | heartbeat => exact wp_discard (wp_updateJob_kept fun _ => ⟨rfl, rfl⟩)
  | complete => exact wp_discard (wp_leave fun _ => ⟨rfl, rfl⟩)
  | fail => exact wp_discard (wp_leave fun _ => ⟨rfl, rfl⟩)
  | cancelled => exact wp_discard (wp_leave fun _ => ⟨rfl, rfl⟩)
  | requestCancellation id =>
    refine wp_discard (wp_bind.2 (wp_mono (wp_updateJob_kept fun _ => ⟨rfl, rfl⟩) fun queued db₁ h₁ => ?_))
    refine wp_ite.2 ⟨fun _ => wp_pure.2 h₁, fun _ => ?_⟩
    exact wp_mono (wp_updateJob_kept fun _ => ⟨rfl, rfl⟩) fun _ _ h => h₁.trans h
  | retry id now => exact absurd rfl (hop id now)

/-- Whether the job is dead or cancelled: only then `retry` takes it. -/
def JobDb.Ended (db : JobDb) (id : UUID) : Prop :=
  ∃ j ∈ db.jobs, j.id = id ∧ (j.status = .dead ∨ j.status = .cancelled)

/-- A retry does nothing to a job that is not dead or cancelled; otherwise it sets the counter of the job
back, and leaves the history. -/
theorem step_retry (db : JobDb) (id : UUID) (now : Instant) :
    (db.step (.retry id now) = db ∧ ¬ db.Ended id) ∨
    db.Ended id ∧ (∀ k, (db.step (.retry id now)).counter k = if k = id then some 0 else db.counter k) ∧
      (db.step (.retry id now)).attempts = db.attempts := by
  rcases updateJob_run id (fun j => j.status = .dead ∨ j.status = .cancelled)
    (fun j => { j with status := .retry, attempts := 0, availableAt := now })
      db with ⟨j, hj, rfl, hended, hrun⟩ | ⟨hno, hrun⟩
  · have hstep : db.step (.retry j.id now) = _ := commit_discard_of_ok hrun
    rw [hstep]
    refine .inr ⟨⟨j, hj, rfl, hended⟩, ?_, rfl⟩
    exact @JobDb.counter_save db _ j { j with status := .retry, attempts := 0, availableAt := now } hj rfl rfl
  · refine .inl ⟨commit_discard_of_ok hrun, ?_⟩
    rintro ⟨j, hj, hid, hended⟩
    exact hno j hj hid hended

end effects

/-! ### Runs -/

/-- What every run keeps of the histories: an attempt belongs to a job, and the numbers start at one. -/
structure Histories (db : JobDb) : Prop where
  known : ∀ id n, db.Numbered id n → db.counter id ≠ none ∧ db.Numbered id 1
  started : ∀ id m, db.counter id = some m → 0 < m → db.Numbered id 1

/-- No attempt of a job has a number beyond the counter of the job. -/
def InStep (db : JobDb) : Prop := ∀ id n, db.Numbered id n → ∃ m, db.counter id = some m ∧ n ≤ m

section runs

variable {db db' : JobDb}

theorem JobDb.not_numbered_empty {id : UUID} {n : ℕ} : ¬ JobDb.empty.Numbered id n := by
  rintro ⟨a, ha, -⟩
  exact Table.not_mem_empty ha

theorem Histories.empty : Histories .empty :=
  ⟨fun _ _ h => absurd h JobDb.not_numbered_empty, fun _ _ h =>
    absurd h (by simp [JobDb.counter, JobDb.empty, Table.empty, Table.find?])⟩

theorem InStep.empty : InStep .empty := fun _ _ h => absurd h JobDb.not_numbered_empty

theorem Histories.effect (h : Histories db) (e : JobEffect db db') : Histories db' := by
  cases e with
  | kept hc hn =>
    refine ⟨fun id n hk => ?_, fun id m hm h0 => (hn id 1).2 (h.started id m ((hc id).symm.trans hm) h0)⟩
    rw [hc, hn]
    exact h.known id n ((hn id n).1 hk)
  | inserted id hnew hc hn =>
    refine ⟨fun k n hk => ?_, fun k m hm h0 => ?_⟩
    · obtain ⟨hk, h1⟩ := h.known k n ((hn k n).1 hk)
      rw [hc, hn]
      split
      · exact ⟨by simp, h1⟩
      · exact ⟨hk, h1⟩
    · rw [hc] at hm
      split at hm
      · obtain rfl := Option.some.inj hm
        exact absurd h0 (lt_irrefl 0)
      · exact (hn k 1).2 (h.started k m hm h0)
  | claimed id m hold hc hn =>
    have hone : db'.Numbered id 1 := by
      rw [hn]
      rcases Nat.eq_zero_or_pos m with rfl | h0
      · exact .inr ⟨rfl, rfl⟩
      · exact .inl (h.started id m hold h0)
    refine ⟨fun k n hk => ?_, fun k m' hm h0 => ?_⟩
    · rw [hc]
      by_cases hki : k = id
      · rw [if_pos hki, hki]
        exact ⟨by simp, hone⟩
      · rw [if_neg hki]
        rcases (hn k n).1 hk with hk | ⟨he, -⟩
        · exact ⟨(h.known k n hk).1, (hn k 1).2 (.inl (h.known k n hk).2)⟩
        · exact absurd he hki
    · by_cases hki : k = id
      · rw [hki]
        exact hone
      · rw [hc, if_neg hki] at hm
        exact (hn k 1).2 (.inl (h.started k m' hm h0))

theorem InStep.effect (h : InStep db) (e : JobEffect db db') : InStep db' := by
  cases e with
  | kept hc hn =>
    intro id n hk
    rw [hc]
    exact h id n ((hn id n).1 hk)
  | inserted id hnew hc hn =>
    intro k n hk
    obtain ⟨m, hm, hle⟩ := h k n ((hn k n).1 hk)
    refine ⟨m, ?_, hle⟩
    rw [hc, if_neg, hm]
    rintro rfl
    rw [hnew] at hm
    cases hm
  | claimed id m hold hc hn =>
    intro k n hk
    rw [hc]
    rcases (hn k n).1 hk with hk | ⟨rfl, rfl⟩
    · obtain ⟨m', hm', hle⟩ := h k n hk
      split
      · rename_i hki
        rw [hki, hold] at hm'
        obtain rfl := Option.some.inj hm'
        exact ⟨m + 1, rfl, hle.trans (Nat.le_succ m)⟩
      · exact ⟨m', hm', hle⟩
    · exact ⟨m + 1, if_pos rfl, le_rfl⟩

theorem JobDb.numbered_congr (h : db'.attempts = db.attempts) (id : UUID) (n : ℕ) :
    db'.Numbered id n ↔ db.Numbered id n := by
  rw [Numbered, h, Numbered]

theorem Histories.step (h : Histories db) (op : JobOp) : Histories (db.step op) := by
  by_cases hop : ∃ id now, op = .retry id now
  · obtain ⟨id, now, rfl⟩ := hop
    rcases step_retry db id now with ⟨hs, -⟩ | ⟨-, hc, ha⟩
    · rw [hs]
      exact h
    · have hn := JobDb.numbered_congr ha
      refine ⟨fun k n hk => ?_, fun k m' hm' h0 => ?_⟩
      · obtain ⟨hk, h1⟩ := h.known k n ((hn k n).1 hk)
        rw [hc, hn]
        split
        · exact ⟨by simp, h1⟩
        · exact ⟨hk, h1⟩
      · rw [hc] at hm'
        split at hm'
        · obtain rfl := Option.some.inj hm'
          exact absurd h0 (lt_irrefl 0)
        · exact (hn k 1).2 (h.started k m' hm' h0)
  · have hwp := @wp_jobOp db op fun id now h => hop ⟨id, now, h⟩
    refine commit_of_wp h (wp_mono hwp fun _ db' e => ?_)
    induction e with
    | refl => exact h
    | tail _ e ih => exact ih.effect e

/-- A retry that the code refuses, or of a job that no worker has taken, keeps the numbers in step. -/
theorem InStep.step (h : InStep db) {op : JobOp}
    (hop : ∀ id now, op = .retry id now → db.Ended id → ∀ n, ¬ db.Numbered id n) : InStep (db.step op) := by
  by_cases hretry : ∃ id now, op = .retry id now
  · obtain ⟨id, now, rfl⟩ := hretry
    rcases step_retry db id now with ⟨hs, -⟩ | ⟨hended, hc, ha⟩
    · rw [hs]
      exact h
    · intro k n hk
      rw [JobDb.numbered_congr ha] at hk
      rw [hc, if_neg]
      · exact h k n hk
      · rintro rfl
        exact hop k now rfl hended n hk
  · have hwp := @wp_jobOp db op fun id now h => hretry ⟨id, now, h⟩
    refine commit_of_wp h (wp_mono hwp fun _ db' e => ?_)
    induction e with
    | refl => exact h
    | tail _ e ih => exact ih.effect e

/-- In the run from `db`, only jobs that no worker has taken are retried. A retry of a job that is neither
dead nor cancelled does nothing, and is not asked of. -/
def RetriesUntaken : JobDb → List JobOp → Prop
  | _, [] => True
  | db, op :: ops =>
    (∀ id now, op = .retry id now → db.Ended id → ∀ n, ¬ db.Numbered id n) ∧ RetriesUntaken (db.step op) ops

theorem InStep.run (h : InStep db) {ops : List JobOp} (hops : RetriesUntaken db ops) :
    InStep (db.run ops) := by
  induction ops generalizing db with
  | nil => exact h
  | cons op ops ih => exact ih (h.step hops.1) hops.2

theorem Histories.run (h : Histories db) (ops : List JobOp) : Histories (db.run ops) := by
  induction ops generalizing db with
  | nil => exact h
  | cons op ops ih => exact ih (h.step op)

theorem JobDb.mem_of_mem_taken {c : Claim} {j : Job} (h : j ∈ db.taken c) : j ∈ db.jobs := by
  have hc : j ∈ db.candidates c.now := Claim.mem_of_mem_takes h
  exact (List.mem_filter.1 ((List.perm_insertionSort _ _).mem_iff.1 hc)).1

theorem JobDb.nextFree_iff {j : Job} : db.NextFree j ↔ ¬ db.Numbered j.id (j.attempts + 1) :=
  ⟨fun h hn => hn.elim fun a ha => h a ha.1 ha.2, fun h a ha hn => h ⟨a, ha, hn⟩⟩

theorem InStep.nextFree (h : InStep db) {j : Job} (hj : j ∈ db.jobs) : db.NextFree j := by
  rw [JobDb.nextFree_iff]
  intro hn
  obtain ⟨m, hm, hle⟩ := h _ _ hn
  rw [JobDb.counter_eq hj] at hm
  obtain rfl := Option.some.inj hm
  omega

/-- While only jobs are retried that no worker has taken, every claim takes the first due jobs. After any run
a claim succeeds exactly if the next numbers of all the jobs that it takes are free, and after the retry of a
job with attempts no claim that would take the job succeeds. -/
theorem claim_after_retries (ops : List JobOp) :
    (RetriesUntaken .empty ops → ∀ c, ∃ db', (claim c).run () (JobDb.empty.run ops) =
      .ok (((JobDb.empty.run ops).taken c).map c.record, db')) ∧
    (∀ c, (∃ r, (claim c).run () (JobDb.empty.run ops) = .ok r) ↔
      ∀ j ∈ (JobDb.empty.run ops).taken c, ∀ a ∈ (JobDb.empty.run ops).attempts,
        ¬ (a.jobId = j.id ∧ a.attemptNumber = j.attempts + 1)) ∧
    ∀ id now, (JobDb.empty.run ops).Ended id →
      (∃ a ∈ (JobDb.empty.run ops).attempts, a.jobId = id) → ∀ c,
      (∃ j ∈ ((JobDb.empty.run ops).step (.retry id now)).taken c, j.id = id) →
      (claim c).run () ((JobDb.empty.run ops).step (.retry id now)) = .error .dataIntegrity := by
  refine ⟨fun hops c => ?_, fun c => ?_, fun id now hdead ha c htaken => ?_⟩
  · have hstep := InStep.empty.run hops
    rcases claim_run c (JobDb.empty.run ops) with ⟨-, db', hrun⟩ | ⟨⟨j, hj, hn⟩, -⟩
    · exact ⟨db', hrun⟩
    · exact absurd (hstep.nextFree (JobDb.mem_of_mem_taken hj)) hn
  · rcases claim_run c (JobDb.empty.run ops) with ⟨hfree, db', hrun⟩ | ⟨⟨j, hj, hn⟩, hrun⟩
    · exact ⟨fun _ => hfree, fun _ => ⟨_, hrun⟩⟩
    · constructor
      · rintro ⟨r, hr⟩
        rw [hrun] at hr
        cases hr
      · exact fun h => absurd (h j hj) hn
  · obtain ⟨j, hj, hid⟩ := htaken
    obtain ⟨a, ha, haid⟩ := ha
    have hist := Histories.empty.run ops
    rcases step_retry (JobDb.empty.run ops) id now with ⟨-, hno⟩ | ⟨-, hc, hat⟩
    · exact absurd hdead hno
    · -- the first attempt is still there, and the counter is back at zero
      have hone : ((JobDb.empty.run ops).step (.retry id now)).Numbered id 1 :=
        (JobDb.numbered_congr hat id 1).2 (hist.known id a.attemptNumber ⟨a, ha, haid, rfl⟩).2
      have hzero : j.attempts = 0 := by
        have hcounter := JobDb.counter_eq (JobDb.mem_of_mem_taken hj)
        rw [hid, hc id, if_pos rfl] at hcounter
        exact (Option.some.inj hcounter).symm
      have hn : ¬ ((JobDb.empty.run ops).step (.retry id now)).NextFree j := by
        rw [JobDb.nextFree_iff, not_not, hid, hzero]
        exact hone
      rcases claim_run c ((JobDb.empty.run ops).step (.retry id now)) with ⟨hfree, -⟩ | ⟨-, hrun⟩
      · exact absurd (hfree j hj) hn
      · exact hrun

/-! Two queues: in `Retried.ops` the job `1` dies in its first attempt and is retried, and then the job `2`
comes; in `Retried.untaken` the job `1` was cancelled before a worker took it. -/

/-- The poll of a worker at `now`. -/
def Retried.poll (now : Instant) : Claim :=
  { workerId := "worker", tokens := fun job => 10 * job, locked := fun _ => false, limit := 10, now,
    leaseSeconds := 60 }

def Retried.first : JobRecord :=
  { id := 1, type := "REPORT", payload := "{}", correlationId := "c", attempt := 1, maxAttempts := 1,
    timeoutSeconds := 30,
    leaseToken := some 10, leaseExpiresAt := some (Instant.plusSeconds 1 60) }

def Retried.ops : List JobOp :=
  [.insert 1 "REPORT" "{}" "c" none 0 1 30 0, .claim (Retried.poll 1), .fail Retried.first 2 .failed,
    .retry 1 3, .insert 2 "REPORT" "{}" "c" none 0 1 30 4]

def Retried.untaken : List JobOp :=
  [.insert 1 "REPORT" "{}" "c" none 0 1 30 0, .requestCancellation 1, .retry 1 3,
    .insert 2 "REPORT" "{}" "c" none 0 1 30 4]

theorem claim_after_retry_untaken :
    ((JobDb.empty.run Retried.untaken).taken (Retried.poll 5)).map (·.id) = [1, 2] ∧
      ∃ db', (claim (Retried.poll 5)).run () (JobDb.empty.run Retried.untaken) =
        .ok (((JobDb.empty.run Retried.untaken).taken (Retried.poll 5)).map
          (Retried.poll 5).record, db') := by
  refine ⟨by decide +kernel, (claim_after_retries Retried.untaken).1 ?_ (Retried.poll 5)⟩
  refine ⟨fun _ _ h => ?_, fun _ _ h => ?_, fun k _ h _ n hn => ?_, fun _ _ h => ?_, trivial⟩
  · cases h
  · cases h
  · obtain ⟨a, ha, -⟩ := hn
    have hnone : (((JobDb.empty.step (.insert 1 "REPORT" "{}" "c" none 0 1 30 0)).step
        (.requestCancellation 1)).attempts).rows = [] := rfl
    rw [← Table.mem_rows, hnone] at ha
    cases ha
  · cases h

/-- Both jobs are due, and no poll gets either. -/
theorem claim_fails_after_retry :
    ((JobDb.empty.run Retried.ops).candidates 5).map (·.id) = [1, 2] ∧
      (claim (Retried.poll 5)).run () (JobDb.empty.run Retried.ops) = .error .dataIntegrity ∧
      (claim (Retried.poll 50)).run () ((JobDb.empty.run Retried.ops).step (.claim (Retried.poll 5))) =
        .error .dataIntegrity := by
  refine ⟨?_, ?_, ?_⟩
  · decide +kernel
  · rfl
  · rfl

end runs

end GManager
