import GManager.Jobs

/-!
# What happens to a job

Each operation of the store is a sequence of events, and an event is about one job. Either the job is new, or
a guarded update writes over its row and perhaps ends its running attempt (`JobWrite`), or a claim starts its
next attempt. The lemmas below say this of every operation once, so that what holds in all runs of the tables
is shown event by event.
-/

namespace GManager

open Txn

/-- The guarded updates of one row of `background_jobs`. -/
inductive JobWrite
  | renew (expiry : Instant)
  | complete
  | fail (dead : Bool) (retryAt : Instant) (ending : JobAttemptStatus)
  | cancel
  | withdraw
  | ask
  | retry (now : Instant)

namespace JobWrite

/-- The statuses that the update accepts. -/
def accepts : JobWrite → List JobStatus
  | renew _ | complete | ask => [.running]
  | fail _ _ _ | cancel => [.running, .cancelRequested]
  | withdraw => [.queued, .retry]
  | retry _ => [.dead, .cancelled]

def apply : JobWrite → Job → Job
  | renew expiry, j => { j with leaseExpiresAt := some expiry }
  | complete, j => j.release .completed
  | fail dead retryAt _, j => { j.release (if dead then .dead else .retry) with availableAt := retryAt }
  | cancel, j => j.release .cancelled
  | withdraw, j => { j with status := .cancelled }
  | ask, j => { j with status := .cancelRequested }
  | retry now, j => { j with status := .retry, attempts := 0, availableAt := now }

/-- How the update ends the running attempt, if it does. -/
def ending : JobWrite → Option JobAttemptStatus
  | complete => some .completed
  | fail _ _ ending => some ending
  | cancel => some .cancelled
  | renew _ | withdraw | ask | retry _ => none

theorem apply_id (w : JobWrite) (j : Job) : (w.apply j).id = j.id := by cases w <;> rfl

end JobWrite

/-- The attempts after the one that runs under the lease of `j`, if there is one, has ended with `status`. -/
def JobDb.closing (db : JobDb) (j : Job) (ending : Option JobAttemptStatus) :
    Table fun a : JobAttempt => (a.jobId, a.attemptNumber) := match ending, j.leaseToken with
  | some status, some token => db.attempts.edit (·.finish j.id token status) (JobAttempt.finish_key _ _ _)
  | _, _ => db.attempts

inductive JobEvent
  | insert (j : Job)
  | write (j : Job) (w : JobWrite)
  | claim (j : Job) (c : Claim)

namespace JobEvent

def id : JobEvent → UUID
  | insert j | write j _ | claim j _ => j.id

/-- The row of the job afterwards. -/
def after : JobEvent → Job
  | insert j => j
  | write j w => w.apply j
  | claim j c => c.run j

/-- What a worker gets. -/
def record : JobEvent → Option JobRecord
  | claim j c => some (c.record j)
  | insert _ | write _ _ => none

theorem after_id (e : JobEvent) : e.after.id = e.id := by
  cases e with
  | insert j => rfl
  | write j w => exact w.apply_id j
  | claim j c => rfl

/-- The event happens in `db` and leaves `db'`. -/
inductive Occurs (db : JobDb) : JobEvent → JobDb → Prop
  | insert {j : Job} {t : Table Job.id} (hi : db.jobs.insert j = some t) (hstatus : j.status = .queued)
      (hattempts : j.attempts = 0) (hlease : j.leaseToken = none) :
      Occurs db (.insert j) { db with jobs := t }
  | write {j : Job} {w : JobWrite} (hj : j ∈ db.jobs) (hstatus : j.status ∈ w.accepts) :
      Occurs db (.write j w) ⟨db.jobs.save (w.apply j), db.closing j w.ending⟩
  | claim {j : Job} {c : Claim} {t : Table fun a : JobAttempt => (a.jobId, a.attemptNumber)}
      (hj : j ∈ db.jobs) (hdue : j.due c.now) (hcancel : j.cancellation = none)
      (ht : (db.closing j (some .leaseExpired)).insert ⟨j.id, j.attempts + 1, c.workerId, c.tokens j.id,
        .running⟩ = some t) :
      Occurs db (.claim j c) ⟨db.jobs.save (c.run j), t⟩

section occurs

variable {db db' : JobDb} {e : JobEvent}

/-- An event writes the row of its job and no other row. -/
theorem Occurs.find? (h : e.Occurs db db') (id : UUID) :
    db'.jobs.find? id = if id = e.id then some e.after else db.jobs.find? id := by
  have hsave : ∀ {j j' : Job}, j ∈ db.jobs → j'.id = j.id →
      (db.jobs.save j').find? id = if id = j.id then some j' else db.jobs.find? id := by
    intro j j' hj hid
    rw [Table.find?_save, hid]
    split
    · rename_i h
      rw [h, Table.find?_eq_some.2 ⟨hj, rfl⟩]
      rfl
    · rfl
  cases h with
  | insert hi =>
    split
    · rename_i h
      exact Table.find?_eq_some.2 ⟨(Table.mem_insert hi).2 (.inr rfl), h.symm⟩
    · rename_i h
      exact Table.find?_insert hi h
  | write hj => exact hsave hj (JobWrite.apply_id _ _)
  | claim hj => exact hsave hj rfl

theorem Occurs.mem_iff (h : e.Occurs db db') {j : Job} :
    j ∈ db'.jobs ↔ j = e.after ∨ j.id ≠ e.id ∧ j ∈ db.jobs := by
  have hfind : j ∈ db'.jobs ↔ db'.jobs.find? j.id = some j :=
    ⟨fun hj => Table.find?_eq_some.2 ⟨hj, rfl⟩, fun hj => (Table.find?_eq_some.1 hj).1⟩
  rw [hfind, h.find?]
  constructor
  · intro hj
    split at hj
    · exact .inl (Option.some.inj hj).symm
    · exact .inr ⟨‹_›, (Table.find?_eq_some.1 hj).1⟩
  · rintro (rfl | ⟨hid, hj⟩)
    · rw [if_pos e.after_id]
    · rw [if_neg hid]
      exact Table.find?_eq_some.2 ⟨hj, rfl⟩

theorem Occurs.after_mem (h : e.Occurs db db') : e.after ∈ db'.jobs := h.mem_iff.2 (.inl rfl)

end occurs

end JobEvent

/-- A sequence of events. -/
inductive JobEvents : JobDb → List JobEvent → JobDb → Prop
  | nil {db : JobDb} : JobEvents db [] db
  | cons {db db₁ db' : JobDb} {e : JobEvent} {es : List JobEvent} (h : e.Occurs db db₁)
      (hs : JobEvents db₁ es db') : JobEvents db (e :: es) db'

theorem JobEvents.append {db db₁ db' : JobDb} {es es' : List JobEvent} (h : JobEvents db es db₁)
    (h' : JobEvents db₁ es' db') : JobEvents db (es ++ es') db' := by
  induction h with
  | nil => exact h'
  | cons he _ ih => exact .cons he (ih h')

theorem JobEvents.single {db db' : JobDb} {e : JobEvent} (h : e.Occurs db db') :
    JobEvents db [e] db' := .cons h .nil

/-! ### The updates -/

/-- The update `w` of a job `id` with `p` was made and said so, or there was no such job. -/
def JobDb.Updated (db : JobDb) (id : UUID) (p : Job → Prop) (w : JobWrite) (b : Bool) (db' : JobDb) : Prop :=
  (b = true ∧ ∃ j ∈ db.jobs, j.id = id ∧ p j ∧ (JobEvent.write j w).Occurs db db') ∨
    (b = false ∧ db' = db ∧ ∀ j ∈ db.jobs, j.id = id → p j → j.status ∉ w.accepts)

section updates

variable {db : JobDb}

theorem JobDb.closing_none (j : Job) : db.closing j none = db.attempts := rfl

/-- A guarded update that ends no attempt. -/
theorem updateJob_updated {id : UUID} {p q : Job → Prop} [DecidablePred p] {f : Job → Job} (w : JobWrite)
    (hp : ∀ j, p j ↔ q j ∧ j.status ∈ w.accepts) (hf : ∀ j, f j = w.apply j) (hend : w.ending = none) :
    ∃ b db', (updateJob id p f).run () db = .ok (b, db') ∧ db.Updated id q w b db' := by
  rcases updateJob_run id p f db with ⟨j, hj, hid, hpj, hrun⟩ | ⟨hno, hrun⟩
  · refine ⟨_, _, hrun, .inl ⟨rfl, j, hj, hid, ((hp j).1 hpj).1, ?_⟩⟩
    have h := JobEvent.Occurs.write hj ((hp j).1 hpj).2
    rw [hend, JobDb.closing_none] at h
    rw [hf]
    exact h
  · exact ⟨_, _, hrun, .inr ⟨rfl, rfl, fun j hj hid hq hs => hno j hj hid ((hp j).2 ⟨hq, hs⟩)⟩⟩

theorem heartbeatJob_updated (id token : UUID) (now : Instant) (leaseSeconds : ℤ) :
    ∃ b db', (heartbeatJob id token now leaseSeconds).run () db = .ok (b, db') ∧
      db.Updated id (fun j => j.leaseToken = some token) (.renew (now.plusSeconds leaseSeconds)) b db' :=
  updateJob_updated _ (fun j => by simp [JobWrite.accepts]) (fun _ => rfl) rfl

theorem retryJob_updated (id : UUID) (now : Instant) :
    ∃ b db', (retryJob id now).run () db = .ok (b, db') ∧ db.Updated id (fun _ => True) (.retry now) b db' :=
  updateJob_updated _ (fun j => by simp [JobWrite.accepts]) (fun _ => rfl) rfl

/-- A report of a worker: it counts exactly if its token is the lease of the job. -/
theorem leave_updated {id : UUID} {token : Option UUID} {f : Job → Job} {status : JobAttemptStatus}
    (w : JobWrite) (hf : ∀ j, f j = w.apply j) (hend : w.ending = some status) :
    ∃ b db', (leave id token w.accepts f status).run () db = .ok (b, db') ∧
      db.Updated id (fun j => j.leaseToken.isSome ∧ j.leaseToken = token) w b db' := by
  rcases updateJob_run id (fun j => j.leaseToken.isSome ∧ j.leaseToken = token ∧ j.status ∈ w.accepts) f
    db with ⟨j, hj, hid, ⟨hsome, htoken, hs⟩, hrun⟩ | ⟨hno, hrun⟩
  · obtain ⟨k, hk⟩ := Option.isSome_iff_exists.1 hsome
    have h := JobEvent.Occurs.write hj hs
    refine ⟨true, ⟨db.jobs.save (w.apply j), db.closing j w.ending⟩, ?_,
      .inl ⟨rfl, j, hj, hid, ⟨hsome, htoken⟩, h⟩⟩
    have htok : token = some k := htoken.symm.trans hk
    subst htok
    unfold leave
    rw [run_bind_of_ok hrun, hf, hend]
    unfold JobDb.closing
    rw [hk, ← hid]
    rfl
  · refine ⟨false, db, ?_, .inr ⟨rfl, rfl, fun j hj hid hq hs => hno j hj hid ⟨hq.1, hq.2, hs⟩⟩⟩
    unfold leave
    rw [run_bind_of_ok hrun]
    cases token <;> rfl

theorem completeJob_updated (id token : UUID) : ∃ b db', (completeJob id token).run () db = .ok (b, db') ∧
    db.Updated id (fun j => j.leaseToken.isSome ∧ j.leaseToken = some token) .complete b db' :=
  leave_updated .complete (fun _ => rfl) rfl

theorem cancelledJob_updated (r : JobRecord) : ∃ b db', (cancelledJob r).run () db = .ok (b, db') ∧
    db.Updated r.id (fun j => j.leaseToken.isSome ∧ j.leaseToken = r.leaseToken) .cancel b db' :=
  leave_updated .cancel (fun _ => rfl) rfl

theorem failJob_updated (r : JobRecord) (retryAt : Instant) (status : JobAttemptStatus) :
    ∃ b db', (failJob r retryAt status).run () db = .ok (b, db') ∧
      db.Updated r.id (fun j => j.leaseToken.isSome ∧ j.leaseToken = r.leaseToken)
        (.fail (r.maxAttempts ≤ r.attempt) retryAt status) b db' :=
  leave_updated (.fail (r.maxAttempts ≤ r.attempt) retryAt status) (fun j => by simp [JobWrite.apply]) rfl

/-- A request is a withdrawal of a waiting job or asks the worker of a running one. -/
theorem requestCancellation_updated (id : UUID) : ∃ b db', (requestCancellation id).run () db = .ok (b, db') ∧
    (db.Updated id (fun _ => True) .withdraw b db' ∧ b = true ∨
      db.Updated id (fun _ => True) .ask b db') := by
  obtain ⟨b, db₁, hrun, h⟩ :=
    @updateJob_updated db id (fun j => j.status = .queued ∨ j.status = .retry) (fun _ => True) _
      (fun j => { j with status := .cancelled }) .withdraw (fun j => by simp [JobWrite.accepts])
        (fun _ => rfl) rfl
  cases b with
  | true => exact ⟨true, db₁, (run_bind_of_ok hrun).trans rfl, .inl ⟨h, rfl⟩⟩
  | false =>
    rcases h with ⟨h, -⟩ | ⟨-, rfl, -⟩
    · cases h
    · obtain ⟨b, db', hrun', h'⟩ := @updateJob_updated db₁ id (fun j => j.status = .running) (fun _ => True) _
        (fun j => { j with status := .cancelRequested }) .ask (fun j => by simp [JobWrite.accepts])
          (fun _ => rfl) rfl
      exact ⟨b, db', (run_bind_of_ok hrun).trans hrun', .inr h'⟩

end updates

/-! ### Insertions and claims -/

section claims

variable {c : Claim} {db : JobDb}

/-- A new row, unless its key is known. -/
theorem JobDb.insert_getD {j : Job} (hstatus : j.status = .queued) (hattempts : j.attempts = 0)
    (hlease : j.leaseToken = none) (db : JobDb) :
    { db with jobs := (db.jobs.insert j).getD db.jobs } = db ∨
      (JobEvent.insert j).Occurs db { db with jobs := (db.jobs.insert j).getD db.jobs } := by
  cases hi : db.jobs.insert j with
  | none => exact .inl rfl
  | some t => exact .inr (.insert hi hstatus hattempts hlease)

theorem wp_insertJob_event {id : UUID} {type payload correlationId : String} {dedupeKey : Option String}
    {priority : ℤ} {maxAttempts : ℕ} {timeoutSeconds : ℤ} {availableAt : Instant} :
    wp (insertJob id type payload correlationId dedupeKey priority maxAttempts timeoutSeconds availableAt)
      (fun _ db' => db' = db ∨ ∃ j, j.id = id ∧ j.maxAttempts = maxAttempts ∧
        (JobEvent.insert j).Occurs db db') () db := by
  have hnew : ∀ j : Job, j.id = id → j.maxAttempts = maxAttempts → j.status = .queued → j.attempts = 0 →
      j.leaseToken = none → ({ db with jobs := (db.jobs.insert j).getD db.jobs } = db ∨
      ∃ j', j'.id = id ∧ j'.maxAttempts = maxAttempts ∧
        (JobEvent.insert j').Occurs db { db with jobs := (db.jobs.insert j).getD db.jobs }) :=
    fun j hid hmax hs h0 hl => (JobDb.insert_getD hs h0 hl db).imp_right fun h => ⟨j, hid, hmax, h⟩
  simp only [insertJob, Txn.when, wp_bind, wp_get, wp_ite, wp_modify, wp_pure]
  cases dedupeKey with
  | none => exact ⟨fun _ => wp_pure.2 (hnew _ rfl rfl rfl rfl rfl), fun _ => wp_pure.2 (.inl rfl)⟩
  | some key =>
    simp only [wp_bind, wp_get, wp_orThrow, wp_pure]
    exact ⟨fun _ _ _ => hnew _ rfl rfl rfl rfl rfl, fun _ _ _ => .inl trivial⟩

theorem Job.cancellation_eq_some {j : Job} {token : UUID} :
    j.cancellation = some token ↔ j.status = .cancelRequested ∧ j.leaseToken = some token := by
  unfold cancellation
  split
  · simp [*]
  · simp [*]

/-- A job whose lease has run out while its cancellation was requested is cancelled. -/
theorem cancelExpired_event {j : Job} {token : UUID} (hj : j ∈ db.jobs) (hc : j.cancellation = some token) :
    ∃ db', (cancelExpired j token).run () db = .ok ((), db') ∧ (JobEvent.write j .cancel).Occurs db db' := by
  obtain ⟨hs, ht⟩ := Job.cancellation_eq_some.1 hc
  refine ⟨⟨db.jobs.save (j.release .cancelled), db.closing j (some .cancelled)⟩, ?_,
    .write hj (by simp [JobWrite.accepts, hs])⟩
  rcases updateJob_run j.id (fun j => j.leaseToken = some token ∧ j.status = .cancelRequested)
    (Job.release .cancelled) db
    with ⟨x, hx, hid, -, hrun⟩ | ⟨hno, -⟩
  · obtain rfl := Table.eq_of_key hx hj hid
    unfold cancelExpired JobDb.closing
    rw [run_bind_of_ok hrun, ht]
    rfl
  · exact absurd ⟨ht, hs⟩ (hno j hj rfl)

theorem wp_claimOne_event {j : Job} (hj : j ∈ db.jobs) (hdue : j.due c.now) (hc : j.cancellation = none) :
    wp (claimOne c j) (fun r db' => r = c.record j ∧ (JobEvent.claim j c).Occurs db db') () db := by
  have hfirst : wp (ifPresent j.leaseToken fun token => finishAttempt j.id token .leaseExpired)
      (fun _ db₁ => db₁ = ⟨db.jobs, db.closing j (some .leaseExpired)⟩) () db := by
    unfold JobDb.closing
    cases j.leaseToken with
    | none => exact wp_pure.2 rfl
    | some token => exact wp_modify.2 rfl
  refine wp_bind.2 (wp_mono hfirst fun _ db₁ h₁ => ?_)
  subst h₁
  simp only [insertAttempt, wp_bind, wp_get, wp_modify, wp_orThrow, wp_pure]
  exact fun t ht => ⟨trivial, .claim hj hdue hc ht⟩

/-- The events of a claim that goes through the candidates `js`. -/
def Claim.Does (c : Claim) (js : List Job) (e : JobEvent) : Prop :=
  ∃ j ∈ js, (e = .claim j c ∧ j.due c.now ∧ j.cancellation = none) ∨ e = .write j .cancel ∧
    j.cancellation.isSome

/-- The loop claims candidates as they are, or cancels them. -/
theorem wp_claimLoop_events (js : List Job) :
    ∀ (claimed : List JobRecord) (db : JobDb), (js.map (·.id)).Nodup → (∀ j ∈ js, j ∈ db.jobs) →
    wp (claimLoop c (js.map (·.id)) claimed) (fun rs db' => ∃ es, JobEvents db es db' ∧
      rs = claimed ++ es.filterMap JobEvent.record ∧ ∀ e ∈ es, c.Does js e) () db := by
  induction js with
  | nil =>
    intro claimed db _ _
    exact wp_pure.2 ⟨[], .nil, by simp, fun e he => absurd he List.not_mem_nil⟩
  | cons j js ih =>
    intro claimed db hnodup hmem
    obtain ⟨hnot, hnodup⟩ := List.nodup_cons.1 hnodup
    have hj : j ∈ db.jobs := hmem j List.mem_cons_self
    have hfind : db.jobs.find? j.id = some j := Table.find?_eq_some.2 ⟨hj, rfl⟩
    have hrest : ∀ {db' : JobDb} {e : JobEvent}, e.Occurs db db' → e.id = j.id → ∀ x ∈ js, x ∈ db'.jobs := by
      intro db' e he hid x hx
      refine he.mem_iff.2 (.inr ⟨fun h => hnot (List.mem_map.2 ⟨x, hx, h.trans hid⟩),
        hmem x (List.mem_cons_of_mem _ hx)⟩)
    have hweak : ∀ {es : List JobEvent}, (∀ e ∈ es, c.Does js e) → ∀ e ∈ es, c.Does (j :: js) e := by
      intro es hes e he
      obtain ⟨x, hx, h⟩ := hes e he
      exact ⟨x, List.mem_cons_of_mem _ hx, h⟩
    have hadd : ∀ {es : List JobEvent} {e : JobEvent}, c.Does (j :: js) e → (∀ x ∈ es, c.Does js x) →
        ∀ x ∈ e :: es, c.Does (j :: js) x := by
      intro es e he hes x hx
      rcases List.mem_cons.1 hx with rfl | hx
      · exact he
      · exact hweak hes x hx
    simp only [List.map_cons, claimLoop, wp_ite, wp_pure, wp_bind, wp_get, hfind]
    refine ⟨fun _ => ⟨[], .nil, by simp, fun e he => absurd he List.not_mem_nil⟩, fun _ => ?_⟩
    split
    · refine wp_mono (ih claimed db hnodup fun x hx => hmem x (List.mem_cons_of_mem _ hx)) ?_
      rintro rs db' ⟨es, hes, hrs, hdoes⟩
      exact ⟨es, hes, hrs, hweak hdoes⟩
    · rename_i x hx
      obtain ⟨hx, hguard⟩ := Option.filter_eq_some_iff.1 hx
      obtain rfl := Option.some.inj hx
      obtain ⟨hdue, -⟩ := of_decide_eq_true hguard
      split
      · rename_i token hcan
        obtain ⟨db₁, hrun, hev⟩ := cancelExpired_event hj hcan
        refine wp_bind.2 (wp_of_run hrun (wp_mono (ih claimed db₁ hnodup (hrest hev rfl)) ?_))
        rintro rs db' ⟨es, hes, hrs, hdoes⟩
        refine ⟨_ :: es, .cons hev hes, hrs, hadd ⟨j, List.mem_cons_self, .inr ⟨rfl, by simp [hcan]⟩⟩ hdoes⟩
      · rename_i hcan
        refine wp_bind.2 (wp_mono (wp_claimOne_event hj hdue hcan) ?_)
        rintro r db₁ ⟨rfl, hev⟩
        refine wp_mono (ih _ db₁ hnodup (hrest hev rfl)) ?_
        rintro rs db' ⟨es, hes, hrs, hdoes⟩
        refine ⟨_ :: es, .cons hev hes, ?_, hadd ⟨j, List.mem_cons_self, .inl ⟨rfl, hdue, hcan⟩⟩ hdoes⟩
        rw [hrs, List.append_assoc]
        rfl

theorem wp_claim_events (c : Claim) (db : JobDb) : wp (claim c) (fun rs db' => ∃ es, JobEvents db es db' ∧
    rs = es.filterMap JobEvent.record ∧ ∀ e ∈ es, c.Does (db.candidates c.now) e) () db := by
  have hperm :=
    List.perm_insertionSort (fun a b => a.before b = true) (db.jobs.rows.filter fun j => j.due c.now)
  have hnodup : ((db.candidates c.now).map (·.id)).Nodup :=
    (hperm.map _).nodup_iff.2 (db.jobs.nodup.sublist (List.filter_sublist.map _))
  exact wp_bind.2 (wp_get.2 (wp_claimLoop_events _ [] db hnodup fun j hj =>
    (List.mem_filter.1 (hperm.mem_iff.1 hj)).1))

end claims

/-! ### Operations -/

/-- The event may be one of the operation's: only a report of a failure fails a job, and
only a retry retries one. -/
def JobOp.Makes (op : JobOp) : JobEvent → Prop
  | .write j (.fail _ _ ending) => ∃ r retryAt, r.id = j.id ∧ op = .fail r retryAt ending
  | .write j (.retry now) => op = .retry j.id now
  | _ => True

theorem JobDb.Updated.events {db db' : JobDb} {id : UUID} {p : Job → Prop} {w : JobWrite} {b : Bool}
    {op : JobOp} (h : db.Updated id p w b db') (hw : ∀ j, j.id = id → op.Makes (.write j w)) :
    ∃ es, JobEvents db es db' ∧ ∀ e ∈ es, op.Makes e := by
  rcases h with ⟨-, j, -, hid, -, hev⟩ | ⟨-, rfl, -⟩
  · exact ⟨_, .single hev, fun e he => (List.mem_singleton.1 he).symm ▸ hw j hid⟩
  · exact ⟨[], .nil, fun e he => absurd he List.not_mem_nil⟩

/-- Every operation is a sequence of events. -/
theorem step_events (db : JobDb) (op : JobOp) : ∃ es, JobEvents db es (db.step op) ∧
    ∀ e ∈ es, op.Makes e := by
  have hnone : ∃ es, JobEvents db es db ∧ ∀ e ∈ es, op.Makes e :=
    ⟨[], .nil, fun e he => absurd he List.not_mem_nil⟩
  have hdone : ∀ {x : JobTx Bool} {id : UUID} {p : Job → Prop} {w : JobWrite},
      (∃ b db', x.run () db = .ok (b, db') ∧ db.Updated id p w b db') →
      (∀ j, j.id = id → op.Makes (.write j w)) →
      ∃ es, JobEvents db es (x.discard.commit () db) ∧ ∀ e ∈ es, op.Makes e := by
    rintro x id p w ⟨b, db', hrun, h⟩ hw
    rw [commit_discard_of_ok hrun]
    exact h.events hw
  cases op with
  | insert id =>
    refine commit_of_wp (P := fun db' => ∃ es, JobEvents db es db' ∧ ∀ e ∈ es, JobOp.Makes _ e) hnone
      (wp_discard (wp_mono wp_insertJob_event ?_))
    rintro - db' (rfl | ⟨j, -, -, hev⟩)
    · exact hnone
    · exact ⟨_, .single hev, fun e he => (List.mem_singleton.1 he).symm ▸ trivial⟩
  | claim c =>
    refine commit_of_wp (P := fun db' => ∃ es, JobEvents db es db' ∧ ∀ e ∈ es, JobOp.Makes _ e) hnone
      (wp_discard (wp_mono (wp_claim_events c db) ?_))
    rintro rs db' ⟨es, hes, -, hdoes⟩
    refine ⟨es, hes, fun e he => ?_⟩
    obtain ⟨j, -, ⟨rfl, -⟩ | ⟨rfl, -⟩⟩ := hdoes e he
    · trivial
    · trivial
  | heartbeat id token now leaseSeconds =>
    exact hdone (heartbeatJob_updated id token now leaseSeconds) fun _ _ => trivial
  | complete id token => exact hdone (completeJob_updated id token) fun _ _ => trivial
  | fail r retryAt status => exact hdone (failJob_updated r retryAt status) fun j hid =>
      ⟨r, retryAt, hid.symm, rfl⟩
  | cancelled r => exact hdone (cancelledJob_updated r) fun _ _ => trivial
  | requestCancellation id =>
    obtain ⟨b, db', hrun, ⟨h, -⟩ | h⟩ := @requestCancellation_updated db id
    · exact hdone ⟨b, db', hrun, h⟩ fun _ _ => trivial
    · exact hdone ⟨b, db', hrun, h⟩ fun _ _ => trivial
  | retry id now => exact hdone (retryJob_updated id now) fun j hid => by rw [JobOp.Makes, hid]

/-- What every event of an operation keeps, the operation keeps. -/
theorem step_induct {P : JobDb → Prop} {op : JobOp}
    (h : ∀ {db e db'}, op.Makes e → JobEvent.Occurs db e db' → P db → P db') {db : JobDb} (hdb : P db) :
    P (db.step op) := by
  obtain ⟨es, hes, hop⟩ := step_events db op
  generalize db.step op = db' at hes
  induction hes with
  | nil => exact hdb
  | cons he _ ih =>
    exact ih (h (hop _ List.mem_cons_self) he hdb) fun e he => hop e (List.mem_cons_of_mem _ he)

end GManager
