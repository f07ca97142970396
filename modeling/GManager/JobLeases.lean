import GManager.JobEvents

/-!
# Leases of jobs

A worker holds a job by the token of its lease. `Leased` is what keeps workers apart: a job has a token
exactly while it runs, the token is that of its only running attempt, and no other attempt runs. Every event
keeps it, so a report under any other token finds no row, and a job that has come to its end changes only by
an operator's retry.
-/

namespace GManager

open Txn

/-- The running attempts of a job. -/
def JobDb.running (db : JobDb) (id : UUID) : List JobAttempt :=
  db.attempts.rows.filter fun a => a.jobId = id ∧ a.status = .running

def JobStatus.held (status : JobStatus) : Prop := status = .running ∨ status = .cancelRequested

structure Leased (db : JobDb) : Prop where
  status : ∀ j ∈ db.jobs, j.leaseToken.isSome ↔ j.status.held
  running : ∀ j ∈ db.jobs, (db.running j.id).map (·.leaseToken) = j.leaseToken.toList
  known : ∀ a ∈ db.attempts, ∃ j ∈ db.jobs, j.id = a.jobId

section events

variable {db db' : JobDb} {e : JobEvent} {op : JobOp}

/-- A report ends the attempts that run under its token, and no others. -/
theorem running_finish (id token : UUID) {status : JobAttemptStatus} (hs : status ≠ .running) (k : UUID)
    (rows : List JobAttempt) :
    ((rows.map (·.finish id token status)).filter fun a => a.jobId = k ∧ a.status = .running) =
      (rows.filter fun a => a.jobId = k ∧ a.status = .running).filter fun a =>
      ¬ (a.jobId = id ∧ a.leaseToken = token) := by
  induction rows with
  | nil => rfl
  | cons a rows ih =>
    rw [List.map_cons, List.filter_cons, List.filter_cons, ih]
    by_cases h : a.jobId = id ∧ a.leaseToken = token ∧ a.status = .running
    · have hf : a.finish id token status = { a with status } := if_pos h
      have hn : ¬ (a.jobId = k ∧ (a.finish id token status).status = .running) := by
        rw [hf]
        exact fun hn => hs hn.2
      have hkey : (a.finish id token status).jobId = a.jobId := by rw [hf]
      rw [hkey, if_neg (by simpa using hn)]
      split
      · rw [List.filter_cons_of_neg (by simp [h.1, h.2.1])]
      · rfl
    · have hf : a.finish id token status = a := if_neg h
      rw [hf]
      split
      · rename_i hk
        have hr : a.status = .running := (of_decide_eq_true hk).2
        have hn : ¬ (a.jobId = id ∧ a.leaseToken = token) := fun hn => h ⟨hn.1, hn.2, hr⟩
        rw [List.filter_cons, if_pos (decide_eq_true hn)]
      · rfl

theorem JobDb.closing_of_none {j : Job} {ending : Option JobAttemptStatus} (h : j.leaseToken = none) :
    db.closing j ending = db.attempts := by
  unfold closing
  rw [h]
  cases ending <;> rfl

theorem JobDb.closing_of_some {j : Job} {status : JobAttemptStatus} {token : UUID}
    (h : j.leaseToken = some token) : db.closing j (some status) = db.attempts.edit
      (·.finish j.id token status) (JobAttempt.finish_key _ _ _) := by
  unfold closing
  rw [h]

/-- After the running attempt of `j` has ended, none of its attempts runs; those of
other jobs are as before. -/
theorem Leased.running_closing (h : Leased db) {j : Job} (hj : j ∈ db.jobs) {status : JobAttemptStatus}
    (hs : status ≠ .running) (jobs : Table Job.id) (k : UUID) :
    (JobDb.mk jobs (db.closing j (some status))).running k = if k = j.id then [] else db.running k := by
  have hrun := h.running j hj
  cases ht : j.leaseToken with
  | none =>
    rw [ht] at hrun
    rw [JobDb.closing_of_none ht]
    show db.running k = _
    split
    · rename_i hk
      rw [hk]
      exact List.map_eq_nil_iff.1 hrun
    · rfl
  | some token =>
    rw [ht] at hrun
    rw [JobDb.closing_of_some ht]
    refine (running_finish j.id token hs k db.attempts.rows).trans ?_
    show (db.running k).filter _ = _
    split
    · rename_i hk
      subst hk
      refine List.filter_eq_nil_iff.2 fun a ha => ?_
      have htoken : a.leaseToken ∈ (some token).toList := hrun ▸ List.mem_map.2 ⟨a, ha, rfl⟩
      have hat : a.leaseToken = token := (Option.some.inj (Option.mem_toList.1 htoken)).symm
      have hid : a.jobId = j.id := (of_decide_eq_true (List.mem_filter.1 ha).2).1
      simp [hid, hat]
    · rename_i hk
      refine List.filter_eq_self.2 fun a ha => ?_
      have hid : a.jobId = k := (of_decide_eq_true (List.mem_filter.1 ha).2).1
      simp [hid, hk]

/-- It is enough to look at the job that the event is about. -/
theorem Leased.of_event (h : Leased db) (he : e.Occurs db db')
    (hstatus : e.after.leaseToken.isSome ↔ e.after.status.held)
    (hrunning : (db'.running e.id).map (·.leaseToken) = e.after.leaseToken.toList)
    (hother : ∀ k, k ≠ e.id → db'.running k = db.running k)
    (hknown : ∀ a ∈ db'.attempts, a.jobId = e.id ∨ ∃ b ∈ db.attempts, b.jobId = a.jobId) : Leased db' := by
  refine ⟨fun j hj => ?_, fun j hj => ?_, fun a ha => ?_⟩
  · rcases he.mem_iff.1 hj with rfl | ⟨-, hj⟩
    · exact hstatus
    · exact h.status j hj
  · rcases he.mem_iff.1 hj with rfl | ⟨hid, hj⟩
    · rw [e.after_id]
      exact hrunning
    · rw [hother j.id hid]
      exact h.running j hj
  · by_cases hid : a.jobId = e.id
    · exact ⟨e.after, he.after_mem, e.after_id.trans hid.symm⟩
    · obtain ⟨b, hb, hba⟩ := (hknown a ha).resolve_left hid
      obtain ⟨j, hj, hjb⟩ := h.known b hb
      exact ⟨j, he.mem_iff.2 (.inr ⟨fun hje => hid (by rw [← hba, ← hjb, hje]), hj⟩), hjb.trans hba⟩

theorem JobDb.jobId_closing {j : Job} {ending : Option JobAttemptStatus} {a : JobAttempt}
    (ha : a ∈ db.closing j ending) : ∃ b ∈ db.attempts, b.jobId = a.jobId := by
  unfold closing at ha
  split at ha
  · obtain ⟨b, hb, rfl⟩ := Table.mem_edit.1 ha
    exact ⟨b, hb, (Prod.mk.inj (JobAttempt.finish_key _ _ _ b)).1.symm⟩
  · exact ⟨a, ha, rfl⟩

/-- An update that ends no attempt keeps the token and does not let go of the job, or take hold of it. -/
theorem JobWrite.keeps_lease {w : JobWrite} (hend : w.ending = none) {j : Job} (hs : j.status ∈ w.accepts) :
    (w.apply j).leaseToken = j.leaseToken ∧ ((w.apply j).status.held ↔ j.status.held) := by
  cases w with
  | complete | fail | cancel => cases hend
  | renew => exact ⟨rfl, Iff.rfl⟩
  | withdraw =>
    refine ⟨rfl, ?_⟩
    rcases List.mem_pair.1 hs with hs | hs
    · simp [apply, JobStatus.held, hs]
    · simp [apply, JobStatus.held, hs]
  | ask =>
    refine ⟨rfl, ?_⟩
    have hs := List.mem_singleton.1 hs
    simp [apply, JobStatus.held, hs]
  | retry =>
    refine ⟨rfl, ?_⟩
    rcases List.mem_pair.1 hs with hs | hs
    · simp [apply, JobStatus.held, hs]
    · simp [apply, JobStatus.held, hs]

/-- An update that ends the running attempt lets go of the job. -/
theorem JobWrite.drops_lease {w : JobWrite} {status : JobAttemptStatus} (hend : w.ending = some status)
    (j : Job) : (w.apply j).leaseToken = none ∧ ¬ (w.apply j).status.held := by
  cases w with
  | complete => exact ⟨rfl, by simp [apply, Job.release, JobStatus.held]⟩
  | fail dead => exact ⟨rfl, by cases dead <;> simp [apply, Job.release, JobStatus.held]⟩
  | cancel => exact ⟨rfl, by simp [apply, Job.release, JobStatus.held]⟩
  | renew | withdraw | ask | retry => cases hend

theorem Leased.write (h : Leased db) {j : Job} {w : JobWrite} (he : (JobEvent.write j w).Occurs db db')
    (hend : w.ending ≠ some .running) : Leased db' := by
  have hevent := he
  cases he with
  | write hj hs =>
    cases hw : w.ending with
    | none =>
      rw [hw] at hevent
      obtain ⟨htoken, hheld⟩ := JobWrite.keeps_lease hw hs
      refine h.of_event hevent ?_ ?_ (fun k _ => rfl) fun a ha => .inr ⟨a, ha, rfl⟩
      · show (w.apply j).leaseToken.isSome ↔ _
        rw [htoken]
        exact (h.status j hj).trans hheld.symm
      · show (db.running j.id).map _ = (w.apply j).leaseToken.toList
        rw [htoken]
        exact h.running j hj
    | some status =>
      rw [hw] at hevent hend
      obtain ⟨htoken, hheld⟩ := JobWrite.drops_lease hw j
      have hne : status ≠ .running := fun hr => hend (congrArg some hr)
      have hrun := h.running_closing hj hne (db.jobs.save (w.apply j))
      refine h.of_event hevent ?_ ?_ (fun k hk => (hrun k).trans (if_neg hk)) fun a ha =>
        .inr (JobDb.jobId_closing ha)
      · show (w.apply j).leaseToken.isSome ↔ _
        rw [htoken]
        exact ⟨fun hn => absurd hn (by simp), fun hn => absurd hn hheld⟩
      · rw [hrun]
        show (if j.id = j.id then _ else _ : List JobAttempt).map _ = (w.apply j).leaseToken.toList
        rw [if_pos rfl, htoken]
        rfl

theorem Leased.insert (h : Leased db) {j : Job} (he : (JobEvent.insert j).Occurs db db') : Leased db' := by
  have hevent := he
  cases he with
  | insert hi hs h0 hl =>
    refine h.of_event hevent ?_ ?_ (fun k _ => rfl) fun a ha => .inr ⟨a, ha, rfl⟩
    · show j.leaseToken.isSome ↔ j.status.held
      simp [hl, hs, JobStatus.held]
    · show (db.running j.id).map _ = j.leaseToken.toList
      rw [hl]
      refine List.map_eq_nil_iff.2 (List.filter_eq_nil_iff.2 fun a ha hr => ?_)
      -- an attempt of the new job would belong to an old one with its identifier
      obtain ⟨x, hx, hxa⟩ := h.known a ha
      exact (Table.insert_eq_some.1 hi).1 x hx (hxa.trans (of_decide_eq_true hr).1)

theorem Leased.claim (h : Leased db) {j : Job} {c : Claim}
    (he : (JobEvent.claim j c).Occurs db db') : Leased db' := by
  have hevent := he
  cases he with
  | @claim _ _ t hj _ _ ht =>
    have hrun :=
      h.running_closing hj (show JobAttemptStatus.leaseExpired ≠ .running by decide) (db.jobs.save (c.run j))
    have hrows := (Table.insert_eq_some.1 ht).2
    have hnew : ∀ k, (JobDb.mk (db.jobs.save (c.run j)) t).running
      k = (if k = j.id then [] else db.running k) ++
        if k = j.id then [⟨j.id, j.attempts + 1, c.workerId, c.tokens j.id, .running⟩] else [] := by
      intro k
      rw [← hrun k]
      unfold JobDb.running
      simp only [hrows, List.filter_append]
      congr 1
      by_cases hk : k = j.id
      · simp [hk]
      · simp [hk, Ne.symm hk]
    refine h.of_event hevent ?_ ?_ (fun k hk => ?_) fun a ha => ?_
    · show (some (c.tokens j.id)).isSome ↔ JobStatus.running.held
      simp [JobStatus.held]
    · rw [hnew]
      show List.map _ ((if j.id = j.id then _ else _) ++ if j.id = j.id then _ else _) = _
      rw [if_pos rfl, if_pos rfl]
      rfl
    · have hk : k ≠ j.id := hk
      rw [hnew, if_neg hk, if_neg hk, List.append_nil]
    · rcases (Table.mem_insert ht).1 ha with ha | rfl
      · exact .inr (JobDb.jobId_closing ha)
      · exact .inl rfl

theorem Leased.empty : Leased .empty :=
  ⟨fun _ h => absurd h Table.not_mem_empty, fun _ h => absurd h Table.not_mem_empty, fun _ h =>
    absurd h Table.not_mem_empty⟩

/-- The report of a failure says so, as those of the runner do. -/
def JobOp.Reported : JobOp → Prop
  | fail _ _ status => status = .failed ∨ status = .timedOut
  | _ => True

theorem Leased.event (h : Leased db) (hop : op.Reported) (hm : op.Makes e)
    (he : e.Occurs db db') : Leased db' := by
  cases e with
  | insert j => exact h.insert he
  | claim j c => exact h.claim he
  | write j w =>
    refine h.write he ?_
    cases w with
    | fail dead retryAt ending =>
      obtain ⟨r, at', -, rfl⟩ := hm
      rcases hop with rfl | rfl
      · simp [JobWrite.ending]
      · simp [JobWrite.ending]
    | complete | cancel | renew | withdraw | ask | retry => simp [JobWrite.ending]

theorem Leased.step (h : Leased db) (hop : op.Reported) : Leased (db.step op) :=
  step_induct (fun hm he h => h.event hop hm he) h

theorem Leased.run (h : Leased db) {ops : List JobOp} (hops : ∀ op ∈ ops, op.Reported) :
    Leased (db.run ops) := by
  induction ops generalizing db with
  | nil => exact h
  | cons op ops ih =>
    exact ih (h.step (hops op List.mem_cons_self)) fun op hop => hops op (List.mem_cons_of_mem _ hop)

/-- A job at its end stays as it is, unless an operator retries it; a completed one is never retried. -/
theorem JobEvent.Occurs.final (he : e.Occurs db db') {j : Job} (hj : j ∈ db.jobs)
    (hs : j.status ∈ [JobStatus.completed, .dead, .cancelled])
    (hretry : ∀ now, e = .write j (.retry now) → j.status = .completed) : j ∈ db'.jobs := by
  refine he.mem_iff.2 (.inr ⟨fun hid => ?_, hj⟩)
  cases he with
  | insert hi => exact (Table.insert_eq_some.1 hi).1 j hj hid
  | @write x w hx hw =>
    obtain rfl := Table.eq_of_key hj hx hid
    cases w with
    | retry now =>
      rw [hretry now rfl] at hw
      simp [JobWrite.accepts] at hw
    | renew | complete | fail | cancel | withdraw | ask =>
      simp only [JobWrite.accepts, List.mem_cons, List.not_mem_nil, or_false] at hw hs
      rcases hs with hs | hs | hs <;> simp [hs] at hw
  | @claim x c t hx hdue =>
    obtain rfl := Table.eq_of_key hj hx hid
    simp only [List.mem_cons, List.not_mem_nil, or_false] at hs
    rcases hdue with ⟨hd, -⟩ | ⟨hd, -⟩
    · rcases hs with hs | hs | hs <;> simp [hs] at hd
    · rcases hs with hs | hs | hs <;> simp [hs] at hd

theorem step_final {j : Job} (hj : j ∈ db.jobs) (hs : j.status ∈ [JobStatus.completed, .dead, .cancelled])
    (hop : ∀ now, op = .retry j.id now → j.status = .completed) : j ∈ (db.step op).jobs := by
  refine step_induct (P := fun db => j ∈ db.jobs) (fun {db e db'} hm he hj => he.final hj hs ?_) hj
  rintro now rfl
  exact hop now hm

theorem JobDb.Updated.refused {id : UUID} {p : Job → Prop} {w : JobWrite} {b : Bool}
    (h : db.Updated id p w b db') (hno : ∀ j ∈ db.jobs, j.id = id → ¬ p j) : b = false ∧ db' = db := by
  rcases h with ⟨-, j, hj, hid, hp, -⟩ | ⟨hb, hdb, -⟩
  · exact absurd hp (hno j hj hid)
  · exact ⟨hb, hdb⟩

theorem run_refused {x : JobTx Bool} {id : UUID} {p : Job → Prop} {w : JobWrite}
    (h : ∃ b db', x.run () db = .ok (b, db') ∧ db.Updated id p w b db')
    (hno : ∀ j ∈ db.jobs, j.id = id → ¬ p j) : x.run () db = .ok (false, db) := by
  obtain ⟨b, db', hrun, h⟩ := h
  obtain ⟨rfl, rfl⟩ := h.refused hno
  exact hrun

/-- After every run of the tables a job has a token exactly while it is held, then exactly its running attempt
carries the token, and otherwise none of its attempts runs; reports with other tokens do nothing; and a job at
its end changes only by a retry. -/
theorem leases_fence (ops : List JobOp) (hops : ∀ op ∈ ops, op.Reported) :
    (∀ j ∈ (JobDb.empty.run ops).jobs,
      (j.leaseToken.isSome ↔ j.status = .running ∨ j.status = .cancelRequested) ∧
      (∀ token, j.leaseToken = some token → ∃ a, a.leaseToken = token ∧
        ((JobDb.empty.run ops).attempts.rows.filter fun a => a.jobId = j.id ∧ a.status = .running) = [a])) ∧
    (∀ a ∈ (JobDb.empty.run ops).attempts, a.status = .running →
      ∃ j ∈ (JobDb.empty.run ops).jobs, j.id = a.jobId ∧ j.leaseToken = some a.leaseToken) ∧
    (∀ id token, (∀ j ∈ (JobDb.empty.run ops).jobs, j.id = id → j.leaseToken ≠ some token) →
      (∀ now s, (heartbeatJob id token now s).run () (JobDb.empty.run ops) = .ok
        (false, JobDb.empty.run ops)) ∧
      (completeJob id token).run () (JobDb.empty.run ops) = .ok (false, JobDb.empty.run ops) ∧
      ∀ r : JobRecord, r.id = id → r.leaseToken = some token →
        (cancelledJob r).run () (JobDb.empty.run ops) = .ok (false, JobDb.empty.run ops) ∧
        ∀ retryAt status, (failJob r retryAt status).run () (JobDb.empty.run ops) = .ok
          (false, JobDb.empty.run ops)) ∧
    ∀ j ∈ (JobDb.empty.run ops).jobs, j.status = .completed ∨ j.status = .dead ∨ j.status = .cancelled →
      ∀ op, (j.status = .completed ∨ ∀ now, op ≠ .retry j.id now) →
      j ∈ ((JobDb.empty.run ops).step op).jobs := by
  have h : Leased (JobDb.empty.run ops) := Leased.empty.run hops
  refine ⟨fun j hj => ⟨h.status j hj, fun token ht => ?_⟩, fun a ha hr => ?_, fun id token hno => ?_,
    fun j hj hs op hop => ?_⟩
  · have hrun := h.running j hj
    rw [ht] at hrun
    obtain ⟨a, hlist, ha⟩ := List.map_eq_singleton_iff.1 hrun
    exact ⟨a, ha, hlist⟩
  · obtain ⟨j, hj, hid⟩ := h.known a ha
    have hmem : a ∈ (JobDb.empty.run ops).running j.id :=
      List.mem_filter.2 ⟨ha, decide_eq_true ⟨hid.symm, hr⟩⟩
    have htoken : a.leaseToken ∈ j.leaseToken.toList := h.running j hj ▸ List.mem_map.2 ⟨a, hmem, rfl⟩
    exact ⟨j, hj, hid, Option.mem_toList.1 htoken⟩
  · have hleave : ∀ j ∈ (JobDb.empty.run ops).jobs, j.id = id →
        ¬ (j.leaseToken.isSome ∧ j.leaseToken = some token) :=
      fun j hj hid ht => hno j hj hid ht.2
    refine ⟨fun now s => run_refused (heartbeatJob_updated id token now s) hno,
      run_refused (completeJob_updated id token) hleave, ?_⟩
    rintro r rfl ht
    rw [← ht] at hleave
    exact ⟨run_refused (cancelledJob_updated r) hleave, fun retryAt status =>
      run_refused (failJob_updated r retryAt status) hleave⟩
  · refine step_final hj (by simpa using hs) fun now hnow => ?_
    exact hop.resolve_right fun hno => hno now hnow

/-- A claimed job, and a report under another token. -/
theorem leases_fence_claimed :
    (∃ j ∈ (JobDb.empty.run (Retried.ops.take 2)).jobs.rows, j.leaseToken = some 10 ∧ j.status = .running) ∧
      (completeJob 1 11).run () (JobDb.empty.run (Retried.ops.take 2)) =
        .ok (false, JobDb.empty.run (Retried.ops.take 2)) := by
  refine ⟨by decide +kernel, ((leases_fence (Retried.ops.take 2) ?_).2.2.1 1 11 ?_).2.1⟩
  · intro op hop
    rcases List.mem_pair.1 hop with rfl | rfl
    · trivial
    · trivial
  · show ∀ j ∈ (JobDb.empty.run (Retried.ops.take 2)).jobs.rows, _
    decide +kernel

end events

end GManager
