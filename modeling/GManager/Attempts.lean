import GManager.JobCancellation
import GManager.OutboxDelivery

/-!
# The limit of attempts

Jobs and outbox events have a limit of attempts. Both queues look at it when a failure is reported, and
neither when it takes over a row whose lease has run out: the counter then goes beyond the limit, and a row
that brings down every worker is claimed for ever. As long as no claim takes over a row at its limit, the
attempts are bounded, and a row that waits for a claim has attempts left.
-/

namespace GManager

open Txn

/-- The attempts of the job that were started since its last retry. -/
def startsOf (id : UUID) : List JobNote → ℕ
  | [] => 0
  | .claimed k :: log => startsOf id log + if k = id then 1 else 0
  | .retried k :: log => if k = id then 0 else startsOf id log
  | .requested _ :: log | .started _ :: log | .ended _ _ :: log => startsOf id log

/-- The attempts of the event that were started since it was written or replayed. -/
def attemptsOf (id : UUID) : List OutboxNote → ℕ
  | [] => 0
  | .claimed k :: log => attemptsOf id log + if k = id then 1 else 0
  | .written k :: log | .replayed k :: log => if k = id then 0 else attemptsOf id log
  | .effect _ _ :: log => attemptsOf id log

/-! ### Jobs -/

/-- The limit allows what the row says: if the job waits for a claim, there is an attempt left. -/
structure Job.InLimit (j : Job) : Prop where
  pos : 0 < j.maxAttempts
  le : j.attempts ≤ j.maxAttempts
  waiting : j.status = .queued ∨ j.status = .retry → j.attempts < j.maxAttempts

/-- The counters are those of the log, and within the limits. -/
structure Counted (s : JobSystem) : Prop where
  count : ∀ j ∈ s.db.jobs, startsOf j.id s.log = j.attempts
  fresh : ∀ id, (∀ j ∈ s.db.jobs, j.id ≠ id) → startsOf id s.log = 0
  limit : ∀ j ∈ s.db.jobs, j.InLimit

/-- The step does not take over a job whose last attempt has lost its lease. -/
def JobSystem.Spares (s : JobSystem) : RunnerOp → Prop
  | .poll c => ∀ j ∈ s.db.taken c, j.status = .running → j.attempts < j.maxAttempts
  | _ => True

def JobSystem.RunSpares : JobSystem → List RunnerOp → Prop
  | _, [] => True
  | s, op :: ops => s.Spares op ∧ (s.step op).RunSpares ops

instance JobSystem.decidableSpares (s : JobSystem) : ∀ op, Decidable (s.Spares op)
  | .poll c =>
    inferInstanceAs (Decidable (∀ j ∈ s.db.taken c, j.status = .running → j.attempts < j.maxAttempts))
  | .insert _ _ _ _ _ _ _ _ _ | .requestCancellation _ | .retry _ _ | .begin _ | .check _ | .heartbeat _ _ _
  | .swallow _ | .returns _
  | .fails _ | .report _ _ | .interrupt _ | .timeout _ _ => inferInstanceAs (Decidable True)

instance JobSystem.decidableRunSpares : ∀ (s : JobSystem) ops, Decidable (s.RunSpares ops)
  | _, [] => inferInstanceAs (Decidable True)
  | s, op :: ops => @instDecidableAnd _ _ _ (decidableRunSpares (s.step op) ops)

section jobs

variable {s s' : JobSystem} {op : RunnerOp} {db : JobDb} {e : JobEvent} {j : Job} {w : JobWrite}
  {l : List JobNote}

theorem startsOf_ended {b : Bool} {id token : UUID} {status : JobStatus} :
    startsOf id (if b then .ended token status :: l else l) = startsOf id l := by
  cases b <;> rfl

/-- It is enough to look at the job that the event is about. -/
theorem Counted.event (h : Counted s) (he : e.Occurs s.db db) (hlimit : e.after.InLimit)
    (hcount : startsOf e.id l = e.after.attempts)
    (hother : ∀ id, id ≠ e.id → startsOf id l = startsOf id s.log) : Counted { s with db, log := l } := by
  refine ⟨fun j hj => ?_, fun id hid => ?_, fun j hj => ?_⟩
  · show startsOf j.id l = j.attempts
    rcases he.mem_iff.1 hj with rfl | ⟨hne, hj⟩
    · rw [e.after_id, hcount]
    · rw [hother _ hne]
      exact h.count j hj
  · have hne : id ≠ e.id := fun heq => hid e.after he.after_mem (e.after_id.trans heq.symm)
    refine (hother id hne).trans (h.fresh id fun j hj hjid => ?_)
    exact hid j (he.mem_iff.2 (.inr ⟨fun hje => hne (hjid.symm.trans hje), hj⟩)) hjid
  · rcases he.mem_iff.1 hj with rfl | ⟨-, hj⟩
    · exact hlimit
    · exact h.limit j hj

/-- An update stays within the limit, if the report of a failure knows the attempt. -/
theorem Job.InLimit.apply (h : j.InLimit) (hs : j.status ∈ w.accepts)
    (hfail : ∀ dead at' ending, w = .fail dead at' ending → dead = false → j.attempts < j.maxAttempts) :
    (w.apply j).InLimit := by
  cases w with
  | renew => exact ⟨h.pos, h.le, h.waiting⟩
  | fail dead at' ending =>
    refine ⟨h.pos, h.le, fun hw => ?_⟩
    cases dead with
    | false => exact hfail false at' ending rfl rfl
    | true => simp [JobWrite.apply, Job.release] at hw
  | retry => exact ⟨h.pos, Nat.zero_le _, fun _ => h.pos⟩
  | complete | cancel | withdraw | ask =>
    exact ⟨h.pos, h.le, fun hw => by simp [JobWrite.apply, Job.release] at hw⟩

theorem JobWrite.apply_attempts (hretry : ∀ now, w ≠ .retry now) : (w.apply j).attempts = j.attempts := by
  cases w with
  | retry now => exact absurd rfl (hretry now)
  | renew | complete | fail | cancel | withdraw | ask => rfl

/-- An update that is no retry starts no attempt. -/
theorem Counted.write (h : Counted s) (he : (JobEvent.write j w).Occurs s.db db)
    (hretry : ∀ now, w ≠ .retry now)
    (hfail : ∀ dead at' ending, w = .fail dead at' ending → dead = false → j.attempts < j.maxAttempts)
    (hl : ∀ id, startsOf id l = startsOf id s.log) : Counted { s with db, log := l } := by
  have hevent := he
  cases he with
  | write hj hs =>
    refine h.event hevent ((h.limit j hj).apply hs hfail) ?_ fun id _ => hl id
    show startsOf j.id l = (w.apply j).attempts
    rw [hl, h.count j hj, JobWrite.apply_attempts hretry]

theorem Counted.save {tasks : Table fun t : JobTask => t.job.leaseToken} (h : Counted s)
    (hl : ∀ id, startsOf id l = startsOf id s.log) : Counted { s with tasks, log := l } :=
  ⟨fun j hj => (hl j.id).trans (h.count j hj), fun id hid => (hl id).trans (h.fresh id hid), h.limit⟩

theorem Counted.updated {id : UUID} {p : Job → Prop} {b : Bool} (h : Counted s)
    (hu : s.db.Updated id p w b db) (hretry : ∀ now, w ≠ .retry now)
    (hfail : ∀ dead at' ending, w = .fail dead at' ending → dead = false → ∀ j ∈ s.db.jobs, p j →
      j.attempts < j.maxAttempts) :
    Counted { s with db } := by
  rcases hu with ⟨-, j, hj, -, hp, he⟩ | ⟨-, rfl, -⟩
  · exact h.write he hretry (fun dead at' ending hw hd => hfail dead at' ending hw hd j hj hp) fun _ => rfl
  · exact h

/-- The attempt that a task knows is that of the job. -/
theorem Tied.attempts_lt (h : Tied s) {t : JobTask} {token : UUID} (ht : t ∈ s.tasks)
    (htoken : t.job.leaseToken = some token) (hlt : ¬ t.job.maxAttempts ≤ t.job.attempt) {j : Job}
    (hj : j ∈ s.db.jobs) (hjt : j.leaseToken = some token) : j.attempts < j.maxAttempts := by
  obtain ⟨x, hx, hxt, -, hattempt, hmax⟩ := h.task j hj token hjt
  obtain rfl := Table.eq_of_key hx ht (hxt.trans htoken.symm)
  omega

/-- A claim that spares the job starts one of the attempts that are left. -/
theorem Counted.claim {c : Claim} {tasks : Table fun t : JobTask => t.job.leaseToken} (h : Counted s)
    (ht : Tied s) (he : (JobEvent.claim j c).Occurs s.db db)
    (hspare : j.status = .running → j.attempts < j.maxAttempts) :
    Counted ⟨db, tasks, .claimed j.id :: s.log⟩ := by
  have hevent := he
  cases he with
  | claim hj hdue _ =>
    have hlim := h.limit j hj
    have hlt : j.attempts < j.maxAttempts := by
      rcases hdue with ⟨hs, -⟩ | ⟨hs | hs, -⟩
      · exact hlim.waiting hs
      · exact hspare hs
      · exact absurd (.inl hs) (ht.leased.claim_not_stopping hevent hj rfl)
    refine (h.event hevent (l := .claimed j.id :: s.log) ⟨hlim.pos, hlt, fun hw => ?_⟩ ?_
      fun id hid => ?_).save fun _ => rfl
    · simp [JobEvent.after, Claim.run] at hw
    · show startsOf j.id s.log + (if j.id = j.id then 1 else 0) = j.attempts + 1
      rw [if_pos rfl, h.count j hj]
    · show startsOf id s.log + (if j.id = id then 1 else 0) = startsOf id s.log
      have hid : j.id ≠ id := Ne.symm hid
      rw [if_neg hid, Nat.add_zero]

theorem Counted.step (h : Counted s) (ht : Tied s) (hop : s.Spares op)
    (hs : JobStep s op s') : Counted s' := by
  cases hs with
  | same => exact h
  | @insert _ _ _ _ _ _ maxAttempts _ _ j _ hmax he =>
    have hevent := he
    cases he with
    | insert hi _ h0 =>
      have hpos : 0 < j.maxAttempts := by rw [hmax]; exact maxAttempts.pos
      refine h.event hevent ⟨hpos, by rw [JobEvent.after, h0]; exact Nat.zero_le _,
        fun _ => ?_⟩ ?_ fun _ _ => rfl
      · rw [JobEvent.after, h0]
        exact hpos
      · rw [JobEvent.after, h0]
        exact h.fresh j.id (Table.insert_eq_some.1 hi).1
  | @request id j w db _ hw he =>
    refine h.write he (fun now => ?_) (fun dead at' ending => ?_) fun _ => rfl
    · rcases hw with rfl | rfl <;> simp
    · rcases hw with rfl | rfl <;> simp
  | @retry id now j db hid he =>
    have hevent := he
    cases he with
    | write hj hs =>
      refine h.event hevent ((h.limit j hj).apply hs fun _ _ _ hw => by cases hw) ?_ fun k hk => ?_
      · show (if id = j.id then 0 else startsOf j.id s.log) = 0
        rw [if_pos hid.symm]
      · show (if id = k then 0 else startsOf k s.log) = startsOf k s.log
        rw [if_neg]
        rintro rfl
        exact hk hid.symm
  | @poll c es db tasks hes hpolls htasks =>
    refine (poll_induct (P := fun s => Counted s ∧ Tied s) ?_ ?_ hes hpolls htasks ⟨h, ht⟩).1
    · rintro s j db ⟨h, ht⟩ - - he
      exact ⟨h.write he (by simp) (by simp) fun _ => rfl, ht.write he (by simp [JobWrite.ending])⟩
    · rintro s' j db tasks ⟨h, ht⟩ hj he htask
      exact ⟨h.claim ht he (hop j hj), ht.claim he htask⟩
  | start => exact h.save fun _ => rfl
  | renew he => exact h.write he (by simp) (by simp) fun _ => rfl
  | task => exact h.save fun _ => rfl
  | @report token retryAt t b db htm htoken hp hu =>
    refine (h.updated hu ?_ fun dead at' ending hw hd j hj hjt => ?_).save fun _ => startsOf_ended
    · unfold JobTask.reports
      split <;> simp
    · refine ht.attempts_lt htm htoken (fun hle => ?_) hj hjt
      rcases hp with hp | hp | hp
      · simp [JobTask.reports, hp] at hw
      · simp [JobTask.reports, hp] at hw
      · simp only [JobTask.reports, hp, JobWrite.fail.injEq] at hw
        rw [← hw.1, decide_eq_false_iff_not] at hd
        exact hd hle
  | @timeout token retryAt t b db htm htoken hw hu =>
    refine (h.updated hu (by simp) fun dead at' ending hw hd j hj hjt => ?_).save fun _ => startsOf_ended
    refine ht.attempts_lt htm htoken (fun hle => ?_) hj hjt
    simp only [JobWrite.fail.injEq] at hw
    rw [← hw.1, decide_eq_false_iff_not] at hd
    exact hd hle

theorem Counted.empty : Counted .empty :=
  ⟨fun _ h => absurd h Table.not_mem_empty, fun _ _ => rfl, fun _ h => absurd h Table.not_mem_empty⟩

theorem Counted.run (h : Counted s) (ht : Tied s) {ops : List RunnerOp} (hops : s.RunSpares ops) :
    Counted (s.run ops) := by
  induction ops generalizing s with
  | nil => exact h
  | cons op ops ih => exact ih (h.step ht hops.1 (s.step_cases op)) (ht.step (s.step_cases op)) hops.2

end jobs

/-! ### Events -/

/-- The counters are those of the log, and an event that waits for a claim has an attempt left. -/
structure Tallied (limit : ℕ) (db : OutboxDb) : Prop where
  count : ∀ e ∈ db.events, attemptsOf e.id db.log = e.attempts
  le : ∀ e ∈ db.events, e.attempts ≤ limit
  waiting : ∀ e ∈ db.events, e.status = .pending → e.attempts < limit

/-- The step does not take over an event whose last attempt has lost its lease. -/
def OutboxSystem.Spares (cfg : OutboxConfig) (s : OutboxSystem) : OutboxOp → Prop
  | .claim c => (s.publishers c.workerId).batch = [] → ∀ e ∈ s.db.taken c, e.status = .processing →
      e.attempts < cfg.maxAttempts
  | _ => True

def OutboxSystem.RunSpares (cfg : OutboxConfig) : OutboxSystem → List OutboxOp → Prop
  | _, [] => True
  | s, op :: ops => s.Spares cfg op ∧ (s.step cfg op).RunSpares cfg ops

instance OutboxSystem.decidableSpares (cfg : OutboxConfig) (s : OutboxSystem) :
    ∀ op, Decidable (s.Spares cfg op)
  | .claim c => inferInstanceAs (Decidable ((s.publishers c.workerId).batch = [] →
    ∀ e ∈ s.db.taken c, e.status = .processing → e.attempts < cfg.maxAttempts))
  | .write _ _ _ _ _ _ _ | .deliver _ _ _ _ | .fail _ _ | .drop _ | .replayDead _ _ | .applyRetention _ =>
    inferInstanceAs (Decidable True)

instance OutboxSystem.decidableRunSpares (cfg : OutboxConfig) :
    ∀ (s : OutboxSystem) ops, Decidable (s.RunSpares cfg ops)
  | _, [] => inferInstanceAs (Decidable True)
  | s, op :: ops => @instDecidableAnd _ _ _ (decidableRunSpares cfg (s.step cfg op) ops)

section events

variable {cfg : OutboxConfig} {limit : ℕ} {s : OutboxSystem} {db db' : OutboxDb}
  {e e' : OutboxEvent} {c : OutboxClaim}

theorem attemptsOf_effects {id k : UUID} (cs : List String) (log : List OutboxNote) :
    attemptsOf k (cs.map (fun c => .effect c id) ++ log) = attemptsOf k log := by
  induction cs with
  | nil => rfl
  | cons c cs ih => exact ih

/-- A claim of distinct events starts one attempt of each. -/
theorem attemptsOf_claims {id : UUID} {es : List OutboxEvent} (hnodup : (es.map (·.id)).Nodup)
    (log : List OutboxNote) : attemptsOf id ((es.map fun e => .claimed e.id).reverse ++ log) =
      attemptsOf id log + if id ∈ es.map (·.id) then 1 else 0 := by
  induction es generalizing log with
  | nil => rfl
  | cons e es ih =>
    obtain ⟨hnot, hnodup⟩ := List.nodup_cons.1 hnodup
    rw [List.map_cons, List.reverse_cons, List.append_assoc]
    refine (ih hnodup _).trans ?_
    show attemptsOf id log + (if e.id = id then 1 else 0) + _ = _
    by_cases hid : e.id = id
    · subst hid
      simp [hnot]
    · simp [hid, Ne.symm hid]

/-- A row is written over. -/
theorem Tallied.rewrite (h : Tallied limit db) (hw : Rewrites db e e' db')
    (hcount : attemptsOf e.id db'.log = e'.attempts)
    (hother : ∀ k, k ≠ e.id → attemptsOf k db'.log = attemptsOf k db.log) (hle : e'.attempts ≤ limit)
    (hwait : e'.status = .pending → e'.attempts < limit) : Tallied limit db' := by
  refine ⟨fun x hx => ?_, fun x hx => ?_, fun x hx => ?_⟩
  · rcases hw.mem_iff.1 hx with rfl | ⟨hne, hx⟩
    · rw [hw.id, hcount]
    · rw [hother _ hne]
      exact h.count x hx
  · rcases hw.mem_iff.1 hx with rfl | ⟨-, hx⟩
    · exact hle
    · exact h.le x hx
  · rcases hw.mem_iff.1 hx with rfl | ⟨-, hx⟩
    · exact hwait
    · exact h.waiting x hx

theorem Tallied.write (h : Tallied limit db) (hpos : 0 < limit) {t : Table OutboxEvent.id}
    (h0 : e.attempts = 0) (ht : db.events.insert e = some t) :
    Tallied limit { db with events := t, log := .written e.id :: db.log } := by
  have hnew := (Table.insert_eq_some.1 ht).1
  refine ⟨fun x hx => ?_, fun x hx => ?_, fun x hx hs => ?_⟩
  · show (if e.id = x.id then 0 else attemptsOf x.id db.log) = x.attempts
    rcases (Table.mem_insert ht).1 hx with hx | rfl
    · rw [if_neg (Ne.symm (hnew x hx))]
      exact h.count x hx
    · rw [if_pos rfl, h0]
  · rcases (Table.mem_insert ht).1 hx with hx | rfl
    · exact h.le x hx
    · omega
  · rcases (Table.mem_insert ht).1 hx with hx | rfl
    · exact h.waiting x hx hs
    · omega

/-- A claim that spares the events starts attempts that are left. -/
theorem Tallied.claim (h : Tallied limit db) (hc : ClaimedAll c (db.taken c) db db')
    (hspare : ∀ e ∈ db.taken c, e.status = .processing → e.attempts < limit) : Tallied limit db' := by
  obtain ⟨hnodup, htaken⟩ := db.taken_spec c
  have hlt : ∀ e ∈ db.taken c, e.attempts < limit := by
    intro e he
    rcases (htaken e he).2 with ⟨hs, -⟩ | ⟨hs, -⟩
    · exact h.waiting e (htaken e he).1 hs
    · exact hspare e he hs
  refine ⟨fun x hx => ?_, fun x hx => ?_, fun x hx hs => ?_⟩
  · rw [hc.log, attemptsOf_claims hnodup]
    rcases (hc.mem x).1 hx with ⟨hx, hno⟩ | ⟨e, he, rfl⟩
    · rw [if_neg hno]
      exact h.count x hx
    · have hmem : (c.take e).id ∈ (db.taken c).map (·.id) := List.mem_map.2 ⟨e, he, rfl⟩
      rw [if_pos hmem]
      exact congrArg (· + 1) (h.count e (htaken e he).1)
  · rcases (hc.mem x).1 hx with ⟨hx, -⟩ | ⟨e, he, rfl⟩
    · exact h.le x hx
    · exact hlt e he
  · rcases (hc.mem x).1 hx with ⟨hx, -⟩ | ⟨e, -, rfl⟩
    · exact h.waiting x hx hs
    · cases hs

/-- The report of a failure leaves the event to another attempt only if there is one. -/
theorem Tallied.fail (h : Tallied limit db) (workerId : String) (m : OutboxMessage) (availableAt : Instant) :
    Tallied limit ((markFailed workerId m limit availableAt).commit () db) := by
  rcases markFailed_run workerId m limit availableAt db with heq | ⟨e, -, ⟨-, -, hattempts⟩, hw, hlog⟩
  · rw [heq]
    exact h
  · refine h.rewrite hw ?_ (fun k _ => by rw [hlog]) (h.le e hw.mem) fun hs => ?_
    · rw [hlog]
      exact h.count e hw.mem
    · by_contra hlt
      have hle : limit ≤ m.attempts := by
        rw [← hattempts]
        exact not_lt.1 hlt
      simp [OutboxEvent.failed, hle] at hs

theorem Tallied.replay (h : Tallied limit db) (hpos : 0 < limit) (id : UUID) (now : Instant) :
    Tallied limit ((replayDead id now).commit () db) := by
  rcases replayDead_run id now db with heq | ⟨e, hid, -, hw, hlog⟩
  · rw [heq]
    exact h
  · refine h.rewrite hw ?_ (fun k hk => ?_) (Nat.zero_le _) fun _ => hpos
    · rw [hlog]
      exact if_pos hid.symm
    · rw [hlog]
      exact if_neg fun hik => hk (hik.symm.trans hid.symm)

theorem Tallied.deliver (h : Tallied limit s.db) (hr : Receipted s.db) (consumers : List String)
    (workerId : String) (raises : String → Bool) (commits : Bool) (now : Instant) :
    Tallied limit (s.deliver consumers workerId raises commits now).db := by
  unfold OutboxSystem.deliver
  split
  · split
    · rename_i b db hrun
      rcases wp_deliver hr b db hrun with rfl | ⟨e, db₁, -, -, hcon, -, hw, hlog⟩
      · exact h
      · obtain ⟨cs, hcs⟩ := hcon.log
        have h₁ : Tallied limit db₁ := by
          refine ⟨fun x hx => ?_, fun x hx => h.le x (hcon.events ▸ hx), fun x hx =>
            h.waiting x (hcon.events ▸ hx)⟩
          rw [hcs, attemptsOf_effects]
          exact h.count x (hcon.events ▸ hx)
        show Tallied limit db
        refine h₁.rewrite hw ?_ (fun k _ => by rw [hlog]) (h₁.le e hw.mem) fun hs => ?_
        · rw [hlog]
          exact h₁.count e hw.mem
        · simp [OutboxEvent.process] at hs
    · exact h
  · exact h

theorem Tallied.step (h : Tallied cfg.maxAttempts s.db) (hd : Delivered cfg.consumers s)
    {op : OutboxOp} (hop : s.Spares cfg op) : Tallied cfg.maxAttempts (s.step cfg op).db := by
  cases op with
  | write id eventType aggregateType aggregateId correlationId payload now =>
    rcases writeEvent_run (.new id eventType aggregateType aggregateId correlationId payload now)
      s.db with heq | ⟨t, ht, heq⟩
    · rw [OutboxSystem.step, heq]
      exact h
    · rw [OutboxSystem.step, heq]
      exact h.write cfg.maxAttempts.pos rfl ht
  | claim c =>
    show Tallied _ (s.claim c).db
    unfold OutboxSystem.claim
    split
    · rename_i hidle
      obtain ⟨db, hrun, hc⟩ := claimOutbox_run c s.db
      rw [hrun]
      exact h.claim hc (hop hidle)
    · exact h
  | deliver workerId raises commits now =>
    exact h.deliver hd.receipted cfg.consumers workerId raises commits now
  | fail workerId availableAt =>
    show Tallied _ (s.fail _ workerId availableAt).db
    unfold OutboxSystem.fail
    split
    · exact h.fail workerId _ availableAt
    · exact h
  | drop workerId => exact h
  | replayDead id now => exact h.replay cfg.maxAttempts.pos id now
  | applyRetention cutoff =>
    obtain ⟨hev, -, -, hlog⟩ := retention_spec cutoff s.db
    refine ⟨fun x hx => ?_, fun x hx => h.le x ((hev x).1 hx).1, fun x hx => h.waiting x ((hev x).1 hx).1⟩
    rw [OutboxSystem.step, hlog]
    exact h.count x ((hev x).1 hx).1

theorem Tallied.run (h : Tallied cfg.maxAttempts s.db) (hd : Delivered cfg.consumers s) {ops : List OutboxOp}
    (hops : s.RunSpares cfg ops) : Tallied cfg.maxAttempts (s.run cfg ops).db := by
  induction ops generalizing s with
  | nil => exact h
  | cons op ops ih => exact ih (h.step hd hops.1) (hd.step op) hops.2

theorem Tallied.empty : Tallied limit .empty :=
  ⟨fun _ h => absurd h Table.not_mem_empty, fun _ h => absurd h Table.not_mem_empty, fun _ h =>
    absurd h Table.not_mem_empty⟩

end events

/-! ### Both queues -/

/-- As long as no claim takes over a row at its limit, no more attempts of it are started than the limit
allows, and a job or an event that has had all of them does not wait for a claim. -/
theorem attempts_bounded (ops : List RunnerOp) (hops : JobSystem.empty.RunSpares ops) (cfg : OutboxConfig)
    (events : List OutboxOp) (hevents : OutboxSystem.empty.RunSpares cfg events) :
    (∀ j ∈ (JobSystem.empty.run ops).db.jobs, startsOf j.id (JobSystem.empty.run ops).log ≤ j.maxAttempts ∧
      (startsOf j.id (JobSystem.empty.run ops).log = j.maxAttempts → j.status ≠ .queued ∧
        j.status ≠ .retry)) ∧
    ∀ e ∈ (OutboxSystem.empty.run cfg events).db.events,
      attemptsOf e.id (OutboxSystem.empty.run cfg events).db.log ≤ cfg.maxAttempts ∧
      (attemptsOf e.id (OutboxSystem.empty.run cfg events).db.log = cfg.maxAttempts →
        e.status ≠ .pending) := by
  have hj : Counted (JobSystem.empty.run ops) := Counted.empty.run Tied.empty hops
  have he : Tallied cfg.maxAttempts (OutboxSystem.empty.run cfg events).db :=
    Tallied.run Tallied.empty Delivered.empty hevents
  refine ⟨fun j hjm => ?_, fun e hem => ?_⟩
  · have hlimit := hj.limit j hjm
    rw [hj.count j hjm]
    refine ⟨hlimit.le, fun hmax => ⟨fun hs => ?_, fun hs => ?_⟩⟩
    · exact absurd hmax (Nat.ne_of_lt (hlimit.waiting (.inl hs)))
    · exact absurd hmax (Nat.ne_of_lt (hlimit.waiting (.inr hs)))
  · rw [he.count e hem]
    exact ⟨he.le e hem, fun hmax hs => absurd hmax (Nat.ne_of_lt (he.waiting e hem hs))⟩

/-! A job and an event; the leases of their workers run out a minute after each claim. -/

def Crashing.insert (maxAttempts : ℕ+) : RunnerOp := .insert 1 "REPORT" "{}" "c" none 0 maxAttempts 30 0

def Crashing.write : OutboxOp := .write 7 "SESSION_FINISHED" "SESSION" 3 "c" "{}" 0

def Crashing.claim (workerId : String) (now : Instant) : OutboxClaim :=
  { workerId, locked := fun _ => false, limit := 10, now, leaseSeconds := 60 }

/-- The first worker crashes, and the second one reports the last attempt. -/
theorem attempts_bounded_reported :
    (∀ j ∈ (JobSystem.empty.run [Crashing.insert 2, .poll (Stopped.poll 1), .poll (Stopped.poll 100000000),
        .begin 100000010, .check 100000010, .fails 100000010, .report 100000010 100000001]).db.jobs,
      startsOf j.id (JobSystem.empty.run [Crashing.insert 2, .poll (Stopped.poll 1),
        .poll (Stopped.poll 100000000), .begin 100000010, .check 100000010, .fails 100000010,
        .report 100000010 100000001]).log ≤ j.maxAttempts) ∧
      (JobSystem.empty.run [Crashing.insert 2, .poll (Stopped.poll 1), .poll (Stopped.poll 100000000),
        .begin 100000010, .check 100000010, .fails 100000010,
        .report 100000010 100000001]).db.jobs.rows.map (·.status) = [.dead] := by
  refine ⟨fun j hj => ?_, by decide +kernel⟩
  exact ((attempts_bounded _ (by decide +kernel) ⟨["audit"], 2⟩ [Crashing.write,
    .claim (Crashing.claim "a" 1), .claim (Crashing.claim "b" 100000000),
    .deliver "b" (fun _ => true) true 100000001, .fail "b" 100000002] (by decide +kernel)).1 j hj).1

/-- Every worker crashes, and the only attempt is started three times. -/
theorem attempts_unbounded :
    startsOf 1 (JobSystem.empty.run
      [Crashing.insert 1, .poll (Stopped.poll 1), .poll (Stopped.poll 100000000),
        .poll (Stopped.poll 200000000)]).log = 3 ∧
      (JobSystem.empty.run [Crashing.insert 1, .poll (Stopped.poll 1), .poll (Stopped.poll 100000000),
        .poll (Stopped.poll 200000000)]).db.jobs.rows.map (fun j => (j.attempts, j.maxAttempts, j.status)) =
        [(3, 1, .running)] ∧
      attemptsOf 7 (OutboxSystem.empty.run ⟨["audit"], 1⟩ [Crashing.write, .claim (Crashing.claim "a" 1),
        .claim (Crashing.claim "b" 100000000), .claim (Crashing.claim "c" 200000000)]).db.log = 3 := by
  refine ⟨?_, ?_, ?_⟩
  · decide +kernel
  · decide +kernel
  · decide +kernel

end GManager
