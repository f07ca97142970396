import GManager.PartialRuns
import GManager.ReportSchedules

/-!
# Runs of scheduled reports

Of an active schedule each occurrence that a committed poll has passed has one report request with its own
job, if between any two occurrences in a row a poll was committed. The step lemmas are about the tables
first: a poll that commits writes over the rows that it has read, and adds a request and a job for each of
them under a key that was free.
-/

namespace GManager.Schedules

open Txn

/-! ### Keys -/

section keys

variable {id id' : UUID} {o o' : Instant}

theorem not_digit_of_toDigits {n : ℕ} {c : Char} (hc : c.isDigit = false) : c ∉ Nat.toDigits 10 n := by
  intro h
  rw [Nat.isDigit_of_mem_toDigits (by decide) (by decide) h] at hc
  cases hc

theorem toDigits_inj {m n : ℕ} (h : Nat.toDigits 10 m = Nat.toDigits 10 n) : m = n := by
  rw [← Nat.ofDigitChars_ten_toDigits (n := m), h, Nat.ofDigitChars_ten_toDigits]

theorem toList_toString_int (t : ℤ) : (toString t).toList = match t with
    | .ofNat n => Nat.toDigits 10 n
    | .negSucc n => '-' :: Nat.toDigits 10 (n + 1) := by
  cases t with
  | ofNat n => exact Nat.toList_repr
  | negSucc n =>
    show ("-" ++ Nat.repr (n + 1)).toList = _
    rw [String.toList_append, Nat.toList_repr]
    rfl

theorem toString_int_inj {t u : ℤ} (h : (toString t).toList = (toString u).toList) : t = u := by
  rw [toList_toString_int, toList_toString_int] at h
  have hminus : ∀ m n, Nat.toDigits 10 m ≠ '-' :: Nat.toDigits 10 n := by
    intro m n heq
    have hmem : '-' ∈ Nat.toDigits 10 m := by
      rw [heq]
      exact List.mem_cons_self
    exact not_digit_of_toDigits (by decide) hmem
  cases t with
  | ofNat m =>
    cases u with
    | ofNat n => rw [toDigits_inj h]
    | negSucc n => exact absurd h (hminus m (n + 1))
  | negSucc m =>
    cases u with
    | ofNat n => exact absurd h.symm (hminus n (m + 1))
    | negSucc n =>
      have := toDigits_inj (List.cons.inj h).2
      rw [Int.negSucc_inj]
      omega

theorem toList_colon (s : String) (n : ℕ) (t : ℤ) : (s ++ toString n ++ ":" ++ toString t).toList =
    s.toList ++ (Nat.toDigits 10 n ++ ':' :: (toString t).toList) := by
  have hn : (toString n).toList = Nat.toDigits 10 n := Nat.toList_repr
  have hcolon : (":" : String).toList = [':'] := rfl
  simp only [String.toList_append, List.append_assoc, hn, hcolon, List.singleton_append]

theorem toList_dedupeKey : (dedupeKey id o).toList =
    "scheduled-report:".toList ++ (Nat.toDigits 10 id ++ ':' :: (toString (o : ℤ)).toList) :=
  toList_colon _ _ _

theorem not_colon_of_int (t : ℤ) : ':' ∉ (toString t).toList := by
  rw [toList_toString_int]
  cases t with
  | ofNat n => exact not_digit_of_toDigits (by decide)
  | negSucc n =>
    rw [List.mem_cons, not_or]
    exact ⟨by decide, not_digit_of_toDigits (by decide)⟩

theorem dedupeKey_inj (h : dedupeKey id o = dedupeKey id' o') : id = id' ∧ o = o' := by
  have hlist := congrArg String.toList h
  rw [toList_dedupeKey, toList_dedupeKey] at hlist
  obtain ⟨hid, -, ho⟩ :=
    (List.append_cons_inj_of_notMem (not_digit_of_toDigits (by decide)) (not_colon_of_int o')).1
      (List.append_cancel_left hlist).symm
  exact ⟨(toDigits_inj hid).symm, (toString_int_inj ho).symm⟩

theorem trim_eq_self {s : String} (hfirst : ∀ c ∈ s.toList.head?, ' ' < c)
    (hlast : ∀ c ∈ s.toList.getLast?, ' ' < c) : trim s = s := by
  have hdrop : ∀ l : List Char, (∀ c ∈ l.head?, ' ' < c) → l.dropWhile (· ≤ ' ') = l := by
    intro l hl
    match l with
    | [] => rfl
    | c :: l => exact List.dropWhile_cons_of_neg (by simpa using hl c rfl)
  rw [trim, hdrop _ hfirst, hdrop _ (by rwa [List.head?_reverse]), List.reverse_reverse, String.ofList_toList]

theorem getLast_toString_int (t : ℤ) : ∃ c, (toString t).toList.getLast? = some c ∧ c.isDigit = true := by
  have hdigits : ∀ n, ∃ c, (Nat.toDigits 10 n).getLast? = some c ∧ c.isDigit = true := fun n =>
    ⟨_, List.getLast?_eq_some_getLast Nat.toDigits_ne_nil,
      Nat.isDigit_of_mem_toDigits (by decide) (by decide) (List.getLast_mem _)⟩
  rw [toList_toString_int]
  cases t with
  | ofNat n => exact hdigits n
  | negSucc n =>
    obtain ⟨c, hc, hd⟩ := hdigits (n + 1)
    exact ⟨c, by simp [List.getLast?_cons, hc], hd⟩

theorem normalize_dedupeKey : normalize (some (dedupeKey id o)) = some (dedupeKey id o) := by
  obtain ⟨l, hl⟩ : ∃ l, "scheduled-report:".toList = 's' :: l := ⟨_, rfl⟩
  have hlist : (dedupeKey id o).toList = _ := toList_dedupeKey
  rw [hl] at hlist
  have hblank : blank (dedupeKey id o) = false := by
    rw [blank, hlist, List.cons_append, List.all_cons]
    rfl
  have htrim : trim (dedupeKey id o) = dedupeKey id o := by
    refine trim_eq_self (fun c hc => ?_) fun c hc => ?_
    · rw [hlist] at hc
      cases hc
      decide
    · obtain ⟨d, hd, hdigit⟩ := getLast_toString_int o
      rw [hlist] at hc
      simp only [List.getLast?_append, List.getLast?_cons, hd] at hc
      cases hc
      simp only [Char.isDigit, Bool.and_eq_true, decide_eq_true_eq] at hdigit
      exact UInt32.lt_of_lt_of_le (show ' '.val < '0'.val by decide) hdigit.1
  simp [normalize, hblank, htrim]

theorem scheduled_of_key {j : Job} (h : j.dedupeKey = some (dedupeKey id o)) : Scheduled j :=
  ⟨_, h, by rw [toList_dedupeKey]; exact List.prefix_append _ _⟩

end keys

/-! ### Requests and their jobs -/

/-- A job of the table: its identifier, its payload and its key. -/
def HasJob (db : JobDb) (jobId : UUID) (payload key : String) : Prop :=
  ∃ j ∈ db.jobs, j.id = jobId ∧ j.payload = payload ∧ j.dedupeKey = some key

def HasRequest (t : Tables) (id jobId : UUID) : Prop := ∃ r ∈ t.requests, r.id = id ∧ r.jobId = some jobId

/-- Exactly one request belongs to the job of the occurrence, and the job is its own: its
payload names the request. -/
def ExactlyOnce (t : Tables) (id : UUID) (o : Instant) : Prop :=
  ∃ requestId jobId, HasRequest t requestId jobId ∧ HasJob t.jobs jobId (payload requestId) (dedupeKey id o) ∧
    (∀ jobId' p, HasJob t.jobs jobId' p (dedupeKey id o) → jobId' = jobId) ∧
    ∀ requestId', HasRequest t requestId' jobId → requestId' = requestId

/-- The requests belong to jobs that there are. -/
def Known (t : Tables) : Prop := ∀ r ∈ t.requests, ∀ jobId ∈ r.jobId, ∃ j ∈ t.jobs.jobs, j.id = jobId

/-- The same scheduled jobs, and the same requests that belong to them. -/
structure Keeps (t t' : Tables) : Prop where
  jobs : ∀ jobId p id o, HasJob t'.jobs jobId p (dedupeKey id o) ↔ HasJob t.jobs jobId p (dedupeKey id o)
  requests : ∀ jobId p id o, HasJob t.jobs jobId p (dedupeKey id o) →
    ∀ requestId, HasRequest t' requestId jobId ↔ HasRequest t requestId jobId

theorem Keeps.of_eq {t t' : Tables} (hrequests : t'.requests = t.requests)
    (hjobs : t'.jobs = t.jobs) : Keeps t t' := by
  refine ⟨fun _ _ _ _ => by rw [hjobs], fun _ _ _ _ _ _ => ?_⟩
  rw [HasRequest, hrequests]
  rfl

section keeps

variable {t t' : Tables} {id : UUID} {o : Instant} {job : Job} {request : ReportRequest}

theorem ExactlyOnce.keeps (h : ExactlyOnce t id o) (hk : Keeps t t') : ExactlyOnce t' id o := by
  obtain ⟨requestId, jobId, hr, hj, hjobs, hreqs⟩ := h
  refine ⟨requestId, jobId, (hk.requests _ _ _ _ hj _).2 hr, (hk.jobs _ _ _ _).2 hj,
    fun jobId' p h => hjobs jobId' p ((hk.jobs _ _ _ _).1 h), fun requestId' h =>
    hreqs requestId' ((hk.requests _ _ _ _ hj _).1 h)⟩

theorem HasJob.scheduled {jobId : UUID} {p : String} (h : HasJob t.jobs jobId p (dedupeKey id o)) :
    ∃ j ∈ t.jobs.jobs, j.id = jobId ∧ Scheduled j := by
  obtain ⟨j, hj, hid, -, hkey⟩ := h
  exact ⟨j, hj, hid, scheduled_of_key hkey⟩

end keeps

/-! ### A poll that commits -/

section polls

variable {S : Settings} {poll : Poll} {v : ReportSchedule} {t t' : Tables} {f : Fresh}
  {Q : Unit → Tables → Prop}

def allowed (poll : Poll) (v : ReportSchedule) : Bool :=
  ((poll.users v.ownerId).filter fun user => user.active && managesReports user.role).isSome

/-- What a poll makes of a schedule. -/
def after (S : Settings) (poll : Poll) (v : ReportSchedule) : ReportSchedule :=
  if allowed poll v then
    { v with lastRunAt := some (Nanos.timestamp6 poll.reading), nextRunAt := nextOf S v poll.now }
  else { v with active := false }

@[simp] theorem id_after : (after S poll v).id = v.id := by
  unfold after
  split <;> rfl

@[simp] theorem version_after : (after S poll v).version = v.version := by
  unfold after
  split <;> rfl

theorem wp_onJobs {α : Type} {x : JobTx α} {Q : α → Tables → Prop}
    (h : wp x (fun a jobs => Q a { t with jobs }) () t.jobs) : wp (onJobs x) Q poll t := by
  intro a t' hrun
  simp only [onJobs, Txn.run] at hrun
  split at hrun
  · rename_i b jobs hx
    cases hrun
    exact h _ _ hx
  · cases hrun

theorem mem_getD_insert {jobs : Table Job.id} {job j : Job} (h : j ∈ ((jobs.insert job).getD jobs).rows) :
    j ∈ jobs ∨ j = job ∧ jobs.insert job = some ((jobs.insert job).getD jobs) := by
  cases hi : jobs.insert job with
  | none =>
    rw [hi] at h
    exact .inl h
  | some jobs' =>
    rw [hi] at h
    exact ((Table.mem_insert hi).1 h).imp_right fun hj => ⟨hj, rfl⟩

/-- Under a free key a new job is inserted. -/
theorem wp_insertJob_free {id : UUID} {type p correlationId key : String} {priority : ℤ} {maxAttempts : ℕ}
    {timeoutSeconds : ℤ} {availableAt : Instant} {db : JobDb}
    (hfree : ∀ j ∈ db.jobs, j.dedupeKey ≠ some key) :
    wp (insertJob id type p correlationId (some key) priority maxAttempts timeoutSeconds availableAt)
      (fun jobId db' => jobId = id ∧ ∃ job, db.jobs.insert job = some db'.jobs ∧ job.id = id ∧
        job.payload = p ∧ job.dedupeKey = some key)
      () db := by
  simp only [insertJob, Txn.when, wp_bind, wp_get, wp_ite, wp_modify, wp_orThrow, wp_pure]
  refine ⟨fun _ j hj => ?_, fun h j hj => ?_⟩
  · have hkey : j.dedupeKey = some key := by simpa using List.find?_some hj
    have hmem := List.mem_of_find?_eq_some hj
    rcases mem_getD_insert hmem with hold | ⟨rfl, hi⟩
    · exact absurd hkey (hfree j hold)
    · exact ⟨rfl, _, hi, rfl, rfl, rfl⟩
  · have hkey : j.dedupeKey = some key := by simpa using List.find?_some hj
    exact absurd hkey (hfree j (List.mem_of_find?_eq_some hj))

/-- A request and its job are added, under a key that no job has. -/
structure Adds (t t' : Tables) (requestId jobId : UUID) (key : String) : Prop where
  jobs : ∀ j p k, HasJob t'.jobs j p k ↔ HasJob t.jobs j p k ∨ j = jobId ∧ p = payload requestId ∧ k = key
  requests : ∀ r j, HasRequest t' r j ↔ HasRequest t r j ∨ r = requestId ∧ j = jobId
  fresh : (∀ p k, ¬ HasJob t.jobs jobId p k) ∧ ∀ r, ¬ HasRequest t r jobId
  free : ∀ j p, ¬ HasJob t.jobs j p key

theorem Adds.old {requestId jobId id : UUID} {key : String} {o : Instant} (h : Adds t t' requestId jobId key)
    (ho : ExactlyOnce t id o) : ExactlyOnce t' id o := by
  obtain ⟨r, j, hr, hj, hjobs, hreqs⟩ := ho
  refine ⟨r, j, (h.requests r j).2 (.inl hr), (h.jobs _ _ _).2 (.inl hj),
    fun j' p hj' => ?_, fun r' hr' => ?_⟩
  · rcases (h.jobs _ _ _).1 hj' with hj' | ⟨-, -, hkey⟩
    · exact hjobs j' p hj'
    · exact absurd (hkey ▸ hj) (h.free _ _)
  · rcases (h.requests _ _).1 hr' with hr' | ⟨-, rfl⟩
    · exact hreqs r' hr'
    · exact absurd hj (h.fresh.1 _ _)

theorem Adds.new {requestId jobId id : UUID} {o : Instant}
    (h : Adds t t' requestId jobId (dedupeKey id o)) : ExactlyOnce t' id o := by
  refine ⟨requestId, jobId, (h.requests _ _).2 (.inr ⟨rfl, rfl⟩), (h.jobs _ _ _).2 (.inr ⟨rfl, rfl, rfl⟩),
    fun j' p hj' => ?_, fun r' hr' => ?_⟩
  · rcases (h.jobs _ _ _).1 hj' with hj' | ⟨hj', -⟩
    · exact absurd hj' (h.free _ _)
    · exact hj'
  · rcases (h.requests _ _).1 hr' with hr' | ⟨hr', -⟩
    · exact absurd hr' (h.fresh.2 _)
    · exact hr'

/-- The two rows of a request, inserted. -/
theorem adds_of_insert {jobs : Table Job.id} {requests : Table ReportRequest.id} {job : Job}
    {request : ReportRequest} {key : String} (hknown : Known t) (hfree : ∀ j p, ¬ HasJob t.jobs j p key)
    (hj : t.jobs.jobs.insert job = some jobs) (hr : t.requests.insert request = some requests)
    (hjob : job.payload = payload request.id ∧ job.dedupeKey = some key)
    (hlink : request.jobId = some job.id) (hjobs : t'.jobs.jobs = jobs) (hrequests : t'.requests = requests) :
    Adds t t' request.id job.id key ∧ Known t' := by
  have hfresh := (Table.insert_eq_some.1 hj).1
  refine ⟨⟨fun j p k => ?_, fun r j => ?_,
    ⟨fun p k ⟨j, hmem, hid, _⟩ => hfresh j hmem hid, fun r ⟨x, hx, _, hxj⟩ => ?_⟩, hfree⟩,
    fun r hmem jobId hjobId => ?_⟩
  · simp only [HasJob, hjobs, Table.mem_insert hj, or_and_right, exists_or, exists_eq_left, hjob.1, hjob.2,
      Option.some.injEq]
    grind
  · simp only [HasRequest, hrequests, Table.mem_insert hr, or_and_right, exists_or, exists_eq_left, hlink,
      Option.some.injEq]
    grind
  · obtain ⟨j, hj', hid⟩ := hknown x hx _ hxj
    exact hfresh j hj' hid
  · simp only [hjobs, hrequests, Table.mem_insert hj, Table.mem_insert hr] at hmem ⊢
    rcases hmem with hmem | rfl
    · obtain ⟨j, hj', hid⟩ := hknown r hmem jobId hjobId
      exact ⟨j, .inl hj', hid⟩
    · rw [hlink] at hjobId
      cases hjobId
      exact ⟨job, .inr rfl, rfl⟩

/-- What the poll does for one schedule that it has read. -/
structure Writes (S : Settings) (poll : Poll) (v : ReportSchedule) (t t' : Tables) : Prop where
  current : v ∈ t.schedules
  schedules : t'.schedules = t.schedules.save (raise (after S poll v))
  known : Known t'
  old : ∀ id o, ExactlyOnce t id o → ExactlyOnce t' id o
  keys : ∀ jobId p id o, HasJob t'.jobs jobId p (dedupeKey id o) →
    HasJob t.jobs jobId p (dedupeKey id o) ∨ allowed poll v = true ∧ id = v.id ∧ o = v.nextRunAt
  new : allowed poll v = true → ExactlyOnce t' v.id v.nextRunAt

theorem wp_flush {v' : ReportSchedule} (hcopy : Table.Copy ReportSchedule.version t.schedules v)
    (hne : v' ≠ v) (h : v ∈ t.schedules → Q () { t with schedules := t.schedules.save (raise v') }) :
    wp (flush v v') Q poll t := by
  simp only [flush, wp_bind, wp_get, wp_orThrow, wp_modify]
  intro schedules hs
  obtain ⟨hmem, ⟨-, heq⟩ | rfl⟩ := Table.flush_eq_some hs hcopy
  · exact absurd heq hne
  · exact h hmem

theorem wp_enqueueOne (hdue : v.active = true ∧ v.nextRunAt ≤ poll.now) (hday : Weekday v.dayOfWeek)
    (hcopy : Table.Copy ReportSchedule.version t.schedules v) (hknown : Known t)
    (hfree : v ∈ t.schedules → ∀ jobId p, ¬ HasJob t.jobs jobId p (dedupeKey v.id v.nextRunAt)) :
    wp (enqueueOne S v f) (fun _ t' => Writes S poll v t t') poll t := by
  simp only [enqueueOne, wp_bind, wp_ask]
  cases hu : (poll.users v.ownerId).filter fun user => user.active && managesReports user.role with
  | none =>
    have hallowed : allowed poll v = false := by rw [allowed, hu]; rfl
    refine wp_flush hcopy (fun h => ?_) fun hmem =>
      ⟨hmem, ?_, hknown, fun _ _ h => h, fun _ _ _ _ h => .inl h, fun h => ?_⟩
    · rw [← h] at hdue
      cases hdue.1
    · simp [after, hallowed]
    · rw [hallowed] at h
      cases h
  | some user =>
    have hallowed : allowed poll v = true := by rw [allowed, hu]; rfl
    have hlater : v.nextRunAt < nextOf S v poll.now := lt_of_le_of_lt hdue.2 (lt_next hday)
    simp only [wp_bind]
    refine wp_onJobs ?_
    simp only [enqueue, normalize_dedupeKey]
    have hne : { v with
        lastRunAt := some (Nanos.timestamp6 poll.reading), nextRunAt := nextOf S v poll.now } ≠ v := fun h =>
      absurd (congrArg ReportSchedule.nextRunAt h) (ne_of_gt hlater)
    by_cases hmem : v ∈ t.schedules
    swap
    · -- A row that was changed since it was read: the last write is refused.
      intro jobId db _
      simp only [wp_get, wp_orThrow, wp_modify]
      exact fun requests _ => wp_flush hcopy hne fun h => absurd h hmem
    replace hfree := hfree hmem
    refine wp_mono (wp_insertJob_free fun j hj hkey => hfree j.id j.payload ⟨j, hj, rfl, rfl, hkey⟩)
      fun jobId db hdb => ?_
    obtain ⟨rfl, job, hjob, hid, hpayload, hkey⟩ := hdb
    simp only [wp_get, wp_orThrow, wp_modify]
    intro requests hreq
    refine wp_flush hcopy hne fun _ => ?_
    · have hall : Adds t ⟨t.schedules.save (raise { v with
          lastRunAt := some (Nanos.timestamp6 poll.reading),
          nextRunAt :=
            nextOf S v poll.now }), requests, db⟩ f.requestId job.id (dedupeKey v.id v.nextRunAt) ∧
              Known ⟨_, requests, db⟩ :=
        adds_of_insert hknown hfree hjob hreq ⟨hpayload, hkey⟩ (by rw [hid]) rfl rfl
      obtain ⟨hadds, hknown'⟩ := hall
      refine ⟨hmem, ?_, hknown', fun _ _ h => hadds.old h, fun jobId p id o h => ?_, fun _ => hadds.new⟩
      · simp [after, hallowed]
      · refine ((hadds.jobs _ _ _).1 h).imp_right fun hnew => ?_
        obtain ⟨hid, ho⟩ := dedupeKey_inj hnew.2.2
        exact ⟨hallowed, hid, ho⟩

/-- What a poll that commits does for all the schedules that it has read. -/
structure Commits (S : Settings) (poll : Poll) (rows : List ReportSchedule) (t t' : Tables) : Prop where
  current : ∀ v ∈ rows, v ∈ t.schedules
  schedules : ∀ r, r ∈ t'.schedules ↔ (r ∈ t.schedules ∧ ∀ v ∈ rows, v.id ≠ r.id) ∨
    ∃ v ∈ rows, r = raise (after S poll v)
  known : Known t'
  old : ∀ id o, ExactlyOnce t id o → ExactlyOnce t' id o
  keys : ∀ jobId p id o, HasJob t'.jobs jobId p (dedupeKey id o) →
    HasJob t.jobs jobId p (dedupeKey id o) ∨ ∃ v ∈ rows, allowed poll v = true ∧ id = v.id ∧ o = v.nextRunAt
  new : ∀ v ∈ rows, allowed poll v = true → ExactlyOnce t' v.id v.nextRunAt

theorem Writes.mem_schedules (h : Writes S poll v t t') {r : ReportSchedule} :
    r ∈ t'.schedules ↔ (r ∈ t.schedules ∧ r.id ≠ v.id) ∨ r = raise (after S poll v) := by
  have hid : (raise (after S poll v)).id = v.id := id_after
  rw [h.schedules, Table.mem_save_of_mem h.current hid]
  constructor
  · rintro (rfl | ⟨hr, hne⟩)
    · exact .inr rfl
    · exact .inl ⟨hr, hne⟩
  · rintro (⟨hr, hne⟩ | rfl)
    · exact .inr ⟨hr, hne⟩
    · exact .inl rfl

theorem Writes.copy (h : Writes S poll v t t') {w : ReportSchedule}
    (hw : Table.Copy ReportSchedule.version t.schedules w) :
    Table.Copy ReportSchedule.version t'.schedules w := by
  rw [h.schedules]
  refine hw.save h.current id_after ?_
  show v.version < (after S poll v).version + 1
  rw [version_after]
  exact Nat.lt_succ_self _

/-- One schedule, and then the others. -/
theorem Commits.cons {rows : List ReportSchedule} {t₁ : Tables} (h : Writes S poll v t t₁)
    (hrest : Commits S poll rows t₁ t') (hv : ∀ w ∈ rows, w.id ≠ v.id) : Commits S poll (v :: rows) t t' := by
  refine ⟨fun w hw => ?_, fun r => ?_, hrest.known, fun id o ho => hrest.old id o (h.old id o ho),
    fun jobId p id o hj => ?_, fun w hw ha => ?_⟩
  · rcases List.mem_cons.1 hw with rfl | hw
    · exact h.current
    · rcases h.mem_schedules.1 (hrest.current w hw) with ⟨hmem, -⟩ | rfl
      · exact hmem
      · exact absurd (show (raise (after S poll v)).id = v.id from id_after) (hv _ hw)
  · rw [hrest.schedules, h.mem_schedules]
    simp only [List.forall_mem_cons, List.exists_mem_cons_iff]
    constructor
    · rintro (⟨⟨hr, hne⟩ | rfl, hrows⟩ | hnew)
      · exact .inl ⟨hr, Ne.symm hne, hrows⟩
      · exact .inr (.inl rfl)
      · exact .inr (.inr hnew)
    · rintro (⟨hr, hne, hrows⟩ | rfl | hnew)
      · exact .inl ⟨.inl ⟨hr, Ne.symm hne⟩, hrows⟩
      · exact .inl ⟨.inr rfl, fun w hw =>
          by rw [show (raise (after S poll v)).id = v.id from id_after]; exact hv w hw⟩
      · exact .inr hnew
  · rcases hrest.keys jobId p id o hj with hj | ⟨w, hw, hall⟩
    · exact (h.keys jobId p id o hj).imp_right fun hall => ⟨v, List.mem_cons_self, hall⟩
    · exact .inr ⟨w, List.mem_cons_of_mem _ hw, hall⟩
  · rcases List.mem_cons.1 hw with rfl | hw
    · exact hrest.old _ _ (h.new ha)
    · exact hrest.new w hw ha

theorem wp_enqueueDue {rows : List ReportSchedule} {fs : List Fresh}
    (hnodup : (rows.map ReportSchedule.id).Nodup)
    (hdue : ∀ v ∈ rows, (v.active = true ∧ v.nextRunAt ≤ poll.now) ∧ Weekday v.dayOfWeek)
    (hcopy : ∀ v ∈ rows, Table.Copy ReportSchedule.version t.schedules v) (hknown : Known t)
    (hfree : ∀ v ∈ rows, v ∈ t.schedules → ∀ jobId p, ¬ HasJob t.jobs jobId p (dedupeKey v.id v.nextRunAt)) :
    wp (enqueueDue S rows fs) (fun _ t' => Commits S poll rows t t') poll t := by
  induction rows generalizing t fs with
  | nil => exact wp_pure.2 ⟨by simp, by simp, hknown, fun _ _ h => h, fun _ _ _ _ h => .inl h, by simp⟩
  | cons v rows ih =>
    match fs with
    | [] => exact wp_throw.2 trivial
    | f :: fs =>
      rw [List.map_cons, List.nodup_cons] at hnodup
      have hv : ∀ w ∈ rows, w.id ≠ v.id := fun w hw hid => hnodup.1 (hid ▸ List.mem_map_of_mem hw)
      simp only [List.forall_mem_cons] at hdue hcopy hfree
      refine wp_bind.2 (wp_mono (wp_enqueueOne hdue.1.1 hdue.1.2 hcopy.1 hknown hfree.1) fun _ t₁ h₁ => ?_)
      refine wp_mono (ih hnodup.2 hdue.2 (fun w hw => h₁.copy (hcopy.2 w hw)) h₁.known
        fun w hw hmem jobId p hj => ?_) fun _ t₂ h₂ =>
        .cons h₁ h₂ hv
      rcases h₁.keys _ _ _ _ hj with hj | ⟨-, hid, -⟩
      · rcases h₁.mem_schedules.1 hmem with ⟨hmem, -⟩ | rfl
        · exact hfree.2 w hw hmem jobId p hj
        · exact absurd (show (raise (after S poll v)).id = v.id from id_after) (hv _ hw)
      · exact hv w hw hid

end polls

/-! ### The invariant of the runs -/

section runs

variable {S : Settings} {s s' : System} {r : ReportSchedule} {o o' : Instant}

def Occurs (S : Settings) (r : ReportSchedule) (o : Instant) : Prop :=
  Occurrence (S.zoneOf r.timezone) r.localTime r.dayOfWeek o

/-- `o'` is the occurrence that comes after `o`. -/
structure Consecutive (S : Settings) (r : ReportSchedule) (o o' : Instant) : Prop where
  left : Occurs S r o
  right : Occurs S r o'
  lt : o < o'
  least : ∀ x, Occurs S r x → o < x → o' ≤ x

/-- Between two occurrences in a row no poll was committed, and none that is open can be. -/
def Missed (S : Settings) (s : System) (r : ReportSchedule) : Prop :=
  ∃ o o', Consecutive S r o o' ∧ s.applied r.id < o ∧ o' ≤ s.clock ∧ (∀ p ∈ s.committed, o ≤ p → o' ≤ p) ∧
    ∀ w p, s.polls w = some p → o ≤ p.now → p.now < o' → ∃ v ∈ p.schedules, v.id = r.id ∧
    v.version < r.version

/-- What holds of an active schedule. -/
structure Running (S : Settings) (s : System) (r : ReportSchedule) : Prop where
  committed : ∀ p ∈ s.committed, p < r.nextRunAt
  polls : ∀ w p, s.polls w = some p → p.now < r.nextRunAt ∨ ∃ v ∈ p.schedules, v.id = r.id
  handled : ∀ o, Occurs S r o → s.applied r.id < o → o < r.nextRunAt →
    ExactlyOnce s.tables r.id o ∨ Missed S s r

structure RowOk (S : Settings) (s : System) (r : ReportSchedule) : Prop where
  weekday : Weekday r.dayOfWeek
  applied : s.applied r.id ≤ s.clock
  pointer : ∃ p, (p = s.applied r.id ∨ p ∈ s.committed ∧ s.applied r.id < p) ∧ r.nextRunAt = nextOf S r p
  keys : ∀ jobId p o, HasJob s.tables.jobs jobId p (dedupeKey r.id o) → o < r.nextRunAt ∧
    (s.applied r.id < o → Occurs S r o)
  running : r.active = true → Running S s r

/-- What a poll has read is not newer than the tables. -/
structure Snapshot (s : System) (p : Poll) : Prop where
  nodup : (p.schedules.map ReportSchedule.id).Nodup
  due : ∀ v ∈ p.schedules, (v.active = true ∧ v.nextRunAt ≤ p.now) ∧ Weekday v.dayOfWeek
  drawn : ∀ v ∈ p.schedules, v.id ∈ s.drawn
  copy : ∀ v ∈ p.schedules, Table.Copy ReportSchedule.version s.tables.schedules v

structure System.Ok (S : Settings) (s : System) : Prop where
  committed : ∀ p ∈ s.committed, p ≤ s.clock
  polls : ∀ w p, s.polls w = some p → p.now ≤ s.clock ∧ Snapshot s p
  jobs : ∀ jobId p id o, HasJob s.tables.jobs jobId p (dedupeKey id o) → o ≤ s.clock
  known : Known s.tables
  drawn : ∀ r ∈ s.tables.schedules, r.id ∈ s.drawn
  rows : ∀ r ∈ s.tables.schedules, RowOk S s r

theorem RowOk.applied_lt (h : RowOk S s r) : s.applied r.id < r.nextRunAt := by
  obtain ⟨p, hp, heq⟩ := h.pointer
  have hlt : p < r.nextRunAt := heq ▸ lt_next h.weekday
  rcases hp with rfl | ⟨-, hp⟩
  · exact hlt
  · exact hp.trans hlt

theorem RowOk.occurs (h : RowOk S s r) : Occurs S r r.nextRunAt := by
  obtain ⟨p, -, heq⟩ := h.pointer
  rw [heq]
  exact occurrence_next h.weekday

theorem consecutive_next (hday : Weekday r.dayOfWeek) (ho : Occurs S r o) :
    Consecutive S r o (nextOf S r o) :=
  ⟨ho, occurrence_next hday, lt_next hday, fun _ hx hlt => next_le hday hx hlt⟩

/-! #### Steps that leave the schedules alone -/

/-- Others change jobs and reports, polls end without a commit, schedules are deleted, the clock goes on. -/
structure Frames (s s' : System) : Prop where
  schedules : ∀ r ∈ s'.tables.schedules, r ∈ s.tables.schedules
  tables : Keeps s.tables s'.tables
  known : Known s'.tables
  clock : s.clock ≤ s'.clock
  polls : ∀ w p, s'.polls w = some p → s.polls w = some p
  committed : s'.committed = s.committed
  applied : s'.applied = s.applied
  drawn : s'.drawn = s.drawn

theorem Missed.frames (h : Missed S s r) (hf : Frames s s') : Missed S s' r := by
  obtain ⟨o, o', hcons, ho, ho', hcommitted, hpolls⟩ := h
  exact ⟨o, o', hcons, by rwa [hf.applied], ho'.trans hf.clock, by rwa [hf.committed], fun w p hp =>
    hpolls w p (hf.polls w p hp)⟩

theorem System.Ok.frames (h : s.Ok S) (hf : Frames s s') : s'.Ok S := by
  refine ⟨fun p hp => ?_, fun w p hp => ?_, fun jobId p id o hj => ?_, hf.known,
    fun r hr => ?_, fun r hr => ?_⟩
  · exact (h.committed p (hf.committed ▸ hp)).trans hf.clock
  · obtain ⟨hnow, hsnap⟩ := h.polls w p (hf.polls w p hp)
    exact ⟨hnow.trans hf.clock, hsnap.nodup, hsnap.due, fun v hv => hf.drawn ▸ hsnap.drawn v hv,
      fun v hv x hx => hsnap.copy v hv x (hf.schedules x hx)⟩
  · exact (h.jobs jobId p id o ((hf.tables.jobs _ _ _ _).1 hj)).trans hf.clock
  · exact hf.drawn ▸ h.drawn r (hf.schedules r hr)
  · have hrow := h.rows r (hf.schedules r hr)
    refine ⟨hrow.weekday, by rw [hf.applied]; exact hrow.applied.trans hf.clock,
      by rw [hf.applied, hf.committed]; exact hrow.pointer, fun jobId p o hj => by
        rw [hf.applied]; exact hrow.keys jobId p o ((hf.tables.jobs _ _ _ _).1 hj), fun hactive => ?_⟩
    have hrun := hrow.running hactive
    refine ⟨by rw [hf.committed]; exact hrun.committed, fun w p hp => hrun.polls w p (hf.polls w p hp),
      fun o ho happ hlt => ?_⟩
    rw [hf.applied] at happ
    exact (hrun.handled o ho happ hlt).imp (fun hx => hx.keeps hf.tables) fun hm => hm.frames hf

/-! #### A schedule is applied -/

/-- The schedule `id` is created or updated at `now`, and becomes the row `x`. -/
structure Applies (S : Settings) (s s' : System) (id : UUID) (now : Instant) (x : ReportSchedule) : Prop where
  row : x.id = id ∧ Weekday x.dayOfWeek ∧ x.nextRunAt = nextOf S x now
  schedules : ∀ r ∈ s'.tables.schedules, r = x ∨ r ∈ s.tables.schedules ∧ r.id ≠ id
  copy : ∀ w p, s.polls w = some p →
    ∀ v ∈ p.schedules, Table.Copy ReportSchedule.version s'.tables.schedules v
  tables : s'.tables.requests = s.tables.requests ∧ s'.tables.jobs = s.tables.jobs
  clock : s.clock ≤ now ∧ s'.clock = now
  polls : s'.polls = s.polls
  committed : s'.committed = s.committed
  applied : s'.applied = Function.update s.applied id now
  drawn : s'.drawn = s.drawn ∧ id ∈ s.drawn ∨ s'.drawn = id :: s.drawn

theorem Applies.mem_drawn {id k : UUID} {now : Instant} {x : ReportSchedule} (ha : Applies S s s' id now x)
    (h : k ∈ s.drawn) : k ∈ s'.drawn := by
  rcases ha.drawn with ⟨hd, -⟩ | hd
  · rwa [hd]
  · rw [hd]
    exact List.mem_cons_of_mem _ h

theorem Applies.keeps {id : UUID} {now : Instant} {x : ReportSchedule} (ha : Applies S s s' id now x) :
    Keeps s.tables s'.tables :=
  .of_eq ha.tables.1 ha.tables.2

theorem System.Ok.applies (id : UUID) (now : Instant) (x : ReportSchedule) (h : s.Ok S)
    (ha : Applies S s s' id now x) : s'.Ok S := by
  have hclock : s.clock ≤ s'.clock := ha.clock.2 ▸ ha.clock.1
  have hnow : s'.applied id = now := by rw [ha.applied, Function.update_self]
  refine ⟨fun p hp => ?_, fun w p hp => ?_, fun jobId p id o hj => ?_, ?_, fun r hr => ?_, fun r hr => ?_⟩
  · exact (h.committed p (ha.committed ▸ hp)).trans hclock
  · rw [ha.polls] at hp
    obtain ⟨hle, hsnap⟩ := h.polls w p hp
    exact ⟨hle.trans hclock, hsnap.nodup, hsnap.due, fun v hv =>
      ha.mem_drawn (hsnap.drawn v hv), ha.copy w p hp⟩
  · exact (h.jobs jobId p id o ((ha.keeps.jobs _ _ _ _).1 hj)).trans hclock
  · rw [Known, ha.tables.1, ha.tables.2]
    exact h.known
  · rcases ha.schedules r hr with rfl | ⟨hr, -⟩
    · rw [ha.row.1]
      rcases ha.drawn with ⟨hd, hmem⟩ | hd
      · rwa [hd]
      · rw [hd]
        exact List.mem_cons_self
    · exact ha.mem_drawn (h.drawn r hr)
  · rcases ha.schedules r hr with rfl | ⟨hr, hne⟩
    · -- The next run is after now, and everything that has happened is not.
      obtain ⟨hid, hday, hnext⟩ := ha.row
      have hafter : now < r.nextRunAt := hnext ▸ lt_next hday
      refine ⟨hday, by rw [hid, hnow, ha.clock.2], ⟨now, .inl (by rw [hid, hnow]), hnext⟩,
        fun jobId p o hj => ?_, fun _ => ?_⟩
      · have ho := (h.jobs jobId p r.id o ((ha.keeps.jobs _ _ _ _).1 hj)).trans ha.clock.1
        rw [hid, hnow]
        exact ⟨lt_of_le_of_lt ho hafter, fun hlt => absurd hlt (not_lt.2 ho)⟩
      · refine ⟨fun p hp => ?_, fun w p hp => .inl ?_, fun o ho happ hlt => ?_⟩
        · exact lt_of_le_of_lt ((h.committed p (ha.committed ▸ hp)).trans ha.clock.1) hafter
        · exact lt_of_le_of_lt ((h.polls w p (ha.polls ▸ hp)).1.trans ha.clock.1) hafter
        · rw [hid, hnow] at happ
          exact absurd (hnext ▸ next_le hday ho happ) (not_le.2 hlt)
    · have hrow := h.rows r hr
      have happ : s'.applied r.id = s.applied r.id := by rw [ha.applied, Function.update_of_ne hne]
      refine ⟨hrow.weekday, by rw [happ]; exact hrow.applied.trans hclock,
        by rw [happ, ha.committed]; exact hrow.pointer, fun jobId p o hj => by
          rw [happ]; exact hrow.keys jobId p o ((ha.keeps.jobs _ _ _ _).1 hj), fun hactive => ?_⟩
      have hrun := hrow.running hactive
      refine ⟨by rw [ha.committed]; exact hrun.committed, by rw [ha.polls]; exact hrun.polls,
        fun o ho hlt hbefore => ?_⟩
      rw [happ] at hlt
      refine (hrun.handled o ho hlt hbefore).imp (fun hx => hx.keeps ha.keeps) ?_
      rintro ⟨o, o', hcons, ho, ho', hcommitted, hpolls⟩
      exact ⟨o, o', hcons, by rwa [happ], ho'.trans hclock, by rwa [ha.committed], by rwa [ha.polls]⟩

/-! #### A poll reads -/

/-- A request names a local time of whole seconds. A poll does not come in the half microsecond before the
next run of an active schedule, where its query takes for due what is not. -/
def Exact (s : System) : Event → Prop
  | .create _ _ input _ | .update _ _ _ input _ => WholeSecond input.localTime
  | .poll _ reading =>
    ∀ r ∈ s.tables.schedules.rows, r.active = true → r.nextRunAt ≤ Nanos.timestamp6 reading →
      r.nextRunAt ≤ reading / 1000
  | _ => True

instance (s : System) (e : Event) : Decidable (Exact s e) := by
  cases e <;> (simp only [Exact]; infer_instance)

/-- What a poll has read that was exact. -/
def duePoll (s : System) (reading : ℤ) : Poll :=
  ⟨reading, s.tables.schedules.rows.filter fun v => v.active ∧
    v.nextRunAt ≤ Nanos.timestamp6 reading, s.users⟩

theorem mem_duePoll {worker : ℕ} {reading : ℤ} (hexact : Exact s (.poll worker reading))
    {v : ReportSchedule} : v ∈ (duePoll s reading).schedules ↔ v ∈ s.tables.schedules ∧ v.active = true ∧
    v.nextRunAt ≤ reading / 1000 := by
  have hround : reading / 1000 ≤ Nanos.timestamp6 reading := by
    unfold Nanos.timestamp6
    omega
  rw [duePoll, List.mem_filter, decide_eq_true_eq]
  constructor
  · rintro ⟨hv, hactive, hdue⟩
    exact ⟨hv, hactive, hexact v hv hactive hdue⟩
  · rintro ⟨hv, hactive, hdue⟩
    exact ⟨hv, hactive, hdue.trans hround⟩

theorem System.Ok.poll {worker : ℕ} {reading : ℤ} (h : s.Ok S) (hclock : s.clock ≤ reading / 1000)
    (hexact : Exact s (.poll worker reading)) :
    System.Ok S { s with
      clock := reading / 1000, polls := Function.update s.polls worker (some (duePoll s reading)) } := by
  have hpolls : ∀ {w p}, Function.update s.polls worker (some (duePoll s reading)) w = some p →
      p = duePoll s reading ∨ s.polls w = some p := by
    intro w p hp
    by_cases hw : w = worker
    · subst hw
      rw [Function.update_self] at hp
      exact .inl (Option.some.inj hp).symm
    · rw [Function.update_of_ne hw] at hp
      exact .inr hp
  have hdue : ∀ v ∈ (duePoll s reading).schedules, v ∈ s.tables.schedules ∧ v.active = true ∧
      v.nextRunAt ≤ reading / 1000 :=
    fun v hv => (mem_duePoll hexact).1 hv
  refine ⟨fun p hp => (h.committed p hp).trans hclock, fun w p hp => ?_, fun jobId p id o hj =>
    (h.jobs jobId p id o hj).trans hclock, h.known, h.drawn, fun r hr => ?_⟩
  · rcases hpolls hp with rfl | hp
    · refine ⟨le_refl _, s.tables.schedules.nodup.sublist (List.filter_sublist.map _), fun v hv => ?_,
        fun v hv => ?_, fun v hv => ?_⟩
      · exact ⟨(hdue v hv).2, (h.rows v (hdue v hv).1).weekday⟩
      · exact h.drawn v (hdue v hv).1
      · exact .of_mem (hdue v hv).1
    · obtain ⟨hle, hsnap⟩ := h.polls w p hp
      exact ⟨hle.trans hclock, hsnap.nodup, hsnap.due, hsnap.drawn, hsnap.copy⟩
  · have hrow := h.rows r hr
    refine ⟨hrow.weekday, hrow.applied.trans hclock, hrow.pointer, hrow.keys, fun hactive => ?_⟩
    have hrun := hrow.running hactive
    refine ⟨hrun.committed, fun w p hp => ?_, fun o ho happ hlt => (hrun.handled o ho happ hlt).imp_right ?_⟩
    · rcases hpolls hp with rfl | hp
      · by_cases hd : r.nextRunAt ≤ reading / 1000
        · exact .inr ⟨r, (mem_duePoll hexact).2 ⟨hr, hactive, hd⟩, rfl⟩
        · exact .inl (not_le.1 hd)
      · exact hrun.polls w p hp
    · -- What was missed is over.
      rintro ⟨o, o', hcons, ho, ho', hcommitted, hopen⟩
      refine ⟨o, o', hcons, ho, ho'.trans hclock, hcommitted, fun w p hp hle hlt => ?_⟩
      rcases hpolls hp with rfl | hp
      · exact absurd (lt_of_lt_of_le hlt ho') (not_lt.2 hclock)
      · exact hopen w p hp hle hlt

/-! #### A poll commits -/

section commit

variable {worker : ℕ} {poll : Poll} {tables : Tables} {v : ReportSchedule}

/-- The state after the commit. -/
def System.committing (s : System) (worker : ℕ) (poll : Poll) (tables : Tables) : System :=
  { s with tables, polls := Function.update s.polls worker none, committed := poll.now :: s.committed }

theorem polls_of_update {w : ℕ} {p : Poll} (hp : Function.update s.polls worker none w = some p) :
    s.polls w = some p := by
  by_cases hw : w = worker
  · subst hw
    rw [Function.update_self] at hp
    cases hp
  · rwa [Function.update_of_ne hw] at hp

/-- A gap that was missed stays: the poll that commits is not in it. -/
theorem Missed.committing (hm : Missed S s r) {x : ReportSchedule} (hid : x.id = r.id)
    (hoccurs : ∀ o, Occurs S x o ↔ Occurs S r o) (hversion : r.version ≤ x.version)
    (hnot : ∀ w ∈ poll.schedules, w.id = r.id → ¬ w.version < r.version)
    (hpoll : s.polls worker = some poll) : Missed S (s.committing worker poll tables) x := by
  obtain ⟨o, o', hcons, ho, ho', hcommitted, hopen⟩ := hm
  refine ⟨o, o', ⟨(hoccurs _).2 hcons.left, (hoccurs _).2 hcons.right, hcons.lt, fun y hy =>
    hcons.least y ((hoccurs _).1 hy)⟩, by rw [hid]; exact ho, ho', ?_, fun w p hp hle hlt => ?_⟩
  · rintro p hp hle
    rcases List.mem_cons.1 hp with rfl | hp
    · by_contra hn
      obtain ⟨w, hw, hwid, hold⟩ := hopen worker poll hpoll hle (not_le.1 hn)
      exact hnot w hw hwid hold
    · exact hcommitted p hp hle
  · obtain ⟨w, hw, hwid, hold⟩ := hopen w p (polls_of_update hp) hle hlt
    exact ⟨w, hw, hwid.trans hid.symm, lt_of_lt_of_le hold hversion⟩

/-- A schedule that the poll has not read. -/
theorem RowOk.unread (h : RowOk S s r) (hpoll : s.polls worker = some poll)
    (hc : Commits S poll poll.schedules s.tables tables) (hunread : ∀ w ∈ poll.schedules, w.id ≠ r.id) :
    RowOk S (s.committing worker poll tables) r := by
  refine ⟨h.weekday, h.applied, ?_, fun jobId p o hj => ?_, fun hactive => ?_⟩
  · obtain ⟨p, hp, heq⟩ := h.pointer
    exact ⟨p, hp.imp_right fun hp => ⟨List.mem_cons_of_mem _ hp.1, hp.2⟩, heq⟩
  · rcases hc.keys _ _ _ _ hj with hj | ⟨w, hw, -, hid, -⟩
    · exact h.keys jobId p o hj
    · exact absurd hid.symm (hunread w hw)
  · have hrun := h.running hactive
    refine ⟨?_, fun w p hp => hrun.polls w p (polls_of_update hp), fun o ho happ hlt => ?_⟩
    · rintro p hp
      rcases List.mem_cons.1 hp with rfl | hp
      · refine (hrun.polls worker poll hpoll).resolve_right ?_
        rintro ⟨w, hw, hid⟩
        exact hunread w hw hid
      · exact hrun.committed p hp
    · exact (hrun.handled o ho happ hlt).imp (hc.old _ _) fun hm =>
        hm.committing rfl (fun _ => Iff.rfl) (le_refl _) (fun w hw hid => absurd hid (hunread w hw)) hpoll

/-- A schedule that the poll writes. -/
theorem RowOk.written (h : s.Ok S) (hpoll : s.polls worker = some poll)
    (hc : Commits S poll poll.schedules s.tables tables) (hv : v ∈ poll.schedules) :
    RowOk S (s.committing worker poll tables) (raise (after S poll v)) := by
  have hmem := hc.current v hv
  have hrow := h.rows v hmem
  obtain ⟨hclock, hsnap⟩ := h.polls worker poll hpoll
  obtain ⟨⟨hactive, hdue⟩, hday⟩ := hsnap.due v hv
  have hrun := hrow.running hactive
  have hsame : ∀ w ∈ poll.schedules, w.id = v.id → w = v :=
    fun w hw hid => Table.eq_of_key (hc.current w hw) hmem hid
  cases hallowed : allowed poll v with
  | false =>
    have hx : raise (after S poll v) =
        { v with active := false, version := v.version + 1 } := by simp [raise, after, hallowed]
    rw [hx]
    refine ⟨hday, hrow.applied, ?_, fun jobId p o hj => ?_, fun h => by cases h⟩
    · obtain ⟨p, hp, heq⟩ := hrow.pointer
      exact ⟨p, hp.imp_right fun hp => ⟨List.mem_cons_of_mem _ hp.1, hp.2⟩, heq⟩
    · rcases hc.keys _ _ _ _ hj with hj | ⟨w, hw, ha, hid, -⟩
      · exact hrow.keys jobId p o hj
      · rw [hsame w hw hid.symm, hallowed] at ha
        cases ha
  | true =>
    have hx : raise (after S poll v) =
        { v with
          lastRunAt := some (Nanos.timestamp6 poll.reading),
          nextRunAt := nextOf S v poll.now, version := v.version + 1 } := by
      simp [raise, after, hallowed]
    rw [hx]
    have hnext : poll.now < nextOf S v poll.now := lt_next hday
    have happlied : s.applied v.id < poll.now := lt_of_lt_of_le hrow.applied_lt hdue
    refine ⟨hday, hrow.applied, ⟨poll.now, .inr ⟨List.mem_cons_self, happlied⟩, rfl⟩,
      fun jobId p o hj => ?_, fun _ => ?_⟩
    · rcases hc.keys _ _ _ _ hj with hj | ⟨w, hw, -, hid, rfl⟩
      · obtain ⟨hlt, hocc⟩ := hrow.keys jobId p o hj
        exact ⟨(hlt.trans_le hdue).trans hnext, hocc⟩
      · rw [hsame w hw hid.symm]
        exact ⟨lt_of_le_of_lt hdue hnext, fun _ => hrow.occurs⟩
    · refine ⟨fun p hp => ?_, fun w p hp => ?_, fun o ho happ hlt => ?_⟩
      · rcases List.mem_cons.1 hp with rfl | hp
        · exact hnext
        · exact ((hrun.committed p hp).trans_le hdue).trans hnext
      · exact (hrun.polls w p (polls_of_update hp)).imp_left fun hlt => (hlt.trans_le hdue).trans hnext
      · rcases lt_trichotomy o v.nextRunAt with hbefore | rfl | hbehind
        · refine (hrun.handled o ho happ hbefore).imp (hc.old _ _) fun hm => ?_
          refine hm.committing rfl (fun _ => Iff.rfl) (Nat.le_succ _) (fun w hw hid hold => ?_) hpoll
          rw [hsame w hw hid] at hold
          exact Nat.lt_irrefl _ hold
        · exact .inl (hc.new v hv hallowed)
        · -- The poll is late: the occurrence behind the one it takes is over, and no other poll can be
          -- between them.
          have hover : o ≤ poll.now := not_lt.1 fun hn => absurd (next_le hday ho hn) (not_le.2 hlt)
          have hcons := consecutive_next (S := S) hday hrow.occurs
          have hend : nextOf S v v.nextRunAt ≤ poll.now := (hcons.least o ho hbehind).trans hover
          refine .inr ⟨v.nextRunAt, nextOf S v v.nextRunAt,
            ⟨hcons.left, hcons.right, hcons.lt, hcons.least⟩, hrow.applied_lt, hend.trans hclock,
            fun p hp hle => ?_, fun w p hp hle _ => ?_⟩
          · rcases List.mem_cons.1 hp with rfl | hp
            · exact hend
            · exact absurd hle (not_le.2 (hrun.committed p hp))
          · have hp := polls_of_update hp
            obtain ⟨x, hxm, hid⟩ := (hrun.polls w p hp).resolve_left (not_lt.2 hle)
            exact ⟨x, hxm, hid, Nat.lt_succ_of_le (((h.polls w p hp).2.copy x hxm v hmem hid.symm).1)⟩

theorem System.Ok.commit (h : s.Ok S) (hpoll : s.polls worker = some poll)
    (hc : Commits S poll poll.schedules s.tables tables) : (s.committing worker poll tables).Ok S := by
  obtain ⟨hclock, hsnap⟩ := h.polls worker poll hpoll
  refine ⟨fun p hp => ?_, fun w p hp => ?_, fun jobId p id o hj => ?_, hc.known,
    fun r hr => ?_, fun r hr => ?_⟩
  · rcases List.mem_cons.1 hp with rfl | hp
    · exact hclock
    · exact h.committed p hp
  · obtain ⟨hle, hs⟩ := h.polls w p (polls_of_update hp)
    refine ⟨hle, hs.nodup, hs.due, hs.drawn, fun x hx y hy hid => ?_⟩
    rcases (hc.schedules y).1 hy with ⟨hy, -⟩ | ⟨z, hz, rfl⟩
    · exact hs.copy x hx y hy hid
    · have hzid : (raise (after S poll z)).id = z.id := id_after
      have hversion : (raise (after S poll z)).version = z.version + 1 := by rw [raise, version_after]
      have := (hs.copy x hx z (hc.current z hz) (hzid.symm.trans hid)).1
      exact ⟨by omega, fun heq => by omega⟩
  · rcases hc.keys _ _ _ _ hj with hj | ⟨v, hv, -, rfl, rfl⟩
    · exact h.jobs jobId p id o hj
    · exact (hsnap.due v hv).1.2.trans hclock
  · rcases (hc.schedules r).1 hr with ⟨hr, -⟩ | ⟨v, hv, rfl⟩
    · exact h.drawn r hr
    · rw [show (raise (after S poll v)).id = v.id from id_after]
      exact hsnap.drawn v hv
  · rcases (hc.schedules r).1 hr with ⟨hr, hunread⟩ | ⟨v, hv, rfl⟩
    · exact (h.rows r hr).unread hpoll hc hunread
    · exact .written h hpoll hc hv

end commit

/-! ### The runs -/

/-- Reports that are made in other ways have other jobs. -/
theorem keeps_of_requests {t t' : Tables} (hjobs : t'.jobs = t.jobs)
    (h : ∀ requestId jobId, (∀ j ∈ t.jobs.jobs, j.id = jobId → Scheduled j) →
      (HasRequest t' requestId jobId ↔ HasRequest t requestId jobId)) :
    Keeps t t' := by
  refine ⟨fun _ _ _ _ => by rw [hjobs], fun jobId p id o hj requestId =>
    h requestId jobId fun j hmem hid => ?_⟩
  obtain ⟨j', hj', hid', hscheduled⟩ := hj.scheduled
  rwa [Table.eq_of_key hmem hj' (hid.trans hid'.symm)]

theorem keeps_insertJob {t : Tables} {job : Job} {jobs : Table Job.id} (hjob : ¬ Scheduled job)
    (hi : t.jobs.jobs.insert job = some jobs) : Keeps t { t with jobs := { t.jobs with jobs } } := by
  refine ⟨fun jobId p id o => ⟨?_, ?_⟩, fun _ _ _ _ _ _ => Iff.rfl⟩
  · rintro ⟨j, hj, hid, hp, hkey⟩
    rcases (Table.mem_insert hi).1 hj with hj | rfl
    · exact ⟨j, hj, hid, hp, hkey⟩
    · exact absurd (scheduled_of_key hkey) hjob
  · rintro ⟨j, hj, hall⟩
    exact ⟨j, (Table.mem_insert hi).2 (.inl hj), hall⟩

theorem keeps_saveJob {t : Tables} {job j : Job} (hj : j ∈ t.jobs.jobs)
    (hsame : j.id = job.id ∧ j.payload = job.payload ∧ j.dedupeKey = job.dedupeKey) :
    Keeps t { t with jobs := { t.jobs with jobs := t.jobs.jobs.save job } } := by
  refine ⟨fun jobId p id o => ⟨?_, ?_⟩, fun _ _ _ _ _ _ => Iff.rfl⟩
  · rintro ⟨x, hx, hid, hp, hkey⟩
    rcases (Table.mem_save_of_mem hj hsame.1.symm).1 hx with rfl | ⟨hx, -⟩
    · exact ⟨j, hj, hsame.1.trans hid, hsame.2.1.trans hp, hsame.2.2.trans hkey⟩
    · exact ⟨x, hx, hid, hp, hkey⟩
  · rintro ⟨x, hx, hid, hp, hkey⟩
    by_cases hxj : x.id = job.id
    · obtain rfl := Table.eq_of_key hx hj (hxj.trans hsame.1.symm)
      exact ⟨job, Table.mem_save_self hj hsame.1, hsame.1.symm.trans hid, hsame.2.1.symm.trans hp,
        hsame.2.2.symm.trans hkey⟩
    · exact ⟨x, Table.mem_save.2 (.inl ⟨hx, hxj⟩), hid, hp, hkey⟩

theorem keeps_insertRequest {t : Tables} {request : ReportRequest} {requests : Table ReportRequest.id}
    {j : Job} (hj : j ∈ t.jobs.jobs) (hlink : request.jobId = some j.id) (hjob : ¬ Scheduled j)
    (hi : t.requests.insert request = some requests) : Keeps t { t with requests } := by
  refine keeps_of_requests rfl fun requestId jobId hscheduled => ⟨?_, ?_⟩
  · rintro ⟨r, hr, hid, hjobId⟩
    rcases (Table.mem_insert hi).1 hr with hr | rfl
    · exact ⟨r, hr, hid, hjobId⟩
    · rw [hlink] at hjobId
      exact absurd (hscheduled j hj (Option.some.inj hjobId)) hjob
  · rintro ⟨r, hr, hall⟩
    exact ⟨r, (Table.mem_insert hi).2 (.inl hr), hall⟩

theorem keeps_saveRequest {t : Tables} {request r : ReportRequest} (hr : r ∈ t.requests)
    (hsame : r.id = request.id ∧ r.jobId = request.jobId) :
    Keeps t { t with requests := t.requests.save request } := by
  refine keeps_of_requests rfl fun requestId jobId _ => ⟨?_, ?_⟩
  · rintro ⟨x, hx, hid, hjobId⟩
    rcases (Table.mem_save_of_mem hr hsame.1.symm).1 hx with rfl | ⟨hx, -⟩
    · exact ⟨r, hr, hsame.1.trans hid, hsame.2.trans hjobId⟩
    · exact ⟨x, hx, hid, hjobId⟩
  · rintro ⟨x, hx, hid, hjobId⟩
    by_cases hxr : x.id = request.id
    · obtain rfl := Table.eq_of_key hx hr (hxr.trans hsame.1.symm)
      exact ⟨request, Table.mem_save_self hr hsame.1, hsame.1.symm.trans hid, hsame.2.symm.trans hjobId⟩
    · exact ⟨x, Table.mem_save.2 (.inl ⟨hx, hxr⟩), hid, hjobId⟩

/-- Changes of the tables that leave the scheduled jobs alone. -/
theorem System.Ok.elsewhere {tables : Tables} (h : s.Ok S)
    (hschedules : tables.schedules = s.tables.schedules) (hkeeps : Keeps s.tables tables)
    (hknown : Known tables) : System.Ok S { s with tables } :=
  h.frames ⟨fun _ hr => hschedules ▸ hr, hkeeps, hknown, le_refl _, fun _ _ hp => hp, rfl, rfl, rfl⟩

/-- The row of a request whose local time is a whole second has the local time that its
next run was computed from. -/
theorem nextRunAt_apply (v : ReportSchedule) {input : ScheduleRequest} {now : Instant}
    (h : WholeSecond input.localTime) :
    (apply S v input now).nextRunAt = nextOf S (apply S v input now) now := by
  have hcolumn : (apply S v input now).localTime = input.localTime := S.timeColumn_of_whole _ h
  rw [nextOf, hcolumn]
  rfl

theorem System.Ok.step {e : Event} (h : s.Ok S) (hexact : Exact s e)
    (he : s.step S e = some s') : s'.Ok S := by
  cases e with
  | user id user =>
    cases he
    exact h.frames ⟨fun _ hr => hr, .of_eq rfl rfl, h.known, le_refl _, fun _ _ hp => hp, rfl, rfl, rfl⟩
  | create id owner input now =>
    simp only [System.step, Option.ite_none_right_eq_some, Option.map_eq_some_iff] at he
    obtain ⟨⟨hclock, hid, hday⟩, schedules, hs, rfl⟩ := he
    refine h.applies id now (apply S (blankSchedule id owner input now) input now)
      ⟨⟨rfl, hday, nextRunAt_apply _ hexact⟩, fun r hr => ?_, fun w p hp v hv y hy hkey => ?_, ⟨rfl, rfl⟩,
        ⟨hclock, rfl⟩, rfl, rfl, rfl, .inr rfl⟩
    · refine ((Table.mem_insert hs).1 hr).symm.imp_right fun hr => ⟨hr, ?_⟩
      exact fun heq => hid (heq ▸ h.drawn r hr)
    · rcases (Table.mem_insert hs).1 hy with hy | rfl
      · exact (h.polls w p hp).2.copy v hv y hy hkey
      · exact absurd ((h.polls w p hp).2.drawn v hv) (hkey ▸ hid)
  | update id actor version input now =>
    simp only [System.step, Option.ite_none_right_eq_some] at he
    obtain ⟨⟨hclock, hday⟩, he⟩ := he
    split at he
    · cases he
      exact h.frames ⟨fun _ hr => hr, .of_eq rfl rfl, h.known, hclock, fun _ _ hp => hp, rfl, rfl, rfl⟩
    · rename_i v hv
      obtain ⟨hfind, -⟩ := Option.filter_eq_some_iff.1 hv
      obtain ⟨hmem, rfl⟩ := Table.find?_eq_some.1 hfind
      obtain ⟨schedules, hs, rfl⟩ := Option.map_eq_some_iff.1 he
      obtain ⟨-, ⟨rfl, hsame⟩ | rfl⟩ := Table.flush_eq_some hs (.of_mem hmem)
      · refine h.applies v.id now (apply S v input now)
          ⟨⟨rfl, hday, nextRunAt_apply v hexact⟩, fun r hr => ?_, fun w p hp => (h.polls w p hp).2.copy,
            ⟨rfl, rfl⟩, ⟨hclock, rfl⟩, rfl, rfl, rfl, .inl ⟨rfl, h.drawn v hmem⟩⟩
        by_cases hid : r.id = v.id
        · exact .inl ((Table.eq_of_key hr hmem hid).trans hsame.symm)
        · exact .inr ⟨hr, hid⟩
      · have hid : (raise (apply S v input now)).id = v.id := rfl
        exact h.applies v.id now (raise (apply S v input now))
          ⟨⟨rfl, hday, nextRunAt_apply v hexact⟩, fun r hr => (Table.mem_save_of_mem hmem hid).1 hr,
            fun w p hp x hx => ((h.polls w p hp).2.copy x hx).save hmem rfl (Nat.lt_succ_self _),
            ⟨rfl, rfl⟩, ⟨hclock, rfl⟩, rfl, rfl, rfl, .inl ⟨rfl, h.drawn v hmem⟩⟩
  | delete id actor =>
    cases he
    exact h.frames ⟨fun _ hr => (Table.mem_delete.1 hr).1, .of_eq rfl rfl, h.known, le_refl _, fun _ _ hp =>
      hp, rfl, rfl, rfl⟩
  | poll worker reading =>
    simp only [System.step, Option.ite_none_right_eq_some, Option.some.injEq] at he
    obtain ⟨⟨hclock, -⟩, rfl⟩ := he
    exact h.poll hclock hexact
  | commit worker fresh =>
    simp only [System.step, Option.map_eq_some_iff] at he
    obtain ⟨poll, hpoll, he⟩ := he
    split at he
    · rename_i u tables hrun
      subst he
      have hsnap := (h.polls worker poll hpoll).2
      refine h.commit hpoll (wp_enqueueDue hsnap.nodup hsnap.due hsnap.copy h.known
        (fun v _ hmem jobId p hj => ?_) _ _ hrun)
      exact lt_irrefl _ ((h.rows v hmem).keys jobId p _ hj).1
    · subst he
      exact h.frames ⟨fun _ hr => hr, .of_eq rfl rfl, h.known, le_refl _, fun _ _ hp =>
        polls_of_update hp, rfl, rfl, rfl⟩
  | abandon worker =>
    cases he
    exact h.frames ⟨fun _ hr => hr, .of_eq rfl rfl, h.known, le_refl _, fun _ _ hp =>
      polls_of_update hp, rfl, rfl, rfl⟩
  | jobInserted job =>
    simp only [System.step] at he
    split at he
    · cases he
    · rename_i hjob
      obtain ⟨jobs, hi, rfl⟩ := Option.map_eq_some_iff.1 he
      refine h.elsewhere rfl (keeps_insertJob hjob hi) fun r hr jobId hjobId => ?_
      obtain ⟨j, hj, hid⟩ := h.known r hr jobId hjobId
      exact ⟨j, (Table.mem_insert hi).2 (.inl hj), hid⟩
  | jobChanged job =>
    simp only [System.step, Option.ite_none_right_eq_some, Option.some.injEq] at he
    obtain ⟨⟨j, hj, hsame⟩, rfl⟩ := he
    refine h.elsewhere rfl (keeps_saveJob hj hsame) fun r hr jobId hjobId => ?_
    obtain ⟨x, hx, hid⟩ := h.known r hr jobId hjobId
    by_cases hxj : x.id = job.id
    · exact ⟨job, Table.mem_save_self hj hsame.1, hxj.symm.trans hid⟩
    · exact ⟨x, Table.mem_save.2 (.inl ⟨hx, hxj⟩), hid⟩
  | requestInserted request =>
    simp only [System.step, Option.ite_none_right_eq_some] at he
    obtain ⟨⟨j, hj, hlink, hjob⟩, he⟩ := he
    obtain ⟨requests, hi, rfl⟩ := Option.map_eq_some_iff.1 he
    refine h.elsewhere rfl (keeps_insertRequest hj hlink hjob hi) fun r hr jobId hjobId => ?_
    rcases (Table.mem_insert hi).1 hr with hr | rfl
    · exact h.known r hr jobId hjobId
    · rw [hlink] at hjobId
      exact ⟨j, hj, Option.some.inj hjobId⟩
  | requestChanged request =>
    simp only [System.step, Option.ite_none_right_eq_some, Option.some.injEq] at he
    obtain ⟨⟨x, hx, hsame⟩, rfl⟩ := he
    refine h.elsewhere rfl (keeps_saveRequest hx hsame) fun r hr jobId hjobId => ?_
    rcases (Table.mem_save_of_mem hx hsame.1.symm).1 hr with rfl | ⟨hr, -⟩
    · exact h.known x hx jobId (hsame.2 ▸ hjobId)
    · exact h.known r hr jobId hjobId

theorem System.ok_start : System.Ok S .start :=
  ⟨by simp [System.start], by simp [System.start],
    fun _ _ _ _ h => by simp [HasJob, System.start, JobDb.empty, Table.not_mem_empty] at h, by
      simp [Known, System.start, Table.not_mem_empty], by simp [System.start, Table.not_mem_empty],
    by simp [System.start, Table.not_mem_empty]⟩

theorem System.run_eq_foldlM {es : List Event} : s.run S es = es.foldlM (System.step S) s := by
  induction es generalizing s with
  | nil => rfl
  | cons e es ih =>
    rw [System.run, List.foldlM_cons]
    exact congrArg _ (funext fun s => ih)

theorem System.Ok.run {es : List Event} (h : s.Ok S) (hexact : RunMeets (System.step S) Exact s es)
    (hrun : s.run S es = some s') : s'.Ok S :=
  hexact.keeps (fun _ _ _ hs he hstep => System.Ok.step hs he hstep) h (System.run_eq_foldlM.symm.trans hrun)

end runs

/-- The next run is the first occurrence after now. In an exact run in which a poll was committed
between any two occurrences in a row since an active schedule was applied, each occurrence that a
committed poll has passed has exactly one request with its own job, and a later one has none yet; the
schedule goes on with the first of these. -/
theorem scheduled_once (S : Settings) :
    (∀ (zone : Zone) (localTime : LocalTime) (day : Option ℤ) (now : Instant), Weekday day →
      IsLeast {o | now < o ∧ Occurrence zone localTime day o} (next zone localTime day now)) ∧
    ∀ (es : List Event) (s : System), System.start.run S es = some s →
    RunMeets (System.step S) Exact .start es →
      ∀ r ∈ s.tables.schedules, r.active = true →
      (∀ o o', Consecutive S r o o' → s.applied r.id < o → o' ≤ s.clock → ∃ p ∈ s.committed, o ≤ p ∧ p < o') →
      IsLeast {o | Occurs S r o ∧ s.applied r.id < o ∧ ∀ p ∈ s.committed, p < o} r.nextRunAt ∧
      ∀ o, Occurs S r o → s.applied r.id < o →
        ((∃ p ∈ s.committed, o ≤ p) → ExactlyOnce s.tables r.id o) ∧
        ((∀ p ∈ s.committed, p < o) → ∀ jobId p, ¬ HasJob s.tables.jobs jobId p (dedupeKey r.id o)) := by
  refine ⟨fun zone localTime day now hday => isLeast_next hday,
    fun es s hrun hexact r hr hactive hpolled => ?_⟩
  have hrow := (System.ok_start.run hexact hrun).rows r hr
  have hrunning := hrow.running hactive
  have hleast : IsLeast {o | Occurs S r o ∧ s.applied r.id < o ∧ ∀ p ∈ s.committed, p < o} r.nextRunAt := by
    refine ⟨⟨hrow.occurs, hrow.applied_lt, hrunning.committed⟩, ?_⟩
    rintro o ⟨ho, happ, hlater⟩
    obtain ⟨p, hp, heq⟩ := hrow.pointer
    rw [heq]
    refine next_le hrow.weekday ho ?_
    rcases hp with rfl | ⟨hp, -⟩
    · exact happ
    · exact hlater p hp
  refine ⟨hleast, fun o ho happ => ⟨?_, fun hlater jobId p hj => ?_⟩⟩
  · rintro ⟨p, hp, hle⟩
    refine (hrunning.handled o ho happ (lt_of_le_of_lt hle (hrunning.committed p hp))).resolve_right ?_
    rintro ⟨a, b, hcons, ha, hb, hnone, -⟩
    obtain ⟨q, hq, hqa, hqb⟩ := hpolled a b hcons ha hb
    exact absurd (hnone q hq hqa) (not_le.2 hqb)
  · exact absurd (hleast.2 ⟨ho, happ, hlater⟩) (not_le.2 (hrow.keys jobId p o hj).1)

/-! A daily schedule at seven: two nodes poll on its first day, one of them commits, and one
polls again on the second. -/

/-- The nearest second, halves upwards. -/
def nearestSecond (t : LocalTime) : LocalTime :=
  ⟨(t.val + 500000) / 1000000 * 1000000 % microsPerDay, Nat.mod_lt _ (by decide)⟩

theorem nearestSecond_of_whole (t : LocalTime) (h : WholeSecond t) : nearestSecond t = t := by
  unfold WholeSecond at h
  refine Fin.ext ?_
  show (t.val + 500000) / 1000000 * 1000000 % microsPerDay = t.val
  rw [show (t.val + 500000) / 1000000 * 1000000 = t.val by omega]
  exact Nat.mod_eq_of_lt t.isLt

def settings : Settings :=
  ⟨fun _ => Zone.fixed 0, fun _ => "REPORT_MANAGE", 3, 60, nearestSecond, nearestSecond_of_whole⟩

def seven : LocalTime := ⟨25200000000, by decide⟩

def twoDays : List Event :=
  [.user 1 (some ⟨1, .owner, true, false⟩), .create 7 1 ⟨"revenue", .csv, 0, 1, "UTC", seven, none⟩
    25200000000, .poll 1 111600000001000, .poll 2 111600000001000, .commit 1 [⟨20, 21, none, 111600000002⟩],
    .commit 2 [⟨22, 23, none, 111600000003⟩], .poll 1 198000000001000,
    .commit 1 [⟨24, 25, none, 198000000002⟩]]

def afterTwoDays : System := (System.start.run settings twoDays).getD .start

def daily : ReportSchedule :=
  { id := 7, ownerId := 1, definitionKey := "revenue", format := .csv, filtersJson := "0|1",
    timezone := "UTC",
    localTime := seven, dayOfWeek := none, active := true, nextRunAt := 284400000000,
    lastRunAt := some 198000000001, version := 2 }

theorem run_twoDays : System.start.run settings twoDays = some afterTwoDays := by
  have h : (System.start.run settings twoDays).isSome = true := by decide +kernel
  obtain ⟨s, hs⟩ := Option.isSome_iff_exists.1 h
  rw [afterTwoDays, hs, Option.getD_some]

theorem occurs_daily {o : Instant} : Occurs settings daily o ↔
    ∃ d : ℤ, o = d * 86400000000 + 25200000000 := by
  have hinstant : ∀ d : ℤ, (settings.zoneOf daily.timezone).instantOf d daily.localTime = d *
      86400000000 + 25200000000 := by
    intro d
    show d * 86400000000 + 25200000000 - 0 = d * 86400000000 + 25200000000
    rw [sub_zero]
  constructor
  · rintro ⟨d, -, rfl⟩
    exact ⟨d, hinstant d⟩
  · rintro ⟨d, rfl⟩
    exact ⟨d, (fun w hw => by cases hw), (hinstant d).symm⟩

/-- Between the two occurrences that are over there was a poll. -/
theorem polled_daily {o o' : Instant} (hcons : Consecutive settings daily o o') (ho : 25200000000 < o)
    (ho' : o' ≤ 198000000001) : o ≤ 111600000001 ∧ 111600000001 < o' := by
  obtain ⟨d, rfl⟩ := occurs_daily.1 hcons.left
  obtain ⟨d', rfl⟩ := occurs_daily.1 hcons.right
  have hpos : (25200000000 : ℤ) < d * 86400000000 + 25200000000 := ho
  have hend : d' * 86400000000 + 25200000000 ≤ (198000000001 : ℤ) := ho'
  have hlt : d * 86400000000 + 25200000000 < d' * 86400000000 + 25200000000 := hcons.lt
  have hd : d = 1 := by omega
  have hd' : d' = 2 := by omega
  subst hd hd'
  decide

/-! A schedule at six tenths of a second behind seven is read as one at a second behind seven: polls
at seven tenths and a minute
later both find it due. A poll 400 nanoseconds before seven finds the schedule of
seven due, and leaves it due. -/

def sixTenths : LocalTime := ⟨25200600000, by decide⟩

def repeated : List Event :=
  [.user 1 (some ⟨1, .owner, true, false⟩), .create 7 1 ⟨"revenue", .csv, 0, 1, "UTC", sixTenths, none⟩ 0,
    .poll 1 25200700000000, .commit 1 [⟨20, 21, none, 25200700001⟩], .poll 1 25260700000000,
    .commit 1 [⟨22, 23, none, 25260700001⟩]]

def early : List Event :=
  [.user 1 (some ⟨1, .owner, true, false⟩), .create 7 1 ⟨"revenue", .csv, 0, 1, "UTC", seven, none⟩ 0,
    .poll 1 25199999999600, .commit 1 [⟨20, 21, none, 25200000001⟩], .poll 1 25260000000000,
    .commit 1 [⟨22, 23, none, 25260000001⟩]]

/-- Two requests for the one occurrence until the second poll, whether the local time is the one
asked for or the one read. -/
theorem scheduled_twice :
    (∃ s, System.start.run settings repeated = some s ∧ s.tables.schedules.rows.map (·.active) = [true] ∧
      s.tables.requests.rows.map (·.snapshotAt) = [25200700000, 25260700000]) ∧
    (∃ s, System.start.run settings early = some s ∧ s.tables.schedules.rows.map (·.active) = [true] ∧
      s.tables.requests.rows.map (·.jobId) = [some 21, some 21]) ∧
    ∀ localTime ∈ [sixTenths, nearestSecond sixTenths, seven], ∀ o o', Occurrence (Zone.fixed 0) localTime
      none o → Occurrence (Zone.fixed 0) localTime none o' → 0 < o → o ≤ 25260700000 → 0 < o' →
      o' ≤ 25260700000 → o = o' := by
  have hrepeated : (System.start.run settings repeated).map (fun s =>
      (s.tables.schedules.rows.map (·.active), s.tables.requests.rows.map (·.snapshotAt))) =
      some ([true], [25200700000, 25260700000]) := by decide +kernel
  have hearly : (System.start.run settings early).map (fun s =>
      (s.tables.schedules.rows.map (·.active), s.tables.requests.rows.map (·.jobId))) =
      some ([true], [some 21, some 21]) := by decide +kernel
  obtain ⟨s, hrun, hs⟩ := Option.map_eq_some_iff.1 hrepeated
  obtain ⟨u, hrun', hu⟩ := Option.map_eq_some_iff.1 hearly
  refine ⟨⟨s, hrun, congrArg Prod.fst hs, congrArg Prod.snd hs⟩,
    ⟨u, hrun', congrArg Prod.fst hu, congrArg Prod.snd hu⟩, ?_⟩
  rintro localTime - o o' ⟨d, -, rfl⟩ ⟨d', -, rfl⟩ h1 h2 h1' h2'
  have hlt : (localTime.val : ℤ) < 86400000000 := Int.ofNat_lt.2 localTime.isLt
  have hday : ∀ e : ℤ, (0 : ℤ) < e * 86400000000 + localTime.val - 0 →
      e * 86400000000 + localTime.val - 0 ≤ (25260700000 : ℤ) → e = 0 := by
    intro e h h'
    omega
  rw [hday d h1 h2, hday d' h1' h2']

theorem scheduled_once_daily : System.start.run settings twoDays = some afterTwoDays ∧
    ExactlyOnce afterTwoDays.tables 7 111600000000 ∧ ExactlyOnce afterTwoDays.tables 7 198000000000 := by
  have hrun := run_twoDays
  have happlied : afterTwoDays.applied daily.id = 25200000000 := by decide +kernel
  have hclock : afterTwoDays.clock = 198000000001 := by decide +kernel
  have hcommitted : afterTwoDays.committed = [198000000001, 111600000001] := by decide +kernel
  have hmem : daily ∈ afterTwoDays.tables.schedules.rows := by decide +kernel
  generalize afterTwoDays = s at *
  have hexact : RunMeets (System.step settings) Exact .start twoDays := by decide +kernel
  have hmain := (scheduled_once settings).2 twoDays s hrun hexact daily hmem rfl fun o o' hcons ho ho' => by
    rw [happlied] at ho
    rw [hclock] at ho'
    exact ⟨111600000001, by simp [hcommitted], polled_daily hcons ho ho'⟩
  rw [happlied, hcommitted] at hmain
  exact ⟨hrun, (hmain.2 _ (occurs_daily.2 ⟨1, rfl⟩) (by decide)).1 ⟨111600000001, by simp, by decide⟩,
    (hmain.2 _ (occurs_daily.2 ⟨2, rfl⟩) (by decide)).1 ⟨198000000001, by simp, by decide⟩⟩

end GManager.Schedules
