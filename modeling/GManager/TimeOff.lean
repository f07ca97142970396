import GManager.Rows
import GManager.Span
import GManager.Transactions

/-!
# Time off

`EmployeeTimeOffService`: an entry is created when no entry of the employee that is pending or approved
overlaps it, and decided under its version. Nothing is locked in between: the overlaps are counted in what
is committed when the query runs, or when the transaction read first under `REPEATABLE_READ`, and the entry
is inserted later. So entries stay apart in the runs in which no overlapping entry of the employee is
created between the count and the insert, and only there.
-/

namespace GManager.TimeOff

/-- A row of `employee_time_off`, with its version. -/
structure Entry extends EmployeeTimeOff where
  version : ℤ
  deriving DecidableEq, Repr

structure Store where
  users : Table User.id
  entries : Table fun t : Entry => t.id

structure TimeOffRequest where
  employeeId : UUID
  startsAt : Instant
  endsAt : Instant
  deriving DecidableEq, Repr

structure TimeOffDecisionRequest where
  status : TimeOffStatus
  version : ℤ
  deriving DecidableEq, Repr

/-- The statuses that `requireNoOverlap` counts. -/
def Entry.live (t : Entry) : Prop := t.status = .pending ∨ t.status = .approved

instance (t : Entry) : Decidable t.live := inferInstanceAs (Decidable (_ ∨ _))

def Store.overlaps (s : Store) (employee : UUID) (start stop : Instant)
    (exclude : Option UUID) : List Entry :=
  s.entries.rows.filter fun t => t.employeeId = employee ∧ t.live ∧ Overlaps t.startsAt t.endsAt start stop ∧
    exclude ≠ some t.id

def Store.countOverlaps (s : Store) (employee : UUID) (start stop : Instant) (exclude : Option UUID) : ℕ :=
  (s.overlaps employee start stop exclude).length

def requireNoOverlap (counted : Store) (employee : UUID) (start stop : Instant) (exclude : Option UUID) :
    Except Failure Unit :=
  if counted.countOverlaps employee start stop exclude > 0 then
    .error (fail .conflict "Employee time off overlaps an existing request")
  else .ok ()

def validateRange (start stop : Instant) : Except Failure Unit :=
  if start < stop then .ok () else .error (fail .badRequest "Time-off end must be after start")

/-- The entry to insert: the employee is looked up in `found`, the overlaps are counted in `counted`. -/
def create (granted : Bool) (id : UUID) (request : TimeOffRequest) (found counted : Store) :
    Except Failure Entry := do
  if !granted then throw .accessDenied
  let some employee := found.users.find? request.employeeId | throw (fail .notFound "Employee not found")
  if employee.role ≠ .employee ∨ !employee.active then
    throw (fail .unprocessableEntity "Selected user is not an active employee")
  validateRange request.startsAt request.endsAt
  requireNoOverlap counted request.employeeId request.startsAt request.endsAt none
  return { id, employeeId := request.employeeId, startsAt := request.startsAt, endsAt := request.endsAt,
           status := .pending, version := 0 }

/-- The entry to write over the one in `found`. -/
def decide (granted : Bool) (id : UUID) (request : TimeOffDecisionRequest) (now : Instant)
    (found counted : Store) :
    Except Failure Entry := do
  if !granted then throw .accessDenied
  let some value := found.entries.find? id | throw (fail .notFound "Time off not found")
  if value.version ≠ request.version then
    throw (fail .conflict "Resource was changed; refresh and try again")
  if request.status ≠ .approved ∧ request.status ≠ .rejected ∧ request.status ≠ .cancelled then
    throw (fail .unprocessableEntity "Unsupported time-off transition")
  if value.status = .rejected ∨ value.status = .cancelled ∨
      value.status = .approved ∧ request.status ≠ .cancelled then
    throw (fail .conflict "Time-off transition is not allowed")
  if request.status = .approved then
    if ¬ now < value.endsAt then throw (fail .conflict "Past time off cannot be approved")
    requireNoOverlap counted value.employeeId value.startsAt value.endsAt (some value.id)
  return { value with status := request.status }

/-- The insert of `saveAndFlush`, with the commit. -/
def Store.insert (s : Store) (value : Entry) : Option Store :=
  (s.entries.insert value).map fun entries => { s with entries }

/-- The update of `saveAndFlush`, with the commit: the row must still have the version that was read. -/
def Store.update (s : Store) (value : Entry) : Option Store :=
  match s.entries.find? value.id with
  | none => none
  | some row =>
    if row.version = value.version then
      some { s with entries := s.entries.save { value with version := value.version + 1 } }
    else none

inductive Isolation
  | readCommitted
  | repeatableRead
  deriving DecidableEq, Repr

/-- The two reads of a transaction: one snapshot for both, or what is committed at each. -/
def Isolation.reads : Isolation → (Store → Store → Transaction Store) → Transaction Store
  | .readCommitted, f => .read fun found => .read fun counted => f found counted
  | .repeatableRead, f => .read fun found => f found found

inductive Call
  | create (isolation : Isolation) (granted : Bool) (id : UUID) (request : TimeOffRequest)
  | decide (isolation : Isolation) (granted : Bool) (id : UUID)
      (request : TimeOffDecisionRequest) (now : Instant)

def code : Call → Transaction Store
  | .create isolation granted id request => isolation.reads fun found counted =>
    match create granted id request found counted with
    | .error _ => .done
    | .ok value => .write (·.insert value) .done
  | .decide isolation granted id request now => isolation.reads fun found counted =>
    match decide granted id request now found counted with
    | .error _ => .done
    | .ok value => .write (·.update value) .done

/-- No two live entries of an employee overlap. -/
def Store.Apart (s : Store) : Prop :=
  ∀ t ∈ s.entries, ∀ t' ∈ s.entries, t.id ≠ t'.id → t.employeeId = t'.employeeId → t.live → t'.live →
    ¬ Overlaps t.startsAt t.endsAt t'.startsAt t'.endsAt

/-- What an insert has to find: every live entry of the employee that overlaps the request was already there
when the overlaps were counted. -/
def Undisturbed : Call → Store → Store → Prop
  | .create _ _ _ request, counted, s => ∀ t ∈ s.entries, t.employeeId = request.employeeId → t.live →
      Overlaps t.startsAt t.endsAt request.startsAt request.endsAt → ∃ t₀ ∈ counted.entries, t₀.id = t.id
  | .decide .., _, _ => True

/-! ## How the entries go on -/

/-- An entry is the same, or a later version of it, which is live only if it was. -/
structure Entry.Later (t t' : Entry) : Prop where
  id : t'.id = t.id
  employeeId : t'.employeeId = t.employeeId
  startsAt : t'.startsAt = t.startsAt
  endsAt : t'.endsAt = t.endsAt
  live : t'.live → t.live
  version : t.version ≤ t'.version
  same : t'.version = t.version → t' = t

theorem Entry.Later.refl (t : Entry) : t.Later t :=
  ⟨rfl, rfl, rfl, rfl, fun h => h, Int.le_refl _, fun _ => rfl⟩

theorem Entry.Later.trans {t t' t'' : Entry} (h : t.Later t') (h' : t'.Later t'') : t.Later t'' := by
  refine ⟨h'.id.trans h.id, h'.employeeId.trans h.employeeId, h'.startsAt.trans h.startsAt,
    h'.endsAt.trans h.endsAt, fun hl => h.live (h'.live hl), Int.le_trans h.version h'.version, fun hv => ?_⟩
  have h1 := h.version
  have h2 := h'.version
  rw [h'.same (by omega), h.same (by omega)]

/-- Every entry goes on, none is deleted. -/
def Store.Later (s s' : Store) : Prop := ∀ t ∈ s.entries, ∃ t' ∈ s'.entries, t.Later t'

instance : IsPreorder Store Store.Later where
  refl _ t ht := ⟨t, ht, .refl t⟩
  trans _ _ _ h h' t ht := by
    obtain ⟨t', ht', hl⟩ := h t ht
    obtain ⟨t'', ht'', hl'⟩ := h' t' ht'
    exact ⟨t'', ht'', hl.trans hl'⟩

/-- The entry under an id that was seen is the one there now, gone on. -/
theorem Store.Later.at {s s' : Store} (h : s.Later s') {t t' : Entry} (ht : t ∈ s.entries)
    (ht' : t' ∈ s'.entries) (hid : t'.id = t.id) : t.Later t' := by
  obtain ⟨t'', ht'', hl⟩ := h t ht
  rwa [Table.eq_of_key ht' ht'' (hid.trans hl.id.symm)]

/-! ## What the calls write -/

theorem requireNoOverlap_ok {counted : Store} {employee : UUID} {start stop : Instant} {exclude : Option UUID}
    (h : requireNoOverlap counted employee start stop exclude = .ok ()) :
    counted.overlaps employee start stop exclude = [] := by
  unfold requireNoOverlap at h
  split at h
  · cases h
  · next hcount =>
    rw [Store.countOverlaps] at hcount
    exact List.length_eq_zero_iff.1 (by omega)

theorem create_ok {granted : Bool} {id : UUID} {request : TimeOffRequest} {found counted : Store}
    {value : Entry} (h : create granted id request found counted = .ok value) :
    value.employeeId = request.employeeId ∧ value.startsAt = request.startsAt ∧
    value.endsAt = request.endsAt ∧
      counted.overlaps request.employeeId request.startsAt request.endsAt none = [] := by
  unfold create at h
  simp only [bind, Except.bind, pure, Except.pure, throw, throwThe, MonadExceptOf.throw] at h
  repeat' split at h
  all_goals cases h
  next hoverlap => exact ⟨rfl, rfl, rfl, requireNoOverlap_ok hoverlap⟩

theorem live_of_transition {t : Entry} {request : TimeOffDecisionRequest}
    (h : ¬ (t.status = .rejected ∨ t.status = .cancelled ∨ t.status = .approved ∧
      request.status ≠ .cancelled)) :
    t.live := by
  unfold Entry.live
  cases hs : t.status <;> simp_all

theorem decide_ok {granted : Bool} {id : UUID} {request : TimeOffDecisionRequest} {now : Instant}
    {found counted : Store} {value : Entry} (h : decide granted id request now found counted = .ok value) :
    ∃ t ∈ found.entries, t.live ∧ value = { t with status := request.status } := by
  unfold decide at h
  simp only [bind, Except.bind, pure, Except.pure, throw, throwThe, MonadExceptOf.throw] at h
  repeat' split at h
  all_goals cases h
  all_goals
    refine ⟨_, (Table.find?_eq_some.1 ‹_›).1, live_of_transition ‹_›, rfl⟩

theorem insert_eq_some {s s' : Store} {value : Entry} (h : s.insert value = some s') :
    (∀ t ∈ s.entries, t.id ≠ value.id) ∧ ∀ t, t ∈ s'.entries ↔ t ∈ s.entries ∨ t = value := by
  obtain ⟨entries, hentries, rfl⟩ := Option.map_eq_some_iff.1 h
  exact ⟨(Table.insert_eq_some.1 hentries).1, fun t => Table.mem_insert hentries⟩

theorem update_eq_some {s s' : Store} {value : Entry} (h : s.update value = some s') :
    ∃ row ∈ s.entries, row.id = value.id ∧ row.version = value.version ∧
      ∀ t, t ∈ s'.entries ↔ t = { value with version := value.version + 1 } ∨ t ∈ s.entries ∧
      t.id ≠ value.id := by
  unfold Store.update at h
  split at h
  · cases h
  next row hrow =>
  split at h
  · next hversion =>
    cases h
    obtain ⟨hmem, hid⟩ := Table.find?_eq_some.1 hrow
    refine ⟨row, hmem, hid, hversion, fun t => ?_⟩
    rw [Table.mem_save_of_mem hmem (by exact hid.symm), hid]
  · cases h

/-! ## What the writes keep -/

theorem Store.Apart.insert {s s' : Store} {value : Entry} (h : s.Apart) (hs : s.insert value = some s')
    (hfree : ∀ t ∈ s.entries, t.employeeId = value.employeeId → t.live →
      ¬ Overlaps t.startsAt t.endsAt value.startsAt value.endsAt) : s'.Apart := by
  obtain ⟨_, hmem⟩ := insert_eq_some hs
  intro t ht t' ht' hne hemployee hlive hlive' hover
  rcases (hmem t).1 ht with ht | rfl <;> rcases (hmem t').1 ht' with ht' | rfl
  · exact h t ht t' ht' hne hemployee hlive hlive' hover
  · exact hfree t ht hemployee hlive hover
  · exact hfree t' ht' hemployee.symm hlive' hover.symm
  · exact hne rfl

theorem Store.Later.insert {s s' : Store} {value : Entry} (hs : s.insert value = some s') : s.Later s' := by
  obtain ⟨_, hmem⟩ := insert_eq_some hs
  exact fun t ht => ⟨t, (hmem t).2 (.inl ht), .refl t⟩

theorem Entry.Later.status (t : Entry) (status : TimeOffStatus) (hlive : t.live) :
    t.Later { t with status := status, version := t.version + 1 } := by
  refine ⟨rfl, rfl, rfl, rfl, fun _ => hlive, ?_, fun h => ?_⟩
  · show t.version ≤ t.version + 1
    omega
  · simp at h

theorem decided {found s s' : Store} {t : Entry} {status : TimeOffStatus} (hlater : found.Later s)
    (ht : t ∈ found.entries) (hlive : t.live) (hs : s.update { t with status := status } = some s')
    (h : s.Apart) : s'.Apart ∧ s.Later s' := by
  obtain ⟨row, hrow, hid, hversion, hmem⟩ := update_eq_some hs
  have heq : row = t := (hlater.at ht hrow hid).same hversion
  subst heq
  have hnext := Entry.Later.status row status hlive
  have hback : ∀ u ∈ s'.entries, ∃ u₀ ∈ s.entries, u₀.Later u := by
    intro u hu
    rcases (hmem u).1 hu with rfl | ⟨hu, _⟩
    · exact ⟨row, hrow, hnext⟩
    · exact ⟨u, hu, .refl u⟩
  constructor
  · intro u hu u' hu' hne hemployee hl hl' hover
    obtain ⟨u₀, hu₀, h₀⟩ := hback u hu
    obtain ⟨u₀', hu₀', h₀'⟩ := hback u' hu'
    rw [h₀.id, h₀'.id] at hne
    rw [h₀.employeeId, h₀'.employeeId] at hemployee
    rw [h₀.startsAt, h₀.endsAt, h₀'.startsAt, h₀'.endsAt] at hover
    exact h u₀ hu₀ u₀' hu₀' hne hemployee (h₀.live hl) (h₀'.live hl') hover
  · intro u hu
    by_cases hui : u.id = row.id
    · rw [Table.eq_of_key hu hrow hui]
      exact ⟨_, (hmem _).2 (.inl rfl), hnext⟩
    · exact ⟨u, (hmem u).2 (.inr ⟨hu, hui⟩), .refl u⟩

/-- The overlaps were counted to none, and none came up since. -/
theorem created {counted s s' : Store} {request : TimeOffRequest} {value : Entry} (hlater : counted.Later s)
    (hemployee : value.employeeId = request.employeeId) (hstart : value.startsAt = request.startsAt)
    (hend : value.endsAt = request.endsAt)
    (hnone : counted.overlaps request.employeeId request.startsAt request.endsAt none = [])
    (hundisturbed : ∀ t ∈ s.entries, t.employeeId = request.employeeId → t.live →
      Overlaps t.startsAt t.endsAt request.startsAt request.endsAt → ∃ t₀ ∈ counted.entries, t₀.id = t.id)
    (hs : s.insert value = some s') (h : s.Apart) : s'.Apart ∧ s.Later s' := by
  refine ⟨h.insert hs fun t ht he hlive hover => ?_, .insert hs⟩
  rw [hemployee] at he
  rw [hstart, hend] at hover
  obtain ⟨t₀, ht₀, hid⟩ := hundisturbed t ht he hlive hover
  have hl := hlater.at ht₀ ht hid.symm
  have : t₀ ∈ counted.overlaps request.employeeId request.startsAt request.endsAt none := by
    refine List.mem_filter.2 ⟨ht₀, ?_⟩
    rw [← hl.startsAt, ← hl.endsAt, ← hl.employeeId]
    simp [he, hl.live hlive, hover]
  rw [hnone] at this
  cases this

/-- Both ways of reading: what was found and what was counted are seen one after the other. -/
theorem Isolation.good {P : Store → Store → Prop} {f : Store → Store → Transaction Store}
    (isolation : Isolation) (h : ∀ found counted, found.Later counted →
      (f found counted).Good P Store.Apart Store.Later counted)
    (s : Store) : (isolation.reads f).Good P Store.Apart Store.Later s := by
  cases isolation with
  | readCommitted => exact fun found _ _ counted _ hlater => h found counted hlater
  | repeatableRead => exact fun found _ _ => h found found (Std.Refl.refl found)

theorem code_good (call : Call) (s : Store) :
    (code call).Good (Undisturbed call) Store.Apart Store.Later s := by
  cases call with
  | create isolation granted id request =>
    refine isolation.good (fun found counted _ => ?_) s
    cases h : create granted id request found counted with
    | error e => trivial
    | ok value =>
      intro s s' hs hlater hundisturbed hinsert
      obtain ⟨hemployee, hstart, hend, hnone⟩ := create_ok h
      obtain ⟨happ, hnext⟩ := created hlater hemployee hstart hend hnone hundisturbed hinsert hs
      exact ⟨happ, hnext, trivial⟩
  | decide isolation granted id request now =>
    refine isolation.good (fun found counted hseen => ?_) s
    cases h : decide granted id request now found counted with
    | error e => trivial
    | ok value =>
      intro s s' hs hlater _ hupdate
      obtain ⟨t, ht, hlive, rfl⟩ := decide_ok h
      obtain ⟨happ, hnext⟩ := decided (IsTrans.trans _ _ _ hseen hlater) ht hlive hupdate hs
      exact ⟨happ, hnext, trivial⟩

/-- Entries stay apart in every run whose inserts all find the overlaps that were counted. -/
theorem time_off_apart (b b' : Board Call Store) (hidle : ∀ n, b.active n = none) (happ : b.store.Apart)
    (hrun : Board.Run code Undisturbed b b') : b'.store.Apart := by
  have hb : b.Sound Undisturbed Store.Apart Store.Later := by
    refine ⟨happ, fun n a ha => ?_⟩
    rw [hidle n] at ha
    cases ha
  exact (hrun.sound (fun call s _ => code_good call s) hb).store

namespace Holidays

def employee : User := { id := 1, role := .employee, active := true, deleted := false }

def store : Store := { users := ⟨[employee], by decide⟩, entries := .empty }

def idle : Board Call Store := ⟨store, fun _ => none⟩

/-- The same day for two managers, and the next day. -/
def request : TimeOffRequest := { employeeId := 1, startsAt := 100, endsAt := 200 }

def tomorrow : TimeOffRequest := { employeeId := 1, startsAt := 200, endsAt := 300 }

def entry (id : UUID) (request : TimeOffRequest) : Entry :=
  { id, employeeId := request.employeeId, startsAt := request.startsAt, endsAt := request.endsAt,
    status := .pending, version := 0 }

/-- Two requests that read and write by turns. -/
def acts (isolation : Isolation) (first second : TimeOffRequest) : List (Act Call) :=
  [.start 0 (.create isolation true 7 first), .start 1 (.create isolation true 8 second),
    .turn 0, .turn 1, .turn 0, .turn 1, .turn 0, .turn 1]

theorem store_apart : store.Apart := fun _ h => absurd h Table.not_mem_empty

theorem twice (isolation : Isolation) : ∃ b, Board.run code idle (acts isolation request request) = some b ∧
    b.store.entries.rows = [entry 7 request, entry 8 request] := by
  cases isolation <;> exact ⟨_, rfl, rfl⟩

theorem not_apart {s : Store} (h : s.entries.rows = [entry 7 request, entry 8 request]) : ¬ s.Apart := by
  intro happ
  have h7 : entry 7 request ∈ s.entries.rows := by rw [h]; exact List.mem_cons_self
  have h8 : entry 8 request ∈ s.entries.rows := by rw [h]; exact List.mem_cons_of_mem _ List.mem_cons_self
  exact happ _ h7 _ h8 (by decide) rfl (by decide) (by decide) (by decide)

theorem time_off_twice :
    (∃ b, Board.run code idle (acts .readCommitted request request) = some b ∧
      Board.Run code (fun _ _ _ => True) idle b ∧ ¬ b.store.Apart) ∧
    ∃ b, Board.run code idle (acts .repeatableRead request request) = some b ∧
      Board.Run code (fun _ _ _ => True) idle b ∧ ¬ b.store.Apart := by
  obtain ⟨b, hb, hrows⟩ := twice .readCommitted
  obtain ⟨b', hb', hrows'⟩ := twice .repeatableRead
  exact ⟨⟨b, hb, .of_run code (.refl idle) _ (Board.meetsAll_true code ..) hb, not_apart hrows⟩,
    b', hb', .of_run code (.refl idle) _ (Board.meetsAll_true code ..) hb', not_apart hrows'⟩

/-- Two requests for days that touch, by turns: neither disturbs the other. -/
theorem days_run : ∃ b, b.store.entries.rows = [entry 7 request, entry 8 tomorrow] ∧
    Board.Run code Undisturbed idle b := by
  refine ⟨_, ?_, .of_run code (.refl idle) (acts .readCommitted request tomorrow) ?_ rfl⟩
  · rfl
  refine ⟨.start, fun b h => ?_⟩
  cases h
  refine ⟨.start, fun b h => ?_⟩
  cases h
  refine ⟨.read rfl rfl, fun b h => ?_⟩
  cases h
  refine ⟨.read rfl rfl, fun b h => ?_⟩
  cases h
  refine ⟨.read rfl rfl, fun b h => ?_⟩
  cases h
  refine ⟨.read rfl rfl, fun b h => ?_⟩
  cases h
  refine ⟨.write rfl fun t ht => absurd ht Table.not_mem_empty, fun b h => ?_⟩
  cases h
  refine ⟨.write rfl fun t ht _ _ hover => ?_, fun b h => trivial⟩
  have : t = entry 7 request := List.mem_singleton.1 ht
  subst this
  exact absurd hover (by decide)

theorem time_off_apart_days : ∃ b : Board Call Store,
    b.store.entries.rows = [entry 7 request, entry 8 tomorrow] ∧ b.store.Apart := by
  obtain ⟨b, hrows, hrun⟩ := days_run
  exact ⟨b, hrows, time_off_apart idle b (fun _ => rfl) store_apart hrun⟩

end Holidays

end GManager.TimeOff
