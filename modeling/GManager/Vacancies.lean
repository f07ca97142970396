import GManager.OpeningHours
import GManager.Bookings
import Mathlib.Data.List.Find

/-!
# What a snapshot finds vacant

A snapshot is made for a range of time and read for the intervals in it. For each of them its assessment says
exactly what the tables say: it is available when something compatible is open and free, and then it names the
first such resource by identifier (`assess_eq`). Nothing here looks at the offers of the waitlist.
-/

namespace GManager

open Txn

/-! ### What the tables say -/

/-- `employee` can be booked for the interval. -/
def Call.employeeVacant (c : Call) (db : Db) (employee : UUID) (start stop : Instant) : Bool :=
  c.catalogue.isOnDuty employee start stop && (db.employeeConflicts employee start stop none).isEmpty

/-- The place is open throughout the interval. -/
def Call.placeOpen (c : Call) (location : Option UUID) (start stop : Instant) : Bool :=
  c.hours.validateWithinWorkingHours location start stop = .ok ()

/-- The resource is bookable, open and free for the interval. -/
def Call.resourceVacant (c : Call) (db : Db) (v : PhysicalResource) (start stop now : Instant) : Bool :=
  c.catalogue.bookingRestriction v = none ∧
    (∃ r ∈ c.catalogue.reference v, c.placeOpen r.locationId start stop) ∧
    db.resourceConflicts v.id start stop none = [] ∧ db.sessionIntervals [v.id] start stop = [] ∧
    db.waitingIntervals [v.id] start stop now = []

/-- The choices that are open and free for the interval: resources by ascending identifier, or none for a
service that needs no resource. -/
def Call.choices (c : Call) (db : Db) (serviceId : UUID) (resourceId locationId areaId : Option UUID)
    (employee : UUID) (start stop now : Instant) : List (Option UUID) :=
  match c.catalogue.snapshotCandidates serviceId resourceId locationId none areaId,
    c.catalogue.locationRestriction locationId with
  | .ok (required, candidates), .ok none =>
    if c.employeeVacant db employee start stop then
      if required then
        (candidates.filter fun v => c.resourceVacant db v start stop now).map fun v => some v.id
      else if c.placeOpen locationId start stop then [none] else []
    else []
  | _, _ => []

/-! ### Intervals of a range -/

section intervals

variable {c : Call} {db : Db} {ids employeeIds : List UUID} {employee id : UUID}
  {lo hi start stop now : Instant}

/-- An interval that blocks a part of the range is found for it. -/
theorem blocked_timeOff (hlo : lo ≤ start) (hhi : stop ≤ hi) (he : employee ∈ employeeIds) :
    Snapshot.blocked (c.catalogue.timeOffIntervals employeeIds lo hi) employee start stop =
      !c.catalogue.isOnDuty employee start stop := by
  rw [Bool.eq_iff_iff, Bool.not_eq_true']
  simp only [Snapshot.blocked, Catalogue.timeOffIntervals, Catalogue.isOnDuty, Catalogue.approvedBetween,
    List.any_map, List.any_eq_true, Function.comp_apply, List.mem_filter, decide_eq_true_eq,
    List.isEmpty_eq_false_iff_exists_mem, List.mem_singleton]
  constructor
  · rintro ⟨t, ⟨ht, -, happroved, -⟩, hemployee, hoverlaps⟩
    exact ⟨t, ht, hemployee, happroved, hoverlaps⟩
  · rintro ⟨t, ht, rfl, happroved, hoverlaps⟩
    exact ⟨t, ⟨ht, he, happroved, hoverlaps.1.trans_le hhi, hlo.trans_lt hoverlaps.2⟩, rfl, hoverlaps⟩

theorem blocked_busyIntervals (hlo : lo ≤ start) (hhi : stop ≤ hi) (he : employee ∈ employeeIds) :
    Snapshot.blocked (db.busyIntervals employeeIds lo hi) employee start stop =
      !(db.employeeConflicts employee start stop none).isEmpty := by
  rw [Bool.eq_iff_iff, Bool.not_eq_true']
  simp only [Snapshot.blocked, Db.busyIntervals, Db.employeeConflicts, List.any_map, List.any_eq_true,
    Function.comp_apply, List.mem_filter, decide_eq_true_eq, List.isEmpty_eq_false_iff_exists_mem]
  constructor
  · rintro ⟨r, ⟨hr, -, hblocks, -⟩, hemployee, hoverlaps⟩
    exact ⟨r, hr, hemployee, hblocks, hoverlaps, by simp⟩
  · rintro ⟨r, hr, rfl, hblocks, hoverlaps, -⟩
    exact ⟨r, ⟨hr, he, hblocks, hoverlaps.1.trans_le hhi, hlo.trans_lt hoverlaps.2⟩, rfl, hoverlaps⟩

theorem occupied_reservations (hlo : lo ≤ start) (hhi : stop ≤ hi) (hid : id ∈ ids) :
    Snapshot.occupied (db.resourceReservationIntervals ids lo hi) id start stop =
      !(db.resourceConflicts id start stop none).isEmpty := by
  rw [Bool.eq_iff_iff, Bool.not_eq_true']
  simp only [Snapshot.occupied, Db.resourceReservationIntervals, Db.resourceConflicts, List.any_eq_true,
    List.mem_filterMap, List.mem_filter, decide_eq_true_eq, List.isEmpty_eq_false_iff_exists_mem]
  constructor
  · rintro ⟨v, ⟨r, hr, hv⟩, hvid, hoverlaps⟩
    cases hres : r.resourceId with
    | none => simp [hres] at hv
    | some x =>
      rw [hres] at hv
      simp only [Option.ite_none_right_eq_some, Option.some.injEq] at hv
      obtain ⟨⟨-, hblocks, -⟩, rfl⟩ := hv
      obtain rfl : x = id := hvid
      exact ⟨r, hr, hres, hblocks, hoverlaps, by simp⟩
  · rintro ⟨r, hr, hres, hblocks, hoverlaps, -⟩
    refine ⟨⟨id, r.startTime, r.endTime⟩, ⟨r, hr, ?_⟩, rfl, hoverlaps⟩
    rw [hres]
    exact if_pos ⟨hid, hblocks, hoverlaps.1.trans_le hhi, hlo.trans_lt hoverlaps.2⟩

theorem mem_sessionIntervals {v : ResourceBusyInterval} : v ∈ db.sessionIntervals ids start stop ↔
    (∃ s ∈ db.sessions, s.resourceId ∈ ids ∧ s.status = .active ∧ s.startedAt < stop ∧
      (start < s.endsAt ∨ s.moveTargetId.isSome) ∧
      v = ⟨s.resourceId, s.startedAt, if s.moveTargetId.isSome then stop else s.endsAt⟩) ∨
    ∃ s ∈ db.sessions, ∃ target, s.moveTargetId = some target ∧ target ∈ ids ∧ s.status = .active ∧
    s.startedAt < stop ∧
      v = ⟨target, s.startedAt, stop⟩ := by
  simp only [Db.sessionIntervals, List.mem_append, List.mem_map, List.mem_filter, List.mem_filterMap,
    decide_eq_true_eq, Table.mem_rows]
  refine or_congr ?_ ?_
  · grind
  · refine exists_congr fun s => and_congr_right fun _ => ?_
    cases s.moveTargetId with
    | none => simp
    | some target => simp [and_assoc, eq_comm]

theorem mem_waitingIntervals {v : ResourceBusyInterval} : v ∈ db.waitingIntervals ids start stop now ↔
    ∃ a ∈ db.assignments, a.resourceId ∈ ids ∧ a.status = .waitingForLogin ∧ now < a.expiresAt ∧
    a.createdAt < stop ∧
      start < a.expiresAt ∧ v = ⟨a.resourceId, a.createdAt, a.expiresAt⟩ := by
  simp only [Db.waitingIntervals, List.mem_map, List.mem_filter, decide_eq_true_eq, Table.mem_rows]
  grind

theorem occupied_sessions (hlo : lo ≤ start) (hlt : start < stop) (hhi : stop ≤ hi) (hid : id ∈ ids) :
    Snapshot.occupied (db.sessionIntervals ids lo hi ++ db.waitingIntervals ids lo hi now) id start stop =
      !((db.sessionIntervals [id] start stop).isEmpty &&
        (db.waitingIntervals [id] start stop now).isEmpty) := by
  rw [Bool.eq_iff_iff, Bool.not_eq_true', Bool.and_eq_false_iff]
  simp only [Snapshot.occupied, List.any_eq_true, List.mem_append, decide_eq_true_eq,
    List.isEmpty_eq_false_iff_exists_mem, mem_sessionIntervals, mem_waitingIntervals, List.mem_singleton]
  constructor
  · rintro ⟨v, (⟨s, hs, -, hactive, -, -, rfl⟩ | ⟨s, hs, target, htarget, -, hactive, -, rfl⟩) |
      ⟨a, ha, -, hwaiting, hnow, -, -, rfl⟩, rfl, hoverlaps⟩
    · refine .inl ⟨_, .inl ⟨s, hs, rfl, hactive, hoverlaps.1, ?_, rfl⟩⟩
      have hend := hoverlaps.2
      by_cases hmove : s.moveTargetId.isSome
      · exact .inr hmove
      · rw [if_neg hmove] at hend
        exact .inl hend
    · exact .inl ⟨_, .inr ⟨s, hs, target, htarget, rfl, hactive, hoverlaps.1, rfl⟩⟩
    · exact .inr ⟨_, a, ha, rfl, hwaiting, hnow, hoverlaps.1, hoverlaps.2, rfl⟩
  · rintro (⟨_, ⟨s, hs, rfl, hactive, hstart, hend, -⟩ | ⟨s, hs, target, htarget, rfl, hactive, hstart, -⟩⟩ |
      ⟨_, a, ha, rfl, hwaiting, hnow, hstart, hend, -⟩)
    · refine ⟨_, .inl (.inl ⟨s, hs, hid, hactive, hstart.trans_le hhi, hend.imp_left hlo.trans_lt, rfl⟩),
        rfl, hstart, ?_⟩
      by_cases hmove : s.moveTargetId.isSome
      · rw [if_pos hmove]
        exact hlt.trans_le hhi
      · rw [if_neg hmove]
        exact hend.resolve_right hmove
    · exact ⟨_, .inl (.inr ⟨s, hs, target, htarget, hid, hactive, hstart.trans_le hhi, rfl⟩), rfl,
        hstart, hlt.trans_le hhi⟩
    · exact ⟨_, .inr ⟨a, ha, hid, hwaiting, hnow, hstart.trans_le hhi, hlo.trans_lt hend, rfl⟩,
        rfl, hstart, hend⟩

end intervals

/-! ### Candidates -/

namespace Catalogue

variable {g : Catalogue} {serviceId id : UUID} {resourceId locationId areaId : Option UUID}
  {allowed : Option (List UUID)} {required : Bool} {candidates : List PhysicalResource}

theorem bookingCandidates_none (h : g.bookingCandidates serviceId none locationId areaId = .ok candidates) :
    candidates = (g.findByServiceIdOrderByIdAsc serviceId).filter fun v =>
      (∀ l ∈ locationId, g.locationId v = .ok l) ∧ ∀ a ∈ areaId, a = v.areaId := by
  obtain ⟨_, -, h⟩ := bind_eq_ok.1 h
  obtain ⟨_, hvalues, h⟩ := bind_eq_ok.1 h
  cases hvalues
  exact (Except.ok.inj h).symm

/-- A resource that is asked for is the only candidate. -/
theorem bookingCandidates_some
    (h : g.bookingCandidates serviceId (some id) locationId areaId = .ok candidates) :
    ∃ v location, g.resource id = .ok v ∧ g.locationId v = .ok location ∧ v.serviceId = serviceId ∧
      (∀ l ∈ locationId, l = location) ∧ (∀ a ∈ areaId, a = v.areaId) ∧ candidates = [v] := by
  obtain ⟨_, -, h⟩ := bind_eq_ok.1 h
  obtain ⟨v, hv, h⟩ := bind_eq_ok.1 h
  obtain ⟨location, hlocation, h⟩ := bind_eq_ok.1 h
  obtain ⟨_, hservice, h⟩ := bind_eq_ok.1 h
  obtain ⟨_, hsame, h⟩ := bind_eq_ok.1 h
  obtain ⟨_, harea, h⟩ := bind_eq_ok.1 h
  obtain ⟨_, hvalues, h⟩ := bind_eq_ok.1 h
  cases hvalues
  rw [check_eq_ok] at hservice hsame harea
  refine ⟨v, location, hv, hlocation, hservice, hsame, harea, ?_⟩
  cases h
  refine List.filter_eq_self.2 fun w hw => ?_
  obtain rfl := List.mem_singleton.1 hw
  simp only [hlocation, decide_eq_true_eq]
  exact ⟨fun l hl => by rw [hsame l hl], harea⟩

theorem snapshotCandidates_eq_ok
    (h : g.snapshotCandidates serviceId resourceId locationId allowed areaId = .ok (required, candidates)) :
    g.requireBookingArea areaId locationId = .ok () ∧
    ∃ linked found, g.requiresResource serviceId = .ok linked ∧
      required = (linked || resourceId.isSome) ∧
      (if required then g.bookingCandidates serviceId resourceId locationId areaId else .ok []) = .ok found ∧
      candidates = found.filter fun v => ∀ ids ∈ allowed, v.id ∈ ids := by
  obtain ⟨_, harea, h⟩ := bind_eq_ok.1 h
  obtain ⟨linked, hlinked, h⟩ := bind_eq_ok.1 h
  dsimp only at h
  split at h
  · rename_i hrequired
    obtain ⟨found, hfound, h⟩ := bind_eq_ok.1 h
    cases h
    exact ⟨harea, linked, found, hlinked, rfl, by rw [if_pos hrequired, hfound], rfl⟩
  · rename_i hrequired
    obtain ⟨found, hfound, h⟩ := bind_eq_ok.1 h
    cases h
    exact ⟨harea, linked, found, hlinked, rfl, by rw [if_neg hrequired, hfound], rfl⟩

theorem findByServiceIdOrderByIdAsc_sorted (g : Catalogue) (serviceId : UUID) :
    (g.findByServiceIdOrderByIdAsc serviceId).Pairwise fun v w => v.id < w.id := by
  have hle := pairwise_sortById PhysicalResource.id (g.resources.rows.filter fun v => v.serviceId = serviceId)
  have hne : ((g.resources.rows.filter fun v => v.serviceId = serviceId).map PhysicalResource.id).Nodup :=
    g.resources.nodup.sublist (List.filter_sublist.map _)
  have hdistinct := map_sortById_nodup hne
  rw [List.nodup_iff_pairwise_ne, List.pairwise_map] at hdistinct
  exact (hle.and hdistinct).imp fun h => lt_of_le_of_ne h.1 h.2

/-- The candidates come by ascending identifier. -/
theorem snapshotCandidates_sorted
    (h : g.snapshotCandidates serviceId resourceId locationId allowed areaId = .ok (required, candidates)) :
    candidates.Pairwise fun v w => v.id < w.id := by
  obtain ⟨-, linked, found, -, -, hfound, rfl⟩ := snapshotCandidates_eq_ok h
  refine List.Pairwise.filter _ ?_
  split at hfound
  · cases resourceId with
    | none =>
      rw [bookingCandidates_none hfound]
      exact (g.findByServiceIdOrderByIdAsc_sorted serviceId).filter _
    | some id =>
      obtain ⟨v, -, -, -, -, -, -, rfl⟩ := bookingCandidates_some hfound
      exact List.pairwise_singleton _ _
  · cases hfound
    exact .nil

/-- Nothing restricts a resource just when it is bookable. -/
theorem bookingRestriction_eq_none {v : PhysicalResource} :
    g.bookingRestriction v = none ↔ g.isBookableState v v.serviceId = .ok true := by
  unfold bookingRestriction isBookableState area location
  cases ha : g.areas.find? v.areaId with
  | none => simp [orFail, bind, Except.bind]
  | some a =>
    cases hl : g.locations.find? a.locationId with
    | none => simp [orFail, bind, Except.bind, hl]
    | some l =>
      simp only [orFail, hl, bind, Except.bind, pure, Except.pure, Option.elim_some,
        Option.bind_some, Option.all_some]
      grind

end Catalogue

/-! ### What a snapshot answers -/

section assessment

variable {c : Call} {db db' : Db} {s : Snapshot} {serviceId employee : UUID}
  {resourceId locationId areaId : Option UUID} {employeeIds : List UUID} {lo hi start stop : Instant}
  {allowed : Option (List UUID)} {occurrenceDays : Option (List LocalDate)} {required busy : Bool}
  {candidates : List PhysicalResource} {taken unavailable : Option Assessment}
  {resources : List BookingResourceView} {r : BookingResourceView} {v : PhysicalResource}

/-- Between readings the clock stands still. -/
theorem Clock.next_of_nil {k : Clock} (h : k.readings = []) : k.next = k := by
  rw [Clock.next, h]

/-- A snapshot of the tables while the clock stands still. -/
theorem prepare_steady (hclock : db.clock.readings = [])
    (h : (prepare serviceId resourceId locationId employeeIds lo hi allowed occurrenceDays areaId).run c
      db = .ok (s, db')) :
    ∃ required candidates restriction sessions,
      c.catalogue.snapshotCandidates serviceId resourceId locationId allowed areaId = .ok
        (required, candidates) ∧
      c.catalogue.locationRestriction locationId = .ok restriction ∧
      (candidates ≠ [] → sessions = db.sessionIntervals (candidates.map (·.id)) lo hi ++
        db.waitingIntervals (candidates.map (·.id)) lo hi db.clock.now) ∧
      s = c.snapshot db required candidates locationId restriction employeeIds lo hi
        (c.hours.snapshotDays lo hi occurrenceDays) sessions db.clock.now ∧ db' = db := by
  obtain ⟨required, candidates, restriction, sessions, db₁, hc, hr, hs, rfl, rfl⟩ := prepare_eq_ok h
  have hnext := Clock.next_of_nil hclock
  obtain ⟨rfl, hsessions⟩ :
    db₁ = db ∧ (candidates ≠ [] → sessions = db.sessionIntervals (candidates.map (·.id)) lo hi ++
      db.waitingIntervals (candidates.map (·.id)) lo hi db.clock.now) := by
    unfold snapshotSessions at hs
    split at hs
    · rename_i hnil
      obtain ⟨rfl, rfl⟩ := commits_pure.1 hs
      exact ⟨rfl, fun hne => absurd (List.map_eq_nil_iff.1 hnil) hne⟩
    · simp only [resourceSessionIntervals, commits_bind, commits_instant, commits_get] at hs
      obtain ⟨_, _, ⟨rfl, rfl⟩, _, _, ⟨rfl, rfl⟩, hp⟩ := hs
      obtain ⟨rfl, rfl⟩ := commits_pure.1 hp
      rw [hnext]
      exact ⟨rfl, fun _ => rfl⟩
  rw [hnext]
  exact ⟨required, candidates, restriction, sessions, hc, hr, hsessions, rfl, rfl⟩

/-- The loop ends with the first available resource. -/
theorem assessResources_of_some
    (h : (resources.find? fun r => (s.assessResource busy start stop r).status = .available) = some r) :
    s.assessResources busy start stop taken unavailable resources = s.assessResource busy start stop r := by
  induction resources generalizing taken unavailable with
  | nil => cases h
  | cons x resources ih =>
    rw [List.find?_cons] at h
    cases hx : (s.assessResource busy start stop x).status with
    | available =>
      simp only [hx, decide_true] at h
      cases h
      simp only [Snapshot.assessResources, hx]
    | unavailable =>
      simp only [hx, reduceCtorEq, decide_false] at h
      simp only [Snapshot.assessResources, hx]
      exact ih h
    | _ =>
      simp only [hx, reduceCtorEq, decide_false] at h
      simp only [Snapshot.assessResources, hx]
      exact ih h

theorem assessResources_of_none
    (h : ∀ r ∈ resources, (s.assessResource busy start stop r).status ≠ .available)
    (ht : ∀ a ∈ taken, a.status ≠ .available) (hu : ∀ a ∈ unavailable, a.status ≠ .available) :
    (s.assessResources busy start stop taken unavailable resources).status ≠ .available := by
  have hor : ∀ {o : Option Assessment} {a : Assessment}, (∀ b ∈ o, b.status ≠ .available) →
    a.status ≠ .available →
      ∀ b ∈ o.or (some a), b.status ≠ .available := by
    intro o a ho ha b hb
    cases o with
    | none =>
      cases hb
      exact ha
    | some x => exact ho b hb
  induction resources generalizing taken unavailable with
  | nil =>
    unfold Snapshot.assessResources
    cases taken with
    | some a => exact ht a rfl
    | none =>
      cases unavailable with
      | some a => exact hu a rfl
      | none => simp [Snapshot.result]
  | cons x resources ih =>
    have hx := h x List.mem_cons_self
    have hrest := fun r hr => h r (List.mem_cons_of_mem _ hr)
    unfold Snapshot.assessResources
    dsimp only
    split
    · exact hx
    · exact ih hrest ht (hor hu hx)
    · exact ih hrest (hor ht hx) hu

theorem assessResource_resource : (s.assessResource busy start stop r).resource = some r := by
  unfold Snapshot.assessResource
  split
  · rfl
  · split_ifs <;> rfl

theorem reference_spec (h : c.catalogue.reference v = some r) :
    r.id = v.id ∧ c.catalogue.locationId v = .ok r.locationId := by
  obtain ⟨a, ha, rfl⟩ := Option.map_eq_some_iff.1 h
  refine ⟨rfl, ?_⟩
  rw [Catalogue.locationId, Catalogue.area, ha]
  rfl

theorem find?_id (hsorted : candidates.Pairwise fun v w => v.id < w.id) (hv : v ∈ candidates) :
    (candidates.find? fun w => w.id = v.id) = some v := by
  have hnodup : (candidates.map (·.id)).Nodup :=
    List.nodup_iff_pairwise_ne.2 (List.pairwise_map.2 (hsorted.imp fun h => h.ne))
  cases hf : candidates.find? fun w => w.id = v.id with
  | none => simpa using List.find?_eq_none.1 hf v hv
  | some w =>
    have hid : w.id = v.id := by simpa using List.find?_some hf
    rw [List.inj_on_of_nodup_map hnodup (List.mem_of_find?_eq_some hf) hv hid]

/-- The tables of which a snapshot with these candidates was made, and an interval it covers. -/
structure Covers (c : Call) (db : Db) (s : Snapshot) (candidates : List PhysicalResource)
    (locationId : Option UUID) (employee : UUID) (start stop : Instant) : Prop where
  sorted : candidates.Pairwise fun v w => v.id < w.id
  resources : s.resources = candidates.filterMap c.catalogue.reference
  restrictions : ∀ v ∈ candidates, s.restrictions v.id = c.catalogue.bookingRestriction v
  place : s.locationId = locationId
  resourceHours : ∀ r ∈ s.resources,
    s.withinHours (some r.locationId) start stop = c.placeOpen (some r.locationId) start stop
  placeHours : s.required = false → s.withinHours locationId start stop = c.placeOpen locationId start stop
  timeOff : Snapshot.blocked s.timeOff employee start stop = !c.catalogue.isOnDuty employee start stop
  busy : Snapshot.blocked s.employeeBusy employee start stop =
    !(db.employeeConflicts employee start stop none).isEmpty
  reserved : ∀ v ∈ candidates,
    Snapshot.occupied s.resourceBusy v.id start stop = !(db.resourceConflicts v.id start stop none).isEmpty
  sessions : ∀ v ∈ candidates, Snapshot.occupied s.sessions v.id start stop =
    !((db.sessionIntervals [v.id] start stop).isEmpty &&
      (db.waitingIntervals [v.id] start stop s.now).isEmpty)

/-- A snapshot covers the intervals of its range. -/
theorem prepare_covers (hclock : db.clock.readings = [])
    (h : (prepare serviceId resourceId locationId employeeIds lo hi allowed occurrenceDays areaId).run c
      db = .ok (s, db'))
    (hp : c.hours.Prepared lo hi occurrenceDays start) (hlt : start < stop) (hhi : stop ≤ hi)
    (he : employee ∈ employeeIds) : ∃ candidates,
      c.catalogue.snapshotCandidates serviceId resourceId locationId allowed areaId = .ok
        (s.required, candidates) ∧
      c.catalogue.locationRestriction locationId = .ok s.locationRestriction ∧
      s.now = db.clock.now ∧ db' = db ∧
      Covers c db s candidates locationId employee start stop := by
  obtain ⟨required, candidates, restriction, sessions, hc, hr, hs, hsnapshot, rfl⟩ := prepare_steady hclock h
  have hsorted := Catalogue.snapshotCandidates_sorted hc
  have hlo := hp.1
  have hwindows : ∀ location ∈ s.windows.map Prod.fst,
      s.withinHours location start stop = c.placeOpen location start stop := by
    intro location hl
    rw [Bool.eq_iff_iff, (prepare_reads h hl hp).withinHours_iff hlt, Call.placeOpen, decide_eq_true_eq]
  have hresources : s.resources = candidates.filterMap c.catalogue.reference := by
    rw [hsnapshot]
    refine sortById_of_pairwise (List.pairwise_filterMap.2 (hsorted.imp fun {v w} hvw r hr r' hr' => ?_))
    rw [(reference_spec hr).1, (reference_spec hr').1]
    exact hvw.le
  have hlocations : s.windows.map Prod.fst =
      (((candidates.filterMap c.catalogue.reference).map fun r => some r.locationId) ++
      if locationId.isSome ∨ ¬ required then [locationId] else []).dedup := by
    rw [hsnapshot]
    simp only [Call.snapshot, List.map_map, Function.comp_def, List.map_id']
  have hids : ∀ v ∈ candidates, v.id ∈ candidates.map (·.id) := fun v hv => List.mem_map_of_mem hv
  refine ⟨candidates, by rw [hsnapshot]; exact hc, by rw [hsnapshot]; exact hr, by rw [hsnapshot]; rfl, rfl,
    hsorted, hresources, fun v hv => ?_, by
      rw [hsnapshot]; rfl, fun r hr => ?_, fun hrequired => ?_, ?_, ?_, fun v hv => ?_, fun v hv => ?_⟩
  · have hfind : (candidates.find? fun w => w.id = v.id) = some v := find?_id hsorted hv
    rw [hsnapshot]
    show ((candidates.find? fun w => w.id = v.id).bind c.catalogue.bookingRestriction) = _
    rw [hfind, Option.bind_some]
  · refine hwindows _ ?_
    rw [hlocations, List.mem_dedup]
    rw [hresources] at hr
    exact List.mem_append_left _ (List.mem_map_of_mem hr)
  · refine hwindows _ ?_
    have hrequired' : required = false := by rwa [hsnapshot] at hrequired
    rw [hlocations, List.mem_dedup]
    simp [hrequired']
  · rw [hsnapshot]
    exact blocked_timeOff hlo hhi he
  · rw [hsnapshot]
    exact blocked_busyIntervals hlo hhi he
  · rw [hsnapshot]
    exact occupied_reservations hlo hhi (hids v hv)
  · rw [hsnapshot]
    show Snapshot.occupied sessions v.id start stop = _
    rw [hs (List.ne_nil_of_mem hv)]
    exact occupied_sessions hlo hlt hhi (hids v hv)

theorem Covers.assessResource_available (h : Covers c db s candidates locationId employee start stop)
    (hv : v ∈ candidates) (hr : c.catalogue.reference v = some r) :
    (s.assessResource busy start stop r).status = .available ↔
      c.resourceVacant db v start stop s.now = true ∧ busy = false := by
  have hmem : r ∈ s.resources := by
    rw [h.resources]
    exact List.mem_filterMap.2 ⟨v, hv, hr⟩
  have hid := (reference_spec hr).1
  have hvacant : c.resourceVacant db v start stop s.now = true ↔ c.catalogue.bookingRestriction v = none ∧
      c.placeOpen (some r.locationId) start stop = true ∧
      (db.resourceConflicts v.id start stop none).isEmpty = true ∧
      (db.sessionIntervals [v.id] start stop).isEmpty = true ∧
      (db.waitingIntervals [v.id] start stop s.now).isEmpty = true := by
    simp [Call.resourceVacant, hr]
  have hsessions := h.sessions v hv
  have hreserved := h.reserved v hv
  rw [hvacant]
  unfold Snapshot.assessResource
  rw [hid, h.restrictions v hv, h.resourceHours r hmem, hsessions, hreserved]
  cases c.catalogue.bookingRestriction v with
  | some restriction => simp [Snapshot.result]
  | none =>
    cases c.placeOpen (some r.locationId) start stop <;>
      cases (db.resourceConflicts v.id start stop none).isEmpty <;>
      cases (db.sessionIntervals [v.id] start stop).isEmpty <;>
      cases (db.waitingIntervals [v.id] start stop s.now).isEmpty <;> cases busy <;> simp [Snapshot.result]

/-- A vacant resource has a place. -/
theorem exists_reference {now : Instant} (h : c.resourceVacant db v start stop now = true) :
    ∃ r, c.catalogue.reference v = some r := by
  obtain ⟨-, ⟨r, hr, -⟩, -⟩ := of_decide_eq_true h
  exact ⟨r, hr⟩

/-- The first available resource of the snapshot is that of the first vacant candidate. -/
theorem Covers.find?_available (h : Covers c db s candidates locationId employee start stop) :
    (s.resources.find? fun r => (s.assessResource false start stop r).status = .available) =
      (candidates.find? fun v => c.resourceVacant db v start stop s.now).bind c.catalogue.reference := by
  rw [h.resources, List.find?_filterMap]
  refine congrArg (Option.bind · c.catalogue.reference) (List.find?_congr fun v hv => ?_)
  cases hr : c.catalogue.reference v with
  | none =>
    rw [Option.any_none, eq_comm, Bool.eq_false_iff]
    intro hvacant
    obtain ⟨r, hr'⟩ := exists_reference hvacant
    rw [hr] at hr'
    cases hr'
  | some r =>
    rw [Option.any_some, Bool.eq_iff_iff, decide_eq_true_eq, h.assessResource_available hv hr]
    simp

/-- The assessment is available just when something is vacant, and names the first of it. -/
theorem Covers.assess_eq (h : Covers c db s candidates locationId employee start stop)
    (hc : c.catalogue.snapshotCandidates serviceId resourceId locationId none areaId = .ok
      (s.required, candidates))
    (hl : c.catalogue.locationRestriction locationId = .ok s.locationRestriction) {chosen : Option UUID} :
    (s.assess employee start stop).status = .available ∧
    (s.assess employee start stop).resource.map (·.id) = chosen ↔
      s.now < start ∧
        (c.choices db serviceId resourceId locationId areaId employee start
          stop s.now).head? = some chosen := by
  unfold Snapshot.assess Call.choices
  rw [hc, hl]
  by_cases hnow : start ≤ s.now
  · simp [hnow, not_lt.2 hnow, Snapshot.result]
  rw [if_neg hnow, and_iff_right (not_le.1 hnow)]
  cases s.locationRestriction with
  | some restriction => simp [Snapshot.result]
  | none =>
    by_cases hduty : c.catalogue.isOnDuty employee start stop = true
    swap
    · simp [h.timeOff, Call.employeeVacant, hduty, Snapshot.result]
    by_cases hfree : (db.employeeConflicts employee start stop none).isEmpty = true
    · by_cases hrequired : s.required = true
      · have hfirst := h.find?_available
        simp only [h.timeOff, h.busy, Call.employeeVacant, hduty, hfree, hrequired, Bool.not_true,
          Bool.false_eq_true, if_false, if_true, Bool.and_self]
        rw [List.head?_map, List.head?_filter]
        cases hv : candidates.find? fun v => c.resourceVacant db v start stop s.now with
        | none =>
          rw [hv, Option.bind_none, List.find?_eq_none] at hfirst
          have hnone : (s.assessResources false start stop none none s.resources).status ≠ .available :=
            assessResources_of_none (fun r hr => by simpa using hfirst r hr) (by simp) (by simp)
          simp [hnone]
        | some v =>
          obtain ⟨r, hr⟩ := exists_reference (by simpa using List.find?_some hv)
          rw [hv, Option.bind_some, hr] at hfirst
          rw [assessResources_of_some hfirst, assessResource_resource]
          have havailable := List.find?_some hfirst
          simp only [decide_eq_true_eq] at havailable
          simp [havailable, (reference_spec hr).1]
      · rw [Bool.not_eq_true] at hrequired
        simp only [h.timeOff, h.busy, Call.employeeVacant, hduty, hfree, hrequired, h.place,
          h.placeHours hrequired]
        by_cases hopen : c.placeOpen locationId start stop = true <;> simp [hopen, Snapshot.result, eq_comm]
    · rw [Bool.not_eq_true] at hfree
      have hnone : (s.assessResources true start stop none none s.resources).status ≠ .available := by
        refine assessResources_of_none (fun r hr => ?_) (by simp) (by simp)
        obtain ⟨v, hv, hr⟩ := List.mem_filterMap.1 (h.resources ▸ hr)
        rw [ne_eq, h.assessResource_available hv hr]
        simp
      simp only [h.timeOff, h.busy, Call.employeeVacant, hduty, hfree]
      by_cases hrequired : s.required = true <;> by_cases hopen :
        s.withinHours s.locationId start stop = true <;>
        simp [hnone, hrequired, hopen, Snapshot.result]

end assessment

end GManager
