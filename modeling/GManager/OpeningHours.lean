import GManager.BookingPolicy
import GManager.Limits
import GManager.Requests

/-!
# Opening hours

Gaming access, reservations and booking snapshots each choose their own shift for an instant: `boundary` the
one that closes last, `validateWithinWorkingHours` today's before yesterday's, `withinHours` the one that
opened last. The latter two choose the same shift. The first differs only while yesterday's shift and today's
both run and yesterday's closes last.
-/

namespace GManager

open Txn

namespace Hours

variable {h : Hours} {location : Option UUID} {t stop : Instant} {shift : Shift}

theorem mem_windowsOf {days : List LocalDate} {w : AvailabilityWindow} :
    w ∈ h.windowsOf location days ↔
      ∃ date ∈ days, ∃ shift, h.shiftFor location date = some shift ∧ (shift.openAt, shift.closeAt) = w := by
  simp [windowsOf, availabilityWindow]

/-- The active shift is that of the latest date among the shifts that contain the instant. -/
theorem activeShift_latest (ha : h.activeShift location t = some shift) :
    ∃ date, h.shiftFor location date = some shift ∧ shift.containsStart t ∧
      ∀ date' shift', h.shiftFor location date' = some shift' → shift'.containsStart t → date' ≤ date := by
  unfold activeShift at ha
  dsimp only at ha
  split at ha
  · rename_i today htoday
    cases ha
    obtain ⟨hs, hc⟩ := Option.filter_eq_some_iff.1 htoday
    refine ⟨_, hs, by simpa using hc, fun date' shift' hs' hc' => ?_⟩
    rcases shift_date hs' hc' with rfl | ⟨rfl, -⟩
    · exact le_rfl
    · exact Int.sub_le_self _ (by decide)
  · rename_i htoday
    obtain ⟨hs, hc⟩ := Option.filter_eq_some_iff.1 ha
    have hc' : shift.spansMidnight = true ∧ shift.containsStart t := by simpa using hc
    refine ⟨_, hs, hc'.2, fun date' shift' hs' hcs => ?_⟩
    rcases shift_date hs' hcs with rfl | ⟨rfl, -⟩
    · exact absurd (by simpa using hcs) (Option.filter_eq_none_iff.1 htoday shift' hs')
    · exact le_rfl

theorem activeShift_eq_none (ha : h.activeShift location t = none) {date : LocalDate}
    (hs : h.shiftFor location date = some shift) : ¬ shift.containsStart t := by
  intro hc
  unfold activeShift at ha
  dsimp only at ha
  split at ha
  · cases ha
  · rename_i htoday
    rcases shift_date hs hc with rfl | ⟨rfl, hm⟩
    · exact Option.filter_eq_none_iff.1 htoday shift hs (by simpa using hc)
    · exact Option.filter_eq_none_iff.1 ha shift hs (by simpa using ⟨hm, hc⟩)

theorem validate_eq_ok : h.validateWithinWorkingHours location t stop = .ok () ↔
    t < stop ∧ ∃ shift, h.activeShift location t = some shift ∧ stop ≤ shift.closeAt := by
  unfold validateWithinWorkingHours
  by_cases hlt : t < stop
  · rw [if_neg (not_not.2 hlt)]
    cases ha : h.activeShift location t with
    | none => simp
    | some shift =>
      by_cases hc : shift.closeAt < stop
      · simp [hc, not_le.2 hc]
      · simpa [hc, hlt] using not_lt.1 hc
  · simp [hlt]

/-- The largest end that a reservation may have is the closing of the active shift. -/
theorem isGreatest_validate (ha : h.activeShift location t = some shift) :
    IsGreatest {stop | h.validateWithinWorkingHours location t stop = .ok ()} shift.closeAt := by
  obtain ⟨_, -, hc, -⟩ := activeShift_latest ha
  refine ⟨validate_eq_ok.2 ⟨hc.2, shift, ha, le_rfl⟩, fun stop hs => ?_⟩
  obtain ⟨-, shift', ha', hle⟩ := validate_eq_ok.1 hs
  obtain rfl : shift = shift' := Option.some.inj (ha.symm.trans ha')
  exact hle

end Hours

/-! ### Snapshots -/

/-- The snapshot holds the windows of the location for the date of `t` and for the day before. -/
def Snapshot.Reads (s : Snapshot) (h : Hours) (location : Option UUID) (t : Instant) : Prop :=
  ∃ days, s.windowsOf location = h.windowsOf location days ∧ h.zone.dateOf t ∈ days ∧
    h.zone.dateOf t - 1 ∈ days

/-- The windows of a snapshot that contain an instant and among them the one that opened last. -/
theorem Snapshot.Reads.latest {s : Snapshot} {h : Hours} {location : Option UUID} {t : Instant}
    (hr : s.Reads h location t) :
    latestOpening ((s.windowsOf location).filter fun w => w.1 ≤ t ∧ t < w.2) =
      (h.activeShift location t).map fun shift => (shift.openAt, shift.closeAt) := by
  obtain ⟨days, hw, hd, hd'⟩ := hr
  rw [hw]
  cases ha : h.activeShift location t with
  | none =>
    rw [Option.map_none, latestOpening_eq_none, List.filter_eq_nil_iff]
    intro w hmem
    obtain ⟨date, -, shift, hs, rfl⟩ := Hours.mem_windowsOf.1 hmem
    have hn := Hours.activeShift_eq_none ha hs
    simpa [Shift.containsStart] using hn
  | some shift =>
    obtain ⟨date, hs, hc, hlast⟩ := Hours.activeShift_latest ha
    have hdate : date ∈ days := by
      rcases Hours.shift_date hs hc with rfl | ⟨rfl, -⟩
      · exact hd
      · exact hd'
    have hmem : (shift.openAt, shift.closeAt) ∈ (h.windowsOf location days).filter fun w =>
      w.1 ≤ t ∧ t < w.2 :=
      List.mem_filter.2 ⟨Hours.mem_windowsOf.2 ⟨date, hdate, shift, hs, rfl⟩, decide_eq_true hc⟩
    cases hm : latestOpening ((h.windowsOf location days).filter fun w => w.1 ≤ t ∧ t < w.2) with
    | none =>
      rw [latestOpening_eq_none.1 hm] at hmem
      cases hmem
    | some w =>
      obtain ⟨hwin, hwle⟩ := latestOpening_mem hm
      obtain ⟨hwm, hwc⟩ := List.mem_filter.1 hwin
      obtain ⟨date', -, shift', hs', rfl⟩ := Hours.mem_windowsOf.1 hwm
      have hle : shift.openAt ≤ shift'.openAt := hwle _ hmem
      have hdate' : date' ≤ date := hlast date' shift' hs' (of_decide_eq_true hwc)
      rcases hdate'.lt_or_eq with hlt | rfl
      · exact absurd hle (not_le.2 (Hours.shift_openAt_lt hs' hs hlt))
      · obtain rfl : shift = shift' := Option.some.inj (hs.symm.trans hs')
        rfl

theorem Snapshot.Reads.withinHours {s : Snapshot} {h : Hours} {location : Option UUID} {t stop : Instant}
    (hr : s.Reads h location t) :
    s.withinHours location t stop = true ↔ ∃ shift, h.activeShift location t = some shift ∧
    stop ≤ shift.closeAt := by
  unfold Snapshot.withinHours
  rw [hr.latest]
  cases h.activeShift location t <;> simp

/-- A snapshot decides about the end of a reservation as the booking does. -/
theorem Snapshot.Reads.withinHours_iff {s : Snapshot} {h : Hours} {location : Option UUID} {t stop : Instant}
    (hr : s.Reads h location t) (hlt : t < stop) :
    s.withinHours location t stop = true ↔ h.validateWithinWorkingHours location t stop = .ok () := by
  rw [hr.withinHours, Hours.validate_eq_ok, and_iff_right hlt]

theorem Snapshot.Reads.isGreatest {s : Snapshot} {h : Hours} {location : Option UUID} {t : Instant}
    {shift : Shift} (hr : s.Reads h location t) (ha : h.activeShift location t = some shift) :
    IsGreatest {stop | s.withinHours location t stop = true} shift.closeAt := by
  refine ⟨hr.withinHours.2 ⟨shift, ha, le_rfl⟩, fun stop hs => ?_⟩
  obtain ⟨shift', ha', hle⟩ := hr.withinHours.1 hs
  obtain rfl : shift = shift' := Option.some.inj (ha.symm.trans ha')
  exact hle

theorem mem_datesBetween {first last date : LocalDate} : date ∈ datesBetween first last ↔
    first ≤ date ∧ date ≤ last := by
  constructor
  · intro h
    obtain ⟨n, hn, rfl⟩ := List.mem_map.1 h
    have hlt := List.mem_range.1 hn
    constructor <;> grind
  · rintro ⟨h₁, h₂⟩
    exact List.mem_map.2 ⟨(date - first).toNat, List.mem_range.2 (by grind), by grind⟩

/-- Which instants a snapshot decides about: those of its range, or of its dates of occurrence. -/
def Hours.Prepared (h : Hours) (start stop : Instant) (occurrenceDays : Option (List LocalDate))
    (t : Instant) : Prop :=
  start ≤ t ∧ t ≤ stop ∧ ∀ days, occurrenceDays = some days → h.zone.dateOf t ∈ days

theorem Hours.Prepared.mem_snapshotDays {h : Hours} {start stop t : Instant}
    {occurrenceDays : Option (List LocalDate)} (hp : h.Prepared start stop occurrenceDays t) :
    h.zone.dateOf t ∈ h.snapshotDays start stop occurrenceDays ∧
      h.zone.dateOf t - 1 ∈ h.snapshotDays start stop occurrenceDays := by
  obtain ⟨h₁, h₂, h₃⟩ := hp
  cases occurrenceDays with
  | none =>
    have hle := h.zone.dateOf_mono h₁
    have hle' := h.zone.dateOf_mono h₂
    constructor
    · exact mem_datesBetween.2 ⟨by grind, hle'⟩
    · exact mem_datesBetween.2 ⟨by grind, by grind⟩
  | some days =>
    have hmem := h₃ days rfl
    constructor
    · exact List.mem_dedup.2 (List.mem_flatMap.2 ⟨_, hmem, by simp⟩)
    · exact List.mem_dedup.2 (List.mem_flatMap.2 ⟨_, hmem, by simp⟩)

/-- A snapshot reads the hours of its locations at the instants it decides about. -/
theorem prepare_reads {serviceId : UUID} {resourceId locationId areaId : Option UUID}
    {employeeIds : List UUID} {start stop t : Instant} {allowed : Option (List UUID)}
    {occurrenceDays : Option (List LocalDate)} {c : Call} {db db' : Db} {s : Snapshot}
    (h : (prepare serviceId resourceId locationId employeeIds start stop allowed occurrenceDays areaId).run
      c db = .ok (s, db')) {location : Option UUID} (hl : location ∈ s.windows.map Prod.fst)
    (hp : c.hours.Prepared start stop occurrenceDays t) : s.Reads c.hours location t :=
  ⟨_, prepare_windowsOf h hl, hp.mem_snapshotDays⟩

/-! ### The limit of access -/

/-- Without reservations on the station the limit is the closing time. -/
theorem run_boundary {c : Call} {db : Db} {station location customer : UUID} {now : Instant}
    (hfree : ∀ r ∈ db.reservations, r.resourceId ≠ some station) :
    (boundary station location customer none now).run c db =
      match c.hours.closingTime location now with
      | some closing => .ok (closing, db)
      | none => .error (fail .conflict "Location is outside opening hours") := by
  have hnone : ∀ stop, db.resourceConflicts station now stop none = [] := by
    intro stop
    refine List.eq_nil_iff_forall_not_mem.2 fun r hr => ?_
    obtain ⟨hmem, hid, -⟩ := Db.mem_resourceConflicts.1 hr
    exact hfree r hmem hid
  cases hc : c.hours.closingTime location now with
  | none => exact run_bind_of_error (x := orThrow _ _) (by rw [hc]; rfl)
  | some closing =>
    have hrun :
      (orThrow (c.hours.closingTime location now) (fail .conflict "Location is outside opening hours") :
        Tx Instant).run c db = .ok (closing, db) := by
      rw [hc]
      rfl
    refine (run_bind_of_ok hrun).trans ?_
    show (lift (firstStart now (db.resourceConflicts station now closing none) closing)).run c db = _
    rw [hnone]
    rfl

namespace Hours

variable {h : Hours} {location : UUID} {now closing : Instant}

theorem openAt_iff {day : LocalDate} : h.OpenAt location day now closing ↔
    ∃ shift, h.shiftFor (some location) day = some shift ∧ shift.containsStart now ∧
    shift.closeAt = closing := by
  constructor
  · rintro ⟨opening, hw, h₁, h₂⟩
    obtain ⟨shift, hs, he⟩ := Option.map_eq_some_iff.1 hw
    obtain ⟨rfl, rfl⟩ := Prod.mk.inj he
    exact ⟨shift, hs, ⟨h₁, h₂⟩, rfl⟩
  · rintro ⟨shift, hs, ⟨h₁, h₂⟩, rfl⟩
    exact ⟨shift.openAt, by rw [availabilityWindow, hs]; rfl, h₁, h₂⟩

/-- The closing time is the latest closing of a shift that contains the instant. -/
theorem isGreatest_closingTime (hc : h.closingTime location now = some closing) :
    IsGreatest {x | ∃ day, h.OpenAt location day now x} closing := by
  refine ⟨openAt_of_closingTime hc, fun x hx => ?_⟩
  obtain ⟨day, ho⟩ := hx
  obtain ⟨e, he, hle⟩ := le_closingTime ho
  obtain rfl : closing = e := Option.some.inj (hc.symm.trans he)
  exact hle

theorem closingTime_eq_none_iff :
    h.closingTime location now = none ↔ h.activeShift (some location) now = none := by
  constructor
  · intro hc
    by_contra hne
    obtain ⟨shift, ha⟩ := Option.ne_none_iff_exists'.1 hne
    obtain ⟨day, hs, hin, -⟩ := activeShift_latest ha
    obtain ⟨e, he, -⟩ := le_closingTime (openAt_iff.2 ⟨shift, hs, hin, rfl⟩)
    rw [hc] at he
    cases he
  · intro ha
    by_contra hne
    obtain ⟨closing, hc⟩ := Option.ne_none_iff_exists'.1 hne
    obtain ⟨day, ho⟩ := openAt_of_closingTime hc
    obtain ⟨shift, hs, hin, -⟩ := openAt_iff.1 ho
    exact activeShift_eq_none ha hs hin

/-- Yesterday's shift and today's both run at `now`, and yesterday's closes later. -/
def LateYesterday (h : Hours) (location : UUID) (now : Instant) : Prop :=
  ∃ yesterday today, h.shiftFor (some location) (h.zone.dateOf now - 1) = some yesterday ∧
    h.shiftFor (some location) (h.zone.dateOf now) = some today ∧ yesterday.containsStart now ∧
    today.containsStart now ∧ today.closeAt < yesterday.closeAt

/-- The closing time lies after the end of the active shift just when yesterday's shift outlasts today's. -/
theorem closeAt_eq_closingTime_iff {shift : Shift} (ha : h.activeShift (some location) now = some shift)
    (hc : h.closingTime location now = some closing) :
    shift.closeAt ≤ closing ∧ (shift.closeAt = closing ↔ ¬ h.LateYesterday location now) := by
  obtain ⟨date, hs, hin, hlast⟩ := activeShift_latest ha
  obtain ⟨hday, hgreat⟩ := isGreatest_closingTime hc
  have hle : shift.closeAt ≤ closing := hgreat ⟨date, openAt_iff.2 ⟨shift, hs, hin, rfl⟩⟩
  refine ⟨hle, fun heq hlate => ?_, fun hlate => ?_⟩
  · obtain ⟨yesterday, today, hy, ht, hyin, htin, hlt⟩ := hlate
    have hle' := hgreat ⟨_, openAt_iff.2 ⟨yesterday, hy, hyin, rfl⟩⟩
    have hd : h.zone.dateOf now ≤ date := hlast _ today ht htin
    obtain rfl : date = h.zone.dateOf now := by
      rcases shift_date hs hin with hd' | ⟨hd', -⟩ <;> grind
    obtain rfl : shift = today := Option.some.inj (hs.symm.trans ht)
    exact absurd (hle'.trans_lt (heq ▸ hlt)) (lt_irrefl _)
  · by_contra hne
    obtain ⟨day, ho⟩ := hday
    obtain ⟨late, hl, hlin, rfl⟩ := openAt_iff.1 ho
    have hlt : shift.closeAt < late.closeAt := lt_of_le_of_ne hle hne
    have hd : day ≤ date := hlast _ late hl hlin
    have hdne : day ≠ date := by
      rintro rfl
      obtain rfl : shift = late := Option.some.inj (hs.symm.trans hl)
      exact hne rfl
    have hdates := shift_date hs hin
    have hdays := shift_date hl hlin
    obtain rfl : date = h.zone.dateOf now := by grind
    obtain rfl : day = h.zone.dateOf now - 1 := by grind
    exact hlate ⟨late, shift, hl, hs, hlin, hin, hlt⟩

end Hours

/-- Opening hours of gaming access and of reservations: access is refused exactly when every reservation
that starts now is, and so by every snapshot. Otherwise access lasts as long as the last of the shifts that
contain `now`; reservations and snapshots end with the active shift, which is the same but when yesterday's
shift still runs beside today's and closes later. -/
theorem opening_hours {c : Call} {db : Db} {station location customer : UUID} {now : Instant}
    (hfree : ∀ r ∈ db.reservations, r.resourceId ≠ some station) :
    ((boundary station location customer none now).run c db =
        .error (fail .conflict "Location is outside opening hours") ↔
      ∀ stop, now < stop → c.hours.validateWithinWorkingHours (some location) now stop ≠ .ok ()) ∧
    (∀ limit db', (boundary station location customer none now).run c db = .ok (limit, db') →
      IsGreatest {x | ∃ day, c.hours.OpenAt location day now x} limit ∧
      ∃ closing, closing ≤ limit ∧ (closing = limit ↔ ¬ c.hours.LateYesterday location now) ∧
        IsGreatest {stop | c.hours.validateWithinWorkingHours (some location) now stop = .ok ()} closing ∧
        ∀ s : Snapshot, s.Reads c.hours (some location) now →
          IsGreatest {stop | s.withinHours (some location) now stop = true} closing) ∧
    ∀ d d' s serviceId resourceId locationId areaId employeeIds start stop allowed occurrenceDays,
      (prepare serviceId resourceId locationId employeeIds start stop allowed occurrenceDays areaId).run c d =
        .ok (s, d') → some location ∈ s.windows.map Prod.fst →
        c.hours.Prepared start stop occurrenceDays now →
      s.Reads c.hours (some location) now ∧ ∀ x, now < x → (s.withinHours (some location) now x = true ↔
        c.hours.validateWithinWorkingHours (some location) now x = .ok ()) := by
  refine ⟨?_, ?_, ?_⟩
  · rw [run_boundary hfree]
    constructor
    · intro hb stop hlt hv
      obtain ⟨-, shift, ha, -⟩ := Hours.validate_eq_ok.1 hv
      cases hc : c.hours.closingTime location now with
      | none =>
        rw [Hours.closingTime_eq_none_iff.1 hc] at ha
        cases ha
      | some closing =>
        rw [hc] at hb
        cases hb
    · intro hall
      have ha : c.hours.activeShift (some location) now = none := by
        by_contra hne
        obtain ⟨shift, ha⟩ := Option.ne_none_iff_exists'.1 hne
        obtain ⟨hv, -⟩ := Hours.isGreatest_validate ha
        exact hall _ (Hours.validate_eq_ok.1 hv).1 hv
      rw [Hours.closingTime_eq_none_iff.2 ha]
  · intro limit db' hb
    rw [run_boundary hfree] at hb
    cases hc : c.hours.closingTime location now with
    | none =>
      rw [hc] at hb
      cases hb
    | some closing =>
      rw [hc] at hb
      cases hb
      obtain ⟨shift, ha⟩ : ∃ shift, c.hours.activeShift (some location) now = some shift := by
        refine Option.ne_none_iff_exists'.1 fun hne => ?_
        rw [Hours.closingTime_eq_none_iff.2 hne] at hc
        cases hc
      obtain ⟨hle, hiff⟩ := Hours.closeAt_eq_closingTime_iff ha hc
      exact ⟨Hours.isGreatest_closingTime hc, shift.closeAt, hle, hiff, Hours.isGreatest_validate ha,
        fun s hr => hr.isGreatest ha⟩
  · intro d d' s _ _ _ _ _ _ _ _ _ hrun hl hp
    have hr := prepare_reads hrun hl hp
    exact ⟨hr, fun x hlt => hr.withinHours_iff hlt⟩

/-! ### Two shifts at once -/

namespace Overnight

/-- Thursday runs from ten to nine of the next morning, Friday from six to eight. -/
def hours : Hours where
  zone := .fixed 0
  weekly := ⟨[⟨none, .thursday, ⟨36000000000, by decide⟩, ⟨32400000000, by decide⟩, true⟩,
    ⟨none, .friday, ⟨21600000000, by decide⟩, ⟨28800000000, by decide⟩, true⟩], by decide⟩
  exceptions := .empty

/-- Half past six on the Friday. -/
def now : Instant := 109800000000

def call : Call := { (Arcade.request 0 now .lease).call with hours }

theorem not_same_end :
    (boundary 40 20 2 none now).run call (.empty 0) = .ok (118800000000, .empty 0) ∧
    hours.validateWithinWorkingHours (some 20) now 118800000000 =
      .error (fail .conflict "Service duration exceeds working hours") ∧
    IsGreatest {stop | hours.validateWithinWorkingHours (some 20) now stop = .ok ()} 115200000000 := by
  refine ⟨?_, by decide +kernel, ?_⟩
  · rw [run_boundary fun r hr => absurd hr Table.not_mem_empty]
    have hc : hours.closingTime 20 now = some 118800000000 := by decide +kernel
    show (match hours.closingTime 20 now with
      | some closing => Except.ok (closing, Db.empty 0)
      | none => .error (fail .conflict "Location is outside opening hours")) = _
    rw [hc]
  · have ha : hours.activeShift (some 20) now = some ⟨108000000000, 115200000000, false⟩ := by decide +kernel
    exact Hours.isGreatest_validate ha

theorem opening_hours_overnight :
    IsGreatest {x | ∃ day, hours.OpenAt 20 day now x} 118800000000 ∧ hours.LateYesterday 20 now := by
  have hrun : (boundary 40 20 2 none now).run call (.empty 0) = .ok (118800000000, .empty 0) := rfl
  have hfree : ∀ r ∈ (Db.empty 0).reservations, r.resourceId ≠ some 40 :=
    fun r hr => absurd hr Table.not_mem_empty
  refine ⟨((opening_hours hfree).2.1 _ _ hrun).1, ⟨36000000000, 118800000000, true⟩,
    ⟨108000000000, 115200000000, false⟩, ?_, ?_, ?_⟩
  · decide +kernel
  · decide +kernel
  · decide +kernel

end Overnight

end GManager
