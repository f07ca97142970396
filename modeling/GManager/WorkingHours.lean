import GManager.Rows

/-!
# Working hours

`shiftFor` and `validateWithinWorkingHours` of `WorkingHoursService`. An exception of the date beats the
weekly row, a row of the location beats the one for all locations, and a shift that closes before it opens
runs past midnight. Two shifts that both contain an instant are those of its date and of the day before.
-/

namespace GManager

structure Shift where
  openAt : Instant
  closeAt : Instant
  spansMidnight : Bool
  deriving DecidableEq, Repr

/-- `containsStart`. -/
def Shift.containsStart (shift : Shift) (start : Instant) : Prop :=
  shift.openAt ≤ start ∧ start < shift.closeAt

instance (shift : Shift) (start : Instant) : Decidable (shift.containsStart start) :=
  inferInstanceAs (Decidable (_ ∧ _))

namespace Hours

variable (h : Hours)

def findException (locationId : Option UUID) (date : LocalDate) : Option WorkingHoursException :=
  match locationId with
  | none => h.exceptions.find? (none, date)
  | some l => (h.exceptions.find? (some l, date)).or (h.exceptions.find? (none, date))

def findWeekly (locationId : Option UUID) (day : DayOfWeek) : Option WorkingHours :=
  match locationId with
  | none => h.weekly.find? (none, day)
  | some l => (h.weekly.find? (some l, day)).or (h.weekly.find? (none, day))

/-- The local opening and closing times of a date; `none` when the location stays closed. -/
def timesOf (locationId : Option UUID) (date : LocalDate) : Option (LocalTime × LocalTime) :=
  match h.findException locationId date with
  | some exception => exception.override
  | none => match h.findWeekly locationId date.dayOfWeek with
    | some hours => if hours.active then some (hours.openTime, hours.closeTime) else none
    | none => none

def shiftFor (locationId : Option UUID) (date : LocalDate) : Option Shift :=
  (h.timesOf locationId date).map fun (openTime, closeTime) =>
    let spansMidnight : Bool := closeTime < openTime
    { openAt := h.zone.instantOf date openTime
      closeAt := h.zone.instantOf (if spansMidnight then date + 1 else date) closeTime
      spansMidnight }

/-- `availabilityWindow`: the opening and closing instants of a date. -/
def availabilityWindow (locationId : Option UUID) (date : LocalDate) : Option (Instant × Instant) :=
  (h.shiftFor locationId date).map fun shift => (shift.openAt, shift.closeAt)

/-- The shift in which a reservation starting at `start` would fall. -/
def activeShift (locationId : Option UUID) (start : Instant) : Option Shift :=
  let date := h.zone.dateOf start
  match (h.shiftFor locationId date).filter (·.containsStart start) with
  | some today => some today
  | none => (h.shiftFor locationId (date - 1)).filter fun shift => shift.spansMidnight ∧
      shift.containsStart start

def validateWithinWorkingHours (locationId : Option UUID) (start stop : Instant) : Except Failure Unit :=
  if ¬ start < stop then .error (fail .badRequest "Reservation interval is not valid")
  else match h.activeShift locationId start with
    | none => .error (fail .conflict "Reservation is outside working hours")
    | some shift =>
      if shift.closeAt < stop then .error (fail .conflict "Service duration exceeds working hours")
      else .ok ()

variable {h}

theorem shiftFor_eq_some {locationId : Option UUID} {date : LocalDate} {shift : Shift} :
    h.shiftFor locationId date = some shift ↔ ∃ openTime closeTime,
      h.timesOf locationId date = some (openTime, closeTime) ∧
      shift = ⟨h.zone.instantOf date openTime,
        h.zone.instantOf (if closeTime < openTime then date + 1 else date) closeTime,
        closeTime < openTime⟩ := by
  constructor
  · intro hs
    obtain ⟨⟨openTime, closeTime⟩, ht, rfl⟩ := Option.map_eq_some_iff.1 hs
    exact ⟨openTime, closeTime, ht, by simp⟩
  · rintro ⟨openTime, closeTime, ht, rfl⟩
    simp [shiftFor, ht]

/-- A shift that contains an instant is of its date, or of the day before and runs past midnight. -/
theorem shift_date {locationId : Option UUID} {date : LocalDate} {shift : Shift} {start : Instant}
    (hs : h.shiftFor locationId date = some shift) (hc : shift.containsStart start) :
    date = h.zone.dateOf start ∨ date = h.zone.dateOf start - 1 ∧ shift.spansMidnight = true := by
  obtain ⟨openTime, closeTime, -, rfl⟩ := shiftFor_eq_some.1 hs
  have h₁ : date ≤ h.zone.dateOf start := h.zone.le_dateOf_of_le hc.1
  have h₂ := h.zone.dateOf_le_of_lt hc.2
  by_cases hsp : closeTime < openTime
  · rw [if_pos hsp] at h₂
    by_cases hd : date = h.zone.dateOf start
    · exact .inl hd
    · exact .inr ⟨by grind, by simpa using hsp⟩
  · rw [if_neg hsp] at h₂
    exact .inl (le_antisymm h₁ h₂)

/-- Later dates open later. -/
theorem shift_openAt_lt {locationId locationId' : Option UUID} {date date' : LocalDate} {shift shift' : Shift}
    (hs : h.shiftFor locationId date = some shift) (hs' : h.shiftFor locationId' date' = some shift')
    (hd : date < date') : shift.openAt < shift'.openAt := by
  obtain ⟨_, _, -, rfl⟩ := shiftFor_eq_some.1 hs
  obtain ⟨_, _, -, rfl⟩ := shiftFor_eq_some.1 hs'
  exact h.zone.instantOf_lt hd _ _

end Hours

end GManager
