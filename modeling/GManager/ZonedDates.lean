import GManager.Civil
import Mathlib.Tactic.IntervalCases
import Mathlib.Order.Lattice

/-!
# Dates and months in a zone

The ISO calendar by its months, counted from the beginning of year 0, and local times in a zone whose rules
may skip local times or repeat them. A month is added to a date without leaving the month it leads to; a
local time is resolved to an instant as `ZonedDateTime` does it, which moves a time in a gap by the length
of the gap and keeps the offset in force where a time is repeated.
-/

namespace GManager

/-! ### Months -/

def isLeapYear (year : ℤ) : Bool := year % 4 = 0 ∧ (year % 100 ≠ 0 ∨ year % 400 = 0)

/-- The days of a year before the month, counted from 0. -/
def daysBefore (leap : Bool) (month : ℤ) : ℤ :=
  (367 * (month + 1) - 362) / 12 - if month < 2 then 0 else if leap then 1 else 2

def lengthOfMonth (leap : Bool) (month : ℤ) : ℤ :=
  if month = 1 then if leap then 29 else 28 else if month = 3 ∨ month = 5 ∨ month = 8 ∨
    month = 10 then 30 else 31

namespace LocalDate

/-- The first of January; day 719528 of the calendar is day 0 of the epoch. -/
def firstOfYear (year : ℤ) : ℤ :=
  365 * year + (year + 3) / 4 - (year + 99) / 100 + (year + 399) / 400 - 719528

def firstOfMonth (month : ℤ) : ℤ :=
  firstOfYear (month / 12) + daysBefore (isLeapYear (month / 12)) (month % 12)

def monthLength (month : ℤ) : ℤ := lengthOfMonth (isLeapYear (month / 12)) (month % 12)

/-- The month of a date: 4800 months have 146097 days, and this guess is wrong by one month at most. -/
def month (d : ℤ) : ℤ :=
  let guess := (d + 719528) * 4800 / 146097
  if firstOfMonth (guess + 1) ≤ d then guess + 1 else if d < firstOfMonth guess then guess - 1 else guess

/-- `plusMonths`: the same day of the month, or the last one of a month that is too short. -/
def plusMonths (d n : ℤ) : ℤ :=
  firstOfMonth (month d + n) + min (d - firstOfMonth (month d)) (monthLength (month d + n) - 1)

def plusWeeks (d n : ℤ) : ℤ := d + 7 * n

theorem firstOfYear_succ (y : ℤ) :
    firstOfYear (y + 1) = firstOfYear y + if isLeapYear y then 366 else 365 := by
  simp only [firstOfYear, isLeapYear, decide_eq_true_eq]
  split <;> omega

theorem firstOfMonth_eq {y r : ℤ} (h0 : 0 ≤ r) (h : r < 12) :
    firstOfMonth (12 * y + r) = firstOfYear y + daysBefore (isLeapYear y) r := by
  rw [firstOfMonth, show (12 * y + r) / 12 = y by omega, show (12 * y + r) % 12 = r by omega]

theorem daysBefore_succ {leap : Bool} {r : ℤ} (h0 : 0 ≤ r) (h : r < 11) :
    daysBefore leap (r + 1) = daysBefore leap r + lengthOfMonth leap r := by
  cases leap <;> interval_cases r <;> rfl

theorem firstOfMonth_succ (m : ℤ) : firstOfMonth (m + 1) = firstOfMonth m + monthLength m := by
  obtain ⟨y, r, rfl, h0, h⟩ : ∃ y r : ℤ, m = 12 * y + r ∧ 0 ≤ r ∧ r < 12 :=
    ⟨m / 12, m % 12, by omega, by omega, by omega⟩
  rw [monthLength, show (12 * y + r) / 12 = y by omega, show (12 * y + r) % 12 = r by omega,
    firstOfMonth_eq h0 h]
  by_cases hr : r < 11
  · rw [show 12 * y + r + 1 = 12 * y + (r + 1) by omega, firstOfMonth_eq (by omega) (by omega),
      daysBefore_succ h0 hr]
    omega
  · obtain rfl : r = 11 := by omega
    rw [show 12 * y + 11 + 1 = 12 * (y + 1) + 0 by omega, firstOfMonth_eq le_rfl (by omega), firstOfYear_succ]
    cases isLeapYear y
    · show firstOfYear y + 365 + 0 = firstOfYear y + 334 + 31
      omega
    · show firstOfYear y + 366 + 0 = firstOfYear y + 335 + 31
      omega

theorem monthLength_bounds (m : ℤ) : 28 ≤ monthLength m ∧ monthLength m ≤ 31 := by
  unfold monthLength lengthOfMonth
  split_ifs <;> omega

theorem daysBefore_bounds {leap : Bool} {r : ℤ} (h0 : 0 ≤ r) (h : r < 12) :
    146097 * r - 14400 ≤ 4800 * daysBefore leap r ∧ 4800 * daysBefore leap r ≤ 146097 * r + 14400 := by
  cases leap <;> interval_cases r <;> decide

/-- The months are spread evenly over 400 years, up to a few days. -/
theorem firstOfMonth_bounds (m : ℤ) : 146097 * m - 4800 * 719528 - 28800 ≤ 4800 * firstOfMonth m ∧
    4800 * firstOfMonth m ≤ 146097 * m - 4800 * 719528 + 28800 := by
  obtain ⟨y, r, rfl, h0, h⟩ : ∃ y r : ℤ, m = 12 * y + r ∧ 0 ≤ r ∧ r < 12 :=
    ⟨m / 12, m % 12, by omega, by omega, by omega⟩
  have hd := @daysBefore_bounds (isLeapYear y) r h0 h
  rw [firstOfMonth_eq h0 h]
  unfold firstOfYear
  omega

/-- The month of a date begins before it and ends after it. -/
theorem month_spec (d : ℤ) : firstOfMonth (month d) ≤ d ∧ d < firstOfMonth (month d + 1) := by
  have hlow := firstOfMonth_bounds ((d + 719528) * 4800 / 146097 - 1)
  have hhigh := firstOfMonth_bounds ((d + 719528) * 4800 / 146097 + 1 + 1)
  simp only [month]
  split_ifs with h₁ h₂
  · exact ⟨h₁, by omega⟩
  · exact ⟨by omega, by rw [sub_add_cancel]; exact h₂⟩
  · exact ⟨not_lt.1 h₂, not_le.1 h₁⟩

/-- The first days of the months come in their order. -/
theorem firstOfMonth_mono {m n : ℤ} (h : m ≤ n) : firstOfMonth m ≤ firstOfMonth n := by
  induction n, h using Int.leInduction with
  | base => rfl
  | succ n _ ih =>
    have := monthLength_bounds n
    rw [firstOfMonth_succ]
    omega

/-- A month is at least four weeks long, wherever the days of the month are cut. -/
theorem plusMonths_add_le (d : ℤ) {n n' : ℤ} (h : n < n') : plusMonths d n + 28 ≤ plusMonths d n' := by
  have hd := month_spec d
  have hlen := monthLength_bounds (month d + n)
  have hlen' := monthLength_bounds (month d + n')
  have hle : firstOfMonth (month d + n + 1) ≤ firstOfMonth (month d + n') := firstOfMonth_mono (by omega)
  rw [firstOfMonth_succ] at hle
  unfold plusMonths
  omega

/-- A month after the last day of January is the last day of February, and two months after
it the last day of March. -/
example : plusMonths 30 1 = 58 ∧ plusMonths 30 2 = 89 := by decide

theorem plusWeeks_add_le (d : ℤ) {n n' : ℤ} (h : n < n') : plusWeeks d n + 7 ≤ plusWeeks d n' := by
  unfold plusWeeks
  omega

end LocalDate

/-! ### Zones -/

def microsPerHour : ℤ := 3600000000

/-- `java.time.zone.ZoneRules`, in microseconds: the offset at an instant, the valid offsets of a local
time, earliest first, and the offset before the gap in which a local time lies. -/
structure ZoneRules where
  offsetAt : ℤ → ℤ
  validOffsets : ℤ → List ℤ
  offsetBefore : ℤ → ℤ
  mem_validOffsets : ∀ l o, o ∈ validOffsets l ↔ offsetAt (l - o) = o
  bounded : ∀ t, -18 * microsPerHour ≤ offsetAt t ∧ offsetAt t ≤ 18 * microsPerHour
  gap_bounded : ∀ l, -18 * microsPerHour ≤ offsetBefore l ∧ offsetBefore l ≤ 18 * microsPerHour

namespace ZoneRules

variable (z : ZoneRules)

/-- The local date and time of an instant, as microseconds since the local epoch. -/
def toLocal (t : ℤ) : ℤ := t + z.offsetAt t

def localDate (t : ℤ) : ℤ := z.toLocal t / microsPerDay

def localTime (t : ℤ) : ℤ := z.toLocal t % microsPerDay

/-- `ZonedDateTime.ofLocal`. -/
def ofLocal (l preferred : ℤ) : ℤ := match z.validOffsets l with
  | [] => l - z.offsetBefore l
  | o :: os => if preferred ∈ o :: os then l - preferred else l - o

/-- `plusWeeks` and `plusMonths` of a `ZonedDateTime`: the date moves, the time of day and, where
possible, the offset stay. -/
def plusDate (t : ℤ) (move : ℤ → ℤ) : ℤ :=
  z.ofLocal (move (z.localDate t) * microsPerDay + z.localTime t) (z.offsetAt t)

theorem localTime_bounds (t : ℤ) : 0 ≤ z.localTime t ∧ z.localTime t < microsPerDay := by
  simp only [localTime, microsPerDay]
  omega

/-- A local time that exists is the local time of its instant. -/
theorem toLocal_ofLocal {l preferred : ℤ} (h : z.validOffsets l ≠ []) :
    z.toLocal (z.ofLocal l preferred) = l := by
  unfold ofLocal toLocal
  split
  · contradiction
  · rename_i o os hv
    split
    · rename_i hp
      rw [(z.mem_validOffsets l preferred).1 (hv ▸ hp), sub_add_cancel]
    · rw [(z.mem_validOffsets l o).1 (hv ▸ List.mem_cons_self), sub_add_cancel]

theorem ofLocal_bounds (l preferred : ℤ) :
    l - 18 * microsPerHour ≤ z.ofLocal l preferred ∧ z.ofLocal l preferred ≤ l + 18 * microsPerHour := by
  have hvalid : ∀ o ∈ z.validOffsets l, -18 * microsPerHour ≤ o ∧ o ≤ 18 * microsPerHour := fun o ho =>
    (z.mem_validOffsets l o).1 ho ▸ z.bounded _
  have hgap := z.gap_bounded l
  unfold ofLocal
  split
  · omega
  · rename_i o os hv
    rw [hv] at hvalid
    have ho := hvalid o List.mem_cons_self
    split
    · have hp := hvalid preferred (by assumption)
      omega
    · omega

theorem toLocal_plusDate {t : ℤ} {move : ℤ → ℤ}
    (h : z.validOffsets (move (z.localDate t) * microsPerDay + z.localTime t) ≠ []) : z.localDate
      (z.plusDate t move) = move (z.localDate t) ∧ z.localTime (z.plusDate t move) = z.localTime t := by
  have hl := z.localTime_bounds t
  have hto : z.toLocal (z.plusDate t move) = _ := z.toLocal_ofLocal h
  rw [localDate, localTime, hto]
  simp only [microsPerDay] at hl ⊢
  omega

/-- Dates a week apart give instants in their order. -/
theorem plusDate_lt {t : ℤ} {move move' : ℤ → ℤ} (h : move (z.localDate t) + 7 ≤ move' (z.localDate t)) :
    z.plusDate t move < z.plusDate t move' := by
  have h₁ := z.ofLocal_bounds (move (z.localDate t) * microsPerDay + z.localTime t) (z.offsetAt t)
  have h₂ := z.ofLocal_bounds (move' (z.localDate t) * microsPerDay + z.localTime t) (z.offsetAt t)
  simp only [plusDate, microsPerDay, microsPerHour] at h₁ h₂ ⊢
  omega

/-- The zone with one fixed offset. -/
def fixed (offset : ℤ) (h : -18 * microsPerHour ≤ offset ∧ offset ≤ 18 * microsPerHour) : ZoneRules where
  offsetAt _ := offset
  validOffsets _ := [offset]
  offsetBefore _ := offset
  mem_validOffsets l o := by rw [List.mem_singleton, eq_comm]
  bounded _ := h
  gap_bounded _ := h

end ZoneRules

end GManager
