import Mathlib.Data.Int.Order.Basic
import Mathlib.Tactic.Linarith

/-!
# Civil time

Instants are counted in microseconds, the resolution of the database's timestamps, and dates in days.
A `Zone` is what a scheduler sees of a time zone: the local date of an instant and the instant of a
local date and time. Its two laws say that local dates never run backwards and that resolving a local
time, also one in a gap or a repeated hour, stays on its date; they hold for every zone whose offset
changes do not cross midnight.
-/

namespace GManager

/-- Microseconds since the epoch. -/
abbrev Instant := ℤ

/-- Days since the epoch. -/
abbrev LocalDate := ℤ

def microsPerSecond : ℤ := 1000000

def microsPerDay : ℕ := 86400000000

/-- Microseconds since local midnight. -/
abbrev LocalTime := Fin microsPerDay

def Instant.plusSeconds (t : Instant) (n : ℤ) : Instant := t + n * microsPerSecond

/-- `Duration.between(s, t).getSeconds()`: whole seconds, rounded down. -/
def secondsBetween (s t : Instant) : ℤ := (t - s) / microsPerSecond

theorem Instant.le_plusSeconds {t : Instant} {n : ℤ} (h : 0 ≤ n) : t ≤ t.plusSeconds n := by
  grind [plusSeconds, microsPerSecond]

theorem Instant.plusSeconds_mono {t t' : Instant} (h : t ≤ t') (n : ℤ) : t.plusSeconds n ≤ t'.plusSeconds n :=
  Int.add_le_add_right h _

theorem Instant.plusSeconds_zero (t : Instant) : t.plusSeconds 0 = t := by
  simp [plusSeconds]

theorem Instant.plusSeconds_plusSeconds (t : Instant) (m n : ℤ) :
    (t.plusSeconds m).plusSeconds n = t.plusSeconds (m + n) := by
  rw [plusSeconds, plusSeconds, plusSeconds, add_mul, add_assoc]

theorem Instant.plusSeconds_le_plusSeconds {t : Instant} {m n : ℤ} :
    t.plusSeconds m ≤ t.plusSeconds n ↔ m ≤ n := by
  grind [plusSeconds, microsPerSecond]

theorem Instant.lt_plusSeconds_neg {t t' : Instant} {n : ℤ} (h : t.plusSeconds n < t') :
    t < t'.plusSeconds (-n) := by
  grind [plusSeconds, microsPerSecond]

theorem Instant.lt_plusSeconds {t : Instant} {n : ℤ} : t < t.plusSeconds n ↔ 0 < n := by
  grind [plusSeconds, microsPerSecond]

/-- Whole seconds are the largest number of seconds that fit. -/
theorem le_secondsBetween_iff {s t : Instant} {n : ℤ} : n ≤ secondsBetween s t ↔ s.plusSeconds n ≤ t := by
  grind [secondsBetween, Instant.plusSeconds, microsPerSecond]

/-- Moving the start by whole seconds takes them off, whatever the fractions are. -/
theorem secondsBetween_plusSeconds (s t : Instant) (n : ℤ) :
    secondsBetween (s.plusSeconds n) t = secondsBetween s t - n := by
  grind [secondsBetween, Instant.plusSeconds, microsPerSecond]

theorem secondsBetween_mono {s t t' : Instant} (h : t ≤ t') : secondsBetween s t ≤ secondsBetween s t' := by
  grind [secondsBetween, microsPerSecond]

theorem secondsBetween_self (t : Instant) : secondsBetween t t = 0 := by simp [secondsBetween]

inductive DayOfWeek
  | monday | tuesday | wednesday | thursday | friday | saturday | sunday
  deriving DecidableEq, Repr

/-- Day 0 of the epoch was a Thursday. -/
def LocalDate.dayOfWeek (d : LocalDate) : DayOfWeek :=
  match (d + 3) % 7 with
  | 0 => .monday
  | 1 => .tuesday
  | 2 => .wednesday
  | 3 => .thursday
  | 4 => .friday
  | 5 => .saturday
  | _ => .sunday

/-- A time zone whose offset changes do not cross midnight. -/
structure Zone where
  dateOf : Instant → LocalDate
  instantOf : LocalDate → LocalTime → Instant
  dateOf_mono : ∀ {i j}, i ≤ j → dateOf i ≤ dateOf j
  dateOf_instantOf : ∀ d t, dateOf (instantOf d t) = d

namespace Zone

variable (z : Zone)

/-- Local times of different dates come in the order of the dates. -/
theorem instantOf_lt {d d' : LocalDate} (h : d < d') (t t' : LocalTime) :
    z.instantOf d t < z.instantOf d' t' := by
  by_contra hn
  have := z.dateOf_mono (not_lt.1 hn)
  rw [z.dateOf_instantOf, z.dateOf_instantOf] at this
  exact absurd h (not_lt.2 this)

theorem dateOf_le_of_lt {i : Instant} {d : LocalDate} {t : LocalTime} (h : i < z.instantOf d t) :
    z.dateOf i ≤ d := by
  have := z.dateOf_mono h.le
  rwa [z.dateOf_instantOf] at this

theorem le_dateOf_of_le {i : Instant} {d : LocalDate} {t : LocalTime} (h : z.instantOf d t ≤ i) :
    d ≤ z.dateOf i := by
  have := z.dateOf_mono h
  rwa [z.dateOf_instantOf] at this

/-- The zone with one fixed offset from UTC, in microseconds. -/
def fixed (offset : ℤ) : Zone where
  dateOf i := (i + offset) / microsPerDay
  instantOf d t := d * microsPerDay + t - offset
  dateOf_mono h := Int.ediv_le_ediv (by decide) (by linarith)
  dateOf_instantOf d t := by
    have ht : (t : ℤ) < microsPerDay := Int.ofNat_lt.2 t.isLt
    have h0 : (0 : ℤ) ≤ t := Int.natCast_nonneg _
    rw [sub_add_cancel, add_comm, Int.add_mul_ediv_right _ _ (by decide),
      Int.ediv_eq_zero_of_lt h0 ht, zero_add]

end Zone

end GManager
