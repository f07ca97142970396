import GManager.Civil
import Mathlib.Tactic.Common

/-!
# Instants in memory and in columns

The clock reads nanoseconds and a column `TIMESTAMP(6)` keeps microseconds, so an instant loses what lies
below a microsecond when it is stored and loaded again. A parameter of a query is rounded in the same way.
-/

namespace GManager.Nanos

/-- `TIMESTAMP(6)`: the nearest microsecond, halves upwards. -/
def timestamp6 (t : ℤ) : ℤ := (t + 500) / 1000

/-- The instant that a column is read as. -/
def fromColumn (t : ℤ) : ℤ := t * 1000

def plusSeconds (t n : ℤ) : ℤ := t + n * 1000000000

theorem timestamp6_fromColumn (t : ℤ) : timestamp6 (fromColumn t) = t := by
  unfold timestamp6 fromColumn
  omega

theorem fromColumn_timestamp6 {t : ℤ} : fromColumn (timestamp6 t) = t ↔ 1000 ∣ t := by
  unfold timestamp6 fromColumn
  omega

theorem dvd_fromColumn (t : ℤ) : 1000 ∣ fromColumn t := ⟨t, mul_comm t 1000⟩

end GManager.Nanos
