import Mathlib.Order.Defs.LinearOrder
import Mathlib.Order.Lattice

/-!
# Half-open spans

`Overlaps s e s' e'` says that the half-open spans `[s, e)` and `[s', e')` of a linear order meet, in
the form in which schedulers test it: each starts before the other ends.
-/

namespace GManager

variable {α : Type} [LinearOrder α] {s e s' e' a b : α}

/-- Each of `[s, e)` and `[s', e')` starts before the other ends. -/
def Overlaps (s e s' e' : α) : Prop := s < e' ∧ s' < e

instance : Decidable (Overlaps s e s' e') := inferInstanceAs (Decidable (_ ∧ _))

namespace Overlaps

theorem symm (h : Overlaps s e s' e') : Overlaps s' e' s e := ⟨h.2, h.1⟩

/-- Spans that overlap still do when one of them is widened. -/
theorem mono (h : Overlaps s e s' e') (ha : a ≤ s) (hb : e ≤ b) : Overlaps a b s' e' :=
  ⟨ha.trans_lt h.1, h.2.trans_le hb⟩

end Overlaps

theorem not_overlaps_iff : ¬ Overlaps s e s' e' ↔ e' ≤ s ∨ e ≤ s' := by
  rw [Overlaps, not_and_or, not_lt, not_lt]

/-- For non-empty spans the test says that some point lies in both. -/
theorem overlaps_iff_exists (h : s < e) (h' : s' < e') :
    Overlaps s e s' e' ↔ ∃ x, (s ≤ x ∧ x < e) ∧ s' ≤ x ∧ x < e' := by
  constructor
  · rintro ⟨h₁, h₂⟩
    exact ⟨max s s', ⟨le_max_left _ _, max_lt h h₂⟩, le_max_right _ _, max_lt h₁ h'⟩
  · rintro ⟨x, ⟨h₁, h₂⟩, h₃, h₄⟩
    exact ⟨h₁.trans_lt h₄, h₃.trans_lt h₂⟩

end GManager
