import Mathlib.Data.List.Basic

/-!
# Runs, and what happens at most once in them

A run folds a step function over a list of events. What every step keeps, while a condition on the events
holds, holds after the run (`foldl_keeps`). `occurrences` counts the events of a run that satisfy a
predicate of the state and the event. If such an event sets a mark that it does not find, and no event
removes the mark, then it occurs at most once (`Once.le_one`).
-/

namespace GManager

variable {σ ε : Type}

theorem foldl_keeps {step : σ → ε → σ} {P : σ → Prop} {C : σ → ε → Prop}
    (h : ∀ s e, P s → C s e → P (step s e)) {s : σ} {es : List ε} (hs : P s)
    (hC : ∀ pre e post, es = pre ++ e :: post → C (pre.foldl step s) e) : P (es.foldl step s) := by
  induction es generalizing s with
  | nil => exact hs
  | cons e es ih =>
    refine ih (h s e hs (hC [] e es rfl)) fun pre e' post hes => ?_
    exact hC (e :: pre) e' post (congrArg (e :: ·) hes)

/-- How often `p` holds along the run. -/
def occurrences (step : σ → ε → σ) (p : σ → ε → Bool) : σ → List ε → ℕ
  | _, [] => 0
  | s, e :: es => (if p s e then 1 else 0) + occurrences step p (step s e) es

/-- In the states of the invariant `I`, an event with `p` leaves the mark `S`, and
happens only where it is not. -/
structure Once (step : σ → ε → σ) (p : σ → ε → Bool) (I S : σ → Prop) : Prop where
  inv : ∀ s e, I s → I (step s e)
  stays : ∀ s e, I s → S s → S (step s e)
  marks : ∀ s e, I s → p s e → S (step s e)
  free : ∀ s e, I s → p s e → ¬ S s

namespace Once

variable {step : σ → ε → σ} {p : σ → ε → Bool} {I S : σ → Prop} {s : σ}

theorem marked (h : Once step p I S) (hI : I s) (hS : S s) (es : List ε) : occurrences step p s es = 0 := by
  induction es generalizing s with
  | nil => rfl
  | cons e es ih =>
    have hno : ¬ p s e := fun hp => h.free s e hI hp hS
    simp only [occurrences, if_neg hno, ih (h.inv s e hI) (h.stays s e hI hS)]

theorem le_one (h : Once step p I S) (hI : I s) (es : List ε) : occurrences step p s es ≤ 1 := by
  induction es generalizing s with
  | nil => exact Nat.zero_le 1
  | cons e es ih =>
    have hI' := h.inv s e hI
    by_cases hp : p s e
    · simp only [occurrences, if_pos hp, h.marked hI' (h.marks s e hI hp) es, Nat.add_zero, Nat.le_refl]
    · simp only [occurrences, if_neg hp, Nat.zero_add]
      exact ih hI'

end Once

end GManager
