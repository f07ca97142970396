import Mathlib.Algebra.Order.Group.Int
import Mathlib.Data.List.Basic

/-!
# Journals with a running balance

A journal is a list of postings to accounts; each posting carries a signed amount and the balance of its
account after it. `Balanced` ties the journal to the balances kept beside it: every balance is
non-negative, is the sum of the amounts of its account, and is the balance noted by its last posting.
Postings that follow the running balance keep it (`Balanced.post`).
-/

namespace GManager

/-- How a row of type `ρ` is read as a posting to an account of type `α`. -/
structure Journal (α ρ : Type) where
  account : ρ → α
  amount : ρ → ℤ
  balanceAfter : ρ → ℤ

namespace Journal

variable {α ρ : Type}

/-- The sum of the amounts of the rows selected by `p`. -/
def sumWhere (J : Journal α ρ) (p : ρ → Bool) (rows : List ρ) : ℤ :=
  (rows.filter p).foldr (fun r n => J.amount r + n) 0

theorem sumWhere_nil (J : Journal α ρ) (p : ρ → Bool) : J.sumWhere p [] = 0 := rfl

theorem sumWhere_append (J : Journal α ρ) (p : ρ → Bool) (rows rows' : List ρ) :
    J.sumWhere p (rows ++ rows') = J.sumWhere p rows + J.sumWhere p rows' := by
  induction rows with
  | nil => rw [List.nil_append, sumWhere_nil, zero_add]
  | cons r rows ih =>
    unfold sumWhere at ih ⊢
    by_cases h : p r
    · rw [List.cons_append, List.filter_cons_of_pos h, List.filter_cons_of_pos h, List.foldr_cons,
        List.foldr_cons, ih, add_assoc]
    · rw [List.cons_append, List.filter_cons_of_neg h, List.filter_cons_of_neg h, ih]

theorem sumWhere_single (J : Journal α ρ) (p : ρ → Bool) (r : ρ) :
    J.sumWhere p [r] = if p r then J.amount r else 0 := by
  cases h : p r <;> simp [sumWhere, h]

theorem sumWhere_concat (J : Journal α ρ) (p : ρ → Bool) (rows : List ρ) (r : ρ) :
    J.sumWhere p (rows ++ [r]) = J.sumWhere p rows + if p r then J.amount r else 0 := by
  rw [sumWhere_append, sumWhere_single]

theorem sumWhere_eq_zero (J : Journal α ρ) {p : ρ → Bool} {rows : List ρ} (h : ∀ r ∈ rows, p r = false) :
    J.sumWhere p rows = 0 := by
  rw [sumWhere, List.filter_eq_nil_iff.2 fun r hr => by simp [h r hr]]
  rfl

theorem sumWhere_congr (J : Journal α ρ) {p q : ρ → Bool} {rows : List ρ} (h : ∀ r ∈ rows, p r = q r) :
    J.sumWhere p rows = J.sumWhere q rows := by
  rw [sumWhere, sumWhere, List.filter_congr h]

/-- Two selections that exclude each other. -/
theorem sumWhere_or (J : Journal α ρ) {p q : ρ → Bool} {rows : List ρ} (h : ∀ r ∈ rows, ¬ (p r ∧ q r)) :
    J.sumWhere (fun r => p r || q r) rows = J.sumWhere p rows + J.sumWhere q rows := by
  induction rows with
  | nil => rfl
  | cons r rows ih =>
    rw [List.forall_mem_cons] at h
    have ih := ih h.2
    have hcons : ∀ p : ρ → Bool, J.sumWhere p (r :: rows) = (if p r then J.amount r else 0) +
        J.sumWhere p rows :=
      fun p => (J.sumWhere_append p [r] rows).trans (by rw [sumWhere_single])
    rw [hcons, hcons, hcons, ih]
    cases hp : p r <;> cases hq : q r <;> simp_all <;> omega

/-- Of rows of different accounts one is selected. -/
theorem sumWhere_eq_amount (J : Journal α ρ) {p : ρ → Bool} {rows : List ρ} {r : ρ}
    (hn : (rows.map J.account).Nodup) (hr : r ∈ rows) (hp : p r)
    (h : ∀ x ∈ rows, p x → J.account x = J.account r) : J.sumWhere p rows = J.amount r := by
  obtain ⟨rows₁, rows₂, rfl⟩ := List.append_of_mem hr
  have hne : ∀ x ∈ rows₁ ++ rows₂, p x = false := by
    intro x hx
    refine Bool.eq_false_iff.2 fun hpx => ?_
    have hsame := h x (by simp only [List.mem_append, List.mem_cons] at hx ⊢; tauto) hpx
    rw [List.map_append, List.map_cons] at hn
    obtain ⟨-, hcons, hdisjoint⟩ := List.nodup_append.1 hn
    rcases List.mem_append.1 hx with hx | hx
    · exact hdisjoint _ (List.mem_map_of_mem hx) _ List.mem_cons_self hsame
    · exact (List.nodup_cons.1 hcons).1 (hsame ▸ List.mem_map_of_mem hx)
  rw [sumWhere_append, show r :: rows₂ = [r] ++ rows₂ from rfl, sumWhere_append, sumWhere_single, if_pos hp,
    J.sumWhere_eq_zero fun x hx => hne x (List.mem_append_left _ hx), J.sumWhere_eq_zero fun x hx =>
    hne x (List.mem_append_right _ hx)]
  omega

variable [DecidableEq α]

/-- The balances `bal` are the running balances of the journal `rows`. -/
structure Balanced (J : Journal α ρ) (bal : α → ℤ) (rows : List ρ) : Prop where
  nonneg : ∀ a, 0 ≤ bal a
  sum : ∀ a, bal a = J.sumWhere (fun r => J.account r = a) rows
  last : ∀ a r, (rows.filter fun r => J.account r = a).getLast? = some r → J.balanceAfter r = bal a

theorem balanced_nil (J : Journal α ρ) : J.Balanced (fun _ => 0) [] :=
  ⟨fun _ => le_rfl, fun _ => rfl, fun a r h => by simp at h⟩

theorem Balanced.congr {J : Journal α ρ} {bal bal' : α → ℤ} {rows : List ρ} (h : J.Balanced bal rows)
    (hb : ∀ a, bal' a = bal a) : J.Balanced bal' rows :=
  (funext hb : bal' = bal) ▸ h

/-- A posting that continues the running balance of its account keeps the journal balanced. -/
theorem Balanced.post {J : Journal α ρ} {bal bal' : α → ℤ} {rows : List ρ} {r : ρ} (h : J.Balanced bal rows)
    (hafter : J.balanceAfter r = bal (J.account r) + J.amount r) (h0 : 0 ≤ J.balanceAfter r)
    (hb : ∀ a, bal' a = if a = J.account r then J.balanceAfter r else bal a) :
    J.Balanced bal' (rows ++ [r]) := by
  refine ⟨fun a => ?_, fun a => ?_, fun a x hx => ?_⟩
  · rw [hb]
    split
    · exact h0
    · exact h.nonneg a
  · rw [hb, sumWhere_concat, ← h.sum]
    by_cases ha : a = J.account r
    · subst ha
      simp [hafter]
    · simp [ha, Ne.symm ha]
  · rw [List.filter_append] at hx
    rw [hb]
    by_cases ha : a = J.account r
    · subst ha
      simp only [List.filter_singleton, decide_true, cond_true, List.getLast?_concat, Option.some.injEq] at hx
      rw [if_pos rfl, hx]
    · rw [if_neg ha]
      simp only [List.filter_singleton, Ne.symm ha, decide_false, cond_false, List.append_nil] at hx
      exact h.last a x hx

/-- Postings to different accounts, that each continue the running balance. -/
theorem Balanced.posts {J : Journal α ρ} {bal bal' : α → ℤ} {rows new : List ρ} (h : J.Balanced bal rows)
    (hn : (new.map J.account).Nodup) (hafter : ∀ r ∈ new, J.balanceAfter r = bal (J.account r) + J.amount r)
    (h0 : ∀ r ∈ new, 0 ≤ J.balanceAfter r)
    (hb : ∀ a, bal' a = J.sumWhere (fun r => J.account r = a) (rows ++ new)) :
    J.Balanced bal' (rows ++ new) := by
  induction new generalizing bal rows with
  | nil =>
    rw [List.append_nil] at hb ⊢
    exact h.congr fun a => (hb a).trans (h.sum a).symm
  | cons r new ih =>
    rw [List.map_cons, List.nodup_cons] at hn
    rw [List.forall_mem_cons] at hafter h0
    rw [List.append_cons] at hb ⊢
    refine ih (h.post hafter.1 h0.1 fun a => rfl) hn.2 (fun x hx => ?_) h0.2 hb
    have hne : J.account x ≠ J.account r := fun heq => hn.1 (heq ▸ List.mem_map_of_mem hx)
    rw [if_neg hne]
    exact hafter.2 x hx

end Journal

end GManager
