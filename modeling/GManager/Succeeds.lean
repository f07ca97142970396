import GManager.Txn

/-!
# Transactions that commit

`Succeeds x Q` holds before `x` when `x` commits and ends in `Q`. Where `wp` says what a commit means, this
also says that there is one; its rules ask for every check on the way.
-/

namespace GManager.Txn

variable {ρ σ ε α β : Type}

def Succeeds (x : Txn ρ σ ε α) (Q : α → σ → Prop) (c : ρ) (s : σ) : Prop :=
  ∃ a s', x.run c s = .ok (a, s') ∧ Q a s'

section rules

variable {Q R : α → σ → Prop} {c : ρ} {s : σ}

theorem Succeeds.mono {x : Txn ρ σ ε α} (h : Succeeds x Q c s) (hQ : ∀ a s', Q a s' → R a s') :
    Succeeds x R c s := by
  obtain ⟨a, s', hrun, hq⟩ := h
  exact ⟨a, s', hrun, hQ a s' hq⟩

/-- A transaction that commits ends as every commit of it does. -/
theorem Succeeds.of_wp {x : Txn ρ σ ε α} (h : ∃ a s', x.run c s = .ok (a, s')) (hw : wp x Q c s) :
    Succeeds x Q c s := by
  obtain ⟨a, s', hrun⟩ := h
  exact ⟨a, s', hrun, hw a s' hrun⟩

@[simp] theorem succeeds_pure {a : α} : Succeeds (pure a : Txn ρ σ ε α) Q c s ↔ Q a s := by
  simp [Succeeds, commits_pure, and_assoc]

@[simp] theorem succeeds_bind {x : Txn ρ σ ε α} {f : α → Txn ρ σ ε β} {Q : β → σ → Prop} :
    Succeeds (x >>= f) Q c s ↔ Succeeds x (fun a s' => Succeeds (f a) Q c s') c s := by
  constructor
  · rintro ⟨b, s', hrun, hq⟩
    obtain ⟨a, s₁, hx, hf⟩ := commits_bind.1 hrun
    exact ⟨a, s₁, hx, b, s', hf, hq⟩
  · rintro ⟨a, s₁, hx, b, s', hf, hq⟩
    exact ⟨b, s', commits_bind.2 ⟨a, s₁, hx, hf⟩, hq⟩

@[simp] theorem succeeds_ask {Q : ρ → σ → Prop} : Succeeds (ask : Txn ρ σ ε ρ) Q c s ↔ Q c s := by
  simp [Succeeds, commits_ask, and_assoc]

@[simp] theorem succeeds_get {Q : σ → σ → Prop} : Succeeds (get : Txn ρ σ ε σ) Q c s ↔ Q s s := by
  simp [Succeeds, commits_get, and_assoc]

@[simp] theorem succeeds_modify {f : σ → σ} {Q : Unit → σ → Prop} :
    Succeeds (modify f : Txn ρ σ ε Unit) Q c s ↔ Q () (f s) := by
  simp only [Succeeds, commits_modify, exists_eq_left]
  constructor
  · rintro ⟨_, h⟩
    exact h
  · exact fun h => ⟨(), h⟩

@[simp] theorem succeeds_require {p : Prop} [Decidable p] {e : ε} {Q : Unit → σ → Prop} :
    Succeeds (require p e : Txn ρ σ ε Unit) Q c s ↔ p ∧ Q () s := by
  simp only [Succeeds, commits_require, and_assoc]
  constructor
  · rintro ⟨_, _, hp, rfl, h⟩
    exact ⟨hp, h⟩
  · rintro ⟨hp, h⟩
    exact ⟨(), s, hp, rfl, h⟩

@[simp] theorem succeeds_orThrow {o : Option α} {e : ε} :
    Succeeds (orThrow o e : Txn ρ σ ε α) Q c s ↔ ∃ a, o = some a ∧ Q a s := by
  simp only [Succeeds, commits_orThrow, and_assoc]
  constructor
  · rintro ⟨a, _, ha, rfl, h⟩
    exact ⟨a, ha, h⟩
  · rintro ⟨a, ha, h⟩
    exact ⟨a, s, ha, rfl, h⟩

@[simp] theorem succeeds_lift {x : Except ε α} :
    Succeeds (lift x : Txn ρ σ ε α) Q c s ↔ ∃ a, x = .ok a ∧ Q a s := by
  simp only [Succeeds, commits_lift, and_assoc]
  constructor
  · rintro ⟨a, _, ha, rfl, h⟩
    exact ⟨a, ha, h⟩
  · rintro ⟨a, ha, h⟩
    exact ⟨a, s, ha, rfl, h⟩

@[simp] theorem succeeds_ite {p : Prop} [Decidable p] {x y : Txn ρ σ ε α} :
    Succeeds (if p then x else y) Q c s ↔ (p → Succeeds x Q c s) ∧ (¬ p → Succeeds y Q c s) := by
  split <;> simp [*]

end rules

end GManager.Txn
