import Mathlib.Data.List.Basic
import Mathlib.Logic.Basic

/-!
# Transactions

A transaction reads the context `ρ` of its call, works on a state `σ`, and either commits with a
result or fails with an `ε`, in which case nothing of its work remains (`Txn.commit`). `wp x Q` holds
before `x` when every commit of `x` ends in `Q`; the rules below push it through a transaction, so a
fact about a transaction is shown by rewriting with them and proving what is left about the states.
The `commits` lemmas say in which case a transaction commits at all, and with what.
-/

namespace GManager

/-- A transaction over states `σ`, called in a context `ρ`, failing with `ε`. -/
def Txn (ρ σ ε α : Type) : Type := ρ → σ → Except ε (α × σ)

namespace Txn

variable {ρ σ ε α β : Type}

def run (x : Txn ρ σ ε α) (c : ρ) (s : σ) : Except ε (α × σ) := x c s

instance : Monad (Txn ρ σ ε) where
  pure a := fun _ s => .ok (a, s)
  bind x f := fun c s => match x c s with
    | .ok (a, s') => f a c s'
    | .error e => .error e

/-- The context of the call. -/
def ask : Txn ρ σ ε ρ := fun c s => .ok (c, s)

def get : Txn ρ σ ε σ := fun _ s => .ok (s, s)

def modify (f : σ → σ) : Txn ρ σ ε Unit := fun _ s => .ok ((), f s)

def throw (e : ε) : Txn ρ σ ε α := fun _ _ => .error e

/-- Fails with `e` unless `p` holds. -/
def require (p : Prop) [Decidable p] (e : ε) : Txn ρ σ ε Unit :=
  fun _ s => if p then .ok ((), s) else .error e

/-- The value of `o`, or the failure `e`. -/
def orThrow (o : Option α) (e : ε) : Txn ρ σ ε α := fun _ s => match o with
  | some a => .ok (a, s)
  | none => .error e

/-- Forgets the result. -/
def discard (x : Txn ρ σ ε α) : Txn ρ σ ε Unit := x >>= fun _ => pure ()

/-- Runs `x` if `p` holds. -/
def when (p : Prop) [Decidable p] (x : Txn ρ σ ε Unit) : Txn ρ σ ε Unit := if p then x else pure ()

/-- Runs `f` on the value of `o`, if it has one. -/
def ifPresent (o : Option α) (f : α → Txn ρ σ ε Unit) : Txn ρ σ ε Unit := match o with
  | some a => f a
  | none => pure ()

/-- A check that does not touch the state. -/
def lift (x : Except ε α) : Txn ρ σ ε α := fun _ s => match x with
  | .ok a => .ok (a, s)
  | .error e => .error e

/-- Runs `x` and carries on with its failure, if it fails; then nothing of its work remains. -/
def attempt (x : Txn ρ σ ε α) : Txn ρ σ ε (Except ε α) := fun c s => match x.run c s with
  | .ok (a, s') => .ok (.ok a, s')
  | .error e => .ok (.error e, s)

/-- The state after the transaction: its own on a commit, the old one on a rollback. -/
def commit (x : Txn ρ σ ε α) (c : ρ) (s : σ) : σ := match x.run c s with
  | .ok (_, s') => s'
  | .error _ => s

/-! ### When a transaction commits -/

section commits

variable {c : ρ} {s s' : σ} {a a' : α} {b : β} {u : Unit} {e : ε}

theorem commits_pure : (pure a : Txn ρ σ ε α).run c s = .ok (a', s') ↔ a' = a ∧ s' = s := by
  show (Except.ok (a, s) : Except ε (α × σ)) = .ok (a', s') ↔ _
  rw [Except.ok.injEq, Prod.mk.injEq]
  exact ⟨fun h => ⟨h.1.symm, h.2.symm⟩, fun h => ⟨h.1.symm, h.2.symm⟩⟩

theorem commits_bind {x : Txn ρ σ ε α} {f : α → Txn ρ σ ε β} :
    (x >>= f).run c s = .ok (b, s') ↔ ∃ a s₁, x.run c s = .ok (a, s₁) ∧ (f a).run c s₁ = .ok (b, s') := by
  show (match x.run c s with | .ok (a, s₁) => (f a).run c s₁ | .error e => .error e) = _ ↔ _
  cases hx : x.run c s with
  | error e => simp
  | ok r =>
    obtain ⟨a, s₁⟩ := r
    constructor
    · intro h
      exact ⟨a, s₁, rfl, h⟩
    · rintro ⟨a', s₁', h, hf⟩
      cases h
      exact hf

theorem run_bind_of_ok {x : Txn ρ σ ε α} {f : α → Txn ρ σ ε β} (h : x.run c s = .ok (a, s')) :
    (x >>= f).run c s = (f a).run c s' := by
  show (match x.run c s with | .ok (a, s₁) => (f a).run c s₁ | .error e => .error e) = _
  rw [h]

theorem run_bind_of_error {x : Txn ρ σ ε α} {f : α → Txn ρ σ ε β} (h : x.run c s = .error e) :
    (x >>= f).run c s = .error e := by
  show (match x.run c s with | .ok (a, s₁) => (f a).run c s₁ | .error e => .error e) = _
  rw [h]

theorem run_bind_get {f : σ → Txn ρ σ ε β} : (get >>= f).run c s = (f s).run c s := rfl

theorem commits_ask {d : ρ} : (ask : Txn ρ σ ε ρ).run c s = .ok (d, s') ↔ d = c ∧ s' = s := by
  simp only [run, ask, Except.ok.injEq, Prod.mk.injEq, eq_comm]

theorem commits_get {t : σ} : (get : Txn ρ σ ε σ).run c s = .ok (t, s') ↔ t = s ∧ s' = s := by
  simp only [run, get, Except.ok.injEq, Prod.mk.injEq, eq_comm]

theorem commits_modify {f : σ → σ} : (modify f : Txn ρ σ ε Unit).run c s = .ok (u, s') ↔ s' = f s := by
  simp only [run, modify, Except.ok.injEq, Prod.mk.injEq, true_and, eq_comm]

theorem commits_throw : (throw e : Txn ρ σ ε α).run c s = .ok (a, s') ↔ False := by
  simp only [run, throw, reduceCtorEq]

theorem commits_require {p : Prop} [Decidable p] :
    (require p e : Txn ρ σ ε Unit).run c s = .ok (u, s') ↔ p ∧ s' = s := by
  by_cases h : p <;> simp [run, require, h, eq_comm]

theorem commits_orThrow {o : Option α} :
    (orThrow o e : Txn ρ σ ε α).run c s = .ok (a, s') ↔ o = some a ∧ s' = s := by
  cases o <;> simp [run, orThrow, eq_comm]

theorem commits_lift {x : Except ε α} :
    (lift x : Txn ρ σ ε α).run c s = .ok (a, s') ↔ x = .ok a ∧ s' = s := by
  cases x <;> simp [run, lift, eq_comm]

end commits

/-! ### Weakest preconditions of commits -/

/-- Every commit of `x` from `s` ends in `Q`. -/
def wp (x : Txn ρ σ ε α) (Q : α → σ → Prop) (c : ρ) (s : σ) : Prop :=
  ∀ a s', x.run c s = .ok (a, s') → Q a s'

section wp

variable {Q R : α → σ → Prop} {c : ρ} {s : σ}

theorem wp_mono {x : Txn ρ σ ε α} (h : wp x Q c s) (hQ : ∀ a s', Q a s' → R a s') : wp x R c s :=
  fun a s' hx => hQ a s' (h a s' hx)

theorem wp_and {x : Txn ρ σ ε α} (h : wp x Q c s) (h' : wp x R c s) :
    wp x (fun a s' => Q a s' ∧ R a s') c s :=
  fun a s' hx => ⟨h a s' hx, h' a s' hx⟩

@[simp] theorem wp_pure {a : α} : wp (pure a : Txn ρ σ ε α) Q c s ↔ Q a s :=
  ⟨fun h => h a s rfl, fun h b s' hb => by
    obtain ⟨rfl, rfl⟩ := commits_pure.1 hb
    exact h⟩

@[simp] theorem wp_bind {x : Txn ρ σ ε α} {f : α → Txn ρ σ ε β} {Q : β → σ → Prop} :
    wp (x >>= f) Q c s ↔ wp x (fun a s₁ => wp (f a) Q c s₁) c s :=
  ⟨fun h a s₁ hx b s' hf => h b s' (commits_bind.2 ⟨a, s₁, hx, hf⟩), fun h b s' hb => by
    obtain ⟨a, s₁, hx, hf⟩ := commits_bind.1 hb
    exact h a s₁ hx b s' hf⟩

theorem wp_discard {x : Txn ρ σ ε α} {Q : σ → Prop} (h : wp x (fun _ => Q) c s) :
    wp x.discard (fun _ => Q) c s :=
  wp_bind.2 (wp_mono h fun _ _ hq => wp_pure.2 hq)

@[simp] theorem wp_ask {Q : ρ → σ → Prop} : wp (ask : Txn ρ σ ε ρ) Q c s ↔ Q c s := by
  simp only [wp, commits_ask, and_imp, forall_eq, forall_eq_apply_imp_iff]

@[simp] theorem wp_get {Q : σ → σ → Prop} : wp (get : Txn ρ σ ε σ) Q c s ↔ Q s s := by
  simp only [wp, commits_get, and_imp, forall_eq, forall_eq_apply_imp_iff]

@[simp] theorem wp_modify {f : σ → σ} {Q : Unit → σ → Prop} :
    wp (modify f : Txn ρ σ ε Unit) Q c s ↔ Q () (f s) := by
  simp only [wp, commits_modify, forall_eq]
  exact ⟨fun h => h (), fun h _ => h⟩

@[simp] theorem wp_throw {e : ε} : wp (throw e : Txn ρ σ ε α) Q c s ↔ True := by
  simp only [wp, commits_throw, false_imp_iff, implies_true]

@[simp] theorem wp_require {p : Prop} [Decidable p] {e : ε} {Q : Unit → σ → Prop} :
    wp (require p e : Txn ρ σ ε Unit) Q c s ↔ (p → Q () s) := by
  simp only [wp, commits_require, and_imp]
  exact ⟨fun h hp => h () s hp rfl, fun h _ s' hp hs => hs ▸ h hp⟩

@[simp] theorem wp_orThrow {o : Option α} {e : ε} :
    wp (orThrow o e : Txn ρ σ ε α) Q c s ↔ ∀ a, o = some a → Q a s := by
  simp only [wp, commits_orThrow, and_imp]
  exact ⟨fun h a ha => h a s ha rfl, fun h a s' ha hs => hs ▸ h a ha⟩

@[simp] theorem wp_lift {x : Except ε α} :
    wp (lift x : Txn ρ σ ε α) Q c s ↔ ∀ a, x = .ok a → Q a s := by
  simp only [wp, commits_lift, and_imp]
  exact ⟨fun h a ha => h a s ha rfl, fun h a s' ha hs => hs ▸ h a ha⟩

theorem wp_of_run {x : Txn ρ σ ε α} {a : α} {s' : σ}
    (h : x.run c s = .ok (a, s')) (hQ : Q a s') : wp x Q c s := by
  intro b s₁ hb
  rw [h] at hb
  cases hb
  exact hQ

/-- An attempt ends as its transaction does, or with its failure in the state before. -/
theorem wp_attempt {x : Txn ρ σ ε α} {Q : Except ε α → σ → Prop} (h : wp x (fun a s' => Q (.ok a) s') c s)
    (he : ∀ e, Q (.error e) s) : wp (attempt x) Q c s := by
  intro r s' hr
  simp only [run, attempt] at hr
  cases hx : x c s with
  | error e =>
    rw [hx] at hr
    cases hr
    exact he e
  | ok r' =>
    obtain ⟨a, s₁⟩ := r'
    rw [hx] at hr
    cases hr
    exact h a s' hx

@[simp] theorem wp_ite {p : Prop} [Decidable p] {x y : Txn ρ σ ε α} :
    wp (if p then x else y) Q c s ↔ (p → wp x Q c s) ∧ (¬ p → wp y Q c s) := by
  split <;> simp [*]

/-- A fact that holds before a transaction and after each of its commits holds after it. -/
theorem commit_of_wp {x : Txn ρ σ ε α} {P : σ → Prop} (hs : P s) (h : wp x (fun _ => P) c s) :
    P (x.commit c s) := by
  unfold commit
  split
  · exact h _ _ ‹_›
  · exact hs

end wp

theorem commit_discard_of_ok {x : Txn ρ σ ε α} {c : ρ} {s s' : σ} {a : α} (h : x.run c s = .ok (a, s')) :
    x.discard.commit c s = s' := by
  unfold commit discard
  rw [run_bind_of_ok h]
  rfl

/-! ### Two runs side by side -/

/-- In one context both transactions fail, or both commit and their ends are related by `Q`. -/
def Paired (x : Txn ρ σ ε α) (y : Txn ρ σ ε β) (Q : α → β → σ → σ → Prop) (c : ρ) (s t : σ) : Prop :=
  match x.run c s, y.run c t with
  | .ok (a, s'), .ok (b, t') => Q a b s' t'
  | .error _, .error _ => True
  | _, _ => False

/-- The transaction does not look at the state. -/
def Stateless (x : Txn ρ σ ε α) : Prop := ∃ g : ρ → Except ε α, ∀ c s, x.run c s = (g c).map fun a => (a, s)

section paired

variable {α' β' : Type} {c : ρ} {s t : σ} {Q : α → β → σ → σ → Prop}

theorem paired_of_ok {x : Txn ρ σ ε α} {y : Txn ρ σ ε β} {a : α} {b : β} {s' t' : σ}
    (hx : x.run c s = .ok (a, s')) (hy : y.run c t = .ok (b, t')) (hQ : Q a b s' t') :
    Paired x y Q c s t := by
  rw [Paired, hx, hy]
  exact hQ

theorem paired_of_error {x : Txn ρ σ ε α} {y : Txn ρ σ ε β} {e e' : ε} (hx : x.run c s = .error e)
    (hy : y.run c t = .error e') : Paired x y Q c s t := by
  rw [Paired, hx, hy]
  trivial

theorem paired_pure {a : α} {b : β} (h : Q a b s t) :
    Paired (pure a : Txn ρ σ ε α) (pure b : Txn ρ σ ε β) Q c s t := paired_of_ok rfl rfl h

theorem paired_bind {x : Txn ρ σ ε α} {y : Txn ρ σ ε β} {f : α → Txn ρ σ ε α'} {g : β → Txn ρ σ ε β'}
    {Q : α' → β' → σ → σ → Prop} (h : Paired x y (fun a b s' t' => Paired (f a) (g b) Q c s' t') c s t) :
    Paired (x >>= f) (y >>= g) Q c s t := by
  unfold Paired at h
  split at h
  · rename_i a s' b t' hx hy
    rw [Paired, run_bind_of_ok hx, run_bind_of_ok hy]
    exact h
  · rename_i e e' hx hy
    exact paired_of_error (run_bind_of_error hx) (run_bind_of_error hy)
  · exact h.elim

theorem paired_mono {R : α → β → σ → σ → Prop} {x : Txn ρ σ ε α} {y : Txn ρ σ ε β} (h : Paired x y R c s t)
    (hQ : ∀ a b s' t', R a b s' t' → Q a b s' t') : Paired x y Q c s t := by
  unfold Paired at h ⊢
  split at h
  · exact hQ _ _ _ _ h
  · trivial
  · exact h

theorem paired_ask {Q : ρ → ρ → σ → σ → Prop} (h : Q c c s t) : Paired (ask : Txn ρ σ ε ρ) ask Q c s t :=
  paired_of_ok rfl rfl h

theorem paired_get {Q : σ → σ → σ → σ → Prop} (h : Q s t s t) : Paired (get : Txn ρ σ ε σ) get Q c s t :=
  paired_of_ok rfl rfl h

theorem paired_modify {f g : σ → σ} {Q : Unit → Unit → σ → σ → Prop} (h : Q () () (f s) (g t)) :
    Paired (modify f : Txn ρ σ ε Unit) (modify g) Q c s t := paired_of_ok rfl rfl h

theorem paired_orThrow {f : α → β} {o : Option α} {e : ε} (h : ∀ a, o = some a → Q a (f a) s t) :
    Paired (orThrow o e : Txn ρ σ ε α) (orThrow (o.map f) e) Q c s t := by
  cases o with
  | none => exact paired_of_error (e := e) rfl rfl
  | some a => exact paired_of_ok rfl rfl (h a rfl)

theorem paired_ite {p q : Prop} [Decidable p] [Decidable q] {x x' : Txn ρ σ ε α} {y y' : Txn ρ σ ε β}
    (hpq : p ↔ q) (h : p → Paired x y Q c s t) (h' : ¬ p → Paired x' y' Q c s t) :
    Paired (if p then x else x') (if q then y else y') Q c s t := by
  by_cases hp : p
  · rw [if_pos hp, if_pos (hpq.1 hp)]
    exact h hp
  · rw [if_neg hp, if_neg fun hq => hp (hpq.2 hq)]
    exact h' hp

/-- What holds of two states, and of the ends of paired commits, holds after both transactions. -/
theorem commit_of_paired {x : Txn ρ σ ε α} {y : Txn ρ σ ε β} {R : σ → σ → Prop} (hst : R s t)
    (h : Paired x y (fun _ _ => R) c s t) : R (x.commit c s) (y.commit c t) := by
  unfold Paired at h
  unfold commit
  split at h
  · rename_i a s' b t' hx hy
    rw [hx, hy]
    exact h
  · rename_i e e' hx hy
    rw [hx, hy]
    exact hst
  · exact h.elim

theorem Stateless.bind {x : Txn ρ σ ε α} {f : α → Txn ρ σ ε β} (hx : Stateless x)
    (hf : ∀ a, Stateless (f a)) : Stateless (x >>= f) := by
  obtain ⟨g, hg⟩ := hx
  choose k hk using hf
  refine ⟨fun c => (g c).bind fun a => k a c, fun c s => ?_⟩
  show (match x.run c s with | .ok (a, s') => f a c s' | .error e => .error e) =
    ((g c).bind fun a => k a c).map fun b => (b, s)
  rw [hg]
  cases g c with
  | error e => rfl
  | ok a => exact hk a c s

theorem Stateless.pure (a : α) : Stateless (Pure.pure a : Txn ρ σ ε α) := ⟨fun _ => .ok a, fun _ _ => rfl⟩

theorem Stateless.ask : Stateless (Txn.ask : Txn ρ σ ε ρ) := ⟨fun c => .ok c, fun _ _ => rfl⟩

theorem Stateless.lift (x : Except ε α) : Stateless (Txn.lift x : Txn ρ σ ε α) :=
  ⟨fun _ => x, fun _ _ => by cases x <;> rfl⟩

theorem Stateless.require (p : Prop) [Decidable p] (e : ε) : Stateless (Txn.require p e : Txn ρ σ ε Unit) :=
  ⟨fun _ => if p then .ok () else .error e,
    fun _ _ => by by_cases hp : p <;> simp [run, Txn.require, hp] <;> rfl⟩

theorem Stateless.orThrow (o : Option α) (e : ε) : Stateless (Txn.orThrow o e : Txn ρ σ ε α) :=
  ⟨fun _ => o.elim (.error e) .ok, fun _ _ => by cases o <;> rfl⟩

theorem Stateless.ite {p : Prop} {_ : Decidable p} {x y : Txn ρ σ ε α} (hx : Stateless x) (hy : Stateless y) :
    Stateless (if p then x else y) := by
  split
  · exact hx
  · exact hy

/-- A transaction that does not look at the state runs alike on both sides. -/
theorem Stateless.paired {x : Txn ρ σ ε α} {Q : α → α → σ → σ → Prop} (hx : Stateless x)
    (h : ∀ a, Q a a s t) :
    Paired x x Q c s t := by
  obtain ⟨g, hg⟩ := hx
  unfold Paired
  rw [hg, hg]
  cases g c with
  | error e => trivial
  | ok a => exact h a

end paired

end Txn

end GManager
