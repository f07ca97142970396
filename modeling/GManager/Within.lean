import GManager.Txn
import Mathlib.Order.Defs.Unbundled

/-!
# Transactions within a relation

`Within R x`: every commit of `x` leads to a state in the relation `R` to the one before. For a reflexive
and transitive `R`, such as "these tables are unchanged", a transaction is within `R` when its parts are, so
a frame condition is shown by following the text of the transaction.
-/

namespace GManager.Txn

variable {ρ σ ε α β : Type} {R : σ → σ → Prop}

def Within (R : σ → σ → Prop) (x : Txn ρ σ ε α) : Prop := ∀ c s, wp x (fun _ => R s) c s

theorem Within.mono {R' : σ → σ → Prop} {x : Txn ρ σ ε α} (h : Within R x) (hR : ∀ s s', R s s' → R' s s') :
    Within R' x := fun c s => wp_mono (h c s) fun _ => hR s

/-- Its commit or its rollback. -/
theorem Within.commit [Std.Refl R] {x : Txn ρ σ ε α} (h : Within R x) (c : ρ) (s : σ) : R s (x.commit c s) :=
  commit_of_wp (P := R s) (Std.Refl.refl s) (h c s)

namespace Within

variable [IsPreorder σ R]

theorem bind {x : Txn ρ σ ε α} {f : α → Txn ρ σ ε β} (hx : Within R x) (hf : ∀ a, Within R (f a)) :
    Within R (x >>= f) :=
  fun c s => wp_bind.2 (wp_mono (hx c s) fun a s' h => wp_mono (hf a c s') fun _ _ h' =>
    IsTrans.trans _ _ _ h h')

omit [IsPreorder σ R] in
/-- Goes through a transaction; what follows starts in a related state. -/
theorem bind_wp {x : Txn ρ σ ε α} {f : α → Txn ρ σ ε β} {Q : β → σ → Prop} {c : ρ} {s : σ} (hx : Within R x)
    (h : ∀ a s', R s s' → wp (f a) Q c s') : wp (x >>= f) Q c s :=
  wp_bind.2 (wp_mono (hx c s) h)

theorem pure (a : α) : Within R (Pure.pure a : Txn ρ σ ε α) := fun _ s => wp_pure.2 (Std.Refl.refl s)

theorem ask : Within R (Txn.ask : Txn ρ σ ε ρ) := fun _ s => wp_ask.2 (Std.Refl.refl s)

theorem get : Within R (Txn.get : Txn ρ σ ε σ) := fun _ s => wp_get.2 (Std.Refl.refl s)

omit [IsPreorder σ R] in
theorem modify {f : σ → σ} (hf : ∀ s, R s (f s)) : Within R (Txn.modify f : Txn ρ σ ε Unit) :=
  fun _ s => wp_modify.2 (hf s)

omit [IsPreorder σ R] in
theorem throw (e : ε) : Within R (Txn.throw e : Txn ρ σ ε α) := fun _ _ => wp_throw.2 trivial

theorem require (p : Prop) [Decidable p] (e : ε) : Within R (Txn.require p e : Txn ρ σ ε Unit) :=
  fun _ s => wp_require.2 fun _ => Std.Refl.refl s

theorem orThrow (o : Option α) (e : ε) : Within R (Txn.orThrow o e : Txn ρ σ ε α) :=
  fun _ s => wp_orThrow.2 fun _ _ => Std.Refl.refl s

theorem lift (x : Except ε α) : Within R (Txn.lift x : Txn ρ σ ε α) :=
  fun _ s => wp_lift.2 fun _ _ => Std.Refl.refl s

omit [IsPreorder σ R] in
theorem ite {p : Prop} {_ : Decidable p} {x y : Txn ρ σ ε α} (hx : Within R x) (hy : Within R y) :
    Within R (if p then x else y) := by
  split
  · exact hx
  · exact hy

theorem when {p : Prop} {_ : Decidable p} {x : Txn ρ σ ε Unit} (hx : Within R x) : Within R (Txn.when p x) :=
  ite hx (pure ())

theorem ifPresent {o : Option α} {f : α → Txn ρ σ ε Unit} (hf : ∀ a, Within R (f a)) :
    Within R (Txn.ifPresent o f) := by
  cases o with
  | none => exact pure ()
  | some a => exact hf a

theorem discard {x : Txn ρ σ ε α} (hx : Within R x) : Within R x.discard := bind hx fun _ => pure ()

theorem attempt {x : Txn ρ σ ε α} (hx : Within R x) : Within R (Txn.attempt x) :=
  fun c s => wp_attempt (hx c s) fun _ => Std.Refl.refl s

end Within

end GManager.Txn
