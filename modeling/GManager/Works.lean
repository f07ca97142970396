import GManager.Txn

/-!
# Units of work

A unit of work runs inside a transaction that goes on when the work fails: unlike a transaction of its own,
it then leaves behind what it has written. Only the whole is undone (`commit`), on a failure that nobody
caught or when a participant has marked it for rollback. `Ends x Q R` says how `x` ends: with a value and a
state in `Q`, or with a failure and a state in `R`.
-/

namespace GManager

/-- How a unit of work ends, and whether it has marked the transaction for rollback. -/
structure Outcome (σ ε α : Type) where
  result : Except ε α
  state : σ
  rollbackOnly : Bool

def Work (ρ σ ε α : Type) := ρ → σ → Outcome σ ε α

namespace Work

variable {ρ σ τ ε α β : Type}

def bind (x : Work ρ σ ε α) (f : α → Work ρ σ ε β) : Work ρ σ ε β := fun c s =>
  match (x c s).result with
  | .ok a =>
    let o := f a c (x c s).state
    ⟨o.result, o.state, (x c s).rollbackOnly || o.rollbackOnly⟩
  | .error e => ⟨.error e, (x c s).state, (x c s).rollbackOnly⟩

instance : Monad (Work ρ σ ε) where
  pure a := fun _ s => ⟨.ok a, s, false⟩
  bind := bind

def ask : Work ρ σ ε ρ := fun c s => ⟨.ok c, s, false⟩

def get : Work ρ σ ε σ := fun _ s => ⟨.ok s, s, false⟩

def modify (f : σ → σ) : Work ρ σ ε Unit := fun _ s => ⟨.ok (), f s, false⟩

def throw (e : ε) : Work ρ σ ε α := fun _ s => ⟨.error e, s, false⟩

def require (p : Prop) [Decidable p] (e : ε) : Work ρ σ ε Unit := if p then pure () else throw e

def orThrow (o : Option α) (e : ε) : Work ρ σ ε α := match o with
  | some a => pure a
  | none => throw e

/-- A transaction over a part of the state, which writes nothing before its last check. -/
def part {π : Type} (context : ρ → π) (get : σ → τ) (put : σ → τ → σ) (x : Txn π τ ε α) :
    Work ρ σ ε α := fun c s =>
  match x.run (context c) (get s) with
  | .ok (a, t) => ⟨.ok a, put s t, false⟩
  | .error e => ⟨.error e, s, false⟩

/-- A participant that marks the transaction when it fails. -/
def participate (x : Work ρ σ ε α) : Work ρ σ ε α := fun c s =>
  { x c s with rollbackOnly := (x c s).rollbackOnly || match (x c s).result with
    | .ok _ => false
    | .error _ => true }

/-- Catches a failure; what the work has written stays. -/
def attempt (x : Work ρ σ ε α) : Work ρ σ ε (Except ε α) :=
  fun c s => { x c s with result := .ok (x c s).result }

/-- How the caller of a transaction sees its failure: `none` is a rollback that it did not expect. -/
def commit (x : Work ρ σ ε α) (c : ρ) (s : σ) : Except (Option ε) α × σ :=
  match (x c s).result with
  | .ok a => if (x c s).rollbackOnly then (.error none, s) else (.ok a, (x c s).state)
  | .error e => (.error (some e), s)

/-! ### How a unit of work ends -/

def Ends (x : Work ρ σ ε α) (Q : α → σ → Prop) (R : ε → σ → Prop) (c : ρ) (s : σ) : Prop :=
  match (x c s).result with
  | .ok a => Q a (x c s).state
  | .error e => R e (x c s).state

variable {Q Q' : α → σ → Prop} {R R' : ε → σ → Prop} {c : ρ} {s : σ}

theorem Ends.mono {x : Work ρ σ ε α} (h : Ends x Q R c s) (hQ : ∀ a s', Q a s' → Q' a s')
    (hR : ∀ e s', R e s' → R' e s') :
    Ends x Q' R' c s := by
  unfold Ends at h ⊢
  split
  · exact hQ _ _ (by simp_all)
  · exact hR _ _ (by simp_all)

@[simp] theorem ends_pure {a : α} : Ends (pure a : Work ρ σ ε α) Q R c s ↔ Q a s := Iff.rfl

@[simp] theorem ends_bind {x : Work ρ σ ε α} {f : α → Work ρ σ ε β} {Q : β → σ → Prop} :
    Ends (x >>= f) Q R c s ↔ Ends x (fun a s' => Ends (f a) Q R c s') R c s := by
  show Ends (Work.bind x f) Q R c s ↔ _
  unfold Ends Work.bind
  cases (x c s).result with
  | ok a => rfl
  | error e => rfl

@[simp] theorem ends_ask {Q : ρ → σ → Prop} : Ends (ask : Work ρ σ ε ρ) Q R c s ↔ Q c s := Iff.rfl

@[simp] theorem ends_get {Q : σ → σ → Prop} : Ends (get : Work ρ σ ε σ) Q R c s ↔ Q s s := Iff.rfl

@[simp] theorem ends_modify {f : σ → σ} {Q : Unit → σ → Prop} : Ends (modify f : Work ρ σ ε Unit) Q R c s ↔
    Q () (f s) := Iff.rfl

@[simp] theorem ends_throw {e : ε} : Ends (throw e : Work ρ σ ε α) Q R c s ↔ R e s := Iff.rfl

@[simp] theorem ends_require {p : Prop} [Decidable p] {e : ε} {Q : Unit → σ → Prop} :
    Ends (require p e : Work ρ σ ε Unit) Q R c s ↔ (p → Q () s) ∧ (¬ p → R e s) := by
  unfold require
  split <;> simp [*]

@[simp] theorem ends_orThrow {o : Option α} {e : ε} :
    Ends (orThrow o e : Work ρ σ ε α) Q R c s ↔ (∀ a, o = some a → Q a s) ∧ (o = none → R e s) := by
  cases o <;> simp [orThrow]

@[simp] theorem ends_participate {x : Work ρ σ ε α} : Ends (participate x) Q R c s ↔ Ends x Q R c s := Iff.rfl

@[simp] theorem ends_attempt {x : Work ρ σ ε α} {Q : Except ε α → σ → Prop} :
    Ends (attempt x) Q R c s ↔ Ends x (fun a => Q (.ok a)) (fun e => Q (.error e)) c s := by
  show Q (x c s).result (x c s).state ↔ _
  unfold Ends
  cases (x c s).result with
  | ok a => rfl
  | error e => rfl

/-- A part that commits ends as `wp` says; one that fails leaves everything as it was. -/
theorem ends_part {π : Type} {context : ρ → π} {get : σ → τ} {put : σ → τ → σ} {x : Txn π τ ε α}
    (hQ : Txn.wp x (fun a t => Q a (put s t)) (context c) (get s)) (hR : ∀ e, R e s) :
    Ends (part context get put x) Q R c s := by
  unfold Ends part
  cases hx : x.run (context c) (get s) with
  | ok p => exact hQ p.1 p.2 hx
  | error e => exact hR e

/-- A transaction that commits ends as its work ends, and nothing else changes the state. -/
theorem commit_cases {x : Work ρ σ ε α} (h : Ends x Q R c s) :
    (∃ a, (x.commit c s).1 = .ok a ∧ Q a (x.commit c s).2) ∨ (∃ e, (x.commit c s).1 = .error e) ∧
    (x.commit c s).2 = s := by
  unfold Ends at h
  unfold commit
  cases hx : (x c s).result with
  | ok a =>
    rw [hx] at h
    cases hr : (x c s).rollbackOnly with
    | false => exact .inl ⟨a, rfl, h⟩
    | true => exact .inr ⟨⟨none, rfl⟩, rfl⟩
  | error e => exact .inr ⟨⟨some e, rfl⟩, rfl⟩

end Work

end GManager
