import Mathlib.Order.Defs.Unbundled
import Mathlib.Logic.Function.Basic
import Mathlib.Data.Nat.Notation

/-!
# Transactions side by side

A `Transaction` reads committed data and writes it, each in one act; a write that the store refuses ends
it. Any number of them run on a `Board`, in any order of their acts, and each may be given up between two.
`Good` follows the text of one: between its acts the store may change by `R`, which is also what each write
has to keep, and `P` is what a write may count on of the view that was read last. Transactions that are good
alone are good together (`Run.sound`).
-/

namespace GManager

inductive Transaction (σ : Type) where
  | done
  | read (next : σ → Transaction σ)
  | write (f : σ → Option σ) (next : Transaction σ)

/-- A transaction that runs: the call it was begun with, the store as it read it last,
and what is left to do. -/
structure Activity (κ σ : Type) where
  call : κ
  view : σ
  rest : Transaction σ

structure Board (κ σ : Type) where
  store : σ
  active : ℕ → Option (Activity κ σ)

inductive Act (κ : Type)
  | start (n : ℕ) (call : κ)
  | turn (n : ℕ)
  | giveUp (n : ℕ)

variable {κ σ : Type}

namespace Transaction

/-- Under changes by `R` of a store in `I`, its writes keep both, where `P` holds of the view and
the store that they find. -/
def Good (P : σ → σ → Prop) (I : σ → Prop) (R : σ → σ → Prop) : Transaction σ → σ → Prop
  | .done, _ => True
  | .read next, view => ∀ s, I s → R view s → Good P I R (next s) s
  | .write f next, view => ∀ s s', I s → R view s → P view s → f s = some s' →
      I s' ∧ R s s' ∧ Good P I R next view

end Transaction

namespace Board

def set (b : Board κ σ) (n : ℕ) (a : Option (Activity κ σ)) : Board κ σ :=
  { b with active := Function.update b.active n a }

/-- The next act of a transaction. -/
def turn (b : Board κ σ) (n : ℕ) (a : Activity κ σ) : Board κ σ :=
  match a.rest with
  | .done => b.set n none
  | .read next => b.set n (some { a with view := b.store, rest := next b.store })
  | .write f next =>
    match f b.store with
    | none => b.set n none
    | some s => { b with store := s }.set n (some { a with rest := next })

variable (code : κ → Transaction σ)

def step (b : Board κ σ) : Act κ → Option (Board κ σ)
  | .start n call => if (b.active n).isNone then some (b.set n (some ⟨call, b.store, code call⟩)) else none
  | .turn n => (b.active n).map (b.turn n)
  | .giveUp n => some (b.set n none)

/-- Where the act is a write, `P` holds of its call, its view and the store. -/
def Meets (P : κ → σ → σ → Prop) (b : Board κ σ) (e : Act κ) : Prop :=
  ∀ n a f next, e = .turn n → b.active n = some a → a.rest = .write f next → P a.call a.view b.store

inductive Run (P : κ → σ → σ → Prop) : Board κ σ → Board κ σ → Prop
  | refl (b : Board κ σ) : Run P b b
  | tail {b b' b'' : Board κ σ} {e : Act κ} (h : Run P b b') (hmeets : Meets P b' e)
      (hstep : b'.step code e = some b'') : Run P b b''

def run (b : Board κ σ) (es : List (Act κ)) : Option (Board κ σ) := es.foldlM (step code) b

/-- Every act of a list meets `P` where it is done. -/
def MeetsAll (P : κ → σ → σ → Prop) : Board κ σ → List (Act κ) → Prop
  | _, [] => True
  | b, e :: es => Meets P b e ∧ ∀ b', b.step code e = some b' → MeetsAll P b' es

theorem Run.of_run {P : κ → σ → σ → Prop} {b b' b'' : Board κ σ} (h : Run code P b b') (es : List (Act κ))
    (hmeets : MeetsAll code P b' es) (hrun : run code b' es = some b'') : Run code P b b'' := by
  induction es generalizing b' with
  | nil =>
    cases hrun
    exact h
  | cons e es ih =>
    rw [run, List.foldlM_cons] at hrun
    obtain ⟨b₁, hstep, hrun⟩ := Option.bind_eq_some_iff.1 hrun
    exact ih (h.tail hmeets.1 hstep) (hmeets.2 b₁ hstep) hrun

theorem meetsAll_true (b : Board κ σ) (es : List (Act κ)) : MeetsAll code (fun _ _ _ => True) b es := by
  induction es generalizing b with
  | nil => trivial
  | cons e es ih => exact ⟨fun _ _ _ _ _ _ _ => trivial, fun b' _ => ih b'⟩

omit code in
theorem Meets.start {P : κ → σ → σ → Prop} {b : Board κ σ} {n : ℕ} {call : κ} :
    Meets P b (.start n call) := by
  intro m a f next he
  cases he

omit code in
theorem Meets.read {P : κ → σ → σ → Prop} {b : Board κ σ} {n : ℕ} {a : Activity κ σ} {f : σ → Transaction σ}
    (ha : b.active n = some a) (hrest : a.rest = .read f) : Meets P b (.turn n) := by
  intro m a' g next he ha' hrest'
  cases he
  rw [ha] at ha'
  cases ha'
  rw [hrest] at hrest'
  cases hrest'

omit code in
theorem Meets.write {P : κ → σ → σ → Prop} {b : Board κ σ} {n : ℕ} {a : Activity κ σ}
    (ha : b.active n = some a) (hP : P a.call a.view b.store) : Meets P b (.turn n) := by
  intro m a' g next he ha' _
  cases he
  rw [ha] at ha'
  cases ha'
  exact hP

/-! ## Transactions that are good together -/

/-- Every transaction that runs has read a store that the present one goes on from, and is good from there. -/
structure Sound (P : κ → σ → σ → Prop) (I : σ → Prop) (R : σ → σ → Prop) (b : Board κ σ) : Prop where
  store : I b.store
  active : ∀ n a, b.active n = some a → R a.view b.store ∧ a.rest.Good (P a.call) I R a.view

variable {P : κ → σ → σ → Prop} {I : σ → Prop} {R : σ → σ → Prop} {b b' : Board κ σ} {n : ℕ}

theorem Sound.set {a : Option (Activity κ σ)} (h : b.Sound P I R)
    (ha : ∀ a', a = some a' → R a'.view b.store ∧ a'.rest.Good (P a'.call) I R a'.view) :
    (b.set n a).Sound P I R := by
  refine ⟨h.store, fun m a' hm => ?_⟩
  by_cases hmn : m = n
  · subst hmn
    exact ha a' (by simpa [Board.set] using hm)
  · exact h.active m a' (by simpa [Board.set, hmn] using hm)

theorem Sound.write [IsTrans σ R] {s : σ} (h : b.Sound P I R) (hI : I s) (hR : R b.store s) :
    ({ b with store := s } : Board κ σ).Sound P I R :=
  ⟨hI, fun m a hm => ⟨IsTrans.trans _ _ _ (h.active m a hm).1 hR, (h.active m a hm).2⟩⟩

theorem Sound.turn [IsPreorder σ R] {a : Activity κ σ} (h : b.Sound P I R) (ha : b.active n = some a)
    (hmeets : ∀ f next, a.rest = .write f next → P a.call a.view b.store) : (b.turn n a).Sound P I R := by
  obtain ⟨hview, hgood⟩ := h.active n a ha
  obtain ⟨call, view, rest⟩ := a
  cases rest with
  | done => exact h.set fun a' ha' => by cases ha'
  | read next =>
    refine h.set fun a' ha' => ?_
    cases ha'
    exact ⟨Std.Refl.refl _, hgood _ h.store hview⟩
  | write f next =>
    unfold Board.turn
    split
    · next hf => cases hf
    · next hf => cases hf
    · next f' next' hf =>
      cases hf
      split
      · exact h.set fun a' ha' => by cases ha'
      · next s hs =>
        obtain ⟨hI, hR, hnext⟩ := hgood _ _ h.store hview (hmeets f next rfl) hs
        refine (h.write hI hR).set fun a' ha' => ?_
        cases ha'
        exact ⟨IsTrans.trans _ _ _ hview hR, hnext⟩

theorem Sound.step [IsPreorder σ R] {code : κ → Transaction σ}
    (hcode : ∀ call s, I s → (code call).Good (P call) I R s) {e : Act κ} (h : b.Sound P I R)
    (hmeets : Meets P b e) (hstep : b.step code e = some b') :
    b'.Sound P I R := by
  cases e with
  | start n call =>
    simp only [Board.step] at hstep
    split at hstep
    · cases hstep
      refine h.set fun a' ha' => ?_
      cases ha'
      exact ⟨Std.Refl.refl _, hcode call b.store h.store⟩
    · cases hstep
  | turn n =>
    obtain ⟨a, ha, rfl⟩ := Option.map_eq_some_iff.1 hstep
    exact h.turn ha fun f next => hmeets n a f next rfl ha
  | giveUp n =>
    cases hstep
    exact h.set fun a' ha' => by cases ha'

/-- What the transactions keep alone, they keep side by side. -/
theorem Run.sound [IsPreorder σ R] {code : κ → Transaction σ}
    (hcode : ∀ call s, I s → (code call).Good (P call) I R s) (h : Run code P b b') (hb : b.Sound P I R) :
    b'.Sound P I R := by
  induction h with
  | refl => exact hb
  | tail _ hmeets hstep ih => exact ih.step hcode hmeets hstep

end Board

end GManager
