import Mathlib.Logic.Basic
import Mathlib.Data.List.Basic

/-!
# Processes and what runs beside them

A `Proc` is sequential code over a state of its own that now and then waits for an answer. Between any two
of its acts its surroundings may move, and a run is a list of such events; so what holds after every list
of events holds at every moment of a run. `Safe` follows the text of a process under all interference: each
of its acts keeps the guarantee `G`, and its end is in `Q` or, after a failure, in `E`. Assertions used on
the way are `Stable`: no move of the surroundings invalidates them.
-/

namespace GManager

/-- A sequential process: it ends, fails, changes its state by one atomic act, or sends a request and goes
on with the answer. An act hands the state that it found to what follows. -/
inductive Proc (σ ρ : Type) (Rep : ρ → Type) (ε α : Type) where
  | pure (a : α)
  | throw (e : ε)
  | act (f : σ → σ) (next : σ → Proc σ ρ Rep ε α)
  | call (r : ρ) (next : Except ε (Rep r) → Proc σ ρ Rep ε α)

namespace Proc

variable {σ ρ ε α β : Type} {Rep : ρ → Type}

def bind : Proc σ ρ Rep ε α → (α → Proc σ ρ Rep ε β) → Proc σ ρ Rep ε β
  | .pure a, f => f a
  | .throw e, _ => .throw e
  | .act g next, f => .act g fun s => (next s).bind f
  | .call r next, f => .call r fun a => (next a).bind f

instance instMonadProc : Monad (Proc σ ρ Rep ε) where
  pure := .pure
  bind := .bind

/-- Runs the handler on a failure. -/
def tryCatch : Proc σ ρ Rep ε α → (ε → Proc σ ρ Rep ε α) → Proc σ ρ Rep ε α
  | .pure a, _ => .pure a
  | .throw e, h => h e
  | .act g next, h => .act g fun s => (next s).tryCatch h
  | .call r next, h => .call r fun a => (next a).tryCatch h

/-- Runs the second process after the first in any case; its failure replaces the outcome. -/
def thenFinally : Proc σ ρ Rep ε α → Proc σ ρ Rep ε Unit → Proc σ ρ Rep ε α
  | .pure a, q => q.bind fun _ => .pure a
  | .throw e, q => q.bind fun _ => .throw e
  | .act g next, q => .act g fun s => (next s).thenFinally q
  | .call r next, q => .call r fun a => (next a).thenFinally q

def get : Proc σ ρ Rep ε σ := .act id .pure

def modify (f : σ → σ) : Proc σ ρ Rep ε Unit := .act f fun _ => .pure ()

/-- An act with a result, both computed from the state that it finds. -/
def stateful (f : σ → α × σ) : Proc σ ρ Rep ε α := .act (fun s => (f s).2) fun s => .pure (f s).1

def lift : Except ε α → Proc σ ρ Rep ε α
  | .ok a => .pure a
  | .error e => .throw e

/-- Sends a request and waits for the answer. -/
def request (r : ρ) : Proc σ ρ Rep ε (Rep r) := .call r lift

def when (p : Prop) [Decidable p] (x : Proc σ ρ Rep ε Unit) : Proc σ ρ Rep ε Unit := if p then x else .pure ()

def failIf (p : Prop) [Decidable p] (e : ε) : Proc σ ρ Rep ε Unit := if p then .throw e else .pure ()

def ifPresent (o : Option α) (f : α → Proc σ ρ Rep ε Unit) : Proc σ ρ Rep ε Unit :=
  match o with
  | none => .pure ()
  | some a => f a

end Proc

/-- What surrounds a process with the state `σ`: its moves, which may change both states, and the answers
that it gives out of its own state `τ`. -/
structure Surroundings (σ τ ρ : Type) (Rep : ρ → Type) (ε ι χ : Type) where
  move : ι → σ × τ → σ × τ
  answer : (r : ρ) → χ → τ → Except ε (Rep r) × τ

namespace Surroundings

variable {σ τ ρ ε ι χ α β : Type} {Rep : ρ → Type}

def moves (S : Surroundings σ τ ρ Rep ε ι χ) (is : List ι) (w : σ × τ) : σ × τ :=
  is.foldl (fun w i => S.move i w) w

variable {S : Surroundings σ τ ρ Rep ε ι χ} {G G' : σ × τ → σ × τ → Prop} {Q Q' : α → σ × τ → Prop}
  {E E' : ε → σ × τ → Prop} {P A : σ × τ → Prop}

theorem moves_append (is js : List ι) (w : σ × τ) : S.moves (is ++ js) w = S.moves js (S.moves is w) :=
  List.foldl_append ..

variable (S) in
/-- No move of the surroundings invalidates the assertion. -/
def Stable (P : σ × τ → Prop) : Prop := ∀ i w, P w → P (S.move i w)

theorem Stable.moves (h : S.Stable P) (is : List ι) {w : σ × τ} (hw : P w) : P (S.moves is w) := by
  induction is generalizing w with
  | nil => exact hw
  | cons i is ih => exact ih (h i w hw)

theorem Stable.and (h : S.Stable P) (h' : S.Stable A) : S.Stable fun w => P w ∧ A w :=
  fun i w hw => ⟨h i w hw.1, h' i w hw.2⟩

theorem Stable.imp {p : Prop} (h : p → S.Stable P) : S.Stable fun w => p → P w :=
  fun i w hw hp => h hp i w (hw hp)

variable (S) in
/-- Under any interference, every act and every answered request of the process keeps the guarantee; it
ends in `Q` and fails in `E`. -/
def Safe (G : σ × τ → σ × τ → Prop) (Q : α → σ × τ → Prop) (E : ε → σ × τ → Prop) :
    Proc σ ρ Rep ε α → σ × τ → Prop
  | .pure a, w => ∀ is, Q a (S.moves is w)
  | .throw e, w => ∀ is, E e (S.moves is w)
  | .act f next, w => ∀ is, G (S.moves is w) (f (S.moves is w).1, (S.moves is w).2) ∧
      Safe G Q E (next (S.moves is w).1) (f (S.moves is w).1, (S.moves is w).2)
  | .call r next, w => ∀ is c, G (S.moves is w) ((S.moves is w).1, (S.answer r c (S.moves is w).2).2) ∧
      Safe G Q E (next (S.answer r c (S.moves is w).2).1) ((S.moves is w).1,
        (S.answer r c (S.moves is w).2).2)

namespace Safe

variable {p : Proc σ ρ Rep ε α} {w : σ × τ}

theorem moves (h : S.Safe G Q E p w) (is : List ι) : S.Safe G Q E p (S.moves is w) := by
  cases p with
  | pure a => exact fun js => moves_append (S := S) is js w ▸ h (is ++ js)
  | throw e => exact fun js => moves_append (S := S) is js w ▸ h (is ++ js)
  | act f next => exact fun js => moves_append (S := S) is js w ▸ h (is ++ js)
  | call r next => exact fun js c => moves_append (S := S) is js w ▸ h (is ++ js) c

/-- The end survives interference. -/
theorem closed (h : S.Safe G Q E p w) : S.Safe G (fun a w => ∀ is, Q a (S.moves is w)) E p w := by
  induction p generalizing w with
  | pure a => exact fun is js => moves_append (S := S) is js w ▸ h (is ++ js)
  | throw e => exact h
  | act f next ih => exact fun is => ⟨(h is).1, ih _ (h is).2⟩
  | call r next ih => exact fun is c => ⟨(h is c).1, ih _ (h is c).2⟩

theorem mono (h : S.Safe G Q E p w) (hG : ∀ w w', G w w' → G' w w') (hQ : ∀ a w, Q a w → Q' a w)
    (hE : ∀ e w, E e w → E' e w) : S.Safe G' Q' E' p w := by
  induction p generalizing w with
  | pure a => exact fun is => hQ _ _ (h is)
  | throw e => exact fun is => hE _ _ (h is)
  | act f next ih => exact fun is => ⟨hG _ _ (h is).1, ih _ (h is).2⟩
  | call r next ih => exact fun is c => ⟨hG _ _ (h is c).1, ih _ (h is c).2⟩

theorem bind {f : α → Proc σ ρ Rep ε β} {Q : β → σ × τ → Prop}
    (h : S.Safe G (fun a w => S.Safe G Q E (f a) w) E p w) : S.Safe G Q E (p >>= f) w := by
  induction p generalizing w with
  | pure a => exact h []
  | throw e => exact fun is => h is
  | act g next ih => exact fun is => ⟨(h is).1, ih _ (h is).2⟩
  | call r next ih => exact fun is c => ⟨(h is c).1, ih _ (h is c).2⟩

theorem tryCatch {h : ε → Proc σ ρ Rep ε α} (hp : S.Safe G Q (fun e w => S.Safe G Q E (h e) w) p w) :
    S.Safe G Q E (p.tryCatch h) w := by
  induction p generalizing w with
  | pure a => exact fun is => hp is
  | throw e => exact hp []
  | act g next ih => exact fun is => ⟨(hp is).1, ih _ (hp is).2⟩
  | call r next ih => exact fun is c => ⟨(hp is c).1, ih _ (hp is c).2⟩

theorem thenFinally {q : Proc σ ρ Rep ε Unit} (hp : S.Safe G (fun a w => S.Safe G (fun _ => Q a) E q w)
      (fun e w => S.Safe G (fun _ => E e) E q w) p w) : S.Safe G Q E (p.thenFinally q) w := by
  induction p generalizing w with
  | pure a => exact bind (hp []).closed
  | throw e => exact bind (hp []).closed
  | act g next ih => exact fun is => ⟨(hp is).1, ih _ (hp is).2⟩
  | call r next ih => exact fun is c => ⟨(hp is c).1, ih _ (hp is c).2⟩

/-- Two guarantees at once. -/
theorem and (h : S.Safe G Q E p w) (h' : S.Safe G' Q' E' p w) :
    S.Safe (fun w w' => G w w' ∧ G' w w') (fun a w => Q a w ∧ Q' a w) (fun e w => E e w ∧ E' e w) p w := by
  induction p generalizing w with
  | pure a => exact fun is => ⟨h is, h' is⟩
  | throw e => exact fun is => ⟨h is, h' is⟩
  | act f next ih => exact fun is => ⟨⟨(h is).1, (h' is).1⟩, ih _ (h is).2 (h' is).2⟩
  | call r next ih => exact fun is c => ⟨⟨(h is c).1, (h' is c).1⟩, ih _ (h is c).2 (h' is c).2⟩

/-- What the moves and the guarantee preserve holds at the end. -/
theorem frame (h : S.Safe G Q E p w) (hA : S.Stable A) (hG : ∀ w w', A w → G w w' → A w') (hw : A w) :
    S.Safe G (fun a w => Q a w ∧ A w) (fun e w => E e w ∧ A w) p w := by
  induction p generalizing w with
  | pure a => exact fun is => ⟨h is, hA.moves is hw⟩
  | throw e => exact fun is => ⟨h is, hA.moves is hw⟩
  | act f next ih => exact fun is => ⟨(h is).1, ih _ (h is).2 (hG _ _ (hA.moves is hw) (h is).1)⟩
  | call r next ih => exact fun is c => ⟨(h is c).1, ih _ (h is c).2 (hG _ _ (hA.moves is hw) (h is c).1)⟩

end Safe

/-! ### Rules for the parts of a process -/

variable (S) in
def Holds (G : σ × τ → σ × τ → Prop) (P : σ × τ → Prop) (p : Proc σ ρ Rep ε α) (Q : α → σ × τ → Prop)
    (E : ε → σ × τ → Prop) : Prop := ∀ w, P w → S.Safe G Q E p w

namespace Holds

variable {p q : Proc σ ρ Rep ε α}

theorem mono (h : S.Holds G P p Q E) (hP : ∀ w, A w → P w) (hQ : ∀ a w, Q a w → Q' a w)
    (hE : ∀ e w, E e w → E' e w) :
    S.Holds G A p Q' E' := fun w hw => (h w (hP w hw)).mono (fun _ _ => id) hQ hE

theorem guarantee (h : S.Holds G P p Q E) (hG : ∀ w w', G w w' → G' w w') : S.Holds G' P p Q E :=
  fun w hw => (h w hw).mono hG (fun _ _ => id) fun _ _ => id

theorem frame (h : S.Holds G P p Q E) (hA : S.Stable A) (hG : ∀ w w', A w → G w w' → A w') :
    S.Holds G (fun w => P w ∧ A w) p (fun a w => Q a w ∧ A w) fun e w => E e w ∧ A w :=
  fun w hw => (h w hw.1).frame hA hG hw.2

theorem weaken (h : S.Holds G P p Q E) (hP : ∀ w, A w → P w) : S.Holds G A p Q E := fun w hw => h w (hP w hw)

theorem pure {a : α} (hQ : S.Stable (Q a)) (h : ∀ w, P w → Q a w) : S.Holds G P (Pure.pure a) Q E :=
  fun w hw is => hQ.moves is (h w hw)

theorem throw {e : ε} (hE : S.Stable (E e)) (h : ∀ w, P w → E e w) : S.Holds G P (.throw e) Q E :=
  fun w hw is => hE.moves is (h w hw)

theorem bind {f : α → Proc σ ρ Rep ε β} {R : β → σ × τ → Prop} (h : S.Holds G P p Q E)
    (hf : ∀ a, S.Holds G (Q a) (f a) R E) : S.Holds G P (p >>= f) R E :=
  fun w hw => .bind ((h w hw).mono (fun _ _ => id) hf fun _ _ => id)

theorem tryCatch {f : ε → Proc σ ρ Rep ε α} (h : S.Holds G P p Q E) (hf : ∀ e, S.Holds G (E e) (f e) Q E') :
    S.Holds G P (p.tryCatch f) Q E' :=
  fun w hw => .tryCatch ((h w hw).mono (fun _ _ => id) (fun _ _ => id) hf)

theorem thenFinally {q : Proc σ ρ Rep ε Unit} (h : S.Holds G P p (fun _ => A) fun _ => A)
    (hq : S.Holds G A q (fun _ => P) fun _ => P) : S.Holds G P (p.thenFinally q) (fun _ => P) fun _ => P :=
  fun w hw => .thenFinally ((h w hw).mono (fun _ _ => id) (fun _ => hq) fun _ => hq)

theorem ite {c : Prop} {_ : Decidable c} (hp : c → S.Holds G P p Q E) (hq : ¬ c → S.Holds G P q Q E) :
    S.Holds G P (if c then p else q) Q E := by
  split
  · exact hp ‹_›
  · exact hq ‹_›

theorem modify {f : σ → σ} {R : σ × τ → Prop} (hP : S.Stable P) (hR : S.Stable R)
    (h : ∀ w, P w → G w (f w.1, w.2) ∧ R (f w.1, w.2)) : S.Holds G P (Proc.modify f) (fun _ => R) E := by
  intro w hw is
  have h := h _ (hP.moves is hw)
  exact ⟨h.1, fun js => hR.moves js h.2⟩

theorem stateful {f : σ → α × σ} (hP : S.Stable P) (hQ : ∀ a, S.Stable (Q a))
    (h : ∀ w, P w → G w ((f w.1).2, w.2) ∧ Q (f w.1).1 ((f w.1).2, w.2)) :
    S.Holds G P (Proc.stateful f) Q E := by
  intro w hw is
  have h := h _ (hP.moves is hw)
  exact ⟨h.1, fun js => (hQ _).moves js h.2⟩

theorem get {Q : σ → σ × τ → Prop} (hP : S.Stable P) (hQ : ∀ s, S.Stable (Q s))
    (h : ∀ w, P w → G w w ∧ Q w.1 w) : S.Holds G P Proc.get Q E := by
  intro w hw is
  have h := h _ (hP.moves is hw)
  exact ⟨h.1, fun js => (hQ _).moves js h.2⟩

theorem lift {x : Except ε α} (hP : S.Stable P) :
    S.Holds G P (Proc.lift x) (fun a w => x = .ok a ∧ P w) fun e w => x = .error e ∧ P w := by
  intro w hw
  cases x with
  | ok a => exact fun is => ⟨rfl, hP.moves is hw⟩
  | error e => exact fun is => ⟨rfl, hP.moves is hw⟩

theorem request {r : ρ} {Q : Rep r → σ × τ → Prop} (hP : S.Stable P) (hQ : ∀ a, S.Stable (Q a))
    (hE : ∀ e, S.Stable (E e))
    (h : ∀ w c, P w → G w (w.1, (S.answer r c w.2).2) ∧
      (∀ a, (S.answer r c w.2).1 = .ok a → Q a (w.1, (S.answer r c w.2).2)) ∧
      ∀ e, (S.answer r c w.2).1 = .error e → E e (w.1, (S.answer r c w.2).2)) :
    S.Holds G P (Proc.request r) Q E := by
  intro w hw is c
  obtain ⟨hG, hok, herr⟩ := h _ c (hP.moves is hw)
  refine ⟨hG, ?_⟩
  cases ha : (S.answer r c (S.moves is w).2).1 with
  | ok a => exact fun js => (hQ a).moves js (hok a ha)
  | error e => exact fun js => (hE e).moves js (herr e ha)

end Holds

end Surroundings

/-! ### Systems -/

/-- A process in its surroundings that does one job after another and may be restarted at any moment. -/
structure System (σ τ ρ : Type) (Rep : ρ → Type)
    (ε ι χ κ ν α : Type) extends Surroundings σ τ ρ Rep ε ι χ where
  job : κ → Proc σ ρ Rep ε α
  restart : ν → σ → σ

inductive Event (ι χ κ ν : Type)
  | move (i : ι)
  | go
  | answer (c : χ)
  | start (k : κ)
  | restart (n : ν)
  deriving DecidableEq, Repr

/-- The state of a run: the job begun last, as far as it has come, stays until the next one begins. -/
structure Config (σ τ ρ : Type) (Rep : ρ → Type) (ε κ α : Type) where
  own : σ
  rest : τ
  running : Option (κ × Proc σ ρ Rep ε α)

namespace Config

variable {σ τ ρ ε κ α : Type} {Rep : ρ → Type}

def world (c : Config σ τ ρ Rep ε κ α) : σ × τ := (c.own, c.rest)

end Config

namespace System

variable {σ τ ρ ε ι χ κ ν α : Type} {Rep : ρ → Type}

/-- One event. An event that does not fit the state of the run changes nothing. -/
def next (M : System σ τ ρ Rep ε ι χ κ ν α) (c : Config σ τ ρ Rep ε κ α) :
    Event ι χ κ ν → Config σ τ ρ Rep ε κ α
  | .move i => ⟨(M.move i c.world).1, (M.move i c.world).2, c.running⟩
  | .restart n => ⟨M.restart n c.own, c.rest, none⟩
  | .go =>
    match c.running with
    | some (k, .act f next) => ⟨f c.own, c.rest, some (k, next c.own)⟩
    | _ => c
  | .answer a =>
    match c.running with
    | some (k, .call r next) => ⟨c.own, (M.answer r a c.rest).2, some (k, next (M.answer r a c.rest).1)⟩
    | _ => c
  | .start k =>
    match c.running with
    | some (_, .act ..) | some (_, .call ..) => c
    | _ => ⟨c.own, c.rest, some (k, M.job k)⟩

def run (M : System σ τ ρ Rep ε ι χ κ ν α) (c : Config σ τ ρ Rep ε κ α) (es : List (Event ι χ κ ν)) :
    Config σ τ ρ Rep ε κ α := es.foldl M.next c

variable {M : System σ τ ρ Rep ε ι χ κ ν α} {G : κ → σ × τ → σ × τ → Prop} {I : σ × τ → Prop}

theorem run_append (c : Config σ τ ρ Rep ε κ α) (es fs : List (Event ι χ κ ν)) :
    M.run c (es ++ fs) = M.run (M.run c es) fs := List.foldl_append ..

theorem run_concat (c : Config σ τ ρ Rep ε κ α) (es : List (Event ι χ κ ν)) (e : Event ι χ κ ν) :
    M.run c (es ++ [e]) = M.next (M.run c es) e := run_append c es [e]

/-- What an event does to the world, when the jobs keep their guarantees. -/
inductive Step (M : System σ τ ρ Rep ε ι χ κ ν α) (G : κ → σ × τ → σ × τ → Prop)
    (c : Config σ τ ρ Rep ε κ α) : Event ι χ κ ν → σ × τ → Prop
  | still (e) : Step M G c e c.world
  | move (i) : Step M G c (.move i) (M.move i c.world)
  | restart (n) : Step M G c (.restart n) (M.restart n c.own, c.rest)
  | go {k p w} (hk : c.running = some (k, p)) (h : G k c.world w) : Step M G c .go w
  | answer {k p w} (a) (hk : c.running = some (k, p)) (h : G k c.world w) : Step M G c (.answer a) w

/-- The invariant `I` holds, between jobs also `J`, and what is left of the job under way is safe. -/
structure Sound (M : System σ τ ρ Rep ε ι χ κ ν α) (G : κ → σ × τ → σ × τ → Prop) (I J : σ × τ → Prop)
    (c : Config σ τ ρ Rep ε κ α) : Prop where
  inv : I c.world
  idle : c.running = none → J c.world
  safe : ∀ k p, c.running = some (k, p) → M.toSurroundings.Safe (G k) (fun _ => J) (fun _ => J) p c.world

/-- The proof obligations of a system. -/
structure Verified (M : System σ τ ρ Rep ε ι χ κ ν α) (G : κ → σ × τ → σ × τ → Prop)
    (I J : σ × τ → Prop) : Prop where
  move : M.toSurroundings.Stable I
  rest : M.toSurroundings.Stable J
  restart : ∀ n w, I w → I (M.restart n w.1, w.2) ∧ J (M.restart n w.1, w.2)
  keeps : ∀ k w w', I w → G k w w' → I w'
  job : ∀ k, M.toSurroundings.Holds (G k) J (M.job k) (fun _ => J) fun _ => J

namespace Verified

variable {J : σ × τ → Prop} (v : Verified M G I J) {c : Config σ τ ρ Rep ε κ α}
include v

theorem start (hI : I c.world) (hJ : J c.world) (k : κ) :
    Sound M G I J ⟨c.own, c.rest, some (k, M.job k)⟩ := by
  refine ⟨hI, (nomatch ·), fun k' p' hp => ?_⟩
  cases hp
  exact v.job k _ hJ

theorem next (hc : Sound M G I J c) (e : Event ι χ κ ν) :
    Step M G c e (M.next c e).world ∧ Sound M G I J (M.next c e) := by
  obtain ⟨own, rest, running⟩ := c
  cases e with
  | move i => exact ⟨.move i, v.move i _ hc.inv, fun hn => v.rest i _ (hc.idle hn), fun k p hp =>
      (hc.safe k p hp).moves [i]⟩
  | restart n =>
    obtain ⟨hI, hJ⟩ := v.restart n _ hc.inv
    exact ⟨.restart n, hI, fun _ => hJ, fun k p hp => nomatch hp⟩
  | go =>
    match running with
    | none | some (_, .pure _) | some (_, .throw _) | some (_, .call ..) => exact ⟨.still _, hc⟩
    | some (k, .act f next) =>
      obtain ⟨hG, hs⟩ := hc.safe k _ rfl []
      refine ⟨.go rfl hG, v.keeps k _ _ hc.inv hG, (nomatch ·), fun k' p' hp => ?_⟩
      cases hp
      exact hs
  | answer a =>
    match running with
    | none | some (_, .pure _) | some (_, .throw _) | some (_, .act ..) => exact ⟨.still _, hc⟩
    | some (k, .call r next) =>
      obtain ⟨hG, hs⟩ := hc.safe k _ rfl [] a
      refine ⟨.answer a rfl hG, v.keeps k _ _ hc.inv hG, (nomatch ·), fun k' p' hp => ?_⟩
      cases hp
      exact hs
  | start k =>
    match running with
    | some (_, .act ..) | some (_, .call ..) => exact ⟨.still _, hc⟩
    | none => exact ⟨.still _, v.start hc.inv (hc.idle rfl) k⟩
    | some (_, .pure _) => exact ⟨.still _, v.start hc.inv (hc.safe _ _ rfl []) k⟩
    | some (_, .throw _) => exact ⟨.still _, v.start hc.inv (hc.safe _ _ rfl []) k⟩

theorem run (hc : Sound M G I J c) (es : List (Event ι χ κ ν)) : Sound M G I J (M.run c es) := by
  induction es generalizing c with
  | nil => exact hc
  | cons e es ih => exact ih (v.next hc e).2

/-- What every step keeps holds over every run. -/
theorem always {A : σ × τ → Prop} (hA : ∀ c e w, Sound M G I J c → A c.world → Step M G c e w → A w)
    (hc : Sound M G I J c) (h : A c.world) (es : List (Event ι χ κ ν)) : A (M.run c es).world := by
  induction es generalizing c with
  | nil => exact h
  | cons e es ih => exact ih (v.next hc e).2 (hA c e _ hc h (v.next hc e).1)

/-- Every event of every run is a step. -/
theorem step (hc : Sound M G I J c) (es : List (Event ι χ κ ν)) (e : Event ι χ κ ν) :
    Step M G (M.run c es) e (M.next (M.run c es) e).world := (v.next (v.run hc es) e).1

end Verified

/-- What does not hold at the beginning of a run and holds at its end came about at one of its events. -/
theorem exists_event {P : Config σ τ ρ Rep ε κ α → Prop} {c : Config σ τ ρ Rep ε κ α}
    {es : List (Event ι χ κ ν)} (h₀ : ¬ P c) (h : P (M.run c es)) :
    ∃ xs e ys, es = xs ++ e :: ys ∧ ¬ P (M.run c xs) ∧ P (M.next (M.run c xs) e) := by
  induction es generalizing c with
  | nil => exact absurd h h₀
  | cons e es ih =>
    by_cases hn : P (M.next c e)
    · exact ⟨[], e, es, rfl, h₀, hn⟩
    · obtain ⟨xs, e', ys, rfl, hx, hy⟩ := ih hn h
      exact ⟨e :: xs, e', ys, rfl, hx, hy⟩

end System

end GManager
