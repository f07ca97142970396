import Mathlib.Logic.Function.Basic
import Mathlib.Order.Monotone.Basic
import Mathlib.Order.Lattice
import Mathlib.Data.List.Basic

/-!
# Sliding windows

The specification of a limiter with unbounded memory: a call for a key is admitted when fewer calls than the
limit of the key were admitted in the window that ends with the call. The window of a key begins at `since
key now`, and its begin never moves back.
-/

namespace GManager

structure Limits (κ τ : Type) [LinearOrder τ] where
  limit : κ → ℤ
  since : κ → τ → τ
  since_mono : ∀ k, Monotone (since k)

/-- A call at `now`, or a sweep of one key after a reading of the clock. -/
inductive LimiterEvent (κ τ : Type)
  | check (key : κ) (now : τ)
  | sweep (key : κ) (reading now : τ)
  deriving DecidableEq, Repr

namespace LimiterEvent

variable {κ τ : Type}

def key : LimiterEvent κ τ → κ
  | check k _ | sweep k _ _ => k

def now : LimiterEvent κ τ → τ
  | check _ t | sweep _ _ t => t

end LimiterEvent

section

variable {κ τ : Type} [LinearOrder τ]

/-- The event comes at `t` or later, and a sweep has read its clock before. -/
def LimiterEvent.Follows (t : τ) : LimiterEvent κ τ → Prop
  | .check _ now => t ≤ now
  | .sweep _ reading now => t ≤ now ∧ reading ≤ now

instance (t : τ) : (e : LimiterEvent κ τ) → Decidable (e.Follows t)
  | .check _ now => inferInstanceAs (Decidable (t ≤ now))
  | .sweep _ reading now => inferInstanceAs (Decidable (t ≤ now ∧ reading ≤ now))

theorem LimiterEvent.Follows.le {t : τ} {e : LimiterEvent κ τ} (h : e.Follows t) : t ≤ e.now := by
  cases e with
  | check k now => exact h
  | sweep k reading now => exact h.1

theorem LimiterEvent.Follows.mono {s t : τ} {e : LimiterEvent κ τ} (h : e.Follows t)
    (hle : s ≤ t) : e.Follows s := by
  cases e with
  | check k now => exact hle.trans h
  | sweep k reading now => exact ⟨hle.trans h.1, h.2⟩

/-- The events happen one after the other, from `t` on. -/
def InOrder (t : τ) : List (LimiterEvent κ τ) → Prop
  | [] => True
  | e :: es => e.Follows t ∧ InOrder e.now es

instance decidableInOrder : (t : τ) → (es : List (LimiterEvent κ τ)) → Decidable (InOrder t es)
  | _, [] => isTrue trivial
  | t, e :: es =>
    have := decidableInOrder e.now es
    inferInstanceAs (Decidable (e.Follows t ∧ InOrder e.now es))

namespace InOrder

variable {s t : τ} {es es₁ es₂ : List (LimiterEvent κ τ)}

theorem mono (h : InOrder t es) (hle : s ≤ t) : InOrder s es := by
  cases es with
  | nil => trivial
  | cons e es => exact ⟨h.1.mono hle, h.2⟩

theorem filter (h : InOrder t es) (p : LimiterEvent κ τ → Bool) : InOrder t (es.filter p) := by
  induction es generalizing t with
  | nil => trivial
  | cons e es ih =>
    rw [List.filter_cons]
    split
    · exact ⟨h.1, ih h.2⟩
    · exact (ih h.2).mono h.1.le

/-- The later events follow an instant at which the earlier ones are over. -/
theorem append (h : InOrder t (es₁ ++ es₂)) : InOrder t es₁ ∧ ∃ t', t ≤ t' ∧ (∀ e ∈ es₁, e.now ≤ t') ∧
    InOrder t' es₂ := by
  induction es₁ generalizing t with
  | nil => exact ⟨trivial, t, le_rfl, fun _ he => absurd he List.not_mem_nil, h⟩
  | cons e es₁ ih =>
    obtain ⟨h₁, t', hle, hall, h₂⟩ := ih h.2
    exact ⟨⟨h.1, h₁⟩, t', h.1.le.trans hle, List.forall_mem_cons.2 ⟨hle, hall⟩, h₂⟩

end InOrder

/-- On ascending values, what is dropped from the front is all that lies before. -/
theorem dropWhile_lt_eq_filter {values : List τ} (hs : values.Pairwise (· ≤ ·)) (x : τ) :
    values.dropWhile (· < x) = values.filter fun a => x ≤ a := by
  induction values with
  | nil => rfl
  | cons a values ih =>
    obtain ⟨ha, hs⟩ := List.pairwise_cons.1 hs
    by_cases hx : a < x
    · rw [List.dropWhile_cons_of_pos (by simpa using hx), List.filter_cons_of_neg (by simpa using hx), ih hs]
    · have hall : ∀ b ∈ a :: values, decide (x ≤ b) = true :=
        List.forall_mem_cons.2 ⟨by simpa using hx, fun b hb => by simpa using (not_lt.1 hx).trans (ha b hb)⟩
      rw [List.dropWhile_cons_of_neg (by simpa using hx), List.filter_eq_self.2 hall]

namespace Limits

variable (L : Limits κ τ)

/-- The calls of a key in the window that ends at `now`. -/
def window (h : κ → List τ) (k : κ) (now : τ) : List τ := (h k).filter fun a => L.since k now ≤ a ∧ a ≤ now

def admits (h : κ → List τ) (k : κ) (now : τ) : Bool := (L.window h k now).length < L.limit k

section memory

variable {L} {h h' kept : κ → List τ} {k : κ} {t now : τ}

theorem admits_congr (hk : h k = h' k) : L.admits h k now = L.admits h' k now := by
  rw [admits, admits, window, window, hk]

/-- The kept calls are those of the history, but for calls that no window will reach again. -/
structure Remembers (L : Limits κ τ) (t : τ) (kept h : κ → List τ) : Prop where
  sorted : ∀ k, (kept k).Pairwise (· ≤ ·)
  past : ∀ k, (∀ a ∈ kept k, a ≤ t) ∧ ∀ a ∈ h k, a ≤ t
  agree : ∀ k now, t ≤ now →
    (kept k).filter (fun a => L.since k now ≤ a) = (h k).filter fun a => L.since k now ≤ a

theorem Remembers.mono (r : L.Remembers t kept h) (hle : t ≤ now) : L.Remembers now kept h :=
  ⟨r.sorted, fun k => ⟨fun a ha => ((r.past k).1 a ha).trans hle, fun a ha => ((r.past k).2 a ha).trans hle⟩,
    fun k now' hnow => r.agree k now' (hle.trans hnow)⟩

theorem Remembers.empty (t : τ) : L.Remembers t (fun _ => []) (fun _ => []) :=
  ⟨fun _ => .nil, fun _ => ⟨fun _ ha => absurd ha List.not_mem_nil, fun _ ha => absurd ha List.not_mem_nil⟩,
    fun _ _ _ => rfl⟩

/-- The window of a call is what is kept from its begin on. -/
theorem Remembers.window_eq (r : L.Remembers t kept h) (hle : t ≤ now) :
    L.window h k now = (kept k).filter fun a => L.since k now ≤ a := by
  rw [r.agree k now hle, window]
  refine List.filter_congr fun a ha => ?_
  simp [((r.past k).2 a ha).trans hle]

end memory

variable [DecidableEq κ]

def step (h : κ → List τ) : LimiterEvent κ τ → κ → List τ
  | .check k now => if L.admits h k now then Function.update h k (h k ++ [now]) else h
  | .sweep .. => h

/-- The decisions on the calls, in their order. -/
def decisions (h : κ → List τ) : List (LimiterEvent κ τ) → List (κ × τ × Bool)
  | [] => []
  | .check k now :: es => (k, now, L.admits h k now) :: decisions (L.step h (.check k now)) es
  | .sweep .. :: es => decisions h es

/-- The history after some events. -/
def after (h : κ → List τ) (es : List (LimiterEvent κ τ)) : κ → List τ := es.foldl L.step h

/-- The calls of a key that were accepted. -/
def accepted (ds : List (κ × τ × Bool)) (k : κ) : List τ :=
  ds.filterMap fun d => if d.1 = k ∧ d.2.2 then some d.2.1 else none

section

variable {L} {h h' kept : κ → List τ} {k : κ} {t now : τ} {es : List (LimiterEvent κ τ)}

/-- An event does not touch the history of another key. -/
theorem step_of_ne {e : LimiterEvent κ τ} (hne : e.key ≠ k) : L.step h e k = h k := by
  cases e with
  | check k' now =>
    simp only [step]
    split
    · exact Function.update_of_ne (Ne.symm hne) _ _
    · rfl
  | sweep k' reading now => rfl

theorem step_congr {e : LimiterEvent κ τ} (hk : h k = h' k) (he : e.key = k) :
    L.step h e k = L.step h' e k := by
  subst he
  cases e with
  | check k now =>
    simp only [step, LimiterEvent.key] at hk ⊢
    rw [admits_congr hk]
    split
    · rw [Function.update_self, Function.update_self, hk]
    · exact hk
  | sweep k reading now => exact hk

/-- The history of a key are the accepted calls. -/
theorem after_eq : L.after h es k = h k ++ accepted (L.decisions h es) k := by
  induction es generalizing h with
  | nil => simp [after, decisions, accepted]
  | cons e es ih =>
    have hafter : L.after h (e :: es) = L.after (L.step h e) es := rfl
    rw [hafter, ih]
    cases e with
    | sweep k' reading now => rfl
    | check k' now =>
      simp only [decisions, step, accepted, List.filterMap_cons]
      by_cases hk : k' = k
      · subst hk
        cases hadm : L.admits h k' now <;> simp
      · cases hadm : L.admits h k' now <;> simp [hk, Function.update_of_ne (Ne.symm hk)]

/-- What is decided for a key is decided by the events of this key alone. -/
theorem decisions_filter (hk : h k = h' k) : (L.decisions h es).filter (fun d => d.1 = k) =
    L.decisions h' (es.filter fun e => e.key = k) := by
  induction es generalizing h h' with
  | nil => rfl
  | cons e es ih =>
    by_cases he : e.key = k
    · have hstep : L.step h e k = L.step h' e k := step_congr hk he
      rw [List.filter_cons_of_pos (by simpa using he)]
      cases e with
      | check k' now =>
        obtain rfl : k' = k := he
        simp only [decisions]
        rw [List.filter_cons_of_pos (by simp), admits_congr hk, ih hstep]
      | sweep k' reading now => exact ih hk
    · have hstep : L.step h e k = h' k := (step_of_ne he).trans hk
      rw [List.filter_cons_of_neg (by simpa using he)]
      cases e with
      | check k' now =>
        simp only [decisions]
        rw [List.filter_cons_of_neg (by simpa [LimiterEvent.key] using he), ih hstep]
      | sweep k' reading now => exact ih hk

/-- The calls of one key may be exchanged for others that agree from some instant on. -/
theorem Remembers.update (r : L.Remembers t kept h) {values : List τ} (hsorted : values.Pairwise (· ≤ ·))
    (hpast : ∀ a ∈ values, a ≤ t) (hagree : ∀ now, t ≤ now →
      values.filter (fun a => L.since k now ≤ a) = (kept k).filter fun a => L.since k now ≤ a) :
    L.Remembers t (Function.update kept k values) h := by
  refine ⟨fun k' => ?_, fun k' => ⟨?_, (r.past k').2⟩, fun k' now hnow => ?_⟩ <;> by_cases hk : k' = k
  · subst hk
    rwa [Function.update_self]
  · rw [Function.update_of_ne hk]
    exact r.sorted k'
  · subst hk
    rwa [Function.update_self]
  · rw [Function.update_of_ne hk]
    exact (r.past k').1
  · subst hk
    rw [Function.update_self, hagree now hnow, r.agree k' now hnow]
  · rw [Function.update_of_ne hk]
    exact r.agree k' now hnow

/-- A call is admitted, and kept at the end. -/
theorem Remembers.push (r : L.Remembers t kept h) :
    L.Remembers t (Function.update kept k (kept k ++ [t])) (Function.update h k (h k ++ [t])) := by
  refine ⟨fun k' => ?_, fun k' => ?_, fun k' now hnow => ?_⟩ <;> by_cases hk : k' = k
  · subst hk
    rw [Function.update_self]
    exact List.pairwise_append.2 ⟨r.sorted k', List.pairwise_singleton _ _, fun a ha b hb => by
      rw [List.mem_singleton.1 hb]
      exact (r.past k').1 a ha⟩
  · rw [Function.update_of_ne hk]
    exact r.sorted k'
  · subst hk
    simp only [Function.update_self, List.mem_append, List.mem_singleton]
    exact ⟨fun a ha => ha.elim ((r.past k').1 a) le_of_eq, fun a ha => ha.elim ((r.past k').2 a) le_of_eq⟩
  · rw [Function.update_of_ne hk, Function.update_of_ne hk]
    exact r.past k'
  · subst hk
    rw [Function.update_self, Function.update_self, List.filter_append, List.filter_append,
      r.agree k' now hnow]
  · rw [Function.update_of_ne hk, Function.update_of_ne hk]
    exact r.agree k' now hnow

end

end Limits

end

end GManager
