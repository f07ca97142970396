import Mathlib.Data.List.Count
import Mathlib.Order.Lattice

/-!
# Fixed windows

A counter that starts a window at the first hit after the last one expired, and takes a bounded number of
hits in each. With all windows ever opened as its history, a window holds at most the bound, and an interval
of a window's length reaches into two of them at most.
-/

namespace GManager

structure FixedWindow (τ : Type) where
  start : τ
  count : ℕ
  deriving DecidableEq, Repr

structure WindowPolicy (τ : Type) [LinearOrder τ] where
  expires : τ → τ
  le_expires : ∀ t, t ≤ expires t
  maximum : ℕ

/-- A window of the past, with the hits that it took. -/
structure Recorded (ε τ : Type) where
  start : τ
  entries : List ε

/-- The hits of some windows, in their order. -/
def hits {ε τ : Type} (gs : List (Recorded ε τ)) : List ε := gs.flatMap Recorded.entries

section

variable {ε τ : Type} {gs gs' : List (Recorded ε τ)} {g : Recorded ε τ}

@[simp] theorem hits_nil : hits ([] : List (Recorded ε τ)) = [] := rfl

@[simp] theorem hits_cons : hits (g :: gs) = g.entries ++ hits gs := List.flatMap_cons

@[simp] theorem hits_append : hits (gs ++ gs') = hits gs ++ hits gs' := List.flatMap_append

theorem mem_hits {a : ε} : a ∈ hits gs ↔ ∃ g ∈ gs, a ∈ g.entries := List.mem_flatMap

theorem countP_hits_eq_zero {p : ε → Bool} (h : ∀ g ∈ gs, ∀ a ∈ g.entries, ¬ p a) :
    (hits gs).countP p = 0 := by
  rw [List.countP_eq_zero]
  intro a ha
  obtain ⟨g, hg, hmem⟩ := mem_hits.1 ha
  exact h g hg a hmem

end

namespace WindowPolicy

variable {ε τ : Type} [LinearOrder τ] (P : WindowPolicy τ)

def Lapsed (t : τ) (c : Option (FixedWindow τ)) : Prop := ∀ w ∈ c, P.expires w.start ≤ t

def Full (t : τ) (c : Option (FixedWindow τ)) : Prop := ∃ w ∈ c, t < P.expires w.start ∧ P.maximum ≤ w.count

def hit (t : τ) : Option (FixedWindow τ) → FixedWindow τ
  | none => ⟨t, 1⟩
  | some w => if P.expires w.start ≤ t then ⟨t, 1⟩ else { w with count := w.count + 1 }

/-- Counters that no later hit tells apart. -/
def Alike (t : τ) (c c' : Option (FixedWindow τ)) : Prop := c = c' ∨ P.Lapsed t c ∧ P.Lapsed t c'

variable {P} {t t' : τ} {c c' : Option (FixedWindow τ)}

theorem Lapsed.mono (h : P.Lapsed t c) (hle : t ≤ t') : P.Lapsed t' c := fun w hw => (h w hw).trans hle

theorem Lapsed.none : P.Lapsed t none := by simp [Lapsed]

theorem Lapsed.not_full (h : P.Lapsed t c) : ¬ P.Full t c := by
  rintro ⟨w, hw, hlt, -⟩
  exact not_le.2 hlt (h w hw)

theorem Lapsed.hit (h : P.Lapsed t c) : P.hit t c = ⟨t, 1⟩ := by
  cases c with
  | none => rfl
  | some w => simp [WindowPolicy.hit, h w rfl]

theorem hit_some {w : FixedWindow τ} (h : t < P.expires w.start) :
    P.hit t (some w) = ⟨w.start, w.count + 1⟩ := by
  simp [WindowPolicy.hit, h]

namespace Alike

theorem refl : P.Alike t c c := .inl rfl

theorem mono (h : P.Alike t c c') (hle : t ≤ t') : P.Alike t' c c' :=
  h.imp_right (And.imp (·.mono hle) (·.mono hle))

theorem full_iff (h : P.Alike t c c') : P.Full t c ↔ P.Full t c' := by
  obtain rfl | ⟨h, h'⟩ := h
  · rfl
  · exact iff_of_false h.not_full h'.not_full

theorem hit_eq (h : P.Alike t c c') : P.hit t c = P.hit t c' := by
  obtain rfl | ⟨h, h'⟩ := h
  · rfl
  · rw [h.hit, h'.hit]

end Alike

/-- The windows are apart: the next one begins, and takes its hits, when this one is over. -/
def Apart (time : ε → τ) (g g' : Recorded ε τ) : Prop :=
  P.expires g.start ≤ g'.start ∧ ∀ a ∈ g'.entries, P.expires g.start ≤ time a

variable (P) in
/-- `past ++ current` are the windows of a counter up to `t`. -/
structure Keeps (time : ε → τ) (t : τ) (c : Option (FixedWindow τ)) (past : List (Recorded ε τ))
    (current : Option (Recorded ε τ)) : Prop where
  counter : c = current.map fun g => ⟨g.start, g.entries.length⟩
  elapsed : ∀ g ∈ past, P.expires g.start ≤ t
  apart : (past ++ current.toList).Pairwise (P.Apart time)
  few : ∀ g ∈ past ++ current.toList, g.entries.length ≤ P.maximum
  inside : ∀ g ∈ past ++ current.toList, ∀ a ∈ g.entries, time a < P.expires g.start

namespace Keeps

variable {time : ε → τ} {past : List (Recorded ε τ)} {current : Option (Recorded ε τ)}

theorem mono (h : P.Keeps time t c past current) (hle : t ≤ t') : P.Keeps time t' c past current :=
  { h with elapsed := fun g hg => (h.elapsed g hg).trans hle }

theorem fresh (h : c.elim True fun w => w.count = 0) :
    P.Keeps time t c [] (c.map fun w => ⟨w.start, []⟩) := by
  cases c with
  | none => exact ⟨rfl, by simp, by simp, by simp, by simp⟩
  | some w =>
    refine ⟨?_, by simp, by simp, by simp, by simp⟩
    obtain ⟨start, count⟩ := w
    obtain rfl : count = 0 := h
    rfl

/-- A window that is over goes to the past. -/
theorem purge (h : P.Keeps time t c past current) (hl : P.Lapsed t c) :
    P.Keeps time t none (past ++ current.toList) none := by
  refine ⟨rfl, fun g hg => ?_, by simpa using h.apart, by simpa using h.few, by simpa using h.inside⟩
  rcases List.mem_append.1 hg with hg | hg
  · exact h.elapsed g hg
  · rw [Option.mem_toList] at hg
    have hc : c = some ⟨g.start, g.entries.length⟩ := by rw [h.counter, hg, Option.map_some]
    exact hl _ hc

/-- A hit that is taken is recorded last. -/
theorem hit {a : ε} (h : P.Keeps time (time a) c past current) (hmax : 0 < P.maximum)
    (hfull : ¬ P.Full (time a) c) (hexp : time a < P.expires (time a)) :
    ∃ past' current', P.Keeps time (time a) (some (P.hit (time a) c)) past' current' ∧
      hits (past' ++ current'.toList) = hits (past ++ current.toList) ++ [a] ∧
      (past ++ current.toList).map Recorded.start <+: (past' ++ current'.toList).map Recorded.start := by
  by_cases hl : P.Lapsed (time a) c
  · have h' := h.purge hl
    have happ : (past ++ current.toList ++ [(⟨time a, [a]⟩ : Recorded ε τ)]).Pairwise (P.Apart time) := by
      refine List.pairwise_append.2 ⟨h.apart, List.pairwise_singleton _ _, fun g hg g' hg' => ?_⟩
      obtain rfl := List.mem_singleton.1 hg'
      exact ⟨h'.elapsed g hg, by simpa using h'.elapsed g hg⟩
    refine ⟨past ++ current.toList, some ⟨time a, [a]⟩,
      ⟨by rw [hl.hit]; rfl, h'.elapsed, happ, ?_, ?_⟩, by simp, by simp⟩
    · exact List.forall_mem_append.2 ⟨h.few, by simpa using Nat.succ_le_of_lt hmax⟩
    · exact List.forall_mem_append.2 ⟨h.inside, by simpa using hexp⟩
  · obtain ⟨w, rfl, hlt⟩ : ∃ w, c = some w ∧ time a < P.expires w.start := by
      simpa [Lapsed] using hl
    obtain ⟨g, rfl, rfl⟩ : ∃ g, current = some g ∧ (⟨g.start, g.entries.length⟩ : FixedWindow τ) = w :=
      Option.map_eq_some_iff.1 h.counter.symm
    have hcount : g.entries.length < P.maximum := not_le.1 fun hle => hfull ⟨_, rfl, hlt, hle⟩
    obtain ⟨hpast, -, hapart⟩ := List.pairwise_append.1 h.apart
    obtain ⟨hfew, -⟩ := List.forall_mem_append.1 h.few
    obtain ⟨hin, hing⟩ := List.forall_mem_append.1 h.inside
    have hing : ∀ b ∈ g.entries, time b < P.expires g.start := by simpa using hing
    refine ⟨past, some ⟨g.start, g.entries ++ [a]⟩, ⟨?_, h.elapsed, ?_, ?_, ?_⟩, by simp, by simp⟩
    · rw [hit_some hlt]
      simp
    · refine List.pairwise_append.2 ⟨hpast, List.pairwise_singleton _ _, fun g' hg' g'' hg'' => ?_⟩
      obtain rfl := List.mem_singleton.1 hg''
      have hg := hapart g' hg' g (by simp)
      exact ⟨hg.1, List.forall_mem_append.2 ⟨hg.2, by simpa using h.elapsed g' hg'⟩⟩
    · exact List.forall_mem_append.2 ⟨hfew, by simpa using Nat.succ_le_of_lt hcount⟩
    · refine List.forall_mem_append.2 ⟨hin, ?_⟩
      simpa [or_imp, forall_and] using ⟨hing, hlt⟩

end Keeps

section counts

variable {time : ε → τ} {gs : List (Recorded ε τ)} {p : ε → Bool}

/-- Hits that end with each window that has any of them. -/
theorem countP_le (happ : gs.Pairwise (P.Apart time)) (hfew : ∀ g ∈ gs, g.entries.length ≤ P.maximum)
    (hp : ∀ g ∈ gs, (∀ a, p a → time a < P.expires g.start) ∨ ∀ a ∈ g.entries, ¬ p a) :
    (hits gs).countP p ≤ P.maximum := by
  induction gs with
  | nil => simp
  | cons g gs ih =>
    obtain ⟨hg, happ⟩ := List.pairwise_cons.1 happ
    rw [List.forall_mem_cons] at hfew hp
    rw [hits_cons, List.countP_append]
    rcases hp.1 with hend | hnone
    · have hrest : (hits gs).countP p = 0 :=
        countP_hits_eq_zero fun g' hg' a ha hpa => not_le.2 (hend a hpa) ((hg g' hg').2 a ha)
      have hlen : g.entries.countP p ≤ g.entries.length := List.countP_le_length
      omega
    · have hnil : g.entries.countP p = 0 := List.countP_eq_zero.2 hnone
      have hrest := ih happ hfew.2 hp.2
      omega

/-- Hits within the length of a window reach into two windows at most. -/
theorem countP_le_two_mul (happ : gs.Pairwise (P.Apart time)) (hfew : ∀ g ∈ gs, g.entries.length ≤ P.maximum)
    (hin : ∀ g ∈ gs, ∀ a ∈ g.entries, time a < P.expires g.start)
    (hp : ∀ a b, p a → p b → ∀ s, time a < s → time b < P.expires s) :
    (hits gs).countP p ≤ 2 * P.maximum := by
  induction gs with
  | nil => simp
  | cons g gs ih =>
    obtain ⟨hg, happ⟩ := List.pairwise_cons.1 happ
    rw [List.forall_mem_cons] at hfew hin
    rw [hits_cons, List.countP_append]
    by_cases hnone : ∀ a ∈ g.entries, ¬ p a
    · have hnil : g.entries.countP p = 0 := List.countP_eq_zero.2 hnone
      have hrest := ih happ hfew.2 hin.2
      omega
    · push Not at hnone
      obtain ⟨a, ha, hpa⟩ := hnone
      -- every later window begins after this hit
      have hrest : (hits gs).countP p ≤ P.maximum := countP_le happ hfew.2 fun g' hg' => .inl fun b hpb =>
        hp a b hpa hpb g'.start ((hin.1 a ha).trans_le (hg g' hg').1)
      have hlen : g.entries.countP p ≤ g.entries.length := List.countP_le_length
      omega

variable {c : Option (FixedWindow τ)} {past : List (Recorded ε τ)} {current : Option (Recorded ε τ)} {w : τ}

/-- From the begin of a recorded window to its end there are at most as many hits as the bound. -/
theorem Keeps.countP_le (h : P.Keeps time t c past current)
    (hw : w ∈ (past ++ current.toList).map Recorded.start)
    (hp : ∀ a, p a → w ≤ time a ∧ time a < P.expires w) :
    (hits (past ++ current.toList)).countP p ≤ P.maximum := by
  refine WindowPolicy.countP_le h.apart h.few fun g hg => ?_
  obtain ⟨g', hg', rfl⟩ := List.mem_map.1 hw
  -- the window of `g` is the one of `g'`, or lies before it or after it
  rcases eq_or_ne g g' with rfl | hne
  · exact .inl fun a hpa => (hp a hpa).2
  · obtain ⟨gs₁, gs₂, heq⟩ := List.append_of_mem hg
    have happ := h.apart
    rw [heq] at hg' happ
    obtain ⟨-, hafter, hbefore⟩ := List.pairwise_append.1 happ
    rcases List.mem_append.1 hg' with hg' | hg'
    · refine .inl fun a hpa => (hp a hpa).2.trans_le ?_
      exact (hbefore g' hg' g List.mem_cons_self).1.trans (P.le_expires g.start)
    · have hmem := (List.mem_cons.1 hg').resolve_left hne.symm
      refine .inr fun a ha hpa => ?_
      have hle := ((List.pairwise_cons.1 hafter).1 g' hmem).1.trans (hp a hpa).1
      exact not_le.2 (h.inside g hg a ha) hle

theorem Keeps.countP_le_two_mul (h : P.Keeps time t c past current)
    (hp : ∀ a b, p a → p b → ∀ s, time a < s → time b < P.expires s) :
    (hits (past ++ current.toList)).countP p ≤ 2 * P.maximum :=
  WindowPolicy.countP_le_two_mul h.apart h.few h.inside hp

end counts

end WindowPolicy

end GManager
