import GManager.Periods
import Mathlib.Data.List.Range
import Mathlib.Data.List.Nodup
import Mathlib.Logic.Relation

/-!
# First-fit lanes

Items with periods come in the order of their starts, and each takes the first lane whose last item is over.
Two items of one lane never overlap, and a new lane is opened only when an item of every other lane is
running, so that the lanes are as many as items run at one time.
-/

namespace GManager

section lanes

variable {τ : Type}

def takeLane (ends : List τ) (lane : ℕ) (finish : τ) : List τ :=
  if lane < ends.length then ends.set lane finish else ends ++ [finish]

variable {ends : List τ} {finish : τ} {i j : ℕ}

theorem length_takeLane (h : j ≤ ends.length) :
    (takeLane ends j finish).length = max ends.length (j + 1) := by
  unfold takeLane
  split
  · rw [List.length_set]
    omega
  · rw [List.length_append, List.length_singleton]
    omega

theorem getElem?_takeLane_self (h : j ≤ ends.length) : (takeLane ends j finish)[j]? = some finish := by
  unfold takeLane
  split
  · rename_i hlt
    rw [List.getElem?_set_self hlt]
  · rename_i hge
    obtain rfl : j = ends.length := by omega
    rw [List.getElem?_concat_length]

theorem getElem?_takeLane_of_ne (h : j ≤ ends.length) (hi : i ≠ j) :
    (takeLane ends j finish)[i]? = ends[i]? := by
  unfold takeLane
  split
  · exact List.getElem?_set_ne (Ne.symm hi)
  · rw [List.getElem?_append]
    split
    · rfl
    · rw [List.getElem?_eq_none (by simp; omega), List.getElem?_eq_none (by omega)]

end lanes

variable {ε τ : Type} [LinearOrder τ]

/-- The first lane whose end is not after `start`, or a new one. -/
def freeLane (ends : List τ) (start : τ) : ℕ := ends.findIdx fun e => e ≤ start

section free

variable {ends : List τ} {start x : τ} {j : ℕ}

theorem freeLane_le : freeLane ends start ≤ ends.length := List.findIdx_le_length

theorem free_of_lt (h : ends[freeLane ends start]? = some x) : x ≤ start := by
  obtain ⟨hlt, rfl⟩ := List.getElem?_eq_some_iff.1 h
  exact of_decide_eq_true (List.findIdx_getElem (w := hlt))

/-- All lanes before the chosen one are taken. -/
theorem busy_of_lt (hj : j < freeLane ends start) (h : ends[j]? = some x) : start < x := by
  obtain ⟨hlt, rfl⟩ := List.getElem?_eq_some_iff.1 h
  simpa using List.not_of_lt_findIdx hj

end free

/-- The items lie in the lanes that end at `ends`. -/
structure InLanes (period : ε → Period τ) (lane : ε → ℕ) (items : List ε) (ends : List τ) : Prop where
  lt : ∀ e ∈ items, (period e).start < (period e).finish
  apart : items.Pairwise fun a b => lane a = lane b → ∀ t, t ∈ period a → t ∉ period b
  ended : ∀ e ∈ items, ∃ x, ends[lane e]? = some x ∧ (period e).finish ≤ x
  last : ∀ j x, ends[j]? = some x → ∃ e ∈ items, lane e = j ∧ (period e).finish = x
  crowded : ends ≠ [] → ∃ t, ends.length ≤ items.countP fun e => t ∈ period e

namespace InLanes

variable {period : ε → Period τ} {lane : ε → ℕ} {items : List ε} {ends : List τ} {e : ε} {t : τ}

theorem nil : InLanes period lane [] [] where
  lt := fun _ he => absurd he List.not_mem_nil
  apart := .nil
  ended := fun _ he => absurd he List.not_mem_nil
  last := fun _ _ h => by cases h
  crowded := fun h => absurd rfl h

theorem lane_lt (h : InLanes period lane items ends) (he : e ∈ items) : lane e < ends.length := by
  obtain ⟨x, hx, -⟩ := h.ended e he
  exact (List.getElem?_eq_some_iff.1 hx).1

/-- What runs at one time is in different lanes. -/
theorem count_le (h : InLanes period lane items ends) (t : τ) :
    items.countP (fun e => t ∈ period e) ≤ ends.length := by
  have hnodup : ((items.filter fun e => t ∈ period e).map lane).Nodup := by
    rw [List.Nodup, List.pairwise_map, List.pairwise_filter]
    exact h.apart.imp fun hab ha hb heq => hab heq t (of_decide_eq_true ha) (of_decide_eq_true hb)
  have hsub : (items.filter fun e => t ∈ period e).map lane ⊆ List.range ends.length := fun j hj => by
    obtain ⟨e, he, rfl⟩ := List.mem_map.1 hj
    exact List.mem_range.2 (h.lane_lt (List.mem_filter.1 he).1)
  have hlen := List.Nodup.length_le_of_subset hnodup hsub
  rwa [List.length_map, List.length_range, ← List.countP_eq_length_filter] at hlen

/-- When every lane is taken, an item of each of them is running. -/
theorem le_count (h : InLanes period lane items ends) (hstart : ∀ e ∈ items, (period e).start ≤ t)
    (hbusy : ∀ x ∈ ends, t < x) : ends.length ≤ items.countP fun e => t ∈ period e := by
  have hsub : List.range ends.length ⊆ (items.filter fun e => t ∈ period e).map lane := fun j hj => by
    have hlt := List.mem_range.1 hj
    obtain ⟨e, he, rfl, hx⟩ := h.last j ends[j] (List.getElem?_eq_getElem hlt)
    have hrun : t ∈ period e := ⟨hstart e he, hx ▸ hbusy _ (List.getElem_mem hlt)⟩
    exact List.mem_map.2 ⟨e, List.mem_filter.2 ⟨he, decide_eq_true hrun⟩, rfl⟩
  have hlen := List.Nodup.length_le_of_subset List.nodup_range hsub
  rwa [List.length_map, List.length_range, ← List.countP_eq_length_filter] at hlen

/-- The next item takes its lane. -/
theorem step (h : InLanes period lane items ends) (hlt : (period e).start < (period e).finish)
    (hstart : ∀ a ∈ items, (period a).start ≤ (period e).start)
    (hlane : lane e = freeLane ends (period e).start) :
    InLanes period lane (items ++ [e]) (takeLane ends (lane e) (period e).finish) := by
  have hle : lane e ≤ ends.length := hlane ▸ freeLane_le
  have hfree : ∀ x, ends[lane e]? = some x → x ≤ (period e).start := fun x hx => free_of_lt (hlane ▸ hx)
  -- items of the chosen lane are over
  have hover : ∀ a ∈ items, lane a = lane e → (period a).finish ≤ (period e).start := fun a ha heq => by
    obtain ⟨x, hx, hax⟩ := h.ended a ha
    exact hax.trans (hfree x (heq ▸ hx))
  refine ⟨?_, pairwise_snoc.2 ⟨h.apart, fun a ha heq t hta hte => ?_⟩, ?_, fun j x hx => ?_, fun _ => ?_⟩
  · simp only [List.forall_mem_append, List.forall_mem_singleton]
    exact ⟨h.lt, hlt⟩
  · exact absurd (hta.2.trans_le (hover a ha heq)) (not_lt.2 hte.1)
  · simp only [List.forall_mem_append, List.forall_mem_singleton]
    refine ⟨fun a ha => ?_, _, getElem?_takeLane_self hle, le_rfl⟩
    by_cases heq : lane a = lane e
    · exact ⟨_, (congrArg _ heq).trans (getElem?_takeLane_self hle), (hover a ha heq).trans hlt.le⟩
    · obtain ⟨x, hx, hax⟩ := h.ended a ha
      exact ⟨x, (getElem?_takeLane_of_ne hle heq).trans hx, hax⟩
  · by_cases heq : j = lane e
    · subst heq
      rw [getElem?_takeLane_self hle, Option.some.injEq] at hx
      exact ⟨e, List.mem_append_right _ (List.mem_singleton_self e), rfl, hx⟩
    · rw [getElem?_takeLane_of_ne hle heq] at hx
      obtain ⟨a, ha, hj, hax⟩ := h.last j x hx
      exact ⟨a, List.mem_append_left _ ha, hj, hax⟩
  · rw [length_takeLane hle]
    rcases hle.lt_or_eq with hin | hnew
    · obtain ⟨t, ht⟩ := h.crowded (List.ne_nil_of_length_pos (Nat.zero_lt_of_lt hin))
      refine ⟨t, ?_⟩
      rw [List.countP_append, max_eq_left hin]
      exact ht.trans (Nat.le_add_right _ _)
    · have hbusy : ∀ x ∈ ends, (period e).start < x := fun x hx => by
        obtain ⟨j, hj, rfl⟩ := List.getElem_of_mem hx
        exact busy_of_lt (hlane ▸ hnew ▸ hj) (List.getElem?_eq_getElem hj)
      refine ⟨(period e).start, ?_⟩
      have hmem : (period e).start ∈ period e := ⟨le_rfl, hlt⟩
      have hcount := h.le_count hstart hbusy
      rw [List.countP_append, List.countP_singleton, if_pos (decide_eq_true hmem), hnew]
      omega

end InLanes

/-! ### Connected groups -/

section linked

variable {α β : Type} {meets : α → α → Prop} {l l' : List α} {a b : α}

/-- A chain of members that meet leads from `a` to `b`. -/
def Linked (meets : α → α → Prop) (l : List α) : α → α → Prop :=
  Relation.ReflTransGen fun x y => x ∈ l ∧ y ∈ l ∧ meets x y

namespace Linked

theorem mono (h : Linked meets l a b) (hsub : ∀ x ∈ l, x ∈ l') : Linked meets l' a b := by
  induction h with
  | refl => exact .refl
  | tail _ hxy ih => exact .tail ih ⟨hsub _ hxy.1, hsub _ hxy.2.1, hxy.2.2⟩

theorem mem (h : Linked meets l a b) (ha : a ∈ l) : b ∈ l := by
  induction h with
  | refl => exact ha
  | tail _ hxy _ => exact hxy.2.1

/-- What is the same for members that meet is the same in a group. -/
theorem eq_of {f : α → β} (h : Linked meets l a b)
    (hf : ∀ x ∈ l, ∀ y ∈ l, meets x y → f x = f y) : f a = f b := by
  induction h with
  | refl => rfl
  | tail _ hxy ih => exact ih.trans (hf _ hxy.1 _ hxy.2.1 hxy.2.2)

theorem map {meets' : β → β → Prop} {f : α → β} (h : Linked meets l a b)
    (hf : ∀ x y, meets x y → meets' (f x) (f y)) : Linked meets' (l.map f) (f a) (f b) := by
  induction h with
  | refl => exact .refl
  | tail _ hxy ih => exact .tail ih ⟨List.mem_map_of_mem hxy.1, List.mem_map_of_mem hxy.2.1, hf _ _ hxy.2.2⟩

end Linked

/-- A group stays within a part that meets nothing outside of it. -/
theorem linked_iff_of_closed (hsub : ∀ x ∈ l, x ∈ l') (hclosed : ∀ x ∈ l, ∀ y ∈ l', meets x y → y ∈ l)
    (ha : a ∈ l) : Linked meets l' a b ↔ Linked meets l a b := by
  refine ⟨fun h => ?_, fun h => h.mono hsub⟩
  induction h with
  | refl => exact .refl
  | tail _ hxy ih =>
    have hx := ih.mem ha
    exact .tail ih ⟨hx, hclosed _ hx _ hxy.2.1 hxy.2.2, hxy.2.2⟩

end linked

end GManager
