import Mathlib.Data.List.TakeWhile
import Mathlib.Data.Nat.Init

/-!
# Replacing what a pattern finds

`replaceAll` goes through a text from the left and replaces every match, and goes on behind it. A
text can be cut where no match runs over the seam: its parts are then replaced one by one. `Scan`
says how far a replacement has come.
-/

namespace GManager

variable {α : Type}

/-- What a pattern finds at the front of a text: the replacement, and what is left behind the match. -/
structure Pattern (α : Type) where
  find : List α → Option (List α × List α)
  consumes : ∀ s r t, find s = some (r, t) → ∃ m, m ≠ [] ∧ s = m ++ t

namespace Pattern

variable {p : Pattern α} {a b s t o k r : List α} {c : α} {n : ℕ}

def replaceFrom (p : Pattern α) : ℕ → List α → List α
  | 0, s => s
  | _ + 1, [] => []
  | n + 1, c :: s =>
    match p.find (c :: s) with
    | some (r, t) => r ++ replaceFrom p n t
    | none => c :: replaceFrom p n s

/-- `replaceAll` of a matcher. -/
def replaceAll (p : Pattern α) (s : List α) : List α := p.replaceFrom s.length s

theorem length_lt (h : p.find s = some (r, t)) : t.length < s.length := by
  obtain ⟨m, hm, rfl⟩ := p.consumes s r t h
  rw [List.length_append]
  have := List.length_pos_iff.2 hm
  omega

theorem replaceFrom_eq (h : s.length ≤ n) : p.replaceFrom n s = p.replaceAll s := by
  induction n using Nat.strongRec generalizing s with
  | ind n ih =>
    match n, s with
    | 0, s =>
      obtain rfl := List.length_eq_zero_iff.1 (Nat.le_zero.1 h)
      rfl
    | n + 1, [] => rfl
    | n + 1, c :: s =>
      rw [replaceAll, List.length_cons, replaceFrom, replaceFrom]
      rw [List.length_cons] at h
      cases hf : p.find (c :: s) with
      | none =>
        simp only
        rw [ih n (by omega) (by omega)]
        rfl
      | some x =>
        obtain ⟨r, t⟩ := x
        have hlt := length_lt hf
        rw [List.length_cons] at hlt
        simp only
        rw [ih n (by omega) (by omega)]
        by_cases hs : s.length < n + 1
        · rcases Nat.lt_or_eq_of_le (Nat.le_of_lt_succ hs) with hs | hs
          · rw [ih s.length (by omega) (by omega)]
          · rw [hs, ih n (by omega) (by omega)]
        · omega

@[simp] theorem replaceAll_nil : p.replaceAll [] = [] := rfl

theorem replaceAll_of_none (h : p.find (c :: s) = none) : p.replaceAll (c :: s) = c :: p.replaceAll s := by
  rw [replaceAll, List.length_cons, replaceFrom, h]
  rfl

theorem replaceAll_of_some (h : p.find s = some (r, t)) : p.replaceAll s = r ++ p.replaceAll t := by
  have hlt := length_lt h
  match s with
  | [] => exact absurd hlt (Nat.not_lt_zero _)
  | c :: s =>
    rw [List.length_cons] at hlt
    rw [replaceAll, List.length_cons, replaceFrom, h]
    simp only
    rw [replaceFrom_eq (by omega)]

/-! ### Seams -/

/-- `b` behind `s` changes nothing of what is found at the front of `s`. -/
def Cut (p : Pattern α) (s b : List α) : Prop := p.find (s ++ b) = (p.find s).map (Prod.map id (· ++ b))

theorem Cut.of_some (h : p.Cut s b) (hf : p.find s = some (r, t)) : p.find (s ++ b) = some (r, t ++ b) := by
  rw [h, hf]
  rfl

theorem Cut.of_none (h : p.Cut s b) (hf : p.find s = none) : p.find (s ++ b) = none := by
  rw [h, hf]
  rfl

/-- The replacement of a text up to a rest of it. -/
inductive Scan (p : Pattern α) : List α → List α → List α → Prop
  | refl (s : List α) : Scan p s [] s
  | skip {c : α} {s o k : List α} (h : p.find (c :: s) = none) (hs : Scan p s o k) :
      Scan p (c :: s) (c :: o) k
  | hit {s r t o k : List α} (h : p.find s = some (r, t)) (ht : Scan p t o k) : Scan p s (r ++ o) k

theorem Scan.replaceAll_eq (h : p.Scan s o k) : p.replaceAll s = o ++ p.replaceAll k := by
  induction h with
  | refl s => rfl
  | skip h _ ih => rw [replaceAll_of_none h, ih, List.cons_append]
  | hit h _ ih => rw [replaceAll_of_some h, ih, List.append_assoc]

theorem Scan.suffix (h : p.Scan s o k) : k <:+ s := by
  induction h with
  | refl s => exact List.suffix_refl s
  | skip _ _ ih => exact ih.trans (List.suffix_cons _ _)
  | hit h _ ih =>
    obtain ⟨m, -, rfl⟩ := p.consumes _ _ _ h
    exact ih.trans (List.suffix_append _ _)

/-- A replacement goes the same way with more text behind, until it comes to a rest
for which this is not known. -/
theorem Scan.append (h : p.Scan s o k) (hcut : ∀ x, x ≠ [] → x ++ k <:+ s → p.Cut (x ++ k) b) :
    p.Scan (s ++ b) o (k ++ b) := by
  induction h with
  | refl s => exact .refl _
  | @skip c s o k h hs ih =>
    obtain ⟨x, rfl⟩ := hs.suffix
    have hhere : p.Cut (c :: (x ++ k)) b := hcut (c :: x) (by simp) (List.suffix_refl _)
    exact .skip (hhere.of_none h) (ih fun y hy hsuf => hcut y hy (hsuf.trans (List.suffix_cons _ _)))
  | @hit s r t o k h ht ih =>
    obtain ⟨m, hm, rfl⟩ := p.consumes _ _ _ h
    obtain ⟨x, rfl⟩ := ht.suffix
    have hhere : p.Cut (m ++ (x ++ k)) b := by
      have := hcut (m ++ x) (by simp [hm])
      rw [List.append_assoc] at this
      exact this (List.suffix_refl _)
    exact .hit (hhere.of_some h) (ih fun y hy hsuf => hcut y hy (hsuf.trans (List.suffix_append _ _)))

theorem scan_nil (p : Pattern α) (s : List α) : p.Scan s (p.replaceAll s) [] := by
  induction hn : s.length using Nat.strongRec generalizing s with
  | ind n ih =>
    match s with
    | [] => exact .refl []
    | c :: s =>
      cases hf : p.find (c :: s) with
      | none =>
        rw [replaceAll_of_none hf]
        exact .skip hf (ih s.length (by rw [← hn, List.length_cons]; omega) s rfl)
      | some x =>
        obtain ⟨r, t⟩ := x
        rw [replaceAll_of_some hf]
        exact .hit hf (ih t.length (hn ▸ length_lt hf) t rfl)

theorem replaceAll_append (h : ∀ s, s ≠ [] → s <:+ a → p.Cut s b) :
    p.replaceAll (a ++ b) = p.replaceAll a ++ p.replaceAll b := by
  have hscan := (p.scan_nil a).append (b := b) fun x hx hsuf => by
    rw [List.append_nil] at hsuf ⊢
    exact h x hx hsuf
  exact hscan.replaceAll_eq

/-- No match begins with `c` or runs over it. -/
def Stops (p : Pattern α) (c : α) : Prop := (∀ s, p.find (c :: s) = none) ∧ ∀ s b, p.Cut s (c :: b)

theorem Stops.replaceAll_cons (h : p.Stops c) : p.replaceAll (c :: s) = c :: p.replaceAll s :=
  replaceAll_of_none (h.1 s)

theorem Stops.replaceAll_append (h : p.Stops c) :
    p.replaceAll (a ++ c :: b) = p.replaceAll a ++ c :: p.replaceAll b := by
  rw [Pattern.replaceAll_append fun s _ _ => h.2 s b, h.replaceAll_cons]

/-- A text without a match stays as it is. -/
theorem replaceAll_eq_self (h : ∀ t, t ≠ [] → t <:+ s → p.find t = none) : p.replaceAll s = s := by
  induction s with
  | nil => rfl
  | cons c s ih =>
    rw [replaceAll_of_none (h _ (by simp) (List.suffix_refl _)), ih fun t ht hsuf =>
      h t ht (hsuf.trans (List.suffix_cons _ _))]

theorem replaceAll_ne_nil (hr : ∀ s r t, p.find s = some (r, t) → r ≠ []) (h : s ≠ []) :
    p.replaceAll s ≠ [] := by
  match s with
  | [] => exact absurd rfl h
  | c :: s =>
    cases hf : p.find (c :: s) with
    | none =>
      rw [replaceAll_of_none hf]
      exact List.cons_ne_nil _ _
    | some x =>
      rw [replaceAll_of_some hf]
      exact List.append_ne_nil_of_left_ne_nil (hr _ _ _ hf) _

/-- A scan comes to `k`, or to a match that runs over it, where every match ends before `k` or at the end. -/
theorem scan_or (hcover : ∀ x r t, x ≠ [] → p.find (x ++ k) = some (r, t) → (∃ y, t = y ++ k) ∨ t = [])
    (x : List α) : (∃ o, p.Scan (x ++ k) o k) ∨ ∃ o y r, y ≠ [] ∧ p.Scan (x ++ k) o (y ++ k) ∧
    p.find (y ++ k) = some (r, []) := by
  induction hn : x.length using Nat.strongRec generalizing x with
  | ind n ih =>
    match x with
    | [] => exact .inl ⟨[], .refl _⟩
    | c :: x =>
      cases hf : p.find (c :: x ++ k) with
      | none =>
        rcases ih x.length (by rw [← hn, List.length_cons]; omega) x rfl with ⟨o, ho⟩ | ⟨o, y, r, hy, ho, hr⟩
        · exact .inl ⟨c :: o, .skip hf ho⟩
        · exact .inr ⟨c :: o, y, r, hy, .skip hf ho, hr⟩
      | some res =>
        obtain ⟨r, t⟩ := res
        rcases hcover (c :: x) r t (by simp) hf with ⟨y, rfl⟩ | rfl
        · have hlt := length_lt hf
          rw [List.length_append, List.length_append] at hlt
          rcases ih y.length (by omega) y rfl with ⟨o, ho⟩ | ⟨o, z, r', hz, ho, hr⟩
          · exact .inl ⟨r ++ o, .hit hf ho⟩
          · exact .inr ⟨r ++ o, z, r', hz, .hit hf ho, hr⟩
        · exact .inr ⟨[], c :: x, r, by simp, .refl _, hf⟩

end Pattern

/-! ### Runs -/

section runs

variable {f : α → Bool} {s b : List α} {c : α}

theorem takeWhile_append_of_mem (hc : c ∈ s) (hf : f c = false) : (s ++ b).takeWhile f = s.takeWhile f ∧
    (s ++ b).dropWhile f = s.dropWhile f ++ b := by
  induction s with
  | nil => cases hc
  | cons x s ih =>
    cases hx : f x with
    | false => simp [hx]
    | true =>
      have hcs : c ∈ s := (List.mem_cons.1 hc).resolve_left fun h => by simp [h, hx] at hf
      simp [hx, (ih hcs).1, (ih hcs).2]

theorem takeWhile_append_of_head (hb : ∀ c ∈ b.head?, f c = false) : (s ++ b).takeWhile f = s.takeWhile f ∧
    (s ++ b).dropWhile f = s.dropWhile f ++ b := by
  induction s with
  | nil =>
    match b with
    | [] => simp
    | c :: b => simp [hb c rfl]
  | cons x s ih => cases hx : f x <;> simp [hx, ih.1, ih.2]

theorem mem_dropWhile (hc : c ∈ s) (hf : f c = false) : c ∈ s.dropWhile f := by
  induction s with
  | nil => cases hc
  | cons x s ih =>
    cases hx : f x with
    | false => simpa [hx] using hc
    | true =>
      have hcs : c ∈ s := (List.mem_cons.1 hc).resolve_left fun h => by simp [h, hx] at hf
      simpa [hx] using ih hcs

theorem dropWhile_append_of_all (hb : ∀ c ∈ b, f c = true) : (∃ t, (s ++ b).dropWhile f = t ++ b) ∨
    (s ++ b).dropWhile f = [] := by
  induction s with
  | nil =>
    exact .inr (List.dropWhile_eq_nil_iff.2 hb)
  | cons x s ih =>
    cases hx : f x with
    | false => exact .inl ⟨x :: s, by simp [hx]⟩
    | true => simpa [hx] using ih

theorem dropWhile_append_of_none (hb : ∀ c ∈ b, f c = false) : ∃ t, (s ++ b).dropWhile f = t ++ b := by
  refine ⟨s.dropWhile f, (takeWhile_append_of_head fun c hc => hb c ?_).2⟩
  exact List.mem_of_mem_head? hc

end runs

/-! ### Matchers

A matcher takes what it matches from the front of a text. -/

section matchers

variable {s t m b : List α}

/-- One or more characters of a class, as many as there are. -/
def many1 (f : α → Bool) (s : List α) : Option (List α × List α) :=
  if (s.takeWhile f).isEmpty then none else some (s.takeWhile f, s.dropWhile f)

theorem many1_eq_some {f : α → Bool} : many1 f s = some (m, t) ↔ m ≠ [] ∧ m = s.takeWhile f ∧
    t = s.dropWhile f := by
  unfold many1
  split
  · rename_i h
    simp only [List.isEmpty_iff] at h
    simp only [reduceCtorEq, h, false_iff]
    rintro ⟨hm, rfl, -⟩
    exact hm rfl
  · rename_i h
    simp only [List.isEmpty_iff] at h
    simp only [Option.some.injEq, Prod.mk.injEq]
    constructor
    · rintro ⟨rfl, rfl⟩
      exact ⟨h, rfl, rfl⟩
    · rintro ⟨-, rfl, rfl⟩
      exact ⟨rfl, rfl⟩

theorem many1_append {f : α → Bool} (hb : ∀ c ∈ b.head?, f c = false) :
    many1 f (s ++ b) = (many1 f s).map (Prod.map id (· ++ b)) := by
  simp only [many1, (takeWhile_append_of_head hb).1, (takeWhile_append_of_head hb).2]
  split <;> rfl

theorem many1_of_head {f : α → Bool} (hs : ∀ c ∈ s.head?, f c = false) : many1 f s = none := by
  have := (takeWhile_append_of_head (s := []) hs).1
  rw [List.nil_append, List.takeWhile_nil] at this
  simp [many1, this]

variable [DecidableEq α]

/-- A word, written in any way that `fold` takes to it. -/
def word (fold : α → α) (k s : List α) : Option (List α × List α) :=
  if (s.take k.length).map fold = k then some (s.take k.length, s.drop k.length) else none

variable {fold : α → α} {k : List α}

theorem word_eq_some : word fold k s = some (m, t) ↔ s = m ++ t ∧ m.map fold = k := by
  unfold word
  split
  · rename_i h
    simp only [Option.some.injEq, Prod.mk.injEq]
    constructor
    · rintro ⟨rfl, rfl⟩
      exact ⟨(List.take_append_drop _ _).symm, h⟩
    · rintro ⟨rfl, rfl⟩
      simp
  · rename_i h
    simp only [reduceCtorEq, false_iff]
    rintro ⟨rfl, rfl⟩
    simp at h

theorem word_append (hb : ∀ c ∈ b.head?, fold c ∉ k) :
    word fold k (s ++ b) = (word fold k s).map (Prod.map id (· ++ b)) := by
  cases hs : word fold k s with
  | some x =>
    obtain ⟨m, t⟩ := x
    obtain ⟨rfl, hm⟩ := word_eq_some.1 hs
    exact word_eq_some.2 ⟨by simp, hm⟩
  | none =>
    rw [Option.map_none, ← Option.not_isSome_iff_eq_none, Option.isSome_iff_exists]
    rintro ⟨⟨m, r⟩, hw⟩
    obtain ⟨heq, hm⟩ := word_eq_some.1 hw
    have hnot : ∀ t, s ≠ m ++ t := by
      intro t ht
      rw [word_eq_some.2 ⟨ht, hm⟩] at hs
      cases hs
    rcases List.append_eq_append_iff.1 heq with ⟨x, rfl, rfl⟩ | ⟨x, hx, -⟩
    · match x with
      | [] => exact hnot [] (by simp)
      | c :: x => exact hb c rfl (hm ▸ List.mem_map_of_mem (by simp))
    · exact hnot x hx

end matchers

end GManager
