import GManager.Span
import Mathlib.Data.List.Pairwise
import Mathlib.Data.List.Dedup
import Mathlib.Data.List.Sort

/-!
# Lists of half-open periods

A period of a linear order as the set of its points, and lists of periods: what they cover, whether they
lie apart, and whether they tile a longer period. Periods that lie apart are determined by what they cover,
as the maximal periods in it.
-/

namespace GManager

section sortBy

variable {ρ τ : Type} [LinearOrder τ] {key : ρ → τ} {rows : List ρ} {r : ρ}

/-- A stable sort by a key. -/
def sortBy (key : ρ → τ) (rows : List ρ) : List ρ := rows.insertionSort fun a b => key a ≤ key b

theorem sortBy_perm (key : ρ → τ) (rows : List ρ) : (sortBy key rows).Perm rows := List.perm_insertionSort _ _

@[simp] theorem mem_sortBy : r ∈ sortBy key rows ↔ r ∈ rows := (sortBy_perm key rows).mem_iff

theorem pairwise_sortBy (key : ρ → τ) (rows : List ρ) : (sortBy key rows).Pairwise fun a b => key a ≤ key b :=
  have : Std.Total fun a b : ρ => key a ≤ key b := ⟨fun a b => le_total (key a) (key b)⟩
  have : IsTrans ρ fun a b => key a ≤ key b := ⟨fun _ _ _ => le_trans⟩
  List.pairwise_insertionSort _ rows

/-- A row that few rows precede comes early. -/
theorem mem_take_sortBy {n : ℕ} (hr : r ∈ rows) (hn : rows.countP (fun a => key a ≤ key r) ≤ n) :
    r ∈ (sortBy key rows).take n := by
  by_contra hnot
  have hmem : r ∈ sortBy key rows := mem_sortBy.2 hr
  rw [← List.take_append_drop n (sortBy key rows)] at hmem
  have hdrop := (List.mem_append.1 hmem).resolve_left hnot
  have hpair := pairwise_sortBy key rows
  rw [← List.take_append_drop n (sortBy key rows)] at hpair
  have htake : ∀ a ∈ (sortBy key rows).take n, decide (key a ≤ key r) = true :=
    fun a ha => decide_eq_true ((List.pairwise_append.1 hpair).2.2 a ha r hdrop)
  have hlen := List.length_pos_of_mem hdrop
  rw [List.length_drop] at hlen
  have hcount := (sortBy_perm key rows).countP_eq fun a => key a ≤ key r
  rw [← List.take_append_drop n (sortBy key rows), List.countP_append, List.countP_eq_length.2 htake,
    List.length_take] at hcount
  have hpos : 0 < ((sortBy key rows).drop n).countP fun a => key a ≤ key r :=
    List.countP_pos_iff.2 ⟨r, hdrop, decide_eq_true le_rfl⟩
  omega

end sortBy

theorem pairwise_snoc {α : Type} {R : α → α → Prop} {l : List α} {b : α} :
    (l ++ [b]).Pairwise R ↔ l.Pairwise R ∧ ∀ a ∈ l, R a b := by
  simp [List.pairwise_append]

section appendMerging

variable {α : Type} {join : α → α → Option α} {l : List α} {a : α}

/-- Appends `a`, or exchanges the last member for what `join` makes of it and `a`. -/
def appendMerging (join : α → α → Option α) (l : List α) (a : α) : List α :=
  match l.getLast? with
  | none => [a]
  | some b =>
    match join b a with
    | none => l ++ [a]
    | some c => l.dropLast ++ [c]

theorem appendMerging_cases (join : α → α → Option α) (l : List α) (a : α) :
    (l = [] ∧ appendMerging join l a = [a]) ∨ ∃ init b, l = init ++ [b] ∧
    ((join b a = none ∧ appendMerging join l a = init ++ [b] ++ [a]) ∨
      ∃ c, join b a = some c ∧ appendMerging join l a = init ++ [c]) := by
  rcases l.eq_nil_or_concat' with rfl | ⟨init, b, rfl⟩
  · exact .inl ⟨rfl, rfl⟩
  · refine .inr ⟨init, b, rfl, ?_⟩
    cases hj : join b a with
    | none => exact .inl ⟨rfl, by simp [appendMerging, hj]⟩
    | some c => exact .inr ⟨c, rfl, by simp [appendMerging, hj]⟩

end appendMerging

structure Period (τ : Type) where
  start : τ
  finish : τ
  deriving DecidableEq, Repr

namespace Period

variable {τ : Type} [LinearOrder τ]

instance : Membership τ (Period τ) := ⟨fun a t => a.start ≤ t ∧ t < a.finish⟩

theorem mem_def {a : Period τ} {t : τ} : t ∈ a ↔ a.start ≤ t ∧ t < a.finish := Iff.rfl

instance (a : Period τ) (t : τ) : Decidable (t ∈ a) := inferInstanceAs (Decidable (_ ∧ _))

def Covered (l : List (Period τ)) (t : τ) : Prop := ∃ a ∈ l, t ∈ a

instance (l : List (Period τ)) (t : τ) : Decidable (Covered l t) := inferInstanceAs (Decidable (∃ a ∈ l, _))

/-- Ascending, and with something between any two of them. -/
def Separated (l : List (Period τ)) : Prop := l.Pairwise fun a b => a.finish < b.start

/-- Not empty, inside, and not to be extended. -/
structure MaximalIn (U : τ → Prop) (a : Period τ) : Prop where
  lt : a.start < a.finish
  inside : ∀ t ∈ a, U t
  maximal : ∀ b : Period τ, b.start < b.finish → (∀ t ∈ b, U t) → b.start ≤ a.start →
    a.finish ≤ b.finish → b = a

section covered

variable {l l' : List (Period τ)} {a b : Period τ} {t : τ}

@[simp] theorem covered_nil : ¬ Covered ([] : List (Period τ)) t := by
  rintro ⟨a, ha, -⟩
  exact List.not_mem_nil ha

@[simp] theorem covered_append : Covered (l ++ l') t ↔ Covered l t ∨ Covered l' t := by
  simp only [Covered, List.mem_append, or_and_right, exists_or]

@[simp] theorem covered_cons : Covered (a :: l) t ↔ t ∈ a ∨ Covered l t := by
  simp [Covered]

theorem covered_congr (h : ∀ a, a ∈ l ↔ a ∈ l') : Covered l t ↔ Covered l' t := by
  simp only [Covered, h]

theorem MaximalIn.congr {U V : τ → Prop} (h : ∀ t, U t ↔ V t) : MaximalIn U a ↔ MaximalIn V a := by
  obtain rfl : U = V := funext fun t => propext (h t)
  exact Iff.rfl

namespace Separated

theorem snoc (hs : Separated l) (h : ∀ a ∈ l, a.finish < b.start) : Separated (l ++ [b]) :=
  pairwise_snoc.2 ⟨hs, h⟩

/-- Two of them are the same or have something between them. -/
theorem eq_or_lt (hs : Separated l) (ha : a ∈ l) (hb : b ∈ l) : a = b ∨ a.finish < b.start ∨
    b.finish < a.start := by
  induction l with
  | nil => exact absurd ha List.not_mem_nil
  | cons c l ih =>
    obtain ⟨hc, hs⟩ := List.pairwise_cons.1 hs
    rcases List.mem_cons.1 ha with rfl | ha' <;> rcases List.mem_cons.1 hb with rfl | hb'
    · exact .inl rfl
    · exact .inr (.inl (hc b hb'))
    · exact .inr (.inr (hc a ha'))
    · exact ih hs ha' hb'

/-- A covered period lies in one of them. -/
theorem exists_le (hs : Separated l) (hlt : b.start < b.finish) (hb : ∀ t ∈ b, Covered l t) :
    ∃ a ∈ l, a.start ≤ b.start ∧ b.finish ≤ a.finish := by
  obtain ⟨a, ha, h₁, h₂⟩ := hb b.start ⟨le_rfl, hlt⟩
  refine ⟨a, ha, h₁, not_lt.1 fun h => ?_⟩
  -- the end of `a` is covered too, by another one that touches `a`
  obtain ⟨c, hc, h₃, h₄⟩ := hb a.finish ⟨h₂.le, h⟩
  rcases hs.eq_or_lt ha hc with rfl | h₅ | h₅
  · exact absurd h₄ (lt_irrefl _)
  · exact absurd h₃ (not_le.2 h₅)
  · exact absurd (h₁.trans_lt h₂) (not_lt.2 (h₄.trans h₅).le)

theorem mem_iff_maximalIn (hs : Separated l) (hlt : ∀ a ∈ l, a.start < a.finish) : a ∈ l ↔
    MaximalIn (Covered l) a := by
  constructor
  · intro ha
    refine ⟨hlt a ha, fun t ht => ⟨a, ha, ht⟩, fun b hb hcov h₁ h₂ => ?_⟩
    obtain ⟨c, hc, h₃, h₄⟩ := hs.exists_le hb hcov
    rcases hs.eq_or_lt ha hc with rfl | h₅ | h₅
    · obtain ⟨bs, bf⟩ := b
      obtain rfl : bs = a.start := le_antisymm h₁ h₃
      obtain rfl : bf = a.finish := le_antisymm h₄ h₂
      rfl
    · exact absurd (h₃.trans h₁) (not_le.2 ((hlt a ha).trans h₅))
    · exact absurd (h₂.trans h₄) (not_le.2 (h₅.trans (hlt a ha)))
  · intro ha
    obtain ⟨c, hc, h₁, h₂⟩ := hs.exists_le ha.lt ha.inside
    rw [← ha.maximal c (hlt c hc) (fun t ht => ⟨c, hc, ht⟩) h₁ h₂]
    exact hc

end Separated

end covered

/-- The periods follow one another from `a` to `b`. -/
def Tiles (b : τ) : τ → List (Period τ) → Prop
  | a, [] => a = b
  | a, p :: l => p.start = a ∧ p.start < p.finish ∧ Tiles b p.finish l

section tiles

variable {a b c t : τ} {l : List (Period τ)} {p : Period τ}

theorem tiles_append {l' : List (Period τ)} : Tiles c a (l ++ l') ↔ ∃ b, Tiles b a l ∧ Tiles c b l' := by
  induction l generalizing a with
  | nil => simp [Tiles]
  | cons p l ih =>
    simp only [List.cons_append, Tiles, ih]
    constructor
    · rintro ⟨h₁, h₂, b, h₃, h₄⟩
      exact ⟨b, ⟨h₁, h₂, h₃⟩, h₄⟩
    · rintro ⟨b, ⟨h₁, h₂, h₃⟩, h₄⟩
      exact ⟨h₁, h₂, b, h₃, h₄⟩

theorem tiles_snoc : Tiles b a (l ++ [p]) ↔ Tiles p.start a l ∧ p.start < p.finish ∧ p.finish = b := by
  rw [tiles_append]
  constructor
  · rintro ⟨c, h₁, rfl, h₂, h₃⟩
    exact ⟨h₁, h₂, h₃⟩
  · rintro ⟨h₁, h₂, h₃⟩
    exact ⟨p.start, h₁, rfl, h₂, h₃⟩

namespace Tiles

theorem le (h : Tiles b a l) : a ≤ b := by
  induction l generalizing a with
  | nil => exact le_of_eq h
  | cons p l ih =>
    obtain ⟨rfl, hlt, h⟩ := h
    exact hlt.le.trans (ih h)

theorem within (h : Tiles b a l) (hp : p ∈ l) : a ≤ p.start ∧ p.start < p.finish ∧ p.finish ≤ b := by
  induction l generalizing a with
  | nil => exact absurd hp List.not_mem_nil
  | cons q l ih =>
    obtain ⟨rfl, hlt, h⟩ := h
    rcases List.mem_cons.1 hp with rfl | hp
    · exact ⟨le_rfl, hlt, h.le⟩
    · obtain ⟨h₁, h₂, h₃⟩ := ih h hp
      exact ⟨hlt.le.trans h₁, h₂, h₃⟩

end Tiles

end tiles

/-- The periods between neighbours of the points from `a` on. -/
def between : τ → List τ → List (Period τ)
  | _, [] => []
  | a, b :: points => ⟨a, b⟩ :: between b points

section between

variable {a b : τ} {points : List τ}

theorem le_of_mem_between (h : (a :: points).Pairwise (· < ·)) {p : Period τ}
    (hp : p ∈ between a points) : a ≤ p.start := by
  induction points generalizing a with
  | nil => exact absurd hp List.not_mem_nil
  | cons b points ih =>
    obtain ⟨ha, h⟩ := List.pairwise_cons.1 h
    rcases List.mem_cons.1 hp with rfl | hp
    · exact le_rfl
    · exact (ha b List.mem_cons_self).le.trans (ih h hp)

/-- Between two neighbours there is no other point. -/
theorem between_apart (h : (a :: points).Pairwise (· < ·)) {p : Period τ} (hp : p ∈ between a points) {x : τ}
    (hx : x ∈ a :: points) : x ≤ p.start ∨ p.finish ≤ x := by
  induction points generalizing a with
  | nil => exact absurd hp List.not_mem_nil
  | cons b points ih =>
    obtain ⟨ha, hb⟩ := List.pairwise_cons.1 h
    rcases List.mem_cons.1 hx with rfl | hx
    · exact .inl (le_of_mem_between h hp)
    · rcases List.mem_cons.1 hp with rfl | hp
      · rcases List.mem_cons.1 hx with rfl | hx
        · exact .inr le_rfl
        · exact .inr ((List.pairwise_cons.1 hb).1 x hx).le
      · exact ih hb hp hx

theorem tiles_between (h : (a :: points).Pairwise (· < ·)) (hb : b ∈ a :: points)
    (hle : ∀ x ∈ a :: points, x ≤ b) : Tiles b a (between a points) := by
  induction points generalizing a with
  | nil => exact (List.mem_singleton.1 hb).symm
  | cons c points ih =>
    obtain ⟨ha, h⟩ := List.pairwise_cons.1 h
    have hac := ha c List.mem_cons_self
    refine ⟨rfl, hac, ih h ?_ fun x hx => hle x (List.mem_cons_of_mem _ hx)⟩
    rcases List.mem_cons.1 hb with rfl | hb
    · exact absurd hac (not_lt.2 (hle c (List.mem_cons_of_mem _ List.mem_cons_self)))
    · exact hb

end between

end Period

end GManager
