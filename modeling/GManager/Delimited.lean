import Mathlib.Data.List.Forall2
import Mathlib.Data.List.Basic

/-!
# Printed texts that can be told from what follows

Whether a printer loses nothing is decided in context: what it prints is followed by separators,
closing brackets and other texts. `Cuts` says that a text can be cut off the front of a stream
whose rest does not continue it, that is, starts with none of the symbols `inner` to a token. Words
of inner symbols are cut off, and so are lists of texts that are, with separators between them.
-/

namespace GManager

variable {σ α : Type*} {inner : σ → Prop} {print : α → List σ} {same : α → α → Prop} {dom : α → Prop}

/-- `rest` does not continue a token. -/
def Ends (inner : σ → Prop) (rest : List σ) : Prop := ∀ c ∈ rest.head?, ¬ inner c

theorem Ends.nil : Ends inner [] := by simp [Ends]

theorem Ends.cons {c : σ} {rest : List σ} (hc : ¬ inner c) : Ends inner (c :: rest) := by
  simpa [Ends] using hc

/-- `x` as printed tells `x`, up to `same`, and where the printed text ends. -/
def Cuts (inner : σ → Prop) (print : α → List σ) (same : α → α → Prop) (dom : α → Prop) (x : α) : Prop :=
  ∀ y rest rest', dom y → Ends inner rest → Ends inner rest' →
    print x ++ rest = print y ++ rest' → same x y ∧ rest = rest'

/-- Two words of inner symbols, cut off two streams that are the same. -/
theorem Ends.word {w w' rest rest' : List σ} (hw : ∀ c ∈ w, inner c) (hw' : ∀ c ∈ w', inner c)
    (hr : Ends inner rest) (hr' : Ends inner rest') (h : w ++ rest = w' ++ rest') :
    w = w' ∧ rest = rest' := by
  induction w generalizing w' with
  | nil =>
    cases w' with
    | nil => exact ⟨rfl, h⟩
    | cons c w' =>
      simp only [List.nil_append, List.cons_append] at h
      exact absurd (hw' c List.mem_cons_self) (hr c (by simp [h]))
  | cons c w ih =>
    cases w' with
    | nil =>
      simp only [List.nil_append, List.cons_append] at h
      exact absurd (hw c List.mem_cons_self) (hr' c (by simp [← h]))
    | cons c' w' =>
      simp only [List.cons_append, List.cons.injEq] at h
      obtain ⟨rfl, h⟩ := h
      obtain ⟨rfl, hrest⟩ := ih (fun c hc => hw c (List.mem_cons_of_mem _ hc))
        (fun c hc => hw' c (List.mem_cons_of_mem _ hc)) h
      exact ⟨rfl, hrest⟩

/-! ## Lists with separators -/

theorem intercalate_cons (sep : σ) (t : List σ) (ts : List (List σ)) :
    [sep].intercalate (t :: ts) = t ++ ts.flatMap (sep :: ·) := by
  induction ts generalizing t with
  | nil => simp
  | cons t' ts ih =>
    rw [List.intercalate_cons_cons, ih t']
    simp

theorem Ends.flatMap {sep close : σ} (hsep : ¬ inner sep) (hclose : ¬ inner close) (ts : List (List σ))
    (rest : List σ) : Ends inner (ts.flatMap (sep :: ·) ++ close :: rest) := by
  cases ts with
  | nil => exact Ends.cons hclose
  | cons t ts => exact Ends.cons hsep

theorem Cuts.flatMap {sep close : σ} (hsep : ¬ inner sep) (hclose : ¬ inner close) (hne : sep ≠ close)
    {xs ys : List α} (hx : ∀ x ∈ xs, Cuts inner print same dom x) (hy : ∀ y ∈ ys, dom y)
    {rest rest' : List σ}
    (h : (xs.map print).flatMap (sep :: ·) ++ close :: rest =
      (ys.map print).flatMap (sep :: ·) ++ close :: rest') :
    List.Forall₂ same xs ys ∧ rest = rest' := by
  induction xs generalizing ys with
  | nil =>
    cases ys with
    | nil => exact ⟨.nil, by simpa using h⟩
    | cons y ys =>
      simp only [List.map_nil, List.flatMap_nil, List.nil_append, List.map_cons, List.flatMap_cons,
        List.cons_append, List.cons.injEq] at h
      exact absurd h.1.symm hne
  | cons x xs ih =>
    cases ys with
    | nil =>
      simp only [List.map_nil, List.flatMap_nil, List.nil_append, List.map_cons, List.flatMap_cons,
        List.cons_append, List.cons.injEq] at h
      exact absurd h.1 hne
    | cons y ys =>
      simp only [List.map_cons, List.flatMap_cons, List.cons_append, List.append_assoc,
        List.cons.injEq, true_and] at h
      obtain ⟨hsame, h⟩ := hx x List.mem_cons_self y _ _ (hy y List.mem_cons_self)
        (Ends.flatMap hsep hclose _ _) (Ends.flatMap hsep hclose _ _) h
      obtain ⟨hall, hrest⟩ := ih (fun x hx' => hx x (List.mem_cons_of_mem _ hx'))
        (fun y hy' => hy y (List.mem_cons_of_mem _ hy')) h
      exact ⟨.cons hsame hall, hrest⟩

/-- Texts printed with separators between them and a closing symbol behind the last, where no text
starts with the closing symbol. -/
theorem Cuts.intercalate {sep close : σ} (hsep : ¬ inner sep) (hclose : ¬ inner close) (hne : sep ≠ close)
    (hstart : ∀ y, dom y → ∃ c s, print y = c :: s ∧ c ≠ close)
    {xs ys : List α} (hx : ∀ x ∈ xs, Cuts inner print same dom x) (hdom : ∀ x ∈ xs, dom x)
    (hy : ∀ y ∈ ys, dom y) {rest rest' : List σ}
    (h : [sep].intercalate (xs.map print) ++ close :: rest =
      [sep].intercalate (ys.map print) ++ close :: rest') :
    List.Forall₂ same xs ys ∧ rest = rest' := by
  cases xs with
  | nil =>
    cases ys with
    | nil => exact ⟨.nil, by simpa using h⟩
    | cons y ys =>
      obtain ⟨c, s, hp, hc⟩ := hstart y (hy y List.mem_cons_self)
      rw [List.map_cons, intercalate_cons, hp] at h
      simp only [List.map_nil, List.intercalate_nil, List.nil_append, List.cons_append,
        List.cons.injEq] at h
      exact absurd h.1.symm hc
  | cons x xs =>
    cases ys with
    | nil =>
      obtain ⟨c, s, hp, hc⟩ := hstart x (hdom x List.mem_cons_self)
      rw [List.map_cons, intercalate_cons, hp] at h
      simp only [List.map_nil, List.intercalate_nil, List.nil_append, List.cons_append,
        List.cons.injEq] at h
      exact absurd h.1 hc
    | cons y ys =>
      rw [List.map_cons, List.map_cons, intercalate_cons, intercalate_cons, List.append_assoc,
        List.append_assoc] at h
      obtain ⟨hsame, h⟩ := hx x List.mem_cons_self y _ _ (hy y List.mem_cons_self)
        (Ends.flatMap hsep hclose _ _) (Ends.flatMap hsep hclose _ _) h
      obtain ⟨hall, hrest⟩ := Cuts.flatMap hsep hclose hne
        (fun x hx' => hx x (List.mem_cons_of_mem _ hx')) (fun y hy' => hy y (List.mem_cons_of_mem _ hy')) h
      exact ⟨.cons hsame hall, hrest⟩

theorem forall₂_exists {R : α → α → Prop} {xs ys : List α} (h : List.Forall₂ R xs ys) {x : α} (hx : x ∈ xs) :
    ∃ y ∈ ys, R x y := by
  induction h with
  | nil => cases hx
  | cons hR _ ih =>
    rcases List.mem_cons.1 hx with rfl | hx
    · exact ⟨_, List.mem_cons_self, hR⟩
    · obtain ⟨y, hy, hxy⟩ := ih hx
      exact ⟨y, List.mem_cons_of_mem _ hy, hxy⟩

end GManager
