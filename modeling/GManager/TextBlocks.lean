import Mathlib.Data.List.Basic
import Mathlib.Data.Nat.Notation

/-!
# Blocks of a text that comes in pieces

A text whose blocks end with a blank line is read piece by piece: line ends are unified over all that is not
read yet, and complete blocks are cut off at the front. What is read does not depend on the pieces, not even
when a piece ends between the two characters of a line end.
-/

namespace GManager

/-- `replace(/\r\n/g, '\n')`. -/
def unixLines : List Char → List Char
  | '\r' :: '\n' :: cs => '\n' :: unixLines cs
  | c :: cs => c :: unixLines cs
  | [] => []

/-- What is before and after the first blank line. -/
def cutBlank : List Char → Option (List Char × List Char)
  | '\n' :: '\n' :: cs => some ([], cs)
  | c :: cs => (cutBlank cs).map (Prod.map (c :: ·) id)
  | [] => none

def cutBlocks : ℕ → List Char → List (List Char) × List Char
  | 0, text => ([], text)
  | n + 1, text =>
    match cutBlank text with
    | none => ([], text)
    | some (block, rest) => (block :: (cutBlocks n rest).1, (cutBlocks n rest).2)

/-- The complete blocks and what is left. -/
def blocksOf (text : List Char) : List (List Char) × List Char := cutBlocks text.length text

section cut

variable {x y b r l : List Char} {c : Char} {m n : ℕ}

theorem cutBlank_cons (h : c = '\n' → ∀ cs, x ≠ '\n' :: cs) :
    cutBlank (c :: x) = (cutBlank x).map (Prod.map (c :: ·) id) := by
  rw [cutBlank]
  exact fun cs hc hx => h hc cs hx

theorem eq_of_cutBlank (h : cutBlank x = some (b, r)) : x = b ++ '\n' :: '\n' :: r := by
  fun_induction cutBlank x generalizing b r with
  | case1 cs =>
    cases h
    rfl
  | case2 c cs hne ih =>
    obtain ⟨⟨b', r'⟩, hcut, heq⟩ := Option.map_eq_some_iff.1 h
    cases heq
    rw [ih hcut]
    rfl
  | case3 => cases h

/-- A first block is cut off whatever follows it. -/
theorem cutBlank_of_cutBlank (h : cutBlank x = some (b, r)) :
    cutBlank (b ++ '\n' :: '\n' :: y) = some (b, y) := by
  fun_induction cutBlank x generalizing b r with
  | case1 cs =>
    cases h
    rfl
  | case2 c cs hne ih =>
    obtain ⟨⟨b', r'⟩, hcut, heq⟩ := Option.map_eq_some_iff.1 h
    cases heq
    change cutBlank (c :: (b' ++ _)) = some (c :: b', y)
    rw [cutBlank_cons, ih hcut]
    · rfl
    · rintro rfl cs' hcs
      refine hne (cs.drop 1) rfl ?_
      rw [eq_of_cutBlank hcut]
      cases b' with
      | nil => rfl
      | cons d b' => simp_all
  | case3 => cases h

theorem length_of_cutBlank (h : cutBlank x = some (b, r)) : r.length + 2 ≤ x.length := by
  rw [eq_of_cutBlank h]
  simp

/-- A line of the text before a blank line. -/
theorem cutBlank_line (h : '\n' ∉ l) : cutBlank (l ++ y) = (cutBlank y).map (Prod.map (l ++ ·) id) := by
  induction l with
  | nil => cases hy : cutBlank y <;> simp [hy, Prod.map]
  | cons c l ih =>
    have hc : c ≠ '\n' := fun hc => h (hc ▸ List.mem_cons_self)
    rw [List.cons_append, cutBlank_cons (fun heq => absurd heq hc), ih fun hm =>
      h (List.mem_cons_of_mem _ hm), Option.map_map]
    rfl

end cut

section blocks

variable {x y b r : List Char} {m n : ℕ}

theorem cutBlocks_eq (hn : x.length ≤ n) : cutBlocks n x = blocksOf x := by
  suffices ∀ m n, x.length ≤ m → x.length ≤ n → cutBlocks m x = cutBlocks n x from this _ _ hn (Nat.le_refl _)
  intro m
  induction m generalizing x with
  | zero =>
    intro n hm _
    obtain rfl := List.eq_nil_of_length_eq_zero (Nat.le_zero.1 hm)
    cases n <;> rfl
  | succ m ih =>
    intro n hm hn
    cases n with
    | zero =>
      obtain rfl := List.eq_nil_of_length_eq_zero (Nat.le_zero.1 hn)
      rfl
    | succ n =>
      simp only [cutBlocks]
      cases hcut : cutBlank x with
      | none => rfl
      | some p =>
        have hlen := length_of_cutBlank hcut
        have hrest : cutBlocks m p.2 = cutBlocks n p.2 := ih (by omega) n (by omega) (by omega)
        simp only [hrest]

theorem blocksOf_of_none (h : cutBlank x = none) : blocksOf x = ([], x) := by
  cases x with
  | nil => rfl
  | cons c x => simp only [blocksOf, List.length_cons, cutBlocks, h]

theorem blocksOf_of_some (h : cutBlank x = some (b, r)) :
    blocksOf x = (b :: (blocksOf r).1, (blocksOf r).2) := by
  have hlen := length_of_cutBlank h
  rw [← cutBlocks_eq (show x.length ≤ r.length + 1 + (x.length - r.length - 1) by omega)]
  rw [show r.length + 1 + (x.length - r.length - 1) = (x.length - 1) + 1 by omega]
  simp only [cutBlocks, h, cutBlocks_eq (show r.length ≤ x.length - 1 by omega)]

end blocks

/-- Every carriage return is followed by a line feed, or is the last character so far. -/
def CrPaired : List Char → Prop
  | '\r' :: c :: cs => c = '\n' ∧ CrPaired cs
  | _ :: cs => CrPaired cs
  | [] => True

/-- A carriage return is the last character. -/
def CrLast (x : List Char) : Prop := ∀ p q, x = p ++ '\r' :: q → q = []

section unix

variable {x y p b r : List Char} {c : Char}

theorem unixLines_cons (h : c ≠ '\r') : unixLines (c :: x) = c :: unixLines x := by
  rw [unixLines]
  exact fun cs hc _ => h hc

theorem crPaired_cons (h : c ≠ '\r') : CrPaired (c :: x) ↔ CrPaired x := by
  rw [CrPaired]
  exact fun d cs hc _ => h hc

theorem CrPaired.tail (h : CrPaired (c :: x)) : CrPaired x := by
  by_cases hc : c = '\r'
  · subst hc
    cases x with
    | nil => trivial
    | cons d x =>
      obtain ⟨rfl, h⟩ := h
      exact (crPaired_cons (by decide)).2 h
  · exact (crPaired_cons hc).1 h

theorem CrPaired.right (h : CrPaired (p ++ x)) : CrPaired x := by
  induction p with
  | nil => exact h
  | cons c p ih => exact ih (CrPaired.tail h)

theorem CrPaired.left (h : CrPaired (x ++ y)) : CrPaired x := by
  fun_induction CrPaired x with
  | case1 c cs ih => exact ⟨h.1, ih h.2⟩
  | case2 c cs hne ih => exact ih (CrPaired.tail h)
  | case3 => trivial

theorem unixLines_append_of_notMem (h : '\r' ∉ p) : unixLines (p ++ x) = p ++ unixLines x := by
  induction p with
  | nil => rfl
  | cons c p ih =>
    rw [List.cons_append, unixLines_cons (fun hc => h (hc ▸ List.mem_cons_self)), ih fun hm =>
      h (List.mem_cons_of_mem _ hm)]
    rfl

theorem crPaired_append_of_notMem (h : '\r' ∉ p) : CrPaired (p ++ x) ↔ CrPaired x := by
  induction p with
  | nil => rfl
  | cons c p ih =>
    rw [List.cons_append, crPaired_cons (fun hc => h (hc ▸ List.mem_cons_self)), ih fun hm =>
      h (List.mem_cons_of_mem _ hm)]

/-- Line ends may be unified before the rest of the text is there. -/
theorem unixLines_unixLines_append (h : CrPaired (x ++ y)) :
    unixLines (unixLines x ++ y) = unixLines (x ++ y) ∧ CrPaired (unixLines x ++ y) := by
  fun_induction unixLines x with
  | case1 cs ih =>
    obtain ⟨h₁, h₂⟩ := ih h.2
    refine ⟨?_, ?_⟩
    · rw [List.cons_append, unixLines_cons (by decide), h₁]
      rfl
    · rw [List.cons_append, crPaired_cons (by decide)]
      exact h₂
  | case2 c cs hne ih =>
    by_cases hc : c = '\r'
    · subst hc
      cases cs with
      | nil => exact ⟨rfl, h⟩
      | cons d cs =>
        obtain ⟨rfl, -⟩ := h
        exact absurd rfl (hne cs rfl)
    · rw [List.cons_append, crPaired_cons hc] at h
      obtain ⟨h₁, h₂⟩ := ih h
      refine ⟨?_, ?_⟩
      · rw [List.cons_append, List.cons_append, unixLines_cons hc, unixLines_cons hc, h₁]
      · rw [List.cons_append, crPaired_cons hc]
        exact h₂
  | case3 => exact ⟨rfl, h⟩

theorem crLast_unixLines (h : CrPaired x) : CrLast (unixLines x) := by
  fun_induction unixLines x with
  | case1 cs ih =>
    rintro (_ | ⟨d, p⟩) q heq
    · cases heq
    · exact ih h.2 p q (List.cons.inj heq).2
  | case2 c cs hne ih =>
    by_cases hc : c = '\r'
    · subst hc
      cases cs with
      | nil =>
        rintro (_ | ⟨d, p⟩) q heq
        · exact (List.cons.inj heq).2.symm
        · exact absurd (List.cons.inj heq).2.symm (by simp [unixLines])
      | cons d cs =>
        obtain ⟨rfl, -⟩ := h
        exact absurd rfl (hne cs rfl)
    · rintro (_ | ⟨d, p⟩) q heq
      · exact absurd (List.cons.inj heq).1 hc
      · exact ih ((crPaired_cons hc).1 h) p q (List.cons.inj heq).2
  | case3 =>
    rintro p q heq
    exact absurd heq.symm (by simp)

theorem CrLast.right (h : CrLast (p ++ x)) : CrLast x :=
  fun q r heq => h (p ++ q) r (by rw [heq, List.append_assoc])

/-- No carriage return is in a block, since something comes after it. -/
theorem CrLast.notMem (h : CrLast (p ++ c :: x)) : '\r' ∉ p := by
  intro hm
  obtain ⟨s, t, rfl⟩ := List.append_of_mem hm
  exact absurd (h s (t ++ c :: x) (by simp)) (by simp)

theorem CrLast.unixLines_eq (h : CrLast x) : unixLines x = x := by
  fun_induction unixLines x with
  | case1 cs ih => exact absurd (h [] ('\n' :: cs) rfl) (by simp)
  | case2 c cs hne ih => rw [ih (h.right (p := [c]))]
  | case3 => rfl

/-- Complete blocks are cut off before the rest of the text is there. -/
theorem blocksOf_append (h : CrLast x) : blocksOf (unixLines (x ++ y)) =
    ((blocksOf x).1 ++ (blocksOf (unixLines ((blocksOf x).2 ++ y))).1,
      (blocksOf (unixLines ((blocksOf x).2 ++ y))).2) := by
  induction hn : x.length using Nat.strongRecOn generalizing x with
  | _ n ih =>
    cases hcut : cutBlank x with
    | none => rw [blocksOf_of_none hcut, List.nil_append]
    | some br =>
      obtain ⟨b, r⟩ := br
      have heq := eq_of_cutBlank hcut
      have hlen := length_of_cutBlank hcut
      have hr : CrLast r := (heq ▸ h : CrLast (b ++ '\n' :: '\n' :: r)).right.right (p := ['\n', '\n'])
      have hb : '\r' ∉ b := (heq ▸ h : CrLast (b ++ '\n' :: '\n' :: r)).notMem
      have hcut' : cutBlank (unixLines (x ++ y)) = some (b, unixLines (r ++ y)) := by
        rw [heq, List.append_assoc, unixLines_append_of_notMem hb, List.cons_append,
          unixLines_cons (by decide), List.cons_append, unixLines_cons (by decide)]
        exact cutBlank_of_cutBlank hcut
      rw [blocksOf_of_some hcut', blocksOf_of_some hcut, ih r.length (by omega) hr rfl]
      rfl

theorem exists_append_blocksOf (x : List Char) : ∃ p, x = p ++ (blocksOf x).2 := by
  induction hn : x.length using Nat.strongRecOn generalizing x with
  | _ n ih =>
    cases hcut : cutBlank x with
    | none => exact ⟨[], by rw [blocksOf_of_none hcut, List.nil_append]⟩
    | some br =>
      have hlen := length_of_cutBlank hcut
      obtain ⟨p, hp⟩ := ih br.2.length (by omega) br.2 rfl
      refine ⟨br.1 ++ '\n' :: '\n' :: p, ?_⟩
      rw [blocksOf_of_some hcut, List.append_assoc, List.cons_append, List.cons_append, ← hp]
      exact eq_of_cutBlank hcut

theorem cutBlank_blocksOf (x : List Char) : cutBlank (blocksOf x).2 = none := by
  induction hn : x.length using Nat.strongRecOn generalizing x with
  | _ n ih =>
    cases hcut : cutBlank x with
    | none => rwa [blocksOf_of_none hcut]
    | some br =>
      have hlen := length_of_cutBlank hcut
      rw [blocksOf_of_some hcut]
      exact ih br.2.length (by omega) br.2 rfl

theorem CrLast.blocksOf (h : CrLast x) : CrLast (blocksOf x).2 := by
  obtain ⟨p, hp⟩ := exists_append_blocksOf x
  rw [hp] at h
  exact h.right

end unix

/-- The blocks of the pieces, read one after the other. -/
def readPieces : List Char → List (List Char) → List (List Char)
  | _, [] => []
  | buffer, t :: ts => (blocksOf (unixLines (buffer ++ t))).1 ++
      readPieces (blocksOf (unixLines (buffer ++ t))).2 ts

/-- The blocks are those of the whole text. -/
theorem readPieces_eq {buffer : List Char} {ts : List (List Char)} (hcut : cutBlank buffer = none)
    (hlast : CrLast buffer) (h : CrPaired (buffer ++ ts.flatten)) :
    readPieces buffer ts = (blocksOf (unixLines (buffer ++ ts.flatten))).1 := by
  induction ts generalizing buffer with
  | nil => rw [List.flatten_nil, List.append_nil, hlast.unixLines_eq, blocksOf_of_none hcut, readPieces]
  | cons t ts ih =>
    rw [List.flatten_cons, ← List.append_assoc] at h ⊢
    obtain ⟨heq, hpaired⟩ := unixLines_unixLines_append h
    have hlast' := crLast_unixLines h.left
    obtain ⟨p, hp⟩ := exists_append_blocksOf (unixLines (buffer ++ t))
    rw [hp, List.append_assoc] at hpaired
    rw [readPieces, ih (cutBlank_blocksOf _) hlast'.blocksOf hpaired.right, ← heq, blocksOf_append hlast']

end GManager
