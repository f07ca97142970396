import Mathlib.Data.List.Basic
import Mathlib.Data.String.Basic
import Mathlib.Order.Defs.LinearOrder

/-!
# Texts in code units

The strings of the server and of the browser are lists of UTF-16 code units, and not every list is the
encoding of characters: a surrogate may stand alone. `characters` reads a list with a question mark for each
surrogate that is not part of a pair, and `written` is the list that is left of it; they forget the same of
a text (`characters_eq_iff`), and both can be taken part by part wherever the second part does not start
with the second half of a pair.
-/

namespace GManager

abbrev CodeUnit := UInt16

def unit (c : Char) : CodeUnit := c.val.toUInt16

def units (s : String) : List CodeUnit := s.toList.map unit

namespace CodeUnit

/-- The order of `compareTo`. -/
instance : LinearOrder CodeUnit where
  le := (· ≤ ·)
  lt := (· < ·)
  le_refl := UInt16.le_refl
  le_trans _ _ _ := UInt16.le_trans
  le_antisymm _ _ := UInt16.le_antisymm
  le_total := UInt16.le_total
  lt_iff_le_not_ge a b := by
    rw [UInt16.lt_iff_toNat_lt, UInt16.le_iff_toNat_le, UInt16.le_iff_toNat_le]
    omega
  toDecidableLE := inferInstance
  toDecidableEq := inferInstance
  toDecidableLT := inferInstance

instance : LawfulBEq CodeUnit := inferInstance

/-- The first half of a pair. -/
def IsHigh (c : CodeUnit) : Prop := 0xD800 ≤ c.toNat ∧ c.toNat < 0xDC00

/-- The second half of a pair. -/
def IsLow (c : CodeUnit) : Prop := 0xDC00 ≤ c.toNat ∧ c.toNat < 0xE000

def IsSurrogate (c : CodeUnit) : Prop := 0xD800 ≤ c.toNat ∧ c.toNat < 0xE000

instance : DecidablePred IsHigh := fun _ => inferInstanceAs (Decidable (_ ∧ _))

instance : DecidablePred IsLow := fun _ => inferInstanceAs (Decidable (_ ∧ _))

instance : DecidablePred IsSurrogate := fun _ => inferInstanceAs (Decidable (_ ∧ _))

/-- The code unit by itself. -/
def plain (c : CodeUnit) : CodeUnit := if c.IsSurrogate then unit '?' else c

/-- The character of the code unit by itself. -/
def single (c : CodeUnit) : Char := Char.ofNat c.plain.toNat

/-- The character of a pair. -/
def pair (c d : CodeUnit) : Char := Char.ofNat (0x10000 + (c.toNat - 0xD800) * 0x400 + (d.toNat - 0xDC00))

theorem IsHigh.surrogate {c : CodeUnit} (h : c.IsHigh) : c.IsSurrogate := ⟨h.1, by have := h.2; omega⟩

theorem IsLow.surrogate {c : CodeUnit} (h : c.IsLow) : c.IsSurrogate := ⟨by have := h.1; omega, h.2⟩

theorem IsLow.not_high {c : CodeUnit} (h : c.IsLow) : ¬ c.IsHigh :=
  fun hh => absurd h.1 (by have := hh.2; omega)

theorem plain_of_not {c : CodeUnit} (h : ¬ c.IsSurrogate) : c.plain = c := if_neg h

theorem plain_not_surrogate (c : CodeUnit) : ¬ c.plain.IsSurrogate := by
  unfold plain
  split
  · decide
  · assumption

@[simp] theorem plain_plain (c : CodeUnit) : c.plain.plain = c.plain := plain_of_not c.plain_not_surrogate

end CodeUnit

open CodeUnit

/-- The characters that `getBytes` encodes. -/
def characters : List CodeUnit → List Char
  | [] => []
  | [c] => [c.single]
  | c :: d :: s => if c.IsHigh ∧ d.IsLow then c.pair d :: characters s else c.single :: characters (d :: s)

/-- The text that is left: a question mark for each surrogate that is not part of a pair. -/
def written : List CodeUnit → List CodeUnit
  | [] => []
  | [c] => [c.plain]
  | c :: d :: s => if c.IsHigh ∧ d.IsLow then c :: d :: written s else c.plain :: written (d :: s)

/-- `getBytes(StandardCharsets.UTF_8)`. -/
def getBytes (s : List CodeUnit) : ByteArray := (String.ofList (characters s)).toUTF8

/-- The code units of a character. -/
def utf16 (c : Char) : List CodeUnit :=
  if c.toNat < 0x10000 then [UInt16.ofNat c.toNat]
  else [UInt16.ofNat (0xD800 + (c.toNat - 0x10000) / 0x400),
    UInt16.ofNat (0xDC00 + (c.toNat - 0x10000) % 0x400)]

section

variable {c d : CodeUnit} {s s' : List CodeUnit}

theorem toNat_ofNat {n : ℕ} (h : n.isValidChar) : (Char.ofNat n).toNat = n := by
  rw [Char.ofNat, dif_pos h]
  rfl

theorem CodeUnit.toNat_single (c : CodeUnit) : c.single.toNat = c.plain.toNat := by
  refine toNat_ofNat ?_
  have hlt : c.plain.toNat < 65536 := c.plain.toNat_lt
  have hnot := c.plain_not_surrogate
  unfold IsSurrogate at hnot
  unfold Nat.isValidChar
  omega

theorem CodeUnit.toNat_pair (hc : c.IsHigh) (hd : d.IsLow) :
    (c.pair d).toNat = 0x10000 + (c.toNat - 0xD800) * 0x400 + (d.toNat - 0xDC00) := by
  refine toNat_ofNat ?_
  unfold IsHigh at hc
  unfold IsLow at hd
  unfold Nat.isValidChar
  omega

theorem utf16_single (c : CodeUnit) : utf16 c.single = [c.plain] := by
  have hlt : c.plain.toNat < 65536 := c.plain.toNat_lt
  rw [utf16, c.toNat_single, if_pos hlt, UInt16.ofNat_toNat]

theorem utf16_pair (hc : c.IsHigh) (hd : d.IsLow) : utf16 (c.pair d) = [c, d] := by
  unfold utf16
  rw [CodeUnit.toNat_pair hc hd]
  unfold IsHigh at hc
  unfold IsLow at hd
  rw [if_neg (by omega)]
  have hhigh : 0xD800 + (0x10000 + (c.toNat - 0xD800) * 0x400 + (d.toNat - 0xDC00) - 0x10000) /
      0x400 = c.toNat := by omega
  have hlow : 0xDC00 + (0x10000 + (c.toNat - 0xD800) * 0x400 + (d.toNat - 0xDC00) - 0x10000) %
      0x400 = d.toNat := by omega
  rw [hhigh, hlow, UInt16.ofNat_toNat, UInt16.ofNat_toNat]

theorem characters_cons (h : ¬ c.IsHigh) (s : List CodeUnit) :
    characters (c :: s) = c.single :: characters s := by
  cases s with
  | nil => rfl
  | cons d s => rw [characters, if_neg fun hp => h hp.1]

theorem written_cons (h : ¬ c.IsHigh) (s : List CodeUnit) : written (c :: s) = c.plain :: written s := by
  cases s with
  | nil => rfl
  | cons d s => rw [written, if_neg fun hp => h hp.1]

theorem written_cons_of_not (h : ¬ c.IsSurrogate) (s : List CodeUnit) :
    written (c :: s) = c :: written s := by
  rw [written_cons fun hh => h hh.surrogate, plain_of_not h]

theorem written_ne_nil (c : CodeUnit) (s : List CodeUnit) : written (c :: s) ≠ [] := by
  cases s with
  | nil => simp [written]
  | cons d s =>
    rw [written]
    split <;> simp

theorem written_eq (s : List CodeUnit) : written s = (characters s).flatMap utf16 := by
  fun_induction written s with
  | case1 => rfl
  | case2 c => simp [characters, utf16_single]
  | case3 c d s h ih =>
    rw [characters, if_pos h, List.flatMap_cons, utf16_pair h.1 h.2, ih]
    rfl
  | case4 c d s h ih =>
    rw [characters, if_neg h, List.flatMap_cons, utf16_single, ih]
    rfl

theorem characters_written (s : List CodeUnit) : characters (written s) = characters s := by
  have hplain : ∀ (c : CodeUnit) s, characters (c.plain :: s) = c.single :: characters s := fun c s => by
    rw [characters_cons fun hh => c.plain_not_surrogate hh.surrogate, single, plain_plain, ← single]
  fun_induction written s with
  | case1 => rfl
  | case2 c => exact hplain c []
  | case3 c d s h ih => rw [characters, characters, if_pos h, if_pos h, ih]
  | case4 c d s h ih => rw [hplain, ih, characters, if_neg h]

/-- The two forget the same. -/
theorem characters_eq_iff : characters s = characters s' ↔ written s = written s' := by
  constructor
  · intro h
    rw [written_eq, h, ← written_eq]
  · intro h
    rw [← characters_written s, h, characters_written]

theorem getBytes_eq_iff : getBytes s = getBytes s' ↔ written s = written s' := by
  rw [← characters_eq_iff]
  exact ⟨fun h => String.ofList_injective (String.toByteArray_inj.1 h), congrArg fun cs =>
    (String.ofList cs).toUTF8⟩

theorem unit_inj {c d : Char} (hc : c.toNat < 65536) (hd : d.toNat < 65536)
    (h : unit c = unit d) : c = d := by
  have hnat := congrArg UInt16.toNat h
  simp only [unit, UInt32.toNat_toUInt16, Char.toNat_val] at hnat
  refine Char.toNat_inj.1 ?_
  omega

theorem map_unit_inj {s t : List Char} (hs : ∀ c ∈ s, c.toNat < 65536) (ht : ∀ c ∈ t, c.toNat < 65536)
    (h : s.map unit = t.map unit) : s = t := by
  induction s generalizing t with
  | nil => exact (List.map_eq_nil_iff.1 h.symm).symm
  | cons c s ih =>
    cases t with
    | nil => cases h
    | cons d t =>
      obtain ⟨hcd, hst⟩ := List.cons.inj h
      rw [unit_inj (hs c List.mem_cons_self) (ht d List.mem_cons_self) hcd,
        ih (fun x hx => hs x (List.mem_cons_of_mem _ hx)) (fun x hx => ht x (List.mem_cons_of_mem _ hx)) hst]

/-- A text may be taken apart before whatever does not complete a pair. -/
theorem written_append (h : ∀ c ∈ s'.head?, ¬ c.IsLow) : written (s ++ s') = written s ++ written s' := by
  fun_induction written s with
  | case1 => rfl
  | case2 c =>
    cases s' with
    | nil => rfl
    | cons d s' =>
      have hd : ¬ d.IsLow := h d rfl
      exact if_neg fun hp => hd hp.2
  | case3 c d s hp ih => simp [written, hp, ih]
  | case4 c d s hp ih => simpa [written, hp] using ih

theorem written_of_plain (h : ∀ c ∈ s, ¬ c.IsSurrogate) : written s = s := by
  induction s with
  | nil => rfl
  | cons c s ih =>
    rw [written_cons_of_not (h c List.mem_cons_self), ih fun d hd => h d (List.mem_cons_of_mem _ hd)]

end

end GManager
