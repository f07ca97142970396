import Mathlib.Algebra.Order.Field.Rat
import Mathlib.Data.List.TakeWhile
import Mathlib.Data.Rat.Cast.Order
import Mathlib.Tactic.NormNum
import Mathlib.Tactic.Ring
import Mathlib.Tactic.Zify

/-!
# Decimal numbers in plain notation

A `BigDecimal` is an unscaled integer and a decimal scale, and many of them stand for one number:
`1`, `1.0` and `1e0` differ in the scale. `stripTrailingZeros` picks one of them and
`toPlainString` writes it without an exponent. What is written can be read back, so it is the same
text exactly for the same number (`plain_eq_iff`).
-/

namespace GManager

/-- The number `unscaled * 10 ^ (-scale)`. -/
structure BigDecimal where
  unscaled : ℤ
  scale : ℤ
deriving DecidableEq, Repr

namespace BigDecimal

def value (d : BigDecimal) : ℚ := d.unscaled * 10 ^ (-d.scale)

def signum (d : BigDecimal) : ℤ := d.unscaled.sign

/-! ## Stripping zeros -/

def strip (unscaled scale : ℤ) : BigDecimal :=
  if unscaled ≠ 0 ∧ unscaled % 10 = 0 then strip (unscaled / 10) (scale - 1) else ⟨unscaled, scale⟩
termination_by unscaled.natAbs
decreasing_by omega

def stripTrailingZeros (d : BigDecimal) : BigDecimal :=
  if d.unscaled = 0 then ⟨0, 0⟩ else strip d.unscaled d.scale

theorem strip_value (u s : ℤ) : (strip u s).value = (⟨u, s⟩ : BigDecimal).value := by
  fun_induction strip u s with
  | case1 u s h ih =>
    have hu : (u : ℚ) = (u / 10 : ℤ) * 10 := by
      have : u = u / 10 * 10 := by omega
      exact_mod_cast this
    have hs : (10 : ℚ) ^ (-(s - 1)) = 10 * 10 ^ (-s) := by
      rw [show -(s - 1) = 1 + -s by omega, zpow_add₀ (by norm_num)]
      norm_num
    rw [ih]
    simp only [value, hs]
    rw [hu]
    ring
  | case2 u s h => rfl

/-- A stripped number has no trailing zero left, and zero strips to nothing else. -/
theorem strip_mod (u s : ℤ) (hu : u ≠ 0) : (strip u s).unscaled % 10 ≠ 0 := by
  fun_induction strip u s with
  | case1 u s h ih => exact ih (by omega)
  | case2 u s h =>
    intro h0
    exact h ⟨hu, h0⟩

theorem stripTrailingZeros_value (d : BigDecimal) : d.stripTrailingZeros.value = d.value := by
  unfold stripTrailingZeros
  split
  · next h => simp [value, h]
  · exact strip_value ..

theorem value_eq_zero {d : BigDecimal} : d.value = 0 ↔ d.unscaled = 0 := by
  simp [value, zpow_ne_zero]

/-- Two numbers without trailing zeros that stand for one value are the same. -/
theorem scale_le_of_value {d e : BigDecimal} (he : e.unscaled % 10 ≠ 0) (h : d.value = e.value)
    (hs : d.scale ≤ e.scale) : d = e := by
  obtain ⟨k, hk⟩ := Int.eq_ofNat_of_zero_le (sub_nonneg.2 hs)
  have hpow : (10 : ℚ) ^ (-d.scale) = 10 ^ k * 10 ^ (-e.scale) := by
    rw [show -d.scale = (k : ℤ) + -e.scale by omega, zpow_add₀ (by norm_num), zpow_natCast]
  have heq : d.unscaled * 10 ^ k = e.unscaled := by
    have hne : (10 : ℚ) ^ (-e.scale) ≠ 0 := zpow_ne_zero _ (by norm_num)
    have : (d.unscaled * 10 ^ k : ℚ) = e.unscaled := by
      apply mul_right_cancel₀ hne
      rw [mul_assoc, ← hpow]
      exact h
    exact_mod_cast this
  cases k with
  | zero =>
    obtain ⟨du, ds⟩ := d
    obtain ⟨eu, es⟩ := e
    simp only [pow_zero, mul_one] at heq hk
    simp only [mk.injEq]
    omega
  | succ k =>
    refine absurd ?_ he
    rw [← heq, pow_succ, ← mul_assoc]
    exact Int.mul_emod_left ..

theorem stripTrailingZeros_eq {d e : BigDecimal} (h : d.value = e.value) :
    d.stripTrailingZeros = e.stripTrailingZeros := by
  have hd := d.stripTrailingZeros_value
  have he := e.stripTrailingZeros_value
  by_cases h0 : d.unscaled = 0
  · have h1 : e.unscaled = 0 := value_eq_zero.1 (h ▸ value_eq_zero.2 h0)
    simp [stripTrailingZeros, h0, h1]
  · have h1 : e.unscaled ≠ 0 := fun h1 => h0 (value_eq_zero.1 (h.trans (value_eq_zero.2 h1)))
    have hmd : d.stripTrailingZeros.unscaled % 10 ≠ 0 := by
      simpa [stripTrailingZeros, h0] using strip_mod d.unscaled d.scale h0
    have hme : e.stripTrailingZeros.unscaled % 10 ≠ 0 := by
      simpa [stripTrailingZeros, h1] using strip_mod e.unscaled e.scale h1
    have hv : d.stripTrailingZeros.value = e.stripTrailingZeros.value := by rw [hd, he, h]
    rcases le_total d.stripTrailingZeros.scale e.stripTrailingZeros.scale with hs | hs
    · exact scale_le_of_value hme hv hs
    · exact (scale_le_of_value hmd hv.symm hs).symm

/-! ## Plain notation -/

def sign (d : BigDecimal) : List Char := if d.unscaled < 0 then ['-'] else []

def digits (d : BigDecimal) : List Char := Nat.toDigits 10 d.unscaled.natAbs

/-- `getValueString`: the digits with the point put in, behind zeros where there are too few. -/
def getValueString (d : BigDecimal) : List Char :=
  let insertionPoint := (d.digits.length : ℤ) - d.scale
  if insertionPoint = 0 then
    d.sign ++ ['0'] ++ '.' :: d.digits
  else if 0 < insertionPoint then
    d.sign ++ d.digits.take insertionPoint.toNat ++ '.' :: d.digits.drop insertionPoint.toNat
  else
    d.sign ++ ['0'] ++ '.' :: (List.replicate (-insertionPoint).toNat '0' ++ d.digits)

def toPlainString (d : BigDecimal) : List Char :=
  if d.scale = 0 then d.sign ++ d.digits
  else if d.scale < 0 then
    if d.signum = 0 then ['0'] else d.sign ++ (d.digits ++ List.replicate (-d.scale).toNat '0')
  else d.getValueString

/-- What the hasher writes for a number. -/
def plain (d : BigDecimal) : List Char :=
  let value := d.stripTrailingZeros
  if value.signum = 0 then ['0'] else value.toPlainString

/-! ## Reading a number back -/

def IsNumeric (c : Char) : Prop := c.isDigit = true ∨ c = '-' ∨ c = '.'

instance : DecidablePred IsNumeric := fun _ => inferInstanceAs (Decidable (_ ∨ _))

def AllDigits (s : List Char) : Prop := ∀ c ∈ s, c.isDigit = true

/-- The number a plain text denotes: its digits, divided by ten for each digit behind the point. -/
def reading (s : List Char) : ℚ :=
  (if '-' ∈ s then -1 else 1) * Nat.ofDigitChars 10 (s.filter Char.isDigit) 0 /
    10 ^ ((s.dropWhile (· ≠ '.')).length - 1)

theorem allDigits_digits (d : BigDecimal) : AllDigits d.digits :=
  fun _ hc => Nat.isDigit_of_mem_toDigits (by decide) (by decide) hc

theorem AllDigits.append {s t : List Char} (hs : AllDigits s) (ht : AllDigits t) :
    AllDigits (s ++ t) := by
  intro c hc
  rcases List.mem_append.1 hc with h | h
  · exact hs c h
  · exact ht c h

theorem allDigits_replicate (n : ℕ) : AllDigits (List.replicate n '0') := by
  intro c hc
  rw [List.eq_of_mem_replicate hc]
  rfl

theorem AllDigits.filter {s : List Char} (hs : AllDigits s) : s.filter Char.isDigit = s :=
  List.filter_eq_self.2 hs

theorem AllDigits.minus {s : List Char} (hs : AllDigits s) : '-' ∉ s := by
  intro h
  have := hs _ h
  simp at this

theorem AllDigits.point {s : List Char} (hs : AllDigits s) : ∀ c ∈ s, (decide (c ≠ '.')) = true := by
  intro c hc
  have h := hs c hc
  simp only [ne_eq, decide_not, Bool.not_eq_eq_eq_not, Bool.not_true, decide_eq_false_iff_not]
  rintro rfl
  simp at h

theorem mem_sign {d : BigDecimal} : '-' ∈ d.sign ↔ d.unscaled < 0 := by
  unfold sign
  split <;> simp_all

theorem filter_sign (d : BigDecimal) : d.sign.filter Char.isDigit = [] := by
  unfold sign
  split <;> simp

theorem sign_point (d : BigDecimal) : ∀ c ∈ d.sign, (decide (c ≠ '.')) = true := by
  unfold sign
  split <;> simp

theorem reading_whole (d : BigDecimal) {whole : List Char} (hw : AllDigits whole) :
    reading (d.sign ++ whole) = (if d.unscaled < 0 then -1 else 1) * Nat.ofDigitChars 10 whole 0 := by
  have hdrop : (d.sign ++ whole).dropWhile (· ≠ '.') = [] := by
    rw [List.dropWhile_eq_nil_iff]
    intro c hc
    exact (List.mem_append.1 hc).elim (d.sign_point c) (hw.point c)
  rw [reading, hdrop]
  simp [mem_sign, hw.minus, filter_sign, hw.filter]

theorem reading_fraction (d : BigDecimal) {whole fraction : List Char} (hw : AllDigits whole)
    (hf : AllDigits fraction) :
    reading (d.sign ++ whole ++ '.' :: fraction) =
      (if d.unscaled < 0 then -1 else 1) * Nat.ofDigitChars 10 (whole ++ fraction) 0 /
        10 ^ fraction.length := by
  have hdrop : (d.sign ++ whole ++ '.' :: fraction).dropWhile (· ≠ '.') = '.' :: fraction := by
    rw [List.dropWhile_append_of_pos]
    · simp
    · intro c hc
      exact (List.mem_append.1 hc).elim (d.sign_point c) (hw.point c)
  rw [reading, hdrop]
  simp [mem_sign, hw.minus, hf.minus, filter_sign, hw.filter, hf.filter]

theorem signed_natAbs (u : ℤ) : ((if u < 0 then -1 else 1) * (u.natAbs : ℚ)) = u := by
  rw [Nat.cast_natAbs]
  split
  · next h => rw [abs_of_neg h]; push_cast; ring
  · next h => rw [abs_of_nonneg (by omega)]; ring

theorem reading_getValueString (d : BigDecimal) (hscale : 0 < d.scale) :
    reading d.getValueString = d.value := by
  have hsign := signed_natAbs d.unscaled
  have hdigits : Nat.ofDigitChars 10 d.digits 0 = d.unscaled.natAbs := Nat.ofDigitChars_ten_toDigits
  have hzero : AllDigits ['0'] := allDigits_replicate 1
  have hvalue : d.value = (if d.unscaled < 0 then -1 else 1) * d.unscaled.natAbs / 10 ^ d.scale.toNat := by
    have : d.scale = (d.scale.toNat : ℤ) := by omega
    rw [hsign, value, this, zpow_neg, zpow_natCast, Int.toNat_natCast, div_eq_mul_inv]
  unfold getValueString
  simp only
  split
  · next h =>
    rw [reading_fraction d hzero d.allDigits_digits, List.singleton_append, Nat.ofDigitChars_cons]
    have hlen : d.digits.length = d.scale.toNat := by omega
    simp [hdigits, hlen, hvalue]
  split
  · next h hpos =>
    have htake : AllDigits (d.digits.take (d.digits.length - d.scale).toNat) :=
      fun c hc => d.allDigits_digits c (List.mem_of_mem_take hc)
    have hdrop : AllDigits (d.digits.drop (d.digits.length - d.scale).toNat) :=
      fun c hc => d.allDigits_digits c (List.mem_of_mem_drop hc)
    have hlen : d.digits.length - ((d.digits.length : ℤ) - d.scale).toNat = d.scale.toNat := by omega
    rw [reading_fraction d htake hdrop, List.take_append_drop, hdigits, List.length_drop, hlen, hvalue]
  · next h hneg =>
    rw [reading_fraction d hzero ((allDigits_replicate _).append d.allDigits_digits),
      Nat.ofDigitChars_append, Nat.ofDigitChars_append, Nat.ofDigitChars_replicate_zero]
    have hlen : (List.replicate (-((d.digits.length : ℤ) - d.scale)).toNat '0' ++ d.digits).length =
        d.scale.toNat := by
      rw [List.length_append, List.length_replicate]
      omega
    rw [hlen, hvalue]
    simp [Nat.ofDigitChars_cons, hdigits]

/-- What is written reads back as the number. -/
theorem reading_toPlainString (d : BigDecimal) : reading d.toPlainString = d.value := by
  have hsign := signed_natAbs d.unscaled
  have hdigits : Nat.ofDigitChars 10 d.digits 0 = d.unscaled.natAbs := Nat.ofDigitChars_ten_toDigits
  unfold toPlainString
  split
  · next h0 =>
    rw [reading_whole d d.allDigits_digits, hdigits, hsign]
    simp [value, h0]
  split
  · next h0 hneg =>
    split
    · next hz =>
      have : d.unscaled = 0 := Int.sign_eq_zero_iff_zero.1 hz
      have hzero : AllDigits ['0'] := allDigits_replicate 1
      rw [show (['0'] : List Char) = d.sign ++ ['0'] by simp [sign, this], reading_whole d hzero]
      simp [value, this, Nat.ofDigitChars_cons]
    · have hscale : -d.scale = ((-d.scale).toNat : ℤ) := by omega
      rw [reading_whole d (d.allDigits_digits.append (allDigits_replicate _)),
        Nat.ofDigitChars_append, hdigits, Nat.ofDigitChars_replicate_zero]
      push_cast
      rw [value, hscale, zpow_natCast, Int.toNat_natCast, ← hsign]
      ring
  · next h0 hneg => exact reading_getValueString d (by omega)

/-! ## The text of a number -/

theorem plain_value (d : BigDecimal) : reading d.plain = d.value := by
  have h := d.stripTrailingZeros_value
  unfold plain
  simp only
  split
  · next hz =>
    have h0 : d.stripTrailingZeros.unscaled = 0 := Int.sign_eq_zero_iff_zero.1 hz
    rw [← h, value, h0]
    simp [reading, Nat.ofDigitChars_cons]
  · rw [reading_toPlainString, h]

/-- Two numbers are written alike exactly when they are equal, whatever their notation was. -/
theorem plain_eq_iff {d e : BigDecimal} : d.plain = e.plain ↔ d.value = e.value := by
  constructor
  · intro h
    rw [← plain_value d, h, plain_value]
  · intro h
    unfold plain
    rw [stripTrailingZeros_eq h]

theorem sign_numeric (d : BigDecimal) : ∀ c ∈ d.sign, IsNumeric c := by
  unfold sign
  split <;> simp [IsNumeric]

theorem AllDigits.numeric {s : List Char} (hs : AllDigits s) : ∀ c ∈ s, IsNumeric c :=
  fun c hc => .inl (hs c hc)

theorem plain_ne_nil (d : BigDecimal) : d.plain ≠ [] := by
  have hne : d.stripTrailingZeros.digits ≠ [] := Nat.toDigits_ne_nil
  unfold plain toPlainString getValueString
  simp only
  split_ifs <;> simp [hne]

theorem plain_numeric (d : BigDecimal) : ∀ c ∈ d.plain, IsNumeric c := by
  have hsign := d.stripTrailingZeros.sign_numeric
  have hdigits := d.stripTrailingZeros.allDigits_digits
  have hzeros : ∀ n, ∀ c ∈ List.replicate n '0', IsNumeric c := fun n => (allDigits_replicate n).numeric
  have hall := hdigits.numeric
  have htake : ∀ n, ∀ c ∈ d.stripTrailingZeros.digits.take n, IsNumeric c :=
    fun n c hc => hall c (List.mem_of_mem_take hc)
  have hdrop : ∀ n, ∀ c ∈ d.stripTrailingZeros.digits.drop n, IsNumeric c :=
    fun n c hc => hall c (List.mem_of_mem_drop hc)
  have hpoint : IsNumeric '.' := .inr (.inr rfl)
  have hzero : IsNumeric '0' := .inl rfl
  unfold plain toPlainString getValueString
  simp only
  split_ifs <;> intro c hc <;>
  simp only [List.mem_append, List.mem_cons, List.not_mem_nil, or_false] at hc <;>
    aesop

end BigDecimal

end GManager
