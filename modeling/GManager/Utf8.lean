import Mathlib.Data.Nat.Notation
import Mathlib.Tactic.SplitIfs

/-!
# Streaming UTF-8

The decoder of a byte stream that replaces malformed sequences: it keeps an unfinished character between two
calls, so that what it yields does not depend on where the stream was cut.
-/

namespace GManager

/-- The unfinished character: its bits so far, the bytes it still needs and the range of the next one. -/
structure Utf8Decoder where
  codePoint : ℕ
  missing : ℕ
  lower : ℕ
  upper : ℕ
  deriving DecidableEq, Repr

namespace Utf8Decoder

def start : Utf8Decoder := ⟨0, 0, 0x80, 0xBF⟩

/-- The first byte of a character. -/
def lead (b : ℕ) : Utf8Decoder × List Char :=
  if b < 0x80 then (start, [Char.ofNat b])
  else if b < 0xC2 then (start, [Char.ofNat 0xFFFD])
  else if b < 0xE0 then (⟨b - 0xC0, 1, 0x80, 0xBF⟩, [])
  else if b < 0xF0 then (⟨b - 0xE0, 2, if b = 0xE0 then 0xA0 else 0x80, if b = 0xED then 0x9F else 0xBF⟩, [])
  else if b < 0xF5 then (⟨b - 0xF0, 3, if b = 0xF0 then 0x90 else 0x80, if b = 0xF4 then 0x8F else 0xBF⟩, [])
  else (start, [Char.ofNat 0xFFFD])

def step (d : Utf8Decoder) (b : ℕ) : Utf8Decoder × List Char :=
  if d.missing = 0 then lead b
  else if d.lower ≤ b ∧ b ≤ d.upper then
    if d.missing = 1 then (start, [Char.ofNat (64 * d.codePoint + (b - 0x80))])
    else (⟨64 * d.codePoint + (b - 0x80), d.missing - 1, 0x80, 0xBF⟩, [])
  else
    -- the byte is read again as the first of a character
    ((lead b).1, Char.ofNat 0xFFFD :: (lead b).2)

def decode (d : Utf8Decoder) : List UInt8 → Utf8Decoder × List Char
  | [] => (d, [])
  | b :: bytes =>
    ((decode (d.step b.toNat).1 bytes).1, (d.step b.toNat).2 ++ (decode (d.step b.toNat).1 bytes).2)

variable {d : Utf8Decoder} {xs ys : List UInt8}

theorem decode_append : d.decode (xs ++ ys) =
    (((d.decode xs).1.decode ys).1, (d.decode xs).2 ++ ((d.decode xs).1.decode ys).2) := by
  induction xs generalizing d with
  | nil => rfl
  | cons b xs ih => simp only [List.cons_append, decode, ih, List.append_assoc]

theorem lead_one {b : ℕ} (h : b < 0x80) : lead b = (start, [Char.ofNat b]) := if_pos h

theorem lead_two {b : ℕ} (h : 0xC2 ≤ b) (h' : b < 0xE0) : lead b = (⟨b - 0xC0, 1, 0x80, 0xBF⟩, []) := by
  rw [lead, if_neg (by omega), if_neg (by omega), if_pos h']

theorem lead_three {b : ℕ} (h : 0xE0 ≤ b) (h' : b < 0xF0) :
    lead b = (⟨b - 0xE0, 2, if b = 0xE0 then 0xA0 else 0x80, if b = 0xED then 0x9F else 0xBF⟩, []) := by
  rw [lead, if_neg (by omega), if_neg (by omega), if_neg (by omega), if_pos h']

theorem lead_four {b : ℕ} (h : 0xF0 ≤ b) (h' : b < 0xF5) :
    lead b = (⟨b - 0xF0, 3, if b = 0xF0 then 0x90 else 0x80, if b = 0xF4 then 0x8F else 0xBF⟩, []) := by
  rw [lead, if_neg (by omega), if_neg (by omega), if_neg (by omega), if_neg (by omega), if_pos h']

theorem step_start (b : ℕ) : start.step b = lead b := rfl

theorem step_last {cp lower upper b : ℕ} (h : lower ≤ b) (h' : b ≤ upper) :
    step ⟨cp, 1, lower, upper⟩ b = (start, [Char.ofNat (64 * cp + (b - 0x80))]) := by
  simp [step, h, h']

theorem step_more {cp n lower upper b : ℕ} (h : lower ≤ b) (h' : b ≤ upper) :
    step ⟨cp, n + 2, lower, upper⟩ b = (⟨64 * cp + (b - 0x80), n + 1, 0x80, 0xBF⟩, []) := by
  simp [step, h, h']

/-- A character is read from its bytes. -/
theorem decode_utf8EncodeChar (c : Char) : start.decode (String.utf8EncodeChar c) = (start, [c]) := by
  have hvalid : c.val.toNat < 0xD800 ∨ 0xDFFF < c.val.toNat ∧ c.val.toNat < 0x110000 := c.valid
  have hc : Char.ofNat c.val.toNat = c := Char.ofNat_toNat c
  generalize hv : c.val.toNat = v at *
  have hmod : ∀ n, n < 256 → (UInt8.ofNat n).toNat = n := fun n hn => UInt8.toNat_ofNat_of_lt' hn
  simp only [String.utf8EncodeChar, hv]
  split_ifs with h₁ h₂ h₃
  · simp only [decode, hmod v (by omega), step_start, lead_one (b := v) (by omega), hc, List.append_nil]
  · have hlead := lead_two (b := v / 64 % 32 + 192) (by omega) (by omega)
    simp only [decode, hmod _ (show v / 64 % 32 + 192 < 256 by omega),
      hmod _ (show v % 64 + 128 < 256 by omega), step_start, hlead]
    rw [step_last (by omega) (by omega),
      show 64 * (v / 64 % 32 + 192 - 192) + (v % 64 + 128 - 128) = v by omega, hc]
    rfl
  · have hlead := lead_three (b := v / 4096 % 16 + 224) (by omega) (by omega)
    simp only [decode, hmod _ (show v / 4096 % 16 + 224 < 256 by omega),
      hmod _ (show v / 64 % 64 + 128 < 256 by omega), hmod _ (show v % 64 + 128 < 256 by omega),
      step_start, hlead]
    rw [step_more (n := 0) (by split <;> omega) (by split <;> omega)]
    rw [step_last (by omega) (by omega),
      show 64 * (64 * (v / 4096 % 16 + 224 - 224) + (v / 64 % 64 + 128 - 128)) +
        (v % 64 + 128 - 128) = v by omega, hc]
    rfl
  · have hlead := lead_four (b := v / 262144 % 8 + 240) (by omega) (by omega)
    simp only [decode, hmod _ (show v / 262144 % 8 + 240 < 256 by omega),
      hmod _ (show v / 4096 % 64 + 128 < 256 by omega), hmod _ (show v / 64 % 64 + 128 < 256 by omega),
      hmod _ (show v % 64 + 128 < 256 by omega), step_start, hlead]
    rw [step_more (n := 1) (by split <;> omega) (by split <;> omega),
      step_more (n := 0) (by omega) (by omega)]
    rw [step_last (by omega) (by omega),
      show 64 * (64 * (64 * (v / 262144 % 8 + 240 - 240) + (v / 4096 % 64 + 128 - 128)) +
        (v / 64 % 64 + 128 - 128)) + (v % 64 + 128 - 128) = v by omega, hc]
    rfl

/-- A text is read from its bytes. -/
theorem decode_encode (cs : List Char) : start.decode (cs.flatMap String.utf8EncodeChar) = (start, cs) := by
  induction cs with
  | nil => rfl
  | cons c cs ih => rw [List.flatMap_cons, decode_append, decode_utf8EncodeChar, ih, List.singleton_append]

end Utf8Decoder

end GManager
