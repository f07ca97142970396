import GManager.BusinessDays
import GManager.Table
import Mathlib.Data.Nat.Count
import Mathlib.Algebra.Order.Field.Rat

/-!
# The time axis of the weekly calendar

`weeklyAxis` and `weeklyPosition`. A row is a wall-clock time and its occurrence on a day; the rows
of all days are merged, sorted by hour, occurrence and minute. The slots of a day are its quarter
hours: a local hour is one block of four of them, and the blocks come in the order of their hours, so
that a later slot has a later row.
-/

namespace GManager.WeeklyAxis

open BusinessTime

def quarterHour : ℤ := 15 * 60 * 1000

structure Row where
  key : List Char
  label : List Char
  occurrence : ℕ
  deriving DecidableEq, Repr

structure WeekSlot extends Row where
  instant : ℤ
  deriving DecidableEq, Repr

/-- The values of a `Map` under their own keys, in insertion order. -/
abbrev RowMap := Table Row.key

abbrev SlotMap := Table (Prod.fst : List Char × List WeekSlot → List Char)

abbrev IndexMap := Table (Prod.fst : List Char × ℕ → List Char)

structure Model where
  rows : List Row
  daySlots : SlotMap
  indexes : IndexMap

def rowOf (label : List Char) (occurrence : ℕ) : Row :=
  ⟨label ++ ':' :: Nat.toDigits 10 occurrence, label, occurrence⟩

def labelOf (hour minute : ℕ) : List Char := twoDigits hour ++ ':' :: twoDigits minute

/-- The rows of an ordinary day. -/
def ordinaryRows : RowMap :=
  (List.range 96).foldl (fun rows i => rows.upsert (rowOf (labelOf (i * 15 / 60) (i * 15 % 60)) 0)) .empty

/-- The instants from `begin` before `finish`, by quarter hours. -/
def quarters (begin finish : ℤ) : List ℤ :=
  (List.range ((finish - begin + quarterHour - 1) / quarterHour).toNat).map fun k : ℕ =>
    begin + k * quarterHour

def label (offset : ℤ → ℤ) (instant : ℤ) : List Char := (businessInstantToLocal offset instant).drop 11

/-- The slots of instants, after labels that are `seen` already. -/
def slotsOf (offset : ℤ → ℤ) (seen : List Char → ℕ) : List ℤ → List WeekSlot
  | [] => []
  | instant :: rest =>
    let label := label offset instant
    { rowOf label (seen label) with instant } ::
    slotsOf offset (Function.update seen label (seen label + 1)) rest

def addDay (offset : ℤ → ℤ) (maps : SlotMap × RowMap) (day : List Char) :
    Except String (SlotMap × RowMap) := do
  let begin ← businessLocalToInstant offset (day ++ "T00:00".toList)
  let next ← addDays day 1
  let finish ← businessLocalToInstant offset (next ++ "T00:00".toList)
  let slots := slotsOf offset (fun _ => 0) (quarters begin finish)
  return (maps.1.upsert (day, slots), slots.foldl (fun rows slot => rows.upsert slot.toRow) maps.2)

/-- `localeCompare` of texts of digits and colons. -/
def localeCompare (a b : List Char) : Ordering := compare a b

/-- The order of the axis: by hour, occurrence and time. -/
def compareRows : Row → Row → Ordering :=
  compareLex (fun a b => localeCompare (a.label.take 2) (b.label.take 2))
    (compareLex (compareOn Row.occurrence) fun a b => localeCompare a.label b.label)

/-- The rows in the order of the axis. -/
def axisOf (rows : RowMap) : List Row := rows.rows.mergeSort fun a b => (compareRows a b).isLE

def indexesOf (axis : List Row) : IndexMap :=
  axis.zipIdx.foldl (fun indexes p => indexes.upsert (p.1.key, p.2)) .empty

def weeklyAxis (offset : ℤ → ℤ) (days : List (List Char)) : Except String Model := do
  let maps ← days.foldlM (addDay offset) (.empty, ordinaryRows)
  return ⟨axisOf maps.2, maps.1, indexesOf (axisOf maps.2)⟩

/-- The position of an instant in rows; there is none without slots, or without a row of its slot. -/
def weeklyPosition (instant : ℤ) (slots : List WeekSlot) (indexes : IndexMap) (rowCount : ℕ) : Option ℚ := do
  let first ← slots.head?
  if instant ≤ first.instant then return 0
  let last ← slots.getLast?
  if last.instant + quarterHour ≤ instant then return rowCount
  let slot ← slots.find? fun value => value.instant ≤ instant ∧ instant < value.instant + quarterHour
  let index ← indexes.find? slot.key
  return index.2 + (instant - slot.instant : ℤ) / (quarterHour : ℚ)

/-! ### Rows and their order -/

section rows

variable {a b a' b' o o' : ℕ} {l l' : List Char} {r r' : Row}

/-- A row of a wall-clock time. -/
def Row.OnClock (r : Row) : Prop :=
  ∃ hour < 60, ∃ minute < 60, ∃ occurrence, r = rowOf (labelOf hour minute) occurrence

theorem compare_twoDigits : ∀ a < 60, ∀ b < 60, compare (twoDigits a) (twoDigits b) = compare a b := by
  decide +kernel

instance : Std.TransCmp compareRows :=
  have : Std.TransCmp fun a b : Row => localeCompare (a.label.take 2) (b.label.take 2) :=
    inferInstanceAs (Std.TransCmp (compareOn fun r : Row => r.label.take 2))
  have : Std.TransCmp fun a b : Row => localeCompare a.label b.label :=
    inferInstanceAs (Std.TransCmp (compareOn Row.label))
  inferInstanceAs (Std.TransCmp (compareLex _ (compareLex _ _)))

theorem compareRows_self (r : Row) : compareRows r r = .eq := Std.ReflCmp.compare_self

/-- The axis is ordered by hour, occurrence and minute. -/
theorem compareRows_eq_lt (ha : a < 60) (hb : b < 60) (ha' : a' < 60) (hb' : b' < 60)
    (h : a < a' ∨ a = a' ∧ (o < o' ∨ o = o' ∧ b < b')) :
    compareRows (rowOf (labelOf a b) o) (rowOf (labelOf a' b') o') = .lt := by
  have hhour : localeCompare ((labelOf a b).take 2) ((labelOf a' b').take 2) = compare a a' :=
    compare_twoDigits a ha a' ha'
  simp only [compareRows, compareLex, compareOn, rowOf, hhour, Ordering.then_eq_lt]
  rcases h with h | ⟨rfl, h | ⟨rfl, h⟩⟩
  · exact .inl (Nat.compare_eq_lt.2 h)
  · exact .inr ⟨by simp, .inl (Nat.compare_eq_lt.2 h)⟩
  · refine .inr ⟨by simp, .inr ⟨by simp, ?_⟩⟩
    have hminute : localeCompare (labelOf a b) (labelOf a b') = compare b b' := by
      rw [← compare_twoDigits b hb b' hb']
      simp [localeCompare, labelOf, twoDigits, List.compare_cons_cons]
    rw [hminute]
    exact Nat.compare_eq_lt.2 h

theorem labelOf_inj (ha : a < 60) (hb : b < 60) (ha' : a' < 60) (hb' : b' < 60) :
    labelOf a b = labelOf a' b' ↔ a = a' ∧ b = b' := by
  refine ⟨fun h => ?_, fun h => by rw [h.1, h.2]⟩
  obtain ⟨hhour, hrest⟩ := List.append_inj h rfl
  have hnumber : ∀ {m n}, m < 60 → n < 60 → twoDigits m = twoDigits n → m = n := fun {m n} hm hn he => by
    rw [← (twoDigits_spec (n := m) (by omega)).1, he, (twoDigits_spec (n := n) (by omega)).1]
  exact ⟨hnumber ha ha' hhour, hnumber hb hb' (List.cons.inj hrest).2⟩

theorem key_inj (hl : l.length = l'.length) (h : (rowOf l o).key = (rowOf l' o').key) : l = l' ∧ o = o' := by
  obtain ⟨rfl, hdigits⟩ := List.append_inj h hl
  refine ⟨rfl, ?_⟩
  rw [← Nat.ofDigitChars_ten_toDigits (n := o), (List.cons.inj hdigits).2, Nat.ofDigitChars_ten_toDigits]

theorem Row.OnClock.eq_of_key (h : r.OnClock) (h' : r'.OnClock) (hk : r.key = r'.key) : r = r' := by
  obtain ⟨a, -, b, -, o, rfl⟩ := h
  obtain ⟨a', -, b', -, o', rfl⟩ := h'
  have hlen : (labelOf a b).length = (labelOf a' b').length := rfl
  obtain ⟨hl, rfl⟩ := key_inj hlen hk
  rw [hl]

end rows

/-! ### Blocks of four -/

section blocks

variable {H : ℕ → ℕ} {N i j k n r x : ℕ}

/-- The times of a block are those of the blocks before it, once each. -/
theorem count_blocks (hr : r < 4) : Nat.count (fun j => H (j / 4) = x ∧ j % 4 = r) n =
    Nat.count (fun i => H i = x) (n / 4) + if H (n / 4) = x ∧ r < n % 4 then 1 else 0 := by
  induction n with
  | zero => simp
  | succ n ih =>
    rw [Nat.count_succ, ih]
    by_cases hlast : n % 4 = 3
    · rw [show (n + 1) / 4 = n / 4 + 1 by omega, Nat.count_succ]
      split_ifs <;> omega
    · rw [show (n + 1) / 4 = n / 4 by omega]
      split_ifs <;> omega

/-- Of two times the later one has a later hour, or a later occurrence of this hour, or is later in it. -/
theorem rank_lt (hH : ∀ i j, i ≤ j → j < N → H i ≤ H j) (hjk : j < k) (hk : k / 4 < N) :
    H (j / 4) < H (k / 4) ∨ H (j / 4) = H (k / 4) ∧
      (Nat.count (fun i => H i = H (j / 4)) (j / 4) < Nat.count (fun i => H i = H (k / 4)) (k / 4) ∨
        Nat.count (fun i => H i = H (j / 4)) (j / 4) = Nat.count (fun i => H i = H (k / 4)) (k / 4) ∧
        j % 4 < k % 4) := by
  rcases (hH (j / 4) (k / 4) (by omega) hk).lt_or_eq with hlt | heq
  · exact .inl hlt
  refine .inr ⟨heq, ?_⟩
  rcases (Nat.div_le_div_right hjk.le : j / 4 ≤ k / 4).lt_or_eq with hb | hb
  · left
    rw [heq]
    exact Nat.count_strict_mono heq hb
  · right
    rw [hb]
    exact ⟨rfl, by omega⟩

end blocks

/-! ### The slots of a day -/

section slots

variable {offset : ℤ → ℤ} {m t : ℤ} {d : ℤ} {N i j k n : ℕ}

/-- The `k`-th quarter hour from `m` on. -/
def slotAt (offset : ℤ → ℤ) (m : ℤ) (k : ℕ) : WeekSlot :=
  { rowOf (label offset (m + k * quarterHour))
      (Nat.count (fun j => label offset (m + j * quarterHour) = label offset (m + k * quarterHour)) k) with
    instant := m + k * quarterHour }

/-- The hour of the `i`-th block from `m` on. -/
def hourOf (offset : ℤ → ℤ) (m : ℤ) (i : ℕ) : ℕ := (localOf offset (m + i * hour) % day / hour).toNat

theorem slotsOf_eq (seen : List Char → ℕ)
    (hseen : ∀ l, seen l = Nat.count (fun j : ℕ => label offset (m + j * quarterHour) = l) i) :
    slotsOf offset seen ((List.range' i n).map fun k : ℕ => m + k * quarterHour) =
      (List.range' i n).map (slotAt offset m) := by
  induction n generalizing i seen with
  | zero => rfl
  | succ n ih =>
    simp only [List.range'_succ, List.map_cons, slotsOf]
    rw [ih]
    · rw [hseen]
      rfl
    · intro l
      rw [Nat.count_succ]
      by_cases hl : label offset (m + i * quarterHour) = l
      · subst hl
        simp [hseen]
      · rw [Function.update_of_ne (Ne.symm hl), hseen, if_neg hl, add_zero]

theorem slotsOf_quarters (N : ℕ) :
    slotsOf offset (fun _ => 0) (quarters m (m + N * hour)) = (List.range (4 * N)).map (slotAt offset m) := by
  have hlen : ((m + N * hour - m + quarterHour - 1) / quarterHour).toNat = 4 * N := by
    simp only [hour, quarterHour]
    omega
  rw [quarters, hlen, List.range_eq_range']
  exact slotsOf_eq _ fun l => by simp

/-- The label of an instant of a year with four digits. -/
theorem label_eq (h : 1000 ≤ yearOf (localOf offset t) ∧ yearOf (localOf offset t) ≤ 9999) :
    label offset t = labelOf (partsOf (localOf offset t)).hour (partsOf (localOf offset t)).minute := by
  rw [label, businessInstantToLocal, format_partsOf h, List.append_assoc, List.drop_append, length_isoDate h,
    List.drop_of_length_le (by rw [length_isoDate h]; decide)]
  rfl

theorem hourOf_lt (offset : ℤ → ℤ) (m : ℤ) (i : ℕ) : hourOf offset m i < 24 := by
  simp only [hourOf, day, hour]
  omega

/-- The local times of a date with a four-digit year, from its midnight on, by blocks of an hour. -/
structure Blocks (offset : ℤ → ℤ) (d m : ℤ) (N : ℕ) : Prop where
  hourly : Hourly offset
  midnight : localOf offset m = d * day
  next : localOf offset (m + N * hour) = (d + 1) * day
  year : 1000 ≤ yearOf (d * day) ∧ yearOf (d * day) ≤ 9999

namespace Blocks

variable (h : Blocks offset d m N)
include h

theorem dateOf_eq : dateOf offset t = d ↔ m ≤ t ∧ t < m + N * hour := by
  have h₁ := h.hourly.le_dateOf h.midnight (t := t)
  have h₂ := h.hourly.le_dateOf h.next (t := t)
  omega

theorem midnight_emod : localOf offset m % hour = 0 := by
  simp only [h.midnight, day, hour]
  omega

theorem hour_emod (i : ℕ) : localOf offset (m + i * hour) % hour = 0 := h.hourly.hour_emod h.midnight_emod i

/-- The local time runs through each of the blocks. -/
theorem localOf_block (hi : i < N) (hle : m + i * hour ≤ t) (hlt : t < m + i * hour + hour) :
    localOf offset t = d * day + hourOf offset m i * hour + (t - (m + i * hour)) := by
  have hblock := h.hourly.offset_of_hour (h.hour_emod i) hle hlt
  have hemod := h.hour_emod i
  have hdate := (h.dateOf_eq (t := m + i * hour)).2 (by simp only [hour]; omega)
  simp only [hourOf, localOf, dateOf, day, hour, minute] at *
  omega

theorem localOf_slot (hk : k < 4 * N) : localOf offset (m + k * quarterHour) =
    d * day + hourOf offset m (k / 4) * hour + (k % 4 : ℕ) * quarterHour := by
  rw [h.localOf_block (i := k / 4) (by omega) (by simp only [hour, quarterHour]; omega)
    (by simp only [hour, quarterHour]; omega)]
  simp only [hour, quarterHour]
  omega

theorem hourOf_mono (i j : ℕ) (hij : i ≤ j) (hj : j < N) : hourOf offset m i ≤ hourOf offset m j := by
  have hmono := h.hourly.hour_mono h.midnight_emod hij
  have h₁ := (h.dateOf_eq (t := m + i * hour)).2 (by simp only [hour]; omega)
  have h₂ := (h.dateOf_eq (t := m + j * hour)).2 (by simp only [hour]; omega)
  simp only [hourOf, dateOf, day, hour] at *
  omega

theorem yearOf_slot (hk : k < 4 * N) : yearOf (localOf offset (m + k * quarterHour)) = yearOf (d * day) := by
  have hdate := (h.dateOf_eq (t := m + k * quarterHour)).2 (by simp only [hour, quarterHour]; omega)
  rw [dateOf] at hdate
  rw [yearOf, yearOf, hdate, day, Int.mul_ediv_cancel _ (by decide)]

theorem label_slot (hk : k < 4 * N) :
    label offset (m + k * quarterHour) = labelOf (hourOf offset m (k / 4)) (15 * (k % 4)) := by
  have hlt := hourOf_lt offset m (k / 4)
  have hparts : (partsOf (localOf offset (m + k * quarterHour))).hour = hourOf offset m (k / 4) ∧
      (partsOf (localOf offset (m + k * quarterHour))).minute = 15 * (k % 4) := by
    rw [h.localOf_slot hk]
    simp only [partsOf, day, hour, quarterHour, minute]
    omega
  rw [label_eq (by rw [h.yearOf_slot hk]; exact h.year), hparts.1, hparts.2]

/-- The row of a time of the day. -/
theorem toRow_slotAt (hk : k < 4 * N) : (slotAt offset m k).toRow =
    rowOf (labelOf (hourOf offset m (k / 4)) (15 * (k % 4)))
      (Nat.count (fun i => hourOf offset m i = hourOf offset m (k / 4)) (k / 4)) := by
  have hsame : ∀ j < k, label offset (m + j * quarterHour) = label offset (m + k * quarterHour) ↔
      hourOf offset m (j / 4) = hourOf offset m (k / 4) ∧ j % 4 = k % 4 := by
    intro j hj
    have hlt := hourOf_lt offset m (j / 4)
    have hlt' := hourOf_lt offset m (k / 4)
    rw [h.label_slot (by omega), h.label_slot hk, labelOf_inj (by omega) (by omega) (by omega) (by omega)]
    omega
  have hcount :=
    count_blocks (H := hourOf offset m) (x := hourOf offset m (k / 4)) (n := k) (r := k % 4) (by omega)
  rw [if_neg (by omega), add_zero] at hcount
  rw [slotAt, h.label_slot hk, ← hcount]
  refine congrArg (rowOf _) (le_antisymm ?_ ?_)
  · exact Nat.count_mono_left fun j hj he => (hsame j hj).1 (he.trans (h.label_slot hk).symm)
  · exact Nat.count_mono_left fun j hj he => ((hsame j hj).2 he).trans (h.label_slot hk)

/-- A later time of the day has a later row. -/
theorem compareRows_slotAt (hjk : j < k) (hk : k < 4 * N) :
    compareRows (slotAt offset m j).toRow (slotAt offset m k).toRow = .lt := by
  have hlt := hourOf_lt offset m (j / 4)
  have hlt' := hourOf_lt offset m (k / 4)
  rw [h.toRow_slotAt (hjk.trans hk), h.toRow_slotAt hk]
  refine compareRows_eq_lt (by omega) (by omega) (by omega) (by omega) ?_
  have hrank := rank_lt h.hourOf_mono hjk (by omega)
  omega

theorem onClock_slotAt (hk : k < 4 * N) : (slotAt offset m k).toRow.OnClock := by
  have hlt := hourOf_lt offset m (k / 4)
  exact ⟨_, by omega, 15 * (k % 4), by omega, _, h.toRow_slotAt hk⟩

end Blocks

end slots

end GManager.WeeklyAxis
