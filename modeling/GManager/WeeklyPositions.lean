import GManager.WeeklyAxis
import Mathlib.Algebra.Order.Field.Basic
import Mathlib.Tactic.NormNum
import Mathlib.Tactic.Linarith

/-!
# Positions on the weekly axis

The rows of the days are merged and sorted, and a later slot of a day has a later index, whatever rows the
other days miss or add. So the position of an instant grows through the day, from 0 to the number of rows,
and a wall-clock time that occurs once has the same position on every day.
-/

namespace GManager.WeeklyAxis

open BusinessTime

/-! ### Indexes -/

section indexes

variable {axis : List Row} {rows : RowMap} {t : IndexMap} {r r' : Row} {key : List Char} {i j n : ℕ}

theorem find?_indexes (hnodup : (axis.map Row.key).Nodup) :
    (∀ key, (∀ r ∈ axis, r.key ≠ key) →
      ((axis.zipIdx n).foldl (fun indexes p => indexes.upsert (p.1.key, p.2)) t).find? key = t.find? key) ∧
    ∀ i r, axis[i]? = some r →
      ((axis.zipIdx n).foldl (fun indexes p => indexes.upsert (p.1.key, p.2)) t).find?
        r.key = some (r.key, n + i) := by
  induction axis generalizing t n with
  | nil => simp
  | cons a axis ih =>
    obtain ⟨ha, hnodup⟩ := List.nodup_cons.1 hnodup
    obtain ⟨hmiss, hhit⟩ := ih (t := t.upsert (a.key, n)) (n := n + 1) hnodup
    refine ⟨fun key hkey => ?_, fun i r hr => ?_⟩
    · rw [List.zipIdx_cons, List.foldl_cons, hmiss key fun r hr => hkey r (List.mem_cons_of_mem _ hr),
        Table.find?_upsert, if_neg (hkey a List.mem_cons_self).symm]
    · rw [List.zipIdx_cons, List.foldl_cons]
      cases i with
      | zero =>
        obtain rfl : a = r := by simpa using hr
        rw [hmiss a.key fun r hr he => ha (List.mem_map.2 ⟨r, hr, he⟩), Table.find?_upsert,
          if_pos rfl, add_zero]
      | succ i => rw [hhit i r (by simpa using hr), add_assoc, add_comm 1]

theorem find?_indexesOf (hnodup : (axis.map Row.key).Nodup) (hr : axis[i]? = some r) :
    (indexesOf axis).find? r.key = some (r.key, i) := by
  have hhit := (find?_indexes (t := .empty) (n := 0) hnodup).2 i r hr
  rwa [zero_add] at hhit

theorem mem_axisOf : r ∈ axisOf rows ↔ r ∈ rows := (List.mergeSort_perm _ _).mem_iff

theorem nodup_axisOf (rows : RowMap) : ((axisOf rows).map Row.key).Nodup :=
  ((List.mergeSort_perm _ _).map Row.key).nodup_iff.2 rows.nodup

theorem index_inj (hr : (axisOf rows)[i]? = some r) (hr' : (axisOf rows)[j]? = some r) : i = j := by
  have hindex := find?_indexesOf (nodup_axisOf rows) hr
  rw [find?_indexesOf (nodup_axisOf rows) hr'] at hindex
  exact (Prod.mk.inj (Option.some.inj hindex)).2.symm

/-- A row that comes before another one has a smaller index. -/
theorem index_lt (hr : (axisOf rows)[i]? = some r) (hr' : (axisOf rows)[j]? = some r')
    (h : compareRows r r' = .lt) : i < j := by
  have htrans : ∀ a b c : Row, (compareRows a b).isLE → (compareRows b c).isLE → (compareRows a c).isLE :=
    fun _ _ _ => Std.TransCmp.isLE_trans
  have htotal : ∀ a b : Row, ((compareRows a b).isLE || (compareRows b a).isLE) = true := fun a b => by
    have hswap : compareRows a b = (compareRows b a).swap := Std.OrientedCmp.eq_swap
    rw [hswap]
    cases compareRows b a <;> rfl
  have hsorted : (axisOf rows).Pairwise fun a b => (compareRows a b).isLE :=
    List.pairwise_mergeSort htrans htotal _
  obtain ⟨hi, rfl⟩ := List.getElem?_eq_some_iff.1 hr
  obtain ⟨hj, rfl⟩ := List.getElem?_eq_some_iff.1 hr'
  rcases Nat.lt_trichotomy i j with hlt | rfl | hlt
  · exact hlt
  · exact absurd h (by simp [compareRows_self])
  · exact absurd (List.pairwise_iff_getElem.1 hsorted j i hj hi hlt) (Std.OrientedCmp.not_isLE_of_lt h)

/-- The first time of a day is the first row. -/
theorem index_midnight (hclock : ∀ r ∈ rows, r.OnClock)
    (hi : (axisOf rows)[i]? = some (rowOf (labelOf 0 0) 0)) : i = 0 := by
  by_contra hne
  obtain ⟨hlen, hget⟩ := List.getElem?_eq_some_iff.1 hi
  obtain ⟨r, hfirst⟩ : ∃ r, (axisOf rows)[0]? = some r := ⟨_, List.getElem?_eq_getElem (by omega)⟩
  obtain ⟨a, ha, b, hb, o, rfl⟩ := hclock r (mem_axisOf.1 (List.mem_of_getElem? hfirst))
  have hle : (a = 0 ∧ o = 0 ∧ b = 0) ∨ (0 < a ∨ 0 = a ∧ (0 < o ∨ 0 = o ∧ 0 < b)) := by omega
  rcases hle with ⟨rfl, rfl, rfl⟩ | hlt
  · exact hne (index_inj hi hfirst)
  · exact absurd (index_lt hi hfirst (compareRows_eq_lt (by decide) (by decide) ha hb hlt)) (by omega)

end indexes

/-! ### Merging the days -/

section merging

variable {offset : ℤ → ℤ} {rows : RowMap} {slots : List WeekSlot} {maps : SlotMap × RowMap} {r : Row}
  {d : ℤ} {days : List ℤ}

/-- Rows are added to those that are there. -/
theorem mem_upserts {l : List Row} (hrows : ∀ r ∈ rows, r.OnClock) (hl : ∀ r ∈ l, r.OnClock) :
    r ∈ l.foldl Table.upsert rows ↔ r ∈ rows ∨ r ∈ l := by
  induction l generalizing rows with
  | nil => simp
  | cons a l ih =>
    have ha := hl a List.mem_cons_self
    have hmem : ∀ r, r ∈ rows.upsert a ↔ r ∈ rows ∨ r = a := by
      intro r
      rw [Table.mem_upsert]
      constructor
      · rintro (rfl | ⟨-, hr⟩)
        · exact .inr rfl
        · exact .inl hr
      · rintro (hr | rfl)
        · by_cases hk : r.key = a.key
          · exact .inl ((hrows r hr).eq_of_key ha hk)
          · exact .inr ⟨hk, hr⟩
        · exact .inl rfl
    rw [List.foldl_cons, ih (fun r hr => ?_) fun r hr => hl r (List.mem_cons_of_mem _ hr)]
    · rw [hmem, List.mem_cons, or_assoc]
    · rcases (hmem r).1 hr with hr | rfl
      · exact hrows r hr
      · exact ha

theorem mem_ordinaryRows :
    r ∈ ordinaryRows ↔ ∃ i < 96, rowOf (labelOf (i * 15 / 60) (i * 15 % 60)) 0 = r := by
  have hfold : ordinaryRows =
      ((List.range 96).map fun i => rowOf (labelOf (i * 15 / 60) (i * 15 % 60)) 0).foldl
        Table.upsert .empty :=
    List.foldl_map.symm
  rw [hfold, mem_upserts (fun r hr => absurd hr Table.not_mem_empty)]
  · simp [Table.not_mem_empty]
  · intro r hr
    obtain ⟨i, hi, rfl⟩ := List.mem_map.1 hr
    have hlt := List.mem_range.1 hi
    exact ⟨i * 15 / 60, by omega, i * 15 % 60, by omega, 0, rfl⟩

/-- The slots of the days are in the maps. -/
structure Merged (offset : ℤ → ℤ) (days : List ℤ) (maps : SlotMap × RowMap) : Prop where
  onClock : ∀ r ∈ maps.2, r.OnClock
  listed : ∀ d ∈ days, ∃ m N, 0 < N ∧ Blocks offset d m N ∧
    maps.1.find? (dayText d) = some (dayText d, (List.range (4 * N)).map (slotAt offset m)) ∧
    ∀ k < 4 * N, (slotAt offset m k).toRow ∈ maps.2

theorem dayText_inj {d d' : ℤ} (h : FourDigits d) (h' : FourDigits d')
    (he : dayText d = dayText d') : d = d' := by
  have hd := parseDate_dayText h.year
  rw [he, parseDate_dayText h'.year] at hd
  have hnoon := Option.some.inj hd
  simp only [day] at hnoon
  omega

/-- A day is added with its slots. -/
theorem Merged.addDay (h : Merged offset days maps) (hrules : Hourly offset) (hone : OncePerDate offset)
    (hdays : ∀ d ∈ days, FourDigits d) (hd : FourDigits d) :
    ∃ maps', addDay offset maps (dayText d) = .ok maps' ∧ Merged offset (d :: days) maps' := by
  obtain ⟨m, hm⟩ := hrules.exists_midnight d
  obtain ⟨m', hm'⟩ := hrules.exists_midnight (d + 1)
  obtain ⟨N, hN, hlen⟩ : ∃ N : ℕ, 0 < N ∧ m' = m + N * hour := by
    rcases hrules.length_of_day hone hm hm' with he | he | he
    · exact ⟨23, by decide, he⟩
    · exact ⟨24, by decide, he⟩
    · exact ⟨25, by decide, he⟩
  subst hlen
  have hblocks : Blocks offset d m N := ⟨hrules, hm, hm', hd.year⟩
  -- the rows of the slots, as a list
  have hclock : ∀ r ∈ (List.range (4 * N)).map fun k => (slotAt offset m k).toRow, r.OnClock := fun r hr => by
    obtain ⟨k, hk, rfl⟩ := List.mem_map.1 hr
    exact hblocks.onClock_slotAt (List.mem_range.1 hk)
  have hmem : ∀ r, r ∈ ((List.range (4 * N)).map (slotAt offset m)).foldl
    (fun rows slot => rows.upsert slot.toRow) maps.2 ↔
      r ∈ maps.2 ∨ r ∈ (List.range (4 * N)).map fun k => (slotAt offset m k).toRow := fun r => by
    rw [← mem_upserts h.onClock hclock, List.foldl_map, List.foldl_map]
  refine ⟨(maps.1.upsert (dayText d, (List.range (4 * N)).map (slotAt offset m)),
    ((List.range (4 * N)).map (slotAt offset m)).foldl (fun rows slot => rows.upsert slot.toRow)
      maps.2), ?_, ?_, ?_⟩
  · simp only [WeeklyAxis.addDay, hrules.businessLocalToInstant_midnight hone hm hd.year, addDays_dayText hd,
      hrules.businessLocalToInstant_midnight hone hm' hd.next, slotsOf_quarters, bind, Except.bind,
      pure, Except.pure]
  · intro r hr
    rcases (hmem r).1 hr with hr | hr
    · exact h.onClock r hr
    · exact hclock r hr
  · intro d' hd'
    by_cases hsame : d' = d
    · subst hsame
      refine ⟨m, N, hN, hblocks, by rw [Table.find?_upsert, if_pos rfl], fun k hk => ?_⟩
      exact (hmem _).2 (.inr (List.mem_map.2 ⟨k, List.mem_range.2 hk, rfl⟩))
    · have hmem' := (List.mem_cons.1 hd').resolve_left hsame
      obtain ⟨m₀, N₀, hN₀, hblocks₀, hfind, hrows⟩ := h.listed d' hmem'
      refine ⟨m₀, N₀, hN₀, hblocks₀, ?_, fun k hk => (hmem _).2 (.inl (hrows k hk))⟩
      rw [Table.find?_upsert, if_neg fun he => hsame (dayText_inj (hdays d' hmem') hd he), hfind]

/-- All days are added. -/
theorem Merged.run (h : Merged offset days maps) (hrules : Hourly offset) (hone : OncePerDate offset)
    (hdays : ∀ d ∈ days, FourDigits d) {rest : List ℤ} (hrest : ∀ d ∈ rest, FourDigits d) :
    ∃ maps', (rest.map dayText).foldlM (WeeklyAxis.addDay offset) maps = .ok maps' ∧
      Merged offset (rest.reverse ++ days) maps' := by
  induction rest generalizing days maps with
  | nil => exact ⟨maps, rfl, h⟩
  | cons d rest ih =>
    obtain ⟨maps₁, hadd, h₁⟩ := h.addDay hrules hone hdays (hrest d List.mem_cons_self)
    obtain ⟨maps', hrun, h'⟩ := ih h₁ (List.forall_mem_cons.2 ⟨hrest d List.mem_cons_self, hdays⟩)
      fun d hd => hrest d (List.mem_cons_of_mem _ hd)
    refine ⟨maps', ?_, by simpa using h'⟩
    rw [List.map_cons, List.foldlM_cons, hadd]
    exact hrun

theorem Merged.ordinary (offset : ℤ → ℤ) : Merged offset [] (.empty, ordinaryRows) := by
  have hclock : ∀ r ∈ ordinaryRows, r.OnClock := fun r hr => by
    obtain ⟨i, hi, rfl⟩ := mem_ordinaryRows.1 hr
    exact ⟨i * 15 / 60, by omega, i * 15 % 60, by omega, 0, rfl⟩
  generalize ordinaryRows = rows at hclock ⊢
  exact ⟨hclock, fun _ hd => absurd hd List.not_mem_nil⟩

end merging

/-! ### Positions -/

section positions

variable {offset : ℤ → ℤ} {rows : RowMap} {d m s t : ℤ} {N k : ℕ}

theorem weeklyPosition_inside {slots : List WeekSlot} {indexes : IndexMap} {rowCount i : ℕ}
    {first last slot : WeekSlot} (hfirst : slots.head? = some first) (hlast : slots.getLast? = some last)
    (h₁ : first.instant < t) (h₂ : t < last.instant + quarterHour)
    (hslot : slots.find? (fun value => value.instant ≤ t ∧ t < value.instant + quarterHour) = some slot)
    (hindex : indexes.find? slot.key = some (slot.key, i)) :
    weeklyPosition t slots indexes rowCount = some
    ((i : ℚ) + (t - slot.instant : ℤ) / (quarterHour : ℚ)) := by
  have h₁' : ¬ t ≤ first.instant := by omega
  have h₂' : ¬ last.instant + quarterHour ≤ t := by omega
  simp only [weeklyPosition, hfirst, hlast, hslot, hindex, if_neg h₁', if_neg h₂',
    Option.bind_eq_bind, Option.bind_some]
  rfl

/-- A day whose slots have rows. -/
structure Placed (offset : ℤ → ℤ) (d m : ℤ) (N : ℕ) (rows : RowMap) : Prop where
  blocks : Blocks offset d m N
  pos : 0 < N
  onClock : ∀ r ∈ rows, r.OnClock
  listed : ∀ k < 4 * N, (slotAt offset m k).toRow ∈ rows

def daySlots (offset : ℤ → ℤ) (m : ℤ) (N : ℕ) : List WeekSlot := (List.range (4 * N)).map (slotAt offset m)

/-- The position among the sorted rows. -/
def positionOf (offset : ℤ → ℤ) (m : ℤ) (N : ℕ) (rows : RowMap) (t : ℤ) : Option ℚ :=
  weeklyPosition t (daySlots offset m N) (indexesOf (axisOf rows)) (axisOf rows).length

theorem quarterHour_pos : (0 : ℚ) < quarterHour := by
  norm_num [quarterHour]

/-- The part of a slot that is over. -/
theorem fraction_bounds {x : ℤ} (h₀ : 0 ≤ x) (h : x < quarterHour) : 0 ≤ (x : ℚ) / quarterHour ∧
    (x : ℚ) / quarterHour < 1 :=
  ⟨div_nonneg (by exact_mod_cast h₀) quarterHour_pos.le, (div_lt_one quarterHour_pos).2 (by exact_mod_cast h)⟩

namespace Placed

variable (h : Placed offset d m N rows)
include h

theorem exists_index (hk : k < 4 * N) : ∃ i : ℕ, (axisOf rows)[i]? = some (slotAt offset m k).toRow :=
  List.getElem?_of_mem (mem_axisOf.2 (h.listed k hk))

theorem head?_daySlots : (daySlots offset m N).head? = some (slotAt offset m 0) := by
  have hpos := h.pos
  rw [daySlots, List.head?_map, List.head?_range, if_neg (by omega)]
  rfl

theorem getLast?_daySlots : (daySlots offset m N).getLast? = some (slotAt offset m (4 * N - 1)) := by
  have hpos := h.pos
  rw [daySlots, List.getLast?_map, List.getLast?_range, if_neg (by omega)]
  rfl

omit h in
theorem instant_slotAt : (slotAt offset m k).instant = m + k * quarterHour := rfl

theorem position_midnight : positionOf offset m N rows m = some 0 := by
  simp [positionOf, weeklyPosition, h.head?_daySlots, instant_slotAt]

theorem position_next : positionOf offset m N rows (m + N * hour) = some (axisOf rows).length := by
  have hpos := h.pos
  have hfirst : ¬ m + N * hour ≤ (slotAt offset m 0).instant := by
    simp only [instant_slotAt, hour, quarterHour]
    omega
  have hlast : (slotAt offset m (4 * N - 1)).instant + quarterHour ≤ m + N * hour := by
    simp only [instant_slotAt, hour, quarterHour]
    omega
  simp [positionOf, weeklyPosition, h.head?_daySlots, h.getLast?_daySlots, hfirst, hlast]

/-- An instant of the day is in a slot, whose row it is in. -/
theorem position_eq (hle : m ≤ t) (hlt : t < m + N * hour) : ∃ k i : ℕ, k < 4 * N ∧ m + k * quarterHour ≤ t ∧
    t < m + k * quarterHour + quarterHour ∧ (axisOf rows)[i]? = some (slotAt offset m k).toRow ∧
    positionOf offset m N rows t = some ((i : ℚ) + (t - (m + k * quarterHour) : ℤ) / (quarterHour : ℚ)) := by
  obtain ⟨k, hk, hkt, htk⟩ : ∃ k : ℕ, k < 4 * N ∧ m + k * quarterHour ≤ t ∧
      t < m + k * quarterHour + quarterHour := by
    refine ⟨((t - m) / quarterHour).toNat, ?_, ?_, ?_⟩
    all_goals
      simp only [hour, quarterHour] at *
      omega
  obtain ⟨i, hi⟩ := h.exists_index hk
  refine ⟨k, i, hk, hkt, htk, hi, ?_⟩
  rcases hle.lt_or_eq with hm | rfl
  · refine weeklyPosition_inside h.head?_daySlots h.getLast?_daySlots ?_ ?_ ?_
      (find?_indexesOf (nodup_axisOf rows) hi)
    · simp only [instant_slotAt, quarterHour]
      omega
    · simp only [instant_slotAt, hour, quarterHour] at *
      omega
    · have hother : ∀ j < k, ¬ t < m + j * quarterHour + quarterHour := fun j hj => by
        simp only [quarterHour] at *
        omega
      rw [daySlots, List.find?_map, List.find?_range_eq_some.2 ⟨?_, List.mem_range.2 hk, fun j hj => ?_⟩]
      · rfl
      · simp [instant_slotAt, hkt, htk]
      · simp only [Function.comp_apply, instant_slotAt, hother j hj, and_false, decide_false, Bool.not_false]
  · -- the first slot, in the first row
    obtain rfl : k = 0 := by
      simp only [quarterHour] at hkt
      omega
    have hrow := h.blocks.toRow_slotAt hk
    have hzero : hourOf offset m (0 / 4) = 0 := by
      simp [hourOf, h.blocks.midnight]
    rw [hrow, hzero] at hi
    rw [h.position_midnight, index_midnight h.onClock hi]
    simp

/-- Later instants of the day have larger positions. -/
theorem position_lt (hs : m ≤ s) (hst : s < t) (ht : t ≤ m + N * hour) :
    ∃ p q, positionOf offset m N rows s = some p ∧ positionOf offset m N rows t = some q ∧ p < q := by
  obtain ⟨k, i, hk, hks, hsk, hi, hp⟩ := h.position_eq hs (by omega)
  have hpart := fraction_bounds (x := s - (m + k * quarterHour)) (by omega) (by omega)
  rcases ht.lt_or_eq with ht | rfl
  · obtain ⟨k', i', hk', hkt, htk, hi', hq⟩ := h.position_eq (by omega) ht
    have hpart' := fraction_bounds (x := t - (m + k' * quarterHour)) (by omega) (by omega)
    refine ⟨_, _, hp, hq, ?_⟩
    have hkk : k ≤ k' := by
      simp only [quarterHour] at *
      omega
    rcases hkk.lt_or_eq with hlt | rfl
    · have hii : i + 1 ≤ i' := index_lt hi hi' (h.blocks.compareRows_slotAt hlt hk')
      have hcast : (i : ℚ) + 1 ≤ i' := by exact_mod_cast hii
      linarith
    · obtain rfl := index_inj hi hi'
      have hlt : ((s - (m + k * quarterHour) : ℤ) : ℚ) < (t - (m + k * quarterHour) : ℤ) :=
        Int.cast_lt.2 (by omega)
      have hdiv := div_lt_div_of_pos_right hlt quarterHour_pos
      linarith
  · obtain ⟨hlen, -⟩ := List.getElem?_eq_some_iff.1 hi
    have hcast : (i : ℚ) + 1 ≤ (axisOf rows).length := by exact_mod_cast hlen
    refine ⟨_, _, hp, h.position_next, ?_⟩
    linarith

/-- Different slots have different keys. -/
theorem slotAt_inj {j : ℕ} (hj : j < 4 * N) (hk : k < 4 * N)
    (he : (slotAt offset m j).key = (slotAt offset m k).key) : j = k := by
  have hrow : (slotAt offset m j).toRow = (slotAt offset m k).toRow :=
    (h.blocks.onClock_slotAt hj).eq_of_key (h.blocks.onClock_slotAt hk) he
  rcases Nat.lt_trichotomy j k with hlt | heq | hlt
  · have hcompare := h.blocks.compareRows_slotAt hlt hk
    rw [hrow, compareRows_self] at hcompare
    cases hcompare
  · exact heq
  · have hcompare := h.blocks.compareRows_slotAt hlt hj
    rw [hrow, compareRows_self] at hcompare
    cases hcompare

/-- A time that occurs once is in the first occurrence of its label. -/
theorem row_of_once (hk : k < 4 * N) (hkt : m + k * quarterHour ≤ t)
    (htk : t < m + k * quarterHour + quarterHour) (honce : ∀ u, localOf offset u = localOf offset t → u = t) :
    localOf offset t = d * day + hourOf offset m (k / 4) * hour + (k % 4 : ℕ) * quarterHour +
    (t - (m + k * quarterHour)) ∧
      (slotAt offset m k).toRow = rowOf (labelOf (hourOf offset m (k / 4)) (15 * (k % 4))) 0 := by
  have hlocal : ∀ i ≤ k / 4, localOf offset (t - ((k / 4 : ℕ) - i) * hour) =
      d * day + hourOf offset m i * hour + (k % 4 : ℕ) * quarterHour + (t - (m + k * quarterHour)) := by
    intro i hi
    rw [h.blocks.localOf_block (i := i) (by omega) (by simp only [hour, quarterHour] at *; omega)
      (by simp only [hour, quarterHour] at *; omega)]
    simp only [hour, quarterHour] at *
    omega
  have hself := hlocal (k / 4) le_rfl
  rw [sub_self, zero_mul, sub_zero] at hself
  refine ⟨hself, ?_⟩
  rw [h.blocks.toRow_slotAt hk]
  refine congrArg (rowOf _) (Nat.count_iff_forall_not.2 fun i hi he => ?_)
  have hearlier := hlocal i hi.le
  rw [he, ← hself] at hearlier
  have := honce _ hearlier
  simp only [hour] at this
  omega

end Placed

/-- A wall-clock time that occurs once on each of two days has one position. -/
theorem position_congr {d' m' t' : ℤ} {N' : ℕ} (h : Placed offset d m N rows)
    (h' : Placed offset d' m' N' rows) (ht : dateOf offset t = d) (ht' : dateOf offset t' = d')
    (htime : localOf offset t % day = localOf offset t' % day)
    (honce : ∀ u, localOf offset u = localOf offset t → u = t)
    (honce' : ∀ u, localOf offset u = localOf offset t' → u = t') :
    positionOf offset m N rows t = positionOf offset m' N' rows t' := by
  obtain ⟨hle, hlt⟩ := h.blocks.dateOf_eq.1 ht
  obtain ⟨hle', hlt'⟩ := h'.blocks.dateOf_eq.1 ht'
  obtain ⟨k, i, hk, hkt, htk, hi, hp⟩ := h.position_eq hle hlt
  obtain ⟨k', i', hk', hkt', htk', hi', hp'⟩ := h'.position_eq hle' hlt'
  obtain ⟨hlocal, hrow⟩ := h.row_of_once hk hkt htk honce
  obtain ⟨hlocal', hrow'⟩ := h'.row_of_once hk' hkt' htk' honce'
  have hbound := hourOf_lt offset m (k / 4)
  have hbound' := hourOf_lt offset m' (k' / 4)
  obtain ⟨hhour, hquarter, hrest⟩ : hourOf offset m (k / 4) = hourOf offset m' (k' / 4) ∧ k % 4 = k' % 4 ∧
      t - (m + k * quarterHour) = t' - (m' + k' * quarterHour) := by
    simp only [hlocal, hlocal', day, hour, quarterHour] at *
    omega
  rw [hrow, hhour, hquarter] at hi
  rw [hrow'] at hi'
  obtain rfl := index_inj hi hi'
  rw [hp, hp', hrest]

end positions

/-! ### The axis -/

/-- The slots of a date are its quarter hours, each with a row of its own; the positions grow
from 0 to the number of rows. -/
structure DayAxis (offset : ℤ → ℤ) (model : Model) (d begin finish : ℤ) (slots : List WeekSlot) : Prop where
  real : ∀ t, dateOf offset t = d ↔ begin ≤ t ∧ t < finish
  quarters : ∃ n : ℕ, finish = begin + n * quarterHour ∧
    slots.map WeekSlot.instant = (List.range n).map fun k : ℕ => begin + k * quarterHour
  keys : (slots.map fun slot => slot.key).Nodup
  listed : ∀ slot ∈ slots, ∃ i, model.rows[i]? = some slot.toRow ∧
    model.indexes.find? slot.key = some (slot.key, i)
  first : weeklyPosition begin slots model.indexes model.rows.length = some 0
  last : weeklyPosition finish slots model.indexes model.rows.length = some model.rows.length
  increasing : ∀ s t, begin ≤ s → s < t → t ≤ finish → ∃ p q,
    weeklyPosition s slots model.indexes model.rows.length = some p ∧
    weeklyPosition t slots model.indexes model.rows.length = some q ∧ p < q

theorem Placed.dayAxis {offset : ℤ → ℤ} {d m : ℤ} {N : ℕ} {rows : RowMap} {maps : SlotMap}
    (h : Placed offset d m N rows) :
    DayAxis offset ⟨axisOf rows, maps, indexesOf (axisOf rows)⟩ d m (m + N * hour) (daySlots offset m N) where
  real := fun t => h.blocks.dateOf_eq
  quarters := by
    refine ⟨4 * N, ?_, ?_⟩
    · simp only [hour, quarterHour]
      omega
    · rw [daySlots, List.map_map]
      rfl
  keys := by
    rw [daySlots, List.map_map]
    exact List.Nodup.map_on (fun j hj k hk he => h.slotAt_inj (List.mem_range.1 hj) (List.mem_range.1 hk) he)
      List.nodup_range
  listed := fun slot hslot => by
    obtain ⟨k, hk, rfl⟩ := List.mem_map.1 hslot
    obtain ⟨i, hi⟩ := h.exists_index (List.mem_range.1 hk)
    exact ⟨i, hi, find?_indexesOf (nodup_axisOf rows) hi⟩
  first := h.position_midnight
  last := h.position_next
  increasing := fun s t hs hst ht => h.position_lt hs hst ht

/-- For hourly rules with at most one change on a date, the axis of days with four-digit years has the slots
of every day, and wall-clock times that occur once on two of the days have one position. -/
theorem weekly_axis {offset : ℤ → ℤ} (hrules : Hourly offset) (hone : OncePerDate offset)
    (days : List LocalDate) (hdays : ∀ d ∈ days, FourDigits d) :
    ∃ model, weeklyAxis offset (days.map dayText) = .ok model ∧ (model.rows.map Row.key).Nodup ∧
      (∀ d ∈ days, ∃ slots begin finish, model.daySlots.find? (dayText d) = some (dayText d, slots) ∧
        DayAxis offset model d begin finish slots) ∧
      ∀ d ∈ days, ∀ d' ∈ days, ∀ slots slots', model.daySlots.find? (dayText d) = some (dayText d, slots) →
        model.daySlots.find? (dayText d') = some (dayText d', slots') →
        ∀ t t', dateOf offset t = d → dateOf offset t' = d' →
        localOf offset t % day = localOf offset t' % day →
          (∀ u, localOf offset u = localOf offset t → u = t) →
          (∀ u, localOf offset u = localOf offset t' → u = t') →
          weeklyPosition t slots model.indexes model.rows.length =
            weeklyPosition t' slots' model.indexes model.rows.length := by
  obtain ⟨maps, hrun, hmerged⟩ :=
    (Merged.ordinary offset).run hrules hone (fun _ hd => absurd hd List.not_mem_nil) hdays
  have hplaced : ∀ d ∈ days, ∃ m N, maps.1.find? (dayText d) = some (dayText d, daySlots offset m N) ∧
      Placed offset d m N maps.2 := by
    intro d hd
    obtain ⟨m, N, hN, hblocks, hfind, hrows⟩ := hmerged.listed d (by simpa using hd)
    exact ⟨m, N, hfind, hblocks, hN, hmerged.onClock, hrows⟩
  refine ⟨⟨axisOf maps.2, maps.1, indexesOf (axisOf maps.2)⟩, ?_, nodup_axisOf maps.2, fun d hd => ?_, ?_⟩
  · simp only [weeklyAxis, hrun]
    rfl
  · obtain ⟨m, N, hfind, h⟩ := hplaced d hd
    exact ⟨_, _, _, hfind, h.dayAxis⟩
  · intro d hd d' hd' slots slots' hslots hslots' t t' ht ht' htime honce honce'
    obtain ⟨m, N, hfind, h⟩ := hplaced d hd
    obtain ⟨m', N', hfind', h'⟩ := hplaced d' hd'
    obtain rfl : daySlots offset m N = slots := by simpa [hfind] using hslots
    obtain rfl : daySlots offset m' N' = slots' := by simpa [hfind'] using hslots'
    exact position_congr h h' ht ht' htime honce honce'

/-- Belgrade in 2026. -/
def belgrade2026 (t : ℤ) : ℤ := if t < 1774746000000 then 60 else if t < 1792890000000 then 120 else 60

theorem changes_belgrade2026 {x : ℤ} (h : Changes belgrade2026 x) : x = 1774746000000 ∨
    x = 1792890000000 := by
  unfold Changes belgrade2026 at h
  split_ifs at h <;> omega

theorem hourly_belgrade2026 : Hourly belgrade2026 where
  bounded := fun t => by
    unfold belgrade2026
    split_ifs <;> omega
  whole := fun x hx => by
    rcases changes_belgrade2026 hx with rfl | rfl <;> decide
  full := fun x hx => by
    rcases changes_belgrade2026 hx with rfl | rfl <;> decide
  before := fun x hx => by
    rcases changes_belgrade2026 hx with rfl | rfl <;> decide
  after := fun x hx => by
    rcases changes_belgrade2026 hx with rfl | rfl <;> decide

theorem oncePerDate_belgrade2026 : OncePerDate belgrade2026 := by
  intro x y hx hy hd
  rcases changes_belgrade2026 hx with rfl | rfl <;> rcases changes_belgrade2026 hy with rfl | rfl
  · rfl
  · exact absurd hd (by decide)
  · exact absurd hd (by decide)
  · rfl

/-- The day with the repeated hour beside an ordinary one; noon has one position on both. -/
theorem weekly_axis_autumn :
    ∃ model, weeklyAxis belgrade2026 ["2026-10-24".toList, "2026-10-25".toList] = .ok model ∧
    ∃ slots slots' begin begin' finish finish', DayAxis belgrade2026 model 20750 begin finish slots ∧
      DayAxis belgrade2026 model 20751 begin' finish' slots' ∧
      weeklyPosition 1792836000000 slots model.indexes model.rows.length =
        weeklyPosition 1792926000000 slots' model.indexes model.rows.length := by
  have hdays : ∀ d ∈ ([20750, 20751] : List LocalDate), FourDigits d := fun d hd => by
    rcases List.mem_cons.1 hd with rfl | hd
    · decide
    · obtain rfl := List.mem_singleton.1 hd
      decide
  obtain ⟨model, hrun, -, hday, hsame⟩ :=
    weekly_axis hourly_belgrade2026 oncePerDate_belgrade2026 [20750, 20751] hdays
  obtain ⟨slots, begin, finish, hfind, haxis⟩ := hday 20750 (by simp)
  obtain ⟨slots', begin', finish', hfind', haxis'⟩ := hday 20751 (by simp)
  refine ⟨model, ?_, slots, slots', begin, begin', finish, finish', haxis, haxis', ?_⟩
  · have htext : ([20750, 20751] : List LocalDate).map dayText =
        ["2026-10-24".toList, "2026-10-25".toList] := by decide
    rwa [htext] at hrun
  · refine hsame 20750 (by simp) 20751 (by simp) slots slots' hfind hfind' _ _ (by decide)
      (by decide) (by decide) ?_ ?_
    all_goals
      intro u hu
      simp only [localOf, belgrade2026, minute] at hu
      split_ifs at hu <;> omega

/-! ### Days and rules outside -/

/-- Central European time without changes. -/
def winter (_ : ℤ) : ℤ := 60

theorem hourly_winter : Hourly winter := by
  have hno : ∀ x, ¬ Changes winter x := fun x hx => hx rfl
  exact ⟨fun _ => by simp [winter], fun x hx => absurd hx (hno x), fun x hx => absurd hx (hno x),
    fun x hx => absurd hx (hno x), fun x hx => absurd hx (hno x)⟩

/-- Changes at 22:00 before the first of June 2026, and at 1:00 and 3:00 on it. -/
def crowded (t : ℤ) : ℤ :=
  if t < 1780261200000 then 60 else if t < 1780268400000 then 120 else if t < 1780272000000 then 180 else 240

theorem hourly_crowded : Hourly crowded := by
  have hchanges : ∀ x, Changes crowded x → x = 1780261200000 ∨ x = 1780268400000 ∨
      x = 1780272000000 := fun x hx => by
    unfold Changes crowded at hx
    split_ifs at hx <;> omega
  refine ⟨fun t => ?_, fun x hx => ?_, fun x hx => ?_, fun x hx => ?_, fun x hx => ?_⟩
  · unfold crowded
    split_ifs <;> omega
  all_goals rcases hchanges x hx with rfl | rfl | rfl <;> decide

theorem weeklyAxis_error {offset : ℤ → ℤ} {day : List Char} {e : String}
    (h : businessLocalToInstant offset (day ++ "T00:00".toList) = .error e) :
    weeklyAxis offset [day] = .error e := by
  simp only [weeklyAxis, List.foldlM_cons, addDay, h]
  rfl

/-- A day before the year 1000 and the last day of the year 9999 are refused; two changes on a
date can hide its midnight. -/
theorem weekly_axis_refused :
    Hourly winter ∧ OncePerDate winter ∧
    weeklyAxis winter ["0999-06-01".toList] = .error
      "Izabrano lokalno vreme ne postoji ili datum nije validan. Proverite prelazak na letnje računanje vremena." ∧
    weeklyAxis winter ["9999-12-31".toList] = .error "Datum i vreme nisu validni." ∧
    Hourly crowded ∧ weeklyAxis crowded ["2026-06-01".toList] = .error
      "Izabrano lokalno vreme ne postoji ili datum nije validan. Proverite prelazak na letnje računanje vremena." := by
  refine ⟨hourly_winter, fun x _ hx => absurd rfl hx, weeklyAxis_error (by decide +kernel), ?_,
    hourly_crowded, weeklyAxis_error (by decide +kernel)⟩
  have hbegin : businessLocalToInstant winter ("9999-12-31".toList ++ "T00:00".toList) =
      .ok 253402210800000 := by
    decide +kernel
  have hnext : addDays "9999-12-31".toList 1 = .ok "+010000-01".toList := by decide +kernel
  have hfinish : businessLocalToInstant winter ("+010000-01".toList ++ "T00:00".toList) =
      .error "Datum i vreme nisu validni." := by
    decide +kernel
  simp only [weeklyAxis, List.foldlM_cons, addDay, hbegin, hnext, hfinish, bind, Except.bind]

end GManager.WeeklyAxis
