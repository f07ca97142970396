import GManager.ZonedDates
import Mathlib.Data.Set.Defs

/-!
# Business-local times in the browser

`businessInstantToLocal` and its inverse, over a zone with a piecewise-constant offset. Instants are the
milliseconds of a `Date`. The formatter writes the year as it is, without leading zeros, and the months,
days, hours and minutes with two digits; a year before year 1 is written as the year of its era.
-/

namespace GManager.BusinessTime

def minute : ℤ := 60000

def day : ℤ := 86400000

/-- Offsets in minutes, and the instants at which they change. -/
structure OffsetRules where
  offset : ℤ → ℤ
  transitions : Set ℤ
  bounded : ∀ t, -1440 ≤ offset t ∧ offset t ≤ 1440
  constant : ∀ s t, s ≤ t → (∀ x ∈ transitions, ¬ (s < x ∧ x ≤ t)) → offset s = offset t
  apart : ∀ x ∈ transitions, ∀ y ∈ transitions, x < y → x + 4 * day < y
  small : ∀ x ∈ transitions, offset (x - 1) - 120 ≤ offset x ∧ offset x ≤ offset (x - 1) + 120

/-- The numbers of a date and time, as the formatter and the pattern give them. -/
structure DateParts where
  year : ℕ
  month : ℕ
  day : ℕ
  hour : ℕ
  minute : ℕ
  deriving DecidableEq, Repr

/-- The proleptic year of a local time. -/
def yearOf (local' : ℤ) : ℤ := LocalDate.month (local' / day) / 12

/-- `formatToParts` of a local time. -/
def partsOf (local' : ℤ) : DateParts where
  year := (if 0 < yearOf local' then yearOf local' else 1 - yearOf local').toNat
  month := (LocalDate.month (local' / day) % 12 + 1).toNat
  day := (local' / day - LocalDate.firstOfMonth (LocalDate.month (local' / day)) + 1).toNat
  hour := (local' % day / 3600000).toNat
  minute := (local' % 3600000 / minute).toNat

def twoDigits (n : ℕ) : List Char := [Nat.digitChar (n / 10), Nat.digitChar (n % 10)]

def format (p : DateParts) : List Char :=
  Nat.toDigits 10 p.year ++ '-' :: twoDigits p.month ++ '-' :: twoDigits p.day ++ 'T' :: twoDigits p.hour ++
    ':' :: twoDigits p.minute

/-- `Number` of a string of digits. -/
def number (s : List Char) : ℕ := Nat.ofDigitChars 10 s 0

/-- `/^(\d{4})-(\d{2})-(\d{2})T(\d{2}):(\d{2})$/`. -/
def matchLocal (value : List Char) : Option DateParts :=
  let year := value.take 4
  let month := (value.drop 5).take 2
  let day := (value.drop 8).take 2
  let hour := (value.drop 11).take 2
  let minute := (value.drop 14).take 2
  if value.length = 16 ∧ value = year ++ '-' :: month ++ '-' :: day ++ 'T' :: hour ++ ':' :: minute ∧
      (year ++ month ++ day ++ hour ++ minute).all Char.isDigit then
    some ⟨number year, number month, number day, number hour, number minute⟩
  else none

/-- `Date.UTC`, with the month counted from 1. Values out of their ranges carry over, and a year below 100
is one of the twentieth century. -/
def utc (p : DateParts) : ℤ :=
  (LocalDate.firstOfMonth (12 * (if p.year < 100 then 1900 + p.year else p.year) + (p.month - 1)) +
    (p.day - 1)) * day + p.hour * 3600000 + p.minute * minute

namespace OffsetRules

variable (z : OffsetRules)

def localOf (t : ℤ) : ℤ := t + z.offset t * minute

/-- `businessInstantToLocal`. -/
def businessInstantToLocal (t : ℤ) : List Char := format (partsOf (z.localOf t))

/-- The attempts of the loop that are left, from a candidate on. -/
def attempt (value : List Char) (desiredUtc : ℤ) : ℕ → ℤ → Option ℤ
  | 0, _ => none
  | n + 1, candidate =>
    let represented := utc (partsOf (z.localOf candidate))
    if represented = desiredUtc then
      if z.businessInstantToLocal candidate = value then some candidate else none
    else attempt value desiredUtc n (candidate + (desiredUtc - represented))

/-- `businessLocalToInstant`. -/
def businessLocalToInstant (value : List Char) : Except String ℤ :=
  match matchLocal value with
  | none => .error "Datum i vreme nisu validni."
  | some p =>
    match z.attempt value (utc p) 4 (utc p) with
    | some instant => .ok instant
    | none => .error
      "Izabrano lokalno vreme ne postoji ili datum nije validan. Proverite prelazak na letnje računanje vremena."

end OffsetRules

/-! ### Parts and their text -/

section parts

variable {l : ℤ} {p q : DateParts} {n : ℕ}

/-- The parts of a local time are those of a date. -/
structure DateParts.Valid (p : DateParts) : Prop where
  year : 1 ≤ p.year
  month : 1 ≤ p.month ∧ p.month ≤ 12
  day : 1 ≤ p.day ∧ p.day ≤ 31
  hour : p.hour < 24
  minute : p.minute < 60

theorem partsOf_valid (l : ℤ) : (partsOf l).Valid := by
  have hm := LocalDate.month_spec (l / day)
  have hlen := LocalDate.monthLength_bounds (LocalDate.month (l / day))
  have hsucc := LocalDate.firstOfMonth_succ (LocalDate.month (l / day))
  refine ⟨?_, ?_, ?_, ?_, ?_⟩ <;> simp only [partsOf]
  · split <;> omega
  · omega
  · omega
  · simp only [day]
    omega
  · simp only [minute]
    omega

/-- `Date.UTC` gives back the whole minutes of a local time, from year 100 on. -/
theorem utc_partsOf (h : 100 ≤ yearOf l) : utc (partsOf l) = l - l % minute := by
  have hm := LocalDate.month_spec (l / day)
  have hyear : (partsOf l).year = yearOf l := by
    simp only [partsOf]
    split <;> omega
  have hmonth : ((partsOf l).month : ℤ) - 1 = LocalDate.month (l / day) % 12 := by
    simp only [partsOf]
    omega
  have hday : ((partsOf l).day : ℤ) - 1 = l / day - LocalDate.firstOfMonth (LocalDate.month (l / day)) := by
    simp only [partsOf]
    omega
  rw [utc, if_neg (by omega), hyear, hmonth, hday, yearOf, Int.mul_ediv_add_emod]
  simp only [partsOf, day, minute]
  omega

theorem utc_emod (p : DateParts) : utc p % minute = 0 := by
  simp only [utc, day, minute]
  omega

/-- The seconds of a local time are not shown. -/
theorem partsOf_floor (l : ℤ) : partsOf (l - l % minute) = partsOf l ∧
    yearOf (l - l % minute) = yearOf l := by
  have hday : (l - l % minute) / day = l / day := by
    simp only [day, minute]
    omega
  have hyear : yearOf (l - l % minute) = yearOf l := by rw [yearOf, hday, yearOf]
  refine ⟨?_, hyear⟩
  simp only [partsOf, hyear, hday, DateParts.mk.injEq, true_and]
  simp only [day, minute]
  omega

theorem le_month {m d : ℤ} (h : LocalDate.firstOfMonth m ≤ d) : m ≤ LocalDate.month d := by
  have hspec := LocalDate.month_spec d
  by_contra hlt
  have := LocalDate.firstOfMonth_mono (m := LocalDate.month d + 1) (n := m) (by omega)
  omega

theorem le_yearOf {y : ℤ} : y ≤ yearOf l ↔ LocalDate.firstOfMonth (12 * y) ≤ l / day := by
  have hspec := LocalDate.month_spec (l / day)
  constructor
  · intro h
    exact (LocalDate.firstOfMonth_mono (by rw [yearOf] at h; omega)).trans hspec.1
  · intro h
    have := le_month h
    rw [yearOf]
    omega

/-- Two days before a time of year 1000 or later it is year 100 or later. -/
theorem yearOf_of_near {d : ℤ} (hd : 1000 ≤ yearOf d) (h : d - 2 * day ≤ l) : 100 ≤ yearOf l := by
  rw [le_yearOf] at hd ⊢
  have h₁ : LocalDate.firstOfMonth (12 * 100) = -683003 := by decide
  have h₂ : LocalDate.firstOfMonth (12 * 1000) = -354285 := by decide
  simp only [day] at *
  omega

theorem yearOf_utc (hp : p.Valid) (h : 100 ≤ p.year) : (p.year : ℤ) ≤ yearOf (utc p) := by
  rw [le_yearOf]
  have hle := LocalDate.firstOfMonth_mono (m := 12 * (p.year : ℤ)) (n := 12 * p.year + (p.month - 1))
      (by have := hp.month.1; omega)
  have hday := hp.day.1
  rw [utc, if_neg (by omega)]
  simp only [day, minute]
  omega

theorem twoDigits_spec (h : n < 100) : number (twoDigits n) = n ∧ (twoDigits n).all Char.isDigit := by
  decide +revert

theorem length_toDigits_eq_four : (Nat.toDigits 10 n).length = 4 ↔ 1000 ≤ n ∧ n < 10000 := by
  have h₃ : (Nat.toDigits 10 n).length ≤ 3 ↔ n < 10 ^ 3 := Nat.length_toDigits_le_iff (by decide) (by decide)
  have h₄ : (Nat.toDigits 10 n).length ≤ 4 ↔ n < 10 ^ 4 := Nat.length_toDigits_le_iff (by decide) (by decide)
  omega

/-- A date of a year with four digits is read back. -/
theorem matchLocal_format (hp : p.Valid) (hyear : 1000 ≤ p.year ∧ p.year < 10000) :
    matchLocal (format p) = some p := by
  obtain ⟨a, b, c, d, hdigits⟩ : ∃ a b c d, Nat.toDigits 10 p.year = [a, b, c, d] := by
    have hlen := length_toDigits_eq_four.2 hyear
    match hds : Nat.toDigits 10 p.year, hlen with
    | [a, b, c, d], _ => exact ⟨a, b, c, d, rfl⟩
  have hnumber : number [a, b, c, d] = p.year := by rw [number, ← hdigits, Nat.ofDigitChars_ten_toDigits]
  have hall : [a, b, c, d].all Char.isDigit := by
    rw [← hdigits, List.all_eq_true]
    exact fun c hc => Nat.isDigit_of_mem_toDigits (by decide) (by decide) hc
  have hm := twoDigits_spec (n := p.month) (by have := hp.month.2; omega)
  have hd := twoDigits_spec (n := p.day) (by have := hp.day.2; omega)
  have hh := twoDigits_spec (n := p.hour) (by have := hp.hour; omega)
  have hn := twoDigits_spec (n := p.minute) (by have := hp.minute; omega)
  simp only [twoDigits] at hm hd hh hn
  simp only [matchLocal, format, hdigits, twoDigits]
  rw [if_pos]
  · simp [hnumber, hm.1, hd.1, hh.1, hn.1]
  · refine ⟨rfl, rfl, ?_⟩
    simp only [List.all_append, Bool.and_eq_true]
    exact ⟨⟨⟨⟨hall, hm.2⟩, hd.2⟩, hh.2⟩, hn.2⟩

/-- What is read from the text of a date is this date. -/
theorem eq_of_matchLocal_format (hp : p.Valid) (h : matchLocal (format p) = some q) :
    q = p ∧ 1000 ≤ p.year ∧ p.year < 10000 := by
  have hlen : (format p).length = 16 := by
    by_contra hne
    simp [matchLocal, hne] at h
  have hyear : 1000 ≤ p.year ∧ p.year < 10000 := by
    rw [← length_toDigits_eq_four]
    simp [format, twoDigits] at hlen
    omega
  rw [matchLocal_format hp hyear] at h
  exact ⟨(Option.some.inj h).symm, hyear⟩

end parts

/-! ### Offsets around a time -/

namespace OffsetRules

variable {z : OffsetRules} {x y w : ℤ}

theorem exists_transition (hle : x ≤ y) (hne : z.offset x ≠ z.offset y) :
    ∃ t ∈ z.transitions, x < t ∧ t ≤ y := by
  by_contra hno
  push Not at hno
  exact hne (z.constant x y hle fun t ht hin => absurd hin.2 (not_le.2 (hno t ht hin.1)))

/-- Within four days there is one change, so that the offset in between is that of one of the ends. -/
theorem between_offsets (hxy : x ≤ y) (hyw : y ≤ w) (hspan : w - x ≤ 4 * day) : z.offset y = z.offset x ∨
    z.offset y = z.offset w := by
  by_contra hno
  obtain ⟨h₁, h₂⟩ := not_or.1 hno
  obtain ⟨s, hs, hxs, hsy⟩ := exists_transition hxy (Ne.symm h₁)
  obtain ⟨t, ht, hyt, htw⟩ := exists_transition hyw h₂
  have := z.apart s hs t ht (hsy.trans_lt hyt)
  omega

/-- Of three offsets within four days two are the same. -/
theorem two_offsets (hxy : |x - y| ≤ 4 * day) (hyw : |y - w| ≤ 4 * day) (hxw : |x - w| ≤ 4 * day) :
    z.offset x = z.offset y ∨ z.offset y = z.offset w ∨ z.offset x = z.offset w := by
  rw [abs_le] at hxy hyw hxw
  -- one of the three lies between the others
  rcases le_total x y with h₁ | h₁ <;> rcases le_total y w with h₂ | h₂ <;>
    rcases le_total x w with h₃ | h₃ <;>
    grind [between_offsets]

/-! ### The loop -/

/-- A candidate of the loop: within a day of the desired time. -/
def Near (desired candidate : ℤ) : Prop := ∃ k, -1440 ≤ k ∧ k ≤ 1440 ∧ candidate = desired - k * minute

variable {value : List Char} {desired candidate instant : ℤ} {n : ℕ}

theorem Near.self (desired : ℤ) : Near desired desired := ⟨0, by decide, by decide, by omega⟩

theorem Near.next (z : OffsetRules) (desired t : ℤ) : Near desired (desired - z.offset t * minute) :=
  ⟨z.offset t, (z.bounded t).1, (z.bounded t).2, rfl⟩

theorem attempt_succ (hmin : desired % minute = 0) (hyear : 1000 ≤ yearOf desired)
    (hnear : Near desired candidate) : z.attempt value desired (n + 1) candidate =
      if z.localOf candidate = desired then if z.businessInstantToLocal candidate = value then some
        candidate else none
      else z.attempt value desired n (desired - z.offset candidate * minute) := by
  obtain ⟨k, hk, hk', rfl⟩ := hnear
  have hoff := z.bounded (desired - k * minute)
  have hlocal : utc (partsOf (z.localOf (desired - k * minute))) = z.localOf (desired - k * minute) := by
    rw [utc_partsOf (yearOf_of_near hyear ?_)]
    · simp only [localOf, minute] at *
      omega
    · simp only [localOf, minute, day] at *
      omega
  have hnext : desired - k * minute + (desired - z.localOf (desired - k * minute)) =
      desired - z.offset (desired - k * minute) * minute := by
    rw [localOf]
    omega
  simp only [attempt, hlocal, hnext]

/-- What the loop returns is an instant of the desired time. -/
theorem localOf_of_attempt (hmin : desired % minute = 0) (hyear : 1000 ≤ yearOf desired)
    (hnear : Near desired candidate) (h : z.attempt value desired n candidate = some instant) :
    Near desired instant ∧ z.localOf instant = desired := by
  induction n generalizing candidate with
  | zero => cases h
  | succ n ih =>
    rw [attempt_succ hmin hyear hnear] at h
    split_ifs at h with h₁ h₂
    · obtain rfl := Option.some.inj h
      exact ⟨hnear, h₁⟩
    · exact ih (Near.next z desired candidate) h

theorem eq_of_attempt (h : z.attempt value desired n candidate = some instant) :
    z.businessInstantToLocal instant = value := by
  induction n generalizing candidate with
  | zero => cases h
  | succ n ih =>
    simp only [attempt] at h
    split_ifs at h with h₁ h₂
    · obtain rfl := Option.some.inj h
      exact h₂
    · exact ih h

/-- The loop ends with its third candidate at the latest: the offsets at the desired time, at the second
candidate and at an instant of the desired time are at most two. -/
theorem attempt_converges (hmin : desired % minute = 0) (hyear : 1000 ≤ yearOf desired)
    (hi : z.localOf instant = desired) :
    ∃ j, z.attempt (z.businessInstantToLocal instant) desired 4 desired = some j := by
  have hvalue : ∀ c, z.localOf c = desired →
      z.businessInstantToLocal c = z.businessInstantToLocal instant := fun c hc => by
    rw [businessInstantToLocal, hc, businessInstantToLocal, hi]
  have hi' : instant = desired - z.offset instant * minute := by
    rw [localOf] at hi
    omega
  rw [attempt_succ hmin hyear (.self desired)]
  split_ifs with h₀ hv
  · exact ⟨_, rfl⟩
  · exact absurd (hvalue _ h₀) hv
  rw [attempt_succ hmin hyear (.next z desired desired)]
  split_ifs with h₁ hv
  · exact ⟨_, rfl⟩
  · exact absurd (hvalue _ h₁) hv
  have h₂ : z.localOf (desired - z.offset (desired - z.offset desired * minute) * minute) = desired := by
    generalize hc : desired - z.offset desired * minute = c at *
    have hb := z.bounded desired
    have hb' := z.bounded instant
    rcases two_offsets (z := z) (x := desired) (y := c) (w := instant)
      (by simp only [minute, day, abs_le] at *; omega) (by simp only [minute, day, abs_le] at *; omega)
      (by simp only [minute, day, abs_le] at *; omega) with h | h | h
    · refine absurd ?_ h₁
      rw [localOf, ← h]
      omega
    · rw [h, ← hi', hi]
    · refine absurd ?_ h₁
      rw [← hc, h, ← hi', hi]
  rw [attempt_succ hmin hyear (.next z desired _)]
  split_ifs with hv
  · exact ⟨_, rfl⟩
  · exact absurd (hvalue _ h₂) hv

/-- An instant of the common era that is shown as `value`. -/
def Shows (z : OffsetRules) (value : List Char) (t : ℤ) : Prop :=
  z.businessInstantToLocal t = value ∧ 0 < yearOf (z.localOf t)

theorem businessLocalToInstant_eq_ok : z.businessLocalToInstant value = .ok instant ↔
    ∃ p, matchLocal value = some p ∧ z.attempt value (utc p) 4 (utc p) = some instant := by
  unfold businessLocalToInstant
  cases hm : matchLocal value with
  | none => simp
  | some p => cases ha : z.attempt value (utc p) 4 (utc p) <;> simp [ha]

theorem parts_of_shows {p : DateParts} (h : z.Shows value instant) (hp : matchLocal value = some p) :
    p = partsOf (z.localOf instant) ∧ 1000 ≤ yearOf (z.localOf instant) := by
  obtain ⟨rfl, hera⟩ := h
  obtain ⟨rfl, hyear, -⟩ := eq_of_matchLocal_format (partsOf_valid _) hp
  refine ⟨rfl, ?_⟩
  simp only [partsOf, if_pos hera] at hyear
  omega

/-- A local time that some whole minute has is resolved. -/
theorem ok_of_shows (hmatch : (matchLocal value).isSome) (hmin : instant % minute = 0)
    (h : z.Shows value instant) : ∃ j, z.businessLocalToInstant value = .ok j := by
  obtain ⟨p, hp⟩ := Option.isSome_iff_exists.1 hmatch
  obtain ⟨rfl, hyear⟩ := parts_of_shows h hp
  have hutc : utc (partsOf (z.localOf instant)) = z.localOf instant := by
    rw [utc_partsOf (by omega)]
    simp only [localOf, minute] at *
    omega
  have hdesired := utc_emod (partsOf (z.localOf instant))
  rw [hutc] at hdesired
  obtain ⟨j, hj⟩ := attempt_converges hdesired hyear rfl
  rw [h.1] at hj
  refine ⟨j, businessLocalToInstant_eq_ok.2 ⟨_, hp, ?_⟩⟩
  rw [hutc]
  exact hj

/-- What is returned is a whole minute that is shown as the value. -/
theorem shows_of_ok (h : z.businessLocalToInstant value = .ok instant) : z.Shows value instant ∧
    instant % minute = 0 := by
  obtain ⟨p, hp, ha⟩ := businessLocalToInstant_eq_ok.1 h
  have hshow := eq_of_attempt ha
  rw [← hshow] at hp
  obtain ⟨hparts, hyear, -⟩ := eq_of_matchLocal_format (partsOf_valid _) hp
  have hlate : 1000 ≤ yearOf (utc p) := by
    have := yearOf_utc (hparts ▸ partsOf_valid _) (by rw [hparts]; omega)
    rw [hparts] at this ⊢
    omega
  have hmin := utc_emod p
  obtain ⟨⟨k, -, -, hk⟩, hlocal⟩ := localOf_of_attempt hmin hlate (.self _) ha
  refine ⟨⟨hshow, ?_⟩, ?_⟩
  · rw [hlocal]
    omega
  · simp only [minute] at *
    omega

end OffsetRules

/-- A well-formed value is resolved to an instant that is shown as the value when some whole minute is, and
refused otherwise; and a whole minute of the years 1000 to 9999 that is not in a repeated hour is given
back. Where the offset changes at whole minutes only, an instant is shown as a whole minute is. -/
theorem business_time (z : OffsetRules) :
    (∀ value, (matchLocal value).isSome →
      ((∃ i, i % minute = 0 ∧ z.Shows value i) → ∃ j, z.businessLocalToInstant value = .ok j ∧
        z.Shows value j) ∧
      ((¬ ∃ i, i % minute = 0 ∧ z.Shows value i) → ∃ e, z.businessLocalToInstant value = .error e)) ∧
    (∀ i, i % minute = 0 → 1000 ≤ yearOf (z.localOf i) → yearOf (z.localOf i) ≤ 9999 →
      (∀ j, j % minute = 0 → z.localOf j = z.localOf i → j = i) →
      z.businessLocalToInstant (z.businessInstantToLocal i) = .ok i) ∧
    ((∀ x ∈ z.transitions, x % minute = 0) → ∀ value i, z.Shows value i → ∃ j, j % minute = 0 ∧
      z.Shows value j) := by
  refine ⟨fun value hmatch => ⟨?_, fun hno => ?_⟩, fun i hmin hlow hhigh hunique => ?_,
    fun htrans value i hi => ?_⟩
  · rintro ⟨i, hmin, hi⟩
    obtain ⟨j, hj⟩ := OffsetRules.ok_of_shows hmatch hmin hi
    exact ⟨j, hj, (OffsetRules.shows_of_ok hj).1⟩
  · cases hr : z.businessLocalToInstant value with
    | ok j => exact absurd ⟨j, (OffsetRules.shows_of_ok hr).symm⟩ hno
    | error e => exact ⟨e, rfl⟩
  · have hshow : z.Shows (z.businessInstantToLocal i) i := ⟨rfl, by omega⟩
    have hyear : 1000 ≤ (partsOf (z.localOf i)).year ∧ (partsOf (z.localOf i)).year < 10000 := by
      simp only [partsOf]
      split <;> omega
    have hmatch := matchLocal_format (partsOf_valid (z.localOf i)) hyear
    obtain ⟨j, hj⟩ :=
      OffsetRules.ok_of_shows (by rw [OffsetRules.businessInstantToLocal, hmatch]; rfl) hmin hshow
    obtain ⟨hshow', hmin'⟩ := OffsetRules.shows_of_ok hj
    obtain ⟨hparts, hyear'⟩ := OffsetRules.parts_of_shows hshow' hmatch
    have hlocal : z.localOf j = z.localOf i := by
      have h₁ := utc_partsOf (l := z.localOf i) (by omega)
      have h₂ := utc_partsOf (l := z.localOf j) (by omega)
      rw [hparts, h₂] at h₁
      simp only [OffsetRules.localOf, minute] at *
      omega
    rwa [hunique j hmin' hlocal] at hj
  · have hoff : z.offset (i - i % minute) = z.offset i := by
      refine z.constant _ _ (by simp only [minute]; omega) fun x hx hin => ?_
      have := htrans x hx
      simp only [minute] at *
      omega
    have hlocal : z.localOf (i - i % minute) = z.localOf i - z.localOf i % minute := by
      rw [OffsetRules.localOf, hoff, OffsetRules.localOf]
      simp only [minute]
      omega
    obtain ⟨hparts, hyear⟩ := partsOf_floor (z.localOf i)
    refine ⟨i - i % minute, by simp only [minute]; omega, ?_, ?_⟩
    · rw [OffsetRules.businessInstantToLocal, hlocal, hparts]
      exact hi.1
    · rw [hlocal, hyear]
      exact hi.2

/-- Central European time up to the end of March 2026, and summer time from then on. -/
def summerRules : OffsetRules where
  offset t := if t < 1774746000000 then 60 else 120
  transitions := {1774746000000}
  bounded t := by split <;> decide
  constant s t hle h := by
    have := h 1774746000000 rfl
    grind
  apart x hx y hy hlt := by
    obtain rfl : x = 1774746000000 := hx
    obtain rfl : y = 1774746000000 := hy
    exact absurd hlt (lt_irrefl _)
  small x hx := by
    obtain rfl : x = 1774746000000 := hx
    decide

theorem business_time_summer :
    (∃ j, summerRules.businessLocalToInstant "2026-07-15T12:00".toList = .ok j ∧
      summerRules.Shows "2026-07-15T12:00".toList j) ∧
    summerRules.businessLocalToInstant "2026-03-29T02:30".toList = .error
      "Izabrano lokalno vreme ne postoji ili datum nije validan. Proverite prelazak na letnje računanje vremena." :=
  ⟨((business_time summerRules).1 _ (by decide +kernel)).1 ⟨1784109600000, by decide, by decide +kernel,
    by decide +kernel⟩, by decide +kernel⟩

/-! ### Years of five digits -/

def utcRules : OffsetRules :=
  ⟨fun _ => 0, ∅, fun _ => by decide, fun _ _ _ _ => rfl, fun _ hx => absurd hx (Set.notMem_empty _),
    fun _ hx => absurd hx (Set.notMem_empty _)⟩

/-- The first minute of year 10000 is not in a repeated hour, and its local form is refused. -/
theorem five_digit_year : (∀ j, utcRules.localOf j = utcRules.localOf 253402300800000 → j = 253402300800000) ∧
    utcRules.businessLocalToInstant (utcRules.businessInstantToLocal 253402300800000) = .error
      "Datum i vreme nisu validni." := by
  refine ⟨fun j hj => ?_, by decide +kernel⟩
  simpa [OffsetRules.localOf, utcRules] using hj

end GManager.BusinessTime
