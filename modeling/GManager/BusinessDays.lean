import GManager.LocalHours

/-!
# Business days in the browser

The conversions of `BusinessTime` for any offset, and the dates of the calendar as texts. For an hourly
offset with one change on a date the midnight of every day with a four-digit year is found, by the
fourth candidate at the latest.
-/

namespace GManager.BusinessTime

def businessInstantToLocal (offset : ℤ → ℤ) (t : ℤ) : List Char := format (partsOf (localOf offset t))

/-- The attempts of the loop that are left. -/
def attempt (offset : ℤ → ℤ) (value : List Char) (desiredUtc : ℤ) : ℕ → ℤ → Option ℤ
  | 0, _ => none
  | n + 1, candidate =>
    let represented := utc (partsOf (localOf offset candidate))
    if represented = desiredUtc then
      if businessInstantToLocal offset candidate = value then some candidate else none
    else attempt offset value desiredUtc n (candidate + (desiredUtc - represented))

def businessLocalToInstant (offset : ℤ → ℤ) (value : List Char) : Except String ℤ :=
  match matchLocal value with
  | none => .error "Datum i vreme nisu validni."
  | some p =>
    match attempt offset value (utc p) 4 (utc p) with
    | some instant => .ok instant
    | none => .error
      "Izabrano lokalno vreme ne postoji ili datum nije validan. Proverite prelazak na letnje računanje vremena."

/-- The conversions of `OffsetRules` are these. -/
theorem OffsetRules.businessLocalToInstant_offset (z : OffsetRules) (value : List Char) :
    z.businessLocalToInstant value = BusinessTime.businessLocalToInstant z.offset value := by
  have hattempt : ∀ desired n candidate, z.attempt value desired n candidate =
      BusinessTime.attempt z.offset value desired n candidate := by
    intro desired n
    induction n with
    | zero => exact fun _ => rfl
    | succ n ih =>
      intro candidate
      simp only [OffsetRules.attempt, BusinessTime.attempt, ih]
      rfl
  cases hm : matchLocal value with
  | none => simp [OffsetRules.businessLocalToInstant, BusinessTime.businessLocalToInstant, hm]
  | some p =>
    cases ha : BusinessTime.attempt z.offset value (utc p) 4 (utc p) <;>
      simp [OffsetRules.businessLocalToInstant, BusinessTime.businessLocalToInstant, hm, hattempt, ha]

/-! ### Dates as texts -/

/-- The year of `toISOString`. -/
def isoYear (y : ℤ) : List Char :=
  if 0 ≤ y ∧ y ≤ 9999 then (Nat.toDigits 10 y.toNat).leftpad 4 '0'
  else (if 0 ≤ y then '+' else '-') :: (Nat.toDigits 10 y.natAbs).leftpad 6 '0'

/-- `toISOString().slice(0, 10)`. -/
def isoDate (t : ℤ) : List Char :=
  (isoYear (yearOf t) ++ '-' :: twoDigits (partsOf t).month ++ '-' :: twoDigits (partsOf t).day).take 10

/-- Noon UTC of a date with a four-digit year. `Date` takes the days 1 to 31 of every month: one that the
month does not have carries over into the next. -/
def parseDate (value : List Char) : Option ℤ :=
  (matchLocal (value ++ "T12:00".toList)).bind fun p =>
    let month := 12 * (p.year : ℤ) + (p.month - 1)
    if 1 ≤ p.month ∧ p.month ≤ 12 ∧ 1 ≤ p.day ∧ p.day ≤ 31 then
      some ((LocalDate.firstOfMonth month + (p.day - 1)) * day + 12 * hour)
    else none

def addDays (value : List Char) (count : ℤ) : Except String (List Char) :=
  match parseDate value with
  | some date => .ok (isoDate (date + count * day))
  | none => .error "Invalid time value"

/-- The ISO text of a date. -/
def dayText (d : LocalDate) : List Char := isoDate (d * day)

/-- The day and the one after it have four-digit years. -/
def FourDigits (d : LocalDate) : Prop := 1000 ≤ yearOf (d * day) ∧ yearOf ((d + 1) * day) ≤ 9999

instance (d : LocalDate) : Decidable (FourDigits d) := inferInstanceAs (Decidable (_ ∧ _))

variable {t l : ℤ} {d : ℤ}

/-- Times of one date have one text. -/
theorem isoDate_eq (h : t / day = l / day) : isoDate t = isoDate l := by
  simp only [isoDate, partsOf, yearOf, h]

theorem isoYear_of_fourDigits {y : ℤ} (h : 1000 ≤ y ∧ y ≤ 9999) : isoYear y = Nat.toDigits 10 y.toNat := by
  have hlen := (length_toDigits_eq_four (n := y.toNat)).2 (by omega)
  rw [isoYear, if_pos (by omega), List.leftpad, hlen]
  rfl

/-- The text of a local time is that of its date and that of its time. -/
theorem format_partsOf (h : 1000 ≤ yearOf l ∧ yearOf l ≤ 9999) :
    format (partsOf l) = isoDate l ++ 'T' :: twoDigits (partsOf l).hour ++ ':' ::
    twoDigits (partsOf l).minute := by
  have hyear : (partsOf l).year = (yearOf l).toNat := by simp only [partsOf, if_pos (by omega : 0 < yearOf l)]
  have hlen := (length_toDigits_eq_four (n := (yearOf l).toNat)).2 (by omega)
  rw [format, isoDate, isoYear_of_fourDigits h, hyear, List.take_of_length_le (by simp [hlen, twoDigits])]

theorem length_isoDate (h : 1000 ≤ yearOf l ∧ yearOf l ≤ 9999) : (isoDate l).length = 10 := by
  have hlen := (length_toDigits_eq_four (n := (yearOf l).toNat)).2 (by omega)
  rw [isoDate, isoYear_of_fourDigits h]
  simp [hlen, twoDigits]

/-- A date is read back from its text, as noon. -/
theorem parseDate_dayText (h : 1000 ≤ yearOf (d * day) ∧ yearOf (d * day) ≤ 9999) :
    parseDate (dayText d) = some (d * day + 12 * hour) := by
  have hnoon : (d * day + 12 * hour) / day = d * day / day := by
    simp only [day, hour]
    omega
  have hd : d * day / day = d := Int.mul_ediv_cancel _ (by decide)
  have hyear : yearOf (d * day + 12 * hour) = yearOf (d * day) := by rw [yearOf, hnoon, yearOf]
  have hclock : (partsOf (d * day + 12 * hour)).hour = 12 ∧ (partsOf (d * day + 12 * hour)).minute = 0 := by
    simp only [partsOf, day, hour, minute]
    omega
  have htext : dayText d ++ "T12:00".toList = format (partsOf (d * day + 12 * hour)) := by
    rw [format_partsOf (by rwa [hyear]), isoDate_eq hnoon, hclock.1, hclock.2, List.append_assoc]
    exact congrArg (isoDate (d * day) ++ ·) (by decide)
  have hyear' : ((partsOf (d * day + 12 * hour)).year : ℤ) = yearOf (d * day) := by
    simp only [partsOf, hyear]
    split <;> omega
  have hmonth := LocalDate.month_spec d
  have hindex : 12 * ((partsOf (d * day + 12 * hour)).year : ℤ) + ((partsOf (d * day + 12 * hour)).month - 1) =
      LocalDate.month d := by
    rw [hyear', yearOf, hd]
    simp only [partsOf, hnoon, hd]
    omega
  have hday : ((partsOf (d * day + 12 * hour)).day : ℤ) = d -
      LocalDate.firstOfMonth (LocalDate.month d) + 1 := by
    simp only [partsOf, hnoon, hd]
    omega
  have hvalid := partsOf_valid (d * day + 12 * hour)
  rw [parseDate, htext, matchLocal_format hvalid (by omega), Option.bind_some]
  simp only [hindex, hday]
  rw [if_pos ⟨hvalid.month.1, hvalid.month.2, hvalid.day.1, hvalid.day.2⟩]
  refine congrArg some ?_
  ring

theorem yearOf_succ (d : ℤ) : yearOf (d * day) ≤ yearOf ((d + 1) * day) := by
  rw [le_yearOf]
  have hle := (le_yearOf (l := d * day)).1 le_rfl
  simp only [day] at *
  omega

theorem FourDigits.year (h : FourDigits d) : 1000 ≤ yearOf (d * day) ∧ yearOf (d * day) ≤ 9999 :=
  ⟨h.1, (yearOf_succ d).trans h.2⟩

theorem FourDigits.next (h : FourDigits d) : 1000 ≤ yearOf ((d + 1) * day) ∧ yearOf ((d + 1) * day) ≤ 9999 :=
  ⟨h.1.trans (yearOf_succ d), h.2⟩

theorem addDays_dayText (h : FourDigits d) : addDays (dayText d) 1 = .ok (dayText (d + 1)) := by
  rw [addDays, parseDate_dayText h.year]
  refine congrArg Except.ok (isoDate_eq ?_)
  simp only [day, hour]
  omega

/-! ### Midnights -/

variable {offset : ℤ → ℤ} {value : List Char} {desired candidate m : ℤ} {n : ℕ}

/-- The local form of a midnight. -/
theorem businessInstantToLocal_midnight (hm : localOf offset m = d * day)
    (hyear : 1000 ≤ yearOf (d * day) ∧ yearOf (d * day) ≤ 9999) :
    businessInstantToLocal offset m = dayText d ++ "T00:00".toList := by
  have hclock : (partsOf (d * day)).hour = 0 ∧ (partsOf (d * day)).minute = 0 := by
    simp only [partsOf, day, minute]
    omega
  rw [businessInstantToLocal, hm, format_partsOf hyear, hclock.1, hclock.2, List.append_assoc]
  exact congrArg (isoDate (d * day) ++ ·) (by decide)

namespace Hourly

variable (h : Hourly offset)
include h

/-- One attempt: a candidate off by an offset of the rules is replaced by one off by its own offset. -/
theorem attempt_succ (hmin : desired % minute = 0) (hyear : 1000 ≤ yearOf desired)
    (hlow : desired - 18 * hour ≤ candidate) (hhigh : candidate ≤ desired + 18 * hour)
    (hcandidate : candidate % minute = 0) : attempt offset value desired (n + 1) candidate =
      if localOf offset candidate = desired then
        if businessInstantToLocal offset candidate = value then some candidate else none
      else attempt offset value desired n (desired - offset candidate * minute) := by
  have hoff := h.bounded candidate
  have hlocal : utc (partsOf (localOf offset candidate)) = localOf offset candidate := by
    rw [utc_partsOf (yearOf_of_near hyear ?_)]
    · simp only [localOf, minute] at *
      omega
    · simp only [localOf, minute, hour, day] at *
      omega
  have hnext : candidate + (desired - localOf offset candidate) = desired - offset candidate * minute := by
    rw [localOf]
    omega
  simp only [attempt, hlocal, hnext]

/-- The candidates: the midnight as UTC; off by an hour at most, as the offset there; an hour early or late,
since the hour before midnight has the offset of midnight; and midnight itself. -/
theorem attempt_midnight (hone : OncePerDate offset) (hm : localOf offset m = d * day)
    (hyear : 1000 ≤ yearOf (d * day)) :
    attempt offset (businessInstantToLocal offset m) (d * day) 4 (d * day) = some m := by
  have hbound := h.bounded m
  have hm' : m = d * day - offset m * minute := by
    rw [localOf] at hm
    omega
  have hmin : d * day % minute = 0 := by
    simp only [day, minute]
    omega
  -- an attempt either ends with the midnight or goes on
  have hstep : ∀ n t, attempt offset (businessInstantToLocal offset m) (d * day) (n + 1)
    (d * day - offset t * minute) =
      if d * day - offset t * minute = m then some m
      else attempt offset (businessInstantToLocal offset m) (d * day) n
        (d * day - offset (d * day - offset t * minute) * minute) := by
    intro n t
    have hoff := h.bounded t
    rw [h.attempt_succ hmin hyear (by simp only [minute, hour]; omega) (by simp only [minute, hour]; omega)
      (by simp only [minute, day]; omega)]
    by_cases he : d * day - offset t * minute = m
    · rw [he, if_pos hm, if_pos rfl, if_pos rfl]
    · rw [if_neg fun hl => he (h.midnight_unique hm hl), if_neg he]
  have hlast : ∀ n t, offset t = offset m →
      attempt offset (businessInstantToLocal offset m) (d * day) (n + 1)
        (d * day - offset t * minute) = some m := by
    intro n t ht
    rw [hstep, if_pos (by rw [ht, ← hm'])]
  obtain ⟨hbefore, hafter⟩ := h.offset_midnight hm
  have hearly : ∀ n t, offset t = offset m + 60 →
      attempt offset (businessInstantToLocal offset m) (d * day) (n + 2)
        (d * day - offset t * minute) = some m := by
    intro n t ht
    have hback : d * day - offset t * minute = m - hour := by
      simp only [minute, hour] at *
      omega
    rw [hstep, hback, if_neg (by simp only [hour]; omega)]
    exact hlast n _ hbefore
  rw [h.attempt_succ hmin hyear (by simp only [hour]; omega) (by simp only [hour]; omega) hmin]
  by_cases hself : localOf offset (d * day) = d * day
  · rw [if_pos hself, h.midnight_unique hm hself, if_pos rfl]
  rw [if_neg hself]
  rcases h.offset_near hone hm (t := d * day) (by simp only [minute, hour] at *; omega)
    (by simp only [minute, hour] at *; omega) with ho | ho | ho
  · exact hlast 2 _ ho
  · exact hearly 1 _ ho
  · have hforth : d * day - offset (d * day) * minute = m + hour := by
      simp only [minute, hour] at *
      omega
    rw [hstep, hforth, if_neg (by simp only [hour]; omega)]
    rcases hafter with ha | ha
    · exact hlast 1 _ ha
    · exact hearly 0 _ ha

/-- The midnight of a day is resolved. -/
theorem businessLocalToInstant_midnight (hone : OncePerDate offset) (hm : localOf offset m = d * day)
    (hyear : 1000 ≤ yearOf (d * day) ∧ yearOf (d * day) ≤ 9999) :
    businessLocalToInstant offset (dayText d ++ "T00:00".toList) = .ok m := by
  have hvalid := partsOf_valid (d * day)
  have hparts : 1000 ≤ (partsOf (d * day)).year ∧ (partsOf (d * day)).year < 10000 := by
    simp only [partsOf]
    split <;> omega
  have hutc : utc (partsOf (d * day)) = d * day := by
    rw [utc_partsOf (by omega)]
    simp only [day, minute]
    omega
  rw [← businessInstantToLocal_midnight hm hyear, businessLocalToInstant]
  rw [show matchLocal (businessInstantToLocal offset m) = some (partsOf (d * day)) by
    rw [businessInstantToLocal, hm, matchLocal_format hvalid hparts]]
  simp only [hutc, h.attempt_midnight hone hm hyear.1]

end Hourly

end GManager.BusinessTime
