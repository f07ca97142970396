import GManager.BusinessTime
import Mathlib.Data.Int.LeastGreatest
import Mathlib.Tactic.Ring

/-!
# Local time by hours

An offset in minutes from UTC that changes by a whole hour, at a full local hour other than midnight.
The local time runs on by a millisecond at a time, except at a change, which stays on its date: every
date has one midnight, its instants are those from this midnight to the next one, and the offset is
the same through a local hour.
-/

namespace GManager.BusinessTime

def hour : ℤ := 3600000

/-- The offset changes at `x`. -/
def Changes (offset : ℤ → ℤ) (x : ℤ) : Prop := offset x ≠ offset (x - 1)

def localOf (offset : ℤ → ℤ) (t : ℤ) : ℤ := t + offset t * minute

def dateOf (offset : ℤ → ℤ) (t : ℤ) : ℤ := localOf offset t / day

/-- Offsets within the 18 hours of a `ZoneOffset` that change by a whole hour, at a full local hour that is
midnight neither before nor after the change. -/
structure Hourly (offset : ℤ → ℤ) : Prop where
  bounded : ∀ t, -1080 ≤ offset t ∧ offset t ≤ 1080
  whole : ∀ x, Changes offset x → offset x = offset (x - 1) + 60 ∨ offset x = offset (x - 1) - 60
  full : ∀ x, Changes offset x → localOf offset x % hour = 0
  before : ∀ x, Changes offset x → (x + offset (x - 1) * minute) % day ≠ 0
  after : ∀ x, Changes offset x → localOf offset x % day ≠ 0

/-- No date has two changes. -/
def OncePerDate (offset : ℤ → ℤ) : Prop :=
  ∀ x y, Changes offset x → Changes offset y → dateOf offset x = dateOf offset y → x = y

variable {offset : ℤ → ℤ} {s t m m' τ : ℤ} {d : ℤ}

/-- Between different offsets there is a change, from the first of them. -/
theorem exists_change (hst : s ≤ t) (hne : offset s ≠ offset t) :
    ∃ x, s < x ∧ x ≤ t ∧ Changes offset x ∧ offset (x - 1) = offset s := by
  induction t, hst using Int.leInduction with
  | base => exact absurd rfl hne
  | succ t hst ih =>
    by_cases he : offset s = offset t
    · refine ⟨t + 1, by omega, le_rfl, ?_, ?_⟩
      · rw [Changes, add_sub_cancel_right, ← he]
        exact hne.symm
      · rw [add_sub_cancel_right, he]
    · obtain ⟨x, hsx, hxt, hx⟩ := ih he
      exact ⟨x, hsx, by omega, hx⟩

/-- And a change to the second of them. -/
theorem exists_last_change (hst : s ≤ t) (hne : offset s ≠ offset t) :
    ∃ x, s < x ∧ x ≤ t ∧ Changes offset x ∧ offset x = offset t := by
  induction s, hst using Int.leInductionDown with
  | base => exact absurd rfl hne
  | pred s hst ih =>
    by_cases he : offset s = offset t
    · exact ⟨s, by omega, hst, fun hs => hne (hs.symm.trans he), he⟩
    · obtain ⟨x, hsx, hxt, hx⟩ := ih he
      exact ⟨x, by omega, hxt, hx⟩

namespace Hourly

variable (h : Hourly offset)
include h

/-- Local time runs on, or the offset changes away from midnight, on the same date. -/
theorem step (t : ℤ) : localOf offset t = localOf offset (t - 1) + 1 ∨
    dateOf offset t = dateOf offset (t - 1) ∧ localOf offset t % day ≠ 0 := by
  by_cases hc : Changes offset t
  · have hbefore := h.before t hc
    have hafter := h.after t hc
    have hfull := h.full t hc
    refine .inr ⟨?_, hafter⟩
    simp only [dateOf, localOf, day, hour, minute] at *
    rcases h.whole t hc with hw | hw <;> rw [hw] at hafter hfull ⊢ <;> omega
  · left
    rw [localOf, localOf, not_not.1 hc]
    omega

theorem dateOf_mono (hst : s ≤ t) : dateOf offset s ≤ dateOf offset t := by
  induction t, hst using Int.leInduction with
  | base => exact le_rfl
  | succ t hst ih =>
    rcases h.step (t + 1) with hs | ⟨hs, -⟩
    · rw [add_sub_cancel_right] at hs
      simp only [dateOf, day] at *
      omega
    · rw [add_sub_cancel_right] at hs
      rwa [hs]

/-- The millisecond before midnight is on the date before, with the same offset. -/
theorem pred_midnight (hm : localOf offset m = d * day) : dateOf offset (m - 1) = d - 1 ∧
    offset (m - 1) = offset m := by
  have hstep := (h.step m).resolve_right fun hs => hs.2 (by rw [hm]; simp)
  constructor
  · simp only [dateOf, day] at *
    omega
  · simp only [localOf, minute] at hstep
    omega

/-- The dates from `d` on begin at its midnight. -/
theorem le_dateOf (hm : localOf offset m = d * day) : d ≤ dateOf offset t ↔ m ≤ t := by
  constructor
  · intro hd
    by_contra hlt
    have hpred := (h.pred_midnight hm).1
    have hmono := h.dateOf_mono (s := t) (t := m - 1) (by omega)
    omega
  · intro hmt
    have hmono := h.dateOf_mono hmt
    rwa [dateOf, hm, day, Int.mul_ediv_cancel _ (by decide)] at hmono

omit h in
theorem dateOf_midnight (hm : localOf offset m = d * day) : dateOf offset m = d := by
  rw [dateOf, hm, day, Int.mul_ediv_cancel _ (by decide)]

theorem midnight_unique (hm : localOf offset m = d * day) (hs : localOf offset s = d * day) : s = m := by
  have h₁ := (h.le_dateOf hm (t := s)).1 (dateOf_midnight hs).ge
  have h₂ := (h.le_dateOf hs (t := m)).1 (dateOf_midnight hm).ge
  omega

theorem exists_midnight (d : ℤ) : ∃ m, localOf offset m = d * day := by
  obtain ⟨m, hm, hleast⟩ := Int.exists_least_of_bdd (P := fun t => d ≤ dateOf offset t)
    ⟨d * day - 1080 * minute, fun t ht => by
      have := h.bounded t
      simp only [dateOf, localOf, day, minute] at *
      omega⟩
    ⟨d * day + 1080 * minute, by
      have := h.bounded (d * day + 1080 * minute)
      simp only [dateOf, localOf, day, minute] at *
      omega⟩
  have hpred : ¬ d ≤ dateOf offset (m - 1) := fun hd => by
    have := hleast _ hd
    omega
  refine ⟨m, ?_⟩
  rcases h.step m with hs | ⟨hs, -⟩
  · simp only [dateOf, day] at *
    omega
  · exact absurd (hs ▸ hm) hpred

/-! ### Hours -/

/-- The offset stays through a local hour. -/
theorem offset_of_hour (hτ : localOf offset τ % hour = 0) (hle : τ ≤ t) (hlt : t < τ + hour) :
    offset t = offset τ := by
  by_contra hne
  obtain ⟨x, hx, hxt, hc, hpred⟩ := exists_change hle (Ne.symm hne)
  have hfull := h.full x hc
  simp only [localOf, hour, minute] at *
  rcases h.whole x hc with hw | hw <;> rw [hw, hpred] at hfull <;> omega

/-- The next hour is the same one again, the one after it or, across a gap, the second after it. -/
theorem next_hour (hτ : localOf offset τ % hour = 0) : localOf offset (τ + hour) = localOf offset τ ∨
    localOf offset (τ + hour) = localOf offset τ + hour ∨
    localOf offset (τ + hour) = localOf offset τ + 2 * hour := by
  have hlast := h.offset_of_hour hτ (t := τ + hour - 1) (by simp only [hour]; omega) (by omega)
  by_cases hc : Changes offset (τ + hour)
  · simp only [localOf, hour, minute] at *
    rcases h.whole _ hc with hw | hw <;> rw [hw, hlast] <;> omega
  · rw [localOf, not_not.1 hc, hlast]
    simp only [localOf, hour, minute]
    omega

theorem hour_emod (hτ : localOf offset τ % hour = 0) (n : ℕ) : localOf offset (τ + n * hour) % hour = 0 := by
  induction n with
  | zero => simpa using hτ
  | succ n ih =>
    have hnext := h.next_hour ih
    rw [show τ + ((n + 1 : ℕ) : ℤ) * hour = τ + n * hour + hour by push_cast; ring]
    simp only [hour] at *
    omega

theorem hour_mono (hτ : localOf offset τ % hour = 0) {i j : ℕ} (hij : i ≤ j) :
    localOf offset (τ + i * hour) ≤ localOf offset (τ + j * hour) := by
  induction j, hij using Nat.le_induction with
  | base => exact le_rfl
  | succ j _ ih =>
    have hnext := h.next_hour (h.hour_emod hτ j)
    rw [show τ + ((j + 1 : ℕ) : ℤ) * hour = τ + j * hour + hour by push_cast; ring]
    simp only [hour] at *
    omega

/-! ### Days -/

/-- Around midnight the offset stays, up to the end of the hour after it, from which
on it may be an hour more. -/
theorem offset_midnight (hm : localOf offset m = d * day) :
    offset (m - hour) = offset m ∧ (offset (m + hour) = offset m ∨ offset (m + hour) = offset m + 60) := by
  constructor
  · by_contra hne
    obtain ⟨x, hx, hxm, hc, hlast⟩ :=
      exists_last_change (s := m - hour) (t := m) (by simp only [hour]; omega) hne
    have hfull := h.full x hc
    have hafter := h.after x hc
    simp only [localOf, day, hour, minute] at *
    omega
  · have hτ : localOf offset m % hour = 0 := by
      simp only [hm, day, hour]
      omega
    have hlast := h.offset_of_hour hτ (t := m + hour - 1) (by simp only [hour]; omega) (by omega)
    by_cases hc : Changes offset (m + hour)
    · have hafter := h.after _ hc
      have hwhole := h.whole _ hc
      simp only [localOf, day, hour, minute] at *
      omega
    · rw [not_not.1 hc, hlast]
      exact .inl rfl

variable (hone : OncePerDate offset)
include hone

/-- On one date there are two offsets at most, an hour apart. -/
theorem offset_of_date (hst : s ≤ t) (hd : dateOf offset s = dateOf offset t) :
    offset t = offset s ∨ offset t = offset s + 60 ∨ offset t = offset s - 60 := by
  by_contra hno
  obtain ⟨x, hx, hxt, hc, hpred⟩ := exists_change hst fun he => hno (.inl he.symm)
  have hwhole := h.whole x hc
  have hne : offset x ≠ offset t := by omega
  obtain ⟨y, hy, hyt, hc', -⟩ := exists_change hxt hne
  have h₁ := h.dateOf_mono (s := s) (t := x) (by omega)
  have h₂ := h.dateOf_mono (s := x) (t := y) (by omega)
  have h₃ := h.dateOf_mono (s := y) (t := t) (by omega)
  have := hone x y hc hc' (by omega)
  omega

/-- A day has 23, 24 or 25 hours. -/
theorem length_of_day (hm : localOf offset m = d * day) (hm' : localOf offset m' = (d + 1) * day) :
    m' = m + 23 * hour ∨ m' = m + 24 * hour ∨ m' = m + 25 * hour := by
  obtain ⟨hdate, hoff⟩ := h.pred_midnight hm'
  have hle := (h.le_dateOf hm (t := m' - 1)).1 (by omega)
  have hsame := h.offset_of_date hone hle (by rw [dateOf_midnight hm]; omega)
  simp only [localOf, day, hour, minute] at *
  omega

/-- Around a midnight the offset differs by an hour at most. -/
theorem offset_near (hm : localOf offset m = d * day) (hlow : m - 18 * hour ≤ t) (hhigh : t ≤ m + 18 * hour) :
    offset t = offset m ∨ offset t = offset m + 60 ∨ offset t = offset m - 60 := by
  rcases le_or_gt m t with hle | hlt
  · obtain ⟨m', hm'⟩ := h.exists_midnight (d + 1)
    have hlen := h.length_of_day hone hm hm'
    have hd := (h.le_dateOf hm).2 hle
    have hd' := (h.le_dateOf hm' (t := t)).not.2 (by simp only [hour] at *; omega)
    exact h.offset_of_date hone hle (by rw [dateOf_midnight hm]; omega)
  · obtain ⟨m₀, hm₀⟩ := h.exists_midnight (d - 1)
    have hnext : localOf offset m = (d - 1 + 1) * day := by rw [hm, sub_add_cancel]
    have hlen := h.length_of_day hone hm₀ hnext
    obtain ⟨hdate, hoff⟩ := h.pred_midnight hm
    have hd := (h.le_dateOf hm₀ (t := t)).2 (by simp only [hour] at *; omega)
    have hd' := (h.le_dateOf hm (t := t)).not.2 (by omega)
    have := h.offset_of_date hone (s := t) (t := m - 1) (by omega) (by omega)
    omega

end Hourly

end GManager.BusinessTime
