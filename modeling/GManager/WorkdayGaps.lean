import GManager.BookingPolicy
import GManager.Periods

/-!
# The gaps of the working day

`DashboardService.gaps`: one cursor moves over the appointments of the day, in the order of their starts,
and leaves a gap wherever an appointment starts behind it. The start of an appointment is clipped at the
opening and its end at the closing; a start after the closing is not clipped.
-/

namespace GManager

/-- `CalendarReservationResponse`, as far as the gaps depend on it. A reservation ends after its start. -/
structure CalendarReservation where
  id : UUID
  startTime : Instant
  endTime : Instant
  status : ReservationStatus
  ends_after : startTime < endTime
  deriving DecidableEq, Repr

namespace CalendarReservation

def period (item : CalendarReservation) : Period Instant := ⟨item.startTime, item.endTime⟩

/-- Neither cancelled nor rejected. -/
def Blocking (item : CalendarReservation) : Prop := item.status ≠ .cancelled ∧ item.status ≠ .rejected

instance : DecidablePred Blocking := fun _ => inferInstanceAs (Decidable (_ ∧ _))

end CalendarReservation

abbrev TodayGap := Period Instant

namespace Dashboard

/-- The gaps and the cursor after one more appointment. -/
def gapsStep (window : AvailabilityWindow) (result : List TodayGap × Instant) (item : CalendarReservation) :
    List TodayGap × Instant :=
  let start := if item.startTime < window.1 then window.1 else item.startTime
  let finish := if window.2 < item.endTime then window.2 else item.endTime
  (if result.2 < start then result.1 ++ [⟨result.2, start⟩] else result.1,
    if result.2 < finish then finish else result.2)

/-- The blocking appointments by their starts. -/
def blocking (appointments : List CalendarReservation) : List CalendarReservation :=
  sortBy CalendarReservation.startTime (appointments.filter fun item => item.Blocking)

/-- `gaps`. -/
def gaps (window : Option AvailabilityWindow) (appointments : List CalendarReservation) : List TodayGap :=
  match window with
  | none => []
  | some window =>
    let swept := (blocking appointments).foldl (gapsStep window) ([], window.1)
    if swept.2 < window.2 then swept.1 ++ [⟨swept.2, window.2⟩] else swept.1

/-- An instant of the window at which nothing blocks. -/
def Free (window : AvailabilityWindow) (appointments : List CalendarReservation) (t : Instant) : Prop :=
  window.1 ≤ t ∧ t < window.2 ∧ ∀ item ∈ appointments, item.Blocking → t ∉ item.period

/-- The gaps are the maximal free periods of the window, in ascending order. -/
def AreGaps (window : AvailabilityWindow) (appointments : List CalendarReservation)
    (gs : List TodayGap) : Prop :=
  gs.Pairwise (fun a b => a.finish ≤ b.start) ∧ ∀ a, a ∈ gs ↔ Period.MaximalIn (Free window appointments) a

section

variable {window : AvailabilityWindow} {appointments items : List CalendarReservation}
  {item : CalendarReservation} {r : List TodayGap × Instant} {g : TodayGap} {t : Instant}

theorem mem_blocking : item ∈ blocking appointments ↔ item ∈ appointments ∧ item.Blocking := by
  simp [blocking]

theorem free_iff : Free window appointments t ↔ window.1 ≤ t ∧ t < window.2 ∧
    ∀ item ∈ blocking appointments, t ∉ item.period := by
  simp only [Free, mem_blocking, and_imp]

/-- What the sweep has left when it has seen `items`, none of which starts after the closing. -/
structure Swept (window : AvailabilityWindow) (items : List CalendarReservation)
    (r : List TodayGap × Instant) : Prop where
  opening_le : window.1 ≤ r.2
  separated : Period.Separated r.1
  inside : ∀ g ∈ r.1, window.1 ≤ g.start ∧ g.start < g.finish ∧ g.finish ≤ r.2 ∧ g.finish ≤ window.2
  apart : ∀ g ∈ r.1, g.finish < r.2 ∨ window.2 ≤ r.2
  ended : ∀ g ∈ r.1, ∃ item ∈ items, g.finish ≤ item.startTime
  behind : ∀ item ∈ items, ∀ t, r.2 ≤ t → t < window.2 → t ∉ item.period
  covered : ∀ t, window.1 ≤ t → t < r.2 → t < window.2 →
    (Period.Covered r.1 t ↔ ∀ item ∈ items, t ∉ item.period)

theorem Swept.nil : Swept window [] ([], window.1) where
  opening_le := le_rfl
  separated := .nil
  inside := fun _ hg => absurd hg List.not_mem_nil
  apart := fun _ hg => absurd hg List.not_mem_nil
  ended := fun _ hg => absurd hg List.not_mem_nil
  behind := fun _ hi => absurd hi List.not_mem_nil
  covered := fun _ h₁ h₂ => absurd h₁ (not_le.2 h₂)

theorem gapsStep_cursor : (gapsStep window r item).2 = max r.2 (min window.2 item.endTime) := by
  simp only [gapsStep, max_def', min_def']
  grind

theorem gapsStep_of_lt (hopen : window.1 ≤ r.2) (h : r.2 < item.startTime) :
    gapsStep window r item = (r.1 ++ [⟨r.2, item.startTime⟩], max r.2 (min window.2 item.endTime)) := by
  refine Prod.ext ?_ gapsStep_cursor
  simp only [gapsStep, if_neg (not_lt.2 (hopen.trans h.le)), if_pos h]

theorem gapsStep_of_le (hopen : window.1 ≤ r.2) (h : item.startTime ≤ r.2) :
    gapsStep window r item = (r.1, max r.2 (min window.2 item.endTime)) := by
  have hle : (if item.startTime < window.1 then window.1 else item.startTime) ≤ r.2 := by
    split
    · exact hopen
    · exact h
  refine Prod.ext ?_ gapsStep_cursor
  simp only [gapsStep, if_neg (not_lt.2 hle)]

namespace Swept

theorem not_covered (h : Swept window items r) (ht : r.2 ≤ t) : ¬ Period.Covered r.1 t := by
  rintro ⟨g, hg, -, h₂⟩
  exact absurd ((h.inside g hg).2.2.1) (not_le.2 (ht.trans_lt h₂))

/-- An appointment behind the cursor leaves a gap. -/
theorem gap (h : Swept window items r) (hstart : item.startTime ≤ window.2) (hlt : r.2 < item.startTime) :
    Swept window (items ++ [item]) (r.1 ++ [⟨r.2, item.startTime⟩], max r.2 (min window.2 item.endTime)) := by
  have hends := item.ends_after
  have hle : r.2 ≤ max r.2 (min window.2 item.endTime) := le_max_left _ _
  have hreach : item.startTime ≤ max r.2 (min window.2 item.endTime) :=
    (le_min hstart hends.le).trans (le_max_right _ _)
  refine ⟨h.opening_le.trans hle, h.separated.snoc fun g hg => ?_, ?_, ?_, ?_, ?_, fun t h₁ h₂ h₃ => ?_⟩
  · exact (h.apart g hg).resolve_right (not_le.2 (hlt.trans_le hstart))
  · simp only [List.forall_mem_append, List.forall_mem_singleton]
    refine ⟨fun g hg => ?_, h.opening_le, hlt, hreach, hstart⟩
    obtain ⟨h₁, h₂, h₃, h₄⟩ := h.inside g hg
    exact ⟨h₁, h₂, h₃.trans hle, h₄⟩
  · simp only [List.forall_mem_append, List.forall_mem_singleton]
    refine ⟨fun g hg => (h.apart g hg).imp (·.trans_le hle) (·.trans hle), ?_⟩
    rcases hstart.lt_or_eq with hlt' | heq
    · exact .inl ((lt_min hlt' hends).trans_le (le_max_right _ _))
    · exact .inr (heq ▸ hreach)
  · simp only [List.forall_mem_append, List.forall_mem_singleton]
    refine ⟨fun g hg => ?_, item, by simp, le_rfl⟩
    obtain ⟨i, hi, hgi⟩ := h.ended g hg
    exact ⟨i, List.mem_append_left _ hi, hgi⟩
  · simp only [List.forall_mem_append, List.forall_mem_singleton]
    refine ⟨fun i hi t ht => h.behind i hi t (hle.trans ht), fun t ht h₂ hmem => ?_⟩
    exact absurd ((le_max_right _ _).trans ht) (not_le.2 (lt_min h₂ hmem.2))
  · simp only [Period.covered_append, Period.covered_cons, Period.covered_nil, or_false,
      List.forall_mem_append, List.forall_mem_singleton]
    rcases lt_or_ge t r.2 with hlt' | hge
    · rw [h.covered t h₁ hlt' h₃]
      have hno : t ∉ (⟨r.2, item.startTime⟩ : Period Instant) := fun hm => absurd hm.1 (not_le.2 hlt')
      have hni : t ∉ item.period := fun hm => absurd hm.1 (not_le.2 (hlt'.trans hlt))
      simp [hno, hni]
    · have hb : ∀ i ∈ items, t ∉ i.period := fun i hi => h.behind i hi t hge h₃
      rcases lt_or_ge t item.startTime with hlt' | hge'
      · have hni : t ∉ item.period := fun hm => absurd hm.1 (not_le.2 hlt')
        exact ⟨fun _ => ⟨hb, hni⟩, fun _ => .inr ⟨hge, hlt'⟩⟩
      · have hin : t ∈ item.period :=
          ⟨hge', ((lt_max_iff.1 h₂).resolve_left (not_lt.2 hge)).trans_le (min_le_right _ _)⟩
        have hno : t ∉ (⟨r.2, item.startTime⟩ : Period Instant) := fun hm => absurd hm.2 (not_lt.2 hge')
        simp [h.not_covered hge, hno, hin]

/-- An appointment that begins before the cursor leaves none. -/
theorem skip (h : Swept window items r) (hsorted : ∀ i ∈ items, i.startTime ≤ item.startTime)
    (hle' : item.startTime ≤ r.2) :
    Swept window (items ++ [item]) (r.1, max r.2 (min window.2 item.endTime)) := by
  have hle : r.2 ≤ max r.2 (min window.2 item.endTime) := le_max_left _ _
  refine ⟨h.opening_le.trans hle, h.separated, fun g hg => ?_, fun g hg => ?_, fun g hg => ?_, ?_,
    fun t h₁ h₂ h₃ => ?_⟩
  · obtain ⟨h₁, h₂, h₃, h₄⟩ := h.inside g hg
    exact ⟨h₁, h₂, h₃.trans hle, h₄⟩
  · exact (h.apart g hg).imp (·.trans_le hle) (·.trans hle)
  · obtain ⟨i, hi, hgi⟩ := h.ended g hg
    exact ⟨i, List.mem_append_left _ hi, hgi⟩
  · simp only [List.forall_mem_append, List.forall_mem_singleton]
    refine ⟨fun i hi t ht => h.behind i hi t (hle.trans ht), fun t ht h₂ hmem => ?_⟩
    exact absurd ((le_max_right _ _).trans ht) (not_le.2 (lt_min h₂ hmem.2))
  · simp only [List.forall_mem_append, List.forall_mem_singleton]
    rcases lt_or_ge t r.2 with hlt' | hge
    · rw [h.covered t h₁ hlt' h₃]
      refine ⟨fun hfree => ⟨hfree, fun hm => ?_⟩, fun hfree => hfree.1⟩
      -- a gap ends where an appointment starts, and those come before this one
      obtain ⟨g, hg, -, hg₂⟩ := (h.covered t h₁ hlt' h₃).2 hfree
      obtain ⟨i, hi, hgi⟩ := h.ended g hg
      exact absurd hm.1 (not_le.2 (hg₂.trans_le (hgi.trans (hsorted i hi))))
    · have hin : t ∈ item.period :=
        ⟨hle'.trans hge, ((lt_max_iff.1 h₂).resolve_left (not_lt.2 hge)).trans_le (min_le_right _ _)⟩
      simp [h.not_covered hge, hin]

theorem step (h : Swept window items r) (hstart : item.startTime ≤ max window.1 window.2)
    (hsorted : ∀ i ∈ items, i.startTime ≤ item.startTime) :
    Swept window (items ++ [item]) (gapsStep window r item) := by
  rcases lt_or_ge r.2 item.startTime with hlt | hle
  · have hopen := h.opening_le
    rw [gapsStep_of_lt hopen hlt]
    exact h.gap ((le_max_iff.1 hstart).resolve_left (not_le.2 (hopen.trans_lt hlt))) hlt
  · rw [gapsStep_of_le h.opening_le hle]
    exact h.skip hsorted hle

theorem run (h : Swept window items r) {rest : List CalendarReservation}
    (hstart : ∀ i ∈ rest, i.startTime ≤ max window.1 window.2)
    (hsorted : (items ++ rest).Pairwise fun a b => a.startTime ≤ b.startTime) :
    Swept window (items ++ rest) (rest.foldl (gapsStep window) r) := by
  induction rest generalizing items r with
  | nil => rwa [List.append_nil]
  | cons item rest ih =>
    rw [List.append_cons] at hsorted ⊢
    obtain ⟨hitem, hrest⟩ := List.forall_mem_cons.1 hstart
    refine ih (h.step hitem fun i hi => ?_) hrest hsorted
    exact (List.pairwise_append.1 (List.pairwise_append.1 hsorted).1).2.2 i hi item
      (List.mem_singleton_self item)

/-- The last gap reaches to the closing. -/
theorem gaps (h : Swept window items r) {gs : List TodayGap}
    (hgs : gs = if r.2 < window.2 then r.1 ++ [⟨r.2, window.2⟩] else r.1) :
    Period.Separated gs ∧ (∀ g ∈ gs, g.start < g.finish) ∧
      ∀ t, Period.Covered gs t ↔ window.1 ≤ t ∧ t < window.2 ∧ ∀ i ∈ items, t ∉ i.period := by
  have hin : ∀ t, Period.Covered r.1 t → window.1 ≤ t ∧ t < window.2 ∧ t < r.2 := by
    rintro t ⟨g, hg, h₁, h₂⟩
    obtain ⟨h₃, -, h₄, h₅⟩ := h.inside g hg
    exact ⟨h₃.trans h₁, h₂.trans_le h₅, h₂.trans_le h₄⟩
  subst hgs
  split
  · rename_i hlt
    refine ⟨h.separated.snoc fun g hg => (h.apart g hg).resolve_right (not_le.2 hlt), ?_, fun t => ?_⟩
    · simp only [List.forall_mem_append, List.forall_mem_singleton]
      exact ⟨fun g hg => (h.inside g hg).2.1, hlt⟩
    · simp only [Period.covered_append, Period.covered_cons, Period.covered_nil, or_false]
      constructor
      · rintro (hc | ⟨h₁, h₂⟩)
        · obtain ⟨h₁, h₂, h₃⟩ := hin t hc
          exact ⟨h₁, h₂, (h.covered t h₁ h₃ h₂).1 hc⟩
        · exact ⟨h.opening_le.trans h₁, h₂, fun i hi => h.behind i hi t h₁ h₂⟩
      · rintro ⟨h₁, h₂, hfree⟩
        rcases lt_or_ge t r.2 with h₃ | h₃
        · exact .inl ((h.covered t h₁ h₃ h₂).2 hfree)
        · exact .inr ⟨h₃, h₂⟩
  · rename_i hle
    refine ⟨h.separated, fun g hg => (h.inside g hg).2.1, fun t => ⟨fun hc => ?_, ?_⟩⟩
    · obtain ⟨h₁, h₂, h₃⟩ := hin t hc
      exact ⟨h₁, h₂, (h.covered t h₁ h₃ h₂).1 hc⟩
    · rintro ⟨h₁, h₂, hfree⟩
      exact (h.covered t h₁ (h₂.trans_le (not_lt.1 hle)) h₂).2 hfree

end Swept

theorem gaps_of_not_late (h : ∀ item ∈ appointments, item.Blocking → item.startTime ≤ max window.1 window.2) :
    AreGaps window appointments (gaps (some window) appointments) := by
  have hswept : Swept window (blocking appointments)
      ((blocking appointments).foldl (gapsStep window) ([], window.1)) :=
    Swept.nil.run (fun i hi => h i (mem_blocking.1 hi).1 (mem_blocking.1 hi).2) (pairwise_sortBy _ _)
  obtain ⟨hsep, hlt, hcov⟩ := hswept.gaps rfl
  refine ⟨hsep.imp le_of_lt, fun a => ?_⟩
  rw [Period.MaximalIn.congr fun t => free_iff.trans (hcov t).symm]
  exact hsep.mem_iff_maximalIn hlt

/-! ### Starts after the closing -/

theorem mem_gapsStep (hg : g ∈ r.1) : g ∈ (gapsStep window r item).1 := by
  simp only [gapsStep]
  by_cases h : r.2 < if item.startTime < window.1 then window.1 else item.startTime
  · rw [if_pos h]
    exact List.mem_append_left _ hg
  · rw [if_neg h]
    exact hg

theorem mem_foldl_gapsStep (hg : g ∈ r.1) : g ∈ (items.foldl (gapsStep window) r).1 := by
  induction items generalizing r with
  | nil => exact hg
  | cons item items ih => exact ih (mem_gapsStep hg)

/-- A start after the closing leaves a gap that ends there, since the cursor is never behind the closing. -/
theorem exists_late (hopen : window.1 ≤ r.2) (hr : r.2 ≤ max window.1 window.2) (hi : item ∈ items)
    (hlate : max window.1 window.2 < item.startTime) :
    ∃ g ∈ (items.foldl (gapsStep window) r).1, g.start ≤ max window.1 window.2 ∧
    max window.1 window.2 < g.finish := by
  induction items generalizing r with
  | nil => exact absurd hi List.not_mem_nil
  | cons i items ih =>
    rw [List.foldl_cons]
    rcases List.mem_cons.1 hi with rfl | hi
    · have hgap : ⟨r.2, item.startTime⟩ ∈ (gapsStep window r item).1 := by
        rw [gapsStep_of_lt hopen (hr.trans_lt hlate)]
        exact List.mem_append_right _ (List.mem_singleton_self _)
      exact ⟨⟨r.2, item.startTime⟩, mem_foldl_gapsStep hgap, hr, hlate⟩
    · have hcursor : (gapsStep window r i).2 = max r.2 (min window.2 i.endTime) := gapsStep_cursor
      refine ih ?_ ?_ hi
      · exact hcursor ▸ hopen.trans (le_max_left _ _)
      · exact hcursor ▸ max_le hr ((min_le_left _ _).trans (le_max_right _ _))

/-- `gaps` returns the gaps of the day if and only if no blocking appointment starts after the closing. -/
theorem working_day_gaps (window : AvailabilityWindow) (appointments : List CalendarReservation) :
    AreGaps window appointments (gaps (some window) appointments) ↔
      ∀ item ∈ appointments, item.Blocking → item.startTime ≤ max window.1 window.2 := by
  refine ⟨fun h item hi hb => not_lt.1 fun hlate => ?_, gaps_of_not_late⟩
  obtain ⟨g, hg, h₁, h₂⟩ :=
    exists_late (r := ([], window.1)) le_rfl (le_max_left _ _) (mem_blocking.2 ⟨hi, hb⟩) hlate
  have hmem : g ∈ gaps (some window) appointments := by
    simp only [gaps]
    split
    · exact List.mem_append_left _ hg
    · exact hg
  -- the closing itself is in this gap
  have hfree := ((h.2 g).1 hmem).inside (max window.1 window.2) ⟨h₁, h₂⟩
  exact absurd (le_max_right _ _) (not_le.2 hfree.2.1)

end

/-! ### An appointment after the closing

The window is nine to five; a reservation from six to seven was made before the hours were shortened. -/

def lateAppointment : CalendarReservation := ⟨1, 64800000000, 68400000000, .confirmed, by decide⟩

theorem late_appointment_gap : ¬ AreGaps (32400000000, 61200000000) [lateAppointment]
    (gaps (some (32400000000, 61200000000)) [lateAppointment]) := by
  intro h
  have hgap : (⟨32400000000, 64800000000⟩ : TodayGap) ∈ gaps
      (some (32400000000, 61200000000)) [lateAppointment] := by
    decide +kernel
  have hfree := ((h.2 _).1 hgap).inside 61200000000 ⟨by decide, by decide⟩
  exact absurd hfree.2.1 (by decide)

end Dashboard

end GManager
