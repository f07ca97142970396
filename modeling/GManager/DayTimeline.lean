import GManager.BookingPolicy
import GManager.Periods
import Mathlib.Data.List.Chain

/-!
# The timeline of a day

`ReservationPlanningService.merge` and `timeline`: the busy ranges of a resource are merged, and the day is
cut at the ends of the opening windows and of the busy ranges that lie inside it. A segment is occupied when
a busy range overlaps it, and open when one window contains it.
-/

namespace GManager

inductive DayStatus
  | occupied | unavailable | available | closed
  deriving DecidableEq, Repr

structure DayInterval where
  startTime : Instant
  endTime : Instant
  status : DayStatus
  deriving DecidableEq, Repr

namespace DayInterval

def period (i : DayInterval) : Period Instant := ⟨i.startTime, i.endTime⟩

end DayInterval

namespace Planning

/-- `Range`. -/
abbrev Range := Period Instant

/-- A range that starts before the previous one is over, or right then, is taken into it. -/
def joinRange (previous range : Range) : Option Range :=
  if ¬ previous.finish < range.start then
    some ⟨previous.start, if range.finish < previous.finish then previous.finish else range.finish⟩
  else none

/-- `merge`. -/
def merge (ranges : List Range) : List Range :=
  (sortBy Period.start ranges).foldl (appendMerging joinRange) []

/-- The ends of a range that lie inside the day. -/
def inside (begin finish : Instant) (ends : List Instant) : List Instant :=
  ends.filter fun t => begin < t ∧ t < finish

/-- The distinct points in ascending order. -/
def boundaries (begin finish : Instant) (windows : List AvailabilityWindow)
    (busy : List Range) : List Instant :=
  sortBy id ([begin, finish] ++ windows.flatMap (fun w => inside begin finish [w.1, w.2]) ++
    busy.flatMap fun r => inside begin finish [r.start, r.finish]).dedup

def statusOf (windows : List AvailabilityWindow) (busy : List Range) (restricted : Bool)
    (segment : Period Instant) : DayStatus :=
  if busy.any fun range => range.start < segment.finish ∧ segment.start < range.finish then .occupied
  else if restricted then .unavailable
  else if windows.any fun w => w.1 ≤ segment.start ∧ segment.finish ≤ w.2 then .available
  else .closed

def joinInterval (previous next : DayInterval) : Option DayInterval :=
  if previous.status = next.status then some ⟨previous.startTime, next.endTime, next.status⟩ else none

/-- The segments between neighbouring points. -/
def segments : List Instant → List (Period Instant)
  | [] => []
  | a :: points => Period.between a points

/-- `timeline`. -/
def timeline (begin finish : Instant) (windows : List AvailabilityWindow) (busy : List Range)
    (restricted : Bool) : List DayInterval :=
  (segments (boundaries begin finish windows busy)).foldl (fun result segment =>
    appendMerging joinInterval result ⟨segment.start, segment.finish,
      statusOf windows busy restricted segment⟩) []

/-- What the status of an instant is meant to be. -/
def statusAt (windows : List AvailabilityWindow) (busy : List Range) (restricted : Bool)
    (t : Instant) : DayStatus :=
  if Period.Covered busy t then .occupied
  else if restricted then .unavailable
  else if ∃ w ∈ windows, w.1 ≤ t ∧ t < w.2 then .available
  else .closed

section merging

variable {ranges result : List Range} {previous range : Range} {t : Instant}

theorem joinRange_eq_some {c : Range} (h : joinRange previous range = some c)
    (hle : previous.start ≤ range.start) : c.start = previous.start ∧ ∀ t, t ∈ c ↔
    t ∈ previous ∨ t ∈ range := by
  unfold joinRange at h
  split at h
  · rename_i hjoin
    obtain rfl := Option.some.inj h
    refine ⟨rfl, fun t => ?_⟩
    simp only [Period.mem_def]
    split <;> grind
  · cases h

theorem joinRange_eq_none : joinRange previous range = none ↔ previous.finish < range.start := by
  simp [joinRange]

/-- The merged ranges of `ranges`. -/
structure Merged (ranges result : List Range) : Prop where
  sorted : result.Pairwise fun a b => a.start ≤ b.start
  separated : Period.Separated result
  covered : ∀ t, Period.Covered result t ↔ Period.Covered ranges t
  starts : ∀ a ∈ result, ∃ r ∈ ranges, a.start = r.start

theorem Merged.nil : Merged [] [] :=
  ⟨.nil, .nil, fun _ => Iff.rfl, fun _ ha => absurd ha List.not_mem_nil⟩

theorem Merged.step (h : Merged ranges result) (hle : ∀ r ∈ ranges, r.start ≤ range.start) :
    Merged (ranges ++ [range]) (appendMerging joinRange result range) := by
  have hstart : ∀ a ∈ result, a.start ≤ range.start := fun a ha => by
    obtain ⟨r, hr, heq⟩ := h.starts a ha
    exact heq ▸ hle r hr
  have hstarts : ∀ a ∈ result, ∃ r ∈ ranges ++ [range], a.start = r.start := fun a ha => by
    obtain ⟨r, hr, heq⟩ := h.starts a ha
    exact ⟨r, List.mem_append_left _ hr, heq⟩
  obtain ⟨hsorted, hsep, hcov, -⟩ := h
  rcases appendMerging_cases joinRange result range with ⟨rfl, heq⟩ | ⟨init, b, rfl,
    ⟨hjoin, heq⟩ | ⟨c, hjoin, heq⟩⟩ <;> rw [heq]
  · refine ⟨List.pairwise_singleton _ _, List.pairwise_singleton _ _, fun t => ?_, ?_⟩
    · rw [Period.covered_append, ← hcov t]
      simp
    · simp
  · have hlt : b.finish < range.start := joinRange_eq_none.1 hjoin
    refine ⟨pairwise_snoc.2 ⟨hsorted, hstart⟩, hsep.snoc ?_, fun t => ?_, ?_⟩
    · simp only [List.forall_mem_append, List.forall_mem_singleton] at hstart ⊢
      exact ⟨fun a ha => ((pairwise_snoc.1 hsep).2 a ha).trans_le hstart.2, hlt⟩
    · rw [Period.covered_append, hcov t, Period.covered_append]
    · rw [List.forall_mem_append, List.forall_mem_singleton]
      exact ⟨hstarts, range, List.mem_append_right _ (List.mem_singleton_self _), rfl⟩
  · -- the joined range begins where the last one began
    obtain ⟨hc, hmem⟩ :=
      joinRange_eq_some hjoin (hstart b (List.mem_append_right _ (List.mem_singleton_self b)))
    obtain ⟨hs₁, hs₂⟩ := pairwise_snoc.1 hsorted
    obtain ⟨hp₁, hp₂⟩ := pairwise_snoc.1 hsep
    refine ⟨pairwise_snoc.2 ⟨hs₁, hc ▸ hs₂⟩, pairwise_snoc.2 ⟨hp₁, hc ▸ hp₂⟩, fun t => ?_, ?_⟩
    · rw [Period.covered_append, Period.covered_append, ← hcov t, Period.covered_append]
      simp [hmem, or_assoc]
    · rw [List.forall_mem_append, List.forall_mem_singleton] at hstarts ⊢
      exact ⟨hstarts.1, hc ▸ hstarts.2⟩

theorem Merged.run (h : Merged ranges result) {rest : List Range}
    (hsorted : (ranges ++ rest).Pairwise fun a b => a.start ≤ b.start) :
    Merged (ranges ++ rest) (rest.foldl (appendMerging joinRange) result) := by
  induction rest generalizing ranges result with
  | nil => rwa [List.append_nil]
  | cons range rest ih =>
    rw [List.append_cons] at hsorted ⊢
    refine ih (h.step fun r hr => ?_) hsorted
    exact (List.pairwise_append.1 (List.pairwise_append.1 hsorted).1).2.2 r hr range
      (List.mem_singleton_self range)

theorem merged_merge (ranges : List Range) : Merged (sortBy Period.start ranges) (merge ranges) :=
  Merged.nil.run (pairwise_sortBy _ _)

end merging

section laying

variable {begin finish a b t x : Instant} {windows : List AvailabilityWindow} {busy : List Range}
  {restricted : Bool} {result : List DayInterval} {p : Period Instant}

theorem mem_boundaries : x ∈ boundaries begin finish windows busy ↔ x = begin ∨ x = finish ∨
    (begin < x ∧ x < finish) ∧
    ((∃ w ∈ windows, x = w.1 ∨ x = w.2) ∨ ∃ r ∈ busy, x = r.start ∨ x = r.finish) := by
  simp only [boundaries, mem_sortBy, List.mem_dedup, List.mem_append, List.mem_cons, List.not_mem_nil,
    or_false, List.mem_flatMap, inside, List.mem_filter, decide_eq_true_eq]
  constructor
  · rintro ((h | ⟨w, hw, hx, h⟩) | ⟨r, hr, hx, h⟩)
    · exact h.imp_right .inl
    · exact .inr (.inr ⟨h, .inl ⟨w, hw, hx⟩⟩)
    · exact .inr (.inr ⟨h, .inr ⟨r, hr, hx⟩⟩)
  · rintro (h | h | ⟨h, ⟨w, hw, hx⟩ | ⟨r, hr, hx⟩⟩)
    · exact .inl (.inl (.inl h))
    · exact .inl (.inl (.inr h))
    · exact .inl (.inr ⟨w, hw, hx, h⟩)
    · exact .inr ⟨r, hr, hx, h⟩

theorem boundaries_pairwise (begin finish : Instant) (windows : List AvailabilityWindow) (busy : List Range) :
    (boundaries begin finish windows busy).Pairwise (· < ·) := by
  have hle :=
    pairwise_sortBy id ([begin, finish] ++ windows.flatMap (fun w => inside begin finish [w.1, w.2]) ++
    busy.flatMap fun r => inside begin finish [r.start, r.finish]).dedup
  have hne : (boundaries begin finish windows busy).Nodup :=
    (sortBy_perm _ _).nodup_iff.2 (List.nodup_dedup _)
  exact hle.imp₂ (fun a b hab hne => lt_of_le_of_ne hab hne) hne

/-- The boundaries cut the day into segments, and no boundary lies inside of one. -/
theorem segments_boundaries (hlt : begin < finish) (windows : List AvailabilityWindow) (busy : List Range) :
    Period.Tiles finish begin (segments (boundaries begin finish windows busy)) ∧
      ∀ p ∈ segments (boundaries begin finish windows busy), ∀ x ∈ boundaries begin finish windows busy,
        x ≤ p.start ∨ p.finish ≤ x := by
  have hsorted := boundaries_pairwise begin finish windows busy
  have hbegin : begin ∈ boundaries begin finish windows busy := mem_boundaries.2 (.inl rfl)
  have hfinish : finish ∈ boundaries begin finish windows busy := mem_boundaries.2 (.inr (.inl rfl))
  have hall : ∀ x ∈ boundaries begin finish windows busy, begin ≤ x ∧ x ≤ finish := fun x hx => by
    rcases mem_boundaries.1 hx with rfl | rfl | ⟨⟨h₁, h₂⟩, -⟩
    · exact ⟨le_rfl, hlt.le⟩
    · exact ⟨hlt.le, le_rfl⟩
    · exact ⟨h₁.le, h₂.le⟩
  generalize boundaries begin finish windows busy = points at *
  cases points with
  | nil => exact absurd hbegin List.not_mem_nil
  | cons a points =>
    have ha : a = begin := by
      rcases List.mem_cons.1 hbegin with h | h
      · exact h.symm
      · exact absurd ((List.pairwise_cons.1 hsorted).1 begin h) (not_lt.2 (hall a List.mem_cons_self).1)
    subst ha
    exact ⟨Period.tiles_between hsorted hfinish fun x hx => (hall x hx).2, fun p hp x hx =>
      Period.between_apart hsorted hp hx⟩

theorem overlaps_iff_mem {r : Range} (ht : t ∈ p) (h₁ : r.start ≤ p.start ∨ p.finish ≤ r.start)
    (h₂ : r.finish ≤ p.start ∨ p.finish ≤ r.finish) : (r.start < p.finish ∧ p.start < r.finish) ↔ t ∈ r := by
  obtain ⟨ht₁, ht₂⟩ := ht
  rw [Period.mem_def]
  grind

theorem contains_iff_mem {w : AvailabilityWindow} (ht : t ∈ p) (h₁ : w.1 ≤ p.start ∨ p.finish ≤ w.1)
    (h₂ : w.2 ≤ p.start ∨ p.finish ≤ w.2) : (w.1 ≤ p.start ∧ p.finish ≤ w.2) ↔ w.1 ≤ t ∧ t < w.2 := by
  obtain ⟨ht₁, ht₂⟩ := ht
  grind

/-- The status of a segment is that of each of its instants. -/
theorem statusOf_eq (hlt : begin < finish) (hp : p ∈ segments (boundaries begin finish windows busy))
    (ht : t ∈ p) : statusOf windows busy restricted p = statusAt windows busy restricted t := by
  obtain ⟨htiles, hapart⟩ := segments_boundaries hlt windows busy
  obtain ⟨h₁, -, h₂⟩ := htiles.within hp
  have hends : ∀ x, (∃ w ∈ windows, x = w.1 ∨ x = w.2) ∨ (∃ r ∈ busy, x = r.start ∨ x = r.finish) →
      x ≤ p.start ∨ p.finish ≤ x := fun x hx => by
    by_cases hin : begin < x ∧ x < finish
    · exact hapart p hp x (mem_boundaries.2 (.inr (.inr ⟨hin, hx⟩)))
    · rcases not_and_or.1 hin with h | h
      · exact .inl ((not_lt.1 h).trans h₁)
      · exact .inr (h₂.trans (not_lt.1 h))
  have hbusy : (busy.any fun r => r.start < p.finish ∧ p.start < r.finish) ↔ Period.Covered busy t := by
    simp only [List.any_eq_true, decide_eq_true_eq, Period.Covered]
    refine exists_congr fun r => and_congr_right fun hr => overlaps_iff_mem ht ?_ ?_
    · exact hends _ (.inr ⟨r, hr, .inl rfl⟩)
    · exact hends _ (.inr ⟨r, hr, .inr rfl⟩)
  have hwindows : (windows.any fun w => w.1 ≤ p.start ∧ p.finish ≤ w.2) ↔
      ∃ w ∈ windows, w.1 ≤ t ∧ t < w.2 := by
    simp only [List.any_eq_true, decide_eq_true_eq]
    refine exists_congr fun w => and_congr_right fun hw => contains_iff_mem ht ?_ ?_
    · exact hends _ (.inl ⟨w, hw, .inl rfl⟩)
    · exact hends _ (.inl ⟨w, hw, .inr rfl⟩)
  simp only [statusOf, statusAt, hbusy, hwindows]

/-- The intervals up to `b`. -/
structure Laid (windows : List AvailabilityWindow) (busy : List Range) (restricted : Bool) (begin b : Instant)
    (result : List DayInterval) : Prop where
  tiles : Period.Tiles b begin (result.map DayInterval.period)
  changes : result.IsChain fun i j => i.status ≠ j.status
  right : ∀ i ∈ result, ∀ t ∈ i.period, i.status = statusAt windows busy restricted t

theorem Laid.nil : Laid windows busy restricted begin begin [] :=
  ⟨rfl, .nil, fun _ hi => absurd hi List.not_mem_nil⟩

theorem Laid.step (h : Laid windows busy restricted begin p.start result) (hlt : p.start < p.finish)
    (hstatus : ∀ t ∈ p, statusOf windows busy restricted p = statusAt windows busy restricted t) :
    Laid windows busy restricted begin p.finish
      (appendMerging joinInterval result ⟨p.start, p.finish, statusOf windows busy restricted p⟩) := by
  obtain ⟨htiles, hchange, hright⟩ := h
  generalize statusOf windows busy restricted p = status at *
  rcases appendMerging_cases joinInterval result ⟨p.start, p.finish, status⟩ with
    ⟨rfl, heq⟩ | ⟨init, i, rfl, ⟨hjoin, heq⟩ | ⟨c, hjoin, heq⟩⟩ <;> rw [heq]
  · refine ⟨⟨Eq.symm htiles, hlt, rfl⟩, List.isChain_singleton _, ?_⟩
    rw [List.forall_mem_singleton]
    exact hstatus
  · have hne : i.status ≠ status := by simpa [joinInterval] using hjoin
    refine ⟨?_, ?_, ?_⟩
    · rw [List.map_append, List.map_singleton]
      exact Period.tiles_snoc.2 ⟨htiles, hlt, rfl⟩
    · rw [List.append_assoc]
      exact List.isChain_split.2 ⟨hchange, by simpa using hne⟩
    · rw [List.forall_mem_append, List.forall_mem_singleton]
      exact ⟨hright, hstatus⟩
  · have hjoin' : i.status = status ∧ ⟨i.startTime, p.finish, status⟩ = c := by
      simpa [joinInterval] using hjoin
    obtain ⟨rfl, rfl⟩ := hjoin'
    rw [List.map_append, List.map_singleton] at htiles
    obtain ⟨htiles, hi, hend⟩ := Period.tiles_snoc.1 htiles
    simp only [List.forall_mem_append, List.forall_mem_singleton] at hright
    refine ⟨?_, ?_, ?_⟩
    · rw [List.map_append, List.map_singleton]
      exact Period.tiles_snoc.2 ⟨htiles, hi.trans (hend ▸ hlt), rfl⟩
    · rw [List.isChain_append] at hchange ⊢
      exact ⟨hchange.1, List.isChain_singleton _, by simpa using hchange.2.2⟩
    · rw [List.forall_mem_append, List.forall_mem_singleton]
      refine ⟨hright.1, fun t ht => ?_⟩
      rcases lt_or_ge t i.endTime with h | h
      · exact hright.2 t ⟨ht.1, h⟩
      · exact hstatus t ⟨hend ▸ h, ht.2⟩

theorem Laid.run {segments : List (Period Instant)} (h : Laid windows busy restricted begin a result)
    (htiles : Period.Tiles b a segments)
    (hstatus : ∀ p ∈ segments, ∀ t ∈ p, statusOf windows busy restricted p = statusAt windows busy
      restricted t) :
    Laid windows busy restricted begin b (segments.foldl (fun result segment =>
      appendMerging joinInterval result ⟨segment.start, segment.finish,
        statusOf windows busy restricted segment⟩) result) := by
  induction segments generalizing a result with
  | nil =>
    obtain rfl : a = b := htiles
    exact h
  | cons p segments ih =>
    obtain ⟨rfl, hlt, htiles⟩ := htiles
    obtain ⟨hp, hstatus⟩ := List.forall_mem_cons.1 hstatus
    exact ih (h.step hlt hp) htiles hstatus

theorem laid_timeline (hlt : begin < finish) (windows : List AvailabilityWindow) (busy : List Range)
    (restricted : Bool) : Laid windows busy restricted begin finish
      (timeline begin finish windows busy restricted) :=
  Laid.nil.run (segments_boundaries hlt windows busy).1 fun _ hp _ ht => statusOf_eq hlt hp ht

end laying

/-- The merged ranges are disjoint and cover what the busy ranges cover. The intervals of the timeline over
them tile the day, change their status at each boundary, and have at each instant the status that the given
ranges and windows ask for. -/
theorem planning_timeline {begin finish : Instant} (hlt : begin < finish)
    (windows : List AvailabilityWindow) (busy : List Range) (restricted : Bool) :
    (merge busy).Pairwise (fun a b => a.start ≤ b.start ∧ a.finish < b.start) ∧
    (∀ t, Period.Covered (merge busy) t ↔ Period.Covered busy t) ∧
    Period.Tiles finish begin
      ((timeline begin finish windows (merge busy) restricted).map DayInterval.period) ∧
    (timeline begin finish windows (merge busy) restricted).IsChain (fun i j => i.status ≠ j.status) ∧
    ∀ i ∈ timeline begin finish windows (merge busy) restricted, ∀ t ∈ i.period,
    i.status = statusAt windows busy restricted t := by
  have hm := merged_merge busy
  have hcov : ∀ t, Period.Covered (merge busy) t ↔ Period.Covered busy t := fun t =>
    (hm.covered t).trans (Period.covered_congr fun _ => mem_sortBy)
  obtain ⟨htiles, hchange, hright⟩ := laid_timeline hlt windows (merge busy) restricted
  refine ⟨hm.sorted.and hm.separated, hcov, htiles, hchange, fun i hi t ht => ?_⟩
  rw [hright i hi t ht]
  simp only [statusAt, hcov]

/-- A day from nine to five with two touching ranges, an empty one and one that reaches outside. -/
theorem planning_timeline_workday :
    timeline 0 24 [(9, 17)] (merge [⟨16, 30⟩, ⟨12, 13⟩, ⟨5, 5⟩, ⟨11, 12⟩]) false =
      [⟨0, 9, .closed⟩, ⟨9, 11, .available⟩, ⟨11, 13, .occupied⟩, ⟨13, 16, .available⟩, ⟨16, 24, .occupied⟩] ∧
    ∀ i ∈ timeline 0 24 [(9, 17)] (merge [⟨16, 30⟩, ⟨12, 13⟩, ⟨5, 5⟩, ⟨11, 12⟩]) false, ∀ t ∈ i.period,
      i.status = statusAt [(9, 17)] [⟨16, 30⟩, ⟨12, 13⟩, ⟨5, 5⟩, ⟨11, 12⟩] false t :=
  ⟨by decide +kernel, (planning_timeline (by decide) _ _ _).2.2.2.2⟩

end Planning

end GManager
