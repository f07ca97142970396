import GManager.FirstFit
import Mathlib.Data.Int.Order.Basic

/-!
# The layout of a calendar day

`weeklyEvents`: the events of a day are clipped to it and sorted, each takes the first free lane of its
overlap group, and a group gets its width when an event starts after all of it.
-/

namespace GManager

/-- A reservation of the calendar, with its times as `Date.parse` reads them. -/
structure CalendarItem where
  id : String
  startTime : ℤ
  endTime : ℤ
  lt : startTime < endTime
  deriving DecidableEq, Repr

structure WeekEvent where
  item : CalendarItem
  start : ℤ
  finish : ℤ
  lane : ℕ
  columns : ℕ
  deriving DecidableEq, Repr

/-- `localeCompare`, as a total preorder. -/
structure Collation where
  le : String → String → Bool
  total : ∀ a b, le a b ∨ le b a
  trans : ∀ a b c, le a b → le b c → le a c

namespace WeekEvent

def period (e : WeekEvent) : Period ℤ := ⟨e.start, e.finish⟩

/-- The clipped event without its place. -/
def clipped (e : WeekEvent) : CalendarItem × ℤ × ℤ := (e.item, e.start, e.finish)

def Meets (a b : WeekEvent) : Prop := Overlaps a.start a.finish b.start b.finish

/-- The order of the events: by start, the longer one first, by identifier. -/
def Before (c : Collation) (a b : WeekEvent) : Prop :=
  a.start < b.start ∨ a.start = b.start ∧
    (b.finish < a.finish ∨ a.finish = b.finish ∧ c.le a.item.id b.item.id)

instance (c : Collation) (a b : WeekEvent) : Decidable (Before c a b) := inferInstanceAs (Decidable (_ ∨ _))

end WeekEvent

/-- The finished groups, the group at work, the ends of its lanes and the end of all of
it, `none` for `-Infinity`. -/
structure Layout where
  placed : List WeekEvent
  group : List WeekEvent
  ends : List ℤ
  groupEnd : Option ℤ
  deriving DecidableEq, Repr

namespace Layout

def empty : Layout := ⟨[], [], [], none⟩

/-- `finish`. -/
def finish (L : Layout) : List WeekEvent :=
  L.placed ++ L.group.map fun e => { e with columns := L.ends.length }

/-- An event that starts when the group is over begins a new one. -/
def opened (L : Layout) (e : WeekEvent) : Layout :=
  if ∀ g ∈ L.groupEnd, g ≤ e.start then ⟨L.finish, [], [], none⟩ else L

def add (L : Layout) (e : WeekEvent) : Layout :=
  let lane := freeLane L.ends e.start
  ⟨L.placed, L.group ++ [{ e with lane }], takeLane L.ends lane e.finish,
    some (L.groupEnd.elim e.finish (max · e.finish))⟩

def step (L : Layout) (e : WeekEvent) : Layout := (L.opened e).add e

end Layout

/-- The events of the day, clipped to it and sorted. -/
def dayEvents (c : Collation) (events : List CalendarItem) (begin finish : ℤ) : List WeekEvent :=
  ((events.filter fun item => item.startTime < finish ∧ begin < item.endTime).map fun item =>
    ⟨item, max begin item.startTime, min finish item.endTime, 0, 1⟩).insertionSort (WeekEvent.Before c)

/-- `weeklyEvents`. -/
def weeklyEvents (c : Collation) (events : List CalendarItem) (begin finish : ℤ) : List WeekEvent :=
  ((dayEvents c events begin finish).foldl Layout.step .empty).finish

section

open Classical in
/-- How many events of the group of `a` run at `t`. -/
noncomputable def running (events : List WeekEvent) (a : WeekEvent) (t : ℤ) : ℕ :=
  events.countP fun b => t ∈ b.period ∧ Linked WeekEvent.Meets events a b

end

/-- Overlapping events have different lanes and the same width, which is what the group needs. -/
structure LaidOut (events : List WeekEvent) : Prop where
  lt : ∀ e ∈ events, e.start < e.finish
  apart : events.Pairwise fun a b => a.Meets b → a.lane ≠ b.lane
  lane_lt : ∀ e ∈ events, e.lane < e.columns
  same : ∀ a ∈ events, ∀ b ∈ events, a.Meets b → a.columns = b.columns
  width : ∀ a ∈ events, (∀ t, running events a t ≤ a.columns) ∧ ∃ t, running events a t = a.columns
  used : ∀ a ∈ events, ∀ j < a.columns, ∃ b ∈ events, Linked WeekEvent.Meets events a b ∧ b.lane = j

section laidOut

variable {events l l' : List WeekEvent} {a b e : WeekEvent} {t : ℤ}

theorem WeekEvent.Meets.symm (h : a.Meets b) : b.Meets a := Overlaps.symm h

theorem LaidOut.nil : LaidOut [] where
  lt := fun _ he => absurd he List.not_mem_nil
  apart := .nil
  lane_lt := fun _ he => absurd he List.not_mem_nil
  same := fun _ he => absurd he List.not_mem_nil
  width := fun _ he => absurd he List.not_mem_nil
  used := fun _ he => absurd he List.not_mem_nil

/-- Nothing of `l` meets anything of `l'`. -/
def MeetsNone (l l' : List WeekEvent) : Prop := ∀ a ∈ l, ∀ b ∈ l', ¬ a.Meets b

theorem MeetsNone.symm (h : MeetsNone l l') : MeetsNone l' l := fun a ha b hb hab => h b hb a ha hab.symm

theorem MeetsNone.linked_iff (h : MeetsNone l l') (ha : a ∈ l) :
    Linked WeekEvent.Meets (l ++ l') a b ↔ Linked WeekEvent.Meets l a b :=
  linked_iff_of_closed (fun _ => List.mem_append_left _)
    (fun x hx y hy hxy => (List.mem_append.1 hy).resolve_right fun hy => h x hx y hy hxy) ha

theorem linked_append_comm : Linked WeekEvent.Meets (l ++ l') a b ↔ Linked WeekEvent.Meets (l' ++ l) a b :=
  ⟨fun h => h.mono fun _ hx => List.mem_append.2 (List.mem_append.1 hx).symm,
    fun h => h.mono fun _ hx => List.mem_append.2 (List.mem_append.1 hx).symm⟩

theorem running_append_comm : running (l ++ l') a t = running (l' ++ l) a t := by
  rw [running, running, List.countP_append, List.countP_append, Nat.add_comm]
  congr 1 <;> exact List.countP_congr fun b _ => by simp only [decide_eq_true_eq, linked_append_comm (l := l)]

/-- A part that meets nothing of the rest is counted alone. -/
theorem MeetsNone.running_eq (h : MeetsNone l l') (hlt : ∀ e ∈ l, e.start < e.finish) (ha : a ∈ l) :
    running (l ++ l') a t = running l a t := by
  have hmem : ∀ b ∈ l', ¬ Linked WeekEvent.Meets (l ++ l') a b := fun b hb hlink => by
    have hbl : b ∈ l := ((h.linked_iff ha).1 hlink).mem ha
    exact h b hbl b hb ⟨hlt b hbl, hlt b hbl⟩
  rw [running, running, List.countP_append, Nat.add_eq_left.2]
  · exact List.countP_congr fun b _ => by simp only [decide_eq_true_eq, h.linked_iff ha]
  · refine List.countP_eq_zero.2 fun b hb hrun => ?_
    simp only [decide_eq_true_eq] at hrun
    exact hmem b hb hrun.2

theorem LaidOut.append (h : LaidOut l) (h' : LaidOut l') (hapart : MeetsNone l l') : LaidOut (l ++ l') := by
  refine ⟨List.forall_mem_append.2 ⟨h.lt, h'.lt⟩,
    List.pairwise_append.2 ⟨h.apart, h'.apart, fun a ha b hb hab => absurd hab (hapart a ha b hb)⟩,
    List.forall_mem_append.2 ⟨h.lane_lt, h'.lane_lt⟩, fun a ha b hb hab => ?_, fun a ha => ?_,
    fun a ha j hj => ?_⟩
  · rcases List.mem_append.1 ha with ha | ha <;> rcases List.mem_append.1 hb with hb | hb
    · exact h.same a ha b hb hab
    · exact absurd hab (hapart a ha b hb)
    · exact absurd hab (hapart.symm a ha b hb)
    · exact h'.same a ha b hb hab
  · rcases List.mem_append.1 ha with ha | ha
    · simp only [hapart.running_eq h.lt ha]
      exact h.width a ha
    · simp only [running_append_comm (l := l), hapart.symm.running_eq h'.lt ha]
      exact h'.width a ha
  · rcases List.mem_append.1 ha with ha | ha
    · obtain ⟨b, hb, hlink, hlane⟩ := h.used a ha j hj
      exact ⟨b, List.mem_append_left _ hb, (hapart.linked_iff ha).2 hlink, hlane⟩
    · obtain ⟨b, hb, hlink, hlane⟩ := h'.used a ha j hj
      exact ⟨b, List.mem_append_right _ hb, linked_append_comm.1 ((hapart.symm.linked_iff ha).2 hlink), hlane⟩

/-- A connected group is as wide as it has lanes. -/
theorem laidOut_group {ends : List ℤ} (h : InLanes WeekEvent.period WeekEvent.lane l ends)
    (hlinked : ∀ a ∈ l, ∀ b ∈ l, Linked WeekEvent.Meets l a b) :
    LaidOut (l.map fun e => { e with columns := ends.length }) := by
  have hlink : ∀ a ∈ l, ∀ b ∈ l, Linked WeekEvent.Meets (l.map fun e => { e with columns := ends.length })
      { a with columns := ends.length } { b with columns := ends.length } := fun a ha b hb =>
    (hlinked a ha b hb).map fun _ _ h => h
  have hrun : ∀ a ∈ l, ∀ t, running (l.map fun e => { e with columns := ends.length })
      { a with columns := ends.length } t = l.countP fun e => t ∈ e.period := fun a ha t => by
    rw [running, List.countP_map]
    refine List.countP_congr fun b hb => ?_
    simp only [Function.comp, decide_eq_true_eq]
    exact and_iff_left (hlink a ha b hb)
  refine ⟨?_, ?_, ?_, ?_, ?_, ?_⟩
  · rw [List.forall_mem_map]
    exact h.lt
  · rw [List.pairwise_map]
    refine h.apart.imp_of_mem fun ha hb hab hmeets heq => ?_
    obtain ⟨t, hta, htb⟩ := (overlaps_iff_exists (h.lt _ ha) (h.lt _ hb)).1 hmeets
    exact hab heq t hta htb
  · rw [List.forall_mem_map]
    intro e he
    have hlane : e.lane < ends.length := h.lane_lt he
    exact hlane
  · simp only [List.forall_mem_map, implies_true]
  · rw [List.forall_mem_map]
    intro a ha
    simp only [hrun a ha]
    have hne : ends ≠ [] := List.ne_nil_of_length_pos (Nat.zero_lt_of_lt (h.lane_lt ha))
    obtain ⟨t, ht⟩ := h.crowded hne
    exact ⟨h.count_le, t, le_antisymm (h.count_le t) ht⟩
  · rw [List.forall_mem_map]
    intro a ha j hj
    obtain ⟨e, he, hlane, -⟩ := h.last j ends[j] (List.getElem?_eq_getElem hj)
    exact ⟨_, List.mem_map_of_mem he, hlink a ha e he, hlane⟩

end laidOut

namespace Layout

variable {L : Layout} {e : WeekEvent} {rest : List WeekEvent}

/-- The groups are laid out, the one at work is connected, and the events to come start
after the finished groups. -/
structure Sound (L : Layout) (rest : List WeekEvent) : Prop where
  laidOut : LaidOut L.placed
  lanes : InLanes WeekEvent.period WeekEvent.lane L.group L.ends
  linked : ∀ a ∈ L.group, ∀ b ∈ L.group, Linked WeekEvent.Meets L.group a b
  behind : ∀ a ∈ L.placed, ∀ b ∈ L.group ++ rest, a.finish ≤ b.start
  started : ∀ a ∈ L.group, ∀ b ∈ rest, a.start ≤ b.start
  ended : ∀ a ∈ L.group, ∃ g ∈ L.groupEnd, a.finish ≤ g
  reached : ∀ g ∈ L.groupEnd, ∃ a ∈ L.group, a.finish = g

theorem Sound.empty (rest : List WeekEvent) : Sound empty rest where
  laidOut := .nil
  lanes := .nil
  linked := fun _ ha => absurd ha List.not_mem_nil
  behind := fun _ ha => absurd ha List.not_mem_nil
  started := fun _ ha => absurd ha List.not_mem_nil
  ended := fun _ ha => absurd ha List.not_mem_nil
  reached := fun _ hg => absurd hg (Option.not_mem_none _)

theorem Sound.finish (h : L.Sound rest) : LaidOut L.finish := by
  refine h.laidOut.append (laidOut_group h.lanes h.linked) fun a ha b hb hab => ?_
  obtain ⟨c, hc, rfl⟩ := List.mem_map.1 hb
  exact absurd hab.2 (not_lt.2 (h.behind a ha c (List.mem_append_left _ hc)))

/-- The group is finished when the next event starts after all of it, and otherwise some
event of it is still running. -/
theorem Sound.opened (h : L.Sound (e :: rest)) (hsorted : ∀ b ∈ rest, e.start ≤ b.start) :
    (L.opened e).Sound (e :: rest) ∧ ∀ g ∈ (L.opened e).groupEnd, e.start < g := by
  have hstart : ∀ b ∈ e :: rest, e.start ≤ b.start := List.forall_mem_cons.2 ⟨le_rfl, hsorted⟩
  unfold Layout.opened
  split
  · rename_i hover
    refine ⟨⟨h.finish, .nil, fun _ ha => absurd ha List.not_mem_nil, fun a ha b hb => ?_, fun _ ha =>
      absurd ha List.not_mem_nil, fun _ ha => absurd ha List.not_mem_nil, fun _ hg =>
      absurd hg (Option.not_mem_none _)⟩, fun _ hg => absurd hg (Option.not_mem_none _)⟩
    rcases List.mem_append.1 ha with ha | ha
    · exact h.behind a ha b (List.mem_append_right _ hb)
    · obtain ⟨c, hc, rfl⟩ := List.mem_map.1 ha
      obtain ⟨g, hg, hcg⟩ := h.ended c hc
      exact (hcg.trans (hover g hg)).trans (hstart b hb)
  · rename_i hrun
    refine ⟨h, fun g hg => not_le.1 fun hle => hrun fun g' hg' => ?_⟩
    rwa [Option.mem_unique hg' hg]

/-- An event that meets an event of a connected group joins it. -/
theorem linked_snoc {l : List WeekEvent} (hlinked : ∀ a ∈ l, ∀ b ∈ l, Linked WeekEvent.Meets l a b)
    (hmeets : ∀ a ∈ l, ∃ x ∈ l, x.Meets e) :
    ∀ a ∈ l ++ [e], ∀ b ∈ l ++ [e], Linked WeekEvent.Meets (l ++ [e]) a b := by
  have he : e ∈ l ++ [e] := List.mem_append_right _ (List.mem_singleton_self e)
  have hsub : ∀ x ∈ l, x ∈ l ++ [e] := fun x hx => List.mem_append_left _ hx
  intro a ha b hb
  rcases List.mem_append.1 ha with ha' | ha' <;> rcases List.mem_append.1 hb with hb' | hb'
  · exact (hlinked a ha' b hb').mono hsub
  · obtain rfl := List.mem_singleton.1 hb'
    obtain ⟨x, hx, hxb⟩ := hmeets a ha'
    exact .tail ((hlinked a ha' x hx).mono hsub) ⟨hsub x hx, he, hxb⟩
  · obtain rfl := List.mem_singleton.1 ha'
    obtain ⟨x, hx, hxa⟩ := hmeets b hb'
    exact .head ⟨he, hsub x hx, hxa.symm⟩ ((hlinked x hx b hb').mono hsub)
  · rw [List.mem_singleton.1 ha', List.mem_singleton.1 hb']
    exact .refl

theorem Sound.add (h : L.Sound (e :: rest)) (hlt : e.start < e.finish) (hrun : ∀ g ∈ L.groupEnd, e.start < g)
    (hsorted : ∀ b ∈ rest, e.start ≤ b.start) : (L.add e).Sound rest := by
  obtain ⟨hlaid, hlanes, hlinked, hbehind, hstarted, hended, hreached⟩ := h
  have hstart : ∀ a ∈ L.group, a.start ≤ e.start := fun a ha => hstarted a ha e List.mem_cons_self
  refine ⟨hlaid, hlanes.step hlt hstart rfl, linked_snoc hlinked fun a ha => ?_, fun a ha b hb => ?_, ?_,
    ?_, fun g hg => ?_⟩
  · obtain ⟨g, hg, -⟩ := hended a ha
    obtain ⟨x, hx, rfl⟩ := hreached g hg
    exact ⟨x, hx, (hstart x hx).trans_lt hlt, hrun _ hg⟩
  · rw [Layout.add, List.append_assoc] at hb
    rcases List.mem_append.1 hb with hb | hb
    · exact hbehind a ha b (List.mem_append_left _ hb)
    · rcases List.mem_cons.1 hb with rfl | hb
      · exact hbehind a ha e (List.mem_append_right _ List.mem_cons_self)
      · exact hbehind a ha b (List.mem_append_right _ (List.mem_cons_of_mem _ hb))
  · simp only [Layout.add, List.forall_mem_append, List.forall_mem_singleton]
    exact ⟨fun a ha b hb => hstarted a ha b (List.mem_cons_of_mem _ hb), hsorted⟩
  · simp only [Layout.add, List.forall_mem_append, List.forall_mem_singleton,
      Option.mem_some_iff, exists_eq_left']
    cases hend : L.groupEnd with
    | none =>
      refine ⟨fun a ha => ?_, le_rfl⟩
      obtain ⟨g, hg, -⟩ := hended a ha
      rw [hend] at hg
      exact absurd hg (Option.not_mem_none _)
    | some g =>
      refine ⟨fun a ha => ?_, le_max_right _ _⟩
      obtain ⟨g', hg', hle⟩ := hended a ha
      obtain rfl := Option.some.inj (hend.symm.trans hg')
      exact hle.trans (le_max_left _ _)
  · have hnew : { e with lane := freeLane L.ends e.start } ∈ (L.add e).group :=
      List.mem_append_right _ (List.mem_singleton_self _)
    obtain rfl := Option.some.inj hg
    cases hend : L.groupEnd with
    | none => exact ⟨_, hnew, rfl⟩
    | some g =>
      rcases le_total g e.finish with hle | hle
      · exact ⟨_, hnew, (max_eq_right hle).symm⟩
      · obtain ⟨x, hx, hxg⟩ := hreached g hend
        exact ⟨x, List.mem_append_left _ hx, hxg.trans (max_eq_left hle).symm⟩

theorem Sound.step (h : L.Sound (e :: rest)) (hlt : e.start < e.finish)
    (hsorted : ∀ b ∈ rest, e.start ≤ b.start) : (L.step e).Sound rest := by
  obtain ⟨h, hrun⟩ := h.opened hsorted
  exact h.add hlt hrun hsorted

theorem Sound.run (h : L.Sound rest) (hlt : ∀ e ∈ rest, e.start < e.finish)
    (hsorted : rest.Pairwise fun a b => a.start ≤ b.start) : (rest.foldl Layout.step L).Sound [] := by
  induction rest generalizing L with
  | nil => exact h
  | cons e rest ih =>
    obtain ⟨he, hlt⟩ := List.forall_mem_cons.1 hlt
    obtain ⟨hes, hsorted⟩ := List.pairwise_cons.1 hsorted
    exact ih (h.step he hes) hlt hsorted

/-- Each event is placed once. -/
theorem map_clipped_run : (rest.foldl Layout.step L).finish.map WeekEvent.clipped =
    L.finish.map WeekEvent.clipped ++ rest.map WeekEvent.clipped := by
  induction rest generalizing L with
  | nil => simp
  | cons e rest ih =>
    rw [List.foldl_cons, ih]
    have hstep : (L.step e).finish.map WeekEvent.clipped = L.finish.map WeekEvent.clipped ++ [e.clipped] := by
      unfold Layout.step Layout.opened
      split <;> simp [Layout.add, Layout.finish, WeekEvent.clipped]
    rw [hstep, List.append_assoc]
    rfl

end Layout

section

variable {c : Collation} {events : List CalendarItem} {begin finish : ℤ}

theorem WeekEvent.before_total (c : Collation) (a b : WeekEvent) : Before c a b ∨ Before c b a := by
  have hid := c.total a.item.id b.item.id
  unfold Before
  grind

theorem WeekEvent.before_trans {a b d : WeekEvent} (hab : Before c a b) (hbd : Before c b d) :
    Before c a d := by
  have hid := c.trans a.item.id b.item.id d.item.id
  unfold Before at *
  grind

theorem dayEvents_pairwise : (dayEvents c events begin finish).Pairwise fun a b => a.start ≤ b.start := by
  have : Std.Total (WeekEvent.Before c) := ⟨WeekEvent.before_total c⟩
  have : IsTrans WeekEvent (WeekEvent.Before c) := ⟨fun _ _ _ => WeekEvent.before_trans⟩
  exact (List.pairwise_insertionSort (WeekEvent.Before c) _).imp fun h => h.elim le_of_lt fun h => h.1.le

theorem dayEvents_lt (hday : begin < finish) : ∀ e ∈ dayEvents c events begin finish, e.start < e.finish := by
  intro e he
  obtain ⟨item, hitem, rfl⟩ := List.mem_map.1 ((List.perm_insertionSort _ _).mem_iff.1 he)
  obtain ⟨-, hmeets⟩ := List.mem_filter.1 hitem
  have hmeets := of_decide_eq_true hmeets
  exact max_lt (lt_min hday hmeets.2) (lt_min hmeets.1 item.lt)

theorem dayEvents_clipped : ((dayEvents c events begin finish).map WeekEvent.clipped).Perm
    ((events.filter fun item => item.startTime < finish ∧ begin < item.endTime).map fun item =>
      (item, max begin item.startTime, min finish item.endTime)) := by
  refine ((List.perm_insertionSort _ _).map _).trans (.of_eq ?_)
  rw [List.map_map]
  rfl

/-- The layout of a day: exactly the events that meet the day, clipped to it; overlapping events lie in
different lanes; and the events of a connected overlap group have the same columns, as many as run at
one time, each of them used. -/
theorem weekly_layout (c : Collation) (events : List CalendarItem) (hday : begin < finish) :
    ((weeklyEvents c events begin finish).map WeekEvent.clipped).Perm
      ((events.filter fun item => Overlaps item.startTime item.endTime begin finish).map fun item =>
        (item, max begin item.startTime, min finish item.endTime)) ∧
    ((weeklyEvents c events begin finish).Pairwise fun a b => a.Meets b → a.lane ≠ b.lane) ∧
    ∀ a ∈ weeklyEvents c events begin finish, a.lane < a.columns ∧
      (∀ b, Linked WeekEvent.Meets (weeklyEvents c events begin finish) a b → a.columns = b.columns) ∧
      (∀ t, running (weeklyEvents c events begin finish) a t ≤ a.columns) ∧
      (∃ t, running (weeklyEvents c events begin finish) a t = a.columns) ∧
      ∀ j < a.columns, ∃ b ∈ weeklyEvents c events begin finish,
        Linked WeekEvent.Meets (weeklyEvents c events begin finish) a b ∧ b.lane = j := by
  have h : LaidOut (weeklyEvents c events begin finish) :=
    ((Layout.Sound.empty _).run (dayEvents_lt hday) dayEvents_pairwise).finish
  refine ⟨?_, h.apart, fun a ha => ⟨h.lane_lt a ha, fun b hab => hab.eq_of h.same, (h.width a ha).1,
    (h.width a ha).2, h.used a ha⟩⟩
  rw [weeklyEvents, Layout.map_clipped_run]
  exact dayEvents_clipped

end

/-- An event from the day before, two that overlap and one on its own. -/
def overnightWeek : List CalendarItem :=
  [⟨"c", 15, 16, by decide⟩, ⟨"overnight", -1, 3, by decide⟩, ⟨"b", 10, 12, by decide⟩,
    ⟨"a", 9, 11, by decide⟩]

def byCodeUnits : Collation := ⟨fun a b => a ≤ b, fun a b => by simpa using String.le_total a b,
  fun a b c hab hbc => by simpa using String.le_trans (by simpa using hab) (by simpa using hbc)⟩

theorem weekly_layout_overnight :
    (weeklyEvents byCodeUnits overnightWeek 0 24).map (fun e => (e.start, e.finish, e.lane, e.columns)) =
      [(0, 3, 0, 1), (9, 11, 0, 2), (10, 12, 1, 2), (15, 16, 0, 1)] ∧
    (weeklyEvents byCodeUnits overnightWeek 0 24).Pairwise fun a b => a.Meets b → a.lane ≠ b.lane :=
  ⟨by decide +kernel, (weekly_layout byCodeUnits overnightWeek (by decide)).2.1⟩

end GManager
