import GManager.FixedWindows
import GManager.TimeService
import Mathlib.Logic.Function.Basic

/-!
# The guard of customer activations

`CustomerActivationGuard`: three counters, for all requests, an address and a mail address, that are read
together under the row of the first and then hit together. Clock readings are in nanoseconds, what the table
holds in microseconds. The keyed hash and the lower-casing are parameters.
-/

namespace GManager.ActivationGuard

/-- `customer_activation_guards`. -/
structure GuardRow where
  windowStartedAt : ℤ
  attempts : ℕ
  deriving DecidableEq, Repr

abbrev Guards := String → Option GuardRow

/-- `WINDOW`. -/
def window : ℤ := 900000000

structure Limit where
  key : String
  maximum : ℕ
  deriving DecidableEq, Repr

/-- A call of `reserveAttempt`, with the instant that it reads. -/
structure Attempt where
  ip : Option String
  email : String
  reading : ℤ
  deriving DecidableEq, Repr

def Attempt.now (a : Attempt) : ℤ := a.reading / 1000

/-- What the migration leaves. -/
def seeded (globalAt generationAt : ℤ) : Guards := fun key =>
  if key = "global" then some ⟨globalAt, 0⟩ else if key = "generation" then some ⟨generationAt, 0⟩ else none

def exhausted (g : Guards) (now : ℤ) (l : Limit) : Bool :=
  ((g l.key).filter fun r => now - window < r.windowStartedAt).any fun r => l.maximum ≤ r.attempts

/-- The `update` of one counter, and the `insert` when there is none. -/
def count (now : ℤ) (g : Guards) (l : Limit) : Guards :=
  Function.update g l.key (some (match g l.key with
    | some r => ⟨if r.windowStartedAt ≤ now - window then now else r.windowStartedAt,
      if r.windowStartedAt ≤ now - window then 1 else r.attempts + 1⟩
    | none => ⟨now, 1⟩))

/-- At most 1000 expired rows go, `picked` says which. -/
def removeExpiredBuckets (g : Guards) (picked : List String) (reading : ℤ) : Guards :=
  if g "global" = none then g
  else fun key =>
    if key ∈ picked.take 1000 ∧ key ≠ "global" ∧ key ≠ "generation" then
      (g key).filter fun r => ¬ r.windowStartedAt ≤ reading / 1000 - window
    else g key

inductive GuardEvent
  | attempt (a : Attempt)
  | cleanUp (picked : List String) (reading : ℤ)
  deriving DecidableEq, Repr

def GuardEvent.reading : GuardEvent → ℤ
  | attempt a => a.reading
  | cleanUp _ reading => reading

def GuardEvent.now (e : GuardEvent) : ℤ := e.reading / 1000

section model

variable (hash : String → String → String) (lower : String → String)

def limits (ip : Option String) (email : String) : List Limit :=
  [⟨"global", 100⟩, ⟨"ip:" ++ hash "ip" (ip.getD "unknown"), 10⟩,
    ⟨"email:" ++ hash "email" (lower (trim email)), 5⟩]

def Attempt.limits (a : Attempt) : List Limit := ActivationGuard.limits hash lower a.ip a.email

/-- `reserveAttempt`; without the row that it locks it fails. -/
def reserveAttempt (g : Guards) (a : Attempt) : Option Bool × Guards :=
  if g "global" = none then (none, g)
  else if (a.limits hash lower).any (exhausted g a.now) then (some false, g)
  else (some true, (a.limits hash lower).foldl (count a.now) g)

def step (g : Guards) : GuardEvent → Guards
  | .attempt a => (reserveAttempt hash lower g a).2
  | .cleanUp picked reading => removeExpiredBuckets g picked reading

def run (g : Guards) (es : List GuardEvent) : Guards := es.foldl (step hash lower) g

/-- The attempts, with their results. -/
def outcomes (g : Guards) : List GuardEvent → List (Attempt × Option Bool)
  | [] => []
  | .attempt a :: es => (a, (reserveAttempt hash lower g a).1) :: outcomes (step hash lower g (.attempt a)) es
  | .cleanUp picked reading :: es => outcomes (step hash lower g (.cleanUp picked reading)) es

def admitted (g : Guards) (es : List GuardEvent) : List Attempt :=
  (outcomes hash lower g es).filterMap fun o => if o.2 = some true then some o.1 else none

end model

/-- How many attempts for a limit were admitted in the 15 minutes from `x`, in nanoseconds. -/
def reserved (hash : String → String → String) (lower : String → String) (g : Guards) (es : List GuardEvent)
    (l : Limit) (x : ℤ) : ℕ :=
  (admitted hash lower g es).countP fun a => l ∈ a.limits hash lower ∧ x ≤ a.reading ∧
    a.reading < x + 1000 * window

section keys

variable {hash : String → String → String} {lower : String → String}

theorem ne_of_head_ne {s s' : String} (h : s.toList.head? ≠ s'.toList.head?) : s ≠ s' := by
  rintro rfl
  exact h rfl

theorem global_ne_ip (x : String) : "global" ≠ "ip:" ++ x := ne_of_head_ne (by simp [String.toList_append])

theorem global_ne_email (x : String) : "global" ≠ "email:" ++ x :=
  ne_of_head_ne (by simp [String.toList_append])

theorem ip_ne_email (x y : String) : "ip:" ++ x ≠ "email:" ++ y :=
  ne_of_head_ne (by simp [String.toList_append])

theorem limit_ext {ip ip' : Option String} {email email' : String} {l l' : Limit}
    (hl : l ∈ limits hash lower ip email) (hl' : l' ∈ limits hash lower ip' email')
    (hk : l.key = l'.key) : l = l' := by
  simp only [limits, List.mem_cons, List.not_mem_nil, or_false] at hl hl'
  rcases hl with rfl | rfl | rfl <;> rcases hl' with rfl | rfl | rfl
  · rfl
  · exact absurd hk (global_ne_ip _)
  · exact absurd hk (global_ne_email _)
  · exact absurd hk.symm (global_ne_ip _)
  · exact congrArg (Limit.mk · 10) hk
  · exact absurd hk (ip_ne_email _ _)
  · exact absurd hk.symm (global_ne_email _)
  · exact absurd hk.symm (ip_ne_email _ _)
  · exact congrArg (Limit.mk · 5) hk

theorem nodup_limits (ip : Option String) (email : String) :
    ((limits hash lower ip email).map Limit.key).Nodup := by
  simp only [limits, List.map_cons, List.map_nil, List.nodup_cons, List.mem_cons, List.not_mem_nil,
    or_false, not_or, not_false_eq_true, List.nodup_nil, and_true]
  exact ⟨⟨global_ne_ip _, global_ne_email _⟩, ip_ne_email _ _⟩

theorem Attempt.nodup_limits (a : Attempt) : ((a.limits hash lower).map Limit.key).Nodup :=
  ActivationGuard.nodup_limits a.ip a.email

theorem maximum_pos {ip : Option String} {email : String} {l : Limit}
    (hl : l ∈ limits hash lower ip email) : 0 < l.maximum := by
  simp only [limits, List.mem_cons, List.not_mem_nil, or_false] at hl
  rcases hl with rfl | rfl | rfl <;> simp

end keys

def GuardRow.counter (r : GuardRow) : FixedWindow ℤ := ⟨r.windowStartedAt, r.attempts⟩

/-- The counter of a key. -/
def counters (g : Guards) (key : String) : Option (FixedWindow ℤ) := (g key).map GuardRow.counter

def Limit.policy (l : Limit) : WindowPolicy ℤ where
  expires t := t + window
  le_expires t := by simp [window]
  maximum := l.maximum

theorem Limit.policy_expires (l : Limit) (t : ℤ) : l.policy.expires t = t + window := rfl

section counting

variable {g g' : Guards} {now t : ℤ} {l : Limit} {ls : List Limit} {key : String}

theorem exhausted_iff : exhausted g now l ↔ l.policy.Full now (counters g l.key) := by
  rw [exhausted, counters]
  cases g l.key with
  | none => simp [WindowPolicy.Full]
  | some r =>
    have hiff : now - window < r.windowStartedAt ↔ now < r.windowStartedAt + window := sub_lt_iff_lt_add
    by_cases hlt : now - window < r.windowStartedAt
    · simp [WindowPolicy.Full, Limit.policy, GuardRow.counter, Option.filter, hlt, hiff.1 hlt]
    · simp [WindowPolicy.Full, Limit.policy, GuardRow.counter, Option.filter, hlt, mt hiff.2 hlt]

theorem count_self : counters (count now g l) l.key = some (l.policy.hit now (counters g l.key)) := by
  rw [counters, counters, count, Function.update_self]
  cases g l.key with
  | none => rfl
  | some r =>
    have hiff : r.windowStartedAt ≤ now - window ↔ r.windowStartedAt + window ≤ now := le_sub_iff_add_le
    by_cases hle : r.windowStartedAt ≤ now - window
    · simp [WindowPolicy.hit, Limit.policy, GuardRow.counter, hle, hiff.1 hle]
    · simp [WindowPolicy.hit, Limit.policy, GuardRow.counter, hle, mt hiff.2 hle]

theorem count_of_ne (hne : key ≠ l.key) : counters (count now g l) key = counters g key := by
  rw [counters, count, Function.update_of_ne hne, counters]

theorem foldl_count_of_notMem (hk : key ∉ ls.map Limit.key) :
    counters (ls.foldl (count now) g) key = counters g key := by
  induction ls generalizing g with
  | nil => rfl
  | cons l ls ih =>
    rw [List.map_cons, List.mem_cons, not_or] at hk
    rw [List.foldl_cons, ih hk.2, count_of_ne hk.1]

/-- Each counter is hit once. -/
theorem foldl_count (hn : (ls.map Limit.key).Nodup) (hl : l ∈ ls) :
    counters (ls.foldl (count now) g) l.key = some (l.policy.hit now (counters g l.key)) := by
  induction ls generalizing g with
  | nil => simp at hl
  | cons l' ls ih =>
    rw [List.map_cons, List.nodup_cons] at hn
    rw [List.foldl_cons]
    rcases List.mem_cons.1 hl with rfl | hl
    · rw [foldl_count_of_notMem hn.1, count_self]
    · have hne : l.key ≠ l'.key := fun heq => hn.1 (heq ▸ List.mem_map_of_mem hl)
      rw [ih hn.2 hl, count_of_ne hne]

theorem removeExpiredBuckets_row (picked : List String) (reading : ℤ) (key : String) :
    removeExpiredBuckets g picked reading key = g key ∨ key ≠ "global" ∧
      removeExpiredBuckets g picked reading key = (g key).filter fun r =>
      ¬ r.windowStartedAt ≤ reading / 1000 - window := by
  rw [removeExpiredBuckets]
  by_cases hg : g "global" = none
  · exact .inl (by rw [if_pos hg])
  · by_cases hk : key ∈ picked.take 1000 ∧ key ≠ "global" ∧ key ≠ "generation"
    · exact .inr ⟨hk.2.1, by rw [if_neg hg, if_pos hk]⟩
    · exact .inl (by rw [if_neg hg, if_neg hk])

theorem removeExpiredBuckets_global (picked : List String) (reading : ℤ) :
    removeExpiredBuckets g picked reading "global" = g "global" :=
  (removeExpiredBuckets_row picked reading "global").resolve_right fun h => h.1 rfl

/-- Only a counter whose window is over goes. -/
theorem removeExpiredBuckets_counter (picked : List String) (reading : ℤ) (l : Limit) :
    counters (removeExpiredBuckets g picked reading) l.key = counters g l.key ∨
    counters (removeExpiredBuckets g picked reading) l.key = none ∧
    l.policy.Lapsed (reading / 1000) (counters g l.key) := by
  rw [counters, counters]
  rcases removeExpiredBuckets_row (g := g) picked reading l.key with h | ⟨-, h⟩ <;> rw [h]
  · exact .inl rfl
  · cases g l.key with
    | none => exact .inl rfl
    | some r =>
      have hiff : r.windowStartedAt ≤ reading / 1000 - window ↔
          r.windowStartedAt + window ≤ reading / 1000 := le_sub_iff_add_le
      by_cases hle : r.windowStartedAt ≤ reading / 1000 - window
      · refine .inr ⟨by simp [Option.filter, hle], ?_⟩
        simpa [WindowPolicy.Lapsed, Limit.policy, GuardRow.counter] using hiff.1 hle
      · exact .inl (by simp [Option.filter, hle])

end counting

section runs

variable {hash : String → String → String} {lower : String → String} {g g' : Guards} {t : ℤ} {l : Limit}
  {a : Attempt} {ip : Option String} {email : String} {e : GuardEvent} {es es₁ es₂ : List GuardEvent}

theorem foldl_count_global (ls : List Limit) (now : ℤ) (hg : g "global" ≠ none) :
    ls.foldl (count now) g "global" ≠ none := by
  induction ls generalizing g with
  | nil => exact hg
  | cons l ls ih =>
    refine ih ?_
    by_cases hk : "global" = l.key
    · simp [count, ← hk]
    · rwa [count, Function.update_of_ne hk]

/-- What a call does while the row that it locks is there. -/
theorem reserveAttempt_cases (hash : String → String → String) (lower : String → String) (a : Attempt)
    (hg : g "global" ≠ none) : ((∃ l ∈ a.limits hash lower, l.policy.Full a.now (counters g l.key)) ∧
      reserveAttempt hash lower g a = (some false, g)) ∨
    ((∀ l ∈ a.limits hash lower, ¬ l.policy.Full a.now (counters g l.key)) ∧
      reserveAttempt hash lower g a = (some true, (a.limits hash lower).foldl (count a.now) g)) := by
  simp only [reserveAttempt, if_neg hg, ← exhausted_iff]
  by_cases hany : (a.limits hash lower).any (exhausted g a.now)
  · exact .inl ⟨List.any_eq_true.1 hany, by rw [if_pos hany]⟩
  · exact .inr ⟨fun l hl hex => hany (List.any_eq_true.2 ⟨l, hl, hex⟩), by rw [if_neg hany]⟩

theorem step_global (hg : g "global" ≠ none) : step hash lower g e "global" ≠ none := by
  cases e with
  | cleanUp picked reading => rwa [step, removeExpiredBuckets_global]
  | attempt a =>
    obtain ⟨-, h⟩ | ⟨-, h⟩ := reserveAttempt_cases hash lower a hg
    · rwa [step, h]
    · rw [step, h]
      exact foldl_count_global _ _ hg

theorem run_global (es : List GuardEvent) (hg : g "global" ≠ none) : run hash lower g es "global" ≠ none := by
  induction es generalizing g with
  | nil => exact hg
  | cons e es ih => exact ih (step_global hg)

theorem admitted_cons (e : GuardEvent) (es : List GuardEvent) : admitted hash lower g (e :: es) =
    admitted hash lower g [e] ++ admitted hash lower (step hash lower g e) es := by
  cases e with
  | cleanUp picked reading => rfl
  | attempt a =>
    simp only [admitted, outcomes, List.filterMap_cons, List.filterMap_nil]
    split <;> rfl

/-- The ghost of a counter follows each event. -/
theorem step_keeps {past : List (Recorded Attempt ℤ)} {current : Option (Recorded Attempt ℤ)}
    (hl : l ∈ limits hash lower ip email) (hg : g "global" ≠ none)
    (h : l.policy.Keeps Attempt.now t (counters g l.key) past current) (hle : t ≤ e.now) :
    ∃ past' current', l.policy.Keeps Attempt.now e.now (counters (step hash lower g e) l.key) past' current' ∧
      hits (past' ++ current'.toList) =
        hits (past ++ current.toList) ++ (admitted hash lower g [e]).filter
          (fun a => l ∈ a.limits hash lower) ∧
      (past ++ current.toList).map Recorded.start <+: (past' ++ current'.toList).map Recorded.start := by
  have h := h.mono hle
  cases e with
  | cleanUp picked reading =>
    rw [step]
    rcases removeExpiredBuckets_counter (g := g) picked reading l with hc | ⟨hc, hlapsed⟩ <;> rw [hc]
    · exact ⟨past, current, h, by simp [admitted, outcomes], List.prefix_rfl⟩
    · exact ⟨past ++ current.toList, none, h.purge hlapsed, by simp [admitted, outcomes], by simp⟩
  | attempt a =>
    rw [step]
    obtain ⟨-, hr⟩ | ⟨hfull, hr⟩ := reserveAttempt_cases hash lower a hg
    · rw [hr]
      exact ⟨past, current, h, by simp [admitted, outcomes, hr], List.prefix_rfl⟩
    · have hadm : admitted hash lower g [.attempt a] = [a] := by simp [admitted, outcomes, hr]
      simp only [hr, hadm]
      by_cases hmem : l ∈ a.limits hash lower
      · have hexp : a.now < l.policy.expires a.now := by simp [Limit.policy, window]
        rw [foldl_count a.nodup_limits hmem, List.filter_cons_of_pos (by simpa using hmem), List.filter_nil]
        exact h.hit (maximum_pos hl) (hfull l hmem) hexp
      · have hkey : l.key ∉ (a.limits hash lower).map Limit.key := by
          rw [List.mem_map]
          rintro ⟨l', hl', hk⟩
          exact hmem (limit_ext hl' hl hk ▸ hl')
        rw [foldl_count_of_notMem hkey, List.filter_cons_of_neg (by simpa using hmem),
          List.filter_nil, List.append_nil]
        exact ⟨past, current, h, rfl, List.prefix_rfl⟩

/-- The events happen one after the other, from `t` on. -/
def InOrder (t : ℤ) (es : List GuardEvent) : Prop :=
  (∀ e ∈ es, t ≤ e.now) ∧ es.Pairwise fun e e' => e.reading ≤ e'.reading

theorem InOrder.head (h : InOrder t (e :: es)) : t ≤ e.now := h.1 e List.mem_cons_self

theorem InOrder.tail (h : InOrder t (e :: es)) : InOrder e.now es := by
  obtain ⟨hle, htail⟩ := List.pairwise_cons.1 h.2
  exact ⟨fun e' he' => Int.ediv_le_ediv (by decide) (hle e' he'), htail⟩

theorem InOrder.append_nil (h : InOrder t es) : InOrder t (es ++ []) := by rwa [List.append_nil]

theorem exists_inOrder (h : es.Pairwise fun e e' => e.reading ≤ e'.reading) : ∃ t, InOrder t es := by
  cases es with
  | nil => exact ⟨0, by simp, h⟩
  | cons e es =>
    refine ⟨e.now, List.forall_mem_cons.2 ⟨le_rfl, fun e' he' => ?_⟩, h⟩
    exact Int.ediv_le_ediv (by decide) ((List.pairwise_cons.1 h).1 e' he')

theorem run_keeps {past : List (Recorded Attempt ℤ)} {current : Option (Recorded Attempt ℤ)}
    (hl : l ∈ limits hash lower ip email) (hg : g "global" ≠ none)
    (h : l.policy.Keeps Attempt.now t (counters g l.key) past current) (ho : InOrder t (es₁ ++ es₂)) :
    ∃ t' past' current', InOrder t' es₂ ∧
      l.policy.Keeps Attempt.now t' (counters (run hash lower g es₁) l.key) past' current' ∧
      hits (past' ++ current'.toList) =
        hits (past ++ current.toList) ++ (admitted hash lower g es₁).filter
          (fun a => l ∈ a.limits hash lower) ∧
      (past ++ current.toList).map Recorded.start <+: (past' ++ current'.toList).map Recorded.start := by
  induction es₁ generalizing g t past current with
  | nil => exact ⟨t, past, current, ho, h, by simp [admitted, outcomes], List.prefix_rfl⟩
  | cons e es₁ ih =>
    obtain ⟨past₁, current₁, h₁, hhits₁, hstart₁⟩ := step_keeps hl hg h ho.head
    obtain ⟨t', past', current', ho', h', hhits', hstart'⟩ := ih (step_global hg) h₁ ho.tail
    refine ⟨t', past', current', ho', h', ?_, hstart₁.trans hstart'⟩
    rw [hhits', hhits₁, admitted_cons e es₁, List.filter_append, List.append_assoc]

/-- States that no later call tells apart. -/
structure Alike (t : ℤ) (g g' : Guards) : Prop where
  left : g "global" ≠ none
  right : g' "global" ≠ none
  counters : ∀ l : Limit, l.policy.Alike t (counters g l.key) (counters g' l.key)

theorem Alike.mono {t' : ℤ} (h : Alike t g g') (hle : t ≤ t') : Alike t' g g' :=
  ⟨h.left, h.right, fun l => (h.counters l).mono hle⟩

/-- A clean-up leaves a state like the one before. -/
theorem Alike.cleanUp (hg : g "global" ≠ none) (picked : List String) (reading : ℤ) :
    Alike (reading / 1000) g (removeExpiredBuckets g picked reading) := by
  refine ⟨hg, by rwa [removeExpiredBuckets_global], fun l => ?_⟩
  rcases removeExpiredBuckets_counter (g := g) picked reading l with hc | ⟨hc, hlapsed⟩ <;> rw [hc]
  · exact .refl
  · exact .inr ⟨hlapsed, .none⟩

theorem Alike.trans (h : Alike t g g') {g'' : Guards} (h' : Alike t g' g'') : Alike t g g'' := by
  refine ⟨h.left, h'.right, fun l => ?_⟩
  obtain hc | ⟨hl, hl'⟩ := h.counters l
  · rw [hc]
    exact h'.counters l
  · obtain hc | ⟨-, hl''⟩ := h'.counters l
    · exact .inr ⟨hl, hc ▸ hl'⟩
    · exact .inr ⟨hl, hl''⟩

theorem Alike.symm (h : Alike t g g') : Alike t g' g :=
  ⟨h.right, h.left, fun l => (h.counters l).imp Eq.symm And.symm⟩

theorem Alike.attempt (hash : String → String → String) (lower : String → String) (h : Alike a.now g g') :
    (reserveAttempt hash lower g a).1 = (reserveAttempt hash lower g' a).1 ∧
      Alike a.now (reserveAttempt hash lower g a).2 (reserveAttempt hash lower g' a).2 := by
  obtain ⟨⟨l, hl, hf⟩, hr⟩ | ⟨hf, hr⟩ := reserveAttempt_cases hash lower a h.left <;>
    obtain ⟨⟨l', hl', hf'⟩, hr'⟩ | ⟨hf', hr'⟩ := reserveAttempt_cases hash lower a h.right <;>
    simp only [hr, hr']
  · exact ⟨trivial, h⟩
  · exact absurd ((h.counters l).full_iff.1 hf) (hf' l hl)
  · exact absurd ((h.counters l').full_iff.2 hf') (hf l' hl')
  · refine ⟨trivial, foldl_count_global _ _ h.left, foldl_count_global _ _ h.right, fun l => ?_⟩
    by_cases hk : l.key ∈ (a.limits hash lower).map Limit.key
    · obtain ⟨l', hl', hkey⟩ := List.mem_map.1 hk
      rw [← hkey, foldl_count a.nodup_limits hl', foldl_count a.nodup_limits hl', (h.counters l').hit_eq]
      exact .refl
    · rw [foldl_count_of_notMem hk, foldl_count_of_notMem hk]
      exact h.counters l

theorem Alike.outcomes_eq (h : Alike t g g') (ho : InOrder t es) :
    outcomes hash lower g es = outcomes hash lower g' es := by
  induction es generalizing g g' t with
  | nil => rfl
  | cons e es ih =>
    have h := h.mono ho.head
    cases e with
    | attempt a =>
      obtain ⟨heq, hnext⟩ := h.attempt hash lower
      simp only [outcomes, heq]
      exact congrArg _ (ih hnext ho.tail)
    | cleanUp picked reading =>
      exact ih (((Alike.cleanUp h.left picked reading).symm.trans h).trans
        (Alike.cleanUp h.right picked reading)) ho.tail

theorem outcomes_append : outcomes hash lower g (es₁ ++ es₂) = outcomes hash lower g es₁ ++ outcomes hash
    lower (run hash lower g es₁) es₂ := by
  induction es₁ generalizing g with
  | nil => rfl
  | cons e es₁ ih =>
    cases e with
    | attempt a => exact congrArg _ ih
    | cleanUp picked reading => exact ih

theorem run_append : run hash lower g (es₁ ++ es₂) = run hash lower (run hash lower g es₁)
    es₂ := List.foldl_append

theorem admitted_append : admitted hash lower g (es₁ ++ es₂) =
    admitted hash lower g es₁ ++ admitted hash lower (run hash lower g es₁) es₂ := by
  rw [admitted, outcomes_append, List.filterMap_append, admitted, admitted]

/-- The attempts in the 15 minutes from `x`, as hits of the counter. -/
theorem reserved_eq {x : ℤ} {gs : List (Recorded Attempt ℤ)}
    (hhits : hits gs = (admitted hash lower g es).filter fun a => l ∈ a.limits hash lower) :
    reserved hash lower g es l x = (hits gs).countP fun a => x ≤ a.reading ∧
    a.reading < x + 1000 * window := by
  rw [hhits, List.countP_filter, reserved]
  exact List.countP_congr fun a _ => by simp [and_comm, and_assoc]

/-- All windows of a counter since the migration, those recorded in between among them. -/
theorem seeded_keeps {globalAt generationAt : ℤ} (hl : l ∈ limits hash lower ip email)
    (ho : InOrder t (es₁ ++ es₂)) : ∃ t' c past current, l.policy.Keeps Attempt.now t' c past current ∧
      hits (past ++ current.toList) =
        (admitted hash lower (seeded globalAt generationAt) (es₁ ++ es₂)).filter
          (fun a => l ∈ a.limits hash lower) ∧
      ∀ r ∈ run hash lower (seeded globalAt generationAt) es₁ l.key,
        r.windowStartedAt ∈ (past ++ current.toList).map Recorded.start := by
  have hg : seeded globalAt generationAt "global" ≠ none := by simp [seeded]
  have hfresh : l.policy.Keeps Attempt.now t (counters (seeded globalAt generationAt) l.key)
      [] _ := .fresh (by
    simp only [counters, seeded]
    split
    · rfl
    · split <;> trivial)
  have hnil : ∀ c : Option (FixedWindow ℤ),
      hits ([] ++ (c.map fun w => (⟨w.start, []⟩ : Recorded Attempt ℤ)).toList) = [] := by
    rintro (_ | w) <;> rfl
  obtain ⟨t₁, past₁, current₁, ho₁, h₁, hhits₁, -⟩ := run_keeps hl hg hfresh ho
  rw [hnil, List.nil_append] at hhits₁
  obtain ⟨t₂, past₂, current₂, -, h₂, hhits₂, hstart₂⟩ := run_keeps hl (run_global _ hg) h₁ (ho₁.append_nil)
  refine ⟨t₂, _, past₂, current₂, h₂, ?_, fun r hr => hstart₂.subset ?_⟩
  · rw [hhits₂, hhits₁, admitted_append, List.filter_append]
  · have hc := h₁.counter
    rw [counters, hr, Option.map_some] at hc
    obtain ⟨w, rfl, hw⟩ := Option.map_eq_some_iff.1 hc.symm
    exact List.mem_map.2 ⟨w, by simp, congrArg FixedWindow.start hw⟩

/-- An instant in nanoseconds and its microsecond, against a bound in microseconds. -/
theorem Attempt.now_lt_iff {x : ℤ} : a.now < x ↔ a.reading < 1000 * x := by
  unfold Attempt.now
  omega

/-- `CustomerActivationGuard`, over any attempts and clean-ups: a recorded window takes as many attempts as
the limit, 15 minutes at most twice as many, a rejected attempt changes nothing and finds one of its own
counters exhausted, and clean-ups do not change later results. -/
theorem activation_guard {globalAt generationAt : ℤ} (ho : es.Pairwise fun e e' => e.reading ≤ e'.reading) :
    (∀ ip email, ∀ l ∈ limits hash lower ip email,
      (∀ es₁ es₂, es = es₁ ++ es₂ → ∀ r ∈ run hash lower (seeded globalAt generationAt) es₁ l.key,
        reserved hash lower (seeded globalAt generationAt) es l (1000 * r.windowStartedAt) ≤ l.maximum) ∧
      ∀ x, reserved hash lower (seeded globalAt generationAt) es l x ≤ 2 * l.maximum) ∧
    (∀ es₁ a es₂, es = es₁ ++ .attempt a :: es₂ →
      (reserveAttempt hash lower (run hash lower (seeded globalAt generationAt) es₁) a).1 = some true ∨
      reserveAttempt hash lower (run hash lower (seeded globalAt generationAt) es₁) a =
          (some false, run hash lower (seeded globalAt generationAt) es₁) ∧
        ∃ l ∈ a.limits hash lower, ∃ r ∈ run hash lower (seeded globalAt generationAt) es₁ l.key,
          a.reading < 1000 * (r.windowStartedAt + window) ∧ l.maximum ≤ r.attempts) ∧
    ∀ es₁ picked reading es₂, es = es₁ ++ .cleanUp picked reading :: es₂ →
      outcomes hash lower (run hash lower (seeded globalAt generationAt) (es₁ ++ [.cleanUp picked reading]))
        es₂ = outcomes hash lower (run hash lower (seeded globalAt generationAt) es₁) es₂ := by
  obtain ⟨t, ho⟩ := exists_inOrder ho
  have hg : seeded globalAt generationAt "global" ≠ none := by simp [seeded]
  refine ⟨fun ip email l hl => ⟨fun es₁ es₂ hes r hr => ?_, fun x => ?_⟩, fun es₁ a es₂ hes => ?_,
    fun es₁ picked reading es₂ hes => ?_⟩
  · subst hes
    obtain ⟨t', c, past, current, h, hhits, hstart⟩ := seeded_keeps hl ho
    rw [reserved_eq hhits]
    refine h.countP_le (hstart r hr) fun a ha => ?_
    simp only [decide_eq_true_eq] at ha
    rw [← not_lt, Attempt.now_lt_iff, l.policy_expires, Attempt.now_lt_iff]
    omega
  · obtain ⟨t', c, past, current, h, hhits, -⟩ := seeded_keeps hl ho.append_nil
    rw [List.append_nil] at hhits
    rw [reserved_eq hhits]
    refine h.countP_le_two_mul fun a b ha hb s hs => ?_
    simp only [decide_eq_true_eq] at ha hb
    rw [Attempt.now_lt_iff] at hs
    rw [l.policy_expires, Attempt.now_lt_iff]
    omega
  · obtain ⟨⟨l, hl, hfull⟩, hr⟩ | ⟨-, hr⟩ := reserveAttempt_cases hash lower a (run_global es₁ hg)
    · refine .inr ⟨hr, l, hl, ?_⟩
      obtain ⟨w, hw, hlt, hmax⟩ := hfull
      obtain ⟨r, hrow, rfl⟩ := Option.map_eq_some_iff.1 hw
      exact ⟨r, hrow, Attempt.now_lt_iff.1 hlt, hmax⟩
    · exact .inl (by rw [hr])
  · subst hes
    have ho₂ : InOrder (reading / 1000) es₂ := by
      obtain ⟨-, hpair, -⟩ := List.pairwise_append.1 ho.2
      have htail : InOrder t (.cleanUp picked reading :: es₂) :=
        ⟨fun e he => ho.1 e (List.mem_append_right _ he), hpair⟩
      exact htail.tail
    rw [run_append]
    exact (Alike.cleanUp (run_global _ hg) picked reading).symm.outcomes_eq ho₂

end runs

/-- Five attempts pass for one mail address, the sixth not, nor one just before the window is
over; at its end one passes. -/
def retries : List GuardEvent :=
  [0, 1500, 2000, 3000, 4000, 5000].map
    (fun reading => .attempt ⟨some "10.0.0.7", " Ana@Arcade.test ", reading⟩) ++
    [.cleanUp ["email:ana"] 6000, .attempt ⟨none, "ana@arcade.test", 899999999999⟩, .cleanUp [] 900000000000,
      .attempt ⟨none, "ana@arcade.test", 900000000000⟩]

theorem activation_guard_retries :
    (outcomes (fun _ value => value) (fun s => if s = "Ana@Arcade.test" then "ana@arcade.test" else s)
      (seeded 0 0) retries).map (·.2) =
        [some true, some true, some true, some true, some true, some false, some false, some true] ∧
      ∀ x, reserved (fun _ value => value) (fun s => if s = "Ana@Arcade.test" then "ana@arcade.test" else s)
        (seeded 0 0) retries ⟨"global", 100⟩ x ≤ 200 :=
  have ho : retries.Pairwise fun e e' => e.reading ≤ e'.reading := by decide +kernel
  ⟨by decide +kernel, ((activation_guard ho).1 none "" ⟨"global", 100⟩ List.mem_cons_self).2⟩

end GManager.ActivationGuard
