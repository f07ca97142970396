import GManager.Rows
import GManager.SlidingWindows

/-!
# Rate limits

`RateLimitService`: a bucket of instants for each key, pruned when the key is checked, in place and
also when the call is refused, and dropped by a sweep that has read its clock before. A check is
one computation of the map on its key, and so is a sweep of a key; in between the calls of other
threads happen in any order.
-/

namespace GManager

/-- The window, in microseconds, is the one of the call that made the bucket. -/
structure Bucket where
  values : List Instant
  window : ℤ
  deriving DecidableEq, Repr

/-- `attempts`. -/
abbrev Attempts := String → Option Bucket

namespace Attempts

/-- `check`. -/
def check (m : Attempts) (key : String) (limit window : ℤ) (now : Instant) : Except Failure Unit × Attempts :=
  let bucket := (m key).getD ⟨[], window⟩
  let values := bucket.values.dropWhile fun a => a < now - window
  if limit ≤ values.length then
    -- the queue of a bucket was pruned already; a new bucket is not stored
    (.error (fail .tooManyRequests "Too many attempts. Try again later."),
      Function.update m key ((m key).map fun b => { b with values }))
  else (.ok (), Function.update m key (some { bucket with values := values ++ [now] }))

/-- `removeExpiredBuckets`, of one key, after its reading of the clock. -/
def removeExpired (m : Attempts) (key : String) (reading : Instant) : Attempts :=
  Function.update m key ((m key).filter fun b => ¬ ∀ at' ∈ b.values, at' < reading - b.window)

section checks

variable (lower : String → String) (print : UUID → String) (m : Attempts)

def checkLogin (ip email : String) := m.check ("login:" ++ ip ++ ":" ++ lower email) 5 600000000

def checkOperationalCreate (userId : UUID) (endpoint : String) :=
  m.check ("operation:" ++ print userId ++ ":" ++ endpoint) 30 60000000

def checkSearch (userId : UUID) := m.check ("search:" ++ print userId) 60 60000000

def checkMachine (identityId : UUID) (operation : String) :=
  m.check ("machine:" ++ print identityId ++ ":" ++ operation) 120 60000000

def checkMachineCustomerLogin (identityId : UUID) :=
  m.check ("machine-customer-login:" ++ print identityId) 5 600000000

end checks

end Attempts

/-- The limit and the window of each key. -/
structure RatePolicy where
  limit : String → ℤ
  window : String → ℤ

namespace RatePolicy

variable (p : RatePolicy)

def limits : Limits String Instant where
  limit := p.limit
  since key now := now - p.window key
  since_mono key _ _ h := sub_le_sub_right h (p.window key)

def step (m : Attempts) : LimiterEvent String Instant → Attempts
  | .check key now => (m.check key (p.limit key) (p.window key) now).2
  | .sweep key reading _ => m.removeExpired key reading

/-- Whether a call passes. -/
def passes (m : Attempts) (key : String) (now : Instant) : Bool :=
  (m.check key (p.limit key) (p.window key) now).1.isOk

def run (m : Attempts) (es : List (LimiterEvent String Instant)) : Attempts := es.foldl p.step m

def decisions (m : Attempts) : List (LimiterEvent String Instant) → List (String × Instant × Bool)
  | [] => []
  | .check key now :: es => (key, now, p.passes m key now) :: decisions (p.step m (.check key now)) es
  | .sweep key reading now :: es => decisions (p.step m (.sweep key reading now)) es

end RatePolicy

/-- The values of the buckets. -/
def Attempts.kept (m : Attempts) (key : String) : List Instant := (m key).elim [] Bucket.values

/-- The buckets have the windows of their keys and remember what still counts. -/
structure RatePolicy.Agrees (p : RatePolicy) (t : Instant) (m : Attempts)
    (h : String → List Instant) : Prop where
  window : ∀ key, ∀ b ∈ m key, b.window = p.window key
  remembers : p.limits.Remembers t m.kept h

theorem Attempts.kept_update (m : Attempts) (key : String) (b : Option Bucket) :
    Attempts.kept (Function.update m key b) = Function.update m.kept key (b.elim [] Bucket.values) := by
  funext key'
  by_cases hk : key' = key
  · subst hk
    simp [kept]
  · simp [kept, hk]

namespace RatePolicy

variable {p : RatePolicy} {m : Attempts} {h : String → List Instant} {t : Instant}
  {key : String} {now : Instant}

/-- What a check at `now` leaves in the bucket before it decides. -/
def pruned (p : RatePolicy) (m : Attempts) (key : String) (now : Instant) : List Instant :=
  (m.kept key).dropWhile fun a => a < now - p.window key

theorem check_values (m : Attempts) : ((m key).getD ⟨[], p.window key⟩).values.dropWhile
    (fun a => a < now - p.window key) = p.pruned m key now := by
  cases hm : m key with
  | none => simp [pruned, Attempts.kept, hm]
  | some b => simp [pruned, Attempts.kept, hm]

namespace Agrees

/-- The bucket is pruned to the window of the call. -/
theorem pruned_eq (r : p.Agrees t m h) (hle : t ≤ now) : p.pruned m key now = p.limits.window h key now := by
  rw [r.remembers.window_eq hle]
  exact dropWhile_lt_eq_filter (r.remembers.sorted key) _

theorem passes_eq (r : p.Agrees t m h) (hle : t ≤ now) : p.passes m key now = p.limits.admits h key now := by
  rw [passes, Attempts.check, check_values, r.pruned_eq hle, Limits.admits]
  by_cases hlt : p.limit key ≤ (p.limits.window h key now).length
  · rw [if_pos hlt]
    exact (decide_eq_false (not_lt.2 hlt)).symm
  · rw [if_neg hlt]
    exact (decide_eq_true (not_le.1 hlt)).symm

/-- Pruning forgets only what lies before every later window. -/
theorem prune (r : p.Agrees t m h) (hle : t ≤ now) :
    p.limits.Remembers now (Function.update m.kept key (p.pruned m key now)) h := by
  have hnow := r.remembers.mono hle
  have heq : p.pruned m key now = (m.kept key).filter fun a => p.limits.since key now ≤ a :=
    dropWhile_lt_eq_filter (r.remembers.sorted key) _
  refine hnow.update ?_ (fun a ha => ?_) fun now' hle' => ?_
  · rw [heq]
    exact (hnow.sorted key).filter _
  · rw [heq] at ha
    exact (hnow.past key).1 a (List.mem_filter.1 ha).1
  · rw [heq, List.filter_filter]
    refine List.filter_congr fun a _ => ?_
    have hmono := p.limits.since_mono key hle'
    by_cases hx : p.limits.since key now' ≤ a
    · simp [hx, hmono.trans hx]
    · simp [hx]

theorem check (r : p.Agrees t m h) (hle : t ≤ now) :
    p.Agrees now (p.step m (.check key now)) (p.limits.step h (.check key now)) := by
  have hpasses : p.passes m key now = p.limits.admits h key now := r.passes_eq hle
  have hprune : p.limits.Remembers now (Function.update m.kept key (p.pruned m key now)) h := r.prune hle
  simp only [step, Limits.step, ← hpasses]
  rw [passes, Attempts.check, check_values]
  by_cases hlt : p.limit key ≤ (p.pruned m key now).length
  · simp only [if_pos hlt, Except.isOk, Except.toBool, Bool.false_eq_true, if_false]
    refine ⟨fun key' b hb => ?_, ?_⟩
    · by_cases hk : key' = key
      · subst hk
        rw [Function.update_self] at hb
        obtain ⟨b', hb', rfl⟩ := Option.map_eq_some_iff.1 hb
        exact r.window key' b' hb'
      · rw [Function.update_of_ne hk] at hb
        exact r.window key' b hb
    · rw [Attempts.kept_update]
      cases hm : m key with
      | none =>
        have hnil : p.pruned m key now = [] := by simp [pruned, Attempts.kept, hm]
        rwa [hnil] at hprune
      | some b => exact hprune
  · simp only [if_neg hlt, Except.isOk, Except.toBool, if_true]
    refine ⟨fun key' b hb => ?_, ?_⟩
    · by_cases hk : key' = key
      · subst hk
        rw [Function.update_self] at hb
        obtain rfl := Option.some.inj hb
        cases hm : m key' with
        | none => rfl
        | some b => exact r.window key' b hm
      · rw [Function.update_of_ne hk] at hb
        exact r.window key' b hb
    · rw [Attempts.kept_update]
      have hpush := hprune.push (k := key)
      rwa [Function.update_self, Function.update_idem] at hpush

theorem sweep (r : p.Agrees t m h) {reading : Instant} (hle : t ≤ now) (hr : reading ≤ now) :
    p.Agrees now (p.step m (.sweep key reading now)) h := by
  have hnow := r.remembers.mono hle
  refine ⟨fun key' b hb => ?_, ?_⟩
  · by_cases hk : key' = key
    · subst hk
      rw [step, Attempts.removeExpired, Function.update_self] at hb
      exact r.window key' b (Option.filter_eq_some_iff.1 hb).1
    · rw [step, Attempts.removeExpired, Function.update_of_ne hk] at hb
      exact r.window key' b hb
  · rw [step, Attempts.removeExpired, Attempts.kept_update]
    cases hm : m key with
    | none =>
      have heq : m.kept key = [] := by simp [Attempts.kept, hm]
      rwa [Option.filter_none, Option.elim_none, ← heq, Function.update_eq_self]
    | some b =>
      have heq : m.kept key = b.values := by simp [Attempts.kept, hm]
      by_cases hall : ∀ a ∈ b.values, a < reading - b.window
      · rw [Option.filter_some, if_neg (by rw [decide_eq_true_eq]; exact not_not.2 hall), Option.elim_none]
        refine hnow.update .nil (fun _ ha => absurd ha List.not_mem_nil) fun now' hle' => ?_
        refine (List.filter_eq_nil_iff.2 fun a ha => ?_).symm
        rw [heq] at ha
        have hlt : a < reading - p.window key := r.window key b hm ▸ hall a ha
        rw [decide_eq_true_eq, not_le]
        exact hlt.trans_le (sub_le_sub_right (hr.trans hle') _)
      · rw [Option.filter_some, if_pos (decide_eq_true hall), Option.elim_some, ← heq,
          Function.update_eq_self]
        exact hnow

theorem step (r : p.Agrees t m h) {e : LimiterEvent String Instant} (he : e.Follows t) :
    p.Agrees e.now (p.step m e) (p.limits.step h e) := by
  cases e with
  | check key now => exact r.check he
  | sweep key reading now => exact r.sweep he.1 he.2

variable {es es₁ es₂ : List (LimiterEvent String Instant)}

theorem run (r : p.Agrees t m h) (ho : InOrder t (es₁ ++ es₂)) :
    ∃ t', p.Agrees t' (p.run m es₁) (p.limits.after h es₁) ∧ InOrder t' es₂ := by
  induction es₁ generalizing t m h with
  | nil => exact ⟨t, r, ho⟩
  | cons e es₁ ih => exact ih (r.step ho.1) ho.2

theorem decisions_eq (r : p.Agrees t m h) (ho : InOrder t es) :
    p.decisions m es = p.limits.decisions h es := by
  induction es generalizing t m h with
  | nil => rfl
  | cons e es ih =>
    have ih := ih (r.step ho.1) ho.2
    cases e with
    | check key now => rw [RatePolicy.decisions, Limits.decisions, r.passes_eq ho.1, ih]
    | sweep key reading now => exact ih

theorem empty (t : Instant) : p.Agrees t (fun _ => none) (fun _ => []) :=
  ⟨fun _ b hb => absurd hb (Option.not_mem_none b), .empty t⟩

end Agrees

/-- `RateLimitService`, over any sequence of checks and clean-ups: a call passes when fewer calls of
its key than the limit passed within its window, refused calls and clean-ups do not count later, and
the keys are independent. -/
theorem rate_limit_sliding {es : List (LimiterEvent String Instant)} (ho : InOrder t es) :
    (∀ es₁ key now es₂, es = es₁ ++ .check key now :: es₂ → (p.passes (p.run (fun _ => none) es₁) key now ↔
      (((Limits.accepted (p.decisions (fun _ => none) es₁) key).filter fun a => now - p.window key ≤ a ∧
        a ≤ now).length : ℤ) < p.limit key)) ∧
    (∀ es₁ e es₂, es = es₁ ++ e :: es₂ →
      (∀ key now, e = .check key now → p.passes (p.run (fun _ => none) es₁) key now = false) →
      p.decisions (p.run (fun _ => none) (es₁ ++ [e])) es₂ = p.decisions (p.run (fun _ => none) es₁) es₂) ∧
    ∀ key, ((p.decisions (fun _ => none) es).filter fun d => d.1 = key) =
      p.decisions (fun _ => none) (es.filter fun e => e.key = key) := by
  refine ⟨fun es₁ key now es₂ hes => ?_, fun es₁ e es₂ hes he => ?_, fun key => ?_⟩
  · subst hes
    obtain ⟨t', r, ho'⟩ := (Agrees.empty t).run ho
    have heq := (Agrees.empty (p := p) t).decisions_eq ho.append.1
    rw [r.passes_eq ho'.1, Limits.admits, Limits.window, Limits.after_eq, heq]
    exact decide_eq_true_iff
  · subst hes
    obtain ⟨t', r, ho'⟩ := (Agrees.empty t).run ho
    -- the event leaves the history as it was
    have hstep : p.limits.step (p.limits.after (fun _ => []) es₁) e = p.limits.after (fun _ => []) es₁ := by
      cases e with
      | sweep key reading now => rfl
      | check key now =>
        have hno := (r.passes_eq ho'.1).symm.trans (he key now rfl)
        rw [Limits.step, hno]
        rfl
    have r' := r.step ho'.1
    rw [hstep] at r'
    have hrun : p.run (fun _ => none) (es₁ ++ [e]) = p.step (p.run (fun _ => none) es₁) e := by simp [run]
    rw [hrun, r'.decisions_eq ho'.2, r.decisions_eq (ho'.2.mono ho'.1.le)]
  · rw [(Agrees.empty t).decisions_eq ho, (Agrees.empty t).decisions_eq (ho.filter _)]
    exact Limits.decisions_filter rfl

namespace Arcade

def logins : RatePolicy := ⟨fun _ => 5, fun _ => 600000000⟩

/-- Five calls pass, the sixth does not, also after a clean-up, and ten minutes after the
first call one passes again. -/
def loginCalls : List (LimiterEvent String Instant) :=
  [0, 1, 2, 3, 4, 5].map (.check "machine-customer-login:7" ·) ++ [.sweep "machine-customer-login:7" 3 6,
    .check "login:a:b" 7, .check "machine-customer-login:7" 600000000,
    .check "machine-customer-login:7" 600000001]

theorem rate_limit_sliding_logins : (logins.decisions (fun _ => none) loginCalls).map (·.2.2) =
      [true, true, true, true, true, false, true, false, true] ∧
    ((logins.decisions (fun _ => none) loginCalls).filter fun d => d.1 = "login:a:b") =
      logins.decisions (fun _ => none) (loginCalls.filter fun e => e.key = "login:a:b") :=
  ⟨by decide +kernel, (rate_limit_sliding (t := 0) (by decide)).2.2 "login:a:b"⟩

end Arcade

end RatePolicy

end GManager
