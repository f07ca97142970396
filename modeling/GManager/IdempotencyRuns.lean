import GManager.Idempotency
import GManager.PartialRuns

/-!
# Requests under idempotency keys

Any number of requests reserve, run, complete and release in any order. A request whose response is a
success completes in the transaction of its handler, and holds the lock on the row of its key until that
transaction ends; every other request releases the key before. `Sound` is the invariant: a completed row is
that of the last success of its key, and a request that has completed is the owner.
-/

namespace GManager.Idempotency

/-- Where a request stands that has reserved its key. -/
inductive Phase
  | handling
  | completed (status : ℕ) (body : String)
  | released (status : ℕ) (body : String)
  | rolledBack
  deriving DecidableEq, Repr

structure Execution where
  token : UUID
  scope : Scope
  requestHash : String
  phase : Phase
  deriving DecidableEq, Repr

/-- A transaction that was committed, with the response to its request. -/
structure Commit where
  scope : Scope
  token : UUID
  requestHash : String
  status : ℕ
  body : String
  deriving DecidableEq, Repr

structure State where
  keys : Keys
  executions : Table Execution.token
  commits : List Commit
  issued : List UUID

def State.empty : State := ⟨.empty, .empty, [], []⟩

/-- What happens to the requests; `now` is the reading of the clock and `token` a random identifier. -/
inductive Event
  | insert (now : Instant) (token : UUID) (scope : Scope) (requestHash : String)
  | resolve (now : Instant) (token : UUID) (scope : Scope) (requestHash : String)
  | complete (token : UUID) (status : ℕ) (body : String)
  | release (token : UUID) (status : ℕ) (body : String)
  | commit (token : UUID)
  | rollback (token : UUID)
  | recover (token : UUID)
  | crash (token : UUID)
  | cleanup (now : Instant)
  deriving DecidableEq, Repr

/-- The request that takes the step. -/
def Event.token : Event → Option UUID
  | .complete token _ _ | .release token _ _ | .commit token | .rollback token | .recover token
  | .crash token => some token
  | _ => none

def Event.reading : Event → Option Instant
  | .insert now _ _ _ | .resolve now _ _ _ | .cleanup now => some now
  | _ => none

namespace State

/-- The transaction of a request holds the lock on the row of the key. -/
def Locked (s : State) (scope : Scope) : Prop :=
  ∃ e ∈ s.executions.rows, e.scope = scope ∧ ∃ status body, e.phase = .completed status body

instance (s : State) (scope : Scope) : Decidable (s.Locked scope) :=
  decidable_of_iff (∃ e ∈ s.executions.rows, e.scope = scope ∧
      (match e.phase with | .completed _ _ => true | _ => false) = true) (by
    refine exists_congr fun e => and_congr_right fun _ => and_congr_right fun _ => ?_
    cases e.phase <;> simp)

/-- A request begins to run under a token that was not used before. -/
def start (s : State) (keys : Keys) (token : UUID) (scope : Scope) (requestHash : String) : State :=
  { s with
    keys
    executions := s.executions.upsert ⟨token, scope, requestHash, .handling⟩
    issued := token :: s.issued }

def enter (s : State) (e : Execution) (phase : Phase) : State :=
  { s with executions := s.executions.save { e with phase } }

def leave (s : State) (token : UUID) : State :=
  { s with executions := s.executions.delete fun e => e.token = token }

def record (s : State) (e : Execution) (status : ℕ) (body : String) : State :=
  { s.leave e.token with commits := s.commits ++ [⟨e.scope, e.token, e.requestHash, status, body⟩] }

/-- The committed requests of a key whose response was a success. -/
def successes (s : State) (scope : Scope) : List Commit :=
  (s.commits.filter fun c => successful c.status).filter fun c => c.scope = scope

end State

open State

/-- A request that runs takes a step. -/
def Execution.step (s : State) (e : Execution) : Event → Option State
  | .complete _ status body =>
    if e.phase = .handling ∧ successful status ∧ ¬ s.Locked e.scope then
      match Idempotency.complete e.scope e.token status body s.keys with
      | .ok _ => some (s.enter e (.completed status body))
      | .error _ => some (s.enter e .rolledBack)
    else none
  | .release _ status body =>
    if e.phase = .handling ∧ successful status = false ∧ ¬ s.Locked e.scope then
      some { s.enter e (.released status body) with keys := Idempotency.release e.scope e.token s.keys }
    else none
  | .commit _ =>
    match e.phase with
    | .completed status body =>
      match Idempotency.complete e.scope e.token status body s.keys with
      | .ok keys => some { s.record e status body with keys }
      | .error _ => none
    | .released status body => some (s.record e status body)
    | _ => none
  | .rollback _ => some (s.enter e .rolledBack)
  | .recover _ =>
    if e.phase = .rolledBack ∧ ¬ s.Locked e.scope then
      some { s.leave e.token with keys := Idempotency.release e.scope e.token s.keys }
    else none
  | .crash _ => some (s.leave e.token)
  | _ => none

/-- `none` where the event cannot happen: it waits for a lock, or its request is not so far. -/
def step (p : Properties) (s : State) : Event → Option State
  | .insert now token scope requestHash =>
    if token ∈ s.issued then none
    else match Idempotency.insert p now token scope requestHash s.keys with
      | some keys => some (s.start keys token scope requestHash)
      | none => some s
  | .resolve now token scope requestHash =>
    if token ∈ s.issued ∨ s.Locked scope then none
    else match resolveExisting p now token scope requestHash s.keys with
      | .ok (.expired _, keys) => some (s.start keys token scope requestHash)
      | _ => some s
  | .cleanup now => some { s with keys := cleanupExpired now s.keys }
  | event => (event.token.bind s.executions.find?).bind fun e => e.step s event

def run (p : Properties) (s : State) (es : List Event) : Option State := es.foldlM (step p) s

def Reachable (p : Properties) (s : State) : Prop := ∃ es, run p .empty es = some s

/-! ### What a step can do -/

/-- A row may be written for a new request. -/
def Starts (p : Properties) (s : State) (now : Instant) (token : UUID) (scope : Scope) (requestHash : String)
    (keys : Keys) : Prop :=
  s.keys.insert (started p now token scope requestHash) = some keys ∨
    ¬ s.Locked scope ∧ keys = s.keys.save (started p now token scope requestHash) ∧
      ∃ k ∈ s.keys, k.scope = scope ∧ ¬ k.Live now

inductive Effect (p : Properties) (s : State) (event : Event) : State → Prop
  | stay : Effect p s event s
  | start {now : Instant} {token : UUID} {scope : Scope} {requestHash : String} {keys : Keys}
      (hnow : now ∈ event.reading) (hfresh : token ∉ s.issued)
        (hkeys : Starts p s now token scope requestHash keys) :
      Effect p s event (s.start keys token scope requestHash)
  | enter {e : Execution} {phase : Phase} (he : e ∈ s.executions)
      (hphase : ∀ status body, phase = .completed status body → successful status = true ∧
        Owns s.keys e.scope e.token)
      (hreleased : ∀ status body, phase ≠ .released status body) : Effect p s event (s.enter e phase)
  | release {e : Execution} {status : ℕ} {body : String} (he : e ∈ s.executions)
      (hstatus : successful status = false) : Effect p s event { s.enter e (.released status body) with
        keys := release e.scope e.token s.keys }
  | success {e : Execution} {status : ℕ} {body : String} {keys : Keys} (he : e ∈ s.executions)
      (hphase : e.phase = .completed status body)
      (hkeys : complete e.scope e.token status body s.keys = .ok keys) :
      Effect p s event { s.record e status body with keys }
  | other {e : Execution} {status : ℕ} {body : String} (he : e ∈ s.executions)
      (hphase : e.phase = .released status body) : Effect p s event (s.record e status body)
  | recover {e : Execution} (he : e ∈ s.executions) :
      Effect p s event { s.leave e.token with keys := release e.scope e.token s.keys }
  | leave {e : Execution} (he : e ∈ s.executions) : Effect p s event (s.leave e.token)
  | cleanup {now : Instant} (hnow : now ∈ event.reading) :
      Effect p s event { s with keys := cleanupExpired now s.keys }

variable {p : Properties} {s s' : State} {event : Event} {e : Execution}

theorem Execution.step_effect (he : e ∈ s.executions) (h : e.step s event = some s') :
    Effect p s event s' := by
  cases event with
  | complete token status body =>
    simp only [Execution.step] at h
    split_ifs at h with hphase
    cases hc : complete e.scope e.token status body s.keys with
    | error x =>
      rw [hc] at h
      cases h
      exact .enter he (by simp) (by simp)
    | ok keys =>
      rw [hc] at h
      cases h
      refine .enter he (fun status' body' heq => ?_) (by simp)
      cases heq
      exact ⟨hphase.2.1, complete_isOk.1 ⟨keys, hc⟩⟩
  | release token status body =>
    simp only [Execution.step] at h
    split_ifs at h with hphase
    cases h
    exact .release he hphase.2.1
  | commit token =>
    simp only [Execution.step] at h
    cases hphase : e.phase with
    | completed status body =>
      simp only [hphase] at h
      cases hc : complete e.scope e.token status body s.keys with
      | error x =>
        rw [hc] at h
        cases h
      | ok keys =>
        rw [hc] at h
        cases h
        exact .success he hphase hc
    | released status body =>
      simp only [hphase] at h
      cases h
      exact .other he hphase
    | _ =>
      simp only [hphase] at h
      cases h
  | rollback token =>
    cases h
    exact .enter he (by simp) (by simp)
  | recover token =>
    simp only [Execution.step] at h
    split_ifs at h with hphase
    cases h
    exact .recover he
  | crash token =>
    cases h
    exact .leave he
  | _ => cases h

theorem step_effect (h : step p s event = some s') : Effect p s event s' := by
  have hrequest : ((event.token.bind s.executions.find?).bind fun e => e.step s event) = some s' →
      Effect p s event s' := by
    intro h
    obtain ⟨e, he, hstep⟩ := Option.bind_eq_some_iff.1 h
    obtain ⟨token, -, he⟩ := Option.bind_eq_some_iff.1 he
    exact Execution.step_effect (Table.find?_eq_some.1 he).1 hstep
  cases event with
  | insert now token scope requestHash =>
    simp only [step] at h
    split_ifs at h with hfresh
    cases hi : insert p now token scope requestHash s.keys with
    | none =>
      rw [hi] at h
      cases h
      exact .stay
    | some keys =>
      rw [hi] at h
      cases h
      exact .start rfl hfresh (.inl hi)
  | resolve now token scope requestHash =>
    simp only [step] at h
    split_ifs at h with hfresh
    rw [not_or] at hfresh
    cases hr : resolveExisting p now token scope requestHash s.keys with
    | error x =>
      rw [hr] at h
      cases h
      exact .stay
    | ok answer =>
      obtain ⟨result, keys⟩ := answer
      obtain ⟨k, hk, hscope, ⟨-, -, hresult⟩ | ⟨hlive, rfl, hkeys⟩⟩ := resolveExisting_cases hr
      · rw [hr, hresult] at h
        split_ifs at h <;> cases h <;> exact .stay
      · rw [hr] at h
        cases h
        exact .start rfl hfresh.1 (.inr ⟨hfresh.2, hkeys, k, hk, hscope, hlive⟩)
  | cleanup now =>
    cases h
    exact .cleanup rfl
  | _ => exact hrequest h

/-! ### The invariant -/

/-- The row is that of the committed request. -/
structure IdempotencyKey.Records (k : IdempotencyKey) (c : Commit) : Prop where
  token : k.processingToken = c.token
  requestHash : k.requestHash = c.requestHash
  status : k.responseStatus = some c.status
  body : k.responseBody = some c.body

structure Sound (s : State) : Prop where
  rows : ∀ k ∈ s.keys, k.processingToken ∈ s.issued
  requests : ∀ e ∈ s.executions, e.token ∈ s.issued
  owner : ∀ e ∈ s.executions, ∀ k ∈ s.keys, k.processingToken = e.token → k.scope = e.scope ∧
    k.requestHash = e.requestHash
  locks : ∀ e ∈ s.executions, ∀ status body, e.phase = .completed status body →
    successful status = true ∧ Owns s.keys e.scope e.token
  released : ∀ e ∈ s.executions, ∀ status body, e.phase = .released status body → successful status = false
  recorded : ∀ k ∈ s.keys, k.status = .completed → ∃ c, (s.successes k.scope).getLast? = some c ∧ k.Records c
  kept : ∀ scope, durable scope.endpoint = true → s.successes scope ≠ [] →
    ∃ k ∈ s.keys, k.scope = scope ∧ k.status = .completed
  once : ∀ scope, durable scope.endpoint = true → (s.successes scope).length ≤ 1

theorem Sound.empty : Sound .empty :=
  ⟨fun _ h => absurd h Table.not_mem_empty, fun _ h => absurd h Table.not_mem_empty,
    fun _ h => absurd h Table.not_mem_empty, fun _ h => absurd h Table.not_mem_empty,
    fun _ h => absurd h Table.not_mem_empty, fun _ h => absurd h Table.not_mem_empty, fun _ _ h =>
    absurd rfl h, fun _ _ => Nat.zero_le 1⟩

/-- The request stands where another one stood, or has left. -/
structure Execution.Continues (e' e : Execution) (keys : Keys) : Prop where
  token : e'.token = e.token
  scope : e'.scope = e.scope
  requestHash : e'.requestHash = e.requestHash
  completed : ∀ status body, e'.phase = .completed status body → successful status = true ∧
    Owns keys e.scope e.token
  released : ∀ status body, e'.phase = .released status body → successful status = false

/-- Rows are deleted that nobody needs, requests go on or leave, and none of them commits a success. -/
theorem Sound.restrict {keys : Keys} {executions : Table Execution.token} {commits : List Commit}
    (h : Sound s) (hkeys : ∀ k ∈ keys, k ∈ s.keys)
    (hdurable : ∀ k ∈ s.keys, k.status = .completed → durable k.scope.endpoint = true → k ∈ keys)
    (hexecutions : ∀ e' ∈ executions, ∃ e ∈ s.executions, e'.Continues e keys)
    (hcommits : (commits.filter fun c => successful c.status) = s.commits.filter fun c =>
      successful c.status) :
    Sound ⟨keys, executions, commits, s.issued⟩ := by
  have hsuccesses : ∀ scope, State.successes ⟨keys, executions, commits, s.issued⟩ scope = s.successes
      scope := fun scope =>
    congrArg (List.filter _) hcommits
  refine ⟨fun k hk => h.rows k (hkeys k hk), fun e' he' => ?_, fun e' he' k hk htoken => ?_,
    fun e' he' status body hphase => ?_, fun e' he' status body hphase => ?_, fun k hk hcompleted => ?_,
    fun scope hscope hne => ?_, fun scope hscope => ?_⟩
  · obtain ⟨e, he, hcont⟩ := hexecutions e' he'
    rw [hcont.token]
    exact h.requests e he
  · obtain ⟨e, he, hcont⟩ := hexecutions e' he'
    rw [hcont.scope, hcont.requestHash]
    exact h.owner e he k (hkeys k hk) (htoken.trans hcont.token)
  · obtain ⟨e, he, hcont⟩ := hexecutions e' he'
    rw [hcont.scope, hcont.token]
    exact hcont.completed status body hphase
  · obtain ⟨e, he, hcont⟩ := hexecutions e' he'
    exact hcont.released status body hphase
  · rw [hsuccesses]
    exact h.recorded k (hkeys k hk) hcompleted
  · rw [hsuccesses] at hne
    obtain ⟨k, hk, rfl, hcompleted⟩ := h.kept scope hscope hne
    exact ⟨k, hdurable k hk hcompleted hscope, rfl, hcompleted⟩
  · rw [hsuccesses]
    exact h.once scope hscope

theorem Sound.continues_self (h : Sound s) (he : e ∈ s.executions) : e.Continues e s.keys :=
  ⟨rfl, rfl, rfl, h.locks e he, h.released e he⟩

theorem Owns.release {keys : Keys} {scope scope' : Scope} {token token' : UUID} (h : Owns keys scope token)
    (hne : token ≠ token') :
    Owns (release scope' token' keys) scope token := by
  obtain ⟨k, hk, hscope, htoken, hstatus⟩ := h
  exact ⟨k, mem_release.2 ⟨hk, fun hall => hne (htoken.symm.trans hall.2.1)⟩, hscope, htoken, hstatus⟩

theorem Owns.cleanupExpired {keys : Keys} {scope : Scope} {token : UUID} {now : Instant}
    (h : Owns keys scope token) : Owns (cleanupExpired now keys) scope token := by
  obtain ⟨k, hk, hscope, htoken, hstatus⟩ := h
  refine ⟨k, mem_cleanupExpired.2 ⟨hk, fun hall => ?_⟩, hscope, htoken, hstatus⟩
  rw [hstatus] at hall
  cases hall.1

section starts

variable {now : Instant} {token : UUID} {scope : Scope} {requestHash : String} {keys : Keys}
  {k : IdempotencyKey}

theorem Starts.mem (h : Starts p s now token scope requestHash keys) (hk : k ∈ keys) :
    k ∈ s.keys ∨ k = started p now token scope requestHash := by
  rcases h with h | ⟨-, rfl, -⟩
  · exact (Table.mem_insert h).1 hk
  · exact (Table.mem_save.1 hk).imp And.left And.left

theorem Starts.kept (h : Starts p s now token scope requestHash keys) (hk : k ∈ s.keys)
    (hne : k.scope ≠ scope) : k ∈ keys := by
  rcases h with h | ⟨-, rfl, -⟩
  · exact (Table.mem_insert h).2 (.inl hk)
  · exact Table.mem_save.2 (.inl ⟨hk, hne⟩)

/-- A row is written over only where it is not live, and not locked. -/
theorem Starts.not_live (h : Starts p s now token scope requestHash keys) (hk : k ∈ s.keys)
    (hscope : k.scope = scope) : ¬ k.Live now ∧ ¬ s.Locked scope := by
  rcases h with h | ⟨hlocked, -, k', hk', hscope', hlive⟩
  · exact absurd hscope ((Table.insert_eq_some.1 h).1 k hk)
  · rw [Table.eq_of_key hk hk' (hscope.trans hscope'.symm)]
    exact ⟨hlive, hlocked⟩

theorem Sound.start (h : Sound s) (hfresh : token ∉ s.issued)
    (hkeys : Starts p s now token scope requestHash keys) : Sound (s.start keys token scope requestHash) := by
  have hmem : ∀ {e : Execution}, e ∈ (s.start keys token scope requestHash).executions →
      e ∈ s.executions ∨ e = ⟨token, scope, requestHash, .handling⟩ := by
    intro e he
    exact (Table.mem_upsert.1 he).symm.imp_left And.right
  refine ⟨fun k hk => ?_, fun e he => ?_, fun e he k hk htoken => ?_, fun e he status body hphase => ?_,
    fun e he status body hphase => ?_, fun k hk hcompleted => ?_, fun scope' hscope hne => ?_, h.once⟩
  · rcases hkeys.mem hk with hk | rfl
    · exact List.mem_cons_of_mem _ (h.rows k hk)
    · exact List.mem_cons_self
  · rcases hmem he with he | rfl
    · exact List.mem_cons_of_mem _ (h.requests e he)
    · exact List.mem_cons_self
  · rcases hmem he with he | rfl <;> rcases hkeys.mem hk with hk | rfl
    · exact h.owner e he k hk htoken
    · have hissued := h.requests e he
      rw [← htoken] at hissued
      exact absurd hissued hfresh
    · have hissued := h.rows k hk
      rw [htoken] at hissued
      exact absurd hissued hfresh
    · exact ⟨rfl, rfl⟩
  · rcases hmem he with he | rfl
    · obtain ⟨hstatus, k, hk, hscope, htoken, hprogress⟩ := h.locks e he status body hphase
      refine ⟨hstatus, k, hkeys.kept hk fun heq => ?_, hscope, htoken, hprogress⟩
      exact (hkeys.not_live hk heq).2 ⟨e, he, hscope.symm.trans heq, status, body, hphase⟩
    · cases hphase
  · rcases hmem he with he | rfl
    · exact h.released e he status body hphase
    · cases hphase
  · rcases hkeys.mem hk with hk | rfl
    · exact h.recorded k hk hcompleted
    · cases hcompleted
  · obtain ⟨k, hk, rfl, hcompleted⟩ := h.kept scope' hscope hne
    refine ⟨k, hkeys.kept hk fun heq => ?_, rfl, hcompleted⟩
    exact (hkeys.not_live hk heq).1 (.inl ⟨hcompleted, .inr hscope⟩)

end starts

section success

variable {status : ℕ} {body : String} {keys : Keys}

theorem mem_leave {e' : Execution} {token : UUID} :
    e' ∈ (s.leave token).executions ↔ e' ∈ s.executions ∧ e'.token ≠ token := by
  show e' ∈ s.executions.delete _ ↔ _
  rw [Table.mem_delete, decide_eq_false_iff_not]

theorem successes_record {scope : Scope} (hstatus : successful status = true) :
    (s.record e status body).successes scope = s.successes scope ++
    if e.scope = scope then [⟨e.scope, e.token, e.requestHash, status, body⟩] else [] := by
  unfold State.successes State.record
  rw [List.filter_append, List.filter_append]
  by_cases hscope : e.scope = scope <;> simp [hstatus, hscope]

theorem successes_record_of_failure {scope : Scope} (hstatus : successful status = false) :
    (s.record e status body).successes scope = s.successes scope := by
  unfold State.successes State.record
  rw [List.filter_append, List.filter_append]
  simp [hstatus]

/-- The row of a request that has completed, before and after its commit. -/
theorem Sound.success_rows (h : Sound s) (he : e ∈ s.executions)
    (hkeys : complete e.scope e.token status body s.keys = .ok keys) :
    ∃ k k' : IdempotencyKey, k ∈ s.keys ∧ k.scope = e.scope ∧ k.processingToken = e.token ∧
    k.status = .inProgress ∧
      k'.scope = e.scope ∧
      k'.status = .completed ∧ k'.expiresAt = k.expiresAt ∧
      k'.Records ⟨e.scope, e.token, e.requestHash, status, body⟩ ∧ ∀ x, x ∈ keys ↔ x = k' ∨ x ∈ s.keys ∧
      x.scope ≠ e.scope := by
  obtain ⟨k, hk, hscope, htoken, hprogress, rfl⟩ := complete_eq_ok hkeys
  refine ⟨k, { k with status := .completed, responseStatus := some status, responseBody := some body }, hk,
    hscope, htoken, hprogress, hscope, rfl, rfl,
    ⟨htoken, (h.owner e he k hk htoken).2, rfl, rfl⟩, fun x => ?_⟩
  refine (Table.mem_save_of_mem hk ?_).trans ?_
  · rfl
  · rw [hscope]

theorem Sound.success (h : Sound s) (he : e ∈ s.executions) (hphase : e.phase = .completed status body)
    (hkeys : complete e.scope e.token status body s.keys = .ok keys) :
    Sound { s.record e status body with keys } := by
  obtain ⟨k, k', hk, hscope, hktoken, hprogress, hscope', hcompleted', -, hrecords, hmem⟩ :=
    h.success_rows he hkeys
  have hstatus := (h.locks e he status body hphase).1
  have hnone : ∀ x ∈ s.keys, x.scope = e.scope → x = k :=
    fun x hx hxs => Table.eq_of_key hx hk (hxs.trans hscope.symm)
  have htoken := hrecords.token
  refine ⟨fun x hx => ?_, fun e' he' => ?_, fun e' he' x hx hxt => ?_, fun e' he' status' body' hphase' => ?_,
    fun e' he' status' body' hphase' => ?_, fun x hx hxc => ?_, fun scope hdurable hne => ?_,
    fun scope hdurable => ?_⟩
  · rcases (hmem x).1 hx with rfl | ⟨hx, -⟩
    · rw [htoken]
      exact h.requests e he
    · exact h.rows x hx
  · exact h.requests e' (mem_leave.1 he').1
  · obtain ⟨he', hne⟩ := mem_leave.1 he'
    rcases (hmem x).1 hx with rfl | ⟨hx, -⟩
    · exact absurd (hxt.symm.trans htoken) hne
    · exact h.owner e' he' x hx hxt
  · obtain ⟨he', hne⟩ := mem_leave.1 he'
    obtain ⟨hstatus', x, hx, hxs, hxt, hxp⟩ := h.locks e' he' status' body' hphase'
    refine ⟨hstatus', x, (hmem x).2 (.inr ⟨hx, fun heq => ?_⟩), hxs, hxt, hxp⟩
    rw [hnone x hx heq, hktoken] at hxt
    exact hne hxt.symm
  · exact h.released e' (mem_leave.1 he').1 status' body' hphase'
  · show ∃ c, ((s.record e status body).successes x.scope).getLast? = some c ∧ _
    rw [successes_record hstatus]
    rcases (hmem x).1 hx with rfl | ⟨hx, hxs⟩
    · rw [if_pos hscope'.symm, List.getLast?_append]
      exact ⟨_, rfl, hrecords⟩
    · rw [if_neg (Ne.symm hxs), List.append_nil]
      exact h.recorded x hx hxc
  · have hne' : (s.record e status body).successes scope ≠ [] := hne
    rw [successes_record hstatus] at hne'
    by_cases heq : e.scope = scope
    · exact ⟨k', (hmem k').2 (.inl rfl), hscope'.trans heq, hcompleted'⟩
    · rw [if_neg heq, List.append_nil] at hne'
      obtain ⟨x, hx, hxs, hxc⟩ := h.kept scope hdurable hne'
      exact ⟨x, (hmem x).2 (.inr ⟨hx, fun hxe => heq (hxe.symm.trans hxs)⟩), hxs, hxc⟩
  · show ((s.record e status body).successes scope).length ≤ 1
    rw [successes_record hstatus]
    by_cases heq : e.scope = scope
    · have hempty : s.successes scope = [] := by
        by_contra hne
        obtain ⟨x, hx, hxs, hxc⟩ := h.kept scope hdurable hne
        rw [hnone x hx (hxs.trans heq.symm), hprogress] at hxc
        cases hxc
      rw [hempty, if_pos heq]
      exact le_rfl
    · rw [if_neg heq, List.append_nil]
      exact h.once scope hdurable

end success

theorem Sound.continues_of_owns {e' : Execution} {keys : Keys} (h : Sound s) (he' : e' ∈ s.executions)
    (howns : Owns s.keys e'.scope e'.token → Owns keys e'.scope e'.token) : e'.Continues e' keys :=
  ⟨rfl, rfl, rfl, fun status body hphase => (h.locks e' he' status body hphase).imp_right howns,
    h.released e' he'⟩

theorem mem_release_of_completed {k : IdempotencyKey} {scope : Scope} {token : UUID} {keys : Keys}
    (hk : k ∈ keys) (hcompleted : k.status = .completed) : k ∈ release scope token keys := by
  refine mem_release.2 ⟨hk, fun hall => ?_⟩
  rw [hcompleted] at hall
  cases hall.2.2

theorem Sound.step (h : Sound s) (hstep : step p s event = some s') : Sound s' := by
  have hself : ∀ e ∈ s.executions, ∃ e₀ ∈ s.executions, e.Continues e₀ s.keys := fun e he =>
    ⟨e, he, h.continues_self he⟩
  cases step_effect hstep with
  | stay => exact h
  | start hnow hfresh hkeys => exact h.start hfresh hkeys
  | success he hphase hkeys => exact h.success he hphase hkeys
  | @enter e phase he hphase hreleased =>
    refine h.restrict (fun _ hk => hk) (fun _ hk _ _ => hk) (fun e' he' => ?_) rfl
    rcases Table.mem_save.1 he' with ⟨he', -⟩ | ⟨rfl, -⟩
    · exact hself e' he'
    · exact ⟨e, he, rfl, rfl, rfl, hphase, fun status body heq => absurd heq (hreleased status body)⟩
  | @release e status body he hstatus =>
    refine h.restrict (fun k hk => (mem_release.1 hk).1) (fun k hk hcompleted _ =>
      mem_release_of_completed hk hcompleted) (fun e' he' => ?_) rfl
    rcases Table.mem_save.1 he' with ⟨he', hne⟩ | ⟨rfl, -⟩
    · exact ⟨e', he', h.continues_of_owns he' fun howns => howns.release hne⟩
    · refine ⟨e, he, rfl, rfl, rfl, fun status' body' heq => ?_, fun status' body' heq => ?_⟩
      · cases heq
      · cases heq
        exact hstatus
  | @other e status body he hphase =>
    refine h.restrict (fun _ hk => hk) (fun _ hk _ _ => hk) (fun e' he' => hself e' (mem_leave.1 he').1) ?_
    rw [List.filter_append]
    simp [h.released e he status body hphase]
  | @recover e he =>
    refine h.restrict (fun k hk => (mem_release.1 hk).1) (fun k hk hcompleted _ =>
      mem_release_of_completed hk hcompleted) (fun e' he' => ?_) rfl
    obtain ⟨he', hne⟩ := mem_leave.1 he'
    exact ⟨e', he', h.continues_of_owns he' fun howns => howns.release hne⟩
  | @leave e he =>
    exact h.restrict (fun _ hk => hk) (fun _ hk _ _ => hk) (fun e' he' => hself e' (mem_leave.1 he').1) rfl
  | @cleanup now hnow =>
    refine h.restrict (fun k hk => (mem_cleanupExpired.1 hk).1) (fun k hk _ hdurable => ?_)
      (fun e' he' => ⟨e', he', h.continues_of_owns he' Owns.cleanupExpired⟩) rfl
    refine mem_cleanupExpired.2 ⟨hk, fun hall => ?_⟩
    rw [hdurable] at hall
    cases hall.2.2

theorem Reachable.sound (h : Reachable p s) : Sound s := by
  obtain ⟨es, hrun⟩ := h
  exact RunMeets.keeps (C := fun _ _ => True) (fun s e s' hs _ hstep => hs.step hstep)
    (.of_forall fun _ _ _ => trivial) Sound.empty hrun

/-! ### Commits -/

/-- While the row of a success is valid it stays, and its key has no other success. -/
theorem valid_step {k : IdempotencyKey} (h : Sound s) (hk : k ∈ s.keys) (hcompleted : k.status = .completed)
    (hvalid : ∀ now ∈ event.reading, now < k.expiresAt ∨ durable k.scope.endpoint = true)
    (hstep : step p s event = some s') :
    k ∈ s'.keys ∧ s'.successes k.scope = s.successes k.scope := by
  cases step_effect hstep with
  | stay => exact ⟨hk, rfl⟩
  | start hnow _ hkeys =>
    exact ⟨hkeys.kept hk fun heq => (hkeys.not_live hk heq).1 (.inl ⟨hcompleted, hvalid _ hnow⟩), rfl⟩
  | enter => exact ⟨hk, rfl⟩
  | release => exact ⟨mem_release_of_completed hk hcompleted, rfl⟩
  | @success e status body keys he hphase hkeys =>
    obtain ⟨k₀, k', hk₀, hscope, -, hprogress, -, -, -, -, hmem⟩ := h.success_rows he hkeys
    have hne : k.scope ≠ e.scope := by
      intro heq
      rw [Table.eq_of_key hk hk₀ (heq.trans hscope.symm), hprogress] at hcompleted
      cases hcompleted
    refine ⟨(hmem k).2 (.inr ⟨hk, hne⟩), ?_⟩
    show (s.record e status body).successes k.scope = _
    rw [successes_record (h.locks e he status body hphase).1, if_neg (Ne.symm hne), List.append_nil]
  | other he hphase => exact ⟨hk, successes_record_of_failure (h.released _ he _ _ hphase)⟩
  | recover => exact ⟨mem_release_of_completed hk hcompleted, rfl⟩
  | leave => exact ⟨hk, rfl⟩
  | @cleanup now hnow =>
    refine ⟨mem_cleanupExpired.2 ⟨hk, fun hall => ?_⟩, rfl⟩
    rcases hvalid now hnow with hlt | hdurable
    · exact absurd hall.2.1 (not_lt.2 hlt.le)
    · rw [hdurable] at hall
      cases hall.2.2

/-- A success leaves a completed row. -/
theorem success_step {scope : Scope} (h : Sound s) (hstep : step p s event = some s') :
    s'.successes scope = s.successes scope ∨ ∃ k ∈ s'.keys, k.scope = scope ∧ k.status = .completed ∧
      ∃ c, k.Records c ∧ s'.successes scope = s.successes scope ++ [c] := by
  cases step_effect hstep with
  | @success e status body keys he hphase hkeys =>
    obtain ⟨-, k', -, -, -, -, hscope', hcompleted', -, hrecords, hmem⟩ := h.success_rows he hkeys
    have hsuccesses : (s.record e status body).successes scope = _ :=
      successes_record (h.locks e he status body hphase).1
    by_cases heq : e.scope = scope
    · rw [if_pos heq] at hsuccesses
      exact .inr ⟨k', (hmem k').2 (.inl rfl), hscope'.trans heq, hcompleted', _, hrecords, hsuccesses⟩
    · rw [if_neg heq, List.append_nil] at hsuccesses
      exact .inl hsuccesses
  | other he hphase => exact .inl (successes_record_of_failure (h.released _ he _ _ hphase))
  | _ => exact .inl rfl

/-- A request whose token is not on a row any more. -/
def Replaced (s : State) (token : UUID) : Prop := token ∈ s.issued ∧ ∀ scope, ¬ Owns s.keys scope token

theorem Replaced.step {token : UUID} (h : Replaced s token) (hs : Sound s)
    (hstep : step p s event = some s') : Replaced s' token ∧ ∀ c ∈ s'.commits, successful c.status = true →
    c.token = token → c ∈ s.commits := by
  have hrows : ∀ {keys : Keys}, (∀ k ∈ keys, k.status = .inProgress → k.processingToken = token →
    k ∈ s.keys) →
      ∀ scope, ¬ Owns keys scope token := by
    rintro keys hkeys scope ⟨k, hk, hscope, htoken, hprogress⟩
    exact h.2 scope ⟨k, hkeys k hk hprogress htoken, hscope, htoken, hprogress⟩
  cases step_effect hstep with
  | stay => exact ⟨h, fun c hc _ _ => hc⟩
  | start hnow hfresh hkeys =>
    refine ⟨⟨List.mem_cons_of_mem _ h.1, hrows fun k hk _ htoken => ?_⟩, fun c hc _ _ => hc⟩
    rcases hkeys.mem hk with hk | rfl
    · exact hk
    · have hissued := h.1
      rw [← htoken] at hissued
      exact absurd hissued hfresh
  | enter => exact ⟨h, fun c hc _ _ => hc⟩
  | release => exact ⟨⟨h.1, hrows fun k hk _ _ => (mem_release.1 hk).1⟩, fun c hc _ _ => hc⟩
  | @success e status body keys he hphase hkeys =>
    obtain ⟨-, k', -, -, -, -, -, hcompleted', -, -, hmem⟩ := hs.success_rows he hkeys
    refine ⟨⟨h.1, hrows fun k hk hprogress _ => ?_⟩, fun c hc _ htoken => ?_⟩
    · rcases (hmem k).1 hk with rfl | ⟨hk, -⟩
      · rw [hcompleted'] at hprogress
        cases hprogress
      · exact hk
    · rcases List.mem_append.1 hc with hc | hc
      · exact hc
      · rw [List.mem_singleton.1 hc] at htoken
        exact absurd (htoken ▸ (hs.locks e he status body hphase).2) (h.2 e.scope)
  | @other e status body he hphase =>
    refine ⟨h, fun c hc hsuccess _ => ?_⟩
    rcases List.mem_append.1 hc with hc | hc
    · exact hc
    · rw [List.mem_singleton.1 hc, hs.released e he status body hphase] at hsuccess
      cases hsuccess
  | recover => exact ⟨⟨h.1, hrows fun k hk _ _ => (mem_release.1 hk).1⟩, fun c hc _ _ => hc⟩
  | leave => exact ⟨h, fun c hc _ _ => hc⟩
  | cleanup => exact ⟨⟨h.1, hrows fun k hk _ _ => (mem_cleanupExpired.1 hk).1⟩, fun c hc _ _ => hc⟩

/-! ### Runs -/

theorem valid_run {k : IdempotencyKey} {es : List Event} (h : Sound s) (hk : k ∈ s.keys)
    (hcompleted : k.status = .completed)
    (hvalid : ∀ event ∈ es, ∀ now ∈ event.reading, now < k.expiresAt ∨ durable k.scope.endpoint = true)
    (hrun : run p s es = some s') : k ∈ s'.keys ∧ s'.successes k.scope = s.successes k.scope := by
  refine (RunMeets.keeps (C := fun _ event => ∀ now ∈ event.reading, now < k.expiresAt ∨
    durable k.scope.endpoint = true) (I := fun x => Sound x ∧ k ∈ x.keys ∧
      x.successes k.scope = s.successes k.scope) (fun x event x' hx hnow hstep => ?_)
    (.of_forall fun event he _ => hvalid event he) ⟨h, hk, rfl⟩ hrun).2
  obtain ⟨hk', hsuccesses⟩ := valid_step hx.1 hx.2.1 hcompleted hnow hstep
  exact ⟨hx.1.step hstep, hk', hsuccesses.trans hx.2.2⟩

theorem Replaced.run {token : UUID} {es : List Event} (h : Replaced s token) (hs : Sound s)
    (hrun : run p s es = some s') : ∀ c ∈ s'.commits, successful c.status = true → c.token = token →
    c ∈ s.commits := by
  refine (RunMeets.keeps (C := fun _ _ => True) (I := fun x => Sound x ∧ Replaced x token ∧
      ∀ c ∈ x.commits, successful c.status = true → c.token = token →
      c ∈ s.commits) (fun x event x' hx _ hstep => ?_)
    (.of_forall fun _ _ _ => trivial) ⟨hs, h, fun c hc _ _ => hc⟩ hrun).2.2
  obtain ⟨hreplaced, hcommits⟩ := hx.2.1.step hx.1 hstep
  exact ⟨hx.1.step hstep, hreplaced, fun c hc hsuccess htoken =>
    hx.2.2 c (hcommits c hc hsuccess htoken) hsuccess htoken⟩

/-- A replay is the answer to the last success of the key. -/
theorem Sound.replay {now : Instant} {token : UUID} {scope : Scope} {requestHash : String} {status : Option ℕ}
    {body : Option String} {keys : Keys} (h : Sound s)
    (hr : resolveExisting p now token scope requestHash s.keys = .ok (.completed status body, keys)) :
    ∃ c, (s.successes scope).getLast? = some c ∧ status = some c.status ∧ body = some c.body ∧
      c.requestHash = requestHash := by
  obtain ⟨k, hk, rfl, ⟨-, -, hresult⟩ | ⟨-, hresult, -⟩⟩ := resolveExisting_cases hr
  · split_ifs at hresult with hhash hcompleted
    cases hresult
    obtain ⟨c, hlast, hrecords⟩ := h.recorded k hk hcompleted
    rw [not_not] at hhash
    exact ⟨c, hlast, hrecords.status, hrecords.body, hrecords.requestHash.symm.trans hhash⟩
  · cases hresult

/-- The response repeats that of the commit: its status, its bytes where the text is ASCII, and its text
where every character is of the charset. -/
structure Commit.Repeated (c : Commit) (r : Response) : Prop where
  replayed : r.replayed = true
  status : r.status = c.status
  bytes : (∀ ch ∈ c.body.toList, ch.toNat < 128) → r.body = (copied c.status c.body).body
  text : (∀ ch ∈ c.body.toList, ch.toNat < 256) → r.body.map (fun b => Char.ofNat b.toNat) = c.body.toList

theorem Commit.repeated (c : Commit) :
    ∃ r, Idempotency.replay (some c.status) (some c.body) = some r ∧ c.Repeated r :=
  ⟨_, rfl, rfl, rfl, fun h => (utf8_of_ascii h).symm, latin1_text⟩

/-- Where the row is not live, the request takes the key over and begins to run. -/
theorem resolve_of_not_live {k : IdempotencyKey} {now : Instant} {token : UUID} {requestHash : String}
    (hk : k ∈ s.keys) (hlive : ¬ k.Live now) (hlocked : ¬ s.Locked k.scope) (hfresh : token ∉ s.issued) :
    step p s (.resolve now token k.scope requestHash) =
      some (s.start (s.keys.save (started p now token k.scope requestHash)) token k.scope requestHash) := by
  simp only [step, if_neg (not_or.2 ⟨hfresh, hlocked⟩), resolveExisting_of_not_live hk hlive]

/-- Requests under one key. -/
theorem one_success_per_key (h : Reachable p s) :
    (∀ scope, durable scope.endpoint = true → (s.successes scope).length ≤ 1) ∧
    (∀ event s' scope, step p s event = some s' → s'.successes scope = s.successes scope ∨
      ∃ k ∈ s'.keys, k.scope = scope ∧ k.status = .completed ∧ ∃ c, k.Records c ∧
        s'.successes scope = s.successes scope ++ [c]) ∧
    (∀ k ∈ s.keys, k.status = .completed → ∀ es s', run p s es = some s' →
      (∀ event ∈ es, ∀ now ∈ event.reading, now < k.expiresAt ∨ durable k.scope.endpoint = true) →
      k ∈ s'.keys ∧ s'.successes k.scope = s.successes k.scope) ∧
    (∀ token ∈ s.issued, (∀ scope, ¬ Owns s.keys scope token) → ∀ es s', run p s es = some s' →
      ∀ c ∈ s'.commits, successful c.status = true → c.token = token → c ∈ s.commits) ∧
    (∀ k ∈ s.keys, ∀ now, k.Live now → ∀ token requestHash, requestHash ≠ k.requestHash →
      insert p now token k.scope requestHash s.keys = none ∧
      resolveExisting p now token k.scope requestHash s.keys = .ok (.differentHash, s.keys)) ∧
    (∀ k ∈ s.keys, ∀ now, ¬ k.Live now → ¬ s.Locked k.scope → ∀ token ∉ s.issued, ∀ requestHash,
      insert p now token k.scope requestHash s.keys = none ∧
      step p s (.resolve now token k.scope requestHash) =
        some (s.start (s.keys.save (started p now token k.scope requestHash)) token k.scope requestHash)) ∧
    ∀ now token scope requestHash status body keys,
      resolveExisting p now token scope requestHash s.keys = .ok (.completed status body, keys) →
      ∃ c, (s.successes scope).getLast? = some c ∧ status = some c.status ∧ body = some c.body ∧
      c.requestHash = requestHash ∧ ∃ r, replay status body = some r ∧ c.Repeated r := by
  have hs := h.sound
  have htaken : ∀ k ∈ s.keys, ∀ now token requestHash, insert p now token
      k.scope requestHash s.keys = none := by
    intro k hk now token requestHash
    refine Option.eq_none_iff_forall_ne_some.2 fun keys hi => ?_
    exact (Table.insert_eq_some.1 hi).1 k hk rfl
  refine ⟨hs.once, fun event s' scope hstep => success_step hs hstep, fun k hk hcompleted es s' hrun hvalid =>
    valid_run hs hk hcompleted hvalid hrun, fun token hissued howns es s' hrun =>
      Replaced.run ⟨hissued, howns⟩ hs hrun,
    fun k hk now hlive token requestHash hne => ⟨htaken k hk now token requestHash, ?_⟩,
    fun k hk now hlive hlocked token hfresh requestHash =>
      ⟨htaken k hk now token requestHash, resolve_of_not_live hk hlive hlocked hfresh⟩,
    fun now token scope requestHash status body keys hr => ?_⟩
  · rw [resolveExisting_of_live hk hlive, if_pos (Ne.symm hne)]
  · obtain ⟨c, hlast, rfl, rfl, hhash⟩ := hs.replay hr
    exact ⟨c, hlast, rfl, rfl, hhash, c.repeated⟩

/-- A lease expires, and a request with another body takes the key over, runs and commits. -/
theorem other_body_executes :
    let scope : Scope := ⟨2, "k", "POST /api/v1/orders"⟩
    (run ⟨24, 120⟩ .empty [.insert 0 1 scope "a", .insert 120000000 2 scope "b",
      .resolve 120000000 3 scope "b", .complete 3 201 "b",
      .commit 3]).map State.commits = some [⟨scope, 3, "b", 201, "b"⟩] := by
  decide +kernel

/-- The order of a customer, and its replay. -/
theorem one_success_per_key_of_order :
    let scope : Scope := ⟨2, "k", "POST /api/v1/orders"⟩
    ∃ s, run ⟨24, 120⟩ .empty [.insert 0 1 scope "a", .complete 1 201 "b", .commit 1] = some s ∧
      ∀ k ∈ s.keys, ∀ es s', run ⟨24, 120⟩ s es = some s' →
      (∀ event ∈ es, ∀ now ∈ event.reading, now < k.expiresAt) →
        s'.successes k.scope = s.successes k.scope := by
  intro scope
  have hkeys : (run ⟨24, 120⟩ .empty [.insert 0 1 scope "a", .complete 1 201 "b", .commit 1]).map
      (fun s => s.keys.rows.map (·.status)) = some [.completed] := by decide +kernel
  obtain ⟨s, hrun, hstatus⟩ := Option.map_eq_some_iff.1 hkeys
  refine ⟨s, hrun, fun k hk es s' hrun' hvalid => ?_⟩
  have hcompleted : k.status = .completed := by
    have hmem : k.status ∈ s.keys.rows.map (·.status) := List.mem_map_of_mem hk
    rw [hstatus] at hmem
    exact List.mem_singleton.1 hmem
  exact ((one_success_per_key ⟨_, hrun⟩).2.2.1 k hk hcompleted es s' hrun' fun event he now hnow =>
    .inl (hvalid event he now hnow)).2

/-! ### The filter takes these steps -/

section filter

variable {β : Type} {phase : Phase}

theorem find?_enter (he : e ∈ s.executions) :
    (s.enter e phase).executions.find? e.token = some { e with phase } :=
  Table.find?_eq_some.2 ⟨Table.mem_save_self he rfl, rfl⟩

theorem step_of_find? {token : UUID} (htoken : event.token = some token)
    (he : s.executions.find? token = some e) : step p s event = e.step s event := by
  cases event <;> cases htoken <;> simp [step, Event.token, he]

/-- No other request holds the lock that this one would take. -/
def Alone (s : State) (e : Execution) : Prop :=
  ∀ x ∈ s.executions, x.scope = e.scope → x.token ≠ e.token → ∀ status body, x.phase ≠ .completed status body

theorem Alone.not_locked (h : Alone s e) (hphase : ∀ status body, phase ≠ .completed status body) :
    ¬ (s.enter e phase).Locked e.scope := by
  rintro ⟨x, hx, hscope, status, body, hcompleted⟩
  rcases Table.mem_save.1 hx with ⟨hx, hne⟩ | ⟨rfl, -⟩
  · exact h x hx hscope hne status body hcompleted
  · exact hphase status body hcompleted

theorem Alone.enter (h : Alone s e) : Alone (s.enter e phase) { e with phase } := by
  intro x hx hscope hne status body
  rcases Table.mem_save.1 hx with ⟨hx, -⟩ | ⟨rfl, -⟩
  · exact h x hx hscope hne status body
  · exact absurd rfl hne

theorem run_cons {es : List Event} {s₁ : State} (h : step p s event = some s₁) :
    run p s (event :: es) = run p s₁ es := by
  show (step p s event).bind _ = _
  rw [h]
  rfl

/-- A transaction that is rolled back releases its key. -/
theorem run_recover (he : e ∈ s.executions) (h : Alone s e) :
    run p (s.enter e .rolledBack) [.recover e.token] =
      some { (s.enter e .rolledBack).leave e.token with keys := release e.scope e.token s.keys } := by
  have hrecover : step p (s.enter e .rolledBack) (.recover e.token) =
      some { (s.enter e .rolledBack).leave e.token with keys := release e.scope e.token s.keys } :=
    (step_of_find? rfl (find?_enter he)).trans (if_pos ⟨rfl, h.not_locked (by simp)⟩)
  exact run_cons hrecover

theorem run_rollback (he : e ∈ s.executions) (h : Alone s e) :
    run p s [.rollback e.token, .recover e.token] =
      some { (s.enter e .rolledBack).leave e.token with keys := release e.scope e.token s.keys } := by
  have hrollback : step p s (.rollback e.token) = some (s.enter e .rolledBack) :=
    step_of_find? rfl (Table.find?_eq_some.2 ⟨he, rfl⟩)
  rw [run_cons hrollback, run_recover he h]

/-- What `executeNew` does, when nothing comes between, is a run of the system: with
its rows and its commit. -/
theorem executeNew_run (he : e ∈ s.executions) (hphase : e.phase = .handling) (halone : Alone s e)
    (h : Handling β) (commitFails : Bool) (tables : β) :
    let ending := executeNew e.scope e.token h commitFails ⟨s.keys, tables⟩
    ∃ es s', run p s es = some s' ∧ s'.keys = ending.server.keys ∧ s'.commits =
      s.commits ++ if ending.committed then [⟨e.scope, e.token, e.requestHash, h.status, h.body⟩]
      else [] := by
  have hfind : s.executions.find? e.token = some e := Table.find?_eq_some.2 ⟨he, rfl⟩
  have hfree : ¬ s.Locked e.scope := by
    rintro ⟨x, hx, hscope, status, body, hcompleted⟩
    by_cases hne : x.token = e.token
    · rw [Table.eq_of_key hx he hne, hphase] at hcompleted
      cases hcompleted
    · exact halone x hx hscope hne status body hcompleted
  intro ending
  cases hthrown : h.thrown with
  | some t =>
    cases t with
    | error =>
      have hcrash : step p s (.crash e.token) = some (s.leave e.token) := step_of_find? rfl hfind
      refine ⟨[.crash e.token], s.leave e.token, run_cons hcrash, ?_⟩
      simp [ending, executeNew, handle, hthrown, State.leave]
    | _ =>
      refine ⟨_, _, run_rollback he halone, ?_⟩
      simp [ending, executeNew, handle, hthrown, State.leave, State.enter]
  | none =>
    cases hsuccess : successful h.status with
    | false =>
      obtain ⟨s₁, hs₁⟩ : ∃ s₁, s₁ = { s.enter e (.released h.status h.body) with
          keys := release e.scope e.token s.keys } :=
        ⟨_, rfl⟩
      have hrelease : step p s (.release e.token h.status h.body) = some s₁ := by
        rw [hs₁]
        exact (step_of_find? rfl hfind).trans (if_pos ⟨hphase, hsuccess, hfree⟩)
      have he₁ : { e with phase := .released h.status h.body } ∈ s₁.executions := by
        rw [hs₁]
        exact Table.mem_save_self he rfl
      have halone₁ : Alone s₁ { e with phase := .released h.status h.body } := by
        rw [hs₁]
        exact halone.enter
      by_cases hfails : h.rollbackOnly = true ∨ commitFails = true
      · refine ⟨_, _, (run_cons hrelease).trans (run_rollback he₁ halone₁), ?_⟩
        cases hr : h.rollbackOnly <;> cases hc : commitFails <;>
          simp [ending, executeNew, handle, hthrown, hsuccess, State.leave, State.enter, hs₁,
            hr, hc] at hfails ⊢
      · rw [not_or, Bool.not_eq_true, Bool.not_eq_true] at hfails
        have hcommit : step p s₁ (.commit e.token) =
            some (s₁.record { e with phase := .released h.status h.body } h.status h.body) :=
          step_of_find? rfl (Table.find?_eq_some.2 ⟨he₁, rfl⟩)
        refine ⟨[.release e.token h.status h.body, .commit e.token], _,
          (run_cons hrelease).trans (run_cons hcommit), ?_⟩
        simp [ending, executeNew, handle, hthrown, hsuccess, hfails, State.record,
          State.leave, State.enter, hs₁]
    | true =>
      have hstep : step p s (.complete e.token h.status h.body) =
          match complete e.scope e.token h.status h.body s.keys with
            | .ok _ => some (s.enter e (.completed h.status h.body))
            | .error _ => some (s.enter e .rolledBack) :=
        (step_of_find? rfl hfind).trans (if_pos ⟨hphase, hsuccess, hfree⟩)
      cases hcomplete : complete e.scope e.token h.status h.body s.keys with
      | error x =>
        rw [hcomplete] at hstep
        refine ⟨_, _, (run_cons hstep).trans (run_recover he halone), ?_⟩
        simp [ending, executeNew, handle, hthrown, hsuccess, hcomplete, State.leave, State.enter]
      | ok keys =>
        rw [hcomplete] at hstep
        have he₁ : { e with phase := .completed h.status h.body } ∈
            (s.enter e (.completed h.status h.body)).executions :=
          Table.mem_save_self he rfl
        by_cases hfails : h.rollbackOnly = true ∨ commitFails = true
        · refine ⟨_, _, (run_cons hstep).trans (run_rollback he₁ halone.enter), ?_⟩
          cases hr : h.rollbackOnly <;> cases hc : commitFails <;>
            simp [ending, executeNew, handle, hthrown, hsuccess, hcomplete, State.leave, State.enter,
              hr, hc] at hfails ⊢
        · rw [not_or, Bool.not_eq_true, Bool.not_eq_true] at hfails
          have hcommit : step p (s.enter e (.completed h.status h.body)) (.commit e.token) =
              match complete e.scope e.token h.status h.body s.keys with
                | .ok keys => some { State.record (s.enter e (.completed h.status h.body))
                    { e with phase := .completed h.status h.body } h.status h.body with keys }
                | .error _ => none :=
            step_of_find? rfl (Table.find?_eq_some.2 ⟨he₁, rfl⟩)
          rw [hcomplete] at hcommit
          refine ⟨[.complete e.token h.status h.body, .commit e.token], _,
            (run_cons hstep).trans (run_cons hcommit), ?_⟩
          simp [ending, executeNew, handle, hthrown, hsuccess, hcomplete, hfails, State.record,
            State.leave, State.enter]

end filter

end GManager.Idempotency
