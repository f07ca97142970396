import GManager.Rows
import GManager.Table

/-!
# Idempotency keys

`IdempotencyReservationWriter`, `IdempotencyService` and `IdempotencyFilter.executeNew`. A key belongs to a
principal and an endpoint; its row says which request runs under it, until when the others wait for that
request, and what it answered. The handler runs in a transaction of its own, which `complete` joins, while
`release` commits at once.
-/

namespace GManager.Idempotency

inductive IdempotencyStatus
  | inProgress | completed
  deriving DecidableEq, Repr

/-- The columns of `uk_idempotency_principal_key_endpoint`. -/
structure Scope where
  principalId : UUID
  key : String
  endpoint : String
  deriving DecidableEq, Repr

structure IdempotencyKey where
  scope : Scope
  requestHash : String
  status : IdempotencyStatus
  responseStatus : Option ℕ
  responseBody : Option String
  processingToken : UUID
  leaseExpiresAt : Instant
  createdAt : Instant
  expiresAt : Instant
  deriving DecidableEq, Repr

abbrev Keys := Table IdempotencyKey.scope

/-- `GManagerProperties.idempotency()`. -/
structure Properties where
  ttlHours : ℕ
  inProgressTimeoutSeconds : ℕ

inductive ReservationResult
  | newKey (token : UUID)
  | completed (status : Option ℕ) (body : Option String)
  | differentHash
  | inProgress
  | expired (token : UUID)
  deriving DecidableEq, Repr

/-- The runtime exceptions of the service. -/
inductive ServiceException
  | noSuchElement | illegalState
  deriving DecidableEq, Repr

def durable (endpoint : String) : Bool :=
  "POST /api/v1/gaming-billing/".toList.isPrefixOf endpoint.toList ||
    "POST /api/v1/gaming-sessions".toList.isPrefixOf endpoint.toList

/-! ### The writer -/

/-- The row of a request that begins to run. -/
def started (p : Properties) (now : Instant) (token : UUID) (scope : Scope) (requestHash : String) :
    IdempotencyKey where
  scope
  requestHash
  status := .inProgress
  responseStatus := none
  responseBody := none
  processingToken := token
  leaseExpiresAt := now.plusSeconds p.inProgressTimeoutSeconds
  createdAt := now
  expiresAt := now.plusSeconds (3600 * p.ttlHours)

/-- `insert`; `none` is the violation of the unique constraint. -/
def insert (p : Properties) (now : Instant) (token : UUID) (scope : Scope) (requestHash : String)
    (keys : Keys) : Option Keys :=
  keys.insert (started p now token scope requestHash)

/-- The row answers for its key: another request with the key is not run. -/
def IdempotencyKey.Live (k : IdempotencyKey) (now : Instant) : Prop :=
  (k.status = .completed ∧ (now < k.expiresAt ∨ durable k.scope.endpoint = true)) ∨
    (k.status = .inProgress ∧ now < k.leaseExpiresAt)

/-- `resolveExisting`. -/
def resolveExisting (p : Properties) (now : Instant) (token : UUID) (scope : Scope) (requestHash : String)
    (keys : Keys) : Except ServiceException (ReservationResult × Keys) :=
  match keys.find? scope with
  | none => .error .noSuchElement
  | some existing =>
    if existing.status = .completed ∧ (now < existing.expiresAt ∨ durable scope.endpoint) then
      if existing.requestHash ≠ requestHash then .ok (.differentHash, keys)
      else .ok (.completed existing.responseStatus existing.responseBody, keys)
    else if existing.status = .inProgress ∧ now < existing.leaseExpiresAt then
      if existing.requestHash ≠ requestHash then .ok (.differentHash, keys)
      else .ok (.inProgress, keys)
    else .ok (.expired token, keys.save (started p now token scope requestHash))

/-! ### The service -/

/-- The row is in progress under this token. -/
def Owns (keys : Keys) (scope : Scope) (token : UUID) : Prop :=
  ∃ k ∈ keys, k.scope = scope ∧ k.processingToken = token ∧ k.status = .inProgress

/-- `complete`, which asks for the row to be `owned`. -/
def complete (scope : Scope) (token : UUID) (status : ℕ) (body : String) (keys : Keys) :
    Except ServiceException Keys :=
  match keys.find? scope with
  | none => .error .noSuchElement
  | some entity =>
    if entity.processingToken ≠ token ∨ entity.status ≠ .inProgress then .error .illegalState
    else .ok (keys.save { entity with
      status := .completed, responseStatus := some status, responseBody := some body })

/-- `release`. -/
def release (scope : Scope) (token : UUID) (keys : Keys) : Keys :=
  keys.delete fun k => k.scope = scope ∧ k.processingToken = token ∧ k.status = .inProgress

/-- `cleanupExpired`, by `deleteCompletedByExpiresAtBefore`. -/
def cleanupExpired (cutoff : Instant) (keys : Keys) : Keys :=
  keys.delete fun k => k.status = .completed ∧ k.expiresAt < cutoff ∧ durable k.scope.endpoint = false

/-! ### The filter -/

/-- What leaves a transaction other than its result: a checked exception of the chain, a
runtime exception or an error. -/
inductive Thrown
  | checked | runtime | error
  deriving DecidableEq, Repr

/-- How the handler ends: what it has written to the other tables, the response in the buffer, and whether a
transaction that took part is marked for rollback. -/
structure Handling (β : Type) where
  written : β
  status : ℕ
  body : String
  thrown : Option Thrown
  rollbackOnly : Bool

/-- The rows of the keys, and the other tables. -/
structure Server (β : Type) where
  keys : Keys
  tables : β

/-- How `executeNew` ends; the response carries `Idempotency-Replayed: false`. -/
structure Ending (β : Type) where
  server : Server β
  committed : Bool
  status : ℕ
  body : String
  thrown : Option Thrown

def successful (status : ℕ) : Bool := 200 ≤ status && status < 300

section filter

variable {β : Type}

/-- The work in the transaction: the keys as others see them meanwhile, and as the
transaction will commit them. -/
def handle (scope : Scope) (token : UUID) (h : Handling β) (keys : Keys) : Keys × Except Thrown Keys :=
  match h.thrown with
  | some t => (keys, .error t)
  | none =>
    if successful h.status then
      match complete scope token h.status h.body keys with
      | .ok completed => (keys, .ok completed)
      | .error _ => (keys, .error .runtime)
    else (release scope token keys, .ok (release scope token keys))

/-- `executeNew`. The response is copied however the transaction ends. -/
def executeNew (scope : Scope) (token : UUID) (h : Handling β) (commitFails : Bool)
    (db : Server β) : Ending β :=
  let (keys, result) := handle scope token h db.keys
  let unsuccessful (released : Keys) (thrown : Option Thrown) : Ending β :=
    ⟨⟨released, db.tables⟩, false, h.status, h.body, thrown⟩
  match result with
  | .error .error => unsuccessful keys (some .error)
  | .error t => unsuccessful (release scope token keys) (some t)
  | .ok completed =>
    -- `UnexpectedRollbackException` is not thrown further.
    if h.rollbackOnly then unsuccessful (release scope token keys) none
    else if commitFails then unsuccessful (release scope token keys) (some .runtime)
    else ⟨⟨completed, h.written⟩, true, h.status, h.body, none⟩

end filter

/-- What is sent: `Idempotency-Replayed`, the status and the bytes of the body. -/
structure Response where
  replayed : Bool
  status : ℕ
  body : List UInt8
  deriving DecidableEq, Repr

/-- The response in the buffer as it is copied; the handler wrote its text in UTF-8. -/
def copied (status : ℕ) (body : String) : Response :=
  ⟨false, status, body.toList.flatMap String.utf8EncodeChar⟩

/-- A character as `getWriter` writes it where the response names no charset: in
ISO-8859-1, or as a question mark. -/
def latin1 (c : Char) : UInt8 := if c.toNat < 256 then c.toNat.toUInt8 else '?'.toNat.toUInt8

/-- `replay`; a column that is `null` is a `NullPointerException`. -/
def replay (responseStatus : Option ℕ) (responseBody : Option String) : Option Response := do
  let status ← responseStatus
  let body ← responseBody
  return ⟨true, status, body.toList.map latin1⟩

/-! ### What the operations do -/

section rows

variable {p : Properties} {now : Instant} {token : UUID} {scope : Scope} {requestHash body : String}
  {status : ℕ} {keys keys' : Keys} {k : IdempotencyKey} {result : ReservationResult}

/-- Where the key has a live row, nothing is run. -/
theorem resolveExisting_of_live (hk : k ∈ keys) (hlive : k.Live now) :
    resolveExisting p now token k.scope requestHash keys =
      .ok (if k.requestHash ≠ requestHash then .differentHash
        else if k.status = .completed then .completed k.responseStatus k.responseBody
          else .inProgress, keys) := by
  rw [resolveExisting, Table.find?_eq_some.2 ⟨hk, rfl⟩]
  rcases hlive with h | h
  · simp only [h, and_self, if_true]
    split_ifs <;> rfl
  · simp only [h, reduceCtorEq, false_and, if_false, and_self, if_true]
    split_ifs <;> rfl

theorem resolveExisting_of_not_live (hk : k ∈ keys) (hlive : ¬ k.Live now) :
    resolveExisting p now token k.scope requestHash keys =
      .ok (.expired token, keys.save (started p now token k.scope requestHash)) := by
  rw [IdempotencyKey.Live, not_or] at hlive
  rw [resolveExisting, Table.find?_eq_some.2 ⟨hk, rfl⟩]
  dsimp only
  rw [if_neg hlive.1, if_neg hlive.2]

theorem resolveExisting_cases (h : resolveExisting p now token scope requestHash keys = .ok (result, keys')) :
    ∃ k ∈ keys, k.scope = scope ∧
    ((k.Live now ∧ keys' = keys ∧ result = (if k.requestHash ≠ requestHash then .differentHash
        else if k.status = .completed then .completed k.responseStatus k.responseBody else .inProgress)) ∨
      (¬ k.Live now ∧ result = .expired token ∧
        keys' = keys.save (started p now token scope requestHash))) := by
  cases hf : keys.find? scope with
  | none =>
    rw [resolveExisting, hf] at h
    cases h
  | some k =>
    obtain ⟨hk, rfl⟩ := Table.find?_eq_some.1 hf
    refine ⟨k, hk, rfl, ?_⟩
    by_cases hlive : k.Live now
    · rw [resolveExisting_of_live hk hlive] at h
      cases h
      exact .inl ⟨hlive, rfl, rfl⟩
    · rw [resolveExisting_of_not_live hk hlive] at h
      cases h
      exact .inr ⟨hlive, rfl, rfl⟩

theorem complete_eq_ok (h : complete scope token status body keys = .ok keys') :
    ∃ k ∈ keys, k.scope = scope ∧ k.processingToken = token ∧ k.status = .inProgress ∧
      keys' = keys.save { k with
        status := .completed, responseStatus := some status, responseBody := some body } := by
  unfold complete at h
  split at h
  · cases h
  · rename_i k hf
    obtain ⟨hk, hscope⟩ := Table.find?_eq_some.1 hf
    split at h
    · cases h
    · rename_i hown
      rw [not_or, not_not, not_not] at hown
      cases h
      exact ⟨k, hk, hscope, hown.1, hown.2, rfl⟩

theorem complete_isOk : (∃ keys', complete scope token status body keys = .ok keys') ↔
    Owns keys scope token := by
  constructor
  · rintro ⟨keys', h⟩
    obtain ⟨k, hk, hscope, htoken, hstatus, -⟩ := complete_eq_ok h
    exact ⟨k, hk, hscope, htoken, hstatus⟩
  · rintro ⟨k, hk, rfl, rfl, hstatus⟩
    refine ⟨keys.save { k with
      status := .completed, responseStatus := some status, responseBody := some body }, ?_⟩
    rw [complete, Table.find?_eq_some.2 ⟨hk, rfl⟩]
    exact if_neg (by simp [hstatus])

theorem mem_release : k ∈ release scope token keys ↔
    k ∈ keys ∧ ¬ (k.scope = scope ∧ k.processingToken = token ∧ k.status = .inProgress) := by
  rw [release, Table.mem_delete, decide_eq_false_iff_not]

theorem mem_cleanupExpired {cutoff : Instant} : k ∈ cleanupExpired cutoff keys ↔
    k ∈ keys ∧ ¬ (k.status = .completed ∧ k.expiresAt < cutoff ∧ durable k.scope.endpoint = false) := by
  rw [cleanupExpired, Table.mem_delete, decide_eq_false_iff_not]

end rows

/-! ### Replays -/

/-- In UTF-8 an ASCII character is the byte that ISO-8859-1 has for it. -/
theorem utf8EncodeChar_of_ascii {c : Char} (hc : c.toNat < 128) : String.utf8EncodeChar c = [latin1 c] := by
  have hv : c.val.toNat ≤ 0x7f := Nat.le_of_lt_succ hc
  have hlt : c.toNat < 256 := by omega
  rw [String.utf8EncodeChar, latin1, if_pos hlt]
  simp only [hv, if_true]
  rfl

theorem latin1_toNat {c : Char} (hc : c.toNat < 256) : Char.ofNat (latin1 c).toNat = c := by
  have hmod : c.toNat.toUInt8.toNat = c.toNat := UInt8.toNat_ofNat_of_lt' hc
  rw [latin1, if_pos hc, hmod, Char.ofNat_toNat]

/-- A replay of an ASCII text sends the bytes that were sent first. -/
theorem utf8_of_ascii {cs : List Char} (h : ∀ c ∈ cs, c.toNat < 128) :
    cs.flatMap String.utf8EncodeChar = cs.map latin1 := by
  induction cs with
  | nil => rfl
  | cons c cs ih =>
    rw [List.forall_mem_cons] at h
    rw [List.flatMap_cons, utf8EncodeChar_of_ascii h.1, ih h.2]
    rfl

/-- The text of a replay, read in its charset. -/
theorem latin1_text {cs : List Char} (h : ∀ c ∈ cs, c.toNat < 256) :
    (cs.map latin1).map (fun b => Char.ofNat b.toNat) = cs := by
  rw [List.map_map]
  refine (List.map_congr_left fun c hc => ?_).trans (List.map_id _)
  exact latin1_toNat (h c hc)

/-! ### Responses and commits -/

section responses

variable {β : Type} {scope : Scope} {token : UUID} {h : Handling β} {commitFails : Bool} {db : Server β}

/-- A successful response is sent only for a committed request, whose writes and whose
answer are in the tables. -/
def Ending.Honest (e : Ending β) (scope : Scope) (token : UUID) (h : Handling β) : Prop :=
  successful e.status = true → e.committed = true ∧ e.server.tables = h.written ∧
    ∃ k ∈ e.server.keys, k.scope = scope ∧ k.processingToken = token ∧ k.status = .completed ∧
      k.responseStatus = some e.status ∧ k.responseBody = some e.body

theorem executeNew_status : (executeNew scope token h commitFails db).status = h.status := by
  unfold executeNew
  dsimp only
  split <;> try rfl
  split_ifs <;> rfl

theorem executeNew_body : (executeNew scope token h commitFails db).body = h.body := by
  unfold executeNew
  dsimp only
  split <;> try rfl
  split_ifs <;> rfl

theorem executeNew_of_ok {completed : Keys} (ht : h.thrown = none) (hs : successful h.status = true)
    (hk : complete scope token h.status h.body db.keys = .ok completed) (hr : h.rollbackOnly = false) :
    executeNew scope token h false db = ⟨⟨completed, h.written⟩, true, h.status, h.body, none⟩ := by
  simp [executeNew, handle, ht, hs, hk, hr]

theorem committed_iff (hs : successful h.status = true) :
    (executeNew scope token h commitFails db).committed = true ↔ h.thrown = none ∧
    Owns db.keys scope token ∧ h.rollbackOnly = false ∧ commitFails = false := by
  unfold executeNew handle
  cases ht : h.thrown with
  | some t => cases t <;> simp
  | none =>
    rw [← complete_isOk]
    cases hk : complete scope token h.status h.body db.keys with
    | error e => simp [hs]
    | ok completed => cases hr : h.rollbackOnly <;> cases commitFails <;> simp [hs]

/-- A successful response is honest exactly when the handler has returned, its request still owns the key,
nothing is marked for rollback and the commit does not fail. -/
theorem honest_iff (scope : Scope) (token : UUID) (h : Handling β) (commitFails : Bool) (db : Server β) :
    (executeNew scope token h commitFails db).Honest scope token h ↔ (successful h.status = true →
      h.thrown = none ∧ Owns db.keys scope token ∧ h.rollbackOnly = false ∧ commitFails = false) := by
  unfold Ending.Honest
  rw [executeNew_status, executeNew_body]
  refine forall_congr' fun hs => ?_
  constructor
  · intro hcommitted
    exact (committed_iff hs).1 hcommitted.1
  · intro hall
    have hcommitted := (committed_iff hs).2 hall
    obtain ⟨ht, howns, hr, rfl⟩ := hall
    obtain ⟨completed, hk⟩ := complete_isOk.2 howns
    obtain ⟨k, hmem, hscope, htoken, -, hkeys⟩ := complete_eq_ok hk
    rw [executeNew_of_ok ht hs hk hr]
    refine ⟨rfl, rfl, { k with
      status := .completed, responseStatus := some h.status, responseBody := some h.body }, ?_, hscope,
        htoken, rfl, rfl, rfl⟩
    rw [hkeys]
    exact Table.mem_save_self hmem rfl

/-- An order whose transaction was marked for rollback: nothing is committed, and 201 is sent. -/
theorem sent_though_rolled_back :
    let scope : Scope := ⟨2, "k", "POST /api/v1/orders"⟩
    let keys : Keys := ⟨[started ⟨24, 120⟩ 0 7 scope "h"], by simp⟩
    let handling : Handling ℕ := ⟨1, 201, "\x7b\x7d", none, true⟩
    let ending := executeNew scope 7 handling false ⟨keys, 0⟩
    ending.status = 201 ∧ ending.server.tables = 0 ∧ ending.server.keys.rows = [] ∧
    ¬ ending.Honest scope 7 handling := by
  refine ⟨rfl, rfl, rfl, fun h => ?_⟩
  have hcommitted := (h rfl).1
  exact absurd hcommitted (by decide)

end responses

end GManager.Idempotency
