import GManager.PartialRuns
import GManager.Periods
import GManager.Rows
import Mathlib.Data.Prod.Lex

/-!
# The notification stream

`NotificationService.connect` and `NotificationRealtimeHub`, for the stream of one user: a connection is
registered, replays what the table holds after the client's last event, up to a hundred, and carries what is
pushed meanwhile and later, in the order of the writes. A push comes some time after its notification was
committed, and the connection can end at any time. What else ends a connection (a timeout, an access that
ran out, a failed query) is its loss too.
-/

namespace GManager.Notifications

structure Notification where
  id : UUID
  recipientId : UUID
  createdAt : ℤ
  inAppVisible : Bool
  deriving DecidableEq, Repr

/-- Where a connection is in `connect`. -/
inductive Phase
  | registered (cursorId : Option UUID)
  | replaying (replay : List Notification)
  | established
  deriving DecidableEq, Repr

/-- A registered emitter, with the events that are written to it and not yet received. -/
structure Connection where
  phase : Phase
  written : List Notification
  deriving DecidableEq, Repr

structure State where
  created : List Notification
  /-- What the retention has deleted. -/
  removed : List UUID
  /-- The `afterCommit` actions that still have to run. -/
  pushes : List Notification
  connection : Option Connection
  received : List Notification
  deriving DecidableEq, Repr

/-- The order of the replay. -/
def Notification.position (n : Notification) : ℤ ×ₗ UUID := toLex (n.createdAt, n.id)

namespace State

variable (s : State)

def rows : List Notification := s.created.filter fun n => n.id ∉ s.removed

/-- The client keeps the id of the last event. -/
def lastEventId : Option UUID := s.received.getLast?.map Notification.id

/-- `findByIdAndRecipientId`. -/
def findByIdAndRecipientId (id recipient : UUID) : Option Notification :=
  s.rows.find? fun n => n.id = id ∧ n.recipientId = recipient

/-- The rows that `replayAfter` selects. -/
def after (recipient : UUID) (created : ℤ) (id : UUID) : List Notification :=
  s.rows.filter fun n => n.recipientId = recipient ∧ n.inAppVisible ∧
    (created < n.createdAt ∨ n.createdAt = created ∧ id < n.id)

/-- `replayAfter`, of the page of the first hundred. -/
def replayAfter (recipient : UUID) (created : ℤ) (id : UUID) : List Notification :=
  (sortBy Notification.position (s.after recipient created id)).take 100

/-- What `connect` replays. -/
def replay (user : UUID) (cursorId : Option UUID) : List Notification :=
  match cursorId.bind fun id => s.findByIdAndRecipientId id user with
  | none => []
  | some cursor => s.replayAfter user cursor.createdAt cursor.id

end State

inductive StreamEvent
  | create (n : Notification)
  | push (n : Notification)
  | retention (ids : List UUID)
  | connect
  | query
  | replay
  | receive
  | lose
  deriving DecidableEq, Repr

/-- An event that happens by itself while the connection lasts. -/
def StreamEvent.internal : StreamEvent → Bool
  | push _ | query | replay | receive => true
  | create _ | retention _ | connect | lose => false

def Connection.write (c : Connection) (n : Notification) : Connection :=
  { c with written := c.written ++ [n] }

/-- The stream of `user`. -/
def step (user : UUID) (s : State) : StreamEvent → Option State
  | .create n =>
    if ∀ m ∈ s.created, m.id ≠ n.id then
      some { s with
        created := s.created ++ [n], pushes := if n.inAppVisible then s.pushes ++ [n] else s.pushes }
    else none
  | .push n =>
    if n ∈ s.pushes then
      some { s with
        pushes := s.pushes.erase n
        connection := if n.recipientId = user then s.connection.map fun c => c.write n else s.connection }
    else none
  | .retention ids => some { s with removed := s.removed ++ ids }
  | .connect =>
    match s.connection with
    | some _ => none
    | none => some { s with connection := some ⟨.registered s.lastEventId, []⟩ }
  | .query =>
    match s.connection with
    | some ⟨.registered cursorId, written⟩ =>
      some { s with connection := some ⟨.replaying (s.replay user cursorId), written⟩ }
    | _ => none
  | .replay =>
    match s.connection with
    | some ⟨.replaying (n :: ns), written⟩ =>
      some { s with connection := some ⟨.replaying ns, if n.inAppVisible then written ++ [n] else written⟩ }
    | some ⟨.replaying [], written⟩ => some { s with connection := some ⟨.established, written⟩ }
    | _ => none
  | .receive =>
    match s.connection with
    | some ⟨phase, n :: ns⟩ => some { s with connection := some ⟨phase, ns⟩, received := s.received ++ [n] }
    | _ => none
  | .lose =>
    match s.connection with
    | some _ => some { s with connection := none }
    | none => none

def run (user : UUID) (s : State) (es : List StreamEvent) : Option State := es.foldlM (step user) s

/-- The last event is still stored, and `n` is among the first hundred after it. -/
def State.InReplay (s : State) (user : UUID) (n : Notification) (cursorId : Option UUID) : Prop :=
  ∃ cursor ∈ cursorId.bind fun id => s.findByIdAndRecipientId id user, cursor.position < n.position ∧
    (s.after user cursor.createdAt cursor.id).countP (fun m => m.position ≤ n.position) ≤ 100

instance (s : State) (user : UUID) (n : Notification) (cursorId : Option UUID) :
    Decidable (s.InReplay user n cursorId) :=
  inferInstanceAs (Decidable (∃ cursor ∈ cursorId.bind fun id => s.findByIdAndRecipientId id user, _ ∧ _))

/-- A connection that asks for its replay will deliver `n` or has delivered it, unless it is deleted. -/
def State.Reaches (s : State) (user : UUID) (n : Notification) : Option Connection → Prop
  | some ⟨.registered cursorId, written⟩ =>
    n ∈ s.received ∨ n ∈ s.pushes ∨ n ∈ written ∨ n.id ∈ s.removed ∨ s.InReplay user n cursorId
  | _ => True

instance (s : State) (user : UUID) (n : Notification) : (c : Option Connection) →
    Decidable (s.Reaches user n c)
  | some ⟨.registered cursorId, written⟩ => inferInstanceAs
    (Decidable (n ∈ s.received ∨ n ∈ s.pushes ∨ n ∈ written ∨ n.id ∈ s.removed ∨ s.InReplay user n cursorId))
  | some ⟨.replaying _, _⟩ | some ⟨.established, _⟩ | none => isTrue trivial

/-- The condition on the replay queries. -/
def Reaching (user : UUID) (n : Notification) (s : State) (e : StreamEvent) : Prop :=
  e = .query → s.Reaches user n s.connection

instance (user : UUID) (n : Notification) (s : State) (e : StreamEvent) : Decidable (Reaching user n s e) :=
  inferInstanceAs (Decidable (_ → _))

/-- What the phase still brings. -/
def Phase.Holds (n : Notification) : Phase → Prop
  | .registered _ => True
  | .replaying ns => n ∈ ns
  | .established => False

section

variable {user : UUID} {n : Notification} {s s' : State} {e : StreamEvent} {es : List StreamEvent}

/-- What is close enough after the cursor is replayed. -/
theorem State.InReplay.mem_replay {cursorId : Option UUID} (h : s.InReplay user n cursorId)
    (hn : n ∈ s.created) (hu : n.recipientId = user) (hv : n.inAppVisible) (hr : n.id ∉ s.removed) :
    n ∈ s.replay user cursorId := by
  obtain ⟨cursor, hc, hlt, hcount⟩ := h
  simp only [State.replay, Option.mem_def.1 hc]
  refine mem_take_sortBy (List.mem_filter.2 ⟨List.mem_filter.2 ⟨hn, by simpa using hr⟩, ?_⟩) hcount
  obtain hlt | ⟨heq, hlt⟩ := Prod.Lex.toLex_lt_toLex.1 hlt
  · simp [hu, hv, show cursor.createdAt < n.createdAt from hlt]
  · simp [hu, hv, show n.createdAt = cursor.createdAt from heq.symm, show cursor.id < n.id from hlt]

/-! ### What a step does -/

theorem step_create (h : step user s (.create n) = some s') : s' = { s with
    created := s.created ++ [n]
    pushes := if n.inAppVisible then s.pushes ++ [n] else s.pushes } ∧ n ∉ s.created := by
  simp only [step] at h
  split at h
  · exact ⟨(Option.some.inj h).symm, fun hn => ‹∀ m ∈ s.created, m.id ≠ n.id› n hn rfl⟩
  · cases h

theorem step_push (h : step user s (.push n) = some s') : s' = { s with
    pushes := s.pushes.erase n
    connection := if n.recipientId = user then s.connection.map fun c => c.write n else s.connection } ∧
      n ∈ s.pushes := by
  simp only [step] at h
  split at h
  · exact ⟨(Option.some.inj h).symm, ‹_›⟩
  · cases h

theorem step_connect (h : step user s .connect = some s') :
    s' = { s with connection := some ⟨.registered s.lastEventId, []⟩ } ∧ s.connection = none := by
  simp only [step] at h
  split at h
  · cases h
  · exact ⟨(Option.some.inj h).symm, ‹_›⟩

theorem step_query (h : step user s .query = some s') :
    ∃ cursorId written, s.connection = some ⟨.registered cursorId, written⟩ ∧
    s' = { s with connection := some ⟨.replaying (s.replay user cursorId), written⟩ } := by
  simp only [step] at h
  split at h
  · exact ⟨_, _, ‹_›, (Option.some.inj h).symm⟩
  · cases h

theorem step_replay (h : step user s .replay = some s') :
    (∃ m ns written, s.connection = some ⟨.replaying (m :: ns), written⟩ ∧
      s' = { s with connection := some ⟨.replaying ns, if m.inAppVisible then written ++ [m]
        else written⟩ }) ∨
    ∃ written, s.connection = some ⟨.replaying [], written⟩ ∧
    s' = { s with connection := some ⟨.established, written⟩ } := by
  simp only [step] at h
  split at h
  · exact .inl ⟨_, _, _, ‹_›, (Option.some.inj h).symm⟩
  · exact .inr ⟨_, ‹_›, (Option.some.inj h).symm⟩
  · cases h

theorem step_receive (h : step user s .receive = some s') :
    ∃ phase m ns, s.connection = some ⟨phase, m :: ns⟩ ∧
    s' = { s with connection := some ⟨phase, ns⟩, received := s.received ++ [m] } := by
  simp only [step] at h
  split at h
  · exact ⟨_, _, _, ‹_›, (Option.some.inj h).symm⟩
  · cases h

theorem step_lose (h : step user s .lose = some s') : s' = { s with connection := none } := by
  simp only [step] at h
  split at h
  · exact (Option.some.inj h).symm
  · cases h

/-- What exists, was received or deleted stays so. -/
theorem step_grows (h : step user s e = some s') :
    s.created ⊆ s'.created ∧ s.received ⊆ s'.received ∧ s.removed ⊆ s'.removed := by
  cases e with
  | create n => simp [(step_create h).1]
  | push n => simp [(step_push h).1]
  | retention ids =>
    cases h
    simp
  | connect => simp [(step_connect h).1]
  | query =>
    obtain ⟨cursorId, written, -, rfl⟩ := step_query h
    simp
  | replay => obtain ⟨m, ns, written, -, rfl⟩ | ⟨written, -, rfl⟩ := step_replay h <;> simp
  | receive =>
    obtain ⟨phase, m, ns, -, rfl⟩ := step_receive h
    simp
  | lose => simp [step_lose h]

/-! ### A notification on its way -/

/-- `n` will come over the connection, if there is one. -/
def State.Coming (s : State) (n : Notification) : Prop :=
  ∀ c ∈ s.connection, n ∈ s.pushes ∨ n ∈ c.written ∨ c.phase.Holds n

/-- A step keeps what is coming, or delivers it; a replay query that reaches it finds it. -/
theorem State.Coming.step (hu : n.recipientId = user) (hv : n.inAppVisible) (hn : n ∈ s.created)
    (hc : s.Coming n) (hC : Reaching user n s e) (hs : step user s e = some s') : n ∈ s'.received ∨
    n.id ∈ s'.removed ∨ s'.Coming n := by
  cases e with
  | create m =>
    rw [(step_create hs).1]
    refine .inr (.inr fun c hc' => (hc c hc').imp_left fun hp => ?_)
    split
    · exact List.mem_append_left _ hp
    · exact hp
  | push m =>
    obtain ⟨rfl, -⟩ := step_push hs
    refine .inr (.inr fun c hc' => ?_)
    by_cases hm : n = m
    · subst hm
      rw [if_pos hu] at hc'
      obtain ⟨c₀, -, rfl⟩ := Option.map_eq_some_iff.1 hc'
      exact .inr (.inl (by simp [Connection.write]))
    · split at hc'
      · obtain ⟨c₀, hc₀, rfl⟩ := Option.map_eq_some_iff.1 hc'
        exact (hc c₀ hc₀).imp (List.mem_erase_of_ne hm).2 (Or.imp_left (List.mem_append_left _))
      · exact (hc c hc').imp_left (List.mem_erase_of_ne hm).2
  | retention ids =>
    cases hs
    exact .inr (.inr hc)
  | connect =>
    obtain ⟨rfl, -⟩ := step_connect hs
    refine .inr (.inr fun c hc' => ?_)
    obtain rfl := Option.some.inj hc'
    exact .inr (.inr trivial)
  | query =>
    obtain ⟨cursorId, written, hconn, rfl⟩ := step_query hs
    have hreach := hC rfl
    rw [hconn] at hreach
    by_cases hr : n.id ∈ s.removed
    · exact .inr (.inl hr)
    · obtain h | h | h | h | h := hreach
      · exact .inl h
      · exact .inr (.inr fun c hc' => .inl h)
      · refine .inr (.inr fun c hc' => .inr (.inl ?_))
        obtain rfl := Option.some.inj hc'
        exact h
      · exact absurd h hr
      · refine .inr (.inr fun c hc' => .inr (.inr ?_))
        obtain rfl := Option.some.inj hc'
        exact h.mem_replay hn hu hv hr
  | replay =>
    refine .inr (.inr fun c hc' => ?_)
    obtain ⟨m, ns, written, hconn, rfl⟩ | ⟨written, hconn, rfl⟩ := step_replay hs <;> obtain rfl :=
      Option.some.inj hc'
    · obtain h | h | h := hc _ hconn
      · exact .inl h
      · refine .inr (.inl ?_)
        simp only
        split
        · exact List.mem_append_left _ h
        · exact h
      · rcases List.mem_cons.1 h with rfl | h
        · exact .inr (.inl (by simp [hv]))
        · exact .inr (.inr h)
    · obtain h | h | h := hc _ hconn
      · exact .inl h
      · exact .inr (.inl h)
      · exact absurd h List.not_mem_nil
  | receive =>
    obtain ⟨phase, m, ns, hconn, rfl⟩ := step_receive hs
    by_cases hm : n = m
    · exact .inl (by simp [hm])
    · refine .inr (.inr fun c hc' => ?_)
      obtain rfl := Option.some.inj hc'
      exact (hc _ hconn).imp_right (Or.imp_left fun h => (List.mem_cons.1 h).resolve_left hm)
  | lose =>
    rw [step_lose hs]
    exact .inr (.inr (by simp [State.Coming]))

/-- A visible notification of the user that was created, and is not lost while there is a connection. -/
def State.Kept (s : State) (n : Notification) : Prop :=
  n ∈ s.created ∧ (n ∈ s.received ∨ n.id ∈ s.removed ∨ s.Coming n)

theorem State.Kept.step (hu : n.recipientId = user) (hv : n.inAppVisible) (h : s.Kept n)
    (hC : Reaching user n s e) (hs : step user s e = some s') : s'.Kept n := by
  obtain ⟨hcreated, hreceived, hremoved⟩ := step_grows hs
  refine ⟨hcreated h.1, ?_⟩
  obtain hr | hr | hc := h.2
  · exact .inl (hreceived hr)
  · exact .inr (.inl (hremoved hr))
  · exact hc.step hu hv h.1 hC hs

theorem State.Kept.run (hu : n.recipientId = user) (hv : n.inAppVisible) (h : s.Kept n)
    (hC : RunMeets (Notifications.step user) (Reaching user n) s es)
    (hs : run user s es = some s') : s'.Kept n :=
  hC.keeps (I := fun s => s.Kept n) (fun _ _ _ hk hC hs => State.Kept.step hu hv hk hC hs) h hs

/-- A push is to come for each visible notification. -/
theorem kept_create (hv : n.inAppVisible) (h : step user s (.create n) = some s') : s'.Kept n := by
  rw [(step_create h).1]
  exact ⟨by simp, .inr (.inr fun c _ => .inl (by simp [hv]))⟩

/-- `n` was received, or the present connection brings it without a replay. -/
def State.Live (s : State) (n : Notification) : Prop :=
  n ∈ s.received ∨ ∃ c ∈ s.connection, n ∈ s.pushes ∨ n ∈ c.written

theorem State.Live.step (hu : n.recipientId = user) (h : s.Live n) (he : e ≠ .lose)
    (hs : step user s e = some s') :
    s'.Live n := by
  obtain hr | ⟨c, hconn, hc⟩ := h
  · exact .inl ((step_grows hs).2.1 hr)
  have hconn : s.connection = some c := hconn
  cases e with
  | create m =>
    rw [(step_create hs).1]
    refine .inr ⟨c, hconn, hc.imp_left fun hp => ?_⟩
    split
    · exact List.mem_append_left _ hp
    · exact hp
  | push m =>
    obtain ⟨rfl, -⟩ := step_push hs
    simp only [State.Live, hconn]
    by_cases hm : n = m
    · subst hm
      rw [if_pos hu]
      exact .inr ⟨c.write n, rfl, .inr (by simp [Connection.write])⟩
    · split
      · refine .inr ⟨c.write m, rfl, ?_⟩
        exact hc.imp (List.mem_erase_of_ne hm).2 (List.mem_append_left _)
      · exact .inr ⟨c, rfl, hc.imp_left (List.mem_erase_of_ne hm).2⟩
  | retention ids =>
    cases hs
    exact .inr ⟨c, hconn, hc⟩
  | connect =>
    obtain ⟨-, hnone⟩ := step_connect hs
    rw [hconn] at hnone
    cases hnone
  | query =>
    obtain ⟨cursorId, written, hc', rfl⟩ := step_query hs
    obtain rfl := Option.some.inj (hconn.symm.trans hc')
    exact .inr ⟨_, rfl, hc⟩
  | replay =>
    obtain ⟨m, ns, written, hc', rfl⟩ | ⟨written, hc', rfl⟩ := step_replay hs <;>
      obtain rfl := Option.some.inj (hconn.symm.trans hc')
    · refine .inr ⟨_, rfl, hc.imp_right fun hw => ?_⟩
      simp only
      split
      · exact List.mem_append_left _ hw
      · exact hw
    · exact .inr ⟨_, rfl, hc⟩
  | receive =>
    obtain ⟨phase, m, ns, hc', rfl⟩ := step_receive hs
    obtain rfl := Option.some.inj (hconn.symm.trans hc')
    by_cases hm : n = m
    · exact .inl (by simp [hm])
    · exact .inr ⟨_, rfl, hc.imp_right fun hw => (List.mem_cons.1 hw).resolve_left hm⟩
  | lose => exact absurd rfl he

theorem State.Live.reaching (h : s.Live n) : Reaching user n s e := by
  rintro rfl
  unfold State.Reaches
  split
  · rename_i cursorId written hconn
    obtain hr | ⟨c, hc, hp | hw⟩ := h
    · exact .inl hr
    · exact .inr (.inl hp)
    · obtain rfl := Option.some.inj (hconn.symm.trans hc)
      exact .inr (.inr (.inl hw))
  · trivial

/-- What is committed while a connection is registered needs no replay, as long as the connection lasts. -/
theorem reaching_of_create {s₀ : State} (hu : n.recipientId = user) (hv : n.inAppVisible)
    (h : step user s₀ (.create n) = some s) (hconn : s₀.connection ≠ none) (hlose : StreamEvent.lose ∉ es) :
    RunMeets (step user) (Reaching user n) s es := by
  have hmeets : RunMeets (step user) (fun _ e => e ≠ .lose) s es :=
    .of_forall fun e he _ hlost => hlose (hlost ▸ he)
  obtain ⟨c, hc⟩ := Option.ne_none_iff_exists'.1 hconn
  refine hmeets.of_invariant (fun _ _ _ hl he hs => State.Live.step hu hl he hs)
    (fun _ _ hl _ => hl.reaching) ?_
  rw [(step_create h).1]
  exact .inr ⟨c, hc, .inl (by simp [hv])⟩

/-! ### The work of a connection -/

/-- Twice the writes to come, the reads, and the end of the replay. -/
def Phase.work : Phase → ℕ
  | .registered _ => 202
  | .replaying ns => 2 * ns.length + 1
  | .established => 0

def State.work (s : State) : ℕ :=
  2 * s.pushes.length + s.connection.elim 0 fun c => c.written.length + c.phase.work

theorem length_replay (s : State) (user : UUID) (cursorId : Option UUID) :
    (s.replay user cursorId).length ≤ 100 := by
  rw [State.replay]
  split
  · simp
  · exact List.length_take_le _ _

/-- What happens by itself comes to an end. -/
theorem work_step (hconn : s.connection ≠ none) (he : e.internal) (hs : step user s e = some s') :
    s'.connection ≠ none ∧ s'.work < s.work := by
  cases e with
  | push m =>
    obtain ⟨rfl, hm⟩ := step_push hs
    obtain ⟨c, hc⟩ := Option.ne_none_iff_exists'.1 hconn
    have hlen := List.length_erase_of_mem hm
    have hpos := List.length_pos_of_mem hm
    split
    · simp [State.work, hc, Connection.write, hlen]
      omega
    · simp [State.work, hc, hlen]
      omega
  | query =>
    obtain ⟨cursorId, written, hc, rfl⟩ := step_query hs
    have hlen := length_replay s user cursorId
    simp [State.work, hc, Phase.work]
    omega
  | replay =>
    obtain ⟨m, ns, written, hc, rfl⟩ | ⟨written, hc, rfl⟩ := step_replay hs
    · simp only [State.work, hc, Phase.work]
      split
      · simp
        omega
      · simp
    · simp [State.work, hc, Phase.work]
  | receive =>
    obtain ⟨phase, m, ns, hc, rfl⟩ := step_receive hs
    simp [State.work, hc]
  | create | retention | connect | lose => cases he

theorem work_run (hconn : s.connection ≠ none) (he : ∀ e ∈ es, e.internal) (hs : run user s es = some s') :
    s'.connection ≠ none ∧ es.length + s'.work ≤ s.work := by
  induction es generalizing s with
  | nil =>
    cases hs
    exact ⟨hconn, by simp⟩
  | cons e es ih =>
    obtain ⟨s₁, hs₁, hs⟩ := Option.bind_eq_some_iff.1 hs
    obtain ⟨hconn₁, hlt⟩ := work_step hconn (he e List.mem_cons_self) hs₁
    obtain ⟨hconn', hle⟩ := ih hconn₁ (fun e' he' => he e' (List.mem_cons_of_mem _ he')) hs
    refine ⟨hconn', ?_⟩
    rw [List.length_cons]
    omega

/-- When nothing happens by itself any more, everything came. -/
theorem State.Coming.false_of_idle (h : s.Coming n) (hconn : s.connection ≠ none)
    (hidle : ∀ e, e.internal → Notifications.step user s e = none) : False := by
  obtain ⟨⟨phase, written⟩, hc⟩ := Option.ne_none_iff_exists'.1 hconn
  obtain hp | hw | hh := h _ hc
  · have hpush := hidle (.push n) rfl
    simp [Notifications.step, hp] at hpush
  · have hreceive := hidle .receive rfl
    cases written with
    | nil => cases hw
    | cons m ns => simp [Notifications.step, hc] at hreceive
  · cases phase with
    | registered cursorId =>
      have hquery := hidle .query rfl
      simp [Notifications.step, hc] at hquery
    | replaying ns =>
      have hreplay := hidle .replay rfl
      cases ns <;> simp [Notifications.step, hc] at hreplay
    | established => exact hh

/-- `NotificationService.connect`, in any state that a run may reach: a visible notification that is
committed while a connection is registered that then lasts, or that the replay queries reach, is received,
or deleted, after a bounded number of steps. -/
theorem notification_stream {es' : List StreamEvent} {s'' : State} (hu : n.recipientId = user)
    (hv : n.inAppVisible) (hstart : n ∈ s.created ∧ s.connection = none ∨
      ∃ s₀, step user s₀ (.create n) = some s)
    (hC : (∃ s₀, step user s₀ (.create n) = some s ∧ s₀.connection ≠ none) ∧ .lose ∉ es ∨
      RunMeets (step user) (Reaching user n) s (es ++ es')) (hrun : run user s es = some s')
        (hconn : s'.connection ≠ none)
    (hin : ∀ e ∈ es', e.internal) (hrun' : run user s' es' = some s'') :
    es'.length ≤ s'.work ∧ ((∀ e, e.internal → step user s'' e = none) → n ∈ s''.received ∨
      n.id ∈ s''.removed) := by
  obtain ⟨hconn', hwork⟩ := work_run hconn hin hrun'
  refine ⟨by omega, fun hidle => ?_⟩
  have hkept : s.Kept n := by
    obtain ⟨hn, hnone⟩ | ⟨s₀, h⟩ := hstart
    · exact ⟨hn, .inr (.inr (by simp [State.Coming, hnone]))⟩
    · exact kept_create hv h
  have hmeets : RunMeets (step user) (Reaching user n) s (es ++ es') := by
    obtain ⟨⟨s₀, hcreate, hs₀⟩, hlose⟩ | hC := hC
    · refine reaching_of_create hu hv hcreate hs₀ ?_
      rw [List.mem_append, not_or]
      exact ⟨hlose, fun hmem => Bool.false_ne_true (hin _ hmem)⟩
    · exact hC
  obtain ⟨hC, hC'⟩ := hmeets.append
  have hkept' := (hkept.run hu hv hC hrun).run hu hv (hC' s' hrun) hrun'
  obtain hr | hr | hc := hkept'.2
  · exact .inl hr
  · exact .inr hr
  · exact (hc.false_of_idle hconn' hidle).elim

end

namespace Arcade

def created (k : ℕ) : Notification := ⟨k, 7, k, true⟩

/-- The second notification was missed; the client reconnects and catches up. -/
def missed : State := ⟨[created 0, created 1], [], [], none, [created 0]⟩

def reconnected : State := { missed with connection := some ⟨.registered (some 0), []⟩ }

def caughtUp : State :=
  { missed with connection := some ⟨.established, []⟩, received := [created 0, created 1] }

theorem notification_stream_missed : 4 ≤ reconnected.work ∧
    ((∀ e, e.internal → step 7 caughtUp e = none) → created 1 ∈ caughtUp.received ∨ 1 ∈ caughtUp.removed) :=
  have hin : ∀ e ∈ [StreamEvent.query, .replay, .replay, .receive], e.internal := by decide
  have hrun : run 7 reconnected [.query, .replay, .replay, .receive] = some caughtUp := by decide +kernel
  notification_stream (n := created 1) rfl rfl (.inl (by decide) : created 1 ∈ missed.created ∧
    missed.connection = none ∨
    _) (.inr (by decide +kernel)) (rfl : run 7 missed [.connect] = some reconnected) (by decide) hin hrun

end Arcade

/-! ### Lost notifications -/

section

variable {user : UUID} {n : Notification} {s s' : State} {e : StreamEvent} {es : List StreamEvent}

/-- Nothing on the connection brings `n` any more. -/
def State.Lost (s : State) (n : Notification) : Prop :=
  n ∈ s.created ∧ n ∉ s.received ∧ n ∉ s.pushes ∧ ∃ c ∈ s.connection, c.phase = .established ∧ n ∉ c.written

instance (s : State) (n : Notification) : Decidable (s.Lost n) := inferInstanceAs (Decidable (_ ∧ _ ∧ _ ∧ _))

theorem State.Lost.step (h : s.Lost n) (he : e ≠ .lose) (hs : step user s e = some s') : s'.Lost n := by
  obtain ⟨hn, hr, hp, ⟨phase, written⟩, hconn, rfl, hw⟩ := h
  have hconn : s.connection = some ⟨.established, written⟩ := hconn
  cases e with
  | create m =>
    obtain ⟨rfl, hm⟩ := step_create hs
    refine ⟨List.mem_append_left _ hn, hr, ?_, _, hconn, rfl, hw⟩
    have hne : n ≠ m := fun heq => hm (heq ▸ hn)
    split
    · simpa [hne] using hp
    · exact hp
  | push m =>
    obtain ⟨rfl, hm⟩ := step_push hs
    have hne : n ≠ m := fun heq => hp (heq ▸ hm)
    refine ⟨hn, hr, fun h => hp (List.mem_of_mem_erase h), ?_⟩
    simp only [hconn]
    split
    · exact ⟨_, rfl, rfl, by simpa [Connection.write, hne] using hw⟩
    · exact ⟨_, rfl, rfl, hw⟩
  | retention ids =>
    cases hs
    exact ⟨hn, hr, hp, _, hconn, rfl, hw⟩
  | connect =>
    obtain ⟨-, hnone⟩ := step_connect hs
    rw [hconn] at hnone
    cases hnone
  | query =>
    obtain ⟨cursorId, w, hc, -⟩ := step_query hs
    rw [hconn] at hc
    cases hc
  | replay =>
    obtain ⟨m, ns, w, hc, -⟩ | ⟨w, hc, -⟩ := step_replay hs <;> rw [hconn] at hc <;> cases hc
  | receive =>
    obtain ⟨phase, m, ns, hc, rfl⟩ := step_receive hs
    rw [hconn] at hc
    cases hc
    rw [List.mem_cons, not_or] at hw
    exact ⟨hn, by simpa [hw.1] using hr, hp, _, rfl, rfl, hw.2⟩
  | lose => exact absurd rfl he

theorem State.Lost.run (h : s.Lost n) (he : StreamEvent.lose ∉ es) (hs : run user s es = some s') :
    n ∉ s'.received := by
  induction es generalizing s with
  | nil =>
    cases hs
    exact h.2.1
  | cons e es ih =>
    obtain ⟨s₁, hs₁, hs⟩ := Option.bind_eq_some_iff.1 hs
    rw [List.mem_cons, not_or] at he
    exact ih (h.step (Ne.symm he.1) hs₁) he.2 hs

end

namespace Arcade

/-- The user has received the first notification, and the connection was lost. -/
def first : List StreamEvent :=
  [.connect, .query, .replay, .create (created 0), .push (created 0), .receive, .lose]

/-- A notification that is committed and pushed. -/
def sent (k : ℕ) : List StreamEvent := [.create (created k), .push (created k)]

/-- 101 notifications are missed. -/
def bounded : List StreamEvent :=
  first ++ (List.range 101).flatMap (fun k => sent (k + 1)) ++ [.connect, .query] ++ List.replicate 101
    .replay ++ List.replicate 100 .receive

/-- A live event comes before the replay, and the connection is lost in between. -/
def overtaken : List StreamEvent :=
  first ++ sent 1 ++ [.connect] ++ sent 2 ++ [.query, .replay, .replay, .replay, .receive, .lose,
    .connect, .query, .replay]

/-- The client's last event was deleted. -/
def expired : List StreamEvent := first ++ sent 1 ++ [.retention [0], .connect, .query, .replay]

def empty : State := ⟨[], [], [], none, []⟩

/-- After the run there is nothing to do on the connection, and `n` does not come as long as it lasts. -/
def Misses (es : List StreamEvent) (n : Notification) : Prop :=
  ∃ s, run 7 empty es = some s ∧ s.connection = some ⟨.established, []⟩ ∧ n ∈ s.created ∧ n.id ∉ s.removed ∧
    ∀ es' s', StreamEvent.lose ∉ es' → run 7 s es' = some s' → n ∉ s'.received

theorem misses_of_lost {es : List StreamEvent} {n : Notification}
    (h : ∃ s ∈ run 7 empty es, s.Lost n ∧ s.connection = some ⟨.established, []⟩ ∧ n.id ∉ s.removed) :
    Misses es n := by
  obtain ⟨s, hs, hl, hconn, hr⟩ := h
  exact ⟨s, hs, hconn, hl.1, hr, fun es' s' he h => hl.run he h⟩

theorem stream_losses : Misses bounded (created 101) ∧ Misses overtaken (created 1) ∧
    Misses expired (created 1) :=
  ⟨misses_of_lost (by decide +kernel), misses_of_lost (by decide +kernel), misses_of_lost (by decide +kernel)⟩

end Arcade

end GManager.Notifications
