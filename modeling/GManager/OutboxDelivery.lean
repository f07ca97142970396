import GManager.Outbox

/-!
# Deliveries happen once

The receipts say which consumers have had an event: their effects and their receipts are written by the same
transactions (`Receipted`), so an effect is committed at most once, and an event is processed only when
every registered consumer has had it. A publisher claims only when its batch is through; hence, if a row is
claimed by the publisher of a message, the message is from the last claim of the event (`Fenced`), and a
publisher whose claim was superseded finds the row locked to another.
-/

namespace GManager

open Txn

/-- The effects of the consumer for the event since the event was written. -/
def effectsOf (consumer : String) (id : UUID) : List OutboxNote → ℕ
  | [] => 0
  | .effect c k :: log => effectsOf consumer id log + if c = consumer ∧ k = id then 1 else 0
  | .written k :: log => if k = id then 0 else effectsOf consumer id log
  | .claimed _ :: log | .replayed _ :: log => effectsOf consumer id log

/-! ### The tables -/

/-- Receipts are of events, and count the effects. -/
structure Receipted (db : OutboxDb) : Prop where
  known : ∀ r ∈ db.receipts, ∃ e ∈ db.events, e.id = r.eventId
  count : ∀ e ∈ db.events, ∀ c, effectsOf c e.id db.log = if db.hasReceipt c e.id then 1 else 0
  once : ∀ c id, effectsOf c id db.log ≤ 1

/-- Every registered consumer has had the processed events. -/
def Complete (consumers : List String) (db : OutboxDb) : Prop :=
  ∀ e ∈ db.events, e.status = .processed → ∀ c ∈ consumers, db.hasReceipt c e.id

section tables

variable {db db' : OutboxDb} {e : OutboxEvent} {id : UUID} {consumer : String}

theorem OutboxDb.hasReceipt_iff : db.hasReceipt consumer id ↔ ∃ r ∈ db.receipts, r.consumerName = consumer ∧
    r.eventId = id := by
  unfold hasReceipt
  rw [Option.isSome_iff_exists]
  constructor
  · rintro ⟨r, hr⟩
    obtain ⟨hr, hk⟩ := Table.find?_eq_some.1 hr
    exact ⟨r, hr, (Prod.mk.inj hk).1, (Prod.mk.inj hk).2⟩
  · rintro ⟨r, hr, rfl, rfl⟩
    exact ⟨r, Table.find?_eq_some.2 ⟨hr, rfl⟩⟩

theorem updateEvent_run (id : UUID) (p : OutboxEvent → Prop) [DecidablePred p]
    (f : OutboxEvent → OutboxEvent) (db : OutboxDb) : (∃ e ∈ db.events, e.id = id ∧ p e ∧
      (updateEvent id p f).run () db = .ok (true, { db with events := db.events.save (f e) })) ∨
    ((∀ e ∈ db.events, e.id = id → ¬ p e) ∧ (updateEvent id p f).run () db = .ok (false, db)) := by
  unfold updateEvent
  rw [run_bind_get]
  cases hf : (db.events.find? id).filter fun e => p e with
  | some e =>
    obtain ⟨he, hp⟩ := Option.filter_eq_some_iff.1 hf
    obtain ⟨hmem, hid⟩ := Table.find?_eq_some.1 he
    exact .inl ⟨e, hmem, hid, by simpa using hp, rfl⟩
  | none =>
    refine .inr ⟨fun e he hid hp => ?_, rfl⟩
    rw [Table.find?_eq_some.2 ⟨he, hid⟩] at hf
    simp [hp] at hf

/-- The rows of other events stay, and the row `e` becomes `e'`. -/
structure Rewrites (db : OutboxDb) (e e' : OutboxEvent) (db' : OutboxDb) : Prop where
  mem : e ∈ db.events
  id : e'.id = e.id
  events : db'.events = db.events.save e'
  receipts : db'.receipts = db.receipts

theorem Rewrites.mem_iff {e e' x : OutboxEvent} (h : Rewrites db e e' db') : x ∈ db'.events ↔ x = e' ∨
    x.id ≠ e.id ∧ x ∈ db.events := by
  rw [h.events, Table.mem_save, h.id]
  constructor
  · rintro (⟨hx, hid⟩ | ⟨rfl, -⟩)
    · exact .inr ⟨hid, hx⟩
    · exact .inl rfl
  · rintro (rfl | ⟨hid, hx⟩)
    · exact .inr ⟨rfl, e, h.mem, rfl⟩
    · exact .inl ⟨hx, hid⟩

theorem Rewrites.ids {e e' : OutboxEvent} (h : Rewrites db e e' db') (k : UUID) :
    (∃ x ∈ db'.events, x.id = k) ↔ ∃ x ∈ db.events, x.id = k := by
  constructor
  · rintro ⟨x, hx, rfl⟩
    rcases h.mem_iff.1 hx with rfl | ⟨-, hx⟩
    · exact ⟨e, h.mem, h.id.symm⟩
    · exact ⟨x, hx, rfl⟩
  · rintro ⟨x, hx, rfl⟩
    by_cases hk : x.id = e.id
    · exact ⟨e', h.mem_iff.2 (.inl rfl), h.id.trans hk.symm⟩
    · exact ⟨x, h.mem_iff.2 (.inr ⟨hk, hx⟩), rfl⟩

/-- The receipts stay, and so do the events but for their columns. -/
theorem Receipted.congr (h : Receipted db)
    (hids : ∀ k, (∃ x ∈ db'.events, x.id = k) ↔ ∃ x ∈ db.events, x.id = k) (hr : db'.receipts = db.receipts)
    (hl : ∀ c k, effectsOf c k db'.log = effectsOf c k db.log) : Receipted db' := by
  have hhas : ∀ c k, db'.hasReceipt c k = db.hasReceipt c k := by
    intro c k
    rw [OutboxDb.hasReceipt, hr, OutboxDb.hasReceipt]
  refine ⟨fun r hrm => ?_, fun x hx c => ?_, fun c k => by rw [hl]; exact h.once c k⟩
  · rw [hr] at hrm
    exact (hids _).2 (h.known r hrm)
  · obtain ⟨y, hy, hid⟩ := (hids x.id).1 ⟨x, hx, rfl⟩
    rw [hl, hhas, ← hid]
    exact h.count y hy c

theorem Complete.rewrite {consumers : List String} {e e' : OutboxEvent} (h : Complete consumers db)
    (hw : Rewrites db e e' db') (hdone : e'.status = .processed → ∀ c ∈ consumers, db.hasReceipt c e.id) :
    Complete consumers db' := by
  intro x hx hs c hc
  rw [OutboxDb.hasReceipt, hw.receipts]
  rcases hw.mem_iff.1 hx with rfl | ⟨-, hx⟩
  · rw [hw.id]
    exact hdone hs c hc
  · exact h x hx hs c hc

/-! ### Claims -/

/-- The claim `c` has taken the rows `es`. -/
structure ClaimedAll (c : OutboxClaim) (es : List OutboxEvent) (db db' : OutboxDb) : Prop where
  mem : ∀ x, x ∈ db'.events ↔ (x ∈ db.events ∧ x.id ∉ es.map (·.id)) ∨ ∃ e ∈ es, x = c.take e
  receipts : db'.receipts = db.receipts
  log : db'.log = (es.map fun e => .claimed e.id).reverse ++ db.log

theorem claimEvents_run (c : OutboxClaim) (es : List OutboxEvent) : ∀ db : OutboxDb, (es.map (·.id)).Nodup →
    (∀ e ∈ es, e ∈ db.events) → ∃ db', (claimEvents c (es.map OutboxEvent.message)).run () db = .ok
      ((), db') ∧ ClaimedAll c es db db' := by
  induction es with
  | nil => exact fun db _ _ => ⟨db, rfl, fun x => by simp, rfl, rfl⟩
  | cons e es ih =>
    intro db hnodup hmem
    obtain ⟨hnot, hrestnodup⟩ := List.nodup_cons.1 hnodup
    have he : e ∈ db.events := hmem e List.mem_cons_self
    rcases updateEvent_run e.id (fun _ => True) c.take db with ⟨x, hx, hid, -, hrun⟩ | ⟨hno, -⟩
    · obtain rfl := Table.eq_of_key hx he hid
      have hw : Rewrites db x (c.take x) ⟨db.events.save (c.take x), db.receipts,
          .claimed x.id :: db.log⟩ := ⟨hx, rfl, rfl, rfl⟩
      have hrest : ∀ y ∈ es, y ∈ (⟨db.events.save (c.take x), db.receipts, .claimed x.id :: db.log⟩ :
          OutboxDb).events :=
        fun y hy =>
          hw.mem_iff.2 (.inr ⟨fun h => hnot (List.mem_map.2 ⟨y, hy, h⟩), hmem y (List.mem_cons_of_mem _ hy)⟩)
      obtain ⟨db', hrun', h⟩ := ih _ hrestnodup hrest
      refine ⟨db', (run_bind_of_ok hrun).trans ((run_bind_of_ok rfl).trans hrun'),
        fun y => ?_, h.receipts, ?_⟩
      · rw [h.mem, hw.mem_iff]
        simp only [List.map_cons, List.mem_cons, not_or, exists_eq_or_imp]
        constructor
        · rintro (⟨rfl | ⟨hid, hy⟩, hn⟩ | hy)
          · exact .inr (.inl rfl)
          · exact .inl ⟨hy, hid, hn⟩
          · exact .inr (.inr hy)
        · rintro (⟨hy, hid, hn⟩ | rfl | hy)
          · exact .inl ⟨.inr ⟨hid, hy⟩, hn⟩
          · exact .inl ⟨.inl rfl, hnot⟩
          · exact .inr hy
      · rw [h.log, List.map_cons, List.reverse_cons, List.append_assoc]
        rfl
    · exact absurd trivial (hno e he rfl)

theorem OutboxDb.taken_spec (db : OutboxDb) (c : OutboxClaim) :
    ((db.taken c).map (·.id)).Nodup ∧ ∀ e ∈ db.taken c, e ∈ db.events ∧ e.due c := by
  have hperm := List.perm_insertionSort (fun a b : OutboxEvent => a.createdAt ≤ b.createdAt)
    (db.events.rows.filter fun e => e.due c ∧ c.locked e.id = false)
  constructor
  · refine List.Nodup.sublist ((List.take_sublist _ _).map _) ?_
    exact (hperm.map _).nodup_iff.2 (db.events.nodup.sublist (List.filter_sublist.map _))
  · intro e he
    obtain ⟨hmem, hd⟩ := List.mem_filter.1 (hperm.mem_iff.1 (List.mem_of_mem_take he))
    exact ⟨hmem, (of_decide_eq_true hd).1⟩

/-- A claim takes the first due rows. -/
theorem claimOutbox_run (c : OutboxClaim) (db : OutboxDb) :
    ∃ db', (claimOutbox c).run () db = .ok ((db.taken c).map OutboxEvent.message, db') ∧
    ClaimedAll c (db.taken c) db db' := by
  obtain ⟨hnodup, hmem⟩ := db.taken_spec c
  obtain ⟨db', hrun, h⟩ := claimEvents_run c (db.taken c) db hnodup fun e he => (hmem e he).1
  refine ⟨db', ?_, h⟩
  exact run_bind_get.trans ((run_bind_of_ok hrun).trans rfl)

theorem effectsOf_claims {consumer : String} {id : UUID} (es : List OutboxEvent) (log : List OutboxNote) :
    effectsOf consumer id ((es.map fun e => .claimed e.id).reverse ++ log) = effectsOf consumer id log := by
  induction es generalizing log with
  | nil => rfl
  | cons e es ih =>
    rw [List.map_cons, List.reverse_cons, List.append_assoc]
    exact ih _

theorem claimsOf_claims {id : UUID} {es : List OutboxEvent} (h : id ∉ es.map (·.id)) (log : List OutboxNote) :
    claimsOf id ((es.map fun e => .claimed e.id).reverse ++ log) = claimsOf id log := by
  induction es generalizing log with
  | nil => rfl
  | cons e es ih =>
    obtain ⟨hne, hno⟩ := not_or.1 (fun hm => h (List.mem_cons.2 hm))
    rw [List.map_cons, List.reverse_cons, List.append_assoc]
    refine (ih hno _).trans ?_
    show claimsOf id log + _ = _
    rw [if_neg (Ne.symm hne)]
    rfl

theorem ClaimedAll.ids {c : OutboxClaim} {es : List OutboxEvent} (h : ClaimedAll c es db db')
    (hmem : ∀ e ∈ es, e ∈ db.events) (k : UUID) : (∃ x ∈ db'.events, x.id = k) ↔
    ∃ x ∈ db.events, x.id = k := by
  constructor
  · rintro ⟨x, hx, rfl⟩
    rcases (h.mem x).1 hx with ⟨hx, -⟩ | ⟨e, he, rfl⟩
    · exact ⟨x, hx, rfl⟩
    · exact ⟨e, hmem e he, rfl⟩
  · rintro ⟨x, hx, rfl⟩
    by_cases hk : x.id ∈ es.map (·.id)
    · obtain ⟨e, he, hid⟩ := List.mem_map.1 hk
      exact ⟨c.take e, (h.mem _).2 (.inr ⟨e, he, rfl⟩), hid⟩
    · exact ⟨x, (h.mem x).2 (.inl ⟨hx, hk⟩), rfl⟩

/-! ### Deliveries -/

/-- Some consumers have written effects for the event `id`, and nothing else has
changed but their receipts. -/
structure Consumed (id : UUID) (db db' : OutboxDb) : Prop where
  events : db'.events = db.events
  receipted : Receipted db'
  kept : ∀ c k, db.hasReceipt c k → db'.hasReceipt c k
  log : ∃ cs : List String, db'.log = cs.map (fun c => .effect c id) ++ db.log

theorem Consumed.refl (h : Receipted db) : Consumed id db db := ⟨rfl, h, fun _ _ hr => hr, [], rfl⟩

theorem Consumed.trans {db₁ : OutboxDb} (h : Consumed id db db₁) (h' : Consumed id db₁ db') :
    Consumed id db db' := by
  obtain ⟨cs, hcs⟩ := h.log
  obtain ⟨cs', hcs'⟩ := h'.log
  refine ⟨h'.events.trans h.events, h'.receipted, fun c k hr => h'.kept c k (h.kept c k hr), cs' ++ cs, ?_⟩
  rw [hcs', hcs, List.map_append, List.append_assoc]

/-- One consumer writes its effect together with its receipt. -/
theorem Receipted.consume (h : Receipted db) (hid : ∃ e ∈ db.events, e.id = id)
    (hno : db.hasReceipt consumer id = false) {now : Instant}
    {t : Table fun r : OutboxReceipt => (r.consumerName, r.eventId)}
    (ht : db.receipts.insert ⟨consumer, id, now⟩ = some t) :
    Consumed id db ⟨db.events, t, .effect consumer id :: db.log⟩ ∧
      (⟨db.events, t, .effect consumer id :: db.log⟩ : OutboxDb).hasReceipt consumer id := by
  have hhas : ∀ c k, (⟨db.events, t, .effect consumer id :: db.log⟩ : OutboxDb).hasReceipt c k ↔
      db.hasReceipt c k ∨ consumer = c ∧ id = k := by
    intro c k
    rw [OutboxDb.hasReceipt_iff, OutboxDb.hasReceipt_iff]
    constructor
    · rintro ⟨r, hr, hc, hk⟩
      rcases (Table.mem_insert ht).1 hr with hr | rfl
      · exact .inl ⟨r, hr, hc, hk⟩
      · exact .inr ⟨hc, hk⟩
    · rintro (⟨r, hr, hc, hk⟩ | ⟨rfl, rfl⟩)
      · exact ⟨r, (Table.mem_insert ht).2 (.inl hr), hc, hk⟩
      · exact ⟨_, (Table.mem_insert ht).2 (.inr rfl), rfl, rfl⟩
  have hcount : ∀ c k, effectsOf c k (.effect consumer id :: db.log) =
      effectsOf c k db.log + if consumer = c ∧ id = k then 1 else 0 := fun _ _ => rfl
  refine ⟨⟨rfl, ⟨fun r hr => ?_, fun e he c => ?_, fun c k => ?_⟩, fun c k hr => (hhas c k).2 (.inl hr),
    [consumer], rfl⟩, (hhas consumer id).2 (.inr ⟨rfl, rfl⟩)⟩
  · rcases (Table.mem_insert ht).1 hr with hr | rfl
    · exact h.known r hr
    · exact hid
  · have hold := h.count e he c
    show effectsOf c e.id (.effect consumer id :: db.log) = _
    rw [hcount, hold]
    by_cases hc : consumer = c ∧ id = e.id
    · obtain ⟨rfl, rfl⟩ := hc
      have hyes := (hhas consumer e.id).2 (.inr ⟨rfl, rfl⟩)
      simp [hno, hyes]
    · rw [if_neg hc, Nat.add_zero]
      by_cases hr : db.hasReceipt c e.id
      · rw [if_pos hr, if_pos ((hhas _ _).2 (.inl hr))]
      · rw [if_neg hr, if_neg fun hr' => ((hhas _ _).1 hr').elim hr hc]
  · show effectsOf c k (.effect consumer id :: db.log) ≤ 1
    rw [hcount]
    by_cases hc : consumer = c ∧ id = k
    · obtain ⟨rfl, rfl⟩ := hc
      obtain ⟨e, he, rfl⟩ := hid
      simp [h.count e he, hno]
    · rw [if_neg hc]
      exact h.once c k

theorem wp_consume {raises : String → Bool} {now : Instant} (cs : List String) :
    ∀ db : OutboxDb, Receipted db → (∃ e ∈ db.events, e.id = id) →
    wp (consume raises id now cs)
      (fun _ db' => Consumed id db db' ∧ ∀ c ∈ cs, db'.hasReceipt c id) () db := by
  induction cs with
  | nil => exact fun db h _ => wp_pure.2 ⟨.refl h, fun c hc => absurd hc List.not_mem_nil⟩
  | cons c cs ih =>
    intro db h hid
    have hrest : ∀ db₁, Consumed id db db₁ → db₁.hasReceipt c id →
        wp (consume raises id now cs)
          (fun _ db' => Consumed id db db' ∧ ∀ x ∈ c :: cs, db'.hasReceipt x id) () db₁ := by
      intro db₁ h₁ hc
      refine wp_mono (ih db₁ h₁.receipted (by rw [h₁.events]; exact hid)) ?_
      rintro - db' ⟨h', hall⟩
      refine ⟨h₁.trans h', fun x hx => ?_⟩
      rcases List.mem_cons.1 hx with rfl | hx
      · exact h'.kept x id hc
      · exact hall x hx
    simp only [consume, Txn.when, addReceipt, wp_bind, wp_get, wp_ite, wp_require, wp_modify,
      wp_orThrow, wp_pure]
    refine ⟨fun hno _ t ht => ?_, fun hyes => hrest db (.refl h) (by simpa using hyes)⟩
    obtain ⟨h₁, hc⟩ := h.consume hid hno ht
    exact hrest _ h₁ hc

/-- A delivery finds its claim and processes the event, or does nothing. -/
theorem wp_deliver {consumers : List String} {raises : String → Bool} {workerId : String}
    {m : OutboxMessage} {now : Instant} (h : Receipted db) :
    wp (deliver consumers raises workerId m now) (fun _ db' => db' = db ∨ ∃ e db₁, e.id = m.id ∧
      e.claimedIn workerId m.attempts ∧ Consumed m.id db db₁ ∧ (∀ c ∈ consumers, db₁.hasReceipt c m.id) ∧
      Rewrites db₁ e (e.process now) db' ∧ db'.log = db₁.log) () db := by
  simp only [deliver, wp_bind, wp_get]
  split
  · exact wp_pure.2 (.inl rfl)
  · rename_i e he
    obtain ⟨hfind, hclaim⟩ := Option.filter_eq_some_iff.1 he
    obtain ⟨hmem, hid⟩ := Table.find?_eq_some.1 hfind
    refine wp_bind.2 (wp_mono (wp_consume consumers db h ⟨e, hmem, hid⟩) ?_)
    rintro - db₁ ⟨h₁, hall⟩
    have hmem₁ : e ∈ db₁.events := by rw [h₁.events]; exact hmem
    rcases updateEvent_run m.id (fun _ => True) (fun e => e.process now)
      db₁ with ⟨x, hx, hxid, -, hrun⟩ | ⟨hno, -⟩
    · obtain rfl := Table.eq_of_key hx hmem₁ (hxid.trans hid.symm)
      refine wp_bind.2 (wp_bind.2 (wp_of_run hrun (wp_pure.2 (wp_pure.2 (.inr ?_)))))
      exact ⟨x, db₁, hid, of_decide_eq_true hclaim, h₁, hall, ⟨hx, rfl, rfl, rfl⟩, rfl⟩
    · exact absurd trivial (hno e hmem₁ hid)

/-- A delivery under a claim that the row does not have does nothing. -/
theorem deliver_refused {consumers : List String} {raises : String → Bool} {workerId : String}
    {m : OutboxMessage} {now : Instant}
    (hno : ∀ e ∈ db.events, e.id = m.id → ¬ e.claimedIn workerId m.attempts) :
    (deliver consumers raises workerId m now).run () db = .ok (false, db) := by
  unfold deliver
  rw [run_bind_get]
  cases hf : (db.events.find? m.id).filter fun e => e.claimedIn workerId m.attempts with
  | none => rfl
  | some e =>
    obtain ⟨hfind, hclaim⟩ := Option.filter_eq_some_iff.1 hf
    obtain ⟨hmem, hid⟩ := Table.find?_eq_some.1 hfind
    exact absurd (of_decide_eq_true hclaim) (hno e hmem hid)

theorem claimsOf_effects {k : UUID} (cs : List String) (log : List OutboxNote) :
    claimsOf k (cs.map (fun c => .effect c id) ++ log) = claimsOf k log := by
  induction cs with
  | nil => rfl
  | cons c cs ih => exact ih

/-! ### Failures, replays and the retention -/

theorem markFailed_run (workerId : String) (m : OutboxMessage) (maxAttempts : ℕ) (availableAt : Instant)
    (db : OutboxDb) : (markFailed workerId m maxAttempts availableAt).commit () db = db ∨ ∃ e, e.id = m.id ∧
    e.claimedIn workerId m.attempts ∧
      Rewrites db e (e.failed (maxAttempts ≤ m.attempts) availableAt)
        ((markFailed workerId m maxAttempts availableAt).commit () db) ∧
      ((markFailed workerId m maxAttempts availableAt).commit () db).log = db.log := by
  rcases updateEvent_run m.id (fun e => e.claimedIn workerId m.attempts)
    (·.failed (maxAttempts ≤ m.attempts) availableAt) db with ⟨e, he, hid, hclaim, hrun⟩ | ⟨-, hrun⟩
  · rw [markFailed, commit, hrun]
    exact .inr ⟨e, hid, hclaim, ⟨he, rfl, rfl, rfl⟩, rfl⟩
  · rw [markFailed, commit, hrun]
    exact .inl rfl

theorem markFailed_refused {workerId : String} {m : OutboxMessage} {maxAttempts : ℕ} {availableAt : Instant}
    (hno : ∀ e ∈ db.events, e.id = m.id → ¬ e.claimedIn workerId m.attempts) :
    (markFailed workerId m maxAttempts availableAt).commit () db = db := by
  rcases markFailed_run workerId m maxAttempts availableAt db with h | ⟨e, hid, hclaim, hw, -⟩
  · exact h
  · exact absurd hclaim (hno e hw.mem hid)

theorem replayDead_run (id : UUID) (now : Instant) (db : OutboxDb) :
    (replayDead id now).commit () db = db ∨ ∃ e, e.id = id ∧ e.status = .dead ∧
      Rewrites db e (e.replay now) ((replayDead id now).commit () db) ∧
      ((replayDead id now).commit () db).log = .replayed id :: db.log := by
  rcases updateEvent_run id (fun e => e.status = .dead) (·.replay now)
    db with ⟨e, he, hid, hdead, hrun⟩ | ⟨-, hrun⟩
  · rw [replayDead, commit, run_bind_of_ok hrun]
    exact .inr ⟨e, hid, hdead, ⟨he, rfl, rfl, rfl⟩, rfl⟩
  · rw [replayDead, commit, run_bind_of_ok hrun]
    exact .inl rfl

theorem writeEvent_run (e : OutboxEvent) (db : OutboxDb) : (writeEvent e).commit () db = db ∨
    ∃ t, db.events.insert e = some t ∧
    (writeEvent e).commit () db = { db with events := t, log := .written e.id :: db.log } := by
  unfold writeEvent commit
  rw [run_bind_get]
  cases db.events.insert e with
  | none => exact .inl rfl
  | some t => exact .inr ⟨t, rfl, rfl⟩

/-- The retention deletes an outdated event with its receipts. -/
theorem retention_spec (cutoff : Instant) (db : OutboxDb) :
    (∀ x, x ∈ ((deleteProcessedBefore cutoff).commit () db).events ↔ x ∈ db.events ∧
      x.outdated cutoff = false) ∧
    (∀ e ∈ db.events, e.outdated cutoff = false → ∀ c,
      ((deleteProcessedBefore cutoff).commit () db).hasReceipt c e.id = db.hasReceipt c e.id) ∧
    (∀ r ∈ ((deleteProcessedBefore cutoff).commit () db).receipts, r ∈ db.receipts ∧
      ∀ e ∈ db.events, e.id = r.eventId → e.outdated cutoff = false) ∧
    ((deleteProcessedBefore cutoff).commit () db).log = db.log := by
  have hr : ∀ r, r ∈ ((deleteProcessedBefore cutoff).commit () db).receipts ↔ r ∈ db.receipts ∧
      (db.events.rows.any fun e => e.outdated cutoff ∧ e.id = r.eventId) = false := fun r => Table.mem_delete
  refine ⟨fun x => Table.mem_delete, fun e he ho c => ?_, fun r hrm => ?_, rfl⟩
  · rw [Bool.eq_iff_iff, OutboxDb.hasReceipt_iff, OutboxDb.hasReceipt_iff]
    constructor
    · rintro ⟨r, hrm, hc, hid⟩
      exact ⟨r, ((hr r).1 hrm).1, hc, hid⟩
    · rintro ⟨r, hrm, hc, hid⟩
      refine ⟨r, (hr r).2 ⟨hrm, ?_⟩, hc, hid⟩
      rw [List.any_eq_false]
      intro x hx hxo
      obtain ⟨hxo, hxid⟩ := of_decide_eq_true hxo
      obtain rfl := @Table.eq_of_key _ _ _ db.events _ _ hx he (hxid.trans hid)
      rw [ho] at hxo
      cases hxo
  · obtain ⟨hrm, hno⟩ := (hr r).1 hrm
    refine ⟨hrm, fun e he hid => ?_⟩
    by_contra ho
    rw [List.any_eq_false] at hno
    exact hno e he (decide_eq_true ⟨by simpa using ho, hid⟩)

end tables

/-! ### Publishers -/

/-- What holds in every run. -/
structure Delivered (consumers : List String) (s : OutboxSystem) : Prop where
  receipted : Receipted s.db
  complete : Complete consumers s.db
  fenced : ∀ w, ∀ h ∈ (s.publishers w).batch, ∀ e ∈ s.db.events, e.id = h.message.id →
    e.status = .processing → e.claimedBy = some w → h.serial = claimsOf e.id s.db.log ∧
    h.message.attempts = e.attempts

section publishers

variable {cfg : OutboxConfig} {consumers : List String} {s : OutboxSystem}

theorem Delivered.empty : Delivered consumers .empty :=
  ⟨⟨fun _ h => absurd h Table.not_mem_empty, fun _ h => absurd h Table.not_mem_empty, fun _ _ =>
    Nat.zero_le 1⟩, fun _ h => absurd h Table.not_mem_empty, fun _ _ h => absurd h List.not_mem_nil⟩

/-- A batch may shrink. -/
theorem Delivered.setPublisher (h : Delivered consumers s) {w : String} {p : Publisher}
    (hp : ∀ m ∈ p.batch, m ∈ (s.publishers w).batch) : Delivered consumers (s.setPublisher w p) := by
  refine ⟨h.receipted, h.complete, fun v m hm => ?_⟩
  by_cases hv : v = w
  · subst hv
    have hm : m ∈ (Function.update s.publishers v p v).batch := hm
    rw [Function.update_self] at hm
    exact h.fenced v m (hp m hm)
  · have hm : m ∈ (Function.update s.publishers w p v).batch := hm
    rw [Function.update_of_ne hv] at hm
    exact h.fenced v m hm

/-- A row is let go, and the claims stay as they were. -/
theorem Delivered.rewrite (h : Delivered consumers s) {db : OutboxDb} {e e' : OutboxEvent}
    (hw : Rewrites s.db e e' db) (hs : e'.status ≠ .processing)
    (hdone : e'.status = .processed → ∀ c ∈ consumers, s.db.hasReceipt c e.id)
    (heff : ∀ c k, effectsOf c k db.log = effectsOf c k s.db.log)
    (hcl : ∀ k, claimsOf k db.log = claimsOf k s.db.log) : Delivered consumers { s with db } := by
  refine ⟨h.receipted.congr hw.ids hw.receipts heff, h.complete.rewrite hw hdone,
    fun w m hm x hx hid hxs hxw => ?_⟩
  rcases hw.mem_iff.1 hx with rfl | ⟨-, hx⟩
  · exact absurd hxs hs
  · rw [hcl]
    exact h.fenced w m hm x hx hid hxs hxw

theorem Delivered.write (h : Delivered consumers s) {e : OutboxEvent} {t : Table OutboxEvent.id}
    (hs : e.status = .pending) (ht : s.db.events.insert e = some t) :
    Delivered consumers { s with db := { s.db with events := t, log := .written e.id :: s.db.log } } := by
  have hnew := (Table.insert_eq_some.1 ht).1
  have hlog : ∀ c k, effectsOf c k (.written e.id :: s.db.log) = if e.id = k then 0
      else effectsOf c k s.db.log := fun _ _ => rfl
  refine ⟨⟨fun r hr => ?_, fun x hx c => ?_, fun c k => ?_⟩, fun x hx hxs c hc => ?_,
    fun w m hm x hx hid hxs hxw => ?_⟩
  · obtain ⟨x, hx, hid⟩ := h.receipted.known r hr
    exact ⟨x, (Table.mem_insert ht).2 (.inl hx), hid⟩
  · show effectsOf c x.id (.written e.id :: s.db.log) = if s.db.hasReceipt c x.id then 1 else 0
    rw [hlog]
    rcases (Table.mem_insert ht).1 hx with hx | rfl
    · rw [if_neg (Ne.symm (hnew x hx))]
      exact h.receipted.count x hx c
    · -- a receipt for the new event would be one for an old event with its identifier
      rw [if_pos rfl, if_neg]
      intro hr
      obtain ⟨r, hr, -, hid⟩ := OutboxDb.hasReceipt_iff.1 hr
      obtain ⟨y, hy, hyid⟩ := h.receipted.known r hr
      exact hnew y hy (hyid.trans hid)
  · show effectsOf c k (.written e.id :: s.db.log) ≤ 1
    rw [hlog]
    split
    · exact Nat.zero_le 1
    · exact h.receipted.once c k
  · rcases (Table.mem_insert ht).1 hx with hx | rfl
    · exact h.complete x hx hxs c hc
    · exact absurd (hs.symm.trans hxs) (by simp)
  · rcases (Table.mem_insert ht).1 hx with hx | rfl
    · exact h.fenced w m hm x hx hid hxs hxw
    · exact absurd (hs.symm.trans hxs) (by simp)

/-- The batch of a claim is fenced by it; the others lose the rows that the claim takes. -/
theorem Delivered.claim (h : Delivered consumers s) {c : OutboxClaim} {db : OutboxDb}
    (hc : ClaimedAll c (s.db.taken c) s.db db) :
    Delivered consumers ({ s with db }.setPublisher c.workerId
      ⟨OutboxSystem.hold db ((s.db.taken c).map OutboxEvent.message), false⟩) := by
  obtain ⟨hnodup, htaken⟩ := s.db.taken_spec c
  have heff : ∀ x k, effectsOf x k db.log = effectsOf x k s.db.log := fun x k => by
    rw [hc.log, effectsOf_claims]
  refine ⟨h.receipted.congr (hc.ids fun e he => (htaken e he).1) hc.receipts heff, fun x hx hxs k hk => ?_,
    fun w m hm x hx hid hxs hxw => ?_⟩
  · rcases (hc.mem x).1 hx with ⟨hx, -⟩ | ⟨e, -, rfl⟩
    · show db.hasReceipt k x.id
      rw [OutboxDb.hasReceipt, hc.receipts]
      exact h.complete x hx hxs k hk
    · cases hxs
  · by_cases hw : w = c.workerId
    · subst hw
      have hm : m ∈ (Function.update s.publishers c.workerId _ c.workerId).batch := hm
      rw [Function.update_self] at hm
      obtain ⟨msg, hmsg, rfl⟩ := List.mem_map.1 hm
      obtain ⟨e, he, rfl⟩ := List.mem_map.1 hmsg
      have hide : x.id = e.id := hid
      rcases (hc.mem x).1 hx with ⟨-, hno⟩ | ⟨y, hy, rfl⟩
      · exact absurd (List.mem_map.2 ⟨e, he, hide.symm⟩) hno
      · obtain rfl := Table.eq_of_key (htaken y hy).1 (htaken e he).1 hide
        exact ⟨rfl, rfl⟩
    · have hm : m ∈ (Function.update s.publishers c.workerId _ w).batch := hm
      rw [Function.update_of_ne hw] at hm
      rcases (hc.mem x).1 hx with ⟨hx, hno⟩ | ⟨y, -, rfl⟩
      · show m.serial = claimsOf x.id db.log ∧ _
        rw [hc.log, claimsOf_claims hno]
        exact h.fenced w m hm x hx hid hxs hxw
      · exact absurd (Option.some.inj hxw).symm hw

theorem Delivered.retention (h : Delivered consumers s) (cutoff : Instant) :
    Delivered consumers { s with db := (deleteProcessedBefore cutoff).commit () s.db } := by
  obtain ⟨hev, hhas, hrec, hlog⟩ := retention_spec cutoff s.db
  refine ⟨⟨fun r hr => ?_, fun x hx c => ?_, fun c k => ?_⟩, fun x hx hxs c hc => ?_, fun w m hm x hx => ?_⟩
  · obtain ⟨hr, hno⟩ := hrec r hr
    obtain ⟨e, he, hid⟩ := h.receipted.known r hr
    exact ⟨e, (hev e).2 ⟨he, hno e he hid⟩, hid⟩
  · obtain ⟨hx, ho⟩ := (hev x).1 hx
    rw [hlog, hhas x hx ho]
    exact h.receipted.count x hx c
  · rw [hlog]
    exact h.receipted.once c k
  · obtain ⟨hx, ho⟩ := (hev x).1 hx
    rw [hhas x hx ho]
    exact h.complete x hx hxs c hc
  · rw [hlog]
    exact h.fenced w m hm x ((hev x).1 hx).1

theorem Delivered.deliver (h : Delivered cfg.consumers s) (workerId : String) (raises : String → Bool)
    (commits : Bool) (now : Instant) :
    Delivered cfg.consumers (s.deliver cfg.consumers workerId raises commits now) := by
  unfold OutboxSystem.deliver
  split
  · rename_i m batch hp
    split
    · rename_i b db hrun
      have hshrink : ∀ x ∈ batch, x ∈ (s.publishers workerId).batch := fun x hx => by
        rw [hp]
        exact List.mem_cons_of_mem _ hx
      rcases wp_deliver h.receipted b db hrun with rfl | ⟨e, db₁, hid, -, hcon, hall, hw, hlog⟩
      · exact h.setPublisher hshrink
      · obtain ⟨cs, hcs⟩ := hcon.log
        have h₁ : Delivered cfg.consumers { s with db := db₁ } := by
          refine ⟨hcon.receipted, fun x hx hxs c hc => ?_, fun w n hn x hx => ?_⟩
          · rw [hcon.events] at hx
            exact hcon.kept c x.id (h.complete x hx hxs c hc)
          · rw [hcon.events] at hx
            rw [hcs, claimsOf_effects]
            exact h.fenced w n hn x hx
        refine (h₁.rewrite hw (by simp [OutboxEvent.process]) (fun _ c hc => ?_) (fun _ _ => by rw [hlog])
          fun _ => by rw [hlog]).setPublisher hshrink
        rw [hid]
        exact hall c hc
    · refine h.setPublisher fun x hx => ?_
      rw [hp]
      exact hx
  · exact h

theorem Delivered.step (h : Delivered cfg.consumers s) (op : OutboxOp) :
    Delivered cfg.consumers (s.step cfg op) := by
  cases op with
  | write id eventType aggregateType aggregateId correlationId payload now =>
    rcases writeEvent_run (.new id eventType aggregateType aggregateId correlationId payload now)
      s.db with heq | ⟨t, ht, heq⟩
    · rw [OutboxSystem.step, heq]
      exact h
    · rw [OutboxSystem.step, heq]
      exact h.write rfl ht
  | claim c =>
    show Delivered _ (s.claim c)
    unfold OutboxSystem.claim
    split
    · obtain ⟨db, hrun, hc⟩ := claimOutbox_run c s.db
      rw [hrun]
      exact h.claim hc
    · exact h
  | deliver workerId raises commits now => exact h.deliver workerId raises commits now
  | fail workerId availableAt =>
    show Delivered _ (s.fail _ workerId availableAt)
    unfold OutboxSystem.fail
    split
    · rename_i m batch hp
      have hshrink : ∀ x ∈ batch, x ∈ (s.publishers workerId).batch := fun x hx => by
        rw [hp]
        exact List.mem_cons_of_mem _ hx
      rcases markFailed_run workerId m.message cfg.maxAttempts availableAt s.db with heq | ⟨e, -, -, hw, hlog⟩
      · rw [heq]
        exact h.setPublisher hshrink
      · refine (h.rewrite hw ?_ ?_ (fun _ _ => by rw [hlog]) fun _ => by rw [hlog]).setPublisher hshrink
        · unfold OutboxEvent.failed
          simp only
          split <;> simp
        · unfold OutboxEvent.failed
          simp only
          split <;> simp
    · exact h
  | drop workerId => exact h.setPublisher fun x hx => absurd hx List.not_mem_nil
  | replayDead id now =>
    rcases replayDead_run id now s.db with heq | ⟨e, -, -, hw, hlog⟩
    · rw [OutboxSystem.step, heq]
      exact h
    · refine h.rewrite hw (by simp [OutboxEvent.replay]) (by simp [OutboxEvent.replay])
        (fun _ _ => ?_) fun _ => ?_
      · rw [hlog]
        rfl
      · rw [hlog]
        rfl
  | applyRetention cutoff => exact h.retention cutoff

theorem Delivered.run (h : Delivered cfg.consumers s) (ops : List OutboxOp) :
    Delivered cfg.consumers (s.run cfg ops) := by
  induction ops generalizing s with
  | nil => exact h
  | cons op ops ih => exact ih (h.step op)

/-- In every run each effect is committed at most once; a processed event has all its effects and receipts;
and a publisher whose claim was superseded commits nothing. -/
theorem outbox_delivers_once (cfg : OutboxConfig) (ops : List OutboxOp) :
    (∀ c id, effectsOf c id (OutboxSystem.empty.run cfg ops).db.log ≤ 1) ∧
    (∀ e ∈ (OutboxSystem.empty.run cfg ops).db.events, e.status = .processed → ∀ c ∈ cfg.consumers,
      effectsOf c e.id (OutboxSystem.empty.run cfg ops).db.log = 1 ∧
        ∃ r ∈ (OutboxSystem.empty.run cfg ops).db.receipts, r.consumerName = c ∧ r.eventId = e.id) ∧
    ∀ w m batch failing, (OutboxSystem.empty.run cfg ops).publishers w = ⟨m :: batch, failing⟩ →
      m.serial < claimsOf m.message.id (OutboxSystem.empty.run cfg ops).db.log →
      (∀ raises commits now, ((OutboxSystem.empty.run cfg ops).step cfg (.deliver w raises commits now)).db =
        (OutboxSystem.empty.run cfg ops).db) ∧
      ∀ availableAt, ((OutboxSystem.empty.run cfg ops).step cfg (.fail w availableAt)).db =
      (OutboxSystem.empty.run cfg ops).db := by
  have h : Delivered cfg.consumers (OutboxSystem.empty.run cfg ops) := Delivered.empty.run ops
  generalize OutboxSystem.empty.run cfg ops = s at h
  refine ⟨h.receipted.once, fun e he hs c hc => ?_, fun w m batch failing hp hlt => ?_⟩
  · have hr := h.complete e he hs c hc
    exact ⟨(h.receipted.count e he c).trans (if_pos hr), OutboxDb.hasReceipt_iff.1 hr⟩
  · have hno : ∀ e ∈ s.db.events, e.id = m.message.id → ¬ e.claimedIn w m.message.attempts := by
      rintro e he hid ⟨hs, hw, -⟩
      have hm : m ∈ (s.publishers w).batch := by
        rw [hp]
        exact List.mem_cons_self
      have hserial := (h.fenced w m hm e he hid hs hw).1
      rw [hid] at hserial
      exact absurd hserial (Nat.ne_of_lt hlt)
    refine ⟨fun raises commits now => ?_, fun availableAt => ?_⟩
    · show (s.deliver cfg.consumers w raises commits now).db = s.db
      unfold OutboxSystem.deliver
      rw [hp]
      cases failing with
      | true => rfl
      | false =>
        simp only [deliver_refused hno]
        cases commits <;> rfl
    · show (s.fail _ w availableAt).db = s.db
      unfold OutboxSystem.fail
      rw [hp]
      cases failing with
      | true => exact markFailed_refused hno
      | false => rfl

end publishers

end GManager
