import GManager.Bounds

/-!
# Extra ticks

Two runs that differ by additional ticks are compared side by side. The denser run is ahead by some seconds
of each running session, which it has billed already; the next settlement of the session in both runs makes
up for the lead, so in the end both bill the same.
-/

namespace GManager

open Txn

variable {c : Call} {t : Instant}

/-! ### One instant -/

/-- Every reading of the clock will be `t`. -/
def Clock.At (t : Instant) (k : Clock) : Prop := k.next = ⟨t, []⟩

theorem Clock.at_self (t : Instant) : Clock.At t ⟨t, []⟩ := rfl

theorem Clock.at_listen {k : Clock} (h : k.now ≤ t) : Clock.At t { k with readings := [t] } := by
  show (⟨max k.now t, []⟩ : Clock) = _
  rw [max_eq_right h]

theorem Clock.At.le {k : Clock} (h : k.At t) : k.now ≤ t := by
  have := k.le_next
  rwa [show k.next = ⟨t, []⟩ from h] at this

/-! ### The seconds ahead -/

/-- A session in the denser run: if it is active, some seconds more are billed. -/
def GamingSession.led (lead : UUID → ℤ) (s : GamingSession) : GamingSession :=
  if s.status = .active then s.charge (lead s.customerId) else s

namespace GamingSession

variable {lead : UUID → ℤ} {s : GamingSession}

theorem charge_zero (s : GamingSession) : s.charge 0 = s := by
  simp [charge, Instant.plusSeconds_zero]

theorem charge_charge (s : GamingSession) (m n : ℤ) : (s.charge m).charge n = s.charge (m + n) := by
  simp only [charge, Instant.plusSeconds_plusSeconds, add_assoc]

theorem led_active (ha : s.status = .active) : s.led lead = s.charge (lead s.customerId) := if_pos ha

theorem led_inactive (ha : s.status ≠ .active) : s.led lead = s := if_neg ha

theorem led_zero (h : lead s.customerId = 0) : s.led lead = s := by
  unfold led
  split
  · rw [h, charge_zero]
  · rfl

theorem led_cases (lead : UUID → ℤ) (s : GamingSession) : s.led lead = s.charge (lead s.customerId) ∨
    s.led lead = s := by
  unfold led
  split
  · exact .inl rfl
  · exact .inr rfl

@[simp] theorem led_id : (s.led lead).id = s.id := by
  rcases led_cases lead s with h | h <;> rw [h]
  rfl

@[simp] theorem led_status : (s.led lead).status = s.status := by
  rcases led_cases lead s with h | h <;> rw [h]
  rfl

@[simp] theorem led_customerId : (s.led lead).customerId = s.customerId := by
  rcases led_cases lead s with h | h <;> rw [h]
  rfl

@[simp] theorem led_resourceId : (s.led lead).resourceId = s.resourceId := by
  rcases led_cases lead s with h | h <;> rw [h]
  rfl

@[simp] theorem led_billingMode : (s.led lead).billingMode = s.billingMode := by
  rcases led_cases lead s with h | h <;> rw [h]
  rfl

@[simp] theorem led_endsAt : (s.led lead).endsAt = s.endsAt := by
  rcases led_cases lead s with h | h <;> rw [h]
  rfl

@[simp] theorem led_meteredLeaseUntil : (s.led lead).meteredLeaseUntil = s.meteredLeaseUntil := by
  rcases led_cases lead s with h | h <;> rw [h]
  rfl

end GamingSession

theorem GamingSession.cutoff_mono (s : GamingSession) {now now' : Instant} (h : now ≤ now') :
    s.cutoff now ≤ s.cutoff now' :=
  min_le_min_right _ h

/-- What is billed already is not billed again. -/
theorem unsettled_charge {s : GamingSession} {now : Instant} {balance n : ℤ} (h0 : 0 ≤ n)
    (h : s.lastBilledAt.plusSeconds n ≤ s.cutoff now) :
    unsettled (s.charge n) now (balance - n) = unsettled s now balance - n := by
  have hn : n ≤ secondsBetween s.lastBilledAt (s.cutoff now) := le_secondsBetween_iff.2 h
  show min (balance - n) (max 0 (secondsBetween (s.lastBilledAt.plusSeconds n) (s.cutoff now))) =
    min balance (max 0 (secondsBetween s.lastBilledAt (s.cutoff now))) - n
  rw [secondsBetween_plusSeconds]
  omega

/-- `d'` is ahead of `d` by `lead` seconds of the running session of each customer. -/
structure Ahead (lead : UUID → ℤ) (d d' : Db) : Prop where
  clock : d.clock.now ≤ d'.clock.now
  operations : d'.operations = d.operations
  reservations : d'.reservations = d.reservations
  commands : d'.commands = d.commands
  cursors : d'.cursors = d.cursors
  sessions : d'.sessions = d.sessions.edit (·.led lead) fun _ => GamingSession.led_id
  balance : ∀ customer, d'.balance customer = d.balance customer - lead customer
  grants : ∀ actor customer key, d'.ledger.find? (.grant actor customer key) = d.ledger.find?
    (.grant actor customer key)
  nonneg : ∀ customer, 0 ≤ lead customer
  elapsed : ∀ customer, lead customer ≠ 0 → ∃ s ∈ d.sessions, s.customerId = customer ∧ s.status = .active ∧
    s.lastBilledAt.plusSeconds (lead customer) ≤ s.cutoff d'.clock.now

/-- Two states of which one is ahead, in requests that are served at `t`. -/
structure Abreast (t : Instant) (lead : UUID → ℤ) (d d' : Db) : Prop extends Ahead lead d d' where
  left : d.clock.At t
  right : d'.clock.At t

/-- The two sides are at one state of the session `s₀`, of which nothing is ahead any more. -/
structure Level (t : Instant) (lead : UUID → ℤ) (s₀ s s' : GamingSession) (d d' : Db) : Prop
    extends Abreast t lead d d' where
  same : s' = s
  mem : s ∈ d.sessions
  id : s.id = s₀.id
  customerId : s.customerId = s₀.customerId
  settled : lead s₀.customerId = 0

/-- What the comparison needs of both sides: their bounds, and that nobody plays twice. -/
structure Comparable (d d' : Db) : Prop where
  single : ∀ s ∈ d.sessions, ∀ x ∈ d.sessions, s.status = .active → x.status = .active →
    s.customerId = x.customerId → s = x
  left : Bounded d
  right : Bounded d'

namespace Ahead

variable {lead : UUID → ℤ} {d d' : Db}

theorem refl (d : Db) : Ahead (fun _ => 0) d d := by
  refine ⟨le_rfl, rfl, rfl, rfl, rfl, ?_, fun _ => (sub_zero _).symm, fun _ _ _ => rfl, fun _ => le_rfl,
    fun _ h => absurd rfl h⟩
  refine Table.ext ?_
  exact ((List.map_congr_left fun s _ => GamingSession.led_zero rfl).trans (List.map_id _)).symm

theorem mem (h : Ahead lead d d') {s : GamingSession} (hs : s ∈ d.sessions) : s.led lead ∈ d'.sessions := by
  rw [h.sessions]
  exact Table.mem_edit.2 ⟨s, hs, rfl⟩

theorem find? (h : Ahead lead d d') (id : UUID) :
    d'.sessions.find? id = (d.sessions.find? id).map (·.led lead) := by
  rw [h.sessions]
  exact Table.find?_edit

theorem hasEntry (h : Ahead lead d d') (actor customer : UUID) (key : String) :
    d'.hasEntry (.grant actor customer key) = d.hasEntry (.grant actor customer key) := by
  rw [Db.hasEntry, h.grants, Db.hasEntry]

theorem activeByCustomer (h : Ahead lead d d') (customer : UUID) :
    d'.activeByCustomer customer = (d.activeByCustomer customer).map (·.led lead) := by
  unfold Db.activeByCustomer
  rw [h.sessions]
  show (d.sessions.rows.map _).find? _ = _
  rw [List.find?_map]
  refine congrArg (Option.map _) (congrArg (fun p => d.sessions.rows.find? p) (funext fun s => ?_))
  simp only [Function.comp_apply, GamingSession.led_customerId, GamingSession.led_status]

/-- The seconds ahead of a running session lie before its cutoff. -/
theorem lastBilledAt_le (h : Ahead lead d d') {s : GamingSession}
    (hsingle : ∀ x ∈ d.sessions, x.status = .active → x.customerId = s.customerId → x = s)
    (hne : lead s.customerId ≠ 0) :
    s.lastBilledAt.plusSeconds (lead s.customerId) ≤ s.cutoff d'.clock.now := by
  obtain ⟨x, hx, hxc, hxa, hle⟩ := h.elapsed _ hne
  rwa [hsingle x hx hxa hxc] at hle

/-- What the next settlement books in the denser run. -/
theorem unsettled (h : Ahead lead d d') {s : GamingSession} (ha : s.status = .active)
    (hsingle : ∀ x ∈ d.sessions, x.status = .active → x.customerId = s.customerId → x = s)
    {now : Instant} (hnow : d'.clock.now ≤ now) :
    GManager.unsettled (s.led lead) now (d'.balance s.customerId) =
      GManager.unsettled s now (d.balance s.customerId) - lead s.customerId := by
  rw [GamingSession.led_active ha, h.balance]
  by_cases hz : lead s.customerId = 0
  · rw [hz, GamingSession.charge_zero, sub_zero, sub_zero]
  · exact unsettled_charge (h.nonneg _) ((h.lastBilledAt_le hsingle hz).trans (s.cutoff_mono hnow))

end Ahead

/-! ### Settlement on both sides -/

section settle

variable {lead : UUID → ℤ} {d d' : Db} {s : GamingSession}

theorem Db.find?_post {db : Db} {e : LedgerEntry} {source : SourceKey} (h : source ≠ e.sourceKey) :
    (db.post e).ledger.find? source = db.ledger.find? source := by
  unfold post
  split
  · exact Table.find?_insert ‹_› h
  · rfl

theorem append_run {db : Db} {customer actor : UUID} {session operation : Option UUID} {delta : ℤ}
    {kind : LedgerKind} {reason : Option String} {source : SourceKey} (hfresh : db.hasEntry source = false)
    (h0 : 0 ≤ db.balance customer + delta) (hlt : db.balance customer + delta < 2 ^ 63) :
    (append customer session operation actor delta kind reason source).run c db =
      .ok ((), { db.post (db.entry customer session operation actor delta kind reason source
        db.clock.next.now) with
        clock := db.clock.next }) := by
  obtain ⟨ledger, hi, hpost⟩ := Db.post_of_fresh
    (e := db.entry customer session operation actor delta kind reason source db.clock.next.now) hfresh
  have hadd : addExact (db.balance customer) delta = .ok (db.balance customer + delta) :=
    if_pos ⟨by omega, hlt⟩
  simp only [append, commits_bind, commits_get]
  refine ⟨db, db, ⟨rfl, rfl⟩, ?_⟩
  rw [if_neg (by simp [hfresh])]
  simp only [commits_bind, commits_lift, commits_require, commits_modify, commits_instant]
  refine ⟨_, db, ⟨hadd, rfl⟩, (), db, ⟨h0, rfl⟩, (), _, rfl, _, _, ⟨rfl, rfl⟩, ?_⟩
  simp only [insertRow, commits_bind, commits_get, commits_orThrow, commits_modify]
  refine ⟨_, _, ⟨rfl, rfl⟩, ledger, _, ⟨hi, rfl⟩, ?_⟩
  rw [hpost]
  rfl

/-- The state after `charge` has booked `delta` seconds of a session. -/
def Db.book (db : Db) (s : GamingSession) (delta : ℤ) : Db :=
  { (db.post (db.entry s.customerId (some s.id) none s.startedBy (-delta) .consumption none
      (.use s.id (s.billedSeconds + delta)) db.clock.next.now)).putSession (s.charge delta) with clock :=
      db.clock.next }

theorem charge_run (b : Bounded d) (hs : s ∈ d.sessions) {delta : ℤ} (h0 : 0 < delta)
    (hle : delta ≤ d.balance s.customerId) (hlt : s.billedSeconds + delta < 2 ^ 63) :
    (charge s delta).run c d = .ok (s.charge delta, d.book s delta) := by
  have hbilled := (b.billed s hs).1
  have hbalance := b.balance s.customerId
  have hadd : addExact s.billedSeconds delta = .ok (s.billedSeconds + delta) := if_pos ⟨by omega, hlt⟩
  simp only [charge, if_pos h0, commits_bind, commits_lift, saveSession, commits_modify, commits_pure]
  exact ⟨_, d, ⟨hadd, rfl⟩, (), _, append_run (b.conserved.use_fresh hs h0) (by omega) (by omega),
    (), _, rfl, rfl, rfl⟩

theorem charge_overflow {delta : ℤ} (h0 : 0 < delta) (hge : 2 ^ 63 ≤ s.billedSeconds + delta) :
    (charge s delta).run c d = .error .arithmetic := by
  have hadd : addExact s.billedSeconds delta = .error .arithmetic := if_neg (by omega)
  rw [charge, if_pos h0]
  exact run_bind_of_error (by rw [hadd]; rfl)

theorem charge_none {delta : ℤ} (h0 : ¬ 0 < delta) : (charge s delta).run c d = .ok (s, d) := by
  rw [charge, if_neg h0]
  rfl

/-- What a charge of `delta` seconds does at one instant. -/
structure Booked (s : GamingSession) (delta : ℤ) (d e : Db) : Prop where
  clock : e.clock = d.clock
  operations : e.operations = d.operations
  reservations : e.reservations = d.reservations
  commands : e.commands = d.commands
  cursors : e.cursors = d.cursors
  sessions : e.sessions = d.sessions.save (s.charge delta)
  balance : ∀ customer, e.balance customer = d.balance customer - if customer = s.customerId then delta else 0
  grants : ∀ actor customer key, e.ledger.find? (.grant actor customer key) = d.ledger.find?
    (.grant actor customer key)

theorem Booked.none (hs : s ∈ d.sessions) : Booked s 0 d d := by
  refine ⟨rfl, rfl, rfl, rfl, rfl, ?_, fun customer => ?_, fun _ _ _ => rfl⟩
  · rw [s.charge_zero, Table.save_self hs]
  · rw [ite_self, sub_zero]

theorem Booked.book (b : Bounded d) (hs : s ∈ d.sessions) {delta : ℤ} (h0 : 0 < delta)
    (hclock : d.clock = ⟨t, []⟩) : Booked s delta d (d.book s delta) := by
  have hfresh := b.conserved.use_fresh hs h0
  refine ⟨?_, Db.post_operations, Db.post_reservations, Db.post_commands, Db.post_cursors,
    Db.post_putSession_sessions, fun customer => (Db.balance_post hfresh customer).trans ?_, fun _ _ _ =>
    Db.find?_post (by simp [Db.entry])⟩
  · show d.clock.next = d.clock
    rw [hclock]
    rfl
  · show (if customer = s.customerId then d.balance s.customerId + -delta else d.balance customer) = _
    split
    · rename_i hcust
      rw [hcust, sub_eq_add_neg]
    · rw [sub_zero]

/-- A charge within the balance books its seconds, unless they overflow. -/
theorem charge_booked (b : Bounded d) (hs : s ∈ d.sessions) {delta : ℤ} (h0 : 0 ≤ delta)
    (hle : delta ≤ d.balance s.customerId) (hlt : s.billedSeconds + delta < 2 ^ 63)
    (hclock : d.clock = ⟨t, []⟩) : ∃ e, (charge s delta).run c d = .ok (s.charge delta, e) ∧
    Booked s delta d e := by
  rcases h0.eq_or_lt with rfl | h0
  · exact ⟨d, by rw [s.charge_zero]; exact charge_none (lt_irrefl 0), .none hs⟩
  · exact ⟨_, charge_run b hs h0 hle hlt, .book b hs h0 hclock⟩

/-- Both sides book what is unsettled, and nothing is ahead any more. -/
theorem Ahead.booked (h : Ahead lead d d') (hs : s ∈ d.sessions) (ha : s.status = .active)
    (hsingle : ∀ x ∈ d.sessions, x.status = .active → x.customerId = s.customerId → x = s) {delta : ℤ}
    {e e' : Db} (bk : Booked s delta d e) (bk' : Booked (s.led lead) (delta - lead s.customerId) d' e') :
    Ahead (Function.update lead s.customerId 0) e e' := by
  have hother : ∀ x ∈ d.sessions, x.customerId ≠ s.customerId → x ∈ e.sessions := by
    intro x hx hne
    rw [bk.sessions]
    exact Table.mem_save.2 (.inl ⟨hx, fun hk => hne (Table.eq_of_key hx hs hk ▸ rfl)⟩)
  refine ⟨?_, ?_, ?_, ?_, ?_, ?_, fun customer => ?_, fun actor customer key => ?_, fun customer => ?_,
    fun customer hne => ?_⟩
  · rw [bk.clock, bk'.clock]
    exact h.clock
  · rw [bk.operations, bk'.operations, h.operations]
  · rw [bk.reservations, bk'.reservations, h.reservations]
  · rw [bk.commands, bk'.commands, h.commands]
  · rw [bk.cursors, bk'.cursors, h.cursors]
  · rw [bk'.sessions, bk.sessions, h.sessions, GamingSession.led_active ha, GamingSession.charge_charge,
      add_sub_cancel]
    refine Table.edit_save ?_ fun x hx hk => ?_
    · exact GamingSession.led_zero (Function.update_self _ _ _)
    · by_cases hxa : x.status = .active
      · rw [GamingSession.led_active hxa, GamingSession.led_active hxa, Function.update_of_ne]
        exact fun hxc => hk (hsingle x hx hxa hxc ▸ rfl)
      · rw [GamingSession.led_inactive hxa, GamingSession.led_inactive hxa]
  · rw [bk'.balance, bk.balance, h.balance, GamingSession.led_customerId]
    by_cases hcust : customer = s.customerId
    · rw [if_pos hcust, if_pos hcust, hcust, Function.update_self]
      omega
    · rw [if_neg hcust, if_neg hcust, Function.update_of_ne hcust]
      omega
  · rw [bk'.grants, bk.grants, h.grants]
  · by_cases hcust : customer = s.customerId
    · rw [hcust, Function.update_self]
    · rw [Function.update_of_ne hcust]
      exact h.nonneg customer
  · have hcust : customer ≠ s.customerId := by
      rintro rfl
      exact hne (Function.update_self _ _ _)
    rw [Function.update_of_ne hcust] at hne ⊢
    obtain ⟨x, hx, hxc, hxa, hle⟩ := h.elapsed customer hne
    rw [bk'.clock]
    exact ⟨x, hother x hx (hxc ▸ hcust), hxc, hxa, hle⟩

/-- The denser run books what is unsettled, and is ahead by that much more. -/
theorem Ahead.ticked (h : Ahead lead d d') (hs : s ∈ d.sessions) (ha : s.status = .active)
    (hsingle : ∀ x ∈ d.sessions, x.status = .active → x.customerId = s.customerId → x = s) {delta : ℤ}
    {e' : Db} (h0 : 0 ≤ delta)
    (hdelta : 0 < delta → (s.led lead).lastBilledAt.plusSeconds delta ≤ s.cutoff d'.clock.now)
    (bk' : Booked (s.led lead) delta d' e') :
    Ahead (Function.update lead s.customerId (lead s.customerId + delta)) d e' := by
  have h1 := h.nonneg s.customerId
  refine ⟨?_, ?_, ?_, ?_, ?_, ?_, fun customer => ?_, fun actor customer key => ?_, fun customer => ?_,
    fun customer hne => ?_⟩
  · rw [bk'.clock]
    exact h.clock
  · rw [bk'.operations, h.operations]
  · rw [bk'.reservations, h.reservations]
  · rw [bk'.commands, h.commands]
  · rw [bk'.cursors, h.cursors]
  · rw [bk'.sessions, h.sessions, GamingSession.led_active ha, GamingSession.charge_charge]
    refine Table.save_edit (fun x hx hk => ?_) fun x hx hk => ?_
    · rw [Table.eq_of_key hx hs hk, GamingSession.led_active ha, Function.update_self]
    · by_cases hxa : x.status = .active
      · rw [GamingSession.led_active hxa, GamingSession.led_active hxa, Function.update_of_ne]
        exact fun hxc => hk (hsingle x hx hxa hxc ▸ rfl)
      · rw [GamingSession.led_inactive hxa, GamingSession.led_inactive hxa]
  · rw [bk'.balance, h.balance, GamingSession.led_customerId]
    by_cases hcust : customer = s.customerId
    · rw [if_pos hcust, hcust, Function.update_self]
      omega
    · rw [if_neg hcust, Function.update_of_ne hcust, sub_zero]
  · rw [bk'.grants, h.grants]
  · by_cases hcust : customer = s.customerId
    · rw [hcust, Function.update_self]
      omega
    · rw [Function.update_of_ne hcust]
      exact h.nonneg customer
  · rw [bk'.clock]
    by_cases hcust : customer = s.customerId
    · rw [hcust, Function.update_self] at hne ⊢
      refine ⟨s, hs, rfl, ha, ?_⟩
      rcases h0.eq_or_lt with rfl | h0
      · rw [add_zero] at hne ⊢
        exact h.lastBilledAt_le hsingle hne
      · have := hdelta h0
        rwa [GamingSession.led_active ha, GamingSession.charge, Instant.plusSeconds_plusSeconds] at this
    · rw [Function.update_of_ne hcust] at hne ⊢
      exact h.elapsed customer hne

theorem paired_charge (h : Abreast t lead d d') (hclock : d.clock = ⟨t, []⟩) (hclock' : d'.clock = ⟨t, []⟩)
    (b : Bounded d) (b' : Bounded d') (hs : s ∈ d.sessions) (ha : s.status = .active)
    (hsingle : ∀ x ∈ d.sessions, x.status = .active → x.customerId = s.customerId → x = s) :
    Paired (charge s (unsettled s t (d.balance s.customerId)))
      (charge (s.led lead) (unsettled (s.led lead) t (d'.balance s.customerId)))
      (Level t (Function.update lead s.customerId 0) s) c d d' := by
  have hdelta := h.unsettled ha hsingle h.right.le
  have hle' : unsettled (s.led lead) t (d'.balance s.customerId) ≤ d'.balance (s.led lead).customerId := by
    rw [GamingSession.led_customerId]
    exact min_le_left _ _
  have h0 := unsettled_nonneg s t (b.conserved.balanced.nonneg s.customerId)
  have h0' := unsettled_nonneg (s.led lead) t (b'.conserved.balanced.nonneg s.customerId)
  have hle : unsettled s t (d.balance s.customerId) ≤ d.balance s.customerId := min_le_left _ _
  have hbilled' := (b'.billed _ (h.mem hs)).2
  have hbilled : (s.led lead).billedSeconds = s.billedSeconds + lead s.customerId := by
    rw [GamingSession.led_active ha, GamingSession.charge]
  rw [hdelta] at hle' h0' ⊢
  generalize unsettled s t (d.balance s.customerId) = delta at *
  by_cases hlt : s.billedSeconds + delta < 2 ^ 63
  · obtain ⟨e, he, bk⟩ := charge_booked (c := c) b hs h0 hle hlt hclock
    obtain ⟨e', he', bk'⟩ := charge_booked (c := c) b' (h.mem hs) h0' hle' (by omega) hclock'
    refine paired_of_ok he he' ⟨⟨h.booked hs ha hsingle bk bk', ?_, ?_⟩, ?_, ?_, rfl, rfl,
      Function.update_self _ _ _⟩
    · rw [bk.clock]
      exact h.left
    · rw [bk'.clock]
      exact h.right
    · rw [GamingSession.led_active ha, GamingSession.charge_charge, add_sub_cancel]
    · rw [bk.sessions]
      exact Table.mem_save_self hs rfl
  · -- the seconds ahead fit, so some are left that do not
    have := (b.billed s hs).2
    exact paired_of_error (charge_overflow (by omega) (by omega)) (charge_overflow (by omega) (by omega))

end settle

/-! ### Steps on both sides -/

section steps

variable {lead : UUID → ℤ} {d d' : Db} {s₀ s s' : GamingSession}

theorem Abreast.read (h : Abreast t lead d d') :
    Abreast t lead { d with clock := ⟨t, []⟩ } { d' with clock := ⟨t, []⟩ } := by
  refine ⟨⟨le_rfl, h.operations, h.reservations, h.commands, h.cursors, h.sessions, h.balance, h.grants,
    h.nonneg, fun customer hne => ?_⟩, Clock.at_self t, Clock.at_self t⟩
  obtain ⟨x, hx, hxc, hxa, hle⟩ := h.elapsed customer hne
  exact ⟨x, hx, hxc, hxa, hle.trans (x.cutoff_mono h.right.le)⟩

theorem paired_instant (h : Abreast t lead d d') {Q : Instant → Instant → Db → Db → Prop}
    (hQ : Q t t { d with clock := ⟨t, []⟩ } { d' with clock := ⟨t, []⟩ }) :
    Paired instant instant Q c d d' := by
  have hrun : ∀ {k : Db}, k.clock.At t → instant.run c k = .ok (t, { k with clock := ⟨t, []⟩ }) := by
    intro k hk
    show Except.ok (k.clock.next.now, { k with clock := k.clock.next }) = _
    rw [show k.clock.next = ⟨t, []⟩ from hk]
  exact paired_of_ok (hrun h.left) (hrun h.right) hQ

theorem Level.balance_eq (h : Level t lead s₀ s s' d d') :
    d'.balance s₀.customerId = d.balance s₀.customerId := by
  rw [h.balance, h.settled, sub_zero]

/-- Both sides hold the same session. -/
theorem Level.self (h : Level t lead s₀ s s' d d') : Level t lead s₀ s s d d' :=
  ⟨h.toAbreast, rfl, h.mem, h.id, h.customerId, h.settled⟩

theorem Level.read (h : Level t lead s₀ s s' d d') :
    Level t lead s₀ s s' { d with clock := ⟨t, []⟩ } { d' with clock := ⟨t, []⟩ } :=
  ⟨h.toAbreast.read, h.same, h.mem, h.id, h.customerId, h.settled⟩

/-- The same session is written on both sides. -/
theorem Level.put (h : Level t lead s₀ s s' d d') {r : GamingSession} (hid : r.id = s.id)
    (hcust : r.customerId = s.customerId) : Level t lead s₀ r r (d.putSession r) (d'.putSession r) := by
  have h0 : lead r.customerId = 0 := by rw [hcust, h.customerId, h.settled]
  refine ⟨⟨⟨h.clock, h.operations, h.reservations, h.commands, h.cursors, ?_, h.balance, h.grants, h.nonneg,
    fun customer hne => ?_⟩, h.left, h.right⟩, rfl, Table.mem_save_self h.mem hid.symm, hid.trans h.id,
    hcust.trans h.customerId, h.settled⟩
  · show d'.sessions.save r = (d.sessions.save r).edit _ _
    rw [h.sessions]
    exact Table.edit_save (GamingSession.led_zero h0) fun _ _ _ => rfl
  · obtain ⟨x, hx, rfl, hxa, hle⟩ := h.elapsed customer hne
    refine ⟨x, Table.mem_save.2 (.inl ⟨hx, fun hk => hne ?_⟩), rfl, hxa, hle⟩
    rw [Table.eq_of_key hx h.mem (hk.trans hid), h.customerId, h.settled]

theorem paired_insertRow {κ ρ : Type} [DecidableEq κ] {key : ρ → κ} {table : Db → Table key}
    {put : Db → Table key → Db} {row : ρ} {Q : Unit → Unit → Db → Db → Prop} (ht : table d' = table d)
    (hQ : ∀ u, (table d).insert row = some u → Q () () (put d u) (put d' u)) :
    Paired (insertRow table put row) (insertRow table put row) Q c d d' := by
  refine paired_bind (paired_get ?_)
  cases hi : (table d).insert row with
  | none =>
    refine paired_of_error (run_bind_of_error (e := .dataIntegrity) rfl)
      (run_bind_of_error (e := .dataIntegrity) ?_)
    rw [ht, hi]
    rfl
  | some u =>
    refine paired_bind (paired_of_ok (show _ = Except.ok (u, d) from rfl)
      (show _ = Except.ok (u, d') from ?_) (paired_modify (hQ u hi)))
    rw [ht, hi]
    rfl

theorem paired_writeCommand {r : GamingSession} {type : StationCommandType} (h : Level t lead s₀ s s' d d') :
    Paired (writeCommand r type) (writeCommand r type)
      (fun n n' e e' => n' = n ∧ Level t lead s₀ s s' e e') c d d' := by
  have hr := h.read
  unfold writeCommand
  refine paired_bind (paired_instant h.toAbreast (paired_bind (paired_ask (paired_bind (paired_get ?_)))))
  have hcursor : Db.currentCursor { d' with clock := ⟨t, []⟩ } r.resourceId =
      Db.currentCursor { d with clock := ⟨t, []⟩ } r.resourceId := by
    rw [Db.currentCursor, Db.currentCursor]
    exact congrArg (fun k : Table _ => ((k.find? r.resourceId).map (·.lastSequence)).getD 0) h.cursors
  dsimp only
  rw [hcursor]
  refine paired_bind (paired_modify
    (paired_bind (paired_insertRow h.commands fun u _ => paired_pure ⟨rfl, ?_⟩)))
  refine ⟨⟨⟨le_rfl, h.operations, h.reservations, rfl, ?_, h.sessions, h.balance, h.grants, h.nonneg,
    hr.elapsed⟩, Clock.at_self t, Clock.at_self t⟩, h.same, h.mem, h.id, h.customerId, h.settled⟩
  show d'.cursors.upsert _ = d.cursors.upsert _
  rw [h.cursors]

/-- A session is written on both sides, and its station is told. -/
theorem paired_announce {r : GamingSession} {type : StationCommandType}
    {Q : GamingSession → GamingSession → Db → Db → Prop} {f : ℕ → Tx GamingSession}
    (h : Level t lead s₀ s s' d d') (hid : r.id = s.id) (hcust : r.customerId = s.customerId)
    (hf : ∀ n e e', Level t lead s₀ r r e e' → Paired (f n) (f n) Q c e e') : Paired (saveSession r >>=
      fun _ => writeCommand r type >>= f) (saveSession r >>= fun _ => writeCommand r type >>= f)
      Q c d d' := by
  refine paired_bind (paired_modify (paired_bind (paired_mono (paired_writeCommand (h.put hid hcust)) ?_)))
  rintro _ n e e' ⟨rfl, h₁⟩
  exact hf n e e' h₁

theorem paired_close {status : GamingSessionStatus} {reason : String} (h : Level t lead s₀ s s' d d') :
    Paired (close s status reason) (close s' status reason) (Level t lead s₀) c d d' := by
  rw [h.same]
  refine paired_announce h rfl rfl fun n e e' h₁ => ?_
  refine paired_bind (paired_modify (paired_bind (paired_ask ?_)))
  exact paired_bind ((Stateless.orThrow _ _).paired fun _ => paired_pure (h₁.put rfl rfl))

theorem Comparable.clocked (k : Comparable d d') (u u' : Clock) :
    Comparable { d with clock := u } { d' with clock := u' } :=
  ⟨k.single, k.left.congr (k.left.conserved.congr rfl rfl rfl) rfl rfl,
    k.right.congr (k.right.conserved.congr rfl rfl rfl) rfl rfl⟩

theorem paired_settle (h : Abreast t lead d d') (k : Comparable d d') (hs : s ∈ d.sessions)
    (ha : s.status = .active) :
    Paired (settle s t) (settle (s.led lead) t) (Level t (Function.update lead s.customerId 0) s) c
      { d with clock := ⟨t, []⟩ } { d' with clock := ⟨t, []⟩ } := by
  have k' := k.clocked ⟨t, []⟩ ⟨t, []⟩
  have hm := k.left.mode s hs
  rw [settle, settle, if_neg (by simp [ha, hm]), if_neg (by simp [ha, hm]), GamingSession.led_customerId]
  refine paired_bind (paired_get
    (paired_bind (paired_mono (paired_charge h.read rfl rfl k'.left k'.right hs ha fun x hx hxa hxc =>
      k.single x hx s hs hxa ha hxc) ?_)))
  intro s₁ s₁' e e' h₁
  obtain rfl := h₁.same
  refine paired_bind (paired_get ?_)
  rw [h₁.customerId, h₁.balance_eq]
  refine paired_ite Iff.rfl (fun _ => paired_ite Iff.rfl (fun _ => paired_close h₁) fun _ => ?_)
    fun _ => paired_pure h₁
  exact paired_close h₁

theorem paired_finishOrRenew {renew finish : Bool} (h : Level t lead s₀ s s' d d') :
    Paired (finishOrRenew s renew finish) (finishOrRenew s' renew finish) (Level t lead s₀) c d d' := by
  rw [h.same]
  unfold finishOrRenew
  refine paired_bind (paired_ask (paired_ite Iff.rfl (fun _ => ?_) fun _ =>
    paired_ite Iff.rfl (fun _ => ?_) fun _ => ?_))
  · exact paired_close h.self
  · refine paired_bind (paired_instant h.toAbreast (paired_bind (paired_modify (paired_pure ?_))))
    exact h.read.put rfl rfl
  · exact paired_pure h.self

end steps

/-! ### Requests on both sides -/

section requests

variable {lead : UUID → ℤ} {d d' : Db}

theorem stateless_lockCustomer (id : UUID) (active : Bool) : Stateless (lockCustomer id active) :=
  .bind .ask fun _ => .require _ _

theorem stateless_requireAccess (id : UUID) : Stateless (requireAccess id) := .bind .ask fun _ => .require _ _

theorem stateless_financialContext : Stateless financialContext :=
  .bind .ask fun _ => .ite (.bind (.orThrow _ _) fun _ => .pure _) (.pure _)

/-- After a tick nothing is ahead of the session that it names. -/
theorem paired_tick {id : UUID} {renew finish : Bool} (h : Abreast t lead d d') (k : Comparable d d') :
    Paired (tick id renew finish) (tick id renew finish) (fun _ _ e e' => ∃ lead', Abreast t lead' e e' ∧
      ∀ s ∈ e.sessions, s.id = id → s.billingMode = .timeBalance → s.status = .active →
      lead' s.customerId = 0) c d d' := by
  unfold tick
  refine paired_bind (paired_ask (paired_bind (paired_get ?_)))
  rw [h.find?]
  cases hf : d.sessions.find? id with
  | none => exact paired_pure ⟨lead, h, fun s hs hid _ _ => absurd hid (Table.find?_eq_none.1 hf s hs)⟩
  | some s =>
    obtain ⟨hs, hid⟩ := Table.find?_eq_some.1 hf
    have heq : ∀ x ∈ d.sessions, x.id = id → x = s :=
      fun x hx hxid => Table.eq_of_key hx hs (hxid.trans hid.symm)
    simp only [Option.map_some, GamingSession.led_billingMode, GamingSession.led_customerId,
      GamingSession.led_resourceId, GamingSession.led_status]
    refine paired_ite Iff.rfl (fun _ => ?_) fun hm => paired_pure ⟨lead, h, fun x hx hxid hxm => ?_⟩
    · refine paired_bind ((stateless_lockCustomer _ _).paired fun _ =>
        paired_bind ((Stateless.lift _).paired fun _ => ?_))
      refine paired_ite Iff.rfl (fun ha => ?_) fun ha => paired_pure ⟨lead, h, fun x hx hxid _ hxa => ?_⟩
      · refine paired_bind (paired_instant h (paired_bind (paired_mono (paired_settle h k hs ha) ?_)))
        intro s₁ s₁' e e' h₁
        refine paired_bind (paired_mono (paired_finishOrRenew h₁) fun s₂ s₂' e₂ e₂' h₂ =>
          paired_pure ⟨_, h₂.toAbreast, ?_⟩)
        intro x hx hxid _ _
        rw [Table.eq_of_key hx h₂.mem (hxid.trans (hid.symm.trans h₂.id.symm)), h₂.customerId]
        exact h₂.settled
      · exact absurd hxa (heq x hx hxid ▸ ha)
    · exact absurd hxm (heq x hx hxid ▸ hm)

theorem paired_finishByOperator {id : UUID} (h : Abreast t lead d d') (k : Comparable d d') :
    Paired (finishByOperator id) (finishByOperator id)
      (fun _ _ e e' => ∃ lead', Abreast t lead' e e') c d d' := by
  refine paired_bind (paired_mono (paired_tick h k) ?_)
  rintro _ _ e e' ⟨lead', h₁, -⟩
  refine paired_bind (paired_get ?_)
  rw [h₁.find?]
  exact paired_bind (paired_orThrow fun _ _ => paired_pure ⟨lead', h₁⟩)

theorem paired_recover {id : UUID} (h : Abreast t lead d d') (k : Comparable d d') :
    Paired (recover id) (recover id) (fun _ _ e e' => ∃ lead', Abreast t lead' e e') c d d' := by
  refine paired_bind (paired_mono (paired_tick h k) ?_)
  rintro _ _ e e' ⟨lead', h₁, h0⟩
  refine paired_bind (paired_get ?_)
  rw [h₁.find?]
  cases hf : e.sessions.find? id with
  | none => exact paired_pure ⟨lead', h₁⟩
  | some s =>
    obtain ⟨hs, hid⟩ := Table.find?_eq_some.1 hf
    simp only [Option.map_some, GamingSession.led_billingMode, GamingSession.led_status]
    refine paired_ite Iff.rfl (fun ha => ?_) fun _ => paired_pure ⟨lead', h₁⟩
    have hz := h0 s hs hid ha.1 ha.2
    have hlevel : Level t lead' s s (s.led lead') e e' := ⟨h₁, GamingSession.led_zero hz, hs, rfl, rfl, hz⟩
    exact paired_bind (paired_mono (paired_close hlevel) fun _ _ _ _ h₂ => paired_pure ⟨lead', h₂.toAbreast⟩)

theorem Ahead.resourceConflicts (h : Ahead lead d d') (station : UUID) (start stop : Instant)
    (except : Option UUID) : d'.resourceConflicts station start stop except =
    d.resourceConflicts station start stop except := by
  rw [Db.resourceConflicts, h.reservations, Db.resourceConflicts]

theorem paired_boundary {station location customer : UUID} {reservationId : Option UUID} {now : Instant}
    (h : Ahead lead d d') :
    Paired (boundary station location customer reservationId now)
      (boundary station location customer reservationId now) (fun stop stop' e e' => stop' = stop ∧ e = d ∧
        e' = d') c d d' := by
  refine paired_bind (paired_ask
    (paired_bind (paired_get (paired_bind ((Stateless.orThrow _ _).paired fun closing => ?_)))))
  have hlast :
    ∀ stop, Paired (lift (firstStart now (d.resourceConflicts station now stop reservationId) stop))
      (lift (firstStart now (d'.resourceConflicts station now stop reservationId) stop))
      (fun stop stop' e e' => stop' = stop ∧ e = d ∧ e' = d') c d d' := by
    intro stop
    rw [h.resourceConflicts]
    exact (Stateless.lift _).paired fun _ => ⟨rfl, rfl, rfl⟩
  cases reservationId with
  | none => exact paired_bind (paired_pure (hlast _))
  | some id =>
    rw [h.reservations]
    refine paired_bind ((Stateless.orThrow _ _).paired fun booking => ?_)
    exact paired_bind ((Stateless.require _ _).paired fun _ => paired_bind (paired_pure (hlast _)))

theorem paired_refreshEnd {s₀ s s' : GamingSession} (h : Level t lead s₀ s s' d d') :
    Paired (refreshEnd s) (refreshEnd s') (Level t lead s₀) c d d' := by
  rw [h.same]
  refine paired_bind (paired_get ?_)
  rw [h.customerId, h.balance_eq]
  refine paired_ite Iff.rfl (fun _ => paired_close h.self) fun _ => ?_
  refine paired_bind (paired_instant h.toAbreast
    (paired_bind (paired_mono (paired_boundary h.read.toAhead) ?_)))
  rintro limit _ _ _ ⟨rfl, rfl, rfl⟩
  refine paired_announce h.read rfl h.customerId.symm fun n e e' h₁ => ?_
  exact paired_bind (paired_modify (paired_pure (h₁.put rfl rfl)))

/-- A grant is booked on both sides, to a customer of whom nothing is ahead. -/
theorem paired_append {customer actor : UUID} {operation : Option UUID} {seconds : ℤ} {key : String}
    (h : Abreast t lead d d') (h0 : lead customer = 0) :
    Paired (append customer none operation actor seconds .grant none (.grant actor customer key))
      (append customer none operation actor seconds .grant none (.grant actor customer key))
      (fun _ _ e e' => e.sessions = d.sessions ∧ Abreast t lead e e') c d d' := by
  have hbal : d'.balance customer = d.balance customer := by rw [h.balance, h0, sub_zero]
  unfold append
  refine paired_bind (paired_get ?_)
  rw [h.hasEntry, hbal]
  refine paired_ite Iff.rfl (fun _ => paired_pure ⟨rfl, h⟩) fun hfresh => ?_
  rw [Bool.not_eq_true] at hfresh
  refine paired_bind ((Stateless.lift _).paired fun after =>
    paired_bind ((Stateless.require _ _).paired fun _ => ?_))
  have h₁ : Abreast t lead { d with accounts := d.accounts.upsert ⟨customer, after⟩ }
      { d' with accounts := d'.accounts.upsert ⟨customer, after⟩ } := by
    refine ⟨⟨h.clock, h.operations, h.reservations, h.commands, h.cursors, h.sessions, fun other => ?_,
      h.grants, h.nonneg, h.elapsed⟩, h.left, h.right⟩
    show (((d'.accounts.upsert _).find? other).map _).getD
      0 = (((d.accounts.upsert _).find? other).map _).getD 0 - _
    rw [Table.find?_upsert, Table.find?_upsert]
    split
    · rename_i hother
      rw [show other = customer from hother, h0, sub_zero]
    · exact h.balance other
  refine paired_bind (paired_modify (paired_bind (paired_instant h₁ ?_)))
  have h₂ := h₁.read
  let e : LedgerEntry :=
    ⟨customer, none, operation, actor, seconds, after, .grant, none, .grant actor customer key, t⟩
  obtain ⟨u, hu, -⟩ := Db.post_of_fresh (show d.hasEntry e.sourceKey = false from hfresh)
  obtain ⟨u', hu', -⟩ := Db.post_of_fresh (show d'.hasEntry e.sourceKey = false by rwa [h.hasEntry])
  have hput : ∀ {k : Db} {v : Table LedgerEntry.sourceKey}, k.ledger.insert e = some v →
      (insertRow Db.ledger (fun db t => { db with ledger := t }) e).run c k = .ok
        ((), { k with ledger := v }) := by
    intro k v hv
    simp only [insertRow, commits_bind, commits_get, commits_orThrow, commits_modify]
    exact ⟨_, _, ⟨rfl, rfl⟩, v, _, ⟨hv, rfl⟩, rfl⟩
  refine paired_of_ok (hput hu) (hput hu')
    ⟨rfl, ⟨⟨le_rfl, h.operations, h.reservations, h.commands, h.cursors, h.sessions, h₂.balance,
      fun actor' customer' key' => ?_, h.nonneg, h₂.elapsed⟩, h₂.left, h₂.right⟩⟩
  show u'.find? _ = u.find? _
  by_cases hk : SourceKey.grant actor' customer' key' = e.sourceKey
  · rw [Table.find?_eq_some.2 ⟨(Table.mem_insert hu').2 (.inr rfl), hk.symm⟩,
      Table.find?_eq_some.2 ⟨(Table.mem_insert hu).2 (.inr rfl), hk.symm⟩]
  · rw [Table.find?_insert hu' hk, Table.find?_insert hu hk]
    exact h.grants _ _ _

/-- The settlement at the start of a grant leaves nothing ahead of the customer. -/
theorem paired_settleActive {customer : UUID} (h : Abreast t lead d d') (k : Comparable d d') :
    Paired (settleActive (d.activeByCustomer customer)) (settleActive (d'.activeByCustomer customer))
      (fun a a' e e' => a' = a ∧ ∃ lead', Abreast t lead' e e' ∧ lead' customer = 0 ∧
        ∀ s, a = some s → s ∈ e.sessions ∧ s.customerId = customer) c d d' := by
  rw [h.activeByCustomer]
  cases hf : d.activeByCustomer customer with
  | none =>
    refine paired_pure ⟨rfl, lead, h, ?_, fun s hs => by cases hs⟩
    by_contra hne
    obtain ⟨s, hs, hcust, ha, -⟩ := h.elapsed customer hne
    exact Db.activeByCustomer_eq_none.1 hf s hs hcust ha
  | some s =>
    obtain ⟨hs, rfl, ha⟩ := Db.activeByCustomer_eq_some hf
    refine paired_bind (paired_instant h (paired_bind (paired_mono (paired_settle h k hs ha) ?_)))
    intro s₁ s₁' e e' h₁
    refine paired_pure ⟨by rw [h₁.same], _, h₁.toAbreast, h₁.settled, ?_⟩
    rintro _ ⟨⟩
    exact ⟨h₁.mem, h₁.customerId⟩

theorem paired_sell {operation : FinancialOperation} {key : String} (h : Abreast t lead d d')
    (k : Comparable d d') : Paired (sell operation (.grant operation.actorId operation.customerId key))
      (sell operation (.grant operation.actorId operation.customerId key))
      (fun _ _ e e' => ∃ lead', Abreast t lead' e e') c d d' := by
  unfold sell
  have hlock : Paired (lockActive operation.customerId) (lockActive operation.customerId)
    (fun a a' e e' => e = d ∧ e' = d' ∧
      a = d.activeByCustomer operation.customerId ∧
      a' = d'.activeByCustomer operation.customerId) c d d' := by
    refine paired_bind (paired_ask (paired_bind (paired_get ?_)))
    rw [h.activeByCustomer]
    cases d.activeByCustomer operation.customerId with
    | none => exact paired_pure ⟨rfl, rfl, rfl, rfl⟩
    | some s =>
      simp only [Option.map_some, GamingSession.led_resourceId]
      exact paired_bind ((Stateless.lift _).paired fun _ => paired_pure ⟨rfl, rfl, rfl, rfl⟩)
  refine paired_bind (paired_mono hlock ?_)
  rintro _ _ _ _ ⟨rfl, rfl, rfl, rfl⟩
  refine paired_bind (paired_mono (paired_settleActive h k) ?_)
  rintro _ a e e' ⟨rfl, lead', h₁, h0, hmem⟩
  refine paired_bind (paired_instant h₁ (paired_bind (paired_insertRow h₁.operations fun u _ => ?_)))
  have h₂ : Abreast t lead' { e with clock := ⟨t, []⟩, operations := u }
      { e' with clock := ⟨t, []⟩, operations := u } :=
    ⟨⟨le_rfl, rfl, h₁.reservations, h₁.commands, h₁.cursors, h₁.sessions, h₁.balance, h₁.grants, h₁.nonneg,
      h₁.read.elapsed⟩, Clock.at_self t, Clock.at_self t⟩
  refine paired_bind (paired_mono (paired_append h₂ h0) ?_)
  rintro _ _ e₂ e₂' ⟨hsess, h₃⟩
  cases a with
  | none => exact paired_pure ⟨lead', h₃⟩
  | some s =>
    obtain ⟨hs, hcust⟩ := hmem s rfl
    refine paired_ite Iff.rfl (fun _ => ?_) fun _ => paired_pure ⟨lead', h₃⟩
    have hs₂ : s ∈ e₂.sessions := by
      rw [hsess]
      exact hs
    have hlevel : Level t lead' s s s e₂ e₂' := ⟨h₃, rfl, hs₂, rfl, rfl, hcust ▸ h0⟩
    exact paired_bind (paired_mono (paired_refreshEnd hlevel) fun _ _ _ _ h₄ =>
      paired_pure ⟨lead', h₄.toAbreast⟩)

theorem paired_account {customer : UUID} (h : Abreast t lead d d') :
    Paired (account customer) (account customer) (fun _ _ e e' => ∃ lead', Abreast t lead' e e') c d d' := by
  refine paired_bind ((stateless_requireAccess _).paired fun _ => paired_bind (paired_ask (paired_bind ?_)))
  exact paired_instant h (paired_bind (paired_get (paired_pure ⟨lead, h.read⟩)))

theorem Ahead.operationOf (h : Ahead lead d d') (actor customer : UUID) (key : String) :
    d'.operationOf (.grant actor customer key) = d.operationOf (.grant actor customer key) := by
  rw [Db.operationOf, h.grants, h.operations, Db.operationOf]

theorem paired_grant {customer : UUID} {request : Grant} {key : String} (h : Abreast t lead d d')
    (k : Comparable d d') : Paired (grant customer request key) (grant customer request key)
      (fun _ _ e e' => ∃ lead', Abreast t lead' e e') c d d' := by
  unfold grant
  refine paired_bind ((Stateless.bind .ask fun _ => .require _ _).paired fun _ => paired_bind (paired_ask ?_))
  refine paired_bind ((Stateless.bind .ask fun _ => .require _ _).paired fun _ => ?_)
  refine paired_bind ((stateless_lockCustomer _ _).paired fun _ => ?_)
  refine paired_bind (stateless_financialContext.paired fun context => ?_)
  refine paired_bind ((Stateless.lift _).paired fun _ =>
    paired_bind ((Stateless.lift _).paired fun location => ?_))
  refine paired_bind ((Stateless.require _ _).paired fun _ =>
    paired_bind ((Stateless.orThrow _ _).paired fun confirmed => ?_))
  refine paired_bind (paired_get ?_)
  rw [h.hasEntry, h.operationOf]
  refine paired_ite Iff.rfl (fun _ => ?_) fun _ => ?_
  · refine paired_bind ((Stateless.orThrow _ _).paired fun original => ?_)
    exact paired_bind ((Stateless.require _ _).paired fun _ => paired_account h)
  · refine paired_bind ((Stateless.orThrow _ _).paired fun price =>
      paired_bind ((Stateless.require _ _).paired fun _ => ?_))
    refine paired_bind ((Stateless.require _ _).paired fun _ => ?_)
    refine paired_bind (paired_mono (paired_sell h k) ?_)
    rintro _ _ e e' ⟨lead', h₁⟩
    exact paired_account h₁

end requests

/-! ### Denser runs -/

/-- The requests that settle sessions. -/
def Op.Settles : Op → Prop
  | .tick _ _ _ => True
  | .grant _ _ _ => True
  | .finishByOperator _ => True
  | .recover _ => True
  | _ => False

/-- `rs'`, served from `d`, has the requests of `rs` and more ticks without renewal, each before its session
ends and before its metered lease does. Every request is served at one instant. -/
inductive Denser : Db → List Request → List Request → Prop
  | nil (d : Db) : Denser d [] []
  | both {d : Db} {r : Request} {rs rs' : List Request} {t : Instant} (hop : r.op.Settles)
      (hr : r.call.readings = [t]) (hnow : d.clock.now ≤ t) (h : Denser (step d r) rs rs') :
      Denser d (r :: rs) (r :: rs')
  | extra {d : Db} {r : Request} {id : UUID} {rs rs' : List Request} {t : Instant}
      (hop : r.op = .tick id false false) (hr : r.call.readings = [t]) (hnow : d.clock.now ≤ t)
      (hbefore : ∀ s ∈ d.sessions, s.id = id → s.status = .active → t < s.endsAt ∧ t < s.meteredLeaseUntil)
      (h : Denser (step d r) rs rs') : Denser d rs (r :: rs')

/-- Two states bill the same: to the sessions that are over, and at any later settlement to those that run. -/
structure SameBill (d d' : Db) : Prop where
  ids : d'.sessions.rows.map (·.id) = d.sessions.rows.map (·.id)
  status : ∀ s ∈ d.sessions, ∀ s' ∈ d'.sessions, s'.id = s.id → s'.status = s.status
  ended : ∀ s ∈ d.sessions, ∀ s' ∈ d'.sessions, s'.id = s.id → s.status ≠ .active →
    s'.billedSeconds = s.billedSeconds
  running : ∀ s ∈ d.sessions, ∀ s' ∈ d'.sessions, s'.id = s.id → s.status = .active →
    ∀ now, d'.clock.now ≤ now → s'.billedSeconds + unsettled s' now (d'.balance s'.customerId) =
      s.billedSeconds + unsettled s now (d.balance s.customerId)

section denser

variable {lead : UUID → ℤ} {d d' : Db}

theorem Reachable.comparable (hd : Reachable d) (hd' : Reachable d') : Comparable d d' := by
  obtain ⟨L, o⟩ := hd.orderly
  exact ⟨o.single, hd.bounded, hd'.bounded⟩

theorem Ahead.listen (h : Ahead lead d d') (hnow : d'.clock.now ≤ t) :
    Abreast t lead (d.listen [t]) (d'.listen [t]) :=
  ⟨⟨h.clock, h.operations, h.reservations, h.commands, h.cursors, h.sessions, h.balance, h.grants, h.nonneg,
    h.elapsed⟩, Clock.at_listen (h.clock.trans hnow), Clock.at_listen hnow⟩

theorem Ahead.unlisten {readings : List Instant} (h : Ahead lead (d.listen readings) d') : Ahead lead d d' :=
  ⟨h.clock, h.operations, h.reservations, h.commands, h.cursors, h.sessions, h.balance, h.grants,
    h.nonneg, h.elapsed⟩

/-- A request that is served in both runs. -/
theorem Ahead.step_both (h : Ahead lead d d') (k : Comparable d d') {r : Request} (hop : r.op.Settles)
    (hr : r.call.readings = [t]) (hnow : d'.clock.now ≤ t) : ∃ lead', Ahead lead' (step d r) (step d' r) := by
  have h₁ := h.listen hnow
  have k₁ : Comparable (d.listen [t]) (d'.listen [t]) := k.clocked _ _
  unfold step
  rw [hr]
  refine commit_of_paired (R := fun e e' => ∃ lead', Ahead lead' e e') ⟨lead, h₁.toAhead⟩ ?_
  have hweaken : ∀ {x y : Tx Unit}, Paired x y (fun _ _ e e' => ∃ lead', Abreast t lead' e e') r.call
    (d.listen [t])
      (d'.listen [t]) → Paired x y (fun _ _ e e' => ∃ lead', Ahead lead' e e') r.call (d.listen [t])
        (d'.listen [t]) :=
    fun hp => paired_mono hp fun _ _ _ _ ha => ha.imp fun _ ha => ha.toAhead
  cases hro : r.op with
  | tick id renew finish =>
    exact hweaken (paired_mono (paired_tick h₁ k₁) fun _ _ _ _ ha => ha.imp fun _ ha => ha.1)
  | grant customerId request key =>
    exact hweaken (paired_bind (paired_mono (paired_grant h₁ k₁) fun _ _ _ _ ha => paired_pure ha))
  | finishByOperator id => exact hweaken (paired_finishByOperator h₁ k₁)
  | recover id => exact hweaken (paired_recover h₁ k₁)
  | _ => exact absurd hop (by simp [hro, Op.Settles])

/-- Before its end a session that is settled keeps some seconds. -/
theorem unsettled_lt {s : GamingSession} {balance : ℤ} (hpaid : s.endsAt ≤ s.lastBilledAt.plusSeconds balance)
    (hbilled : s.lastBilledAt ≤ t) (ht : t < s.endsAt) : unsettled s t balance < balance := by
  have hlt : secondsBetween s.lastBilledAt t < balance := by
    by_contra hge
    exact absurd (le_secondsBetween_iff.1 (not_lt.1 hge)) (not_le.2 (ht.trans_le hpaid))
  have hmono := secondsBetween_mono (s := s.lastBilledAt) (show s.cutoff t ≤ t from min_le_left _ _)
  have h0 := secondsBetween_nonneg hbilled
  unfold unsettled
  omega

/-- A tick of the denser run only. -/
theorem wp_tick_extra {id : UUID} (h : Abreast t lead d d') (k : Comparable d d')
    (hbilled : ∀ s ∈ d'.sessions, s.status = .active → s.lastBilledAt ≤ d'.clock.now)
    (hbefore : ∀ s ∈ d'.sessions, s.id = id → s.status = .active → t < s.endsAt ∧ t < s.meteredLeaseUntil) :
    wp (tick id false false) (fun _ e' => ∃ lead', Ahead lead' d e') c d' := by
  simp only [tick, wp_bind, wp_ask, wp_get]
  rw [h.find?]
  cases hf : d.sessions.find? id with
  | none => exact wp_pure.2 ⟨lead, h.toAhead⟩
  | some s =>
    obtain ⟨hs, hid⟩ := Table.find?_eq_some.1 hf
    simp only [Option.map_some, wp_ite, wp_bind, wp_pure, lockCustomer, wp_ask, wp_require,
      wp_lift, wp_instant]
    refine ⟨fun hm _ _ _ => ⟨fun ha => ?_, fun _ => ⟨lead, h.toAhead⟩⟩, fun _ => ⟨lead, h.toAhead⟩⟩
    have ha' : s.status = .active := by rwa [GamingSession.led_status] at ha
    have hmem := h.mem hs
    obtain ⟨hends, hlease⟩ := hbefore _ hmem (by rw [GamingSession.led_id]; exact hid) ha
    have hsingle : ∀ x ∈ d.sessions, x.status = .active → x.customerId = s.customerId → x = s :=
      fun x hx hxa hxc => k.single x hx s hs hxa ha' hxc
    rw [show d'.clock.next = ⟨t, []⟩ from h.right]
    have b' := (k.clocked ⟨t, []⟩ ⟨t, []⟩).right
    have h₁ : Ahead lead d { d' with clock := ⟨t, []⟩ } :=
      { h.toAhead with clock := h.clock.trans h.right.le, elapsed := h.read.elapsed }
    have hlt := unsettled_lt (k.right.paid _ hmem ha) ((hbilled _ hmem ha).trans h.right.le) hends
    have h0 := unsettled_nonneg (s.led lead) t (k.right.conserved.balanced.nonneg (s.led lead).customerId)
    have hcut := @charge_lastBilledAt (s.led lead) t (d'.balance (s.led lead).customerId)
    rw [settle, if_neg (by simpa [ha'] using hm)]
    simp only [wp_bind, wp_get]
    rw [show ({ d' with clock := ⟨t, []⟩ } : Db).balance (s.led lead).customerId = d'.balance
      (s.led lead).customerId from rfl]
    generalize unsettled (s.led lead) t (d'.balance (s.led lead).customerId) = delta at *
    by_cases hfit : (s.led lead).billedSeconds + delta < 2 ^ 63
    · obtain ⟨e', he', bk⟩ := charge_booked (c := c) b' hmem h0 hlt.le hfit rfl
      refine wp_of_run he' ?_
      have hbal : e'.balance (s.led lead).customerId ≠ 0 := by
        rw [bk.balance, if_pos rfl]
        show d'.balance (s.led lead).customerId - delta ≠ 0
        omega
      have hgo : ¬ (e'.balance ((s.led lead).charge delta).customerId = 0 ∨
        ((s.led lead).charge delta).endsAt ≤ t ∨
          ((s.led lead).charge delta).meteredLeaseUntil ≤ t) := by
        rw [not_or, not_or, not_le, not_le]
        exact ⟨hbal, hends, hlease⟩
      rw [if_neg hgo]
      simp only [wp_pure, finishOrRenew, wp_bind, wp_ask, wp_ite]
      refine ⟨fun hn => absurd hn.1 (by simp), fun _ => ⟨fun hn => absurd hn.1 (by simp), fun _ => ?_⟩⟩
      refine ⟨_, h₁.ticked hs ha' hsingle h0 (fun hpos => (hcut hpos).trans ?_) bk⟩
      simp only [GamingSession.cutoff, GamingSession.led_endsAt, GamingSession.led_meteredLeaseUntil, le_refl]
    · intro a e' he'
      rw [charge_overflow (by have := (k.right.billed _ hmem).2; omega) (not_lt.1 hfit)] at he'
      cases he'

/-- A denser run stays ahead. -/
theorem Denser.ahead {rs rs' : List Request} (hden : Denser d' rs rs') (hd : Reachable d) (hd' : Reachable d')
    (h : Ahead lead d d') : ∃ lead', Ahead lead' (run d rs) (run d' rs') := by
  induction hden generalizing d lead with
  | nil d' => exact ⟨lead, h⟩
  | @both d' r rs rs' t hop hr hnow hden ih =>
    obtain ⟨lead₁, h₁⟩ := h.step_both (hd.comparable hd') hop hr hnow
    exact ih (hd.run [r]) (hd'.run [r]) h₁
  | @extra d' r id rs rs' t hop hr hnow hbefore hden ih =>
    obtain ⟨L, o⟩ := hd'.orderly
    have h₁ := h.listen hnow
    have hstep : ∃ lead', Ahead lead' d (step d' r) := by
      unfold step
      rw [hop, hr]
      refine commit_of_wp (P := fun e' => ∃ lead', Ahead lead' d e') ⟨lead, h₁.toAhead.unlisten⟩ ?_
      refine wp_mono (wp_tick_extra h₁ ((hd.comparable hd').clocked _ _) o.billed hbefore) ?_
      rintro _ e' ⟨lead', ha⟩
      exact ⟨lead', ha.unlisten⟩
    obtain ⟨lead₁, h₂⟩ := hstep
    exact ih hd (hd'.run [r]) h₂

/-- Of two states one of which is ahead, both bill the same. -/
theorem Ahead.sameBill (h : Ahead lead d d') (k : Comparable d d') : SameBill d d' := by
  have heq : ∀ s ∈ d.sessions, ∀ s' ∈ d'.sessions, s'.id = s.id → s' = s.led lead := fun s hs s' hs' hid =>
    Table.eq_of_key hs' (h.mem hs) (by rw [hid, GamingSession.led_id])
  refine ⟨?_, fun s hs s' hs' hid => ?_, fun s hs s' hs' hid hne => ?_, fun s hs s' hs' hid ha now hnow => ?_⟩
  · rw [h.sessions]
    show (d.sessions.rows.map _).map _ = _
    rw [List.map_map]
    exact List.map_congr_left fun s _ => GamingSession.led_id
  · rw [heq s hs s' hs' hid, GamingSession.led_status]
  · rw [heq s hs s' hs' hid, GamingSession.led_inactive hne]
  · rw [heq s hs s' hs' hid, GamingSession.led_customerId,
      h.unsettled ha (fun x hx hxa hxc => k.single x hx s hs hxa ha hxc) hnow, GamingSession.led_active ha]
    show s.billedSeconds + lead s.customerId + _ = _
    omega

end denser

/-- The seconds billed do not depend on when sessions are settled. A session that an activation opened and
that is still active after a settlement has been billed all whole seconds since its start; one that the
settlement closes has been billed those up to its cutoff, as far as the customer had seconds. So runs that
differ by additional ticks bill the same. -/
theorem Reachable.metering_schedule_independent {db₀ : Db} (hdb : Reachable db₀) :
    (∀ r s₁ rs db s now c, r.op.Activates → s₁ ∈ (step db₀ r).sessions → (∀ x ∈ db₀.sessions, x.id ≠ s₁.id) →
      Quiet (GManager.run (step db₀ r) rs) db → s ∈ db.sessions → s.id = s₁.id → s.status = .active →
      s.billingMode = .timeBalance → db.clock.now ≤ now →
      wp (settle s now) (Metered
        (db₀.balance s₁.customerId + (db.grantedTo s₁.customerId - db₀.grantedTo s₁.customerId)) s now) c db) ∧
    ∀ rs rs', Denser db₀ rs rs' → SameBill (GManager.run db₀ rs) (GManager.run db₀ rs') := by
  refine ⟨fun r s₁ rs db s now c hop hs₁ hnew q hs hid ha hm hnow => ?_, fun rs rs' hden => ?_⟩
  · have hrun : Reachable (GManager.run (step db₀ r) rs) := hdb.run (r :: rs)
    have hsup := hdb.supplied hop hs₁ hnew rs
    obtain ⟨L, o⟩ := hrun.orderly
    rw [q.sessions] at hs
    obtain ⟨hcust, hsum⟩ := hsup.supply s hs hid ha
    have hconserved := hrun.conserved.quiet q
    have hmetered := wp_settle_metered (c := c) hconserved (q.sessions ▸ hs) ha hm
      ((o.billed s hs ha).trans (q.clock.trans hnow))
    have hsupply : db.balance s.customerId + s.billedSeconds =
        db₀.balance s₁.customerId + (db.grantedTo s₁.customerId - db₀.grantedTo s₁.customerId) := by
      rw [hcust, q.balance, Db.grantedTo_congr q.ledger]
      omega
    rwa [hsupply] at hmetered
  · obtain ⟨lead, h⟩ := hden.ahead hdb hdb (.refl db₀)
    exact h.sameBill ((hdb.run rs).comparable (hdb.run rs'))

theorem metering_schedule_independent_arcade :
    (∀ s ∈ Arcade.evening.sessions, s.status = .active →
      wp (settle s 71250000) (Metered 1800 s 71250000) (Arcade.login 71250000).call Arcade.evening) ∧
    SameBill (run Arcade.evening [Arcade.request 0 90500000 (.finishByOperator 102)])
      (run Arcade.evening [Arcade.request 0 80900000 (.tick 102 false false),
        Arcade.request 0 90500000 (.finishByOperator 102)]) := by
  refine ⟨fun s hs ha => ?_, ?_⟩
  · obtain ⟨s₁, hs₁, hid₁, hcust₁⟩ : ∃ s₁ ∈ (step Arcade.afternoon (Arcade.login 12000000)).sessions.rows,
        s₁.id = 102 ∧ s₁.customerId = 2 := by decide +kernel
    have hnone : ∀ x ∈ Arcade.afternoon.sessions, x.id ≠ s₁.id := by
      rw [hid₁]
      decide +kernel
    have h :=
      (Reachable.metering_schedule_independent Arcade.reachable_afternoon).1 (Arcade.login 12000000) s₁
      [Arcade.request 103 20500000 .lease, Arcade.request 104 70250000 .lease] Arcade.evening s 71250000
      (Arcade.login 71250000).call trivial hs₁ hnone (.refl _) hs
    rw [hid₁, hcust₁, show Arcade.afternoon.balance 2 +
      (Arcade.evening.grantedTo 2 - Arcade.afternoon.grantedTo 2) = 1800 by decide +kernel] at h
    have hrow : s.id = 102 ∧ s.billingMode = .timeBalance := by
      clear h
      revert s
      decide +kernel
    exact h hrow.1 ha hrow.2 (by decide +kernel)
  · refine (Reachable.metering_schedule_independent Arcade.reachable_evening).2 _ _ ?_
    refine .extra (t := 80900000) rfl rfl (by decide +kernel) (fun s hs => ?_) ?_
    · revert s
      decide +kernel
    · exact .both (t := 90500000) trivial rfl (by decide +kernel) (.nil _)

end GManager
