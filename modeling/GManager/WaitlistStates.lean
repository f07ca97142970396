import GManager.WaitlistMatcher

/-!
# The states of entries and offers

Entries and offers are two linked state machines. `Change` lists what the operations do to them, each with all
that has been checked when it is done, and `Consistent` is the link, which every change keeps: an entry has at
most one offer that has not expired, of its own status, and no two open offers clash.
-/

namespace GManager.Waitlist

open Txn

/-! ### Slots -/

/-- An employee, and perhaps a resource, for a span of time. -/
structure Slot where
  employeeId : UUID
  resourceId : Option UUID
  start : Instant
  stop : Instant
  deriving DecidableEq, Repr

/-- The slots overlap on their employee or on their resource. -/
def Slot.Clash (s s' : Slot) : Prop :=
  Overlaps s.start s.stop s'.start s'.stop ∧
    (s.employeeId = s'.employeeId ∨ ∃ id ∈ s'.resourceId, s.resourceId = some id)

instance (s s' : Slot) : Decidable (s.Clash s') := inferInstanceAs (Decidable (_ ∧ _))

theorem Slot.Clash.symm {s s' : Slot} (h : s.Clash s') : s'.Clash s := by
  refine ⟨h.1.symm, h.2.imp Eq.symm ?_⟩
  rintro ⟨id, hid, hs⟩
  exact ⟨id, hs, hid⟩

/-- What an offer to an entry keeps for it. -/
def slotOf (o : WaitlistOffer) (e : WaitlistEntry) : Slot :=
  ⟨o.employeeId, o.resourceId, e.desiredStart, e.desiredEnd.getD e.desiredStart⟩

/-! ### The link -/

/-- An offer and its entry. -/
structure Linked (db : Db) (o : WaitlistOffer) (e : WaitlistEntry) : Prop where
  opened : o.status = .offered → e.status = .offered ∧ o.activeKey = some e.id
  idle : o.status ≠ .offered → o.activeKey = none
  accepted : o.status = .accepted → e.status = .accepted ∧
    ∃ r ∈ db.reservations, o.reservationId = some r.id ∧ r.customerId = e.customerId

/-- An entry by itself: its key says whether it is in the queue, and an offer has fixed its end. -/
structure Wellformed (e : WaitlistEntry) : Prop where
  key : e.activeKey.isSome ↔ e.status = .waiting ∨ e.status = .offered
  ends : e.status = .offered → e.desiredEnd.isSome

structure Consistent (w : WaitlistDb) : Prop where
  entry : ∀ o ∈ w.offers, ∃ e ∈ w.entries, e.id = o.entryId
  linked : ∀ o ∈ w.offers, ∀ e ∈ w.entries, e.id = o.entryId → Linked w.db o e
  opened : ∀ e ∈ w.entries, e.status = .offered → ∃ o ∈ w.offers, o.entryId = e.id ∧ o.status = .offered
  accepted : ∀ e ∈ w.entries, e.status = .accepted → ∃ o ∈ w.offers, o.entryId = e.id ∧ o.status = .accepted
  single : ∀ o ∈ w.offers, ∀ o' ∈ w.offers, o.entryId = o'.entryId → o.status ≠ .expired →
    o'.status ≠ .expired → o = o'
  wellformed : ∀ e ∈ w.entries, Wellformed e
  keys : ∀ e ∈ w.entries, ∀ e' ∈ w.entries, e.activeKey.isSome → e.activeKey = e'.activeKey → e = e'
  apart : ∀ o ∈ w.offers, ∀ o' ∈ w.offers, o.status = .offered → o'.status = .offered → o ≠ o' →
    ∀ e ∈ w.entries, ∀ e' ∈ w.entries, e.id = o.entryId → e'.id = o'.entryId →
    ¬ (slotOf o e).Clash (slotOf o' e')

/-! ### Changes -/

/-- The other tables may have changed, but a reservation stays with its customer. -/
structure Remembers (db db' : Db) : Prop where
  reservations : ∀ r ∈ db.reservations, ∃ r' ∈ db'.reservations, r'.id = r.id ∧ r'.customerId = r.customerId
  orderly : (∃ L, Orderly L db) → ∃ L, Orderly L db'

/-- One change of the entries and offers. -/
inductive Change (w : WaitlistDb) : WaitlistDb → Prop
  | other {db : Db} (h : Remembers w.db db) : Change w { w with db }
  | entered {e : WaitlistEntry} {entries : Table WaitlistEntry.id} (hs : e.status = .waiting)
      (hk : ∃ key, e.activeKey = some key ∧ ∀ x ∈ w.entries, x.activeKey ≠ some key)
      (hi : w.entries.insert e = some entries) : Change w { w with entries }
  /-- An entry that waits is edited or cancelled. -/
  | edited {e e' : WaitlistEntry} (he : e ∈ w.entries) (hs : e.status = .waiting) (hid : e'.id = e.id)
      (hs' : (e'.status = .waiting ∧ ∃ key, e'.activeKey = some key ∧
        ∀ x ∈ w.entries, x.activeKey = some key → x = e) ∨ e'.status = .cancelled ∧ e'.activeKey = none) :
        Change w (w.putEntry e')
  /-- An open offer expires or is withdrawn. -/
  | released {e e' : WaitlistEntry} {o : WaitlistOffer} (he : e ∈ w.entries) (ho : o ∈ w.offers)
      (hentry : o.entryId = e.id) (hs : o.status = .offered) (hid : e'.id = e.id)
      (hs' : (e'.status = .waiting ∧ e'.activeKey = e.activeKey) ∨ e'.status = .cancelled ∧
        e'.activeKey = none) :
      Change w ((w.putOffer (closed o)).putEntry e')
  | issued {e e' : WaitlistEntry} {o : WaitlistOffer} {offers : Table WaitlistOffer.id} (he : e ∈ w.entries)
      (hs : e.status = .waiting) (hid : e'.id = e.id) (hs' : e'.status = .offered)
        (hk : e'.activeKey = e.activeKey)
      (hends : e'.desiredEnd.isSome) (ho : o.entryId = e.id ∧ o.status = .offered ∧ o.activeKey = some e.id)
      (hi : w.offers.insert o = some offers)
      (hapart : ∀ x ∈ w.offers, x.status = .offered → ∀ y ∈ w.entries, y.id = x.entryId →
        ¬ (slotOf x y).Clash (slotOf o e')) : Change w ({ w with offers }.putEntry e')
  | accepted {e e' : WaitlistEntry} {o o' : WaitlistOffer} {r : Reservation} (he : e ∈ w.entries)
      (ho : o ∈ w.offers) (hentry : o.entryId = e.id) (hs : o.status = .offered) (hid : e'.id = e.id)
        (hs' : e'.status = .accepted)
      (hk : e'.activeKey = none) (hid' : o'.id = o.id) (hentry' : o'.entryId = o.entryId)
        (ho' : o'.status = .accepted)
      (hk' : o'.activeKey = none) (hr : r ∈ w.db.reservations) (hres : o'.reservationId = some r.id)
      (hcust : r.customerId = e'.customerId) : Change w ((w.putOffer o').putEntry e')

/-- A sequence of changes. -/
abbrev Changes : WaitlistDb → WaitlistDb → Prop := Relation.ReflTransGen Change

section changes

variable {w w' : WaitlistDb} {e e' x : WaitlistEntry} {o o' : WaitlistOffer}

theorem mem_putEntry (he : e ∈ w.entries) (hid : e'.id = e.id) :
    x ∈ (w.putEntry e').entries ↔ x = { e' with version := e'.version + 1 } ∨ x ∈ w.entries ∧ x.id ≠ e.id :=
  @Table.mem_save_of_mem _ _ _ _ _ _ { e' with version := e'.version + 1 } _ he hid

theorem mem_putOffer {y : WaitlistOffer} (ho : o ∈ w.offers) (hid : o'.id = o.id) :
    y ∈ (w.putOffer o').offers ↔ y = o' ∨ y ∈ w.offers ∧ y.id ≠ o.id := Table.mem_save_of_mem ho hid

theorem Linked.db {db db' : Db} (h : Linked db o e) (hr : Remembers db db') : Linked db' o e := by
  refine ⟨h.opened, h.idle, fun hs => ?_⟩
  obtain ⟨hst, r, hr₁, hid, hc⟩ := h.accepted hs
  obtain ⟨r', hr', hid', hc'⟩ := hr.reservations r hr₁
  exact ⟨hst, r', hr', hid.trans (congrArg some hid'.symm), hc'.trans hc⟩

/-- An offer that has expired is linked to its entry whatever becomes of it. -/
theorem Linked.expired {db : Db} (hs : o.status = .expired) (hk : o.activeKey = none) : Linked db o e :=
  ⟨fun h => absurd (hs.symm.trans h) (by decide), fun _ => hk, fun h => absurd (hs.symm.trans h) (by decide)⟩

theorem Consistent.other {db : Db} (h : Consistent w) (hr : Remembers w.db db) : Consistent { w with db } :=
  ⟨h.entry, fun o ho e he hid => (h.linked o ho e he hid).db hr, h.opened, h.accepted, h.single,
    h.wellformed, h.keys, h.apart⟩

/-- An entry that waits has no offer but expired ones. -/
theorem Consistent.expired_of_waiting (h : Consistent w) (he : e ∈ w.entries) (hs : e.status ≠ .offered)
    (hs' : e.status ≠ .accepted) (ho : o ∈ w.offers) (hid : o.entryId = e.id) : o.status = .expired := by
  have hl := h.linked o ho e he hid.symm
  cases hst : o.status with
  | offered => exact absurd (hl.opened hst).1 hs
  | accepted => exact absurd (hl.accepted hst).1 hs'
  | expired => rfl

/-- One entry has been written, together with its own offers. -/
structure Rewritten (w w' : WaitlistDb) (e : WaitlistEntry) : Prop where
  db : w'.db = w.db
  entries : ∀ x, x ∈ w'.entries ↔ x = e ∨ x ∈ w.entries ∧ x.id ≠ e.id
  offers : ∀ o, o.entryId ≠ e.id → (o ∈ w'.offers ↔ o ∈ w.offers)

/-- An entry and its own offers, beside those of the other entries. -/
structure Fitting (w w' : WaitlistDb) (e : WaitlistEntry) : Prop where
  linked : ∀ o ∈ w'.offers, o.entryId = e.id → Linked w.db o e
  opened : e.status = .offered → ∃ o ∈ w'.offers, o.entryId = e.id ∧ o.status = .offered
  accepted : e.status = .accepted → ∃ o ∈ w'.offers, o.entryId = e.id ∧ o.status = .accepted
  single : ∀ o ∈ w'.offers, ∀ o' ∈ w'.offers, o.entryId = e.id → o'.entryId = e.id → o.status ≠ .expired →
    o'.status ≠ .expired → o = o'
  wellformed : Wellformed e
  key : ∀ x ∈ w.entries, x.id ≠ e.id → e.activeKey.isSome → x.activeKey ≠ e.activeKey
  apart : ∀ o ∈ w'.offers, o.entryId = e.id → o.status = .offered → ∀ x ∈ w.offers, x.status = .offered →
    x.entryId ≠ e.id → ∀ y ∈ w.entries, y.id = x.entryId → ¬ (slotOf x y).Clash (slotOf o e)

/-- The link survives when the entry that is written fits. -/
theorem Consistent.rewritten (h : Consistent w) (hr : Rewritten w w' e) (hf : Fitting w w' e) :
    Consistent w' := by
  have hold : ∀ o ∈ w'.offers, o.entryId ≠ e.id → o ∈ w.offers := fun o ho hne => (hr.offers o hne).1 ho
  have hother : ∀ x ∈ w'.entries, x.id ≠ e.id → x ∈ w.entries := by
    intro x hx hne
    rcases (hr.entries x).1 hx with rfl | hx
    · exact absurd rfl hne
    · exact hx.1
  have hself : ∀ x ∈ w'.entries, x.id = e.id → x = e := by
    intro x hx hid
    rcases (hr.entries x).1 hx with rfl | hx
    · rfl
    · exact absurd hid hx.2
  refine ⟨fun o ho => ?_, fun o ho x hx hid => ?_, fun x hx hs => ?_, fun x hx hs => ?_,
    fun o ho o' ho' hid hs hs' => ?_, fun x hx => ?_, fun x hx y hy hsome hk => ?_,
    fun o ho o' ho' hs hs' hne x hx y hy hid hid' => ?_⟩
  · by_cases hid : o.entryId = e.id
    · exact ⟨e, (hr.entries e).2 (.inl rfl), hid.symm⟩
    · obtain ⟨x, hx, hxid⟩ := h.entry o (hold o ho hid)
      exact ⟨x, (hr.entries x).2 (.inr ⟨hx, fun he => hid (hxid ▸ he)⟩), hxid⟩
  · rw [hr.db]
    by_cases hxid : x.id = e.id
    · rw [hself x hx hxid]
      exact hf.linked o ho (hid ▸ hxid)
    · exact h.linked o (hold o ho fun he => hxid (hid.trans he)) x (hother x hx hxid) hid
  · by_cases hid : x.id = e.id
    · rw [hself x hx hid] at hs ⊢
      exact hf.opened hs
    · obtain ⟨o, ho, hoid, hst⟩ := h.opened x (hother x hx hid) hs
      exact ⟨o, (hr.offers o (hoid ▸ hid)).2 ho, hoid, hst⟩
  · by_cases hid : x.id = e.id
    · rw [hself x hx hid] at hs ⊢
      exact hf.accepted hs
    · obtain ⟨o, ho, hoid, hst⟩ := h.accepted x (hother x hx hid) hs
      exact ⟨o, (hr.offers o (hoid ▸ hid)).2 ho, hoid, hst⟩
  · by_cases hoid : o.entryId = e.id
    · exact hf.single o ho o' ho' hoid (hid ▸ hoid) hs hs'
    · exact h.single o (hold o ho hoid) o' (hold o' ho' (hid ▸ hoid)) hid hs hs'
  · rcases (hr.entries x).1 hx with rfl | hx
    · exact hf.wellformed
    · exact h.wellformed x hx.1
  · rcases (hr.entries x).1 hx with rfl | ⟨hx', hxe⟩ <;> rcases (hr.entries y).1 hy with rfl | ⟨hy', hye⟩
    · rfl
    · exact absurd hk.symm (hf.key y hy' hye hsome)
    · exact absurd hk (hf.key x hx' hxe (hk ▸ hsome))
    · exact h.keys x hx' y hy' hsome hk
  · by_cases hoid : o.entryId = e.id <;> by_cases hoid' : o'.entryId = e.id
    · exact absurd (hf.single o ho o' ho' hoid hoid' (by rw [hs]; decide) (by rw [hs']; decide)) hne
    · rw [hself x hx (hid.trans hoid)]
      have hyid : y.id ≠ e.id := fun he => hoid' (hid'.symm.trans he)
      exact fun hc => hf.apart o ho hoid hs o' (hold o' ho' hoid') hs' hoid' y (hother y hy hyid) hid' hc.symm
    · rw [hself y hy (hid'.trans hoid')]
      have hxid : x.id ≠ e.id := fun he => hoid (hid.symm.trans he)
      exact hf.apart o' ho' hoid' hs' o (hold o ho hoid) hs hoid x (hother x hx hxid) hid
    · exact h.apart o (hold o ho hoid) o' (hold o' ho' hoid') hs hs' hne x
        (hother x hx fun he => hoid (hid.symm.trans he)) y
          (hother y hy fun he => hoid' (hid'.symm.trans he)) hid hid'

theorem Rewritten.putEntry (he : e ∈ w.entries) (hid : e'.id = e.id) :
    Rewritten w (w.putEntry e') { e' with version := e'.version + 1 } := by
  refine ⟨rfl, fun x => (mem_putEntry he hid).trans ?_, fun _ _ => .rfl⟩
  rw [← hid]

/-- An entry and one of its offers are written. -/
theorem Rewritten.putBoth (he : e ∈ w.entries) (hid : e'.id = e.id) (ho : o ∈ w.offers) (hid' : o'.id = o.id)
    (hentry : o.entryId = e.id) (hentry' : o'.entryId = e.id) :
    Rewritten w ((w.putOffer o').putEntry e') { e' with version := e'.version + 1 } := by
  refine ⟨rfl, fun x => (mem_putEntry (w := w.putOffer o') he hid).trans ?_, fun x hx =>
    (mem_putOffer ho hid').trans ?_⟩
  · rw [← hid]
    rfl
  · have hx' : x.entryId ≠ e.id := fun h => hx (h.trans hid.symm)
    constructor
    · rintro (rfl | ⟨hx, -⟩)
      · exact absurd hentry' hx'
      · exact hx
    · intro hmem
      exact .inr ⟨hmem, fun h => hx' (Table.eq_of_key hmem ho h ▸ hentry)⟩

theorem Consistent.edited (h : Consistent w) (he : e ∈ w.entries) (hs : e.status = .waiting)
    (hid : e'.id = e.id) (hs' : (e'.status = .waiting ∧ ∃ key, e'.activeKey = some key ∧
      ∀ x ∈ w.entries, x.activeKey = some key → x = e) ∨ e'.status = .cancelled ∧ e'.activeKey = none) :
      Consistent (w.putEntry e') := by
  have hst : e.status ≠ .offered ∧ e.status ≠ .accepted := by rw [hs]; decide
  have hst' : e'.status ≠ .offered ∧ e'.status ≠ .accepted := by
    rcases hs' with ⟨h', -⟩ | ⟨h', -⟩ <;> rw [h'] <;> decide
  have hexp : ∀ o ∈ w.offers, o.entryId = e'.id → o.status = .expired :=
    fun o ho hoid => h.expired_of_waiting he hst.1 hst.2 ho (hoid.trans hid)
  refine h.rewritten (.putEntry he hid) ⟨fun o ho hoid => ?_, fun h' => absurd h' hst'.1, fun h' =>
    absurd h' hst'.2, fun o ho _ _ hoid _ hne => absurd (hexp o ho hoid) hne,
    ⟨?_, fun h' => absurd h' hst'.1⟩, fun x hx hne hsome => ?_, fun o ho hoid hos =>
    absurd (hos.symm.trans (hexp o ho hoid)) (by decide)⟩
  · exact .expired (hexp o ho hoid)
      ((h.linked o ho e he (hid.symm.trans hoid.symm)).idle (by rw [hexp o ho hoid]; decide))
  · rcases hs' with ⟨h', key, hk, -⟩ | ⟨h', hk⟩
    · simp [h', hk]
    · simp [h', hk]
  · rcases hs' with ⟨-, key, hk, hkey⟩ | ⟨-, hk⟩
    · exact fun hx' => hne ((congrArg _ (hkey x hx (hx'.trans hk))).trans hid.symm)
    · exact absurd hsome (by simp [hk])

theorem Consistent.entered {entries : Table WaitlistEntry.id} (h : Consistent w) (hs : e.status = .waiting)
    (hk : ∃ key, e.activeKey = some key ∧ ∀ x ∈ w.entries, x.activeKey ≠ some key)
    (hi : w.entries.insert e = some entries) : Consistent { w with entries } := by
  have hnew : ∀ x ∈ w.entries, x.id ≠ e.id := (Table.insert_eq_some.1 hi).1
  have hst : e.status ≠ .offered ∧ e.status ≠ .accepted := by rw [hs]; decide
  have hnone : ∀ o ∈ w.offers, o.entryId ≠ e.id := by
    intro o ho hoid
    obtain ⟨x, hx, hxid⟩ := h.entry o ho
    exact hnew x hx (hxid.trans hoid)
  obtain ⟨key, hkey, hfresh⟩ := hk
  refine h.rewritten ⟨rfl, fun x => (Table.mem_insert hi).trans ?_, fun _ _ => .rfl⟩
    ⟨fun o ho hoid => absurd hoid (hnone o ho), fun h' => absurd h' hst.1, fun h' => absurd h' hst.2,
      fun o ho _ _ hoid => absurd hoid (hnone o ho), ⟨?_, fun h' => absurd h' hst.1⟩, fun x hx _ _ =>
      hkey ▸ hfresh x hx, fun o ho hoid => absurd hoid (hnone o ho)⟩
  · constructor
    · rintro (hx | rfl)
      · exact .inr ⟨hx, hnew x hx⟩
      · exact .inl rfl
    · rintro (rfl | ⟨hx, -⟩)
      · exact .inr rfl
      · exact .inl hx
  · simp [hs, hkey]

/-- The own offers of an entry after one of them is written. -/
theorem own_offers (ho : o ∈ w.offers) (o' : WaitlistOffer) (hid' : o'.id = o.id) {x : WaitlistOffer}
    (hx : x ∈ ((w.putOffer o').putEntry e').offers) : x = o' ∨ x ∈ w.offers ∧ x ≠ o := by
  rcases (mem_putOffer ho hid').1 hx with rfl | ⟨hx, hne⟩
  · exact .inl rfl
  · exact .inr ⟨hx, fun h => hne (congrArg _ h)⟩

/-- The other offers of an entry with an open offer have expired. -/
theorem Consistent.expired_of_open (h : Consistent w) (ho : o ∈ w.offers) (hs : o.status = .offered)
    {x : WaitlistOffer} (hx : x ∈ w.offers) (hid : x.entryId = o.entryId) (hne : x ≠ o) :
    x.status = .expired := by
  by_contra hn
  exact hne (h.single x hx o ho hid hn (by rw [hs]; decide))

theorem Consistent.released (h : Consistent w) (he : e ∈ w.entries) (ho : o ∈ w.offers)
    (hentry : o.entryId = e.id) (hs : o.status = .offered) (hid : e'.id = e.id)
    (hs' : (e'.status = .waiting ∧ e'.activeKey = e.activeKey) ∨ e'.status = .cancelled ∧
      e'.activeKey = none) :
    Consistent ((w.putOffer (closed o)).putEntry e') := by
  have hst' : e'.status ≠ .offered ∧ e'.status ≠ .accepted := by
    rcases hs' with ⟨h', -⟩ | ⟨h', -⟩ <;> rw [h'] <;> decide
  have hexp : ∀ x ∈ ((w.putOffer (closed o)).putEntry e').offers, x.entryId = e'.id →
      x.status = .expired ∧ x.activeKey = none := by
    intro x hx hxid
    rcases own_offers ho (closed o) rfl hx with rfl | ⟨hx, hne⟩
    · exact ⟨rfl, rfl⟩
    · have hexp := h.expired_of_open ho hs hx ((hxid.trans hid).trans hentry.symm) hne
      exact ⟨hexp, (h.linked x hx e he (hxid.trans hid).symm).idle (by rw [hexp]; decide)⟩
  refine h.rewritten (.putBoth he hid ho rfl hentry hentry) ⟨fun x hx hxid => ?_, fun h' => absurd h' hst'.1,
    fun h' => absurd h' hst'.2, fun x hx _ _ hxid _ hne => absurd (hexp x hx hxid).1 hne,
    ⟨?_, fun h' => absurd h' hst'.1⟩, fun x hx hne hsome => ?_, fun x hx hxid hxs =>
    absurd (hxs.symm.trans (hexp x hx hxid).1) (by decide)⟩
  · exact .expired (hexp x hx hxid).1 (hexp x hx hxid).2
  · have hoff : e.status = .offered := ((h.linked o ho e he hentry.symm).opened hs).1
    have hwf := (h.wellformed e he).key
    rcases hs' with ⟨h', hk⟩ | ⟨h', hk⟩
    · simpa [h', hk, hoff] using hwf
    · simp [h', hk]
  · rcases hs' with ⟨-, hk⟩ | ⟨-, hk⟩
    · have hsome' : e.activeKey.isSome := hk ▸ hsome
      intro hx'
      have heq := h.keys e he x hx hsome' (hk.symm.trans hx'.symm)
      exact hne ((congrArg WaitlistEntry.id heq).symm.trans hid.symm)
    · exact absurd hsome (by simp [hk])

theorem Consistent.issued {offers : Table WaitlistOffer.id} (h : Consistent w) (he : e ∈ w.entries)
    (hs : e.status = .waiting) (hid : e'.id = e.id) (hs' : e'.status = .offered)
    (hk : e'.activeKey = e.activeKey) (hends : e'.desiredEnd.isSome)
    (ho : o.entryId = e.id ∧ o.status = .offered ∧ o.activeKey = some e.id)
    (hi : w.offers.insert o = some offers)
    (hapart : ∀ x ∈ w.offers, x.status = .offered → ∀ y ∈ w.entries, y.id = x.entryId →
      ¬ (slotOf x y).Clash (slotOf o e')) : Consistent ({ w with offers }.putEntry e') := by
  have hst : e.status ≠ .offered ∧ e.status ≠ .accepted := by rw [hs]; decide
  have hexp : ∀ x ∈ w.offers, x.entryId = e'.id → x.status = .expired :=
    fun x hx hxid => h.expired_of_waiting he hst.1 hst.2 hx (hxid.trans hid)
  have hmem : ∀ x, x ∈ ({ w with offers }.putEntry e').offers ↔ x ∈ w.offers ∨ x = o :=
    fun x => Table.mem_insert hi
  have hopen : ∀ x ∈ ({ w with offers }.putEntry e').offers, x.entryId = e'.id →
      x.status ≠ .expired → x = o := by
    intro x hx hxid hne
    exact ((hmem x).1 hx).resolve_left fun hx => hne (hexp x hx hxid)
  have hkey := (h.wellformed e he).key
  have hrw : Rewritten w ({ w with offers }.putEntry e') { e' with version := e'.version + 1 } := by
    refine ⟨rfl, (Rewritten.putEntry (w := { w with offers }) he hid).entries, fun x hx => (hmem x).trans ?_⟩
    exact ⟨fun hx' => hx'.resolve_right fun h' => hx (h' ▸ ho.1.trans hid.symm), .inl⟩
  refine h.rewritten hrw
    ⟨fun x hx hxid => ?_, fun _ => ⟨o, (hmem o).2 (.inr rfl), ho.1.trans hid.symm, ho.2.1⟩,
      fun h' => absurd (hs'.symm.trans h') (by decide),
      fun x hx y hy hxid hyid hxs hys => (hopen x hx hxid hxs).trans (hopen y hy hyid hys).symm,
      ⟨?_, fun _ => hends⟩, fun x hx hne hsome => ?_, fun x hx hxid hxs y hy hys hyid z hz hzid => ?_⟩
  · rcases (hmem x).1 hx with hx | rfl
    · exact .expired (hexp x hx hxid)
        ((h.linked x hx e he (hxid.trans hid).symm).idle (by rw [hexp x hx hxid]; decide))
    · exact ⟨fun _ => ⟨hs', ho.2.2.trans (congrArg some hid.symm)⟩, fun h' => absurd ho.2.1 h',
        fun h' => absurd (ho.2.1.symm.trans h') (by decide)⟩
  · simpa [hs', hk, hs] using hkey
  · have hsome' : e.activeKey.isSome := hk ▸ hsome
    intro hx'
    have heq := h.keys e he x hx hsome' (hk.symm.trans hx'.symm)
    exact hne ((congrArg WaitlistEntry.id heq).symm.trans hid.symm)
  · rw [hopen x hx hxid (by rw [hxs]; decide)]
    exact hapart y hy hys z hz hzid

theorem Consistent.accepting {r : Reservation} (h : Consistent w) (he : e ∈ w.entries) (ho : o ∈ w.offers)
    (hentry : o.entryId = e.id) (hs : o.status = .offered) (hid : e'.id = e.id) (hs' : e'.status = .accepted)
    (hk : e'.activeKey = none) (hid' : o'.id = o.id) (hentry' : o'.entryId = o.entryId)
    (ho' : o'.status = .accepted) (hk' : o'.activeKey = none) (hr : r ∈ w.db.reservations)
    (hres : o'.reservationId = some r.id) (hcust : r.customerId = e'.customerId) :
    Consistent ((w.putOffer o').putEntry e') := by
  have hst' : e'.status ≠ .offered := by rw [hs']; decide
  have hexp : ∀ x ∈ w.offers, x ≠ o → x.entryId = e'.id → x.status = .expired := fun x hx hne hxid =>
    h.expired_of_open ho hs hx ((hxid.trans hid).trans hentry.symm) hne
  have hopen : ∀ x ∈ ((w.putOffer o').putEntry e').offers, x.entryId = e'.id →
      x.status ≠ .expired → x = o' := by
    intro x hx hxid hne
    exact (own_offers ho _ hid' hx).resolve_right fun hx => hne (hexp x hx.1 hx.2 hxid)
  refine h.rewritten (.putBoth he hid ho hid' hentry (hentry'.trans hentry)) ⟨fun x hx hxid => ?_, fun h' =>
    absurd h' hst', fun _ =>
    ⟨o', (mem_putOffer ho hid').2 (.inl rfl), (hentry'.trans hentry).trans hid.symm, ho'⟩,
    fun x hx y hy hxid hyid hxs hys => (hopen x hx hxid hxs).trans (hopen y hy hyid hys).symm,
    ⟨by simp [hs', hk], fun h' => absurd h' hst'⟩, fun x hx hne hsome => absurd hsome (by simp [hk]),
    fun x hx hxid hxs => ?_⟩
  · rcases own_offers ho _ hid' hx with rfl | ⟨hx, hne⟩
    · exact ⟨fun h' => absurd (ho'.symm.trans h') (by decide), fun _ => hk', fun _ =>
        ⟨hs', r, hr, hres, hcust⟩⟩
    · have hxexp := hexp x hx hne hxid
      exact .expired hxexp ((h.linked x hx e he (hxid.trans hid).symm).idle (by rw [hxexp]; decide))
  · rw [hopen x hx hxid (by rw [hxs]; decide), ho'] at hxs
    cases hxs

/-- Every change keeps the link. -/
theorem Change.consistent (hc : Change w w') (h : Consistent w) : Consistent w' := by
  cases hc with
  | other hr => exact h.other hr
  | entered hs hk hi => exact h.entered hs hk hi
  | edited he hs hid hs' => exact h.edited he hs hid hs'
  | released he ho hentry hs hid hs' => exact h.released he ho hentry hs hid hs'
  | issued he hs hid hs' hk hends ho hi hapart => exact h.issued he hs hid hs' hk hends ho hi hapart
  | accepted he ho hentry hs hid hs' hk hid' hentry' ho' hk' hr hres hcust =>
    exact h.accepting he ho hentry hs hid hs' hk hid' hentry' ho' hk' hr hres hcust

end changes

end GManager.Waitlist
