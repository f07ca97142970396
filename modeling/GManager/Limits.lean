import GManager.TimeService

/-!
# The limit of access

What `boundary` returns when it returns: the latest instant up to which the opening hours, the authorizing
reservation and the reservations of others let the customer stay, and that it lies after `now`.
-/

namespace GManager

open Txn

namespace Hours

variable {h : Hours} {location : UUID} {now closing : Instant}

/-- A window of the location that contains `now`. -/
def OpenAt (h : Hours) (location : UUID) (day : LocalDate) (now closing : Instant) : Prop :=
  ∃ opening, h.availabilityWindow (some location) day = some (opening, closing) ∧
    opening ≤ now ∧ now < closing

theorem OpenAt.date {day : LocalDate} (ho : h.OpenAt location day now closing) :
    day = h.zone.dateOf now ∨ day = h.zone.dateOf now - 1 := by
  obtain ⟨opening, hw, h₁, h₂⟩ := ho
  obtain ⟨shift, hs, he⟩ := Option.map_eq_some_iff.1 hw
  obtain ⟨rfl, rfl⟩ := Prod.mk.inj he
  rcases shift_date hs ⟨h₁, h₂⟩ with hd | ⟨hd, -⟩
  · exact .inl hd
  · exact .inr hd

/-- One window's part in the closing time: a later closing of a window that contains `now` wins. -/
def laterClosing (h : Hours) (location : UUID) (now : Instant) (stop : Option Instant) (day : LocalDate) :
    Option Instant :=
  match h.availabilityWindow (some location) day with
  | some (openAt, closeAt) => if openAt ≤ now ∧ now < closeAt ∧
      ∀ e ∈ stop, e < closeAt then some closeAt else stop
  | none => stop

theorem closingTime_eq (h : Hours) (location : UUID) (now : Instant) :
    h.closingTime location now =
      h.laterClosing location now (h.laterClosing location now none (h.zone.dateOf now - 1))
        (h.zone.dateOf now) := rfl

theorem laterClosing_eq_some {stop : Option Instant} {day : LocalDate}
    (he : h.laterClosing location now stop day = some closing) :
    stop = some closing ∨ h.OpenAt location day now closing := by
  unfold laterClosing at he
  split at he
  · rename_i opening closeAt hw
    split at he
    · rename_i hc
      cases he
      exact .inr ⟨opening, hw, hc.1, hc.2.1⟩
    · exact .inl he
  · exact .inl he

/-- The part of a window is an upper bound of the window's closing and of the parts before. -/
theorem le_laterClosing {stop : Option Instant} {day : LocalDate} {x : Instant}
    (hx : stop = some x ∨ h.OpenAt location day now x) :
    ∃ e, h.laterClosing location now stop day = some e ∧ x ≤ e := by
  unfold laterClosing
  cases hw : h.availabilityWindow (some location) day with
  | none =>
    rcases hx with rfl | ⟨_, hw', -⟩
    · exact ⟨x, rfl, le_rfl⟩
    · rw [hw] at hw'
      cases hw'
  | some w =>
    obtain ⟨opening, closeAt⟩ := w
    dsimp only
    split
    · rename_i hc
      refine ⟨closeAt, rfl, ?_⟩
      rcases hx with rfl | ⟨_, hw', -⟩
      · exact (hc.2.2 x rfl).le
      · rw [hw] at hw'
        cases hw'
        exact le_rfl
    · rename_i hc
      rcases hx with rfl | ⟨_, hw', h₁, h₂⟩
      · exact ⟨x, rfl, le_rfl⟩
      · rw [hw] at hw'
        cases hw'
        have hs : ¬ ∀ e ∈ stop, e < x := fun hs => hc ⟨h₁, h₂, hs⟩
        push Not at hs
        obtain ⟨e, he, hle⟩ := hs
        exact ⟨e, he, hle⟩

/-- The closing time is the closing of some window that contains `now`. -/
theorem openAt_of_closingTime (he : h.closingTime location now = some closing) :
    ∃ day, h.OpenAt location day now closing := by
  rw [closingTime_eq] at he
  rcases laterClosing_eq_some he with he' | ho
  · rcases laterClosing_eq_some he' with h0 | ho
    · cases h0
    · exact ⟨_, ho⟩
  · exact ⟨_, ho⟩

/-- No window that contains `now` closes later, not even one of another date. -/
theorem le_closingTime {day : LocalDate} {x : Instant} (ho : h.OpenAt location day now x) :
    ∃ e, h.closingTime location now = some e ∧ x ≤ e := by
  rw [closingTime_eq]
  rcases ho.date with rfl | rfl
  · exact le_laterClosing (.inr ho)
  · obtain ⟨e₁, h₁, hle₁⟩ := @le_laterClosing h location now none _ _ (.inr ho)
    obtain ⟨e₂, h₂, hle₂⟩ := @le_laterClosing h location now
      (h.laterClosing location now none (h.zone.dateOf now - 1)) (h.zone.dateOf now) _ (.inl h₁)
    exact ⟨e₂, h₂, hle₁.trans hle₂⟩

end Hours

theorem firstStart_eq_ok {now : Instant} {bookings : List Reservation} {stop limit : Instant}
    (h : firstStart now bookings stop = .ok limit) :
    (∀ b ∈ bookings, limit ≤ b.startTime) ∧ limit ≤ stop ∧ (now < stop → now < limit) ∧
      ∀ x, x ≤ stop → (∀ b ∈ bookings, x ≤ b.startTime) → x ≤ limit := by
  induction bookings generalizing stop with
  | nil =>
    cases h
    exact ⟨fun b hb => absurd hb List.not_mem_nil, le_rfl, id, fun x hx _ => hx⟩
  | cons b bookings ih =>
    unfold firstStart at h
    split at h
    · cases h
    · rename_i hb
      obtain ⟨hall, hle, hlt, hgreat⟩ := ih h
      refine ⟨fun b' hb' => ?_, hle.trans (min_le_left _ _), fun hs => hlt (lt_min hs (not_le.1 hb)),
        fun x hx hxs => ?_⟩
      · rcases List.mem_cons.1 hb' with rfl | hb'
        · exact hle.trans (min_le_right _ _)
        · exact hall b' hb'
      · exact hgreat x (le_min hx (hxs b List.mem_cons_self)) fun b' hb' =>
          hxs b' (List.mem_cons_of_mem _ hb')

/-- A reservation of somebody else that blocks the station at or after `now`. -/
def Reservation.Blocks (r : Reservation) (station : UUID) (own : Option UUID) (now : Instant) : Prop :=
  r.resourceId = some station ∧ r.status.blocksResource ∧ own ≠ some r.id ∧ now < r.endTime

/-- `limit` is how long the customer may stay at the station from `now` on. -/
structure Limit (h : Hours) (db : Db) (station location customer : UUID) (own : Option UUID)
    (now limit : Instant) : Prop where
  after : now < limit
  hours : ∃ closing, h.closingTime location now = some closing ∧ limit ≤ closing
  booking : ∀ id, own = some id → ∃ b ∈ db.reservations, b.id = id ∧ b.customerId = customer ∧
    b.resourceId = some station ∧ b.status = .confirmed ∧ b.startTime ≤ now ∧ limit ≤ b.endTime
  place : ∀ b ∈ db.reservations, own = some b.id → b.locationId = some location
  others : ∀ r ∈ db.reservations, r.Blocks station own now → limit ≤ r.startTime
  greatest : ∀ x, (∀ closing, h.closingTime location now = some closing → x ≤ closing) →
    (∀ b ∈ db.reservations, own = some b.id → x ≤ b.endTime) →
    (∀ r ∈ db.reservations, r.Blocks station own now → x ≤ r.startTime) → x ≤ limit

/-- A limit of access lies in a window that has opened. -/
theorem Limit.opened {h : Hours} {db : Db} {station location customer : UUID} {own : Option UUID}
    {now limit t : Instant} (hl : Limit h db station location customer own now limit) (ht : now ≤ t) :
    ∃ day opening closing, h.availabilityWindow (some location) day = some (opening, closing) ∧
      opening ≤ t ∧ limit ≤ closing := by
  obtain ⟨closing, hcl, hle⟩ := hl.hours
  obtain ⟨day, opening, hwin, hop, -⟩ := Hours.openAt_of_closingTime hcl
  exact ⟨day, opening, closing, hwin, hop.trans ht, hle⟩

/-- A limit of access does not outlast the own reservation. -/
theorem Limit.booked {h : Hours} {db : Db} {station location customer : UUID} {own : Option UUID}
    {now limit : Instant} (hl : Limit h db station location customer own now limit) :
    ∀ id, own = some id → ∃ b ∈ db.reservations, b.id = id ∧ limit ≤ b.endTime := by
  intro id hid
  obtain ⟨b, hb, hbid, -, -, -, -, hle⟩ := hl.booking id hid
  exact ⟨b, hb, hbid, hle⟩

/-- The limit below a first bound `stop` by the reservations of others. -/
theorem firstStart_limit {db : Db} {station : UUID} {own : Option UUID} {now stop limit : Instant}
    (hf : firstStart now (db.resourceConflicts station now stop own) stop = .ok limit) (hs : now < stop) :
    now < limit ∧ limit ≤ stop ∧ (∀ r ∈ db.reservations, r.Blocks station own now → limit ≤ r.startTime) ∧
      ∀ x, x ≤ stop → (∀ r ∈ db.reservations, r.Blocks station own now → x ≤ r.startTime) → x ≤ limit := by
  obtain ⟨hall, hle, hlt, hgreat⟩ := firstStart_eq_ok hf
  refine ⟨hlt hs, hle, fun r hr hb => ?_, fun x hx hxs => hgreat x hx fun r hr => ?_⟩
  · by_cases ho : r.startTime < stop
    · exact hall r (Db.mem_resourceConflicts.2 ⟨hr, hb.1, hb.2.1, ⟨ho, hb.2.2.2⟩, hb.2.2.1⟩)
    · exact hle.trans (not_lt.1 ho)
  · obtain ⟨hr, h₁, h₂, ho, h₃⟩ := Db.mem_resourceConflicts.1 hr
    exact hxs r hr ⟨h₁, h₂, h₃, ho.2⟩

theorem wp_boundary {station location customer : UUID} {own : Option UUID} {now : Instant}
    {Q : Instant → Db → Prop} {c : Call} {db : Db}
    (hQ : ∀ limit, Limit c.hours db station location customer own now limit → Q limit db) :
    wp (boundary station location customer own now) Q c db := by
  cases own with
  | none =>
    simp only [boundary, wp_bind, wp_ask, wp_get, wp_orThrow, wp_pure, wp_lift]
    intro closing hc limit hf
    obtain ⟨day, opening, -, -, hlt⟩ := Hours.openAt_of_closingTime hc
    obtain ⟨ha, hle, hothers, hgreat⟩ := firstStart_limit hf hlt
    exact hQ limit ⟨ha, ⟨closing, hc, hle⟩, fun _ h => absurd h (by simp),
      fun _ _ h => absurd h (by simp), hothers,
      fun x hx _ hxs => hgreat x (hx closing hc) hxs⟩
  | some id =>
    simp only [boundary, wp_bind, wp_ask, wp_get, wp_orThrow, wp_require, wp_pure, wp_lift]
    intro closing hc b hb hok limit hf
    obtain ⟨hbc, hbr, hbl, hbs, hst, hen⟩ := hok
    obtain ⟨day, opening, -, -, hlt⟩ := Hours.openAt_of_closingTime hc
    obtain ⟨hbm, hbid⟩ := Table.find?_eq_some.1 hb
    obtain ⟨ha, hle, hothers, hgreat⟩ := firstStart_limit hf (lt_min hlt hen)
    refine hQ limit ⟨ha, ⟨closing, hc, hle.trans (min_le_left _ _)⟩, ?_, fun x hx hown => ?_, hothers,
      fun x hx hxb hxs => ?_⟩
    · rintro _ ⟨⟩
      exact ⟨b, hbm, hbid, hbc, hbr, hbs, hst, hle.trans (min_le_right _ _)⟩
    · rw [Table.eq_of_key hx hbm ((Option.some.inj hown).symm.trans hbid.symm)]
      exact hbl
    · exact hgreat x (le_min (hx closing hc) (hxb b hbm (by rw [hbid]))) hxs

end GManager
