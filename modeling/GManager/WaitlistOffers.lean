import GManager.WaitlistSafety

/-!
# What an accepted offer books

An open offer and its entry stay as they are until the offer is accepted or ends, whatever else happens
(`Changes.standing`). Acceptance goes through the ordinary booking path: the employee and the start are the
offer's, but the end follows the duration that the service has then, and a resource is chosen where the
service needs one by then and the offer names none.
-/

namespace GManager

open Txn

section booking

variable {c : Call} {db : Db} {request : CreateReservationRequest}

theorem lockBookable_id {g : Catalogue} {id serviceId : UUID} {v : PhysicalResource}
    (h : g.lockBookable id serviceId = .ok v) : v.id = id := by
  simp only [Catalogue.lockBookable, Catalogue.resource, bind_eq_ok, orFail_eq_ok] at h
  obtain ⟨x, hx, _, _, hv⟩ := h
  cases hv
  exact (Table.find?_eq_some.1 hx).2

theorem wp_selectEmployee_id {id : UUID} {start stop : Instant} :
    wp (selectEmployee (some id) start stop) (fun employee _ => employee.id = id) c db := by
  simp only [selectEmployee, wp_bind, wp_ask, wp_orThrow, wp_require, wp_pure]
  intro employee he _
  have hid := (Table.find?_eq_some.1 (Option.filter_eq_some_iff.1 he).1).2
  exact wp_mono wp_requireAvailableForUpdate fun _ _ _ => hid

/-- The resource that is asked for, or one that is chosen where the service needs one. -/
def Chosen (c : Call) (serviceId : UUID) (requestedId resourceId : Option UUID) : Prop :=
  match requestedId with
  | some id => resourceId = some id
  | none => c.catalogue.requiresResource serviceId = .ok resourceId.isSome

theorem wp_selectForBooking_chosen {serviceId : UUID} {requestedId locationId areaId : Option UUID}
    {start stop : Instant} {allowed : Option (List UUID)} :
    wp (selectForBooking serviceId requestedId locationId start stop allowed areaId)
      (fun resource _ => Chosen c serviceId requestedId (resource.map (·.id))) c db := by
  unfold selectForBooking
  simp only [wp_bind, wp_ask, wp_lift]
  intro _ _
  split
  · simp only [wp_bind, wp_lift, wp_require, wp_pure]
    intro _ v hv location _ _ _ _ _
    exact wp_mono wp_requireResourceAvailableForUpdate fun _ _ _ => congrArg some (lockBookable_id hv)
  · simp only [wp_bind, wp_lift, wp_ite, wp_orThrow, wp_pure]
    intro required hrequired
    constructor
    · intro hr
      refine wp_mono wp_firstFree fun chosen db' _ v hv => ?_
      rw [hr] at hrequired
      exact hrequired
    · intro hr
      rw [Bool.not_eq_true] at hr
      rw [hr] at hrequired
      exact hrequired

/-- The end that the service's present duration gives. -/
def EndsAt (c : Call) (serviceId : UUID) (start stop : Instant) : Prop :=
  ∃ service, c.catalogue.getActiveById serviceId = .ok service ∧
    ∃ n, service.durationMinutes = some n ∧ stop = start.plusMinutes n

theorem wp_serviceDuration_ends (h : request.durationMinutes = none) :
    wp (serviceDuration request)
      (fun n _ => EndsAt c request.serviceId request.startTime (request.startTime.plusMinutes n)) c db := by
  simp only [serviceDuration, wp_bind, wp_ask, wp_lift, wp_require, h, wp_orThrow]
  exact fun service hservice _ n hn => ⟨service, hservice, n, hn, rfl⟩

/-- What a booking for an employee of the standard duration has in it. -/
structure BookedAs (c : Call) (request : CreateReservationRequest) (employeeId : UUID)
    (r : Reservation) : Prop where
  employeeId : r.employeeId = employeeId
  startTime : r.startTime = request.startTime
  endTime : EndsAt c request.serviceId request.startTime r.endTime
  resourceId : Chosen c request.serviceId request.resourceId r.resourceId

theorem wp_createForCustomer_booked {id customerId employeeId : UUID} {seriesId : Option UUID}
    (hemployee : request.employeeId = some employeeId) (hduration : request.durationMinutes = none) :
    wp (createForCustomer id customerId request seriesId)
      (fun r db' => r ∈ db'.reservations ∧ BookedAs c request employeeId r) c db := by
  simp only [createForCustomer, wp_bind, wp_ask, wp_instant, wp_require, wp_lift]
  intro _
  refine wp_mono (wp_serviceDuration_ends hduration) fun duration db₁ hends => ?_
  intro required _ _ _
  rw [hemployee]
  refine wp_mono wp_selectEmployee_id fun employee db₂ hid => ?_
  refine wp_mono wp_selectForBooking_chosen fun resource db₃ hchosen => ?_
  intro _ _
  refine wp_mono (QuietTx.bookingLocation _ _ c _) fun location db₄ _ => ?_
  intro _ _
  simp only [insertReservation, wp_insertRow, wp_pure]
  intro reservations hi
  exact ⟨(Table.mem_insert hi).2 (.inr rfl), hid, rfl, hends, hchosen⟩

theorem wp_create_booked {employeeId : UUID} (hemployee : request.employeeId = some employeeId)
    (hduration : request.durationMinutes = none) :
    wp (create request) (fun r db' => r ∈ db'.reservations ∧ BookedAs c request employeeId r) c db := by
  simp only [create, preAuthorize, resolveBookingCustomer, wp_bind, wp_ask, wp_require, wp_lift, wp_pure]
  exact fun _ _ _ _ => wp_createForCustomer_booked hemployee hduration

end booking

namespace Waitlist

section standing

variable {w w' : WaitlistDb} {e : WaitlistEntry} {o : WaitlistOffer}

/-- The offer is open as it was, with its entry, or it is open no more. -/
def Standing (w : WaitlistDb) (o : WaitlistOffer) (e : WaitlistEntry) : Prop :=
  (e ∈ w.entries ∧ o ∈ w.offers) ∨ ∃ o' ∈ w.offers, o'.id = o.id ∧ o'.status ≠ .offered

theorem Change.shut (hc : Change w w') (ho : o ∈ w.offers) (hs : o.status ≠ .offered) : o ∈ w'.offers := by
  have hother : ∀ {x x' : WaitlistOffer}, x ∈ w.offers → x'.id = x.id → x.status = .offered →
      o ∈ (w.putOffer x').offers := by
    intro x x' hx hid hxs
    refine (mem_putOffer hx hid).2 (.inr ⟨ho, fun h => hs ?_⟩)
    rw [Table.eq_of_key ho hx h]
    exact hxs
  cases hc with
  | other => exact ho
  | entered => exact ho
  | edited => exact ho
  | released _ hx _ hxs => exact hother hx rfl hxs
  | issued _ _ _ _ _ _ _ hi => exact (Table.mem_insert hi).2 (.inl ho)
  | accepted _ hx _ hxs _ _ _ hid => exact hother hx hid hxs

theorem Change.standing (hc : Change w w') (hw : Consistent w) (he : e ∈ w.entries) (ho : o ∈ w.offers)
    (hid : o.entryId = e.id) (hs : o.status = .offered) : Standing w' o e := by
  have hoff : e.status = .offered := ((hw.linked o ho e he hid.symm).opened hs).1
  -- An offer that is written beside that of another entry leaves both alone.
  have hbeside : ∀ {x x' : WaitlistEntry} {y y' : WaitlistOffer}, x ∈ w.entries → y ∈ w.offers →
    y.entryId = x.id →
      x'.id = x.id → y'.id = y.id → y ≠ o → y.status = .offered →
      Standing ((w.putOffer y').putEntry x') o e := by
    intro x x' y y' hx hy hyx hx' hy' hne hys
    have hxe : x ≠ e := by
      rintro rfl
      exact hne (hw.single y hy o ho (hyx.trans hid.symm) (by rw [hys]; decide) (by rw [hs]; decide))
    refine .inl ⟨?_, ?_⟩
    · exact (mem_putEntry (w := w.putOffer y') hx hx').2
        (.inr ⟨he, fun h => hxe (Table.eq_of_key hx he h.symm)⟩)
    · exact (mem_putOffer hy hy').2 (.inr ⟨ho, fun h => hne (Table.eq_of_key hy ho h.symm)⟩)
  cases hc with
  | other => exact .inl ⟨he, ho⟩
  | entered _ _ hi => exact .inl ⟨(Table.mem_insert hi).2 (.inl he), ho⟩
  | @edited x x' hx hxs hx' _ =>
    have hne : x ≠ e := by
      rintro rfl
      rw [hxs] at hoff
      cases hoff
    exact .inl ⟨(mem_putEntry hx hx').2 (.inr ⟨he, fun h => hne (Table.eq_of_key hx he h.symm)⟩), ho⟩
  | @released x x' y hx hy hyx hys hx' _ =>
    by_cases hne : y = o
    · subst hne
      have hid' : (closed y).id = y.id := rfl
      have hmem : closed y ∈ (w.putOffer (closed y)).offers := (mem_putOffer hy hid').2 (.inl rfl)
      exact .inr ⟨closed y, hmem, rfl, by simp [closed]⟩
    · exact hbeside hx hy hyx hx' rfl hne hys
  | @issued x x' y _ hx hxs hx' _ _ _ _ hi _ =>
    have hne : x ≠ e := by
      rintro rfl
      rw [hxs] at hoff
      cases hoff
    refine .inl ⟨?_, (Table.mem_insert hi).2 (.inl ho)⟩
    exact (mem_putEntry (w := { w with offers := _ }) hx hx').2
      (.inr ⟨he, fun h => hne (Table.eq_of_key hx he h.symm)⟩)
  | @accepted x x' y y' _ hx hy hyx hys hx' _ _ hy' _ hys' _ _ _ _ =>
    by_cases hne : y = o
    · subst hne
      exact .inr ⟨y', (mem_putOffer hy hy').2 (.inl rfl), hy', by rw [hys']; decide⟩
    · exact hbeside hx hy hyx hx' hy' hne hys

theorem Changes.standing (hc : Changes w w') (hw : Sound w) (he : e ∈ w.entries) (ho : o ∈ w.offers)
    (hid : o.entryId = e.id) (hs : o.status = .offered) : Standing w' o e := by
  induction hc with
  | refl => exact .inl ⟨he, ho⟩
  | @tail w₁ w₂ hpath hc ih =>
    rcases ih with ⟨he₁, ho₁⟩ | ⟨o', ho', hid', hs'⟩
    · exact hc.standing (Changes.sound hpath hw).consistent he₁ ho₁ hid hs
    · exact .inr ⟨o', hc.shut ho' hs', hid', hs'⟩

theorem run_changes (rs : List WaitlistRequest) (hw : Sound w) : Changes w (run w rs) := by
  induction rs generalizing w with
  | nil => exact .refl
  | cons r rs ih =>
    have hstep := step_changes r hw
    exact hstep.trans (ih (hstep.sound hw))

end standing

/-! ### Acceptance -/

/-- The service still lasts from the desired start to the end that the offer showed, and it still needs no
resource where the offer names none. -/
def StillAs (c : WaitlistCall) (e : WaitlistEntry) (o : WaitlistOffer) : Prop :=
  (∃ stop, e.desiredEnd = some stop ∧ EndsAt c.call e.serviceId e.desiredStart stop) ∧
    (o.resourceId = none → c.call.catalogue.requiresResource e.serviceId = .ok false)

/-- The reservation of the accepted offer is what the offer showed. -/
def AsOffered (w : WaitlistDb) (e : WaitlistEntry) (o accepted : WaitlistOffer) : Prop :=
  ∃ r ∈ w.db.reservations, accepted.reservationId = some r.id ∧ r.employeeId = o.employeeId ∧
    r.resourceId = o.resourceId ∧ r.startTime = e.desiredStart ∧ e.desiredEnd = some r.endTime

theorem EndsAt.unique {c : Call} {serviceId : UUID} {start stop stop' : Instant}
    (h : EndsAt c serviceId start stop) (h' : EndsAt c serviceId start stop') : stop = stop' := by
  obtain ⟨service, hservice, n, hn, rfl⟩ := h
  obtain ⟨service', hservice', n', hn', rfl⟩ := h'
  rw [hservice] at hservice'
  cases hservice'
  rw [hn] at hn'
  cases hn'
  rfl

section acceptance

variable {c : WaitlistCall} {w w' : WaitlistDb} {e : WaitlistEntry}
  {o accepted : WaitlistOffer} {r : Reservation}

theorem asOffered_iff (hmem : r ∈ w.db.reservations) (hres : accepted.reservationId = some r.id)
    {request : CreateReservationRequest} (hservice : request.serviceId = e.serviceId)
    (hresource : request.resourceId = o.resourceId) (hstart : request.startTime = e.desiredStart)
    (hr : BookedAs c.call request o.employeeId r) : AsOffered w e o accepted ↔ StillAs c e o := by
  have hends := hr.endTime
  have hchosen := hr.resourceId
  rw [hservice, hstart] at hends
  rw [hservice, hresource] at hchosen
  constructor
  · rintro ⟨r', hr', hid, -, hresourceId, -, hend⟩
    obtain rfl : r' = r := Table.eq_of_key hr' hmem (Option.some.inj (hid.symm.trans hres))
    refine ⟨⟨r'.endTime, hend, hends⟩, fun hnone => ?_⟩
    rw [hnone] at hchosen hresourceId
    rwa [hresourceId] at hchosen
  · rintro ⟨⟨stop, hstop, hends'⟩, hneeds⟩
    refine ⟨r, hmem, hres, hr.employeeId, ?_, hr.startTime.trans hstart, ?_⟩
    · cases hoid : o.resourceId with
      | some id =>
        rw [hoid] at hchosen
        exact hchosen
      | none =>
        rw [hoid] at hchosen
        have hsome := Except.ok.inj (hchosen.symm.trans (hneeds hoid))
        exact Option.not_isSome_iff_eq_none.1 (by simp [hsome])
    · rw [hstop, EndsAt.unique hends' hends]

theorem wp_accept_books (he : e ∈ w.entries) (ho : o ∈ w.offers) (hid : o.entryId = e.id)
    (hs : o.status = .offered) : wp (accept o.id) (fun p w' => AsOffered w' e o p.2 ↔ StillAs c e o) c w := by
  simp only [accept, wp_bind]
  refine wp_customer fun w₁ h₁ _ => wp_lockOffer fun x hx hxid => wp_lockEntry fun y hy hyid => ?_
  obtain rfl := Table.eq_of_key hx (h₁.offers ▸ ho) hxid
  obtain rfl := Table.eq_of_key hy (h₁.entries ▸ he) (hyid.trans hid)
  simp only [wp_require]
  intro _
  refine wp_lockOffer fun z hz hzid => ?_
  obtain rfl := Table.eq_of_key hz hx hzid
  simp only [wp_ite, wp_pure, wp_bind, wp_require, wp_modify]
  refine ⟨fun hacc => absurd (hs.symm.trans hacc) (by decide), fun _ => ?_⟩
  refine wp_mono (Calm.onDb .instant c w₁) fun now w₂ _ _ => ?_
  refine wp_onDb.2 (wp_mono (wp_create_booked rfl rfl) ?_)
  rintro r db ⟨hmem, hbooked⟩
  refine asOffered_iff hmem ?_ ?_ ?_ ?_ hbooked <;> rfl

/-- An offer that has expired is not accepted. -/
theorem wp_accept_closed {x : WaitlistOffer} (hx : x ∈ w.offers) (hxid : x.id = o.id)
    (hs : x.status ≠ .offered) (hs' : x.status ≠ .accepted) : wp (accept o.id) (fun _ _ => False) c w := by
  simp only [accept, wp_bind]
  refine wp_customer fun w₁ h₁ _ => wp_lockOffer fun y hy hyid => wp_lockEntry fun _ _ _ => ?_
  obtain rfl := Table.eq_of_key hy (h₁.offers ▸ hx) (hyid.trans hxid.symm)
  simp only [wp_require]
  intro _
  refine wp_lockOffer fun z hz hzid => ?_
  obtain rfl := Table.eq_of_key hz hy (hzid.trans hyid.symm)
  simp only [wp_ite, wp_pure, wp_bind, wp_require]
  refine ⟨fun hacc => hs' hacc, fun _ => ?_⟩
  exact wp_mono (Calm.onDb .instant c w₁) fun now w₂ _ hopen => absurd hopen.2.1 hs

/-- An acceptance that books, at any time after the offer, books what the offer showed exactly when the
service still is as it was; one that fails leaves entries, offers and reservations as they are. -/
theorem offer_books {w₀ : WaitlistDb} (h : Reachable w₀) (he : e ∈ w₀.entries) (ho : o ∈ w₀.offers)
    (hid : o.entryId = e.id) (hs : o.status = .offered) (rs : List WaitlistRequest) (c : WaitlistCall) :
    (∀ err, (accept o.id).run c ((run w₀ rs).listen c.call.readings) = .error err →
      (step (run w₀ rs) ⟨c, .accept o.id⟩).entries = (run w₀ rs).entries ∧
      (step (run w₀ rs) ⟨c, .accept o.id⟩).offers = (run w₀ rs).offers ∧
      (step (run w₀ rs) ⟨c, .accept o.id⟩).db.reservations = (run w₀ rs).db.reservations) ∧
    ∀ p w', (accept o.id).run c ((run w₀ rs).listen c.call.readings) = .ok (p, w') →
      (∀ x ∈ (run w₀ rs).offers, x.id = o.id → x.status ≠ .accepted) →
      (AsOffered w' e o p.2 ↔ StillAs c e o) := by
  constructor
  · intro err herr
    have hstep : step (run w₀ rs) ⟨c, .accept o.id⟩ = (run w₀ rs).listen c.call.readings := by
      show (accept o.id).discard.commit c _ = _
      rw [Txn.commit, Txn.discard, Txn.run_bind_of_error herr]
    rw [hstep]
    exact ⟨rfl, rfl, rfl⟩
  · intro p w' hrun hopen
    rcases (run_changes rs h.sound).standing h.sound he ho hid hs with ⟨he', ho'⟩ | ⟨x, hx, hxid, hxs⟩
    · exact wp_accept_books (w := (run w₀ rs).listen c.call.readings) he' ho' hid hs p w' hrun
    · exact (wp_accept_closed (w := (run w₀ rs).listen c.call.readings) hx hxid hxs
        (hopen x hx hxid) p w' hrun).elim

end acceptance

namespace Arcade

/-- What waits at the desk, and its offer. -/
def waiting : WaitlistEntry :=
  { id := 201, customerId := 5, employeeId := 3, serviceId := 11, locationId := none,
    resourceId := none, areaId := none
    desiredStart := 3600000000, desiredEnd := some 7200000000, status := .offered
    activeKey := some (activeKey 5 11 3 none 3600000000 none none), queueEnteredAt := 11000000,
    internalNote := none
    version := 1 }

def offer : WaitlistOffer :=
  { id := 1201, entryId := 201, employeeId := 3, resourceId := none, expiresAt := 913000000,
    status := .offered
    reservationId := none, activeKey := some 201 }

/-- The service lasts half an hour longer. -/
def longer : Catalogue := { desk with items := ⟨[⟨11, .service, some 90, false, true⟩], by decide⟩ }

def acceptance : WaitlistCall := (request ⟨5, .customer⟩ 204 14000000 (.accept 1201)).call

def lateAcceptance : WaitlistCall :=
  { acceptance with
    call := { acceptance.call with catalogue := longer }
    service_duration := by simp [longer, desk, ← Table.mem_rows] }

theorem waiting_mem : waiting ∈ offered.entries := by
  show waiting ∈ offered.entries.rows
  decide +kernel

theorem offer_mem : offer ∈ offered.offers := by
  show offer ∈ offered.offers.rows
  decide +kernel

theorem reachable_offered : Reachable offered := ⟨0, _, rfl⟩

theorem acceptance_ok :
    ((accept offer.id).run acceptance (offered.listen acceptance.call.readings)).isOk := by
  decide +kernel

theorem lateAcceptance_ok :
    ((accept offer.id).run lateAcceptance (offered.listen lateAcceptance.call.readings)).isOk := by
  decide +kernel

/-- An acceptance while the service lasts as long as it did. -/
theorem offer_books_acceptance :
    ∃ p w', (accept offer.id).run acceptance (offered.listen acceptance.call.readings) = .ok (p, w') ∧
    AsOffered w' waiting offer p.2 := by
  cases h : (accept offer.id).run acceptance (offered.listen acceptance.call.readings) with
  | error e =>
    have := acceptance_ok
    rw [h] at this
    cases this
  | ok x =>
    obtain ⟨p, w'⟩ := x
    refine ⟨p, w', rfl, ((offer_books reachable_offered waiting_mem offer_mem rfl rfl [] acceptance).2
      p w' h ?_).2 ?_⟩
    · intro x hx hid
      rw [Table.eq_of_key hx offer_mem hid]
      decide
    · exact ⟨⟨7200000000, rfl, ⟨11, .service, some 60, false, true⟩, rfl, 60, rfl, rfl⟩, fun _ => rfl⟩

/-- The offer showed one hour, and an hour and a half is booked. -/
theorem offer_booked_longer :
    ∃ p w', (accept offer.id).run lateAcceptance (offered.listen lateAcceptance.call.readings) = .ok (p, w') ∧
    waiting ∈ offered.entries ∧ offer ∈ offered.offers ∧ offer.status = .offered ∧
    ¬ AsOffered w' waiting offer p.2 := by
  cases h : (accept offer.id).run lateAcceptance (offered.listen lateAcceptance.call.readings) with
  | error e =>
    have := lateAcceptance_ok
    rw [h] at this
    cases this
  | ok x =>
    obtain ⟨p, w'⟩ := x
    refine ⟨p, w', rfl, waiting_mem, offer_mem, rfl, fun hbooked => ?_⟩
    have hbooks :=
      wp_accept_books (c := lateAcceptance) (w := offered.listen lateAcceptance.call.readings) (e := waiting)
      waiting_mem offer_mem rfl rfl p w' h
    obtain ⟨⟨stop, hstop, service, hservice, n, hn, hends⟩, -⟩ := hbooks.1 hbooked
    cases hstop
    cases hservice
    cases hn
    cases hends

end Arcade

end Waitlist

end GManager
