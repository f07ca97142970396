import GManager.WaitlistStates
import GManager.Within

/-!
# Runs of the waitlist

Every request to the waitlist is a sequence of changes. What comes before the changes is calm: it reads, and
moves the clock. The matcher keeps that every open offer is alive, since it first expires those that are not.
-/

namespace GManager.Waitlist

open Txn

/-! ### Reservations stay with their customers -/

theorem kept_of_eq {db db' : Db} (h : db'.reservations = db.reservations) :
    ∀ r ∈ db.reservations, ∃ r' ∈ db'.reservations, r'.id = r.id ∧ r'.customerId = r.customerId :=
  fun r hr => ⟨r, h ▸ hr, rfl, rfl⟩

/-- Where one reservation is written over, and keeps identifier and customer. -/
theorem kept_of_save {db db' : Db} {r r' : Reservation} (h : db'.reservations = db.reservations.save r')
    (hr : r ∈ db.reservations) (hid : r'.id = r.id) (hc : r'.customerId = r.customerId) :
    ∀ x ∈ db.reservations, ∃ x' ∈ db'.reservations, x'.id = x.id ∧ x'.customerId = x.customerId := by
  intro x hx
  rw [h]
  by_cases hxr : x.id = r.id
  · obtain rfl := Table.eq_of_key hx hr hxr
    exact ⟨r', (Table.mem_save_of_mem hr hid).2 (.inl rfl), hid, hc⟩
  · exact ⟨x, (Table.mem_save_of_mem hr hid).2 (.inr ⟨hx, hxr⟩), rfl, rfl⟩

theorem Effect.kept {h : Hours} {l L : ℕ} {db db' : Db} (e : Effect h l L db db') :
    ∀ r ∈ db.reservations, ∃ r' ∈ db'.reservations, r'.id = r.id ∧ r'.customerId = r.customerId := by
  cases e with
  | quiet q | closed _ _ q | renewed _ _ q | leased _ _ _ _ _ _ q | refused _ _ q =>
    exact kept_of_eq q.reservations
  | charged _ _ _ _ _ _ _ q | granted _ _ _ _ _ q | toppedUp _ _ _ _ _ _ _ _ _ q =>
    exact kept_of_eq (q.reservations.trans Db.post_reservations)
  | started _ _ _ _ _ _ _ _ _ _ _ _ q => exact kept_of_eq q.reservations
  | booked _ _ _ _ hi q =>
    exact fun r hr => ⟨r, q.reservations ▸ (Table.mem_insert hi).2 (.inl hr), rfl, rfl⟩
  | moved hr hsame _ _ _ _ _ q => exact kept_of_save q.reservations hr hsame.1 hsame.2.2.2
  | changed hr _ q => exact kept_of_save q.reservations hr rfl rfl

theorem Remembers.refl (db : Db) : Remembers db db := ⟨fun r hr => ⟨r, hr, rfl, rfl⟩, id⟩

theorem Remembers.of_effects {h : Hours} {l L : ℕ} {db db' : Db} (o : Orderly L db) (hl : l ≤ L)
    (e : Effects h l L db db') : Remembers db db' := by
  refine ⟨?_, fun _ => ⟨L, o.effects hl e⟩⟩
  induction e with
  | refl => exact kept_of_eq rfl
  | tail _ e ih =>
    intro r hr
    obtain ⟨r₁, hr₁, hid₁, hc₁⟩ := ih r hr
    obtain ⟨r₂, hr₂, hid₂, hc₂⟩ := Effect.kept e r₁ hr₁
    exact ⟨r₂, hr₂, hid₂.trans hid₁, hc₂.trans hc₁⟩

/-! ### Calm transactions -/

/-- Entries and offers are as before, and so is what the services keep. -/
structure Calm (w w' : WaitlistDb) : Prop where
  quiet : Quiet w.db w'.db
  entries : w'.entries = w.entries
  offers : w'.offers = w.offers

instance : IsPreorder WaitlistDb Calm where
  refl _ := ⟨.refl _, rfl, rfl⟩
  trans _ _ _ h h' := ⟨h.quiet.trans h'.quiet, h'.entries.trans h.entries, h'.offers.trans h.offers⟩

theorem Remembers.of_quiet {db db' : Db} (q : Quiet db db') : Remembers db db' :=
  ⟨fun r hr => ⟨r, by rwa [q.reservations], rfl, rfl⟩, fun h => h.imp fun _ o => o.quiet q⟩

theorem Calm.change {w w' : WaitlistDb} (h : Calm w w') : Change w w' := by
  have heq : w' = { w with db := w'.db } := by
    cases w'
    obtain ⟨-, rfl, rfl⟩ := h
    rfl
  rw [heq]
  exact .other (.of_quiet h.quiet)

section calm

theorem Calm.onDb {α : Type} {x : Tx α} (hx : QuietTx x) : Within Calm (onDb x) := fun c w =>
  wp_onDb.2 (wp_mono (hx c.call w.db) fun _ _ q => ⟨q, rfl, rfl⟩)

theorem Calm.staff : Within Calm staff := .bind .ask fun _ => .require _ _

theorem Calm.customer : Within Calm customer :=
  .bind (Calm.onDb (.preAuthorize _)) fun _ => .bind .ask fun _ => .bind (.require _ _) fun _ => .pure _

theorem Calm.requireCustomer (id : UUID) : Within Calm (requireCustomer id) :=
  .bind .ask fun _ => .require _ _

theorem Calm.requireOccupied (serviceId employeeId : UUID) (resourceId locationId areaId : Option UUID)
    (start stop : Instant) :
    Within Calm (requireOccupied serviceId employeeId resourceId locationId areaId start stop) :=
  .bind (Calm.onDb (QuietTx.prepare _ _ _ _ _ _ _ _ _)) fun _ => .bind (.require _ _) fun _ =>
    .bind (.require _ _) fun _ => .pure _

theorem Calm.requireSourceScope (e : WaitlistEntry) : Within Calm (requireSourceScope e) :=
  .bind .ask fun _ => .bind (.lift _) fun _ => .bind .get fun _ => .lift _

theorem Calm.validateManaged (request : ManageWaitlistRequest) : Within Calm (validateManaged request) := by
  refine .bind .ask fun _ => .bind (.lift _) fun _ => .bind (.require _ _) fun _ =>
    .bind (.orThrow _ _) fun _ => ?_
  refine .bind (Calm.onDb .instant) fun _ => .bind (.require _ _) fun _ => .bind (.lift _) fun _ => ?_
  refine .bind (.require _ _) fun _ => .bind (.lift _) fun _ =>
    .bind (Calm.requireOccupied _ _ _ _ _ _ _) fun _ => .pure _

theorem Calm.snapshotFor (employeeIds : List UUID) (cache : Snapshots) (e : WaitlistEntry) (duration : ℤ) :
    Within Calm (snapshotFor employeeIds cache e duration) := by
  intro c w
  simp only [Waitlist.snapshotFor, wp_bind, wp_ask]
  split
  · exact Within.pure _ c w
  · exact Within.bind (Calm.onDb (QuietTx.prepare _ _ _ _ _ _ _ _ _)) (fun _ => Within.pure _) c w

variable {c : WaitlistCall} {w : WaitlistDb} {id : UUID}

theorem wp_lockEntry {Q : WaitlistEntry → WaitlistDb → Prop} (hQ : ∀ e ∈ w.entries, e.id = id → Q e w) :
    wp (lockEntry id) Q c w := by
  simp only [lockEntry, wp_bind, wp_get, wp_orThrow]
  intro e he
  obtain ⟨he, hid⟩ := Table.find?_eq_some.1 he
  exact hQ e he hid

theorem wp_lockOffer {Q : WaitlistOffer → WaitlistDb → Prop} (hQ : ∀ o ∈ w.offers, o.id = id → Q o w) :
    wp (lockOffer id) Q c w := by
  simp only [lockOffer, wp_bind, wp_get, wp_orThrow]
  intro o ho
  obtain ⟨ho, hid⟩ := Table.find?_eq_some.1 ho
  exact hQ o ho hid

theorem wp_lockManaged {Q : WaitlistEntry → WaitlistDb → Prop}
    (hQ : ∀ w', Calm w w' → ∀ e ∈ w'.entries, e.id = id → Q e w') : wp (lockManaged id) Q c w := by
  refine Calm.staff.bind_wp fun _ w₁ h₁ => ?_
  simp only [wp_bind, wp_ask, wp_get, wp_require]
  intro _
  refine wp_lockEntry fun e he hid => ?_
  refine wp_mono (Calm.requireSourceScope e c w₁) fun _ w₂ h₂ => ?_
  rw [wp_pure]
  exact hQ w₂ (IsTrans.trans _ _ _ h₁ h₂) e (h₂.entries ▸ he) hid

end calm

/-! ### Customers and staff -/

/-- The state of a run: entries and offers are linked, and the other tables are in order. -/
structure Sound (w : WaitlistDb) : Prop where
  consistent : Consistent w
  orderly : ∃ L, Orderly L w.db

theorem Change.orderly {w w' : WaitlistDb} (hc : Change w w') (h : ∃ L, Orderly L w.db) :
    ∃ L, Orderly L w'.db := by
  cases hc with
  | other hr => exact hr.orderly h
  | entered => exact h
  | edited => exact h
  | released => exact h
  | issued => exact h
  | accepted => exact h

theorem Changes.sound {w w' : WaitlistDb} (hc : Changes w w') (h : Sound w) : Sound w' := by
  induction hc with
  | refl => exact h
  | tail _ hc ih => exact ⟨hc.consistent ih.consistent, hc.orderly ih.orderly⟩

section operations

variable {c : WaitlistCall} {w w' : WaitlistDb} {e : WaitlistEntry}

theorem Calm.changes (h : Calm w w') : Changes w w' := .single h.change

theorem existsByActiveKey_eq_false {key : ActiveKey} :
    w.existsByActiveKey key = false ↔ ∀ x ∈ w.entries, x.activeKey ≠ some key := by
  simp [WaitlistDb.existsByActiveKey, Table.mem_rows]

theorem wp_insertEntry {key : ActiveKey} (hs : e.status = .waiting) (hk : e.activeKey = some key) :
    wp (insertEntry e) (fun _ => Changes w) c w := by
  simp only [insertEntry, wp_bind, wp_get, wp_require, wp_orThrow, wp_modify]
  intro hfree entries hi
  exact .single (.entered hs ⟨key, hk, existsByActiveKey_eq_false.1 (hfree key hk)⟩ hi)

theorem wp_join {request : CreateWaitlistRequest} : wp (join request) (fun _ => Changes w) c w := by
  refine Calm.customer.bind_wp fun customerId w₁ h₁ => ?_
  simp only [wp_bind, wp_ask, wp_get, wp_require, wp_lift, wp_orThrow]
  intro _ _ _ _ _ _
  refine wp_mono (Calm.onDb .instant c w₁) fun now w₂ h₂ _ => ?_
  refine wp_mono (Calm.requireOccupied _ _ _ _ _ _ _ c w₂) fun state w₃ h₃ => ?_
  refine wp_mono (Calm.onDb .instant c w₃) fun entered w₄ h₄ => ?_
  have h : Calm w w₄ := IsTrans.trans _ _ _ (IsTrans.trans _ _ _ h₁ h₂) (IsTrans.trans _ _ _ h₃ h₄)
  exact wp_mono (wp_insertEntry rfl rfl) fun _ _ hc => h.changes.trans hc

theorem wp_createManaged {request : ManageWaitlistRequest} :
    wp (createManaged request) (fun _ => Changes w) c w := by
  refine Calm.staff.bind_wp fun _ w₁ h₁ => ?_
  simp only [wp_bind, wp_orThrow]
  intro customerId _
  refine wp_mono (Calm.requireCustomer _ c w₁) fun _ w₂ h₂ => ?_
  refine wp_mono (Calm.validateManaged _ c w₂) ?_
  rintro ⟨state, stop⟩ w₃ h₃
  simp only [wp_get, wp_require, wp_ask]
  intro _
  refine wp_mono (Calm.onDb .instant c w₃) fun now w₄ h₄ => ?_
  have h : Calm w w₄ := IsTrans.trans _ _ _ (IsTrans.trans _ _ _ h₁ h₂) (IsTrans.trans _ _ _ h₃ h₄)
  exact wp_mono (wp_insertEntry rfl rfl) fun _ _ hc => h.changes.trans hc

/-- The key of an update is new, or the entry's own. -/
theorem key_free (hw : Consistent w) (he : e ∈ w.entries) {key : ActiveKey}
    (hk : e.activeKey = some key ∨ w.existsByActiveKey key = false) :
    ∀ x ∈ w.entries, x.activeKey = some key → x = e := by
  intro x hx hxk
  rcases hk with hk | hk
  · exact (hw.keys e he x hx (by simp [hk]) (hk.trans hxk.symm)).symm
  · exact absurd hxk (existsByActiveKey_eq_false.1 hk x hx)

theorem wp_updateManaged {id : UUID} {request : ManageWaitlistRequest} (hw : Sound w) :
    wp (updateManaged id request) (fun _ => Changes w) c w := by
  simp only [updateManaged, wp_bind]
  refine wp_lockManaged fun w₁ h₁ e he hid => ?_
  simp only [requireVersion, wp_require]
  intro _ hs _
  refine wp_mono (Calm.requireCustomer _ c w₁) fun _ w₂ h₂ => ?_
  refine wp_mono (Calm.validateManaged _ c w₂) ?_
  rintro ⟨state, stop⟩ w₃ h₃
  simp only [wp_bind, wp_get, wp_ite, wp_pure, wp_modify]
  intro hk
  have h₁₃ : Calm w₁ w₃ := IsTrans.trans _ _ _ h₂ h₃
  have h : Calm w w₃ := IsTrans.trans _ _ _ h₁ h₁₃
  have he₃ : e ∈ w₃.entries := h₁₃.entries ▸ he
  have hfree := key_free (h.changes.sound hw).consistent he₃ hk
  refine ⟨fun _ => ?_, fun _ => ⟨fun _ => h.changes, fun _ => ?_⟩⟩
  · refine wp_mono (Calm.onDb .instant c w₃) fun now w₄ h₄ => ?_
    have he₄ : e ∈ w₄.entries := h₄.entries ▸ he₃
    refine (h.changes.tail h₄.change).tail
      (.edited he₄ hs ?_ (.inl ⟨hs, _, rfl, fun x hx => hfree x (h₄.entries ▸ hx)⟩))
    rfl
  · refine h.changes.tail (.edited he₃ hs ?_ (.inl ⟨hs, _, rfl, hfree⟩))
    rfl

theorem offerOf_eq_some {id : UUID} {o : WaitlistOffer} (h : w.offerOf id = some o) :
    o ∈ w.offers ∧ o.entryId = id ∧ o.status = .offered := by
  have hp : o.entryId = id ∧ o.status = .offered := by simpa using List.find?_some h
  exact ⟨List.mem_of_find?_eq_some h, hp⟩

theorem offerOf_eq_none {id : UUID} (h : w.offerOf id = none) : ∀ o ∈ w.offers, o.entryId = id →
    o.status ≠ .offered := by
  simpa [WaitlistDb.offerOf, Table.mem_rows] using h

theorem wp_cancelEntry (hw : Sound w) (he : e ∈ w.entries) (hs : e.status = .waiting ∨ e.status = .offered) :
    wp (cancelEntry e) (fun _ => Changes w) c w := by
  simp only [cancelEntry, wp_bind, wp_get]
  cases ho : w.offerOf e.id with
  | none =>
    simp only [ifPresent, wp_pure, wp_modify]
    have hwait : e.status = .waiting := by
      refine hs.resolve_right fun hoff => ?_
      obtain ⟨o, hmem, hid, hst⟩ := hw.consistent.opened e he hoff
      exact offerOf_eq_none ho o hmem hid hst
    exact .single (.edited he hwait rfl (.inr ⟨rfl, rfl⟩))
  | some o =>
    simp only [ifPresent, closeOffer, wp_modify]
    obtain ⟨hmem, hid, hst⟩ := offerOf_eq_some ho
    exact .single (.released he hmem hid hst rfl (.inr ⟨rfl, rfl⟩))

theorem wp_cancel {id : UUID} {version : ℕ} (hw : Sound w) :
    wp (cancel id version) (fun _ => Changes w) c w := by
  refine Calm.customer.bind_wp fun customerId w₁ h₁ => wp_bind.2 (wp_lockEntry fun e he hid => ?_)
  simp only [wp_bind, wp_require, when, wp_ite, wp_pure]
  intro _ _ hacc
  refine ⟨fun hcan => ?_, fun _ => h₁.changes⟩
  have hs : e.status = .waiting ∨ e.status = .offered := by
    cases hst : e.status <;> simp_all
  exact wp_mono (wp_cancelEntry (h₁.changes.sound hw) he hs) fun _ _ hc => h₁.changes.trans hc

theorem wp_cancelManaged {id : UUID} {version : ℕ} (hw : Sound w) :
    wp (cancelManaged id version) (fun _ => Changes w) c w := by
  simp only [cancelManaged, wp_bind]
  refine wp_lockManaged fun w₁ h₁ e he hid => ?_
  simp only [requireVersion, wp_require]
  intro _ hs
  exact wp_mono (wp_cancelEntry (h₁.changes.sound hw) he hs) fun _ _ hc => h₁.changes.trans hc

/-! ### Acceptance -/

/-- A reservation that a customer makes is the customer's. -/
theorem wp_createForCustomer_mem {c : Call} {db : Db} {id customerId : UUID}
    {request : CreateReservationRequest} {seriesId : Option UUID} :
    wp (createForCustomer id customerId request seriesId)
      (fun r db' => r ∈ db'.reservations ∧ r.customerId = customerId) c db := by
  simp only [createForCustomer, wp_bind, wp_ask, wp_instant, wp_require, wp_lift]
  intro _
  refine wp_mono (QuietTx.serviceDuration request c _) fun duration db₁ _ => ?_
  intro required _ _ _
  refine wp_mono wp_selectEmployee fun employee db₂ _ => wp_mono wp_selectForBooking fun resource db₃ _ => ?_
  intro _ _
  refine wp_mono (QuietTx.bookingLocation _ _ c _) fun location db₄ _ => ?_
  intro _ _
  simp only [insertReservation, wp_insertRow, wp_pure]
  intro reservations hi
  exact ⟨(Table.mem_insert hi).2 (.inr rfl), trivial⟩

theorem wp_create_mem {c : Call} {db : Db} {request : CreateReservationRequest}
    (hc : c.actor.role = .customer) :
    wp (create request) (fun r db' => r ∈ db'.reservations ∧ r.customerId = c.actor.id) c db := by
  simp only [create, preAuthorize, resolveBookingCustomer, wp_bind, wp_ask, wp_require, wp_lift, wp_pure]
  intro _ customerId hid _
  rw [if_pos hc] at hid
  split at hid
  · obtain rfl := Except.ok.inj hid
    exact wp_createForCustomer_mem
  · cases hid

theorem wp_onDb_create {request : CreateReservationRequest} (ho : ∃ L, Orderly L w.db)
    (hc : c.call.actor.role = .customer) :
    wp (onDb (create request)) (fun r w' => ∃ db, w' = { w with db } ∧ Remembers w.db db ∧
      r ∈ db.reservations ∧ r.customerId = c.call.actor.id) c w := by
  obtain ⟨L, o⟩ := ho
  refine wp_onDb.2 (wp_mono (wp_and (wp_create (l := 0) (L := L)) (wp_create_mem hc)) ?_)
  rintro r db ⟨heff, hmem, hcust⟩
  exact ⟨db, rfl, .of_effects o (Nat.zero_le L) heff, hmem, hcust⟩

theorem wp_customer {Q : UUID → WaitlistDb → Prop}
    (hQ : ∀ w', Calm w w' → c.call.actor.role = .customer → Q c.call.actor.id w') : wp customer Q c w := by
  refine (Calm.onDb (.preAuthorize _)).bind_wp fun _ w₁ h₁ => ?_
  simp only [wp_bind, wp_ask, wp_require, wp_pure]
  exact hQ w₁ h₁

theorem wp_accept {offerId : UUID} (hw : Sound w) : wp (accept offerId) (fun _ => Changes w) c w := by
  simp only [accept, wp_bind]
  refine wp_customer fun w₁ h₁ hrole => wp_lockOffer fun o ho hoid => wp_lockEntry fun e he heid => ?_
  simp only [wp_require]
  intro hcust
  refine wp_lockOffer fun o' ho' hoid' => ?_
  obtain rfl := Table.eq_of_key ho' ho (hoid'.trans hoid.symm)
  simp only [wp_ite, wp_pure, wp_bind, wp_require, wp_modify]
  refine ⟨fun _ => h₁.changes, fun _ => ?_⟩
  refine wp_mono (Calm.onDb .instant c w₁) fun now w₂ h₂ hopen => ?_
  have h : Calm w w₂ := IsTrans.trans _ _ _ h₁ h₂
  refine wp_mono (wp_onDb_create (h.changes.sound hw).orderly hrole) ?_
  rintro r w₃ ⟨db, rfl, hrem, hmem, hrcust⟩
  have he₃ : e ∈ w₂.entries := h₂.entries ▸ he
  have ho₃ : o' ∈ w₂.offers := h₂.offers ▸ ho
  refine (h.changes.tail (.other hrem)).tail (.accepted (w := { w₂ with db }) (r := r) he₃ ho₃ heid.symm
    hopen.2.1 rfl rfl rfl
    rfl rfl rfl rfl hmem rfl (hrcust.trans hcust.symm))

end operations

end GManager.Waitlist
