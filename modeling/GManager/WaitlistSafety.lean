import GManager.WaitlistRuns

/-!
# The waitlist over whole runs

The matcher is a sequence of changes too: after it has expired what has run out, every open offer is alive, so
the offers that it finds none of are all that could clash with a new one. With that every request keeps the
link between entries and offers, and every reachable state has it.
-/

namespace GManager.Waitlist

open Txn

/-! ### The matcher -/

/-- The open offers have not run out. -/
def Alive (now : Instant) (w : WaitlistDb) : Prop := ∀ o ∈ w.offers, o.status = .offered → now < o.expiresAt

section matcher

variable {c : WaitlistCall} {now : Instant} {w w' : WaitlistDb} {e : WaitlistEntry} {o : WaitlistOffer}

theorem mem_overlappingOffers (hw : Consistent w) {employeeId : UUID} {resourceId : Option UUID}
    {start stop : Instant} : o ∈ w.overlappingOffers employeeId resourceId start stop now ↔ o ∈ w.offers ∧
    o.status = .offered ∧ now < o.expiresAt ∧
      ∃ e ∈ w.entries, e.id = o.entryId ∧ (slotOf o e).Clash ⟨employeeId, resourceId, start, stop⟩ := by
  simp only [WaitlistDb.overlappingOffers, List.mem_filter, Table.mem_rows, decide_eq_true_eq, Option.mem_def,
    Table.find?_eq_some]
  refine and_congr_right fun ho => and_congr_right fun hs => and_congr_right fun _ => ?_
  constructor
  · rintro ⟨⟨e, ⟨he, hid⟩, hlt, d, hd, hlt'⟩, hor⟩
    refine ⟨e, he, hid, ⟨hlt, ?_⟩, hor⟩
    rw [slotOf, hd]
    exact hlt'
  · rintro ⟨e, he, hid, hov, hor⟩
    have hoff := ((hw.linked o ho e he hid).opened hs).1
    obtain ⟨d, hd⟩ := Option.isSome_iff_exists.1 ((hw.wellformed e he).ends hoff)
    refine ⟨⟨e, ⟨he, hid⟩, hov.1, d, hd, ?_⟩, hor⟩
    have := hov.2
    rwa [slotOf, hd] at this

theorem Calm.alive (h : Calm w w') (ha : Alive now w) : Alive now w' := fun o ho => ha o (h.offers ▸ ho)

/-- What the loops of the matcher keep. -/
structure Matching (now : Instant) (w w' : WaitlistDb) : Prop where
  changes : Changes w w'
  alive : Alive now w'

theorem Matching.trans {w'' : WaitlistDb} (h : Matching now w w') (h' : Matching now w' w'') :
    Matching now w w'' :=
  ⟨h.changes.trans h'.changes, h'.alive⟩

theorem Calm.matching (h : Calm w w') (ha : Alive now w) : Matching now w w' := ⟨h.changes, h.alive ha⟩

/-- Fifteen minutes later. -/
theorem Instant.lt_plusMinutes (t : Instant) : t < t.plusMinutes 15 := Instant.lt_plusSeconds.2 (by decide)

theorem wp_issueOffer {resourceId : Option UUID} {stop : Instant} (hw : Sound w) (ha : Alive now w)
    (he : e ∈ w.entries) (hs : e.status = .waiting)
    (hnone : w.overlappingOffers e.employeeId resourceId e.desiredStart stop now = []) :
    wp (issueOffer now e resourceId stop) (fun _ => Matching now w) c w := by
  simp only [issueOffer, wp_bind, wp_ask, wp_get, wp_require, wp_orThrow, wp_modify]
  intro _ offers hi
  refine ⟨.single (.issued he hs rfl rfl rfl rfl ⟨rfl, rfl, rfl⟩ hi fun x hx hxs y hy hid hclash => ?_),
    fun x hx hxs => ?_⟩
  · have hmem : x ∈ w.overlappingOffers e.employeeId resourceId e.desiredStart stop now :=
      (mem_overlappingOffers hw.consistent).2 ⟨hx, hxs, ha x hx hxs, y, hy, hid, hclash⟩
    rw [hnone] at hmem
    exact absurd hmem List.not_mem_nil
  · rcases (Table.mem_insert hi).1 hx with hx | rfl
    · exact ha x hx hxs
    · exact Instant.lt_plusMinutes now

theorem wp_offerTo {employeeIds : List UUID} {service : CatalogItem} {cache : Snapshots} (hw : Sound w)
    (ha : Alive now w) (he : e ∈ w.entries) (hs : e.status = .waiting) :
    wp (offerTo now employeeIds service cache e) (fun _ => Matching now w) c w := by
  simp only [offerTo, wp_bind, wp_orThrow]
  intro duration _
  refine wp_mono (Calm.snapshotFor _ _ _ _ c w) ?_
  rintro ⟨s, cache'⟩ w₁ h₁
  have hm : Matching now w w₁ := h₁.matching ha
  simp only [when, wp_ite, wp_bind, wp_get, wp_pure]
  refine ⟨fun _ => ⟨fun hnone => ?_, fun _ => hm⟩, fun _ => hm⟩
  exact wp_mono (wp_issueOffer (hm.changes.sound hw) hm.alive (h₁.entries ▸ he) hs hnone)
    fun _ _ h => hm.trans h

theorem wp_matchEntry {employeeIds : List UUID} {cache : Snapshots} {id : UUID} (hw : Sound w)
    (ha : Alive now w) : wp (matchEntry now employeeIds cache id) (fun _ => Matching now w) c w := by
  simp only [matchEntry, wp_bind, wp_ask, wp_get, wp_orThrow, wp_ite, wp_pure]
  intro e he
  have hskip : Matching now w w := ⟨.refl, ha⟩
  refine ⟨fun hs => ?_, fun _ => hskip⟩
  split
  · exact wp_pure.2 hskip
  · refine wp_bind.2 (wp_attempt ?_ fun e => ?_)
    · refine wp_mono (wp_offerTo hw ha (Table.find?_eq_some.1 he).1 hs.1) fun cache' w₁ h => ?_
      exact wp_pure.2 h
    · simp only [wp_ite, wp_pure, wp_throw]
      exact ⟨fun _ => hskip, fun _ => trivial⟩

theorem wp_matchEntries {employeeIds ids : List UUID} {cache : Snapshots} (hw : Sound w) (ha : Alive now w) :
    wp (matchEntries now employeeIds cache ids) (fun _ => Matching now w) c w := by
  induction ids generalizing w cache with
  | nil => exact wp_pure.2 ⟨.refl, ha⟩
  | cons id ids ih =>
    refine wp_bind.2 (wp_mono (wp_matchEntry hw ha) fun cache' w₁ h => ?_)
    exact wp_mono (ih (h.changes.sound hw) h.alive) fun _ _ h' => h.trans h'

theorem wp_matchPages {rounds : ℕ} {after : Option (Instant ×ₗ UUID)} (hw : Sound w) (ha : Alive now w) :
    wp (matchPages now rounds after) (fun _ => Matching now w) c w := by
  induction rounds generalizing w after with
  | zero => exact wp_pure.2 ⟨.refl, ha⟩
  | succ rounds ih =>
    simp only [matchPages, wp_bind, wp_get]
    split
    · exact wp_pure.2 ⟨.refl, ha⟩
    · refine wp_bind.2 (wp_mono (wp_matchEntries hw ha) fun _ w₁ h => ?_)
      exact wp_mono (ih (h.changes.sound hw) h.alive) fun _ _ h' => h.trans h'

/-- The open offers that have run out are among those still to be expired. -/
def Due (now : Instant) (os : List WaitlistOffer) (w : WaitlistDb) : Prop :=
  (∀ o ∈ w.offers, o.status = .offered → now < o.expiresAt ∨ o ∈ os) ∧
    ∀ o ∈ os, ∃ x ∈ w.offers, x.id = o.id ∧ x.entryId = o.entryId

theorem wp_expireOffer {os : List WaitlistOffer} (hw : Sound w) (hd : Due now (o :: os) w) :
    wp (expireOffer now o) (fun _ w' => Changes w w' ∧ Due now os w') c w := by
  simp only [expireOffer, wp_bind]
  refine wp_lockEntry fun e he heid => wp_lockOffer fun x hx hxid => ?_
  obtain ⟨y, hy, hyid, hyentry⟩ := hd.2 o List.mem_cons_self
  obtain rfl := Table.eq_of_key hx hy (hxid.trans hyid.symm)
  simp only [closeOffer, when, wp_ite, wp_bind, wp_modify, wp_pure]
  have hentry : x.entryId = e.id := hyentry.trans heid.symm
  refine ⟨fun hrun => ?_, fun hlive =>
    ⟨.refl, fun z hz hzs => ?_, fun z hz => hd.2 z (List.mem_cons_of_mem _ hz)⟩⟩
  · have hoff := ((hw.consistent.linked x hx e he hentry.symm).opened hrun.1).1
    refine ⟨fun _ => ⟨.single (.released he hx hentry hrun.1 rfl (.inl ⟨rfl, rfl⟩)), fun z hz hzs => ?_,
      fun z hz => ?_⟩, fun hne => absurd hoff hne⟩
    · rcases own_offers hx (closed x) rfl hz with rfl | ⟨hz, hne⟩
      · cases hzs
      · refine (hd.1 z hz hzs).imp_right fun hmem => (List.mem_cons.1 hmem).resolve_left fun h => hne ?_
        exact Table.eq_of_key hz hx ((congrArg _ h).trans hxid.symm)
    · obtain ⟨u, hu, huid, huentry⟩ := hd.2 z (List.mem_cons_of_mem _ hz)
      by_cases hux : u.id = x.id
      · obtain rfl := Table.eq_of_key hu hx hux
        exact ⟨closed u, Table.mem_save_self hx rfl, huid, huentry⟩
      · exact ⟨u, Table.mem_save.2 (.inl ⟨hu, hux⟩), huid, huentry⟩
  · rcases hd.1 z hz hzs with hlt | hmem
    · exact .inl hlt
    · rcases List.mem_cons.1 hmem with rfl | hmem
      · obtain rfl := Table.eq_of_key hx hz hxid
        exact .inl (not_le.1 fun hle => hlive ⟨hzs, hle⟩)
      · exact .inr hmem

theorem wp_expireOffers {os : List WaitlistOffer} (hw : Sound w) (hd : Due now os w) :
    wp (expireOffers now os) (fun _ => Matching now w) c w := by
  induction os generalizing w with
  | nil => exact wp_pure.2 ⟨.refl, fun o ho hs => (hd.1 o ho hs).resolve_right List.not_mem_nil⟩
  | cons o os ih =>
    refine wp_bind.2 (wp_mono (wp_expireOffer hw hd) ?_)
    rintro _ w₁ ⟨hc, hd₁⟩
    exact wp_mono (ih (hc.sound hw) hd₁) fun _ _ h => ⟨hc.trans h.changes, h.alive⟩

theorem due_expiredOffers (w : WaitlistDb) : Due now (w.expiredOffers now) w := by
  refine ⟨fun o ho hs => ?_, fun o ho => ⟨o, List.mem_of_mem_filter ho, rfl, rfl⟩⟩
  by_cases hlt : now < o.expiresAt
  · exact .inl hlt
  · exact .inr (List.mem_filter.2 ⟨ho, by simp [hs, not_lt.1 hlt]⟩)

theorem wp_matchAvailable (hw : Sound w) : wp matchAvailable (fun _ => Changes w) c w := by
  refine (Calm.onDb .instant).bind_wp fun now w₁ h₁ => ?_
  simp only [wp_bind, wp_get]
  have hw₁ := h₁.changes.sound hw
  refine wp_mono (wp_expireOffers hw₁ (due_expiredOffers w₁)) fun _ w₂ h₂ => ?_
  refine wp_mono (wp_matchPages (h₂.changes.sound hw₁) h₂.alive) fun _ _ h₃ => ?_
  exact (h₁.changes.trans h₂.changes).trans h₃.changes

end matcher

/-! ### Requests and runs -/

section runs

variable {c : WaitlistCall} {w w' : WaitlistDb} {e : WaitlistEntry}

theorem Sound.listen (hw : Sound w) (readings : List Instant) : Changes w (w.listen readings) ∧
    Sound (w.listen readings) := by
  have h : Changes w (w.listen readings) := .single (.other (.of_quiet (.listen readings)))
  exact ⟨h, h.sound hw⟩

theorem wp_perform {op : WaitlistOp} (hw : Sound w) : wp op.perform (fun _ => Changes w) c w := by
  cases op with
  | join request => exact wp_join
  | createManaged request => exact wp_createManaged
  | updateManaged id request => exact wp_updateManaged hw
  | cancelManaged id version => exact wp_cancelManaged hw
  | cancel id version => exact wp_cancel hw
  | accept offerId => exact wp_discard (wp_accept hw)
  | matchAvailable => exact wp_matchAvailable hw
  | other op =>
    obtain ⟨L, o⟩ := hw.orderly
    have hl : c.call.settings.leaseSeconds ≤ max L c.call.settings.leaseSeconds := le_max_right _ _
    have o' := o.mono (le_max_left L c.call.settings.leaseSeconds)
    refine wp_onDb.2 (wp_mono (GManager.wp_perform op hl o') fun _ db e => ?_)
    exact .single (.other (.of_effects o' hl e))

theorem step_changes (r : WaitlistRequest) (hw : Sound w) : Changes w (step w r) := by
  obtain ⟨hl, hw'⟩ := hw.listen r.call.call.readings
  exact commit_of_wp (P := Changes w) hl (wp_mono (wp_perform hw') fun _ _ h => hl.trans h)

theorem sound_empty (t : Instant) : Sound (.empty t) := by
  have hn : ∀ {κ ρ : Type} {key : ρ → κ} {r : ρ}, ¬ r ∈ (Table.empty : Table key) := Table.not_mem_empty
  refine ⟨⟨fun _ h => absurd h hn, fun _ h => absurd h hn, fun _ h => absurd h hn, fun _ h => absurd h hn,
    fun _ h => absurd h hn, fun _ h => absurd h hn, fun _ h => absurd h hn, fun _ h =>
    absurd h hn⟩, 0, .empty t⟩

theorem Reachable.sound (h : Reachable w) : Sound w := by
  obtain ⟨t, rs, rfl⟩ := h
  have hrun : ∀ w, Sound w → Sound (run w rs) := by
    induction rs with
    | nil => exact fun _ h => h
    | cons r rs ih => exact fun w h => ih _ ((step_changes r h).sound h)
  exact hrun _ (sound_empty t)

theorem Reachable.step (h : Reachable w) (r : WaitlistRequest) : Reachable (step w r) := by
  obtain ⟨t, rs, rfl⟩ := h
  refine ⟨t, rs ++ [r], ?_⟩
  exact (@List.foldl_append _ _ Waitlist.step (.empty t) rs [r]).symm

/-- Entries that are accepted or cancelled stay so. -/
theorem Change.terminal (hc : Change w w') (hw : Consistent w) (he : e ∈ w.entries) (hs : e.status ≠ .waiting)
    (hs' : e.status ≠ .offered) : e ∈ w'.entries := by
  have hother : ∀ {x x' : WaitlistEntry}, x ∈ w.entries → x'.id = x.id → x ≠ e →
      e ∈ (w.putEntry x').entries :=
    fun hx hid hne => (mem_putEntry hx hid).2 (.inr ⟨he, fun h => hne (Table.eq_of_key hx he h.symm)⟩)
  cases hc with
  | other => exact he
  | entered _ _ hi => exact (Table.mem_insert hi).2 (.inl he)
  | edited hx hst hid => exact hother hx hid fun h => hs (h ▸ hst)
  | released hx ho hentry hst hid =>
    exact hother hx hid fun h => hs' (h ▸ ((hw.linked _ ho _ hx hentry.symm).opened hst).1)
  | issued hx hst hid => exact hother hx hid fun h => hs (h ▸ hst)
  | accepted hx ho hentry hst hid =>
    exact hother hx hid fun h => hs' (h ▸ ((hw.linked _ ho _ hx hentry.symm).opened hst).1)

theorem Changes.terminal (hc : Changes w w') (hw : Sound w) (he : e ∈ w.entries) (hs : e.status ≠ .waiting)
    (hs' : e.status ≠ .offered) : e ∈ w'.entries := by
  induction hc with
  | refl => exact he
  | tail h hc ih => exact hc.terminal (Changes.sound h hw).consistent ih hs hs'

/-- Where an entry is accepted, an acceptance of any of its offers books nothing. -/
theorem accept_again {o : WaitlistOffer} (he : e ∈ w.entries) (hs : e.status = .accepted)
    (ho : o ∈ w.offers) (hid : o.entryId = e.id) :
    ((accept o.id).commit c w).db.reservations = w.db.reservations := by
  refine commit_of_wp (P := fun w' : WaitlistDb => w'.db.reservations = w.db.reservations) rfl ?_
  simp only [accept, wp_bind]
  refine wp_customer fun w₁ h₁ hrole => wp_lockOffer fun x hx hxid => wp_lockEntry fun y hy hyid => ?_
  obtain rfl := Table.eq_of_key hx (h₁.offers ▸ ho) hxid
  obtain rfl := Table.eq_of_key hy (h₁.entries ▸ he) (hyid.trans hid)
  simp only [wp_require]
  intro _
  refine wp_lockOffer fun z hz hzid => ?_
  simp only [wp_ite, wp_pure, wp_bind, wp_require]
  refine ⟨fun _ => h₁.quiet.reservations, fun _ => ?_⟩
  refine wp_mono (Calm.onDb .instant c w₁) fun now w₂ h₂ hopen => ?_
  exact absurd (hs.symm.trans hopen.1) (by decide)

theorem Consistent.existsUnique (hw : Consistent w) (he : e ∈ w.entries) :
    (e.status = .offered ↔ ∃! o, o ∈ w.offers ∧ o.entryId = e.id ∧ o.status = .offered) ∧
    (e.status = .accepted ↔ ∃! o, o ∈ w.offers ∧ o.entryId = e.id ∧ o.status = .accepted) := by
  constructor
  · constructor
    · intro hs
      obtain ⟨o, ho, hid, hst⟩ := hw.opened e he hs
      refine ⟨o, ⟨ho, hid, hst⟩, ?_⟩
      rintro x ⟨hx, hxid, hxs⟩
      exact hw.single x hx o ho (hxid.trans hid.symm) (by rw [hxs]; decide) (by rw [hst]; decide)
    · rintro ⟨o, ⟨ho, hid, hst⟩, -⟩
      exact ((hw.linked o ho e he hid.symm).opened hst).1
  · constructor
    · intro hs
      obtain ⟨o, ho, hid, hst⟩ := hw.accepted e he hs
      refine ⟨o, ⟨ho, hid, hst⟩, ?_⟩
      rintro x ⟨hx, hxid, hxs⟩
      exact hw.single x hx o ho (hxid.trans hid.symm) (by rw [hxs]; decide) (by rw [hst]; decide)
    · rintro ⟨o, ⟨ho, hid, hst⟩, -⟩
      exact ((hw.linked o ho e he hid.symm).accepted hst).1

end runs

/-- The state machine of the waitlist, in every reachable state: an entry is offered exactly when one offer
of its is open, under its identifier, and accepted exactly when one offer of its is accepted, with a
reservation of its customer; other entries have no such offers; the keys of the queue name one entry each;
no two open offers clash; accepted and cancelled entries stay as they are under every request; and a
repeated acceptance books nothing. -/
theorem waitlist_states {w : WaitlistDb} (h : Reachable w) :
    (∀ e ∈ w.entries,
      (e.status = .offered ↔ ∃! o, o ∈ w.offers ∧ o.entryId = e.id ∧ o.status = .offered) ∧
      (∀ o ∈ w.offers, o.entryId = e.id → o.activeKey = if o.status = .offered then some e.id else none) ∧
      (e.status = .accepted ↔ ∃! o, o ∈ w.offers ∧ o.entryId = e.id ∧ o.status = .accepted) ∧
      (∀ o ∈ w.offers, o.entryId = e.id → o.status = .accepted →
        ∃ r ∈ w.db.reservations, o.reservationId = some r.id ∧ r.customerId = e.customerId) ∧
      (e.status = .waiting ∨ e.status = .cancelled → ∀ o ∈ w.offers, o.entryId = e.id → o.status = .expired) ∧
      (e.activeKey.isSome ↔ e.status = .waiting ∨ e.status = .offered) ∧
      (∀ e' ∈ w.entries, e.activeKey.isSome → e'.activeKey = e.activeKey → e' = e) ∧
      (e.status = .accepted ∨ e.status = .cancelled → ∀ r, e ∈ (step w r).entries) ∧
      (e.status = .accepted → ∀ c, ∀ o ∈ w.offers, o.entryId = e.id →
        ((accept o.id).commit c w).db.reservations = w.db.reservations)) ∧
    ∀ o ∈ w.offers, ∀ o' ∈ w.offers, o.status = .offered → o'.status = .offered → o ≠ o' →
      ∃ e ∈ w.entries, ∃ e' ∈ w.entries, e.id = o.entryId ∧ e'.id = o'.entryId ∧
      ¬ (slotOf o e).Clash (slotOf o' e') := by
  have hs := h.sound
  have hw := hs.consistent
  refine ⟨fun e he => ⟨(hw.existsUnique he).1, fun o ho hid => ?_, (hw.existsUnique he).2,
    fun o ho hid hst => ?_, fun hst o ho hid => ?_, (hw.wellformed e he).key, fun e' he' hsome hk =>
    hw.keys e' he' e he (hk ▸ hsome) hk, fun hst r => ?_, fun hst c o ho hid => accept_again he hst ho hid⟩,
    fun o ho o' ho' hst hst' hne => ?_⟩
  · have hl := hw.linked o ho e he hid.symm
    by_cases hst : o.status = .offered
    · rw [if_pos hst]
      exact (hl.opened hst).2
    · rw [if_neg hst]
      exact hl.idle hst
  · exact ((hw.linked o ho e he hid.symm).accepted hst).2
  · refine hw.expired_of_waiting he ?_ ?_ ho hid <;> rcases hst with hst | hst <;> rw [hst] <;> decide
  · refine (step_changes r hs).terminal hs he ?_ ?_ <;> rcases hst with hst | hst <;> rw [hst] <;> decide
  · obtain ⟨e, he, hid⟩ := hw.entry o ho
    obtain ⟨e', he', hid'⟩ := hw.entry o' ho'
    exact ⟨e, he, e', he', hid, hid', hw.apart o ho o' ho' hst hst' hne e he e' he' hid hid'⟩

/-! ### An offer is accepted -/

namespace Arcade

open GManager.Arcade

/-- A service of the desk that needs nothing physical, and a second customer. -/
def desk : Catalogue where
  users := ⟨[⟨1, .owner, true, false⟩, ⟨2, .customer, true, false⟩, ⟨3, .employee, true, false⟩,
    ⟨5, .customer, true, false⟩], by decide⟩
  items := ⟨[⟨11, .service, some 60, false, true⟩], by decide⟩
  locations := .empty
  areas := .empty
  resources := .empty
  grants := []
  stations := .empty
  profiles := .empty
  timeOff := []
  area_location := fun _ h => absurd h Table.not_mem_empty
  resource_area := fun _ h => absurd h Table.not_mem_empty

/-- A request to the desk, at one instant. -/
def request (actor : AuthenticatedUser) (freshId : UUID) (t : Instant) (op : WaitlistOp) :
    WaitlistRequest where
  op
  call :=
    { call := { (GManager.Arcade.request freshId t .purge).call with actor, catalogue := desk }
      locationGrants := []
      offerId := fun id => 1000 + id
      startOfDay := fun d => d * 86400000000
      startOfDay_le := fun {d t} => (Int.le_ediv_iff_mul_le (by decide)).symm.trans (by
        show d ≤ t / 86400000000 ↔ d ≤ (t + 0) / (microsPerDay : ℤ)
        rw [add_zero]
        rfl)
      service_duration := by simp [desk, ← Table.mem_rows] }

/-- A reservation is made, awaited and cancelled, and its time is offered to the one who waits. -/
def offered : WaitlistDb := run (.empty 0)
  [request ⟨2, .customer⟩ 200 10000000
    (.other (.create ⟨some 3, 11, none, 3600000000, none, none, none, none, none⟩)),
    request ⟨5, .customer⟩ 201 11000000 (.join ⟨11, 3, none, 3600000000, none⟩),
    request ⟨1, .owner⟩ 202 12000000 (.other (.changeStatus 200 ⟨.cancelled, some "Closed", 0⟩)),
    request ⟨1, .owner⟩ 203 13000000 .matchAvailable]

def accepted : WaitlistDb := step offered (request ⟨5, .customer⟩ 204 14000000 (.accept 1201))

theorem reachable_accepted : Reachable accepted := Reachable.step ⟨0, _, rfl⟩ _

theorem waitlist_states_accepted : (∃ e ∈ accepted.entries.rows, e.status = .accepted) ∧
    (∀ e ∈ accepted.entries, e.status = .accepted → ∃! o, o ∈ accepted.offers ∧ o.entryId = e.id ∧
      o.status = .accepted) ∧
    ∀ e ∈ accepted.entries, e.status = .accepted → ∀ r, e ∈ (step accepted r).entries := by
  refine ⟨by decide +kernel, fun e he hs => ?_, fun e he hs => ?_⟩
  · exact ((waitlist_states reachable_accepted).1 e he).2.2.1.1 hs
  · exact ((waitlist_states reachable_accepted).1 e he).2.2.2.2.2.2.2.1 (.inl hs)

end Arcade

end GManager.Waitlist
