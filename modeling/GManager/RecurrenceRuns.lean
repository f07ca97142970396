import GManager.Recurrence
import GManager.Requests

/-!
# Series that are created

The starts of a series keep the wall-clock time of the base and come in their order. A series that is
created leaves one reservation and one event for each occurrence that was created, and nothing of the
others, although all were tried in one transaction: a trial writes nothing before its last check, and after
it fails only with what is not skipped.
-/

namespace GManager

open Txn

/-! ### Starts -/

section starts

variable {zone : ZoneRules} {request : RecurrenceRequest} {values : List Instant}

theorem starts_eq_ok (h : starts zone request = .ok values) :
    values = (List.range request.occurrences).map fun index =>
    zone.plusDate request.startTime (request.move index) := by
  unfold starts at h
  simp only at h
  split at h
  · split at h
    · cases h
    · exact (Except.ok.inj h).symm
  · cases h

/-- Two moves of the base are at least a week apart. -/
theorem RecurrenceRequest.move_add_le (hi : 1 ≤ request.interval) {i j : ℕ} (hij : i < j) (d : ℤ) :
    request.move i d + 7 ≤ request.move j d := by
  have hlt : request.interval * i < request.interval * j := by
    have : (i : ℤ) < j := by omega
    nlinarith
  unfold move
  split
  · exact LocalDate.plusWeeks_add_le d hlt
  · have := LocalDate.plusMonths_add_le d hlt
    omega

theorem starts_increasing (hi : 1 ≤ request.interval) (h : starts zone request = .ok values) :
    values.Pairwise (· < ·) := by
  rw [starts_eq_ok h, List.pairwise_map]
  exact List.pairwise_lt_range.imp fun hij => zone.plusDate_lt (request.move_add_le hi hij _)

end starts

/-! ### Parts -/

/-- The written tables are as they were. -/
structure RecurrenceDb.Kept (s s' : RecurrenceDb) : Prop where
  reservations : s'.db.reservations = s.db.reservations
  series : s'.series = s.series
  outbox : s'.outbox = s.outbox

theorem RecurrenceDb.Kept.refl (s : RecurrenceDb) : s.Kept s := ⟨rfl, rfl, rfl⟩

theorem RecurrenceDb.Kept.trans {s s₁ s' : RecurrenceDb} (h : s.Kept s₁) (h' : s₁.Kept s') : s.Kept s' :=
  ⟨h'.reservations.trans h.reservations, h'.series.trans h.series, h'.outbox.trans h.outbox⟩

section parts

variable {α : Type} {c : RecurrenceCall} {s : RecurrenceDb} {Q : α → RecurrenceDb → Prop}
  {R : Failure → RecurrenceDb → Prop}

/-- A part that only reads. -/
theorem ends_tables {x : Tx α} {P : α → Prop} (hx : wp x (fun a db' => Quiet s.db db' ∧ P a) c.call s.db)
    (hQ : ∀ a s', s.Kept s' → P a → Q a s') (hR : ∀ e, R e s) : Work.Ends (tables x) Q R c s :=
  Work.ends_part (wp_mono hx fun a db' h => hQ a { s with db := db' } ⟨h.1.reservations, rfl, rfl⟩ h.2) hR

theorem ends_quiet {x : Tx α} (hx : QuietTx x) (hQ : ∀ a s', s.Kept s' → Q a s') (hR : ∀ e, R e s) :
    Work.Ends (tables x) Q R c s :=
  ends_tables (P := fun _ => True) (wp_mono (hx c.call s.db) fun _ _ q => ⟨q, trivial⟩)
    (fun a s' h _ => hQ a s' h) hR

theorem ends_instant {Q : Instant → RecurrenceDb → Prop} :
    Work.Ends (tables instant) Q R c s ↔
    Q s.db.clock.next.now { s with db := { s.db with clock := s.db.clock.next } } := Iff.rfl

theorem ends_insertInto {κ ρ : Type} [DecidableEq κ] {key : ρ → κ} {table : RecurrenceDb → Table key}
    {put : RecurrenceDb → Table key → RecurrenceDb} {row : ρ} {Q : Unit → RecurrenceDb → Prop}
    (hQ : ∀ t, (table s).insert row = some t → Q () (put s t)) (hR : R .dataIntegrity s) :
    Work.Ends (insertInto table put row) Q R c s := by
  simp only [insertInto, Work.ends_bind, Work.ends_get, Work.ends_orThrow, Work.ends_modify]
  exact ⟨hQ, fun _ => hR⟩

end parts

/-! ### One occurrence -/

/-- The duration of the service in minutes, which does not depend on the start. -/
def RecurrenceCall.Lasts (c : RecurrenceCall) (serviceId : UUID)
    (durationMinutes : Option ℤ) (d : ℤ) : Prop :=
  ∃ service, c.call.catalogue.getActiveById serviceId = .ok service ∧ match durationMinutes with
    | none => service.durationMinutes = some d
    | some _ => c.call.catalogue.reservationDuration c.call.settings service durationMinutes = .ok d

theorem RecurrenceCall.Lasts.unique {c : RecurrenceCall} {serviceId : UUID} {durationMinutes : Option ℤ}
    {d d' : ℤ} (h : c.Lasts serviceId durationMinutes d)
    (h' : c.Lasts serviceId durationMinutes d') : d = d' := by
  obtain ⟨service, hs, hd⟩ := h
  obtain ⟨service', hs', hd'⟩ := h'
  obtain rfl := Except.ok.inj (hs.symm.trans hs')
  cases durationMinutes with
  | none => exact Option.some.inj (hd.symm.trans hd')
  | some m => exact Except.ok.inj (hd.symm.trans hd')

theorem wp_serviceDuration {c : RecurrenceCall} {request : CreateReservationRequest} {db : Db} :
    wp (serviceDuration request)
      (fun d db' => Quiet db db' ∧ c.Lasts request.serviceId request.durationMinutes d) c.call db := by
  simp only [serviceDuration, wp_bind, wp_ask, wp_lift, wp_require]
  intro service hs _
  cases hm : request.durationMinutes with
  | none => exact wp_orThrow.2 fun d hd => ⟨.refl db, service, hs, hd⟩
  | some m => exact wp_lift.2 fun d hd => ⟨.refl db, service, hs, hd⟩

/-- What a created occurrence leaves: one row and one event. -/
structure Reserved (c : RecurrenceCall) (customerId : UUID) (request : CreateReservationRequest)
    (seriesId : UUID) (r : Reservation) (s s' : RecurrenceDb) : Prop where
  row : s'.db.reservations.rows = s.db.reservations.rows ++ [r]
  event : ∃ e, s'.outbox.rows = s.outbox.rows ++ [e] ∧ e.eventType = "RESERVATION_CREATED" ∧
    e.aggregateId = r.id
  series : s'.series = s.series
  belongs : r.recurrenceSeriesId = some seriesId ∧ r.customerId = customerId
  start : r.startTime = request.startTime
  stop : ∃ d, c.Lasts request.serviceId request.durationMinutes d ∧ r.endTime = r.startTime.plusMinutes d

/-- A trial that fails has written nothing, or fails with a broken constraint. -/
theorem ends_reserve {c : RecurrenceCall} {s : RecurrenceDb} {drawn : Drawn} {customerId : UUID}
    {request : CreateReservationRequest} {seriesId : UUID} : Work.Ends
      (reserve drawn customerId request seriesId) (fun r s' => Reserved c customerId request seriesId r s s')
      (fun e s' => s.Kept s' ∨ e = .dataIntegrity) c s := by
  have k₀ : s.Kept { s with db := s.db.listen drawn.readings } := ⟨rfl, rfl, rfl⟩
  simp only [reserve, Work.ends_bind, Work.ends_modify, Work.ends_ask, Work.ends_participate,
    Work.ends_require, Work.ends_pure]
  refine ends_quiet .instant (fun now s₁ k₁ => ⟨fun _ => ?_, fun _ => .inl (k₀.trans k₁)⟩) fun _ => .inl k₀
  replace k₁ := k₀.trans k₁
  refine ends_quiet (.lift _) (fun _ s₂ k₂ => ?_) fun _ => .inl k₁
  replace k₂ := k₁.trans k₂
  refine ends_tables wp_serviceDuration (fun d s₃ k₃ hd => ?_) fun _ => .inl k₂
  replace k₃ := k₂.trans k₃
  refine ends_quiet (.lift _) (fun required s₄ k₄ => ?_) fun _ => .inl k₃
  replace k₄ := k₃.trans k₄
  refine ends_quiet (.lift _) (fun _ s₅ k₅ => ?_) fun _ => .inl k₄
  replace k₅ := k₄.trans k₅
  refine ends_quiet (fun _ _ => wp_mono wp_selectEmployee fun _ _ h => h.1 ▸ .refl _)
    (fun employee s₆ k₆ => ?_) fun _ => .inl k₅
  replace k₆ := k₅.trans k₆
  refine ends_quiet (fun _ _ => wp_mono wp_selectForBooking fun _ _ h => h.1)
    (fun resource s₇ k₇ => ?_) fun _ => .inl k₆
  replace k₇ := k₆.trans k₇
  refine ends_quiet (.lift _) (fun _ s₈ k₈ => ?_) fun _ => .inl k₇
  replace k₈ := k₇.trans k₈
  refine ends_quiet (.bookingLocation _ _) (fun location s₉ k₉ => ?_) fun _ => .inl k₈
  replace k₉ := k₈.trans k₉
  refine ends_quiet (.lift _) (fun _ s' k' => ?_) fun _ => .inl k₉
  replace k' := k₉.trans k'
  refine ends_insertInto (fun t ht => ?_) (.inr rfl)
  rw [k'.reservations] at ht
  simp only [writeOutbox, Work.ends_bind, Work.ends_ask, ends_instant]
  refine ends_insertInto (fun outbox ho => ?_) (.inr rfl)
  rw [k'.outbox] at ho
  refine ⟨(Table.insert_eq_some.1 ht).2, ⟨_, (Table.insert_eq_some.1 ho).2, rfl, rfl⟩, k'.series,
    ⟨rfl, rfl⟩, rfl, d, hd, rfl⟩

/-! ### The loop -/

/-- When an occurrence runs. -/
def RecurrenceOccurrence.span (o : RecurrenceOccurrence) : Instant × Instant := (o.startTime, o.endTime)

def Reservation.span (r : Reservation) : Instant × Instant := (r.startTime, r.endTime)

/-- What the trials of some occurrences leave. -/
structure Tried (customerId seriesId : UUID) (os : List RecurrenceOccurrence) (created : List Reservation)
    (skipped : List RecurrenceOccurrence) (s s' : RecurrenceDb) : Prop where
  rows : s'.db.reservations.rows = s.db.reservations.rows ++ created
  events : ∃ events, s'.outbox.rows = s.outbox.rows ++ events ∧
    events.map (·.aggregateId) = created.map (·.id) ∧ ∀ e ∈ events, e.eventType = "RESERVATION_CREATED"
  series : s'.series = s.series
  belongs : ∀ r ∈ created, r.recurrenceSeriesId = some seriesId ∧ r.customerId = customerId
  sublist : (created.map (·.span)).Sublist (os.map (·.span))
  perm : (created.map (·.span) ++ skipped.map (·.span)).Perm (os.map (·.span))

section loop

variable {customerId seriesId : UUID} {o o' : RecurrenceOccurrence} {os : List RecurrenceOccurrence}
  {r : Reservation} {created : List Reservation} {skipped : List RecurrenceOccurrence}
  {s s₁ s' : RecurrenceDb}

/-- An occurrence is created, and the others after it. -/
theorem Tried.reserve {c : RecurrenceCall} {request : CreateReservationRequest}
    (t : Tried customerId seriesId os created skipped s₁ s')
    (hr : Reserved c customerId request seriesId r s s₁) (hspan : r.span = o.span) :
    Tried customerId seriesId (o :: os) (r :: created) skipped s s' := by
  obtain ⟨e, he, hetype, heid⟩ := hr.event
  obtain ⟨events, hevents, hids, htypes⟩ := t.events
  refine ⟨?_, ⟨e :: events, ?_, ?_, ?_⟩, t.series.trans hr.series, ?_, ?_, ?_⟩
  · rw [t.rows, hr.row, List.append_assoc, List.singleton_append]
  · rw [hevents, he, List.append_assoc, List.singleton_append]
  · rw [List.map_cons, List.map_cons, heid, hids]
  · exact List.forall_mem_cons.2 ⟨hetype, htypes⟩
  · exact List.forall_mem_cons.2 ⟨hr.belongs, t.belongs⟩
  · rw [List.map_cons, List.map_cons, hspan]
    exact t.sublist.cons_cons _
  · rw [List.map_cons, List.map_cons, hspan, List.cons_append]
    exact t.perm.cons _

/-- An occurrence is skipped and has left nothing. -/
theorem Tried.skip (t : Tried customerId seriesId os created skipped s₁ s') (k : s.Kept s₁)
    (hspan : o'.span = o.span) : Tried customerId seriesId (o :: os) created (o' :: skipped) s s' := by
  obtain ⟨events, hevents, hids, htypes⟩ := t.events
  refine ⟨by rw [t.rows, k.reservations], ⟨events, by rw [hevents, k.outbox], hids, htypes⟩,
    t.series.trans k.series, t.belongs, ?_, ?_⟩
  · rw [List.map_cons]
    exact t.sublist.cons _
  · rw [List.map_cons, List.map_cons, hspan]
    exact List.perm_middle.trans (t.perm.cons _)

end loop

/-- A broken constraint is not skipped. -/
theorem RecurrenceRequest.skips_eq_some {request : RecurrenceRequest} {e : Failure} {message : String}
    (h : request.skips e = some message) : request.conflictPolicy ≠ .allOrNothing ∧ e ≠ .dataIntegrity := by
  unfold skips at h
  split at h
  · rename_i e
    split at h
    · cases h
    · rename_i hn
      push Not at hn
      exact ⟨hn.1, fun h => by cases h⟩
  · cases h

theorem ends_createEach {c : RecurrenceCall} {request : RecurrenceRequest} {customerId seriesId : UUID}
    {d : ℤ} (hd : c.Lasts request.serviceId request.durationMinutes d) {index : ℕ}
    {os : List RecurrenceOccurrence} {s : RecurrenceDb}
    (hos : ∀ o ∈ os, o.endTime = o.startTime.plusMinutes d) :
    Work.Ends (createEach request customerId seriesId index os)
      (fun p s' => Tried customerId seriesId os p.1 p.2 s s' ∧ (request.conflictPolicy = .allOrNothing →
        (∀ o ∈ os, o.available = true) → p.2 = [])) (fun _ _ => True) c s := by
  induction os generalizing index s with
  | nil =>
    simp only [createEach, Work.ends_pure]
    exact ⟨⟨(List.append_nil _).symm,
      ⟨[], (List.append_nil _).symm, rfl, fun _ he => absurd he List.not_mem_nil⟩, rfl, fun _ hr =>
      absurd hr List.not_mem_nil, .slnil, .nil⟩, fun _ _ => trivial⟩
  | cons o os ih =>
    obtain ⟨ho, hos⟩ := List.forall_mem_cons.1 hos
    simp only [createEach]
    split
    · simp only [Work.ends_bind, Work.ends_ask, Work.ends_attempt]
      refine ends_reserve.mono (fun r s₁ hr => ?_) fun e s₁ he => ?_
      · have hspan : r.span = o.span := by
          obtain ⟨d', hd', hstop⟩ := hr.stop
          rw [hr.start] at hstop
          rw [Reservation.span, RecurrenceOccurrence.span, hstop, hr.start, ho, hd.unique hd']
          rfl
        refine (ih hos).mono (fun p s' hp => Work.ends_pure.2 ⟨hp.1.reserve hr hspan, fun hall hav => ?_⟩)
          fun _ _ => id
        exact hp.2 hall fun x hx => hav x (List.mem_cons_of_mem _ hx)
      · split
        · exact Work.ends_throw.2 trivial
        · rename_i message hm
          obtain ⟨hpolicy, hne⟩ := RecurrenceRequest.skips_eq_some hm
          simp only [Work.ends_bind, Work.ends_pure]
          refine (ih hos).mono (fun p s' hp =>
            ⟨hp.1.skip (he.resolve_right hne) rfl, fun hall => absurd hall hpolicy⟩) fun _ _ => id
    · rename_i hno
      simp only [Work.ends_bind, Work.ends_pure]
      refine (ih hos).mono (fun p s' hp => ⟨hp.1.skip (.refl s) rfl, fun _ hav => ?_⟩) fun _ _ => id
      exact absurd (hav o List.mem_cons_self) hno

/-! ### The series -/

theorem QuietTx.recurrenceAccess (request : RecurrenceRequest) : QuietTx (recurrenceAccess request) := by
  intro c db
  simp only [GManager.recurrenceAccess, wp_bind, wp_ask, wp_ite]
  refine ⟨fun _ => ?_, fun _ => by simp⟩
  split <;> simp

/-- The preview lists the starts, each with the duration of the service. -/
theorem wp_previewInternal {c : RecurrenceCall} {request : RecurrenceRequest} {customerId : UUID} {db : Db} :
    wp (previewInternal c.zone request customerId)
      (fun preview db' => Quiet db db' ∧ ∃ values d, starts c.zone request = .ok values ∧
        c.Lasts request.serviceId request.durationMinutes d ∧ preview.map (·.startTime) = values ∧
      ∀ o ∈ preview, o.endTime = o.startTime.plusMinutes d) c.call db := by
  simp only [previewInternal, wp_bind, wp_ask, wp_require, wp_lift, wp_pure]
  refine wp_mono wp_serviceDuration fun d db₁ h₁ _ => ?_
  refine wp_mono (QuietTx.recurrenceAccess request c.call db₁) fun allowed db₂ q₂ values hv => ?_
  refine wp_mono (QuietTx.prepare _ _ _ _ _ _ _ _ _ c.call db₂) fun snapshot db₃ q₃ => ?_
  refine ⟨(h₁.1.trans q₂).trans q₃, values, d, hv, h₁.2, ?_, fun o ho => ?_⟩
  · rw [List.map_map]
    exact List.map_id _
  · obtain ⟨start, -, rfl⟩ := List.mem_map.1 ho
    rfl

/-- What a series that is created leaves. -/
structure Recurring (c : RecurrenceCall) (request : RecurrenceRequest) (response : RecurrenceCreateResponse)
    (s s' : RecurrenceDb) : Prop where
  rows : s'.db.reservations.rows = s.db.reservations.rows ++ response.created
  events : ∃ events, s'.outbox.rows = s.outbox.rows ++ events ∧
    events.map (·.aggregateId) = response.created.map (·.id) ∧
    ∀ e ∈ events, e.eventType = "RESERVATION_CREATED"
  series : ∃ row, s'.series.rows = s.series.rows ++ [row] ∧ row.id = response.seriesId
  belongs : ∀ r ∈ response.created, r.recurrenceSeriesId = some response.seriesId
  occurrences : ∃ values d, starts c.zone request = .ok values ∧
    c.Lasts request.serviceId request.durationMinutes d ∧ (response.created.map (·.span) ++
      response.skipped.map (·.span)).Perm (values.map fun start => (start, start.plusMinutes d))
  all : request.conflictPolicy = .allOrNothing → response.skipped = [] ∧
    starts c.zone request = .ok (response.created.map (·.startTime))

theorem ends_createRecurrence {c : RecurrenceCall} {request : RecurrenceRequest} {s : RecurrenceDb} :
    Work.Ends (createRecurrence request) (fun response s' => Recurring c request response s s')
      (fun _ _ => True) c s := by
  simp only [createRecurrence, Work.ends_bind, Work.ends_ask, Work.ends_require, Work.ends_pure]
  refine ends_quiet (.preAuthorize _) (fun _ s₁ k₁ => ?_) fun _ => trivial
  refine ends_quiet (.resolveBookingCustomer _) (fun customerId s₂ k₂ => ?_) fun _ => trivial
  refine ends_tables wp_previewInternal
    (fun preview s₃ k₃ h => ⟨fun hpolicy => ⟨fun hsome => ?_, fun _ => trivial⟩, fun _ => trivial⟩)
    fun _ => trivial
  obtain ⟨values, d, hv, hd, hstarts, hstops⟩ := h
  have k := (k₁.trans k₂).trans k₃
  refine ends_insertInto (fun t ht => ?_) trivial
  refine (ends_createEach hd hstops).mono (fun p s' hp => ⟨fun _ => ?_, fun _ => trivial⟩) fun _ _ => id
  obtain ⟨hp, hall⟩ := hp
  have hspans : preview.map (·.span) = values.map fun start => (start, start.plusMinutes d) := by
    rw [← hstarts, List.map_map]
    refine List.map_congr_left fun o ho => ?_
    rw [RecurrenceOccurrence.span, hstops o ho]
    rfl
  refine ⟨?_, ?_, ⟨⟨c.call.freshId, customerId, request.frequency, request.interval, request.occurrences,
    request.conflictPolicy⟩, ?_, rfl⟩, fun r hr => (hp.belongs r hr).1,
    ⟨values, d, hv, hd, hspans ▸ hp.perm⟩, fun hpol => ?_⟩
  · rw [hp.rows]
    exact congrArg (·.rows ++ p.1) k.reservations
  · obtain ⟨events, hevents, hids, htypes⟩ := hp.events
    exact ⟨events, hevents.trans (congrArg (·.rows ++ events) k.outbox), hids, htypes⟩
  · rw [hp.series, (Table.insert_eq_some.1 ht).2, k.series]
  · have hav : ∀ o ∈ preview, o.available = true := by simpa [hpol] using hpolicy
    have hskip := hall hpol hav
    refine ⟨hskip, hv.trans (congrArg _ ?_)⟩
    have hlen : (p.1.map (·.span)).length = (preview.map (·.span)).length := by
      simpa [hskip] using hp.perm.length_eq
    have heq := hp.sublist.eq_of_length hlen
    have hfst := congrArg (List.map Prod.fst) heq
    simp only [List.map_map] at hfst
    exact hstarts.symm.trans hfst.symm

/-- The starts of a series are strictly increasing and keep the date, moved from the base, and the
wall-clock time where it exists. A series either commits with one row and one event for each occurrence that
was created, which together with the skipped ones are all occurrences once, or nothing changes; under the
policy all or nothing a series that commits has skipped none. -/
theorem recurring_bookings (c : RecurrenceCall) (request : RecurrenceRequest) (hi : 1 ≤ request.interval)
    (s : RecurrenceDb) : (∀ values, starts c.zone request = .ok values → values.Pairwise (· < ·) ∧
      values.length = request.occurrences ∧ ∀ (k : ℕ) (start : Instant), values[k]? = some start →
        c.zone.validOffsets (request.move k (c.zone.localDate request.startTime) * microsPerDay +
          c.zone.localTime request.startTime) ≠ [] →
        c.zone.localDate start = request.move k (c.zone.localDate request.startTime) ∧
          c.zone.localTime start = c.zone.localTime request.startTime) ∧
    ((∃ response, ((createRecurrence request).commit c s).1 = .ok response ∧
        Recurring c request response s ((createRecurrence request).commit c s).2 ∧
        ((response.created.map (·.startTime)) ++ response.skipped.map (·.startTime)).Nodup) ∨
      (∃ e, ((createRecurrence request).commit c s).1 = .error e) ∧
      ((createRecurrence request).commit c s).2 = s) := by
  refine ⟨fun values hv => ⟨starts_increasing hi hv, ?_, fun k start hk hvalid => ?_⟩, ?_⟩
  · rw [starts_eq_ok hv, List.length_map, List.length_range]
  · rw [starts_eq_ok hv, List.getElem?_map] at hk
    obtain ⟨i, hik, rfl⟩ := Option.map_eq_some_iff.1 hk
    obtain ⟨-, rfl⟩ := List.getElem?_eq_some_iff.1 hik
    rw [List.getElem_range]
    exact c.zone.toLocal_plusDate hvalid
  · refine (Work.commit_cases ends_createRecurrence).imp_left fun h => ?_
    obtain ⟨response, hok, hr⟩ := h
    refine ⟨response, hok, hr, ?_⟩
    obtain ⟨values, d, hv, hd, hperm⟩ := hr.occurrences
    have hstarts := hperm.map Prod.fst
    simp only [List.map_append, List.map_map] at hstarts
    refine hstarts.nodup_iff.2 ?_
    have hid : values.map (Prod.fst ∘ fun start => (start, start.plusMinutes d)) = values := List.map_id _
    rw [hid]
    exact (starts_increasing hi hv).imp ne_of_lt

namespace Arcade

/-- Three weeks at ten o'clock, at the station. -/
def weekly : RecurrenceRequest :=
  ⟨10, 3, 36000000000, .weekly, 1, 3, .skipConflicts, none, some 40, none, some 2, none, none⟩

def recurrence : RecurrenceCall where
  call := (request 300 10000000 (.account 2)).call
  zone := .fixed 0 (by decide)
  drawn n := ⟨400 + n, 500 + n, [10000000]⟩
  requestId := none
  writeValueAsString _ := "event"
  uuid _ := "id"

theorem recurring_bookings_weekly :
    ∃ response, ((createRecurrence weekly).commit recurrence ⟨Db.empty 0, .empty, .empty⟩).1 = .ok response ∧
      Recurring recurrence weekly response ⟨Db.empty 0, .empty, .empty⟩
        ((createRecurrence weekly).commit recurrence ⟨Db.empty 0, .empty, .empty⟩).2 := by
  rcases (recurring_bookings recurrence weekly (by decide)
    ⟨Db.empty 0, .empty, .empty⟩).2 with ⟨response, hok, hr, -⟩ | ⟨⟨e, he⟩, -⟩
  · exact ⟨response, hok, hr⟩
  · have hok : ((createRecurrence weekly).commit recurrence ⟨Db.empty 0, .empty, .empty⟩).1.isOk =
        true := by decide +kernel
    rw [he] at hok
    cases hok

end Arcade

end GManager
