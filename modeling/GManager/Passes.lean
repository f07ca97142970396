import GManager.CommandLog

/-!
# A pass of the reconciliation

A pass visits every session within retention, page by page, and repairs those whose newest command has been
purged. After its repairs no session is left to repair (`pages_done`), so a second pass finds none unless the
purge at the end of the first one made one.
-/

namespace GManager

open Txn

/-- The session without the number of its command. -/
def GamingSession.withoutPointer (s : GamingSession) : GamingSession := { s with lastCommandSequence := none }

/-- Balances are the same, and of the sessions at most the numbers of their commands differ. -/
structure OnlyPointers (db db' : Db) : Prop where
  accounts : db'.accounts = db.accounts
  sessions : db'.sessions.rows.map GamingSession.withoutPointer = db.sessions.rows.map
    GamingSession.withoutPointer

theorem OnlyPointers.refl (db : Db) : OnlyPointers db db := ⟨rfl, rfl⟩

theorem OnlyPointers.trans {db db₁ db' : Db} (h : OnlyPointers db db₁) (h' : OnlyPointers db₁ db') :
    OnlyPointers db db' :=
  ⟨h'.accounts.trans h.accounts, h'.sessions.trans h.sessions⟩

/-- The identifiers of the sessions. -/
def Db.sessionIds (db : Db) : List UUID := db.sessions.rows.map (·.id)

theorem OnlyPointers.sessionIds {db db' : Db} (h : OnlyPointers db db') : db'.sessionIds = db.sessionIds := by
  have hids := congrArg (List.map (·.id)) h.sessions
  rwa [List.map_map, List.map_map] at hids

/-- The session with this identifier needs no repair: its newest command is there, or it is past retention. -/
def Done (R : ℕ) (db : Db) (id : UUID) : Prop :=
  ∀ s ∈ db.sessions, s.id = id → NewestKept db s ∨ s.pastRetention (db.clock.now.plusSeconds (-R))

theorem GamingSession.pastRetention.mono {s : GamingSession} {t t' : Instant}
    (h : s.pastRetention t) (ht : t ≤ t') :
    s.pastRetention t' := by
  obtain ⟨ha, e, he, hlt⟩ := h
  exact ⟨ha, e, he, hlt.trans_le ht⟩

namespace Repair

variable {R : ℕ} {id : UUID} {db db' : Db}

theorem clock (h : Repair R id db db') : db.clock.now ≤ db'.clock.now := by
  obtain ⟨news, ht⟩ := h.told
  exact ht.clock

theorem onlyPointers (h : Repair R id db db') : OnlyPointers db db' := by
  cases h with
  | skipped h hsess hacc hs => exact ⟨hacc, by rw [hsess]⟩
  | @written s w hs hid hm hp ha hsess hacc =>
    refine ⟨hacc, ?_⟩
    rw [hsess]
    show List.map _ (List.map _ db.sessions.rows) = _
    rw [List.map_map]
    refine List.map_congr_left fun x hx => ?_
    simp only [Function.comp_apply]
    split
    · rename_i hk
      rw [Table.eq_of_key hx hs hk]
      rfl
    · rfl

/-- A repair undoes no other. -/
theorem done_of_done (h : Repair R id db db') {other : UUID} (hd : Done R db other) : Done R db' other := by
  have hmono : db.clock.now.plusSeconds (-R) ≤ db'.clock.now.plusSeconds (-R) :=
    Instant.plusSeconds_mono h.clock _
  cases h with
  | skipped h hsess hacc hs =>
    intro x hx hxid
    rw [hsess] at hx
    refine (hd x hx hxid).imp (fun hk => ?_) fun hp => hp.mono hmono
    rwa [NewestKept, h.commands]
  | @written s w hs hid hm hp ha hsess hacc =>
    intro x hx hxid
    rcases (Db.mem_saved (r := s.announced w.sequence) hs rfl hsess).1 hx with rfl | ⟨hx, -⟩
    · refine .inl ⟨w, ?_, ha.stationId, ha.pointer⟩
      rw [← Table.mem_rows, ha.commands]
      exact List.mem_append_right _ List.mem_cons_self
    · refine (hd x hx hxid).imp (fun hk => ?_) fun hp => hp.mono hmono
      obtain ⟨v, hv, hst, hseq⟩ := hk
      refine ⟨v, ?_, hst, hseq⟩
      rw [← Table.mem_rows, ha.commands]
      exact List.mem_append_left _ hv

end Repair

namespace CommandLog

variable {R : ℕ} {l : CommandLog} {c : Call}

theorem Sound.repair_db (h : Sound R l) (hc : c.settings.retentionSeconds = R) (id : UUID) :
    Repair R id l.db (l.commit c (GManager.repair id)).db := by
  obtain ⟨b, db', hrun⟩ := @repair_commits c l.db (fun w hw => h.sequence_le hw) id
  have hdb : (l.commit c (GManager.repair id)).db = db' := by
    show (GManager.repair id).commit c l.db = db'
    rw [Txn.commit, hrun]
  rw [hdb, ← hc]
  exact wp_repair b db' hrun

/-- After its repair a session needs none. -/
theorem Sound.done_repair (h : Sound R l) (hc : c.settings.retentionSeconds = R) (id : UUID) :
    Done R (l.commit c (GManager.repair id)).db id := by
  have hr := h.repair_db hc id
  generalize (l.commit c (GManager.repair id)).db = db' at hr
  cases hr with
  | skipped hm hsess hacc hs =>
    intro x hx hxid
    rw [hsess] at hx
    refine (hs x hx hxid).imp_left fun hmatch => ?_
    rw [NewestKept, hm.commands]
    exact (h.matches_iff hx).1 hmatch
  | @written s w hs hid hm hp ha hsess hacc =>
    intro x hx hxid
    rcases (Db.mem_saved (r := s.announced w.sequence) hs rfl hsess).1 hx with rfl | ⟨hx, hne⟩
    · refine .inl ⟨w, ?_, ha.stationId, ha.pointer⟩
      rw [← Table.mem_rows, ha.commands]
      exact List.mem_append_right _ List.mem_cons_self
    · exact absurd (hxid.trans hid.symm) hne

/-- A session that needs no repair gets none. -/
theorem Sound.repair_written (h : Sound R l) (hc : c.settings.retentionSeconds = R) {id : UUID}
    (hd : Done R l.db id) : (l.commit c (GManager.repair id)).written = l.written := by
  have hr := h.repair_db hc id
  have hbecome : l.commit c (GManager.repair id) = l.become (l.commit c (GManager.repair id)).db := rfl
  rw [hbecome]
  generalize (l.commit c (GManager.repair id)).db = db' at hr
  cases hr with
  | skipped hm hsess hacc hs =>
    rw [become_of_tells (Tells.refl.tail (Told.mute (R := R) hm hsess))]
    exact List.append_nil _
  | @written s w hs hid hm hp ha hsess hacc =>
    rcases hd s hs hid with hk | hpast
    · rw [(h.matches_iff hs).2 hk] at hm
      cases hm
    · exact absurd hpast hp

/-! ### The pages -/

/-- What the readings of the clock and the repairs keep, the pages keep. -/
theorem pages_induct {P : CommandLog → Prop} (hinstant : ∀ l, P l → P (l.commit c GManager.instant))
    (hrepair : ∀ l id, P l → P (l.commit c (GManager.repair id))) (n : ℕ) (afterId : Option UUID) (h : P l) :
    P (pages c n afterId l) := by
  induction n generalizing afterId l with
  | zero => exact h
  | succ n ih =>
    rw [pages]
    split
    · exact hinstant l h
    · exact ih _ (List.foldlRecOn _ _ (hinstant l h) fun l' hl' id _ => hrepair l' id hl')

theorem pages_sound (hc : c.settings.retentionSeconds = R) (h : Sound R l) (n : ℕ) (afterId : Option UUID) :
    Sound R (pages c n afterId l) :=
  pages_induct (fun _ h => h.instant) (fun _ id h => h.repair hc id) n afterId h

theorem pages_onlyPointers (hc : c.settings.retentionSeconds = R) (h : Sound R l) (n : ℕ)
    (afterId : Option UUID) : OnlyPointers l.db (pages c n afterId l).db := by
  refine (pages_induct (P := fun l' => Sound R l' ∧ OnlyPointers l.db l'.db) (fun l' h' => ⟨h'.1.instant, ?_⟩)
    (fun l' id h' => ⟨h'.1.repair hc id, ?_⟩) n afterId ⟨h, .refl l.db⟩).2
  · exact ⟨h'.2.accounts, h'.2.sessions⟩
  · exact h'.2.trans (h'.1.repair_db hc id).onlyPointers

theorem done_instant {id : UUID} (hd : Done R l.db id) : Done R (l.commit c GManager.instant).db id :=
  fun s hs hid => (hd s hs hid).imp_right fun hp => hp.mono (Instant.plusSeconds_mono l.db.clock.le_next _)

theorem instant_written : (l.commit c GManager.instant).written = l.written := by
  have hbecome := @become_of_keys l { l.db with clock := l.db.clock.next } (fun w hw => ⟨w, hw, rfl⟩)
    fun w hw => ⟨w, hw, rfl⟩
  exact (congrArg written hbecome :)

/-- Where no session needs a repair, the pages write nothing. -/
theorem pages_written (hc : c.settings.retentionSeconds = R) (h : Sound R l) (hd : ∀ id, Done R l.db id)
    (n : ℕ) (afterId : Option UUID) : (pages c n afterId l).written = l.written := by
  refine (pages_induct (P := fun l' => Sound R l' ∧ (∀ id, Done R l'.db id) ∧ l'.written = l.written)
    (fun l' h' => ⟨h'.1.instant, fun id => done_instant (h'.2.1 id), ?_⟩)
    (fun l' id h' => ⟨h'.1.repair hc id, fun other => (h'.1.repair_db hc id).done_of_done (h'.2.1 other),
      ?_⟩) n afterId
    ⟨h, hd, rfl⟩).2.2
  · rw [instant_written]
    exact h'.2.2
  · rw [h'.1.repair_written hc (h'.2.1 id)]
    exact h'.2.2

/-- The sessions that a page starting here has yet to visit. -/
def remaining (ids : List UUID) (afterId : Option UUID) : ℕ :=
  (ids.filter fun id => ∀ a ∈ afterId, a < id).length

theorem remaining_lt {ids : List UUID} {afterId : Option UUID} {last : UUID} (hlast : last ∈ ids)
    (hafter : ∀ a ∈ afterId, a < last) : remaining ids (some last) < remaining ids afterId := by
  unfold remaining
  have hfilter : (ids.filter fun id => ∀ a ∈ some last, a < id) =
      (ids.filter fun id => ∀ a ∈ afterId, a < id).filter fun id => last < id := by
    rw [List.filter_filter]
    refine List.filter_congr fun id _ => ?_
    rw [Bool.eq_iff_iff, Bool.and_eq_true, decide_eq_true_eq, decide_eq_true_eq, decide_eq_true_eq]
    constructor
    · intro h
      have hlt := h last rfl
      exact ⟨hlt, fun a ha => (hafter a ha).trans hlt⟩
    · rintro ⟨hlt, -⟩ a ha
      rwa [← Option.mem_some_iff.1 ha]
  rw [hfilter]
  exact List.length_filter_lt_length_iff_exists.2
    ⟨last, List.mem_filter.2 ⟨hlast, decide_eq_true hafter⟩, by simp⟩

/-- The sessions that a page chooses from, in their order. -/
def candidates (db : Db) (cutoff : Instant) (afterId : Option UUID) : List GamingSession :=
  sortById (·.id) (db.sessions.rows.filter fun s =>
    (s.status = .active ∨ ∀ e ∈ s.endedAt, cutoff ≤ e) ∧ ∀ a ∈ afterId, a < s.id)

theorem reconciliationIds_eq (db : Db) (cutoff : Instant) (afterId : Option UUID) :
    reconciliationIds db cutoff afterId = ((candidates db cutoff afterId).take 100).map (·.id) := rfl

theorem mem_candidates {db : Db} {cutoff : Instant} {afterId : Option UUID} {s : GamingSession} :
    s ∈ candidates db cutoff afterId ↔ s ∈ db.sessions ∧ ¬ s.pastRetention cutoff ∧
    ∀ a ∈ afterId, a < s.id := by
  have hpast : (s.status = .active ∨ ∀ e ∈ s.endedAt, cutoff ≤ e) ↔ ¬ s.pastRetention cutoff := by
    rw [GamingSession.pastRetention, not_and_or, not_not]
    push Not
    rfl
  rw [candidates, mem_sortById, List.mem_filter, decide_eq_true_eq, hpast]
  rfl

theorem sorted_candidates (db : Db) (cutoff : Instant) (afterId : Option UUID) :
    (candidates db cutoff afterId).Pairwise fun s t => s.id ≤ t.id := by
  refine (List.pairwise_mergeSort ?_ ?_ _).imp fun h => of_decide_eq_true h
  · intro a b d hab hbd
    exact decide_eq_true ((of_decide_eq_true hab).trans (of_decide_eq_true hbd))
  · intro a b
    rw [Bool.or_eq_true, decide_eq_true_eq, decide_eq_true_eq]
    exact le_total a.id b.id

/-- A page takes the first of the sessions that are not past retention. -/
theorem mem_reconciliationIds {db : Db} {cutoff : Instant} {afterId : Option UUID} {s : GamingSession}
    (hs : s ∈ db.sessions) (hafter : ∀ a ∈ afterId, a < s.id)
    (hlast : ∀ last, (reconciliationIds db cutoff afterId).getLast? = some last → s.id ≤ last) :
    s.id ∈ reconciliationIds db cutoff afterId ∨ s.pastRetention cutoff := by
  by_cases hp : s.pastRetention cutoff
  · exact .inr hp
  refine .inl ?_
  have hcand : s ∈ candidates db cutoff afterId := mem_candidates.2 ⟨hs, hp, hafter⟩
  have hsorted := sorted_candidates db cutoff afterId
  rw [← List.take_append_drop 100 (candidates db cutoff afterId)] at hcand hsorted
  rcases List.mem_append.1 hcand with hin | hout
  · exact List.mem_map_of_mem hin
  · cases hl : ((candidates db cutoff afterId).take 100).getLast? with
    | none =>
      rw [List.getLast?_eq_none_iff, List.take_eq_nil_iff] at hl
      rw [hl.resolve_left (by decide), List.drop_nil] at hout
      exact absurd hout List.not_mem_nil
    | some r =>
      have hr : r ∈ (candidates db cutoff afterId).take 100 := List.mem_of_getLast? hl
      have hle : s.id ≤ r.id := hlast r.id (by rw [reconciliationIds_eq, List.getLast?_map, hl]; rfl)
      have hge : r.id ≤ s.id := (List.pairwise_append.1 hsorted).2.2 r hr s hout
      rw [le_antisymm hle hge]
      exact List.mem_map_of_mem hr

theorem reconciliationIds_getLast {db : Db} {cutoff : Instant} {afterId : Option UUID} {last : UUID}
    (h : (reconciliationIds db cutoff afterId).getLast? = some last) : last ∈ db.sessionIds ∧
    ∀ a ∈ afterId, a < last := by
  obtain ⟨r, hr, rfl⟩ := List.mem_map.1 (List.mem_of_getLast? h)
  obtain ⟨hr, -, hafter⟩ := mem_candidates.1 (List.mem_of_mem_take hr)
  exact ⟨List.mem_map_of_mem hr, hafter⟩

/-- The repairs of a page: whoever was visited needs no repair, nor does whoever needed none. -/
theorem repairs_done (hc : c.settings.retentionSeconds = R) (h : Sound R l) (ids : List UUID) :
    let l' := ids.foldl (fun l id => l.commit c (GManager.repair id)) l
    Sound R l' ∧ l'.db.sessionIds = l.db.sessionIds ∧ (∀ id, Done R l.db id → Done R l'.db id) ∧
      ∀ id ∈ ids, Done R l'.db id := by
  induction ids generalizing l with
  | nil => exact ⟨h, rfl, fun _ hd => hd, fun _ hid => absurd hid List.not_mem_nil⟩
  | cons id ids ih =>
    have hr := h.repair_db hc id
    obtain ⟨hsound, hids, hkeeps, hdone⟩ := ih (h.repair hc id)
    refine ⟨hsound, hids.trans hr.onlyPointers.sessionIds, fun other hd =>
      hkeeps other (hr.done_of_done hd), fun other hin => ?_⟩
    rcases List.mem_cons.1 hin with rfl | hin
    · exact hkeeps other (h.done_repair hc other)
    · exact hdone other hin

/-- After enough pages no session is left to repair. -/
theorem pages_done (hc : c.settings.retentionSeconds = R) (h : Sound R l) {n : ℕ} {afterId : Option UUID}
    (hn : remaining l.db.sessionIds afterId < n) (hd : ∀ id, (∃ a ∈ afterId, id ≤ a) → Done R l.db id)
    (id : UUID) : Done R (pages c n afterId l).db id := by
  induction n generalizing afterId l with
  | zero => exact absurd hn (Nat.not_lt_zero _)
  | succ n ih =>
    have h₁ : Sound R (l.commit c GManager.instant) := h.instant
    have hd₁ : ∀ id, (∃ a ∈ afterId, id ≤ a) → Done R (l.commit c GManager.instant).db id :=
      fun id hid => done_instant (hd id hid)
    have hids₁ : (l.commit c GManager.instant).db.sessionIds = l.db.sessionIds := rfl
    rw [pages, hc]
    generalize l.commit c GManager.instant = l₁ at h₁ hd₁ hids₁
    -- a session that the page passes over is past retention, or was visited by an earlier page
    have hpassed : ∀ id, (∀ last,
      (reconciliationIds l₁.db (l₁.db.clock.now.plusSeconds (-R)) afterId).getLast? = some last →
        id ≤ last) → id ∈ reconciliationIds l₁.db (l₁.db.clock.now.plusSeconds (-R)) afterId ∨
        Done R l₁.db id := by
      intro id hlast
      by_cases hbefore : ∃ a ∈ afterId, id ≤ a
      · exact .inr (hd₁ id hbefore)
      push Not at hbefore
      by_cases hmem : ∃ s ∈ l₁.db.sessions, s.id = id
      · obtain ⟨s, hs, rfl⟩ := hmem
        refine (mem_reconciliationIds hs hbefore hlast).imp_right fun hp x hx hxid => .inr ?_
        rwa [Table.eq_of_key hx hs hxid]
      · exact .inr fun s hs hid => absurd ⟨s, hs, hid⟩ hmem
    generalize hpage : reconciliationIds l₁.db (l₁.db.clock.now.plusSeconds (-R)) afterId = page at hpassed
    cases hlast : page.getLast? with
    | none =>
      rw [List.getLast?_eq_none_iff] at hlast
      refine (hpassed id fun last hl => ?_).resolve_left fun hin => ?_
      · rw [hlast] at hl
        cases hl
      · rw [hlast] at hin
        exact List.not_mem_nil hin
    | some last =>
      obtain ⟨hmem, hafter⟩ := reconciliationIds_getLast (hpage ▸ hlast)
      obtain ⟨h₂, hids₂, hdone, hvisited⟩ := repairs_done hc h₁ page
      refine ih h₂ ?_ ?_
      · rw [hids₂, hids₁]
        rw [hids₁] at hmem
        exact (remaining_lt hmem hafter).trans_le (Nat.le_of_lt_succ hn)
      · rintro other ⟨a, ha, hle⟩
        obtain rfl : last = a := Option.mem_some_iff.1 ha
        refine (hpassed other fun x hx => ?_).elim (fun hin => hvisited other hin) fun hd => hdone other hd
        rw [hlast] at hx
        rwa [← Option.some.inj hx]

/-! ### The purge -/

theorem purge_db : (l.commit c GManager.purge).db = { l.db with
    clock := l.db.clock.next
    commands :=
      l.db.commands.delete fun w => w.expiresAt < l.db.clock.next.now ∧ w.acknowledgedAt.isSome } := rfl

/-- A purge takes the newest command of a session within retention only while the session is active, and only
once the command is acknowledged and expired. -/
theorem Sound.purged (h : Sound R l) {s : GamingSession} (hs : s ∈ l.db.sessions) {w : StationCommand}
    (hw : w ∈ l.db.commands) (hst : w.stationId = s.resourceId)
    (hseq : s.lastCommandSequence = some w.sequence)
    (hin : ¬ s.pastRetention ((l.commit c GManager.purge).db.clock.now.plusSeconds (-R))) :
    w ∈ (l.commit c GManager.purge).db.commands ∨
      s.status = .active ∧ w.acknowledgedAt.isSome ∧
      w.expiresAt < (l.commit c GManager.purge).db.clock.now := by
  rw [purge_db] at hin ⊢
  by_cases hp : w.expiresAt < l.db.clock.next.now ∧ w.acknowledgedAt.isSome
  · refine .inr ⟨?_, hp.2, hp.1⟩
    by_contra ha
    obtain ⟨e, he⟩ := Option.isSome_iff_exists.1 (h.logged.closed s hs ha)
    obtain ⟨w₀, hnew, hpoints⟩ := h.logged.newest s hs
    have hissued : w.issued = w₀ := by
      refine h.logged.eq_of_sequence (h.issued_mem hw) (newestCommand_eq_some hnew).1
        (hst.trans hpoints.stationId.symm) ?_
      exact Option.some.inj (hseq.symm.trans hpoints.pointer)
    have hexp : Instant.plusSeconds e R ≤ w.expiresAt := by
      have := hpoints.expires e he
      rwa [← hissued] at this
    exact hin ⟨ha, e, he, Instant.lt_plusSeconds_neg (hexp.trans_lt hp.1)⟩
  · exact .inl (Table.mem_delete.2 ⟨hw, decide_eq_false hp⟩)

/-- A command that a purge takes is among the purged. -/
theorem mem_purged {w : StationCommand} (hw : w ∈ l.db.commands)
    (hno : w ∉ (l.commit c GManager.purge).db.commands) : w ∈ (l.commit c GManager.purge).purged := by
  have hbecome : l.commit c GManager.purge = l.become (l.commit c GManager.purge).db := rfl
  rw [hbecome]
  refine List.mem_append_right _ (List.mem_filter.2 ⟨hw, decide_eq_true ?_⟩)
  rw [Table.find?_eq_none]
  intro v hv hk
  have hv' : v ∈ l.db.commands := by
    rw [purge_db] at hv
    exact (Table.mem_delete.1 hv).1
  exact hno (Table.eq_of_key hv' hw hk ▸ hv)

/-! ### A whole pass -/

theorem reconcile_eq : l.reconcile c =
    (pages c (l.db.sessions.rows.length + 1) none (l.listen c.readings)).commit c GManager.purge := rfl

theorem Sound.reconcile (h : Sound R l) (hc : c.settings.retentionSeconds = R) : Sound R (l.reconcile c) :=
  (pages_sound hc (h.listen c.readings) _ _).purge

theorem Reached.sound (h : Reached R l) : Sound R l := by
  induction h with
  | empty t => exact .empty t
  | step _ c hc op ih => exact ih.step hc op
  | reconcile _ c hc ih => exact ih.reconcile hc

theorem remaining_none (ids : List UUID) : remaining ids none = ids.length := by
  unfold remaining
  rw [List.filter_eq_self.2]
  exact fun id _ => decide_eq_true fun a ha => absurd ha (Option.not_mem_none _)

/-- After a pass no session is left to repair, unless its purge took the newest command of an active one. -/
theorem Sound.reconcile_done (h : Sound R l) (hc : c.settings.retentionSeconds = R)
    (hkept : ∀ s ∈ (l.reconcile c).db.sessions, s.status = .active → ∀ w ∈ (l.reconcile c).purged,
      ¬ (w.stationId = s.resourceId ∧ s.lastCommandSequence = some w.sequence)) (id : UUID) :
    Done R (l.reconcile c).db id := by
  have hsound := pages_sound hc (h.listen c.readings) (l.db.sessions.rows.length + 1) none
  have hdone : Done R (pages c (l.db.sessions.rows.length + 1) none (l.listen c.readings)).db id := by
    refine pages_done hc (h.listen c.readings) ?_ (fun id => ?_) id
    · rw [remaining_none, Db.sessionIds, List.length_map]
      exact Nat.lt_succ_self _
    · rintro ⟨a, ha, -⟩
      cases ha
  rw [reconcile_eq] at hkept ⊢
  generalize pages c (l.db.sessions.rows.length + 1) none (l.listen c.readings) = l₁ at hsound hdone hkept
  intro s hs hid
  have hs₁ : s ∈ l₁.db.sessions := hs
  rcases hdone s hs₁ hid with ⟨w, hw, hst, hseq⟩ | hp
  · by_cases hin : s.pastRetention ((l₁.commit c GManager.purge).db.clock.now.plusSeconds (-R))
    · exact .inr hin
    · refine .inl ⟨w, (hsound.purged hs₁ hw hst hseq hin).resolve_right ?_, hst, hseq⟩
      rintro ⟨ha, hack, hexp⟩
      refine hkept s hs ha w (mem_purged hw fun hmem => ?_) ⟨hst, hseq⟩
      rw [purge_db] at hmem hexp
      exact absurd (Table.mem_delete.1 hmem).2 (by simp [hack, hexp])
  · exact .inr (hp.mono (Instant.plusSeconds_mono l₁.db.clock.le_next _))

/-- A pass that finds no session to repair writes nothing. -/
theorem Sound.reconcile_written (h : Sound R l) (hc : c.settings.retentionSeconds = R)
    (hd : ∀ id, Done R l.db id) : (l.reconcile c).written = l.written := by
  have hpages := pages_written hc (h.listen c.readings) hd (l.db.sessions.rows.length + 1) none
  rw [reconcile_eq, ← show (l.listen c.readings).written = l.written from rfl, ← hpages]
  generalize pages c (l.db.sessions.rows.length + 1) none (l.listen c.readings) = l₁
  have hbecome : l₁.commit c GManager.purge = l₁.become (l₁.commit c GManager.purge).db := rfl
  rw [hbecome, become, filter_missing fun w hw => ⟨w, ?_, rfl⟩, List.append_nil]
  rw [purge_db] at hw
  exact (Table.mem_delete.1 hw).1

theorem Sound.reconcile_onlyPointers (h : Sound R l) (hc : c.settings.retentionSeconds = R) :
    OnlyPointers l.db (l.reconcile c).db := by
  have hpages := pages_onlyPointers hc (h.listen c.readings) (l.db.sessions.rows.length + 1) none
  rw [reconcile_eq, purge_db]
  exact ⟨hpages.accounts, hpages.sessions⟩

theorem discard_commit {α : Type} {x : Tx α} {db : Db} : x.discard.commit c db = x.commit c db := by
  unfold Txn.commit
  cases hx : x.run c db with
  | error e => rw [Txn.discard, run_bind_of_error hx]
  | ok r =>
    obtain ⟨a, db'⟩ := r
    rw [Txn.discard, run_bind_of_ok hx]
    rfl

theorem step_repair (id : UUID) :
    l.step c (.repair id) = (l.listen c.readings).commit c (GManager.repair id) := by
  show (l.listen c.readings).become ((GManager.repair id).discard.commit c (l.listen c.readings).db) = _
  rw [discard_commit]
  rfl

/-- The commands that are there and those that are purged are together the numbered ones. -/
theorem Sound.numbered (h : Sound R l) (station : UUID) :
    (((l.db.commands.rows ++ l.purged).filter fun w => w.stationId = station).map (·.sequence)).Perm
      (List.range' 1 (l.db.currentCursor station)) := by
  rw [← h.logged.numbered station]
  have hperm := (h.kept.filter fun w => w.stationId = station).map (·.sequence)
  rw [List.filter_map, List.map_map] at hperm
  exact hperm

end CommandLog

open CommandLog in
/-- The log of the station commands: every station numbers its commands from one, in the order of their
commits, and the purged ones leave no other gap; every session points to the newest command written for it.
A repair, or a pass, changes nothing of a session but this pointer. After its repair a session within
retention matches its projection; a second pass writes nothing unless the purge of the first took the newest
command of an active session. And a purge takes the newest command of a session within retention only in
that case, and only once it is acknowledged and expired. -/
theorem station_command_log {R : ℕ} {l : CommandLog} (h : Reached R l) :
    (∀ station, (l.written.filter fun w => w.stationId = station).map (·.sequence) =
        List.range' 1 (l.db.currentCursor station) ∧
      (((l.db.commands.rows ++ l.purged).filter fun w => w.stationId = station).map (·.sequence)).Perm
        (List.range' 1 (l.db.currentCursor station))) ∧
    (∀ s ∈ l.db.sessions, ∃ w, newestCommand l.written s.id = some w ∧ w.stationId = s.resourceId ∧
      s.lastCommandSequence = some w.sequence) ∧
    ∀ c : Call, c.settings.retentionSeconds = R →
      (∀ id, OnlyPointers l.db (l.step c (.repair id)).db) ∧ OnlyPointers l.db (l.reconcile c).db ∧
      (∀ id, ∀ s ∈ (l.step c (.repair id)).db.sessions, s.id = id →
        ¬ s.pastRetention ((l.step c (.repair id)).db.clock.now.plusSeconds (-R)) →
        (l.step c (.repair id)).db.matchesCurrentProjection s = true) ∧
      (∀ c' : Call, c'.settings.retentionSeconds = R →
        (∀ s ∈ (l.reconcile c).db.sessions, s.status = .active → ∀ w ∈ (l.reconcile c).purged,
          ¬ (w.stationId = s.resourceId ∧ s.lastCommandSequence = some w.sequence)) →
        ((l.reconcile c).reconcile c').written = (l.reconcile c).written) ∧
      ∀ s ∈ l.db.sessions, l.db.matchesCurrentProjection s = true →
        ¬ s.pastRetention ((l.step c (.request .purge)).db.clock.now.plusSeconds (-R)) →
        (l.step c (.request .purge)).db.matchesCurrentProjection s = true ∨
          s.status = .active ∧ ∃ w ∈ l.db.commands, w.stationId = s.resourceId ∧
          s.lastCommandSequence = some w.sequence ∧
            w.acknowledgedAt.isSome ∧ w.expiresAt < (l.step c (.request .purge)).db.clock.now := by
  have hs := h.sound
  refine ⟨fun station => ⟨hs.logged.numbered station, hs.numbered station⟩, fun s hmem => ?_, fun c hc => ?_⟩
  · obtain ⟨w, hw, hp⟩ := hs.logged.newest s hmem
    exact ⟨w, hw, hp.stationId, hp.pointer⟩
  have hl := hs.listen c.readings
  refine ⟨fun id => ?_, hs.reconcile_onlyPointers hc, fun id s hmem hid hin => ?_, fun c' hc' hkept => ?_,
    fun s hmem hm hin => ?_⟩
  · obtain ⟨hacc, hsess⟩ := (hl.repair_db hc id).onlyPointers
    rw [step_repair]
    exact ⟨hacc, hsess⟩
  · rw [step_repair] at hmem hin ⊢
    exact ((hl.repair hc id).matches_iff hmem).2 ((hl.done_repair hc id s hmem hid).resolve_right hin)
  · exact (hs.reconcile hc).reconcile_written hc' (hs.reconcile_done hc hkept)
  · have hmem' : s ∈ (l.step c (.request .purge)).db.sessions := hmem
    obtain ⟨w, hw, hst, hseq⟩ := (hs.matches_iff hmem).1 hm
    refine (hl.purged (c := c) hmem hw hst hseq hin).imp (fun hkept => ?_) fun hgone => ?_
    · exact ((hl.purge (c := c)).matches_iff hmem').2 ⟨w, hkept, hst, hseq⟩
    · exact ⟨hgone.1, w, hw, hst, hseq, hgone.2⟩

namespace Arcade

/-- The requests of an evening, one after the other. -/
def logged (rs : List Request) : CommandLog := rs.foldl (fun l r => l.step r.call (.request r.op)) (.empty 0)

theorem logged_db (rs : List Request) : (logged rs).db = GManager.run (Db.empty 0) rs :=
  (List.foldl_hom CommandLog.db fun _ _ => rfl).symm

theorem reached_logged {R : ℕ} (rs : List Request) (hrs : ∀ r ∈ rs, r.call.settings.retentionSeconds = R) :
    CommandLog.Reached R (logged rs) :=
  List.foldlRecOn rs _ (.empty 0) fun _ h r hr => h.step r.call (hrs r hr) (.request r.op)

/-- The customer has logged in, and the station has acknowledged the command of it. -/
def acknowledgement : List Request :=
  [grant 100 10000000 "first", request 101 11000000 (.assign ⟨2, 40, none⟩), login 12000000,
    request 103 13000000 (.acknowledge 1)]

def acknowledged : CommandLog := logged acknowledgement

theorem reached_acknowledged : CommandLog.Reached 86400 acknowledged := by
  refine reached_logged acknowledgement fun r hr => ?_
  simp only [acknowledgement, List.mem_cons, List.not_mem_nil, or_false] at hr
  rcases hr with rfl | rfl | rfl | rfl <;> rfl

/-- A day later, and a microsecond. -/
def purged : CommandLog := acknowledged.step (request 104 86412000001 .purge).call (.request .purge)

theorem purged_db : purged.db = GManager.step (GManager.run (Db.empty 0) acknowledgement)
    (request 104 86412000001 .purge) := by
  rw [← logged_db]
  rfl

/-- The purge takes the command of a session that is still active, and the next repair writes it again. -/
theorem newest_command_purged : CommandLog.Reached 86400 acknowledged ∧
    (∃ s ∈ acknowledged.db.sessions.rows, s.id = 102 ∧ s.status = .active ∧ s ∈ purged.db.sessions.rows ∧
      acknowledged.db.matchesCurrentProjection s = true ∧ purged.db.matchesCurrentProjection s = false) ∧
    purged.db.commands.rows.length = 0 ∧
    (purged.step (request 105 86413000000 .purge).call (.repair 102)).db.commands.rows.length = 1 := by
  refine ⟨reached_acknowledged, ?_⟩
  have hrepair : (purged.step (request 105 86413000000 .purge).call (.repair 102)).db =
      (CommandOp.repair 102).perform.commit (request 105 86413000000 .purge).call
        (purged.db.listen [86413000000]) := rfl
  rw [hrepair, purged_db, acknowledged, logged_db]
  decide +kernel

theorem station_command_log_acknowledged :
    (acknowledged.written.filter fun w => w.stationId = 40).map (·.sequence) =
      List.range' 1 (acknowledged.db.currentCursor 40) ∧ acknowledged.db.currentCursor 40 = 1 ∧
    ∀ s ∈ acknowledged.db.sessions, ∃ w, newestCommand acknowledged.written s.id = some w ∧
    w.stationId = s.resourceId ∧
      s.lastCommandSequence = some w.sequence := by
  have hlog := station_command_log reached_acknowledged
  refine ⟨(hlog.1 40).1, ?_, hlog.2.1⟩
  rw [acknowledged, logged_db]
  decide +kernel

end Arcade

end GManager
