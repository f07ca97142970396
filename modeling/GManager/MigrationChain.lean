import GManager.TimeMigrations
import Mathlib.Algebra.BigOperators.Group.List.Basic
import Mathlib.Algebra.Order.BigOperators.Group.List

/-!
# The chain of the time migrations

What `V48` credits, what the new ledger keeps and what `V50` adds: the balances stay the sums of the
entries, and the packages are credited what they had left. `V51` accepts every such database but one whose
package ledger was wrong before.
-/

namespace GManager.Migrations

theorem filterMap_sublist {α β : Type} {f g : α → Option β} {l : List α}
    (h : ∀ a ∈ l, ∀ b ∈ f a, g a = some b) : (l.filterMap f).Sublist (l.filterMap g) := by
  induction l with
  | nil => simp
  | cons a l ih =>
    rw [List.forall_mem_cons] at h
    have ih := ih h.2
    cases hf : f a with
    | none =>
      rw [List.filterMap_cons_none hf]
      cases hg : g a with
      | none => rwa [List.filterMap_cons_none hg]
      | some b => exact (List.filterMap_cons_some hg ▸ ih.cons b :)
    | some b =>
      rw [List.filterMap_cons_some hf, List.filterMap_cons_some (h.1 b hf)]
      exact ih.cons_cons b

/-- Entries that are made of rows with different accounts have different accounts. -/
theorem nodup_accounts {ρ : Type} {make : ρ → Option TimeEntry} {rows : List ρ} (account : ρ → Option UUID)
    (hn : (rows.filterMap account).Nodup) (h : ∀ r ∈ rows, ∀ e ∈ make r, account r = some e.customerId) :
    ((rows.filterMap make).map entryJournal.account).Nodup := by
  rw [List.map_filterMap]
  refine hn.sublist (filterMap_sublist fun r hr c hc => ?_)
  obtain ⟨e, he, rfl⟩ := Option.map_eq_some_iff.1 hc
  exact h r hr e he

namespace TimeDb

variable {d d' : TimeDb} {c : UUID} {e : TimeEntry} {select : UUID → Bool} {key : EntryKey}

theorem balance_of_mem {a : TimeAccount} (ha : a ∈ d.accounts) :
    d.balance a.customerId = a.balanceSeconds := by
  rw [balance, Table.find?_eq_some.2 ⟨ha, rfl⟩]
  rfl

theorem balance_of_none (h : ∀ a ∈ d.accounts, a.customerId ≠ c) : d.balance c = 0 := by
  rw [balance, Table.find?_eq_none.2 h]
  rfl

theorem hasKey_eq_true : d.hasKey key = true ↔ ∃ e ∈ d.ledger, e.sourceKey = key := by simp [hasKey]

theorem total_of_none (h : ∀ e ∈ d.ledger, e.customerId ≠ c) : d.total c = 0 :=
  Journal.sumWhere_eq_zero _ fun e he => decide_eq_false (h e he)

theorem mem_recount {a : TimeAccount} : a ∈ (d.recount select).accounts ↔
    ∃ a₀ ∈ d.accounts, d.recounted select a₀ = a :=
  List.mem_map

/-- The balance of a customer whose entries all have an account. -/
theorem balance_recount (howned : ∀ e ∈ d.ledger, ∃ a ∈ d.accounts, a.customerId = e.customerId)
    (hkeep : select c = false → d.balance c = d.total c) : (d.recount select).balance c = d.total c := by
  by_cases hc : ∃ a ∈ d.accounts, a.customerId = c
  · obtain ⟨a, ha, rfl⟩ := hc
    have hmem : d.recounted select a ∈ (d.recount select).accounts := mem_recount.2 ⟨a, ha, rfl⟩
    have hbal := balance_of_mem hmem
    rw [recounted_customerId] at hbal
    rw [hbal, recounted]
    cases hs : select a.customerId with
    | true => rfl
    | false => exact (balance_of_mem ha).symm.trans (hkeep hs)
  · push Not at hc
    rw [total_of_none fun e he heq => by
      obtain ⟨a, ha, hac⟩ := howned e he
      exact hc a ha (hac.trans heq)]
    refine balance_of_none fun a ha => ?_
    obtain ⟨a₀, ha₀, rfl⟩ := mem_recount.1 ha
    rw [recounted_customerId]
    exact hc a₀ ha₀

theorem exists_account_recount : (∃ a ∈ (d.recount select).accounts, a.customerId = c) ↔
    ∃ a ∈ d.accounts, a.customerId = c := by
  constructor
  · rintro ⟨a, ha, rfl⟩
    obtain ⟨a₀, ha₀, rfl⟩ := mem_recount.1 ha
    exact ⟨a₀, ha₀, (d.recounted_customerId select a₀).symm⟩
  · rintro ⟨a, ha, rfl⟩
    exact ⟨_, mem_recount.2 ⟨a, ha, rfl⟩, d.recounted_customerId select a⟩

/-- Two kinds of credit for the packages of a customer. -/
theorem credited_eq : d.credited c = d.migrated c (.legacyPackages c) + d.migrated c
    (.legacyPackagesNoExpiry c) := by
  rw [credited, migrated, migrated, ← Journal.sumWhere_or]
  · refine Journal.sumWhere_congr _ fun e _ => ?_
    rw [Bool.eq_iff_iff]
    simp only [Bool.or_eq_true, decide_eq_true_eq]
    tauto
  · rintro e - ⟨h, h'⟩
    simp only [decide_eq_true_eq] at h h'
    rw [h.2.2] at h'
    exact EntryKey.noConfusion h'.2.2

end TimeDb

/-- Every balance is the sum of the entries of its account, and every entry has an account. -/
structure Reconciled (d : TimeDb) : Prop where
  journal : entryJournal.Balanced d.balance d.ledger
  owned : ∀ e ∈ d.ledger, ∃ a ∈ d.accounts, a.customerId = e.customerId
  granted : ∀ e ∈ d.ledger, ∀ id ∈ e.operationId, ∃ f ∈ d.operations, f.id = id ∧ f.kind = .timeGrant

/-- The database between the migrations. -/
structure Audited (d : TimeDb) : Prop extends Reconciled d where
  holders : ∀ p ∈ d.packages, ∃ a ∈ d.accounts, a.customerId = p.customerId
  sessions : ∀ s ∈ d.sessions, s.metered ∨
    (s.billingMode = .fixedDuration ∨ s.billingMode = .prepaidMetered) ∧ s.status ≠ .active ∧
    0 ≤ s.billedSeconds
  operations : ∀ f ∈ d.operations, f.kind.time → f.method ≠ .wallet ∧ f.originalId = none

/-- A migration that posts entries and recounts the accounts they are for. -/
theorem Reconciled.extend {d : TimeDb} {new : List TimeEntry} {select : UUID → Bool} (h : Reconciled d)
    (hn : (new.map entryJournal.account).Nodup)
    (hnew : ∀ e ∈ new, 0 < e.deltaSeconds ∧ e.balanceAfter = d.balance e.customerId + e.deltaSeconds ∧
      e.operationId = none ∧ ∃ a ∈ d.accounts, a.customerId = e.customerId)
    (hselect : ∀ e ∈ new, select e.customerId) :
    Reconciled (TimeDb.recount { d with ledger := d.ledger ++ new } select) := by
  have howned : ∀ e ∈ d.ledger ++ new, ∃ a ∈ d.accounts, a.customerId = e.customerId := fun e he =>
    (List.mem_append.1 he).elim (h.owned e) fun he => (hnew e he).2.2.2
  refine ⟨?_, fun e he => TimeDb.exists_account_recount.2 (howned e he), fun e he => ?_⟩
  · refine h.journal.posts hn (fun e he => (hnew e he).2.1) (fun e he => ?_) fun c => ?_
    · have hpos := (hnew e he).1
      have hbal := h.journal.nonneg e.customerId
      show 0 ≤ e.balanceAfter
      rw [(hnew e he).2.1]
      omega
    · refine TimeDb.balance_recount (d := { d with ledger := d.ledger ++ new }) howned fun hc => ?_
      have hnone : entryJournal.sumWhere (fun e => e.customerId = c) new = 0 := by
        refine Journal.sumWhere_eq_zero _ fun e he => decide_eq_false fun heq => ?_
        rw [← heq, hselect e he] at hc
        cases hc
      refine (h.journal.sum c).trans ?_
      rw [TimeDb.total, Journal.sumWhere_append, hnone, add_zero]
      rfl
  · rcases List.mem_append.1 he with he | he
    · exact h.granted e he
    · rw [(hnew e he).2.2.1]
      rintro id ⟨⟩

/-- What `V48` converted, and that `V50` has not run. -/
structure Converted (l : LegacyDb) (t : Instant) (d : TimeDb) : Prop where
  packages : d.packages = l.packages
  wallet : d.wallet = l.wallet
  policy : d.policy = l.policy
  migrated : ∀ c, d.migrated c (.legacyPackages c) = max 0
    (packageSeconds l.packages l.wallet (TimePackage.valid t) c)
  unrestored : ∀ c, d.hasKey (.legacyPackagesNoExpiry c) = false

/-! ### V48 -/

namespace LegacyDb

variable {l : LegacyDb} {d : TimeDb} {t t' : Instant} {e : TimeEntry} {c : UUID}

theorem exists_account {c : UUID} (hu : ∃ u ∈ l.users, u.id = c)
    (hc : c ∈ l.packages.rows.map TimePackage.customerId ∨ c ∈ l.sessions.rows.filterMap Session.customerId) :
    ∃ a ∈ l.opened.accounts, a.customerId = c := by
  obtain ⟨u, hu, rfl⟩ := hu
  have hmem : u ∈ l.holders := List.mem_filter.2 ⟨hu, decide_eq_true (.inr hc)⟩
  exact ⟨⟨u.id, 0⟩, List.mem_map.2 ⟨u, hmem, rfl⟩, rfl⟩

theorem mem_packageEntries (he : e ∈ l.packageEntries t) : 0 < e.deltaSeconds ∧
    e.deltaSeconds = packageSeconds l.packages l.wallet (TimePackage.valid t) e.customerId ∧
    e.balanceAfter = e.deltaSeconds ∧ e.kind = .migration ∧ e.sourceKey = .legacyPackages e.customerId ∧
    e.operationId = none ∧ e.customerId ∈ l.packages.rows.map TimePackage.customerId := by
  obtain ⟨c, hc, he⟩ := List.mem_filterMap.1 he
  simp only at he
  split at he
  · rename_i h
    cases he
    exact ⟨h, rfl, rfl, rfl, rfl, rfl, List.mem_dedup.1 hc⟩
  · cases he

theorem mem_sessionEntries (he : e ∈ l.sessionEntries d t) : 0 < e.deltaSeconds ∧
    (∃ s ∈ l.active, s.customerId = some e.customerId) ∧ e.balanceAfter = d.balance e.customerId +
    e.deltaSeconds ∧ (∃ s, e.sourceKey = .legacySession s) ∧ e.operationId = none ∧
    ∃ a ∈ d.accounts, a.customerId = e.customerId := by
  obtain ⟨s, hs, he⟩ := List.mem_filterMap.1 he
  obtain ⟨c, hc, he⟩ := Option.bind_eq_some_iff.1 he
  obtain ⟨a, ha, he⟩ := Option.bind_eq_some_iff.1 he
  obtain ⟨hmem, rfl⟩ := Table.find?_eq_some.1 ha
  simp only at he
  split at he
  · rename_i h
    cases he
    exact ⟨h.2, ⟨s, hs, hc⟩, by simp [TimeDb.balance_of_mem hmem], ⟨s.id, rfl⟩, rfl, a, hmem, rfl⟩
  · cases he

theorem nodup_packageEntries : ((l.packageEntries t).map entryJournal.account).Nodup := by
  refine nodup_accounts some ?_ fun c _ e he => ?_
  · simpa using List.nodup_dedup _
  · simp only [Option.mem_def] at he
    split at he
    · cases he
      rfl
    · cases he

theorem nodup_sessionEntries (hn : (l.active.filterMap Session.customerId).Nodup) :
    ((l.sessionEntries d t).map entryJournal.account).Nodup := by
  refine nodup_accounts Session.customerId hn fun s _ e he => ?_
  obtain ⟨c, hc, he⟩ := Option.bind_eq_some_iff.1 he
  obtain ⟨a, ha, he⟩ := Option.bind_eq_some_iff.1 he
  simp only at he
  split at he
  · cases he
    exact hc
  · cases he

theorem balance_opened : l.opened.balance c = 0 := by
  rw [TimeDb.balance]
  cases h : l.opened.accounts.find? c with
  | none => rfl
  | some a =>
    obtain ⟨u, -, rfl⟩ := List.mem_map.1 (Table.find?_eq_some.1 h).1
    rfl

theorem reconciled_opened : Reconciled l.opened :=
  ⟨entryJournal.balanced_nil.congr fun _ => balance_opened, by simp [opened], by simp [opened]⟩

/-- The parts of `V48`. -/
theorem v48_eq_some (h : l.v48 t t' = some d) : ∃ d₁ : TimeDb,
    d₁ = TimeDb.recount { l.opened with ledger := l.packageEntries t } (fun _ => true) ∧
    (l.active.filterMap Session.customerId).Nodup ∧ d.ledger = l.packageEntries t ++ l.sessionEntries d₁ t' ∧
    d.accounts = (TimeDb.recount { d₁ with ledger := d₁.ledger ++ l.sessionEntries d₁ t' } fun _ =>
      true).accounts ∧
    d.packages = l.packages ∧ d.wallet = l.wallet ∧ d.operations = l.operations ∧ d.policy = l.policy ∧
    ∀ s, s ∈ d.sessions ↔ ∃ s₀ ∈ l.sessions,
      (if s₀.status = .active then { s₀ with status := .terminated } else s₀) = s := by
  unfold v48 at h
  split at h
  · rename_i hn
    cases h
    exact ⟨_, rfl, hn.1, rfl, rfl, rfl, rfl, rfl, rfl, fun s => List.mem_map⟩
  · cases h

theorem reconciled_packages :
    Reconciled (TimeDb.recount { l.opened with ledger := l.packageEntries t } fun _ => true) := by
  refine l.reconciled_opened.extend nodup_packageEntries (fun e he => ?_) fun e _ => rfl
  obtain ⟨hpos, -, hafter, -, -, hop, hc⟩ := mem_packageEntries he
  obtain ⟨p, hp, hpc⟩ := List.mem_map.1 hc
  rw [hafter, balance_opened, zero_add]
  exact ⟨hpos, rfl, hop, exists_account (hpc ▸ l.fk_package_customer p hp) (.inl hc)⟩

theorem reconciled_sessions (hr : Reconciled d) (hn : (l.active.filterMap Session.customerId).Nodup) :
    Reconciled (TimeDb.recount { d with ledger := d.ledger ++ l.sessionEntries d t } fun _ => true) := by
  refine hr.extend (nodup_sessionEntries hn) (fun e he => ?_) fun e _ => rfl
  obtain ⟨hpos, -, hafter, -, hop, hacc⟩ := mem_sessionEntries he
  exact ⟨hpos, hafter, hop, hacc⟩

theorem audited_v48 (h : l.v48 t t' = some d) : Audited d := by
  obtain ⟨d₁, rfl, hn, hledger, haccounts, hpackages, -, hoperations, -, hsessions⟩ := v48_eq_some h
  have hall := reconciled_sessions (t := t') (reconciled_packages (l := l) (t := t)) hn
  refine ⟨⟨?_, ?_, ?_⟩, ?_, ?_, ?_⟩
  · rw [hledger]
    refine hall.journal.congr fun c => ?_
    rw [TimeDb.balance, haccounts]
    rfl
  · rw [hledger, haccounts]
    exact hall.owned
  · rw [hledger, hoperations]
    exact hall.granted
  · rw [hpackages, haccounts]
    intro p hp
    have hacc := exists_account (l.fk_package_customer p hp) (.inl (List.mem_map_of_mem hp))
    exact TimeDb.exists_account_recount.2 (TimeDb.exists_account_recount.2 hacc)
  · intro s hs
    obtain ⟨s, hlegacy, rfl⟩ := (hsessions s).1 hs
    obtain ⟨hmode, hbilled⟩ := l.chk_metered_session s hlegacy
    split
    · exact .inr ⟨hmode, by simp, hbilled⟩
    · rename_i hactive
      exact .inr ⟨hmode, hactive, hbilled⟩
  · rw [hoperations]
    intro f hf htime
    rw [l.chk_fin_kind f hf] at htime
    cases htime

theorem exists_packageEntry (h : 0 < packageSeconds l.packages l.wallet (TimePackage.valid t) c) :
    ∃ e ∈ l.packageEntries t, e.customerId = c := by
  have hc : c ∈ l.packages.rows.map TimePackage.customerId := by
    by_contra hc
    rw [packageSeconds, List.filter_eq_nil_iff.2] at h
    · simp at h
    · intro p hp hsel
      exact hc (List.mem_map.2 ⟨p, hp, (of_decide_eq_true hsel).1⟩)
  exact ⟨_, List.mem_filterMap.2 ⟨c, List.mem_dedup.2 hc, if_pos h⟩, rfl⟩

/-- The entry of a customer's packages. -/
theorem migrated_packageEntries : entryJournal.sumWhere
    (fun e => e.customerId = c ∧ e.kind = .migration ∧ e.sourceKey = .legacyPackages c) (l.packageEntries t) =
      max 0 (packageSeconds l.packages l.wallet (TimePackage.valid t) c) := by
  by_cases h : 0 < packageSeconds l.packages l.wallet (TimePackage.valid t) c
  · obtain ⟨e, he, rfl⟩ := exists_packageEntry h
    obtain ⟨hpos, hseconds, -, hkind, hkey, -⟩ := mem_packageEntries he
    rw [Journal.sumWhere_eq_amount entryJournal nodup_packageEntries he (by simp [hkind, hkey]) fun x _ hx =>
      (of_decide_eq_true hx).1]
    show e.deltaSeconds = _
    omega
  · rw [Journal.sumWhere_eq_zero]
    · omega
    · rintro e he
      refine decide_eq_false fun hsel => h ?_
      obtain ⟨hpos, hseconds, -⟩ := mem_packageEntries he
      rw [hsel.1] at hseconds
      omega

theorem converted_v48 (h : l.v48 t t' = some d) : Converted l t d := by
  obtain ⟨d₁, rfl, hn, hledger, haccounts, hpackages, hwallet, hoperations, hpolicy, hsessions⟩ :=
    v48_eq_some h
  refine ⟨hpackages, hwallet, hpolicy, fun c => ?_, fun c => ?_⟩
  · rw [TimeDb.migrated, hledger, Journal.sumWhere_append, migrated_packageEntries,
      Journal.sumWhere_eq_zero, add_zero]
    intro e he
    obtain ⟨-, -, -, ⟨s, hs⟩, -⟩ := mem_sessionEntries he
    simp [hs]
  · rw [TimeDb.hasKey, hledger, List.any_eq_false]
    intro e he
    rcases List.mem_append.1 he with he | he
    · simp [(mem_packageEntries he).2.2.2.2.1]
    · obtain ⟨-, -, -, ⟨s, hs⟩, -⟩ := mem_sessionEntries he
      simp [hs]

end LegacyDb

/-! ### The new ledger -/

section ledger

variable {d : TimeDb} {e : TimeEntry} {l : LegacyDb} {t : Instant}

theorem TimeDb.append_cases (d : TimeDb) (e : TimeEntry) :
    d.append e = d ∨ 0 ≤ d.balance e.customerId + e.deltaSeconds ∧ d.append e = { d with
      accounts := d.accounts.upsert ⟨e.customerId, d.balance e.customerId + e.deltaSeconds⟩
      ledger := d.ledger ++ [{ e with balanceAfter := d.balance e.customerId + e.deltaSeconds }] } := by
  unfold TimeDb.append
  split
  · exact .inl rfl
  · rename_i h
    exact .inr ⟨by omega, rfl⟩

/-- What the backend does to the tables. -/
theorem TimeDb.step_cases (d : TimeDb) (ev : TimeEvent) : d.step ev = d ∨
    (∃ s : Session, s.metered ∧ d.step ev = { d with sessions := d.sessions.upsert s }) ∨
    (∃ e k, e.sourceKey = .backend k ∧ e.operationId = none ∧ d.step ev = d.append e) ∨
    ∃ f operations e k, d.operations.insert f = some operations ∧ f.kind = .timeGrant ∧ f.method ≠ .wallet ∧
    f.originalId = none ∧
      e.sourceKey = .backend k ∧ e.operationId = some f.id ∧
      d.step ev = TimeDb.append { d with operations } e := by
  cases ev with
  | grant operation method customer actor seconds key now =>
    simp only [TimeDb.step]
    split
    · exact .inl rfl
    · rename_i hnot
      split
      · exact .inl rfl
      · rename_i operations hinsert
        exact .inr (.inr (.inr ⟨_, operations, _, _, hinsert, rfl, fun h => hnot (.inr (.inl h)),
          rfl, rfl, rfl, rfl⟩))
  | consume customer session actor total seconds now =>
    simp only [TimeDb.step]
    split
    · exact .inl rfl
    · exact .inr (.inr (.inl ⟨_, _, rfl, rfl, rfl⟩))
  | session s =>
    simp only [TimeDb.step]
    split
    · rename_i h
      exact .inr (.inl ⟨s, h.1, rfl⟩)
    · exact .inl rfl

theorem TimeDb.balance_upsert {c c' : UUID} {n : ℤ} {entries : List TimeEntry} :
    TimeDb.balance { d with accounts := d.accounts.upsert ⟨c, n⟩, ledger := entries } c' = if c' = c then n
    else d.balance c' := by
  simp only [TimeDb.balance, Table.find?_upsert]
  split <;> rfl

theorem Audited.append (h : Audited d)
    (hop : ∀ id ∈ e.operationId, ∃ f ∈ d.operations, f.id = id ∧ f.kind = .timeGrant) :
    Audited (d.append e) := by
  rcases d.append_cases e with heq | ⟨h0, heq⟩
  · rwa [heq]
  rw [heq]
  have hmem : ∀ {c}, (∃ a ∈ d.accounts, a.customerId = c) →
      ∃ a ∈ d.accounts.upsert ⟨e.customerId, d.balance e.customerId + e.deltaSeconds⟩, a.customerId = c := by
    rintro c ⟨a, ha, rfl⟩
    by_cases hc : a.customerId = e.customerId
    · exact ⟨_, Table.mem_upsert.2 (.inl rfl), hc.symm⟩
    · exact ⟨a, Table.mem_upsert.2 (.inr ⟨hc, ha⟩), rfl⟩
  refine ⟨⟨?_, ?_, ?_⟩, fun p hp => hmem (h.holders p hp), h.sessions, h.operations⟩
  · exact h.journal.post rfl h0 fun c => TimeDb.balance_upsert
  · intro x hx
    rcases List.mem_append.1 hx with hx | hx
    · exact hmem (h.owned x hx)
    · rw [List.mem_singleton.1 hx]
      exact ⟨_, Table.mem_upsert.2 (.inl rfl), rfl⟩
  · intro x hx
    rcases List.mem_append.1 hx with hx | hx
    · exact h.granted x hx
    · rw [List.mem_singleton.1 hx]
      exact hop

theorem Audited.insert {f : Operation} {operations : Table Operation.id} (h : Audited d)
    (hinsert : d.operations.insert f = some operations) (hmethod : f.method ≠ .wallet)
    (horiginal : f.originalId = none) : Audited { d with operations } := by
  refine ⟨⟨h.journal, h.owned, fun e he id hid => ?_⟩, h.holders, h.sessions, fun x hx htime => ?_⟩
  · obtain ⟨f, hf, hfid⟩ := h.granted e he id hid
    exact ⟨f, (Table.mem_insert hinsert).2 (.inl hf), hfid⟩
  · rcases (Table.mem_insert hinsert).1 hx with hx | rfl
    · exact h.operations x hx htime
    · exact ⟨hmethod, horiginal⟩

theorem Audited.step (h : Audited d) (ev : TimeEvent) : Audited (d.step ev) := by
  rcases d.step_cases ev with heq | ⟨s, hs, heq⟩ | ⟨e, k, -, hop, heq⟩ | ⟨f, ops, e, k, hinsert, hkind,
    hmethod, horiginal, -, hop, heq⟩ <;>
    rw [heq]
  · exact h
  · refine ⟨⟨h.journal, h.owned, h.granted⟩, h.holders, fun x hx => ?_, h.operations⟩
    rcases Table.mem_upsert.1 hx with rfl | ⟨-, hx⟩
    · exact .inl hs
    · exact h.sessions x hx
  · exact h.append (by simp [hop])
  · refine (h.insert hinsert hmethod horiginal).append ?_
    rw [hop]
    rintro id ⟨⟩
    exact ⟨f, (Table.mem_insert hinsert).2 (.inr rfl), rfl, hkind⟩

theorem Converted.append {k : SourceKey} (h : Converted l t d) (hk : e.sourceKey = .backend k) :
    Converted l t (d.append e) := by
  rcases d.append_cases e with heq | ⟨-, heq⟩
  · rwa [heq]
  rw [heq]
  refine ⟨h.packages, h.wallet, h.policy, fun c => ?_, fun c => ?_⟩
  · rw [← h.migrated c, TimeDb.migrated, Journal.sumWhere_concat, if_neg, add_zero]
    · rfl
    · simp [hk]
  · have hold := h.unrestored c
    simp only [TimeDb.hasKey] at hold ⊢
    rw [List.any_append, hold]
    simp [hk]

theorem Converted.step (h : Converted l t d) (ev : TimeEvent) : Converted l t (d.step ev) := by
  rcases d.step_cases
    ev with heq | ⟨s, -, heq⟩ | ⟨e, k, hk, -, heq⟩ | ⟨f, ops, e, k, -, -, -, -, hk, -, heq⟩ <;> rw [heq]
  · exact h
  · exact ⟨h.packages, h.wallet, h.policy, h.migrated, h.unrestored⟩
  · exact h.append hk
  · exact Converted.append ⟨h.packages, h.wallet, h.policy, h.migrated, h.unrestored⟩ hk

theorem Audited.run (h : Audited d) (es : List TimeEvent) : Audited (d.run es) := by
  induction es generalizing d with
  | nil => exact h
  | cons ev es ih => exact ih (h.step ev)

theorem Converted.run (h : Converted l t d) (es : List TimeEvent) : Converted l t (d.run es) := by
  induction es generalizing d with
  | nil => exact h
  | cons ev es ih => exact ih (h.step ev)

end ledger

/-! ### V50 -/

section packages

variable {packages : Table TimePackage.id} {wallet : List WalletEntry}
  {select : TimePackage → Bool} {c : UUID}

theorem packageSeconds_nonneg (h : ∀ p ∈ packages, 0 ≤ remaining wallet p) :
    0 ≤ packageSeconds packages wallet select c := by
  refine mul_nonneg (List.sum_nonneg fun n hn => ?_) (by omega)
  obtain ⟨p, hp, rfl⟩ := List.mem_map.1 hn
  exact h p (List.mem_filter.1 hp).1

/-- The packages that are selected and those that are not. -/
theorem packageSeconds_add :
    packageSeconds packages wallet select c + packageSeconds packages wallet (fun p => !select p) c =
    packageSeconds packages wallet (fun _ => true) c := by
  have hfilter : ∀ s : TimePackage → Bool, packages.rows.filter (fun p => p.customerId = c ∧ s p) =
      (packages.rows.filter fun p => p.customerId = c).filter s := by
    intro s
    rw [List.filter_filter]
    refine List.filter_congr fun p _ => ?_
    rw [Bool.eq_iff_iff]
    simp only [decide_eq_true_eq, Bool.and_eq_true]
    exact and_comm
  have hperm :=
    (List.filter_append_perm select (packages.rows.filter fun p => p.customerId = c)).map (remaining wallet)
  have hsum := hperm.sum_eq
  rw [List.map_append, List.sum_append] at hsum
  simp only [packageSeconds, hfilter, and_true]
  omega

/-- A customer without packages that have ledger rows has no seconds. -/
theorem packageSeconds_eq_zero (h : (joined packages wallet).any (fun p => p.customerId = c) = false) :
    packageSeconds packages wallet select c = 0 := by
  rw [packageSeconds, List.sum_eq_zero, zero_mul]
  intro n hn
  obtain ⟨p, hp, rfl⟩ := List.mem_map.1 hn
  obtain ⟨hp, hsel⟩ := List.mem_filter.1 hp
  have hrows : wallet.any (fun l => l.packageId = some p.id) = false := by
    by_contra hrows
    rw [Bool.not_eq_false] at hrows
    have hany := List.any_eq_false.1 h p (List.mem_filter.2 ⟨hp, hrows⟩)
    exact hany (decide_eq_true (of_decide_eq_true hsel).1)
  rw [remaining, List.filter_eq_nil_iff.2 fun l hl => by simpa using List.any_eq_false.1 hrows l hl]
  rfl

end packages

namespace TimeDb

variable {d : TimeDb} {now : Instant} {e : TimeEntry} {c : UUID}

theorem restoration_eq_some {a : TimeAccount} (h : d.restoration now a = some e) :
    e.customerId = a.customerId ∧ 0 < e.deltaSeconds ∧
    e.deltaSeconds = packageSeconds d.packages d.wallet (fun _ => true) a.customerId -
      d.migrated a.customerId (.legacyPackages a.customerId) ∧
      e.balanceAfter = a.balanceSeconds + e.deltaSeconds ∧
    e.kind = .migration ∧ e.sourceKey = .legacyPackagesNoExpiry a.customerId ∧ e.operationId = none := by
  simp only [restoration] at h
  split at h
  · rename_i hmissing
    cases h
    exact ⟨rfl, hmissing.2.1, rfl, rfl, rfl, rfl, rfl⟩
  · cases h

theorem mem_restorations (h : e ∈ d.restorations now) : ∃ a ∈ d.accounts, d.restoration now a = some e :=
  List.mem_filterMap.1 h

theorem nodup_restorations : ((d.restorations now).map entryJournal.account).Nodup := by
  refine nodup_accounts (fun a => some a.customerId) ?_ fun a _ e he => ?_
  · show (d.accounts.rows.filterMap (some ∘ TimeAccount.customerId)).Nodup
    rw [List.filterMap_eq_map]
    exact d.accounts.nodup
  · rw [(restoration_eq_some he).1]

theorem restorations_key (h : e ∈ d.restorations now) : e.kind = .migration ∧
    e.sourceKey = .legacyPackagesNoExpiry e.customerId := by
  obtain ⟨a, -, he⟩ := mem_restorations h
  obtain ⟨hc, -, -, -, hkind, hkey, -⟩ := restoration_eq_some he
  rw [hc]
  exact ⟨hkind, hkey⟩

end TimeDb

theorem Reconciled.v50 {d : TimeDb} (h : Reconciled d) (now : Instant) : Reconciled (d.v50 now) := by
  refine h.extend TimeDb.nodup_restorations (fun e he => ?_) fun e he => ?_
  · obtain ⟨a, ha, he⟩ := TimeDb.mem_restorations he
    obtain ⟨hc, hpos, -, hafter, -, -, hop⟩ := TimeDb.restoration_eq_some he
    rw [hc, TimeDb.balance_of_mem ha]
    exact ⟨hpos, hafter, hop, a, ha, rfl⟩
  · exact TimeDb.hasKey_eq_true.2 ⟨e, List.mem_append_right _ he, (TimeDb.restorations_key he).2⟩

theorem Audited.v50 {d : TimeDb} (h : Audited d) (now : Instant) : Audited (d.v50 now) :=
  ⟨h.toReconciled.v50 now, fun p hp => TimeDb.exists_account_recount.2 (h.holders p hp),
    h.sessions, h.operations⟩

section restored

variable {d : TimeDb} {l : LegacyDb} {t now : Instant} {c : UUID}

/-- What `V50` adds to an account. -/
theorem sum_restorations (h : Audited d) (hc : Converted l t d) :
    entryJournal.sumWhere (fun e => e.customerId = c) (d.restorations now) =
      max 0 (packageSeconds l.packages l.wallet (fun _ => true) c - d.migrated c (.legacyPackages c)) := by
  by_cases hex : ∃ e ∈ d.restorations now, e.customerId = c
  · obtain ⟨e, he, rfl⟩ := hex
    have hone : entryJournal.sumWhere (fun x => x.customerId = e.customerId)
        (d.restorations now) = e.deltaSeconds :=
      Journal.sumWhere_eq_amount entryJournal TimeDb.nodup_restorations he (by simp) fun x _ hx =>
        of_decide_eq_true hx
    obtain ⟨a, -, he⟩ := TimeDb.mem_restorations he
    obtain ⟨hcust, hpos, hdelta, -⟩ := TimeDb.restoration_eq_some he
    rw [← hcust, hc.packages, hc.wallet] at hdelta
    omega
  · push Not at hex
    rw [Journal.sumWhere_eq_zero _ fun e he => decide_eq_false (hex e he)]
    have h0 : 0 ≤ d.migrated c (.legacyPackages c) := by
      rw [hc.migrated]
      omega
    by_contra hmissing
    have hjoined : (joined d.packages d.wallet).any (fun p => p.customerId = c) = true := by
      by_contra hjoined
      rw [Bool.not_eq_true, hc.packages, hc.wallet] at hjoined
      have hzero : packageSeconds l.packages l.wallet (fun _ => true) c = 0 := packageSeconds_eq_zero hjoined
      omega
    obtain ⟨p, hp, hpc⟩ := List.any_eq_true.1 hjoined
    obtain ⟨a, ha, hac⟩ := h.holders p (List.mem_filter.1 hp).1
    rw [of_decide_eq_true hpc] at hac
    subst hac
    have hrest : (d.restoration now a).isSome := by
      rw [← hc.packages, ← hc.wallet] at hmissing
      simp only [TimeDb.restoration]
      rw [if_pos ⟨hjoined, by omega, hc.unrestored _⟩]
      rfl
    obtain ⟨e, he⟩ := Option.isSome_iff_exists.1 hrest
    exact hex e (List.mem_filterMap.2 ⟨a, ha, he⟩) (TimeDb.restoration_eq_some he).1

theorem total_v50 (h : Audited d) (hc : Converted l t d) : (d.v50 now).total c =
    d.total c + max 0 (packageSeconds l.packages l.wallet (fun _ => true) c -
      d.migrated c (.legacyPackages c)) := by
  rw [← sum_restorations h hc]
  exact Journal.sumWhere_append _ _ d.ledger (d.restorations now)

theorem migrated_v50 : (d.v50 now).migrated c (.legacyPackages c) = d.migrated c (.legacyPackages c) := by
  have hnone : entryJournal.sumWhere (fun e => e.customerId = c ∧ e.kind = .migration ∧
    e.sourceKey = .legacyPackages c)
      (d.restorations now) = 0 :=
    Journal.sumWhere_eq_zero _ fun e he => by simp [(TimeDb.restorations_key he).2]
  refine (Journal.sumWhere_append _ _ d.ledger (d.restorations now)).trans ?_
  rw [hnone, add_zero]
  rfl

theorem Converted.migrated_noExpiry (hc : Converted l t d) :
    d.migrated c (.legacyPackagesNoExpiry c) = 0 := by
  refine Journal.sumWhere_eq_zero _ fun e he => decide_eq_false fun hkey => ?_
  have hhas := TimeDb.hasKey_eq_true.2 ⟨e, he, hkey.2.2⟩
  rw [hc.unrestored] at hhas
  cases hhas

theorem credited_v50 (h : Audited d) (hc : Converted l t d) :
    (d.v50 now).credited c = d.migrated c (.legacyPackages c) + max 0
      (packageSeconds l.packages l.wallet (fun _ => true) c - d.migrated c (.legacyPackages c)) := by
  have hnew : (d.v50 now).migrated c (.legacyPackagesNoExpiry c) =
      d.migrated c (.legacyPackagesNoExpiry c) + entryJournal.sumWhere
        (fun e => e.customerId = c) (d.restorations now) := by
    refine (Journal.sumWhere_append _ _ d.ledger (d.restorations now)).trans
      (congrArg (_ + ·) (Journal.sumWhere_congr _ fun e he => ?_))
    obtain ⟨hkind, hkey⟩ := TimeDb.restorations_key he
    simp only [hkind, hkey, EntryKey.legacyPackagesNoExpiry.injEq, true_and, and_self]
  rw [TimeDb.credited_eq, migrated_v50, hnew, hc.migrated_noExpiry, sum_restorations h hc, zero_add]

end restored

/-- Every customer whose packages had more seconds than were converted has the entry of `V50`. -/
def Restored (d : TimeDb) : Prop := ∀ c, (joined d.packages d.wallet).any (fun p => p.customerId = c) = true →
  d.migrated c (.legacyPackages c) < packageSeconds d.packages d.wallet (fun _ => true) c →
    d.hasKey (.legacyPackagesNoExpiry c) = true

section replayed

variable {d : TimeDb} {now : Instant} {e : TimeEntry} {select : UUID → Bool}

theorem Audited.restored_v50 (h : Audited d) : Restored (d.v50 now) := by
  intro c hjoined hmissing
  rw [migrated_v50] at hmissing
  obtain ⟨p, hp, hpc⟩ := List.any_eq_true.1 hjoined
  obtain ⟨a, ha, hac⟩ := h.holders p (List.mem_filter.1 hp).1
  rw [of_decide_eq_true hpc] at hac
  subst hac
  rw [TimeDb.hasKey_eq_true]
  by_cases hold : d.hasKey (.legacyPackagesNoExpiry a.customerId) = true
  · obtain ⟨e, he, hek⟩ := TimeDb.hasKey_eq_true.1 hold
    exact ⟨e, List.mem_append_left _ he, hek⟩
  · have hpos : 0 < packageSeconds d.packages d.wallet (fun _ => true) a.customerId -
        d.migrated a.customerId (.legacyPackages a.customerId) := Int.sub_pos.2 hmissing
    have hrest : (d.restoration now a).isSome := by
      simp only [TimeDb.restoration]
      rw [if_pos ⟨hjoined, hpos, Bool.eq_false_iff.2 hold⟩]
      rfl
    obtain ⟨e, he⟩ := Option.isSome_iff_exists.1 hrest
    exact ⟨e, List.mem_append_right _ (List.mem_filterMap.2 ⟨a, ha, he⟩),
      (TimeDb.restoration_eq_some he).2.2.2.2.2.1⟩

/-- The backend credits no packages, and takes no entry away. -/
theorem Restored.append {k : SourceKey} (h : Restored d) (hk : e.sourceKey = .backend k) :
    Restored (d.append e) := by
  rcases d.append_cases e with heq | ⟨-, heq⟩
  · rwa [heq]
  rw [heq]
  intro c hjoined hmissing
  rw [TimeDb.migrated, Journal.sumWhere_concat, if_neg (by simp [hk]), add_zero] at hmissing
  obtain ⟨x, hx, hxk⟩ := TimeDb.hasKey_eq_true.1 (h c hjoined hmissing)
  exact TimeDb.hasKey_eq_true.2 ⟨x, List.mem_append_left _ hx, hxk⟩

theorem Restored.step (h : Restored d) (ev : TimeEvent) : Restored (d.step ev) := by
  rcases d.step_cases
    ev with heq | ⟨s, -, heq⟩ | ⟨e, k, hk, -, heq⟩ | ⟨f, ops, e, k, -, -, -, -, hk, -, heq⟩ <;> rw [heq]
  · exact h
  · intro c hjoined hmissing
    exact h c hjoined hmissing
  · exact h.append hk
  · refine Restored.append ?_ hk
    intro c hjoined hmissing
    exact h c hjoined hmissing

theorem Restored.run (h : Restored d) (es : List TimeEvent) : Restored (d.run es) := by
  induction es generalizing d with
  | nil => exact h
  | cons ev es ih => exact ih (h.step ev)

theorem Restored.restorations (h : Restored d) : d.restorations now = [] := by
  refine List.filterMap_eq_nil_iff.2 fun a _ => ?_
  simp only [TimeDb.restoration]
  refine if_neg ?_
  rintro ⟨hjoined, hpos, hkey⟩
  rw [h a.customerId hjoined (Int.sub_pos.1 hpos)] at hkey
  cases hkey

/-- Balances that are the sums of the entries are not changed by a recount. -/
theorem Reconciled.recount (h : Reconciled d) : d.recount select = d := by
  have hrows : d.accounts.edit (d.recounted select) (d.recounted_customerId select) = d.accounts := by
    refine Table.ext ((List.map_congr_left fun a ha => ?_).trans (List.map_id _))
    have hsum : a.balanceSeconds = d.total a.customerId :=
      (TimeDb.balance_of_mem ha).symm.trans (h.journal.sum a.customerId)
    rw [TimeDb.recounted, ← hsum]
    split <;> rfl
  rw [TimeDb.recount, hrows]

/-- Where `V50` has run, it finds nothing to restore whatever was posted since. -/
theorem Restored.v50 (h : Restored d) (ha : Audited d) : d.v50 now = d := by
  rw [TimeDb.v50, h.restorations, List.append_nil]
  exact ha.toReconciled.recount

end replayed

/-! ### V51 -/

theorem requireZero_eq_ok {n : ℕ} {m : String} : requireZero n m = .ok () ↔ n = 0 := by
  rw [requireZero]
  split <;> simp [*]

theorem bind_eq_ok {x y : Except Abort Unit} : (x >>= fun _ => y) = .ok () ↔ x = .ok () ∧ y = .ok () := by
  cases x <;> simp [bind, Except.bind]

theorem constrain_of {p : Prop} [Decidable p] {m : String} (h : p) : constrain p m = .ok () := if_pos h

/-- Nothing is changed when `x` fails. -/
def Refuses (x : Except Abort Unit) : Prop := ∀ a, x = .error a → ∃ m, a = .refused m

theorem refuses_requireZero {n : ℕ} {m : String} : Refuses (requireZero n m) := by
  intro a h
  rw [requireZero] at h
  split at h <;> cases h
  exact ⟨m, rfl⟩

theorem Refuses.bind {x y : Except Abort Unit} (hx : Refuses x) (hy : Refuses y) :
    Refuses (x >>= fun _ => y) := by
  intro a h
  cases x with
  | error b => exact hx a h
  | ok _ => exact hy a h

theorem TimeDb.refuses_checks (d : TimeDb) : Refuses d.checks := by
  unfold TimeDb.checks
  repeat refine refuses_requireZero.bind ?_
  exact refuses_requireZero

/-- Every balance is the sum of its entries, and is not negative. -/
def TimeDb.InBalance (d : TimeDb) : Prop := ∀ a ∈ d.accounts, a.balanceSeconds = d.total a.customerId ∧
    0 ≤ a.balanceSeconds

theorem Reconciled.inBalance {d : TimeDb} (h : Reconciled d) : d.InBalance := by
  intro a ha
  rw [← TimeDb.balance_of_mem ha]
  exact ⟨h.journal.sum a.customerId, h.journal.nonneg a.customerId⟩

theorem Audited.paid {d : TimeDb} (h : Audited d) (f : Operation) (hf : f ∈ d.operations)
    (htime : f.kind.time) : f.method = .cash ∨ f.method = .externalPos := by
  have hwallet := (h.operations f hf htime).1
  cases hm : f.method with
  | cash => exact .inl rfl
  | externalPos => exact .inr rfl
  | wallet => exact absurd hm hwallet

/-- Of a database between the migrations two checks are left. -/
theorem Audited.checks_eq_ok {d : TimeDb} (h : Audited d)
    (hcredited : ∀ c, packageSeconds d.packages d.wallet (fun _ => true) c ≤ d.credited c) :
    d.checks = .ok () ↔
      (∀ p ∈ d.packages, 0 ≤ remaining d.wallet p ∧ remaining d.wallet p ≤ p.minutes) ∧
      d.policy.count 1 = 1 := by
  have hsessions : ∀ s ∈ d.sessions, ¬ (s.billingMode ≠ .timeBalance ∧ s.status = .active) := by
    rintro s hs ⟨hmode, hactive⟩
    rcases h.sessions s hs with hmetered | ⟨-, hended, -⟩
    · exact hmode hmetered.1
    · exact hended hactive
  have haccounts : ∀ a ∈ d.accounts, ¬ (a.balanceSeconds < 0 ∨ a.balanceSeconds ≠ d.total a.customerId) := by
    intro a ha
    obtain ⟨hsum, h0⟩ := h.inBalance a ha
    omega
  have hentries : ∀ e ∈ d.ledger, ∀ f ∈ d.operations, ¬ (e.operationId = some f.id ∧ ¬ f.kind.time) := by
    rintro e he f hf ⟨hid, hkind⟩
    obtain ⟨f', hf', hid', hgrant⟩ := h.granted e he f.id hid
    rw [← Table.eq_of_key hf' hf hid', hgrant] at hkind
    exact hkind rfl
  have hlinks : ∀ f ∈ d.operations, f.kind.time → f.originalId = none :=
    fun f hf htime => (h.operations f hf htime).2
  simp only [TimeDb.checks, bind_eq_ok, requireZero_eq_ok, List.countP_eq_zero,
    decide_eq_true_eq, List.any_eq_true]
  constructor
  · rintro ⟨-, -, hpackages, -, -, -, -, hpolicy, -⟩
    refine ⟨fun p hp => ?_, ?_⟩
    · have hp := hpackages p hp
      omega
    · by_contra hcount
      rw [if_neg hcount] at hpolicy
      cases hpolicy
  · rintro ⟨hpackages, hpolicy⟩
    refine ⟨hsessions, haccounts, fun p hp => ?_, fun c _ => ?_, ?_, ?_, ?_, if_pos hpolicy, by decide⟩
    · have hp := hpackages p hp
      omega
    · have hc := hcredited c
      omega
    · rintro e he ⟨f, hf, hlegacy⟩
      exact hentries e he f hf hlegacy
    · rintro f hf ⟨htime, p, -, hlink, -⟩
      rw [hlinks f hf htime] at hlink
      cases hlink
    · rintro f hf ⟨htime, hcash, hpos⟩
      rcases h.paid f hf htime with hm | hm
      · exact hcash hm
      · exact hpos hm

theorem mem_timeOperations {d : TimeDb} {f : Operation} : f ∈ d.timeOperations ↔
    f ∈ d.operations ∧ f.kind.time := by
  rw [TimeDb.timeOperations, Table.mem_delete]
  simp

/-- The constraints of `V51` hold, so that only its checks can stop it. -/
theorem Audited.v51_eq {d : TimeDb} (h : Audited d) : d.v51 = d.checks.map fun _ =>
    { d with
      packages := .empty, wallet := [], operations := d.timeOperations, sessions := d.historicSessions } := by
  have hentries : ∀ e ∈ d.ledger, ∀ id ∈ e.operationId, ∃ f ∈ d.timeOperations.rows, f.id = id := by
    intro e he id hid
    obtain ⟨f, hf, hfid, hkind⟩ := h.granted e he id hid
    exact ⟨f, mem_timeOperations.2 ⟨hf, hkind ▸ rfl⟩, hfid⟩
  have hlinks : ∀ f ∈ d.timeOperations.rows, ∀ id ∈ f.originalId, ∃ p ∈ d.timeOperations.rows, p.id = id := by
    intro f hf id hid
    obtain ⟨hf, htime⟩ := mem_timeOperations.1 hf
    rw [(h.operations f hf htime).2] at hid
    cases hid
  have hkinds : ∀ f ∈ d.timeOperations.rows, f.kind.time := fun f hf => (mem_timeOperations.1 hf).2
  have hmethods : ∀ f ∈ d.timeOperations.rows, f.method = .cash ∨ f.method = .externalPos := by
    intro f hf
    obtain ⟨hf, htime⟩ := mem_timeOperations.1 hf
    exact h.paid f hf htime
  have hsessions : ∀ s ∈ d.historicSessions.rows,
      0 ≤ s.billedSeconds ∧ (s.billingMode = .historical ∧ s.status ≠ .active ∨ s.metered) := by
    intro s hs
    obtain ⟨s, hlegacy, rfl⟩ := List.mem_map.1 hs
    rcases h.sessions s hlegacy with hmetered | ⟨hmode, hended, hbilled⟩
    · rw [if_pos hmetered.1]
      exact ⟨hmetered.2.2.2.2.2.2.2, .inr hmetered⟩
    · rw [if_neg fun h => by rcases hmode with hm | hm <;> rw [hm] at h <;> cases h]
      exact ⟨hbilled, .inl ⟨rfl, hended⟩⟩
  rw [TimeDb.v51, constrain_of hentries, constrain_of hlinks, constrain_of hkinds, constrain_of hmethods,
    constrain_of hsessions]
  cases d.checks <;> rfl

theorem Audited.v51_inBalance {d d' : TimeDb} (h : Audited d) (hd : d.v51 = .ok d') : d'.InBalance := by
  rw [h.v51_eq] at hd
  cases hc : d.checks with
  | error a =>
    rw [hc] at hd
    cases hd
  | ok _ =>
    rw [hc] at hd
    cases hd
    exact h.inBalance

theorem Audited.v51_eq_ok {d : TimeDb} (h : Audited d) : (∃ d', d.v51 = .ok d') ↔ d.checks = .ok () := by
  rw [h.v51_eq]
  cases d.checks <;> simp [Except.map]

theorem Audited.v51_refused {d : TimeDb} (h : Audited d) (a : Abort) (hd : d.v51 = .error a) :
    ∃ m, a = .refused m := by
  rw [h.v51_eq] at hd
  refine d.refuses_checks a ?_
  cases hc : d.checks with
  | error b =>
    rw [hc] at hd
    cases hd
    rfl
  | ok _ =>
    rw [hc] at hd
    cases hd

section chain

variable {l : LegacyDb} {packagesAt sessionsAt restoredAt : Instant} {d₀ d₁ d₂ : TimeDb} {es : List TimeEvent}

/-- After every migration the balances are the sums of the entries. With package ledgers that are not
overdrawn the packages are credited what they have left; `V50` run again later changes nothing; `V51`
refuses, before it changes anything, when a package ledger is inconsistent. -/
theorem time_migrations (h₀ : l.v48 packagesAt sessionsAt = some d₀) (h₁ : d₁ = d₀.run es)
    (h₂ : d₂ = d₁.v50 restoredAt) : d₀.InBalance ∧ d₁.InBalance ∧ d₂.InBalance ∧
    (∀ d₃, d₂.v51 = .ok d₃ → d₃.InBalance) ∧ ((∀ p ∈ l.packages, 0 ≤ remaining l.wallet p) → ∀ c,
      d₀.credited c = packageSeconds l.packages l.wallet (TimePackage.valid packagesAt) c ∧
      d₂.total c = d₁.total c + packageSeconds l.packages l.wallet (fun p => !p.valid packagesAt) c ∧
      d₂.credited c = packageSeconds l.packages l.wallet (fun _ => true) c) ∧
    (∀ es' again, (d₂.run es').v50 again = d₂.run es') ∧
    ((∃ d₃, d₂.v51 = .ok d₃) ↔
      (∀ p ∈ l.packages, 0 ≤ remaining l.wallet p ∧ remaining l.wallet p ≤ p.minutes) ∧
      l.policy.count 1 = 1) ∧
    ∀ a, d₂.v51 = .error a → ∃ m, a = .refused m := by
  subst h₁ h₂
  have ha₀ := LegacyDb.audited_v48 h₀
  have hc₀ := LegacyDb.converted_v48 h₀
  have ha₁ := ha₀.run es
  have hc₁ := hc₀.run es
  have ha₂ := ha₁.v50 restoredAt
  have hcredited : ∀ c, ((d₀.run es).v50 restoredAt).credited c = _ := fun c => credited_v50 ha₁ hc₁
  have hchecks := ha₂.checks_eq_ok fun c => by
    rw [hcredited, ← hc₁.packages, ← hc₁.wallet]
    show packageSeconds (d₀.run es).packages (d₀.run es).wallet _ c ≤ _
    omega
  rw [← ha₂.v51_eq_ok, show ((d₀.run es).v50 restoredAt).packages = l.packages from hc₁.packages,
    show ((d₀.run es).v50 restoredAt).wallet = l.wallet from hc₁.wallet,
    show ((d₀.run es).v50 restoredAt).policy = l.policy from hc₁.policy] at hchecks
  refine ⟨ha₀.inBalance, ha₁.inBalance, ha₂.inBalance, fun d₃ => ha₂.v51_inBalance, fun hrows c => ?_,
    fun es' again => (ha₁.restored_v50.run es').v50 (ha₂.run es'), hchecks, ha₂.v51_refused⟩
  have hvalid : 0 ≤ packageSeconds l.packages l.wallet (TimePackage.valid packagesAt) c :=
    packageSeconds_nonneg hrows
  have hexpired : 0 ≤ packageSeconds l.packages l.wallet (fun p => !p.valid packagesAt) c :=
    packageSeconds_nonneg hrows
  have hall : packageSeconds l.packages l.wallet (TimePackage.valid packagesAt) c +
      packageSeconds l.packages l.wallet (fun p => !p.valid packagesAt) c = _ := packageSeconds_add
  have hfirst := hc₁.migrated c
  refine ⟨?_, ?_, ?_⟩
  · rw [TimeDb.credited_eq, hc₀.migrated_noExpiry, hc₀.migrated]
    omega
  · rw [total_v50 ha₁ hc₁]
    omega
  · rw [hcredited]
    omega

end chain

namespace Arcade

/-- A customer whose package of an hour and whose expired one of half an hour have
these minutes in the ledger. -/
def legacy (left spare : ℤ) : LegacyDb where
  users := ⟨[⟨1, true⟩, ⟨2, false⟩], by decide⟩
  packages := ⟨[⟨10, 1, 60, none⟩, ⟨11, 1, 30, some 5⟩], by decide⟩
  wallet := [⟨some 10, 60⟩, ⟨some 10, left - 60⟩, ⟨some 11, spare⟩, ⟨none, 5⟩]
  sessions :=
    ⟨[⟨20, some 1, none, 7, 2, .fixedDuration, .active, 0, 90000000, none, none, 0, none, none, none⟩],
      by decide⟩
  operations := ⟨[⟨30, .packageSale, .cash, none⟩, ⟨31, .refund, .wallet, some 30⟩], by decide⟩
  policy := [1]
  fk_package_customer := by decide
  fk_session_customer := by decide
  fk_fin_original := by decide
  chk_fin_kind := by decide
  chk_metered_session := by decide

def events : List TimeEvent := [.consume 1 20 1 600 600 20, .grant 32 .cash 1 2 1800 "paid" 21]

theorem time_migrations_legacy :
    ∃ d₃, (((((legacy 45 30).v48 9 9).get (by decide)).run events).v50 30).v51 = .ok d₃ :=
  (time_migrations (Option.some_get _).symm rfl rfl).2.2.2.2.2.2.1.2 ⟨by decide, by decide⟩

/-- A package with more minutes than it was sold with, and one that is overdrawn. -/
theorem legacy_books_refused :
    (∃ d, (legacy 75 30).v48 9 9 = some d ∧
      (d.v50 30).v51.map (fun _ => ()) = .error
        (.refused "Historical package ledger is inconsistent; no data has been removed")) ∧
    ∃ d, (legacy 45 (-10)).v48 9 9 = some d ∧ (d.v50 30).credited 1 = 2700 ∧
      packageSeconds (legacy 45 (-10)).packages (legacy 45 (-10)).wallet (fun _ => true) 1 = 2100 :=
  ⟨⟨((legacy 75 30).v48 9 9).get (by decide), (Option.some_get _).symm, rfl⟩,
    ((legacy 45 (-10)).v48 9 9).get (by decide), (Option.some_get _).symm, by decide, by decide⟩

end Arcade

end GManager.Migrations
