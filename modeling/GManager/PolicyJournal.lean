import GManager.PolicyTransactions
import Mathlib.Data.List.Basic
import Mathlib.Data.List.Nodup
import Mathlib.Data.List.Pairwise
import Mathlib.Data.List.Perm.Basic
import Mathlib.Tactic.Common

/-!
# The journal of the Windows policy

Each transaction names its rules before it writes them, and takes out only what the journal
names. So the rules of others are left alone (`foreign_kept`), but what the journal has
forgotten stays (`overtaken_stays`).
-/

namespace GManager.AppLocker

theorem RuleType.mem_all (t : RuleType) : t ∈ RuleType.all := by cases t <;> decide

theorem RuleType.nodup_all : RuleType.all.Nodup := by decide

theorem Rule.isOwn_iff {r : Rule} : r.isOwn = true ↔ ∃ n, r.id = .drawn n := by
  unfold Rule.isOwn
  cases r.id <;> simp

/-! ### Policies -/

namespace Policy

variable {p q : Policy} {t u : RuleType} {c : Option Collection} {id : Guid} {ids : List Guid} {r : Rule}

@[simp]
theorem set_self : p.set t c t = c := by simp [set]

theorem set_ne (h : u ≠ t) : p.set t c u = p u := by simp [set, h]

theorem rules_eq {c : Collection} (h : p t = some c) : p.rules t = c.rules := by simp [rules, h]

theorem rules_none (h : p t = none) : p.rules t = [] := by simp [rules, h]

theorem mem_own : id ∈ p.own ↔ ∃ t, ∃ r ∈ p.rules t, r.isOwn = true ∧ r.id = id := by
  rw [own, List.mem_flatMap]
  constructor
  · rintro ⟨t, -, h⟩
    obtain ⟨r, hr, hid⟩ := List.mem_map.1 h
    exact ⟨t, r, (List.mem_filter.1 hr).1, (List.mem_filter.1 hr).2, hid⟩
  · rintro ⟨t, r, hr, hown, hid⟩
    exact ⟨t, t.mem_all, List.mem_map.2 ⟨r, List.mem_filter.2 ⟨hr, hown⟩, hid⟩⟩

theorem find_eq_none : p.find id = none ↔ ∀ t, ∀ r ∈ p.rules t, r.id ≠ id := by
  rw [find, List.findSome?_eq_none_iff]
  constructor
  · intro h t r hr heq
    have hnone := List.find?_eq_none.1 (Option.map_eq_none_iff.1 (h t t.mem_all)) r hr
    simp [heq] at hnone
  · intro h t _
    rw [Option.map_eq_none_iff, List.find?_eq_none]
    intro r hr
    simpa using h t r hr

theorem mem_of_find (h : p.find id = some (t, r)) : r ∈ p.rules t ∧ r.id = id := by
  obtain ⟨u, -, hu⟩ := List.exists_of_findSome?_eq_some h
  obtain ⟨r', hr', heq⟩ := Option.map_eq_some_iff.1 hu
  cases heq
  exact ⟨List.mem_of_find?_eq_some hr', by simpa using List.find?_some hr'⟩

/-- The policy without the rules that these identifiers name. -/
def without (p : Policy) (ids : List Guid) : Policy :=
  fun t => (p t).map fun c => { c with rules := c.rules.filter fun r => r.id ∉ ids }

theorem rules_without : (p.without ids).rules t = (p.rules t).filter fun r => r.id ∉ ids := by
  unfold rules without
  cases p t <;> simp

theorem without_without {ids' : List Guid} : (p.without ids).without ids' = p.without (ids ++ ids') := by
  funext t
  unfold without
  cases p t with
  | none => rfl
  | some c => simp [List.filter_filter, not_or, Bool.and_comm]

theorem without_nil : p.without [] = p := by
  funext t
  unfold without
  cases p t <;> simp

theorem own_without_sublist : ((p.without ids).own).Sublist p.own := by
  unfold own
  simp only [rules_without]
  generalize RuleType.all = ts
  induction ts with
  | nil => exact List.Sublist.refl _
  | cons t ts ih =>
    rw [List.flatMap_cons, List.flatMap_cons]
    exact List.Sublist.append ((List.filter_sublist.filter _).map _) ih

/-- The client's rules of one collection have their identifiers for themselves. -/
theorem nodup_rules (h : p.own.Nodup) (t : RuleType) : (((p.rules t).filter (·.isOwn)).map (·.id)).Nodup :=
  (List.nodup_flatMap.1 h).1 t t.mem_all

/-- No two collections have a rule of the client with the same identifier. -/
theorem eq_of_id {r r' : Rule} (h : p.own.Nodup) (hr : r ∈ p.rules t) (hown : r.isOwn = true)
    (hr' : r' ∈ p.rules u) (heq : r'.id = r.id) : u = t := by
  by_contra hne
  have hown' : r'.isOwn = true := by rw [Rule.isOwn_iff] at hown ⊢; rwa [heq]
  have hsymm : Std.Symm (Function.onFun List.Disjoint fun t => ((p.rules t).filter (·.isOwn)).map (·.id)) :=
    ⟨fun _ _ hab _ hx hy => hab hy hx⟩
  have hdisjoint := (List.nodup_flatMap.1 h).2.forall u.mem_all t.mem_all hne
  refine hdisjoint (List.mem_map.2 ⟨r', List.mem_filter.2 ⟨hr', hown'⟩, rfl⟩) ?_
  exact List.mem_map.2 ⟨r, List.mem_filter.2 ⟨hr, hown⟩, heq.symm⟩

theorem eraseP_eq_filter {l : List Rule} (h : ((l.filter (·.isOwn)).map (·.id)).Nodup) (n : ℕ) :
    (l.eraseP fun r => r.id = .drawn n) = l.filter fun r => r.id ∉ [Guid.drawn n] := by
  induction l with
  | nil => rfl
  | cons r l ih =>
    by_cases hid : r.id = .drawn n
    · have hown : r.isOwn = true := Rule.isOwn_iff.2 ⟨n, hid⟩
      rw [List.filter_cons_of_pos hown, List.map_cons, List.nodup_cons] at h
      rw [List.eraseP_cons_of_pos (by simpa using hid), List.filter_cons_of_neg (by simpa using hid), eq_comm,
        List.filter_eq_self]
      intro r' hr'
      have hne : r'.id ≠ .drawn n := by
        intro heq
        refine h.1 (List.mem_map.2 ⟨r', List.mem_filter.2 ⟨hr', Rule.isOwn_iff.2 ⟨n, heq⟩⟩,
          heq.trans hid.symm⟩)
      simpa using hne
    · rw [List.eraseP_cons_of_neg (by simpa using hid), List.filter_cons_of_pos (by simpa using hid), ih]
      cases hown : r.isOwn
      · simpa [hown] using h
      · rw [List.filter_cons_of_pos hown, List.map_cons, List.nodup_cons] at h
        exact h.2

/-- Taking out one rule of the client leaves the policy without its identifier. -/
theorem removeChild_eq {n : ℕ} (h : p.own.Nodup) (hr : r ∈ p.rules t) (hid : r.id = .drawn n) :
    p.removeChild t (.drawn n) = p.without [.drawn n] := by
  have hown : r.isOwn = true := Rule.isOwn_iff.2 ⟨n, hid⟩
  funext u
  by_cases hu : u = t
  · subst hu
    rw [removeChild, set_self, without]
    cases hc : p u with
    | none => rfl
    | some c =>
      have hnodup := nodup_rules h u
      rw [rules_eq hc] at hnodup
      rw [Option.map_some, Option.map_some, eraseP_eq_filter hnodup]
  · rw [removeChild, set_ne hu, without]
    cases hc : p u with
    | none => rfl
    | some c =>
      rw [Option.map_some]
      congr 1
      have hself : (c.rules.filter fun r => r.id ∉ [Guid.drawn n]) = c.rules := by
        rw [List.filter_eq_self]
        intro r' hr'
        have hne : r'.id ≠ .drawn n := by
          intro heq
          exact hu (eq_of_id h hr hown (by rw [rules_eq hc]; exact hr') (heq.trans hid.symm))
        simpa using hne
      rw [hself]

end Policy

/-! ### Taking rules out -/

section removal

variable {p q : Policy} {j : Journal} {ids : List Guid} {a b : List RuleType} {t : RuleType}

/-- These rules of the client may be taken out. -/
def Drawn (ids : List Guid) : Prop := ∀ id ∈ ids, ∃ n, id = .drawn n

theorem removeRule_spec {id : Guid} (hnodup : p.own.Nodup) (hid : ∃ n, id = .drawn n)
    (h : removeRule j (p, a) id = .ok (q, b)) :
    q = p.without [id] ∧ ∀ t, t ∈ b ↔ t ∈ a ∨ ∃ r ∈ p.rules t, r.id = id := by
  obtain ⟨n, rfl⟩ := hid
  unfold removeRule at h
  split at h
  · rename_i hfind
    rw [Policy.find_eq_none] at hfind
    cases h
    refine ⟨?_, fun t => ⟨.inl, ?_⟩⟩
    · funext t
      unfold Policy.without
      cases hc : p t with
      | none => rfl
      | some c =>
        have hself : (c.rules.filter fun r => r.id ∉ [Guid.drawn n]) = c.rules := by
          rw [List.filter_eq_self]
          intro r hr
          have hne := hfind t r (by rw [Policy.rules_eq hc]; exact hr)
          simpa using hne
        rw [Option.map_some, hself]
    · rintro (ht | ⟨r, hr, heq⟩)
      · exact ht
      · exact absurd heq (hfind t r hr)
  · rename_i u r hfind
    obtain ⟨hr, hid⟩ := Policy.mem_of_find hfind
    split at h
    · cases h
      refine ⟨Policy.removeChild_eq hnodup hr hid, fun t => ?_⟩
      rw [List.mem_cons, or_comm]
      refine or_congr_right ⟨?_, ?_⟩
      · rintro rfl
        exact ⟨r, hr, hid⟩
      · rintro ⟨r', hr', hid'⟩
        exact Policy.eq_of_id hnodup hr (Rule.isOwn_iff.2 ⟨n, hid⟩) hr' (hid'.trans hid.symm)
    · cases h

theorem removeRules_spec (hnodup : p.own.Nodup) (hids : Drawn ids)
    (h : ids.foldlM (removeRule j) (p, a) = .ok (q, b)) : q = p.without ids ∧ ∀ t, t ∈ b ↔ t ∈ a ∨
    ∃ r ∈ p.rules t, r.id ∈ ids := by
  induction ids generalizing p a with
  | nil =>
    cases h
    exact ⟨Policy.without_nil.symm, fun t => by simp⟩
  | cons id ids ih =>
    rw [List.foldlM_cons] at h
    cases hfirst : removeRule j (p, a) id with
    | error e => rw [hfirst] at h; cases h
    | ok s =>
      obtain ⟨p₁, a₁⟩ := s
      rw [hfirst] at h
      obtain ⟨rfl, ha₁⟩ := removeRule_spec hnodup (hids id List.mem_cons_self) hfirst
      obtain ⟨rfl, hb⟩ :=
        ih (hnodup.sublist Policy.own_without_sublist) (fun x hx => hids x (List.mem_cons_of_mem _ hx)) h
      refine ⟨Policy.without_without, fun t => ?_⟩
      rw [hb, ha₁, or_assoc]
      refine or_congr_right ?_
      simp only [Policy.rules_without, List.mem_filter, List.mem_cons]
      constructor
      · rintro (⟨r, hr, hid⟩ | ⟨r, ⟨hr, -⟩, hid⟩)
        · exact ⟨r, hr, .inl hid⟩
        · exact ⟨r, hr, .inr hid⟩
      · rintro ⟨r, hr, hid | hid⟩
        · exact .inl ⟨r, hr, hid⟩
        · by_cases hfirst : r.id = id
          · exact .inl ⟨r, hr, hfirst⟩
          · exact .inr ⟨r, ⟨hr, by simpa using hfirst⟩, hid⟩

theorem rules_restoredMode {before : Option Mode} {c : Collection} :
    ((restoredMode before c).map (·.rules)).getD [] = c.rules := by
  unfold restoredMode
  split
  · split
    · rename_i hempty
      exact hempty.symm
    · rfl
  · rfl

theorem rules_restoreMode (h : restoreMode j a p t = .ok q) (u : RuleType) : q.rules u = p.rules u := by
  unfold restoreMode at h
  split at h
  · cases h
    rfl
  split at h
  · cases h
    rfl
  split at h
  · cases h
  rename_i c hc
  split at h
  · cases h
    by_cases hu : u = t
    · subst hu
      rw [Policy.rules, Policy.set_self, rules_restoredMode, Policy.rules_eq hc]
    · rw [Policy.rules, Policy.set_ne hu, Policy.rules]
  · cases h

theorem rules_restoreModes {ts : List RuleType} (h : ts.foldlM (restoreMode j a) p = .ok q) (u : RuleType) :
    q.rules u = p.rules u := by
  induction ts generalizing p with
  | nil =>
    cases h
    rfl
  | cons t ts ih =>
    rw [List.foldlM_cons] at h
    cases hfirst : restoreMode j a p t with
    | error e => rw [hfirst] at h; cases h
    | ok p₁ =>
      rw [hfirst] at h
      rw [ih h, rules_restoreMode hfirst]

/-- What the journal names is taken out, and nothing else. -/
theorem removeOwnedRules_rules (hnodup : p.own.Nodup) (hids : Drawn j.named)
    (h : removeOwnedRules p j = .ok q) (t : RuleType) :
    q.rules t = (p.rules t).filter fun r => r.id ∉ j.named := by
  unfold removeOwnedRules at h
  cases hfold : j.named.foldlM (removeRule j) (p, []) with
  | error e => rw [hfold] at h; cases h
  | ok s =>
    rw [hfold] at h
    rw [rules_restoreModes h, (removeRules_spec hnodup hids hfold).1, Policy.rules_without]

/-- The rules of others are left alone. -/
theorem removeOwnedRules_foreign (hnodup : p.own.Nodup) (hids : Drawn j.named)
    (h : removeOwnedRules p j = .ok q) (t : RuleType) : q.foreign t = p.foreign t := by
  rw [Policy.foreign, Policy.foreign, removeOwnedRules_rules hnodup hids h, List.filter_filter]
  refine List.filter_congr fun r _ => ?_
  cases hown : r.isOwn
  · have hnot : r.id ∉ j.named := by
      intro hmem
      obtain ⟨n, hn⟩ := hids r.id hmem
      rw [Rule.isOwn_iff.2 ⟨n, hn⟩] at hown
      cases hown
    simp [hnot]
  · simp

theorem mem_own_removeOwnedRules (hnodup : p.own.Nodup) (hids : Drawn j.named)
    (h : removeOwnedRules p j = .ok q) {id : Guid} : id ∈ q.own ↔ id ∈ p.own ∧ id ∉ j.named := by
  rw [Policy.mem_own, Policy.mem_own]
  constructor
  · rintro ⟨t, r, hr, hown, rfl⟩
    rw [removeOwnedRules_rules hnodup hids h] at hr
    obtain ⟨hr, hnot⟩ := List.mem_filter.1 hr
    exact ⟨⟨t, r, hr, hown, rfl⟩, by simpa using hnot⟩
  · rintro ⟨⟨t, r, hr, hown, rfl⟩, hnot⟩
    refine ⟨t, r, ?_, hown, rfl⟩
    rw [removeOwnedRules_rules hnodup hids h]
    exact List.mem_filter.2 ⟨hr, by simpa using hnot⟩

theorem own_removeOwnedRules_sublist (hnodup : p.own.Nodup) (hids : Drawn j.named)
    (h : removeOwnedRules p j = .ok q) : q.own.Sublist p.own := by
  have heq : q.own = (p.without j.named).own := by
    unfold Policy.own
    refine List.flatMap_congr fun t _ => ?_
    rw [removeOwnedRules_rules hnodup hids h, Policy.rules_without]
  rw [heq]
  exact Policy.own_without_sublist

end removal

/-! ### Adding rules -/

section adding

variable {p : Policy} {c : Restriction} {a : Artifact} {n : ℕ} {t : RuleType} {r : Rule}

theorem addRestrictions_ok (h : addRestrictions n c p = .ok a) :
    inactive p = false ∧ a = ⟨fun t => some ⟨.enabled, p.rules t ++ addedRules n c t (p.rules t)⟩,
      fun t => addedRules n c t (p.rules t), fun t => (p t).map (·.mode)⟩ := by
  unfold addRestrictions at h
  split at h
  · cases h
  · rename_i hactive
    cases h
    exact ⟨by simpa using hactive, rfl⟩

theorem rules_addRestrictions (h : addRestrictions n c p = .ok a) (t : RuleType) :
    a.policy.rules t = p.rules t ++ a.rules t := by
  obtain ⟨-, rfl⟩ := addRestrictions_ok h
  rfl

theorem ids_addedRules (present : List Rule) :
    ((addedRules n c t present).map (·.id)).Sublist
      [.drawn (n + 3 * t.index), .drawn (n + 3 * t.index + 1), .drawn (n + 3 * t.index + 2)] := by
  unfold addedRules
  split <;> split <;> simp

theorem isOwn_of_mem_addedRules {present : List Rule} (h : r ∈ addedRules n c t present) :
    r.isOwn = true := by
  have hmem := (ids_addedRules present).subset (List.mem_map_of_mem h)
  rw [Rule.isOwn_iff]
  simp only [List.mem_cons, List.not_mem_nil, or_false] at hmem
  rcases hmem with hid | hid | hid
  · exact ⟨_, hid⟩
  · exact ⟨_, hid⟩
  · exact ⟨_, hid⟩

theorem ids_addRestrictions (h : addRestrictions n c p = .ok a) :
    a.ids.Sublist ((List.range draws).map fun k => Guid.drawn (n + k)) := by
  obtain ⟨-, rfl⟩ := addRestrictions_ok h
  unfold Artifact.ids Artifact.all
  rw [List.map_flatMap]
  have hsublist : ∀ ts : List RuleType,
      (ts.flatMap fun t => (addedRules n c t (p.rules t)).map (·.id)).Sublist
        (ts.flatMap fun t => [.drawn (n + 3 * t.index), .drawn (n + 3 * t.index + 1),
          .drawn (n + 3 * t.index + 2)]) := by
    intro ts
    induction ts with
    | nil => exact List.Sublist.refl _
    | cons t ts ih => exact List.Sublist.append (ids_addedRules _) ih
  exact hsublist RuleType.all

theorem mem_ids_addRestrictions (h : addRestrictions n c p = .ok a) {id : Guid} (hid : id ∈ a.ids) :
    ∃ k, n ≤ k ∧ k < n + draws ∧ id = .drawn k := by
  obtain ⟨k, hk, rfl⟩ := List.mem_map.1 ((ids_addRestrictions h).subset hid)
  exact ⟨n + k, Nat.le_add_right n k, by have := List.mem_range.1 hk; omega, rfl⟩

theorem nodup_ids_addRestrictions (h : addRestrictions n c p = .ok a) : a.ids.Nodup := by
  refine List.Nodup.sublist (ids_addRestrictions h) (List.Nodup.map ?_ List.nodup_range)
  intro i k hik
  simpa using hik

theorem foreign_addRestrictions (h : addRestrictions n c p = .ok a) (t : RuleType) :
    a.policy.foreign t = p.foreign t := by
  rw [Policy.foreign, Policy.foreign, rules_addRestrictions h, List.filter_append]
  obtain ⟨-, rfl⟩ := addRestrictions_ok h
  have hnone : ((addedRules n c t (p.rules t)).filter fun r => !r.isOwn) = [] := by
    rw [List.filter_eq_nil_iff]
    intro r hr
    simp [isOwn_of_mem_addedRules hr]
  rw [hnone, List.append_nil]

end adding

theorem perm_own_addRestrictions {n : ℕ} {c : Restriction} {p : Policy} {a : Artifact}
    (h : addRestrictions n c p = .ok a) : (p.own ++ a.ids).Perm a.policy.own := by
  have heq : a.policy.own =
      RuleType.all.flatMap fun t => ((p.rules t).filter (·.isOwn)).map (·.id) ++ (a.rules t).map (·.id) := by
    unfold Policy.own
    refine List.flatMap_congr fun t _ => ?_
    rw [rules_addRestrictions h, List.filter_append, List.map_append]
    obtain ⟨-, rfl⟩ := addRestrictions_ok h
    have hall : ((addedRules n c t (p.rules t)).filter (·.isOwn)) = addedRules n c t (p.rules t) := by
      rw [List.filter_eq_self]
      exact fun r hr => isOwn_of_mem_addedRules hr
    rw [hall]
  rw [heq, Policy.own, Artifact.ids, Artifact.all, List.map_flatMap]
  exact List.flatMap_append_perm _ _ _

/-! ### What every transaction keeps -/

namespace Station

/-- The identifiers of the client are apart, and were all drawn. -/
structure Sound (s : Station) : Prop where
  nodup : s.policy.own.Nodup
  fresh : ∀ id ∈ s.policy.own, ∃ k < s.drawn, id = .drawn k
  named : ∀ id ∈ s.current.named, ∃ k < s.drawn, id = .drawn k

/-- The policy of `s` without the rules that the journal names. -/
structure Cleaned (s : Station) (q : Policy) : Prop where
  foreign : ∀ t, q.foreign t = s.policy.foreign t
  nodup : q.own.Nodup
  own : ∀ id, id ∈ q.own ↔ id ∈ s.policy.own ∧ id ∉ s.current.named

/-- What a transaction that began in `s` may have written. -/
structure Stage (s s' : Station) : Prop where
  drawn : s.drawn ≤ s'.drawn
  named : ∀ id ∈ s'.current.named, id ∈ s.current.named ∨ ∃ k, s.drawn ≤ k ∧ k < s'.drawn ∧ id = .drawn k
  policy : s'.policy = s.policy ∨ s.Cleaned s'.policy ∨
    ∃ q n c a, s.Cleaned q ∧ s.drawn ≤ n ∧ n + draws ≤ s'.drawn ∧ addRestrictions n c q = .ok a ∧
    s'.policy = a.policy

variable {s s' s₁ : Station} {p q q' : Policy} {a : Artifact} {c : Restriction} {n : ℕ} {act : Action}

theorem Sound.drawnNamed (h : s.Sound) : Drawn s.current.named := by
  intro id hid
  obtain ⟨k, -, rfl⟩ := h.named id hid
  exact ⟨k, rfl⟩

theorem Sound.cleaned (h : s.Sound) (hq : removeOwnedRules s.policy s.current = .ok q) : s.Cleaned q := by
  refine ⟨removeOwnedRules_foreign h.nodup h.drawnNamed hq, ?_, ?_⟩
  · exact h.nodup.sublist (own_removeOwnedRules_sublist h.nodup h.drawnNamed hq)
  · exact fun id => mem_own_removeOwnedRules h.nodup h.drawnNamed hq

/-- Fresh rules stand beside those that were left. -/
theorem Cleaned.nodup_add (hs : s.Sound) (hq : s.Cleaned q) (hn : s.drawn ≤ n)
    (ha : addRestrictions n c q = .ok a) :
    a.policy.own.Nodup := by
  refine (perm_own_addRestrictions ha).nodup_iff.1 ?_
  refine List.nodup_append.2 ⟨hq.nodup, nodup_ids_addRestrictions ha, ?_⟩
  rintro id hid _ hid' rfl
  obtain ⟨k, hk, rfl⟩ := hs.fresh id ((hq.own id).1 hid).1
  obtain ⟨k', hk', -, heq⟩ := mem_ids_addRestrictions ha hid'
  cases heq
  omega

theorem Cleaned.mem_add (ha : addRestrictions n c q = .ok a) {id : Guid} :
    id ∈ a.policy.own ↔ id ∈ q.own ∨ id ∈ a.ids := by
  rw [← (perm_own_addRestrictions ha).mem_iff, List.mem_append]

/-- Rules that were added and taken out again leave nothing behind. -/
theorem Cleaned.again {j : Journal} (hs : s.Sound) (hq : s.Cleaned q) (hn : s.drawn ≤ n)
    (ha : addRestrictions n c q = .ok a) (hj : j.named = a.ids) (h : removeOwnedRules a.policy j = .ok q') :
    s.Cleaned q' := by
  have hnodup := hq.nodup_add hs hn ha
  have hdrawn : Drawn j.named := by
    intro id hid
    rw [hj] at hid
    obtain ⟨k, -, -, rfl⟩ := mem_ids_addRestrictions ha hid
    exact ⟨k, rfl⟩
  refine ⟨fun t => ?_, hnodup.sublist (own_removeOwnedRules_sublist hnodup hdrawn h), fun id => ?_⟩
  · rw [removeOwnedRules_foreign hnodup hdrawn h, foreign_addRestrictions ha, hq.foreign]
  · rw [mem_own_removeOwnedRules hnodup hdrawn h, hj, mem_add ha, ← hq.own]
    constructor
    · rintro ⟨hid | hid, hnot⟩
      · exact hid
      · exact absurd hid hnot
    · intro hid
      refine ⟨.inl hid, fun hmem => ?_⟩
      obtain ⟨k, hk, rfl⟩ := hs.fresh id ((hq.own id).1 hid).1
      obtain ⟨k', hk', -, heq⟩ := mem_ids_addRestrictions ha hmem
      cases heq
      omega

/-! What the parts of a transaction write. -/

theorem finish_cases (s : Station) (c : Restriction) (q : Policy) :
    s.finish c q = [] ∨ ∃ a, addRestrictions s.drawn c q = .ok a ∧
      s.finish c q = [s.announce s.current.named .verifying a,
        (s.announce s.current.named .verifying a).store a.policy,
        ((s.announce s.current.named .verifying a).store a.policy).commit a] := by
  unfold finish
  split
  · exact .inl rfl
  · rename_i a ha
    exact .inr ⟨a, ha, rfl⟩

theorem probe_cases (s : Station) (probes : List String) (c : Restriction) (q : Policy) :
    s.probe probes c q = [] ∨
    ∃ a rest, addRestrictions s.drawn { c with executables := c.executables ++ probes } q = .ok a ∧
      s.probe probes c q = s.announce s.current.owned .applying a ::
        (s.announce s.current.owned .applying a).store a.policy :: rest ∧
      (rest = [] ∨ ∃ q', removeOwnedRules a.policy (a.journal .applying) = .ok q' ∧
        rest = ((s.announce s.current.owned .applying a).store a.policy).finish c q') := by
  unfold probe
  split
  · exact .inl rfl
  · rename_i a ha
    refine .inr ⟨a, _, ha, rfl, ?_⟩
    split
    · exact .inl rfl
    · rename_i q' hq'
      exact .inr ⟨q', hq', rfl⟩

theorem applyPolicy_cases (s : Station) (verify : Bool) (probes : List String) (c : Restriction) :
    s.applyPolicy verify probes c = [s.withJournal s.current] ∨
    ∃ q, removeOwnedRules s.policy s.current = .ok q ∧
      s.applyPolicy verify probes c = s.withJournal s.current ::
        if verify then
          (s.withJournal s.current).probe probes c q
        else (s.withJournal s.current).finish c q := by
  unfold applyPolicy
  dsimp only
  split
  · exact .inl rfl
  · rename_i q hq
    exact .inr ⟨q, hq, rfl⟩

theorem removePolicy_cases (s : Station) :
    s.removePolicy = [] ∨
    ∃ j q rest, s.journal = some j ∧ removeOwnedRules s.policy j = .ok q ∧
      s.removePolicy = s.withJournal { j with phase := .restoring } ::
        (s.withJournal { j with phase := .restoring }).store q :: rest ∧
      (rest = [] ∨
        rest = [((s.withJournal { j with phase := .restoring }).store q).withJournal
          { Journal.prepared with phase := .removed }]) := by
  unfold removePolicy
  split
  · exact .inl rfl
  rename_i j hj
  split
  · exact .inl rfl
  rename_i q hq
  refine .inr ⟨j, q, _, hj, hq, rfl, ?_⟩
  split
  · exact .inl rfl
  · exact .inr rfl

namespace Stage

theorem refl (s : Station) : Stage s s := ⟨Nat.le_refl _, fun _ h => .inl h, .inl rfl⟩

theorem withJournal {j : Journal} (h : Stage s s₁) (hj : ∀ id ∈ j.named, id ∈ s₁.current.named) :
    Stage s (s₁.withJournal j) :=
  ⟨h.drawn, fun id hid => h.named id (hj id hid), h.policy⟩

theorem announce {owned : List Guid} (h : Stage s s₁) (howned : ∀ id ∈ owned, id ∈ s₁.current.named)
    (ha : addRestrictions s₁.drawn c q = .ok a) (phase : Phase) : Stage s (s₁.announce owned phase a) := by
  refine ⟨Nat.le_trans h.drawn (Nat.le_add_right _ _), fun id hid => ?_, ?_⟩
  · rcases List.mem_append.1 hid with hid | hid
    · rcases h.named id (howned id hid) with hold | ⟨k, hk, hlt, rfl⟩
      · exact .inl hold
      · exact .inr ⟨k, hk, Nat.lt_add_right _ hlt, rfl⟩
    · obtain ⟨k, hk, hlt, rfl⟩ := mem_ids_addRestrictions ha hid
      exact .inr ⟨k, Nat.le_trans h.drawn hk, hlt, rfl⟩
  · rcases h.policy with hp | hp | ⟨q, n, c, a, hq, hn, hlt, ha, hp⟩
    · exact .inl hp
    · exact .inr (.inl hp)
    · exact .inr (.inr ⟨q, n, c, a, hq, hn, Nat.le_trans hlt (Nat.le_add_right _ _), ha, hp⟩)

theorem store (h : Stage s s₁) (hq : s.Cleaned q) (hn : s.drawn ≤ n) (hlt : n + draws ≤ s₁.drawn)
    (ha : addRestrictions n c q = .ok a) : Stage s (s₁.store a.policy) :=
  ⟨h.drawn, h.named, .inr (.inr ⟨q, n, c, a, hq, hn, hlt, ha, rfl⟩)⟩

theorem finish (h : Stage s s₁) (hq : s.Cleaned q) (hmem : s' ∈ s₁.finish c q) : Stage s s' := by
  rcases finish_cases s₁ c q with heq | ⟨a, ha, heq⟩
  · rw [heq] at hmem
    cases hmem
  · have hannounced := h.announce (fun _ hid => hid) ha .verifying
    have hstored := hannounced.store hq h.drawn (Nat.le_refl _) ha
    rw [heq] at hmem
    simp only [List.mem_cons, List.not_mem_nil, or_false] at hmem
    rcases hmem with rfl | rfl | rfl
    · exact hannounced
    · exact hstored
    · refine hstored.withJournal fun id hid => ?_
      rw [Journal.named, Artifact.journal, List.append_nil] at hid
      exact List.mem_append_right _ hid

theorem probe {probes : List String} (hs : s.Sound) (h : Stage s s₁) (hq : s.Cleaned q)
    (hmem : s' ∈ s₁.probe probes c q) :
    Stage s s' := by
  rcases probe_cases s₁ probes c q with heq | ⟨a, rest, ha, heq, hrest⟩
  · rw [heq] at hmem
    cases hmem
  · have hannounced := h.announce (fun _ hid => List.mem_append_left _ hid) ha .applying
    have hstored := hannounced.store hq h.drawn (Nat.le_refl _) ha
    rw [heq] at hmem
    rcases List.mem_cons.1 hmem with rfl | hmem
    · exact hannounced
    rcases List.mem_cons.1 hmem with rfl | hmem
    · exact hstored
    rcases hrest with rfl | ⟨q', hq', rfl⟩
    · cases hmem
    · exact hstored.finish (hq.again hs h.drawn ha (List.append_nil _) hq') hmem

theorem applyPolicy {verify : Bool} {probes : List String} (hs : s.Sound)
    (hmem : s' ∈ s.applyPolicy verify probes c) :
    Stage s s' := by
  have hbegun : Stage s (s.withJournal s.current) := (refl s).withJournal fun _ hid => hid
  rcases applyPolicy_cases s verify probes c with heq | ⟨q, hq, heq⟩
  · rw [heq] at hmem
    rw [List.mem_singleton.1 hmem]
    exact hbegun
  rw [heq] at hmem
  rcases List.mem_cons.1 hmem with rfl | hmem
  · exact hbegun
  split at hmem
  · exact probe hs hbegun (hs.cleaned hq) hmem
  · exact hbegun.finish (hs.cleaned hq) hmem

theorem removePolicy (hs : s.Sound) (hmem : s' ∈ s.removePolicy) : Stage s s' := by
  rcases removePolicy_cases s with heq | ⟨j, q, rest, hj, hq, heq, hrest⟩
  · rw [heq] at hmem
    cases hmem
  have hcurrent : s.current = j := by rw [current, hj, Option.getD_some]
  have hcleaned : s.Cleaned q := hs.cleaned (by rw [hcurrent]; exact hq)
  have hrestoring : Stage s (s.withJournal { j with phase := .restoring }) := by
    refine (refl s).withJournal fun id hid => ?_
    rw [hcurrent]
    exact hid
  have hstored : Stage s ((s.withJournal { j with phase := .restoring }).store q) :=
    ⟨hrestoring.drawn, hrestoring.named, .inr (.inl hcleaned)⟩
  rw [heq] at hmem
  rcases List.mem_cons.1 hmem with rfl | hmem
  · exact hrestoring
  rcases List.mem_cons.1 hmem with rfl | hmem
  · exact hstored
  rcases hrest with rfl | rfl
  · cases hmem
  · rw [List.mem_singleton.1 hmem]
    refine hstored.withJournal fun id hid => ?_
    cases hid

theorem transaction (hs : s.Sound) (hmem : s' ∈ s.transaction act) : Stage s s' := by
  cases act with
  | apply verify probes c => exact applyPolicy hs hmem
  | remove => exact removePolicy hs hmem

theorem sound (hs : s.Sound) (h : Stage s s') : s'.Sound := by
  have hnamed : ∀ id ∈ s'.current.named, ∃ k < s'.drawn, id = .drawn k := by
    intro id hid
    rcases h.named id hid with hold | ⟨k, -, hk, rfl⟩
    · obtain ⟨k, hk, rfl⟩ := hs.named id hold
      exact ⟨k, Nat.lt_of_lt_of_le hk h.drawn, rfl⟩
    · exact ⟨k, hk, rfl⟩
  have hfresh : ∀ id ∈ s.policy.own, ∃ k < s'.drawn, id = .drawn k := by
    intro id hid
    obtain ⟨k, hk, rfl⟩ := hs.fresh id hid
    exact ⟨k, Nat.lt_of_lt_of_le hk h.drawn, rfl⟩
  rcases h.policy with hp | hp | ⟨q, n, c, a, hq, hn, hlt, ha, hp⟩
  · exact ⟨by rw [hp]; exact hs.nodup, by rw [hp]; exact hfresh, hnamed⟩
  · exact ⟨hp.nodup, fun id hid => hfresh id ((hp.own id).1 hid).1, hnamed⟩
  · refine ⟨by rw [hp]; exact hq.nodup_add hs hn ha, fun id hid => ?_, hnamed⟩
    rw [hp, Cleaned.mem_add ha, hq.own] at hid
    rcases hid with ⟨hid, -⟩ | hid
    · exact hfresh id hid
    · obtain ⟨k, -, hk, rfl⟩ := mem_ids_addRestrictions ha hid
      exact ⟨k, by omega, rfl⟩

theorem foreign (h : Stage s s') (t : RuleType) : s'.policy.foreign t = s.policy.foreign t := by
  rcases h.policy with hp | hp | ⟨q, n, c, a, hq, -, -, ha, hp⟩
  · rw [hp]
  · exact hp.foreign t
  · rw [hp, foreign_addRestrictions ha, hq.foreign]

/-- What the journal does not name is not taken out, and the journal will not name it. -/
theorem unnamed (hs : s.Sound) (h : Stage s s') {id : Guid} (hown : id ∈ s.policy.own)
    (hnot : id ∉ s.current.named) : id ∈ s'.policy.own ∧ id ∉ s'.current.named := by
  constructor
  · rcases h.policy with hp | hp | ⟨q, n, c, a, hq, -, -, ha, hp⟩
    · rw [hp]
      exact hown
    · exact (hp.own id).2 ⟨hown, hnot⟩
    · rw [hp, Cleaned.mem_add ha, hq.own]
      exact .inl ⟨hown, hnot⟩
  · intro hmem
    rcases h.named id hmem with hold | ⟨k, hk, -, rfl⟩
    · exact hnot hold
    · obtain ⟨k', hk', heq⟩ := hs.fresh _ hown
      cases heq
      omega

end Stage

theorem interrupted_eq (s : Station) (act : Action) (writes : ℕ) :
    s.interrupted act writes = s ∨ s.interrupted act writes ∈ s.transaction act := by
  unfold interrupted
  rw [List.getLastD_eq_getLast?]
  cases hlast : ((s.transaction act).take writes).getLast? with
  | none => exact .inl rfl
  | some s' => exact .inr (List.mem_of_mem_take (List.mem_of_getLast? hlast))

theorem interrupted_stage (hs : s.Sound) (act : Action) (writes : ℕ) :
    Stage s (s.interrupted act writes) := by
  rcases interrupted_eq s act writes with heq | hmem
  · rw [heq]
    exact Stage.refl s
  · exact Stage.transaction hs hmem

theorem Sound.step (hs : s.Sound) (e : Event) : (s.step e).Sound := by
  cases e with
  | transaction act writes => exact (interrupted_stage hs act writes).sound hs
  | edit p =>
    show (if p.own.isSublist s.policy.own then s.store p else s).Sound
    split
    · rename_i hsublist
      rw [List.isSublist_iff_sublist] at hsublist
      exact ⟨hs.nodup.sublist hsublist, fun id hid => hs.fresh id (hsublist.subset hid), hs.named⟩
    · exact hs

theorem Sound.run (hs : s.Sound) (es : List Event) : (s.run es).Sound := by
  induction es generalizing s with
  | nil => exact hs
  | cons e es ih => exact ih (hs.step e)

/-- A station that the client has not touched. -/
def untouched (p : Policy) : Station := ⟨p, none, 0⟩

theorem Sound.untouched (h : p.own = []) : (untouched p).Sound := by
  refine ⟨?_, ?_, ?_⟩
  · show p.own.Nodup
    rw [h]
    exact List.nodup_nil
  · intro id hid
    rw [Station.untouched, h] at hid
    cases hid
  · intro id hid
    cases hid

/-- Transactions, each with the writes it came to. -/
def carryOut (s : Station) (acts : List (Action × ℕ)) : Station :=
  acts.foldl (fun s x => s.interrupted x.1 x.2) s

theorem carryOut_stage (hs : s.Sound) (acts : List (Action × ℕ)) :
    (s.carryOut acts).Sound ∧ (∀ t, (s.carryOut acts).policy.foreign t = s.policy.foreign t) ∧
      ∀ id ∈ s.policy.own, id ∉ s.current.named → id ∈ (s.carryOut acts).policy.own := by
  induction acts generalizing s with
  | nil => exact ⟨hs, fun _ => rfl, fun _ hid _ => hid⟩
  | cons x acts ih =>
    have hstage := interrupted_stage hs x.1 x.2
    obtain ⟨hsound, hforeign, hunnamed⟩ := ih (hstage.sound hs)
    refine ⟨hsound, fun t => (hforeign t).trans (hstage.foreign t), fun id hid hnot => ?_⟩
    obtain ⟨hid', hnot'⟩ := hstage.unnamed hs hid hnot
    exact hunnamed id hid' hnot'

end Station

/-! ### Rules of others, and rules that are overtaken -/

open Station

/-- Whatever the client's transactions do and wherever they stop, they leave the rules of others as an
administrator has left them. -/
theorem foreign_kept (p : Policy) (hp : p.own = []) (es : List Event) (acts : List (Action × ℕ))
    (t : RuleType) : (((untouched p).run es).carryOut acts).policy.foreign
      t = ((untouched p).run es).policy.foreign t :=
  (carryOut_stage ((Sound.untouched hp).run es) acts).2.1 t

/-- A verifying call forgets what an interrupted one has pending: if it stops before its first write of the
policy, no later transaction ever takes out such a rule. -/
theorem overtaken_stays (p : Policy) (hp : p.own = []) (es : List Event) (probes : List String)
    (c : Restriction) (hdone : 2 < (((untouched p).run es).transaction (.apply true probes c)).length)
    (id : Guid) (hown : id ∈ ((untouched p).run es).policy.own)
    (hnot : id ∉ ((untouched p).run es).current.owned) (acts : List (Action × ℕ)) :
    id ∈ ((((untouched p).run es).interrupted (.apply true probes c) 2).carryOut acts).policy.own := by
  have hs := (Sound.untouched hp).run es
  generalize (untouched p).run es = s at *
  have hstage := interrupted_stage hs (.apply true probes c) 2
  obtain ⟨hown', hnot'⟩ : id ∈ (s.interrupted (.apply true probes c) 2).policy.own ∧
      id ∉ (s.interrupted (.apply true probes c) 2).current.named := by
    unfold interrupted
    change 2 < (s.applyPolicy true probes c).length at hdone
    change id ∈ (((s.applyPolicy true probes c).take 2).getLastD s).policy.own ∧
      id ∉ (((s.applyPolicy true probes c).take 2).getLastD s).current.named
    rcases applyPolicy_cases s true probes c with heq | ⟨q, -, heq⟩
    · rw [heq] at hdone
      simp at hdone
    rw [heq, if_pos rfl] at hdone ⊢
    rcases probe_cases (s.withJournal s.current) probes c q with heq | ⟨a, rest, ha, heq, -⟩
    · rw [heq] at hdone
      simp at hdone
    rw [heq]
    refine ⟨hown, fun hmem => ?_⟩
    rcases List.mem_append.1 hmem with hmem | hmem
    · exact hnot hmem
    · obtain ⟨k, hk, -, rfl⟩ := mem_ids_addRestrictions ha hmem
      obtain ⟨k', hk', heq⟩ := hs.fresh _ hown
      cases heq
      exact absurd hk (Nat.not_le_of_lt hk')
  exact (carryOut_stage (hstage.sound hs) acts).2.2 id hown' hnot'

/-! A station with a rule of its administrator. The first call fails after its second
write of the policy, the next one
before its first. -/

namespace Booth

def original : Policy
  | .exe => some ⟨.enabled, [⟨.other 1, everyone, .allow, .all []⟩]⟩
  | _ => none

def games : Restriction := ⟨"S-1-5-21-1-2-3-1001", ["C:\\Games\\game.exe"], ["C:\\Games\\engine.dll"]⟩

def failing : List Event := [.transaction (.apply true ["C:\\probe.exe"] games) 5]

theorem foreign_kept_failing :
    (((untouched original).run failing).carryOut [(.remove, 3)]).policy.foreign .exe =
      ((untouched original).run failing).policy.foreign .exe :=
  foreign_kept original (by decide) failing [(.remove, 3)] .exe

theorem overtaken_stays_failing :
    Guid.drawn 16 ∈ ((((untouched original).run failing).interrupted (.apply true [] games) 2).carryOut
      [(.apply true [] games, 6), (.remove, 3)]).policy.own :=
  overtaken_stays original (by decide) failing [] games (by decide) (.drawn 16) (by decide) (by decide) _

end Booth

end GManager.AppLocker
