import GManager.PolicyJournal

/-!
# Taking the client off a station

As long as no verifying call overtakes an interrupted one, the policy is always the original one
with the rules of one call on top, and the journal names and knows them (`Layered`). So a removal
restores the original policy (`policy_restored`), and until then the player may start just what that
call spares (`player_confined`).
-/

namespace GManager.AppLocker

/-! ### The original policy under the client's rules -/

/-- The original policy with these rules on top. -/
def overlay (B : Policy) (added : RuleType → List Rule) : Policy :=
  fun t => if added t = [] then B t else some ⟨.enabled, B.rules t ++ added t⟩

section overlays

variable {B p q : Policy} {added : RuleType → List Rule} {j : Journal} {ids : List Guid} {a b : List RuleType}
  {t : RuleType} {r : Rule}

theorem rules_overlay : (overlay B added).rules t = B.rules t ++ added t := by
  unfold Policy.rules overlay
  split
  · rename_i hempty
    rw [hempty, List.append_nil]
  · rfl

theorem isOwn_eq_false (h : B.own = []) (hr : r ∈ B.rules t) : r.isOwn = false := by
  by_contra hown
  have hmem : r.id ∈ B.own := Policy.mem_own.2 ⟨t, r, hr, by simpa using hown, rfl⟩
  rw [h] at hmem
  cases hmem

theorem removeRules_progress (hnodup : p.own.Nodup) (hids : Drawn ids)
    (hknown : ∀ t, ∀ r ∈ p.rules t, r.id ∈ ids → j.ruleXml r.id = some r) :
    ∃ x, ids.foldlM (removeRule j) (p, a) = .ok x := by
  induction ids generalizing p a with
  | nil => exact ⟨_, rfl⟩
  | cons id ids ih =>
    have hfirst : ∃ x, removeRule j (p, a) id = .ok x := by
      unfold removeRule
      split
      · exact ⟨_, rfl⟩
      · rename_i u r hfind
        obtain ⟨hr, rfl⟩ := Policy.mem_of_find hfind
        rw [if_pos (hknown u r hr List.mem_cons_self)]
        exact ⟨_, rfl⟩
    obtain ⟨⟨p₁, a₁⟩, hfirst⟩ := hfirst
    obtain ⟨rfl, -⟩ := removeRule_spec hnodup (hids id List.mem_cons_self) hfirst
    obtain ⟨x, hx⟩ :=
      ih (hnodup.sublist Policy.own_without_sublist) (fun y hy => hids y (List.mem_cons_of_mem _ hy))
      (fun t r hr hid => hknown t r (List.mem_of_mem_filter (Policy.rules_without ▸ hr))
        (List.mem_cons_of_mem _ hid))
    refine ⟨x, ?_⟩
    rw [List.foldlM_cons, hfirst]
    exact hx

/-- The collections are restored one by one. -/
theorem restoreModes_eq {v : Policy} {ts : List RuleType} (hts : ts.Nodup)
    (h : ∀ t ∈ ts, ∀ q : Policy, q t = p t → restoreMode j a q t = .ok (q.set t (v t))) :
    ts.foldlM (restoreMode j a) p = .ok (fun u => if u ∈ ts then v u else p u) := by
  induction ts generalizing p with
  | nil => simp [pure, Except.pure]
  | cons t ts ih =>
    rw [List.nodup_cons] at hts
    have hrest : ∀ u ∈ ts, ∀ q : Policy, q u = (p.set t (v t)) u →
        restoreMode j a q u = .ok (q.set u (v u)) := by
      intro u hu q hq
      refine h u (List.mem_cons_of_mem _ hu) q (hq.trans (Policy.set_ne ?_))
      rintro rfl
      exact hts.1 hu
    rw [List.foldlM_cons, h t List.mem_cons_self p rfl]
    refine (ih hts.2 hrest).trans ?_
    congr 1
    funext u
    by_cases hu : u = t
    · subst hu
      simp [hts.1]
    · simp [hu, Policy.set_ne hu]

theorem restoredMode_eq {c : Option Collection} :
    restoredMode (c.map (·.mode)) ⟨.enabled, (c.map (·.rules)).getD []⟩ = c := by
  cases c with
  | none => rfl
  | some c => rfl

/-- If the journal names and knows what lies on top, taking it out restores the original policy. -/
theorem removeOwnedRules_overlay (hB : B.own = []) (hnodup : (overlay B added).own.Nodup)
    (hids : Drawn j.named) (hnamed : ∀ t, ∀ r ∈ added t, r.id ∈ j.named)
    (hknown : ∀ t, ∀ r ∈ added t, j.ruleXml r.id = some r)
    (hmodes : ∀ t, added t ≠ [] → j.modes t = some ((B t).map (·.mode))) :
    removeOwnedRules (overlay B added) j = .ok B := by
  have hforeign : ∀ t, ∀ r ∈ B.rules t, r.id ∉ j.named := by
    intro t r hr hid
    obtain ⟨n, hn⟩ := hids r.id hid
    have hown := isOwn_eq_false hB hr
    rw [Rule.isOwn_iff.2 ⟨n, hn⟩] at hown
    cases hown
  obtain ⟨⟨q, b⟩, hfold⟩ := removeRules_progress (a := []) hnodup hids fun t r hr hid => by
    rw [rules_overlay, List.mem_append] at hr
    rcases hr with hr | hr
    · exact absurd hid (hforeign t r hr)
    · exact hknown t r hr
  obtain ⟨rfl, hb⟩ := removeRules_spec hnodup hids hfold
  have haffected : ∀ t, t ∈ b ↔ added t ≠ [] := by
    intro t
    rw [hb, rules_overlay]
    constructor
    · rintro (h | ⟨r, hr, hid⟩)
      · cases h
      · rcases List.mem_append.1 hr with hr | hr
        · exact absurd hid (hforeign t r hr)
        · exact List.ne_nil_of_mem hr
    · intro hne
      obtain ⟨r, hr⟩ := List.exists_mem_of_ne_nil _ hne
      exact .inr ⟨r, List.mem_append_right _ hr, hnamed t r hr⟩
  have hleft : ∀ t, (overlay B added).without j.named t = if added t = [] then B t
      else some ⟨.enabled, B.rules t⟩ := by
    intro t
    have hkept : ((B.rules t).filter fun r => r.id ∉ j.named) = B.rules t := by
      rw [List.filter_eq_self]
      intro r hr
      simpa using hforeign t r hr
    have hgone : ((added t).filter fun r => r.id ∉ j.named) = [] := by
      rw [List.filter_eq_nil_iff]
      intro r hr
      simpa using hnamed t r hr
    unfold Policy.without overlay
    split
    · cases hc : B t with
      | none => rfl
      | some c =>
        rw [Policy.rules_eq hc] at hkept
        rw [Option.map_some, hkept]
    · rw [Option.map_some, List.filter_append, hkept, hgone, List.append_nil]
  have hrestore :=
    restoreModes_eq (p := (overlay B added).without j.named) (v := B) (j := j) (a := b) RuleType.nodup_all
    fun t _ q hq => by
      rw [hleft] at hq
      unfold restoreMode
      by_cases hempty : added t = []
      · -- nothing was added here
        rw [if_pos hempty] at hq
        have hself : q.set t (B t) = q := by
          funext u
          by_cases hu : u = t
          · subst hu
            rw [Policy.set_self, hq]
          · rw [Policy.set_ne hu]
        have hnot : t ∉ b := fun hmem => (haffected t).1 hmem hempty
        rw [hself]
        split
        · rfl
        · rw [if_pos hnot]
      · rw [if_neg hempty] at hq
        have hmem : ¬ t ∉ b := fun hnot => hnot ((haffected t).2 hempty)
        rw [hmodes t hempty, hq]
        dsimp only
        rw [if_neg hmem, if_pos rfl, Policy.rules, restoredMode_eq]
  rw [removeOwnedRules, hfold]
  refine hrestore.trans ?_
  congr 1
  funext u
  rw [if_pos u.mem_all]

end overlays

/-! ### What lies on top -/

/-- What a call spares while it runs, and then. -/
def Action.calls : Action → List Restriction
  | .apply verify probes c =>
    (if verify then [{ c with executables := c.executables ++ probes }] else []) ++ [c]
  | .remove => []

/-- The original policy with the rules of one of the calls, all of them named and known, or with none. -/
structure Layered (B : Policy) (calls : List Restriction) (added : RuleType → List Rule)
    (s : Station) : Prop where
  source : (∀ t, added t = []) ∨ inactive B = false ∧
    ∃ n, ∃ c ∈ calls, ∀ t, added t = addedRules n c t (B.rules t)
  policy : s.policy = overlay B added
  named : ∀ t, ∀ r ∈ added t, r.id ∈ s.current.named
  known : ∀ t, ∀ r ∈ added t, s.current.ruleXml r.id = some r
  modes : ∀ t, added t ≠ [] → s.current.modes t = some ((B t).map (·.mode))

section known

variable {a : Artifact} {f : Guid → Option Rule} {r : Rule} {l : List Rule} {n : ℕ}
  {c : Restriction} {p : Policy}

theorem find?_id (hnodup : (l.map (·.id)).Nodup) (hr : r ∈ l) : (l.find? fun x => x.id = r.id) = some r := by
  induction l with
  | nil => cases hr
  | cons x l ih =>
    rw [List.map_cons, List.nodup_cons] at hnodup
    rcases List.mem_cons.1 hr with rfl | hr
    · exact List.find?_cons_of_pos (by simp)
    · have hne : x.id ≠ r.id := fun heq => hnodup.1 (heq ▸ List.mem_map_of_mem hr)
      rw [List.find?_cons_of_neg (by simpa using hne), ih hnodup.2 hr]

theorem known_new (ha : addRestrictions n c p = .ok a) {t : RuleType} (hr : r ∈ a.rules t) :
    a.known f r.id = some r := by
  have hmem : r ∈ a.all := List.mem_flatMap.2 ⟨t, t.mem_all, hr⟩
  rw [Artifact.known, find?_id (nodup_ids_addRestrictions ha) hmem, Option.some_or]

theorem known_old {id : Guid} (h : id ∉ a.ids) : a.known f id = f id := by
  have hnone : (a.all.find? fun r => r.id = id) = none := by
    rw [List.find?_eq_none]
    intro r hr
    have hne : r.id ≠ id := by
      rintro rfl
      exact h (List.mem_map_of_mem hr)
    simpa using hne
  rw [Artifact.known, hnone, Option.none_or]

end known

namespace Layered

open Station

variable {B q : Policy} {calls : List Restriction} {added : RuleType → List Rule} {s s' s₁ : Station}
  {c : Restriction} {a : Artifact} {probes : List String} {act : Action} {writes : ℕ}

theorem restores (hB : B.own = []) (hs : s.Sound) (h : Layered B calls added s) :
    removeOwnedRules s.policy s.current = .ok B := by
  have hnodup := hs.nodup
  rw [h.policy] at hnodup ⊢
  exact removeOwnedRules_overlay hB hnodup hs.drawnNamed h.named h.known h.modes

/-- The policy stays, and the journal forgets nothing of what lies on top. -/
theorem congr (h : Layered B calls added s) (hpolicy : s'.policy = s.policy)
    (hnamed : ∀ t, ∀ r ∈ added t, r.id ∈ s'.current.named)
    (hknown : ∀ t, ∀ r ∈ added t, s'.current.ruleXml r.id = s.current.ruleXml r.id)
    (hmodes : ∀ t, added t ≠ [] → s'.current.modes t = some ((B t).map (·.mode))) :
    Layered B calls added s' :=
  ⟨h.source, hpolicy.trans h.policy, hnamed, fun t r hr => (hknown t r hr).trans (h.known t r hr), hmodes⟩

theorem mem_own (h : Layered B calls added s) (hs : s.Sound) {t : RuleType} {r : Rule} (hr : r ∈ added t) :
    r.id ∈ s.policy.own := by
  obtain ⟨k, -, hk⟩ := hs.named _ (h.named t r hr)
  refine Policy.mem_own.2 ⟨t, r, ?_, Rule.isOwn_iff.2 ⟨k, hk⟩, rfl⟩
  rw [h.policy, rules_overlay]
  exact List.mem_append_right _ hr

theorem not_mem_ids (h : Layered B calls added s) (hs : s.Sound) (ha : addRestrictions s.drawn c q = .ok a)
    {t : RuleType} {r : Rule} (hr : r ∈ added t) : r.id ∉ a.ids := by
  intro hmem
  obtain ⟨k, hk, hid⟩ := hs.named _ (h.named t r hr)
  obtain ⟨k', hk', -, hid'⟩ := mem_ids_addRestrictions ha hmem
  cases hid.symm.trans hid'
  omega

/-- New rules are announced; what the journal names as owned then covers the old ones. -/
theorem announce {owned : List Guid} (h : Layered B calls added s) (hs : s.Sound)
    (ha : addRestrictions s.drawn c B = .ok a) (howned : ∀ t, ∀ r ∈ added t, r.id ∈ owned) (phase : Phase) :
    Layered B calls added (s.announce owned phase a) := by
  refine h.congr rfl (fun t r hr => List.mem_append_left _ (howned t r hr)) (fun t r hr => ?_) (fun t _ => ?_)
  · exact known_old (h.not_mem_ids hs ha hr)
  · obtain ⟨-, rfl⟩ := addRestrictions_ok ha
    rfl

/-- Announced rules are written over the original policy. -/
theorem store {owned : List Guid} {n : ℕ} (hc : c ∈ calls) (ha : addRestrictions n c B = .ok a)
    (phase : Phase) (s : Station) :
    Layered B calls a.rules ((s.announce owned phase a).store a.policy) := by
  have hrules : a.rules = fun t => addedRules n c t (B.rules t) := by rw [(addRestrictions_ok ha).2]
  refine ⟨.inr ⟨(addRestrictions_ok ha).1, n, c, hc, fun t => by rw [hrules]⟩, ?_, fun t r hr => ?_,
    fun t r hr => known_new ha hr, fun t _ => ?_⟩
  · funext t
    have hne : a.rules t ≠ [] := by simp [hrules, addedRules]
    rw [overlay, if_neg hne]
    obtain ⟨-, rfl⟩ := addRestrictions_ok ha
    rfl
  · exact List.mem_append_right _ (List.mem_map_of_mem (List.mem_flatMap.2 ⟨t, t.mem_all, hr⟩))
  · obtain ⟨-, rfl⟩ := addRestrictions_ok ha
    rfl

theorem commit (h : Layered B calls a.rules s) {n : ℕ} (ha : addRestrictions n c B = .ok a) :
    Layered B calls a.rules (s.commit a) := by
  have hknown : ∀ t, ∀ r ∈ a.rules t, a.known (fun _ => none) r.id = some r := fun t r hr => known_new ha hr
  refine ⟨h.source, h.policy, fun t r hr => ?_, hknown, fun t _ => ?_⟩
  · exact List.mem_append_left _ (List.mem_map_of_mem (List.mem_flatMap.2 ⟨t, t.mem_all, hr⟩))
  · obtain ⟨-, rfl⟩ := addRestrictions_ok ha
    rfl

theorem finish (h : Layered B calls added s) (hs : s.Sound) (hc : c ∈ calls) (hmem : s' ∈ s.finish c B) :
    ∃ added, Layered B calls added s' := by
  rcases finish_cases s c B with heq | ⟨a, ha, heq⟩
  · rw [heq] at hmem
    cases hmem
  · rw [heq] at hmem
    simp only [List.mem_cons, List.not_mem_nil, or_false] at hmem
    rcases hmem with rfl | rfl | rfl
    · exact ⟨added, h.announce hs ha h.named .verifying⟩
    · exact ⟨_, store hc ha .verifying s⟩
    · exact ⟨_, (store hc ha .verifying s).commit ha⟩

theorem cleared (s : Station) (h : s.policy = B) : Layered B calls (fun _ => []) s := by
  refine ⟨.inl fun _ => rfl, ?_, fun t r hr => ?_, fun t r hr => ?_, fun t hne => absurd rfl hne⟩
  · rw [h]
    funext t
    rw [overlay, if_pos rfl]
  · cases hr
  · cases hr

/-- What was announced is written, and the second half follows. -/
theorem probe (hB : B.own = []) (h : Layered B calls added s) (hs : s.Sound)
    (hprobe : { c with executables := c.executables ++ probes } ∈ calls) (hc : c ∈ calls)
    (ha : addRestrictions s.drawn { c with executables := c.executables ++ probes } B = .ok a)
    {rest : List Station} (hrest : rest = [] ∨ ∃ q', removeOwnedRules a.policy (a.journal .applying) = .ok
      q' ∧ rest = ((s.announce s.current.owned .applying a).store a.policy).finish c q')
    (hmem : s' = (s.announce s.current.owned .applying a).store a.policy ∨ s' ∈ rest) :
    ∃ added, Layered B calls added s' := by
  have hannounced := (Stage.refl s).announce (fun _ hid => List.mem_append_left _ hid) ha .applying
  have hstored := hannounced.store (hs.cleaned (h.restores hB hs)) (Nat.le_refl _) (Nat.le_refl _) ha
  have hlayered : Layered B calls a.rules ((s.announce s.current.owned .applying a).store a.policy) :=
    store hprobe ha .applying s
  rcases hmem with rfl | hmem
  · exact ⟨_, hlayered⟩
  rcases hrest with rfl | ⟨q', hq', rfl⟩
  · cases hmem
  · have hcommit := hstored.withJournal (j := a.journal .applied) fun id hid => by
      rw [Journal.named, Artifact.journal, List.append_nil] at hid
      exact List.mem_append_right _ hid
    have hq : removeOwnedRules a.policy (a.journal .applying) = .ok B :=
      (hlayered.commit ha).restores hB (hcommit.sound hs)
    cases hq'.symm.trans hq
    exact hlayered.finish (hstored.sound hs) hc hmem

theorem removePolicy (hB : B.own = []) (h : Layered B calls added s) (hs : s.Sound)
    (hmem : s' ∈ s.removePolicy) : ∃ added, Layered B calls added s' := by
  rcases removePolicy_cases s with heq | ⟨j, q, rest, hj, hq, heq, hrest⟩
  · rw [heq] at hmem
    cases hmem
  have hcurrent : s.current = j := by rw [current, hj, Option.getD_some]
  have hq' := h.restores hB hs
  rw [hcurrent, hq] at hq'
  cases hq'
  rw [heq] at hmem
  rcases List.mem_cons.1 hmem with rfl | hmem
  · refine ⟨added, h.congr rfl ?_ ?_ ?_⟩
    · rw [← hcurrent]
      exact h.named
    · rw [← hcurrent]
      exact fun _ _ _ => rfl
    · rw [← hcurrent]
      exact h.modes
  rcases List.mem_cons.1 hmem with rfl | hmem
  · exact ⟨_, cleared _ rfl⟩
  rcases hrest with rfl | rfl
  · cases hmem
  · rw [List.mem_singleton.1 hmem]
    exact ⟨_, cleared _ rfl⟩

end Layered

namespace Station

/-- A verifying call stops before its first write of the policy, where rules of an
interrupted one are pending. -/
def Overtakes (s : Station) (act : Action) (writes : ℕ) : Prop :=
  match act with
  | .apply true _ _ => writes = 2 ∧ ∃ id ∈ s.policy.own, id ∉ s.current.owned
  | _ => False

/-- No call of the run overtakes another. -/
def Spares : Station → List (Action × ℕ) → Prop
  | _, [] => True
  | s, x :: acts => ¬ s.Overtakes x.1 x.2 ∧ Spares (s.interrupted x.1 x.2) acts

theorem getLastD_take_cons (x d : Station) (l : List Station) (n : ℕ) :
    ((x :: l).take (n + 1)).getLastD d = (l.take n).getLastD x := by
  rw [List.take_succ_cons, List.getLastD_cons]

theorem getLastD_take (d : Station) (l : List Station) (n : ℕ) : (l.take n).getLastD d = d ∨
    (l.take n).getLastD d ∈ l := by
  rw [List.getLastD_eq_getLast?]
  cases hlast : (l.take n).getLast? with
  | none => exact .inl rfl
  | some s => exact .inr (List.mem_of_mem_take (List.mem_of_getLast? hlast))

end Station

namespace Layered

open Station

variable {B : Policy} {calls : List Restriction} {added : RuleType → List Rule} {s : Station}
  {act : Action} {writes : ℕ}

theorem interrupted (hB : B.own = []) (h : Layered B calls added s) (hs : s.Sound)
    (hspare : ¬ s.Overtakes act writes) (hcalls : ∀ c ∈ act.calls, c ∈ calls) :
    ∃ added, Layered B calls added (s.interrupted act writes) := by
  cases act with
  | remove =>
    rcases interrupted_eq s .remove writes with heq | hmem
    · rw [heq]
      exact ⟨added, h⟩
    · exact h.removePolicy hB hs hmem
  | apply verify probes c =>
    have hc : c ∈ calls := hcalls c (List.mem_append_right _ (List.mem_singleton.2 rfl))
    have hbegun : Layered B calls added (s.withJournal s.current) :=
      h.congr rfl h.named (fun _ _ _ => rfl) h.modes
    have hsound : (s.withJournal s.current).Sound := ⟨hs.nodup, hs.fresh, hs.named⟩
    show ∃ added, Layered B calls added (((s.applyPolicy verify probes c).take writes).getLastD s)
    rcases applyPolicy_cases s verify probes c with heq | ⟨q, hq, heq⟩
    · rw [heq]
      rcases getLastD_take s [s.withJournal s.current] writes with heq | hmem
      · rw [heq]
        exact ⟨added, h⟩
      · rw [List.mem_singleton.1 hmem]
        exact ⟨added, hbegun⟩
    cases hq.symm.trans (h.restores hB hs)
    rw [heq]
    cases writes with
    | zero => exact ⟨added, h⟩
    | succ n =>
      rw [getLastD_take_cons]
      cases verify with
      | false =>
        rw [if_neg Bool.false_ne_true]
        rcases getLastD_take (s.withJournal s.current)
          ((s.withJournal s.current).finish c B) n with heq | hmem
        · rw [heq]
          exact ⟨added, hbegun⟩
        · exact hbegun.finish hsound hc hmem
      | true =>
        have hprobe : { c with executables := c.executables ++ probes } ∈ calls :=
          hcalls _ (List.mem_append_left _ (List.mem_singleton.2 rfl))
        rw [if_pos rfl]
        rcases probe_cases (s.withJournal s.current) probes c B with heq | ⟨a, rest, ha, heq, hrest⟩
        · rw [heq, List.take_nil]
          exact ⟨added, hbegun⟩
        rw [heq]
        cases n with
        | zero => exact ⟨added, hbegun⟩
        | succ n =>
          rw [getLastD_take_cons]
          cases n with
          | zero =>
            -- stopped before the first write of the policy: nothing on top may be pending
            refine ⟨added, hbegun.announce hsound ha (fun t r hr => ?_) .applying⟩
            by_contra hnot
            exact hspare ⟨rfl, r.id, h.mem_own hs hr, hnot⟩
          | succ n =>
            rw [getLastD_take_cons]
            exact hbegun.probe hB hsound hprobe hc ha hrest (getLastD_take _ rest n)

theorem carryOut {acts : List (Action × ℕ)} (hB : B.own = []) (h : Layered B calls added s) (hs : s.Sound)
    (hspare : s.Spares acts) (hcalls : ∀ x ∈ acts, ∀ c ∈ x.1.calls, c ∈ calls) :
    ∃ added, Layered B calls added (s.carryOut acts) := by
  induction acts generalizing s added with
  | nil => exact ⟨added, h⟩
  | cons x acts ih =>
    obtain ⟨added', h'⟩ := h.interrupted hB hs hspare.1 (hcalls x List.mem_cons_self)
    exact ih h' ((interrupted_stage hs x.1 x.2).sound hs) hspare.2
      (fun y hy => hcalls y (List.mem_cons_of_mem _ hy))

theorem carried {acts : List (Action × ℕ)} (hB : B.own = []) (hspare : (untouched B).Spares acts) :
    ∃ added, Layered B (acts.flatMap fun x => x.1.calls) added ((untouched B).carryOut acts) :=
  (cleared (untouched B) rfl).carryOut hB (Sound.untouched hB) hspare fun x hx _ hc =>
    List.mem_flatMap.2 ⟨x, hx, hc⟩

end Layered

/-! ### Restoring the policy -/

open Station

theorem find_eq_none_of_drawn {p : Policy} {ids : List Guid} (hp : p.own = []) (hids : Drawn ids) :
    (ids.any fun id => (p.find id).isSome) = false := by
  rw [List.any_eq_false]
  intro id hid hsome
  obtain ⟨n, rfl⟩ := hids id hid
  have hnone : p.find (.drawn n) = none := by
    rw [Policy.find_eq_none]
    intro t r hr heq
    have hown := isOwn_eq_false hp hr
    rw [Rule.isOwn_iff.2 ⟨n, heq⟩] at hown
    cases hown
  rw [hnone] at hsome
  cases hsome

/-- Unless a verifying call has overtaken an interrupted one, a removal restores the policy that the client
has found, and leaves nothing to undo. -/
theorem policy_restored (B : Policy) (hB : B.own = []) (acts : List (Action × ℕ))
    (hspare : (untouched B).Spares acts) : (((untouched B).carryOut acts).interrupted .remove 3).policy = B ∧
      (((untouched B).carryOut acts).interrupted .remove 3).current.named = [] := by
  have hs := (carryOut_stage (Sound.untouched hB) acts).1
  obtain ⟨added, h⟩ := Layered.carried hB hspare
  generalize (untouched B).carryOut acts = s at *
  unfold interrupted transaction
  dsimp only
  cases hj : s.journal with
  | none =>
    have hcurrent : s.current = .prepared := by rw [current, hj, Option.getD_none]
    have hnil : s.removePolicy = [] := by simp [removePolicy, hj]
    rw [hnil]
    refine ⟨?_, by rw [List.take_nil, List.getLastD_nil, hcurrent]; rfl⟩
    rw [List.take_nil, List.getLastD_nil, h.policy]
    funext t
    have hempty : added t = [] := by
      refine List.eq_nil_iff_forall_not_mem.2 fun r hr => ?_
      have hnamed := h.named t r hr
      rw [hcurrent] at hnamed
      cases hnamed
    rw [overlay, if_pos hempty]
  | some j =>
    have hcurrent : s.current = j := by rw [current, hj, Option.getD_some]
    have hrestores := h.restores hB hs
    have hdrawn := hs.drawnNamed
    rw [hcurrent] at hrestores hdrawn
    have hnone := find_eq_none_of_drawn hB hdrawn
    have heq : s.removePolicy = [s.withJournal { j with phase := .restoring },
        (s.withJournal { j with phase := .restoring }).store B,
        ((s.withJournal { j with phase := .restoring }).store B).withJournal
          { Journal.prepared with phase := .removed }] := by
      simp [removePolicy, hj, hrestores, hnone]
    rw [heq]
    exact ⟨rfl, rfl⟩

/-! ### What a policy permits -/

/-- The evaluation of a policy, which Windows does: whether a path condition holds of a file, whether a rule
applies to someone with these SIDs who starts it, and whether he may. -/
structure Evaluation where
  holds : String → String → Bool
  covers : Rule → List String → String → Bool
  permits : Policy → RuleType → List String → String → Bool

/-- What is documented of the evaluation: a rule for every path applies to those it is for, but for its
exceptions; a collection without rules restricts nothing; in an enforced one a denial wins, and without an
allowance nothing starts. -/
structure Evaluation.Documented (w : Evaluation) : Prop where
  covers_all : ∀ id sid e exceptions sids path, w.covers ⟨id, sid, e, .all exceptions⟩ sids path = true ↔
    sid ∈ sids ∧ ∀ x ∈ exceptions, w.holds x path = false
  unrestricted : ∀ p t sids path, p.rules t = [] → w.permits p t sids path = true
  enforced : ∀ p t sids path rules, p t = some ⟨.enabled, rules⟩ → rules ≠ [] →
    (w.permits p t sids path = true ↔ (∃ r ∈ rules, r.action = .allow ∧ w.covers r sids path = true) ∧
      ∀ r ∈ rules, r.action = .deny → w.covers r sids path = false)

section permits

variable {w : Evaluation} {p : Policy} {sids : List String} {t : RuleType} {path : String} {n : ℕ}
  {c : Restriction} {r : Rule} {rules : List Rule}

theorem mem_addedRules {present : List Rule} :
    r ∈ addedRules n c t present ↔
      present = [] ∧ r = ⟨.drawn (n + 3 * t.index), everyone, .allow, .all []⟩ ∨
        r = ⟨.drawn (n + 3 * t.index + 1), c.sid, .deny, .all (c.exceptions t)⟩ ∨
          c.exceptions t ≠ [] ∧ r = ⟨.drawn (n + 3 * t.index + 2), c.sid, .allow, .all []⟩ := by
  unfold addedRules
  split <;> split <;> simp_all

/-- The player may start what is spared, unless others deny it. -/
theorem permits_player (hw : w.Documented) (h : p t = some ⟨.enabled, rules ++ addedRules n c t rules⟩)
    (hsid : c.sid ∈ sids) : w.permits p t sids path = true ↔
      (∃ x ∈ c.exceptions t, w.holds x path = true) ∧ ∀ r ∈ rules, r.action = .deny →
      w.covers r sids path = false := by
  have hne : rules ++ addedRules n c t rules ≠ [] := by simp [addedRules]
  rw [hw.enforced p t sids path _ h hne]
  constructor
  · rintro ⟨-, hdeny⟩
    refine ⟨?_, fun r hr => hdeny r (List.mem_append_left _ hr)⟩
    by_contra hpath
    have hcovers := hdeny _ (List.mem_append_right _ (mem_addedRules.2 (.inr (.inl rfl)))) rfl
    have hall : ∀ x ∈ c.exceptions t, w.holds x path = false := by
      intro x hx
      by_contra hholds
      exact hpath ⟨x, hx, by simpa using hholds⟩
    rw [(hw.covers_all ..).2 ⟨hsid, hall⟩] at hcovers
    cases hcovers
  · rintro ⟨⟨x, hx, hholds⟩, hdeny⟩
    refine ⟨⟨_, List.mem_append_right _ (mem_addedRules.2 (.inr (.inr ⟨List.ne_nil_of_mem hx, rfl⟩))),
      rfl, ?_⟩, ?_⟩
    · exact (hw.covers_all ..).2 ⟨hsid, fun x hx => absurd hx List.not_mem_nil⟩
    · intro r hr haction
      rcases List.mem_append.1 hr with hr | hr
      · exact hdeny r hr haction
      · rcases mem_addedRules.1 hr with ⟨-, rfl⟩ | rfl | ⟨-, rfl⟩
        · cases haction
        · rw [Bool.eq_false_iff, Ne, hw.covers_all]
          intro hcovers
          rw [hcovers.2 x hx] at hholds
          cases hholds
        · cases haction

/-- Where the client adds its rules, every collection with rules is enforced. -/
theorem enabled_of_active {B : Policy} (hactive : inactive B = false) (hrules : B.rules t ≠ []) :
    B t = some ⟨.enabled, B.rules t⟩ := by
  cases hc : B t with
  | none => exact absurd (Policy.rules_none hc) hrules
  | some c =>
    rw [Policy.rules_eq hc] at hrules ⊢
    have hmode : c.mode = .enabled := by
      by_contra hmode
      have hfound := List.any_eq_false.1 hactive t t.mem_all
      rw [hc, Option.any_some] at hfound
      exact hfound (by simpa using ⟨hmode, hrules⟩)
    rw [← hmode]

/-- Of the added rules only the one for everyone applies to others. -/
theorem covers_added (hw : w.Documented) (hsid : c.sid ∉ sids) {present : List Rule}
    (hr : r ∈ addedRules n c t present) :
    present = [] ∧ r.action = .allow ∨ w.covers r sids path = false := by
  have hforeign : ∀ id e exceptions, w.covers ⟨id, c.sid, e, .all exceptions⟩ sids path = false := by
    intro id e exceptions
    rw [Bool.eq_false_iff, Ne, hw.covers_all]
    exact fun hcovers => hsid hcovers.1
  rcases mem_addedRules.1 hr with ⟨hnil, rfl⟩ | rfl | ⟨-, rfl⟩
  · exact .inl ⟨hnil, rfl⟩
  · exact .inr (hforeign _ _ _)
  · exact .inr (hforeign _ _ _)

/-- Nothing changes for others. -/
theorem permits_others (hw : w.Documented) {B : Policy} (hactive : inactive B = false)
    (h : p t = some ⟨.enabled, B.rules t ++ addedRules n c t (B.rules t)⟩) (hsid : c.sid ∉ sids)
    (heveryone : everyone ∈ sids) : w.permits p t sids path = w.permits B t sids path := by
  have hne : B.rules t ++ addedRules n c t (B.rules t) ≠ [] := by simp [addedRules]
  rw [Bool.eq_iff_iff, hw.enforced p t sids path _ h hne]
  by_cases hempty : B.rules t = []
  · simp only [hw.unrestricted B t sids path hempty, iff_true]
    refine ⟨⟨_, List.mem_append_right _ (mem_addedRules.2 (.inl ⟨hempty, rfl⟩)), rfl, ?_⟩, ?_⟩
    · exact (hw.covers_all ..).2 ⟨heveryone, fun x hx => absurd hx List.not_mem_nil⟩
    · intro r hr haction
      rw [hempty, List.nil_append] at hr
      refine (covers_added hw hsid hr).resolve_left ?_
      rintro ⟨-, hallow⟩
      rw [hallow] at haction
      cases haction
  · rw [hw.enforced B t sids path _ (enabled_of_active hactive hempty) hempty]
    have hadded : ∀ r ∈ addedRules n c t (B.rules t), w.covers r sids path = false := fun r hr =>
      (covers_added hw hsid hr).resolve_left fun hnil => hempty hnil.1
    constructor
    · rintro ⟨⟨r, hr, haction, hcovers⟩, hdeny⟩
      refine ⟨⟨r, ?_, haction, hcovers⟩, fun r hr => hdeny r (List.mem_append_left _ hr)⟩
      rcases List.mem_append.1 hr with hr | hr
      · exact hr
      · rw [hadded r hr] at hcovers
        cases hcovers
    · rintro ⟨⟨r, hr, hallow⟩, hdeny⟩
      refine ⟨⟨r, List.mem_append_left _ hr, hallow⟩, fun r hr haction => ?_⟩
      rcases List.mem_append.1 hr with hr | hr
      · exact hdeny r hr haction
      · exact hadded r hr

end permits

namespace Booth

def upgrade : List (Action × ℕ) :=
  [(.apply true ["C:\\probe.exe"] games, 6), (.apply true ["C:\\probe.exe"] games, 5)]

theorem spares_upgrade : (untouched original).Spares upgrade :=
  ⟨fun h => absurd h.1 (by decide), fun h => absurd h.1 (by decide), trivial⟩

theorem policy_restored_upgrade :
    (((untouched original).carryOut upgrade).interrupted .remove 3).policy = original ∧
      (((untouched original).carryOut upgrade).interrupted .remove 3).current.named = [] :=
  policy_restored original (by decide) upgrade spares_upgrade

def covers (r : Rule) (sids : List String) (path : String) : Bool :=
  sids.contains r.sid && match r.condition with
    | .all exceptions => exceptions.all fun x => x.toLower ≠ path.toLower
    | .other _ => false

/-- An evaluation of policies such as these, in which every rule is for all paths
but some; case is ignored. -/
def evaluation : Evaluation where
  holds condition path := condition.toLower = path.toLower
  covers := covers
  permits p t sids path := match p t with
    | none => true
    | some c => c.rules.isEmpty || c.mode == .auditOnly ||
      (c.rules.any fun r => r.action == .allow && covers r sids path) &&
        c.rules.all fun r => !(r.action == .deny && covers r sids path)

theorem evaluation_documented : evaluation.Documented where
  covers_all id sid e exceptions sids path := by
    simp [evaluation, covers]
  unrestricted p t sids path hrules := by
    cases hp : p t with
    | none => simp [evaluation, hp]
    | some c =>
      rw [Policy.rules_eq hp] at hrules
      simp [evaluation, hp, hrules]
  enforced p t sids path rules hp hne := by
    have hempty : rules.isEmpty = false := by simpa using hne
    have hmode : (Mode.enabled == .auditOnly) = false := rfl
    simp only [evaluation, hp, hempty, hmode, Bool.false_or, Bool.and_eq_true,
      List.any_eq_true, List.all_eq_true]
    refine and_congr ?_ ?_
    · simp
    · simp [imp_iff_not_or]

end Booth

end GManager.AppLocker
