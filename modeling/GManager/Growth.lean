import GManager.Table

/-!
# Tables that only grow

`t.Grows R N t'` says that `t'` has the rows of `t`, in their order, each rewritten along `R`,
and after them new rows in `N`. It composes along the writes of a transaction; what `R` keeps
of a row is kept by the table.
-/

namespace GManager.Table

variable {κ ρ : Type} {key : ρ → κ} {R R' : ρ → ρ → Prop} {N N' : ρ → Prop} {t t' t'' : Table key}

/-- The rows of `t`, rewritten along `R`, and new rows in `N`. -/
def Grows (R : ρ → ρ → Prop) (N : ρ → Prop) (t t' : Table key) : Prop :=
  ∃ f news, t'.rows = t.rows.map f ++ news ∧ (∀ r ∈ t, R r (f r)) ∧ ∀ n ∈ news, N n

theorem Grows.refl (hR : ∀ r, R r r) (t : Table key) : t.Grows R N t :=
  ⟨id, [], by simp, fun r _ => hR r, fun _ h => by cases h⟩

theorem Grows.edit {f : ρ → ρ} (hf : ∀ r, key (f r) = key r) (h : ∀ r ∈ t, R r (f r)) :
    t.Grows R N (t.edit f hf) :=
  ⟨f, [], (List.append_nil _).symm, h, fun _ h => by cases h⟩

theorem Grows.save [DecidableEq κ] {x : ρ} (hR : ∀ r, R r r) (h : ∀ r ∈ t, key r = key x → R r x) :
    t.Grows R N (t.save x) := by
  refine .edit _ fun r hr => ?_
  split
  · exact h r hr ‹_›
  · exact hR r

/-- A write over one row. -/
theorem Grows.saved [DecidableEq κ] {x r : ρ} (hr : r ∈ t) (hk : key x = key r) :
    t.Grows (fun a b => (a = r ∧ b = x) ∨ (key a ≠ key r ∧ b = a)) N (t.save x) := by
  refine .edit _ fun a ha => ?_
  by_cases h : key a = key x
  · rw [if_pos h]
    exact .inl ⟨eq_of_key ha hr (h.trans hk), rfl⟩
  · rw [if_neg h]
    exact .inr ⟨fun h' => h (h'.trans hk.symm), rfl⟩

theorem Grows.insert [DecidableEq κ] {x : ρ} (hR : ∀ r, R r r) (h : t.insert x = some t') (hN : N x) :
    t.Grows R N t' := by
  refine ⟨id, [x], ?_, fun r _ => hR r, fun n hn => ?_⟩
  · rw [(insert_eq_some.1 h).2, List.map_id]
  · rw [List.mem_singleton.1 hn]
    exact hN

theorem Grows.mono (h : t.Grows R N t') (hR : ∀ r r', R r r' → R' r r') (hN : ∀ n, N n → N' n) :
    t.Grows R' N' t' := by
  obtain ⟨f, news, hrows, hf, hnews⟩ := h
  exact ⟨f, news, hrows, fun r hr => hR _ _ (hf r hr), fun n hn => hN n (hnews n hn)⟩

theorem Grows.mem (h : t.Grows R N t') {r' : ρ} (hr : r' ∈ t') : (∃ r ∈ t, R r r') ∨ N r' := by
  obtain ⟨f, news, hrows, hf, hnews⟩ := h
  rw [← mem_rows, hrows, List.mem_append] at hr
  rcases hr with hr | hr
  · obtain ⟨r, hmem, rfl⟩ := List.mem_map.1 hr
    exact .inl ⟨r, hmem, hf r hmem⟩
  · exact .inr (hnews r' hr)

theorem Grows.kept (h : t.Grows R N t') {r : ρ} (hr : r ∈ t) : ∃ r' ∈ t', R r r' := by
  obtain ⟨f, news, hrows, hf, -⟩ := h
  refine ⟨f r, ?_, hf r hr⟩
  rw [← mem_rows, hrows]
  exact List.mem_append_left _ (List.mem_map_of_mem hr)

theorem Grows.trans (h : t.Grows R N t') (h' : t'.Grows R N t'') (hR : ∀ a b c, R a b → R b c → R a c)
    (hN : ∀ n n', N n → R n n' → N n') : t.Grows R N t'' := by
  obtain ⟨f, news, hrows, hf, hnews⟩ := h
  obtain ⟨g, news', hrows', hg, hnews'⟩ := h'
  have hmem : ∀ r ∈ t, f r ∈ t' := by
    intro r hr
    rw [← mem_rows, hrows]
    exact List.mem_append_left _ (List.mem_map_of_mem hr)
  have hmem' : ∀ n ∈ news, n ∈ t' := by
    intro n hn
    rw [← mem_rows, hrows]
    exact List.mem_append_right _ hn
  refine ⟨g ∘ f, news.map g ++ news', ?_, fun r hr => hR _ _ _ (hf r hr) (hg _ (hmem r hr)), fun n hn => ?_⟩
  · rw [hrows', hrows, List.map_append, List.map_map, List.append_assoc]
  · rcases List.mem_append.1 hn with hn | hn
    · obtain ⟨m, hm, rfl⟩ := List.mem_map.1 hn
      exact hN m _ (hnews m hm) (hg m (hmem' m hm))
    · exact hnews' n hn

/-- Two rewritings without new rows, one after the other. -/
theorem Grows.comp (h : t.Grows R (fun _ => False) t') (h' : t'.Grows R' (fun _ => False) t'') :
    t.Grows (fun a c => ∃ b ∈ t', R a b ∧ R' b c) (fun _ => False) t'' := by
  obtain ⟨f, news, hrows, hf, hnews⟩ := h
  obtain ⟨g, news', hrows', hg, hnews'⟩ := h'
  obtain rfl : news = [] := List.eq_nil_iff_forall_not_mem.2 hnews
  obtain rfl : news' = [] := List.eq_nil_iff_forall_not_mem.2 hnews'
  have hmem : ∀ r ∈ t, f r ∈ t' := by
    intro r hr
    rw [← mem_rows, hrows, List.append_nil]
    exact List.mem_map_of_mem hr
  refine ⟨g ∘ f, [], ?_, fun r hr => ⟨f r, hmem r hr, hf r hr, hg _ (hmem r hr)⟩, fun _ hn => by cases hn⟩
  simp [hrows', hrows]

/-- What no rewriting makes true holds of fewer rows afterwards, of fewer by one where it became false. -/
theorem Grows.countP_lt {p : ρ → Bool} (h : t.Grows R (fun _ => False) t')
    (hp : ∀ r ∈ t, ∀ r', R r r' → p r' → p r) {r : ρ} (hr : r ∈ t) (hpr : p r)
    (hfalse : ∀ r', R r r' → p r' = false) : t'.rows.countP p < t.rows.countP p := by
  obtain ⟨f, news, hrows, hf, hnews⟩ := h
  obtain rfl : news = [] := List.eq_nil_iff_forall_not_mem.2 hnews
  rw [hrows, List.append_nil, List.countP_map]
  have hlt : ∀ rows : List ρ, (∀ x ∈ rows, x ∈ t) → r ∈ rows → rows.countP (p ∘ f) < rows.countP p := by
    intro rows
    induction rows with
    | nil => exact fun _ h => by cases h
    | cons x rows ih =>
      intro hsub hmem
      have hle : rows.countP (p ∘ f) ≤ rows.countP p :=
        List.countP_mono_left fun y hy hpy =>
          hp y (hsub y (List.mem_cons_of_mem _ hy)) (f y) (hf y (hsub y (List.mem_cons_of_mem _ hy))) hpy
      have hx := hsub x List.mem_cons_self
      rw [List.countP_cons, List.countP_cons]
      rcases List.mem_cons.1 hmem with rfl | hmem
      · have : (p ∘ f) r = false := hfalse _ (hf r hx)
        simp only [this, hpr, if_true]
        simp
        omega
      · have hlt := ih (fun y hy => hsub y (List.mem_cons_of_mem _ hy)) hmem
        by_cases hpf : (p ∘ f) x = true
        · have hpx := hp x hx (f x) (hf x hx) hpf
          simp only [hpf, hpx, if_true]
          omega
        · simp only [hpf]
          simp
          omega
  exact hlt t.rows (fun _ h => h) hr

theorem Grows.countP_le {p : ρ → Bool} (h : t.Grows R (fun _ => False) t')
    (hp : ∀ r ∈ t, ∀ r', R r r' → p r' → p r) : t'.rows.countP p ≤ t.rows.countP p := by
  obtain ⟨f, news, hrows, hf, hnews⟩ := h
  obtain rfl : news = [] := List.eq_nil_iff_forall_not_mem.2 hnews
  rw [hrows, List.append_nil, List.countP_map]
  exact List.countP_mono_left fun y hy hpy => hp y hy (f y) (hf y hy) hpy

end GManager.Table
