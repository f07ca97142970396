import GManager.Table

/-!
# Optimistic locks

Rows carry a version. A reader keeps a copy of a row and writes it back later, changed: `flush` refuses the
write if the row has another version by then, and raises the version if the write changes anything. So a
write that goes through is one over the row that was read.
-/

namespace GManager.Table

variable {κ ρ : Type} {key : ρ → κ} {version : ρ → ℕ} {raise : ρ → ρ} {t t' : Table key} {v v' r x : ρ}

/-- Writes `v'` over the row that was read as `v`. -/
def flush [DecidableEq κ] [DecidableEq ρ] (version : ρ → ℕ) (raise : ρ → ρ) (t : Table key) (v v' : ρ) :
    Option (Table key) :=
  match t.find? (key v) with
  | some r => if version r = version v then some (if v' = v then t else t.save (raise v')) else none
  | none => none

/-- `v` was read from the table: the row has a later version now, or is `v` still. -/
def Copy (version : ρ → ℕ) (t : Table key) (v : ρ) : Prop :=
  ∀ r ∈ t, key r = key v → version v ≤ version r ∧ (version r = version v → r = v)

theorem Copy.of_mem (h : v ∈ t) : Copy version t v := fun r hr hk => by
  obtain rfl := eq_of_key hr h hk
  exact ⟨Nat.le_refl _, fun _ => rfl⟩

theorem Copy.save [DecidableEq κ] (h : Copy version t v) (hr : r ∈ t) (hk : key x = key r)
    (hlt : version r < version x) : Copy version (t.save x) v := by
  intro y hy hkey
  rcases (mem_save_of_mem hr hk).1 hy with rfl | ⟨hy, -⟩
  · have hle := (h r hr (hk.symm.trans hkey)).1
    exact ⟨by omega, fun heq => by omega⟩
  · exact h y hy hkey

theorem Copy.edit {f : ρ → ρ} (hf : ∀ r, key (f r) = key r) (h : Copy version t v)
    (hlt : ∀ r ∈ t, f r = r ∨ version r < version (f r)) : Copy version (t.edit f hf) v := by
  intro y hy hkey
  obtain ⟨r, hr, rfl⟩ := mem_edit.1 hy
  rcases hlt r hr with heq | hlt
  · rw [heq] at hkey ⊢
    exact h r hr hkey
  · have hle := (h r hr ((hf r).symm.trans hkey)).1
    exact ⟨by omega, fun heq => by omega⟩

/-- What is read of an old row is no copy of a new one. -/
theorem Copy.insert [DecidableEq κ] (h : Copy version t v) (hv : ∃ r ∈ t, key r = key v)
    (ht : t.insert x = some t') : Copy version t' v := by
  intro y hy hkey
  rcases (mem_insert ht).1 hy with hy | rfl
  · exact h y hy hkey
  · obtain ⟨r, hr, hrk⟩ := hv
    exact absurd (hrk.trans hkey.symm) ((insert_eq_some.1 ht).1 r hr)

/-- A write goes through over the row that was read. -/
theorem flush_eq_some [DecidableEq κ] [DecidableEq ρ] (h : flush version raise t v v' = some t')
    (hc : Copy version t v) : v ∈ t ∧ (t' = t ∧ v' = v ∨ t' = t.save (raise v')) := by
  unfold flush at h
  split at h
  swap
  · cases h
  rename_i r hr
  obtain ⟨hmem, hkey⟩ := find?_eq_some.1 hr
  split at h
  swap
  · cases h
  rename_i hversion
  obtain rfl := (hc r hmem hkey).2 hversion
  refine ⟨hmem, ?_⟩
  split at h
  · exact .inl ⟨(Option.some.inj h).symm, ‹_›⟩
  · exact .inr (Option.some.inj h).symm

end GManager.Table
