import Mathlib.Data.List.Nodup
import Mathlib.Data.List.Basic

/-!
# Tables with a primary key

A table is a list of rows, in the order of their insertion, whose keys are pairwise distinct. Every
operation keeps the keys distinct by construction, so a table that breaks its primary key cannot be
built. `insert` refuses a row whose key is taken, as the database does; `save` writes a row over the one
with its key and `edit` rewrites rows in place; `mem_…` say which rows a table has afterwards.
-/

namespace GManager

/-- Rows in insertion order, no two with the same `key`. -/
structure Table {κ ρ : Type} (key : ρ → κ) where
  rows : List ρ
  nodup : (rows.map key).Nodup

namespace Table

variable {κ ρ : Type} {key : ρ → κ}

instance : Membership ρ (Table key) := ⟨fun t r => r ∈ t.rows⟩

theorem mem_rows {t : Table key} {r : ρ} : r ∈ t.rows ↔ r ∈ t := Iff.rfl

@[ext] theorem ext {t t' : Table key} (h : t.rows = t'.rows) : t = t' := by
  cases t
  cases t'
  congr

def empty : Table key := ⟨[], List.nodup_nil⟩

theorem not_mem_empty {r : ρ} : ¬ r ∈ (empty : Table key) := List.not_mem_nil

theorem eq_of_key {t : Table key} {r r' : ρ} (h : r ∈ t) (h' : r' ∈ t) (hk : key r = key r') : r = r' :=
  List.inj_on_of_nodup_map t.nodup h h' hk

/-- Rewrites every row by a function that leaves its key alone. -/
def edit (f : ρ → ρ) (hf : ∀ r, key (f r) = key r) (t : Table key) : Table key :=
  ⟨t.rows.map f, by
    have h : key ∘ f = key := funext hf
    rw [List.map_map, h]
    exact t.nodup⟩

/-- Deletes the rows that satisfy `p`. -/
def delete (p : ρ → Bool) (t : Table key) : Table key :=
  ⟨t.rows.filter fun r => !p r, t.nodup.sublist (List.filter_sublist.map key)⟩

theorem mem_edit {f : ρ → ρ} {hf : ∀ r, key (f r) = key r} {t : Table key} {r : ρ} :
    r ∈ t.edit f hf ↔ ∃ r₀ ∈ t, f r₀ = r := List.mem_map

theorem mem_delete {p : ρ → Bool} {t : Table key} {r : ρ} : r ∈ t.delete p ↔ r ∈ t ∧ p r = false := by
  show r ∈ t.rows.filter _ ↔ _
  simp [mem_rows]

section keyed

variable [DecidableEq κ]

/-- The row with key `k`. -/
def find? (t : Table key) (k : κ) : Option ρ := t.rows.find? fun r => key r = k

/-- Appends a row, unless its key is taken. -/
def insert (t : Table key) (r : ρ) : Option (Table key) :=
  if h : key r ∈ t.rows.map key then none
  else some ⟨t.rows ++ [r], by
    rw [List.map_append, List.map_singleton]
    exact List.nodup_append.2 ⟨t.nodup, List.nodup_singleton _, by
      intro a ha b hb
      rw [List.mem_singleton.1 hb]
      exact fun hab => h (hab ▸ ha)⟩⟩

/-- Writes a row over the one with its key, if there is one. -/
def save (t : Table key) (r : ρ) : Table key :=
  t.edit (fun x => if key x = key r then r else x) fun x => by
    split
    · exact Eq.symm ‹_›
    · rfl

/-- Writes a row over the one with its key, or appends it. -/
def upsert (t : Table key) (r : ρ) : Table key := (t.insert r).getD (t.save r)

theorem find?_eq_some {t : Table key} {k : κ} {r : ρ} : t.find? k = some r ↔ r ∈ t ∧ key r = k := by
  constructor
  · intro h
    exact ⟨List.mem_of_find?_eq_some h, by simpa using List.find?_some h⟩
  · rintro ⟨hr, rfl⟩
    cases h : t.find? (key r) with
    | none => simpa using List.find?_eq_none.1 h r hr
    | some r' =>
      have hr' : r' ∈ t := List.mem_of_find?_eq_some h
      have hk : key r' = key r := by simpa using List.find?_some h
      rw [eq_of_key hr' hr hk]

theorem find?_eq_none {t : Table key} {k : κ} : t.find? k = none ↔ ∀ r ∈ t, key r ≠ k := by
  simp only [find?, List.find?_eq_none, decide_eq_true_eq, mem_rows, ne_eq]

theorem insert_eq_some {t t' : Table key} {r : ρ} :
    t.insert r = some t' ↔ (∀ x ∈ t, key x ≠ key r) ∧ t'.rows = t.rows ++ [r] := by
  unfold insert
  split
  · rename_i h
    obtain ⟨x, hx, hk⟩ := List.mem_map.1 h
    simp only [reduceCtorEq, false_iff, not_and]
    exact fun hn => absurd hk (hn x hx)
  · rename_i h
    have hn : ∀ x ∈ t, key x ≠ key r := fun x hx hk => h (List.mem_map.2 ⟨x, hx, hk⟩)
    rw [Option.some.injEq]
    exact ⟨fun he => ⟨hn, he ▸ rfl⟩, fun he => Table.ext he.2.symm⟩

/-- A row under a new key is inserted. -/
theorem insert_of_fresh {t : Table key} {r : ρ} (h : ∀ x ∈ t, key x ≠ key r) :
    ∃ t', t.insert r = some t' := by
  have hn : key r ∉ t.rows.map key := fun hm => by
    obtain ⟨x, hx, hk⟩ := List.mem_map.1 hm
    exact h x hx hk
  exact ⟨_, dif_neg hn⟩

theorem mem_insert {t t' : Table key} {r x : ρ} (h : t.insert r = some t') : x ∈ t' ↔ x ∈ t ∨ x = r := by
  rw [← mem_rows, (insert_eq_some.1 h).2, List.mem_append, List.mem_singleton, mem_rows]

theorem find?_insert {t t' : Table key} {r : ρ} {k : κ} (h : t.insert r = some t') (hk : k ≠ key r) :
    t'.find? k = t.find? k := by
  refine Option.ext fun x => ?_
  rw [find?_eq_some, find?_eq_some, mem_insert h]
  constructor
  · rintro ⟨hx | rfl, rfl⟩
    · exact ⟨hx, rfl⟩
    · exact absurd rfl hk
  · rintro ⟨hx, rfl⟩
    exact ⟨.inl hx, rfl⟩

theorem mem_save {t : Table key} {r x : ρ} :
    x ∈ t.save r ↔ (x ∈ t ∧ key x ≠ key r) ∨ (x = r ∧ ∃ y ∈ t, key y = key r) := by
  unfold save
  rw [mem_edit]
  constructor
  · rintro ⟨y, hy, rfl⟩
    by_cases hk : key y = key r
    · exact .inr ⟨if_pos hk, y, hy, hk⟩
    · rw [if_neg hk]
      exact .inl ⟨hy, hk⟩
  · rintro (⟨hx, hk⟩ | ⟨rfl, y, hy, hk⟩)
    · exact ⟨x, hx, if_neg hk⟩
    · exact ⟨y, hy, if_pos hk⟩

theorem mem_save_self {t : Table key} {r r' : ρ} (h : r' ∈ t) (hk : key r' = key r) : r ∈ t.save r :=
  mem_save.2 (.inr ⟨rfl, r', h, hk⟩)

theorem mem_save_of_mem {t : Table key} {r r' x : ρ} (h : r ∈ t) (hk : key r' = key r) :
    x ∈ t.save r' ↔ x = r' ∨ x ∈ t ∧ key x ≠ key r := by
  rw [mem_save, hk]
  constructor
  · rintro (⟨hx, hne⟩ | ⟨rfl, -⟩)
    · exact .inr ⟨hx, hne⟩
    · exact .inl rfl
  · rintro (rfl | ⟨hx, hne⟩)
    · exact .inr ⟨rfl, r, h, rfl⟩
    · exact .inl ⟨hx, hne⟩

/-- Of two writes to one row the second remains. -/
theorem save_save {t : Table key} {r r' : ρ} (h : key r = key r') : (t.save r).save r' = t.save r' := by
  refine Table.ext ?_
  show List.map _ (List.map _ t.rows) = List.map _ t.rows
  rw [List.map_map]
  refine List.map_congr_left fun x _ => ?_
  simp only [Function.comp_apply]
  by_cases hx : key x = key r
  · rw [if_pos hx, if_pos h, if_pos (hx.trans h)]
  · rw [if_neg hx]

theorem mem_insert_save {t t' : Table key} {r r' x : ρ} (h : t.insert r = some t') (hk : key r = key r') :
    x ∈ t'.save r' ↔ x ∈ t ∨ x = r' := by
  rw [mem_save, mem_insert h]
  have hn := (insert_eq_some.1 h).1
  constructor
  · rintro (⟨hx | rfl, hne⟩ | ⟨rfl, -⟩)
    · exact .inl hx
    · exact absurd hk hne
    · exact .inr rfl
  · rintro (hx | rfl)
    · exact .inl ⟨.inl hx, fun he => hn x hx (he.trans hk.symm)⟩
    · exact .inr ⟨rfl, r, (mem_insert h).2 (.inr rfl), hk⟩

theorem find?_save {t : Table key} {r : ρ} {k : κ} :
    (t.save r).find? k = if k = key r then (t.find? k).map fun _ => r else t.find? k := by
  split
  · rename_i h
    subst h
    cases hf : t.find? (key r) with
    | none =>
      rw [find?_eq_none] at hf
      refine find?_eq_none.2 fun x hx => ?_
      rcases mem_save.1 hx with ⟨_, hk⟩ | ⟨rfl, y, hy, hk⟩
      · exact hk
      · exact absurd hk (hf y hy)
    | some y =>
      obtain ⟨hy, hk⟩ := find?_eq_some.1 hf
      exact find?_eq_some.2 ⟨mem_save.2 (.inr ⟨rfl, y, hy, hk⟩), rfl⟩
  · rename_i h
    refine Option.ext fun x => ?_
    rw [find?_eq_some, find?_eq_some, mem_save]
    constructor
    · rintro ⟨⟨hx, _⟩ | ⟨rfl, _⟩, rfl⟩
      · exact ⟨hx, rfl⟩
      · exact absurd rfl h
    · rintro ⟨hx, rfl⟩
      exact ⟨.inl ⟨hx, h⟩, rfl⟩

theorem find?_edit {f : ρ → ρ} {hf : ∀ r, key (f r) = key r} {t : Table key} {k : κ} :
    (t.edit f hf).find? k = (t.find? k).map f := by
  show (t.rows.map f).find? _ = (t.rows.find? _).map f
  rw [List.find?_map]
  refine congrArg (Option.map f) (congrArg (fun p => t.rows.find? p) (funext fun r => ?_))
  simp only [Function.comp_apply, hf]

/-- A row that the new edit leaves alone may be written before it or after the old one. -/
theorem edit_save {f g : ρ → ρ} {hf : ∀ r, key (f r) = key r} {hg : ∀ r, key (g r) = key r} {t : Table key}
    {r : ρ} (hr : g r = r) (hfg : ∀ x ∈ t, key x ≠ key r → f x = g x) :
    (t.edit f hf).save r = (t.save r).edit g hg := by
  refine Table.ext ?_
  show List.map _ (List.map _ t.rows) = List.map _ (List.map _ t.rows)
  rw [List.map_map, List.map_map]
  refine List.map_congr_left fun x hx => ?_
  simp only [Function.comp_apply, hf]
  split
  · exact hr.symm
  · exact hfg x hx ‹_›

/-- A write to one row of an edited table is another edit. -/
theorem save_edit {f g : ρ → ρ} {hf : ∀ r, key (f r) = key r} {hg : ∀ r, key (g r) = key r} {t : Table key}
    {r : ρ} (hr : ∀ x ∈ t, key x = key r → g x = r) (hfg : ∀ x ∈ t, key x ≠ key r → g x = f x) :
    (t.edit f hf).save r = t.edit g hg := by
  refine Table.ext ?_
  show List.map _ (List.map _ t.rows) = List.map _ t.rows
  rw [List.map_map]
  refine List.map_congr_left fun x hx => ?_
  simp only [Function.comp_apply, hf]
  split
  · exact (hr x hx ‹_›).symm
  · exact (hfg x hx ‹_›).symm

theorem save_self {t : Table key} {r : ρ} (h : r ∈ t) : t.save r = t := by
  refine Table.ext ?_
  show List.map _ t.rows = t.rows
  refine (List.map_congr_left fun x hx => ?_).trans (List.map_id _)
  split
  · exact (eq_of_key hx h ‹_›).symm
  · rfl

theorem upsert_cases (t : Table key) (r : ρ) :
    (t.insert r = some (t.upsert r)) ∨ ((∃ y ∈ t, key y = key r) ∧ t.upsert r = t.save r) := by
  unfold upsert
  cases h : t.insert r with
  | some t' => exact .inl rfl
  | none =>
    refine .inr ⟨?_, rfl⟩
    by_contra hn
    push Not at hn
    unfold insert at h
    rw [dif_neg (by simpa [List.mem_map, mem_rows] using hn)] at h
    cases h

theorem find?_upsert {t : Table key} {r : ρ} {k : κ} :
    (t.upsert r).find? k = if k = key r then some r else t.find? k := by
  rcases upsert_cases t r with h | ⟨⟨y, hy, hk⟩, h⟩
  · refine Option.ext fun x => ?_
    rw [find?_eq_some, mem_insert h]
    split
    · rename_i hr
      subst hr
      rw [Option.some.injEq]
      constructor
      · rintro ⟨hx | rfl, hk⟩
        · exact absurd hk ((insert_eq_some.1 h).1 x hx)
        · rfl
      · rintro rfl
        exact ⟨.inr rfl, rfl⟩
    · rename_i hr
      rw [find?_eq_some]
      constructor
      · rintro ⟨hx | rfl, rfl⟩
        · exact ⟨hx, rfl⟩
        · exact absurd rfl hr
      · rintro ⟨hx, rfl⟩
        exact ⟨.inl hx, rfl⟩
  · rw [h, find?_save]
    split
    · rename_i hr
      rw [hr, find?_eq_some.2 ⟨hy, hk⟩]
      rfl
    · rfl

theorem mem_upsert {t : Table key} {r x : ρ} : x ∈ t.upsert r ↔ x = r ∨ key x ≠ key r ∧ x ∈ t := by
  have hmem : ∀ t' : Table key, x ∈ t' ↔ t'.find? (key x) = some x :=
    fun t' => ⟨fun hx => find?_eq_some.2 ⟨hx, rfl⟩, fun hx => (find?_eq_some.1 hx).1⟩
  rw [hmem, find?_upsert]
  constructor
  · intro h
    split at h
    · exact .inl (Option.some.inj h).symm
    · exact .inr ⟨‹_›, (hmem t).2 h⟩
  · rintro (rfl | ⟨hk, hx⟩)
    · rw [if_pos rfl]
    · rw [if_neg hk]
      exact (hmem t).1 hx

end keyed

end Table

end GManager
