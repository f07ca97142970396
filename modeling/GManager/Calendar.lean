import GManager.Table
import GManager.Span

/-!
# Calendars

A calendar reads the rows of a table as claims to things over half-open spans. Its rows are `Apart` when no
two of them claim one thing at one time. A row may be added, or written over another one, when no other row
claims the same thing at the same time.
-/

namespace GManager

/-- How a row claims a thing of type `θ`, or nothing, from a start to a stop. -/
structure Calendar (ρ θ τ : Type) where
  claims : ρ → Option θ
  start : ρ → τ
  stop : ρ → τ

namespace Calendar

variable {κ ρ θ τ : Type} [LinearOrder τ] {key : ρ → κ} {C : Calendar ρ θ τ} {t t' : Table key} {r r' : ρ}

/-- The two rows claim one thing at one time. -/
def Clash (C : Calendar ρ θ τ) (r r' : ρ) : Prop :=
  (∃ x, C.claims r = some x ∧ C.claims r' = some x) ∧ Overlaps (C.start r) (C.stop r) (C.start r') (C.stop r')

theorem Clash.symm (h : C.Clash r r') : C.Clash r' r :=
  ⟨h.1.imp fun _ hx => hx.symm, h.2.symm⟩

/-- No two rows clash. -/
def Apart (C : Calendar ρ θ τ) (t : Table key) : Prop := ∀ r ∈ t, ∀ r' ∈ t, key r ≠ key r' → ¬ C.Clash r r'

theorem apart_empty : C.Apart (Table.empty : Table key) := fun _ hr => absurd hr Table.not_mem_empty

variable [DecidableEq κ]

theorem Apart.insert (ha : C.Apart t) (hi : t.insert r = some t')
    (hfree : ∀ x ∈ t, ¬ C.Clash x r) : C.Apart t' := by
  intro a hma b hmb hk
  rcases (Table.mem_insert hi).1 hma with ha' | rfl <;> rcases (Table.mem_insert hi).1 hmb with hb' | rfl
  · exact ha a ha' b hb' hk
  · exact hfree a ha'
  · exact fun h => hfree b hb' h.symm
  · exact absurd rfl hk

theorem Apart.save (ha : C.Apart t) (hfree : ∀ x ∈ t, key x ≠ key r → ¬ C.Clash x r) :
    C.Apart (t.save r) := by
  intro a hma b hmb hk
  rcases Table.mem_save.1 hma with ⟨ha', hka⟩ | ⟨rfl, -⟩ <;>
    rcases Table.mem_save.1 hmb with ⟨hb', hkb⟩ | ⟨rfl, -⟩
  · exact ha a ha' b hb' hk
  · exact hfree a ha' hka
  · exact fun h => hfree b hb' hkb h.symm
  · exact absurd rfl hk

/-- A row may be written over one that claims at least as much. -/
theorem Apart.save_of_clash (ha : C.Apart t) (hr : r ∈ t) (hk : key r' = key r)
    (hle : ∀ x, C.Clash x r' → C.Clash x r) : C.Apart (t.save r') :=
  ha.save fun x hx hkx h => ha x hx r hr (hk ▸ hkx) (hle x h)

end Calendar

end GManager
