import Mathlib.Data.List.Basic

/-!
# Runs of partial steps

A step may be impossible in a state. `RunMeets step C s es` says that every step of the run from `s` meets
the condition `C`, up to the first one that is impossible; it can be decided where `C` can. An invariant
that the steps which meet the condition keep is kept by the runs.
-/

namespace GManager

variable {σ ε : Type} {step : σ → ε → Option σ} {C : σ → ε → Prop} {s s' : σ} {es es' : List ε}

/-- Every step of the run meets `C`. -/
def RunMeets (step : σ → ε → Option σ) (C : σ → ε → Prop) (s : σ) : List ε → Prop
  | [] => True
  | e :: es => C s e ∧ ∀ s' ∈ step s e, RunMeets step C s' es

theorem RunMeets.of_forall (h : ∀ e ∈ es, ∀ s, C s e) : RunMeets step C s es := by
  induction es generalizing s with
  | nil => trivial
  | cons e es ih =>
    exact ⟨h e List.mem_cons_self s, fun _ _ => ih fun e' he' => h e' (List.mem_cons_of_mem _ he')⟩

/-- A condition that an invariant gives. -/
theorem RunMeets.of_invariant {C' : σ → ε → Prop} {I : σ → Prop}
    (hstep : ∀ s e s', I s → C s e → step s e = some s' → I s') (hC : ∀ s e, I s → C s e → C' s e)
    (h : RunMeets step C s es) (hs : I s) : RunMeets step C' s es := by
  induction es generalizing s with
  | nil => trivial
  | cons e es ih =>
    exact ⟨hC s e hs h.1, fun s' hs' => ih (h.2 s' hs') (hstep s e s' hs h.1 hs')⟩

theorem RunMeets.append (h : RunMeets step C s (es ++ es')) :
    RunMeets step C s es ∧ ∀ s', es.foldlM step s = some s' → RunMeets step C s' es' := by
  induction es generalizing s with
  | nil => exact ⟨trivial, fun s' hs => Option.some.inj hs ▸ h⟩
  | cons e es ih =>
    refine ⟨⟨h.1, fun s₁ hstep => (ih (h.2 s₁ hstep)).1⟩, fun s' hs => ?_⟩
    obtain ⟨s₁, hstep, hs⟩ := Option.bind_eq_some_iff.1 hs
    exact (ih (h.2 s₁ hstep)).2 s' hs

/-- What a step brings about between its states, if it meets `C`, a run does. -/
theorem RunMeets.trans {I : σ → Prop} {R : σ → σ → Prop} (hrefl : ∀ s, R s s)
    (htrans : ∀ s s' s'', R s s' → R s' s'' → R s s'')
    (hstep : ∀ s e s', I s → C s e → step s e = some s' → I s' ∧ R s s') (h : RunMeets step C s es) (hs : I s)
    (hrun : es.foldlM step s = some s') : I s' ∧ R s s' := by
  induction es generalizing s with
  | nil =>
    cases hrun
    exact ⟨hs, hrefl _⟩
  | cons e es ih =>
    obtain ⟨s₁, hs₁, hrun⟩ := Option.bind_eq_some_iff.1 hrun
    obtain ⟨hI, hR⟩ := hstep s e s₁ hs h.1 hs₁
    obtain ⟨hI', hR'⟩ := ih (h.2 s₁ hs₁) hI hrun
    exact ⟨hI', htrans _ _ _ hR hR'⟩

/-- An invariant of the steps that meet `C`. -/
theorem RunMeets.keeps {I : σ → Prop} (hstep : ∀ s e s', I s → C s e → step s e = some s' → I s')
    (h : RunMeets step C s es) (hs : I s) (hrun : es.foldlM step s = some s') : I s' :=
  (h.trans (R := fun _ _ => True) (fun _ => trivial) (fun _ _ _ _ _ => trivial)
    (fun s e s' hI hC hs => ⟨hstep s e s' hI hC hs, trivial⟩) hs hrun).1

def decidableRunMeets [∀ s e, Decidable (C s e)] : (es : List ε) → (s : σ) → Decidable (RunMeets step C s es)
  | [], _ => isTrue trivial
  | e :: es, s =>
    match h : step s e with
    | none => decidable_of_iff (C s e) ⟨fun hc => ⟨hc, fun s' hs => by rw [h] at hs; cases hs⟩, And.left⟩
    | some s' =>
      have := decidableRunMeets es s'
      decidable_of_iff (C s e ∧ RunMeets step C s' es)
        ⟨fun hc => ⟨hc.1, fun x hx => by rw [h] at hx; cases hx; exact hc.2⟩, fun hc => ⟨hc.1, hc.2 s' h⟩⟩

instance [∀ s e, Decidable (C s e)] (s : σ) (es : List ε) : Decidable (RunMeets step C s es) :=
  decidableRunMeets es s

end GManager
