import GManager.Transactions

/-!
# Runs of good transactions

A transaction that computes with what it reads, and may fail, is an `attempt`. Transactions that are
good side by side do not only keep the invariant of the store: every later store is one that the earlier
one goes on to (`Run.later`).
-/

namespace GManager

namespace Transaction

variable {σ ε α : Type} {P : σ → σ → Prop} {I : σ → Prop} {R : σ → σ → Prop} {s s₀ view : σ}

/-- Reads, and goes on with what was computed; a failure ends the transaction. -/
def attempt (f : σ → Except ε α) (next : α → Transaction σ) : Transaction σ :=
  .read fun s => match f s with
    | .ok a => next a
    | .error _ => .done

theorem Good.attempt {f : σ → Except ε α} {next : α → Transaction σ}
    (h : ∀ s a, I s → R view s → f s = .ok a → (next a).Good P I R s) :
    (Transaction.attempt f next).Good P I R view := by
  intro s hI hR
  dsimp only
  cases hf : f s with
  | error e => trivial
  | ok a => exact h s a hI hR hf

/-- What is good goes on from where the store has come to. -/
theorem Good.later [IsTrans σ R] {t : Transaction σ} (h : t.Good P I R view) :
    t.Good P (fun s => I s ∧ R s₀ s) R view := by
  induction t generalizing view with
  | done => trivial
  | read next ih => exact fun s hs hR => ih s (h s hs.1 hR)
  | write f next ih =>
    intro s s' hs hR hP hf
    obtain ⟨hI, hR', hnext⟩ := h s s' hs.1 hR hP hf
    exact ⟨⟨hI, IsTrans.trans _ _ _ hs.2 hR'⟩, hR', ih hnext⟩

end Transaction

namespace Board

variable {κ σ : Type} {P : κ → σ → σ → Prop} {I : σ → Prop} {R : σ → σ → Prop} {b b' : Board κ σ}

/-- Good transactions side by side lead to stores that the present one goes on to. -/
theorem Run.later [IsPreorder σ R] {code : κ → Transaction σ}
    (hcode : ∀ call s, I s → (code call).Good (P call) I R s) (h : Run code P b b') (hb : b.Sound P I R) :
    R b.store b'.store := by
  have hb' : b.Sound P (fun s => I s ∧ R b.store s) R :=
    ⟨⟨hb.store, Std.Refl.refl _⟩, fun n a ha => ⟨(hb.active n a ha).1, (hb.active n a ha).2.later⟩⟩
  exact (h.sound (fun call s hs => (hcode call s hs.1).later) hb').store.2

theorem sound_of_idle (hidle : ∀ n, b.active n = none) (hI : I b.store) : b.Sound P I R := by
  refine ⟨hI, fun n a ha => ?_⟩
  rw [hidle n] at ha
  cases ha

end Board

end GManager
