/-!
# Systems that take steps

A system is a relation: from one state, with a label, to another. What every step keeps
holds throughout a run, and a system whose every step is a step of another one has only
runs of the other one.
-/

namespace System

variable {σ τ α : Type} {step : σ → α → σ → Prop} {step' : τ → α → τ → Prop}

/-- The system gets from the first state to the last, with these labels on the way. -/
inductive Run (step : σ → α → σ → Prop) (s : σ) : List α → σ → Prop where
  | nil : Run step s [] s
  | snoc {labels : List α} {s' s'' : σ} {a : α} : Run step s labels s' → step s' a s'' →
      Run step s (labels ++ [a]) s''

variable {s s' s'' : σ} {labels labels' : List α} {a : α}

theorem Run.one (h : step s a s') : Run step s [a] s' := Run.snoc Run.nil h

theorem Run.append (h : Run step s labels s') (h' : Run step s' labels' s'') :
    Run step s (labels ++ labels') s'' := by
  induction h' with
  | nil =>
    rw [List.append_nil]
    exact h
  | snoc _ hstep ih =>
    rw [← List.append_assoc]
    exact ih.snoc hstep

theorem Run.cons (hstep : step s a s') (h : Run step s' labels s'') :
    Run step s (a :: labels) s'' := (Run.one hstep).append h

/-- **What every step keeps** holds at the end of a run. -/
theorem Run.keeps {P : σ → Prop} (hkeep : ∀ s a s', P s → step s a s' → P s') (hs : P s)
    (h : Run step s labels s') : P s' := by
  induction h with
  | nil => exact hs
  | snoc _ hstep ih => exact hkeep _ _ _ ih hstep

/-- **A simulation**: `f` tells what the states stand for. -/
theorem Run.simulates {P : σ → Prop} {f : σ → τ} (hkeep : ∀ s a s', P s → step s a s' → P s')
    (hsim : ∀ s a s', P s → step s a s' → step' (f s) a (f s')) (hs : P s)
    (h : Run step s labels s') : Run step' (f s) labels (f s') := by
  induction h with
  | nil => exact Run.nil
  | snoc hrun hstep ih => exact ih.snoc (hsim _ _ _ (hrun.keeps hkeep hs) hstep)

/-- A simulation by a relation: what is told of the steps is the same. -/
theorem Run.refines {R : σ → τ → Prop} {t : τ}
    (hsim : ∀ s a s' t, R s t → step s a s' → ∃ t', step' t a t' ∧ R s' t') (hs : R s t)
    (h : Run step s labels s') : ∃ t', Run step' t labels t' ∧ R s' t' := by
  induction h with
  | nil => exact ⟨t, Run.nil, hs⟩
  | snoc _ hstep ih =>
    obtain ⟨t₁, hrun, hr⟩ := ih
    obtain ⟨t₂, hstep', hr'⟩ := hsim _ _ _ _ hr hstep
    exact ⟨t₂, hrun.snoc hstep', hr'⟩

end System
