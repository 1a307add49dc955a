import Dynld.Lib.Outcome

/-!
# Code that is interrupted

Code is a tree of operations on a state: each operation has an answer, and the code goes on
by it. It can be run in one go, or one operation at a time with others changing the state
in between. As long as what the others do commutes with the operations that were
performed, the state is one the code would have got to had the others been first
(`Reaches.interrupt`).
-/

/-- Code with a result: `o` is performed, and `k` goes on by its answer. -/
inductive Code (ω : Type) (β : ω → Type) (α : Type) where
  | ret (x : Outcome α)
  | op (o : ω) (k : β o → Code ω β α)

namespace Code

variable {ω α γ σ : Type} {β : ω → Type}

/-- One piece of code after another; one that fails is the last. -/
def bind (c : Code ω β α) (f : α → Code ω β γ) : Code ω β γ :=
  match c with
  | ret (.ok a) => f a
  | ret (.err m) => ret (.err m)
  | ret (.panic m) => ret (.panic m)
  | ret .outOfFuel => ret .outOfFuel
  | op o k => op o fun b => (k b).bind f

instance : Monad (Code ω β) where
  pure a := ret (.ok a)
  bind := bind

/-- Code that has nothing to do with the state. -/
instance : MonadLift Outcome (Code ω β) where
  monadLift x := ret x

/-- One operation. -/
def perform (o : ω) : Code ω β (β o) := op o fun b => ret (.ok b)

section

variable (act : (o : ω) → σ → β o × σ)

/-! ## In one go -/

def run : Code ω β α → Exec σ α
  | ret x => fun s => (x, s)
  | op o k => fun s => run (k (act o s).1) (act o s).2

/-- One piece of code runs after the other. -/
theorem run_bind (c : Code ω β α) (f : α → Code ω β γ) :
    run act (c >>= f) = run act c >>= fun a => run act (f a) := by
  funext s
  induction c generalizing s with
  | ret x =>
    cases x with
    | ok a => rfl
    | err m => rfl
    | panic m => rfl
    | outOfFuel => rfl
  | op o k ih => exact ih (act o s).1 (act o s).2

/-! ## What it performs -/

/-- Every operation that a run from this state performs is allowed. -/
def Along (P : ω → Prop) : Code ω β α → σ → Prop
  | ret _, _ => True
  | op o k, s => P o ∧ Along P (k (act o s).1) (act o s).2

variable {act} {P Q : ω → Prop}

theorem Along.mono (hPQ : ∀ o, P o → Q o) {c : Code ω β α} :
    ∀ {s : σ}, Along act P c s → Along act Q c s := by
  induction c with
  | ret x => exact fun _ => trivial
  | op o k ih => exact fun h => ⟨hPQ o h.1, ih _ h.2⟩

theorem along_lift (x : Outcome α) (s : σ) : Along act P (liftM x : Code ω β α) s := trivial

theorem along_perform {o : ω} (h : P o) (s : σ) :
    Along act P (perform o : Code ω β (β o)) s := ⟨h, trivial⟩

/-- Of two pieces of code, the second one runs if the first one returns. -/
theorem Along.bind {f : α → Code ω β γ} {c : Code ω β α} : ∀ {s : σ}, Along act P c s →
    (∀ a s', run act c s = (.ok a, s') → Along act P (f a) s') → Along act P (c >>= f) s := by
  induction c with
  | ret x =>
    intro s _ hf
    cases x with
    | ok a => exact hf a s rfl
    | err m => trivial
    | panic m => trivial
    | outOfFuel => trivial
  | op o k ih => exact fun h hf => ⟨h.1, ih _ h.2 hf⟩

/-! ## One operation at a time -/

/-- Code `c` in a state has become `c'` in another one. -/
inductive Reaches (act : (o : ω) → σ → β o × σ) (c : Code ω β α) (s : σ) :
    Code ω β α → σ → Prop where
  | refl : Reaches act c s c s
  | step {o : ω} {k : β o → Code ω β α} {s' : σ} : Reaches act c s (op o k) s' →
      Reaches act c s (k (act o s').1) (act o s').2

variable {c c' : Code ω β α} {s s' : σ}

/-- What is left runs to where all of it would. -/
theorem Reaches.run_eq (h : Reaches act c s c' s') : run act c' s' = run act c s := by
  induction h with
  | refl => rfl
  | step _ ih => exact ih

theorem Reaches.along (h : Reaches act c s c' s') (hc : Along act P c s) :
    Along act P c' s' := by
  induction h with
  | refl => exact hc
  | step _ ih => exact ih.2

/-- What every allowed operation keeps. -/
theorem Reaches.keeps {I : σ → Prop} (h : Reaches act c s c' s') (hc : Along act P c s)
    (hkeep : ∀ o s, P o → I s → I (act o s).2) (hs : I s) : I s' := by
  induction h with
  | refl => exact hs
  | step hr ih => exact hkeep _ _ (hr.along hc).1 ih

/-- **Others come in between**: what they do commutes with every allowed operation, so it
might have been done first. -/
theorem Reaches.interrupt {w : σ → σ} (h : Reaches act c s c' s') (hc : Along act P c s)
    (hw : ∀ o s, P o → act o (w s) = ((act o s).1, w (act o s).2)) :
    Reaches act c (w s) c' (w s') := by
  induction h with
  | refl => exact Reaches.refl
  | @step o k s' hr ih =>
    have hstep := ih.step
    rw [hw o s' (hr.along hc).1] at hstep
    exact hstep

end

end Code
