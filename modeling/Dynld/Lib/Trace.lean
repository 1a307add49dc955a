import Dynld.Lib.Outcome
import Mathlib.Data.ENat.Basic
import Mathlib.Algebra.BigOperators.Group.List.Basic

/-!
# What a call notes

The state of a call has a trace in it that only grows. `Adds` says what the events are
that a call adds, and whether they are all of them, since a call that fails stops
short. `Notes` counts those that satisfy a predicate: it bounds the count whatever way
the call ends, and says what it is if the call returns. So the rule for a sequence is
that counts add up, also where the first call fails.

Counts are in `ℕ∞`, since what bounds them may be infinite.
-/

namespace Exec

variable {σ ε α β : Type}

/-! ## Which events -/

/-- `P` holds of the events that a call from `s` on adds to the trace, and of whether the call
returns a value. -/
def Adds (trace : σ → List ε) (P : Bool → List ε → Prop) (x : Exec σ α) (s : σ) : Prop :=
  ∃ added, trace (x s).2 = trace s ++ added ∧ P (x s).1.isOk added

section

variable {trace : σ → List ε} {P Q R : Bool → List ε → Prop} {x : Exec σ α} {s : σ}

theorem Adds.mono (h : Adds trace P x s) (himp : ∀ done added, P done added → Q done added) :
    Adds trace Q x s := by
  obtain ⟨added, htrace, hP⟩ := h
  exact ⟨added, htrace, himp _ _ hP⟩

/-- A call that leaves the trace as it is. -/
theorem adds_nothing (h : trace (x s).2 = trace s) (hP : P (x s).1.isOk []) : Adds trace P x s :=
  ⟨[], by rw [h, List.append_nil], hP⟩

/-- A call that returns a value. -/
theorem adds_of_ok {a : α} {s' : σ} {added : List ε} (h : x s = (.ok a, s'))
    (htrace : trace s' = trace s ++ added) (hP : P true added) : Adds trace P x s :=
  ⟨added, by rw [h, htrace], by rw [h]; exact hP⟩

/-- **The rule for a sequence**: a failed first call is all there is, and after one that returned
the second adds its events to those of the first. -/
theorem Adds.bind {f : α → Exec σ β} (hx : Adds trace P x s)
    (hfail : ∀ added, P false added → R false added)
    (hf : ∀ a s' added, x s = (.ok a, s') → trace s' = trace s ++ added → P true added →
      Adds trace (fun done more => R done (added ++ more)) (f a) s') :
    Adds trace R (x >>= f) s := by
  obtain ⟨added, htrace, hP⟩ := hx
  rw [Adds, bind_run]
  cases hr : x s with
  | mk r s' =>
    rw [hr] at htrace hP
    cases r with
    | ok a =>
        obtain ⟨more, htrace', hR⟩ := hf a s' added hr htrace hP
        refine ⟨added ++ more, ?_, hR⟩
        rw [htrace', htrace, List.append_assoc]
    | err m => exact ⟨added, htrace, hfail _ hP⟩
    | panic m => exact ⟨added, htrace, hfail _ hP⟩
    | outOfFuel => exact ⟨added, htrace, hfail _ hP⟩

/-- The rule for a first call that leaves the trace as it is. -/
theorem Adds.after {f : α → Exec σ β} (hquiet : trace (x s).2 = trace s) (hfail : R false [])
    (hf : ∀ a s', x s = (.ok a, s') → Adds trace R (f a) s') : Adds trace R (x >>= f) s := by
  have hx : Adds trace (fun _ added => added = []) x s := adds_nothing hquiet rfl
  refine hx.bind ?_ ?_
  · rintro added rfl
    exact hfail
  · rintro a s' added h - rfl
    exact hf a s' h

/-- A call that fails adds nothing. -/
def FailsQuietly (trace : σ → List ε) (x : Exec σ α) (s : σ) : Prop :=
  Adds trace (fun done added => done = false → added = []) x s

/-- The rule for a first call that adds these events if it returns, and else none. -/
theorem Adds.step {f : α → Exec σ β} (hx : FailsQuietly trace x s) (hfail : R false [])
    (hf : ∀ a s', x s = (.ok a, s') → ∃ added, trace s' = trace s ++ added ∧
      Adds trace (fun done more => R done (added ++ more)) (f a) s') :
    Adds trace R (x >>= f) s := by
  refine Adds.bind hx ?_ ?_
  · intro added hquiet
    rw [hquiet rfl]
    exact hfail
  · intro a s' added h htrace _
    obtain ⟨added', htrace', hR⟩ := hf a s' h
    rwa [List.append_cancel_left (htrace.symm.trans htrace')]

end

/-! ## How many -/

/-- What a call from `s` on adds to the trace has at most `k` events that satisfy `p`, and just as
many if the call returns. -/
def Notes (trace : σ → List ε) (p : ε → Bool) (k : ℕ∞) (x : Exec σ α) (s : σ) : Prop :=
  ∃ added, trace (x s).2 = trace s ++ added ∧ (added.countP p : ℕ∞) ≤ k ∧
    ∀ a, (x s).1 = .ok a → (added.countP p : ℕ∞) = k

variable {trace : σ → List ε} {p : ε → Bool} {k l : ℕ∞} {x : Exec σ α} {s : σ}

/-- A call that leaves the trace as it is. -/
theorem notes_zero (h : trace (x s).2 = trace s) : Notes trace p 0 x s :=
  ⟨[], by rw [h, List.append_nil], by simp, fun _ _ => by simp⟩

/-- A call that fails and leaves the trace as it is. -/
theorem notes_of_fails (h : trace (x s).2 = trace s) (hfails : ∀ a, (x s).1 ≠ .ok a) :
    Notes trace p k x s :=
  ⟨[], by rw [h, List.append_nil], by simp, fun a ha => absurd ha (hfails a)⟩

/-- A call that returns. -/
theorem notes_of_ok {a : α} {s' : σ} {added : List ε} (h : x s = (.ok a, s'))
    (htrace : trace s' = trace s ++ added) : Notes trace p (added.countP p : Nat) x s :=
  ⟨added, by rw [h, htrace], le_refl _, fun _ _ => rfl⟩

namespace Notes

theorem of_eq (h : Notes trace p k x s) (he : k = l) : Notes trace p l x s := he ▸ h

/-- **In a sequence the counts add up.** -/
theorem bind {f : α → Exec σ β} (hx : Notes trace p k x s)
    (hf : ∀ a s', x s = (.ok a, s') → Notes trace p l (f a) s') :
    Notes trace p (k + l) (x >>= f) s := by
  obtain ⟨added, htrace, hle, heq⟩ := hx
  rw [Notes, bind_run]
  cases hr : x s with
  | mk r s' =>
    rw [hr] at htrace heq
    have hfailed : (added.countP p : ℕ∞) ≤ k + l := hle.trans le_self_add
    cases r with
    | ok a =>
        obtain ⟨added', htrace', hle', heq'⟩ := hf a s' hr
        refine ⟨added ++ added', ?_, ?_, fun b hb => ?_⟩
        · rw [htrace', htrace, List.append_assoc]
        · rw [List.countP_append, Nat.cast_add]
          exact add_le_add hle hle'
        · rw [List.countP_append, Nat.cast_add, heq a rfl, heq' b hb]
    | err m => exact ⟨added, htrace, hfailed, fun b hb => absurd hb (by simp)⟩
    | panic m => exact ⟨added, htrace, hfailed, fun b hb => absurd hb (by simp)⟩
    | outOfFuel => exact ⟨added, htrace, hfailed, fun b hb => absurd hb (by simp)⟩

/-- What a first call that notes nothing leaves to count. -/
theorem after {f : α → Exec σ β} (hx : Notes trace p 0 x s)
    (hf : ∀ a s', x s = (.ok a, s') → Notes trace p k (f a) s') : Notes trace p k (x >>= f) s :=
  (hx.bind hf).of_eq (zero_add k)

theorem each {f : α → Exec σ β} {k : α → ℕ∞} : ∀ {xs : List α} {s : σ},
    (∀ x ∈ xs, ∀ s, Notes trace p (k x) (f x) s) →
    Notes trace p (xs.map k).sum (Exec.each f xs) s
  | [], _, _ => notes_zero rfl
  | x :: xs, s, h => by
      have hrest : ∀ s, Notes trace p (xs.map k).sum (Exec.each f xs) s := fun s =>
        each fun x' hmem => h x' (List.mem_cons_of_mem x hmem)
      rw [List.map_cons, List.sum_cons]
      refine (h x List.mem_cons_self s).bind fun y s₁ _ => ?_
      have hpure : ∀ ys s₂, Exec.each f xs s₁ = (.ok ys, s₂) →
          Notes trace p 0 (pure (y :: ys)) s₂ := fun ys s₂ _ => notes_zero rfl
      exact ((hrest s₁).bind hpure).of_eq (add_zero _)

end Notes

/-! ## What every call preserves -/

/-- However the call ends, it goes from `s` to a related state. -/
def Steps (R : σ → σ → Prop) (x : Exec σ α) : Prop := ∀ s, R s (x s).2

namespace Steps

variable {R : σ → σ → Prop}

theorem bind (htrans : ∀ s s' s'', R s s' → R s' s'' → R s s'') {f : α → Exec σ β}
    (hx : Steps R x) (hf : ∀ a, Steps R (f a)) : Steps R (x >>= f) := by
  intro s
  have hs := hx s
  rw [bind_run]
  cases hr : x s with
  | mk r s' =>
    rw [hr] at hs
    cases r with
    | ok a => exact htrans _ _ _ hs (hf a s')
    | err m => exact hs
    | panic m => exact hs
    | outOfFuel => exact hs

theorem each (hrefl : ∀ s, R s s) (htrans : ∀ s s' s'', R s s' → R s' s'' → R s s'')
    {f : α → Exec σ β} (hf : ∀ a, Steps R (f a)) : ∀ xs, Steps R (Exec.each f xs)
  | [] => hrefl
  | x :: xs => by
      refine bind htrans (hf x) fun y => ?_
      exact bind htrans (each hrefl htrans hf xs) fun ys => hrefl

end Steps

/-! ### From one state -/

section

variable {R : σ → σ → Prop}

/-- A call, and then another one that may count on what the first one left. -/
theorem related_bind (htrans : ∀ s s' s'', R s s' → R s' s'' → R s s'') {x : Exec σ α}
    {f : α → Exec σ β} {s : σ} (hx : R s (x s).2)
    (hf : ∀ a s', x s = (.ok a, s') → R s' (f a s').2) : R s ((x >>= f) s).2 := by
  rw [bind_run]
  cases hr : x s with
  | mk r s' =>
    rw [hr] at hx
    cases r with
    | ok a => exact htrans _ _ _ hx (hf a s' hr)
    | err m => exact hx
    | panic m => exact hx
    | outOfFuel => exact hx

/-- The calls on the items of a list, where each of them may count on its own item. -/
theorem related_each (hrefl : ∀ s, R s s) (htrans : ∀ s s' s'', R s s' → R s' s'' → R s s'')
    {f : α → Exec σ β} : ∀ {xs : List α} {s : σ}, (∀ x ∈ xs, ∀ s, R s (f x s).2) →
      R s (Exec.each f xs s).2
  | [], s, _ => hrefl s
  | x :: xs, s, hf => by
      refine related_bind htrans (hf x List.mem_cons_self s) fun y s₁ _ => ?_
      have hrest : R s₁ (Exec.each f xs s₁).2 :=
        related_each hrefl htrans fun x' hx' => hf x' (List.mem_cons_of_mem x hx')
      exact related_bind htrans hrest fun ys s₂ _ => hrefl s₂

end

/-! ### Failing without effect -/

/-- If the call fails, the state is as it was. -/
def FailsIdle (x : Exec σ α) (s : σ) : Prop := (∃ a s', x s = (.ok a, s')) ∨ (x s).2 = s

namespace FailsIdle

variable {x : Exec σ α} {f : α → Exec σ β} {s : σ}

/-- After a call that changes nothing. -/
theorem after (hx : (x s).2 = s) (hf : ∀ a, FailsIdle (f a) s) : FailsIdle (x >>= f) s := by
  unfold FailsIdle
  rw [bind_run]
  cases hr : x s with
  | mk r s' =>
    obtain rfl : s' = s := by rw [hr] at hx; exact hx
    cases r with
    | ok a => exact hf a
    | err m => exact .inr rfl
    | panic m => exact .inr rfl
    | outOfFuel => exact .inr rfl

/-- Before calls that cannot fail. -/
theorem before (hx : FailsIdle x s) (hf : ∀ a s', ∃ b s'', f a s' = (.ok b, s'')) :
    FailsIdle (x >>= f) s := by
  rcases hx with ⟨a, s', hx⟩ | hx
  · obtain ⟨b, s'', hf⟩ := hf a s'
    exact .inl ⟨b, s'', by rw [bind_of_ok hx, hf]⟩
  · unfold FailsIdle
    rw [bind_run]
    cases hr : x s with
    | mk r s' =>
      rw [hr] at hx
      cases r with
      | ok a =>
          obtain ⟨b, s'', hf⟩ := hf a s'
          exact .inl ⟨b, s'', hf⟩
      | err m => exact .inr hx
      | panic m => exact .inr hx
      | outOfFuel => exact .inr hx

end FailsIdle

end Exec
