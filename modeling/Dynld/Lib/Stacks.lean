/-!
# Work that makes work

Items are worked on one after the other, and each may add items, which come before all
that wait. The items that wait are a stack, then. A program that works on what an item
has added in a call of its own does the same, since the work on a stack is the work on
its upper part and then on the rest.
-/

namespace Work

variable {α : Type}

/-- All of the stack is worked on. `add` tells what an item adds, after the items that were worked on
before it; these are `done` at first and `done'` in the end. -/
inductive Drains (add : List α → α → List α) : List α → List α → List α → Prop where
  | nil (done : List α) : Drains add [] done done
  | cons {x : α} {stack done done' : List α} :
      Drains add ((add done x).reverse ++ stack) (done ++ [x]) done' →
      Drains add (x :: stack) done done'

variable {add : List α → α → List α} {stack stack' done done' done'' : List α} {x : α}

theorem Drains.cons_iff : Drains add (x :: stack) done done' ↔
    Drains add ((add done x).reverse ++ stack) (done ++ [x]) done' := by
  constructor
  · intro h
    cases h with
    | cons h => exact h
  · exact Drains.cons

theorem Drains.nil_iff : Drains add [] done done' ↔ done' = done := by
  constructor
  · intro h
    cases h with
    | nil => rfl
  · rintro rfl
    exact Drains.nil _

/-- First the upper part, and then the rest. -/
theorem Drains.append (h : Drains add stack done done') :
    ∀ {stack' done''}, Drains add stack' done' done'' → Drains add (stack ++ stack') done done'' := by
  induction h with
  | nil done =>
    intro stack' done'' h'
    exact h'
  | cons _ ih =>
    intro stack' done'' h'
    have hrest := ih h'
    rw [List.append_assoc] at hrest
    exact hrest.cons

/-- **The work on a stack** is the work on its upper part, and then on the rest. -/
theorem Drains.append_iff : Drains add (stack ++ stack') done done'' ↔
    ∃ done', Drains add stack done done' ∧ Drains add stack' done' done'' := by
  constructor
  · intro h
    generalize heq : stack ++ stack' = whole at h
    induction h generalizing stack with
    | nil done =>
      obtain ⟨rfl, rfl⟩ := List.append_eq_nil_iff.mp heq
      exact ⟨done, Drains.nil _, Drains.nil _⟩
    | @cons x rest done done'' h ih =>
      cases stack with
      | nil =>
          obtain rfl : stack' = x :: rest := heq
          exact ⟨done, Drains.nil _, h.cons⟩
      | cons y stack =>
          obtain ⟨rfl, rfl⟩ := List.cons.inj heq
          obtain ⟨done', hupper, hrest⟩ := ih (List.append_assoc _ _ _)
          exact ⟨done', hupper.cons, hrest⟩
  · rintro ⟨done', h, h'⟩
    exact h.append h'

/-- What was worked on is kept. -/
theorem Drains.keeps (h : Drains add stack done done') : ∃ items, done' = done ++ items := by
  induction h with
  | nil done => exact ⟨[], (List.append_nil done).symm⟩
  | @cons x stack done done' _ ih =>
    obtain ⟨items, rfl⟩ := ih
    exact ⟨x :: items, List.append_assoc _ _ _⟩

theorem Drains.length_le (h : Drains add stack done done') : done.length ≤ done'.length := by
  obtain ⟨items, rfl⟩ := h.keeps
  rw [List.length_append]
  exact Nat.le_add_right _ _

/-- There is one way to work on a stack. -/
theorem Drains.unique (h : Drains add stack done done') (h' : Drains add stack done done'') :
    done' = done'' := by
  induction h with
  | nil done => exact (Drains.nil_iff.mp h').symm
  | cons _ ih => exact ih (Drains.cons_iff.mp h')

end Work
