import Dynld.Lib.Outcome

/-!
# Searching a graph to a bounded depth

At each node the search asks what is there: nothing, an answer, one node to go on
with, or several nodes to try in order. The graph may have cycles; a budget bounds
the depth instead of a set of visited nodes.

The search is first-hit, so what it returns depends on the order the nodes are
tried in. What it returns *is an answer*, and what it fails to find *is not
there*: both only speak of `Walk`, which knows no order.
-/

namespace Search

/-- What is at a node. -/
inductive Found (ν α : Type) where
  /-- Nothing, and nowhere to go on. -/
  | nothing
  /-- An answer. -/
  | answer (a : α)
  /-- Only this node can tell. -/
  | follow (v : ν)
  /-- One of these nodes can tell. -/
  | tryEach (vs : List ν)
  deriving DecidableEq, Repr

variable {ν α : Type}

/-- The first answer among `f v` for the `v` of a list, in order. -/
def first (f : ν → Outcome (Option α)) : List ν → Outcome (Option α)
  | [] => .ok none
  | v :: vs => do
      match ← f v with
      | some a => .ok (some a)
      | none => first f vs

/-- Search from `v`, at most `budget` nodes deep. -/
def search (look : ν → Outcome (Found ν α)) : Nat → ν → Outcome (Option α)
  | 0, _ => .ok none
  | budget + 1, v => do
      match ← look v with
      | .nothing => .ok none
      | .answer a => .ok (some a)
      | .follow w => search look budget w
      | .tryEach ws => first (search look budget) ws

/-! ## Trying in order -/

theorem first_ne_outOfFuel {f : ν → Outcome (Option α)} (hf : ∀ v, f v ≠ .outOfFuel) :
    ∀ {vs : List ν}, first f vs ≠ .outOfFuel := by
  intro vs
  induction vs with
  | nil => simp [first]
  | cons v vs ih =>
    refine Outcome.bind_ne_outOfFuel (hf v) fun r _ => ?_
    cases r with
    | some a => simp
    | none => exact ih

/-- The first answer is behind nodes that have none. -/
theorem first_eq_some_iff {f : ν → Outcome (Option α)} {a : α} : ∀ {vs : List ν},
    first f vs = .ok (some a) ↔ ∃ before v after, vs = before ++ v :: after ∧
      (∀ u ∈ before, f u = .ok none) ∧ f v = .ok (some a) := by
  intro vs
  induction vs with
  | nil => simp [first]
  | cons v vs ih =>
    constructor
    · intro h
      obtain ⟨r, hv, hr⟩ := Outcome.bind_eq_ok.mp h
      cases r with
      | some b =>
          have hb : b = a := by simpa using hr
          refine ⟨[], v, vs, rfl, fun u hu => absurd hu List.not_mem_nil, ?_⟩
          rw [hv, hb]
      | none =>
          obtain ⟨before, w, after, rfl, hbefore, hw⟩ := ih.mp hr
          refine ⟨v :: before, w, after, rfl, fun u hu => ?_, hw⟩
          rcases List.mem_cons.mp hu with rfl | hu
          · exact hv
          · exact hbefore u hu
    · rintro ⟨before, w, after, heq, hbefore, hw⟩
      cases before with
      | nil =>
          obtain ⟨rfl, rfl⟩ := List.cons.inj heq
          rw [first, hw]
          rfl
      | cons u before =>
          obtain ⟨rfl, rfl⟩ := List.cons.inj heq
          rw [first, hbefore v List.mem_cons_self, Outcome.ok_bind]
          exact ih.mpr ⟨before, w, after, rfl, fun u hu => hbefore u (List.mem_cons_of_mem _ hu),
            hw⟩

theorem first_eq_none {f : ν → Outcome (Option α)} :
    ∀ {vs : List ν}, first f vs = .ok none → ∀ v ∈ vs, f v = .ok none
  | v :: vs, h, w, hw => by
      obtain ⟨r, hv, hr⟩ := Outcome.bind_eq_ok.mp h
      cases r with
      | some b => simp at hr
      | none =>
          rcases List.mem_cons.mp hw with rfl | hw
          · exact hv
          · exact first_eq_none hr w hw

theorem first_ok {f : ν → Outcome (Option α)} :
    ∀ {vs : List ν}, (∀ v ∈ vs, ∃ r, f v = .ok r) → ∃ r, first f vs = .ok r := by
  intro vs
  induction vs with
  | nil =>
    intro _
    exact ⟨none, rfl⟩
  | cons v vs ih =>
    intro h
    obtain ⟨r, hv⟩ := h v List.mem_cons_self
    rw [first, hv, Outcome.ok_bind]
    cases r with
    | some a => exact ⟨some a, rfl⟩
    | none => exact ih fun w hw => h w (List.mem_cons_of_mem _ hw)

/-- Trying the images of a list is trying the list itself. -/
theorem first_map {μ : Type} (g : μ → ν) (f : ν → Outcome (Option α)) :
    ∀ vs : List μ, first f (vs.map g) = first (fun v => f (g v)) vs := by
  intro vs
  induction vs with
  | nil => rfl
  | cons v vs ih =>
    simp only [List.map_cons, first, ih]

/-! ## Walks -/

/-- `w` is `k` steps away from `v`. -/
inductive Walk (step : ν → ν → Prop) : Nat → ν → ν → Prop where
  | refl (v : ν) : Walk step 0 v v
  | cons {k : Nat} {v u w : ν} : step v u → Walk step k u w → Walk step (k + 1) v w

/-- `w` is one of the nodes that `v` sends the search to. -/
def Edge (look : ν → Outcome (Found ν α)) (v w : ν) : Prop :=
  look v = .ok (.follow w) ∨ ∃ ws, look v = .ok (.tryEach ws) ∧ w ∈ ws

/-- Walks of one step after the other end where there is none. -/
theorem Walk.end_unique {step : ν → ν → Prop} (hstep : ∀ {v u u'}, step v u → step v u' → u' = u)
    {k k' : Nat} {v w w' : ν} (h : Walk step k v w) (h' : Walk step k' v w')
    (hw : ∀ u, ¬ step w u) (hw' : ∀ u, ¬ step w' u) : w' = w := by
  induction h generalizing k' with
  | refl v =>
    cases h' with
    | refl => rfl
    | cons hs _ => exact absurd hs (hw _)
  | cons hs _ ih =>
    cases h' with
    | refl => exact absurd hs (hw' _)
    | cons hs' hrest =>
        obtain rfl := hstep hs hs'
        exact ih hrest hw

theorem Walk.mono {step step' : ν → ν → Prop} (h : ∀ v w, step v w → step' v w) {k : Nat}
    {v w : ν} (hw : Walk step k v w) : Walk step' k v w := by
  induction hw with
  | refl v => exact .refl v
  | cons hs _ ih => exact .cons (h _ _ hs) ih

theorem Walk.trans {step : ν → ν → Prop} {k j : Nat} {v u w : ν} (h : Walk step k v u)
    (h' : Walk step j u w) : Walk step (k + j) v w := by
  induction h with
  | refl v => rwa [Nat.zero_add]
  | @cons k v u w hs _ ih =>
    rw [Nat.add_right_comm]
    exact .cons hs (ih h')

/-! ## What the search returns -/

variable {look : ν → Outcome (Found ν α)}

/-- **An answer that the search returns is at a node within its budget.** -/
theorem search_eq_some {a : α} :
    ∀ {budget : Nat} {v : ν}, search look budget v = .ok (some a) →
      ∃ k < budget, ∃ w, Walk (Edge look) k v w ∧ look w = .ok (.answer a)
  | budget + 1, v, h => by
      obtain ⟨found, hv, hr⟩ := Outcome.bind_eq_ok.mp h
      cases found with
      | nothing => simp at hr
      | answer b =>
          have hb : b = a := by simpa using hr
          exact ⟨0, by omega, v, .refl v, by rw [hv, hb]⟩
      | follow u =>
          obtain ⟨k, hk, w, hwalk, hw⟩ := search_eq_some hr
          exact ⟨k + 1, by omega, w, .cons (.inl hv) hwalk, hw⟩
      | tryEach us =>
          obtain ⟨before, u, after, rfl, -, hr⟩ := first_eq_some_iff.mp hr
          obtain ⟨k, hk, w, hwalk, hw⟩ := search_eq_some hr
          have hedge : Edge look v u := .inr ⟨_, hv, List.mem_append_cons_self⟩
          exact ⟨k + 1, by omega, w, .cons hedge hwalk, hw⟩

/-- **A search that finds nothing has looked at every node within its budget**, and
there was no answer at any of them. -/
theorem search_eq_none :
    ∀ {budget : Nat} {v : ν}, search look budget v = .ok none →
      ∀ {k : Nat} {w : ν}, k < budget → Walk (Edge look) k v w →
        ∃ found, look w = .ok found ∧ ∀ a, found ≠ .answer a
  | budget + 1, v, h, k, w, hk, hwalk => by
      obtain ⟨found, hv, hr⟩ := Outcome.bind_eq_ok.mp h
      cases hwalk with
      | refl =>
          refine ⟨found, hv, ?_⟩
          rintro a rfl
          simp at hr
      | cons hedge hrest =>
          have hk' : _ < budget := Nat.lt_of_succ_lt_succ hk
          rcases hedge with hfollow | ⟨us, htry, hu⟩
          · obtain rfl : found = _ := by simpa [hv] using hfollow
            exact search_eq_none hr hk' hrest
          · obtain rfl : found = _ := by simpa [hv] using htry
            exact search_eq_none (first_eq_none hr _ hu) hk' hrest

/-- A search returns if every node within its budget can be looked at. -/
theorem search_ok :
    ∀ {budget : Nat} {v : ν},
      (∀ k < budget, ∀ w, Walk (Edge look) k v w → ∃ found, look w = .ok found) →
      ∃ r, search look budget v = .ok r := by
  intro budget
  induction budget with
  | zero =>
    intro _ _
    exact ⟨none, rfl⟩
  | succ budget ih =>
    intro v h
    obtain ⟨found, hv⟩ := h 0 (by omega) v (.refl v)
    rw [search, hv, Outcome.ok_bind]
    cases found with
    | nothing => exact ⟨none, rfl⟩
    | answer a => exact ⟨some a, rfl⟩
    | follow u =>
        exact ih fun k hk w hw => h (k + 1) (by omega) w (.cons (.inl hv) hw)
    | tryEach us =>
        refine first_ok fun u hu => ih fun k hk w hw => ?_
        exact h (k + 1) (by omega) w (.cons (.inr ⟨us, hv, hu⟩) hw)

/-! ## A search told by its steps -/

/-- Everything within the budget can be looked at, and there is no answer. -/
def Misses (look : ν → Outcome (Found ν α)) (budget : Nat) (v : ν) : Prop :=
  ∀ k < budget, ∀ w, Walk (Edge look) k v w → ∃ found, look w = .ok found ∧ ∀ a, found ≠ .answer a

/-- A search with this budget comes to the answer `a`: of several nodes, those before the one that
leads to it are searched in vain. -/
inductive Finds (look : ν → Outcome (Found ν α)) : Nat → ν → α → Prop where
  | answer {budget : Nat} {v : ν} {a : α} :
      look v = .ok (.answer a) → Finds look (budget + 1) v a
  | follow {budget : Nat} {v w : ν} {a : α} :
      look v = .ok (.follow w) → Finds look budget w a → Finds look (budget + 1) v a
  | tryEach {budget : Nat} {v w : ν} {before after : List ν} {a : α} :
      look v = .ok (.tryEach (before ++ w :: after)) → (∀ u ∈ before, Misses look budget u) →
      Finds look budget w a → Finds look (budget + 1) v a

theorem search_eq_none_iff {budget : Nat} {v : ν} :
    search look budget v = .ok none ↔ Misses look budget v := by
  constructor
  · intro h k hk w hwalk
    exact search_eq_none h hk hwalk
  · intro h
    obtain ⟨r, hr⟩ := search_ok fun k hk w hwalk =>
      let ⟨found, hfound, _⟩ := h k hk w hwalk
      ⟨found, hfound⟩
    cases r with
    | none => exact hr
    | some a =>
        obtain ⟨k, hk, w, hwalk, hlook⟩ := search_eq_some hr
        obtain ⟨found, hfound, hnot⟩ := h k hk w hwalk
        exact absurd (Outcome.ok.inj (hfound.symm.trans hlook)) (hnot a)

/-- **The search returns what its steps lead to.** -/
theorem search_eq_some_iff {a : α} : ∀ {budget : Nat} {v : ν},
    search look budget v = .ok (some a) ↔ Finds look budget v a := by
  intro budget
  induction budget with
  | zero =>
    intro v
    exact ⟨fun h => absurd h (by simp [search]), fun h => nomatch h⟩
  | succ budget ih =>
    intro v
    constructor
    · intro h
      obtain ⟨found, hv, hr⟩ := Outcome.bind_eq_ok.mp h
      cases found with
      | nothing => exact absurd hr (by simp)
      | answer b =>
          obtain rfl : b = a := by simpa using hr
          exact .answer hv
      | follow u => exact .follow hv (ih.mp hr)
      | tryEach us =>
          obtain ⟨before, w, after, rfl, hbefore, hw⟩ := first_eq_some_iff.mp hr
          exact .tryEach hv (fun u hu => search_eq_none_iff.mp (hbefore u hu)) (ih.mp hw)
    · intro h
      cases h with
      | answer hv =>
          rw [search, hv]
          rfl
      | follow hv hrest =>
          rw [search, hv, Outcome.ok_bind]
          exact ih.mpr hrest
      | tryEach hv hbefore hrest =>
          rw [search, hv, Outcome.ok_bind]
          exact first_eq_some_iff.mpr ⟨_, _, _, rfl,
            fun u hu => search_eq_none_iff.mpr (hbefore u hu), ih.mpr hrest⟩

/-- The nodes that the search only follows. -/
def Follows (look : ν → Outcome (Found ν α)) (v w : ν) : Prop := look v = .ok (.follow w)

theorem Follows.unique {v w w' : ν} (h : Follows look v w) (h' : Follows look v w') : w' = w := by
  have hfound := Outcome.ok.inj (h.symm.trans h')
  exact (Found.follow.inj hfound).symm

/-- To follow a node takes one off the budget. -/
theorem search_of_follows {v w : ν} {k : Nat} (h : Walk (Follows look) k v w) (budget : Nat) :
    search look (budget + k) v = search look budget w := by
  induction h with
  | refl v => rfl
  | @cons k v u w hs _ ih =>
    rw [← Nat.add_assoc, search, hs, Outcome.ok_bind]
    exact ih

/-- Behind the nodes that are only followed there is an answer, or there are several to try. -/
theorem Finds.end_of_follows {budget : Nat} {v : ν} {a : α} (h : Finds look budget v a) :
    ∃ k < budget, ∃ w, Walk (Follows look) k v w ∧
      (look w = .ok (.answer a) ∨
        (∃ ws, look w = .ok (.tryEach ws)) ∧ Finds look (budget - k) w a) := by
  induction h with
  | answer hv => exact ⟨0, Nat.succ_pos _, _, .refl _, .inl hv⟩
  | follow hv _ ih =>
    obtain ⟨k, hk, w, hwalk, hend⟩ := ih
    refine ⟨k + 1, Nat.succ_lt_succ hk, w, .cons hv hwalk, ?_⟩
    rwa [Nat.add_sub_add_right]
  | tryEach hv hbefore hrest _ =>
    exact ⟨0, Nat.succ_pos _, _, .refl _, .inr ⟨⟨_, hv⟩, .tryEach hv hbefore hrest⟩⟩

end Search
