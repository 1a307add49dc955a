import Mathlib.Algebra.Group.Nat.Defs

/-!
# How a call can end

A call of a program without exceptions but with aborts ends in one of three ways:
it returns a value, it returns an error text, or it panics and takes the process
with it. A model that recurses on fuel has a fourth answer, `outOfFuel`, which is
not an answer of the program at all: a result that needs the program to *return*
has to rule it out.

`Exec` threads a state through such calls. The state survives an error and a
panic, so that what a failed call left behind can be talked about.

Fixed-width arithmetic is checked: a sum, difference or product that does not fit
panics, which is what a build with overflow checks does.
-/

/-- The result of a call. -/
inductive Outcome (α : Type) where
  /-- The call returned a value. -/
  | ok (a : α)
  /-- The call returned an error with this text. -/
  | err (msg : String)
  /-- The call panicked. -/
  | panic (msg : String)
  /-- The model's fuel ran out before the call ended. -/
  | outOfFuel
  deriving DecidableEq, Repr

namespace Outcome

variable {α β γ : Type}

/-- The call came back to its caller. -/
def Returns (x : Outcome α) : Prop := (∃ a, x = ok a) ∨ ∃ msg, x = err msg

/-- The call took the process with it. -/
def Panics (x : Outcome α) : Prop := ∃ msg, x = panic msg

@[simp] theorem not_panics_ok (a : α) : ¬ (ok a).Panics := by simp [Panics]

@[simp] theorem not_panics_err (msg : String) : ¬ (err msg : Outcome α).Panics := by simp [Panics]

@[simp] theorem not_panics_outOfFuel : ¬ (outOfFuel : Outcome α).Panics := by simp [Panics]

@[simp] theorem panics_panic (msg : String) : (panic msg : Outcome α).Panics := ⟨msg, rfl⟩

/-- A call that ends otherwise than by a panic comes back. -/
theorem returns_of_not_panics {x : Outcome α} (h : ¬ x.Panics) (hends : x ≠ outOfFuel) :
    x.Returns := by
  cases x with
  | ok a => exact .inl ⟨a, rfl⟩
  | err m => exact .inr ⟨m, rfl⟩
  | panic m => exact absurd (panics_panic m) h
  | outOfFuel => exact absurd rfl hends

/-- The call returned a value. -/
def isOk : Outcome α → Bool
  | ok _ => true
  | _ => false

theorem isOk_eq_true {x : Outcome α} : x.isOk = true ↔ ∃ a, x = ok a := by
  cases x <;> simp [isOk]

/-- Continue with the value of a call that returned one. -/
def bind (x : Outcome α) (f : α → Outcome β) : Outcome β :=
  match x with
  | ok a => f a
  | err m => err m
  | panic m => panic m
  | outOfFuel => outOfFuel

instance : Monad Outcome where
  pure := ok
  bind := bind

@[simp] theorem pure_eq (a : α) : (pure a : Outcome α) = ok a := rfl

@[simp] theorem ok_bind (a : α) (f : α → Outcome β) : (ok a >>= f) = f a := rfl

@[simp] theorem err_bind (m : String) (f : α → Outcome β) : (err m >>= f) = err m := rfl

@[simp] theorem panic_bind (m : String) (f : α → Outcome β) : (panic m >>= f) = panic m := rfl

@[simp] theorem outOfFuel_bind (f : α → Outcome β) : (outOfFuel >>= f) = outOfFuel := rfl

theorem bind_assoc (x : Outcome α) (f : α → Outcome β) (g : β → Outcome γ) :
    (x >>= f >>= g) = x >>= fun a => f a >>= g := by
  cases x <;> rfl

/-- A sequence returns only if both of its calls do. -/
theorem bind_eq_ok {x : Outcome α} {f : α → Outcome β} {b : β} :
    (x >>= f) = ok b ↔ ∃ a, x = ok a ∧ f a = ok b := by
  constructor
  · intro h
    cases x with
    | ok a => exact ⟨a, rfl, h⟩
    | err m => exact absurd h (by simp)
    | panic m => exact absurd h (by simp)
    | outOfFuel => exact absurd h (by simp)
  · rintro ⟨a, rfl, h⟩
    exact h

/-- What comes after a call only matters where the call returns. -/
theorem bind_congr_ok {x : Outcome α} {f g : α → Outcome β} (h : ∀ a, x = ok a → f a = g a) :
    (x >>= f) = (x >>= g) := by
  cases x with
  | ok a => exact h a rfl
  | err m => rfl
  | panic m => rfl
  | outOfFuel => rfl

/-- A call that hands on what it is given changes nothing. -/
theorem bind_eq_self {x : Outcome α} {f : α → Outcome α} (h : ∀ a, x = ok a → f a = ok a) :
    (x >>= f) = x := by
  refine (bind_congr_ok h).trans ?_
  cases x <;> rfl

/-- Fuel runs out in a sequence only inside one of its calls. -/
theorem bind_ne_outOfFuel {x : Outcome α} {f : α → Outcome β}
    (hx : x ≠ outOfFuel) (hf : ∀ a, x = ok a → f a ≠ outOfFuel) : (x >>= f) ≠ outOfFuel := by
  cases x with
  | ok a => exact hf a rfl
  | err m => simp
  | panic m => simp
  | outOfFuel => exact absurd rfl hx

/-- A sequence panics only inside one of its calls. -/
theorem not_panics_bind {x : Outcome α} {f : α → Outcome β} (hx : ¬ x.Panics)
    (hf : ∀ a, x = ok a → ¬ (f a).Panics) : ¬ (x >>= f).Panics := by
  cases x with
  | ok a => exact hf a rfl
  | err m => simp
  | panic m => exact absurd (panics_panic m) hx
  | outOfFuel => simp

/-- `Option::ok_or`, and `Result::map_err` on an error that carries nothing. -/
def okOr (o : Option α) (msg : String) : Outcome α :=
  match o with
  | some a => ok a
  | none => err msg

@[simp] theorem okOr_some (a : α) (msg : String) : okOr (some a) msg = ok a := rfl

@[simp] theorem okOr_none (msg : String) : okOr (none : Option α) msg = err msg := rfl

theorem okOr_eq_ok {o : Option α} {msg : String} {a : α} : okOr o msg = ok a ↔ o = some a := by
  cases o with
  | none => simp
  | some b => simp

theorem okOr_ne_outOfFuel (o : Option α) (msg : String) : okOr o msg ≠ outOfFuel := by
  cases o <;> simp

@[simp] theorem not_panics_okOr (o : Option α) (msg : String) : ¬ (okOr o msg).Panics := by
  cases o <;> simp

/-- `Option::expect` and `Option::unwrap`. -/
def orPanic (o : Option α) (msg : String) : Outcome α :=
  match o with
  | some a => ok a
  | none => panic msg

@[simp] theorem orPanic_some (a : α) (msg : String) : orPanic (some a) msg = ok a := rfl

@[simp] theorem orPanic_none (msg : String) : orPanic (none : Option α) msg = panic msg := rfl

theorem orPanic_eq_ok {o : Option α} {msg : String} {a : α} :
    orPanic o msg = ok a ↔ o = some a := by
  cases o with
  | none => simp
  | some b => simp

theorem orPanic_ne_outOfFuel (o : Option α) (msg : String) : orPanic o msg ≠ outOfFuel := by
  cases o <;> simp

/-! ## One call after another -/

/-- Call `f` on each item of a list in order, and keep what it returns. -/
def each (f : α → Outcome β) : List α → Outcome (List β)
  | [] => ok []
  | x :: xs => do
      let y ← f x
      let ys ← each f xs
      ok (y :: ys)

theorem each_append (f : α → Outcome β) (xs ys : List α) :
    each f (xs ++ ys) = each f xs >>= fun as => each f ys >>= fun bs => ok (as ++ bs) := by
  induction xs with
  | nil =>
    rw [List.nil_append, each, ok_bind]
    cases each f ys <;> rfl
  | cons x xs ih =>
    rw [List.cons_append, each, ih, each, bind_assoc]
    refine congrArg (f x >>= ·) (funext fun y => ?_)
    rw [bind_assoc, bind_assoc]
    refine congrArg (each f xs >>= ·) (funext fun as => ?_)
    rw [bind_assoc, ok_bind]
    rfl

theorem each_of_ok {f : α → Outcome β} {g : α → β} {xs : List α} (h : ∀ x ∈ xs, f x = ok (g x)) :
    each f xs = ok (xs.map g) := by
  induction xs with
  | nil => rfl
  | cons x xs ih =>
    rw [each, h x List.mem_cons_self, ok_bind, ih fun x' hx' => h x' (List.mem_cons_of_mem x hx')]
    rfl

/-- The calls return values exactly if each of them does. -/
theorem each_ok_iff {f : α → Outcome β} {xs : List α} :
    (∃ ys, each f xs = ok ys) ↔ ∀ x ∈ xs, ∃ y, f x = ok y := by
  induction xs with
  | nil => exact ⟨fun _ x hx => absurd hx List.not_mem_nil, fun _ => ⟨[], rfl⟩⟩
  | cons x xs ih =>
    rw [List.forall_mem_cons, ← ih]
    constructor
    · rintro ⟨ys, h⟩
      obtain ⟨y, hy, h⟩ := bind_eq_ok.mp h
      obtain ⟨ys', hys, -⟩ := bind_eq_ok.mp h
      exact ⟨⟨y, hy⟩, ys', hys⟩
    · rintro ⟨⟨y, hy⟩, ys, hys⟩
      exact ⟨y :: ys, by rw [each, hy, ok_bind, hys]; rfl⟩

/-- An error of the calls is the error of one of them. -/
theorem each_eq_err {f : α → Outcome β} {xs : List α} {m : String} (h : each f xs = err m) :
    ∃ x ∈ xs, f x = err m := by
  induction xs with
  | nil => exact absurd h (by simp [each])
  | cons x xs ih =>
    rw [each] at h
    cases hx : f x with
    | err m' =>
        rw [hx, err_bind] at h
        obtain rfl : m' = m := err.inj h
        exact ⟨x, List.mem_cons_self, hx⟩
    | panic m' => simp [hx] at h
    | outOfFuel => simp [hx] at h
    | ok y =>
        rw [hx, ok_bind] at h
        cases hxs : each f xs with
        | err m' =>
            rw [hxs, err_bind] at h
            obtain ⟨x', hx', he⟩ := ih (hxs.trans h)
            exact ⟨x', List.mem_cons_of_mem x hx', he⟩
        | panic m' => simp [hxs] at h
        | outOfFuel => simp [hxs] at h
        | ok ys => simp [hxs] at h

/-! ## What another call also returns -/

/-- `y` returns whatever `x` returns. -/
def Keeps (x y : Outcome α) : Prop := ∀ a, x = ok a → y = ok a

theorem Keeps.refl (x : Outcome α) : Keeps x x := fun _ h => h

theorem Keeps.bind {x y : Outcome α} {f g : α → Outcome β} (h : Keeps x y)
    (hfg : ∀ a, Keeps (f a) (g a)) : Keeps (x >>= f) (y >>= g) := by
  intro b hb
  obtain ⟨a, ha, hb⟩ := bind_eq_ok.mp hb
  exact bind_eq_ok.mpr ⟨a, h a ha, hfg a b hb⟩

theorem Keeps.okOr {o o' : Option α} {msg : String} (h : ∀ a, o = some a → o' = some a) :
    Keeps (Outcome.okOr o msg) (Outcome.okOr o' msg) :=
  fun a ha => okOr_eq_ok.mpr (h a (okOr_eq_ok.mp ha))

theorem Keeps.orPanic {o o' : Option α} {msg : String} (h : ∀ a, o = some a → o' = some a) :
    Keeps (Outcome.orPanic o msg) (Outcome.orPanic o' msg) :=
  fun a ha => orPanic_eq_ok.mpr (h a (orPanic_eq_ok.mp ha))

/-! ## Ending the same way -/

/-- Both calls return values, or both fail with the same text. -/
def Alike (x : Outcome α) (y : Outcome β) : Prop :=
  (x >>= fun _ => ok ()) = (y >>= fun _ => ok ())

theorem Alike.refl (x : Outcome α) : Alike x x := rfl

theorem Alike.trans {x : Outcome α} {y : Outcome β} {z : Outcome γ} (h : Alike x y)
    (h' : Alike y z) : Alike x z := Eq.trans h h'

theorem Alike.symm {x : Outcome α} {y : Outcome β} (h : Alike x y) : Alike y x := Eq.symm h

theorem Alike.of_ok (a : α) (b : β) : Alike (ok a) (ok b) := rfl

/-- What is made of the value in the end does not matter. -/
theorem Alike.map_ok (x : Outcome α) (f : α → β) : Alike (x >>= fun a => ok (f a)) x := by
  cases x <;> rfl

/-- Calls that end alike, and then go on with calls that end alike whatever was returned. -/
theorem Alike.bind {γ' : Type} {x : Outcome α} {y : Outcome β} {f : α → Outcome γ}
    {g : β → Outcome γ'} (h : Alike x y) (hfg : ∀ a b, Alike (f a) (g b)) :
    Alike (x >>= f) (y >>= g) := by
  cases x with
  | ok a =>
      obtain ⟨b, rfl, -⟩ := bind_eq_ok.mp (Eq.symm h)
      exact hfg a b
  | err m => cases y <;> simp_all [Alike]
  | panic m => cases y <;> simp_all [Alike]
  | outOfFuel => cases y <;> simp_all [Alike]

/-- A call that goes on in two ways that end alike. -/
theorem Alike.bind_left {x : Outcome α} {f : α → Outcome β} {g : α → Outcome γ}
    (hfg : ∀ a, Alike (f a) (g a)) : Alike (x >>= f) (x >>= g) := by
  cases x with
  | ok a => exact hfg a
  | err m => rfl
  | panic m => rfl
  | outOfFuel => rfl

theorem Alike.exists_ok {x : Outcome α} {y : Outcome β} (h : Alike x y) {b : β} (hy : y = ok b) :
    ∃ a, x = ok a := by
  rw [Alike, hy, ok_bind] at h
  obtain ⟨a, ha, -⟩ := bind_eq_ok.mp h
  exact ⟨a, ha⟩

theorem Alike.eq_err {x : Outcome α} {y : Outcome β} (h : Alike x y) {m : String}
    (hy : y = err m) : x = err m := by
  subst hy
  cases x <;> simp_all [Alike]

theorem Alike.eq_panic {x : Outcome α} {y : Outcome β} (h : Alike x y) {m : String}
    (hy : y = panic m) : x = panic m := by
  subst hy
  cases x <;> simp_all [Alike]

theorem Alike.returns {x : Outcome α} {y : Outcome β} (h : Alike x y) (hy : y.Returns) :
    x.Returns := by
  rcases hy with ⟨b, hb⟩ | ⟨m, hm⟩
  · exact .inl (h.exists_ok hb)
  · exact .inr ⟨m, h.eq_err hm⟩

/-! ## Checked arithmetic on `w`-bit words -/

/-- `a + b` on `w`-bit words. -/
def add (w a b : Nat) : Outcome Nat :=
  if a + b < 2 ^ w then ok (a + b) else panic "attempt to add with overflow"

/-- `a - b` on unsigned words. -/
def sub (a b : Nat) : Outcome Nat :=
  if b ≤ a then ok (a - b) else panic "attempt to subtract with overflow"

theorem add_of_lt {w a b : Nat} (h : a + b < 2 ^ w) : add w a b = ok (a + b) := if_pos h

theorem sub_of_le {a b : Nat} (h : b ≤ a) : sub a b = ok (a - b) := if_pos h

theorem add_eq_ok {w a b c : Nat} : add w a b = ok c ↔ a + b < 2 ^ w ∧ c = a + b := by
  unfold add
  split
  · rename_i h
    simp [h, eq_comm]
  · rename_i h
    simp [h]

theorem sub_eq_ok {a b c : Nat} : sub a b = ok c ↔ b ≤ a ∧ c = a - b := by
  unfold sub
  split
  · rename_i h
    simp [h, eq_comm]
  · rename_i h
    simp [h]

theorem add_ne_outOfFuel (w a b : Nat) : add w a b ≠ outOfFuel := by
  unfold add; split <;> simp

theorem sub_ne_outOfFuel (a b : Nat) : sub a b ≠ outOfFuel := by
  unfold sub; split <;> simp

end Outcome

/-- A call that may change a state of type `σ`. -/
def Exec (σ α : Type) : Type := σ → Outcome α × σ

namespace Exec

variable {σ α β : Type}

/-- Run one call after another, in the state the first one left. -/
def bind (x : Exec σ α) (f : α → Exec σ β) : Exec σ β := fun s =>
  match x s with
  | (.ok a, s') => f a s'
  | (.err m, s') => (.err m, s')
  | (.panic m, s') => (.panic m, s')
  | (.outOfFuel, s') => (.outOfFuel, s')

instance : Monad (Exec σ) where
  pure a := fun s => (.ok a, s)
  bind := bind

/-- A call that reads the state but cannot change it. -/
def lift (x : σ → Outcome α) : Exec σ α := fun s => (x s, s)

/-- A call that only changes the state. -/
def modify (f : σ → σ) : Exec σ Unit := fun s => (.ok (), f s)

/-- `Result::map_err`. -/
def mapErr (f : String → String) (x : Exec σ α) : Exec σ α := fun s =>
  match x s with
  | (.err m, s') => (.err (f m), s')
  | r => r

/-- A call that has nothing to do with the state. -/
instance : MonadLift Outcome (Exec σ) where
  monadLift x := fun s => (x, s)

/-- Call `f` on each item of a list in order, and keep what it returns. -/
def each (f : α → Exec σ β) : List α → Exec σ (List β)
  | [] => pure []
  | x :: xs => do
      let y ← f x
      let ys ← each f xs
      pure (y :: ys)

/-- Call `f` on each item of a list in order, and hand on what it returns. -/
def fold (f : α → β → Exec σ β) : List α → β → Exec σ β
  | [], b => pure b
  | x :: xs, b => do
      let b ← f x b
      fold f xs b

@[simp] theorem pure_run (a : α) (s : σ) : (pure a : Exec σ α) s = (.ok a, s) := rfl

@[simp] theorem lift_run (x : σ → Outcome α) (s : σ) : lift x s = (x s, s) := rfl

@[simp] theorem modify_run (f : σ → σ) (s : σ) : modify f s = (.ok (), f s) := rfl

@[simp] theorem liftM_run (x : Outcome α) (s : σ) : (liftM x : Exec σ α) s = (x, s) := rfl

theorem bind_run (x : Exec σ α) (f : α → Exec σ β) (s : σ) :
    (x >>= f) s = match x s with
      | (.ok a, s') => f a s'
      | (.err m, s') => (.err m, s')
      | (.panic m, s') => (.panic m, s')
      | (.outOfFuel, s') => (.outOfFuel, s') := rfl

@[simp] theorem modify_bind (f : σ → σ) (g : Unit → Exec σ β) (s : σ) :
    (modify f >>= g) s = g () (f s) := rfl

theorem eq_of_fst {x : Exec σ α} {s : σ} {a : α} (h : (x s).1 = .ok a) :
    x s = (.ok a, (x s).2) := Prod.ext h rfl

/-- What follows a call that returned. -/
theorem bind_of_ok {x : Exec σ α} {f : α → Exec σ β} {s s' : σ} {a : α}
    (h : x s = (.ok a, s')) : (x >>= f) s = f a s' := by
  rw [bind_run, h]

/-- A call that returned an error is the last one. -/
theorem bind_of_err {x : Exec σ α} {f : α → Exec σ β} {s s' : σ} {m : String}
    (h : x s = (.err m, s')) : (x >>= f) s = (.err m, s') := by
  rw [bind_run, h]

/-- A sequence returns only if both of its calls do. -/
theorem bind_eq_ok {x : Exec σ α} {f : α → Exec σ β} {s s'' : σ} {b : β} :
    (x >>= f) s = (.ok b, s'') ↔ ∃ a s', x s = (.ok a, s') ∧ f a s' = (.ok b, s'') := by
  rw [bind_run]
  cases hx : x s with
  | mk o s' =>
    cases o with
    | ok a =>
        constructor
        · intro h; exact ⟨a, s', rfl, h⟩
        · rintro ⟨a', s1, he, h⟩
          injection he with h1 h2
          injection h1 with h1
          subst h1; subst h2
          exact h
    | err m => simp
    | panic m => simp
    | outOfFuel => simp

/-- Fuel runs out in a sequence only inside one of its calls. -/
theorem bind_ne_outOfFuel {x : Exec σ α} {f : α → Exec σ β} {s : σ} (hx : (x s).1 ≠ .outOfFuel)
    (hf : ∀ a s', x s = (.ok a, s') → (f a s').1 ≠ .outOfFuel) :
    ((x >>= f) s).1 ≠ .outOfFuel := by
  rw [bind_run]
  cases hr : x s with
  | mk r s' =>
    cases r with
    | ok a => exact hf a s' hr
    | err m => simp
    | panic m => simp
    | outOfFuel =>
        rw [hr] at hx
        exact absurd rfl hx

theorem not_panics_bind {x : Exec σ α} {f : α → Exec σ β} {s : σ} (hx : ¬ (x s).1.Panics)
    (hf : ∀ a s', x s = (.ok a, s') → ¬ (f a s').1.Panics) : ¬ ((x >>= f) s).1.Panics := by
  rw [bind_run]
  cases hr : x s with
  | mk r s' =>
    cases r with
    | ok a => exact hf a s' hr
    | err m => simp
    | panic m =>
        rw [hr] at hx
        exact absurd (Outcome.panics_panic m) hx
    | outOfFuel => simp

theorem bind_outOfFuel {x : Exec σ α} {f : α → Exec σ β} {s : σ} (hx : (x s).1 = .outOfFuel) :
    ((x >>= f) s).1 = .outOfFuel := by
  rw [bind_run]
  cases hr : x s with
  | mk r s' =>
    rw [hr] at hx
    obtain rfl : r = .outOfFuel := hx
    rfl

theorem bind_fst_of_err {x : Exec σ α} {f : α → Exec σ β} {s : σ} {m : String}
    (hx : (x s).1 = .err m) : ((x >>= f) s).1 = .err m := by
  have hpair : x s = (.err m, (x s).2) := Prod.ext hx rfl
  rw [bind_of_err hpair]

theorem lift_eq_ok {x : σ → Outcome α} {s s' : σ} {a : α} :
    lift x s = (.ok a, s') ↔ x s = .ok a ∧ s' = s := by
  simp [lift, eq_comm]

theorem mapErr_eq_ok {f : String → String} {x : Exec σ α} {s s' : σ} {a : α} :
    mapErr f x s = (.ok a, s') ↔ x s = (.ok a, s') := by
  unfold mapErr
  split
  · rename_i hx
    rw [hx]
    simp
  · rfl

theorem liftM_eq_ok {x : Outcome α} {s s' : σ} {a : α} :
    (liftM x : Exec σ α) s = (.ok a, s') ↔ x = .ok a ∧ s' = s := by
  simp [eq_comm]

/-! ## One call after another -/

theorem each_ne_outOfFuel {f : α → Exec σ β} : ∀ {xs : List α} {s : σ},
    (∀ x ∈ xs, ∀ s, (f x s).1 ≠ .outOfFuel) → (each f xs s).1 ≠ .outOfFuel := by
  intro xs
  induction xs with
  | nil =>
    intro _ _
    simp [each]
  | cons x xs ih =>
    intro s h
    have hrest : ∀ s, (each f xs s).1 ≠ .outOfFuel := fun s =>
      ih fun x' hmem => h x' (List.mem_cons_of_mem x hmem)
    refine bind_ne_outOfFuel (h x List.mem_cons_self s) fun y s₁ _ => ?_
    exact bind_ne_outOfFuel (hrest s₁) fun ys s₂ _ => by simp

theorem not_panics_each {f : α → Exec σ β} : ∀ {xs : List α} {s : σ},
    (∀ x ∈ xs, ∀ s, ¬ (f x s).1.Panics) → ¬ (each f xs s).1.Panics := by
  intro xs
  induction xs with
  | nil =>
    intro _ _
    simp [each]
  | cons x xs ih =>
    intro s h
    have hrest : ∀ s, ¬ (each f xs s).1.Panics := fun s =>
      ih fun x' hmem => h x' (List.mem_cons_of_mem x hmem)
    refine not_panics_bind (h x List.mem_cons_self s) fun y s₁ _ => ?_
    exact not_panics_bind (hrest s₁) fun ys s₂ _ => by simp

theorem fold_append {f : α → β → Exec σ β} {ys : List α} : ∀ {xs : List α} {b c : β} {s s'' : σ},
    fold f (xs ++ ys) b s = (.ok c, s'') ↔
      ∃ b' s', fold f xs b s = (.ok b', s') ∧ fold f ys b' s' = (.ok c, s'') := by
  intro xs
  induction xs with
  | nil =>
    intro b c s s''
    constructor
    · intro h
      exact ⟨b, s, rfl, h⟩
    · rintro ⟨b', s', hnil, h⟩
      obtain ⟨hb, rfl⟩ := Prod.mk.inj hnil
      obtain rfl := Outcome.ok.inj hb
      exact h
  | cons x xs ih =>
    intro b c s s''
    constructor
    · intro h
      obtain ⟨b₁, s₁, hx, hrest⟩ := bind_eq_ok.mp h
      obtain ⟨b', s', hxs, hys⟩ := ih.mp hrest
      exact ⟨b', s', bind_eq_ok.mpr ⟨b₁, s₁, hx, hxs⟩, hys⟩
    · rintro ⟨b', s', h, hys⟩
      obtain ⟨b₁, s₁, hx, hxs⟩ := bind_eq_ok.mp h
      exact bind_eq_ok.mpr ⟨b₁, s₁, hx, ih.mpr ⟨b', s', hxs, hys⟩⟩

/-- **The rule for the calls on a list**: what each of them keeps, all of them keep. -/
theorem fold_induction {f : α → β → Exec σ β} {P : β → σ → Prop} : ∀ {xs : List α} {b c : β}
    {s s'' : σ}, (∀ x ∈ xs, ∀ b s b' s', P b s → f x b s = (.ok b', s') → P b' s') → P b s →
      fold f xs b s = (.ok c, s'') → P c s'' := by
  intro xs
  induction xs with
  | nil =>
    intro b c s s'' _ hP h
    obtain ⟨hb, rfl⟩ := Prod.mk.inj h
    exact Outcome.ok.inj hb ▸ hP
  | cons x xs ih =>
    intro b c s s'' hstep hP h
    obtain ⟨b₁, s₁, hx, hrest⟩ := bind_eq_ok.mp h
    exact ih (fun x' hx' => hstep x' (List.mem_cons_of_mem x hx'))
      (hstep x List.mem_cons_self b s b₁ s₁ hP hx) hrest

/-- The first error ends the calls. -/
theorem each_err {f : α → Exec σ β} {x : α} {rest : List α} {m : String} :
    ∀ {before : List α} {ys : List β} {s s' s'' : σ}, each f before s = (.ok ys, s') →
      f x s' = (.err m, s'') → each f (before ++ x :: rest) s = (.err m, s'') := by
  intro before
  induction before with
  | nil =>
    intro ys s s' s'' h hx
    obtain rfl : s = s' := (Prod.mk.inj h).2
    exact bind_of_err hx
  | cons y before ih =>
    intro ys s s' s'' h hx
    obtain ⟨z, s₁, hy, h₁⟩ := bind_eq_ok.mp h
    obtain ⟨zs, s₂, hbefore, h₂⟩ := bind_eq_ok.mp h₁
    obtain rfl : s₂ = s' := (Prod.mk.inj h₂).2
    rw [List.cons_append, each, bind_of_ok hy]
    exact bind_of_err (ih hbefore hx)

/-- The calls of `f` on the items of a list, with the states between them. -/
inductive Runs (f : α → Exec σ β) : List α → σ → List β → σ → Prop where
  | nil (s : σ) : Runs f [] s [] s
  | cons {x : α} {xs : List α} {y : β} {ys : List β} {s s' s'' : σ} :
      f x s = (.ok y, s') → Runs f xs s' ys s'' → Runs f (x :: xs) s (y :: ys) s''

theorem each_eq_ok {f : α → Exec σ β} : ∀ {xs : List α} {ys : List β} {s s'' : σ},
    each f xs s = (.ok ys, s'') ↔ Runs f xs s ys s'' := by
  intro xs
  induction xs with
  | nil =>
    intro ys s s''
    constructor
    · intro h
      obtain ⟨hys, rfl⟩ := Prod.mk.inj h
      obtain rfl : [] = ys := Outcome.ok.inj hys
      exact .nil _
    · intro h
      cases h
      rfl
  | cons x xs ih =>
    intro ys s s''
    constructor
    · intro h
      obtain ⟨y, s₁, hx, h₁⟩ := bind_eq_ok.mp h
      obtain ⟨ys', s₂, hxs, h₂⟩ := bind_eq_ok.mp h₁
      obtain ⟨hys, rfl⟩ := Prod.mk.inj h₂
      obtain rfl : y :: ys' = ys := Outcome.ok.inj hys
      exact .cons hx (ih.mp hxs)
    · intro h
      cases h with
      | cons hx hxs =>
          rw [each, bind_of_ok hx, bind_of_ok (ih.mpr hxs)]
          rfl

namespace Runs

variable {f : α → Exec σ β} {xs : List α} {ys : List β} {s s'' : σ}

theorem length_eq (h : Runs f xs s ys s'') : ys.length = xs.length := by
  induction h with
  | nil => rfl
  | cons _ _ ih => rw [List.length_cons, List.length_cons, ih]

theorem of_map {γ : Type} {g : γ → α} {zs : List γ} (h : Runs f (zs.map g) s ys s'') :
    Runs (fun z => f (g z)) zs s ys s'' := by
  induction zs generalizing s ys with
  | nil =>
      cases h
      exact .nil _
  | cons z zs ih =>
      cases h with
      | cons hz hzs => exact .cons hz (ih hzs)

theorem exists_of_mem (h : Runs f xs s ys s'') {x : α} (hx : x ∈ xs) :
    ∃ y s₁ s₂, f x s₁ = (.ok y, s₂) := by
  induction h with
  | nil => exact absurd hx List.not_mem_nil
  | @cons x₀ xs y ys s s' s'' hx₀ _ ih =>
      rcases List.mem_cons.mp hx with rfl | hx
      · exact ⟨y, s, s', hx₀⟩
      · exact ih hx

/-- The call on one item, and the state the calls before it left. -/
theorem at_index (h : Runs f xs s ys s'') : ∀ {k : Nat} {x : α}, xs[k]? = some x →
    ∃ y s₁ s₂, ys[k]? = some y ∧ Runs f (xs.take k) s (ys.take k) s₁ ∧ f x s₁ = (.ok y, s₂) := by
  induction h with
  | nil => intro k x hk; simp at hk
  | @cons x₀ xs y₀ ys s s' s'' hx hxs ih =>
      intro k x hk
      cases k with
      | zero =>
          obtain rfl : x₀ = x := by simpa using hk
          exact ⟨y₀, s, s', rfl, .nil s, hx⟩
      | succ k =>
          obtain ⟨y, s₁, s₂, hy, hbefore, hcall⟩ := ih (by simpa using hk)
          exact ⟨y, s₁, s₂, by simpa using hy, .cons hx hbefore, hcall⟩

end Runs

end Exec
