import Mathlib.Data.List.Pairwise
import Dynld.Lib.Memory
import Dynld.Lib.Outcome

/-!
# Patching memory

A list of patches is applied in order. Each computes a word from the memory it finds
and puts it in its slot. When the words are computed from bytes that no slot touches,
the patches cannot see one another; when moreover the slots are disjoint, nothing
depends on the order: neither the memory that results, nor whether a patch fails.
-/

namespace Patch

variable {ι : Type}

/-- One patch: compute a word, and put it at `a`. -/
def one (w a : Nat) (word : Mem → Outcome Nat) : Exec Mem Unit := do
  let v ← Exec.lift word
  Exec.modify fun m => m.writeWord w a v

/-- Apply patches in order, up to the first one that fails. -/
def run (w : Nat) (slot : ι → Nat) (word : Mem → ι → Outcome Nat) : List ι → Exec Mem Unit
  | [] => pure ()
  | i :: is => do
      one w (slot i) fun m => word m i
      run w slot word is

theorem one_of_ok {w a v : Nat} {word : Mem → Outcome Nat} {m : Mem} (h : word m = .ok v) :
    one w a word m = (.ok (), m.writeWord w a v) := by
  have hlift : Exec.lift word m = (.ok v, m) := by rw [Exec.lift_run, h]
  rw [one, Exec.bind_of_ok hlift, Exec.modify_run]

theorem one_eq_ok {w a : Nat} {word : Mem → Outcome Nat} {m m' : Mem} :
    one w a word m = (.ok (), m') ↔ ∃ v, word m = .ok v ∧ m' = m.writeWord w a v := by
  constructor
  · intro h
    obtain ⟨v, m₁, hlift, hmod⟩ := Exec.bind_eq_ok.mp h
    obtain ⟨hv, rfl⟩ := Exec.lift_eq_ok.mp hlift
    exact ⟨v, hv, (Prod.mk.inj hmod).2.symm⟩
  · rintro ⟨v, hv, rfl⟩
    exact one_of_ok hv

/-- The memory after the patches wrote these values. -/
def patched (w : Nat) (slot : ι → Nat) (value : ι → Nat) (is : List ι) (m : Mem) : Mem :=
  is.foldl (fun m i => m.writeWord w (slot i) (value i)) m

/-- The two memories agree on some ranges. -/
def Agree (ranges : List ByteRange) (m m' : Mem) : Prop := ∀ r ∈ ranges, ∀ x ∈ r, m' x = m x

/-- The value a patch computes. -/
def valueAt (word : Mem → ι → Outcome Nat) (m : Mem) (i : ι) : Nat :=
  match word m i with
  | .ok v => v
  | _ => 0

theorem valueAt_of_ok {word : Mem → ι → Outcome Nat} {m : Mem} {i : ι} {v : Nat}
    (h : word m i = .ok v) : valueAt word m i = v := by
  rw [valueAt, h]

section

variable {w : Nat} {slot : ι → Nat} {value : ι → Nat} {is : List ι} {m : Mem}

/-- Only slots are written. -/
theorem patched_of_notMem {x : Nat} (h : ∀ i ∈ is, x ∉ (⟨slot i, w⟩ : ByteRange)) :
    patched w slot value is m x = m x := by
  induction is generalizing m with
  | nil => rfl
  | cons i is ih =>
      have hrest := ih (m := m.writeWord w (slot i) (value i))
        fun j hj => h j (List.mem_cons_of_mem i hj)
      exact hrest.trans (Mem.writeWord_of_notMem (h i List.mem_cons_self))

theorem agree_patched {ranges : List ByteRange} (m : Mem) (value : ι → Nat)
    (h : ∀ i ∈ is, ∀ r ∈ ranges, ByteRange.Apart ⟨slot i, w⟩ r) :
    Agree ranges m (patched w slot value is m) :=
  fun r hr _ hx => patched_of_notMem fun i hi hslot => h i hi r hr _ hslot hx

/-- Patches with disjoint slots can be applied in any order. -/
theorem patched_perm {js : List ι} (hp : is.Perm js)
    (hd : is.Pairwise fun i j => ByteRange.Apart ⟨slot i, w⟩ ⟨slot j, w⟩) :
    patched w slot value is m = patched w slot value js m := by
  refine hp.foldl_eq' ?_ m
  intro i hi j hj m
  by_cases he : i = j
  · rw [he]
  · have hsymm : Std.Symm fun i j => ByteRange.Apart ⟨slot i, w⟩ ⟨slot j, w⟩ :=
      ⟨fun _ _ h => h.symm⟩
    have hapart : ByteRange.Apart ⟨slot i, w⟩ ⟨slot j, w⟩ := hd.forall hi hj he
    exact Mem.writeWord_comm hapart

theorem patched_append {js : List ι} :
    patched w slot value js (patched w slot value is m) = patched w slot value (is ++ js) m :=
  (List.foldl_append).symm

end

/-! ## Running -/

variable {w : Nat} {slot : ι → Nat} {word : Mem → ι → Outcome Nat} {ranges : List ByteRange}

theorem run_append {is js : List ι} {m m' : Mem} :
    run w slot word (is ++ js) m = (.ok (), m') ↔
      ∃ mid, run w slot word is m = (.ok (), mid) ∧ run w slot word js mid = (.ok (), m') := by
  induction is generalizing m with
  | nil =>
      constructor
      · intro h
        exact ⟨m, rfl, h⟩
      · rintro ⟨mid, hnil, h⟩
        rwa [(Prod.mk.inj hnil).2]
  | cons i is ih =>
      constructor
      · intro h
        obtain ⟨u, m₁, hone, hrest⟩ := Exec.bind_eq_ok.mp h
        obtain ⟨mid, his, hjs⟩ := ih.mp hrest
        exact ⟨mid, Exec.bind_eq_ok.mpr ⟨u, m₁, hone, his⟩, hjs⟩
      · rintro ⟨mid, h, hjs⟩
        obtain ⟨u, m₁, hone, his⟩ := Exec.bind_eq_ok.mp h
        exact Exec.bind_eq_ok.mpr ⟨u, m₁, hone, ih.mpr ⟨mid, his, hjs⟩⟩

/-- Whatever the patches compute, only slots are written. -/
theorem run_of_notMem {is : List ι} {m m' : Mem} {x : Nat}
    (h : run w slot word is m = (.ok (), m')) (hx : ∀ i ∈ is, x ∉ (⟨slot i, w⟩ : ByteRange)) :
    m' x = m x := by
  induction is generalizing m with
  | nil => rw [(Prod.mk.inj h).2]
  | cons i is ih =>
      obtain ⟨_, m₁, hone, hrest⟩ := Exec.bind_eq_ok.mp h
      obtain ⟨v, -, rfl⟩ := one_eq_ok.mp hone
      have hkeep := ih hrest fun j hj => hx j (List.mem_cons_of_mem i hj)
      exact hkeep.trans (Mem.writeWord_of_notMem (hx i List.mem_cons_self))

/-- However the run ends, only slots are written. -/
theorem run_keeps {is : List ι} {m : Mem} {x : Nat}
    (hx : ∀ i ∈ is, x ∉ (⟨slot i, w⟩ : ByteRange)) : (run w slot word is m).2 x = m x := by
  induction is generalizing m with
  | nil => rfl
  | cons i is ih =>
      have hi := hx i List.mem_cons_self
      cases hword : word m i with
      | ok v =>
          have hkeep := ih (m := m.writeWord w (slot i) v)
            fun j hj => hx j (List.mem_cons_of_mem i hj)
          rw [run, Exec.bind_of_ok (one_of_ok hword)]
          exact hkeep.trans (Mem.writeWord_of_notMem hi)
      | err msg => simp [run, one, Exec.bind_run, hword]
      | panic msg => simp [run, one, Exec.bind_run, hword]
      | outOfFuel => simp [run, one, Exec.bind_run, hword]

/-- Where the slots keep a fact under which no word panics, the run does not panic. -/
theorem not_panics_run {P : Mem → Prop} {is : List ι} {m : Mem}
    (hword : ∀ i ∈ is, ∀ m, P m → ¬ (word m i).Panics)
    (hkeep : ∀ i ∈ is, ∀ m v, P m → P (m.writeWord w (slot i) v)) (hm : P m) :
    ¬ (run w slot word is m).1.Panics := by
  induction is generalizing m with
  | nil => simp [run]
  | cons i is ih =>
      have hi : ¬ (word m i).Panics := hword i List.mem_cons_self m hm
      refine Exec.not_panics_bind ?_ fun _ m₁ hone => ?_
      · exact Exec.not_panics_bind hi fun v _ _ => by simp
      · obtain ⟨v, -, rfl⟩ := one_eq_ok.mp hone
        exact ih (fun j hj => hword j (List.mem_cons_of_mem i hj))
          (fun j hj => hkeep j (List.mem_cons_of_mem i hj)) (hkeep i List.mem_cons_self m v hm)

/-- The first patch whose word cannot be computed ends the run. -/
theorem run_of_err {before after : List ι} {i : ι} {m mid : Mem} {msg : String}
    (hbefore : run w slot word before m = (.ok (), mid)) (hi : word mid i = .err msg) :
    (run w slot word (before ++ i :: after) m).1 = .err msg := by
  induction before generalizing m with
  | nil =>
      obtain rfl : m = mid := (Prod.mk.inj hbefore).2
      have hlift : Exec.lift (fun m => word m i) m = (.err msg, m) := by rw [Exec.lift_run, hi]
      have hone : one w (slot i) (fun m => word m i) m = (.err msg, m) := Exec.bind_of_err hlift
      rw [List.nil_append, run, Exec.bind_of_err hone]
  | cons j before ih =>
      obtain ⟨_, m₁, hone, hrest⟩ := Exec.bind_eq_ok.mp hbefore
      rw [List.cons_append, run, Exec.bind_of_ok hone]
      exact ih hrest

/-- **A slot keeps its word** if no later patch writes to it. The word is computed from the memory
that the earlier patches left. -/
theorem run_slot {before after : List ι} {i : ι} {m m' : Mem}
    (h : run w slot word (before ++ i :: after) m = (.ok (), m'))
    (hafter : ∀ j ∈ after, ByteRange.Apart ⟨slot i, w⟩ ⟨slot j, w⟩) :
    ∃ mid v, run w slot word before m = (.ok (), mid) ∧ word mid i = .ok v ∧
      m'.readWord w (slot i) = v % 256 ^ w := by
  obtain ⟨mid, hbefore, hrest⟩ := run_append.mp h
  obtain ⟨_, m₁, hone, hrest⟩ := Exec.bind_eq_ok.mp hrest
  obtain ⟨v, hv, rfl⟩ := one_eq_ok.mp hone
  refine ⟨mid, v, hbefore, hv, ?_⟩
  have hkeep : m'.readWord w (slot i) = (mid.writeWord w (slot i) v).readWord w (slot i) :=
    Mem.readWord_congr fun x hx => run_of_notMem hrest fun j hj => hafter j hj x hx
  rw [hkeep, Mem.readWord_writeWord_mod]

/-- Where no two slots overlap, every slot keeps its word. -/
theorem run_slot_of_mem {is : List ι} {i : ι} {m m' : Mem} (h : run w slot word is m = (.ok (), m'))
    (hslots : is.Pairwise fun i j => ByteRange.Apart ⟨slot i, w⟩ ⟨slot j, w⟩) (hi : i ∈ is) :
    ∃ before after mid v, is = before ++ i :: after ∧ run w slot word before m = (.ok (), mid) ∧
      word mid i = .ok v ∧ m'.readWord w (slot i) = v % 256 ^ w := by
  obtain ⟨before, after, rfl⟩ := List.append_of_mem hi
  have hafter := (List.pairwise_cons.mp (List.pairwise_append.mp hslots).2.1).1
  obtain ⟨mid, v, hbefore, hv, hread⟩ := run_slot h hafter
  exact ⟨before, after, mid, v, rfl, hbefore, hv, hread⟩

/-- **The run of patches that do not see one another.** It returns exactly if each of them would
on the memory `m₀` that the run set out from, and then it leaves the values they have there. -/
theorem run_eq_ok {is : List ι} {m₀ m m' : Mem}
    (hword : ∀ m m' i, Agree ranges m m' → word m' i = word m i)
    (hslots : ∀ i ∈ is, ∀ r ∈ ranges, ByteRange.Apart ⟨slot i, w⟩ r)
    (hm : Agree ranges m₀ m) :
    run w slot word is m = (.ok (), m') ↔
      (∀ i ∈ is, ∃ v, word m₀ i = .ok v) ∧ m' = patched w slot (valueAt word m₀) is m := by
  induction is generalizing m with
  | nil => simp [run, patched, eq_comm]
  | cons i is ih =>
      have hi := hslots i List.mem_cons_self
      -- the slot of `i` is apart from all that the other patches look at
      have hkeep : ∀ v, Agree ranges m₀ (m.writeWord w (slot i) v) := fun v r hr x hx =>
        (Mem.writeWord_of_notMem ((hi r hr).symm x hx)).trans (hm r hr x hx)
      have hstep : ∀ v, word m₀ i = .ok v →
          run w slot word (i :: is) m = run w slot word is (m.writeWord w (slot i) v) := by
        intro v hv
        rw [run, Exec.bind_of_ok (one_of_ok ((hword _ _ i hm).trans hv))]
      constructor
      · intro h
        obtain ⟨_, m₁, hone, -⟩ := Exec.bind_eq_ok.mp h
        obtain ⟨v, hv, -⟩ := one_eq_ok.mp hone
        rw [hword _ _ i hm] at hv
        rw [hstep v hv] at h
        obtain ⟨hall, hm'⟩ :=
          (ih (fun j hj => hslots j (List.mem_cons_of_mem i hj)) (hkeep v)).mp h
        refine ⟨?_, ?_⟩
        · intro j hj
          rcases List.mem_cons.mp hj with rfl | hj
          · exact ⟨v, hv⟩
          · exact hall j hj
        · rw [hm', patched, patched, List.foldl_cons, valueAt_of_ok hv]
      · rintro ⟨hall, hm'⟩
        obtain ⟨v, hv⟩ := hall i List.mem_cons_self
        rw [hstep v hv, ih (fun j hj => hslots j (List.mem_cons_of_mem i hj)) (hkeep v)]
        refine ⟨fun j hj => hall j (List.mem_cons_of_mem i hj), ?_⟩
        rw [hm', patched, patched, List.foldl_cons, valueAt_of_ok hv]

end Patch
