import Mathlib.Data.List.Perm.Subperm
import Mathlib.Data.Set.Card

/-!
# Chains in a graph

A graph is its nodes' successors, in order and with repetitions. A chain is the list of
the positions it takes among them, so two edges from one node to another give two
chains: what is done once along every edge is done once for each chain.

A recursion over a graph that is not kept from visiting a node twice ends exactly if
its chains are bounded (`Within`), and over finitely many nodes they are bounded
exactly if no cycle can be reached (`Acyclic`).
-/

namespace Chains

variable {α : Type}

/-- Where the chain ends, if each of its positions is there. -/
def follow (next : α → List α) : α → List Nat → Option α
  | a, [] => some a
  | a, i :: is => ((next a)[i]?).bind fun b => follow next b is

/-- The chains from one node to another. -/
def chains (next : α → List α) (a b : α) : Set (List Nat) := {is | follow next a is = some b}

/-- No chain from `a` is longer than `n`. -/
def Within (next : α → List α) (n : Nat) (a : α) : Prop :=
  ∀ is b, follow next a is = some b → is.length ≤ n

/-- No node that can be reached from `a` can be reached from itself. -/
def Acyclic (next : α → List α) (a : α) : Prop :=
  ∀ is js b, follow next a is = some b → follow next b js = some b → js = []

variable {next : α → List α} {a b c : α} {is js : List Nat} {n m : Nat}

theorem follow_append :
    follow next a (is ++ js) = (follow next a is).bind fun b => follow next b js := by
  induction is generalizing a with
  | nil => rfl
  | cons i is ih =>
      rw [List.cons_append, follow, follow, Option.bind_assoc]
      congr 1
      funext b
      exact ih

theorem follow_append_of_eq (h : follow next a is = some b) :
    follow next a (is ++ js) = follow next b js := by
  rw [follow_append, h]
  rfl

/-- A chain starts with an edge. -/
theorem follow_cons {i : Nat} (h : follow next a (i :: is) = some b) :
    ∃ c ∈ next a, (next a)[i]? = some c ∧ follow next c is = some b := by
  obtain ⟨c, hc, h⟩ := Option.bind_eq_some_iff.mp h
  exact ⟨c, List.mem_of_getElem? hc, hc, h⟩

theorem exists_follow_of_mem (h : b ∈ next a) : ∃ i, follow next a [i] = some b := by
  obtain ⟨i, hi⟩ := List.getElem?_of_mem h
  exact ⟨i, by rw [follow, hi]; rfl⟩

/-- Some chain leads from one node to another. -/
def Reaches (next : α → List α) (a b : α) : Prop := ∃ is, follow next a is = some b

theorem Reaches.refl (a : α) : Reaches next a a := ⟨[], rfl⟩

theorem reaches_iff : Reaches next a b ↔ a = b ∨ ∃ c ∈ next a, Reaches next c b := by
  constructor
  · rintro ⟨is, hf⟩
    cases is with
    | nil => exact .inl (Option.some.inj hf)
    | cons i is =>
        obtain ⟨c, hc, -, hf⟩ := follow_cons hf
        exact .inr ⟨c, hc, is, hf⟩
  · rintro (rfl | ⟨c, hc, is, hf⟩)
    · exact .refl a
    · obtain ⟨i, hi⟩ := exists_follow_of_mem hc
      exact ⟨i :: is, (follow_append_of_eq hi).trans hf⟩

theorem Reaches.of_mem (hc : c ∈ next a) (h : Reaches next c b) : Reaches next a b :=
  reaches_iff.mpr (.inr ⟨c, hc, h⟩)

/-! ## Bounded chains -/

theorem Within.mono (h : Within next n a) (hnm : n ≤ m) : Within next m a := fun is b hf =>
  Nat.le_trans (h is b hf) hnm

theorem Within.tail (h : Within next (n + 1) a) (hb : b ∈ next a) : Within next n b := by
  intro is c hf
  obtain ⟨i, hi⟩ := exists_follow_of_mem hb
  have hle := h (i :: is) c ((follow_append_of_eq hi).trans hf)
  rw [List.length_cons] at hle
  omega

theorem Within.next_eq_nil (h : Within next 0 a) : next a = [] := by
  refine List.eq_nil_iff_forall_not_mem.mpr fun b hb => ?_
  obtain ⟨i, hi⟩ := exists_follow_of_mem hb
  exact absurd (h [i] b hi) (by simp)

theorem within_of_forall (h : ∀ b ∈ next a, Within next n b) : Within next (n + 1) a := by
  intro is c hf
  cases is with
  | nil => exact Nat.zero_le _
  | cons i is =>
      obtain ⟨b, hb, -, hf⟩ := follow_cons hf
      exact Nat.succ_le_succ (h b hb is c hf)

/-! ## Cycles -/

theorem follow_replicate (h : follow next a js = some a) :
    follow next a (List.replicate n js).flatten = some a := by
  induction n with
  | zero => rfl
  | succ n ih => rw [List.replicate_succ, List.flatten_cons, follow_append_of_eq h, ih]

/-- A cycle can be gone round more often than a bound allows. -/
theorem Within.acyclic (h : Within next n a) : Acyclic next a := by
  intro is js b hb hcycle
  have hround : follow next a (is ++ (List.replicate (n + 1) js).flatten) = some b :=
    (follow_append_of_eq hb).trans (follow_replicate hcycle)
  have hle := h _ b hround
  rw [List.length_append, List.length_flatten, List.map_replicate,
    List.sum_replicate_nat] at hle
  refine List.length_eq_zero_iff.mp ?_
  rcases Nat.eq_zero_or_pos js.length with h0 | hpos
  · exact h0
  · have := Nat.le_mul_of_pos_right (n + 1) hpos
    omega

theorem Acyclic.tail (h : Acyclic next a) (hb : b ∈ next a) : Acyclic next b := by
  intro is js c hc hcycle
  obtain ⟨i, hi⟩ := exists_follow_of_mem hb
  exact h (i :: is) js c ((follow_append_of_eq hi).trans hc) hcycle

/-- No node that is reached is reached again from one of its successors. -/
theorem Acyclic.not_reaches (h : Acyclic next a) (hb : Reaches next a b) (hc : c ∈ next b) :
    ¬ Reaches next c b := by
  rintro ⟨js, hcycle⟩
  obtain ⟨is, his⟩ := hb
  obtain ⟨i, hi⟩ := exists_follow_of_mem hc
  exact absurd (h is (i :: js) b his ((follow_append_of_eq hi).trans hcycle)) (by simp)

/-- The nodes that a chain has come through are distinct. -/
theorem Acyclic.length_add_le {nodes : List α} (hnodes : ∀ a, next a ≠ [] → a ∈ nodes) :
    ∀ (is : List Nat) (a b : α) (before : List α), Acyclic next a →
      before.Nodup → before ⊆ nodes →
      (∀ c ∈ before, ∃ js, js ≠ [] ∧ follow next c js = some a) →
      follow next a is = some b → before.length + is.length ≤ nodes.length
  | [], a, b, before, _, hnodup, hsub, _, _ => (List.subperm_of_subset hnodup hsub).length_le
  | i :: is, a, b, before, hacyclic, hnodup, hsub, hbefore, hf => by
      obtain ⟨c, hc, hi, hf⟩ := follow_cons hf
      have hstep : follow next a [i] = some c := by
        rw [follow, hi]
        rfl
      have ha : a ∈ nodes := hnodes a (List.ne_nil_of_mem hc)
      have hfresh : a ∉ before := by
        intro hmem
        obtain ⟨js, hjs, hcycle⟩ := hbefore a hmem
        exact hjs (hacyclic [] js a rfl hcycle)
      have hreach : ∀ x ∈ a :: before, ∃ js, js ≠ [] ∧ follow next x js = some c := by
        intro x hx
        rcases List.mem_cons.mp hx with rfl | hx
        · exact ⟨[i], List.cons_ne_nil _ _, hstep⟩
        · obtain ⟨js, -, hjs⟩ := hbefore x hx
          exact ⟨js ++ [i], by simp, (follow_append_of_eq hjs).trans hstep⟩
      have hle := Acyclic.length_add_le hnodes is c b (a :: before) (hacyclic.tail hc)
        (List.nodup_cons.mpr ⟨hfresh, hnodup⟩) (List.cons_subset.mpr ⟨ha, hsub⟩) hreach hf
      rw [List.length_cons] at hle ⊢
      omega

/-- **Over finitely many nodes, without a cycle, chains are bounded.** -/
theorem Acyclic.within {nodes : List α} (hnodes : ∀ a, next a ≠ [] → a ∈ nodes)
    (h : Acyclic next a) : Within next nodes.length a := by
  intro is b hf
  have hle := Acyclic.length_add_le hnodes is a b [] h List.nodup_nil (List.nil_subset _)
    (fun c hc => absurd hc List.not_mem_nil) hf
  simpa using hle

/-! ## Counting chains -/

/-- The chains whose first edge is at one of these positions: `bs` are the successors from position
`k` on. -/
def chainsThrough (next : α → List α) (k : Nat) (bs : List α) (b : α) : Set (List Nat) :=
  {is | ∃ i c js, bs[i]? = some c ∧ is = (k + i) :: js ∧ js ∈ chains next c b}

theorem chainsThrough_encard (next : α → List α) (b : α) : ∀ (k : Nat) (bs : List α),
    (chainsThrough next k bs b).encard = (bs.map fun c => (chains next c b).encard).sum
  | k, [] => by simp [chainsThrough]
  | k, c :: bs => by
      have hunion : chainsThrough next k (c :: bs) b
          = List.cons k '' chains next c b ∪ chainsThrough next (k + 1) bs b := by
        ext is
        constructor
        · rintro ⟨i, d, js, hd, rfl, hjs⟩
          cases i with
          | zero =>
              obtain rfl : c = d := Option.some.inj hd
              exact .inl ⟨js, hjs, rfl⟩
          | succ i => exact .inr ⟨i, d, js, hd, by rw [Nat.add_right_comm, Nat.add_assoc], hjs⟩
        · rintro (⟨js, hjs, rfl⟩ | ⟨i, d, js, hd, rfl, hjs⟩)
          · exact ⟨0, c, js, rfl, rfl, hjs⟩
          · exact ⟨i + 1, d, js, hd, by rw [Nat.add_right_comm, Nat.add_assoc], hjs⟩
      have hdisjoint : Disjoint (List.cons k '' chains next c b)
          (chainsThrough next (k + 1) bs b) := by
        rw [Set.disjoint_left]
        rintro _ ⟨js, -, rfl⟩ ⟨i, d, js', -, he, -⟩
        have := (List.cons.inj he).1
        omega
      rw [hunion, Set.encard_union_eq hdisjoint, (List.cons_injective).encard_image,
        chainsThrough_encard next b (k + 1) bs, List.map_cons, List.sum_cons]

/-- **A chain is empty or goes on from a successor.** -/
theorem chains_encard [DecidableEq α] (next : α → List α) (a b : α) :
    (chains next a b).encard
      = (if a = b then 1 else 0) + ((next a).map fun c => (chains next c b).encard).sum := by
  have hunion : chains next a b
      = (if a = b then {[]} else ∅) ∪ chainsThrough next 0 (next a) b := by
    ext is
    cases is with
    | nil =>
        split
        · simp_all [chains, chainsThrough, follow]
        · simp_all [chains, chainsThrough, follow]
    | cons i is =>
        split
        · simp [chains, chainsThrough, follow, Option.bind_eq_some_iff]
        · simp [chains, chainsThrough, follow, Option.bind_eq_some_iff]
  have hdisjoint : Disjoint (if a = b then ({[]} : Set (List Nat)) else ∅)
      (chainsThrough next 0 (next a) b) := by
    rw [Set.disjoint_left]
    rintro is his ⟨i, c, js, -, rfl, -⟩
    split at his
    · exact absurd his (by simp)
    · exact absurd his (by simp)
  rw [hunion, Set.encard_union_eq hdisjoint, chainsThrough_encard]
  split
  · rw [Set.encard_singleton]
  · rw [Set.encard_empty]

end Chains
