/-!
# Linked lists in memory

A linked list is a link function, which says for each node where the next one is,
and a path along it. `Seg next a nodes b` is the path from `a` through `nodes` to
`b`; a list that ends with a null link is a segment up to `0`.

An edit changes the links of few nodes. `Seg.congr` moves a segment to link
functions that agree on its nodes, and `Seg.unlink` is the one edit of its links
that takes a node out.
-/

namespace Linked

/-- Following `next` from `a` visits `nodes` and arrives at `b`. -/
def Seg (next : Nat → Nat) : Nat → List Nat → Nat → Prop
  | a, [], b => a = b
  | a, n :: nodes, b => a = n ∧ Seg next (next n) nodes b

variable {next next' : Nat → Nat} {a b : Nat}

theorem seg_append : ∀ {a : Nat} {xs ys : List Nat},
    Seg next a (xs ++ ys) b ↔ ∃ m, Seg next a xs m ∧ Seg next m ys b
  | a, [], ys => ⟨fun h => ⟨a, rfl, h⟩, fun ⟨_, he, h⟩ => by rw [he]; exact h⟩
  | a, x :: xs, ys => by
      rw [List.cons_append]
      constructor
      · rintro ⟨ha, h⟩
        obtain ⟨m, h1, h2⟩ := seg_append.mp h
        exact ⟨m, ⟨ha, h1⟩, h2⟩
      · rintro ⟨m, ⟨ha, h1⟩, h2⟩
        exact ⟨ha, seg_append.mpr ⟨m, h1, h2⟩⟩

theorem Seg.congr : ∀ {a : Nat} {nodes : List Nat}, Seg next a nodes b →
    (∀ n ∈ nodes, next' n = next n) → Seg next' a nodes b
  | _, [], h, _ => h
  | _, n :: nodes, ⟨ha, h⟩, hag => by
      refine ⟨ha, ?_⟩
      rw [hag n List.mem_cons_self]
      exact Seg.congr h fun m hm => hag m (List.mem_cons_of_mem _ hm)

/-- A list ends at its first null link, so it is the only one there is. -/
theorem Seg.unique : ∀ {a : Nat} {xs ys : List Nat}, Seg next a xs 0 → Seg next a ys 0 →
    (∀ x ∈ xs, x ≠ 0) → (∀ y ∈ ys, y ≠ 0) → xs = ys
  | _, [], [], _, _, _, _ => rfl
  | _, [], y :: ys, ha, ⟨hy, _⟩, _, hys => absurd (hy.symm.trans ha) (hys y List.mem_cons_self)
  | _, x :: xs, [], ⟨hx, _⟩, ha, hxs, _ => absurd (hx.symm.trans ha) (hxs x List.mem_cons_self)
  | _, x :: xs, y :: ys, ⟨hx, hseg⟩, ⟨hy, hseg'⟩, hxs, hys => by
      obtain rfl : x = y := hx.symm.trans hy
      rw [Seg.unique hseg hseg' (fun z hz => hxs z (List.mem_cons_of_mem _ hz))
        fun z hz => hys z (List.mem_cons_of_mem _ hz)]

/-- Linking `p` past its successor `n` takes `n` out. -/
theorem Seg.unlink {pre post : List Nat} {p n : Nat}
    (h : Seg next a (pre ++ p :: n :: post) b) (hp : next' p = next n)
    (hpre : ∀ m ∈ pre, next' m = next m) (hpost : ∀ m ∈ post, next' m = next m) :
    Seg next' a (pre ++ p :: post) b := by
  obtain ⟨m, h1, hm, -, h2⟩ := seg_append.mp h
  refine seg_append.mpr ⟨m, h1.congr hpre, hm, ?_⟩
  rw [hp]
  exact h2.congr hpost

end Linked
