import Dynld.Allocator
import Dynld.Lib.Linked

/-!
# The free list

`FreeList h blocks` says that the list in memory is `blocks`: their links lead from
the head through each of them to null, and each records its own size. Two edits
keep it: `push` writes a node in front, and `unlink` takes one out through the
cursor.

Nodes are written into the blocks themselves, so a store inside one block leaves
the nodes of the others alone as long as the blocks are disjoint.
-/

namespace Dynld

open ByteRange

namespace Heap

/-- The free list in memory is `blocks`. -/
structure FreeList (h : Heap) (blocks : List ByteRange) : Prop where
  links : Linked.Seg h.nodeNext h.free (blocks.map start) 0
  sizes : ∀ b ∈ blocks, h.nodeSize b.start = b.len

/-- A block that can hold a node. -/
structure FreeBlock (b : ByteRange) : Prop where
  aligned : b.start % minAlign = 0
  size_mod : b.len % minAlign = 0
  size_ge : minReuse ≤ b.len

/-- Where the node of a block is. -/
def header (b : ByteRange) : ByteRange := ⟨b.start, minReuse⟩

theorem FreeBlock.header_within {b : ByteRange} (h : FreeBlock b) : Within (header b) b :=
  within_of_le (Nat.le_refl _) (Nat.add_le_add_left h.size_ge _)

/-! ## Stores -/

section Stores

variable {h : Heap} {addr value next size node : Nat}

@[simp] theorem storeWord_chunk : (h.storeWord addr value).chunk = h.chunk := rfl
@[simp] theorem storeWord_free : (h.storeWord addr value).free = h.free := rfl
@[simp] theorem storeWord_regions : (h.storeWord addr value).regions = h.regions := rfl
@[simp] theorem nodeWrite_chunk : (h.nodeWrite node next size).chunk = h.chunk := rfl
@[simp] theorem nodeWrite_free : (h.nodeWrite node next size).free = h.free := rfl
@[simp] theorem nodeWrite_regions : (h.nodeWrite node next size).regions = h.regions := rfl

theorem storeWord_nodeNext_self (hv : value < 2 ^ 64) :
    (h.storeWord addr value).nodeNext addr = value :=
  Mem.readWord_writeWord h.mem addr (by omega)

/-- The two words of a node. -/
theorem node_words (node : Nat) :
    Within ⟨node, 8⟩ ⟨node, minReuse⟩ ∧ Within ⟨node + 8, 8⟩ ⟨node, minReuse⟩ :=
  ⟨within_of_le (Nat.le_refl _) (Nat.add_le_add_left (show 8 ≤ minReuse by decide) _),
    within_of_le (Nat.le_add_right _ _) (Nat.le_refl (node + 16))⟩

/-- A store leaves a node alone that it does not touch. -/
theorem storeWord_frame (value : Nat) (hd : Apart ⟨node, minReuse⟩ ⟨addr, 8⟩) :
    (h.storeWord addr value).nodeNext node = h.nodeNext node ∧
      (h.storeWord addr value).nodeSize node = h.nodeSize node := by
  obtain ⟨hnext, hsize⟩ := node_words node
  exact ⟨Mem.readWord_writeWord_of_apart (hd.mono hnext (Within.refl _)),
    Mem.readWord_writeWord_of_apart (hd.mono hsize (Within.refl _))⟩

/-- Storing a link keeps the size behind it. -/
theorem storeWord_nodeSize_self : (h.storeWord addr value).nodeSize addr = h.nodeSize addr :=
  Mem.readWord_writeWord_of_apart (apart_of_le (Nat.le_refl (addr + 8))).symm

theorem nodeWrite_frame (hd : Apart ⟨node, minReuse⟩ ⟨addr, minReuse⟩) :
    (h.nodeWrite addr next size).nodeNext node = h.nodeNext node ∧
      (h.nodeWrite addr next size).nodeSize node = h.nodeSize node := by
  obtain ⟨h1, h2⟩ := node_words addr
  obtain ⟨n1, s1⟩ := storeWord_frame (h := h) next (hd.mono (Within.refl _) h1)
  obtain ⟨n2, s2⟩ := storeWord_frame (h := h.storeWord addr next) size
    (hd.mono (Within.refl _) h2)
  exact ⟨n2.trans n1, s2.trans s1⟩

theorem nodeWrite_self (addr : Nat) (hnext : next < 2 ^ 64) (hsize : size < 2 ^ 64) :
    (h.nodeWrite addr next size).nodeNext addr = next ∧
      (h.nodeWrite addr next size).nodeSize addr = size := by
  have hd : Apart ⟨addr, 8⟩ ⟨addr + 8, 8⟩ := apart_of_le (Nat.le_refl (addr + 8))
  refine ⟨?_, Mem.readWord_writeWord _ (addr + 8) (by omega)⟩
  exact (Mem.readWord_writeWord_of_apart hd).trans (storeWord_nodeNext_self hnext)

end Stores

/-! ## The two edits -/

/-- The list depends on the nodes of its blocks only. -/
theorem FreeList.frame {h h' : Heap} {blocks : List ByteRange} (hl : h.FreeList blocks)
    (hfree : h'.free = h.free)
    (hag : ∀ b ∈ blocks, h'.nodeNext b.start = h.nodeNext b.start ∧
      h'.nodeSize b.start = h.nodeSize b.start) : h'.FreeList blocks := by
  refine ⟨?_, fun b hb => (hag b hb).2.trans (hl.sizes b hb)⟩
  rw [hfree]
  refine hl.links.congr fun n hn => ?_
  obtain ⟨b, hb, rfl⟩ := List.mem_map.mp hn
  exact (hag b hb).1

/-- Moving the head to another place of the list. -/
theorem freeList_of_mem {h h' : Heap} {blocks : List ByteRange} (hm : h'.mem = h.mem)
    (hlinks : Linked.Seg h.nodeNext h'.free (blocks.map start) 0)
    (hsizes : ∀ b ∈ blocks, h.nodeSize b.start = b.len) : h'.FreeList blocks := by
  have hnext : h'.nodeNext = h.nodeNext := by funext node; rw [nodeNext, nodeNext, hm]
  have hsize : h'.nodeSize = h.nodeSize := by funext node; rw [nodeSize, nodeSize, hm]
  exact ⟨by rw [hnext]; exact hlinks, by rw [hsize]; exact hsizes⟩

/-- A node in front of the list. -/
theorem FreeList.push {h : Heap} {blocks : List ByteRange} {b : ByteRange}
    (hl : h.FreeList blocks) (hfree : h.free < 2 ^ 64) (hlen : b.len < 2 ^ 64)
    (hd : ∀ c ∈ blocks, Apart (header c) (header b)) :
    ({ h.nodeWrite b.start h.free b.len with free := b.start } : Heap).FreeList (b :: blocks) := by
  obtain ⟨hnext, hsize⟩ := nodeWrite_self (h := h) b.start hfree hlen
  have hkept : (h.nodeWrite b.start h.free b.len).FreeList blocks :=
    hl.frame rfl fun c hc => nodeWrite_frame (hd c hc)
  refine ⟨⟨rfl, ?_⟩, ?_⟩
  · show Linked.Seg _ ((h.nodeWrite b.start h.free b.len).nodeNext b.start) _ _
    rw [hnext]
    exact hkept.links
  · intro c hc
    rcases List.mem_cons.mp hc with rfl | hc
    · exact hsize
    · exact hkept.sizes c hc

/-- The cursor of the loop after it has passed `pre`. -/
def cursorFor (pre : List ByteRange) : Cursor :=
  match pre.getLast? with
  | none => .head
  | some b => .next b.start

/-- The cursor points to where the passed part of the list ends. -/
theorem cursorRead_cursorFor {h : Heap} {pre : List ByteRange} {m : Nat}
    (hs : Linked.Seg h.nodeNext h.free (pre.map start) m) : h.cursorRead (cursorFor pre) = m := by
  rcases List.eq_nil_or_concat pre with rfl | ⟨p, b, rfl⟩
  · exact hs
  · rw [List.concat_eq_append, List.map_append] at hs
    obtain ⟨k, -, -, hm⟩ := Linked.seg_append.mp hs
    rw [cursorFor, List.concat_eq_append, List.getLast?_concat]
    exact hm

/-- Taking a node out through the cursor in front of it. -/
theorem FreeList.unlink {h : Heap} {pre post : List ByteRange} {n : ByteRange}
    (hl : h.FreeList (pre ++ n :: post)) (hwf : ∀ b ∈ pre ++ n :: post, FreeBlock b)
    (hsep : Separate (pre ++ n :: post)) :
    (h.cursorWrite (h.nodeNext n.start) (cursorFor pre)).FreeList (pre ++ post) := by
  rcases List.eq_nil_or_concat pre with rfl | ⟨p, b, rfl⟩
  · -- the head of the list moves on
    have hlinks : Linked.Seg h.nodeNext (h.nodeNext n.start) (post.map start) 0 := hl.links.2
    generalize h.nodeNext n.start = next at hlinks ⊢
    exact freeList_of_mem (h := h) rfl hlinks fun c hc => hl.sizes c (List.mem_cons_of_mem _ hc)
  · -- the link of the last node that was passed skips `n`
    rw [List.concat_eq_append, List.append_assoc, List.singleton_append] at hl hwf hsep ⊢
    have hcur : cursorFor (p ++ [b]) = .next b.start := by
      rw [cursorFor, List.getLast?_concat]
    rw [hcur]
    -- the store is inside `b`, so every other node keeps its two words
    have hother : ∀ c ∈ p ++ post,
        (h.storeWord b.start (h.nodeNext n.start)).nodeNext c.start = h.nodeNext c.start ∧
          (h.storeWord b.start (h.nodeNext n.start)).nodeSize c.start = h.nodeSize c.start := by
      intro c hc
      have hperm : (p ++ b :: n :: post).Perm (b :: n :: (p ++ post)) :=
        List.perm_middle.trans (List.perm_middle.cons b)
      have hcmem : c ∈ p ++ b :: n :: post :=
        hperm.mem_iff.mpr (List.mem_cons_of_mem _ (List.mem_cons_of_mem _ hc))
      have hbc : Apart b c :=
        (List.pairwise_cons.mp (hsep.perm hperm)).1 c (List.mem_cons_of_mem _ hc)
      have hb := hwf b (List.mem_append_right _ List.mem_cons_self)
      have hb8 : Within ⟨b.start, 8⟩ b :=
        within_of_le (Nat.le_refl _) (by have := hb.size_ge; simp only [minReuse] at this ⊢; omega)
      exact storeWord_frame _ (hbc.symm.mono (hwf c hcmem).header_within hb8)
    refine ⟨?_, ?_⟩
    · have hlinks := hl.links
      rw [List.map_append, List.map_cons, List.map_cons] at hlinks
      rw [List.map_append, List.map_cons]
      refine hlinks.unlink (storeWord_nodeNext_self (Mem.readWord_lt 8 _ _)) ?_ ?_
      · intro m hm
        obtain ⟨c, hc, rfl⟩ := List.mem_map.mp hm
        exact (hother c (List.mem_append_left _ hc)).1
      · intro m hm
        obtain ⟨c, hc, rfl⟩ := List.mem_map.mp hm
        exact (hother c (List.mem_append_right _ hc)).1
    · intro c hc
      rcases List.mem_append.mp hc with hc | hc
      · exact (hother c (List.mem_append_left _ hc)).2.trans
          (hl.sizes c (List.mem_append_left _ hc))
      · rcases List.mem_cons.mp hc with rfl | hc
        · exact storeWord_nodeSize_self.trans
            (hl.sizes c (List.mem_append_right _ List.mem_cons_self))
        · exact (hother c (List.mem_append_right _ hc)).2.trans
            (hl.sizes c (List.mem_append_right _ (List.mem_cons_of_mem _ (List.mem_cons_of_mem _ hc))))

end Heap

end Dynld
