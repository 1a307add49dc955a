import Dynld.Proof.FreeList

/-!
# The allocator never hands out a byte twice

The memory the allocator manages is cut into pieces: the blocks of the free list,
the live blocks with their rounded sizes, and the unused tail of the bump chunk.
The invariant is that the pieces are disjoint and inside regions the backend has
handed out. Every call cuts a piece up, moves one to the other side, or adds a
region that is disjoint from all there is.

A run interleaves calls with writes of the clients to their own blocks.
-/

namespace Dynld

open ByteRange

/-! ## Rounding -/

/-- The size `normalize` allocates. -/
def normSize (layout : Layout) : Nat := (max layout.size minReuse + 7) / 8 * 8

theorem alignUp_of_lt {addr k : Nat} (h : addr + 2 ^ k < 2 ^ 64) :
    alignUp addr (2 ^ k) = .ok ((addr + 2 ^ k - 1) / 2 ^ k * 2 ^ k) := by
  have hpos : 0 < 2 ^ k := Nat.two_pow_pos k
  have hk : k < 64 := by
    have hlt : 2 ^ k < 2 ^ 64 := by omega
    exact (Nat.pow_lt_pow_iff_right (by decide)).mp hlt
  rw [alignUp, Outcome.add_of_lt h, Outcome.ok_bind, Outcome.sub_of_le (by omega),
    Outcome.ok_bind, Bits.and_not_low (by omega) (by omega)]

/-- An address is aligned upwards. -/
theorem alignUp_eq_ok {addr align r : Nat} (hp : ∃ k, align = 2 ^ k)
    (h : alignUp addr align = .ok r) : addr ≤ r ∧ r % align = 0 := by
  obtain ⟨k, rfl⟩ := hp
  have hlt : addr + 2 ^ k < 2 ^ 64 := by
    rw [alignUp] at h
    obtain ⟨sum, hsum, -⟩ := Outcome.bind_eq_ok.mp h
    exact (Outcome.add_eq_ok.mp hsum).1
  rw [alignUp_of_lt hlt] at h
  injection h with h
  have hpos : 0 < 2 ^ k := Nat.two_pow_pos k
  have hdiv := Nat.div_add_mod' (addr + 2 ^ k - 1) (2 ^ k)
  have hmod := Nat.mod_lt (addr + 2 ^ k - 1) hpos
  rw [← h]
  exact ⟨by omega, Nat.mul_mod_left _ _⟩

theorem normalize_eq (layout : Layout) :
    normalize layout = .ok (normSize layout, max layout.align minAlign) := by
  have hfits := layout.fits
  have hmax : max layout.size minReuse + 2 ^ 3 < 2 ^ 64 := by
    rw [minReuse]
    omega
  rw [normalize, show minAlign = 2 ^ 3 from rfl, alignUp_of_lt hmax, Outcome.ok_bind]
  rfl

theorem normSize_spec (layout : Layout) :
    layout.size ≤ normSize layout ∧ minReuse ≤ normSize layout ∧ normSize layout % minAlign = 0 := by
  unfold normSize minReuse minAlign
  omega

/-- The alignment `normalize` allocates with. -/
theorem normAlign_spec (layout : Layout) :
    (∃ k, max layout.align minAlign = 2 ^ k) ∧
      ∀ r, r % max layout.align minAlign = 0 → r % minAlign = 0 := by
  obtain ⟨k, hk⟩ := layout.align_pow
  by_cases hle : layout.align ≤ minAlign
  · rw [Nat.max_eq_right hle]
    exact ⟨⟨3, rfl⟩, fun _ h => h⟩
  · rw [Nat.max_eq_left (by omega)]
    refine ⟨⟨k, hk⟩, fun r hr => ?_⟩
    have h3 : 3 ≤ k := by
      have hlt : 2 ^ 3 < 2 ^ k := by rw [← hk]; exact Nat.lt_of_not_le hle
      exact Nat.le_of_lt ((Nat.pow_lt_pow_iff_right (by decide)).mp hlt)
    have hdvd : minAlign ∣ layout.align := by
      rw [hk]
      exact Nat.pow_dvd_pow 2 h3
    exact Nat.mod_eq_zero_of_dvd (Nat.dvd_trans hdvd (Nat.dvd_of_mod_eq_zero hr))

/-! ## The pieces -/

/-- A live block, as the allocator rounds it. -/
def liveBlock (l : Nat × Layout) : ByteRange := ⟨l.1, normSize l.2⟩

/-- A live block, as its owner sees it. -/
def userRange (l : Nat × Layout) : ByteRange := ⟨l.1, l.2.size⟩

theorem userRange_within (l : Nat × Layout) : Within (userRange l) (liveBlock l) :=
  within_of_le (Nat.le_refl _) (Nat.add_le_add_left (normSize_spec l.2).1 _)

namespace Heap

/-- The unused tail of the bump chunk. -/
def tail (h : Heap) : List ByteRange :=
  match h.chunk with
  | none => []
  | some c => [⟨c.base + c.offset, c.size - c.offset⟩]

theorem tail_congr {h h' : Heap} (hc : h'.chunk = h.chunk) : h'.tail = h.tail := by
  rw [tail, tail, hc]

/-- Everything the allocator has or has given away. -/
def pieces (h : Heap) (live : List (Nat × Layout)) (blocks : List ByteRange) : List ByteRange :=
  blocks ++ (live.map liveBlock ++ h.tail)

end Heap

structure ChunkWellFormed (c : Chunk) : Prop where
  base_pos : 0 < c.base
  offset_le : c.offset ≤ c.size
  end_le : c.base + c.size ≤ 2 ^ 64

/-- A region of the address space that does not hold the null pointer. -/
structure RegionWellFormed (r : ByteRange) : Prop where
  start_pos : 0 < r.start
  end_le : r.start + r.len ≤ 2 ^ 64

/-- **The invariant**, with the live blocks and the blocks of the free list. -/
structure HeapInv (h : Heap) (live : List (Nat × Layout)) (blocks : List ByteRange) : Prop where
  freeList : h.FreeList blocks
  freeBlocks : ∀ b ∈ blocks, Heap.FreeBlock b
  /-- Small blocks can be put on the free list. -/
  live_aligned : ∀ l ∈ live, normSize l.2 < largeThreshold → l.1 % minAlign = 0
  separate : Separate (h.pieces live blocks)
  covered : ∀ r ∈ h.pieces live blocks, CoveredBy r h.regions
  regions : ∀ r ∈ h.regions, RegionWellFormed r
  chunk : ∀ c, h.chunk = some c → ChunkWellFormed c

section Inv

variable {h : Heap} {live : List (Nat × Layout)} {blocks : List ByteRange}

/-- A piece with a byte in it lies in the address space, past the null pointer. -/
theorem covered_bounds {r : ByteRange} {regions : List ByteRange}
    (hr : ∀ s ∈ regions, RegionWellFormed s) (hc : CoveredBy r regions) (hlen : 0 < r.len) :
    0 < r.start ∧ r.start + r.len ≤ 2 ^ 64 := by
  obtain ⟨s, hs, h1, -⟩ := hc r.start ⟨Nat.le_refl _, by omega⟩
  obtain ⟨t, ht, -, h2⟩ := hc (r.start + r.len - 1) ⟨by omega, by omega⟩
  have hpos := (hr s hs).start_pos
  have hend := (hr t ht).end_le
  exact ⟨by omega, by omega⟩

theorem HeapInv.block_bounds (hi : HeapInv h live blocks) {b : ByteRange} (hb : b ∈ blocks) :
    0 < b.start ∧ b.start + b.len ≤ 2 ^ 64 := by
  have hsize := (hi.freeBlocks b hb).size_ge
  rw [minReuse] at hsize
  exact covered_bounds hi.regions (hi.covered b (List.mem_append_left _ hb)) (by omega)

theorem HeapInv.block_lt (hi : HeapInv h live blocks) {b : ByteRange} (hb : b ∈ blocks) :
    b.start < 2 ^ 64 := by
  have hbound := hi.block_bounds hb
  have hsize := (hi.freeBlocks b hb).size_ge
  rw [minReuse] at hsize
  omega

/-- The head of the free list is an address. -/
theorem Heap.FreeList.free_lt (hl : h.FreeList blocks) (hb : ∀ b ∈ blocks, b.start < 2 ^ 64) :
    h.free < 2 ^ 64 := by
  have hlinks := hl.links
  cases blocks with
  | nil =>
      have h0 : h.free = 0 := hlinks
      rw [h0]
      decide
  | cons b rest =>
      have hfree : h.free = b.start := hlinks.1
      rw [hfree]
      exact hb b List.mem_cons_self

end Inv

/-! ## The free list is searched -/

namespace Heap

/-- The block can serve a request. -/
def Fits (size align : Nat) (b : ByteRange) : Prop := size ≤ b.len ∧ b.start % align = 0

/-- The loop finds the first block that fits, if there is one. -/
theorem takeFromFreeListLoop_spec {h : Heap} (size align : Nat) :
    ∀ {pre rest : List ByteRange} (fuel : Nat), h.FreeList (pre ++ rest) →
      (∀ b ∈ rest, 0 < b.start) →
      (h.takeFromFreeListLoop size align fuel (cursorFor pre) = .outOfFuel ∧ fuel ≤ rest.length) ∨
        h.takeFromFreeListLoop size align fuel (cursorFor pre) = .ok (none, h) ∨
        ∃ before n after, rest = before ++ n :: after ∧ Fits size align n ∧
          (∀ b ∈ before, ¬ Fits size align b) ∧
          h.takeFromFreeListLoop size align fuel (cursorFor pre)
            = .ok (some n.start, h.takeNode (cursorFor (pre ++ before)) n.start size)
  | _, _, 0, _, _ => .inl ⟨rfl, Nat.zero_le _⟩
  | pre, [], fuel + 1, hl, _ => by
      have hseg := hl.links
      rw [List.append_nil] at hseg
      exact .inr (.inl (by rw [takeFromFreeListLoop, cursorRead_cursorFor hseg, if_pos rfl]))
  | pre, n :: rest, fuel + 1, hl, hpos => by
      have hseg := hl.links
      rw [List.map_append] at hseg
      obtain ⟨m, hpre, hm, -⟩ := Linked.seg_append.mp hseg
      have hread := cursorRead_cursorFor hpre
      have hnode : n.start ≠ 0 := Nat.pos_iff_ne_zero.mp (hpos n List.mem_cons_self)
      have hsize := hl.sizes n (List.mem_append_right _ List.mem_cons_self)
      subst hm
      -- the cursor is at `n`, and its words in memory are those of the block
      by_cases hfit : size ≤ n.len ∧ n.start % align = 0
      · refine .inr (.inr ⟨[], n, rest, rfl, hfit, fun b hb => absurd hb List.not_mem_nil, ?_⟩)
        rw [takeFromFreeListLoop, hread, if_neg hnode, hsize, if_pos hfit, List.append_nil]
      · -- on to the next node
        have hl' : h.FreeList ((pre ++ [n]) ++ rest) := by
          rw [List.append_assoc]
          exact hl
        have hstep : h.takeFromFreeListLoop size align (fuel + 1) (cursorFor pre)
            = h.takeFromFreeListLoop size align fuel (cursorFor (pre ++ [n])) := by
          rw [takeFromFreeListLoop, hread, if_neg hnode, hsize, if_neg hfit, cursorFor.eq_def
            (pre ++ [n]), List.getLast?_concat]
        rw [hstep]
        rcases takeFromFreeListLoop_spec size align fuel hl' (fun b hb => hpos b (List.mem_cons_of_mem _ hb))
          with ⟨hout, hf⟩ | hnone | ⟨before, k, after, he, hk, hbefore, hok⟩
        · exact .inl ⟨hout, Nat.succ_le_succ hf⟩
        · exact .inr (.inl hnone)
        · refine .inr (.inr ⟨n :: before, k, after, by rw [he]; rfl, hk, ?_, ?_⟩)
          · intro b hb
            rcases List.mem_cons.mp hb with rfl | hb
            · exact hfit
            · exact hbefore b hb
          · rw [hok, List.append_assoc]
            rfl

/-- Only the bytes of these ranges were stored to between `h` and `h'`. -/
def StoresWithin (h h' : Heap) (rs : List ByteRange) : Prop :=
  ∃ new, h'.stores = new ++ h.stores ∧ ∀ s ∈ new, ∃ r ∈ rs, Within s r

theorem StoresWithin.refl (h : Heap) (rs : List ByteRange) : StoresWithin h h rs :=
  ⟨[], rfl, fun _ hs => absurd hs (by simp)⟩

theorem StoresWithin.trans {h h' h'' : Heap} {rs : List ByteRange} (h1 : StoresWithin h h' rs)
    (h2 : StoresWithin h' h'' rs) : StoresWithin h h'' rs := by
  obtain ⟨new, he, hw⟩ := h1
  obtain ⟨new', he', hw'⟩ := h2
  refine ⟨new' ++ new, by rw [he', he, List.append_assoc], fun s hs => ?_⟩
  rcases List.mem_append.mp hs with hs | hs
  · exact hw' s hs
  · exact hw s hs

/-- What is left of a block, if it can hold a node. -/
def leftover (n : ByteRange) (size : Nat) : List ByteRange :=
  if minReuse ≤ n.len - size then [⟨n.start + size, n.len - size⟩] else []

theorem leftover_within {n : ByteRange} {size : Nat} (hsize : size ≤ n.len) :
    ∀ b ∈ leftover n size, Within b n ∧ Apart b ⟨n.start, size⟩ := by
  intro b hb
  unfold leftover at hb
  split at hb
  · rw [List.mem_singleton.mp hb]
    refine ⟨within_of_le (Nat.le_add_right _ _) ?_, (apart_of_le (Nat.le_refl _)).symm⟩
    show n.start + size + (n.len - size) ≤ n.start + n.len
    omega
  · exact absurd hb (by simp)

theorem leftover_freeBlock {n : ByteRange} {size : Nat} (hn : FreeBlock n) (hsize : size ≤ n.len)
    (hmod : size % minAlign = 0) : ∀ b ∈ leftover n size, FreeBlock b := by
  obtain ⟨hal, hlm, -⟩ := hn
  rw [minAlign] at hal hlm hmod
  intro b hb
  unfold leftover at hb
  split at hb
  · rename_i hroom
    rw [List.mem_singleton.mp hb]
    refine ⟨?_, ?_, hroom⟩
    · show (n.start + size) % 8 = 0
      omega
    · show (n.len - size) % 8 = 0
      omega
  · exact absurd hb (by simp)

/-- What is left and the part that is taken are apart. -/
theorem leftover_separate {n : ByteRange} {size : Nat} (hsize : size ≤ n.len) :
    Separate (leftover n size ++ [⟨n.start, size⟩]) := by
  refine List.pairwise_append.mpr ⟨?_, List.pairwise_singleton _ _, fun b hb c hc => ?_⟩
  · unfold leftover
    split
    · exact List.pairwise_singleton _ _
    · exact List.Pairwise.nil
  · rw [List.mem_singleton.mp hc]
    exact (leftover_within hsize b hb).2

theorem leftover_cut_within {n : ByteRange} {size : Nat} (hsize : size ≤ n.len) :
    ∀ c ∈ leftover n size ++ [⟨n.start, size⟩], Within c n := by
  intro c hc
  rcases List.mem_append.mp hc with hc | hc
  · exact (leftover_within hsize c hc).1
  · rw [List.mem_singleton.mp hc]
    exact within_of_le (Nat.le_refl _) (Nat.add_le_add_left hsize _)

theorem nodeWrite_stores {h : Heap} {b r : ByteRange} {rs : List ByteRange} {next size : Nat}
    (hb : FreeBlock b) (hr : r ∈ rs) (hbr : Within b r) :
    StoresWithin h { h.nodeWrite b.start next size with free := b.start } rs := by
  have hge := hb.size_ge
  rw [minReuse] at hge
  refine ⟨[⟨b.start + 8, 8⟩, ⟨b.start, 8⟩], rfl, fun s hs => ⟨r, hr, Within.trans ?_ hbr⟩⟩
  rcases List.mem_cons.mp hs with rfl | hs
  · exact within_of_le (Nat.le_add_right _ _) (show b.start + 8 + 8 ≤ b.start + b.len by omega)
  · rw [List.mem_singleton.mp hs]
    exact within_of_le (Nat.le_refl _) (show b.start + 8 ≤ b.start + b.len by omega)

theorem cursorWrite_stores {h : Heap} {pre rest : List ByteRange} (value : Nat)
    (hwf : ∀ b ∈ pre ++ rest, FreeBlock b) :
    StoresWithin h (h.cursorWrite value (cursorFor pre)) (pre ++ rest) := by
  rcases List.eq_nil_or_concat pre with rfl | ⟨p, b, rfl⟩
  · exact StoresWithin.refl h _
  · have hb : b ∈ p.concat b ++ rest := by simp
    have hge := (hwf b hb).size_ge
    rw [minReuse] at hge
    have hcur : cursorFor (p.concat b) = .next b.start := by
      rw [cursorFor, List.concat_eq_append, List.getLast?_concat]
    rw [hcur]
    refine ⟨[⟨b.start, 8⟩], rfl, fun s hs => ⟨b, hb, ?_⟩⟩
    rw [List.mem_singleton.mp hs]
    exact within_of_le (Nat.le_refl _) (show b.start + 8 ≤ b.start + b.len by omega)

@[simp] theorem cursorWrite_chunk {h : Heap} {value : Nat} (c : Cursor) :
    (h.cursorWrite value c).chunk = h.chunk := by
  cases c <;> rfl

@[simp] theorem cursorWrite_regions {h : Heap} {value : Nat} (c : Cursor) :
    (h.cursorWrite value c).regions = h.regions := by
  cases c <;> rfl

/-- What `takeNode` does to a block `n` of the list. -/
theorem takeNode_eq {h : Heap} {n : ByteRange} {cursor : Cursor} {size : Nat}
    (hsize : h.nodeSize n.start = n.len) :
    h.takeNode cursor n.start size =
      if minReuse ≤ n.len - size then
        { (h.cursorWrite (h.nodeNext n.start) cursor).nodeWrite (n.start + size)
            (h.cursorWrite (h.nodeNext n.start) cursor).free (n.len - size) with
          free := n.start + size }
      else h.cursorWrite (h.nodeNext n.start) cursor := by
  rw [takeNode, hsize]

@[simp] theorem takeNode_chunk {h : Heap} {node size : Nat} (c : Cursor) :
    (h.takeNode c node size).chunk = h.chunk := by
  unfold takeNode
  simp only []
  split <;> simp

@[simp] theorem takeNode_regions {h : Heap} {node size : Nat} (c : Cursor) :
    (h.takeNode c node size).regions = h.regions := by
  unfold takeNode
  simp only []
  split <;> simp

end Heap

/-! ## One piece is cut up -/

theorem perm_cut {α : Type} (xs ys zs : List α) (a : α) :
    (xs ++ [a] ++ (ys ++ zs)).Perm (xs ++ ys ++ (a :: zs)) := by
  rw [List.append_assoc, List.append_assoc xs ys, List.singleton_append]
  exact List.perm_middle.symm.append_left xs

theorem perm_snoc {α : Type} (xs ys : List α) (a b : α) :
    (a :: b :: (xs ++ ys)).Perm (xs ++ (a :: ys ++ [b])) := by
  refine List.Perm.trans (List.Perm.cons a ?_) List.perm_middle.symm
  exact (List.perm_append_singleton b (xs ++ ys)).symm.trans (by
    rw [List.append_assoc]
    exact List.Perm.refl _)

theorem pieces_cut (p : ByteRange) (cut rs : List ByteRange) {ps ps' regions : List ByteRange}
    (hsep : Separate ps) (hcov : ∀ r ∈ ps, CoveredBy r regions) (hp : ps.Perm (p :: rs))
    (hp' : (cut ++ rs).Perm ps')
    (hcut : Separate cut) (hw : ∀ c ∈ cut, Within c p) :
    Separate ps' ∧ ∀ r ∈ ps', CoveredBy r regions := by
  refine ⟨((hsep.perm hp).refine hcut hw).perm hp', fun r hr => ?_⟩
  rcases List.mem_append.mp (hp'.mem_iff.mpr hr) with hr | hr
  · exact (hcov p (hp.mem_iff.mpr List.mem_cons_self)).within (hw r hr)
  · exact hcov r (hp.mem_iff.mpr (List.mem_cons_of_mem _ hr))

/-- A fresh region comes in. -/
theorem pieces_grow {ps regions : List ByteRange} {r : ByteRange} (hsep : Separate ps)
    (hcov : ∀ p ∈ ps, CoveredBy p regions) (hfresh : ∀ s ∈ regions, Apart s r) :
    Separate (r :: ps) ∧ ∀ p ∈ r :: ps, CoveredBy p (r :: regions) := by
  refine ⟨List.pairwise_cons.mpr ⟨fun p hp => ((hcov p hp).apart hfresh).symm, hsep⟩, ?_⟩
  intro p hp
  rcases List.mem_cons.mp hp with rfl | hp
  · exact fun a ha => ⟨p, List.mem_cons_self, ha⟩
  · exact (hcov p hp).mono (List.subset_cons_self _ _)

section Calls

variable {h h' : Heap} {live : List (Nat × Layout)} {blocks : List ByteRange}

/-- The list without `n`, and with what is left of it in front. -/
theorem Heap.FreeList.takeNode {pre post : List ByteRange} {n : ByteRange} {size : Nat}
    (hl : h.FreeList (pre ++ n :: post)) (hwf : ∀ b ∈ pre ++ n :: post, Heap.FreeBlock b)
    (hsep : Separate (pre ++ n :: post)) (hlt : ∀ b ∈ pre ++ n :: post, b.start < 2 ^ 64)
    (hlen : n.len < 2 ^ 64) (hfit : size ≤ n.len)
    (hleft : ∀ b ∈ Heap.leftover n size, Heap.FreeBlock b) :
    (h.takeNode (Heap.cursorFor pre) n.start size).FreeList
        (Heap.leftover n size ++ (pre ++ post)) ∧
      Heap.StoresWithin h (h.takeNode (Heap.cursorFor pre) n.start size) (pre ++ n :: post) := by
  have hn : n ∈ pre ++ n :: post := List.mem_append_right _ List.mem_cons_self
  have hsub : ∀ b ∈ pre ++ post, b ∈ pre ++ n :: post := fun b hb =>
    List.perm_middle.mem_iff.mpr (List.mem_cons_of_mem _ hb)
  have hunlink := hl.unlink hwf hsep
  have hstores := Heap.cursorWrite_stores (h := h) (h.nodeNext n.start) hwf
  rw [Heap.takeNode_eq (hl.sizes n hn)]
  unfold Heap.leftover at hleft ⊢
  split
  · -- the rest of `n` becomes the new head; its words are inside `n`
    rename_i hge
    rw [if_pos hge] at hleft
    have hblock := hleft _ List.mem_cons_self
    have hwithin : Within ⟨n.start + size, n.len - size⟩ n :=
      within_of_le (Nat.le_add_right _ _)
        (show n.start + size + (n.len - size) ≤ n.start + n.len by omega)
    refine ⟨?_, hstores.trans (Heap.nodeWrite_stores hblock hn hwithin)⟩
    refine hunlink.push (b := ⟨n.start + size, n.len - size⟩)
      (hunlink.free_lt fun b hb => hlt b (hsub b hb)) (by show n.len - size < 2 ^ 64; omega) ?_
    intro c hc
    have hdisj : Apart n c := (List.pairwise_cons.mp (hsep.perm List.perm_middle)).1 c hc
    exact hdisj.symm.mono (hwf c (hsub c hc)).header_within
      (hblock.header_within.trans hwithin)
  · exact ⟨hunlink, hstores⟩

/-- Taking a block off the free list makes it live. -/
theorem HeapInv.takeNode {pre post : List ByteRange} {n : ByteRange} {layout : Layout}
    (hi : HeapInv h live (pre ++ n :: post)) (hfit : normSize layout ≤ n.len) :
    HeapInv (h.takeNode (Heap.cursorFor pre) n.start (normSize layout))
        ((n.start, layout) :: live) (Heap.leftover n (normSize layout) ++ (pre ++ post)) ∧
      Heap.StoresWithin h (h.takeNode (Heap.cursorFor pre) n.start (normSize layout))
        (pre ++ n :: post) := by
  obtain ⟨-, hge, hmod⟩ := normSize_spec layout
  have hn : n ∈ pre ++ n :: post := List.mem_append_right _ List.mem_cons_self
  have hbound := hi.block_bounds hn
  have hal := (hi.freeBlocks n hn).aligned
  have hleft := Heap.leftover_freeBlock (hi.freeBlocks n hn) hfit hmod
  rw [minReuse] at hge
  obtain ⟨hlist, hstores⟩ := hi.freeList.takeNode hi.freeBlocks
    (hi.separate.sublist (List.sublist_append_left _ _)) (fun b hb => hi.block_lt hb)
    (by omega) hfit hleft
  -- `n` is cut into what is left of it and the new block
  have hold : (h.pieces live (pre ++ n :: post)).Perm
      (n :: (pre ++ post ++ (live.map liveBlock ++ h.tail))) := List.perm_middle.append_right _
  have hnew : (Heap.leftover n (normSize layout) ++ [liveBlock (n.start, layout)]
      ++ (pre ++ post ++ (live.map liveBlock ++ h.tail))).Perm
      ((h.takeNode (Heap.cursorFor pre) n.start (normSize layout)).pieces ((n.start, layout) :: live)
        (Heap.leftover n (normSize layout) ++ (pre ++ post))) := by
    rw [Heap.pieces, Heap.tail_congr (Heap.takeNode_chunk _)]
    exact perm_cut _ _ _ _
  obtain ⟨hsep, hcov⟩ := pieces_cut n _ _ hi.separate hi.covered hold hnew
    (Heap.leftover_separate hfit) (Heap.leftover_cut_within hfit)
  refine ⟨⟨hlist, ?_, ?_, hsep, ?_, ?_, ?_⟩, hstores⟩
  · intro b hb
    rcases List.mem_append.mp hb with hb | hb
    · exact hleft b hb
    · exact hi.freeBlocks b (List.perm_middle.mem_iff.mpr (List.mem_cons_of_mem _ hb))
  · intro l hl hsmall
    rcases List.mem_cons.mp hl with rfl | hl
    · exact hal
    · exact hi.live_aligned l hl hsmall
  · rw [Heap.takeNode_regions]
    exact hcov
  · rw [Heap.takeNode_regions]
    exact hi.regions
  · rw [Heap.takeNode_chunk]
    exact hi.chunk

/-! ## The bump chunk -/

/-- What `bumpAlloc` does with the chunk it has. -/
theorem Heap.bumpAlloc_spec {size align : Nat} {found : Option Nat} (hp : ∃ k, align = 2 ^ k)
    (hchunk : ∀ c, h.chunk = some c → ChunkWellFormed c)
    (hok : h.bumpAlloc size align = .ok (found, h')) :
    found = none ∧ h' = h ∨
      ∃ c p, found = some p ∧ h.chunk = some c ∧ p % align = 0 ∧ c.base + c.offset ≤ p ∧
        p + size ≤ c.base + c.size ∧
        h' = { h with chunk := some { c with offset := p + size - c.base } } := by
  unfold Heap.bumpAlloc at hok
  split at hok
  · injection hok with hok
    injection hok with h1 h2
    exact .inl ⟨h1.symm, h2.symm⟩
  · rename_i c hc
    obtain ⟨cur, hcur, hrest⟩ := Outcome.bind_eq_ok.mp hok
    obtain ⟨aligned, haligned, hok⟩ := Outcome.bind_eq_ok.mp hrest
    rw [(Outcome.add_eq_ok.mp hcur).2] at haligned
    obtain ⟨hle, hmod⟩ := alignUp_eq_ok hp haligned
    have hbase := (hchunk c hc).base_pos
    -- so the `NonNull` of the result is never the reason for `None`
    have hne : aligned ≠ 0 := by omega
    split at hok
    · rename_i hfits
      simp only [] at hok
      split at hok
      · injection hok with hok
        injection hok with h1 h2
        exact .inl ⟨h1.symm, h2.symm⟩
      · injection hok with hok
        injection hok with h1 h2
        exact .inr ⟨c, aligned, h1.symm, hc, hmod, hle, by omega, h2.symm⟩
    · injection hok with hok
      injection hok with h1 h2
      exact .inl ⟨h1.symm, h2.symm⟩

/-- Cutting a block from the front of the unused tail makes it live. -/
theorem HeapInv.bump {c : Chunk} {p : Nat} {layout : Layout} (hi : HeapInv h live blocks)
    (hc : h.chunk = some c) (hle : c.base + c.offset ≤ p)
    (hend : p + normSize layout ≤ c.base + c.size) (hal : p % minAlign = 0) :
    HeapInv { h with chunk := some { c with offset := p + normSize layout - c.base } }
      ((p, layout) :: live) blocks := by
  have hcwf := hi.chunk c hc
  have htail : h.tail = [⟨c.base + c.offset, c.size - c.offset⟩] := by rw [Heap.tail, hc]
  -- the tail is cut into the new block and a shorter tail
  have hold : (h.pieces live blocks).Perm
      (⟨c.base + c.offset, c.size - c.offset⟩ :: (blocks ++ live.map liveBlock)) := by
    rw [Heap.pieces, htail, ← List.append_assoc]
    exact List.perm_append_comm
  have hnew : ([liveBlock (p, layout), ⟨c.base + (p + normSize layout - c.base),
        c.size - (p + normSize layout - c.base)⟩] ++ (blocks ++ live.map liveBlock)).Perm
      (Heap.pieces { h with chunk := some { c with offset := p + normSize layout - c.base } }
        ((p, layout) :: live) blocks) := by
    exact perm_snoc blocks (live.map liveBlock) (liveBlock (p, layout)) _
  obtain ⟨hsep, hcov⟩ := pieces_cut _ _ _ hi.separate hi.covered hold hnew
    (List.pairwise_cons.mpr ⟨fun r hr => by
      rw [List.mem_singleton.mp hr]
      exact apart_of_le (show p + normSize layout ≤ c.base + (p + normSize layout - c.base) by
        omega), List.pairwise_singleton _ _⟩)
    (fun r hr => by
      have hoff := hcwf.offset_le
      rcases List.mem_cons.mp hr with rfl | hr
      · exact within_of_le hle
          (show p + normSize layout ≤ c.base + c.offset + (c.size - c.offset) by omega)
      · rw [List.mem_singleton.mp hr]
        refine within_of_le ?_ ?_
        · show c.base + c.offset ≤ c.base + (p + normSize layout - c.base)
          omega
        · show c.base + (p + normSize layout - c.base) + (c.size - (p + normSize layout - c.base))
            ≤ c.base + c.offset + (c.size - c.offset)
          omega)
  refine ⟨Heap.freeList_of_mem (h := h) rfl hi.freeList.links hi.freeList.sizes, hi.freeBlocks, ?_,
    hsep, hcov, hi.regions, ?_⟩
  · intro l hl hsmall
    rcases List.mem_cons.mp hl with rfl | hl
    · exact hal
    · exact hi.live_aligned l hl hsmall
  · intro c' hc'
    injection hc' with hc'
    rw [← hc']
    exact ⟨hcwf.base_pos, show p + normSize layout - c.base ≤ c.size by omega, hcwf.end_le⟩

/-! ## The backend -/

/-- A region the backend may hand out: disjoint from those it has not taken back. -/
def VmFresh (h : Heap) (vm : Nat → Option Nat) : Prop :=
  ∀ size base, vm size = some base →
    RegionWellFormed ⟨base, size⟩ ∧ ∀ r ∈ h.regions, Apart r ⟨base, size⟩

/-- A large block is a region of its own. -/
theorem HeapInv.large {base : Nat} {layout : Layout} (hi : HeapInv h live blocks)
    (hlarge : largeThreshold ≤ normSize layout)
    (hwf : RegionWellFormed ⟨base, normSize layout⟩)
    (hfresh : ∀ r ∈ h.regions, Apart r ⟨base, normSize layout⟩) :
    HeapInv { h with regions := ⟨base, normSize layout⟩ :: h.regions } ((base, layout) :: live)
      blocks := by
  obtain ⟨hsep, hcov⟩ := pieces_grow hi.separate hi.covered hfresh
  have hperm : (⟨base, normSize layout⟩ :: h.pieces live blocks).Perm
      (Heap.pieces { h with regions := ⟨base, normSize layout⟩ :: h.regions }
        ((base, layout) :: live) blocks) := List.perm_middle.symm
  refine ⟨Heap.freeList_of_mem (h := h) rfl hi.freeList.links hi.freeList.sizes, hi.freeBlocks, ?_,
    hsep.perm hperm, fun r hr => hcov r (hperm.mem_iff.mpr hr), ?_, hi.chunk⟩
  · intro l hl hsmall
    rcases List.mem_cons.mp hl with rfl | hl
    · have hsmall : normSize layout < largeThreshold := hsmall
      omega
    · exact hi.live_aligned l hl hsmall
  · intro r hr
    rcases List.mem_cons.mp hr with rfl | hr
    · exact hwf
    · exact hi.regions r hr

/-- A new chunk replaces the old one, whose tail is lost. -/
theorem HeapInv.newChunk {base size : Nat} (hi : HeapInv h live blocks)
    (hwf : RegionWellFormed ⟨base, size⟩) (hfresh : ∀ r ∈ h.regions, Apart r ⟨base, size⟩) :
    HeapInv { h with regions := ⟨base, size⟩ :: h.regions
                     chunk := some { base, size, offset := 0 } } live blocks := by
  have hsub : (blocks ++ live.map liveBlock).Sublist (h.pieces live blocks) := by
    rw [Heap.pieces, ← List.append_assoc]
    exact List.sublist_append_left _ _
  obtain ⟨hsep, hcov⟩ := pieces_grow (hi.separate.sublist hsub)
    (fun p hp => hi.covered p (hsub.subset hp)) hfresh
  have hperm : (⟨base, size⟩ :: (blocks ++ live.map liveBlock)).Perm
      (Heap.pieces { h with regions := ⟨base, size⟩ :: h.regions
                            chunk := some { base, size, offset := 0 } } live blocks) := by
    rw [Heap.pieces, ← List.append_assoc]
    exact (List.perm_append_singleton _ _).symm
  refine ⟨Heap.freeList_of_mem (h := h) rfl hi.freeList.links hi.freeList.sizes, hi.freeBlocks,
    hi.live_aligned, hsep.perm hperm, fun r hr => hcov r (hperm.mem_iff.mpr hr), ?_, ?_⟩
  · intro r hr
    rcases List.mem_cons.mp hr with rfl | hr
    · exact hwf
    · exact hi.regions r hr
  · intro c hc
    injection hc with hc
    rw [← hc]
    exact ⟨hwf.start_pos, Nat.zero_le _, hwf.end_le⟩

end Calls

end Dynld
