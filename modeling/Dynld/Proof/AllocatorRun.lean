import Dynld.Proof.Allocator

/-!
# Runs of the allocator

Every call keeps the invariant, and so does a client that writes to its own blocks.
So the invariant holds of every state a run can reach, and with it everything the
owner of a block relies on.
-/

namespace Dynld

open ByteRange

section Calls

variable {h h' : Heap} {live : List (Nat × Layout)} {blocks : List ByteRange}

/-! ## One call -/

/-- The live blocks after an allocation. A null pointer is not one. -/
def liveAfter (live : List (Nat × Layout)) (p : Nat) (layout : Layout) : List (Nat × Layout) :=
  if p = 0 then live else (p, layout) :: live

theorem HeapInv.takeFromFreeList {layout : Layout} {fuel align : Nat} {found : Option Nat}
    (hi : HeapInv h live blocks)
    (hok : h.takeFromFreeList fuel (normSize layout) align = .ok (found, h')) :
    found = none ∧ h' = h ∨ ∃ p blocks', found = some p ∧ 0 < p ∧
      HeapInv h' ((p, layout) :: live) blocks' ∧ Heap.StoresWithin h h' blocks := by
  have hpos : ∀ b ∈ blocks, 0 < b.start := fun b hb => (hi.block_bounds hb).1
  rw [Heap.takeFromFreeList, show Heap.Cursor.head = Heap.cursorFor [] from rfl] at hok
  have hlist : h.FreeList ([] ++ blocks) := hi.freeList
  rcases Heap.takeFromFreeListLoop_spec (normSize layout) align fuel hlist hpos with
    ⟨hout, -⟩ | hnone | ⟨before, n, after, rfl, hfit, -, htake⟩
  · rw [hout] at hok
    exact absurd hok (by simp)
  · rw [hnone] at hok
    injection hok with hok
    injection hok with h1 h2
    exact .inl ⟨h1.symm, h2.symm⟩
  · rw [htake] at hok
    obtain ⟨rfl, rfl⟩ := Prod.mk.inj (Outcome.ok.inj hok)
    obtain ⟨hi', hstores⟩ := hi.takeNode hfit.1
    exact .inr ⟨n.start, _, rfl, hpos n (List.mem_append_right _ List.mem_cons_self), hi', hstores⟩

theorem HeapInv.bumpAlloc {layout : Layout} {found : Option Nat} (hi : HeapInv h live blocks)
    (hok : h.bumpAlloc (normSize layout) (max layout.align minAlign) = .ok (found, h')) :
    HeapInv h' (liveAfter live (found.getD 0) layout) blocks ∧ h'.stores = h.stores ∧
      (found = none → h' = h) ∧ (∀ p, found = some p → 0 < p) := by
  obtain ⟨hpow, hmod⟩ := normAlign_spec layout
  rcases Heap.bumpAlloc_spec hpow hi.chunk hok with
    ⟨rfl, rfl⟩ | ⟨c, p, rfl, hc, hal, hle, hend, rfl⟩
  · exact ⟨hi, rfl, fun _ => rfl, fun _ hp => absurd hp (by simp)⟩
  · have hbase := (hi.chunk c hc).base_pos
    have hp : p ≠ 0 := by omega
    refine ⟨?_, rfl, fun hn => absurd hn (by simp), fun q hq => ?_⟩
    · rw [Option.getD_some, liveAfter, if_neg hp]
      exact hi.bump hc hle hend (hmod p hal)
    · rw [← Option.some.inj hq]
      omega

/-- **An allocation keeps the invariant**, and stores to free blocks only. -/
theorem HeapInv.alloc {vm : Nat → Option Nat} {fuel p : Nat} {layout : Layout}
    (hi : HeapInv h live blocks) (hvm : VmFresh h vm)
    (hok : h.allocImpl vm fuel layout = .ok (p, h')) :
    (∃ blocks', HeapInv h' (liveAfter live p layout) blocks') ∧
      Heap.StoresWithin h h' blocks := by
  rw [Heap.allocImpl, normalize_eq, Outcome.ok_bind] at hok
  simp only [] at hok
  split at hok
  · -- a large block comes straight from the backend
    rename_i hlarge
    rw [Heap.vmAlloc] at hok
    cases hbase : vm (normSize layout) with
    | none =>
        rw [hbase] at hok
        obtain ⟨rfl, rfl⟩ := Prod.mk.inj (Outcome.ok.inj hok)
        exact ⟨⟨blocks, hi⟩, .refl _ _⟩
    | some base =>
        rw [hbase] at hok
        obtain ⟨rfl, rfl⟩ := Prod.mk.inj (Outcome.ok.inj hok)
        obtain ⟨hwf, hfresh⟩ := hvm _ _ hbase
        have hne : base ≠ 0 := Nat.pos_iff_ne_zero.mp hwf.start_pos
        refine ⟨⟨blocks, ?_⟩, ⟨[], rfl, fun _ hs => absurd hs (by simp)⟩⟩
        rw [liveAfter, if_neg hne]
        exact hi.large hlarge hwf hfresh
  · obtain ⟨⟨found, h1⟩, htake, hrest⟩ := Outcome.bind_eq_ok.mp hok
    rcases hi.takeFromFreeList htake with ⟨rfl, rfl⟩ | ⟨q, blocks', rfl, hq, hi', hstores⟩
    · -- nothing on the free list fits
      obtain ⟨⟨found, h2⟩, hbump, hrest⟩ := Outcome.bind_eq_ok.mp hrest
      obtain ⟨hi2, hst2, hnone, hsome⟩ := hi.bumpAlloc hbump
      -- the chunk that is there serves it, or a fresh one is asked for
      cases found with
      | some q =>
          obtain ⟨rfl, rfl⟩ := Prod.mk.inj (Outcome.ok.inj hrest)
          exact ⟨⟨blocks, hi2⟩, ⟨[], hst2, fun _ hs => absurd hs (by simp)⟩⟩
      | none =>
          -- a bump that failed has changed nothing
          rw [hnone rfl] at hrest
          obtain ⟨sum, -, hrest⟩ := Outcome.bind_eq_ok.mp hrest
          rw [Heap.vmAlloc] at hrest
          cases hbase : vm (max chunkSize sum) with
          | none =>
              rw [hbase] at hrest
              obtain ⟨rfl, rfl⟩ := Prod.mk.inj (Outcome.ok.inj hrest)
              exact ⟨⟨blocks, hi⟩, .refl _ _⟩
          | some base =>
              rw [hbase] at hrest
              obtain ⟨⟨found, h3⟩, hbump, hrest⟩ := Outcome.bind_eq_ok.mp hrest
              obtain ⟨hwf, hfresh⟩ := hvm _ _ hbase
              obtain ⟨hi3, hst3, -, -⟩ := (hi.newChunk hwf hfresh).bumpAlloc hbump
              obtain ⟨rfl, rfl⟩ := Prod.mk.inj (Outcome.ok.inj hrest)
              exact ⟨⟨blocks, hi3⟩, ⟨[], hst3, fun _ hs => absurd hs (by simp)⟩⟩
    · obtain ⟨rfl, rfl⟩ := Prod.mk.inj (Outcome.ok.inj hrest)
      have hne : q ≠ 0 := Nat.pos_iff_ne_zero.mp hq
      refine ⟨⟨blocks', ?_⟩, hstores⟩
      rw [liveAfter, if_neg hne]
      exact hi'

theorem Heap.bumpAlloc_ne_outOfFuel (h : Heap) (size align : Nat) :
    h.bumpAlloc size align ≠ .outOfFuel := by
  have hup : ∀ a, alignUp a align ≠ .outOfFuel := fun a =>
    Outcome.bind_ne_outOfFuel (Outcome.add_ne_outOfFuel _ _ _) fun _ _ =>
      Outcome.bind_ne_outOfFuel (Outcome.sub_ne_outOfFuel _ _) fun _ _ => by simp
  unfold Heap.bumpAlloc
  cases h.chunk with
  | none => simp
  | some c =>
      refine Outcome.bind_ne_outOfFuel (Outcome.add_ne_outOfFuel _ _ _) fun _ _ =>
        Outcome.bind_ne_outOfFuel (hup _) fun aligned _ => ?_
      by_cases hfits : aligned + size < 2 ^ 64 ∧ c.base ≤ aligned + size
      · rw [if_pos hfits]
        by_cases hroom : c.size < aligned + size - c.base
        · simp only [if_pos hroom]
          simp
        · simp only [if_neg hroom]
          simp
      · rw [if_neg hfits]
        simp

/-- Enough fuel for the list, and the allocation does not run out of it. -/
theorem HeapInv.alloc_ne_outOfFuel {vm : Nat → Option Nat} {layout : Layout} {fuel : Nat}
    (hi : HeapInv h live blocks) (hf : blocks.length < fuel) :
    h.allocImpl vm fuel layout ≠ .outOfFuel := by
  have hpos : ∀ b ∈ blocks, 0 < b.start := fun b hb => (hi.block_bounds hb).1
  have htake : h.takeFromFreeList fuel (normSize layout) (max layout.align minAlign)
      ≠ .outOfFuel := by
    have hlist : h.FreeList ([] ++ blocks) := hi.freeList
    rw [Heap.takeFromFreeList, show Heap.Cursor.head = Heap.cursorFor [] from rfl]
    rcases Heap.takeFromFreeListLoop_spec (normSize layout) (max layout.align minAlign) fuel hlist
      hpos with ⟨-, hle⟩ | hnone | ⟨_, _, _, -, -, -, hok⟩
    · omega
    · rw [hnone]; simp
    · rw [hok]; simp
  rw [Heap.allocImpl, normalize_eq, Outcome.ok_bind]
  simp only []
  split
  · split <;> simp
  · refine Outcome.bind_ne_outOfFuel htake fun found _ => ?_
    split
    · simp
    · refine Outcome.bind_ne_outOfFuel (Heap.bumpAlloc_ne_outOfFuel _ _ _) fun found _ => ?_
      split
      · simp
      · refine Outcome.bind_ne_outOfFuel (Outcome.add_ne_outOfFuel _ _ _) fun _ _ => ?_
        split
        · simp
        · exact Outcome.bind_ne_outOfFuel (Heap.bumpAlloc_ne_outOfFuel _ _ _) fun _ _ => by simp

/-- A small block that is freed is the first one of the free list. -/
theorem HeapInv.freeSmall {p : Nat} {layout : Layout} (hi : HeapInv h live blocks)
    (hlive : (p, layout) ∈ live) (hsmall : normSize layout < largeThreshold) :
    HeapInv { h.nodeWrite p h.free (normSize layout) with free := p } (live.erase (p, layout))
        (liveBlock (p, layout) :: blocks) ∧
      Heap.StoresWithin h { h.nodeWrite p h.free (normSize layout) with free := p }
        [liveBlock (p, layout)] := by
  have hperm := List.perm_cons_erase hlive
  have hpieces : (h.pieces live blocks).Perm
      (liveBlock (p, layout) :: h.pieces (live.erase (p, layout)) blocks) := by
    refine List.Perm.trans ?_ List.perm_middle
    exact ((hperm.map liveBlock).append_right _).append_left _
  -- the block changes sides; the pieces of the heap stay the same
  have hsep := hi.separate.perm hpieces
  obtain ⟨hdisj, -⟩ := List.pairwise_cons.mp hsep
  have hal : ∀ l ∈ live.erase (p, layout), normSize l.2 < largeThreshold → l.1 % minAlign = 0 :=
    fun l hl => hi.live_aligned l (List.mem_of_mem_erase hl)
  have hblock : CoveredBy (liveBlock (p, layout)) h.regions :=
    hi.covered _ (hpieces.mem_iff.mpr List.mem_cons_self)
  obtain ⟨-, hge, hmod⟩ := normSize_spec layout
  have hsize := hge
  rw [minReuse] at hsize
  have hbounds := covered_bounds hi.regions hblock (show 0 < normSize layout by omega)
  have hfree : Heap.FreeBlock (liveBlock (p, layout)) := ⟨hi.live_aligned _ hlive hsmall, hmod, hge⟩
  have hpush := hi.freeList.push (b := liveBlock (p, layout))
    (hi.freeList.free_lt fun b hb => hi.block_lt hb)
    (show normSize layout < 2 ^ 64 by
      have hpos : 0 < p := hbounds.1
      have hend : p + normSize layout ≤ 2 ^ 64 := hbounds.2
      omega)
    (fun c hc => (hdisj c (List.mem_append_left _ hc)).symm.mono
      (hi.freeBlocks c hc).header_within hfree.header_within)
  refine ⟨⟨hpush, ?_, hal, hsep, ?_, hi.regions, hi.chunk⟩, ?_⟩
  · intro b hb
    rcases List.mem_cons.mp hb with rfl | hb
    · exact hfree
    · exact hi.freeBlocks b hb
  · exact fun r hr => hi.covered r (hpieces.mem_iff.mpr hr)
  · exact Heap.nodeWrite_stores hfree List.mem_cons_self (Within.refl _)

/-- A large block that is freed goes back to the backend, if it takes it. -/
theorem HeapInv.freeLarge {takesBack : Bool} {p : Nat} {layout : Layout}
    (hi : HeapInv h live blocks) (hlive : (p, layout) ∈ live) :
    HeapInv (if takesBack then { h with regions := h.regions.erase ⟨p, normSize layout⟩ } else h)
      (live.erase (p, layout)) blocks := by
  have hpieces : (h.pieces live blocks).Perm
      (liveBlock (p, layout) :: h.pieces (live.erase (p, layout)) blocks) := by
    refine List.Perm.trans ?_ List.perm_middle
    exact (((List.perm_cons_erase hlive).map liveBlock).append_right _).append_left _
  obtain ⟨hdisj, hsep⟩ := List.pairwise_cons.mp (hi.separate.perm hpieces)
  have hcov : ∀ r ∈ h.pieces (live.erase (p, layout)) blocks, CoveredBy r h.regions :=
    fun r hr => hi.covered r (hpieces.mem_iff.mpr (List.mem_cons_of_mem _ hr))
  have hal : ∀ l ∈ live.erase (p, layout), normSize l.2 < largeThreshold → l.1 % minAlign = 0 :=
    fun l hl => hi.live_aligned l (List.mem_of_mem_erase hl)
  split
  · refine ⟨Heap.freeList_of_mem (h := h) rfl hi.freeList.links hi.freeList.sizes,
      hi.freeBlocks, hal, hsep, ?_, ?_, hi.chunk⟩
    · exact fun r hr => (hcov r hr).erase (hdisj r hr).symm
    · exact fun r hr => hi.regions r (List.mem_of_mem_erase hr)
  · exact ⟨hi.freeList, hi.freeBlocks, hal, hsep, hcov, hi.regions, hi.chunk⟩

theorem Heap.deallocImpl_eq {takesBack : Bool} {p : Nat} (hp : p ≠ 0) (layout : Layout) :
    h.deallocImpl takesBack p layout = .ok
      (if largeThreshold ≤ normSize layout then
        if takesBack then { h with regions := h.regions.erase ⟨p, normSize layout⟩ } else h
      else { h.nodeWrite p h.free (normSize layout) with free := p }) := by
  rw [Heap.deallocImpl, if_neg hp, normalize_eq, Outcome.ok_bind]
  simp only []
  split <;> rfl

/-- A live block is not at the null pointer. -/
theorem HeapInv.live_ne_zero {p : Nat} {layout : Layout} (hi : HeapInv h live blocks)
    (hlive : (p, layout) ∈ live) : p ≠ 0 := by
  have hblock : CoveredBy (liveBlock (p, layout)) h.regions :=
    hi.covered _ (List.mem_append_right _ (List.mem_append_left _ (List.mem_map_of_mem hlive)))
  obtain ⟨-, hge, -⟩ := normSize_spec layout
  rw [minReuse] at hge
  have hbounds := covered_bounds hi.regions hblock (show 0 < normSize layout by omega)
  exact Nat.pos_iff_ne_zero.mp hbounds.1

/-- **A deallocation keeps the invariant**, and stores to the freed block only. -/
theorem HeapInv.dealloc {takesBack : Bool} {p : Nat} {layout : Layout}
    (hi : HeapInv h live blocks) (hlive : (p, layout) ∈ live)
    (hok : h.deallocImpl takesBack p layout = .ok h') :
    (∃ blocks', HeapInv h' (live.erase (p, layout)) blocks') ∧
      Heap.StoresWithin h h' [liveBlock (p, layout)] := by
  rw [Heap.deallocImpl_eq (hi.live_ne_zero hlive)] at hok
  obtain rfl := Outcome.ok.inj hok
  by_cases hlarge : largeThreshold ≤ normSize layout
  · rw [if_pos hlarge]
    refine ⟨⟨blocks, hi.freeLarge hlive⟩, ?_⟩
    split
    · exact ⟨[], rfl, fun _ hs => absurd hs (by simp)⟩
    · exact .refl _ _
  · rw [if_neg hlarge]
    obtain ⟨hi', hstores⟩ := hi.freeSmall hlive (Nat.lt_of_not_le hlarge)
    exact ⟨⟨_, hi'⟩, hstores⟩

/-- The clients write to their own blocks, and the rest of the process outside the regions. -/
def ClientWrite (h : Heap) (live : List (Nat × Layout)) (mem : Mem) : Prop :=
  ∀ a, mem a ≠ h.mem a → (∃ l ∈ live, a ∈ userRange l) ∨ ∀ r ∈ h.regions, a ∉ r

theorem HeapInv.client {mem : Mem} (hi : HeapInv h live blocks) (hw : ClientWrite h live mem) :
    HeapInv { h with mem := mem } live blocks := by
  -- no byte of a free block is in a live block, and each is in a region
  have hkept : ∀ b ∈ blocks, ∀ a ∈ b, mem a = h.mem a := by
    intro b hb a ha
    apply Classical.byContradiction
    intro hne
    rcases hw a hne with ⟨l, hl, hal⟩ | hout
    · have hd := (List.pairwise_append.mp hi.separate).2.2 b hb (liveBlock l)
        (List.mem_append_left _ (List.mem_map_of_mem hl))
      exact hd a ha (userRange_within l a hal)
    · obtain ⟨r, hr, har⟩ := hi.covered b (List.mem_append_left _ hb) a ha
      exact hout r hr har
  have hlist : Heap.FreeList { h with mem := mem } blocks := by
    refine hi.freeList.frame rfl fun b hb => ?_
    have hge := (hi.freeBlocks b hb).size_ge
    rw [minReuse] at hge
    have hnext : Within ⟨b.start, 8⟩ b :=
      within_of_le (Nat.le_refl _) (show b.start + 8 ≤ b.start + b.len by omega)
    have hsize : Within ⟨b.start + 8, 8⟩ b :=
      within_of_le (Nat.le_add_right _ _) (show b.start + 8 + 8 ≤ b.start + b.len by omega)
    exact ⟨Mem.readWord_congr fun x hx => hkept b hb x (hnext x hx),
      Mem.readWord_congr fun x hx => hkept b hb x (hsize x hx)⟩
  exact ⟨hlist, hi.freeBlocks, hi.live_aligned, hi.separate, hi.covered, hi.regions, hi.chunk⟩

end Calls

/-! ## Runs -/

/-- A heap, and the blocks its clients hold. -/
structure AllocRun where
  heap : Heap
  live : List (Nat × Layout)

/-- One call that returned, or a write of a client. -/
inductive AllocStep : AllocRun → AllocRun → Prop where
  | alloc {r : AllocRun} {vm : Nat → Option Nat} {fuel p : Nat} {layout : Layout} {h : Heap} :
      VmFresh r.heap vm → r.heap.allocImpl vm fuel layout = .ok (p, h) →
      AllocStep r ⟨h, liveAfter r.live p layout⟩
  | dealloc {r : AllocRun} {takesBack : Bool} {p : Nat} {layout : Layout} {h : Heap} :
      (p, layout) ∈ r.live → r.heap.deallocImpl takesBack p layout = .ok h →
      AllocStep r ⟨h, r.live.erase (p, layout)⟩
  | client {r : AllocRun} {mem : Mem} : ClientWrite r.heap r.live mem →
      AllocStep r ⟨{ r.heap with mem := mem }, r.live⟩

/-- What a run can reach from a new allocator. -/
inductive AllocReachable : AllocRun → Prop where
  | init (mem : Mem) :
      AllocReachable ⟨{ chunk := none, free := 0, mem, regions := [], stores := [] }, []⟩
  | step {r r' : AllocRun} : AllocReachable r → AllocStep r r' → AllocReachable r'

theorem AllocReachable.inv {r : AllocRun} (hr : AllocReachable r) :
    ∃ blocks, HeapInv r.heap r.live blocks := by
  induction hr with
  | init mem =>
      refine ⟨[], ⟨rfl, fun _ hb => absurd hb (by simp)⟩, ?_, ?_, List.Pairwise.nil, ?_, ?_, ?_⟩
      all_goals exact fun _ hb => absurd hb (by simp [Heap.pieces, Heap.tail])
  | step _ hs ih =>
      obtain ⟨blocks, hi⟩ := ih
      cases hs with
      | alloc hvm hok => exact (hi.alloc hvm hok).1
      | dealloc hlive hok => exact (hi.dealloc hlive hok).1
      | client hw => exact ⟨blocks, hi.client hw⟩

/-- What the clients of an allocator rely on. -/
structure AllocatorSafe (r : AllocRun) : Prop where
  /-- No two live blocks share a byte. -/
  live_disjoint : r.live.Pairwise fun a b => Apart (userRange a) (userRange b)
  /-- The free list ends, visits no node twice, and its blocks are aligned, big enough, disjoint
  from each other, from the live blocks and from the unused tail of the chunk. -/
  free_list : ∃ blocks, r.heap.FreeList blocks ∧ (blocks.map start).Nodup ∧
    (∀ b ∈ blocks, Heap.FreeBlock b) ∧ Separate blocks ∧
    (∀ b ∈ blocks, ∀ l ∈ r.live, Apart b (userRange l)) ∧
    ∀ b ∈ blocks, ∀ t ∈ r.heap.tail, Apart b t
  /-- The search of the free list ends. -/
  alloc_returns : ∃ n, ∀ fuel, n < fuel → ∀ vm layout,
    r.heap.allocImpl vm fuel layout ≠ .outOfFuel
  /-- An allocation stores to no live block. -/
  alloc_stores : ∀ {vm : Nat → Option Nat} {fuel p : Nat} {layout : Layout} {h : Heap},
    VmFresh r.heap vm → r.heap.allocImpl vm fuel layout = .ok (p, h) →
    ∃ new, h.stores = new ++ r.heap.stores ∧ ∀ s ∈ new, ∀ l ∈ r.live, Apart s (userRange l)
  /-- A deallocation stores to no live block but the freed one. -/
  dealloc_stores : ∀ {takesBack : Bool} {p : Nat} {layout : Layout} {h : Heap},
    (p, layout) ∈ r.live → r.heap.deallocImpl takesBack p layout = .ok h →
    ∃ new, h.stores = new ++ r.heap.stores ∧
      ∀ s ∈ new, ∀ l ∈ r.live.erase (p, layout), Apart s (userRange l)

/-- **Every state a run can reach is safe.** -/
theorem allocator_safe {r : AllocRun} (hr : AllocReachable r) : AllocatorSafe r := by
  obtain ⟨blocks, hi⟩ := hr.inv
  obtain ⟨hblocks, hrest, hcross⟩ := List.pairwise_append.mp hi.separate
  obtain ⟨hlive, -, -⟩ := List.pairwise_append.mp hrest
  have hblock_live : ∀ b ∈ blocks, ∀ l ∈ r.live, Apart b (userRange l) := fun b hb l hl =>
    (hcross b hb (liveBlock l) (List.mem_append_left _ (List.mem_map_of_mem hl))).mono
      (Within.refl b) (userRange_within l)
  refine ⟨?_, ⟨blocks, hi.freeList, ?_, hi.freeBlocks, hblocks, hblock_live, ?_⟩,
    ⟨blocks.length, fun fuel hf vm layout => hi.alloc_ne_outOfFuel hf⟩, ?_, ?_⟩
  · exact (List.pairwise_map.mp hlive).imp fun hd =>
      hd.mono (userRange_within _) (userRange_within _)
  · -- blocks that start at the same address would share its byte
    refine List.pairwise_map.mpr (hblocks.imp_of_mem ?_)
    intro a b ha hb hd he
    have hage := (hi.freeBlocks a ha).size_ge
    have hbge := (hi.freeBlocks b hb).size_ge
    rw [minReuse] at hage hbge
    exact hd a.start ⟨Nat.le_refl _, by omega⟩ ⟨by omega, by omega⟩
  · exact fun b hb t ht => hcross b hb t (List.mem_append_right _ ht)
  · -- an allocation stores into free blocks only
    intro vm fuel p layout h hvm hok
    obtain ⟨new, he, hw⟩ := (hi.alloc hvm hok).2
    refine ⟨new, he, fun s hs l hl => ?_⟩
    obtain ⟨b, hb, hsb⟩ := hw s hs
    exact (hblock_live b hb l hl).mono hsb (Within.refl _)
  · -- and a deallocation into the block it is given
    intro takesBack p layout h hmem hok
    obtain ⟨new, he, hw⟩ := (hi.dealloc hmem hok).2
    refine ⟨new, he, fun s hs l hl => ?_⟩
    obtain ⟨b, hb, hsb⟩ := hw s hs
    rw [List.mem_singleton.mp hb] at hsb
    have hpw := (List.perm_cons_erase hmem).pairwise (List.pairwise_map.mp hlive)
      fun hd => hd.symm
    exact ((List.pairwise_cons.mp hpw).1 l hl).mono hsb (userRange_within l)

/-! ## A short run

A block of 24 bytes is allocated from a new chunk, freed, and a block of 8 bytes is
taken from what it was; the rest does not hold a node. In another run the second of
three blocks is freed. -/

def sampleLayout24 : Layout := ⟨24, 8, ⟨3, rfl⟩, by decide +kernel⟩

def sampleLayout8 : Layout := ⟨8, 8, ⟨3, rfl⟩, by decide⟩

/-- A backend with one region to give. -/
def sampleVm (size : Nat) : Option Nat := if size = chunkSize then some 0x100000 else none

def sampleHeap : Heap :=
  { chunk := none, free := 0, mem := fun _ => 0, regions := [], stores := [] }

/-- The heap with a new chunk, and 24 of its bytes in use. -/
def sampleHeap1 : Heap :=
  { sampleHeap with chunk := some ⟨0x100000, chunkSize, 24⟩, regions := [⟨0x100000, chunkSize⟩] }

def sampleHeap2 : Heap := { sampleHeap1.nodeWrite 0x100000 0 24 with free := 0x100000 }

def sampleHeap3 : Heap := sampleHeap2.takeNode .head 0x100000 16

theorem sampleVm_fresh : VmFresh sampleHeap sampleVm := by
  intro size base hb
  unfold sampleVm at hb
  split at hb
  · rename_i hsize
    injection hb with hb
    rw [hsize, ← hb]
    exact ⟨⟨by decide, by decide⟩, fun _ hr => absurd hr (by simp [sampleHeap])⟩
  · exact absurd hb (by simp)

theorem sampleHeap1_reachable : AllocReachable ⟨sampleHeap1, [(0x100000, sampleLayout24)]⟩ := by
  have h1 := AllocStep.alloc (r := ⟨sampleHeap, []⟩) sampleVm_fresh
    (show sampleHeap.allocImpl sampleVm 1 sampleLayout24 = .ok (0x100000, sampleHeap1) from rfl)
  exact (AllocReachable.init (fun _ => 0)).step h1

/-- The heap with one free block, of 24 bytes. -/
theorem sampleHeap2_reachable : AllocReachable ⟨sampleHeap2, []⟩ := by
  have h2 := AllocStep.dealloc (r := ⟨sampleHeap1, [(0x100000, sampleLayout24)]⟩)
    List.mem_cons_self
    (show sampleHeap1.deallocImpl true 0x100000 sampleLayout24 = .ok sampleHeap2 from rfl)
  exact sampleHeap1_reachable.step h2

theorem sampleRun_reachable : AllocReachable ⟨sampleHeap3, [(0x100000, sampleLayout8)]⟩ := by
  have hvm : VmFresh sampleHeap2 (fun _ => none) := fun _ _ hb => absurd hb (by simp)
  have h3 := AllocStep.alloc (r := ⟨sampleHeap2, []⟩) hvm
    (show sampleHeap2.allocImpl (fun _ => none) 2 sampleLayout8
      = .ok (0x100000, sampleHeap3) from rfl)
  exact sampleHeap2_reachable.step h3

/-- The heap with three blocks of 24 bytes in use. -/
def sampleHeapFull : Heap := { sampleHeap1 with chunk := some ⟨0x100000, chunkSize, 72⟩ }

/-- The one in the middle is freed. -/
def sampleHeapHole : Heap := { sampleHeapFull.nodeWrite 0x100018 0 24 with free := 0x100018 }

theorem sampleHeapHole_reachable : AllocReachable
    ⟨sampleHeapHole, [(0x100030, sampleLayout24), (0x100000, sampleLayout24)]⟩ := by
  have hvm : VmFresh sampleHeap1 (fun _ => none) := fun _ _ hb => absurd hb (by simp)
  have h2 := AllocStep.alloc (r := ⟨sampleHeap1, [(0x100000, sampleLayout24)]⟩) hvm
    (show sampleHeap1.allocImpl (fun _ => none) 1 sampleLayout24
      = .ok (0x100018, { sampleHeap1 with chunk := some ⟨0x100000, chunkSize, 48⟩ }) from rfl)
  have h3 := AllocStep.alloc (r := ⟨{ sampleHeap1 with chunk := some ⟨0x100000, chunkSize, 48⟩ },
    [(0x100018, sampleLayout24), (0x100000, sampleLayout24)]⟩) hvm
    (show Heap.allocImpl _ (fun _ => none) 1 sampleLayout24 = .ok (0x100030, sampleHeapFull) from rfl)
  have h4 := AllocStep.dealloc (r := ⟨sampleHeapFull, [(0x100030, sampleLayout24),
    (0x100018, sampleLayout24), (0x100000, sampleLayout24)]⟩)
    (List.mem_cons_of_mem _ List.mem_cons_self)
    (show sampleHeapFull.deallocImpl true 0x100018 sampleLayout24 = .ok sampleHeapHole from rfl)
  exact ((sampleHeap1_reachable.step h2).step h3).step h4

/-- Two blocks are live, and the one between them is free. -/
theorem sampleRun_safe : AllocatorSafe
    ⟨sampleHeapHole, [(0x100030, sampleLayout24), (0x100000, sampleLayout24)]⟩ :=
  allocator_safe sampleHeapHole_reachable

end Dynld
