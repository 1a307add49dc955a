import Mathlib.Algebra.GroupWithZero.Nat
import Dynld.Proof.AllocatorRun

/-!
# Where a block comes from

An allocation has four sources: the free list, the current chunk, a fresh chunk, and
for a large block the backend itself. `blockSource` says which of them serves a
request, and `allocImpl_eq` that this is what an allocation does. So what is proved of
each source is proved of every allocation.

Only the last two ask the backend, and the search for a block that comes before that
leaves the heap as it was.
-/

namespace Dynld

open ByteRange

/-! ## The four sources -/

/-- The source of a block, with the heap there is when the search for it is over. -/
inductive BlockSource where
  /-- A block of the free list. -/
  | freeList (p : Nat) (h : Heap)
  /-- The current chunk. -/
  | chunk (p : Nat) (h : Heap)
  /-- A fresh chunk of this size. -/
  | freshChunk (size : Nat) (h : Heap)
  /-- The backend. -/
  | backend (size : Nat) (h : Heap)

namespace BlockSource

/-- The size that the backend is asked for. -/
def asked : BlockSource → Option Nat
  | freeList _ _ => none
  | chunk _ _ => none
  | freshChunk size _ => some size
  | backend size _ => some size

/-- The rest of the allocation. -/
def serve (vm : Nat → Option Nat) (layout : Layout) : BlockSource → Outcome (Nat × Heap)
  | freeList p h => .ok (p, h)
  | chunk p h => .ok (p, h)
  | freshChunk size h =>
      match h.vmAlloc vm size with
      | none => .ok (0, h)
      | some (base, h) => do
          let h := { h with chunk := some { base, size, offset := 0 } }
          let (found, h) ← h.bumpAlloc (normSize layout) (max layout.align minAlign)
          .ok (found.getD 0, h)
  | backend size h =>
      match h.vmAlloc vm size with
      | some (p, h) => .ok (p, h)
      | none => .ok (0, h)

end BlockSource

namespace Heap

/-- The source that serves a request. -/
def blockSource (h : Heap) (fuel : Nat) (layout : Layout) : Outcome BlockSource :=
  if largeThreshold ≤ normSize layout then .ok (.backend (normSize layout) h)
  else do
    let (found, h) ← h.takeFromFreeList fuel (normSize layout) (max layout.align minAlign)
    match found with
    | some p => .ok (.freeList p h)
    | none => do
        let (found, h) ← h.bumpAlloc (normSize layout) (max layout.align minAlign)
        match found with
        | some p => .ok (.chunk p h)
        | none => do
            let sum ← Outcome.add 64 (normSize layout) (max layout.align minAlign)
            .ok (.freshChunk (max chunkSize sum) h)

/-- **An allocation finds the source of the block, and is served by it.** -/
theorem allocImpl_eq (h : Heap) (vm : Nat → Option Nat) (fuel : Nat) (layout : Layout) :
    h.allocImpl vm fuel layout = h.blockSource fuel layout >>= BlockSource.serve vm layout := by
  rw [allocImpl, normalize_eq, Outcome.ok_bind, blockSource]
  simp only []
  by_cases hlarge : largeThreshold ≤ normSize layout
  · rw [if_pos hlarge, if_pos hlarge]
    rfl
  · -- the three small sources are tried in the same order on both sides
    rw [if_neg hlarge, if_neg hlarge, Outcome.bind_assoc]
    congr 1
    funext taken
    obtain ⟨found, h₁⟩ := taken
    cases found with
    | some p => rfl
    | none =>
        simp only []
        rw [Outcome.bind_assoc]
        congr 1
        funext bumped
        obtain ⟨found, h₂⟩ := bumped
        cases found with
        | some p => rfl
        | none =>
            simp only []
            rw [Outcome.bind_assoc]
            rfl

/-- The backend is asked for one size at most. -/
theorem allocImpl_congr {h : Heap} {fuel : Nat} {layout : Layout} {source : BlockSource}
    (hsource : h.blockSource fuel layout = .ok source) {vm vm' : Nat → Option Nat}
    (hvm : ∀ size, source.asked = some size → vm size = vm' size) :
    h.allocImpl vm fuel layout = h.allocImpl vm' fuel layout := by
  rw [allocImpl_eq, allocImpl_eq, hsource, Outcome.ok_bind, Outcome.ok_bind]
  cases source with
  | freeList p h₁ => rfl
  | chunk p h₁ => rfl
  | freshChunk size h₁ =>
      have hsize : vm size = vm' size := hvm size rfl
      rw [BlockSource.serve, BlockSource.serve, vmAlloc, vmAlloc, hsize]
  | backend size h₁ =>
      have hsize : vm size = vm' size := hvm size rfl
      rw [BlockSource.serve, BlockSource.serve, vmAlloc, vmAlloc, hsize]

/-- What is known of the source of a block, with the blocks of the free list. -/
inductive Serves (h : Heap) (blocks : List ByteRange) (layout : Layout) : BlockSource → Prop where
  | freeList {before after : List ByteRange} {n : ByteRange} :
      normSize layout < largeThreshold → blocks = before ++ n :: after →
      Fits (normSize layout) (max layout.align minAlign) n →
      (∀ b ∈ before, ¬ Fits (normSize layout) (max layout.align minAlign) b) →
      Serves h blocks layout
        (.freeList n.start (h.takeNode (cursorFor before) n.start (normSize layout)))
  | chunk {c : Chunk} {p : Nat} :
      normSize layout < largeThreshold → h.chunk = some c → p % max layout.align minAlign = 0 →
      c.base + c.offset ≤ p →
      Serves h blocks layout
        (.chunk p { h with chunk := some { c with offset := p + normSize layout - c.base } })
  | freshChunk :
      normSize layout < largeThreshold →
      Serves h blocks layout
        (.freshChunk (max chunkSize (normSize layout + max layout.align minAlign)) h)
  | backend :
      largeThreshold ≤ normSize layout → Serves h blocks layout (.backend (normSize layout) h)

end Heap

section Inv

variable {h : Heap} {live : List (Nat × Layout)} {blocks : List ByteRange} {layout : Layout}

theorem HeapInv.blockSource_serves {fuel : Nat} {source : BlockSource}
    (hi : HeapInv h live blocks) (hok : h.blockSource fuel layout = .ok source) :
    h.Serves blocks layout source := by
  rw [Heap.blockSource] at hok
  split at hok
  · rename_i hlarge
    obtain rfl := Outcome.ok.inj hok
    exact .backend hlarge
  · rename_i hlarge
    have hsmall : normSize layout < largeThreshold := Nat.lt_of_not_le hlarge
    obtain ⟨⟨found, h₁⟩, htake, hrest⟩ := Outcome.bind_eq_ok.mp hok
    have hpos : ∀ b ∈ blocks, 0 < b.start := fun b hb => (hi.block_bounds hb).1
    have hlist : h.FreeList ([] ++ blocks) := hi.freeList
    rw [Heap.takeFromFreeList, show Heap.Cursor.head = Heap.cursorFor [] from rfl] at htake
    rcases Heap.takeFromFreeListLoop_spec (normSize layout) (max layout.align minAlign) fuel hlist
      hpos with ⟨hout, -⟩ | hnone | ⟨before, n, after, hblocks, hfit, hbefore, hfound⟩
    · -- out of fuel: no source was found
      rw [hout] at htake
      exact absurd htake (by simp)
    · -- nothing on the free list fits
      rw [hnone] at htake
      obtain ⟨rfl, rfl⟩ := Prod.mk.inj (Outcome.ok.inj htake)
      obtain ⟨⟨found, h₂⟩, hbump, hserve⟩ := Outcome.bind_eq_ok.mp hrest
      -- the chunk that is there is tried next, and a fresh one if it is full
      rcases Heap.bumpAlloc_spec (normAlign_spec layout).1 hi.chunk hbump with
        ⟨rfl, rfl⟩ | ⟨c, p, rfl, hc, hal, hle, -, rfl⟩
      · obtain ⟨sum, hsum, hfresh⟩ := Outcome.bind_eq_ok.mp hserve
        obtain rfl := Outcome.ok.inj hfresh
        rw [(Outcome.add_eq_ok.mp hsum).2]
        exact .freshChunk hsmall
      · obtain rfl := Outcome.ok.inj hserve
        exact .chunk hsmall hc hal hle
    · rw [hfound] at htake
      obtain ⟨rfl, rfl⟩ := Prod.mk.inj (Outcome.ok.inj htake)
      obtain rfl := Outcome.ok.inj hrest
      exact .freeList hsmall hblocks hfit hbefore

/-! ## The search ends -/

/-- An alignment leaves the upper half of the address space to the address it is added to. -/
theorem normAlign_le (layout : Layout) : max layout.align minAlign ≤ 2 ^ 63 := by
  have hfits := layout.fits
  rw [minAlign]
  omega

theorem alignUp_returns {addr : Nat} (haddr : addr < 2 ^ 63) (layout : Layout) :
    ∃ r, alignUp addr (max layout.align minAlign) = .ok r ∧ addr ≤ r ∧
      r < addr + max layout.align minAlign := by
  obtain ⟨k, hk⟩ := (normAlign_spec layout).1
  have hle := normAlign_le layout
  rw [hk] at hle ⊢
  have hup := @alignUp_of_lt addr k (by omega)
  refine ⟨_, hup, (alignUp_eq_ok ⟨k, rfl⟩ hup).1, ?_⟩
  have hpos : 0 < 2 ^ k := Nat.two_pow_pos k
  have hdiv := Nat.div_mul_le_self (addr + 2 ^ k - 1) (2 ^ k)
  omega

/-- A chunk below 2^48 is not where an allocation overflows. -/
theorem Heap.bumpAlloc_returns {h : Heap}
    (hchunk : ∀ c, h.chunk = some c → c.offset ≤ c.size ∧ c.base + c.size ≤ 2 ^ 48) (size : Nat)
    (layout : Layout) : ∃ r, h.bumpAlloc size (max layout.align minAlign) = .ok r := by
  unfold Heap.bumpAlloc
  cases hc : h.chunk with
  | none => exact ⟨_, rfl⟩
  | some c =>
      obtain ⟨hoffset, hend⟩ := hchunk c hc
      have hcur : Outcome.add 64 c.base c.offset = .ok (c.base + c.offset) :=
        Outcome.add_of_lt (by omega)
      obtain ⟨aligned, haligned, -, -⟩ := @alignUp_returns (c.base + c.offset) (by omega) layout
      simp only [hcur, haligned, Outcome.ok_bind]
      by_cases hfits : aligned + size < 2 ^ 64 ∧ c.base ≤ aligned + size
      · rw [if_pos hfits]
        by_cases hroom : c.size < aligned + size - c.base
        · exact ⟨_, if_pos hroom⟩
        · exact ⟨_, if_neg hroom⟩
      · exact ⟨_, if_neg hfits⟩

theorem HeapInv.blockSource_returns {fuel : Nat} (hi : HeapInv h live blocks)
    (hf : blocks.length < fuel) (hlow : ∀ c, h.chunk = some c → c.base + c.size ≤ 2 ^ 48)
    (layout : Layout) : ∃ source, h.blockSource fuel layout = .ok source := by
  rw [Heap.blockSource]
  by_cases hlarge : largeThreshold ≤ normSize layout
  · exact ⟨_, if_pos hlarge⟩
  · rw [if_neg hlarge, Heap.takeFromFreeList, show Heap.Cursor.head = Heap.cursorFor [] from rfl]
    have hpos : ∀ b ∈ blocks, 0 < b.start := fun b hb => (hi.block_bounds hb).1
    have hlist : h.FreeList ([] ++ blocks) := hi.freeList
    rcases Heap.takeFromFreeListLoop_spec (normSize layout) (max layout.align minAlign) fuel hlist
      hpos with ⟨-, hle⟩ | hnone | ⟨_, _, _, -, -, -, hfound⟩
    · omega
    · rw [hnone, Outcome.ok_bind]
      obtain ⟨⟨found, h₁⟩, hbump⟩ := Heap.bumpAlloc_returns
        (fun c hc => ⟨(hi.chunk c hc).offset_le, hlow c hc⟩) (normSize layout) layout
      simp only [hbump, Outcome.ok_bind]
      cases found with
      | some p => exact ⟨_, rfl⟩
      | none =>
          -- `size + align` cannot overflow: both are far below `2 ^ 64`
          have hle := normAlign_le layout
          rw [largeThreshold, chunkSize, pageSize] at hlarge
          have hsum : Outcome.add 64 (normSize layout) (max layout.align minAlign)
              = .ok (normSize layout + max layout.align minAlign) :=
            Outcome.add_of_lt (by omega)
          exact ⟨_, by rw [hsum]; rfl⟩
    · exact ⟨_, by rw [hfound]; rfl⟩

/-- **A fresh chunk has room for the block**, whatever padding the alignment takes. -/
theorem Heap.bumpAlloc_freshChunk {h : Heap} {base size : Nat} (hbase : 0 < base)
    (hend : base + size ≤ 2 ^ 48) (hsize : normSize layout + max layout.align minAlign ≤ size)
    (hchunk : h.chunk = some ⟨base, size, 0⟩) :
    ∃ p h', 0 < p ∧
      h.bumpAlloc (normSize layout) (max layout.align minAlign) = .ok (some p, h') := by
  have hcur : Outcome.add 64 base 0 = .ok base := Outcome.add_of_lt (by omega)
  obtain ⟨p, hp, hge, hlt⟩ := @alignUp_returns base (by omega) layout
  have hfits : p + normSize layout < 2 ^ 64 ∧ base ≤ p + normSize layout := by omega
  have hroom : ¬ size < p + normSize layout - base := by omega
  refine ⟨p, { h with chunk := some ⟨base, size, p + normSize layout - base⟩ }, by omega, ?_⟩
  simp only [Heap.bumpAlloc, hchunk, hcur, hp, Outcome.ok_bind]
  rw [if_pos hfits, if_neg hroom, if_neg (by omega)]

end Inv

/-! ## Alignment -/

/-- The size of a page of the backend. -/
def vmPageSize : Nat := 2 ^ 14

/-- The backend returns pages. -/
def PageAligned (vm : Nat → Option Nat) : Prop :=
  ∀ size base, vm size = some base → 0 < base ∧ base % vmPageSize = 0

theorem mod_align_of_normAlign {layout : Layout} {p : Nat}
    (hp : p % max layout.align minAlign = 0) : p % layout.align = 0 := by
  obtain ⟨k, hk⟩ := layout.align_pow
  have hdvd : layout.align ∣ max layout.align minAlign := by
    by_cases hle : layout.align ≤ minAlign
    · rw [Nat.max_eq_right hle, hk, show minAlign = 2 ^ 3 from rfl]
      rw [hk, show minAlign = 2 ^ 3 from rfl] at hle
      exact Nat.pow_dvd_pow 2 ((Nat.pow_le_pow_iff_right (by decide)).mp hle)
    · have hmax : max layout.align minAlign = layout.align := Nat.max_eq_left (by omega)
      exact ⟨1, by rw [hmax, Nat.mul_one]⟩
  exact Nat.mod_eq_zero_of_dvd (Nat.dvd_trans hdvd (Nat.dvd_of_mod_eq_zero hp))

theorem Heap.bumpAlloc_aligned {h h' : Heap} {size align p : Nat} (halign : ∃ k, align = 2 ^ k)
    (hok : h.bumpAlloc size align = .ok (some p, h')) : p % align = 0 := by
  unfold Heap.bumpAlloc at hok
  split at hok
  · exact absurd hok (by simp)
  · obtain ⟨cur, -, hrest⟩ := Outcome.bind_eq_ok.mp hok
    obtain ⟨aligned, haligned, hfound⟩ := Outcome.bind_eq_ok.mp hrest
    have hmod := (alignUp_eq_ok halign haligned).2
    split at hfound
    · simp only [] at hfound
      split at hfound
      · exact absurd hfound (by simp)
      · have hp := (Prod.mk.inj (Outcome.ok.inj hfound)).1
        split at hp
        · exact absurd hp (by simp)
        · rw [← Option.some.inj hp]
          exact hmod
    · exact absurd hfound (by simp)

/-- A block that is not the backend's own is aligned, whatever the backend returns. -/
theorem BlockSource.serve_aligned {h h' : Heap} {blocks : List ByteRange} {layout : Layout}
    {source : BlockSource} {vm : Nat → Option Nat} {p : Nat} (hserves : h.Serves blocks layout source)
    (hsmall : normSize layout < largeThreshold) (hok : source.serve vm layout = .ok (p, h'))
    (hp : p ≠ 0) : p % layout.align = 0 := by
  cases hserves with
  | freeList _ _ hfit _ =>
      obtain ⟨rfl, -⟩ := Prod.mk.inj (Outcome.ok.inj hok)
      exact mod_align_of_normAlign hfit.2
  | chunk _ _ hal _ =>
      obtain ⟨rfl, -⟩ := Prod.mk.inj (Outcome.ok.inj hok)
      exact mod_align_of_normAlign hal
  | freshChunk _ =>
      rw [serve, Heap.vmAlloc] at hok
      cases hbase : vm (max chunkSize (normSize layout + max layout.align minAlign)) with
      | none =>
          rw [hbase] at hok
          exact absurd (Prod.mk.inj (Outcome.ok.inj hok)).1.symm hp
      | some base =>
          rw [hbase] at hok
          obtain ⟨⟨found, h₁⟩, hbump, hfound⟩ := Outcome.bind_eq_ok.mp hok
          obtain ⟨rfl, -⟩ := Prod.mk.inj (Outcome.ok.inj hfound)
          cases found with
          | none => exact absurd rfl hp
          | some q =>
              exact mod_align_of_normAlign
                (Heap.bumpAlloc_aligned (normAlign_spec layout).1 hbump)
  | backend hlarge => omega

/-- **A block is aligned, unless it is a large one with an alignment of more than a page**: that
one comes straight from the backend, and its alignment is not looked at. -/
theorem allocImpl_aligned_iff {r : AllocRun} (hr : AllocReachable r) (layout : Layout) :
    (∀ vm fuel p h', PageAligned vm → r.heap.allocImpl vm fuel layout = .ok (p, h') → p ≠ 0 →
      p % layout.align = 0) ↔
      normSize layout < largeThreshold ∨ layout.align ≤ vmPageSize := by
  obtain ⟨blocks, hi⟩ := hr.inv
  constructor
  · intro haligned
    by_cases hsmall : normSize layout < largeThreshold
    · exact .inl hsmall
    · -- the backend returns the first page
      have hpage : PageAligned fun _ => some vmPageSize := by
        intro size base hbase
        obtain rfl := Option.some.inj hbase
        exact ⟨by decide, by decide⟩
      have hmod := haligned _ 0 vmPageSize _ hpage
        (by rw [Heap.allocImpl_eq, Heap.blockSource, if_pos (by omega)]; rfl) (by decide)
      exact .inr (Nat.le_of_dvd (by decide) (Nat.dvd_of_mod_eq_zero hmod))
  · -- a small block is aligned whatever its source; a large one is where its region begins
    intro hcase vm fuel p h' hvm hok hp
    rw [Heap.allocImpl_eq] at hok
    obtain ⟨source, hsource, hserve⟩ := Outcome.bind_eq_ok.mp hok
    have hserves := hi.blockSource_serves hsource
    by_cases hsmall : normSize layout < largeThreshold
    · exact BlockSource.serve_aligned hserves hsmall hserve hp
    · have hle : layout.align ≤ vmPageSize := hcase.resolve_left hsmall
      cases hserves with
      | freeList hlt _ _ _ => exact absurd hlt hsmall
      | chunk hlt _ _ _ => exact absurd hlt hsmall
      | freshChunk hlt => exact absurd hlt hsmall
      | backend _ =>
          rw [BlockSource.serve, Heap.vmAlloc] at hserve
          cases hbase : vm (normSize layout) with
          | none =>
              rw [hbase] at hserve
              exact absurd (Prod.mk.inj (Outcome.ok.inj hserve)).1.symm hp
          | some base =>
              rw [hbase] at hserve
              obtain ⟨rfl, -⟩ := Prod.mk.inj (Outcome.ok.inj hserve)
              obtain ⟨k, hk⟩ := layout.align_pow
              rw [hk, vmPageSize] at hle
              have hdvd : layout.align ∣ vmPageSize := by
                rw [hk, vmPageSize]
                exact Nat.pow_dvd_pow 2 ((Nat.pow_le_pow_iff_right (by decide)).mp hle)
              exact Nat.mod_eq_zero_of_dvd
                (Nat.dvd_trans hdvd (Nat.dvd_of_mod_eq_zero (hvm _ _ hbase).2))

/-- A backend whose next region is a page that is not aligned to two. -/
def samplePageVm (size : Nat) : Option Nat := if size = chunkSize then some 0x104000 else none

/-- A large block with an alignment of two pages. -/
def sampleLayoutPages : Layout := ⟨chunkSize, 2 ^ 15, ⟨15, rfl⟩, by decide⟩

theorem samplePageVm_eq {size base : Nat} (h : samplePageVm size = some base) :
    size = chunkSize ∧ base = 0x104000 := by
  unfold samplePageVm at h
  split at h
  · rename_i hsize
    exact ⟨hsize, (Option.some.inj h).symm⟩
  · exact absurd h (by simp)

theorem samplePageVm_fresh : VmFresh sampleHeap samplePageVm := by
  intro size base hbase
  obtain ⟨rfl, rfl⟩ := samplePageVm_eq hbase
  exact ⟨⟨by decide, by decide⟩, fun _ hr => absurd hr (by simp [sampleHeap])⟩

theorem samplePages_misaligned :
    AllocReachable ⟨sampleHeap, []⟩ ∧ VmFresh sampleHeap samplePageVm ∧ PageAligned samplePageVm ∧
    (∃ h', sampleHeap.allocImpl samplePageVm 1 sampleLayoutPages = .ok (0x104000, h')) ∧
    0x104000 % sampleLayoutPages.align ≠ 0 := by
  refine ⟨.init _, samplePageVm_fresh, fun size base hbase => ?_, ⟨_, rfl⟩, by decide⟩
  obtain ⟨-, rfl⟩ := samplePageVm_eq hbase
  exact ⟨by decide, by decide⟩

theorem sampleRun_aligned_iff :
    (∀ vm fuel p h', PageAligned vm → sampleHeap3.allocImpl vm fuel sampleLayout24 = .ok (p, h') →
      p ≠ 0 → p % sampleLayout24.align = 0) ↔
      normSize sampleLayout24 < largeThreshold ∨ sampleLayout24.align ≤ vmPageSize :=
  allocImpl_aligned_iff sampleRun_reachable sampleLayout24

/-! ## Failure -/

/-- The addresses of the backend's regions are below 2^48. -/
def LowAddresses (vm : Nat → Option Nat) : Prop :=
  ∀ size base, vm size = some base → base + size ≤ 2 ^ 48

/-- What a source serves: a null pointer exactly if the backend was asked and refused, and then
the heap that the search left. -/
theorem BlockSource.serve_null_iff {h : Heap} {live : List (Nat × Layout)} {blocks : List ByteRange}
    {layout : Layout} {source : BlockSource} {vm : Nat → Option Nat} (hi : HeapInv h live blocks)
    (hserves : h.Serves blocks layout source) (hvm : VmFresh h vm) (hlow : LowAddresses vm) :
    ∃ p h', source.serve vm layout = .ok (p, h') ∧
      (p = 0 ↔ ∃ size, source.asked = some size ∧ vm size = none) ∧ (p = 0 → h' = h) := by
  cases hserves with
  | @freeList before after n _ hblocks _ _ =>
      have hn : n ∈ blocks := by
        rw [hblocks]
        exact List.mem_append_right before List.mem_cons_self
      have hpos : n.start ≠ 0 := Nat.pos_iff_ne_zero.mp (hi.block_bounds hn).1
      exact ⟨_, _, rfl, by simp [asked, hpos], fun h0 => absurd h0 hpos⟩
  | @chunk c p _ hc _ hle =>
      have hpos : p ≠ 0 := by
        have hbase := (hi.chunk c hc).base_pos
        omega
      exact ⟨_, _, rfl, by simp [asked, hpos], fun h0 => absurd h0 hpos⟩
  | freshChunk hsmall =>
      -- the only null is the one of the backend: a fresh chunk has room
      cases hbase : vm (max chunkSize (normSize layout + max layout.align minAlign)) with
      | none =>
          refine ⟨0, h, by rw [serve, Heap.vmAlloc, hbase]; rfl, ?_, fun _ => rfl⟩
          exact ⟨fun _ => ⟨_, rfl, hbase⟩, fun _ => rfl⟩
      | some base =>
          obtain ⟨p, h', hp, hbump⟩ := @Heap.bumpAlloc_freshChunk layout
            { h with
              regions := ⟨base, max chunkSize (normSize layout + max layout.align minAlign)⟩
                :: h.regions
              chunk := some ⟨base, max chunkSize (normSize layout + max layout.align minAlign), 0⟩ }
            _ _ (hvm _ _ hbase).1.start_pos (hlow _ _ hbase) (Nat.le_max_right _ _) rfl
          refine ⟨p, h', ?_, ?_, fun h0 => by omega⟩
          · rw [serve, Heap.vmAlloc, hbase]
            simp only [Option.map_some, hbump, Outcome.ok_bind, Option.getD_some]
          · refine ⟨fun h0 => by omega, ?_⟩
            rintro ⟨size, hsize, hnone⟩
            obtain rfl := Option.some.inj hsize
            rw [hbase] at hnone
            exact absurd hnone (by simp)
  | backend hlarge =>
      cases hbase : vm (normSize layout) with
      | none =>
          refine ⟨0, h, by rw [serve, Heap.vmAlloc, hbase]; rfl, ?_, fun _ => rfl⟩
          exact ⟨fun _ => ⟨_, rfl, hbase⟩, fun _ => rfl⟩
      | some base =>
          have hpos : base ≠ 0 := Nat.pos_iff_ne_zero.mp (hvm _ _ hbase).1.start_pos
          refine ⟨base, _, by rw [serve, Heap.vmAlloc, hbase]; rfl, ?_, fun h0 => absurd h0 hpos⟩
          refine ⟨fun h0 => absurd h0 hpos, ?_⟩
          rintro ⟨size, hsize, hnone⟩
          obtain rfl := Option.some.inj hsize
          rw [hbase] at hnone
          exact absurd hnone (by simp)

/-- **An allocation fails exactly if it asks the backend and the backend fails**, and then the heap
is as it was before the call. It always returns; it asks the backend for one size at most; and a
fresh chunk has room for the block. -/
theorem allocImpl_null_iff {r : AllocRun} (hr : AllocReachable r)
    (hlow : ∀ c, r.heap.chunk = some c → c.base + c.size ≤ 2 ^ 48) :
    (∃ n, ∀ fuel, n < fuel → ∀ layout, ∃ source, r.heap.blockSource fuel layout = .ok source ∧
      ∀ vm, VmFresh r.heap vm → LowAddresses vm →
        (∀ vm', (∀ size, source.asked = some size → vm size = vm' size) →
          r.heap.allocImpl vm fuel layout = r.heap.allocImpl vm' fuel layout) ∧
        ∃ p h', r.heap.allocImpl vm fuel layout = .ok (p, h') ∧
          (p = 0 ↔ ∃ size, source.asked = some size ∧ vm size = none) ∧ (p = 0 → h' = r.heap)) ∧
    ∀ layout base, 0 < base →
      base + max chunkSize (normSize layout + max layout.align minAlign) ≤ 2 ^ 48 →
      ∃ p h', 0 < p ∧
        Heap.bumpAlloc { r.heap with
            chunk := some ⟨base, max chunkSize (normSize layout + max layout.align minAlign), 0⟩ }
          (normSize layout) (max layout.align minAlign) = .ok (some p, h') := by
  obtain ⟨blocks, hi⟩ := hr.inv
  constructor
  · refine ⟨blocks.length, fun fuel hf layout => ?_⟩
    obtain ⟨source, hsource⟩ := hi.blockSource_returns hf hlow layout
    refine ⟨source, hsource, fun vm hvm hlow => ⟨fun vm' => Heap.allocImpl_congr hsource, ?_⟩⟩
    obtain ⟨p, h', hserve, hnull, hkept⟩ :=
      BlockSource.serve_null_iff hi (hi.blockSource_serves hsource) hvm hlow
    exact ⟨p, h', by rw [Heap.allocImpl_eq, hsource, Outcome.ok_bind, hserve], hnull, hkept⟩
  · exact fun layout base hbase hend =>
      Heap.bumpAlloc_freshChunk hbase hend (Nat.le_max_right _ _) rfl

theorem sampleRun_null_iff : ∃ n, ∀ fuel, n < fuel → ∀ vm, VmFresh sampleHeap3 vm →
    LowAddresses vm → ∃ p h', sampleHeap3.allocImpl vm fuel sampleLayout24 = .ok (p, h') ∧
      (p = 0 → h' = sampleHeap3) := by
  have hlow : ∀ c, sampleHeap3.chunk = some c → c.base + c.size ≤ 2 ^ 48 := by
    intro c hc
    obtain rfl : (⟨0x100000, chunkSize, 24⟩ : Chunk) = c := Option.some.inj hc
    decide
  obtain ⟨⟨n, halloc⟩, -⟩ := allocImpl_null_iff sampleRun_reachable hlow
  refine ⟨n, fun fuel hf vm hvm hlow => ?_⟩
  obtain ⟨source, -, hserve⟩ := halloc fuel hf sampleLayout24
  obtain ⟨-, p, h', hok, -, hkept⟩ := hserve vm hvm hlow
  exact ⟨p, h', hok, hkept⟩

/-! ## Reuse -/

namespace Heap

/-- The free list has this many bytes. -/
def FreeBytes (h : Heap) (n : Nat) : Prop :=
  ∃ blocks, h.FreeList blocks ∧ (∀ b ∈ blocks, 0 < b.start) ∧ n = (blocks.map len).sum

theorem FreeList.unique {h : Heap} {xs ys : List ByteRange} (hxs : h.FreeList xs)
    (hys : h.FreeList ys) (hxpos : ∀ b ∈ xs, 0 < b.start) (hypos : ∀ b ∈ ys, 0 < b.start) :
    xs = ys := by
  have hne : ∀ zs : List ByteRange, (∀ b ∈ zs, 0 < b.start) → ∀ a ∈ zs.map start, a ≠ 0 := by
    intro zs hzs a ha
    obtain ⟨b, hb, rfl⟩ := List.mem_map.mp ha
    exact Nat.pos_iff_ne_zero.mp (hzs b hb)
  have hstarts := hxs.links.unique hys.links (hne xs hxpos) (hne ys hypos)
  -- a block is its address and the size written there
  have hread : ∀ zs : List ByteRange, (∀ b ∈ zs, h.nodeSize b.start = b.len) →
      zs = (zs.map start).map fun a => ⟨a, h.nodeSize a⟩ := by
    intro zs hzs
    rw [List.map_map]
    refine (List.map_id' zs).symm.trans (List.map_congr_left fun b hb => ?_)
    show b = ⟨b.start, h.nodeSize b.start⟩
    rw [hzs b hb]
  rw [hread xs hxs.sizes, hread ys hys.sizes, hstarts]

/-- The size of a free list is a function of the heap. -/
theorem FreeBytes.unique {h : Heap} {n n' : Nat} (hn : h.FreeBytes n) (hn' : h.FreeBytes n') :
    n = n' := by
  obtain ⟨xs, hxs, hxpos, rfl⟩ := hn
  obtain ⟨ys, hys, hypos, rfl⟩ := hn'
  rw [hxs.unique hys hxpos hypos]

/-- The first block of the free list that can serve a request. -/
def FirstFit (h : Heap) (size align : Nat) (n : ByteRange) : Prop :=
  ∃ before after, h.FreeList (before ++ n :: after) ∧ Fits size align n ∧
    ∀ b ∈ before, ¬ Fits size align b

theorem sum_leftover (n : ByteRange) (size : Nat) :
    ((leftover n size).map len).sum = if minReuse ≤ n.len - size then n.len - size else 0 := by
  unfold leftover
  split
  · exact Nat.add_zero _
  · rfl

end Heap

theorem HeapInv.freeBytes {h : Heap} {live : List (Nat × Layout)} {blocks : List ByteRange}
    (hi : HeapInv h live blocks) : h.FreeBytes (blocks.map len).sum :=
  ⟨blocks, hi.freeList, fun _ hb => (hi.block_bounds hb).1, rfl⟩

/-- **A block of the free list that is used and freed again leaves as many bytes on the list as
there were, exactly if it was as big as asked for or left enough to hold a node.** The owner may
write to the block in between. -/
theorem reuse_freeBytes_iff {r : AllocRun} (hr : AllocReachable r) {fuel p : Nat} {layout : Layout}
    {h₁ : Heap} (hserved : r.heap.blockSource fuel layout = .ok (.freeList p h₁)) {mem : Mem}
    (hwrite : ClientWrite h₁ ((p, layout) :: r.live) mem) (takesBack : Bool) :
    (∀ vm, r.heap.allocImpl vm fuel layout = .ok (p, h₁)) ∧
    ∃ n h₂ before after, r.heap.FirstFit (normSize layout) (max layout.align minAlign) n ∧
      Heap.deallocImpl { h₁ with mem := mem } takesBack p layout = .ok h₂ ∧
      r.heap.FreeBytes before ∧ h₂.FreeBytes after ∧
      (after = before ↔ n.len = normSize layout ∨ normSize layout + minReuse ≤ n.len) := by
  refine ⟨fun vm => by rw [Heap.allocImpl_eq, hserved]; rfl, ?_⟩
  obtain ⟨blocks, hi⟩ := hr.inv
  cases hi.blockSource_serves hserved with
  | @freeList before after n hsmall hblocks hfit hbefore =>
      subst hblocks
      obtain ⟨hi₁, -⟩ := hi.takeNode hfit.1
      have hi₂ := hi₁.client hwrite
      obtain ⟨hi₃, -⟩ := hi₂.freeSmall List.mem_cons_self hsmall
      have hdealloc : ∀ h : Heap, h.deallocImpl takesBack n.start layout
          = .ok { h.nodeWrite n.start h.free (normSize layout) with free := n.start } := by
        intro h
        rw [Heap.deallocImpl_eq (hi₂.live_ne_zero List.mem_cons_self),
          if_neg (Nat.not_le.mpr hsmall)]
      refine ⟨n, _, _, _, ⟨before, after, hi.freeList, hfit, hbefore⟩, hdealloc _, hi.freeBytes,
        hi₃.freeBytes, ?_⟩
      -- the list loses `n`, gains what is left over of it, then the block as its layout has it
      have hle := hfit.1
      simp only [List.map_append, List.map_cons, List.sum_append, List.sum_cons,
        Heap.sum_leftover, liveBlock]
      by_cases hroom : minReuse ≤ n.len - normSize layout
      · rw [if_pos hroom]
        omega
      · rw [if_neg hroom]
        omega

/-- The block that is left by an allocation of 8 bytes is tracked with 16. -/
def sampleHeap4 : Heap := { sampleHeap3.nodeWrite 0x100000 0 16 with free := 0x100000 }

theorem sampleHeap2_served :
    sampleHeap2.blockSource 2 sampleLayout8 = .ok (.freeList 0x100000 sampleHeap3) := rfl

/-- Eight of the 24 bytes are lost. -/
theorem sampleReuse_shrinks :
    AllocReachable ⟨sampleHeap2, []⟩ ∧
    sampleHeap2.blockSource 2 sampleLayout8 = .ok (.freeList 0x100000 sampleHeap3) ∧
    sampleHeap3.deallocImpl true 0x100000 sampleLayout8 = .ok sampleHeap4 ∧
    sampleHeap2.FreeBytes 24 ∧ sampleHeap4.FreeBytes 16 :=
  ⟨sampleHeap2_reachable, rfl, rfl,
    ⟨[⟨0x100000, 24⟩], ⟨⟨rfl, rfl⟩, by decide⟩, by decide, rfl⟩,
    ⟨[⟨0x100000, 16⟩], ⟨⟨rfl, rfl⟩, by decide⟩, by decide, rfl⟩⟩

theorem sampleReuse_freeBytes_iff : ∃ n h₂ before after,
    sampleHeap2.FirstFit (normSize sampleLayout8) (max sampleLayout8.align minAlign) n ∧
    sampleHeap3.deallocImpl true 0x100000 sampleLayout8 = .ok h₂ ∧
    sampleHeap2.FreeBytes before ∧ h₂.FreeBytes after ∧
    (after = before ↔ n.len = normSize sampleLayout8 ∨ normSize sampleLayout8 + minReuse ≤ n.len) :=
  (reuse_freeBytes_iff sampleHeap2_reachable sampleHeap2_served
    (fun _ ha => absurd rfl ha) true).2

end Dynld
