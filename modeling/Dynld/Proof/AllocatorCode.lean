import Dynld.AllocatorLock
import Dynld.Proof.AllocatorRun

/-!
# The code under the lock

Run in one go, the code of a call is the call (`run_alloc`, `run_dealloc`), and the memory
it loads from and stores to is that of the free blocks, and of the block it is given.
-/

namespace Dynld

open ByteRange Code

/-! ## Run in one go -/

namespace Holding

variable {α : Type}

/-- A call of the heap, by its holder. One that fails has changed nothing. -/
def call (f : Heap → Outcome (α × Heap)) : Exec Holding α := fun w =>
  match f w.heap with
  | .ok (a, h) => (.ok a, ⟨h, w.got⟩)
  | .err m => (.err m, w)
  | .panic m => (.panic m, w)
  | .outOfFuel => (.outOfFuel, w)

theorem call_eq_ok {f : Heap → Outcome (α × Heap)} {w w' : Holding} {a : α}
    (h : call f w = (.ok a, w')) : f w.heap = .ok (a, w'.heap) ∧ w'.got = w.got := by
  unfold call at h
  split at h
  · next a' h' hf =>
    injection h with ha hw
    injection ha with ha
    rw [← ha, ← hw]
    exact ⟨hf, rfl⟩
  · injection h with h
    exact absurd h (by simp)
  · injection h with h
    exact absurd h (by simp)
  · injection h with h
    exact absurd h (by simp)

end Holding

namespace HeapCode

open Heap

variable {size align node next : Nat} {c : Cursor} {w : Holding}

theorem run_cursorRead : run HeapOp.act (cursorRead c) w = (.ok (w.heap.cursorRead c), w) := by
  cases c with
  | head => rfl
  | next node => rfl

theorem run_cursorWrite (value : Nat) : run HeapOp.act (cursorWrite value c) w
    = (.ok (), ⟨w.heap.cursorWrite value c, w.got⟩) := by
  cases c with
  | head => rfl
  | next node => rfl

theorem run_pushNode : run HeapOp.act (pushNode node size) w
    = (.ok (), ⟨{ w.heap.nodeWrite node w.heap.free size with free := node }, w.got⟩) := rfl

/-- A node is taken out of the list, and cut. -/
theorem run_takeNode {cursor : Cursor} :
    run HeapOp.act (do
        cursorWrite (w.heap.nodeNext node) cursor
        splitNode node (w.heap.nodeSize node) size
        pure (some node)) w
      = (.ok (some node), ⟨w.heap.takeNode cursor node size, w.got⟩) := by
  rw [run_bind, Exec.bind_of_ok (run_cursorWrite _)]
  unfold splitNode takeNode
  dsimp only
  split
  · rw [run_bind, Exec.bind_of_ok run_pushNode]
    rfl
  · rfl

theorem run_takeFromFreeListLoop : ∀ (fuel : Nat) (cursor : Cursor) (w : Holding),
    run HeapOp.act (takeFromFreeListLoop size align fuel cursor) w
      = Holding.call (fun h => h.takeFromFreeListLoop size align fuel cursor) w := by
  intro fuel
  induction fuel with
  | zero => intro cursor w; rfl
  | succ fuel ih =>
    intro cursor w
    unfold Holding.call
    dsimp only
    rw [takeFromFreeListLoop, Heap.takeFromFreeListLoop, run_bind, Exec.bind_of_ok run_cursorRead]
    by_cases hzero : w.heap.cursorRead cursor = 0
    · rw [if_pos hzero, if_pos hzero]
      rfl
    · rw [if_neg hzero, if_neg hzero]
      have hloads : ∀ {α : Type} (k : Nat → Nat → HeapCode α) (node : Nat),
          run HeapOp.act (do
            let nodeSize ← load (node + 8)
            let nodeNext ← load node
            k nodeSize nodeNext) w
          = run HeapOp.act (k (w.heap.nodeSize node) (w.heap.nodeNext node)) w := fun _ _ => rfl
      rw [hloads]
      by_cases hfit : size ≤ w.heap.nodeSize (w.heap.cursorRead cursor) ∧
          w.heap.cursorRead cursor % align = 0
      · rw [if_pos hfit, if_pos hfit, run_takeNode]
      · rw [if_neg hfit, if_neg hfit, ih]
        rfl

theorem run_bumpAlloc : run HeapOp.act (bumpAlloc size align) w
    = Holding.call (fun h => h.bumpAlloc size align) w := by
  have hget : run HeapOp.act getChunk w = (.ok w.heap.chunk, w) := rfl
  unfold bumpAlloc Holding.call Heap.bumpAlloc
  rw [run_bind, Exec.bind_of_ok hget]
  dsimp only
  rcases w.heap.chunk with _ | chunk
  · rfl
  · dsimp only
    unfold bumpTo
    rcases Outcome.add 64 chunk.base chunk.offset with cur | m | m | _
    · rw [Outcome.ok_bind, Outcome.ok_bind]
      rcases alignUp cur align with aligned | m | m | _
      · rw [Outcome.ok_bind, Outcome.ok_bind]
        by_cases hfits : aligned + size < 2 ^ 64 ∧ chunk.base ≤ aligned + size
        · rw [if_pos hfits, if_pos hfits]
          by_cases hroom : chunk.size < aligned + size - chunk.base
          · rw [if_pos hroom, if_pos hroom]
            rfl
          · rw [if_neg hroom, if_neg hroom]
            rfl
        · rw [if_neg hfits, if_neg hfits]
          rfl
      · rfl
      · rfl
      · rfl
    · rfl
    · rfl
    · rfl

/-- The regions are not looked at. -/
theorem bumpAlloc_regions {h h' : Heap} {found : Option Nat} (rs : List ByteRange)
    (hok : h.bumpAlloc size align = .ok (found, h')) :
    Heap.bumpAlloc { h with regions := rs } size align
      = .ok (found, { h' with regions := rs }) := by
  obtain ⟨chunk, free, mem, regions, stores⟩ := h
  unfold Heap.bumpAlloc at hok ⊢
  dsimp only at hok ⊢
  rcases chunk with _ | chunk
  · injection hok with hok
    injection hok with hfound hok
    rw [← hfound, ← hok]
  · dsimp only at hok ⊢
    obtain ⟨cur, hcur, hok⟩ := Outcome.bind_eq_ok.mp hok
    obtain ⟨aligned, haligned, hok⟩ := Outcome.bind_eq_ok.mp hok
    rw [hcur, Outcome.ok_bind, haligned, Outcome.ok_bind]
    by_cases hfits : aligned + size < 2 ^ 64 ∧ chunk.base ≤ aligned + size
    · rw [if_pos hfits] at hok ⊢
      by_cases hroom : chunk.size < aligned + size - chunk.base
      · rw [if_pos hroom] at hok ⊢
        injection hok with hok
        injection hok with hfound hok
        rw [← hfound, ← hok]
      · rw [if_neg hroom] at hok ⊢
        injection hok with hok
        injection hok with hfound hok
        rw [← hfound, ← hok]
    · rw [if_neg hfits] at hok ⊢
      injection hok with hok
      injection hok with hfound hok
      rw [← hfound, ← hok]

theorem bumpAlloc_keeps {h h' : Heap} {found : Option Nat}
    (hok : h.bumpAlloc size align = .ok (found, h')) : h'.regions = h.regions := by
  have hsame := bumpAlloc_regions h.regions hok
  rw [hok] at hsame
  injection hsame with hsame
  injection hsame with _ hsame
  have hregions : h'.regions = Heap.regions { h' with regions := h.regions } :=
    congrArg Heap.regions hsame
  exact hregions

end HeapCode

/-- What an allocation does when the current chunk cannot satisfy it. -/
def Heap.newChunkAlloc (h : Heap) (vm : Nat → Option Nat) (size align : Nat) :
    Outcome (Nat × Heap) := do
  let sum ← Outcome.add 64 size align
  match h.vmAlloc vm (max chunkSize sum) with
  | none => .ok (0, h)
  | some (base, h) => do
      let (found, h) ← Heap.bumpAlloc { h with chunk := some ⟨base, max chunkSize sum, 0⟩ } size align
      .ok (found.getD 0, h)

theorem Heap.allocImpl_small {layout : Layout} (hsmall : normSize layout < largeThreshold)
    (h : Heap) (vm : Nat → Option Nat) (fuel : Nat) : h.allocImpl vm fuel layout = (do
      let (found, h) ← h.takeFromFreeList fuel (normSize layout) (max layout.align minAlign)
      match found with
      | some p => .ok (p, h)
      | none => do
          let (found, h) ← h.bumpAlloc (normSize layout) (max layout.align minAlign)
          match found with
          | some p => .ok (p, h)
          | none => h.newChunkAlloc vm (normSize layout) (max layout.align minAlign)) := by
  unfold allocImpl
  rw [normalize_eq, Outcome.ok_bind]
  dsimp only
  rw [if_neg (Nat.not_le_of_lt hsmall)]
  rfl

namespace Holding

theorem done_of_nil {w : Holding} (h : w.got = []) : w.done = w.heap := by
  unfold done
  rw [h]
  rfl

/-- The backend gave what the holder got. -/
def Gave (w : Holding) (vm : Nat → Option Nat) : Prop :=
  ∀ size b, vm size = some b → (⟨b, size⟩ : ByteRange) ∈ w.got

theorem gave_none (w : Holding) : w.Gave fun _ => none := fun _ _ h => absurd h (by simp)

end Holding

/-- The backend is asked for a chunk. -/
theorem HeapCode.run_newChunk {base : Option Nat} {size align p : Nat} {w w' : Holding}
    (hgot : w.got = []) (hrun : run HeapOp.act (newChunk base size align) w = (.ok p, w')) :
    ∃ vm, w'.Gave vm ∧ w.heap.newChunkAlloc vm size align = .ok (p, w'.done) := by
  unfold newChunk at hrun
  rw [run_bind, Exec.bind_eq_ok] at hrun
  obtain ⟨sum, w₁, hsum, hrun⟩ := hrun
  injection hsum with hsum hw₁
  have hsum : Outcome.add 64 size align = .ok sum := hsum
  rw [← hw₁, run_bind] at hrun
  rcases base with _ | base
  · have hask : run HeapOp.act (vmAlloc (max chunkSize sum) none) w = (.ok none, w) := rfl
    rw [Exec.bind_of_ok hask] at hrun
    injection hrun with hp hw
    injection hp with hp
    refine ⟨fun _ => none, Holding.gave_none _, ?_⟩
    unfold Heap.newChunkAlloc
    rw [hsum, Outcome.ok_bind, ← hp, ← hw, Holding.done_of_nil hgot]
    rfl
  · have hask : run HeapOp.act (vmAlloc (max chunkSize sum) (some base)) w
        = (.ok (some base), ⟨w.heap, [⟨base, max chunkSize sum⟩]⟩) := by
      rw [← hgot]
      rfl
    rw [Exec.bind_of_ok hask] at hrun
    dsimp only at hrun
    rw [run_bind] at hrun
    have hset : run HeapOp.act (setChunk ⟨base, max chunkSize sum, 0⟩)
          ⟨w.heap, [⟨base, max chunkSize sum⟩]⟩
        = (.ok (), ⟨{ w.heap with chunk := some ⟨base, max chunkSize sum, 0⟩ },
            [⟨base, max chunkSize sum⟩]⟩) := rfl
    rw [Exec.bind_of_ok hset, run_bind, Exec.bind_eq_ok] at hrun
    obtain ⟨found, w₂, hbump, hrun⟩ := hrun
    rw [run_bumpAlloc] at hbump
    obtain ⟨hbump, hgot₂⟩ := Holding.call_eq_ok hbump
    dsimp only at hbump hgot₂
    injection hrun with hp hw
    injection hp with hp
    -- a backend that is asked once has this one answer
    refine ⟨fun size => if size = max chunkSize sum then some base else none, ?_, ?_⟩
    · intro size b hb
      dsimp only at hb
      by_cases hsize : size = max chunkSize sum
      · rw [if_pos hsize] at hb
        injection hb with hb
        rw [← hw, hgot₂, ← hb, hsize]
        exact List.mem_singleton.mpr rfl
      · rw [if_neg hsize] at hb
        exact absurd hb (by simp)
    -- the model has the region at once, the holder when it is done
    · have hregions := bumpAlloc_keeps hbump
      dsimp only at hregions
      have hbump := bumpAlloc_regions (⟨base, max chunkSize sum⟩ :: w.heap.regions) hbump
      unfold Heap.newChunkAlloc Heap.vmAlloc
      rw [hsum, Outcome.ok_bind]
      dsimp only
      rw [if_pos rfl]
      dsimp only [Option.map] at hbump ⊢
      rw [hbump, Outcome.ok_bind, ← hp, ← hw]
      unfold Holding.done
      rw [hgot₂, hregions]
      rfl

namespace LockedCall

/-- The code of an allocation is the allocation, with what the backend gave. -/
theorem run_alloc {fuel p : Nat} {base : Option Nat} {layout : Layout} {h : Heap} {w : Holding}
    (hsmall : normSize layout < largeThreshold)
    (hrun : run HeapOp.act (code (.alloc fuel base layout)) ⟨h, []⟩ = (.ok p, w)) :
    ∃ vm, w.Gave vm ∧ h.allocImpl vm fuel layout = .ok (p, w.done) := by
  dsimp only [code] at hrun
  rw [normalize_eq] at hrun
  have hrun : run HeapOp.act (HeapCode.alloc fuel base (normSize layout)
      (max layout.align minAlign)) ⟨h, []⟩ = (.ok p, w) := hrun
  unfold HeapCode.alloc at hrun
  rw [run_bind, Exec.bind_eq_ok] at hrun
  obtain ⟨found, w₁, htake, hrun⟩ := hrun
  rw [HeapCode.run_takeFromFreeListLoop] at htake
  obtain ⟨htake, hgot⟩ := Holding.call_eq_ok htake
  have htake : h.takeFromFreeList fuel (normSize layout) (max layout.align minAlign)
      = .ok (found, w₁.heap) := htake
  rcases found with _ | q
  · dsimp only at hrun
    rw [run_bind, Exec.bind_eq_ok] at hrun
    obtain ⟨found, w₂, hbump, hrun⟩ := hrun
    rw [HeapCode.run_bumpAlloc] at hbump
    obtain ⟨hbump, hgot₂⟩ := Holding.call_eq_ok hbump
    rw [hgot] at hgot₂
    rcases found with _ | q
    · obtain ⟨vm, hgave, hnew⟩ := HeapCode.run_newChunk hgot₂ hrun
      refine ⟨vm, hgave, ?_⟩
      rw [Heap.allocImpl_small hsmall, htake, Outcome.ok_bind]
      dsimp only
      rw [hbump, Outcome.ok_bind]
      exact hnew
    · injection hrun with hp hw
      injection hp with hp
      refine ⟨fun _ => none, Holding.gave_none _, ?_⟩
      rw [Heap.allocImpl_small hsmall, htake, Outcome.ok_bind]
      dsimp only
      rw [hbump, Outcome.ok_bind, ← hp, ← hw, Holding.done_of_nil hgot₂]
  · injection hrun with hp hw
    injection hp with hp
    refine ⟨fun _ => none, Holding.gave_none _, ?_⟩
    rw [Heap.allocImpl_small hsmall, htake, Outcome.ok_bind, ← hp, ← hw, Holding.done_of_nil hgot]

/-- The code of a deallocation is the deallocation. -/
theorem run_dealloc {ptr : Nat} {layout : Layout} {h : Heap} (hptr : ptr ≠ 0)
    (hsmall : normSize layout < largeThreshold) (takesBack : Bool) :
    ∃ w : Holding, run HeapOp.act (code (.dealloc ptr layout)) ⟨h, []⟩ = (.ok 0, w) ∧
      h.deallocImpl takesBack ptr layout = .ok w.done := by
  refine ⟨⟨{ h.nodeWrite ptr h.free (normSize layout) with free := ptr }, []⟩, ?_, ?_⟩
  · dsimp only [code]
    rw [normalize_eq]
    rfl
  · rw [Heap.deallocImpl_eq hptr, if_neg (Nat.not_le_of_lt hsmall)]
    rfl

end LockedCall

/-! ## The memory that is accessed -/

/-- The operation stays inside these blocks. -/
def HeapOp.Stays (blocks : List ByteRange) (o : HeapOp) : Prop :=
  ∀ r ∈ o.ranges, ∃ b ∈ blocks, Within r b

namespace HeapCode

open Heap

variable {blocks : List ByteRange} {size align node : Nat} {w : Holding}

theorem along_load {a : Nat} (h : ∃ b ∈ blocks, Within ⟨a, 8⟩ b) :
    Along HeapOp.act (HeapOp.Stays blocks) (load a) w :=
  along_perform (fun _ hr => List.mem_singleton.mp hr ▸ h) w

theorem along_store {a value : Nat} (h : ∃ b ∈ blocks, Within ⟨a, 8⟩ b) :
    Along HeapOp.act (HeapOp.Stays blocks) (store a value) w :=
  along_perform (fun _ hr => List.mem_singleton.mp hr ▸ h) w

/-- An access to the state is no access to a block. -/
theorem stays_of_nil {o : HeapOp} (h : o.ranges = []) : o.Stays blocks := fun r hr => by
  rw [h] at hr
  exact absurd hr (by simp)

/-- The cursor is in the state, or in a node that the loop has passed. -/
theorem along_cursorRead {before rest : List ByteRange} (hwf : ∀ b ∈ before ++ rest, FreeBlock b) :
    Along HeapOp.act (HeapOp.Stays (before ++ rest)) (cursorRead (cursorFor before)) w := by
  rcases List.eq_nil_or_concat before with rfl | ⟨p, b, rfl⟩
  · exact along_perform (stays_of_nil rfl) w
  · rw [List.concat_eq_append] at hwf ⊢
    have hb : b ∈ p ++ [b] ++ rest := List.mem_append_left _ List.mem_concat_self
    have hcur : cursorFor (p ++ [b]) = .next b.start := by
      rw [cursorFor, List.getLast?_concat]
    rw [hcur]
    exact along_load ⟨b, hb, (node_words b.start).1.trans (hwf b hb).header_within⟩

theorem along_cursorWrite {before rest : List ByteRange} (value : Nat)
    (hwf : ∀ b ∈ before ++ rest, FreeBlock b) :
    Along HeapOp.act (HeapOp.Stays (before ++ rest)) (cursorWrite value (cursorFor before)) w := by
  rcases List.eq_nil_or_concat before with rfl | ⟨p, b, rfl⟩
  · exact along_perform (stays_of_nil rfl) w
  · rw [List.concat_eq_append] at hwf ⊢
    have hb : b ∈ p ++ [b] ++ rest := List.mem_append_left _ List.mem_concat_self
    have hcur : cursorFor (p ++ [b]) = .next b.start := by
      rw [cursorFor, List.getLast?_concat]
    rw [hcur]
    exact along_store ⟨b, hb, (node_words b.start).1.trans (hwf b hb).header_within⟩

/-- A node is written into a block. -/
theorem along_pushNode (h : ∃ b ∈ blocks, Within ⟨node, minReuse⟩ b) :
    Along HeapOp.act (HeapOp.Stays blocks) (pushNode node size) w := by
  obtain ⟨b, hb, hin⟩ := h
  obtain ⟨hnext, hsize⟩ := node_words node
  refine Along.bind (along_perform (stays_of_nil rfl) w) fun free w₁ _ => ?_
  refine Along.bind (Along.bind (along_store ⟨b, hb, hnext.trans hin⟩) fun _ w₂ _ => ?_)
    fun _ w₃ _ => along_perform (stays_of_nil rfl) w₃
  exact along_store ⟨b, hb, hsize.trans hin⟩

theorem along_splitNode {n : ByteRange} (hn : n ∈ blocks) (hsize : size ≤ n.len) :
    Along HeapOp.act (HeapOp.Stays blocks) (splitNode n.start n.len size) w := by
  unfold splitNode
  split
  · next hroom =>
    refine along_pushNode ⟨n, hn, within_of_le (Nat.le_add_right _ _) ?_⟩
    dsimp only
    omega
  · trivial

/-- The search stays on the list. -/
theorem along_takeFromFreeListLoop : ∀ (fuel : Nat) {before rest : List ByteRange},
    w.heap.FreeList (before ++ rest) → (∀ b ∈ before ++ rest, FreeBlock b) →
    Along HeapOp.act (HeapOp.Stays (before ++ rest))
      (takeFromFreeListLoop size align fuel (cursorFor before)) w := by
  intro fuel
  induction fuel with
  | zero => exact fun _ _ => trivial
  | succ fuel ih =>
    intro before rest hl hwf
    have hseg := hl.links
    rw [List.map_append] at hseg
    obtain ⟨m, hbefore, hrest⟩ := Linked.seg_append.mp hseg
    have hread : w.heap.cursorRead (cursorFor before) = m := cursorRead_cursorFor hbefore
    rw [takeFromFreeListLoop]
    refine Along.bind (along_cursorRead hwf) fun node w₁ hnode => ?_
    rw [run_cursorRead, hread] at hnode
    injection hnode with hnode hw₁
    injection hnode with hnode
    rw [← hw₁, ← hnode]
    by_cases hzero : m = 0
    · rw [if_pos hzero]
      trivial
    · rw [if_neg hzero]
      rcases rest with _ | ⟨n, rest⟩
      · -- the list has ended
        exact absurd hrest hzero
      · obtain ⟨hm, -⟩ := hrest
        have hn : n ∈ before ++ n :: rest := List.mem_append_right _ List.mem_cons_self
        have hlen : w.heap.mem.readWord 8 (n.start + 8) = n.len := hl.sizes n hn
        obtain ⟨hnext, hsize⟩ := node_words n.start
        have hheader := (hwf n hn).header_within
        rw [hm]
        refine Along.bind (along_load ⟨n, hn, hsize.trans hheader⟩) fun nodeSize w₂ h₂ => ?_
        have h₂ : (Outcome.ok (w.heap.mem.readWord 8 (n.start + 8)), w) = (.ok nodeSize, w₂) := h₂
        injection h₂ with hnodeSize hw₂
        injection hnodeSize with hnodeSize
        rw [← hw₂, ← hnodeSize, hlen]
        refine Along.bind (along_load ⟨n, hn, hnext.trans hheader⟩) fun nodeNext w₃ h₃ => ?_
        injection h₃ with _ hw₃
        have hw₃ : w = w₃ := hw₃
        rw [← hw₃]
        by_cases hfit : size ≤ n.len ∧ n.start % align = 0
        · rw [if_pos hfit]
          refine Along.bind (along_cursorWrite _ hwf) fun _ w₄ _ => ?_
          exact Along.bind (along_splitNode hn hfit.1) fun _ w₅ _ => trivial
        · rw [if_neg hfit]
          have hsnoc : before ++ n :: rest = (before ++ [n]) ++ rest := by
            rw [List.append_assoc, List.singleton_append]
          have hcur : Cursor.next n.start = cursorFor (before ++ [n]) := by
            rw [cursorFor, List.getLast?_concat]
          -- the node is behind the cursor now
          rw [hsnoc] at hl hwf ⊢
          rw [hcur]
          exact ih hl hwf

theorem along_bumpAlloc :
    Along HeapOp.act (HeapOp.Stays blocks) (bumpAlloc size align) w := by
  refine Along.bind (along_perform (stays_of_nil rfl) w) fun chunk w₁ _ => ?_
  rcases chunk with _ | chunk
  · trivial
  · refine Along.bind (along_lift _ w₁) fun found w₂ _ => ?_
    rcases found with _ | ⟨newOffset, aligned⟩
    · trivial
    · exact Along.bind (along_perform (stays_of_nil rfl) w₂) fun _ _ _ => trivial

theorem along_newChunk {base : Option Nat} :
    Along HeapOp.act (HeapOp.Stays blocks) (newChunk base size align) w := by
  refine Along.bind (along_lift _ w) fun sum w₁ _ => ?_
  refine Along.bind (along_perform (stays_of_nil rfl) w₁) fun base w₂ _ => ?_
  rcases base with _ | base
  · trivial
  · refine Along.bind (along_perform (stays_of_nil rfl) w₂) fun _ w₃ _ => ?_
    exact Along.bind along_bumpAlloc fun _ _ _ => trivial

end HeapCode

namespace LockedCall

/-- The blocks that a call may work on. -/
def blocks (call : LockedCall) (free : List ByteRange) : List ByteRange :=
  (call.frees.map liveBlock).toList ++ free

/-- **A call stays inside the free blocks**, and the block it is given. -/
theorem along_code {h : Heap} {live : List (Nat × Layout)} {free : List ByteRange}
    (hi : HeapInv h live free) (call : LockedCall) :
    Along HeapOp.act (HeapOp.Stays (call.blocks free)) call.code ⟨h, []⟩ := by
  cases call with
  | alloc fuel base layout =>
    refine Along.bind (along_lift _ _) fun norm w hnorm => ?_
    injection hnorm with _ hw
    rw [← hw]
    refine Along.bind (c := HeapCode.takeFromFreeListLoop _ _ fuel (Heap.cursorFor [])) ?_
      fun found w₁ _ => ?_
    · have hlist : h.FreeList ([] ++ free) := hi.freeList
      exact HeapCode.along_takeFromFreeListLoop fuel hlist hi.freeBlocks
    · rcases found with _ | p
      · refine Along.bind HeapCode.along_bumpAlloc fun found w₂ _ => ?_
        rcases found with _ | p
        · exact HeapCode.along_newChunk
        · trivial
      · trivial
  | dealloc ptr layout =>
    refine Along.bind (along_lift _ _) fun norm w hnorm => ?_
    injection hnorm with hnorm hw
    have hnorm : normalize layout = .ok norm := hnorm
    rw [normalize_eq] at hnorm
    injection hnorm with hnorm
    rw [← hnorm]
    refine Along.bind (HeapCode.along_pushNode ⟨liveBlock (ptr, layout), ?_, ?_⟩)
      fun _ _ _ => trivial
    · exact List.mem_append_left _ (List.mem_singleton.mpr rfl)
    · exact within_of_le (Nat.le_refl _)
        (Nat.add_le_add_left (normSize_spec layout).2.1 _)

end LockedCall

end Dynld
