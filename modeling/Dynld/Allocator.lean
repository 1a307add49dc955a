import Dynld.Lib.Outcome
import Dynld.Lib.Memory
import Dynld.Lib.Bits

/-!
# The allocator

Small blocks are cut from chunks of 256 KiB, and freed blocks go on a free list
whose nodes are written into the freed memory itself. Large blocks come straight
from the VM backend and go back to it.

A call runs with the lock held, so it is one step of the heap. The heap is the
allocator's `State`, the memory its nodes live in, and two things the code has no
trace of: the regions the backend has handed out and not taken back, and every
range the allocator has stored to. A call that panics aborts the process.

The backend is a parameter of each call: `vm size` is the base of a new region, or
none if the kernel refuses.
-/

namespace Dynld

/-- `PAGE_SIZE`. -/
def pageSize : Nat := 4096

/-- `CHUNK_SIZE`: 256 KiB. -/
def chunkSize : Nat := 64 * pageSize

/-- `LARGE_THRESHOLD`. -/
def largeThreshold : Nat := chunkSize / 2

/-- `MIN_REUSE`: the size of a `FreeNode`, a link and a size. -/
def minReuse : Nat := 16

/-- `MIN_ALIGN`: the alignment of a `FreeNode`. -/
def minAlign : Nat := 8

/-- `core::alloc::Layout`. -/
structure Layout where
  size : Nat
  align : Nat
  /-- The alignment is a power of two. -/
  align_pow : ∃ k, align = 2 ^ k
  /-- The size, rounded up to the alignment, is at most `isize::MAX`. -/
  fits : size + align ≤ 2 ^ 63
  deriving DecidableEq

/-- The current bump chunk. -/
structure Chunk where
  base : Nat
  size : Nat
  offset : Nat
  deriving DecidableEq, Repr

/-- The allocator's `State`, with the memory and the backend around it. A null pointer is `0`. -/
structure Heap where
  /-- Current bump chunk. -/
  chunk : Option Chunk
  /-- Free list head. -/
  free : Nat
  mem : Mem
  /-- The regions handed out by the backend and not taken back. -/
  regions : List ByteRange
  /-- The ranges stored to so far, last first. -/
  stores : List ByteRange

/-- Every address that is aligned here is aligned to a power of two. -/
def alignUp (addr align : Nat) : Outcome Nat := do
  let sum ← Outcome.add 64 addr align
  let last ← Outcome.sub sum 1
  .ok (last &&& (2 ^ 64 - 1 - (align - 1)))

/-- Normalize a `Layout` to the (size, align) pair we actually allocate. -/
def normalize (layout : Layout) : Outcome (Nat × Nat) := do
  let raw := max layout.size minReuse
  let size ← alignUp raw minAlign
  .ok (size, max layout.align minAlign)

namespace Heap

/-! ## Memory accesses -/

/-- Store a pointer-sized word. -/
def storeWord (h : Heap) (addr value : Nat) : Heap :=
  { h with mem := h.mem.writeWord 8 addr value, stores := ⟨addr, 8⟩ :: h.stores }

/-- The `next` field of the node at `node`. -/
def nodeNext (h : Heap) (node : Nat) : Nat := h.mem.readWord 8 node

/-- The `size` field of the node at `node`. -/
def nodeSize (h : Heap) (node : Nat) : Nat := h.mem.readWord 8 (node + 8)

/-- Write a `FreeNode`. -/
def nodeWrite (h : Heap) (node next size : Nat) : Heap :=
  (h.storeWord node next).storeWord (node + 8) size

/-- Hand out a region. -/
def vmAlloc (h : Heap) (vm : Nat → Option Nat) (size : Nat) : Option (Nat × Heap) :=
  (vm size).map fun base => (base, { h with regions := ⟨base, size⟩ :: h.regions })

/-! ## Allocation -/

/-- Try to satisfy a request from the current bump chunk. -/
def bumpAlloc (h : Heap) (size align : Nat) : Outcome (Option Nat × Heap) :=
  match h.chunk with
  | none => .ok (none, h)
  | some chunk => do
      let cur ← Outcome.add 64 chunk.base chunk.offset
      let aligned ← alignUp cur align
      if aligned + size < 2 ^ 64 ∧ chunk.base ≤ aligned + size then
        let newOffset := aligned + size - chunk.base
        if chunk.size < newOffset then .ok (none, h)
        else
          .ok (if aligned = 0 then none else some aligned,
            { h with chunk := some { chunk with offset := newOffset } })
      else .ok (none, h)

/-- What a cursor of the free list points to. -/
inductive Cursor where
  /-- `state.free`. -/
  | head
  /-- The `next` field of a node. -/
  | next (node : Nat)
  deriving DecidableEq, Repr

/-- `*cursor`. -/
def cursorRead (h : Heap) : Cursor → Nat
  | .head => h.free
  | .next node => h.nodeNext node

/-- `*cursor = value`. -/
def cursorWrite (h : Heap) (value : Nat) : Cursor → Heap
  | .head => { h with free := value }
  | .next node => h.storeWord node value

/-- Unlink the node at `cursor`, and put its tail back on the list if it can hold a node. -/
def takeNode (h : Heap) (cursor : Cursor) (node size : Nat) : Heap :=
  let nodeSize := h.nodeSize node
  let h := h.cursorWrite (h.nodeNext node) cursor
  let leftover := nodeSize - size
  if minReuse ≤ leftover then
    let tail := node + size
    { h.nodeWrite tail h.free leftover with free := tail }
  else h

/-- Walk the free list and take the first node that fits with the right alignment. A node of the
list lies inside the address space, so the address of its tail does not overflow. -/
def takeFromFreeListLoop (h : Heap) (size align : Nat) :
    Nat → Cursor → Outcome (Option Nat × Heap)
  | 0, _ => .outOfFuel
  | fuel + 1, cursor =>
      let node := h.cursorRead cursor
      if node = 0 then .ok (none, h)
      else if size ≤ h.nodeSize node ∧ node % align = 0 then
        .ok (some node, h.takeNode cursor node size)
      else takeFromFreeListLoop h size align fuel (.next node)

def takeFromFreeList (h : Heap) (fuel size align : Nat) : Outcome (Option Nat × Heap) :=
  h.takeFromFreeListLoop size align fuel .head

/-- Returns a null pointer if the backend refuses. -/
def allocImpl (h : Heap) (vm : Nat → Option Nat) (fuel : Nat) (layout : Layout) :
    Outcome (Nat × Heap) := do
  let (size, align) ← normalize layout
  if largeThreshold ≤ size then
    match h.vmAlloc vm size with
    | some (p, h) => .ok (p, h)
    | none => .ok (0, h)
  else do
    let (found, h) ← h.takeFromFreeList fuel size align
    match found with
    | some p => .ok (p, h)
    | none => do
        let (found, h) ← h.bumpAlloc size align
        match found with
        | some p => .ok (p, h)
        | none => do
            -- the current chunk, if any, cannot satisfy the request
            let sum ← Outcome.add 64 size align
            let chunkSize := max chunkSize sum
            match h.vmAlloc vm chunkSize with
            | none => .ok (0, h)
            | some (base, h) => do
                let h := { h with chunk := some { base, size := chunkSize, offset := 0 } }
                let (found, h) ← h.bumpAlloc size align
                .ok (found.getD 0, h)

/-! ## Deallocation -/

/-- `takesBack` says whether the backend takes a large block back; its answer is ignored. -/
def deallocImpl (h : Heap) (takesBack : Bool) (ptr : Nat) (layout : Layout) : Outcome Heap :=
  if ptr = 0 then .ok h
  else do
    let (size, _) ← normalize layout
    if largeThreshold ≤ size then
      .ok (if takesBack then { h with regions := h.regions.erase ⟨ptr, size⟩ } else h)
    else .ok { h.nodeWrite ptr h.free size with free := ptr }

end Heap

end Dynld
