import Dynld.Allocator
import Dynld.Lib.Sections

/-!
# The lock of the allocator

Threads share one allocator. A call for a small block spins until it has set `locked`, works
on the `State` and on the nodes of the free list, and clears `locked`. What it does in
between is not one step: other threads go on using their blocks, and get large blocks,
which the lock has nothing to do with. So it is code here, with an operation for every
access to the `State` and for every word of a node that is loaded or stored.
-/

namespace Dynld

/-- What a thread does with the lock held. -/
inductive HeapOp where
  /-- A word of a node is loaded. -/
  | load (addr : Nat)
  | store (addr value : Nat)
  /-- `state.free` is read. -/
  | getFree
  | setFree (node : Nat)
  /-- `state.chunk` is read. -/
  | getChunk
  | setChunk (chunk : Chunk)
  /-- `backend.alloc`, and what it answers. -/
  | vmAlloc (size : Nat) (base : Option Nat)
  deriving DecidableEq, Repr

namespace HeapOp

abbrev Answer : HeapOp → Type
  | load _ => Nat
  | store _ _ => Unit
  | getFree => Nat
  | setFree _ => Unit
  | getChunk => Option Chunk
  | setChunk _ => Unit
  | vmAlloc _ _ => Option Nat

/-- The memory that is accessed. -/
def ranges : HeapOp → List ByteRange
  | load addr => [⟨addr, 8⟩]
  | store addr _ => [⟨addr, 8⟩]
  | _ => []

end HeapOp

/-- The heap as its holder has it, with the regions it got and has not used yet. -/
structure Holding where
  heap : Heap
  got : List ByteRange

/-- The heap that the holder leaves behind. -/
def Holding.done (w : Holding) : Heap := { w.heap with regions := w.got ++ w.heap.regions }

def HeapOp.act : (o : HeapOp) → Holding → o.Answer × Holding
  | load addr, w => (w.heap.mem.readWord 8 addr, w)
  | store addr value, w => ((), ⟨w.heap.storeWord addr value, w.got⟩)
  | getFree, w => (w.heap.free, w)
  | setFree node, w => ((), ⟨{ w.heap with free := node }, w.got⟩)
  | getChunk, w => (w.heap.chunk, w)
  | setChunk chunk, w => ((), ⟨{ w.heap with chunk := some chunk }, w.got⟩)
  | vmAlloc size (some base), w => (some base, ⟨w.heap, ⟨base, size⟩ :: w.got⟩)
  | vmAlloc _ none, w => (none, w)

abbrev HeapCode : Type → Type := Code HeapOp HeapOp.Answer

namespace HeapCode

open Heap

/-! ## One access -/

def load (addr : Nat) : HeapCode Nat := Code.perform (HeapOp.load addr)

def store (addr value : Nat) : HeapCode Unit := Code.perform (HeapOp.store addr value)

def getFree : HeapCode Nat := Code.perform HeapOp.getFree

def setFree (node : Nat) : HeapCode Unit := Code.perform (HeapOp.setFree node)

def getChunk : HeapCode (Option Chunk) := Code.perform HeapOp.getChunk

def setChunk (chunk : Chunk) : HeapCode Unit := Code.perform (HeapOp.setChunk chunk)

def vmAlloc (size : Nat) (base : Option Nat) : HeapCode (Option Nat) :=
  Code.perform (HeapOp.vmAlloc size base)

/-! ## The closures -/

/-- `*cursor`. -/
def cursorRead : Cursor → HeapCode Nat
  | .head => getFree
  | .next node => load node

/-- `*cursor = value`. -/
def cursorWrite (value : Nat) : Cursor → HeapCode Unit
  | .head => setFree value
  | .next node => store node value

/-- Write a `FreeNode`. -/
def nodeWrite (node next size : Nat) : HeapCode Unit := do
  store node next
  store (node + 8) size

/-- A node goes to the front of the list. -/
def pushNode (node size : Nat) : HeapCode Unit := do
  let free ← getFree
  nodeWrite node free size
  setFree node

/-- The tail of a node goes back to the list if it can hold a node itself. -/
def splitNode (node nodeSize size : Nat) : HeapCode Unit :=
  if minReuse ≤ nodeSize - size then pushNode (node + size) (nodeSize - size) else pure ()

def takeFromFreeListLoop (size align : Nat) : Nat → Cursor → HeapCode (Option Nat)
  | 0, _ => .ret .outOfFuel
  | fuel + 1, cursor => do
      let node ← cursorRead cursor
      if node = 0 then pure none
      else do
        let nodeSize ← load (node + 8)
        let nodeNext ← load node
        if size ≤ nodeSize ∧ node % align = 0 then do
          cursorWrite nodeNext cursor
          splitNode node nodeSize size
          pure (some node)
        else takeFromFreeListLoop size align fuel (.next node)

/-- The offset behind a new block of the chunk, and the block. -/
def bumpTo (chunk : Chunk) (size align : Nat) : Outcome (Option (Nat × Nat)) := do
  let cur ← Outcome.add 64 chunk.base chunk.offset
  let aligned ← alignUp cur align
  if aligned + size < 2 ^ 64 ∧ chunk.base ≤ aligned + size then
    let newOffset := aligned + size - chunk.base
    if chunk.size < newOffset then .ok none else .ok (some (newOffset, aligned))
  else .ok none

def bumpAlloc (size align : Nat) : HeapCode (Option Nat) := do
  match ← getChunk with
  | none => pure none
  | some chunk => do
      match ← bumpTo chunk size align with
      | none => pure none
      | some (newOffset, aligned) => do
          setChunk { chunk with offset := newOffset }
          pure (if aligned = 0 then none else some aligned)

/-- The current chunk, if any, cannot satisfy the request. -/
def newChunk (base : Option Nat) (size align : Nat) : HeapCode Nat := do
  let sum ← Outcome.add 64 size align
  match ← vmAlloc (max chunkSize sum) base with
  | none => pure 0
  | some base => do
      setChunk ⟨base, max chunkSize sum, 0⟩
      let found ← bumpAlloc size align
      pure (found.getD 0)

/-- The closure of `alloc_impl`; `base` is what the backend answers if it is asked. -/
def alloc (fuel : Nat) (base : Option Nat) (size align : Nat) : HeapCode Nat := do
  match ← takeFromFreeListLoop size align fuel .head with
  | some p => pure p
  | none => do
      match ← bumpAlloc size align with
      | some p => pure p
      | none => newChunk base size align

end HeapCode

/-- A call that takes the lock. -/
inductive LockedCall where
  | alloc (fuel : Nat) (base : Option Nat) (layout : Layout)
  | dealloc (ptr : Nat) (layout : Layout)

namespace LockedCall

/-- What the call does with the lock held; a deallocation returns nothing. -/
def code : LockedCall → HeapCode Nat
  | alloc fuel base layout => do
      let (size, align) ← normalize layout
      HeapCode.alloc fuel base size align
  | dealloc ptr layout => do
      let (size, _) ← normalize layout
      HeapCode.pushNode ptr size
      pure 0

def layout : LockedCall → Layout
  | alloc _ _ layout => layout
  | dealloc _ layout => layout

/-- The block that the call gives back. -/
def frees : LockedCall → Option (Nat × Layout)
  | alloc _ _ _ => none
  | dealloc ptr layout => some (ptr, layout)

end LockedCall

end Dynld
