import Dynld.Image

/-!
# Vectors of fixed size

A `FixedVec` keeps its items in an array of cells that may hold nothing yet, and moves
items in and out of them by raw pointers. The type system does not see which cells have
an item: here a cell without one is `none`, and to read it is undefined behaviour, which
is a panic of the model. So is a pointer behind the array.

What is dropped is returned, in the order it is dropped in.
-/

namespace Dynld

/-! ## Cells -/

/-- `MaybeUninit<T>`s: `none` was not written to, or its item was moved out. -/
abbrev UninitArray (α : Type) : Type := List (Option α)

namespace UninitArray

variable {α : Type}

/-- `ptr::read`: the item is moved out of the cell. -/
def readAt (array : UninitArray α) (i : Nat) : Outcome (α × UninitArray α) :=
  match array[i]? with
  | some (some item) => .ok (item, array.set i none)
  | _ => .panic "undefined behavior"

/-- `ptr::write`: what the cell had before is not dropped. -/
def writeAt (array : UninitArray α) (i : Nat) (item : α) : Outcome (UninitArray α) :=
  if i < array.length then .ok (array.set i (some item)) else .panic "undefined behavior"

/-- `slice::from_raw_parts`, with so many items from this one on. -/
def slice (array : UninitArray α) (i n : Nat) : Outcome (List α) :=
  Outcome.each (fun j => match array[i + j]? with
    | some (some item) => .ok item
    | _ => .panic "undefined behavior") (List.range n)

end UninitArray

/-! ## The vector -/

structure FixedVec (α : Type) where
  /-- A `u32`. -/
  len : Nat
  array : UninitArray α
  deriving DecidableEq, Repr

namespace FixedVec

variable {α : Type}

/-- An array of `n` cells. -/
def newArray (n : Nat) : FixedVec α := ⟨0, List.replicate n none⟩

def capacity (v : FixedVec α) : Nat := v.array.length

def remainingCapacity (v : FixedVec α) : Outcome Nat := Outcome.sub v.capacity v.len

def isFull (v : FixedVec α) : Outcome Bool := do
  let remaining ← v.remainingCapacity
  pure (remaining == 0)

def isEmpty (v : FixedVec α) : Bool := v.len == 0

/-- The item is handed back if there is no room for it. -/
def tryPush (v : FixedVec α) (item : α) : Outcome (Option α × FixedVec α) := do
  if (← v.isFull) then pure (some item, v)
  else do
    let array ← v.array.writeAt v.len item
    let len ← Outcome.add 32 v.len 1
    pure (none, ⟨len, array⟩)

def push (v : FixedVec α) (item : α) : Outcome (FixedVec α) := do
  match ← v.tryPush item with
  | (none, v) => pure v
  | (some _, _) => .panic "ArrayVec is full"

def pop (v : FixedVec α) : Outcome (Option α × FixedVec α) :=
  if v.isEmpty then pure (none, v)
  else do
    let len ← Outcome.sub v.len 1
    let (item, array) ← v.array.readAt len
    pure (some item, ⟨len, array⟩)

/-- `while self.pop().is_some() {}`: each item is dropped when it was popped. -/
def clearLoop : Nat → FixedVec α → Outcome (List α × FixedVec α)
  | 0, _ => .outOfFuel
  | fuel + 1, v => do
      match ← v.pop with
      | (none, v) => pure ([], v)
      | (some item, v) => do
          let (dropped, v) ← clearLoop fuel v
          pure (item :: dropped, v)

def clear (v : FixedVec α) : Outcome (List α × FixedVec α) := clearLoop (v.len + 1) v

def extend : FixedVec α → List α → Outcome (FixedVec α)
  | v, [] => pure v
  | v, item :: items => do
      let v ← v.push item
      extend v items

/-- `Deref`. -/
def deref (v : FixedVec α) : Outcome (List α) := v.array.slice 0 v.len

/-- `drop_in_place` of the items. -/
def drop (v : FixedVec α) : Outcome (List α) := v.deref

end FixedVec

/-! ## The iterator -/

structure IntoIter (α : Type) where
  index : Nat
  len : Nat
  array : UninitArray α
  deriving DecidableEq, Repr

/-- The vector is forgotten, not dropped. -/
def FixedVec.intoIter {α : Type} (v : FixedVec α) : IntoIter α := ⟨0, v.len, v.array⟩

namespace IntoIter

variable {α : Type}

def next (it : IntoIter α) : Outcome (Option α × IntoIter α) :=
  if it.index = it.len then pure (none, it)
  else do
    let (item, array) ← it.array.readAt it.index
    pure (some item, ⟨it.index + 1, it.len, array⟩)

def nextBack (it : IntoIter α) : Outcome (Option α × IntoIter α) :=
  if it.index = it.len then pure (none, it)
  else do
    let len ← Outcome.sub it.len 1
    let (item, array) ← it.array.readAt len
    pure (some item, ⟨it.index, len, array⟩)

/-- `size_hint`, and `len`. -/
def remaining (it : IntoIter α) : Outcome Nat := Outcome.sub it.len it.index

def drop (it : IntoIter α) : Outcome (List α) := do
  let len ← Outcome.sub it.len it.index
  it.array.slice it.index len

end IntoIter

/-! ## The string -/

structure FixedString where
  vec : FixedVec UInt8
  deriving DecidableEq, Repr

namespace FixedString

def new (n : Nat) : FixedString := ⟨FixedVec.newArray n⟩

/-- The loop that pushes the bytes. -/
def pushBytes : FixedVec UInt8 → List UInt8 → Outcome (FixedVec UInt8)
  | v, [] => pure v
  | v, b :: bytes => do
      -- what `try_push` hands back is dropped
      let (_, v) ← v.tryPush b
      pushBytes v bytes

/-- `false` if there is not enough room: the string is unchanged then. -/
def tryPushStr (s : FixedString) (str : Str) : Outcome (Bool × FixedString) := do
  let remaining ← s.vec.remainingCapacity
  if str.bytes.length > remaining then pure (false, s)
  else do
    let vec ← pushBytes s.vec str.bytes
    pure (true, ⟨vec⟩)

def tryFromStr (n : Nat) (str : Str) : Outcome (Option FixedString) := do
  let (fits, s) ← (new n).tryPushStr str
  pure (if fits then some s else none)

/-- The bytes of `as_str`, which does not look whether they are UTF-8. -/
def asStr (s : FixedString) : Outcome (List UInt8) := s.vec.deref

end FixedString

end Dynld
