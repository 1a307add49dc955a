import Dynld.Bindings

/-!
# Images, segments and symbols

The pieces that the fixup parser and the loader share: strings and vectors of a
fixed capacity, the loop over load commands, and what the loader keeps of a
segment and of a symbol.
-/

namespace Dynld

/-! ## Fixed capacity -/

/-- `SYMBOL_NAME_LEN`: the longest symbol name the linker can hold. -/
def symbolNameLen : Nat := 128

/-- A string of at most `n` bytes. -/
structure ArrayString (n : Nat) where
  str : Str
  /-- It fits. -/
  length_le : str.bytes.length ≤ n
  deriving DecidableEq, Repr

namespace ArrayString

variable {n : Nat}

def asBytes (s : ArrayString n) : List UInt8 := s.str.bytes

/-- `None` if the string does not fit. -/
def tryFromStr (n : Nat) (s : Str) : Option (ArrayString n) :=
  if h : s.bytes.length ≤ n then some ⟨s, h⟩ else none

@[simp] theorem tryFromStr_str (s : ArrayString n) : tryFromStr n s.str = some s :=
  dif_pos s.length_le

end ArrayString

/-- A vector of at most `n` items. -/
structure ArrayVec (α : Type) (n : Nat) where
  items : List α
  /-- They fit. -/
  length_le : items.length ≤ n
  deriving DecidableEq, Repr

namespace ArrayVec

variable {α : Type} {n : Nat}

def newArray : ArrayVec α n := ⟨[], Nat.zero_le n⟩

/-- Pushes an item to the end of the vector. -/
def push (v : ArrayVec α n) (item : α) : Outcome (ArrayVec α n) :=
  if h : v.items.length < n then
    .ok ⟨v.items ++ [item], by rw [List.length_append]; exact h⟩
  else .panic "ArrayVec is full"

theorem push_eq_ok {v w : ArrayVec α n} {item : α} (h : v.push item = .ok w) :
    w.items = v.items ++ [item] := by
  unfold push at h
  split at h
  · injection h with h
    rw [← h]
  · exact absurd h (by simp)

end ArrayVec

/-! ## Segments and symbols -/

/-- What the loader keeps of a `segment_command_64`. -/
structure Segment where
  fileOffset : Nat
  vmAddr : Nat
  vmSize : Nat
  prot : Nat
  deriving DecidableEq, Repr

structure Symbol where
  libOrdinal : Nat
  name : ArrayString symbolNameLen
  implOffset : Nat
  sectNum : Nat
  value : Nat
  isWeak : Bool
  isThumb : Bool
  isCold : Bool
  deriving DecidableEq, Repr

namespace Symbol

def makeUndefined (name : ArrayString symbolNameLen) (libOrdinal : Nat) (isWeak : Bool) : Symbol :=
  { libOrdinal, name, implOffset := 0, sectNum := 0, value := 0, isWeak, isThumb := false,
    isCold := false }

/-- A symbol of this image; the three kinds below differ in `isWeak` only. -/
def makeDefined (isWeak : Bool) (name : ArrayString symbolNameLen) (imageOffset sectNum : Nat)
    (isCold isThumb : Bool) : Symbol :=
  { libOrdinal := selfLibraryOrdinal, name, implOffset := imageOffset, sectNum, value := 0,
    isWeak, isThumb, isCold }

def makeRegularLocal := makeDefined false

def makeRegularExport := makeDefined false

def makeWeakDefExport := makeDefined true

def arrayStringCmp (symbol : Symbol) (name : ArrayString symbolNameLen) : Bool :=
  symbol.name.asBytes == name.asBytes

end Symbol

/-! ## The load command iterator -/

/-- A load command iterator. -/
structure LCIterator where
  container : Container
  /-- The offset of the next command. -/
  offset : Nat
  /-- The number of load commands remaining (not yet iterated over). -/
  remaining : Nat
  deriving DecidableEq, Repr

namespace LCIterator

def tryWithContainer (container : Container) : Outcome LCIterator := do
  let header ← Outcome.okOr (container.machHeader64 0)
    "error: could not create load command iterator for container"
  .ok { container, offset := MachHeader64.size, remaining := header.ncmds }

/-- The next command, if one is left, and the iterator behind it. -/
def tryNext (iterator : LCIterator) : Outcome (Option LoadCommand × LCIterator) :=
  if iterator.remaining = 0 then .ok (none, iterator)
  else do
    let lc ← Outcome.okOr (iterator.container.loadCommand iterator.offset)
      "error: could not iterate over load commands"
    let offset ← Outcome.add 64 iterator.offset lc.cmdsize
    .ok (some lc, { iterator with offset, remaining := iterator.remaining - 1 })

end LCIterator

/-- `while let Some(load_command) = iterator.try_next()? { … }`, with `remaining` commands to
go. The body gets each command and its offset, and says whether to go on. -/
def lcIterate {σ : Type} (c : Container) (body : σ → LoadCommand → Nat → Outcome (σ × Bool)) :
    Nat → Nat → σ → Outcome σ
  | 0, _, s => .ok s
  | remaining + 1, offset, s => do
      let lc ← Outcome.okOr (c.loadCommand offset) "error: could not iterate over load commands"
      let nextOffset ← Outcome.add 64 offset lc.cmdsize
      let (s, goOn) ← body s lc offset
      if goOn then lcIterate c body remaining nextOffset s else .ok s

/-- `LCIterator::try_with_container` and the loop over it. -/
def lcForEach {σ : Type} (c : Container) (body : σ → LoadCommand → Nat → Outcome (σ × Bool))
    (s : σ) : Outcome σ := do
  let header ← Outcome.okOr (c.machHeader64 0)
    "error: could not create load command iterator for container"
  lcIterate c body header.ncmds MachHeader64.size s

end Dynld
