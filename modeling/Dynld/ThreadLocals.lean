import Dynld.FixupApply

/-!
# Thread local variables

`libtlv` gives each thread its own copy of the thread local variables of an image. The
image has a template of them, and a descriptor for each variable: a thunk, a key, and
the offset of the variable in the template. When the image is loaded, every descriptor
gets the thunk that looks up the variable, and the one key of the image. The storage of
a thread is made when the thread first looks up a variable.

Everything is read from memory where it is mapped, the load commands and the table of
images included. Pointers are not wrapped, but for the addresses that are computed with
the slide. What `malloc` and the thread package do is a `Libc`.

The code takes a lock around the table of images. One call here is the call of one
thread, with nothing else going on.
-/

namespace Dynld

/-! ## The process -/

structure Tlv where
  mem : Mem
  /-- The ranges in use: images, stacks, and what `malloc` gave out. -/
  live : List ByteRange
  /-- `tlv_live_images`, which is `0` at first. -/
  liveImages : Nat
  liveImageAllocCount : Nat
  liveImageUsedCount : Nat
  /-- The keys that were created. -/
  keys : List Nat
  /-- What a thread has for a key. -/
  specific : Nat → Nat → Nat
  /-- `tlv_terminators_key`. -/
  terminatorsKey : Nat
  /-- The functions that were called, and by which thread: not in the program. -/
  called : List (Nat × Nat)
  /-- The terminators that were called, with their objects: not in the program either. -/
  destroyed : List (Nat × Nat)

/-- What is outside the library. -/
structure Libc where
  /-- The address of `tlv_get_addr`. -/
  tlvGetAddr : Nat
  malloc : Tlv → Nat → Option Nat
  pthreadKeyCreate : Tlv → Option Nat
  /-- What the function at an address does to memory when a thread calls it. -/
  call : Nat → Nat → Mem → Mem

namespace Tlv

def read (w a : Nat) : Exec Tlv Nat := Exec.lift fun s => .ok (s.mem.readWord w a)

def write (w a v : Nat) : Exec Tlv Unit :=
  Exec.modify fun s => { s with mem := s.mem.writeWord w a v }

/-- The code does not check what `malloc` returns, and goes on to write there. -/
def malloc (libc : Libc) (size : Nat) : Exec Tlv Nat := do
  let address ← Exec.lift fun s => Outcome.orPanic (libc.malloc s size) "null pointer dereference"
  Exec.modify fun s => { s with live := ⟨address, size⟩ :: s.live }
  pure address

def free (address : Nat) : Exec Tlv Unit :=
  Exec.modify fun s => { s with live := s.live.filter fun r => r.start != address }

def memcpy (dst src count : Nat) : Exec Tlv Unit :=
  Exec.modify fun s => { s with mem := s.mem.copy src dst count }

/-- A thread has this value for a key from now on. -/
def setSpecific (s : Tlv) (thread key value : Nat) : Tlv :=
  { s with specific := fun t k => if t = thread ∧ k = key then value else s.specific t k }

end Tlv

/-! ## The table of images -/

/-- `sizeof(TLVImageInfo)`: a key, and the address of a Mach header. -/
def tlvImageInfoSize : Nat := 16

/-- `newCount`: the count is 32 bits wide. -/
def Tlv.newImageCount (s : Tlv) : Nat :=
  if s.liveImages = 0 then 8 else 2 * s.liveImageAllocCount % 2 ^ 32

/-- Make room for one more image. -/
def liveImagesReserve (libc : Libc) : Exec Tlv Unit := do
  let s ← Exec.lift fun s => .ok s
  if s.liveImageUsedCount = s.liveImageAllocCount then do
    let newCount := s.newImageCount
    let newBuffer ← Tlv.malloc libc (tlvImageInfoSize * newCount)
    if s.liveImages = 0 then pure ()
    else do
      Tlv.memcpy newBuffer s.liveImages (tlvImageInfoSize * s.liveImageUsedCount)
      Tlv.free s.liveImages
    Exec.modify fun s => { s with liveImages := newBuffer, liveImageAllocCount := newCount }
  else pure ()

/-- Remember the key of an image. -/
def tlvSetKeyForImage (libc : Libc) (mh key : Nat) : Exec Tlv Unit := do
  liveImagesReserve libc
  let entry ← Exec.lift fun s => .ok (s.liveImages + tlvImageInfoSize * s.liveImageUsedCount)
  Tlv.write 8 entry key
  Tlv.write 8 (entry + 8) mh
  Exec.modify fun s => { s with liveImageUsedCount := (s.liveImageUsedCount + 1) % 2 ^ 32 }

/-- The loop of `tlv_get_image_for_key`, with this many entries to go. -/
def tlvGetImageForKeyLoop (m : Mem) (liveImages key : Nat) : Nat → Nat → Nat
  | 0, _ => 0
  | remaining + 1, i =>
      let entry := liveImages + tlvImageInfoSize * i
      if m.readWord 8 entry = key then m.readWord 8 (entry + 8)
      else tlvGetImageForKeyLoop m liveImages key remaining (i + 1)

/-- The Mach header of the image with this key, or `0`. -/
def tlvGetImageForKey (s : Tlv) (key : Nat) : Nat :=
  tlvGetImageForKeyLoop s.mem s.liveImages key s.liveImageUsedCount 0

/-! ## The sections of an image -/

/-- `intptr_t slide`, and `slideComputed`: it is `0` until it is computed. -/
abbrev Slide : Type := Option Nat

/-- The slide once this segment was seen. -/
def Slide.update (slide : Slide) (m : Mem) (mh seg : Nat) : Slide :=
  match slide with
  | some slide => some slide
  | none =>
      if m.readWord 8 (seg + 48) = 0 then none
      -- `(uintptr_t)mh - seg->vmaddr`
      else some ((mh + (2 ^ 64 - m.readWord 8 (seg + 24))) % 2 ^ 64)

/-- The address of what the image has at `addr`. -/
def Slide.apply (slide : Slide) (addr : Nat) : Nat := ptrAdd addr (slide.getD 0)

section

variable {σ : Type} (visit : Slide → Nat → σ → Exec Tlv σ)

/-- The loop over the sections of a segment, with this many to go. -/
def sectionsLoop (slide : Slide) : Nat → Nat → σ → Exec Tlv σ
  | 0, _, s => pure s
  | remaining + 1, sect, s => do
      let s ← visit slide sect s
      sectionsLoop slide remaining (sect + 80) s

/-- One load command. `visit` gets the address of each section, and the slide that is known by
then. -/
def commandVisit (mh cmd : Nat) (slide : Slide) (s : σ) : Exec Tlv (Slide × σ) := do
  -- `LC_SEGMENT_64`
  if (← Tlv.read 4 cmd) = 0x19 then do
    let slide ← Exec.lift fun w => .ok (slide.update w.mem mh cmd)
    let nsects ← Tlv.read 4 (cmd + 64)
    let s ← sectionsLoop visit slide nsects (cmd + 72) s
    pure (slide, s)
  else pure (slide, s)

/-- The loop over the load commands, with this many to go. -/
def commandsLoop (mh : Nat) : Nat → Nat → Slide → σ → Exec Tlv (Slide × σ)
  | 0, _, slide, s => pure (slide, s)
  | remaining + 1, cmd, slide, s => do
      let (slide, s) ← commandVisit visit mh cmd slide s
      let cmdsize ← Tlv.read 4 (cmd + 4)
      commandsLoop mh remaining (cmd + cmdsize) slide s

end

/-- The type of a section with these flags. -/
def flagsType (flags : Nat) : Nat := flags &&& sectionType

def sThreadLocalRegular : Nat := 0x11
def sThreadLocalZerofill : Nat := 0x12
def sThreadLocalInitFunctionPointers : Nat := 0x15

/-! ## When an image is loaded -/

/-- The addresses of the descriptors from `start` on that are below `stop`. -/
def descriptorAddresses (start stop : Nat) : List Nat :=
  (List.range ((stop - start + 23) / 24)).map fun i => start + 24 * i

/-- Initialize each descriptor. The offset is unchanged. -/
def descriptorsInitialize (libc : Libc) (key : Nat) : List Nat → Exec Tlv Unit
  | [] => pure ()
  | d :: rest => do
      Tlv.write 8 d libc.tlvGetAddr
      Tlv.write 8 (d + 8) key
      descriptorsInitialize libc key rest

/-- The key of an image, which is created when this image is first seen to have variables. -/
def imageKey (libc : Libc) (mh key : Nat) : Exec Tlv Nat :=
  if key = 0 then do
    let key ← Exec.lift fun s => Outcome.orPanic (libc.pthreadKeyCreate s) "abort"
    Exec.modify fun s => { s with keys := key :: s.keys }
    tlvSetKeyForImage libc mh key
    pure key
  else pure key

/-- One section, in `tlv_initialize_descriptors`. -/
def descriptorSectionVisit (libc : Libc) (mh : Nat) (slide : Slide) (sect key : Nat) :
    Exec Tlv Nat := do
  let flags ← Tlv.read 4 (sect + 64)
  if flagsType flags = sThreadLocalVariables then do
    if (← Tlv.read 8 (sect + 40)) = 0 then pure key
    else do
      let key ← imageKey libc mh key
      let addr ← Tlv.read 8 (sect + 32)
      let size ← Tlv.read 8 (sect + 40)
      descriptorsInitialize libc key
        (descriptorAddresses (slide.apply addr) (slide.apply (addr + size)))
      pure key
  else pure key

/-- Called when an image is loaded. -/
def tlvInitializeDescriptors (libc : Libc) (mh : Nat) : Exec Tlv Unit := do
  let ncmds ← Tlv.read 4 (mh + 16)
  let _ ← commandsLoop (descriptorSectionVisit libc mh) mh ncmds (mh + 32) none 0
  pure ()

/-! ## When a variable is first looked up -/

/-- What the first pass finds. -/
structure Template where
  /-- Where it starts, or `0`. -/
  start : Nat
  size : Nat
  hasInitializers : Bool
  deriving DecidableEq, Repr

/-- One section, in the first pass. The template sections of an image are contiguous. -/
def templateVisit (slide : Slide) (sect : Nat) (t : Template) : Exec Tlv Template := do
  let flags ← Tlv.read 4 (sect + 64)
  if flagsType flags = sThreadLocalInitFunctionPointers then
    pure { t with hasInitializers := true }
  else if flagsType flags = sThreadLocalZerofill ∨ flagsType flags = sThreadLocalRegular then do
    let addr ← Tlv.read 8 (sect + 32)
    let size ← Tlv.read 8 (sect + 40)
    if t.start = 0 then pure { t with start := slide.apply addr, size }
    else pure { t with size := (slide.apply (addr + size) + (2 ^ 64 - t.start)) % 2 ^ 64 }
  else pure t

/-- Call the function pointers that are left, the last one first. -/
def initFunctionsCall (libc : Libc) (thread funcs : Nat) : Nat → Exec Tlv Unit
  | 0 => pure ()
  | j + 1 => do
      let func ← Tlv.read 8 (funcs + 8 * j)
      Exec.modify fun s => { s with called := s.called ++ [(thread, func)] }
      Exec.modify fun s => { s with mem := libc.call thread func s.mem }
      initFunctionsCall libc thread funcs j

/-- One section, in the second pass. -/
def initializersVisit (libc : Libc) (thread : Nat) (slide : Slide) (_ : Slide) (sect : Nat)
    (_ : Unit) : Exec Tlv Unit := do
  let flags ← Tlv.read 4 (sect + 64)
  if flagsType flags = sThreadLocalInitFunctionPointers then do
    let addr ← Tlv.read 8 (sect + 32)
    let size ← Tlv.read 8 (sect + 40)
    initFunctionsCall libc thread (slide.apply addr) (size / 8)
  else pure ()

/-- Called lazily when a thread local variable is first accessed. -/
def tlvAllocateAndInitializeForKey (libc : Libc) (thread key : Nat) : Exec Tlv Nat := do
  let mh ← Exec.lift fun s => .ok (tlvGetImageForKey s key)
  -- if data structures are screwed up, don't crash
  if mh = 0 then pure 0
  else do
    let ncmds ← Tlv.read 4 (mh + 16)
    let (slide, template) ← commandsLoop templateVisit mh ncmds (mh + 32) none ⟨0, 0, false⟩
    if template.size = 0 then pure 0
    else do
      let buffer ← Tlv.malloc libc template.size
      Tlv.memcpy buffer template.start template.size
      Exec.modify fun s => s.setSpecific thread key buffer
      if template.hasInitializers then do
        let _ ← commandsLoop (initializersVisit libc thread slide) mh ncmds (mh + 32) none ()
        pure buffer
      else pure buffer

/-- `tlv_get_addr`: the address of the variable with this descriptor, for one thread. -/
def tlvGetAddr (libc : Libc) (thread descriptor : Nat) : Exec Tlv Nat := do
  let key ← Tlv.read 8 (descriptor + 8)
  let allocation ← Exec.lift fun s : Tlv => .ok (s.specific thread key)
  if allocation = 0 then do
    let allocation ← tlvAllocateAndInitializeForKey libc thread key
    let offset ← Tlv.read 8 (descriptor + 16)
    pure (ptrAdd allocation offset)
  else do
    let offset ← Tlv.read 8 (descriptor + 16)
    pure (ptrAdd allocation offset)

/-! ## When a thread goes away -/

/-- What the terminators of the program do. -/
structure Terminators where
  /-- What a terminator registers when it is called with an object, after these calls. -/
  registers : List (Nat × Nat) → Nat → Nat → List (Nat × Nat)
  /-- What it does to memory. -/
  effect : Nat → Nat → Mem → Mem

/-- `offsetof(struct TLVTerminatorList, entries[n])`. A list has the number of entries it has room
for, the number it has, and the entries: a function and its object. -/
def terminatorListSize (n : Nat) : Nat := 8 + 16 * n

def Tlv.getSpecific (thread : Nat) : Exec Tlv Nat :=
  Exec.lift fun s => .ok (s.specific thread s.terminatorsKey)

def Tlv.setTerminators (thread list : Nat) : Exec Tlv Unit :=
  Exec.modify fun s => s.setSpecific thread s.terminatorsKey list

/-- Copy entries, with this many to go. The count of the old list does not change meanwhile. -/
def entriesCopy (list newlist : Nat) : Nat → Nat → Exec Tlv Unit
  | 0, _ => pure ()
  | remaining + 1, i => do
      let termFunc ← Tlv.read 8 (list + terminatorListSize i)
      let objAddr ← Tlv.read 8 (list + terminatorListSize i + 8)
      Tlv.write 8 (newlist + terminatorListSize i) termFunc
      Tlv.write 8 (newlist + terminatorListSize i + 8) objAddr
      entriesCopy list newlist remaining (i + 1)

/-- Move the list to one with room for twice as many entries. -/
def terminatorsGrow (libc : Libc) (thread list : Nat) : Exec Tlv Nat := do
  let allocCount ← Tlv.read 4 list
  let newAllocCount := allocCount * 2 % 2 ^ 32
  let newlist ← Tlv.malloc libc (terminatorListSize newAllocCount)
  Tlv.write 4 newlist newAllocCount
  let useCount ← Tlv.read 4 (list + 4)
  Tlv.write 4 (newlist + 4) useCount
  entriesCopy list newlist useCount 0
  Tlv.setTerminators thread newlist
  Tlv.free list
  pure newlist

/-- Append an entry to a list that has room for it. -/
def terminatorsAppend (list func objAddr : Nat) : Exec Tlv Unit := do
  let useCount ← Tlv.read 4 (list + 4)
  Tlv.write 8 (list + terminatorListSize useCount) func
  Tlv.write 8 (list + terminatorListSize useCount + 8) objAddr
  Tlv.write 4 (list + 4) ((useCount + 1) % 2 ^ 32)

/-- `_tlv_atexit`. -/
def tlvAtexit (libc : Libc) (thread func objAddr : Nat) : Exec Tlv Unit := do
  let list ← Tlv.getSpecific thread
  if list = 0 then do
    let list ← Tlv.malloc libc (terminatorListSize 1)
    Tlv.write 4 list 1
    Tlv.write 4 (list + 4) 1
    Tlv.write 8 (list + terminatorListSize 0) func
    Tlv.write 8 (list + terminatorListSize 0 + 8) objAddr
    Tlv.setTerminators thread list
  else do
    let useCount ← Tlv.read 4 (list + 4)
    let allocCount ← Tlv.read 4 list
    let list ← if useCount = allocCount then terminatorsGrow libc thread list else pure list
    terminatorsAppend list func objAddr

section

variable (libc : Libc) (terms : Terminators) (thread : Nat)

/-- `(*entry->termFunc)(entry->objAddr)`: the function does what it does to memory, and registers
other terminators. -/
def terminatorCall (func objAddr : Nat) : Exec Tlv Unit := do
  let s ← Exec.lift fun s => .ok s
  Exec.modify fun s => { s with
    mem := terms.effect func objAddr s.mem
    destroyed := s.destroyed ++ [(func, objAddr)] }
  let _ ← Exec.each (fun entry => tlvAtexit libc thread entry.1 entry.2)
    (terms.registers s.destroyed func objAddr)
  pure ()

/-- Call the terminator of one entry, if it has one. -/
def entryFinalize (list i : Nat) : Exec Tlv Unit := do
  let termFunc ← Tlv.read 8 (list + terminatorListSize i)
  if termFunc = 0 then pure ()
  else do
    let objAddr ← Tlv.read 8 (list + terminatorListSize i + 8)
    terminatorCall libc terms thread termFunc objAddr

/-- If new terminators were registered, they are destroyed at once, and yet others go to another
list. -/
def newlistFinalize (finalize : Nat → Exec Tlv Unit) : Exec Tlv Unit := do
  let newlist ← Tlv.getSpecific thread
  if newlist = 0 then pure ()
  else do
    Tlv.setTerminators thread 0
    finalize newlist

/-- The loop of `tlv_finalize_list`, with this many entries to go: the last one comes first. -/
def entriesFinalize (finalize : Nat → Exec Tlv Unit) (list : Nat) : Nat → Exec Tlv Unit
  | 0 => pure ()
  | i + 1 => do
      entryFinalize libc terms thread list i
      newlistFinalize thread finalize
      entriesFinalize finalize list i

/-- `tlv_finalize_list`: the fuel is for lists that are made while a list is destroyed. -/
def tlvFinalizeList : Nat → Nat → Exec Tlv Unit
  | 0, _ => liftM (Outcome.outOfFuel : Outcome Unit)
  | fuel + 1, list => do
      let useCount ← Tlv.read 4 (list + 4)
      entriesFinalize libc terms thread (tlvFinalizeList fuel) list useCount
      Tlv.free list

/-- `tlv_finalize`, which gets the list when the thread goes away. -/
def tlvFinalize (fuel storage : Nat) : Exec Tlv Unit := tlvFinalizeList libc terms thread fuel storage

/-- `_tlv_exit`. -/
def tlvExit (fuel : Nat) : Exec Tlv Unit := do
  let termFuncs ← Tlv.getSpecific thread
  if termFuncs = 0 then pure ()
  else do
    Tlv.setTerminators thread 0
    tlvFinalize libc terms thread fuel termFuncs

end

end Dynld
