import Dynld.FixupApply
import Dynld.MachoParser

/-!
# The loader

`macho_loader` parses an image, loads the dylibs it depends on, maps its segments,
applies its fixups and runs its initializers. A dylib is loaded by `macho_loader`
itself; the recursion has no bound in the code, so here it is on fuel.

The world the loader runs in is the memory, the ranges of it that are in use, and a
trace of what the loader did. The trace is not in the program: it is what an observer
would note down. What the kernel and the loaded code do is a `Host`.

The shared cache is mapped read-only, so the loader sees one cache throughout. Paths
are byte strings here; the code keeps them as `str`.
-/

namespace Dynld

/-- `PAGE_ZERO_SIZE`. -/
def pageZeroSize : Nat := 0x100000000

/-! ## The world -/

/-- What an observer notes. An image is named by its path, the executable by `none`. -/
inductive Event where
  /-- The file of a dylib was mapped, to be parsed. -/
  | opened (path : List UInt8)
  /-- A region was allocated for the segments of an image. -/
  | mapped (image : Option (List UInt8)) (region : ByteRange)
  /-- `count` bytes were copied. -/
  | copied (src dst count : Nat)
  /-- Every fixup of an image was applied. -/
  | fixedUp (image : Option (List UInt8))
  /-- An initializer of an image was called. -/
  | called (image : Option (List UInt8)) (func address : Nat)
  deriving DecidableEq, Repr

structure World where
  mem : Mem
  /-- The ranges in use. -/
  regions : List ByteRange
  trace : List Event

/-- What is outside the program. -/
structure Host where
  /-- The bytes of the file at a NUL-terminated path, if it can be opened. -/
  file : List UInt8 → Option (List UInt8)
  /-- `fstat` tells its size. -/
  fstat : List UInt8 → Bool
  /-- The address of a new mapping of this size. -/
  mmap : World → Nat → Option Nat
  /-- The address of a new region of this size. -/
  vmAllocate : World → Nat → Option Nat
  /-- The kernel agrees to protect a range. -/
  vmProtect : World → ByteRange → Bool → Nat → Bool
  /-- What the code at an address does to the memory, if it returns. -/
  call : Nat → Mem → Mem
  /-- What the thread local variables of the image at an address need. -/
  tlvInitialize : Nat → Mem → Mem

namespace World

def note (w : World) (e : Event) : World := { w with trace := w.trace ++ [e] }

/-- A range comes into use, with these bytes. -/
def addRegion (w : World) (r : ByteRange) (mem : Mem) : World :=
  { w with mem, regions := r :: w.regions }

end World

/-- Run a call that only needs the memory. -/
def onMem {α : Type} (x : Exec Mem α) : Exec World α := fun w =>
  let (r, mem) := x w.mem
  (r, { w with mem })

/-! ## Paths -/

/-- `strip_prefix`. -/
def stripPrefix (p s : List UInt8) : Option (List UInt8) :=
  if p <+: s then some (s.drop p.length) else none

/-- What the placeholder of an install name stands for. -/
def placeholderResolve (installName : List UInt8) (rpath : Option Rpath)
    (execDir : List UInt8) : Outcome (List UInt8) :=
  match stripPrefix (ascii "@rpath/") installName with
  | some rest =>
      match rpath with
      | some .loaderPath => .ok (execDir ++ ascii "/" ++ rest)
      | some .executablePath => .ok (execDir ++ ascii "/" ++ rest)
      | some .rPath => .panic "not implemented: @rpath search paths"
      | none => .ok rest
  | none =>
      match stripPrefix (ascii "@loader_path/") installName with
      | some rest => .ok (execDir ++ ascii "/" ++ rest)
      | none =>
          match stripPrefix (ascii "@executable_path/") installName with
          | some rest => .ok (execDir ++ ascii "/" ++ rest)
          | none => .ok installName

/-- Turns a dylib install name into a NUL terminated disk path. -/
def userDylibDiskPathResolve (installName : List UInt8) (rpath : Option Rpath)
    (execDir : List UInt8) : Outcome (List UInt8) := do
  let resolved ← placeholderResolve installName rpath execDir
  .ok (resolved ++ [0])

/-! ## Dependencies -/

/-- The loop of `dependencies_collect`. -/
def dependenciesLoop (dyldSharedCache : DyldSharedCache) :
    List (Str × Nat) → ArrayVec (Str × Bool) 32 → Outcome (ArrayVec (Str × Bool) 32)
  | [], dependencies => .ok dependencies
  | (libName, _) :: rest, dependencies => do
      if dependencies.items.length = 32 then .err "exceeded maximum amount of dylibs"
      else do
        let isSystemDylib := dyldSharedCache.isLibraryCached libName.bytes
        let dependencies ← dependencies.push (libName, isSystemDylib)
        dependenciesLoop dyldSharedCache rest dependencies

/-- Each library of the image, and whether it is a system library. -/
def dependenciesCollect (parsedImage : ParsedImage) (dyldSharedCache : DyldSharedCache) :
    Outcome (ArrayVec (Str × Bool) 32) :=
  dependenciesLoop dyldSharedCache parsedImage.libraries.items ArrayVec.newArray

section

variable (host : Host)

/-- Map the file at a path. -/
def diskPathMmap (path : List UInt8) : Exec World MappedContainer := do
  let bytes ← Outcome.okOr (host.file path) "could not open path"
  if host.fstat path = false then Outcome.err "could not stat cache file"
  else if bytes.length = 0 then Outcome.err "could not mmap cache file"
  else do
    let address ← Exec.lift fun w =>
      Outcome.okOr (host.mmap w bytes.length) "could not mmap cache file"
    if address = 0 then Outcome.err "could not mmap cache file"
    else do
      let region : ByteRange := ⟨address, bytes.length⟩
      Exec.modify fun w => w.addRegion region (w.mem.write address bytes)
      Exec.modify fun w => w.note (.opened path)
      pure { bytes := region, endian := .little }

/-- One turn of the loop over the dependencies; `load` is the loader. -/
def userDylibLoad (load : MappedContainer → Option (List UInt8) → Exec World (Nat × Nat))
    (execDir : List UInt8) (rpath : Option Rpath) (dependency : Str × Bool) :
    Exec World Library := do
  let (installName, isSystemDylib) := dependency
  if isSystemDylib then pure (.system installName)
  else do
    let dylibPath ← userDylibDiskPathResolve installName.bytes rpath execDir
    let image ← diskPathMmap host dylibPath
    let (vm, vmSize) ← load image (some dylibPath)
    pure (.user { bytes := ⟨vm, vmSize⟩, endian := .little })

/-- For every non system lib: resolve its install name to a disk path, mmap it, and recursively
load it. Returns each loaded image. -/
def userDylibsLoadRecursively
    (load : MappedContainer → Option (List UInt8) → Exec World (Nat × Nat))
    (execDir : List UInt8) (rpath : Option Rpath) (dependencies : List (Str × Bool)) :
    Exec World (List Library) :=
  Exec.each (userDylibLoad host load execDir rpath) dependencies

/-! ## Mapping -/

/-- `vm_alloc_task_self`: the pages are zero-filled. -/
def vmAllocTaskSelf (image : Option (List UInt8)) (size : Nat) : Exec World Nat := do
  let address ← Exec.lift fun w =>
    Outcome.okOr (host.vmAllocate w size) "failed to vm_alloc_task_self"
  if address = 0 then Outcome.err "failed to vm_alloc_task_self"
  else do
    Exec.modify fun w => w.addRegion ⟨address, size⟩ (w.mem.zero address size)
    Exec.modify fun w => w.note (.mapped image ⟨address, size⟩)
    pure address

/-- The fold over the segments that finds the lowest and the highest address. -/
def segmentsBounds : List Segment → Nat × Nat → Outcome (Nat × Nat)
  | [], bounds => .ok bounds
  | s :: rest, (lo, hi) => do
      let e ← Outcome.add 64 s.vmAddr s.vmSize
      segmentsBounds rest (min lo s.vmAddr, max hi e)

end

/-- `vm_copy_into_task_self`. -/
def vmCopyIntoTaskSelf (src dst count : Nat) : Exec World Unit := do
  Exec.modify fun w => { w with mem := w.mem.copy src dst count }
  Exec.modify fun w => w.note (.copied src dst count)

/-- The loop that copies the segments. A pointer that leaves the address space is not wrapped: it
is in no range in use. -/
def segmentsCopy (skipPageZero : Bool) (image : MappedContainer) (vm : Nat) :
    List Segment → Exec World Unit
  | [] => pure ()
  | seg :: rest => do
      -- `__PAGEZERO` has `vm_addr == 0`
      if skipPageZero && seg.vmAddr == 0 then segmentsCopy skipPageZero image vm rest
      else do
        vmCopyIntoTaskSelf (image.bytes.start + seg.fileOffset) (vm + seg.vmAddr) seg.vmSize
        segmentsCopy skipPageZero image vm rest

section

variable (host : Host)

/-- Allocate a single VM region covering every segment, then copy each segment's file bytes into
them. -/
def machoSegmentsMapToVm (dylibDir : Option (List UInt8)) (image : MappedContainer)
    (segments : List Segment) : Exec World (Nat × Nat) := do
  let (minAddr, maxAddr) ← segmentsBounds segments (2 ^ 64 - 1, 0)
  let vmSize ← Outcome.sub maxAddr minAddr
  let vm ← vmAllocTaskSelf host dylibDir vmSize
  segmentsCopy dylibDir.isNone image vm segments
  pure (vm, vmSize)

/-- Apply each segment's permissions: max-protection first, then the current protection. -/
def machoSegmentsVmProtect (vm : Nat) : List Segment → Exec World Unit
  | [] => pure ()
  | seg :: rest => do
      let r : ByteRange := ⟨vm + seg.vmAddr, seg.vmSize⟩
      let agreed ← Exec.lift fun w =>
        .ok (host.vmProtect w r true seg.prot && host.vmProtect w r false seg.prot)
      if agreed then machoSegmentsVmProtect vm rest
      else Outcome.err "could not apply vm protections to a memory region"

/-- Call every initializer collected from `S_INIT_FUNC_OFFSETS`, in order. -/
def machoInitFunctionsExec (dylibDir : Option (List UInt8)) (vm : Nat) :
    List Nat → Exec World Unit
  | [] => pure ()
  | func :: rest => do
      let address := ptrAdd (ptrAdd vm func) pageZeroSize
      Exec.modify fun w => w.note (.called dylibDir func address)
      Exec.modify fun w => { w with mem := host.call address w.mem }
      machoInitFunctionsExec dylibDir vm rest

def machoTlvInitialize (vm : Nat) : Exec World Unit :=
  Exec.modify fun w => { w with mem := host.tlvInitialize (ptrAdd vm pageZeroSize) w.mem }

/-- Only the executable's thread locals are initialized. -/
def imageTlvInitialize (dylibDir : Option (List UInt8)) (vm : Nat) (parsedImage : ParsedImage) :
    Exec World Unit :=
  if dylibDir.isNone && parsedImage.hasThreadLocals then machoTlvInitialize host vm else pure ()

/-- Initializes TLVs, then protects the segments and runs the initializers. -/
def imageFinalize (dylibDir : Option (List UInt8)) (vm : Nat) (parsedImage : ParsedImage) :
    Exec World Unit := do
  imageTlvInitialize host dylibDir vm parsedImage
  machoSegmentsVmProtect host vm parsedImage.segments.items
  machoInitFunctionsExec host dylibDir vm parsedImage.initFunctions

end

/-- Applies chained fixups to the newly mapped image. -/
def imageFixupsApply (dylibDir : Option (List UInt8)) (vm : Nat) (parsedImage : ParsedImage)
    (dependencies : List Library) (dyldSharedCache : DyldSharedCache) : Exec World Unit := do
  let fixupBaseOffset := if dylibDir.isNone then pageZeroSize else 0
  onMem (fixupAllChainedFixups vm fixupBaseOffset parsedImage.symbols dependencies
    (some fun _ => dyldSharedCache) false parsedImage.fixups)
  Exec.modify fun w => w.note (.fixedUp dylibDir)

/-! ## The loader -/

/-- Where an image is loaded, and its size, or for the executable its entry point. -/
def loaderResult (dylibDir : Option (List UInt8)) (vm vmSize : Nat) (parsedImage : ParsedImage) :
    Nat × Nat :=
  match dylibDir with
  | some _ => (vm, vmSize)
  | none => (vm, ptrAdd (ptrAdd vm parsedImage.entryPoint) pageZeroSize)

/-- Dynamically link an image: the executable if `dylib_dir` is `none`, else the dylib at that
path. -/
def machoLoader (host : Host) (dyldSharedCache : DyldSharedCache) (execDir : List UInt8) :
    Nat → MappedContainer → Option (List UInt8) → Exec World (Nat × Nat)
  | 0, _, _ => Outcome.outOfFuel
  | fuel + 1, image, dylibDir => do
      let parsedImage ← Exec.lift fun w => (image.view w.mem).machoParser
      let dependencies ← dependenciesCollect parsedImage dyldSharedCache
      let dylibImages ← userDylibsLoadRecursively host
        (machoLoader host dyldSharedCache execDir fuel) execDir parsedImage.rpath
        dependencies.items
      let (vm, vmSize) ←
        machoSegmentsMapToVm host dylibDir image parsedImage.segments.items
      imageFixupsApply dylibDir vm parsedImage dylibImages dyldSharedCache
      imageFinalize host dylibDir vm parsedImage
      pure (loaderResult dylibDir vm vmSize parsedImage)

end Dynld
