import Dynld.Entrypoint
import Dynld.Loader
import Dynld.SharedCacheAttach

/-!
# From the kernel to the program

The linker is started with nothing but the addresses of two images in memory: its own, and
that of the program. It first rebases itself, since none of its own pointers are valid
before; the symbols it binds to are in the shared cache, which it has yet to find. So the
binds wait until the cache is attached. Then the program is loaded, and jumped to.

What `start` returns is the jump to the program. An error is the text it exits with.
-/

namespace Dynld

/-- `DYLD_LIKELY_UNSLID_VM_ADDR`. -/
def dyldLikelyUnslidVmAddr : Nat := 0x180000000

/-- `LIBSYSTEM_PATH`. -/
def libsystemPath : Str := ⟨ascii "/usr/lib/libSystem.B.dylib", by decide +kernel⟩

/-- The information passed by the kernel. -/
structure Stack where
  /-- A pointer to the linker's own mach header. -/
  dylinkerHeader : Nat
  /-- A pointer to the executable's mach header. -/
  executableHeader : Nat
  dylinkerSize : Nat
  executableSize : Nat
  argc : Nat
  argv : Nat
  envp : Nat
  apple : Nat
  deriving DecidableEq, Repr

/-- `jump::entry_and_ret`: where the program is entered, and with what. -/
structure Jump where
  entrypoint : Nat
  argc : Nat
  argv : Nat
  envp : Nat
  apple : Nat
  deriving DecidableEq, Repr

/-! ## The image to load -/

/-- Some inner bytes given a range. -/
def MappedContainer.slice (c : MappedContainer) (offset len : Nat) : Option ByteRange :=
  if offset + len < 2 ^ 64 ∧ offset + len ≤ c.bytes.len then some ⟨c.bytes.start + offset, len⟩
  else none

/-- The bytes from this address on, in the byte order that the magic number tells. -/
def containerOfMagic (bytes : ByteRange) (magicBytes : List UInt8) :
    Outcome MappedContainer := do
  let magic ← machMagicRead magicBytes
  .ok { bytes, endian := machoEndianFromMagic magic }

/-- `arm64SliceFind`, of a container in memory. -/
def arm64SliceFindAt (m : Mem) (image : MappedContainer) :
    Nat → Nat → Outcome (Option MappedContainer)
  | 0, _ => .ok none
  | n + 1, index =>
      match (image.view m).fatArch (FatHeader.size + index * FatArch.structSize) with
      | none => arm64SliceFindAt m image n (index + 1)
      | some arch =>
          match image.slice arch.offset arch.size with
          | none => arm64SliceFindAt m image n (index + 1)
          | some bytes => do
              let container ← containerOfMagic bytes (m.read bytes.start bytes.len)
              if (((container.view m).machHeader64 0).map MachHeader64.isArm64).getD false then
                .ok (some container)
              else arm64SliceFindAt m image n (index + 1)

/-- `arm64ContainerCreate`, of a container in memory. -/
def arm64ContainerCreateAt (m : Mem) : Nat → MappedContainer → Outcome MappedContainer
  | 0, _ => .outOfFuel
  | fuel + 1, image => do
      let header ← Outcome.orPanic ((image.view m).machHeader64 0)
        "called `Result::unwrap()` on an `Err` value: ()"
      if header.isArm64 then .ok image
      else if header.magic ≠ .fatMagic then .err "Not a valid ARM64 Mach-O or fat binary"
      else do
        let fatHeader ← Outcome.orPanic ((image.view m).fatHeader 0)
          "called `Result::unwrap()` on an `Err` value: ()"
        let found ← arm64SliceFindAt m image fatHeader.nfatArch 0
        let container ← Outcome.okOr found "error: could not read `mach_header_64` from inner mach-o"
        arm64ContainerCreateAt m fuel container

/-! ## The path of the program -/

/-- The length of a C string, from `len` on. -/
def cStringLength (m : Mem) (a : Nat) : Nat → Nat → Outcome Nat
  | 0, _ => .outOfFuel
  | fuel + 1, len => if m (a + len) = 0 then .ok len else cStringLength m a fuel (len + 1)

/-- `argv[0]`, if it is there, and UTF-8. -/
def argv0 (m : Mem) (fuel argv : Nat) : Outcome (Option (List UInt8)) := do
  let arg0 := m.readWord 8 argv
  if arg0 = 0 then .ok none
  else do
    let len ← cStringLength m arg0 fuel 0
    let bytes := m.read arg0 len
    .ok (if validUtf8 bytes then some bytes else none)

def exeDir (m : Mem) (fuel argv : Nat) : Outcome (Option (List UInt8)) := do
  let path ← argv0 m fuel argv
  .ok (path.map dirOf)

/-! ## The linker itself -/

/-- Rebases the linker, and returns the binds, which it cannot handle yet. -/
def rebaseSelfAndExtractBindFixups (self : MappedContainer) : Exec World (List Fixup) := do
  let fixups ← Exec.mapErr (fun err => err ++ "\nexiting ...\n")
    (Exec.lift fun w => (self.view w.mem).chainedFixupsParseAll)
  Exec.mapErr (fun _ => "self rebase error, exiting ...\n")
    (onMem (fixupAllChainedFixups self.bytes.start 0 [] [] none true fixups))
  pure (fixups.filter fun fixup => match fixup.kind with
    | .rebase _ => false
    | .bind _ _ _ _ => true)

/-- Every symbol is looked up in the one library. -/
def Fixup.toFirstLibrary (fixup : Fixup) : Fixup :=
  { fixup with kind := match fixup.kind with
      | .rebase target => .rebase target
      | .bind symbolName _ isAuth addend => .bind symbolName 1 isAuth addend }

/-- `self_bind_symbols`. -/
def selfBindSymbols (selfBindFixups : List Fixup) : List Symbol :=
  selfBindFixups.filterMap fun bind => match bind.kind with
    | .rebase _ => none
    | .bind symbolName _ _ _ => some (Symbol.makeUndefined symbolName 1 false)

/-- The functions for thread local variables are in the linker, and call libSystem. -/
def tlsFunctionsSelfBindHack (self : MappedContainer) (selfBindFixups : List Fixup)
    (dyldSharedCache : CacheView) : Exec World Unit :=
  onMem (fixupAllChainedFixups self.bytes.start 0 (selfBindSymbols selfBindFixups)
    [.system libsystemPath] (some dyldSharedCache) false
    (selfBindFixups.map Fixup.toFirstLibrary))

/-! ## The program -/

/-- Attach to the shared cache; `baseAddress` is what the kernel says. -/
def sharedCacheFind (baseAddress : Option Nat) : Exec World MappedSharedCache := do
  let base ← Outcome.okOr baseAddress "failed to find the dyld_shared_cache base address"
  let slide ← Outcome.sub base dyldLikelyUnslidVmAddr
  Exec.mapErr (fun err => "failed initializing dyld shared cache: '" ++ err ++ "'")
    (Exec.lift fun w => MappedSharedCache.fromExisting w.mem base slide)

/-- The program is loaded, and jumped to. -/
def dynldEntrypoint (host : Host) (baseAddress : Option Nat) (fuel : Nat)
    (selfBindFixups : List Fixup) (self : MappedContainer) (info : Stack) : Exec World Jump := do
  let image ← Exec.lift fun w => containerOfMagic
    ⟨info.executableHeader, info.executableSize⟩ (w.mem.read info.executableHeader 4)
  let image ← Exec.mapErr (fun err => "failed to create an arm64 container: " ++ err)
    (Exec.lift fun w => arm64ContainerCreateAt w.mem fuel image)
  let dyldSharedCache ← sharedCacheFind baseAddress
  Exec.mapErr (fun err => "failed to bind TLS function to self: '" ++ err ++ "'")
    (tlsFunctionsSelfBindHack self selfBindFixups dyldSharedCache.view)
  let found ← Exec.lift fun w => exeDir w.mem fuel info.argv
  let execDir ← Outcome.okOr found "failed to get the exeutable path of the program"
  let cache ← Exec.lift fun w => .ok (dyldSharedCache.view w.mem)
  let (_, entrypoint) ← Exec.mapErr (fun err => "dylinking error: '" ++ err ++ "', giving up...")
    (machoLoader host cache execDir fuel image none)
  pure { entrypoint, argc := info.argc, argv := info.argv, envp := info.envp, apple := info.apple }

/-- The first function that runs. -/
def start (host : Host) (baseAddress : Option Nat) (fuel : Nat) (info : Stack) :
    Exec World Jump := do
  let self ← Exec.lift fun w => containerOfMagic ⟨info.dylinkerHeader, info.dylinkerSize⟩
    (w.mem.read info.dylinkerHeader 4)
  let selfBindFixups ← rebaseSelfAndExtractBindFixups self
  dynldEntrypoint host baseAddress fuel selfBindFixups self info

end Dynld
