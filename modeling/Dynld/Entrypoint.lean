import Dynld.Bindings

/-!
# Choosing the image to load

The program that is handed over may be a universal binary: a table of architectures, and
an image for each of them. The linker looks for the first arm64 image in it.

The directory of the program is found in its path, which is taken from `argv[0]`.
-/

namespace Dynld

def cpuTypeArm64 : Nat := 0x0100000c

/-- The fat header appears at the beginning of fat (universal) binaries. -/
structure FatHeader where
  magic : MachMagic
  /-- Number of `fat_arch` structs that follow. -/
  nfatArch : Nat
  deriving DecidableEq, Repr

/-- `size_of::<fat_header>()`. -/
def FatHeader.size : Nat := 8

def Container.fatHeader (c : Container) (offset : Nat) : Option FatHeader := do
  let magic ← c.enum32 MachMagic offset
  let nfatArch ← c.u32 (offset + 4)
  return { magic, nfatArch }

/-- Describes one architecture slice in a fat binary. -/
structure FatArch where
  cputype : Nat
  cpusubtype : Nat
  /-- File offset to this object file. -/
  offset : Nat
  /-- Size of this object file. -/
  size : Nat
  align : Nat
  deriving DecidableEq, Repr

/-- `size_of::<fat_arch>()`. -/
def FatArch.structSize : Nat := 20

def Container.fatArch (c : Container) (offset : Nat) : Option FatArch := do
  let cputype ← c.u32 offset
  let cpusubtype ← c.u32 (offset + 4)
  let archOffset ← c.u32 (offset + 8)
  let size ← c.u32 (offset + 12)
  let align ← c.u32 (offset + 16)
  return { cputype, cpusubtype, offset := archOffset, size, align }

def machoEndianFromMagic : MachMagic → Endian
  | .mhMagic | .mhMagic64 => .little
  | .mhCigam | .mhCigam64 | .fatMagic | .fatMagic64 | .fatCigam | .fatCigam64 => .big

/-- `read_unaligned` of a `mach_magic`, in the byte order of the machine. Other values than the
declared ones are undefined behaviour, which a panic stands for. -/
def machMagicRead (bytes : List UInt8) : Outcome MachMagic :=
  Outcome.orPanic ((Bytes.wordAt .little 4 bytes 0).bind ReprEnum.ofNat?) "undefined behaviour"

/-- The image is one for arm64. -/
def MachHeader64.isArm64 (header : MachHeader64) : Bool :=
  header.magic == .mhMagic64 && header.cputype == cpuTypeArm64

/-- The first slice that is an arm64 image, from `index` on with this many to go. -/
def arm64SliceFind (imageContainer : Container) : Nat → Nat → Outcome (Option Container)
  | 0, _ => .ok none
  | n + 1, index =>
      match imageContainer.fatArch (FatHeader.size + index * FatArch.structSize) with
      | none => arm64SliceFind imageContainer n (index + 1)
      | some arch =>
          match imageContainer.slice arch.offset arch.size with
          | none => arm64SliceFind imageContainer n (index + 1)
          | some bytes => do
              let magic ← machMagicRead bytes
              let container : Container := { data := bytes, endian := machoEndianFromMagic magic }
              if ((container.machHeader64 0).map MachHeader64.isArm64).getD false then
                .ok (some container)
              else arm64SliceFind imageContainer n (index + 1)

/-- Tries to find an image with a `CPU_TYPE_ARM64` cputype.

If the container is a `fat_magic` image, we try to find the correct architecture within it. -/
def arm64ContainerCreate : Nat → Container → Outcome Container
  | 0, _ => .outOfFuel
  | fuel + 1, imageContainer => do
      let header ← Outcome.orPanic (imageContainer.machHeader64 0)
        "called `Result::unwrap()` on an `Err` value: ()"
      if header.isArm64 then .ok imageContainer
      else if header.magic ≠ .fatMagic then .err "Not a valid ARM64 Mach-O or fat binary"
      else do
        let fatHeader ← Outcome.orPanic (imageContainer.fatHeader 0)
          "called `Result::unwrap()` on an `Err` value: ()"
        let found ← arm64SliceFind imageContainer fatHeader.nfatArch 0
        let container ← Outcome.okOr found "error: could not read `mach_header_64` from inner mach-o"
        arm64ContainerCreate fuel container

/-! ## The directory of the program -/

/-- A slash. -/
def pathSeparator : UInt8 := 0x2f

/-- `rfind` of a single byte. -/
def rfind (b : UInt8) : List UInt8 → Option Nat
  | [] => none
  | c :: rest =>
      match rfind b rest with
      | some i => some (i + 1)
      | none => if c = b then some 0 else none

/-- Extracts the directory portion of a path, dropping the final component. -/
def dirOf (path : List UInt8) : List UInt8 :=
  match rfind pathSeparator path with
  | some 0 => [pathSeparator]
  | some i => path.take i
  | none => ascii "."

end Dynld
