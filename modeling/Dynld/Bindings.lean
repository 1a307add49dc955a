import Dynld.Container

/-!
# The on-disk structures

Mach-O headers and load commands, the tables of `LC_DYLD_CHAINED_FIXUPS`, and the
two structures of the shared cache that symbol lookup reads. A structure is read
field by field in the byte order of its container; its reader fails when the bytes
end inside it, or when an enumerated field holds an undeclared value.

Where the rest of the program only looks at some fields of a structure, only those
are kept, and `Container.room` stands for the reads of the others.
-/

namespace Dynld

/-- A C-like enum with explicit discriminants. -/
class ReprEnum (α : Type) where
  /-- The declared discriminant. -/
  toNat : α → Nat
  /-- Every declared variant. -/
  all : List α
  /-- No two variants share a discriminant. -/
  find_toNat : ∀ v, all.find? (fun u => toNat u == toNat v) = some v

namespace ReprEnum

variable {α : Type} [ReprEnum α]

/-- The variant a number stands for; any other number is an error. -/
def ofNat? (n : Nat) : Option α := (all : List α).find? (fun u => toNat u == n)

@[simp] theorem ofNat?_toNat (v : α) : ofNat? (toNat v) = some v := find_toNat v

theorem toNat_of_ofNat? {n : Nat} {v : α} (h : ofNat? n = some v) : toNat v = n := by
  simpa using List.find?_some h

end ReprEnum

namespace Container

variable {α : Type} [ReprEnum α]

/-- An enumerated `u16` field. -/
def enum16 (α : Type) [ReprEnum α] (c : Container) (offset : Nat) : Option α :=
  (c.u16 offset).bind ReprEnum.ofNat?

/-- An enumerated `u32` field. -/
def enum32 (α : Type) [ReprEnum α] (c : Container) (offset : Nat) : Option α :=
  (c.u32 offset).bind ReprEnum.ofNat?

/-- The bytes of a structure of this size are all there. -/
def room (c : Container) (size offset : Nat) : Option Unit :=
  if offset + size ≤ c.data.length then some () else none

theorem enum16_of_at {c : Container} {off : Nat} {v : α}
    (h : Bytes.At c.data off (Bytes.encode c.endian 2 (ReprEnum.toNat v)))
    (hv : ReprEnum.toNat v < 2 ^ 16) : c.enum16 α off = some v := by
  rw [enum16, u16_of_at h hv]
  exact ReprEnum.ofNat?_toNat v

theorem enum32_of_at {c : Container} {off : Nat} {v : α}
    (h : Bytes.At c.data off (Bytes.encode c.endian 4 (ReprEnum.toNat v)))
    (hv : ReprEnum.toNat v < 2 ^ 32) : c.enum32 α off = some v := by
  rw [enum32, u32_of_at h hv]
  exact ReprEnum.ofNat?_toNat v

end Container

/-! ## Mach-O headers -/

/-- Mach-O and fat magic numbers. -/
inductive MachMagic where
  | mhMagic
  | mhCigam
  | mhMagic64
  | mhCigam64
  | fatMagic
  | fatCigam
  | fatMagic64
  | fatCigam64
  deriving DecidableEq, Repr

instance : ReprEnum MachMagic where
  toNat
    | .mhMagic => 0xfeedface
    | .mhCigam => 0xcefaedfe
    | .mhMagic64 => 0xfeedfacf
    | .mhCigam64 => 0xcffaedfe
    | .fatMagic => 0xcafebabe
    | .fatCigam => 0xbebafeca
    | .fatMagic64 => 0xcafebabf
    | .fatCigam64 => 0xbfbafeca
  all :=
    [.mhMagic, .mhCigam, .mhMagic64, .mhCigam64, .fatMagic, .fatCigam, .fatMagic64, .fatCigam64]
  find_toNat v := by cases v <;> rfl

/-- The `filetype` field of the Mach header. -/
inductive MachoFiletypeVariants where
  | mhObject
  | mhExecute
  | mhFvmlib
  | mhCore
  | mhPreload
  | mhDylib
  | mhDylinker
  | mhBundle
  | mhDylibStub
  | mhDsym
  | mhKextBundle
  | mhFileset
  | mhGpuExecute
  | mhGpuDylib
  deriving DecidableEq, Repr

instance : ReprEnum MachoFiletypeVariants where
  toNat
    | .mhObject => 0x1
    | .mhExecute => 0x2
    | .mhFvmlib => 0x3
    | .mhCore => 0x4
    | .mhPreload => 0x5
    | .mhDylib => 0x6
    | .mhDylinker => 0x7
    | .mhBundle => 0x8
    | .mhDylibStub => 0x9
    | .mhDsym => 0xa
    | .mhKextBundle => 0xb
    | .mhFileset => 0xc
    | .mhGpuExecute => 0xd
    | .mhGpuDylib => 0xe
  all :=
    [.mhObject, .mhExecute, .mhFvmlib, .mhCore, .mhPreload, .mhDylib, .mhDylinker, .mhBundle,
     .mhDylibStub, .mhDsym, .mhKextBundle, .mhFileset, .mhGpuExecute, .mhGpuDylib]
  find_toNat v := by cases v <;> rfl

/-- The 64-bit Mach header, at the very start of an image. -/
structure MachHeader64 where
  magic : MachMagic
  cputype : Nat
  cpusubtype : Nat
  filetype : MachoFiletypeVariants
  ncmds : Nat
  sizeofcmds : Nat
  flags : Nat
  reserved : Nat
  deriving DecidableEq, Repr

/-- `size_of::<mach_header_64>()`. -/
def MachHeader64.size : Nat := 32

def Container.machHeader64 (c : Container) (offset : Nat) : Option MachHeader64 := do
  let magic ← c.enum32 MachMagic offset
  let cputype ← c.u32 (offset + 4)
  let cpusubtype ← c.u32 (offset + 8)
  let filetype ← c.enum32 MachoFiletypeVariants (offset + 12)
  let ncmds ← c.u32 (offset + 16)
  let sizeofcmds ← c.u32 (offset + 20)
  let flags ← c.u32 (offset + 24)
  let reserved ← c.u32 (offset + 28)
  return { magic, cputype, cpusubtype, filetype, ncmds, sizeofcmds, flags, reserved }

/-! ## Load commands -/

/-- The `cmd` field of a load command. The top bit of the number is `LC_REQ_DYLD`. -/
inductive LoadCommandVariants where
  | lcSegment
  | lcSymtab
  | lcSymseg
  | lcThread
  | lcUnixthread
  | lcLoadfvmlib
  | lcIdfvmlib
  | lcIdent
  | lcFvmfile
  | lcPrepage
  | lcDysymtab
  | lcLoadDylib
  | lcIdDylib
  | lcLoadDylinker
  | lcIdDylinker
  | lcPreboundDylib
  | lcRoutines
  | lcSubFramework
  | lcSubUmbrella
  | lcSubClient
  | lcSubLibrary
  | lcTwolevelHints
  | lcPrebindCksum
  | lcLoadWeakDylib
  | lcSegment64
  | lcRoutines64
  | lcUuid
  | lcRpath
  | lcCodeSignature
  | lcSegmentSplitInfo
  | lcReexportDylib
  | lcLazyLoadDylib
  | lcEncryptionInfo
  | lcDyldInfo
  | lcDyldInfoOnly
  | lcLoadUpwardDylib
  | lcVersionMinMacosx
  | lcVersionMinIphoneos
  | lcFunctionStarts
  | lcDyldEnvironment
  | lcMain
  | lcDataInCode
  | lcSourceVersion
  | lcDylibCodeSignDrs
  | lcEncryptionInfo64
  | lcLinkerOption
  | lcLinkerOptimizationHint
  | lcVersionMinTvos
  | lcVersionMinWatchos
  | lcNote
  | lcBuildVersion
  | lcDyldExportsTrie
  | lcDyldChainedFixups
  | lcFilesetEntry
  | lcAtomInfo
  | lcFunctionVariants
  | lcFunctionVariantFixups
  | lcTargetTriple
  deriving DecidableEq, Repr

instance : ReprEnum LoadCommandVariants where
  toNat
    | .lcSegment => 0x1
    | .lcSymtab => 0x2
    | .lcSymseg => 0x3
    | .lcThread => 0x4
    | .lcUnixthread => 0x5
    | .lcLoadfvmlib => 0x6
    | .lcIdfvmlib => 0x7
    | .lcIdent => 0x8
    | .lcFvmfile => 0x9
    | .lcPrepage => 0xa
    | .lcDysymtab => 0xb
    | .lcLoadDylib => 0xc
    | .lcIdDylib => 0xd
    | .lcLoadDylinker => 0xe
    | .lcIdDylinker => 0xf
    | .lcPreboundDylib => 0x10
    | .lcRoutines => 0x11
    | .lcSubFramework => 0x12
    | .lcSubUmbrella => 0x13
    | .lcSubClient => 0x14
    | .lcSubLibrary => 0x15
    | .lcTwolevelHints => 0x16
    | .lcPrebindCksum => 0x17
    | .lcLoadWeakDylib => 0x80000018
    | .lcSegment64 => 0x19
    | .lcRoutines64 => 0x1a
    | .lcUuid => 0x1b
    | .lcRpath => 0x8000001c
    | .lcCodeSignature => 0x1d
    | .lcSegmentSplitInfo => 0x1e
    | .lcReexportDylib => 0x8000001f
    | .lcLazyLoadDylib => 0x20
    | .lcEncryptionInfo => 0x21
    | .lcDyldInfo => 0x22
    | .lcDyldInfoOnly => 0x80000022
    | .lcLoadUpwardDylib => 0x80000023
    | .lcVersionMinMacosx => 0x24
    | .lcVersionMinIphoneos => 0x25
    | .lcFunctionStarts => 0x26
    | .lcDyldEnvironment => 0x27
    | .lcMain => 0x80000028
    | .lcDataInCode => 0x29
    | .lcSourceVersion => 0x2a
    | .lcDylibCodeSignDrs => 0x2b
    | .lcEncryptionInfo64 => 0x2c
    | .lcLinkerOption => 0x2d
    | .lcLinkerOptimizationHint => 0x2e
    | .lcVersionMinTvos => 0x2f
    | .lcVersionMinWatchos => 0x30
    | .lcNote => 0x31
    | .lcBuildVersion => 0x32
    | .lcDyldExportsTrie => 0x80000033
    | .lcDyldChainedFixups => 0x80000034
    | .lcFilesetEntry => 0x80000035
    | .lcAtomInfo => 0x36
    | .lcFunctionVariants => 0x37
    | .lcFunctionVariantFixups => 0x38
    | .lcTargetTriple => 0x39
  all :=
    [.lcSegment, .lcSymtab, .lcSymseg, .lcThread, .lcUnixthread, .lcLoadfvmlib, .lcIdfvmlib,
     .lcIdent, .lcFvmfile, .lcPrepage, .lcDysymtab, .lcLoadDylib, .lcIdDylib, .lcLoadDylinker,
     .lcIdDylinker, .lcPreboundDylib, .lcRoutines, .lcSubFramework, .lcSubUmbrella, .lcSubClient,
     .lcSubLibrary, .lcTwolevelHints, .lcPrebindCksum, .lcLoadWeakDylib, .lcSegment64,
     .lcRoutines64, .lcUuid, .lcRpath, .lcCodeSignature, .lcSegmentSplitInfo, .lcReexportDylib,
     .lcLazyLoadDylib, .lcEncryptionInfo, .lcDyldInfo, .lcDyldInfoOnly, .lcLoadUpwardDylib,
     .lcVersionMinMacosx, .lcVersionMinIphoneos, .lcFunctionStarts, .lcDyldEnvironment, .lcMain,
     .lcDataInCode, .lcSourceVersion, .lcDylibCodeSignDrs, .lcEncryptionInfo64, .lcLinkerOption,
     .lcLinkerOptimizationHint, .lcVersionMinTvos, .lcVersionMinWatchos, .lcNote, .lcBuildVersion,
     .lcDyldExportsTrie, .lcDyldChainedFixups, .lcFilesetEntry, .lcAtomInfo, .lcFunctionVariants,
     .lcFunctionVariantFixups, .lcTargetTriple]
  find_toNat v := by cases v <;> rfl

/-- What every load command starts with. -/
structure LoadCommand where
  /-- Type of load command. -/
  cmd : LoadCommandVariants
  /-- Total size of command in bytes. -/
  cmdsize : Nat
  deriving DecidableEq, Repr

def Container.loadCommand (c : Container) (offset : Nat) : Option LoadCommand := do
  let cmd ← c.enum32 LoadCommandVariants offset
  let cmdsize ← c.u32 (offset + 4)
  return { cmd, cmdsize }

/-- A command that was read is inside the image, and its size is a `u32`. -/
theorem Container.loadCommand_bound {c : Container} {offset : Nat} {lc : LoadCommand}
    (h : c.loadCommand offset = some lc) :
    offset + 8 ≤ c.data.length ∧ lc.cmdsize < 2 ^ 32 := by
  simp only [Container.loadCommand, Option.bind_eq_bind, Option.bind_eq_some_iff] at h
  obtain ⟨cmd, -, cmdsize, hsize, he⟩ := h
  obtain ⟨hle, hlt⟩ := Bytes.wordAt_bound hsize
  rw [← Option.some.inj he]
  exact ⟨by omega, hlt⟩

/-- A part of the file to be mapped into memory. -/
structure SegmentCommand64 where
  segname : List UInt8
  vmaddr : Nat
  vmsize : Nat
  fileoff : Nat
  /-- Amount to map from the file. -/
  filesize : Nat
  maxprot : Nat
  initprot : Nat
  nsects : Nat
  flags : Nat
  deriving DecidableEq, Repr

/-- `size_of::<segment_command_64>()`. -/
def SegmentCommand64.size : Nat := 72

def Container.segmentCommand64 (c : Container) (offset : Nat) : Option SegmentCommand64 := do
  let _ ← c.loadCommand offset
  let segname ← c.raw 16 (offset + 8)
  let vmaddr ← c.u64 (offset + 24)
  let vmsize ← c.u64 (offset + 32)
  let fileoff ← c.u64 (offset + 40)
  let filesize ← c.u64 (offset + 48)
  let maxprot ← c.u32 (offset + 56)
  let initprot ← c.u32 (offset + 60)
  let nsects ← c.u32 (offset + 64)
  let flags ← c.u32 (offset + 68)
  return { segname, vmaddr, vmsize, fileoff, filesize, maxprot, initprot, nsects, flags }

/-- The fields of a section header that the linker looks at. -/
structure Section64 where
  /-- Size in bytes of this section. -/
  size : Nat
  /-- File offset of this section. -/
  offset : Nat
  /-- Section type and attributes. -/
  flags : Nat
  deriving DecidableEq, Repr

/-- `size_of::<section_64>()`. -/
def Section64.structSize : Nat := 80

def Container.section64 (c : Container) (offset : Nat) : Option Section64 := do
  c.room Section64.structSize offset
  let size ← c.u64 (offset + 40)
  let fileoff ← c.u32 (offset + 48)
  let flags ← c.u32 (offset + 64)
  return { size, offset := fileoff, flags }

/-- `SECTION_TYPE`: the bits of a section's flags that hold its type. -/
def sectionType : Nat := 0x000000ff

/-- `S_THREAD_LOCAL_VARIABLES`: TLV descriptors. -/
def sThreadLocalVariables : Nat := 0x13

/-- `S_INIT_FUNC_OFFSETS`: 32-bit offsets to initializers. -/
def sInitFuncOffsets : Nat := 0x16

/-- `SEG_TEXT`. -/
def segText : List UInt8 := ascii "__TEXT"

/-- `SEG_DATA`. -/
def segData : List UInt8 := ascii "__DATA"

/-- The install name a dylib load command carries: the offset of its string. -/
structure DylibCommand where
  nameOffset : Nat
  deriving DecidableEq, Repr

def Container.dylibCommand (c : Container) (offset : Nat) : Option DylibCommand := do
  c.room 24 offset
  let _ ← c.loadCommand offset
  let nameOffset ← c.u32 (offset + 8)
  return { nameOffset }

/-- `dylib_command` once more, with its `cmd` left unread. -/
structure DylibCommandHeader where
  nameOffset : Nat
  deriving DecidableEq, Repr

def Container.dylibCommandHeader (c : Container) (offset : Nat) : Option DylibCommandHeader := do
  c.room 24 offset
  let nameOffset ← c.u32 (offset + 8)
  return { nameOffset }

/-- Where the symbol table and its strings are. -/
structure SymtabCommand where
  symoff : Nat
  nsyms : Nat
  stroff : Nat
  deriving DecidableEq, Repr

def Container.symtabCommand (c : Container) (offset : Nat) : Option SymtabCommand := do
  c.room 24 offset
  let _ ← c.loadCommand offset
  let symoff ← c.u32 (offset + 8)
  let nsyms ← c.u32 (offset + 12)
  let stroff ← c.u32 (offset + 16)
  return { symoff, nsyms, stroff }

/-- Offset and size of a blob of data in the `__LINKEDIT` segment. -/
structure LinkeditDataCommand where
  /-- File offset of data in `__LINKEDIT` segment. -/
  dataoff : Nat
  /-- File size of data in `__LINKEDIT` segment. -/
  datasize : Nat
  deriving DecidableEq, Repr

def Container.linkeditDataCommand (c : Container) (offset : Nat) : Option LinkeditDataCommand := do
  let _ ← c.loadCommand offset
  let dataoff ← c.u32 (offset + 8)
  let datasize ← c.u32 (offset + 12)
  return { dataoff, datasize }

/-- The exports trie of an image that still uses `LC_DYLD_INFO_ONLY`. -/
structure DyldInfoCommand where
  exportOff : Nat
  exportSize : Nat
  deriving DecidableEq, Repr

def Container.dyldInfoCommand (c : Container) (offset : Nat) : Option DyldInfoCommand := do
  c.room 48 offset
  let exportOff ← c.u32 (offset + 40)
  let exportSize ← c.u32 (offset + 44)
  return { exportOff, exportSize }

/-- The location of `main`. -/
structure EntryPointCommand where
  /-- File offset of `main`. -/
  entryoff : Nat
  deriving DecidableEq, Repr

def Container.entryPointCommand (c : Container) (offset : Nat) : Option EntryPointCommand := do
  c.room 24 offset
  let _ ← c.loadCommand offset
  let entryoff ← c.u64 (offset + 8)
  return { entryoff }

/-- A run path: the offset of its string. -/
structure RpathCommand where
  pathOffset : Nat
  deriving DecidableEq, Repr

def Container.rpathCommand (c : Container) (offset : Nat) : Option RpathCommand := do
  c.room 12 offset
  let pathOffset ← c.u32 (offset + 8)
  return { pathOffset }

/-! ## Symbol tables -/

/-- A symbol table entry. -/
structure Nlist64 where
  /-- Index into the string table. -/
  nStrx : Nat
  nType : Nat
  nSect : Nat
  nDesc : Nat
  nValue : Nat
  deriving DecidableEq, Repr

/-- `size_of::<nlist_64>()`. -/
def Nlist64.size : Nat := 16

def Container.nlist64 (c : Container) (offset : Nat) : Option Nlist64 := do
  let nStrx ← c.u32 offset
  let nType ← c.u8 (offset + 4)
  let nSect ← c.u8 (offset + 5)
  let nDesc ← c.u16 (offset + 6)
  let nValue ← c.u64 (offset + 8)
  return { nStrx, nType, nSect, nDesc, nValue }

/-- `N_STAB`: any of these bits set, a debugging entry. -/
def nStab : Nat := 0xe0

/-- `N_PEXT`: private external symbol bit. -/
def nPext : Nat := 0x10

/-- `N_TYPE`: mask for the type bits. -/
def nType : Nat := 0x0e

/-- `N_EXT`: external symbol bit. -/
def nExt : Nat := 0x01

/-- `N_UNDF`: undefined. -/
def nUndf : Nat := 0x0

/-- `N_SECT`: defined in section number `n_sect`. -/
def nSect : Nat := 0xe

/-- `N_WEAK_REF`. -/
def nWeakRef : Nat := 0x0040

/-- `N_WEAK_DEF`. -/
def nWeakDef : Nat := 0x0080

/-- `N_ARM_THUMB_DEF`. -/
def nArmThumbDef : Nat := 0x0008

/-- `N_SYMBOL_RESOLVER`. -/
def nSymbolResolver : Nat := 0x0100

/-- `N_ALT_ENTRY`. -/
def nAltEntry : Nat := 0x0200

/-- `N_COLD_FUNC`. -/
def nColdFunc : Nat := 0x0400

/-- `SELF_LIBRARY_ORDINAL`. -/
def selfLibraryOrdinal : Nat := 0x00

/-- The library ordinal in the high half of `n_desc`. -/
def getLibraryOrdinal (nDesc : Nat) : Nat := (nDesc >>> 8) &&& 0xff

/-! ## Tables of `LC_DYLD_CHAINED_FIXUPS` -/

/-- `dyld_chained_starts_in_segment.pointer_format`. -/
inductive DyldChainedPtrFormatVariants where
  | dyldChainedPtrArm64e
  | dyldChainedPtr64
  | dyldChainedPtr32
  | dyldChainedPtr32Cache
  | dyldChainedPtr32Firmware
  | dyldChainedPtr64Offset
  | dyldChainedPtrArm64eOffset
  | dyldChainedPtr64KernelCache
  | dyldChainedPtrArm64eUserland
  | dyldChainedPtrArm64eFirmware
  | dyldChainedPtrX8664KernelCache
  | dyldChainedPtrArm64eUserland24
  | dyldChainedPtrArm64eSharedCache
  | dyldChainedPtrArm64eSegmented
  deriving DecidableEq, Repr

instance : ReprEnum DyldChainedPtrFormatVariants where
  toNat
    | .dyldChainedPtrArm64e => 1
    | .dyldChainedPtr64 => 2
    | .dyldChainedPtr32 => 3
    | .dyldChainedPtr32Cache => 4
    | .dyldChainedPtr32Firmware => 5
    | .dyldChainedPtr64Offset => 6
    | .dyldChainedPtrArm64eOffset => 7
    | .dyldChainedPtr64KernelCache => 8
    | .dyldChainedPtrArm64eUserland => 9
    | .dyldChainedPtrArm64eFirmware => 10
    | .dyldChainedPtrX8664KernelCache => 11
    | .dyldChainedPtrArm64eUserland24 => 12
    | .dyldChainedPtrArm64eSharedCache => 13
    | .dyldChainedPtrArm64eSegmented => 14
  all :=
    [.dyldChainedPtrArm64e, .dyldChainedPtr64, .dyldChainedPtr32, .dyldChainedPtr32Cache,
     .dyldChainedPtr32Firmware, .dyldChainedPtr64Offset, .dyldChainedPtrArm64eOffset,
     .dyldChainedPtr64KernelCache, .dyldChainedPtrArm64eUserland, .dyldChainedPtrArm64eFirmware,
     .dyldChainedPtrX8664KernelCache, .dyldChainedPtrArm64eUserland24,
     .dyldChainedPtrArm64eSharedCache, .dyldChainedPtrArm64eSegmented]
  find_toNat v := by cases v <;> rfl

/-- `dyld_chained_fixups_header.imports_format`. -/
inductive DyldChainedImportFormatVariants where
  | dyldChainedImport
  | dyldChainedImportAddend
  | dyldChainedImportAddend64
  deriving DecidableEq, Repr

instance : ReprEnum DyldChainedImportFormatVariants where
  toNat
    | .dyldChainedImport => 1
    | .dyldChainedImportAddend => 2
    | .dyldChainedImportAddend64 => 3
  all :=
    [.dyldChainedImport, .dyldChainedImportAddend, .dyldChainedImportAddend64]
  find_toNat v := by cases v <;> rfl

/-- Header of the `LC_DYLD_CHAINED_FIXUPS` payload. -/
structure DyldChainedFixupsHeader where
  fixupsVersion : Nat
  /-- Offset of `dyld_chained_starts_in_image` in the payload. -/
  startsOffset : Nat
  /-- Offset of imports table in the payload. -/
  importsOffset : Nat
  /-- Offset of symbol strings in the payload. -/
  symbolsOffset : Nat
  importsCount : Nat
  importsFormat : DyldChainedImportFormatVariants
  symbolsFormat : Nat
  deriving DecidableEq, Repr

def Container.dyldChainedFixupsHeader (c : Container) (offset : Nat) :
    Option DyldChainedFixupsHeader := do
  let fixupsVersion ← c.u32 offset
  let startsOffset ← c.u32 (offset + 4)
  let importsOffset ← c.u32 (offset + 8)
  let symbolsOffset ← c.u32 (offset + 12)
  let importsCount ← c.u32 (offset + 16)
  let importsFormat ← c.enum32 DyldChainedImportFormatVariants (offset + 20)
  let symbolsFormat ← c.u32 (offset + 24)
  return { fixupsVersion, startsOffset, importsOffset, symbolsOffset, importsCount,
           importsFormat, symbolsFormat }

/-- `size_of::<dyld_chained_starts_in_image>()`: the structure is its `seg_count`. -/
def dyldChainedStartsInImageSize : Nat := 4

/-- The chain starts of one segment, without its `page_start` array. -/
structure DyldChainedStartsInSegment where
  size : Nat
  pageSize : Nat
  pointerFormat : DyldChainedPtrFormatVariants
  /-- Offset in memory to start of segment. -/
  segmentOffset : Nat
  maxValidPointer : Nat
  /-- How many pages are in array. -/
  pageCount : Nat
  deriving DecidableEq, Repr

/-- The declared structure holds one entry of `page_start`, which is read with it. -/
def Container.dyldChainedStartsInSegment (c : Container) (offset : Nat) :
    Option DyldChainedStartsInSegment := do
  let size ← c.u32 offset
  let pageSize ← c.u16 (offset + 4)
  let pointerFormat ← c.enum16 DyldChainedPtrFormatVariants (offset + 6)
  let segmentOffset ← c.u64 (offset + 8)
  let maxValidPointer ← c.u32 (offset + 16)
  let pageCount ← c.u16 (offset + 20)
  let _ ← c.u16 (offset + 22)
  return { size, pageSize, pointerFormat, segmentOffset, maxValidPointer, pageCount }

/-- `DYLD_CHAINED_PTR_START_NONE`: used in `page_start` to denote a page with no fixups. -/
def dyldChainedPtrStartNone : Nat := 0xFFFF

/-- `BIND_SPECIAL_DYLIB_SELF`. -/
def bindSpecialDylibSelf : Nat := 0

/-- `BIND_SPECIAL_DYLIB_MAIN_EXECUTABLE`. -/
def bindSpecialDylibMainExecutable : Nat := 255

/-- `BIND_SPECIAL_DYLIB_FLAT_LOOKUP`. -/
def bindSpecialDylibFlatLookup : Nat := 254

/-- `BIND_SPECIAL_DYLIB_WEAK_LOOKUP`. -/
def bindSpecialDylibWeakLookup : Nat := 253

/-! ### Pointer formats

One namespace for each layout of a chain word, with an accessor for each field. -/

namespace DyldChainedPtrArm64eRebase

def target (word : Nat) : Nat := word &&& 0x000007FFFFFFFFFF

def high8 (word : Nat) : Nat := (word >>> 43) &&& 0xFF

def next (word : Nat) : Nat := (word >>> 51) &&& 0x7FF

theorem fields (word : Nat) :
    target word = word % 2 ^ 43 ∧ high8 word = word / 2 ^ 43 % 2 ^ 8 ∧
      next word = word / 2 ^ 51 % 2 ^ 11 :=
  ⟨Bits.and_low word 43, Bits.shiftRight_and word 43 8, Bits.shiftRight_and word 51 11⟩

end DyldChainedPtrArm64eRebase

namespace DyldChainedPtrArm64eBind

def ordinal (word : Nat) : Nat := word &&& 0xFFFF

/-- Nineteen bits, taken as they are. -/
def addend (word : Nat) : Nat := (word >>> 32) &&& 0x7FFFF

def next (word : Nat) : Nat := (word >>> 51) &&& 0x7FF

theorem fields (word : Nat) :
    ordinal word = word % 2 ^ 16 ∧ addend word = word / 2 ^ 32 % 2 ^ 19 ∧
      next word = word / 2 ^ 51 % 2 ^ 11 :=
  ⟨Bits.and_low word 16, Bits.shiftRight_and word 32 19, Bits.shiftRight_and word 51 11⟩

end DyldChainedPtrArm64eBind

namespace DyldChainedPtrArm64eAuthRebase

def target (word : Nat) : Nat := word &&& 0xFFFFFFFF

def next (word : Nat) : Nat := (word >>> 51) &&& 0x7FF

theorem fields (word : Nat) :
    target word = word % 2 ^ 32 ∧ next word = word / 2 ^ 51 % 2 ^ 11 :=
  ⟨Bits.and_low word 32, Bits.shiftRight_and word 51 11⟩

end DyldChainedPtrArm64eAuthRebase

namespace DyldChainedPtrArm64eAuthBind

def ordinal (word : Nat) : Nat := word &&& 0xFFFF

def next (word : Nat) : Nat := (word >>> 51) &&& 0x7FF

theorem fields (word : Nat) :
    ordinal word = word % 2 ^ 16 ∧ next word = word / 2 ^ 51 % 2 ^ 11 :=
  ⟨Bits.and_low word 16, Bits.shiftRight_and word 51 11⟩

end DyldChainedPtrArm64eAuthBind

namespace DyldChainedPtr64Rebase

def target (word : Nat) : Nat := word &&& 0x0000000FFFFFFFFF

def high8 (word : Nat) : Nat := (word >>> 36) &&& 0xFF

def next (word : Nat) : Nat := (word >>> 51) &&& 0xFFF

theorem fields (word : Nat) :
    target word = word % 2 ^ 36 ∧ high8 word = word / 2 ^ 36 % 2 ^ 8 ∧
      next word = word / 2 ^ 51 % 2 ^ 12 :=
  ⟨Bits.and_low word 36, Bits.shiftRight_and word 36 8, Bits.shiftRight_and word 51 12⟩

end DyldChainedPtr64Rebase

namespace DyldChainedPtr64Bind

def ordinal (word : Nat) : Nat := word &&& 0x00FFFFFF

def addend (word : Nat) : Nat := (word >>> 24) &&& 0xFF

def next (word : Nat) : Nat := (word >>> 51) &&& 0xFFF

theorem fields (word : Nat) :
    ordinal word = word % 2 ^ 24 ∧ addend word = word / 2 ^ 24 % 2 ^ 8 ∧
      next word = word / 2 ^ 51 % 2 ^ 12 :=
  ⟨Bits.and_low word 24, Bits.shiftRight_and word 24 8, Bits.shiftRight_and word 51 12⟩

end DyldChainedPtr64Bind

namespace DyldChainedPtrArm64eBind24

def ordinal (word : Nat) : Nat := word &&& 0x00FFFFFF

/-- Nineteen bits, taken as they are. -/
def addend (word : Nat) : Nat := (word >>> 32) &&& 0x7FFFF

def next (word : Nat) : Nat := (word >>> 51) &&& 0x7FF

theorem fields (word : Nat) :
    ordinal word = word % 2 ^ 24 ∧ addend word = word / 2 ^ 32 % 2 ^ 19 ∧
      next word = word / 2 ^ 51 % 2 ^ 11 :=
  ⟨Bits.and_low word 24, Bits.shiftRight_and word 32 19, Bits.shiftRight_and word 51 11⟩

end DyldChainedPtrArm64eBind24

namespace DyldChainedPtrArm64eAuthBind24

def ordinal (word : Nat) : Nat := word &&& 0x00FFFFFF

def next (word : Nat) : Nat := (word >>> 51) &&& 0x7FF

theorem fields (word : Nat) :
    ordinal word = word % 2 ^ 24 ∧ next word = word / 2 ^ 51 % 2 ^ 11 :=
  ⟨Bits.and_low word 24, Bits.shiftRight_and word 51 11⟩

end DyldChainedPtrArm64eAuthBind24

/-! ### Imports -/

namespace DyldChainedImport

def libOrdinal (word : Nat) : Nat := word &&& 0x000000FF

def weakImport (word : Nat) : Bool := word &&& 0x00000100 != 0

def nameOffset (word : Nat) : Nat := (word &&& 0xFFFFFE00) >>> 9

theorem fields {word : Nat} (h : word < 2 ^ 32) :
    libOrdinal word = word % 2 ^ 8 ∧ nameOffset word = word / 2 ^ 9 := by
  have hmask : 0xFFFFFE00 = 2 ^ 32 - 1 - (2 ^ 9 - 1) := by decide
  refine ⟨Bits.and_low word 8, ?_⟩
  rw [nameOffset, hmask, Bits.and_not_low h (by decide), Nat.shiftRight_eq_div_pow, Nat.mul_div_cancel _ (by decide)]

end DyldChainedImport

/-- An import followed by an addend: an `i32` here, a `u64` in the wide table. -/
structure DyldChainedImportAddend where
  header : Nat
  addend : Nat
  deriving DecidableEq, Repr

/-- The `i32` addend is kept as the `u32` of the same bits. -/
def Container.dyldChainedImportAddend (c : Container) (offset : Nat) :
    Option DyldChainedImportAddend := do
  let header ← c.u32 offset
  let addend ← c.u32 (offset + 4)
  return { header, addend }

def Container.dyldChainedImportAddend64 (c : Container) (offset : Nat) :
    Option DyldChainedImportAddend := do
  let header ← c.u32 offset
  let addend ← c.u64 (offset + 4)
  return { header, addend }

/-! ## Shared cache -/

/-- One entry in the mapping table of a cache. -/
structure DyldCacheMappingInfo where
  /-- Unslid VM address where this region is mapped. -/
  address : Nat
  /-- Byte size of the region. -/
  size : Nat
  /-- Offset of the region within the cache file. -/
  fileOffset : Nat
  deriving DecidableEq, Repr

/-- `size_of::<dyld_cache_mapping_info>()`. -/
def DyldCacheMappingInfo.structSize : Nat := 32

def Container.dyldCacheMappingInfo (c : Container) (offset : Nat) :
    Option DyldCacheMappingInfo := do
  c.room DyldCacheMappingInfo.structSize offset
  let address ← c.u64 offset
  let size ← c.u64 (offset + 8)
  let fileOffset ← c.u64 (offset + 16)
  return { address, size, fileOffset }

/-- `EXPORT_SYMBOL_FLAGS_REEXPORT`: a flag bit in an exports-trie terminal node. -/
def exportSymbolFlagsReexport : Nat := 0x08

end Dynld
