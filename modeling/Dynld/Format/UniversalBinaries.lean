import Dynld.Entrypoint
import Dynld.Format.Structures

/-!
# Universal binaries as bytes

A universal binary starts with a header and a table of architectures, both big-endian.
Each entry of the table has the place of an image in the file, and each image has a byte
order and a word size of its own.
-/

namespace Dynld

open Bytes

def FatHeader.fields (h : FatHeader) : List (Nat × Nat) :=
  [(4, ReprEnum.toNat h.magic), (4, h.nfatArch)]

def FatArch.fields (arch : FatArch) : List (Nat × Nat) :=
  [(4, arch.cputype), (4, arch.cpusubtype), (4, arch.offset), (4, arch.size), (4, arch.align)]

/-- The header of a Mach-O file. That of a 32-bit file ends before `reserved`. -/
structure MachOFileHeader where
  endian : Endian
  is64 : Bool
  cputype : Nat
  cpusubtype : Nat
  filetype : MachoFiletypeVariants
  ncmds : Nat
  sizeofcmds : Nat
  flags : Nat
  reserved : Nat
  deriving DecidableEq, Repr

namespace MachOFileHeader

/-- The magic number, in the byte order of the file. -/
def magic (h : MachOFileHeader) : MachMagic := if h.is64 then .mhMagic64 else .mhMagic

/-- The header as the 64-bit structure. -/
def wide (h : MachOFileHeader) : MachHeader64 where
  magic := h.magic
  cputype := h.cputype
  cpusubtype := h.cpusubtype
  filetype := h.filetype
  ncmds := h.ncmds
  sizeofcmds := h.sizeofcmds
  flags := h.flags
  reserved := h.reserved

def fields (h : MachOFileHeader) : List (Nat × Nat) :=
  if h.is64 then h.wide.fields else h.wide.fields.take 7

/-- These bytes are a Mach-O file with this header. -/
structure Heads (h : MachOFileHeader) (bytes : List UInt8) : Prop where
  fits : FieldsFit h.fields
  at_start : At bytes 0 (encodeFields h.endian h.fields)

/-- A 64-bit file for arm64. -/
def IsArm64 (h : MachOFileHeader) : Prop := h.is64 = true ∧ h.cputype = cpuTypeArm64

end MachOFileHeader

/-- An entry of the table, and the header of the image it leads to. -/
structure FatSlice where
  arch : FatArch
  header : MachOFileHeader
  deriving DecidableEq, Repr

/-- The slice of the file that the entry leads to is a Mach-O file with this header. -/
def FatSlice.In (slice : FatSlice) (c : Container) : Prop :=
  ∃ bytes, c.slice slice.arch.offset slice.arch.size = some bytes ∧ slice.header.Heads bytes

/-- A well-formed universal binary of these slices, in a container of the byte order that its magic
number gives. -/
structure UniversalBinary (c : Container) (slices : List FatSlice) : Prop where
  big : c.endian = .big
  header : At c.data 0 (encodeFields .big (FatHeader.fields ⟨.fatMagic, slices.length⟩))
  count_lt : slices.length < 2 ^ 32
  table : ∀ k slice, slices[k]? = some slice → FieldsFit slice.arch.fields ∧
    At c.data (FatHeader.size + k * FatArch.structSize) (encodeFields .big slice.arch.fields)
  slices_in : ∀ slice ∈ slices, slice.In c

end Dynld
