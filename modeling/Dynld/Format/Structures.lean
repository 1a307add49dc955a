import Dynld.Bindings

/-!
# The structures as bytes

Each structure that a serialised image holds is listed here as its fields, a width
and a value each, in the order they are written. A structure whose values fit
their widths is read back from where its fields sit.
-/

namespace Dynld

open Bytes

namespace MachHeader64

def fields (h : MachHeader64) : List (Nat × Nat) :=
  [(4, ReprEnum.toNat h.magic), (4, h.cputype), (4, h.cpusubtype), (4, ReprEnum.toNat h.filetype),
   (4, h.ncmds), (4, h.sizeofcmds), (4, h.flags), (4, h.reserved)]

end MachHeader64

namespace LoadCommand

def fields (lc : LoadCommand) : List (Nat × Nat) :=
  [(4, ReprEnum.toNat lc.cmd), (4, lc.cmdsize)]

end LoadCommand

namespace LinkeditDataCommand

/-- The command, of this size, with its payload's offset and size. -/
def fields (cmd : LinkeditDataCommand) (lc : LoadCommand) : List (Nat × Nat) :=
  [(4, ReprEnum.toNat lc.cmd), (4, lc.cmdsize), (4, cmd.dataoff), (4, cmd.datasize)]

end LinkeditDataCommand

namespace DyldChainedFixupsHeader

def fields (h : DyldChainedFixupsHeader) : List (Nat × Nat) :=
  [(4, h.fixupsVersion), (4, h.startsOffset), (4, h.importsOffset), (4, h.symbolsOffset),
   (4, h.importsCount), (4, ReprEnum.toNat h.importsFormat), (4, h.symbolsFormat)]

end DyldChainedFixupsHeader

namespace DyldChainedStartsInSegment

/-- Up to the `page_start` array. -/
def fields (s : DyldChainedStartsInSegment) : List (Nat × Nat) :=
  [(4, s.size), (2, s.pageSize), (2, ReprEnum.toNat s.pointerFormat), (8, s.segmentOffset),
   (4, s.maxValidPointer), (2, s.pageCount)]

end DyldChainedStartsInSegment

/-! ## Reading them back -/

namespace Container

variable {c : Container} {off : Nat}

theorem machHeader64_of_at {h : MachHeader64} (hfit : FieldsFit h.fields)
    (hat : At c.data off (encodeFields c.endian h.fields)) : c.machHeader64 off = some h := by
  simp only [MachHeader64.fields, at_encodeFields_cons, Nat.add_assoc, Nat.reduceAdd] at hat
  obtain ⟨h0, h4, h8, h12, h16, h20, h24, h28, -⟩ := hat
  obtain ⟨f0, f4, f8, f12, f16, f20, f24, f28, -⟩ := hfit
  simp only [machHeader64, enum32_of_at h0 f0, u32_of_at h4 f4, u32_of_at h8 f8,
    enum32_of_at h12 f12, u32_of_at h16 f16, u32_of_at h20 f20, u32_of_at h24 f24,
    u32_of_at h28 f28, Option.bind_eq_bind, Option.bind_some, Option.pure_def]

theorem loadCommand_of_at {lc : LoadCommand} (hfit : FieldsFit lc.fields)
    (hat : At c.data off (encodeFields c.endian lc.fields)) : c.loadCommand off = some lc := by
  simp only [LoadCommand.fields, at_encodeFields_cons] at hat
  obtain ⟨h0, h4, -⟩ := hat
  obtain ⟨f0, f4, -⟩ := hfit
  simp only [loadCommand, enum32_of_at h0 f0, u32_of_at h4 f4, Option.bind_eq_bind,
    Option.bind_some, Option.pure_def]

theorem linkeditDataCommand_of_at {cmd : LinkeditDataCommand} {lc : LoadCommand}
    (hfit : FieldsFit (cmd.fields lc))
    (hat : At c.data off (encodeFields c.endian (cmd.fields lc))) :
    c.loadCommand off = some lc ∧ c.linkeditDataCommand off = some cmd := by
  simp only [LinkeditDataCommand.fields, at_encodeFields_cons, Nat.add_assoc, Nat.reduceAdd] at hat
  obtain ⟨h0, h4, h8, h12, -⟩ := hat
  obtain ⟨f0, f4, f8, f12, -⟩ := hfit
  have hlc : c.loadCommand off = some lc := by
    simp only [loadCommand, enum32_of_at h0 f0, u32_of_at h4 f4, Option.bind_eq_bind,
      Option.bind_some, Option.pure_def]
  refine ⟨hlc, ?_⟩
  simp only [linkeditDataCommand, hlc, u32_of_at h8 f8, u32_of_at h12 f12, Option.bind_eq_bind,
    Option.bind_some, Option.pure_def]

theorem dyldChainedFixupsHeader_of_at {h : DyldChainedFixupsHeader} (hfit : FieldsFit h.fields)
    (hat : At c.data off (encodeFields c.endian h.fields)) :
    c.dyldChainedFixupsHeader off = some h := by
  simp only [DyldChainedFixupsHeader.fields, at_encodeFields_cons, Nat.add_assoc,
    Nat.reduceAdd] at hat
  obtain ⟨h0, h4, h8, h12, h16, h20, h24, -⟩ := hat
  obtain ⟨f0, f4, f8, f12, f16, f20, f24, -⟩ := hfit
  simp only [dyldChainedFixupsHeader, u32_of_at h0 f0, u32_of_at h4 f4, u32_of_at h8 f8,
    u32_of_at h12 f12, u32_of_at h16 f16, enum32_of_at h20 f20, u32_of_at h24 f24,
    Option.bind_eq_bind, Option.bind_some, Option.pure_def]

/-- The declared structure ends with one entry of `page_start`, whatever it holds. -/
theorem dyldChainedStartsInSegment_of_at {s : DyldChainedStartsInSegment}
    (hfit : FieldsFit s.fields) (hat : At c.data off (encodeFields c.endian s.fields))
    (hroom : off + 24 ≤ c.data.length) : c.dyldChainedStartsInSegment off = some s := by
  simp only [DyldChainedStartsInSegment.fields, at_encodeFields_cons, Nat.add_assoc,
    Nat.reduceAdd] at hat
  obtain ⟨h0, h4, h6, h8, h16, h20, -⟩ := hat
  obtain ⟨f0, f4, f6, f8, f16, f20, -⟩ := hfit
  have h22 : ∃ v, c.u16 (off + 22) = some v := wordAt_isSome (by omega)
  obtain ⟨pageStart, h22⟩ := h22
  simp only [dyldChainedStartsInSegment, u32_of_at h0 f0, u16_of_at h4 f4, enum16_of_at h6 f6,
    u64_of_at h8 f8, u32_of_at h16 f16, u16_of_at h20 f20, h22, Option.bind_eq_bind,
    Option.bind_some, Option.pure_def]

end Container

end Dynld
