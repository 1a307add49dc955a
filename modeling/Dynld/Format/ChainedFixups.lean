import Mathlib.Data.List.Chain
import Dynld.Format.Structures
import Dynld.Fixups

/-!
# What chained fixups are

The static linker has, for each segment, a list of pages, and for each page a list
of records: a location, and what has to be stored there. This file says what such
a list of segments is, which fixups it stands for, and when an image holds it.

* a **chain word** packs one record and the distance to the next one, in strides;
  the layout of its bits depends on the segment's pointer format;
* a **page** is the offset of its first record, and its chain;
* a **segment** is its format, the file offset of its data, and its pages;
* an **import** is a library ordinal and the offset of a name.

`ChainedFixupsAt` holds of every image with the records in place, wherever the
linker put the tables and whichever load commands come first.
-/

namespace Dynld

open Bytes

/-! ## Records -/

/-- The pointer formats the linker reads. -/
inductive ChainFormat where
  | ptr64
  | ptr64Offset
  | arm64e
  | arm64eUserland
  | arm64eUserland24
  deriving DecidableEq, Repr

/-- One location, with the import named by its index. -/
inductive FixupRecord (imports : Nat) where
  /-- A pointer into this image. -/
  | rebase (target high8 : Nat)
  /-- The same, signed. -/
  | authRebase (target diversity : Nat) (addrDiv : Bool) (key : Nat)
  /-- A pointer to a symbol. -/
  | bind (index : Fin imports) (addend : Nat)
  /-- The same, signed. -/
  | authBind (index : Fin imports) (diversity : Nat) (addrDiv : Bool) (key : Nat)
  deriving DecidableEq, Repr

namespace ChainFormat

def variant : ChainFormat → DyldChainedPtrFormatVariants
  | ptr64 => .dyldChainedPtr64
  | ptr64Offset => .dyldChainedPtr64Offset
  | arm64e => .dyldChainedPtrArm64e
  | arm64eUserland => .dyldChainedPtrArm64eUserland
  | arm64eUserland24 => .dyldChainedPtrArm64eUserland24

/-- The unit of the distance to the next word. -/
def stride : ChainFormat → Nat
  | ptr64 | ptr64Offset => 4
  | _ => 8

/-- The width of the distance. -/
def nextBits : ChainFormat → Nat
  | ptr64 | ptr64Offset => 12
  | _ => 11

/-- The width of an import's index. -/
def ordinalBits : ChainFormat → Nat
  | arm64e | arm64eUserland => 16
  | _ => 24

end ChainFormat

namespace FixupRecord

variable {n : Nat}

/-- Every field of the record is within its width, and the format has such records. -/
def Fits : ChainFormat → FixupRecord n → Prop
  | .ptr64, rebase target high8 | .ptr64Offset, rebase target high8 =>
      target < 2 ^ 36 ∧ high8 < 2 ^ 8
  | .ptr64, bind index addend | .ptr64Offset, bind index addend =>
      index.val < 2 ^ 24 ∧ addend < 2 ^ 8
  | .ptr64, _ | .ptr64Offset, _ => False
  | _, rebase target high8 => target < 2 ^ 43 ∧ high8 < 2 ^ 8
  | _, authRebase target diversity _ key => target < 2 ^ 32 ∧ diversity < 2 ^ 16 ∧ key < 2 ^ 2
  | format, bind index addend => index.val < 2 ^ format.ordinalBits ∧ addend < 2 ^ 19
  | format, authBind index diversity _ key =>
      index.val < 2 ^ format.ordinalBits ∧ diversity < 2 ^ 16 ∧ key < 2 ^ 2

/-- How a pointer is to be signed, from bit 32 on. -/
def signing (diversity : Nat) (addrDiv : Bool) (key : Nat) : Nat :=
  diversity + addrDiv.toNat * 2 ^ 16 + key * 2 ^ 17

/-- The chain word of a record with the next one `next` strides away. -/
def word : ChainFormat → FixupRecord n → Nat → Nat
  | .ptr64, rebase target high8, next | .ptr64Offset, rebase target high8, next =>
      target + high8 * 2 ^ 36 + next * 2 ^ 51
  | .ptr64, bind index addend, next | .ptr64Offset, bind index addend, next =>
      index.val + addend * 2 ^ 24 + next * 2 ^ 51 + 2 ^ 63
  | _, rebase target high8, next => target + high8 * 2 ^ 43 + next * 2 ^ 51
  | _, authRebase target diversity addrDiv key, next =>
      target + signing diversity addrDiv key * 2 ^ 32 + next * 2 ^ 51 + 2 ^ 63
  | _, bind index addend, next => index.val + addend * 2 ^ 32 + next * 2 ^ 51 + 2 ^ 62
  | _, authBind index diversity addrDiv key, next =>
      index.val + signing diversity addrDiv key * 2 ^ 32 + next * 2 ^ 51 + 2 ^ 62 + 2 ^ 63

end FixupRecord

/-! ## Tables -/

/-- A symbol of another image. -/
structure FixupImport where
  name : ArrayString symbolNameLen
  libOrdinal : Nat
  weakImport : Bool
  deriving DecidableEq, Repr

/-- The records of one segment, page by page, each with its offset in the page. -/
structure SegmentFixups (imports : Nat) where
  format : ChainFormat
  pageSize : Nat
  /-- Where the data of the segment is. -/
  segmentOffset : Nat
  pages : List (List (Nat × FixupRecord imports))
  deriving Repr

/-- Every record of a segment, with where its word is. -/
def SegmentFixups.records {n : Nat} (s : SegmentFixups n) : List (Nat × FixupRecord n) :=
  s.pages.zipIdx.flatMap fun (page, i) =>
    page.map fun (off, r) => (s.segmentOffset + i * s.pageSize + off, r)

/-- Every record, in segment, page and chain order. -/
def recordsOf {n : Nat} (segments : List (Option (SegmentFixups n))) :
    List (Nat × FixupRecord n) :=
  segments.flatMap fun segment => (segment.map SegmentFixups.records).getD []

structure ChainedFixups where
  imports : List FixupImport
  /-- A segment without fixups has no entry. -/
  segments : List (Option (SegmentFixups imports.length))

namespace ChainedFixups

variable (imports : List FixupImport)

/-- What the record asks for. -/
def recordKind : FixupRecord imports.length → FixupKind
  | .rebase target high8 => .rebase (target ||| high8 <<< 56)
  | .authRebase target _ _ _ => .rebase target
  | .bind index addend =>
      .bind (imports.get index).name (imports.get index).libOrdinal false addend
  | .authBind index _ _ _ => .bind (imports.get index).name (imports.get index).libOrdinal true 0

/-- The fixups of a page whose data starts at `base`. -/
def pageFixups (base : Nat) (page : List (Nat × FixupRecord imports.length)) : List Fixup :=
  page.map fun record => { offset := base + record.1, kind := recordKind imports record.2 }

def segmentFixups (s : SegmentFixups imports.length) : List Fixup :=
  s.pages.zipIdx.flatMap fun (page, i) =>
    pageFixups imports (s.segmentOffset + i * s.pageSize) page

def entryFixups : Option (SegmentFixups imports.length) → List Fixup
  | none => []
  | some s => segmentFixups imports s

/-- Every fixup, in segment, page and chain order. -/
def fixups (fx : ChainedFixups) : List Fixup := fx.segments.flatMap (entryFixups fx.imports)

end ChainedFixups

/-! ## Well-formedness -/

/-- The next record of a chain: past this one, and a number of strides that fits. -/
def ChainFormat.Follows {n : Nat} (format : ChainFormat) (a b : Nat × FixupRecord n) : Prop :=
  a.1 + 8 ≤ b.1 ∧ format.stride ∣ b.1 - a.1 ∧ (b.1 - a.1) / format.stride < 2 ^ format.nextBits

structure PageWellFormed {n : Nat} (format : ChainFormat) (pageSize : Nat)
    (page : List (Nat × FixupRecord n)) : Prop where
  nonempty : page ≠ []
  in_page : ∀ record ∈ page, record.1 < pageSize
  fits : ∀ record ∈ page, record.2.Fits format
  chain : page.IsChain format.Follows

structure FixupImport.WellFormed (i : FixupImport) : Prop where
  /-- A name ends at its NUL. -/
  name_nul : 0 ∉ i.name.asBytes
  libOrdinal_lt : i.libOrdinal < 2 ^ 8

structure ChainedFixups.WellFormed (fx : ChainedFixups) : Prop where
  imports : ∀ i ∈ fx.imports, i.WellFormed
  pages : ∀ s, some s ∈ fx.segments → ∀ page ∈ s.pages, PageWellFormed s.format s.pageSize page

/-! ## The bytes -/

section Layout

variable {n : Nat} (c : Container)

/-- The words of a chain whose page starts at `base`. -/
def ChainAt (format : ChainFormat) (base : Nat) : List (Nat × FixupRecord n) → Prop
  | [] => True
  | [(off, r)] => At c.data (base + off) (encode c.endian 8 (r.word format 0))
  | (off, r) :: (off', r') :: rest =>
      At c.data (base + off) (encode c.endian 8 (r.word format ((off' - off) / format.stride))) ∧
        ChainAt format base ((off', r') :: rest)

/-- The `page_start` of a page. -/
def pageStart (page : List (Nat × FixupRecord n)) : Nat := (page.head?.map Prod.fst).getD 0

/-- The pages of a segment from number `i` on, with its `page_start` array at `starts`. -/
def PagesAt (s : SegmentFixups n) (starts : Nat) : List (List (Nat × FixupRecord n)) → Nat → Prop
  | [], _ => True
  | page :: pages, i =>
      At c.data (starts + i * 2) (encode c.endian 2 (pageStart page)) ∧
        ChainAt c s.format (s.segmentOffset + i * s.pageSize) page ∧ PagesAt s starts pages (i + 1)

/-- The `dyld_chained_starts_in_segment` at `off`, and all it leads to. -/
structure SegmentAt (s : SegmentFixups n) (off : Nat) (head : DyldChainedStartsInSegment) :
    Prop where
  pageSize_eq : head.pageSize = s.pageSize
  format_eq : head.pointerFormat = s.format.variant
  segmentOffset_eq : head.segmentOffset = s.segmentOffset
  pageCount_eq : head.pageCount = s.pages.length
  fits : FieldsFit head.fields
  at_ : At c.data off (encodeFields c.endian head.fields)
  /-- The declared structure is inside the image, also when there are no pages. -/
  room : off + 24 ≤ c.data.length
  pages : PagesAt c s (off + pageStartsOffset) s.pages 0

/-- The segments from number `i` on, for the `dyld_chained_starts_in_image` at `starts`. -/
def SegmentsAt (starts : Nat) : List (Option (SegmentFixups n)) → Nat → Prop
  | [], _ => True
  | segment :: segments, i =>
      (∃ segInfoOffset < 2 ^ 32,
        At c.data (starts + dyldChainedStartsInImageSize + i * 4)
          (encode c.endian 4 segInfoOffset) ∧
        match segment with
        | none => segInfoOffset = 0
        | some s => segInfoOffset ≠ 0 ∧ ∃ head, SegmentAt c s (starts + segInfoOffset) head) ∧
      SegmentsAt starts segments (i + 1)

/-- Import number `i`, its word in the table at `imports` and its name among `symbols`. -/
def ImportAt (imports symbols i : Nat) (entry : FixupImport) : Prop :=
  ∃ nameOffset < 2 ^ 23,
    At c.data (imports + i * 4)
      (encode c.endian 4 (entry.libOrdinal + entry.weakImport.toNat * 2 ^ 8 + nameOffset * 2 ^ 9)) ∧
    At c.data (symbols + nameOffset) (entry.name.asBytes ++ [0])

/-- `LeadsTo off k target`: the `k` load commands from `off` on are no
`LC_DYLD_CHAINED_FIXUPS`, and the one after them is at `target`. -/
inductive LeadsTo : Nat → Nat → Nat → Prop where
  | here {off : Nat} : LeadsTo off 0 off
  | skip {off k target : Nat} {lc : LoadCommand} :
      At c.data off (encodeFields c.endian lc.fields) → FieldsFit lc.fields →
      lc.cmd ≠ .lcDyldChainedFixups → LeadsTo (off + lc.cmdsize) k target →
      LeadsTo off (k + 1) target

end Layout

/-- What the linker is free to choose, apart from the fixups themselves. -/
structure FixupsLayout where
  header : MachHeader64
  /-- The number of load commands before `LC_DYLD_CHAINED_FIXUPS`. -/
  before : Nat
  /-- Where `LC_DYLD_CHAINED_FIXUPS` is, and its size. -/
  commandOffset : Nat
  cmdsize : Nat
  /-- Where its payload is. -/
  command : LinkeditDataCommand
  payload : DyldChainedFixupsHeader
  deriving DecidableEq, Repr

/-- The image `c` holds the fixups `fx`, laid out like `l`. -/
structure ChainedFixupsAt (c : Container) (l : FixupsLayout) (fx : ChainedFixups) : Prop where
  /-- The image is below 4 GiB. -/
  image_lt : c.data.length < 2 ^ 32
  header_at : At c.data 0 (encodeFields c.endian l.header.fields)
  header_fits : FieldsFit l.header.fields
  before_lt : l.before < l.header.ncmds
  leads_to : LeadsTo c MachHeader64.size l.before l.commandOffset
  command_at : At c.data l.commandOffset
    (encodeFields c.endian (l.command.fields ⟨.lcDyldChainedFixups, l.cmdsize⟩))
  command_fits : FieldsFit (l.command.fields ⟨.lcDyldChainedFixups, l.cmdsize⟩)
  payload_at : At c.data l.command.dataoff (encodeFields c.endian l.payload.fields)
  payload_fits : FieldsFit l.payload.fields
  /-- Every import is an ordinal and a name offset in one word. -/
  importsFormat_eq : l.payload.importsFormat = .dyldChainedImport
  segCount_at : At c.data (l.command.dataoff + l.payload.startsOffset)
    (encode c.endian 4 fx.segments.length)
  segCount_lt : fx.segments.length < 2 ^ 32
  /-- The tables of imports and names start inside the image, also when they are empty. -/
  imports_le : l.command.dataoff + l.payload.importsOffset ≤ c.data.length
  symbols_le : l.command.dataoff + l.payload.symbolsOffset ≤ c.data.length
  imports_at : ∀ i : Fin fx.imports.length,
    ImportAt c (l.command.dataoff + l.payload.importsOffset)
      (l.command.dataoff + l.payload.symbolsOffset) i (fx.imports.get i)
  segments_at : SegmentsAt c (l.command.dataoff + l.payload.startsOffset) fx.segments 0

/-- The same without the imports: everything up to the records. -/
structure PayloadAt (c : Container) (l : FixupsLayout) {n : Nat}
    (segments : List (Option (SegmentFixups n))) : Prop where
  /-- The image is below 4 GiB. -/
  image_lt : c.data.length < 2 ^ 32
  header_at : At c.data 0 (encodeFields c.endian l.header.fields)
  header_fits : FieldsFit l.header.fields
  before_lt : l.before < l.header.ncmds
  leads_to : LeadsTo c MachHeader64.size l.before l.commandOffset
  command_at : At c.data l.commandOffset
    (encodeFields c.endian (l.command.fields ⟨.lcDyldChainedFixups, l.cmdsize⟩))
  command_fits : FieldsFit (l.command.fields ⟨.lcDyldChainedFixups, l.cmdsize⟩)
  payload_at : At c.data l.command.dataoff (encodeFields c.endian l.payload.fields)
  payload_fits : FieldsFit l.payload.fields
  segCount_at : At c.data (l.command.dataoff + l.payload.startsOffset)
    (encode c.endian 4 segments.length)
  segCount_lt : segments.length < 2 ^ 32
  imports_le : l.command.dataoff + l.payload.importsOffset ≤ c.data.length
  symbols_le : l.command.dataoff + l.payload.symbolsOffset ≤ c.data.length
  segments_at : SegmentsAt c (l.command.dataoff + l.payload.startsOffset) segments 0

theorem ChainedFixupsAt.payload {c : Container} {l : FixupsLayout} {fx : ChainedFixups}
    (h : ChainedFixupsAt c l fx) : PayloadAt c l fx.segments where
  image_lt := h.image_lt
  header_at := h.header_at
  header_fits := h.header_fits
  before_lt := h.before_lt
  leads_to := h.leads_to
  command_at := h.command_at
  command_fits := h.command_fits
  payload_at := h.payload_at
  payload_fits := h.payload_fits
  segCount_at := h.segCount_at
  segCount_lt := h.segCount_lt
  imports_le := h.imports_le
  symbols_le := h.symbols_le
  segments_at := h.segments_at

/-- The fixups of an image are its records, each with what it asks for. -/
theorem ChainedFixups.fixups_eq (fx : ChainedFixups) :
    fx.fixups = (recordsOf fx.segments).map fun (off, r) =>
      { offset := off, kind := recordKind fx.imports r } := by
  unfold fixups recordsOf
  rw [List.map_flatMap]
  refine congrArg (List.flatMap · fx.segments) (funext fun segment => ?_)
  cases segment with
  | none => rfl
  | some s =>
      rw [Option.map_some, Option.getD_some, SegmentFixups.records, List.map_flatMap]
      refine congrArg (List.flatMap · s.pages.zipIdx) (funext fun (page, i) => ?_)
      rw [List.map_map]
      rfl

end Dynld
