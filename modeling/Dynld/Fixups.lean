import Dynld.Image

/-!
# Parsing chained fixups

The words that need fixing up are themselves the nodes of linked lists: each holds
the distance to the next one. `LC_DYLD_CHAINED_FIXUPS` leads to a table of
segments, a segment to a table of pages, and a page to the first word of its
chain.

Of the load commands only the first `LC_DYLD_CHAINED_FIXUPS` counts. The parser
pushes every fixup on one vector; here each chain, page and segment returns its
own list, and the lists are appended in the order of the pushes. A chain also
returns the offsets it read a word from, which the code has no trace of.
-/

namespace Dynld

/-- The possible kinds for a Chained Fixup. -/
inductive FixupKind where
  /-- An offset that must be turned into a pointer. -/
  | rebase (target : Nat)
  /-- The address of a symbol of another image. -/
  | bind (symbolName : ArrayString symbolNameLen) (ordinal : Nat) (isAuth : Bool) (addend : Int)
  deriving DecidableEq, Repr

/-- A Mach-O Chained Fixup. -/
structure Fixup where
  /-- The offset of the fixup (within the image). -/
  offset : Nat
  kind : FixupKind
  deriving DecidableEq, Repr

/-- `PAGE_STARTS_OFFSET`. -/
def pageStartsOffset : Nat := 22

namespace Container

/-! ## Imports -/

/-- Ordinals come from chain words and have at most 24 bits, so no product here overflows. -/
def importSymbolParse (c : Container) (ordinal : Nat)
    (importsFormat : DyldChainedImportFormatVariants) (importsOffset symbolsOffset : Nat) :
    Outcome (Nat × ArrayString symbolNameLen) := do
  let (libOrdinal, nameOffset) ← match importsFormat with
    | .dyldChainedImport => do
        let import_ ← Outcome.okOr (c.u32 (importsOffset + ordinal * 4))
          "error: could parse a dyld_chained_import_format_variants::DYLD_CHAINED_IMPORT from imports_offset"
        Outcome.ok (DyldChainedImport.libOrdinal import_, DyldChainedImport.nameOffset import_)
    | .dyldChainedImportAddend => do
        let import_ ← Outcome.okOr (c.dyldChainedImportAddend (importsOffset + ordinal * 8))
          "error: could parse a dyld_chained_import_format_variants::DYLD_CHAINED_IMPORT_ADDEND from imports_offset"
        -- the addend stands where the name offset should
        Outcome.ok (DyldChainedImport.libOrdinal import_.header, import_.addend)
    | .dyldChainedImportAddend64 => do
        let import_ ← Outcome.okOr (c.dyldChainedImportAddend64 (importsOffset + ordinal * 16))
          "error: could parse a dyld_chained_import_format_variants::DYLD_CHAINED_IMPORT_ADDEND64 from imports_offset"
        Outcome.ok (DyldChainedImport.libOrdinal import_.header, import_.addend % 2 ^ 32)
  let name ← c.deserializeStringAtOffset (symbolsOffset + nameOffset)
  let symbolName ← Outcome.orPanic (ArrayString.tryFromStr symbolNameLen name)
    "called `Option::unwrap()` on a `None` value"
  .ok (libOrdinal, symbolName)

/-! ## One word -/

section ParseOne

variable (c : Container) (value offset : Nat) (importsFormat : DyldChainedImportFormatVariants)
  (importsOffset symbolsOffset : Nat)

/-- A bind in any format: its import, and the distance to the next word. -/
def bindParse (ordinal next addend : Nat) (isAuth : Bool) : Outcome (Nat × Fixup) := do
  let (libOrdinal, symbolName) ← c.importSymbolParse ordinal importsFormat importsOffset symbolsOffset
  .ok (next, { offset, kind := .bind symbolName libOrdinal isAuth addend })

def fixup64ParseOne : Outcome (Nat × Fixup) :=
  let bind := (value >>> 63) &&& 1
  if bind = 1 then
    c.bindParse offset importsFormat importsOffset symbolsOffset
      (DyldChainedPtr64Bind.ordinal value) (DyldChainedPtr64Bind.next value * 4)
      (DyldChainedPtr64Bind.addend value) false
  else
    let target := DyldChainedPtr64Rebase.target value
    let high8 := DyldChainedPtr64Rebase.high8 value <<< 56
    let next := DyldChainedPtr64Rebase.next value * 4
    .ok (next, { offset, kind := .rebase (target ||| high8) })

def fixupArm64eParseOne : Outcome (Nat × Fixup) :=
  let bind := (value >>> 62) &&& 1
  let auth := (value >>> 63) &&& 1
  if bind = 1 then
    if auth = 1 then
      c.bindParse offset importsFormat importsOffset symbolsOffset
        (DyldChainedPtrArm64eAuthBind.ordinal value) (DyldChainedPtrArm64eAuthBind.next value * 8)
        0 true
    else
      c.bindParse offset importsFormat importsOffset symbolsOffset
        (DyldChainedPtrArm64eBind.ordinal value) (DyldChainedPtrArm64eBind.next value * 8)
        (DyldChainedPtrArm64eBind.addend value) false
  else if auth = 1 then
    .ok (DyldChainedPtrArm64eAuthRebase.next value * 8,
      { offset, kind := .rebase (DyldChainedPtrArm64eAuthRebase.target value) })
  else
    let high8 := DyldChainedPtrArm64eRebase.high8 value <<< 56
    .ok (DyldChainedPtrArm64eRebase.next value * 8,
      { offset, kind := .rebase (DyldChainedPtrArm64eRebase.target value ||| high8) })

def fixupArm64eUserland24ParseOne : Outcome (Nat × Fixup) :=
  let bind := (value >>> 62) &&& 1
  let auth := (value >>> 63) &&& 1
  if bind = 1 then
    if auth = 1 then
      c.bindParse offset importsFormat importsOffset symbolsOffset
        (DyldChainedPtrArm64eAuthBind24.ordinal value)
        (DyldChainedPtrArm64eAuthBind24.next value * 8) 0 true
    else
      c.bindParse offset importsFormat importsOffset symbolsOffset
        (DyldChainedPtrArm64eBind24.ordinal value) (DyldChainedPtrArm64eBind24.next value * 8)
        (DyldChainedPtrArm64eBind24.addend value) false
  else c.fixupArm64eParseOne value offset importsFormat importsOffset symbolsOffset

/-- The `match pointer_format` of the chain loop. -/
def fixupParseOne (pointerFormat : DyldChainedPtrFormatVariants) : Outcome (Nat × Fixup) :=
  match pointerFormat with
  | .dyldChainedPtr64 | .dyldChainedPtr64Offset =>
      c.fixup64ParseOne value offset importsFormat importsOffset symbolsOffset
  | .dyldChainedPtrArm64e | .dyldChainedPtrArm64eUserland =>
      c.fixupArm64eParseOne value offset importsFormat importsOffset symbolsOffset
  | .dyldChainedPtrArm64eUserland24 =>
      c.fixupArm64eUserland24ParseOne value offset importsFormat importsOffset symbolsOffset
  | _ => .panic "not implemented: pointer format"

end ParseOne

/-! ## Chains, pages and segments -/

section Tables

variable (c : Container) (importsFormat : DyldChainedImportFormatVariants)
  (importsOffset symbolsOffset : Nat)

/-- The word at `chainOffset`. -/
def chainStep (pointerFormat : DyldChainedPtrFormatVariants) (chainOffset : Nat) :
    Outcome (Nat × Fixup) := do
  let fixupValue ← Outcome.okOr (c.u64 chainOffset)
    "error: could read the fixup value from a chain_offset"
  c.fixupParseOne fixupValue chainOffset importsFormat importsOffset symbolsOffset pointerFormat

/-- The chain from `chainOffset` on: the offsets it reads, and the fixups.

A word that was read lies inside the container, so the sum with its distance does not
overflow. -/
def chainLoop (pointerFormat : DyldChainedPtrFormatVariants) :
    Nat → Nat → List Nat × Outcome (List Fixup)
  | 0, _ => ([], .outOfFuel)
  | fuel + 1, chainOffset =>
      match c.chainStep importsFormat importsOffset symbolsOffset pointerFormat chainOffset with
      | .ok (nextOffset, fixup) =>
          if nextOffset = 0 then ([chainOffset], .ok [fixup])
          else
            let (reads, rest) := chainLoop pointerFormat fuel (chainOffset + nextOffset)
            (chainOffset :: reads, do
              let fixups ← rest
              .ok (fixup :: fixups))
      | .err msg => ([chainOffset], .err msg)
      | .panic msg => ([chainOffset], .panic msg)
      | .outOfFuel => ([chainOffset], .outOfFuel)

/-- One turn of the page loop. The chain moves forward by at least a byte with each word, so it
has left the container before this much fuel is used up. -/
def pageParse (starts : DyldChainedStartsInSegment) (segStartsOffset pageIndex : Nat) :
    List Nat × Outcome (List Fixup) :=
  let first : Outcome Nat := do
    let pageStarts ← Outcome.add 32 segStartsOffset pageStartsOffset
    let pageStart ← Outcome.okOr (c.u16 (pageStarts + pageIndex * 2))
      "error: could not read the page starts array"
    let page ← Outcome.add 64 starts.segmentOffset (pageIndex * starts.pageSize)
    Outcome.add 64 page pageStart
  match first with
  | .ok chainOffset =>
      c.chainLoop importsFormat importsOffset symbolsOffset starts.pointerFormat
        (c.data.length + 1) chainOffset
  | .err msg => ([], .err msg)
  | .panic msg => ([], .panic msg)
  | .outOfFuel => ([], .outOfFuel)

/-- The page loop, from `pageIndex` on with this many pages to go. -/
def pagesParse (starts : DyldChainedStartsInSegment) (segStartsOffset : Nat) :
    Nat → Nat → Outcome (List Fixup)
  | 0, _ => .ok []
  | n + 1, pageIndex => do
      let fixups ←
        (c.pageParse importsFormat importsOffset symbolsOffset starts segStartsOffset pageIndex).2
      let rest ← pagesParse starts segStartsOffset n (pageIndex + 1)
      .ok (fixups ++ rest)

/-- The segment loop, from `segOffsetIndex` on with this many segments to go. -/
def segmentsParse (startsOffset : Nat) : Nat → Nat → Outcome (List Fixup)
  | 0, _ => .ok []
  | n + 1, segOffsetIndex => do
      let segOffsetAddress := startsOffset + dyldChainedStartsInImageSize + segOffsetIndex * 4
      let segOffset ← Outcome.okOr (c.u32 segOffsetAddress)
        "error: could not find `dyld_chained_starts_in_image`"
      -- dyld ignores segments with offset 0, and so does this
      if segOffset = 0 then segmentsParse startsOffset n (segOffsetIndex + 1)
      else do
        let segStartsOffset ← Outcome.add 32 startsOffset segOffset
        let starts ← Outcome.okOr (c.dyldChainedStartsInSegment segStartsOffset)
          "error: could not read `dyld_chained_starts_in_segment` from a segment offset"
        let fixups ← c.pagesParse importsFormat importsOffset symbolsOffset starts segStartsOffset
          starts.pageCount 0
        let rest ← segmentsParse startsOffset n (segOffsetIndex + 1)
        .ok (fixups ++ rest)

end Tables

/-! ## The whole payload -/

/-- Stop at the first `LC_DYLD_CHAINED_FIXUPS`, and keep its offset. -/
def chainedFixupsFindBody (found : Option Nat) (lc : LoadCommand) (offset : Nat) :
    Outcome (Option Nat × Bool) :=
  if lc.cmd = .lcDyldChainedFixups then .ok (some offset, false) else .ok (found, true)

/-- `(linkedit_data_offset, dyld_chained_fixups_header)` if there is one. -/
def chainedFixupsHeaderAndOffsetFind (c : Container) :
    Outcome (Option (Nat × DyldChainedFixupsHeader)) := do
  let found ← lcForEach c chainedFixupsFindBody none
  match found with
  | none => .ok none
  | some loadCommandOffset => do
      let cmd ← Outcome.okOr (c.linkeditDataCommand loadCommandOffset)
        "error: could not find `linkedit_data_command`"
      let header ← Outcome.okOr (c.dyldChainedFixupsHeader cmd.dataoff)
        "error: could not find `dyld_chained_fixups_header`"
      .ok (some (cmd.dataoff, header))

/-- The `while let` loop that looks for the command, on `next_load_command_offset`. It also says
whether `contains_fixups_header` was set. -/
def chainedFixupsCommandFindLoop :
    Nat → LCIterator → Nat → Outcome (Nat × Bool)
  | 0, _, _ => .outOfFuel
  | fuel + 1, iterator, nextLoadCommandOffset => do
      match ← iterator.tryNext with
      | (none, _) => .ok (nextLoadCommandOffset, false)
      | (some lc, iterator) =>
          if lc.cmd = .lcDyldChainedFixups then .ok (nextLoadCommandOffset, true)
          else do
            let nextLoadCommandOffset ← Outcome.add 64 nextLoadCommandOffset lc.cmdsize
            chainedFixupsCommandFindLoop fuel iterator nextLoadCommandOffset

/-- Each turn takes a command off the iterator, so the fuel is enough. -/
def chainedFixupsCommandFind (c : Container) : Outcome (Nat × Bool) := do
  let iterator ← LCIterator.tryWithContainer c
  chainedFixupsCommandFindLoop (iterator.remaining + 1) iterator MachHeader64.size

/-- What follows the loop. -/
def chainedFixupsHeaderRead (c : Container) :
    Nat × Bool → Outcome (Option (Nat × DyldChainedFixupsHeader))
  | (nextLoadCommandOffset, containsFixupsHeader) =>
      if containsFixupsHeader then do
        let cmd ← Outcome.okOr (c.linkeditDataCommand nextLoadCommandOffset)
          "error: could not find `linkedit_data_command`"
        let header ← Outcome.okOr (c.dyldChainedFixupsHeader cmd.dataoff)
          "error: could not find `dyld_chained_fixups_header`"
        .ok (some (cmd.dataoff, header))
      else .ok none

/-- Where the tables of a payload are, as offsets in the container. -/
structure FixupTables where
  startsOffset : Nat
  segCount : Nat
  importsFormat : DyldChainedImportFormatVariants
  importsOffset : Nat
  symbolsOffset : Nat
  deriving DecidableEq, Repr

/-- What `chained_fixups_parse_all` does before its loops. -/
def fixupTablesFind (c : Container) : Outcome (Option FixupTables) := do
  match ← c.chainedFixupsHeaderAndOffsetFind with
  | none => .ok none
  | some (fixupDataOffset, header) => do
      let startsOffset ← Outcome.add 32 fixupDataOffset header.startsOffset
      let segCount ← Outcome.okOr (c.u32 startsOffset)
        "error: could not find `dyld_chained_starts_in_image`"
      let importsOffset ← Outcome.add 32 fixupDataOffset header.importsOffset
      let symbolsOffset ← Outcome.add 32 fixupDataOffset header.symbolsOffset
      .ok (some { startsOffset, segCount, importsFormat := header.importsFormat, importsOffset,
                  symbolsOffset })

/-- Every fixup of the image. An image without chained fixups has none. -/
def chainedFixupsParseAll (c : Container) : Outcome (List Fixup) := do
  match ← c.fixupTablesFind with
  | none => .ok []
  | some t =>
      c.segmentsParse t.importsFormat t.importsOffset t.symbolsOffset t.startsOffset t.segCount 0

end Container

end Dynld
