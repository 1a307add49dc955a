import Dynld.Fixups

/-!
# Parsing an image

`macho_parser` walks the load commands once and gathers everything that is needed to
map and link the image. Each command is read by a function of its own, which here
takes the fields of `ParsedImage` it may change and returns them.

A cursor that has just been read at is inside the image, so of the sums below only
those of two fields of the image can overflow.
-/

namespace Dynld

/-- A placeholder at the root of a path that tells how to look for the rest of it. -/
inductive Rpath where
  /-- The directory containing the binary that has this load command. -/
  | loaderPath
  /-- The directory containing the main executable. -/
  | executablePath
  /-- To be resolved against the list of run-path search paths. -/
  | rPath
  deriving DecidableEq, Repr

/-- Parsed contents of a Mach-O image, ready to be mapped and linked. -/
structure ParsedImage where
  segments : ArrayVec Segment 64
  fixups : List Fixup
  symbols : List Symbol
  initFunctions : List Nat
  /-- Install names, each with the offset it was at. -/
  libraries : ArrayVec (Str × Nat) 64
  entryPoint : Nat
  hasThreadLocals : Bool
  isDylib : Bool
  rpath : Option Rpath
  deriving DecidableEq, Repr

namespace Container

/-! ## Dylibs, entry points and run paths -/

def parseDylibCommand (image : Container) (offset : Nat) (libraries : ArrayVec (Str × Nat) 64) :
    Outcome (ArrayVec (Str × Nat) 64) := do
  let dylib ← Outcome.okOr (image.dylibCommand offset)
    "could not parse a dylib_command in the inner arm64 image"
  let nameOffset ← Outcome.add 64 offset dylib.nameOffset
  let name ← image.deserializeStringAtOffset nameOffset
  libraries.push (name, dylib.nameOffset)

def parseMainCommand (image : Container) (offset : Nat) (isDylib : Bool) : Outcome Nat :=
  if isDylib then .err "a dynamic library should not contain a `LC_MAIN` load command"
  else do
    let entryPoint ← Outcome.okOr (image.entryPointCommand offset)
      "could not parse `entry_point_command` in the inner arm64 image"
    .ok entryPoint.entryoff

def parseRpath (image : Container) (offset : Nat) : Outcome Rpath := do
  let rpath ← Outcome.okOr (image.rpathCommand offset)
    "could not parse `rpath_command` in the inner arm64 image"
  let pathOffset ← Outcome.add 64 offset rpath.pathOffset
  let path ← image.deserializeStringAtOffset pathOffset
  if path.bytes = ascii "@rpath" then .ok .rPath
  else if path.bytes = ascii "@loader_path" then .ok .loaderPath
  else if path.bytes = ascii "@executable_path" then .ok .executablePath
  else .err "coulnt not parse rpath: unknown placeholder"

/-! ## The symbol table -/

/-- `none` if the name is longer than a symbol name can be. -/
def readSymbolName (image : Container) (stroff nStrx : Nat) :
    Outcome (Option (ArrayString symbolNameLen)) := do
  let nameOffset ← Outcome.add 32 stroff nStrx
  let name ← image.deserializeStringAtOffset nameOffset
  .ok (ArrayString.tryFromStr symbolNameLen name)

/-- The symbol that an `N_SECT` entry of this name stands for. -/
def definedSymbol (entry : Nlist64) (name : ArrayString symbolNameLen) : Outcome Symbol :=
  let value := entry.nValue
  let sect := entry.nSect
  let cold := entry.nDesc &&& nColdFunc != 0
  let thumb := entry.nDesc &&& nArmThumbDef != 0
  let isExternal := entry.nType &&& nExt != 0
  let isPrivateExtern := entry.nType &&& nPext != 0
  let isWeakDef := entry.nDesc &&& nWeakDef != 0
  let isAltEntry := entry.nDesc &&& nAltEntry != 0
  let isResolver := entry.nDesc &&& nSymbolResolver != 0
  match isExternal, isPrivateExtern, isWeakDef, isAltEntry, isResolver with
  -- translation unit local
  | false, false, false, false, _ => .ok (Symbol.makeRegularLocal name value sect cold thumb)
  -- private extern: linkage unit scoped export
  | false, true, false, false, _ => .ok (Symbol.makeRegularExport name value sect cold thumb)
  -- global weak def
  | true, false, true, false, _ =>
      if entry.nDesc &&& nWeakRef = 0 then
        .ok (Symbol.makeWeakDefExport name value sect cold thumb)
      else .err "makeWeakDefAutoHide"
  -- global regular export
  | true, false, false, false, false => .ok (Symbol.makeRegularExport name value sect cold thumb)
  | false, false, _, true, _ => .err "makeAltEntry with Scope::translationUnit"
  | false, true, true, _, _ => .err "makeWeakDefWasPrivateExtern"
  | false, true, false, true, _ => .err "unsupported makeAltEntry with Scope::wasLinkageUnit"
  | true, true, _, true, _ => .err "makeAltEntry with Scope::linkageUnit"
  | true, true, true, _, _ => .err "makeWeakDefHidden"
  | true, true, _, _, true => .err "makeDynamicResolver with Scope::linkageUnit"
  | true, true, _, _, _ => .err "makeRegularHidden"
  | true, false, _, true, _ => .err "makeAltEntry with Scope::global"
  | true, false, _, _, true => .err "makeDynamicResolver"
  | _, _, _, _, _ => .err "unknown symbol kind"

/-- Decode an `N_SECT` entry. A name that does not fit is left out. -/
def classifyDefinedSymbol (image : Container) (stroff : Nat) (entry : Nlist64)
    (symbols : List Symbol) : Outcome (List Symbol) := do
  match ← image.readSymbolName stroff entry.nStrx with
  | none => .ok symbols
  | some name => do
      let symbol ← definedSymbol entry name
      .ok (symbols ++ [symbol])

def classifyUndefinedSymbol (image : Container) (stroff : Nat) (entry : Nlist64)
    (symbols : List Symbol) : Outcome (List Symbol) :=
  if entry.nValue ≠ 0 then
    if entry.nType &&& nPext ≠ 0 then .panic "not implemented: N_PEXT"
    else .panic "not implemented: n_type"
  else do
    match ← image.readSymbolName stroff entry.nStrx with
    | none => .ok symbols
    | some name =>
        let isWeak := entry.nDesc &&& nWeakRef != 0
        .ok (symbols ++ [Symbol.makeUndefined name (getLibraryOrdinal entry.nDesc) isWeak])

def classifySymbol (image : Container) (stroff : Nat) (entry : Nlist64) (symbols : List Symbol) :
    Outcome (List Symbol) :=
  -- debug symbols carry no linkage information
  if entry.nType &&& nStab ≠ 0 then .ok symbols
  else if entry.nType &&& nType = nSect then image.classifyDefinedSymbol stroff entry symbols
  else if entry.nType &&& nType = nUndf then image.classifyUndefinedSymbol stroff entry symbols
  else .ok symbols

/-- The entries from `nlistOffset` on, with this many to go. -/
def symtabLoop (image : Container) (stroff : Nat) :
    Nat → Nat → List Symbol → Outcome (List Symbol)
  | 0, _, symbols => .ok symbols
  | n + 1, nlistOffset, symbols => do
      let entry ← Outcome.okOr (image.nlist64 nlistOffset)
        "could not parse `nlist_64` in the inner arm64 image"
      let symbols ← image.classifySymbol stroff entry symbols
      symtabLoop image stroff n (nlistOffset + Nlist64.size) symbols

/-- Parse the symbol table, classifying each entry or rejecting those not supported. -/
def parseSymtab (image : Container) (offset : Nat) (symbols : List Symbol) :
    Outcome (List Symbol) := do
  let symtab ← Outcome.okOr (image.symtabCommand offset)
    "could not parse `symtab_command` in the inner arm64 image"
  image.symtabLoop symtab.stroff symtab.nsyms symtab.symoff symbols

/-! ## Segments -/

/-- `while cursor < end`, with this many words to go. -/
def initFuncOffsetsLoop (image : Container) : Nat → Nat → List Nat → Outcome (List Nat)
  | 0, _, initFunctions => .ok initFunctions
  | n + 1, cursor, initFunctions => do
      let func ← Outcome.okOr (image.u32 cursor) "could not parse S_INIT_FUNC_OFFSETS"
      let cursor ← Outcome.add 32 cursor 4
      initFuncOffsetsLoop image n cursor (initFunctions ++ [func])

/-- The cursor goes up in fours until it is not below the end. -/
def readInitFuncOffsets (image : Container) (cursor size : Nat) (initFunctions : List Nat) :
    Outcome (List Nat) := do
  let _ ← Outcome.add 32 cursor size
  image.initFuncOffsetsLoop ((size + 3) / 4) cursor initFunctions

/-- Read one section header and pick out the bits the linker cares about. -/
def scanSection (image : Container) (sectionOff : Nat) (found : List Nat × Bool) :
    Outcome (List Nat × Bool) := do
  let (initFunctions, hasThreadLocals) := found
  let sect ← Outcome.okOr (image.section64 sectionOff)
    "could not parse `section_64` in the inner arm64 image"
  if sect.flags &&& sectionType = sInitFuncOffsets then do
    -- `size as u32`
    let initFunctions ←
      image.readInitFuncOffsets sect.offset (sect.size % 2 ^ 32) initFunctions
    .ok (initFunctions, hasThreadLocals)
  else if sect.flags &&& sectionType = sThreadLocalVariables then .ok (initFunctions, true)
  else .ok (initFunctions, hasThreadLocals)

/-- The sections from `sectionOff` on, with this many to go. -/
def sectionsLoop (image : Container) : Nat → Nat → List Nat × Bool → Outcome (List Nat × Bool)
  | 0, _, found => .ok found
  | n + 1, sectionOff, found => do
      let found ← image.scanSection sectionOff found
      sectionsLoop image n (sectionOff + Section64.structSize) found

/-- Only the sections of text and data segments are scanned. -/
def segmentScan (image : Container) (offset : Nat) (seg : SegmentCommand64)
    (found : List Nat × Bool) : Outcome (List Nat × Bool) :=
  if segText <+: seg.segname ∨ segData <+: seg.segname then
    image.sectionsLoop seg.nsects (offset + SegmentCommand64.size) found
  else .ok found

/-- Parse one `LC_SEGMENT_64`. -/
def parseSegment (image : Container) (offset : Nat) (parsed : ParsedImage) :
    Outcome ParsedImage := do
  let seg ← Outcome.okOr (image.segmentCommand64 offset)
    "could not parse `segment_command_64` in the inner arm64 image"
  let (initFunctions, hasThreadLocals) ←
    image.segmentScan offset seg (parsed.initFunctions, parsed.hasThreadLocals)
  let segments ← parsed.segments.push
    { fileOffset := seg.fileoff, vmAddr := seg.vmaddr, vmSize := seg.vmsize, prot := seg.initprot }
  .ok { parsed with segments, initFunctions, hasThreadLocals }

/-! ## The whole image -/

/-- The dylib commands the parser collects. -/
def isCollectedDylibCommand : LoadCommandVariants → Bool
  | .lcLoadDylib => true
  | .lcLoadWeakDylib => true
  | .lcLazyLoadDylib => true
  | _ => false

/-- The body of the loop over load commands. -/
def parseCommand (image : Container) (cmd : LoadCommandVariants) (offset : Nat)
    (parsed : ParsedImage) : Outcome ParsedImage :=
  if isCollectedDylibCommand cmd then do
    let libraries ← image.parseDylibCommand offset parsed.libraries
    .ok { parsed with libraries }
  else
    match cmd with
    | .lcMain => do
        let entryPoint ← image.parseMainCommand offset parsed.isDylib
        .ok { parsed with entryPoint }
    | .lcSymtab => do
        let symbols ← image.parseSymtab offset parsed.symbols
        .ok { parsed with symbols }
    | .lcSegment64 => image.parseSegment offset parsed
    | .lcDyldChainedFixups => do
        let fixups ← image.chainedFixupsParseAll
        .ok { parsed with fixups }
    | .lcRpath => do
        let rpath ← image.parseRpath offset
        .ok { parsed with rpath := some rpath }
    | _ => .ok parsed

/-- The load commands from `offset` on, with this many to go. -/
def parseCommands (image : Container) : Nat → Nat → ParsedImage → Outcome ParsedImage
  | 0, _, parsed => .ok parsed
  | n + 1, offset, parsed => do
      let lc ← Outcome.okOr (image.loadCommand offset)
        "could not parse a load command in the inner arm64 image"
      let parsed ← image.parseCommand lc.cmd offset parsed
      let offset ← Outcome.add 64 offset lc.cmdsize
      parseCommands image n offset parsed

/-- What the parser sets out with. -/
def parsedImageNew (isDylib : Bool) : ParsedImage where
  segments := ArrayVec.newArray
  fixups := []
  symbols := []
  initFunctions := []
  libraries := ArrayVec.newArray
  entryPoint := 0
  hasThreadLocals := false
  isDylib
  rpath := none

def filetypeIsDylib : MachoFiletypeVariants → Outcome Bool
  | .mhExecute => .ok false
  | .mhDylib => .ok true
  | _ => .err "the arm64 image filetype must be MH_EXECUTE"

/-- Walk every load command once and gather everything we need to link. -/
def machoParser (image : Container) : Outcome ParsedImage := do
  let header ← Outcome.okOr (image.machHeader64 0)
    "could not read `mach_header_64` from arm64 image"
  let isDylib ← filetypeIsDylib header.filetype
  image.parseCommands header.ncmds MachHeader64.size (parsedImageNew isDylib)

end Container

end Dynld
