import Dynld.Bindings

/-!
# Generic Mach-O image parsing

Load commands, dylib install names and the exports trie of one image inside a
container. Nothing here knows about the shared cache or ASLR slides.

A closure that the source passes to `load_commands_find` may write to variables
around it. Here the visitor takes those variables as a state and returns them.
-/

namespace Dynld

/-- `MAX_REEXPORT_RESOLUTION_DEPTH`. -/
def maxReexportResolutionDepth : Nat := 16

structure LinkeditSegment where
  vmaddr : Nat
  fileoff : Nat
  deriving DecidableEq, Repr

structure ExportsTrieSpan where
  fileOffset : Nat
  sizeInBytes : Nat
  deriving DecidableEq, Repr

/-- One Mach-O image inside a `Container`. -/
structure MachOImage where
  container : Container
  machHeaderOffset : Nat
  deriving DecidableEq, Repr

/-! ## Load commands -/

/-- The `for` loop of `load_commands_find`, with this many commands to go. -/
def loadCommandsFindLoop {σ T : Type} (c : Container)
    (visit : σ → LoadCommandVariants → Nat → Outcome (Option T × σ)) :
    Nat → Nat → σ → Outcome (Option T × σ)
  | 0, _, s => .ok (none, s)
  | n + 1, commandOffset, s => do
      let lc ← Outcome.okOr (c.loadCommand commandOffset) "could not read load_command header"
      let (found, s) ← visit s lc.cmd commandOffset
      match found with
      | some t => .ok (some t, s)
      | none => do
          let commandOffset ← Outcome.add 64 commandOffset lc.cmdsize
          loadCommandsFindLoop c visit n commandOffset s

/-- The dependencies that re-export ordinals count. -/
def isDylibDependencyCommand : LoadCommandVariants → Bool
  | .lcLoadDylib => true
  | .lcReexportDylib => true
  | _ => false

namespace MachOImage

def machHeaderRead (image : MachOImage) : Outcome MachHeader64 :=
  Outcome.okOr (image.container.machHeader64 image.machHeaderOffset) "could not read mach_header_64"

/-- Visit the load commands in order, up to the first one `visit` finds something at. -/
def loadCommandsFind {σ T : Type} (image : MachOImage)
    (visit : σ → LoadCommandVariants → Nat → Outcome (Option T × σ)) (s : σ) :
    Outcome (Option T × σ) := do
  let header ← image.machHeaderRead
  let commandOffset ← Outcome.add 64 image.machHeaderOffset MachHeader64.size
  loadCommandsFindLoop image.container visit header.ncmds commandOffset s

/-- Reads the install-name string out of a dylib-shaped load command. -/
def dylibInstallNameRead (image : MachOImage) (commandOffset : Nat) : Outcome (List UInt8) := do
  let header ← Outcome.okOr (image.container.dylibCommandHeader commandOffset)
    "could not read dylib_command_header"
  let nameOffset ← Outcome.add 64 commandOffset header.nameOffset
  image.container.deserializeCstrAtOffset nameOffset

/-- File offset and size of this image's exports trie, as the load command has them. -/
def exportsTrieSpanFind (image : MachOImage) : Outcome (Option ExportsTrieSpan) := do
  let visit := fun (_ : Unit) (cmd : LoadCommandVariants) (commandOffset : Nat) =>
    match cmd with
    | .lcDyldExportsTrie => do
        let cmd ← Outcome.okOr (image.container.linkeditDataCommand commandOffset)
          "could not read linkedit_data_command"
        .ok (some { fileOffset := cmd.dataoff, sizeInBytes := cmd.datasize }, ())
    | .lcDyldInfoOnly => do
        let cmd ← Outcome.okOr (image.container.dyldInfoCommand commandOffset)
          "could not read dyld_info_command"
        .ok (some { fileOffset := cmd.exportOff, sizeInBytes := cmd.exportSize }, ())
    | _ => .ok (none, ())
  let (found, _) ← image.loadCommandsFind visit ()
  .ok found

/-- The install name of the dependency with this ordinal, counting from one. -/
def dylibInstallPathForOrdinal (image : MachOImage) (targetOrdinal : Nat) :
    Outcome (Option (List UInt8)) := do
  let visit := fun (seen : Nat) (cmd : LoadCommandVariants) (commandOffset : Nat) =>
    if isDylibDependencyCommand cmd then do
      let seen := seen + 1
      if seen = targetOrdinal then do
        let path ← image.dylibInstallNameRead commandOffset
        .ok (some path, seen)
      else .ok (none, seen)
    else .ok (none, seen)
  let (found, _) ← image.loadCommandsFind visit 0
  .ok found

/-- Install paths of every `LC_REEXPORT_DYLIB` in declaration order. -/
def reexportedDylibPathsCollect (image : MachOImage) : Outcome (List (List UInt8)) := do
  let visit := fun (paths : List (List UInt8)) (cmd : LoadCommandVariants) (commandOffset : Nat) =>
    if cmd = .lcReexportDylib then
      -- a name whose command cannot be read is left out
      match image.dylibInstallNameRead commandOffset with
      | .ok path => .ok ((none : Option Unit), paths ++ [path])
      | .err _ => .ok (none, paths)
      | .panic msg => .panic msg
      | .outOfFuel => .outOfFuel
    else .ok (none, paths)
  let (_, paths) ← image.loadCommandsFind visit []
  .ok paths

def linkeditSegmentFind (image : MachOImage) : Outcome (Option LinkeditSegment) := do
  let visit := fun (_ : Unit) (cmd : LoadCommandVariants) (commandOffset : Nat) =>
    match cmd with
    | .lcSegment64 => do
        let seg ← Outcome.okOr (image.container.segmentCommand64 commandOffset)
          "could not read segment_command_64"
        if seg.segname.take 10 = ascii "__LINKEDIT" then
          .ok (some { vmaddr := seg.vmaddr, fileoff := seg.fileoff }, ())
        else .ok (none, ())
    | _ => .ok (none, ())
  let (found, _) ← image.loadCommandsFind visit ()
  .ok found

end MachOImage

/-! ## The exports trie -/

inductive ExportTerminal where
  /-- Defined in this image at `mach_header + offset_from_mach_header`. -/
  | definedHere (offsetFromMachHeader : Nat)
  /-- Re-exported from a dependency. -/
  | reexportedFromDependency (dependencyOrdinal : Nat) (aliasedName : List UInt8)
  deriving DecidableEq, Repr

/-- `&bytes[start..]`. -/
def sliceFrom (bytes : List UInt8) (start : Nat) : Outcome (List UInt8) :=
  if start ≤ bytes.length then .ok (bytes.drop start)
  else .panic "range start index out of range for slice"

/-- `bytes[index]`. -/
def index (bytes : List UInt8) (i : Nat) : Outcome UInt8 :=
  Outcome.orPanic bytes[i]? "index out of bounds"

theorem sliceFrom_of_le {bytes : List UInt8} {start : Nat} (h : start ≤ bytes.length) :
    sliceFrom bytes start = .ok (bytes.drop start) := if_pos h

/-- A node of the trie, with the offsets its terminal and its edges start at. -/
structure TrieNodeReader where
  trieBytes : List UInt8
  childEdgesStartOffset : Nat
  terminalPayloadStartOffset : Nat
  terminalPayloadSizeInBytes : Nat

namespace TrieNodeReader

/-- An offset that a read has just succeeded at stays within the bytes, so only the
sum with the payload's size can overflow. -/
def «open» (trieBytes : List UInt8) (nodeOffset : Nat) : Outcome (Option TrieNodeReader) :=
  if trieBytes.length ≤ nodeOffset then .ok none
  else do
    let bytes ← sliceFrom trieBytes nodeOffset
    match readUleb128 bytes with
    | none => .ok none
    | some (terminalPayloadSizeInBytes, terminalSizeFieldByteCount) => do
        let terminalPayloadStartOffset := nodeOffset + terminalSizeFieldByteCount
        let childEdgesStartOffset ←
          Outcome.add 64 terminalPayloadStartOffset terminalPayloadSizeInBytes
        if trieBytes.length ≤ childEdgesStartOffset then .ok none
        else
          .ok (some { trieBytes, childEdgesStartOffset, terminalPayloadStartOffset,
                      terminalPayloadSizeInBytes })

def hasTerminalPayload (node : TrieNodeReader) : Bool := 0 < node.terminalPayloadSizeInBytes

def terminalPayloadRead (node : TrieNodeReader) : Outcome (Option ExportTerminal) := do
  let cursor := node.terminalPayloadStartOffset
  let bytes ← sliceFrom node.trieBytes cursor
  match readUleb128 bytes with
  | none => .ok none
  | some (exportFlags, flagsFieldByteCount) => do
      let cursor := cursor + flagsFieldByteCount
      let bytes ← sliceFrom node.trieBytes cursor
      if exportFlags &&& exportSymbolFlagsReexport ≠ 0 then
        match readUleb128 bytes with
        | none => .ok none
        | some (dependencyOrdinal, ordinalFieldByteCount) => do
            let cursor := cursor + ordinalFieldByteCount
            let bytes ← sliceFrom node.trieBytes cursor
            match Bytes.untilNul bytes with
            | none => .ok none
            | some aliasedName => .ok (some (.reexportedFromDependency dependencyOrdinal aliasedName))
      else
        match readUleb128 bytes with
        | none => .ok none
        | some (offsetFromMachHeader, _) => .ok (some (.definedHere offsetFromMachHeader))

/-- The edges from `cursor` on, with this many to go. -/
def childEdgeLoop (trieBytes remainingSymbolSuffix : List UInt8) :
    Nat → Nat → Outcome (Option (List UInt8 × Nat))
  | 0, _ => .ok none
  | n + 1, cursor => do
      let bytes ← sliceFrom trieBytes cursor
      match Bytes.untilNul bytes with
      | none => .ok none
      | some label => do
          let cursor := cursor + label.length + 1
          let bytes ← sliceFrom trieBytes cursor
          match readUleb128 bytes with
          | none => .ok none
          | some (childNodeOffset, offsetFieldByteCount) =>
              if label ≠ [] ∧ label <+: remainingSymbolSuffix then
                .ok (some (label, childNodeOffset))
              else childEdgeLoop trieBytes remainingSymbolSuffix n (cursor + offsetFieldByteCount)

def childEdgeMatchingPrefixFind (node : TrieNodeReader) (remainingSymbolSuffix : List UInt8) :
    Outcome (Option (List UInt8 × Nat)) := do
  let cursor := node.childEdgesStartOffset
  let childEdgeCount ← index node.trieBytes cursor
  childEdgeLoop node.trieBytes remainingSymbolSuffix childEdgeCount.toNat (cursor + 1)

end TrieNodeReader

/-- The loop of the walk, with this much of the visit budget left. -/
def exportsTrieWalkLoop (trieBytes : List UInt8) :
    Nat → Nat → List UInt8 → Outcome (Option ExportTerminal)
  | 0, _, _ => .ok none
  | visitBudget + 1, currentNodeOffset, remainingSuffix => do
      match ← TrieNodeReader.open trieBytes currentNodeOffset with
      | none => .ok none
      | some node =>
          if remainingSuffix = [] ∧ node.hasTerminalPayload = true then
            node.terminalPayloadRead
          else do
            match ← node.childEdgeMatchingPrefixFind remainingSuffix with
            | none => .ok none
            | some (matchedLabel, childNodeOffset) =>
                exportsTrieWalkLoop trieBytes visitBudget childNodeOffset
                  (remainingSuffix.drop matchedLabel.length)

/-- Walks the exports trie at `trieBytes` looking for `symbol`.

A walk visits at most one node per byte of the trie; anything beyond that is a cycle
in malformed data. -/
def exportsTrieWalkForSymbol (trieBytes symbol : List UInt8) : Outcome (Option ExportTerminal) :=
  exportsTrieWalkLoop trieBytes trieBytes.length 0 symbol

end Dynld
