import Dynld.Lib.Search
import Dynld.MachOImage

/-!
# Symbol lookup in the dyld shared cache

The cache is one very large file (actually several files) with all the system
libraries. A symbol is looked up in the exports trie of its library; the trie may
pass it on to a dependency under another name, and a library whose trie does not
have the symbol may be an umbrella over others. Nothing stops libraries from passing
symbols around in circles, so the lookup has a depth budget.
-/

namespace Dynld

/-- One mapped subcache. -/
structure DyldSharedSubCache where
  container : Container
  /-- The unslid VM address that file offset 0 of this subcache corresponds to. -/
  unslidBaseVmAddress : Nat
  mappingTableOffset : Nat
  mappingTableEntryCount : Nat
  deriving DecidableEq, Repr

namespace DyldSharedSubCache

/-- An entry of `mappings_iter`. Counts and offsets are `u32`, so the address does not overflow. -/
def mappingAt (subcache : DyldSharedSubCache) (entryIndex : Nat) : Outcome DyldCacheMappingInfo :=
  Outcome.orPanic
    (subcache.container.dyldCacheMappingInfo
      (subcache.mappingTableOffset + entryIndex * DyldCacheMappingInfo.structSize))
    "malformed cache mapping table"

/-- `find_map` over the mappings, from `entryIndex` on with this many to go. -/
def runtimeOffsetLoop (subcache : DyldSharedSubCache) (unslidVmAddress : Nat) :
    Nat → Nat → Outcome (Option Nat)
  | 0, _ => .ok none
  | n + 1, entryIndex => do
      let mapping ← subcache.mappingAt entryIndex
      let mappingEnd ← Outcome.add 64 mapping.address mapping.size
      if mapping.address ≤ unslidVmAddress ∧ unslidVmAddress < mappingEnd then do
        let runtimeOffset ← Outcome.sub unslidVmAddress subcache.unslidBaseVmAddress
        .ok (some runtimeOffset)
      else subcache.runtimeOffsetLoop unslidVmAddress n (entryIndex + 1)

/-- VM-address-to-runtime-offset translation. -/
def runtimeOffsetForVmAddress (subcache : DyldSharedSubCache) (unslidVmAddress : Nat) :
    Outcome (Option Nat) :=
  subcache.runtimeOffsetLoop unslidVmAddress subcache.mappingTableEntryCount 0

/-- The same search by file offset. -/
def runtimeOffsetForFileOffsetLoop (subcache : DyldSharedSubCache) (fileOffset : Nat) :
    Nat → Nat → Outcome (Option Nat)
  | 0, _ => .ok none
  | n + 1, entryIndex => do
      let mapping ← subcache.mappingAt entryIndex
      let fileEnd ← Outcome.add 64 mapping.fileOffset mapping.size
      if mapping.fileOffset ≤ fileOffset ∧ fileOffset < fileEnd then do
        let offsetWithinMapping := fileOffset - mapping.fileOffset
        let mappingOffset ← Outcome.sub mapping.address subcache.unslidBaseVmAddress
        let runtimeOffset ← Outcome.add 64 mappingOffset offsetWithinMapping
        .ok (some runtimeOffset)
      else subcache.runtimeOffsetForFileOffsetLoop fileOffset n (entryIndex + 1)

/-- File-offset-to-runtime-offset translation. -/
def runtimeOffsetForFileOffset (subcache : DyldSharedSubCache) (fileOffset : Nat) :
    Outcome (Option Nat) :=
  subcache.runtimeOffsetForFileOffsetLoop fileOffset subcache.mappingTableEntryCount 0

/-- The same search again, for the address. -/
def vmAddressForFileOffsetLoop (subcache : DyldSharedSubCache) (fileOffset : Nat) :
    Nat → Nat → Outcome (Option Nat)
  | 0, _ => .ok none
  | n + 1, entryIndex => do
      let mapping ← subcache.mappingAt entryIndex
      let fileEnd ← Outcome.add 64 mapping.fileOffset mapping.size
      if mapping.fileOffset ≤ fileOffset ∧ fileOffset < fileEnd then do
        let vmAddress ← Outcome.add 64 mapping.address (fileOffset - mapping.fileOffset)
        .ok (some vmAddress)
      else subcache.vmAddressForFileOffsetLoop fileOffset n (entryIndex + 1)

/-- Used when a file offset stored in this subcache points at bytes that live in another one. -/
def vmAddressForFileOffset (subcache : DyldSharedSubCache) (fileOffset : Nat) :
    Outcome (Option Nat) :=
  subcache.vmAddressForFileOffsetLoop fileOffset subcache.mappingTableEntryCount 0

end DyldSharedSubCache

structure SharedCacheLibrary where
  subCacheIndex : Nat
  machHeaderRuntimeOffset : Nat
  /-- A `str`, of which only the bytes are looked at. -/
  installPath : List UInt8
  /-- The unslid VM address dyld would use as this image's load address. -/
  unslidLoadAddress : Nat
  deriving DecidableEq, Repr

structure DyldSharedCache where
  /-- Main cache at index 0, subcaches at indexes 1..N. -/
  subCaches : List DyldSharedSubCache
  libraries : List SharedCacheLibrary
  /-- The ASLR slide dyld applied to the whole cache. -/
  cacheSlide : Nat
  deriving DecidableEq, Repr

/-- What a library's trie says about a symbol. -/
inductive TrieResolution where
  | address (runtimeAddress : Nat)
  | followReexport (targetLibraryPath targetSymbol : List UInt8)
  deriving DecidableEq, Repr

namespace DyldSharedCache

/-- The subcaches from `subcacheIndex` on. -/
def subcacheLocateLoop (unslidVmAddress : Nat) :
    List DyldSharedSubCache → Nat → Outcome (Option (Nat × Nat))
  | [], _ => .ok none
  | subcache :: rest, subcacheIndex => do
      match ← subcache.runtimeOffsetForVmAddress unslidVmAddress with
      -- `subcache_index as u8`
      | some runtimeOffset => .ok (some (subcacheIndex % 256, runtimeOffset))
      | none => subcacheLocateLoop unslidVmAddress rest (subcacheIndex + 1)

/-- Find the subcache whose mappings cover `unslid_vm_address`. -/
def subcacheAndOffsetLocateFromAddr (cache : DyldSharedCache) (unslidVmAddress : Nat) :
    Outcome (Option (Nat × Nat)) :=
  subcacheLocateLoop unslidVmAddress cache.subCaches 0

def unslidAddressToRuntimePointerTranslate (cache : DyldSharedCache) (unslidVmAddress : Nat) :
    Outcome Nat := do
  match ← cache.subcacheAndOffsetLocateFromAddr unslidVmAddress with
  | none => .err "vm address not covered by any cache mapping"
  | some _ => Outcome.add 64 unslidVmAddress cache.cacheSlide

def libraryFindByInstallPath (cache : DyldSharedCache) (installPath : List UInt8) :
    Option SharedCacheLibrary :=
  cache.libraries.find? fun lib => lib.installPath == installPath

def isLibraryCached (cache : DyldSharedCache) (installPath : List UInt8) : Bool :=
  (cache.libraryFindByInstallPath installPath).isSome

/-- `&self.sub_caches[index]`. -/
def subCacheAt (cache : DyldSharedCache) (index : Nat) : Outcome DyldSharedSubCache :=
  Outcome.orPanic cache.subCaches[index]? "index out of bounds"

def imageViewForLibrary (cache : DyldSharedCache) (library : SharedCacheLibrary) :
    Outcome MachOImage := do
  let subcache ← cache.subCacheAt library.subCacheIndex
  .ok { container := subcache.container, machHeaderOffset := library.machHeaderRuntimeOffset }

/-- The bytes of an image's exports trie, wherever in the cache they are: the first half of
`try_resolve_via_exports_trie`. -/
def exportsTrieBytesFind (cache : DyldSharedCache) (image : MachOImage) :
    Outcome (Option (List UInt8)) := do
  match ← image.exportsTrieSpanFind with
  | none => .ok none
  | some span => do
      match ← image.linkeditSegmentFind with
      | none => .ok none
      | some linkedit => do
          let offsetInLinkedit ← Outcome.sub span.fileOffset linkedit.fileoff
          let trieUnslidVm ← Outcome.add 64 linkedit.vmaddr offsetInLinkedit
          match ← cache.subcacheAndOffsetLocateFromAddr trieUnslidVm with
          | none => .ok none
          | some (hostingSubcacheIndex, trieRuntimeOffset) => do
              let subcache ← cache.subCacheAt hostingSubcacheIndex
              .ok (subcache.container.slice trieRuntimeOffset span.sizeInBytes)

/-- What the terminal means in the cache: the `match` that ends `try_resolve_via_exports_trie`. -/
def terminalResolve (cache : DyldSharedCache) (library : SharedCacheLibrary) (image : MachOImage)
    (symbol : List UInt8) : ExportTerminal → Outcome (Option TrieResolution)
  | .definedHere offsetFromMachHeader => do
      let symbolUnslidAddress ← Outcome.add 64 library.unslidLoadAddress offsetFromMachHeader
      let runtimeAddress ← cache.unslidAddressToRuntimePointerTranslate symbolUnslidAddress
      .ok (some (.address runtimeAddress))
  | .reexportedFromDependency dependencyOrdinal aliasedName => do
      match ← image.dylibInstallPathForOrdinal dependencyOrdinal with
      | none => .ok none
      | some targetLibraryPath =>
          let targetSymbol := if aliasedName = [] then symbol else aliasedName
          .ok (some (.followReexport targetLibraryPath targetSymbol))

/-- Walks a library's exports trie. -/
def tryResolveViaExportsTrie (cache : DyldSharedCache) (library : SharedCacheLibrary)
    (symbol : List UInt8) : Outcome (Option TrieResolution) := do
  let image ← cache.imageViewForLibrary library
  match ← cache.exportsTrieBytesFind image with
  | none => .ok none
  | some trieBytes => do
      match ← exportsTrieWalkForSymbol trieBytes symbol with
      | none => .ok none
      | some terminal => cache.terminalResolve library image symbol terminal

/-- The install paths a library is an umbrella over. -/
def umbrellaPaths (cache : DyldSharedCache) (library : SharedCacheLibrary) :
    Outcome (List (List UInt8)) := do
  let image ← cache.imageViewForLibrary library
  image.reexportedDylibPathsCollect

/-- `resolve` is `symbol_resolve_with_max_depth` on the rest of the budget. -/
def tryResolveViaUmbrellaReexports (cache : DyldSharedCache)
    (resolve : List UInt8 → List UInt8 → Outcome (Option Nat)) (library : SharedCacheLibrary)
    (symbol : List UInt8) : Outcome (Option Nat) := do
  let reexportedPaths ← cache.umbrellaPaths library
  Search.first (fun reexportedPath => resolve reexportedPath symbol) reexportedPaths

def symbolResolveWithMaxDepth (cache : DyldSharedCache) :
    Nat → List UInt8 → List UInt8 → Outcome (Option Nat)
  | 0, _, _ => .ok none
  | depthBudgetRemaining + 1, libraryInstallPath, symbol =>
      match cache.libraryFindByInstallPath libraryInstallPath with
      | none => .ok none
      | some library => do
          match ← cache.tryResolveViaExportsTrie library symbol with
          | some (.address runtimeAddress) => .ok (some runtimeAddress)
          | some (.followReexport targetLibraryPath targetSymbol) =>
              cache.symbolResolveWithMaxDepth depthBudgetRemaining targetLibraryPath targetSymbol
          | none =>
              cache.tryResolveViaUmbrellaReexports
                (cache.symbolResolveWithMaxDepth depthBudgetRemaining) library symbol

/-- Resolves `symbol` (mangled, eg. `_malloc`) within `library_install_path`. -/
def symbolResolve (cache : DyldSharedCache) (libraryInstallPath symbol : List UInt8) :
    Outcome (Option Nat) :=
  cache.symbolResolveWithMaxDepth maxReexportResolutionDepth libraryInstallPath symbol

end DyldSharedCache

end Dynld
