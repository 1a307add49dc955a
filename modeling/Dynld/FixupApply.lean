import Dynld.Lib.Memory
import Dynld.Dylib
import Dynld.Fixups
import Dynld.SharedCache

/-!
# Applying chained fixups

A fixup is applied by overwriting the word it was parsed from. A rebase turns an
offset into a pointer; a bind looks its symbol up in the library of its ordinal, in
the image's own symbol table if that is the weak ordinal.

Libraries and the shared cache are slices of the same memory the fixups write to, and
what they *say* depends on that memory. `MappedContainer` and `MappedSharedCache` are
what the program holds, pointers and lengths; their `view` is what they say.

A pointer here is an address: alignment and provenance are not modelled.
-/

namespace Dynld

/-! ## Slices of memory -/

/-- `pointer.add(n)`, as the word that is stored or jumped to. -/
def ptrAdd (pointer n : Nat) : Nat := (pointer + n) % 2 ^ 64

/-- A container over a slice of memory. -/
structure MappedContainer where
  bytes : ByteRange
  endian : Endian
  deriving DecidableEq, Repr

/-- The container as it reads in this memory. -/
def MappedContainer.view (container : MappedContainer) (m : Mem) : Container where
  data := m.read container.bytes.start container.bytes.len
  endian := container.endian

structure MappedSubCache where
  container : MappedContainer
  unslidBaseVmAddress : Nat
  mappingTableOffset : Nat
  mappingTableEntryCount : Nat
  deriving DecidableEq, Repr

structure MappedCacheLibrary where
  subCacheIndex : Nat
  machHeaderRuntimeOffset : Nat
  /-- Where the path is in the main cache. -/
  installPath : ByteRange
  unslidLoadAddress : Nat
  deriving DecidableEq, Repr

structure MappedSharedCache where
  subCaches : List MappedSubCache
  libraries : List MappedCacheLibrary
  cacheSlide : Nat
  deriving DecidableEq, Repr

/-- The cache as it reads in this memory. -/
def MappedSharedCache.view (cache : MappedSharedCache) (m : Mem) : DyldSharedCache where
  subCaches := cache.subCaches.map fun subcache =>
    { container := subcache.container.view m
      unslidBaseVmAddress := subcache.unslidBaseVmAddress
      mappingTableOffset := subcache.mappingTableOffset
      mappingTableEntryCount := subcache.mappingTableEntryCount }
  libraries := cache.libraries.map fun library =>
    { subCacheIndex := library.subCacheIndex
      machHeaderRuntimeOffset := library.machHeaderRuntimeOffset
      installPath := m.read library.installPath.start library.installPath.len
      unslidLoadAddress := library.unslidLoadAddress }
  cacheSlide := cache.cacheSlide

/-- The shared cache, as it reads in each memory. -/
abbrev CacheView : Type := Mem → DyldSharedCache

inductive Library where
  | system (name : Str)
  | user (container : MappedContainer)
  deriving DecidableEq, Repr

/-! ## One fixup -/

/-- The word that a symbol of the weak ordinal is bound to. -/
def fixupDylibWeakSymbol (vmStartPtr fixupOffset pageZeroSize : Nat) (symbols : List Symbol)
    (symbolName : ArrayString symbolNameLen) : Exec Mem Unit := do
  let dstAddr := ptrAdd (ptrAdd vmStartPtr fixupOffset) pageZeroSize
  let symbol ← Outcome.okOr (symbols.find? fun sym => sym.arrayStringCmp symbolName)
    "could not find a matching symbol while fixing up a BIND_SPECIAL_DYLIB_WEAK_LOOKUP"
  Exec.modify fun m => m.writeWord 8 dstAddr (ptrAdd vmStartPtr symbol.implOffset)

/-- Bind to a symbol of a library. -/
def fixupRegularSymbol (vmStartPtr fixupOffset pageZeroSize : Nat)
    (symbolName : ArrayString symbolNameLen) (library : Library)
    (dyldSharedCache : Option CacheView) : Exec Mem Unit :=
  match library, dyldSharedCache with
  | .system libraryName, some sharedCache => do
      let dstAddr := ptrAdd (ptrAdd vmStartPtr pageZeroSize) fixupOffset
      let found ← Exec.lift fun m =>
        (sharedCache m).symbolResolve libraryName.bytes symbolName.asBytes
      let resolvedSymbol ← Outcome.okOr found "could not find a symbol in the dyld shared cache"
      Exec.modify fun m => m.writeWord 8 dstAddr resolvedSymbol
  | .user libContainer, _ => do
      let found ← Exec.lift fun m =>
        dylibSymbolResolve (libContainer.view m) symbolName.asBytes
      match ← Outcome.okOr found "failed to find symbol in user dylib" with
      | .defined offsetFromMachHeader => do
          let dstAddr := ptrAdd (ptrAdd vmStartPtr pageZeroSize) fixupOffset
          let a := ptrAdd libContainer.bytes.start offsetFromMachHeader
          Exec.modify fun m => m.writeWord 8 dstAddr a
      | .reexported _ _ => Outcome.panic "not implemented: DylibSymbol::Reexported"
  | .system _, none => Outcome.err "failed to link library"

section

variable (dstPtr pageZeroSize : Nat) (symbols : List Symbol) (dylibs : List Library)
  (dyldSharedCache : Option CacheView)

/-- One turn of the loop. While the dynamic linker rebases itself it has no shared cache yet,
and ignores binds. -/
def fixupOne (ignoreBinds : Bool) (fixup : Fixup) : Exec Mem Unit :=
  match fixup.kind with
  | .rebase target =>
      Exec.modify fun m => m.writeWord 8 (ptrAdd (ptrAdd dstPtr fixup.offset) pageZeroSize)
        (ptrAdd (ptrAdd dstPtr target) pageZeroSize)
  | .bind symbolName ordinal _ _ =>
      if ignoreBinds then pure ()
      else if ordinal = bindSpecialDylibSelf then
        Outcome.err "BIND_SPECIAL_DYLIB_SELF is not yet supported"
      else if ordinal = bindSpecialDylibMainExecutable then
        Outcome.err "BIND_SPECIAL_DYLIB_MAIN_EXECUTABLE is not yet supported"
      else if ordinal = bindSpecialDylibFlatLookup then
        Outcome.err "BIND_SPECIAL_DYLIB_FLAT_LOOKUP is not yet supported"
      else if ordinal = bindSpecialDylibWeakLookup then
        fixupDylibWeakSymbol dstPtr fixup.offset pageZeroSize symbols symbolName
      else do
        let library ← Outcome.orPanic dylibs[ordinal - 1]? "index out of bounds"
        fixupRegularSymbol dstPtr fixup.offset pageZeroSize symbolName library dyldSharedCache

def fixupAllChainedFixups (ignoreBinds : Bool) : List Fixup → Exec Mem Unit
  | [] => pure ()
  | fixup :: fixups => do
      fixupOne dstPtr pageZeroSize symbols dylibs dyldSharedCache ignoreBinds fixup
      fixupAllChainedFixups ignoreBinds fixups

end

end Dynld
