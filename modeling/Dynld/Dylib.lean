import Dynld.MachOImage

/-!
# Symbol lookup in one dylib
-/

namespace Dynld

/-- Outcome of a symbol lookup in one dylib. -/
inductive DylibSymbol where
  /-- Defined in this dylib. -/
  | defined (offsetFromMachHeader : Nat)
  /-- Re-exported from another dylib. -/
  | reexported (targetInstallPath targetSymbol : List UInt8)
  deriving DecidableEq, Repr

/-- Looks `symbol` in the container that is supposed to contain a dylib. -/
def dylibSymbolResolve (container : Container) (symbol : List UInt8) :
    Outcome (Option DylibSymbol) := do
  let image : MachOImage := { container, machHeaderOffset := 0 }
  match ← image.exportsTrieSpanFind with
  | none => .ok none
  | some span =>
      match container.slice span.fileOffset span.sizeInBytes with
      | none => .ok none
      | some trieBytes => do
          match ← exportsTrieWalkForSymbol trieBytes symbol with
          | none => .ok none
          | some (.definedHere offsetFromMachHeader) => .ok (some (.defined offsetFromMachHeader))
          | some (.reexportedFromDependency dependencyOrdinal aliasedName) => do
              match ← image.dylibInstallPathForOrdinal dependencyOrdinal with
              | none => .ok none
              | some targetInstallPath =>
                  let targetSymbol := if aliasedName = [] then symbol else aliasedName
                  .ok (some (.reexported targetInstallPath targetSymbol))

/-- The `for` loop of `dylib_symbol_resolve_following_reexports`, with this many turns to go. -/
def dylibSymbolResolveFollowingReexportsLoop (libraryLookup : List UInt8 → Option Container) :
    Nat → Container → List UInt8 → List UInt8 → Outcome (Option (List UInt8 × Nat))
  | 0, _, _, _ => .ok none
  | n + 1, currentContainer, currentSymbol, currentPath => do
      match ← dylibSymbolResolve currentContainer currentSymbol with
      | none => .ok none
      | some (.defined offsetFromMachHeader) => .ok (some (currentPath, offsetFromMachHeader))
      | some (.reexported targetInstallPath targetSymbol) =>
          match libraryLookup targetInstallPath with
          | none => .ok none
          | some next =>
              dylibSymbolResolveFollowingReexportsLoop libraryLookup n next targetSymbol
                targetInstallPath

/-- Resolves `symbol` and chases re-exports through `library_lookup`, which maps install paths to
containers. Returns the path of the library that has it, which is empty for the first one, and the
offset from its Mach header. -/
def dylibSymbolResolveFollowingReexports (container : Container) (symbol : List UInt8)
    (libraryLookup : List UInt8 → Option Container) : Outcome (Option (List UInt8 × Nat)) :=
  dylibSymbolResolveFollowingReexportsLoop libraryLookup maxReexportResolutionDepth container symbol
    []

end Dynld
