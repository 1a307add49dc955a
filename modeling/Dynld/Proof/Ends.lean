import Dynld.Proof.LoaderSteps
import Mathlib.Tactic.SplitIfs

/-!
# Every call but the loader's ends

Only two functions of the model are on fuel: the walk along a chain of fixups, and the
loader. The walk moves forward through the container, so its fuel is enough. Nothing
else runs out of fuel either, which leaves the loader's own recursion.

The lemmas follow the calls from the bottom up.
-/

namespace Dynld

/-! ## Reading the container -/

namespace Container

variable (c : Container) (offset : Nat)

/-- A string is one pass over the bytes behind the offset. -/
theorem stringBytesAtOffset_ne_outOfFuel : c.stringBytesAtOffset offset ≠ .outOfFuel := by
  unfold stringBytesAtOffset
  split_ifs
  · exact Outcome.orPanic_ne_outOfFuel _ _
  · simp

theorem deserializeStringAtOffset_ne_outOfFuel :
    c.deserializeStringAtOffset offset ≠ .outOfFuel := by
  refine Outcome.bind_ne_outOfFuel (c.stringBytesAtOffset_ne_outOfFuel offset) fun bytes _ => ?_
  split_ifs
  · simp
  · simp

theorem deserializeCstrAtOffset_ne_outOfFuel :
    c.deserializeCstrAtOffset offset ≠ .outOfFuel :=
  c.stringBytesAtOffset_ne_outOfFuel offset

end Container

theorem ArrayVec.push_ne_outOfFuel {α : Type} {n : Nat} (v : ArrayVec α n) (item : α) :
    v.push item ≠ .outOfFuel := by
  unfold push
  split_ifs
  · simp
  · simp

/-! ## The exports trie -/

theorem sliceFrom_ne_outOfFuel (bytes : List UInt8) (start : Nat) :
    sliceFrom bytes start ≠ .outOfFuel := by
  unfold sliceFrom
  split_ifs
  · simp
  · simp

namespace TrieNodeReader

theorem open_ne_outOfFuel (trieBytes : List UInt8) (nodeOffset : Nat) :
    TrieNodeReader.open trieBytes nodeOffset ≠ .outOfFuel := by
  unfold TrieNodeReader.open
  split_ifs
  · simp
  refine Outcome.bind_ne_outOfFuel (sliceFrom_ne_outOfFuel _ _) fun bytes _ => ?_
  split
  · simp
  refine Outcome.bind_ne_outOfFuel (Outcome.add_ne_outOfFuel _ _ _) fun childEdges _ => ?_
  split_ifs
  · simp
  · simp

theorem terminalPayloadRead_ne_outOfFuel (node : TrieNodeReader) :
    node.terminalPayloadRead ≠ .outOfFuel := by
  refine Outcome.bind_ne_outOfFuel (sliceFrom_ne_outOfFuel _ _) fun bytes _ => ?_
  split
  · simp
  refine Outcome.bind_ne_outOfFuel (sliceFrom_ne_outOfFuel _ _) fun payload _ => ?_
  split_ifs
  · -- a re-export has a name behind the ordinal
    split
    · simp
    refine Outcome.bind_ne_outOfFuel (sliceFrom_ne_outOfFuel _ _) fun name _ => ?_
    split
    · simp
    · simp
  · split
    · simp
    · simp

/-- The edges of a node are counted. -/
theorem childEdgeLoop_ne_outOfFuel (trieBytes remainingSymbolSuffix : List UInt8) :
    ∀ n cursor, childEdgeLoop trieBytes remainingSymbolSuffix n cursor ≠ .outOfFuel := by
  intro n
  induction n with
  | zero =>
    intro _
    simp [childEdgeLoop]
  | succ n ih =>
    intro cursor
    refine Outcome.bind_ne_outOfFuel (sliceFrom_ne_outOfFuel _ _) fun bytes _ => ?_
    split
    · simp
    refine Outcome.bind_ne_outOfFuel (sliceFrom_ne_outOfFuel _ _) fun offset _ => ?_
    split
    · simp
    split_ifs
    · simp
    · exact ih _

theorem childEdgeMatchingPrefixFind_ne_outOfFuel (node : TrieNodeReader)
    (remainingSymbolSuffix : List UInt8) :
    node.childEdgeMatchingPrefixFind remainingSymbolSuffix ≠ .outOfFuel :=
  Outcome.bind_ne_outOfFuel (Outcome.orPanic_ne_outOfFuel _ _) fun _ _ =>
    childEdgeLoop_ne_outOfFuel _ _ _ _

end TrieNodeReader

/-- The visit budget bounds the walk: without any left it returns none. -/
theorem exportsTrieWalkLoop_ne_outOfFuel (trieBytes : List UInt8) :
    ∀ visitBudget currentNodeOffset remainingSuffix,
      exportsTrieWalkLoop trieBytes visitBudget currentNodeOffset remainingSuffix ≠ .outOfFuel := by
  intro visitBudget
  induction visitBudget with
  | zero =>
    intro _ _
    simp [exportsTrieWalkLoop]
  | succ visitBudget ih =>
    intro currentNodeOffset remainingSuffix
    refine Outcome.bind_ne_outOfFuel (TrieNodeReader.open_ne_outOfFuel _ _) fun node _ => ?_
    cases node with
    | none => simp
    | some node =>
        dsimp only
        split_ifs
        · exact node.terminalPayloadRead_ne_outOfFuel
        refine Outcome.bind_ne_outOfFuel (node.childEdgeMatchingPrefixFind_ne_outOfFuel _)
          fun edge _ => ?_
        cases edge with
        | none => simp
        | some edge => exact ih _ _

theorem exportsTrieWalkForSymbol_ne_outOfFuel (trieBytes symbol : List UInt8) :
    exportsTrieWalkForSymbol trieBytes symbol ≠ .outOfFuel :=
  exportsTrieWalkLoop_ne_outOfFuel _ _ _ _

/-! ## Load commands -/

/-- The header counts the load commands, so only the visitor could run out of fuel. -/
theorem loadCommandsFindLoop_ne_outOfFuel {σ T : Type} {c : Container}
    {visit : σ → LoadCommandVariants → Nat → Outcome (Option T × σ)}
    (hvisit : ∀ s cmd commandOffset, visit s cmd commandOffset ≠ .outOfFuel) :
    ∀ n commandOffset s, loadCommandsFindLoop c visit n commandOffset s ≠ .outOfFuel := by
  intro n
  induction n with
  | zero =>
    intro _ _
    simp [loadCommandsFindLoop]
  | succ n ih =>
    intro commandOffset s
    refine Outcome.bind_ne_outOfFuel (Outcome.okOr_ne_outOfFuel _ _) fun lc _ => ?_
    refine Outcome.bind_ne_outOfFuel (hvisit _ _ _) fun visited _ => ?_
    obtain ⟨found, s'⟩ := visited
    cases found with
    | some t => simp
    | none =>
        exact Outcome.bind_ne_outOfFuel (Outcome.add_ne_outOfFuel _ _ _) fun _ _ => ih _ _

namespace MachOImage

variable (image : MachOImage)

theorem loadCommandsFind_ne_outOfFuel {σ T : Type}
    {visit : σ → LoadCommandVariants → Nat → Outcome (Option T × σ)}
    (hvisit : ∀ s cmd commandOffset, visit s cmd commandOffset ≠ .outOfFuel) (s : σ) :
    image.loadCommandsFind visit s ≠ .outOfFuel :=
  Outcome.bind_ne_outOfFuel (Outcome.okOr_ne_outOfFuel _ _) fun _ _ =>
    Outcome.bind_ne_outOfFuel (Outcome.add_ne_outOfFuel _ _ _) fun _ _ =>
      loadCommandsFindLoop_ne_outOfFuel hvisit _ _ _

theorem dylibInstallNameRead_ne_outOfFuel (commandOffset : Nat) :
    image.dylibInstallNameRead commandOffset ≠ .outOfFuel := by
  refine Outcome.bind_ne_outOfFuel (Outcome.okOr_ne_outOfFuel _ _) fun header _ => ?_
  refine Outcome.bind_ne_outOfFuel (Outcome.add_ne_outOfFuel _ _ _) fun nameOffset _ => ?_
  exact image.container.deserializeCstrAtOffset_ne_outOfFuel nameOffset

theorem exportsTrieSpanFind_ne_outOfFuel : image.exportsTrieSpanFind ≠ .outOfFuel := by
  refine Outcome.bind_ne_outOfFuel (image.loadCommandsFind_ne_outOfFuel ?_ ()) fun _ _ => by simp
  intro s cmd commandOffset
  split
  · exact Outcome.bind_ne_outOfFuel (Outcome.okOr_ne_outOfFuel _ _) fun _ _ => by simp
  · exact Outcome.bind_ne_outOfFuel (Outcome.okOr_ne_outOfFuel _ _) fun _ _ => by simp
  · simp

theorem dylibInstallPathForOrdinal_ne_outOfFuel (targetOrdinal : Nat) :
    image.dylibInstallPathForOrdinal targetOrdinal ≠ .outOfFuel := by
  refine Outcome.bind_ne_outOfFuel (image.loadCommandsFind_ne_outOfFuel ?_ 0) fun _ _ => by simp
  intro seen cmd commandOffset
  dsimp only
  split_ifs
  · exact Outcome.bind_ne_outOfFuel (image.dylibInstallNameRead_ne_outOfFuel _) fun _ _ => by simp
  · simp
  · simp

/-- A name that cannot be read is left out, and that is the only outcome the visitor drops. -/
theorem reexportedDylibPathsCollect_ne_outOfFuel :
    image.reexportedDylibPathsCollect ≠ .outOfFuel := by
  refine Outcome.bind_ne_outOfFuel (image.loadCommandsFind_ne_outOfFuel ?_ []) fun _ _ => by simp
  intro paths cmd commandOffset
  split_ifs
  · split
    · simp
    · simp
    · simp
    · rename_i hname
      exact absurd hname (image.dylibInstallNameRead_ne_outOfFuel commandOffset)
  · simp

theorem linkeditSegmentFind_ne_outOfFuel : image.linkeditSegmentFind ≠ .outOfFuel := by
  refine Outcome.bind_ne_outOfFuel (image.loadCommandsFind_ne_outOfFuel ?_ ()) fun _ _ => by simp
  intro s cmd commandOffset
  split
  · refine Outcome.bind_ne_outOfFuel (Outcome.okOr_ne_outOfFuel _ _) fun seg _ => ?_
    split_ifs
    · simp
    · simp
  · simp

end MachOImage

/-! ## Symbol lookup -/

/-- A dylib is asked once: the caller follows the re-exports. -/
theorem dylibSymbolResolve_ne_outOfFuel (container : Container) (symbol : List UInt8) :
    dylibSymbolResolve container symbol ≠ .outOfFuel := by
  refine Outcome.bind_ne_outOfFuel (MachOImage.exportsTrieSpanFind_ne_outOfFuel _) fun span _ => ?_
  split
  · simp
  split
  · simp
  refine Outcome.bind_ne_outOfFuel (exportsTrieWalkForSymbol_ne_outOfFuel _ _) fun terminal _ => ?_
  split
  · simp
  · simp
  refine Outcome.bind_ne_outOfFuel (MachOImage.dylibInstallPathForOrdinal_ne_outOfFuel _ _)
    fun path _ => ?_
  split
  · simp
  · simp

namespace DyldSharedSubCache

variable (subcache : DyldSharedSubCache) (unslidVmAddress : Nat)

/-- The mappings of a subcache are counted. -/
theorem runtimeOffsetLoop_ne_outOfFuel :
    ∀ n entryIndex, subcache.runtimeOffsetLoop unslidVmAddress n entryIndex ≠ .outOfFuel := by
  intro n
  induction n with
  | zero =>
    intro _
    simp [runtimeOffsetLoop]
  | succ n ih =>
    intro entryIndex
    refine Outcome.bind_ne_outOfFuel (Outcome.orPanic_ne_outOfFuel _ _) fun mapping _ => ?_
    refine Outcome.bind_ne_outOfFuel (Outcome.add_ne_outOfFuel _ _ _) fun mappingEnd _ => ?_
    split_ifs
    · exact Outcome.bind_ne_outOfFuel (Outcome.sub_ne_outOfFuel _ _) fun _ _ => by simp
    · exact ih _

theorem runtimeOffsetForVmAddress_ne_outOfFuel :
    subcache.runtimeOffsetForVmAddress unslidVmAddress ≠ .outOfFuel :=
  subcache.runtimeOffsetLoop_ne_outOfFuel _ _ _

end DyldSharedSubCache

namespace DyldSharedCache

variable (cache : DyldSharedCache)

theorem subcacheLocateLoop_ne_outOfFuel (unslidVmAddress : Nat) :
    ∀ subCaches subcacheIndex,
      subcacheLocateLoop unslidVmAddress subCaches subcacheIndex ≠ .outOfFuel := by
  intro subCaches
  induction subCaches with
  | nil =>
    intro _
    simp [subcacheLocateLoop]
  | cons subcache rest ih =>
    intro subcacheIndex
    refine Outcome.bind_ne_outOfFuel (subcache.runtimeOffsetForVmAddress_ne_outOfFuel _)
      fun found _ => ?_
    cases found with
    | some runtimeOffset => simp
    | none => exact ih _

theorem subcacheAndOffsetLocateFromAddr_ne_outOfFuel (unslidVmAddress : Nat) :
    cache.subcacheAndOffsetLocateFromAddr unslidVmAddress ≠ .outOfFuel :=
  subcacheLocateLoop_ne_outOfFuel _ _ _

theorem unslidAddressToRuntimePointerTranslate_ne_outOfFuel (unslidVmAddress : Nat) :
    cache.unslidAddressToRuntimePointerTranslate unslidVmAddress ≠ .outOfFuel := by
  refine Outcome.bind_ne_outOfFuel (cache.subcacheAndOffsetLocateFromAddr_ne_outOfFuel _)
    fun located _ => ?_
  cases located with
  | none => simp
  | some located => exact Outcome.add_ne_outOfFuel _ _ _

theorem imageViewForLibrary_ne_outOfFuel (library : SharedCacheLibrary) :
    cache.imageViewForLibrary library ≠ .outOfFuel :=
  Outcome.bind_ne_outOfFuel (Outcome.orPanic_ne_outOfFuel _ _) fun _ _ => by simp

theorem exportsTrieBytesFind_ne_outOfFuel (image : MachOImage) :
    cache.exportsTrieBytesFind image ≠ .outOfFuel := by
  refine Outcome.bind_ne_outOfFuel image.exportsTrieSpanFind_ne_outOfFuel fun span _ => ?_
  split
  · simp
  refine Outcome.bind_ne_outOfFuel image.linkeditSegmentFind_ne_outOfFuel fun linkedit _ => ?_
  split
  · simp
  refine Outcome.bind_ne_outOfFuel (Outcome.sub_ne_outOfFuel _ _) fun offsetInLinkedit _ => ?_
  refine Outcome.bind_ne_outOfFuel (Outcome.add_ne_outOfFuel _ _ _) fun trieUnslidVm _ => ?_
  refine Outcome.bind_ne_outOfFuel (cache.subcacheAndOffsetLocateFromAddr_ne_outOfFuel _)
    fun located _ => ?_
  split
  · simp
  · exact Outcome.bind_ne_outOfFuel (Outcome.orPanic_ne_outOfFuel _ _) fun _ _ => by simp

theorem terminalResolve_ne_outOfFuel (library : SharedCacheLibrary) (image : MachOImage)
    (symbol : List UInt8) (terminal : ExportTerminal) :
    cache.terminalResolve library image symbol terminal ≠ .outOfFuel := by
  cases terminal with
  | definedHere offset =>
      refine Outcome.bind_ne_outOfFuel (Outcome.add_ne_outOfFuel _ _ _) fun unslid _ => ?_
      exact Outcome.bind_ne_outOfFuel
        (cache.unslidAddressToRuntimePointerTranslate_ne_outOfFuel _) fun _ _ => by simp
  | reexportedFromDependency ordinal aliasedName =>
      refine Outcome.bind_ne_outOfFuel (image.dylibInstallPathForOrdinal_ne_outOfFuel _)
        fun path _ => ?_
      cases path with
      | none => simp
      | some path => simp

theorem tryResolveViaExportsTrie_ne_outOfFuel (library : SharedCacheLibrary)
    (symbol : List UInt8) : cache.tryResolveViaExportsTrie library symbol ≠ .outOfFuel := by
  refine Outcome.bind_ne_outOfFuel (cache.imageViewForLibrary_ne_outOfFuel _) fun image _ => ?_
  refine Outcome.bind_ne_outOfFuel (cache.exportsTrieBytesFind_ne_outOfFuel _) fun found _ => ?_
  cases found with
  | none => simp
  | some trieBytes =>
      refine Outcome.bind_ne_outOfFuel (exportsTrieWalkForSymbol_ne_outOfFuel _ _)
        fun terminal _ => ?_
      cases terminal with
      | none => simp
      | some terminal => exact cache.terminalResolve_ne_outOfFuel _ _ _ _

theorem umbrellaPaths_ne_outOfFuel (library : SharedCacheLibrary) :
    cache.umbrellaPaths library ≠ .outOfFuel :=
  Outcome.bind_ne_outOfFuel (cache.imageViewForLibrary_ne_outOfFuel _) fun image _ =>
    image.reexportedDylibPathsCollect_ne_outOfFuel

/-- The depth budget bounds the recursion: without any left it returns none. -/
theorem symbolResolveWithMaxDepth_ne_outOfFuel :
    ∀ depthBudgetRemaining libraryInstallPath symbol,
      cache.symbolResolveWithMaxDepth depthBudgetRemaining libraryInstallPath symbol ≠ .outOfFuel := by
  intro depthBudgetRemaining
  induction depthBudgetRemaining with
  | zero =>
    intro _ _
    simp [symbolResolveWithMaxDepth]
  | succ depthBudgetRemaining ih =>
    intro libraryInstallPath symbol
    have humbrella : ∀ library, cache.tryResolveViaUmbrellaReexports
        (cache.symbolResolveWithMaxDepth depthBudgetRemaining) library symbol ≠ .outOfFuel :=
      fun library => Outcome.bind_ne_outOfFuel (cache.umbrellaPaths_ne_outOfFuel library)
        fun _ _ => Search.first_ne_outOfFuel fun path => ih path symbol
    unfold symbolResolveWithMaxDepth
    split
    · simp
    refine Outcome.bind_ne_outOfFuel (cache.tryResolveViaExportsTrie_ne_outOfFuel _ _)
      fun resolution _ => ?_
    split
    · simp
    · exact ih _ _
    · exact humbrella _

theorem symbolResolve_ne_outOfFuel (libraryInstallPath symbol : List UInt8) :
    cache.symbolResolve libraryInstallPath symbol ≠ .outOfFuel :=
  cache.symbolResolveWithMaxDepth_ne_outOfFuel _ _ _

end DyldSharedCache

/-! ## Chained fixups -/

namespace Container

variable (c : Container)

theorem importSymbolParse_ne_outOfFuel (ordinal : Nat)
    (importsFormat : DyldChainedImportFormatVariants) (importsOffset symbolsOffset : Nat) :
    c.importSymbolParse ordinal importsFormat importsOffset symbolsOffset ≠ .outOfFuel := by
  have hname : ∀ entry : Nat × Nat, (do
      let name ← c.deserializeStringAtOffset (symbolsOffset + entry.2)
      let symbolName ← Outcome.orPanic (ArrayString.tryFromStr symbolNameLen name)
        "called `Option::unwrap()` on a `None` value"
      Outcome.ok (entry.1, symbolName)) ≠ .outOfFuel := fun entry =>
    Outcome.bind_ne_outOfFuel (c.deserializeStringAtOffset_ne_outOfFuel _) fun name _ =>
      Outcome.bind_ne_outOfFuel (Outcome.orPanic_ne_outOfFuel _ _) fun _ _ => by simp
  -- the entries are of three sizes, and each has a name
  unfold importSymbolParse
  cases importsFormat with
  | dyldChainedImport =>
      exact Outcome.bind_ne_outOfFuel (Outcome.okOr_ne_outOfFuel _ _) fun _ _ => hname (_, _)
  | dyldChainedImportAddend =>
      exact Outcome.bind_ne_outOfFuel (Outcome.okOr_ne_outOfFuel _ _) fun _ _ => hname (_, _)
  | dyldChainedImportAddend64 =>
      exact Outcome.bind_ne_outOfFuel (Outcome.okOr_ne_outOfFuel _ _) fun _ _ => hname (_, _)

section

variable (value offset : Nat) (importsFormat : DyldChainedImportFormatVariants)
  (importsOffset symbolsOffset : Nat)

theorem bindParse_ne_outOfFuel (ordinal next addend : Nat) (isAuth : Bool) :
    c.bindParse offset importsFormat importsOffset symbolsOffset ordinal next addend isAuth
      ≠ .outOfFuel :=
  Outcome.bind_ne_outOfFuel (c.importSymbolParse_ne_outOfFuel _ _ _ _) fun _ _ => by simp

theorem fixup64ParseOne_ne_outOfFuel :
    c.fixup64ParseOne value offset importsFormat importsOffset symbolsOffset ≠ .outOfFuel := by
  unfold fixup64ParseOne
  dsimp only
  split_ifs
  · exact c.bindParse_ne_outOfFuel _ _ _ _ _ _ _ _
  · simp

theorem fixupArm64eParseOne_ne_outOfFuel :
    c.fixupArm64eParseOne value offset importsFormat importsOffset symbolsOffset
      ≠ .outOfFuel := by
  unfold fixupArm64eParseOne
  dsimp only
  split_ifs
  · exact c.bindParse_ne_outOfFuel _ _ _ _ _ _ _ _
  · exact c.bindParse_ne_outOfFuel _ _ _ _ _ _ _ _
  · simp
  · simp

theorem fixupArm64eUserland24ParseOne_ne_outOfFuel :
    c.fixupArm64eUserland24ParseOne value offset importsFormat importsOffset symbolsOffset
      ≠ .outOfFuel := by
  unfold fixupArm64eUserland24ParseOne
  dsimp only
  split_ifs
  · exact c.bindParse_ne_outOfFuel _ _ _ _ _ _ _ _
  · exact c.bindParse_ne_outOfFuel _ _ _ _ _ _ _ _
  · exact c.fixupArm64eParseOne_ne_outOfFuel _ _ _ _ _

/-- A word is read in the format of its chain; the formats that are left out panic. -/
theorem fixupParseOne_ne_outOfFuel (pointerFormat : DyldChainedPtrFormatVariants) :
    c.fixupParseOne value offset importsFormat importsOffset symbolsOffset pointerFormat
      ≠ .outOfFuel := by
  unfold fixupParseOne
  split
  · exact c.fixup64ParseOne_ne_outOfFuel _ _ _ _ _
  · exact c.fixup64ParseOne_ne_outOfFuel _ _ _ _ _
  · exact c.fixupArm64eParseOne_ne_outOfFuel _ _ _ _ _
  · exact c.fixupArm64eParseOne_ne_outOfFuel _ _ _ _ _
  · exact c.fixupArm64eUserland24ParseOne_ne_outOfFuel _ _ _ _ _
  · simp

end

section

variable (importsFormat : DyldChainedImportFormatVariants) (importsOffset symbolsOffset : Nat)

theorem chainStep_ne_outOfFuel (pointerFormat : DyldChainedPtrFormatVariants)
    (chainOffset : Nat) :
    c.chainStep importsFormat importsOffset symbolsOffset pointerFormat chainOffset
      ≠ .outOfFuel :=
  Outcome.bind_ne_outOfFuel (Outcome.okOr_ne_outOfFuel _ _) fun _ _ =>
    c.fixupParseOne_ne_outOfFuel _ _ _ _ _ _

/-- A chain has left the container before its fuel is used up. -/
theorem chainLoop_ne_outOfFuel (pointerFormat : DyldChainedPtrFormatVariants) :
    ∀ {fuel chainOffset : Nat}, 0 < fuel → c.data.length < chainOffset + fuel →
      (c.chainLoop importsFormat importsOffset symbolsOffset pointerFormat fuel chainOffset).2
        ≠ .outOfFuel := by
  intro fuel
  induction fuel with
  | zero =>
    intro chainOffset hpos
    omega
  | succ fuel ih =>
    intro chainOffset _ hfuel
    unfold chainLoop
    split
    · rename_i nextOffset fixup hstep
      -- the word that was read has eight bytes, so there is fuel for the next one
      obtain ⟨value, hvalue, -⟩ := Outcome.bind_eq_ok.mp hstep
      have hbound := (Bytes.wordAt_bound (Outcome.okOr_eq_ok.mp hvalue)).1
      split
      · simp
      · exact Outcome.bind_ne_outOfFuel (ih (by omega) (by omega)) fun _ _ => by simp
    · simp
    · simp
    · rename_i hstep
      exact absurd hstep (c.chainStep_ne_outOfFuel _ _ _ _ _)

theorem pageParse_ne_outOfFuel (starts : DyldChainedStartsInSegment)
    (segStartsOffset pageIndex : Nat) :
    (c.pageParse importsFormat importsOffset symbolsOffset starts segStartsOffset pageIndex).2
      ≠ .outOfFuel := by
  unfold pageParse
  dsimp only
  split
  · exact c.chainLoop_ne_outOfFuel _ _ _ _ (Nat.succ_pos _) (by omega)
  · simp
  · simp
  · -- the offset of the first word is three checked sums
    rename_i hfirst
    refine absurd hfirst (Outcome.bind_ne_outOfFuel (Outcome.add_ne_outOfFuel _ _ _) fun _ _ => ?_)
    refine Outcome.bind_ne_outOfFuel (Outcome.okOr_ne_outOfFuel _ _) fun pageStart _ => ?_
    exact Outcome.bind_ne_outOfFuel (Outcome.add_ne_outOfFuel _ _ _) fun page _ =>
      Outcome.add_ne_outOfFuel _ _ _

theorem pagesParse_ne_outOfFuel (starts : DyldChainedStartsInSegment)
    (segStartsOffset : Nat) : ∀ n pageIndex,
      c.pagesParse importsFormat importsOffset symbolsOffset starts segStartsOffset n pageIndex
        ≠ .outOfFuel := by
  intro n
  induction n with
  | zero => simp [pagesParse]
  | succ n ih =>
    intro pageIndex
    refine Outcome.bind_ne_outOfFuel (c.pageParse_ne_outOfFuel _ _ _ _ _ _) fun fixups _ => ?_
    exact Outcome.bind_ne_outOfFuel (ih _) fun _ _ => by simp

theorem segmentsParse_ne_outOfFuel (startsOffset : Nat) : ∀ n segOffsetIndex,
    c.segmentsParse importsFormat importsOffset symbolsOffset startsOffset n segOffsetIndex
      ≠ .outOfFuel := by
  intro n
  induction n with
  | zero => simp [segmentsParse]
  | succ n ih =>
    intro segOffsetIndex
    refine Outcome.bind_ne_outOfFuel (Outcome.okOr_ne_outOfFuel _ _) fun segOffset _ => ?_
    split_ifs
    · exact ih _
    · refine Outcome.bind_ne_outOfFuel (Outcome.add_ne_outOfFuel _ _ _) fun segStarts _ => ?_
      refine Outcome.bind_ne_outOfFuel (Outcome.okOr_ne_outOfFuel _ _) fun starts _ => ?_
      refine Outcome.bind_ne_outOfFuel (c.pagesParse_ne_outOfFuel _ _ _ _ _ _ _) fun _ _ => ?_
      exact Outcome.bind_ne_outOfFuel (ih _) fun _ _ => by simp

end

theorem lcIterate_ne_outOfFuel {σ : Type} {body : σ → LoadCommand → Nat → Outcome (σ × Bool)}
    (hbody : ∀ s lc offset, body s lc offset ≠ .outOfFuel) :
    ∀ n offset s, lcIterate c body n offset s ≠ .outOfFuel := by
  intro n
  induction n with
  | zero => simp [lcIterate]
  | succ n ih =>
    intro offset s
    refine Outcome.bind_ne_outOfFuel (Outcome.okOr_ne_outOfFuel _ _) fun lc _ => ?_
    refine Outcome.bind_ne_outOfFuel (Outcome.add_ne_outOfFuel _ _ _) fun next _ => ?_
    refine Outcome.bind_ne_outOfFuel (hbody _ _ _) fun visited _ => ?_
    obtain ⟨s', goOn⟩ := visited
    dsimp only
    split_ifs
    · exact ih _ _
    · simp

theorem chainedFixupsHeaderAndOffsetFind_ne_outOfFuel :
    c.chainedFixupsHeaderAndOffsetFind ≠ .outOfFuel := by
  have hbody : ∀ found lc offset, chainedFixupsFindBody found lc offset ≠ .outOfFuel := by
    intro found lc offset
    unfold chainedFixupsFindBody
    split_ifs
    · simp
    · simp
  have hfind : lcForEach c chainedFixupsFindBody none ≠ .outOfFuel :=
    Outcome.bind_ne_outOfFuel (Outcome.okOr_ne_outOfFuel _ _) fun header _ =>
      c.lcIterate_ne_outOfFuel hbody _ _ _
  refine Outcome.bind_ne_outOfFuel hfind fun found _ => ?_
  cases found with
  | none => simp
  | some offset =>
      refine Outcome.bind_ne_outOfFuel (Outcome.okOr_ne_outOfFuel _ _) fun cmd _ => ?_
      exact Outcome.bind_ne_outOfFuel (Outcome.okOr_ne_outOfFuel _ _) fun _ _ => by simp

theorem fixupTablesFind_ne_outOfFuel : c.fixupTablesFind ≠ .outOfFuel := by
  refine Outcome.bind_ne_outOfFuel c.chainedFixupsHeaderAndOffsetFind_ne_outOfFuel fun found _ => ?_
  split
  · simp
  refine Outcome.bind_ne_outOfFuel (Outcome.add_ne_outOfFuel _ _ _) fun startsOffset _ => ?_
  refine Outcome.bind_ne_outOfFuel (Outcome.okOr_ne_outOfFuel _ _) fun segCount _ => ?_
  refine Outcome.bind_ne_outOfFuel (Outcome.add_ne_outOfFuel _ _ _) fun importsOffset _ => ?_
  exact Outcome.bind_ne_outOfFuel (Outcome.add_ne_outOfFuel _ _ _) fun _ _ => by simp

theorem chainedFixupsParseAll_ne_outOfFuel : c.chainedFixupsParseAll ≠ .outOfFuel := by
  refine Outcome.bind_ne_outOfFuel c.fixupTablesFind_ne_outOfFuel fun found _ => ?_
  cases found with
  | none => simp
  | some t => exact c.segmentsParse_ne_outOfFuel _ _ _ _ _ _

/-! ## The parser -/

theorem parseDylibCommand_ne_outOfFuel (offset : Nat)
    (libraries : ArrayVec (Str × Nat) 64) :
    c.parseDylibCommand offset libraries ≠ .outOfFuel := by
  refine Outcome.bind_ne_outOfFuel (Outcome.okOr_ne_outOfFuel _ _) fun dylib _ => ?_
  refine Outcome.bind_ne_outOfFuel (Outcome.add_ne_outOfFuel _ _ _) fun nameOffset _ => ?_
  refine Outcome.bind_ne_outOfFuel (c.deserializeStringAtOffset_ne_outOfFuel _) fun name _ => ?_
  exact libraries.push_ne_outOfFuel _

theorem parseMainCommand_ne_outOfFuel (offset : Nat) (isDylib : Bool) :
    c.parseMainCommand offset isDylib ≠ .outOfFuel := by
  unfold parseMainCommand
  split_ifs
  · simp
  · exact Outcome.bind_ne_outOfFuel (Outcome.okOr_ne_outOfFuel _ _) fun _ _ => by simp

theorem parseRpath_ne_outOfFuel (offset : Nat) : c.parseRpath offset ≠ .outOfFuel := by
  refine Outcome.bind_ne_outOfFuel (Outcome.okOr_ne_outOfFuel _ _) fun rpath _ => ?_
  refine Outcome.bind_ne_outOfFuel (Outcome.add_ne_outOfFuel _ _ _) fun pathOffset _ => ?_
  refine Outcome.bind_ne_outOfFuel (c.deserializeStringAtOffset_ne_outOfFuel _) fun path _ => ?_
  split_ifs
  · simp
  · simp
  · simp
  · simp

theorem readSymbolName_ne_outOfFuel (stroff nStrx : Nat) :
    c.readSymbolName stroff nStrx ≠ .outOfFuel := by
  refine Outcome.bind_ne_outOfFuel (Outcome.add_ne_outOfFuel _ _ _) fun nameOffset _ => ?_
  exact Outcome.bind_ne_outOfFuel (c.deserializeStringAtOffset_ne_outOfFuel _) fun _ _ => by simp

/-- The five flags decide; each of their combinations is a symbol or an error. -/
theorem definedSymbol_ne_outOfFuel (entry : Nlist64)
    (name : ArrayString symbolNameLen) : definedSymbol entry name ≠ .outOfFuel := by
  unfold definedSymbol
  grind

theorem classifySymbol_ne_outOfFuel (stroff : Nat) (entry : Nlist64)
    (symbols : List Symbol) : c.classifySymbol stroff entry symbols ≠ .outOfFuel := by
  have hname := c.readSymbolName_ne_outOfFuel stroff entry.nStrx
  unfold classifySymbol classifyDefinedSymbol classifyUndefinedSymbol
  split_ifs
  · simp
  · refine Outcome.bind_ne_outOfFuel hname fun name _ => ?_
    cases name with
    | none => simp
    | some name =>
      exact Outcome.bind_ne_outOfFuel (definedSymbol_ne_outOfFuel _ _) fun _ _ => by simp
  · simp
  · simp
  · refine Outcome.bind_ne_outOfFuel hname fun name _ => ?_
    cases name with
    | none => simp
    | some name => simp
  · simp

/-- The command counts the entries of the symbol table. -/
theorem symtabLoop_ne_outOfFuel (stroff : Nat) :
    ∀ n nlistOffset symbols, c.symtabLoop stroff n nlistOffset symbols ≠ .outOfFuel := by
  intro n
  induction n with
  | zero => simp [symtabLoop]
  | succ n ih =>
    intro nlistOffset symbols
    refine Outcome.bind_ne_outOfFuel (Outcome.okOr_ne_outOfFuel _ _) fun entry _ => ?_
    exact Outcome.bind_ne_outOfFuel (c.classifySymbol_ne_outOfFuel _ _ _) fun _ _ => ih _ _

theorem parseSymtab_ne_outOfFuel (offset : Nat) (symbols : List Symbol) :
    c.parseSymtab offset symbols ≠ .outOfFuel :=
  Outcome.bind_ne_outOfFuel (Outcome.okOr_ne_outOfFuel _ _) fun _ _ =>
    c.symtabLoop_ne_outOfFuel _ _ _ _

theorem initFuncOffsetsLoop_ne_outOfFuel :
    ∀ n cursor initFunctions, c.initFuncOffsetsLoop n cursor initFunctions ≠ .outOfFuel := by
  intro n
  induction n with
  | zero => simp [initFuncOffsetsLoop]
  | succ n ih =>
    intro cursor initFunctions
    refine Outcome.bind_ne_outOfFuel (Outcome.okOr_ne_outOfFuel _ _) fun func _ => ?_
    exact Outcome.bind_ne_outOfFuel (Outcome.add_ne_outOfFuel _ _ _) fun _ _ => ih _ _

theorem scanSection_ne_outOfFuel (sectionOff : Nat) (found : List Nat × Bool) :
    c.scanSection sectionOff found ≠ .outOfFuel := by
  refine Outcome.bind_ne_outOfFuel (Outcome.okOr_ne_outOfFuel _ _) fun sect _ => ?_
  split_ifs
  · refine Outcome.bind_ne_outOfFuel ?_ fun _ _ => by simp
    exact Outcome.bind_ne_outOfFuel (Outcome.add_ne_outOfFuel _ _ _) fun _ _ =>
      c.initFuncOffsetsLoop_ne_outOfFuel _ _ _
  · simp
  · simp

theorem sectionsLoop_ne_outOfFuel :
    ∀ n sectionOff found, c.sectionsLoop n sectionOff found ≠ .outOfFuel := by
  intro n
  induction n with
  | zero => simp [sectionsLoop]
  | succ n ih =>
    intro sectionOff found
    exact Outcome.bind_ne_outOfFuel (c.scanSection_ne_outOfFuel _ _) fun _ _ => ih _ _

theorem parseSegment_ne_outOfFuel (offset : Nat) (parsed : ParsedImage) :
    c.parseSegment offset parsed ≠ .outOfFuel := by
  refine Outcome.bind_ne_outOfFuel (Outcome.okOr_ne_outOfFuel _ _) fun seg _ => ?_
  refine Outcome.bind_ne_outOfFuel ?_ fun found _ => ?_
  · unfold segmentScan
    split_ifs
    · exact c.sectionsLoop_ne_outOfFuel _ _ _
    · simp
  · exact Outcome.bind_ne_outOfFuel (ArrayVec.push_ne_outOfFuel _ _) fun _ _ => by simp

theorem parseCommand_ne_outOfFuel (cmd : LoadCommandVariants) (offset : Nat)
    (parsed : ParsedImage) : c.parseCommand cmd offset parsed ≠ .outOfFuel := by
  unfold parseCommand
  split
  · exact Outcome.bind_ne_outOfFuel (c.parseDylibCommand_ne_outOfFuel _ _) fun _ _ => by simp
  split
  · exact Outcome.bind_ne_outOfFuel (c.parseMainCommand_ne_outOfFuel _ _) fun _ _ => by simp
  · exact Outcome.bind_ne_outOfFuel (c.parseSymtab_ne_outOfFuel _ _) fun _ _ => by simp
  · exact c.parseSegment_ne_outOfFuel _ _
  · exact Outcome.bind_ne_outOfFuel c.chainedFixupsParseAll_ne_outOfFuel fun _ _ => by simp
  · exact Outcome.bind_ne_outOfFuel (c.parseRpath_ne_outOfFuel _) fun _ _ => by simp
  · simp

theorem parseCommands_ne_outOfFuel :
    ∀ n offset parsed, c.parseCommands n offset parsed ≠ .outOfFuel := by
  intro n
  induction n with
  | zero => simp [parseCommands]
  | succ n ih =>
    intro offset parsed
    refine Outcome.bind_ne_outOfFuel (Outcome.okOr_ne_outOfFuel _ _) fun lc _ => ?_
    refine Outcome.bind_ne_outOfFuel (c.parseCommand_ne_outOfFuel _ _ _) fun parsed' _ => ?_
    exact Outcome.bind_ne_outOfFuel (Outcome.add_ne_outOfFuel _ _ _) fun _ _ => ih _ _

/-- **The parser ends.** -/
theorem machoParser_ne_outOfFuel : c.machoParser ≠ .outOfFuel := by
  refine Outcome.bind_ne_outOfFuel (Outcome.okOr_ne_outOfFuel _ _) fun header _ => ?_
  refine Outcome.bind_ne_outOfFuel ?_ fun isDylib _ => c.parseCommands_ne_outOfFuel _ _ _
  unfold filetypeIsDylib
  split
  · simp
  · simp
  · simp

end Container

/-! ## Applying fixups -/

theorem fixupRegularSymbol_ne_outOfFuel (vmStartPtr fixupOffset pageZeroSize : Nat)
    (symbolName : ArrayString symbolNameLen) (library : Library)
    (dyldSharedCache : Option CacheView) (m : Mem) :
    (fixupRegularSymbol vmStartPtr fixupOffset pageZeroSize symbolName library dyldSharedCache
      m).1 ≠ .outOfFuel := by
  unfold fixupRegularSymbol
  split
  · refine Exec.bind_ne_outOfFuel (DyldSharedCache.symbolResolve_ne_outOfFuel _ _ _) fun _ _ _ => ?_
    refine Exec.bind_ne_outOfFuel (Outcome.okOr_ne_outOfFuel _ _) fun _ _ _ => ?_
    simp
  · refine Exec.bind_ne_outOfFuel (dylibSymbolResolve_ne_outOfFuel _ _) fun _ _ _ => ?_
    refine Exec.bind_ne_outOfFuel (Outcome.okOr_ne_outOfFuel _ _) fun symbol _ _ => ?_
    cases symbol with
    | defined offsetFromMachHeader => simp
    | reexported targetInstallPath targetSymbol => simp
  · simp

theorem fixupOne_ne_outOfFuel (dstPtr pageZeroSize : Nat) (symbols : List Symbol)
    (dylibs : List Library) (dyldSharedCache : Option CacheView) (ignoreBinds : Bool)
    (fixup : Fixup) (m : Mem) :
    (fixupOne dstPtr pageZeroSize symbols dylibs dyldSharedCache ignoreBinds fixup m).1
      ≠ .outOfFuel := by
  unfold fixupOne
  cases fixup.kind with
  | rebase target => simp
  | bind symbolName ordinal isAuth addend =>
    dsimp only
    split_ifs
    · simp
    · simp
    · simp
    · simp
    · exact Exec.bind_ne_outOfFuel (Outcome.okOr_ne_outOfFuel _ _) fun _ _ _ => by simp
    · exact Exec.bind_ne_outOfFuel (Outcome.orPanic_ne_outOfFuel _ _) fun library _ _ =>
        fixupRegularSymbol_ne_outOfFuel _ _ _ _ _ _ _

/-- The fixups are applied one after the other. -/
theorem fixupAllChainedFixups_ne_outOfFuel (dstPtr pageZeroSize : Nat) (symbols : List Symbol)
    (dylibs : List Library) (dyldSharedCache : Option CacheView) (ignoreBinds : Bool) :
    ∀ (fixups : List Fixup) (m : Mem),
      (fixupAllChainedFixups dstPtr pageZeroSize symbols dylibs dyldSharedCache ignoreBinds
        fixups m).1 ≠ .outOfFuel := by
  intro fixups
  induction fixups with
  | nil =>
    intro _
    simp [fixupAllChainedFixups]
  | cons fixup fixups ih =>
    intro m
    exact Exec.bind_ne_outOfFuel (fixupOne_ne_outOfFuel _ _ _ _ _ _ _ _) fun _ _ _ => ih _

/-! ## The steps of the loader -/

theorem dependenciesLoop_ne_outOfFuel (cache : DyldSharedCache) :
    ∀ libraries dependencies, dependenciesLoop cache libraries dependencies ≠ .outOfFuel := by
  intro libraries
  induction libraries with
  | nil =>
    intro _
    simp [dependenciesLoop]
  | cons head rest ih =>
    intro dependencies
    obtain ⟨libName, _⟩ := head
    unfold dependenciesLoop
    split_ifs
    · simp
    · exact Outcome.bind_ne_outOfFuel (dependencies.push_ne_outOfFuel _) fun _ _ => ih _

theorem dependenciesCollect_ne_outOfFuel (parsedImage : ParsedImage) (cache : DyldSharedCache) :
    dependenciesCollect parsedImage cache ≠ .outOfFuel :=
  dependenciesLoop_ne_outOfFuel _ _ _

theorem userDylibDiskPathResolve_ne_outOfFuel (installName : List UInt8) (rpath : Option Rpath)
    (execDir : List UInt8) : userDylibDiskPathResolve installName rpath execDir ≠ .outOfFuel := by
  refine Outcome.bind_ne_outOfFuel ?_ fun resolved _ => by simp
  unfold placeholderResolve
  split
  · split
    · simp
    · simp
    · simp
    · simp
  split
  · simp
  split
  · simp
  · simp

theorem segmentsBounds_ne_outOfFuel :
    ∀ (segments : List Segment) (bounds : Nat × Nat), segmentsBounds segments bounds ≠ .outOfFuel := by
  intro segments
  induction segments with
  | nil =>
    intro _
    simp [segmentsBounds]
  | cons s rest ih =>
    rintro ⟨lo, hi⟩
    exact Outcome.bind_ne_outOfFuel (Outcome.add_ne_outOfFuel _ _ _) fun _ _ => ih _

section

variable (host : Host) (w : World)

theorem diskPathMmap_ne_outOfFuel (path : List UInt8) :
    (diskPathMmap host path w).1 ≠ .outOfFuel := by
  refine Exec.bind_ne_outOfFuel (Outcome.okOr_ne_outOfFuel _ _) fun bytes _ _ => ?_
  split_ifs
  · simp
  · simp
  · refine Exec.bind_ne_outOfFuel (Outcome.okOr_ne_outOfFuel _ _) fun address _ _ => ?_
    split_ifs
    · simp
    · simp

/-- The copies write memory, which never fails. -/
theorem machoSegmentsMapToVm_ne_outOfFuel (dylibDir : Option (List UInt8))
    (image : MappedContainer) (segments : List Segment) :
    (machoSegmentsMapToVm host dylibDir image segments w).1 ≠ .outOfFuel := by
  have halloc : ∀ size w, (vmAllocTaskSelf host dylibDir size w).1 ≠ .outOfFuel := by
    intro size w
    refine Exec.bind_ne_outOfFuel (Outcome.okOr_ne_outOfFuel _ _) fun address _ _ => ?_
    split_ifs
    · simp
    · simp
  refine Exec.bind_ne_outOfFuel (segmentsBounds_ne_outOfFuel _ _) fun bounds w₁ _ => ?_
  refine Exec.bind_ne_outOfFuel (Outcome.sub_ne_outOfFuel _ _) fun vmSize w₂ _ => ?_
  refine Exec.bind_ne_outOfFuel (halloc vmSize w₂) fun vm w₃ _ => ?_
  refine Exec.bind_ne_outOfFuel ?_ fun _ _ _ => by simp
  rw [segmentsCopy_run]
  simp

theorem machoSegmentsVmProtect_ne_outOfFuel (vm : Nat) : ∀ (segments : List Segment) (w : World),
    (machoSegmentsVmProtect host vm segments w).1 ≠ .outOfFuel := by
  intro segments
  induction segments with
  | nil =>
    intro _
    simp [machoSegmentsVmProtect]
  | cons seg rest ih =>
    intro w
    refine Exec.bind_ne_outOfFuel (by simp) fun agreed w₁ _ => ?_
    split_ifs
    · exact ih w₁
    · simp

/-- The initializers are code of the image: a call of one is a step of the trace. -/
theorem imageFinalize_ne_outOfFuel (dylibDir : Option (List UInt8)) (vm : Nat)
    (parsedImage : ParsedImage) :
    (imageFinalize host dylibDir vm parsedImage w).1 ≠ .outOfFuel := by
  refine Exec.bind_ne_outOfFuel ?_ fun _ w₁ _ => ?_
  · unfold imageTlvInitialize machoTlvInitialize
    split_ifs
    · simp
    · simp
  · refine Exec.bind_ne_outOfFuel (machoSegmentsVmProtect_ne_outOfFuel host vm _ _)
      fun _ w₂ _ => ?_
    obtain ⟨mem, hinit⟩ := @machoInitFunctionsExec_run host dylibDir vm
      parsedImage.initFunctions w₂
    rw [hinit]
    simp

end

theorem imageFixupsApply_ne_outOfFuel (dylibDir : Option (List UInt8)) (vm : Nat)
    (parsedImage : ParsedImage) (dependencies : List Library) (cache : DyldSharedCache)
    (w : World) :
    (imageFixupsApply dylibDir vm parsedImage dependencies cache w).1 ≠ .outOfFuel :=
  Exec.bind_ne_outOfFuel (fixupAllChainedFixups_ne_outOfFuel _ _ _ _ _ _ _ _) fun _ _ _ => by simp

end Dynld
