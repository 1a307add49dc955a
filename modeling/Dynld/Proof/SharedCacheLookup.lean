import Dynld.SharedCache

/-!
# Symbol lookup in the cache answers the question it is asked

A question is a library and a symbol. A library's trie either answers it, passes it
on to another library under a name of its choosing, or says nothing; in that last
case every library it is an umbrella over is asked in turn.

The questions form a graph whose edges are those two kinds of steps, and the lookup
is a search of that graph to a depth of `maxReexportResolutionDepth`. Everything
about the order of the search, its early exits and its budget is in the rules of
`Search`; what is left to do here is to say what is at one node.
-/

namespace Dynld

/-- Which address does this library give this symbol? -/
structure Question where
  libraryPath : List UInt8
  symbol : List UInt8
  deriving DecidableEq, Repr

namespace DyldSharedCache

variable (cache : DyldSharedCache)

/-! ## Definitions and chains -/

/-- The library's own trie has this terminal for the symbol. -/
def TrieSays (library : SharedCacheLibrary) (image : MachOImage) (symbol : List UInt8)
    (terminal : ExportTerminal) : Prop :=
  cache.imageViewForLibrary library = .ok image ∧
  ∃ trieBytes, cache.exportsTrieBytesFind image = .ok (some trieBytes) ∧
    exportsTrieWalkForSymbol trieBytes symbol = .ok (some terminal)

/-- The library has the symbol, at this address. -/
def Defines (q : Question) (address : Nat) : Prop :=
  ∃ library image offsetFromMachHeader,
    cache.libraryFindByInstallPath q.libraryPath = some library ∧
    cache.TrieSays library image q.symbol (.definedHere offsetFromMachHeader) ∧
    address = library.unslidLoadAddress + offsetFromMachHeader + cache.cacheSlide

/-- The library passes the question on. -/
inductive PassesOn : Question → Question → Prop where
  /-- Its trie names a dependency, which may know the symbol by another name. -/
  | trie {path symbol target aliasedName : List UInt8} {library : SharedCacheLibrary}
      {image : MachOImage} {dependencyOrdinal : Nat} :
      cache.libraryFindByInstallPath path = some library →
      cache.TrieSays library image symbol
        (.reexportedFromDependency dependencyOrdinal aliasedName) →
      image.dylibInstallPathForOrdinal dependencyOrdinal = .ok (some target) →
      PassesOn ⟨path, symbol⟩ ⟨target, if aliasedName = [] then symbol else aliasedName⟩
  /-- Its trie says nothing, and it is an umbrella over the target. -/
  | umbrella {path symbol target : List UInt8} {library : SharedCacheLibrary}
      {paths : List (List UInt8)} :
      cache.libraryFindByInstallPath path = some library →
      cache.tryResolveViaExportsTrie library symbol = .ok none →
      cache.umbrellaPaths library = .ok paths → target ∈ paths →
      PassesOn ⟨path, symbol⟩ ⟨target, symbol⟩

/-- No sub-lookup fails at this question. -/
def Answers (q : Question) : Prop :=
  ∀ library, cache.libraryFindByInstallPath q.libraryPath = some library →
    ∃ resolution, cache.tryResolveViaExportsTrie library q.symbol = .ok resolution ∧
      (resolution = none → ∃ paths, cache.umbrellaPaths library = .ok paths)

/-! ## One node of the search -/

/-- What the lookup finds at a question. -/
def look (q : Question) : Outcome (Search.Found Question Nat) :=
  match cache.libraryFindByInstallPath q.libraryPath with
  | none => .ok .nothing
  | some library => do
      match ← cache.tryResolveViaExportsTrie library q.symbol with
      | some (.address runtimeAddress) => .ok (.answer runtimeAddress)
      | some (.followReexport target targetSymbol) => .ok (.follow ⟨target, targetSymbol⟩)
      | none => do
          let paths ← cache.umbrellaPaths library
          .ok (.tryEach (paths.map fun path => ⟨path, q.symbol⟩))

/-- What is found at a question, told by its sub-lookups. -/
inductive Looked (q : Question) : Search.Found Question Nat → Prop where
  /-- There is no such library. -/
  | missing : cache.libraryFindByInstallPath q.libraryPath = none → Looked q .nothing
  /-- Its trie has the symbol. -/
  | address {library : SharedCacheLibrary} {a : Nat} :
      cache.libraryFindByInstallPath q.libraryPath = some library →
      cache.tryResolveViaExportsTrie library q.symbol = .ok (some (.address a)) →
      Looked q (.answer a)
  /-- Its trie names a dependency. -/
  | reexport {library : SharedCacheLibrary} {target targetSymbol : List UInt8} :
      cache.libraryFindByInstallPath q.libraryPath = some library →
      cache.tryResolveViaExportsTrie library q.symbol
        = .ok (some (.followReexport target targetSymbol)) →
      Looked q (.follow ⟨target, targetSymbol⟩)
  /-- Its trie says nothing. -/
  | umbrella {library : SharedCacheLibrary} {paths : List (List UInt8)} :
      cache.libraryFindByInstallPath q.libraryPath = some library →
      cache.tryResolveViaExportsTrie library q.symbol = .ok none →
      cache.umbrellaPaths library = .ok paths →
      Looked q (.tryEach (paths.map fun path => ⟨path, q.symbol⟩))

variable {cache} {library : SharedCacheLibrary} {symbol : List UInt8} {q : Question}

theorem unslidAddressToRuntimePointerTranslate_eq_ok {unslidVmAddress a : Nat}
    (h : cache.unslidAddressToRuntimePointerTranslate unslidVmAddress = .ok a) :
    a = unslidVmAddress + cache.cacheSlide := by
  obtain ⟨located, -, ht⟩ := Outcome.bind_eq_ok.mp h
  cases located with
  | none => simp at ht
  | some found => exact (Outcome.add_eq_ok.mp ht).2

/-- The trie gives a resolution only through a terminal. -/
theorem tryResolveViaExportsTrie_eq_some {resolution : TrieResolution}
    (h : cache.tryResolveViaExportsTrie library symbol = .ok (some resolution)) :
    ∃ image terminal, cache.TrieSays library image symbol terminal ∧
      cache.terminalResolve library image symbol terminal = .ok (some resolution) := by
  obtain ⟨image, himage, h⟩ := Outcome.bind_eq_ok.mp h
  obtain ⟨found, htrie, h⟩ := Outcome.bind_eq_ok.mp h
  cases found with
  | none => simp at h
  | some trieBytes =>
      obtain ⟨walked, hwalk, h⟩ := Outcome.bind_eq_ok.mp h
      cases walked with
      | none => simp at h
      | some terminal => exact ⟨image, terminal, ⟨himage, trieBytes, htrie, hwalk⟩, h⟩

theorem tryResolveViaExportsTrie_of_trieSays {image : MachOImage} {terminal : ExportTerminal}
    (h : cache.TrieSays library image symbol terminal) :
    cache.tryResolveViaExportsTrie library symbol
      = cache.terminalResolve library image symbol terminal := by
  obtain ⟨himage, trieBytes, htrie, hwalk⟩ := h
  rw [tryResolveViaExportsTrie, himage, Outcome.ok_bind, htrie, Outcome.ok_bind]
  show (exportsTrieWalkForSymbol trieBytes symbol >>= _) = _
  rw [hwalk, Outcome.ok_bind]

theorem terminalResolve_eq_address {image : MachOImage} {terminal : ExportTerminal} {a : Nat}
    (h : cache.terminalResolve library image symbol terminal = .ok (some (.address a))) :
    ∃ offset, terminal = .definedHere offset ∧
      a = library.unslidLoadAddress + offset + cache.cacheSlide := by
  cases terminal with
  | definedHere offset =>
      obtain ⟨unslid, hadd, h⟩ := Outcome.bind_eq_ok.mp h
      obtain ⟨address, htranslate, h⟩ := Outcome.bind_eq_ok.mp h
      have ha : address = a := by simpa using h
      refine ⟨offset, rfl, ?_⟩
      rw [← ha, unslidAddressToRuntimePointerTranslate_eq_ok htranslate,
        (Outcome.add_eq_ok.mp hadd).2]
  | reexportedFromDependency ordinal aliasedName =>
      obtain ⟨target, -, h⟩ := Outcome.bind_eq_ok.mp h
      cases target <;> simp at h

theorem terminalResolve_eq_followReexport {image : MachOImage} {terminal : ExportTerminal}
    {target targetSymbol : List UInt8}
    (h : cache.terminalResolve library image symbol terminal
      = .ok (some (.followReexport target targetSymbol))) :
    ∃ ordinal aliasedName, terminal = .reexportedFromDependency ordinal aliasedName ∧
      image.dylibInstallPathForOrdinal ordinal = .ok (some target) ∧
      targetSymbol = if aliasedName = [] then symbol else aliasedName := by
  cases terminal with
  | definedHere offset =>
      obtain ⟨unslid, -, h⟩ := Outcome.bind_eq_ok.mp h
      obtain ⟨address, -, h⟩ := Outcome.bind_eq_ok.mp h
      simp at h
  | reexportedFromDependency ordinal aliasedName =>
      obtain ⟨path, hpath, h⟩ := Outcome.bind_eq_ok.mp h
      cases path with
      | none => simp at h
      | some path =>
          have he : path = target ∧ (if aliasedName = [] then symbol else aliasedName)
              = targetSymbol := by simpa using h
          exact ⟨ordinal, aliasedName, rfl, by rw [hpath, he.1], he.2.symm⟩

/-! ## Nodes and questions -/

theorem look_eq_ok_iff {found : Search.Found Question Nat} :
    cache.look q = .ok found ↔ cache.Looked q found := by
  constructor
  · intro h
    unfold look at h
    split at h
    · rename_i hlib
      obtain rfl := Outcome.ok.inj h
      exact .missing hlib
    · rename_i library hlib
      obtain ⟨resolution, hres, h⟩ := Outcome.bind_eq_ok.mp h
      cases resolution with
      | none =>
          obtain ⟨paths, hpaths, h⟩ := Outcome.bind_eq_ok.mp h
          obtain rfl := Outcome.ok.inj h
          exact .umbrella hlib hres hpaths
      | some resolution =>
          cases resolution with
          | address a =>
              obtain rfl := Outcome.ok.inj h
              exact .address hlib hres
          | followReexport target targetSymbol =>
              obtain rfl := Outcome.ok.inj h
              exact .reexport hlib hres
  · intro h
    cases h with
    | missing hlib => rw [look, hlib]
    | address hlib hres =>
        rw [look, hlib]
        exact Outcome.bind_eq_ok.mpr ⟨_, hres, rfl⟩
    | reexport hlib hres =>
        rw [look, hlib]
        exact Outcome.bind_eq_ok.mpr ⟨_, hres, rfl⟩
    | umbrella hlib hres hpaths =>
        rw [look, hlib]
        exact Outcome.bind_eq_ok.mpr ⟨_, hres, Outcome.bind_eq_ok.mpr ⟨_, hpaths, rfl⟩⟩

/-- An answer at a node is a definition. -/
theorem defines_of_look {a : Nat} (h : cache.look q = .ok (.answer a)) : cache.Defines q a := by
  cases look_eq_ok_iff.mp h with
  | @address library _ hlib hres =>
      obtain ⟨image, terminal, hsays, hterm⟩ := tryResolveViaExportsTrie_eq_some hres
      obtain ⟨offset, rfl, ha⟩ := terminalResolve_eq_address hterm
      exact ⟨library, image, offset, hlib, hsays, ha⟩

/-- A node that was looked at in vain has no definition. -/
theorem not_defines_of_look {found : Search.Found Question Nat} (h : cache.look q = .ok found)
    (hnot : ∀ a, found ≠ .answer a) (a : Nat) : ¬ cache.Defines q a := by
  rintro ⟨library, image, offset, hlib, hsays, -⟩
  rw [look, hlib] at h
  obtain ⟨resolution, hres, h⟩ := Outcome.bind_eq_ok.mp h
  rw [tryResolveViaExportsTrie_of_trieSays hsays] at hres
  obtain ⟨unslid, -, hres⟩ := Outcome.bind_eq_ok.mp hres
  obtain ⟨address, -, hres⟩ := Outcome.bind_eq_ok.mp hres
  obtain rfl : some (.address address) = resolution := by simpa using hres
  exact hnot address (by simpa using h.symm)

/-- The edges of the search are the steps of a question. -/
theorem edge_iff_passesOn {q q' : Question} :
    Search.Edge cache.look q q' ↔ cache.PassesOn q q' := by
  constructor
  · rintro (h | ⟨qs, h, hq'⟩)
    · cases look_eq_ok_iff.mp h with
      | reexport hlib hres =>
          obtain ⟨image, terminal, hsays, hterm⟩ := tryResolveViaExportsTrie_eq_some hres
          obtain ⟨ordinal, aliasedName, rfl, hpath, rfl⟩ := terminalResolve_eq_followReexport hterm
          exact .trie hlib hsays hpath
    · cases look_eq_ok_iff.mp h with
      | umbrella hlib hres hpaths =>
          obtain ⟨path, hpath, rfl⟩ := List.mem_map.mp hq'
          exact .umbrella hlib hres hpaths hpath
  · intro h
    cases h with
    | @trie path symbol target aliasedName library image ordinal hlib hsays hpath =>
        refine .inl (look_eq_ok_iff.mpr (.reexport hlib ?_))
        rw [tryResolveViaExportsTrie_of_trieSays hsays, terminalResolve, hpath]
        rfl
    | @umbrella path symbol target library paths hlib htrie hpaths hmem =>
        exact .inr ⟨_, look_eq_ok_iff.mpr (.umbrella hlib htrie hpaths),
          List.mem_map.mpr ⟨_, hmem, rfl⟩⟩

theorem look_ok (h : cache.Answers q) : ∃ found, cache.look q = .ok found := by
  cases hlib : cache.libraryFindByInstallPath q.libraryPath with
  | none => exact ⟨_, look_eq_ok_iff.mpr (.missing hlib)⟩
  | some library =>
      obtain ⟨resolution, hres, humbrella⟩ := h library hlib
      cases resolution with
      | none =>
          obtain ⟨paths, hpaths⟩ := humbrella rfl
          exact ⟨_, look_eq_ok_iff.mpr (.umbrella hlib hres hpaths)⟩
      | some resolution =>
          cases resolution with
          | address a => exact ⟨_, look_eq_ok_iff.mpr (.address hlib hres)⟩
          | followReexport target targetSymbol =>
              exact ⟨_, look_eq_ok_iff.mpr (.reexport hlib hres)⟩

theorem answers_of_look {found : Search.Found Question Nat} (h : cache.look q = .ok found) :
    cache.Answers q := by
  intro library hlib
  rw [look, hlib] at h
  obtain ⟨resolution, hres, h⟩ := Outcome.bind_eq_ok.mp h
  refine ⟨resolution, hres, ?_⟩
  rintro rfl
  obtain ⟨paths, hpaths, -⟩ := Outcome.bind_eq_ok.mp h
  exact ⟨paths, hpaths⟩

/-! ## The lookup is a search -/

theorem symbolResolveWithMaxDepth_eq_search : ∀ (depthBudget : Nat) (path symbol : List UInt8),
    cache.symbolResolveWithMaxDepth depthBudget path symbol
      = Search.search cache.look depthBudget ⟨path, symbol⟩ := by
  intro depthBudget
  induction depthBudget with
  | zero =>
    intro _ _
    rfl
  | succ depthBudget ih =>
    intro path symbol
    rw [symbolResolveWithMaxDepth, Search.search, look]
    cases cache.libraryFindByInstallPath path with
    | none => rfl
    | some library =>
        show (cache.tryResolveViaExportsTrie library symbol >>= _)
          = (cache.tryResolveViaExportsTrie library symbol >>= _) >>= _
        rw [Outcome.bind_assoc]
        congr 1
        funext resolution
        cases resolution with
        | some resolution =>
            cases resolution with
            | address a => rfl
            | followReexport target targetSymbol => exact ih target targetSymbol
        | none =>
            show (cache.umbrellaPaths library >>= _) = (cache.umbrellaPaths library >>= _) >>= _
            rw [Outcome.bind_assoc]
            congr 1
            funext paths
            show _ = Search.first _ (paths.map _)
            rw [Search.first_map]
            congr 1
            funext target
            exact ih target symbol

/-- **Symbol lookup in the cache.** It returns whenever no sub-lookup within its reach
fails. An address it returns is that of a definition that a chain of fewer than
`maxReexportResolutionDepth` steps leads to; and when it returns none, no such chain
leads to any. -/
theorem symbolResolve_correct (cache : DyldSharedCache) (path symbol : List UInt8) :
    ((∀ k < maxReexportResolutionDepth, ∀ q,
        Search.Walk cache.PassesOn k ⟨path, symbol⟩ q → cache.Answers q) →
      ∃ r, cache.symbolResolve path symbol = .ok r) ∧
    (∀ a, cache.symbolResolve path symbol = .ok (some a) →
      ∃ k < maxReexportResolutionDepth, ∃ q,
        Search.Walk cache.PassesOn k ⟨path, symbol⟩ q ∧ cache.Defines q a) ∧
    (cache.symbolResolve path symbol = .ok none →
      ∀ k < maxReexportResolutionDepth, ∀ q,
        Search.Walk cache.PassesOn k ⟨path, symbol⟩ q → ∀ a, ¬ cache.Defines q a) := by
  rw [symbolResolve, symbolResolveWithMaxDepth_eq_search]
  refine ⟨?_, ?_, ?_⟩
  · intro hanswers
    refine Search.search_ok fun k hk q hwalk => look_ok (hanswers k hk q ?_)
    exact hwalk.mono fun _ _ => edge_iff_passesOn.mp
  · intro a h
    obtain ⟨k, hk, q, hwalk, hlook⟩ := Search.search_eq_some h
    exact ⟨k, hk, q, hwalk.mono fun _ _ => edge_iff_passesOn.mp, defines_of_look hlook⟩
  · intro h k hk q hwalk a
    obtain ⟨found, hlook, hnot⟩ :=
      Search.search_eq_none h hk (hwalk.mono fun _ _ => edge_iff_passesOn.mpr)
    exact not_defines_of_look hlook hnot a

/-! ## A small cache

`/a` defines `_g` and is an umbrella over `/b`; the trie of `/b` has `_f`, which it
passes back to `/a` as `_g`. -/

/-- A Mach header with three load commands: a segment, an exports trie and a dylib. -/
def sampleLibraryImage (trieOffset trieSize dylibCmd : Nat) (dylibName : String) : List UInt8 :=
  Bytes.encodeFields .little
    [(4, 0xfeedfacf), (4, 0x0100000c), (4, 0), (4, 6), (4, 3), (4, 120), (4, 0), (4, 0),
     (4, 0x19), (4, 72)]
  ++ ascii "__LINKEDIT" ++ List.replicate 6 0
  ++ Bytes.encodeFields .little
    [(8, 0x1000), (8, 359), (8, 0), (8, 359), (4, 1), (4, 1), (4, 0), (4, 0),
     (4, 0x80000033), (4, 16), (4, trieOffset), (4, trieSize),
     (4, dylibCmd), (4, 32), (4, 24), (4, 0), (4, 0), (4, 0)]
  ++ ascii dylibName ++ List.replicate 6 0

def sampleCache : DyldSharedCache where
  subCaches :=
    [{ container :=
        { data := Bytes.encodeFields .little [(8, 0x1000), (8, 359), (8, 0), (4, 1), (4, 1)]
            ++ sampleLibraryImage 336 10 0x8000001f "/b"
            ++ sampleLibraryImage 346 13 0xc "/a"
            ++ [0, 1, 0x5f, 0x67, 0, 6, 2, 0, 4, 0]
            ++ [0, 1, 0x5f, 0x66, 0, 6, 5, 8, 1, 0x5f, 0x67, 0, 0]
          endian := .little }
       unslidBaseVmAddress := 0x1000
       mappingTableOffset := 0
       mappingTableEntryCount := 1 }]
  libraries :=
    [⟨0, 32, ascii "/a", 0x1020⟩, ⟨0, 184, ascii "/b", 0x10b8⟩]
  cacheSlide := 0x100000

/-- From `_f` of `/b` the lookup can only get to `_g` of `/a`. -/
theorem sampleCache_answers {k : Nat} {q : Question}
    (hwalk : Search.Walk sampleCache.PassesOn k ⟨ascii "/b", ascii "_f"⟩ q) :
    sampleCache.Answers q := by
  have hb : sampleCache.look ⟨ascii "/b", ascii "_f"⟩ = .ok (.follow ⟨ascii "/a", ascii "_g"⟩) := by
    decide +kernel
  have ha : sampleCache.look ⟨ascii "/a", ascii "_g"⟩ = .ok (.answer 0x101024) := by
    decide +kernel
  cases hwalk with
  | refl => exact answers_of_look hb
  | cons hstep hrest =>
      rcases edge_iff_passesOn.mpr hstep with h | ⟨qs, h, -⟩
      · obtain rfl : (⟨ascii "/a", ascii "_g"⟩ : Question) = _ := by simpa [hb] using h
        cases hrest with
        | refl => exact answers_of_look ha
        | cons hstep _ =>
            rcases edge_iff_passesOn.mpr hstep with h | ⟨qs, h, -⟩
            · exact absurd (ha.symm.trans h) (by simp)
            · exact absurd (ha.symm.trans h) (by simp)
      · exact absurd (hb.symm.trans h) (by simp)

theorem sampleCache_resolves :
    (∃ r, sampleCache.symbolResolve (ascii "/b") (ascii "_f") = .ok r) ∧
    (∃ k < maxReexportResolutionDepth, ∃ q,
      Search.Walk sampleCache.PassesOn k ⟨ascii "/a", ascii "_f"⟩ q ∧
      sampleCache.Defines q 0x101024) ∧
    (∀ k < maxReexportResolutionDepth, ∀ q,
      Search.Walk sampleCache.PassesOn k ⟨ascii "/a", ascii "_h"⟩ q →
      ∀ a, ¬ sampleCache.Defines q a) :=
  ⟨(symbolResolve_correct sampleCache (ascii "/b") (ascii "_f")).1
      fun _ _ _ hwalk => sampleCache_answers hwalk,
    (symbolResolve_correct sampleCache (ascii "/a") (ascii "_f")).2.1 _ (by decide +kernel),
    (symbolResolve_correct sampleCache (ascii "/a") (ascii "_h")).2.2 (by decide +kernel)⟩

end DyldSharedCache

end Dynld
