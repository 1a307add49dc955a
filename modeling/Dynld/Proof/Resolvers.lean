import Dynld.Proof.DylibImages

/-!
# Two resolvers for the same images

A symbol of a dylib on disk is looked up by a loop, and one of a cached library by a
recursion with a depth budget. Both ask the same dylibs, follow the re-exports that
their tries name and give up after as many of them. The recursion has one branch more:
where a trie says nothing, it tries the libraries that the dylib re-exports as a whole.
The loop never reads these commands.

So the loop goes along the named re-exports, and the two agree if there is nothing to be
found behind the last of them: see `resolversAgree_idle`. What there is to be found is
a matter of the dylibs: of the definitions in their tries and of how they re-export one
another.
-/

namespace Dynld

open Search (Walk Follows Finds)

/-! ## The images -/

/-- The dylib with each install path. -/
abbrev Images : Type := List UInt8 → Option DylibImage

namespace Images

variable (images : Images)

/-- What the library itself says of the symbol. -/
def Answer (q : Question) (found : Option DylibSymbol) : Prop :=
  ∃ d, images q.libraryPath = some d ∧ d.answer q.symbol = .ok found

/-- It defines the symbol, at this offset from its Mach header. -/
def Defines (q : Question) (offset : Nat) : Prop := images.Answer q (some (.defined offset))

/-- Its trie names another library for the symbol, perhaps under another name. -/
def Reexports (q q' : Question) : Prop :=
  images.Answer q (some (.reexported q'.libraryPath q'.symbol))

/-- Its trie says nothing of the symbol. -/
def Silent (q : Question) : Prop := images.Answer q none

/-- The libraries that are to be asked next, by the trie or because the trie says nothing and the
library re-exports them as a whole. -/
inductive AsksOn : Question → Question → Prop where
  | trie {q q' : Question} : images.Reexports q q' → AsksOn q q'
  | umbrella {path symbol target : List UInt8} {d : DylibImage} : images path = some d →
      d.answer symbol = .ok none → target ∈ d.umbrella → AsksOn ⟨path, symbol⟩ ⟨target, symbol⟩

/-- The lookup maps each install path to a file with the dylib. -/
def OnDisk (libraryLookup : List UInt8 → Option Container) : Prop :=
  ∀ path, Option.Rel DylibImage.OnDisk (images path) (libraryLookup path)

/-- The cache has the same dylibs. -/
def Cached (cache : DyldSharedCache) : Prop :=
  ∀ path, Option.Rel (fun d library => cache.HasImage library d) (images path)
    (cache.libraryFindByInstallPath path)

variable {images} {q q' : Question}

theorem Answer.unique {found found' : Option DylibSymbol} (h : images.Answer q found)
    (h' : images.Answer q found') : found' = found := by
  obtain ⟨d, hd, hanswer⟩ := h
  obtain ⟨d', hd', hanswer'⟩ := h'
  obtain rfl := Option.some.inj (hd.symm.trans hd')
  exact Outcome.ok.inj (hanswer'.symm.trans hanswer)

theorem Reexports.unique {q'' : Question} (h : images.Reexports q q')
    (h' : images.Reexports q q'') : q'' = q' := by
  obtain ⟨hpath, hsymbol⟩ := DylibSymbol.reexported.inj (Option.some.inj (Answer.unique h h'))
  cases q'
  cases q''
  exact congr (congrArg Question.mk hpath) hsymbol

theorem Defines.image {offset : Nat} (h : images.Defines q offset) :
    ∃ d, images q.libraryPath = some d :=
  let ⟨d, hd, _⟩ := h
  ⟨d, hd⟩

end Images

namespace DyldSharedCache

/-- The path that the loop returns for a library: the first one has none. -/
def NamedFrom (start path : List UInt8) (p : List UInt8) : Prop :=
  p = path ∨ p = [] ∧ path = start

/-- The loop and the recursion find the same definition, or none. -/
structure ResolversAgree (cache : DyldSharedCache) (libraryLookup : List UInt8 → Option Container)
    (start : List UInt8) (container : Container) (symbol : List UInt8) : Prop where
  /-- What the loop finds, the recursion does: the address is that of the library and the
  offset. -/
  cached : ∀ p offset,
    dylibSymbolResolveFollowingReexports container symbol libraryLookup = .ok (some (p, offset)) →
    ∃ path library, NamedFrom start path p ∧
      cache.libraryFindByInstallPath path = some library ∧
      cache.symbolResolve start symbol
        = .ok (some (library.unslidLoadAddress + offset + cache.cacheSlide))
  /-- What the recursion finds, the loop does. -/
  onDisk : ∀ address, cache.symbolResolve start symbol = .ok (some address) →
    ∃ path library p offset, NamedFrom start path p ∧
      cache.libraryFindByInstallPath path = some library ∧
      address = library.unslidLoadAddress + offset + cache.cacheSlide ∧
      dylibSymbolResolveFollowingReexports container symbol libraryLookup = .ok (some (p, offset))

/-- A mapping of the cache has the address, and its runtime address is a 64-bit one. -/
def Maps (cache : DyldSharedCache) (address : Nat) : Prop :=
  (∃ subcacheIndex subcache offset, cache.LocatedAt address subcacheIndex subcache offset) ∧
    address + cache.cacheSlide < 2 ^ 64

/-- There is nothing to be found behind the re-exports that the tries name: the library that the
chain ends at defines the symbol and the cache maps the definition, or its trie says nothing, and
then none of the libraries that can be asked on from there defines what it is asked for. -/
structure UmbrellasIdle (cache : DyldSharedCache) (images : Images) (q : Question) : Prop where
  mapped : ∀ k < maxReexportResolutionDepth, ∀ q', Walk images.Reexports k q q' →
    ∀ library offset, cache.libraryFindByInstallPath q'.libraryPath = some library →
      images.Defines q' offset →
      library.unslidLoadAddress + offset < 2 ^ 64 ∧
        cache.Maps (library.unslidLoadAddress + offset)
  idle : ∀ k < maxReexportResolutionDepth, ∀ q', Walk images.Reexports k q q' →
    images.Silent q' → ∀ j < maxReexportResolutionDepth - k, ∀ q'', Walk images.AsksOn j q' q'' →
      ∀ offset, ¬ images.Defines q'' offset

variable {cache : DyldSharedCache} {images : Images}
  {libraryLookup : List UInt8 → Option Container} {library : SharedCacheLibrary}
  {container : Container} {symbol : List UInt8} {q q' : Question}

/-! ## One node of the search -/

/-- The library itself defines the symbol, at this offset from its Mach header. -/
def DefinesAt (cache : DyldSharedCache) (q : Question) (library : SharedCacheLibrary)
    (offset : Nat) : Prop :=
  cache.libraryFindByInstallPath q.libraryPath = some library ∧
    ∃ image, cache.TrieSays library image q.symbol (.definedHere offset)

/-- A definition is looked at with its address, if the address can be translated. -/
theorem DefinesAt.look_eq {offset : Nat} (h : cache.DefinesAt q library offset) :
    cache.look q = (do
      let symbolUnslidAddress ← Outcome.add 64 library.unslidLoadAddress offset
      let address ← cache.unslidAddressToRuntimePointerTranslate symbolUnslidAddress
      .ok (.answer address)) := by
  obtain ⟨hlib, image, hsays⟩ := h
  rw [look, hlib]
  show (cache.tryResolveViaExportsTrie library q.symbol >>= _) = _
  rw [tryResolveViaExportsTrie_of_trieSays hsays, terminalResolve, Outcome.bind_assoc]
  congr 1
  funext symbolUnslidAddress
  rw [Outcome.bind_assoc]
  rfl

theorem DefinesAt.look_eq_ok {offset : Nat} {found : Search.Found Question Nat}
    (h : cache.DefinesAt q library offset) (hlook : cache.look q = .ok found) :
    library.unslidLoadAddress + offset < 2 ^ 64 ∧
      found = .answer (library.unslidLoadAddress + offset + cache.cacheSlide) ∧
      cache.unslidAddressToRuntimePointerTranslate (library.unslidLoadAddress + offset)
        = .ok (library.unslidLoadAddress + offset + cache.cacheSlide) := by
  rw [h.look_eq] at hlook
  obtain ⟨unslid, hadd, hlook⟩ := Outcome.bind_eq_ok.mp hlook
  obtain ⟨address, htranslate, hlook⟩ := Outcome.bind_eq_ok.mp hlook
  obtain ⟨hlt, rfl⟩ := Outcome.add_eq_ok.mp hadd
  obtain rfl := unslidAddressToRuntimePointerTranslate_eq_ok htranslate
  exact ⟨hlt, (Outcome.ok.inj hlook).symm, htranslate⟩

theorem image_of_cached (h : images.Cached cache) {path : List UInt8}
    (hlib : cache.libraryFindByInstallPath path = some library) :
    ∃ d, images path = some d ∧ cache.HasImage library d := by
  have hrel := h path
  rw [hlib] at hrel
  exact exists_of_rel_some_right hrel

theorem library_of_cached (h : images.Cached cache) {path : List UInt8} {d : DylibImage}
    (himage : images path = some d) :
    ∃ library, cache.libraryFindByInstallPath path = some library ∧ cache.HasImage library d := by
  have hrel := h path
  rw [himage] at hrel
  exact exists_of_rel_some_left hrel

/-- A library has the definitions that the dylib has. -/
theorem definesAt_iff (h : images.Cached cache) {offset : Nat}
    (hlib : cache.libraryFindByInstallPath q.libraryPath = some library) :
    cache.DefinesAt q library offset ↔ images.Defines q offset := by
  obtain ⟨d, hd, himage⟩ := image_of_cached h hlib
  obtain ⟨image, hfound⟩ := himage.trieFoundIn
  constructor
  · rintro ⟨-, image', htrie⟩
    exact ⟨d, hd, DylibImage.answer_eq_defined_iff.mpr (hfound.trieSays_iff.mp htrie).2⟩
  · rintro ⟨d', hd', hanswer⟩
    obtain rfl := Option.some.inj (hd.symm.trans hd')
    exact ⟨hlib, image, hfound.trieSays_iff.mpr
      ⟨rfl, DylibImage.answer_eq_defined_iff.mp hanswer⟩⟩

/-- The search only follows the re-exports that the tries name. -/
theorem follows_iff (h : images.Cached cache) :
    Follows cache.look q q' ↔ images.Reexports q q' := by
  constructor
  · intro hfollows
    cases look_eq_ok_iff.mp hfollows with
    | @reexport library target targetSymbol hlib hresolve =>
        obtain ⟨d, hd, himage⟩ := image_of_cached h hlib
        exact ⟨d, hd, himage.followReexport_iff.mp hresolve⟩
  · rintro ⟨d, hd, hanswer⟩
    obtain ⟨library, hlib, himage⟩ := library_of_cached h hd
    exact look_eq_ok_iff.mpr (.reexport hlib (himage.followReexport_iff.mpr hanswer))

/-- Where the search tries several libraries, the trie says nothing. -/
theorem silent_of_tryEach (h : images.Cached cache) {questions : List Question}
    (hlook : cache.look q = .ok (.tryEach questions)) : images.Silent q := by
  cases look_eq_ok_iff.mp hlook with
  | umbrella hlib hresolve _ =>
      obtain ⟨d, hd, himage⟩ := image_of_cached h hlib
      exact ⟨d, hd, himage.answer_of_none hresolve⟩

/-- The search goes on to what the libraries ask on. -/
theorem asksOn_of_edge (h : images.Cached cache) (hedge : Search.Edge cache.look q q') :
    images.AsksOn q q' := by
  rcases hedge with hfollows | ⟨questions, hlook, hmem⟩
  · exact .trie ((follows_iff h).mp hfollows)
  · cases look_eq_ok_iff.mp hlook with
    | umbrella hlib hresolve hpaths =>
        obtain ⟨d, hd, himage⟩ := image_of_cached h hlib
        obtain ⟨target, htarget, rfl⟩ := List.mem_map.mp hmem
        rw [himage.umbrellaPaths_eq] at hpaths
        obtain rfl := Outcome.ok.inj hpaths
        exact .umbrella hd (himage.answer_of_none hresolve) htarget

/-- If no sub-lookup fails, it goes on to all of it. -/
theorem edge_of_asksOn (h : images.Cached cache) (hanswers : cache.Answers q)
    (hasks : images.AsksOn q q') : Search.Edge cache.look q q' := by
  cases hasks with
  | trie hreexports => exact .inl ((follows_iff h).mpr hreexports)
  | @umbrella path symbol target d hd hanswer hmem =>
      obtain ⟨library, hlib, himage⟩ := library_of_cached h hd
      obtain ⟨resolution, hresolve, -⟩ := hanswers library hlib
      obtain rfl : resolution = none := himage.resolution_eq_none hanswer hresolve
      exact .inr ⟨_, look_eq_ok_iff.mpr (.umbrella hlib hresolve himage.umbrellaPaths_eq),
        List.mem_map.mpr ⟨target, hmem, rfl⟩⟩

/-! ## The loop -/

/-- One turn of the loop: the library defines the symbol, or the loop goes on in the library that
it is re-exported from. -/
theorem followingReexportsLoop_succ_iff {n offset : Nat} {current p : List UInt8} :
    dylibSymbolResolveFollowingReexportsLoop libraryLookup (n + 1) container symbol current
        = .ok (some (p, offset)) ↔
      (dylibSymbolResolve container symbol = .ok (some (.defined offset)) ∧ p = current) ∨
      ∃ target targetSymbol next,
        dylibSymbolResolve container symbol = .ok (some (.reexported target targetSymbol)) ∧
          libraryLookup target = some next ∧
          dylibSymbolResolveFollowingReexportsLoop libraryLookup n next targetSymbol target
            = .ok (some (p, offset)) := by
  constructor
  · intro hloop
    obtain ⟨found, hresolve, hloop⟩ := Outcome.bind_eq_ok.mp hloop
    cases found with
    | none => exact absurd hloop (by simp)
    | some found =>
        cases found with
        | defined offset' =>
            obtain ⟨rfl, rfl⟩ : current = p ∧ offset' = offset := by simpa using hloop
            exact .inl ⟨hresolve, rfl⟩
        | reexported target targetSymbol =>
            dsimp only at hloop
            split at hloop
            · exact absurd hloop (by simp)
            · rename_i next hnext
              exact .inr ⟨target, targetSymbol, next, hresolve, hnext, hloop⟩
  · rintro (⟨hresolve, rfl⟩ | ⟨target, targetSymbol, next, hresolve, hnext, hloop⟩)
    · rw [dylibSymbolResolveFollowingReexportsLoop, hresolve]
      rfl
    · rw [dylibSymbolResolveFollowingReexportsLoop, hresolve, Outcome.ok_bind]
      dsimp only
      rw [hnext]
      exact hloop

/-- The path that the loop has at the end of a walk from a library with its path. -/
theorem path_of_walk {step : Question → Question → Prop} {path : List UInt8} {k : Nat}
    (hwalk : Walk step k ⟨path, symbol⟩ q) :
    (if k = 0 then path else q.libraryPath) = q.libraryPath := by
  cases hwalk with
  | refl => rfl
  | cons _ _ => rw [if_neg (Nat.succ_ne_zero _)]

theorem image_of_lookup (h : images.OnDisk libraryLookup) {path : List UInt8}
    (hlookup : libraryLookup path = some container) :
    ∃ d, images path = some d ∧ d.OnDisk container := by
  have hrel := h path
  rw [hlookup] at hrel
  exact exists_of_rel_some_right hrel

theorem lookup_of_image (h : images.OnDisk libraryLookup) {path : List UInt8} {d : DylibImage}
    (himage : images path = some d) :
    ∃ container, libraryLookup path = some container ∧ d.OnDisk container := by
  have hrel := h path
  rw [himage] at hrel
  exact exists_of_rel_some_left hrel

/-- Where a chain of re-exports leads on to a definition, there is a dylib. -/
theorem image_of_walk {path : List UInt8} {k offset : Nat}
    (hwalk : Walk images.Reexports k ⟨path, symbol⟩ q) (hdefines : images.Defines q offset) :
    ∃ d, images path = some d := by
  cases hwalk with
  | refl => exact hdefines.image
  | cons hnext _ =>
      obtain ⟨d, hd, -⟩ := hnext
      exact ⟨d, hd⟩

/-- **The loop goes along the named re-exports**, and returns the definition that they end at. -/
theorem followingReexportsLoop_eq_some (h : images.OnDisk libraryLookup) {p : List UInt8}
    {offset : Nat} : ∀ {n : Nat} {path symbol current : List UInt8} {container : Container},
      libraryLookup path = some container →
      (dylibSymbolResolveFollowingReexportsLoop libraryLookup n container symbol current
          = .ok (some (p, offset)) ↔
        ∃ k < n, ∃ q, Walk images.Reexports k ⟨path, symbol⟩ q ∧ images.Defines q offset ∧
          p = if k = 0 then current else q.libraryPath) := by
  intro n
  induction n with
  | zero =>
    intro path symbol current container _
    constructor
    · intro hloop
      exact absurd hloop (by simp [dylibSymbolResolveFollowingReexportsLoop])
    · rintro ⟨k, hk, -⟩
      exact absurd hk (Nat.not_lt_zero k)
  | succ n ih =>
    intro path symbol current container hlookup
    obtain ⟨d, hd, hdisk⟩ := image_of_lookup h hlookup
    rw [followingReexportsLoop_succ_iff, hdisk.dylibSymbolResolve_eq]
    constructor
    · rintro (⟨hanswer, rfl⟩ | ⟨target, targetSymbol, next, hanswer, hnext, hloop⟩)
      · exact ⟨0, Nat.succ_pos n, ⟨path, symbol⟩, .refl _, ⟨d, hd, hanswer⟩, rfl⟩
      · have hreexports : images.Reexports ⟨path, symbol⟩ ⟨target, targetSymbol⟩ :=
          ⟨d, hd, hanswer⟩
        obtain ⟨k, hk, q, hwalk, hdefines, hp⟩ := (ih hnext).mp hloop
        refine ⟨k + 1, Nat.succ_lt_succ hk, q, .cons hreexports hwalk, hdefines, ?_⟩
        rw [hp, path_of_walk hwalk, if_neg (Nat.succ_ne_zero k)]
    · rintro ⟨k, hk, q, hwalk, hdefines, hp⟩
      cases hwalk with
      | refl =>
          -- the symbol is defined here
          obtain ⟨d', hd', hanswer⟩ := hdefines
          obtain rfl := Option.some.inj (hd.symm.trans hd')
          exact .inl ⟨hanswer, hp⟩
      | @cons k _ next _ hreexports hrest =>
          obtain ⟨d', hd', hanswer⟩ := hreexports
          obtain rfl := Option.some.inj (hd.symm.trans hd')
          -- the target is a dylib as well, so the lookup has it
          obtain ⟨dnext, hdnext⟩ := image_of_walk hrest hdefines
          obtain ⟨container', hnext, -⟩ := lookup_of_image h hdnext
          refine .inr ⟨next.libraryPath, next.symbol, container', hanswer, hnext, ?_⟩
          refine (ih hnext).mpr ⟨k, Nat.lt_of_succ_lt_succ hk, q, hrest, hdefines, ?_⟩
          rw [hp, path_of_walk hrest, if_neg (Nat.succ_ne_zero k)]

/-! ## When they agree -/

/-- The recursion with what is left of the budget behind the nodes that are followed. -/
theorem symbolResolve_of_follows {start : List UInt8} {k : Nat}
    (hk : k < maxReexportResolutionDepth) (hwalk : Walk (Follows cache.look) k ⟨start, symbol⟩ q) :
    cache.symbolResolve start symbol
      = Search.search cache.look (maxReexportResolutionDepth - k) q := by
  have hsearch := Search.search_of_follows hwalk (maxReexportResolutionDepth - k)
  rw [Nat.sub_add_cancel (Nat.le_of_lt hk)] at hsearch
  rw [symbolResolve, symbolResolveWithMaxDepth_eq_search, hsearch]

/-- A definition that can be looked at is the answer. -/
theorem symbolResolve_of_defines {start : List UInt8} {k offset : Nat}
    (hk : k < maxReexportResolutionDepth) (hwalk : Walk (Follows cache.look) k ⟨start, symbol⟩ q)
    (hdefines : cache.DefinesAt q library offset)
    (hlt : library.unslidLoadAddress + offset < 2 ^ 64) {address : Nat}
    (htranslate : cache.unslidAddressToRuntimePointerTranslate (library.unslidLoadAddress + offset)
      = .ok address) :
    cache.symbolResolve start symbol
      = .ok (some (library.unslidLoadAddress + offset + cache.cacheSlide)) := by
  obtain rfl := unslidAddressToRuntimePointerTranslate_eq_ok htranslate
  obtain ⟨budget, hbudget⟩ : ∃ budget, maxReexportResolutionDepth - k = budget + 1 :=
    ⟨maxReexportResolutionDepth - k - 1, by omega⟩
  rw [symbolResolve_of_follows hk hwalk, hbudget, Search.search, hdefines.look_eq,
    Outcome.add_of_lt hlt, Outcome.ok_bind, htranslate]
  rfl

/-- The first library is returned without a path. -/
theorem namedFrom_of_walk {step : Question → Question → Prop} {start : List UInt8} {k : Nat}
    {p : List UInt8} (hwalk : Walk step k ⟨start, symbol⟩ q)
    (hp : p = if k = 0 then [] else q.libraryPath) : NamedFrom start q.libraryPath p := by
  cases hwalk with
  | refl => exact .inr ⟨hp, rfl⟩
  | cons _ _ => exact .inl hp

/-- The chain of named re-exports ends at a definition, or where nothing is followed. -/
theorem follows_of_reexports (h : images.Cached cache) {k : Nat}
    (hwalk : Walk images.Reexports k q q') : Walk (Follows cache.look) k q q' :=
  hwalk.mono fun _ _ => (follows_iff h).mpr

theorem Maps.translate_eq {address : Nat} (h : cache.Maps address) :
    cache.unslidAddressToRuntimePointerTranslate address = .ok (address + cache.cacheSlide) := by
  obtain ⟨⟨subcacheIndex, subcache, offset, hlocated⟩, hlt⟩ := h
  rw [unslidAddressToRuntimePointerTranslate, hlocated.locate_eq, Outcome.ok_bind]
  exact Outcome.add_of_lt hlt

theorem maps_of_translate {address runtimeAddress : Nat}
    (h : cache.unslidAddressToRuntimePointerTranslate address = .ok runtimeAddress) :
    cache.Maps address := by
  obtain ⟨located, hlocated, h⟩ := Outcome.bind_eq_ok.mp h
  cases located with
  | none => exact absurd h (by simp)
  | some located =>
      obtain ⟨index, offset⟩ := located
      obtain ⟨j, subcache, -, hj, hoffset, hbefore⟩ := subcacheLocateLoop_eq_some hlocated
      refine ⟨⟨j, subcache, offset, hj, hoffset, fun i hi before hget => ?_⟩,
        (Outcome.add_eq_ok.mp h).1⟩
      obtain ⟨before', hget', hnone⟩ := hbefore i hi
      obtain rfl := Option.some.inj (hget.symm.trans hget')
      exact hnone

/-- **The resolvers agree where the umbrellas are idle.** -/
theorem resolversAgree_of_idle {start : List UInt8} (hcache : images.Cached cache)
    (hdisk : images.OnDisk libraryLookup) (hstart : libraryLookup start = some container)
    (hidle : cache.UmbrellasIdle images ⟨start, symbol⟩) :
    cache.ResolversAgree libraryLookup start container symbol := by
  refine ⟨fun p offset hfound => ?_, fun address hresolve => ?_⟩
  · obtain ⟨k, hk, q, hwalk, hdefines, hp⟩ :=
      (followingReexportsLoop_eq_some hdisk hstart).mp hfound
    obtain ⟨d, hd⟩ := hdefines.image
    obtain ⟨library, hlib, -⟩ := library_of_cached hcache hd
    obtain ⟨hlt, hmaps⟩ := hidle.mapped k hk q hwalk library offset hlib hdefines
    exact ⟨q.libraryPath, library, namedFrom_of_walk hwalk hp, hlib,
      symbolResolve_of_defines hk (follows_of_reexports hcache hwalk)
        ((definesAt_iff hcache hlib).mpr hdefines) hlt hmaps.translate_eq⟩
  · rw [symbolResolve, symbolResolveWithMaxDepth_eq_search] at hresolve
    obtain ⟨k, hk, q, hfollows, hlook | ⟨⟨questions, hlook⟩, hfinds⟩⟩ :=
      (Search.search_eq_some_iff.mp hresolve).end_of_follows
    · have hwalk := hfollows.mono fun _ _ => (follows_iff hcache).mp
      obtain ⟨library, image, offset, hlib, htrie, haddress⟩ := defines_of_look hlook
      have hdefines := (definesAt_iff hcache hlib).mp ⟨hlib, image, htrie⟩
      exact ⟨q.libraryPath, library, _, offset, namedFrom_of_walk hwalk rfl, hlib, haddress,
        (followingReexportsLoop_eq_some hdisk hstart).mpr ⟨k, hk, q, hwalk, hdefines, rfl⟩⟩
    · -- the recursion has found something behind the umbrella, so there is a definition
      have hwalk := hfollows.mono fun _ _ => (follows_iff hcache).mp
      obtain ⟨j, hj, q'', hedges, hanswer⟩ :=
        Search.search_eq_some (Search.search_eq_some_iff.mpr hfinds)
      obtain ⟨library, image, offset, hlib, htrie, -⟩ := defines_of_look hanswer
      exact absurd ((definesAt_iff hcache hlib).mp ⟨hlib, image, htrie⟩)
        (hidle.idle k hk q hwalk (silent_of_tryEach hcache hlook) j hj q''
          (hedges.mono fun _ _ => asksOn_of_edge hcache) offset)

/-- The search goes along the libraries that are asked on, as long as it can look at them. -/
theorem edges_of_asksOn (h : images.Cached cache) {j : Nat} (hwalk : Walk images.AsksOn j q q')
    (hanswers : ∀ i < j, ∀ u, Walk (Search.Edge cache.look) i q u → cache.Answers u) :
    Walk (Search.Edge cache.look) j q q' := by
  induction hwalk with
  | refl v => exact .refl v
  | @cons j v u w hasks _ ih =>
    have hedge := edge_of_asksOn h (hanswers 0 (Nat.succ_pos j) v (.refl v)) hasks
    exact .cons hedge (ih fun i hi x hx =>
      hanswers (i + 1) (Nat.succ_lt_succ hi) x (.cons hedge hx))

/-- **And only there**, as far as no sub-lookup of the recursion fails. -/
theorem idle_of_resolversAgree {start : List UInt8} (hcache : images.Cached cache)
    (hdisk : images.OnDisk libraryLookup) (hstart : libraryLookup start = some container)
    (hanswers : ∀ k < maxReexportResolutionDepth, ∀ q,
      Walk cache.PassesOn k ⟨start, symbol⟩ q → cache.Answers q)
    (hagree : cache.ResolversAgree libraryLookup start container symbol) :
    cache.UmbrellasIdle images ⟨start, symbol⟩ := by
  refine ⟨fun k hk q hwalk library offset hlib hdefines => ?_,
    fun k hk q hwalk hsilent j hj q'' hasks offset hdefines => ?_⟩
  · -- the loop finds the definition, so the recursion has an address for it
    obtain ⟨_, _, -, -, hresolve⟩ := hagree.cached _ offset
      ((followingReexportsLoop_eq_some hdisk hstart).mpr ⟨k, hk, q, hwalk, hdefines, rfl⟩)
    obtain ⟨budget, hbudget⟩ : ∃ budget, maxReexportResolutionDepth - k = budget + 1 :=
      ⟨maxReexportResolutionDepth - k - 1, by omega⟩
    rw [symbolResolve_of_follows hk (follows_of_reexports hcache hwalk), hbudget] at hresolve
    obtain ⟨found, hlook, -⟩ := Outcome.bind_eq_ok.mp hresolve
    obtain ⟨hlt, -, htranslate⟩ := ((definesAt_iff hcache hlib).mpr hdefines).look_eq_ok hlook
    exact ⟨hlt, maps_of_translate htranslate⟩
  · -- the recursion comes to the definition behind the umbrella, so it finds one
    have hfollows := follows_of_reexports hcache hwalk
    have hreach : ∀ i < maxReexportResolutionDepth - k, ∀ u,
        Walk (Search.Edge cache.look) i q u → cache.Answers u := by
      intro i hi u hu
      have hstart : Walk (Search.Edge cache.look) k ⟨start, symbol⟩ q :=
        hfollows.mono fun _ _ => Or.inl
      exact hanswers (k + i) (by omega) u
        ((hstart.trans hu).mono fun _ _ => edge_iff_passesOn.mp)
    have hedges := edges_of_asksOn hcache hasks fun i hi => hreach i (by omega)
    obtain ⟨found, hresolve⟩ := Search.search_ok fun i hi u hu => look_ok (hreach i hi u hu)
    cases found with
    | none =>
        obtain ⟨d, hd⟩ := hdefines.image
        obtain ⟨library, hlib, -⟩ := library_of_cached hcache hd
        obtain ⟨found, hlook, hnot⟩ := Search.search_eq_none hresolve hj hedges
        exact hnot _ (((definesAt_iff hcache hlib).mpr hdefines).look_eq_ok hlook).2.1
    | some address =>
        rw [← symbolResolve_of_follows hk hfollows] at hresolve
        obtain ⟨_, _, p, offset', -, -, -, hfound⟩ := hagree.onDisk address hresolve
        obtain ⟨k', -, q', hwalk', hdefines', -⟩ :=
          (followingReexportsLoop_eq_some hdisk hstart).mp hfound
        -- the chain has one end
        obtain rfl := @Walk.end_unique _ images.Reexports (fun hs hs' => hs.unique hs') _ _ _ _ _
          hwalk hwalk' (fun _ hs => absurd (hsilent.unique hs) (by simp))
          (fun _ hs => absurd (hdefines'.unique hs) (by simp))
        exact absurd (hsilent.unique hdefines') (by simp)

/-- **The two resolvers agree if the umbrellas are idle**, and where no sub-lookup of the recursion
fails, only then. -/
theorem resolversAgree_idle {start : List UInt8} (hcache : images.Cached cache)
    (hdisk : images.OnDisk libraryLookup) (hstart : libraryLookup start = some container) :
    (cache.UmbrellasIdle images ⟨start, symbol⟩ →
      cache.ResolversAgree libraryLookup start container symbol) ∧
    ((∀ k < maxReexportResolutionDepth, ∀ q,
        Walk cache.PassesOn k ⟨start, symbol⟩ q → cache.Answers q) →
      (cache.ResolversAgree libraryLookup start container symbol ↔
        cache.UmbrellasIdle images ⟨start, symbol⟩)) :=
  ⟨resolversAgree_of_idle hcache hdisk hstart, fun hanswers =>
    ⟨idle_of_resolversAgree hcache hdisk hstart hanswers,
      resolversAgree_of_idle hcache hdisk hstart⟩⟩

/-! ## The small cache on disk

`/b` passes `_f` on to `/a` as `_g`, which `/a` defines. The trie of `/a` has no `_f`, but it
re-exports `/b`. -/

def sampleTrieA : List UInt8 := [0, 1, 0x5f, 0x67, 0, 6, 2, 0, 4, 0]

def sampleTrieB : List UInt8 := [0, 1, 0x5f, 0x66, 0, 6, 5, 8, 1, 0x5f, 0x67, 0, 0]

def sampleImages : Images := fun path =>
  if path = ascii "/a" then some ⟨sampleTrieA, [(.lcReexportDylib, ascii "/b")]⟩
  else if path = ascii "/b" then some ⟨sampleTrieB, [(.lcLoadDylib, ascii "/a")]⟩
  else none

def sampleDylibA : Container where
  data := sampleLibraryImage 152 10 0x8000001f "/b" ++ sampleTrieA
  endian := .little

def sampleDylibB : Container where
  data := sampleLibraryImage 152 13 0xc "/a" ++ sampleTrieB
  endian := .little

def sampleLookup (path : List UInt8) : Option Container :=
  if path = ascii "/a" then some sampleDylibA
  else if path = ascii "/b" then some sampleDylibB
  else none

/-- The commands of an image with a segment, an exports trie and a dependency. -/
def sampleLibraryCommands (machHeaderOffset : Nat) (kind : LoadCommandVariants) :
    List (LoadCommandVariants × Nat) :=
  [(.lcSegment64, machHeaderOffset + 32), (.lcDyldExportsTrie, machHeaderOffset + 104),
   (kind, machHeaderOffset + 120)]

/-- What is read of such an image. -/
structure ReadsAsLibrary (image : MachOImage) (kind : LoadCommandVariants) (name : List UInt8)
    (span : ExportsTrieSpan) : Prop where
  length_lt : image.container.data.length < 2 ^ 63
  kind_counted : isDylibDependencyCommand kind = true
  commands_eq : ((image.container.machHeader64 image.machHeaderOffset).bind fun header =>
      image.container.commandsAt header.ncmds (image.machHeaderOffset + MachHeader64.size))
    = some (sampleLibraryCommands image.machHeaderOffset kind)
  span_eq : image.container.linkeditDataCommand (image.machHeaderOffset + 104)
    = some ⟨span.fileOffset, span.sizeInBytes⟩
  name_eq : ((image.container.dylibCommandHeader (image.machHeaderOffset + 120)).bind fun header =>
      Bytes.untilNul (image.container.data.drop
        (image.machHeaderOffset + 120 + header.nameOffset))) = some name

theorem ReadsAsLibrary.describes {image : MachOImage} {kind : LoadCommandVariants}
    {trie name : List UInt8} {span : ExportsTrieSpan} (h : ReadsAsLibrary image kind name span)
    (hsize : span.sizeInBytes = trie.length) :
    (⟨trie, [(kind, name)]⟩ : DylibImage).Describes image
      (sampleLibraryCommands image.machHeaderOffset kind) (some span) where
  length_lt := h.length_lt
  commands_eq := Option.bind_eq_some_iff.mp h.commands_eq
  dependencies := by
    have hdependencies : dependencyCommands (sampleLibraryCommands image.machHeaderOffset kind)
        = [(kind, image.machHeaderOffset + 120)] := by
      have hkind := isOrdinalCommand_of_counted h.kind_counted
      have hsegment : isOrdinalCommand .lcSegment64 = false := rfl
      have htrie : isOrdinalCommand .lcDyldExportsTrie = false := rfl
      simp [dependencyCommands, sampleLibraryCommands, hkind, hsegment, htrie]
    rw [hdependencies]
    exact .cons ⟨rfl, Option.bind_eq_some_iff.mp h.name_eq⟩ .nil
  span_eq := @HasTrieSpan.first _ _ [_] _ _ _ rfl (by simp [isTrieCommand]) (.exportsTrie h.span_eq)
  size_eq := hsize

theorem sampleDylibs_onDisk : sampleImages.OnDisk sampleLookup := by
  intro path
  rw [sampleImages, sampleLookup]
  by_cases ha : path = ascii "/a"
  · rw [if_pos ha, if_pos ha]
    have hreads : ReadsAsLibrary ⟨sampleDylibA, 0⟩ .lcReexportDylib (ascii "/b") ⟨152, 10⟩ :=
      ⟨by decide +kernel, rfl, by decide +kernel, by decide +kernel, by decide +kernel⟩
    have hdescribes := @hreads.describes _ _ sampleTrieA _ _ rfl
    refine .some ⟨_, _, hdescribes, fun s hs _ => ?_⟩
    obtain rfl := Option.some.inj hs
    decide +kernel
  · rw [if_neg ha, if_neg ha]
    by_cases hb : path = ascii "/b"
    · rw [if_pos hb, if_pos hb]
      have hreads : ReadsAsLibrary ⟨sampleDylibB, 0⟩ .lcLoadDylib (ascii "/a") ⟨152, 13⟩ :=
        ⟨by decide +kernel, rfl, by decide +kernel, by decide +kernel, by decide +kernel⟩
      refine .some ⟨_, _, hreads.describes rfl, fun s hs _ => ?_⟩
      obtain rfl := Option.some.inj hs
      decide +kernel
    · rw [if_neg hb, if_neg hb]
      exact .none

/-- The subcache that the images of the small cache are in. -/
def sampleSubCache : DyldSharedSubCache where
  container :=
    { data := Bytes.encodeFields .little [(8, 0x1000), (8, 359), (8, 0), (4, 1), (4, 1)]
        ++ sampleLibraryImage 336 10 0x8000001f "/b"
        ++ sampleLibraryImage 346 13 0xc "/a"
        ++ sampleTrieA ++ sampleTrieB
      endian := .little }
  unslidBaseVmAddress := 0x1000
  mappingTableOffset := 0
  mappingTableEntryCount := 1

/-- A library of the small cache, with its trie at this offset. -/
theorem sampleSubCache_hasImage {library : SharedCacheLibrary} {kind : LoadCommandVariants}
    {name trie : List UInt8} {offset : Nat}
    (hreads : ReadsAsLibrary ⟨sampleSubCache.container, library.machHeaderRuntimeOffset⟩ kind name
      ⟨offset, trie.length⟩)
    (hlibrary : library.subCacheIndex = 0)
    (hlinkedit : ((sampleSubCache.container.segmentCommand64
      (library.machHeaderRuntimeOffset + 32)).map fun seg =>
        (seg.segname.take 10, seg.vmaddr, seg.fileoff)) = some (ascii "__LINKEDIT", 0x1000, 0))
    (hlocated : sampleSubCache.runtimeOffsetForVmAddress (0x1000 + offset) = .ok (some offset))
    (hlt : 0x1000 + offset < 2 ^ 64)
    (hslice : sampleSubCache.container.slice offset trie.length = some trie) :
    sampleCache.HasImage library ⟨trie, [(kind, name)]⟩ where
  image := by
    obtain ⟨seg, hseg, hfields⟩ := Option.map_eq_some_iff.mp hlinkedit
    obtain ⟨hname, hvmaddr, hfileoff⟩ : seg.segname.take 10 = ascii "__LINKEDIT" ∧
        seg.vmaddr = 0x1000 ∧ seg.fileoff = 0 := by simpa using hfields
    refine ⟨sampleSubCache, _, _, by rw [hlibrary]; rfl, hreads.describes rfl, fun s hs _ => ?_⟩
    obtain rfl := Option.some.inj hs
    refine ⟨⟨seg.vmaddr, seg.fileoff⟩, 0x1000 + offset, sampleSubCache, 0, offset,
      @HasLinkedit.first _ _ [] _ _ _ rfl (by simp) hseg hname, ?_, ?_, hlt, by decide, ?_, hslice⟩
    · rw [hvmaddr, hfileoff]
      rfl
    · rw [hvmaddr]
      exact Nat.le_add_right _ _
    · exact ⟨rfl, hlocated, fun i hi => absurd hi (Nat.not_lt_zero i)⟩

theorem sampleCache_cached : sampleImages.Cached sampleCache := by
  intro path
  by_cases ha : path = ascii "/a"
  · subst ha
    exact .some (@sampleSubCache_hasImage ⟨0, 32, ascii "/a", 0x1020⟩ .lcReexportDylib (ascii "/b")
      sampleTrieA 336
      ⟨by decide +kernel, rfl, by decide +kernel, by decide +kernel, by decide +kernel⟩ rfl
      (by decide +kernel) (by decide +kernel) (by decide) (by decide +kernel))
  · by_cases hb : path = ascii "/b"
    · subst hb
      exact .some (@sampleSubCache_hasImage ⟨0, 184, ascii "/b", 0x10b8⟩ .lcLoadDylib (ascii "/a")
        sampleTrieB 346
        ⟨by decide +kernel, rfl, by decide +kernel, by decide +kernel, by decide +kernel⟩ rfl
        (by decide +kernel) (by decide +kernel) (by decide) (by decide +kernel))
    · have hlib : sampleCache.libraryFindByInstallPath path = none := by
        simp [libraryFindByInstallPath, sampleCache, ha, hb, eq_comm (b := path)]
      rw [sampleImages, if_neg ha, if_neg hb, hlib]
      exact .none

/-- From `_f` of `/a` only the cache gets to `_g` of `/a`. -/
theorem sampleResolvers_disagree :
    sampleImages.Cached sampleCache ∧ sampleImages.OnDisk sampleLookup ∧
      sampleLookup (ascii "/a") = some sampleDylibA ∧
      sampleCache.symbolResolve (ascii "/a") (ascii "_f") = .ok (some 0x101024) ∧
      dylibSymbolResolveFollowingReexports sampleDylibA (ascii "_f") sampleLookup = .ok none ∧
      ¬ sampleCache.ResolversAgree sampleLookup (ascii "/a") sampleDylibA (ascii "_f") := by
  have hcached : sampleCache.symbolResolve (ascii "/a") (ascii "_f") = .ok (some 0x101024) := by
    decide +kernel
  have hdisk : dylibSymbolResolveFollowingReexports sampleDylibA (ascii "_f") sampleLookup
      = .ok none := by decide +kernel
  refine ⟨sampleCache_cached, sampleDylibs_onDisk, rfl, hcached, hdisk, fun hagree => ?_⟩
  obtain ⟨_, _, _, _, -, -, -, hfound⟩ := hagree.onDisk _ hcached
  exact absurd (hdisk.symm.trans hfound) (by simp)

/-- The chain from `_f` of `/b` ends at `_g` of `/a`, which is at offset 4. -/
theorem sampleImages_reexports {k : Nat} {q : Question}
    (hwalk : Walk sampleImages.Reexports k ⟨ascii "/b", ascii "_f"⟩ q) :
    sampleImages.Reexports q ⟨ascii "/a", ascii "_g"⟩ ∨
      q = ⟨ascii "/a", ascii "_g"⟩ ∧ sampleImages.Defines q 4 := by
  have hb : sampleImages.Reexports ⟨ascii "/b", ascii "_f"⟩ ⟨ascii "/a", ascii "_g"⟩ :=
    ⟨_, rfl, by decide +kernel⟩
  have ha : sampleImages.Defines ⟨ascii "/a", ascii "_g"⟩ 4 := ⟨_, rfl, by decide +kernel⟩
  cases hwalk with
  | refl => exact .inl hb
  | cons hstep hrest =>
      obtain rfl := Images.Reexports.unique hb hstep
      cases hrest with
      | refl => exact .inr ⟨rfl, ha⟩
      | cons hstep _ => exact absurd (ha.unique hstep) (by simp)

/-- From `_f` of `/b` both do. -/
theorem sampleResolvers_agree :
    sampleCache.ResolversAgree sampleLookup (ascii "/b") sampleDylibB (ascii "_f") := by
  refine (resolversAgree_idle sampleCache_cached sampleDylibs_onDisk (by decide +kernel)).1 ⟨?_, ?_⟩
  · intro k _ q hwalk library offset hlib hdefines
    rcases sampleImages_reexports hwalk with hreexports | ⟨rfl, ha⟩
    · exact absurd (hdefines.unique hreexports) (by simp)
    · obtain rfl : offset = 4 := by simpa using ha.unique hdefines
      have hfind : sampleCache.libraryFindByInstallPath (ascii "/a")
          = some ⟨0, 32, ascii "/a", 0x1020⟩ := rfl
      obtain rfl := Option.some.inj (hfind.symm.trans hlib)
      refine ⟨by decide, ⟨0, sampleSubCache, 0x24, rfl, by decide +kernel, fun i hi => ?_⟩,
        by decide⟩
      exact absurd hi (Nat.not_lt_zero i)
  · intro k _ q hwalk hsilent
    rcases sampleImages_reexports hwalk with hreexports | ⟨rfl, ha⟩
    · exact absurd (hsilent.unique hreexports) (by simp)
    · exact absurd (hsilent.unique ha) (by simp)

end DyldSharedCache

end Dynld
