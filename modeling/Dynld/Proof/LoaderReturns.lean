import Dynld.Proof.LinkedImages
import Dynld.Proof.MappedDylibs

/-!
# What the loader needs to come back

That the recursion ends (`machoLoader_ne_outOfFuel`) is not enough: a call can also panic,
which takes the process with it. The loader has no panics of its own but for the arithmetic
of `segmentsBounds`; the others are in what it calls for an image: the parser, a path with
an `@rpath` list, a library ordinal past the end of the list, a lookup in the cache or in a
dylib. Which image does so can be said image by image (`ImageReturns`).

A bind is looked up in a dylib as it is in memory, after its own fixups and its
initializers. `Holds` says how that can look, so the condition asks for all such memories.
For a dylib whose load commands and trie are mapped in place it comes down to the file
(`lookupReturns_of_inPlace`).
-/

namespace Dynld

open Chains (Reaches)

/-! ## What an image is asked for -/

/-- The ordinal of a library, not one of those with a meaning of their own. -/
structure IsLibraryOrdinal (ordinal : Nat) : Prop where
  ne_self : ordinal ≠ bindSpecialDylibSelf
  ne_mainExecutable : ordinal ≠ bindSpecialDylibMainExecutable
  ne_flatLookup : ordinal ≠ bindSpecialDylibFlatLookup
  ne_weakLookup : ordinal ≠ bindSpecialDylibWeakLookup

/-- A dylib answers a lookup, and not with the name of another one. -/
structure AnswersItself (container : Container) (symbol : List UInt8) : Prop where
  not_panics : ¬ (dylibSymbolResolve container symbol).Panics
  not_reexported : ∀ path name,
    dylibSymbolResolve container symbol ≠ .ok (some (.reexported path name))

section

variable (host : Host) (cache : DyldSharedCache) (execDir : List UInt8) (executable : Container)

/-- A symbol can be looked up in this dependency: in the cache, or in the dylib at its path, wherever
that is linked. -/
def LookupReturns (rpath : Option Rpath) (dependency : Str × Bool) (symbol : List UInt8) : Prop :=
  match dependencyPath execDir rpath dependency with
  | none => ¬ (cache.symbolResolve dependency.1.bytes symbol).Panics
  | some q => ∀ w c parsedImage libraries file region,
      imageAt host executable (some q) = some c → c.machoParser = .ok parsedImage →
      Holds host cache w c (some q) parsedImage libraries file region →
      AnswersItself (MappedContainer.view ⟨region, .little⟩ w.mem) symbol

/-- What is asked of an image that was parsed. -/
structure ParsedImage.Loads (parsedImage : ParsedImage) (dependencies : List (Str × Bool)) :
    Prop where
  hasSegment : parsedImage.segments.items ≠ []
  segments : ∀ seg ∈ parsedImage.segments.items, seg.vmAddr + seg.vmSize < 2 ^ 64
  paths : ∀ dependency ∈ dependencies, dependency.2 = false →
    ¬ (userDylibDiskPathResolve dependency.1.bytes parsedImage.rpath execDir).Panics
  binds : ∀ fixup ∈ parsedImage.fixups, ∀ symbolName ordinal isAuth addend,
    fixup.kind = .bind symbolName ordinal isAuth addend → IsLibraryOrdinal ordinal →
    ∃ dependency, dependencies[ordinal - 1]? = some dependency ∧
      LookupReturns host cache execDir executable parsedImage.rpath dependency symbolName.asBytes

/-- **Nothing that the loader does for this image panics.** -/
structure ImageReturns (image : Option (List UInt8)) : Prop where
  parses : ∀ c, imageAt host executable image = some c → ¬ c.machoParser.Panics
  staysInside : ImageStaysInside host executable image
  loads : ∀ c parsedImage dependencies, imageAt host executable image = some c →
    c.machoParser = .ok parsedImage → dependenciesCollect parsedImage cache = .ok dependencies →
    parsedImage.Loads host cache execDir executable dependencies.items

end

variable {host : Host} {cache : DyldSharedCache} {execDir : List UInt8} {executable : Container}

/-! ## The steps of the loader -/

theorem ArrayVec.not_panics_push {α : Type} {n : Nat} {v : ArrayVec α n} (h : v.items.length ≠ n)
    (item : α) : ¬ (v.push item).Panics := by
  have hlt : v.items.length < n := Nat.lt_of_le_of_ne v.length_le h
  unfold push
  rw [dif_pos hlt]
  exact Outcome.not_panics_ok _

/-- The list is not pushed to when it is full. -/
theorem not_panics_dependenciesLoop (cache : DyldSharedCache) :
    ∀ libraries dependencies, ¬ (dependenciesLoop cache libraries dependencies).Panics := by
  intro libraries
  induction libraries with
  | nil =>
    intro _
    simp [dependenciesLoop]
  | cons head rest ih =>
    intro dependencies
    obtain ⟨libName, _⟩ := head
    unfold dependenciesLoop
    split
    · simp
    · rename_i hroom
      exact Outcome.not_panics_bind (ArrayVec.not_panics_push hroom _) fun _ _ => ih _

theorem not_panics_dependenciesCollect (parsedImage : ParsedImage) (cache : DyldSharedCache) :
    ¬ (dependenciesCollect parsedImage cache).Panics :=
  not_panics_dependenciesLoop cache _ _

theorem not_panics_diskPathMmap (host : Host) (q : List UInt8) (w : World) :
    ¬ (diskPathMmap host q w).1.Panics := by
  refine Exec.not_panics_bind (Outcome.not_panics_okOr _ _) fun bytes w₁ _ => ?_
  split
  · simp
  split
  · simp
  refine Exec.not_panics_bind (Outcome.not_panics_okOr _ _) fun address w₂ _ => ?_
  split
  · simp
  · simp

/-- One dependency, if the loader does not panic on it. -/
theorem not_panics_userDylibLoad
    {load : MappedContainer → Option (List UInt8) → Exec World (Nat × Nat)} {rpath : Option Rpath}
    {dependency : Str × Bool}
    (hpath : dependency.2 = false →
      ¬ (userDylibDiskPathResolve dependency.1.bytes rpath execDir).Panics)
    (hload : ∀ q, dependencyPath execDir rpath dependency = some q → ∀ image w,
      imageAt host executable (some q) = some (image.view w.mem) →
      ¬ (load image (some q) w).1.Panics) (w : World) :
    ¬ (userDylibLoad host load execDir rpath dependency w).1.Panics := by
  obtain ⟨installName, isSystemDylib⟩ := dependency
  cases isSystemDylib with
  | true => simp [userDylibLoad]
  | false =>
      refine Exec.not_panics_bind (hpath rfl) fun q w₁ hresolve => ?_
      refine Exec.not_panics_bind (not_panics_diskPathMmap host q w₁) fun image w₂ hmmap => ?_
      have hq : dependencyPath execDir rpath (installName, false) = some q :=
        dependencyPath_eq_some.mpr ⟨rfl, (Exec.liftM_eq_ok.mp hresolve).1⟩
      refine Exec.not_panics_bind (hload q hq image w₂ (diskPathMmap_imageAt hmmap))
        fun r w₃ _ => ?_
      simp

/-- Segments that end inside the address space have bounds, which are around each of them. -/
theorem segmentsBounds_of_ends : ∀ {segments : List Segment} {lo hi : Nat},
    (∀ seg ∈ segments, seg.vmAddr + seg.vmSize < 2 ^ 64) →
    ∃ lo' hi', segmentsBounds segments (lo, hi) = .ok (lo', hi') ∧ lo' ≤ lo ∧ hi ≤ hi' ∧
      ∀ seg ∈ segments, lo' ≤ seg.vmAddr ∧ seg.vmAddr ≤ hi' := by
  intro segments
  induction segments with
  | nil =>
    intro lo hi _
    exact ⟨lo, hi, rfl, Nat.le_refl lo, Nat.le_refl hi, fun _ h => absurd h List.not_mem_nil⟩
  | cons seg rest ih =>
    intro lo hi hends
    obtain ⟨lo', hi', hrest, hlo, hhi, hall⟩ := @ih (min lo seg.vmAddr)
      (max hi (seg.vmAddr + seg.vmSize)) fun s hs => hends s (List.mem_cons_of_mem seg hs)
    have hadd := Outcome.add_of_lt (hends seg List.mem_cons_self)
    refine ⟨lo', hi', ?_, by omega, by omega, fun s hs => ?_⟩
    · rw [segmentsBounds, hadd, Outcome.ok_bind, hrest]
    · rcases List.mem_cons.mp hs with rfl | hs
      · exact ⟨by omega, by omega⟩
      · exact hall s hs

theorem not_panics_machoSegmentsMapToVm (dylibDir : Option (List UInt8)) (image : MappedContainer)
    {segments : List Segment} (hne : segments ≠ [])
    (hends : ∀ seg ∈ segments, seg.vmAddr + seg.vmSize < 2 ^ 64) (w : World) :
    ¬ (machoSegmentsMapToVm host dylibDir image segments w).1.Panics := by
  obtain ⟨lo, hi, hbounds, -, -, hall⟩ := @segmentsBounds_of_ends segments (2 ^ 64 - 1) 0 hends
  obtain ⟨seg, hseg⟩ := List.exists_mem_of_ne_nil segments hne
  have hle : lo ≤ hi := Nat.le_trans (hall seg hseg).1 (hall seg hseg).2
  have halloc : ∀ size w, ¬ (vmAllocTaskSelf host dylibDir size w).1.Panics := by
    intro size w
    refine Exec.not_panics_bind (Outcome.not_panics_okOr _ _) fun address w₁ _ => ?_
    split
    · simp
    · simp
  unfold machoSegmentsMapToVm
  rw [hbounds]
  refine Exec.not_panics_bind (by simp) fun bounds w₁ hlift => ?_
  obtain ⟨hsame, rfl⟩ := Exec.liftM_eq_ok.mp hlift
  obtain rfl := Outcome.ok.inj hsame
  refine Exec.not_panics_bind ?_ fun vmSize w₂ _ => ?_
  · rw [Exec.liftM_run, Outcome.sub_of_le hle]
    exact Outcome.not_panics_ok _
  refine Exec.not_panics_bind (halloc vmSize w₂) fun vm w₃ _ => ?_
  refine Exec.not_panics_bind ?_ fun _ _ _ => by simp
  rw [segmentsCopy_run]
  exact Outcome.not_panics_ok _

theorem not_panics_imageFinalize (dylibDir : Option (List UInt8)) (vm : Nat)
    (parsedImage : ParsedImage) (w : World) :
    ¬ (imageFinalize host dylibDir vm parsedImage w).1.Panics := by
  have hprotect : ∀ (segments : List Segment) (w : World),
      ¬ (machoSegmentsVmProtect host vm segments w).1.Panics := by
    intro segments
    induction segments with
    | nil =>
      intro _
      simp [machoSegmentsVmProtect]
    | cons seg rest ih =>
      intro w
      refine Exec.not_panics_bind (by simp) fun agreed w₁ _ => ?_
      split
      · exact ih w₁
      · simp
  refine Exec.not_panics_bind ?_ fun _ w₁ _ => ?_
  · unfold imageTlvInitialize machoTlvInitialize
    split
    · simp
    · simp
  refine Exec.not_panics_bind (hprotect _ w₁) fun _ w₂ _ => ?_
  obtain ⟨mem, hinit⟩ := @machoInitFunctionsExec_run host dylibDir vm parsedImage.initFunctions w₂
  rw [hinit]
  exact Outcome.not_panics_ok _

/-! ## The fixups -/

/-- Mapping an image keeps what is linked already. -/
theorem machoSegmentsMapToVm_advances (hhost : host.Sound) {dylibDir : Option (List UInt8)}
    {image : MappedContainer} {parsedImage : ParsedImage} {w : World}
    (hinside : ∀ lo hi, segmentsBounds parsedImage.segments.items (2 ^ 64 - 1, 0) = .ok (lo, hi) →
      parsedImage.Inside dylibDir (hi - lo)) :
    Advances host w (machoSegmentsMapToVm host dylibDir image parsedImage.segments.items w).2 :=
  ⟨(machoSegmentsMapToVm_grows hhost.freshRegions dylibDir image _ w).1,
    fun _ _ => machoSegmentsMapToVm_spares hhost image hinside w⟩

/-- What a dependency was answered with. -/
theorem LinkedLibraries.at_index {w : World} {rpath : Option Rpath}
    {dependencies : List (Str × Bool)} {libraries : List Library} {regions : List ByteRange}
    (h : LinkedLibraries host cache execDir executable w rpath dependencies libraries regions) :
    ∀ {k : Nat} {dependency : Str × Bool}, dependencies[k]? = some dependency →
      ∃ library, libraries[k]? = some library ∧
        match dependencyPath execDir rpath dependency with
        | none => library = .system dependency.1
        | some q => ∃ region own, library = .user ⟨region, .little⟩ ∧
            Linked host cache execDir executable w (some q) (region :: own) := by
  induction dependencies generalizing libraries regions with
  | nil =>
      intro k dependency hk
      exact absurd hk (by simp)
  | cons first rest ih =>
      intro k dependency hk
      cases h with
      | system hpath hrest =>
          cases k with
          | zero =>
              obtain rfl := Option.some.inj hk
              exact ⟨_, rfl, by rw [hpath]⟩
          | succ k => exact ih hrest hk
      | @user _ _ _ _ _ region own _ hpath hlinked hrest =>
          cases k with
          | zero =>
              obtain rfl := Option.some.inj hk
              refine ⟨_, rfl, ?_⟩
              rw [hpath]
              exact ⟨region, own, rfl, hlinked⟩
          | succ k => exact ih hrest hk

/-- A word whose symbol can be looked up is computed without a panic. -/
theorem LookupReturns.not_panics_regularWord {w : World} {rpath : Option Rpath}
    {dependencies : List (Str × Bool)} {libraries : List Library} {regions : List ByteRange}
    {k : Nat} {dependency : Str × Bool} {symbolName : ArrayString symbolNameLen}
    (h : LookupReturns host cache execDir executable rpath dependency symbolName.asBytes)
    (hlinked : LinkedLibraries host cache execDir executable w rpath dependencies libraries regions)
    (hk : dependencies[k]? = some dependency) :
    ∃ library, libraries[k]? = some library ∧
      ¬ (regularWord (some fun _ => cache) symbolName w.mem library).Panics := by
  obtain ⟨library, hlibrary, hkind⟩ := hlinked.at_index hk
  refine ⟨library, hlibrary, ?_⟩
  unfold LookupReturns at h
  split at h
  · rename_i hpath
    rw [hpath] at hkind
    obtain rfl : library = .system dependency.1 := hkind
    exact Outcome.not_panics_bind h fun found _ => Outcome.not_panics_okOr _ _
  · rename_i q hpath
    rw [hpath] at hkind
    obtain ⟨region, own, rfl, hown⟩ := hkind
    cases hown with
    | image hat hparse hcollect hlibraries hholds =>
        have hanswers := h w _ _ _ _ region hat hparse hholds
        refine Outcome.not_panics_bind hanswers.not_panics fun found hfound => ?_
        refine Outcome.not_panics_bind (Outcome.not_panics_okOr _ _) fun symbol hsymbol => ?_
        obtain rfl := Outcome.okOr_eq_ok.mp hsymbol
        cases symbol with
        | defined offset => exact Outcome.not_panics_ok _
        | reexported path name => exact absurd hfound (hanswers.not_reexported path name)

theorem not_panics_fixupWord {w : World} {parsedImage : ParsedImage}
    {dependencies : List (Str × Bool)} {libraries : List Library} {regions : List ByteRange}
    {vm base : Nat} (h : parsedImage.Loads host cache execDir executable dependencies)
    (hlinked : LinkedLibraries host cache execDir executable w parsedImage.rpath dependencies
      libraries regions) {fixup : Fixup} (hf : fixup ∈ parsedImage.fixups) :
    ¬ (fixupWord vm base parsedImage.symbols libraries (some fun _ => cache) w.mem fixup).Panics := by
  unfold fixupWord
  cases hkind : fixup.kind with
  | rebase target => exact Outcome.not_panics_ok _
  | bind symbolName ordinal isAuth addend =>
      dsimp only
      by_cases hself : ordinal = bindSpecialDylibSelf
      · rw [if_pos hself]
        exact Outcome.not_panics_err _
      by_cases hmain : ordinal = bindSpecialDylibMainExecutable
      · rw [if_neg hself, if_pos hmain]
        exact Outcome.not_panics_err _
      by_cases hflat : ordinal = bindSpecialDylibFlatLookup
      · rw [if_neg hself, if_neg hmain, if_pos hflat]
        exact Outcome.not_panics_err _
      by_cases hweak : ordinal = bindSpecialDylibWeakLookup
      · rw [if_neg hself, if_neg hmain, if_neg hflat, if_pos hweak]
        exact Outcome.not_panics_bind (Outcome.not_panics_okOr _ _) fun _ _ =>
          Outcome.not_panics_ok _
      rw [if_neg hself, if_neg hmain, if_neg hflat, if_neg hweak]
      obtain ⟨dependency, hk, hlookup⟩ := h.binds fixup hf symbolName ordinal isAuth addend hkind
        ⟨hself, hmain, hflat, hweak⟩
      obtain ⟨library, hlibrary, hword⟩ := hlookup.not_panics_regularWord hlinked hk
      rw [hlibrary]
      exact hword

/-- The fixups of an image are in its region, so what they look at stays as the mapping left it. -/
theorem not_panics_imageFixupsApply (hhost : host.Sound) {dylibDir : Option (List UInt8)}
    {image : MappedContainer} {parsedImage : ParsedImage} {dependencies : List (Str × Bool)}
    {libraries : List Library} {regions : List ByteRange} {vm size : Nat} {w w₁ : World}
    (h : parsedImage.Loads host cache execDir executable dependencies)
    (hinside : ∀ lo hi, segmentsBounds parsedImage.segments.items (2 ^ 64 - 1, 0) = .ok (lo, hi) →
      parsedImage.Inside dylibDir (hi - lo))
    (hlinked : LinkedLibraries host cache execDir executable w parsedImage.rpath dependencies
      libraries regions)
    (hmap : machoSegmentsMapToVm host dylibDir image parsedImage.segments.items w
      = (.ok (vm, size), w₁)) :
    ¬ (imageFixupsApply dylibDir vm parsedImage libraries cache w₁).1.Panics := by
  obtain ⟨lo, hi, hbounds, -, hsize, halloc, -⟩ := machoSegmentsMapToVm_eq_ok hmap
  have hadv := @machoSegmentsMapToVm_advances host hhost dylibDir image parsedImage w hinside
  rw [hmap] at hadv
  have hlinked₁ := hlinked.advances hadv
  -- the libraries are apart from the region
  have hapart : ∀ container, .user container ∈ libraries →
      ByteRange.Apart ⟨vm, size⟩ container.bytes := fun container hmem =>
    mappedRegion_apart hhost hmap fun x hx => ⟨_, hlinked.inUse container hmem, hx⟩
  refine Exec.not_panics_bind ?_ fun _ _ _ => by simp
  show ¬ (fixupAllChainedFixups vm (imageBase dylibDir) parsedImage.symbols libraries
    (some fun _ => cache) false parsedImage.fixups w₁.mem).1.Panics
  rw [fixupAllChainedFixups_eq_run, filter_keepAll]
  refine @Patch.not_panics_run _ _ _ _
    (fun m => ∀ container, .user container ∈ libraries → ∀ x ∈ container.bytes, m x = w₁.mem x)
    _ _ (fun fixup hf m hm => ?_) (fun fixup hf m v hm container hmem x hx => ?_)
    fun _ _ _ _ => rfl
  · have hsame : fixupWord vm (imageBase dylibDir) parsedImage.symbols libraries
        (some fun _ => cache) m fixup
        = fixupWord vm (imageBase dylibDir) parsedImage.symbols libraries
          (some fun _ => cache) w₁.mem fixup := by
      refine fixupWord_congr_of_ranges fun r hr x hx => ?_
      obtain ⟨container, hmem, rfl⟩ := Fixup.lookupRange_mem hr
      exact hm container hmem x hx
    rw [hsame]
    exact not_panics_fixupWord h hlinked₁ hf
  · have hin := (hsize ▸ hinside lo hi hbounds).fixups fixup hf
    have hslot := fixupSlotRange_within (hhost.inSpace _ _ _ halloc) hin
    have hout : x ∉ fixupSlotRange vm (imageBase dylibDir) fixup :=
      fun hbad => hapart container hmem x (hslot x hbad) hx
    exact (Mem.writeWord_of_notMem hout).trans (hm container hmem x hx)

/-! ## The loader -/

/-- **A call of the loader does not panic**, if it does not for any image that it comes to. -/
theorem machoLoader_not_panics (hhost : host.Sound) : ∀ (fuel : Nat) (image : MappedContainer)
    (dylibDir : Option (List UInt8)) (w : World),
    imageAt host executable dylibDir = some (image.view w.mem) →
    (∀ i, Reaches (dependencyGraph host cache execDir executable) dylibDir i →
      ImageReturns host cache execDir executable i) →
    ¬ (machoLoader host cache execDir fuel image dylibDir w).1.Panics := by
  intro fuel
  induction fuel with
  | zero =>
    intro _ _ _ _ _
    exact Outcome.not_panics_outOfFuel
  | succ fuel ih =>
    intro image dylibDir w hat himages
    have hown := himages dylibDir (.refl dylibDir)
    refine Exec.not_panics_bind (hown.parses _ hat) fun parsedImage w₁ hlift => ?_
    obtain ⟨hparse, rfl⟩ := Exec.lift_eq_ok.mp hlift
    refine Exec.not_panics_bind (not_panics_dependenciesCollect _ _) fun dependencies w₂ hlift => ?_
    obtain ⟨hcollect, rfl⟩ := Exec.liftM_eq_ok.mp hlift
    have hloads := hown.loads _ parsedImage dependencies hat hparse hcollect
    have hinside := fun lo hi => hown.staysInside _ hat parsedImage lo hi hparse
    have hbelow : ∀ dependency ∈ dependencies.items, ∀ q,
        dependencyPath execDir parsedImage.rpath dependency = some q →
        ∀ i, Reaches (dependencyGraph host cache execDir executable) (some q) i →
          ImageReturns host cache execDir executable i := by
      intro dependency hdep q hq i hreach
      refine himages i (hreach.of_mem ?_)
      rw [dependencyGraph_of_parse hat hparse hcollect]
      exact List.mem_map_of_mem (List.mem_filterMap.mpr ⟨dependency, hdep, hq⟩)
    refine Exec.not_panics_bind ?_ fun libraries w₃ hload => ?_
    · refine Exec.not_panics_each fun dependency hdep w₃ => ?_
      refine not_panics_userDylibLoad (hloads.paths dependency hdep) (fun q hq image' w₄
        (hat' : imageAt host executable (some q) = some (image'.view w₄.mem)) => ?_) w₃
      exact ih image' (some q) w₄ hat' (hbelow dependency hdep q hq)
    -- the dependencies are linked now, and stay so while the image is fixed up
    obtain ⟨-, regions, hlinked, -⟩ := userDylibsLoad_linked hhost (fun dependency hdep q hq =>
      have hfiles := fun i hreach => (hbelow dependency hdep q hq i hreach).staysInside
      ⟨links_of_staysInside hhost hfiles, hfiles⟩) hload
    refine Exec.not_panics_bind
      (not_panics_machoSegmentsMapToVm _ _ hloads.hasSegment hloads.segments w₃) ?_
    rintro ⟨vm, size⟩ w₄ hmap
    refine Exec.not_panics_bind
      (not_panics_imageFixupsApply hhost hloads hinside hlinked hmap) fun _ w₅ _ => ?_
    exact Exec.not_panics_bind (not_panics_imageFinalize _ _ _ _) fun _ _ _ => by simp

/-- The path of `/a`. -/
def sampleLoopPath : List UInt8 := ascii "/a" ++ [0]

/-- `/a` has the library `/a`. -/
def sampleLoopFile (path : List UInt8) : Option (List UInt8) :=
  if path = sampleLoopPath then some (sampleLinked 6 [] ["/a"]) else none

/-- An executable with the library `/a`. -/
def sampleLoopExecutable : List UInt8 := sampleLinked 2 [] ["/a"]

def sampleLoopImage : MappedContainer := ⟨⟨0x1000, sampleLoopExecutable.length⟩, .little⟩

/-- What the executable and the dylib parse to. -/
def sampleLoopParsed (isDylib : Bool) : ParsedImage :=
  { Container.parsedImageNew isDylib with
    segments := ⟨[⟨0, 0, 16, 5⟩], by decide⟩
    libraries := ⟨[(⟨ascii "/a", by decide +kernel⟩, 24)], by decide⟩ }

theorem sampleLoop_files (path : List UInt8)
    (h : (sampleHost sampleLoopFile).file path ≠ none) : path ∈ [sampleLoopPath] := by
  change sampleLoopFile path ≠ none at h
  unfold sampleLoopFile at h
  split at h
  · rename_i he
    exact List.mem_singleton.mpr he
  · exact absurd rfl h

/-- A turn for `/a` that does not come back. -/
theorem sampleLoop_turn {load : MappedContainer → Option (List UInt8) → Exec World (Nat × Nat)}
    {w : World} (hload : ∀ image w, (image.view w.mem).machoParser = .ok (sampleLoopParsed true) →
      (load image (some sampleLoopPath) w).1 = .outOfFuel) :
    (userDylibLoad (sampleHost sampleLoopFile) load [] none
      (⟨ascii "/a", by decide +kernel⟩, false) w).1 = .outOfFuel := by
  have hresolve : userDylibDiskPathResolve (ascii "/a") none [] = .ok sampleLoopPath := by
    decide +kernel
  have hfile : (sampleHost sampleLoopFile).file sampleLoopPath
      = some (sampleLinked 6 [] ["/a"]) := by decide +kernel
  have hmmap := diskPathMmap_of_mmap (w := w) hfile rfl (by decide +kernel) rfl
    (foldr_max_ne_zero _)
  obtain ⟨bytes, hbytes, hview⟩ := diskPathMmap_view hmmap
  obtain rfl : sampleLinked 6 [] ["/a"] = bytes := Option.some.inj (hfile.symm.trans hbytes)
  have hparse : (Container.mk (sampleLinked 6 [] ["/a"]) .little).machoParser
      = .ok (sampleLoopParsed true) := by decide +kernel
  rw [← hview] at hparse
  have hturn : userDylibLoad (sampleHost sampleLoopFile) load [] none
        (⟨ascii "/a", by decide +kernel⟩, false) w
      = (load _ (some sampleLoopPath) >>= fun r => pure (.user ⟨⟨r.1, r.2⟩, .little⟩)) _ :=
    (Exec.bind_of_ok (Exec.liftM_eq_ok.mpr ⟨hresolve, rfl⟩)).trans (Exec.bind_of_ok hmmap)
  rw [hturn]
  exact Exec.bind_outOfFuel (hload _ _ hparse)

/-- An image that depends on `/a` keeps the loader going. -/
theorem sampleLoop_outOfFuel : ∀ (fuel : Nat) (image : MappedContainer)
    (dylibDir : Option (List UInt8)) (w : World) (isDylib : Bool),
    (image.view w.mem).machoParser = .ok (sampleLoopParsed isDylib) →
    (machoLoader (sampleHost sampleLoopFile) sampleNoCache [] fuel image dylibDir w).1
      = .outOfFuel := by
  intro fuel
  induction fuel with
  | zero =>
    intro image dylibDir w isDylib hparse
    rfl
  | succ fuel ih =>
    intro image dylibDir w isDylib hparse
    have hcollect : dependenciesCollect (sampleLoopParsed isDylib) sampleNoCache
        = .ok ⟨[(⟨ascii "/a", by decide +kernel⟩, false)], by decide⟩ := by
      cases isDylib <;> decide +kernel
    have hturn := sampleLoop_turn (w := w) fun image w hparse =>
      ih image (some sampleLoopPath) w true hparse
    have hload : (userDylibsLoadRecursively (sampleHost sampleLoopFile)
        (machoLoader (sampleHost sampleLoopFile) sampleNoCache [] fuel) []
        (sampleLoopParsed isDylib).rpath [(⟨ascii "/a", by decide +kernel⟩, false)] w).1
        = .outOfFuel := Exec.bind_outOfFuel hturn
    rw [machoLoader_of_collect hparse hcollect]
    exact Exec.bind_outOfFuel hload

theorem sampleLoopExecutable_parsed :
    (sampleLoopImage.view (sampleWorld sampleLoopExecutable).mem).machoParser
      = .ok (sampleLoopParsed false) := by decide +kernel

/-- The last of those in a list that have a property. -/
theorem exists_last {α : Type} {p : α → Prop} : ∀ {l : List α}, (∃ a ∈ l, p a) →
    ∃ before a after, l = before ++ a :: after ∧ p a ∧ ∀ b ∈ after, ¬ p b := by
  intro l
  induction l with
  | nil =>
    rintro ⟨a, ha, -⟩
    exact absurd ha List.not_mem_nil
  | cons x rest ih =>
    rintro ⟨a, ha, hp⟩
    by_cases hrest : ∃ b ∈ rest, p b
    · obtain ⟨before, b, after, rfl, hb, hafter⟩ := ih hrest
      exact ⟨x :: before, b, after, rfl, hb, hafter⟩
    · rcases List.mem_cons.mp ha with rfl | ha
      · exact ⟨[], a, rest, rfl, hp, fun b hb hbad => hrest ⟨b, hb, hbad⟩⟩
      · exact absurd ⟨a, ha, hp⟩ hrest

/-- The byte at `x` of the file is mapped to the offset `x` of the region, and no fixup is over it. -/
structure ParsedImage.KeepsInPlace (parsedImage : ParsedImage) (x : Nat) : Prop where
  covered : ∃ seg ∈ parsedImage.segments.items, x ∈ seg.vmRange
  inPlace : ∀ seg ∈ parsedImage.segments.items, x ∈ seg.vmRange → seg.vmAddr = seg.fileOffset
  noFixup : ∀ fixup ∈ parsedImage.fixups, x ∉ (⟨fixup.offset, 8⟩ : ByteRange)

/-- Such a byte is there in the end. -/
theorem Holds.getElem?_inPlace {w : World} {c : Container} {q : List UInt8}
    {parsedImage : ParsedImage} {libraries : List Library} {file region : ByteRange}
    (h : Holds host cache w c (some q) parsedImage libraries file region)
    (hquiet : ∀ x, host.LeavesAlone x) {x : Nat} (hx : x < c.data.length)
    (hkeep : parsedImage.KeepsInPlace x) :
    (MappedContainer.view ⟨region, .little⟩ w.mem).data[x]? = c.data[x]? := by
  obtain ⟨before, seg, after, hsegments, hin, hlater⟩ := exists_last hkeep.covered
  have hseg : seg ∈ parsedImage.segments.items := by
    rw [hsegments]
    exact List.mem_append_right _ List.mem_cons_self
  have hmapped : mappedSegments (some q).isNone parsedImage.segments.items
      = parsedImage.segments.items := by simp [mappedSegments]
  have hfits := h.inside.segments seg (by rw [hmapped]; exact hseg)
  have hplace := hkeep.inPlace seg hseg hin
  obtain ⟨hle, hlt⟩ := ByteRange.mem_def.mp hin
  obtain ⟨i, rfl⟩ := Nat.exists_eq_add_of_le hle
  have hi : i < seg.vmSize := Nat.lt_of_add_lt_add_left hlt
  -- the slot of a fixup does not wrap around
  have hslots : OutsideSlots (some q) region.start parsedImage.fixups
      (region.start + seg.vmAddr + i) := by
    intro fixup hf hbad
    have hroom := h.inside.fixups fixup hf
    have hspace := h.inSpace
    refine hkeep.noFixup fixup hf ?_
    have hbad := ByteRange.mem_mk.mp hbad
    unfold fixupSlot ptrAdd at hbad
    have hbase : imageBase (some q) = 0 := rfl
    rw [hbase] at hroom hbad
    have hvm : seg.vmRange.start = seg.vmAddr := rfl
    exact ByteRange.mem_mk.mpr ⟨by omega, by omega⟩
  have hsame : seg.vmRange.start + i = seg.fileOffset + i := congrArg (· + i) hplace
  have hbyte := h.fileBytes before seg after (hmapped.trans hsegments) i hi hlater hslots (hquiet _)
    (hquiet _) c.data[seg.vmRange.start + i] (by rw [← hsame, List.getElem?_eq_getElem hx])
  have hregion : seg.vmRange.start + i < region.len := by
    have hvm : seg.vmRange.start = seg.vmAddr := rfl
    omega
  rw [@view_data_getElem? ⟨region, .little⟩ _ _ hregion, List.getElem?_eq_getElem hx, ← hbyte]
  exact congrArg (fun a => some (w.mem a)) (Nat.add_assoc _ _ _).symm

/-- **The file decides whether a lookup in a dylib returns**, if the load commands and the trie are
mapped in place, no fixup is over them, and the called code writes nothing. -/
theorem lookupReturns_of_inPlace (hquiet : ∀ x, host.LeavesAlone x) {rpath : Option Rpath}
    {dependency : Str × Bool} {q symbol trieBytes : List UInt8} {c : Container}
    {parsedImage : ParsedImage} {n : Nat} {span : ExportsTrieSpan}
    (hq : dependencyPath execDir rpath dependency = some q)
    (hat : imageAt host executable (some q) = some c) (hparse : c.machoParser = .ok parsedImage)
    (hheader : HeaderWithin c n span)
    (htrie : c.slice span.fileOffset span.sizeInBytes = some trieBytes)
    (hbegin : ∀ x < n, parsedImage.KeepsInPlace x)
    (hbytes : ∀ i < span.sizeInBytes, parsedImage.KeepsInPlace (span.fileOffset + i))
    (hanswer : ¬ (MachOImage.trieAnswer ⟨c, 0⟩ trieBytes symbol).Panics)
    (hown : ∀ path name,
      MachOImage.trieAnswer ⟨c, 0⟩ trieBytes symbol ≠ .ok (some (.reexported path name))) :
    LookupReturns host cache execDir executable rpath dependency symbol := by
  unfold LookupReturns
  rw [hq]
  intro w c' parsedImage' libraries file region hat' hparse' hholds
  obtain rfl := Option.some.inj (hat.symm.trans hat')
  obtain rfl := Outcome.ok.inj (hparse.symm.trans hparse')
  have hlittle : c.endian = .little := by
    obtain ⟨bytes, -, rfl⟩ := Option.map_eq_some_iff.mp hat
    rfl
  have hendian : c.endian = (MappedContainer.view ⟨region, .little⟩ w.mem).endian := hlittle
  have hfits := (Container.slice_eq_some htrie).2.1
  have hresolve := hheader.resolve_of_agree hendian htrie
    (fun x hx hin => hholds.getElem?_inPlace hquiet hin (hbegin x hx))
    (fun i hi => hholds.getElem?_inPlace hquiet (by omega) (hbytes i hi)) symbol
  refine ⟨?_, fun path name => ?_⟩
  · rw [hresolve]
    exact hanswer
  · rw [hresolve]
    exact hown path name

/-! ## The program that is linked to `/d` and `/m` -/

/-- An image of which all is known, in a file system where its dependencies can be looked up. -/
theorem imageReturns_of_parse {i : Option (List UInt8)} {c : Container} {parsedImage : ParsedImage}
    {dependencies : ArrayVec (Str × Bool) 32} (hat : imageAt host executable i = some c)
    (hparse : c.machoParser = .ok parsedImage)
    (hcollect : dependenciesCollect parsedImage cache = .ok dependencies)
    (hinside : ImageStaysInside host executable i)
    (hloads : parsedImage.Loads host cache execDir executable dependencies.items) :
    ImageReturns host cache execDir executable i where
  parses := by
    intro c' hat'
    obtain rfl := Option.some.inj (hat.symm.trans hat')
    rw [hparse]
    exact Outcome.not_panics_ok _
  staysInside := hinside
  loads := by
    intro c' parsedImage' dependencies' hat' hparse' hcollect'
    obtain rfl := Option.some.inj (hat.symm.trans hat')
    obtain rfl := Outcome.ok.inj (hparse.symm.trans hparse')
    obtain rfl := Outcome.ok.inj (hcollect.symm.trans hcollect')
    exact hloads

/-- What `/m` is parsed to. -/
def sampleExportingParsed : ParsedImage :=
  { Container.parsedImageNew true with segments := ⟨[⟨0, 0, 130, 5⟩], by decide⟩ }

theorem sampleExporting_parsed :
    (Container.mk sampleExporting .little).machoParser = .ok sampleExportingParsed := by
  decide +kernel

/-- All of `/m` is in place. -/
theorem sampleExporting_keepsInPlace {x : Nat} (hx : x < 130) :
    sampleExportingParsed.KeepsInPlace x where
  covered := ⟨⟨0, 0, 130, 5⟩, List.mem_singleton_self _,
    ByteRange.mem_mk.mpr ⟨Nat.zero_le x, (Nat.zero_add 130).symm ▸ hx⟩⟩
  inPlace := by
    intro seg hseg _
    obtain rfl := List.mem_singleton.mp hseg
    rfl
  noFixup := fun _ hf => absurd hf List.not_mem_nil

theorem sampleExporting_headerWithin :
    HeaderWithin ⟨sampleExporting, .little⟩ 120 ⟨120, 10⟩ := by
  refine ⟨by decide +kernel, fun ordinal => ⟨none, ?_⟩⟩
  exact @dylibInstallPathForOrdinal_of_none _ [(.lcSegment64, 32), (.lcDyldExportsTrie, 104)] 120
    (by decide +kernel) (by decide) ordinal

/-- `/d` can look up `_f` in `/m`. -/
theorem sampleBinding_lookupReturns : LookupReturns (sampleBoundedHost sampleBindingFile)
    sampleNoCache [] ⟨sampleBindingExecutable, .little⟩ none (⟨ascii "/m", by decide⟩, false)
    (ascii "_f") := by
  have hanswer : MachOImage.trieAnswer ⟨⟨sampleExporting, .little⟩, 0⟩
      [0, 1, 0x5f, 0x66, 0, 6, 2, 0, 4, 0] (ascii "_f") = .ok (some (.defined 4)) := by
    decide +kernel
  have htrie : (Container.mk sampleExporting .little).slice 120 10
      = some [0, 1, 0x5f, 0x66, 0, 6, 2, 0, 4, 0] := by decide +kernel
  refine @lookupReturns_of_inPlace _ _ _ _ (fun _ _ _ => ⟨rfl, rfl⟩) _ _ (ascii "/m" ++ [0]) _ _ _ _
    120 ⟨120, 10⟩ (by decide +kernel) (by decide +kernel) sampleExporting_parsed
    sampleExporting_headerWithin htrie
    (fun x hx => sampleExporting_keepsInPlace (by omega)) (fun i hi => ?_) ?_ fun path name => ?_
  · have hi : i < 10 := hi
    exact sampleExporting_keepsInPlace (show 120 + i < 130 by omega)
  · rw [hanswer]
    exact Outcome.not_panics_ok _
  · rw [hanswer]
    simp

def sampleBindingParsed : ParsedImage :=
  { Container.parsedImageNew false with
    segments := ⟨[⟨0, 0, 16, 5⟩], by decide⟩
    libraries := ⟨[(⟨ascii "/d", by decide⟩, 24)], by decide⟩ }

theorem sampleBinding_imageReturns (i : Option (List UInt8)) :
    ImageReturns (sampleBoundedHost sampleBindingFile) sampleNoCache []
      ⟨sampleBindingExecutable, .little⟩ i := by
  have hinside := sampleBinding_staysInside i
  cases i with
  | none =>
      refine @imageReturns_of_parse _ _ _ _ none _ sampleBindingParsed
        ⟨[(⟨ascii "/d", by decide⟩, false)], by decide⟩ rfl (by decide +kernel) (by decide +kernel)
        hinside ⟨by decide, by decide, ?_, fun _ hf => absurd hf List.not_mem_nil⟩
      intro dependency hdep _
      obtain rfl := List.mem_singleton.mp hdep
      exact Outcome.not_panics_ok _
  | some path =>
      by_cases hd : path = ascii "/d" ++ [0]
      · subst hd
        refine @imageReturns_of_parse _ _ _ _ _ ⟨sampleWeakBytes, .little⟩ sampleWeakParsed
          ⟨[(⟨ascii "/m", by decide⟩, false)], by decide⟩ rfl (by decide +kernel) (by decide +kernel)
          hinside ⟨by decide, by decide, ?_, ?_⟩
        · intro dependency hdep _
          obtain rfl := List.mem_singleton.mp hdep
          exact Outcome.not_panics_ok _
        · intro fixup hf symbolName ordinal isAuth addend hkind _
          obtain rfl := List.mem_singleton.mp hf
          obtain ⟨rfl, rfl, -, -⟩ := FixupKind.bind.inj hkind
          exact ⟨_, rfl, sampleBinding_lookupReturns⟩
      by_cases hm : path = ascii "/m" ++ [0]
      · subst hm
        exact @imageReturns_of_parse _ _ _ _ _ ⟨sampleExporting, .little⟩ sampleExportingParsed
          ⟨[], by decide⟩ (by decide +kernel) sampleExporting_parsed (by decide +kernel) hinside
          ⟨by decide, by decide, fun _ hdep => absurd hdep List.not_mem_nil,
            fun _ hf => absurd hf List.not_mem_nil⟩
      · have hnone : imageAt (sampleBoundedHost sampleBindingFile)
            ⟨sampleBindingExecutable, .little⟩ (some path) = none := by
          have hfile : (sampleBoundedHost sampleBindingFile).file path = none := by
            show sampleBindingFile path = none
            rw [sampleBindingFile, if_neg hd, if_neg hm]
          rw [imageAt_some, hfile]
          rfl
        exact ⟨fun c hc => absurd (hnone.symm.trans hc) (by simp), hinside,
          fun c _ _ hc => absurd (hnone.symm.trans hc) (by simp)⟩

theorem sampleBinding_files (path : List UInt8)
    (h : (sampleBoundedHost sampleBindingFile).file path ≠ none) :
    path ∈ [ascii "/d" ++ [0], ascii "/m" ++ [0]] := by
  change sampleBindingFile path ≠ none at h
  unfold sampleBindingFile at h
  split at h
  · rename_i hd
    exact hd ▸ List.mem_cons_self
  split at h
  · rename_i hm
    exact hm ▸ List.mem_cons_of_mem _ List.mem_cons_self
  · exact absurd rfl h

end Dynld
