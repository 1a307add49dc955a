import Dynld.FixupApply
import Dynld.Lib.Patch
import Dynld.Proof.SharedCacheLookup

/-!
# The order of fixups does not matter

The dynamic linker fixes itself up in two passes, with the loading of the shared cache
in between, and an executable in one. Both are runs of `Patch`: a fixup puts one word
in one slot, and computes it from the bytes of libraries and of the cache only
(`fixupWord_congr`). Where no slot touches those bytes and no two slots overlap, the
rules of `Patch` give what is asked for: nothing outside the slots changes, every
order of the fixups leaves the same memory, and so do the two passes.
-/

namespace Dynld

/-! ## What a fixup reads and writes -/

def Fixup.isBind (fixup : Fixup) : Bool :=
  match fixup.kind with
  | .rebase _ => false
  | .bind _ _ _ _ => true

/-- The bytes of a library. -/
def Library.ranges : Library → List ByteRange
  | .system _ => []
  | .user container => [container.bytes]

/-- The bytes that the view of the cache shows. -/
def MappedSharedCache.ranges (cache : MappedSharedCache) : List ByteRange :=
  cache.subCaches.map (·.container.bytes) ++ cache.libraries.map (·.installPath)

/-- All that symbols are looked up in. -/
def lookupRanges (dylibs : List Library) (dyldSharedCache : Option MappedSharedCache) :
    List ByteRange :=
  dylibs.flatMap Library.ranges ++ dyldSharedCache.toList.flatMap MappedSharedCache.ranges

section

variable (dstPtr pageZeroSize : Nat) (symbols : List Symbol) (dylibs : List Library)
  (dyldSharedCache : Option CacheView)

/-- The address of the word that a fixup overwrites. -/
def fixupSlot (fixup : Fixup) : Nat := ptrAdd (ptrAdd dstPtr fixup.offset) pageZeroSize

/-- Its eight bytes. -/
def fixupSlotRange (fixup : Fixup) : ByteRange := ⟨fixupSlot dstPtr pageZeroSize fixup, 8⟩

/-- The word that a symbol of this library is bound to. -/
def regularWord (symbolName : ArrayString symbolNameLen) (m : Mem) : Library → Outcome Nat
  | .system libraryName =>
      match dyldSharedCache with
      | none => .err "failed to link library"
      | some sharedCache => do
          let found ← (sharedCache m).symbolResolve libraryName.bytes symbolName.asBytes
          Outcome.okOr found "could not find a symbol in the dyld shared cache"
  | .user libContainer => do
      let found ← dylibSymbolResolve (libContainer.view m) symbolName.asBytes
      match ← Outcome.okOr found "failed to find symbol in user dylib" with
      | .defined offsetFromMachHeader => .ok (ptrAdd libContainer.bytes.start offsetFromMachHeader)
      | .reexported _ _ => .panic "not implemented: DylibSymbol::Reexported"

/-- The word that a fixup puts in its slot. -/
def fixupWord (m : Mem) (fixup : Fixup) : Outcome Nat :=
  match fixup.kind with
  | .rebase target => .ok (ptrAdd (ptrAdd dstPtr target) pageZeroSize)
  | .bind symbolName ordinal _ _ =>
      if ordinal = bindSpecialDylibSelf then
        .err "BIND_SPECIAL_DYLIB_SELF is not yet supported"
      else if ordinal = bindSpecialDylibMainExecutable then
        .err "BIND_SPECIAL_DYLIB_MAIN_EXECUTABLE is not yet supported"
      else if ordinal = bindSpecialDylibFlatLookup then
        .err "BIND_SPECIAL_DYLIB_FLAT_LOOKUP is not yet supported"
      else if ordinal = bindSpecialDylibWeakLookup then do
        let symbol ← Outcome.okOr (symbols.find? fun sym => sym.arrayStringCmp symbolName)
          "could not find a matching symbol while fixing up a BIND_SPECIAL_DYLIB_WEAK_LOOKUP"
        .ok (ptrAdd dstPtr symbol.implOffset)
      else do
        let library ← Outcome.orPanic dylibs[ordinal - 1]? "index out of bounds"
        regularWord dyldSharedCache symbolName m library

end

/-! ## A word depends on the bytes it is looked up in -/

theorem MappedContainer.view_congr {container : MappedContainer} {m m' : Mem}
    (h : ∀ x ∈ container.bytes, m' x = m x) : container.view m' = container.view m := by
  unfold view
  rw [Mem.read_congr h]

theorem MappedSharedCache.view_congr {cache : MappedSharedCache} {m m' : Mem}
    (h : Patch.Agree cache.ranges m m') : cache.view m' = cache.view m := by
  have hsub : ∀ subcache ∈ cache.subCaches,
      subcache.container.view m' = subcache.container.view m := fun subcache hmem =>
    MappedContainer.view_congr (h _ (List.mem_append_left _ (List.mem_map.mpr ⟨subcache, hmem, rfl⟩)))
  have hlib : ∀ library ∈ cache.libraries,
      m'.read library.installPath.start library.installPath.len
        = m.read library.installPath.start library.installPath.len := fun library hmem =>
    Mem.read_congr (h _ (List.mem_append_right _ (List.mem_map.mpr ⟨library, hmem, rfl⟩)))
  unfold view
  congr 1
  · refine List.map_congr_left fun subcache hmem => ?_
    rw [hsub subcache hmem]
  · refine List.map_congr_left fun library hmem => ?_
    rw [hlib library hmem]

section

variable {dstPtr pageZeroSize : Nat} {symbols : List Symbol} {dylibs : List Library}
  {cache : Option MappedSharedCache} {dyldSharedCache : Option CacheView} {m m' : Mem}

theorem regularWord_congr {symbolName : ArrayString symbolNameLen} {library : Library}
    (hlib : library ∈ dylibs) (h : Patch.Agree (lookupRanges dylibs cache) m m') :
    regularWord (cache.map (·.view)) symbolName m' library
      = regularWord (cache.map (·.view)) symbolName m library := by
  cases library with
  | user container =>
      have hrange : container.bytes ∈ lookupRanges dylibs cache :=
        List.mem_append_left _ (List.mem_flatMap.mpr ⟨_, hlib, List.mem_singleton_self _⟩)
      rw [regularWord, regularWord, MappedContainer.view_congr (h _ hrange)]
  | system libraryName =>
      cases cache with
      | none => rfl
      | some sharedCache =>
          have hview : sharedCache.view m' = sharedCache.view m := by
            refine MappedSharedCache.view_congr fun r hr => h r (List.mem_append_right _ ?_)
            exact List.mem_flatMap.mpr ⟨_, List.mem_singleton_self _, hr⟩
          show ((sharedCache.view m').symbolResolve _ _ >>= _)
            = ((sharedCache.view m).symbolResolve _ _ >>= _)
          rw [hview]

/-- **No fixup looks at anything but the libraries and the cache.** -/
theorem fixupWord_congr (m m' : Mem) (fixup : Fixup)
    (h : Patch.Agree (lookupRanges dylibs cache) m m') :
    fixupWord dstPtr pageZeroSize symbols dylibs (cache.map (·.view)) m' fixup
      = fixupWord dstPtr pageZeroSize symbols dylibs (cache.map (·.view)) m fixup := by
  unfold fixupWord
  cases fixup.kind with
  | rebase target => rfl
  | bind symbolName ordinal isAuth addend =>
      dsimp only
      cases hlib : dylibs[ordinal - 1]? with
      | none => rw [Outcome.orPanic_none, Outcome.panic_bind, Outcome.panic_bind]
      | some library =>
          rw [Outcome.orPanic_some, Outcome.ok_bind, Outcome.ok_bind,
            regularWord_congr (List.mem_of_getElem? hlib) h]

/-! ## Applying fixups is patching -/

theorem ptrAdd_right_comm (p a b : Nat) : ptrAdd (ptrAdd p a) b = ptrAdd (ptrAdd p b) a := by
  unfold ptrAdd
  omega

theorem fixupDylibWeakSymbol_eq {offset : Nat} {symbolName : ArrayString symbolNameLen} :
    fixupDylibWeakSymbol dstPtr offset pageZeroSize symbols symbolName
      = Patch.one 8 (ptrAdd (ptrAdd dstPtr offset) pageZeroSize) (fun _ => do
          let symbol ← Outcome.okOr (symbols.find? fun sym => sym.arrayStringCmp symbolName)
            "could not find a matching symbol while fixing up a BIND_SPECIAL_DYLIB_WEAK_LOOKUP"
          .ok (ptrAdd dstPtr symbol.implOffset)) := by
  unfold fixupDylibWeakSymbol
  cases symbols.find? fun sym => sym.arrayStringCmp symbolName with
  | none => rfl
  | some symbol => rfl

theorem fixupRegularSymbol_eq {offset : Nat} {symbolName : ArrayString symbolNameLen}
    {library : Library} :
    fixupRegularSymbol dstPtr offset pageZeroSize symbolName library dyldSharedCache
      = Patch.one 8 (ptrAdd (ptrAdd dstPtr offset) pageZeroSize)
          (fun m => regularWord dyldSharedCache symbolName m library) := by
  funext m
  rw [ptrAdd_right_comm, Patch.one, Exec.bind_run, Exec.lift_run]
  cases library with
  | user container =>
      rw [fixupRegularSymbol, regularWord, Exec.bind_run, Exec.lift_run]
      cases dylibSymbolResolve (container.view m) symbolName.asBytes with
      | ok found =>
          cases found with
          | none => rfl
          | some resolution =>
              cases resolution with
              | defined offset => rfl
              | reexported path symbol => rfl
      | err msg => rfl
      | panic msg => rfl
      | outOfFuel => rfl
  | system libraryName =>
      cases dyldSharedCache with
      | none => rfl
      | some sharedCache =>
          rw [fixupRegularSymbol, regularWord, Exec.bind_run, Exec.lift_run]
          cases (sharedCache m).symbolResolve libraryName.bytes symbolName.asBytes with
          | ok found =>
              cases found with
              | none => rfl
              | some resolvedSymbol => rfl
          | err msg => rfl
          | panic msg => rfl
          | outOfFuel => rfl

/-- A fixup that is not ignored is one patch. -/
theorem fixupOne_eq {ignoreBinds : Bool} {fixup : Fixup}
    (h : (ignoreBinds && fixup.isBind) = false) :
    fixupOne dstPtr pageZeroSize symbols dylibs dyldSharedCache ignoreBinds fixup
      = Patch.one 8 (fixupSlot dstPtr pageZeroSize fixup)
          (fun m => fixupWord dstPtr pageZeroSize symbols dylibs dyldSharedCache m fixup) := by
  unfold fixupOne fixupWord fixupSlot
  unfold Fixup.isBind at h
  cases hkind : fixup.kind with
  | rebase target => rfl
  | bind symbolName ordinal isAuth addend =>
      have hbinds : ignoreBinds = false := by simpa [hkind] using h
      subst hbinds
      dsimp only
      rw [if_neg Bool.false_ne_true]
      by_cases hself : ordinal = bindSpecialDylibSelf
      · simp only [if_pos hself]
        rfl
      by_cases hmain : ordinal = bindSpecialDylibMainExecutable
      · simp only [if_neg hself, if_pos hmain]
        rfl
      by_cases hflat : ordinal = bindSpecialDylibFlatLookup
      · simp only [if_neg hself, if_neg hmain, if_pos hflat]
        rfl
      by_cases hweak : ordinal = bindSpecialDylibWeakLookup
      · simp only [if_neg hself, if_neg hmain, if_neg hflat, if_pos hweak]
        exact fixupDylibWeakSymbol_eq
      · simp only [if_neg hself, if_neg hmain, if_neg hflat, if_neg hweak]
        cases dylibs[ordinal - 1]? with
        | none => rfl
        | some library => exact fixupRegularSymbol_eq

theorem fixupOne_ignored {fixup : Fixup} (h : fixup.isBind = true) :
    fixupOne dstPtr pageZeroSize symbols dylibs dyldSharedCache true fixup = pure () := by
  unfold Fixup.isBind at h
  unfold fixupOne
  cases hkind : fixup.kind with
  | rebase target => simp [hkind] at h
  | bind symbolName ordinal isAuth addend => rfl

/-- **The loop is a run of patches**, of those fixups that are not ignored. -/
theorem fixupAllChainedFixups_eq_run (ignoreBinds : Bool) : ∀ fixups : List Fixup,
    fixupAllChainedFixups dstPtr pageZeroSize symbols dylibs dyldSharedCache ignoreBinds fixups
      = Patch.run 8 (fixupSlot dstPtr pageZeroSize)
          (fixupWord dstPtr pageZeroSize symbols dylibs dyldSharedCache)
          (fixups.filter fun fixup => !(ignoreBinds && fixup.isBind))
  | [] => rfl
  | fixup :: fixups => by
      have ih := fixupAllChainedFixups_eq_run ignoreBinds fixups
      rw [fixupAllChainedFixups, ih]
      by_cases hkeep : (ignoreBinds && fixup.isBind) = false
      · rw [List.filter_cons_of_pos (by rw [hkeep]; rfl), Patch.run, fixupOne_eq hkeep]
      · obtain ⟨rfl, hbind⟩ : ignoreBinds = true ∧ fixup.isBind = true := by simpa using hkeep
        rw [List.filter_cons_of_neg (by rw [hbind]; decide), fixupOne_ignored hbind]
        rfl

/-! ## The order does not matter -/

variable {fixups : List Fixup} {ignoreBinds : Bool}

/-- A run that returns has computed every word from the memory it started with. -/
theorem fixupAllChainedFixups_eq_ok
    (hlookup : ∀ fixup ∈ fixups, ∀ r ∈ lookupRanges dylibs cache,
      ByteRange.Apart (fixupSlotRange dstPtr pageZeroSize fixup) r)
    {m₀ : Mem} (hm : Patch.Agree (lookupRanges dylibs cache) m₀ m) :
    fixupAllChainedFixups dstPtr pageZeroSize symbols dylibs (cache.map (·.view)) ignoreBinds fixups m
        = (.ok (), m') ↔
      (∀ fixup ∈ fixups.filter fun fixup => !(ignoreBinds && fixup.isBind), ∃ v,
        fixupWord dstPtr pageZeroSize symbols dylibs (cache.map (·.view)) m₀ fixup = .ok v) ∧
      m' = Patch.patched 8 (fixupSlot dstPtr pageZeroSize)
        (Patch.valueAt (fixupWord dstPtr pageZeroSize symbols dylibs (cache.map (·.view))) m₀)
        (fixups.filter fun fixup => !(ignoreBinds && fixup.isBind)) m := by
  rw [fixupAllChainedFixups_eq_run]
  exact Patch.run_eq_ok fixupWord_congr
    (fun fixup hf => hlookup fixup (List.mem_filter.mp hf).1) hm

/-- A run that ignores binds looks nothing up. -/
theorem fixupAllChainedFixups_ignoring (symbols symbols' : List Symbol)
    (dylibs dylibs' : List Library) (dyldSharedCache dyldSharedCache' : Option CacheView) :
    ∀ fixups : List Fixup,
    fixupAllChainedFixups dstPtr pageZeroSize symbols' dylibs' dyldSharedCache' true fixups
      = fixupAllChainedFixups dstPtr pageZeroSize symbols dylibs dyldSharedCache true fixups
  | [] => rfl
  | fixup :: fixups => by
      have ih := fixupAllChainedFixups_ignoring symbols symbols' dylibs dylibs' dyldSharedCache
        dyldSharedCache' fixups
      have hone : fixupOne dstPtr pageZeroSize symbols' dylibs' dyldSharedCache' true fixup
          = fixupOne dstPtr pageZeroSize symbols dylibs dyldSharedCache true fixup := by
        unfold fixupOne
        cases fixup.kind with
        | rebase target => rfl
        | bind symbolName ordinal isAuth addend => rfl
      rw [fixupAllChainedFixups, fixupAllChainedFixups, ih, hone]

theorem fixupWord_rebase_ok {fixup : Fixup} (h : fixup.isBind = false) :
    ∃ v, fixupWord dstPtr pageZeroSize symbols dylibs dyldSharedCache m fixup = .ok v := by
  unfold Fixup.isBind at h
  unfold fixupWord
  cases hkind : fixup.kind with
  | rebase target => exact ⟨_, rfl⟩
  | bind symbolName ordinal isAuth addend => simp [hkind] at h

/-- A run that ignores nothing applies every fixup. -/
theorem filter_keepAll (fixups : List Fixup) :
    fixups.filter (fun fixup => !(false && fixup.isBind)) = fixups := by simp

/-- A first pass without the binds, and a second pass over the binds alone. -/
theorem fixupAllChainedFixups_twoPass
    (hslots : fixups.Pairwise fun f g =>
      ByteRange.Apart (fixupSlotRange dstPtr pageZeroSize f) (fixupSlotRange dstPtr pageZeroSize g))
    (hlookup : ∀ fixup ∈ fixups, ∀ r ∈ lookupRanges dylibs cache,
      ByteRange.Apart (fixupSlotRange dstPtr pageZeroSize fixup) r)
    (hok : fixupAllChainedFixups dstPtr pageZeroSize symbols dylibs (cache.map (·.view)) false
      fixups m = (.ok (), m')) :
    ∃ mid,
      fixupAllChainedFixups dstPtr pageZeroSize symbols dylibs (cache.map (·.view)) true fixups m
        = (.ok (), mid) ∧
      fixupAllChainedFixups dstPtr pageZeroSize symbols dylibs (cache.map (·.view)) false
        (fixups.filter Fixup.isBind) mid = (.ok (), m') := by
  have hself : Patch.Agree (lookupRanges dylibs cache) m m := fun _ _ _ _ => rfl
  obtain ⟨hwords, hm'⟩ := (fixupAllChainedFixups_eq_ok hlookup hself).mp hok
  rw [filter_keepAll] at hwords hm'
  -- the first pass does the rebases …
  have hfirst : ∀ fixup ∈ fixups.filter fun fixup => !(true && fixup.isBind),
      fixup ∈ fixups ∧ fixup.isBind = false := fun fixup hf => by simpa using hf
  refine ⟨_, (fixupAllChainedFixups_eq_ok hlookup hself).mpr
    ⟨fun fixup hf => fixupWord_rebase_ok (hfirst fixup hf).2, rfl⟩, ?_⟩
  -- … after which the binds still find what they would have found at first
  have hagree := Patch.agree_patched m
    (Patch.valueAt (fixupWord dstPtr pageZeroSize symbols dylibs (cache.map (·.view))) m)
    fun fixup hf => hlookup fixup (hfirst fixup hf).1
  refine (fixupAllChainedFixups_eq_ok
    (fun fixup hf => hlookup fixup (List.mem_filter.mp hf).1) hagree).mpr ?_
  rw [filter_keepAll]
  refine ⟨fun fixup hf => hwords fixup (List.mem_filter.mp hf).1, ?_⟩
  rw [hm', Patch.patched_append]
  refine Patch.patched_perm ?_ hslots
  have hp := List.filter_append_perm (fun fixup => !(true && fixup.isBind)) fixups
  simpa using hp.symm

/-- **Applying fixups.** Let the slots be disjoint from each other and from all that symbols
are looked up in, and let the run return. Then it changed nothing outside the slots; a run in
any other order returns with the same memory; and so do two runs, one that ignores binds, and
which needs no symbols, libraries or cache, and a later one over the binds alone. -/
theorem fixupAllChainedFixups_orderFree
    (hslots : fixups.Pairwise fun f g =>
      ByteRange.Apart (fixupSlotRange dstPtr pageZeroSize f) (fixupSlotRange dstPtr pageZeroSize g))
    (hlookup : ∀ fixup ∈ fixups, ∀ r ∈ lookupRanges dylibs cache,
      ByteRange.Apart (fixupSlotRange dstPtr pageZeroSize fixup) r)
    (hok : fixupAllChainedFixups dstPtr pageZeroSize symbols dylibs (cache.map (·.view)) ignoreBinds
      fixups m = (.ok (), m')) :
    (∀ x, (∀ fixup ∈ fixups, x ∉ fixupSlotRange dstPtr pageZeroSize fixup) → m' x = m x) ∧
    (∀ fixups', fixups.Perm fixups' →
      fixupAllChainedFixups dstPtr pageZeroSize symbols dylibs (cache.map (·.view)) ignoreBinds
        fixups' m = (.ok (), m')) ∧
    (ignoreBinds = false → ∃ mid,
      (∀ symbols' dylibs' dyldSharedCache',
        fixupAllChainedFixups dstPtr pageZeroSize symbols' dylibs' dyldSharedCache' true fixups m
          = (.ok (), mid)) ∧
      fixupAllChainedFixups dstPtr pageZeroSize symbols dylibs (cache.map (·.view)) false
        (fixups.filter Fixup.isBind) mid = (.ok (), m')) := by
  have hself : Patch.Agree (lookupRanges dylibs cache) m m := fun _ _ _ _ => rfl
  -- a run that succeeds is one patch: every word is a function of the ranges that are looked up
  obtain ⟨hwords, hm'⟩ := (fixupAllChainedFixups_eq_ok hlookup hself).mp hok
  refine ⟨?_, ?_, ?_⟩
  · intro x hx
    rw [hm']
    exact Patch.patched_of_notMem fun fixup hf => hx fixup (List.mem_filter.mp hf).1
  · intro fixups' hp
    have hpf := hp.filter fun fixup => !(ignoreBinds && fixup.isBind)
    refine (fixupAllChainedFixups_eq_ok
      (fun fixup hf => hlookup fixup (hp.mem_iff.mpr hf)) hself).mpr ⟨?_, ?_⟩
    · exact fun fixup hf => hwords fixup (hpf.mem_iff.mpr hf)
    · rw [hm']
      exact Patch.patched_perm hpf (hslots.sublist List.filter_sublist)
  · rintro rfl
    obtain ⟨mid, hfirst, hsecond⟩ := fixupAllChainedFixups_twoPass hslots hlookup hok
    refine ⟨mid, fun symbols' dylibs' dyldSharedCache' => ?_, hsecond⟩
    rw [fixupAllChainedFixups_ignoring symbols symbols' dylibs dylibs' (cache.map (·.view))
      dyldSharedCache']
    exact hfirst

end

/-! ## A small run

A rebase and three binds: one to the weak symbol, one to a user dylib, and one to a
library of the cache. -/

def sampleUserDylib : List UInt8 :=
  DyldSharedCache.sampleLibraryImage 152 10 0xc "/c" ++ [0, 1, 0x5f, 0x67, 0, 6, 2, 0, 4, 0]

def sampleMemory : Mem :=
  Mem.write (Mem.write (fun _ => 0) 0x1000 sampleUserDylib) 0x4000
    (DyldSharedCache.sampleCache.subCaches.flatMap (·.container.data))

def sampleMappedCache : MappedSharedCache where
  subCaches := [⟨⟨⟨0x4000, 359⟩, .little⟩, 0x1000, 0, 1⟩]
  -- the paths are the names in the dylib commands of the two images
  libraries := [⟨0, 32, ⟨0x4148, 2⟩, 0x1020⟩, ⟨0, 184, ⟨0x40b0, 2⟩, 0x10b8⟩]
  cacheSlide := 0x100000

def sampleSymbolName (name : String) (h : validUtf8 (ascii name) = true ∧ (ascii name).length ≤ 128) :
    ArrayString symbolNameLen :=
  ⟨⟨ascii name, h.1⟩, h.2⟩

def sampleFixupList : List Fixup :=
  [⟨0, .rebase 0x20⟩,
   ⟨8, .bind (sampleSymbolName "_w" (by decide)) bindSpecialDylibWeakLookup false 0⟩,
   ⟨16, .bind (sampleSymbolName "_g" (by decide)) 1 false 0⟩,
   ⟨24, .bind (sampleSymbolName "_f" (by decide)) 2 false 0⟩]

theorem sampleFixupList_orderFree :
    let apply := fixupAllChainedFixups 0x8000 0
      [Symbol.makeWeakDefExport (sampleSymbolName "_w" (by decide)) 0x30 1 false false]
      [.user ⟨⟨0x1000, 162⟩, .little⟩, .system ⟨ascii "/b", by decide⟩] (some sampleMappedCache.view)
    let m' := (apply false sampleFixupList sampleMemory).2
    (∀ x, (∀ fixup ∈ sampleFixupList, x ∉ fixupSlotRange 0x8000 0 fixup) →
      m' x = sampleMemory x) ∧
    apply false sampleFixupList.reverse sampleMemory = (.ok (), m') ∧
    ∃ mid, fixupAllChainedFixups 0x8000 0 [] [] none true sampleFixupList sampleMemory
        = (.ok (), mid) ∧
      apply false (sampleFixupList.filter Fixup.isBind) mid = (.ok (), m') := by
  intro apply m'
  have hok : apply false sampleFixupList sampleMemory = (.ok (), m') :=
    Exec.eq_of_fst (by decide +kernel)
  have hslots : sampleFixupList.Pairwise fun f g =>
      ByteRange.Apart (fixupSlotRange 0x8000 0 f) (fixupSlotRange 0x8000 0 g) := by
    decide +kernel
  have hlookup : ∀ fixup ∈ sampleFixupList,
      ∀ r ∈ lookupRanges [.user ⟨⟨0x1000, 162⟩, .little⟩, .system ⟨ascii "/b", by decide⟩]
        (some sampleMappedCache), ByteRange.Apart (fixupSlotRange 0x8000 0 fixup) r := by
    decide +kernel
  obtain ⟨hframe, hperm, htwo⟩ := fixupAllChainedFixups_orderFree hslots hlookup hok
  obtain ⟨mid, hfirst, hsecond⟩ := htwo rfl
  exact ⟨hframe, hperm _ (List.reverse_perm _).symm, mid, hfirst [] [] none, hsecond⟩

end Dynld
