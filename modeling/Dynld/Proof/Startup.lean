import Dynld.Proof.CacheAddresses
import Dynld.Proof.FilePositions
import Dynld.Proof.LinkedImages
import Dynld.Startup
import Mathlib.Data.List.Pairwise

/-!
# The start of a program

The linker writes to its own image before it has looked at anything else, and again before it
loads the program. What it reads in between (the program, its path and the shared cache) has
to be what the kernel put there, and it is, since all of it is apart from the linker: the
cache lies above it, and nothing of the cache is below its own header.

So `start_boots` can speak of the memory as it is in the beginning. What it says of the end
comes from two sides: `selfLinked` for the two passes over the linker's own fixups, and
`machoLoader_links` for the program. Neither disturbs the other, as loading leaves alone
what is in use.
-/

namespace Dynld

open Chains (Reaches)

/-! ## The image to load -/

theorem MappedContainer.view_slice (c : MappedContainer) (m : Mem) (offset len : Nat) :
    (c.view m).slice offset len = (c.slice offset len).map fun r => m.read r.start r.len := by
  unfold Container.slice MappedContainer.slice Bytes.bytesAt
  rw [show (c.view m).data.length = c.bytes.len from Mem.length_read _ _ _]
  by_cases hsum : offset + len < 2 ^ 64
  · by_cases hin : offset + len ≤ c.bytes.len
    · rw [if_pos hsum, if_pos hin, if_pos ⟨hsum, hin⟩]
      exact congrArg some (Mem.take_drop_read hin)
    · rw [if_pos hsum, if_neg hin, if_neg fun h => hin h.2]
      rfl
  · rw [if_neg hsum, if_neg fun h => hsum h.1]
    rfl

theorem MappedContainer.slice_within {c : MappedContainer} {offset len : Nat} {r : ByteRange}
    (h : c.slice offset len = some r) : r.Within c.bytes := by
  unfold MappedContainer.slice at h
  split at h
  · rename_i hin
    obtain rfl := Option.some.inj h
    refine ByteRange.within_of_le (Nat.le_add_right _ _) ?_
    show c.bytes.start + offset + len ≤ c.bytes.start + c.bytes.len
    omega
  · exact absurd h (by simp)

section

variable {m : Mem} {image found : MappedContainer}

/-- The slice that is found in memory reads as the slice that is found in what the image says. -/
theorem arm64SliceFindAt_view (image : MappedContainer) : ∀ n index : Nat,
    arm64SliceFind (image.view m) n index
      = arm64SliceFindAt m image n index >>= fun found => .ok (found.map (·.view m))
  | 0, _ => rfl
  | n + 1, index => by
      have ih := arm64SliceFindAt_view image n (index + 1)
      unfold arm64SliceFind arm64SliceFindAt
      cases (image.view m).fatArch (FatHeader.size + index * FatArch.structSize) with
      | none => exact ih
      | some arch =>
          dsimp only
          rw [image.view_slice]
          cases image.slice arch.offset arch.size with
          | none => exact ih
          | some bytes =>
              dsimp only [Option.map_some, containerOfMagic]
              rw [Outcome.bind_assoc, Outcome.bind_assoc]
              refine congrArg _ (funext fun magic => ?_)
              rw [Outcome.ok_bind]
              let container : MappedContainer := ⟨bytes, machoEndianFromMagic magic⟩
              by_cases harm :
                  (((container.view m).machHeader64 0).map MachHeader64.isArm64).getD false = true
              · refine (if_pos harm).trans ?_
                rw [if_pos harm]
                rfl
              · refine (if_neg harm).trans ?_
                rw [if_neg harm]
                exact ih

theorem arm64SliceFindAt_within : ∀ {n index : Nat},
    arm64SliceFindAt m image n index = .ok (some found) → found.bytes.Within image.bytes := by
  intro n
  induction n with
  | zero =>
    intro index h
    exact absurd (Outcome.ok.inj h) (by simp)
  | succ n ih =>
    intro index h
    unfold arm64SliceFindAt at h
    split at h
    · exact ih h
    split at h
    · exact ih h
    · rename_i bytes hslice
      obtain ⟨container, hcontainer, h⟩ := Outcome.bind_eq_ok.mp h
      obtain ⟨magic, -, hmagic⟩ := Outcome.bind_eq_ok.mp hcontainer
      obtain rfl := Outcome.ok.inj hmagic
      split at h
      · obtain rfl := Option.some.inj (Outcome.ok.inj h)
        exact MappedContainer.slice_within hslice
      · exact ih h

/-- **The image to load is the one that the bytes of the program say**, universal or not. -/
theorem arm64ContainerCreateAt_view : ∀ (fuel : Nat) (image : MappedContainer),
    arm64ContainerCreate fuel (image.view m)
      = arm64ContainerCreateAt m fuel image >>= fun found => .ok (found.view m)
  | 0, _ => rfl
  | fuel + 1, image => by
      unfold arm64ContainerCreate arm64ContainerCreateAt
      rw [Outcome.bind_assoc]
      refine congrArg _ (funext fun header => ?_)
      split
      · rfl
      split
      · rfl
      rw [Outcome.bind_assoc]
      refine congrArg _ (funext fun fatHeader => ?_)
      rw [arm64SliceFindAt_view, Outcome.bind_assoc, Outcome.bind_assoc]
      refine congrArg _ (funext fun found => ?_)
      cases found with
      | none => rfl
      | some container => exact arm64ContainerCreateAt_view fuel container

theorem arm64ContainerCreateAt_within : ∀ {fuel : Nat} {image : MappedContainer},
    arm64ContainerCreateAt m fuel image = .ok found → found.bytes.Within image.bytes := by
  intro fuel
  induction fuel with
  | zero =>
    intro image h
    exact absurd h (by simp [arm64ContainerCreateAt])
  | succ fuel ih =>
    intro image h
    obtain ⟨header, -, h⟩ := Outcome.bind_eq_ok.mp h
    split at h
    · obtain rfl := Outcome.ok.inj h
      exact ByteRange.Within.refl _
    split at h
    · exact absurd h (by simp)
    obtain ⟨fatHeader, -, h⟩ := Outcome.bind_eq_ok.mp h
    obtain ⟨slice, hfind, h⟩ := Outcome.bind_eq_ok.mp h
    obtain ⟨container, hslice, h⟩ := Outcome.bind_eq_ok.mp h
    obtain rfl := Outcome.okOr_eq_ok.mp hslice
    exact (ih h).trans (arm64SliceFindAt_within hfind)

end

/-! ## The cache -/

/-- The memory is the same from this address on. -/
def AgreeFrom (base : Nat) (m m' : Mem) : Prop := ∀ x, base ≤ x → m' x = m x

section

variable {base : Nat} {m m' : Mem}

theorem AgreeFrom.view_eq (h : AgreeFrom base m m') {container : MappedContainer}
    (hbase : base ≤ container.bytes.start) : container.view m' = container.view m :=
  MappedContainer.view_congr fun x hx => h x (Nat.le_trans hbase (ByteRange.mem_def.mp hx).1)

theorem AgreeFrom.containerAt_view_eq (h : AgreeFrom base m m') {pointer : Nat}
    (hbase : base ≤ pointer) (length : Nat) :
    (containerAt pointer length).view m' = (containerAt pointer length).view m :=
  h.view_eq hbase

theorem AgreeFrom.subcache_view_eq (h : AgreeFrom base m m') {subcache : MappedSubCache}
    (hbase : base ≤ subcache.container.bytes.start) : subcache.view m' = subcache.view m := by
  unfold MappedSubCache.view
  rw [h.view_eq hbase]

theorem AgreeFrom.cache_view_eq (h : AgreeFrom base m m') {cache : MappedSharedCache}
    (hbase : ∀ r ∈ cache.ranges, base ≤ r.start) : cache.view m' = cache.view m :=
  MappedSharedCache.view_congr fun r hr x hx =>
    h x (Nat.le_trans (hbase r hr) (ByteRange.mem_def.mp hx).1)

/-- One file of the cache is attached as the memory from its header on says. -/
theorem readMainCacheTotalMappedLengthFrom_congr (h : AgreeFrom base m m') {pointer : Nat}
    (hbase : base ≤ pointer) : readMainCacheTotalMappedLengthFrom m' pointer
      = readMainCacheTotalMappedLengthFrom m pointer := by
  unfold readMainCacheTotalMappedLengthFrom
  rw [h.containerAt_view_eq hbase]

theorem fromRuntimeMapping_congr (h : AgreeFrom base m m') {pointer : Nat} (hbase : base ≤ pointer)
    (length unslidBase : Nat) : MappedSubCache.fromRuntimeMapping m' pointer length unslidBase
      = MappedSubCache.fromRuntimeMapping m pointer length unslidBase := by
  unfold MappedSubCache.fromRuntimeMapping
  dsimp only
  rw [h.containerAt_view_eq hbase]

theorem attachLoop_congr (h : AgreeFrom base m m') (mainUnslidBase : Nat) (mainCache : Container)
    (subCacheArrayOffset : Nat) {n subcacheIndex : Nat} :
    attachLoop m' base mainUnslidBase mainCache subCacheArrayOffset n subcacheIndex
      = attachLoop m base mainUnslidBase mainCache subCacheArrayOffset n subcacheIndex := by
  induction n generalizing subcacheIndex with
  | zero => rfl
  | succ n ih =>
    rw [attachLoop, attachLoop]
    refine congrArg _ (funext fun subcacheEntry => congrArg _ (funext fun unslidBase => ?_))
    have hle := Nat.le_add_right base subcacheEntry.cacheVmOffset
    dsimp only
    rw [readMainCacheTotalMappedLengthFrom_congr h hle]
    refine congrArg _ (funext fun length => ?_)
    rw [fromRuntimeMapping_congr h hle]
    refine congrArg _ (funext fun subcache => ?_)
    rw [ih]

theorem dyldSharedCacheAttachAll_congr (h : AgreeFrom base m m') :
    dyldSharedCacheAttachAll m' base = dyldSharedCacheAttachAll m base := by
  have hbase := Nat.le_refl base
  unfold dyldSharedCacheAttachAll readMainCacheUnslidBaseFrom
  rw [h.containerAt_view_eq hbase,
    readMainCacheTotalMappedLengthFrom_congr h hbase]
  refine congrArg _ (funext fun mainUnslidBase => congrArg _ (funext fun length => ?_))
  rw [fromRuntimeMapping_congr h hbase]
  refine Outcome.bind_congr_ok fun main hmain => ?_
  obtain ⟨header, -, hmain⟩ := Outcome.bind_eq_ok.mp hmain
  obtain rfl := Outcome.ok.inj hmain
  dsimp only
  rw [h.containerAt_view_eq hbase]
  refine congrArg _ (funext fun header => ?_)
  rw [attachLoop_congr h]

/-- Every file of the cache is at the main header or above it. -/
theorem dyldSharedCacheAttachAll_above {subCaches : List MappedSubCache}
    (h : dyldSharedCacheAttachAll m base = .ok subCaches) :
    ∀ subcache ∈ subCaches, base ≤ subcache.container.bytes.start := by
  obtain ⟨mainUnslidBase, hunslid, -⟩ := Outcome.bind_eq_ok.mp h
  intro subcache hmem
  obtain ⟨cacheVmOffset, -, hstart⟩ := (attachAll_attached hunslid h subcache hmem).sameDistance
  rw [hstart]
  exact Nat.le_add_right base cacheVmOffset

theorem librariesIndexLoop_congr (h : AgreeFrom base m m') {cache : MappedSharedCache}
    {mainSubcache : MappedSubCache} (hmain : base ≤ mainSubcache.container.bytes.start)
    (hcache : ∀ r ∈ cache.ranges, base ≤ r.start) (imagesOffset : Nat) : ∀ n imageIndex : Nat,
      librariesIndexLoop m' cache mainSubcache imagesOffset n imageIndex
        = librariesIndexLoop m cache mainSubcache imagesOffset n imageIndex
  | 0, _ => rfl
  | n + 1, imageIndex => by
      have ih := librariesIndexLoop_congr h hmain hcache imagesOffset n (imageIndex + 1)
      unfold librariesIndexLoop
      rw [h.view_eq hmain, h.subcache_view_eq hmain, h.cache_view_eq hcache, ih]

/-- Every path is in the main file. -/
theorem librariesIndexLoop_above {cache : MappedSharedCache} {mainSubcache : MappedSubCache}
    (hmain : base ≤ mainSubcache.container.bytes.start) {imagesOffset : Nat} :
    ∀ {n imageIndex : Nat} {libraries : List MappedCacheLibrary},
      librariesIndexLoop m cache mainSubcache imagesOffset n imageIndex = .ok libraries →
      ∀ library ∈ libraries, base ≤ library.installPath.start := by
  intro n
  induction n with
  | zero =>
    intro _ libraries h
    obtain rfl := Outcome.ok.inj h
    exact fun library hmem => absurd hmem List.not_mem_nil
  | succ n ih =>
    intro imageIndex libraries h
    obtain ⟨imageInfo, -, h⟩ := Outcome.bind_eq_ok.mp h
    obtain ⟨located, -, h⟩ := Outcome.bind_eq_ok.mp h
    cases located with
    | none => exact ih h
    | some place =>
        obtain ⟨pathFound, -, h⟩ := Outcome.bind_eq_ok.mp h
        obtain ⟨pathRuntimeOffset, -, h⟩ := Outcome.bind_eq_ok.mp h
        obtain ⟨path, -, h⟩ := Outcome.bind_eq_ok.mp h
        obtain ⟨rest, hrest, h⟩ := Outcome.bind_eq_ok.mp h
        obtain rfl := Outcome.ok.inj h
        intro library hmem
        rcases List.mem_cons.mp hmem with rfl | hmem
        · exact Nat.le_trans hmain (Nat.le_add_right _ _)
        · exact ih hrest library hmem

theorem fromExisting_congr (h : AgreeFrom base m m') (cacheSlide : Nat) :
    MappedSharedCache.fromExisting m' base cacheSlide
      = MappedSharedCache.fromExisting m base cacheSlide := by
  unfold MappedSharedCache.fromExisting
  rw [dyldSharedCacheAttachAll_congr h]
  refine Outcome.bind_congr_ok fun subCaches hattach => ?_
  have habove := dyldSharedCacheAttachAll_above hattach
  have hcache : ∀ r ∈ MappedSharedCache.ranges ⟨subCaches, [], cacheSlide⟩, base ≤ r.start := by
    intro r hr
    rw [MappedSharedCache.ranges, List.map_nil, List.append_nil] at hr
    obtain ⟨subcache, hmem, rfl⟩ := List.mem_map.mp hr
    exact habove subcache hmem
  unfold mainCacheLibrariesIndexAll
  refine Outcome.bind_congr_ok fun mainSubcache hmain => ?_
  have hmain := habove mainSubcache (List.mem_of_getElem? (Outcome.orPanic_eq_ok.mp hmain))
  rw [h.view_eq hmain]
  refine congrArg _ (funext fun header => ?_)
  rw [librariesIndexLoop_congr h hmain hcache]

/-- **Nothing of the cache is below its header**: neither a file, nor a path of a library. -/
theorem fromExisting_above {cacheSlide : Nat} {cache : MappedSharedCache}
    (h : MappedSharedCache.fromExisting m base cacheSlide = .ok cache) :
    ∀ r ∈ cache.ranges, base ≤ r.start := by
  obtain ⟨subCaches, hattach, h⟩ := Outcome.bind_eq_ok.mp h
  have habove := dyldSharedCacheAttachAll_above hattach
  obtain ⟨mainSubcache, hmain, h⟩ := Outcome.bind_eq_ok.mp h
  have hmain := habove mainSubcache (List.mem_of_getElem? (Outcome.orPanic_eq_ok.mp hmain))
  obtain ⟨header, -, h⟩ := Outcome.bind_eq_ok.mp h
  obtain ⟨libraries, hlibraries, h⟩ := Outcome.bind_eq_ok.mp h
  obtain rfl := Outcome.ok.inj h
  intro r hr
  rcases List.mem_append.mp hr with hr | hr
  · obtain ⟨subcache, hmem, rfl⟩ := List.mem_map.mp hr
    exact habove subcache hmem
  · obtain ⟨library, hmem, rfl⟩ := List.mem_map.mp hr
    exact librariesIndexLoop_above hmain hlibraries library hmem

end

theorem onMem_eq_ok {α : Type} {x : Exec Mem α} {w w' : World} {a : α} :
    onMem x w = (.ok a, w') ↔ ∃ mem, x w.mem = (.ok a, mem) ∧ w' = { w with mem } := by
  unfold onMem
  constructor
  · intro h
    obtain ⟨hx, rfl⟩ := Prod.mk.inj h
    exact ⟨_, Prod.ext hx rfl, rfl⟩
  · rintro ⟨mem, hx, rfl⟩
    rw [hx]

/-! ## The path of the program -/

section

variable {m m' : Mem} {a fuel n : Nat}

theorem cStringLength_le {len : Nat} (h : cStringLength m a fuel len = .ok n) : len ≤ n := by
  induction fuel generalizing len with
  | zero => exact absurd h (by simp [cStringLength])
  | succ fuel ih =>
    rw [cStringLength] at h
    split at h
    · exact Nat.le_of_eq (Outcome.ok.inj h)
    · exact Nat.le_of_succ_le (ih h)

/-- A C string is as long as its bytes say, up to the NUL. -/
theorem cStringLength_congr {len : Nat} (h : cStringLength m a fuel len = .ok n)
    (hbytes : ∀ x ∈ (⟨a, n + 1⟩ : ByteRange), m' x = m x) :
    cStringLength m' a fuel len = .ok n := by
  induction fuel generalizing len with
  | zero => exact absurd h (by simp [cStringLength])
  | succ fuel ih =>
    have hle := cStringLength_le h
    have hbyte := hbytes (a + len) (ByteRange.mem_mk.mpr ⟨by omega, by omega⟩)
    rw [cStringLength] at h ⊢
    rw [hbyte]
    split at h
    · rename_i hnul
      rw [if_pos hnul, h]
    · rename_i hnul
      rw [if_neg hnul, ih h]

variable (m m' fuel) in
/-- The C string at `a` reads the same in both memories. -/
def SameString (a : Nat) : Prop :=
  ∃ n, cStringLength m a fuel 0 = .ok n ∧ ∀ x ∈ (⟨a, n + 1⟩ : ByteRange), m' x = m x

theorem exeDir_congr {argv : Nat} (hargv : ∀ x ∈ (⟨argv, 8⟩ : ByteRange), m' x = m x)
    (hpath : m.readWord 8 argv ≠ 0 → SameString m m' fuel (m.readWord 8 argv)) :
    exeDir m' fuel argv = exeDir m fuel argv := by
  unfold exeDir argv0
  rw [Mem.readWord_congr hargv]
  dsimp only
  by_cases harg : m.readWord 8 argv = 0
  · rw [if_pos harg, if_pos harg]
  · obtain ⟨n, hlen, hbytes⟩ := hpath harg
    rw [if_neg harg, if_neg harg, hlen, cStringLength_congr hlen hbytes, Outcome.ok_bind,
      Outcome.ok_bind]
    have hread : m'.read (m.readWord 8 argv) n = m.read (m.readWord 8 argv) n :=
      Mem.read_congr fun x hx => hbytes x (ByteRange.within_mk (Nat.le_refl _) (by omega) x hx)
    rw [hread]
    rfl

end

/-! ## The linker itself -/

/-- The linker has been fixed up, as far as the bytes that are `quiet` tell: its rebases point into
it, and its binds are in libSystem. -/
structure SelfLinked (quiet : Nat → Prop) (dstPtr : Nat) (fixups : List Fixup)
    (cache : DyldSharedCache) (m m' : Mem) : Prop where
  untouched : ∀ x, quiet x → (∀ fixup ∈ fixups, x ∉ fixupSlotRange dstPtr 0 fixup) → m' x = m x
  rebases : ∀ fixup ∈ fixups, (∀ x ∈ fixupSlotRange dstPtr 0 fixup, quiet x) →
    ∀ target, fixup.kind = .rebase target →
      m'.readWord 8 (fixupSlot dstPtr 0 fixup) = ptrAdd dstPtr target
  binds : ∀ fixup ∈ fixups, (∀ x ∈ fixupSlotRange dstPtr 0 fixup, quiet x) →
    ∀ symbolName ordinal isAuth addend, fixup.kind = .bind symbolName ordinal isAuth addend →
      ∃ a, cache.symbolResolve libsystemPath.bytes symbolName.asBytes = .ok (some a) ∧
        m'.readWord 8 (fixupSlot dstPtr 0 fixup) = a % 2 ^ 64

theorem SelfLinked.later {quiet : Nat → Prop} {dstPtr : Nat} {fixups : List Fixup}
    {cache : DyldSharedCache} {m m₁ m₂ : Mem} (h : SelfLinked quiet dstPtr fixups cache m m₁)
    (hkeep : ∀ x, quiet x → m₂ x = m₁ x) : SelfLinked quiet dstPtr fixups cache m m₂ where
  untouched x hx hout := (hkeep x hx).trans (h.untouched x hx hout)
  rebases fixup hf hquiet target hkind := by
    rw [Mem.readWord_congr fun x hx => hkeep x (hquiet x hx)]
    exact h.rebases fixup hf hquiet target hkind
  binds fixup hf hquiet symbolName ordinal isAuth addend hkind := by
    rw [Mem.readWord_congr fun x hx => hkeep x (hquiet x hx)]
    exact h.binds fixup hf hquiet symbolName ordinal isAuth addend hkind

theorem rebaseSelf_eq_ok {self : MappedContainer} {binds : List Fixup} {w w' : World}
    (h : rebaseSelfAndExtractBindFixups self w = (.ok binds, w')) :
    ∃ fixups mem, (self.view w.mem).chainedFixupsParseAll = .ok fixups ∧
      fixupAllChainedFixups self.bytes.start 0 [] [] none true fixups w.mem = (.ok (), mem) ∧
      w' = { w with mem } ∧ binds = fixups.filter Fixup.isBind := by
  obtain ⟨fixups, w₁, hlift, h₁⟩ := Exec.bind_eq_ok.mp h
  obtain ⟨hparse, rfl⟩ := Exec.lift_eq_ok.mp (Exec.mapErr_eq_ok.mp hlift)
  obtain ⟨u, w₂, honMem, h₂⟩ := Exec.bind_eq_ok.mp h₁
  obtain ⟨mem, hrun, rfl⟩ := onMem_eq_ok.mp (Exec.mapErr_eq_ok.mp honMem)
  obtain ⟨hbinds, rfl⟩ := Prod.mk.inj h₂
  exact ⟨fixups, mem, hparse, hrun, rfl, (Outcome.ok.inj hbinds).symm⟩

section

variable {dstPtr base : Nat} {fixups : List Fixup} {mapped : MappedSharedCache} {m m₁ m₂ : Mem}
  {quiet : Nat → Prop}

/-- Each bind of the linker is looked up in the one library. -/
theorem fixupWord_toFirstLibrary {symbols : List Symbol} {fixup : Fixup} {v ordinal : Nat}
    {symbolName : ArrayString symbolNameLen} {isAuth : Bool} {addend : Int}
    (hkind : fixup.kind = .bind symbolName ordinal isAuth addend)
    (h : fixupWord dstPtr 0 symbols [.system libsystemPath] (some mapped.view) m
      fixup.toFirstLibrary = .ok v) :
    (mapped.view m).symbolResolve libsystemPath.bytes symbolName.asBytes = .ok (some v) := by
  unfold Fixup.toFirstLibrary at h
  rw [hkind] at h
  obtain ⟨library, hlibrary, h⟩ := Outcome.bind_eq_ok.mp (fixupWord_bind h)
  obtain rfl := Option.some.inj (Outcome.orPanic_eq_ok.mp hlibrary)
  obtain ⟨found, hfound, h⟩ := Outcome.bind_eq_ok.mp h
  obtain rfl := Outcome.okOr_eq_ok.mp h
  exact hfound

theorem mem_toFirstLibrary {fixup : Fixup}
    (h : fixup ∈ (fixups.filter Fixup.isBind).map Fixup.toFirstLibrary) :
    ∃ bind ∈ fixups, bind.isBind = true ∧ fixup = bind.toFirstLibrary := by
  obtain ⟨bind, hbind, rfl⟩ := List.mem_map.mp h
  exact ⟨bind, (List.mem_filter.mp hbind).1, (List.mem_filter.mp hbind).2, rfl⟩

theorem rebasePass_keeps
    (h : fixupAllChainedFixups dstPtr 0 [] [] none true fixups m = (.ok (), m₁)) {x : Nat}
    (hx : ∀ fixup ∈ fixups, x ∉ fixupSlotRange dstPtr 0 fixup) : m₁ x = m x := by
  rw [fixupAllChainedFixups_eq_run] at h
  exact Patch.run_of_notMem h fun fixup hf => hx fixup (List.mem_filter.mp hf).1

theorem bindPass_keeps {symbols : List Symbol} {dylibs : List Library} {cache : Option CacheView}
    (h : fixupAllChainedFixups dstPtr 0 symbols dylibs cache false
      ((fixups.filter Fixup.isBind).map Fixup.toFirstLibrary) m₁ = (.ok (), m₂)) {x : Nat}
    (hx : ∀ fixup ∈ fixups, fixup.isBind = true → x ∉ fixupSlotRange dstPtr 0 fixup) :
    m₂ x = m₁ x := by
  rw [fixupAllChainedFixups_eq_run, filter_keepAll] at h
  refine Patch.run_of_notMem h fun fixup hf => ?_
  obtain ⟨bind, hmem, hisBind, rfl⟩ := mem_toFirstLibrary hf
  exact hx bind hmem hisBind

/-- The first pass writes the rebases, and the second pass is not over their slots. -/
theorem rebase_applied (hslots : fixups.Pairwise fun f g =>
      ByteRange.Apart (fixupSlotRange dstPtr 0 f) (fixupSlotRange dstPtr 0 g))
    (hrebase : fixupAllChainedFixups dstPtr 0 [] [] none true fixups m = (.ok (), m₁))
    (hkeep : ∀ x, (∀ fixup ∈ fixups, fixup.isBind = true → x ∉ fixupSlotRange dstPtr 0 fixup) →
      m₂ x = m₁ x)
    {fixup : Fixup} (hf : fixup ∈ fixups) {target : Nat} (hkind : fixup.kind = .rebase target) :
    m₂.readWord 8 (fixupSlot dstPtr 0 fixup) = ptrAdd dstPtr target := by
  rw [fixupAllChainedFixups_eq_run] at hrebase
  have hrebases : fixup ∈ fixups.filter fun fixup => !(true && fixup.isBind) :=
    List.mem_filter.mpr ⟨hf, by simp [Fixup.isBind, hkind]⟩
  obtain ⟨_, _, _, v, -, -, hv, hread⟩ :=
    Patch.run_slot_of_mem hrebase (hslots.sublist List.filter_sublist) hrebases
  -- a rebase is no bind, so the slots of the second pass are other words
  have hapart : ∀ bind ∈ fixups, bind.isBind = true →
      ByteRange.Apart (fixupSlotRange dstPtr 0 fixup) (fixupSlotRange dstPtr 0 bind) := by
    intro bind hmem hisBind
    have hsymm : Std.Symm fun f g =>
        ByteRange.Apart (fixupSlotRange dstPtr 0 f) (fixupSlotRange dstPtr 0 g) :=
      ⟨fun _ _ h => h.symm⟩
    refine hslots.forall hf hmem ?_
    rintro rfl
    simp [Fixup.isBind, hkind] at hisBind
  have hsame : m₂.readWord 8 (fixupSlot dstPtr 0 fixup)
      = m₁.readWord 8 (fixupSlot dstPtr 0 fixup) :=
    Mem.readWord_congr fun x hx => hkeep x fun bind hmem hisBind => hapart bind hmem hisBind x hx
  unfold fixupWord at hv
  rw [hkind] at hv
  obtain rfl := Outcome.ok.inj hv
  rw [hsame, hread]
  unfold ptrAdd
  omega

/-- The second pass writes the binds. A symbol is looked up in the cache while the pass is under
way, and the cache is as it was before the first one. -/
theorem bind_applied (hslots : fixups.Pairwise fun f g =>
      ByteRange.Apart (fixupSlotRange dstPtr 0 f) (fixupSlotRange dstPtr 0 g))
    (hbelow : ∀ fixup ∈ fixups, ∀ x ∈ fixupSlotRange dstPtr 0 fixup, x < base)
    (hcache : ∀ r ∈ mapped.ranges, base ≤ r.start) (hagree : AgreeFrom base m m₁)
    {symbols : List Symbol}
    (hbind : fixupAllChainedFixups dstPtr 0 symbols [.system libsystemPath] (some mapped.view) false
      ((fixups.filter Fixup.isBind).map Fixup.toFirstLibrary) m₁ = (.ok (), m₂))
    {fixup : Fixup} (hf : fixup ∈ fixups) {symbolName : ArrayString symbolNameLen} {ordinal : Nat}
    {isAuth : Bool} {addend : Int} (hkind : fixup.kind = .bind symbolName ordinal isAuth addend) :
    ∃ a, (mapped.view m).symbolResolve libsystemPath.bytes symbolName.asBytes = .ok (some a) ∧
      m₂.readWord 8 (fixupSlot dstPtr 0 fixup) = a % 2 ^ 64 := by
  rw [fixupAllChainedFixups_eq_run, filter_keepAll] at hbind
  have hbinds : fixup.toFirstLibrary ∈ (fixups.filter Fixup.isBind).map Fixup.toFirstLibrary :=
    List.mem_map_of_mem (List.mem_filter.mpr ⟨hf, by simp [Fixup.isBind, hkind]⟩)
  have hslots' : ((fixups.filter Fixup.isBind).map Fixup.toFirstLibrary).Pairwise fun f g =>
      ByteRange.Apart (fixupSlotRange dstPtr 0 f) (fixupSlotRange dstPtr 0 g) :=
    List.pairwise_map.mpr (hslots.sublist List.filter_sublist)
  -- `mid` is the memory that the symbol is looked up in
  obtain ⟨before, after, mid, v, hlist, hbefore, hv, hread⟩ :=
    Patch.run_slot_of_mem hbind hslots' hbinds
  -- only slots of the linker were written, and they are below the cache
  have hmid : AgreeFrom base m mid := by
    intro x hx
    refine (Patch.run_of_notMem hbefore fun f hmem hbad => ?_).trans (hagree x hx)
    obtain ⟨bind, hbindMem, -, rfl⟩ := mem_toFirstLibrary (hlist ▸ List.mem_append_left _ hmem)
    exact Nat.not_lt.mpr hx (hbelow bind hbindMem x hbad)
  refine ⟨v, ?_, hread⟩
  rw [← hmid.cache_view_eq hcache]
  exact fixupWord_toFirstLibrary hkind hv

/-- **The two passes** of the linker over its own fixups. -/
theorem selfLinked (hslots : fixups.Pairwise fun f g =>
      ByteRange.Apart (fixupSlotRange dstPtr 0 f) (fixupSlotRange dstPtr 0 g))
    (hbelow : ∀ fixup ∈ fixups, ∀ x ∈ fixupSlotRange dstPtr 0 fixup, x < base)
    (hcache : ∀ r ∈ mapped.ranges, base ≤ r.start)
    (hrebase : fixupAllChainedFixups dstPtr 0 [] [] none true fixups m = (.ok (), m₁))
    (hbind : fixupAllChainedFixups dstPtr 0 (selfBindSymbols (fixups.filter Fixup.isBind))
      [.system libsystemPath] (some mapped.view) false
      ((fixups.filter Fixup.isBind).map Fixup.toFirstLibrary) m₁ = (.ok (), m₂)) :
    SelfLinked quiet dstPtr fixups (mapped.view m) m m₂ := by
  have hagree : AgreeFrom base m m₁ := fun x hx =>
    rebasePass_keeps hrebase fun f hmem hbad => Nat.not_lt.mpr hx (hbelow f hmem x hbad)
  refine ⟨fun x _ hx => ?_, fun fixup hf _ target hkind => ?_,
    fun fixup hf _ symbolName ordinal isAuth addend hkind => ?_⟩
  · exact (bindPass_keeps hbind fun fixup hf _ => hx fixup hf).trans (rebasePass_keeps hrebase hx)
  · exact rebase_applied hslots hrebase (fun x hx => bindPass_keeps hbind hx) hf hkind
  · exact bind_applied hslots hbelow hcache hagree hbind hf hkind

end

/-! ## What the linker is started with -/

namespace Stack

/-- The linker's own image. -/
def dylinker (info : Stack) : ByteRange := ⟨info.dylinkerHeader, info.dylinkerSize⟩

/-- The image of the program. -/
def executable (info : Stack) : ByteRange := ⟨info.executableHeader, info.executableSize⟩

/-- The linker is apart from the program and from its path, and the cache is above the linker. -/
structure Fits (info : Stack) (base fuel : Nat) (w : World) : Prop where
  dylinkerInUse : ∀ x ∈ info.dylinker, w.InUse x
  executableInUse : ∀ x ∈ info.executable, w.InUse x
  executableMagic : 4 ≤ info.executableSize
  executableApart : ByteRange.Apart info.dylinker info.executable
  argvApart : ByteRange.Apart info.dylinker ⟨info.argv, 8⟩
  pathApart : w.mem.readWord 8 info.argv ≠ 0 →
    ∃ n, cStringLength w.mem (w.mem.readWord 8 info.argv) fuel 0 = .ok n ∧
      ByteRange.Apart info.dylinker ⟨w.mem.readWord 8 info.argv, n + 1⟩
  belowCache : info.dylinkerHeader + info.dylinkerSize ≤ base
  cacheInSpace : base ≤ 2 ^ 64

end Stack

/-- What there is to be found in the memory that the linker is started in. -/
structure Found where
  /-- The linker's own fixups. -/
  fixups : List Fixup
  cache : DyldSharedCache
  executable : Container
  /-- The directory of the program. -/
  execDir : List UInt8

/-- The memory says so. -/
structure Stack.Finds (info : Stack) (base fuel : Nat) (m : Mem) (found : Found) : Prop where
  fixups_eq : ∃ self, containerOfMagic info.dylinker (m.read info.dylinkerHeader 4) = .ok self ∧
    (self.view m).chainedFixupsParseAll = .ok found.fixups
  cache_eq : ∃ mapped,
    MappedSharedCache.fromExisting m base (base - dyldLikelyUnslidVmAddr) = .ok mapped ∧
      found.cache = mapped.view m
  executable_eq : ∃ image,
    containerOfMagic info.executable (m.read info.executableHeader 4) = .ok image ∧
      arm64ContainerCreate fuel (image.view m) = .ok found.executable
  execDir_eq : exeDir m fuel info.argv = .ok (some found.execDir)

/-- What the images that are found are trusted with: the linker's fixups are of different words, and
the files of the program stay inside their regions. -/
structure Found.Trusted (found : Found) (host : Host) (dylinkerHeader : Nat) : Prop where
  slots : found.fixups.Pairwise fun f g =>
    ByteRange.Apart (fixupSlotRange dylinkerHeader 0 f) (fixupSlotRange dylinkerHeader 0 g)
  files : ∀ i, Reaches (dependencyGraph host found.cache found.execDir found.executable) none i →
    ImageStaysInside host found.executable i

/-! ## A start that comes to the jump -/

/-- The calls of a start that returned. -/
structure StartRun (host : Host) (base fuel : Nat) (info : Stack) (w : World) (jump : Jump)
    (w' : World) where
  self : MappedContainer
  fixups : List Fixup
  /-- After the rebases. -/
  rebased : Mem
  outer : MappedContainer
  image : MappedContainer
  mapped : MappedSharedCache
  /-- After the binds. -/
  bound : Mem
  execDir : List UInt8
  vm : Nat
  self_eq : containerOfMagic info.dylinker (w.mem.read info.dylinkerHeader 4) = .ok self
  fixups_eq : (self.view w.mem).chainedFixupsParseAll = .ok fixups
  rebase_eq : fixupAllChainedFixups self.bytes.start 0 [] [] none true fixups w.mem
    = (.ok (), rebased)
  outer_eq : containerOfMagic info.executable (rebased.read info.executableHeader 4) = .ok outer
  image_eq : arm64ContainerCreateAt rebased fuel outer = .ok image
  cache_eq : MappedSharedCache.fromExisting rebased base (base - dyldLikelyUnslidVmAddr)
    = .ok mapped
  bind_eq : fixupAllChainedFixups self.bytes.start 0
    (selfBindSymbols (fixups.filter Fixup.isBind)) [.system libsystemPath] (some mapped.view) false
    ((fixups.filter Fixup.isBind).map Fixup.toFirstLibrary) rebased = (.ok (), bound)
  dir_eq : exeDir bound fuel info.argv = .ok (some execDir)
  load_eq : machoLoader host (mapped.view bound) execDir fuel image none { w with mem := bound }
    = (.ok (vm, jump.entrypoint), w')
  jump_eq : jump = { entrypoint := jump.entrypoint, argc := info.argc, argv := info.argv,
                     envp := info.envp, apple := info.apple }

theorem sharedCacheFind_eq_ok {base : Nat} {mapped : MappedSharedCache} {w w' : World}
    (h : sharedCacheFind (some base) w = (.ok mapped, w')) :
    MappedSharedCache.fromExisting w.mem base (base - dyldLikelyUnslidVmAddr) = .ok mapped ∧
      w' = w := by
  obtain ⟨b, w₁, hbase, h₁⟩ := Exec.bind_eq_ok.mp h
  obtain ⟨hb, rfl⟩ := Exec.liftM_eq_ok.mp hbase
  obtain rfl := Option.some.inj (Outcome.okOr_eq_ok.mp hb)
  obtain ⟨slide, w₂, hslide, h₂⟩ := Exec.bind_eq_ok.mp h₁
  obtain ⟨hsub, rfl⟩ := Exec.liftM_eq_ok.mp hslide
  have hdistance := (Outcome.sub_eq_ok.mp hsub).2
  rw [hdistance] at h₂
  exact Exec.lift_eq_ok.mp (Exec.mapErr_eq_ok.mp h₂)

theorem start_eq_ok {host : Host} {base fuel : Nat} {info : Stack} {w w' : World} {jump : Jump}
    (h : start host (some base) fuel info w = (.ok jump, w')) :
    Nonempty (StartRun host base fuel info w jump w') := by
  obtain ⟨self, w₀, hself, h₀⟩ := Exec.bind_eq_ok.mp h
  obtain ⟨self_eq, rfl⟩ := Exec.lift_eq_ok.mp hself
  obtain ⟨binds, w₁, hrebase, h₁⟩ := Exec.bind_eq_ok.mp h₀
  obtain ⟨fixups, rebased, fixups_eq, rebase_eq, rfl, rfl⟩ := rebaseSelf_eq_ok hrebase
  obtain ⟨outer, w₂, houter, h₂⟩ := Exec.bind_eq_ok.mp h₁
  obtain ⟨outer_eq, rfl⟩ := Exec.lift_eq_ok.mp houter
  obtain ⟨image, w₃, himage, h₃⟩ := Exec.bind_eq_ok.mp h₂
  obtain ⟨image_eq, rfl⟩ := Exec.lift_eq_ok.mp (Exec.mapErr_eq_ok.mp himage)
  obtain ⟨mapped, w₄, hcache, h₄⟩ := Exec.bind_eq_ok.mp h₃
  obtain ⟨cache_eq, rfl⟩ := sharedCacheFind_eq_ok hcache
  obtain ⟨u, w₅, hbind, h₅⟩ := Exec.bind_eq_ok.mp h₄
  obtain ⟨bound, bind_eq, rfl⟩ := onMem_eq_ok.mp (Exec.mapErr_eq_ok.mp hbind)
  obtain ⟨found, w₆, hfound, h₆⟩ := Exec.bind_eq_ok.mp h₅
  obtain ⟨found_eq, rfl⟩ := Exec.lift_eq_ok.mp hfound
  obtain ⟨execDir, w₇, hdir, h₇⟩ := Exec.bind_eq_ok.mp h₆
  obtain ⟨hsome, rfl⟩ := Exec.liftM_eq_ok.mp hdir
  obtain rfl := Outcome.okOr_eq_ok.mp hsome
  obtain ⟨cache, w₈, hview, h₈⟩ := Exec.bind_eq_ok.mp h₇
  obtain ⟨view_eq, rfl⟩ := Exec.lift_eq_ok.mp hview
  obtain rfl := Outcome.ok.inj view_eq
  obtain ⟨⟨vm, entrypoint⟩, w₉, hload, h₉⟩ := Exec.bind_eq_ok.mp h₈
  obtain ⟨hjump, rfl⟩ := Prod.mk.inj h₉
  obtain rfl := Outcome.ok.inj hjump
  exact ⟨{ self, fixups, rebased, outer, image, mapped, bound, execDir, vm, self_eq, fixups_eq,
           rebase_eq, outer_eq, image_eq, cache_eq, bind_eq, dir_eq := found_eq,
           load_eq := Exec.mapErr_eq_ok.mp hload, jump_eq := rfl }⟩

theorem containerOfMagic_bytes {bytes : ByteRange} {magicBytes : List UInt8}
    {container : MappedContainer} (h : containerOfMagic bytes magicBytes = .ok container) :
    container.bytes = bytes := by
  obtain ⟨magic, -, h⟩ := Outcome.bind_eq_ok.mp h
  rw [← Outcome.ok.inj h]

section

variable {host : Host} {base fuel : Nat} {info : Stack} {w w' : World} {jump : Jump}

namespace StartRun

/-- The slots of the linker's fixups are in the linker. -/
theorem slot_within (run : StartRun host base fuel info w jump w')
    (hfits : info.Fits base fuel w) {fixup : Fixup} (hf : fixup ∈ run.fixups) :
    (fixupSlotRange info.dylinkerHeader 0 fixup).Within info.dylinker := by
  have hroom := (Container.chainedFixupsParseAll_decoded run.fixups_eq fixup hf).offset_eq.2
  rw [view_data_length, containerOfMagic_bytes run.self_eq] at hroom
  exact fixupSlotRange_within (Nat.le_trans hfits.belowCache hfits.cacheInSpace) hroom

theorem self_start (run : StartRun host base fuel info w jump w') :
    run.self.bytes.start = info.dylinkerHeader := by
  rw [containerOfMagic_bytes run.self_eq]
  rfl

/-- Fixing itself up, the linker writes to nothing but itself. -/
theorem keeps (run : StartRun host base fuel info w jump w') (hfits : info.Fits base fuel w)
    {x : Nat} (hx : x ∉ info.dylinker) : run.rebased x = w.mem x ∧ run.bound x = w.mem x := by
  have hout : ∀ fixup ∈ run.fixups, x ∉ fixupSlotRange run.self.bytes.start 0 fixup := by
    intro fixup hf hbad
    rw [run.self_start] at hbad
    exact hx (run.slot_within hfits hf x hbad)
  have hkeep := rebasePass_keeps run.rebase_eq hout
  exact ⟨hkeep, (bindPass_keeps run.bind_eq fun fixup hf _ => hout fixup hf).trans hkeep⟩

/-- Nothing from the cache's header on is in the linker. -/
theorem not_dylinker (hfits : info.Fits base fuel w) {x : Nat} (hx : base ≤ x) :
    x ∉ info.dylinker := fun hbad =>
  Nat.not_lt.mpr hx (Nat.lt_of_lt_of_le (ByteRange.mem_def.mp hbad).2 hfits.belowCache)

/-- What the start has found is in the memory from the first. -/
theorem found (run : StartRun host base fuel info w jump w') (hfits : info.Fits base fuel w) :
    info.Finds base fuel w.mem
        ⟨run.fixups, run.mapped.view w.mem, run.image.view w.mem, run.execDir⟩ ∧
      run.image.view run.bound = run.image.view w.mem ∧
      run.mapped.view run.bound = run.mapped.view w.mem ∧
      (∀ r ∈ run.mapped.ranges, base ≤ r.start) ∧
      ∀ x ∈ run.image.bytes, w.InUse x := by
  have hkeep₁ := fun x hx => (run.keeps hfits (x := x) hx).1
  have hkeep₂ := fun x hx => (run.keeps hfits (x := x) hx).2
  have hagree₁ : AgreeFrom base w.mem run.rebased := fun x hx => hkeep₁ x (not_dylinker hfits hx)
  have hagree₂ : AgreeFrom base w.mem run.bound := fun x hx => hkeep₂ x (not_dylinker hfits hx)
  have hbytes := containerOfMagic_bytes run.outer_eq
  have himage : run.image.bytes.Within info.executable :=
    hbytes ▸ arm64ContainerCreateAt_within run.image_eq
  have hapart : ∀ x ∈ info.executable, x ∉ info.dylinker := fun x hx hbad =>
    hfits.executableApart x hbad hx
  have hcache_eq := run.cache_eq
  rw [fromExisting_congr hagree₁] at hcache_eq
  have hranges := fromExisting_above hcache_eq
  -- none of what is read next is in the linker
  have hmagic : run.rebased.read info.executableHeader 4 = w.mem.read info.executableHeader 4 :=
    Mem.read_congr fun x hx => hkeep₁ x (hapart x
      (ByteRange.within_mk (Nat.le_refl _) (Nat.add_le_add_left hfits.executableMagic _) x hx))
  have houter : run.outer.view run.rebased = run.outer.view w.mem :=
    MappedContainer.view_congr fun x hx => hkeep₁ x (hapart x (hbytes ▸ hx))
  have hview₁ : run.image.view run.rebased = run.image.view w.mem :=
    MappedContainer.view_congr fun x hx => hkeep₁ x (hapart x (himage x hx))
  have hcreate := arm64ContainerCreateAt_view (m := run.rebased) fuel run.outer
  rw [run.image_eq, Outcome.ok_bind, houter, hview₁] at hcreate
  have hdir := run.dir_eq
  rw [exeDir_congr (m := w.mem) (fun x hx => hkeep₂ x fun hbad => hfits.argvApart x hbad hx)
    fun hpath => ?_] at hdir
  refine ⟨⟨⟨run.self, run.self_eq, run.fixups_eq⟩, ⟨run.mapped, hcache_eq, rfl⟩,
    ⟨run.outer, hmagic ▸ run.outer_eq, hcreate⟩, hdir⟩, ?_, ?_, hranges, ?_⟩
  · exact MappedContainer.view_congr fun x hx => hkeep₂ x (hapart x (himage x hx))
  · exact hagree₂.cache_view_eq hranges
  · exact fun x hx => hfits.executableInUse x (himage x hx)
  · obtain ⟨n, hlen, hout⟩ := hfits.pathApart hpath
    exact ⟨n, hlen, fun x hx => hkeep₂ x fun hbad => hout x hbad hx⟩

end StartRun

end

/-! ## A linker that binds to libSystem

It has a rebase and a bind. The program depends on `/d`, and `/d` binds to `/m`; the one library of
the cache is libSystem. -/

/-- The rebase is at offset 192, the bind to `_f` eight bytes after it. -/
def sampleDylinker : List UInt8 :=
  sampleMachO 7 2 (sampleSegment "__TEXT" 0 208 0 208
    ++ Bytes.encodeFields .little [(4, 0x80000034), (4, 16), (4, 120), (4, 68)]
    ++ Bytes.encodeFields .little [(4, 0), (4, 28), (4, 60), (4, 64), (4, 1), (4, 1), (4, 0)]
    ++ Bytes.encodeFields .little [(4, 1), (4, 8)]
    ++ Bytes.encodeFields .little [(4, 24), (2, 0x1000), (2, 6), (8, 0), (4, 0), (2, 1), (2, 192)]
    ++ Bytes.encodeFields .little ((⟨1, false, 1, 0⟩ : ChainedImport).fields .plain)
    ++ sampleWeakTable.pool ++ List.replicate 4 0
    ++ Bytes.encode .little 8 ((@FixupRecord.rebase sampleWeakTable.imports.length 16 0).word
      .ptr64Offset 2)
    ++ Bytes.encode .little 8 ((FixupRecord.bind sampleWeakIndex 0).word .ptr64Offset 0))

/-- libSystem has `_f` at offset 4. In the cache, all is as far from the first byte as it is in the
file. -/
def sampleLibsystem : List UInt8 :=
  sampleMachO 6 2 (sampleSegment "__LINKEDIT" 0x1800002f8 10 0x2f8 10
    ++ Bytes.encodeFields .little [(4, 0x80000033), (4, 16), (4, 0x2f8), (4, 10)]
    ++ [0, 1, 0x5f, 0x66, 0, 6, 2, 0, 4, 0])

/-- The header of the cache with its mapping and its image. -/
def sampleStartHeader : Mem :=
  [(4, 0x180000010, 0x228), (4, 0x180000014, 1), (4, 0x1800001c0, 0x260), (4, 0x1800001c4, 1),
   (8, 0x180000228, 0x180000000), (8, 0x180000230, 0x400), (8, 0x180000260, 0x180000280),
   (4, 0x180000278, 0x310)].foldl (fun m (width, a, v) => m.writeWord width a v) fun _ => 0

/-- After the header there are libSystem and its path. -/
def sampleStartCache : Mem :=
  (sampleStartHeader.write 0x180000280 sampleLibsystem).write 0x180000310 libsystemPath.bytes

def sampleStartMemory : Mem :=
  (((sampleStartCache.write 0x1000 sampleDylinker).write 0x2000
    sampleBindingExecutable).writeWord 8 0x3000 0x3010).write 0x3010 (ascii "/a/b")

def sampleStack : Stack where
  dylinkerHeader := 0x1000
  executableHeader := 0x2000
  dylinkerSize := 208
  executableSize := sampleBindingExecutable.length
  argc := 1
  argv := 0x3000
  envp := 0x3008
  apple := 0x3008

def sampleStartWorld : World where
  mem := sampleStartMemory
  regions := [sampleStack.dylinker, sampleStack.executable]
  trace := []

def sampleStartRun : Outcome Jump × World :=
  start (sampleBoundedHost sampleBindingFile) (some 0x180000000) 8 sampleStack sampleStartWorld

def sampleJump : Jump := ⟨0x1000023ac, 1, 0x3000, 0x3008, 0x3008⟩

theorem sampleStart_returns : sampleStartRun.1 = .ok sampleJump := by decide +kernel

theorem sampleStart_fits : sampleStack.Fits 0x180000000 8 sampleStartWorld where
  dylinkerInUse x hx := ⟨sampleStack.dylinker, List.mem_cons_self, hx⟩
  executableInUse x hx :=
    ⟨sampleStack.executable, List.mem_cons_of_mem _ List.mem_cons_self, hx⟩
  executableMagic := by decide +kernel
  executableApart := by decide +kernel
  argvApart := by decide
  pathApart _ := ⟨4, by decide +kernel, by decide +kernel⟩
  belowCache := by decide
  cacheInSpace := by decide

/-- What the linker's own fixups are parsed to. -/
def sampleDylinkerFixups : List Fixup :=
  [⟨192, .rebase 16⟩, ⟨200, .bind (sampleSymbolName "_f" sampleWeakFixup_valid) 1 false 0⟩]

theorem sampleStart_trusted (found : Found)
    (h : sampleStack.Finds 0x180000000 8 sampleStartMemory found) :
    found.Trusted (sampleBoundedHost sampleBindingFile) 0x1000 := by
  obtain ⟨self, hself, hparse⟩ := h.fixups_eq
  have hself' : containerOfMagic sampleStack.dylinker (sampleStartMemory.read 0x1000 4)
      = .ok ⟨sampleStack.dylinker, .little⟩ := by decide +kernel
  obtain rfl := Outcome.ok.inj (hself'.symm.trans hself)
  have hparse' : (MappedContainer.view ⟨sampleStack.dylinker, .little⟩
      sampleStartMemory).chainedFixupsParseAll = .ok sampleDylinkerFixups := by decide +kernel
  have hfixups := Outcome.ok.inj (hparse'.symm.trans hparse)
  obtain ⟨image, himage, hcreate⟩ := h.executable_eq
  have himage' : containerOfMagic sampleStack.executable (sampleStartMemory.read 0x2000 4)
      = .ok ⟨sampleStack.executable, .little⟩ := by decide +kernel
  obtain rfl := Outcome.ok.inj (himage'.symm.trans himage)
  have hcreate' : arm64ContainerCreate 8 (MappedContainer.view ⟨sampleStack.executable, .little⟩
      sampleStartMemory) = .ok ⟨sampleBindingExecutable, .little⟩ := by decide +kernel
  have hexecutable := Outcome.ok.inj (hcreate'.symm.trans hcreate)
  refine ⟨?_, fun i _ => ?_⟩
  · rw [← hfixups]
    decide +kernel
  · rw [← hexecutable]
    exact sampleBinding_staysInside i

/-- The rebase points to offset 16 of the linker, and the bind to `_f` of libSystem. -/
example : sampleStartRun.2.mem.readWord 8 (0x1000 + 192) = 0x1000 + 16 ∧
    sampleStartRun.2.mem.readWord 8 (0x1000 + 200) = 0x180000280 + 4 := by decide +kernel

end Dynld
