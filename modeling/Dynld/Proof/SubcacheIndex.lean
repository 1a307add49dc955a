import Dynld.Proof.CacheAddresses

/-!
# A subcache's index in eight bits

The search for the subcache of an address ends at the first one that covers it, and
returns its index as a `u8`. The header counts subcaches in a `u32`. From index 256 on
the cast leaves a smaller index, and the subcache there was asked before: it does not
cover the address.
-/

namespace Dynld

namespace DyldSharedSubCache

/-- A mapping of the table has the address. -/
def Covers (subcache : DyldSharedSubCache) (a : Nat) : Prop :=
  ∃ k < subcache.mappingTableEntryCount, ∃ mapping, subcache.mappingAt k = .ok mapping ∧
    mapping.Covers a

variable {subcache : DyldSharedSubCache} {a : Nat}

theorem covers_of_some {off : Nat}
    (h : subcache.runtimeOffsetForVmAddress a = .ok (some off)) : subcache.Covers a := by
  obtain ⟨k, mapping, hk, hread, hcovers, -, -⟩ := runtimeOffsetLoop_eq_some h
  exact ⟨k, by omega, mapping, hread, hcovers⟩

theorem not_covers_of_none (h : subcache.runtimeOffsetForVmAddress a = .ok none) :
    ¬ subcache.Covers a := by
  rintro ⟨k, hk, mapping, hread, hcovers⟩
  obtain ⟨mapping', hread', hnot⟩ := runtimeOffsetLoop_eq_none h k (Nat.zero_le k) (by omega)
  obtain rfl := Outcome.ok.inj (hread.symm.trans hread')
  exact hnot hcovers

end DyldSharedSubCache

namespace DyldSharedCache

/-- The subcache at this index covers the address, at this offset. -/
structure HeldAt (cache : DyldSharedCache) (a index off : Nat) : Prop where
  held : ∃ subcache, cache.subCaches[index]? = some subcache ∧ subcache.Covers a ∧
    subcache.runtimeOffsetForVmAddress a = .ok (some off)

/-- Of the subcaches that cover the address, this is the first. -/
structure FirstCoveredAt (cache : DyldSharedCache) (a index : Nat) : Prop where
  covered : ∃ subcache, cache.subCaches[index]? = some subcache ∧ subcache.Covers a
  first : ∀ i < index, ∀ subcache, cache.subCaches[i]? = some subcache → ¬ subcache.Covers a

variable {a : Nat}

/-- The search ends at a subcache that has the address, behind others that do not. -/
theorem subcacheLocateLoop_eq_some {i off : Nat} :
    ∀ {subcaches : List DyldSharedSubCache} {index : Nat},
      subcacheLocateLoop a subcaches index = .ok (some (i, off)) →
      ∃ j subcache, i = (index + j) % 256 ∧ subcaches[j]? = some subcache ∧
        subcache.runtimeOffsetForVmAddress a = .ok (some off) ∧
        ∀ k < j, ∃ before, subcaches[k]? = some before ∧
          before.runtimeOffsetForVmAddress a = .ok none := by
  intro subcaches
  induction subcaches with
  | nil =>
    intro index h
    exact absurd h (by simp [subcacheLocateLoop])
  | cons first rest ih =>
    intro index h
    obtain ⟨found, hfirst, h⟩ := Outcome.bind_eq_ok.mp h
    cases found with
    | some runtimeOffset =>
        obtain ⟨rfl, rfl⟩ := Prod.mk.inj (Option.some.inj (Outcome.ok.inj h))
        exact ⟨0, first, rfl, rfl, hfirst, fun k hk => absurd hk (Nat.not_lt_zero k)⟩
    | none =>
        obtain ⟨j, subcache, rfl, hj, hsome, hbefore⟩ := ih h
        refine ⟨j + 1, subcache, by congr 1; omega, hj, hsome, fun k hk => ?_⟩
        cases k with
        | zero => exact ⟨first, rfl, hfirst⟩
        | succ k => exact hbefore k (by omega)

/-- It ends at the first one that has the address. -/
theorem subcacheLocateLoop_of_first {off : Nat} {subcache : DyldSharedSubCache} :
    ∀ {subcaches : List DyldSharedSubCache} {index j : Nat}, subcaches[j]? = some subcache →
      subcache.runtimeOffsetForVmAddress a = .ok (some off) →
      (∀ k < j, ∀ before, subcaches[k]? = some before →
        before.runtimeOffsetForVmAddress a = .ok none) →
      subcacheLocateLoop a subcaches index = .ok (some ((index + j) % 256, off)) := by
  intro subcaches
  induction subcaches with
  | nil =>
    intro index j hj _ _
    exact absurd hj (by simp)
  | cons first rest ih =>
    intro index j hj hsome hbefore
    cases j with
    | zero =>
        obtain rfl := Option.some.inj hj
        rw [subcacheLocateLoop, hsome]
        rfl
    | succ j =>
        have hrest := @ih (index + 1) j hj hsome fun k hk before h => hbefore (k + 1) (by omega)
          before h
        rw [subcacheLocateLoop, hbefore 0 (Nat.succ_pos j) first rfl, Outcome.ok_bind]
        dsimp only
        rw [hrest, Nat.add_right_comm, Nat.add_assoc]

/-- **The cast keeps the index of the first 256 subcaches only.** -/
theorem subcacheAndOffsetLocateFromAddr_heldAt_iff {cache : DyldSharedCache} {i off : Nat}
    (h : cache.subcacheAndOffsetLocateFromAddr a = .ok (some (i, off))) :
    cache.HeldAt a i off ↔ ∃ j < 256, cache.FirstCoveredAt a j := by
  obtain ⟨j, subcache, hi, hj, hsome, hbefore⟩ := subcacheLocateLoop_eq_some h
  rw [Nat.zero_add] at hi
  have hnot : ∀ k < j, ∀ before, cache.subCaches[k]? = some before → ¬ before.Covers a := by
    intro k hk before hget
    obtain ⟨before', hget', hnone⟩ := hbefore k hk
    obtain rfl := Option.some.inj (hget.symm.trans hget')
    exact DyldSharedSubCache.not_covers_of_none hnone
  constructor
  · rintro ⟨held, hget, hcovers, -⟩
    by_cases hlt : j < 256
    · exact ⟨j, hlt, ⟨subcache, hj, DyldSharedSubCache.covers_of_some hsome⟩, hnot⟩
    · -- the smaller index is that of a subcache before the first one
      exact absurd hcovers (hnot i (by omega) held hget)
  · rintro ⟨j', hj', ⟨first, hget, hcovers⟩, hfirst⟩
    -- both are first
    have hle : ¬ j' < j := fun hlt => hnot j' hlt first hget hcovers
    have hle' : ¬ j < j' := fun hlt =>
      hfirst j hlt subcache hj (DyldSharedSubCache.covers_of_some hsome)
    have hij : i = j := by omega
    rw [hij]
    exact ⟨subcache, hj, DyldSharedSubCache.covers_of_some hsome, hsome⟩

end DyldSharedCache

/-! ## The libraries -/

/-- An entry of the index is what the search returned for the library's address. -/
theorem librariesIndexLoop_located {m : Mem} {cache : MappedSharedCache}
    {mainSubcache : MappedSubCache} {imagesOffset : Nat} :
    ∀ {n imageIndex : Nat} {libraries : List MappedCacheLibrary},
      librariesIndexLoop m cache mainSubcache imagesOffset n imageIndex = .ok libraries →
      ∀ library ∈ libraries,
        (cache.view m).subcacheAndOffsetLocateFromAddr library.unslidLoadAddress
          = .ok (some (library.subCacheIndex, library.machHeaderRuntimeOffset)) := by
  intro n
  induction n with
  | zero =>
    intro imageIndex libraries h
    obtain rfl := Outcome.ok.inj h
    exact fun library hmem => absurd hmem List.not_mem_nil
  | succ n ih =>
    intro imageIndex libraries h
    obtain ⟨imageInfo, -, h⟩ := Outcome.bind_eq_ok.mp h
    obtain ⟨located, hlocated, h⟩ := Outcome.bind_eq_ok.mp h
    cases located with
    | none => exact ih h
    | some located =>
        obtain ⟨pathFound, -, h⟩ := Outcome.bind_eq_ok.mp h
        obtain ⟨pathRuntimeOffset, -, h⟩ := Outcome.bind_eq_ok.mp h
        obtain ⟨path, -, h⟩ := Outcome.bind_eq_ok.mp h
        obtain ⟨rest, hrest, h⟩ := Outcome.bind_eq_ok.mp h
        obtain rfl := Outcome.ok.inj h
        intro library hmem
        rcases List.mem_cons.mp hmem with rfl | hmem
        · exact hlocated
        · exact ih hrest library hmem

/-- **A located subcache is the one that covers the address exactly if the first one that does is
among the first 256**, and so is the subcache that a library's entry names. -/
theorem subcacheIndex_iff (m : Mem) (cache : MappedSharedCache) :
    (∀ a i off, (cache.view m).subcacheAndOffsetLocateFromAddr a = .ok (some (i, off)) →
      ((cache.view m).HeldAt a i off ↔ ∃ j < 256, (cache.view m).FirstCoveredAt a j)) ∧
    (∀ indexed, cache.libraries = [] → mainCacheLibrariesIndexAll m cache = .ok indexed →
      ∀ library ∈ indexed.libraries,
        ((indexed.view m).HeldAt library.unslidLoadAddress library.subCacheIndex
            library.machHeaderRuntimeOffset ↔
          ∃ j < 256, (indexed.view m).FirstCoveredAt library.unslidLoadAddress j)) := by
  refine ⟨fun a i off => DyldSharedCache.subcacheAndOffsetLocateFromAddr_heldAt_iff, ?_⟩
  intro indexed hnone h library hmem
  obtain ⟨mainSubcache, -, h⟩ := Outcome.bind_eq_ok.mp h
  obtain ⟨header, -, h⟩ := Outcome.bind_eq_ok.mp h
  obtain ⟨libraries, hlibraries, h⟩ := Outcome.bind_eq_ok.mp h
  obtain rfl := Outcome.ok.inj h
  dsimp only at hmem
  rw [hnone, List.nil_append] at hmem
  -- the index changes no subcache
  exact DyldSharedCache.subcacheAndOffsetLocateFromAddr_heldAt_iff
    (librariesIndexLoop_located hlibraries library hmem)

/-! ## A cache of 257 files

The files are alike, of `0x4000` bytes each with one mapping, and lie one after the other. -/

/-- The header of a file and its mapping. -/
def sampleWideHeader (file : Nat) : Mem :=
  [(4, 0x10, 0x228), (4, 0x14, 1), (4, 0x188, 0x400), (4, 0x18c, 256),
   (8, 0x228, 0x40000 + file * 0x4000), (8, 0x230, 0x4000)].foldl
    (fun m (width, a, v) => m.writeWord width a v) fun _ => 0

/-- The entry of a subcache. -/
def sampleWideEntry (cacheVmOffset : Nat) : Mem := Mem.writeWord 8 (fun _ => 0) 16 cacheVmOffset

/-- The first file has the distances of the others behind its header. -/
def sampleWideMemory : Mem := fun x =>
  let file := (x - 0x100000) / 0x4000
  let offset := (x - 0x100000) % 0x4000
  if file = 0 ∧ 0x400 ≤ offset then
    sampleWideEntry (((offset - 0x400) / 56 + 1) * 0x4000) ((offset - 0x400) % 56)
  else sampleWideHeader file offset

def sampleWideFile (k : Nat) : MappedSubCache :=
  ⟨containerAt (0x100000 + k * 0x4000) 0x4000, 0x40000 + k * 0x4000, 0x228, 1⟩

def sampleWide : MappedSharedCache where
  subCaches := (List.range' 0 257).map sampleWideFile
  libraries := []
  cacheSlide := 0xc0000

/-- A header that the slice has room for is read. -/
theorem dscHeaderRead_of_le {m : Mem} {pointer length : Nat}
    (h : DyldCacheHeader.readSize ≤ length) :
    dscHeaderRead ((containerAt pointer length).view m) = .ok (cacheHeaderAt m pointer) := by
  have hsize : DyldCacheHeader.readSize = 548 := rfl
  have hroom : ((containerAt pointer length).view m).room DyldCacheHeader.readSize 0 = some () :=
    containerAt_room.mpr (by omega)
  have hword : ∀ offset, offset + 4 ≤ length →
      ((containerAt pointer length).view m).u32 offset
        = some (m.readWord 4 (pointer + offset)) := fun offset hle =>
    containerAt_u32.mpr ⟨hle, rfl⟩
  simp only [dscHeaderRead, Container.dyldCacheHeader, hroom, Option.bind_eq_bind,
    Option.bind_some, Nat.zero_add]
  rw [hword 0x10 (by omega), hword 0x14 (by omega), hword 0x188 (by omega),
    hword 0x18c (by omega), hword 0x1c0 (by omega), hword 0x1c4 (by omega)]
  rfl

section Wide

variable {k : Nat}

/-- A word of a header. -/
theorem sampleWide_readWord {w offset : Nat} (h : offset + w ≤ 0x400) :
    sampleWideMemory.readWord w (0x100000 + k * 0x4000 + offset)
      = (sampleWideHeader k).readWord w offset := by
  refine congrArg (Bytes.decode .little) (List.map_congr_left fun i hi => ?_)
  have hi := List.mem_range.mp hi
  have hfile : (0x100000 + k * 0x4000 + offset + i - 0x100000) / 0x4000 = k := by omega
  have hoffset : (0x100000 + k * 0x4000 + offset + i - 0x100000) % 0x4000 = offset + i := by omega
  rw [sampleWideMemory, hfile, hoffset]
  exact if_neg (by omega)

theorem sampleWide_header :
    cacheHeaderAt sampleWideMemory (0x100000 + k * 0x4000) = ⟨0x228, 1, 0x400, 256, 0, 0⟩ := by
  rw [cacheHeaderAt, sampleWide_readWord (by decide), sampleWide_readWord (by decide),
    sampleWide_readWord (by decide), sampleWide_readWord (by decide),
    sampleWide_readWord (by decide), sampleWide_readWord (by decide)]
  rfl

theorem sampleWide_mapping (hk : k < 257) :
    mappingInfoAt sampleWideMemory (0x100000 + k * 0x4000 + 0x228)
      = ⟨0x40000 + k * 0x4000, 0x4000, 0⟩ := by
  have haddress : (sampleWideHeader k).readWord 8 0x228 = 0x40000 + k * 0x4000 := by
    rw [sampleWideHeader]
    simp only [List.foldl_cons, List.foldl_nil]
    rw [Mem.readWord_writeWord_of_apart (by decide), Mem.readWord_writeWord _ _ (by omega)]
  have hsize : (sampleWideHeader k).readWord 8 0x230 = 0x4000 := by
    rw [sampleWideHeader]
    simp only [List.foldl_cons, List.foldl_nil]
    rw [Mem.readWord_writeWord _ _ (by decide)]
  have hfileOffset : (sampleWideHeader k).readWord 8 0x238 = 0 := by
    rw [sampleWideHeader]
    simp (disch := decide) only [List.foldl_cons, List.foldl_nil,
      Mem.readWord_writeWord_of_apart]
    decide
  rw [mappingInfoAt, sampleWide_readWord (by decide), haddress, Nat.add_assoc _ 0x228 8,
    Nat.add_assoc _ 0x228 16, sampleWide_readWord (by decide), hsize,
    sampleWide_readWord (by decide), hfileOffset]

theorem sampleWide_entryOffset (k : Nat) {i : Nat} (hi : i < 8) :
    (0x400 + k * 56 + 16 + i - 0x400) / 56 = k ∧
      (0x400 + k * 56 + 16 + i - 0x400) % 56 = 16 + i := ⟨by omega, by omega⟩

theorem sampleWide_entry (hk : k < 256) :
    sampleWideMemory.readWord 8 (0x100000 + (0x400 + k * 56 + 16)) = (k + 1) * 0x4000 := by
  have hread : sampleWideMemory.readWord 8 (0x100000 + (0x400 + k * 56 + 16))
      = (sampleWideEntry ((k + 1) * 0x4000)).readWord 8 16 := by
    refine congrArg (Bytes.decode .little) (List.map_congr_left fun i hi => ?_)
    have hi := List.mem_range.mp hi
    have hfile : (0x100000 + (0x400 + k * 56 + 16) + i - 0x100000) / 0x4000 = 0 := by omega
    have hoffset : (0x100000 + (0x400 + k * 56 + 16) + i - 0x100000) % 0x4000
        = 0x400 + k * 56 + 16 + i := by omega
    obtain ⟨hentry, hin⟩ := sampleWide_entryOffset k hi
    rw [sampleWideMemory, hfile, hoffset, hentry, hin]
    exact if_pos (by omega)
  rw [hread, sampleWideEntry, Mem.readWord_writeWord _ _ (by omega)]

theorem sampleWide_mappingInfo (hk : k < 257) {length : Nat} (hlength : 0x248 ≤ length) :
    ((containerAt (0x100000 + k * 0x4000) length).view sampleWideMemory).dyldCacheMappingInfo 0x228
      = some ⟨0x40000 + k * 0x4000, 0x4000, 0⟩ :=
  dyldCacheMappingInfo_containerAt.mpr ⟨hlength, (sampleWide_mapping hk).symm⟩

theorem sampleWide_length (hk : k < 257) :
    readMainCacheTotalMappedLengthFrom sampleWideMemory (0x100000 + k * 0x4000) = .ok 0x4000 := by
  have hle : DyldCacheHeader.readSize ≤ provisionalLength 64 := by decide
  rw [readMainCacheTotalMappedLengthFrom, dscHeaderRead_of_le hle, Outcome.ok_bind, sampleWide_header]
  dsimp only
  have hmapping := sampleWide_mappingInfo hk (show 0x248 ≤ provisionalLength 64 by decide)
  rw [hmapping, Outcome.okOr_some, Outcome.ok_bind, maxRuntimeEndLoop, Nat.zero_mul, Nat.add_zero,
    hmapping, Outcome.okOr_some, Outcome.ok_bind, Outcome.sub_of_le (Nat.le_refl _)]
  simp [Outcome.add, maxRuntimeEndLoop]

theorem sampleWide_fromRuntimeMapping :
    MappedSubCache.fromRuntimeMapping sampleWideMemory (0x100000 + k * 0x4000) 0x4000
      (0x40000 + k * 0x4000) = .ok (sampleWideFile k) := by
  have hle : DyldCacheHeader.readSize ≤ 0x4000 := by decide
  rw [MappedSubCache.fromRuntimeMapping, dscHeaderRead_of_le hle, Outcome.ok_bind, sampleWide_header]
  rfl

theorem sampleWide_attachLoop : ∀ {n j : Nat}, j + n = 256 →
    attachLoop sampleWideMemory 0x100000 0x40000
      ((containerAt 0x100000 0x4000).view sampleWideMemory) 0x400 n j
        = .ok ((List.range' (j + 1) n).map sampleWideFile) := by
  intro n
  induction n with
  | zero =>
    intro j _
    rfl
  | succ n ih =>
    intro j hj
    have hsize : DyldSubcacheEntry.structSize = 56 := rfl
    have hentry : ((containerAt 0x100000 0x4000).view sampleWideMemory).dyldSubcacheEntry
        (0x400 + j * DyldSubcacheEntry.structSize) = some ⟨(j + 1) * 0x4000⟩ := by
      have hroom : ((containerAt 0x100000 0x4000).view sampleWideMemory).room
          DyldSubcacheEntry.structSize (0x400 + j * DyldSubcacheEntry.structSize) = some () :=
        containerAt_room.mpr (by rw [hsize]; omega)
      have hword : ((containerAt 0x100000 0x4000).view sampleWideMemory).u64
          (0x400 + j * DyldSubcacheEntry.structSize + 16) = some ((j + 1) * 0x4000) :=
        containerAt_u64.mpr ⟨by rw [hsize]; omega, (sampleWide_entry (by omega)).symm⟩
      rw [Container.dyldSubcacheEntry, hroom, hword]
      rfl
    rw [attachLoop]
    dsimp only
    rw [hentry, Outcome.okOr_some, Outcome.ok_bind]
    dsimp only
    rw [Outcome.add_of_lt (by omega), Outcome.ok_bind, sampleWide_length (by omega),
      Outcome.ok_bind, sampleWide_fromRuntimeMapping, Outcome.ok_bind, ih (by omega)]
    rfl

theorem sampleWide_attached :
    dyldSharedCacheAttachAll sampleWideMemory 0x100000 = .ok sampleWide.subCaches := by
  have hheader := @sampleWide_header 0
  have hbase : readMainCacheUnslidBaseFrom sampleWideMemory 0x100000 = .ok 0x40000 := by
    have hle : DyldCacheHeader.readSize ≤ provisionalLength 32 := by decide
    have hmapping := @sampleWide_mappingInfo 0 (by decide) (provisionalLength 32) (by decide)
    rw [Nat.zero_mul, Nat.add_zero] at hheader hmapping
    rw [readMainCacheUnslidBaseFrom, dscHeaderRead_of_le hle, Outcome.ok_bind, hheader]
    dsimp only
    rw [hmapping]
    rfl
  have hlength := @sampleWide_length 0 (by decide)
  have hmain := @sampleWide_fromRuntimeMapping 0
  have hle : DyldCacheHeader.readSize ≤ 0x4000 := by decide
  have hmainHeader := @dscHeaderRead_of_le sampleWideMemory 0x100000 0x4000 hle
  rw [Nat.zero_mul, Nat.add_zero] at hlength hmain hheader
  rw [hheader] at hmainHeader
  rw [dyldSharedCacheAttachAll, hbase, Outcome.ok_bind, hlength, Outcome.ok_bind, hmain,
    Outcome.ok_bind, show (sampleWideFile 0).container = containerAt 0x100000 0x4000 from rfl]
  dsimp only
  rw [hmainHeader, Outcome.ok_bind, sampleWide_attachLoop (by decide)]
  rfl

/-- An address is looked up in the only mapping of a file. -/
theorem sampleWide_mappingAt (hk : k < 257) :
    ((sampleWideFile k).view sampleWideMemory).mappingAt 0
      = .ok ⟨0x40000 + k * 0x4000, 0x4000, 0⟩ := by
  have hmapping := sampleWide_mappingInfo hk (show 0x248 ≤ 0x4000 by decide)
  exact Outcome.orPanic_eq_ok.mpr hmapping

theorem sampleWide_runtimeOffset (hk : k < 257) (a : Nat) :
    ((sampleWideFile k).view sampleWideMemory).runtimeOffsetForVmAddress a
      = .ok (if 0x40000 + k * 0x4000 ≤ a ∧ a < 0x40000 + k * 0x4000 + 0x4000 then
          some (a - (0x40000 + k * 0x4000)) else none) := by
  rw [DyldSharedSubCache.runtimeOffsetForVmAddress,
    show ((sampleWideFile k).view sampleWideMemory).mappingTableEntryCount = 0 + 1 from rfl,
    DyldSharedSubCache.runtimeOffsetLoop, sampleWide_mappingAt hk, Outcome.ok_bind]
  dsimp only
  rw [Outcome.add_of_lt (by omega), Outcome.ok_bind]
  split
  · rename_i hin
    rw [show ((sampleWideFile k).view sampleWideMemory).unslidBaseVmAddress = 0x40000 + k * 0x4000
      from rfl, Outcome.sub_of_le hin.1]
    rfl
  · rfl

theorem sampleWide_get? (hk : k < 257) :
    (sampleWide.view sampleWideMemory).subCaches[k]?
      = some ((sampleWideFile k).view sampleWideMemory) := by
  rw [MappedSharedCache.view_subCaches, sampleWide, List.map_map, List.getElem?_map,
    List.getElem?_range' (by omega), Nat.one_mul, Nat.zero_add]
  rfl

end Wide

/-- The address is in the last file, and the search says that it is in the first. -/
theorem sampleWide_misplaced :
    dyldSharedCacheAttachAll sampleWideMemory 0x100000 = .ok sampleWide.subCaches ∧
      (sampleWide.view sampleWideMemory).subcacheAndOffsetLocateFromAddr 0x440100
        = .ok (some (0, 0x100)) ∧
      ¬ (sampleWide.view sampleWideMemory).HeldAt 0x440100 0 0x100 := by
  refine ⟨sampleWide_attached, ?_, ?_⟩
  · refine @DyldSharedCache.subcacheLocateLoop_of_first 0x440100 0x100 _ _ 0 256
      (sampleWide_get? (by decide)) (sampleWide_runtimeOffset (by decide) _) ?_
    intro k hk before hbefore
    obtain rfl := Option.some.inj ((sampleWide_get? (by omega)).symm.trans hbefore)
    rw [sampleWide_runtimeOffset (by omega), if_neg (by omega)]
  · rintro ⟨held, hget, -, hsome⟩
    obtain rfl := Option.some.inj ((sampleWide_get? (by decide)).symm.trans hget)
    rw [sampleWide_runtimeOffset (by decide), if_neg (by decide)] at hsome
    exact absurd hsome (by simp)

theorem sampleWide_placed :
    (sampleWide.view sampleWideMemory).HeldAt 0x44100 1 0x100 := by
  have hsome := @sampleWide_runtimeOffset 1 (by decide) 0x44100
  have hnone := @sampleWide_runtimeOffset 0 (by decide) 0x44100
  rw [if_pos (by decide)] at hsome
  rw [if_neg (by decide)] at hnone
  have hfirst : ∀ k < 1, ∀ before, (sampleWide.view sampleWideMemory).subCaches[k]? = some before →
      before.runtimeOffsetForVmAddress 0x44100 = .ok none := by
    intro k hk before hbefore
    obtain rfl : k = 0 := by omega
    obtain rfl := Option.some.inj ((sampleWide_get? (by decide)).symm.trans hbefore)
    exact hnone
  have hlocate := @DyldSharedCache.subcacheLocateLoop_of_first 0x44100 0x100 _ _ 0 1
    (sampleWide_get? (by decide)) hsome hfirst
  refine ((subcacheIndex_iff sampleWideMemory sampleWide).1 0x44100 1 0x100 hlocate).mpr
    ⟨1, by decide, ⟨_, sampleWide_get? (by decide), DyldSharedSubCache.covers_of_some hsome⟩, ?_⟩
  intro k hk before hbefore
  exact DyldSharedSubCache.not_covers_of_none (hfirst k hk before hbefore)

end Dynld
