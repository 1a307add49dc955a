import Dynld.SharedCacheAttach

/-!
# One address, computed in three ways

The bytes of a subcache begin at a runtime pointer, and an unslid address is turned into
an offset from there. How many bytes there are comes from the subcache's own mapping
table, relative to its first mapping; the offset is relative to a base that comes from
the main cache's table; and `unslid_address_to_runtime_pointer_translate` looks at
neither: it adds the slide.

`attachAll_translates` says when the three agree. All subcaches are moved by the same
distance, and a subcache whose first mapping is at its base has its largest end
`length` bytes further on.
-/

namespace Dynld

/-! ## Tables in memory -/

/-- The mapping at this address. -/
def mappingInfoAt (m : Mem) (a : Nat) : DyldCacheMappingInfo where
  address := m.readWord 8 a
  size := m.readWord 8 (a + 8)
  fileOffset := m.readWord 8 (a + 16)

/-- The header at this address. -/
def cacheHeaderAt (m : Mem) (a : Nat) : DyldCacheHeader where
  mappingOffset := m.readWord 4 (a + 0x10)
  mappingCount := m.readWord 4 (a + 0x14)
  subCacheArrayOffset := m.readWord 4 (a + 0x188)
  subCacheArrayCount := m.readWord 4 (a + 0x18c)
  imagesOffset := m.readWord 4 (a + 0x1c0)
  imagesCount := m.readWord 4 (a + 0x1c4)

section

variable {m : Mem} {pointer length offset : Nat}

theorem containerAt_u32 {v : Nat} :
    ((containerAt pointer length).view m).u32 offset = some v ↔
      offset + 4 ≤ length ∧ v = m.readWord 4 (pointer + offset) := Mem.wordAt_read

theorem containerAt_u64 {v : Nat} :
    ((containerAt pointer length).view m).u64 offset = some v ↔
      offset + 8 ≤ length ∧ v = m.readWord 8 (pointer + offset) := Mem.wordAt_read

theorem containerAt_room {size : Nat} :
    ((containerAt pointer length).view m).room size offset = some () ↔
      offset + size ≤ length := by
  rw [Container.room, show ((containerAt pointer length).view m).data.length = length from
    Mem.length_read _ _ _]
  by_cases h : offset + size ≤ length
  · simp [h]
  · simp [h]

/-- However long the slice is, a mapping that can be read is the one in memory. -/
theorem dyldCacheMappingInfo_containerAt {mapping : DyldCacheMappingInfo} :
    ((containerAt pointer length).view m).dyldCacheMappingInfo offset = some mapping ↔
      offset + DyldCacheMappingInfo.structSize ≤ length ∧
        mapping = mappingInfoAt m (pointer + offset) := by
  constructor
  · intro h
    obtain ⟨_, hroom, h⟩ := Option.bind_eq_some_iff.mp h
    obtain ⟨address, haddress, h⟩ := Option.bind_eq_some_iff.mp h
    obtain ⟨size, hsize, h⟩ := Option.bind_eq_some_iff.mp h
    obtain ⟨fileOffset, hfileOffset, h⟩ := Option.bind_eq_some_iff.mp h
    refine ⟨containerAt_room.mp hroom, (Option.some.inj h).symm.trans ?_⟩
    rw [(containerAt_u64.mp haddress).2, (containerAt_u64.mp hsize).2,
      (containerAt_u64.mp hfileOffset).2]
    rfl
  · rintro ⟨hle, rfl⟩
    have hsize : DyldCacheMappingInfo.structSize = 32 := rfl
    rw [Container.dyldCacheMappingInfo, containerAt_room.mpr hle,
      containerAt_u64.mpr ⟨by omega, rfl⟩, containerAt_u64.mpr ⟨by omega, rfl⟩,
      containerAt_u64.mpr ⟨by omega, rfl⟩]
    rfl

/-- However long the slice is, a header that can be read is the one in memory. -/
theorem dscHeaderRead_containerAt {header : DyldCacheHeader}
    (h : dscHeaderRead ((containerAt pointer length).view m) = .ok header) :
    header = cacheHeaderAt m pointer := by
  have h := Outcome.okOr_eq_ok.mp h
  obtain ⟨_, -, h⟩ := Option.bind_eq_some_iff.mp h
  obtain ⟨mappingOffset, h1, h⟩ := Option.bind_eq_some_iff.mp h
  obtain ⟨mappingCount, h2, h⟩ := Option.bind_eq_some_iff.mp h
  obtain ⟨subCacheArrayOffset, h3, h⟩ := Option.bind_eq_some_iff.mp h
  obtain ⟨subCacheArrayCount, h4, h⟩ := Option.bind_eq_some_iff.mp h
  obtain ⟨imagesOffset, h5, h⟩ := Option.bind_eq_some_iff.mp h
  obtain ⟨imagesCount, h6, h⟩ := Option.bind_eq_some_iff.mp h
  refine (Option.some.inj h).symm.trans ?_
  rw [(containerAt_u32.mp h1).2, (containerAt_u32.mp h2).2, (containerAt_u32.mp h3).2,
    (containerAt_u32.mp h4).2, (containerAt_u32.mp h5).2, (containerAt_u32.mp h6).2]
  simp [cacheHeaderAt]

end

/-! ## Looking up one address -/

/-- The mapping has the address. -/
def DyldCacheMappingInfo.Covers (mapping : DyldCacheMappingInfo) (a : Nat) : Prop :=
  mapping.address ≤ a ∧ a < mapping.address + mapping.size

namespace DyldSharedSubCache

/-- The mapping table can be read through the container, and no end of a mapping wraps. -/
def TableFits (subcache : DyldSharedSubCache) : Prop :=
  ∀ k < subcache.mappingTableEntryCount, ∃ mapping, subcache.mappingAt k = .ok mapping ∧
    mapping.address + mapping.size < 2 ^ 64

variable {subcache : DyldSharedSubCache} {a : Nat}

theorem runtimeOffsetLoop_eq_some {off : Nat} : ∀ {n entryIndex : Nat},
    subcache.runtimeOffsetLoop a n entryIndex = .ok (some off) →
      ∃ k mapping, k < entryIndex + n ∧ subcache.mappingAt k = .ok mapping ∧ mapping.Covers a ∧
        subcache.unslidBaseVmAddress ≤ a ∧ off = a - subcache.unslidBaseVmAddress := by
  intro n
  induction n with
  | zero =>
    intro entryIndex h
    simp [runtimeOffsetLoop] at h
  | succ n ih =>
    intro entryIndex h
    obtain ⟨mapping, hmapping, h⟩ := Outcome.bind_eq_ok.mp h
    obtain ⟨mappingEnd, hadd, h⟩ := Outcome.bind_eq_ok.mp h
    split at h
    · rename_i hin
      obtain ⟨runtimeOffset, hsub, h⟩ := Outcome.bind_eq_ok.mp h
      obtain ⟨hle, hoff⟩ := Outcome.sub_eq_ok.mp hsub
      have he : runtimeOffset = off := by simpa using h
      refine ⟨entryIndex, mapping, by omega, hmapping, ⟨hin.1, ?_⟩, hle, by omega⟩
      rw [← (Outcome.add_eq_ok.mp hadd).2]
      exact hin.2
    · obtain ⟨k, mapping, hk, hrest⟩ := ih h
      exact ⟨k, mapping, by omega, hrest⟩

/-- An address that is not found is in no mapping, and all of them were read. -/
theorem runtimeOffsetLoop_eq_none : ∀ {n entryIndex : Nat},
    subcache.runtimeOffsetLoop a n entryIndex = .ok none →
      ∀ k, entryIndex ≤ k → k < entryIndex + n →
        ∃ mapping, subcache.mappingAt k = .ok mapping ∧ ¬ mapping.Covers a := by
  intro n
  induction n with
  | zero =>
    intro entryIndex _ k hk hk'
    omega
  | succ n ih =>
    intro entryIndex h k hk hk'
    obtain ⟨mapping, hmapping, h⟩ := Outcome.bind_eq_ok.mp h
    obtain ⟨mappingEnd, hadd, h⟩ := Outcome.bind_eq_ok.mp h
    split at h
    · obtain ⟨runtimeOffset, -, h⟩ := Outcome.bind_eq_ok.mp h
      simp at h
    · rename_i hout
      rw [(Outcome.add_eq_ok.mp hadd).2] at hout
      by_cases he : k = entryIndex
      · exact ⟨mapping, he ▸ hmapping, hout⟩
      · exact ih h k (by omega) (by omega)

/-- The lookup returns, or it panics on a table that does not fit. -/
theorem runtimeOffsetLoop_returns
    (hbase : ∀ k < subcache.mappingTableEntryCount, ∀ mapping,
      subcache.mappingAt k = .ok mapping → subcache.unslidBaseVmAddress ≤ mapping.address) :
    ∀ {n entryIndex : Nat}, entryIndex + n = subcache.mappingTableEntryCount →
      (∃ r, subcache.runtimeOffsetLoop a n entryIndex = .ok r) ∨
      ¬ subcache.TableFits ∧ ∃ msg, subcache.runtimeOffsetLoop a n entryIndex = .panic msg := by
  intro n
  induction n with
  | zero =>
    intro entryIndex _
    exact .inl ⟨none, rfl⟩
  | succ n ih =>
    intro entryIndex hcount
    have hlt : entryIndex < subcache.mappingTableEntryCount := by omega
    unfold runtimeOffsetLoop
    cases hread : subcache.container.dyldCacheMappingInfo
        (subcache.mappingTableOffset + entryIndex * DyldCacheMappingInfo.structSize) with
    | none =>
        have hpanic : subcache.mappingAt entryIndex = .panic "malformed cache mapping table" := by
          rw [mappingAt, hread]
          rfl
        -- an entry past the end of the file
        refine .inr ⟨fun hfits => ?_, _, by rw [hpanic]; rfl⟩
        obtain ⟨mapping, hok, -⟩ := hfits entryIndex hlt
        exact absurd (hpanic.symm.trans hok) (by simp)
    | some mapping =>
        have hok : subcache.mappingAt entryIndex = .ok mapping := by
          rw [mappingAt, hread]
          rfl
        rw [hok, Outcome.ok_bind]
        by_cases hend : mapping.address + mapping.size < 2 ^ 64
        · rw [Outcome.add_of_lt hend, Outcome.ok_bind]
          split
          · rename_i hin
            have hle := hbase entryIndex hlt mapping hok
            rw [Outcome.sub_of_le (Nat.le_trans hle hin.1)]
            exact .inl ⟨_, rfl⟩
          · exact ih (by omega)
        · refine .inr ⟨fun hfits => ?_, "attempt to add with overflow", ?_⟩
          · obtain ⟨mapping', hok', hlt'⟩ := hfits entryIndex hlt
            obtain rfl := Outcome.ok.inj (hok.symm.trans hok')
            exact hend hlt'
          · rw [Outcome.add, if_neg hend]
            rfl

end DyldSharedSubCache

/-! ## What attaching establishes -/

namespace MappedSubCache

/-- The `k`th entry of the subcache's mapping table. -/
def entry (subcache : MappedSubCache) (m : Mem) (k : Nat) : DyldCacheMappingInfo :=
  mappingInfoAt m (subcache.container.bytes.start
    + (subcache.mappingTableOffset + k * DyldCacheMappingInfo.structSize))

/-- The base of the subcache is where its first mapping lies. -/
def FirstMappingAtBase (subcache : MappedSubCache) (m : Mem) : Prop :=
  (subcache.entry m 0).address = subcache.unslidBaseVmAddress

/-- An attached subcache. It is as far from the main cache in memory as in the unslid space, and
its bytes reach from its first mapping, which is its lowest, to the end of its last. -/
structure Attached (subcache : MappedSubCache) (m : Mem) (mainPointer mainUnslidBase : Nat) :
    Prop where
  container_eq : subcache.container
    = containerAt subcache.container.bytes.start subcache.container.bytes.len
  sameDistance : ∃ cacheVmOffset, subcache.unslidBaseVmAddress = mainUnslidBase + cacheVmOffset ∧
    subcache.container.bytes.start = mainPointer + cacheVmOffset
  lowest : ∀ k < subcache.mappingTableEntryCount,
    (subcache.entry m 0).address ≤ (subcache.entry m k).address
  inLength : ∀ k < subcache.mappingTableEntryCount,
    (subcache.entry m k).address - (subcache.entry m 0).address + (subcache.entry m k).size
      ≤ subcache.container.bytes.len

end MappedSubCache

/-- The maximum is at least each mapping's end. -/
theorem maxRuntimeEndLoop_le {m : Mem} {pointer length mappingOffset base : Nat} :
    ∀ {n entryIndex start total : Nat},
      maxRuntimeEndLoop ((containerAt pointer length).view m) mappingOffset base n entryIndex start
        = .ok total →
      start ≤ total ∧ ∀ k, entryIndex ≤ k → k < entryIndex + n →
        let mapping :=
          mappingInfoAt m (pointer + (mappingOffset + k * DyldCacheMappingInfo.structSize))
        base ≤ mapping.address ∧ mapping.address - base + mapping.size ≤ total := by
  intro n
  induction n with
  | zero =>
    intro entryIndex start total h
    obtain rfl := Outcome.ok.inj h
    exact ⟨Nat.le_refl _, fun k hk hk' => by omega⟩
  | succ n ih =>
    intro entryIndex start total h
    obtain ⟨mapping, hread, h⟩ := Outcome.bind_eq_ok.mp h
    obtain ⟨runtimeStart, hsub, h⟩ := Outcome.bind_eq_ok.mp h
    obtain ⟨runtimeEnd, hadd, h⟩ := Outcome.bind_eq_ok.mp h
    have hmapping := (dyldCacheMappingInfo_containerAt.mp (Outcome.okOr_eq_ok.mp hread)).2
    obtain ⟨hlow, hstart⟩ := Outcome.sub_eq_ok.mp hsub
    have hend := (Outcome.add_eq_ok.mp hadd).2
    obtain ⟨hmax, hrest⟩ := ih h
    -- `ih` is about the larger of the two ends so far
    have hge : start ≤ total ∧ runtimeEnd ≤ total := by
      split at hmax
      · omega
      · omega
    refine ⟨hge.1, fun k hk hk' => ?_⟩
    by_cases he : k = entryIndex
    · subst he
      rw [← hmapping]
      exact ⟨hlow, by rw [← hstart, ← hend]; exact hge.2⟩
    · exact hrest k (by omega) (by omega)

theorem totalMappedLength_le {m : Mem} {pointer total : Nat}
    (h : readMainCacheTotalMappedLengthFrom m pointer = .ok total) :
    ∀ k < (cacheHeaderAt m pointer).mappingCount,
      let mapping := fun k => mappingInfoAt m (pointer
        + ((cacheHeaderAt m pointer).mappingOffset + k * DyldCacheMappingInfo.structSize))
      (mapping 0).address ≤ (mapping k).address ∧
        (mapping k).address - (mapping 0).address + (mapping k).size ≤ total := by
  obtain ⟨header, hheader, h⟩ := Outcome.bind_eq_ok.mp h
  obtain ⟨first, hfirst, h⟩ := Outcome.bind_eq_ok.mp h
  obtain rfl := dscHeaderRead_containerAt hheader
  have hfirst := (dyldCacheMappingInfo_containerAt.mp (Outcome.okOr_eq_ok.mp hfirst)).2
  intro k hk
  have hk := (maxRuntimeEndLoop_le h).2 k (Nat.zero_le _) (by omega)
  rw [hfirst] at hk
  simpa using hk

/-- One file of the cache. -/
theorem fromRuntimeMapping_attached {m : Mem} {mainPointer mainUnslidBase cacheVmOffset length : Nat}
    {subcache : MappedSubCache}
    (hlength : readMainCacheTotalMappedLengthFrom m (mainPointer + cacheVmOffset) = .ok length)
    (h : MappedSubCache.fromRuntimeMapping m (mainPointer + cacheVmOffset) length
      (mainUnslidBase + cacheVmOffset) = .ok subcache) :
    subcache.Attached m mainPointer mainUnslidBase := by
  obtain ⟨header, hheader, h⟩ := Outcome.bind_eq_ok.mp h
  obtain rfl := dscHeaderRead_containerAt hheader
  obtain rfl := Outcome.ok.inj h
  have hle := totalMappedLength_le hlength
  exact ⟨rfl, ⟨cacheVmOffset, rfl, rfl⟩, fun k hk => (hle k hk).1, fun k hk => (hle k hk).2⟩

theorem attachLoop_attached {m : Mem} {mainPointer mainUnslidBase : Nat} {mainCache : Container}
    {arrayOffset : Nat} : ∀ {n subcacheIndex : Nat} {subcaches : List MappedSubCache},
      attachLoop m mainPointer mainUnslidBase mainCache arrayOffset n subcacheIndex
        = .ok subcaches →
      ∀ subcache ∈ subcaches, subcache.Attached m mainPointer mainUnslidBase := by
  intro n
  induction n with
  | zero =>
    intro _ subcaches h
    obtain rfl := Outcome.ok.inj h
    exact fun subcache hmem => absurd hmem (List.not_mem_nil)
  | succ n ih =>
    intro subcacheIndex subcaches h
    obtain ⟨subcacheEntry, -, h⟩ := Outcome.bind_eq_ok.mp h
    obtain ⟨base, hbase, h⟩ := Outcome.bind_eq_ok.mp h
    obtain ⟨length, hlength, h⟩ := Outcome.bind_eq_ok.mp h
    obtain ⟨first, hfirst, h⟩ := Outcome.bind_eq_ok.mp h
    obtain ⟨rest, hrest, h⟩ := Outcome.bind_eq_ok.mp h
    obtain rfl := Outcome.ok.inj h
    obtain rfl := (Outcome.add_eq_ok.mp hbase).2
    intro subcache hmem
    rcases List.mem_cons.mp hmem with rfl | hmem
    · exact fromRuntimeMapping_attached hlength hfirst
    · exact ih hrest subcache hmem

/-- **Every subcache is attached at its distance from the main cache.** -/
theorem attachAll_attached {m : Mem} {mainPointer mainUnslidBase : Nat}
    {subcaches : List MappedSubCache}
    (hbase : readMainCacheUnslidBaseFrom m mainPointer = .ok mainUnslidBase)
    (h : dyldSharedCacheAttachAll m mainPointer = .ok subcaches) :
    ∀ subcache ∈ subcaches, subcache.Attached m mainPointer mainUnslidBase := by
  obtain ⟨base, hbase', h⟩ := Outcome.bind_eq_ok.mp h
  obtain ⟨length, hlength, h⟩ := Outcome.bind_eq_ok.mp h
  obtain ⟨main, hmain, h⟩ := Outcome.bind_eq_ok.mp h
  obtain ⟨header, -, h⟩ := Outcome.bind_eq_ok.mp h
  obtain ⟨rest, hrest, h⟩ := Outcome.bind_eq_ok.mp h
  obtain rfl := Outcome.ok.inj h
  obtain rfl := Outcome.ok.inj (hbase.symm.trans hbase')
  intro subcache hmem
  rcases List.mem_cons.mp hmem with rfl | hmem
  · -- the main cache is at distance zero from itself
    exact @fromRuntimeMapping_attached m mainPointer mainUnslidBase 0 length subcache hlength hmain
  · exact attachLoop_attached hrest subcache hmem

/-! ## The three computations -/

namespace MappedSubCache

variable {subcache : MappedSubCache} {m : Mem} {mainPointer mainUnslidBase : Nat}

/-- A mapping that is read through the container is an entry of the table in memory. -/
theorem Attached.entry_eq (h : subcache.Attached m mainPointer mainUnslidBase) {k : Nat}
    {mapping : DyldCacheMappingInfo} (hread : (subcache.view m).mappingAt k = .ok mapping) :
    mapping = subcache.entry m k := by
  have hread := Outcome.orPanic_eq_ok.mp hread
  rw [show (subcache.view m).container
      = (containerAt subcache.container.bytes.start subcache.container.bytes.len).view m from
    congrArg (MappedContainer.view · m) h.container_eq] at hread
  exact (dyldCacheMappingInfo_containerAt.mp hread).2

/-- No mapping is below the base. -/
theorem Attached.base_le (h : subcache.Attached m mainPointer mainUnslidBase)
    (hfirst : subcache.FirstMappingAtBase m) {k : Nat} (hk : k < subcache.mappingTableEntryCount)
    {mapping : DyldCacheMappingInfo} (hread : (subcache.view m).mappingAt k = .ok mapping) :
    subcache.unslidBaseVmAddress ≤ mapping.address := by
  rw [h.entry_eq hread, ← hfirst]
  exact h.lowest k hk

/-- An offset lies in the subcache's bytes, and is the distance from its pointer. -/
theorem Attached.runtimeOffset_eq_some (h : subcache.Attached m mainPointer mainUnslidBase)
    (hfirst : subcache.FirstMappingAtBase m) {a off : Nat}
    (ha : (subcache.view m).runtimeOffsetForVmAddress a = .ok (some off)) :
    off < subcache.container.bytes.len ∧
      subcache.container.bytes.start + off + mainUnslidBase = a + mainPointer := by
  obtain ⟨k, mapping, hk, hread, hcovers, hle, hoff⟩ :=
    DyldSharedSubCache.runtimeOffsetLoop_eq_some ha
  have hk : k < subcache.mappingTableEntryCount := Nat.lt_of_lt_of_eq hk (Nat.zero_add _)
  have hbase : (subcache.entry m 0).address = subcache.unslidBaseVmAddress := hfirst
  have hlength := h.inLength k hk
  obtain rfl := h.entry_eq hread
  obtain ⟨hcovers, hcovers'⟩ := hcovers
  have hle : subcache.unslidBaseVmAddress ≤ a := hle
  have hoff : off = a - subcache.unslidBaseVmAddress := hoff
  obtain ⟨cacheVmOffset, hunslid, hstart⟩ := h.sameDistance
  omega

/-- An address that a mapping covers is found, if the lookup returns. -/
theorem Attached.runtimeOffset_ne_none (h : subcache.Attached m mainPointer mainUnslidBase)
    {a k : Nat} (hk : k < subcache.mappingTableEntryCount)
    (hcovers : (subcache.entry m k).Covers a) :
    (subcache.view m).runtimeOffsetForVmAddress a ≠ .ok none := by
  intro hnone
  obtain ⟨mapping, hread, hnot⟩ :=
    DyldSharedSubCache.runtimeOffsetLoop_eq_none hnone k (Nat.zero_le _)
      (Nat.lt_of_lt_of_eq hk (Nat.zero_add _).symm)
  rw [h.entry_eq hread] at hnot
  exact hnot hcovers

theorem Attached.runtimeOffset_returns (h : subcache.Attached m mainPointer mainUnslidBase)
    (hfirst : subcache.FirstMappingAtBase m) (a : Nat) :
    (∃ r, (subcache.view m).runtimeOffsetForVmAddress a = .ok r) ∨
      ¬ (subcache.view m).TableFits ∧
        ∃ msg, (subcache.view m).runtimeOffsetForVmAddress a = .panic msg :=
  DyldSharedSubCache.runtimeOffsetLoop_returns
    (fun _ hk _ hread => h.base_le hfirst hk hread) (Nat.zero_add _)

end MappedSubCache

/-- The search for a subcache finds one at the latest where the address is, or it panics before. -/
theorem subcacheLocateLoop_cases {a : Nat} : ∀ {subcaches : List DyldSharedSubCache} (index : Nat)
    {i : Nat} {subcache : DyldSharedSubCache} {off : Nat},
    (∀ t ∈ subcaches, (∃ r, t.runtimeOffsetForVmAddress a = .ok r) ∨
      ¬ t.TableFits ∧ ∃ msg, t.runtimeOffsetForVmAddress a = .panic msg) →
    subcaches[i]? = some subcache →
    subcache.runtimeOffsetForVmAddress a = .ok (some off) →
      (∃ found, DyldSharedCache.subcacheLocateLoop a subcaches index = .ok (some found)) ∨
      ∃ j < i, ∃ t, subcaches[j]? = some t ∧ ¬ t.TableFits ∧
        ∃ msg, DyldSharedCache.subcacheLocateLoop a subcaches index = .panic msg := by
  intro subcaches
  induction subcaches with
  | nil =>
    intro _ _ _ _ _ hi _
    simp at hi
  | cons first rest ih =>
    intro index i subcache off hreturns hi hsome
    unfold DyldSharedCache.subcacheLocateLoop
    rcases hreturns first List.mem_cons_self with ⟨r, hr⟩ | ⟨hfits, msg, hpanic⟩
    · rw [hr, Outcome.ok_bind]
      cases r with
      -- the first subcache that has the address answers
      | some runtimeOffset => exact .inl ⟨_, rfl⟩
      | none =>
          cases i with
          | zero =>
              obtain rfl : first = subcache := by simpa using hi
              exact absurd (hr.symm.trans hsome) (by simp)
          | succ i =>
              rcases ih (index + 1)
                (fun t ht => hreturns t (List.mem_cons_of_mem _ ht)) hi hsome
                with hfound | ⟨j, hj, t, ht, hrest⟩
              · exact .inl hfound
              · exact .inr ⟨j + 1, by omega, t, ht, hrest⟩
    · cases i with
      | zero =>
          obtain rfl : first = subcache := by simpa using hi
          exact absurd (hpanic.symm.trans hsome) (by simp)
      | succ i => exact .inr ⟨0, by omega, first, rfl, hfits, msg, by rw [hpanic]; rfl⟩

/-- **Address translation of the shared cache.** In an attached cache whose files each begin with
the mapping at their base: an offset into a subcache is less than its length and, from its
pointer, leads to the address moved by the cache's displacement. With that displacement as the
slide, the translation of the address is the same, unless it panics on the mapping table of an
earlier subcache. A covered address is never answered `None`. -/
theorem attachAll_translates {m : Mem} {mainPointer mainUnslidBase : Nat}
    {cache : MappedSharedCache}
    (hattach : dyldSharedCacheAttachAll m mainPointer = .ok cache.subCaches)
    (hbase : readMainCacheUnslidBaseFrom m mainPointer = .ok mainUnslidBase)
    (hfirst : ∀ subcache ∈ cache.subCaches, subcache.FirstMappingAtBase m)
    (hmapped : ∀ subcache ∈ cache.subCaches,
      subcache.container.bytes.start + subcache.container.bytes.len ≤ 2 ^ 64)
    {i : Nat} {subcache : MappedSubCache} (hi : cache.subCaches[i]? = some subcache) (a : Nat) :
    (∀ off, (subcache.view m).runtimeOffsetForVmAddress a = .ok (some off) →
      off < subcache.container.bytes.len ∧
      subcache.container.bytes.start + off + mainUnslidBase = a + mainPointer ∧
      (mainPointer = mainUnslidBase + cache.cacheSlide →
        (cache.view m).unslidAddressToRuntimePointerTranslate a
          = .ok (subcache.container.bytes.start + off) ∨
        ∃ j < i, ∃ t, cache.subCaches[j]? = some t ∧ ¬ (t.view m).TableFits ∧
          ∃ msg, (cache.view m).unslidAddressToRuntimePointerTranslate a = .panic msg)) ∧
    ((∃ k < subcache.mappingTableEntryCount, (subcache.entry m k).Covers a) →
      (subcache.view m).runtimeOffsetForVmAddress a ≠ .ok none) := by
  have hattached := attachAll_attached hbase hattach
  have hmem : subcache ∈ cache.subCaches := List.mem_of_getElem? hi
  refine ⟨fun off hoff => ?_, fun ⟨k, hk, hcovers⟩ =>
    (hattached subcache hmem).runtimeOffset_ne_none hk hcovers⟩
  obtain ⟨hlt, hsum⟩ := (hattached subcache hmem).runtimeOffset_eq_some (hfirst _ hmem) hoff
  refine ⟨hlt, hsum, fun hslide => ?_⟩
  -- the search asks every subcache before this one
  have hreturns : ∀ t ∈ (cache.view m).subCaches,
      (∃ r, t.runtimeOffsetForVmAddress a = .ok r) ∨
        ¬ t.TableFits ∧ ∃ msg, t.runtimeOffsetForVmAddress a = .panic msg := by
    intro t ht
    obtain ⟨s, hs, rfl⟩ := List.mem_map.mp ht
    exact (hattached s hs).runtimeOffset_returns (hfirst s hs) a
  have hview : (cache.view m).subCaches[i]? = some (subcache.view m) := by
    rw [MappedSharedCache.view_subCaches, List.getElem?_map, hi]
    rfl
  unfold DyldSharedCache.unslidAddressToRuntimePointerTranslate
    DyldSharedCache.subcacheAndOffsetLocateFromAddr
  rcases subcacheLocateLoop_cases 0 hreturns hview hoff
    with ⟨found, hfound⟩ | ⟨j, hj, t, ht, hfits, msg, hpanic⟩
  · have hroom := hmapped subcache hmem
    have ha : a + cache.cacheSlide = subcache.container.bytes.start + off := by omega
    have hadd : Outcome.add 64 a cache.cacheSlide = .ok (a + cache.cacheSlide) :=
      Outcome.add_of_lt (by omega)
    left
    rw [hfound, Outcome.ok_bind, ← ha]
    exact hadd
  · rw [MappedSharedCache.view_subCaches, List.getElem?_map] at ht
    obtain ⟨s, hs, rfl⟩ := Option.map_eq_some_iff.mp ht
    exact .inr ⟨j, hj, s, hs, hfits, msg, by rw [hpanic]; rfl⟩

/-! ## Two files

A main cache and one subcache, each with one mapping and its table right after the
header. With a `mainSize` of `0x248` the main cache's mapping has the table in it. With
`0x228` it ends where the table begins: attaching still reads it, through the slice of
provisional length, but no lookup can. -/

def sampleCacheMemory (mainSize : Nat) : Mem :=
  [(4, 0x10010, 0x228), (4, 0x10014, 1), (8, 0x10050, 0x1000), (4, 0x10188, 0x40),
   (4, 0x1018c, 1), (8, 0x10228, 0x8000), (8, 0x10230, mainSize),
   (4, 0x11010, 0x228), (4, 0x11014, 1), (8, 0x11228, 0x9000), (8, 0x11230, 0x248)].foldl
    (fun m (width, a, v) => m.writeWord width a v) fun _ => 0

def sampleAttached (mainSize : Nat) : MappedSharedCache where
  subCaches :=
    [⟨containerAt 0x10000 mainSize, 0x8000, 0x228, 1⟩,
     ⟨containerAt 0x11000 0x248, 0x9000, 0x228, 1⟩]
  libraries := []
  cacheSlide := 0x8000

/-- The main cache's table is outside its container, so nothing in the subcache is translated. -/
theorem sampleAttached_panics :
    dyldSharedCacheAttachAll (sampleCacheMemory 0x228) 0x10000
      = .ok (sampleAttached 0x228).subCaches ∧
    readMainCacheUnslidBaseFrom (sampleCacheMemory 0x228) 0x10000 = .ok 0x8000 ∧
    (∀ subcache ∈ (sampleAttached 0x228).subCaches,
      subcache.FirstMappingAtBase (sampleCacheMemory 0x228)) ∧
    (∀ subcache ∈ (sampleAttached 0x228).subCaches, ∀ k < subcache.mappingTableEntryCount,
      (subcache.entry (sampleCacheMemory 0x228) 0).address
        ≤ (subcache.entry (sampleCacheMemory 0x228) k).address) ∧
    (∀ subcache ∈ (sampleAttached 0x228).subCaches,
      subcache.container.bytes.start + subcache.container.bytes.len ≤ 2 ^ 64) ∧
    0x10000 = 0x8000 + (sampleAttached 0x228).cacheSlide ∧
    (MappedSubCache.view ⟨containerAt 0x11000 0x248, 0x9000, 0x228, 1⟩
      (sampleCacheMemory 0x228)).runtimeOffsetForVmAddress 0x9100 = .ok (some 0x100) ∧
    ((sampleAttached 0x228).view (sampleCacheMemory 0x228)).unslidAddressToRuntimePointerTranslate
      0x9100 = .panic "malformed cache mapping table" := by
  unfold MappedSubCache.FirstMappingAtBase
  decide +kernel

theorem sampleAttached_translates :
    (∀ off, (MappedSubCache.view ⟨containerAt 0x11000 0x248, 0x9000, 0x228, 1⟩
        (sampleCacheMemory 0x248)).runtimeOffsetForVmAddress 0x9100 = .ok (some off) →
      off < 0x248 ∧ 0x11000 + off + 0x8000 = 0x9100 + 0x10000 ∧
      (0x10000 = 0x8000 + (sampleAttached 0x248).cacheSlide →
        ((sampleAttached 0x248).view (sampleCacheMemory 0x248)).unslidAddressToRuntimePointerTranslate
            0x9100 = .ok (0x11000 + off) ∨
        ∃ j < 1, ∃ t, (sampleAttached 0x248).subCaches[j]? = some t ∧
          ¬ (t.view (sampleCacheMemory 0x248)).TableFits ∧
          ∃ msg, ((sampleAttached 0x248).view
            (sampleCacheMemory 0x248)).unslidAddressToRuntimePointerTranslate 0x9100
              = .panic msg)) ∧
    ((∃ k < 1, (MappedSubCache.entry ⟨containerAt 0x11000 0x248, 0x9000, 0x228, 1⟩
        (sampleCacheMemory 0x248) k).Covers 0x9100) →
      (MappedSubCache.view ⟨containerAt 0x11000 0x248, 0x9000, 0x228, 1⟩
        (sampleCacheMemory 0x248)).runtimeOffsetForVmAddress 0x9100 ≠ .ok none) := by
  have hattach : dyldSharedCacheAttachAll (sampleCacheMemory 0x248) 0x10000
      = .ok (sampleAttached 0x248).subCaches := by decide +kernel
  have hbase : readMainCacheUnslidBaseFrom (sampleCacheMemory 0x248) 0x10000 = .ok 0x8000 := by
    decide +kernel
  have hfirst : ∀ subcache ∈ (sampleAttached 0x248).subCaches,
      subcache.FirstMappingAtBase (sampleCacheMemory 0x248) := by
    unfold MappedSubCache.FirstMappingAtBase
    decide +kernel
  have hmapped : ∀ subcache ∈ (sampleAttached 0x248).subCaches,
      subcache.container.bytes.start + subcache.container.bytes.len ≤ 2 ^ 64 := by
    decide +kernel
  have hi : (sampleAttached 0x248).subCaches[1]?
      = some ⟨containerAt 0x11000 0x248, 0x9000, 0x228, 1⟩ := rfl
  exact attachAll_translates hattach hbase hfirst hmapped hi 0x9100

end Dynld
