import Dynld.Proof.Frames

/-!
# What a program that was loaded looks like

When the loader returns, every image that the executable depends on is in memory, in a
region of its own: a tree of regions that follows the dependencies, and no two of them
have a byte in common (`Claimed`). In each region there are the bytes of the file, as the
segments have laid them out, and in the slot of each fixup there is the word that the
fixup stands for.

`Linked` says this about the memory at the end, not about the memory at the time when an
image was mapped or fixed up: the word of a bind is looked up in the libraries as they are
when everything is loaded. That this is the same is what `machoLoader_spares` gives. Bytes
that the called code has written to are left out, here and where a word is looked up.
-/

namespace Dynld

open Chains (Reaches)

variable {host : Host} {cache : DyldSharedCache} {execDir : List UInt8} {executable : Container}

/-! ## What a fixup looks at -/

/-- The bytes of the library that a fixup looks its symbol up in. -/
def Fixup.lookupRanges (libraries : List Library) (fixup : Fixup) : List ByteRange :=
  match fixup.kind with
  | .rebase _ => []
  | .bind _ ordinal _ _ => libraries[ordinal - 1]?.toList.flatMap Library.ranges

theorem regularWord_congr_of_ranges {symbolName : ArrayString symbolNameLen} {library : Library}
    {m m' : Mem} (h : Patch.Agree library.ranges m m') :
    regularWord (some fun _ => cache) symbolName m' library
      = regularWord (some fun _ => cache) symbolName m library := by
  cases library with
  | user container =>
      rw [regularWord, regularWord, MappedContainer.view_congr (h _ (List.mem_singleton_self _))]
  | system libraryName => rfl

/-- In the loader the cache never changes, so a word depends on the bytes of one library. -/
theorem fixupWord_congr_of_ranges {vm base : Nat} {symbols : List Symbol} {libraries : List Library}
    {fixup : Fixup} {m m' : Mem} (h : Patch.Agree (fixup.lookupRanges libraries) m m') :
    fixupWord vm base symbols libraries (some fun _ => cache) m' fixup
      = fixupWord vm base symbols libraries (some fun _ => cache) m fixup := by
  unfold Fixup.lookupRanges at h
  unfold fixupWord
  cases hkind : fixup.kind with
  | rebase target => rfl
  | bind symbolName ordinal isAuth addend =>
      rw [hkind] at h
      dsimp only at h ⊢
      cases hlib : libraries[ordinal - 1]? with
      | none => rw [Outcome.orPanic_none, Outcome.panic_bind, Outcome.panic_bind]
      | some library =>
          have hranges : Patch.Agree library.ranges m m' := fun r hr => h r
            (by rw [hlib]; exact List.mem_flatMap.mpr ⟨library, List.mem_singleton_self _, hr⟩)
          rw [Outcome.orPanic_some, Outcome.ok_bind, Outcome.ok_bind,
            regularWord_congr_of_ranges hranges]

/-! ## One image -/

/-- The addresses that a segment asks for. -/
def Segment.vmRange (seg : Segment) : ByteRange := ⟨seg.vmAddr, seg.vmSize⟩

/-- No byte of the range is written by the called code. -/
def Host.LeavesRangeAlone (host : Host) (r : ByteRange) : Prop := ∀ x ∈ r, host.LeavesAlone x

/-- The address is in no slot of a fixup. -/
def OutsideSlots (dylibDir : Option (List UInt8)) (vm : Nat) (fixups : List Fixup) (x : Nat) : Prop :=
  ∀ fixup ∈ fixups, x ∉ fixupSlotRange vm (imageBase dylibDir) fixup

variable (host cache) in
/-- An image is in its region, linked to these libraries. Its file was mapped at `file`. -/
structure Holds (w : World) (c : Container) (dylibDir : Option (List UInt8))
    (parsedImage : ParsedImage) (libraries : List Library) (file region : ByteRange) : Prop where
  inUse : region ∈ w.regions
  fileInUse : ∀ x ∈ file, w.InUse x
  fileSize : file.len = c.data.length
  inSpace : region.start + region.len ≤ 2 ^ 64
  inside : parsedImage.Inside dylibDir region.len
  librariesInUse : ∀ container, .user container ∈ libraries → container.bytes ∈ w.regions
  size : ∃ lo hi, segmentsBounds parsedImage.segments.items (2 ^ 64 - 1, 0) = .ok (lo, hi) ∧
    region.len = hi - lo
  /-- What the last segment over a byte has from the file. -/
  fileBytes : ∀ before seg after,
    mappedSegments dylibDir.isNone parsedImage.segments.items = before ++ seg :: after →
    ∀ i < seg.vmSize, (∀ later ∈ after, seg.vmAddr + i ∉ later.vmRange) →
      OutsideSlots dylibDir region.start parsedImage.fixups (region.start + seg.vmAddr + i) →
      host.LeavesAlone (file.start + seg.fileOffset + i) →
      host.LeavesAlone (region.start + seg.vmAddr + i) →
      ∀ b, c.data[seg.fileOffset + i]? = some b → w.mem (region.start + seg.vmAddr + i) = b
  /-- No segment is over the byte. -/
  zeroBytes : ∀ i < region.len,
    (∀ seg ∈ mappedSegments dylibDir.isNone parsedImage.segments.items, i ∉ seg.vmRange) →
    OutsideSlots dylibDir region.start parsedImage.fixups (region.start + i) →
    host.LeavesAlone (region.start + i) → w.mem (region.start + i) = 0
  /-- What the last fixup of a slot stands for. -/
  words : ∀ before fixup after, parsedImage.fixups = before ++ fixup :: after →
    (∀ later ∈ after, ByteRange.Apart (fixupSlotRange region.start (imageBase dylibDir) fixup)
      (fixupSlotRange region.start (imageBase dylibDir) later)) →
    host.LeavesRangeAlone (fixupSlotRange region.start (imageBase dylibDir) fixup) →
    (∀ r ∈ fixup.lookupRanges libraries, host.LeavesRangeAlone r) →
    ∃ v, fixupWord region.start (imageBase dylibDir) parsedImage.symbols libraries
        (some fun _ => cache) w.mem fixup = .ok v ∧
      w.mem.readWord 8 (fixupSlot region.start (imageBase dylibDir) fixup) = v % 256 ^ 8

/-- What is looked up is in use. -/
theorem Fixup.lookupRange_mem {libraries : List Library} {fixup : Fixup} {r : ByteRange}
    (hr : r ∈ fixup.lookupRanges libraries) :
    ∃ container, .user container ∈ libraries ∧ r = container.bytes := by
  unfold Fixup.lookupRanges at hr
  split at hr
  · exact absurd hr List.not_mem_nil
  obtain ⟨library, hlib, hr⟩ := List.mem_flatMap.mp hr
  have hmem : library ∈ libraries := List.mem_of_getElem? (Option.mem_toList.mp hlib)
  cases library with
  | system name => exact absurd hr List.not_mem_nil
  | user container => exact ⟨container, hmem, List.mem_singleton.mp hr⟩

theorem Holds.lookupRange_inUse {w : World} {c : Container} {dylibDir : Option (List UInt8)}
    {parsedImage : ParsedImage} {libraries : List Library} {file region r : ByteRange}
    {fixup : Fixup} (h : Holds host cache w c dylibDir parsedImage libraries file region)
    (hr : r ∈ fixup.lookupRanges libraries) : r ∈ w.regions := by
  obtain ⟨container, hmem, rfl⟩ := Fixup.lookupRange_mem hr
  exact h.librariesInUse container hmem

/-! ## What loading more images keeps -/

variable (host) in
/-- What is in use stays in use, and stays as it is, where the called code leaves it alone. -/
def Advances (w w' : World) : Prop :=
  (∀ r ∈ w.regions, r ∈ w'.regions) ∧ ∀ x, host.LeavesAlone x → Spares x w w'

theorem Advances.refl (w : World) : Advances host w w :=
  ⟨fun _ h => h, fun x _ => Spares.refl x w⟩

theorem Advances.trans (w w' w'' : World) (h : Advances host w w') (h' : Advances host w' w'') :
    Advances host w w'' :=
  ⟨fun r hr => h'.1 r (h.1 r hr), fun x hx => Spares.trans x _ _ _ (h.2 x hx) (h'.2 x hx)⟩

theorem Advances.inUse {w w' : World} (h : Advances host w w') {x : Nat} (hx : w.InUse x) :
    w'.InUse x :=
  hx.imp fun r hr => ⟨h.1 r hr.1, hr.2⟩

theorem Advances.mem_eq {w w' : World} (h : Advances host w w') {x : Nat} (hx : w.InUse x)
    (hquiet : host.LeavesAlone x) : w'.mem x = w.mem x :=
  (h.2 x hquiet hx).2

theorem Holds.advances {w w' : World} {c : Container} {dylibDir : Option (List UInt8)}
    {parsedImage : ParsedImage} {libraries : List Library} {file region : ByteRange}
    (h : Holds host cache w c dylibDir parsedImage libraries file region)
    (hadv : Advances host w w') :
    Holds host cache w' c dylibDir parsedImage libraries file region where
  inUse := hadv.1 _ h.inUse
  fileInUse := fun x hx => hadv.inUse (h.fileInUse x hx)
  fileSize := h.fileSize
  inSpace := h.inSpace
  inside := h.inside
  librariesInUse := fun container hmem => hadv.1 _ (h.librariesInUse container hmem)
  size := h.size
  fileBytes := by
    intro before seg after hsegments i hi hlater hslots hsource htarget b hb
    have hseg : seg ∈ mappedSegments dylibDir.isNone parsedImage.segments.items := by
      rw [hsegments]
      exact List.mem_append_right _ List.mem_cons_self
    have hin := h.inside.segments seg hseg
    have hx : region.start + seg.vmAddr + i ∈ region := ByteRange.mem_def.mpr ⟨by omega, by omega⟩
    rw [hadv.mem_eq ⟨_, h.inUse, hx⟩ htarget]
    exact h.fileBytes before seg after hsegments i hi hlater hslots hsource htarget b hb
  zeroBytes := by
    intro i hi hnone hslots htarget
    have hx : region.start + i ∈ region := ByteRange.mem_def.mpr ⟨by omega, by omega⟩
    rw [hadv.mem_eq ⟨_, h.inUse, hx⟩ htarget]
    exact h.zeroBytes i hi hnone hslots htarget
  words := by
    intro before fixup after hfixups hlater hslot hlookup
    obtain ⟨v, hword, hread⟩ := h.words before fixup after hfixups hlater hslot hlookup
    have hmem : fixup ∈ parsedImage.fixups := by
      rw [hfixups]
      exact List.mem_append_right _ List.mem_cons_self
    refine ⟨v, ?_, ?_⟩
    · -- the library is where it was, and reads as it did
      rw [← hword]
      refine fixupWord_congr_of_ranges fun r hr x hx => ?_
      exact hadv.mem_eq ⟨r, h.lookupRange_inUse hr, hx⟩ (hlookup r hr x hx)
    · rw [← hread]
      refine Mem.readWord_congr fun x hx => ?_
      have hin := fixupSlotRange_within h.inSpace (h.inside.fixups fixup hmem) x hx
      exact hadv.mem_eq ⟨_, h.inUse, hin⟩ (hslot x hx)

/-! ## From the file to the region -/

section

variable {w₀ w₁ w₂ w₃ w' : World} {dylibDir : Option (List UInt8)} {image : MappedContainer}
  {parsedImage : ParsedImage} {libraries : List Library} {vm size : Nat}

/-- What a slot is not over is as the mapping left it. -/
theorem imageFixupsApply_keeps {x : Nat}
    (hok : imageFixupsApply dylibDir vm parsedImage libraries cache w₂ = (.ok (), w₃))
    (hslots : OutsideSlots dylibDir vm parsedImage.fixups x) : w₃.mem x = w₂.mem x := by
  have hrun := imageFixupsApply_run hok
  rw [fixupAllChainedFixups_eq_run, filter_keepAll] at hrun
  exact Patch.run_of_notMem hrun hslots

/-- The region comes from the kernel, so nothing in use is in it. -/
theorem mappedRegion_apart (hhost : host.Sound)
    (hmap : machoSegmentsMapToVm host dylibDir image parsedImage.segments.items w₁
      = (.ok (vm, size), w₂)) {r : ByteRange} (hr : ∀ x ∈ r, w₁.InUse x) :
    ByteRange.Apart ⟨vm, size⟩ r := by
  obtain ⟨_, _, -, -, -, halloc, -⟩ := machoSegmentsMapToVm_eq_ok hmap
  intro x hx hxr
  obtain ⟨s, hs, hxs⟩ := hr x hxr
  exact hhost.freshRegions _ _ _ halloc s hs x hx hxs

/-- A byte of the file arrives, if no later segment is over it. -/
theorem arrivedByte (hhost : host.Sound)
    (hmap : machoSegmentsMapToVm host dylibDir image parsedImage.segments.items w₁
      = (.ok (vm, size), w₂))
    (hinside : parsedImage.Inside dylibDir size) (hlive : ∀ x ∈ image.bytes, w₁.InUse x)
    {before after : List Segment} {seg : Segment}
    (hsegments : mappedSegments dylibDir.isNone parsedImage.segments.items = before ++ seg :: after)
    {i : Nat} (hi : i < seg.vmSize) (hlater : ∀ later ∈ after, seg.vmAddr + i ∉ later.vmRange)
    (hfile : seg.fileOffset + i < image.bytes.len) :
    w₂.mem (vm + seg.vmAddr + i) = w₁.mem (image.bytes.start + seg.fileOffset + i) := by
  have hapart : ByteRange.Apart ⟨vm, size⟩ image.bytes := mappedRegion_apart hhost hmap hlive
  obtain ⟨_, _, -, -, -, -, rfl⟩ := machoSegmentsMapToVm_eq_ok hmap
  have hsrc : image.bytes.start + seg.fileOffset + i ∈ image.bytes :=
    ByteRange.mem_def.mpr ⟨by omega, by omega⟩
  have hmoves : (mappedSegments dylibDir.isNone parsedImage.segments.items).map
      (Segment.move image vm)
      = before.map (Segment.move image vm)
        ++ seg.move image vm :: after.map (Segment.move image vm) := by
    rw [hsegments, List.map_append, List.map_cons]
  have hkept : ∀ mv ∈ before.map (Segment.move image vm)
      ++ seg.move image vm :: after.map (Segment.move image vm),
      ByteRange.Apart mv.target image.bytes := by
    intro mv hmv
    rw [← hmoves] at hmv
    obtain ⟨s, hs, rfl⟩ := List.mem_map.mp hmv
    have hle := hinside.segments s hs
    refine hapart.mono (ByteRange.within_of_le ?_ ?_) (ByteRange.Within.refl _)
    · exact Nat.le_add_right vm s.vmAddr
    · show vm + s.vmAddr + s.vmSize ≤ vm + size
      omega
  have hlast : ∀ mv ∈ after.map (Segment.move image vm), vm + seg.vmAddr + i ∉ mv.target := by
    intro mv hmv hbad
    obtain ⟨later, hmem, rfl⟩ := List.mem_map.mp hmv
    have hbad : vm + later.vmAddr ≤ vm + seg.vmAddr + i ∧
        vm + seg.vmAddr + i < vm + later.vmAddr + later.vmSize := hbad
    exact hlater later hmem (ByteRange.mem_mk.mpr ⟨by omega, by omega⟩)
  have harrive := Mem.copyAll_at (m := w₁.mem.zero vm size) hkept (i := i) hi hsrc hlast
  rw [← hmoves] at harrive
  -- the region is zeroed first, and is apart from the file
  exact harrive.trans (Mem.zero_of_notMem fun hbad => hapart _ hbad hsrc)

theorem arrivedByte_zero
    (hmap : machoSegmentsMapToVm host dylibDir image parsedImage.segments.items w₁
      = (.ok (vm, size), w₂)) {i : Nat} (hi : i < size)
    (hnone : ∀ seg ∈ mappedSegments dylibDir.isNone parsedImage.segments.items, i ∉ seg.vmRange) :
    w₂.mem (vm + i) = 0 := by
  obtain ⟨_, _, -, -, -, -, rfl⟩ := machoSegmentsMapToVm_eq_ok hmap
  have hkeep : ∀ mv ∈ (mappedSegments dylibDir.isNone parsedImage.segments.items).map
      (Segment.move image vm), vm + i ∉ mv.target := by
    intro mv hmv hbad
    obtain ⟨seg, hseg, rfl⟩ := List.mem_map.mp hmv
    have hbad : vm + seg.vmAddr ≤ vm + i ∧ vm + i < vm + seg.vmAddr + seg.vmSize := hbad
    exact hnone seg hseg (ByteRange.mem_mk.mpr ⟨by omega, by omega⟩)
  have hin : vm ≤ vm + i ∧ vm + i < vm + size := ⟨Nat.le_add_right vm i, Nat.add_lt_add_left hi vm⟩
  exact (Mem.copyAll_of_notMem hkeep).trans (if_pos hin)

/-- The word in a slot is the one that the fixup stands for once all slots are written. -/
theorem fixedUpWord
    (hok : imageFixupsApply dylibDir vm parsedImage libraries cache w₂ = (.ok (), w₃))
    (hspace : vm + size ≤ 2 ^ 64) (hinside : parsedImage.Inside dylibDir size)
    (hlibraries : ∀ container, .user container ∈ libraries →
      ByteRange.Apart ⟨vm, size⟩ container.bytes)
    {before after : List Fixup} {fixup : Fixup}
    (hfixups : parsedImage.fixups = before ++ fixup :: after)
    (hlater : ∀ later ∈ after, ByteRange.Apart (fixupSlotRange vm (imageBase dylibDir) fixup)
      (fixupSlotRange vm (imageBase dylibDir) later)) :
    ∃ v, fixupWord vm (imageBase dylibDir) parsedImage.symbols libraries (some fun _ => cache)
        w₃.mem fixup = .ok v ∧
      w₃.mem.readWord 8 (fixupSlot vm (imageBase dylibDir) fixup) = v % 256 ^ 8 := by
  have hrun := imageFixupsApply_run hok
  rw [fixupAllChainedFixups_eq_run, filter_keepAll, hfixups] at hrun
  obtain ⟨mid, v, hbefore, hv, hread⟩ := Patch.run_slot hrun hlater
  refine ⟨v, ?_, hread⟩
  rw [← hv]
  refine fixupWord_congr_of_ranges fun r hr x hx => ?_
  obtain ⟨container, hmem, rfl⟩ := Fixup.lookupRange_mem hr
  -- no slot is in a library
  have hout : ∀ g ∈ before ++ fixup :: after, x ∉ fixupSlotRange vm (imageBase dylibDir) g := by
    intro g hg hbad
    have hin := hinside.fixups g (hfixups ▸ hg)
    exact hlibraries container hmem x (fixupSlotRange_within hspace hin x hbad) hx
  have hend := Patch.run_of_notMem hrun hout
  have hmid := Patch.run_of_notMem hbefore fun g hg => hout g (List.mem_append_left _ hg)
  exact hend.trans hmid.symm

theorem imageFinalize_advances
    (hfinish : imageFinalize host dylibDir vm parsedImage w₃ = (.ok (), w')) :
    Advances host w₃ w' := by
  refine ⟨fun r hr => ?_, fun x hquiet => ?_⟩
  · rw [(imageFinalize_eq_ok hfinish).1]
    exact hr
  · have hspares := imageFinalize_spares hquiet dylibDir vm parsedImage w₃
    rwa [hfinish] at hspares

/-- What is done for an image itself keeps what is linked already. -/
theorem own_advances (hhost : host.Sound)
    (hmap : machoSegmentsMapToVm host dylibDir image parsedImage.segments.items w₁
      = (.ok (vm, size), w₂))
    (hfixup : imageFixupsApply dylibDir vm parsedImage libraries cache w₂ = (.ok (), w₃))
    (hfinish : imageFinalize host dylibDir vm parsedImage w₃ = (.ok (), w'))
    (hinside : ∀ lo hi, segmentsBounds parsedImage.segments.items (2 ^ 64 - 1, 0) = .ok (lo, hi) →
      parsedImage.Inside dylibDir (hi - lo)) : Advances host w₁ w' := by
  refine Advances.trans _ _ _ ⟨?_, ?_⟩ (imageFinalize_advances hfinish)
  · intro r hr
    obtain ⟨_, _, -, -, -, -, rfl⟩ := machoSegmentsMapToVm_eq_ok hmap
    rw [(imageFixupsApply_eq_ok hfixup).1]
    exact List.mem_cons_of_mem _ hr
  · intro x _ hx
    have hmapped : Spares x w₁ _ := machoSegmentsMapToVm_spares hhost image hinside w₁
    rw [hmap] at hmapped
    obtain ⟨lo, hi, hbounds, -, rfl, halloc, -⟩ := machoSegmentsMapToVm_eq_ok hmap
    have hout : x ∉ (⟨vm, hi - lo⟩ : ByteRange) := by
      obtain ⟨r, hr, hxr⟩ := hx
      exact fun hxv => mappedRegion_apart hhost hmap (fun y hy => ⟨r, hr, hy⟩) x hxv hxr
    have hfixed : Spares x w₂ _ := imageFixupsApply_spares libraries cache
      (hhost.inSpace _ _ _ halloc) (hinside lo hi hbounds) hout w₂
    rw [hfixup] at hfixed
    exact Spares.trans x _ _ _ hmapped hfixed hx

/-- **One image**, once its dependencies are loaded. -/
theorem own_holds (hhost : host.Sound)
    (hmap : machoSegmentsMapToVm host dylibDir image parsedImage.segments.items w₁
      = (.ok (vm, size), w₂))
    (hfixup : imageFixupsApply dylibDir vm parsedImage libraries cache w₂ = (.ok (), w₃))
    (hfinish : imageFinalize host dylibDir vm parsedImage w₃ = (.ok (), w'))
    (hinside : ∀ lo hi, segmentsBounds parsedImage.segments.items (2 ^ 64 - 1, 0) = .ok (lo, hi) →
      parsedImage.Inside dylibDir (hi - lo))
    (hlibraries : ∀ container, .user container ∈ libraries → container.bytes ∈ w₁.regions)
    (hlive : ∀ x ∈ image.bytes, w₁.InUse x)
    (hfile : ∀ x ∈ image.bytes, host.LeavesAlone x → w₁.mem x = w₀.mem x) :
    Holds host cache w' (image.view w₀.mem) dylibDir parsedImage libraries image.bytes
      ⟨vm, size⟩ := by
  obtain ⟨lo, hi, hbounds, -, hsize, halloc, hw₂⟩ := machoSegmentsMapToVm_eq_ok hmap
  have hin : parsedImage.Inside dylibDir size := hsize ▸ hinside lo hi hbounds
  have hspace : vm + size ≤ 2 ^ 64 := hhost.inSpace _ _ _ halloc
  have hregions : w₃.regions = ⟨vm, size⟩ :: w₁.regions := by
    rw [(imageFixupsApply_eq_ok hfixup).1, hw₂]
    rfl
  refine Holds.advances ?_ (imageFinalize_advances hfinish)
  refine ⟨?_, ?_, ?_, hspace, hin, ?_, ⟨lo, hi, hbounds, hsize⟩, ?_, ?_, ?_⟩
  · rw [hregions]
    exact List.mem_cons_self
  · intro x hx
    obtain ⟨r, hr, hxr⟩ := hlive x hx
    refine ⟨r, ?_, hxr⟩
    rw [hregions]
    exact List.mem_cons_of_mem _ hr
  · exact (view_data_length image w₀.mem).symm
  · intro container hmem
    rw [hregions]
    exact List.mem_cons_of_mem _ (hlibraries container hmem)
  · intro before seg after hsegments i hi hlater hslots hsource _ b hb
    have hlt : seg.fileOffset + i < image.bytes.len := by
      have h := (List.getElem?_eq_some_iff.mp hb).1
      rwa [view_data_length] at h
    have hsrc : image.bytes.start + seg.fileOffset + i ∈ image.bytes :=
      ByteRange.mem_def.mpr ⟨by omega, by omega⟩
    rw [view_data_getElem? hlt, ← Nat.add_assoc] at hb
    rw [imageFixupsApply_keeps hfixup hslots,
      arrivedByte hhost hmap hin hlive hsegments hi hlater hlt, hfile _ hsrc hsource]
    exact Option.some.inj hb
  · intro i hi hnone hslots _
    rw [imageFixupsApply_keeps hfixup hslots]
    exact arrivedByte_zero hmap hi hnone
  · intro before fixup after hfixups hlater _ _
    exact fixedUpWord hfixup hspace hin
      (fun container hmem => mappedRegion_apart hhost hmap fun x hx =>
        ⟨_, hlibraries container hmem, hx⟩) hfixups hlater

end

/-! ## New ranges -/

/-- From `w` to `w'` these ranges have come into use. No two have a byte in common. -/
structure Claimed (w w' : World) (regions : List ByteRange) : Prop where
  separate : ByteRange.Separate regions
  fresh : ∀ r ∈ regions, ∀ s ∈ w.regions, ByteRange.Apart r s
  inUse : ∀ r ∈ regions, r ∈ w'.regions

theorem Claimed.nil (w : World) : Claimed w w [] where
  separate := List.Pairwise.nil
  fresh := fun _ hr => absurd hr List.not_mem_nil
  inUse := fun _ hr => absurd hr List.not_mem_nil

/-- What was claimed later is apart from what was claimed before. -/
theorem Claimed.append {w w₁ w' : World} {regions regions' : List ByteRange}
    (h : Claimed w w₁ regions) (h' : Claimed w₁ w' regions') (hadv : Advances host w w₁)
    (hadv' : Advances host w₁ w') : Claimed w w' (regions ++ regions') where
  separate := List.pairwise_append.mpr
    ⟨h.separate, h'.separate, fun r hr s hs => (h'.fresh s hs r (h.inUse r hr)).symm⟩
  fresh := by
    intro r hr s hs
    rcases List.mem_append.mp hr with hr | hr
    · exact h.fresh r hr s hs
    · exact h'.fresh r hr s (hadv.1 s hs)
  inUse := by
    intro r hr
    rcases List.mem_append.mp hr with hr | hr
    · exact hadv'.1 r (h.inUse r hr)
    · exact h'.inUse r hr

/-- A region after those of the images that were loaded before it. -/
theorem Claimed.cons {w w₁ w' : World} {region : ByteRange} {regions : List ByteRange}
    (h : Claimed w w₁ regions) (hadv : Advances host w w₁) (hadv' : Advances host w₁ w')
    (hfresh : ∀ r ∈ w₁.regions, ByteRange.Apart region r) (huse : region ∈ w'.regions) :
    Claimed w w' (region :: regions) where
  separate := List.pairwise_cons.mpr ⟨fun r hr => hfresh r (h.inUse r hr), h.separate⟩
  fresh := by
    intro r hr s hs
    rcases List.mem_cons.mp hr with rfl | hr
    · exact hfresh s (hadv.1 s hs)
    · exact h.fresh r hr s hs
  inUse := by
    intro r hr
    rcases List.mem_cons.mp hr with rfl | hr
    · exact huse
    · exact hadv'.1 r (h.inUse r hr)

/-- Ranges that come into use before do not matter. -/
theorem Claimed.mono {w₀ w w' : World} {regions : List ByteRange} (h : Claimed w w' regions)
    (hadv : Advances host w₀ w) : Claimed w₀ w' regions where
  separate := h.separate
  fresh := fun r hr s hs => h.fresh r hr s (hadv.1 s hs)
  inUse := h.inUse

/-! ## The whole tree -/

section

variable (host cache execDir executable)

mutual

/-- An image is in its region, linked to the libraries that its dependencies are in. The regions are
its own and those below it. -/
inductive Linked (w : World) : Option (List UInt8) → List ByteRange → Prop where
  | image {dylibDir : Option (List UInt8)} {c : Container} {parsedImage : ParsedImage}
      {dependencies : ArrayVec (Str × Bool) 32} {libraries : List Library}
      {file region : ByteRange} {below : List ByteRange} :
      imageAt host executable dylibDir = some c → c.machoParser = .ok parsedImage →
      dependenciesCollect parsedImage cache = .ok dependencies →
      LinkedLibraries w parsedImage.rpath dependencies.items libraries below →
      Holds host cache w c dylibDir parsedImage libraries file region →
      Linked w dylibDir (region :: below)

/-- Each dependency is answered with a library of its kind: a user dylib is linked itself, in regions
that no other dependency has. -/
inductive LinkedLibraries (w : World) :
    Option Rpath → List (Str × Bool) → List Library → List ByteRange → Prop where
  | nil {rpath : Option Rpath} : LinkedLibraries w rpath [] [] []
  | system {rpath : Option Rpath} {dependency : Str × Bool} {dependencies : List (Str × Bool)}
      {libraries : List Library} {below : List ByteRange} :
      dependencyPath execDir rpath dependency = none →
      LinkedLibraries w rpath dependencies libraries below →
      LinkedLibraries w rpath (dependency :: dependencies) (.system dependency.1 :: libraries) below
  | user {rpath : Option Rpath} {dependency : Str × Bool} {dependencies : List (Str × Bool)}
      {libraries : List Library} {q : List UInt8} {region : ByteRange}
      {own below : List ByteRange} :
      dependencyPath execDir rpath dependency = some q → Linked w (some q) (region :: own) →
      LinkedLibraries w rpath dependencies libraries below →
      LinkedLibraries w rpath (dependency :: dependencies) (.user ⟨region, .little⟩ :: libraries)
        (region :: own ++ below)

end

end

mutual

theorem Linked.advances {w w' : World} (hadv : Advances host w w') :
    ∀ {dylibDir : Option (List UInt8)} {regions : List ByteRange},
    Linked host cache execDir executable w dylibDir regions →
    Linked host cache execDir executable w' dylibDir regions
  | _, _, .image hat hparse hcollect hlibraries hholds =>
      .image hat hparse hcollect (hlibraries.advances hadv) (hholds.advances hadv)

theorem LinkedLibraries.advances {w w' : World} (hadv : Advances host w w') :
    ∀ {rpath : Option Rpath} {dependencies : List (Str × Bool)} {libraries : List Library}
      {regions : List ByteRange},
    LinkedLibraries host cache execDir executable w rpath dependencies libraries regions →
    LinkedLibraries host cache execDir executable w' rpath dependencies libraries regions
  | _, _, _, _, .nil => .nil
  | _, _, _, _, .system hpath hrest => .system hpath (hrest.advances hadv)
  | _, _, _, _, .user hpath hlinked hrest =>
      .user hpath (hlinked.advances hadv) (hrest.advances hadv)

end

theorem Linked.inUse {w : World} {dylibDir : Option (List UInt8)} {region : ByteRange}
    {below : List ByteRange}
    (h : Linked host cache execDir executable w dylibDir (region :: below)) :
    region ∈ w.regions := by
  cases h with
  | image _ _ _ _ hholds => exact hholds.inUse

theorem LinkedLibraries.inUse {w : World} {rpath : Option Rpath} {dependencies : List (Str × Bool)}
    {libraries : List Library} {regions : List ByteRange}
    (h : LinkedLibraries host cache execDir executable w rpath dependencies libraries regions) :
    ∀ container, .user container ∈ libraries → container.bytes ∈ w.regions := by
  induction dependencies generalizing libraries regions with
  | nil =>
      cases h
      exact fun _ hmem => absurd hmem List.not_mem_nil
  | cons dependency dependencies ih =>
      intro container hmem
      cases h with
      | system _ hrest =>
          rcases List.mem_cons.mp hmem with hsame | hmem
          · exact absurd hsame (by simp)
          · exact ih hrest container hmem
      | user _ hlinked hrest =>
          rcases List.mem_cons.mp hmem with hsame | hmem
          · obtain rfl := Library.user.inj hsame
            exact hlinked.inUse
          · exact ih hrest container hmem

/-- A call of the loader moves the world on. -/
theorem machoLoader_advances (hhost : host.Sound) {fuel : Nat} {image : MappedContainer}
    {dylibDir : Option (List UInt8)} {w : World}
    (hat : imageAt host executable dylibDir = some (image.view w.mem))
    (hfiles : ∀ i, Reaches (dependencyGraph host cache execDir executable) dylibDir i →
      ImageStaysInside host executable i) :
    Advances host w (machoLoader host cache execDir fuel image dylibDir w).2 :=
  ⟨(machoLoader_grows hhost.freshRegions fuel image dylibDir w).1,
    fun _ hquiet => machoLoader_spares hhost hquiet fuel image dylibDir w hat hfiles⟩

theorem diskPathMmap_advances (hhost : host.Sound) (q : List UInt8) (w : World) :
    Advances host w (diskPathMmap host q w).2 :=
  ⟨(diskPathMmap_grows host q w).1, fun _ _ => diskPathMmap_spares hhost q w⟩

/-! ## Loading links -/

section

variable (host cache execDir executable) in
/-- If the loader returns a region for the dylib at this path, then the dylib is linked there, in new
regions. -/
def Links (fuel : Nat) (q : List UInt8) : Prop :=
  ∀ image w w' vm vmSize, imageAt host executable (some q) = some (image.view w.mem) →
    (∀ x ∈ image.bytes, w.InUse x) →
    machoLoader host cache execDir fuel image (some q) w = (.ok (vm, vmSize), w') →
    ∃ own, Linked host cache execDir executable w' (some q) (⟨vm, vmSize⟩ :: own) ∧
      Claimed w w' (⟨vm, vmSize⟩ :: own)

variable {fuel : Nat} {rpath : Option Rpath}

theorem Links.of_calls {q : List UInt8}
    (h : ∀ {image : MappedContainer} {w w' : World} {r : Nat × Nat},
      imageAt host executable (some q) = some (image.view w.mem) → (∀ x ∈ image.bytes, w.InUse x) →
      machoLoader host cache execDir fuel image (some q) w = (.ok r, w') →
      ∃ parsedImage region own, (image.view w.mem).machoParser = .ok parsedImage ∧
        r = loaderResult (some q) region.start region.len parsedImage ∧
        Linked host cache execDir executable w' (some q) (region :: own) ∧
        Claimed w w' (region :: own)) : Links host cache execDir executable fuel q := by
  intro image w w' vm vmSize hat hlive hrun
  obtain ⟨parsedImage, region, own, -, hr, hlinked⟩ := h hat hlive hrun
  obtain ⟨rfl, rfl⟩ : vm = region.start ∧ vmSize = region.len := Prod.mk.inj hr
  exact ⟨own, hlinked⟩

/-- One turn over the dependencies, with what the turns after it do. -/
theorem userDylibLoad_linked (hhost : host.Sound) {dependency : Str × Bool}
    {dependencies : List (Str × Bool)} {library : Library} {libraries : List Library}
    {below : List ByteRange} {w w₁ w' : World}
    (hfiles : ∀ q, dependencyPath execDir rpath dependency = some q → ∀ i,
      Reaches (dependencyGraph host cache execDir executable) (some q) i →
        ImageStaysInside host executable i)
    (hload : ∀ q, dependencyPath execDir rpath dependency = some q →
      Links host cache execDir executable fuel q)
    (h : userDylibLoad host (machoLoader host cache execDir fuel) execDir rpath dependency w
      = (.ok library, w₁))
    (hadv : Advances host w₁ w')
    (hrest : LinkedLibraries host cache execDir executable w' rpath dependencies libraries below)
    (hclaimed : Claimed w₁ w' below) :
    Advances host w w₁ ∧ ∃ regions,
      LinkedLibraries host cache execDir executable w' rpath (dependency :: dependencies)
        (library :: libraries) regions ∧ Claimed w w' regions := by
  obtain ⟨installName, isSystemDylib⟩ := dependency
  cases isSystemDylib with
  | true =>
      obtain ⟨hlibrary, rfl⟩ := Prod.mk.inj h
      obtain rfl := Outcome.ok.inj hlibrary
      exact ⟨Advances.refl w, below, .system rfl hrest, hclaimed⟩
  | false =>
      obtain ⟨q, w₂, hlift, h₂⟩ := Exec.bind_eq_ok.mp h
      obtain ⟨hresolve, rfl⟩ := Exec.liftM_eq_ok.mp hlift
      obtain ⟨image, w₃, hmmap, h₃⟩ := Exec.bind_eq_ok.mp h₂
      obtain ⟨⟨vm, vmSize⟩, w₄, hrun, h₄⟩ := Exec.bind_eq_ok.mp h₃
      obtain ⟨hlibrary, rfl⟩ := Prod.mk.inj h₄
      obtain rfl := Outcome.ok.inj hlibrary
      have hpath : dependencyPath execDir rpath (installName, false) = some q :=
        dependencyPath_eq_some.mpr ⟨rfl, hresolve⟩
      have hat : imageAt host executable (some q) = some (image.view w₃.mem) :=
        diskPathMmap_imageAt hmmap
      have hlive : ∀ x ∈ image.bytes, w₃.InUse x := by
        obtain ⟨bytes, address, -, -, rfl, rfl⟩ := diskPathMmap_eq_ok hmmap
        exact fun x hx => ⟨_, List.mem_cons_self, hx⟩
      have hmapped := diskPathMmap_advances hhost q w₂
      have hloaded := @machoLoader_advances host cache execDir executable hhost fuel _ _ _ hat
        (hfiles q hpath)
      rw [hmmap] at hmapped
      rw [hrun] at hloaded
      obtain ⟨own, hlinked, hown⟩ := hload q hpath image w₃ w₄ vm vmSize hat hlive hrun
      exact ⟨Advances.trans _ _ _ hmapped hloaded, _, .user hpath (hlinked.advances hadv) hrest,
        (hown.append hclaimed hloaded hadv).mono hmapped⟩

/-- Every dependency of an image is linked once all of them are loaded. -/
theorem userDylibsLoad_linked (hhost : host.Sound) : ∀ {dependencies : List (Str × Bool)}
    {libraries : List Library} {w w' : World},
    (∀ dependency ∈ dependencies, ∀ q, dependencyPath execDir rpath dependency = some q →
      Links host cache execDir executable fuel q ∧ ∀ i,
        Reaches (dependencyGraph host cache execDir executable) (some q) i →
          ImageStaysInside host executable i) →
    userDylibsLoadRecursively host (machoLoader host cache execDir fuel) execDir rpath dependencies w
      = (.ok libraries, w') →
    Advances host w w' ∧ ∃ regions,
      LinkedLibraries host cache execDir executable w' rpath dependencies libraries regions ∧
        Claimed w w' regions := by
  intro dependencies
  induction dependencies with
  | nil =>
    intro libraries w w' _ h
    obtain ⟨hlibraries, rfl⟩ := Prod.mk.inj h
    obtain rfl := Outcome.ok.inj hlibraries
    exact ⟨Advances.refl w, [], .nil, Claimed.nil w⟩
  | cons dependency dependencies ih =>
    intro libraries w w' hfiles h
    obtain ⟨library, w₁, hturn, h₁⟩ := Exec.bind_eq_ok.mp h
    obtain ⟨rest, w₂, hrest, h₂⟩ := Exec.bind_eq_ok.mp h₁
    obtain ⟨hlibraries, rfl⟩ := Prod.mk.inj h₂
    obtain rfl := Outcome.ok.inj hlibraries
    obtain ⟨hadv, below, hlinked, hclaimed⟩ :=
      ih (fun d hd => hfiles d (List.mem_cons_of_mem dependency hd)) hrest
    have hown := hfiles dependency List.mem_cons_self
    obtain ⟨hadv', hlibraries⟩ := userDylibLoad_linked hhost (fun q hq => (hown q hq).2)
      (fun q hq => (hown q hq).1) hturn hadv hlinked hclaimed
    exact ⟨Advances.trans _ _ _ hadv' hadv, hlibraries⟩

end

/-- **A call of the loader that returns** has linked the image, and all that it depends on, in new
regions. -/
theorem machoLoader_linked (hhost : host.Sound) : ∀ {fuel : Nat} {image : MappedContainer}
    {dylibDir : Option (List UInt8)} {w w' : World} {r : Nat × Nat},
    imageAt host executable dylibDir = some (image.view w.mem) → (∀ x ∈ image.bytes, w.InUse x) →
    (∀ i, Reaches (dependencyGraph host cache execDir executable) dylibDir i →
      ImageStaysInside host executable i) →
    machoLoader host cache execDir fuel image dylibDir w = (.ok r, w') →
    ∃ parsedImage region below, (image.view w.mem).machoParser = .ok parsedImage ∧
      r = loaderResult dylibDir region.start region.len parsedImage ∧
      Linked host cache execDir executable w' dylibDir (region :: below) ∧
      Claimed w w' (region :: below) := by
  intro fuel
  induction fuel with
  | zero =>
    intro _ _ _ _ _ _ _ _ h
    exact absurd (Prod.mk.inj h).1 (by simp)
  | succ fuel ih =>
    intro image dylibDir w w' r hat hlive hfiles h
    obtain ⟨n, hn, ⟨run⟩⟩ := machoLoader_eq_ok h
    obtain rfl : fuel = n := Nat.succ.inj hn
    have hnext : ∀ dependency ∈ run.dependencies.items, ∀ q,
        dependencyPath execDir run.parsedImage.rpath dependency = some q →
        some q ∈ dependencyGraph host cache execDir executable dylibDir := by
      intro dependency hdep q hq
      rw [dependencyGraph_of_parse hat run.parse_eq run.collect_eq]
      exact List.mem_map_of_mem (List.mem_filterMap.mpr ⟨dependency, hdep, hq⟩)
    have hload : ∀ dependency ∈ run.dependencies.items, ∀ q,
        dependencyPath execDir run.parsedImage.rpath dependency = some q →
        Links host cache execDir executable fuel q ∧ ∀ i,
          Reaches (dependencyGraph host cache execDir executable) (some q) i →
            ImageStaysInside host executable i := by
      intro dependency hdep q hq
      have hbelow : ∀ i, Reaches (dependencyGraph host cache execDir executable) (some q) i →
          ImageStaysInside host executable i :=
        fun i hreach => hfiles i (hreach.of_mem (hnext dependency hdep q hq))
      exact ⟨Links.of_calls fun hat' hlive' hrun => ih hat' hlive' hbelow hrun, hbelow⟩
    -- the dependencies first: they are loaded before the image is mapped
    obtain ⟨hadv, below, hlibraries, hclaimed⟩ := userDylibsLoad_linked hhost hload run.load_eq
    have hinside := fun lo hi =>
      hfiles dylibDir (.refl dylibDir) _ hat run.parsedImage lo hi run.parse_eq
    have hfile : ∀ x ∈ image.bytes, host.LeavesAlone x → run.loaded.mem x = w.mem x :=
      fun x hx hquiet => hadv.mem_eq (hlive x hx) hquiet
    have hholds := own_holds hhost run.map_eq run.fixup_eq run.finalize_eq hinside hlibraries.inUse
      (fun x hx => hadv.inUse (hlive x hx)) hfile
    -- the image moves the world on after its dependencies
    have hown := own_advances hhost run.map_eq run.fixup_eq run.finalize_eq hinside
    have hapart : ∀ r ∈ run.loaded.regions, ByteRange.Apart ⟨run.vm, run.vmSize⟩ r :=
      fun r hr => mappedRegion_apart hhost run.map_eq fun x hx => ⟨r, hr, hx⟩
    exact ⟨run.parsedImage, ⟨run.vm, run.vmSize⟩, below, run.parse_eq, run.result_eq,
      .image hat run.parse_eq run.collect_eq (hlibraries.advances hown) hholds,
      hclaimed.cons hadv hown hapart hholds.inUse⟩

theorem links_of_staysInside (hhost : host.Sound) {fuel : Nat} {q : List UInt8}
    (hfiles : ∀ i, Reaches (dependencyGraph host cache execDir executable) (some q) i →
      ImageStaysInside host executable i) : Links host cache execDir executable fuel q :=
  .of_calls fun hat hlive hrun => machoLoader_linked hhost hat hlive hfiles hrun

def sampleBindingRun : Outcome (Nat × Nat) × World :=
  machoLoader (sampleBoundedHost sampleBindingFile) sampleNoCache [] 4 sampleBindingImage none
    (sampleWorld sampleBindingExecutable)

theorem sampleBinding_returns : sampleBindingRun.1 = .ok (5036, 4294972332) := by decide +kernel

/-- The word of `/d` is the address of `_f` in the region of `/m`. -/
example : sampleBindingRun.2.mem.readWord 8 (4804 + 224) = 4674 + 4 := by decide +kernel

end Dynld
