import Dynld.Proof.LoaderSteps
import Dynld.Proof.ParserCommands

/-!
# Which segments end up in memory as they should

A segment has two sizes: `filesize` bytes are in the file, and the rest of its
`vmsize` bytes are to be zero. The loader copies `vmsize` bytes from the file, so
where the two sizes differ it maps what happens to come next in the file.

`machoSegmentsMapToVm_maps_iff` says when that does no harm. The region is new, so
no copy changes the image it is read from, and disjoint segments do not overwrite each
other: each byte arrives as it is in the file.
-/

namespace Dynld

/-- The kernel never hands out a region that is in use. -/
def Host.FreshRegions (host : Host) : Prop :=
  ∀ w size address, host.vmAllocate w size = some address →
    ∀ r ∈ w.regions, ByteRange.Apart ⟨address, size⟩ r

/-! ## The right mapping -/

namespace SegmentCommand64

/-- The addresses the segment asks for. -/
def vmRange (seg : SegmentCommand64) : ByteRange := ⟨seg.vmaddr, seg.vmsize⟩

/-- The segment is in the region as its command says. -/
structure MappedAt (seg : SegmentCommand64) (c : Container) (m : Mem) (region : ByteRange) :
    Prop where
  inRegion : ByteRange.Within ⟨region.start + seg.vmaddr, seg.vmsize⟩ region
  fileBytes : ∀ i < seg.filesize,
    c.data[seg.fileoff + i]? = some (m (region.start + seg.vmaddr + i))
  zeroTail : ∀ i, seg.filesize ≤ i → i < seg.vmsize → m (region.start + seg.vmaddr + i) = 0

/-- A segment that can be mapped by copying `vmsize` bytes of the file. -/
structure Copyable (seg : SegmentCommand64) (c : Container) (regionSize : Nat) : Prop where
  inRegion : ByteRange.Within seg.vmRange ⟨0, regionSize⟩
  inFile : ByteRange.Within ⟨seg.fileoff, seg.vmsize⟩ ⟨0, c.data.length⟩
  zeroBytes : ∀ i, seg.filesize ≤ i → i < seg.vmsize → c.data[seg.fileoff + i]? = some 0

end SegmentCommand64

/-- All segment commands but those of a skipped `__PAGEZERO`. -/
def mappedCommands (skipPageZero : Bool) (segs : List SegmentCommand64) : List SegmentCommand64 :=
  segs.filter fun seg => !(skipPageZero && seg.vmaddr == 0)

/-- From the lowest address any segment asks for to the highest. -/
def regionSize (segs : List SegmentCommand64) : Nat :=
  (segs.map fun seg => seg.vmaddr + seg.vmsize).foldr max 0
    - (segs.map (·.vmaddr)).foldr min (2 ^ 64 - 1)

/-- Each segment is in the region as its command says, and nothing past the end of the image was
read on the way from `w` to `w'`. -/
def MapsSegments (image : MappedContainer) (segs : List SegmentCommand64) (region : ByteRange)
    (w w' : World) : Prop :=
  (∀ seg ∈ segs, seg.MappedAt (image.view w.mem) w'.mem region) ∧
  ∀ src dst count, .copied src dst count ∈ w'.trace.drop w.trace.length →
    ByteRange.Within ⟨src, count⟩ image.bytes

/-! ## The region -/

theorem foldr_min_le {a b : Nat} : ∀ {l : List Nat}, a ∈ l → l.foldr min b ≤ a
  | x :: l, h => by
      rcases List.mem_cons.mp h with rfl | h
      · exact Nat.min_le_left _ _
      · exact Nat.le_trans (Nat.min_le_right _ _) (foldr_min_le h)

theorem segmentsBounds_eq_ok : ∀ {segs : List SegmentCommand64} {lo hi lo' hi' : Nat},
    lo ≤ 2 ^ 64 - 1 →
    segmentsBounds (segs.map SegmentCommand64.toSegment) (lo, hi) = .ok (lo', hi') →
      lo' = min lo ((segs.map (·.vmaddr)).foldr min (2 ^ 64 - 1)) ∧
      hi' = max hi ((segs.map fun seg => seg.vmaddr + seg.vmsize).foldr max 0) := by
  intro segs
  induction segs with
  | nil =>
    intro lo hi lo' hi' hlo h
    obtain ⟨rfl, rfl⟩ := Prod.mk.inj (Outcome.ok.inj h)
    exact ⟨(Nat.min_eq_left hlo).symm, (Nat.max_zero _).symm⟩
  | cons seg rest ih =>
    intro lo hi lo' hi' hlo h
    obtain ⟨e, hadd, h⟩ := Outcome.bind_eq_ok.mp h
    obtain ⟨hlo', hhi'⟩ := ih (Nat.le_trans (Nat.min_le_left _ _) hlo) h
    rw [(Outcome.add_eq_ok.mp hadd).2] at hhi'
    exact ⟨hlo'.trans (Nat.min_assoc _ _ _), hhi'.trans (Nat.max_assoc _ _ _)⟩

/-- The size of the region is known before it is allocated. -/
theorem regionSize_eq {segs : List SegmentCommand64} {lo hi : Nat}
    (h : segmentsBounds (segs.map SegmentCommand64.toSegment) (2 ^ 64 - 1, 0) = .ok (lo, hi)) :
    hi - lo = regionSize segs := by
  obtain ⟨hlo, hhi⟩ := segmentsBounds_eq_ok (Nat.le_refl _) h
  have hmin : ∀ l : List Nat, l.foldr min (2 ^ 64 - 1) ≤ 2 ^ 64 - 1 := by
    intro l
    induction l with
    | nil => exact Nat.le_refl _
    | cons a l ih => exact Nat.le_trans (Nat.min_le_right _ _) ih
  rw [Nat.min_eq_right (hmin _)] at hlo
  rw [Nat.max_eq_right (Nat.zero_le _)] at hhi
  rw [regionSize, hlo, hhi]

/-! ## Every byte arrives -/

theorem mappedSegments_map (skipPageZero : Bool) (segs : List SegmentCommand64) :
    mappedSegments skipPageZero (segs.map SegmentCommand64.toSegment)
      = (mappedCommands skipPageZero segs).map SegmentCommand64.toSegment := by
  rw [mappedSegments, mappedCommands, List.filter_map]
  rfl

/-- The copy that is made for a segment command. -/
def SegmentCommand64.move (image : MappedContainer) (vm : Nat) (seg : SegmentCommand64) : Mem.Move :=
  seg.toSegment.move image vm

/-- A run of `macho_segments_map_to_vm` that returned, in terms of the segment commands. -/
theorem machoSegmentsMapToVm_run {host : Host} {w w' : World} {dylibDir : Option (List UInt8)}
    {image : MappedContainer} {segs : List SegmentCommand64} {vm vmSize : Nat}
    (h : machoSegmentsMapToVm host dylibDir image (segs.map SegmentCommand64.toSegment) w
      = (.ok (vm, vmSize), w')) :
    vmSize = regionSize segs ∧ host.vmAllocate w vmSize = some vm ∧
      w' = (w.afterAlloc dylibDir ⟨vm, vmSize⟩).afterMoves
        ((mappedCommands dylibDir.isNone segs).map (SegmentCommand64.move image vm)) := by
  obtain ⟨lo, hi, hbounds, -, hsize, halloc, hw'⟩ := machoSegmentsMapToVm_eq_ok h
  refine ⟨hsize.trans (regionSize_eq hbounds), halloc, ?_⟩
  rw [hw', mappedSegments_map, List.map_map]
  rfl

section

variable {w : World} {image : MappedContainer} {dylibDir : Option (List UInt8)}
  {segs : List SegmentCommand64} {region : ByteRange}

/-- The world once the segments are copied to a region. -/
def World.afterMapping (w : World) (dylibDir : Option (List UInt8)) (image : MappedContainer)
    (segs : List SegmentCommand64) (region : ByteRange) : World :=
  (w.afterAlloc dylibDir region).afterMoves (segs.map (SegmentCommand64.move image region.start))

theorem view_data_getElem? {m : Mem} {i : Nat} (h : i < image.bytes.len) :
    (image.view m).data[i]? = some (m (image.bytes.start + i)) := by
  simp [MappedContainer.view, Mem.read, h]

theorem view_data_length (image : MappedContainer) (m : Mem) :
    (image.view m).data.length = image.bytes.len := Mem.length_read _ _ _

/-- A byte of a segment arrives as it is in the file, if no segment lands on the file. -/
theorem afterMapping_apply_of_kept (hfresh : ByteRange.Apart region image.bytes)
    (hkept : ∀ seg ∈ segs, ByteRange.Apart ⟨region.start + seg.vmaddr, seg.vmsize⟩ image.bytes)
    (hdisjoint : segs.Pairwise fun s t => ByteRange.Apart s.vmRange t.vmRange)
    {seg : SegmentCommand64} (hseg : seg ∈ segs) {i : Nat} (hi : i < seg.vmsize)
    (hfile : seg.fileoff + i < image.bytes.len) :
    (image.view w.mem).data[seg.fileoff + i]?
      = some ((w.afterMapping dylibDir image segs region).mem (region.start + seg.vmaddr + i)) := by
  have hsrc : image.bytes.start + seg.fileoff + i ∈ image.bytes :=
    ByteRange.mem_def.mpr ⟨by omega, by omega⟩
  have hmoves : (segs.map (SegmentCommand64.move image region.start)).Pairwise
      fun mv mv' => ByteRange.Apart mv.target mv'.target :=
    List.pairwise_map.mpr (hdisjoint.imp fun hst => hst.shift region.start)
  have hkeep : ∀ mv ∈ segs.map (SegmentCommand64.move image region.start),
      ByteRange.Apart mv.target image.bytes := by
    intro mv hmv
    obtain ⟨s, hs, rfl⟩ := List.mem_map.mp hmv
    exact hkept s hs
  have harrive := Mem.copyAll_apply (m := (w.afterAlloc dylibDir region).mem) hmoves hkeep
    (List.mem_map.mpr ⟨seg, hseg, rfl⟩) (i := i) hi hsrc
  -- the zeroed region is apart from the image
  have hzero : (w.afterAlloc dylibDir region).mem (image.bytes.start + seg.fileoff + i)
      = w.mem (image.bytes.start + seg.fileoff + i) :=
    Mem.zero_of_notMem fun hbad => hfresh _ hbad hsrc
  rw [view_data_getElem? hfile]
  exact congrArg some ((congrArg w.mem (Nat.add_assoc _ _ _).symm).trans
    (hzero.symm.trans harrive.symm))

/-- **A byte of a segment arrives in the region as it is in the file.** -/
theorem afterMapping_apply (hfresh : ByteRange.Apart region image.bytes)
    (hin : ∀ seg ∈ segs, ByteRange.Within ⟨region.start + seg.vmaddr, seg.vmsize⟩ region)
    (hdisjoint : segs.Pairwise fun s t => ByteRange.Apart s.vmRange t.vmRange)
    {seg : SegmentCommand64} (hseg : seg ∈ segs) {i : Nat} (hi : i < seg.vmsize)
    (hfile : seg.fileoff + i < image.bytes.len) :
    (image.view w.mem).data[seg.fileoff + i]?
      = some ((w.afterMapping dylibDir image segs region).mem (region.start + seg.vmaddr + i)) :=
  afterMapping_apply_of_kept hfresh
    (fun s hs => hfresh.mono (hin s hs) (ByteRange.Within.refl _)) hdisjoint hseg hi hfile

/-- The copies that were noted are those of the segments. -/
theorem copied_mem_iff {src dst count : Nat} :
    Event.copied src dst count
        ∈ (w.afterMapping dylibDir image segs region).trace.drop w.trace.length ↔
      ∃ seg ∈ segs, src = image.bytes.start + seg.fileoff ∧ dst = region.start + seg.vmaddr ∧
        count = seg.vmsize := by
  have htrace : (w.afterMapping dylibDir image segs region).trace.drop w.trace.length
      = .mapped dylibDir region
        :: segs.map fun seg => moveEvent (seg.move image region.start) := by
    simp [World.afterMapping, World.afterMoves, World.afterAlloc, Function.comp_def]
  rw [htrace]
  simp [moveEvent, SegmentCommand64.move, SegmentCommand64.toSegment, Segment.move, eq_comm]

end

/-- What the loader has done once the segments of a parsed image are mapped. -/
theorem machoSegmentsMapToVm_parsed {host : Host} {w w' : World}
    {dylibDir : Option (List UInt8)} {image : MappedContainer} {parsedImage : ParsedImage}
    {commands : List (LoadCommandVariants × Nat)} {vm vmSize : Nat}
    (hfresh : host.FreshRegions) (hlive : image.bytes ∈ w.regions)
    (hparse : (image.view w.mem).machoParser = .ok parsedImage)
    (hcommands : (image.view w.mem).loadCommands = some commands)
    (hok : machoSegmentsMapToVm host dylibDir image parsedImage.segments.items w
      = (.ok (vm, vmSize), w')) :
    vmSize = regionSize ((image.view w.mem).segmentCommandsOf commands) ∧
      ByteRange.Apart ⟨vm, vmSize⟩ image.bytes ∧
      w' = w.afterMapping dylibDir image
        (mappedCommands dylibDir.isNone ((image.view w.mem).segmentCommandsOf commands))
        ⟨vm, vmSize⟩ := by
  obtain ⟨commands', hcommands', hsegments, -⟩ := Container.machoParser_tables hparse
  obtain rfl : commands = commands' := Option.some.inj (hcommands.symm.trans hcommands')
  rw [hsegments] at hok
  obtain ⟨hsize, halloc, hw'⟩ := machoSegmentsMapToVm_run hok
  exact ⟨hsize, hfresh w vmSize vm halloc _ hlive, hw'⟩

/-! ## When the mapping is right -/

/-- **The mapping is right exactly if every segment can be mapped by copying `vmsize` bytes**: it
lies in the region, the file has that many bytes from `fileoff` on, and those past `filesize`
happen to be zero. -/
theorem machoSegmentsMapToVm_maps_iff {host : Host} {w w' : World}
    {dylibDir : Option (List UInt8)} {image : MappedContainer} {parsedImage : ParsedImage}
    {commands : List (LoadCommandVariants × Nat)} {vm vmSize : Nat}
    (hfresh : host.FreshRegions) (hlive : image.bytes ∈ w.regions)
    (hparse : (image.view w.mem).machoParser = .ok parsedImage)
    (hcommands : (image.view w.mem).loadCommands = some commands)
    (hsizes : ∀ seg ∈ mappedCommands dylibDir.isNone
      ((image.view w.mem).segmentCommandsOf commands), seg.filesize ≤ seg.vmsize)
    (hdisjoint : (mappedCommands dylibDir.isNone
      ((image.view w.mem).segmentCommandsOf commands)).Pairwise
        fun s t => ByteRange.Apart s.vmRange t.vmRange)
    (hok : machoSegmentsMapToVm host dylibDir image parsedImage.segments.items w
      = (.ok (vm, vmSize), w')) :
    MapsSegments image
        (mappedCommands dylibDir.isNone ((image.view w.mem).segmentCommandsOf commands))
        ⟨vm, vmSize⟩ w w' ↔
      ∀ seg ∈ mappedCommands dylibDir.isNone ((image.view w.mem).segmentCommandsOf commands),
        seg.Copyable (image.view w.mem)
          (regionSize ((image.view w.mem).segmentCommandsOf commands)) := by
  obtain ⟨hsize, hapart, hw'⟩ := machoSegmentsMapToVm_parsed hfresh hlive hparse hcommands hok
  have hlength := view_data_length image w.mem
  generalize mappedCommands dylibDir.isNone ((image.view w.mem).segmentCommandsOf commands)
    = segs at hsizes hdisjoint hw' ⊢
  rw [hw', ← hsize]
  constructor
  · rintro ⟨hmapped, hreads⟩ seg hseg
    have hin : ByteRange.Within ⟨seg.fileoff, seg.vmsize⟩ ⟨0, image.bytes.len⟩ :=
      ByteRange.within_shift.mp (hreads _ _ _ (copied_mem_iff.mpr ⟨seg, hseg, rfl, rfl, rfl⟩))
    refine ⟨ByteRange.within_shift.mp (hmapped seg hseg).inRegion, hlength ▸ hin, ?_⟩
    intro i hfile hi
    have hfit := ByteRange.mem_mk.mp (hin (seg.fileoff + i)
      (ByteRange.mem_mk.mpr ⟨by omega, by omega⟩))
    -- what is in the segment's place is what the file has there
    have harrives : (image.view w.mem).data[seg.fileoff + i]?
        = some ((w.afterMapping dylibDir image segs ⟨vm, vmSize⟩).mem (vm + seg.vmaddr + i)) :=
      afterMapping_apply hapart (fun s hs => (hmapped s hs).inRegion) hdisjoint hseg hi
        (by simpa using hfit.2)
    rw [harrives]
    exact congrArg some ((hmapped seg hseg).zeroTail i hfile hi)
  · intro hcopy
    have hin : ∀ seg ∈ segs, ByteRange.Within ⟨vm + seg.vmaddr, seg.vmsize⟩ ⟨vm, vmSize⟩ :=
      fun seg hseg => ByteRange.within_shift.mpr (hcopy seg hseg).inRegion
    have harrive : ∀ seg ∈ segs, ∀ i < seg.vmsize, (image.view w.mem).data[seg.fileoff + i]?
        = some ((w.afterMapping dylibDir image segs ⟨vm, vmSize⟩).mem (vm + seg.vmaddr + i)) := by
      intro seg hseg i hi
      have hfit := ByteRange.mem_mk.mp ((hcopy seg hseg).inFile (seg.fileoff + i)
        (ByteRange.mem_mk.mpr ⟨by omega, by omega⟩))
      exact afterMapping_apply hapart hin hdisjoint hseg hi
        (by rw [hlength] at hfit; simpa using hfit.2)
    refine ⟨fun seg hseg => ⟨hin seg hseg, ?_, ?_⟩, ?_⟩
    · exact fun i hi => harrive seg hseg i (Nat.lt_of_lt_of_le hi (hsizes seg hseg))
    · -- `vmsize` bytes are copied, so the tail is zero only where the file is
      intro i hfile hi
      have hzero := (hcopy seg hseg).zeroBytes i hfile hi
      rw [harrive seg hseg i hi] at hzero
      exact Option.some.inj hzero
    · intro src dst count hevent
      obtain ⟨seg, hseg, rfl, -, rfl⟩ := copied_mem_iff.mp hevent
      have hfile := (hcopy seg hseg).inFile
      rw [hlength] at hfile
      exact ByteRange.within_shift.mpr hfile

/-! ## An image with a tail

The only segment has eight bytes in the file, and eight more that are to be zero. The
file goes on with other bytes. -/

def sampleTail : List UInt8 :=
  sampleMachO 6 1 (Bytes.encodeFields .little [(4, 0x19), (4, 72)]
    ++ ascii "__DATA" ++ List.replicate 10 0
    ++ Bytes.encodeFields .little
      [(8, 0), (8, 16), (8, 104), (8, 8), (4, 3), (4, 3), (4, 0), (4, 0)]
    ++ List.replicate 8 1 ++ List.replicate 8 0xff)

theorem sampleHost_fresh (files : List UInt8 → Option (List UInt8)) :
    (sampleHost files).FreshRegions := by
  intro w size address h r hr
  have he := Option.some.inj h
  have hle : r.start + r.len ≤ address := by
    rw [← he]
    exact le_foldr_max (List.mem_map.mpr ⟨r, hr, rfl⟩)
  exact (ByteRange.apart_of_le hle).symm

def sampleTailImage : MappedContainer := ⟨⟨0x1000, 120⟩, .little⟩

def sampleTailParsed : ParsedImage :=
  { Container.parsedImageNew true with segments := ⟨[⟨104, 0, 16, 3⟩], by decide +kernel⟩ }

/-- Its segment commands. -/
def sampleTailCommands : List SegmentCommand64 :=
  (sampleTailImage.view (sampleWorld sampleTail).mem).segmentCommandsOf [(.lcSegment64, 32)]

/-- The world after the image is mapped. -/
def sampleTailMapped : World :=
  (machoSegmentsMapToVm (sampleHost fun _ => none) (some []) sampleTailImage
    sampleTailParsed.segments.items (sampleWorld sampleTail)).2

/-- What is read from the file. -/
theorem sampleTail_read :
    (sampleTailImage.view (sampleWorld sampleTail).mem).machoParser = .ok sampleTailParsed ∧
    (sampleTailImage.view (sampleWorld sampleTail).mem).loadCommands
      = some [(.lcSegment64, 32)] :=
  ⟨by decide +kernel, by decide +kernel⟩

theorem sampleTail_maps : machoSegmentsMapToVm (sampleHost fun _ => none) (some []) sampleTailImage
    sampleTailParsed.segments.items (sampleWorld sampleTail)
      = (.ok (0x1078, 16), sampleTailMapped) :=
  Exec.eq_of_fst (by decide +kernel)

/-- The segment is well-formed, the mapping returns, and the tail is not zero. -/
theorem sampleTail_not_mapped :
    (sampleHost fun _ => none).FreshRegions ∧
    sampleTailImage.bytes ∈ (sampleWorld sampleTail).regions ∧
    (sampleTailImage.view (sampleWorld sampleTail).mem).machoParser = .ok sampleTailParsed ∧
    (sampleTailImage.view (sampleWorld sampleTail).mem).loadCommands
      = some [(.lcSegment64, 32)] ∧
    (∀ seg ∈ mappedCommands false sampleTailCommands, seg.filesize ≤ seg.vmsize) ∧
    machoSegmentsMapToVm (sampleHost fun _ => none) (some []) sampleTailImage
      sampleTailParsed.segments.items (sampleWorld sampleTail)
        = (.ok (0x1078, 16), sampleTailMapped) ∧
    ¬ MapsSegments sampleTailImage (mappedCommands false sampleTailCommands) ⟨0x1078, 16⟩
      (sampleWorld sampleTail) sampleTailMapped := by
  refine ⟨sampleHost_fresh _, by decide +kernel, sampleTail_read.1, sampleTail_read.2,
    by decide +kernel, sampleTail_maps, ?_⟩
  rintro ⟨hmapped, -⟩
  obtain ⟨seg, hseg, hfilesize, hvmsize, hvmaddr⟩ :
      ∃ seg ∈ mappedCommands false sampleTailCommands,
        seg.filesize = 8 ∧ seg.vmsize = 16 ∧ seg.vmaddr = 0 := by decide +kernel
  have hzero := (hmapped seg hseg).zeroTail 8 (by omega) (by omega)
  rw [hvmaddr] at hzero
  exact absurd hzero (by decide +kernel)

theorem sampleTail_maps_iff :
    MapsSegments sampleTailImage (mappedCommands false sampleTailCommands) ⟨0x1078, 16⟩
        (sampleWorld sampleTail) sampleTailMapped ↔
      ∀ seg ∈ mappedCommands false sampleTailCommands,
        seg.Copyable (sampleTailImage.view (sampleWorld sampleTail).mem)
          (regionSize sampleTailCommands) := by
  have hlive : sampleTailImage.bytes ∈ (sampleWorld sampleTail).regions := by decide +kernel
  have hsizes : ∀ seg ∈ mappedCommands false sampleTailCommands, seg.filesize ≤ seg.vmsize := by
    decide +kernel
  have hdisjoint : (mappedCommands false sampleTailCommands).Pairwise
      fun s t => ByteRange.Apart s.vmRange t.vmRange := by decide +kernel
  exact @machoSegmentsMapToVm_maps_iff _ _ _ (some []) _ _ _ _ _ (sampleHost_fresh _) hlive
    sampleTail_read.1 sampleTail_read.2 hsizes hdisjoint sampleTail_maps

end Dynld
