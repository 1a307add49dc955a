import Dynld.Proof.SegmentMapping

/-!
# Which copies stay in the region

The region of an image reaches from the lowest address its segments ask for to the
highest, so its size is the distance between the two. Each segment is copied to its
own address counted from the start of the region, and the lowest address is not taken
off again. With a lowest address above zero the last segment ends that much past the
region.

The bounds themselves are a fold that starts with the empty range backwards, which is
what is left when there is no segment.
-/

namespace Dynld

/-! ## The property and the condition -/

/-- The bounds of the region are computed, and every byte that is copied goes into it. -/
structure WritesInRegion (c : Container) (parsedImage : ParsedImage)
    (dylibDir : Option (List UInt8)) : Prop where
  bounds : ∃ minAddr maxAddr vmSize,
    segmentsBounds parsedImage.segments.items (2 ^ 64 - 1, 0) = .ok (minAddr, maxAddr) ∧
      Outcome.sub maxAddr minAddr = .ok vmSize
  writes : ∀ (host : Host) (image : MappedContainer) (w w' : World) (vm vmSize : Nat),
    image.view w.mem = c →
    machoSegmentsMapToVm host dylibDir image parsedImage.segments.items w
      = (.ok (vm, vmSize), w') →
    ∀ src dst count, .copied src dst count ∈ w'.trace.drop w.trace.length →
      ∀ a ∈ (⟨dst, count⟩ : ByteRange), a ∈ (⟨vm, vmSize⟩ : ByteRange)

/-- There is a segment, all end below the last address, and those that are copied end within the
distance from the lowest address to the highest. -/
structure SegmentsInRegion (segs : List SegmentCommand64) (skipPageZero : Bool) : Prop where
  nonempty : segs ≠ []
  ends : ∀ seg ∈ segs, seg.vmaddr + seg.vmsize < 2 ^ 64
  copied : ∀ seg ∈ mappedCommands skipPageZero segs, 0 < seg.vmsize →
    seg.vmaddr + seg.vmsize ≤ regionSize segs

/-! ## The bounds -/

theorem segmentsBounds_returns_iff : ∀ {segs : List SegmentCommand64} {lo hi : Nat},
    (∃ bounds, segmentsBounds (segs.map SegmentCommand64.toSegment) (lo, hi) = .ok bounds)
      ↔ ∀ seg ∈ segs, seg.vmaddr + seg.vmsize < 2 ^ 64 := by
  intro segs
  induction segs with
  | nil =>
    intro lo hi
    exact ⟨fun _ _ h => absurd h List.not_mem_nil, fun _ => ⟨(lo, hi), rfl⟩⟩
  | cons seg rest ih =>
    intro lo hi
    rw [List.map_cons, segmentsBounds]
    by_cases hfit : seg.vmaddr + seg.vmsize < 2 ^ 64
    · have hadd : Outcome.add 64 seg.toSegment.vmAddr seg.toSegment.vmSize
          = .ok (seg.vmaddr + seg.vmsize) := Outcome.add_of_lt hfit
      rw [hadd, Outcome.ok_bind, ih, List.forall_mem_cons]
      exact ⟨fun h => ⟨hfit, h⟩, fun h => h.2⟩
    · have hadd : Outcome.add 64 seg.toSegment.vmAddr seg.toSegment.vmSize
          = .panic "attempt to add with overflow" := if_neg hfit
      rw [hadd, Outcome.panic_bind]
      constructor
      · rintro ⟨bounds, h⟩
        exact absurd h (by simp)
      · intro h
        exact absurd (h seg List.mem_cons_self) hfit

/-- The lowest address is below the highest as soon as there is a segment. -/
theorem segmentsBounds_le_iff {segs : List SegmentCommand64} {lo hi : Nat}
    (h : segmentsBounds (segs.map SegmentCommand64.toSegment) (2 ^ 64 - 1, 0) = .ok (lo, hi)) :
    lo ≤ hi ↔ segs ≠ [] := by
  obtain ⟨hlo, hhi⟩ := segmentsBounds_eq_ok (Nat.le_refl _) h
  constructor
  · rintro hle rfl
    obtain ⟨rfl, rfl⟩ := Prod.mk.inj (Outcome.ok.inj h)
    exact absurd hle (by decide)
  · intro hne
    obtain ⟨seg, hseg⟩ := List.exists_mem_of_ne_nil segs hne
    have hmin : lo ≤ seg.vmaddr := by
      rw [hlo]
      exact Nat.le_trans (Nat.min_le_right _ _) (foldr_min_le (List.mem_map.mpr ⟨seg, hseg, rfl⟩))
    have hmax : seg.vmaddr + seg.vmsize ≤ hi := by
      rw [hhi]
      exact Nat.le_trans (le_foldr_max (List.mem_map.mpr ⟨seg, hseg, rfl⟩)) (Nat.le_max_right _ _)
    omega

/-- Once the bounds are there, the segments are mapped wherever the kernel finds room. -/
theorem machoSegmentsMapToVm_of_bounds (host : Host) (w : World) (dylibDir : Option (List UInt8))
    (image : MappedContainer) {segs : List SegmentCommand64} {minAddr maxAddr vm : Nat}
    (hbounds : segmentsBounds (segs.map SegmentCommand64.toSegment) (2 ^ 64 - 1, 0)
      = .ok (minAddr, maxAddr)) (hle : minAddr ≤ maxAddr)
    (halloc : host.vmAllocate w (maxAddr - minAddr) = some vm) (hvm : vm ≠ 0) :
    machoSegmentsMapToVm host dylibDir image (segs.map SegmentCommand64.toSegment) w
      = (.ok (vm, maxAddr - minAddr),
          w.afterMapping dylibDir image (mappedCommands dylibDir.isNone segs)
            ⟨vm, maxAddr - minAddr⟩) := by
  have hsub : Outcome.sub maxAddr minAddr = .ok (maxAddr - minAddr) := Outcome.sub_of_le hle
  have hregion : vmAllocTaskSelf host dylibDir (maxAddr - minAddr) w
      = (.ok vm, w.afterAlloc dylibDir ⟨vm, maxAddr - minAddr⟩) := by
    refine Exec.bind_eq_ok.mpr
      ⟨vm, w, Exec.lift_eq_ok.mpr ⟨Outcome.okOr_eq_ok.mpr halloc, rfl⟩, ?_⟩
    rw [if_neg hvm]
    rfl
  refine Exec.bind_eq_ok.mpr ⟨(minAddr, maxAddr), w, Exec.liftM_eq_ok.mpr ⟨hbounds, rfl⟩, ?_⟩
  refine Exec.bind_eq_ok.mpr ⟨maxAddr - minAddr, w, Exec.liftM_eq_ok.mpr ⟨hsub, rfl⟩, ?_⟩
  refine Exec.bind_eq_ok.mpr ⟨vm, _, hregion, ?_⟩
  refine Exec.bind_eq_ok.mpr ⟨(), _, segmentsCopy_run _ _ _ _ _, ?_⟩
  rw [mappedSegments_map, List.map_map]
  rfl

/-! ## When the copies stay in the region -/

theorem view_sampleWorld (c : Container) :
    MappedContainer.view ⟨⟨0x1000, c.data.length⟩, c.endian⟩ (sampleWorld c.data).mem = c := by
  unfold MappedContainer.view sampleWorld
  rw [Mem.read_write]

/-- **Which images are mapped inside their region**: those with a segment, no end past the last
address, and each copied segment ending within the size of the region, as if the lowest address
were zero. -/
theorem machoSegmentsMapToVm_inRegion_iff {c : Container} {parsedImage : ParsedImage}
    {commands : List (LoadCommandVariants × Nat)} (hparse : c.machoParser = .ok parsedImage)
    (hcommands : c.loadCommands = some commands) (dylibDir : Option (List UInt8)) :
    WritesInRegion c parsedImage dylibDir
      ↔ SegmentsInRegion (c.segmentCommandsOf commands) dylibDir.isNone := by
  obtain ⟨commands', hcommands', hsegments, -⟩ := Container.machoParser_tables hparse
  obtain rfl : commands = commands' := Option.some.inj (hcommands.symm.trans hcommands')
  generalize c.segmentCommandsOf commands = segs at hsegments ⊢
  constructor
  · intro h
    obtain ⟨minAddr, maxAddr, vmSize, hbounds, hsub⟩ := h.bounds
    rw [hsegments] at hbounds
    have hle := (Outcome.sub_eq_ok.mp hsub).1
    refine ⟨(segmentsBounds_le_iff hbounds).mp hle,
      segmentsBounds_returns_iff.mp ⟨_, hbounds⟩, fun seg hseg hpos => ?_⟩
    -- a kernel that finds room for any region, and the image in memory
    obtain ⟨vm, hrun⟩ : ∃ vm, machoSegmentsMapToVm (sampleHost fun _ => none) dylibDir
        ⟨⟨0x1000, c.data.length⟩, c.endian⟩ (segs.map SegmentCommand64.toSegment)
        (sampleWorld c.data)
          = (.ok (vm, maxAddr - minAddr),
              (sampleWorld c.data).afterMapping dylibDir ⟨⟨0x1000, c.data.length⟩, c.endian⟩
                (mappedCommands dylibDir.isNone segs) ⟨vm, maxAddr - minAddr⟩) :=
      ⟨_, machoSegmentsMapToVm_of_bounds _ _ _ _ hbounds hle rfl (foldr_max_ne_zero _)⟩
    rw [← hsegments] at hrun
    have hin := h.writes _ _ _ _ _ _ (view_sampleWorld c) hrun _ _ _
      (copied_mem_iff.mpr ⟨seg, hseg, rfl, rfl, rfl⟩)
    rw [← regionSize_eq hbounds]
    -- the last byte of the copy is enough: it is below the end of the region
    have hlast := hin (vm + seg.vmaddr + (seg.vmsize - 1))
      (ByteRange.mem_mk.mpr ⟨by dsimp only; omega, by dsimp only; omega⟩)
    obtain ⟨-, hlast⟩ := ByteRange.mem_mk.mp hlast
    omega
  · intro h
    obtain ⟨⟨minAddr, maxAddr⟩, hbounds⟩ := segmentsBounds_returns_iff.mpr h.ends
    have hle := (segmentsBounds_le_iff hbounds).mpr h.nonempty
    refine ⟨⟨minAddr, maxAddr, _, hsegments ▸ hbounds, Outcome.sub_of_le hle⟩, ?_⟩
    intro host image w w' vm vmSize _ hrun src dst count hevent a ha
    rw [hsegments] at hrun
    obtain ⟨hsize, -, rfl⟩ := machoSegmentsMapToVm_run hrun
    obtain ⟨seg, hseg, -, rfl, rfl⟩ := copied_mem_iff.mp hevent
    obtain ⟨hstart, hend⟩ := ByteRange.mem_mk.mp ha
    dsimp only at hstart hend
    have hfits := h.copied seg hseg (by omega)
    exact ByteRange.mem_mk.mpr ⟨by omega, by omega⟩

/-- The tail image has its only segment at address zero. -/
theorem sampleTail_inRegion :
    WritesInRegion (sampleTailImage.view (sampleWorld sampleTail).mem) sampleTailParsed
      (some []) := by
  refine (machoSegmentsMapToVm_inRegion_iff sampleTail_read.1 sampleTail_read.2 (some [])).mpr ?_
  have hsegs : (sampleTailImage.view (sampleWorld sampleTail).mem).segmentCommandsOf
      [(.lcSegment64, 32)] = sampleTailCommands := rfl
  rw [hsegs]
  exact ⟨by decide +kernel, by decide +kernel, by decide +kernel⟩

/-! ## A segment above zero

The only segment asks for eight bytes at address 16. The region has eight bytes, and the
copy goes to the eight bytes after the next eight. -/

def sampleAbove : Container where
  data := sampleMachO 6 1 (Bytes.encodeFields .little [(4, 0x19), (4, 72)]
    ++ ascii "__DATA" ++ List.replicate 10 0
    ++ Bytes.encodeFields .little
      [(8, 16), (8, 8), (8, 104), (8, 8), (4, 3), (4, 3), (4, 0), (4, 0)]
    ++ List.replicate 8 1)
  endian := .little

def sampleAboveParsed : ParsedImage :=
  { Container.parsedImageNew true with segments := ⟨[⟨104, 16, 8, 3⟩], by decide⟩ }

def sampleAboveImage : MappedContainer := ⟨⟨0x1000, sampleAbove.data.length⟩, sampleAbove.endian⟩

/-- The world after the image is mapped. -/
def sampleAboveMapped : World :=
  (machoSegmentsMapToVm (sampleHost fun _ => none) (some []) sampleAboveImage
    sampleAboveParsed.segments.items (sampleWorld sampleAbove.data)).2

theorem sampleAbove_maps : machoSegmentsMapToVm (sampleHost fun _ => none) (some [])
    sampleAboveImage sampleAboveParsed.segments.items (sampleWorld sampleAbove.data)
      = (.ok (0x1070, 8), sampleAboveMapped) := Exec.eq_of_fst (by decide +kernel)

theorem sampleAbove_writesPast : ¬ ∀ (c : Container) (parsedImage : ParsedImage)
    (dylibDir : Option (List UInt8)), c.machoParser = .ok parsedImage →
      WritesInRegion c parsedImage dylibDir := by
  intro h
  have hwrites := (h sampleAbove sampleAboveParsed (some []) (by decide +kernel)).writes
  have hevent : Event.copied 0x1068 0x1080 8
      ∈ sampleAboveMapped.trace.drop (sampleWorld sampleAbove.data).trace.length := by
    decide +kernel
  have hin := hwrites _ _ _ _ _ _ (view_sampleWorld sampleAbove) sampleAbove_maps _ _ _ hevent
    0x1080 (ByteRange.mem_mk.mpr ⟨by decide, by decide⟩)
  exact absurd (ByteRange.mem_mk.mp hin).2 (by decide)

end Dynld
