import Dynld.Proof.SegmentMapping

/-!
# File positions and memory positions

`segment_offset` is where a segment starts in memory. The parser of chained fixups reads
the words of the segment's chains at that offset of the *file*, and the loader
overwrites them at that offset of the *region*. These are the same words only where
the segment that is mapped there is as far into the region as into the file.

A word is followed from the file to the region by the copies that the loader made:
`fixupWords_inPlace_iff` says for which layouts each fixup overwrites the word it was
parsed from.
-/

namespace Dynld

/-! ## Where a fixup was parsed -/

namespace Container

/-- The fixup is what the word at this position of the file is parsed as. -/
def DecodedAt (c : Container) (fixup : Fixup) (position : Nat) : Prop :=
  ∃ importsFormat importsOffset symbolsOffset pointerFormat next,
    c.chainStep importsFormat importsOffset symbolsOffset pointerFormat position
      = .ok (next, fixup)

section

variable {c : Container} {importsFormat : DyldChainedImportFormatVariants}
  {importsOffset symbolsOffset value offset next : Nat} {fixup : Fixup}

theorem bindParse_offset {ordinal distance addend : Nat} {isAuth : Bool}
    (h : c.bindParse offset importsFormat importsOffset symbolsOffset ordinal distance addend isAuth
      = .ok (next, fixup)) : fixup.offset = offset := by
  obtain ⟨⟨libOrdinal, symbolName⟩, -, h⟩ := Outcome.bind_eq_ok.mp h
  rw [← (Prod.mk.inj (Outcome.ok.inj h)).2]

theorem fixup64ParseOne_offset
    (h : c.fixup64ParseOne value offset importsFormat importsOffset symbolsOffset
      = .ok (next, fixup)) : fixup.offset = offset := by
  unfold fixup64ParseOne at h
  dsimp only at h
  split at h
  · exact bindParse_offset h
  · rw [← (Prod.mk.inj (Outcome.ok.inj h)).2]

theorem fixupArm64eParseOne_offset
    (h : c.fixupArm64eParseOne value offset importsFormat importsOffset symbolsOffset
      = .ok (next, fixup)) : fixup.offset = offset := by
  unfold fixupArm64eParseOne at h
  dsimp only at h
  split at h
  · split at h
    · exact bindParse_offset h
    · exact bindParse_offset h
  · split at h
    · rw [← (Prod.mk.inj (Outcome.ok.inj h)).2]
    · rw [← (Prod.mk.inj (Outcome.ok.inj h)).2]

/-- Whatever the format, the offset of a fixup is that of its word. -/
theorem fixupParseOne_offset {pointerFormat : DyldChainedPtrFormatVariants}
    (h : c.fixupParseOne value offset importsFormat importsOffset symbolsOffset pointerFormat
      = .ok (next, fixup)) : fixup.offset = offset := by
  unfold fixupParseOne at h
  split at h
  · exact fixup64ParseOne_offset h
  · exact fixup64ParseOne_offset h
  · exact fixupArm64eParseOne_offset h
  · exact fixupArm64eParseOne_offset h
  · unfold fixupArm64eUserland24ParseOne at h
    dsimp only at h
    split at h
    · split at h
      · exact bindParse_offset h
      · exact bindParse_offset h
    · exact fixupArm64eParseOne_offset h
  · simp at h

theorem DecodedAt.offset_eq {position : Nat} (h : c.DecodedAt fixup position) :
    fixup.offset = position ∧ position + 8 ≤ c.data.length := by
  obtain ⟨_, _, _, _, _, hstep⟩ := h
  obtain ⟨fixupValue, hread, hparse⟩ := Outcome.bind_eq_ok.mp hstep
  exact ⟨fixupParseOne_offset hparse, (Bytes.wordAt_bound (Outcome.okOr_eq_ok.mp hread)).1⟩

theorem chainLoop_decoded {pointerFormat : DyldChainedPtrFormatVariants} :
    ∀ {fuel chainOffset : Nat} {fixups : List Fixup},
      (c.chainLoop importsFormat importsOffset symbolsOffset pointerFormat fuel chainOffset).2
        = .ok fixups → ∀ fixup ∈ fixups, ∃ position, c.DecodedAt fixup position := by
  intro fuel
  induction fuel with
  | zero =>
    intro _ _ h
    exact absurd h (by simp [chainLoop])
  | succ fuel ih =>
    intro chainOffset fixups h
    unfold chainLoop at h
    split at h
    · rename_i nextOffset first hstep
      have hfirst : c.DecodedAt first chainOffset := ⟨_, _, _, _, _, hstep⟩
      split at h
      · obtain rfl := Outcome.ok.inj h
        intro fixup hmem
        rw [List.mem_singleton.mp hmem]
        exact ⟨_, hfirst⟩
      · obtain ⟨rest, hrest, h⟩ := Outcome.bind_eq_ok.mp h
        obtain rfl := Outcome.ok.inj h
        intro fixup hmem
        rcases List.mem_cons.mp hmem with rfl | hmem
        · exact ⟨_, hfirst⟩
        · exact ih hrest fixup hmem
    · exact absurd h (by simp)
    · exact absurd h (by simp)
    · exact absurd h (by simp)

theorem pagesParse_decoded {starts : DyldChainedStartsInSegment} {segStartsOffset : Nat} :
    ∀ {n pageIndex : Nat} {fixups : List Fixup},
      c.pagesParse importsFormat importsOffset symbolsOffset starts segStartsOffset n pageIndex
        = .ok fixups → ∀ fixup ∈ fixups, ∃ position, c.DecodedAt fixup position := by
  intro n
  induction n with
  | zero =>
    intro _ fixups h
    obtain rfl := Outcome.ok.inj h
    exact fun fixup hmem => absurd hmem (List.not_mem_nil)
  | succ n ih =>
    intro pageIndex fixups h
    obtain ⟨page, hpage, h⟩ := Outcome.bind_eq_ok.mp h
    obtain ⟨rest, hrest, h⟩ := Outcome.bind_eq_ok.mp h
    obtain rfl := Outcome.ok.inj h
    intro fixup hmem
    rcases List.mem_append.mp hmem with hmem | hmem
    · unfold pageParse at hpage
      dsimp only at hpage
      split at hpage
      · exact chainLoop_decoded hpage fixup hmem
      · exact absurd hpage (by simp)
      · exact absurd hpage (by simp)
      · exact absurd hpage (by simp)
    · exact ih hrest fixup hmem

theorem segmentsParse_decoded {startsOffset : Nat} :
    ∀ {n segOffsetIndex : Nat} {fixups : List Fixup},
      c.segmentsParse importsFormat importsOffset symbolsOffset startsOffset n segOffsetIndex
        = .ok fixups → ∀ fixup ∈ fixups, ∃ position, c.DecodedAt fixup position := by
  intro n
  induction n with
  | zero =>
    intro _ fixups h
    obtain rfl := Outcome.ok.inj h
    exact fun fixup hmem => absurd hmem (List.not_mem_nil)
  | succ n ih =>
    intro segOffsetIndex fixups h
    obtain ⟨segOffset, -, h⟩ := Outcome.bind_eq_ok.mp h
    split at h
    · exact ih h
    · obtain ⟨segStartsOffset, -, h⟩ := Outcome.bind_eq_ok.mp h
      obtain ⟨starts, -, h⟩ := Outcome.bind_eq_ok.mp h
      obtain ⟨pages, hpages, h⟩ := Outcome.bind_eq_ok.mp h
      obtain ⟨rest, hrest, h⟩ := Outcome.bind_eq_ok.mp h
      obtain rfl := Outcome.ok.inj h
      intro fixup hmem
      rcases List.mem_append.mp hmem with hmem | hmem
      · exact pagesParse_decoded hpages fixup hmem
      · exact ih hrest fixup hmem

end

/-- **Every fixup was parsed from the word at its offset in the file.** -/
theorem chainedFixupsParseAll_decoded {c : Container} {fixups : List Fixup}
    (h : c.chainedFixupsParseAll = .ok fixups) :
    ∀ fixup ∈ fixups, c.DecodedAt fixup fixup.offset := by
  intro fixup hmem
  obtain ⟨found, -, h⟩ := Outcome.bind_eq_ok.mp h
  cases found with
  | none =>
      obtain rfl := Outcome.ok.inj h
      exact absurd hmem (List.not_mem_nil)
  | some tables =>
      obtain ⟨position, hdecoded⟩ := segmentsParse_decoded h fixup hmem
      rwa [hdecoded.offset_eq.1]

end Container

/-! ## Where its word is copied to -/

/-- A copy brought the byte at this position of the file to this address. -/
def CopiedTo (image : MappedContainer) (events : List Event) (position address : Nat) : Prop :=
  ∃ src dst count, .copied src dst count ∈ events ∧
    address ∈ (⟨dst, count⟩ : ByteRange) ∧
    src + (address - dst) = image.bytes.start + position

/-- On the way from `w` to `w'`, the word at this position of the file was copied to this address,
and there it still is. -/
def WordCopiedTo (image : MappedContainer) (w w' : World) (position address : Nat) : Prop :=
  ∀ k < 8, CopiedTo image (w'.trace.drop w.trace.length) (position + k) (address + k) ∧
    (image.view w.mem).data[position + k]? = some (w'.mem (address + k))

/-- The segment that has the byte `base + position` of the region is `base` further into the region
than into the file. -/
def InPlace (segs : List SegmentCommand64) (base position : Nat) : Prop :=
  ∃ seg ∈ segs, base + position ∈ seg.vmRange ∧ seg.vmaddr = base + seg.fileoff

section

variable {w : World} {image : MappedContainer} {dylibDir : Option (List UInt8)}
  {segs : List SegmentCommand64} {region : ByteRange}

/-- A byte is copied to the place with its own offset exactly by a segment that is in place. -/
theorem copiedTo_iff {base position : Nat} :
    CopiedTo image ((w.afterMapping dylibDir image segs region).trace.drop w.trace.length) position
        (region.start + base + position) ↔
      InPlace segs base position := by
  constructor
  · rintro ⟨src, dst, count, hevent, hin, hsum⟩
    obtain ⟨seg, hseg, rfl, rfl, rfl⟩ := copied_mem_iff.mp hevent
    have hin := ByteRange.mem_mk.mp hin
    exact ⟨seg, hseg, ByteRange.mem_mk.mpr ⟨by omega, by omega⟩, by omega⟩
  · rintro ⟨seg, hseg, hin, hplace⟩
    have hin := ByteRange.mem_mk.mp hin
    exact ⟨_, _, _, copied_mem_iff.mpr ⟨seg, hseg, rfl, rfl, rfl⟩,
      ByteRange.mem_mk.mpr ⟨by omega, by omega⟩, by omega⟩

/-- What is in place can be read there. -/
theorem InPlace.apply {base position : Nat} (h : InPlace segs base position)
    (hfresh : ByteRange.Apart region image.bytes)
    (hkept : ∀ seg ∈ segs, ByteRange.Apart ⟨region.start + seg.vmaddr, seg.vmsize⟩ image.bytes)
    (hdisjoint : segs.Pairwise fun s t => ByteRange.Apart s.vmRange t.vmRange)
    (hfile : position < image.bytes.len) :
    (image.view w.mem).data[position]? = some
      ((w.afterMapping dylibDir image segs region).mem (region.start + base + position)) := by
  obtain ⟨seg, hseg, hin, hplace⟩ := h
  have hin := ByteRange.mem_mk.mp hin
  have harrive : (image.view w.mem).data[seg.fileoff + (position - seg.fileoff)]?
      = some ((w.afterMapping dylibDir image segs region).mem
        (region.start + seg.vmaddr + (position - seg.fileoff))) :=
    afterMapping_apply_of_kept hfresh hkept hdisjoint hseg (by omega) (by omega)
  rwa [show seg.fileoff + (position - seg.fileoff) = position by omega,
    show region.start + seg.vmaddr + (position - seg.fileoff) = region.start + base + position by
      omega] at harrive

end

/-! ## When parser and loader agree -/

/-- **A fixup overwrites the word it was parsed from exactly if that word is mapped in place**: each
of its bytes is in a segment whose vm address is its file offset plus the base of the image. -/
theorem fixupWords_inPlace_iff {host : Host} {w w' : World} {dylibDir : Option (List UInt8)}
    {image : MappedContainer} {parsedImage : ParsedImage}
    {commands : List (LoadCommandVariants × Nat)} {fixups : List Fixup} {vm vmSize : Nat}
    (hfresh : host.FreshRegions) (hlive : image.bytes ∈ w.regions)
    (hparse : (image.view w.mem).machoParser = .ok parsedImage)
    (hcommands : (image.view w.mem).loadCommands = some commands)
    (hfixups : (image.view w.mem).chainedFixupsParseAll = .ok fixups)
    (hdisjoint : (mappedCommands dylibDir.isNone
      ((image.view w.mem).segmentCommandsOf commands)).Pairwise
        fun s t => ByteRange.Apart s.vmRange t.vmRange)
    (hok : machoSegmentsMapToVm host dylibDir image parsedImage.segments.items w
      = (.ok (vm, vmSize), w'))
    (hkept : ∀ seg ∈ mappedCommands dylibDir.isNone
      ((image.view w.mem).segmentCommandsOf commands),
        ByteRange.Apart ⟨vm + seg.vmaddr, seg.vmsize⟩ image.bytes) :
    (∀ fixup ∈ fixups, ∃ position, (image.view w.mem).DecodedAt fixup position ∧
      WordCopiedTo image w w' position (vm + imageBase dylibDir + fixup.offset)) ↔
    ∀ fixup ∈ fixups, ∀ k < 8,
      InPlace (mappedCommands dylibDir.isNone ((image.view w.mem).segmentCommandsOf commands))
        (imageBase dylibDir) (fixup.offset + k) := by
  obtain ⟨-, hapart, hw'⟩ := machoSegmentsMapToVm_parsed hfresh hlive hparse hcommands hok
  have hdecoded := Container.chainedFixupsParseAll_decoded hfixups
  generalize mappedCommands dylibDir.isNone ((image.view w.mem).segmentCommandsOf commands)
    = segs at hdisjoint hw' hkept ⊢
  rw [hw']
  constructor
  · intro h fixup hmem k hk
    obtain ⟨position, hposition, hword⟩ := h fixup hmem
    -- the offset of a fixup is the file position it was decoded at
    obtain rfl := hposition.offset_eq.1
    have hcopied := (hword k hk).1
    rw [Nat.add_assoc (vm + imageBase dylibDir)] at hcopied
    exact copiedTo_iff.mp hcopied
  · intro h fixup hmem
    refine ⟨fixup.offset, hdecoded fixup hmem, fun k hk => ?_⟩
    have hlength := (hdecoded fixup hmem).offset_eq.2
    rw [view_data_length] at hlength
    have hplace := h fixup hmem k hk
    rw [Nat.add_assoc (vm + imageBase dylibDir)]
    exact ⟨copiedTo_iff.mpr hplace, hplace.apply hapart hkept hdisjoint (by omega)⟩

/-! ## Zero-fill between two segments

A dylib of three segments. The second has nothing in the file, so the third is eight
bytes further into the region than into the file. -/

def sampleSegment (name : String) (vmaddr vmsize fileoff filesize : Nat) : List UInt8 :=
  Bytes.encodeFields .little [(4, 0x19), (4, 72)] ++ ascii name
    ++ List.replicate (16 - name.length) 0
    ++ Bytes.encodeFields .little
      [(8, vmaddr), (8, vmsize), (8, fileoff), (8, filesize), (4, 3), (4, 3), (4, 0), (4, 0)]

/-- The three segments: `n` bytes, eight of zero-fill, and sixteen from `n` of the file on. -/
def sampleShifted (last : String) (n : Nat) (rest : List UInt8) : List UInt8 :=
  sampleMachO 6 4 (sampleSegment "__TEXT" 0 n 0 n ++ sampleSegment "__BSS" n 8 0 0
    ++ sampleSegment last (n + 8) 16 n 16 ++ rest)

/-- One chain, at the start of the third segment. Its only word is a rebase to offset 16; a word of
zeros follows. -/
def sampleShiftedFixups : List UInt8 :=
  sampleShifted "__DATA" 336 (Bytes.encodeFields .little
    [(4, 0x80000034), (4, 16), (4, 264), (4, 68),
     (4, 0), (4, 28), (4, 68), (4, 68), (4, 0), (4, 1), (4, 0),
     (4, 3), (4, 0), (4, 0), (4, 16),
     (4, 24), (2, 0x1000), (2, 6), (8, 344), (4, 0), (2, 1), (2, 0), (4, 0),
     (8, 16), (8, 0)])

def sampleShiftedImage : MappedContainer := ⟨⟨0x1000, 352⟩, .little⟩

def sampleShiftedParsed : ParsedImage :=
  { Container.parsedImageNew true with
    segments := ⟨[⟨0, 0, 336, 3⟩, ⟨0, 336, 8, 3⟩, ⟨336, 344, 16, 3⟩], by decide +kernel⟩
    fixups := [⟨344, .rebase 0⟩] }

def sampleShiftedCommands : List (LoadCommandVariants × Nat) :=
  [(.lcSegment64, 32), (.lcSegment64, 104), (.lcSegment64, 176), (.lcDyldChainedFixups, 248)]

/-- The world after the image is mapped. -/
def sampleShiftedMapped : World :=
  (machoSegmentsMapToVm (sampleHost fun _ => none) (some []) sampleShiftedImage
    sampleShiftedParsed.segments.items (sampleWorld sampleShiftedFixups)).2

/-- What is read from the file. -/
theorem sampleShifted_read :
    (sampleShiftedImage.view (sampleWorld sampleShiftedFixups).mem).machoParser
      = .ok sampleShiftedParsed ∧
    (sampleShiftedImage.view (sampleWorld sampleShiftedFixups).mem).loadCommands
      = some sampleShiftedCommands ∧
    (sampleShiftedImage.view (sampleWorld sampleShiftedFixups).mem).chainedFixupsParseAll
      = .ok [⟨344, .rebase 0⟩] :=
  ⟨by decide +kernel, by decide +kernel, by decide +kernel⟩

theorem sampleShifted_maps : machoSegmentsMapToVm (sampleHost fun _ => none) (some [])
    sampleShiftedImage sampleShiftedParsed.segments.items (sampleWorld sampleShiftedFixups)
      = (.ok (0x1160, 360), sampleShiftedMapped) :=
  Exec.eq_of_fst (by decide +kernel)

/-- The fixup is parsed from a word of zeros, and overwrites the word of the chain. -/
theorem sampleShifted_otherWord :
    (sampleHost fun _ => none).FreshRegions ∧
    sampleShiftedImage.bytes ∈ (sampleWorld sampleShiftedFixups).regions ∧
    (sampleShiftedImage.view (sampleWorld sampleShiftedFixups).mem).machoParser
      = .ok sampleShiftedParsed ∧
    machoSegmentsMapToVm (sampleHost fun _ => none) (some []) sampleShiftedImage
      sampleShiftedParsed.segments.items (sampleWorld sampleShiftedFixups)
        = (.ok (0x1160, 360), sampleShiftedMapped) ∧
    (∃ fixup : Fixup,
      (sampleShiftedImage.view (sampleWorld sampleShiftedFixups).mem).chainedFixupsParseAll
        = .ok [fixup] ∧
      (sampleShiftedImage.view (sampleWorld sampleShiftedFixups).mem).u64 fixup.offset = some 0 ∧
      sampleShiftedMapped.mem.readWord 8 (0x1160 + imageBase (some []) + fixup.offset) = 16) :=
  ⟨sampleHost_fresh _, by decide +kernel, sampleShifted_read.1, sampleShifted_maps,
    ⟨344, .rebase 0⟩, sampleShifted_read.2.2, by decide +kernel, by decide +kernel⟩

theorem sampleShifted_inPlace_iff :
    (∀ fixup ∈ [(⟨344, .rebase 0⟩ : Fixup)], ∃ position,
      (sampleShiftedImage.view (sampleWorld sampleShiftedFixups).mem).DecodedAt fixup position ∧
      WordCopiedTo sampleShiftedImage (sampleWorld sampleShiftedFixups) sampleShiftedMapped position
        (0x1160 + imageBase (some []) + fixup.offset)) ↔
    ∀ fixup ∈ [(⟨344, .rebase 0⟩ : Fixup)], ∀ k < 8,
      InPlace (mappedCommands false
        ((sampleShiftedImage.view (sampleWorld sampleShiftedFixups).mem).segmentCommandsOf
          sampleShiftedCommands)) (imageBase (some [])) (fixup.offset + k) := by
  have hlive : sampleShiftedImage.bytes ∈ (sampleWorld sampleShiftedFixups).regions := by
    decide +kernel
  have hdisjoint : (mappedCommands false
      ((sampleShiftedImage.view (sampleWorld sampleShiftedFixups).mem).segmentCommandsOf
        sampleShiftedCommands)).Pairwise fun s t => ByteRange.Apart s.vmRange t.vmRange := by
    decide +kernel
  have hkept : ∀ seg ∈ mappedCommands false
      ((sampleShiftedImage.view (sampleWorld sampleShiftedFixups).mem).segmentCommandsOf
        sampleShiftedCommands),
      ByteRange.Apart ⟨0x1160 + seg.vmaddr, seg.vmsize⟩ sampleShiftedImage.bytes := by
    decide +kernel
  exact @fixupWords_inPlace_iff _ _ _ (some []) _ _ _ _ _ _ (sampleHost_fresh _) hlive
    sampleShifted_read.1 sampleShifted_read.2.1 sampleShifted_read.2.2 hdisjoint
    sampleShifted_maps hkept

end Dynld
