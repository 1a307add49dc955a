import Dynld.Dylib
import Dynld.Proof.FilePositions
import Dynld.Proof.LoadCommandWalks
import Dynld.Proof.Prefixes

/-!
# Looking up a symbol in a dylib that is loaded

A load command says where in the *file* the exports trie of a dylib is. The lookup in a
loaded dylib reads that many bytes at that offset of the mapped region, where the shared
cache would translate through `__LINKEDIT`. Which bytes of the file are there is decided
by the segments: `dylibSymbolResolve_mapped` says that the lookup answers as the trie does
if what it reads is mapped in place.
-/

namespace Dynld

/-! ## A lookup is a trie and the names of the dependencies -/

/-- What a dylib with this exports trie answers. -/
def MachOImage.trieAnswer (image : MachOImage) (trieBytes symbol : List UInt8) :
    Outcome (Option DylibSymbol) := do
  match ← exportsTrieWalkForSymbol trieBytes symbol with
  | none => .ok none
  | some (.definedHere offsetFromMachHeader) => .ok (some (.defined offsetFromMachHeader))
  | some (.reexportedFromDependency dependencyOrdinal aliasedName) => do
      match ← image.dylibInstallPathForOrdinal dependencyOrdinal with
      | none => .ok none
      | some targetInstallPath =>
          let targetSymbol := if aliasedName = [] then symbol else aliasedName
          .ok (some (.reexported targetInstallPath targetSymbol))

/-- The same, for the bytes where a trie is looked for, if there are any. -/
def MachOImage.sliceAnswer (image : MachOImage) (slice : Option (List UInt8))
    (symbol : List UInt8) : Outcome (Option DylibSymbol) :=
  match slice with
  | none => .ok none
  | some trieBytes => image.trieAnswer trieBytes symbol

theorem dylibSymbolResolve_eq {c : Container} {span : ExportsTrieSpan}
    (h : MachOImage.exportsTrieSpanFind ⟨c, 0⟩ = .ok (some span)) (symbol : List UInt8) :
    dylibSymbolResolve c symbol
      = MachOImage.sliceAnswer ⟨c, 0⟩ (c.slice span.fileOffset span.sizeInBytes) symbol := by
  unfold dylibSymbolResolve
  dsimp only
  rw [h, Outcome.ok_bind]
  cases hslice : c.slice span.fileOffset span.sizeInBytes with
  | none => simp only [hslice, MachOImage.sliceAnswer]
  | some trieBytes =>
      simp only [hslice]
      rfl

theorem sliceAnswer_congr {image image' : MachOImage}
    (h : ∀ ordinal, image'.dylibInstallPathForOrdinal ordinal
      = image.dylibInstallPathForOrdinal ordinal) :
    image'.sliceAnswer = image.sliceAnswer := by
  funext slice symbol
  unfold MachOImage.sliceAnswer MachOImage.trieAnswer
  simp only [h]

/-- The load commands with all their names are among the first `n` bytes of the image, and this is
the span of its exports trie. -/
structure HeaderWithin (c : Container) (n : Nat) (span : ExportsTrieSpan) : Prop where
  span_eq : MachOImage.exportsTrieSpanFind ⟨c.beginning n, 0⟩ = .ok (some span)
  names : ∀ ordinal, ∃ path,
    MachOImage.dylibInstallPathForOrdinal ⟨c.beginning n, 0⟩ ordinal = .ok path

/-- Where the first bytes are the same, only the bytes of the trie matter. -/
theorem HeaderWithin.resolve_eq {c c' : Container} {n : Nat} {span : ExportsTrieSpan}
    (h : HeaderWithin c n span) (hbegins : (c.beginning n).Begins c') (symbol : List UInt8) :
    dylibSymbolResolve c' symbol
      = MachOImage.sliceAnswer ⟨c, 0⟩ (c'.slice span.fileOffset span.sizeInBytes) symbol := by
  rw [dylibSymbolResolve_eq (hbegins.exportsTrieSpanFind 0 _ h.span_eq)]
  have hnames : ∀ ordinal, MachOImage.dylibInstallPathForOrdinal ⟨c', 0⟩ ordinal
      = MachOImage.dylibInstallPathForOrdinal ⟨c, 0⟩ ordinal := by
    intro ordinal
    obtain ⟨path, hpath⟩ := h.names ordinal
    rw [hbegins.dylibInstallPathForOrdinal 0 ordinal _ hpath,
      (c.beginning_begins n).dylibInstallPathForOrdinal 0 ordinal _ hpath]
  rw [sliceAnswer_congr hnames]

/-- An image without dependencies names none. -/
theorem dylibInstallPathForOrdinal_of_none {image : MachOImage}
    {visited : List (LoadCommandVariants × Nat)} {position : Nat}
    (hwalk : image.loadCommandsWalk = ⟨visited, position, .ok ()⟩)
    (hnone : ∀ visit ∈ visited, isDylibDependencyCommand visit.1 = false) (ordinal : Nat) :
    image.dylibInstallPathForOrdinal ordinal = .ok none := by
  unfold MachOImage.dylibInstallPathForOrdinal
  dsimp only
  rw [MachOImage.loadCommandsFind_eq_replay, hwalk, CommandWalk.replay]
  dsimp only
  clear hwalk
  induction visited with
  | nil => rfl
  | cons visit rest ih =>
      have hrest := ih fun visit' hmem => hnone visit' (List.mem_cons_of_mem visit hmem)
      rw [CommandWalk.visitEach, hnone visit List.mem_cons_self]
      exact hrest

theorem HeaderWithin.pos {c : Container} {n : Nat} {span : ExportsTrieSpan}
    (h : HeaderWithin c n span) : 0 < n := by
  obtain ⟨⟨found, s⟩, hfind, -⟩ := Outcome.bind_eq_ok.mp h.span_eq
  obtain ⟨header, hheader, -⟩ := Outcome.bind_eq_ok.mp hfind
  obtain ⟨magic, hmagic, -⟩ := Option.bind_eq_some_iff.mp (Outcome.okOr_eq_ok.mp hheader)
  obtain ⟨v, hread, -⟩ := Option.bind_eq_some_iff.mp hmagic
  have hle := (Bytes.wordAt_bound hread).1
  have htake : (c.beginning n).data.length ≤ n := List.length_take_le n c.data
  have hle : 0 + 4 ≤ (c.beginning n).data.length := hle
  omega

/-- Containers that agree on the first `n` bytes. -/
theorem beginning_begins_of_agree {c c' : Container} {n : Nat} (hendian : c.endian = c'.endian)
    (h : ∀ i < n, i < c.data.length → c'.data[i]? = c.data[i]?) : (c.beginning n).Begins c' := by
  refine ⟨List.prefix_iff_eq_take.mpr (List.ext_getElem? fun i => ?_), hendian⟩
  have hlen : (c.beginning n).data.length = min n c.data.length := List.length_take
  by_cases hi : i < (c.beginning n).data.length
  · rw [List.getElem?_take_of_lt hi, h i (by omega) (by omega)]
    exact List.getElem?_take_of_lt (by omega)
  · rw [List.getElem?_eq_none (by omega), List.getElem?_eq_none (by rw [List.length_take]; omega)]

/-- Containers that agree on the bytes of a slice, of which there is at least one. -/
theorem slice_of_agree {c c' : Container} {offset len : Nat} {bytes : List UInt8} (hpos : 0 < len)
    (hslice : c.slice offset len = some bytes)
    (h : ∀ i < len, c'.data[offset + i]? = c.data[offset + i]?) :
    c'.slice offset len = some bytes := by
  obtain ⟨hbound, hfits, rfl⟩ := Container.slice_eq_some hslice
  -- the last byte is there
  have hlast := (h (len - 1) (by omega)).trans (List.getElem?_eq_getElem (by omega))
  obtain ⟨hlt, -⟩ := List.getElem?_eq_some_iff.mp hlast
  unfold Container.slice Bytes.bytesAt
  rw [if_pos hbound, if_pos (by omega)]
  refine congrArg some (List.ext_getElem? fun i => ?_)
  by_cases hi : i < len
  · rw [List.getElem?_take_of_lt hi, List.getElem?_take_of_lt hi, List.getElem?_drop,
      List.getElem?_drop, h i hi]
  · rw [List.getElem?_eq_none (by rw [List.length_take]; omega),
      List.getElem?_eq_none (by rw [List.length_take]; omega)]

/-- **The lookup reads the beginning and the trie**: a container that has the same bytes there answers
as the trie does. -/
theorem HeaderWithin.resolve_of_agree {c c' : Container} {n : Nat} {span : ExportsTrieSpan}
    {trieBytes : List UInt8} (h : HeaderWithin c n span) (hendian : c.endian = c'.endian)
    (htrie : c.slice span.fileOffset span.sizeInBytes = some trieBytes)
    (hbegin : ∀ x < n, x < c.data.length → c'.data[x]? = c.data[x]?)
    (hbytes : ∀ i < span.sizeInBytes,
      c'.data[span.fileOffset + i]? = c.data[span.fileOffset + i]?) (symbol : List UInt8) :
    dylibSymbolResolve c' symbol = MachOImage.trieAnswer ⟨c, 0⟩ trieBytes symbol := by
  rw [h.resolve_eq (beginning_begins_of_agree hendian hbegin) symbol]
  by_cases hempty : span.sizeInBytes = 0
  · -- an empty trie has no answer, whether it is inside the container or not
    have hnil : trieBytes = [] := by
      rw [(Container.slice_eq_some htrie).2.2, hempty, List.take_zero]
    rw [hnil, hempty]
    cases hslice : c'.slice span.fileOffset 0 with
    | none => rfl
    | some bytes =>
        obtain rfl : bytes = [] := by rw [(Container.slice_eq_some hslice).2.2, List.take_zero]
        rfl
  · rw [slice_of_agree (Nat.pos_of_ne_zero hempty) htrie hbytes]
    rfl

/-! ## The region, byte by byte -/

/-- The byte at `x` of the file is mapped to the offset `x` of the region, and no other one is. -/
structure MappedInPlace (segs : List SegmentCommand64) (x : Nat) : Prop where
  covered : ∃ seg ∈ segs, x ∈ seg.vmRange
  inPlace : ∀ seg ∈ segs, x ∈ seg.vmRange → seg.vmaddr = seg.fileoff

section

variable {w : World} {image : MappedContainer} {dylibDir : Option (List UInt8)}
  {segs : List SegmentCommand64} {region : ByteRange}

/-- A segment at address zero makes all segments lie in the region. -/
theorem MappedInPlace.within (h : MappedInPlace segs 0) {seg : SegmentCommand64}
    (hseg : seg ∈ segs) : seg.vmaddr + seg.vmsize ≤ regionSize segs := by
  obtain ⟨first, hfirst, hin⟩ := h.covered
  have hin := ByteRange.mem_mk.mp hin
  have hlow : (segs.map (·.vmaddr)).foldr min (2 ^ 64 - 1) ≤ first.vmaddr :=
    foldr_min_le (List.mem_map.mpr ⟨first, hfirst, rfl⟩)
  have hhigh : seg.vmaddr + seg.vmsize
      ≤ (segs.map fun seg => seg.vmaddr + seg.vmsize).foldr max 0 :=
    le_foldr_max (List.mem_map.mpr ⟨seg, hseg, rfl⟩)
  unfold regionSize
  omega

/-- The segments lie in the region, and the region is apart from the file. -/
structure LaidOut (image : MappedContainer) (segs : List SegmentCommand64) (region : ByteRange) :
    Prop where
  apart : ByteRange.Apart region image.bytes
  within : ∀ seg ∈ segs, seg.vmaddr + seg.vmsize ≤ region.len

/-- What is in place reads in the region as it does in the file: of the segments over it, the last
one that is copied decides, and all of them have the same byte. -/
theorem LaidOut.getElem?_inPlace (h : LaidOut image segs region) {x : Nat} (hx : x < image.bytes.len)
    (hplace : MappedInPlace segs x) :
    (MappedContainer.view ⟨region, .little⟩ (w.afterMapping dylibDir image segs region).mem).data[x]?
      = (image.view w.mem).data[x]? := by
  have hin : x < region.len := by
    obtain ⟨seg, hseg, hmem⟩ := hplace.covered
    have hmem := ByteRange.mem_mk.mp hmem
    have hle := h.within seg hseg
    omega
  have hsrc : image.bytes.start + x ∈ image.bytes := ByteRange.mem_def.mpr ⟨by omega, by omega⟩
  have hkept : ∀ mv ∈ segs.map (SegmentCommand64.move image region.start),
      ByteRange.Apart mv.target image.bytes := by
    intro mv hmv
    obtain ⟨seg, hseg, rfl⟩ := List.mem_map.mp hmv
    have hle := h.within seg hseg
    refine h.apart.mono (ByteRange.within_of_le ?_ ?_) (ByteRange.Within.refl _)
    · exact Nat.le_add_right region.start seg.vmaddr
    · show region.start + seg.vmaddr + seg.vmsize ≤ region.start + region.len
      omega
  have hsame : ∀ mv ∈ segs.map (SegmentCommand64.move image region.start),
      region.start + x ∈ mv.target →
        mv.src + (region.start + x - mv.dst) = image.bytes.start + x := by
    intro mv hmv hin
    obtain ⟨seg, hseg, rfl⟩ := List.mem_map.mp hmv
    have hin : region.start + seg.vmaddr ≤ region.start + x ∧
        region.start + x < region.start + seg.vmaddr + seg.vmsize := hin
    have heq := hplace.inPlace seg hseg (ByteRange.mem_mk.mpr ⟨by omega, by omega⟩)
    show image.bytes.start + seg.fileoff + (region.start + x - (region.start + seg.vmaddr)) = _
    omega
  have hcovered : ∃ mv ∈ segs.map (SegmentCommand64.move image region.start),
      region.start + x ∈ mv.target := by
    obtain ⟨seg, hseg, hin⟩ := hplace.covered
    have hin := ByteRange.mem_mk.mp hin
    refine ⟨_, List.mem_map_of_mem hseg, ?_⟩
    show region.start + seg.vmaddr ≤ region.start + x ∧
      region.start + x < region.start + seg.vmaddr + seg.vmsize
    omega
  have harrive := Mem.copyAll_of_same (m := (w.afterAlloc dylibDir region).mem) hkept hsrc hsame
    hcovered
  -- the zeroed region is apart from the image
  have hzero : (w.afterAlloc dylibDir region).mem (image.bytes.start + x)
      = w.mem (image.bytes.start + x) := Mem.zero_of_notMem fun hbad => h.apart _ hbad hsrc
  rw [view_data_getElem? hx, @view_data_getElem? ⟨region, .little⟩ _ x hin]
  exact congrArg some (harrive.trans hzero)

end

/-! ## The lookup in the region -/

/-- All that a lookup reads is mapped in place: the load commands with the names in them, and the
bytes of the trie. -/
structure LookupInPlace (c : Container) (segs : List SegmentCommand64) (span : ExportsTrieSpan) :
    Prop where
  header : ∃ n, HeaderWithin c n span ∧ ∀ x < n, MappedInPlace segs x
  trie : ∀ i < span.sizeInBytes, MappedInPlace segs (span.fileOffset + i)

/-- **A symbol is found in a loaded dylib as in the file**, if the load commands and the exports trie
of the dylib are mapped in place: then the lookup in the region answers each symbol as the walk of
the trie's bytes in the file does. -/
theorem dylibSymbolResolve_mapped {host : Host} {w w' : World} {path : List UInt8}
    {image : MappedContainer} {parsedImage : ParsedImage}
    {commands : List (LoadCommandVariants × Nat)} {vm vmSize : Nat} {span : ExportsTrieSpan}
    {trieBytes : List UInt8}
    (hfresh : host.FreshRegions) (hlive : image.bytes ∈ w.regions) (hlittle : image.endian = .little)
    (hparse : (image.view w.mem).machoParser = .ok parsedImage)
    (hcommands : (image.view w.mem).loadCommands = some commands)
    (hok : machoSegmentsMapToVm host (some path) image parsedImage.segments.items w
      = (.ok (vm, vmSize), w'))
    (htrie : (image.view w.mem).slice span.fileOffset span.sizeInBytes = some trieBytes)
    (hplace : LookupInPlace (image.view w.mem) ((image.view w.mem).segmentCommandsOf commands) span)
    (symbol : List UInt8) :
    dylibSymbolResolve (MappedContainer.view ⟨⟨vm, vmSize⟩, .little⟩ w'.mem) symbol
      = MachOImage.trieAnswer ⟨image.view w.mem, 0⟩ trieBytes symbol := by
  obtain ⟨hsize, hapart, hw'⟩ := machoSegmentsMapToVm_parsed hfresh hlive hparse hcommands hok
  obtain ⟨⟨n, hheader, hbefore⟩, htrieInPlace⟩ := hplace
  generalize (image.view w.mem).segmentCommandsOf commands = segs at *
  have hall : mappedCommands (some path).isNone segs = segs := by simp [mappedCommands]
  rw [hall] at hw'
  -- the header is in place, so all segments lie in the region
  have hlaid : LaidOut image segs ⟨vm, vmSize⟩ :=
    ⟨hapart, fun seg hseg => hsize ▸ (hbefore 0 hheader.pos).within hseg⟩
  have hfits := (Container.slice_eq_some htrie).2.1
  rw [view_data_length] at hfits
  have hendian : (image.view w.mem).endian
      = (MappedContainer.view ⟨⟨vm, vmSize⟩, .little⟩ w'.mem).endian := hlittle
  refine hheader.resolve_of_agree hendian htrie (fun x hx hin => ?_) (fun i hi => ?_) symbol
  · rw [view_data_length] at hin
    rw [hw', hlaid.getElem?_inPlace hin (hbefore x hx)]
  · rw [hw', hlaid.getElem?_inPlace (by omega) (htrieInPlace i hi)]

/-! ## A trie after zero-fill

The exports trie of the dylib is at the start of its third segment, which eight bytes of
zero-fill have moved: where the trie is looked for, there is the start of the file. -/

def sampleGlobalTrie : List UInt8 := [0, 1, 0x5f, 0x67, 0, 6, 2, 0, 4, 0]

def sampleShiftedTrie : List UInt8 :=
  sampleShifted "__LINKEDIT" 264
    (Bytes.encodeFields .little [(4, 0x80000033), (4, 16), (4, 264), (4, 10)]
      ++ sampleGlobalTrie ++ List.replicate 6 0)

def sampleMovedImage : MappedContainer := ⟨⟨0x1000, 280⟩, .little⟩

def sampleMovedParsed : ParsedImage :=
  { Container.parsedImageNew true with
    segments := ⟨[⟨0, 0, 264, 3⟩, ⟨0, 264, 8, 3⟩, ⟨264, 272, 16, 3⟩], by decide +kernel⟩ }

def sampleMovedCommands : List (LoadCommandVariants × Nat) :=
  [(.lcSegment64, 32), (.lcSegment64, 104), (.lcSegment64, 176), (.lcDyldExportsTrie, 248)]

/-- The world after the image is mapped. -/
def sampleMovedMapped : World :=
  (machoSegmentsMapToVm (sampleHost fun _ => none) (some []) sampleMovedImage
    sampleMovedParsed.segments.items (sampleWorld sampleShiftedTrie)).2

/-- What is read from the file. -/
theorem sampleMoved_read :
    (sampleMovedImage.view (sampleWorld sampleShiftedTrie).mem).machoParser
      = .ok sampleMovedParsed ∧
    (sampleMovedImage.view (sampleWorld sampleShiftedTrie).mem).loadCommands
      = some sampleMovedCommands ∧
    (sampleMovedImage.view (sampleWorld sampleShiftedTrie).mem).slice 264 10
      = some sampleGlobalTrie :=
  ⟨by decide +kernel, by decide +kernel, by decide +kernel⟩

theorem sampleMoved_maps : machoSegmentsMapToVm (sampleHost fun _ => none) (some []) sampleMovedImage
    sampleMovedParsed.segments.items (sampleWorld sampleShiftedTrie)
      = (.ok (0x1118, 288), sampleMovedMapped) :=
  Exec.eq_of_fst (by decide +kernel)

/-- The trie of the file has `_g`, and the lookup in the loaded dylib does not find it. -/
theorem sampleMoved_notFound :
    (sampleHost fun _ => none).FreshRegions ∧
    sampleMovedImage.bytes ∈ (sampleWorld sampleShiftedTrie).regions ∧
    (sampleMovedImage.view (sampleWorld sampleShiftedTrie).mem).machoParser = .ok sampleMovedParsed ∧
    MachOImage.exportsTrieSpanFind
      ⟨sampleMovedImage.view (sampleWorld sampleShiftedTrie).mem, 0⟩ = .ok (some ⟨264, 10⟩) ∧
    (sampleMovedImage.view (sampleWorld sampleShiftedTrie).mem).slice 264 10
      = some sampleGlobalTrie ∧
    machoSegmentsMapToVm (sampleHost fun _ => none) (some []) sampleMovedImage
      sampleMovedParsed.segments.items (sampleWorld sampleShiftedTrie)
        = (.ok (0x1118, 288), sampleMovedMapped) ∧
    exportsTrieWalkForSymbol sampleGlobalTrie (ascii "_g") = .ok (some (.definedHere 4)) ∧
    dylibSymbolResolve (MappedContainer.view ⟨⟨0x1118, 288⟩, .little⟩ sampleMovedMapped.mem)
      (ascii "_g") = .ok none :=
  ⟨sampleHost_fresh _, by decide +kernel, sampleMoved_read.1, by decide +kernel, sampleMoved_read.2.2,
    sampleMoved_maps, by decide +kernel, by decide +kernel⟩

/-! ## The same trie without zero-fill before it -/

/-- The trie is at the start of the second segment, which is where it is in the file. -/
def sampleUnmovedTrie : List UInt8 :=
  sampleMachO 6 3 (sampleSegment "__TEXT" 0 192 0 192 ++ sampleSegment "__LINKEDIT" 192 16 192 16
    ++ Bytes.encodeFields .little [(4, 0x80000033), (4, 16), (4, 192), (4, 10)]
    ++ sampleGlobalTrie ++ List.replicate 6 0)

def sampleUnmovedImage : MappedContainer := ⟨⟨0x1000, 208⟩, .little⟩

def sampleUnmovedParsed : ParsedImage :=
  { Container.parsedImageNew true with
    segments := ⟨[⟨0, 0, 192, 3⟩, ⟨192, 192, 16, 3⟩], by decide +kernel⟩ }

def sampleUnmovedCommands : List (LoadCommandVariants × Nat) :=
  [(.lcSegment64, 32), (.lcSegment64, 104), (.lcDyldExportsTrie, 176)]

/-- The world after the image is mapped. -/
def sampleUnmovedMapped : World :=
  (machoSegmentsMapToVm (sampleHost fun _ => none) (some []) sampleUnmovedImage
    sampleUnmovedParsed.segments.items (sampleWorld sampleUnmovedTrie)).2

theorem sampleUnmoved_read :
    (sampleUnmovedImage.view (sampleWorld sampleUnmovedTrie).mem).machoParser
      = .ok sampleUnmovedParsed ∧
    (sampleUnmovedImage.view (sampleWorld sampleUnmovedTrie).mem).loadCommands
      = some sampleUnmovedCommands ∧
    (sampleUnmovedImage.view (sampleWorld sampleUnmovedTrie).mem).slice 192 10
      = some sampleGlobalTrie :=
  ⟨by decide +kernel, by decide +kernel, by decide +kernel⟩

/-- The dylib has no dependencies to name. -/
theorem sampleUnmoved_headerWithin :
    HeaderWithin (sampleUnmovedImage.view (sampleWorld sampleUnmovedTrie).mem) 192 ⟨192, 10⟩ := by
  refine ⟨by decide +kernel, fun ordinal => ⟨none, ?_⟩⟩
  exact @dylibInstallPathForOrdinal_of_none _ sampleUnmovedCommands 192 (by decide +kernel)
    (by decide) ordinal

theorem sampleUnmoved_inPlace :
    LookupInPlace (sampleUnmovedImage.view (sampleWorld sampleUnmovedTrie).mem)
      ((sampleUnmovedImage.view (sampleWorld sampleUnmovedTrie).mem).segmentCommandsOf
        sampleUnmovedCommands) ⟨192, 10⟩ := by
  have hsame : ∀ seg ∈ (sampleUnmovedImage.view
      (sampleWorld sampleUnmovedTrie).mem).segmentCommandsOf sampleUnmovedCommands,
        seg.vmaddr = seg.fileoff := by decide +kernel
  have hcovered : ∀ x < 202, ∃ seg ∈ (sampleUnmovedImage.view
      (sampleWorld sampleUnmovedTrie).mem).segmentCommandsOf sampleUnmovedCommands,
        x ∈ seg.vmRange := by
    obtain ⟨text, htext, hstart, hsize⟩ : ∃ seg ∈ (sampleUnmovedImage.view
        (sampleWorld sampleUnmovedTrie).mem).segmentCommandsOf sampleUnmovedCommands,
          seg.vmaddr = 0 ∧ seg.vmsize = 192 := by decide +kernel
    obtain ⟨linkedit, hlinkedit, hstart', hsize'⟩ : ∃ seg ∈ (sampleUnmovedImage.view
        (sampleWorld sampleUnmovedTrie).mem).segmentCommandsOf sampleUnmovedCommands,
          seg.vmaddr = 192 ∧ seg.vmsize = 16 := by decide +kernel
    intro x hx
    by_cases hlt : x < 192
    · exact ⟨text, htext, ByteRange.mem_mk.mpr ⟨by omega, by omega⟩⟩
    · exact ⟨linkedit, hlinkedit, ByteRange.mem_mk.mpr ⟨by omega, by omega⟩⟩
  refine ⟨⟨192, sampleUnmoved_headerWithin, fun x hx => ?_⟩, fun i hi => ?_⟩
  · exact ⟨hcovered x (Nat.lt_trans hx (by decide)), fun seg hseg _ => hsame seg hseg⟩
  · have hi : i < 10 := hi
    exact ⟨hcovered (192 + i) (by omega), fun seg hseg _ => hsame seg hseg⟩

theorem sampleUnmoved_maps : machoSegmentsMapToVm (sampleHost fun _ => none) (some [])
    sampleUnmovedImage sampleUnmovedParsed.segments.items (sampleWorld sampleUnmovedTrie)
      = (.ok (0x10d0, 208), sampleUnmovedMapped) :=
  Exec.eq_of_fst (by decide +kernel)

theorem sampleUnmoved_live :
    sampleUnmovedImage.bytes ∈ (sampleWorld sampleUnmovedTrie).regions := by decide +kernel

/-- Here the lookup in the loaded dylib finds `_g`. -/
theorem sampleUnmoved_found :
    dylibSymbolResolve (MappedContainer.view ⟨⟨0x10d0, 208⟩, .little⟩ sampleUnmovedMapped.mem)
        (ascii "_g")
      = MachOImage.trieAnswer ⟨sampleUnmovedImage.view (sampleWorld sampleUnmovedTrie).mem, 0⟩
        sampleGlobalTrie (ascii "_g") := by
  have himage := sampleUnmoved_read
  have hmaps := sampleUnmoved_maps
  have hplace := sampleUnmoved_inPlace
  have hlive := sampleUnmoved_live
  generalize sampleUnmovedMapped = mapped at *
  generalize sampleWorld sampleUnmovedTrie = w at *
  exact dylibSymbolResolve_mapped (sampleHost_fresh _) hlive rfl himage.1 himage.2.1 hmaps himage.2.2
    hplace (ascii "_g")

end Dynld
