import Dynld.Proof.SharedCacheLookup
import Dynld.Proof.SubcacheIndex

/-!
# The address of an exports trie

A load command has the trie's file offset and `__LINKEDIT` has the address of another
one, so the trie's address is the one moved by the difference of the two. Nothing says
that the difference is no less than zero. An umbrella has no symbols of its own and a
trie of no bytes at offset 0, which is before `__LINKEDIT`: exactly there the lookup
does not get as far as the libraries behind the umbrella.
-/

namespace Dynld

namespace DyldSharedCache

/-- The span and the segment that the address is computed from. -/
structure TrieFound (cache : DyldSharedCache) (library : SharedCacheLibrary) (image : MachOImage)
    (span : ExportsTrieSpan) (linkedit : LinkeditSegment) : Prop where
  view : cache.imageViewForLibrary library = .ok image
  span_found : image.exportsTrieSpanFind = .ok (some span)
  linkedit_found : image.linkeditSegmentFind = .ok (some linkedit)

/-- What a lookup makes of `size` bytes of a trie at this address, wherever in the cache they are:
`try_resolve_via_exports_trie` from where it has the address. -/
def resolveViaTrieAt (cache : DyldSharedCache) (library : SharedCacheLibrary) (image : MachOImage)
    (address size : Nat) (symbol : List UInt8) : Outcome (Option TrieResolution) := do
  match ← cache.subcacheAndOffsetLocateFromAddr address with
  | none => .ok none
  | some (hostingSubcacheIndex, trieRuntimeOffset) => do
      let subcache ← cache.subCacheAt hostingSubcacheIndex
      match subcache.container.slice trieRuntimeOffset size with
      | none => .ok none
      | some trieBytes => do
          match ← exportsTrieWalkForSymbol trieBytes symbol with
          | none => .ok none
          | some terminal => cache.terminalResolve library image symbol terminal

/-- The lookup goes to the trie's address, and an empty trie is passed over. -/
structure TrieAddressed (cache : DyldSharedCache) (library : SharedCacheLibrary) : Prop where
  /-- The trie is so many bytes into the segment, its address is a 64-bit one, and there the lookup
  goes on. -/
  computed : ∀ image span linkedit, cache.TrieFound library image span linkedit →
    ∃ offsetInLinkedit, linkedit.fileoff + offsetInLinkedit = span.fileOffset ∧
      linkedit.vmaddr + offsetInLinkedit < 2 ^ 64 ∧
      ∀ symbol, cache.tryResolveViaExportsTrie library symbol
        = cache.resolveViaTrieAt library image (linkedit.vmaddr + offsetInLinkedit)
            span.sizeInBytes symbol
  /-- An empty trie resolves nothing. -/
  empty : ∀ image span linkedit, cache.TrieFound library image span linkedit →
    span.sizeInBytes = 0 → ∀ symbol, cache.tryResolveViaExportsTrie library symbol = .ok none
  /-- The lookup goes on in the libraries that the umbrella is over. -/
  fallsThrough : ∀ image span linkedit, cache.TrieFound library image span linkedit →
    span.sizeInBytes = 0 → ∀ depthBudget path symbol,
    cache.libraryFindByInstallPath path = some library →
      cache.symbolResolveWithMaxDepth (depthBudget + 1) path symbol
        = cache.tryResolveViaUmbrellaReexports (cache.symbolResolveWithMaxDepth depthBudget)
            library symbol

variable {cache : DyldSharedCache} {library : SharedCacheLibrary} {image : MachOImage}
  {span : ExportsTrieSpan} {linkedit : LinkeditSegment}

/-- **The lookup computes the address and goes on there**, or it panics in one of the two
operations. -/
theorem tryResolveViaExportsTrie_eq (h : cache.TrieFound library image span linkedit)
    (symbol : List UInt8) : cache.tryResolveViaExportsTrie library symbol = (do
      let offsetInLinkedit ← Outcome.sub span.fileOffset linkedit.fileoff
      let address ← Outcome.add 64 linkedit.vmaddr offsetInLinkedit
      cache.resolveViaTrieAt library image address span.sizeInBytes symbol) := by
  rw [tryResolveViaExportsTrie, h.view, Outcome.ok_bind, exportsTrieBytesFind, h.span_found,
    Outcome.ok_bind]
  dsimp only
  rw [h.linkedit_found, Outcome.ok_bind]
  dsimp only
  rw [Outcome.bind_assoc]
  refine congrArg _ (funext fun offsetInLinkedit => ?_)
  rw [Outcome.bind_assoc]
  refine congrArg _ (funext fun address => ?_)
  rw [resolveViaTrieAt, Outcome.bind_assoc]
  refine congrArg _ (funext fun located => ?_)
  cases located with
  | none => rfl
  | some found =>
      obtain ⟨index, offset⟩ := found
      dsimp only
      rw [Outcome.bind_assoc]
      refine congrArg _ (funext fun subcache => ?_)
      cases subcache.container.slice offset span.sizeInBytes <;> rfl

theorem tryResolveViaExportsTrie_of_le (h : cache.TrieFound library image span linkedit)
    (hle : linkedit.fileoff ≤ span.fileOffset)
    (hlt : linkedit.vmaddr + (span.fileOffset - linkedit.fileoff) < 2 ^ 64) (symbol : List UInt8) :
    cache.tryResolveViaExportsTrie library symbol
      = cache.resolveViaTrieAt library image
          (linkedit.vmaddr + (span.fileOffset - linkedit.fileoff)) span.sizeInBytes symbol := by
  rw [tryResolveViaExportsTrie_eq h, Outcome.sub_of_le hle, Outcome.ok_bind, Outcome.add_of_lt hlt,
    Outcome.ok_bind]

/-- A trie before `__LINKEDIT`. -/
theorem tryResolveViaExportsTrie_of_gt (h : cache.TrieFound library image span linkedit)
    (hgt : span.fileOffset < linkedit.fileoff) (symbol : List UInt8) :
    cache.tryResolveViaExportsTrie library symbol = .panic "attempt to subtract with overflow" := by
  have hsub : Outcome.sub span.fileOffset linkedit.fileoff
      = .panic "attempt to subtract with overflow" := if_neg (Nat.not_le_of_lt hgt)
  rw [tryResolveViaExportsTrie_eq h, hsub, Outcome.panic_bind]

/-- A trie behind the last 64-bit address. -/
theorem tryResolveViaExportsTrie_of_overflow (h : cache.TrieFound library image span linkedit)
    (hle : linkedit.fileoff ≤ span.fileOffset)
    (hover : 2 ^ 64 ≤ linkedit.vmaddr + (span.fileOffset - linkedit.fileoff))
    (symbol : List UInt8) :
    cache.tryResolveViaExportsTrie library symbol = .panic "attempt to add with overflow" := by
  have hadd : Outcome.add 64 linkedit.vmaddr (span.fileOffset - linkedit.fileoff)
      = .panic "attempt to add with overflow" := if_neg (Nat.not_lt_of_le hover)
  rw [tryResolveViaExportsTrie_eq h, Outcome.sub_of_le hle, Outcome.ok_bind, hadd,
    Outcome.panic_bind]

/-- No bytes of a trie answer nothing, once the search for them returns. -/
theorem resolveViaTrieAt_empty {address : Nat} {located : Option (Nat × Nat)}
    (hlocated : cache.subcacheAndOffsetLocateFromAddr address = .ok located)
    (symbol : List UInt8) : cache.resolveViaTrieAt library image address 0 symbol = .ok none := by
  rw [resolveViaTrieAt, hlocated, Outcome.ok_bind]
  cases located with
  | none => rfl
  | some found =>
      obtain ⟨index, offset⟩ := found
      -- the index is at most that of the subcache the search ended at
      obtain ⟨j, subcache, hindex, hj, -, -⟩ := subcacheLocateLoop_eq_some hlocated
      obtain ⟨hj, -⟩ := List.getElem?_eq_some_iff.mp hj
      have hlt : index < cache.subCaches.length := by omega
      have hget : cache.subCaches[index]? = some cache.subCaches[index] :=
        List.getElem?_eq_getElem hlt
      dsimp only
      rw [subCacheAt, hget, Outcome.orPanic_some, Outcome.ok_bind]
      cases hslice : cache.subCaches[index].container.slice offset 0 with
      | none => rfl
      | some bytes =>
          -- the walk of no bytes is over before it begins
          obtain rfl : bytes = [] := by simpa using (Container.slice_eq_some hslice).2.2
          rfl

/-- **The lookup goes to the trie's address exactly if** the trie is not before `__LINKEDIT` and not
behind the last 64-bit address, and then an empty trie is passed over if the search for its address
returns. Of the two arithmetic conditions, the one that fails is the panic that every lookup in the
library ends in. -/
theorem trieAddressed_iff (cache : DyldSharedCache) (library : SharedCacheLibrary) :
    (cache.TrieAddressed library ↔
      ∀ image span linkedit, cache.TrieFound library image span linkedit →
        linkedit.fileoff ≤ span.fileOffset ∧
        linkedit.vmaddr + (span.fileOffset - linkedit.fileoff) < 2 ^ 64 ∧
        (span.sizeInBytes = 0 → ∃ located, cache.subcacheAndOffsetLocateFromAddr
          (linkedit.vmaddr + (span.fileOffset - linkedit.fileoff)) = .ok located)) ∧
    ∀ image span linkedit, cache.TrieFound library image span linkedit → ∀ symbol,
      (span.fileOffset < linkedit.fileoff → cache.tryResolveViaExportsTrie library symbol
        = .panic "attempt to subtract with overflow") ∧
      (linkedit.fileoff ≤ span.fileOffset →
        2 ^ 64 ≤ linkedit.vmaddr + (span.fileOffset - linkedit.fileoff) →
        cache.tryResolveViaExportsTrie library symbol = .panic "attempt to add with overflow") := by
  refine ⟨⟨?_, ?_⟩, fun image span linkedit hfound symbol =>
    ⟨fun hgt => tryResolveViaExportsTrie_of_gt hfound hgt symbol,
      fun hle hover => tryResolveViaExportsTrie_of_overflow hfound hle hover symbol⟩⟩
  · intro h image span linkedit hfound
    obtain ⟨offsetInLinkedit, hoffset, hlt, hgoes⟩ := h.computed image span linkedit hfound
    obtain rfl : offsetInLinkedit = span.fileOffset - linkedit.fileoff := by omega
    refine ⟨by omega, hlt, fun hsize => ?_⟩
    have hempty := h.empty image span linkedit hfound hsize []
    rw [hgoes, resolveViaTrieAt] at hempty
    obtain ⟨located, hlocated, -⟩ := Outcome.bind_eq_ok.mp hempty
    exact ⟨located, hlocated⟩
  · intro h
    have hempty : ∀ image span linkedit, cache.TrieFound library image span linkedit →
        span.sizeInBytes = 0 → ∀ symbol,
          cache.tryResolveViaExportsTrie library symbol = .ok none := by
      intro image span linkedit hfound hsize symbol
      obtain ⟨hle, hlt, hsearch⟩ := h image span linkedit hfound
      obtain ⟨located, hlocated⟩ := hsearch hsize
      rw [tryResolveViaExportsTrie_of_le hfound hle hlt, hsize, resolveViaTrieAt_empty hlocated]
    refine ⟨fun image span linkedit hfound => ?_, hempty, ?_⟩
    · obtain ⟨hle, hlt, -⟩ := h image span linkedit hfound
      exact ⟨span.fileOffset - linkedit.fileoff, Nat.add_sub_cancel' hle, hlt,
        tryResolveViaExportsTrie_of_le hfound hle hlt⟩
    · intro image span linkedit hfound hsize depthBudget path symbol hlib
      rw [symbolResolveWithMaxDepth, hlib]
      dsimp only
      rw [hempty image span linkedit hfound hsize symbol]
      rfl

/-! ## An umbrella

`/a` has an empty trie and re-exports `/b`, which defines `_g`. -/

/-- The image of `/a`, with `__LINKEDIT` from this offset of the file on. -/
def sampleUmbrellaImage (linkeditFileoff : Nat) : List UInt8 :=
  Bytes.encodeFields .little
    [(4, 0xfeedfacf), (4, 0x0100000c), (4, 0), (4, 6), (4, 3), (4, 120), (4, 0), (4, 0),
     (4, 0x19), (4, 72)]
  ++ ascii "__LINKEDIT" ++ List.replicate 6 0
  ++ Bytes.encodeFields .little
    [(8, 0x1000), (8, 346), (8, linkeditFileoff), (8, 346), (4, 1), (4, 1), (4, 0), (4, 0),
     (4, 0x80000033), (4, 16), (4, 0), (4, 0),
     (4, 0x8000001f), (4, 32), (4, 24), (4, 0), (4, 0), (4, 0)]
  ++ ascii "/b" ++ List.replicate 6 0

def sampleUmbrellaContainer (linkeditFileoff : Nat) : Container where
  data := Bytes.encodeFields .little [(8, 0x1000), (8, 346), (8, 0), (4, 1), (4, 1)]
    ++ sampleUmbrellaImage linkeditFileoff
    ++ sampleLibraryImage 336 10 0xc "/a"
    ++ [0, 1, 0x5f, 0x67, 0, 6, 2, 0, 4, 0]
  endian := .little

def sampleUmbrellaCache (linkeditFileoff : Nat) : DyldSharedCache where
  subCaches :=
    [{ container := sampleUmbrellaContainer linkeditFileoff
       unslidBaseVmAddress := 0x1000
       mappingTableOffset := 0
       mappingTableEntryCount := 1 }]
  libraries :=
    [⟨0, 32, ascii "/a", 0x1020⟩, ⟨0, 184, ascii "/b", 0x10b8⟩]
  cacheSlide := 0x100000

/-- With the segment behind the start of the file, as it always is, the lookup panics. -/
theorem sampleUmbrella_panics :
    (sampleUmbrellaCache 0).symbolResolve (ascii "/a") (ascii "_g") = .ok (some 0x1010bc) ∧
    (sampleUmbrellaCache 0x80).symbolResolve (ascii "/a") (ascii "_g")
      = .panic "attempt to subtract with overflow" ∧
    ¬ (sampleUmbrellaCache 0x80).TrieAddressed ⟨0, 32, ascii "/a", 0x1020⟩ := by
  have hpanic : (sampleUmbrellaCache 0x80).symbolResolve (ascii "/a") (ascii "_g")
      = .panic "attempt to subtract with overflow" := by decide +kernel
  refine ⟨by decide +kernel, hpanic, fun h => ?_⟩
  have hfound : (sampleUmbrellaCache 0x80).TrieFound ⟨0, 32, ascii "/a", 0x1020⟩
      ⟨sampleUmbrellaContainer 0x80, 32⟩ ⟨0, 0⟩ ⟨0x1000, 0x80⟩ :=
    ⟨by decide +kernel, by decide +kernel, by decide +kernel⟩
  obtain ⟨offset, hoffset, -, -⟩ := h.computed _ _ _ hfound
  have hoffset : 0x80 + offset = 0 := hoffset
  omega

end DyldSharedCache

end Dynld
