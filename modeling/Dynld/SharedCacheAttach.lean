import Dynld.FixupApply

/-!
# Attaching to a mapped shared cache

The cache is in memory already: the kernel maps it into every process. All that is
known is where its main header is. How many bytes belong to a file of the cache is
worked out from the file's own mapping table, which is first read through a slice of a
provisional length; the other files are found by their distance from the main one.
-/

namespace Dynld

/-! ## What is in the cache -/

/-- The header of each file of the cache. -/
structure DyldCacheHeader where
  /-- File offset to first `dyld_cache_mapping_info`. -/
  mappingOffset : Nat
  /-- Number of `dyld_cache_mapping_info` entries. -/
  mappingCount : Nat
  /-- File offset to first `dyld_subcache_entry`. -/
  subCacheArrayOffset : Nat
  /-- Number of subcache entries. -/
  subCacheArrayCount : Nat
  /-- File offset to first `dyld_cache_image_info`. -/
  imagesOffset : Nat
  /-- Number of `dyld_cache_image_info` entries. -/
  imagesCount : Nat
  deriving DecidableEq, Repr

/-- `size_of::<dyld_cache_header>()`. -/
def DyldCacheHeader.structSize : Nat := 552

/-- How many bytes are read of it: the fields one after another, without the padding that
`structSize` counts. -/
def DyldCacheHeader.readSize : Nat := 548

def Container.dyldCacheHeader (c : Container) (offset : Nat) : Option DyldCacheHeader := do
  c.room DyldCacheHeader.readSize offset
  let mappingOffset ← c.u32 (offset + 0x10)
  let mappingCount ← c.u32 (offset + 0x14)
  let subCacheArrayOffset ← c.u32 (offset + 0x188)
  let subCacheArrayCount ← c.u32 (offset + 0x18c)
  let imagesOffset ← c.u32 (offset + 0x1c0)
  let imagesCount ← c.u32 (offset + 0x1c4)
  return { mappingOffset, mappingCount, subCacheArrayOffset, subCacheArrayCount, imagesOffset,
           imagesCount }

/-- Subcache descriptor. -/
structure DyldSubcacheEntry where
  /-- Offset of this subcache from the main cache's base address. -/
  cacheVmOffset : Nat
  deriving DecidableEq, Repr

/-- `size_of::<dyld_subcache_entry>()`. -/
def DyldSubcacheEntry.structSize : Nat := 56

def Container.dyldSubcacheEntry (c : Container) (offset : Nat) : Option DyldSubcacheEntry := do
  c.room DyldSubcacheEntry.structSize offset
  let cacheVmOffset ← c.u64 (offset + 16)
  return { cacheVmOffset }

/-- One entry per dylib embedded in the cache. -/
structure DyldCacheImageInfo where
  /-- Unslid VM address of the image's `mach_header`. -/
  address : Nat
  /-- File offset of the NUL-terminated install path. -/
  pathFileOffset : Nat
  deriving DecidableEq, Repr

/-- `size_of::<dyld_cache_image_info>()`. -/
def DyldCacheImageInfo.structSize : Nat := 32

def Container.dyldCacheImageInfo (c : Container) (offset : Nat) : Option DyldCacheImageInfo := do
  c.room DyldCacheImageInfo.structSize offset
  let address ← c.u64 offset
  let pathFileOffset ← c.u32 (offset + 24)
  return { address, pathFileOffset }

def dscHeaderRead (c : Container) : Outcome DyldCacheHeader :=
  Outcome.okOr (c.dyldCacheHeader 0) "could not deserialize dyld_cache_header"

/-! ## The size of one file -/

/-- `slice::from_raw_parts` in a little-endian container. -/
def containerAt (pointer length : Nat) : MappedContainer := ⟨⟨pointer, length⟩, .little⟩

/-- A header, and this many mappings after it. -/
def provisionalLength (mappingCount : Nat) : Nat :=
  DyldCacheHeader.structSize + mappingCount * DyldCacheMappingInfo.structSize

def readMainCacheUnslidBaseFrom (m : Mem) (headerPointer : Nat) : Outcome Nat := do
  let provisionalContainer := (containerAt headerPointer (provisionalLength 32)).view m
  let header ← dscHeaderRead provisionalContainer
  let firstMapping ← Outcome.okOr (provisionalContainer.dyldCacheMappingInfo header.mappingOffset)
    "could not read first mapping_info"
  .ok firstMapping.address

/-- The largest end of a mapping, from `entryIndex` on with this many to go. -/
def maxRuntimeEndLoop (c : Container) (mappingOffset baseAddress : Nat) :
    Nat → Nat → Nat → Outcome Nat
  | 0, _, maxRuntimeEnd => .ok maxRuntimeEnd
  | n + 1, entryIndex, maxRuntimeEnd => do
      let mapping ← Outcome.okOr
        (c.dyldCacheMappingInfo (mappingOffset + entryIndex * DyldCacheMappingInfo.structSize))
        "could not read mapping_info"
      let runtimeStart ← Outcome.sub mapping.address baseAddress
      let runtimeEnd ← Outcome.add 64 runtimeStart mapping.size
      let maxRuntimeEnd := if maxRuntimeEnd < runtimeEnd then runtimeEnd else maxRuntimeEnd
      maxRuntimeEndLoop c mappingOffset baseAddress n (entryIndex + 1) maxRuntimeEnd

def readMainCacheTotalMappedLengthFrom (m : Mem) (headerPointer : Nat) : Outcome Nat := do
  let provisionalContainer := (containerAt headerPointer (provisionalLength 64)).view m
  let header ← dscHeaderRead provisionalContainer
  let firstMapping ← Outcome.okOr (provisionalContainer.dyldCacheMappingInfo header.mappingOffset)
    "could not read first mapping_info"
  maxRuntimeEndLoop provisionalContainer header.mappingOffset firstMapping.address
    header.mappingCount 0 0

/-! ## Attaching -/

namespace MappedSubCache

/-- The subcache as it reads in this memory. -/
def view (subcache : MappedSubCache) (m : Mem) : DyldSharedSubCache where
  container := subcache.container.view m
  unslidBaseVmAddress := subcache.unslidBaseVmAddress
  mappingTableOffset := subcache.mappingTableOffset
  mappingTableEntryCount := subcache.mappingTableEntryCount

def fromRuntimeMapping (m : Mem) (runtimePointer length unslidBaseVmAddress : Nat) :
    Outcome MappedSubCache := do
  let container := containerAt runtimePointer length
  let header ← dscHeaderRead (container.view m)
  .ok { container, unslidBaseVmAddress,
        mappingTableOffset := header.mappingOffset,
        mappingTableEntryCount := header.mappingCount }

end MappedSubCache

theorem MappedSharedCache.view_subCaches (cache : MappedSharedCache) (m : Mem) :
    (cache.view m).subCaches = cache.subCaches.map fun subcache => subcache.view m := rfl

/-- The entries of the `sub_cache_array`, from `subcacheIndex` on with this many to go.
`pointer.add` must stay inside the address space, so the sum is not reduced. -/
def attachLoop (m : Mem) (mainCacheHeaderPointer mainUnslidBase : Nat) (mainCache : Container)
    (subCacheArrayOffset : Nat) : Nat → Nat → Outcome (List MappedSubCache)
  | 0, _ => .ok []
  | n + 1, subcacheIndex => do
      let entryOffset := subCacheArrayOffset + subcacheIndex * DyldSubcacheEntry.structSize
      let subcacheEntry ← Outcome.okOr (mainCache.dyldSubcacheEntry entryOffset)
        "could not deserialize dyld_subcache_entry"
      let subcacheUnslidBase ← Outcome.add 64 mainUnslidBase subcacheEntry.cacheVmOffset
      let subcacheRuntimePointer := mainCacheHeaderPointer + subcacheEntry.cacheVmOffset
      let subcacheTotalLength ← readMainCacheTotalMappedLengthFrom m subcacheRuntimePointer
      let subcache ← MappedSubCache.fromRuntimeMapping m subcacheRuntimePointer
        subcacheTotalLength subcacheUnslidBase
      let subcaches ← attachLoop m mainCacheHeaderPointer mainUnslidBase mainCache
        subCacheArrayOffset n (subcacheIndex + 1)
      .ok (subcache :: subcaches)

/-- The main cache and all of its subcaches. What a failed call leaves in `sub_caches` is never
looked at: the program ends. -/
def dyldSharedCacheAttachAll (m : Mem) (mainCacheHeaderPointer : Nat) :
    Outcome (List MappedSubCache) := do
  let mainUnslidBase ← readMainCacheUnslidBaseFrom m mainCacheHeaderPointer
  let mainTotalLength ← readMainCacheTotalMappedLengthFrom m mainCacheHeaderPointer
  let mainSubcache ← MappedSubCache.fromRuntimeMapping m mainCacheHeaderPointer mainTotalLength
    mainUnslidBase
  let mainCache := mainSubcache.container.view m
  let header ← dscHeaderRead mainCache
  let subcaches ← attachLoop m mainCacheHeaderPointer mainUnslidBase mainCache
    header.subCacheArrayOffset header.subCacheArrayCount 0
  .ok (mainSubcache :: subcaches)

/-! ## The libraries -/

/-- The images, from `imageIndex` on with this many to go. -/
def librariesIndexLoop (m : Mem) (cache : MappedSharedCache) (mainSubcache : MappedSubCache)
    (imagesOffset : Nat) : Nat → Nat → Outcome (List MappedCacheLibrary)
  | 0, _ => .ok []
  | n + 1, imageIndex => do
      let mainCache := mainSubcache.container.view m
      let imageInfoOffset := imagesOffset + imageIndex * DyldCacheImageInfo.structSize
      let imageInfo ← Outcome.okOr (mainCache.dyldCacheImageInfo imageInfoOffset)
        "could not deserialize dyld_cache_image_info"
      match ← (cache.view m).subcacheAndOffsetLocateFromAddr imageInfo.address with
      | none => librariesIndexLoop m cache mainSubcache imagesOffset n (imageIndex + 1)
      | some (subCacheIndex, machHeaderRuntimeOffset) => do
          let pathFound ← (mainSubcache.view m).runtimeOffsetForFileOffset imageInfo.pathFileOffset
          let pathRuntimeOffset ← Outcome.okOr pathFound
            "image path offset not covered by any mapping"
          -- `to_str().unwrap()` panics on a path that is not UTF-8
          let path ← mainCache.deserializeStringAtOffset pathRuntimeOffset
          let installPath : ByteRange :=
            ⟨mainSubcache.container.bytes.start + pathRuntimeOffset, path.bytes.length⟩
          let libraries ← librariesIndexLoop m cache mainSubcache imagesOffset n (imageIndex + 1)
          .ok ({ subCacheIndex, machHeaderRuntimeOffset, installPath,
                 unslidLoadAddress := imageInfo.address } :: libraries)

def mainCacheLibrariesIndexAll (m : Mem) (cache : MappedSharedCache) :
    Outcome MappedSharedCache := do
  let mainSubcache ← Outcome.orPanic cache.subCaches[0]? "index out of bounds"
  let header ← dscHeaderRead (mainSubcache.container.view m)
  let libraries ← librariesIndexLoop m cache mainSubcache header.imagesOffset header.imagesCount 0
  .ok { cache with libraries := cache.libraries ++ libraries }

/-- Initializes the view from a cache that's already mapped into our address space. -/
def MappedSharedCache.fromExisting (m : Mem) (mainCacheHeaderPointer cacheSlide : Nat) :
    Outcome MappedSharedCache := do
  let subCaches ← dyldSharedCacheAttachAll m mainCacheHeaderPointer
  mainCacheLibrariesIndexAll m { subCaches, libraries := [], cacheSlide }

end Dynld
