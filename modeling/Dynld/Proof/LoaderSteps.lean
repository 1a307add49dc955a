import Dynld.Loader

/-!
# What each call of the loader does to the world

One lemma for each function: when it returns, what the world is afterwards. The trace
only ever grows, and the loader itself never takes a range out of use.
-/

namespace Dynld

variable {host : Host} {w w' : World}

/-! ## Bringing ranges into use -/

/-- The world after the file of a dylib was mapped at `address`. -/
def World.afterMmap (w : World) (path : List UInt8) (address : Nat) (bytes : List UInt8) : World where
  mem := w.mem.write address bytes
  regions := ⟨address, bytes.length⟩ :: w.regions
  trace := w.trace ++ [.opened path]

theorem diskPathMmap_eq_ok {path : List UInt8} {image : MappedContainer}
    (h : diskPathMmap host path w = (.ok image, w')) :
    ∃ bytes address, host.file path = some bytes ∧ host.mmap w bytes.length = some address ∧
      image = ⟨⟨address, bytes.length⟩, .little⟩ ∧ w' = w.afterMmap path address bytes := by
  obtain ⟨bytes, w₁, hopen, h₁⟩ := Exec.bind_eq_ok.mp h
  obtain ⟨hfile, rfl⟩ := Exec.liftM_eq_ok.mp hopen
  split at h₁
  · simp at h₁
  split at h₁
  · simp at h₁
  obtain ⟨address, w₂, hlift, h₂⟩ := Exec.bind_eq_ok.mp h₁
  obtain ⟨hmmap, rfl⟩ := Exec.lift_eq_ok.mp hlift
  split at h₂
  · simp at h₂
  have hmod := Prod.mk.inj h₂
  refine ⟨bytes, address, Outcome.okOr_eq_ok.mp hfile, Outcome.okOr_eq_ok.mp hmmap, ?_, ?_⟩
  · exact (Outcome.ok.inj hmod.1).symm
  · exact hmod.2.symm

/-- A file that is there is mapped wherever the kernel finds room for it. -/
theorem diskPathMmap_of_mmap {path bytes : List UInt8} {address : Nat}
    (hfile : host.file path = some bytes) (hstat : host.fstat path = true)
    (hbytes : bytes.length ≠ 0) (hmmap : host.mmap w bytes.length = some address)
    (haddress : address ≠ 0) :
    diskPathMmap host path w
      = (.ok ⟨⟨address, bytes.length⟩, .little⟩, w.afterMmap path address bytes) := by
  refine Exec.bind_eq_ok.mpr
    ⟨bytes, w, Exec.liftM_eq_ok.mpr ⟨Outcome.okOr_eq_ok.mpr hfile, rfl⟩, ?_⟩
  rw [hstat, if_neg (by decide), if_neg hbytes]
  refine Exec.bind_eq_ok.mpr
    ⟨address, w, Exec.lift_eq_ok.mpr ⟨Outcome.okOr_eq_ok.mpr hmmap, rfl⟩, ?_⟩
  rw [if_neg haddress]
  rfl

/-- The world after a region for `image` was allocated. -/
def World.afterAlloc (w : World) (image : Option (List UInt8)) (region : ByteRange) : World where
  mem := w.mem.zero region.start region.len
  regions := region :: w.regions
  trace := w.trace ++ [.mapped image region]

theorem vmAllocTaskSelf_eq_ok {image : Option (List UInt8)} {size address : Nat}
    (h : vmAllocTaskSelf host image size w = (.ok address, w')) :
    host.vmAllocate w size = some address ∧ w' = w.afterAlloc image ⟨address, size⟩ := by
  obtain ⟨a, w₁, hlift, h₁⟩ := Exec.bind_eq_ok.mp h
  obtain ⟨halloc, rfl⟩ := Exec.lift_eq_ok.mp hlift
  split at h₁
  · simp at h₁
  have hmod := Prod.mk.inj h₁
  obtain rfl : a = address := Outcome.ok.inj hmod.1
  exact ⟨Outcome.okOr_eq_ok.mp halloc, hmod.2.symm⟩

/-! ## Mapping -/

/-- The segments that are copied. -/
def mappedSegments (skipPageZero : Bool) (segments : List Segment) : List Segment :=
  segments.filter fun seg => !(skipPageZero && seg.vmAddr == 0)

/-- The copy that is made for a segment. -/
def Segment.move (image : MappedContainer) (vm : Nat) (seg : Segment) : Mem.Move where
  src := image.bytes.start + seg.fileOffset
  dst := vm + seg.vmAddr
  len := seg.vmSize

def moveEvent (mv : Mem.Move) : Event := .copied mv.src mv.dst mv.len

/-- The world after some blocks were copied. -/
def World.afterMoves (w : World) (moves : List Mem.Move) : World :=
  { w with mem := w.mem.copyAll moves, trace := w.trace ++ moves.map moveEvent }

theorem segmentsCopy_run (skipPageZero : Bool) (image : MappedContainer) (vm : Nat) :
    ∀ (segments : List Segment) (w : World), segmentsCopy skipPageZero image vm segments w
      = (.ok (), w.afterMoves ((mappedSegments skipPageZero segments).map (Segment.move image vm))) := by
  intro segments
  induction segments with
  | nil =>
    intro w
    simp [segmentsCopy, mappedSegments, World.afterMoves, Mem.copyAll]
  | cons seg rest ih =>
    intro w
    rw [segmentsCopy]
    by_cases hskip : (skipPageZero && seg.vmAddr == 0) = true
    · rw [if_pos hskip, ih, mappedSegments, mappedSegments,
        List.filter_cons_of_neg (by rw [hskip]; decide)]
    · rw [if_neg hskip, mappedSegments,
        List.filter_cons_of_pos (by rw [Bool.eq_false_iff.mpr hskip]; rfl)]
      have hcopy : vmCopyIntoTaskSelf (image.bytes.start + seg.fileOffset) (vm + seg.vmAddr)
          seg.vmSize w = (.ok (), w.afterMoves [seg.move image vm]) := rfl
      rw [Exec.bind_of_ok hcopy, ih]
      simp [World.afterMoves, Mem.copyAll, mappedSegments]

/-- **Mapping**: a region of the right size is allocated, then the segments are copied to it. -/
theorem machoSegmentsMapToVm_eq_ok {dylibDir : Option (List UInt8)} {image : MappedContainer}
    {segments : List Segment} {vm vmSize : Nat}
    (h : machoSegmentsMapToVm host dylibDir image segments w = (.ok (vm, vmSize), w')) :
    ∃ minAddr maxAddr, segmentsBounds segments (2 ^ 64 - 1, 0) = .ok (minAddr, maxAddr) ∧
      minAddr ≤ maxAddr ∧ vmSize = maxAddr - minAddr ∧ host.vmAllocate w vmSize = some vm ∧
      w' = (w.afterAlloc dylibDir ⟨vm, vmSize⟩).afterMoves
        ((mappedSegments dylibDir.isNone segments).map (Segment.move image vm)) := by
  obtain ⟨⟨minAddr, maxAddr⟩, w₁, hlift₁, h₁⟩ := Exec.bind_eq_ok.mp h
  obtain ⟨hbounds, rfl⟩ := Exec.liftM_eq_ok.mp hlift₁
  obtain ⟨size, w₂, hlift₂, h₂⟩ := Exec.bind_eq_ok.mp h₁
  obtain ⟨hsub, rfl⟩ := Exec.liftM_eq_ok.mp hlift₂
  obtain ⟨address, w₃, hlift₃, h₃⟩ := Exec.bind_eq_ok.mp h₂
  obtain ⟨halloc, rfl⟩ := vmAllocTaskSelf_eq_ok hlift₃
  obtain ⟨_, w₄, hcopy, h₄⟩ := Exec.bind_eq_ok.mp h₃
  rw [segmentsCopy_run] at hcopy
  have hmod := Prod.mk.inj h₄
  obtain ⟨rfl, rfl⟩ : address = vm ∧ size = vmSize := Prod.mk.inj (Outcome.ok.inj hmod.1)
  refine ⟨minAddr, maxAddr, hbounds, (Outcome.sub_eq_ok.mp hsub).1,
    (Outcome.sub_eq_ok.mp hsub).2, halloc, ?_⟩
  rw [← hmod.2]
  exact (Prod.mk.inj hcopy).2.symm

/-! ## Finishing an image -/

theorem machoSegmentsVmProtect_eq_ok {vm : Nat} : ∀ {segments : List Segment} {w w' : World},
    machoSegmentsVmProtect host vm segments w = (.ok (), w') → w' = w := by
  intro segments
  induction segments with
  | nil =>
    intro _ _ h
    exact (Prod.mk.inj h).2.symm
  | cons seg rest ih =>
    intro w w' h
    obtain ⟨agreed, w₁, hlift, h₁⟩ := Exec.bind_eq_ok.mp h
    obtain ⟨-, rfl⟩ := Exec.lift_eq_ok.mp hlift
    split at h₁
    · exact ih h₁
    · simp at h₁

/-- What is noted when an initializer is called. -/
def calledEvent (dylibDir : Option (List UInt8)) (vm func : Nat) : Event :=
  .called dylibDir func (ptrAdd (ptrAdd vm func) pageZeroSize)

theorem machoInitFunctionsExec_run (dylibDir : Option (List UInt8)) (vm : Nat) :
    ∀ (funcs : List Nat) (w : World), ∃ mem,
      machoInitFunctionsExec host dylibDir vm funcs w = (.ok (),
        { mem, regions := w.regions, trace := w.trace ++ funcs.map (calledEvent dylibDir vm) }) := by
  intro funcs
  induction funcs with
  | nil =>
    intro w
    exact ⟨w.mem, by simp [machoInitFunctionsExec]⟩
  | cons func rest ih =>
    intro w
    obtain ⟨mem, hrest⟩ := ih
      { w.note (calledEvent dylibDir vm func) with
        mem := host.call (ptrAdd (ptrAdd vm func) pageZeroSize) w.mem }
    refine ⟨mem, ?_⟩
    have hhead : machoInitFunctionsExec host dylibDir vm (func :: rest) w
        = machoInitFunctionsExec host dylibDir vm rest
          { w.note (calledEvent dylibDir vm func) with
            mem := host.call (ptrAdd (ptrAdd vm func) pageZeroSize) w.mem } := rfl
    rw [hhead, hrest]
    simp [World.note]

/-- Finishing an image notes the calls of its initializers. -/
theorem imageFinalize_eq_ok {dylibDir : Option (List UInt8)} {vm : Nat} {parsedImage : ParsedImage}
    (h : imageFinalize host dylibDir vm parsedImage w = (.ok (), w')) :
    w'.regions = w.regions ∧
      w'.trace = w.trace ++ parsedImage.initFunctions.map (calledEvent dylibDir vm) := by
  obtain ⟨_, w₁, htlv, h⟩ := Exec.bind_eq_ok.mp h
  obtain ⟨_, w₂, hprotect, h⟩ := Exec.bind_eq_ok.mp h
  have htlv : w₁.regions = w.regions ∧ w₁.trace = w.trace := by
    unfold imageTlvInitialize at htlv
    split at htlv
    · rw [← (Prod.mk.inj htlv).2]
      exact ⟨rfl, rfl⟩
    · rw [← (Prod.mk.inj htlv).2]
      exact ⟨rfl, rfl⟩
  obtain ⟨mem, hinit⟩ := @machoInitFunctionsExec_run host dylibDir vm
    parsedImage.initFunctions w₂
  rw [h] at hinit
  rw [(Prod.mk.inj hinit).2, machoSegmentsVmProtect_eq_ok hprotect]
  exact ⟨htlv.1, by rw [htlv.2]⟩

/-- Where the Mach header is, from the start of the region of an image. -/
def imageBase (dylibDir : Option (List UInt8)) : Nat :=
  if dylibDir.isNone then pageZeroSize else 0

/-- The fixups of an image are applied with the address of its Mach header as the base. -/
theorem imageFixupsApply_run {dylibDir : Option (List UInt8)} {vm : Nat} {parsedImage : ParsedImage}
    {dependencies : List Library} {dyldSharedCache : DyldSharedCache} {w w' : World}
    (h : imageFixupsApply dylibDir vm parsedImage dependencies dyldSharedCache w = (.ok (), w')) :
    fixupAllChainedFixups vm (imageBase dylibDir) parsedImage.symbols dependencies
      (some fun _ => dyldSharedCache) false parsedImage.fixups w.mem = (.ok (), w'.mem) := by
  obtain ⟨_, w₁, happly, h₁⟩ := Exec.bind_eq_ok.mp h
  obtain ⟨hok, rfl⟩ := Prod.mk.inj happly
  rw [← (Prod.mk.inj h₁).2]
  exact Exec.eq_of_fst hok

theorem imageFixupsApply_eq_ok {dylibDir : Option (List UInt8)} {vm : Nat}
    {parsedImage : ParsedImage} {dependencies : List Library} {dyldSharedCache : DyldSharedCache}
    (h : imageFixupsApply dylibDir vm parsedImage dependencies dyldSharedCache w = (.ok (), w')) :
    w'.regions = w.regions ∧ w'.trace = w.trace ++ [.fixedUp dylibDir] := by
  obtain ⟨_, w₁, happly, h⟩ := Exec.bind_eq_ok.mp h
  rw [← (Prod.mk.inj h).2, ← (Prod.mk.inj happly).2]
  exact ⟨rfl, rfl⟩

/-! ## The loader -/

theorem dependenciesLoop_eq_ok {cache : DyldSharedCache} : ∀ {libraries : List (Str × Nat)}
    {dependencies dependencies' : ArrayVec (Str × Bool) 32},
    dependenciesLoop cache libraries dependencies = .ok dependencies' →
      dependencies'.items = dependencies.items
        ++ libraries.map fun library => (library.1, cache.isLibraryCached library.1.bytes) := by
  intro libraries
  induction libraries with
  | nil =>
    intro dependencies dependencies' h
    obtain rfl := Outcome.ok.inj h
    simp
  | cons head rest ih =>
    intro dependencies dependencies' h
    obtain ⟨libName, offset⟩ := head
    unfold dependenciesLoop at h
    split at h
    · simp at h
    · obtain ⟨pushed, hpush, h⟩ := Outcome.bind_eq_ok.mp h
      rw [ih h, ArrayVec.push_eq_ok hpush]
      simp

/-- The dependencies of an image are its libraries, in order. -/
theorem dependenciesCollect_eq_ok {cache : DyldSharedCache} {parsedImage : ParsedImage}
    {dependencies : ArrayVec (Str × Bool) 32}
    (h : dependenciesCollect parsedImage cache = .ok dependencies) :
    dependencies.items = (parsedImage.libraries.items.map (·.1)).map
      fun name => (name, cache.isLibraryCached name.bytes) := by
  rw [dependenciesLoop_eq_ok h, List.map_map]
  rfl

/-- What a call of the loader that returned has done, step by step. -/
structure LoaderRun (host : Host) (cache : DyldSharedCache) (execDir : List UInt8) (fuel : Nat)
    (image : MappedContainer) (dylibDir : Option (List UInt8)) (w w' : World) (r : Nat × Nat) where
  parsedImage : ParsedImage
  dependencies : ArrayVec (Str × Bool) 32
  dylibImages : List Library
  vm : Nat
  vmSize : Nat
  /-- The world with the dependencies loaded, then with the segments mapped, then with the fixups
  applied. -/
  loaded : World
  mapped : World
  fixedUp : World
  parse_eq : (image.view w.mem).machoParser = .ok parsedImage
  collect_eq : dependenciesCollect parsedImage cache = .ok dependencies
  load_eq : userDylibsLoadRecursively host (machoLoader host cache execDir fuel) execDir
    parsedImage.rpath dependencies.items w = (.ok dylibImages, loaded)
  map_eq : machoSegmentsMapToVm host dylibDir image parsedImage.segments.items loaded
    = (.ok (vm, vmSize), mapped)
  fixup_eq : imageFixupsApply dylibDir vm parsedImage dylibImages cache mapped
    = (.ok (), fixedUp)
  finalize_eq : imageFinalize host dylibDir vm parsedImage fixedUp = (.ok (), w')
  result_eq : r = loaderResult dylibDir vm vmSize parsedImage

/-- Once the image is parsed and its dependencies are collected, the loader goes on with them. -/
theorem machoLoader_of_collect {cache : DyldSharedCache} {execDir : List UInt8} {fuel : Nat}
    {image : MappedContainer} {dylibDir : Option (List UInt8)} {parsedImage : ParsedImage}
    {dependencies : ArrayVec (Str × Bool) 32}
    (hparse : (image.view w.mem).machoParser = .ok parsedImage)
    (hcollect : dependenciesCollect parsedImage cache = .ok dependencies) :
    machoLoader host cache execDir (fuel + 1) image dylibDir w = (do
      let dylibImages ← userDylibsLoadRecursively host (machoLoader host cache execDir fuel)
        execDir parsedImage.rpath dependencies.items
      let (vm, vmSize) ← machoSegmentsMapToVm host dylibDir image parsedImage.segments.items
      imageFixupsApply dylibDir vm parsedImage dylibImages cache
      imageFinalize host dylibDir vm parsedImage
      pure (loaderResult dylibDir vm vmSize parsedImage) : Exec World (Nat × Nat)) w := by
  have hlift : Exec.lift (fun w : World => (image.view w.mem).machoParser) w
      = (.ok parsedImage, w) := Exec.lift_eq_ok.mpr ⟨hparse, rfl⟩
  exact (Exec.bind_of_ok hlift).trans (Exec.bind_of_ok (Exec.liftM_eq_ok.mpr ⟨hcollect, rfl⟩))

/-- **A call of the loader returns only after every one of its steps returned.** -/
theorem machoLoader_eq_ok {cache : DyldSharedCache} {execDir : List UInt8} {fuel : Nat}
    {image : MappedContainer} {dylibDir : Option (List UInt8)} {r : Nat × Nat}
    (h : machoLoader host cache execDir fuel image dylibDir w = (.ok r, w')) :
    ∃ n, fuel = n + 1 ∧ Nonempty (LoaderRun host cache execDir n image dylibDir w w' r) := by
  cases fuel with
  | zero => exact absurd (Prod.mk.inj h).1 (by simp)
  | succ n =>
      obtain ⟨parsedImage, w₁, hlift₁, h₁⟩ := Exec.bind_eq_ok.mp h
      obtain ⟨hparse, rfl⟩ := Exec.lift_eq_ok.mp hlift₁
      obtain ⟨dependencies, w₂, hlift₂, h₂⟩ := Exec.bind_eq_ok.mp h₁
      obtain ⟨hcollect, rfl⟩ := Exec.liftM_eq_ok.mp hlift₂
      obtain ⟨dylibImages, loaded, hload, h₃⟩ := Exec.bind_eq_ok.mp h₂
      obtain ⟨⟨vm, vmSize⟩, mapped, hmap, h₄⟩ := Exec.bind_eq_ok.mp h₃
      obtain ⟨_, fixedUp, hfixup, h₅⟩ := Exec.bind_eq_ok.mp h₄
      obtain ⟨_, finished, hfinalize, h₆⟩ := Exec.bind_eq_ok.mp h₅
      obtain ⟨hr, rfl⟩ := Prod.mk.inj h₆
      exact ⟨n, rfl, ⟨⟨parsedImage, dependencies, dylibImages, vm, vmSize, loaded, mapped, fixedUp,
        hparse, hcollect, hload, hmap, hfixup, hfinalize, (Outcome.ok.inj hr).symm⟩⟩⟩

/-! ## Small images and hosts -/

/-- A Mach-O file: its header, and what follows. -/
def sampleMachO (filetype ncmds : Nat) (rest : List UInt8) : List UInt8 :=
  Bytes.encodeFields .little
    [(4, 0xfeedfacf), (4, 0x0100000c), (4, 0), (4, filetype), (4, ncmds), (4, 0), (4, 0), (4, 0)]
    ++ rest

/-- A load command for a name of two bytes. -/
def sampleDylibCommand (cmd : Nat) (name : String) : List UInt8 :=
  Bytes.encodeFields .little [(4, cmd), (4, 32), (4, 24), (4, 0), (4, 0), (4, 0)]
    ++ ascii name ++ List.replicate 6 0

/-- An image with one text segment, the initializers of its one section, and a library for each of
these names. -/
def sampleLinked (filetype : Nat) (initFunctions : List Nat) (names : List String) : List UInt8 :=
  sampleMachO filetype (names.length + 1)
    (Bytes.encodeFields .little [(4, 0x19), (4, 152)] ++ ascii "__TEXT" ++ List.replicate 10 0
    ++ Bytes.encodeFields .little
      [(8, 0), (8, 16), (8, 0), (8, 16), (4, 5), (4, 5), (4, 1), (4, 0)]
    ++ List.replicate 32 0
    ++ Bytes.encodeFields .little
      [(8, 0), (8, 4 * initFunctions.length), (4, 184 + 32 * names.length), (4, 0), (4, 0), (4, 0),
       (4, 0x16), (4, 0), (4, 0), (4, 0)]
    ++ names.flatMap (sampleDylibCommand 0xc)
    ++ Bytes.encodeFields .little (initFunctions.map fun func => (4, func)))

/-- A kernel that goes on past all ranges in use. -/
def sampleHost (files : List UInt8 → Option (List UInt8)) : Host where
  file := files
  fstat := fun _ => true
  mmap := fun w _ => some ((w.regions.map fun r => r.start + r.len).foldr max 1)
  vmAllocate := fun w _ => some ((w.regions.map fun r => r.start + r.len).foldr max 1)
  vmProtect := fun _ _ _ _ => true
  call := fun _ mem => mem
  tlvInitialize := fun _ mem => mem

theorem le_foldr_max {a b : Nat} : ∀ {l : List Nat}, a ∈ l → a ≤ l.foldr max b
  | x :: l, h => by
      rcases List.mem_cons.mp h with rfl | h
      · exact Nat.le_max_left _ _
      · exact Nat.le_trans (le_foldr_max h) (Nat.le_max_right _ _)

theorem foldr_max_ne_zero (l : List Nat) : l.foldr max 1 ≠ 0 := by
  cases l with
  | nil => decide
  | cons x l =>
      have h : 1 ≤ l.foldr max 1 := Nat.one_le_iff_ne_zero.mpr (foldr_max_ne_zero l)
      exact Nat.one_le_iff_ne_zero.mp (Nat.le_trans h (Nat.le_max_right _ _))

/-- One image at `0x1000`, and nothing else. -/
def sampleWorld (bytes : List UInt8) : World where
  mem := Mem.write (fun _ => 0) 0x1000 bytes
  regions := [⟨0x1000, bytes.length⟩]
  trace := []

/-- A cache of no libraries. -/
def sampleNoCache : DyldSharedCache := ⟨[], [], 0⟩

end Dynld
