import Dynld.Proof.Copies
import Dynld.Proof.FixupOrder
import Dynld.Proof.WeakImports

/-!
# Loading leaves memory in use alone

The loader writes in three places: where the kernel mapped a file, in the region it
allocated for an image, and in the slots of the image's fixups. The first two are new
memory. The third is not checked by anything: a fixup of an image can lie at any
offset, and a segment can end past the region.

So what the loader may be trusted with is a condition on the files (`StaysInside`), and
under it no call of the loader, however deep and however it ends, changes a byte that
was in use when it was called. What the initializers change is their own business.
-/

namespace Dynld

open Chains (Reaches)

/-! ## What the kernel is trusted with -/

/-- New memory is not in use yet, and lies inside the address space. -/
structure Host.Sound (host : Host) : Prop where
  freshRegions : host.FreshRegions
  freshMappings : ∀ w size address, host.mmap w size = some address →
    ∀ r ∈ w.regions, ByteRange.Apart ⟨address, size⟩ r
  inSpace : ∀ w size address, host.vmAllocate w size = some address → address + size ≤ 2 ^ 64

/-- The code the loader calls does not write to this address. -/
def Host.LeavesAlone (host : Host) (x : Nat) : Prop :=
  ∀ address m, host.call address m x = m x ∧ host.tlvInitialize address m x = m x

/-- The address is in a range in use. -/
def World.InUse (w : World) (x : Nat) : Prop := ∃ r ∈ w.regions, x ∈ r

/-! ## What the files are trusted with -/

/-- What is written for this image lies in a region of this size. -/
structure ParsedImage.Inside (parsedImage : ParsedImage) (dylibDir : Option (List UInt8))
    (size : Nat) : Prop where
  segments : ∀ seg ∈ mappedSegments dylibDir.isNone parsedImage.segments.items,
    seg.vmAddr + seg.vmSize ≤ size
  fixups : ∀ fixup ∈ parsedImage.fixups, fixup.offset + imageBase dylibDir + 8 ≤ size

/-- The segments and the fixups of an image lie in the region that is allocated for it. -/
def StaysInside (c : Container) (dylibDir : Option (List UInt8)) : Prop :=
  ∀ parsedImage lo hi, c.machoParser = .ok parsedImage →
    segmentsBounds parsedImage.segments.items (2 ^ 64 - 1, 0) = .ok (lo, hi) →
    parsedImage.Inside dylibDir (hi - lo)

/-! ## What each call leaves alone -/

/-- From `w` to `w'` the byte at `x` stayed, and stayed in use, if it was in use. -/
def Spares (x : Nat) (w w' : World) : Prop := w.InUse x → w'.InUse x ∧ w'.mem x = w.mem x

theorem Spares.refl (x : Nat) (w : World) : Spares x w w := fun h => ⟨h, rfl⟩

theorem Spares.trans (x : Nat) (w w' w'' : World) (h : Spares x w w') (h' : Spares x w' w'') :
    Spares x w w'' := by
  intro hx
  obtain ⟨hx', hmem⟩ := h hx
  obtain ⟨hx'', hmem'⟩ := h' hx'
  exact ⟨hx'', hmem'.trans hmem⟩

/-- A call that only touches memory that is not in use. -/
theorem spares_of_fresh {x : Nat} {w w' : World} {r : ByteRange}
    (hregions : w'.regions = r :: w.regions) (hfresh : ∀ s ∈ w.regions, ByteRange.Apart r s)
    (hmem : x ∉ r → w'.mem x = w.mem x) : Spares x w w' := by
  rintro ⟨s, hs, hxs⟩
  refine ⟨⟨s, ?_, hxs⟩, hmem fun hxr => hfresh s hs x hxr hxs⟩
  rw [hregions]
  exact List.mem_cons_of_mem _ hs

/-- A call that uses no new memory, and leaves this byte alone. -/
theorem spares_of_kept {x : Nat} {w w' : World} (hregions : w'.regions = w.regions)
    (hmem : w'.mem x = w.mem x) : Spares x w w' := by
  rintro ⟨r, hr, hxr⟩
  exact ⟨⟨r, hregions ▸ hr, hxr⟩, hmem⟩

variable {host : Host} {cache : DyldSharedCache} {execDir : List UInt8} {executable : Container}
  {x : Nat}

theorem diskPathMmap_spares (hhost : host.Sound) (q : List UInt8) (w : World) :
    Spares x w (diskPathMmap host q w).2 := by
  refine Exec.related_bind (Spares.trans x) (Spares.refl x w) fun bytes w₁ _ => ?_
  split
  · exact Spares.refl x _
  split
  · exact Spares.refl x _
  refine Exec.related_bind (Spares.trans x) (Spares.refl x _) fun address w₂ hlift => ?_
  obtain ⟨hmmap, rfl⟩ := Exec.lift_eq_ok.mp hlift
  split
  · exact Spares.refl x _
  · have hfresh := hhost.freshMappings _ _ _ (Outcome.okOr_eq_ok.mp hmmap)
    refine spares_of_fresh rfl hfresh fun hx => ?_
    exact Mem.write_of_notMem hx

/-- A mapping that fails has touched nothing. -/
theorem machoSegmentsMapToVm_failsIdle (host : Host) (dylibDir : Option (List UInt8))
    (image : MappedContainer)
    (segments : List Segment) (w : World) :
    Exec.FailsIdle (machoSegmentsMapToVm host dylibDir image segments) w := by
  refine Exec.FailsIdle.after rfl fun bounds => ?_
  refine Exec.FailsIdle.after rfl fun vmSize => ?_
  refine Exec.FailsIdle.before ?_ fun vm w' => ⟨_, _, Exec.bind_of_ok (segmentsCopy_run _ _ _ _ _)⟩
  refine Exec.FailsIdle.after rfl fun address => ?_
  split
  · exact .inr rfl
  · exact .inl ⟨_, _, rfl⟩

/-- The region is new, so what is copied into it is not in use yet. -/
theorem machoSegmentsMapToVm_spares (hhost : host.Sound) {dylibDir : Option (List UInt8)}
    {parsedImage : ParsedImage} (image : MappedContainer)
    (hinside : ∀ lo hi, segmentsBounds parsedImage.segments.items (2 ^ 64 - 1, 0) = .ok (lo, hi) →
      parsedImage.Inside dylibDir (hi - lo)) (w : World) :
    Spares x w (machoSegmentsMapToVm host dylibDir image parsedImage.segments.items w).2 := by
  rcases machoSegmentsMapToVm_failsIdle host dylibDir image parsedImage.segments.items w
    with ⟨⟨vm, vmSize⟩, w', hrun⟩ | hidle
  · obtain ⟨lo, hi, hbounds, -, rfl, halloc, rfl⟩ := machoSegmentsMapToVm_eq_ok hrun
    rw [hrun]
    refine spares_of_fresh rfl (hhost.freshRegions _ _ _ halloc) fun hx => ?_
    have hkeep : ∀ mv ∈ (mappedSegments dylibDir.isNone parsedImage.segments.items).map
        (Segment.move image vm), x ∉ mv.target := by
      intro mv hmv hbad
      obtain ⟨seg, hmem, rfl⟩ := List.mem_map.mp hmv
      have hle := (hinside lo hi hbounds).segments seg hmem
      have hbad : vm + seg.vmAddr ≤ x ∧ x < vm + seg.vmAddr + seg.vmSize := hbad
      exact hx (ByteRange.mem_mk.mpr ⟨by omega, by omega⟩)
    exact (Mem.copyAll_of_notMem hkeep).trans (Mem.zero_of_notMem hx)
  · rw [hidle]
    exact Spares.refl x w

/-- The slot of a fixup that lies inside its region. -/
theorem fixupSlotRange_within {vm size base : Nat} {fixup : Fixup} (hspace : vm + size ≤ 2 ^ 64)
    (hin : fixup.offset + base + 8 ≤ size) :
    ByteRange.Within (fixupSlotRange vm base fixup) ⟨vm, size⟩ := by
  have hslot : fixupSlot vm base fixup = vm + fixup.offset + base := by
    unfold fixupSlot ptrAdd
    omega
  refine ByteRange.within_of_le ?_ ?_
  · show vm ≤ fixupSlot vm base fixup
    omega
  · show fixupSlot vm base fixup + 8 ≤ vm + size
    omega

theorem imageFixupsApply_spares {dylibDir : Option (List UInt8)} {vm size : Nat}
    {parsedImage : ParsedImage} (dependencies : List Library) (cache : DyldSharedCache)
    (hspace : vm + size ≤ 2 ^ 64) (hinside : parsedImage.Inside dylibDir size)
    (hx : x ∉ (⟨vm, size⟩ : ByteRange)) (w : World) :
    Spares x w (imageFixupsApply dylibDir vm parsedImage dependencies cache w).2 := by
  refine Exec.related_bind (Spares.trans x) ?_ fun _ w₁ _ => spares_of_kept rfl rfl
  refine spares_of_kept rfl ?_
  show (fixupAllChainedFixups vm (imageBase dylibDir) parsedImage.symbols dependencies
    (some fun _ => cache) false parsedImage.fixups w.mem).2 x = w.mem x
  rw [fixupAllChainedFixups_eq_run]
  refine Patch.run_keeps fun fixup hf hbad => hx ?_
  exact fixupSlotRange_within hspace (hinside.fixups fixup (List.mem_filter.mp hf).1) x hbad

theorem machoInitFunctionsExec_spares (hquiet : host.LeavesAlone x)
    (dylibDir : Option (List UInt8)) (vm : Nat) : ∀ (funcs : List Nat) (w : World),
    Spares x w (machoInitFunctionsExec host dylibDir vm funcs w).2
  | [], w => Spares.refl x w
  | func :: rest, w => by
      refine Exec.related_bind (Spares.trans x) (spares_of_kept rfl rfl) fun _ w₁ _ => ?_
      refine Exec.related_bind (Spares.trans x) (spares_of_kept rfl (hquiet _ _).1) fun _ w₂ _ => ?_
      exact machoInitFunctionsExec_spares hquiet dylibDir vm rest w₂

theorem imageFinalize_spares (hquiet : host.LeavesAlone x) (dylibDir : Option (List UInt8))
    (vm : Nat) (parsedImage : ParsedImage) (w : World) :
    Spares x w (imageFinalize host dylibDir vm parsedImage w).2 := by
  refine Exec.related_bind (Spares.trans x) ?_ fun _ w₁ _ => ?_
  · unfold imageTlvInitialize
    split
    · exact spares_of_kept rfl (hquiet _ _).2
    · exact Spares.refl x w
  refine Exec.related_bind (Spares.trans x) ?_ fun _ w₂ _ => ?_
  · rw [machoSegmentsVmProtect_trace]
    exact Spares.refl x w₁
  · exact machoInitFunctionsExec_spares hquiet _ _ _ w₂

/-! ## The loader -/

/-- What is done for an image itself, once its dependencies are loaded. -/
theorem own_spares (hhost : host.Sound) (hquiet : host.LeavesAlone x)
    {dylibDir : Option (List UInt8)} {image : MappedContainer} {parsedImage : ParsedImage}
    (hinside : ∀ lo hi, segmentsBounds parsedImage.segments.items (2 ^ 64 - 1, 0) = .ok (lo, hi) →
      parsedImage.Inside dylibDir (hi - lo)) (dylibImages : List Library) (w : World) :
    Spares x w ((do
      let (vm, vmSize) ← machoSegmentsMapToVm host dylibDir image parsedImage.segments.items
      imageFixupsApply dylibDir vm parsedImage dylibImages cache
      imageFinalize host dylibDir vm parsedImage
      pure (loaderResult dylibDir vm vmSize parsedImage) : Exec World (Nat × Nat)) w).2 := by
  intro hx
  have hmap : Spares x w _ := machoSegmentsMapToVm_spares hhost image hinside w
  refine Exec.related_bind (Spares.trans x) hmap ?_ hx
  rintro ⟨vm, vmSize⟩ w₁ hrun
  obtain ⟨lo, hi, hbounds, -, rfl, halloc, -⟩ := machoSegmentsMapToVm_eq_ok hrun
  -- the region was not in use, and `x` was
  have hout : x ∉ (⟨vm, hi - lo⟩ : ByteRange) := by
    obtain ⟨r, hr, hxr⟩ := hx
    exact fun hxv => hhost.freshRegions _ _ _ halloc r hr x hxv hxr
  refine Exec.related_bind (Spares.trans x) (imageFixupsApply_spares _ _ (hhost.inSpace _ _ _ halloc)
    (hinside lo hi hbounds) hout w₁) fun _ w₂ _ => ?_
  exact Exec.related_bind (Spares.trans x) (imageFinalize_spares hquiet _ _ _ w₂)
    fun _ w₃ _ => Spares.refl x w₃

variable (host executable) in
/-- The file of an image keeps to its region. -/
def ImageStaysInside (image : Option (List UInt8)) : Prop :=
  ∀ c, imageAt host executable image = some c → StaysInside c image

/-- One dependency, if each call of the loader for it spares `x`. -/
theorem userDylibLoad_spares (hhost : host.Sound)
    {load : MappedContainer → Option (List UInt8) → Exec World (Nat × Nat)} {rpath : Option Rpath}
    {dependency : Str × Bool}
    (hload : ∀ q image w, dependencyPath execDir rpath dependency = some q →
      imageAt host executable (some q) = some (image.view w.mem) →
      Spares x w (load image (some q) w).2) (w : World) :
    Spares x w (userDylibLoad host load execDir rpath dependency w).2 := by
  obtain ⟨installName, isSystemDylib⟩ := dependency
  cases isSystemDylib with
  | true => exact Spares.refl x w
  | false =>
      refine Exec.related_bind (Spares.trans x) (Spares.refl x w) fun q w₁ hlift => ?_
      obtain ⟨hresolve, rfl⟩ := Exec.liftM_eq_ok.mp hlift
      have hpath : dependencyPath execDir rpath (installName, false) = some q :=
        dependencyPath_eq_some.mpr ⟨rfl, hresolve⟩
      refine Exec.related_bind (Spares.trans x) (diskPathMmap_spares hhost q _)
        fun image w₂ hmmap => ?_
      refine Exec.related_bind (Spares.trans x) ?_ fun r w₃ _ => Spares.refl x w₃
      exact hload q image w₂ hpath (diskPathMmap_imageAt hmmap)

/-- **A call of the loader, whichever way it ends**, leaves the bytes in use as they were. -/
theorem machoLoader_spares (hhost : host.Sound) (hquiet : host.LeavesAlone x) : ∀ (fuel : Nat)
    (image : MappedContainer) (dylibDir : Option (List UInt8)) (w : World),
    imageAt host executable dylibDir = some (image.view w.mem) →
    (∀ i, Reaches (dependencyGraph host cache execDir executable) dylibDir i →
      ImageStaysInside host executable i) →
    Spares x w (machoLoader host cache execDir fuel image dylibDir w).2 := by
  intro fuel
  induction fuel with
  | zero =>
    intro _ _ w _ _
    exact Spares.refl x w
  | succ fuel ih =>
    intro image dylibDir w hat hfiles
    refine Exec.related_bind (Spares.trans x) (Spares.refl x w) fun parsedImage w₁ hlift => ?_
    obtain ⟨hparse, rfl⟩ := Exec.lift_eq_ok.mp hlift
    refine Exec.related_bind (Spares.trans x) (Spares.refl x _) fun dependencies w₂ hlift => ?_
    obtain ⟨hcollect, rfl⟩ := Exec.liftM_eq_ok.mp hlift
    refine Exec.related_bind (Spares.trans x) ?_ fun dylibImages w₃ _ => ?_
    · refine Exec.related_each (Spares.refl x) (Spares.trans x) fun dependency hdep w₃ => ?_
      refine userDylibLoad_spares hhost (fun q image' w₄ hpath
        (hat' : imageAt host executable (some q) = some (image'.view w₄.mem)) => ?_) w₃
      -- the dylib is one of the images this one depends on
      have hnext : some q ∈ dependencyGraph host cache execDir executable dylibDir := by
        rw [dependencyGraph_of_parse hat hparse hcollect]
        exact List.mem_map_of_mem (List.mem_filterMap.mpr ⟨dependency, hdep, hpath⟩)
      exact ih image' (some q) w₄ hat' fun i hreach => hfiles i (hreach.of_mem hnext)
    · have hinside := fun lo hi => hfiles dylibDir (.refl dylibDir) _ hat parsedImage lo hi hparse
      exact own_spares hhost hquiet hinside dylibImages w₃

/-- **Loading a program leaves memory in use alone**: if the files of the images that the executable
depends on keep to their regions, then however the call ends, no byte that was in use has changed
that the called code leaves alone. -/
theorem machoLoader_frame (hhost : host.Sound) {image : MappedContainer} {w : World}
    (hfiles : ∀ i, Reaches (dependencyGraph host cache execDir (image.view w.mem)) none i →
      ImageStaysInside host (image.view w.mem) i) (fuel : Nat) {x : Nat} (hx : w.InUse x)
    (hquiet : host.LeavesAlone x) :
    (machoLoader host cache execDir fuel image none w).2.mem x = w.mem x :=
  (machoLoader_spares hhost hquiet fuel image none w rfl hfiles hx).2

/-! ## A program whose files keep to their regions -/

/-- A kernel that goes on past all ranges in use, up to the end of the address space. -/
def sampleBoundedHost (files : List UInt8 → Option (List UInt8)) : Host :=
  { sampleHost files with
    vmAllocate := fun w size =>
      ((sampleHost files).vmAllocate w size).filter fun address => address + size ≤ 2 ^ 64 }

theorem sampleBoundedHost_vmAllocate {files : List UInt8 → Option (List UInt8)} {w : World}
    {size address : Nat} (h : (sampleBoundedHost files).vmAllocate w size = some address) :
    (sampleHost files).vmAllocate w size = some address ∧ address + size ≤ 2 ^ 64 := by
  have h : ((sampleHost files).vmAllocate w size).filter
      (fun address => decide (address + size ≤ 2 ^ 64)) = some address := h
  obtain ⟨ha, hle⟩ := Option.filter_eq_some_iff.mp h
  exact ⟨ha, of_decide_eq_true hle⟩

theorem sampleBoundedHost_sound (files : List UInt8 → Option (List UInt8)) :
    (sampleBoundedHost files).Sound where
  freshRegions := by
    intro w size address h
    exact sampleHost_fresh files w size address (sampleBoundedHost_vmAllocate h).1
  freshMappings := by
    intro w size address h r hr
    exact sampleHost_fresh files w size address h r hr
  inSpace := by
    intro w size address h
    exact (sampleBoundedHost_vmAllocate h).2

/-- An image of one segment, with fixups at these offsets. -/
theorem staysInside_of_parse {c : Container} {dylibDir : Option (List UInt8)} (offsets : List Nat)
    (size : Nat) (hparse : (c.machoParser.bind fun p =>
      .ok (p.fixups.map (·.offset), p.segments.items)) = .ok (offsets, [⟨0, 0, size, 5⟩]))
    (hoffsets : ∀ offset ∈ offsets, offset + imageBase dylibDir + 8 ≤ size) :
    StaysInside c dylibDir := by
  intro parsedImage lo hi h hbounds
  rw [h] at hparse
  obtain ⟨hfixups, hsegments⟩ := Prod.mk.inj (Outcome.ok.inj hparse)
  rw [hsegments] at hbounds
  obtain ⟨e, he, hlohi⟩ := Outcome.bind_eq_ok.mp hbounds
  obtain ⟨rfl, rfl⟩ := Prod.mk.inj (Outcome.ok.inj hlohi)
  obtain ⟨-, rfl⟩ := Outcome.add_eq_ok.mp he
  have hsize : max 0 (0 + size) - min (2 ^ 64 - 1) 0 = size := by omega
  refine ⟨fun seg hseg => ?_, fun fixup hf => ?_⟩
  · rw [hsegments] at hseg
    obtain rfl := List.mem_singleton.mp (List.mem_filter.mp hseg).1
    exact (Nat.zero_add size).trans_le hsize.ge
  · have hmem : fixup.offset ∈ offsets := hfixups ▸ List.mem_map_of_mem hf
    exact (hoffsets _ hmem).trans hsize.ge

/-- What is asked of the fixups where there are none. -/
theorem noOffsets {p : Nat → Prop} : ∀ offset ∈ ([] : List Nat), p offset :=
  fun _ h => absurd h List.not_mem_nil

/-! ## An executable, a dylib, and the dylib that it binds to -/

/-- A dylib that has `_f` at offset 4. -/
def sampleExporting : List UInt8 :=
  sampleMachO 6 2
    (Bytes.encodeFields .little [(4, 0x19), (4, 72)] ++ ascii "__TEXT" ++ List.replicate 10 0
    ++ Bytes.encodeFields .little
      [(8, 0), (8, 130), (8, 0), (8, 130), (4, 5), (4, 5), (4, 0), (4, 0),
       (4, 0x80000033), (4, 16), (4, 120), (4, 10)]
    ++ [0, 1, 0x5f, 0x66, 0, 6, 2, 0, 4, 0])

/-- `/d` binds one word to `_f` of `/m`. -/
def sampleBindingFile (path : List UInt8) : Option (List UInt8) :=
  if path = ascii "/d" ++ [0] then some sampleWeakBytes
  else if path = ascii "/m" ++ [0] then some sampleExporting
  else none

def sampleBindingExecutable : List UInt8 := sampleLinked 2 [] ["/d"]

def sampleBindingImage : MappedContainer := ⟨⟨0x1000, sampleBindingExecutable.length⟩, .little⟩

theorem sampleBinding_view : sampleBindingImage.view (sampleWorld sampleBindingExecutable).mem
    = ⟨sampleBindingExecutable, .little⟩ := by decide +kernel

theorem sampleBinding_staysInside (image : Option (List UInt8)) :
    ImageStaysInside (sampleBoundedHost sampleBindingFile) ⟨sampleBindingExecutable, .little⟩
      image := by
  intro c hc
  cases image with
  | none =>
      obtain rfl := Option.some.inj hc
      exact staysInside_of_parse [] 16 (by decide +kernel) noOffsets
  | some path =>
      obtain ⟨bytes, hbytes, rfl⟩ := Option.map_eq_some_iff.mp hc
      have hbytes : sampleBindingFile path = some bytes := hbytes
      unfold sampleBindingFile at hbytes
      split at hbytes
      · obtain rfl := Option.some.inj hbytes
        refine staysInside_of_parse [224] 232 (by decide +kernel) fun offset hoffset => ?_
        obtain rfl := List.mem_singleton.mp hoffset
        rfl
      split at hbytes
      · obtain rfl := Option.some.inj hbytes
        exact staysInside_of_parse [] 130 (by decide +kernel) noOffsets
      · exact absurd hbytes (by simp)

theorem sampleBinding_inUse (x : Nat) (hx : x ∈ sampleBindingImage.bytes) :
    (sampleWorld sampleBindingExecutable).InUse x := by
  refine ⟨sampleBindingImage.bytes, ?_, hx⟩
  exact List.mem_singleton_self _

/-- The first byte of the executable's own file is still there. -/
theorem sampleBinding_frame :
    (machoLoader (sampleBoundedHost sampleBindingFile) sampleNoCache [] 4 sampleBindingImage none
      (sampleWorld sampleBindingExecutable)).2.mem 0x1000
      = (sampleWorld sampleBindingExecutable).mem 0x1000 :=
  machoLoader_frame (sampleBoundedHost_sound _)
    (fun i _ => sampleBinding_view ▸ sampleBinding_staysInside i) 4
    (sampleBinding_inUse 0x1000 (ByteRange.mem_def.mpr ⟨by decide, by decide +kernel⟩))
    fun _ _ => ⟨rfl, rfl⟩

end Dynld
