import Dynld.Lib.Records
import Dynld.Proof.LoaderSteps
import Dynld.ThreadLocals

/-!
# The table of images

`libtlv` keeps the key of each image in a buffer that is moved to a larger one when it is
full. The table stands for a list of pairs (`TableAt`): registering an image appends to
it, and a lookup finds the first pair with the key. No entry is lost when the buffer
moves, and nothing else that is in use is written.
-/

namespace Dynld

/-- What `malloc` and the thread package are trusted with. -/
structure Libc.Sound (libc : Libc) : Prop where
  malloc : ∀ s size address, libc.malloc s size = some address →
    address ≠ 0 ∧ address + size ≤ 2 ^ 64 ∧ ∀ r ∈ s.live, ByteRange.Apart ⟨address, size⟩ r
  keyCreate : ∀ s key, libc.pthreadKeyCreate s = some key → key ≠ 0 ∧ key < 2 ^ 64 ∧ key ∉ s.keys

/-- The address is in a range in use. -/
def Tlv.InUse (s : Tlv) (x : Nat) : Prop := ∃ r ∈ s.live, x ∈ r

/-- The buffer of the table. -/
def Tlv.tableRange (s : Tlv) : ByteRange :=
  ⟨s.liveImages, tlvImageInfoSize * s.liveImageAllocCount⟩

/-- The table has these pairs of a key and a Mach header. -/
structure TableAt (s : Tlv) (images : List (Nat × Nat)) : Prop where
  used : s.liveImageUsedCount = images.length
  fits : images.length ≤ s.liveImageAllocCount
  grown : s.liveImageAllocCount ≤ 8 ∨ s.liveImageAllocCount ≤ 2 * images.length
  none : s.liveImages = 0 → s.liveImageAllocCount = 0
  buffer : s.liveImages ≠ 0 → s.tableRange ∈ s.live ∧ 0 < s.liveImageAllocCount
  pairs : s.mem.PairsAt s.liveImages images

/-! ## Lookup -/

theorem tlvGetImageForKeyLoop_eq {m : Mem} {liveImages key : Nat} {images : List (Nat × Nat)}
    (h : m.PairsAt liveImages images) : ∀ {remaining i : Nat}, i + remaining = images.length →
    tlvGetImageForKeyLoop m liveImages key remaining i
      = (((images.drop i).find? fun p => p.1 == key).map (·.2)).getD 0 := by
  intro remaining
  induction remaining with
  | zero =>
    intro i hi
    rw [tlvGetImageForKeyLoop, List.drop_eq_nil_of_le (by omega)]
    rfl
  | succ remaining ih =>
    intro i hi
    have hlt : i < images.length := by omega
    obtain ⟨hk, hv⟩ := h i images[i] (List.getElem?_eq_getElem hlt)
    have hk : m.readWord 8 (liveImages + tlvImageInfoSize * i) = images[i].1 := hk
    rw [tlvGetImageForKeyLoop, List.drop_eq_getElem_cons hlt, List.find?_cons]
    by_cases hkey : images[i].1 = key
    · rw [if_pos (hk.trans hkey), beq_iff_eq.mpr hkey]
      exact hv
    · rw [if_neg fun hbad => hkey (hk.symm.trans hbad), beq_eq_false_iff_ne.mpr hkey]
      exact ih (by omega)

/-- A lookup finds the first image with the key. -/
theorem TableAt.get {s : Tlv} {images : List (Nat × Nat)} (h : TableAt s images) (key : Nat) :
    tlvGetImageForKey s key = ((images.find? fun p => p.1 == key).map (·.2)).getD 0 := by
  rw [tlvGetImageForKey, h.used, tlvGetImageForKeyLoop_eq h.pairs (Nat.zero_add _), List.drop_zero]

/-- With a new key, the last image is found. -/
theorem TableAt.get_last {s : Tlv} {images : List (Nat × Nat)} {key mh : Nat}
    (h : TableAt s (images ++ [(key, mh)])) (hnew : ∀ p ∈ images, p.1 ≠ key) :
    tlvGetImageForKey s key = mh := by
  have hnone : images.find? (fun p => p.1 == key) = Option.none :=
    List.find?_eq_none.mpr fun p hp hbad => hnew p hp (beq_iff_eq.mp hbad)
  rw [h.get, List.find?_append, hnone]
  simp

/-! ## Registering an image -/

/-- From `s` to `s'` only the table and new memory were written. -/
structure TableStep (s s' : Tlv) : Prop where
  mem : ∀ x, s.InUse x → x ∉ s.tableRange → s'.mem x = s.mem x
  live : ∀ r ∈ s.live, (s.liveImages ≠ 0 → r.start ≠ s.liveImages) → r ∈ s'.live
  /-- The buffer is the one from before, or it is new. -/
  range : s'.tableRange = s.tableRange ∨ ∀ r ∈ s.live, ByteRange.Apart s'.tableRange r
  keys : s'.keys = s.keys
  specific : s'.specific = s.specific
  called : s'.called = s.called

/-- The last entry is written. -/
def Tlv.pushImage (s : Tlv) (mh key : Nat) : Tlv :=
  { s with
    mem := s.mem.writePair (s.liveImages + tlvImageInfoSize * s.liveImageUsedCount) key mh
    liveImageUsedCount := (s.liveImageUsedCount + 1) % 2 ^ 32 }

theorem tlvSetKeyForImage_eq_ok {libc : Libc} {mh key : Nat} {s s' : Tlv} :
    tlvSetKeyForImage libc mh key s = (.ok (), s') ↔
      ∃ s₁, liveImagesReserve libc s = (.ok (), s₁) ∧ s' = s₁.pushImage mh key := by
  unfold tlvSetKeyForImage
  rw [Exec.bind_eq_ok]
  constructor
  · rintro ⟨_, s₁, hr, hpush⟩
    exact ⟨s₁, hr, (Prod.mk.inj hpush).2.symm⟩
  · rintro ⟨s₁, hr, rfl⟩
    exact ⟨(), s₁, hr, rfl⟩

/-- The table after it was moved to a new buffer. -/
def Tlv.moveImages (s : Tlv) (newBuffer : Nat) : Tlv :=
  { s with
    mem := if s.liveImages = 0 then s.mem
      else s.mem.copy s.liveImages newBuffer (tlvImageInfoSize * s.liveImageUsedCount)
    live := if s.liveImages = 0 then ⟨newBuffer, tlvImageInfoSize * s.newImageCount⟩ :: s.live
      else (⟨newBuffer, tlvImageInfoSize * s.newImageCount⟩ :: s.live).filter fun r =>
        r.start != s.liveImages
    liveImages := newBuffer
    liveImageAllocCount := s.newImageCount }

theorem tlvMalloc_eq_ok {libc : Libc} {size address : Nat} {s s' : Tlv} :
    Tlv.malloc libc size s = (.ok address, s') ↔
      libc.malloc s size = some address ∧ s' = { s with live := ⟨address, size⟩ :: s.live } := by
  unfold Tlv.malloc
  rw [Exec.bind_eq_ok]
  constructor
  · rintro ⟨a, s₁, hlift, hrest⟩
    obtain ⟨hmalloc, rfl⟩ := Exec.lift_eq_ok.mp hlift
    obtain ⟨ha, rfl⟩ := Prod.mk.inj hrest
    obtain rfl := Outcome.ok.inj ha
    exact ⟨Outcome.orPanic_eq_ok.mp hmalloc, rfl⟩
  · rintro ⟨hmalloc, rfl⟩
    exact ⟨address, s, Exec.lift_eq_ok.mpr ⟨Outcome.orPanic_eq_ok.mpr hmalloc, rfl⟩, rfl⟩

/-- Room is made by moving the table, if it is full. -/
theorem liveImagesReserve_eq_ok {libc : Libc} {s s' : Tlv}
    (h : liveImagesReserve libc s = (.ok (), s')) :
    (s.liveImageUsedCount ≠ s.liveImageAllocCount ∧ s' = s) ∨
    (s.liveImageUsedCount = s.liveImageAllocCount ∧ ∃ newBuffer,
      libc.malloc s (tlvImageInfoSize * s.newImageCount) = some newBuffer ∧
      s' = s.moveImages newBuffer) := by
  obtain ⟨s₀, s₁, hlift, h⟩ := Exec.bind_eq_ok.mp h
  obtain ⟨hs, rfl⟩ := Exec.lift_eq_ok.mp hlift
  obtain rfl : s₁ = s₀ := Outcome.ok.inj hs
  split at h
  · rename_i hfull
    obtain ⟨newBuffer, s₂, hrun, h⟩ := Exec.bind_eq_ok.mp h
    obtain ⟨hmalloc, rfl⟩ := tlvMalloc_eq_ok.mp hrun
    refine .inr ⟨hfull, newBuffer, hmalloc, ?_⟩
    unfold Tlv.moveImages
    split at h
    · rename_i hnull
      rw [if_pos hnull, if_pos hnull]
      exact (Prod.mk.inj h).2.symm
    · rename_i hnull
      rw [if_neg hnull, if_neg hnull]
      exact (Prod.mk.inj h).2.symm
  · rename_i hroom
    exact .inl ⟨hroom, (Prod.mk.inj h).2.symm⟩

theorem TableStep.refl (s : Tlv) : TableStep s s :=
  ⟨fun _ _ _ => rfl, fun _ h _ => h, .inl rfl, rfl, rfl, rfl⟩

section

variable {libc : Libc} {s s' : Tlv} {images : List (Nat × Nat)} {newBuffer : Nat}

/-- A full table is doubled, and an empty one gets eight entries. -/
theorem TableAt.newImageCount (hs : TableAt s images) (hcount : images.length < 2 ^ 31)
    (hfull : s.liveImageUsedCount = s.liveImageAllocCount) :
    images.length < s.newImageCount ∧ (s.newImageCount ≤ 8 ∨ s.newImageCount ≤ 2 * images.length) := by
  have hused := hs.used
  unfold Tlv.newImageCount
  by_cases hnull : s.liveImages = 0
  · have hnone := hs.none hnull
    rw [if_pos hnull]
    omega
  · have hpos := (hs.buffer hnull).2
    rw [if_neg hnull]
    omega

/-- The new buffer is apart from the old one. -/
theorem TableAt.moved_ne (hs : TableAt s images) (hnew : 0 < s.newImageCount)
    (hfresh : ∀ r ∈ s.live, ByteRange.Apart ⟨newBuffer, tlvImageInfoSize * s.newImageCount⟩ r)
    (hnull : s.liveImages ≠ 0) : newBuffer ≠ s.liveImages := by
  obtain ⟨hlive, hpos⟩ := hs.buffer hnull
  intro heq
  refine hfresh _ hlive newBuffer ?_ ?_
  · exact ByteRange.mem_mk.mpr ⟨Nat.le_refl _, by unfold tlvImageInfoSize; omega⟩
  · exact ByteRange.mem_mk.mpr ⟨heq.ge, by unfold tlvImageInfoSize; omega⟩

theorem TableAt.move (hs : TableAt s images) (hcount : images.length < 2 ^ 31)
    (hfull : s.liveImageUsedCount = s.liveImageAllocCount) (hne : newBuffer ≠ 0)
    (hfresh : ∀ r ∈ s.live, ByteRange.Apart ⟨newBuffer, tlvImageInfoSize * s.newImageCount⟩ r) :
    TableAt (s.moveImages newBuffer) images ∧ TableStep s (s.moveImages newBuffer) := by
  obtain ⟨hroom, hgrown⟩ := hs.newImageCount hcount hfull
  have hout : ∀ x, s.InUse x →
      x ∉ (⟨newBuffer, tlvImageInfoSize * s.newImageCount⟩ : ByteRange) :=
    fun x ⟨r, hr, hx⟩ hbad => hfresh r hr x hbad hx
  have hused := hs.used
  by_cases hnull : s.liveImages = 0
  · -- the table was empty
    have hnil : images = [] := by
      have hnone := hs.none hnull
      exact List.length_eq_zero_iff.mp (by omega)
    have hlive : (s.moveImages newBuffer).live
        = ⟨newBuffer, tlvImageInfoSize * s.newImageCount⟩ :: s.live := if_pos hnull
    refine ⟨⟨hs.used, hroom.le, hgrown, fun h => absurd h hne, fun _ => ⟨?_, ?_⟩, ?_⟩,
      ⟨fun x _ _ => ?_, fun r hr _ => ?_, .inr hfresh, rfl, rfl, rfl⟩⟩
    · rw [hlive]
      exact List.mem_cons_self
    · exact Nat.zero_lt_of_lt hroom
    · rw [hnil]
      exact Mem.PairsAt.nil _ _
    · exact congrFun (if_pos hnull) x
    · rw [hlive]
      exact List.mem_cons_of_mem _ hr
  · have hlive : (s.moveImages newBuffer).live
        = (⟨newBuffer, tlvImageInfoSize * s.newImageCount⟩ :: s.live).filter fun r =>
          r.start != s.liveImages := if_neg hnull
    have hmem : (s.moveImages newBuffer).mem
        = s.mem.copy s.liveImages newBuffer (16 * images.length) := by
      rw [← hs.used]
      exact if_neg hnull
    have hmoved := hs.moved_ne (Nat.zero_lt_of_lt hroom) hfresh hnull
    refine ⟨⟨hs.used, hroom.le, hgrown, fun h => absurd h hne, fun _ => ⟨?_, ?_⟩, ?_⟩,
      ⟨fun x hx _ => ?_, fun r hr hstart => ?_, .inr hfresh, rfl, rfl, rfl⟩⟩
    · rw [hlive]
      exact List.mem_filter.mpr ⟨List.mem_cons_self, bne_iff_ne.mpr hmoved⟩
    · exact Nat.zero_lt_of_lt hroom
    · rw [hmem]
      exact hs.pairs.copy
    · rw [hmem]
      refine Mem.copy_of_notMem fun hbad => hout x hx (ByteRange.within_mk (Nat.le_refl _) ?_ x hbad)
      exact Nat.add_le_add_left (Nat.mul_le_mul_left _ hroom.le) _
    · rw [hlive]
      exact List.mem_filter.mpr ⟨List.mem_cons_of_mem _ hr, bne_iff_ne.mpr (hstart hnull)⟩

/-- **Registering an image** appends it to the table, and writes nothing else that is in use. -/
theorem tlvSetKeyForImage_appends (hlibc : libc.Sound) {mh key : Nat} (hs : TableAt s images)
    (hkey : key < 2 ^ 64) (hmh : mh < 2 ^ 64) (hcount : images.length < 2 ^ 31)
    (h : tlvSetKeyForImage libc mh key s = (.ok (), s')) :
    TableAt s' (images ++ [(key, mh)]) ∧ TableStep s s' := by
  obtain ⟨s₁, hreserve, rfl⟩ := tlvSetKeyForImage_eq_ok.mp h
  have hreserved : TableAt s₁ images ∧ images.length < s₁.liveImageAllocCount ∧ TableStep s s₁ := by
    rcases liveImagesReserve_eq_ok hreserve with ⟨hroom, rfl⟩ | ⟨hfull, newBuffer, hmalloc, rfl⟩
    · have hle := hs.fits
      have hused := hs.used
      exact ⟨hs, by omega, TableStep.refl s₁⟩
    · obtain ⟨hne, -, hfresh⟩ := hlibc.malloc _ _ _ hmalloc
      obtain ⟨hat, hstep⟩ := hs.move hcount hfull hne hfresh
      exact ⟨hat, (hs.newImageCount hcount hfull).1, hstep⟩
  obtain ⟨hat, hroom, hstep⟩ := hreserved
  have hused := hat.used
  have hlen : (images ++ [(key, mh)]).length = images.length + 1 := by simp
  have hmem : (s₁.pushImage mh key).mem
      = s₁.mem.writePair (s₁.liveImages + 16 * images.length) key mh := by
    rw [← hat.used]
    rfl
  refine ⟨⟨?_, ?_, ?_, hat.none, hat.buffer, ?_⟩, ⟨?_, hstep.live, hstep.range, hstep.keys,
    hstep.specific, hstep.called⟩⟩
  · rw [hlen]
    show (s₁.liveImageUsedCount + 1) % 2 ^ 32 = images.length + 1
    omega
  · rw [hlen]
    exact hroom
  · rw [hlen]
    exact hat.grown.imp id fun h => h.trans (by omega)
  · rw [hmem]
    exact hat.pairs.push hkey hmh
  · intro x hx hout
    rw [hmem, Mem.writePair_of_notMem fun hbad => ?_]
    · exact hstep.mem x hx hout
    -- the entry is in the buffer
    · have hin : x ∈ s₁.tableRange := ByteRange.within_mk (Nat.le_add_right _ _)
        (by unfold tlvImageInfoSize; omega) x hbad
      rcases hstep.range with heq | hfresh
      · exact hout (heq ▸ hin)
      · obtain ⟨r, hr, hxr⟩ := hx
        exact hfresh r hr x hin hxr

end

/-! ## Registering many images -/

/-- A range in use that is not the table's. -/
structure Tlv.Clear (s : Tlv) (r : ByteRange) : Prop where
  live : r ∈ s.live
  pos : 0 < r.len
  apart : ByteRange.Apart s.tableRange r

/-- The bytes are in such a range. -/
def Tlv.Covers (s : Tlv) (range : ByteRange) : Prop := ∃ r, s.Clear r ∧ ByteRange.Within range r

/-- From `s` to `s'` the thread local storage was left alone, and so were all ranges but the
table's. -/
structure KeepsClear (s s' : Tlv) : Prop where
  clear : ∀ r, s.Clear r → s'.Clear r ∧ ∀ x ∈ r, s'.mem x = s.mem x
  specific : s'.specific = s.specific
  called : s'.called = s.called

theorem KeepsClear.refl (s : Tlv) : KeepsClear s s := ⟨fun _ h => ⟨h, fun _ _ => rfl⟩, rfl, rfl⟩

theorem KeepsClear.trans (s s' s'' : Tlv) (h : KeepsClear s s') (h' : KeepsClear s' s'') :
    KeepsClear s s'' := by
  refine ⟨fun r hr => ?_, h'.specific.trans h.specific, h'.called.trans h.called⟩
  obtain ⟨hr', hmem⟩ := h.clear r hr
  obtain ⟨hr'', hmem'⟩ := h'.clear r hr'
  exact ⟨hr'', fun x hx => (hmem' x hx).trans (hmem x hx)⟩

theorem KeepsClear.covers {s s' : Tlv} (h : KeepsClear s s') {range : ByteRange}
    (hr : s.Covers range) : s'.Covers range ∧ ∀ x ∈ range, s'.mem x = s.mem x := by
  obtain ⟨r, hclear, hin⟩ := hr
  obtain ⟨hclear', hmem⟩ := h.clear r hclear
  exact ⟨⟨r, hclear', hin⟩, fun x hx => hmem x (hin x hx)⟩

theorem TableStep.keepsClear {s s' : Tlv} {images : List (Nat × Nat)} (hs : TableAt s images)
    (h : TableStep s s') : KeepsClear s s' := by
  refine ⟨fun r hr => ⟨⟨h.live r hr.live fun hnull hstart => ?_, hr.pos, ?_⟩, fun x hx => ?_⟩,
    h.specific, h.called⟩
  · -- both ranges would start with the same byte
    have hpos := (hs.buffer hnull).2
    have hlen := hr.pos
    refine hr.apart r.start (ByteRange.mem_mk.mpr ⟨hstart.ge, ?_⟩)
      (ByteRange.mem_def.mpr ⟨Nat.le_refl _, by omega⟩)
    unfold tlvImageInfoSize
    omega
  · rcases h.range with heq | hfresh
    · rw [heq]
      exact hr.apart
    · exact hfresh r hr.live
  · exact h.mem x ⟨r, hr.live, hx⟩ fun hbad => hr.apart x hbad hx

/-- Register images, each with its key. -/
def tlvSetKeys (libc : Libc) (images : List (Nat × Nat)) : Exec Tlv (List Unit) :=
  Exec.each (fun image => tlvSetKeyForImage libc image.2 image.1) images

/-- **No image is lost**, however often the table is moved: after any number of images were
registered, a lookup finds the first one with the key, and no other range in use was touched. -/
theorem tlvSetKeys_lookup {libc : Libc} (hlibc : libc.Sound) : ∀ {images old : List (Nat × Nat)}
    {s s' : Tlv} {us : List Unit}, TableAt s old →
    (∀ image ∈ images, image.1 < 2 ^ 64 ∧ image.2 < 2 ^ 64) →
    old.length + images.length ≤ 2 ^ 31 → tlvSetKeys libc images s = (.ok us, s') →
    (∀ key, tlvGetImageForKey s' key
      = (((old ++ images).find? fun image => image.1 == key).map (·.2)).getD 0) ∧
    KeepsClear s s' := by
  intro images
  induction images with
  | nil =>
    intro old s s' us hs _ _ h
    obtain ⟨-, rfl⟩ := Prod.mk.inj h
    rw [List.append_nil]
    exact ⟨hs.get, KeepsClear.refl s⟩
  | cons image images ih =>
    intro old s s' us hs hwords hcount h
    rw [List.length_cons] at hcount
    obtain ⟨_, s₁, hset, h⟩ := Exec.bind_eq_ok.mp h
    obtain ⟨us', s₂, hrest, h⟩ := Exec.bind_eq_ok.mp h
    obtain rfl : s₂ = s' := (Prod.mk.inj h).2
    obtain ⟨hkey, hmh⟩ := hwords image List.mem_cons_self
    obtain ⟨hs₁, hstep⟩ := tlvSetKeyForImage_appends hlibc hs hkey hmh (by omega) hset
    have hlen : (old ++ [image]).length + images.length ≤ 2 ^ 31 := by
      rw [List.length_append, List.length_singleton]
      omega
    obtain ⟨hget, hkeeps⟩ := ih hs₁ (fun i hi => hwords i (List.mem_cons_of_mem _ hi)) hlen hrest
    refine ⟨fun key => ?_, KeepsClear.trans _ _ _ (hstep.keepsClear hs) hkeeps⟩
    rw [hget, List.append_assoc]
    rfl

/-! ## A small process -/

/-- `malloc` goes on past all ranges in use, and keys are numbered from 256 on. -/
def sampleLibc : Libc where
  tlvGetAddr := 0x7000
  malloc := fun s size =>
    let address := (s.live.map fun r => r.start + r.len).foldr max 1
    if address + size ≤ 2 ^ 64 then some address else none
  pthreadKeyCreate := fun s =>
    let key := s.keys.foldr max 255 + 1
    if key < 2 ^ 64 then some key else none
  call := fun _ _ mem => mem

theorem sampleLibc_sound : sampleLibc.Sound where
  malloc := by
    intro s size address h
    obtain ⟨hle, rfl⟩ : (s.live.map fun r => r.start + r.len).foldr max 1 + size ≤ 2 ^ 64 ∧
        (s.live.map fun r => r.start + r.len).foldr max 1 = address := by
      simpa [sampleLibc] using h
    refine ⟨foldr_max_ne_zero _, hle, fun r hr => ?_⟩
    have hend : r.start + r.len ≤ (s.live.map fun r => r.start + r.len).foldr max 1 :=
      le_foldr_max (List.mem_map.mpr ⟨r, hr, rfl⟩)
    exact (ByteRange.apart_of_le hend).symm
  keyCreate := by
    intro s key h
    obtain ⟨hlt, rfl⟩ : s.keys.foldr max 255 + 1 < 2 ^ 64 ∧ s.keys.foldr max 255 + 1 = key := by
      simpa [sampleLibc] using h
    refine ⟨Nat.succ_ne_zero _, hlt, fun hmem => ?_⟩
    have hle : s.keys.foldr max 255 + 1 ≤ s.keys.foldr max 255 := le_foldr_max hmem
    omega

/-- No image is registered yet. -/
def sampleProcess (mem : Mem) (live : List ByteRange) : Tlv where
  mem := mem
  live := live
  liveImages := 0
  liveImageAllocCount := 0
  liveImageUsedCount := 0
  keys := []
  specific := fun _ _ => 0
  terminatorsKey := 0
  called := []
  destroyed := []

theorem sampleProcess_table (mem : Mem) (live : List ByteRange) :
    TableAt (sampleProcess mem live) [] :=
  ⟨rfl, Nat.le_refl 0, .inl (Nat.zero_le 8), fun _ => rfl, fun h => absurd rfl h,
    Mem.PairsAt.nil _ _⟩

/-- Nine images, one more than there is room for at first. -/
def sampleImages : List (Nat × Nat) := (List.range 9).map fun i => (256 + i, 0x1000 * (i + 1))

theorem sampleImages_lookup :
    let s' := (tlvSetKeys sampleLibc sampleImages
      (sampleProcess (fun _ => 0) [⟨0x1000, 16⟩])).2
    (∀ key, tlvGetImageForKey s' key
      = ((sampleImages.find? fun image => image.1 == key).map (·.2)).getD 0) ∧
    KeepsClear (sampleProcess (fun _ => 0) [⟨0x1000, 16⟩]) s' := by
  have hok : (tlvSetKeys sampleLibc sampleImages (sampleProcess (fun _ => 0) [⟨0x1000, 16⟩])).1
      = .ok (List.replicate 9 ()) := by decide +kernel
  exact tlvSetKeys_lookup sampleLibc_sound (sampleProcess_table _ _) (by decide) (by decide)
    (Exec.eq_of_fst hok)

end Dynld
