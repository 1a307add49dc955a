import Dynld.Proof.ThreadImages
import Dynld.Proof.ThreadTables

/-!
# The descriptors of an image

When an image is loaded, each of its descriptors gets the thunk and the key of the image,
and keeps its offset. The key is created when the first descriptors are found, and the
image is registered with it; an image without descriptors gets no key.
-/

namespace Dynld

/-! ## Many pairs -/

/-- The same pair is written to each of these places. -/
def writeDescriptors (thunk key : Nat) (ds : List Nat) (m : Mem) : Mem :=
  ds.foldl (fun m d => m.writePair d thunk key) m

section

variable {thunk key : Nat} {ds : List Nat} {m : Mem}

theorem writeDescriptors_of_notMem {x : Nat} (h : ∀ d ∈ ds, x ∉ (⟨d, 16⟩ : ByteRange)) :
    writeDescriptors thunk key ds m x = m x := by
  induction ds generalizing m with
  | nil => rfl
  | cons d ds ih =>
      have hrest := ih (m := m.writePair d thunk key) fun e he => h e (List.mem_cons_of_mem d he)
      exact hrest.trans (Mem.writePair_of_notMem (h d List.mem_cons_self))

theorem writeDescriptors_cons {d : Nat} : writeDescriptors thunk key (d :: ds) m
    = writeDescriptors thunk key ds (m.writePair d thunk key) := rfl

theorem writeDescriptors_append {ds' : List Nat} :
    writeDescriptors thunk key (ds ++ ds') m
      = writeDescriptors thunk key ds' (writeDescriptors thunk key ds m) :=
  List.foldl_append

/-- Pairs that do not overlap are all there. -/
theorem readWord_writeDescriptors (hthunk : thunk < 2 ^ 64) (hkey : key < 2 ^ 64)
    (hd : ds.Pairwise fun d e => ByteRange.Apart ⟨d, 24⟩ ⟨e, 24⟩) {d : Nat} (hmem : d ∈ ds) :
    (writeDescriptors thunk key ds m).readWord 8 d = thunk ∧
      (writeDescriptors thunk key ds m).readWord 8 (d + 8) = key := by
  induction ds generalizing m with
  | nil => exact absurd hmem List.not_mem_nil
  | cons e ds ih =>
      obtain ⟨he, hrest⟩ := List.pairwise_cons.mp hd
      rw [writeDescriptors_cons]
      rcases List.mem_cons.mp hmem with rfl | hmem
      · -- the other pairs are elsewhere
        have hkeep : ∀ x ∈ (⟨d, 24⟩ : ByteRange),
            writeDescriptors thunk key ds (m.writePair d thunk key) x
              = m.writePair d thunk key x :=
          fun x hx => writeDescriptors_of_notMem fun e' he' hbad =>
            he e' he' x hx (ByteRange.within_mk (Nat.le_refl _) (by omega) x hbad)
        obtain ⟨hlo, hhi⟩ := Mem.readWord_writePair (m := m) (a := d) hthunk hkey
        refine ⟨Eq.trans (Mem.readWord_congr fun x hx => ?_) hlo,
          Eq.trans (Mem.readWord_congr fun x hx => ?_) hhi⟩
        · exact hkeep x (ByteRange.within_mk (Nat.le_refl _) (by omega) x hx)
        · exact hkeep x (ByteRange.within_mk (by omega) (by omega) x hx)
      · exact ih hrest hmem

end

/-- The process once these descriptors are initialized. -/
def Tlv.withDescriptors (s : Tlv) (thunk key : Nat) (ds : List Nat) : Tlv :=
  { s with mem := writeDescriptors thunk key ds s.mem }

@[simp] theorem withDescriptors_specific (s : Tlv) (thunk key : Nat) (ds : List Nat) :
    (s.withDescriptors thunk key ds).specific = s.specific := rfl

theorem withDescriptors_mem {s : Tlv} {thunk key x : Nat} {ds : List Nat}
    (h : ∀ d ∈ ds, x ∉ (⟨d, 16⟩ : ByteRange)) : (s.withDescriptors thunk key ds).mem x = s.mem x :=
  writeDescriptors_of_notMem h

theorem Tlv.Clear.withDescriptors {s : Tlv} {thunk key : Nat} {ds : List Nat} {r : ByteRange}
    (h : s.Clear r) : (s.withDescriptors thunk key ds).Clear r := ⟨h.live, h.pos, h.apart⟩

theorem descriptorsInitialize_run (libc : Libc) (key : Nat) : ∀ (ds : List Nat) (s : Tlv),
    descriptorsInitialize libc key ds s = (.ok (), s.withDescriptors libc.tlvGetAddr key ds)
  | [], _ => rfl
  | _ :: ds, _ => descriptorsInitialize_run libc key ds _

/-! ## The descriptors of a section -/

/-- The section has descriptors. -/
def hasVariables (m : Mem) (sect : Nat) : Bool :=
  flagsType (m.readWord 4 (sect + 64)) == sThreadLocalVariables && m.readWord 8 (sect + 40) != 0

/-- The descriptors of a section that has them. -/
def sectionDescriptors (m : Mem) (sect : Slide × Nat) : List Nat :=
  let addr := m.readWord 8 (sect.2 + 32)
  let size := m.readWord 8 (sect.2 + 40)
  if hasVariables m sect.2 then
    descriptorAddresses (sect.1.apply addr) (sect.1.apply (addr + size))
  else []

/-- The sections of the image at this address. -/
def imageSectionsAt (m : Mem) (mh : Nat) : List (Slide × Nat) :=
  imageSections m mh (m.readWord 4 (mh + 16)) (mh + 32) none

/-- The descriptors of the image at this address. -/
def imageDescriptors (m : Mem) (mh : Nat) : List Nat :=
  (imageSectionsAt m mh).flatMap (sectionDescriptors m)

section

variable {libc : Libc} {m : Mem} {header : ByteRange} {mh key : Nat} {sect : Slide × Nat} {s s' : Tlv}

theorem hasVariables_congr {sect : Nat} (h : AgreeOn header m s.mem)
    (hin : ByteRange.Within ⟨sect, 80⟩ header) : hasVariables s.mem sect = hasVariables m sect := by
  have hflags : s.mem.readWord 4 (sect + 64) = m.readWord 4 (sect + 64) :=
    h.readWord (within_field hin (by omega) (by omega))
  have hsize : s.mem.readWord 8 (sect + 40) = m.readWord 8 (sect + 40) :=
    h.readWord (within_field hin (by omega) (by omega))
  unfold hasVariables
  rw [hflags, hsize]

/-- A section without descriptors is passed over. -/
theorem descriptorSectionVisit_none (h : AgreeOn header m s.mem)
    (hin : ByteRange.Within ⟨sect.2, 80⟩ header) (hnone : hasVariables m sect.2 = false) :
    sectionVisit (descriptorSectionVisit libc mh) sect key s = (.ok key, s) := by
  rw [← hasVariables_congr h hin] at hnone
  unfold sectionVisit descriptorSectionVisit
  rw [Exec.bind_of_ok (show Tlv.read 4 (sect.2 + 64) s = (.ok _, s) from rfl)]
  split
  · rename_i htype
    rw [Exec.bind_of_ok (show Tlv.read 8 (sect.2 + 40) s = (.ok _, s) from rfl)]
    split
    · rfl
    · rename_i hsize
      unfold hasVariables at hnone
      rw [beq_iff_eq.mpr htype, bne_iff_ne.mpr hsize] at hnone
      exact absurd hnone (by decide)
  · rfl

/-- The descriptors of a section get the key of the image. -/
theorem descriptorSectionVisit_some (h : AgreeOn header m s.mem)
    (hin : ByteRange.Within ⟨sect.2, 80⟩ header) (hsome : hasVariables m sect.2 = true) {key' : Nat}
    (hvisit : sectionVisit (descriptorSectionVisit libc mh) sect key s = (.ok key', s')) :
    ∃ s₁, imageKey libc mh key s = (.ok key', s₁) ∧ (AgreeOn header m s₁.mem →
      s' = s₁.withDescriptors libc.tlvGetAddr key' (sectionDescriptors m sect)) := by
  rw [← hasVariables_congr h hin] at hsome
  have hsome' := hsome
  unfold hasVariables at hsome
  rw [Bool.and_eq_true, beq_iff_eq, bne_iff_ne] at hsome
  unfold sectionVisit descriptorSectionVisit at hvisit
  rw [Exec.bind_of_ok (show Tlv.read 4 (sect.2 + 64) s = (.ok _, s) from rfl), if_pos hsome.1,
    Exec.bind_of_ok (show Tlv.read 8 (sect.2 + 40) s = (.ok _, s) from rfl),
    if_neg hsome.2] at hvisit
  obtain ⟨key₁, s₁, hkey, hrest⟩ := Exec.bind_eq_ok.mp hvisit
  rw [Exec.bind_of_ok (show Tlv.read 8 (sect.2 + 32) s₁ = (.ok _, s₁) from rfl),
    Exec.bind_of_ok (show Tlv.read 8 (sect.2 + 40) s₁ = (.ok _, s₁) from rfl),
    Exec.bind_of_ok (descriptorsInitialize_run _ _ _ _)] at hrest
  obtain ⟨hk, rfl⟩ := Prod.mk.inj hrest
  obtain rfl := Outcome.ok.inj hk
  refine ⟨s₁, hkey, fun h₁ => ?_⟩
  have haddr : s₁.mem.readWord 8 (sect.2 + 32) = m.readWord 8 (sect.2 + 32) :=
    h₁.readWord (within_field hin (by omega) (by omega))
  have hsize : s₁.mem.readWord 8 (sect.2 + 40) = m.readWord 8 (sect.2 + 40) :=
    h₁.readWord (within_field hin (by omega) (by omega))
  rw [hasVariables_congr h hin] at hsome'
  unfold sectionDescriptors
  rw [if_pos hsome', haddr, hsize]

/-- The key is created, and the image registered with it, only once. -/
theorem imageKey_eq_ok {key' : Nat} (h : imageKey libc mh key s = (.ok key', s')) :
    (key ≠ 0 ∧ key' = key ∧ s' = s) ∨
    (key = 0 ∧ libc.pthreadKeyCreate s = some key' ∧
      tlvSetKeyForImage libc mh key' { s with keys := key' :: s.keys } = (.ok (), s')) := by
  unfold imageKey at h
  split at h
  · rename_i hzero
    obtain ⟨key₁, s₁, hlift, h₁⟩ := Exec.bind_eq_ok.mp h
    obtain ⟨hcreate, rfl⟩ := Exec.lift_eq_ok.mp hlift
    rw [Exec.modify_bind] at h₁
    obtain ⟨_, s₂, hset, h₂⟩ := Exec.bind_eq_ok.mp h₁
    obtain ⟨hk, rfl⟩ := Prod.mk.inj h₂
    obtain rfl := Outcome.ok.inj hk
    exact .inr ⟨hzero, Outcome.orPanic_eq_ok.mp hcreate, hset⟩
  · rename_i hne
    obtain ⟨hk, rfl⟩ := Prod.mk.inj h
    exact .inl ⟨hne, (Outcome.ok.inj hk).symm, rfl⟩

end

/-! ## All sections of an image -/

/-- The header of every section is among the load commands. -/
theorem sectionAddresses_within {header : ByteRange} : ∀ {remaining first sect : Nat},
    ByteRange.Within ⟨first, 80 * remaining⟩ header → sect ∈ sectionAddresses remaining first →
      ByteRange.Within ⟨sect, 80⟩ header
  | 0, _, _, _, h => absurd h List.not_mem_nil
  | remaining + 1, first, sect, hin, h => by
      rcases List.mem_cons.mp h with rfl | h
      · exact within_field hin (Nat.le_refl _) (by omega)
      · exact sectionAddresses_within (within_field hin (by omega) (by omega)) h

theorem imageSections_within {m : Mem} {mh : Nat} {header : ByteRange} : ∀ {remaining cmd : Nat}
    {slide : Slide} {sect : Slide × Nat}, CommandsWithin m header remaining cmd →
    sect ∈ imageSections m mh remaining cmd slide → ByteRange.Within ⟨sect.2, 80⟩ header
  | 0, _, _, _, _, h => absurd h List.not_mem_nil
  | remaining + 1, cmd, slide, sect, ⟨hcmd, hseg, hrest⟩, h => by
      rcases List.mem_append.mp h with h | h
      · obtain ⟨address, haddress, rfl⟩ := List.mem_map.mp h
        unfold commandSections at haddress
        split at haddress
        · rename_i his
          exact sectionAddresses_within (within_field (hseg his) (by omega) (by omega)) haddress
        · exact absurd haddress List.not_mem_nil
      · exact imageSections_within hrest h

section

variable {libc : Libc} {m : Mem} {header : ByteRange} {mh key key' : Nat} {s s' : Tlv}

theorem withDescriptors_agree (thunk key : Nat) {ds : List Nat} (h : AgreeOn header m s.mem)
    (hds : ∀ d ∈ ds, ByteRange.Apart ⟨d, 16⟩ header) :
    AgreeOn header m (s.withDescriptors thunk key ds).mem := by
  intro x hx
  exact (withDescriptors_mem fun d hd hbad => hds d hd x hbad hx).trans (h x hx)

/-- Once the image has its key, the rest of its descriptors get it too. -/
theorem descriptorSections_of_key (hkey : key ≠ 0) : ∀ {sects : List (Slide × Nat)} {s s' : Tlv},
    (∀ sect ∈ sects, ByteRange.Within ⟨sect.2, 80⟩ header) →
    (∀ d ∈ sects.flatMap (sectionDescriptors m), ByteRange.Apart ⟨d, 16⟩ header) →
    AgreeOn header m s.mem →
    Exec.fold (sectionVisit (descriptorSectionVisit libc mh)) sects key s = (.ok key', s') →
    key' = key ∧ s' = s.withDescriptors libc.tlvGetAddr key (sects.flatMap (sectionDescriptors m)) := by
  intro sects
  induction sects with
  | nil =>
    intro s s' _ _ _ h
    obtain ⟨hk, rfl⟩ := Prod.mk.inj h
    exact ⟨(Outcome.ok.inj hk).symm, rfl⟩
  | cons sect sects ih =>
    intro s s' hin hds hagree h
    have hin' : ∀ sect ∈ sects, ByteRange.Within ⟨sect.2, 80⟩ header :=
      fun sect' h' => hin sect' (List.mem_cons_of_mem sect h')
    rw [List.flatMap_cons] at hds ⊢
    have hds' := fun d hd => hds d (List.mem_append_right _ hd)
    obtain ⟨key₁, s₁, hvisit, hrest⟩ := Exec.bind_eq_ok.mp h
    cases hvars : hasVariables m sect.2 with
    | false =>
        rw [descriptorSectionVisit_none hagree (hin sect List.mem_cons_self) hvars] at hvisit
        obtain ⟨hk, rfl⟩ := Prod.mk.inj hvisit
        obtain rfl := Outcome.ok.inj hk
        have hnil : sectionDescriptors m sect = [] := by
          unfold sectionDescriptors
          rw [if_neg (by rw [hvars]; decide)]
        rw [hnil, List.nil_append]
        exact ih hin' hds' hagree hrest
    | true =>
        obtain ⟨s₂, himage, hs₁⟩ :=
          descriptorSectionVisit_some hagree (hin sect List.mem_cons_self) hvars hvisit
        rcases imageKey_eq_ok himage with ⟨-, rfl, rfl⟩ | ⟨hzero, -⟩
        · obtain rfl := hs₁ hagree
          have hagree₁ := withDescriptors_agree libc.tlvGetAddr key₁ hagree
            fun d hd => hds d (List.mem_append_left _ hd)
          obtain ⟨rfl, rfl⟩ := ih hin' hds' hagree₁ hrest
          refine ⟨rfl, ?_⟩
          unfold Tlv.withDescriptors
          rw [writeDescriptors_append]
        · exact absurd hzero hkey

/-- A section without descriptors has none. -/
theorem sectionDescriptors_none {sect : Slide × Nat} (h : hasVariables m sect.2 = false) :
    sectionDescriptors m sect = [] := by
  unfold sectionDescriptors
  rw [if_neg (by rw [h]; decide)]

variable {images : List (Nat × Nat)}

/-- The image before its descriptors: it has a key, and is registered. -/
structure Registered (libc : Libc) (s s₁ : Tlv) (mh key : Nat) (images : List (Nat × Nat)) :
    Prop where
  created : libc.pthreadKeyCreate s = some key
  table : TableAt s₁ (images ++ [(key, mh)])
  keeps : KeepsClear s s₁

theorem imageKey_registers (hlibc : libc.Sound) (hs : TableAt s images) (hmh : mh < 2 ^ 64)
    (hcount : images.length < 2 ^ 31) (h : imageKey libc mh 0 s = (.ok key', s')) :
    Registered libc s s' mh key' images := by
  rcases imageKey_eq_ok h with ⟨hne, -⟩ | ⟨-, hcreate, hset⟩
  · exact absurd rfl hne
  · have hs₁ : TableAt { s with keys := key' :: s.keys } images :=
      ⟨hs.used, hs.fits, hs.grown, hs.none, hs.buffer, hs.pairs⟩
    obtain ⟨htable, hstep⟩ := tlvSetKeyForImage_appends hlibc hs₁
      (hlibc.keyCreate s key' hcreate).2.1 hmh hcount hset
    have hkeeps := hstep.keepsClear hs₁
    refine ⟨hcreate, htable, fun r hr => hkeeps.clear r ⟨hr.live, hr.pos, hr.apart⟩, ?_, ?_⟩
    · exact hkeeps.specific
    · exact hkeeps.called

/-- **All sections of an image**: either none has descriptors, or the first of those that have them
brings about the key, and all descriptors get it. -/
theorem descriptorSections_eq_ok (hlibc : libc.Sound) (hmh : mh < 2 ^ 64)
    (hcount : images.length < 2 ^ 31) (hheader : s.Covers header) (hs : TableAt s images)
    (hagree : AgreeOn header m s.mem) : ∀ {sects : List (Slide × Nat)},
    (∀ sect ∈ sects, ByteRange.Within ⟨sect.2, 80⟩ header) →
    (∀ d ∈ sects.flatMap (sectionDescriptors m), ByteRange.Apart ⟨d, 16⟩ header) →
    Exec.fold (sectionVisit (descriptorSectionVisit libc mh)) sects 0 s = (.ok key', s') →
    ((∀ sect ∈ sects, hasVariables m sect.2 = false) ∧ s' = s) ∨
    ∃ s₁, (∃ sect ∈ sects, hasVariables m sect.2 = true) ∧ Registered libc s s₁ mh key' images ∧
      s' = s₁.withDescriptors libc.tlvGetAddr key' (sects.flatMap (sectionDescriptors m)) := by
  intro sects
  induction sects with
  | nil =>
    intro _ _ h
    exact .inl ⟨fun _ hsect => absurd hsect List.not_mem_nil, (Prod.mk.inj h).2.symm⟩
  | cons sect sects ih =>
    intro hin hds h
    have hin' : ∀ sect ∈ sects, ByteRange.Within ⟨sect.2, 80⟩ header :=
      fun sect' h' => hin sect' (List.mem_cons_of_mem sect h')
    rw [List.flatMap_cons] at hds ⊢
    have hds' := fun d hd => hds d (List.mem_append_right _ hd)
    obtain ⟨key₁, s₁, hvisit, hrest⟩ := Exec.bind_eq_ok.mp h
    cases hvars : hasVariables m sect.2 with
    | false =>
        rw [descriptorSectionVisit_none hagree (hin sect List.mem_cons_self) hvars] at hvisit
        obtain ⟨hk, rfl⟩ := Prod.mk.inj hvisit
        obtain rfl := Outcome.ok.inj hk
        rw [sectionDescriptors_none hvars, List.nil_append]
        rcases ih hin' hds' hrest with ⟨hnone, hs'⟩ | ⟨s₂, ⟨sect', hsect', hsome⟩, hreg, hs'⟩
        · refine .inl ⟨fun sect' hsect' => ?_, hs'⟩
          rcases List.mem_cons.mp hsect' with rfl | hsect'
          · exact hvars
          · exact hnone sect' hsect'
        · exact .inr ⟨s₂, ⟨sect', List.mem_cons_of_mem _ hsect', hsome⟩, hreg, hs'⟩
    | true =>
        obtain ⟨s₂, himage, hs₁⟩ :=
          descriptorSectionVisit_some hagree (hin sect List.mem_cons_self) hvars hvisit
        have hreg := imageKey_registers hlibc hs hmh hcount himage
        have hagree₂ : AgreeOn header m s₂.mem := fun x hx =>
          ((hreg.keeps.covers hheader).2 x hx).trans (hagree x hx)
        obtain rfl := hs₁ hagree₂
        have hagree₁ := withDescriptors_agree libc.tlvGetAddr key₁ hagree₂
          fun d hd => hds d (List.mem_append_left _ hd)
        obtain ⟨rfl, rfl⟩ := descriptorSections_of_key
          (hlibc.keyCreate s key₁ hreg.created).1 hin' hds' hagree₁ hrest
        refine .inr ⟨s₂, ⟨sect, List.mem_cons_self, hvars⟩, hreg, ?_⟩
        unfold Tlv.withDescriptors
        rw [writeDescriptors_append]

end

/-! ## The image -/

/-- Some section of the image has descriptors. -/
def imageHasVariables (m : Mem) (mh : Nat) : Bool :=
  (imageSectionsAt m mh).any fun sect => hasVariables m sect.2

/-- An image in use: its load commands are in `header`, and its descriptors are elsewhere. -/
structure ImageAt (s : Tlv) (mh : Nat) (header : ByteRange) : Prop where
  address : mh < 2 ^ 64
  covered : s.Covers header
  machHeader : ByteRange.Within ⟨mh, 32⟩ header
  commands : CommandsWithin s.mem header (s.mem.readWord 4 (mh + 16)) (mh + 32)
  descriptors : ∀ d ∈ imageDescriptors s.mem mh,
    ByteRange.Apart ⟨d, 24⟩ header ∧ s.Covers ⟨d, 24⟩
  disjoint : (imageDescriptors s.mem mh).Pairwise fun d e => ByteRange.Apart ⟨d, 24⟩ ⟨e, 24⟩

/-- A descriptor is ready to be used. -/
structure DescriptorReady (s s' : Tlv) (thunk key d : Nat) : Prop where
  thunk : s'.mem.readWord 8 d = thunk
  key : s'.mem.readWord 8 (d + 8) = key
  /-- The offset is the one from the file. -/
  offset : s'.mem.readWord 8 (d + 16) = s.mem.readWord 8 (d + 16)

section

variable {libc : Libc} {mh key : Nat} {header : ByteRange} {s s' : Tlv} {images : List (Nat × Nat)}

theorem withDescriptors_covers {thunk : Nat} {ds : List Nat} {r : ByteRange} (h : s.Covers r) :
    (s.withDescriptors thunk key ds).Covers r := by
  obtain ⟨r', hclear, hin⟩ := h
  exact ⟨r', hclear.withDescriptors, hin⟩

/-- Descriptors are not in the table. -/
theorem TableAt.withDescriptors {thunk : Nat} {ds : List Nat} (hs : TableAt s images)
    (hds : ∀ d ∈ ds, s.Covers ⟨d, 16⟩) : TableAt (s.withDescriptors thunk key ds) images := by
  refine ⟨hs.used, hs.fits, hs.grown, hs.none, hs.buffer, hs.pairs.congr fun x hx => ?_⟩
  refine writeDescriptors_of_notMem fun d hd hbad => ?_
  obtain ⟨r, hclear, hin⟩ := hds d hd
  refine hclear.apart x (ByteRange.within_mk (Nat.le_refl _) ?_ x hx) (hin x hbad)
  exact Nat.add_le_add_left (Nat.mul_le_mul_left 16 hs.fits) _

/-- What the loops keep while the image has no key, and then while it has one. -/
structure SectionsInv (m : Mem) (header : ByteRange) (key : Nat) (s : Tlv) : Prop where
  agree : AgreeOn header m s.mem
  covered : s.Covers header
  table : key = 0 → ∃ images, TableAt s images ∧ images.length < 2 ^ 31

theorem SectionsInv.visit (hlibc : libc.Sound) (hmh : mh < 2 ^ 64) {m : Mem} {sect : Slide × Nat}
    {key' : Nat} (hin : ByteRange.Within ⟨sect.2, 80⟩ header)
    (hds : ∀ d ∈ sectionDescriptors m sect, ByteRange.Apart ⟨d, 16⟩ header)
    (hs : SectionsInv m header key s)
    (h : sectionVisit (descriptorSectionVisit libc mh) sect key s = (.ok key', s')) :
    SectionsInv m header key' s' := by
  cases hvars : hasVariables m sect.2 with
  | false =>
      rw [descriptorSectionVisit_none hs.agree hin hvars] at h
      obtain ⟨hk, rfl⟩ := Prod.mk.inj h
      exact Outcome.ok.inj hk ▸ hs
  | true =>
      obtain ⟨s₁, himage, hs'⟩ := descriptorSectionVisit_some hs.agree hin hvars h
      rcases imageKey_eq_ok himage with ⟨hne, rfl, rfl⟩ | ⟨hzero, -⟩
      · obtain rfl := hs' hs.agree
        exact ⟨withDescriptors_agree _ _ hs.agree hds, withDescriptors_covers hs.covered,
          fun hbad => absurd hbad hne⟩
      · obtain ⟨images, htable, hcount⟩ := hs.table hzero
        rw [hzero] at himage
        have hreg := imageKey_registers hlibc htable hmh hcount himage
        obtain ⟨hcovered, hmem⟩ := hreg.keeps.covers hs.covered
        have hagree : AgreeOn header m s₁.mem := fun x hx => (hmem x hx).trans (hs.agree x hx)
        obtain rfl := hs' hagree
        exact ⟨withDescriptors_agree _ _ hagree hds, withDescriptors_covers hcovered,
          fun hbad => absurd hbad (hlibc.keyCreate _ _ hreg.created).1⟩

/-- A descriptor that was initialized, among others that do not overlap it. -/
theorem withDescriptors_ready {thunk : Nat} {ds : List Nat} (hthunk : thunk < 2 ^ 64)
    (hkey : key < 2 ^ 64) (hd : ds.Pairwise fun d e => ByteRange.Apart ⟨d, 24⟩ ⟨e, 24⟩) {d : Nat}
    (hmem : d ∈ ds) : DescriptorReady s (s.withDescriptors thunk key ds) thunk key d := by
  obtain ⟨hlo, hhi⟩ := readWord_writeDescriptors (m := s.mem) hthunk hkey hd hmem
  refine ⟨hlo, hhi, Mem.readWord_congr fun x hx => withDescriptors_mem fun e he hbad => ?_⟩
  by_cases heq : d = e
  · have hge : d + 16 ≤ x := (ByteRange.mem_mk.mp hx).1
    have hlt : x < e + 16 := (ByteRange.mem_mk.mp hbad).2
    omega
  · have hsymm : Std.Symm fun d e : Nat => ByteRange.Apart ⟨d, 24⟩ ⟨e, 24⟩ := ⟨fun _ _ h => h.symm⟩
    have hapart : ByteRange.Apart ⟨d, 24⟩ ⟨e, 24⟩ := hd.forall hmem he heq
    exact hapart x (ByteRange.within_mk (by omega) (by omega) x hx)
      (ByteRange.within_mk (Nat.le_refl _) (by omega) x hbad)

/-- **Loading an image**: an image without descriptors is left alone. Else a key is created for it,
a lookup of which finds the image from then on; every descriptor has the thunk and that key, and
its own offset; and nothing else in use was written. -/
theorem tlvInitializeDescriptors_initializes (hlibc : libc.Sound) (hthunk : libc.tlvGetAddr < 2 ^ 64)
    (hs : TableAt s images) (hcount : images.length < 2 ^ 31) (hkeys : ∀ p ∈ images, p.1 ∈ s.keys)
    (himage : ImageAt s mh header) (h : tlvInitializeDescriptors libc mh s = (.ok (), s')) :
    (imageHasVariables s.mem mh = false → s' = s) ∧
    (imageHasVariables s.mem mh = true → ∃ key, libc.pthreadKeyCreate s = some key ∧
      TableAt s' (images ++ [(key, mh)]) ∧ tlvGetImageForKey s' key = mh ∧
      (∀ d ∈ imageDescriptors s.mem mh, DescriptorReady s s' libc.tlvGetAddr key d) ∧
      (∀ r, s.Clear r → s'.Clear r ∧ ∀ x ∈ r,
        (∀ d ∈ imageDescriptors s.mem mh, x ∉ (⟨d, 16⟩ : ByteRange)) → s'.mem x = s.mem x) ∧
      s'.specific = s.specific) := by
  have hsections : ∀ sect ∈ imageSectionsAt s.mem mh, ByteRange.Within ⟨sect.2, 80⟩ header :=
    fun _ hsect => imageSections_within himage.commands hsect
  have hds : ∀ d ∈ imageDescriptors s.mem mh, ByteRange.Apart ⟨d, 16⟩ header := fun d hd =>
    (himage.descriptors d hd).1.mono (ByteRange.within_mk (Nat.le_refl _) (by omega))
      (ByteRange.Within.refl _)
  have hinv : SectionsInv s.mem header 0 s :=
    ⟨fun _ _ => rfl, himage.covered, fun _ => ⟨images, hs, hcount⟩⟩
  have hkeep : ∀ sect ∈ imageSectionsAt s.mem mh, ∀ key w key' w', SectionsInv s.mem header key w →
      sectionVisit (descriptorSectionVisit libc mh) sect key w = (.ok key', w') →
      SectionsInv s.mem header key' w' := by
    intro sect hsect key w key' w' hw hvisit
    exact hw.visit hlibc himage.address (hsections sect hsect)
      (fun d hd => hds d (List.mem_flatMap.mpr ⟨sect, hsect, hd⟩)) hvisit
  -- the loops go through the sections as they are before the first one is visited
  have hfold : ∃ key, Exec.fold (sectionVisit (descriptorSectionVisit libc mh))
      (imageSectionsAt s.mem mh) 0 s = (.ok key, s') := by
    unfold tlvInitializeDescriptors at h
    rw [Exec.bind_of_ok (show Tlv.read 4 (mh + 16) s = (.ok _, s) from rfl)] at h
    obtain ⟨⟨slide, key⟩, s₁, hloop, hpure⟩ := Exec.bind_eq_ok.mp h
    obtain rfl : s₁ = s' := (Prod.mk.inj hpure).2
    exact ⟨key, ((commandsLoop_eq_ok (fun _ _ hw => hw.agree) himage.commands hkeep hinv).mp
      hloop).2⟩
  obtain ⟨key, hfold⟩ := hfold
  have hvars : imageHasVariables s.mem mh = true ↔
      ∃ sect ∈ imageSectionsAt s.mem mh, hasVariables s.mem sect.2 = true := List.any_eq_true
  rcases descriptorSections_eq_ok hlibc himage.address hcount himage.covered hs (fun _ _ => rfl)
    hsections hds hfold with ⟨hnone, hs'⟩ | ⟨s₁, hsome, hreg, hs'⟩
  · refine ⟨fun _ => hs', fun hbad => ?_⟩
    obtain ⟨sect, hsect, htrue⟩ := hvars.mp hbad
    rw [hnone sect hsect] at htrue
    exact absurd htrue (by decide)
  · refine ⟨fun hbad => ?_, fun _ => ⟨key, hreg.created, ?_⟩⟩
    · rw [hvars.mpr hsome] at hbad
      exact absurd hbad (by decide)
    obtain ⟨-, hkey, hnew⟩ := hlibc.keyCreate s key hreg.created
    have hs' : s' = s₁.withDescriptors libc.tlvGetAddr key (imageDescriptors s.mem mh) := hs'
    subst hs'
    have hcovered : ∀ d ∈ imageDescriptors s.mem mh, s₁.Covers ⟨d, 16⟩ := by
      intro d hd
      obtain ⟨r, hclear, hin⟩ := (himage.descriptors d hd).2
      exact ⟨r, (hreg.keeps.clear r hclear).1, within_field hin (Nat.le_refl _) (by omega)⟩
    have htable : TableAt (s₁.withDescriptors libc.tlvGetAddr key (imageDescriptors s.mem mh))
        (images ++ [(key, mh)]) := hreg.table.withDescriptors hcovered
    refine ⟨htable, ?_, fun d hd => ?_, fun r hr => ⟨?_, fun x hx hout => ?_⟩,
      (withDescriptors_specific _ _ _ _).trans hreg.keeps.specific⟩
    · exact htable.get_last fun p hp hbad => hnew (hbad ▸ hkeys p hp)
    · have hready : DescriptorReady s₁ _ libc.tlvGetAddr key d :=
        withDescriptors_ready hthunk hkey himage.disjoint hd
      have hkept := (hreg.keeps.covers (himage.descriptors d hd).2).2
      refine ⟨hready.thunk, hready.key, hready.offset.trans (Mem.readWord_congr fun x hx => ?_)⟩
      exact hkept x (ByteRange.within_mk (by omega) (by omega) x hx)
    · exact (hreg.keeps.clear r hr).1.withDescriptors
    · exact (withDescriptors_mem hout).trans ((hreg.keeps.clear r hr).2 x hx)

end

/-! ## An image with two variables -/

def sampleThreadSection (addr size flags : Nat) : List UInt8 :=
  List.replicate 32 0 ++ Bytes.encodeFields .little
    [(8, addr), (8, size), (4, 0), (4, 0), (4, 0), (4, 0), (4, flags), (4, 0), (4, 0), (4, 0)]

/-- One segment: two descriptors, eight bytes of template and eight more that are zero, and two
initializers. The image is made for the address `0x10000`. -/
def sampleThreadImage : List UInt8 :=
  sampleMachO 2 1 (Bytes.encodeFields .little [(4, 0x19), (4, 392)]
    ++ List.replicate 16 0 ++ Bytes.encodeFields .little
      [(8, 0x10000), (8, 504), (8, 0), (8, 504), (4, 3), (4, 3), (4, 4), (4, 0)]
    ++ sampleThreadSection 0x101a8 48 0x13 ++ sampleThreadSection 0x101d8 8 0x11
    ++ sampleThreadSection 0x101e0 8 0x12 ++ sampleThreadSection 0x101e8 16 0x15
    ++ Bytes.encodeFields .little [(8, 0), (8, 0), (8, 0), (8, 0), (8, 0), (8, 8)]
    ++ [1, 2, 3, 4, 5, 6, 7, 8] ++ List.replicate 8 0
    ++ Bytes.encodeFields .little [(8, 0x2000), (8, 0x3000)])

def sampleThreadProcess : Tlv :=
  sampleProcess (Mem.write (fun _ => 0) 0x1000 sampleThreadImage) [⟨0x1000, 504⟩]

theorem sampleThreadProcess_table : TableAt sampleThreadProcess [] := sampleProcess_table _ _

theorem sampleThreadProcess_covers {r : ByteRange} (h : ByteRange.Within r ⟨0x1000, 504⟩) :
    sampleThreadProcess.Covers r := by
  refine ⟨_, ⟨List.mem_singleton_self _, by decide, fun x hx => ?_⟩, h⟩
  exact absurd (ByteRange.mem_def.mp hx).2 (by simp [Tlv.tableRange, sampleThreadProcess, sampleProcess])

theorem sampleThreadProcess_descriptors :
    imageDescriptors sampleThreadProcess.mem 0x1000 = [0x11a8, 0x11c0] := by decide +kernel

theorem sampleThreadProcess_image : ImageAt sampleThreadProcess 0x1000 ⟨0x1000, 424⟩ where
  address := by decide
  covered := sampleThreadProcess_covers (ByteRange.within_mk (by omega) (by omega))
  machHeader := ByteRange.within_mk (by omega) (by omega)
  commands := by
    have hncmds : sampleThreadProcess.mem.readWord 4 (0x1000 + 16) = 1 := by decide +kernel
    have hnsects : sampleThreadProcess.mem.readWord 4 (0x1000 + 32 + 64) = 4 := by decide +kernel
    rw [hncmds]
    refine ⟨ByteRange.within_mk (by omega) (by omega), fun _ => ?_, trivial⟩
    rw [hnsects]
    exact ByteRange.within_mk (by omega) (by omega)
  descriptors := by
    rw [sampleThreadProcess_descriptors]
    intro d hd
    rcases List.mem_cons.mp hd with rfl | hd
    · exact ⟨(ByteRange.apart_of_le (by simp)).symm,
        sampleThreadProcess_covers (ByteRange.within_mk (by omega) (by omega))⟩
    · obtain rfl := List.mem_singleton.mp hd
      exact ⟨(ByteRange.apart_of_le (by simp)).symm,
        sampleThreadProcess_covers (ByteRange.within_mk (by omega) (by omega))⟩
  disjoint := by
    rw [sampleThreadProcess_descriptors]
    refine List.pairwise_pair.mpr ?_
    exact ByteRange.apart_of_le (by simp)

/-- The process once the image is loaded. -/
def sampleThreadLoaded : Tlv := (tlvInitializeDescriptors sampleLibc 0x1000 sampleThreadProcess).2

theorem sampleThread_loads : tlvInitializeDescriptors sampleLibc 0x1000 sampleThreadProcess
    = (.ok (), sampleThreadLoaded) := Exec.eq_of_fst (by decide +kernel)

/-- Both descriptors have the thunk and the key. -/
theorem sampleThread_initialized : ∃ key, TableAt sampleThreadLoaded [(key, 0x1000)] ∧
    tlvGetImageForKey sampleThreadLoaded key = 0x1000 ∧
    DescriptorReady sampleThreadProcess sampleThreadLoaded 0x7000 key 0x11a8 ∧
    DescriptorReady sampleThreadProcess sampleThreadLoaded 0x7000 key 0x11c0 := by
  obtain ⟨-, hsome⟩ := tlvInitializeDescriptors_initializes sampleLibc_sound (by decide)
    sampleThreadProcess_table (by decide) (fun p hp => absurd hp List.not_mem_nil)
    sampleThreadProcess_image sampleThread_loads
  obtain ⟨key, -, htable, hget, hready, -⟩ := hsome (by decide +kernel)
  rw [sampleThreadProcess_descriptors] at hready
  exact ⟨key, htable, hget, hready _ List.mem_cons_self,
    hready _ (List.mem_cons_of_mem _ List.mem_cons_self)⟩

end Dynld
