import Mathlib.Algebra.GroupWithZero.Nat
import Dynld.Proof.ThreadDescriptors

/-!
# The storage of one thread

When a thread first looks up a variable of an image, it gets a copy of the image's
template. The template goes from the start of the first template section to the end of
the last one. The thread has its copy before the initializers run, so that they can look
up variables themselves; they are called section by section, the last pointer of each
section first.
-/

namespace Dynld

/-! ## The template -/

/-- What the first pass does with a section. -/
def templateUpdate (m : Mem) (t : Template) (sect : Slide × Nat) : Template :=
  let flags := m.readWord 4 (sect.2 + 64)
  if flagsType flags = sThreadLocalInitFunctionPointers then { t with hasInitializers := true }
  else if flagsType flags = sThreadLocalZerofill ∨ flagsType flags = sThreadLocalRegular then
    let addr := m.readWord 8 (sect.2 + 32)
    let size := m.readWord 8 (sect.2 + 40)
    if t.start = 0 then { t with start := sect.1.apply addr, size }
    else { t with size := (sect.1.apply (addr + size) + (2 ^ 64 - t.start)) % 2 ^ 64 }
  else t

/-- What the first pass finds in the image at this address. -/
def imageTemplate (m : Mem) (mh : Nat) : Template :=
  (imageSectionsAt m mh).foldl (templateUpdate m) ⟨0, 0, false⟩

/-- The slide of the image at this address. -/
def imageSlideAt (m : Mem) (mh : Nat) : Slide :=
  imageSlide m mh (m.readWord 4 (mh + 16)) (mh + 32) none

theorem templateVisit_run (sect : Slide × Nat) (t : Template) (s : Tlv) :
    sectionVisit templateVisit sect t s = (.ok (templateUpdate s.mem t sect), s) := by
  unfold sectionVisit templateVisit templateUpdate
  rw [Exec.bind_of_ok (show Tlv.read 4 (sect.2 + 64) s = (.ok _, s) from rfl)]
  dsimp only
  split
  · rfl
  split
  · rw [Exec.bind_of_ok (show Tlv.read 8 (sect.2 + 32) s = (.ok _, s) from rfl),
      Exec.bind_of_ok (show Tlv.read 8 (sect.2 + 40) s = (.ok _, s) from rfl)]
    split
    · rfl
    · rfl
  · rfl

theorem templateSections_run (s : Tlv) : ∀ (sects : List (Slide × Nat)) (t : Template),
    Exec.fold (sectionVisit templateVisit) sects t s
      = (.ok (sects.foldl (templateUpdate s.mem) t), s)
  | [], _ => rfl
  | sect :: sects, t => by
      have ih := templateSections_run s sects (templateUpdate s.mem t sect)
      rw [Exec.fold, Exec.bind_of_ok (templateVisit_run sect t s), ih, List.foldl_cons]

/-- **The first pass** returns, and changes nothing. -/
theorem templatePass_run {mh : Nat} {header : ByteRange} (s : Tlv)
    (hcmds : CommandsWithin s.mem header (s.mem.readWord 4 (mh + 16)) (mh + 32)) :
    commandsLoop templateVisit mh (s.mem.readWord 4 (mh + 16)) (mh + 32) none ⟨0, 0, false⟩ s
      = (.ok (imageSlideAt s.mem mh, imageTemplate s.mem mh), s) := by
  have hkeep : ∀ sect ∈ imageSectionsAt s.mem mh, ∀ t w t' w', w = s →
      sectionVisit templateVisit sect t w = (.ok t', w') → w' = s := by
    rintro sect - t w t' w' rfl hvisit
    rw [templateVisit_run] at hvisit
    exact (Prod.mk.inj hvisit).2.symm
  have hagree : ∀ (_ : Template) (w : Tlv), w = s → AgreeOn header s.mem w.mem := by
    rintro _ w rfl x _
    rfl
  exact (commandsLoop_eq_ok hagree hcmds hkeep rfl).mpr ⟨rfl, templateSections_run s _ _⟩

section

variable {m m' : Mem} {mh : Nat} {header : ByteRange}

theorem templateUpdate_congr {t : Template} {sect : Slide × Nat} (h : AgreeOn header m m')
    (hin : ByteRange.Within ⟨sect.2, 80⟩ header) :
    templateUpdate m' t sect = templateUpdate m t sect := by
  have hflags : m'.readWord 4 (sect.2 + 64) = m.readWord 4 (sect.2 + 64) :=
    h.readWord (within_field hin (by omega) (by omega))
  have haddr : m'.readWord 8 (sect.2 + 32) = m.readWord 8 (sect.2 + 32) :=
    h.readWord (within_field hin (by omega) (by omega))
  have hsize : m'.readWord 8 (sect.2 + 40) = m.readWord 8 (sect.2 + 40) :=
    h.readWord (within_field hin (by omega) (by omega))
  unfold templateUpdate
  rw [hflags, haddr, hsize]

theorem foldl_templateUpdate_congr (h : AgreeOn header m m') : ∀ {sects : List (Slide × Nat)}
    {t : Template}, (∀ sect ∈ sects, ByteRange.Within ⟨sect.2, 80⟩ header) →
    sects.foldl (templateUpdate m') t = sects.foldl (templateUpdate m) t
  | [], _, _ => rfl
  | sect :: sects, t, hin => by
      rw [List.foldl_cons, List.foldl_cons, templateUpdate_congr h (hin sect List.mem_cons_self)]
      exact foldl_templateUpdate_congr h fun sect' h' => hin sect' (List.mem_cons_of_mem _ h')

/-- The load commands of an image, in a range that nobody writes to. -/
structure HeaderIn (m : Mem) (mh : Nat) (header : ByteRange) : Prop where
  machHeader : ByteRange.Within ⟨mh, 32⟩ header
  commands : CommandsWithin m header (m.readWord 4 (mh + 16)) (mh + 32)

theorem HeaderIn.ncmds (hm : HeaderIn m mh header) (h : AgreeOn header m m') :
    m'.readWord 4 (mh + 16) = m.readWord 4 (mh + 16) :=
  h.readWord (within_field hm.machHeader (by omega) (by omega))

theorem HeaderIn.congr (hm : HeaderIn m mh header) (h : AgreeOn header m m') :
    HeaderIn m' mh header := by
  refine ⟨hm.machHeader, ?_⟩
  rw [hm.ncmds h]
  exact hm.commands.congr h

theorem HeaderIn.sections (hm : HeaderIn m mh header) (h : AgreeOn header m m') :
    imageSectionsAt m' mh = imageSectionsAt m mh ∧ imageSlideAt m' mh = imageSlideAt m mh := by
  unfold imageSectionsAt imageSlideAt
  rw [hm.ncmds h]
  exact imageSections_congr h hm.commands

theorem HeaderIn.section_within (hm : HeaderIn m mh header) {sect : Slide × Nat}
    (h : sect ∈ imageSectionsAt m mh) : ByteRange.Within ⟨sect.2, 80⟩ header :=
  imageSections_within hm.commands h

/-- The template is the same as long as the load commands are. -/
theorem imageTemplate_congr (hm : HeaderIn m mh header) (h : AgreeOn header m m') :
    imageTemplate m' mh = imageTemplate m mh := by
  unfold imageTemplate
  rw [(hm.sections h).1]
  exact foldl_templateUpdate_congr h fun _ hsect => hm.section_within hsect

end

/-! ### Contiguous sections -/

/-- The section has a part of the template. -/
def isTemplateSection (m : Mem) (sect : Slide × Nat) : Bool :=
  flagsType (m.readWord 4 (sect.2 + 64)) == sThreadLocalRegular ||
    flagsType (m.readWord 4 (sect.2 + 64)) == sThreadLocalZerofill

/-- The size of a section. -/
def sectionSize (m : Mem) (sect : Slide × Nat) : Nat := m.readWord 8 (sect.2 + 40)

/-- The template sections follow one another, from this address on. -/
def Contiguous (m : Mem) : Nat → List (Slide × Nat) → Prop
  | _, [] => True
  | a, sect :: sects =>
      if isTemplateSection m sect then
        sect.1.apply (m.readWord 8 (sect.2 + 32)) = a ∧ a + sectionSize m sect < 2 ^ 64 ∧
          Contiguous m (a + sectionSize m sect) sects
      else Contiguous m a sects

/-- The sizes of the template sections. -/
def templateSizes (m : Mem) (sects : List (Slide × Nat)) : List Nat :=
  (sects.filter (isTemplateSection m)).map (sectionSize m)

theorem slide_apply_add {slide : Slide} {addr n a : Nat} (h : slide.apply addr = a)
    (hlt : a + n < 2 ^ 64) : slide.apply (addr + n) = a + n := by
  unfold Slide.apply ptrAdd at *
  omega

/-- A section that is not a template section leaves the template as it is. -/
theorem templateUpdate_other {m : Mem} {t : Template} {sect : Slide × Nat}
    (h : isTemplateSection m sect = false) :
    (templateUpdate m t sect).start = t.start ∧ (templateUpdate m t sect).size = t.size := by
  unfold isTemplateSection at h
  rw [Bool.or_eq_false_iff, beq_eq_false_iff_ne, beq_eq_false_iff_ne] at h
  unfold templateUpdate
  dsimp only
  split
  · exact ⟨rfl, rfl⟩
  · rw [if_neg (fun hbad => hbad.elim h.2 h.1)]
    exact ⟨rfl, rfl⟩

theorem templateUpdate_template {m : Mem} {t : Template} {sect : Slide × Nat}
    (h : isTemplateSection m sect = true) :
    templateUpdate m t sect
      = if t.start = 0 then
          { t with start := sect.1.apply (m.readWord 8 (sect.2 + 32)), size := sectionSize m sect }
        else
          { t with size := (sect.1.apply (m.readWord 8 (sect.2 + 32) + sectionSize m sect)
              + (2 ^ 64 - t.start)) % 2 ^ 64 } := by
  unfold isTemplateSection at h
  rw [Bool.or_eq_true, beq_iff_eq, beq_iff_eq] at h
  have hinit : flagsType (m.readWord 4 (sect.2 + 64)) ≠ sThreadLocalInitFunctionPointers := by
    rcases h with h | h
    · rw [h]
      decide
    · rw [h]
      decide
  unfold templateUpdate
  dsimp only
  rw [if_neg hinit, if_pos h.symm]
  rfl

/-- The sections behind the first template section. -/
theorem foldl_templateUpdate_started {m : Mem} : ∀ {sects : List (Slide × Nat)} {t : Template}
    {a : Nat}, Contiguous m a sects → t.start ≠ 0 → t.start + t.size = a → a < 2 ^ 64 →
    (sects.foldl (templateUpdate m) t).start = t.start ∧
      (sects.foldl (templateUpdate m) t).size = t.size + (templateSizes m sects).sum
  | [], _, _, _, _, _, _ => ⟨rfl, rfl⟩
  | sect :: sects, t, a, hcont, hstart, hend, hlt => by
      unfold Contiguous at hcont
      rw [List.foldl_cons]
      cases his : isTemplateSection m sect with
      | false =>
          rw [if_neg (by rw [his]; decide)] at hcont
          obtain ⟨hs, hn⟩ := templateUpdate_other (t := t) his
          have ih := foldl_templateUpdate_started hcont (hs ▸ hstart) (by rw [hs, hn, hend]) hlt
          rw [templateSizes, List.filter_cons_of_neg (by rw [his]; decide)]
          rwa [hs, hn] at ih
      | true =>
          rw [if_pos his] at hcont
          obtain ⟨haddr, hlt', hcont⟩ := hcont
          rw [templateUpdate_template his, if_neg hstart, slide_apply_add haddr hlt']
          have hsize : (a + sectionSize m sect + (2 ^ 64 - t.start)) % 2 ^ 64
              = t.size + sectionSize m sect := by omega
          rw [hsize]
          have ih := foldl_templateUpdate_started
            (t := { t with size := t.size + sectionSize m sect })
            hcont hstart (by dsimp only; omega) hlt'
          rw [templateSizes, List.filter_cons_of_pos his, List.map_cons, List.sum_cons,
            ← Nat.add_assoc]
          exact ih

theorem foldl_templateUpdate_contiguous {m : Mem} : ∀ {sects : List (Slide × Nat)} {t : Template}
    {a : Nat}, Contiguous m a sects → a ≠ 0 → a < 2 ^ 64 → t.start = 0 → t.size = 0 →
    (sects.foldl (templateUpdate m) t).size = (templateSizes m sects).sum ∧
      (templateSizes m sects ≠ [] → (sects.foldl (templateUpdate m) t).start = a)
  | [], _, _, _, _, _, _, hsize => ⟨hsize, fun h => absurd rfl h⟩
  | sect :: sects, t, a, hcont, hne, hlt, hstart, hsize => by
      unfold Contiguous at hcont
      rw [List.foldl_cons]
      cases his : isTemplateSection m sect with
      | false =>
          rw [if_neg (by rw [his]; decide)] at hcont
          obtain ⟨hs, hn⟩ := templateUpdate_other (t := t) his
          rw [templateSizes, List.filter_cons_of_neg (by rw [his]; decide)]
          exact foldl_templateUpdate_contiguous hcont hne hlt (hs.trans hstart) (hn.trans hsize)
      | true =>
          rw [if_pos his] at hcont
          obtain ⟨haddr, hlt', hcont⟩ := hcont
          rw [templateUpdate_template his, if_pos hstart, haddr]
          obtain ⟨hs, hn⟩ := foldl_templateUpdate_started
            (t := { t with start := a, size := sectionSize m sect }) hcont hne rfl hlt'
          rw [templateSizes, List.filter_cons_of_pos his, List.map_cons, List.sum_cons]
          exact ⟨hn, fun _ => hs⟩

/-- **Contiguous template sections are the template**: it starts with the first one, and its size is
that of all of them. -/
theorem imageTemplate_contiguous {m : Mem} {mh a : Nat} (h : Contiguous m a (imageSectionsAt m mh))
    (hne : a ≠ 0) (hlt : a < 2 ^ 64) :
    (imageTemplate m mh).size = (templateSizes m (imageSectionsAt m mh)).sum ∧
      (templateSizes m (imageSectionsAt m mh) ≠ [] → (imageTemplate m mh).start = a) :=
  foldl_templateUpdate_contiguous h hne hlt rfl rfl

/-! ## The initializers -/

/-- The pointers to the initializers of a section, in the order they are called. -/
def sectionPointers (m : Mem) (slide : Slide) (sect : Slide × Nat) : List Nat :=
  if flagsType (m.readWord 4 (sect.2 + 64)) = sThreadLocalInitFunctionPointers then
    (List.range (m.readWord 8 (sect.2 + 40) / 8)).reverse.map fun j =>
      slide.apply (m.readWord 8 (sect.2 + 32)) + 8 * j
  else []

/-- The pointers to the initializers of an image, in the order they are called. -/
def imagePointers (m : Mem) (mh : Nat) : List Nat :=
  (imageSectionsAt m mh).flatMap (sectionPointers m (imageSlideAt m mh))

/-- Call the functions that these pointers point at. -/
def initializersCall (libc : Libc) (thread : Nat) : List Nat → Exec Tlv Unit
  | [] => pure ()
  | p :: ps => do
      let func ← Tlv.read 8 p
      Exec.modify fun s => { s with called := s.called ++ [(thread, func)] }
      Exec.modify fun s => { s with mem := libc.call thread func s.mem }
      initializersCall libc thread ps

theorem initFunctionsCall_eq (libc : Libc) (thread funcs : Nat) : ∀ n : Nat,
    initFunctionsCall libc thread funcs n
      = initializersCall libc thread ((List.range n).reverse.map fun j => funcs + 8 * j)
  | 0 => rfl
  | n + 1 => by
      rw [List.range_succ, List.reverse_append, List.reverse_singleton, List.singleton_append,
        List.map_cons, initFunctionsCall, initializersCall,
        initFunctionsCall_eq libc thread funcs n]

/-- The process after a thread has called a function. -/
def Tlv.afterCall (s : Tlv) (libc : Libc) (thread func : Nat) : Tlv :=
  { s with mem := libc.call thread func s.mem, called := s.called ++ [(thread, func)] }

/-- The process after a thread has called these functions. -/
def Tlv.afterCalls (s : Tlv) (libc : Libc) (thread : Nat) : List Nat → Tlv
  | [] => s
  | p :: ps => (s.afterCall libc thread (s.mem.readWord 8 p)).afterCalls libc thread ps

theorem initializersCall_run (libc : Libc) (thread : Nat) : ∀ (ps : List Nat) (s : Tlv),
    initializersCall libc thread ps s = (.ok (), s.afterCalls libc thread ps)
  | [], _ => rfl
  | p :: ps, s =>
      initializersCall_run libc thread ps (s.afterCall libc thread (s.mem.readWord 8 p))

theorem afterCalls_append (libc : Libc) (thread : Nat) : ∀ (ps qs : List Nat) (s : Tlv),
    s.afterCalls libc thread (ps ++ qs) = (s.afterCalls libc thread ps).afterCalls libc thread qs
  | [], _, _ => rfl
  | p :: ps, qs, s =>
      afterCalls_append libc thread ps qs (s.afterCall libc thread (s.mem.readWord 8 p))

/-- No initializer writes to the range. -/
def Libc.LeavesAlone (libc : Libc) (r : ByteRange) : Prop :=
  ∀ thread func m, ∀ x ∈ r, libc.call thread func m x = m x

theorem afterCalls_agree {libc : Libc} {thread : Nat} {r : ByteRange} (h : libc.LeavesAlone r) :
    ∀ (ps : List Nat) (s : Tlv), AgreeOn r s.mem (s.afterCalls libc thread ps).mem
  | [], _, _, _ => rfl
  | p :: ps, s, x, hx =>
      (afterCalls_agree h ps (s.afterCall libc thread (s.mem.readWord 8 p)) x hx).trans
        (h thread _ s.mem x hx)

/-- Pointers that are left alone are the functions that are called. -/
theorem afterCalls_called {libc : Libc} {thread : Nat} : ∀ {ps : List Nat} {s : Tlv},
    (∀ p ∈ ps, libc.LeavesAlone ⟨p, 8⟩) →
    (s.afterCalls libc thread ps).called
      = s.called ++ ps.map fun p => (thread, s.mem.readWord 8 p)
  | [], s, _ => (List.append_nil s.called).symm
  | p :: ps, s, h => by
      have hrest := fun q hq => h q (List.mem_cons_of_mem p hq)
      have ih := @afterCalls_called libc thread ps (s.afterCall libc thread (s.mem.readWord 8 p)) hrest
      have hmap : (ps.map fun q =>
          (thread, (libc.call thread (s.mem.readWord 8 p) s.mem).readWord 8 q))
          = ps.map fun q => (thread, s.mem.readWord 8 q) := by
        refine List.map_congr_left fun q hq => ?_
        rw [Mem.readWord_congr (hrest q hq thread _ s.mem)]
      rw [Tlv.afterCalls, ih, List.map_cons, ← hmap]
      exact List.append_assoc _ _ _

theorem imagePointers_congr {m m' : Mem} {mh : Nat} {header : ByteRange} (hm : HeaderIn m mh header)
    (h : AgreeOn header m m') : imagePointers m' mh = imagePointers m mh := by
  unfold imagePointers
  rw [(hm.sections h).1, (hm.sections h).2, List.flatMap_def, List.flatMap_def]
  refine congrArg List.flatten (List.map_congr_left fun sect hsect => ?_)
  have hin : ByteRange.Within ⟨sect.2, 80⟩ header := hm.section_within hsect
  have hflags : m'.readWord 4 (sect.2 + 64) = m.readWord 4 (sect.2 + 64) :=
    h.readWord (within_field hin (by omega) (by omega))
  have haddr : m'.readWord 8 (sect.2 + 32) = m.readWord 8 (sect.2 + 32) :=
    h.readWord (within_field hin (by omega) (by omega))
  have hsize : m'.readWord 8 (sect.2 + 40) = m.readWord 8 (sect.2 + 40) :=
    h.readWord (within_field hin (by omega) (by omega))
  unfold sectionPointers
  rw [hflags, haddr, hsize]

section

variable {libc : Libc} {thread mh : Nat} {header : ByteRange} {slide : Slide}

theorem initializersVisit_run {m : Mem} {sect : Slide × Nat} {s : Tlv} (h : AgreeOn header m s.mem)
    (hin : ByteRange.Within ⟨sect.2, 80⟩ header) :
    sectionVisit (initializersVisit libc thread slide) sect () s
      = (.ok (), s.afterCalls libc thread (sectionPointers m slide sect)) := by
  have hflags : s.mem.readWord 4 (sect.2 + 64) = m.readWord 4 (sect.2 + 64) :=
    h.readWord (within_field hin (by omega) (by omega))
  have haddr : s.mem.readWord 8 (sect.2 + 32) = m.readWord 8 (sect.2 + 32) :=
    h.readWord (within_field hin (by omega) (by omega))
  have hsize : s.mem.readWord 8 (sect.2 + 40) = m.readWord 8 (sect.2 + 40) :=
    h.readWord (within_field hin (by omega) (by omega))
  unfold sectionVisit initializersVisit sectionPointers
  rw [Exec.bind_of_ok (show Tlv.read 4 (sect.2 + 64) s = (.ok _, s) from rfl), ← hflags, ← haddr,
    ← hsize]
  split
  · rw [Exec.bind_of_ok (show Tlv.read 8 (sect.2 + 32) s = (.ok _, s) from rfl),
      Exec.bind_of_ok (show Tlv.read 8 (sect.2 + 40) s = (.ok _, s) from rfl), initFunctionsCall_eq,
      initializersCall_run]
  · rfl

/-- **The second pass** calls the initializers of the image in order. -/
theorem initializersPass_run {s : Tlv} (hm : HeaderIn s.mem mh header)
    (hquiet : libc.LeavesAlone header) {ncmds : Nat} (hncmds : ncmds = s.mem.readWord 4 (mh + 16))
    (hslide : slide = imageSlideAt s.mem mh) :
    ∃ slide', commandsLoop (initializersVisit libc thread slide) mh ncmds (mh + 32) none () s
      = (.ok (slide', ()), s.afterCalls libc thread (imagePointers s.mem mh)) := by
  have hagree : ∀ (_ : Unit) (w : Tlv), AgreeOn header s.mem w.mem → AgreeOn header s.mem w.mem :=
    fun _ _ h => h
  have hkeep : ∀ sect ∈ imageSectionsAt s.mem mh, ∀ (u : Unit) w u' w', AgreeOn header s.mem w.mem →
      sectionVisit (initializersVisit libc thread slide) sect u w = (.ok u', w') →
      AgreeOn header s.mem w'.mem := by
    intro sect hsect u w u' w' hw hvisit x hx
    rw [initializersVisit_run hw (hm.section_within hsect)] at hvisit
    rw [← (Prod.mk.inj hvisit).2]
    exact (afterCalls_agree hquiet _ w x hx).trans (hw x hx)
  have hfold : ∀ (sects : List (Slide × Nat)) (w : Tlv), AgreeOn header s.mem w.mem →
      (∀ sect ∈ sects, ByteRange.Within ⟨sect.2, 80⟩ header) →
      Exec.fold (sectionVisit (initializersVisit libc thread slide)) sects () w
        = (.ok (), w.afterCalls libc thread (sects.flatMap (sectionPointers s.mem slide))) := by
    intro sects
    induction sects with
    | nil =>
      intro w _ _
      rfl
    | cons sect sects ih =>
      intro w hw hin
      have hw' : AgreeOn header s.mem
          (w.afterCalls libc thread (sectionPointers s.mem slide sect)).mem := fun x hx =>
        (afterCalls_agree hquiet _ w x hx).trans (hw x hx)
      rw [Exec.fold, Exec.bind_of_ok (initializersVisit_run hw (hin sect List.mem_cons_self)),
        ih _ hw' fun sect' h' => hin sect' (List.mem_cons_of_mem _ h'), List.flatMap_cons,
        afterCalls_append]
  refine ⟨imageSlideAt s.mem mh, ?_⟩
  rw [hncmds]
  refine (commandsLoop_eq_ok hagree hm.commands hkeep fun _ _ => rfl).mpr ⟨rfl, ?_⟩
  have hpointers := hfold _ s (fun _ _ => rfl) fun _ hsect => hm.section_within hsect
  rw [hslide] at hpointers ⊢
  exact hpointers

end

/-! ## Making the storage -/

theorem templateUpdate_hasInitializers (m : Mem) (t : Template) (sect : Slide × Nat) :
    (templateUpdate m t sect).hasInitializers = (t.hasInitializers ||
      flagsType (m.readWord 4 (sect.2 + 64)) == sThreadLocalInitFunctionPointers) := by
  unfold templateUpdate
  dsimp only
  by_cases hinit : flagsType (m.readWord 4 (sect.2 + 64)) = sThreadLocalInitFunctionPointers
  · rw [if_pos hinit, beq_iff_eq.mpr hinit, Bool.or_true]
  · rw [if_neg hinit, beq_eq_false_iff_ne.mpr hinit, Bool.or_false]
    split
    · split
      · rfl
      · rfl
    · rfl

theorem foldl_templateUpdate_hasInitializers {m : Mem} : ∀ {sects : List (Slide × Nat)}
    {t : Template} {slide : Slide}, (sects.foldl (templateUpdate m) t).hasInitializers = false →
    t.hasInitializers = false ∧ sects.flatMap (sectionPointers m slide) = []
  | [], _, _, h => ⟨h, rfl⟩
  | sect :: sects, t, slide, h => by
      obtain ⟨ht, hrest⟩ := @foldl_templateUpdate_hasInitializers m sects _ slide h
      rw [templateUpdate_hasInitializers, Bool.or_eq_false_iff, beq_eq_false_iff_ne] at ht
      refine ⟨ht.1, ?_⟩
      rw [List.flatMap_cons, hrest, sectionPointers, if_neg ht.2]
      rfl

/-- Without initializers, the second pass would call nothing. -/
theorem imagePointers_none {m : Mem} {mh : Nat} (h : (imageTemplate m mh).hasInitializers = false) :
    imagePointers m mh = [] := (foldl_templateUpdate_hasInitializers h).2

/-- The process once a thread has a block with the template. -/
def Tlv.withStorage (s : Tlv) (thread key block : Nat) (t : Template) : Tlv :=
  { s with
    mem := s.mem.copy t.start block t.size
    live := ⟨block, t.size⟩ :: s.live
    specific := (s.setSpecific thread key block).specific }

section

variable {libc : Libc} {thread key mh block : Nat} {header : ByteRange} {s s' : Tlv}

/-- What is in use is not written when the block is filled. -/
theorem withStorage_agree {t : Template} {r : ByteRange} (hlibc : libc.Sound)
    (hmalloc : libc.malloc s t.size = some block) (h : ∀ x ∈ r, s.InUse x) :
    AgreeOn r s.mem (s.withStorage thread key block t).mem := by
  intro x hx
  obtain ⟨whole, hlive, hin⟩ := h x hx
  exact Mem.copy_of_notMem fun hbad => (hlibc.malloc s _ _ hmalloc).2.2 whole hlive x hbad hin

/-- Without an image, there is no storage to make. -/
theorem tlvAllocateAndInitializeForKey_none (libc : Libc) (thread : Nat)
    (h : tlvGetImageForKey s key = 0) :
    tlvAllocateAndInitializeForKey libc thread key s = (.ok 0, s) := by
  have himage : (Exec.lift fun w : Tlv => Outcome.ok (tlvGetImageForKey w key)) s = (.ok 0, s) := by
    rw [← h]
    rfl
  unfold tlvAllocateAndInitializeForKey
  rw [Exec.bind_of_ok himage, if_pos rfl]
  rfl

/-- What a call returns, and the process after it. -/
theorem tlvAllocateAndInitializeForKey_eq_ok (hlibc : libc.Sound) (hm : HeaderIn s.mem mh header)
    (huse : ∀ x ∈ header, s.InUse x) (hquiet : libc.LeavesAlone header)
    (hget : tlvGetImageForKey s key = mh) (hmh : mh ≠ 0)
    (h : tlvAllocateAndInitializeForKey libc thread key s = (.ok block, s')) :
    ((imageTemplate s.mem mh).size = 0 → block = 0 ∧ s' = s) ∧
    ((imageTemplate s.mem mh).size ≠ 0 →
      libc.malloc s (imageTemplate s.mem mh).size = some block ∧
      s' = (s.withStorage thread key block (imageTemplate s.mem mh)).afterCalls libc thread
        (imagePointers s.mem mh)) := by
  unfold tlvAllocateAndInitializeForKey at h
  have himage : (Exec.lift fun w : Tlv => Outcome.ok (tlvGetImageForKey w key)) s
      = (.ok mh, s) := by
    rw [← hget]
    rfl
  rw [Exec.bind_of_ok himage, if_neg hmh,
    Exec.bind_of_ok (show Tlv.read 4 (mh + 16) s = (.ok _, s) from rfl),
    Exec.bind_of_ok (templatePass_run s hm.commands)] at h
  dsimp only at h
  by_cases hsize : (imageTemplate s.mem mh).size = 0
  · rw [if_pos hsize] at h
    obtain ⟨hblock, rfl⟩ := Prod.mk.inj h
    exact ⟨fun _ => ⟨(Outcome.ok.inj hblock).symm, rfl⟩, fun hbad => absurd hsize hbad⟩
  rw [if_neg hsize] at h
  -- the header is in use, so it reads the same when the block is filled
  obtain ⟨b, s₁, hblock, h⟩ := Exec.bind_eq_ok.mp h
  obtain ⟨hmalloc, rfl⟩ := tlvMalloc_eq_ok.mp hblock
  refine ⟨fun hbad => absurd hbad hsize, fun _ => ?_⟩
  have hagree : AgreeOn header s.mem (s.withStorage thread key b (imageTemplate s.mem mh)).mem :=
    withStorage_agree hlibc hmalloc huse
  have hfill : Tlv.memcpy b (imageTemplate s.mem mh).start (imageTemplate s.mem mh).size
      { s with live := ⟨b, (imageTemplate s.mem mh).size⟩ :: s.live }
        = (.ok (), { s with
          mem := s.mem.copy (imageTemplate s.mem mh).start b (imageTemplate s.mem mh).size
          live := ⟨b, (imageTemplate s.mem mh).size⟩ :: s.live }) := rfl
  have hset : (Exec.modify fun s : Tlv => s.setSpecific thread key b) { s with
      mem := s.mem.copy (imageTemplate s.mem mh).start b (imageTemplate s.mem mh).size
      live := ⟨b, (imageTemplate s.mem mh).size⟩ :: s.live }
        = (.ok (), s.withStorage thread key b (imageTemplate s.mem mh)) := rfl
  rw [Exec.bind_of_ok hfill, Exec.bind_of_ok hset] at h
  by_cases hinit : (imageTemplate s.mem mh).hasInitializers = true
  · rw [if_pos hinit] at h
    obtain ⟨slide', hpass⟩ := @initializersPass_run libc thread mh header _ _ (hm.congr hagree)
      hquiet _ (hm.ncmds hagree).symm (hm.sections hagree).2.symm
    rw [Exec.bind_of_ok hpass] at h
    obtain ⟨hblock, rfl⟩ := Prod.mk.inj h
    obtain rfl := Outcome.ok.inj hblock
    rw [imagePointers_congr hm hagree]
    exact ⟨hmalloc, rfl⟩
  -- the second pass is left out, and would have called nothing
  · rw [if_neg hinit] at h
    obtain ⟨hblock, rfl⟩ := Prod.mk.inj h
    obtain rfl := Outcome.ok.inj hblock
    rw [imagePointers_none (Bool.eq_false_iff.mpr hinit)]
    exact ⟨hmalloc, rfl⟩

theorem afterCalls_specific (libc : Libc) (thread : Nat) : ∀ (ps : List Nat) (s : Tlv),
    (s.afterCalls libc thread ps).specific = s.specific
  | [], _ => rfl
  | p :: ps, s => afterCalls_specific libc thread ps (s.afterCall libc thread (s.mem.readWord 8 p))

/-- A lookup finds the storage of the thread, or makes it. -/
theorem tlvGetAddr_eq_ok {d a : Nat} (hkey : s.mem.readWord 8 (d + 8) = key) :
    tlvGetAddr libc thread d s = (.ok a, s') ↔
      s.specific thread key ≠ 0 ∧ s' = s ∧
        a = ptrAdd (s.specific thread key) (s.mem.readWord 8 (d + 16)) ∨
      s.specific thread key = 0 ∧ ∃ block,
        tlvAllocateAndInitializeForKey libc thread key s = (.ok block, s') ∧
        a = ptrAdd block (s'.mem.readWord 8 (d + 16)) := by
  have hread : Tlv.read 8 (d + 8) s = (.ok key, s) := by
    rw [← hkey]
    rfl
  have hspecific : (Exec.lift fun w : Tlv => Outcome.ok (w.specific thread key)) s
      = (.ok (s.specific thread key), s) := rfl
  have hoffset : ∀ (allocation : Nat) (w : Tlv),
      (do let offset ← Tlv.read 8 (d + 16); pure (ptrAdd allocation offset) : Exec Tlv Nat) w
        = (.ok (ptrAdd allocation (w.mem.readWord 8 (d + 16))), w) := fun _ _ => rfl
  unfold tlvGetAddr
  rw [Exec.bind_of_ok hread, Exec.bind_of_ok hspecific]
  by_cases hzero : s.specific thread key = 0
  · rw [if_pos hzero, Exec.bind_eq_ok]
    constructor
    · rintro ⟨block, s₂, hmake, h⟩
      rw [hoffset] at h
      obtain ⟨ha, rfl⟩ := Prod.mk.inj h
      exact .inr ⟨hzero, block, hmake, (Outcome.ok.inj ha).symm⟩
    · rintro (⟨hne, -⟩ | ⟨-, block, hmake, ha⟩)
      · exact absurd hzero hne
      · rw [ha]
        exact ⟨block, s', hmake, hoffset block s'⟩
  · rw [if_neg hzero, hoffset]
    constructor
    · intro h
      obtain ⟨ha, rfl⟩ := Prod.mk.inj h
      exact .inl ⟨hzero, rfl, (Outcome.ok.inj ha).symm⟩
    · rintro (⟨-, hs', ha⟩ | ⟨hbad, -⟩)
      · rw [hs', ha]
      · exact absurd hbad hzero

/-- What the first lookup of a thread leaves: `s₁` is the process when the initializers start. -/
structure StorageMade (libc : Libc) (s s₁ s' : Tlv) (thread key mh block : Nat) : Prop where
  fresh : block ≠ 0 ∧ ∀ r ∈ s.live, ByteRange.Apart ⟨block, (imageTemplate s.mem mh).size⟩ r
  template : ∀ i < (imageTemplate s.mem mh).size,
    s₁.mem (block + i) = s.mem ((imageTemplate s.mem mh).start + i)
  mem : ∀ x, s.InUse x → s₁.mem x = s.mem x
  specific : ∀ t k, s'.specific t k = if t = thread ∧ k = key then block else s.specific t k
  before : s₁.specific = s'.specific ∧ s₁.called = s.called
  initialized : s' = s₁.afterCalls libc thread (imagePointers s.mem mh)
  called : s'.called = s.called ++ (imagePointers s.mem mh).map fun p =>
    (thread, s.mem.readWord 8 p)

/-- **The first lookup** of a variable gives the thread a block of its own, with the template of
the image. The thread has it when its initializers start, which are the functions that the
pointers of the image point at, in order; no other storage changes. A second lookup finds the
same address and does nothing. -/
theorem tlvGetAddr_first (hlibc : libc.Sound) (hm : HeaderIn s.mem mh header)
    (huse : ∀ x ∈ header, s.InUse x) (hquiet : libc.LeavesAlone header)
    (hget : tlvGetImageForKey s key = mh) (hmh : mh ≠ 0)
    (hpointers : ∀ p ∈ imagePointers s.mem mh, (∀ x ∈ (⟨p, 8⟩ : ByteRange), s.InUse x) ∧
      libc.LeavesAlone ⟨p, 8⟩) {d a : Nat}
    (hd : (∀ x ∈ (⟨d, 24⟩ : ByteRange), s.InUse x) ∧ libc.LeavesAlone ⟨d, 24⟩)
    (hkey : s.mem.readWord 8 (d + 8) = key) (hnone : s.specific thread key = 0)
    (hsize : (imageTemplate s.mem mh).size ≠ 0) (h : tlvGetAddr libc thread d s = (.ok a, s')) :
    ∃ block s₁, StorageMade libc s s₁ s' thread key mh block ∧
      a = ptrAdd block (s.mem.readWord 8 (d + 16)) ∧ tlvGetAddr libc thread d s' = (.ok a, s') := by
  rcases (tlvGetAddr_eq_ok hkey).mp h with ⟨hbad, -⟩ | ⟨-, block, hmake, ha⟩
  · exact absurd hnone hbad
  obtain ⟨hmalloc, hs'⟩ := (tlvAllocateAndInitializeForKey_eq_ok hlibc hm huse hquiet hget hmh
    hmake).2 hsize
  obtain ⟨hne, -, hapart⟩ := hlibc.malloc s _ _ hmalloc
  subst hs'
  have hmem : ∀ x, s.InUse x →
      (s.withStorage thread key block (imageTemplate s.mem mh)).mem x = s.mem x := by
    rintro x ⟨r, hr, hx⟩
    exact Mem.copy_of_notMem fun hbad => hapart r hr x hbad hx
  have hcalled := @afterCalls_called libc thread (imagePointers s.mem mh)
    (s.withStorage thread key block (imageTemplate s.mem mh)) fun p hp => (hpointers p hp).2
  have hmap : ((imagePointers s.mem mh).map fun p => (thread,
      (s.withStorage thread key block (imageTemplate s.mem mh)).mem.readWord 8 p))
      = (imagePointers s.mem mh).map fun p => (thread, s.mem.readWord 8 p) := by
    refine List.map_congr_left fun p hp => ?_
    rw [Mem.readWord_congr (withStorage_agree hlibc hmalloc (hpointers p hp).1)]
  rw [hmap] at hcalled
  have hdescriptor : AgreeOn ⟨d, 24⟩ s.mem ((s.withStorage thread key block
      (imageTemplate s.mem mh)).afterCalls libc thread (imagePointers s.mem mh)).mem := fun x hx =>
    (afterCalls_agree hd.2 _ _ x hx).trans (withStorage_agree hlibc hmalloc hd.1 x hx)
  have hset := afterCalls_specific libc thread (imagePointers s.mem mh)
    (s.withStorage thread key block (imageTemplate s.mem mh))
  refine ⟨block, s.withStorage thread key block (imageTemplate s.mem mh),
    ⟨⟨hne, hapart⟩, fun i hi => Mem.copy_of_lt hi, hmem, ?_, ⟨hset.symm, rfl⟩, rfl, hcalled⟩,
    ?_, ?_⟩
  · intro t k
    rw [hset]
    rfl
  · rw [ha, hdescriptor.readWord (ByteRange.within_mk (by omega) (by omega))]
  · have hkey' := (hdescriptor.readWord (ByteRange.within_mk (by omega) (by omega))).trans hkey
    have hset' : (s.withStorage thread key block (imageTemplate s.mem mh)).specific thread key
        = block := if_pos ⟨rfl, rfl⟩
    refine (tlvGetAddr_eq_ok hkey').mpr (.inl ?_)
    rw [hset, hset']
    exact ⟨hne, rfl, ha⟩

end

/-! ## The first lookup of a thread -/

theorem sampleThreadLoaded_inUse {r : ByteRange} (h : ByteRange.Within r ⟨0x1000, 504⟩) :
    ∀ x ∈ r, sampleThreadLoaded.InUse x := by
  have hlive : (⟨0x1000, 504⟩ : ByteRange) ∈ sampleThreadLoaded.live := by decide +kernel
  exact fun x hx => ⟨_, hlive, h x hx⟩

theorem sampleThreadLoaded_header : HeaderIn sampleThreadLoaded.mem 0x1000 ⟨0x1000, 424⟩ where
  machHeader := ByteRange.within_mk (by omega) (by omega)
  commands := by
    have hncmds : sampleThreadLoaded.mem.readWord 4 (0x1000 + 16) = 1 := by decide +kernel
    have hnsects : sampleThreadLoaded.mem.readWord 4 (0x1000 + 32 + 64) = 4 := by decide +kernel
    rw [hncmds]
    refine ⟨ByteRange.within_mk (by omega) (by omega), fun _ => ?_, trivial⟩
    rw [hnsects]
    exact ByteRange.within_mk (by omega) (by omega)

theorem sampleLibc_leavesAlone (r : ByteRange) : sampleLibc.LeavesAlone r := fun _ _ _ _ _ => rfl

theorem sampleThreadLoaded_pointers :
    imagePointers sampleThreadLoaded.mem 0x1000 = [0x11f0, 0x11e8] := by decide +kernel

/-- Thread 7 looks up the second variable, which is eight bytes into the block. -/
theorem sampleThread_firstLookup : ∃ block s₁,
    StorageMade sampleLibc sampleThreadLoaded s₁
      (tlvGetAddr sampleLibc 7 0x11c0 sampleThreadLoaded).2 7 256 0x1000 block ∧
    0x1280 = ptrAdd block (sampleThreadLoaded.mem.readWord 8 (0x11c0 + 16)) := by
  have hpointers : ∀ p ∈ imagePointers sampleThreadLoaded.mem 0x1000,
      (∀ x ∈ (⟨p, 8⟩ : ByteRange), sampleThreadLoaded.InUse x) ∧ sampleLibc.LeavesAlone ⟨p, 8⟩ := by
    rw [sampleThreadLoaded_pointers]
    intro p hp
    refine ⟨sampleThreadLoaded_inUse ?_, sampleLibc_leavesAlone _⟩
    rcases List.mem_cons.mp hp with rfl | hp
    · exact ByteRange.within_mk (by omega) (by omega)
    · obtain rfl := List.mem_singleton.mp hp
      exact ByteRange.within_mk (by omega) (by omega)
  have hok : (tlvGetAddr sampleLibc 7 0x11c0 sampleThreadLoaded).1 = .ok 0x1280 := by decide +kernel
  have hget : tlvGetImageForKey sampleThreadLoaded 256 = 0x1000 := by decide +kernel
  have hkey : sampleThreadLoaded.mem.readWord 8 (0x11c0 + 8) = 256 := by decide +kernel
  have hnone : sampleThreadLoaded.specific 7 256 = 0 := by decide +kernel
  have hsize : (imageTemplate sampleThreadLoaded.mem 0x1000).size = 16 := by decide +kernel
  obtain ⟨block, s₁, hmade, ha, -⟩ := tlvGetAddr_first sampleLibc_sound sampleThreadLoaded_header
    (sampleThreadLoaded_inUse (ByteRange.within_mk (by omega) (by omega)))
    (sampleLibc_leavesAlone _) hget (by decide) hpointers
    ⟨sampleThreadLoaded_inUse (ByteRange.within_mk (by omega) (by omega)),
      sampleLibc_leavesAlone _⟩
    hkey hnone (by rw [hsize]; decide) (Exec.eq_of_fst hok)
  exact ⟨block, s₁, hmade, ha⟩

/-- The initializers are called, the last one first. -/
example : (tlvGetAddr sampleLibc 7 0x11c0 sampleThreadLoaded).2.called
    = [(7, 0x3000), (7, 0x2000)] := by decide +kernel

end Dynld
