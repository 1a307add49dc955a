import Dynld.ThreadLocals
import Dynld.Lib.Patch

/-!
# The sections of an image in memory

The three loops of `libtlv` go over the load commands of an image and over the sections
of its segments. As long as what is done for a section does not write to the load
commands, the loops go through one list, which can be read off the memory beforehand.
-/

namespace Dynld

/-! ## What is gone through -/

/-- The addresses of the sections of a segment. -/
def sectionAddresses : Nat → Nat → List Nat
  | 0, _ => []
  | remaining + 1, sect => sect :: sectionAddresses remaining (sect + 80)

/-- The slide behind a load command. -/
def commandSlide (m : Mem) (mh cmd : Nat) (slide : Slide) : Slide :=
  if m.readWord 4 cmd = 0x19 then slide.update m mh cmd else slide

/-- The sections that a load command has. -/
def commandSections (m : Mem) (cmd : Nat) : List Nat :=
  if m.readWord 4 cmd = 0x19 then sectionAddresses (m.readWord 4 (cmd + 64)) (cmd + 72) else []

/-- The sections of an image, each with the slide that is known when the loops come to it. -/
def imageSections (m : Mem) (mh : Nat) : Nat → Nat → Slide → List (Slide × Nat)
  | 0, _, _ => []
  | remaining + 1, cmd, slide =>
      (commandSections m cmd).map (commandSlide m mh cmd slide, ·)
        ++ imageSections m mh remaining (cmd + m.readWord 4 (cmd + 4)) (commandSlide m mh cmd slide)

/-- The slide when the loops are done. -/
def imageSlide (m : Mem) (mh : Nat) : Nat → Nat → Slide → Slide
  | 0, _, slide => slide
  | remaining + 1, cmd, slide =>
      imageSlide m mh remaining (cmd + m.readWord 4 (cmd + 4)) (commandSlide m mh cmd slide)

/-- The load commands, with the sections of the segments, are in this range. -/
def CommandsWithin (m : Mem) (header : ByteRange) : Nat → Nat → Prop
  | 0, _ => True
  | remaining + 1, cmd =>
      ByteRange.Within ⟨cmd, 8⟩ header ∧
      (m.readWord 4 cmd = 0x19 →
        ByteRange.Within ⟨cmd, 72 + 80 * m.readWord 4 (cmd + 64)⟩ header) ∧
      CommandsWithin m header remaining (cmd + m.readWord 4 (cmd + 4))

/-! ## It is read from the load commands only -/

/-- The memories agree on a range. -/
def AgreeOn (r : ByteRange) (m m' : Mem) : Prop := ∀ x ∈ r, m' x = m x

section

variable {m m' : Mem} {mh cmd : Nat} {header : ByteRange} {slide : Slide}

theorem AgreeOn.readWord (h : AgreeOn header m m') {w a : Nat}
    (hin : ByteRange.Within ⟨a, w⟩ header) : m'.readWord w a = m.readWord w a :=
  Mem.readWord_congr fun x hx => h x (hin x hx)

/-- A field of something that is in a range. -/
theorem within_field {a n b w : Nat} (h : ByteRange.Within ⟨a, n⟩ header) (hlo : a ≤ b)
    (hhi : b + w ≤ a + n) : ByteRange.Within ⟨b, w⟩ header :=
  (ByteRange.within_mk hlo hhi).trans h

theorem commandSlide_congr (h : AgreeOn header m m') (hcmd : ByteRange.Within ⟨cmd, 8⟩ header)
    (hseg : m.readWord 4 cmd = 0x19 →
      ByteRange.Within ⟨cmd, 72 + 80 * m.readWord 4 (cmd + 64)⟩ header) :
    commandSlide m' mh cmd slide = commandSlide m mh cmd slide := by
  have hkind : m'.readWord 4 cmd = m.readWord 4 cmd :=
    h.readWord (within_field hcmd (by omega) (by omega))
  unfold commandSlide
  rw [hkind]
  split
  · rename_i his
    have hin := hseg his
    have hvmaddr : m'.readWord 8 (cmd + 24) = m.readWord 8 (cmd + 24) :=
      h.readWord (within_field hin (by omega) (by omega))
    have hfilesize : m'.readWord 8 (cmd + 48) = m.readWord 8 (cmd + 48) :=
      h.readWord (within_field hin (by omega) (by omega))
    unfold Slide.update
    rw [hvmaddr, hfilesize]
  · rfl

theorem commandSections_congr (h : AgreeOn header m m') (hcmd : ByteRange.Within ⟨cmd, 8⟩ header)
    (hseg : m.readWord 4 cmd = 0x19 →
      ByteRange.Within ⟨cmd, 72 + 80 * m.readWord 4 (cmd + 64)⟩ header) :
    commandSections m' cmd = commandSections m cmd := by
  have hkind : m'.readWord 4 cmd = m.readWord 4 cmd :=
    h.readWord (within_field hcmd (by omega) (by omega))
  unfold commandSections
  rw [hkind]
  split
  · rename_i his
    have hnsects : m'.readWord 4 (cmd + 64) = m.readWord 4 (cmd + 64) :=
      h.readWord (within_field (hseg his) (by omega) (by omega))
    rw [hnsects]
  · rfl

theorem CommandsWithin.congr (h : AgreeOn header m m') : ∀ {remaining cmd : Nat},
    CommandsWithin m header remaining cmd → CommandsWithin m' header remaining cmd
  | 0, _, _ => trivial
  | remaining + 1, cmd, ⟨hcmd, hseg, hrest⟩ => by
      have hkind : m'.readWord 4 cmd = m.readWord 4 cmd :=
        h.readWord (within_field hcmd (by omega) (by omega))
      have hcmdsize : m'.readWord 4 (cmd + 4) = m.readWord 4 (cmd + 4) :=
        h.readWord (within_field hcmd (by omega) (by omega))
      refine ⟨hcmd, fun his => ?_, ?_⟩
      · rw [hkind] at his
        have hnsects : m'.readWord 4 (cmd + 64) = m.readWord 4 (cmd + 64) :=
          h.readWord (within_field (hseg his) (by omega) (by omega))
        rw [hnsects]
        exact hseg his
      · rw [hcmdsize]
        exact CommandsWithin.congr h hrest

/-- **The sections of an image are read from its load commands.** -/
theorem imageSections_congr (h : AgreeOn header m m') : ∀ {remaining cmd : Nat} {slide : Slide},
    CommandsWithin m header remaining cmd →
    imageSections m' mh remaining cmd slide = imageSections m mh remaining cmd slide ∧
      imageSlide m' mh remaining cmd slide = imageSlide m mh remaining cmd slide
  | 0, _, _, _ => ⟨rfl, rfl⟩
  | remaining + 1, cmd, slide, ⟨hcmd, hseg, hrest⟩ => by
      have hcmdsize : m'.readWord 4 (cmd + 4) = m.readWord 4 (cmd + 4) :=
        h.readWord (within_field hcmd (by omega) (by omega))
      have hslide : commandSlide m' mh cmd slide = commandSlide m mh cmd slide :=
        commandSlide_congr h hcmd hseg
      obtain ⟨hsections, hend⟩ :=
        @imageSections_congr h remaining _ (commandSlide m mh cmd slide) hrest
      rw [imageSections, imageSections, imageSlide, imageSlide, hslide, hcmdsize,
        commandSections_congr h hcmd hseg, hsections, hend]
      exact ⟨rfl, rfl⟩

end

/-! ## The loops go through that list -/

section

variable {σ : Type} {visit : Slide → Nat → σ → Exec Tlv σ}

/-- What the loops do with a section. -/
def sectionVisit (visit : Slide → Nat → σ → Exec Tlv σ) (sect : Slide × Nat) : σ → Exec Tlv σ :=
  visit sect.1 sect.2

theorem sectionsLoop_eq (slide : Slide) : ∀ (remaining sect : Nat) (s : σ),
    sectionsLoop visit slide remaining sect s
      = Exec.fold (sectionVisit visit) ((sectionAddresses remaining sect).map (slide, ·)) s
  | 0, _, _ => rfl
  | remaining + 1, sect, s => by
      have ih := sectionsLoop_eq slide remaining (sect + 80)
      show (do
          let s ← visit slide sect s
          sectionsLoop visit slide remaining (sect + 80) s) = _
      simp only [ih]
      rfl

/-- The sections of one load command. -/
theorem commandVisit_eq_ok {mh cmd : Nat} {slide slide' : Slide} {s s' : σ} {w w' : Tlv} :
    commandVisit visit mh cmd slide s w = (.ok (slide', s'), w') ↔
      slide' = commandSlide w.mem mh cmd slide ∧
      Exec.fold (sectionVisit visit)
        ((commandSections w.mem cmd).map (commandSlide w.mem mh cmd slide, ·)) s w
          = (.ok s', w') := by
  have hread : commandVisit visit mh cmd slide s w
      = (if w.mem.readWord 4 cmd = 0x19 then (do
          let s ← sectionsLoop visit (slide.update w.mem mh cmd) (w.mem.readWord 4 (cmd + 64))
            (cmd + 72) s
          pure (slide.update w.mem mh cmd, s))
        else pure (slide, s) : Exec Tlv (Slide × σ)) w := by
    unfold commandVisit
    rw [Exec.bind_run]
    show (if w.mem.readWord 4 cmd = 0x19 then _ else _ : Exec Tlv (Slide × σ)) w = _
    split
    · rfl
    · rfl
  rw [hread]
  unfold commandSlide commandSections
  split
  · rw [sectionsLoop_eq, Exec.bind_eq_ok]
    constructor
    · rintro ⟨s₁, w₁, hfold, hpure⟩
      obtain ⟨hpair, rfl⟩ := Prod.mk.inj hpure
      obtain ⟨rfl, rfl⟩ := Prod.mk.inj (Outcome.ok.inj hpair)
      exact ⟨rfl, hfold⟩
    · rintro ⟨rfl, hfold⟩
      exact ⟨s', w', hfold, rfl⟩
  · constructor
    · intro h
      obtain ⟨hpair, rfl⟩ := Prod.mk.inj h
      obtain ⟨rfl, rfl⟩ := Prod.mk.inj (Outcome.ok.inj hpair)
      exact ⟨rfl, rfl⟩
    · rintro ⟨rfl, h⟩
      obtain ⟨hs, rfl⟩ := Prod.mk.inj h
      rw [Outcome.ok.inj hs]
      rfl

/-- **The rule for the loops**: if what is done for a section keeps the load commands as they are,
then it is done for the sections of the image in order. -/
theorem commandsLoop_eq_ok {P : σ → Tlv → Prop} {m : Mem} {header : ByteRange} {mh : Nat}
    (hagree : ∀ s w, P s w → AgreeOn header m w.mem) : ∀ {remaining cmd : Nat}
    {slide slide' : Slide} {s s' : σ} {w w' : Tlv},
    CommandsWithin m header remaining cmd →
    (∀ sect ∈ imageSections m mh remaining cmd slide, ∀ s w s' w', P s w →
      sectionVisit visit sect s w = (.ok s', w') → P s' w') → P s w →
    (commandsLoop visit mh remaining cmd slide s w = (.ok (slide', s'), w') ↔
      slide' = imageSlide m mh remaining cmd slide ∧
      Exec.fold (sectionVisit visit) (imageSections m mh remaining cmd slide) s w
        = (.ok s', w')) := by
  intro remaining
  induction remaining with
  | zero =>
    intro cmd slide slide' s s' w w' _ _ _
    constructor
    · intro h
      obtain ⟨hpair, rfl⟩ := Prod.mk.inj h
      obtain ⟨rfl, rfl⟩ := Prod.mk.inj (Outcome.ok.inj hpair)
      exact ⟨rfl, rfl⟩
    · rintro ⟨rfl, h⟩
      obtain ⟨hs, rfl⟩ := Prod.mk.inj h
      rw [Outcome.ok.inj hs]
      rfl
  | succ remaining ih =>
    intro cmd slide slide' s s' w w' hwithin hkeep hP
    obtain ⟨hcmd, hseg, hrest⟩ := hwithin
    have hstart := hagree s w hP
    have hslide : commandSlide w.mem mh cmd slide = commandSlide m mh cmd slide :=
      commandSlide_congr hstart hcmd hseg
    have hsections := commandSections_congr hstart hcmd hseg
    have hkeep₁ : ∀ sect ∈ (commandSections m cmd).map (commandSlide m mh cmd slide, ·),
        ∀ s w s' w', P s w → sectionVisit visit sect s w = (.ok s', w') → P s' w' :=
      fun sect hsect => hkeep sect (List.mem_append_left _ hsect)
    have hkeep₂ := fun sect hsect => hkeep sect (List.mem_append_right _ hsect)
    -- the size of the command is read after its sections were visited
    have hcmdsize : ∀ s₁ w₁, P s₁ w₁ → w₁.mem.readWord 4 (cmd + 4) = m.readWord 4 (cmd + 4) :=
      fun s₁ w₁ hP₁ => (hagree s₁ w₁ hP₁).readWord (within_field hcmd (by omega) (by omega))
    rw [commandsLoop, imageSections, imageSlide, Exec.bind_eq_ok, Exec.fold_append]
    constructor
    · rintro ⟨⟨slide₁, s₁⟩, w₁, hvisit, hloop⟩
      obtain ⟨rfl, hfold⟩ := commandVisit_eq_ok.mp hvisit
      rw [hslide, hsections] at hfold
      have hP₁ := Exec.fold_induction hkeep₁ hP hfold
      have hloop : commandsLoop visit mh remaining (cmd + w₁.mem.readWord 4 (cmd + 4))
          (commandSlide w.mem mh cmd slide) s₁ w₁ = (.ok (slide', s'), w') := hloop
      rw [hslide, hcmdsize s₁ w₁ hP₁] at hloop
      obtain ⟨hend, hfold'⟩ := (ih hrest hkeep₂ hP₁).mp hloop
      exact ⟨hend, s₁, w₁, hfold, hfold'⟩
    · rintro ⟨hend, s₁, w₁, hfold, hfold'⟩
      have hP₁ := Exec.fold_induction hkeep₁ hP hfold
      rw [← hslide, ← hsections] at hfold
      refine ⟨(commandSlide w.mem mh cmd slide, s₁), w₁, commandVisit_eq_ok.mpr ⟨rfl, hfold⟩, ?_⟩
      show commandsLoop visit mh remaining (cmd + w₁.mem.readWord 4 (cmd + 4))
          (commandSlide w.mem mh cmd slide) s₁ w₁ = (.ok (slide', s'), w')
      rw [hslide, hcmdsize s₁ w₁ hP₁]
      exact (ih hrest hkeep₂ hP₁).mpr ⟨hend, hfold'⟩

end

end Dynld
