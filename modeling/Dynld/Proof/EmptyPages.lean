import Dynld.Proof.FixupRoundTrip

/-!
# Pages without fixups

A page without fixups has `DYLD_CHAINED_PTR_START_NONE` where another page has the
offset of its first record. The page loop does not look for that value: it takes
it for an offset, and reads a word there.

`chainedFixupsReference` is the parser with the missing test. The two agree exactly
on the images that have no empty page.
-/

namespace Dynld

namespace Container

/-! ## The parser with the test -/

section Reference

variable (c : Container) (importsFormat : DyldChainedImportFormatVariants)
  (importsOffset symbolsOffset : Nat)

/-- The `page_start` entry of a page. -/
def pageStartEntry (segStartsOffset pageIndex : Nat) : Option Nat :=
  c.u16 (segStartsOffset + pageStartsOffset + pageIndex * 2)

/-- The page has no fixups. -/
def PageEmpty (segStartsOffset pageIndex : Nat) : Prop :=
  c.pageStartEntry segStartsOffset pageIndex = some dyldChainedPtrStartNone

instance (segStartsOffset pageIndex : Nat) : Decidable (c.PageEmpty segStartsOffset pageIndex) :=
  inferInstanceAs (Decidable (_ = _))

def pagesReference (starts : DyldChainedStartsInSegment) (segStartsOffset : Nat) :
    Nat → Nat → Outcome (List Fixup)
  | 0, _ => .ok []
  | n + 1, pageIndex => do
      let fixups ←
        if c.PageEmpty segStartsOffset pageIndex then .ok []
        else
          (c.pageParse importsFormat importsOffset symbolsOffset starts segStartsOffset pageIndex).2
      let rest ← pagesReference starts segStartsOffset n (pageIndex + 1)
      .ok (fixups ++ rest)

def segmentsReference (startsOffset : Nat) : Nat → Nat → Outcome (List Fixup)
  | 0, _ => .ok []
  | n + 1, segOffsetIndex => do
      let segOffsetAddress := startsOffset + dyldChainedStartsInImageSize + segOffsetIndex * 4
      let segOffset ← Outcome.okOr (c.u32 segOffsetAddress)
        "error: could not find `dyld_chained_starts_in_image`"
      if segOffset = 0 then segmentsReference startsOffset n (segOffsetIndex + 1)
      else do
        let segStartsOffset ← Outcome.add 32 startsOffset segOffset
        let starts ← Outcome.okOr (c.dyldChainedStartsInSegment segStartsOffset)
          "error: could not read `dyld_chained_starts_in_segment` from a segment offset"
        let fixups ← c.pagesReference importsFormat importsOffset symbolsOffset starts
          segStartsOffset starts.pageCount 0
        let rest ← segmentsReference startsOffset n (segOffsetIndex + 1)
        .ok (fixups ++ rest)

/-- The fixups of every page that has some. -/
def chainedFixupsReference : Outcome (List Fixup) := do
  match ← c.fixupTablesFind with
  | none => .ok []
  | some t =>
      c.segmentsReference t.importsFormat t.importsOffset t.symbolsOffset t.startsOffset t.segCount 0

/-- A page of the image. -/
structure IsPage (t : FixupTables) (starts : DyldChainedStartsInSegment)
    (segStartsOffset pageIndex : Nat) : Prop where
  tables : c.fixupTablesFind = .ok (some t)
  segment : ∃ i < t.segCount, ∃ segOffset,
    c.u32 (t.startsOffset + dyldChainedStartsInImageSize + i * 4) = some segOffset ∧
      segOffset ≠ 0 ∧ segStartsOffset = t.startsOffset + segOffset
  starts_at : c.dyldChainedStartsInSegment segStartsOffset = some starts
  index_lt : pageIndex < starts.pageCount

/-- Empty pages are treated as such. -/
structure EmptyPagesSkipped : Prop where
  /-- An empty page has no fixup, and none of its words is read. -/
  skipped : ∀ t starts segStartsOffset pageIndex, c.IsPage t starts segStartsOffset pageIndex →
    c.PageEmpty segStartsOffset pageIndex →
    c.pageParse t.importsFormat t.importsOffset t.symbolsOffset starts segStartsOffset pageIndex
      = ([], .ok [])
  /-- The other pages have the fixups they would have without it. -/
  others : c.chainedFixupsParseAll = c.chainedFixupsReference

end Reference

/-! ## No page is skipped -/

section NoSkip

variable {c : Container} {importsFormat : DyldChainedImportFormatVariants}
  {importsOffset symbolsOffset : Nat}

/-- The loop of a chain is entered with a read. -/
theorem chainLoop_reads (pointerFormat : DyldChainedPtrFormatVariants) (fuel chainOffset : Nat) :
    (c.chainLoop importsFormat importsOffset symbolsOffset pointerFormat (fuel + 1)
      chainOffset).1 ≠ [] := by
  rw [chainLoop]
  cases c.chainStep importsFormat importsOffset symbolsOffset pointerFormat chainOffset with
  | ok step =>
      obtain ⟨nextOffset, fixup⟩ := step
      by_cases hzero : nextOffset = 0
      · simp [hzero]
      · simp [hzero]
  | err msg => simp
  | panic msg => simp
  | outOfFuel => simp

/-- A page is read or fails, whatever its `page_start` entry. -/
theorem pageParse_ne (starts : DyldChainedStartsInSegment) (segStartsOffset pageIndex : Nat) :
    c.pageParse importsFormat importsOffset symbolsOffset starts segStartsOffset pageIndex
      ≠ ([], .ok []) := by
  intro h
  rw [pageParse] at h
  split at h
  · exact chainLoop_reads _ _ _ (congrArg Prod.fst h)
  · exact absurd (congrArg Prod.snd h) (by simp)
  · exact absurd (congrArg Prod.snd h) (by simp)
  · exact absurd (congrArg Prod.snd h) (by simp)

/-- Pages without an empty one among them are read as if the test were there. -/
theorem pagesParse_eq_reference (starts : DyldChainedStartsInSegment) {segStartsOffset : Nat} :
    ∀ {n i : Nat}, (∀ j, i ≤ j → j < i + n → ¬ c.PageEmpty segStartsOffset j) →
      c.pagesParse importsFormat importsOffset symbolsOffset starts segStartsOffset n i
        = c.pagesReference importsFormat importsOffset symbolsOffset starts segStartsOffset n i := by
  intro n
  induction n with
  | zero =>
    intro _ _
    rfl
  | succ n ih =>
    intro i h
    have hrest := ih (i := i + 1) fun j hi hj => h j (by omega) (by omega)
    rw [pagesParse, pagesReference, if_neg (h i (Nat.le_refl i) (by omega)), hrest]

theorem segmentsParse_eq_reference {startsOffset : Nat} :
    ∀ {n i : Nat}, (∀ k, i ≤ k → k < i + n → ∀ segOffset,
        c.u32 (startsOffset + dyldChainedStartsInImageSize + k * 4) = some segOffset →
        segOffset ≠ 0 → ∀ starts, c.dyldChainedStartsInSegment (startsOffset + segOffset)
          = some starts → ∀ j < starts.pageCount, ¬ c.PageEmpty (startsOffset + segOffset) j) →
      c.segmentsParse importsFormat importsOffset symbolsOffset startsOffset n i
        = c.segmentsReference importsFormat importsOffset symbolsOffset startsOffset n i := by
  intro n
  induction n with
  | zero =>
    intro _ _
    rfl
  | succ n ih =>
    intro i h
    have hrest := ih (i := i + 1) fun k hi hk => h k (by omega) (by omega)
    rw [segmentsParse, segmentsReference, hrest]
    cases hoff : c.u32 (startsOffset + dyldChainedStartsInImageSize + i * 4) with
    | none => rfl
    | some segOffset =>
        simp only [Outcome.okOr_some, Outcome.ok_bind]
        by_cases hzero : segOffset = 0
        · rw [if_pos hzero, if_pos hzero]
        · rw [if_neg hzero, if_neg hzero]
          by_cases hadd : startsOffset + segOffset < 2 ^ 32
          · rw [Outcome.add_of_lt hadd, Outcome.ok_bind, Outcome.ok_bind]
            cases hstarts : c.dyldChainedStartsInSegment (startsOffset + segOffset) with
            | none => rfl
            | some starts =>
                simp only [Outcome.okOr_some, Outcome.ok_bind]
                rw [pagesParse_eq_reference starts fun j _ hj =>
                  h i (Nat.le_refl i) (by omega) segOffset hoff hzero starts hstarts j (by omega)]
          · rw [Outcome.add, if_neg hadd]
            rfl

end NoSkip

end Container

/-- **Empty pages are treated as such exactly in images that have none.** -/
theorem emptyPagesSkipped_iff (c : Container) :
    c.EmptyPagesSkipped ↔ ∀ t starts segStartsOffset pageIndex,
      c.IsPage t starts segStartsOffset pageIndex → ¬ c.PageEmpty segStartsOffset pageIndex := by
  constructor
  · intro h t starts segStartsOffset pageIndex hpage hempty
    exact Container.pageParse_ne _ _ _ (h.skipped t starts segStartsOffset pageIndex hpage hempty)
  · intro h
    refine ⟨fun t starts seg i hpage hempty => absurd hempty (h t starts seg i hpage), ?_⟩
    rw [Container.chainedFixupsParseAll, Container.chainedFixupsReference]
    cases hfind : c.fixupTablesFind with
    | err msg => rfl
    | panic msg => rfl
    | outOfFuel => rfl
    | ok found =>
        cases found with
        | none => rfl
        | some t =>
            refine Container.segmentsParse_eq_reference ?_
            intro k _ hk segOffset hoff hzero starts hstarts j hj
            exact h t starts _ j ⟨hfind, ⟨k, by omega, segOffset, hoff, hzero, rfl⟩, hstarts, hj⟩

/-- The small image with its only page marked as empty. It is well formed and has no fixup, but
the parser follows `0xFFFF` past its end. -/
theorem emptyPage_not_skipped :
    (sampleImage dyldChainedPtrStartNone).chainedFixupsReference = .ok [] ∧
      (sampleImage dyldChainedPtrStartNone).chainedFixupsParseAll
        = .err "error: could read the fixup value from a chain_offset" ∧
      ¬ (sampleImage dyldChainedPtrStartNone).EmptyPagesSkipped := by
  have href : (sampleImage dyldChainedPtrStartNone).chainedFixupsReference = .ok [] := by
    decide +kernel
  have hparse : (sampleImage dyldChainedPtrStartNone).chainedFixupsParseAll
      = .err "error: could read the fixup value from a chain_offset" := by
    decide +kernel
  refine ⟨href, hparse, fun h => ?_⟩
  have hothers := h.others
  rw [href, hparse] at hothers
  exact absurd hothers (by simp)

end Dynld
