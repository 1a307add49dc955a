import Mathlib.Data.List.Pairwise
import Dynld.Lib.Memory

/-!
# Owners of ranges

Ranges of memory are given to owners, passed on, and taken back. Every range in use was
apart from those in use before it, so two owners never share a byte.
-/

namespace Ownership

open ByteRange

variable {ω : Type} {live : List ByteRange} {own own' : ω → Option ByteRange} {o o' : ω}
  {r r' : ByteRange}

/-- What is owned is in use, and has one owner. -/
structure Valid (live : List ByteRange) (own : ω → Option ByteRange) : Prop where
  separate : Separate live
  live : ∀ o r, own o = some r → r ∈ live ∧ 0 < r.len
  once : ∀ o o' r, own o = some r → own o' = some r → o = o'

/-- Ranges in use that start at one address are the same, but for empty ones. -/
theorem eq_of_start (h : Separate live) (hr : r ∈ live) (hr' : r' ∈ live) (hpos : 0 < r.len)
    (hpos' : 0 < r'.len) (hstart : r'.start = r.start) : r' = r := by
  by_cases heq : r' = r
  · exact heq
  have hsymm : Std.Symm Apart := ⟨fun _ _ h => h.symm⟩
  have hapart : Apart r' r := h.forall hr' hr heq
  have hr'r : r.start ∈ r' := mem_def.mpr ⟨by omega, by omega⟩
  exact absurd (mem_def.mpr ⟨Nat.le_refl _, by omega⟩) (hapart r.start hr'r)

/-- **Different owners share no byte.** -/
theorem Valid.apart (h : Valid live own) (ho : own o = some r) (ho' : own o' = some r')
    (hne : o ≠ o') : Apart r r' := by
  have hsymm : Std.Symm Apart := ⟨fun _ _ h => h.symm⟩
  refine h.separate.forall (h.live o r ho).1 (h.live o' r' ho').1 fun heq => hne ?_
  rw [← heq] at ho'
  exact h.once o o' r ho ho'

theorem Valid.congr (h : Valid live own) (hsame : ∀ o, own' o = own o) : Valid live own' := by
  refine ⟨h.separate, fun o r ho => h.live o r ?_, fun o o' r ho ho' => h.once o o' r ?_ ?_⟩
  · rw [← hsame, ho]
  · rw [← hsame, ho]
  · rw [← hsame, ho']

/-- More memory is in use. -/
theorem Valid.extend (h : Valid live own) (hfresh : ∀ r' ∈ live, Apart r r') :
    Valid (r :: live) own :=
  ⟨List.pairwise_cons.mpr ⟨hfresh, h.separate⟩,
    fun o s ho => ⟨List.mem_cons_of_mem r (h.live o s ho).1, (h.live o s ho).2⟩, h.once⟩

/-- An owner gets a range that nobody has. -/
theorem Valid.give (h : Valid live own) (hr : r ∈ live) (hpos : 0 < r.len)
    (hnone : ∀ o, own o ≠ some r) (ho : own' o = some r) (hsame : ∀ p, p ≠ o → own' p = own p) :
    Valid live own' := by
  have hold : ∀ {p s}, own' p = some s → p = o ∧ s = r ∨ p ≠ o ∧ own p = some s := by
    intro p s hp
    by_cases heq : p = o
    · rw [heq, ho] at hp
      exact .inl ⟨heq, (Option.some.inj hp).symm⟩
    · exact .inr ⟨heq, (hsame p heq).symm.trans hp⟩
  refine ⟨h.separate, fun p s hp => ?_, fun p q s hp hq => ?_⟩
  · rcases hold hp with ⟨-, rfl⟩ | ⟨-, hp⟩
    · exact ⟨hr, hpos⟩
    · exact h.live p s hp
  · rcases hold hp with ⟨rfl, rfl⟩ | ⟨-, hp⟩
    · rcases hold hq with ⟨rfl, -⟩ | ⟨-, hq⟩
      · rfl
      · exact absurd hq (hnone q)
    · rcases hold hq with ⟨-, rfl⟩ | ⟨-, hq⟩
      · exact absurd hp (hnone p)
      · exact h.once p q s hp hq

/-- An owner gives its range up. -/
theorem Valid.drop (h : Valid live own) (hnone : own' o = none)
    (hsame : ∀ p, p ≠ o → own' p = own p) : Valid live own' := by
  have hold : ∀ {p s}, own' p = some s → own p = some s := by
    intro p s hp
    by_cases heq : p = o
    · rw [heq, hnone] at hp
      cases hp
    · exact (hsame p heq).symm.trans hp
  exact ⟨h.separate, fun p s hp => h.live p s (hold hp), fun p q s hp hq =>
    h.once p q s (hold hp) (hold hq)⟩

/-- A range is passed on. -/
theorem Valid.pass (h : Valid live own) (ho : own o = some r) (hnone : own' o = none)
    (ho' : own' o' = some r) (hsame : ∀ p, p ≠ o → p ≠ o' → own' p = own p) : Valid live own' := by
  classical
  have hdrop : Valid live (fun p => if p = o then none else own p) :=
    h.drop (o := o) (if_pos rfl) fun p hp => if_neg hp
  have hgone : ∀ p, (fun p => if p = o then none else own p) p ≠ some r := by
    intro p hp
    dsimp only at hp
    by_cases heq : p = o
    · rw [if_pos heq] at hp
      cases hp
    · rw [if_neg heq] at hp
      exact heq (h.once p o r hp ho)
  refine hdrop.give (h.live o r ho).1 (h.live o r ho).2 hgone ho' fun p hp => ?_
  by_cases heq : p = o
  · rw [if_pos heq, heq, hnone]
  · rw [if_neg heq, hsame p heq hp]

/-- A range that nobody has is not in use any more: `free` goes by the address. -/
theorem Valid.release (h : Valid live own) (hr : r ∈ live) (hpos : 0 < r.len)
    (hnone : ∀ o, own o ≠ some r) : Valid (live.filter fun s => s.start != r.start) own := by
  refine ⟨h.separate.sublist List.filter_sublist, fun o s ho => ?_, h.once⟩
  obtain ⟨hs, hspos⟩ := h.live o s ho
  refine ⟨List.mem_filter.mpr ⟨hs, bne_iff_ne.mpr fun hbad => hnone o ?_⟩, hspos⟩
  rw [ho, eq_of_start h.separate hr hs hpos hspos hbad]

end Ownership
