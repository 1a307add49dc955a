import Dynld.Format.ChainedFixups

/-!
# One chain word

A chain word is taken apart into the fields it was put together from, in every
pointer format and whatever the table of imports looks like: parsing a word comes to
`recordParse` of the record in it.
-/

namespace Dynld

namespace Container

/-- The two top bits of a word. -/
theorem topBits (value : Nat) :
    ((value >>> 63) &&& 1 = value / 2 ^ 63 % 2) ∧ ((value >>> 62) &&& 1 = value / 2 ^ 62 % 2) :=
  ⟨Bits.shiftRight_and value 63 1, Bits.shiftRight_and value 62 1⟩

theorem signing_lt {diversity key : Nat} (hd : diversity < 2 ^ 16) (hk : key < 2 ^ 2)
    (addrDiv : Bool) : FixupRecord.signing diversity addrDiv key < 2 ^ 19 := by
  have ha : addrDiv.toNat ≤ 1 := Bool.toNat_le addrDiv
  unfold FixupRecord.signing
  omega

section

variable (c : Container) (offset : Nat) (importsFormat : DyldChainedImportFormatVariants)
  (importsOffset symbolsOffset : Nat)

/-- What a record comes to: a rebase is complete, and a bind has its import looked up. -/
def recordParse {n : Nat} (r : FixupRecord n) (next : Nat) : Outcome (Nat × Fixup) :=
  match r with
  | .rebase target high8 => .ok (next, { offset, kind := .rebase (target ||| high8 <<< 56) })
  | .authRebase target _ _ _ => .ok (next, { offset, kind := .rebase target })
  | .bind index addend =>
      c.bindParse offset importsFormat importsOffset symbolsOffset index next addend false
  | .authBind index _ _ _ =>
      c.bindParse offset importsFormat importsOffset symbolsOffset index next 0 true

end

section ParseOne

variable {c : Container} {n importsOffset symbolsOffset : Nat}
  {importsFormat : DyldChainedImportFormatVariants}

theorem fixup64ParseOne_word {r : FixupRecord n} {next : Nat} (offset : Nat) (hfit : r.Fits .ptr64)
    (hnext : next < 2 ^ 12) :
    c.fixup64ParseOne (r.word .ptr64 next) offset importsFormat importsOffset symbolsOffset
      = c.recordParse offset importsFormat importsOffset symbolsOffset r (next * 4) := by
  cases r with
  | rebase target high8 =>
      obtain ⟨ht, hh⟩ := hfit
      obtain ⟨f1, f2, f3⟩ := DyldChainedPtr64Rebase.fields
        (target + high8 * 2 ^ 36 + next * 2 ^ 51)
      have hbind : ¬ (target + high8 * 2 ^ 36 + next * 2 ^ 51) / 2 ^ 63 % 2 = 1 := by omega
      simp only [fixup64ParseOne, FixupRecord.word, topBits, if_neg hbind, f1, f2, f3]
      rw [show (target + high8 * 2 ^ 36 + next * 2 ^ 51) / 2 ^ 51 % 2 ^ 12 = next by omega,
        show (target + high8 * 2 ^ 36 + next * 2 ^ 51) / 2 ^ 36 % 2 ^ 8 = high8 by omega,
        show (target + high8 * 2 ^ 36 + next * 2 ^ 51) % 2 ^ 36 = target by omega]
      rfl
  | bind i addend =>
      obtain ⟨hi, ha⟩ := hfit
      obtain ⟨f1, f2, f3⟩ := DyldChainedPtr64Bind.fields
        (i.val + addend * 2 ^ 24 + next * 2 ^ 51 + 2 ^ 63)
      have hbind : (i.val + addend * 2 ^ 24 + next * 2 ^ 51 + 2 ^ 63) / 2 ^ 63 % 2 = 1 := by omega
      simp only [fixup64ParseOne, FixupRecord.word, topBits, if_pos hbind, f1, f2, f3]
      rw [show (i.val + addend * 2 ^ 24 + next * 2 ^ 51 + 2 ^ 63) / 2 ^ 51 % 2 ^ 12 = next by omega,
        show (i.val + addend * 2 ^ 24 + next * 2 ^ 51 + 2 ^ 63) / 2 ^ 24 % 2 ^ 8 = addend by omega,
        show (i.val + addend * 2 ^ 24 + next * 2 ^ 51 + 2 ^ 63) % 2 ^ 24 = i.val by omega]
      rfl
  | authRebase _ _ _ _ => exact absurd hfit id
  | authBind _ _ _ _ => exact absurd hfit id

theorem fixupArm64eParseOne_word {r : FixupRecord n} {next : Nat} (offset : Nat)
    (hfit : r.Fits .arm64e) (hnext : next < 2 ^ 11) :
    c.fixupArm64eParseOne (r.word .arm64e next) offset importsFormat importsOffset
        symbolsOffset
      = c.recordParse offset importsFormat importsOffset symbolsOffset r (next * 8) := by
  cases r with
  | rebase target high8 =>
      obtain ⟨ht, hh⟩ := hfit
      have hw : FixupRecord.word .arm64e (.rebase target high8 : FixupRecord n) next
          = target + high8 * 2 ^ 43 + next * 2 ^ 51 := rfl
      generalize FixupRecord.word .arm64e _ next = w at hw ⊢
      obtain ⟨f1, f2, f3⟩ := DyldChainedPtrArm64eRebase.fields w
      -- the two top bits choose the record, the rest are its fields
      have hbind : ¬ w / 2 ^ 62 % 2 = 1 := by omega
      have hauth : ¬ w / 2 ^ 63 % 2 = 1 := by omega
      have htarget : w % 2 ^ 43 = target := by omega
      have hhigh8 : w / 2 ^ 43 % 2 ^ 8 = high8 := by omega
      have hdist : w / 2 ^ 51 % 2 ^ 11 = next := by omega
      simp only [fixupArm64eParseOne, topBits, if_neg hbind, if_neg hauth, f1, f2, f3, htarget,
        hhigh8, hdist]
      rfl
  | authRebase target diversity addrDiv key =>
      obtain ⟨ht, hd, hk⟩ := hfit
      have hs := signing_lt hd hk addrDiv
      have hw : FixupRecord.word .arm64e
          (.authRebase target diversity addrDiv key : FixupRecord n) next
          = target + FixupRecord.signing diversity addrDiv key * 2 ^ 32 + next * 2 ^ 51 + 2 ^ 63 :=
        rfl
      generalize FixupRecord.word .arm64e _ next = w at hw ⊢
      obtain ⟨f1, f2⟩ := DyldChainedPtrArm64eAuthRebase.fields w
      have hbind : ¬ w / 2 ^ 62 % 2 = 1 := by omega
      have hauth : w / 2 ^ 63 % 2 = 1 := by omega
      have htarget : w % 2 ^ 32 = target := by omega
      have hdist : w / 2 ^ 51 % 2 ^ 11 = next := by omega
      simp only [fixupArm64eParseOne, topBits, if_neg hbind, if_pos hauth, f1, f2, htarget, hdist]
      rfl
  | bind i addend =>
      obtain ⟨hi, ha⟩ := hfit
      have hi : i.val < 2 ^ 16 := hi
      have hw : FixupRecord.word .arm64e (.bind i addend) next
          = i.val + addend * 2 ^ 32 + next * 2 ^ 51 + 2 ^ 62 := rfl
      generalize FixupRecord.word .arm64e _ next = w at hw ⊢
      obtain ⟨f1, f2, f3⟩ := DyldChainedPtrArm64eBind.fields w
      have hbind : w / 2 ^ 62 % 2 = 1 := by omega
      have hauth : ¬ w / 2 ^ 63 % 2 = 1 := by omega
      have hindex : w % 2 ^ 16 = i.val := by omega
      have haddend : w / 2 ^ 32 % 2 ^ 19 = addend := by omega
      have hdist : w / 2 ^ 51 % 2 ^ 11 = next := by omega
      simp only [fixupArm64eParseOne, topBits, if_pos hbind, if_neg hauth, f1, f2, f3, hindex,
        haddend, hdist]
      rfl
  | authBind i diversity addrDiv key =>
      obtain ⟨hi, hd, hk⟩ := hfit
      have hi : i.val < 2 ^ 16 := hi
      have hs := signing_lt hd hk addrDiv
      have hw : FixupRecord.word .arm64e (.authBind i diversity addrDiv key) next
          = i.val + FixupRecord.signing diversity addrDiv key * 2 ^ 32 + next * 2 ^ 51 + 2 ^ 62
            + 2 ^ 63 := rfl
      generalize FixupRecord.word .arm64e _ next = w at hw ⊢
      obtain ⟨f1, f2⟩ := DyldChainedPtrArm64eAuthBind.fields w
      have hbind : w / 2 ^ 62 % 2 = 1 := by omega
      have hauth : w / 2 ^ 63 % 2 = 1 := by omega
      have hindex : w % 2 ^ 16 = i.val := by omega
      have hdist : w / 2 ^ 51 % 2 ^ 11 = next := by omega
      simp only [fixupArm64eParseOne, topBits, if_pos hbind, if_pos hauth, f1, f2, hindex, hdist]
      rfl

/-- A rebase is parsed as one of `DYLD_CHAINED_PTR_ARM64E`. -/
theorem fixupArm64eUserland24ParseOne_of_rebase {value : Nat} (offset : Nat)
    (hbind : ¬ value / 2 ^ 62 % 2 = 1) :
    c.fixupArm64eUserland24ParseOne value offset importsFormat importsOffset symbolsOffset
      = c.fixupArm64eParseOne value offset importsFormat importsOffset symbolsOffset := by
  simp only [fixupArm64eUserland24ParseOne, topBits, if_neg hbind]

/-- Only the binds differ from `DYLD_CHAINED_PTR_ARM64E`, in the width of the index. -/
theorem fixupArm64eUserland24ParseOne_word {r : FixupRecord n} {next : Nat} (offset : Nat)
    (hfit : r.Fits .arm64eUserland24) (hnext : next < 2 ^ 11) :
    c.fixupArm64eUserland24ParseOne (r.word .arm64eUserland24 next) offset importsFormat
        importsOffset symbolsOffset
      = c.recordParse offset importsFormat importsOffset symbolsOffset r (next * 8) := by
  cases r with
  | rebase target high8 =>
      have hword : FixupRecord.word .arm64eUserland24 (.rebase target high8 : FixupRecord n) next
          = FixupRecord.word .arm64e (.rebase target high8 : FixupRecord n) next := rfl
      rw [hword, fixupArm64eUserland24ParseOne_of_rebase]
      · exact fixupArm64eParseOne_word offset hfit hnext
      · obtain ⟨ht, hh⟩ := hfit
        simp only [FixupRecord.word]
        omega
  | authRebase target diversity addrDiv key =>
      have hword : FixupRecord.word .arm64eUserland24
          (.authRebase target diversity addrDiv key : FixupRecord n) next
          = FixupRecord.word .arm64e
            (.authRebase target diversity addrDiv key : FixupRecord n) next := rfl
      rw [hword, fixupArm64eUserland24ParseOne_of_rebase]
      · exact fixupArm64eParseOne_word offset hfit hnext
      · obtain ⟨ht, hd, hk⟩ := hfit
        have hs := signing_lt hd hk addrDiv
        simp only [FixupRecord.word]
        omega
  | bind i addend =>
      obtain ⟨hi, ha⟩ := hfit
      have hi : i.val < 2 ^ 24 := hi
      have hw : FixupRecord.word .arm64eUserland24 (.bind i addend) next
          = i.val + addend * 2 ^ 32 + next * 2 ^ 51 + 2 ^ 62 := rfl
      generalize FixupRecord.word .arm64eUserland24 _ next = w at hw ⊢
      obtain ⟨f1, f2, f3⟩ := DyldChainedPtrArm64eBind24.fields w
      have hbind : w / 2 ^ 62 % 2 = 1 := by omega
      have hauth : ¬ w / 2 ^ 63 % 2 = 1 := by omega
      have hindex : w % 2 ^ 24 = i.val := by omega
      have haddend : w / 2 ^ 32 % 2 ^ 19 = addend := by omega
      have hdist : w / 2 ^ 51 % 2 ^ 11 = next := by omega
      simp only [fixupArm64eUserland24ParseOne, topBits, if_pos hbind, if_neg hauth, f1, f2, f3,
        hindex, haddend, hdist]
      rfl
  | authBind i diversity addrDiv key =>
      obtain ⟨hi, hd, hk⟩ := hfit
      have hi : i.val < 2 ^ 24 := hi
      have hs := signing_lt hd hk addrDiv
      have hw : FixupRecord.word .arm64eUserland24 (.authBind i diversity addrDiv key) next
          = i.val + FixupRecord.signing diversity addrDiv key * 2 ^ 32 + next * 2 ^ 51 + 2 ^ 62
            + 2 ^ 63 := rfl
      generalize FixupRecord.word .arm64eUserland24 _ next = w at hw ⊢
      obtain ⟨f1, f2⟩ := DyldChainedPtrArm64eAuthBind24.fields w
      have hbind : w / 2 ^ 62 % 2 = 1 := by omega
      have hauth : w / 2 ^ 63 % 2 = 1 := by omega
      have hindex : w % 2 ^ 24 = i.val := by omega
      have hdist : w / 2 ^ 51 % 2 ^ 11 = next := by omega
      simp only [fixupArm64eUserland24ParseOne, topBits, if_pos hbind, if_pos hauth, f1, f2,
        hindex, hdist]
      rfl

/-- A chain word is a 64-bit word. -/
theorem word_lt {n : Nat} {format : ChainFormat} {r : FixupRecord n} {next : Nat}
    (hfit : r.Fits format) (hnext : next < 2 ^ format.nextBits) : r.word format next < 2 ^ 64 := by
  cases r with
  | rebase target high8 =>
      cases format
      all_goals
        obtain ⟨ht, hh⟩ := hfit
        simp only [ChainFormat.nextBits] at hnext
        simp only [FixupRecord.word]
        omega
  | authRebase target diversity addrDiv key =>
      cases format
      case ptr64 | ptr64Offset => exact absurd hfit id
      all_goals
        obtain ⟨ht, hd, hk⟩ := hfit
        have hs := signing_lt hd hk addrDiv
        simp only [ChainFormat.nextBits] at hnext
        simp only [FixupRecord.word]
        omega
  | bind i addend =>
      cases format
      all_goals
        obtain ⟨hi, ha⟩ := hfit
        have hi : i.val < 2 ^ 24 := Nat.lt_of_lt_of_le hi (by decide)
        simp only [ChainFormat.nextBits] at hnext
        simp only [FixupRecord.word]
        omega
  | authBind i diversity addrDiv key =>
      cases format
      case ptr64 | ptr64Offset => exact absurd hfit id
      all_goals
        obtain ⟨hi, hd, hk⟩ := hfit
        have hs := signing_lt hd hk addrDiv
        have hi : i.val < 2 ^ 24 := Nat.lt_of_lt_of_le hi (by decide)
        simp only [ChainFormat.nextBits] at hnext
        simp only [FixupRecord.word]
        omega

/-- **A word is parsed into the record it was made from**, in every format. -/
theorem fixupParseOne_word {format : ChainFormat} {r : FixupRecord n} {next : Nat} (offset : Nat)
    (hfit : r.Fits format) (hnext : next < 2 ^ format.nextBits) :
    c.fixupParseOne (r.word format next) offset importsFormat importsOffset symbolsOffset
        format.variant
      = c.recordParse offset importsFormat importsOffset symbolsOffset r (next * format.stride) := by
  cases format with
  | ptr64 => exact fixup64ParseOne_word offset hfit hnext
  | ptr64Offset =>
      have hword : r.word .ptr64Offset next = r.word .ptr64 next := by cases r <;> rfl
      have hfit : r.Fits .ptr64 := by cases r <;> exact hfit
      rw [hword]
      exact fixup64ParseOne_word offset hfit hnext
  | arm64e => exact fixupArm64eParseOne_word offset hfit hnext
  | arm64eUserland =>
      have hword : r.word .arm64eUserland next = r.word .arm64e next := by cases r <;> rfl
      have hfit : r.Fits .arm64e := by cases r <;> exact hfit
      rw [hword]
      exact fixupArm64eParseOne_word offset hfit hnext
  | arm64eUserland24 => exact fixupArm64eUserland24ParseOne_word offset hfit hnext

end ParseOne

end Container

end Dynld
