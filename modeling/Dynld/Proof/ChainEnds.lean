import Dynld.Format.ChainedFixups
import Dynld.Proof.Ends

/-!
# Every chain ends

How far it is to the next word of a chain is written in the word itself, so the bytes
decide how the loop goes on. Whatever they are, a distance is a small multiple of the
stride of the format. A chain goes forward by at least four bytes or not at all: it has
left the container after a quarter as many words as there are bytes, and the read there
fails.
-/

namespace Dynld

namespace Container

/-! ## One word -/

section Word

variable {c : Container} {importsFormat : DyldChainedImportFormatVariants}
  {importsOffset symbolsOffset value offset next : Nat} {fixup : Fixup} {format : ChainFormat}

/-- The bits of a word make a fixup, or they name an import that makes one. The distance to the
next word is in units of the stride. -/
inductive WordParsed (c : Container) (importsFormat : DyldChainedImportFormatVariants)
    (importsOffset symbolsOffset offset : Nat) (format : ChainFormat) :
    Outcome (Nat × Fixup) → Prop where
  | rebase {units : Nat} {fixup : Fixup} : units < 2 ^ format.nextBits →
      WordParsed c importsFormat importsOffset symbolsOffset offset format
        (.ok (units * format.stride, fixup))
  | bind {ordinal units addend : Nat} {isAuth : Bool} : units < 2 ^ format.nextBits →
      WordParsed c importsFormat importsOffset symbolsOffset offset format
        (c.bindParse offset importsFormat importsOffset symbolsOffset ordinal
          (units * format.stride) addend isAuth)

theorem fixup64ParseOne_parsed (hstride : format.stride = 4) (hbits : format.nextBits = 12) :
    WordParsed c importsFormat importsOffset symbolsOffset offset format
      (c.fixup64ParseOne value offset importsFormat importsOffset symbolsOffset) := by
  unfold fixup64ParseOne
  rw [← hstride]
  dsimp only
  split
  · refine .bind ?_
    rw [(DyldChainedPtr64Bind.fields value).2.2, hbits]
    omega
  · refine .rebase ?_
    rw [(DyldChainedPtr64Rebase.fields value).2.2, hbits]
    omega

theorem fixupArm64eParseOne_parsed (hstride : format.stride = 8) (hbits : format.nextBits = 11) :
    WordParsed c importsFormat importsOffset symbolsOffset offset format
      (c.fixupArm64eParseOne value offset importsFormat importsOffset symbolsOffset) := by
  unfold fixupArm64eParseOne
  rw [← hstride]
  dsimp only
  split
  · split
    · refine .bind ?_
      rw [(DyldChainedPtrArm64eAuthBind.fields value).2, hbits]
      omega
    · refine .bind ?_
      rw [(DyldChainedPtrArm64eBind.fields value).2.2, hbits]
      omega
  · split
    · refine .rebase ?_
      rw [(DyldChainedPtrArm64eAuthRebase.fields value).2, hbits]
      omega
    · refine .rebase ?_
      rw [(DyldChainedPtrArm64eRebase.fields value).2.2, hbits]
      omega

theorem fixupArm64eUserland24ParseOne_parsed (hstride : format.stride = 8)
    (hbits : format.nextBits = 11) :
    WordParsed c importsFormat importsOffset symbolsOffset offset format
      (c.fixupArm64eUserland24ParseOne value offset importsFormat importsOffset
        symbolsOffset) := by
  have hrebase := @fixupArm64eParseOne_parsed c importsFormat importsOffset symbolsOffset value
    offset format hstride hbits
  unfold fixupArm64eUserland24ParseOne
  rw [← hstride]
  dsimp only
  split
  · split
    · refine .bind ?_
      rw [(DyldChainedPtrArm64eAuthBind24.fields value).2, hbits]
      omega
    · refine .bind ?_
      rw [(DyldChainedPtrArm64eBind24.fields value).2.2, hbits]
      omega
  · exact hrebase

theorem fixupParseOne_parsed (format : ChainFormat) :
    WordParsed c importsFormat importsOffset symbolsOffset offset format
      (c.fixupParseOne value offset importsFormat importsOffset symbolsOffset
        format.variant) := by
  cases format with
  | ptr64 => exact fixup64ParseOne_parsed rfl rfl
  | ptr64Offset => exact fixup64ParseOne_parsed rfl rfl
  | arm64e => exact fixupArm64eParseOne_parsed rfl rfl
  | arm64eUserland => exact fixupArm64eParseOne_parsed rfl rfl
  | arm64eUserland24 => exact fixupArm64eUserland24ParseOne_parsed rfl rfl

/-- The loop does not go on behind the word at `offset`. -/
inductive ChainLast (c : Container) (importsFormat : DyldChainedImportFormatVariants)
    (importsOffset symbolsOffset : Nat) (format : ChainFormat) (offset : Nat) : Prop where
  /-- Its `next` is zero. -/
  | zeroNext (fixup : Fixup)
      (step : c.chainStep importsFormat importsOffset symbolsOffset format.variant offset
        = .ok (0, fixup))
  /-- It is not inside the container. -/
  | readFails (read : c.u64 offset = none)
  /-- Its import cannot be looked up. -/
  | importFails (value ordinal units addend : Nat) (isAuth : Bool)
      (read : c.u64 offset = some value)
      (bind : c.fixupParseOne value offset importsFormat importsOffset symbolsOffset format.variant
        = c.bindParse offset importsFormat importsOffset symbolsOffset ordinal
          (units * format.stride) addend isAuth)
      (fails : ∀ r, c.importSymbolParse ordinal importsFormat importsOffset symbolsOffset ≠ .ok r)

/-- The loop goes on behind the word at `offset`, by four bytes or more. -/
inductive ChainGoesOn (c : Container) (importsFormat : DyldChainedImportFormatVariants)
    (importsOffset symbolsOffset : Nat) (format : ChainFormat) (offset : Nat) : Prop where
  | step (next : Nat) (fixup : Fixup)
      (step : c.chainStep importsFormat importsOffset symbolsOffset format.variant offset
        = .ok (next, fixup))
      (le_next : 4 ≤ next) (next_lt : next < 2 ^ 15) (bound : offset + 8 ≤ c.data.length)

/-- A word that makes a fixup has a distance of zero, or of some strides. -/
theorem chainStep_of_units {units : Nat} (hunits : units < 2 ^ format.nextBits)
    (hbound : offset + 8 ≤ c.data.length)
    (hstep : c.chainStep importsFormat importsOffset symbolsOffset format.variant offset
      = .ok (units * format.stride, fixup)) :
    ChainLast c importsFormat importsOffset symbolsOffset format offset ∨
      ChainGoesOn c importsFormat importsOffset symbolsOffset format offset := by
  rcases Nat.eq_zero_or_pos units with rfl | hpos
  · rw [Nat.zero_mul] at hstep
    exact .inl (.zeroNext fixup hstep)
  · refine .inr (.step _ fixup hstep ?_ ?_ hbound)
    · cases format <;> simp only [ChainFormat.stride] <;> omega
    · cases format <;> simp only [ChainFormat.stride, ChainFormat.nextBits] at hunits ⊢ <;> omega

theorem chainStep_cases (c : Container) (importsFormat : DyldChainedImportFormatVariants)
    (importsOffset symbolsOffset : Nat) (format : ChainFormat) (offset : Nat) :
    ChainLast c importsFormat importsOffset symbolsOffset format offset ∨
      ChainGoesOn c importsFormat importsOffset symbolsOffset format offset := by
  cases hread : c.u64 offset with
  | none => exact .inl (.readFails hread)
  | some value =>
      have hbound := (Bytes.wordAt_bound hread).1
      have hstep : c.chainStep importsFormat importsOffset symbolsOffset format.variant offset
          = c.fixupParseOne value offset importsFormat importsOffset symbolsOffset
            format.variant := by
        rw [chainStep, hread, Outcome.okOr_some, Outcome.ok_bind]
      have hparsed := @fixupParseOne_parsed c importsFormat importsOffset symbolsOffset value offset
        format
      generalize hout : c.fixupParseOne value offset importsFormat importsOffset symbolsOffset
        format.variant = out at hparsed
      cases hparsed with
      | rebase hunits => exact chainStep_of_units hunits hbound (hstep.trans hout)
      | @bind ordinal units addend isAuth hunits =>
          by_cases hok : ∃ r, c.importSymbolParse ordinal importsFormat importsOffset symbolsOffset
              = .ok r
          · obtain ⟨⟨libOrdinal, symbolName⟩, hr⟩ := hok
            rw [bindParse, hr] at hout
            exact chainStep_of_units hunits hbound (hstep.trans hout)
          · exact .inl (.importFails value ordinal units addend isAuth hread hout
              fun r hr => hok ⟨r, hr⟩)

end Word

/-! ## The loop -/

section Loop

variable {c : Container} {importsFormat : DyldChainedImportFormatVariants}
  {importsOffset symbolsOffset : Nat} {format : ChainFormat}

/-- The last turn does not look at the rest of the fuel. -/
theorem chainLoop_of_last {offset : Nat}
    (hlast : ChainLast c importsFormat importsOffset symbolsOffset format offset) :
    ∃ result, ∀ fuel, c.chainLoop importsFormat importsOffset symbolsOffset format.variant
      (fuel + 1) offset = ([offset], result) := by
  cases hlast with
  | zeroNext fixup hstep =>
      refine ⟨.ok [fixup], fun fuel => ?_⟩
      rw [chainLoop, hstep]
      rfl
  | readFails hread =>
      refine ⟨.err "error: could read the fixup value from a chain_offset", fun fuel => ?_⟩
      rw [chainLoop, chainStep, hread]
      rfl
  | importFails value ordinal units addend isAuth hread hbind hfails =>
      have hstep : c.chainStep importsFormat importsOffset symbolsOffset format.variant offset
          = c.bindParse offset importsFormat importsOffset symbolsOffset ordinal
            (units * format.stride) addend isAuth := by
        rw [chainStep, hread, Outcome.okOr_some, Outcome.ok_bind, hbind]
      simp only [chainLoop, hstep, bindParse]
      cases hout : c.importSymbolParse ordinal importsFormat importsOffset symbolsOffset with
      | ok r => exact absurd hout (hfails r)
      | err msg => exact ⟨.err msg, fun fuel => rfl⟩
      | panic msg => exact ⟨.panic msg, fun fuel => rfl⟩
      | outOfFuel => exact ⟨.outOfFuel, fun fuel => rfl⟩

theorem chainLoop_of_goesOn {fuel offset next : Nat} {fixup : Fixup}
    (hstep : c.chainStep importsFormat importsOffset symbolsOffset format.variant offset
      = .ok (next, fixup)) (hnext : 4 ≤ next) :
    c.chainLoop importsFormat importsOffset symbolsOffset format.variant (fuel + 1) offset
      = (offset :: (c.chainLoop importsFormat importsOffset symbolsOffset format.variant fuel
            (offset + next)).1,
          (c.chainLoop importsFormat importsOffset symbolsOffset format.variant fuel
            (offset + next)).2 >>= fun fixups => .ok (fixup :: fixups)) := by
  rw [chainLoop, hstep]
  dsimp only
  rw [if_neg (by omega)]

/-- More fuel than a turn for each four bytes changes nothing. -/
theorem chainLoop_fuel : ∀ {fuel fuel' offset : Nat},
    (c.data.length - offset) / 4 + 1 ≤ fuel → (c.data.length - offset) / 4 + 1 ≤ fuel' →
      c.chainLoop importsFormat importsOffset symbolsOffset format.variant fuel offset
        = c.chainLoop importsFormat importsOffset symbolsOffset format.variant fuel' offset := by
  intro fuel
  induction fuel with
  | zero =>
    intro fuel' offset h _
    omega
  | succ fuel ih =>
    intro fuel' offset h h'
    obtain ⟨fuel', rfl⟩ : ∃ n, fuel' = n + 1 := ⟨fuel' - 1, by omega⟩
    rcases chainStep_cases c importsFormat importsOffset symbolsOffset format offset with
      hlast | ⟨next, fixup, hstep, hnext, -, hbound⟩
    · obtain ⟨result, hloop⟩ := chainLoop_of_last hlast
      rw [hloop, hloop]
    · rw [chainLoop_of_goesOn hstep hnext, chainLoop_of_goesOn hstep hnext,
        @ih fuel' (offset + next) (by omega) (by omega)]

theorem chainLoop_enough {fuel offset : Nat} (hfuel : (c.data.length - offset) / 4 + 1 ≤ fuel) :
    (c.chainLoop importsFormat importsOffset symbolsOffset format.variant fuel offset).2
      ≠ .outOfFuel := by
  rw [@chainLoop_fuel c importsFormat importsOffset symbolsOffset format fuel
    (c.data.length + 1) offset hfuel (by omega)]
  exact c.chainLoop_ne_outOfFuel _ _ _ _ (Nat.succ_pos _) (by omega)

/-- The offsets of a chain from the first one on, down to the word that the loop does not go on
behind. -/
inductive ChainReads (c : Container) (importsFormat : DyldChainedImportFormatVariants)
    (importsOffset symbolsOffset : Nat) (format : ChainFormat) : Nat → List Nat → Prop where
  | last {offset : Nat} : ChainLast c importsFormat importsOffset symbolsOffset format offset →
      ChainReads c importsFormat importsOffset symbolsOffset format offset [offset]
  | goesOn {offset next : Nat} {reads : List Nat} : 4 ≤ next → next < 2 ^ 15 →
      offset + 8 ≤ c.data.length →
      ChainReads c importsFormat importsOffset symbolsOffset format (offset + next) reads →
      ChainReads c importsFormat importsOffset symbolsOffset format offset (offset :: reads)

/-- With enough fuel the loop reads a chain. -/
theorem chainLoop_chainReads : ∀ {fuel offset : Nat}, (c.data.length - offset) / 4 + 1 ≤ fuel →
    ChainReads c importsFormat importsOffset symbolsOffset format offset
      (c.chainLoop importsFormat importsOffset symbolsOffset format.variant fuel offset).1 := by
  intro fuel
  induction fuel with
  | zero =>
    intro offset h
    omega
  | succ fuel ih =>
    intro offset h
    rcases chainStep_cases c importsFormat importsOffset symbolsOffset format offset with
      hlast | ⟨next, fixup, hstep, hnext, hlt, hbound⟩
    · obtain ⟨result, hloop⟩ := chainLoop_of_last hlast
      rw [hloop]
      exact .last hlast
    · rw [chainLoop_of_goesOn hstep hnext]
      exact .goesOn hnext hlt hbound (ih (by omega))

namespace ChainReads

variable {offset : Nat} {reads : List Nat}

/-- A chain is over after as many turns as there is room for four bytes. -/
theorem length_le
    (h : ChainReads c importsFormat importsOffset symbolsOffset format offset reads) :
    reads.length ≤ (c.data.length - offset) / 4 + 1 := by
  induction h with
  | last _ => exact Nat.succ_pos _
  | goesOn hnext _ hbound _ ih =>
    rw [List.length_cons]
    omega

theorem le_reads
    (h : ChainReads c importsFormat importsOffset symbolsOffset format offset reads) :
    ∀ read ∈ reads, offset ≤ read := by
  induction h with
  | last _ => exact fun read h => Nat.le_of_eq (List.mem_singleton.mp h).symm
  | goesOn _ _ _ _ ih =>
    intro read h
    rcases List.mem_cons.mp h with rfl | h
    · exact Nat.le_refl _
    · exact Nat.le_trans (Nat.le_add_right _ _) (ih read h)

/-- No word is read twice: each one is behind the one before. -/
theorem increasing
    (h : ChainReads c importsFormat importsOffset symbolsOffset format offset reads) :
    reads.Pairwise (· < ·) := by
  induction h with
  | last _ => exact List.pairwise_singleton _ _
  | goesOn hnext _ _ hrest ih =>
    refine List.pairwise_cons.mpr ⟨fun read h => ?_, ih⟩
    have hle := hrest.le_reads read h
    omega

/-- The sums of the loop fit. -/
theorem reads_lt
    (h : ChainReads c importsFormat importsOffset symbolsOffset format offset reads)
    (hlen : c.data.length < 2 ^ 63) (hoffset : offset < 2 ^ 64) :
    ∀ read ∈ reads, read < 2 ^ 64 := by
  induction h with
  | last _ =>
    intro read h
    rw [List.mem_singleton.mp h]
    exact hoffset
  | goesOn _ hlt hbound _ ih =>
    intro read h
    rcases List.mem_cons.mp h with rfl | h
    · exact hoffset
    · exact ih (by omega) read h

/-- The last word that is read is one the loop does not go on behind. -/
theorem getLast?_eq
    (h : ChainReads c importsFormat importsOffset symbolsOffset format offset reads) :
    ∃ last, reads.getLast? = some last ∧
      ChainLast c importsFormat importsOffset symbolsOffset format last := by
  induction h with
  | last hlast => exact ⟨_, rfl, hlast⟩
  | goesOn _ _ _ _ ih =>
    obtain ⟨last, hgetLast, hlast⟩ := ih
    refine ⟨last, ?_, hlast⟩
    rw [List.getLast?_cons, hgetLast]
    rfl

end ChainReads

end Loop

/-! ## The whole parse -/

/-- A run of the chain loop, with the offsets it reads and what it returns, has come to its end. -/
structure ChainEnds (c : Container) (importsFormat : DyldChainedImportFormatVariants)
    (importsOffset symbolsOffset : Nat) (format : ChainFormat)
    (run : List Nat × Outcome (List Fixup)) : Prop where
  /-- One turn for each four bytes, and one more. -/
  turns_le : run.1.length ≤ c.data.length / 4 + 1
  /-- The chain does not come back. -/
  increasing : run.1.Pairwise (· < ·)
  /-- No sum overflowed on the way. -/
  offsets_lt : ∀ offset ∈ run.1, offset < 2 ^ 64
  last : ∃ offset, run.1.getLast? = some offset ∧
    ChainLast c importsFormat importsOffset symbolsOffset format offset
  ended : run.2 ≠ .outOfFuel

variable {c : Container}

theorem chainLoop_chainEnds (hlen : c.data.length < 2 ^ 63)
    (importsFormat : DyldChainedImportFormatVariants) (importsOffset symbolsOffset : Nat)
    (format : ChainFormat) {chainOffset fuel : Nat} (hoffset : chainOffset < 2 ^ 64)
    (hfuel : c.data.length / 4 + 1 ≤ fuel) :
    ChainEnds c importsFormat importsOffset symbolsOffset format
      (c.chainLoop importsFormat importsOffset symbolsOffset format.variant fuel chainOffset) := by
  have hroom : (c.data.length - chainOffset) / 4 ≤ c.data.length / 4 :=
    Nat.div_le_div_right (Nat.sub_le _ _)
  have hreads := @chainLoop_chainReads c importsFormat importsOffset symbolsOffset format fuel chainOffset
    (by omega)
  exact
    { turns_le := hreads.length_le.trans (by omega)
      increasing := hreads.increasing
      offsets_lt := hreads.reads_lt hlen hoffset
      last := hreads.getLast?_eq
      ended := chainLoop_enough (by omega) }

/-- A page whose first word is not found has no chain. -/
theorem pageParse_chainEnds (hlen : c.data.length < 2 ^ 63)
    (importsFormat : DyldChainedImportFormatVariants) (importsOffset symbolsOffset : Nat)
    {format : ChainFormat} {starts : DyldChainedStartsInSegment}
    (hformat : starts.pointerFormat = format.variant) (segStartsOffset pageIndex : Nat) :
    ((c.pageParse importsFormat importsOffset symbolsOffset starts segStartsOffset pageIndex).1 = [] ∧
      ∀ fixups, (c.pageParse importsFormat importsOffset symbolsOffset starts segStartsOffset
        pageIndex).2 ≠ .ok fixups) ∨
    ChainEnds c importsFormat importsOffset symbolsOffset format
      (c.pageParse importsFormat importsOffset symbolsOffset starts segStartsOffset pageIndex) := by
  unfold pageParse
  dsimp only
  split
  · rename_i chainOffset hfirst
    obtain ⟨pageStarts, -, hfirst⟩ := Outcome.bind_eq_ok.mp hfirst
    obtain ⟨pageStart, -, hfirst⟩ := Outcome.bind_eq_ok.mp hfirst
    obtain ⟨page, -, hfirst⟩ := Outcome.bind_eq_ok.mp hfirst
    obtain ⟨hlt, rfl⟩ := Outcome.add_eq_ok.mp hfirst
    rw [hformat]
    refine .inr (chainLoop_chainEnds hlen _ _ _ format hlt ?_)
    omega
  · exact .inl ⟨rfl, fun fixups h => absurd h (by simp)⟩
  · exact .inl ⟨rfl, fun fixups h => absurd h (by simp)⟩
  · exact .inl ⟨rfl, fun fixups h => absurd h (by simp)⟩

end Container

/-- **Every chain ends**, whatever the bytes: from any offset, the loop is over after a turn for
each four bytes of the container and one more, and it has only moved forward. So does the chain of
every page, and the whole parse returns. -/
theorem chainedFixups_end {c : Container} (hlen : c.data.length < 2 ^ 63) :
    (∀ importsFormat importsOffset symbolsOffset (format : ChainFormat) chainOffset,
      chainOffset < 2 ^ 64 → ∀ fuel, c.data.length / 4 + 1 ≤ fuel →
        c.ChainEnds importsFormat importsOffset symbolsOffset format
          (c.chainLoop importsFormat importsOffset symbolsOffset format.variant fuel
            chainOffset)) ∧
    (∀ importsFormat importsOffset symbolsOffset (format : ChainFormat)
      (starts : DyldChainedStartsInSegment), starts.pointerFormat = format.variant →
      ∀ segStartsOffset pageIndex,
        let page :=
          c.pageParse importsFormat importsOffset symbolsOffset starts segStartsOffset pageIndex
        (page.1 = [] ∧ ∀ fixups, page.2 ≠ .ok fixups) ∨
          c.ChainEnds importsFormat importsOffset symbolsOffset format page) ∧
    c.chainedFixupsParseAll ≠ .outOfFuel :=
  ⟨fun importsFormat importsOffset symbolsOffset format _ hoffset _ hfuel =>
      Container.chainLoop_chainEnds hlen importsFormat importsOffset symbolsOffset format hoffset
        hfuel,
    fun importsFormat importsOffset symbolsOffset _ _ hformat segStartsOffset pageIndex =>
      Container.pageParse_chainEnds hlen importsFormat importsOffset symbolsOffset hformat
        segStartsOffset pageIndex,
    c.chainedFixupsParseAll_ne_outOfFuel⟩

/-- Two words that point forward, and nothing behind them. -/
def sampleEndlessChain : Container where
  data := Bytes.encodeFields .little [(8, 2 * 2 ^ 51), (8, 2 * 2 ^ 51)]
  endian := .little

theorem sampleEndlessChain_ends :
    sampleEndlessChain.ChainEnds .dyldChainedImport 0 0 .ptr64
      (sampleEndlessChain.chainLoop .dyldChainedImport 0 0 .dyldChainedPtr64 5 0) ∧
    (sampleEndlessChain.chainLoop .dyldChainedImport 0 0 .dyldChainedPtr64 5 0).1 = [0, 8, 16] :=
  ⟨(chainedFixups_end (c := sampleEndlessChain) (by decide)).1 .dyldChainedImport 0 0 .ptr64 0
      (by decide) 5 (by decide),
    by decide +kernel⟩

end Dynld
