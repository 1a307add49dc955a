import Mathlib.Algebra.Group.Int.Defs
import Dynld.Proof.ChainWords
import Dynld.Proof.FixupOrder
import Dynld.Proof.Imports
import Dynld.Proof.LoaderSteps

/-!
# What a fixup leaves in its slot

A chain word is parsed, the fixup is applied with the others of its image, and its
slot is read back. For a rebase this is compared with the address that the target of
the word has once the image is loaded, and for a bind with the address of its symbol
and the addend that the word and the table of imports hold.

Both comparisons come out with a condition. A target is an offset from the Mach
header in some formats and a vmaddr in others, and the header of an executable is
at a vmaddr of its own; the loader adds that address to every target. Addends are
parsed and never added.
-/

namespace Dynld

/-! ## Rebases -/

namespace FixupRecord

variable {n : Nat}

/-- The target of a rebase, and the byte to put on top of it. -/
def target? : FixupRecord n → Option (Nat × Nat)
  | rebase target high8 => some (target, high8)
  | authRebase target _ _ _ => some (target, 0)
  | _ => none

/-- The target is a vmaddr, and not an offset from the Mach header. -/
def targetIsVmaddr : ChainFormat → FixupRecord n → Bool
  | .ptr64, rebase _ _ | .arm64e, rebase _ _ => true
  | _, _ => false

end FixupRecord

/-- Where a target is once the image is loaded at `vm`. -/
def loadedTarget (dylibDir : Option (List UInt8)) (vm : Nat) (isVmaddr : Bool) (target : Nat) : Nat :=
  if isVmaddr then vm + target else vm + imageBase dylibDir + target

/-- A slot that no later fixup writes to holds the word of its fixup. -/
theorem fixupAllChainedFixups_slot {dstPtr base : Nat} {symbols : List Symbol}
    {dylibs : List Library} {dyldSharedCache : Option CacheView} {before after : List Fixup}
    {fixup : Fixup} {m m' : Mem}
    (hrun : fixupAllChainedFixups dstPtr base symbols dylibs dyldSharedCache false
      (before ++ fixup :: after) m = (.ok (), m'))
    (hafter : ∀ f ∈ after,
      ByteRange.Apart (fixupSlotRange dstPtr base fixup) (fixupSlotRange dstPtr base f)) :
    ∃ mid v,
      fixupAllChainedFixups dstPtr base symbols dylibs dyldSharedCache false before m
        = (.ok (), mid) ∧
      fixupWord dstPtr base symbols dylibs dyldSharedCache mid fixup = .ok v ∧
      m'.readWord 8 (fixupSlot dstPtr base fixup) = v % 2 ^ 64 := by
  rw [fixupAllChainedFixups_eq_run, filter_keepAll] at hrun
  obtain ⟨mid, v, hbefore, hv, hread⟩ := Patch.run_slot hrun hafter
  refine ⟨mid, v, ?_, hv, hread⟩
  rw [fixupAllChainedFixups_eq_run, filter_keepAll]
  exact hbefore

/-- What a rebase word is parsed into. -/
theorem fixupParseOne_rebase {c : Container} {importsFormat : DyldChainedImportFormatVariants}
    {importsOffset symbolsOffset n next offset target high8 : Nat} {format : ChainFormat}
    {r : FixupRecord n} (hfit : r.Fits format) (hnext : next < 2 ^ format.nextBits)
    (htarget : r.target? = some (target, high8)) :
    c.fixupParseOne (r.word format next) offset importsFormat importsOffset symbolsOffset
        format.variant
      = .ok (next * format.stride, { offset, kind := .rebase (target ||| high8 <<< 56) }) := by
  rw [Container.fixupParseOne_word offset hfit hnext]
  cases r with
  | rebase t h =>
      obtain ⟨rfl, rfl⟩ := Prod.mk.inj (Option.some.inj htarget)
      rfl
  | authRebase t diversity addrDiv key =>
      obtain ⟨rfl, rfl⟩ := Prod.mk.inj (Option.some.inj htarget)
      rw [Nat.zero_shiftLeft, Nat.or_zero]
      rfl
  | bind index addend => exact absurd htarget (by simp [FixupRecord.target?])
  | authBind index diversity addrDiv key => exact absurd htarget (by simp [FixupRecord.target?])

theorem target_lt {n target high8 : Nat} {format : ChainFormat} {r : FixupRecord n}
    (hfit : r.Fits format) (htarget : r.target? = some (target, high8)) :
    target < 2 ^ 56 ∧ high8 < 2 ^ 8 := by
  cases r with
  | rebase t h =>
      obtain ⟨rfl, rfl⟩ := Prod.mk.inj (Option.some.inj htarget)
      cases format
      all_goals
        obtain ⟨ht, hh⟩ := hfit
        exact ⟨Nat.lt_of_lt_of_le ht (by decide), hh⟩
  | authRebase t diversity addrDiv key =>
      obtain ⟨rfl, rfl⟩ := Prod.mk.inj (Option.some.inj htarget)
      cases format
      case ptr64 | ptr64Offset => exact absurd hfit id
      all_goals exact ⟨Nat.lt_of_lt_of_le hfit.1 (by decide), by decide⟩
  | bind index addend => exact absurd htarget (by simp [FixupRecord.target?])
  | authBind index diversity addrDiv key => exact absurd htarget (by simp [FixupRecord.target?])

/-- The sum that the loader stores, against the address that is meant. -/
theorem ptrAdd_loadedTarget {dylibDir : Option (List UInt8)} {vm target high8 : Nat}
    {isVmaddr : Bool} (ht : target < 2 ^ 56) (hh : high8 < 2 ^ 8)
    (hloaded : loadedTarget dylibDir vm isVmaddr target < 2 ^ 56) :
    ptrAdd (ptrAdd vm (target ||| high8 <<< 56)) (imageBase dylibDir)
        = loadedTarget dylibDir vm isVmaddr target + high8 * 2 ^ 56 ↔
      ¬ (isVmaddr = true ∧ dylibDir = none) := by
  rw [Bits.or_shiftLeft ht]
  unfold ptrAdd loadedTarget imageBase pageZeroSize at *
  cases dylibDir with
  | none =>
      cases isVmaddr with
      | true =>
          simp only [Option.isNone_none, if_true] at hloaded ⊢
          simp only [and_self, not_true, iff_false]
          omega
      | false =>
          simp only [Option.isNone_none, if_true, Bool.false_eq_true, if_false] at hloaded ⊢
          simp only [false_and, not_false_iff, iff_true]
          omega
  | some path =>
      cases isVmaddr with
      | true =>
          simp only [Option.isNone_some, Bool.false_eq_true, if_false, if_true] at hloaded ⊢
          simp only [reduceCtorEq, and_false, not_false_iff, iff_true]
          omega
      | false =>
          simp only [Option.isNone_some, Bool.false_eq_true, if_false] at hloaded ⊢
          simp only [false_and, not_false_iff, iff_true]
          omega

/-- **What a rebase leaves in its slot**: the address its target is loaded at, with the high byte
on top, unless the target is a vmaddr and the image is an executable. -/
theorem rebaseSlot_iff {c : Container} {importsFormat : DyldChainedImportFormatVariants}
    {importsOffset symbolsOffset n next offset target high8 : Nat} {format : ChainFormat}
    {r : FixupRecord n} (hfit : r.Fits format) (hnext : next < 2 ^ format.nextBits)
    (htarget : r.target? = some (target, high8))
    {dylibDir : Option (List UInt8)} {vm distance : Nat} {parsedImage : ParsedImage}
    {dependencies : List Library} {dyldSharedCache : DyldSharedCache} {w w' : World}
    {before after : List Fixup} {fixup : Fixup}
    (hparse : c.fixupParseOne (r.word format next) offset importsFormat importsOffset symbolsOffset
      format.variant = .ok (distance, fixup))
    (hfixups : parsedImage.fixups = before ++ fixup :: after)
    (hafter : ∀ f ∈ after, ByteRange.Apart (fixupSlotRange vm (imageBase dylibDir) fixup)
      (fixupSlotRange vm (imageBase dylibDir) f))
    (hrun : imageFixupsApply dylibDir vm parsedImage dependencies dyldSharedCache w = (.ok (), w'))
    (hloaded : loadedTarget dylibDir vm (r.targetIsVmaddr format) target < 2 ^ 56) :
    w'.mem.readWord 8 (fixupSlot vm (imageBase dylibDir) fixup)
        = loadedTarget dylibDir vm (r.targetIsVmaddr format) target + high8 * 2 ^ 56 ↔
      ¬ (r.targetIsVmaddr format = true ∧ dylibDir = none) := by
  rw [fixupParseOne_rebase hfit hnext htarget] at hparse
  obtain ⟨-, hfixup⟩ := Prod.mk.inj (Outcome.ok.inj hparse)
  have hrun := imageFixupsApply_run hrun
  rw [hfixups] at hrun
  obtain ⟨mid, v, -, hv, hread⟩ := fixupAllChainedFixups_slot hrun hafter
  obtain ⟨ht, hh⟩ := target_lt hfit htarget
  have hword : ptrAdd (ptrAdd vm (target ||| high8 <<< 56)) (imageBase dylibDir) = v := by
    rw [← hfixup] at hv
    exact Outcome.ok.inj hv
  have hlt : v < 2 ^ 64 := by
    rw [← hword]
    exact Nat.mod_lt _ (by decide)
  rw [hread, Nat.mod_eq_of_lt hlt, ← hword]
  exact ptrAdd_loadedTarget ht hh hloaded

/-- An executable with these fixups. -/
def sampleFixedUp (fixups : List Fixup) : ParsedImage :=
  { Container.parsedImageNew false with fixups }

/-- A rebase at offset 8, of a pointer with `0x80` on top. -/
def sampleRebase (target : Nat) : Fixup := ⟨8, .rebase (target ||| 0x80 <<< 56)⟩

def sampleRebasedWorld (target : Nat) : World :=
  (imageFixupsApply none 0x1000 (sampleFixedUp [sampleRebase target]) [] sampleNoCache
    (sampleWorld [])).2

/-- An offset from the Mach header of an executable. -/
theorem sampleRebase_offset :
    (sampleRebasedWorld 0x10).mem.readWord 8 (fixupSlot 0x1000 (imageBase none) (sampleRebase 0x10))
        = loadedTarget none 0x1000 false 0x10 + 0x80 * 2 ^ 56 ↔
      ¬ (false = true ∧ (none : Option (List UInt8)) = none) := by
  have hrun : imageFixupsApply none 0x1000 (sampleFixedUp [sampleRebase 0x10]) [] sampleNoCache
      (sampleWorld []) = (.ok (), sampleRebasedWorld 0x10) := rfl
  have hfit : (FixupRecord.rebase 0x10 0x80 : FixupRecord 0).Fits .ptr64Offset :=
    ⟨by decide, by decide⟩
  have hparse : (⟨[], .little⟩ : Container).fixupParseOne
      ((FixupRecord.rebase 0x10 0x80 : FixupRecord 0).word .ptr64Offset 0) 8 .dyldChainedImport 0 0
      ChainFormat.ptr64Offset.variant = .ok (0, sampleRebase 0x10) := by decide +kernel
  have hfixups : (sampleFixedUp [sampleRebase 0x10]).fixups = [] ++ sampleRebase 0x10 :: [] := rfl
  have hafter : ∀ f ∈ ([] : List Fixup),
      ByteRange.Apart (fixupSlotRange 0x1000 (imageBase none) (sampleRebase 0x10))
        (fixupSlotRange 0x1000 (imageBase none) f) := fun f hf => absurd hf List.not_mem_nil
  have hloaded : loadedTarget none 0x1000 false 0x10 < 2 ^ 56 := by decide +kernel
  exact rebaseSlot_iff hfit (by decide) rfl hparse hfixups hafter hrun hloaded

/-- The vmaddr of a place in an executable: `PAGE_ZERO_SIZE` is added to an address that has it in
it already. -/
theorem sampleRebase_twice :
    (FixupRecord.rebase 0x100000010 0x80 : FixupRecord 0).Fits .ptr64 ∧
      (⟨[], .little⟩ : Container).fixupParseOne
          ((FixupRecord.rebase 0x100000010 0x80 : FixupRecord 0).word .ptr64 0) 8 .dyldChainedImport
          0 0 ChainFormat.ptr64.variant = .ok (0, sampleRebase 0x100000010) ∧
      imageFixupsApply none 0x1000 (sampleFixedUp [sampleRebase 0x100000010]) [] sampleNoCache
          (sampleWorld []) = (.ok (), sampleRebasedWorld 0x100000010) ∧
      loadedTarget none 0x1000 true 0x100000010 < 2 ^ 56 ∧
      (sampleRebasedWorld 0x100000010).mem.readWord 8
          (fixupSlot 0x1000 (imageBase none) (sampleRebase 0x100000010))
        ≠ loadedTarget none 0x1000 true 0x100000010 + 0x80 * 2 ^ 56 :=
  ⟨⟨by decide, by decide⟩, by decide +kernel, rfl, by decide +kernel, by decide +kernel⟩

/-! ## Binds -/

/-- A `w`-bit word in two's complement. -/
def signed (w n : Nat) : Int := if n < 2 ^ (w - 1) then n else (n : Int) - 2 ^ w

namespace FixupRecord

variable {n : Nat}

/-- The import of a bind, and the addend in its word: signed where it has 19 bits. -/
def import? : ChainFormat → FixupRecord n → Option (Fin n × Int)
  | .ptr64, bind index addend | .ptr64Offset, bind index addend => some (index, addend)
  | _, bind index addend => some (index, signed 19 addend)
  | _, authBind index _ _ _ => some (index, 0)
  | _, _ => none

end FixupRecord

/-- The addend that an entry holds in this format. -/
def ChainedImport.addendIn (i : ChainedImport) : ImportFormat → Int
  | .plain => 0
  | .addend | .addend64 _ => i.addend

/-- The address of a symbol in the library of an ordinal, or in the image itself. -/
def symbolAddress (dstPtr : Nat) (symbols : List Symbol) (dylibs : List Library)
    (dyldSharedCache : Option CacheView) (m : Mem) (symbolName : ArrayString symbolNameLen)
    (ordinal : Nat) : Outcome Nat :=
  if ordinal = bindSpecialDylibWeakLookup then do
    let symbol ← Outcome.okOr (symbols.find? fun sym => sym.arrayStringCmp symbolName)
      "could not find a matching symbol while fixing up a BIND_SPECIAL_DYLIB_WEAK_LOOKUP"
    .ok (ptrAdd dstPtr symbol.implOffset)
  else do
    let library ← Outcome.orPanic dylibs[ordinal - 1]? "index out of bounds"
    regularWord dyldSharedCache symbolName m library

/-- A bind stores the address of its symbol, and nothing else. -/
theorem fixupWord_bind {dstPtr base ordinal offset v : Nat} {symbols : List Symbol}
    {dylibs : List Library} {dyldSharedCache : Option CacheView} {m : Mem}
    {symbolName : ArrayString symbolNameLen} {isAuth : Bool} {addend : Int}
    (h : fixupWord dstPtr base symbols dylibs dyldSharedCache m
      { offset, kind := .bind symbolName ordinal isAuth addend } = .ok v) :
    symbolAddress dstPtr symbols dylibs dyldSharedCache m symbolName ordinal = .ok v := by
  unfold fixupWord at h
  dsimp only at h
  split at h
  · exact absurd h (by simp)
  split at h
  · exact absurd h (by simp)
  split at h
  · exact absurd h (by simp)
  exact h

/-- A bind that is parsed has its import found. -/
theorem bindParse_eq_ok {c : Container} {offset importsOffset symbolsOffset ordinal next addend : Nat}
    {importsFormat : DyldChainedImportFormatVariants} {isAuth : Bool} {distance : Nat}
    {fixup : Fixup}
    (h : c.bindParse offset importsFormat importsOffset symbolsOffset ordinal next addend isAuth
      = .ok (distance, fixup)) :
    ∃ libOrdinal symbolName,
      c.importSymbolParse ordinal importsFormat importsOffset symbolsOffset
        = .ok (libOrdinal, symbolName) ∧
      fixup = { offset, kind := .bind symbolName libOrdinal isAuth addend } := by
  obtain ⟨⟨libOrdinal, symbolName⟩, himport, hfixup⟩ := Outcome.bind_eq_ok.mp h
  exact ⟨libOrdinal, symbolName, himport, (Prod.mk.inj (Outcome.ok.inj hfixup)).2.symm⟩

/-- The ordinal that is found is the one of the table. -/
theorem importSymbolParse_ordinal {c : Container} {importFormat : ImportFormat}
    {importsOffset symbolsOffset libOrdinal : Nat} {t : ImportTable}
    {symbolName : ArrayString symbolNameLen}
    (hat : ImportTableAt c importFormat importsOffset symbolsOffset t) (hwf : t.WellFormed)
    {index : Fin t.imports.length}
    (h : c.importSymbolParse index importFormat.variant importsOffset symbolsOffset
      = .ok (libOrdinal, symbolName)) :
    libOrdinal = (t.imports.get index).libOrdinal := by
  have hentry := hat.entry index (t.imports.get index) (List.getElem?_eq_getElem index.isLt)
  have hfit := hwf.fits (t.imports.get index) (List.get_mem t.imports index)
  rw [Container.importSymbolParse_entry hfit hentry] at h
  obtain ⟨name, -, h⟩ := Outcome.bind_eq_ok.mp h
  obtain ⟨s, -, h⟩ := Outcome.bind_eq_ok.mp h
  exact (Prod.mk.inj (Outcome.ok.inj h)).1.symm

/-- What a bind word is parsed into. -/
theorem fixupParseOne_bind {c : Container} {importsFormat : DyldChainedImportFormatVariants}
    {importsOffset symbolsOffset n next offset distance : Nat} {format : ChainFormat}
    {r : FixupRecord n} {fixup : Fixup} {index : Fin n} {a : Int} (hfit : r.Fits format)
    (hnext : next < 2 ^ format.nextBits) (himport : r.import? format = some (index, a))
    (hparse : c.fixupParseOne (r.word format next) offset importsFormat importsOffset symbolsOffset
      format.variant = .ok (distance, fixup)) :
    ∃ libOrdinal symbolName isAuth addend,
      c.importSymbolParse index importsFormat importsOffset symbolsOffset
        = .ok (libOrdinal, symbolName) ∧
      fixup = { offset, kind := .bind symbolName libOrdinal isAuth addend } := by
  rw [Container.fixupParseOne_word offset hfit hnext] at hparse
  cases r with
  | rebase target high8 => cases format <;> exact absurd himport (by simp [FixupRecord.import?])
  | authRebase target diversity addrDiv key =>
      cases format <;> exact absurd himport (by simp [FixupRecord.import?])
  | bind i addend =>
      have hindex : i = index := by
        cases format <;> exact (Prod.mk.inj (Option.some.inj himport)).1
      obtain ⟨libOrdinal, symbolName, hfound, hfixup⟩ := bindParse_eq_ok hparse
      exact ⟨libOrdinal, symbolName, _, _, hindex ▸ hfound, hfixup⟩
  | authBind i diversity addrDiv key =>
      have hindex : i = index := by
        cases format
        case ptr64 | ptr64Offset => exact absurd hfit id
        all_goals exact (Prod.mk.inj (Option.some.inj himport)).1
      obtain ⟨libOrdinal, symbolName, hfound, hfixup⟩ := bindParse_eq_ok hparse
      exact ⟨libOrdinal, symbolName, _, _, hindex ▸ hfound, hfixup⟩

/-- **What a bind leaves in its slot**: the address of its symbol. With the addends of the word
and of the table that is the right word exactly if they cancel out. -/
theorem bindSlot_iff {c : Container} {importFormat : ImportFormat}
    {importsOffset symbolsOffset next offset distance : Nat} {t : ImportTable}
    (hat : ImportTableAt c importFormat importsOffset symbolsOffset t) (hwf : t.WellFormed)
    {format : ChainFormat} {r : FixupRecord t.imports.length} {index : Fin t.imports.length}
    {a : Int} (hfit : r.Fits format) (hnext : next < 2 ^ format.nextBits)
    (himport : r.import? format = some (index, a))
    {dstPtr base : Nat} {symbols : List Symbol} {dylibs : List Library}
    {dyldSharedCache : Option CacheView} {before after : List Fixup} {fixup : Fixup} {m m' : Mem}
    (hparse : c.fixupParseOne (r.word format next) offset importFormat.variant importsOffset
      symbolsOffset format.variant = .ok (distance, fixup))
    (hafter : ∀ f ∈ after,
      ByteRange.Apart (fixupSlotRange dstPtr base fixup) (fixupSlotRange dstPtr base f))
    (hrun : fixupAllChainedFixups dstPtr base symbols dylibs dyldSharedCache false
      (before ++ fixup :: after) m = (.ok (), m')) :
    ∃ symbolName mid address,
      c.importSymbolParse index importFormat.variant importsOffset symbolsOffset
        = .ok ((t.imports.get index).libOrdinal, symbolName) ∧
      fixupAllChainedFixups dstPtr base symbols dylibs dyldSharedCache false before m
        = (.ok (), mid) ∧
      symbolAddress dstPtr symbols dylibs dyldSharedCache mid symbolName
        (t.imports.get index).libOrdinal = .ok address ∧
      ((m'.readWord 8 (fixupSlot dstPtr base fixup) : Int)
          = (address + (a + (t.imports.get index).addendIn importFormat)) % 2 ^ 64 ↔
        (2 ^ 64 : Int) ∣ a + (t.imports.get index).addendIn importFormat) := by
  obtain ⟨libOrdinal, symbolName, isAuth, addend, hfound, hfixup⟩ :=
    fixupParseOne_bind hfit hnext himport hparse
  obtain rfl := importSymbolParse_ordinal hat hwf hfound
  obtain ⟨mid, v, hbefore, hv, hread⟩ := fixupAllChainedFixups_slot hrun hafter
  rw [hfixup] at hv
  refine ⟨symbolName, mid, v, hfound, hbefore, fixupWord_bind hv, ?_⟩
  rw [hread]
  omega

/-- The import of `_g` from library 1, in a packed table. -/
def sampleBindTable : ImportTable :=
  { imports := [⟨1, false, 1, 0⟩], pool := 0 :: ascii "_g" ++ [0] }

def sampleBindBytes : Container :=
  { data := Bytes.encodeFields .little ((⟨1, false, 1, 0⟩ : ChainedImport).fields .plain)
      ++ sampleBindTable.pool
    endian := .little }

/-- A bind at offset 16, with this addend in its word. -/
theorem sampleBind_valid : validUtf8 (ascii "_g") = true ∧ (ascii "_g").length ≤ 128 := by decide

def sampleBind (addend : Nat) : Fixup :=
  ⟨16, .bind (sampleSymbolName "_g" sampleBind_valid) 1 false addend⟩

def sampleBoundMemory (addend : Nat) : Mem :=
  (fixupAllChainedFixups 0x8000 0 [] [.user ⟨⟨0x1000, 162⟩, .little⟩] none false [sampleBind addend]
    sampleMemory).2

theorem sampleBindTable_wellFormed : sampleBindTable.WellFormed where
  length_le := by decide
  fits := by
    intro i hi
    obtain rfl := List.mem_singleton.mp hi
    exact ⟨by decide, by decide⟩

theorem sampleBindTable_at : ImportTableAt sampleBindBytes .plain 0 4 sampleBindTable where
  entry := by
    intro k i hk
    cases k with
    | zero =>
        obtain rfl := Option.some.inj hk
        exact List.prefix_append _ _
    | succ k => exact absurd hk (by simp [sampleBindTable])
  pool := ⟨[], List.append_nil _⟩

/-- The one import of the table. -/
def sampleBindIndex : Fin sampleBindTable.imports.length := ⟨0, by decide +kernel⟩

/-- A bind without an addend. -/
theorem sampleBind_plain :
    ∃ symbolName mid address,
      sampleBindBytes.importSymbolParse sampleBindIndex ImportFormat.plain.variant 0 4
        = .ok ((sampleBindTable.imports.get sampleBindIndex).libOrdinal, symbolName) ∧
      fixupAllChainedFixups 0x8000 0 [] [.user ⟨⟨0x1000, 162⟩, .little⟩] none false [] sampleMemory
        = (.ok (), mid) ∧
      symbolAddress 0x8000 [] [.user ⟨⟨0x1000, 162⟩, .little⟩] none mid symbolName
        (sampleBindTable.imports.get sampleBindIndex).libOrdinal = .ok address ∧
      ((sampleBoundMemory 0).readWord 8 (fixupSlot 0x8000 0 (sampleBind 0)) : Int)
          = (address + (((0 : Nat) : Int)
            + (sampleBindTable.imports.get sampleBindIndex).addendIn .plain)) % 2 ^ 64 := by
  have hfit : (FixupRecord.bind sampleBindIndex 0).Fits .ptr64Offset := ⟨by decide, by decide⟩
  have himport : (FixupRecord.bind sampleBindIndex 0).import? .ptr64Offset
      = some (sampleBindIndex, ((0 : Nat) : Int)) := rfl
  have hparse : sampleBindBytes.fixupParseOne
      ((FixupRecord.bind sampleBindIndex 0).word .ptr64Offset 0) 16 ImportFormat.plain.variant 0 4
      ChainFormat.ptr64Offset.variant = .ok (0, sampleBind 0) := by decide +kernel
  have hrun : fixupAllChainedFixups 0x8000 0 [] [.user ⟨⟨0x1000, 162⟩, .little⟩] none false
      ([] ++ sampleBind 0 :: []) sampleMemory = (.ok (), sampleBoundMemory 0) :=
    Exec.eq_of_fst (by decide +kernel)
  have hafter : ∀ f ∈ ([] : List Fixup), ByteRange.Apart (fixupSlotRange 0x8000 0 (sampleBind 0))
      (fixupSlotRange 0x8000 0 f) := fun f hf => absurd hf List.not_mem_nil
  obtain ⟨symbolName, mid, address, hfound, hbefore, haddress, hslot⟩ := bindSlot_iff
    sampleBindTable_at sampleBindTable_wellFormed hfit (by decide) himport hparse hafter hrun
  exact ⟨symbolName, mid, address, hfound, hbefore, haddress, hslot.mpr (by decide)⟩

/-- A pointer 8 bytes past `_g` comes out as a pointer to `_g`. -/
theorem sampleBind_addendLost :
    sampleBindBytes.fixupParseOne
        ((FixupRecord.bind sampleBindIndex 8).word .ptr64Offset 0) 16
        ImportFormat.plain.variant 0 4 ChainFormat.ptr64Offset.variant = .ok (0, sampleBind 8) ∧
      (fixupAllChainedFixups 0x8000 0 [] [.user ⟨⟨0x1000, 162⟩, .little⟩] none false [sampleBind 8]
        sampleMemory).1 = .ok () ∧
      symbolAddress 0x8000 [] [.user ⟨⟨0x1000, 162⟩, .little⟩] none sampleMemory
        (sampleSymbolName "_g" sampleBind_valid) 1 = .ok 0x1004 ∧
      (sampleBoundMemory 8).readWord 8 (fixupSlot 0x8000 0 (sampleBind 8)) ≠ (0x1004 + 8) % 2 ^ 64 := by
  exact ⟨by decide +kernel, by decide +kernel, by decide +kernel, by decide +kernel⟩

end Dynld
