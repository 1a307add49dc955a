import Dynld.FixupApply
import Dynld.MachoParser

/-!
# Binds by name

A bind with the weak-lookup ordinal looks its symbol up in the image's own symbol
table. The parser keeps one symbol for each entry that is defined in a section or
undefined and has a name that fits, in the order of the table and with the value of
the entry (`parseSymtab_eq_ok`). Nothing that is kept tells a translation-unit local
from an export, or a definition from an import.

So the lookup takes the first of these entries that has the name. What it should take
is an entry visible outside its translation unit, and it does exactly if the first one
has the value of such an entry.
-/

namespace Dynld

/-! ## What a symbol table says -/

namespace Container

/-- The `n` entries from `offset` on. -/
def nlistsAt (c : Container) : Nat → Nat → Option (List Nlist64)
  | 0, _ => some []
  | n + 1, offset => do
      let entry ← c.nlist64 offset
      let rest ← c.nlistsAt n (offset + Nlist64.size)
      return entry :: rest

/-- Where the strings of the symbol table start, and its entries. -/
def symbolTable (c : Container) (offset : Nat) : Option (Nat × List Nlist64) := do
  let symtab ← c.symtabCommand offset
  let entries ← c.nlistsAt symtab.nsyms symtab.symoff
  return (symtab.stroff, entries)

end Container

namespace Nlist64

/-- The parser has a symbol for the entry: it is no debugging entry, and it is defined in a
section or undefined. -/
def Kept (entry : Nlist64) : Prop :=
  entry.nType &&& nStab = 0 ∧ (entry.nType &&& Dynld.nType = Dynld.nSect ∨
    entry.nType &&& Dynld.nType = nUndf)

/-- The entry is defined in a section, and external or private external. -/
def Exported (entry : Nlist64) : Prop :=
  entry.nType &&& nStab = 0 ∧ entry.nType &&& Dynld.nType = Dynld.nSect ∧
    (entry.nType &&& nExt ≠ 0 ∨ entry.nType &&& nPext ≠ 0)

instance (entry : Nlist64) : Decidable entry.Exported :=
  inferInstanceAs (Decidable (_ ∧ _ ∧ _))

/-- The string table has this name for the entry. -/
def Named (c : Container) (stroff : Nat) (entry : Nlist64) (name : List UInt8) : Prop :=
  ∃ s, c.deserializeStringAtOffset (stroff + entry.nStrx) = .ok s ∧ s.bytes = name

theorem Named.unique {c : Container} {stroff : Nat} {entry : Nlist64} {name name' : List UInt8}
    (h : entry.Named c stroff name) (h' : entry.Named c stroff name') : name = name' := by
  obtain ⟨s, hs, rfl⟩ := h
  obtain ⟨s', hs', rfl⟩ := h'
  rw [hs] at hs'
  rw [Outcome.ok.inj hs']

end Nlist64

/-- The first of the kept entries that has the name. -/
def FirstNamed (c : Container) (stroff : Nat) (entries : List Nlist64) (name : List UInt8)
    (entry : Nlist64) : Prop :=
  ∃ before after, entries = before ++ entry :: after ∧ entry.Kept ∧ entry.Named c stroff name ∧
    ∀ e ∈ before, e.Kept → ¬ e.Named c stroff name

/-! ## What the parser makes of it -/

/-- The symbols of some entries: those of the kept ones with names that fit, in order. -/
inductive SymbolsOf (c : Container) (stroff : Nat) : List Nlist64 → List Symbol → Prop where
  | nil : SymbolsOf c stroff [] []
  | skip {entry : Nlist64} {entries : List Nlist64} {symbols : List Symbol} :
      (∀ name : ArrayString symbolNameLen, entry.Kept → ¬ entry.Named c stroff name.asBytes) →
      SymbolsOf c stroff entries symbols → SymbolsOf c stroff (entry :: entries) symbols
  | keep {entry : Nlist64} {entries : List Nlist64} {symbol : Symbol} {symbols : List Symbol} :
      entry.Kept → entry.Named c stroff symbol.name.asBytes →
      symbol.implOffset = entry.nValue →
      SymbolsOf c stroff entries symbols →
      SymbolsOf c stroff (entry :: entries) (symbol :: symbols)

theorem SymbolsOf.append {c : Container} {stroff : Nat} {entries entries' : List Nlist64}
    {symbols symbols' : List Symbol} (h : SymbolsOf c stroff entries symbols)
    (h' : SymbolsOf c stroff entries' symbols') :
    SymbolsOf c stroff (entries ++ entries') (symbols ++ symbols') := by
  induction h with
  | nil => exact h'
  | skip hskip _ ih => exact .skip hskip ih
  | keep hkept hnamed hvalue _ ih => exact .keep hkept hnamed hvalue ih

namespace Container

variable {c : Container} {stroff : Nat} {entry : Nlist64} {symbols symbols' : List Symbol}

theorem readSymbolName_eq_ok {nStrx : Nat} {found : Option (ArrayString symbolNameLen)}
    (h : c.readSymbolName stroff nStrx = .ok found) :
    ∃ s, c.deserializeStringAtOffset (stroff + nStrx) = .ok s ∧
      found = ArrayString.tryFromStr symbolNameLen s := by
  obtain ⟨nameOffset, hadd, h⟩ := Outcome.bind_eq_ok.mp h
  obtain ⟨s, hs, h⟩ := Outcome.bind_eq_ok.mp h
  rw [(Outcome.add_eq_ok.mp hadd).2] at hs
  exact ⟨s, hs, (Outcome.ok.inj h).symm⟩

/-- A name that is kept is the entry's. -/
theorem readSymbolName_some {name : ArrayString symbolNameLen}
    (h : c.readSymbolName stroff entry.nStrx = .ok (some name)) :
    entry.Named c stroff name.asBytes := by
  obtain ⟨s, hs, hfit⟩ := readSymbolName_eq_ok h
  refine ⟨s, hs, ?_⟩
  unfold ArrayString.tryFromStr at hfit
  split at hfit
  · rw [Option.some.inj hfit]
    rfl
  · exact absurd hfit (by simp)

/-- A name that is left out is longer than any symbol name. -/
theorem readSymbolName_none (h : c.readSymbolName stroff entry.nStrx = .ok none)
    (name : ArrayString symbolNameLen) : ¬ entry.Named c stroff name.asBytes := by
  obtain ⟨s, hs, hfit⟩ := readSymbolName_eq_ok h
  intro hnamed
  have hbytes : s.bytes = name.asBytes := Nlist64.Named.unique ⟨s, hs, rfl⟩ hnamed
  rw [Str.ext hbytes] at hfit
  exact absurd (hfit.trans (ArrayString.tryFromStr_str name)) (by simp)

theorem definedSymbol_eq_ok {name : ArrayString symbolNameLen} {symbol : Symbol}
    (h : definedSymbol entry name = .ok symbol) :
    ∃ isWeak cold thumb,
      symbol = Symbol.makeDefined isWeak name entry.nValue entry.nSect cold thumb := by
  unfold definedSymbol at h
  dsimp only at h
  split at h
  · exact ⟨_, _, _, (Outcome.ok.inj h).symm⟩
  · exact ⟨_, _, _, (Outcome.ok.inj h).symm⟩
  · split at h
    · exact ⟨_, _, _, (Outcome.ok.inj h).symm⟩
    · exact absurd h (by simp)
  · exact ⟨_, _, _, (Outcome.ok.inj h).symm⟩
  all_goals exact absurd h (by simp)

/-- One entry adds its symbol if it is kept and its name fits, and nothing otherwise. -/
theorem classifySymbol_eq_ok (h : c.classifySymbol stroff entry symbols = .ok symbols') :
    ∃ added, symbols' = symbols ++ added ∧ SymbolsOf c stroff [entry] added := by
  have hnothing : (∀ name : ArrayString symbolNameLen, entry.Kept →
      ¬ entry.Named c stroff name.asBytes) → SymbolsOf c stroff [entry] [] := fun h => .skip h .nil
  unfold classifySymbol at h
  split at h
  · rename_i hstab
    exact ⟨[], by simpa using (Outcome.ok.inj h).symm, hnothing fun _ hkept => absurd hkept.1 hstab⟩
  rename_i hstab
  have hstab : entry.nType &&& nStab = 0 := by simpa using hstab
  split at h
  · rename_i hsect
    obtain ⟨found, hname, h⟩ := Outcome.bind_eq_ok.mp h
    -- a name that does not fit the buffer leaves the entry out
    cases found with
    | none =>
        refine ⟨[], by simpa using (Outcome.ok.inj h).symm, hnothing fun name _ => ?_⟩
        exact readSymbolName_none hname name
    | some name =>
        obtain ⟨symbol, hsymbol, h⟩ := Outcome.bind_eq_ok.mp h
        obtain ⟨isWeak, cold, thumb, rfl⟩ := definedSymbol_eq_ok hsymbol
        refine ⟨[_], (Outcome.ok.inj h).symm, .keep ⟨hstab, .inl hsect⟩ ?_ rfl .nil⟩
        exact readSymbolName_some hname
  · split at h
    · rename_i hundf
      unfold classifyUndefinedSymbol at h
      split at h
      · -- a common symbol: the code panics
        split at h
        · exact absurd h (by simp)
        · exact absurd h (by simp)
      · rename_i hvalue
        have hvalue : entry.nValue = 0 := by simpa using hvalue
        obtain ⟨found, hname, h⟩ := Outcome.bind_eq_ok.mp h
        cases found with
        | none =>
            refine ⟨[], by simpa using (Outcome.ok.inj h).symm, hnothing fun name _ => ?_⟩
            exact readSymbolName_none hname name
        | some name =>
            refine ⟨[_], (Outcome.ok.inj h).symm, .keep ⟨hstab, .inr hundf⟩ ?_ hvalue.symm .nil⟩
            exact readSymbolName_some hname
    · rename_i hsect hundf
      refine ⟨[], by simpa using (Outcome.ok.inj h).symm, hnothing fun _ hkept => ?_⟩
      exact absurd hkept.2 (not_or.mpr ⟨hsect, hundf⟩)

theorem symtabLoop_eq_ok : ∀ {n nlistOffset : Nat} {symbols symbols' : List Symbol},
    c.symtabLoop stroff n nlistOffset symbols = .ok symbols' →
      ∃ entries added, c.nlistsAt n nlistOffset = some entries ∧ symbols' = symbols ++ added ∧
        SymbolsOf c stroff entries added := by
  intro n
  induction n with
  | zero =>
    intro _ symbols symbols' h
    exact ⟨[], [], rfl, by simpa using (Outcome.ok.inj h).symm, .nil⟩
  | succ n ih =>
    intro nlistOffset symbols symbols' h
    obtain ⟨entry, hentry, h⟩ := Outcome.bind_eq_ok.mp h
    obtain ⟨mid, hclassify, h⟩ := Outcome.bind_eq_ok.mp h
    obtain ⟨own, rfl, hown⟩ := classifySymbol_eq_ok hclassify
    obtain ⟨entries, added, hentries, rfl, hadded⟩ := ih h
    refine ⟨entry :: entries, own ++ added, ?_, List.append_assoc _ _ _, hown.append hadded⟩
    rw [nlistsAt, Outcome.okOr_eq_ok.mp hentry, Option.bind_eq_bind, Option.bind_some, hentries]
    rfl

/-- **The symbols of a parsed table** are those of its kept entries, in order. -/
theorem parseSymtab_eq_ok {offset : Nat} (h : c.parseSymtab offset [] = .ok symbols) :
    ∃ stroff entries, c.symbolTable offset = some (stroff, entries) ∧
      SymbolsOf c stroff entries symbols := by
  obtain ⟨symtab, hsymtab, h⟩ := Outcome.bind_eq_ok.mp h
  obtain ⟨entries, added, hentries, hadded, hsymbols⟩ := symtabLoop_eq_ok h
  rw [List.nil_append] at hadded
  refine ⟨symtab.stroff, entries, ?_, hadded ▸ hsymbols⟩
  rw [symbolTable, Outcome.okOr_eq_ok.mp hsymtab, Option.bind_eq_bind, Option.bind_some, hentries]
  rfl

end Container

/-! ## What the lookup takes -/

section Lookup

variable {c : Container} {stroff : Nat} {entries : List Nlist64} {symbols : List Symbol}
  {name : ArrayString symbolNameLen}

theorem SymbolsOf.find_none (h : SymbolsOf c stroff entries symbols)
    (hfind : (symbols.find? fun sym => sym.arrayStringCmp name) = none) :
    ∀ entry ∈ entries, entry.Kept → ¬ entry.Named c stroff name.asBytes := by
  induction h with
  | nil => exact fun _ hmem => absurd hmem List.not_mem_nil
  | skip hskip _ ih =>
      intro entry hmem
      rcases List.mem_cons.mp hmem with rfl | hmem
      · exact hskip name
      · exact ih hfind entry hmem
  | @keep first entries symbol symbols _ hnamed _ _ ih =>
      rw [List.find?_cons] at hfind
      split at hfind
      · exact absurd hfind (by simp)
      · rename_i hcmp
        intro entry hmem
        rcases List.mem_cons.mp hmem with rfl | hmem
        · intro _ hnamed'
          rw [Symbol.arrayStringCmp, hnamed.unique hnamed'] at hcmp
          exact absurd hcmp (by simp)
        · exact ih hfind entry hmem

theorem FirstNamed.cons {first entry : Nlist64}
    (hfirst : first.Kept → ¬ first.Named c stroff name.asBytes)
    (h : FirstNamed c stroff entries name.asBytes entry) :
    FirstNamed c stroff (first :: entries) name.asBytes entry := by
  obtain ⟨before, after, rfl, hkept, hnamed, hbefore⟩ := h
  refine ⟨first :: before, after, rfl, hkept, hnamed, fun e hmem => ?_⟩
  rcases List.mem_cons.mp hmem with rfl | hmem
  · exact hfirst
  · exact hbefore e hmem

/-- The symbol found is that of the first kept entry with the name. -/
theorem SymbolsOf.find_some {symbol : Symbol} (h : SymbolsOf c stroff entries symbols)
    (hfind : (symbols.find? fun sym => sym.arrayStringCmp name) = some symbol) :
    ∃ entry, FirstNamed c stroff entries name.asBytes entry ∧
      symbol.implOffset = entry.nValue := by
  induction h with
  | nil => exact absurd hfind (by simp)
  | skip hskip _ ih =>
      obtain ⟨entry, hfirst, hvalue⟩ := ih hfind
      exact ⟨entry, hfirst.cons (hskip name), hvalue⟩
  | @keep first entries symbol' symbols hkept hnamed hvalue _ ih =>
      rw [List.find?_cons] at hfind
      split at hfind
      · rename_i hcmp
        obtain rfl := Option.some.inj hfind
        have hname : symbol'.name.asBytes = name.asBytes := by
          simpa [Symbol.arrayStringCmp] using hcmp
        rw [hname] at hnamed
        exact ⟨first, ⟨[], entries, rfl, hkept, hnamed, fun _ hmem => nomatch hmem⟩, hvalue⟩
      · rename_i hcmp
        obtain ⟨entry, hfirst, hvalue'⟩ := ih hfind
        refine ⟨entry, hfirst.cons fun _ hnamed' => ?_, hvalue'⟩
        rw [Symbol.arrayStringCmp, hnamed.unique hnamed'] at hcmp
        exact absurd hcmp (by simp)

/-- There is one first entry at most. -/
theorem FirstNamed.unique {bytes : List UInt8} {entry entry' : Nlist64}
    (h : FirstNamed c stroff entries bytes entry) (h' : FirstNamed c stroff entries bytes entry') :
    entry = entry' := by
  obtain ⟨before, after, rfl, hkept, hnamed, hbefore⟩ := h
  obtain ⟨before', after', heq, hkept', hnamed', hbefore'⟩ := h'
  rcases List.append_eq_append_iff.mp heq with ⟨mid, rfl, hmid⟩ | ⟨mid, rfl, hmid⟩
  · cases mid with
    | nil => exact (List.cons.inj hmid).1
    | cons e mid =>
        obtain rfl : entry = e := (List.cons.inj hmid).1
        exact absurd hnamed (hbefore' entry (by simp) hkept)
  · cases mid with
    | nil => exact ((List.cons.inj hmid).1).symm
    | cons e mid =>
        obtain rfl : entry' = e := (List.cons.inj hmid).1
        exact absurd hnamed' (hbefore entry' (by simp) hkept')

end Lookup

/-- The slot a bind of the image at `vm` is written to. -/
def weakSlot (vm fixupOffset pageZeroSize : Nat) : Nat :=
  ptrAdd (ptrAdd vm fixupOffset) pageZeroSize

/-- A lookup that succeeds binds to an exported entry of the name; without one it fails and
writes nothing. -/
structure WeakLookupCorrect (c : Container) (stroff : Nat) (entries : List Nlist64)
    (symbols : List Symbol) (vm fixupOffset pageZeroSize : Nat)
    (name : ArrayString symbolNameLen) (m : Mem) : Prop where
  bound : ∀ m', fixupDylibWeakSymbol vm fixupOffset pageZeroSize symbols name m = (.ok (), m') →
    ∃ entry ∈ entries, entry.Exported ∧ entry.Named c stroff name.asBytes ∧
      m'.readWord 8 (weakSlot vm fixupOffset pageZeroSize) = ptrAdd vm entry.nValue
  missing : (∀ entry ∈ entries, entry.Exported → ¬ entry.Named c stroff name.asBytes) →
    ∃ msg, fixupDylibWeakSymbol vm fixupOffset pageZeroSize symbols name m = (.err msg, m)

section

variable {symbols : List Symbol} {name : ArrayString symbolNameLen}

theorem fixupDylibWeakSymbol_none (vm fixupOffset pageZeroSize : Nat) (m : Mem)
    (hfind : (symbols.find? fun sym => sym.arrayStringCmp name) = none) :
    ∃ msg, fixupDylibWeakSymbol vm fixupOffset pageZeroSize symbols name m = (.err msg, m) := by
  unfold fixupDylibWeakSymbol
  rw [hfind]
  exact ⟨_, rfl⟩

theorem fixupDylibWeakSymbol_some (vm fixupOffset pageZeroSize : Nat) (m : Mem)
    {symbol : Symbol} (hfind : (symbols.find? fun sym => sym.arrayStringCmp name) = some symbol) :
    fixupDylibWeakSymbol vm fixupOffset pageZeroSize symbols name m
      = (.ok (), m.writeWord 8 (weakSlot vm fixupOffset pageZeroSize)
          (ptrAdd vm symbol.implOffset)) := by
  unfold fixupDylibWeakSymbol
  rw [hfind]
  rfl

theorem readWord_ptrAdd (m : Mem) (slot vm value : Nat) :
    (m.writeWord 8 slot (ptrAdd vm value)).readWord 8 slot = ptrAdd vm value :=
  Mem.readWord_writeWord m slot (Nat.mod_lt _ (by decide))

/-- Two 64-bit values are the same distance from an address only if they are the same. -/
theorem ptrAdd_inj {vm a b : Nat} (ha : a < 2 ^ 64) (hb : b < 2 ^ 64)
    (h : ptrAdd vm a = ptrAdd vm b) : a = b := by
  unfold ptrAdd at h
  omega

end

namespace Container

theorem nlist64_value_lt {c : Container} {offset : Nat} {entry : Nlist64}
    (h : c.nlist64 offset = some entry) : entry.nValue < 2 ^ 64 := by
  obtain ⟨_, _, h⟩ := Option.bind_eq_some_iff.mp h
  obtain ⟨_, _, h⟩ := Option.bind_eq_some_iff.mp h
  obtain ⟨_, _, h⟩ := Option.bind_eq_some_iff.mp h
  obtain ⟨_, _, h⟩ := Option.bind_eq_some_iff.mp h
  obtain ⟨nValue, hvalue, h⟩ := Option.bind_eq_some_iff.mp h
  rw [← Option.some.inj h]
  exact (Bytes.wordAt_bound hvalue).2

theorem nlistsAt_value_lt {c : Container} : ∀ {n offset : Nat} {entries : List Nlist64},
    c.nlistsAt n offset = some entries → ∀ entry ∈ entries, entry.nValue < 2 ^ 64 := by
  intro n
  induction n with
  | zero =>
    intro _ entries h
    rw [← Option.some.inj h]
    exact fun _ hmem => absurd hmem List.not_mem_nil
  | succ n ih =>
    intro offset entries h
    obtain ⟨entry, hentry, h⟩ := Option.bind_eq_some_iff.mp h
    obtain ⟨rest, hrest, h⟩ := Option.bind_eq_some_iff.mp h
    rw [← Option.some.inj h]
    intro e hmem
    rcases List.mem_cons.mp hmem with rfl | hmem
    · exact nlist64_value_lt hentry
    · exact ih hrest e hmem

theorem symbolTable_value_lt {c : Container} {offset stroff : Nat} {entries : List Nlist64}
    (h : c.symbolTable offset = some (stroff, entries)) :
    ∀ entry ∈ entries, entry.nValue < 2 ^ 64 := by
  obtain ⟨symtab, _, h⟩ := Option.bind_eq_some_iff.mp h
  obtain ⟨entries', hentries, h⟩ := Option.bind_eq_some_iff.mp h
  obtain rfl : entries' = entries := (Prod.mk.inj (Option.some.inj h)).2
  exact nlistsAt_value_lt hentries

end Container

/-- **What a weak lookup binds to.** It is right exactly if the first kept entry of the name, if
there is one, has the value of an exported entry of the name. -/
theorem weakLookup_iff {c : Container} {offset : Nat} {symbols : List Symbol}
    (hparse : c.parseSymtab offset [] = .ok symbols) (vm fixupOffset pageZeroSize : Nat)
    (name : ArrayString symbolNameLen) (m : Mem) :
    ∃ stroff entries, c.symbolTable offset = some (stroff, entries) ∧
      (WeakLookupCorrect c stroff entries symbols vm fixupOffset pageZeroSize name m ↔
        ∀ first, FirstNamed c stroff entries name.asBytes first →
          ∃ entry ∈ entries, entry.Exported ∧ entry.Named c stroff name.asBytes ∧
            first.nValue = entry.nValue) := by
  obtain ⟨stroff, entries, htable, hsymbols⟩ := Container.parseSymtab_eq_ok hparse
  refine ⟨stroff, entries, htable, ?_⟩
  have hlt := Container.symbolTable_value_lt htable
  cases hfind : symbols.find? fun sym => sym.arrayStringCmp name with
  | none =>
      have hnone := hsymbols.find_none hfind
      -- no kept entry has the name: there is no first one, and the code answers `Err`
      constructor
      · rintro - first ⟨before, after, rfl, hkept, hnamed, -⟩
        exact absurd hnamed (hnone first (by simp) hkept)
      · intro _
        obtain ⟨msg, hrun⟩ := fixupDylibWeakSymbol_none vm fixupOffset pageZeroSize m hfind
        refine ⟨fun m' h => ?_, fun _ => ⟨msg, hrun⟩⟩
        rw [hrun] at h
        exact absurd (Prod.mk.inj h).1 (by simp)
  | some symbol =>
      obtain ⟨first, hfirst, hvalue⟩ := hsymbols.find_some hfind
      have hrun := fixupDylibWeakSymbol_some vm fixupOffset pageZeroSize m hfind
      have hmem : first ∈ entries := by
        obtain ⟨before, after, rfl, -⟩ := hfirst
        simp
      constructor
      · intro h first' hfirst'
        obtain rfl := hfirst.unique hfirst'
        obtain ⟨entry, hentry, hexported, hnamed, hslot⟩ := h.bound _ hrun
        rw [readWord_ptrAdd, hvalue] at hslot
        -- different values below `2 ^ 64` would give different slots
        exact ⟨entry, hentry, hexported, hnamed,
          ptrAdd_inj (hlt first hmem) (hlt entry hentry) hslot⟩
      · intro h
        obtain ⟨entry, hentry, hexported, hnamed, heq⟩ := h first hfirst
        refine ⟨fun m' hok => ?_, fun hmissing => ?_⟩
        · rw [hrun] at hok
          obtain rfl := (Prod.mk.inj hok).2
          refine ⟨entry, hentry, hexported, hnamed, ?_⟩
          rw [readWord_ptrAdd, hvalue, heq]
        · exact absurd hnamed (hmissing entry hentry hexported)

/-- A table with two entries named `_f`, the second of them external and at `0x20`. -/
def sampleSymtab (firstType firstValue : UInt8) : Container where
  data := [2, 0, 0, 0, 24, 0, 0, 0, 24, 0, 0, 0, 2, 0, 0, 0, 56, 0, 0, 0, 3, 0, 0, 0]
    ++ [0, 0, 0, 0, firstType, 1, 0, 0, firstValue, 0, 0, 0, 0, 0, 0, 0]
    ++ [0, 0, 0, 0, 0x0f, 1, 0, 0, 0x20, 0, 0, 0, 0, 0, 0, 0]
    ++ [0x5f, 0x66, 0]
  endian := .little

theorem sampleWeakName_valid : validUtf8 (ascii "_f") = true := by decide

theorem sampleWeakName_length : (ascii "_f").length ≤ symbolNameLen := by decide

def sampleWeakName : ArrayString symbolNameLen :=
  ⟨⟨ascii "_f", sampleWeakName_valid⟩, sampleWeakName_length⟩

def sampleSymbol (implOffset : Nat) : Symbol :=
  Symbol.makeDefined false sampleWeakName implOffset 1 false false

/-- The entries of that table. -/
def sampleEntries (firstType firstValue : Nat) : List Nlist64 :=
  [{ nStrx := 0, nType := firstType, nSect := 1, nDesc := 0, nValue := firstValue },
   { nStrx := 0, nType := 0x0f, nSect := 1, nDesc := 0, nValue := 0x20 }]

/-- With both entries external, the first is as good as the second. -/
theorem sampleSymtab_weakLookup : ∃ stroff entries,
    (sampleSymtab 0x0f 0x10).symbolTable 0 = some (stroff, entries) ∧
      WeakLookupCorrect (sampleSymtab 0x0f 0x10) stroff entries
        [sampleSymbol 0x10, sampleSymbol 0x20] 0x1000 8 0 sampleWeakName fun _ => 0 := by
  have hparse : (sampleSymtab 0x0f 0x10).parseSymtab 0 []
      = .ok [sampleSymbol 0x10, sampleSymbol 0x20] := by decide +kernel
  obtain ⟨stroff, entries, htable, hiff⟩ :=
    weakLookup_iff hparse 0x1000 8 0 sampleWeakName fun _ => 0
  refine ⟨stroff, entries, htable, hiff.mpr ?_⟩
  have hentries : (sampleSymtab 0x0f 0x10).symbolTable 0 = some (56, sampleEntries 0x0f 0x10) := by
    decide +kernel
  rw [hentries] at htable
  obtain ⟨rfl, rfl⟩ := Prod.mk.inj (Option.some.inj htable)
  rintro first ⟨before, after, heq, -, hnamed, -⟩
  have hmem : first ∈ sampleEntries 0x0f 0x10 := by simp [heq]
  have hexported : ∀ entry ∈ sampleEntries 0x0f 0x10, entry.Exported := by decide
  exact ⟨first, hmem, hexported first hmem, hnamed, rfl⟩

/-- With a local entry first, the bind gets the local one. -/
theorem sampleSymtab_bindsLocal : ¬ ∀ (c : Container) (offset : Nat) (symbols : List Symbol)
    (stroff : Nat) (entries : List Nlist64) (vm fixupOffset pageZeroSize : Nat)
    (name : ArrayString symbolNameLen) (m : Mem),
    c.parseSymtab offset [] = .ok symbols → c.symbolTable offset = some (stroff, entries) →
      WeakLookupCorrect c stroff entries symbols vm fixupOffset pageZeroSize name m := by
  intro h
  have hcorrect := h (sampleSymtab 0x0e 0x10) 0 [sampleSymbol 0x10, sampleSymbol 0x20] 56
    (sampleEntries 0x0e 0x10) 0x1000 8 0 sampleWeakName (fun _ => 0) (by decide +kernel)
    (by decide +kernel)
  obtain ⟨entry, hentry, hexported, -, hslot⟩ := hcorrect.bound _ rfl
  have hread : ptrAdd 0x1000 0x10 = ptrAdd 0x1000 entry.nValue :=
    (readWord_ptrAdd _ _ _ _).symm.trans hslot
  have hvalue : ∀ e ∈ sampleEntries 0x0e 0x10, e.Exported → e.nValue = 0x20 := by decide
  rw [hvalue entry hentry hexported] at hread
  exact absurd hread (by decide)

end Dynld
