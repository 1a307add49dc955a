import Dynld.Format.Imports

/-!
# Looking an import up

The ordinal is right in every format. The name is what stands in the pool at
`nameOffsetRead`, which is the name offset in the packed table and in the wide one
that keeps it in a word of its own, but the addend in the others: `import_symbol_parse`
takes `import.addend` where it should take `import.header.name_offset()`.
-/

namespace Dynld

open Bytes

/-- What `import_symbol_parse` takes for the name offset of an import. -/
def ChainedImport.nameOffsetRead (i : ChainedImport) (e : Endian) : ImportFormat → Nat
  | .plain => i.nameOffset
  | .addend => wrap 32 i.addend
  | .addend64 .packed => wrap 64 i.addend % 2 ^ 32
  | .addend64 .aligned =>
      match e with
      | .little => 0
      | .big => wrap 64 i.addend / 2 ^ 32
  | .addend64 .wide =>
      match e with
      | .little => i.nameOffset
      | .big => wrap 64 i.addend / 2 ^ 32

namespace Container

variable {c : Container}

/-! ## One entry -/

theorem packedWord_fields {i : ChainedImport} (hfit : i.Fits) :
    i.packedWord < 2 ^ 32 ∧ DyldChainedImport.libOrdinal i.packedWord = i.libOrdinal ∧
      DyldChainedImport.nameOffset i.packedWord = i.nameOffset := by
  have hord := hfit.libOrdinal_lt
  have hoff := hfit.nameOffset_lt
  have hweak : i.weakImport.toNat ≤ 1 := Bool.toNat_le _
  have hlt : i.packedWord < 2 ^ 32 := by
    unfold ChainedImport.packedWord
    omega
  obtain ⟨hlib, hname⟩ := DyldChainedImport.fields hlt
  refine ⟨hlt, ?_, ?_⟩
  · rw [hlib, ChainedImport.packedWord]
    omega
  · rw [hname, ChainedImport.packedWord]
    omega

/-- A `u64` read from a 4-byte word on runs into the first half of the wide word behind it. -/
theorem u64_of_straddle {off x a : Nat} (hx : x < 2 ^ 32) (ha : a < 2 ^ 64)
    (hat : At c.data off (encode c.endian 4 x)) (hat' : At c.data (off + 4) (encode c.endian 8 a)) :
    ∃ v, c.u64 off = some v ∧
      v % 2 ^ 32 = match c.endian with
        | .little => x
        | .big => a / 2 ^ 32 := by
  obtain ⟨a₁, a₂, h₁, h₂, rfl⟩ := exists_join c.endian (w := 4) ha
  rw [encode_join (w := 4) h₁ h₂, at_append] at hat'
  have hboth : At c.data off (encode c.endian 8 (join c.endian 4 x a₁)) := by
    rw [encode_join (w := 4) hx h₁, at_append, length_encode]
    exact ⟨hat, hat'.1⟩
  refine ⟨join c.endian 4 x a₁, u64_of_at hboth (join_lt (w := 4) hx h₁), ?_⟩
  cases c.endian with
  | little =>
      simp only [join]
      omega
  | big =>
      simp only [join]
      omega

/-- What is read of an entry: its ordinal, and the word at `nameOffsetRead`. -/
theorem importSymbolParse_entry {format : ImportFormat} {imports symbols k : Nat}
    {i : ChainedImport} (hfit : i.Fits)
    (hat : At c.data (imports + k * format.entrySize) (encodeFields c.endian (i.fields format))) :
    c.importSymbolParse k format.variant imports symbols = (do
      let name ← c.deserializeStringAtOffset (symbols + i.nameOffsetRead c.endian format)
      let symbolName ← Outcome.orPanic (ArrayString.tryFromStr symbolNameLen name)
        "called `Option::unwrap()` on a `None` value"
      .ok (i.libOrdinal, symbolName)) := by
  obtain ⟨hword, hlib, hname⟩ := packedWord_fields hfit
  have h32 := wrap_lt 32 i.addend
  have h64 := wrap_lt 64 i.addend
  cases format with
  | plain =>
      simp only [ChainedImport.fields, ImportFormat.entrySize, at_encodeFields_cons] at hat
      simp only [importSymbolParse, ImportFormat.variant, u32_of_at hat.1 hword, hlib, hname,
        Outcome.okOr_some, Outcome.ok_bind, ChainedImport.nameOffsetRead]
  | addend =>
      simp only [ChainedImport.fields, ImportFormat.entrySize, at_encodeFields_cons] at hat
      obtain ⟨hheader, haddend, -⟩ := hat
      simp only [importSymbolParse, ImportFormat.variant, dyldChainedImportAddend,
        u32_of_at hheader hword, u32_of_at haddend h32, hlib, Option.bind_eq_bind,
        Option.bind_some, Option.pure_def, Outcome.okOr_some, Outcome.ok_bind,
        ChainedImport.nameOffsetRead]
  | addend64 layout =>
      cases layout with
      | packed =>
          simp only [ChainedImport.fields, ImportFormat.entrySize, at_encodeFields_cons] at hat
          obtain ⟨hheader, haddend, -⟩ := hat
          simp only [importSymbolParse, ImportFormat.variant, dyldChainedImportAddend64,
            u32_of_at hheader hword, u64_of_at haddend h64, hlib, Option.bind_eq_bind,
            Option.bind_some, Option.pure_def, Outcome.okOr_some, Outcome.ok_bind,
            ChainedImport.nameOffsetRead]
      | aligned =>
          simp only [ChainedImport.fields, ImportFormat.entrySize, at_encodeFields_cons] at hat
          obtain ⟨hheader, hpadding, haddend, -⟩ := hat
          -- the addend is read 4 bytes early, across the padding
          obtain ⟨v, hv, hlow⟩ := u64_of_straddle (by decide) h64 hpadding haddend
          simp only [importSymbolParse, ImportFormat.variant, dyldChainedImportAddend64,
            u32_of_at hheader hword, hv, hlib, hlow, Option.bind_eq_bind, Option.bind_some,
            Option.pure_def, Outcome.okOr_some, Outcome.ok_bind, ChainedImport.nameOffsetRead]
      | wide =>
          have hord := hfit.libOrdinal_lt
          have hoff := hfit.nameOffset_lt
          have hweak : i.weakImport.toNat ≤ 1 := Bool.toNat_le _
          have hlt : i.libOrdinal + i.weakImport.toNat * 2 ^ 16 < 2 ^ 32 := by omega
          have hlow8 : DyldChainedImport.libOrdinal (i.libOrdinal + i.weakImport.toNat * 2 ^ 16)
              = i.libOrdinal := by
            rw [(DyldChainedImport.fields hlt).1]
            omega
          simp only [ChainedImport.fields, ImportFormat.entrySize, at_encodeFields_cons] at hat
          obtain ⟨hheader, hoffset, haddend, -⟩ := hat
          obtain ⟨v, hv, hlow⟩ := u64_of_straddle (by omega) h64 hoffset haddend
          simp only [importSymbolParse, ImportFormat.variant, dyldChainedImportAddend64,
            u32_of_at hheader hlt, hv, hlow8, hlow, Option.bind_eq_bind, Option.bind_some,
            Option.pure_def, Outcome.okOr_some, Outcome.ok_bind, ChainedImport.nameOffsetRead]

/-! ## The name -/

theorem deserializeStringAtOffset_eq_ok {off : Nat} {s : Str} :
    c.deserializeStringAtOffset off = .ok s ↔ untilNul (c.data.drop off) = some s.bytes := by
  rw [deserializeStringAtOffset, Outcome.bind_eq_ok]
  constructor
  · rintro ⟨bytes, hbytes, hs⟩
    unfold stringBytesAtOffset at hbytes
    split at hbytes
    · rw [Outcome.orPanic_eq_ok.mp hbytes]
      split at hs
      · rw [← Outcome.ok.inj hs]
      · exact absurd hs (by simp)
    · exact absurd hbytes (by simp)
  · intro h
    have hle : off ≤ c.data.length := by
      rcases Nat.lt_or_ge c.data.length off with hlt | hle
      · rw [List.drop_eq_nil_of_le (by omega)] at h
        exact absurd h (by simp [untilNul])
      · exact hle
    refine ⟨s.bytes, ?_, dif_pos s.valid⟩
    rw [stringBytesAtOffset, if_pos hle, h, Outcome.orPanic_some]

end Container

namespace ArrayString

theorem tryFromStr_eq_some {n : Nat} {s : Str} {a : ArrayString n} :
    tryFromStr n s = some a ↔ a.str = s := by
  unfold tryFromStr
  constructor
  · intro h
    split at h
    · rw [← Option.some.inj h]
    · exact absurd h (by simp)
  · rintro rfl
    exact dif_pos a.length_le

end ArrayString

/-- Looking import number `k` up finds its ordinal and its name. -/
def FindsImport (c : Container) (format : ImportFormat) (imports symbols k : Nat)
    (i : ChainedImport) (name : Str) : Prop :=
  ∃ s, c.importSymbolParse k format.variant imports symbols = .ok (i.libOrdinal, s) ∧ s.str = name

/-- The import is found if its name is where it is looked for, and fits. -/
theorem findsImport_of_read {c : Container} {format : ImportFormat} {imports symbols k : Nat}
    {t : ImportTable} {i : ChainedImport} {name : Str} (hat : ImportTableAt c format imports symbols t)
    (hwf : t.WellFormed) (hk : t.imports[k]? = some i)
    (hread : untilNul (c.data.drop (symbols + i.nameOffsetRead c.endian format)) = some name.bytes)
    (hlen : name.bytes.length ≤ symbolNameLen) : FindsImport c format imports symbols k i name := by
  have hfit := hwf.fits i (List.mem_of_getElem? hk)
  have hstr := Container.deserializeStringAtOffset_eq_ok.mpr hread
  have htry : ArrayString.tryFromStr symbolNameLen name = some ⟨name, hlen⟩ := dif_pos hlen
  rw [FindsImport, Container.importSymbolParse_entry hfit (hat.entry k i hk), hstr,
    Outcome.ok_bind, htry, Outcome.orPanic_some]
  exact ⟨⟨name, hlen⟩, rfl, rfl⟩

/-- **When an import is found**: the word taken for its name offset leads to its name, and the
name fits. -/
theorem findsImport_iff {c : Container} {format : ImportFormat} {imports symbols k : Nat}
    {t : ImportTable} {i : ChainedImport} {name : Str} (hat : ImportTableAt c format imports symbols t)
    (hwf : t.WellFormed) (hk : t.imports[k]? = some i) (hname : t.NameOf i name) :
    FindsImport c format imports symbols k i name ↔
      untilNul (c.data.drop (symbols + i.nameOffsetRead c.endian format)) = some name.bytes ∧
        name.bytes.length ≤ symbolNameLen := by
  have hfit := hwf.fits i (List.mem_of_getElem? hk)
  constructor
  · rintro ⟨s, hs, rfl⟩
    rw [Container.importSymbolParse_entry hfit (hat.entry k i hk)] at hs
    obtain ⟨name, hread, hs⟩ := Outcome.bind_eq_ok.mp hs
    obtain ⟨symbolName, htry, hs⟩ := Outcome.bind_eq_ok.mp hs
    have hsym := ArrayString.tryFromStr_eq_some.mp (Outcome.orPanic_eq_ok.mp htry)
    obtain rfl : symbolName = s := (Prod.mk.inj (Outcome.ok.inj hs)).2
    rw [← hsym] at hread
    exact ⟨Container.deserializeStringAtOffset_eq_ok.mp hread, symbolName.length_le⟩
  · rintro ⟨hread, hlen⟩
    exact findsImport_of_read hat hwf hk hread hlen

/-- A name of the pool is found in the image that holds the pool. -/
theorem untilNul_of_pool {c : Container} {symbols : Nat} {t : ImportTable} {i : ChainedImport}
    {name : Str} (hpool : At c.data symbols t.pool) (hname : t.NameOf i name) :
    untilNul (c.data.drop (symbols + i.nameOffset)) = some name.bytes := by
  obtain ⟨rest, hrest⟩ := hpool
  obtain ⟨h0, after, hafter⟩ := untilNul_eq_some hname
  have hle : i.nameOffset ≤ t.pool.length := by
    rcases Nat.lt_or_ge t.pool.length i.nameOffset with hlt | hle
    · rw [List.drop_eq_nil_of_le (by omega)] at hafter
      exact absurd hafter (by simp)
    · exact hle
  rw [← List.drop_drop, ← hrest, List.drop_append_of_le_length hle, hafter, List.append_assoc]
  exact untilNul_append h0

/-! ## One import in two tables -/

/-- The import of `_f` from library 1. -/
def sampleImportEntry (addend : Int) : ChainedImport := ⟨1, false, 1, addend⟩

def sampleImportTable (addend : Int) : ImportTable :=
  { imports := [sampleImportEntry addend], pool := 0 :: ascii "_f" ++ [0] }

/-- The table with an addend, and then its pool. -/
def sampleImportBytes (addend : Int) : Container :=
  { data := encodeFields .little ((sampleImportEntry addend).fields .addend)
      ++ (sampleImportTable addend).pool
    endian := .little }

theorem sampleImportName_valid : validUtf8 (ascii "_f") = true := by decide

def sampleImportName : Str := ⟨ascii "_f", sampleImportName_valid⟩

theorem sampleImportTable_wellFormed (addend : Int) : (sampleImportTable addend).WellFormed where
  length_le := Nat.one_le_two_pow
  fits := by
    intro i hi
    obtain rfl : i = sampleImportEntry addend := List.mem_singleton.mp hi
    exact ⟨show 1 < 2 ^ 8 by decide, show 1 < 2 ^ 23 by decide⟩

theorem sampleImportTable_name (addend : Int) :
    (sampleImportTable addend).NameOf (sampleImportEntry addend) sampleImportName := rfl

theorem sampleImportTable_at (addend : Int) :
    ImportTableAt (sampleImportBytes addend) .addend 0 8 (sampleImportTable addend) where
  entry := by
    intro k i hk
    cases k with
    | zero =>
        obtain rfl : sampleImportEntry addend = i := Option.some.inj hk
        exact List.prefix_append _ _
    | succ k => exact absurd hk (by simp [sampleImportTable])
  pool := ⟨[], List.append_nil _⟩

/-- An addend that happens to be the name offset. -/
theorem sampleImport_found : FindsImport (sampleImportBytes 1) .addend 0 8 0 (sampleImportEntry 1)
    sampleImportName :=
  (findsImport_iff (sampleImportTable_at 1) (sampleImportTable_wellFormed 1) rfl
    (sampleImportTable_name 1)).mpr ⟨by decide, by decide⟩

/-- Without an addend the name that is found is the empty one at the start of the pool. -/
theorem sampleImport_misread :
    ImportTableAt (sampleImportBytes 0) .addend 0 8 (sampleImportTable 0) ∧
      (sampleImportTable 0).WellFormed ∧
      (sampleImportTable 0).NameOf (sampleImportEntry 0) sampleImportName ∧
      ¬ FindsImport (sampleImportBytes 0) .addend 0 8 0 (sampleImportEntry 0) sampleImportName := by
  refine ⟨sampleImportTable_at 0, sampleImportTable_wellFormed 0, sampleImportTable_name 0, ?_⟩
  rintro ⟨s, hs, hname⟩
  have hread : (sampleImportBytes 0).importSymbolParse 0 ImportFormat.addend.variant 0 8
      = .ok (1, ⟨⟨[], by decide⟩, by decide⟩) := by decide
  rw [hread] at hs
  have hempty := congrArg ArrayString.str (Prod.mk.inj (Outcome.ok.inj hs)).2
  rw [hname] at hempty
  exact absurd hempty (by decide)

end Dynld
