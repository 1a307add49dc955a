import Dynld.Proof.FixupRoundTrip
import Dynld.Proof.Imports

/-!
# Names that do not fit

The name of an import is read into a string of a fixed capacity, and a name that does
not fit is not an error there: `import_symbol_parse` unwraps. The symbol table, which
reads its names into the same strings, leaves such a name out.

Nothing else can fail on a well-formed image, so the parser returns exactly if the name
of every import that is bound fits. An import that no record binds may have any name.
-/

namespace Dynld

open Bytes

/-! ## An image with names of any length -/

/-- The import that the record binds to. -/
def FixupRecord.boundImport {n : Nat} : FixupRecord n → Option (Fin n)
  | rebase _ _ => none
  | authRebase _ _ _ _ => none
  | bind index _ => some index
  | authBind index _ _ _ => some index

/-- The image `c` holds these records, laid out like `l`, and a table of imports in any of the
formats. The names are UTF-8 and end at a NUL. -/
structure ImportedFixupsAt (c : Container) (l : FixupsLayout) (format : ImportFormat)
    (t : ImportTable) (segments : List (Option (SegmentFixups t.imports.length))) : Prop where
  payload : PayloadAt c l segments
  importsFormat_eq : l.payload.importsFormat = format.variant
  table : ImportTableAt c format (l.command.dataoff + l.payload.importsOffset)
    (l.command.dataoff + l.payload.symbolsOffset) t
  table_wf : t.WellFormed
  names : ∀ i ∈ t.imports, ∃ name, t.NameOf i name
  pages : ∀ s, some s ∈ segments → ∀ page ∈ s.pages, PageWellFormed s.format s.pageSize page

/-- What stands where the name of the import is looked for is a name, and it fits. -/
def NameFits (c : Container) (symbols : Nat) (format : ImportFormat) (i : ChainedImport) : Prop :=
  ∃ name : Str, untilNul (c.data.drop (symbols + i.nameOffsetRead c.endian format))
    = some name.bytes ∧ name.bytes.length ≤ symbolNameLen

/-- Where the name offset is what is taken for it, the length of the name decides. -/
theorem nameFits_iff {c : Container} {symbols : Nat} {format : ImportFormat} {t : ImportTable}
    {i : ChainedImport} {name : Str} (hpool : At c.data symbols t.pool) (hname : t.NameOf i name)
    (hread : i.nameOffsetRead c.endian format = i.nameOffset) :
    NameFits c symbols format i ↔ name.bytes.length ≤ symbolNameLen := by
  have hpool := untilNul_of_pool hpool hname
  rw [NameFits, hread]
  constructor
  · rintro ⟨name', hname', hlen⟩
    rw [hpool] at hname'
    rwa [← Option.some.inj hname'] at hlen
  · exact fun hlen => ⟨name, hpool, hlen⟩

namespace Container

variable {c : Container}

/-! ## One record -/

theorem deserializeStringAtOffset_ne_err (offset : Nat) (m : String) :
    c.deserializeStringAtOffset offset ≠ .err m := by
  rw [deserializeStringAtOffset, stringBytesAtOffset]
  split
  · cases untilNul (c.data.drop offset) with
    | none => simp
    | some bytes =>
        rw [Outcome.orPanic_some, Outcome.ok_bind]
        split <;> simp
  · simp

section

variable {format : ImportFormat} {imports symbols k : Nat} {i : ChainedImport}

theorem importSymbolParse_ok_iff (hfit : i.Fits)
    (hat : At c.data (imports + k * format.entrySize) (encodeFields c.endian (i.fields format))) :
    (∃ r, c.importSymbolParse k format.variant imports symbols = .ok r)
      ↔ NameFits c symbols format i := by
  rw [importSymbolParse_entry hfit hat]
  constructor
  · rintro ⟨r, h⟩
    obtain ⟨name, hname, h⟩ := Outcome.bind_eq_ok.mp h
    obtain ⟨symbolName, hfits, -⟩ := Outcome.bind_eq_ok.mp h
    have hstr := ArrayString.tryFromStr_eq_some.mp (Outcome.orPanic_eq_ok.mp hfits)
    exact ⟨name, deserializeStringAtOffset_eq_ok.mp hname, hstr ▸ symbolName.length_le⟩
  · rintro ⟨name, hname, hlen⟩
    refine ⟨(i.libOrdinal, ⟨name, hlen⟩), Outcome.bind_eq_ok.mpr ⟨name, ?_, ?_⟩⟩
    · exact deserializeStringAtOffset_eq_ok.mpr hname
    · have hfits : ArrayString.tryFromStr symbolNameLen name = some ⟨name, hlen⟩ := dif_pos hlen
      rw [hfits]
      rfl

/-- A name that is not there or does not fit is no error. -/
theorem importSymbolParse_ne_err (hfit : i.Fits)
    (hat : At c.data (imports + k * format.entrySize) (encodeFields c.endian (i.fields format)))
    (m : String) : c.importSymbolParse k format.variant imports symbols ≠ .err m := by
  rw [importSymbolParse_entry hfit hat]
  cases hname : c.deserializeStringAtOffset (symbols + i.nameOffsetRead c.endian format) with
  | ok name =>
      rw [Outcome.ok_bind]
      cases ArrayString.tryFromStr symbolNameLen name <;> simp
  | err m' => exact absurd hname (deserializeStringAtOffset_ne_err _ m')
  | panic m' => simp
  | outOfFuel => simp

end

section

variable {n importsOffset symbolsOffset : Nat} {importsFormat : DyldChainedImportFormatVariants}

/-- A bind comes to what looking its import up does. -/
theorem recordFixup_bound {offset : Nat} {r : FixupRecord n} {k : Fin n}
    (h : r.boundImport = some k) : ∃ kind : Nat → ArrayString symbolNameLen → FixupKind,
      c.recordFixup importsFormat importsOffset symbolsOffset (offset, r)
        = (c.importSymbolParse k importsFormat importsOffset symbolsOffset
            >>= fun found => .ok { offset, kind := kind found.1 found.2 }) := by
  have hbind : ∀ (addend : Nat) (isAuth : Bool),
      (c.bindParse offset importsFormat importsOffset symbolsOffset k 0 addend isAuth
          >>= fun found => Outcome.ok found.2)
        = (c.importSymbolParse k importsFormat importsOffset symbolsOffset
            >>= fun found => .ok { offset, kind := .bind found.2 found.1 isAuth addend }) := by
    intro addend isAuth
    rw [bindParse]
    cases c.importSymbolParse k importsFormat importsOffset symbolsOffset <;> rfl
  cases r with
  | rebase target high8 => exact absurd h (by simp [FixupRecord.boundImport])
  | authRebase target diversity addrDiv key => exact absurd h (by simp [FixupRecord.boundImport])
  | bind index addend =>
      obtain rfl : index = k := Option.some.inj h
      exact ⟨fun libOrdinal name => .bind name libOrdinal false addend, hbind addend false⟩
  | authBind index diversity addrDiv key =>
      obtain rfl : index = k := Option.some.inj h
      exact ⟨fun libOrdinal name => .bind name libOrdinal true 0, hbind 0 true⟩

theorem recordFixup_unbound {record : Nat × FixupRecord n} (h : record.2.boundImport = none) :
    ∃ fixup, c.recordFixup importsFormat importsOffset symbolsOffset record = .ok fixup := by
  obtain ⟨offset, r⟩ := record
  cases r with
  | rebase target high8 => exact ⟨_, rfl⟩
  | authRebase target diversity addrDiv key => exact ⟨_, rfl⟩
  | bind index addend => exact absurd h (by simp [FixupRecord.boundImport])
  | authBind index diversity addrDiv key => exact absurd h (by simp [FixupRecord.boundImport])

end

section

variable {l : FixupsLayout} {format : ImportFormat} {t : ImportTable}
  {segments : List (Option (SegmentFixups t.imports.length))}

/-- The entry of an import, and its fields fit. -/
theorem entry_of_at (hat : ImportedFixupsAt c l format t segments) (k : Fin t.imports.length) :
    (t.imports.get k).Fits ∧
      At c.data (l.command.dataoff + l.payload.importsOffset + k * format.entrySize)
        (encodeFields c.endian ((t.imports.get k).fields format)) :=
  ⟨hat.table_wf.fits _ (List.get_mem _ _),
    hat.table.entry k _ (List.getElem?_eq_getElem k.isLt)⟩

theorem recordFixup_ok_iff (hat : ImportedFixupsAt c l format t segments)
    (record : Nat × FixupRecord t.imports.length) :
    (∃ fixup, c.recordFixup l.payload.importsFormat (l.command.dataoff + l.payload.importsOffset)
        (l.command.dataoff + l.payload.symbolsOffset) record = .ok fixup)
      ↔ ∀ k, record.2.boundImport = some k →
          NameFits c (l.command.dataoff + l.payload.symbolsOffset) format (t.imports.get k) := by
  obtain ⟨offset, r⟩ := record
  rw [hat.importsFormat_eq]
  cases hbound : r.boundImport with
  | none => exact ⟨fun _ k hk => absurd hk (by simp), fun _ => recordFixup_unbound hbound⟩
  | some k =>
      obtain ⟨kind, hrecord⟩ := recordFixup_bound hbound
      obtain ⟨hfit, hentry⟩ := entry_of_at hat k
      rw [hrecord]
      constructor
      · rintro ⟨fixup, h⟩ k' hk'
        obtain rfl : k = k' := Option.some.inj hk'
        obtain ⟨found, hfound, -⟩ := Outcome.bind_eq_ok.mp h
        exact (importSymbolParse_ok_iff hfit hentry).mp ⟨found, hfound⟩
      · intro h
        obtain ⟨found, hfound⟩ := (importSymbolParse_ok_iff hfit hentry).mpr (h k rfl)
        exact ⟨_, by rw [hfound, Outcome.ok_bind]⟩

theorem recordFixup_ne_err (hat : ImportedFixupsAt c l format t segments)
    (record : Nat × FixupRecord t.imports.length) (m : String) :
    c.recordFixup l.payload.importsFormat (l.command.dataoff + l.payload.importsOffset)
      (l.command.dataoff + l.payload.symbolsOffset) record ≠ .err m := by
  obtain ⟨offset, r⟩ := record
  rw [hat.importsFormat_eq]
  cases hbound : r.boundImport with
  | none =>
      obtain ⟨fixup, h⟩ := @recordFixup_unbound c _ _ _ _ (offset, r) hbound
      rw [h]
      simp
  | some k =>
      obtain ⟨kind, hrecord⟩ := recordFixup_bound hbound
      obtain ⟨hfit, hentry⟩ := entry_of_at hat k
      rw [hrecord]
      cases hfound : c.importSymbolParse k format.variant
          (l.command.dataoff + l.payload.importsOffset)
          (l.command.dataoff + l.payload.symbolsOffset) with
      | ok found => simp
      | err m' => exact absurd hfound (importSymbolParse_ne_err hfit hentry m')
      | panic m' => simp
      | outOfFuel => simp

end

end Container

/-- **The parser returns exactly if the name of every bound import fits**: what stands where it is
looked for is NUL-terminated UTF-8 of at most `SYMBOL_NAME_LEN` bytes. -/
theorem chainedFixupsParseAll_returns_iff {c : Container} {l : FixupsLayout}
    {format : ImportFormat} {t : ImportTable}
    {segments : List (Option (SegmentFixups t.imports.length))}
    (hat : ImportedFixupsAt c l format t segments) :
    c.chainedFixupsParseAll.Returns
      ↔ ∀ record ∈ recordsOf segments, ∀ k, record.2.boundImport = some k →
          NameFits c (l.command.dataoff + l.payload.symbolsOffset) format (t.imports.get k) := by
  rw [Container.chainedFixupsParseAll_of_at hat.payload hat.pages]
  constructor
  · rintro (hok | ⟨m, herr⟩)
    · intro record hrecord
      exact (Container.recordFixup_ok_iff hat record).mp (Outcome.each_ok_iff.mp hok record hrecord)
    · obtain ⟨record, -, h⟩ := Outcome.each_eq_err herr
      exact absurd h (Container.recordFixup_ne_err hat record m)
  · intro h
    exact .inl (Outcome.each_ok_iff.mpr fun record hrecord =>
      (Container.recordFixup_ok_iff hat record).mpr (h record hrecord))

/-! ## A name at the limit and one past it

The page of the only segment starts with a bind of the only import, whose name is as
long as is asked for. -/

def sampleLongTable (n : Nat) : ImportTable :=
  { imports := [⟨1, false, 1, 0⟩], pool := 0 :: List.replicate n 0x66 ++ [0] }

def sampleLongRecords : List (Nat × FixupRecord 1) := [(0, .bind ⟨0, Nat.zero_lt_one⟩ 5)]

def sampleLongSegment : SegmentFixups 1 := ⟨.ptr64Offset, 0x1000, 112, [sampleLongRecords]⟩

def sampleLongLayout : FixupsLayout where
  header := ⟨.mhMagic64, 0, 0, .mhExecute, 1, 16, 0, 0⟩
  before := 0
  commandOffset := 32
  cmdsize := 16
  command := ⟨48, 88⟩
  payload := ⟨0, 28, 60, 72, 1, .dyldChainedImport, 0⟩

def sampleLongHead : DyldChainedStartsInSegment :=
  ⟨24, 0x1000, .dyldChainedPtr64Offset, 112, 0, 1⟩

/-- The image up to the names. -/
def sampleLongStart : List UInt8 :=
  encodeFields .little (sampleLongLayout.header.fields
    ++ sampleLongLayout.command.fields ⟨.lcDyldChainedFixups, 16⟩
    ++ sampleLongLayout.payload.fields
    ++ [(4, 1), (4, 8)]
    ++ sampleLongHead.fields ++ [(2, 0)]
    ++ [(4, 1 + 1 * 2 ^ 9)]
    ++ [(8, 5 * 2 ^ 24 + 2 ^ 63)])

def sampleLongImage (n : Nat) : Container where
  data := sampleLongStart ++ (sampleLongTable n).pool
  endian := .little

theorem sampleLong_of_start (n : Nat) {off : Nat} {xs : List UInt8}
    (h : At sampleLongStart off xs) : At (sampleLongImage n).data off xs :=
  List.IsPrefix.trans h (prefix_drop (List.prefix_append _ _) off)

theorem sampleLong_length (n : Nat) : (sampleLongImage n).data.length = 122 + n := by
  have hstart : sampleLongStart.length = 120 := by decide +kernel
  simp only [sampleLongImage, sampleLongTable, List.length_append, List.length_cons,
    List.length_replicate, List.length_nil, hstart]
  omega

theorem validUtf8_replicate (n : Nat) : validUtf8 (List.replicate n 0x66) = true := by
  induction n with
  | zero => rfl
  | succ n ih =>
    have hcons : validUtf8 (0x66 :: List.replicate n 0x66) = validUtf8 (List.replicate n 0x66) := by
      rw [validUtf8.eq_def]
      rfl
    rw [List.replicate_succ, hcons, ih]

/-- The name of the import. -/
def sampleLongName (n : Nat) : Str := ⟨List.replicate n 0x66, validUtf8_replicate n⟩

theorem sampleLong_name (n : Nat) :
    (sampleLongTable n).NameOf ⟨1, false, 1, 0⟩ (sampleLongName n) := by
  have h0 : 0 ∉ List.replicate n (0x66 : UInt8) := fun h =>
    absurd (List.eq_of_mem_replicate h) (by decide)
  exact untilNul_append h0

theorem sampleLongSegment_at (n : Nat) :
    SegmentAt (n := 1) (sampleLongImage n) sampleLongSegment 84 sampleLongHead where
  pageSize_eq := rfl
  format_eq := rfl
  segmentOffset_eq := rfl
  pageCount_eq := rfl
  fits := ⟨by decide, by decide, by decide, by decide, by decide, by decide, trivial⟩
  at_ := sampleLong_of_start n (show At sampleLongStart 84
    (encodeFields .little sampleLongHead.fields) by decide +kernel)
  room := by rw [sampleLong_length]; omega
  pages := ⟨sampleLong_of_start n (show At sampleLongStart 106 (encode .little 2 0) by
      decide +kernel),
    sampleLong_of_start n (show At sampleLongStart 112
      (encode .little 8 (5 * 2 ^ 24 + 2 ^ 63)) by decide +kernel), trivial⟩

theorem sampleLong_payload {n : Nat} (h : n < 2 ^ 16) :
    PayloadAt (n := 1) (sampleLongImage n) sampleLongLayout [some sampleLongSegment] where
  image_lt := by rw [sampleLong_length]; omega
  header_at := sampleLong_of_start n (show At sampleLongStart 0
    (encodeFields .little sampleLongLayout.header.fields) by decide +kernel)
  header_fits := ⟨by decide, by decide, by decide, by decide, by decide, by decide, by decide,
    by decide, trivial⟩
  before_lt := by decide
  leads_to := .here
  command_at := sampleLong_of_start n (show At sampleLongStart 32
    (encodeFields .little (sampleLongLayout.command.fields ⟨.lcDyldChainedFixups, 16⟩)) by
      decide +kernel)
  command_fits := ⟨by decide, by decide, by decide, by decide, trivial⟩
  payload_at := sampleLong_of_start n (show At sampleLongStart 48
    (encodeFields .little sampleLongLayout.payload.fields) by decide +kernel)
  payload_fits := ⟨by decide, by decide, by decide, by decide, by decide, by decide, by decide,
    trivial⟩
  segCount_at := sampleLong_of_start n (show At sampleLongStart 76 (encode .little 4 1) by
    decide +kernel)
  segCount_lt := show 1 < 2 ^ 32 by decide
  imports_le := by rw [sampleLong_length]; exact Nat.le_trans (by decide) (Nat.le_add_right 122 n)
  symbols_le := by rw [sampleLong_length]; exact Nat.le_trans (by decide) (Nat.le_add_right 122 n)
  segments_at := ⟨⟨8, by decide, sampleLong_of_start n (show At sampleLongStart 80
    (encode .little 4 8) by decide +kernel), by decide, sampleLongHead, sampleLongSegment_at n⟩,
    trivial⟩

theorem sampleLong_table (n : Nat) :
    ImportTableAt (sampleLongImage n) .plain 108 120 (sampleLongTable n) where
  entry := by
    intro k i hk
    cases k with
    | zero =>
        obtain rfl : ⟨1, false, 1, 0⟩ = i := Option.some.inj hk
        exact sampleLong_of_start n (show At sampleLongStart 108
          (encodeFields .little [(4, 1 + 1 * 2 ^ 9)]) by decide +kernel)
    | succ k => exact absurd hk (by simp [sampleLongTable])
  pool := by
    have hstart : sampleLongStart.length = 120 := by decide +kernel
    have hdrop : (sampleLongImage n).data.drop 120 = (sampleLongTable n).pool := by
      rw [← hstart]
      exact List.drop_left
    exact (congrArg ((sampleLongTable n).pool <+: ·) hdrop).mpr (List.prefix_refl _)

theorem sampleLong_at {n : Nat} (h : n < 2 ^ 16) :
    ImportedFixupsAt (sampleLongImage n) sampleLongLayout .plain (sampleLongTable n)
      [some sampleLongSegment] where
  payload := sampleLong_payload h
  importsFormat_eq := rfl
  table := sampleLong_table n
  table_wf := {
    length_le := Nat.one_le_two_pow
    fits := by
      intro i hi
      obtain rfl : i = ⟨1, false, 1, 0⟩ := List.mem_singleton.mp hi
      exact ⟨show 1 < 2 ^ 8 by decide, show 1 < 2 ^ 23 by decide⟩ }
  names := by
    intro i hi
    obtain rfl : i = ⟨1, false, 1, 0⟩ := List.mem_singleton.mp hi
    exact ⟨sampleLongName n, sampleLong_name n⟩
  pages := by
    intro s hs page hpage
    obtain rfl := Option.some.inj (List.mem_singleton.mp hs)
    obtain rfl : page = sampleLongRecords := List.mem_singleton.mp hpage
    refine ⟨List.cons_ne_nil _ _, ?_, ?_, .singleton _⟩
    · intro record hr
      rcases List.mem_singleton.mp hr with rfl
      exact (show 0 < 0x1000 by decide)
    · intro record hr
      rcases List.mem_singleton.mp hr with rfl
      exact ⟨show 0 < 2 ^ 24 by decide, show 5 < 2 ^ 8 by decide⟩

/-- A name of 128 bytes fits. -/
theorem sampleLong_returns : (sampleLongImage 128).chainedFixupsParseAll.Returns := by
  have hfits : NameFits (sampleLongImage 128) 120 .plain ⟨1, false, 1, 0⟩ :=
    (nameFits_iff (sampleLong_table 128).pool (sampleLong_name 128) rfl).mpr
      (Nat.le_of_eq List.length_replicate)
  refine (chainedFixupsParseAll_returns_iff (sampleLong_at (by decide))).mpr ?_
  intro record _ k _
  have hget : (sampleLongTable 128).imports.get k = ⟨1, false, 1, 0⟩ :=
    List.mem_singleton.mp (List.get_mem _ _)
  rw [hget]
  exact hfits

/-- With one byte more the parser panics. -/
theorem sampleLong_panics : ¬ ∀ (c : Container) (l : FixupsLayout) (format : ImportFormat)
    (t : ImportTable) (segments : List (Option (SegmentFixups t.imports.length))),
    ImportedFixupsAt c l format t segments → c.chainedFixupsParseAll.Returns := by
  intro h
  have hreturns := h _ _ _ _ _ (sampleLong_at (show 129 < 2 ^ 16 by decide))
  have hpanic : (sampleLongImage 129).chainedFixupsParseAll
      = .panic "called `Option::unwrap()` on a `None` value" := by decide +kernel
  rw [hpanic] at hreturns
  rcases hreturns with ⟨fixups, hok⟩ | ⟨m, herr⟩
  · exact absurd hok (by simp)
  · exact absurd herr (by simp)

end Dynld
