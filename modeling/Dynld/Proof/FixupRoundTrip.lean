import Dynld.Proof.ChainWords

/-!
# The fixups that were written are the fixups that are parsed

One induction for each table. A chain word is taken apart into the fields it was
put together from, and the distance it holds leads to the next word; the chains of
a segment follow one another by page number, and the segments by theirs. So the
parser goes through the records in order, whatever the table of imports looks like
(`chainedFixupsParseAll_of_at`); in the packed format every import is found.

The chain loop runs on fuel. Each word lies inside the image and the next one lies
behind it, so fuel that exceeds what is left of the image is enough.
-/

namespace Dynld

open Bytes

namespace Container

/-! ## Records -/

section ParseOne

/-- What the record of a word comes to: a rebase is complete, and a bind has its import looked
up. -/
def recordFixup (c : Container) (importsFormat : DyldChainedImportFormatVariants)
    (importsOffset symbolsOffset : Nat) {n : Nat} (record : Nat × FixupRecord n) :
    Outcome Fixup := do
  let (_, fixup) ← c.recordParse record.1 importsFormat importsOffset symbolsOffset record.2 0
  .ok fixup

variable {c : Container} {n importsOffset symbolsOffset : Nat}
  {importsFormat : DyldChainedImportFormatVariants}

theorem recordParse_eq (offset next : Nat) (r : FixupRecord n) :
    c.recordParse offset importsFormat importsOffset symbolsOffset r next
      = (c.recordFixup importsFormat importsOffset symbolsOffset (offset, r)
          >>= fun fixup => .ok (next, fixup)) := by
  have hbind : ∀ (index addend : Nat) (isAuth : Bool),
      c.bindParse offset importsFormat importsOffset symbolsOffset index next addend isAuth
        = ((c.bindParse offset importsFormat importsOffset symbolsOffset index 0 addend isAuth
            >>= fun found => .ok found.2) >>= fun fixup => .ok (next, fixup)) := by
    intro index addend isAuth
    rw [bindParse, bindParse]
    cases c.importSymbolParse index importsFormat importsOffset symbolsOffset <;> rfl
  cases r with
  | rebase target high8 => rfl
  | authRebase target diversity addrDiv key => rfl
  | bind index addend => exact hbind index addend false
  | authBind index diversity addrDiv key => exact hbind index 0 true

/-- An import of the packed table is read back. -/
theorem importSymbolParse_of_at {i imports symbols : Nat} {entry : FixupImport}
    (hwf : entry.WellFormed) (hat : ImportAt c imports symbols i entry) :
    c.importSymbolParse i .dyldChainedImport imports symbols
      = .ok (entry.libOrdinal, entry.name) := by
  obtain ⟨nameOffset, hoff, hword, hname⟩ := hat
  have hweak : entry.weakImport.toNat ≤ 1 := Bool.toNat_le _
  have hord := hwf.libOrdinal_lt
  obtain ⟨w, hw⟩ : ∃ w, w = entry.libOrdinal + entry.weakImport.toNat * 2 ^ 8
    + nameOffset * 2 ^ 9 := ⟨_, rfl⟩
  rw [← hw] at hword
  have hlt : w < 2 ^ 32 := by omega
  obtain ⟨f1, f2⟩ := DyldChainedImport.fields hlt
  have hlib : w % 2 ^ 8 = entry.libOrdinal := by omega
  have hnameOffset : w / 2 ^ 9 = nameOffset := by omega
  simp only [importSymbolParse, u32_of_at hword hlt, Outcome.okOr_some, Outcome.ok_bind, f1, f2,
    hlib, hnameOffset, deserializeStringAtOffset_of_at hname hwf.name_nul,
    ArrayString.tryFromStr_str, Outcome.orPanic_some]

/-- **A record is parsed into what it asks for**, if every import is found under its index. -/
theorem recordFixup_of_imports {imports : List FixupImport}
    (himp : ∀ i : Fin imports.length,
      c.importSymbolParse i importsFormat importsOffset symbolsOffset
        = .ok ((imports.get i).libOrdinal, (imports.get i).name))
    (record : Nat × FixupRecord imports.length) :
    c.recordFixup importsFormat importsOffset symbolsOffset record
      = .ok { offset := record.1, kind := ChainedFixups.recordKind imports record.2 } := by
  have hbind : ∀ (i : Fin imports.length) (addend : Nat) (isAuth : Bool),
      c.bindParse record.1 importsFormat importsOffset symbolsOffset i 0 addend isAuth
        = .ok (0, {
            offset := record.1
            kind := .bind (imports.get i).name (imports.get i).libOrdinal isAuth addend }) := by
    intro i addend isAuth
    rw [bindParse, himp i, Outcome.ok_bind]
  obtain ⟨offset, r⟩ := record
  cases r with
  | rebase target high8 => rfl
  | authRebase target diversity addrDiv key => rfl
  | bind index addend => exact congrArg (· >>= _) (hbind index addend false)
  | authBind index diversity addrDiv key => exact congrArg (· >>= _) (hbind index 0 true)

end ParseOne

/-! ## Chains -/

theorem pageStart_lt {n pageSize : Nat} {format : ChainFormat}
    {page : List (Nat × FixupRecord n)} (hwf : PageWellFormed format pageSize page) :
    pageStart page < pageSize := by
  cases page with
  | nil => exact absurd rfl hwf.nonempty
  | cons record rest => exact hwf.in_page record List.mem_cons_self

/-- The first word of a chain is inside the image. -/
theorem chainAt_le {c : Container} {n base : Nat} {format : ChainFormat} :
    ∀ {page : List (Nat × FixupRecord n)}, page ≠ [] → ChainAt c format base page →
      base + pageStart page + 8 ≤ c.data.length
  | [], hne, _ => absurd rfl hne
  | [_], _, hat => at_encode_le (by decide) hat
  | _ :: _ :: _, _, hat => at_encode_le (by decide) hat.1

section Chain

variable {c : Container} {n : Nat} {format : ChainFormat}
  (importsFormat : DyldChainedImportFormatVariants) (importsOffset symbolsOffset : Nat)

theorem chainStep_of_at {r : FixupRecord n} {next off : Nat}
    (hat : At c.data off (encode c.endian 8 (r.word format next))) (hfit : r.Fits format)
    (hnext : next < 2 ^ format.nextBits) :
    c.chainStep importsFormat importsOffset symbolsOffset format.variant off
      = (c.recordFixup importsFormat importsOffset symbolsOffset (off, r)
          >>= fun fixup => .ok (next * format.stride, fixup)) := by
  rw [chainStep, u64_of_at hat (word_lt hfit hnext), Outcome.okOr_some, Outcome.ok_bind,
    fixupParseOne_word off hfit hnext, recordParse_eq]

/-- A chain is read from its first word to its last. -/
theorem chainLoop_of_at {base : Nat} :
    ∀ {page : List (Nat × FixupRecord n)} (fuel : Nat), page ≠ [] →
      (∀ record ∈ page, record.2.Fits format) → page.IsChain format.Follows →
      ChainAt c format base page → c.data.length < base + pageStart page + fuel →
      (c.chainLoop importsFormat importsOffset symbolsOffset format.variant fuel
          (base + pageStart page)).2
        = Outcome.each (c.recordFixup importsFormat importsOffset symbolsOffset)
            (page.map fun (off, r) => (base + off, r))
  | [], _, hne, _, _, _, _ => absurd rfl hne
  | [(off, r)], fuel, _, hfits, _, hat, hfuel => by
      have hat : At c.data (base + off) (encode c.endian 8 (r.word format 0)) := hat
      have hle := at_encode_le (by decide) hat
      obtain ⟨k, rfl⟩ : ∃ k, fuel = k + 1 := ⟨fuel - 1, by
        have : c.data.length < base + off + fuel := hfuel
        omega⟩
      have hstep := chainStep_of_at importsFormat importsOffset symbolsOffset hat
        (hfits _ List.mem_cons_self) (Nat.two_pow_pos _)
      rw [chainLoop, show pageStart [(off, r)] = off from rfl, hstep, List.map_singleton,
        Outcome.each, Outcome.each]
      cases c.recordFixup importsFormat importsOffset symbolsOffset (base + off, r) with
      | ok fixup => simp only [Outcome.ok_bind, Nat.zero_mul, if_pos]
      | err msg => rfl
      | panic msg => rfl
      | outOfFuel => rfl
  | (off, r) :: (off', r') :: rest, fuel, _, hfits, hchain, hat, hfuel => by
      obtain ⟨⟨hgap, hdvd, hnext⟩, hchain⟩ := List.isChain_cons_cons.mp hchain
      obtain ⟨hat, hrest⟩ := hat
      have hle := at_encode_le (by decide) hat
      obtain ⟨k, rfl⟩ : ∃ k, fuel = k + 1 := ⟨fuel - 1, by
        have : c.data.length < base + off + fuel := hfuel
        omega⟩
      have hstep := chainStep_of_at importsFormat importsOffset symbolsOffset hat
        (hfits _ List.mem_cons_self) hnext
      -- the stored distance, in strides, is that to the next record
      have hdist : (off' - off) / format.stride * format.stride = off' - off :=
        Nat.div_mul_cancel hdvd
      have hgap : off + 8 ≤ off' := hgap
      have hto : base + off + (off' - off) = base + off' := by omega
      -- the next record is at least 8 bytes on, so one turn of fuel less is enough
      have ih := chainLoop_of_at k (List.cons_ne_nil (off', r') rest)
        (fun record hm => hfits record (List.mem_cons_of_mem _ hm)) hchain hrest (by
          have : c.data.length < base + off + (k + 1) := hfuel
          show c.data.length < base + off' + k
          omega)
      rw [show pageStart ((off', r') :: rest) = off' from rfl] at ih
      rw [chainLoop, show pageStart ((off, r) :: (off', r') :: rest) = off from rfl, hstep,
        List.map_cons, Outcome.each]
      cases c.recordFixup importsFormat importsOffset symbolsOffset (base + off, r) with
      | ok fixup =>
          simp only [Outcome.ok_bind, hdist, hto]
          rw [if_neg (by omega), ← ih]
      | err msg => rfl
      | panic msg => rfl
      | outOfFuel => rfl

/-! ## Pages and segments -/

theorem dyldChainedStartsInSegment_fits {head : DyldChainedStartsInSegment}
    (hfit : FieldsFit head.fields) : head.pageSize < 2 ^ 16 ∧ head.pageCount < 2 ^ 16 := by
  obtain ⟨-, hsize, -, -, -, hcount, -⟩ := hfit
  exact ⟨hsize, hcount⟩

/-- One turn of the page loop reads the chain of its page. -/
theorem pageParse_of_at (hlen : c.data.length < 2 ^ 32) {s : SegmentFixups n}
    {head : DyldChainedStartsInSegment} {off i : Nat} (hseg : SegmentAt c s off head)
    {page : List (Nat × FixupRecord n)} (hwf : PageWellFormed s.format s.pageSize page)
    (hstart : At c.data (off + pageStartsOffset + i * 2) (encode c.endian 2 (pageStart page)))
    (hchain : ChainAt c s.format (s.segmentOffset + i * s.pageSize) page) :
    (c.pageParse importsFormat importsOffset symbolsOffset head off i).2
      = Outcome.each (c.recordFixup importsFormat importsOffset symbolsOffset)
          (page.map fun (off, r) => (s.segmentOffset + i * s.pageSize + off, r)) := by
  have hhead := pageStart_lt hwf
  have hpage := (dyldChainedStartsInSegment_fits hseg.fits).1
  rw [hseg.pageSize_eq] at hpage
  have hinside := chainAt_le hwf.nonempty hchain
  have hin := at_encode_le (by decide) hstart
  have hadd1 : Outcome.add 32 off pageStartsOffset = .ok (off + pageStartsOffset) :=
    Outcome.add_of_lt (by omega)
  have hread := u16_of_at hstart (by omega)
  have hadd2 : Outcome.add 64 s.segmentOffset (i * s.pageSize)
      = .ok (s.segmentOffset + i * s.pageSize) := Outcome.add_of_lt (by omega)
  have hadd3 : Outcome.add 64 (s.segmentOffset + i * s.pageSize) (pageStart page)
      = .ok (s.segmentOffset + i * s.pageSize + pageStart page) := Outcome.add_of_lt (by omega)
  rw [← chainLoop_of_at importsFormat importsOffset symbolsOffset (c.data.length + 1)
    hwf.nonempty hwf.fits hwf.chain hchain (by omega)]
  simp only [pageParse, hadd1, hread, hseg.segmentOffset_eq, hseg.pageSize_eq, hseg.format_eq,
    hadd2, hadd3, Outcome.okOr_some, Outcome.ok_bind]

theorem pagesParse_of_at (hlen : c.data.length < 2 ^ 32) {s : SegmentFixups n}
    {head : DyldChainedStartsInSegment} {off : Nat} (hseg : SegmentAt c s off head) :
    ∀ {pages : List (List (Nat × FixupRecord n))} {i : Nat},
      (∀ page ∈ pages, PageWellFormed s.format s.pageSize page) →
      PagesAt c s (off + pageStartsOffset) pages i →
      c.pagesParse importsFormat importsOffset symbolsOffset head off pages.length i
        = Outcome.each (c.recordFixup importsFormat importsOffset symbolsOffset)
            ((pages.zipIdx i).flatMap fun (page, i) =>
              page.map fun (off, r) => (s.segmentOffset + i * s.pageSize + off, r))
  | [], _, _, _ => rfl
  | page :: pages, i, hwf, ⟨hstart, hchain, hrest⟩ => by
      have hpage := pageParse_of_at importsFormat importsOffset symbolsOffset hlen hseg
        (hwf page List.mem_cons_self) hstart hchain
      have ih := pagesParse_of_at hlen hseg
        (fun page hm => hwf page (List.mem_cons_of_mem _ hm)) hrest
      rw [List.length_cons, pagesParse, hpage, ih, List.zipIdx_cons, List.flatMap_cons,
        Outcome.each_append]

theorem segmentsParse_of_at (hlen : c.data.length < 2 ^ 32) {starts : Nat} :
    ∀ {segments : List (Option (SegmentFixups n))} {i : Nat},
      (∀ s, some s ∈ segments → ∀ page ∈ s.pages, PageWellFormed s.format s.pageSize page) →
      SegmentsAt c starts segments i →
      c.segmentsParse importsFormat importsOffset symbolsOffset starts segments.length i
        = Outcome.each (c.recordFixup importsFormat importsOffset symbolsOffset)
            (recordsOf segments)
  | [], _, _, _ => rfl
  | segment :: segments, i, hwf, ⟨⟨segInfoOffset, hlt, hat, hseg⟩, hrest⟩ => by
      have ih := segmentsParse_of_at hlen
        (fun s hm => hwf s (List.mem_cons_of_mem _ hm)) hrest
      rw [List.length_cons, segmentsParse, u32_of_at hat hlt, Outcome.okOr_some, Outcome.ok_bind,
        recordsOf, List.flatMap_cons]
      cases segment with
      | none =>
          have hzero : segInfoOffset = 0 := hseg
          rw [if_pos hzero, ih]
          rfl
      | some s =>
          obtain ⟨hne, head, hseg⟩ := hseg
          have hadd : Outcome.add 32 starts segInfoOffset = .ok (starts + segInfoOffset) :=
            Outcome.add_of_lt (by have := hseg.room; omega)
          have hhead := dyldChainedStartsInSegment_of_at hseg.fits hseg.at_ hseg.room
          have hpages := pagesParse_of_at importsFormat importsOffset symbolsOffset hlen hseg
            (hwf s List.mem_cons_self) hseg.pages
          rw [if_neg hne, hadd, Outcome.ok_bind, hhead, Outcome.okOr_some, Outcome.ok_bind,
            hseg.pageCount_eq, hpages, ih, Option.map_some, Option.getD_some,
            Outcome.each_append]
          rfl

end Chain

/-! ## The payload -/

section Payload

variable {c : Container}

/-- The loop over the load commands stops at the first `LC_DYLD_CHAINED_FIXUPS`. -/
theorem lcIterate_leadsTo (hlen : c.data.length < 2 ^ 32) {target : Nat} {lc : LoadCommand}
    (hlc : c.loadCommand target = some lc) (hcmd : lc.cmd = .lcDyldChainedFixups) :
    ∀ {off k n : Nat}, LeadsTo c off k target → k < n →
      lcIterate c chainedFixupsFindBody n off none = .ok (some target)
  | off, 0, n + 1, .here, _ => by
      obtain ⟨hoff, hsize⟩ := loadCommand_bound hlc
      have hadd : Outcome.add 64 off lc.cmdsize = .ok (off + lc.cmdsize) :=
        Outcome.add_of_lt (by omega)
      rw [lcIterate, hlc, Outcome.okOr_some, Outcome.ok_bind, hadd, Outcome.ok_bind,
        chainedFixupsFindBody, if_pos hcmd]
      rfl
  | off, k + 1, n + 1, @LeadsTo.skip _ _ _ _ before hat hfit hne hrest, hk => by
      have hbefore := loadCommand_of_at hfit hat
      obtain ⟨hoff, hsize⟩ := loadCommand_bound hbefore
      have hadd : Outcome.add 64 off before.cmdsize = .ok (off + before.cmdsize) :=
        Outcome.add_of_lt (by omega)
      rw [lcIterate, hbefore, Outcome.okOr_some, Outcome.ok_bind, hadd, Outcome.ok_bind,
        chainedFixupsFindBody, if_neg hne]
      exact lcIterate_leadsTo hlen hlc hcmd hrest (by omega)

theorem fixupTablesFind_of_at {l : FixupsLayout} {n : Nat}
    {segments : List (Option (SegmentFixups n))} (h : PayloadAt c l segments) :
    c.fixupTablesFind = .ok (some
      { startsOffset := l.command.dataoff + l.payload.startsOffset
        segCount := segments.length
        importsFormat := l.payload.importsFormat
        importsOffset := l.command.dataoff + l.payload.importsOffset
        symbolsOffset := l.command.dataoff + l.payload.symbolsOffset }) := by
  have hlen := h.image_lt
  obtain ⟨hlc, hcmd⟩ := linkeditDataCommand_of_at h.command_fits h.command_at
  have hfind : lcForEach c chainedFixupsFindBody none = .ok (some l.commandOffset) := by
    rw [lcForEach, machHeader64_of_at h.header_fits h.header_at, Outcome.okOr_some,
      Outcome.ok_bind]
    exact lcIterate_leadsTo hlen hlc rfl h.leads_to h.before_lt
  have hheader : c.chainedFixupsHeaderAndOffsetFind = .ok (some (l.command.dataoff, l.payload)) := by
    rw [chainedFixupsHeaderAndOffsetFind, hfind, Outcome.ok_bind]
    simp only [hcmd, dyldChainedFixupsHeader_of_at h.payload_fits h.payload_at,
      Outcome.okOr_some, Outcome.ok_bind]
  have hstarts := at_encode_le (by decide) h.segCount_at
  have himports := h.imports_le
  have hsymbols := h.symbols_le
  have hadd1 : Outcome.add 32 l.command.dataoff l.payload.startsOffset
      = .ok (l.command.dataoff + l.payload.startsOffset) := Outcome.add_of_lt (by omega)
  have hadd2 : Outcome.add 32 l.command.dataoff l.payload.importsOffset
      = .ok (l.command.dataoff + l.payload.importsOffset) := Outcome.add_of_lt (by omega)
  have hadd3 : Outcome.add 32 l.command.dataoff l.payload.symbolsOffset
      = .ok (l.command.dataoff + l.payload.symbolsOffset) := Outcome.add_of_lt (by omega)
  rw [fixupTablesFind, hheader, Outcome.ok_bind]
  simp only [hadd1, hadd2, hadd3, u32_of_at h.segCount_at h.segCount_lt, Outcome.okOr_some,
    Outcome.ok_bind]

/-- The parser goes through the records in order, and stops at one whose import it cannot look
up. -/
theorem chainedFixupsParseAll_of_at {l : FixupsLayout} {n : Nat}
    {segments : List (Option (SegmentFixups n))} (hat : PayloadAt c l segments)
    (hpages : ∀ s, some s ∈ segments → ∀ page ∈ s.pages, PageWellFormed s.format s.pageSize page) :
    c.chainedFixupsParseAll
      = Outcome.each (c.recordFixup l.payload.importsFormat
          (l.command.dataoff + l.payload.importsOffset)
          (l.command.dataoff + l.payload.symbolsOffset)) (recordsOf segments) := by
  rw [chainedFixupsParseAll, fixupTablesFind_of_at hat, Outcome.ok_bind]
  exact segmentsParse_of_at _ _ _ hat.image_lt hpages hat.segments_at

end Payload

end Container

/-- **Parsing returns exactly the fixups that were written**, each once and in order. -/
theorem chainedFixupsParseAll_roundTrip {c : Container} {l : FixupsLayout} {fx : ChainedFixups}
    (hwf : fx.WellFormed) (hat : ChainedFixupsAt c l fx) :
    c.chainedFixupsParseAll = .ok fx.fixups := by
  have himp : ∀ i : Fin fx.imports.length, c.importSymbolParse i .dyldChainedImport
      (l.command.dataoff + l.payload.importsOffset) (l.command.dataoff + l.payload.symbolsOffset)
        = .ok ((fx.imports.get i).libOrdinal, (fx.imports.get i).name) := fun i =>
    Container.importSymbolParse_of_at (hwf.imports _ (List.get_mem _ _)) (hat.imports_at i)
  rw [Container.chainedFixupsParseAll_of_at hat.payload hwf.pages, hat.importsFormat_eq,
    ChainedFixups.fixups_eq]
  exact Outcome.each_of_ok fun record _ => Container.recordFixup_of_imports himp record

/-! ## A small image

Two segments, the first without fixups. The page of the second starts with a rebase,
and `_f` is bound eight bytes later. -/

def sampleName : ArrayString symbolNameLen := ⟨⟨ascii "_f", by decide +kernel⟩, by decide⟩

def sampleRecords : List (Nat × FixupRecord 1) := [(0, .rebase 0x40 0x12), (8, .bind 0 5)]

def sampleFixups : ChainedFixups where
  imports := [⟨sampleName, 1, false⟩]
  segments := [none, some ⟨.ptr64Offset, 0x1000, 120, [sampleRecords]⟩]

def sampleLayout : FixupsLayout where
  header := ⟨.mhMagic64, 0, 0, .mhExecute, 1, 16, 0, 0⟩
  before := 0
  commandOffset := 32
  cmdsize := 16
  command := ⟨48, 88⟩
  payload := ⟨0, 28, 64, 68, 1, .dyldChainedImport, 0⟩

def sampleSegmentHead : DyldChainedStartsInSegment :=
  ⟨24, 0x1000, .dyldChainedPtr64Offset, 120, 0, 1⟩

/-- The image, with `pageStart` as the only entry of its only `page_start` array. -/
def sampleImage (pageStart : Nat) : Container where
  data := encodeFields .little (sampleLayout.header.fields
    ++ sampleLayout.command.fields ⟨.lcDyldChainedFixups, 16⟩
    ++ sampleLayout.payload.fields
    ++ [(4, 2), (4, 0), (4, 12)]
    ++ sampleSegmentHead.fields ++ [(2, pageStart)]
    ++ [(4, 1 + 1 * 2 ^ 9)]
    ++ [(1, 0), (1, 0x5f), (1, 0x66), (1, 0)]
    ++ [(8, 0x40 + 0x12 * 2 ^ 36 + 2 * 2 ^ 51), (8, 5 * 2 ^ 24 + 2 ^ 63)])
  endian := .little

theorem sampleFixups_wellFormed : sampleFixups.WellFormed where
  imports := by
    intro i hi
    rcases List.mem_singleton.mp hi with rfl
    exact ⟨by decide, by decide⟩
  pages := by
    intro s hs page hpage
    rcases List.mem_cons.mp hs with h | hs
    · exact absurd h (by simp)
    · have hs := Option.some.inj (List.mem_singleton.mp hs)
      subst hs
      have hpage : page = sampleRecords := List.mem_singleton.mp hpage
      subst hpage
      refine ⟨List.cons_ne_nil _ _, ?_, ?_, ?_⟩
      · intro record hr
        rcases List.mem_cons.mp hr with rfl | hr
        · exact (by decide : 0 < 0x1000)
        · rcases List.mem_singleton.mp hr with rfl
          exact (by decide : 8 < 0x1000)
      · intro record hr
        rcases List.mem_cons.mp hr with rfl | hr
        · exact ⟨by decide, by decide⟩
        · rcases List.mem_singleton.mp hr with rfl
          exact ⟨by decide, by decide⟩
      · exact List.isChain_cons_cons.mpr ⟨⟨by decide, by decide, by decide⟩, .singleton _⟩

theorem sampleSegment_at :
    SegmentAt (n := 1) (sampleImage 0) ⟨.ptr64Offset, 0x1000, 120, [sampleRecords]⟩ 88
      sampleSegmentHead where
  pageSize_eq := rfl
  format_eq := rfl
  segmentOffset_eq := rfl
  pageCount_eq := rfl
  fits := ⟨by decide, by decide, by decide, by decide, by decide, by decide, trivial⟩
  at_ := by decide +kernel
  room := by decide +kernel
  pages := by
    have hlast : At (sampleImage 0).data 128
        (encode .little 8 (FixupRecord.word .ptr64Offset (.bind 0 5 : FixupRecord 1) 0)) := by
      decide +kernel
    exact ⟨by decide +kernel, ⟨by decide +kernel, hlast⟩, trivial⟩

theorem sampleImport_at : ImportAt (sampleImage 0) 112 116 0 ⟨sampleName, 1, false⟩ :=
  ⟨1, by decide, by decide +kernel, by decide +kernel⟩

theorem sampleFixups_at : ChainedFixupsAt (sampleImage 0) sampleLayout sampleFixups where
  image_lt := by decide +kernel
  header_at := by decide +kernel
  header_fits := ⟨by decide, by decide, by decide, by decide, by decide, by decide, by decide,
    by decide, trivial⟩
  before_lt := by decide
  leads_to := .here
  command_at := by decide +kernel
  command_fits := ⟨by decide, by decide, by decide, by decide, trivial⟩
  payload_at := by decide +kernel
  payload_fits := ⟨by decide, by decide, by decide, by decide, by decide, by decide, by decide,
    trivial⟩
  importsFormat_eq := rfl
  segCount_at := by decide +kernel
  segCount_lt := by decide
  imports_le := by decide +kernel
  symbols_le := by decide +kernel
  imports_at := by
    intro i
    match i with
    | ⟨0, _⟩ => exact sampleImport_at
    | ⟨n + 1, h⟩ => exact absurd h (by simp [sampleFixups])
  segments_at := ⟨⟨0, by decide, by decide +kernel, rfl⟩,
    ⟨12, by decide, by decide +kernel, by decide, sampleSegmentHead, sampleSegment_at⟩, trivial⟩

theorem sampleFixups_roundTrip : (sampleImage 0).chainedFixupsParseAll
    = .ok [⟨120, .rebase 0x1200000000000040⟩, ⟨128, .bind sampleName 1 false 5⟩] :=
  chainedFixupsParseAll_roundTrip sampleFixups_wellFormed sampleFixups_at

end Dynld
