import Dynld.Proof.Dependencies
import Dynld.Proof.FixupValues
import Dynld.Proof.Ordinals

/-!
# Weak imports

An import can be weak: the program is prepared for its absence and wants a null pointer
then. The flag is in the table of imports, and the parser drops it; the kind of the
load command that names the library is dropped as well. So a weak import is treated
like any other. If its library has no file the loader fails before it maps anything,
and if its library does not export it the loader fails when it comes to the fixup.
-/

namespace Dynld

/-! ## What is absent -/

/-- The fixup was parsed from the chain word of a bind, and its import is weak. -/
def IsWeakBind (c : Container) (fixup : Fixup) : Prop :=
  ∃ (importFormat : ImportFormat) (importsOffset symbolsOffset : Nat) (t : ImportTable)
    (format : ChainFormat) (r : FixupRecord t.imports.length) (next distance : Nat)
    (index : Fin t.imports.length) (a : Int),
    ImportTableAt c importFormat importsOffset symbolsOffset t ∧ t.WellFormed ∧
    r.Fits format ∧ next < 2 ^ format.nextBits ∧ r.import? format = some (index, a) ∧
    (t.imports.get index).weakImport = true ∧
    c.fixupParseOne (r.word format next) fixup.offset importFormat.variant importsOffset
      symbolsOffset format.variant = .ok (distance, fixup)

/-- The library of the ordinal is named by an `LC_LOAD_WEAK_DYLIB`, and there is no such file. -/
def LibraryMissing (host : Host) (cache : DyldSharedCache) (execDir : List UInt8) (c : Container)
    (rpath : Option Rpath) (ordinal : Nat) : Prop :=
  ∃ commands offset name path, c.loadCommands = some commands ∧
    (commands.filter fun command => isOrdinalCommand command.1)[ordinal - 1]?
      = some (.lcLoadWeakDylib, offset) ∧
    c.installNameAt offset = .ok name ∧ cache.isLibraryCached name.bytes = false ∧
    userDylibDiskPathResolve name.bytes rpath execDir = .ok path ∧ host.file path = none

/-- The library does not export the symbol: looking it up in this memory finds nothing. -/
def Library.Lacks (cache : DyldSharedCache) (m : Mem) (symbolName : ArrayString symbolNameLen) :
    Library → Prop
  | .system libraryName => cache.symbolResolve libraryName.bytes symbolName.asBytes = .ok none
  | .user container => dylibSymbolResolve (container.view m) symbolName.asBytes = .ok none

/-- The loader has come to a fixup: the image is parsed, its libraries are loaded, its segments
are mapped, and the fixups before this one are applied. -/
structure FixupTurn (host : Host) (cache : DyldSharedCache) (execDir : List UInt8) (fuel : Nat)
    (image : MappedContainer) (dylibDir : Option (List UInt8)) (w : World) (fixup : Fixup) where
  parsedImage : ParsedImage
  dependencies : ArrayVec (Str × Bool) 32
  dylibImages : List Library
  vm : Nat
  vmSize : Nat
  loaded : World
  mapped : World
  before : List Fixup
  after : List Fixup
  /-- The memory with the fixups before this one applied. -/
  mem : Mem
  parse_eq : (image.view w.mem).machoParser = .ok parsedImage
  collect_eq : dependenciesCollect parsedImage cache = .ok dependencies
  load_eq : userDylibsLoadRecursively host (machoLoader host cache execDir fuel) execDir
    parsedImage.rpath dependencies.items w = (.ok dylibImages, loaded)
  map_eq : machoSegmentsMapToVm host dylibDir image parsedImage.segments.items loaded
    = (.ok (vm, vmSize), mapped)
  fixups_eq : parsedImage.fixups = before ++ fixup :: after
  before_eq : fixupAllChainedFixups vm (imageBase dylibDir) parsedImage.symbols dylibImages
    (some fun _ => cache) false before mapped.mem = (.ok (), mem)

/-- Whenever the loader comes to the bind, the library of its ordinal does not export its symbol. -/
structure SymbolMissing (host : Host) (cache : DyldSharedCache) (execDir : List UInt8)
    (image : MappedContainer) (dylibDir : Option (List UInt8)) (w : World) (fixup : Fixup)
    (symbolName : ArrayString symbolNameLen) (ordinal : Nat) : Prop where
  ne_self : ordinal ≠ bindSpecialDylibSelf
  ne_mainExecutable : ordinal ≠ bindSpecialDylibMainExecutable
  ne_flatLookup : ordinal ≠ bindSpecialDylibFlatLookup
  ne_weakLookup : ordinal ≠ bindSpecialDylibWeakLookup
  lacks : ∀ fuel (turn : FixupTurn host cache execDir fuel image dylibDir w fixup),
    ∃ library, turn.dylibImages[ordinal - 1]? = some library ∧
      library.Lacks cache turn.mem symbolName

variable {host : Host} {cache : DyldSharedCache} {execDir : List UInt8} {image : MappedContainer}
  {dylibDir : Option (List UInt8)} {w : World} {fixup : Fixup}

/-! ## A missing library -/

theorem installNames_mem {c : Container} {p : LoadCommandVariants → Bool} {offset : Nat}
    {cmd : LoadCommandVariants} {name : Str} (hp : p cmd = true)
    (hname : c.installNameAt offset = .ok name) :
    ∀ {commands : List (LoadCommandVariants × Nat)} {names : List Str},
      c.installNames p commands = .ok names → (cmd, offset) ∈ commands → name ∈ names := by
  intro commands
  induction commands with
  | nil =>
    intro _ _ hmem
    exact absurd hmem List.not_mem_nil
  | cons head rest ih =>
    intro names h hmem
    obtain ⟨cmd', offset'⟩ := head
    unfold Container.installNames at h
    split at h
    · obtain ⟨name', hname', h⟩ := Outcome.bind_eq_ok.mp h
      obtain ⟨names', hnames', h⟩ := Outcome.bind_eq_ok.mp h
      obtain rfl := Outcome.ok.inj h
      rcases List.mem_cons.mp hmem with he | hmem
      · obtain ⟨rfl, rfl⟩ := Prod.mk.inj he
        obtain rfl : name = name' := Outcome.ok.inj (hname.symm.trans hname')
        exact List.mem_cons_self
      · exact List.mem_cons_of_mem _ (ih hnames' hmem)
    · rename_i hskip
      rcases List.mem_cons.mp hmem with he | hmem
      · obtain ⟨rfl, rfl⟩ := Prod.mk.inj he
        exact absurd hp hskip
      · exact ih h hmem

/-- No image is loaded without the files of all its dylibs, weak or not. -/
theorem LoaderRun.not_libraryMissing {fuel ordinal : Nat} {w' : World} {r : Nat × Nat}
    (run : LoaderRun host cache execDir fuel image dylibDir w w' r) :
    ¬ LibraryMissing host cache execDir (image.view w.mem) run.parsedImage.rpath ordinal := by
  rintro ⟨commands, offset, name, path, hcommands, hcommand, hname, hcached, hresolve, hfile⟩
  obtain ⟨commands', hcommands', -, hnames⟩ := Container.machoParser_tables run.parse_eq
  obtain rfl : commands = commands' := Option.some.inj (hcommands.symm.trans hcommands')
  have hcommand : (.lcLoadWeakDylib, offset) ∈ commands :=
    (List.mem_filter.mp (List.mem_of_getElem? hcommand)).1
  have hmem : name ∈ run.parsedImage.libraries.items.map (·.1) :=
    installNames_mem rfl hname hnames hcommand
  have hitem : (name, false) ∈ run.dependencies.items := by
    rw [dependenciesCollect_eq_ok run.collect_eq]
    exact List.mem_map.mpr ⟨name, hmem, by rw [hcached]⟩
  obtain ⟨library, w₁, w₂, hturn⟩ := (Exec.each_eq_ok.mp run.load_eq).exists_of_mem hitem
  have hpath : dependencyPath execDir run.parsedImage.rpath (name, false) = some path :=
    dependencyPath_eq_some.mpr ⟨rfl, hresolve⟩
  obtain ⟨container, w₃, r, hmmap, -⟩ := userDylibLoad_eq_ok hpath hturn
  obtain ⟨bytes, -, hbytes, -⟩ := diskPathMmap_eq_ok hmmap
  rw [hfile] at hbytes
  exact absurd hbytes (by simp)

/-! ## A missing symbol -/

/-- The error for a symbol that is not found. -/
def Library.lacksMessage : Library → String
  | .system _ => "could not find a symbol in the dyld shared cache"
  | .user _ => "failed to find symbol in user dylib"

theorem regularWord_of_lacks {m : Mem} {symbolName : ArrayString symbolNameLen} {library : Library}
    (h : library.Lacks cache m symbolName) :
    regularWord (some fun _ => cache) symbolName m library = .err library.lacksMessage := by
  cases library with
  | system libraryName =>
      have h : cache.symbolResolve libraryName.bytes symbolName.asBytes = .ok none := h
      simp only [regularWord, h, Outcome.ok_bind, Outcome.okOr_none, Library.lacksMessage]
  | user container =>
      have h : dylibSymbolResolve (container.view m) symbolName.asBytes = .ok none := h
      simp only [regularWord, h, Outcome.ok_bind, Outcome.okOr_none, Outcome.err_bind,
        Library.lacksMessage]

/-- The loader comes to every fixup of an image that it loads. -/
theorem LoaderRun.exists_fixupTurn {fuel : Nat} {w' : World} {r : Nat × Nat}
    (run : LoaderRun host cache execDir fuel image dylibDir w w' r)
    (hmem : fixup ∈ run.parsedImage.fixups) :
    ∃ turn : FixupTurn host cache execDir fuel image dylibDir w fixup, ∃ v,
      fixupWord turn.vm (imageBase dylibDir) turn.parsedImage.symbols turn.dylibImages
        (some fun _ => cache) turn.mem fixup = .ok v := by
  obtain ⟨before, after, hsplit⟩ := List.append_of_mem hmem
  have hrun := imageFixupsApply_run run.fixup_eq
  rw [hsplit, fixupAllChainedFixups_eq_run, filter_keepAll] at hrun
  obtain ⟨mid, hbefore, hrest⟩ := Patch.run_append.mp hrun
  obtain ⟨_, _, hone, -⟩ := Exec.bind_eq_ok.mp hrest
  obtain ⟨v, hv, -⟩ := Patch.one_eq_ok.mp hone
  refine ⟨⟨run.parsedImage, run.dependencies, run.dylibImages, run.vm, run.vmSize, run.loaded,
    run.mapped, before, after, mid, run.parse_eq, run.collect_eq, run.load_eq, run.map_eq, hsplit,
    ?_⟩, v, hv⟩
  rw [fixupAllChainedFixups_eq_run, filter_keepAll]
  exact hbefore

/-- The word of a bind to a symbol that is missing. -/
theorem SymbolMissing.fixupWord_err {symbolName : ArrayString symbolNameLen} {ordinal : Nat}
    {isAuth : Bool} {addend : Int}
    (h : SymbolMissing host cache execDir image dylibDir w fixup symbolName ordinal)
    (hkind : fixup.kind = .bind symbolName ordinal isAuth addend) {fuel : Nat}
    (turn : FixupTurn host cache execDir fuel image dylibDir w fixup) :
    ∃ library : Library, turn.dylibImages[ordinal - 1]? = some library ∧
      fixupWord turn.vm (imageBase dylibDir) turn.parsedImage.symbols turn.dylibImages
        (some fun _ => cache) turn.mem fixup = .err library.lacksMessage := by
  obtain ⟨library, hlibrary, hlacks⟩ := h.lacks fuel turn
  refine ⟨library, hlibrary, ?_⟩
  unfold fixupWord
  rw [hkind]
  dsimp only
  rw [if_neg h.ne_self, if_neg h.ne_mainExecutable, if_neg h.ne_flatLookup, if_neg h.ne_weakLookup,
    hlibrary, Outcome.orPanic_some, Outcome.ok_bind]
  exact regularWord_of_lacks hlacks

/-- A fixup whose word cannot be computed ends the loading of the image. -/
theorem FixupTurn.machoLoader_err {fuel : Nat}
    (turn : FixupTurn host cache execDir fuel image dylibDir w fixup) {msg : String}
    (hword : fixupWord turn.vm (imageBase dylibDir) turn.parsedImage.symbols turn.dylibImages
      (some fun _ => cache) turn.mem fixup = .err msg) :
    (machoLoader host cache execDir (fuel + 1) image dylibDir w).1 = .err msg := by
  have hbefore := turn.before_eq
  rw [fixupAllChainedFixups_eq_run, filter_keepAll] at hbefore
  have hrun : (fixupAllChainedFixups turn.vm (imageBase dylibDir) turn.parsedImage.symbols
      turn.dylibImages (some fun _ => cache) false turn.parsedImage.fixups turn.mapped.mem).1
        = .err msg := by
    rw [turn.fixups_eq, fixupAllChainedFixups_eq_run, filter_keepAll]
    exact Patch.run_of_err hbefore hword
  have hfixups : (imageFixupsApply dylibDir turn.vm turn.parsedImage turn.dylibImages cache
      turn.mapped).1 = .err msg := Exec.bind_fst_of_err hrun
  -- every step before the fixups returns
  rw [machoLoader_of_collect turn.parse_eq turn.collect_eq]
  refine (congrArg Prod.fst (Exec.bind_of_ok turn.load_eq)).trans ?_
  refine (congrArg Prod.fst (Exec.bind_of_ok turn.map_eq)).trans ?_
  exact Exec.bind_fst_of_err hfixups

/-- A weak bind is a bind. -/
theorem IsWeakBind.exists_kind {c : Container} (h : IsWeakBind c fixup) :
    ∃ symbolName ordinal isAuth addend, fixup.kind = .bind symbolName ordinal isAuth addend := by
  obtain ⟨importFormat, importsOffset, symbolsOffset, t, format, r, next, distance, index, a, -, -,
    hfit, hnext, himport, -, hparse⟩ := h
  obtain ⟨libOrdinal, symbolName, isAuth, addend, -, hfixup⟩ :=
    fixupParseOne_bind hfit hnext himport hparse
  exact ⟨symbolName, libOrdinal, isAuth, addend, by rw [hfixup]⟩

/-- **A weak import is not allowed to be absent.** If its library has no file, or does not export
its symbol, the loader never returns the image; and when it comes to the bind of a symbol that is
not exported, it returns the error for that. -/
theorem weakImport_refused {parsedImage : ParsedImage}
    (hparse : (image.view w.mem).machoParser = .ok parsedImage)
    (hmem : fixup ∈ parsedImage.fixups) (hweak : IsWeakBind (image.view w.mem) fixup)
    (habsent : ∀ symbolName ordinal isAuth addend,
      fixup.kind = .bind symbolName ordinal isAuth addend →
      LibraryMissing host cache execDir (image.view w.mem) parsedImage.rpath ordinal ∨
        SymbolMissing host cache execDir image dylibDir w fixup symbolName ordinal) :
    (∀ fuel r, (machoLoader host cache execDir fuel image dylibDir w).1 ≠ .ok r) ∧
    ∀ symbolName ordinal isAuth addend, fixup.kind = .bind symbolName ordinal isAuth addend →
      SymbolMissing host cache execDir image dylibDir w fixup symbolName ordinal →
      ∀ fuel (_ : FixupTurn host cache execDir fuel image dylibDir w fixup), ∃ library : Library,
        (machoLoader host cache execDir (fuel + 1) image dylibDir w).1
          = .err library.lacksMessage := by
  constructor
  · intro fuel r hok
    obtain ⟨n, rfl, ⟨run⟩⟩ := machoLoader_eq_ok (Exec.eq_of_fst hok)
    obtain rfl : parsedImage = run.parsedImage := Outcome.ok.inj (hparse.symm.trans run.parse_eq)
    obtain ⟨symbolName, ordinal, isAuth, addend, hkind⟩ := hweak.exists_kind
    rcases habsent symbolName ordinal isAuth addend hkind with hlibrary | hsymbol
    · exact run.not_libraryMissing hlibrary
    · obtain ⟨turn, v, hv⟩ := run.exists_fixupTurn hmem
      obtain ⟨library, -, hword⟩ := hsymbol.fixupWord_err hkind turn
      rw [hv] at hword
      exact absurd hword (by simp)
  · intro symbolName ordinal isAuth addend hkind hsymbol fuel turn
    obtain ⟨library, -, hword⟩ := hsymbol.fixupWord_err hkind turn
    exact ⟨library, turn.machoLoader_err hword⟩

/-! ## A dylib that wants a missing one -/

/-- The weak import of `_f` from library 1. -/
def sampleWeakTable : ImportTable :=
  { imports := [⟨1, true, 1, 0⟩], pool := 0 :: ascii "_f" ++ [0] }

def sampleWeakIndex : Fin sampleWeakTable.imports.length := ⟨0, by decide⟩

/-- One segment, an `LC_LOAD_WEAK_DYLIB` for `/m`, and one chained fixup at offset 224: a bind to the
one import of the table. -/
def sampleWeakBytes : List UInt8 :=
  sampleMachO 6 3
    (Bytes.encodeFields .little [(4, 0x19), (4, 72)] ++ ascii "__TEXT" ++ List.replicate 10 0
    ++ Bytes.encodeFields .little
      [(8, 0), (8, 232), (8, 0), (8, 232), (4, 5), (4, 5), (4, 0), (4, 0)]
    ++ sampleDylibCommand 0x80000018 "/m"
    ++ Bytes.encodeFields .little [(4, 0x80000034), (4, 16), (4, 152), (4, 68)]
    ++ Bytes.encodeFields .little [(4, 0), (4, 28), (4, 60), (4, 64), (4, 1), (4, 1), (4, 0)]
    ++ Bytes.encodeFields .little [(4, 1), (4, 8)]
    ++ Bytes.encodeFields .little [(4, 24), (2, 0x1000), (2, 6), (8, 0), (4, 0), (2, 1), (2, 224)]
    ++ Bytes.encodeFields .little ((⟨1, true, 1, 0⟩ : ChainedImport).fields .plain)
    ++ sampleWeakTable.pool ++ List.replicate 4 0
    ++ Bytes.encode .little 8 ((FixupRecord.bind sampleWeakIndex 0).word .ptr64Offset 0))

def sampleWeakImage : MappedContainer := ⟨⟨0x1000, sampleWeakBytes.length⟩, .little⟩

theorem sampleWeakFixup_valid :
    validUtf8 (ascii "_f") = true ∧ (ascii "_f").length ≤ 128 := by decide

def sampleWeakFixup : Fixup := ⟨224, .bind (sampleSymbolName "_f" sampleWeakFixup_valid) 1 false 0⟩

def sampleWeakParsed : ParsedImage :=
  { Container.parsedImageNew true with
    segments := ⟨[⟨0, 0, 232, 5⟩], by decide +kernel⟩
    libraries := ⟨[(⟨ascii "/m", by decide⟩, 24)], by decide⟩
    fixups := [sampleWeakFixup] }

theorem sampleWeak_parsed : (sampleWeakImage.view (sampleWorld sampleWeakBytes).mem).machoParser
    = .ok sampleWeakParsed := by decide +kernel

theorem sampleWeak_isWeakBind :
    IsWeakBind (sampleWeakImage.view (sampleWorld sampleWeakBytes).mem) sampleWeakFixup := by
  have hat : ImportTableAt (sampleWeakImage.view (sampleWorld sampleWeakBytes).mem) .plain 212 216
      sampleWeakTable := by
    refine ⟨fun k i hk => ?_, by decide +kernel⟩
    cases k with
    | zero =>
        obtain rfl := Option.some.inj hk
        decide +kernel
    | succ k => exact absurd hk (by simp [sampleWeakTable])
  have hwf : sampleWeakTable.WellFormed := by
    refine ⟨by decide, fun i hi => ?_⟩
    obtain rfl := List.mem_singleton.mp hi
    exact ⟨by decide, by decide⟩
  exact ⟨.plain, 212, 216, sampleWeakTable, .ptr64Offset, .bind sampleWeakIndex 0, 0, 0,
    sampleWeakIndex, 0, hat, hwf, ⟨by decide, by decide⟩, by decide, rfl, rfl, by decide +kernel⟩

theorem sampleWeak_libraryMissing : LibraryMissing (sampleHost fun _ => none) sampleNoCache []
    (sampleWeakImage.view (sampleWorld sampleWeakBytes).mem) none 1 :=
  ⟨[(.lcSegment64, 32), (.lcLoadWeakDylib, 104), (.lcDyldChainedFixups, 136)], 104,
    ⟨ascii "/m", by decide⟩, ascii "/m" ++ [0], by decide +kernel, by decide +kernel,
    by decide +kernel, by decide +kernel, by decide +kernel, rfl⟩

/-- However long the loader is given, it does not load the image. -/
theorem sampleWeak_refused : ¬ ∃ fuel r, (machoLoader (sampleHost fun _ => none) sampleNoCache []
    fuel sampleWeakImage (some (ascii "/d")) (sampleWorld sampleWeakBytes)).1 = .ok r := by
  rintro ⟨fuel, r, hok⟩
  refine (weakImport_refused sampleWeak_parsed (List.mem_singleton_self _) sampleWeak_isWeakBind
    fun symbolName ordinal isAuth addend hkind => .inl ?_).1 fuel r hok
  obtain ⟨-, rfl, -, -⟩ := FixupKind.bind.inj hkind
  exact sampleWeak_libraryMissing

/-- The load command says that the dylib may be missing, and the loader fails as it is. -/
theorem sampleWeak_err :
    IsWeakBind (sampleWeakImage.view (sampleWorld sampleWeakBytes).mem) sampleWeakFixup ∧
      sampleWeakFixup ∈ sampleWeakParsed.fixups ∧
      LibraryMissing (sampleHost fun _ => none) sampleNoCache []
        (sampleWeakImage.view (sampleWorld sampleWeakBytes).mem) none 1 ∧
      (machoLoader (sampleHost fun _ => none) sampleNoCache [] 2 sampleWeakImage (some (ascii "/d"))
        (sampleWorld sampleWeakBytes)).1 = .err "could not open path" :=
  ⟨sampleWeak_isWeakBind, List.mem_singleton_self _, sampleWeak_libraryMissing, by decide +kernel⟩

end Dynld
