import Mathlib.Data.List.TakeWhile
import Dynld.Format.Structures
import Dynld.Proof.Ordinals

/-!
# Fixed capacities

The parser keeps the libraries and the segments of an image in vectors of 64 items,
and `dependencies_collect` copies the libraries to a vector of 32. The second limit is
checked before each push; the first is not, and a push to a full vector panics.

How the parse of a command ends does not depend on the commands before it, but for the
room that they left (`parseCommand_alike`). So of an image whose commands do not panic
each on its own the parse panics exactly if it gets to a library or a segment that
there is no more room for.
-/

namespace Dynld

/-- There is room for one more library if the command is for a library, and for one more segment
if it is for a segment. -/
def ParsedImage.HasRoom (parsed : ParsedImage) (cmd : LoadCommandVariants) : Prop :=
  (Container.isCollectedDylibCommand cmd = true → parsed.libraries.items.length < 64) ∧
    (cmd = .lcSegment64 → parsed.segments.items.length < 64)

instance (parsed : ParsedImage) (cmd : LoadCommandVariants) : Decidable (parsed.HasRoom cmd) :=
  inferInstanceAs (Decidable (_ ∧ _))

/-- A push panics without room. -/
def ParsedImage.checkRoom (parsed : ParsedImage) (cmd : LoadCommandVariants) : Outcome Unit :=
  if parsed.HasRoom cmd then .ok () else .panic "ArrayVec is full"

namespace ParsedImage

variable {parsed : ParsedImage} {cmd : LoadCommandVariants}

theorem checkRoom_dylib (hdylib : Container.isCollectedDylibCommand cmd = true) :
    parsed.checkRoom cmd
      = if parsed.libraries.items.length < 64 then .ok () else .panic "ArrayVec is full" := by
  have hseg : cmd ≠ .lcSegment64 := by
    rintro rfl
    exact absurd hdylib (by decide)
  simp only [checkRoom, HasRoom, hdylib, hseg, false_imp_iff, true_imp_iff, and_true]

theorem checkRoom_segment : parsed.checkRoom .lcSegment64
    = if parsed.segments.items.length < 64 then .ok () else .panic "ArrayVec is full" := by
  have hdylib : Container.isCollectedDylibCommand .lcSegment64 = false := by decide
  simp only [checkRoom, HasRoom, hdylib, Bool.false_eq_true, false_imp_iff, true_imp_iff, true_and]

theorem checkRoom_other (hdylib : ¬ Container.isCollectedDylibCommand cmd = true)
    (hseg : cmd ≠ .lcSegment64) : parsed.checkRoom cmd = .ok () :=
  if_pos ⟨fun h => absurd h hdylib, fun h => absurd h hseg⟩

end ParsedImage

theorem ArrayVec.push_alike {α : Type} {n : Nat} (v : ArrayVec α n) (item : α) :
    Outcome.Alike (v.push item)
      (if v.items.length < n then .ok () else .panic "ArrayVec is full" : Outcome Unit) := by
  unfold ArrayVec.push
  split
  · exact Outcome.Alike.of_ok _ ()
  · exact Outcome.Alike.refl _

theorem ArrayVec.push_newArray {α : Type} {n : Nat} (item : α) (h : 0 < n) :
    ∃ v, (ArrayVec.newArray : ArrayVec α n).push item = .ok v := ⟨_, dif_pos h⟩

namespace Container

variable {c : Container}

/-! ## Accumulators

The loops of the parser push on lists. What was pushed before does not matter. -/

theorem initFuncOffsetsLoop_alike : ∀ (n cursor : Nat) (funcs funcs' : List Nat),
    Outcome.Alike (c.initFuncOffsetsLoop n cursor funcs)
      (c.initFuncOffsetsLoop n cursor funcs') := by
  intro n
  induction n with
  | zero =>
    intro _ funcs funcs'
    exact Outcome.Alike.of_ok funcs funcs'
  | succ n ih =>
    intro cursor funcs funcs'
    exact Outcome.Alike.bind_left fun func => Outcome.Alike.bind_left fun next => ih next _ _

theorem scanSection_alike (sectionOff : Nat) (found found' : List Nat × Bool) :
    Outcome.Alike (c.scanSection sectionOff found) (c.scanSection sectionOff found') := by
  refine Outcome.Alike.bind_left fun sect => ?_
  by_cases hinit : sect.flags &&& sectionType = sInitFuncOffsets
  · rw [if_pos hinit, if_pos hinit]
    have hread := Outcome.Alike.bind_left (x := Outcome.add 32 sect.offset (sect.size % 2 ^ 32))
      fun _ => initFuncOffsetsLoop_alike (c := c) ((sect.size % 2 ^ 32 + 3) / 4) sect.offset
        found.1 found'.1
    exact hread.bind fun _ _ => Outcome.Alike.of_ok _ _
  · rw [if_neg hinit, if_neg hinit]
    split
    · exact Outcome.Alike.of_ok _ _
    · exact Outcome.Alike.of_ok _ _

theorem sectionsLoop_alike : ∀ (n sectionOff : Nat) (found found' : List Nat × Bool),
    Outcome.Alike (c.sectionsLoop n sectionOff found) (c.sectionsLoop n sectionOff found') := by
  intro n
  induction n with
  | zero =>
    intro _ found found'
    exact Outcome.Alike.of_ok found found'
  | succ n ih =>
    intro sectionOff found found'
    exact (scanSection_alike sectionOff found found').bind fun _ _ => ih _ _ _

theorem segmentScan_alike (offset : Nat) (seg : SegmentCommand64) (found found' : List Nat × Bool) :
    Outcome.Alike (c.segmentScan offset seg found) (c.segmentScan offset seg found') := by
  unfold segmentScan
  split
  · exact sectionsLoop_alike _ _ _ _
  · exact Outcome.Alike.of_ok found found'

theorem classifySymbol_alike (stroff : Nat) (entry : Nlist64) (symbols symbols' : List Symbol) :
    Outcome.Alike (c.classifySymbol stroff entry symbols)
      (c.classifySymbol stroff entry symbols') := by
  unfold classifySymbol
  split
  · exact Outcome.Alike.of_ok symbols symbols'
  split
  · -- a defined symbol
    refine Outcome.Alike.bind_left fun found => ?_
    cases found with
    | none => exact Outcome.Alike.of_ok symbols symbols'
    | some name => exact Outcome.Alike.bind_left fun _ => Outcome.Alike.of_ok _ _
  split
  · unfold classifyUndefinedSymbol
    split
    · exact Outcome.Alike.refl _
    · refine Outcome.Alike.bind_left fun found => ?_
      cases found with
      | none => exact Outcome.Alike.of_ok symbols symbols'
      | some name => exact Outcome.Alike.of_ok _ _
  · exact Outcome.Alike.of_ok symbols symbols'

theorem symtabLoop_alike {stroff : Nat} : ∀ (n nlistOffset : Nat) (symbols symbols' : List Symbol),
    Outcome.Alike (c.symtabLoop stroff n nlistOffset symbols)
      (c.symtabLoop stroff n nlistOffset symbols') := by
  intro n
  induction n with
  | zero =>
    intro _ symbols symbols'
    exact Outcome.Alike.of_ok symbols symbols'
  | succ n ih =>
    intro nlistOffset symbols symbols'
    refine Outcome.Alike.bind_left fun entry => ?_
    exact (classifySymbol_alike stroff entry symbols symbols').bind fun _ _ => ih _ _ _

/-! ## One command -/

theorem parseDylibCommand_alike (offset : Nat) (libraries : ArrayVec (Str × Nat) 64) :
    Outcome.Alike (c.parseDylibCommand offset libraries)
      (c.parseDylibCommand offset ArrayVec.newArray >>= fun _ =>
        (if libraries.items.length < 64 then .ok () else .panic "ArrayVec is full" :
          Outcome Unit)) := by
  unfold parseDylibCommand
  rw [Outcome.bind_assoc]
  refine Outcome.Alike.bind_left fun dylib => ?_
  rw [Outcome.bind_assoc]
  refine Outcome.Alike.bind_left fun nameOffset => ?_
  rw [Outcome.bind_assoc]
  refine Outcome.Alike.bind_left fun name => ?_
  obtain ⟨_, hpush⟩ := ArrayVec.push_newArray (n := 64) (name, dylib.nameOffset) (by decide)
  rw [hpush, Outcome.ok_bind]
  exact libraries.push_alike _

theorem parseSegment_alike (offset : Nat) (parsed parsed' : ParsedImage)
    (hempty : parsed'.segments = ArrayVec.newArray) :
    Outcome.Alike (c.parseSegment offset parsed)
      (c.parseSegment offset parsed' >>= fun _ =>
        (if parsed.segments.items.length < 64 then .ok () else .panic "ArrayVec is full" :
          Outcome Unit)) := by
  unfold parseSegment
  rw [Outcome.bind_assoc, hempty]
  refine Outcome.Alike.bind_left fun seg => ?_
  rw [Outcome.bind_assoc]
  refine (segmentScan_alike offset seg _ _).bind fun found found' => ?_
  -- the sections that were scanned before do not matter to the push
  obtain ⟨_, hpush⟩ := ArrayVec.push_newArray (n := 64) seg.toSegment (by decide)
  rw [SegmentCommand64.toSegment] at hpush
  rw [hpush]
  exact (Outcome.Alike.map_ok _ _).trans (parsed.segments.push_alike seg.toSegment)

/-- **What a command does**: what it does on its own, and then the check for room. -/
theorem parseCommand_alike (cmd : LoadCommandVariants) (offset : Nat) (parsed : ParsedImage) :
    Outcome.Alike (c.parseCommand cmd offset parsed)
      (c.parseCommand cmd offset (parsedImageNew parsed.isDylib) >>= fun _ =>
        parsed.checkRoom cmd) := by
  by_cases hdylib : isCollectedDylibCommand cmd = true
  · unfold parseCommand
    rw [ParsedImage.checkRoom_dylib hdylib, if_pos hdylib, if_pos hdylib, Outcome.bind_assoc]
    exact (Outcome.Alike.map_ok _ _).trans (parseDylibCommand_alike offset parsed.libraries)
  by_cases hseg : cmd = .lcSegment64
  · subst hseg
    rw [ParsedImage.checkRoom_segment]
    exact parseSegment_alike offset parsed _ rfl
  rw [ParsedImage.checkRoom_other hdylib hseg]
  refine Outcome.Alike.trans ?_ (Outcome.Alike.map_ok _ _).symm
  -- the other commands push to no vector, and only the symbol table has an accumulator
  cases cmd
  case lcMain => exact Outcome.Alike.bind_left fun _ => Outcome.Alike.of_ok _ _
  case lcSymtab =>
    refine Outcome.Alike.bind ?_ fun _ _ => Outcome.Alike.of_ok _ _
    exact Outcome.Alike.bind_left fun symtab => symtabLoop_alike _ _ _ _
  case lcSegment64 => exact absurd rfl hseg
  case lcLoadDylib => exact absurd rfl hdylib
  case lcLoadWeakDylib => exact absurd rfl hdylib
  case lcLazyLoadDylib => exact absurd rfl hdylib
  case lcDyldChainedFixups => exact Outcome.Alike.bind_left fun _ => Outcome.Alike.of_ok _ _
  case lcRpath => exact Outcome.Alike.bind_left fun _ => Outcome.Alike.of_ok _ _
  all_goals exact Outcome.Alike.of_ok _ _

/-! ## Every command -/

/-- What a command does on its own, in an image of this kind. -/
def parseAlone (c : Container) (isDylib : Bool) (command : LoadCommandVariants × Nat) :
    Outcome ParsedImage :=
  c.parseCommand command.1 command.2 (parsedImageNew isDylib)

/-- The commands before the first one that is refused for what it is. -/
def acceptedCommands (c : Container) (isDylib : Bool)
    (commands : List (LoadCommandVariants × Nat)) : List (LoadCommandVariants × Nat) :=
  commands.takeWhile fun command => (c.parseAlone isDylib command).isOk

/-- The number of libraries that some commands are for. -/
def dylibCount (commands : List (LoadCommandVariants × Nat)) : Nat :=
  commands.countP fun command => isCollectedDylibCommand command.1

/-- The number of segments that some commands are for. -/
def segmentCount (commands : List (LoadCommandVariants × Nat)) : Nat :=
  commands.countP fun command => decide (command.1 = .lcSegment64)

theorem acceptedCommands_cons {isDylib : Bool} {command : LoadCommandVariants × Nat}
    {rest : List (LoadCommandVariants × Nat)} (h : (c.parseAlone isDylib command).isOk = true) :
    c.acceptedCommands isDylib (command :: rest)
      = command :: c.acceptedCommands isDylib rest :=
  List.takeWhile_cons_of_pos h

theorem dylibCount_cons (command : LoadCommandVariants × Nat)
    (rest : List (LoadCommandVariants × Nat)) :
    dylibCount (command :: rest)
      = dylibCount rest + if isCollectedDylibCommand command.1 = true then 1 else 0 :=
  List.countP_cons

theorem segmentCount_cons (command : LoadCommandVariants × Nat)
    (rest : List (LoadCommandVariants × Nat)) :
    segmentCount (command :: rest)
      = segmentCount rest + if command.1 = .lcSegment64 then 1 else 0 := by
  rw [segmentCount, List.countP_cons]
  simp only [decide_eq_true_eq]
  rfl

/-- A command never changes the kind of the image. -/
theorem parseCommand_isDylib {cmd : LoadCommandVariants} {offset : Nat}
    {parsed parsed' : ParsedImage} (h : c.parseCommand cmd offset parsed = .ok parsed') :
    parsed'.isDylib = parsed.isDylib := by
  by_cases hdylib : isCollectedDylibCommand cmd = true
  · obtain ⟨libraries, -, h⟩ := parseCommand_dylib hdylib h
    rw [h]
  unfold parseCommand at h
  rw [if_neg hdylib] at h
  split at h
  · obtain ⟨entryPoint, -, h⟩ := Outcome.bind_eq_ok.mp h
    rw [← Outcome.ok.inj h]
  · obtain ⟨symbols, -, h⟩ := Outcome.bind_eq_ok.mp h
    rw [← Outcome.ok.inj h]
  · obtain ⟨seg, -, h⟩ := Outcome.bind_eq_ok.mp h
    obtain ⟨found, -, h⟩ := Outcome.bind_eq_ok.mp h
    obtain ⟨segments, -, h⟩ := Outcome.bind_eq_ok.mp h
    rw [← Outcome.ok.inj h]
  · obtain ⟨fixups, -, h⟩ := Outcome.bind_eq_ok.mp h
    rw [← Outcome.ok.inj h]
  · obtain ⟨rpath, -, h⟩ := Outcome.bind_eq_ok.mp h
    rw [← Outcome.ok.inj h]
  · rw [← Outcome.ok.inj h]

/-- What the two tables gain from a command. -/
theorem parseCommand_lengths {cmd : LoadCommandVariants} {offset : Nat}
    {parsed parsed' : ParsedImage} (h : c.parseCommand cmd offset parsed = .ok parsed') :
    parsed'.libraries.items.length = parsed.libraries.items.length
        + (if isCollectedDylibCommand cmd = true then 1 else 0) ∧
      parsed'.segments.items.length = parsed.segments.items.length
        + (if cmd = .lcSegment64 then 1 else 0) := by
  constructor
  · obtain ⟨names, hnames, hitems⟩ := parseCommand_libraries h
    have hlen := congrArg List.length hitems
    rw [List.length_append, List.length_map, List.length_map, installNames_length hnames,
      List.countP_cons, List.countP_nil, Nat.zero_add] at hlen
    exact hlen
  · by_cases hseg : cmd = .lcSegment64
    · subst hseg
      obtain ⟨⟨seg, -, hitems⟩, -⟩ := parseSegment_eq_ok h
      rw [hitems, List.length_append, if_pos rfl]
      rfl
    · have hitems := parseCommand_segments h
      have hnone : c.segmentCommandsOf [(cmd, offset)] = [] := by simp [segmentCommandsOf, hseg]
      rw [hitems, hnone, List.map_nil, List.append_nil, if_neg hseg, Nat.add_zero]

/-- **Some commands are parsed without a panic exactly if there is room** for the libraries and
for the segments among those that are gone through. -/
theorem parseEach_returns_iff {isDylib : Bool} :
    ∀ {commands : List (LoadCommandVariants × Nat)} {parsed : ParsedImage},
      parsed.isDylib = isDylib →
      (∀ command ∈ commands, (c.parseAlone isDylib command).Returns) →
      ((c.parseEach commands parsed).Returns ↔
        parsed.libraries.items.length + dylibCount (c.acceptedCommands isDylib commands) ≤ 64 ∧
          parsed.segments.items.length + segmentCount (c.acceptedCommands isDylib commands)
            ≤ 64) := by
  intro commands
  induction commands with
  | nil =>
    intro parsed _ _
    exact iff_of_true (.inl ⟨parsed, rfl⟩)
      ⟨parsed.libraries.length_le, parsed.segments.length_le⟩
  | cons command rest ih =>
    intro parsed hkind hreturn
    have hrest := fun command' hmem => hreturn command' (List.mem_cons_of_mem command hmem)
    -- the command does what it does alone, up to the room in the two tables
    have halike := parseCommand_alike (c := c) command.1 command.2 parsed
    rw [hkind] at halike
    rcases hreturn command List.mem_cons_self with ⟨alone, hok⟩ | ⟨m, herr⟩
    · rw [acceptedCommands_cons (by rw [hok]; rfl), dylibCount_cons, segmentCount_cons]
      rw [parseAlone] at hok
      rw [hok, Outcome.ok_bind] at halike
      by_cases hroom : parsed.HasRoom command.1
      · obtain ⟨mid, hmid⟩ := halike.exists_ok (if_pos hroom)
        obtain ⟨hlibs, hsegs⟩ := parseCommand_lengths hmid
        have hnext := ih ((parseCommand_isDylib hmid).trans hkind) hrest
        rw [parseEach, hmid, Outcome.ok_bind, hnext, hlibs, hsegs]
        omega
      · -- the push panics, and one more is more than 64
        have hpanic := halike.eq_panic (if_neg hroom)
        rw [parseEach, hpanic, Outcome.panic_bind]
        refine iff_of_false (by simp [Outcome.Returns]) ?_
        rintro ⟨hlibs, hsegs⟩
        refine hroom ⟨?_, ?_⟩
        · intro hdylib
          rw [if_pos hdylib] at hlibs
          omega
        · intro hseg
          rw [if_pos hseg] at hsegs
          omega
    · -- a refused command ends the parse: nothing is counted from it on
      have hnone : c.acceptedCommands isDylib (command :: rest) = [] :=
        List.takeWhile_cons_of_neg (by rw [herr]; simp [Outcome.isOk])
      rw [parseAlone] at herr
      rw [herr, Outcome.err_bind] at halike
      rw [parseEach, halike.eq_err rfl, hnone]
      exact iff_of_true (.inr ⟨m, rfl⟩) ⟨parsed.libraries.length_le, parsed.segments.length_le⟩

/-- Commands none of which is refused cause no error. -/
theorem parseEach_ne_err {isDylib : Bool} {m : String} :
    ∀ {commands : List (LoadCommandVariants × Nat)} {parsed : ParsedImage},
      parsed.isDylib = isDylib →
      (∀ command ∈ commands, (c.parseAlone isDylib command).isOk = true) →
      c.parseEach commands parsed ≠ .err m := by
  intro commands
  induction commands with
  | nil =>
    intro parsed _ _
    simp [parseEach]
  | cons command rest ih =>
    intro parsed hkind haccept
    have hrest := fun command' hmem => haccept command' (List.mem_cons_of_mem command hmem)
    obtain ⟨alone, hok⟩ := Outcome.isOk_eq_true.mp (haccept command List.mem_cons_self)
    have halike := parseCommand_alike (c := c) command.1 command.2 parsed
    rw [parseAlone] at hok
    rw [hkind, hok, Outcome.ok_bind] at halike
    by_cases hroom : parsed.HasRoom command.1
    · obtain ⟨mid, hmid⟩ := halike.exists_ok (if_pos hroom)
      rw [parseEach, hmid, Outcome.ok_bind]
      exact ih ((parseCommand_isDylib hmid).trans hkind) hrest
    · rw [parseEach, halike.eq_panic (if_neg hroom)]
      simp

/-- The loop over the load commands goes through the commands that there are. -/
theorem parseCommands_eq (hlen : c.data.length < 2 ^ 63) :
    ∀ {n offset : Nat} {commands : List (LoadCommandVariants × Nat)} (parsed : ParsedImage),
      c.commandsAt n offset = some commands →
        c.parseCommands n offset parsed = c.parseEach commands parsed := by
  intro n
  induction n with
  | zero =>
    intro offset commands parsed h
    obtain rfl := Option.some.inj h
    rfl
  | succ n ih =>
    intro offset commands parsed h
    obtain ⟨lc, hlc, h⟩ := Option.bind_eq_some_iff.mp h
    obtain ⟨rest, hrest, h⟩ := Option.bind_eq_some_iff.mp h
    obtain rfl := Option.some.inj h
    obtain ⟨hoffset, hsize⟩ := loadCommand_bound hlc
    rw [parseCommands, hlc, Outcome.okOr_some, Outcome.ok_bind, parseEach]
    refine congrArg (c.parseCommand lc.cmd offset parsed >>= ·) (funext fun mid => ?_)
    rw [Outcome.add_of_lt (by omega), Outcome.ok_bind, ih mid hrest]

end Container

/-! ## Parsing and collecting -/

/-- The first two steps of the loader. -/
def parseAndCollect (c : Container) (cache : DyldSharedCache) :
    Outcome (ParsedImage × ArrayVec (Str × Bool) 32) := do
  let parsedImage ← c.machoParser
  let dependencies ← dependenciesCollect parsedImage cache
  .ok (parsedImage, dependencies)

/-- An image whose load commands can be listed, none of which makes the parser panic for what it
is. -/
structure CommandsReturn (c : Container) (header : MachHeader64)
    (commands : List (LoadCommandVariants × Nat)) : Prop where
  length_lt : c.data.length < 2 ^ 63
  header_eq : c.machHeader64 0 = some header
  commands_eq : c.commandsAt header.ncmds MachHeader64.size = some commands
  returns : ∀ isDylib, Container.filetypeIsDylib header.filetype = .ok isDylib →
    ∀ command ∈ commands, (c.parseAlone isDylib command).Returns

/-- The commands that the parser goes through before it refuses one, and none if it refuses the
image for its file type. -/
def parsedCommands (c : Container) (header : MachHeader64)
    (commands : List (LoadCommandVariants × Nat)) : List (LoadCommandVariants × Nat) :=
  match Container.filetypeIsDylib header.filetype with
  | .ok isDylib => c.acceptedCommands isDylib commands
  | _ => []

/-- Every library and segment is kept, in order, or there is an error; and there is the error
declared for too many libraries where nothing else is wrong. -/
structure CapacitiesReported (c : Container) (cache : DyldSharedCache) (header : MachHeader64)
    (commands : List (LoadCommandVariants × Nat)) : Prop where
  returns : (parseAndCollect c cache).Returns
  keeps : ∀ parsedImage dependencies, parseAndCollect c cache = .ok (parsedImage, dependencies) →
    parsedImage.segments.items
        = (c.segmentCommandsOf commands).map SegmentCommand64.toSegment ∧
      c.installNames Container.isCollectedDylibCommand commands
        = .ok (parsedImage.libraries.items.map (·.1)) ∧
      dependencies.items = (parsedImage.libraries.items.map (·.1)).map
        fun name => (name, cache.isLibraryCached name.bytes)
  limit : parsedCommands c header commands = commands → 32 < Container.dylibCount commands →
    parseAndCollect c cache = .err "exceeded maximum amount of dylibs"

variable {c : Container} {cache : DyldSharedCache} {header : MachHeader64}
  {commands : List (LoadCommandVariants × Nat)}

/-- The limit of 32 is checked before each push. -/
theorem dependenciesLoop_alike : ∀ (libraries : List (Str × Nat))
    (dependencies : ArrayVec (Str × Bool) 32),
    Outcome.Alike (dependenciesLoop cache libraries dependencies)
      (if dependencies.items.length + libraries.length ≤ 32 then .ok ()
        else .err "exceeded maximum amount of dylibs" : Outcome Unit) := by
  intro libraries
  induction libraries with
  | nil =>
    intro dependencies
    rw [if_pos (by exact dependencies.length_le)]
    exact Outcome.Alike.of_ok _ _
  | cons head rest ih =>
    intro dependencies
    obtain ⟨libName, offset⟩ := head
    have hle := dependencies.length_le
    rw [dependenciesLoop, List.length_cons]
    split
    · rw [if_neg (by omega)]
      exact Outcome.Alike.refl _
    · -- below the limit the push has room
      rename_i hfull
      obtain ⟨pushed, hpush⟩ :=
        (dependencies.push_alike (libName, cache.isLibraryCached libName.bytes)).exists_ok
          (if_pos (by omega))
      have hitems := ArrayVec.push_eq_ok hpush
      dsimp only
      rw [hpush, Outcome.ok_bind]
      have hrest := ih pushed
      rw [hitems, List.length_append, List.length_singleton] at hrest
      rwa [Nat.add_assoc, Nat.add_comm 1] at hrest

theorem machoParser_eq_parseEach (h : CommandsReturn c header commands) {isDylib : Bool}
    (hkind : Container.filetypeIsDylib header.filetype = .ok isDylib) :
    c.machoParser = c.parseEach commands (Container.parsedImageNew isDylib) := by
  rw [Container.machoParser, h.header_eq, Outcome.okOr_some, Outcome.ok_bind, hkind,
    Outcome.ok_bind, Container.parseCommands_eq h.length_lt _ h.commands_eq]

theorem filetypeIsDylib_returns (filetype : MachoFiletypeVariants) :
    (Container.filetypeIsDylib filetype).Returns := by
  cases filetype
  case mhExecute => exact .inl ⟨false, rfl⟩
  case mhDylib => exact .inl ⟨true, rfl⟩
  all_goals exact .inr ⟨_, rfl⟩

theorem machoParser_returns_iff (h : CommandsReturn c header commands) :
    c.machoParser.Returns ↔
      Container.dylibCount (parsedCommands c header commands) ≤ 64 ∧
        Container.segmentCount (parsedCommands c header commands) ≤ 64 := by
  rcases filetypeIsDylib_returns header.filetype with ⟨isDylib, hkind⟩ | ⟨m, hkind⟩
  · rw [machoParser_eq_parseEach h hkind,
      Container.parseEach_returns_iff rfl (h.returns isDylib hkind)]
    simp only [parsedCommands, hkind, Container.parsedImageNew, ArrayVec.newArray,
      List.length_nil, Nat.zero_add]
  · have herr : c.machoParser = .err m := by
      rw [Container.machoParser, h.header_eq, Outcome.okOr_some, Outcome.ok_bind, hkind,
        Outcome.err_bind]
    rw [herr]
    simp [parsedCommands, hkind, Outcome.Returns, Container.dylibCount, Container.segmentCount]

/-- Collecting the libraries of a parsed image ends with the check of their number. -/
theorem parseAndCollect_alike : Outcome.Alike (parseAndCollect c cache)
    (c.machoParser >>= fun parsedImage =>
      (if parsedImage.libraries.items.length ≤ 32 then .ok ()
        else .err "exceeded maximum amount of dylibs" : Outcome Unit)) := by
  refine Outcome.Alike.bind_left fun parsedImage => (Outcome.Alike.map_ok _ _).trans ?_
  have halike := @dependenciesLoop_alike cache parsedImage.libraries.items ArrayVec.newArray
  rwa [ArrayVec.newArray, List.length_nil, Nat.zero_add] at halike

theorem parseAndCollect_returns_iff :
    (parseAndCollect c cache).Returns ↔ c.machoParser.Returns := by
  have halike := @parseAndCollect_alike c cache
  constructor
  · intro hreturn
    cases hparse : c.machoParser with
    | ok parsedImage => exact .inl ⟨parsedImage, rfl⟩
    | err m => exact .inr ⟨m, rfl⟩
    | panic m =>
        rw [hparse, Outcome.panic_bind] at halike
        rw [halike.eq_panic rfl] at hreturn
        exact absurd hreturn (by simp [Outcome.Returns])
    | outOfFuel =>
        rw [parseAndCollect, hparse, Outcome.outOfFuel_bind] at hreturn
        exact absurd hreturn (by simp [Outcome.Returns])
  · intro hreturn
    refine halike.returns ?_
    rcases hreturn with ⟨parsedImage, hparse⟩ | ⟨m, hparse⟩
    · rw [hparse, Outcome.ok_bind]
      split
      · exact .inl ⟨(), rfl⟩
      · exact .inr ⟨_, rfl⟩
    · rw [hparse]
      exact .inr ⟨m, rfl⟩

/-- The tables of an image that is parsed are those of its commands. -/
theorem CommandsReturn.tables (h : CommandsReturn c header commands) {parsedImage : ParsedImage}
    (hparse : c.machoParser = .ok parsedImage) :
    parsedImage.segments.items
        = (c.segmentCommandsOf commands).map SegmentCommand64.toSegment ∧
      c.installNames Container.isCollectedDylibCommand commands
        = .ok (parsedImage.libraries.items.map (·.1)) := by
  obtain ⟨commands', hcommands, hsegs, hnames⟩ := Container.machoParser_tables hparse
  rw [Container.loadCommands, h.header_eq] at hcommands
  obtain rfl : commands = commands' := Option.some.inj (h.commands_eq.symm.trans hcommands)
  exact ⟨hsegs, hnames⟩

/-- What is returned keeps every library and segment. -/
theorem parseAndCollect_keeps (h : CommandsReturn c header commands) {parsedImage : ParsedImage}
    {dependencies : ArrayVec (Str × Bool) 32}
    (hreturn : parseAndCollect c cache = .ok (parsedImage, dependencies)) :
    parsedImage.segments.items
        = (c.segmentCommandsOf commands).map SegmentCommand64.toSegment ∧
      c.installNames Container.isCollectedDylibCommand commands
        = .ok (parsedImage.libraries.items.map (·.1)) ∧
      dependencies.items = (parsedImage.libraries.items.map (·.1)).map
        fun name => (name, cache.isLibraryCached name.bytes) := by
  obtain ⟨parsed, hparse, hreturn⟩ := Outcome.bind_eq_ok.mp hreturn
  obtain ⟨collected, hcollect, hreturn⟩ := Outcome.bind_eq_ok.mp hreturn
  obtain ⟨rfl, rfl⟩ := Prod.mk.inj (Outcome.ok.inj hreturn)
  obtain ⟨hsegs, hnames⟩ := h.tables hparse
  exact ⟨hsegs, hnames, dependenciesCollect_eq_ok hcollect⟩

/-- Where nothing else is wrong and the parser has room, the limit of 32 is what is reported. -/
theorem parseAndCollect_limit (h : CommandsReturn c header commands)
    (hparse : c.machoParser.Returns) (hall : parsedCommands c header commands = commands)
    (hlimit : 32 < Container.dylibCount commands) :
    parseAndCollect c cache = .err "exceeded maximum amount of dylibs" := by
  rcases filetypeIsDylib_returns header.filetype with ⟨isDylib, hkind⟩ | ⟨m, hkind⟩
  · have haccept : ∀ command ∈ commands, (c.parseAlone isDylib command).isOk = true := by
      simp only [parsedCommands, hkind] at hall
      exact List.takeWhile_eq_self_iff.mp hall
    rcases hparse with ⟨parsedImage, hok⟩ | ⟨m, herr⟩
    · have hlength := installNames_length (h.tables hok).2
      rw [List.length_map] at hlength
      rw [Container.dylibCount, ← hlength] at hlimit
      have halike := @parseAndCollect_alike c cache
      rw [hok, Outcome.ok_bind, if_neg (by omega)] at halike
      exact halike.eq_err rfl
    · rw [machoParser_eq_parseEach h hkind] at herr
      exact absurd herr (Container.parseEach_ne_err rfl haccept)
  · -- an image that is refused at once has no commands left to count
    simp only [parsedCommands, hkind] at hall
    rw [← hall] at hlimit
    exact absurd hlimit (by decide)

/-- **Capacity limits are reported exactly for images with at most 64 libraries and at most 64
segments** among the commands that the parser goes through. -/
theorem capacitiesReported_iff (h : CommandsReturn c header commands) :
    CapacitiesReported c cache header commands ↔
      Container.dylibCount (parsedCommands c header commands) ≤ 64 ∧
        Container.segmentCount (parsedCommands c header commands) ≤ 64 := by
  rw [← machoParser_returns_iff h]
  constructor
  · intro hreported
    exact parseAndCollect_returns_iff.mp hreported.returns
  · intro hparse
    exact {
      returns := parseAndCollect_returns_iff.mpr hparse
      keeps := fun _ _ => parseAndCollect_keeps h
      limit := parseAndCollect_limit h hparse }

/-! ## Many libraries -/

def sampleLibraryCommand : List UInt8 := sampleDylibCommand 0xc "/a"

/-- A dylib with this many libraries, all of one name. -/
def sampleLibraries (n : Nat) : Container :=
  ⟨sampleMachO 6 n (List.replicate n sampleLibraryCommand).flatten, .little⟩

theorem sampleLibraryName_valid : validUtf8 (ascii "/a") = true := by decide

def sampleLibraryName : Str := ⟨ascii "/a", sampleLibraryName_valid⟩

def sampleLibrariesHeader (n : Nat) : MachHeader64 :=
  { magic := .mhMagic64, cputype := 0x0100000c, cpusubtype := 0, filetype := .mhDylib, ncmds := n,
    sizeofcmds := 0, flags := 0, reserved := 0 }

/-- The `n` commands from number `k` on. -/
def sampleLibrariesCommands (k n : Nat) : List (LoadCommandVariants × Nat) :=
  (List.range' k n).map fun k => (.lcLoadDylib, 32 + 32 * k)

theorem length_sampleLibraryCommand : sampleLibraryCommand.length = 32 := by decide

theorem length_sampleLibraries (n : Nat) : (sampleLibraries n).data.length = 32 + 32 * n := by
  simp [sampleLibraries, sampleMachO, Bytes.encodeFields, length_sampleLibraryCommand]
  omega

theorem sampleLibraries_at {n k : Nat} (hk : k < n) :
    Bytes.At (sampleLibraries n).data (32 + 32 * k) sampleLibraryCommand := by
  obtain ⟨m, rfl⟩ : ∃ m, n = k + (m + 1) := ⟨n - k - 1, by omega⟩
  -- the commands before number `k` are an image of their own, but for the count in the header
  have hbefore : (sampleMachO 6 (k + (m + 1))
      (List.replicate k sampleLibraryCommand).flatten).length = 32 + 32 * k :=
    length_sampleLibraries k
  have hdata : (sampleLibraries (k + (m + 1))).data
      = sampleMachO 6 (k + (m + 1)) (List.replicate k sampleLibraryCommand).flatten
        ++ (sampleLibraryCommand ++ (List.replicate m sampleLibraryCommand).flatten) := by
    rw [sampleLibraries, ← List.replicate_append_replicate, List.flatten_append,
      List.replicate_succ, List.flatten_cons, sampleMachO, sampleMachO, List.append_assoc]
  rw [hdata, Bytes.At, List.drop_left' hbefore]
  exact List.prefix_append _ _

/-- What is read of each of its commands. -/
theorem sampleLibraries_read {n k : Nat} (hk : k < n) (hn : n < 2 ^ 32) :
    (sampleLibraries n).loadCommand (32 + 32 * k) = some ⟨.lcLoadDylib, 32⟩ ∧
      ((sampleLibraries n).parseAlone true (.lcLoadDylib, 32 + 32 * k)).isOk = true := by
  have hat := sampleLibraries_at hk
  have hlen := length_sampleLibraries n
  simp only [sampleLibraryCommand, sampleDylibCommand, Bytes.at_append,
    Bytes.at_encodeFields_cons] at hat
  obtain ⟨⟨⟨hcmd, hsize, hoffset, -⟩, hname⟩, hnul⟩ := hat
  have hload : (sampleLibraries n).loadCommand (32 + 32 * k) = some ⟨.lcLoadDylib, 32⟩ := by
    have hcmd := Container.enum32_of_at (v := LoadCommandVariants.lcLoadDylib)
      (c := sampleLibraries n) hcmd (by decide)
    have hsize := Container.u32_of_at (c := sampleLibraries n) hsize (by decide)
    simp only [Container.loadCommand, hcmd, hsize, Option.bind_eq_bind, Option.bind_some,
      Option.pure_def]
  refine ⟨hload, ?_⟩
  have hdylib : (sampleLibraries n).dylibCommand (32 + 32 * k) = some ⟨24⟩ := by
    have hroom : (sampleLibraries n).room 24 (32 + 32 * k) = some () := if_pos (by omega)
    have hoffset := Container.u32_of_at (c := sampleLibraries n) hoffset (by decide)
    simp only [Container.dylibCommand, hroom, hload, hoffset, Option.bind_eq_bind,
      Option.bind_some, Option.pure_def]
  have hstring : (sampleLibraries n).deserializeStringAtOffset (32 + 32 * k + 24)
      = .ok sampleLibraryName := by
    refine Container.deserializeStringAtOffset_of_at (Bytes.at_append.mpr ⟨hname, ?_⟩) (by decide)
    have hzeros : List.replicate 6 0 = [0] ++ List.replicate 5 (0 : UInt8) := rfl
    rw [hzeros, Bytes.at_append] at hnul
    exact hnul.1
  obtain ⟨libraries, hpush⟩ :=
    ArrayVec.push_newArray (n := 64) (sampleLibraryName, 24) (by decide)
  have hparse : (sampleLibraries n).parseDylibCommand (32 + 32 * k) ArrayVec.newArray
      = .ok libraries := by
    rw [Container.parseDylibCommand, hdylib, Outcome.okOr_some, Outcome.ok_bind,
      Outcome.add_of_lt (by dsimp only; omega), Outcome.ok_bind, hstring, Outcome.ok_bind, hpush]
  exact Outcome.isOk_eq_true.mpr ⟨_, Outcome.bind_eq_ok.mpr ⟨libraries, hparse, rfl⟩⟩

theorem sampleLibraries_commandsAt {n : Nat} (hn : n < 2 ^ 32) : ∀ {m k : Nat}, k + m = n →
    (sampleLibraries n).commandsAt m (32 + 32 * k) = some (sampleLibrariesCommands k m) := by
  intro m
  induction m with
  | zero => exact fun _ => rfl
  | succ m ih =>
    intro k hk
    have hrest := ih (k := k + 1) (by omega)
    rw [Container.commandsAt, (sampleLibraries_read (by omega) hn).1, Option.bind_eq_bind,
      Option.bind_some, show 32 + 32 * k + 32 = 32 + 32 * (k + 1) by omega, hrest]
    rfl

theorem sampleLibraries_accepted {n : Nat} (hn : n < 2 ^ 32) :
    ∀ command ∈ sampleLibrariesCommands 0 n,
      ((sampleLibraries n).parseAlone true command).isOk = true := by
  intro command hmem
  obtain ⟨k, hk, rfl⟩ := List.mem_map.mp hmem
  exact (sampleLibraries_read (by simpa using hk) hn).2

theorem sampleLibraries_commandsReturn {n : Nat} (hn : n < 2 ^ 32) :
    CommandsReturn (sampleLibraries n) (sampleLibrariesHeader n)
      (sampleLibrariesCommands 0 n) where
  length_lt := by
    rw [length_sampleLibraries]
    omega
  header_eq := by
    have hat : Bytes.At (sampleLibraries n).data 0
        (Bytes.encodeFields .little (sampleLibrariesHeader n).fields) := List.prefix_append _ _
    have hfit : Bytes.FieldsFit (sampleLibrariesHeader n).fields := by
      simp only [Bytes.FieldsFit, MachHeader64.fields, sampleLibrariesHeader]
      exact ⟨by decide, by decide, by decide, by decide, hn, by decide, by decide, by decide,
        trivial⟩
    exact Container.machHeader64_of_at hfit hat
  commands_eq := sampleLibraries_commandsAt hn (Nat.zero_add n)
  returns := by
    intro isDylib hkind command hmem
    obtain rfl : true = isDylib := Outcome.ok.inj hkind
    exact .inl (Outcome.isOk_eq_true.mp (sampleLibraries_accepted hn command hmem))

/-- None of its commands is refused. -/
theorem sampleLibraries_parsedCommands {n : Nat} (hn : n < 2 ^ 32) :
    parsedCommands (sampleLibraries n) (sampleLibrariesHeader n) (sampleLibrariesCommands 0 n)
      = sampleLibrariesCommands 0 n :=
  List.takeWhile_eq_self_iff.mpr (sampleLibraries_accepted hn)

/-- With 33 libraries the limit is reported. -/
theorem sampleLibraries_reported : CapacitiesReported (sampleLibraries 33) sampleNoCache
    (sampleLibrariesHeader 33) (sampleLibrariesCommands 0 33) := by
  refine (capacitiesReported_iff (sampleLibraries_commandsReturn (by decide))).mpr ?_
  rw [sampleLibraries_parsedCommands (by decide)]
  decide

/-- With 65 libraries the parser panics. -/
theorem sampleLibraries_panics :
    CommandsReturn (sampleLibraries 65) (sampleLibrariesHeader 65)
        (sampleLibrariesCommands 0 65) ∧
      ¬ (sampleLibraries 65).machoParser.Returns ∧
      ¬ CapacitiesReported (sampleLibraries 65) sampleNoCache (sampleLibrariesHeader 65)
        (sampleLibrariesCommands 0 65) := by
  have hreturn := sampleLibraries_commandsReturn (n := 65) (by decide)
  have hpanic : ¬ (sampleLibraries 65).machoParser.Returns := by
    rw [machoParser_returns_iff hreturn, sampleLibraries_parsedCommands (by decide)]
    decide
  exact ⟨hreturn, hpanic, fun h => hpanic (parseAndCollect_returns_iff.mp h.returns)⟩

end Dynld
