import Dynld.MachoParser

/-!
# What the parser keeps of each load command

The parser is one loop over the load commands. `loadCommands` lists them, and a parse
that returns has run `parseCommand` over that list (`machoParser_eq_ok`). Each command
adds at most one segment and at most one library, so both tables follow the list.
-/

namespace Dynld

/-- What is kept of a segment command. -/
def SegmentCommand64.toSegment (seg : SegmentCommand64) : Segment :=
  { fileOffset := seg.fileoff, vmAddr := seg.vmaddr, vmSize := seg.vmsize, prot := seg.initprot }

namespace Container

/-- The load commands from `offset` on, each with the offset it is at. -/
def commandsAt (c : Container) : Nat → Nat → Option (List (LoadCommandVariants × Nat))
  | 0, _ => some []
  | n + 1, offset => do
      let lc ← c.loadCommand offset
      let rest ← c.commandsAt n (offset + lc.cmdsize)
      return (lc.cmd, offset) :: rest

/-- Every load command of the image. -/
def loadCommands (c : Container) : Option (List (LoadCommandVariants × Nat)) := do
  let header ← c.machHeader64 0
  c.commandsAt header.ncmds MachHeader64.size

/-- Parse commands in order. -/
def parseEach (c : Container) :
    List (LoadCommandVariants × Nat) → ParsedImage → Outcome ParsedImage
  | [], parsed => .ok parsed
  | (cmd, offset) :: rest, parsed => do
      let parsed ← c.parseCommand cmd offset parsed
      c.parseEach rest parsed

variable {c : Container} {parsed parsed' : ParsedImage}

theorem parseCommands_eq_ok : ∀ {n offset : Nat} {parsed parsed' : ParsedImage},
    c.parseCommands n offset parsed = .ok parsed' →
      ∃ commands, c.commandsAt n offset = some commands ∧
        c.parseEach commands parsed = .ok parsed' := by
  intro n
  induction n with
  | zero =>
    intro _ _ _ h
    exact ⟨[], rfl, h⟩
  | succ n ih =>
    intro offset parsed parsed' h
    obtain ⟨lc, hlc, h⟩ := Outcome.bind_eq_ok.mp h
    obtain ⟨mid, hmid, h⟩ := Outcome.bind_eq_ok.mp h
    obtain ⟨next, hnext, h⟩ := Outcome.bind_eq_ok.mp h
    obtain ⟨commands, hrest, hparse⟩ := ih h
    have hlc := Outcome.okOr_eq_ok.mp hlc
    rw [(Outcome.add_eq_ok.mp hnext).2] at hrest
    refine ⟨(lc.cmd, offset) :: commands, ?_, ?_⟩
    · rw [commandsAt, hlc, Option.bind_eq_bind, Option.bind_some, hrest]
      rfl
    · rw [parseEach, hmid, Outcome.ok_bind, hparse]

/-- **A parse that returns has gone through every load command**, in order. -/
theorem machoParser_eq_ok (h : c.machoParser = .ok parsed) :
    ∃ commands isDylib, c.loadCommands = some commands ∧
      c.parseEach commands (parsedImageNew isDylib) = .ok parsed := by
  obtain ⟨header, hheader, h⟩ := Outcome.bind_eq_ok.mp h
  obtain ⟨isDylib, -, h⟩ := Outcome.bind_eq_ok.mp h
  obtain ⟨commands, hcommands, hparse⟩ := parseCommands_eq_ok h
  refine ⟨commands, isDylib, ?_, hparse⟩
  rw [loadCommands, Outcome.okOr_eq_ok.mp hheader]
  exact hcommands

/-! ## Segments and libraries -/

/-- The segment commands among some load commands. -/
def segmentCommandsOf (c : Container) (commands : List (LoadCommandVariants × Nat)) :
    List SegmentCommand64 :=
  commands.filterMap fun command =>
    if command.1 = .lcSegment64 then c.segmentCommand64 command.2 else none

/-- The install name of the dylib command at an offset. -/
def installNameAt (c : Container) (offset : Nat) : Outcome Str := do
  let dylib ← Outcome.okOr (c.dylibCommand offset)
    "could not parse a dylib_command in the inner arm64 image"
  c.deserializeStringAtOffset (offset + dylib.nameOffset)

/-- The install names of the dylib commands that satisfy `p`, in order. -/
def installNames (c : Container) (p : LoadCommandVariants → Bool) :
    List (LoadCommandVariants × Nat) → Outcome (List Str)
  | [] => .ok []
  | (cmd, offset) :: rest =>
      if p cmd then do
        let name ← c.installNameAt offset
        let names ← c.installNames p rest
        .ok (name :: names)
      else c.installNames p rest

theorem parseDylibCommand_eq_ok {offset : Nat} {libraries libraries' : ArrayVec (Str × Nat) 64}
    (h : c.parseDylibCommand offset libraries = .ok libraries') :
    ∃ dylib name, c.dylibCommand offset = some dylib ∧
      c.deserializeStringAtOffset (offset + dylib.nameOffset) = .ok name ∧
      libraries'.items = libraries.items ++ [(name, dylib.nameOffset)] := by
  obtain ⟨dylib, hdylib, h⟩ := Outcome.bind_eq_ok.mp h
  obtain ⟨nameOffset, hadd, h⟩ := Outcome.bind_eq_ok.mp h
  obtain ⟨name, hname, hpush⟩ := Outcome.bind_eq_ok.mp h
  rw [(Outcome.add_eq_ok.mp hadd).2] at hname
  exact ⟨dylib, name, Outcome.okOr_eq_ok.mp hdylib, hname, ArrayVec.push_eq_ok hpush⟩

theorem parseSegment_eq_ok {offset : Nat} (h : c.parseSegment offset parsed = .ok parsed') :
    (∃ seg, c.segmentCommand64 offset = some seg ∧
      parsed'.segments.items = parsed.segments.items ++ [seg.toSegment]) ∧
    parsed'.libraries = parsed.libraries := by
  obtain ⟨seg, hseg, h⟩ := Outcome.bind_eq_ok.mp h
  obtain ⟨found, -, h⟩ := Outcome.bind_eq_ok.mp h
  obtain ⟨segments, hpush, h⟩ := Outcome.bind_eq_ok.mp h
  injection h with h
  rw [← h]
  exact ⟨⟨seg, Outcome.okOr_eq_ok.mp hseg, ArrayVec.push_eq_ok hpush⟩, rfl⟩

theorem parseCommand_dylib {cmd : LoadCommandVariants} {offset : Nat}
    (hdylib : isCollectedDylibCommand cmd = true)
    (h : c.parseCommand cmd offset parsed = .ok parsed') :
    ∃ libraries, c.parseDylibCommand offset parsed.libraries = .ok libraries ∧
      parsed' = { parsed with libraries } := by
  unfold parseCommand at h
  rw [if_pos hdylib] at h
  obtain ⟨libraries, hparse, h⟩ := Outcome.bind_eq_ok.mp h
  injection h with h
  exact ⟨libraries, hparse, h.symm⟩

/-- Every other command leaves both tables alone. -/
theorem parseCommand_other {cmd : LoadCommandVariants} {offset : Nat}
    (hdylib : isCollectedDylibCommand cmd = false) (hseg : cmd ≠ .lcSegment64)
    (h : c.parseCommand cmd offset parsed = .ok parsed') :
    parsed'.segments = parsed.segments ∧ parsed'.libraries = parsed.libraries := by
  unfold parseCommand at h
  rw [if_neg (by rw [hdylib]; decide)] at h
  split at h
  · obtain ⟨entryPoint, -, h⟩ := Outcome.bind_eq_ok.mp h
    injection h with h
    rw [← h]
    exact ⟨rfl, rfl⟩
  · obtain ⟨symbols, -, h⟩ := Outcome.bind_eq_ok.mp h
    injection h with h
    rw [← h]
    exact ⟨rfl, rfl⟩
  · exact absurd rfl hseg
  · obtain ⟨fixups, -, h⟩ := Outcome.bind_eq_ok.mp h
    injection h with h
    rw [← h]
    exact ⟨rfl, rfl⟩
  · obtain ⟨rpath, -, h⟩ := Outcome.bind_eq_ok.mp h
    injection h with h
    rw [← h]
    exact ⟨rfl, rfl⟩
  · injection h with h
    rw [← h]
    exact ⟨rfl, rfl⟩

/-- What the table of segments gains from a command. -/
theorem parseCommand_segments {cmd : LoadCommandVariants} {offset : Nat}
    (h : c.parseCommand cmd offset parsed = .ok parsed') :
    parsed'.segments.items = parsed.segments.items
      ++ (c.segmentCommandsOf [(cmd, offset)]).map SegmentCommand64.toSegment := by
  by_cases hseg : cmd = .lcSegment64
  · subst hseg
    obtain ⟨⟨seg, hread, hitems⟩, -⟩ := parseSegment_eq_ok h
    simp [segmentCommandsOf, hread, hitems]
  · have hnone : c.segmentCommandsOf [(cmd, offset)] = [] := by simp [segmentCommandsOf, hseg]
    rw [hnone, List.map_nil, List.append_nil]
    by_cases hdylib : isCollectedDylibCommand cmd = true
    · obtain ⟨libraries, -, h⟩ := parseCommand_dylib hdylib h
      rw [h]
    · rw [(parseCommand_other (by simpa using hdylib) hseg h).1]

/-- What the table of libraries gains from a command. -/
theorem parseCommand_libraries {cmd : LoadCommandVariants} {offset : Nat}
    (h : c.parseCommand cmd offset parsed = .ok parsed') :
    ∃ names, c.installNames isCollectedDylibCommand [(cmd, offset)] = .ok names ∧
      parsed'.libraries.items.map (·.1) = parsed.libraries.items.map (·.1) ++ names := by
  by_cases hdylib : isCollectedDylibCommand cmd = true
  · obtain ⟨libraries, hparse, h⟩ := parseCommand_dylib hdylib h
    obtain ⟨dylib, name, hcommand, hname, hitems⟩ := parseDylibCommand_eq_ok hparse
    refine ⟨[name], ?_, by rw [h]; simp [hitems]⟩
    simp [installNames, hdylib, installNameAt, hcommand, hname]
  · have hnone : c.installNames isCollectedDylibCommand [(cmd, offset)] = .ok [] := by
      simp [installNames, hdylib]
    refine ⟨[], hnone, ?_⟩
    rw [List.append_nil]
    by_cases hseg : cmd = .lcSegment64
    · subst hseg
      rw [(parseSegment_eq_ok h).2]
    · rw [(parseCommand_other (by simpa using hdylib) hseg h).2]

/-- The names of one command after another. -/
theorem installNames_cons {p : LoadCommandVariants → Bool} {command : LoadCommandVariants × Nat}
    {rest : List (LoadCommandVariants × Nat)} {names names' : List Str}
    (h : c.installNames p [command] = .ok names) (h' : c.installNames p rest = .ok names') :
    c.installNames p (command :: rest) = .ok (names ++ names') := by
  by_cases hp : p command.1 = true
  · rw [installNames, if_pos hp] at h ⊢
    obtain ⟨name, hname, h⟩ := Outcome.bind_eq_ok.mp h
    have hnames : [name] = names := by simpa [installNames] using h
    rw [hname, Outcome.ok_bind, h', ← hnames]
    rfl
  · rw [installNames, if_neg hp] at h ⊢
    have hnames : [] = names := by simpa [installNames] using h
    rw [h', ← hnames]
    rfl

theorem parseEach_tables : ∀ {commands : List (LoadCommandVariants × Nat)}
    {parsed parsed' : ParsedImage}, c.parseEach commands parsed = .ok parsed' →
      parsed'.segments.items = parsed.segments.items
        ++ (c.segmentCommandsOf commands).map SegmentCommand64.toSegment ∧
      ∃ names, c.installNames isCollectedDylibCommand commands = .ok names ∧
        parsed'.libraries.items.map (·.1) = parsed.libraries.items.map (·.1) ++ names := by
  intro commands
  induction commands with
  | nil =>
    intro parsed parsed' h
    injection h with h
    subst h
    exact ⟨by simp [segmentCommandsOf], [], rfl, by simp⟩
  | cons command rest ih =>
    intro parsed parsed' h
    obtain ⟨mid, hmid, h⟩ := Outcome.bind_eq_ok.mp h
    obtain ⟨hsegs, names', hnames', hlibs'⟩ := ih h
    obtain ⟨names, hnames, hlibs⟩ := parseCommand_libraries hmid
    refine ⟨?_, names ++ names', installNames_cons hnames hnames', ?_⟩
    · have hsplit : c.segmentCommandsOf (command :: rest)
          = c.segmentCommandsOf [command] ++ c.segmentCommandsOf rest := by
        rw [segmentCommandsOf, ← List.singleton_append, List.filterMap_append]
        rfl
      rw [hsegs, parseCommand_segments hmid, hsplit, List.map_append, List.append_assoc]
    · rw [hlibs', hlibs, List.append_assoc]

/-- **The tables of a parsed image**: its segments are those of the `LC_SEGMENT_64` commands,
and its libraries those of the collected dylib commands, in order. -/
theorem machoParser_tables (h : c.machoParser = .ok parsed) :
    ∃ commands, c.loadCommands = some commands ∧
      parsed.segments.items
        = (c.segmentCommandsOf commands).map SegmentCommand64.toSegment ∧
      c.installNames isCollectedDylibCommand commands
        = .ok (parsed.libraries.items.map (·.1)) := by
  obtain ⟨commands, isDylib, hcommands, hparse⟩ := machoParser_eq_ok h
  obtain ⟨hsegs, names, hnames, hlibs⟩ := parseEach_tables hparse
  refine ⟨commands, hcommands, hsegs, ?_⟩
  rw [hnames, hlibs]
  rfl

/-! ## Initializers -/

/-- The `n` words from `offset` on. -/
def wordsAt (c : Container) : Nat → Nat → Option (List Nat)
  | 0, _ => some []
  | n + 1, offset => do
      let word ← c.u32 offset
      let rest ← c.wordsAt n (offset + 4)
      return word :: rest

/-- The `n` section headers from `offset` on. -/
def sectionsAt (c : Container) : Nat → Nat → Option (List Section64)
  | 0, _ => some []
  | n + 1, offset => do
      let sect ← c.section64 offset
      let rest ← c.sectionsAt n (offset + Section64.structSize)
      return sect :: rest

/-- The initializers of a section, in file order. -/
def sectionInitFuncs (c : Container) (sect : Section64) : Option (List Nat) :=
  if sect.flags &&& sectionType = sInitFuncOffsets then
    c.wordsAt ((sect.size % 2 ^ 32 + 3) / 4) sect.offset
  else some []

/-- The initializers of some sections, section by section. -/
def sectionsInitFuncs (c : Container) : List Section64 → Option (List Nat)
  | [] => some []
  | sect :: rest => do
      let own ← c.sectionInitFuncs sect
      let more ← c.sectionsInitFuncs rest
      return own ++ more

/-- The initializers of the segment command at an offset. -/
def segmentInitFuncs (c : Container) (offset : Nat) : Option (List Nat) := do
  let seg ← c.segmentCommand64 offset
  if segText <+: seg.segname ∨ segData <+: seg.segname then do
    let sections ← c.sectionsAt seg.nsects (offset + SegmentCommand64.size)
    c.sectionsInitFuncs sections
  else some []

/-- The initializers of a load command: those of its segment, if it is one. -/
def commandInitFuncs (c : Container) (cmd : LoadCommandVariants) (offset : Nat) :
    Option (List Nat) :=
  if cmd = .lcSegment64 then c.segmentInitFuncs offset else some []

/-- The initializers of the segments among some load commands, segment by segment. -/
def initFuncsOf (c : Container) : List (LoadCommandVariants × Nat) → Option (List Nat)
  | [] => some []
  | (cmd, offset) :: rest => do
      let own ← c.commandInitFuncs cmd offset
      let more ← c.initFuncsOf rest
      return own ++ more

theorem initFuncOffsetsLoop_eq_ok : ∀ {n cursor : Nat} {initFunctions initFunctions' : List Nat},
    c.initFuncOffsetsLoop n cursor initFunctions = .ok initFunctions' →
      ∃ words, c.wordsAt n cursor = some words ∧ initFunctions' = initFunctions ++ words := by
  intro n
  induction n with
  | zero =>
    intro _ _ _ h
    exact ⟨[], rfl, by rw [List.append_nil]; exact (Outcome.ok.inj h).symm⟩
  | succ n ih =>
    intro cursor initFunctions initFunctions' h
    obtain ⟨func, hfunc, h⟩ := Outcome.bind_eq_ok.mp h
    obtain ⟨cursor', hadd, h⟩ := Outcome.bind_eq_ok.mp h
    rw [(Outcome.add_eq_ok.mp hadd).2] at h
    obtain ⟨words, hwords, h⟩ := ih h
    refine ⟨func :: words, ?_, by rw [h, List.append_assoc]; rfl⟩
    rw [wordsAt, Outcome.okOr_eq_ok.mp hfunc, Option.bind_eq_bind, Option.bind_some, hwords]
    rfl

theorem scanSection_eq_ok {sectionOff : Nat} {found found' : List Nat × Bool}
    (h : c.scanSection sectionOff found = .ok found') :
    ∃ sect funcs, c.section64 sectionOff = some sect ∧ c.sectionInitFuncs sect = some funcs ∧
      found'.1 = found.1 ++ funcs := by
  obtain ⟨initFunctions, hasThreadLocals⟩ := found
  obtain ⟨sect, hsect, h⟩ := Outcome.bind_eq_ok.mp h
  have hsect := Outcome.okOr_eq_ok.mp hsect
  split at h
  · rename_i hinit
    obtain ⟨initFunctions', hread, h⟩ := Outcome.bind_eq_ok.mp h
    obtain ⟨_, -, hloop⟩ := Outcome.bind_eq_ok.mp hread
    obtain ⟨words, hwords, happend⟩ := initFuncOffsetsLoop_eq_ok hloop
    refine ⟨sect, words, hsect, ?_, by rw [← Outcome.ok.inj h]; exact happend⟩
    rw [sectionInitFuncs, if_pos hinit]
    exact hwords
  · rename_i hinit
    refine ⟨sect, [], hsect, if_neg hinit, ?_⟩
    split at h
    · rw [← Outcome.ok.inj h, List.append_nil]
    · rw [← Outcome.ok.inj h, List.append_nil]

theorem sectionsLoop_eq_ok : ∀ {n sectionOff : Nat} {found found' : List Nat × Bool},
    c.sectionsLoop n sectionOff found = .ok found' →
      ∃ sections funcs, c.sectionsAt n sectionOff = some sections ∧
        c.sectionsInitFuncs sections = some funcs ∧ found'.1 = found.1 ++ funcs := by
  intro n
  induction n with
  | zero =>
    intro _ _ _ h
    exact ⟨[], [], rfl, rfl, by rw [List.append_nil, Outcome.ok.inj h]⟩
  | succ n ih =>
    intro sectionOff found found' h
    obtain ⟨mid, hscan, h⟩ := Outcome.bind_eq_ok.mp h
    obtain ⟨sect, own, hsect, hown, hmid⟩ := scanSection_eq_ok hscan
    obtain ⟨sections, more, hsections, hmore, hfound⟩ := ih h
    refine ⟨sect :: sections, own ++ more, ?_, ?_, by rw [hfound, hmid, List.append_assoc]⟩
    · rw [sectionsAt, hsect, Option.bind_eq_bind, Option.bind_some, hsections]
      rfl
    · rw [sectionsInitFuncs, hown, Option.bind_eq_bind, Option.bind_some, hmore]
      rfl

theorem parseSegment_initFunctions {offset : Nat} (h : c.parseSegment offset parsed = .ok parsed') :
    ∃ funcs, c.segmentInitFuncs offset = some funcs ∧
      parsed'.initFunctions = parsed.initFunctions ++ funcs := by
  obtain ⟨seg, hseg, h⟩ := Outcome.bind_eq_ok.mp h
  obtain ⟨found, hscan, h⟩ := Outcome.bind_eq_ok.mp h
  obtain ⟨segments, -, h⟩ := Outcome.bind_eq_ok.mp h
  have hfound : parsed'.initFunctions = found.1 := by rw [← Outcome.ok.inj h]
  have hseg := Outcome.okOr_eq_ok.mp hseg
  unfold segmentScan at hscan
  split at hscan
  · rename_i hname
    obtain ⟨sections, funcs, hsections, hfuncs, happend⟩ := sectionsLoop_eq_ok hscan
    refine ⟨funcs, ?_, by rw [hfound, happend]⟩
    rw [segmentInitFuncs, hseg, Option.bind_eq_bind, Option.bind_some, if_pos hname, hsections]
    exact hfuncs
  · rename_i hname
    refine ⟨[], ?_, by rw [hfound, ← Outcome.ok.inj hscan, List.append_nil]⟩
    rw [segmentInitFuncs, hseg, Option.bind_eq_bind, Option.bind_some, if_neg hname]

/-- A command that is no segment has no initializers. -/
theorem parseCommand_initFunctions {cmd : LoadCommandVariants} {offset : Nat}
    (hseg : cmd ≠ .lcSegment64) (h : c.parseCommand cmd offset parsed = .ok parsed') :
    parsed'.initFunctions = parsed.initFunctions := by
  by_cases hdylib : isCollectedDylibCommand cmd = true
  · obtain ⟨libraries, -, h⟩ := parseCommand_dylib hdylib h
    rw [h]
  · unfold parseCommand at h
    rw [if_neg hdylib] at h
    split at h
    · obtain ⟨entryPoint, -, h⟩ := Outcome.bind_eq_ok.mp h
      rw [← Outcome.ok.inj h]
    · obtain ⟨symbols, -, h⟩ := Outcome.bind_eq_ok.mp h
      rw [← Outcome.ok.inj h]
    · exact absurd rfl hseg
    · obtain ⟨fixups, -, h⟩ := Outcome.bind_eq_ok.mp h
      rw [← Outcome.ok.inj h]
    · obtain ⟨rpath, -, h⟩ := Outcome.bind_eq_ok.mp h
      rw [← Outcome.ok.inj h]
    · rw [← Outcome.ok.inj h]

theorem parseEach_initFunctions : ∀ {commands : List (LoadCommandVariants × Nat)}
    {parsed parsed' : ParsedImage}, c.parseEach commands parsed = .ok parsed' →
      ∃ funcs, c.initFuncsOf commands = some funcs ∧
        parsed'.initFunctions = parsed.initFunctions ++ funcs := by
  intro commands
  induction commands with
  | nil =>
    intro parsed parsed' h
    exact ⟨[], rfl, by rw [List.append_nil, Outcome.ok.inj h]⟩
  | cons head rest ih =>
    intro parsed parsed' h
    obtain ⟨cmd, offset⟩ := head
    obtain ⟨mid, hmid, h⟩ := Outcome.bind_eq_ok.mp h
    obtain ⟨more, hmore, hparsed'⟩ := ih h
    obtain ⟨own, hown, hmid⟩ : ∃ own, c.commandInitFuncs cmd offset = some own ∧
        mid.initFunctions = parsed.initFunctions ++ own := by
      by_cases hseg : cmd = .lcSegment64
      · subst hseg
        obtain ⟨own, hown, happend⟩ := parseSegment_initFunctions hmid
        exact ⟨own, (if_pos rfl).trans hown, happend⟩
      · exact ⟨[], if_neg hseg, by rw [parseCommand_initFunctions hseg hmid, List.append_nil]⟩
    refine ⟨own ++ more, ?_, by rw [hparsed', hmid, List.append_assoc]⟩
    rw [initFuncsOf, hown, Option.bind_eq_bind, Option.bind_some, hmore]
    rfl

/-- **The initializers of a parsed image** are those of its sections, in section and file order. -/
theorem machoParser_initFunctions (h : c.machoParser = .ok parsed) :
    ∃ commands, c.loadCommands = some commands ∧
      c.initFuncsOf commands = some parsed.initFunctions := by
  obtain ⟨commands, isDylib, hcommands, hparse⟩ := machoParser_eq_ok h
  obtain ⟨funcs, hfuncs, hparsed⟩ := parseEach_initFunctions hparse
  refine ⟨commands, hcommands, ?_⟩
  rw [hfuncs, hparsed]
  rfl

end Container

end Dynld
