import Dynld.Dylib
import Dynld.Proof.LoadCommandWalks
import Dynld.Proof.ReexportOrdinals
import Dynld.Proof.SharedCacheLookup
import Dynld.Proof.SubcacheIndex
import Mathlib.Data.List.Forall2

/-!
# A dylib on disk and in the cache

Of a dylib, a lookup only reads the exports trie and the install names of the
dependencies. `DylibImage` is these two, and `answer` is what they say of a symbol.

A file has the trie at the offset that a load command gives. In the cache that offset is
one in another file, and the bytes are where `__LINKEDIT` says they are mapped. Once the
bytes are there, the lookup in either place is `answer`. A trie of no bytes need not be
anywhere: an umbrella has one, and the lookup in the cache may fail on it.
-/

namespace Dynld

/-- What the lookups read of a dylib. -/
structure DylibImage where
  trie : List UInt8
  /-- The install names of the dependencies, each with the kind of its load command. -/
  dependencies : List (LoadCommandVariants × List UInt8)
  deriving DecidableEq, Repr

namespace DylibImage

/-- The dependency that the ordinal of a re-export stands for: two kinds are counted, from one. -/
def dependencyAt (d : DylibImage) : Nat → Option (List UInt8)
  | 0 => none
  | i + 1 => (d.dependencies.filter fun dependency => isDylibDependencyCommand dependency.1)[i]?.map
      Prod.snd

/-- The libraries that are re-exported as a whole. -/
def umbrella (d : DylibImage) : List (List UInt8) :=
  (d.dependencies.filter fun dependency => dependency.1 = .lcReexportDylib).map Prod.snd

/-- What the dylib itself says of a symbol. -/
def answer (d : DylibImage) (symbol : List UInt8) : Outcome (Option DylibSymbol) := do
  match ← exportsTrieWalkForSymbol d.trie symbol with
  | none => .ok none
  | some (.definedHere offsetFromMachHeader) => .ok (some (.defined offsetFromMachHeader))
  | some (.reexportedFromDependency dependencyOrdinal aliasedName) =>
      .ok ((d.dependencyAt dependencyOrdinal).map fun target =>
        .reexported target (if aliasedName = [] then symbol else aliasedName))

/-- A trie of no bytes says nothing. -/
theorem answer_of_empty {d : DylibImage} (h : d.trie = []) (symbol : List UInt8) :
    d.answer symbol = .ok none := by
  rw [answer, h]
  rfl

theorem answer_eq_defined_iff {d : DylibImage} {symbol : List UInt8} {offset : Nat} :
    d.answer symbol = .ok (some (.defined offset)) ↔
      exportsTrieWalkForSymbol d.trie symbol = .ok (some (.definedHere offset)) := by
  constructor
  · intro h
    obtain ⟨terminal, hwalk, h⟩ := Outcome.bind_eq_ok.mp h
    cases terminal with
    | none => exact absurd h (by simp)
    | some terminal =>
        cases terminal with
        | definedHere offset' =>
            obtain rfl : offset' = offset := by simpa using h
            exact hwalk
        | reexportedFromDependency ordinal aliasedName =>
            obtain ⟨target, -, h⟩ := Option.map_eq_some_iff.mp (Outcome.ok.inj h)
            exact absurd h (by simp)
  · intro h
    rw [answer, h]
    rfl

theorem answer_eq_reexported_iff {d : DylibImage} {symbol target targetSymbol : List UInt8} :
    d.answer symbol = .ok (some (.reexported target targetSymbol)) ↔
      ∃ ordinal aliasedName, exportsTrieWalkForSymbol d.trie symbol
          = .ok (some (.reexportedFromDependency ordinal aliasedName)) ∧
        d.dependencyAt ordinal = some target ∧
        targetSymbol = if aliasedName = [] then symbol else aliasedName := by
  constructor
  · intro h
    obtain ⟨terminal, hwalk, h⟩ := Outcome.bind_eq_ok.mp h
    cases terminal with
    | none => exact absurd h (by simp)
    | some terminal =>
        cases terminal with
        | definedHere offset => exact absurd h (by simp)
        | reexportedFromDependency ordinal aliasedName =>
            obtain ⟨target', htarget, h⟩ := Option.map_eq_some_iff.mp (Outcome.ok.inj h)
            obtain ⟨rfl, rfl⟩ := DylibSymbol.reexported.inj h
            exact ⟨ordinal, aliasedName, hwalk, htarget, rfl⟩
  · rintro ⟨ordinal, aliasedName, hwalk, htarget, rfl⟩
    rw [answer, hwalk, Outcome.ok_bind]
    dsimp only
    rw [htarget]
    rfl

end DylibImage

/-! ## Related lists and options -/

theorem exists_of_rel_some_left {α β : Type} {R : α → β → Prop} {a : α} {other : Option β}
    (h : Option.Rel R (some a) other) : ∃ b, other = some b ∧ R a b := by
  cases h with
  | some hrel => exact ⟨_, rfl, hrel⟩

theorem exists_of_rel_some_right {α β : Type} {R : α → β → Prop} {other : Option α} {b : β}
    (h : Option.Rel R other (some b)) : ∃ a, other = some a ∧ R a b := by
  cases h with
  | some hrel => exact ⟨_, rfl, hrel⟩

theorem forall₂_getElem? {α β : Type} {R : α → β → Prop} {l : List α} {m : List β}
    (h : List.Forall₂ R l m) (i : Nat) : Option.Rel R l[i]? m[i]? := by
  induction h generalizing i with
  | nil => exact .none
  | cons hrel _ ih =>
    cases i with
    | zero => exact .some hrel
    | succ i => exact ih i

/-! ## Load commands in a list

Where the load commands can be listed, a visitor goes through the list. -/

section Visitors

variable {σ T : Type} {visit : σ → LoadCommandVariants → Nat → Outcome (Option T × σ)}

theorem loadCommandsFindLoop_eq_visitEach {c : Container} (hlen : c.data.length < 2 ^ 63) :
    ∀ {n commandOffset : Nat} {commands : List (LoadCommandVariants × Nat)} {s : σ},
      c.commandsAt n commandOffset = some commands →
      loadCommandsFindLoop c visit n commandOffset s
        = CommandWalk.visitEach visit commands s := by
  intro n
  induction n with
  | zero =>
    intro commandOffset commands s h
    obtain rfl := Option.some.inj h
    rfl
  | succ n ih =>
    intro commandOffset commands s h
    obtain ⟨lc, hlc, h⟩ := Option.bind_eq_some_iff.mp h
    obtain ⟨rest, hrest, h⟩ := Option.bind_eq_some_iff.mp h
    obtain rfl := Option.some.inj h
    rw [loadCommandsFindLoop, hlc, Outcome.okOr_some, Outcome.ok_bind, CommandWalk.visitEach]
    refine congrArg _ (funext fun visited => ?_)
    obtain ⟨found, s'⟩ := visited
    cases found with
    | some t => rfl
    | none =>
        dsimp only
        rw [loadCommand_add hlen hlc, Outcome.ok_bind]
        exact ih hrest

/-- The first command that something is found at decides. -/
theorem visitEach_of_first {before after : List (LoadCommandVariants × Nat)}
    {command : LoadCommandVariants × Nat} {s s' : σ} {t : T}
    (hbefore : ∀ other ∈ before, visit s other.1 other.2 = .ok (none, s))
    (h : visit s command.1 command.2 = .ok (some t, s')) :
    CommandWalk.visitEach visit (before ++ command :: after) s = .ok (some t, s') := by
  induction before with
  | nil =>
    rw [List.nil_append, CommandWalk.visitEach, h]
    rfl
  | cons other before ih =>
    rw [List.cons_append, CommandWalk.visitEach, hbefore other List.mem_cons_self]
    exact ih fun other' hmem => hbefore other' (List.mem_cons_of_mem other hmem)

theorem visitEach_of_none {commands : List (LoadCommandVariants × Nat)} {s : σ}
    (h : ∀ command ∈ commands, visit s command.1 command.2 = .ok (none, s)) :
    CommandWalk.visitEach visit commands s = .ok (none, s) := by
  induction commands with
  | nil => rfl
  | cons command commands ih =>
    rw [CommandWalk.visitEach, h command List.mem_cons_self]
    exact ih fun other hmem => h other (List.mem_cons_of_mem command hmem)

end Visitors

/-! ## What the load commands say -/

/-- The commands that tell where the exports trie is. -/
def isTrieCommand : LoadCommandVariants → Bool
  | .lcDyldExportsTrie => true
  | .lcDyldInfoOnly => true
  | _ => false

/-- Where the exports trie is, by this load command. -/
inductive TrieSpanAt (c : Container) : LoadCommandVariants × Nat → ExportsTrieSpan → Prop where
  | exportsTrie {commandOffset : Nat} {cmd : LinkeditDataCommand} :
      c.linkeditDataCommand commandOffset = some cmd →
      TrieSpanAt c (.lcDyldExportsTrie, commandOffset) ⟨cmd.dataoff, cmd.datasize⟩
  | infoOnly {commandOffset : Nat} {cmd : DyldInfoCommand} :
      c.dyldInfoCommand commandOffset = some cmd →
      TrieSpanAt c (.lcDyldInfoOnly, commandOffset) ⟨cmd.exportOff, cmd.exportSize⟩

/-- The first of these load commands, if there is one, tells where the trie is. -/
inductive HasTrieSpan (c : Container) (commands : List (LoadCommandVariants × Nat)) :
    Option ExportsTrieSpan → Prop where
  | missing : (∀ command ∈ commands, isTrieCommand command.1 = false) →
      HasTrieSpan c commands none
  | first {before after : List (LoadCommandVariants × Nat)}
      {command : LoadCommandVariants × Nat} {span : ExportsTrieSpan} :
      commands = before ++ command :: after →
      (∀ other ∈ before, isTrieCommand other.1 = false) → TrieSpanAt c command span →
      HasTrieSpan c commands (some span)

/-- The segment `__LINKEDIT`, the first one of this name. -/
inductive HasLinkedit (c : Container) (commands : List (LoadCommandVariants × Nat)) :
    LinkeditSegment → Prop where
  | first {before after : List (LoadCommandVariants × Nat)} {commandOffset : Nat}
      {seg : SegmentCommand64} :
      commands = before ++ (.lcSegment64, commandOffset) :: after →
      (∀ other ∈ before, other.1 = .lcSegment64 → ∃ seg,
        c.segmentCommand64 other.2 = some seg ∧ seg.segname.take 10 ≠ ascii "__LINKEDIT") →
      c.segmentCommand64 commandOffset = some seg → seg.segname.take 10 = ascii "__LINKEDIT" →
      HasLinkedit c commands ⟨seg.vmaddr, seg.fileoff⟩

/-- The load commands of an image name the dependencies of the dylib, and its trie has the size that
they give. -/
structure DylibImage.Describes (d : DylibImage) (image : MachOImage)
    (commands : List (LoadCommandVariants × Nat)) (span : Option ExportsTrieSpan) : Prop where
  length_lt : image.container.data.length < 2 ^ 63
  commands_eq : ∃ header, image.container.machHeader64 image.machHeaderOffset = some header ∧
    image.container.commandsAt header.ncmds (image.machHeaderOffset + MachHeader64.size)
      = some commands
  dependencies : List.Forall₂ (fun command dependency => command.1 = dependency.1 ∧
    image.HasInstallName command.2 dependency.2) (dependencyCommands commands) d.dependencies
  span_eq : HasTrieSpan image.container commands span
  size_eq : (span.map ExportsTrieSpan.sizeInBytes).getD 0 = d.trie.length

/-- What `reexported_dylib_paths_collect` does at each load command. -/
def MachOImage.reexportsVisit (image : MachOImage) (paths : List (List UInt8))
    (cmd : LoadCommandVariants) (commandOffset : Nat) :
    Outcome (Option Unit × List (List UInt8)) :=
  if cmd = .lcReexportDylib then
    match image.dylibInstallNameRead commandOffset with
    | .ok path => .ok (none, paths ++ [path])
    | .err _ => .ok (none, paths)
    | .panic msg => .panic msg
    | .outOfFuel => .outOfFuel
  else .ok (none, paths)

namespace DylibImage.Describes

variable {d : DylibImage} {image : MachOImage} {commands : List (LoadCommandVariants × Nat)}
  {span : Option ExportsTrieSpan}

theorem loadCommandsFind_eq {σ T : Type}
    {visit : σ → LoadCommandVariants → Nat → Outcome (Option T × σ)}
    (h : d.Describes image commands span) (s : σ) :
    image.loadCommandsFind visit s = CommandWalk.visitEach visit commands s := by
  obtain ⟨header, hheader, hcommands⟩ := h.commands_eq
  have hlen := h.length_lt
  have hoffset : image.machHeaderOffset + 4 ≤ image.container.data.length := by
    obtain ⟨magic, hmagic, -⟩ := Option.bind_eq_some_iff.mp hheader
    obtain ⟨word, hword, -⟩ := Option.bind_eq_some_iff.mp hmagic
    exact (Bytes.wordAt_bound hword).1
  have hadd : Outcome.add 64 image.machHeaderOffset MachHeader64.size
      = .ok (image.machHeaderOffset + MachHeader64.size) :=
    Outcome.add_of_lt (by rw [MachHeader64.size]; omega)
  rw [MachOImage.loadCommandsFind, MachOImage.machHeaderRead, hheader, Outcome.okOr_some,
    Outcome.ok_bind, hadd, Outcome.ok_bind, loadCommandsFindLoop_eq_visitEach hlen hcommands]

theorem exportsTrieSpanFind_eq (h : d.Describes image commands span) :
    image.exportsTrieSpanFind = .ok span := by
  rw [MachOImage.exportsTrieSpanFind, h.loadCommandsFind_eq]
  cases h.span_eq with
  | missing hnone =>
      refine Outcome.bind_eq_ok.mpr ⟨(none, ()), visitEach_of_none fun command hmem => ?_, rfl⟩
      have hcommand := hnone command hmem
      obtain ⟨cmd, commandOffset⟩ := command
      cases cmd <;> first | rfl | exact absurd hcommand Bool.noConfusion
  | @first before after command span hcommands hbefore hspan =>
      rw [hcommands]
      refine Outcome.bind_eq_ok.mpr ⟨(some span, ()),
        visitEach_of_first (fun command hmem => ?_) ?_, rfl⟩
      · have hcommand := hbefore command hmem
        obtain ⟨cmd, commandOffset⟩ := command
        cases cmd <;> first | rfl | exact absurd hcommand Bool.noConfusion
      · cases hspan with
        | exportsTrie hcmd =>
            dsimp only
            rw [hcmd]
            rfl
        | infoOnly hcmd =>
            dsimp only
            rw [hcmd]
            rfl

theorem linkeditSegmentFind_eq {linkedit : LinkeditSegment} (h : d.Describes image commands span)
    (hlinkedit : HasLinkedit image.container commands linkedit) :
    image.linkeditSegmentFind = .ok (some linkedit) := by
  rw [MachOImage.linkeditSegmentFind, h.loadCommandsFind_eq]
  cases hlinkedit with
  | @first before after commandOffset seg hcommands hbefore hseg hname =>
      rw [hcommands]
      refine Outcome.bind_eq_ok.mpr ⟨(some ⟨seg.vmaddr, seg.fileoff⟩, ()),
        visitEach_of_first (fun command hmem => ?_) ?_, rfl⟩
      · have hother := hbefore command hmem
        obtain ⟨cmd, offset⟩ := command
        by_cases hcmd : cmd = .lcSegment64
        · -- a segment of another name
          obtain ⟨other, hread, hnot⟩ := hother hcmd
          subst hcmd
          dsimp only at hread ⊢
          rw [hread, Outcome.okOr_some, Outcome.ok_bind, if_neg hnot]
        · cases cmd <;> first | rfl | exact absurd rfl hcmd
      · dsimp only
        rw [hseg, Outcome.okOr_some, Outcome.ok_bind, if_pos hname]

/-! ## Dependencies -/

theorem named (h : d.Describes image commands span) :
    image.DependenciesNamed commands (d.dependencies.map Prod.snd) where
  length_lt := h.length_lt
  commands_eq := h.commands_eq
  length_eq := by rw [List.length_map, h.dependencies.length_eq]
  name_at j command name hj hname := by
    rw [List.getElem?_map] at hname
    obtain ⟨dependency, hdependency, rfl⟩ := Option.map_eq_some_iff.mp hname
    have hrel := forall₂_getElem? h.dependencies j
    rw [hj, hdependency] at hrel
    cases hrel with
    | some hrel => exact hrel.2

/-- The dependencies of some kinds are those of the load commands of these kinds. -/
theorem filter (h : d.Describes image commands span) (p : LoadCommandVariants → Bool) :
    List.Forall₂ (fun command dependency => command.1 = dependency.1 ∧
        image.HasInstallName command.2 dependency.2)
      ((dependencyCommands commands).filter fun command => p command.1)
      (d.dependencies.filter fun dependency => p dependency.1) :=
  List.rel_filter (fun _ _ hrel => iff_of_eq (congrArg (p · = true) hrel.1)) h.dependencies

/-- No dependency has the ordinal zero. -/
theorem visitEach_installPathVisit_zero :
    ∀ (commands : List (LoadCommandVariants × Nat)) (seen : Nat), ∃ seen',
      CommandWalk.visitEach (image.installPathVisit 0) commands seen = .ok (none, seen') := by
  intro commands
  induction commands with
  | nil => exact fun seen => ⟨seen, rfl⟩
  | cons command commands ih =>
    intro seen
    rw [CommandWalk.visitEach, MachOImage.installPathVisit]
    by_cases hcounted : isDylibDependencyCommand command.1 = true
    · rw [if_pos hcounted, if_neg (Nat.succ_ne_zero seen), Outcome.ok_bind]
      exact ih (seen + 1)
    · rw [if_neg hcounted, Outcome.ok_bind]
      exact ih seen

theorem dylibInstallPathForOrdinal_eq (h : d.Describes image commands span) (ordinal : Nat) :
    image.dylibInstallPathForOrdinal ordinal = .ok (d.dependencyAt ordinal) := by
  cases ordinal with
  | zero =>
      have hfind : image.dylibInstallPathForOrdinal 0
          = image.loadCommandsFind (image.installPathVisit 0) 0 >>= fun r => .ok r.1 := rfl
      obtain ⟨seen, hvisit⟩ := @visitEach_installPathVisit_zero image commands 0
      rw [hfind, h.loadCommandsFind_eq, hvisit]
      rfl
  | succ i =>
      have hrel := forall₂_getElem? (h.filter isDylibDependencyCommand) i
      rw [← countedCommands_eq] at hrel
      rw [MachOImage.dylibInstallPathForOrdinal_eq h.named (Nat.succ_pos i), Nat.succ_sub_one,
        DylibImage.dependencyAt, MachOImage.nameReadAt]
      generalize (countedCommands commands)[i]? = command at hrel ⊢
      generalize (d.dependencies.filter fun dependency =>
        isDylibDependencyCommand dependency.1)[i]? = dependency at hrel ⊢
      cases hrel with
      | none => rfl
      | some hrel =>
          dsimp only
          rw [MachOImage.dylibInstallNameRead_of_name h.length_lt hrel.2]
          rfl

/-- The names of the re-exported libraries are collected in their order. -/
theorem visitEach_reexportsVisit (hlen : image.container.data.length < 2 ^ 63) :
    ∀ {commands : List (LoadCommandVariants × Nat)}
      {reexports : List (LoadCommandVariants × List UInt8)} {paths : List (List UInt8)},
      List.Forall₂ (fun command dependency => command.1 = dependency.1 ∧
          image.HasInstallName command.2 dependency.2)
        (commands.filter fun command => command.1 = .lcReexportDylib) reexports →
      CommandWalk.visitEach image.reexportsVisit commands paths
        = .ok (none, paths ++ reexports.map Prod.snd) := by
  intro commands
  induction commands with
  | nil =>
    intro reexports paths h
    cases h
    rw [List.map_nil, List.append_nil]
    rfl
  | cons command commands ih =>
    intro reexports paths h
    rw [CommandWalk.visitEach, MachOImage.reexportsVisit]
    by_cases hcmd : command.1 = .lcReexportDylib
    · rw [List.filter_cons_of_pos (by simpa using hcmd)] at h
      cases h with
      | cons hrel hrest =>
          rw [if_pos hcmd, MachOImage.dylibInstallNameRead_of_name hlen hrel.2, List.map_cons,
            List.append_cons]
          exact ih hrest
    · rw [List.filter_cons_of_neg (by simpa using hcmd)] at h
      rw [if_neg hcmd]
      exact ih h

theorem reexportedDylibPathsCollect_eq (h : d.Describes image commands span) :
    image.reexportedDylibPathsCollect = .ok d.umbrella := by
  have hfind : image.reexportedDylibPathsCollect
      = image.loadCommandsFind image.reexportsVisit [] >>= fun r => .ok r.2 := rfl
  have hfilter : ((dependencyCommands commands).filter fun command =>
      command.1 = .lcReexportDylib) = commands.filter fun command =>
        command.1 = .lcReexportDylib := by
    rw [dependencyCommands, List.filter_filter]
    refine List.filter_congr fun command _ => ?_
    by_cases hcmd : command.1 = .lcReexportDylib
    · rw [hcmd]
      rfl
    · rw [decide_eq_false hcmd]
      rfl
  have hrel := h.filter fun cmd => cmd = .lcReexportDylib
  rw [hfilter] at hrel
  rw [hfind, h.loadCommandsFind_eq, visitEach_reexportsVisit h.length_lt hrel]
  rfl

end DylibImage.Describes

/-! ## The lookup on disk -/

/-- A file with the dylib: its load commands describe it, and its trie is at the span. -/
structure DylibImage.OnDisk (d : DylibImage) (container : Container) : Prop where
  image : ∃ commands span, d.Describes ⟨container, 0⟩ commands span ∧
    ∀ s, span = some s → d.trie ≠ [] →
      container.slice s.fileOffset s.sizeInBytes = some d.trie

theorem slice_zero {container : Container} {offset : Nat} {bytes : List UInt8}
    (h : container.slice offset 0 = some bytes) : bytes = [] := by
  rw [(Container.slice_eq_some h).2.2, List.take_zero]

/-- **The lookup on disk** is what the dylib says. -/
theorem DylibImage.OnDisk.dylibSymbolResolve_eq {d : DylibImage} {container : Container}
    (h : d.OnDisk container) (symbol : List UInt8) :
    dylibSymbolResolve container symbol = d.answer symbol := by
  obtain ⟨commands, span, hdescribes, htrie⟩ := h.image
  have hsize := hdescribes.size_eq
  rw [dylibSymbolResolve, hdescribes.exportsTrieSpanFind_eq, Outcome.ok_bind]
  cases span with
  | none => rw [answer_of_empty (List.eq_nil_of_length_eq_zero hsize.symm)]
  | some s =>
      have hsize : s.sizeInBytes = d.trie.length := hsize
      dsimp only
      by_cases hempty : d.trie = []
      · -- no bytes say nothing, wherever they are
        rw [answer_of_empty hempty, hsize, hempty]
        cases hslice : container.slice s.fileOffset ([] : List UInt8).length with
        | none => rfl
        | some bytes =>
            obtain rfl := slice_zero hslice
            rfl
      · rw [htrie s rfl hempty]
        show (exportsTrieWalkForSymbol d.trie symbol >>= _)
          = (exportsTrieWalkForSymbol d.trie symbol >>= _)
        refine congrArg _ (funext fun terminal => ?_)
        cases terminal with
        | none => rfl
        | some terminal =>
            cases terminal with
            | definedHere offset => rfl
            | reexportedFromDependency ordinal aliasedName =>
                dsimp only
                rw [hdescribes.dylibInstallPathForOrdinal_eq, Outcome.ok_bind]
                cases d.dependencyAt ordinal <;> rfl

/-! ## The lookup in the cache -/

namespace DyldSharedCache

/-- The first subcache with a mapping of this address has it at this offset. -/
structure LocatedAt (cache : DyldSharedCache) (address : Nat) (subcacheIndex : Nat)
    (subcache : DyldSharedSubCache) (offset : Nat) : Prop where
  subcache_eq : cache.subCaches[subcacheIndex]? = some subcache
  offset_eq : subcache.runtimeOffsetForVmAddress address = .ok (some offset)
  first : ∀ i < subcacheIndex, ∀ before, cache.subCaches[i]? = some before →
    before.runtimeOffsetForVmAddress address = .ok none

/-- The cache has a library: the load commands of its image describe the dylib, and the bytes of its
trie are mapped as far behind the start of `__LINKEDIT` as they are in the file. -/
structure HasImage (cache : DyldSharedCache) (library : SharedCacheLibrary) (d : DylibImage) :
    Prop where
  image : ∃ subcache commands span, cache.subCaches[library.subCacheIndex]? = some subcache ∧
    d.Describes ⟨subcache.container, library.machHeaderRuntimeOffset⟩ commands span ∧
    ∀ s, span = some s → d.trie ≠ [] →
      ∃ linkedit address host hostIndex offset,
        HasLinkedit subcache.container commands linkedit ∧
        linkedit.vmaddr + s.fileOffset = address + linkedit.fileoff ∧
        linkedit.vmaddr ≤ address ∧ address < 2 ^ 64 ∧ hostIndex < 256 ∧
        cache.LocatedAt address hostIndex host offset ∧
        host.container.slice offset s.sizeInBytes = some d.trie

variable {cache : DyldSharedCache} {library : SharedCacheLibrary} {d : DylibImage}
  {symbol : List UInt8}

theorem LocatedAt.locate_eq {address hostIndex offset : Nat} {host : DyldSharedSubCache}
    (h : cache.LocatedAt address hostIndex host offset) :
    cache.subcacheAndOffsetLocateFromAddr address = .ok (some (hostIndex % 256, offset)) := by
  have hloop := @subcacheLocateLoop_of_first address offset host cache.subCaches 0 hostIndex
    h.subcache_eq h.offset_eq h.first
  rw [Nat.zero_add] at hloop
  exact hloop

/-- What the search for the trie returns, if it returns, and what is said of the image. -/
structure TrieFoundIn (cache : DyldSharedCache) (library : SharedCacheLibrary) (d : DylibImage)
    (image : MachOImage) : Prop where
  view : cache.imageViewForLibrary library = .ok image
  ordinals : ∀ ordinal, image.dylibInstallPathForOrdinal ordinal = .ok (d.dependencyAt ordinal)
  umbrella : image.reexportedDylibPathsCollect = .ok d.umbrella
  trie : d.trie ≠ [] → cache.exportsTrieBytesFind image = .ok (some d.trie)
  empty : d.trie = [] → ∀ found, cache.exportsTrieBytesFind image = .ok found →
    found = none ∨ found = some []

theorem HasImage.trieFoundIn (h : cache.HasImage library d) :
    ∃ image, cache.TrieFoundIn library d image := by
  obtain ⟨subcache, commands, span, hsubcache, hdescribes, hmapped⟩ := h.image
  have hview : cache.imageViewForLibrary library
      = .ok ⟨subcache.container, library.machHeaderRuntimeOffset⟩ := by
    rw [imageViewForLibrary, subCacheAt, hsubcache, Outcome.orPanic_some, Outcome.ok_bind]
  have hspan := hdescribes.exportsTrieSpanFind_eq
  have hsize := hdescribes.size_eq
  refine ⟨_, hview, hdescribes.dylibInstallPathForOrdinal_eq,
    hdescribes.reexportedDylibPathsCollect_eq, fun hne => ?_, fun hempty found hfound => ?_⟩
  · cases span with
    | none => exact absurd (List.eq_nil_of_length_eq_zero hsize.symm) hne
    | some s =>
        obtain ⟨linkedit, address, host, hostIndex, offset, hlinkedit, hdistance, hle, hlt, hindex,
          hlocated, hslice⟩ := hmapped s rfl hne
        have hsub : Outcome.sub s.fileOffset linkedit.fileoff
            = .ok (s.fileOffset - linkedit.fileoff) := Outcome.sub_of_le (by omega)
        have haddress : linkedit.vmaddr + (s.fileOffset - linkedit.fileoff) = address := by omega
        rw [exportsTrieBytesFind, hspan, Outcome.ok_bind]
        dsimp only
        rw [hdescribes.linkeditSegmentFind_eq hlinkedit, Outcome.ok_bind]
        dsimp only
        rw [hsub, Outcome.ok_bind, Outcome.add_of_lt (haddress ▸ hlt), Outcome.ok_bind, haddress,
          hlocated.locate_eq, Nat.mod_eq_of_lt hindex, Outcome.ok_bind]
        dsimp only
        rw [subCacheAt, hlocated.subcache_eq, Outcome.orPanic_some, Outcome.ok_bind, hslice]
  · cases span with
    | none =>
        rw [exportsTrieBytesFind, hspan, Outcome.ok_bind] at hfound
        exact .inl (Outcome.ok.inj hfound).symm
    | some s =>
        have hzero : s.sizeInBytes = 0 := by
          rw [hempty] at hsize
          exact hsize
        rw [exportsTrieBytesFind, hspan, Outcome.ok_bind] at hfound
        obtain ⟨linkedit, -, hfound⟩ := Outcome.bind_eq_ok.mp hfound
        cases linkedit with
        | none => exact .inl (Outcome.ok.inj hfound).symm
        | some linkedit =>
            obtain ⟨distance, -, hfound⟩ := Outcome.bind_eq_ok.mp hfound
            obtain ⟨address, -, hfound⟩ := Outcome.bind_eq_ok.mp hfound
            obtain ⟨located, -, hfound⟩ := Outcome.bind_eq_ok.mp hfound
            cases located with
            | none => exact .inl (Outcome.ok.inj hfound).symm
            | some located =>
                obtain ⟨host, -, hfound⟩ := Outcome.bind_eq_ok.mp hfound
                rw [← Outcome.ok.inj hfound, hzero]
                cases hslice : host.container.slice located.2 0 with
                | none => exact .inl rfl
                | some bytes => exact .inr (congrArg some (slice_zero hslice))

/-- **The trie of a cached library** has the terminals that the dylib's trie has. -/
theorem TrieFoundIn.trieSays_iff {image image' : MachOImage} {terminal : ExportTerminal}
    (h : cache.TrieFoundIn library d image) :
    cache.TrieSays library image' symbol terminal ↔
      image' = image ∧ exportsTrieWalkForSymbol d.trie symbol = .ok (some terminal) := by
  have hview : cache.imageViewForLibrary library = .ok image' ↔ image' = image := by
    rw [h.view]
    exact ⟨fun heq => (Outcome.ok.inj heq).symm, fun heq => by rw [heq]⟩
  rw [TrieSays, hview]
  refine and_congr_right ?_
  rintro rfl
  by_cases hempty : d.trie = []
  · have hnone : exportsTrieWalkForSymbol [] symbol = .ok none := rfl
    rw [hempty, hnone]
    refine iff_of_false ?_ (by simp)
    rintro ⟨trieBytes, htrie, hwalk⟩
    rcases h.empty hempty _ htrie with hfound | hfound
    · exact absurd hfound (by simp)
    · obtain rfl := Option.some.inj hfound
      exact absurd (hnone.symm.trans hwalk) (by simp)
  · rw [h.trie hempty]
    constructor
    · rintro ⟨trieBytes, htrie, hwalk⟩
      obtain rfl := Option.some.inj (Outcome.ok.inj htrie)
      exact hwalk
    · exact fun hwalk => ⟨d.trie, rfl, hwalk⟩

/-- A re-export by its own name is followed. -/
theorem HasImage.followReexport_iff (h : cache.HasImage library d)
    {target targetSymbol : List UInt8} :
    cache.tryResolveViaExportsTrie library symbol
        = .ok (some (.followReexport target targetSymbol)) ↔
      d.answer symbol = .ok (some (.reexported target targetSymbol)) := by
  obtain ⟨image, himage⟩ := h.trieFoundIn
  rw [DylibImage.answer_eq_reexported_iff]
  constructor
  · intro hresolve
    obtain ⟨image', terminal, htrie, hterminal⟩ := tryResolveViaExportsTrie_eq_some hresolve
    obtain ⟨ordinal, aliasedName, rfl, hpath, hsymbol⟩ :=
      terminalResolve_eq_followReexport hterminal
    obtain ⟨rfl, hwalk⟩ := himage.trieSays_iff.mp htrie
    rw [himage.ordinals] at hpath
    exact ⟨ordinal, aliasedName, hwalk, Outcome.ok.inj hpath, hsymbol⟩
  · rintro ⟨ordinal, aliasedName, hwalk, htarget, rfl⟩
    rw [tryResolveViaExportsTrie_of_trieSays (himage.trieSays_iff.mpr ⟨rfl, hwalk⟩),
      terminalResolve, himage.ordinals, htarget]
    rfl

/-- Where the lookup goes on to the umbrella, the dylib itself says nothing. -/
theorem HasImage.answer_of_none (h : cache.HasImage library d)
    (hresolve : cache.tryResolveViaExportsTrie library symbol = .ok none) :
    d.answer symbol = .ok none := by
  obtain ⟨image, himage⟩ := h.trieFoundIn
  by_cases hempty : d.trie = []
  · exact DylibImage.answer_of_empty hempty symbol
  · rw [tryResolveViaExportsTrie, himage.view, Outcome.ok_bind, himage.trie hempty,
      Outcome.ok_bind] at hresolve
    obtain ⟨terminal, hwalk, hresolve⟩ := Outcome.bind_eq_ok.mp hresolve
    rw [DylibImage.answer, hwalk, Outcome.ok_bind]
    cases terminal with
    | none => rfl
    | some terminal =>
        cases terminal with
        | definedHere offset =>
            obtain ⟨unslid, -, hresolve⟩ := Outcome.bind_eq_ok.mp hresolve
            obtain ⟨address, -, hresolve⟩ := Outcome.bind_eq_ok.mp hresolve
            exact absurd hresolve (by simp)
        | reexportedFromDependency ordinal aliasedName =>
            dsimp only at hresolve ⊢
            rw [terminalResolve, himage.ordinals, Outcome.ok_bind] at hresolve
            cases htarget : d.dependencyAt ordinal with
            | none => rfl
            | some target =>
                rw [htarget] at hresolve
                exact absurd hresolve (by simp)

/-- And there it goes on to the umbrella, if it does not fail. -/
theorem HasImage.resolution_eq_none (h : cache.HasImage library d)
    (hanswer : d.answer symbol = .ok none) {resolution : Option TrieResolution}
    (hresolve : cache.tryResolveViaExportsTrie library symbol = .ok resolution) :
    resolution = none := by
  cases resolution with
  | none => rfl
  | some resolution =>
      cases resolution with
      | address a =>
          obtain ⟨image, himage⟩ := h.trieFoundIn
          obtain ⟨image', terminal, htrie, hterminal⟩ := tryResolveViaExportsTrie_eq_some hresolve
          obtain ⟨offset, rfl, -⟩ := terminalResolve_eq_address hterminal
          have hdefined := DylibImage.answer_eq_defined_iff.mpr (himage.trieSays_iff.mp htrie).2
          exact absurd (hanswer.symm.trans hdefined) (by simp)
      | followReexport target targetSymbol =>
          exact absurd (hanswer.symm.trans (h.followReexport_iff.mp hresolve)) (by simp)

theorem HasImage.umbrellaPaths_eq (h : cache.HasImage library d) :
    cache.umbrellaPaths library = .ok d.umbrella := by
  obtain ⟨image, himage⟩ := h.trieFoundIn
  rw [umbrellaPaths, himage.view, Outcome.ok_bind, himage.umbrella]

end DyldSharedCache

end Dynld
