import Dynld.Proof.LoaderSteps
import Dynld.Proof.ParserCommands

/-!
# Library ordinals

The static linker numbers the libraries of an image by its dylib commands, of all five
kinds. The loader rebuilds the numbering from the commands the parser collects, and
those are three kinds. The loop that loads the dependencies keeps the order, so the
table is right exactly if there is no command of the other two.
-/

namespace Dynld

/-- The load commands that library ordinals count. -/
def isOrdinalCommand : LoadCommandVariants → Bool
  | .lcLoadDylib => true
  | .lcLoadWeakDylib => true
  | .lcReexportDylib => true
  | .lcLoadUpwardDylib => true
  | .lcLazyLoadDylib => true
  | _ => false

section

variable (host : Host) (cache : DyldSharedCache) (execDir : List UInt8)
  (load : MappedContainer → Option (List UInt8) → Exec World (Nat × Nat)) (rpath : Option Rpath)

/-- Load the library of this install name. -/
def loadByName (name : Str) : Exec World Library :=
  userDylibLoad host load execDir rpath (name, cache.isLibraryCached name.bytes)

/-- The library of each ordinal `k` is the one that was loaded, in the `k`-th turn from `w` on, for
the `k`-th name. -/
def OrdinalsFollow (names : List Str) (w : World) (dylibs : List Library) : Prop :=
  ∀ k, 1 ≤ k → k ≤ names.length → ∃ name library w₁ w₂,
    names[k - 1]? = some name ∧ dylibs[k - 1]? = some library ∧
    Exec.Runs (loadByName host cache execDir load rpath) (names.take (k - 1)) w
      (dylibs.take (k - 1)) w₁ ∧
    loadByName host cache execDir load rpath name w₁ = (.ok library, w₂)

end

variable {host : Host} {cache : DyldSharedCache} {execDir : List UInt8}
  {load : MappedContainer → Option (List UInt8) → Exec World (Nat × Nat)} {rpath : Option Rpath}
  {w w' : World} {dylibs : List Library}

/-- The turns of the loop are over the names of the image's libraries. -/
theorem userDylibsLoadRecursively_runs {parsedImage : ParsedImage}
    {dependencies : ArrayVec (Str × Bool) 32}
    (hcollect : dependenciesCollect parsedImage cache = .ok dependencies)
    (hload : userDylibsLoadRecursively host load execDir rpath dependencies.items w
      = (.ok dylibs, w')) :
    Exec.Runs (loadByName host cache execDir load rpath) (parsedImage.libraries.items.map (·.1)) w
      dylibs w' := by
  rw [userDylibsLoadRecursively, dependenciesCollect_eq_ok hcollect] at hload
  have hruns := Exec.each_eq_ok.mp hload
  exact Exec.Runs.of_map (f := userDylibLoad host load execDir rpath)
    (g := fun name : Str => (name, cache.isLibraryCached name.bytes)) hruns

theorem ordinalsFollow_of_runs {names : List Str}
    (h : Exec.Runs (loadByName host cache execDir load rpath) names w dylibs w') :
    OrdinalsFollow host cache execDir load rpath names w dylibs := by
  intro k hk hle
  have hlt : k - 1 < names.length := by omega
  obtain ⟨library, w₁, w₂, hlib, hbefore, hturn⟩ :=
    h.at_index (List.getElem?_eq_getElem hlt)
  exact ⟨_, library, w₁, w₂, List.getElem?_eq_getElem hlt, hlib, hbefore, hturn⟩

/-! ## Which commands are missed -/

theorem isOrdinalCommand_eq (cmd : LoadCommandVariants) :
    isOrdinalCommand cmd = true ↔ Container.isCollectedDylibCommand cmd = true ∨
      cmd = .lcReexportDylib ∨ cmd = .lcLoadUpwardDylib := by
  cases cmd <;> decide

variable {c : Container} {commands : List (LoadCommandVariants × Nat)}

theorem installNames_length {p : LoadCommandVariants → Bool} :
    ∀ {commands : List (LoadCommandVariants × Nat)} {names : List Str},
      c.installNames p commands = .ok names →
        names.length = (commands.countP fun command => p command.1) := by
  intro commands
  induction commands with
  | nil =>
    intro names h
    obtain rfl := Outcome.ok.inj h
    rfl
  | cons head rest ih =>
    intro names h
    obtain ⟨cmd, offset⟩ := head
    unfold Container.installNames at h
    split at h
    · rename_i hp
      obtain ⟨name, -, h⟩ := Outcome.bind_eq_ok.mp h
      obtain ⟨names', hrest, h⟩ := Outcome.bind_eq_ok.mp h
      obtain rfl := Outcome.ok.inj h
      rw [List.length_cons, ih hrest, List.countP_cons_of_pos (by exact hp)]
    · rename_i hp
      rw [ih h, List.countP_cons_of_neg (by exact hp)]

/-- Without missed commands the parser collects the names of all dylib commands. -/
theorem installNames_congr {p q : LoadCommandVariants → Bool}
    (h : ∀ command ∈ commands, p command.1 = q command.1) :
    c.installNames p commands = c.installNames q commands := by
  induction commands with
  | nil => rfl
  | cons command rest ih =>
      have hrest := ih fun command' hmem => h command' (List.mem_cons_of_mem command hmem)
      rw [Container.installNames, Container.installNames, h command List.mem_cons_self, hrest]

/-- A missed command is one that ordinals count and the parser does not. -/
theorem countP_lt_of_missed {command : LoadCommandVariants × Nat} (hmem : command ∈ commands)
    (hmissed : command.1 = .lcReexportDylib ∨ command.1 = .lcLoadUpwardDylib) :
    (commands.countP fun command => Container.isCollectedDylibCommand command.1)
      < (commands.countP fun command => isOrdinalCommand command.1) := by
  obtain ⟨before, after, rfl⟩ := List.append_of_mem hmem
  have hmono : ∀ l : List (LoadCommandVariants × Nat),
      (l.countP fun command => Container.isCollectedDylibCommand command.1)
        ≤ (l.countP fun command => isOrdinalCommand command.1) := fun l =>
    List.countP_mono_left fun command _ hc => (isOrdinalCommand_eq command.1).mpr (.inl hc)
  have hcounted : isOrdinalCommand command.1 = true :=
    (isOrdinalCommand_eq command.1).mpr (.inr hmissed)
  have hskipped : ¬ Container.isCollectedDylibCommand command.1 = true := by
    rcases hmissed with h | h <;> rw [h] <;> decide
  have hbefore := hmono before
  have hafter := hmono after
  rw [List.countP_append, List.countP_append, List.countP_cons_of_neg (by exact hskipped),
    List.countP_cons_of_pos (by exact hcounted)]
  omega

/-- **Ordinals follow the load commands exactly if the image has no `LC_REEXPORT_DYLIB` and no
`LC_LOAD_UPWARD_DYLIB`.** -/
theorem ordinalsFollow_iff {parsedImage : ParsedImage} {dependencies : ArrayVec (Str × Bool) 32}
    {names : List Str} (hparse : c.machoParser = .ok parsedImage)
    (hcommands : c.loadCommands = some commands)
    (hnames : c.installNames isOrdinalCommand commands = .ok names)
    (hcollect : dependenciesCollect parsedImage cache = .ok dependencies)
    (hload : userDylibsLoadRecursively host load execDir rpath dependencies.items w
      = (.ok dylibs, w')) :
    OrdinalsFollow host cache execDir load rpath names w dylibs ↔
      ∀ command ∈ commands,
        command.1 ≠ .lcReexportDylib ∧ command.1 ≠ .lcLoadUpwardDylib := by
  obtain ⟨commands', hcommands', -, hcollected⟩ := Container.machoParser_tables hparse
  obtain rfl : commands = commands' := Option.some.inj (hcommands.symm.trans hcommands')
  have hruns := userDylibsLoadRecursively_runs hcollect hload
  constructor
  · intro hfollow command hmem
    -- with a missed command the last ordinal is past the end of the table
    have hnone : ¬ (command.1 = .lcReexportDylib ∨ command.1 = .lcLoadUpwardDylib) := by
      intro hmissed
      have hlt := countP_lt_of_missed hmem hmissed
      rw [← installNames_length hcollected, ← installNames_length hnames,
        ← hruns.length_eq] at hlt
      obtain ⟨_, library, _, _, -, hlib, -, -⟩ := hfollow names.length (by omega) (Nat.le_refl _)
      rw [List.getElem?_eq_none (by omega)] at hlib
      exact absurd hlib (by simp)
    exact ⟨fun h => hnone (.inl h), fun h => hnone (.inr h)⟩
  · intro hnone
    have hsame : c.installNames isOrdinalCommand commands
        = c.installNames Container.isCollectedDylibCommand commands := by
      refine installNames_congr fun command hmem => ?_
      obtain ⟨hreexport, hupward⟩ := hnone command hmem
      have hiff := isOrdinalCommand_eq command.1
      simp only [hreexport, hupward, or_false] at hiff
      exact Bool.eq_iff_iff.mpr hiff
    have he : names = parsedImage.libraries.items.map (·.1) :=
      Outcome.ok.inj ((hnames.symm.trans hsame).trans hcollected)
    rw [he]
    exact ordinalsFollow_of_runs hruns

/-! ## A dylib that re-exports its first library -/

/-- Its first library is named by the command `cmd`, its second by an `LC_LOAD_DYLIB`. -/
def sampleOrdinals (cmd : Nat) : Container :=
  ⟨sampleMachO 6 2 (sampleDylibCommand cmd "/r" ++ sampleDylibCommand 0xc "/s"), .little⟩

/-- A cache with both libraries. -/
def sampleOrdinalsCache : DyldSharedCache where
  subCaches := []
  libraries := [⟨0, 0, ascii "/r", 0⟩, ⟨0, 0, ascii "/s", 0⟩]
  cacheSlide := 0

def sampleNameR : Str := ⟨ascii "/r", by decide +kernel⟩

def sampleNameS : Str := ⟨ascii "/s", by decide +kernel⟩

/-- What is parsed, with these libraries. -/
def sampleOrdinalsParsed (libraries : ArrayVec (Str × Nat) 64) : ParsedImage :=
  { Container.parsedImageNew true with libraries }

/-- With an `LC_REEXPORT_DYLIB` command ordinal 1 is the library of ordinal 2. -/
theorem sampleOrdinals_shifted :
    ∃ (dependencies : ArrayVec (Str × Bool) 32) (dylibs : List Library),
      (sampleOrdinals 0x8000001f).machoParser
        = .ok (sampleOrdinalsParsed ⟨[(sampleNameS, 24)], by decide⟩) ∧
      (sampleOrdinals 0x8000001f).loadCommands
        = some [(.lcReexportDylib, 32), (.lcLoadDylib, 64)] ∧
      (sampleOrdinals 0x8000001f).installNames isOrdinalCommand
        [(.lcReexportDylib, 32), (.lcLoadDylib, 64)] = .ok [sampleNameR, sampleNameS] ∧
      dependenciesCollect (sampleOrdinalsParsed ⟨[(sampleNameS, 24)], by decide⟩)
        sampleOrdinalsCache = .ok dependencies ∧
      userDylibsLoadRecursively (sampleHost fun _ => none)
        (machoLoader (sampleHost fun _ => none) sampleOrdinalsCache [] 1) [] none
        dependencies.items (sampleWorld []) = (.ok dylibs, sampleWorld []) ∧
      ¬ OrdinalsFollow (sampleHost fun _ => none) sampleOrdinalsCache []
        (machoLoader (sampleHost fun _ => none) sampleOrdinalsCache [] 1) none
        [sampleNameR, sampleNameS] (sampleWorld []) dylibs := by
  refine ⟨⟨[(sampleNameS, true)], by decide⟩, [.system sampleNameS], by decide +kernel,
    by decide +kernel, by decide +kernel, by decide +kernel, rfl, ?_⟩
  intro hfollow
  obtain ⟨name, library, w₁, w₂, hname, hlib, -, hturn⟩ :=
    hfollow 1 (Nat.le_refl _) (by decide)
  obtain rfl : sampleNameR = name := Option.some.inj hname
  obtain rfl : .system sampleNameS = library := Option.some.inj hlib
  -- the turn for `/r` gives `/r`
  have hcached : sampleOrdinalsCache.isLibraryCached sampleNameR.bytes = true := by decide +kernel
  rw [loadByName, hcached] at hturn
  have hlibrary := Outcome.ok.inj (Prod.mk.inj hturn).1
  exact absurd hlibrary (by decide +kernel)

/-- With an `LC_LAZY_LOAD_DYLIB` command in its place the ordinals follow. -/
theorem sampleOrdinals_follow :
    OrdinalsFollow (sampleHost fun _ => none) sampleOrdinalsCache []
        (machoLoader (sampleHost fun _ => none) sampleOrdinalsCache [] 1) none
        [sampleNameR, sampleNameS] (sampleWorld [])
        [.system sampleNameR, .system sampleNameS] ↔
      ∀ command ∈ [(LoadCommandVariants.lcLazyLoadDylib, 32), (.lcLoadDylib, 64)],
        command.1 ≠ .lcReexportDylib ∧ command.1 ≠ .lcLoadUpwardDylib := by
  have hparse : (sampleOrdinals 0x20).machoParser = .ok (sampleOrdinalsParsed
      ⟨[(sampleNameR, 24), (sampleNameS, 24)], by decide⟩) := by decide +kernel
  have hcommands : (sampleOrdinals 0x20).loadCommands
      = some [(.lcLazyLoadDylib, 32), (.lcLoadDylib, 64)] := by decide +kernel
  have hnames : (sampleOrdinals 0x20).installNames isOrdinalCommand
      [(.lcLazyLoadDylib, 32), (.lcLoadDylib, 64)] = .ok [sampleNameR, sampleNameS] := by
    decide +kernel
  have hcollect : dependenciesCollect (sampleOrdinalsParsed
        ⟨[(sampleNameR, 24), (sampleNameS, 24)], by decide⟩) sampleOrdinalsCache
      = .ok ⟨[(sampleNameR, true), (sampleNameS, true)], by decide⟩ := by decide +kernel
  have hload : userDylibsLoadRecursively (sampleHost fun _ => none)
        (machoLoader (sampleHost fun _ => none) sampleOrdinalsCache [] 1) [] none
        [(sampleNameR, true), (sampleNameS, true)] (sampleWorld [])
      = (.ok [.system sampleNameR, .system sampleNameS], sampleWorld []) := rfl
  exact ordinalsFollow_iff hparse hcommands hnames hcollect hload

end Dynld
