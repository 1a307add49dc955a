import Dynld.Entrypoint
import Dynld.Proof.LoadTraces

/-!
# Path placeholders

`@executable_path` stands for the directory of the program, `@loader_path` for that of
the image which carries the load command; and `@rpath` for one of the two, if the run
path of that image says so. `user_dylib_disk_path_resolve` is told the directory of the
program only, and takes it for all of them. This is right for the program itself, and
for the dylibs that are in the same directory.
-/

namespace Dynld

open Chains (Reaches)

/-! ## Directories -/

theorem rfind_eq_none {b : UInt8} : ∀ {s : List UInt8}, b ∉ s → rfind b s = none := by
  intro s
  induction s with
  | nil => exact fun _ => rfl
  | cons c rest ih =>
    intro h
    have hc : ¬ c = b := fun hc => h (hc ▸ List.mem_cons_self)
    rw [rfind, ih fun hmem => h (List.mem_cons_of_mem c hmem)]
    exact if_neg hc

theorem rfind_append {b : UInt8} {t : List UInt8} (h : b ∉ t) :
    ∀ s : List UInt8, rfind b (s ++ b :: t) = some s.length := by
  intro s
  induction s with
  | nil =>
    rw [List.nil_append, rfind, rfind_eq_none h]
    exact if_pos rfl
  | cons c rest ih => rw [List.cons_append, rfind, ih, List.length_cons]

/-- The directory of a path is what stands before its last component. -/
theorem dirOf_append {dir name : List UInt8} (hname : pathSeparator ∉ name) (hdir : dir ≠ []) :
    dirOf (dir ++ pathSeparator :: name) = dir := by
  have hpos : dir.length ≠ 0 := fun h => hdir (List.length_eq_zero_iff.mp h)
  unfold dirOf
  rw [rfind_append hname]
  split
  · rename_i h
    exact absurd (Option.some.inj h) hpos
  · rename_i h
    rw [← Option.some.inj h, List.take_left]
  · rename_i h
    exact absurd h (by simp)

theorem rfind_lt {b : UInt8} : ∀ {s : List UInt8} {i : Nat}, rfind b s = some i → i < s.length := by
  intro s
  induction s with
  | nil => exact fun h => absurd h (by simp [rfind])
  | cons c rest ih =>
    intro i h
    rw [rfind] at h
    cases hrest : rfind b rest with
    | none =>
        rw [hrest] at h
        dsimp only at h
        split at h
        · rw [← Option.some.inj h]
          exact Nat.succ_pos _
        · exact absurd h (by simp)
    | some k =>
        rw [hrest] at h
        rw [← Option.some.inj h]
        exact Nat.succ_lt_succ (ih hrest)

theorem dirOf_ne_nil (path : List UInt8) : dirOf path ≠ [] := by
  unfold dirOf
  split
  · simp
  · rename_i i hne h
    intro hnil
    have hlen := congrArg List.length hnil
    have hlt := rfind_lt h
    rw [List.length_take, List.length_nil] at hlen
    have hpos : i ≠ 0 := hne
    omega
  · decide

/-- A file in a directory. -/
def inDir (dir rest : List UInt8) : List UInt8 := dir ++ ascii "/" ++ rest

/-- The file of an image. The path of a dylib ends in a NUL, and the program is where `argv[0]`
says. -/
def imageFile (execPath : List UInt8) : Option (List UInt8) → List UInt8
  | none => execPath
  | some path => path.dropLast

/-- A dylib that stands directly in the directory of the program has that directory. -/
theorem dirOf_imageFile_inDir {execPath name : List UInt8} (hname : pathSeparator ∉ name) :
    dirOf (imageFile execPath (some (inDir (dirOf execPath) name ++ [0]))) = dirOf execPath := by
  have hfile : imageFile execPath (some (inDir (dirOf execPath) name ++ [0]))
      = dirOf execPath ++ pathSeparator :: name := by
    rw [imageFile, List.dropLast_concat, inDir, List.append_assoc]
    rfl
  rw [hfile, dirOf_append hname (dirOf_ne_nil execPath)]

/-! ## What the placeholders stand for -/

/-- Where a dependency with one of the three placeholders should be looked for, by an image in
`dir`. -/
def placeholderExpected (execDir dir : List UInt8) (rpath : Option Rpath)
    (installName : List UInt8) : Option (List UInt8) :=
  match stripPrefix (ascii "@executable_path/") installName with
  | some rest => some (inDir execDir rest)
  | none =>
      match stripPrefix (ascii "@loader_path/") installName with
      | some rest => some (inDir dir rest)
      | none =>
          if rpath = some .loaderPath then
            (stripPrefix (ascii "@rpath/") installName).map (inDir dir)
          else none

/-- The name is to be looked for in the directory of the image that names it. -/
def UsesLoaderDir (rpath : Option Rpath) (installName : List UInt8) : Prop :=
  ascii "@loader_path/" <+: installName ∨
    (rpath = some .loaderPath ∧ ascii "@rpath/" <+: installName)

/-- What is opened for a dependency of an image is the file that its placeholder stands for. -/
def PlaceholderFollows (execPath : List UInt8) (image : Option (List UInt8))
    (rpath : Option Rpath) (name : Str) : Prop :=
  ∀ path, placeholderExpected (dirOf execPath) (dirOf (imageFile execPath image)) rpath name.bytes
      = some path →
    dependencyPath (dirOf execPath) rpath (name, false) = some (path ++ [0])

theorem inDir_inj {dir dir' rest : List UInt8} : inDir dir rest = inDir dir' rest ↔ dir = dir' := by
  rw [inDir, inDir, List.append_left_inj, List.append_left_inj]

theorem stripPrefix_append (p rest : List UInt8) : stripPrefix p (p ++ rest) = some rest := by
  rw [stripPrefix, if_pos (List.prefix_append p rest), List.drop_left]

theorem stripPrefix_of_not {p s : List UInt8} (h : ¬ p <+: s) : stripPrefix p s = none := if_neg h

/-- Of two placeholders a name has one at most. -/
theorem not_prefix_of_prefix {p q s : List UInt8} (hp : p <+: s) (hpq : ¬ p <+: q)
    (hqp : ¬ q <+: p) : ¬ q <+: s := by
  intro hq
  rcases List.prefix_or_prefix_of_prefix hp hq with h | h
  · exact hpq h
  · exact hqp h

section

variable {execPath : List UInt8} {image : Option (List UInt8)} {rpath : Option Rpath} {name : Str}

theorem placeholderFollows_iff_eq {resolved expected : List UInt8}
    (hresolved : placeholderResolve name.bytes rpath (dirOf execPath) = .ok resolved)
    (hexpected : placeholderExpected (dirOf execPath) (dirOf (imageFile execPath image)) rpath
      name.bytes = some expected) :
    PlaceholderFollows execPath image rpath name ↔ resolved = expected := by
  have hpath : dependencyPath (dirOf execPath) rpath (name, false) = some (resolved ++ [0]) :=
    dependencyPath_eq_some.mpr
      ⟨rfl, by rw [userDylibDiskPathResolve, hresolved, Outcome.ok_bind]⟩
  constructor
  · intro hfollows
    have heq := Option.some.inj (hpath.symm.trans (hfollows expected hexpected))
    exact List.append_left_inj [0] |>.mp heq
  · rintro rfl path hpath'
    obtain rfl := Option.some.inj (hexpected.symm.trans hpath')
    exact hpath

theorem placeholderFollows_of_none (hexpected : placeholderExpected (dirOf execPath)
      (dirOf (imageFile execPath image)) rpath name.bytes = none) :
    PlaceholderFollows execPath image rpath name := by
  intro path hpath
  exact absurd (hexpected.symm.trans hpath) (by simp)

theorem placeholderFollows_loaderPath (hname : ascii "@loader_path/" <+: name.bytes) :
    PlaceholderFollows execPath image rpath name ↔
      dirOf execPath = dirOf (imageFile execPath image) := by
  have hexec := not_prefix_of_prefix (q := ascii "@executable_path/") hname (by decide) (by decide)
  have hrpath := not_prefix_of_prefix (q := ascii "@rpath/") hname (by decide) (by decide)
  obtain ⟨rest, hrest⟩ := hname
  have hstrip : stripPrefix (ascii "@loader_path/") name.bytes = some rest := by
    rw [← hrest, stripPrefix_append]
  have hresolved : placeholderResolve name.bytes rpath (dirOf execPath)
      = .ok (inDir (dirOf execPath) rest) := by
    rw [placeholderResolve, stripPrefix_of_not hrpath, hstrip]
    rfl
  have hexpected : placeholderExpected (dirOf execPath) (dirOf (imageFile execPath image)) rpath
      name.bytes = some (inDir (dirOf (imageFile execPath image)) rest) := by
    rw [placeholderExpected, stripPrefix_of_not hexec, hstrip]
  rw [placeholderFollows_iff_eq hresolved hexpected, inDir_inj]

theorem placeholderFollows_rpath (hname : ascii "@rpath/" <+: name.bytes)
    (hpath : rpath = some .loaderPath) :
    PlaceholderFollows execPath image rpath name ↔
      dirOf execPath = dirOf (imageFile execPath image) := by
  have hexec := not_prefix_of_prefix (q := ascii "@executable_path/") hname (by decide) (by decide)
  have hloader := not_prefix_of_prefix (q := ascii "@loader_path/") hname (by decide) (by decide)
  obtain ⟨rest, hrest⟩ := hname
  have hstrip : stripPrefix (ascii "@rpath/") name.bytes = some rest := by
    rw [← hrest, stripPrefix_append]
  have hresolved : placeholderResolve name.bytes rpath (dirOf execPath)
      = .ok (inDir (dirOf execPath) rest) := by
    rw [placeholderResolve, hstrip, hpath]
    rfl
  have hexpected : placeholderExpected (dirOf execPath) (dirOf (imageFile execPath image)) rpath
      name.bytes = some (inDir (dirOf (imageFile execPath image)) rest) := by
    rw [placeholderExpected, stripPrefix_of_not hexec, stripPrefix_of_not hloader]
    dsimp only
    rw [if_pos hpath, hstrip, Option.map_some]
  rw [placeholderFollows_iff_eq hresolved hexpected, inDir_inj]

theorem placeholderFollows_executablePath (hname : ascii "@executable_path/" <+: name.bytes) :
    PlaceholderFollows execPath image rpath name := by
  have hrpath := not_prefix_of_prefix (q := ascii "@rpath/") hname (by decide) (by decide)
  have hloader := not_prefix_of_prefix (q := ascii "@loader_path/") hname (by decide) (by decide)
  obtain ⟨rest, hrest⟩ := hname
  have hstrip : stripPrefix (ascii "@executable_path/") name.bytes = some rest := by
    rw [← hrest, stripPrefix_append]
  have hresolved : placeholderResolve name.bytes rpath (dirOf execPath)
      = .ok (inDir (dirOf execPath) rest) := by
    rw [placeholderResolve, stripPrefix_of_not hrpath, stripPrefix_of_not hloader, hstrip]
    rfl
  have hexpected : placeholderExpected (dirOf execPath) (dirOf (imageFile execPath image)) rpath
      name.bytes = some (inDir (dirOf execPath) rest) := by
    rw [placeholderExpected, hstrip]
  exact (placeholderFollows_iff_eq hresolved hexpected).mpr rfl

/-- Nothing is expected of other names. -/
theorem placeholderExpected_eq_none {execDir dir installName : List UInt8}
    (hexec : ¬ ascii "@executable_path/" <+: installName)
    (hno : ¬ UsesLoaderDir rpath installName) :
    placeholderExpected execDir dir rpath installName = none := by
  have hloader : ¬ ascii "@loader_path/" <+: installName := fun h => hno (.inl h)
  rw [placeholderExpected, stripPrefix_of_not hexec, stripPrefix_of_not hloader]
  dsimp only
  split
  · rename_i hpath
    rw [stripPrefix_of_not fun h => hno (.inr ⟨hpath, h⟩), Option.map_none]
  · rfl

/-- **What is opened is the file that the placeholder stands for exactly if** the name does not ask
for the directory of the image that names it, or that is the directory of the program. -/
theorem placeholderFollows_iff :
    PlaceholderFollows execPath image rpath name ↔
      (UsesLoaderDir rpath name.bytes →
        dirOf (imageFile execPath image) = dirOf execPath) := by
  by_cases huses : UsesLoaderDir rpath name.bytes
  · rw [imp_iff_right huses, eq_comm]
    rcases huses with hname | ⟨hpath, hname⟩
    · exact placeholderFollows_loaderPath hname
    · exact placeholderFollows_rpath hname hpath
  · refine iff_of_true ?_ fun h => absurd h huses
    by_cases hexec : ascii "@executable_path/" <+: name.bytes
    · exact placeholderFollows_executablePath hexec
    · exact placeholderFollows_of_none (placeholderExpected_eq_none hexec huses)

end

/-! ## Every image of a load -/

section

variable (host : Host) (cache : DyldSharedCache) (execPath : List UInt8) (executable : Container)

/-- The run path of an image and its libraries, as the loader finds them. -/
def namedDependencies (image : Option (List UInt8)) : Option Rpath × List (Str × Bool) :=
  match imageAt host executable image with
  | none => (none, [])
  | some c =>
      match c.machoParser with
      | .ok parsedImage =>
          match dependenciesCollect parsedImage cache with
          | .ok dependencies => (parsedImage.rpath, dependencies.items)
          | _ => (none, [])
      | _ => (none, [])

/-- The image has this run path, and a library of this name that is no system library. -/
def NamedBy (image : Option (List UInt8)) (rpath : Option Rpath) (name : Str) : Prop :=
  rpath = (namedDependencies host cache executable image).1 ∧
    (name, false) ∈ (namedDependencies host cache executable image).2

/-- Where a dependency of an image should be on disk. -/
def expectedPath (image : Option (List UInt8)) (rpath : Option Rpath)
    (dependency : Str × Bool) : Option (List UInt8) :=
  if dependency.2 then none
  else
    match placeholderExpected (dirOf execPath) (dirOf (imageFile execPath image)) rpath
        dependency.1.bytes with
    | some path => some (path ++ [0])
    | none => dependencyPath (dirOf execPath) rpath dependency

/-- The images that should be loaded for an image, in order. -/
def expectedGraph (image : Option (List UInt8)) : List (Option (List UInt8)) :=
  let (rpath, dependencies) := namedDependencies host cache executable image
  (dependencies.filterMap (expectedPath execPath image rpath)).map some

end

variable {host : Host} {cache : DyldSharedCache} {execPath execDir : List UInt8}
  {executable : Container}

theorem dependencyGraph_eq (image : Option (List UInt8)) :
    dependencyGraph host cache execDir executable image
      = ((namedDependencies host cache executable image).2.filterMap
          (dependencyPath execDir (namedDependencies host cache executable image).1)).map some := by
  unfold dependencyGraph userDependencies namedDependencies
  cases hat : imageAt host executable image with
  | none => rfl
  | some c =>
      dsimp only
      cases hparse : c.machoParser with
      | ok parsedImage =>
          dsimp only
          cases hcollect : dependenciesCollect parsedImage cache with
          | ok dependencies => rfl
          | err m => rfl
          | panic m => rfl
          | outOfFuel => rfl
      | err m => rfl
      | panic m => rfl
      | outOfFuel => rfl

theorem expectedPath_eq {image : Option (List UInt8)} {rpath : Option Rpath}
    {dependency : Str × Bool}
    (h : dependency.2 = false → PlaceholderFollows execPath image rpath dependency.1) :
    expectedPath execPath image rpath dependency
      = dependencyPath (dirOf execPath) rpath dependency := by
  obtain ⟨name, isSystemDylib⟩ := dependency
  cases isSystemDylib with
  | true => rfl
  | false =>
      rw [expectedPath, if_neg Bool.false_ne_true]
      split
      · rename_i path hpath
        exact (h rfl path hpath).symm
      · rfl

theorem expectedGraph_eq {image : Option (List UInt8)}
    (h : ∀ rpath name, NamedBy host cache executable image rpath name →
      PlaceholderFollows execPath image rpath name) :
    expectedGraph host cache execPath executable image
      = dependencyGraph host cache (dirOf execPath) executable image := by
  rw [dependencyGraph_eq, expectedGraph]
  refine congrArg (List.map some) (List.filterMap_congr fun dependency hmem => ?_)
  refine expectedPath_eq fun hsystem => h _ _ ⟨rfl, ?_⟩
  rw [← hsystem]
  exact hmem

mutual

/-- Two graphs that agree on what can be reached have the same traces. -/
theorem LoadTrace.congr {next next' : Option (List UInt8) → List (Option (List UInt8))}
    {initializers : Option (List UInt8) → List Nat} {image : Option (List UInt8)} {done : Bool}
    {events : List Event} (h : ∀ i, Reaches next image i → next' i = next i) :
    LoadTrace next initializers image done events → LoadTrace next' initializers image done events
  | .waiting hdeps => .waiting (by
      rw [h image (.refl image)]
      exact hdeps.congr fun c hc i hi => h i (hi.of_mem hc))
  | .own hdeps hown => .own (by
      rw [h image (.refl image)]
      exact hdeps.congr fun c hc i hi => h i (hi.of_mem hc)) hown

theorem DependenciesTrace.congr {next next' : Option (List UInt8) → List (Option (List UInt8))}
    {initializers : Option (List UInt8) → List Nat} {images : List (Option (List UInt8))}
    {done : Bool} {events : List Event}
    (h : ∀ c ∈ images, ∀ i, Reaches next c i → next' i = next i) :
    DependenciesTrace next initializers images done events →
      DependenciesTrace next' initializers images done events
  | .done => .done
  | .stopped => .stopped
  | .failed hload => .failed (hload.congr (h _ List.mem_cons_self))
  | .loaded hload hrest => .loaded (hload.congr (h _ List.mem_cons_self))
      (hrest.congr fun c hc => h c (List.mem_cons_of_mem _ hc))

end

/-- **Placeholders**: what is opened for a dependency is the file that its placeholder stands for
exactly if the name does not ask for the directory of the image that names it, or that is the
directory of the program; and a load in which this is so of every image opens, for each image, the
files that its placeholders stand for, and nothing else. -/
theorem placeholders_follow_iff :
    (∀ image rpath name, NamedBy host cache executable image rpath name →
      (PlaceholderFollows execPath image rpath name ↔
        (UsesLoaderDir rpath name.bytes →
          dirOf (imageFile execPath image) = dirOf execPath))) ∧
    ((∀ image, Reaches (dependencyGraph host cache (dirOf execPath) executable) none image →
        ∀ rpath name, NamedBy host cache executable image rpath name →
          UsesLoaderDir rpath name.bytes →
            dirOf (imageFile execPath image) = dirOf execPath) →
      ∀ (fuel : Nat) (image : MappedContainer) (w : World),
        imageAt host executable none = some (image.view w.mem) →
        Exec.Adds World.trace (LoadTrace (expectedGraph host cache execPath executable)
            (initializersAt host executable) none)
          (machoLoader host cache (dirOf execPath) fuel image none) w) := by
  refine ⟨fun image rpath name _ => placeholderFollows_iff, fun hdirs fuel image w hat => ?_⟩
  refine (machoLoader_loadTrace hat).mono fun done added htrace => ?_
  refine htrace.congr fun i hreach => expectedGraph_eq fun rpath name hnamed => ?_
  exact placeholderFollows_iff.mpr (hdirs i hreach rpath name hnamed)

/-! ## A dylib in another directory -/

/-- An image with one library, named by at most 31 bytes. -/
def samplePlaceholder (filetype : Nat) (name : String) : List UInt8 :=
  sampleMachO filetype 1
    (Bytes.encodeFields .little [(4, 0xc), (4, 56), (4, 24), (4, 0), (4, 0), (4, 0)]
      ++ ascii name ++ List.replicate (32 - name.length) 0)

def samplePlaceholderExecutable (name : String) : Container := ⟨samplePlaceholder 2 name, .little⟩

/-- The program is `/e/x`. -/
def sampleExecPath : List UInt8 := ascii "/e/x"

/-- A dylib at one path, which names another one next to it; and a dylib at `/e/b`. -/
def samplePlaceholderHost (path : String) : Host :=
  sampleHost fun p =>
    if p = ascii path ++ [0] then some (samplePlaceholder 6 "@loader_path/b")
    else if p = ascii "/e/b" ++ [0] then some (sampleMachO 6 0 [])
    else none

/-- A load of the program that names `/e/s/a`. -/
def samplePlaceholderRun : Outcome (Nat × Nat) × World :=
  machoLoader (samplePlaceholderHost "/e/s/a") sampleNoCache (dirOf sampleExecPath) 3
    ⟨⟨0x1000, 88⟩, .little⟩ none (sampleWorld (samplePlaceholder 2 "@executable_path/s/a"))

theorem sampleLoaderName_valid : validUtf8 (ascii "@loader_path/b") = true := by decide +kernel

def sampleLoaderName : Str := ⟨ascii "@loader_path/b", sampleLoaderName_valid⟩

theorem samplePlaceholder_namedBy : NamedBy (samplePlaceholderHost "/e/a") sampleNoCache
    (samplePlaceholderExecutable "@executable_path/a") (some (ascii "/e/a" ++ [0])) none
    sampleLoaderName :=
  ⟨by decide +kernel, by decide +kernel⟩

/-- The images of a program with all dylibs in its directory. -/
theorem samplePlaceholder_reaches {image : Option (List UInt8)}
    (h : Reaches (dependencyGraph (samplePlaceholderHost "/e/a") sampleNoCache
      (dirOf sampleExecPath) (samplePlaceholderExecutable "@executable_path/a")) none image) :
    image = none ∨ image = some (ascii "/e/a" ++ [0]) ∨ image = some (ascii "/e/b" ++ [0]) := by
  have hexec : dependencyGraph (samplePlaceholderHost "/e/a") sampleNoCache (dirOf sampleExecPath)
      (samplePlaceholderExecutable "@executable_path/a") none
      = [some (ascii "/e/a" ++ [0])] := by decide +kernel
  have hdylib : dependencyGraph (samplePlaceholderHost "/e/a") sampleNoCache (dirOf sampleExecPath)
      (samplePlaceholderExecutable "@executable_path/a") (some (ascii "/e/a" ++ [0]))
      = [some (ascii "/e/b" ++ [0])] := by decide +kernel
  have hmissing : dependencyGraph (samplePlaceholderHost "/e/a") sampleNoCache
      (dirOf sampleExecPath) (samplePlaceholderExecutable "@executable_path/a")
      (some (ascii "/e/b" ++ [0])) = [] := by decide +kernel
  rcases Chains.reaches_iff.mp h with rfl | ⟨a, ha, h⟩
  · exact .inl rfl
  rw [hexec] at ha
  obtain rfl := List.mem_singleton.mp ha
  rcases Chains.reaches_iff.mp h with rfl | ⟨b, hb, h⟩
  · exact .inr (.inl rfl)
  rw [hdylib] at hb
  obtain rfl := List.mem_singleton.mp hb
  rcases Chains.reaches_iff.mp h with rfl | ⟨d, hd, h⟩
  · exact .inr (.inr rfl)
  · rw [hmissing] at hd
    exact absurd hd List.not_mem_nil

/-- With all dylibs in the directory of the program the placeholders follow. -/
theorem samplePlaceholder_follows :
    PlaceholderFollows sampleExecPath (some (ascii "/e/a" ++ [0])) none sampleLoaderName ∧
      ∀ (fuel : Nat) (image : MappedContainer) (w : World),
        imageAt (samplePlaceholderHost "/e/a") (samplePlaceholderExecutable "@executable_path/a")
          none = some (image.view w.mem) →
        Exec.Adds World.trace
          (LoadTrace (expectedGraph (samplePlaceholderHost "/e/a") sampleNoCache sampleExecPath
              (samplePlaceholderExecutable "@executable_path/a"))
            (initializersAt (samplePlaceholderHost "/e/a")
              (samplePlaceholderExecutable "@executable_path/a")) none)
          (machoLoader (samplePlaceholderHost "/e/a") sampleNoCache (dirOf sampleExecPath) fuel
            image none) w := by
  obtain ⟨heach, hrun⟩ := @placeholders_follow_iff (samplePlaceholderHost "/e/a") sampleNoCache
    sampleExecPath (samplePlaceholderExecutable "@executable_path/a")
  refine ⟨(heach _ _ _ samplePlaceholder_namedBy).mpr fun _ => by decide +kernel,
    hrun fun image hreach rpath name _ _ => ?_⟩
  rcases samplePlaceholder_reaches hreach with rfl | rfl | rfl
  · rfl
  · exact @dirOf_imageFile_inDir sampleExecPath (ascii "a") (by decide)
  · exact @dirOf_imageFile_inDir sampleExecPath (ascii "b") (by decide)

/-- A dylib in a directory below it should have `/e/s/b` opened, and has `/e/b`. -/
theorem samplePlaceholder_misplaced :
    Reaches (dependencyGraph (samplePlaceholderHost "/e/s/a") sampleNoCache (dirOf sampleExecPath)
        (samplePlaceholderExecutable "@executable_path/s/a")) none (some (ascii "/e/s/a" ++ [0])) ∧
      NamedBy (samplePlaceholderHost "/e/s/a") sampleNoCache
        (samplePlaceholderExecutable "@executable_path/s/a") (some (ascii "/e/s/a" ++ [0])) none
        sampleLoaderName ∧
      placeholderExpected (dirOf sampleExecPath)
        (dirOf (imageFile sampleExecPath (some (ascii "/e/s/a" ++ [0])))) none
        sampleLoaderName.bytes = some (ascii "/e/s/b") ∧
      samplePlaceholderRun.2.trace
        = [.opened (ascii "/e/s/a" ++ [0]), .opened (ascii "/e/b" ++ [0])] ∧
      ¬ PlaceholderFollows sampleExecPath (some (ascii "/e/s/a" ++ [0])) none
        sampleLoaderName := by
  refine ⟨⟨[0], by decide +kernel⟩, ⟨by decide +kernel, by decide +kernel⟩, by decide +kernel,
    by decide +kernel, fun h => ?_⟩
  exact absurd (h (ascii "/e/s/b") (by decide +kernel)) (by decide +kernel)

end Dynld
