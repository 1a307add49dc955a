import Dynld.Lib.Chains
import Dynld.Proof.LoaderSteps

/-!
# Which image depends on which

A node of the graph is an image: a dylib by its path, the executable by `none`. What
an image depends on is in its file, so the graph can be read off the file system: the
loader maps the same bytes each time it comes to a path.
-/

namespace Dynld

/-- Where a dependency is on disk, if it is not a system library. -/
def dependencyPath (execDir : List UInt8) (rpath : Option Rpath) (dependency : Str × Bool) :
    Option (List UInt8) :=
  if dependency.2 then none
  else
    match userDylibDiskPathResolve dependency.1.bytes rpath execDir with
    | .ok path => some path
    | _ => none

/-- The paths of the dylibs an image depends on, in order. -/
def userDependencies (cache : DyldSharedCache) (execDir : List UInt8) (c : Container) :
    List (List UInt8) :=
  match c.machoParser with
  | .ok parsedImage =>
      match dependenciesCollect parsedImage cache with
      | .ok dependencies => dependencies.items.filterMap (dependencyPath execDir parsedImage.rpath)
      | _ => []
  | _ => []

section

variable (host : Host) (cache : DyldSharedCache) (execDir : List UInt8) (executable : Container)

/-- The container of an image. -/
def imageAt : Option (List UInt8) → Option Container
  | none => some executable
  | some path => (host.file path).map fun bytes => { data := bytes, endian := .little }

/-- The images an image depends on, in order. -/
def dependencyGraph (image : Option (List UInt8)) : List (Option (List UInt8)) :=
  match imageAt host executable image with
  | some c => (userDependencies cache execDir c).map some
  | none => []

end

variable {host : Host} {cache : DyldSharedCache} {execDir : List UInt8} {executable : Container}

theorem imageAt_some (path : List UInt8) : imageAt host executable (some path)
    = (host.file path).map fun bytes => { data := bytes, endian := .little } := rfl

theorem dependencyPath_eq_some {rpath : Option Rpath} {dependency : Str × Bool}
    {path : List UInt8} :
    dependencyPath execDir rpath dependency = some path ↔ dependency.2 = false ∧
      userDylibDiskPathResolve dependency.1.bytes rpath execDir = .ok path := by
  unfold dependencyPath
  split
  · simp_all
  · split <;> simp_all

/-- What the graph says about an image that was parsed. -/
theorem dependencyGraph_of_parse {dylibDir : Option (List UInt8)} {c : Container}
    {parsedImage : ParsedImage} {dependencies : ArrayVec (Str × Bool) 32}
    (hat : imageAt host executable dylibDir = some c) (hparse : c.machoParser = .ok parsedImage)
    (hcollect : dependenciesCollect parsedImage cache = .ok dependencies) :
    dependencyGraph host cache execDir executable dylibDir
      = (dependencies.items.filterMap (dependencyPath execDir parsedImage.rpath)).map some := by
  unfold dependencyGraph userDependencies
  rw [hat]
  dsimp only
  rw [hparse]
  dsimp only
  rw [hcollect]

/-- Only an image with a file depends on others. -/
theorem dependencyGraph_ne_nil {path : List UInt8}
    (h : dependencyGraph host cache execDir executable (some path) ≠ []) :
    host.file path ≠ none := by
  intro hnone
  apply h
  rw [dependencyGraph, imageAt_some, hnone]
  rfl

/-- A file reads back from memory as it is on disk. -/
theorem diskPathMmap_view {path : List UInt8} {image : MappedContainer} {w w' : World}
    (h : diskPathMmap host path w = (.ok image, w')) :
    ∃ bytes, host.file path = some bytes ∧ image.view w'.mem = { data := bytes, endian := .little } := by
  obtain ⟨bytes, address, hfile, -, rfl, rfl⟩ := diskPathMmap_eq_ok h
  have hread : (w.mem.write address bytes).read address bytes.length = bytes :=
    Mem.read_write w.mem address bytes
  refine ⟨bytes, hfile, ?_⟩
  rw [MappedContainer.view, World.afterMmap, hread]

theorem diskPathMmap_imageAt {path : List UInt8} {image : MappedContainer} {w w' : World}
    (h : diskPathMmap host path w = (.ok image, w')) :
    imageAt host executable (some path) = some (image.view w'.mem) := by
  obtain ⟨bytes, hfile, hview⟩ := diskPathMmap_view h
  rw [imageAt_some, hfile, hview]
  rfl

/-- A turn that returned has loaded the dependency, if it is not a system library. -/
theorem userDylibLoad_eq_ok
    {load : MappedContainer → Option (List UInt8) → Exec World (Nat × Nat)}
    {rpath : Option Rpath} {dependency : Str × Bool} {library : Library} {path : List UInt8}
    {w w' : World} (hpath : dependencyPath execDir rpath dependency = some path)
    (h : userDylibLoad host load execDir rpath dependency w = (.ok library, w')) :
    ∃ image w₁ r, diskPathMmap host path w = (.ok image, w₁) ∧
      load image (some path) w₁ = (.ok r, w') := by
  obtain ⟨hsystem, hresolve⟩ := dependencyPath_eq_some.mp hpath
  obtain ⟨installName, isSystemDylib⟩ := dependency
  obtain rfl : isSystemDylib = false := hsystem
  obtain ⟨path', w₁, hlift, h⟩ := Exec.bind_eq_ok.mp h
  obtain ⟨hresolve', rfl⟩ := Exec.liftM_eq_ok.mp hlift
  obtain rfl : path = path' := Outcome.ok.inj (hresolve.symm.trans hresolve')
  obtain ⟨image, w₂, hmmap, h⟩ := Exec.bind_eq_ok.mp h
  obtain ⟨r, w₃, hload, h⟩ := Exec.bind_eq_ok.mp h
  obtain ⟨-, rfl⟩ := Prod.mk.inj h
  exact ⟨image, w₂, r, hmmap, hload⟩

end Dynld
