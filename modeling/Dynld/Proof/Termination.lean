import Dynld.Proof.Dependencies
import Dynld.Proof.Ends

/-!
# When the loader returns

The loader calls itself once for each dependency on disk, and keeps no record of what
it has loaded. So the depth of the recursion is the length of the longest dependency
chain: if no cycle can be reached there is one among finitely many files, and the
recursion ends. If a cycle can be reached the loader cannot return an image: that
would bound the chains.
-/

namespace Dynld

variable {host : Host} {cache : DyldSharedCache} {execDir : List UInt8} {executable : Container}

open Chains (Within Acyclic)

/-- A turn ends if loading the dependency does. -/
theorem userDylibLoad_ne_outOfFuel
    {load : MappedContainer → Option (List UInt8) → Exec World (Nat × Nat)}
    {rpath : Option Rpath} {dependency : Str × Bool}
    (hload : ∀ path, dependencyPath execDir rpath dependency = some path → ∀ image w,
      imageAt host executable (some path) = some (image.view w.mem) →
      (load image (some path) w).1 ≠ .outOfFuel) (w : World) :
    (userDylibLoad host load execDir rpath dependency w).1 ≠ .outOfFuel := by
  obtain ⟨installName, isSystemDylib⟩ := dependency
  cases isSystemDylib with
  | true => simp [userDylibLoad]
  | false =>
      refine Exec.bind_ne_outOfFuel (userDylibDiskPathResolve_ne_outOfFuel _ _ _)
        fun path w₁ hresolve => ?_
      refine Exec.bind_ne_outOfFuel (diskPathMmap_ne_outOfFuel _ _ _) fun image w₂ hmmap => ?_
      have hpath : dependencyPath execDir rpath (installName, false) = some path :=
        dependencyPath_eq_some.mpr ⟨rfl, (Exec.liftM_eq_ok.mp hresolve).1⟩
      refine Exec.bind_ne_outOfFuel (hload path hpath image w₂ (diskPathMmap_imageAt hmmap))
        fun r w₃ _ => ?_
      simp

/-- A call of the loader ends if the calls for the dependencies do. -/
theorem machoLoader_step_ne_outOfFuel {fuel : Nat} {image : MappedContainer}
    {dylibDir : Option (List UInt8)} {w : World}
    (hat : imageAt host executable dylibDir = some (image.view w.mem))
    (hload : ∀ path, some path ∈ dependencyGraph host cache execDir executable dylibDir →
      ∀ image w, imageAt host executable (some path) = some (image.view w.mem) →
      (machoLoader host cache execDir fuel image (some path) w).1 ≠ .outOfFuel) :
    (machoLoader host cache execDir (fuel + 1) image dylibDir w).1 ≠ .outOfFuel := by
  refine Exec.bind_ne_outOfFuel (Container.machoParser_ne_outOfFuel _) fun parsedImage w₁ h₁ => ?_
  refine Exec.bind_ne_outOfFuel (dependenciesCollect_ne_outOfFuel _ _) fun dependencies w₂ h₂ => ?_
  have hgraph := @dependencyGraph_of_parse _ _ execDir _ _ _ _ _ hat
    (Exec.lift_eq_ok.mp h₁).1
    (Exec.liftM_eq_ok.mp h₂).1
  have hturn : ∀ dependency ∈ dependencies.items, ∀ w,
      (userDylibLoad host (machoLoader host cache execDir fuel) execDir parsedImage.rpath dependency
        w).1 ≠ .outOfFuel := by
    intro dependency hmem w
    refine userDylibLoad_ne_outOfFuel (fun path hpath => hload path ?_) w
    rw [hgraph]
    exact List.mem_map_of_mem (List.mem_filterMap.mpr ⟨dependency, hmem, hpath⟩)
  refine Exec.bind_ne_outOfFuel (Exec.each_ne_outOfFuel hturn) fun dylibImages w₃ _ => ?_
  refine Exec.bind_ne_outOfFuel (machoSegmentsMapToVm_ne_outOfFuel _ _ _ _ _) fun vm w₄ _ => ?_
  refine Exec.bind_ne_outOfFuel (imageFixupsApply_ne_outOfFuel _ _ _ _ _ _) fun _ w₅ _ => ?_
  refine Exec.bind_ne_outOfFuel (imageFinalize_ne_outOfFuel _ _ _ _ _) fun _ w₆ _ => ?_
  simp

/-- **The loader ends if dependency chains are bounded**: it goes as deep as they are long. -/
theorem machoLoader_ne_outOfFuel {n : Nat} : ∀ {dylibDir : Option (List UInt8)}
    {image : MappedContainer} {w : World},
    Within (dependencyGraph host cache execDir executable) n dylibDir →
    imageAt host executable dylibDir = some (image.view w.mem) →
    (machoLoader host cache execDir (n + 1) image dylibDir w).1 ≠ .outOfFuel := by
  induction n with
  | zero =>
      intro dylibDir image w hwithin hat
      refine machoLoader_step_ne_outOfFuel hat fun path hmem => ?_
      rw [hwithin.next_eq_nil] at hmem
      exact absurd hmem List.not_mem_nil
  | succ n ih =>
      intro dylibDir image w hwithin hat
      exact machoLoader_step_ne_outOfFuel hat fun path hmem image w hat =>
        ih (hwithin.tail hmem) hat

/-- **A loader that returned has bounded dependency chains**: it went to the end of each. -/
theorem machoLoader_within {fuel : Nat} : ∀ {dylibDir : Option (List UInt8)}
    {image : MappedContainer} {w w' : World} {r : Nat × Nat},
    imageAt host executable dylibDir = some (image.view w.mem) →
    machoLoader host cache execDir fuel image dylibDir w = (.ok r, w') →
    Within (dependencyGraph host cache execDir executable) fuel dylibDir := by
  induction fuel with
  | zero =>
      intro dylibDir image w w' r _ h
      exact absurd (Prod.mk.inj h).1 (by simp)
  | succ fuel ih =>
      intro dylibDir image w w' r hat h
      obtain ⟨n, hn, ⟨run⟩⟩ := machoLoader_eq_ok h
      obtain rfl : fuel = n := Nat.succ.inj hn
      refine Chains.within_of_forall fun dependency hmem => ?_
      rw [dependencyGraph_of_parse hat run.parse_eq run.collect_eq] at hmem
      obtain ⟨path, hpath, rfl⟩ := List.mem_map.mp hmem
      obtain ⟨dependency, hdependency, hpath⟩ := List.mem_filterMap.mp hpath
      obtain ⟨library, w₁, w₂, hturn⟩ := (Exec.each_eq_ok.mp run.load_eq).exists_of_mem hdependency
      obtain ⟨image', w₃, r', hmmap, hload⟩ := userDylibLoad_eq_ok hpath hturn
      exact ih (diskPathMmap_imageAt hmmap) hload

variable (host cache execDir) in
/-- No dependency cycle can be reached from the executable. -/
def AcyclicDependencies (executable : Container) : Prop :=
  Acyclic (dependencyGraph host cache execDir executable) none

/-- A finite file system has finitely many nodes that depend on others. -/
theorem mem_nodes {files : List (List UInt8)} (hfiles : ∀ path, host.file path ≠ none → path ∈ files)
    (image : Option (List UInt8))
    (h : dependencyGraph host cache execDir executable image ≠ []) :
    image ∈ none :: files.map some := by
  cases image with
  | none => exact List.mem_cons_self
  | some path =>
      refine List.mem_cons_of_mem _ (List.mem_map_of_mem (hfiles path ?_))
      exact dependencyGraph_ne_nil h

/-- Without a cycle, one turn of recursion for each file is enough. -/
theorem machoLoader_ne_outOfFuel_of_acyclic {files : List (List UInt8)}
    (hfiles : ∀ path, host.file path ≠ none → path ∈ files) {image : MappedContainer} {w : World}
    (hacyclic : AcyclicDependencies host cache execDir (image.view w.mem)) {fuel : Nat}
    (hfuel : files.length + 2 ≤ fuel) :
    (machoLoader host cache execDir fuel image none w).1 ≠ .outOfFuel := by
  have hwithin := hacyclic.within (mem_nodes hfiles)
  rw [List.length_cons, List.length_map] at hwithin
  obtain ⟨n, rfl⟩ : ∃ n, fuel = n + 1 := ⟨fuel - 1, by omega⟩
  exact machoLoader_ne_outOfFuel (hwithin.mono (by omega)) rfl

theorem acyclicDependencies_of_machoLoader {image : MappedContainer} {w : World} {fuel : Nat}
    {r : Nat × Nat} (h : (machoLoader host cache execDir fuel image none w).1 = .ok r) :
    AcyclicDependencies host cache execDir (image.view w.mem) :=
  (machoLoader_within rfl (Exec.eq_of_fst h)).acyclic

end Dynld
