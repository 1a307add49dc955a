import Dynld.Proof.Copies

/-!
# What the trace of a load looks like

The loader is a recursion over the dependencies of an image, interleaved with mapping,
fixups and initializers. Its trace has the shape of that recursion, and here the shape
is written down without the loader:

* `LoadTrace`: the dependencies first, and then, if all of them were loaded, what is
  done for the image itself;
* `DependenciesTrace`: one dependency after another, each opened and then loaded, up to
  the first that is not;
* `OwnTrace`: a region, the copies of the segments, the fixups, the initializers, up to
  the step that fails.

Each of them says whether it is complete. `machoLoader_loadTrace` says that the trace
of every call of the loader has this shape, however the call ends; what holds of the
order of its events is then proved of the shape.
-/

namespace Dynld

open Chains (Reaches)

/-! ## The shape -/

/-- What is noted about an image itself, with these initializers. -/
inductive OwnTrace (image : Option (List UInt8)) (funcs : List Nat) : Bool → List Event → Prop where
  | unmapped : OwnTrace image funcs false []
  | mapped (region : ByteRange) (moves : List Mem.Move) :
      OwnTrace image funcs false (.mapped image region :: moves.map moveEvent)
  | fixedUp (region : ByteRange) (moves : List Mem.Move) :
      OwnTrace image funcs false
        (.mapped image region :: (moves.map moveEvent ++ [.fixedUp image]))
  | called (region : ByteRange) (moves : List Mem.Move) :
      OwnTrace image funcs true (.mapped image region ::
        (moves.map moveEvent ++ .fixedUp image :: funcs.map (calledEvent image region.start)))

section

variable (next : Option (List UInt8) → List (Option (List UInt8)))
  (initializers : Option (List UInt8) → List Nat)

mutual

/-- What is noted while an image is loaded. -/
inductive LoadTrace : Option (List UInt8) → Bool → List Event → Prop where
  | waiting {image : Option (List UInt8)} {events : List Event} :
      DependenciesTrace (next image) false events → LoadTrace image false events
  | own {image : Option (List UInt8)} {done : Bool} {events own : List Event} :
      DependenciesTrace (next image) true events →
      OwnTrace image (initializers image) done own →
      LoadTrace image done (events ++ own)

/-- What is noted while images are loaded in order. -/
inductive DependenciesTrace : List (Option (List UInt8)) → Bool → List Event → Prop where
  | done : DependenciesTrace [] true []
  | stopped {images : List (Option (List UInt8))} : DependenciesTrace images false []
  | failed {q : List UInt8} {images : List (Option (List UInt8))} {events : List Event} :
      LoadTrace (some q) false events →
      DependenciesTrace (some q :: images) false (.opened q :: events)
  | loaded {q : List UInt8} {images : List (Option (List UInt8))} {done : Bool}
      {events rest : List Event} :
      LoadTrace (some q) true events → DependenciesTrace images done rest →
      DependenciesTrace (some q :: images) done (.opened q :: (events ++ rest))

end

end

/-! ## The loader has it -/

variable {host : Host} {cache : DyldSharedCache} {execDir : List UInt8} {executable : Container}

theorem diskPathMmap_adds (q : List UInt8) (w : World) :
    Exec.Adds World.trace (fun done added => added = if done then [.opened q] else [])
      (diskPathMmap host q) w := by
  refine Exec.Adds.after rfl rfl fun bytes w₁ _ => ?_
  split
  · exact Exec.adds_nothing rfl rfl
  split
  · exact Exec.adds_nothing rfl rfl
  refine Exec.Adds.after rfl rfl fun address w₂ _ => ?_
  split
  · exact Exec.adds_nothing rfl rfl
  · exact Exec.adds_of_ok rfl rfl rfl

/-! ### One image -/

theorem machoSegmentsMapToVm_failsQuietly (dylibDir : Option (List UInt8)) (image : MappedContainer)
    (segments : List Segment) (w : World) :
    Exec.FailsQuietly World.trace (machoSegmentsMapToVm host dylibDir image segments) w := by
  refine Exec.Adds.after rfl (fun _ => rfl) fun bounds w₁ _ => ?_
  refine Exec.Adds.after rfl (fun _ => rfl) fun vmSize w₂ _ => ?_
  have halloc : Exec.FailsQuietly World.trace (vmAllocTaskSelf host dylibDir vmSize) w₂ := by
    refine Exec.Adds.after rfl (fun _ => rfl) fun address w₃ _ => ?_
    split
    · exact Exec.adds_nothing rfl fun _ => rfl
    · exact Exec.adds_of_ok rfl rfl (by simp)
  refine Exec.Adds.bind halloc (fun _ h => h) fun vm w₃ added _ _ _ => ?_
  -- the copies cannot fail
  have hcopies : (segmentsCopy dylibDir.isNone image vm segments >>= fun _ => pure (vm, vmSize)) w₃
      = (.ok (vm, vmSize), w₃.afterMoves
        ((mappedSegments dylibDir.isNone segments).map (Segment.move image vm))) := by
    rw [Exec.bind_of_ok (segmentsCopy_run _ _ _ _ _)]
    rfl
  exact Exec.adds_of_ok hcopies rfl (by simp)

theorem imageFixupsApply_failsQuietly (dylibDir : Option (List UInt8)) (vm : Nat)
    (parsedImage : ParsedImage) (dependencies : List Library) (w : World) :
    Exec.FailsQuietly World.trace (imageFixupsApply dylibDir vm parsedImage dependencies cache) w :=
  Exec.Adds.after rfl (fun _ => rfl) fun _ _ _ => Exec.adds_of_ok rfl rfl (by simp)

theorem imageFinalize_failsQuietly (dylibDir : Option (List UInt8)) (vm : Nat)
    (parsedImage : ParsedImage) (w : World) :
    Exec.FailsQuietly World.trace (imageFinalize host dylibDir vm parsedImage) w := by
  refine Exec.Adds.after ?_ (fun _ => rfl) fun _ w₁ _ => ?_
  · unfold imageTlvInitialize
    split
    · rfl
    · rfl
  refine Exec.Adds.after ?_ (fun _ => rfl) fun _ w₂ _ => ?_
  · rw [machoSegmentsVmProtect_trace]
  · obtain ⟨mem, hrun⟩ := @machoInitFunctionsExec_run host dylibDir vm parsedImage.initFunctions w₂
    exact Exec.adds_of_ok hrun rfl (by simp)

/-- What the loader does for an image once its dependencies are loaded. -/
theorem own_adds {β : Type} (dylibDir : Option (List UInt8)) (image : MappedContainer)
    (parsedImage : ParsedImage) (dylibImages : List Library) (result : Nat × Nat → β) (w : World) :
    Exec.Adds World.trace (OwnTrace dylibDir parsedImage.initFunctions)
      (do
        let (vm, vmSize) ← machoSegmentsMapToVm host dylibDir image parsedImage.segments.items
        imageFixupsApply dylibDir vm parsedImage dylibImages cache
        imageFinalize host dylibDir vm parsedImage
        pure (result (vm, vmSize))) w := by
  refine Exec.Adds.step (machoSegmentsMapToVm_failsQuietly _ _ _ _) .unmapped ?_
  rintro ⟨vm, vmSize⟩ w₁ hmap
  obtain ⟨_, _, -, -, -, -, rfl⟩ := machoSegmentsMapToVm_eq_ok hmap
  refine ⟨_, List.append_assoc _ _ _, ?_⟩
  refine Exec.Adds.step (imageFixupsApply_failsQuietly _ _ _ _ _) ?_ fun _ w₂ hfixups => ?_
  · rw [List.append_nil]
    exact .mapped ⟨vm, vmSize⟩ _
  refine ⟨_, (imageFixupsApply_eq_ok hfixups).2, ?_⟩
  refine Exec.Adds.step (imageFinalize_failsQuietly _ _ _ _) ?_ fun _ w₃ hfinalize => ?_
  · rw [List.append_nil]
    exact .fixedUp ⟨vm, vmSize⟩ _
  refine ⟨_, (imageFinalize_eq_ok hfinalize).2, Exec.adds_of_ok rfl (List.append_nil _).symm ?_⟩
  rw [List.append_nil, ← List.append_assoc]
  have htrace := @OwnTrace.called dylibDir parsedImage.initFunctions ⟨vm, vmSize⟩
    ((mappedSegments dylibDir.isNone parsedImage.segments.items).map (Segment.move image vm))
  simpa using htrace

/-! ### Every image -/

section

variable {next : Option (List UInt8) → List (Option (List UInt8))}
  {initializers : Option (List UInt8) → List Nat}

/-- What one turn of the loop over the dependencies notes. -/
def TurnTrace (next : Option (List UInt8) → List (Option (List UInt8)))
    (initializers : Option (List UInt8) → List Nat) (path : Option (List UInt8)) (done : Bool)
    (added : List Event) : Prop :=
  match path with
  | none => added = []
  | some q => (done = false ∧ added = []) ∨
      ∃ events, added = .opened q :: events ∧ LoadTrace next initializers (some q) done events

theorem userDylibLoad_adds
    {load : MappedContainer → Option (List UInt8) → Exec World (Nat × Nat)}
    (hload : ∀ q image w, imageAt host executable (some q) = some (image.view w.mem) →
      Exec.Adds World.trace (LoadTrace next initializers (some q)) (load image (some q)) w)
    (rpath : Option Rpath) (dependency : Str × Bool) (w : World) :
    Exec.Adds World.trace (TurnTrace next initializers (dependencyPath execDir rpath dependency))
      (userDylibLoad host load execDir rpath dependency) w := by
  obtain ⟨installName, isSystemDylib⟩ := dependency
  cases isSystemDylib with
  | true => exact Exec.adds_nothing rfl rfl
  | false =>
      have hfailed : ∀ path, TurnTrace next initializers path false [] := by
        intro path
        cases path with
        | none => rfl
        | some q => exact .inl ⟨rfl, rfl⟩
      refine Exec.Adds.after rfl (hfailed _) fun q w₁ hresolve => ?_
      have hpath : dependencyPath execDir rpath (installName, false) = some q :=
        dependencyPath_eq_some.mpr ⟨rfl, (Exec.liftM_eq_ok.mp hresolve).1⟩
      rw [hpath]
      refine Exec.Adds.bind (diskPathMmap_adds q w₁) ?_ fun image w₂ added hmmap _ hadded => ?_
      · rintro added rfl
        exact hfailed _
      have hopened : added = [.opened q] := hadded
      rw [hopened]
      refine Exec.Adds.bind (hload q image w₂ (diskPathMmap_imageAt hmmap)) ?_
        fun r w₃ events _ _ hevents => ?_
      · intro events hevents
        exact .inr ⟨events, rfl, hevents⟩
      · refine Exec.adds_of_ok rfl (List.append_nil _).symm (.inr ⟨events, ?_, hevents⟩)
        rw [List.append_nil]
        rfl

theorem userDylibsLoadRecursively_adds
    {load : MappedContainer → Option (List UInt8) → Exec World (Nat × Nat)}
    (hload : ∀ q image w, imageAt host executable (some q) = some (image.view w.mem) →
      Exec.Adds World.trace (LoadTrace next initializers (some q)) (load image (some q)) w)
    (rpath : Option Rpath) : ∀ (dependencies : List (Str × Bool)) (w : World),
    Exec.Adds World.trace (DependenciesTrace next initializers
        ((dependencies.filterMap (dependencyPath execDir rpath)).map some))
      (userDylibsLoadRecursively host load execDir rpath dependencies) w := by
  intro dependencies
  induction dependencies with
  | nil =>
    intro w
    exact Exec.adds_nothing rfl .done
  | cons dependency rest ih =>
    intro w
    refine Exec.Adds.bind (userDylibLoad_adds hload rpath dependency w) ?_
      fun library w₁ added _ _ hadded => ?_
    · -- this dependency fails: the trace stops in its turn
      intro added hadded
      cases hpath : dependencyPath execDir rpath dependency with
      | none =>
          rw [hpath] at hadded
          obtain rfl : added = [] := hadded
          exact .stopped
      | some q =>
          rw [hpath] at hadded
          rw [List.filterMap_cons_some hpath, List.map_cons]
          rcases hadded with ⟨-, rfl⟩ | ⟨events, rfl, hevents⟩
          · exact .stopped
          · exact .failed hevents
    · -- it is loaded: what the rest adds comes after its events
      have hkeep : ∀ done more, DependenciesTrace next initializers
            ((rest.filterMap (dependencyPath execDir rpath)).map some) done more →
          DependenciesTrace next initializers
            (((dependency :: rest).filterMap (dependencyPath execDir rpath)).map some) done
            (added ++ more) := by
        intro done more hmore
        cases hpath : dependencyPath execDir rpath dependency with
        | none =>
            rw [hpath] at hadded
            obtain rfl : added = [] := hadded
            rw [List.filterMap_cons_none hpath]
            exact hmore
        | some q =>
            rw [hpath] at hadded
            rw [List.filterMap_cons_some hpath, List.map_cons]
            rcases hadded with ⟨hfalse, -⟩ | ⟨events, rfl, hevents⟩
            · exact absurd hfalse (by decide)
            · exact .loaded hevents hmore
      have hrest := (ih w₁).mono hkeep
      refine Exec.Adds.bind hrest (fun _ h => h) fun libraries w₂ more _ _ hmore => ?_
      refine Exec.adds_of_ok rfl (List.append_nil _).symm ?_
      rw [List.append_nil]
      exact hmore

end

/-- **Every call of the loader has a trace of this shape**, and a complete one if it returns an
image. -/
theorem machoLoader_loadTrace : ∀ {fuel : Nat} {dylibDir : Option (List UInt8)}
    {image : MappedContainer} {w : World},
    imageAt host executable dylibDir = some (image.view w.mem) →
    Exec.Adds World.trace (LoadTrace (dependencyGraph host cache execDir executable)
        (initializersAt host executable) dylibDir)
      (machoLoader host cache execDir fuel image dylibDir) w := by
  intro fuel
  induction fuel with
  | zero =>
      intro dylibDir image w _
      exact Exec.adds_nothing rfl (.waiting .stopped)
  | succ fuel ih =>
      intro dylibDir image w hat
      refine Exec.Adds.after rfl (.waiting .stopped) fun parsedImage w₁ h₁ => ?_
      obtain ⟨hparse, rfl⟩ := Exec.lift_eq_ok.mp h₁
      refine Exec.Adds.after rfl (.waiting .stopped) fun dependencies w₂ h₂ => ?_
      obtain ⟨hcollect, rfl⟩ := Exec.liftM_eq_ok.mp h₂
      have hload : ∀ q image w, imageAt host executable (some q) = some (image.view w.mem) →
          Exec.Adds World.trace (LoadTrace (dependencyGraph host cache execDir executable)
            (initializersAt host executable) (some q))
            (machoLoader host cache execDir fuel image (some q)) w := fun q image w hat => ih hat
      have hdependencies := @userDylibsLoadRecursively_adds host execDir executable _ _ _ hload
        parsedImage.rpath dependencies.items w₂
      rw [← dependencyGraph_of_parse hat hparse hcollect] at hdependencies
      refine Exec.Adds.bind hdependencies (fun added h => .waiting h)
        fun dylibImages w₃ added _ _ hadded => ?_
      have hown := @own_adds host cache _ dylibDir image parsedImage dylibImages
        (fun r => loaderResult dylibDir r.1 r.2 parsedImage) w₃
      rw [← initializersAt_of_parse hat hparse] at hown
      exact hown.mono fun done own hown => .own hadded hown

end Dynld
