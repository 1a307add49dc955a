import Dynld.Proof.LoadTraces

/-!
# Initialisation order

When an initializer is called, everything that has to come before it has come. Looking
back along the trace from the call: the initializers of the same image that precede
it, in order; the fixups of the image; the copies of its segments; the region they
were copied to; and before that, at some time, every initializer of every dylib that
the image depends on, directly or not (`CalledAfter`).

This is proved of the shape of a trace, by induction on it, and so holds of every run
of the loader, also of one that fails. If the loading of a dependency fails, an image
is not mapped; that nothing else maps it either takes a graph without a cycle.

The address of a call is another matter: it is right for the executable only.
-/

namespace Dynld

open Chains (Reaches)

variable {next : Option (List UInt8) → List (Option (List UInt8))}
  {initializers : Option (List UInt8) → List Nat}

/-! ## What comes before a call -/

variable (next initializers) in
/-- What was noted before the call of an initializer. -/
def CalledAfter (before : List Event) (image : Option (List UInt8)) (func address : Nat) : Prop :=
  ∃ (waited : List Event) (region : ByteRange) (moves : List Mem.Move) (funcs later : List Nat),
    before = waited ++ .mapped image region ::
      (moves.map moveEvent ++ .fixedUp image :: funcs.map (calledEvent image region.start)) ∧
    initializers image = funcs ++ func :: later ∧
    .called image func address = calledEvent image region.start func ∧
    ∀ dependency ∈ next image, ∀ q, Reaches next dependency q → ∀ g ∈ initializers q,
      ∃ a, .called q g a ∈ waited

variable (next initializers) in
/-- Every call in the trace comes after all that has to come before it. -/
def InitOrder (events : List Event) : Prop :=
  ∀ before image func address after, events = before ++ .called image func address :: after →
    CalledAfter next initializers before image func address

variable (next initializers) in
/-- Every initializer of every image that can be reached was called. -/
def AllCalled (image : Option (List UInt8)) (events : List Event) : Prop :=
  ∀ q, Reaches next image q → ∀ g ∈ initializers q, ∃ a, .called q g a ∈ events

theorem CalledAfter.append {before : List Event} {image : Option (List UInt8)} {func address : Nat}
    (h : CalledAfter next initializers before image func address) (earlier : List Event) :
    CalledAfter next initializers (earlier ++ before) image func address := by
  obtain ⟨waited, region, moves, funcs, later, rfl, hfuncs, hcalled, hwaited⟩ := h
  refine ⟨earlier ++ waited, region, moves, funcs, later, (List.append_assoc _ _ _).symm, hfuncs,
    hcalled, fun dependency hdep q hq g hg => ?_⟩
  obtain ⟨a, ha⟩ := hwaited dependency hdep q hq g hg
  exact ⟨a, List.mem_append_right earlier ha⟩

/-- An event of a list is in its first part or in its second. -/
theorem split_append {α : Type} {xs ys before after : List α} {e : α}
    (h : xs ++ ys = before ++ e :: after) :
    (∃ after', xs = before ++ e :: after') ∨ ∃ before', before = xs ++ before' ∧
      ys = before' ++ e :: after := by
  rcases List.append_eq_append_iff.mp h with ⟨rest, rfl, hys⟩ | ⟨rest, hxs, hrest⟩
  · exact .inr ⟨rest, rfl, hys⟩
  · cases rest with
    | nil => exact .inr ⟨[], by rw [List.append_nil, hxs, List.append_nil], hrest.symm⟩
    | cons x rest =>
        obtain ⟨rfl, -⟩ := List.cons.inj hrest
        exact .inl ⟨rest, hxs⟩

theorem InitOrder.append {xs ys : List Event} (hxs : InitOrder next initializers xs)
    (hys : InitOrder next initializers ys) : InitOrder next initializers (xs ++ ys) := by
  intro before image func address after h
  rcases split_append h with ⟨after', hxs'⟩ | ⟨before', rfl, hys'⟩
  · exact hxs before image func address after' hxs'
  · exact (hys before' image func address after hys').append xs

/-- Events that are no calls. -/
theorem initOrder_of_quiet {events : List Event}
    (h : ∀ image func address, .called image func address ∉ events) :
    InitOrder next initializers events := by
  rintro before image func address after rfl
  exact absurd (List.mem_append_right before List.mem_cons_self) (h image func address)

/-! ### One image -/

theorem moveEvent_ne_called {moves : List Mem.Move} {image : Option (List UInt8)}
    {func address : Nat} : .called image func address ∉ moves.map moveEvent := by
  intro h
  obtain ⟨mv, -, hmv⟩ := List.mem_map.mp h
  exact absurd hmv (by simp [moveEvent])

/-- The calls of an image come after its own events that precede them. -/
theorem OwnTrace.split {image : Option (List UInt8)} {funcs : List Nat} {done : Bool}
    {events : List Event} (h : OwnTrace image funcs done events) {before after : List Event}
    {i : Option (List UInt8)} {func address : Nat}
    (hsplit : events = before ++ .called i func address :: after) :
    i = image ∧ ∃ (region : ByteRange) (moves : List Mem.Move) (earlier later : List Nat),
      before = .mapped image region ::
        (moves.map moveEvent ++ .fixedUp image :: earlier.map (calledEvent image region.start)) ∧
      funcs = earlier ++ func :: later ∧
      .called image func address = calledEvent image region.start func := by
  have hmem : .called i func address ∈ events := by
    rw [hsplit]
    exact List.mem_append_right before List.mem_cons_self
  cases h with
  | unmapped => exact absurd hmem List.not_mem_nil
  | mapped region moves =>
      rcases List.mem_cons.mp hmem with h | h
      · exact absurd h (by simp)
      · exact absurd h moveEvent_ne_called
  | fixedUp region moves =>
      rcases List.mem_cons.mp hmem with h | h
      · exact absurd h (by simp)
      · rcases List.mem_append.mp h with h | h
        · exact absurd h moveEvent_ne_called
        · exact absurd (List.mem_singleton.mp h) (by simp)
  | called region moves =>
      -- the call is behind all but the calls
      have hparts : (.mapped image region :: (moves.map moveEvent ++ [.fixedUp image]))
          ++ funcs.map (calledEvent image region.start)
          = before ++ .called i func address :: after := by
        rw [← hsplit]
        simp
      rcases split_append hparts with ⟨after', hquiet⟩ | ⟨before', rfl, hcalls⟩
      · have hmem : Event.called i func address
            ∈ Event.mapped image region :: (moves.map moveEvent ++ [.fixedUp image]) := by
          rw [hquiet]
          exact List.mem_append_right before List.mem_cons_self
        rcases List.mem_cons.mp hmem with h | h
        · exact absurd h (by simp)
        · rcases List.mem_append.mp h with h | h
          · exact absurd h moveEvent_ne_called
          · exact absurd (List.mem_singleton.mp h) (by simp)
      · obtain ⟨earlier, rest, rfl, hearlier, hrest⟩ := List.map_eq_append_iff.mp hcalls
        obtain ⟨g, later, rfl, hg, -⟩ := List.map_eq_cons_iff.mp hrest
        obtain ⟨rfl, rfl, rfl⟩ := Event.called.inj hg
        refine ⟨rfl, region, moves, earlier, later, ?_, rfl, rfl⟩
        rw [← hearlier]
        simp

/-- A complete trace of an image has all its calls. -/
theorem OwnTrace.calls {image : Option (List UInt8)} {funcs : List Nat} {events : List Event}
    (h : OwnTrace image funcs true events) {func : Nat} (hfunc : func ∈ funcs) :
    ∃ address, .called image func address ∈ events := by
  cases h with
  | called region moves =>
      have hcall : calledEvent image region.start func
          ∈ funcs.map (calledEvent image region.start) := List.mem_map_of_mem hfunc
      exact ⟨ptrAdd (ptrAdd region.start func) pageZeroSize,
        List.mem_cons_of_mem _ (List.mem_append_right _ (List.mem_cons_of_mem _ hcall))⟩

/-! ### Every image -/

mutual

/-- A complete trace has every call of every image that is reached. -/
theorem LoadTrace.allCalled {image : Option (List UInt8)} {done : Bool} {events : List Event} :
    LoadTrace next initializers image done events → done = true →
      AllCalled next initializers image events
  | .waiting _, h => absurd h (by decide)
  | .own hdeps hown, h => by
      subst h
      intro q hq g hg
      rcases Chains.reaches_iff.mp hq with rfl | ⟨c, hc, hq⟩
      · obtain ⟨a, ha⟩ := hown.calls hg
        exact ⟨a, List.mem_append_right _ ha⟩
      · obtain ⟨a, ha⟩ := hdeps.allCalled rfl c hc q hq g hg
        exact ⟨a, List.mem_append_left _ ha⟩

theorem DependenciesTrace.allCalled {images : List (Option (List UInt8))} {done : Bool}
    {events : List Event} : DependenciesTrace next initializers images done events → done = true →
      ∀ c ∈ images, AllCalled next initializers c events
  | .done, _ => fun c hc => absurd hc List.not_mem_nil
  | .stopped, h => absurd h (by decide)
  | .failed _, h => absurd h (by decide)
  | .loaded hload hrest, h => by
      intro c hc q hq g hg
      rcases List.mem_cons.mp hc with rfl | hc
      · obtain ⟨a, ha⟩ := hload.allCalled rfl q hq g hg
        exact ⟨a, List.mem_cons_of_mem _ (List.mem_append_left _ ha)⟩
      · obtain ⟨a, ha⟩ := hrest.allCalled h c hc q hq g hg
        exact ⟨a, List.mem_cons_of_mem _ (List.mem_append_right _ ha)⟩

end

mutual

/-- **Calls come in order**, in a complete trace and in any other. -/
theorem LoadTrace.initOrder {image : Option (List UInt8)} {done : Bool} {events : List Event} :
    LoadTrace next initializers image done events → InitOrder next initializers events
  | .waiting hdeps => hdeps.initOrder
  | .own hdeps hown => by
      intro before i func address after h
      rcases split_append h with ⟨after', hsplit⟩ | ⟨before', rfl, hsplit⟩
      · exact hdeps.initOrder before i func address after' hsplit
      · obtain ⟨rfl, region, moves, earlier, later, rfl, hfuncs, hcalled⟩ := hown.split hsplit
        exact ⟨_, region, moves, earlier, later, rfl, hfuncs, hcalled, hdeps.allCalled rfl⟩

theorem DependenciesTrace.initOrder {images : List (Option (List UInt8))} {done : Bool}
    {events : List Event} :
    DependenciesTrace next initializers images done events → InitOrder next initializers events
  | .done => initOrder_of_quiet fun _ _ _ => List.not_mem_nil
  | .stopped => initOrder_of_quiet fun _ _ _ => List.not_mem_nil
  | .failed hload => by
      have hopened : ∀ q, InitOrder next initializers [.opened q] := fun q =>
        initOrder_of_quiet fun _ _ _ => by simp
      exact (hopened _).append hload.initOrder
  | .loaded hload hrest => by
      have hopened : ∀ q, InitOrder next initializers [.opened q] := fun q =>
        initOrder_of_quiet fun _ _ _ => by simp
      exact (hopened _).append (hload.initOrder.append hrest.initOrder)

end

/-! ## When a dependency fails -/

/-- The event is about this image: it was mapped, fixed up, or had an initializer called. -/
def Event.IsAbout (image : Option (List UInt8)) : Event → Prop
  | .mapped i _ => i = image
  | .fixedUp i => i = image
  | .called i _ _ => i = image
  | .opened _ => False
  | .copied _ _ _ => False

theorem OwnTrace.isAbout {image i : Option (List UInt8)} {funcs : List Nat} {done : Bool}
    {events : List Event} (h : OwnTrace image funcs done events) {e : Event} (he : e ∈ events)
    (habout : e.IsAbout i) : i = image := by
  have hmoves : ∀ moves : List Mem.Move, e ∉ moves.map moveEvent := by
    intro moves hmem
    obtain ⟨mv, -, rfl⟩ := List.mem_map.mp hmem
    exact habout
  have hmapped : ∀ region, e = .mapped image region → i = image := by
    rintro region rfl
    exact habout.symm
  have hfixedUp : e = .fixedUp image → i = image := by
    rintro rfl
    exact habout.symm
  cases h with
  | unmapped => exact absurd he List.not_mem_nil
  | mapped region moves =>
      rcases List.mem_cons.mp he with he | he
      · exact hmapped region he
      · exact absurd he (hmoves moves)
  | fixedUp region moves =>
      rcases List.mem_cons.mp he with he | he
      · exact hmapped region he
      · rcases List.mem_append.mp he with he | he
        · exact absurd he (hmoves moves)
        · exact hfixedUp (List.mem_singleton.mp he)
  | called region moves =>
      rcases List.mem_cons.mp he with he | he
      · exact hmapped region he
      · rcases List.mem_append.mp he with he | he
        · exact absurd he (hmoves moves)
        · rcases List.mem_cons.mp he with he | he
          · exact hfixedUp he
          · obtain ⟨func, -, rfl⟩ := List.mem_map.mp he
            exact habout.symm

mutual

/-- Loading an image is about the images it reaches. -/
theorem LoadTrace.reaches {image i : Option (List UInt8)} {done : Bool} {events : List Event}
    {e : Event} (habout : e.IsAbout i) :
    LoadTrace next initializers image done events → e ∈ events → Reaches next image i
  | .waiting hdeps, he => by
      obtain ⟨c, hc, hreach⟩ := hdeps.reaches habout he
      exact hreach.of_mem hc
  | .own hdeps hown, he => by
      rcases List.mem_append.mp he with he | he
      · obtain ⟨c, hc, hreach⟩ := hdeps.reaches habout he
        exact hreach.of_mem hc
      · rw [hown.isAbout he habout]
        exact .refl image

theorem DependenciesTrace.reaches {images : List (Option (List UInt8))}
    {i : Option (List UInt8)} {done : Bool} {events : List Event} {e : Event}
    (habout : e.IsAbout i) :
    DependenciesTrace next initializers images done events → e ∈ events →
      ∃ c ∈ images, Reaches next c i
  | .done, he => absurd he List.not_mem_nil
  | .stopped, he => absurd he List.not_mem_nil
  | .failed hload, he => by
      rcases List.mem_cons.mp he with rfl | he
      · exact absurd habout id
      · exact ⟨_, List.mem_cons_self, hload.reaches habout he⟩
  | .loaded hload hrest, he => by
      rcases List.mem_cons.mp he with rfl | he
      · exact absurd habout id
      · rcases List.mem_append.mp he with he | he
        · exact ⟨_, List.mem_cons_self, hload.reaches habout he⟩
        · obtain ⟨c, hc, hreach⟩ := hrest.reaches habout he
          exact ⟨c, List.mem_cons_of_mem _ hc, hreach⟩

end

variable {host : Host} {cache : DyldSharedCache} {execDir : List UInt8}

/-- The image is parsed, some of its dependencies are loaded, and the loading of the next one
returns an error. -/
structure DependencyFails (host : Host) (cache : DyldSharedCache) (execDir : List UInt8)
    (fuel : Nat) (image : MappedContainer) (w : World) (msg : String) (w' : World) where
  parsedImage : ParsedImage
  dependencies : ArrayVec (Str × Bool) 32
  before : List (Str × Bool)
  dependency : Str × Bool
  after : List (Str × Bool)
  libraries : List Library
  /-- The world when the turn of the dependency comes. -/
  loaded : World
  parse_eq : (image.view w.mem).machoParser = .ok parsedImage
  collect_eq : dependenciesCollect parsedImage cache = .ok dependencies
  items_eq : dependencies.items = before ++ dependency :: after
  before_eq : userDylibsLoadRecursively host (machoLoader host cache execDir fuel) execDir
    parsedImage.rpath before w = (.ok libraries, loaded)
  err_eq : userDylibLoad host (machoLoader host cache execDir fuel) execDir parsedImage.rpath
    dependency loaded = (.err msg, w')

theorem DependencyFails.load_eq {fuel : Nat} {image : MappedContainer} {w w' : World} {msg : String}
    (h : DependencyFails host cache execDir fuel image w msg w') :
    userDylibsLoadRecursively host (machoLoader host cache execDir fuel) execDir
      h.parsedImage.rpath h.dependencies.items w = (.err msg, w') := by
  rw [userDylibsLoadRecursively, h.items_eq]
  exact Exec.each_err h.before_eq h.err_eq

/-- **An image is not touched after one of its dependencies failed**: the loader returns the
error, and nothing that was done is about the image. -/
theorem machoLoader_dependencyFails {executable : Container} {dylibDir : Option (List UInt8)}
    {fuel : Nat} {image : MappedContainer} {w w' : World} {msg : String}
    (hacyclic : AcyclicDependencies host cache execDir executable)
    (hreached : Reaches (dependencyGraph host cache execDir executable) none dylibDir)
    (hat : imageAt host executable dylibDir = some (image.view w.mem))
    (h : DependencyFails host cache execDir fuel image w msg w') :
    machoLoader host cache execDir (fuel + 1) image dylibDir w = (.err msg, w') ∧
      ∃ added, w'.trace = w.trace ++ added ∧ ∀ e ∈ added, ¬ e.IsAbout dylibDir := by
  have hload : ∀ q image w, imageAt host executable (some q) = some (image.view w.mem) →
      Exec.Adds World.trace (LoadTrace (dependencyGraph host cache execDir executable)
        (initializersAt host executable) (some q))
        (machoLoader host cache execDir fuel image (some q)) w := fun q image w hat =>
    machoLoader_loadTrace hat
  have hdependencies := @userDylibsLoadRecursively_adds host execDir executable _ _ _ hload
    h.parsedImage.rpath h.dependencies.items w
  rw [← dependencyGraph_of_parse hat h.parse_eq h.collect_eq] at hdependencies
  obtain ⟨added, htrace, hadded⟩ := hdependencies
  rw [h.load_eq] at htrace hadded
  refine ⟨?_, added, htrace, fun e he habout => ?_⟩
  · rw [machoLoader_of_collect h.parse_eq h.collect_eq]
    exact Exec.bind_of_err h.load_eq
  · -- an image that its own dependencies reach is on a cycle
    obtain ⟨c, hc, hreach⟩ := hadded.reaches habout he
    exact hacyclic.not_reaches hreached hc hreach

/-- **Initialisation order.** In every run over an acyclic graph of dependencies each initializer
is called after the fixups of its image, after the initializers of its image before it in section
and file order, and after every initializer of every dylib its image depends on; and an image of
which a dependency fails to load is neither mapped nor initialized. -/
theorem machoLoader_initOrder {image : MappedContainer} {w : World}
    (hacyclic : AcyclicDependencies host cache execDir (image.view w.mem)) (fuel : Nat) :
    (∃ added, (machoLoader host cache execDir fuel image none w).2.trace = w.trace ++ added ∧
      InitOrder (dependencyGraph host cache execDir (image.view w.mem))
        (initializersAt host (image.view w.mem)) added) ∧
    (∀ i c parsedImage, imageAt host (image.view w.mem) i = some c →
      c.machoParser = .ok parsedImage → ∃ commands, c.loadCommands = some commands ∧
        c.initFuncsOf commands = some (initializersAt host (image.view w.mem) i)) ∧
    ∀ dylibDir n image' w₁ msg w₂,
      Reaches (dependencyGraph host cache execDir (image.view w.mem)) none dylibDir →
      imageAt host (image.view w.mem) dylibDir = some (image'.view w₁.mem) →
      DependencyFails host cache execDir n image' w₁ msg w₂ →
      machoLoader host cache execDir (n + 1) image' dylibDir w₁ = (.err msg, w₂) ∧
        ∃ added, w₂.trace = w₁.trace ++ added ∧ ∀ e ∈ added, ¬ e.IsAbout dylibDir := by
  refine ⟨?_, ?_, ?_⟩
  · have hat : imageAt host (image.view w.mem) none = some (image.view w.mem) := rfl
    obtain ⟨added, htrace, hadded⟩ := @machoLoader_loadTrace host cache execDir _ fuel _ _ _ hat
    exact ⟨added, htrace, hadded.initOrder⟩
  · intro i c parsedImage hat hparse
    rw [initializersAt_of_parse hat hparse]
    exact Container.machoParser_initFunctions hparse
  · intro dylibDir n image' w₁ msg w₂ hreached hat hfails
    exact machoLoader_dependencyFails hacyclic hreached hat hfails

/-- The executable, `/a` and `/c`: nobody reaches himself. -/
theorem sampleShared_initOrder :
    (∃ added, sampleSharedRun.2.trace = (sampleWorld sampleSharedExecutable).trace ++ added ∧
      InitOrder (dependencyGraph (sampleHost sampleSharedFile) sampleNoCache []
          (sampleSharedImage.view (sampleWorld sampleSharedExecutable).mem))
        (initializersAt (sampleHost sampleSharedFile)
          (sampleSharedImage.view (sampleWorld sampleSharedExecutable).mem)) added) := by
  obtain ⟨added, htrace, horder⟩ :=
    (machoLoader_initOrder (acyclicDependencies_of_machoLoader sampleShared_returns) 4).1
  exact ⟨added, by rw [sampleSharedRun, htrace], horder⟩

/-! ## The address of a call -/

/-- Every initializer is called at its offset from the Mach header of its image, which is where the
fixups of the image are applied from: `imageBase` past the start of the region mapped for it last. -/
def CalledAtHeader (events : List Event) : Prop :=
  ∀ before image func address after, events = before ++ .called image func address :: after →
    ∃ waited region own, before = waited ++ .mapped image region :: own ∧
      (∀ region', .mapped image region' ∉ own) ∧
      address = ptrAdd (ptrAdd region.start (imageBase image)) func

/-- The region that was mapped last is one. -/
theorem lastMapped_unique {image : Option (List UInt8)} {waited waited' own own' : List Event}
    {region region' : ByteRange}
    (h : waited ++ .mapped image region :: own = waited' ++ .mapped image region' :: own')
    (hown : ∀ r, .mapped image r ∉ own) (hown' : ∀ r, .mapped image r ∉ own') :
    region = region' := by
  rcases split_append h with ⟨rest, rfl⟩ | ⟨rest, rfl, hrest⟩
  · -- then the first one is behind the second one
    rw [List.append_assoc] at h
    have h := (List.cons.inj (List.append_cancel_left h)).2
    refine absurd ?_ (hown' region)
    rw [← h]
    exact List.mem_append_right _ List.mem_cons_self
  · cases rest with
    | nil => exact (Event.mapped.inj (List.cons.inj hrest).1).2
    | cons e rest =>
        obtain ⟨-, hrest⟩ := List.cons.inj hrest
        refine absurd ?_ (hown region')
        rw [hrest]
        exact List.mem_append_right _ List.mem_cons_self

/-- The loader adds `PAGE_ZERO_SIZE` for every image, and the header of a dylib is not there. -/
theorem calledAddress_eq_iff (image : Option (List UInt8)) (vm func : Nat) :
    ptrAdd (ptrAdd vm func) pageZeroSize = ptrAdd (ptrAdd vm (imageBase image)) func ↔
      image = none := by
  unfold ptrAdd imageBase pageZeroSize
  cases image with
  | none =>
      simp only [Option.isNone_none, if_true, iff_true]
      omega
  | some q =>
      simp only [Option.isNone_some, Bool.false_eq_true, if_false, reduceCtorEq, iff_false]
      omega

/-- Where the calls in a trace are right: in those of the executable. -/
theorem InitOrder.calledAtHeader_iff {events : List Event}
    (h : InitOrder next initializers events) :
    CalledAtHeader events ↔ ∀ q func address, .called (some q) func address ∉ events := by
  have hquiet : ∀ (image : Option (List UInt8)) (region : ByteRange) (moves : List Mem.Move)
      (funcs : List Nat) (r : ByteRange), .mapped image r ∉
        moves.map moveEvent ++ .fixedUp image :: funcs.map (calledEvent image region.start) := by
    intro image region moves funcs r hmem
    rcases List.mem_append.mp hmem with hmem | hmem
    · obtain ⟨mv, -, hmv⟩ := List.mem_map.mp hmem
      exact absurd hmv (by simp [moveEvent])
    · rcases List.mem_cons.mp hmem with hmem | hmem
      · exact absurd hmem (by simp)
      · obtain ⟨func, -, hfunc⟩ := List.mem_map.mp hmem
        exact absurd hfunc (by simp [calledEvent])
  constructor
  · intro hheader q func address hmem
    obtain ⟨before, after, hsplit⟩ := List.append_of_mem hmem
    obtain ⟨waited, region, moves, funcs, later, hbefore, -, hcalled, -⟩ :=
      h before (some q) func address after hsplit
    obtain ⟨waited', region', own', hbefore', hown', haddress⟩ :=
      hheader before (some q) func address after hsplit
    -- both split the events at the last mapping of the image
    obtain rfl := lastMapped_unique (hbefore.symm.trans hbefore') (hquiet _ _ _ _) hown'
    obtain ⟨-, -, hcalled⟩ := Event.called.inj hcalled
    have himage := (calledAddress_eq_iff (some q) region.start func).mp
      (hcalled.symm.trans haddress)
    exact absurd himage (by simp)
  · intro hdylibs before image func address after hsplit
    have himage : image = none := by
      cases image with
      | none => rfl
      | some q =>
          refine absurd ?_ (hdylibs q func address)
          rw [hsplit]
          exact List.mem_append_right before List.mem_cons_self
    obtain ⟨waited, region, moves, funcs, later, hbefore, -, hcalled, -⟩ :=
      h before image func address after hsplit
    obtain ⟨-, -, hcalled⟩ := Event.called.inj hcalled
    exact ⟨waited, region, _, hbefore, hquiet _ _ _ _,
      hcalled.trans ((calledAddress_eq_iff image region.start func).mpr himage)⟩

/-- Only initializers of the image are called. -/
theorem OwnTrace.called_mem {image i : Option (List UInt8)} {funcs : List Nat} {done : Bool}
    {events : List Event} {func address : Nat} (h : OwnTrace image funcs done events)
    (hmem : .called i func address ∈ events) : func ∈ funcs := by
  obtain ⟨before, after, hsplit⟩ := List.append_of_mem hmem
  obtain ⟨-, _, _, earlier, later, -, rfl, -⟩ := h.split hsplit
  exact List.mem_append_right earlier List.mem_cons_self

mutual

/-- Loading an image calls nothing but initializers. -/
theorem LoadTrace.called_mem {image : Option (List UInt8)} {done : Bool} {events : List Event}
    {i : Option (List UInt8)} {func address : Nat} :
    LoadTrace next initializers image done events → .called i func address ∈ events →
      func ∈ initializers i
  | .waiting hdeps, hmem => hdeps.called_mem hmem
  | .own hdeps hown, hmem => by
      rcases List.mem_append.mp hmem with hmem | hmem
      · exact hdeps.called_mem hmem
      · have habout : (Event.called i func address).IsAbout i := rfl
        rw [hown.isAbout hmem habout]
        exact hown.called_mem hmem

theorem DependenciesTrace.called_mem {images : List (Option (List UInt8))} {done : Bool}
    {events : List Event} {i : Option (List UInt8)} {func address : Nat} :
    DependenciesTrace next initializers images done events → .called i func address ∈ events →
      func ∈ initializers i
  | .done, hmem => absurd hmem List.not_mem_nil
  | .stopped, hmem => absurd hmem List.not_mem_nil
  | .failed hload, hmem => by
      rcases List.mem_cons.mp hmem with hmem | hmem
      · exact absurd hmem (by simp)
      · exact hload.called_mem hmem
  | .loaded hload hrest, hmem => by
      rcases List.mem_cons.mp hmem with hmem | hmem
      · exact absurd hmem (by simp)
      · rcases List.mem_append.mp hmem with hmem | hmem
        · exact hload.called_mem hmem
        · exact hrest.called_mem hmem

end

/-- No dylib that the executable depends on has an initializer. -/
def NoDylibInitializers (host : Host) (cache : DyldSharedCache) (execDir : List UInt8)
    (executable : Container) : Prop :=
  ∀ q, Reaches (dependencyGraph host cache execDir executable) none (some q) →
    initializersAt host executable (some q) = []

/-- **Initializers are called at the right addresses if no dylib has any**, in every run. In a run
that returns every dylib had its turn, so then it is the only case. -/
theorem machoLoader_calledAtHeader (host : Host) (cache : DyldSharedCache) (execDir : List UInt8)
    (fuel : Nat) (image : MappedContainer) (w : World) :
    ∃ added, (machoLoader host cache execDir fuel image none w).2.trace = w.trace ++ added ∧
      (NoDylibInitializers host cache execDir (image.view w.mem) → CalledAtHeader added) ∧
      ((∃ r, (machoLoader host cache execDir fuel image none w).1 = .ok r) →
        (CalledAtHeader added ↔ NoDylibInitializers host cache execDir (image.view w.mem))) := by
  have hat : imageAt host (image.view w.mem) none = some (image.view w.mem) := rfl
  obtain ⟨added, htrace, hadded⟩ := @machoLoader_loadTrace host cache execDir _ fuel _ _ _ hat
  have hsuffices : NoDylibInitializers host cache execDir (image.view w.mem) →
      CalledAtHeader added := by
    intro hnone
    refine hadded.initOrder.calledAtHeader_iff.mpr fun q func address hmem => ?_
    have habout : (Event.called (some q) func address).IsAbout (some q) := rfl
    have hfunc := hadded.called_mem hmem
    rw [hnone q (hadded.reaches habout hmem)] at hfunc
    exact absurd hfunc List.not_mem_nil
  refine ⟨added, htrace, hsuffices, fun hok => ⟨fun hheader q hreached => ?_, hsuffices⟩⟩
  refine List.eq_nil_iff_forall_not_mem.mpr fun func hfunc => ?_
  obtain ⟨address, hmem⟩ := hadded.allCalled (Outcome.isOk_eq_true.mpr hok) (some q) hreached func
    hfunc
  exact hadded.initOrder.calledAtHeader_iff.mp hheader q func address hmem

/-- `/c` is called, and a dylib is not where the loader looks for it. -/
theorem sampleShared_calledElsewhere :
    sampleSharedRun.1 = .ok (4984, 4294972280) ∧ ¬ CalledAtHeader sampleSharedRun.2.trace := by
  refine ⟨sampleShared_returns, fun hheader => ?_⟩
  obtain ⟨added, htrace, horder⟩ := @machoLoader_loadTrace (sampleHost sampleSharedFile)
    sampleNoCache [] (sampleSharedImage.view (sampleWorld sampleSharedExecutable).mem) 4 none
    sampleSharedImage (sampleWorld sampleSharedExecutable) rfl
  have hadded : added = sampleSharedRun.2.trace := by
    rw [sampleSharedRun, htrace]
    rfl
  rw [hadded] at horder
  have hcalled : .called (some (ascii "/c" ++ [0])) 8 4294972052 ∈ sampleSharedRun.2.trace := by
    decide +kernel
  exact horder.initOrder.calledAtHeader_iff.mp hheader _ _ _ hcalled

end Dynld
