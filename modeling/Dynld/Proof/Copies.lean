import Dynld.Lib.Trace
import Dynld.Proof.SegmentMapping
import Dynld.Proof.Termination
import Mathlib.Algebra.BigOperators.Ring.List
import Mathlib.Tactic.Ring

/-!
# How often an image is loaded

The loader keeps no record of what it has loaded, so it loads a dylib once for each
chain of dependencies from the executable to it. Everything that is done for an image
when it is loaded is done once for each chain: its file is mapped, its segments are,
and its initializers are called. A `Tally` says where in this the counted events are.

The copies never share memory. Each is mapped to a range that was not in use.
-/

namespace Dynld

open Chains (chains)

/-! ## One image -/

/-- The events that a predicate picks out are about the dylib at `path`; this many are noted when
its file is mapped, when its segments are, and when an initializer of it is called. -/
structure Tally (p : Event → Bool) (path : List UInt8) where
  opened : Nat
  mapped : Nat
  called : Nat → Nat
  opened_eq : ∀ q, (if p (.opened q) then 1 else 0) = if q = path then opened else 0
  mapped_eq : ∀ image region,
    (if p (.mapped image region) then 1 else 0) = if image = some path then mapped else 0
  called_eq : ∀ image func address,
    (if p (.called image func address) then 1 else 0) = if image = some path then called func else 0
  copied_eq : ∀ src dst count, p (.copied src dst count) = false
  fixedUp_eq : ∀ image, p (.fixedUp image) = false

/-- What is noted each time the dylib is loaded, if these are its initializers. -/
def Tally.perCopy {p : Event → Bool} {path : List UInt8} (t : Tally p path)
    (initFunctions : List Nat) : Nat :=
  t.opened + t.mapped + (initFunctions.map t.called).sum

variable {host : Host} {cache : DyldSharedCache} {execDir : List UInt8} {executable : Container}
  {p : Event → Bool} {path : List UInt8} {w : World}

theorem diskPathMmap_notes (t : Tally p path) (q : List UInt8) :
    Exec.Notes World.trace p (if q = path then t.opened else 0 : Nat) (diskPathMmap host q) w := by
  have hopened : [Event.opened q].countP p = if q = path then t.opened else 0 := by
    rw [List.countP_singleton, t.opened_eq]
  rw [← hopened]
  refine Exec.Notes.after (Exec.notes_zero rfl) fun bytes w₁ _ => ?_
  split
  · exact Exec.notes_of_fails rfl (by simp)
  split
  · exact Exec.notes_of_fails rfl (by simp)
  refine Exec.Notes.after (Exec.notes_zero rfl) fun address w₂ _ => ?_
  split
  · exact Exec.notes_of_fails rfl (by simp)
  · exact Exec.notes_of_ok rfl rfl

theorem countP_copied (t : Tally p path) (moves : List Mem.Move) :
    (moves.map moveEvent).countP p = 0 := by
  rw [List.countP_eq_zero]
  intro e he
  obtain ⟨mv, -, rfl⟩ := List.mem_map.mp he
  rw [moveEvent, t.copied_eq]
  decide

theorem machoSegmentsMapToVm_notes (t : Tally p path) (dylibDir : Option (List UInt8))
    (image : MappedContainer) (segments : List Segment) :
    Exec.Notes World.trace p (if dylibDir = some path then t.mapped else 0 : Nat)
      (machoSegmentsMapToVm host dylibDir image segments) w := by
  have hmapped : ∀ region, [Event.mapped dylibDir region].countP p
      = if dylibDir = some path then t.mapped else 0 := by
    intro region
    rw [List.countP_singleton, t.mapped_eq]
  have halloc : ∀ size w, Exec.Notes World.trace p
      (if dylibDir = some path then t.mapped else 0 : Nat) (vmAllocTaskSelf host dylibDir size)
      w := by
    intro size w
    refine Exec.Notes.after (Exec.notes_zero rfl) fun address w₁ _ => ?_
    rw [← hmapped ⟨address, size⟩]
    split
    · exact Exec.notes_of_fails rfl (by simp)
    · exact Exec.notes_of_ok rfl rfl
  refine Exec.Notes.after (Exec.notes_zero rfl) fun bounds w₁ _ => ?_
  refine Exec.Notes.after (Exec.notes_zero rfl) fun vmSize w₂ _ => ?_
  refine ((halloc vmSize w₂).bind fun vm w₃ _ => ?_).of_eq (add_zero _)
  refine Exec.Notes.after ?_ fun _ w₄ _ => Exec.notes_zero rfl
  refine (Exec.notes_of_ok (segmentsCopy_run _ _ _ _ _) rfl).of_eq ?_
  rw [countP_copied t]
  rfl

theorem countP_called (t : Tally p path) (dylibDir : Option (List UInt8)) (vm : Nat)
    (funcs : List Nat) : (funcs.map (calledEvent dylibDir vm)).countP p
      = if dylibDir = some path then (funcs.map t.called).sum else 0 := by
  induction funcs with
  | nil => simp
  | cons func funcs ih =>
      have hcalled := t.called_eq dylibDir func (ptrAdd (ptrAdd vm func) pageZeroSize)
      rw [List.map_cons, List.countP_cons, ih, calledEvent, hcalled, List.map_cons, List.sum_cons]
      split
      · rw [Nat.add_comm]
      · rfl

theorem machoSegmentsVmProtect_trace (vm : Nat) : ∀ (segments : List Segment) (w : World),
    (machoSegmentsVmProtect host vm segments w).2 = w := by
  intro segments
  induction segments with
  | nil =>
    intro _
    rfl
  | cons seg rest ih =>
    intro w
    have hrest := ih w
    change ((if (host.vmProtect w ⟨vm + seg.vmAddr, seg.vmSize⟩ true seg.prot
        && host.vmProtect w ⟨vm + seg.vmAddr, seg.vmSize⟩ false seg.prot) = true
      then machoSegmentsVmProtect host vm rest
      else liftM (Outcome.err (α := Unit) "could not apply vm protections to a memory region"))
      w).2 = w
    split
    · exact hrest
    · rfl

theorem imageFinalize_notes (t : Tally p path) (dylibDir : Option (List UInt8)) (vm : Nat)
    (parsedImage : ParsedImage) :
    Exec.Notes World.trace p
      (if dylibDir = some path then (parsedImage.initFunctions.map t.called).sum else 0 : Nat)
      (imageFinalize host dylibDir vm parsedImage) w := by
  refine Exec.Notes.after ?_ fun _ w₁ _ => ?_
  · refine Exec.notes_zero ?_
    unfold imageTlvInitialize
    split
    · rfl
    · rfl
  refine Exec.Notes.after (Exec.notes_zero ?_) fun _ w₂ _ => ?_
  · rw [machoSegmentsVmProtect_trace]
  · obtain ⟨mem, hrun⟩ := @machoInitFunctionsExec_run host dylibDir vm parsedImage.initFunctions w₂
    refine (Exec.notes_of_ok hrun rfl).of_eq ?_
    rw [countP_called t]

theorem imageFixupsApply_notes (t : Tally p path) (dylibDir : Option (List UInt8)) (vm : Nat)
    (parsedImage : ParsedImage) (dependencies : List Library) :
    Exec.Notes World.trace p 0 (imageFixupsApply dylibDir vm parsedImage dependencies cache) w := by
  refine Exec.Notes.after (Exec.notes_zero rfl) fun _ w₁ _ => ?_
  have hfixedUp : [Event.fixedUp dylibDir].countP p = 0 := by
    rw [List.countP_singleton, t.fixedUp_eq]
    rfl
  have hnotes : Exec.Notes World.trace p ([Event.fixedUp dylibDir].countP p : Nat)
      (Exec.modify fun w => w.note (.fixedUp dylibDir)) w₁ := Exec.notes_of_ok rfl rfl
  exact hnotes.of_eq (by rw [hfixedUp, Nat.cast_zero])

/-! ## Every image -/

variable (host executable) in
/-- The initializers of an image. -/
def initializersAt (image : Option (List UInt8)) : List Nat :=
  match imageAt host executable image with
  | some c =>
      match c.machoParser with
      | .ok parsedImage => parsedImage.initFunctions
      | _ => []
  | none => []

theorem initializersAt_of_parse {image : Option (List UInt8)} {c : Container}
    {parsedImage : ParsedImage} (hat : imageAt host executable image = some c)
    (hparse : c.machoParser = .ok parsedImage) :
    initializersAt host executable image = parsedImage.initFunctions := by
  unfold initializersAt
  rw [hat]
  dsimp only
  rw [hparse]

variable (host cache execDir executable) in
/-- One for each chain of dependencies from an image to a dylib. -/
noncomputable def copies (image : Option (List UInt8)) (path : List UInt8) : ℕ∞ :=
  (chains (dependencyGraph host cache execDir executable) image (some path)).encard

/-- What loading an image notes: what loading its dependencies does, and what is its own. -/
theorem copies_mul {q : List UInt8} (opened own m : Nat) (hm : m = opened + own) :
    ((if q = path then opened else 0 : Nat) : ℕ∞)
      + ((((dependencyGraph host cache execDir executable (some q)).map fun image =>
          copies host cache execDir executable image path * m).sum)
        + ((if some q = some path then own else 0 : Nat) : ℕ∞))
      = copies host cache execDir executable (some q) path * m := by
  have hcount := Chains.chains_encard (dependencyGraph host cache execDir executable) (some q)
    (some path)
  unfold copies
  rw [hcount, add_mul, List.sum_map_mul_right, hm]
  by_cases hq : q = path
  · rw [if_pos hq, if_pos (congrArg some hq), if_pos (congrArg some hq), one_mul, Nat.cast_add]
    ring
  · rw [if_neg hq, if_neg (fun h => hq (Option.some.inj h)),
      if_neg (fun h => hq (Option.some.inj h)), zero_mul]
    simp

theorem sum_filterMap {γ δ : Type} {f : γ → Option δ} {h : δ → ℕ∞} (l : List γ) :
    (l.map fun x => (f x).elim 0 h).sum = ((l.filterMap f).map h).sum := by
  induction l with
  | nil => rfl
  | cons x l ih =>
      rw [List.map_cons, List.sum_cons, ih]
      cases hf : f x with
      | none => rw [List.filterMap_cons_none hf, Option.elim_none, zero_add]
      | some y => rw [List.filterMap_cons_some hf, Option.elim_some, List.map_cons, List.sum_cons]

/-- A turn notes what mapping the file does and then what loading the image does. -/
theorem userDylibLoad_notes (t : Tally p path)
    {load : MappedContainer → Option (List UInt8) → Exec World (Nat × Nat)}
    {rpath : Option Rpath} {dependency : Str × Bool} {k : List UInt8 → ℕ∞}
    (hload : ∀ q, dependencyPath execDir rpath dependency = some q → ∀ image w,
      imageAt host executable (some q) = some (image.view w.mem) →
      Exec.Notes World.trace p (k q) (load image (some q)) w) :
    Exec.Notes World.trace p
      ((dependencyPath execDir rpath dependency).elim 0 fun q =>
        ((if q = path then t.opened else 0 : Nat) : ℕ∞) + k q)
      (userDylibLoad host load execDir rpath dependency) w := by
  obtain ⟨installName, isSystemDylib⟩ := dependency
  cases isSystemDylib with
  | true => exact Exec.notes_zero rfl
  | false =>
      refine Exec.Notes.after (Exec.notes_zero rfl) fun q w₁ hresolve => ?_
      have hpath : dependencyPath execDir rpath (installName, false) = some q :=
        dependencyPath_eq_some.mpr ⟨rfl, (Exec.liftM_eq_ok.mp hresolve).1⟩
      rw [hpath, Option.elim_some]
      refine (diskPathMmap_notes t q).bind fun image w₂ hmmap => ?_
      have hnotes := hload q hpath image w₂ (diskPathMmap_imageAt hmmap)
      exact (hnotes.bind fun r w₃ _ => Exec.notes_zero rfl).of_eq (add_zero _)

/-- **What a call of the loader notes**: what is noted for each copy of the dylib, as many times as
there are chains to it. -/
theorem machoLoader_notes (t : Tally p path) : ∀ {fuel : Nat} {dylibDir : Option (List UInt8)}
    {image : MappedContainer} {w : World},
    imageAt host executable dylibDir = some (image.view w.mem) →
    Exec.Notes World.trace p
      (((dependencyGraph host cache execDir executable dylibDir).map fun image =>
          copies host cache execDir executable image path
            * t.perCopy (initializersAt host executable (some path))).sum
        + ((if dylibDir = some path then
            t.mapped + ((initializersAt host executable (some path)).map t.called).sum
          else 0 : Nat) : ℕ∞))
      (machoLoader host cache execDir fuel image dylibDir) w := by
  intro fuel
  induction fuel with
  | zero =>
      intro dylibDir image w _
      exact Exec.notes_of_fails rfl (by simp [machoLoader])
  | succ fuel ih =>
      intro dylibDir image w hat
      refine Exec.Notes.after (Exec.notes_zero rfl) fun parsedImage w₁ h₁ => ?_
      obtain ⟨hparse, rfl⟩ := Exec.lift_eq_ok.mp h₁
      refine Exec.Notes.after (Exec.notes_zero rfl) fun dependencies w₂ h₂ => ?_
      obtain ⟨hcollect, rfl⟩ := Exec.liftM_eq_ok.mp h₂
      have hturn : ∀ dependency ∈ dependencies.items, ∀ w, Exec.Notes World.trace p
          ((dependencyPath execDir parsedImage.rpath dependency).elim 0 fun q =>
            copies host cache execDir executable (some q) path
              * t.perCopy (initializersAt host executable (some path)))
          (userDylibLoad host (machoLoader host cache execDir fuel) execDir parsedImage.rpath
            dependency) w := by
        intro dependency _ w
        refine (userDylibLoad_notes t fun q _ image w hat => ih hat).of_eq ?_
        congr 1
        funext q
        exact copies_mul _ _ _ (by rw [Tally.perCopy, Nat.add_assoc])
      refine (Exec.Notes.bind (Exec.Notes.each hturn) fun dylibImages w₃ _ => ?_).of_eq
        (congrArg (· + _) ?_)
      · -- the image's own part: it is mapped, then its initializers are called
        have hown : (if dylibDir = some path then
              t.mapped + ((initializersAt host executable (some path)).map t.called).sum else 0)
            = (if dylibDir = some path then t.mapped else 0)
              + if dylibDir = some path then (parsedImage.initFunctions.map t.called).sum else 0 := by
          by_cases hd : dylibDir = some path
          · rw [if_pos hd, if_pos hd, if_pos hd, ← initializersAt_of_parse hat hparse, hd]
          · rw [if_neg hd, if_neg hd, if_neg hd]
        rw [hown, Nat.cast_add]
        refine (machoSegmentsMapToVm_notes t _ _ _).bind fun vm w₄ _ => ?_
        refine Exec.Notes.after (imageFixupsApply_notes t _ _ _ _) fun _ w₅ _ => ?_
        exact ((imageFinalize_notes t _ _ _).bind fun _ w₆ _ => Exec.notes_zero rfl).of_eq
          (add_zero _)
      · -- what its dependencies note, summed over the edges of the graph
        rw [sum_filterMap, dependencyGraph_of_parse hat hparse hcollect, List.map_map]
        rfl

/-! ## What is counted -/

def isOpened (path : List UInt8) : Event → Bool
  | .opened q => decide (q = path)
  | _ => false

def isMapped (path : List UInt8) : Event → Bool
  | .mapped image _ => decide (image = some path)
  | _ => false

def isCalled (path : List UInt8) (func : Nat) : Event → Bool
  | .called image func' _ => decide (image = some path) && decide (func' = func)
  | _ => false

def openedTally (path : List UInt8) : Tally (isOpened path) path where
  opened := 1
  mapped := 0
  called := fun _ => 0
  opened_eq := fun q => by simp [isOpened]
  mapped_eq := fun image region => by simp [isOpened]
  called_eq := fun image func address => by simp [isOpened]
  copied_eq := fun _ _ _ => rfl
  fixedUp_eq := fun _ => rfl

def mappedTally (path : List UInt8) : Tally (isMapped path) path where
  opened := 0
  mapped := 1
  called := fun _ => 0
  opened_eq := fun q => by simp [isMapped]
  mapped_eq := fun image region => by simp [isMapped]
  called_eq := fun image func address => by simp [isMapped]
  copied_eq := fun _ _ _ => rfl
  fixedUp_eq := fun _ => rfl

def calledTally (path : List UInt8) (func : Nat) : Tally (isCalled path func) path where
  opened := 0
  mapped := 0
  called := fun func' => if func' = func then 1 else 0
  opened_eq := fun q => by simp [isCalled]
  mapped_eq := fun image region => by simp [isCalled]
  called_eq := fun image func' address => by
    by_cases himage : image = some path
    · simp [isCalled, himage]
    · simp [isCalled, himage]
  copied_eq := fun _ _ _ => rfl
  fixedUp_eq := fun _ => rfl

theorem openedTally_perCopy (initFunctions : List Nat) :
    (openedTally path).perCopy initFunctions = 1 := by
  simp [Tally.perCopy, openedTally]

theorem mappedTally_perCopy (initFunctions : List Nat) :
    (mappedTally path).perCopy initFunctions = 1 := by
  simp [Tally.perCopy, mappedTally]

theorem calledTally_perCopy (func : Nat) (initFunctions : List Nat) :
    (calledTally path func).perCopy initFunctions = initFunctions.count func := by
  induction initFunctions with
  | nil => rfl
  | cons func' rest ih =>
      simp only [Tally.perCopy, calledTally, Nat.zero_add, List.map_cons, List.sum_cons] at ih ⊢
      rw [ih, List.count_cons, Nat.add_comm]
      simp

/-! ## Where the copies are -/

/-- The region an image was mapped to. -/
def mappedRegion : Event → Option ByteRange
  | .mapped _ region => some region
  | _ => none

/-- What a call of the loader does to the ranges in use: it adds to them, and each region it maps
was not in use. -/
def Grows (w w' : World) : Prop :=
  (∀ r ∈ w.regions, r ∈ w'.regions) ∧
  ∃ added, w'.trace = w.trace ++ added ∧
    (∀ r ∈ added.filterMap mappedRegion, r ∈ w'.regions ∧ ∀ s ∈ w.regions, ByteRange.Apart r s) ∧
    (added.filterMap mappedRegion).Pairwise ByteRange.Apart

/-- A world with the same regions, and nothing mapped. -/
theorem grows_of_quiet {w w' : World} {added : List Event} (hregions : w'.regions = w.regions)
    (htrace : w'.trace = w.trace ++ added) (hquiet : added.filterMap mappedRegion = []) :
    Grows w w' := by
  refine ⟨fun r hr => hregions ▸ hr, added, htrace, ?_, ?_⟩
  · rw [hquiet]
    exact fun r hr => absurd hr List.not_mem_nil
  · rw [hquiet]
    exact List.Pairwise.nil

theorem Grows.refl (w : World) : Grows w w := grows_of_quiet rfl (List.append_nil _).symm rfl

theorem Grows.trans (w w' w'' : World) (h : Grows w w') (h' : Grows w' w'') : Grows w w'' := by
  obtain ⟨hregions, added, htrace, hnew, hapart⟩ := h
  obtain ⟨hregions', added', htrace', hnew', hapart'⟩ := h'
  refine ⟨fun r hr => hregions' r (hregions r hr), added ++ added', ?_, ?_, ?_⟩
  · rw [htrace', htrace, List.append_assoc]
  · intro r hr
    rw [List.filterMap_append] at hr
    rcases List.mem_append.mp hr with hr | hr
    · exact ⟨hregions' r (hnew r hr).1, (hnew r hr).2⟩
    · exact ⟨(hnew' r hr).1, fun s hs => (hnew' r hr).2 s (hregions s hs)⟩
  · rw [List.filterMap_append, List.pairwise_append]
    exact ⟨hapart, hapart', fun r hr s hs => ((hnew' s hs).2 r (hnew r hr).1).symm⟩

section

variable {α : Type}

theorem steps_lift (x : World → Outcome α) : Exec.Steps Grows (Exec.lift x) := Grows.refl

theorem steps_liftM (x : Outcome α) : Exec.Steps Grows (liftM x : Exec World α) := Grows.refl

theorem steps_pure (a : α) : Exec.Steps Grows (pure a : Exec World α) := Grows.refl

end

theorem diskPathMmap_grows (host : Host) (q : List UInt8) :
    Exec.Steps Grows (diskPathMmap host q) := by
  refine Exec.Steps.bind Grows.trans (steps_liftM _) fun bytes => ?_
  split
  · exact steps_liftM _
  split
  · exact steps_liftM _
  refine Exec.Steps.bind Grows.trans (steps_lift _) fun address => ?_
  split
  · exact steps_liftM _
  · exact fun w => ⟨fun r hr => List.mem_cons_of_mem _ hr, [.opened q], rfl,
      fun r hr => absurd hr List.not_mem_nil, List.Pairwise.nil⟩

theorem machoSegmentsMapToVm_grows (hfresh : host.FreshRegions) (dylibDir : Option (List UInt8))
    (image : MappedContainer) (segments : List Segment) :
    Exec.Steps Grows (machoSegmentsMapToVm host dylibDir image segments) := by
  have halloc : ∀ size, Exec.Steps Grows (vmAllocTaskSelf host dylibDir size) := by
    intro size w
    unfold vmAllocTaskSelf
    rw [Exec.bind_run, Exec.lift_run]
    cases hvm : host.vmAllocate w size with
    | none => exact Grows.refl w
    | some address =>
        dsimp only [Outcome.okOr_some]
        split
        · exact Grows.refl w
        · refine ⟨fun r hr => List.mem_cons_of_mem _ hr, [.mapped dylibDir ⟨address, size⟩], rfl,
            ?_, List.pairwise_singleton _ _⟩
          intro r hr
          obtain rfl : r = ⟨address, size⟩ := List.mem_singleton.mp hr
          exact ⟨List.mem_cons_self, fun s hs => hfresh w size address hvm s hs⟩
  refine Exec.Steps.bind Grows.trans (steps_liftM _) fun bounds => ?_
  refine Exec.Steps.bind Grows.trans (steps_liftM _) fun vmSize => ?_
  refine Exec.Steps.bind Grows.trans (halloc vmSize) fun vm => ?_
  refine Exec.Steps.bind Grows.trans ?_ fun _ => steps_pure _
  intro w
  rw [segmentsCopy_run]
  refine grows_of_quiet rfl rfl ?_
  rw [List.filterMap_map]
  exact List.filterMap_eq_nil_iff.mpr fun _ _ => rfl

theorem imageFixupsApply_grows (dylibDir : Option (List UInt8)) (vm : Nat)
    (parsedImage : ParsedImage) (dependencies : List Library) :
    Exec.Steps Grows (imageFixupsApply dylibDir vm parsedImage dependencies cache) := by
  refine Exec.Steps.bind Grows.trans ?_ fun _ => ?_
  · exact fun w => grows_of_quiet rfl (List.append_nil _).symm rfl
  · exact fun w => grows_of_quiet rfl rfl rfl

theorem imageFinalize_grows (host : Host) (dylibDir : Option (List UInt8)) (vm : Nat)
    (parsedImage : ParsedImage) : Exec.Steps Grows (imageFinalize host dylibDir vm parsedImage) := by
  refine Exec.Steps.bind Grows.trans ?_ fun _ => ?_
  · unfold imageTlvInitialize
    split
    · exact fun w => grows_of_quiet rfl (List.append_nil _).symm rfl
    · exact steps_pure _
  refine Exec.Steps.bind Grows.trans ?_ fun _ => ?_
  · intro w
    rw [machoSegmentsVmProtect_trace]
    exact Grows.refl w
  · intro w
    obtain ⟨mem, hrun⟩ := @machoInitFunctionsExec_run host dylibDir vm parsedImage.initFunctions w
    rw [hrun]
    refine grows_of_quiet rfl rfl ?_
    rw [List.filterMap_map]
    exact List.filterMap_eq_nil_iff.mpr fun _ _ => rfl

theorem userDylibLoad_grows {load : MappedContainer → Option (List UInt8) → Exec World (Nat × Nat)}
    (hload : ∀ image dylibDir, Exec.Steps Grows (load image dylibDir)) (rpath : Option Rpath)
    (dependency : Str × Bool) :
    Exec.Steps Grows (userDylibLoad host load execDir rpath dependency) := by
  obtain ⟨installName, isSystemDylib⟩ := dependency
  cases isSystemDylib with
  | true => exact steps_pure _
  | false =>
      refine Exec.Steps.bind Grows.trans (steps_liftM _) fun q => ?_
      refine Exec.Steps.bind Grows.trans (diskPathMmap_grows host q) fun image => ?_
      exact Exec.Steps.bind Grows.trans (hload image (some q)) fun r => steps_pure _

theorem machoLoader_grows (hfresh : host.FreshRegions) : ∀ (fuel : Nat) (image : MappedContainer)
    (dylibDir : Option (List UInt8)),
    Exec.Steps Grows (machoLoader host cache execDir fuel image dylibDir) := by
  intro fuel
  induction fuel with
  | zero =>
    intro _ _
    exact steps_liftM _
  | succ fuel ih =>
    intro image dylibDir
    have hturn : ∀ rpath dependency, Exec.Steps Grows (userDylibLoad host
        (machoLoader host cache execDir fuel) execDir rpath dependency) :=
      userDylibLoad_grows ih
    refine Exec.Steps.bind Grows.trans (steps_lift _) fun parsedImage => ?_
    refine Exec.Steps.bind Grows.trans (steps_liftM _) fun dependencies => ?_
    refine Exec.Steps.bind Grows.trans
      (Exec.Steps.each Grows.refl Grows.trans (hturn parsedImage.rpath) _) fun dylibImages => ?_
    refine Exec.Steps.bind Grows.trans
      (machoSegmentsMapToVm_grows hfresh dylibDir image _) fun vm => ?_
    refine Exec.Steps.bind Grows.trans (imageFixupsApply_grows _ _ _ _) fun _ => ?_
    exact Exec.Steps.bind Grows.trans (imageFinalize_grows host _ _ _) fun _ => steps_pure _

/-- A dylib is loaded to a region that was not in use before, and is from then on. -/
theorem machoLoader_fresh (hfresh : host.FreshRegions) {fuel : Nat} {image : MappedContainer}
    {q : List UInt8} {w w' : World} {vm vmSize : Nat}
    (h : machoLoader host cache execDir fuel image (some q) w = (.ok (vm, vmSize), w')) :
    (∀ r ∈ w.regions, ByteRange.Apart ⟨vm, vmSize⟩ r) ∧ ⟨vm, vmSize⟩ ∈ w'.regions := by
  obtain ⟨n, rfl, ⟨run⟩⟩ := machoLoader_eq_ok h
  obtain ⟨hvm, hvmSize⟩ : vm = run.vm ∧ vmSize = run.vmSize := Prod.mk.inj run.result_eq
  obtain ⟨_, _, -, -, -, halloc, hmapped⟩ := machoSegmentsMapToVm_eq_ok run.map_eq
  have hturn : ∀ dependency, Exec.Steps Grows (userDylibLoad host
      (machoLoader host cache execDir n) execDir run.parsedImage.rpath dependency) :=
    userDylibLoad_grows (machoLoader_grows hfresh n) _
  have hloaded := Exec.Steps.each Grows.refl Grows.trans hturn run.dependencies.items w
  rw [show Exec.each _ _ w = _ from run.load_eq] at hloaded
  have hregion : (⟨vm, vmSize⟩ : ByteRange) = ⟨run.vm, run.vmSize⟩ :=
    congrArg₂ ByteRange.mk hvm hvmSize
  rw [hregion]
  refine ⟨fun r hr => hfresh _ _ _ halloc r (hloaded.1 r hr), ?_⟩
  have hfixed := (imageFixupsApply_eq_ok run.fixup_eq).1
  have hfinished := (imageFinalize_eq_ok run.finalize_eq).1
  rw [hfinished, hfixed, hmapped]
  exact List.mem_cons_self

theorem userDylibLoad_fresh (hfresh : host.FreshRegions) {fuel : Nat} {rpath : Option Rpath}
    {dependency : Str × Bool} {container : MappedContainer} {w w' : World}
    (h : userDylibLoad host (machoLoader host cache execDir fuel) execDir rpath dependency w
      = (.ok (.user container), w')) :
    (∀ r ∈ w.regions, ByteRange.Apart container.bytes r) ∧ container.bytes ∈ w'.regions := by
  obtain ⟨installName, isSystemDylib⟩ := dependency
  cases isSystemDylib with
  | true => exact absurd (Outcome.ok.inj (Prod.mk.inj h).1) (by simp)
  | false =>
      obtain ⟨q, w₁, hlift, h₁⟩ := Exec.bind_eq_ok.mp h
      obtain ⟨-, rfl⟩ := Exec.liftM_eq_ok.mp hlift
      obtain ⟨image, w₂, hmmap, h₂⟩ := Exec.bind_eq_ok.mp h₁
      obtain ⟨⟨vm, vmSize⟩, w₃, hload, h₃⟩ := Exec.bind_eq_ok.mp h₂
      obtain ⟨hlibrary, rfl⟩ := Prod.mk.inj h₃
      obtain rfl := Library.user.inj (Outcome.ok.inj hlibrary)
      obtain ⟨bytes, address, -, -, -, hw₂⟩ := diskPathMmap_eq_ok hmmap
      obtain ⟨hapart, hmem⟩ := machoLoader_fresh hfresh hload
      refine ⟨fun r hr => hapart r ?_, hmem⟩
      rw [hw₂]
      exact List.mem_cons_of_mem _ hr

/-- The counts of what is done for each dylib stand in this relation to its chains. -/
def CountsChains (rel : ℕ∞ → ℕ∞ → Prop) (host : Host) (cache : DyldSharedCache)
    (execDir : List UInt8) (executable : Container) (added : List Event) : Prop :=
  ∀ path, rel (added.countP (isOpened path)) (copies host cache execDir executable none path) ∧
    rel (added.countP (isMapped path)) (copies host cache execDir executable none path) ∧
    ∀ func, rel (added.countP (isCalled path func))
      (copies host cache execDir executable none path
        * (initializersAt host executable (some path)).count func)

/-- What is noted about a dylib while the executable is loaded. -/
theorem machoLoader_executable_notes (t : Tally p path) {fuel : Nat} {image : MappedContainer} :
    Exec.Notes World.trace p
      (copies host cache execDir (image.view w.mem) none path
        * t.perCopy (initializersAt host (image.view w.mem) (some path)))
      (machoLoader host cache execDir fuel image none) w := by
  have hat : imageAt host (image.view w.mem) none = some (image.view w.mem) := rfl
  refine (machoLoader_notes t hat).of_eq ?_
  have hcount := Chains.chains_encard
    (dependencyGraph host cache execDir (image.view w.mem)) none (some path)
  rw [if_neg (by simp), zero_add] at hcount
  unfold copies
  rw [hcount, List.sum_map_mul_right]
  simp

/-- **A dylib is loaded once for each chain of dependencies from the executable to it**: at most
that often in every run, and exactly that often in a run that returns. The copies are apart from
each other, and each is apart from all that was in use when its turn came. -/
theorem machoLoader_copies (hfresh : host.FreshRegions) (fuel : Nat) (image : MappedContainer)
    (w : World) :
    (∃ added, (machoLoader host cache execDir fuel image none w).2.trace = w.trace ++ added ∧
      (added.filterMap mappedRegion).Pairwise ByteRange.Apart ∧
      CountsChains (· ≤ ·) host cache execDir (image.view w.mem) added ∧
      ((∃ r, (machoLoader host cache execDir fuel image none w).1 = .ok r) →
        CountsChains (· = ·) host cache execDir (image.view w.mem) added)) ∧
    ∀ rpath dependency container w₁ w₂,
      userDylibLoad host (machoLoader host cache execDir fuel) execDir rpath dependency w₁
        = (.ok (.user container), w₂) →
      (∀ r ∈ w₁.regions, ByteRange.Apart container.bytes r) ∧ container.bytes ∈ w₂.regions := by
  constructor
  · have hgrows : Grows w (machoLoader host cache execDir fuel image none w).2 :=
      machoLoader_grows hfresh fuel image none w
    obtain ⟨-, added, htrace, -, hapart⟩ := hgrows
    have hcount : ∀ {p : Event → Bool} {path : List UInt8} (t : Tally p path),
        (added.countP p : ℕ∞) ≤ copies host cache execDir (image.view w.mem) none path
          * t.perCopy (initializersAt host (image.view w.mem) (some path)) ∧
        ((∃ r, (machoLoader host cache execDir fuel image none w).1 = .ok r) →
          (added.countP p : ℕ∞) = copies host cache execDir (image.view w.mem) none path
            * t.perCopy (initializersAt host (image.view w.mem) (some path))) := by
      intro p path t
      have hnotes : Exec.Notes World.trace p (copies host cache execDir (image.view w.mem) none path
          * t.perCopy (initializersAt host (image.view w.mem) (some path)))
          (machoLoader host cache execDir fuel image none) w := machoLoader_executable_notes t
      obtain ⟨added', htrace', hle, heq⟩ := hnotes
      -- each tally counts in the same added events
      obtain rfl : added = added' := List.append_cancel_left (htrace.symm.trans htrace')
      exact ⟨hle, fun ⟨r, hr⟩ => heq r hr⟩
    refine ⟨added, htrace, hapart, fun path => ⟨?_, ?_, fun func => ?_⟩,
      fun hok path => ⟨?_, ?_, fun func => ?_⟩⟩
    · simpa [openedTally_perCopy] using (hcount (openedTally path)).1
    · simpa [mappedTally_perCopy] using (hcount (mappedTally path)).1
    · simpa [calledTally_perCopy] using (hcount (calledTally path func)).1
    · simpa [openedTally_perCopy] using (hcount (openedTally path)).2 hok
    · simpa [mappedTally_perCopy] using (hcount (mappedTally path)).2 hok
    · simpa [calledTally_perCopy] using (hcount (calledTally path func)).2 hok
  · exact fun _ _ _ _ _ h => userDylibLoad_fresh hfresh h

/-! ## A dylib that is shared -/

/-- `/a` depends on `/c`, which has one initializer. -/
def sampleSharedFile (path : List UInt8) : Option (List UInt8) :=
  if path = ascii "/a" ++ [0] then some (sampleLinked 6 [] ["/c"])
  else if path = ascii "/c" ++ [0] then some (sampleLinked 6 [8] [])
  else none

/-- An executable that depends on both. -/
def sampleSharedExecutable : List UInt8 := sampleLinked 2 [] ["/a", "/c"]

def sampleSharedImage : MappedContainer := ⟨⟨0x1000, sampleSharedExecutable.length⟩, .little⟩

def sampleSharedRun : Outcome (Nat × Nat) × World :=
  machoLoader (sampleHost sampleSharedFile) sampleNoCache [] 4 sampleSharedImage none
    (sampleWorld sampleSharedExecutable)

theorem sampleShared_returns : sampleSharedRun.1 = .ok (4984, 4294972280) := by decide +kernel

theorem sampleShared_mapped :
    sampleSharedRun.2.trace.countP (isMapped (ascii "/c" ++ [0])) = 2 := by decide +kernel

/-- There is no cycle, and `/c` is mapped and initialized twice. -/
theorem sampleShared_mapped_twice :
    AcyclicDependencies (sampleHost sampleSharedFile) sampleNoCache []
      (sampleSharedImage.view (sampleWorld sampleSharedExecutable).mem) ∧
    sampleSharedRun.1 = .ok (4984, 4294972280) ∧
    sampleSharedRun.2.trace.countP (isMapped (ascii "/c" ++ [0])) = 2 ∧
    sampleSharedRun.2.trace.countP (isCalled (ascii "/c" ++ [0]) 8) = 2 :=
  ⟨acyclicDependencies_of_machoLoader sampleShared_returns, sampleShared_returns,
    sampleShared_mapped, by decide +kernel⟩

/-- There are two chains to it. -/
theorem sampleShared_copies :
    copies (sampleHost sampleSharedFile) sampleNoCache []
      (sampleSharedImage.view (sampleWorld sampleSharedExecutable).mem) none (ascii "/c" ++ [0])
      = 2 := by
  obtain ⟨⟨added, htrace, -, -, hcounts⟩, -⟩ := machoLoader_copies (sampleHost_fresh sampleSharedFile)
    4 sampleSharedImage (sampleWorld sampleSharedExecutable)
  have hcount := (hcounts ⟨_, sampleShared_returns⟩ (ascii "/c" ++ [0])).2.1
  have hadded : added = sampleSharedRun.2.trace := by
    rw [sampleSharedRun, htrace]
    rfl
  rw [← hcount, hadded, sampleShared_mapped]
  rfl

end Dynld
