import Dynld.Fixups
import Dynld.MachOImage

/-!
# The walks of the load commands agree

Three loops go over the load commands. `LCIterator` moves on before it hands a command
out, `load_commands_find` after its visitor has returned, and the search for the
chained fixups counts the sizes once more, next to the iterator.

A walk is the commands that come up, each with its offset, where it ended and how. At
every turn the iterator stands where the next visit is: that is the invariant by which
the loops go through the same walk. What a visitor makes of the walk of
`load_commands_find` is `replay`, so that is the walk of every visitor, also of one
that stops or fails.
-/

namespace Dynld

/-- What a loop over the load commands comes past. -/
structure CommandWalk where
  /-- The commands, each with its offset. -/
  visited : List (LoadCommandVariants × Nat)
  /-- The offset at which the loop ended. -/
  position : Nat
  outcome : Outcome Unit
  deriving DecidableEq, Repr

namespace CommandWalk

/-- A walk with one more command before it. -/
def after (w : CommandWalk) (visit : LoadCommandVariants × Nat) : CommandWalk :=
  { w with visited := visit :: w.visited }

/-- Call the visitor at each command, up to the first one it finds something at. -/
def visitEach {σ T : Type} (visit : σ → LoadCommandVariants → Nat → Outcome (Option T × σ)) :
    List (LoadCommandVariants × Nat) → σ → Outcome (Option T × σ)
  | [], s => .ok (none, s)
  | (cmd, commandOffset) :: rest, s => do
      let (found, s) ← visit s cmd commandOffset
      match found with
      | some t => .ok (some t, s)
      | none => visitEach visit rest s

/-- What the visitor makes of the walk: if it never stops, the walk ends as it does. -/
def replay {σ T : Type} (visit : σ → LoadCommandVariants → Nat → Outcome (Option T × σ))
    (w : CommandWalk) (s : σ) : Outcome (Option T × σ) := do
  let (found, s) ← visitEach visit w.visited s
  match found with
  | some t => .ok (some t, s)
  | none => do
      let () ← w.outcome
      .ok (none, s)

/-- The offset of the first command of this kind. -/
def offsetOf? (w : CommandWalk) (cmd : LoadCommandVariants) : Option Nat :=
  (w.visited.find? fun visit => visit.1 = cmd).map Prod.snd

end CommandWalk

/-- `while let Some(load_command) = iterator.try_next()?`. -/
def LCIterator.walkLoop : Nat → LCIterator → CommandWalk
  | 0, iterator => ⟨[], iterator.offset, .outOfFuel⟩
  | fuel + 1, iterator =>
      match iterator.tryNext with
      | .ok (none, iterator) => ⟨[], iterator.offset, .ok ()⟩
      | .ok (some lc, iterator') => (walkLoop fuel iterator').after (lc.cmd, iterator.offset)
      | .err msg => ⟨[], iterator.offset, .err msg⟩
      | .panic msg => ⟨[], iterator.offset, .panic msg⟩
      | .outOfFuel => ⟨[], iterator.offset, .outOfFuel⟩

def LCIterator.walk (c : Container) : CommandWalk :=
  match LCIterator.tryWithContainer c with
  | .ok iterator => iterator.walkLoop (iterator.remaining + 1)
  | .err msg => ⟨[], 0, .err msg⟩
  | .panic msg => ⟨[], 0, .panic msg⟩
  | .outOfFuel => ⟨[], 0, .outOfFuel⟩

/-- The loop of `load_commands_find` under a visitor that never stops. -/
def loadCommandsWalkLoop (c : Container) : Nat → Nat → CommandWalk
  | 0, commandOffset => ⟨[], commandOffset, .ok ()⟩
  | n + 1, commandOffset =>
      match c.loadCommand commandOffset with
      | none => ⟨[], commandOffset, .err "could not read load_command header"⟩
      | some lc =>
          match Outcome.add 64 commandOffset lc.cmdsize with
          | .ok next => (loadCommandsWalkLoop c n next).after (lc.cmd, commandOffset)
          | .err msg => ⟨[(lc.cmd, commandOffset)], commandOffset, .err msg⟩
          | .panic msg => ⟨[(lc.cmd, commandOffset)], commandOffset, .panic msg⟩
          | .outOfFuel => ⟨[(lc.cmd, commandOffset)], commandOffset, .outOfFuel⟩

def MachOImage.loadCommandsWalk (image : MachOImage) : CommandWalk :=
  match image.machHeaderRead with
  | .ok header =>
      match Outcome.add 64 image.machHeaderOffset MachHeader64.size with
      | .ok commandOffset => loadCommandsWalkLoop image.container header.ncmds commandOffset
      | .err msg => ⟨[], image.machHeaderOffset, .err msg⟩
      | .panic msg => ⟨[], image.machHeaderOffset, .panic msg⟩
      | .outOfFuel => ⟨[], image.machHeaderOffset, .outOfFuel⟩
  | .err msg => ⟨[], image.machHeaderOffset, .err msg⟩
  | .panic msg => ⟨[], image.machHeaderOffset, .panic msg⟩
  | .outOfFuel => ⟨[], image.machHeaderOffset, .outOfFuel⟩

/-! ## Every visitor is on the walk -/

section Replay

variable {σ T : Type} {visit : σ → LoadCommandVariants → Nat → Outcome (Option T × σ)}

theorem CommandWalk.replay_after_of_none {w : CommandWalk} {cmd : LoadCommandVariants}
    {commandOffset : Nat} {s s' : σ} (h : visit s cmd commandOffset = .ok (none, s')) :
    (w.after (cmd, commandOffset)).replay visit s = w.replay visit s' := by
  rw [replay, after, visitEach, h]
  rfl

/-- A call that finds something or fails is handed on. -/
theorem visit_bind_of_stop {cmd : LoadCommandVariants} {commandOffset : Nat} {s : σ}
    (h : ∀ s', visit s cmd commandOffset ≠ .ok (none, s'))
    {f : Option T × σ → Outcome (Option T × σ)} (hf : ∀ t s', f (some t, s') = .ok (some t, s')) :
    (visit s cmd commandOffset >>= f) = visit s cmd commandOffset := by
  refine Outcome.bind_eq_self fun r hr => ?_
  obtain ⟨found, s'⟩ := r
  cases found with
  | none => exact absurd hr (h s')
  | some t => exact hf t s'

theorem CommandWalk.replay_of_stop {w : CommandWalk} {cmd : LoadCommandVariants}
    {commandOffset : Nat} {s : σ} (h : ∀ s', visit s cmd commandOffset ≠ .ok (none, s'))
    {rest : List (LoadCommandVariants × Nat)} (hvisited : w.visited = (cmd, commandOffset) :: rest) :
    w.replay visit s = visit s cmd commandOffset := by
  have hfirst : visitEach visit ((cmd, commandOffset) :: rest) s = visit s cmd commandOffset :=
    visit_bind_of_stop h fun _ _ => rfl
  rw [replay, hvisited, hfirst]
  exact visit_bind_of_stop h fun _ _ => rfl

theorem loadCommandsFindLoop_of_stop {c : Container} {n commandOffset : Nat} {s : σ}
    {lc : LoadCommand} (hlc : c.loadCommand commandOffset = some lc)
    (h : ∀ s', visit s lc.cmd commandOffset ≠ .ok (none, s')) :
    loadCommandsFindLoop c visit (n + 1) commandOffset s = visit s lc.cmd commandOffset := by
  rw [loadCommandsFindLoop, hlc, Outcome.okOr_some, Outcome.ok_bind]
  exact visit_bind_of_stop h fun _ _ => rfl

theorem loadCommandsFindLoop_of_none {c : Container} {n commandOffset : Nat} {s s' : σ}
    {lc : LoadCommand} (hlc : c.loadCommand commandOffset = some lc)
    (h : visit s lc.cmd commandOffset = .ok (none, s')) :
    loadCommandsFindLoop c visit (n + 1) commandOffset s = (do
      let commandOffset ← Outcome.add 64 commandOffset lc.cmdsize
      loadCommandsFindLoop c visit n commandOffset s') := by
  rw [loadCommandsFindLoop, hlc, Outcome.okOr_some, Outcome.ok_bind, h, Outcome.ok_bind]

theorem loadCommandsFindLoop_eq_replay (c : Container) : ∀ (n commandOffset : Nat) (s : σ),
    loadCommandsFindLoop c visit n commandOffset s
      = (loadCommandsWalkLoop c n commandOffset).replay visit s := by
  intro n
  induction n with
  | zero =>
    intro commandOffset s
    rfl
  | succ n ih =>
    intro commandOffset s
    cases hlc : c.loadCommand commandOffset with
    | none =>
        rw [loadCommandsFindLoop, loadCommandsWalkLoop, hlc]
        rfl
    | some lc =>
        rw [loadCommandsWalkLoop, hlc]
        dsimp only
        by_cases hstop : ∃ s', visit s lc.cmd commandOffset = .ok (none, s')
        · -- the loop goes on, if the sum fits
          obtain ⟨s', hvisit⟩ := hstop
          rw [loadCommandsFindLoop_of_none hlc hvisit]
          cases Outcome.add 64 commandOffset lc.cmdsize with
          | ok next => rw [CommandWalk.replay_after_of_none hvisit, Outcome.ok_bind, ih]
          | err msg => simp [CommandWalk.replay, CommandWalk.visitEach, hvisit]
          | panic msg => simp [CommandWalk.replay, CommandWalk.visitEach, hvisit]
          | outOfFuel => simp [CommandWalk.replay, CommandWalk.visitEach, hvisit]
        · have hstop : ∀ s', visit s lc.cmd commandOffset ≠ .ok (none, s') :=
            fun s' h => hstop ⟨s', h⟩
          rw [loadCommandsFindLoop_of_stop hlc hstop]
          cases Outcome.add 64 commandOffset lc.cmdsize with
          | ok next => rw [CommandWalk.replay_of_stop hstop rfl]
          | err msg => rw [CommandWalk.replay_of_stop hstop rfl]
          | panic msg => rw [CommandWalk.replay_of_stop hstop rfl]
          | outOfFuel => rw [CommandWalk.replay_of_stop hstop rfl]

/-- What any visitor makes of the load commands is what it makes of the walk. -/
theorem MachOImage.loadCommandsFind_eq_replay (image : MachOImage) (s : σ) :
    image.loadCommandsFind visit s = image.loadCommandsWalk.replay visit s := by
  rw [loadCommandsFind, loadCommandsWalk]
  cases image.machHeaderRead with
  | err msg => rfl
  | panic msg => rfl
  | outOfFuel => rfl
  | ok header =>
      rw [Outcome.ok_bind]
      dsimp only
      cases Outcome.add 64 image.machHeaderOffset MachHeader64.size with
      | err msg => rfl
      | panic msg => rfl
      | outOfFuel => rfl
      | ok commandOffset => exact loadCommandsFindLoop_eq_replay _ _ _ _

end Replay

/-! ## The iterator is on the walk -/

/-- How the iterator and `load_commands_find` end together. -/
inductive CommandWalk.EndAlike (c : Container) (w w' : CommandWalk) : Prop where
  /-- There is no command left. -/
  | done : w.outcome = .ok () → w'.outcome = .ok () → EndAlike c w w'
  /-- The next command cannot be read. -/
  | unreadable : c.loadCommand w.position = none →
      w.outcome = .err "error: could not iterate over load commands" →
      w'.outcome = .err "could not read load_command header" → EndAlike c w w'
  /-- There is no Mach header to start from. -/
  | noHeader : c.machHeader64 0 = none →
      w.outcome = .err "error: could not create load command iterator for container" →
      w'.outcome = .err "could not read mach_header_64" → EndAlike c w w'

/-- The same visits, up to the same position. -/
structure CommandWalk.Agree (c : Container) (w w' : CommandWalk) : Prop where
  visited_eq : w.visited = w'.visited
  position_eq : w.position = w'.position
  ending : CommandWalk.EndAlike c w w'

section Iterator

variable {c : Container}

theorem loadCommand_add (hlen : c.data.length < 2 ^ 63) {offset : Nat} {lc : LoadCommand}
    (h : c.loadCommand offset = some lc) :
    Outcome.add 64 offset lc.cmdsize = .ok (offset + lc.cmdsize) := by
  obtain ⟨hle, hlt⟩ := Container.loadCommand_bound h
  exact Outcome.add_of_lt (by omega)

/-- The iterator moves on behind the command it hands out. -/
theorem LCIterator.tryNext_of_command (hlen : c.data.length < 2 ^ 63) {offset : Nat}
    {lc : LoadCommand} (h : c.loadCommand offset = some lc) (n : Nat) :
    (⟨c, offset, n + 1⟩ : LCIterator).tryNext = .ok (some lc, ⟨c, offset + lc.cmdsize, n⟩) := by
  rw [tryNext, if_neg (Nat.succ_ne_zero n), h, Outcome.okOr_some, Outcome.ok_bind,
    loadCommand_add hlen h]
  rfl

theorem LCIterator.tryNext_of_none {offset : Nat} (h : c.loadCommand offset = none) (n : Nat) :
    (⟨c, offset, n + 1⟩ : LCIterator).tryNext
      = .err "error: could not iterate over load commands" := by
  rw [tryNext, if_neg (Nat.succ_ne_zero n), h]
  rfl

theorem LCIterator.walkLoop_of_command (hlen : c.data.length < 2 ^ 63) {offset : Nat}
    {lc : LoadCommand} (h : c.loadCommand offset = some lc) (n fuel : Nat) :
    (⟨c, offset, n + 1⟩ : LCIterator).walkLoop (fuel + 1)
      = ((⟨c, offset + lc.cmdsize, n⟩ : LCIterator).walkLoop fuel).after (lc.cmd, offset) := by
  rw [walkLoop, tryNext_of_command hlen h]

theorem LCIterator.walkLoop_of_none {offset : Nat} (h : c.loadCommand offset = none)
    (n fuel : Nat) :
    (⟨c, offset, n + 1⟩ : LCIterator).walkLoop (fuel + 1)
      = ⟨[], offset, .err "error: could not iterate over load commands"⟩ := by
  rw [walkLoop, tryNext_of_none h]

theorem loadCommandsWalkLoop_of_command (hlen : c.data.length < 2 ^ 63) {offset : Nat}
    {lc : LoadCommand} (h : c.loadCommand offset = some lc) (n : Nat) :
    loadCommandsWalkLoop c (n + 1) offset
      = (loadCommandsWalkLoop c n (offset + lc.cmdsize)).after (lc.cmd, offset) := by
  rw [loadCommandsWalkLoop, h]
  dsimp only
  rw [loadCommand_add hlen h]

theorem loadCommandsWalkLoop_of_none {offset : Nat} (h : c.loadCommand offset = none) (n : Nat) :
    loadCommandsWalkLoop c (n + 1) offset
      = ⟨[], offset, .err "could not read load_command header"⟩ := by
  rw [loadCommandsWalkLoop, h]

/-- Visiting one more command first keeps two walks together. -/
theorem CommandWalk.Agree.after {w w' : CommandWalk} (h : CommandWalk.Agree c w w')
    (visit : LoadCommandVariants × Nat) : CommandWalk.Agree c (w.after visit) (w'.after visit) := by
  obtain ⟨hvisited, hposition, hending⟩ := h
  refine ⟨congrArg (List.cons visit) hvisited, hposition, ?_⟩
  cases hending with
  | done h h' => exact .done h h'
  | unreadable hlc h h' => exact .unreadable hlc h h'
  | noHeader hheader h h' => exact .noHeader hheader h h'

theorem LCIterator.walkLoop_agree (hlen : c.data.length < 2 ^ 63) :
    ∀ {n offset fuel : Nat}, n < fuel →
      CommandWalk.Agree c ((⟨c, offset, n⟩ : LCIterator).walkLoop fuel)
        (loadCommandsWalkLoop c n offset) := by
  intro n
  induction n with
  | zero =>
    intro offset fuel hfuel
    obtain ⟨fuel, rfl⟩ : ∃ k, fuel = k + 1 := ⟨fuel - 1, by omega⟩
    exact ⟨rfl, rfl, .done rfl rfl⟩
  | succ n ih =>
    intro offset fuel hfuel
    obtain ⟨fuel, rfl⟩ : ∃ k, fuel = k + 1 := ⟨fuel - 1, by omega⟩
    cases hlc : c.loadCommand offset with
    | none =>
        rw [walkLoop_of_none hlc, loadCommandsWalkLoop_of_none hlc]
        exact ⟨rfl, rfl, .unreadable hlc rfl rfl⟩
    | some lc =>
        -- both are now behind the command, at the same offset
        rw [walkLoop_of_command hlen hlc, loadCommandsWalkLoop_of_command hlen hlc]
        exact (ih (by omega)).after _

theorem LCIterator.walk_agree (hlen : c.data.length < 2 ^ 63) :
    CommandWalk.Agree c (LCIterator.walk c) (MachOImage.mk c 0).loadCommandsWalk := by
  rw [walk, MachOImage.loadCommandsWalk, tryWithContainer, MachOImage.machHeaderRead]
  cases hheader : c.machHeader64 0 with
  | none => exact ⟨rfl, rfl, .noHeader hheader rfl rfl⟩
  | some header => exact walkLoop_agree hlen (Nat.lt_succ_self _)

end Iterator

/-! ## The search for the chained fixups -/

section Search

variable {c : Container}

theorem CommandWalk.offsetOf?_after (w : CommandWalk) (cmd cmd' : LoadCommandVariants)
    (offset : Nat) :
    (w.after (cmd, offset)).offsetOf? cmd'
      = if cmd = cmd' then some offset else w.offsetOf? cmd' := by
  rw [offsetOf?, after, List.find?_cons]
  by_cases h : cmd = cmd'
  · simp [h]
  · simp [h, offsetOf?]

/-- What the search makes of a walk. -/
structure FindsCommand (w : CommandWalk) (result : Outcome (Nat × Bool)) : Prop where
  found : ∀ offset, w.offsetOf? .lcDyldChainedFixups = some offset → result = .ok (offset, true)
  missing : w.offsetOf? .lcDyldChainedFixups = none →
    result = w.outcome >>= fun _ => .ok (w.position, false)

/-- The loop counts up to where the iterator stands, so it stops with the offset of the command. -/
theorem chainedFixupsCommandFindLoop_finds (hlen : c.data.length < 2 ^ 63) :
    ∀ {n offset fuel : Nat}, n < fuel →
      FindsCommand ((⟨c, offset, n⟩ : LCIterator).walkLoop fuel)
        (Container.chainedFixupsCommandFindLoop fuel ⟨c, offset, n⟩ offset) := by
  intro n
  induction n with
  | zero =>
    intro offset fuel hfuel
    obtain ⟨fuel, rfl⟩ : ∃ k, fuel = k + 1 := ⟨fuel - 1, by omega⟩
    exact ⟨fun o h => (nomatch h), fun _ => rfl⟩
  | succ n ih =>
    intro offset fuel hfuel
    obtain ⟨fuel, rfl⟩ : ∃ k, fuel = k + 1 := ⟨fuel - 1, by omega⟩
    cases hlc : c.loadCommand offset with
    | none =>
        rw [LCIterator.walkLoop_of_none hlc, Container.chainedFixupsCommandFindLoop,
          LCIterator.tryNext_of_none hlc]
        exact ⟨fun o h => (nomatch h), fun _ => rfl⟩
    | some lc =>
        obtain ⟨hfound, hmissing⟩ := @ih (offset + lc.cmdsize) fuel (by omega)
        rw [LCIterator.walkLoop_of_command hlen hlc, Container.chainedFixupsCommandFindLoop,
          LCIterator.tryNext_of_command hlen hlc, Outcome.ok_bind]
        dsimp only
        by_cases hcmd : lc.cmd = .lcDyldChainedFixups
        · -- the offset is that of the command, which the iterator is already behind
          rw [if_pos hcmd]
          refine ⟨fun o h => ?_, fun h => ?_⟩
          · rw [CommandWalk.offsetOf?_after, if_pos hcmd] at h
            rw [Option.some.inj h]
          · rw [CommandWalk.offsetOf?_after, if_pos hcmd] at h
            exact absurd h (by simp)
        · rw [if_neg hcmd, loadCommand_add hlen hlc, Outcome.ok_bind]
          refine ⟨fun o h => ?_, fun h => ?_⟩
          · rw [CommandWalk.offsetOf?_after, if_neg hcmd] at h
            exact hfound o h
          · rw [CommandWalk.offsetOf?_after, if_neg hcmd] at h
            exact hmissing h

theorem chainedFixupsCommandFind_finds (hlen : c.data.length < 2 ^ 63) :
    FindsCommand (LCIterator.walk c) c.chainedFixupsCommandFind := by
  rw [LCIterator.walk, Container.chainedFixupsCommandFind, LCIterator.tryWithContainer]
  cases c.machHeader64 0 with
  | none => exact ⟨fun o h => (nomatch h), fun _ => rfl⟩
  | some header => exact chainedFixupsCommandFindLoop_finds hlen (Nat.lt_succ_self _)

/-- The offset that `lcIterate` is at is the one the loop counts. -/
theorem lcIterate_eq_chainedFixupsCommandFindLoop : ∀ {n offset fuel : Nat}, n < fuel →
    lcIterate c Container.chainedFixupsFindBody n offset none
      = Container.chainedFixupsCommandFindLoop fuel ⟨c, offset, n⟩ offset >>= fun found =>
          .ok (if found.2 then some found.1 else none) := by
  intro n
  induction n with
  | zero =>
    intro offset fuel hfuel
    obtain ⟨fuel, rfl⟩ : ∃ k, fuel = k + 1 := ⟨fuel - 1, by omega⟩
    rfl
  | succ n ih =>
    intro offset fuel hfuel
    obtain ⟨fuel, rfl⟩ : ∃ k, fuel = k + 1 := ⟨fuel - 1, by omega⟩
    rw [lcIterate, Container.chainedFixupsCommandFindLoop, LCIterator.tryNext,
      if_neg (Nat.succ_ne_zero n)]
    cases c.loadCommand offset with
    | none => rfl
    | some lc =>
        simp only [Outcome.okOr_some, Outcome.ok_bind]
        cases hadd : Outcome.add 64 offset lc.cmdsize with
        | err msg => rfl
        | panic msg => rfl
        | outOfFuel => rfl
        | ok next =>
            simp only [Outcome.ok_bind, Container.chainedFixupsFindBody]
            by_cases hcmd : lc.cmd = .lcDyldChainedFixups
            · rw [if_pos hcmd, if_pos hcmd]
              rfl
            · rw [if_neg hcmd, if_neg hcmd, hadd]
              exact @ih next fuel (by omega)

theorem chainedFixupsHeaderAndOffsetFind_eq :
    c.chainedFixupsHeaderAndOffsetFind
      = c.chainedFixupsCommandFind >>= c.chainedFixupsHeaderRead := by
  rw [Container.chainedFixupsHeaderAndOffsetFind, Container.chainedFixupsCommandFind, lcForEach,
    LCIterator.tryWithContainer]
  cases c.machHeader64 0 with
  | none => rfl
  | some header =>
      simp only [Outcome.okOr_some, Outcome.ok_bind]
      rw [lcIterate_eq_chainedFixupsCommandFindLoop (Nat.lt_succ_self _)]
      cases Container.chainedFixupsCommandFindLoop (header.ncmds + 1)
          ⟨c, MachHeader64.size, header.ncmds⟩ MachHeader64.size with
      | err msg => rfl
      | panic msg => rfl
      | outOfFuel => rfl
      | ok found =>
          obtain ⟨offset, contains⟩ := found
          cases contains <;> rfl

end Search

/-- **The walks agree**: whatever the container, `LCIterator` and `load_commands_find` come past
the same commands at the same offsets and end at the same position. A visitor of
`load_commands_find` is called along this walk, and the offset that the search for the chained
fixups reads its command from is that of the first `LC_DYLD_CHAINED_FIXUPS` on it. -/
theorem loadCommandWalks_agree {c : Container} (hlen : c.data.length < 2 ^ 63) :
    CommandWalk.Agree c (LCIterator.walk c) (MachOImage.mk c 0).loadCommandsWalk ∧
    (∀ (σ T : Type) (visit : σ → LoadCommandVariants → Nat → Outcome (Option T × σ)) (s : σ),
      (MachOImage.mk c 0).loadCommandsFind visit s
        = (MachOImage.mk c 0).loadCommandsWalk.replay visit s) ∧
    c.chainedFixupsHeaderAndOffsetFind = c.chainedFixupsCommandFind >>= c.chainedFixupsHeaderRead ∧
    FindsCommand (LCIterator.walk c) c.chainedFixupsCommandFind :=
  ⟨LCIterator.walk_agree hlen, fun _ _ _ s => MachOImage.loadCommandsFind_eq_replay _ s,
    chainedFixupsHeaderAndOffsetFind_eq, chainedFixupsCommandFind_finds hlen⟩

/-- Three commands, of which the second is too long for the third to be read. -/
def sampleCutCommands : Container where
  data := Bytes.encodeFields .little
    [(4, 0xfeedfacf), (4, 0x0100000c), (4, 0), (4, 6), (4, 3), (4, 120), (4, 0), (4, 0),
     (4, 0x1b), (4, 8), (4, 0x80000034), (4, 100)]
  endian := .little

theorem sampleCutCommands_walk :
    (MachOImage.mk sampleCutCommands 0).loadCommandsWalk.visited
        = [(.lcUuid, 32), (.lcDyldChainedFixups, 40)] ∧
      (MachOImage.mk sampleCutCommands 0).loadCommandsWalk.position = 140 ∧
      sampleCutCommands.chainedFixupsCommandFind = .ok (40, true) := by
  obtain ⟨hagree, -, -, hfinds⟩ := @loadCommandWalks_agree sampleCutCommands (by decide)
  refine ⟨?_, ?_, hfinds.found 40 (by decide +kernel)⟩
  · rw [← hagree.visited_eq]
    decide +kernel
  · rw [← hagree.position_eq]
    decide +kernel

end Dynld
