import Dynld.Proof.Ordinals
import Dynld.MachOImage

/-!
# Ordinals of re-exports

A terminal of an exports trie names the library it re-exports from by an ordinal, and
the static linker counts the dylib commands of all five kinds.
`dylib_install_path_for_ordinal` counts two of them. So from the first command of the
three other kinds on, an ordinal stands for a later library than it should.
-/

namespace Dynld

/-! ## Positions in a filtered list -/

/-- An item of a filtered list is at some place of the whole list, after as many items that were
kept. -/
theorem getElem?_filter_iff {α : Type} {p : α → Bool} : ∀ {l : List α} {i : Nat} {x : α},
    (l.filter p)[i]? = some x ↔
      ∃ j, l[j]? = some x ∧ p x = true ∧ (l.take j).countP p = i := by
  intro l
  induction l with
  | nil =>
    intro i x
    simp
  | cons a l ih =>
    intro i x
    -- a kept head is at place 0 of both lists; a dropped one shifts `j` only
    by_cases ha : p a = true
    · rw [List.filter_cons_of_pos ha]
      constructor
      · intro h
        cases i with
        | zero =>
            obtain rfl : a = x := Option.some.inj h
            exact ⟨0, rfl, ha, rfl⟩
        | succ i =>
            obtain ⟨j, hj, hx, hcount⟩ := ih.mp (by simpa using h)
            refine ⟨j + 1, by simpa using hj, hx, ?_⟩
            rw [List.take_succ_cons, List.countP_cons_of_pos ha, hcount]
      · rintro ⟨j, hj, hx, rfl⟩
        cases j with
        | zero => exact hj
        | succ j =>
            rw [List.take_succ_cons, List.countP_cons_of_pos ha, List.getElem?_cons_succ]
            exact ih.mpr ⟨j, by simpa using hj, hx, rfl⟩
    · rw [List.filter_cons_of_neg ha, ih]
      constructor
      · rintro ⟨j, hj, hx, rfl⟩
        refine ⟨j + 1, by simpa using hj, hx, ?_⟩
        rw [List.take_succ_cons, List.countP_cons_of_neg ha]
      · rintro ⟨j, hj, hx, rfl⟩
        cases j with
        | zero =>
            obtain rfl : a = x := Option.some.inj hj
            exact absurd hx ha
        | succ j =>
            refine ⟨j, by simpa using hj, hx, ?_⟩
            rw [List.take_succ_cons, List.countP_cons_of_neg ha]

/-! ## What is counted -/

/-- The dependency commands, in header order. -/
def dependencyCommands (commands : List (LoadCommandVariants × Nat)) :
    List (LoadCommandVariants × Nat) :=
  commands.filter fun command => isOrdinalCommand command.1

/-- The commands that `dylib_install_path_for_ordinal` counts. -/
def countedCommands (commands : List (LoadCommandVariants × Nat)) :
    List (LoadCommandVariants × Nat) :=
  commands.filter fun command => isDylibDependencyCommand command.1

theorem isOrdinalCommand_of_counted {cmd : LoadCommandVariants}
    (h : isDylibDependencyCommand cmd = true) : isOrdinalCommand cmd = true := by
  cases cmd <;> first | rfl | exact absurd h (by decide)

/-- What is counted are dependencies. -/
theorem countedCommands_eq (commands : List (LoadCommandVariants × Nat)) :
    countedCommands commands
      = (dependencyCommands commands).filter fun command =>
        isDylibDependencyCommand command.1 := by
  rw [dependencyCommands, List.filter_filter, countedCommands]
  refine List.filter_congr fun command _ => ?_
  by_cases h : isDylibDependencyCommand command.1 = true
  · rw [h, isOrdinalCommand_of_counted h]
    rfl
  · rw [Bool.eq_false_iff.mpr h]
    rfl

namespace MachOImage

/-! ## The walk over the load commands -/

/-- What `dylib_install_path_for_ordinal` does at each load command. -/
def installPathVisit (image : MachOImage) (targetOrdinal seen : Nat) (cmd : LoadCommandVariants)
    (commandOffset : Nat) : Outcome (Option (List UInt8) × Nat) :=
  if isDylibDependencyCommand cmd then do
    let seen := seen + 1
    if seen = targetOrdinal then do
      let path ← image.dylibInstallNameRead commandOffset
      .ok (some path, seen)
    else .ok (none, seen)
  else .ok (none, seen)

/-- Read the name that the `i`-th of some commands carries, if there are as many. -/
def nameReadAt (image : MachOImage) (commands : List (LoadCommandVariants × Nat)) (i : Nat) :
    Outcome (Option (List UInt8)) :=
  match commands[i]? with
  | some command => do
      let path ← image.dylibInstallNameRead command.2
      .ok (some path)
  | none => .ok none

theorem nameReadAt_of_some {image : MachOImage} {commands : List (LoadCommandVariants × Nat)}
    {i : Nat} {command : LoadCommandVariants × Nat} (h : commands[i]? = some command) :
    image.nameReadAt commands i
      = image.dylibInstallNameRead command.2 >>= fun path => .ok (some path) := by
  rw [nameReadAt, h]

theorem nameReadAt_of_none {image : MachOImage} {commands : List (LoadCommandVariants × Nat)}
    {i : Nat} (h : commands[i]? = none) : image.nameReadAt commands i = .ok none := by
  rw [nameReadAt, h]

/-- The walk from a command on, with some commands already counted. -/
theorem installPathLoop_eq {image : MachOImage} (hlen : image.container.data.length < 2 ^ 63)
    {targetOrdinal : Nat} :
    ∀ {n commandOffset seen : Nat} {commands : List (LoadCommandVariants × Nat)},
      image.container.commandsAt n commandOffset = some commands → seen < targetOrdinal →
      (loadCommandsFindLoop image.container (image.installPathVisit targetOrdinal) n commandOffset
          seen >>= fun r => .ok r.1)
        = image.nameReadAt (countedCommands commands) (targetOrdinal - seen - 1) := by
  intro n
  induction n with
  | zero =>
    intro commandOffset seen commands h _
    obtain rfl := Option.some.inj h
    rfl
  | succ n ih =>
    intro commandOffset seen commands h hseen
    obtain ⟨lc, hlc, h⟩ := Option.bind_eq_some_iff.mp h
    obtain ⟨rest, hrest, h⟩ := Option.bind_eq_some_iff.mp h
    obtain rfl := Option.some.inj h
    obtain ⟨hoffset, hsize⟩ := Container.loadCommand_bound hlc
    rw [loadCommandsFindLoop, hlc, Outcome.okOr_some, Outcome.ok_bind]
    have hnext := Outcome.add_of_lt (show commandOffset + lc.cmdsize < 2 ^ 64 by omega)
    -- `seen` counts the commands of the two kinds that are behind
    by_cases hcounted : isDylibDependencyCommand lc.cmd = true
    · have hhead : countedCommands ((lc.cmd, commandOffset) :: rest)
          = (lc.cmd, commandOffset) :: countedCommands rest := List.filter_cons_of_pos hcounted
      rw [installPathVisit, if_pos hcounted, hhead]
      by_cases htarget : seen + 1 = targetOrdinal
      · -- this is the one
        rw [if_pos htarget, show targetOrdinal - seen - 1 = 0 by omega,
          nameReadAt_of_some List.getElem?_cons_zero, Outcome.bind_assoc, Outcome.bind_assoc]
        exact congrArg (image.dylibInstallNameRead commandOffset >>= ·) (funext fun _ => rfl)
      · have hih := ih hrest (show seen + 1 < targetOrdinal by omega)
        have hindex : targetOrdinal - seen - 1 = targetOrdinal - (seen + 1) - 1 + 1 := by omega
        rw [if_neg htarget, Outcome.ok_bind]
        dsimp only
        rw [hnext, Outcome.ok_bind, hih, hindex, nameReadAt, nameReadAt, List.getElem?_cons_succ]
    · have hhead : countedCommands ((lc.cmd, commandOffset) :: rest) = countedCommands rest :=
        List.filter_cons_of_neg hcounted
      rw [installPathVisit, if_neg hcounted, hhead, Outcome.ok_bind]
      dsimp only
      rw [hnext, Outcome.ok_bind, ih hrest hseen]

/-- The install name of the dylib command at an offset, up to its NUL. -/
def HasInstallName (image : MachOImage) (commandOffset : Nat) (name : List UInt8) : Prop :=
  ∃ header, image.container.dylibCommandHeader commandOffset = some header ∧
    Bytes.untilNul (image.container.data.drop (commandOffset + header.nameOffset)) = some name

/-- An image whose load commands can be listed, with the install names of its dependencies. -/
structure DependenciesNamed (image : MachOImage) (commands : List (LoadCommandVariants × Nat))
    (names : List (List UInt8)) : Prop where
  length_lt : image.container.data.length < 2 ^ 63
  commands_eq : ∃ header, image.container.machHeader64 image.machHeaderOffset = some header ∧
    image.container.commandsAt header.ncmds (image.machHeaderOffset + MachHeader64.size)
      = some commands
  length_eq : names.length = (dependencyCommands commands).length
  name_at : ∀ (j : Nat) command name, (dependencyCommands commands)[j]? = some command →
    names[j]? = some name → image.HasInstallName command.2 name

variable {image : MachOImage} {commands : List (LoadCommandVariants × Nat)}
  {names : List (List UInt8)} {k : Nat}

theorem dylibInstallNameRead_of_name (hlen : image.container.data.length < 2 ^ 63)
    {commandOffset : Nat} {name : List UInt8} (h : image.HasInstallName commandOffset name) :
    image.dylibInstallNameRead commandOffset = .ok name := by
  obtain ⟨header, hheader, hname⟩ := h
  have hle : commandOffset + header.nameOffset ≤ image.container.data.length := by
    rcases Nat.lt_or_ge image.container.data.length (commandOffset + header.nameOffset)
      with hlt | hle
    · rw [List.drop_eq_nil_of_le (by omega)] at hname
      exact absurd hname (by simp [Bytes.untilNul])
    · exact hle
  rw [dylibInstallNameRead, hheader, Outcome.okOr_some, Outcome.ok_bind,
    Outcome.add_of_lt (by omega), Outcome.ok_bind, Container.deserializeCstrAtOffset,
    Container.stringBytesAtOffset, if_pos hle, hname, Outcome.orPanic_some]

/-- What `dylib_install_path_for_ordinal` returns: the name of a command that it counts. -/
theorem dylibInstallPathForOrdinal_eq (h : image.DependenciesNamed commands names) (hk : 1 ≤ k) :
    image.dylibInstallPathForOrdinal k = image.nameReadAt (countedCommands commands) (k - 1) := by
  obtain ⟨header, hheader, hcommands⟩ := h.commands_eq
  have hlen := h.length_lt
  have hoffset : image.machHeaderOffset + 4 ≤ image.container.data.length := by
    obtain ⟨magic, hmagic, -⟩ := Option.bind_eq_some_iff.mp hheader
    obtain ⟨word, hword, -⟩ := Option.bind_eq_some_iff.mp hmagic
    exact (Bytes.wordAt_bound hword).1
  have hloop := installPathLoop_eq hlen hcommands (show 0 < k from hk)
  have hfind : image.dylibInstallPathForOrdinal k
      = image.loadCommandsFind (image.installPathVisit k) 0 >>= fun r => .ok r.1 := rfl
  have hadd : Outcome.add 64 image.machHeaderOffset MachHeader64.size
      = .ok (image.machHeaderOffset + MachHeader64.size) :=
    Outcome.add_of_lt (by rw [MachHeader64.size]; omega)
  rw [hfind, loadCommandsFind, machHeaderRead, hheader, Outcome.okOr_some, Outcome.ok_bind,
    hadd, Outcome.ok_bind, hloop, Nat.sub_zero]

/-- If it counts the dependency at index `j` as number `k`, it returns its name. -/
theorem dylibInstallPathForOrdinal_of_counted (h : image.DependenciesNamed commands names)
    (hk : 1 ≤ k) {j : Nat} {command : LoadCommandVariants × Nat}
    (hj : (dependencyCommands commands)[j]? = some command)
    (hcounted : isDylibDependencyCommand command.1 = true)
    (hcount : ((dependencyCommands commands).take j).countP
      (fun command => isDylibDependencyCommand command.1) = k - 1) :
    ∃ name, names[j]? = some name ∧ image.dylibInstallPathForOrdinal k = .ok (some name) := by
  have hget : (countedCommands commands)[k - 1]? = some command := by
    rw [countedCommands_eq]
    exact getElem?_filter_iff.mpr ⟨j, hj, hcounted, hcount⟩
  obtain ⟨hlt, -⟩ := List.getElem?_eq_some_iff.mp hj
  have hname := List.getElem?_eq_getElem (h.length_eq ▸ hlt : j < names.length)
  refine ⟨_, hname, ?_⟩
  rw [dylibInstallPathForOrdinal_eq h hk, nameReadAt_of_some hget,
    dylibInstallNameRead_of_name h.length_lt (h.name_at j command _ hj hname), Outcome.ok_bind]

/-- The name of the `k`-th dependency is also that of a later one, which comes to be counted as
number `k`. -/
def NameRepeats (commands : List (LoadCommandVariants × Nat)) (names : List (List UInt8))
    (k : Nat) : Prop :=
  ∃ (j : Nat) (command : LoadCommandVariants × Nat), k ≤ j ∧
    (dependencyCommands commands)[j]? = some command ∧
    isDylibDependencyCommand command.1 = true ∧
    ((dependencyCommands commands).take j).countP
      (fun command => isDylibDependencyCommand command.1) = k - 1 ∧
    names[j]? = names[k - 1]?

/-- A name that is returned is that of a dependency counted as number `k`. -/
theorem exists_counted (h : image.DependenciesNamed commands names) (hk : 1 ≤ k)
    {name : List UInt8} (hpath : image.dylibInstallPathForOrdinal k = .ok (some name)) :
    ∃ (j : Nat) (command : LoadCommandVariants × Nat),
      (dependencyCommands commands)[j]? = some command ∧
      isDylibDependencyCommand command.1 = true ∧
      ((dependencyCommands commands).take j).countP
        (fun command => isDylibDependencyCommand command.1) = k - 1 ∧
      names[j]? = some name := by
  have hread := hpath
  rw [dylibInstallPathForOrdinal_eq h hk] at hread
  cases hget : (countedCommands commands)[k - 1]? with
  | none =>
      rw [nameReadAt_of_none hget] at hread
      exact absurd hread (by simp)
  | some command =>
      rw [countedCommands_eq] at hget
      obtain ⟨j, hj, hcounted, hcount⟩ := getElem?_filter_iff.mp hget
      obtain ⟨name', hname', hpath'⟩ :=
        dylibInstallPathForOrdinal_of_counted h hk hj hcounted hcount
      obtain rfl : name' = name := Option.some.inj (Outcome.ok.inj (hpath'.symm.trans hpath))
      exact ⟨j, command, hj, hcounted, hcount, hname'⟩

/-- The dependencies up to number `k` are all counted if number `k` is, and as number `k`. -/
theorem forall_counted_iff {j : Nat} {command : LoadCommandVariants × Nat}
    (hj : (dependencyCommands commands)[j]? = some command) :
    (∀ command ∈ (dependencyCommands commands).take (j + 1),
        isDylibDependencyCommand command.1 = true) ↔
      isDylibDependencyCommand command.1 = true ∧
        ((dependencyCommands commands).take j).countP
          (fun command => isDylibDependencyCommand command.1) = j := by
  obtain ⟨hlt, -⟩ := List.getElem?_eq_some_iff.mp hj
  have htake : ((dependencyCommands commands).take j).length = j := by
    rw [List.length_take]
    omega
  have hall := List.countP_eq_length (l := (dependencyCommands commands).take j)
    (p := fun command : LoadCommandVariants × Nat => isDylibDependencyCommand command.1)
  rw [htake] at hall
  rw [List.take_add_one, hj, hall, List.forall_mem_append, Option.toList_some,
    List.forall_mem_singleton, and_comm]

/-- **The install path of an ordinal is that of the dependency with this number exactly if** there
is no such dependency, or the dependencies up to it are all of the kinds that are counted, or its
name is repeated where it does no harm. -/
theorem dylibInstallPathForOrdinal_iff (h : image.DependenciesNamed commands names)
    (hk : 1 ≤ k) :
    image.dylibInstallPathForOrdinal k = .ok names[k - 1]? ↔
      names.length < k ∨
      (∀ command ∈ (dependencyCommands commands).take k,
        isDylibDependencyCommand command.1 = true) ∨
      NameRepeats commands names k := by
  have hlen := h.length_eq
  rcases Nat.lt_or_ge names.length k with hlt | hle
  · -- no dependency has this number
    refine iff_of_true ?_ (.inl hlt)
    have hnone : (countedCommands commands)[k - 1]? = none := by
      have hfilter := List.length_filter_le (fun command : LoadCommandVariants × Nat =>
        isDylibDependencyCommand command.1) (dependencyCommands commands)
      rw [← countedCommands_eq] at hfilter
      exact List.getElem?_eq_none (by omega)
    rw [dylibInstallPathForOrdinal_eq h hk, nameReadAt_of_none hnone,
      List.getElem?_eq_none (by omega)]
  have hname := List.getElem?_eq_getElem (show k - 1 < names.length by omega)
  have hdep := List.getElem?_eq_getElem (show k - 1 < (dependencyCommands commands).length by omega)
  have hall := forall_counted_iff hdep
  rw [Nat.sub_add_cancel hk] at hall
  rw [hall]
  constructor
  · intro hpath
    refine .inr ?_
    rw [hname] at hpath
    obtain ⟨j, command, hj, hcounted, hcount, hjname⟩ := exists_counted h hk hpath
    rcases Nat.lt_or_ge j k with hjk | hkj
    · -- as many as `k - 1` are counted before, so none is skipped
      have hcountLe := List.countP_le_length (l := (dependencyCommands commands).take j)
        (p := fun command : LoadCommandVariants × Nat => isDylibDependencyCommand command.1)
      rw [hcount, List.length_take] at hcountLe
      obtain rfl : j = k - 1 := by omega
      obtain rfl := Option.some.inj (hdep.symm.trans hj)
      exact .inl ⟨hcounted, hcount⟩
    · -- a command past the `k`-th: its name must be the same
      exact .inr ⟨j, command, hkj, hj, hcounted, hcount, hjname.trans hname.symm⟩
  · rintro (hlt | ⟨hcounted, hcount⟩ | ⟨j, command, -, hj, hcounted, hcount, hrepeat⟩)
    · omega
    · obtain ⟨name, hname', hpath⟩ :=
        dylibInstallPathForOrdinal_of_counted h hk hdep hcounted hcount
      rw [hpath, hname']
    · obtain ⟨name, hjname, hpath⟩ :=
        dylibInstallPathForOrdinal_of_counted h hk hj hcounted hcount
      rw [hpath, ← hrepeat, hjname]

end MachOImage

/-! ## A weak library before another -/

/-- The image with its first library named by this command. -/
def sampleOrdinalsImage (cmd : LoadCommandVariants) : MachOImage :=
  ⟨sampleOrdinals (ReprEnum.toNat cmd), 0⟩

def sampleOrdinalsHeader : MachHeader64 :=
  { magic := .mhMagic64, cputype := 0x0100000c, cpusubtype := 0, filetype := .mhDylib, ncmds := 2,
    sizeofcmds := 0, flags := 0, reserved := 0 }

theorem sampleOrdinals_named {cmd : LoadCommandVariants}
    (hcmd : cmd = .lcReexportDylib ∨ cmd = .lcLoadWeakDylib) :
    (sampleOrdinalsImage cmd).DependenciesNamed [(cmd, 32), (.lcLoadDylib, 64)]
      [ascii "/r", ascii "/s"] := by
  rcases hcmd with rfl | rfl
  all_goals exact {
    length_lt := by decide
    commands_eq := ⟨sampleOrdinalsHeader, by decide +kernel, by decide +kernel⟩
    length_eq := by decide
    name_at := by
      intro j command name hj hname
      cases j with
      | zero =>
          obtain rfl := Option.some.inj hj
          obtain rfl := Option.some.inj hname
          exact ⟨⟨24⟩, by decide +kernel, by decide +kernel⟩
      | succ j =>
          cases j with
          | zero =>
              obtain rfl := Option.some.inj hj
              obtain rfl := Option.some.inj hname
              exact ⟨⟨24⟩, by decide +kernel, by decide +kernel⟩
          | succ j => exact absurd hname (by simp) }

/-- With an `LC_REEXPORT_DYLIB` before it `/s` is number 2. -/
theorem sampleOrdinals_installPath :
    (sampleOrdinalsImage .lcReexportDylib).dylibInstallPathForOrdinal 2
      = .ok [ascii "/r", ascii "/s"][2 - 1]? :=
  (MachOImage.dylibInstallPathForOrdinal_iff (sampleOrdinals_named (.inl rfl))
    (by decide)).mpr (.inr (.inl (by decide)))

/-- With an `LC_LOAD_WEAK_DYLIB` before it `/s` is returned as number 1. -/
theorem sampleOrdinals_installPathShifted :
    (sampleOrdinalsImage .lcLoadWeakDylib).DependenciesNamed
        [(.lcLoadWeakDylib, 32), (.lcLoadDylib, 64)] [ascii "/r", ascii "/s"] ∧
      (sampleOrdinalsImage .lcLoadWeakDylib).dylibInstallPathForOrdinal 1
        = .ok (some (ascii "/s")) ∧
      (sampleOrdinalsImage .lcLoadWeakDylib).dylibInstallPathForOrdinal 1
        ≠ .ok [ascii "/r", ascii "/s"][1 - 1]? :=
  ⟨sampleOrdinals_named (.inr rfl), by decide +kernel, by decide +kernel⟩

end Dynld
