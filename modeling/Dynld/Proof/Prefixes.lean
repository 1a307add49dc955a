import Dynld.MachOImage

/-!
# Reading the beginning of an image

What a reader finds in the beginning of an image it also finds in the whole of it: the
bytes that come after do not matter. This is said with `Outcome.Keeps`, reader by reader
and then for the walks over the load commands.
-/

namespace Dynld

/-- `c` begins with the bytes of `p`. -/
def Container.Begins (p c : Container) : Prop := p.data <+: c.data ∧ p.endian = c.endian

/-- The first `n` bytes of an image. -/
def Container.beginning (c : Container) (n : Nat) : Container :=
  { data := c.data.take n, endian := c.endian }

theorem Container.beginning_begins (c : Container) (n : Nat) : (c.beginning n).Begins c :=
  ⟨List.take_prefix n c.data, rfl⟩

namespace Container.Begins

variable {p c : Container} {offset : Nat}

/-! ## Structures -/

theorem u32 (h : p.Begins c) : ∀ v, p.u32 offset = some v → c.u32 offset = some v := by
  intro v hread
  rw [Container.u32, ← h.2]
  exact Bytes.wordAt_of_prefix h.1 hread

theorem enum32 {α : Type} [ReprEnum α] (h : p.Begins c) :
    ∀ v, p.enum32 α offset = some v → c.enum32 α offset = some v := by
  intro v hread
  obtain ⟨n, hn, hv⟩ := Option.bind_eq_some_iff.mp hread
  exact Option.bind_eq_some_iff.mpr ⟨n, h.u32 n hn, hv⟩

theorem room {size : Nat} (h : p.Begins c) :
    ∀ u, p.room size offset = some u → c.room size offset = some u := by
  intro u hread
  unfold Container.room at hread ⊢
  split at hread
  · rename_i hle
    rw [if_pos (Nat.le_trans hle h.1.length_le)]
  · simp at hread

theorem loadCommand (h : p.Begins c) :
    ∀ lc, p.loadCommand offset = some lc → c.loadCommand offset = some lc := by
  intro lc hread
  obtain ⟨cmd, hcmd, hread⟩ := Option.bind_eq_some_iff.mp hread
  obtain ⟨cmdsize, hsize, hread⟩ := Option.bind_eq_some_iff.mp hread
  rw [Container.loadCommand, h.enum32 _ hcmd, h.u32 _ hsize]
  exact hread

theorem machHeader64 (h : p.Begins c) :
    ∀ header, p.machHeader64 offset = some header → c.machHeader64 offset = some header := by
  intro header hread
  obtain ⟨magic, h1, hread⟩ := Option.bind_eq_some_iff.mp hread
  obtain ⟨cputype, h2, hread⟩ := Option.bind_eq_some_iff.mp hread
  obtain ⟨cpusubtype, h3, hread⟩ := Option.bind_eq_some_iff.mp hread
  obtain ⟨filetype, h4, hread⟩ := Option.bind_eq_some_iff.mp hread
  obtain ⟨ncmds, h5, hread⟩ := Option.bind_eq_some_iff.mp hread
  obtain ⟨sizeofcmds, h6, hread⟩ := Option.bind_eq_some_iff.mp hread
  obtain ⟨flags, h7, hread⟩ := Option.bind_eq_some_iff.mp hread
  obtain ⟨reserved, h8, hread⟩ := Option.bind_eq_some_iff.mp hread
  rw [Container.machHeader64, h.enum32 _ h1, h.u32 _ h2, h.u32 _ h3, h.enum32 _ h4, h.u32 _ h5,
    h.u32 _ h6, h.u32 _ h7, h.u32 _ h8]
  exact hread

theorem linkeditDataCommand (h : p.Begins c) : ∀ cmd,
    p.linkeditDataCommand offset = some cmd → c.linkeditDataCommand offset = some cmd := by
  intro cmd hread
  obtain ⟨lc, h1, hread⟩ := Option.bind_eq_some_iff.mp hread
  obtain ⟨dataoff, h2, hread⟩ := Option.bind_eq_some_iff.mp hread
  obtain ⟨datasize, h3, hread⟩ := Option.bind_eq_some_iff.mp hread
  rw [Container.linkeditDataCommand, h.loadCommand _ h1, h.u32 _ h2, h.u32 _ h3]
  exact hread

theorem dyldInfoCommand (h : p.Begins c) : ∀ cmd,
    p.dyldInfoCommand offset = some cmd → c.dyldInfoCommand offset = some cmd := by
  intro cmd hread
  obtain ⟨_, h1, hread⟩ := Option.bind_eq_some_iff.mp hread
  obtain ⟨exportOff, h2, hread⟩ := Option.bind_eq_some_iff.mp hread
  obtain ⟨exportSize, h3, hread⟩ := Option.bind_eq_some_iff.mp hread
  rw [Container.dyldInfoCommand, h.room _ h1, h.u32 _ h2, h.u32 _ h3]
  exact hread

theorem dylibCommandHeader (h : p.Begins c) : ∀ header,
    p.dylibCommandHeader offset = some header → c.dylibCommandHeader offset = some header := by
  intro header hread
  obtain ⟨_, h1, hread⟩ := Option.bind_eq_some_iff.mp hread
  obtain ⟨nameOffset, h2, hread⟩ := Option.bind_eq_some_iff.mp hread
  rw [Container.dylibCommandHeader, h.room _ h1, h.u32 _ h2]
  exact hread

theorem stringBytesAtOffset (h : p.Begins c) :
    Outcome.Keeps (p.stringBytesAtOffset offset) (c.stringBytesAtOffset offset) := by
  intro bytes hread
  unfold Container.stringBytesAtOffset at hread ⊢
  split at hread
  · rename_i hle
    rw [if_pos (Nat.le_trans hle h.1.length_le)]
    exact Outcome.Keeps.orPanic
      (fun _ => Bytes.untilNul_of_prefix (Bytes.prefix_drop h.1 offset)) bytes hread
  · simp at hread

/-! ## Walks over the load commands -/

section

variable {σ T : Type} {visit visit' : σ → LoadCommandVariants → Nat → Outcome (Option T × σ)}

theorem loadCommandsFindLoop (h : p.Begins c)
    (hvisit : ∀ s cmd commandOffset, Outcome.Keeps (visit s cmd commandOffset)
      (visit' s cmd commandOffset)) :
    ∀ (n commandOffset : Nat) (s : σ),
      Outcome.Keeps (Dynld.loadCommandsFindLoop p visit n commandOffset s)
        (Dynld.loadCommandsFindLoop c visit' n commandOffset s)
  | 0, _, _ => Outcome.Keeps.refl _
  | n + 1, commandOffset, s => by
      refine Outcome.Keeps.bind (Outcome.Keeps.okOr h.loadCommand) fun lc => ?_
      refine Outcome.Keeps.bind (hvisit s lc.cmd commandOffset) fun (found, s) => ?_
      cases found with
      | some t => exact Outcome.Keeps.refl _
      | none =>
          exact Outcome.Keeps.bind (Outcome.Keeps.refl _) fun next =>
            loadCommandsFindLoop h hvisit n next s

theorem loadCommandsFind (h : p.Begins c)
    (hvisit : ∀ s cmd commandOffset, Outcome.Keeps (visit s cmd commandOffset)
      (visit' s cmd commandOffset)) (machHeaderOffset : Nat) (s : σ) :
    Outcome.Keeps (MachOImage.loadCommandsFind ⟨p, machHeaderOffset⟩ visit s)
      (MachOImage.loadCommandsFind ⟨c, machHeaderOffset⟩ visit' s) :=
  Outcome.Keeps.bind (Outcome.Keeps.okOr h.machHeader64) fun header =>
    Outcome.Keeps.bind (Outcome.Keeps.refl _) fun commandOffset =>
      h.loadCommandsFindLoop hvisit header.ncmds commandOffset s

end

/-- The span of the exports trie. -/
theorem exportsTrieSpanFind (h : p.Begins c) (machHeaderOffset : Nat) :
    Outcome.Keeps (MachOImage.exportsTrieSpanFind ⟨p, machHeaderOffset⟩)
      (MachOImage.exportsTrieSpanFind ⟨c, machHeaderOffset⟩) := by
  refine Outcome.Keeps.bind (h.loadCommandsFind (fun s cmd commandOffset => ?_) _ ())
    fun found => Outcome.Keeps.refl _
  cases cmd
  case lcDyldExportsTrie =>
    exact Outcome.Keeps.bind (Outcome.Keeps.okOr h.linkeditDataCommand)
      fun cmd => Outcome.Keeps.refl _
  case lcDyldInfoOnly =>
    exact Outcome.Keeps.bind (Outcome.Keeps.okOr h.dyldInfoCommand)
      fun cmd => Outcome.Keeps.refl _
  all_goals exact Outcome.Keeps.refl _

/-- The install name of a dependency. -/
theorem dylibInstallPathForOrdinal (h : p.Begins c) (machHeaderOffset targetOrdinal : Nat) :
    Outcome.Keeps (MachOImage.dylibInstallPathForOrdinal ⟨p, machHeaderOffset⟩ targetOrdinal)
      (MachOImage.dylibInstallPathForOrdinal ⟨c, machHeaderOffset⟩ targetOrdinal) := by
  refine Outcome.Keeps.bind (h.loadCommandsFind (fun seen cmd commandOffset => ?_) _ 0)
    fun found => Outcome.Keeps.refl _
  dsimp only
  split
  · split
    · refine Outcome.Keeps.bind ?_ fun path => Outcome.Keeps.refl _
      exact Outcome.Keeps.bind (Outcome.Keeps.okOr h.dylibCommandHeader) fun header =>
        Outcome.Keeps.bind (Outcome.Keeps.refl _) fun nameOffset => h.stringBytesAtOffset
    · exact Outcome.Keeps.refl _
  · exact Outcome.Keeps.refl _

end Container.Begins

end Dynld
