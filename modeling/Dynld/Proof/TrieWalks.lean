import Dynld.MachOImage

/-!
# A walk over any bytes

The bytes of an exports trie come from a file, and nothing says that they are a trie.
Every slice of the walk starts right after a field that was read inside the bytes, so
no slice is out of range, whatever the bytes are. One sum is not kept inside them: the
end of a node's terminal, whose size is the 64-bit number the node starts with.

`NodeHead` and `EdgeTaken` say what a node and its edges are on any bytes, and
`Visits` which nodes a symbol leads through. The walk returns exactly if no terminal
of these ends past the last 64-bit address.
-/

namespace Dynld

/-! ## What the bytes say -/

/-- The node at `offset` starts with the size of its terminal, which is at `start`. -/
def NodeHead (bs : List UInt8) (offset start size : Nat) : Prop :=
  offset < bs.length ∧
    ∃ count, readUleb128 (bs.drop offset) = some (size, count) ∧ start = offset + count

/-- The end of the terminal at `offset` is no 64-bit number. -/
def TerminalOverflows (bs : List UInt8) (offset : Nat) : Prop :=
  ∃ start size, NodeHead bs offset start size ∧ 2 ^ 64 ≤ start + size

/-- The edge at `cursor`, and the cursor of the one after it. -/
def EdgeBytes (bs : List UInt8) (cursor : Nat) (label : List UInt8) (child next : Nat) : Prop :=
  Bytes.untilNul (bs.drop cursor) = some label ∧
    ∃ count, readUleb128 (bs.drop (cursor + label.length + 1)) = some (child, count) ∧
      next = cursor + label.length + 1 + count

/-- Of the `n` edges from `cursor` on, the first one that `suffix` starts with. -/
inductive EdgeTaken (bs suffix : List UInt8) : Nat → Nat → List UInt8 → Nat → Prop where
  | here {n cursor child next : Nat} {label : List UInt8} :
      EdgeBytes bs cursor label child next → label ≠ [] → label <+: suffix →
      EdgeTaken bs suffix (n + 1) cursor label child
  | next {n cursor child next child' : Nat} {label label' : List UInt8} :
      EdgeBytes bs cursor label child next → ¬ (label ≠ [] ∧ label <+: suffix) →
      EdgeTaken bs suffix n next label' child' →
      EdgeTaken bs suffix (n + 1) cursor label' child'

/-- The node at `offset` has an edge for `suffix`, with this label and child. -/
def NodeEdge (bs suffix : List UInt8) (offset : Nat) (label : List UInt8) (child : Nat) : Prop :=
  ∃ start size count, NodeHead bs offset start size ∧ bs[start + size]? = some count ∧
    EdgeTaken bs suffix count.toNat (start + size + 1) label child

/-- The nodes that `suffix` leads through from `offset` on, with the edges before each. -/
inductive Visits (bs : List UInt8) : Nat → Nat → List UInt8 → Nat → Prop where
  | start {offset : Nat} {suffix : List UInt8} : Visits bs 0 offset suffix offset
  | edge {k offset child target : Nat} {suffix label : List UInt8} :
      NodeEdge bs suffix offset label child →
      Visits bs k child (suffix.drop label.length) target →
      Visits bs (k + 1) offset suffix target

/-! ## One field stays inside the bytes -/

theorem readUleb128Loop_le : ∀ {bytes : List UInt8} {i result shift v n : Nat},
    readUleb128Loop bytes i result shift = some (v, n) → n ≤ i + bytes.length := by
  intro bytes
  induction bytes with
  | nil =>
    intro i result shift v n h
    exact absurd h (by simp [readUleb128Loop])
  | cons b bytes ih =>
    intro i result shift v n h
    rw [readUleb128Loop] at h
    split at h
    · have hn : i + 1 = n := (Prod.mk.inj (Option.some.inj h)).2
      rw [List.length_cons]
      omega
    · dsimp only at h
      split at h
      · exact absurd h (by simp)
      · have hle := ih h
        rw [List.length_cons]
        omega

theorem readUleb128_le {bs : List UInt8} {offset v n : Nat} (hoffset : offset ≤ bs.length)
    (h : readUleb128 (bs.drop offset) = some (v, n)) : offset + n ≤ bs.length := by
  have hle := readUleb128Loop_le h
  rw [List.length_drop] at hle
  omega

/-- The NUL of a string is inside the bytes. -/
theorem untilNul_lt {bs xs : List UInt8} {offset : Nat}
    (h : Bytes.untilNul (bs.drop offset) = some xs) : offset + xs.length + 1 ≤ bs.length := by
  obtain ⟨_, rest, hrest⟩ := Bytes.untilNul_eq_some h
  have hlen := congrArg List.length hrest
  rw [List.length_drop, List.length_append, List.length_cons] at hlen
  omega

theorem NodeHead.start_le {bs : List UInt8} {offset start size : Nat}
    (h : NodeHead bs offset start size) : start ≤ bs.length := by
  obtain ⟨hlt, count, hread, rfl⟩ := h
  exact readUleb128_le (Nat.le_of_lt hlt) hread

theorem NodeHead.unique {bs : List UInt8} {offset start size start' size' : Nat}
    (h : NodeHead bs offset start size) (h' : NodeHead bs offset start' size') :
    start' = start ∧ size' = size := by
  obtain ⟨_, count, hread, rfl⟩ := h
  obtain ⟨_, count', hread', rfl⟩ := h'
  rw [hread] at hread'
  obtain ⟨hsize, hcount⟩ := Prod.mk.inj (Option.some.inj hread')
  exact ⟨by rw [hcount], hsize.symm⟩

theorem EdgeBytes.unique {bs label label' : List UInt8} {cursor child next child' next' : Nat}
    (h : EdgeBytes bs cursor label child next) (h' : EdgeBytes bs cursor label' child' next') :
    label' = label ∧ child' = child ∧ next' = next := by
  obtain ⟨hlabel, count, hread, rfl⟩ := h
  obtain ⟨hlabel', count', hread', rfl⟩ := h'
  rw [hlabel] at hlabel'
  obtain rfl := Option.some.inj hlabel'
  rw [hread] at hread'
  obtain ⟨rfl, rfl⟩ := Prod.mk.inj (Option.some.inj hread')
  exact ⟨rfl, rfl, rfl⟩

theorem EdgeTaken.edgeBytes {bs suffix label : List UInt8} {n cursor child : Nat}
    (h : EdgeTaken bs suffix n cursor label child) :
    ∃ label' child' next, EdgeBytes bs cursor label' child' next := by
  cases h with
  | here hedge _ _ => exact ⟨_, _, _, hedge⟩
  | next hedge _ _ => exact ⟨_, _, _, hedge⟩

theorem EdgeTaken.label_prefix {bs suffix label : List UInt8} {n cursor child : Nat}
    (h : EdgeTaken bs suffix n cursor label child) : label ≠ [] ∧ label <+: suffix := by
  induction h with
  | here _ hne hpre => exact ⟨hne, hpre⟩
  | next _ _ _ ih => exact ih

/-! ## One node -/

section Node

variable {bs : List UInt8} {offset start size : Nat}

/-- Only the end of the terminal can overflow. -/
theorem open_of_head (h : NodeHead bs offset start size) :
    TrieNodeReader.open bs offset
      = if start + size < 2 ^ 64 then
          if bs.length ≤ start + size then .ok none
          else .ok (some { trieBytes := bs, childEdgesStartOffset := start + size,
                           terminalPayloadStartOffset := start,
                           terminalPayloadSizeInBytes := size })
        else .panic "attempt to add with overflow" := by
  obtain ⟨hlt, count, hread, rfl⟩ := h
  rw [TrieNodeReader.open, if_neg (by omega), sliceFrom_of_le (Nat.le_of_lt hlt), Outcome.ok_bind,
    hread]
  simp only [Outcome.add]
  split <;> rfl

theorem open_of_no_head (h : ∀ start size, ¬ NodeHead bs offset start size) :
    TrieNodeReader.open bs offset = .ok none := by
  rw [TrieNodeReader.open]
  by_cases hle : bs.length ≤ offset
  · rw [if_pos hle]
  · rw [if_neg hle, sliceFrom_of_le (by omega), Outcome.ok_bind]
    cases hread : readUleb128 (bs.drop offset) with
    | none => rfl
    | some r => exact absurd ⟨by omega, r.2, hread, rfl⟩ (h (offset + r.2) r.1)

/-- Each field of a terminal starts where the field before it ends. -/
theorem terminalPayloadRead_returns {node : TrieNodeReader}
    (h : node.terminalPayloadStartOffset ≤ node.trieBytes.length) :
    ∃ r, node.terminalPayloadRead = .ok r := by
  rw [TrieNodeReader.terminalPayloadRead, sliceFrom_of_le h, Outcome.ok_bind]
  cases hflags : readUleb128 (node.trieBytes.drop node.terminalPayloadStartOffset) with
  | none => exact ⟨none, rfl⟩
  | some flags =>
      have hle := readUleb128_le h hflags
      simp only [sliceFrom_of_le hle, Outcome.ok_bind]
      cases hvalue : readUleb128
          (node.trieBytes.drop (node.terminalPayloadStartOffset + flags.2)) with
      | none => split <;> exact ⟨none, rfl⟩
      | some value =>
          simp only [sliceFrom_of_le (readUleb128_le hle hvalue), Outcome.ok_bind]
          split
          · split <;> exact ⟨_, rfl⟩
          · exact ⟨_, rfl⟩

/-- The edge at the cursor is taken, or the next ones decide. -/
theorem edgeTaken_succ_iff {suffix label label' : List UInt8} {n cursor child next child' : Nat}
    (h : EdgeBytes bs cursor label child next) :
    EdgeTaken bs suffix (n + 1) cursor label' child'
      ↔ if label ≠ [] ∧ label <+: suffix then label' = label ∧ child' = child
        else EdgeTaken bs suffix n next label' child' := by
  constructor
  · intro htaken
    cases htaken with
    | here hedge hne hpre =>
        obtain ⟨rfl, rfl, -⟩ := h.unique hedge
        rw [if_pos ⟨hne, hpre⟩]
        exact ⟨rfl, rfl⟩
    | next hedge hnot hrest =>
        obtain ⟨rfl, -, rfl⟩ := h.unique hedge
        rw [if_neg hnot]
        exact hrest
  · intro hif
    split at hif
    · rename_i hmatch
      obtain ⟨rfl, rfl⟩ := hif
      exact .here h hmatch.1 hmatch.2
    · rename_i hnot
      exact .next h hnot hif

/-- The loop over the edges stays inside the bytes and takes the edge the bytes have. -/
theorem childEdgeLoop_spec (suffix : List UInt8) : ∀ (n : Nat) {cursor : Nat}, cursor ≤ bs.length →
    ∃ found, TrieNodeReader.childEdgeLoop bs suffix n cursor = .ok found ∧
      ∀ label child, found = some (label, child) ↔ EdgeTaken bs suffix n cursor label child := by
  intro n
  induction n with
  | zero =>
    intro cursor _
    exact ⟨none, rfl, fun label child => ⟨fun h => absurd h (by simp), fun h => nomatch h⟩⟩
  | succ n ih =>
    intro cursor hcursor
    rw [TrieNodeReader.childEdgeLoop, sliceFrom_of_le hcursor, Outcome.ok_bind]
    cases hlabel : Bytes.untilNul (bs.drop cursor) with
    | none =>
        refine ⟨none, rfl, fun label child => ⟨fun h => absurd h (by simp), fun h => ?_⟩⟩
        obtain ⟨label', child', next', hlabel', -⟩ := h.edgeBytes
        rw [hlabel] at hlabel'
        exact absurd hlabel' (by simp)
    | some label =>
        -- the NUL is inside the bytes, so the slice after it is as well
        have hafter := untilNul_lt hlabel
        simp only [sliceFrom_of_le hafter, Outcome.ok_bind]
        cases hchild : readUleb128 (bs.drop (cursor + label.length + 1)) with
        | none =>
            refine ⟨none, rfl, fun label' child' => ⟨fun h => absurd h (by simp), fun h => ?_⟩⟩
            obtain ⟨label'', child'', next', hlabel', count, hread, -⟩ := h.edgeBytes
            rw [hlabel] at hlabel'
            rw [← Option.some.inj hlabel', hchild] at hread
            exact absurd hread (by simp)
        | some r =>
            obtain ⟨child, count⟩ := r
            have hedge : EdgeBytes bs cursor label child (cursor + label.length + 1 + count) :=
              ⟨hlabel, count, hchild, rfl⟩
            dsimp only
            simp only [edgeTaken_succ_iff hedge]
            by_cases hmatch : label ≠ [] ∧ label <+: suffix
            · refine ⟨some (label, child), if_pos hmatch, fun label' child' => ?_⟩
              rw [if_pos hmatch, Option.some.injEq, Prod.mk.injEq, eq_comm, eq_comm (a := child)]
            · -- another edge is taken, if any: the loop goes on behind this one
              obtain ⟨found, hloop, hfound⟩ := ih (readUleb128_le hafter hchild)
              refine ⟨found, (if_neg hmatch).trans hloop, fun label' child' => ?_⟩
              rw [if_neg hmatch, hfound]

theorem childEdgeMatchingPrefixFind_spec (node : TrieNodeReader) (suffix : List UInt8)
    (h : NodeHead bs offset start size) (hlt : start + size < bs.length)
    (hbytes : node.trieBytes = bs) (hedges : node.childEdgesStartOffset = start + size) :
    ∃ found, node.childEdgeMatchingPrefixFind suffix = .ok found ∧
      ∀ label child, found = some (label, child) ↔ NodeEdge bs suffix offset label child := by
  have hcount : bs[start + size]? = some bs[start + size] := List.getElem?_eq_getElem hlt
  obtain ⟨found, hloop, hfound⟩ := childEdgeLoop_spec suffix bs[start + size].toNat
    (show start + size + 1 ≤ bs.length from hlt)
  refine ⟨found, ?_, fun label child => (hfound label child).trans ⟨fun htaken => ?_, ?_⟩⟩
  · rw [TrieNodeReader.childEdgeMatchingPrefixFind, hbytes, hedges, index, hcount,
      Outcome.orPanic_some, Outcome.ok_bind]
    exact hloop
  · exact ⟨start, size, _, h, hcount, htaken⟩
  · rintro ⟨start', size', count', hhead, hcount', htaken⟩
    obtain ⟨rfl, rfl⟩ := h.unique hhead
    rw [hcount] at hcount'
    obtain rfl := Option.some.inj hcount'
    exact htaken

end Node

/-! ## The walk -/

/-- The nodes visited are the first one and those visited behind the edge it has. -/
theorem visits_succ_iff {bs suffix : List UInt8} {budget offset : Nat} {P : Nat → Prop} :
    (∀ k < budget + 1, ∀ target, Visits bs k offset suffix target → P target)
      ↔ P offset ∧ ∀ label child, NodeEdge bs suffix offset label child →
          ∀ k < budget, ∀ target, Visits bs k child (suffix.drop label.length) target →
            P target := by
  constructor
  · intro h
    refine ⟨h 0 (by omega) offset .start, fun label child hedge k hk target hvisits => ?_⟩
    exact h (k + 1) (by omega) target (.edge hedge hvisits)
  · rintro ⟨hfirst, hrest⟩ k hk target hvisits
    cases hvisits with
    | start => exact hfirst
    | @edge k offset child target suffix label hedge hvisits =>
        exact hrest label child hedge k (by omega) target hvisits

theorem terminalOverflows_iff {bs : List UInt8} {offset start size : Nat}
    (hhead : NodeHead bs offset start size) :
    TerminalOverflows bs offset ↔ 2 ^ 64 ≤ start + size := by
  constructor
  · rintro ⟨start', size', hhead', hle⟩
    obtain ⟨rfl, rfl⟩ := hhead.unique hhead'
    exact hle
  · exact fun hle => ⟨start, size, hhead, hle⟩

/-- What a step of the walk does: it panics at a terminal that overflows, it ends where there is no
edge to take, or it goes on behind the only one. -/
inductive WalkStep (bs suffix : List UInt8) (budget offset : Nat) : Prop where
  | panics (overflows : TerminalOverflows bs offset) (msg : String)
      (walk_eq : exportsTrieWalkLoop bs (budget + 1) offset suffix = .panic msg)
  | ends (fits : ¬ TerminalOverflows bs offset)
      (no_edge : ∀ label child, ¬ NodeEdge bs suffix offset label child)
      (walk_eq : ∃ r, exportsTrieWalkLoop bs (budget + 1) offset suffix = .ok r)
  | goesOn (fits : ¬ TerminalOverflows bs offset) (label : List UInt8) (child : Nat)
      (edge_iff : ∀ label' child', NodeEdge bs suffix offset label' child' ↔
        (label, child) = (label', child'))
      (walk_eq : exportsTrieWalkLoop bs (budget + 1) offset suffix
        = exportsTrieWalkLoop bs budget child (suffix.drop label.length))

theorem walkStep_of_no_head {bs suffix : List UInt8} {budget offset : Nat}
    (hnone : ∀ start size, ¬ NodeHead bs offset start size) :
    WalkStep bs suffix budget offset := by
  refine .ends ?_ ?_ ⟨none, ?_⟩
  · rintro ⟨start, size, h, -⟩
    exact hnone start size h
  · rintro label child ⟨start, size, _, h, -⟩
    exact absurd h (hnone start size)
  · rw [exportsTrieWalkLoop, open_of_no_head hnone, Outcome.ok_bind]

/-- A node whose edges start inside the bytes. -/
theorem walkStep_of_node {bs suffix : List UInt8} {budget offset start size : Nat}
    (hhead : NodeHead bs offset start size) (hfit : start + size < 2 ^ 64)
    (hlt : start + size < bs.length) : WalkStep bs suffix budget offset := by
  have hno : ¬ TerminalOverflows bs offset := by
    rw [terminalOverflows_iff hhead]
    omega
  have hopen : TrieNodeReader.open bs offset = .ok (some ⟨bs, start + size, start, size⟩) := by
    rw [open_of_head hhead, if_pos hfit, if_neg (by omega)]
  by_cases hstop : suffix = [] ∧
      (⟨bs, start + size, start, size⟩ : TrieNodeReader).hasTerminalPayload = true
  · -- the walk ends at this terminal: no edge is for the empty suffix
    obtain ⟨r, hr⟩ := @terminalPayloadRead_returns ⟨bs, start + size, start, size⟩
      hhead.start_le
    refine .ends hno ?_ ⟨r, ?_⟩
    · rintro label child ⟨_, _, _, _, _, htaken⟩
      obtain ⟨hne, hpre⟩ := htaken.label_prefix
      rw [hstop.1] at hpre
      exact absurd (List.prefix_nil.mp hpre) hne
    · rw [exportsTrieWalkLoop, hopen, Outcome.ok_bind]
      dsimp only
      rw [if_pos hstop, hr]
  · obtain ⟨found, hfind, hfound⟩ := childEdgeMatchingPrefixFind_spec
      ⟨bs, start + size, start, size⟩ suffix hhead hlt rfl rfl
    cases found with
    | none =>
        refine .ends hno (fun label child hedge => ?_) ⟨none, ?_⟩
        · exact absurd ((hfound label child).mpr hedge) (by simp)
        · rw [exportsTrieWalkLoop, hopen, Outcome.ok_bind]
          dsimp only
          rw [if_neg hstop, hfind, Outcome.ok_bind]
    | some edge =>
        obtain ⟨label, child⟩ := edge
        refine .goesOn hno label child (fun label' child' => ?_) ?_
        · rw [← hfound, Option.some_inj]
        · rw [exportsTrieWalkLoop, hopen, Outcome.ok_bind]
          dsimp only
          rw [if_neg hstop, hfind, Outcome.ok_bind]

theorem walkStep (bs suffix : List UInt8) (budget offset : Nat) :
    WalkStep bs suffix budget offset := by
  rcases (Classical.em (∃ start size, NodeHead bs offset start size)).symm with
    hnone | ⟨start, size, hhead⟩
  · exact walkStep_of_no_head fun start size h => hnone ⟨start, size, h⟩
  have hoverflows := terminalOverflows_iff hhead
  by_cases hover : 2 ^ 64 ≤ start + size
  · refine .panics (hoverflows.mpr hover) "attempt to add with overflow" ?_
    rw [exportsTrieWalkLoop, open_of_head hhead, if_neg (by omega), Outcome.panic_bind]
  by_cases hlt : start + size < bs.length
  · exact walkStep_of_node hhead (by omega) hlt
  -- there is no byte that counts the edges
  refine .ends (by rwa [hoverflows]) ?_ ⟨none, ?_⟩
  · rintro label child ⟨start', size', count, hhead', hcount, -⟩
    obtain ⟨rfl, rfl⟩ := hhead.unique hhead'
    rw [List.getElem?_eq_none (by omega)] at hcount
    exact absurd hcount (by simp)
  · rw [exportsTrieWalkLoop, open_of_head hhead, if_pos (by omega), if_pos (by omega),
      Outcome.ok_bind]

/-- **A walk returns exactly if no terminal it comes to overflows.** -/
theorem exportsTrieWalkLoop_returns_iff {bs : List UInt8} : ∀ {budget offset : Nat}
    {suffix : List UInt8}, (∃ r, exportsTrieWalkLoop bs budget offset suffix = .ok r)
      ↔ ∀ k < budget, ∀ target, Visits bs k offset suffix target →
          ¬ TerminalOverflows bs target := by
  intro budget
  induction budget with
  | zero =>
    intro offset suffix
    exact ⟨fun _ k hk => absurd hk (by omega), fun _ => ⟨none, rfl⟩⟩
  | succ budget ih =>
    intro offset suffix
    rw [visits_succ_iff]
    -- one node: it panics, or the walk ends at it, or it has one edge to go on by
    cases walkStep bs suffix budget offset with
    | panics hoverflows msg hwalk =>
        rw [hwalk]
        exact iff_of_false (by simp) fun h => h.1 hoverflows
    | ends hfits hnone hwalk =>
        exact iff_of_true hwalk ⟨hfits, fun label child h => absurd h (hnone label child)⟩
    | goesOn hfits label child hedge hwalk =>
        rw [hwalk, ih]
        constructor
        · intro h
          refine ⟨hfits, fun label' child' h' => ?_⟩
          obtain ⟨rfl, rfl⟩ := Prod.mk.inj ((hedge label' child').mp h')
          exact h
        · exact fun h => h.2 label child ((hedge label child).mpr rfl)

/-- **The walk returns exactly if no terminal on the symbol's way overflows**, whatever the
bytes are. -/
theorem exportsTrieWalkForSymbol_returns_iff (trieBytes symbol : List UInt8) :
    (∃ r, exportsTrieWalkForSymbol trieBytes symbol = .ok r)
      ↔ ∀ k < trieBytes.length, ∀ offset, Visits trieBytes k 0 symbol offset →
          ¬ TerminalOverflows trieBytes offset :=
  exportsTrieWalkLoop_returns_iff

/-- A root whose terminal has the largest 64-bit size. -/
def sampleOverflowingTrie : List UInt8 := List.replicate 9 0xff ++ [0x01]

theorem sampleOverflowingTrie_panics :
    ¬ ∀ trieBytes symbol, ∃ r, exportsTrieWalkForSymbol trieBytes symbol = .ok r := by
  intro h
  obtain ⟨r, hr⟩ := h sampleOverflowingTrie (ascii "_f")
  have hpanic : exportsTrieWalkForSymbol sampleOverflowingTrie (ascii "_f")
      = .panic "attempt to add with overflow" := by decide +kernel
  rw [hpanic] at hr
  exact absurd hr (by simp)

end Dynld
