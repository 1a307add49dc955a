import Dynld.Format.ExportsTrie

/-!
# The walk of the exports trie finds what the trie says

Each read of the walk is met by the bytes the layout puts there: the size of the
terminal, its fields, the labels and the offsets of the children. So the walk
follows `Radix.Tree.find` step by step, on any trie, and what `find` finds is what
the trie means.

The walk also has a visit budget, one per byte. Every node has an offset of its
own, so a budget that covers the nodes below the current one never runs out.
-/

namespace Dynld

/-! ## One field -/

section Field

variable {bs field rest : List UInt8} {off v : Nat}

theorem UlebField.ne_nil (h : UlebField field v) : field ≠ [] := h.encodes.ne_nil

/-- A ULEB128 field is read back from where it sits. -/
theorem readUleb128_of_at (hat : Bytes.At bs off field) (h : UlebField field v) :
    sliceFrom bs off = .ok (bs.drop off) ∧
      readUleb128 (bs.drop off) = some (v, field.length) := by
  have hle := hat.le_length h.ne_nil
  refine ⟨sliceFrom_of_le (by omega), ?_⟩
  rw [hat.drop_eq]
  exact readUleb128_encoding _ h.encodes h.length_le h.lt

/-- A name with a NUL is read back from where it sits. -/
theorem untilNul_of_at (hat : Bytes.At bs off (field ++ [0])) (h0 : 0 ∉ field) :
    sliceFrom bs off = .ok (bs.drop off) ∧ Bytes.untilNul (bs.drop off) = some field := by
  have hle := hat.le_length (by simp)
  refine ⟨sliceFrom_of_le (by omega), ?_⟩
  rw [hat.drop_eq, List.append_assoc]
  exact Bytes.untilNul_append h0

end Field

/-! ## One node -/

section Node

variable {bs payload sizeField : List UInt8} {off : Nat} {terminal : Option TrieTerminal}

/-- The reader that `open` makes for a node laid out at `off`. -/
def nodeReader (bs : List UInt8) (off : Nat) (sizeField payload : List UInt8) : TrieNodeReader :=
  { trieBytes := bs
    childEdgesStartOffset := off + sizeField.length + payload.length
    terminalPayloadStartOffset := off + sizeField.length
    terminalPayloadSizeInBytes := payload.length }

theorem open_of_at {count : UInt8} (hlen : bs.length < 2 ^ 64)
    (hsize : UlebField sizeField payload.length)
    (hat : Bytes.At bs off (sizeField ++ (payload ++ [count]))) :
    TrieNodeReader.open bs off = .ok (some (nodeReader bs off sizeField payload)) := by
  have hle := hat.le_length (by simp)
  simp only [List.length_append, List.length_cons, List.length_nil] at hle
  obtain ⟨hslice, hread⟩ := readUleb128_of_at (Bytes.at_append.mp hat).1 hsize
  have hadd : Outcome.add 64 (off + sizeField.length) payload.length
      = .ok (off + sizeField.length + payload.length) := Outcome.add_of_lt (by omega)
  rw [TrieNodeReader.open, if_neg (by omega), hslice, Outcome.ok_bind, hread]
  simp only [hadd, Outcome.ok_bind]
  rw [if_neg (by omega)]
  rfl

theorem TerminalBytes.length_pos {t : TrieTerminal} (h : TerminalBytes (some t) payload) :
    0 < payload.length := by
  cases h with
  | defined hflags _ =>
      have := hflags.encodes.length_pos
      rw [List.length_append]
      omega
  | reexport hflags _ =>
      have := hflags.encodes.length_pos
      rw [List.length_append]
      omega

/-- A node has a payload exactly if it has a terminal. -/
theorem hasTerminalPayload_iff (h : TerminalBytes terminal payload) :
    (nodeReader bs off sizeField payload).hasTerminalPayload = terminal.isSome := by
  cases terminal with
  | none => cases h; rfl
  | some t => exact decide_eq_true h.length_pos

theorem terminalPayloadRead_of_at {t : TrieTerminal} (h : TerminalBytes (some t) payload)
    (hwf : t.WellFormed) (hat : Bytes.At bs (off + sizeField.length) payload) :
    (nodeReader bs off sizeField payload).terminalPayloadRead = .ok (some t.toExport) := by
  cases h with
  | defined hflags hoffset =>
      obtain ⟨hat1, hat2⟩ := Bytes.at_append.mp hat
      obtain ⟨hs1, hr1⟩ := readUleb128_of_at hat1 hflags
      obtain ⟨hs2, hr2⟩ := readUleb128_of_at hat2 hoffset
      simp only [TrieNodeReader.terminalPayloadRead, nodeReader, hs1, hr1, hs2, hr2,
        Outcome.ok_bind]
      rw [if_neg (fun hne => hne hwf)]
      rfl
  | reexport hflags hordinal =>
      obtain ⟨hat1, hat2⟩ := Bytes.at_append.mp hat
      obtain ⟨hat2, hat3⟩ := Bytes.at_append.mp hat2
      obtain ⟨hs1, hr1⟩ := readUleb128_of_at hat1 hflags
      obtain ⟨hs2, hr2⟩ := readUleb128_of_at hat2 hordinal
      obtain ⟨hs3, hr3⟩ := untilNul_of_at hat3 hwf.2
      simp only [TrieNodeReader.terminalPayloadRead, nodeReader, hs1, hr1, hs2, hr2, hs3, hr3,
        Outcome.ok_bind]
      rw [if_pos hwf.1]
      rfl

theorem childEdgeMatchingPrefixFind_of_at {count : Nat} {suffix : List UInt8}
    (hcount : count ≤ 255)
    (hat : Bytes.At bs off (sizeField ++ (payload ++ [UInt8.ofNat count]))) :
    (nodeReader bs off sizeField payload).childEdgeMatchingPrefixFind suffix
      = TrieNodeReader.childEdgeLoop bs suffix count
          (off + sizeField.length + payload.length + 1) := by
  have hat' := (Bytes.at_append.mp (Bytes.at_append.mp hat).2).2
  have hidx : bs[off + sizeField.length + payload.length]? = some (UInt8.ofNat count) := by
    have hd := hat'.drop_eq
    rw [← List.head?_drop, hd]
    rfl
  have hnat : (UInt8.ofNat count).toNat = count := by
    rw [UInt8.toNat_ofNat']
    omega
  simp only [TrieNodeReader.childEdgeMatchingPrefixFind, nodeReader, index, hidx,
    Outcome.orPanic_some, Outcome.ok_bind, hnat]

end Node

/-! ## The walk -/

theorem childEdgeLoop_cons {bs label offsetField : List UInt8} {cursor childOff : Nat}
    (suffix : List UInt8) (n : Nat) (h0 : 0 ∉ label) (hfield : UlebField offsetField childOff)
    (hat : Bytes.At bs cursor (label ++ ([0] ++ offsetField))) :
    TrieNodeReader.childEdgeLoop bs suffix (n + 1) cursor
      = if label ≠ [] ∧ label <+: suffix then .ok (some (label, childOff))
        else TrieNodeReader.childEdgeLoop bs suffix n
          (cursor + label.length + 1 + offsetField.length) := by
  have hlabel : Bytes.At bs cursor (label ++ [0]) := by
    rw [← List.append_assoc] at hat
    exact (Bytes.at_append.mp hat).1
  have hoffset := (Bytes.at_append.mp (Bytes.at_append.mp hat).2).2
  obtain ⟨hs1, hr1⟩ := untilNul_of_at hlabel h0
  obtain ⟨hs2, hr2⟩ := readUleb128_of_at hoffset hfield
  rw [List.length_singleton] at hs2 hr2
  rw [TrieNodeReader.childEdgeLoop, hs1, Outcome.ok_bind, hr1]
  simp only [hs2, hr2, Outcome.ok_bind]

/-- What the walk does with the edge it found. -/
def walkFrom (bs suffix : List UInt8) (budget : Nat) :
    Option (List UInt8 × Nat) → Outcome (Option ExportTerminal)
  | none => .ok none
  | some (label, childOff) => exportsTrieWalkLoop bs budget childOff (suffix.drop label.length)

mutual

/-- From the root of a laid out trie the walk returns what `find` does. -/
theorem walk_node {bs : List UInt8} (hlen : bs.length < 2 ^ 64) :
    ∀ {t : ExportsTrie} {off budget : Nat} {offs : List Nat} (suffix : List UInt8),
      NodeAt bs t off offs → t.WellFormed → offs.length ≤ budget →
      exportsTrieWalkLoop bs budget off suffix
        = .ok ((t.find suffix).map TrieTerminal.toExport)
  | .node terminal edges, off, 0, _, _, .node _ _ _ _, _, hb => absurd hb (by simp)
  | .node terminal edges, off, budget + 1, _, suffix,
      @NodeAt.node _ _ _ _ _ sizeField payload hterm hsize hat hedges, hwf, hb => by
      have hpayload := (Bytes.at_append.mp (Bytes.at_append.mp hat).2).1
      rw [exportsTrieWalkLoop, open_of_at hlen hsize hat, Outcome.ok_bind]
      simp only [hasTerminalPayload_iff hterm]
      -- the loop over the edges continues in one of them or stops
      have hcount : edges.length ≤ 255 := by
        have hle := hwf.1.count_le
        rwa [Radix.Edges.labels, List.length_map] at hle
      have hbudget : _ ≤ budget := Nat.le_of_succ_le_succ hb
      obtain ⟨found, hfound, hwalk⟩ := walk_edges hlen suffix hedges hwf.2 hwf.1.separated
        hwf.1.labels_nul hbudget
      have hstep : (nodeReader bs off sizeField payload).childEdgeMatchingPrefixFind suffix
          = .ok found := by
        rw [childEdgeMatchingPrefixFind_of_at hcount hat, hfound]
      rw [Radix.Tree.find]
      cases terminal with
      | none =>
          rw [if_neg (by simp), hstep, Outcome.ok_bind]
          have hcont : walkFrom bs suffix budget found
              = .ok (Option.map TrieTerminal.toExport
                  (if suffix = [] then none else edges.find suffix)) := by
            rw [hwalk]
            split
            · rename_i hnil
              rw [hnil, Radix.Edges.find_nil hwf.1.separated]
            · rfl
          cases found with
          | none => exact hcont
          | some f => exact hcont
      | some t =>
          by_cases hnil : suffix = []
          · rw [if_pos ⟨hnil, rfl⟩, if_pos hnil]
            exact terminalPayloadRead_of_at hterm (hwf.1.terminal_wf t rfl) hpayload
          · rw [if_neg (fun h => hnil h.1), if_neg hnil, hstep, Outcome.ok_bind]
            cases found with
            | none => exact hwalk
            | some f => exact hwalk

/-- The loop over the edges stops at the one `find` takes. -/
theorem walk_edges {bs : List UInt8} (hlen : bs.length < 2 ^ 64) :
    ∀ {es : Radix.Edges UInt8 TrieTerminal} {cursor budget : Nat} {offs : List Nat}
      (suffix : List UInt8), EdgesAt bs es cursor offs → es.All TrieNodeWellFormed →
      Radix.Separated es.labels → (∀ l ∈ es.labels, 0 ∉ l) → offs.length ≤ budget →
      ∃ found, TrieNodeReader.childEdgeLoop bs suffix es.length cursor = .ok found ∧
        walkFrom bs suffix budget found = .ok ((es.find suffix).map TrieTerminal.toExport)
  | .nil, _, _, _, _, .nil, _, _, _, _ => ⟨none, rfl, rfl⟩
  | .cons label child rest, cursor, budget, _, suffix,
      @EdgesAt.cons _ _ _ _ _ _ childOff offs offs' hfield hat hchild hrest, hwf, hsep, h0, hb => by
      rw [List.length_append] at hb
      have hne : label ≠ [] := hsep.nonempty label List.mem_cons_self
      have hloop := childEdgeLoop_cons suffix rest.length (h0 label List.mem_cons_self) hfield hat
      by_cases hpre : label <+: suffix
      · refine ⟨some (label, childOff), ?_, ?_⟩
        · exact hloop.trans (if_pos ⟨hne, hpre⟩)
        · rw [Radix.Edges.find, if_pos hpre]
          exact walk_node hlen _ hchild hwf.1 (by omega)
      · obtain ⟨found, hfound, hwalk⟩ := walk_edges hlen suffix hrest hwf.2 hsep.tail
          (fun l hl => h0 l (List.mem_cons_of_mem _ hl)) (show offs'.length ≤ budget by omega)
        refine ⟨found, ?_, ?_⟩
        · exact (hloop.trans (if_neg fun h => hpre h.2)).trans hfound
        · rw [Radix.Edges.find, if_neg hpre]
          exact hwalk

end

/-- **A symbol with a terminal is found, and nothing else is.** -/
theorem exportsTrieWalkForSymbol_finds {bs : List UInt8} {trie : ExportsTrie}
    (hlen : bs.length < 2 ^ 64) (hwf : trie.WellFormed) (hser : Serialised bs trie)
    (symbol : List UInt8) :
    (∀ t, trie.Maps symbol t → exportsTrieWalkForSymbol bs symbol = .ok (some t.toExport)) ∧
      ((∀ t, ¬ trie.Maps symbol t) → exportsTrieWalkForSymbol bs symbol = .ok none) := by
  obtain ⟨offs, hat, hnd⟩ := hser
  have hwalk : exportsTrieWalkForSymbol bs symbol
      = .ok ((trie.find symbol).map TrieTerminal.toExport) :=
    walk_node hlen symbol hat hwf (hat.length_le hnd)
  have hsep : trie.All fun _ labels => Radix.Separated labels :=
    Radix.Tree.All.mono (fun _ _ h => h.separated) hwf
  refine ⟨?_, ?_⟩
  · intro t hmaps
    rw [hwalk, (Radix.find_eq_some_iff hsep).mpr hmaps]
    rfl
  · intro hnone
    rw [hwalk]
    cases hfind : trie.find symbol with
    | none => rfl
    | some t => exact absurd ((Radix.find_eq_some_iff hsep).mp hfind) (hnone t)

/-! ## A small trie

`_a` is defined, and `_ab` is `_c` of the first dependency. -/

def sampleTrie : ExportsTrie :=
  .node none (.cons (ascii "_a")
    (.node (some (.defined 0 0x1234)) (.cons (ascii "b")
      (.node (some (.reexport 8 1 (ascii "_c"))) .nil) .nil)) .nil)

def sampleTrieBytes : List UInt8 :=
  [0, 1, 0x5f, 0x61, 0, 6] ++ [3, 0, 0xb4, 0x24, 1, 0x62, 0, 14]
    ++ [5, 8, 1, 0x5f, 0x63, 0, 0]

theorem ulebField_byte {v : Nat} (h : v < 128) : UlebField [UInt8.ofNat v] v :=
  ⟨Uleb.encodes_byte h, by simp, by omega⟩

theorem sampleTrie_wellFormed : sampleTrie.WellFormed := by
  refine ⟨⟨?_, ?_, ?_, ?_⟩, ⟨⟨?_, ?_, ?_, ?_⟩, ⟨⟨?_, ?_, ?_, ?_⟩, trivial⟩, trivial⟩, trivial⟩
  · exact fun _ h => absurd h (by simp)
  · exact ⟨by decide, by decide⟩
  · decide
  · decide
  · rintro _ ⟨⟩
    show 0 &&& exportSymbolFlagsReexport = 0
    decide
  · exact ⟨by decide, by decide⟩
  · decide
  · decide
  · rintro _ ⟨⟩
    exact ⟨by decide, by decide⟩
  · exact ⟨by decide, by decide⟩
  · decide
  · decide

theorem sampleTrie_serialised : Serialised sampleTrieBytes sampleTrie := by
  have hleaf : NodeAt sampleTrieBytes (.node (some (.reexport 8 1 (ascii "_c"))) .nil) 14 [14] :=
    .node (.reexport (ulebField_byte (by decide)) (ulebField_byte (by decide)))
      (ulebField_byte (by decide)) (by decide) .nil
  have hoffset : UlebField [0xb4, 0x24] 0x1234 :=
    ⟨⟨⟨by decide, by show (0x24 : UInt8).toNat < 128; decide⟩, by decide⟩, by decide, by decide⟩
  have hinner : NodeAt sampleTrieBytes (.node (some (.defined 0 0x1234)) (.cons (ascii "b")
      (.node (some (.reexport 8 1 (ascii "_c"))) .nil) .nil)) 6 [6, 14] :=
    .node (.defined (ulebField_byte (by decide)) hoffset) (ulebField_byte (by decide))
      (by decide) (.cons (ulebField_byte (by decide)) (by decide) hleaf .nil)
  exact ⟨_, .node .none (ulebField_byte (by decide)) (by decide)
    (.cons (ulebField_byte (by decide)) (by decide) hinner .nil), by decide⟩

theorem sampleTrie_maps : sampleTrie.Maps (ascii "_ab") (.reexport 8 1 (ascii "_c")) := by
  have hsep : sampleTrie.All fun _ labels => Radix.Separated labels :=
    Radix.Tree.All.mono (fun _ _ h => h.separated) sampleTrie_wellFormed
  exact (Radix.find_eq_some_iff hsep).mp (by decide)

theorem sampleTrie_finds : exportsTrieWalkForSymbol sampleTrieBytes (ascii "_ab")
    = .ok (some (.reexportedFromDependency 1 (ascii "_c"))) :=
  (exportsTrieWalkForSymbol_finds (by decide) sampleTrie_wellFormed sampleTrie_serialised _).1
    (.reexport 8 1 (ascii "_c")) sampleTrie_maps

end Dynld
