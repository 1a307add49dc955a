import Dynld.Lib.Radix
import Dynld.MachOImage

/-!
# What an exports trie is

The linker writes the symbols a dylib exports as a radix tree over the bytes of
their names. This file says what such a tree is, and when a byte string is one:

* a **node** is the size of its terminal as a ULEB128, the terminal itself, the
  number of edges as a byte, and the edges;
* an **edge** is its label with a NUL, and the offset of the child as a ULEB128;
* a **terminal** is its flags and an offset, or its flags, an ordinal and a name
  with a NUL.

Nothing fixes the order of the nodes or how a ULEB128 is padded, so this is a
relation: `Serialised bytes trie` holds of every layout the linker may choose.
-/

namespace Dynld

/-- What the trie records about one exported symbol. -/
inductive TrieTerminal where
  /-- The symbol is defined in the image, at this offset. -/
  | defined (flags offset : Nat)
  /-- The symbol is that of another dylib, under this name. -/
  | reexport (flags ordinal : Nat) (aliasedName : List UInt8)
  deriving DecidableEq, Repr

abbrev ExportsTrie : Type := Radix.Tree UInt8 TrieTerminal

namespace TrieTerminal

/-- The flags say which of the two it is, and the name ends at its NUL. -/
def WellFormed : TrieTerminal → Prop
  | defined flags _ => flags &&& exportSymbolFlagsReexport = 0
  | reexport flags _ aliasedName => flags &&& exportSymbolFlagsReexport ≠ 0 ∧ 0 ∉ aliasedName

/-- The terminal as a lookup returns it. -/
def toExport : TrieTerminal → ExportTerminal
  | defined _ offset => .definedHere offset
  | reexport _ ordinal aliasedName => .reexportedFromDependency ordinal aliasedName

end TrieTerminal

/-- The conditions on one node. -/
structure TrieNodeWellFormed (terminal : Option TrieTerminal) (labels : List (List UInt8)) :
    Prop where
  terminal_wf : ∀ t, terminal = some t → t.WellFormed
  /-- No label is empty and no two siblings start with the same byte. -/
  separated : Radix.Separated labels
  /-- A label ends at its NUL. -/
  labels_nul : ∀ l ∈ labels, 0 ∉ l
  /-- The edges are counted in one byte. -/
  count_le : labels.length ≤ 255

def ExportsTrie.WellFormed (trie : ExportsTrie) : Prop := trie.All TrieNodeWellFormed

/-- `Maps trie symbol t`: the node that the name of `symbol` leads to has terminal `t`. -/
def ExportsTrie.Maps (trie : ExportsTrie) (symbol : List UInt8) (t : TrieTerminal) : Prop :=
  ∃ node, Radix.Path trie symbol node ∧ node.value = some t

/-! ## The bytes -/

/-- A ULEB128 field: any encoding of a 64-bit number in at most ten bytes. -/
structure UlebField (bs : List UInt8) (v : Nat) : Prop where
  encodes : Uleb.Encodes bs v
  length_le : bs.length ≤ 10
  lt : v < 2 ^ 64

/-- The bytes of a terminal. A node without one has none. -/
inductive TerminalBytes : Option TrieTerminal → List UInt8 → Prop where
  | none : TerminalBytes none []
  | defined {flags offset : Nat} {flagsField offsetField : List UInt8} :
      UlebField flagsField flags → UlebField offsetField offset →
      TerminalBytes (some (.defined flags offset)) (flagsField ++ offsetField)
  | reexport {flags ordinal : Nat} {flagsField ordinalField aliasedName : List UInt8} :
      UlebField flagsField flags → UlebField ordinalField ordinal →
      TerminalBytes (some (.reexport flags ordinal aliasedName))
        (flagsField ++ (ordinalField ++ (aliasedName ++ [0])))

mutual

/-- `NodeAt bs t off offs`: `t` is laid out in `bs`, its root at `off` and its nodes at
`offs`. -/
inductive NodeAt (bs : List UInt8) : ExportsTrie → Nat → List Nat → Prop where
  | node {terminal : Option TrieTerminal} {edges : Radix.Edges UInt8 TrieTerminal}
      {off : Nat} {offs : List Nat} {sizeField payload : List UInt8} :
      TerminalBytes terminal payload → UlebField sizeField payload.length →
      Bytes.At bs off (sizeField ++ (payload ++ [UInt8.ofNat edges.length])) →
      EdgesAt bs edges (off + sizeField.length + payload.length + 1) offs →
      NodeAt bs (.node terminal edges) off (off :: offs)

/-- The edges of one node, starting at `cursor`, and the nodes behind them. -/
inductive EdgesAt (bs : List UInt8) :
    Radix.Edges UInt8 TrieTerminal → Nat → List Nat → Prop where
  | nil {cursor : Nat} : EdgesAt bs .nil cursor []
  | cons {label offsetField : List UInt8} {child : ExportsTrie}
      {rest : Radix.Edges UInt8 TrieTerminal} {cursor childOff : Nat} {offs offs' : List Nat} :
      UlebField offsetField childOff →
      Bytes.At bs cursor (label ++ ([0] ++ offsetField)) →
      NodeAt bs child childOff offs →
      EdgesAt bs rest (cursor + label.length + 1 + offsetField.length) offs' →
      EdgesAt bs (.cons label child rest) cursor (offs ++ offs')

end

/-- The root is at offset 0, and every node has an offset of its own. -/
def Serialised (bs : List UInt8) (trie : ExportsTrie) : Prop :=
  ∃ offs, NodeAt bs trie 0 offs ∧ offs.Nodup

mutual

/-- A node sits inside the bytes. -/
theorem NodeAt.lt_length {bs : List UInt8} :
    ∀ {t : ExportsTrie} {off : Nat} {offs : List Nat}, NodeAt bs t off offs →
      ∀ o ∈ offs, o < bs.length
  | .node _ edges, off, _, .node _ _ hat hedges, o, ho => by
      rcases List.mem_cons.mp ho with he | ho
      · have hle := hat.le_length (by simp)
        simp only [List.length_append, List.length_cons] at hle
        omega
      · exact EdgesAt.lt_length hedges o ho

theorem EdgesAt.lt_length {bs : List UInt8} :
    ∀ {es : Radix.Edges UInt8 TrieTerminal} {cursor : Nat} {offs : List Nat},
      EdgesAt bs es cursor offs → ∀ o ∈ offs, o < bs.length
  | .nil, _, _, .nil, _, ho => absurd ho (by simp)
  | .cons _ child rest, _, _, .cons _ _ hchild hrest, o, ho => by
      rcases List.mem_append.mp ho with ho | ho
      · exact NodeAt.lt_length hchild o ho
      · exact EdgesAt.lt_length hrest o ho

end

/-- There are no more nodes than bytes. -/
theorem NodeAt.length_le {bs : List UInt8} {t : ExportsTrie} {off : Nat} {offs : List Nat}
    (h : NodeAt bs t off offs) (hnd : offs.Nodup) : offs.length ≤ bs.length := by
  have hsub : offs ⊆ List.range bs.length := fun o ho => List.mem_range.mpr (h.lt_length o ho)
  have hle := hnd.length_le_of_subset hsub
  rw [List.length_range] at hle
  exact hle

end Dynld
