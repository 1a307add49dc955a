import Dynld.Proof.Ends
import Dynld.Proof.Trie
import Dynld.Proof.TrieWalks

/-!
# The visit budget changes nothing

The walk of the exports trie visits at most one node for each byte of the trie.
Without that budget it ends all the same: no label is empty, so every turn takes
something off the symbol.

The budget only shows when a node is visited after as many others as there are bytes.
Distinct nodes inside the bytes are not that many, and neither are the turns of a
symbol that is shorter than the trie. In a well-formed trie no node is visited twice,
even where subtrees share nodes: the bytes at a node fix how many nodes are below it,
and on a way down these become fewer.
-/

namespace Dynld

/-! ## One turn -/

/-- How a turn of the loop ends. -/
inductive WalkTurn where
  /-- The walk is over. -/
  | ends (terminal : Option ExportTerminal)
  /-- On to this node, with this much of the symbol left. -/
  | goesOn (childNodeOffset : Nat) (remainingSuffix : List UInt8)

/-- The body of the loop, less its budget. -/
def exportsTrieWalkTurn (trieBytes : List UInt8) (currentNodeOffset : Nat)
    (remainingSuffix : List UInt8) : Outcome WalkTurn := do
  match ← TrieNodeReader.open trieBytes currentNodeOffset with
  | none => .ok (.ends none)
  | some node =>
      if remainingSuffix = [] ∧ node.hasTerminalPayload = true then do
        let terminal ← node.terminalPayloadRead
        .ok (.ends terminal)
      else do
        match ← node.childEdgeMatchingPrefixFind remainingSuffix with
        | none => .ok (.ends none)
        | some (matchedLabel, childNodeOffset) =>
            .ok (.goesOn childNodeOffset (remainingSuffix.drop matchedLabel.length))

/-- The loop without the budget: the offsets of the nodes it visits, and what it returns. -/
def exportsTrieWalkUnbudgetedLoop (trieBytes : List UInt8) :
    Nat → Nat → List UInt8 → List Nat × Outcome (Option ExportTerminal)
  | 0, _, _ => ([], .outOfFuel)
  | fuel + 1, currentNodeOffset, remainingSuffix =>
      match exportsTrieWalkTurn trieBytes currentNodeOffset remainingSuffix with
      | .ok (.ends terminal) => ([currentNodeOffset], .ok terminal)
      | .ok (.goesOn childNodeOffset remainingSuffix) =>
          let (visited, result) :=
            exportsTrieWalkUnbudgetedLoop trieBytes fuel childNodeOffset remainingSuffix
          (currentNodeOffset :: visited, result)
      | .err msg => ([currentNodeOffset], .err msg)
      | .panic msg => ([currentNodeOffset], .panic msg)
      | .outOfFuel => ([currentNodeOffset], .outOfFuel)

/-- The walk without the budget. Every turn takes a byte off the symbol, so the fuel is enough. -/
def exportsTrieWalkUnbudgeted (trieBytes symbol : List UInt8) :
    List Nat × Outcome (Option ExportTerminal) :=
  exportsTrieWalkUnbudgetedLoop trieBytes (symbol.length + 1) 0 symbol

theorem exportsTrieWalkLoop_succ (trieBytes : List UInt8) (visitBudget offset : Nat)
    (suffix : List UInt8) :
    exportsTrieWalkLoop trieBytes (visitBudget + 1) offset suffix
      = match exportsTrieWalkTurn trieBytes offset suffix with
        | .ok (.ends terminal) => .ok terminal
        | .ok (.goesOn child rest) => exportsTrieWalkLoop trieBytes visitBudget child rest
        | .err msg => .err msg
        | .panic msg => .panic msg
        | .outOfFuel => .outOfFuel := by
  rw [exportsTrieWalkLoop, exportsTrieWalkTurn]
  cases TrieNodeReader.open trieBytes offset with
  | err msg => rfl
  | panic msg => rfl
  | outOfFuel => rfl
  | ok found =>
      cases found with
      | none => rfl
      | some node =>
          simp only [Outcome.ok_bind]
          split
          · cases node.terminalPayloadRead <;> rfl
          · cases node.childEdgeMatchingPrefixFind suffix with
            | err msg => rfl
            | panic msg => rfl
            | outOfFuel => rfl
            | ok edge =>
                cases edge with
                | none => rfl
                | some edge => rfl

/-- A node that opens has a head, and the byte behind its terminal is inside the bytes. -/
theorem open_eq_some {bs : List UInt8} {offset : Nat} {node : TrieNodeReader}
    (h : TrieNodeReader.open bs offset = .ok (some node)) :
    ∃ start size, NodeHead bs offset start size ∧ start + size < bs.length ∧
      node = ⟨bs, start + size, start, size⟩ := by
  by_cases hhead : ∃ start size, NodeHead bs offset start size
  · obtain ⟨start, size, hhead⟩ := hhead
    rw [open_of_head hhead] at h
    split at h
    · split at h
      · exact absurd h (by simp)
      · rename_i hlt
        exact ⟨start, size, hhead, Nat.lt_of_not_le hlt, (Option.some.inj (Outcome.ok.inj h)).symm⟩
    · exact absurd h (by simp)
  · have hnone := @open_of_no_head bs offset fun start size hh => hhead ⟨start, size, hh⟩
    rw [hnone] at h
    exact absurd h (by simp)

/-- A turn that goes on has taken an edge of the node it is at. -/
theorem exportsTrieWalkTurn_goesOn {bs suffix rest : List UInt8} {offset child : Nat}
    (h : exportsTrieWalkTurn bs offset suffix = .ok (.goesOn child rest)) :
    ∃ label, NodeEdge bs suffix offset label child ∧ rest = suffix.drop label.length := by
  obtain ⟨found, hopen, h⟩ := Outcome.bind_eq_ok.mp h
  cases found with
  | none => exact absurd h (by simp)
  | some node =>
      dsimp only at h
      split at h
      · obtain ⟨terminal, -, h⟩ := Outcome.bind_eq_ok.mp h
        exact absurd h (by simp)
      · obtain ⟨edge, hfind, h⟩ := Outcome.bind_eq_ok.mp h
        cases edge with
        | none => exact absurd h (by simp)
        | some edge =>
            obtain ⟨label, child'⟩ := edge
            obtain ⟨rfl, rfl⟩ := WalkTurn.goesOn.inj (Outcome.ok.inj h)
            obtain ⟨start, size, hhead, hlt, rfl⟩ := open_eq_some hopen
            obtain ⟨found, hfound, hedge⟩ := childEdgeMatchingPrefixFind_spec
              ⟨bs, start + size, start, size⟩ suffix hhead hlt rfl rfl
            rw [hfound] at hfind
            exact ⟨label, (hedge label child').mp (Outcome.ok.inj hfind), rfl⟩

/-- The label of an edge is not empty, so there is less of the symbol left. -/
theorem NodeEdge.shorter {bs suffix label : List UInt8} {offset child : Nat}
    (h : NodeEdge bs suffix offset label child) :
    (suffix.drop label.length).length < suffix.length := by
  obtain ⟨_, _, _, -, -, htaken⟩ := h
  obtain ⟨hne, hpre⟩ := htaken.label_prefix
  have hpos := List.length_pos_iff.mpr hne
  have hle := hpre.length_le
  rw [List.length_drop]
  omega

theorem NodeEdge.lt_length {bs suffix label : List UInt8} {offset child : Nat}
    (h : NodeEdge bs suffix offset label child) : offset < bs.length := by
  obtain ⟨_, _, _, hhead, -, -⟩ := h
  exact hhead.1

/-- Outside the bytes there is no node. -/
theorem exportsTrieWalkTurn_outside {bs suffix : List UInt8} {offset : Nat}
    (h : bs.length ≤ offset) : exportsTrieWalkTurn bs offset suffix = .ok (.ends none) := by
  rw [exportsTrieWalkTurn, TrieNodeReader.open, if_pos h]
  rfl

/-! ## The walk without a budget -/

section Walk

variable {bs : List UInt8}

/-- A turn that both walks end at, with the same result. -/
structure WalksEnd (bs : List UInt8) (offset : Nat) (suffix : List UInt8)
    (result : Outcome (Option ExportTerminal)) : Prop where
  unbudgeted : ∀ fuel, exportsTrieWalkUnbudgetedLoop bs (fuel + 1) offset suffix
    = ([offset], result)
  budgeted : ∀ visitBudget, exportsTrieWalkLoop bs (visitBudget + 1) offset suffix = result

/-- A turn that both walks go on from, along the edge of this label. -/
structure WalksGoOn (bs : List UInt8) (offset : Nat) (suffix : List UInt8) (label : List UInt8)
    (child : Nat) : Prop where
  edge : NodeEdge bs suffix offset label child
  unbudgeted : ∀ fuel, exportsTrieWalkUnbudgetedLoop bs (fuel + 1) offset suffix
    = (offset :: (exportsTrieWalkUnbudgetedLoop bs fuel child (suffix.drop label.length)).1,
        (exportsTrieWalkUnbudgetedLoop bs fuel child (suffix.drop label.length)).2)
  budgeted : ∀ visitBudget, exportsTrieWalkLoop bs (visitBudget + 1) offset suffix
    = exportsTrieWalkLoop bs visitBudget child (suffix.drop label.length)

/-- The two walks only differ in when they give up. -/
theorem walkTurn_cases (bs : List UInt8) (offset : Nat) (suffix : List UInt8) :
    (∃ result, WalksEnd bs offset suffix result) ∨
      ∃ label child, WalksGoOn bs offset suffix label child := by
  cases hturn : exportsTrieWalkTurn bs offset suffix with
  | err msg =>
      refine .inl ⟨.err msg, fun fuel => ?_, fun visitBudget => ?_⟩
      · rw [exportsTrieWalkUnbudgetedLoop, hturn]
      · rw [exportsTrieWalkLoop_succ, hturn]
  | panic msg =>
      refine .inl ⟨.panic msg, fun fuel => ?_, fun visitBudget => ?_⟩
      · rw [exportsTrieWalkUnbudgetedLoop, hturn]
      · rw [exportsTrieWalkLoop_succ, hturn]
  | outOfFuel =>
      refine .inl ⟨.outOfFuel, fun fuel => ?_, fun visitBudget => ?_⟩
      · rw [exportsTrieWalkUnbudgetedLoop, hturn]
      · rw [exportsTrieWalkLoop_succ, hturn]
  | ok turn =>
      cases turn with
      | ends terminal =>
          refine .inl ⟨.ok terminal, fun fuel => ?_, fun visitBudget => ?_⟩
          · rw [exportsTrieWalkUnbudgetedLoop, hturn]
          · rw [exportsTrieWalkLoop_succ, hturn]
      | goesOn child rest =>
          obtain ⟨label, hedge, rfl⟩ := exportsTrieWalkTurn_goesOn hturn
          refine .inr ⟨label, child, hedge, fun fuel => ?_, fun visitBudget => ?_⟩
          · rw [exportsTrieWalkUnbudgetedLoop, hturn]
          · rw [exportsTrieWalkLoop_succ, hturn]

/-- The walk ends before its fuel does, and more fuel changes nothing. -/
theorem exportsTrieWalkUnbudgetedLoop_fuel : ∀ {fuel fuel' offset : Nat} {suffix : List UInt8},
    suffix.length < fuel → suffix.length < fuel' →
      exportsTrieWalkUnbudgetedLoop bs fuel offset suffix
        = exportsTrieWalkUnbudgetedLoop bs fuel' offset suffix := by
  intro fuel
  induction fuel with
  | zero =>
    intro fuel' offset suffix h _
    omega
  | succ fuel ih =>
    intro fuel' offset suffix h h'
    obtain ⟨fuel', rfl⟩ : ∃ n, fuel' = n + 1 := ⟨fuel' - 1, by omega⟩
    rcases walkTurn_cases bs offset suffix with ⟨result, hend⟩ | ⟨label, child, hgo⟩
    · rw [hend.unbudgeted, hend.unbudgeted]
    · have hshorter := hgo.edge.shorter
      rw [hgo.unbudgeted, hgo.unbudgeted, @ih fuel' child _ (by omega) (by omega)]

/-- Each turn takes a byte off the symbol. -/
theorem length_visited_le : ∀ {fuel offset : Nat} {suffix : List UInt8},
    (exportsTrieWalkUnbudgetedLoop bs fuel offset suffix).1.length ≤ suffix.length + 1 := by
  intro fuel
  induction fuel with
  | zero =>
    intro offset suffix
    exact Nat.zero_le _
  | succ fuel ih =>
    intro offset suffix
    rcases walkTurn_cases bs offset suffix with ⟨result, hend⟩ | ⟨label, child, hgo⟩
    · rw [hend.unbudgeted, List.length_singleton]
      omega
    · have hshorter := hgo.edge.shorter
      have hle := @ih child (suffix.drop label.length)
      rw [hgo.unbudgeted, List.length_cons]
      omega

/-- A budget that covers the visits inside the bytes makes no difference: a visit outside of them
ends the walk as an empty budget does. -/
theorem exportsTrieWalkLoop_eq_unbudgeted : ∀ {fuel visitBudget offset : Nat} {suffix : List UInt8},
    suffix.length < fuel →
    (exportsTrieWalkUnbudgetedLoop bs fuel offset suffix).1.countP (· < bs.length) ≤ visitBudget →
      exportsTrieWalkLoop bs visitBudget offset suffix
        = (exportsTrieWalkUnbudgetedLoop bs fuel offset suffix).2 := by
  intro fuel
  induction fuel with
  | zero =>
    intro visitBudget offset suffix h _
    omega
  | succ fuel ih =>
    intro visitBudget offset suffix h hcount
    cases visitBudget with
    | zero =>
        by_cases hin : offset < bs.length
        · -- the node itself is inside the bytes, and is counted
          exfalso
          rcases walkTurn_cases bs offset suffix with ⟨result, hend⟩ | ⟨label, child, hgo⟩
          · rw [hend.unbudgeted, List.countP_cons_of_pos (by simpa using hin)] at hcount
            omega
          · rw [hgo.unbudgeted, List.countP_cons_of_pos (by simpa using hin)] at hcount
            omega
        · rw [exportsTrieWalkUnbudgetedLoop, exportsTrieWalkTurn_outside (Nat.le_of_not_lt hin)]
          rfl
    | succ visitBudget =>
        rcases walkTurn_cases bs offset suffix with ⟨result, hend⟩ | ⟨label, child, hgo⟩
        · rw [hend.budgeted, hend.unbudgeted]
        · have hshorter := hgo.edge.shorter
          have hin := hgo.edge.lt_length
          rw [hgo.unbudgeted, List.countP_cons_of_pos (by simpa using hin)] at hcount
          rw [hgo.budgeted, hgo.unbudgeted]
          exact ih (by omega) (by omega)

/-- Distinct nodes inside the bytes are no more than there are bytes. -/
theorem countP_le_of_nodup {visited : List Nat} {n : Nat} (h : visited.Nodup) :
    visited.countP (· < n) ≤ n := by
  have hsub : visited.filter (· < n) ⊆ List.range n := by
    intro o ho
    have hlt := (List.mem_filter.mp ho).2
    exact List.mem_range.mpr (by simpa using hlt)
  have hnd : (visited.filter (· < n)).Nodup := h.filter _
  have hle := hnd.length_le_of_subset hsub
  rwa [List.length_range, ← List.countP_eq_length_filter] at hle

end Walk

/-! ## Well-formed tries -/

section Layout

variable {bs : List UInt8}

/-- What a walk reads at a node that is laid out. -/
theorem NodeAt.fields {terminal : Option TrieTerminal} {edges : Radix.Edges UInt8 TrieTerminal}
    {off : Nat} {offs : List Nat} (h : NodeAt bs (.node terminal edges) off offs)
    (hwf : ExportsTrie.WellFormed (.node terminal edges)) :
    ∃ start size count offs', offs = off :: offs' ∧ NodeHead bs off start size ∧
      bs[start + size]? = some count ∧ count.toNat = edges.length ∧
      EdgesAt bs edges (start + size + 1) offs' := by
  cases h with
  | @node _ _ _ offs sizeField payload hterm hsize hat hedges =>
      obtain ⟨hatSize, hrest⟩ := Bytes.at_append.mp hat
      have hle := hat.le_length (by simp)
      have hpos := List.length_pos_iff.mpr hsize.ne_nil
      simp only [List.length_append] at hle
      have hcount : edges.length ≤ 255 := by
        have hle := hwf.1.count_le
        rwa [Radix.Edges.labels, List.length_map] at hle
      refine ⟨off + sizeField.length, payload.length, UInt8.ofNat edges.length, offs, rfl, ?_, ?_,
        ?_, hedges⟩
      · exact ⟨by omega, sizeField.length, (readUleb128_of_at hatSize hsize).2, rfl⟩
      · have hd := (Bytes.at_append.mp hrest).2.drop_eq
        rw [← List.head?_drop, hd]
        rfl
      · rw [UInt8.toNat_ofNat']
        omega

theorem EdgesAt.fields {label : List UInt8} {child : ExportsTrie}
    {rest : Radix.Edges UInt8 TrieTerminal} {cursor : Nat} {offs : List Nat}
    (h : EdgesAt bs (.cons label child rest) cursor offs) (h0 : 0 ∉ label) :
    ∃ childOff next offs₁ offs₂, offs = offs₁ ++ offs₂ ∧
      EdgeBytes bs cursor label childOff next ∧ NodeAt bs child childOff offs₁ ∧
      EdgesAt bs rest next offs₂ := by
  cases h with
  | @cons _ offsetField _ _ _ childOff offs₁ offs₂ hfield hat hchild hrest =>
      have hlabel : Bytes.At bs cursor (label ++ [0]) := by
        rw [← List.append_assoc] at hat
        exact (Bytes.at_append.mp hat).1
      have hoffset := (Bytes.at_append.mp (Bytes.at_append.mp hat).2).2
      rw [List.length_singleton] at hoffset
      refine ⟨childOff, _, offs₁, offs₂, rfl, ⟨(untilNul_of_at hlabel h0).2, ?_⟩, hchild, hrest⟩
      exact ⟨offsetField.length, (readUleb128_of_at hoffset hfield).2, rfl⟩

mutual

/-- The bytes at a node fix where the nodes below it are. -/
theorem NodeAt.unique : ∀ {t t' : ExportsTrie} {off : Nat} {offs offs' : List Nat},
    NodeAt bs t off offs → t.WellFormed → NodeAt bs t' off offs' → t'.WellFormed → offs' = offs
  | .node _ edges, .node _ edges', off, _, _, h, hwf, h', hwf' => by
      obtain ⟨start, size, count, offs, rfl, hhead, hcount, hn, hedges⟩ := h.fields hwf
      obtain ⟨start', size', count', offs', rfl, hhead', hcount', hn', hedges'⟩ := h'.fields hwf'
      obtain ⟨rfl, rfl⟩ := hhead.unique hhead'
      rw [hcount] at hcount'
      obtain rfl := Option.some.inj hcount'
      rw [EdgesAt.unique hedges hwf.2 hwf.1.labels_nul hedges' hwf'.2 hwf'.1.labels_nul
        (hn'.symm.trans hn)]

theorem EdgesAt.unique : ∀ {es es' : Radix.Edges UInt8 TrieTerminal} {cursor : Nat}
    {offs offs' : List Nat}, EdgesAt bs es cursor offs → es.All TrieNodeWellFormed →
    (∀ l ∈ es.labels, 0 ∉ l) → EdgesAt bs es' cursor offs' → es'.All TrieNodeWellFormed →
    (∀ l ∈ es'.labels, 0 ∉ l) → es'.length = es.length → offs' = offs
  | .nil, .nil, _, _, _, .nil, _, _, .nil, _, _, _ => rfl
  | .nil, .cons _ _ _, _, _, _, _, _, _, _, _, _, hlen =>
      absurd hlen (by simp [Radix.Edges.length, Radix.Edges.toList])
  | .cons _ _ _, .nil, _, _, _, _, _, _, _, _, _, hlen =>
      absurd hlen (by simp [Radix.Edges.length, Radix.Edges.toList])
  | .cons label child rest, .cons label' child' rest', cursor, _, _, h, hwf, h0, h', hwf', h0',
      hlen => by
      obtain ⟨childOff, next, offs₁, offs₂, rfl, hedge, hchild, hrest⟩ :=
        h.fields (h0 label List.mem_cons_self)
      obtain ⟨childOff', next', offs₁', offs₂', rfl, hedge', hchild', hrest'⟩ :=
        h'.fields (h0' label' List.mem_cons_self)
      obtain ⟨-, rfl, rfl⟩ := hedge.unique hedge'
      rw [NodeAt.unique hchild hwf.1 hchild' hwf'.1,
        EdgesAt.unique hrest hwf.2 (fun l hl => h0 l (List.mem_cons_of_mem _ hl)) hrest' hwf'.2
          (fun l hl => h0' l (List.mem_cons_of_mem _ hl)) (Nat.succ.inj hlen)]

end

/-- An edge of a laid out node leads to a laid out node. -/
theorem EdgesAt.taken {suffix label : List UInt8} {child : Nat} :
    ∀ {es : Radix.Edges UInt8 TrieTerminal} {cursor : Nat} {offs : List Nat},
      EdgesAt bs es cursor offs → es.All TrieNodeWellFormed → (∀ l ∈ es.labels, 0 ∉ l) →
      EdgeTaken bs suffix es.length cursor label child →
      ∃ (t : ExportsTrie) (offs' : List Nat), NodeAt bs t child offs' ∧ t.WellFormed ∧
        offs'.length ≤ offs.length
  | .nil, _, _, _, _, _, htaken => nomatch htaken
  | .cons label' node rest, cursor, _, h, hwf, h0, htaken => by
      obtain ⟨childOff, next, offs₁, offs₂, rfl, hedge, hchild, hrest⟩ :=
        h.fields (h0 label' List.mem_cons_self)
      rw [List.length_append]
      have htaken := (edgeTaken_succ_iff hedge).mp htaken
      split at htaken
      · obtain ⟨-, rfl⟩ := htaken
        exact ⟨node, offs₁, hchild, hwf.1, by omega⟩
      · obtain ⟨t, offs', hat, hwf', hle⟩ := EdgesAt.taken hrest hwf.2
          (fun l hl => h0 l (List.mem_cons_of_mem _ hl)) htaken
        exact ⟨t, offs', hat, hwf', by omega⟩

/-- There are fewer nodes below the child. -/
theorem NodeAt.child {suffix label : List UInt8} {off child : Nat} {offs : List Nat}
    {t : ExportsTrie} (h : NodeAt bs t off offs) (hwf : t.WellFormed)
    (hedge : NodeEdge bs suffix off label child) :
    ∃ (t' : ExportsTrie) (offs' : List Nat), NodeAt bs t' child offs' ∧ t'.WellFormed ∧
      offs'.length < offs.length := by
  obtain ⟨terminal, edges⟩ := t
  obtain ⟨start, size, count, offs, rfl, hhead, hcount, hn, hedges⟩ := h.fields hwf
  obtain ⟨start', size', count', hhead', hcount', htaken⟩ := hedge
  obtain ⟨rfl, rfl⟩ := hhead.unique hhead'
  rw [hcount] at hcount'
  obtain rfl := Option.some.inj hcount'
  rw [hn] at htaken
  obtain ⟨t', offs', hat, hwf', hle⟩ := hedges.taken hwf.2 hwf.1.labels_nul htaken
  exact ⟨t', offs', hat, hwf', Nat.lt_succ_of_le hle⟩

/-- On the way down from a laid out node no node is visited twice, and each one is laid out with
no more nodes below it than the first. -/
theorem NodeAt.visited {fuel : Nat} : ∀ {t : ExportsTrie} {off : Nat} {offs : List Nat}
    {suffix : List UInt8}, NodeAt bs t off offs → t.WellFormed →
      (exportsTrieWalkUnbudgetedLoop bs fuel off suffix).1.Nodup ∧
      ∀ o ∈ (exportsTrieWalkUnbudgetedLoop bs fuel off suffix).1,
        ∃ (t' : ExportsTrie) (offs' : List Nat), NodeAt bs t' o offs' ∧ t'.WellFormed ∧
          offs'.length ≤ offs.length := by
  induction fuel with
  | zero =>
    intro t off offs suffix _ _
    exact ⟨List.nodup_nil, fun o ho => absurd ho List.not_mem_nil⟩
  | succ fuel ih =>
    intro t off offs suffix h hwf
    have hself : ∀ o ∈ [off], ∃ (t' : ExportsTrie) (offs' : List Nat), NodeAt bs t' o offs' ∧
        t'.WellFormed ∧ offs'.length ≤ offs.length := by
      intro o ho
      rw [List.mem_singleton.mp ho]
      exact ⟨t, offs, h, hwf, Nat.le_refl _⟩
    rcases walkTurn_cases bs off suffix with ⟨result, hend⟩ | ⟨label, child, hgo⟩
    · rw [hend.unbudgeted]
      exact ⟨by simp, hself⟩
    · obtain ⟨t', offs', h', hwf', hlt⟩ := h.child hwf hgo.edge
      obtain ⟨hnd, hvisited⟩ := @ih t' child offs' (suffix.drop label.length) h' hwf'
      rw [hgo.unbudgeted]
      refine ⟨List.nodup_cons.mpr ⟨fun hmem => ?_, hnd⟩, fun o ho => ?_⟩
      · -- the node itself would have fewer nodes below it than it has
        obtain ⟨t'', offs'', h'', hwf'', hle⟩ := hvisited off hmem
        rw [h.unique hwf h'' hwf''] at hle
        omega
      · rcases List.mem_cons.mp ho with rfl | ho
        · exact hself o List.mem_cons_self
        · obtain ⟨t'', offs'', h'', hwf'', hle⟩ := hvisited o ho
          exact ⟨t'', offs'', h'', hwf'', by omega⟩

end Layout

/-! ## The budget -/

/-- The walk without the budget ends. -/
theorem exportsTrieWalkUnbudgeted_ne_outOfFuel (trieBytes symbol : List UInt8) :
    (exportsTrieWalkUnbudgeted trieBytes symbol).2 ≠ .outOfFuel := by
  -- it returns what a walk with a large enough budget does
  have heq := @exportsTrieWalkLoop_eq_unbudgeted trieBytes (symbol.length + 1) _ 0 symbol
    (Nat.lt_succ_self _) (Nat.le_refl _)
  rw [exportsTrieWalkUnbudgeted, ← heq]
  exact exportsTrieWalkLoop_ne_outOfFuel _ _ _ _

/-- **The visit budget is harmless**: a walk that visits no node twice, or looks for a symbol
shorter than the trie, returns what the walk without the budget returns. The walk of a well-formed
trie visits no node twice, shared nodes or not, and the walk without the budget always ends. -/
theorem exportsTrieWalkForSymbol_eq_unbudgeted (trieBytes symbol : List UInt8) :
    ((exportsTrieWalkUnbudgeted trieBytes symbol).1.Nodup ∨ symbol.length < trieBytes.length →
      exportsTrieWalkForSymbol trieBytes symbol
        = (exportsTrieWalkUnbudgeted trieBytes symbol).2) ∧
    (∀ (trie : ExportsTrie) (offs : List Nat), trie.WellFormed → NodeAt trieBytes trie 0 offs →
      (exportsTrieWalkUnbudgeted trieBytes symbol).1.Nodup) ∧
    (exportsTrieWalkUnbudgeted trieBytes symbol).2 ≠ .outOfFuel ∧
    ∀ fuel, symbol.length < fuel →
      exportsTrieWalkUnbudgetedLoop trieBytes fuel 0 symbol
        = exportsTrieWalkUnbudgeted trieBytes symbol := by
  refine ⟨fun h => ?_, fun trie offs hwf hat => (hat.visited hwf).1,
    exportsTrieWalkUnbudgeted_ne_outOfFuel _ _, fun fuel hfuel => ?_⟩
  · refine exportsTrieWalkLoop_eq_unbudgeted (Nat.lt_succ_self _) ?_
    rcases h with hnd | hlt
    · exact countP_le_of_nodup hnd
    · have hle := @length_visited_le trieBytes (symbol.length + 1) 0 symbol
      exact List.countP_le_length.trans (hle.trans hlt)
  · exact exportsTrieWalkUnbudgetedLoop_fuel hfuel (Nat.lt_succ_self _)

/-- Two edges to one node: `_a` and `_b` are at the same offset of the image. -/
def sampleSharedTrieBytes : List UInt8 :=
  [0, 2, 0x5f, 0x61, 0, 10, 0x5f, 0x62, 0, 10, 2, 0, 7, 0]

theorem sampleSharedTrie_walk :
    exportsTrieWalkForSymbol sampleSharedTrieBytes (ascii "_b") = .ok (some (.definedHere 7)) := by
  have heq := (exportsTrieWalkForSymbol_eq_unbudgeted sampleSharedTrieBytes (ascii "_b")).1
    (Or.inl (by decide +kernel))
  rw [heq]
  decide +kernel

end Dynld
