/-!
# Radix trees

A radix tree maps keys, which are lists of symbols, to values. Each edge carries a
label, and the key of a node is the concatenation of the labels on the way to it.

`Path` is what the tree means: which node a key leads to. `find` is how it is
searched: at each node the first edge whose label starts the rest of the key. The
two agree (`find_eq_some_iff`) when no label is empty and no two siblings start
with the same symbol.
-/

namespace Radix

variable {α β : Type}

mutual

/-- A node, with the value of its key if it has one. -/
inductive Tree (α β : Type) where
  | node (value : Option β) (edges : Edges α β)

/-- The edges out of one node, in order. -/
inductive Edges (α β : Type) where
  | nil
  | cons (label : List α) (child : Tree α β) (rest : Edges α β)

end

def Tree.value : Tree α β → Option β
  | .node value _ => value

namespace Edges

def toList : Edges α β → List (List α × Tree α β)
  | .nil => []
  | .cons label child rest => (label, child) :: rest.toList

def labels (edges : Edges α β) : List (List α) := edges.toList.map Prod.fst

def length (edges : Edges α β) : Nat := edges.toList.length

end Edges

/-! ## Conditions on every node -/

mutual

/-- `p` holds of the value and the labels of every node. -/
def Tree.All (p : Option β → List (List α) → Prop) : Tree α β → Prop
  | .node value edges => p value edges.labels ∧ edges.All p

def Edges.All (p : Option β → List (List α) → Prop) : Edges α β → Prop
  | .nil => True
  | .cons _ child rest => child.All p ∧ rest.All p

end

mutual

theorem Tree.All.mono {p q : Option β → List (List α) → Prop} (hpq : ∀ v ls, p v ls → q v ls) :
    ∀ {t : Tree α β}, t.All p → t.All q
  | .node _ _, h => ⟨hpq _ _ h.1, Edges.All.mono hpq h.2⟩

theorem Edges.All.mono {p q : Option β → List (List α) → Prop} (hpq : ∀ v ls, p v ls → q v ls) :
    ∀ {es : Edges α β}, es.All p → es.All q
  | .nil, _ => trivial
  | .cons _ _ _, h => ⟨Tree.All.mono hpq h.1, Edges.All.mono hpq h.2⟩

end

theorem Edges.All.of_mem {p : Option β → List (List α) → Prop} {label : List α}
    {child : Tree α β} : ∀ {es : Edges α β}, es.All p → (label, child) ∈ es.toList → child.All p
  | .nil, _, hm => absurd hm (by simp [Edges.toList])
  | .cons l c rest, h, hm => by
      rcases List.mem_cons.mp hm with he | hm
      · injection he with _ hc
        rw [hc]
        exact h.1
      · exact Edges.All.of_mem h.2 hm

/-- A key chooses at most one edge out of a node with these labels. -/
structure Separated (labels : List (List α)) : Prop where
  /-- Every edge consumes something. -/
  nonempty : ∀ l ∈ labels, l ≠ []
  /-- The first symbol tells the siblings apart. -/
  heads : (labels.map List.head?).Nodup

theorem Separated.tail {l : List α} {ls : List (List α)} (h : Separated (l :: ls)) :
    Separated ls :=
  ⟨fun m hm => h.nonempty m (List.mem_cons_of_mem _ hm),
    (List.nodup_cons.mp h.heads).2⟩

/-- Labels that start the same key start with the same symbol. -/
theorem head_eq_of_prefix {l m key : List α} (hl : l ≠ []) (hm : m ≠ []) (hlk : l <+: key)
    (hmk : m <+: key) : l.head? = m.head? := by
  obtain ⟨r, rfl⟩ := hlk
  obtain ⟨s, hs⟩ := hmk
  cases l with
  | nil => exact absurd rfl hl
  | cons a l =>
    cases m with
    | nil => exact absurd rfl hm
    | cons b m =>
      injection hs with hab _
      rw [List.head?_cons, List.head?_cons, hab]

/-! ## Meaning and search -/

/-- `Path t key u`: the labels from `t` down to `u` concatenate to `key`. -/
inductive Path : Tree α β → List α → Tree α β → Prop where
  | here (t : Tree α β) : Path t [] t
  | edge {value : Option β} {edges : Edges α β} {label key : List α} {child u : Tree α β} :
      (label, child) ∈ edges.toList → Path child key u → Path (.node value edges) (label ++ key) u

variable [DecidableEq α]

mutual

/-- The value found for `key`. -/
def Tree.find : Tree α β → List α → Option β
  | .node value edges, key => if key = [] then value else edges.find key

/-- The value found behind the first edge whose label starts `key`. -/
def Edges.find : Edges α β → List α → Option β
  | .nil, _ => none
  | .cons label child rest, key =>
      if label <+: key then child.find (key.drop label.length) else rest.find key

end

mutual

theorem Tree.find_path {b : β} :
    ∀ {t : Tree α β} {key : List α}, t.find key = some b → ∃ u, Path t key u ∧ u.value = some b
  | .node value edges, key, h => by
      rw [Tree.find] at h
      split at h
      · rename_i hk
        subst hk
        exact ⟨_, .here _, h⟩
      · obtain ⟨label, child, rest, hmem, hkey, u, hu, hub⟩ := Edges.find_path h
        rw [hkey]
        exact ⟨u, .edge hmem hu, hub⟩

theorem Edges.find_path {b : β} :
    ∀ {es : Edges α β} {key : List α}, es.find key = some b →
      ∃ label child rest, (label, child) ∈ es.toList ∧ key = label ++ rest ∧
        ∃ u, Path child rest u ∧ u.value = some b
  | .nil, _, h => absurd h (by simp [Edges.find])
  | .cons label child rest, key, h => by
      rw [Edges.find] at h
      split at h
      · rename_i hpre
        obtain ⟨u, hu⟩ := Tree.find_path h
        refine ⟨label, child, _, List.mem_cons_self, ?_, u, hu⟩
        exact (List.prefix_iff_eq_append.mp hpre).symm
      · obtain ⟨l, c, r, hmem, hrest⟩ := Edges.find_path h
        exact ⟨l, c, r, List.mem_cons_of_mem _ hmem, hrest⟩

end

/-- With separated labels the search takes the one edge that starts the key. -/
theorem Edges.find_of_mem {label key : List α} {child : Tree α β} :
    ∀ {es : Edges α β}, Separated es.labels → (label, child) ∈ es.toList →
      es.find (label ++ key) = child.find key
  | .nil, _, hm => absurd hm (by simp [Edges.toList])
  | .cons l c rest, hsep, hm => by
      rw [Edges.find]
      rcases List.mem_cons.mp hm with he | hm
      · injection he with hl hc
        subst hl; subst hc
        rw [if_pos (List.prefix_append _ _), List.drop_left]
      · -- an earlier sibling would share the first symbol
        have hlabel : label ∈ rest.labels := List.mem_map_of_mem (f := Prod.fst) hm
        have hne : ¬ l <+: label ++ key := by
          intro hpre
          have hhead := head_eq_of_prefix (hsep.nonempty l List.mem_cons_self)
            (hsep.nonempty label (List.mem_cons_of_mem _ hlabel)) hpre (List.prefix_append _ _)
          refine (List.nodup_cons.mp hsep.heads).1 ?_
          rw [hhead]
          exact List.mem_map_of_mem (f := List.head?) hlabel
        rw [if_neg hne]
        exact Edges.find_of_mem hsep.tail hm

/-- Nothing is found behind an edge once the key is used up. -/
theorem Edges.find_nil : ∀ {es : Edges α β}, Separated es.labels → es.find [] = none
  | .nil, _ => rfl
  | .cons l _ rest, hsep => by
      have hne : ¬ l <+: [] := fun h => hsep.nonempty l List.mem_cons_self (List.prefix_nil.mp h)
      rw [Edges.find, if_neg hne]
      exact Edges.find_nil hsep.tail

theorem find_of_path {t u : Tree α β} {key : List α} {b : β} (hp : Path t key u)
    (hsep : t.All fun _ labels => Separated labels) (hu : u.value = some b) :
    t.find key = some b := by
  induction hp with
  | here t =>
    cases t with
    | node value edges =>
      rw [Tree.find, if_pos rfl]
      exact hu
  | @edge value edges label key child u hmem _ ih =>
    have hne : label ++ key ≠ [] := by
      have hl := hsep.1.nonempty label (List.mem_map_of_mem (f := Prod.fst) hmem)
      exact fun he => hl (List.append_eq_nil_iff.mp he).1
    rw [Tree.find, if_neg hne, Edges.find_of_mem hsep.1 hmem]
    exact ih (hsep.2.of_mem hmem) hu

/-- **The search finds exactly what the tree means.** -/
theorem find_eq_some_iff {t : Tree α β} (hsep : t.All fun _ labels => Separated labels)
    {key : List α} {b : β} : t.find key = some b ↔ ∃ u, Path t key u ∧ u.value = some b :=
  ⟨Tree.find_path, fun ⟨_, hp, hu⟩ => find_of_path hp hsep hu⟩

end Radix
