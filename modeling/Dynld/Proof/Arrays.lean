import Mathlib.Data.List.Perm.Basic
import Dynld.Array

/-!
# Where the items of a vector are

The cells below the length have an item and the others have none, so a vector is the list
of its items (`FixedVec.ofItems`). An iterator moves items out at both ends, and has those
between. No call reads a cell without an item or forgets one: whatever is handed to a
vector comes back or is dropped, once.
-/

namespace Dynld

/-! ## Cells with items, and cells without -/

section

variable {α : Type} (before : Nat) (items : List α) (after : Nat) (item : α)

/-- Cells without an item, cells with these items, and cells without again. -/
def UninitArray.ofItems : UninitArray α :=
  List.replicate before none ++ (items.map some ++ List.replicate after none)

theorem length_ofItems :
    (UninitArray.ofItems before items after).length = before + items.length + after := by
  unfold UninitArray.ofItems
  rw [List.length_append, List.length_append, List.length_replicate, List.length_map,
    List.length_replicate, Nat.add_assoc]

/-- The first item is moved out. -/
theorem readAt_first : (UninitArray.ofItems before (item :: items) after).readAt before
    = .ok (item, UninitArray.ofItems (before + 1) items after) := by
  have hlen : (List.replicate before (none : Option α)).length = before := List.length_replicate
  unfold UninitArray.readAt UninitArray.ofItems
  rw [List.getElem?_append_right (Nat.le_of_eq hlen), hlen, Nat.sub_self, List.map_cons,
    List.cons_append, List.getElem?_cons_zero]
  dsimp only
  rw [List.set_append_right _ _ (Nat.le_of_eq hlen), hlen, Nat.sub_self, List.set_cons_zero,
    List.replicate_succ', List.append_assoc]
  rfl

/-- The last item is moved out. -/
theorem readAt_last : (UninitArray.ofItems before (items ++ [item]) after).readAt
    (before + items.length) = .ok (item, UninitArray.ofItems before items (after + 1)) := by
  have hsplit : UninitArray.ofItems before (items ++ [item]) after
      = (List.replicate before none ++ items.map some) ++
        some item :: List.replicate after none := by
    unfold UninitArray.ofItems
    rw [List.map_append, List.append_assoc, List.append_assoc]
    rfl
  have hlen : (List.replicate before (none : Option α) ++ items.map some).length
      = before + items.length := by
    rw [List.length_append, List.length_replicate, List.length_map]
  rw [hsplit]
  unfold UninitArray.readAt UninitArray.ofItems
  rw [List.getElem?_append_right (Nat.le_of_eq hlen), hlen, Nat.sub_self, List.getElem?_cons_zero]
  dsimp only
  rw [List.set_append_right _ _ (Nat.le_of_eq hlen), hlen, Nat.sub_self, List.set_cons_zero,
    List.append_assoc, List.replicate_succ]

/-- An item is written behind the others. -/
theorem writeAt_end : (UninitArray.ofItems before items (after + 1)).writeAt
    (before + items.length) item = .ok (UninitArray.ofItems before (items ++ [item]) after) := by
  have hlt : before + items.length < (UninitArray.ofItems before items (after + 1)).length := by
    rw [length_ofItems]
    omega
  have hsplit : UninitArray.ofItems before items (after + 1)
      = (List.replicate before none ++ items.map some) ++ none :: List.replicate after none := by
    unfold UninitArray.ofItems
    rw [List.append_assoc, List.replicate_succ]
  have hlen : (List.replicate before (none : Option α) ++ items.map some).length
      = before + items.length := by
    rw [List.length_append, List.length_replicate, List.length_map]
  unfold UninitArray.writeAt
  rw [if_pos hlt, hsplit, List.set_append_right _ _ (Nat.le_of_eq hlen), hlen, Nat.sub_self,
    List.set_cons_zero]
  unfold UninitArray.ofItems
  rw [List.map_append, List.append_assoc, List.append_assoc]
  rfl

/-- The slice of the cells with items. -/
theorem slice_ofItems :
    (UninitArray.ofItems before items after).slice before items.length = .ok items := by
  have hcell : ∀ (j : Nat) (hlt : j < items.length),
      (UninitArray.ofItems before items after)[before + j]? = some (some items[j]) := by
    intro j hlt
    unfold UninitArray.ofItems
    rw [List.getElem?_append_right (by rw [List.length_replicate]; omega), List.length_replicate,
      Nat.add_sub_cancel_left, List.getElem?_append_left (by rw [List.length_map]; exact hlt),
      List.getElem?_map, List.getElem?_eq_getElem hlt]
    rfl
  have htake : ∀ k, k ≤ items.length →
      (UninitArray.ofItems before items after).slice before k = .ok (items.take k) := by
    intro k
    induction k with
    | zero => intro _; rfl
    | succ k ih =>
      intro hk
      have ih := ih (Nat.le_of_succ_le hk)
      unfold UninitArray.slice at ih ⊢
      rw [List.range_succ, Outcome.each_append, ih, Outcome.ok_bind, Outcome.each, hcell k hk,
        List.take_succ_eq_append_getElem hk]
      rfl
  rw [htake _ (Nat.le_refl _), List.take_length]

end

/-! ## The vector -/

/-- The vector with these items and room for more. -/
def FixedVec.ofItems {α : Type} (items : List α) (room : Nat) : FixedVec α :=
  ⟨items.length, UninitArray.ofItems 0 items room⟩

/-- The iterator over these items. -/
def IntoIter.ofItems {α : Type} (before : Nat) (items : List α) (after : Nat) : IntoIter α :=
  ⟨before, before + items.length, UninitArray.ofItems before items after⟩

namespace FixedVec

variable {α : Type} (items : List α) (room : Nat) (item : α)

theorem remainingCapacity_ofItems : (ofItems items room).remainingCapacity = .ok room := by
  unfold remainingCapacity capacity ofItems
  dsimp only
  rw [length_ofItems, Outcome.sub_of_le (by omega), Nat.zero_add, Nat.add_sub_cancel_left]

theorem isFull_ofItems : (ofItems items room).isFull = .ok (room == 0) := by
  unfold isFull
  rw [remainingCapacity_ofItems]
  rfl

/-- A full vector hands the item back. -/
theorem tryPush_full : (ofItems items 0).tryPush item = .ok (some item, ofItems items 0) := by
  unfold tryPush
  rw [isFull_ofItems]
  rfl

theorem tryPush_room (h : items.length + 1 < 2 ^ 32) : (ofItems items (room + 1)).tryPush item
    = .ok (none, ofItems (items ++ [item]) room) := by
  have hwrite := writeAt_end 0 items room item
  rw [Nat.zero_add] at hwrite
  unfold tryPush
  rw [isFull_ofItems, Outcome.ok_bind, if_neg (by simp)]
  unfold ofItems
  dsimp only
  rw [hwrite, Outcome.ok_bind, Outcome.add_of_lt h, List.length_append, List.length_singleton]
  rfl

theorem push_full : (ofItems items 0).push item = .panic "ArrayVec is full" := by
  unfold push
  rw [tryPush_full]
  rfl

theorem push_room (h : items.length + 1 < 2 ^ 32) :
    (ofItems items (room + 1)).push item = .ok (ofItems (items ++ [item]) room) := by
  unfold push
  rw [tryPush_room items room item h]
  rfl

theorem pop_nil : (ofItems ([] : List α) room).pop = .ok (none, ofItems [] room) := rfl

theorem pop_append : (ofItems (items ++ [item]) room).pop
    = .ok (some item, ofItems items (room + 1)) := by
  have hread := readAt_last 0 items room item
  have hlen : (items ++ [item]).length = items.length + 1 := by
    rw [List.length_append, List.length_singleton]
  rw [Nat.zero_add] at hread
  unfold pop isEmpty ofItems
  dsimp only
  rw [hlen, if_neg (by simp), Outcome.sub_of_le (Nat.le_add_left 1 _), Outcome.ok_bind,
    Nat.add_sub_cancel, hread]
  rfl

theorem clearLoop_ofItems : ∀ (k : Nat) (items : List α) (room : Nat), items.length = k →
    clearLoop (k + 1) (ofItems items room) = .ok (items.reverse, ofItems [] (room + k)) := by
  intro k
  induction k with
  | zero =>
    intro items room h
    obtain rfl := List.eq_nil_of_length_eq_zero h
    rfl
  | succ k ih =>
    intro items room h
    rcases List.eq_nil_or_concat' items with rfl | ⟨items, item, rfl⟩
    · exact absurd h (by simp)
    · rw [List.length_append, List.length_singleton] at h
      rw [clearLoop, pop_append, Outcome.ok_bind]
      dsimp only
      rw [ih items (room + 1) (Nat.succ.inj h), Outcome.ok_bind, List.reverse_append,
        Nat.add_right_comm, Nat.add_assoc]
      rfl

theorem clear_ofItems : (ofItems items room).clear
    = .ok (items.reverse, ofItems [] (room + items.length)) :=
  clearLoop_ofItems _ items room rfl

theorem deref_ofItems : (ofItems items room).deref = .ok items := slice_ofItems 0 items room

end FixedVec

/-! ## The iterator -/

namespace IntoIter

variable {α : Type} (before : Nat) (items : List α) (after : Nat) (item : α)

theorem intoIter_ofItems (room : Nat) :
    (FixedVec.ofItems items room).intoIter = ofItems 0 items room := by
  unfold FixedVec.intoIter FixedVec.ofItems ofItems
  rw [Nat.zero_add]

theorem next_nil : (ofItems before ([] : List α) after).next
    = .ok (none, ofItems before [] after) := if_pos rfl

theorem next_cons : (ofItems before (item :: items) after).next
    = .ok (some item, ofItems (before + 1) items after) := by
  have hlen : before + (item :: items).length = before + 1 + items.length := by
    rw [List.length_cons]
    omega
  unfold next ofItems
  dsimp only
  rw [if_neg (by rw [hlen]; omega), readAt_first, Outcome.ok_bind, hlen]
  rfl

theorem nextBack_nil : (ofItems before ([] : List α) after).nextBack
    = .ok (none, ofItems before [] after) := if_pos rfl

theorem nextBack_append : (ofItems before (items ++ [item]) after).nextBack
    = .ok (some item, ofItems before items (after + 1)) := by
  have hlen : before + (items ++ [item]).length = before + items.length + 1 := by
    rw [List.length_append, List.length_singleton, Nat.add_assoc]
  unfold nextBack ofItems
  dsimp only
  rw [hlen, if_neg (by omega), Outcome.sub_of_le (by omega), Outcome.ok_bind, Nat.add_sub_cancel,
    readAt_last]
  rfl

theorem remaining_ofItems : (ofItems before items after).remaining = .ok items.length := by
  unfold remaining ofItems
  dsimp only
  rw [Outcome.sub_of_le (Nat.le_add_right _ _), Nat.add_sub_cancel_left]

theorem drop_ofItems : (ofItems before items after).drop = .ok items := by
  unfold drop ofItems
  dsimp only
  rw [Outcome.sub_of_le (Nat.le_add_right _ _), Outcome.ok_bind, Nat.add_sub_cancel_left,
    slice_ofItems]

end IntoIter

/-! ## What a call does -/

/-- What came back to the caller, and what was dropped. -/
structure Ledger (α : Type) where
  returned : List α
  dropped : List α
  deriving DecidableEq, Repr

namespace Ledger

variable {α : Type}

def none : Ledger α := ⟨[], []⟩

/-- What both have. -/
def and (l l' : Ledger α) : Ledger α := ⟨l.returned ++ l'.returned, l.dropped ++ l'.dropped⟩

def all (l : Ledger α) : List α := l.returned ++ l.dropped

theorem all_and (l l' : Ledger α) : (l.and l').all.Perm (l.all ++ l'.all) := by
  unfold all and
  dsimp only
  rw [List.append_assoc, List.append_assoc]
  refine List.Perm.append_left _ ?_
  rw [← List.append_assoc, ← List.append_assoc]
  exact List.Perm.append_right _ List.perm_append_comm

end Ledger

/-- A call of a vector. -/
inductive VecCall (α : Type) where
  | push (item : α)
  | tryPush (item : α)
  | pop
  | clear
  | extend (items : List α)
  deriving DecidableEq, Repr

/-- A call of an iterator. -/
inductive IterCall where
  | next
  | nextBack
  deriving DecidableEq, Repr

/-- What the owner does with a vector in the end. -/
inductive Last where
  | drop
  | intoIter (calls : List IterCall)
  deriving DecidableEq, Repr

namespace VecCall

variable {α : Type}

/-- The items that the call moves into the vector. -/
def items : VecCall α → List α
  | push item => [item]
  | tryPush item => [item]
  | pop => []
  | clear => []
  | extend items => items

def run (v : FixedVec α) : VecCall α → Outcome (Ledger α × FixedVec α)
  | push item => do
      let v ← v.push item
      pure (.none, v)
  | tryPush item => do
      let (back, v) ← v.tryPush item
      pure (⟨back.toList, []⟩, v)
  | pop => do
      let (item, v) ← v.pop
      pure (⟨item.toList, []⟩, v)
  | clear => do
      let (dropped, v) ← v.clear
      pure (⟨[], dropped⟩, v)
  | extend items => do
      let v ← v.extend items
      pure (.none, v)

def runAll (v : FixedVec α) : List (VecCall α) → Outcome (Ledger α × FixedVec α)
  | [] => pure (.none, v)
  | call :: calls => do
      let (l, v) ← call.run v
      let (l', v) ← runAll v calls
      pure (l.and l', v)

/-- The call, of a list of at most `n` items: `none` if it does not fit. -/
def spec (n : Nat) (items : List α) : VecCall α → Option (Ledger α × List α)
  | push item => if items.length < n then some (.none, items ++ [item]) else none
  | tryPush item =>
      some (if items.length < n then (.none, items ++ [item]) else (⟨[item], []⟩, items))
  | pop => some (⟨items.getLast?.toList, []⟩, items.dropLast)
  | clear => some (⟨[], items.reverse⟩, [])
  | extend more => if items.length + more.length ≤ n then some (.none, items ++ more) else none

def specAll (n : Nat) (items : List α) : List (VecCall α) → Option (Ledger α × List α)
  | [] => some (.none, items)
  | call :: calls => do
      let (l, items) ← call.spec n items
      let (l', items) ← specAll n items calls
      some (l.and l', items)

end VecCall

namespace IterCall

variable {α : Type}

def run (it : IntoIter α) : IterCall → Outcome (Option α × IntoIter α)
  | next => it.next
  | nextBack => it.nextBack

/-- The calls, and then the iterator is dropped. -/
def runAll (it : IntoIter α) : List IterCall → Outcome (Ledger α)
  | [] => do
      let dropped ← it.drop
      pure ⟨[], dropped⟩
  | call :: calls => do
      let (item, it) ← call.run it
      let l ← runAll it calls
      pure (Ledger.and ⟨item.toList, []⟩ l)

/-- The call, of a list. -/
def spec (items : List α) : IterCall → List α × List α
  | next => (items.head?.toList, items.tail)
  | nextBack => (items.getLast?.toList, items.dropLast)

def specAll (items : List α) : List IterCall → Ledger α
  | [] => ⟨[], items⟩
  | call :: calls => Ledger.and ⟨(call.spec items).1, []⟩ (specAll (call.spec items).2 calls)

end IterCall

/-- A vector of `n` cells, from `new_array` to its end. -/
def FixedVec.life {α : Type} (n : Nat) (calls : List (VecCall α)) (last : Last) :
    Outcome (Ledger α) := do
  let (l, v) ← VecCall.runAll (newArray n) calls
  match last with
  | .drop => do
      let dropped ← v.drop
      pure (l.and ⟨[], dropped⟩)
  | .intoIter calls => do
      let l' ← IterCall.runAll v.intoIter calls
      pure (l.and l')

/-- The same, of a list of at most `n` items. -/
def FixedVec.lifeSpec {α : Type} (n : Nat) (calls : List (VecCall α)) (last : Last) :
    Option (Ledger α) := do
  let (l, items) ← VecCall.specAll n [] calls
  match last with
  | .drop => some (l.and ⟨[], items⟩)
  | .intoIter calls => some (l.and (IterCall.specAll items calls))

/-- A list operation that has no room is a panic of the vector. -/
def fits {α β : Type} (f : α → β) : Option α → Outcome β
  | some a => .ok (f a)
  | none => .panic "ArrayVec is full"

/-! ## The vector is the list -/

section

variable {α : Type}

/-- The vector of `n` cells with these items. -/
def FixedVec.ofList (n : Nat) (items : List α) : FixedVec α := ofItems items (n - items.length)

theorem FixedVec.extend_ofItems {n : Nat} (hn : n < 2 ^ 32) : ∀ (more items : List α) (room : Nat),
    items.length + room = n → (ofItems items room).extend more
      = if items.length + more.length ≤ n then .ok (ofList n (items ++ more))
        else .panic "ArrayVec is full" := by
  intro more
  induction more with
  | nil =>
    intro items room hroom
    rw [List.length_nil, if_pos (by omega), List.append_nil, FixedVec.ofList,
      show n - items.length = room by omega]
    rfl
  | cons item more ih =>
    intro items room hroom
    rw [FixedVec.extend, List.length_cons]
    rcases room with _ | room
    · rw [push_full, if_neg (by omega)]
      rfl
    · have hlen : (items ++ [item]).length = items.length + 1 := by
        rw [List.length_append, List.length_singleton]
      rw [push_room _ _ _ (by omega), Outcome.ok_bind, ih (items ++ [item]) room (by omega), hlen,
        List.append_assoc, List.singleton_append, Nat.add_right_comm, Nat.add_assoc _ _ 1]

/-- A call does to the vector what it does to the list. -/
theorem VecCall.run_ofList {n : Nat} (hn : n < 2 ^ 32) {items : List α} (hle : items.length ≤ n)
    (call : VecCall α) : call.run (FixedVec.ofList n items)
      = fits (fun r => (r.1, FixedVec.ofList n r.2)) (call.spec n items) := by
  have hlen : ∀ item : α, (items ++ [item]).length = items.length + 1 := fun item => by
    rw [List.length_append, List.length_singleton]
  unfold FixedVec.ofList
  cases call with
  | push item =>
    unfold run spec
    dsimp only
    by_cases hlt : items.length < n
    · obtain ⟨room, hroom⟩ : ∃ room, n - items.length = room + 1 :=
        ⟨n - items.length - 1, by omega⟩
      rw [if_pos hlt, hroom, FixedVec.push_room _ _ _ (by omega)]
      unfold fits
      dsimp only
      rw [hlen, show n - (items.length + 1) = room by omega]
      rfl
    · rw [if_neg hlt, show n - items.length = 0 by omega, FixedVec.push_full]
      rfl
  | tryPush item =>
    unfold run spec fits
    dsimp only
    by_cases hlt : items.length < n
    · obtain ⟨room, hroom⟩ : ∃ room, n - items.length = room + 1 :=
        ⟨n - items.length - 1, by omega⟩
      rw [if_pos hlt, hroom, FixedVec.tryPush_room _ _ _ (by omega)]
      dsimp only
      rw [hlen, show n - (items.length + 1) = room by omega]
      rfl
    · rw [if_neg hlt, show n - items.length = 0 by omega, FixedVec.tryPush_full]
      rfl
  | pop =>
    unfold run spec fits
    dsimp only
    rcases List.eq_nil_or_concat' items with hnil | ⟨items, item, hitems⟩
    · rw [hnil, FixedVec.pop_nil]
      rfl
    · rw [hitems] at hle ⊢
      rw [List.length_append, List.length_singleton] at hle
      rw [FixedVec.pop_append, List.getLast?_concat, List.dropLast_concat, List.length_append,
        List.length_singleton, show n - (items.length + 1) + 1 = n - items.length by omega]
      rfl
  | clear =>
    unfold run spec fits
    dsimp only
    rw [FixedVec.clear_ofItems, Nat.sub_add_cancel hle]
    rfl
  | extend more =>
    unfold run spec
    dsimp only
    rw [FixedVec.extend_ofItems hn more items _ (Nat.add_sub_cancel' hle)]
    by_cases hmore : items.length + more.length ≤ n
    · rw [if_pos hmore, if_pos hmore]
      rfl
    · rw [if_neg hmore, if_neg hmore]
      rfl

/-- The list stays within its bound. -/
theorem VecCall.spec_length {n : Nat} {items : List α} (hle : items.length ≤ n) (call : VecCall α)
    {l : Ledger α} {items' : List α} (h : call.spec n items = some (l, items')) :
    items'.length ≤ n := by
  have hlen : ∀ item : α, (items ++ [item]).length = items.length + 1 := fun item => by
    rw [List.length_append, List.length_singleton]
  cases call with
  | push item =>
    dsimp only [VecCall.spec] at h
    split at h
    · next hlt =>
      injection h with h
      injection h with _ h
      rw [← h, hlen]
      exact hlt
    · exact absurd h (by simp)
  | tryPush item =>
    dsimp only [VecCall.spec] at h
    injection h with h
    split at h
    · next hlt =>
      injection h with _ h
      rw [← h, hlen]
      exact hlt
    · injection h with _ h
      rw [← h]
      exact hle
  | pop =>
    injection h with h
    injection h with _ h
    rw [← h, List.length_dropLast]
    omega
  | clear =>
    injection h with h
    injection h with _ h
    rw [← h]
    exact Nat.zero_le n
  | extend more =>
    dsimp only [VecCall.spec] at h
    split at h
    · next hmore =>
      injection h with h
      injection h with _ h
      rw [← h, List.length_append]
      exact hmore
    · exact absurd h (by simp)

/-- A call loses nothing and makes nothing up. -/
theorem VecCall.spec_all {n : Nat} {items : List α} (call : VecCall α) {l : Ledger α}
    {items' : List α} (h : call.spec n items = some (l, items')) :
    (l.all ++ items').Perm (items ++ call.items) := by
  cases call with
  | push item =>
    dsimp only [VecCall.spec] at h
    split at h
    · injection h with h
      injection h with hl h
      rw [← h, ← hl]
      exact List.Perm.refl _
    · exact absurd h (by simp)
  | tryPush item =>
    dsimp only [VecCall.spec] at h
    injection h with h
    split at h
    · injection h with hl h
      rw [← h, ← hl]
      exact List.Perm.refl _
    · injection h with hl h
      rw [← h, ← hl]
      exact List.perm_append_comm
  | pop =>
    injection h with h
    injection h with hl h
    rw [← h, ← hl]
    rcases List.eq_nil_or_concat' items with hnil | ⟨items, item, hitems⟩
    · rw [hnil]
      exact List.Perm.refl _
    · rw [hitems, List.getLast?_concat, List.dropLast_concat, VecCall.items, List.append_nil]
      exact List.perm_append_comm
  | clear =>
    injection h with h
    injection h with hl h
    rw [← h, ← hl, VecCall.items, List.append_nil, List.append_nil]
    exact List.reverse_perm items
  | extend more =>
    dsimp only [VecCall.spec] at h
    split at h
    · injection h with h
      injection h with hl h
      rw [← h, ← hl]
      exact List.Perm.refl _
    · exact absurd h (by simp)

/-- The calls of a vector. -/
theorem VecCall.runAll_ofList {n : Nat} (hn : n < 2 ^ 32) : ∀ (calls : List (VecCall α))
    {items : List α}, items.length ≤ n → runAll (FixedVec.ofList n items) calls
      = fits (fun r => (r.1, FixedVec.ofList n r.2)) (specAll n items calls) := by
  intro calls
  induction calls with
  | nil => intro items _; rfl
  | cons call calls ih =>
    intro items hle
    rw [runAll, specAll, run_ofList hn hle call]
    rcases hcall : call.spec n items with _ | ⟨l, items'⟩
    · rfl
    · have ih := ih (spec_length hle call hcall)
      rw [fits, Outcome.ok_bind, Option.bind_eq_bind, Option.bind_some]
      dsimp only
      rw [ih]
      rcases specAll n items' calls with _ | ⟨l', items''⟩
      · rfl
      · rfl

theorem VecCall.specAll_all {n : Nat} : ∀ (calls : List (VecCall α)) {items : List α}
    {l : Ledger α} {items' : List α}, specAll n items calls = some (l, items') →
    (l.all ++ items').Perm (items ++ calls.flatMap VecCall.items) := by
  intro calls
  induction calls with
  | nil =>
    intro items l items' h
    injection h with h
    injection h with hl h
    rw [← h, ← hl, List.flatMap_nil, List.append_nil]
    exact List.Perm.refl _
  | cons call calls ih =>
    intro items l items' h
    rw [specAll, Option.bind_eq_bind, Option.bind_eq_some_iff] at h
    obtain ⟨⟨l₁, items₁⟩, hcall, h⟩ := h
    rw [Option.bind_eq_some_iff] at h
    obtain ⟨⟨l₂, items₂⟩, hcalls, h⟩ := h
    injection h with h
    injection h with hl h
    have hfirst := spec_all call hcall
    have hrest := ih hcalls
    rw [← h, ← hl, List.flatMap_cons, ← List.append_assoc]
    refine ((Ledger.all_and l₁ l₂).append_right _).trans ?_
    rw [List.append_assoc]
    refine (hrest.append_left _).trans ?_
    rw [← List.append_assoc]
    exact hfirst.append_right _

/-- The calls of an iterator, and its end. -/
theorem IterCall.runAll_ofItems : ∀ (calls : List IterCall) (before : Nat) (items : List α)
    (after : Nat), runAll (IntoIter.ofItems before items after) calls
      = .ok (specAll items calls) := by
  intro calls
  induction calls with
  | nil =>
    intro before items after
    rw [runAll, IntoIter.drop_ofItems]
    rfl
  | cons call calls ih =>
    intro before items after
    rw [runAll, specAll]
    cases call with
    | next =>
      unfold run spec
      dsimp only
      cases items with
      | nil =>
        rw [IntoIter.next_nil, Outcome.ok_bind]
        dsimp only
        rw [ih]
        rfl
      | cons item items =>
        rw [IntoIter.next_cons, Outcome.ok_bind]
        dsimp only
        rw [ih]
        rfl
    | nextBack =>
      unfold run spec
      dsimp only
      rcases List.eq_nil_or_concat' items with hnil | ⟨items', item, hitems⟩
      · rw [hnil, IntoIter.nextBack_nil, Outcome.ok_bind]
        dsimp only
        rw [ih]
        rfl
      · rw [hitems, IntoIter.nextBack_append, Outcome.ok_bind, List.getLast?_concat,
          List.dropLast_concat]
        dsimp only
        rw [ih]
        rfl

theorem IterCall.specAll_all : ∀ (calls : List IterCall) (items : List α),
    (specAll items calls).all.Perm items := by
  intro calls
  induction calls with
  | nil => intro items; exact List.Perm.refl _
  | cons call calls ih =>
    intro items
    -- one call splits the items into what it returns and what stays
    have hone : ((call.spec items).1 ++ (call.spec items).2).Perm items := by
      cases call with
      | next =>
        cases items with
        | nil => exact List.Perm.refl _
        | cons item items => exact List.Perm.refl _
      | nextBack =>
        unfold spec
        dsimp only
        rcases List.eq_nil_or_concat' items with hnil | ⟨items', item, hitems⟩
        · rw [hnil]
          exact List.Perm.refl _
        · rw [hitems, List.getLast?_concat, List.dropLast_concat]
          exact List.perm_append_comm
    rw [specAll]
    refine (Ledger.all_and _ _).trans (List.Perm.trans ?_ hone)
    unfold Ledger.all
    dsimp only
    rw [List.append_nil]
    exact List.Perm.append_left _ (ih _)

theorem FixedVec.lifeSpec_all {n : Nat} {calls : List (VecCall α)} {last : Last} {l : Ledger α}
    (h : lifeSpec n calls last = some l) : l.all.Perm (calls.flatMap VecCall.items) := by
  unfold lifeSpec at h
  rw [Option.bind_eq_bind, Option.bind_eq_some_iff] at h
  obtain ⟨⟨l₁, items⟩, hcalls, h⟩ := h
  have hfirst := VecCall.specAll_all calls hcalls
  rw [List.nil_append] at hfirst
  cases last with
  | drop =>
    injection h with h
    rw [← h]
    refine (Ledger.all_and _ _).trans hfirst
  | intoIter calls =>
    injection h with h
    rw [← h]
    exact (Ledger.all_and _ _).trans
      (((IterCall.specAll_all calls items).append_left _).trans hfirst)

/-- **No item is lost.** A vector does what a list of at most so many items does, through
all of its calls, those of its iterator and the drop in the end: it never reads a cell
that has no item, and panics exactly if there is no room for what is pushed. Then every
item that was moved in comes back or is dropped, once. -/
theorem FixedVec.life_accounts {n : Nat} (hn : n < 2 ^ 32) (calls : List (VecCall α))
    (last : Last) :
    life n calls last = fits id (lifeSpec n calls last) ∧
    ∀ l, life n calls last = .ok l → l.all.Perm (calls.flatMap VecCall.items) := by
  have heq : life n calls last = fits id (lifeSpec n calls last) := by
    have hrun : VecCall.runAll (ofList n []) calls
        = fits (fun r => (r.1, ofList n r.2)) (VecCall.specAll n [] calls) :=
      VecCall.runAll_ofList hn calls (Nat.zero_le n)
    have hnew : (newArray n : FixedVec α) = ofList n [] := rfl
    unfold life lifeSpec
    rw [hnew, hrun]
    rcases VecCall.specAll n ([] : List α) calls with _ | ⟨l, items⟩
    · rfl
    · cases last with
      | drop =>
        dsimp only [fits]
        rw [Outcome.ok_bind]
        unfold drop ofList
        dsimp only
        rw [deref_ofItems]
        rfl
      | intoIter calls =>
        dsimp only [fits]
        rw [Outcome.ok_bind]
        unfold ofList
        dsimp only
        rw [IntoIter.intoIter_ofItems, IterCall.runAll_ofItems]
        rfl
  refine ⟨heq, ?_⟩
  intro l hl
  rw [heq] at hl
  rcases hspec : lifeSpec n calls last with _ | l'
  · rw [hspec] at hl
    exact absurd hl (by simp [fits])
  · rw [hspec] at hl
    injection hl with hl
    rw [← hl]
    exact lifeSpec_all hspec

end

/-- Three cells: the fourth item comes back, then the last one, then the first, and the
second is dropped. -/
theorem sampleLife_accounts :
    (3 < 2 ^ 32 ∧ FixedVec.life 3 [.push 1, .extend [2, 3], .tryPush 4, .pop] (.intoIter [.next])
      = .ok ⟨[4, 3, 1], [2]⟩) ∧ ([4, 3, 1, 2] : List Nat).Perm [1, 2, 3, 4] := by
  have hlife : FixedVec.life 3 [.push 1, .extend [2, 3], .tryPush 4, .pop] (.intoIter [.next])
      = .ok (⟨[4, 3, 1], [2]⟩ : Ledger Nat) := by decide
  exact ⟨⟨by decide, hlife⟩, (FixedVec.life_accounts (by decide) _ _).2 _ hlife⟩

end Dynld
