import Dynld.Proof.Arrays

/-!
# Strings of fixed size

A string is a vector of bytes that is read without a look at them. It is only ever
appended to, by whole strings that fit, so it is text: the strings and vectors that the
rest of the model works with (`ArrayString`, `ArrayVec`) are what the cells have.
-/

namespace Dynld

/-! ## Text behind text -/

theorem validUtf8_append {bs : List UInt8} (hb : validUtf8 bs = true) : ∀ {as : List UInt8},
    validUtf8 as = true → validUtf8 (as ++ bs) = true := by
  intro as h
  fun_induction validUtf8 as with
  | case1 => exact hb
  | case2 b rest hlt ih =>
    rw [List.cons_append, validUtf8.eq_def]
    dsimp only
    rw [if_pos hlt]
    exact ih h
  | case3 b hlt h2 c1 rest ih =>
    rw [Bool.and_eq_true] at h
    rw [List.cons_append, List.cons_append, validUtf8, if_neg hlt, if_pos h2, h.1, ih h.2]
    rfl
  | case4 b rest hlt h2 hne => exact absurd h (by simp)
  | case5 b hlt h2 h3 c1 c2 rest ih =>
    simp only [Bool.and_eq_true] at h
    rw [List.cons_append, List.cons_append, List.cons_append, validUtf8, if_neg hlt, if_neg h2,
      if_pos h3]
    simp only [h, ih h.2, Bool.and_self]
  | case6 b rest hlt h2 h3 hne => exact absurd h (by simp)
  | case7 b hlt h2 h3 h4 c1 c2 c3 rest ih =>
    simp only [Bool.and_eq_true] at h
    rw [List.cons_append, List.cons_append, List.cons_append, List.cons_append, validUtf8,
      if_neg hlt, if_neg h2, if_neg h3, if_pos h4]
    simp only [h, ih h.2, Bool.and_self]
  | case8 => exact absurd h (by simp)
  | case9 => exact absurd h (by simp)

/-- One string behind another. -/
def Str.append (s t : Str) : Str := ⟨s.bytes ++ t.bytes, validUtf8_append t.valid s.valid⟩

def Str.empty : Str := ⟨[], rfl⟩

/-! ## The cells have what the model has -/

/-- A vector of the model, as cells. -/
theorem FixedVec.push_arrayVec {α : Type} {n : Nat} (hn : n < 2 ^ 32) (v : ArrayVec α n)
    (item : α) : (ofList n v.items).push item
      = v.push item >>= fun w => .ok (ofList n w.items) := by
  have hlen : (v.items ++ [item]).length = v.items.length + 1 := by
    rw [List.length_append, List.length_singleton]
  unfold ArrayVec.push ofList
  by_cases hlt : v.items.length < n
  · obtain ⟨room, hroom⟩ : ∃ room, n - v.items.length = room + 1 :=
      ⟨n - v.items.length - 1, by omega⟩
    rw [dif_pos hlt, hroom, push_room _ _ _ (by omega), Outcome.ok_bind]
    dsimp only
    rw [hlen, show n - (v.items.length + 1) = room by omega]
  · rw [dif_neg hlt, show n - v.items.length = 0 by omega, push_full]
    rfl

/-- The string of `n` cells with this text. -/
def FixedString.ofString {n : Nat} (s : ArrayString n) : FixedString :=
  ⟨FixedVec.ofList n s.asBytes⟩

namespace FixedString

/-- `try_push_str`, of a string that may not get longer than `n`. -/
def pushSpec {n : Nat} (s : ArrayString n) (str : Str) : Bool × ArrayString n :=
  if h : (s.str.append str).bytes.length ≤ n then (true, ⟨s.str.append str, h⟩) else (false, s)

theorem pushSpec_fits {n : Nat} {s : ArrayString n} {str : Str}
    (h : (s.str.append str).bytes.length ≤ n) :
    pushSpec s str = (true, ⟨s.str.append str, h⟩) := dif_pos h

theorem pushSpec_full {n : Nat} {s : ArrayString n} {str : Str}
    (h : ¬(s.str.append str).bytes.length ≤ n) : pushSpec s str = (false, s) := dif_neg h

/-! ## One string after the other -/

/-- `try_push_str`, with one string after the other, and what each call returned. -/
def pushAll (s : FixedString) : List Str → Outcome (List Bool × FixedString)
  | [] => pure ([], s)
  | str :: strs => do
      let (fits, s) ← s.tryPushStr str
      let (answers, s) ← pushAll s strs
      pure (fits :: answers, s)

/-- The text of the strings that were not refused. -/
def kept (strs : List Str) (answers : List Bool) : List UInt8 :=
  ((strs.zip answers).filter (·.2)).flatMap (·.1.bytes)

theorem kept_true (str : Str) (strs : List Str) (answers : List Bool) :
    kept (str :: strs) (true :: answers) = str.bytes ++ kept strs answers := rfl

/-- The loop has room for all of the bytes. -/
theorem pushBytes_ofList {n : Nat} (hn : n < 2 ^ 32) : ∀ (bytes items : List UInt8),
    items.length + bytes.length ≤ n → pushBytes (FixedVec.ofList n items) bytes
      = .ok (FixedVec.ofList n (items ++ bytes)) := by
  intro bytes
  induction bytes with
  | nil =>
    intro items _
    rw [List.append_nil]
    rfl
  | cons b bytes ih =>
    intro items hle
    rw [List.length_cons] at hle
    have hlen : (items ++ [b]).length = items.length + 1 := by
      rw [List.length_append, List.length_singleton]
    obtain ⟨room, hroom⟩ : ∃ room, n - items.length = room + 1 :=
      ⟨n - items.length - 1, by omega⟩
    have hpush : (FixedVec.ofList n items).tryPush b
        = .ok (none, FixedVec.ofList n (items ++ [b])) := by
      unfold FixedVec.ofList
      rw [hroom, FixedVec.tryPush_room _ _ _ (by omega), hlen,
        show n - (items.length + 1) = room by omega]
    rw [pushBytes, hpush, Outcome.ok_bind]
    dsimp only
    rw [ih (items ++ [b]) (by omega), List.append_assoc]
    rfl

/-- A string is pushed as a whole, or not at all. -/
theorem tryPushStr_ofString {n : Nat} (hn : n < 2 ^ 32) (s : ArrayString n) (str : Str) :
    (ofString s).tryPushStr str = .ok ((pushSpec s str).1, ofString (pushSpec s str).2) := by
  have hlen : (s.str.append str).bytes.length = s.asBytes.length + str.bytes.length :=
    List.length_append
  have hle : s.asBytes.length ≤ n := s.length_le
  have hremaining : (ofString s).vec.remainingCapacity = .ok (n - s.asBytes.length) :=
    FixedVec.remainingCapacity_ofItems _ _
  unfold tryPushStr
  rw [hremaining, Outcome.ok_bind]
  by_cases hfits : (s.str.append str).bytes.length ≤ n
  · have hpush : pushBytes (ofString s).vec str.bytes
        = .ok (FixedVec.ofList n (s.asBytes ++ str.bytes)) :=
      pushBytes_ofList hn _ _ (hlen ▸ hfits)
    rw [if_neg (by omega), pushSpec_fits hfits, hpush]
    rfl
  · rw [if_pos (by omega), pushSpec_full hfits]
    rfl

theorem asStr_ofString {n : Nat} (s : ArrayString n) : (ofString s).asStr = .ok s.asBytes :=
  FixedVec.deref_ofItems _ _

theorem new_eq (n : Nat) : new n = ofString ⟨Str.empty, Nat.zero_le n⟩ := rfl

/-- The string of the model has the same text. -/
theorem tryFromStr_eq {n : Nat} (hn : n < 2 ^ 32) (str : Str) :
    tryFromStr n str = .ok ((ArrayString.tryFromStr n str).map ofString) := by
  unfold tryFromStr ArrayString.tryFromStr
  rw [new_eq, tryPushStr_ofString hn, Outcome.ok_bind]
  by_cases hfits : str.bytes.length ≤ n
  · rw [dif_pos hfits, pushSpec_fits hfits]
    rfl
  · rw [dif_neg hfits, pushSpec_full hfits]
    rfl

/-- Strings are pushed behind `s`. -/
theorem pushAll_ofString {n : Nat} (hn : n < 2 ^ 32) : ∀ (strs : List Str) (s : ArrayString n),
    ∃ answers, ∃ t : ArrayString n,
      pushAll (ofString s) strs = .ok (answers, ofString t) ∧
      t.asBytes = s.asBytes ++ kept strs answers ∧ answers.length = strs.length ∧
      ∀ (i : Nat) (str : Str), strs[i]? = some str → (answers[i]? = some true ↔
        s.asBytes.length + (kept (strs.take i) (answers.take i)).length + str.bytes.length
          ≤ n) := by
  intro strs
  induction strs with
  | nil =>
    intro s
    exact ⟨[], s, rfl, (List.append_nil _).symm, rfl, fun i str h => absurd h (by simp)⟩
  | cons str strs ih =>
    intro s
    have hlen : (s.str.append str).bytes.length = s.asBytes.length + str.bytes.length :=
      List.length_append
    by_cases hfits : (s.str.append str).bytes.length ≤ n
    · obtain ⟨answers, t, hall, htext, hlength, hindex⟩ := ih ⟨s.str.append str, hfits⟩
      refine ⟨true :: answers, t, ?_, ?_, congrArg (· + 1) hlength, ?_⟩
      · rw [pushAll, tryPushStr_ofString hn, Outcome.ok_bind, pushSpec_fits hfits]
        dsimp only
        rw [hall]
        rfl
      · rw [htext, kept_true, ← List.append_assoc]
        rfl
      · intro i other hother
        rcases i with _ | i
        · injection hother with hother
          rw [List.take_zero, List.take_zero, ← hother]
          refine ⟨fun _ => ?_, fun _ => rfl⟩
          exact hlen ▸ hfits
        · have hi := hindex i other hother
          have hbytes : (ArrayString.asBytes ⟨s.str.append str, hfits⟩ : List UInt8).length
            = s.asBytes.length + str.bytes.length := hlen
          rw [List.take_succ_cons, List.take_succ_cons, kept_true, List.length_append,
            List.getElem?_cons_succ, hi, hbytes, ← Nat.add_assoc s.asBytes.length]
    · obtain ⟨answers, t, hall, htext, hlength, hindex⟩ := ih s
      refine ⟨false :: answers, t, ?_, htext, congrArg (· + 1) hlength, ?_⟩
      · rw [pushAll, tryPushStr_ofString hn, Outcome.ok_bind, pushSpec_full hfits]
        dsimp only
        rw [hall]
        rfl
      · intro i other hother
        rcases i with _ | i
        · injection hother with hother
          rw [List.take_zero, List.take_zero, ← hother]
          refine ⟨fun h => absurd h (by simp), fun h => ?_⟩
          exact absurd (hlen ▸ h) hfits
        · exact hindex i other hother

/-- **A string is kept as a whole or not at all.** Whatever is pushed on a string of `n`
bytes, one after the other: it reads as the strings that were not refused, which is text
again, and a string is refused exactly if it does not fit behind those before it. -/
theorem pushAll_keeps {n : Nat} (hn : n < 2 ^ 32) (strs : List Str) :
    ∃ answers s, pushAll (new n) strs = .ok (answers, s) ∧
      s.asStr = .ok (kept strs answers) ∧ validUtf8 (kept strs answers) = true ∧
      answers.length = strs.length ∧
      ∀ (i : Nat) (str : Str), strs[i]? = some str → (answers[i]? = some true ↔
        (kept (strs.take i) (answers.take i)).length + str.bytes.length ≤ n) := by
  obtain ⟨answers, t, hall, htext, hlength, hindex⟩ :=
    pushAll_ofString hn strs ⟨Str.empty, Nat.zero_le n⟩
  have htext : t.asBytes = kept strs answers := htext
  refine ⟨answers, ofString t, hall, ?_, ?_, hlength, ?_⟩
  · rw [asStr_ofString, htext]
  · rw [← htext]
    exact t.str.valid
  · intro i str hstr
    have hi := hindex i str hstr
    have hzero : (ArrayString.asBytes (⟨Str.empty, Nat.zero_le n⟩ : ArrayString n)).length = 0 := rfl
    rw [hzero, Nat.zero_add] at hi
    exact hi

end FixedString

/-- A string of five bytes refuses the second of these, not the third. -/
theorem sampleStrings_kept : ∃ answers s,
    FixedString.pushAll (FixedString.new 5)
      [⟨ascii "abc", by decide⟩, ⟨ascii "def", by decide⟩, ⟨ascii "gh", by decide⟩]
      = .ok (answers, s) ∧ answers = [true, false, true] ∧ s.asStr = .ok (ascii "abcgh") := by
  obtain ⟨answers, s, hall, htext, -, -, -⟩ := FixedString.pushAll_keeps (by decide : 5 < 2 ^ 32)
    [⟨ascii "abc", by decide⟩, ⟨ascii "def", by decide⟩, ⟨ascii "gh", by decide⟩]
  have hanswers : answers = [true, false, true] := by
    have hrun : (FixedString.pushAll (FixedString.new 5)
        [⟨ascii "abc", by decide⟩, ⟨ascii "def", by decide⟩, ⟨ascii "gh", by decide⟩]).bind
          (fun r => .ok r.1) = .ok [true, false, true] := by decide
    rw [hall] at hrun
    injection hrun
  refine ⟨answers, s, hall, hanswers, ?_⟩
  rw [htext, hanswers]
  rfl

end Dynld
