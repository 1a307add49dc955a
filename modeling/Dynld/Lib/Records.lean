import Dynld.Lib.Memory

/-!
# Pairs of words in memory

An array of records of two words each, such as a table of keys and values, or a list of
functions with their arguments. The entries follow one another, sixteen bytes apart.
-/

namespace Mem

/-- The pairs are in memory, from `a` on. -/
def PairsAt (m : Mem) (a : Nat) (pairs : List (Nat × Nat)) : Prop :=
  ∀ (i : Nat) p, pairs[i]? = some p →
    m.readWord 8 (a + 16 * i) = p.1 ∧ m.readWord 8 (a + 16 * i + 8) = p.2

/-- The words that a pair is kept in. -/
def writePair (m : Mem) (a k v : Nat) : Mem := (m.writeWord 8 a k).writeWord 8 (a + 8) v

theorem writePair_of_notMem {m : Mem} {a k v x : Nat} (h : x ∉ (⟨a, 16⟩ : ByteRange)) :
    m.writePair a k v x = m x := by
  have hlo : x ∉ (⟨a, 8⟩ : ByteRange) := fun hbad =>
    h (ByteRange.within_mk (by omega) (by omega) x hbad)
  have hhi : x ∉ (⟨a + 8, 8⟩ : ByteRange) := fun hbad =>
    h (ByteRange.within_mk (by omega) (by omega) x hbad)
  exact (writeWord_of_notMem hhi).trans (writeWord_of_notMem hlo)

theorem readWord_writePair {m : Mem} {a k v : Nat} (hk : k < 2 ^ 64) (hv : v < 2 ^ 64) :
    (m.writePair a k v).readWord 8 a = k ∧ (m.writePair a k v).readWord 8 (a + 8) = v := by
  refine ⟨?_, ?_⟩
  · have hapart : ByteRange.Apart ⟨a, 8⟩ ⟨a + 8, 8⟩ := ByteRange.apart_of_le (Nat.le_refl (a + 8))
    have hkeep : (m.writePair a k v).readWord 8 a = (m.writeWord 8 a k).readWord 8 a :=
      readWord_congr fun x hx => writeWord_of_notMem (hapart x hx)
    rw [hkeep, readWord_writeWord m a hk]
  · exact readWord_writeWord _ _ hv

/-- A word of a block is where the block was copied to. -/
theorem readWord_copy {m : Mem} {a b n w off : Nat} (h : off + w ≤ n) :
    (m.copy a b n).readWord w (b + off) = m.readWord w (a + off) := by
  refine congrArg (Bytes.decode .little) (List.map_congr_left fun i hi => ?_)
  have hlt : off + i < n := by
    have hi := List.mem_range.mp hi
    omega
  rw [Nat.add_assoc, Nat.add_assoc]
  exact copy_of_lt hlt

namespace PairsAt

variable {m m' : Mem} {a b k v : Nat} {pairs : List (Nat × Nat)}

theorem nil (m : Mem) (a : Nat) : PairsAt m a [] := fun i p h => absurd h (by simp)

/-- An entry is inside the array. -/
theorem entry_within {i : Nat} (h : i < pairs.length) :
    ByteRange.Within ⟨a + 16 * i, 16⟩ ⟨a, 16 * pairs.length⟩ :=
  ByteRange.within_mk (by omega) (by omega)

theorem congr (h : PairsAt m a pairs)
    (hkeep : ∀ x ∈ (⟨a, 16 * pairs.length⟩ : ByteRange), m' x = m x) : PairsAt m' a pairs := by
  intro i p hp
  have hin := entry_within (a := a) (List.getElem?_eq_some_iff.mp hp).1
  obtain ⟨hk, hv⟩ := h i p hp
  refine ⟨?_, ?_⟩
  · rw [← hk]
    exact readWord_congr fun x hx => hkeep x (hin x
      (ByteRange.within_mk (by omega) (by omega) x hx))
  · rw [← hv]
    exact readWord_congr fun x hx => hkeep x (hin x
      (ByteRange.within_mk (by omega) (by omega) x hx))

/-- One more entry, behind the others. -/
theorem push (h : PairsAt m a pairs) (hk : k < 2 ^ 64) (hv : v < 2 ^ 64) :
    PairsAt (m.writePair (a + 16 * pairs.length) k v) a (pairs ++ [(k, v)]) := by
  have hold : PairsAt (m.writePair (a + 16 * pairs.length) k v) a pairs :=
    h.congr fun x hx => writePair_of_notMem (ByteRange.apart_of_le (Nat.le_refl _) x hx)
  intro i p hp
  by_cases hi : i < pairs.length
  · rw [List.getElem?_append_left hi] at hp
    exact hold i p hp
  · have hlt := (List.getElem?_eq_some_iff.mp hp).1
    rw [List.length_append, List.length_singleton] at hlt
    obtain rfl : i = pairs.length := by omega
    rw [List.getElem?_append_right (Nat.le_refl _), Nat.sub_self] at hp
    obtain rfl := Option.some.inj hp
    exact readWord_writePair hk hv

/-- The array was copied. -/
theorem copy (h : PairsAt m a pairs) : PairsAt (m.copy a b (16 * pairs.length)) b pairs := by
  intro i p hp
  have hi := (List.getElem?_eq_some_iff.mp hp).1
  obtain ⟨hk, hv⟩ := h i p hp
  refine ⟨?_, ?_⟩
  · rw [← hk]
    exact readWord_copy (by omega)
  · rw [← hv, Nat.add_assoc, Nat.add_assoc]
    exact readWord_copy (by omega)

end PairsAt

end Mem
