import Dynld.Container
import Mathlib.Algebra.BigOperators.Group.Finset.Basic

/-!
# What the ULEB128 reader returns

The loop adds the groups of seven bits one above the other. Nine of them fit into 64
bits; of the tenth only one bit does, and `<<` drops the other six. So the reader
returns the number modulo `2 ^ 64`, and it rejects an encoding by its length alone.

`readUleb128_eq_some_iff` says this of all byte strings. The two results below it read
off what follows: when a returned number is the one the bytes spell, and that every
encoding of at most ten bytes is read back.
-/

namespace Dynld

/-! ## The loop -/

/-- The loop returns at a byte that asks for no other, the tenth at the latest. -/
theorem readUleb128Loop_eq_some : ∀ {bytes : List UInt8} {i result : Nat} {r : Nat × Nat},
    i ≤ 9 → readUleb128Loop bytes i result (7 * i) = some r →
      ∃ enc rest, bytes = enc ++ rest ∧ Uleb.Terminated enc ∧ i + enc.length ≤ 10 := by
  intro bytes
  induction bytes with
  | nil =>
    intro i result r _ h
    exact absurd h (by simp [readUleb128Loop])
  | cons b bytes ih =>
    intro i result r hi h
    rw [readUleb128Loop] at h
    split at h
    · rename_i hlast
      exact ⟨[b], bytes, rfl, (and_0x80 b).mp hlast, Nat.succ_le_succ hi⟩
    · rename_i hmore
      dsimp only at h
      split at h
      · exact absurd h (by simp)
      · rename_i hshift
        have hb : ¬ b.toNat < 128 := fun hlt => hmore ((and_0x80 b).mpr hlt)
        obtain ⟨enc, rest, rfl, ht, hlen⟩ := ih (show i + 1 ≤ 9 by omega) h
        refine ⟨b :: enc, rest, rfl, ?_, by rw [List.length_cons]; omega⟩
        cases enc with
        | nil => exact absurd ht id
        | cons c enc => exact ⟨by omega, ht⟩

/-- **The reader takes an encoding of at most ten bytes**, and returns its value modulo
`2 ^ 64`. -/
theorem readUleb128_eq_some_iff {bytes : List UInt8} {v n : Nat} :
    readUleb128 bytes = some (v, n) ↔ ∃ enc rest, bytes = enc ++ rest ∧ Uleb.Terminated enc ∧
      enc.length ≤ 10 ∧ v = Uleb.value enc % 2 ^ 64 ∧ n = enc.length := by
  constructor
  · intro h
    obtain ⟨enc, rest, rfl, ht, hlen⟩ := readUleb128Loop_eq_some (Nat.zero_le 9) h
    have hloop := readUleb128Loop_of_terminated enc rest 0 0 ht hlen (by decide)
    rw [readUleb128, hloop] at h
    obtain ⟨hv, hn⟩ := Prod.mk.inj (Option.some.inj h)
    refine ⟨enc, rest, rfl, ht, by omega, ?_, by omega⟩
    rw [← hv]
    simp
  · rintro ⟨enc, rest, rfl, ht, hlen, rfl, rfl⟩
    have hloop := readUleb128Loop_of_terminated enc rest 0 0 ht (by omega) (by decide)
    rw [readUleb128, hloop]
    simp

/-! ## What the bytes spell -/

/-- The bytes up to the `n`th are a number, and it is `v`: all but the last of them ask for another
one, and their groups add up to `v`. -/
structure ReadsNumber (bytes : List UInt8) (v n : Nat) : Prop where
  one_le : 1 ≤ n
  le_length : n ≤ bytes.length
  continues : ∀ i < n - 1, (bytes.getD i 0).toNat &&& 0x80 ≠ 0
  ends : (bytes.getD (n - 1) 0).toNat &&& 0x80 = 0
  value_eq : v = ∑ i ∈ Finset.range n, ((bytes.getD i 0).toNat &&& 0x7f) * 2 ^ (7 * i)

/-- A number that is returned is the one the bytes spell, and none is returned for an encoding of a
number that does not fit. -/
structure UlebSound (bytes : List UInt8) : Prop where
  returned : ∀ v n, readUleb128 bytes = some (v, n) → ReadsNumber bytes v n
  refused : ∀ enc rest, bytes = enc ++ rest → Uleb.Terminated enc → 2 ^ 64 ≤ Uleb.value enc →
    readUleb128 bytes = none

/-- Nine bytes that ask for another one, and a tenth that is the last and has more than its lowest
bit set. -/
def TenthByteOverflows (bytes : List UInt8) : Prop :=
  (∀ i < 9, 128 ≤ (bytes.getD i 0).toNat) ∧
    2 ≤ (bytes.getD 9 0).toNat ∧ (bytes.getD 9 0).toNat < 128

theorem sum_groups_eq {bytes : List UInt8} : ∀ {n : Nat}, n ≤ bytes.length →
    ∑ i ∈ Finset.range n, ((bytes.getD i 0).toNat &&& 0x7f) * 2 ^ (7 * i)
      = Uleb.value (bytes.take n) := by
  intro n
  induction n with
  | zero =>
    intro _
    rfl
  | succ n ih =>
    intro hle
    have hbyte : bytes.getD n 0 = bytes[n] := by
      rw [List.getD_eq_getElem?_getD, List.getElem?_eq_getElem hle]
      rfl
    have hvalue : Uleb.value [bytes[n]] = bytes[n].toNat % 128 := by simp [Uleb.value]
    rw [Finset.sum_range_succ, ih (by omega), List.take_add_one, List.getElem?_eq_getElem hle,
      Option.toList_some, Uleb.value_append, hvalue, hbyte, and_0x7f, List.length_take,
      Nat.min_eq_left (by omega), Nat.pow_mul, Nat.mul_comm]

theorem getD_append {enc rest : List UInt8} {i : Nat} (h : i < enc.length) :
    (enc ++ rest).getD i 0 = enc.getD i 0 := by
  rw [List.getD_eq_getElem?_getD, List.getD_eq_getElem?_getD, List.getElem?_append_left h]

/-- An encoding at the start of the bytes, of a number that fits, is the number they spell. -/
theorem readsNumber_of_terminated {enc : List UInt8} (rest : List UInt8)
    (ht : Uleb.Terminated enc) :
    ReadsNumber (enc ++ rest) (Uleb.value enc) enc.length := by
  have hle : enc.length ≤ (enc ++ rest).length := by simp
  have hsum := sum_groups_eq hle
  rw [List.take_left] at hsum
  obtain ⟨xs, b, rfl, hxs, hb⟩ := Uleb.terminated_iff.mp ht
  have hlen : (xs ++ [b]).length - 1 = xs.length := by simp
  refine ⟨by simp, hle, ?_, ?_, hsum.symm⟩
  · intro i hi
    rw [hlen] at hi
    have hmem : (xs ++ [b] ++ rest).getD i 0 ∈ xs := by
      rw [List.append_assoc, getD_append hi, List.getD_eq_getElem?_getD,
        List.getElem?_eq_getElem hi]
      exact List.getElem_mem hi
    rw [Ne, and_0x80]
    exact Nat.not_lt.mpr (hxs _ hmem)
  · rw [hlen, getD_append (by simp), List.getD_eq_getElem?_getD, List.getElem?_concat_length,
      and_0x80]
    exact hb

/-- Among at most ten bytes only the tenth can take a number past 64 bits. -/
theorem overflows_iff {enc : List UInt8} (rest : List UInt8) (ht : Uleb.Terminated enc)
    (hlen : enc.length ≤ 10) :
    2 ^ 64 ≤ Uleb.value enc ↔ TenthByteOverflows (enc ++ rest) := by
  have hreads := readsNumber_of_terminated rest ht
  obtain ⟨xs, b, rfl, hxs, hb⟩ := Uleb.terminated_iff.mp ht
  have hn : (xs ++ [b]).length = xs.length + 1 := by simp
  have hlt := Uleb.value_lt xs
  have hvalue : Uleb.value (xs ++ [b]) = Uleb.value xs + 128 ^ xs.length * b.toNat := by
    rw [Uleb.value_append]
    congr 2
    show b.toNat % 128 + 128 * 0 = b.toNat
    omega
  have hlast : (xs ++ [b] ++ rest).getD xs.length 0 = b := by
    rw [getD_append (by omega), List.getD_eq_getElem?_getD, List.getElem?_concat_length]
    rfl
  by_cases hten : xs.length = 9
  · rw [hten] at hlt hvalue hlast
    rw [hvalue, TenthByteOverflows, hlast]
    have hcontinues : ∀ i < 9, 128 ≤ ((xs ++ [b] ++ rest).getD i 0).toNat := by
      intro i hi
      have hmore := hreads.continues i (by omega)
      rw [Ne, and_0x80] at hmore
      exact Nat.le_of_not_lt hmore
    constructor
    · exact fun h => ⟨hcontinues, by omega, hb⟩
    · rintro ⟨-, htwo, -⟩
      omega
  · -- the number ends before the tenth byte, and is below `128 ^ 9`
    have hshort : xs.length ≤ 8 := by omega
    have hpow : 128 ^ xs.length ≤ 128 ^ 8 := Nat.pow_le_pow_right (by decide) hshort
    have hgroup : 128 ^ xs.length * b.toNat ≤ 128 ^ 8 * 127 := Nat.mul_le_mul hpow (by omega)
    refine iff_of_false (by omega) ?_
    rintro ⟨hcontinues, -⟩
    have hmore := hcontinues xs.length (by omega)
    rw [hlast] at hmore
    omega

/-- Two encodings at the start of the same bytes are one. -/
theorem terminated_unique {enc enc' rest rest' : List UInt8} (ht : Uleb.Terminated enc)
    (ht' : Uleb.Terminated enc') (h : enc ++ rest = enc' ++ rest') : enc.length ≤ enc'.length := by
  have hreads := readsNumber_of_terminated rest ht
  have hends := (readsNumber_of_terminated rest' ht').ends
  rw [← h] at hends
  by_cases hlt : enc'.length - 1 < enc.length - 1
  · exact absurd hends (hreads.continues _ hlt)
  · have hone := (readsNumber_of_terminated rest' ht').one_le
    omega

/-- The ten bytes are an encoding. -/
theorem TenthByteOverflows.terminated {bytes : List UInt8} (h : TenthByteOverflows bytes) :
    Uleb.Terminated (bytes.take 10) ∧ (bytes.take 10).length = 10 := by
  obtain ⟨hcontinues, htwo, hlast⟩ := h
  have hlong : 9 < bytes.length := by
    by_contra hshort
    rw [List.getD_eq_getElem?_getD, List.getElem?_eq_none (by omega)] at htwo
    exact absurd htwo (by decide)
  have hbyte : ∀ {i : Nat} (hi : i < bytes.length), bytes.getD i 0 = bytes[i] := by
    intro i hi
    rw [List.getD_eq_getElem?_getD, List.getElem?_eq_getElem hi]
    rfl
  refine ⟨Uleb.terminated_iff.mpr ⟨bytes.take 9, bytes[9], ?_, ?_, hbyte hlong ▸ hlast⟩, ?_⟩
  · rw [List.take_add_one, List.getElem?_eq_getElem hlong]
    rfl
  · intro x hx
    obtain ⟨i, hi, rfl⟩ := List.getElem_of_mem hx
    rw [List.length_take] at hi
    have hmore := hcontinues i (by omega)
    rw [hbyte (by omega)] at hmore
    rwa [List.getElem_take]
  · rw [List.length_take]
    omega

/-- **The reader is sound except at the tenth byte**: of its seven bits six are shifted out. -/
theorem readUleb128_sound_iff (bytes : List UInt8) :
    UlebSound bytes ↔ ¬ TenthByteOverflows bytes := by
  constructor
  · intro hsound htenth
    obtain ⟨ht, hlen⟩ := htenth.terminated
    have hsplit : bytes = bytes.take 10 ++ bytes.drop 10 := (List.take_append_drop 10 bytes).symm
    have hvalue := (overflows_iff (bytes.drop 10) ht (by omega)).mpr (hsplit ▸ htenth)
    have hnone := hsound.refused _ _ hsplit ht hvalue
    have hsome := readUleb128_eq_some_iff.mpr ⟨_, _, hsplit, ht, by omega, rfl, rfl⟩
    rw [hnone] at hsome
    exact absurd hsome (by simp)
  · intro hno
    refine ⟨fun v n h => ?_, fun enc rest hsplit ht hvalue => ?_⟩
    · obtain ⟨enc, rest, rfl, ht, hlen, rfl, rfl⟩ := readUleb128_eq_some_iff.mp h
      have hfits : Uleb.value enc < 2 ^ 64 := by
        by_contra hbig
        exact hno ((overflows_iff rest ht hlen).mp (Nat.le_of_not_lt hbig))
      rw [Nat.mod_eq_of_lt hfits]
      exact readsNumber_of_terminated rest ht
    · cases hread : readUleb128 bytes with
      | none => rfl
      | some r =>
          obtain ⟨enc', rest', hsplit', ht', hlen', -⟩ := readUleb128_eq_some_iff.mp hread
          have hle := terminated_unique ht ht' (hsplit.symm.trans hsplit')
          rw [hsplit] at hno
          exact absurd ((overflows_iff rest ht (by omega)).mp hvalue) hno

/-- The number `2 ^ 64` in ten bytes. -/
def sampleLongNumber : List UInt8 := List.replicate 9 0x80 ++ [0x02]

theorem sampleLongNumber_truncated :
    readUleb128 sampleLongNumber = some (0, 10) ∧ ¬ ∀ bytes, UlebSound bytes := by
  have hread : readUleb128 sampleLongNumber = some (0, 10) := by decide
  refine ⟨hread, fun h => ?_⟩
  have hvalue := ((h sampleLongNumber).returned 0 10 hread).value_eq
  exact absurd hvalue (by decide)

/-- **Every number is read back from each of its encodings in at most ten bytes**, the canonical
one and its paddings, whatever follows. -/
theorem readUleb128_roundTrip {v : Nat} (hv : v < 2 ^ 64) (rest : List UInt8) :
    (∀ bs, Uleb.Encodes bs v → bs.length ≤ 10 →
      readUleb128 (bs ++ rest) = some (v, bs.length)) ∧
    (∀ padding, Nat.log 128 v + padding < 10 →
      readUleb128 (Uleb.encode v padding ++ rest) = some (v, Nat.log 128 v + padding + 1)) ∧
    Nat.log 128 v < 10 := by
  refine ⟨fun bs h hlen => readUleb128_encoding rest h hlen hv, fun padding hlen => ?_, ?_⟩
  · have hcount := Uleb.length_encode v padding
    have hread := readUleb128_encoding rest (Uleb.encodes_iff.mpr ⟨padding, rfl⟩)
      (by omega) hv
    rw [hcount] at hread
    exact hread
  · by_cases hzero : v = 0
    · subst hzero
      simp
    · exact Nat.log_lt_of_lt_pow hzero (Nat.lt_trans hv (by decide))

/-- `300`, padded with one zero group. -/
theorem samplePaddedNumber_read :
    readUleb128 ([0xac, 0x82, 0x00] ++ [0xff]) = some (300, 3) :=
  (readUleb128_roundTrip (show 300 < 2 ^ 64 by decide) [0xff]).1 [0xac, 0x82, 0x00]
    ⟨⟨by decide, by decide, show (0 : UInt8).toNat < 128 by decide⟩, by decide⟩ (by decide)

end Dynld
