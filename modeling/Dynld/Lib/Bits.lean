import Mathlib.Algebra.Group.Nat.Defs

/-!
# Shifts and masks as division and remainder

A bit field is cut out of a word with a shift and a mask. For arithmetic the same
number is a quotient and a remainder by powers of two, which `omega` can reason
about. The lemmas here turn the one into the other, and a disjoint `|||` into `+`.
-/

namespace Bits

/-- A field of `w` bits that starts at bit `i`. -/
theorem shiftRight_and (n i w : Nat) : (n >>> i) &&& (2 ^ w - 1) = n / 2 ^ i % 2 ^ w := by
  rw [Nat.and_two_pow_sub_one_eq_mod, Nat.shiftRight_eq_div_pow]

/-- The low `w` bits. -/
theorem and_low (n w : Nat) : n &&& (2 ^ w - 1) = n % 2 ^ w :=
  Nat.and_two_pow_sub_one_eq_mod n w

/-- Setting high bits above a number that does not reach them. -/
theorem or_shiftLeft {a i : Nat} (h : a < 2 ^ i) (b : Nat) : a ||| (b <<< i) = a + b * 2 ^ i := by
  rw [Nat.or_comm, Nat.shiftLeft_eq, Nat.mul_comm b, ← Nat.two_pow_add_eq_or_of_lt h,
    Nat.add_comm]

/-- Testing one bit of a number with a mask. -/
theorem and_bit_eq_zero (n i : Nat) : n &&& 2 ^ i = 0 ↔ n / 2 ^ i % 2 = 0 := by
  have hbit : n.testBit i = false ↔ n / 2 ^ i % 2 = 0 := by
    rw [Nat.testBit_eq_decide_div_mod_eq, decide_eq_false_iff_not]
    omega
  rw [← hbit]
  constructor
  · intro h
    have hi := congrArg (fun m => m.testBit i) h
    simpa [Nat.testBit_and, Nat.testBit_two_pow_self] using hi
  · intro h
    apply Nat.eq_of_testBit_eq
    intro j
    rw [Nat.testBit_and, Nat.zero_testBit]
    by_cases hj : i = j
    · rw [← hj, h, Bool.false_and]
    · rw [Nat.testBit_two_pow_of_ne hj, Bool.and_false]

/-- Clearing the low `k` bits of a number of at most `w` bits. -/
theorem and_not_low {n k w : Nat} (hn : n < 2 ^ w) (hk : k ≤ w) :
    n &&& (2 ^ w - 1 - (2 ^ k - 1)) = n / 2 ^ k * 2 ^ k := by
  have hmask : 2 ^ w - 1 - (2 ^ k - 1) = (2 ^ (w - k) - 1) * 2 ^ k := by
    have hsplit : 2 ^ w = 2 ^ (w - k) * 2 ^ k := by rw [← Nat.pow_add, Nat.sub_add_cancel hk]
    rw [Nat.sub_mul, Nat.one_mul, ← hsplit]
    have hpos : 0 < 2 ^ k := Nat.two_pow_pos k
    omega
  have hq : n / 2 ^ k < 2 ^ (w - k) := by
    rw [Nat.div_lt_iff_lt_mul (Nat.two_pow_pos k), ← Nat.pow_add, Nat.sub_add_cancel hk]
    exact hn
  apply Nat.eq_of_testBit_eq
  intro i
  rw [hmask, Nat.testBit_and, ← Nat.shiftLeft_eq, ← Nat.shiftLeft_eq, Nat.testBit_shiftLeft,
    Nat.testBit_shiftLeft, Nat.testBit_two_pow_sub_one, ← Nat.shiftRight_eq_div_pow,
    Nat.testBit_shiftRight]
  by_cases hi : k ≤ i
  · have hki : k + (i - k) = i := by omega
    rw [hki]
    by_cases hw : i - k < w - k
    · simp [hi, hw]
    · have hbig : n.testBit i = false :=
        Nat.testBit_lt_two_pow (Nat.lt_of_lt_of_le hn (Nat.pow_le_pow_right (by omega) (by omega)))
      simp [hbig]
  · simp [hi]

end Bits
