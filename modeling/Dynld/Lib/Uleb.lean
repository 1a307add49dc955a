import Mathlib.Algebra.Group.Nat.Defs
import Mathlib.Data.Nat.Log

/-!
# ULEB128

A number is written as groups of seven bits, least significant group first. Every
byte but the last has its top bit set. Nothing forbids leading zero groups, so a
number has many encodings: `Encodes bs v` holds of all of them.
-/

namespace Uleb

/-- The number the groups of `bs` spell. -/
def value : List UInt8 → Nat
  | [] => 0
  | b :: bs => b.toNat % 128 + 128 * value bs

/-- Every byte asks for another one, except the last. -/
def Terminated : List UInt8 → Prop
  | [] => False
  | [b] => b.toNat < 128
  | b :: c :: bs => 128 ≤ b.toNat ∧ Terminated (c :: bs)

/-- `bs` is one of the encodings of `v`. -/
structure Encodes (bs : List UInt8) (v : Nat) : Prop where
  /-- The bytes end where the number ends. -/
  terminated : Terminated bs
  /-- They spell the number. -/
  value_eq : value bs = v

theorem Encodes.ne_nil {bs : List UInt8} {v : Nat} (h : Encodes bs v) : bs ≠ [] := by
  intro he
  exact absurd h.terminated (by rw [he]; exact id)

theorem Encodes.length_pos {bs : List UInt8} {v : Nat} (h : Encodes bs v) : 0 < bs.length :=
  List.length_pos_iff.mpr h.ne_nil

/-- A number below `128` fits in one byte. -/
theorem encodes_byte {v : Nat} (h : v < 128) : Encodes [UInt8.ofNat v] v := by
  have hv : (UInt8.ofNat v).toNat = v := by
    rw [UInt8.toNat_ofNat']
    omega
  refine ⟨?_, ?_⟩
  · show (UInt8.ofNat v).toNat < 128
    rw [hv]
    exact h
  · show (UInt8.ofNat v).toNat % 128 + 128 * 0 = v
    rw [hv]
    omega

/-! ## The groups of a number -/

/-- `n` groups spell a number below `128 ^ n`. -/
theorem value_lt : ∀ bs : List UInt8, value bs < 128 ^ bs.length
  | [] => by simp [value]
  | b :: bs => by
      have ih := value_lt bs
      rw [value, List.length_cons, Nat.pow_succ]
      omega

theorem value_append : ∀ xs ys : List UInt8,
    value (xs ++ ys) = value xs + 128 ^ xs.length * value ys
  | [], ys => by simp [value]
  | x :: xs, ys => by
      rw [List.cons_append, value, value, value_append xs ys, List.length_cons, Nat.pow_succ,
        Nat.mul_comm (128 ^ xs.length) 128, Nat.mul_assoc, Nat.mul_add, Nat.add_assoc]

/-- An encoding is some bytes that ask for another one, and one that does not. -/
theorem terminated_iff : ∀ {bs : List UInt8}, Terminated bs ↔
    ∃ xs b, bs = xs ++ [b] ∧ (∀ x ∈ xs, 128 ≤ x.toNat) ∧ b.toNat < 128
  | [] => by
      refine iff_of_false id ?_
      rintro ⟨xs, b, h, -⟩
      exact absurd h.symm (by simp)
  | [b] => by
      constructor
      · exact fun h => ⟨[], b, rfl, fun x hx => absurd hx List.not_mem_nil, h⟩
      · rintro ⟨xs, c, h, -, hc⟩
        cases xs with
        | nil =>
            obtain rfl : b = c := by simpa using h
            exact hc
        | cons x xs => exact absurd h (by simp)
  | b :: c :: bs => by
      constructor
      · rintro ⟨hb, hrest⟩
        obtain ⟨xs, d, h, hxs, hd⟩ := terminated_iff.mp hrest
        exact ⟨b :: xs, d, by rw [h, List.cons_append], List.forall_mem_cons.mpr ⟨hb, hxs⟩, hd⟩
      · rintro ⟨xs, d, h, hxs, hd⟩
        cases xs with
        | nil => exact absurd h (by simp)
        | cons x xs =>
            obtain ⟨rfl, hrest⟩ := List.cons.inj h
            obtain ⟨hb, hxs⟩ := List.forall_mem_cons.mp hxs
            exact ⟨hb, terminated_iff.mpr ⟨xs, d, hrest, hxs, hd⟩⟩

/-- `n + 1` groups of a number; the last of them has what is left of it. -/
def groups : Nat → Nat → List UInt8
  | 0, v => [UInt8.ofNat v]
  | n + 1, v => UInt8.ofNat (128 + v % 128) :: groups n (v / 128)

/-- The encoding with this many zero groups more than the number needs: without any, it is the
canonical one. -/
def encode (v padding : Nat) : List UInt8 := groups (Nat.log 128 v + padding) v

theorem length_groups : ∀ n v : Nat, (groups n v).length = n + 1
  | 0, _ => rfl
  | n + 1, v => by rw [groups, List.length_cons, length_groups n]

theorem groups_encodes : ∀ {n v : Nat}, v < 128 ^ (n + 1) → Encodes (groups n v) v
  | 0, _, h => encodes_byte (by simpa using h)
  | n + 1, v, h => by
      have hb : (UInt8.ofNat (128 + v % 128)).toNat = 128 + v % 128 := by
        rw [UInt8.toNat_ofNat']
        omega
      have ih : Encodes (groups n (v / 128)) (v / 128) := groups_encodes (by
        rw [Nat.pow_succ] at h
        omega)
      refine ⟨?_, ?_⟩
      · cases hrest : groups n (v / 128) with
        | nil => exact absurd hrest ih.ne_nil
        | cons c cs =>
            rw [groups, hrest]
            exact ⟨by rw [hb]; omega, hrest ▸ ih.terminated⟩
      · rw [groups, value, ih.value_eq, hb]
        omega

theorem eq_groups : ∀ {bs : List UInt8} {v : Nat}, Encodes bs v →
    ∃ n, bs.length = n + 1 ∧ bs = groups n v
  | [], _, h => absurd rfl h.ne_nil
  | [b], v, ⟨hb, hv⟩ => by
      have hb : b.toNat < 128 := hb
      have hv : b.toNat % 128 + 128 * 0 = v := hv
      refine ⟨0, rfl, ?_⟩
      rw [groups, ← hv, show b.toNat % 128 + 128 * 0 = b.toNat by omega, UInt8.ofNat_toNat]
  | b :: c :: bs, v, ⟨⟨hb, hrest⟩, hv⟩ => by
      have hb256 : b.toNat < 256 := UInt8.toNat_lt b
      have hv : b.toNat % 128 + 128 * value (c :: bs) = v := hv
      obtain ⟨n, hlen, hgroups⟩ := eq_groups ⟨hrest, rfl⟩
      refine ⟨n + 1, by rw [List.length_cons, hlen], ?_⟩
      rw [groups, ← hv, show 128 + (b.toNat % 128 + 128 * value (c :: bs)) % 128 = b.toNat by omega,
        show (b.toNat % 128 + 128 * value (c :: bs)) / 128 = value (c :: bs) by omega, ← hgroups,
        UInt8.ofNat_toNat]

/-- **The encodings of a number are the canonical one and its paddings.** -/
theorem encodes_iff {bs : List UInt8} {v : Nat} :
    Encodes bs v ↔ ∃ padding, bs = encode v padding := by
  constructor
  · intro h
    obtain ⟨n, hlen, hbs⟩ := eq_groups h
    have hlt := value_lt bs
    rw [h.value_eq, hlen] at hlt
    have hlog : Nat.log 128 v ≤ n := by
      by_cases hv : v = 0
      · subst hv
        simp
      · exact Nat.lt_succ_iff.mp (Nat.log_lt_of_lt_pow hv hlt)
    exact ⟨n - Nat.log 128 v, by rw [encode, hbs, Nat.add_sub_cancel' hlog]⟩
  · rintro ⟨padding, rfl⟩
    have hlt : v < 128 ^ (Nat.log 128 v + 1) := Nat.lt_pow_succ_log_self (by omega) v
    refine groups_encodes (Nat.lt_of_lt_of_le hlt ?_)
    exact Nat.pow_le_pow_right (by omega) (by omega)

theorem length_encode (v padding : Nat) :
    (encode v padding).length = Nat.log 128 v + padding + 1 := length_groups _ v

end Uleb
