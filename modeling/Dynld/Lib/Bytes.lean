import Mathlib.Algebra.Group.Nat.Defs

/-!
# Words in byte strings

A fixed-width word is stored as its base-256 digits, least significant first or
most significant first. `encode` writes one, `decode` reads one back, and
`wordAt` reads the one that starts at an offset, if the string reaches that far.

`At bs off xs` says that the bytes `xs` sit in `bs` at offset `off`. A format is
specified with `At` and `encode`, and a parser reads with `wordAt`: `wordAt_of_at`
is the bridge, and the only place where the two meet.
-/

/-- Byte order. -/
inductive Endian where
  | little
  | big
  deriving DecidableEq, Repr

namespace Bytes

/-! ## One word -/

/-- The number whose digits are `bs`, least significant first. -/
def decodeLE : List UInt8 → Nat
  | [] => 0
  | b :: bs => b.toNat + 256 * decodeLE bs

/-- The `w` low digits of `n`, least significant first. -/
def encodeLE : Nat → Nat → List UInt8
  | 0, _ => []
  | w + 1, n => UInt8.ofNat (n % 256) :: encodeLE w (n / 256)

/-- The word whose bytes are `bs`. -/
def decode : Endian → List UInt8 → Nat
  | .little, bs => decodeLE bs
  | .big, bs => decodeLE bs.reverse

/-- The `w` bytes of `n`. -/
def encode : Endian → Nat → Nat → List UInt8
  | .little, w, n => encodeLE w n
  | .big, w, n => (encodeLE w n).reverse

theorem toNat_ofNat_mod (n : Nat) : (UInt8.ofNat (n % 256)).toNat = n % 256 := by
  rw [UInt8.toNat_ofNat']
  omega

@[simp] theorem length_encodeLE (w n : Nat) : (encodeLE w n).length = w := by
  induction w generalizing n with
  | zero => rfl
  | succ w ih => rw [encodeLE, List.length_cons, ih]

@[simp] theorem length_encode (e : Endian) (w n : Nat) : (encode e w n).length = w := by
  cases e with
  | little => exact length_encodeLE w n
  | big => rw [encode, List.length_reverse, length_encodeLE]

theorem decodeLE_encodeLE_mod : ∀ (w n : Nat), decodeLE (encodeLE w n) = n % 256 ^ w := by
  intro w
  induction w with
  | zero =>
    intro n
    rw [Nat.pow_zero, Nat.mod_one]
    rfl
  | succ w ih =>
    intro n
    rw [encodeLE, decodeLE, toNat_ofNat_mod, ih, Nat.pow_succ,
      Nat.mul_comm (256 ^ w), Nat.mod_mul]

theorem decodeLE_encodeLE {w n : Nat} (h : n < 256 ^ w) : decodeLE (encodeLE w n) = n :=
  (decodeLE_encodeLE_mod w n).trans (Nat.mod_eq_of_lt h)

/-- **A word reads back as itself**, in either byte order. -/
theorem decode_encode {e : Endian} {w n : Nat} (h : n < 256 ^ w) :
    decode e (encode e w n) = n := by
  cases e with
  | little => exact decodeLE_encodeLE h
  | big => rw [encode, decode, List.reverse_reverse]; exact decodeLE_encodeLE h

theorem decodeLE_lt : ∀ bs : List UInt8, decodeLE bs < 256 ^ bs.length := by
  intro bs
  induction bs with
  | nil => simp [decodeLE]
  | cons b bs ih =>
    have hb : b.toNat < 256 := UInt8.toNat_lt b
    rw [decodeLE, List.length_cons, Nat.pow_succ]
    omega

theorem decode_lt (e : Endian) (bs : List UInt8) : decode e bs < 256 ^ bs.length := by
  cases e with
  | little => exact decodeLE_lt bs
  | big => rw [decode, ← List.length_reverse]; exact decodeLE_lt _

/-! ## A word in two halves -/

/-- The word whose bytes are those of `a` and then those of `b`, `w` each. -/
def join (e : Endian) (w a b : Nat) : Nat :=
  match e with
  | .little => a + b * 256 ^ w
  | .big => b + a * 256 ^ w

theorem encodeLE_add : ∀ (v w : Nat) {a : Nat} (b : Nat), a < 256 ^ v →
    encodeLE (v + w) (a + b * 256 ^ v) = encodeLE v a ++ encodeLE w b := by
  intro v
  induction v with
  | zero =>
    intro w a b h
    have ha : a = 0 := by simpa using h
    rw [ha, Nat.zero_add, Nat.zero_add, Nat.pow_zero, Nat.mul_one]
    rfl
  | succ v ih =>
    intro w a b h
    have hdigit : (a + b * 256 ^ (v + 1)) % 256 = a % 256 := by
      rw [Nat.pow_succ, ← Nat.mul_assoc, Nat.add_mul_mod_self_right]
    have hrest : (a + b * 256 ^ (v + 1)) / 256 = a / 256 + b * 256 ^ v := by
      rw [Nat.pow_succ, ← Nat.mul_assoc, Nat.add_mul_div_right _ _ (by decide)]
    have hlt : a / 256 < 256 ^ v := by
      rw [Nat.pow_succ] at h
      omega
    rw [Nat.add_right_comm, encodeLE, hdigit, hrest, ih w b hlt, encodeLE,
      List.cons_append]

theorem encode_join {e : Endian} {w a b : Nat} (ha : a < 256 ^ w) (hb : b < 256 ^ w) :
    encode e (w + w) (join e w a b) = encode e w a ++ encode e w b := by
  cases e with
  | little => exact encodeLE_add w w b ha
  | big =>
      have h := encodeLE_add w w a hb
      rw [encode, join, h, List.reverse_append, encode, encode]

theorem join_lt {e : Endian} {w a b : Nat} (ha : a < 256 ^ w) (hb : b < 256 ^ w) :
    join e w a b < 256 ^ (w + w) := by
  have hmul : ∀ {x y : Nat}, x < 256 ^ w → y < 256 ^ w → x + y * 256 ^ w < 256 ^ w * 256 ^ w := by
    intro x y hx hy
    have hy := Nat.mul_le_mul_right (256 ^ w) (Nat.succ_le_of_lt hy)
    rw [Nat.succ_mul] at hy
    omega
  rw [Nat.pow_add]
  cases e with
  | little => exact hmul ha hb
  | big => exact hmul hb ha

/-- Every word has two halves. -/
theorem exists_join (e : Endian) {w n : Nat} (h : n < 256 ^ (w + w)) :
    ∃ a b, a < 256 ^ w ∧ b < 256 ^ w ∧ n = join e w a b := by
  have hpos : 0 < 256 ^ w := Nat.pow_pos (by decide)
  have hlow := Nat.mod_lt n hpos
  have hhigh : n / 256 ^ w < 256 ^ w := Nat.div_lt_of_lt_mul (by rwa [← Nat.pow_add])
  have hsum : n = n % 256 ^ w + n / 256 ^ w * 256 ^ w := by
    rw [Nat.mul_comm]
    exact (Nat.mod_add_div n _).symm
  cases e with
  | little => exact ⟨_, _, hlow, hhigh, hsum⟩
  | big => exact ⟨_, _, hhigh, hlow, hsum⟩

/-! ## A word inside a string -/

/-- The `w`-byte word that starts at `off`, if `bs` reaches that far. -/
def wordAt (e : Endian) (w : Nat) (bs : List UInt8) (off : Nat) : Option Nat :=
  if off + w ≤ bs.length then some (decode e ((bs.drop off).take w)) else none

theorem wordAt_isSome {e : Endian} {w : Nat} {bs : List UInt8} {off : Nat}
    (h : off + w ≤ bs.length) : ∃ v, wordAt e w bs off = some v :=
  ⟨_, if_pos h⟩

theorem wordAt_bound {e : Endian} {w : Nat} {bs : List UInt8} {off v : Nat}
    (h : wordAt e w bs off = some v) : off + w ≤ bs.length ∧ v < 256 ^ w := by
  unfold wordAt at h
  split at h
  · rename_i hle
    refine ⟨hle, ?_⟩
    have hlen : ((bs.drop off).take w).length = w := by
      rw [List.length_take, List.length_drop]
      omega
    have hlt := decode_lt e ((bs.drop off).take w)
    rw [hlen] at hlt
    rw [← Option.some.inj h]
    exact hlt
  · exact absurd h (by simp)

/-- The bytes `xs` sit in `bs` at offset `off`. -/
def At (bs : List UInt8) (off : Nat) (xs : List UInt8) : Prop := xs <+: bs.drop off

instance (bs : List UInt8) (off : Nat) (xs : List UInt8) : Decidable (At bs off xs) :=
  inferInstanceAs (Decidable (xs <+: bs.drop off))

theorem At.eq_take {bs xs : List UInt8} {off : Nat} (h : At bs off xs) :
    (bs.drop off).take xs.length = xs := (List.prefix_iff_eq_take.mp h).symm

theorem At.le_length {bs xs : List UInt8} {off : Nat} (h : At bs off xs) (hne : xs ≠ []) :
    off + xs.length ≤ bs.length := by
  have hle := h.length_le
  rw [List.length_drop] at hle
  have hpos : 0 < xs.length := List.length_pos_iff.mpr hne
  omega

/-- What follows the bytes found at `off`. -/
theorem At.drop_eq {bs xs : List UInt8} {off : Nat} (h : At bs off xs) :
    bs.drop off = xs ++ bs.drop (off + xs.length) := by
  obtain ⟨rest, hrest⟩ := h
  rw [← hrest, ← List.drop_drop, ← hrest, List.drop_left]

/-- Bytes laid out one after another. -/
theorem at_append {bs xs ys : List UInt8} {off : Nat} :
    At bs off (xs ++ ys) ↔ At bs off xs ∧ At bs (off + xs.length) ys := by
  constructor
  · intro h
    have hx : At bs off xs := (List.prefix_append xs ys).trans h
    refine ⟨hx, ?_⟩
    obtain ⟨rest, hrest⟩ := h
    refine ⟨rest, ?_⟩
    rw [← List.drop_drop, ← hrest, List.append_assoc, List.drop_left]
  · rintro ⟨hx, rest, hrest⟩
    refine ⟨rest, ?_⟩
    rw [List.append_assoc, hrest, hx.drop_eq]

/-- A word that sits in a string is inside it. -/
theorem at_encode_le {e : Endian} {w n : Nat} {bs : List UInt8} {off : Nat} (hw : 0 < w)
    (h : At bs off (encode e w n)) : off + w ≤ bs.length := by
  have hne : encode e w n ≠ [] := by
    intro he
    have hlen := length_encode e w n
    rw [he, List.length_nil] at hlen
    omega
  have hle := h.le_length hne
  rwa [length_encode] at hle

/-- **The bridge.** A reader finds the word a writer put there. -/
theorem wordAt_of_at {e : Endian} {w n : Nat} {bs : List UInt8} {off : Nat} (hw : 0 < w)
    (h : At bs off (encode e w n)) (hn : n < 256 ^ w) : wordAt e w bs off = some n := by
  have hle := at_encode_le hw h
  have htake := h.eq_take
  rw [length_encode] at htake
  rw [wordAt, if_pos hle, htake, decode_encode hn]

/-! ## Several words in a row -/

/-- The fields `(width, value)` of a structure, one after another. -/
def encodeFields (e : Endian) : List (Nat × Nat) → List UInt8
  | [] => []
  | (w, v) :: fields => encode e w v ++ encodeFields e fields

/-- Every value fits its width. -/
def FieldsFit : List (Nat × Nat) → Prop
  | [] => True
  | (w, v) :: fields => v < 256 ^ w ∧ FieldsFit fields

theorem at_encodeFields_cons {e : Endian} {w v off : Nat} {fields : List (Nat × Nat)}
    {bs : List UInt8} : At bs off (encodeFields e ((w, v) :: fields)) ↔
      At bs off (encode e w v) ∧ At bs (off + w) (encodeFields e fields) := by
  rw [encodeFields, at_append, length_encode]

/-- The `n` bytes that start at `off`, if `bs` reaches that far. -/
def bytesAt (n : Nat) (bs : List UInt8) (off : Nat) : Option (List UInt8) :=
  if off + n ≤ bs.length then some ((bs.drop off).take n) else none

/-! ## NUL-terminated strings -/

/-- The bytes before the first NUL, if there is one. -/
def untilNul : List UInt8 → Option (List UInt8)
  | [] => none
  | b :: bs => if b = 0 then some [] else (untilNul bs).map (b :: ·)

theorem untilNul_append {xs rest : List UInt8} (h : 0 ∉ xs) :
    untilNul (xs ++ 0 :: rest) = some xs := by
  induction xs with
  | nil => rfl
  | cons b bs ih =>
    have hb : b ≠ 0 := fun he => h (he ▸ List.mem_cons_self)
    have hbs : 0 ∉ bs := fun hm => h (List.mem_cons_of_mem _ hm)
    rw [List.cons_append, untilNul, if_neg hb, ih hbs]
    rfl

theorem untilNul_eq_some {bs xs : List UInt8} (h : untilNul bs = some xs) :
    0 ∉ xs ∧ ∃ rest, bs = xs ++ 0 :: rest := by
  induction bs generalizing xs with
  | nil => exact absurd h (by simp [untilNul])
  | cons b bs ih =>
    rw [untilNul] at h
    split at h
    · rename_i hb
      rw [← Option.some.inj h, hb]
      exact ⟨by simp, bs, rfl⟩
    · rename_i hb
      obtain ⟨ys, hys, rfl⟩ := Option.map_eq_some_iff.mp h
      obtain ⟨h0, rest, hrest⟩ := ih hys
      refine ⟨?_, rest, by rw [hrest]; rfl⟩
      intro hm
      rcases List.mem_cons.mp hm with he | hm
      · exact hb he.symm
      · exact h0 hm

/-! ## Part of the bytes -/

section

variable {xs ys : List UInt8} {off n : Nat}

theorem prefix_drop (h : xs <+: ys) (off : Nat) : xs.drop off <+: ys.drop off := by
  obtain ⟨rest, rfl⟩ := h
  by_cases hle : off ≤ xs.length
  · rw [List.drop_append_of_le_length hle]
    exact List.prefix_append _ _
  · rw [List.drop_eq_nil_of_le (by omega)]
    exact List.nil_prefix

theorem take_drop_of_prefix (h : xs <+: ys) (hle : off + n ≤ xs.length) :
    (ys.drop off).take n = (xs.drop off).take n := by
  obtain ⟨rest, hrest⟩ := prefix_drop h off
  rw [← hrest, List.take_append_of_le_length (by rw [List.length_drop]; omega)]

/-- A word of some bytes is a word of more bytes. -/
theorem wordAt_of_prefix {e : Endian} {v : Nat} (h : xs <+: ys)
    (hread : wordAt e n xs off = some v) : wordAt e n ys off = some v := by
  have hle := (wordAt_bound hread).1
  rw [wordAt, if_pos hle] at hread
  rw [wordAt, if_pos (Nat.le_trans hle h.length_le), take_drop_of_prefix h hle]
  exact hread

theorem untilNul_of_prefix {name : List UInt8} (h : xs <+: ys) (hread : untilNul xs = some name) :
    untilNul ys = some name := by
  obtain ⟨hname, before, hbefore⟩ := untilNul_eq_some hread
  obtain ⟨rest, hrest⟩ := h
  rw [← hrest, hbefore, List.append_assoc, List.cons_append]
  exact untilNul_append hname

end

end Bytes
