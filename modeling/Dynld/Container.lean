import Dynld.Lib.Outcome
import Dynld.Lib.Bytes
import Dynld.Lib.Bits
import Dynld.Lib.Uleb

/-!
# Reading values out of an image

A `Container` is the raw bytes of an image and the byte order of its fields. Every
read of a typed value goes through it, and fails when the bytes end too early.
String reads do not fail: they panic.

ULEB128 numbers only occur in exports tries, which are read as plain slices.
-/

namespace Dynld

/-! ## UTF-8 -/

/-- A continuation byte. -/
def isUtf8Cont (b : UInt8) : Bool := 0x80 ≤ b && b ≤ 0xBF

/-- `core::str::from_utf8` accepts exactly these bytes. -/
def validUtf8 : List UInt8 → Bool
  | [] => true
  | b :: rest =>
      if b < 0x80 then validUtf8 rest
      else if 0xC2 ≤ b && b ≤ 0xDF then
        match rest with
        | c1 :: rest => isUtf8Cont c1 && validUtf8 rest
        | _ => false
      else if 0xE0 ≤ b && b ≤ 0xEF then
        match rest with
        | c1 :: c2 :: rest =>
            -- no overlong forms, no surrogates
            isUtf8Cont c1 && isUtf8Cont c2 && (b != 0xE0 || 0xA0 ≤ c1) && (b != 0xED || c1 ≤ 0x9F)
              && validUtf8 rest
        | _ => false
      else if 0xF0 ≤ b && b ≤ 0xF4 then
        match rest with
        | c1 :: c2 :: c3 :: rest =>
            -- no overlong forms, nothing above U+10FFFF
            isUtf8Cont c1 && isUtf8Cont c2 && isUtf8Cont c3 && (b != 0xF0 || 0x90 ≤ c1)
              && (b != 0xF4 || c1 ≤ 0x8F) && validUtf8 rest
        | _ => false
      else false

/-- A `str`: bytes known to be UTF-8. -/
structure Str where
  /-- The encoded text. -/
  bytes : List UInt8
  /-- It is UTF-8. -/
  valid : validUtf8 bytes = true
  deriving DecidableEq, Repr

theorem Str.ext {s t : Str} (h : s.bytes = t.bytes) : s = t := by
  cases s; cases t; cases h; rfl

/-- The bytes of an ASCII literal. -/
def ascii (s : String) : List UInt8 := s.toList.map (fun c => UInt8.ofNat c.toNat)

/-! ## The container -/

/-- The raw bytes of a Mach-O image. -/
structure Container where
  /-- The inner bytes. -/
  data : List UInt8
  /-- The endianness of the inner binary. -/
  endian : Endian
  deriving DecidableEq, Repr

namespace Container

/-- `deserialize_type_at_offset::<u16>`. -/
def u16 (c : Container) (offset : Nat) : Option Nat := Bytes.wordAt c.endian 2 c.data offset

/-- `deserialize_type_at_offset::<u32>`. -/
def u32 (c : Container) (offset : Nat) : Option Nat := Bytes.wordAt c.endian 4 c.data offset

/-- `deserialize_type_at_offset::<u64>`. -/
def u64 (c : Container) (offset : Nat) : Option Nat := Bytes.wordAt c.endian 8 c.data offset

/-- A `u8` field. -/
def u8 (c : Container) (offset : Nat) : Option Nat := Bytes.wordAt c.endian 1 c.data offset

/-- A field of `n` raw bytes. -/
def raw (c : Container) (n offset : Nat) : Option (List UInt8) := Bytes.bytesAt n c.data offset

/-- Some inner bytes given a range. -/
def slice (c : Container) (offset len : Nat) : Option (List UInt8) :=
  if offset + len < 2 ^ 64 then Bytes.bytesAt len c.data offset else none

/-- The bytes from `offset` up to the first NUL. -/
def stringBytesAtOffset (c : Container) (offset : Nat) : Outcome (List UInt8) :=
  if offset ≤ c.data.length then
    Outcome.orPanic (Bytes.untilNul (c.data.drop offset)) "no null terminator"
  else .panic "out of bounds"

/-- Reads a C string, up to but not including the NUL. -/
def deserializeStringAtOffset (c : Container) (offset : Nat) : Outcome Str := do
  let bytes ← c.stringBytesAtOffset offset
  if h : validUtf8 bytes = true then .ok ⟨bytes, h⟩ else .panic "invalid UTF-8"

/-- Reads a C string as a `CStr`; every caller takes its bytes without the NUL. -/
def deserializeCstrAtOffset (c : Container) (offset : Nat) : Outcome (List UInt8) :=
  c.stringBytesAtOffset offset

variable {c : Container} {off n : Nat}

theorem u16_of_at (h : Bytes.At c.data off (Bytes.encode c.endian 2 n)) (hn : n < 2 ^ 16) :
    c.u16 off = some n := Bytes.wordAt_of_at (by decide) h (by omega)

theorem u32_of_at (h : Bytes.At c.data off (Bytes.encode c.endian 4 n)) (hn : n < 2 ^ 32) :
    c.u32 off = some n := Bytes.wordAt_of_at (by decide) h (by omega)

theorem u64_of_at (h : Bytes.At c.data off (Bytes.encode c.endian 8 n)) (hn : n < 2 ^ 64) :
    c.u64 off = some n := Bytes.wordAt_of_at (by decide) h (by omega)

theorem slice_eq_some {offset len : Nat} {bytes : List UInt8}
    (h : c.slice offset len = some bytes) :
    offset + len < 2 ^ 64 ∧ offset + len ≤ c.data.length ∧
      bytes = (c.data.drop offset).take len := by
  unfold Container.slice Bytes.bytesAt at h
  split at h
  · rename_i hbound
    split at h
    · rename_i hle
      exact ⟨hbound, hle, (Option.some.inj h).symm⟩
    · simp at h
  · simp at h

/-- A NUL-terminated string is read back without its NUL. -/
theorem stringBytesAtOffset_of_at {xs : List UInt8} (h : Bytes.At c.data off (xs ++ [0]))
    (h0 : 0 ∉ xs) : c.stringBytesAtOffset off = .ok xs := by
  have hle : off + (xs ++ [0]).length ≤ c.data.length := h.le_length (by simp)
  rw [stringBytesAtOffset, if_pos (by omega), h.drop_eq, List.append_assoc]
  exact congrArg (Outcome.orPanic · _) (Bytes.untilNul_append h0)

theorem deserializeStringAtOffset_of_at {s : Str} (h : Bytes.At c.data off (s.bytes ++ [0]))
    (h0 : 0 ∉ s.bytes) : c.deserializeStringAtOffset off = .ok s := by
  rw [deserializeStringAtOffset, stringBytesAtOffset_of_at h h0, Outcome.ok_bind, dif_pos s.valid]

end Container

/-! ## ULEB128 -/

/-- The loop of `read_uleb128`, at byte `i` with the groups before it in `result`. -/
def readUleb128Loop (bytes : List UInt8) (i result shift : Nat) : Option (Nat × Nat) :=
  match bytes with
  | [] => none
  | b :: rest =>
      -- `<<` on a `u64` drops what it shifts out
      let result := result ||| ((b.toNat &&& 0x7f) <<< shift) % 2 ^ 64
      if b.toNat &&& 0x80 = 0 then some (result, i + 1)
      else
        let shift := shift + 7
        if 64 ≤ shift then none else readUleb128Loop rest (i + 1) result shift

/-- Decode a ULEB128 from the start of `bytes`. Returns `(value, bytes_consumed)`. -/
def readUleb128 (bytes : List UInt8) : Option (Nat × Nat) := readUleb128Loop bytes 0 0 0

theorem and_0x7f (b : UInt8) : b.toNat &&& 0x7f = b.toNat % 128 := Bits.and_low b.toNat 7

theorem and_0x80 (b : UInt8) : b.toNat &&& 0x80 = 0 ↔ b.toNat < 128 := by
  have hb : b.toNat < 256 := UInt8.toNat_lt b
  have h := Bits.and_bit_eq_zero b.toNat 7
  have h7 : (2 : Nat) ^ 7 = 128 := by decide
  rw [h7] at h
  rw [show (0x80 : Nat) = 128 from rfl, h]
  omega

/-- One group lands above the groups read so far, less what is shifted out. -/
theorem uleb_or {result shift : Nat} (b : UInt8) (hr : result < 2 ^ shift)
    (hshift : shift ≤ 63) :
    result ||| ((b.toNat &&& 0x7f) <<< shift) % 2 ^ 64
      = (result + b.toNat % 128 * 2 ^ shift) % 2 ^ 64 := by
  have hsplit : (2 : Nat) ^ 64 = 2 ^ (64 - shift) * 2 ^ shift := by
    rw [← Nat.pow_add, Nat.sub_add_cancel (by omega)]
  have hkept : ((b.toNat &&& 0x7f) <<< shift) % 2 ^ 64
      = (b.toNat % 128 % 2 ^ (64 - shift)) <<< shift := by
    rw [and_0x7f, Nat.shiftLeft_eq, Nat.shiftLeft_eq, hsplit, Nat.mul_mod_mul_right]
  have hlt : b.toNat % 128 % 2 ^ (64 - shift) + 1 ≤ 2 ^ (64 - shift) :=
    Nat.mod_lt _ (Nat.two_pow_pos _)
  have hfits : result + b.toNat % 128 % 2 ^ (64 - shift) * 2 ^ shift < 2 ^ 64 := by
    have hle := Nat.mul_le_mul_right (2 ^ shift) hlt
    rw [← hsplit, Nat.add_mul, Nat.one_mul] at hle
    omega
  have hdiv := Nat.mod_add_div (b.toNat % 128) (2 ^ (64 - shift))
  have hsum : result + b.toNat % 128 * 2 ^ shift
      = result + b.toNat % 128 % 2 ^ (64 - shift) * 2 ^ shift
        + 2 ^ 64 * (b.toNat % 128 / 2 ^ (64 - shift)) := by
    rw [hsplit, Nat.mul_right_comm, Nat.add_assoc, ← Nat.add_mul, hdiv]
  rw [hkept, Bits.or_shiftLeft hr, hsum, Nat.add_mul_mod_self_left, Nat.mod_eq_of_lt hfits]

/-- At most ten bytes are read, and what they spell is cut off at 64 bits. -/
theorem readUleb128Loop_of_terminated :
    ∀ (enc rest : List UInt8) (i result : Nat), Uleb.Terminated enc → i + enc.length ≤ 10 →
      result < 2 ^ (7 * i) →
      readUleb128Loop (enc ++ rest) i result (7 * i)
        = some ((result + Uleb.value enc * 2 ^ (7 * i)) % 2 ^ 64, i + enc.length)
  | [], _, _, _, ht, _, _ => absurd ht id
  | [b], rest, i, result, ht, hlen, hr => by
      have hb : b.toNat < 128 := ht
      have hlen : i + 1 ≤ 10 := hlen
      have hv : Uleb.value [b] = b.toNat % 128 := by simp [Uleb.value]
      rw [List.cons_append, readUleb128Loop, if_pos ((and_0x80 b).mpr hb), hv,
        uleb_or b hr (by omega)]
      rfl
  | b :: c :: enc, rest, i, result, ht, hlen, hr => by
      have hb : 128 ≤ b.toNat := ht.1
      have hlen' : i + 1 + (c :: enc).length ≤ 10 := by
        simp only [List.length_cons] at hlen ⊢
        omega
      have hi : i ≤ 8 := by
        simp only [List.length_cons] at hlen
        omega
      have hpow : 2 ^ (7 * (i + 1)) = 128 * 2 ^ (7 * i) := by
        rw [Nat.mul_add, Nat.pow_add, Nat.mul_comm]
      have hgroup : b.toNat % 128 * 2 ^ (7 * i) ≤ 127 * 2 ^ (7 * i) :=
        Nat.mul_le_mul_right _ (by omega)
      -- nine groups are below `2 ^ 63`, so nothing is dropped before the last one
      have hsmall : (2 : Nat) ^ (7 * (i + 1)) ≤ 2 ^ 63 :=
        Nat.pow_le_pow_right (by decide) (by omega)
      have hor := uleb_or b hr (show 7 * i ≤ 63 by omega)
      rw [Nat.mod_eq_of_lt (show result + b.toNat % 128 * 2 ^ (7 * i) < 2 ^ 64 by omega)] at hor
      have ih := readUleb128Loop_of_terminated (c :: enc) rest (i + 1)
        (result + b.toNat % 128 * 2 ^ (7 * i)) ht.2 hlen' (by omega)
      have hcount : i + 1 + (c :: enc).length = i + (b :: c :: enc).length := by
        simp only [List.length_cons]
        omega
      have hv : Uleb.value (b :: c :: enc) * 2 ^ (7 * i)
          = b.toNat % 128 * 2 ^ (7 * i) + Uleb.value (c :: enc) * 2 ^ (7 * (i + 1)) := by
        rw [Uleb.value, hpow, Nat.add_mul, Nat.mul_comm 128, Nat.mul_assoc]
      rw [List.cons_append, readUleb128Loop, hor, if_neg (by rw [and_0x80]; omega),
        if_neg (by omega), show 7 * i + 7 = 7 * (i + 1) by omega, ih, hv, hcount,
        Nat.add_assoc]

/-- **Every encoding of at most ten bytes is read back**, whatever follows it. -/
theorem readUleb128_encoding {bs : List UInt8} {v : Nat} (rest : List UInt8)
    (h : Uleb.Encodes bs v) (hlen : bs.length ≤ 10) (hv : v < 2 ^ 64) :
    readUleb128 (bs ++ rest) = some (v, bs.length) := by
  have hval := h.value_eq
  have hloop := readUleb128Loop_of_terminated bs rest 0 0 h.terminated (by omega) (by decide)
  rw [readUleb128, hloop, hval, Nat.mul_zero, Nat.pow_zero, Nat.mul_one, Nat.zero_add,
    Nat.zero_add, Nat.mod_eq_of_lt hv]

end Dynld
