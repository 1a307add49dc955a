import Dynld.Lib.Bytes

/-!
# Flat memory

An address space is a function from addresses to bytes. `read` and `write` move a
string of bytes, `readWord` and `writeWord` a little-endian word. The lemmas come in
pairs: what an access inside a range does, and what it leaves alone outside.

A `ByteRange` is half open, and may be empty. Two ranges are `Apart` when they
have no byte in common, which an empty range never has with any other.
-/

/-! ## Ranges -/

structure ByteRange where
  start : Nat
  len : Nat
  deriving DecidableEq, Repr

namespace ByteRange

instance : Membership Nat ByteRange where
  mem r a := r.start ≤ a ∧ a < r.start + r.len

theorem mem_def {r : ByteRange} {a : Nat} : a ∈ r ↔ r.start ≤ a ∧ a < r.start + r.len := Iff.rfl

theorem mem_mk {s n a : Nat} : a ∈ (⟨s, n⟩ : ByteRange) ↔ s ≤ a ∧ a < s + n := Iff.rfl

def Apart (r s : ByteRange) : Prop := ∀ a, a ∈ r → a ∉ s

def Within (r s : ByteRange) : Prop := ∀ a, a ∈ r → a ∈ s

theorem Apart.symm {r s : ByteRange} (h : Apart r s) : Apart s r :=
  fun a ha hb => h a hb ha

theorem Apart.mono {r r' s s' : ByteRange} (h : Apart r s) (hr : Within r' r)
    (hs : Within s' s) : Apart r' s' :=
  fun a ha hb => h a (hr a ha) (hs a hb)

theorem Within.refl (r : ByteRange) : Within r r := fun _ h => h

theorem Within.trans {r s t : ByteRange} (h : Within r s) (h' : Within s t) : Within r t :=
  fun a ha => h' a (h a ha)

theorem within_of_le {r s : ByteRange} (hs : s.start ≤ r.start)
    (he : r.start + r.len ≤ s.start + s.len) : Within r s := by
  intro a ha
  rw [mem_def] at ha ⊢
  omega

theorem within_mk {a n b w : Nat} (hlo : a ≤ b) (hhi : b + w ≤ a + n) :
    Within ⟨b, w⟩ ⟨a, n⟩ := within_of_le hlo hhi

theorem apart_of_le {r s : ByteRange} (h : r.start + r.len ≤ s.start) : Apart r s := by
  intro a ha hb
  rw [mem_def] at ha hb
  omega

/-- Ranges inside another one, told by their offsets in it. -/
theorem within_shift {a s n m : Nat} : Within ⟨a + s, n⟩ ⟨a, m⟩ ↔ Within ⟨s, n⟩ ⟨0, m⟩ := by
  constructor
  · intro h x hx
    have hx := mem_mk.mp hx
    have ha := mem_mk.mp (h (a + x) (mem_mk.mpr ⟨by omega, by omega⟩))
    exact mem_mk.mpr ⟨Nat.zero_le _, by omega⟩
  · intro h x hx
    have hx := mem_mk.mp hx
    have ha := mem_mk.mp (h (x - a) (mem_mk.mpr ⟨by omega, by omega⟩))
    exact mem_mk.mpr ⟨by omega, by omega⟩

theorem Apart.shift {s n t m : Nat} (a : Nat) (h : Apart ⟨s, n⟩ ⟨t, m⟩) :
    Apart ⟨a + s, n⟩ ⟨a + t, m⟩ := by
  intro x hx hx'
  have hx := mem_mk.mp hx
  have hx' := mem_mk.mp hx'
  exact h (x - a) (mem_mk.mpr ⟨by omega, by omega⟩) (mem_mk.mpr ⟨by omega, by omega⟩)

/-- Ranges with bytes are disjoint only if one ends before the other starts. -/
theorem Apart.le_or_le {r s : ByteRange} (h : Apart r s) (hr : 0 < r.len) (hs : 0 < s.len) :
    r.start + r.len ≤ s.start ∨ s.start + s.len ≤ r.start := by
  have h1 := h (max r.start s.start)
  rw [mem_def, mem_def] at h1
  omega

instance (r s : ByteRange) : Decidable (Apart r s) :=
  decidable_of_iff (r.len = 0 ∨ s.len = 0 ∨ r.start + r.len ≤ s.start ∨ s.start + s.len ≤ r.start)
    ⟨fun h a ha hb => by rw [mem_def] at ha hb; omega, fun h => by
      by_cases hr : r.len = 0
      · exact .inl hr
      · by_cases hs : s.len = 0
        · exact .inr (.inl hs)
        · exact .inr (.inr (h.le_or_le (by omega) (by omega)))⟩

/-! ### Several ranges -/

/-- No two of the ranges have a byte in common. -/
def Separate (rs : List ByteRange) : Prop := rs.Pairwise Apart

theorem Separate.perm {rs ss : List ByteRange} (h : Separate rs) (hp : rs.Perm ss) : Separate ss :=
  hp.pairwise h fun hd => hd.symm

theorem Separate.sublist {rs ss : List ByteRange} (h : Separate rs) (hs : ss.Sublist rs) :
    Separate ss := List.Pairwise.sublist hs h

/-- One range is cut into pieces. -/
theorem Separate.refine {r : ByteRange} {rs pieces : List ByteRange} (h : Separate (r :: rs))
    (hp : Separate pieces) (hw : ∀ p ∈ pieces, Within p r) : Separate (pieces ++ rs) := by
  obtain ⟨hr, hrs⟩ := List.pairwise_cons.mp h
  exact List.pairwise_append.mpr
    ⟨hp, hrs, fun p hpm s hs => (hr s hs).mono (hw p hpm) (Within.refl s)⟩

/-- Every byte of `r` is in one of the ranges. -/
def CoveredBy (r : ByteRange) (rs : List ByteRange) : Prop := ∀ a ∈ r, ∃ s ∈ rs, a ∈ s

theorem CoveredBy.within {r r' : ByteRange} {rs : List ByteRange} (h : CoveredBy r rs)
    (hw : Within r' r) : CoveredBy r' rs := fun a ha => h a (hw a ha)

theorem CoveredBy.mono {r : ByteRange} {rs ss : List ByteRange} (h : CoveredBy r rs)
    (hs : rs ⊆ ss) : CoveredBy r ss := fun a ha =>
  have ⟨s, hm, has⟩ := h a ha
  ⟨s, hs hm, has⟩

/-- What is disjoint from a range stays covered without it. -/
theorem CoveredBy.erase {r s : ByteRange} {rs : List ByteRange} (h : CoveredBy r rs)
    (hd : Apart r s) : CoveredBy r (rs.erase s) := by
  intro a ha
  obtain ⟨t, ht, hat⟩ := h a ha
  have hne : t ≠ s := fun he => hd a ha (he ▸ hat)
  exact ⟨t, (List.mem_erase_of_ne hne).mpr ht, hat⟩

theorem CoveredBy.apart {r s : ByteRange} {rs : List ByteRange} (h : CoveredBy r rs)
    (hd : ∀ t ∈ rs, Apart t s) : Apart r s := by
  intro a ha hb
  obtain ⟨t, ht, hat⟩ := h a ha
  exact hd t ht a hat hb

end ByteRange

/-! ## Memory -/

/-- The bytes of an address space. -/
abbrev Mem : Type := Nat → UInt8

namespace Mem

/-- The `n` bytes at `a`. -/
def read (m : Mem) (a n : Nat) : List UInt8 := (List.range n).map fun i => m (a + i)

/-- Put `bs` at `a`. -/
def write (m : Mem) (a : Nat) (bs : List UInt8) : Mem := fun x =>
  if a ≤ x then bs[x - a]?.getD (m x) else m x

/-- Clear the `n` bytes at `a`. -/
def zero (m : Mem) (a n : Nat) : Mem := fun x => if a ≤ x ∧ x < a + n then 0 else m x

/-- Copy the `n` bytes at `src` to `dst`. -/
def copy (m : Mem) (src dst n : Nat) : Mem := fun x =>
  if dst ≤ x ∧ x < dst + n then m (src + (x - dst)) else m x

/-- The `w`-byte word at `a`. -/
def readWord (w : Nat) (m : Mem) (a : Nat) : Nat := Bytes.decode .little (m.read a w)

def writeWord (w : Nat) (m : Mem) (a v : Nat) : Mem := m.write a (Bytes.encode .little w v)

/-- One block that is copied to another place. -/
structure Move where
  src : Nat
  dst : Nat
  len : Nat
  deriving DecidableEq, Repr

/-- The bytes a move reads. -/
def Move.source (mv : Move) : ByteRange := ⟨mv.src, mv.len⟩

/-- The bytes a move writes. -/
def Move.target (mv : Move) : ByteRange := ⟨mv.dst, mv.len⟩

/-- Move blocks in order. -/
def copyAll (m : Mem) (moves : List Move) : Mem :=
  moves.foldl (fun m mv => m.copy mv.src mv.dst mv.len) m

@[simp] theorem length_read (m : Mem) (a n : Nat) : (m.read a n).length = n := by
  rw [read, List.length_map, List.length_range]

/-- A write changes nothing outside its range. -/
theorem write_of_notMem {m : Mem} {a x : Nat} {bs : List UInt8}
    (h : x ∉ (⟨a, bs.length⟩ : ByteRange)) : m.write a bs x = m x := by
  rw [ByteRange.mem_def] at h
  unfold write
  split
  · rename_i hle
    have hlen : bs.length ≤ x - a := by
      have h : ¬ (a ≤ x ∧ x < a + bs.length) := h
      omega
    rw [List.getElem?_eq_none hlen]
    rfl
  · rfl

theorem writeWord_of_notMem {w : Nat} {m : Mem} {a v x : Nat} (h : x ∉ (⟨a, w⟩ : ByteRange)) :
    m.writeWord w a v x = m x :=
  write_of_notMem (by rwa [Bytes.length_encode])

theorem zero_of_notMem {m : Mem} {a n x : Nat} (h : x ∉ (⟨a, n⟩ : ByteRange)) :
    m.zero a n x = m x := if_neg h

theorem copy_of_notMem {m : Mem} {src dst n x : Nat} (h : x ∉ (⟨dst, n⟩ : ByteRange)) :
    m.copy src dst n x = m x := if_neg h

theorem copy_of_lt {m : Mem} {src dst n i : Nat} (h : i < n) :
    m.copy src dst n (dst + i) = m (src + i) := by
  have hin : dst ≤ dst + i ∧ dst + i < dst + n := ⟨Nat.le_add_right _ _, by omega⟩
  rw [copy, if_pos hin, Nat.add_sub_cancel_left]

theorem copyAll_of_notMem {m : Mem} {moves : List Move} {x : Nat}
    (h : ∀ mv ∈ moves, x ∉ mv.target) : m.copyAll moves x = m x := by
  induction moves generalizing m with
  | nil => rfl
  | cons mv moves ih =>
      have hrest := ih (m := m.copy mv.src mv.dst mv.len)
        fun mv' hmem => h mv' (List.mem_cons_of_mem mv hmem)
      exact hrest.trans (copy_of_notMem (h mv List.mem_cons_self))

/-- **Moves to disjoint places** out of a range that none of them writes to: every byte of the
range arrives as it was. -/
theorem copyAll_apply {m : Mem} {moves : List Move} {r : ByteRange}
    (hd : moves.Pairwise fun mv mv' => ByteRange.Apart mv.target mv'.target)
    (hr : ∀ mv ∈ moves, ByteRange.Apart mv.target r) {mv : Move} (hmem : mv ∈ moves) {i : Nat}
    (hi : i < mv.len) (hsrc : mv.src + i ∈ r) :
    m.copyAll moves (mv.dst + i) = m (mv.src + i) := by
  induction moves generalizing m with
  | nil => exact absurd hmem (List.not_mem_nil)
  | cons first moves ih =>
      obtain ⟨hfirst, hrest⟩ := List.pairwise_cons.mp hd
      rcases List.mem_cons.mp hmem with rfl | hmem
      · have hin : mv.dst + i ∈ mv.target := ByteRange.mem_def.mpr ⟨Nat.le_add_right _ _, by
          simp only [Move.target]; omega⟩
        have hlater : ∀ mv' ∈ moves, mv.dst + i ∉ mv'.target := fun mv' hmem' =>
          hfirst mv' hmem' _ hin
        exact (copyAll_of_notMem hlater).trans (copy_of_lt hi)
      · have harrive := ih (m := m.copy first.src first.dst first.len) hrest
          (fun mv' hmem' => hr mv' (List.mem_cons_of_mem first hmem')) hmem
        have hkept : mv.src + i ∉ first.target := fun hbad =>
          hr first List.mem_cons_self _ hbad hsrc
        exact harrive.trans (copy_of_notMem hkept)

/-- The last move to a place decides what is there, if no move lands on what it is moved from. -/
theorem copyAll_at {m : Mem} {before after : List Move} {mv : Move} {r : ByteRange}
    (hr : ∀ mv' ∈ before ++ mv :: after, ByteRange.Apart mv'.target r) {i : Nat} (hi : i < mv.len)
    (hsrc : mv.src + i ∈ r) (hlast : ∀ mv' ∈ after, mv.dst + i ∉ mv'.target) :
    m.copyAll (before ++ mv :: after) (mv.dst + i) = m (mv.src + i) := by
  have hkept : m.copyAll before (mv.src + i) = m (mv.src + i) :=
    copyAll_of_notMem fun mv' hmem hbad => hr mv' (List.mem_append_left _ hmem) _ hbad hsrc
  rw [copyAll, List.foldl_append, List.foldl_cons]
  exact (copyAll_of_notMem hlast).trans ((copy_of_lt hi).trans hkept)

/-- If all moves to a place are from the same one, and none lands there, the order does not
matter. -/
theorem copyAll_of_same {m : Mem} {moves : List Move} {r : ByteRange} {src x : Nat}
    (hr : ∀ mv ∈ moves, ByteRange.Apart mv.target r) (hsrc : src ∈ r)
    (hsame : ∀ mv ∈ moves, x ∈ mv.target → mv.src + (x - mv.dst) = src)
    (hsome : ∃ mv ∈ moves, x ∈ mv.target) : m.copyAll moves x = m src := by
  induction moves generalizing m with
  | nil =>
      obtain ⟨mv, hmem, -⟩ := hsome
      exact absurd hmem List.not_mem_nil
  | cons first moves ih =>
      by_cases hlater : ∃ mv ∈ moves, x ∈ mv.target
      · have hrest := ih (m := m.copy first.src first.dst first.len)
          (fun mv hmem => hr mv (List.mem_cons_of_mem first hmem))
          (fun mv hmem => hsame mv (List.mem_cons_of_mem first hmem)) hlater
        have hkept : src ∉ first.target := fun hbad => hr first List.mem_cons_self _ hbad hsrc
        exact hrest.trans (copy_of_notMem hkept)
      · have hnone : ∀ mv ∈ moves, x ∉ mv.target := fun mv hmem hin => hlater ⟨mv, hmem, hin⟩
        obtain ⟨mv, hmem, hin⟩ := hsome
        obtain rfl : mv = first := by
          rcases List.mem_cons.mp hmem with rfl | hmem
          · rfl
          · exact absurd hin (hnone mv hmem)
        have hfrom := hsame mv List.mem_cons_self hin
        obtain ⟨hle, hlt⟩ := ByteRange.mem_def.mp hin
        obtain ⟨i, rfl⟩ := Nat.exists_eq_add_of_le hle
        have hi : i < mv.len := Nat.lt_of_add_lt_add_left hlt
        have hcopy : m.copy mv.src mv.dst mv.len (mv.dst + i) = m (mv.src + i) := copy_of_lt hi
        have hsum : mv.src + i = src := by
          rw [← hfrom]
          exact congrArg (mv.src + ·) (Nat.add_sub_cancel_left mv.dst i).symm
        rw [hsum] at hcopy
        exact (copyAll_of_notMem hnone).trans hcopy

/-- What is at `x` after a write depends on what was there only. -/
theorem write_congr {m m' : Mem} {a x : Nat} {bs : List UInt8} (h : m x = m' x) :
    m.write a bs x = m'.write a bs x := by
  rw [write, write, h]

/-- Writes to disjoint places can be swapped. -/
theorem write_comm {m : Mem} {a b : Nat} {bs cs : List UInt8}
    (h : ByteRange.Apart ⟨a, bs.length⟩ ⟨b, cs.length⟩) :
    (m.write a bs).write b cs = (m.write b cs).write a bs := by
  funext x
  by_cases ha : x ∈ (⟨a, bs.length⟩ : ByteRange)
  · rw [write_of_notMem (h x ha)]
    exact write_congr (write_of_notMem (h x ha)).symm
  · rw [write_of_notMem ha]
    exact write_congr (write_of_notMem ha)

theorem writeWord_comm {w w' : Nat} {m : Mem} {a b u v : Nat}
    (h : ByteRange.Apart ⟨a, w⟩ ⟨b, w'⟩) :
    (m.writeWord w a u).writeWord w' b v = (m.writeWord w' b v).writeWord w a u :=
  write_comm (by rwa [Bytes.length_encode, Bytes.length_encode])

/-- A read depends on the bytes it reads only. -/
theorem read_congr {m m' : Mem} {a n : Nat} (h : ∀ x ∈ (⟨a, n⟩ : ByteRange), m' x = m x) :
    m'.read a n = m.read a n := by
  refine List.map_congr_left fun i hi => h (a + i) ⟨Nat.le_add_right a i, ?_⟩
  exact Nat.add_lt_add_left (List.mem_range.mp hi) a

theorem readWord_congr {w : Nat} {m m' : Mem} {a : Nat}
    (h : ∀ x ∈ (⟨a, w⟩ : ByteRange), m' x = m x) : m'.readWord w a = m.readWord w a :=
  congrArg (Bytes.decode .little) (read_congr h)

/-- What was written is read back. -/
theorem read_write (m : Mem) (a : Nat) (bs : List UInt8) : (m.write a bs).read a bs.length = bs := by
  apply List.ext_getElem
  · exact length_read _ _ _
  · intro i h1 h2
    simp only [read, List.getElem_map, List.getElem_range, write]
    rw [if_pos (Nat.le_add_right a i), Nat.add_sub_cancel_left, List.getElem?_eq_getElem h2]
    rfl

theorem write_byte (m : Mem) (a : Nat) (v : UInt8) : m.write a [v] a = v := by
  rw [write, if_pos (Nat.le_refl a), Nat.sub_self]
  rfl

/-- A byte is written to a block. -/
theorem read_write_byte {m : Mem} {a p n : Nat} {v : UInt8} (h : p ≤ a) :
    (m.write a [v]).read p n = (m.read p n).set (a - p) v := by
  apply List.ext_getElem
  · rw [List.length_set, length_read, length_read]
  · intro i hi hi'
    simp only [read, List.getElem_set, List.getElem_map, List.getElem_range]
    by_cases heq : a - p = i
    · have hpi : p + i = a := by omega
      rw [if_pos heq, hpi, write_byte]
    · rw [if_neg heq]
      refine write_of_notMem fun hbad => heq ?_
      obtain ⟨hlo, hhi⟩ := ByteRange.mem_mk.mp hbad
      have hlen : [v].length = 1 := rfl
      omega

theorem readWord_writeWord {w : Nat} (m : Mem) (a : Nat) {v : Nat} (hv : v < 256 ^ w) :
    (m.writeWord w a v).readWord w a = v := by
  have h := read_write m a (Bytes.encode .little w v)
  rw [Bytes.length_encode] at h
  rw [readWord, writeWord, h, Bytes.decode_encode hv]

/-- A value that is too wide loses its high bytes. -/
theorem readWord_writeWord_mod {w : Nat} (m : Mem) (a v : Nat) :
    (m.writeWord w a v).readWord w a = v % 256 ^ w := by
  have h := read_write m a (Bytes.encode .little w v)
  rw [Bytes.length_encode] at h
  rw [readWord, writeWord, h]
  exact Bytes.decodeLE_encodeLE_mod w v

/-- A word is read past a write elsewhere. -/
theorem readWord_writeWord_of_apart {w w' : Nat} {m : Mem} {a b v : Nat}
    (h : ByteRange.Apart ⟨b, w⟩ ⟨a, w'⟩) :
    (m.writeWord w' a v).readWord w b = m.readWord w b :=
  readWord_congr fun x hx => writeWord_of_notMem (h x hx)

/-- Part of what is read is what is read there. -/
theorem take_drop_read {m : Mem} {a n off w : Nat} (h : off + w ≤ n) :
    ((m.read a n).drop off).take w = m.read (a + off) w := by
  apply List.ext_getElem
  · rw [List.length_take, List.length_drop, length_read, length_read]
    omega
  · intro i h1 h2
    simp only [read, List.getElem_take, List.getElem_drop, List.getElem_map, List.getElem_range]
    rw [Nat.add_assoc]

/-- A word inside what was read. -/
theorem wordAt_read {m : Mem} {a n off w v : Nat} :
    Bytes.wordAt .little w (m.read a n) off = some v ↔
      off + w ≤ n ∧ v = m.readWord w (a + off) := by
  unfold Bytes.wordAt
  rw [length_read]
  by_cases h : off + w ≤ n
  · rw [if_pos h, take_drop_read h, Option.some_inj, eq_comm]
    exact ⟨fun he => ⟨h, he⟩, fun he => he.2⟩
  · rw [if_neg h]
    exact ⟨fun he => absurd he (by simp), fun he => absurd he.1 h⟩

theorem readWord_lt (w : Nat) (m : Mem) (a : Nat) : m.readWord w a < 256 ^ w := by
  have h := Bytes.decode_lt .little (m.read a w)
  rwa [length_read] at h

end Mem
