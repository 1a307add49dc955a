import Dynld.Lib.Ownership
import Dynld.Lib.Systems
import Dynld.Proof.ThreadStorage

/-!
# Lookups by many threads

Any number of threads look up variables, and each takes its steps while the others take
theirs. A thread without storage gets a block, copies the template into it byte by byte,
and has it as its storage from then on. The initializers come after that: they are code
of the program, and may look up variables themselves. The code of the program writes
where it likes, but not to the images and the table (`fixed`), nor to a block that it was
not given yet.

The images, the blocks that are copied into, and the storages are all owned by someone,
and no step gives a byte to two owners. So a thread finds the template as it was when the
threads started, and its block as it left it.
-/

namespace Dynld

/-! ## The threads -/

/-- A lookup that a thread has not finished. -/
inductive Lookup where
  /-- This many bytes of the template are in the block. -/
  | copying (d key block : Nat) (t : Template) (done : Nat)
  /-- The initializers that are left, and whether one is being called. -/
  | initializing (d key block : Nat) (pointers : List Nat) (inCall : Bool)

/-- The block that a lookup still copies into. -/
def Lookup.block : Lookup → Option ByteRange
  | .copying _ _ block t _ => some ⟨block, t.size⟩
  | .initializing _ _ _ _ _ => none

/-- The lookup waits for an initializer. -/
def Lookup.waits : Lookup → Bool
  | .copying _ _ _ _ _ => false
  | .initializing _ _ _ _ inCall => inCall

structure Threads where
  tlv : Tlv
  /-- The lookups of a thread, the innermost one first. -/
  lookups : Nat → List Lookup

/-- What can be told of a step from outside. -/
inductive ThreadEvent where
  | internal
  | returned (d a : Nat)
  | created (key : Nat)
  | dropped (key : Nat)
  | stored (a : Nat) (v : UInt8)

/-- What the program promises: it does not write to the fixed ranges, and the descriptors are those
it looks up. -/
structure Client where
  fixed : List ByteRange
  descriptors : List Nat

/-- Whose a range is: `storage` has the thread and the key. -/
inductive Owner where
  | fixed (r : ByteRange)
  | lookup (thread : Nat)
  | storage (thread key : Nat)
  deriving DecidableEq

/-- The template of the image with this key: without an image it is empty. -/
def Tlv.template (s : Tlv) (key : Nat) : Template :=
  if tlvGetImageForKey s key = 0 then ⟨0, 0, false⟩ else imageTemplate s.mem (tlvGetImageForKey s key)

namespace Threads

/-- The thread runs code of the program. -/
def inProgram (w : Threads) (thread : Nat) : Prop :=
  (w.lookups thread).head?.all Lookup.waits = true

def withLookups (w : Threads) (thread : Nat) (lookups : List Lookup) : Threads :=
  { w with lookups := Function.update w.lookups thread lookups }

@[simp] theorem withLookups_tlv (w : Threads) (thread : Nat) (lookups : List Lookup) :
    (w.withLookups thread lookups).tlv = w.tlv := rfl

@[simp] theorem withLookups_lookups (w : Threads) (thread : Nat) (lookups : List Lookup) :
    (w.withLookups thread lookups).lookups thread = lookups := Function.update_self _ _ _

@[simp] theorem withLookups_of_ne (w : Threads) {thread t : Nat} (lookups : List Lookup)
    (h : t ≠ thread) : (w.withLookups thread lookups).lookups t = w.lookups t :=
  Function.update_of_ne h _ _

/-- What each owner has: the storages have the sizes of the templates. -/
def ownedBy (fixed : List ByteRange) (size : Nat → Nat) (specific : Nat → Nat → Nat)
    (lookups : Nat → List Lookup) : Owner → Option ByteRange
  | .fixed r => if r ∈ fixed then some r else none
  | .lookup thread => (lookups thread).head?.bind Lookup.block
  | .storage thread key =>
      if specific thread key = 0 then none else some ⟨specific thread key, size key⟩

def owned (client : Client) (w : Threads) : Owner → Option ByteRange :=
  ownedBy client.fixed (fun key => (w.tlv.template key).size) w.tlv.specific w.lookups

end Threads

/-- One step of a thread. -/
inductive ThreadStep (libc : Libc) (client : Client) :
    Threads → Nat × ThreadEvent → Threads → Prop where
  /-- A lookup finds the storage of the thread. -/
  | hit {w : Threads} {thread d : Nat} (hprogram : w.inProgram thread)
      (hd : d ∈ client.descriptors)
      (hblock : w.tlv.specific thread (w.tlv.mem.readWord 8 (d + 8)) ≠ 0) :
      ThreadStep libc client w
        (thread, .returned d (ptrAdd (w.tlv.specific thread (w.tlv.mem.readWord 8 (d + 8)))
          (w.tlv.mem.readWord 8 (d + 16)))) w
  /-- There is no image, or it has no template. -/
  | absent {w : Threads} {thread d : Nat} (hprogram : w.inProgram thread)
      (hd : d ∈ client.descriptors)
      (hblock : w.tlv.specific thread (w.tlv.mem.readWord 8 (d + 8)) = 0)
      (hsize : (w.tlv.template (w.tlv.mem.readWord 8 (d + 8))).size = 0) :
      ThreadStep libc client w
        (thread, .returned d (ptrAdd 0 (w.tlv.mem.readWord 8 (d + 16)))) w
  /-- A lookup gets a block for the storage. -/
  | miss {w : Threads} {thread d key block : Nat} {t : Template} (hprogram : w.inProgram thread)
      (hd : d ∈ client.descriptors) (hkey : w.tlv.mem.readWord 8 (d + 8) = key)
      (hblock : w.tlv.specific thread key = 0) (ht : w.tlv.template key = t) (hsize : t.size ≠ 0)
      (hmalloc : libc.malloc w.tlv t.size = some block) :
      ThreadStep libc client w (thread, .internal)
        (Threads.withLookups { w with tlv := { w.tlv with live := ⟨block, t.size⟩ :: w.tlv.live } }
          thread (.copying d key block t 0 :: w.lookups thread))
  /-- `memcpy` copies the next byte. -/
  | copy {w : Threads} {thread d key block done : Nat} {t : Template} {rest : List Lookup}
      (htop : w.lookups thread = .copying d key block t done :: rest) (hlt : done < t.size) :
      ThreadStep libc client w (thread, .internal)
        (Threads.withLookups { w with tlv := { w.tlv with
            mem := w.tlv.mem.write (block + done) [w.tlv.mem (t.start + done)] } }
          thread (.copying d key block t (done + 1) :: rest))
  /-- The block is the storage of the thread. -/
  | publish {w : Threads} {thread d key block : Nat} {t : Template} {rest : List Lookup}
      (htop : w.lookups thread = .copying d key block t t.size :: rest) :
      ThreadStep libc client w (thread, .created key)
        (Threads.withLookups { w with tlv := w.tlv.setSpecific thread key block } thread
          (.initializing d key block (imagePointers w.tlv.mem (tlvGetImageForKey w.tlv key)) false
            :: rest))
  /-- The next initializer is called. -/
  | call {w : Threads} {thread d key block p : Nat} {ps : List Nat} {rest : List Lookup}
      (htop : w.lookups thread = .initializing d key block (p :: ps) false :: rest) :
      ThreadStep libc client w (thread, .internal)
        (Threads.withLookups { w with tlv := { w.tlv with
            called := w.tlv.called ++ [(thread, w.tlv.mem.readWord 8 p)] } }
          thread (.initializing d key block ps true :: rest))
  /-- An initializer returns. -/
  | ret {w : Threads} {thread d key block : Nat} {ps : List Nat} {rest : List Lookup}
      (htop : w.lookups thread = .initializing d key block ps true :: rest) :
      ThreadStep libc client w (thread, .internal)
        (w.withLookups thread (.initializing d key block ps false :: rest))
  /-- The lookup is done. -/
  | finish {w : Threads} {thread d key block : Nat} {rest : List Lookup}
      (htop : w.lookups thread = .initializing d key block [] false :: rest) :
      ThreadStep libc client w
        (thread, .returned d (ptrAdd block (w.tlv.mem.readWord 8 (d + 16))))
        (w.withLookups thread rest)
  /-- The program writes a byte. -/
  | store {w : Threads} {thread a : Nat} {v : UInt8} (hprogram : w.inProgram thread)
      (hallowed : ∀ o r, w.owned client o = some r → a ∈ r → ∃ t k, o = .storage t k) :
      ThreadStep libc client w (thread, .stored a v)
        { w with tlv := { w.tlv with mem := w.tlv.mem.write a [v] } }
  /-- The program gets a block. -/
  | malloc {w : Threads} {thread size block : Nat} (hprogram : w.inProgram thread)
      (hmalloc : libc.malloc w.tlv size = some block) :
      ThreadStep libc client w (thread, .internal)
        { w with tlv := { w.tlv with live := ⟨block, size⟩ :: w.tlv.live } }
  /-- The program frees a block of its own. -/
  | free {w : Threads} {thread : Nat} {r : ByteRange} (hprogram : w.inProgram thread)
      (hr : r ∈ w.tlv.live) (hpos : 0 < r.len) (hown : ∀ o, w.owned client o ≠ some r) :
      ThreadStep libc client w (thread, .internal)
        { w with tlv := { w.tlv with live := w.tlv.live.filter fun s => s.start != r.start } }
  /-- A thread that goes away: `tlv_free` is called with its storage for a key. -/
  | exit {w : Threads} {thread key : Nat} (hdone : w.lookups thread = [])
      (hblock : w.tlv.specific thread key ≠ 0) :
      ThreadStep libc client w (thread, .dropped key)
        { w with tlv := { (w.tlv.setSpecific thread key 0) with
            live := w.tlv.live.filter fun s => s.start != w.tlv.specific thread key } }

/-! ## What stays the same -/

/-- The range is in one that the program does not write to. -/
def Client.Covers (client : Client) (range : ByteRange) : Prop :=
  ∃ r ∈ client.fixed, ByteRange.Within range r

/-- An image whose load commands and template are fixed. -/
structure ImageFixed (s : Tlv) (client : Client) (mh : Nat) : Prop where
  header : ∃ header, HeaderIn s.mem mh header ∧ client.Covers header
  template : (imageTemplate s.mem mh).size ≠ 0 →
    client.Covers ⟨(imageTemplate s.mem mh).start, (imageTemplate s.mem mh).size⟩

/-- The process when the threads start: the images are registered, and nothing was looked up. -/
structure StartsWith (s : Tlv) (client : Client) : Prop where
  separate : ByteRange.Separate s.live
  fixed : ∀ r ∈ client.fixed, r ∈ s.live ∧ 0 < r.len
  table : client.Covers s.tableRange ∧ ∃ images, TableAt s images
  images : ∀ key, tlvGetImageForKey s key ≠ 0 → ImageFixed s client (tlvGetImageForKey s key)
  descriptors : ∀ d ∈ client.descriptors, client.Covers ⟨d, 24⟩
  none : ∀ thread key, s.specific thread key = 0

/-- The fixed ranges and the table are those of `s`. -/
structure SameFixed (s : Tlv) (client : Client) (w : Tlv) : Prop where
  mem : ∀ r ∈ client.fixed, AgreeOn r s.mem w.mem
  liveImages : w.liveImages = s.liveImages
  usedCount : w.liveImageUsedCount = s.liveImageUsedCount

section

variable {libc : Libc} {client : Client} {s w w' : Tlv}

theorem SameFixed.refl (s : Tlv) (client : Client) : SameFixed s client s :=
  ⟨fun _ _ _ _ => rfl, rfl, rfl⟩

theorem SameFixed.covered (h : SameFixed s client w) {range : ByteRange}
    (hr : client.Covers range) : AgreeOn range s.mem w.mem := by
  obtain ⟨r, hr, hin⟩ := hr
  exact fun x hx => h.mem r hr x (hin x hx)

theorem SameFixed.image (h : SameFixed s client w) (hs : StartsWith s client) (key : Nat) :
    tlvGetImageForKey w key = tlvGetImageForKey s key := by
  obtain ⟨hcovers, images, htable⟩ := hs.table
  have hpairs : w.mem.PairsAt w.liveImages images := by
    rw [h.liveImages]
    refine htable.pairs.congr fun x hx => h.covered hcovers x (ByteRange.within_of_le ?_ ?_ x hx)
    · exact Nat.le_refl _
    · have hfits := htable.fits
      unfold Tlv.tableRange tlvImageInfoSize
      dsimp only
      omega
  have hused : w.liveImageUsedCount = images.length := h.usedCount.trans htable.used
  rw [htable.get, tlvGetImageForKey, hused, tlvGetImageForKeyLoop_eq hpairs (Nat.zero_add _),
    List.drop_zero]

theorem SameFixed.template (h : SameFixed s client w) (hs : StartsWith s client) (key : Nat) :
    w.template key = s.template key := by
  unfold Tlv.template
  rw [h.image hs]
  by_cases hmh : tlvGetImageForKey s key = 0
  · rw [if_pos hmh, if_pos hmh]
  · obtain ⟨header, hm, hcovers⟩ := (hs.images key hmh).header
    rw [if_neg hmh, if_neg hmh, imageTemplate_congr hm (h.covered hcovers)]

theorem SameFixed.descriptor (h : SameFixed s client w) (hs : StartsWith s client) {d : Nat}
    (hd : d ∈ client.descriptors) :
    w.mem.readWord 8 (d + 8) = s.mem.readWord 8 (d + 8) ∧
      w.mem.readWord 8 (d + 16) = s.mem.readWord 8 (d + 16) :=
  have hagree : AgreeOn ⟨d, 24⟩ s.mem w.mem := h.covered (hs.descriptors d hd)
  ⟨hagree.readWord (ByteRange.within_mk (by omega) (by omega)),
    hagree.readWord (ByteRange.within_mk (by omega) (by omega))⟩

/-- A template that is not empty is in a fixed range. -/
theorem StartsWith.template_covered (hs : StartsWith s client) {key : Nat}
    (hsize : (s.template key).size ≠ 0) :
    client.Covers ⟨(s.template key).start, (s.template key).size⟩ := by
  unfold Tlv.template at hsize ⊢
  by_cases hmh : tlvGetImageForKey s key = 0
  · rw [if_pos hmh] at hsize
    exact absurd rfl hsize
  · rw [if_neg hmh] at hsize ⊢
    exact (hs.images key hmh).template hsize

end

/-! ## The invariant -/

/-- What is known of a lookup that a thread has not finished. -/
def LookupOk (s : Tlv) (client : Client) (w : Tlv) (thread : Nat) : Lookup → Prop
  | .copying d key block t done =>
      d ∈ client.descriptors ∧ s.mem.readWord 8 (d + 8) = key ∧ s.template key = t ∧ t.size ≠ 0 ∧
        w.specific thread key = 0 ∧ block ≠ 0 ∧ done ≤ t.size ∧
        ∀ i < done, w.mem (block + i) = s.mem (t.start + i)
  | .initializing d key block _ _ =>
      d ∈ client.descriptors ∧ s.mem.readWord 8 (d + 8) = key ∧ w.specific thread key = block ∧
        block ≠ 0

structure ThreadsInv (s : Tlv) (client : Client) (w : Threads) : Prop where
  same : SameFixed s client w.tlv
  owned : Ownership.Valid w.tlv.live (Threads.ownedBy client.fixed
    (fun key => (s.template key).size) w.tlv.specific w.lookups)
  lookups : ∀ thread, ∀ f ∈ w.lookups thread, LookupOk s client w.tlv thread f
  /-- All but the innermost lookup wait. -/
  waits : ∀ thread, ∀ f ∈ (w.lookups thread).tail, f.waits = true

section

variable {libc : Libc} {client : Client} {s : Tlv} {w w' : Threads} {thread : Nat}

theorem ThreadsInv.owned_eq (hs : StartsWith s client) (hi : ThreadsInv s client w) :
    w.owned client = Threads.ownedBy client.fixed (fun key => (s.template key).size)
      w.tlv.specific w.lookups := by
  have hsize : (fun key => (w.tlv.template key).size) = fun key => (s.template key).size :=
    funext fun key => by rw [hi.same.template hs]
  rw [Threads.owned, hsize]

end

section

variable {fixed : List ByteRange} {size : Nat → Nat} {specific specific' : Nat → Nat → Nat}
  {lookups lookups' : Nat → List Lookup} {r r' : ByteRange} {thread key block : Nat}

theorem ownedBy_fixed : Threads.ownedBy fixed size specific lookups (.fixed r) = some r' ↔
    r ∈ fixed ∧ r = r' := by
  unfold Threads.ownedBy
  dsimp only
  by_cases hr : r ∈ fixed
  · rw [if_pos hr]
    exact ⟨fun h => ⟨hr, Option.some.inj h⟩, fun h => congrArg some h.2⟩
  · rw [if_neg hr]
    exact ⟨fun h => absurd h (by simp), fun h => absurd h.1 hr⟩

theorem ownedBy_storage : Threads.ownedBy fixed size specific lookups (.storage thread key) = some r ↔
    specific thread key ≠ 0 ∧ r = ⟨specific thread key, size key⟩ := by
  unfold Threads.ownedBy
  dsimp only
  by_cases hzero : specific thread key = 0
  · rw [if_pos hzero]
    exact ⟨fun h => absurd h (by simp), fun h => absurd hzero h.1⟩
  · rw [if_neg hzero]
    exact ⟨fun h => ⟨hzero, (Option.some.inj h).symm⟩, fun h => congrArg some h.2.symm⟩

theorem ownedBy_lookup : Threads.ownedBy fixed size specific lookups (.lookup thread)
    = (lookups thread).head?.bind Lookup.block := rfl

/-- The lookups of one thread are other ones. -/
theorem ownedBy_update {fs : List Lookup} {o : Owner} (ho : o ≠ .lookup thread) :
    Threads.ownedBy fixed size specific (Function.update lookups thread fs) o
      = Threads.ownedBy fixed size specific lookups o := by
  cases o with
  | fixed r => rfl
  | storage t k => rfl
  | lookup t =>
      have hne : t ≠ thread := fun hbad => ho (hbad ▸ rfl)
      rw [ownedBy_lookup, ownedBy_lookup, Function.update_of_ne hne]

/-- One thread has something else for a key. -/
theorem ownedBy_specific (h : ∀ t k, (t, k) ≠ (thread, key) → specific' t k = specific t k)
    {o : Owner} (ho : o ≠ .storage thread key) : Threads.ownedBy fixed size specific' lookups o
      = Threads.ownedBy fixed size specific lookups o := by
  cases o with
  | fixed r => rfl
  | lookup t => rfl
  | storage t k =>
      have hne : (t, k) ≠ (thread, key) := by
        intro hbad
        obtain ⟨rfl, rfl⟩ := Prod.mk.inj hbad
        exact ho rfl
      unfold Threads.ownedBy
      dsimp only
      rw [h t k hne]

end

section

variable {libc : Libc} {client : Client} {s : Tlv} {w w' : Threads} {thread : Nat}

theorem StartsWith.inv (hs : StartsWith s client) :
    ThreadsInv s client ⟨s, fun _ => []⟩ where
  same := SameFixed.refl s client
  owned := by
    have hfixed : ∀ o r, Threads.ownedBy client.fixed (fun key => (s.template key).size) s.specific
        (fun _ => []) o = some r → o = .fixed r ∧ r ∈ client.fixed := by
      intro o r ho
      cases o with
      | fixed r' =>
          obtain ⟨hr, rfl⟩ := ownedBy_fixed.mp ho
          exact ⟨rfl, hr⟩
      | lookup thread => cases ho
      | storage thread key => exact absurd (hs.none thread key) (ownedBy_storage.mp ho).1
    refine ⟨hs.separate, fun o r ho => hs.fixed r (hfixed o r ho).2, fun o o' r ho ho' => ?_⟩
    rw [(hfixed o r ho).1, (hfixed o' r ho').1]
  lookups := fun _ f hf => absurd hf List.not_mem_nil
  waits := fun _ f hf => absurd hf List.not_mem_nil

/-- A block that is still copied into is owned by the lookup. -/
theorem ThreadsInv.copying_owned (hi : ThreadsInv s client w) {d key block done : Nat} {t : Template}
    (hf : .copying d key block t done ∈ w.lookups thread) :
    Threads.ownedBy client.fixed (fun key => (s.template key).size) w.tlv.specific w.lookups
      (.lookup thread) = some ⟨block, t.size⟩ := by
  have hwaits := hi.waits thread
  rw [ownedBy_lookup]
  cases hlookups : w.lookups thread with
  | nil =>
      rw [hlookups] at hf
      exact absurd hf List.not_mem_nil
  | cons f rest =>
      rw [hlookups] at hf hwaits
      rcases List.mem_cons.mp hf with rfl | hrest
      · rfl
      · exact absurd (hwaits _ hrest) (by simp [Lookup.waits])

/-- A byte is written that is neither fixed nor one that a lookup has copied. -/
theorem ThreadsInv.write (hi : ThreadsInv s client w) {a : Nat} {v : UInt8}
    (hfixed : ∀ r ∈ client.fixed, a ∉ r)
    (hcopied : ∀ thread d key block t done, .copying d key block t done ∈ w.lookups thread →
      a ∉ (⟨block, done⟩ : ByteRange)) :
    ThreadsInv s client { w with tlv := { w.tlv with mem := w.tlv.mem.write a [v] } } where
  same := by
    refine ⟨fun r hr x hx => ?_, hi.same.liveImages, hi.same.usedCount⟩
    have hne : x ∉ (⟨a, 1⟩ : ByteRange) := by
      intro hbad
      obtain ⟨hlo, hhi⟩ := ByteRange.mem_mk.mp hbad
      obtain rfl : x = a := by omega
      exact hfixed r hr hx
    exact (Mem.write_of_notMem hne).trans (hi.same.mem r hr x hx)
  owned := hi.owned
  lookups := by
    intro thread f hf
    have hok := hi.lookups thread f hf
    cases f with
    | copying d key block t done =>
        obtain ⟨hd, hkey, ht, hsize, hnone, hne, hdone, hbytes⟩ := hok
        refine ⟨hd, hkey, ht, hsize, hnone, hne, hdone, fun i hi' => ?_⟩
        have hout : block + i ∉ (⟨a, 1⟩ : ByteRange) := by
          intro hbad
          obtain ⟨hlo, hhi⟩ := ByteRange.mem_mk.mp hbad
          refine hcopied thread d key block t done hf (ByteRange.mem_mk.mpr ⟨?_, ?_⟩)
          · omega
          · omega
        exact (Mem.write_of_notMem hout).trans (hbytes i hi')
    | initializing d key block ps inCall => exact hok
  waits := hi.waits

theorem LookupOk.congr {w w' : Tlv} {f : Lookup} (h : LookupOk s client w thread f)
    (hmem : w'.mem = w.mem) (hspecific : ∀ key, w'.specific thread key = w.specific thread key) :
    LookupOk s client w' thread f := by
  cases f with
  | copying d key block t done =>
      obtain ⟨hd, hkey, ht, hsize, hnone, hne, hdone, hbytes⟩ := h
      refine ⟨hd, hkey, ht, hsize, (hspecific key).trans hnone, hne, hdone, ?_⟩
      rw [hmem]
      exact hbytes
  | initializing d key block ps inCall =>
      obtain ⟨hd, hkey, hblock, hne⟩ := h
      exact ⟨hd, hkey, (hspecific key).trans hblock, hne⟩

/-- A step of one thread that writes nothing leaves the lookups of the others alone. -/
theorem ThreadsInv.ofThread (hi : ThreadsInv s client w)
    (howned : Ownership.Valid w'.tlv.live (Threads.ownedBy client.fixed
      (fun key => (s.template key).size) w'.tlv.specific w'.lookups))
    (htlv : w'.tlv.mem = w.tlv.mem ∧ w'.tlv.liveImages = w.tlv.liveImages ∧
      w'.tlv.liveImageUsedCount = w.tlv.liveImageUsedCount)
    (hothers : ∀ t, t ≠ thread → w'.lookups t = w.lookups t ∧
      ∀ key, w'.tlv.specific t key = w.tlv.specific t key)
    (hmine : ∀ f ∈ w'.lookups thread, LookupOk s client w'.tlv thread f)
    (hwaits : ∀ f ∈ (w'.lookups thread).tail, f.waits = true) : ThreadsInv s client w' where
  same := by
    refine ⟨fun r hr => ?_, htlv.2.1.trans hi.same.liveImages, htlv.2.2.trans hi.same.usedCount⟩
    rw [htlv.1]
    exact hi.same.mem r hr
  owned := howned
  lookups := by
    intro t f hf
    by_cases heq : t = thread
    · subst heq
      exact hmine f hf
    · rw [(hothers t heq).1] at hf
      exact (hi.lookups t f hf).congr htlv.1 (hothers t heq).2
  waits := by
    intro t f hf
    by_cases heq : t = thread
    · subst heq
      exact hwaits f hf
    · rw [(hothers t heq).1] at hf
      exact hi.waits t f hf

/-- The innermost lookup of a thread goes on. -/
theorem ThreadsInv.replace (hi : ThreadsInv s client w) {f f' : Lookup} {rest : List Lookup}
    (htop : w.lookups thread = f :: rest) (hblock : f'.block = f.block)
    (hok : LookupOk s client w.tlv thread f') :
    ThreadsInv s client (w.withLookups thread (f' :: rest)) := by
  refine hi.ofThread (hi.owned.congr fun o => ?_) ⟨rfl, rfl, rfl⟩
    (fun t ht => ⟨Threads.withLookups_of_ne w _ ht, fun _ => rfl⟩) ?_ ?_
  · by_cases ho : o = .lookup thread
    · rw [ho, ownedBy_lookup, ownedBy_lookup, htop, Threads.withLookups_lookups]
      exact hblock
    · exact ownedBy_update ho
  · rw [Threads.withLookups_lookups]
    intro g hg
    rcases List.mem_cons.mp hg with rfl | hrest
    · exact hok
    · exact hi.lookups thread g (by rw [htop]; exact List.mem_cons_of_mem f hrest)
  · rw [Threads.withLookups_lookups]
    intro g hg
    exact hi.waits thread g (by rw [htop]; exact hg)

/-- Code of the program runs in none but a waiting lookup. -/
theorem ThreadsInv.waits_all (hi : ThreadsInv s client w) (h : w.inProgram thread) :
    ∀ f ∈ w.lookups thread, f.waits = true := by
  have hwaits := hi.waits thread
  unfold Threads.inProgram at h
  cases hlookups : w.lookups thread with
  | nil => exact fun f hf => absurd hf List.not_mem_nil
  | cons f rest =>
      rw [hlookups] at h hwaits
      intro g hg
      rcases List.mem_cons.mp hg with rfl | hrest
      · exact h
      · exact hwaits g hrest

/-- A lookup begins: the block is new. -/
theorem ThreadsInv.miss (hlibc : libc.Sound) (hi : ThreadsInv s client w) {d key block : Nat}
    {t : Template} (hprogram : w.inProgram thread) (hd : d ∈ client.descriptors)
    (hkey : s.mem.readWord 8 (d + 8) = key) (hnone : w.tlv.specific thread key = 0)
    (ht : s.template key = t) (hsize : t.size ≠ 0)
    (hmalloc : libc.malloc w.tlv t.size = some block) :
    ThreadsInv s client
      (Threads.withLookups { w with tlv := { w.tlv with live := ⟨block, t.size⟩ :: w.tlv.live } }
        thread (.copying d key block t 0 :: w.lookups thread)) := by
  obtain ⟨hne, -, hfresh⟩ := hlibc.malloc _ _ _ hmalloc
  refine hi.ofThread ?_ ⟨rfl, rfl, rfl⟩
    (fun t ht => ⟨Threads.withLookups_of_ne _ _ ht, fun _ => rfl⟩) ?_ ?_
  · refine (hi.owned.extend hfresh).give (o := .lookup thread) List.mem_cons_self
      (Nat.pos_of_ne_zero hsize) (fun o ho => ?_) ?_ fun o ho => ownedBy_update ho
    · have hlive := (hi.owned.live o _ ho).1
      have hmem : block ∈ (⟨block, t.size⟩ : ByteRange) :=
        ByteRange.mem_mk.mpr ⟨Nat.le_refl _, by omega⟩
      exact hfresh _ hlive block hmem hmem
    · rw [ownedBy_lookup, Threads.withLookups_lookups]
      rfl
  · rw [Threads.withLookups_lookups]
    intro f hf
    rcases List.mem_cons.mp hf with rfl | hrest
    · exact ⟨hd, hkey, ht, hsize, hnone, hne, Nat.zero_le _, fun i hi => absurd hi (by omega)⟩
    · exact (hi.lookups thread f hrest).congr rfl fun _ => rfl
  · rw [Threads.withLookups_lookups]
    exact hi.waits_all hprogram

/-- Owned ranges of different owners. -/
theorem ThreadsInv.notMem (hi : ThreadsInv s client w) {o o' : Owner} {r r' : ByteRange} {a : Nat}
    (ho : Threads.ownedBy client.fixed (fun key => (s.template key).size) w.tlv.specific w.lookups o
      = some r)
    (ho' : Threads.ownedBy client.fixed (fun key => (s.template key).size) w.tlv.specific w.lookups o'
      = some r') (hne : o ≠ o') (ha : a ∈ r) : a ∉ r' :=
  hi.owned.apart ho ho' hne a ha

/-- A byte more of the template is in the block. -/
theorem ThreadsInv.copy (hs : StartsWith s client) (hi : ThreadsInv s client w)
    {d key block done : Nat} {t : Template} {rest : List Lookup}
    (htop : w.lookups thread = .copying d key block t done :: rest) (hlt : done < t.size) :
    ThreadsInv s client
      (Threads.withLookups { w with tlv := { w.tlv with
          mem := w.tlv.mem.write (block + done) [w.tlv.mem (t.start + done)] } }
        thread (.copying d key block t (done + 1) :: rest)) := by
  have hf : .copying d key block t done ∈ w.lookups thread := by
    rw [htop]
    exact List.mem_cons_self
  have hmine := hi.copying_owned hf
  have ha : block + done ∈ (⟨block, t.size⟩ : ByteRange) :=
    ByteRange.mem_mk.mpr ⟨by omega, by omega⟩
  obtain ⟨hd, hkey, ht, hsize, hnone, hne, hdone, hbytes⟩ := hi.lookups thread _ hf
  have htemplate : w.tlv.mem (t.start + done) = s.mem (t.start + done) := by
    subst ht
    exact hi.same.covered (hs.template_covered hsize) _ (ByteRange.mem_mk.mpr ⟨by omega, by omega⟩)
  have hwrite : ThreadsInv s client { w with tlv := { w.tlv with
      mem := w.tlv.mem.write (block + done) [w.tlv.mem (t.start + done)] } } := by
    refine hi.write (fun r hr => ?_) fun t' d' key' block' tmpl' done' hf' hbad => ?_
    · exact hi.notMem hmine (ownedBy_fixed.mpr ⟨hr, rfl⟩) (by simp) ha
    · by_cases heq : t' = thread
      · subst heq
        -- a thread copies into one block at a time, and the byte is the next one
        have hwaits := hi.waits t'
        rw [htop] at hf' hwaits
        rcases List.mem_cons.mp hf' with heq | hrest
        · obtain ⟨rfl, rfl, rfl, rfl, rfl⟩ := Lookup.copying.inj heq
          have hhi := (ByteRange.mem_mk.mp hbad).2
          omega
        · exact absurd (hwaits _ hrest) (by simp [Lookup.waits])
      · have hdone' := (hi.lookups t' _ hf').2.2.2.2.2.2.1
        refine hi.notMem hmine (hi.copying_owned hf') (fun h => heq (Owner.lookup.inj h).symm) ha ?_
        exact ByteRange.within_mk (Nat.le_refl _) (by omega) _ hbad
  refine hwrite.replace htop rfl ⟨hd, hkey, ht, hsize, hnone, hne, hlt, fun i hi' => ?_⟩
  by_cases heq : i = done
  · rw [heq, ← htemplate]
    exact Mem.write_byte _ _ _
  · have hout : block + i ∉ (⟨block + done, 1⟩ : ByteRange) := fun hbad => by
      obtain ⟨hlo, hhi⟩ := ByteRange.mem_mk.mp hbad
      omega
    exact (Mem.write_of_notMem hout).trans (hbytes i (by omega))

/-- The block of a lookup is the storage of the thread. -/
theorem ThreadsInv.publish (hi : ThreadsInv s client w) {d key block : Nat} {t : Template}
    {rest : List Lookup} (htop : w.lookups thread = .copying d key block t t.size :: rest)
    (pointers : List Nat) :
    ThreadsInv s client (Threads.withLookups { w with tlv := w.tlv.setSpecific thread key block }
      thread (.initializing d key block pointers false :: rest)) := by
  have hf : .copying d key block t t.size ∈ w.lookups thread := by
    rw [htop]
    exact List.mem_cons_self
  obtain ⟨hd, hkey, ht, hsize, hnone, hne, -, -⟩ := hi.lookups thread _ hf
  have hset : (w.tlv.setSpecific thread key block).specific thread key = block := if_pos ⟨rfl, rfl⟩
  refine hi.ofThread ?_ ⟨rfl, rfl, rfl⟩ (fun t ht => ⟨Threads.withLookups_of_ne _ _ ht, fun _ =>
    if_neg fun hbad => ht hbad.1⟩) ?_ ?_
  · refine @Ownership.Valid.pass _ _ _ _ _ (.storage thread key) _ hi.owned (hi.copying_owned hf)
      ?_ ?_ fun o ho ho' => ?_
    · rw [ownedBy_lookup, Threads.withLookups_lookups]
      rfl
    · refine ownedBy_storage.mpr ⟨hset.trans_ne hne, ?_⟩
      rw [← ht]
      exact congrArg (ByteRange.mk · _) hset.symm
    · exact (ownedBy_update ho).trans (ownedBy_specific (fun t k hne => if_neg fun hbad =>
        hne (Prod.mk.injEq .. ▸ hbad)) ho')
  · rw [Threads.withLookups_lookups]
    intro f hf
    rcases List.mem_cons.mp hf with rfl | hrest
    · exact ⟨hd, hkey, hset, hne⟩
    · have hwait := hi.waits thread f (by rw [htop]; exact hrest)
      have hok := hi.lookups thread f (by rw [htop]; exact List.mem_cons_of_mem _ hrest)
      cases f with
      | copying d' key' block' t' done' => exact absurd hwait (by simp [Lookup.waits])
      | initializing d' key' block' ps inCall =>
          obtain ⟨hd', hkey', hblock', hne'⟩ := hok
          have hkeys : key' ≠ key := by
            rintro rfl
            exact hne' (hblock'.symm.trans hnone)
          exact ⟨hd', hkey', (if_neg fun hbad => hkeys hbad.2).trans hblock', hne'⟩
  · rw [Threads.withLookups_lookups]
    intro f hf
    exact hi.waits thread f (by rw [htop]; exact hf)

/-- A lookup is done. -/
theorem ThreadsInv.finish (hi : ThreadsInv s client w) {d key block : Nat} {inCall : Bool}
    {ps : List Nat} {rest : List Lookup}
    (htop : w.lookups thread = .initializing d key block ps inCall :: rest) :
    ThreadsInv s client (w.withLookups thread rest) := by
  have hwaits : ∀ f ∈ rest, f.waits = true := fun f hf => hi.waits thread f (by rw [htop]; exact hf)
  refine hi.ofThread (hi.owned.congr fun o => ?_) ⟨rfl, rfl, rfl⟩
    (fun t ht => ⟨Threads.withLookups_of_ne w _ ht, fun _ => rfl⟩) ?_ ?_
  · by_cases ho : o = .lookup thread
    · rw [ho, ownedBy_lookup, ownedBy_lookup, htop, Threads.withLookups_lookups]
      cases rest with
      | nil => rfl
      | cons f rest =>
          have hwait := hwaits f List.mem_cons_self
          cases f with
          | copying d' key' block' t' done' => exact absurd hwait (by simp [Lookup.waits])
          | initializing d' key' block' ps' inCall' => rfl
    · exact ownedBy_update ho
  · rw [Threads.withLookups_lookups]
    intro f hf
    exact hi.lookups thread f (by rw [htop]; exact List.mem_cons_of_mem _ hf)
  · rw [Threads.withLookups_lookups]
    exact fun f hf => hwaits f (List.mem_of_mem_tail hf)

/-- A thread without lookups gives up a storage. -/
theorem ThreadsInv.exit (hi : ThreadsInv s client w) {key : Nat} (hdone : w.lookups thread = [])
    (hblock : w.tlv.specific thread key ≠ 0) :
    ThreadsInv s client { w with tlv := { (w.tlv.setSpecific thread key 0) with
      live := w.tlv.live.filter fun s => s.start != w.tlv.specific thread key } } := by
  have hmine : Threads.ownedBy client.fixed (fun key => (s.template key).size) w.tlv.specific
      w.lookups (.storage thread key)
        = some ⟨w.tlv.specific thread key, (s.template key).size⟩ := ownedBy_storage.mpr ⟨hblock, rfl⟩
  have hset : (w.tlv.setSpecific thread key 0).specific thread key = 0 := if_pos ⟨rfl, rfl⟩
  have hother : ∀ t k, (t, k) ≠ (thread, key) →
      (w.tlv.setSpecific thread key 0).specific t k = w.tlv.specific t k := fun t k hne =>
    if_neg fun hbad => hne (Prod.ext hbad.1 hbad.2)
  have hnone : ∀ o, Threads.ownedBy client.fixed (fun key => (s.template key).size)
      (w.tlv.setSpecific thread key 0).specific w.lookups o
        ≠ some ⟨w.tlv.specific thread key, (s.template key).size⟩ := by
    intro o ho
    by_cases heq : o = .storage thread key
    · rw [heq] at ho
      exact (ownedBy_storage.mp ho).1 hset
    · rw [ownedBy_specific hother heq] at ho
      exact heq (hi.owned.once _ _ _ ho hmine)
  obtain ⟨hlive, hpos⟩ := hi.owned.live _ _ hmine
  have hdrop : Ownership.Valid w.tlv.live (Threads.ownedBy client.fixed
      (fun key => (s.template key).size) (w.tlv.setSpecific thread key 0).specific w.lookups) := by
    refine hi.owned.drop (o := .storage thread key) ?_ fun o ho => ownedBy_specific hother ho
    unfold Threads.ownedBy
    dsimp only
    rw [if_pos hset]
  refine hi.ofThread (hdrop.release hlive hpos hnone) ⟨rfl, rfl, rfl⟩ (fun t ht => ⟨rfl, fun k =>
    hother t k fun hbad => ht (Prod.mk.inj hbad).1⟩) (fun f hf => ?_) (hi.waits thread)
  rw [show w.lookups thread = [] from hdone] at hf
  exact absurd hf List.not_mem_nil

/-- **Every step keeps the invariant.** -/
theorem ThreadsInv.step (hlibc : libc.Sound) (hs : StartsWith s client) {e : Nat × ThreadEvent}
    (hi : ThreadsInv s client w) (h : ThreadStep libc client w e w') : ThreadsInv s client w' := by
  cases h with
  | hit hprogram hd hblock => exact hi
  | absent hprogram hd hblock hsize => exact hi
  | miss hprogram hd hkey hblock ht hsize hmalloc =>
      have hkey' := (hi.same.descriptor hs hd).1.symm.trans hkey
      have ht' := (hi.same.template hs _).symm.trans ht
      exact hi.miss hlibc hprogram hd hkey' hblock ht' hsize hmalloc
  | copy htop hlt => exact hi.copy hs htop hlt
  | publish htop => exact hi.publish htop _
  | @call thread d key block p ps rest htop =>
      have hf := hi.lookups thread _ (by rw [htop]; exact List.mem_cons_self)
      have hok : LookupOk s client w.tlv thread (.initializing d key block ps true) := hf
      have hi' : ThreadsInv s client
          (w.withLookups thread (.initializing d key block ps true :: rest)) :=
        hi.replace htop rfl hok
      exact hi'.ofThread hi'.owned ⟨rfl, rfl, rfl⟩ (fun _ _ => ⟨rfl, fun _ => rfl⟩)
        (fun f hf => (hi'.lookups thread f hf).congr rfl fun _ => rfl) (hi'.waits thread)
  | @ret thread d key block ps rest htop =>
      have hf := hi.lookups thread _ (by rw [htop]; exact List.mem_cons_self)
      have hok : LookupOk s client w.tlv thread (.initializing d key block ps false) := hf
      exact hi.replace htop rfl hok
  | finish htop => exact hi.finish htop
  | store hprogram hallowed =>
      rw [hi.owned_eq hs] at hallowed
      refine hi.write (fun r hr hbad => ?_) fun t d key block tmpl done hf hbad => ?_
      · obtain ⟨t, k, heq⟩ := hallowed (.fixed r) r (ownedBy_fixed.mpr ⟨hr, rfl⟩) hbad
        cases heq
      · have hdone := (hi.lookups t _ hf).2.2.2.2.2.2.1
        obtain ⟨t', k, heq⟩ := hallowed (.lookup t) _ (hi.copying_owned hf)
          (ByteRange.within_mk (Nat.le_refl _) (by omega) _ hbad)
        cases heq
  | @malloc thread size block hprogram hmalloc =>
      exact hi.ofThread (hi.owned.extend (hlibc.malloc _ _ _ hmalloc).2.2)
        ⟨rfl, rfl, rfl⟩ (fun _ _ => ⟨rfl, fun _ => rfl⟩)
        (fun f hf => (hi.lookups thread f hf).congr rfl fun _ => rfl) (hi.waits thread)
  | @free thread r hprogram hr hpos hown =>
      rw [hi.owned_eq hs] at hown
      exact hi.ofThread (hi.owned.release hr hpos hown)
        ⟨rfl, rfl, rfl⟩ (fun _ _ => ⟨rfl, fun _ => rfl⟩)
        (fun f hf => (hi.lookups thread f hf).congr rfl fun _ => rfl) (hi.waits thread)
  | exit hdone hblock => exact hi.exit hdone hblock

end

end Dynld
