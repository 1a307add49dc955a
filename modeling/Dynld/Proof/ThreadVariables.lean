import Dynld.Proof.ThreadRuns

/-!
# The variables of all threads

What the threads are for is a much simpler machine: every thread has its own copy of the
variables of each image, which starts as the template and is changed by stores into it.
Whatever can be told of a run of the threads is a run of that machine. And a lookup by the
code, with nothing else going on, is a run of the threads.
-/

namespace Dynld

/-! ## The machine with the copies -/

/-- The copy that a thread has of the variables of an image. -/
structure Variables where
  address : Nat
  bytes : List UInt8
  deriving DecidableEq, Repr

/-- The images, as the program sees them. -/
structure VariableSpec where
  /-- The bytes that a copy starts with: there are none without an image. -/
  template : Nat → List UInt8
  /-- The key of a descriptor, and the offset. -/
  descriptor : Nat → Nat × Nat

/-- A byte is written, to a copy if it is there. -/
def Variables.store (a : Nat) (v : UInt8) (x : Variables) : Variables :=
  if x.address ≤ a then { x with bytes := x.bytes.set (a - x.address) v } else x

/-- The bytes of a copy. -/
def Variables.range (x : Variables) : ByteRange := ⟨x.address, x.bytes.length⟩

/-- One step, of the machine that has the copies of all threads and nothing else. -/
inductive VariableStep (spec : VariableSpec) :
    (Nat → Nat → Option Variables) → Nat × ThreadEvent → (Nat → Nat → Option Variables) → Prop where
  | internal {v : Nat → Nat → Option Variables} {thread : Nat} :
      VariableStep spec v (thread, .internal) v
  | returned {v : Nat → Nat → Option Variables} {thread d : Nat} {x : Variables}
      (hx : v thread (spec.descriptor d).1 = some x) :
      VariableStep spec v (thread, .returned d (ptrAdd x.address (spec.descriptor d).2)) v
  | absent {v : Nat → Nat → Option Variables} {thread d : Nat}
      (hnone : v thread (spec.descriptor d).1 = none)
      (htemplate : spec.template (spec.descriptor d).1 = []) :
      VariableStep spec v (thread, .returned d (ptrAdd 0 (spec.descriptor d).2)) v
  | created {v v' : Nat → Nat → Option Variables} {thread key : Nat} {x : Variables}
      (hnone : v thread key = none) (hx : x.address ≠ 0 ∧ x.bytes = spec.template key)
      (hapart : ∀ t k y, v t k = some y → ByteRange.Apart x.range y.range)
      (hnew : v' thread key = some x) (hsame : ∀ t k, (t, k) ≠ (thread, key) → v' t k = v t k) :
      VariableStep spec v (thread, .created key) v'
  | dropped {v v' : Nat → Nat → Option Variables} {thread key : Nat} {x : Variables}
      (hx : v thread key = some x) (hnone : v' thread key = none)
      (hsame : ∀ t k, (t, k) ≠ (thread, key) → v' t k = v t k) :
      VariableStep spec v (thread, .dropped key) v'
  | stored {v : Nat → Nat → Option Variables} {thread a : Nat} {b : UInt8} :
      VariableStep spec v (thread, .stored a b) fun t k => (v t k).map (Variables.store a b)

section

variable {libc : Libc} {client : Client} {s : Tlv} {w w' : Threads} {thread : Nat}

/-! ## The copies of all threads -/

/-- What the program was built with, as it is when the threads start. -/
def Tlv.spec (s : Tlv) : VariableSpec where
  template := fun key => s.mem.read (s.template key).start (s.template key).size
  descriptor := fun d => (s.mem.readWord 8 (d + 8), s.mem.readWord 8 (d + 16))

theorem spec_template (s : Tlv) (key : Nat) :
    s.spec.template key = s.mem.read (s.template key).start (s.template key).size := rfl

theorem spec_descriptor (s : Tlv) (d : Nat) :
    s.spec.descriptor d = (s.mem.readWord 8 (d + 8), s.mem.readWord 8 (d + 16)) := rfl

/-- The copy of one thread, in this memory. -/
def variablesAt (s : Tlv) (mem : Mem) (specific : Nat → Nat → Nat) (thread key : Nat) :
    Option Variables :=
  if specific thread key = 0 then none
  else some ⟨specific thread key, mem.read (specific thread key) (s.template key).size⟩

def Threads.variables (w : Threads) (s : Tlv) : Nat → Nat → Option Variables :=
  variablesAt s w.tlv.mem w.tlv.specific

theorem variablesAt_eq_some {mem : Mem} {specific : Nat → Nat → Nat} {key : Nat} {x : Variables} :
    variablesAt s mem specific thread key = some x ↔ specific thread key ≠ 0 ∧
      x = ⟨specific thread key, mem.read (specific thread key) (s.template key).size⟩ := by
  unfold variablesAt
  by_cases hzero : specific thread key = 0
  · rw [if_pos hzero]
    exact ⟨fun h => absurd h (by simp), fun h => absurd hzero h.1⟩
  · rw [if_neg hzero]
    exact ⟨fun h => ⟨hzero, (Option.some.inj h).symm⟩, fun h => congrArg some h.2.symm⟩

/-- A byte that is written is written to each copy that has it. -/
theorem variablesAt_write (s : Tlv) (mem : Mem) (specific : Nat → Nat → Nat) (a : Nat) (v : UInt8)
    (thread key : Nat) : variablesAt s (mem.write a [v]) specific thread key
      = (variablesAt s mem specific thread key).map (Variables.store a v) := by
  unfold variablesAt
  by_cases hzero : specific thread key = 0
  · rw [if_pos hzero, if_pos hzero]
    rfl
  · rw [if_neg hzero, if_neg hzero, Option.map_some, Variables.store]
    by_cases hle : specific thread key ≤ a
    · rw [if_pos hle, Mem.read_write_byte hle]
    · have hkeep : (mem.write a [v]).read (specific thread key) (s.template key).size
          = mem.read (specific thread key) (s.template key).size := by
        refine Mem.read_congr fun x hx => Mem.write_of_notMem fun hbad => hle ?_
        have hlo := (ByteRange.mem_mk.mp hx).1
        have hhi : x < a + 1 := (ByteRange.mem_mk.mp hbad).2
        omega
      rw [if_neg hle, hkeep]

/-- Other bytes make no difference. -/
theorem variablesAt_congr {mem mem' : Mem} {specific : Nat → Nat → Nat} {key : Nat}
    (h : specific thread key ≠ 0 →
      ∀ x ∈ (⟨specific thread key, (s.template key).size⟩ : ByteRange), mem' x = mem x) :
    variablesAt s mem' specific thread key = variablesAt s mem specific thread key := by
  unfold variablesAt
  by_cases hzero : specific thread key = 0
  · rw [if_pos hzero, if_pos hzero]
  · rw [if_neg hzero, if_neg hzero, Mem.read_congr (h hzero)]

/-- A lookup returns an address in the copy of the thread. -/
theorem variables_returned {d key block : Nat} (hs : StartsWith s client) (hi : ThreadsInv s client w)
    (hd : d ∈ client.descriptors) (hkey : s.mem.readWord 8 (d + 8) = key)
    (hblock : w.tlv.specific thread key = block) (hne : block ≠ 0) :
    VariableStep s.spec (w.variables s)
      (thread, .returned d (ptrAdd block (w.tlv.mem.readWord 8 (d + 16)))) (w.variables s) := by
  subst hkey hblock
  have hx : w.variables s thread (s.spec.descriptor d).1 = some
      ⟨w.tlv.specific thread (s.mem.readWord 8 (d + 8)), w.tlv.mem.read
        (w.tlv.specific thread (s.mem.readWord 8 (d + 8)))
        (s.template (s.mem.readWord 8 (d + 8))).size⟩ := variablesAt_eq_some.mpr ⟨hne, rfl⟩
  have hstep := VariableStep.returned hx
  rw [spec_descriptor] at hstep
  rw [(hi.same.descriptor hs hd).2]
  exact hstep

/-- **Every step is one of the machine with the copies.** -/
theorem ThreadsInv.simulates (hs : StartsWith s client) (hi : ThreadsInv s client w)
    {e : Nat × ThreadEvent} (h : ThreadStep libc client w e w') :
    VariableStep s.spec (w.variables s) e (w'.variables s) := by
  cases h with
  | @hit thread d hprogram hd hblock =>
      have hkey := (hi.same.descriptor hs hd).1
      exact variables_returned hs hi hd hkey.symm rfl hblock
  | @absent thread d hprogram hd hblock hsize =>
      obtain ⟨hkey, hoffset⟩ := hi.same.descriptor hs hd
      rw [hkey] at hblock hsize
      rw [hi.same.template hs] at hsize
      have htemplate : s.spec.template (s.spec.descriptor d).1 = [] := by
        rw [spec_descriptor, spec_template, hsize]
        rfl
      have hnone : w.variables s thread (s.spec.descriptor d).1 = none := if_pos hblock
      have hstep := VariableStep.absent hnone htemplate
      rw [spec_descriptor] at hstep
      rw [hoffset]
      exact hstep
  | miss hprogram hd hkey hblock ht hsize hmalloc => exact VariableStep.internal
  | @copy thread d key block done t rest htop hlt =>
      have hmine := hi.copying_owned (htop.symm ▸ List.mem_cons_self)
      -- the byte goes to a block that no thread has yet
      have hsame : variablesAt s (w.tlv.mem.write (block + done) [w.tlv.mem (t.start + done)])
          w.tlv.specific = w.variables s := by
        refine funext fun t' => funext fun k => variablesAt_congr fun hne x hx => ?_
        refine Mem.write_of_notMem fun hbad => ?_
        have hin : ByteRange.Within ⟨block + done, 1⟩ ⟨block, t.size⟩ :=
          ByteRange.within_mk (Nat.le_add_right _ _) (by omega)
        exact hi.notMem hmine (ownedBy_storage.mpr ⟨hne, rfl⟩) (by simp) (hin x hbad) hx
      have hstep : VariableStep s.spec (w.variables s) (thread, .internal) (variablesAt s
          (w.tlv.mem.write (block + done) [w.tlv.mem (t.start + done)]) w.tlv.specific) := by
        rw [hsame]
        exact VariableStep.internal
      exact hstep
  | @publish thread d key block t rest htop =>
      have hf : .copying d key block t t.size ∈ w.lookups thread := by
        rw [htop]
        exact List.mem_cons_self
      obtain ⟨hd, hkey, ht, hsize, hnone, hne, -, hbytes⟩ := hi.lookups thread _ hf
      have hmine := hi.copying_owned hf
      have hset : (w.tlv.setSpecific thread key block).specific thread key = block :=
        if_pos ⟨rfl, rfl⟩
      -- all of the template has been copied
      refine VariableStep.created (x := ⟨block, w.tlv.mem.read block t.size⟩) (if_pos hnone)
        ⟨hne, ?_⟩ (fun t' k y hy => ?_) ?_ fun t' k hne => ?_
      · rw [Tlv.spec]
        dsimp only
        rw [ht]
        exact List.map_congr_left fun i hi => hbytes i (List.mem_range.mp hi)
      · obtain ⟨hy', rfl⟩ := variablesAt_eq_some.mp hy
        have hapart := hi.owned.apart hmine (ownedBy_storage.mpr ⟨hy', rfl⟩) (by simp)
        unfold Variables.range
        rw [Mem.length_read, Mem.length_read]
        exact hapart
      · refine variablesAt_eq_some.mpr ⟨hset.trans_ne hne, ?_⟩
        rw [Threads.withLookups_tlv, hset, ht]
        rfl
      · have hsame : (w.tlv.setSpecific thread key block).specific t' k = w.tlv.specific t' k :=
          if_neg fun hbad => hne (Prod.ext hbad.1 hbad.2)
        unfold Threads.variables variablesAt
        rw [Threads.withLookups_tlv, hsame]
        rfl
  | call htop => exact VariableStep.internal
  | ret htop => exact VariableStep.internal
  | @finish thread d key block rest htop =>
      obtain ⟨hd, hkey, hblock, hne⟩ := hi.lookups thread _ (by rw [htop]; exact List.mem_cons_self)
      exact variables_returned hs hi hd hkey hblock hne
  | @store thread a v hprogram hallowed =>
      have hsame : variablesAt s (w.tlv.mem.write a [v]) w.tlv.specific
          = fun t k => (w.variables s t k).map (Variables.store a v) :=
        funext fun t => funext fun k => variablesAt_write s w.tlv.mem w.tlv.specific a v t k
      have hstep : VariableStep s.spec (w.variables s) (thread, .stored a v)
          (variablesAt s (w.tlv.mem.write a [v]) w.tlv.specific) := by
        rw [hsame]
        exact VariableStep.stored
      exact hstep
  | malloc hprogram hmalloc => exact VariableStep.internal
  | free hprogram hr hpos hown => exact VariableStep.internal
  | @exit thread key hdone hblock =>
      have hset : (w.tlv.setSpecific thread key 0).specific thread key = 0 := if_pos ⟨rfl, rfl⟩
      refine VariableStep.dropped (variablesAt_eq_some.mpr ⟨hblock, rfl⟩) (if_pos hset)
        fun t' k hne => ?_
      have hsame : (w.tlv.setSpecific thread key 0).specific t' k = w.tlv.specific t' k :=
        if_neg fun hbad => hne (Prod.ext hbad.1 hbad.2)
      unfold Threads.variables variablesAt
      dsimp only
      rw [hsame]
      rfl

/-- **Any number of threads, in any order**: the storages share no byte with one another or with
the images, and all that can be told of a run is a run of the machine where each thread has its
own copies. -/
theorem threads_refine (hlibc : libc.Sound) (hs : StartsWith s client)
    {events : List (Nat × ThreadEvent)}
    (h : System.Run (ThreadStep libc client) ⟨s, fun _ => []⟩ events w) :
    System.Run (VariableStep s.spec) (fun _ _ => none) events (w.variables s) ∧
      Ownership.Valid w.tlv.live (w.owned client) := by
  have hkeep : ∀ w e w', ThreadsInv s client w → ThreadStep libc client w e w' →
      ThreadsInv s client w' := fun _ _ _ hi hstep => hi.step hlibc hs hstep
  have hstart : (Threads.mk s fun _ => []).variables s = fun _ _ => none :=
    funext fun t => funext fun k => if_pos (hs.none t k)
  have hinv : ThreadsInv s client w := h.keeps hkeep hs.inv
  have hrun := h.simulates hkeep (fun _ _ _ hi hstep => hi.simulates hs hstep) hs.inv
  rw [hstart] at hrun
  rw [hinv.owned_eq hs]
  exact ⟨hrun, hinv.owned⟩

/-! ## A whole lookup -/

/-- One byte more is copied. -/
theorem copy_succ {m : Mem} {src dst n size : Nat}
    (hapart : ByteRange.Apart ⟨dst, size⟩ ⟨src, size⟩) (hlt : n < size) :
    (m.copy src dst n).write (dst + n) [m.copy src dst n (src + n)] = m.copy src dst (n + 1) := by
  -- what was copied so far is not over the source
  have hsrc : src + n ∉ (⟨dst, n⟩ : ByteRange) := fun hbad =>
    hapart (src + n) (ByteRange.within_mk (Nat.le_refl _) (by omega) _ hbad)
      (ByteRange.mem_mk.mpr ⟨by omega, by omega⟩)
  rw [Mem.copy_of_notMem hsrc]
  funext x
  by_cases hx : x = dst + n
  · subst hx
    rw [Mem.write_byte, Mem.copy_of_lt (Nat.lt_succ_self n)]
  · have hout : x ∉ (⟨dst + n, 1⟩ : ByteRange) := fun hbad => hx (by
      obtain ⟨hlo, hhi⟩ := ByteRange.mem_mk.mp hbad
      omega)
    refine (Mem.write_of_notMem hout).trans ?_
    by_cases hin : x ∈ (⟨dst, n⟩ : ByteRange)
    · obtain ⟨i, rfl⟩ := Nat.exists_eq_add_of_le (ByteRange.mem_mk.mp hin).1
      have hi : i < n := by
        have hhi := (ByteRange.mem_mk.mp hin).2
        omega
      rw [Mem.copy_of_lt hi, Mem.copy_of_lt (Nat.lt_succ_of_lt hi)]
    · have hin' : x ∉ (⟨dst, n + 1⟩ : ByteRange) := fun hbad => hin (by
        obtain ⟨hlo, hhi⟩ := ByteRange.mem_mk.mp hbad
        exact ByteRange.mem_mk.mpr ⟨hlo, by omega⟩)
      rw [Mem.copy_of_notMem hin, Mem.copy_of_notMem hin']

/-- The thread goes on with its innermost lookup. -/
theorem withLookups_update (tlv : Tlv) (lookups : Nat → List Lookup) (thread : Nat)
    (fs fs' : List Lookup) : (Threads.mk tlv (Function.update lookups thread fs)).withLookups thread fs'
      = ⟨tlv, Function.update lookups thread fs'⟩ := by
  unfold Threads.withLookups
  rw [Function.update_idem]

section

variable {lookups : Nat → List Lookup} {rest : List Lookup} {d key block : Nat}

/-- The lookup copies that much of the template. -/
theorem copies_run (libc : Libc) (client : Client) {t : Template} (tlv : Tlv)
    (hapart : ByteRange.Apart ⟨block, t.size⟩ ⟨t.start, t.size⟩) : ∀ n, n ≤ t.size →
    System.Run (ThreadStep libc client)
      ⟨tlv, Function.update lookups thread (.copying d key block t 0 :: rest)⟩
      (List.replicate n (thread, .internal))
      ⟨{ tlv with mem := tlv.mem.copy t.start block n },
        Function.update lookups thread (.copying d key block t n :: rest)⟩
  | 0, _ => by
      have hmem : tlv.mem.copy t.start block 0 = tlv.mem :=
        funext fun x => if_neg fun hbad => by omega
      rw [hmem]
      exact System.Run.nil
  | n + 1, hle => by
      have ih := copies_run libc client tlv hapart n (Nat.le_of_succ_le hle)
      have hstep := @ThreadStep.copy libc client ⟨{ tlv with mem := tlv.mem.copy t.start block n },
        Function.update lookups thread (.copying d key block t n :: rest)⟩ thread d key block n t rest
        (Function.update_self _ _ _) hle
      dsimp only at hstep
      rw [withLookups_update, copy_succ hapart hle] at hstep
      rw [List.replicate_succ']
      exact ih.snoc hstep

/-- Initializers that write nothing are called one after the other. -/
theorem calls_run (client : Client) (hquiet : ∀ func m, libc.call thread func m = m) :
    ∀ (ps : List Nat) (tlv : Tlv), ∃ n, System.Run (ThreadStep libc client)
      ⟨tlv, Function.update lookups thread (.initializing d key block ps false :: rest)⟩
      (List.replicate n (thread, .internal))
      ⟨tlv.afterCalls libc thread ps,
        Function.update lookups thread (.initializing d key block [] false :: rest)⟩
  | [], tlv => ⟨0, System.Run.nil⟩
  | p :: ps, tlv => by
      have hcall : tlv.afterCall libc thread (tlv.mem.readWord 8 p)
          = { tlv with called := tlv.called ++ [(thread, tlv.mem.readWord 8 p)] } := by
        unfold Tlv.afterCall
        rw [hquiet]
      have hfirst := @ThreadStep.call libc client
        ⟨tlv, Function.update lookups thread (.initializing d key block (p :: ps) false :: rest)⟩
        thread d key block p ps rest (Function.update_self _ _ _)
      have hsecond := @ThreadStep.ret libc client ⟨tlv.afterCall libc thread (tlv.mem.readWord 8 p),
        Function.update lookups thread (.initializing d key block ps true :: rest)⟩
        thread d key block ps rest (Function.update_self _ _ _)
      dsimp only at hfirst
      rw [withLookups_update, ← hcall] at hfirst
      rw [withLookups_update] at hsecond
      obtain ⟨n, hrest⟩ := calls_run client hquiet ps
        (tlv.afterCall libc thread (tlv.mem.readWord 8 p))
      exact ⟨n + 2, (hrest.cons hsecond).cons hfirst⟩

end

/-- The initializers of an image are the same throughout a run. -/
theorem SameFixed.pointers {w : Tlv} (h : SameFixed s client w) (hs : StartsWith s client) {key : Nat}
    (hmh : tlvGetImageForKey s key ≠ 0) : imagePointers w.mem (tlvGetImageForKey w key)
      = imagePointers s.mem (tlvGetImageForKey s key) := by
  obtain ⟨header, hm, hcovers⟩ := (hs.images key hmh).header
  rw [h.image hs, imagePointers_congr hm (h.covered hcovers)]

/-- A fixed range is in use. -/
theorem ThreadsInv.covered_inUse (hi : ThreadsInv s client w) {range : ByteRange}
    (h : client.Covers range) : ∀ x ∈ range, w.tlv.InUse x := by
  obtain ⟨r, hr, hin⟩ := h
  exact fun x hx => ⟨r, (hi.owned.live _ _ (ownedBy_fixed.mpr ⟨hr, rfl⟩)).1, hin x hx⟩

/-- A new block is not where the template is. -/
theorem ThreadsInv.template_apart (hlibc : libc.Sound) (hs : StartsWith s client)
    (hi : ThreadsInv s client w) {key block : Nat} (hsize : (w.tlv.template key).size ≠ 0)
    (hmalloc : libc.malloc w.tlv (w.tlv.template key).size = some block) :
    ByteRange.Apart ⟨block, (w.tlv.template key).size⟩
      ⟨(w.tlv.template key).start, (w.tlv.template key).size⟩ := by
  intro x hx hbad
  rw [hi.same.template hs] at hsize hbad
  obtain ⟨r, hr, hxr⟩ := hi.covered_inUse (hs.template_covered hsize) x hbad
  exact (hlibc.malloc _ _ _ hmalloc).2.2 r hr x hx hxr

/-- The steps of a lookup that gets a block. -/
theorem lookup_run (hlibc : libc.Sound) (hs : StartsWith s client) (hi : ThreadsInv s client w)
    (hprogram : w.inProgram thread) {d key block : Nat} (hd : d ∈ client.descriptors)
    (hquiet : ∀ func m, libc.call thread func m = m) (hkey : w.tlv.mem.readWord 8 (d + 8) = key)
    (hnone : w.tlv.specific thread key = 0) (hmh : tlvGetImageForKey w.tlv key ≠ 0)
    (hsize : (w.tlv.template key).size ≠ 0)
    (hmalloc : libc.malloc w.tlv (w.tlv.template key).size = some block) {s' : Tlv}
    (hs' : s' = (w.tlv.withStorage thread key block (w.tlv.template key)).afterCalls libc thread
      (imagePointers w.tlv.mem (tlvGetImageForKey w.tlv key))) :
    ∃ m n, System.Run (ThreadStep libc client) w
      (List.replicate m (thread, .internal) ++ [(thread, .created key)] ++
        List.replicate n (thread, .internal) ++
          [(thread, .returned d (ptrAdd block (s'.mem.readWord 8 (d + 16))))]) ⟨s', w.lookups⟩ := by
  have hmiss : ThreadStep libc client w (thread, .internal)
      ⟨{ w.tlv with live := ⟨block, (w.tlv.template key).size⟩ :: w.tlv.live }, Function.update
        w.lookups thread (.copying d key block (w.tlv.template key) 0 :: w.lookups thread)⟩ :=
    ThreadStep.miss hprogram hd hkey hnone rfl hsize hmalloc
  have hcopies := @copies_run thread w.lookups (w.lookups thread) d key block libc client _
    { w.tlv with live := ⟨block, (w.tlv.template key).size⟩ :: w.tlv.live }
    (hi.template_apart hlibc hs hsize hmalloc) _ (Nat.le_refl _)
  have hcopied : System.Run (ThreadStep libc client) w
      ((thread, .internal) :: List.replicate (w.tlv.template key).size (thread, .internal))
      ⟨{ w.tlv with
          mem := w.tlv.mem.copy (w.tlv.template key).start block (w.tlv.template key).size
          live := ⟨block, (w.tlv.template key).size⟩ :: w.tlv.live },
        Function.update w.lookups thread
          (.copying d key block (w.tlv.template key) (w.tlv.template key).size
            :: w.lookups thread)⟩ := hcopies.cons hmiss
  have hkeep : ∀ w e w', ThreadsInv s client w → ThreadStep libc client w e w' →
      ThreadsInv s client w' := fun _ _ _ hi hstep => hi.step hlibc hs hstep
  have hi' := hcopied.keeps hkeep hi
  have hpublish := @ThreadStep.publish libc client
    ⟨{ w.tlv with
        mem := w.tlv.mem.copy (w.tlv.template key).start block (w.tlv.template key).size
        live := ⟨block, (w.tlv.template key).size⟩ :: w.tlv.live },
      Function.update w.lookups thread
        (.copying d key block (w.tlv.template key) (w.tlv.template key).size :: w.lookups thread)⟩
    thread d key block (w.tlv.template key) (w.lookups thread) (Function.update_self _ _ _)
  rw [hi.same.image hs] at hmh
  rw [hi'.same.pointers hs hmh, ← hi.same.pointers hs hmh, withLookups_update] at hpublish
  -- the image is fixed, so the initializers are those of the first memory
  obtain ⟨n, hcalls⟩ := @calls_run libc thread w.lookups (w.lookups thread) d key block client hquiet
    (imagePointers w.tlv.mem (tlvGetImageForKey w.tlv key))
    (w.tlv.withStorage thread key block (w.tlv.template key))
  rw [← hs'] at hcalls
  have hfinish := @ThreadStep.finish libc client ⟨s', Function.update w.lookups thread
    (.initializing d key block [] false :: w.lookups thread)⟩ thread d key block (w.lookups thread)
    (Function.update_self _ _ _)
  rw [withLookups_update, Function.update_eq_self] at hfinish
  refine ⟨(w.tlv.template key).size + 1, n, ?_⟩
  exact ((hcopied.snoc hpublish).append hcalls).snoc hfinish

/-- **A lookup by the code is a run of the threads**, when nothing else is going on and the
initializers write nothing: it gets to the same process, and returns the same address. -/
theorem tlvGetAddr_run (hlibc : libc.Sound) (hs : StartsWith s client) (hi : ThreadsInv s client w)
    (hprogram : w.inProgram thread) {d a : Nat} (hd : d ∈ client.descriptors) {s' : Tlv}
    (hquiet : ∀ t func m, libc.call t func m = m)
    (h : tlvGetAddr libc thread d w.tlv = (.ok a, s')) :
    ∃ events, System.Run (ThreadStep libc client) w (events ++ [(thread, .returned d a)])
      ⟨s', w.lookups⟩ ∧ ∀ e ∈ events, e = (thread, .internal) ∨ ∃ key, e = (thread, .created key) := by
  have hnil : ∀ e ∈ ([] : List (Nat × ThreadEvent)), e = (thread, .internal) ∨
      ∃ key, e = (thread, .created key) := fun e he => absurd he List.not_mem_nil
  rcases (tlvGetAddr_eq_ok rfl).mp h with ⟨hblock, rfl, ha⟩ | ⟨hzero, block, hmake, ha⟩
  · rw [ha]
    exact ⟨[], System.Run.one (ThreadStep.hit hprogram hd hblock), hnil⟩
  have habsent : (w.tlv.template (w.tlv.mem.readWord 8 (d + 8))).size = 0 → block = 0 → s' = w.tlv →
      ∃ events, System.Run (ThreadStep libc client) w (events ++ [(thread, .returned d a)])
        ⟨s', w.lookups⟩ ∧ ∀ e ∈ events, e = (thread, .internal) ∨ ∃ key, e = (thread, .created key) := by
    intro hsize hblock hs'
    rw [ha, hblock, hs']
    exact ⟨[], System.Run.one (ThreadStep.absent hprogram hd hzero hsize), hnil⟩
  by_cases hmh : tlvGetImageForKey w.tlv (w.tlv.mem.readWord 8 (d + 8)) = 0
  · rw [tlvAllocateAndInitializeForKey_none libc thread hmh] at hmake
    obtain ⟨hblock, hs'⟩ := Prod.mk.inj hmake
    refine habsent ?_ (Outcome.ok.inj hblock).symm hs'.symm
    rw [Tlv.template, if_pos hmh]
  · have himage := hi.same.image hs (w.tlv.mem.readWord 8 (d + 8))
    obtain ⟨header, hm, hcovers⟩ := (hs.images _ (himage ▸ hmh)).header
    rw [← himage] at hm
    obtain ⟨hnone, hsome⟩ := tlvAllocateAndInitializeForKey_eq_ok hlibc
      (hm.congr (hi.same.covered hcovers)) (hi.covered_inUse hcovers)
      (fun t func m x _ => congrFun (hquiet t func m) x) rfl hmh hmake
    have htemplate : w.tlv.template (w.tlv.mem.readWord 8 (d + 8))
        = imageTemplate w.tlv.mem (tlvGetImageForKey w.tlv (w.tlv.mem.readWord 8 (d + 8))) :=
      if_neg hmh
    rw [← htemplate] at hnone hsome
    by_cases hsize : (w.tlv.template (w.tlv.mem.readWord 8 (d + 8))).size = 0
    · exact habsent hsize (hnone hsize).1 (hnone hsize).2
    · obtain ⟨hmalloc, hs'⟩ := hsome hsize
      obtain ⟨m, n, hrun⟩ := lookup_run hlibc hs hi hprogram hd (hquiet thread) rfl hzero hmh hsize
        hmalloc hs'
      rw [← ha] at hrun
      refine ⟨_, hrun, fun e he => ?_⟩
      simp only [List.mem_append, List.mem_replicate, List.mem_singleton] at he
      rcases he with (⟨-, he⟩ | he) | ⟨-, he⟩
      · exact .inl he
      · exact .inr ⟨_, he⟩
      · exact .inl he

end

/-! ## Two threads -/

def sampleClient : Client where
  fixed := [⟨0x1000, 504⟩, ⟨0x11f8, 128⟩]
  descriptors := [0x11a8, 0x11c0]

theorem sampleClient_covers {r : ByteRange} (h : ByteRange.Within r ⟨0x1000, 504⟩) :
    sampleClient.Covers r := ⟨_, List.mem_cons_self, h⟩

theorem sampleThreadLoaded_live : sampleThreadLoaded.live = [⟨0x11f8, 128⟩, ⟨0x1000, 504⟩] := by
  decide +kernel

theorem sampleThreadLoaded_template :
    imageTemplate sampleThreadLoaded.mem 0x1000 = ⟨0x11d8, 16, true⟩ := by decide +kernel

theorem sampleThreads_start : StartsWith sampleThreadLoaded sampleClient := by
  obtain ⟨key, htable, -⟩ := sampleThread_initialized
  obtain ⟨-, hsome⟩ := tlvInitializeDescriptors_initializes sampleLibc_sound (by decide)
    sampleThreadProcess_table (by decide) (fun p hp => absurd hp List.not_mem_nil)
    sampleThreadProcess_image sampleThread_loads
  obtain ⟨_, -, -, -, -, -, hspecific⟩ := hsome (by decide +kernel)
  refine ⟨?_, fun r hr => ?_, ⟨?_, _, htable⟩, fun k hk => ?_, fun d hd => sampleClient_covers ?_,
    fun t k => ?_⟩
  · rw [sampleThreadLoaded_live]
    exact List.pairwise_pair.mpr (ByteRange.apart_of_le (Nat.le_refl _)).symm
  · rw [sampleThreadLoaded_live]
    rcases List.mem_cons.mp hr with rfl | hr
    · exact ⟨List.mem_cons_of_mem _ List.mem_cons_self, by decide⟩
    · obtain rfl := List.mem_singleton.mp hr
      exact ⟨List.mem_cons_self, by decide⟩
  · have hrange : sampleThreadLoaded.tableRange = ⟨0x11f8, 128⟩ := by decide +kernel
    rw [hrange]
    exact ⟨_, List.mem_cons_of_mem _ List.mem_cons_self, ByteRange.Within.refl _⟩
  · have hmh : tlvGetImageForKey sampleThreadLoaded k = 0x1000 := by
      rw [htable.get, List.find?_cons] at hk ⊢
      by_cases hkey : key = k
      · rw [beq_iff_eq.mpr hkey]
        rfl
      · rw [beq_eq_false_iff_ne.mpr hkey] at hk
        exact absurd rfl hk
    rw [hmh]
    refine ⟨⟨_, sampleThreadLoaded_header, sampleClient_covers ?_⟩, fun _ => sampleClient_covers ?_⟩
    · exact ByteRange.within_mk (by omega) (by omega)
    · rw [sampleThreadLoaded_template]
      exact ByteRange.within_mk (by decide) (by decide)
  · rcases List.mem_cons.mp hd with rfl | hd
    · exact ByteRange.within_mk (by omega) (by omega)
    · obtain rfl := List.mem_singleton.mp hd
      exact ByteRange.within_mk (by omega) (by omega)
  · rw [hspecific]
    rfl

/-- The process when thread 7 has its block. -/
def sampleThreadMissed : Tlv :=
  { sampleThreadLoaded with live := ⟨0x1278, 16⟩ :: sampleThreadLoaded.live }

/-- Thread 7 waits for its copy, while thread 8 looks the variable up and gets its own. -/
theorem sampleThreads_refine : ∃ (events : List (Nat × ThreadEvent)) (w : Threads),
    System.Run (VariableStep sampleThreadLoaded.spec) (fun _ _ => none) events
      (w.variables sampleThreadLoaded) ∧
    Ownership.Valid w.tlv.live (w.owned sampleClient) ∧
    w.variables sampleThreadLoaded 7 256 = none ∧
    w.variables sampleThreadLoaded 8 256
      = some ⟨0x1288, [1, 2, 3, 4, 5, 6, 7, 8, 0, 0, 0, 0, 0, 0, 0, 0]⟩ := by
  have hkey : (Threads.mk sampleThreadLoaded fun _ => []).tlv.mem.readWord 8 (0x11a8 + 8) = 256 := by
    decide +kernel
  have hnone : (Threads.mk sampleThreadLoaded fun _ => []).tlv.specific 7 256 = 0 := by
    decide +kernel
  have htemplate : (Threads.mk sampleThreadLoaded fun _ => []).tlv.template 256
      = ⟨0x11d8, 16, true⟩ := by decide +kernel
  have hmalloc : sampleLibc.malloc (Threads.mk sampleThreadLoaded fun _ => []).tlv
      (Template.mk 0x11d8 16 true).size = some 0x1278 := by decide +kernel
  have hprogram : (Threads.mk sampleThreadLoaded fun _ => []).inProgram 7 := rfl
  have hmiss := @ThreadStep.miss sampleLibc sampleClient ⟨sampleThreadLoaded, fun _ => []⟩ 7 0x11a8
    256 0x1278 ⟨0x11d8, 16, true⟩ hprogram List.mem_cons_self hkey hnone htemplate (by decide) hmalloc
  have hi := sampleThreads_start.inv.step sampleLibc_sound sampleThreads_start hmiss
  have hok : (tlvGetAddr sampleLibc 8 0x11a8 sampleThreadMissed).1 = .ok 0x1288 := by decide +kernel
  have hother : (Threads.withLookups ⟨sampleThreadMissed, fun _ => []⟩ 7
      [.copying 0x11a8 256 0x1278 ⟨0x11d8, 16, true⟩ 0]).inProgram 8 := rfl
  obtain ⟨events, hrun, -⟩ := tlvGetAddr_run sampleLibc_sound sampleThreads_start hi hother
    List.mem_cons_self (fun _ _ _ => rfl) (Exec.eq_of_fst hok)
  obtain ⟨hvariables, hvalid⟩ := threads_refine sampleLibc_sound sampleThreads_start
    (hrun.cons hmiss)
  refine ⟨_, _, hvariables, hvalid, ?_, ?_⟩
  · decide +kernel
  · decide +kernel

end Dynld
