import Mathlib.Logic.Function.Basic
import Dynld.Lib.Systems
import Dynld.Proof.AllocatorCode

/-!
# The allocator and its threads

Any number of threads call the allocator. One of them at a time has the lock, and works on
the free list word by word; the others wait, get and give back large blocks, and read and
write the blocks they hold, whenever they like. Nothing can tell this from an allocator
whose calls are one step each (`allocator_linearizes`): a call takes its effect when the
lock is released.

The holder works inside the free blocks and the block it was given, and nobody else has a
byte of these. So what the others do in the meantime might as well have been done before
the lock was taken.
-/

namespace Dynld

open ByteRange Code

/-! ## The threads -/

/-- Where a thread is. -/
inductive LockState where
  | outside
  /-- It spins. -/
  | waiting (call : LockedCall)
  /-- It has the lock: the code that is left, and the regions it got. -/
  | inside (call : LockedCall) (code : HeapCode Nat) (got : List ByteRange)

namespace LockState

def call : LockState → Option LockedCall
  | outside => none
  | waiting call => some call
  | inside call _ _ => some call

def got : LockState → List ByteRange
  | inside _ _ got => got
  | _ => []

def hasLock : LockState → Bool
  | inside _ _ _ => true
  | _ => false

end LockState

structure AllocThreads where
  heap : Heap
  live : List (Nat × Layout)
  locked : Bool
  threads : Nat → LockState

namespace AllocThreads

/-- A new allocator. -/
def start (mem : Mem) : AllocThreads :=
  ⟨{ chunk := none, free := 0, mem, regions := [], stores := [] }, [], false, fun _ => .outside⟩

def withThread (s : AllocThreads) (t : Nat) (state : LockState) : AllocThreads :=
  { s with threads := Function.update s.threads t state }

def calls (s : AllocThreads) (t : Nat) : Option LockedCall := (s.threads t).call

/-- A block that no thread is giving back. -/
def Held (s : AllocThreads) (l : Nat × Layout) : Prop :=
  l ∈ s.live ∧ ∀ t call, s.calls t = some call → call.frees ≠ some l

/-- A region that the backend may hand out. -/
structure Fresh (s : AllocThreads) (r : ByteRange) : Prop where
  wellFormed : RegionWellFormed r
  regions : ∀ r' ∈ s.heap.regions, Apart r' r
  got : ∀ t, ∀ r' ∈ (s.threads t).got, Apart r' r

/-- The lock is taken. -/
def afterAcquire (s : AllocThreads) (t : Nat) (call : LockedCall) : AllocThreads :=
  { s with locked := true }.withThread t (.inside call call.code [])

/-- The holder performs an operation, and `k` is left. -/
def afterAccess (s : AllocThreads) (t : Nat) (call : LockedCall) (o : HeapOp)
    (k : o.Answer → HeapCode Nat) (got : List ByteRange) : AllocThreads :=
  { s with heap := (o.act ⟨s.heap, got⟩).2.heap }.withThread t
    (.inside call (k (o.act ⟨s.heap, got⟩).1) (o.act ⟨s.heap, got⟩).2.got)

/-- The operation is one the backend agrees to. -/
def MayPerform (s : AllocThreads) : HeapOp → Prop
  | .vmAlloc size (some base) => s.Fresh ⟨base, size⟩
  | _ => True

/-- A byte of a block that is held, or one that is none of the allocator's business. -/
def MayAccess (s : AllocThreads) (a : Nat) : Prop :=
  (∃ l, s.Held l ∧ a ∈ userRange l) ∨
    (∀ r ∈ s.heap.regions, a ∉ r) ∧ ∀ t, ∀ r ∈ (s.threads t).got, a ∉ r

end AllocThreads

/-- A step, and what can be told of it. -/
inductive LockEvent where
  | call (t : Nat) (call : LockedCall)
  | spin (t : Nat)
  | acquire (t : Nat)
  | access (t : Nat) (o : HeapOp)
  | release (t : Nat) (call : LockedCall) (p : Nat)
  | allocLarge (t : Nat) (layout : Layout) (p : Nat)
  | deallocLarge (t p : Nat) (layout : Layout)
  | read (a : Nat) (b : UInt8)
  | write (a : Nat) (b : UInt8)

/-- The live blocks after a call. -/
def LockedCall.liveAfter (live : List (Nat × Layout)) (p : Nat) :
    LockedCall → List (Nat × Layout)
  | alloc _ _ layout => Dynld.liveAfter live p layout
  | dealloc ptr layout => live.erase (ptr, layout)

/-- The call returns `p`, and the lock is free. -/
def AllocThreads.afterRelease (s : AllocThreads) (t p : Nat) (call : LockedCall)
    (got : List ByteRange) : AllocThreads :=
  AllocThreads.withThread ⟨Holding.done ⟨s.heap, got⟩, call.liveAfter s.live p, false, s.threads⟩ t
    .outside

/-- The regions after a large block was given back. -/
def regionsAfter (takesBack : Bool) (p : Nat) (layout : Layout) (regions : List ByteRange) :
    List ByteRange :=
  if takesBack then regions.erase ⟨p, normSize layout⟩ else regions

/-- One step of a thread. -/
inductive LockStep : AllocThreads → LockEvent → AllocThreads → Prop where
  | call {s : AllocThreads} {t : Nat} {call : LockedCall} (hout : s.threads t = .outside)
      (hsmall : normSize call.layout < largeThreshold)
      (hheld : ∀ l, call.frees = some l → s.Held l) :
      LockStep s (.call t call) (s.withThread t (.waiting call))
  /-- `compare_exchange_weak` fails, which it may do for no reason. -/
  | spin {s : AllocThreads} {t : Nat} {call : LockedCall} (hwait : s.threads t = .waiting call) :
      LockStep s (.spin t) s
  | acquire {s : AllocThreads} {t : Nat} {call : LockedCall} (hwait : s.threads t = .waiting call)
      (hfree : s.locked = false) :
      LockStep s (.acquire t) (s.afterAcquire t call)
  | access {s : AllocThreads} {t : Nat} {call : LockedCall} {o : HeapOp}
      {k : o.Answer → HeapCode Nat} {got : List ByteRange}
      (hin : s.threads t = .inside call (.op o k) got) (hmay : s.MayPerform o) :
      LockStep s (.access t o) (s.afterAccess t call o k got)
  | release {s : AllocThreads} {t p : Nat} {call : LockedCall} {got : List ByteRange}
      (hin : s.threads t = .inside call (.ret (.ok p)) got) :
      LockStep s (.release t call p) (s.afterRelease t p call got)
  /-- A large block comes straight from the backend. -/
  | allocLarge {s : AllocThreads} {t base : Nat} {layout : Layout} (hout : s.threads t = .outside)
      (hlarge : largeThreshold ≤ normSize layout) (hfresh : s.Fresh ⟨base, normSize layout⟩) :
      LockStep s (.allocLarge t layout base)
        { s with heap := { s.heap with regions := ⟨base, normSize layout⟩ :: s.heap.regions },
                 live := (base, layout) :: s.live }
  | refuseLarge {s : AllocThreads} {t : Nat} {layout : Layout} (hout : s.threads t = .outside)
      (hlarge : largeThreshold ≤ normSize layout) : LockStep s (.allocLarge t layout 0) s
  /-- The backend may not take it back. -/
  | deallocLarge {s : AllocThreads} {takesBack : Bool} {t p : Nat} {layout : Layout}
      (hout : s.threads t = .outside) (hlarge : largeThreshold ≤ normSize layout)
      (hheld : s.Held (p, layout)) :
      LockStep s (.deallocLarge t p layout)
        { s with heap := { s.heap with regions := regionsAfter takesBack p layout s.heap.regions },
                 live := s.live.erase (p, layout) }
  | read {s : AllocThreads} {a : Nat} (hmay : s.MayAccess a) :
      LockStep s (.read a (s.heap.mem a)) s
  | write {s : AllocThreads} {a : Nat} {b : UInt8} (hmay : s.MayAccess a) :
      LockStep s (.write a b) { s with heap := { s.heap with mem := s.heap.mem.write a [b] } }

/-! ## Calls that are one step -/

/-- An event that is not the end of a call, or an access of a client. -/
def LockEvent.silent : LockEvent → Bool
  | call _ _ => true
  | spin _ => true
  | acquire _ => true
  | access _ _ => true
  | _ => false

/-- A call is one step of the heap, the last one. -/
inductive AtomicStep : AllocRun → LockEvent → AllocRun → Prop where
  | silent {r : AllocRun} {e : LockEvent} (h : e.silent = true) : AtomicStep r e r
  | alloc {r : AllocRun} {vm : Nat → Option Nat} {fuel t p : Nat} {base : Option Nat}
      {layout : Layout} {h : Heap} (hvm : VmFresh r.heap vm)
      (hok : r.heap.allocImpl vm fuel layout = .ok (p, h)) :
      AtomicStep r (.release t (.alloc fuel base layout) p) ⟨h, liveAfter r.live p layout⟩
  | dealloc {r : AllocRun} {takesBack : Bool} {t p q : Nat} {layout : Layout} {h : Heap}
      (hlive : (p, layout) ∈ r.live) (hok : r.heap.deallocImpl takesBack p layout = .ok h) :
      AtomicStep r (.release t (.dealloc p layout) q) ⟨h, r.live.erase (p, layout)⟩
  | allocLarge {r : AllocRun} {vm : Nat → Option Nat} {fuel t p : Nat} {layout : Layout}
      {h : Heap} (hvm : VmFresh r.heap vm)
      (hok : r.heap.allocImpl vm fuel layout = .ok (p, h)) :
      AtomicStep r (.allocLarge t layout p) ⟨h, liveAfter r.live p layout⟩
  | deallocLarge {r : AllocRun} {takesBack : Bool} {t p : Nat} {layout : Layout} {h : Heap}
      (hlive : (p, layout) ∈ r.live) (hok : r.heap.deallocImpl takesBack p layout = .ok h) :
      AtomicStep r (.deallocLarge t p layout) ⟨h, r.live.erase (p, layout)⟩
  | read {r : AllocRun} {a : Nat} : AtomicStep r (.read a (r.heap.mem a)) r
  | write {r : AllocRun} {a : Nat} {b : UInt8}
      (hw : ClientWrite r.heap r.live (r.heap.mem.write a [b])) :
      AtomicStep r (.write a b) ⟨{ r.heap with mem := r.heap.mem.write a [b] }, r.live⟩

/-- It is the allocator whose runs are safe. -/
theorem AtomicStep.reachable {r r' : AllocRun} {e : LockEvent} (h : AtomicStep r e r')
    (hr : AllocReachable r) : AllocReachable r' := by
  cases h with
  | silent _ => exact hr
  | alloc hvm hok => exact hr.step (.alloc hvm hok)
  | dealloc hlive hok => exact hr.step (.dealloc hlive hok)
  | allocLarge hvm hok => exact hr.step (.alloc hvm hok)
  | deallocLarge hlive hok => exact hr.step (.dealloc hlive hok)
  | read => exact hr
  | write hw => exact hr.step (.client hw)

/-! ## The calls in progress -/

/-- Each call that is on its way is a small one, and the block it gives back is nobody else's. -/
structure CallsOk (calls : Nat → Option LockedCall) (live : List (Nat × Layout)) : Prop where
  small : ∀ t call, calls t = some call → normSize call.layout < largeThreshold
  frees : ∀ t call l, calls t = some call → call.frees = some l →
    l ∈ live ∧ ∀ t' call', calls t' = some call' → call'.frees = some l → t' = t

namespace CallsOk

variable {calls : Nat → Option LockedCall} {live : List (Nat × Layout)} {t : Nat}

theorem mono {live' : List (Nat × Layout)} (h : CallsOk calls live)
    (hlive : ∀ l ∈ live, (∃ t call, calls t = some call ∧ call.frees = some l) → l ∈ live') :
    CallsOk calls live' := by
  refine ⟨h.small, fun t call l ht hl => ?_⟩
  obtain ⟨hmem, honly⟩ := h.frees t call l ht hl
  exact ⟨hlive l hmem ⟨t, call, ht, hl⟩, honly⟩

/-- A call begins. -/
theorem begin {call : LockedCall} (h : CallsOk calls live)
    (hsmall : normSize call.layout < largeThreshold)
    (hheld : ∀ l, call.frees = some l →
      l ∈ live ∧ ∀ t call', calls t = some call' → call'.frees ≠ some l) :
    CallsOk (Function.update calls t (some call)) live := by
  refine ⟨fun t₁ call₁ h₁ => ?_, fun t₁ call₁ l h₁ hl => ?_⟩
  · by_cases ht : t₁ = t
    · rw [ht, Function.update_self] at h₁
      injection h₁ with h₁
      rw [← h₁]
      exact hsmall
    · rw [Function.update_of_ne ht] at h₁
      exact h.small t₁ call₁ h₁
  · by_cases ht : t₁ = t
    · rw [ht, Function.update_self] at h₁
      injection h₁ with h₁
      rw [← h₁] at hl
      obtain ⟨hmem, hnone⟩ := hheld l hl
      refine ⟨hmem, fun t₂ call₂ h₂ hl₂ => ?_⟩
      by_cases ht₂ : t₂ = t
      · rw [ht₂, ht]
      · rw [Function.update_of_ne ht₂] at h₂
        exact absurd hl₂ (hnone t₂ call₂ h₂)
    · rw [Function.update_of_ne ht] at h₁
      obtain ⟨hmem, honly⟩ := h.frees t₁ call₁ l h₁ hl
      refine ⟨hmem, fun t₂ call₂ h₂ hl₂ => ?_⟩
      by_cases ht₂ : t₂ = t
      · rw [ht₂, Function.update_self] at h₂
        injection h₂ with h₂
        rw [← h₂] at hl₂
        exact absurd hl ((hheld l hl₂).2 t₁ call₁ h₁)
      · rw [Function.update_of_ne ht₂] at h₂
        exact honly t₂ call₂ h₂ hl₂

/-- A call is over. -/
theorem finish {call : LockedCall} (h : CallsOk calls live) (ht : calls t = some call) (p : Nat) :
    CallsOk (Function.update calls t none) (call.liveAfter live p) := by
  have hother : ∀ {t' call'}, Function.update calls t none t' = some call' →
      t' ≠ t ∧ calls t' = some call' := by
    intro t' call' h'
    by_cases heq : t' = t
    · rw [heq, Function.update_self] at h'
      exact absurd h' (by simp)
    · rw [Function.update_of_ne heq] at h'
      exact ⟨heq, h'⟩
  refine ⟨fun t₁ call₁ h₁ => h.small t₁ call₁ (hother h₁).2, fun t₁ call₁ l h₁ hl => ?_⟩
  obtain ⟨hne, h₁⟩ := hother h₁
  obtain ⟨hmem, honly⟩ := h.frees t₁ call₁ l h₁ hl
  refine ⟨?_, fun t₂ call₂ h₂ hl₂ => honly t₂ call₂ (hother h₂).2 hl₂⟩
  cases call with
  | alloc fuel base layout =>
    unfold LockedCall.liveAfter Dynld.liveAfter
    dsimp only
    split
    · exact hmem
    · exact List.mem_cons_of_mem _ hmem
  | dealloc ptr layout =>
    -- the block that is given back is not the one of the other call
    have hl' : l ≠ (ptr, layout) := fun heq =>
      hne (honly t _ ht (congrArg some heq.symm)).symm
    exact (List.mem_erase_of_ne hl').mpr hmem

end CallsOk

/-! ## The invariant -/

/-- A thread has the lock, and its code, run from the heap `h` on, has got to where it is. -/
structure HoldsLock (s : AllocThreads) (h : Heap) (t : Nat) : Prop where
  reaches : ∃ call code got, s.threads t = .inside call code got ∧
    Reaches HeapOp.act call.code ⟨h, []⟩ code ⟨s.heap, got⟩
  only : ∀ t', (s.threads t').hasLock = true → t' = t
  got : ∀ g ∈ (s.threads t).got, RegionWellFormed g ∧ ∀ r ∈ s.heap.regions, Apart r g

/-- The heap is that of the other allocator, but for what the holder of the lock has done. -/
structure LockInv (s : AllocThreads) (r : AllocRun) : Prop where
  reachable : AllocReachable r
  live : s.live = r.live
  calls : CallsOk s.calls s.live
  unlocked : s.locked = false → s.heap = r.heap ∧ ∀ t, (s.threads t).hasLock = false
  locked : s.locked = true → ∃ t, HoldsLock s r.heap t

theorem LockInv.init (mem : Mem) :
    LockInv (AllocThreads.start mem) ⟨(AllocThreads.start mem).heap, []⟩ := by
  refine ⟨AllocReachable.init mem, rfl, ⟨?_, ?_⟩, fun _ => ⟨rfl, fun _ => rfl⟩, ?_⟩
  · exact fun t call h => absurd h (by simp [AllocThreads.calls, AllocThreads.start, LockState.call])
  · exact fun t call l h =>
      absurd h (by simp [AllocThreads.calls, AllocThreads.start, LockState.call])
  · exact fun h => absurd h (by simp [AllocThreads.start])

section

variable {s : AllocThreads} {r : AllocRun} {t : Nat}

@[simp] theorem AllocThreads.withThread_self (s : AllocThreads) (t : Nat) (state : LockState) :
    (s.withThread t state).threads t = state := Function.update_self _ _ _

@[simp] theorem AllocThreads.withThread_of_ne (s : AllocThreads) (state : LockState) {t t' : Nat}
    (h : t' ≠ t) : (s.withThread t state).threads t' = s.threads t' := Function.update_of_ne h _ _

theorem AllocThreads.calls_withThread (s : AllocThreads) (t : Nat) (state : LockState) :
    (s.withThread t state).calls = Function.update s.calls t state.call := by
  funext t'
  unfold calls withThread
  dsimp only
  by_cases ht : t' = t
  · rw [ht, Function.update_self, Function.update_self]
  · rw [Function.update_of_ne ht, Function.update_of_ne ht]

theorem along_true (c : HeapCode Nat) : ∀ w, Along HeapOp.act (fun _ => True) c w := by
  induction c with
  | ret x => exact fun _ => trivial
  | op o k ih => exact fun _ => ⟨trivial, ih _ _⟩

/-- The regions do not change while the lock is held. -/
theorem HoldsLock.regions {h : Heap} (hh : HoldsLock s h t) : s.heap.regions = h.regions := by
  obtain ⟨call, code, got, -, hreach⟩ := hh.reaches
  refine hreach.keeps (I := fun w => w.heap.regions = h.regions) (along_true _ _) ?_ rfl
  intro o w _ hw
  cases o with
  | vmAlloc size base =>
    cases base with
    | none => exact hw
    | some base => exact hw
  | load addr => exact hw
  | store addr value => exact hw
  | getFree => exact hw
  | setFree node => exact hw
  | getChunk => exact hw
  | setChunk chunk => exact hw

theorem LockInv.regions (hi : LockInv s r) : s.heap.regions = r.heap.regions := by
  rcases hlocked : s.locked with _ | _
  · rw [(hi.unlocked hlocked).1]
  · obtain ⟨t, hh⟩ := hi.locked hlocked
    exact hh.regions

/-- A thread with the lock is the one that has it. -/
theorem LockInv.holder (hi : LockInv s r) (ht : (s.threads t).hasLock = true) :
    HoldsLock s r.heap t := by
  rcases hlocked : s.locked with _ | _
  · rw [(hi.unlocked hlocked).2 t] at ht
    exact absurd ht (by simp)
  · obtain ⟨t', hh⟩ := hi.locked hlocked
    rw [hh.only t ht]
    exact hh

theorem LockInv.isLocked (hi : LockInv s r) (ht : (s.threads t).hasLock = true) :
    s.locked = true := by
  rcases hlocked : s.locked with _ | _
  · rw [(hi.unlocked hlocked).2 t] at ht
    exact absurd ht (by simp)
  · rfl

/-- A byte that a client may access is in no block that the holder works on. -/
theorem LockInv.not_mem_blocks {a : Nat} {free : List ByteRange} {call : LockedCall}
    (hi : LockInv s r) (hinv : HeapInv r.heap r.live free) (hmay : s.MayAccess a)
    (ht : s.calls t = some call) : ∀ b ∈ call.blocks free, a ∉ b := by
  have hfree : ∀ {l}, call.frees = some l → l ∈ r.live := by
    intro l hl
    rw [← hi.live]
    exact (hi.calls.frees t call l ht hl).1
  have hcovered : ∀ b ∈ call.blocks free, CoveredBy b r.heap.regions := by
    intro b hb
    rcases List.mem_append.mp hb with hb | hb
    · rw [Option.mem_toList, Option.map_eq_some_iff] at hb
      obtain ⟨l, hl, hb⟩ := hb
      rw [← hb]
      exact hinv.covered _ (List.mem_append_right _ (List.mem_append_left _
        (List.mem_map_of_mem (hfree hl))))
    · exact hinv.covered b (List.mem_append_left _ hb)
  intro b hb hab
  rcases hmay with ⟨l, ⟨hl, hheld⟩, hal⟩ | ⟨hout, -⟩
  · rw [hi.live] at hl
    have hal := userRange_within l a hal
    rcases List.mem_append.mp hb with hb | hb
    · rw [Option.mem_toList, Option.map_eq_some_iff] at hb
      obtain ⟨l', hl', hb⟩ := hb
      have hne : l ≠ l' := fun heq => hheld t call ht (heq ▸ hl')
      have hlive := (List.pairwise_append.mp (List.pairwise_append.mp hinv.separate).2.1).1
      have hpw := ((List.perm_cons_erase (hfree hl')).map liveBlock).pairwise hlive
        fun hd => hd.symm
      have hin : liveBlock l ∈ (r.live.erase l').map liveBlock :=
        List.mem_map_of_mem ((List.mem_erase_of_ne hne).mpr hl)
      rw [← hb] at hab
      exact (List.pairwise_cons.mp hpw).1 _ hin a hab hal
    · have hcross := (List.pairwise_append.mp hinv.separate).2.2 b hb (liveBlock l)
        (List.mem_append_left _ (List.mem_map_of_mem hl))
      exact hcross a hab hal
  · rw [hi.regions] at hout
    obtain ⟨rg, hrg, harg⟩ := hcovered b hb a hab
    exact hout rg hrg harg

/-- No free block, and no block that is given back, has a byte that a client may access. -/
theorem LockInv.apart {a : Nat} {call : LockedCall} (hi : LockInv s r) (hmay : s.MayAccess a)
    (ht : s.calls t = some call) :
    Along HeapOp.act (fun o => ∀ rg ∈ o.ranges, a ∉ rg) call.code ⟨r.heap, []⟩ := by
  obtain ⟨free, hinv⟩ := hi.reachable.inv
  refine (LockedCall.along_code hinv call).mono fun o ho rg hrg hin => ?_
  obtain ⟨b, hb, hwithin⟩ := ho rg hrg
  exact hi.not_mem_blocks hinv hmay ht b hb (hwithin a hin)

/-! ## Steps of the others -/

/-- The others change the heap by `f`, which commutes with what the holder does. -/
theorem HoldsLock.interrupt {h : Heap} {f : Heap → Heap} {P : HeapOp → Prop} (hh : HoldsLock s h t)
    (halong : ∀ call, s.calls t = some call → Along HeapOp.act P call.code ⟨h, []⟩)
    (hf : ∀ (o : HeapOp) (w : Holding), P o → o.act ⟨f w.heap, w.got⟩
      = ((o.act w).1, ⟨f (o.act w).2.heap, (o.act w).2.got⟩)) {live : List (Nat × Layout)}
    (hgot : ∀ g ∈ (s.threads t).got, ∀ rg ∈ (f s.heap).regions, Apart rg g) :
    HoldsLock { s with heap := f s.heap, live := live } (f h) t := by
  obtain ⟨call, code, got, hin, hreach⟩ := hh.reaches
  have hcall : s.calls t = some call := by
    unfold AllocThreads.calls
    rw [hin]
    rfl
  refine ⟨⟨call, code, got, hin, ?_⟩, hh.only, fun g hg => ⟨(hh.got g hg).1, hgot g hg⟩⟩
  exact hreach.interrupt (w := fun w => ⟨f w.heap, w.got⟩) (halong call hcall) hf

/-- The regions are not the business of the holder. -/
theorem act_regions (f : List ByteRange → List ByteRange) (o : HeapOp) (w : Holding) :
    o.act ⟨{ w.heap with regions := f w.heap.regions }, w.got⟩
      = ((o.act w).1, ⟨{ (o.act w).2.heap with regions := f (o.act w).2.heap.regions },
          (o.act w).2.got⟩) := by
  cases o with
  | vmAlloc size base =>
    cases base with
    | none => rfl
    | some base => rfl
  | load addr => rfl
  | store addr value => rfl
  | getFree => rfl
  | setFree node => rfl
  | getChunk => rfl
  | setChunk chunk => rfl

/-- Nor is a byte that it does not access. -/
theorem act_write {a : Nat} {b : UInt8} (o : HeapOp) (w : Holding)
    (ha : ∀ rg ∈ o.ranges, a ∉ rg) :
    o.act ⟨{ w.heap with mem := w.heap.mem.write a [b] }, w.got⟩
      = ((o.act w).1, ⟨{ (o.act w).2.heap with mem := (o.act w).2.heap.mem.write a [b] },
          (o.act w).2.got⟩) := by
  have hapart : ∀ addr, o.ranges = [⟨addr, 8⟩] → Apart ⟨addr, 8⟩ ⟨a, 1⟩ := by
    intro addr hranges x hx hx'
    have hmem : (⟨addr, 8⟩ : ByteRange) ∈ o.ranges := by
      rw [hranges]
      exact List.mem_singleton.mpr rfl
    rw [mem_mk] at hx'
    obtain rfl : x = a := by omega
    exact ha _ hmem hx
  cases o with
  | load addr =>
    have hread : (w.heap.mem.write a [b]).readWord 8 addr = w.heap.mem.readWord 8 addr :=
      Mem.readWord_congr fun x hx => Mem.write_of_notMem (hapart addr rfl x hx)
    unfold HeapOp.act
    dsimp only
    rw [hread]
  | store addr value =>
    have hwrite : (w.heap.mem.write a [b]).writeWord 8 addr value
        = (w.heap.mem.writeWord 8 addr value).write a [b] :=
      Mem.write_comm (by rw [Bytes.length_encode]; exact (hapart addr rfl).symm)
    unfold HeapOp.act Heap.storeWord
    dsimp only
    rw [hwrite]
  | vmAlloc size base =>
    cases base with
    | none => rfl
    | some base => rfl
  | getFree => rfl
  | setFree node => rfl
  | getChunk => rfl
  | setChunk chunk => rfl

theorem LockInv.step_call {call : LockedCall} (hi : LockInv s r) (hout : s.threads t = .outside)
    (hsmall : normSize call.layout < largeThreshold)
    (hheld : ∀ l, call.frees = some l → s.Held l) :
    LockInv (s.withThread t (.waiting call)) r := by
  have hstatus : ∀ t', ((s.withThread t (.waiting call)).threads t').hasLock
      = (s.threads t').hasLock := by
    intro t'
    unfold AllocThreads.withThread
    dsimp only
    by_cases ht : t' = t
    · rw [ht, Function.update_self, hout]
      rfl
    · rw [Function.update_of_ne ht]
  refine ⟨hi.reachable, hi.live, ?_, fun hfree => ?_, fun hlocked => ?_⟩
  · rw [AllocThreads.calls_withThread]
    exact hi.calls.begin hsmall fun l hl => hheld l hl
  · obtain ⟨hheap, hnone⟩ := hi.unlocked hfree
    exact ⟨hheap, fun t' => (hstatus t').trans (hnone t')⟩
  · obtain ⟨t₀, hh⟩ := hi.locked hlocked
    obtain ⟨call₀, code, got, hin, hreach⟩ := hh.reaches
    have hne : t₀ ≠ t := by
      intro heq
      rw [heq, hout] at hin
      exact absurd hin (by simp)
    have hsame : (s.withThread t (.waiting call)).threads t₀ = s.threads t₀ :=
      Function.update_of_ne hne _ _
    refine ⟨t₀, ⟨call₀, code, got, hsame.trans hin, hreach⟩, fun t' ht' => ?_, ?_⟩
    · exact hh.only t' ((hstatus t').symm.trans ht')
    · rw [hsame]
      exact hh.got

/-- A large block is handed out. -/
theorem LockInv.step_allocLarge {base : Nat} {layout : Layout} (hi : LockInv s r)
    (hlarge : largeThreshold ≤ normSize layout) (hfresh : s.Fresh ⟨base, normSize layout⟩) :
    ∃ r', AtomicStep r (.allocLarge t layout base) r' ∧ LockInv
      { s with heap := { s.heap with regions := ⟨base, normSize layout⟩ :: s.heap.regions },
               live := (base, layout) :: s.live } r' := by
  have hbase : base ≠ 0 := Nat.pos_iff_ne_zero.mp hfresh.wellFormed.start_pos
  have hvm : VmFresh r.heap fun size => if size = normSize layout then some base else none := by
    intro size b hb
    dsimp only at hb
    by_cases hsize : size = normSize layout
    · rw [if_pos hsize] at hb
      injection hb with hb
      rw [← hb, hsize]
      exact ⟨hfresh.wellFormed, fun rg hrg => hfresh.regions rg (hi.regions ▸ hrg)⟩
    · rw [if_neg hsize] at hb
      exact absurd hb (by simp)
  have hok : r.heap.allocImpl (fun size => if size = normSize layout then some base else none) 0
      layout = .ok (base, { r.heap with regions := ⟨base, normSize layout⟩ :: r.heap.regions }) := by
    unfold Heap.allocImpl Heap.vmAlloc
    rw [normalize_eq, Outcome.ok_bind]
    dsimp only
    rw [if_pos hlarge, if_pos rfl]
    rfl
  have hstep : AtomicStep r (.allocLarge t layout base)
      ⟨{ r.heap with regions := ⟨base, normSize layout⟩ :: r.heap.regions },
        liveAfter r.live base layout⟩ := .allocLarge hvm hok
  have hlive : liveAfter r.live base layout = (base, layout) :: r.live := if_neg hbase
  rw [hlive] at hstep
  refine ⟨_, hstep, hstep.reachable hi.reachable, congrArg _ hi.live, ?_, fun hfree => ?_,
    fun hlocked => ?_⟩
  · exact hi.calls.mono fun l hl _ => List.mem_cons_of_mem _ hl
  · obtain ⟨hheap, hnone⟩ := hi.unlocked hfree
    dsimp only
    rw [hheap]
    exact ⟨rfl, hnone⟩
  · obtain ⟨t₀, hh⟩ := hi.locked hlocked
    refine ⟨t₀, hh.interrupt (f := fun h => { h with
      regions := ⟨base, normSize layout⟩ :: h.regions }) (P := fun _ => True) (fun _ _ => ?_)
      (fun o w _ => act_regions _ o w) fun g hg rg hrg => ?_⟩
    · exact along_true _ _
    · rcases List.mem_cons.mp hrg with heq | hrg
      · rw [heq]
        exact (hfresh.got t₀ g hg).symm
      · exact (hh.got g hg).2 rg hrg

theorem mem_of_regionsAfter {takesBack : Bool} {p : Nat} {layout : Layout}
    {regions : List ByteRange} {rg : ByteRange}
    (h : rg ∈ regionsAfter takesBack p layout regions) : rg ∈ regions := by
  unfold regionsAfter at h
  split at h
  · exact List.mem_of_mem_erase h
  · exact h

/-- A large block is given back. -/
theorem LockInv.step_deallocLarge {p : Nat} {layout : Layout} (hi : LockInv s r)
    (hlarge : largeThreshold ≤ normSize layout) (hheld : s.Held (p, layout)) (takesBack : Bool) :
    ∃ r', AtomicStep r (.deallocLarge t p layout) r' ∧ LockInv
      { s with heap := { s.heap with regions := regionsAfter takesBack p layout s.heap.regions },
               live := s.live.erase (p, layout) } r' := by
  obtain ⟨free, hinv⟩ := hi.reachable.inv
  obtain ⟨hmem, hothers⟩ := hheld
  have hmem' : (p, layout) ∈ r.live := hi.live ▸ hmem
  have hok : r.heap.deallocImpl takesBack p layout
      = .ok { r.heap with regions := regionsAfter takesBack p layout r.heap.regions } := by
    rw [Heap.deallocImpl_eq (hinv.live_ne_zero hmem'), if_pos hlarge]
    cases takesBack with
    | false => rfl
    | true => rfl
  have hstep := AtomicStep.deallocLarge (t := t) hmem' hok
  refine ⟨_, hstep, hstep.reachable hi.reachable, ?_, ?_, fun hfree => ?_, fun hlocked => ?_⟩
  · dsimp only
    rw [hi.live]
  · refine hi.calls.mono fun l hl ⟨t', call, ht', hcall⟩ => ?_
    have hne : l ≠ (p, layout) := fun heq => hothers t' call ht' (heq ▸ hcall)
    exact (List.mem_erase_of_ne hne).mpr hl
  · obtain ⟨hheap, hnone⟩ := hi.unlocked hfree
    dsimp only
    rw [hheap]
    exact ⟨rfl, hnone⟩
  · obtain ⟨t₀, hh⟩ := hi.locked hlocked
    exact ⟨t₀, hh.interrupt
      (f := fun h => { h with regions := regionsAfter takesBack p layout h.regions })
      (P := fun _ => True) (fun _ _ => along_true _ _) (fun o w _ => act_regions _ o w)
      fun g hg rg hrg => (hh.got g hg).2 rg (mem_of_regionsAfter hrg)⟩

/-- A client writes. -/
theorem LockInv.step_write {a : Nat} {b : UInt8} (hi : LockInv s r) (hmay : s.MayAccess a) :
    ∃ r', AtomicStep r (.write a b) r' ∧
      LockInv { s with heap := { s.heap with mem := s.heap.mem.write a [b] } } r' := by
  have hclient : ClientWrite r.heap r.live (r.heap.mem.write a [b]) := by
    intro x hx
    obtain rfl : x = a := by
      by_cases hin : x ∈ (⟨a, 1⟩ : ByteRange)
      · rw [mem_mk] at hin
        omega
      · exact absurd (Mem.write_of_notMem hin) hx
    rcases hmay with ⟨l, hheld, hxl⟩ | ⟨hout, -⟩
    · exact .inl ⟨l, hi.live ▸ hheld.1, hxl⟩
    · exact .inr (hi.regions ▸ hout)
  have hstep := AtomicStep.write hclient
  refine ⟨_, hstep, hstep.reachable hi.reachable, hi.live, hi.calls, fun hfree => ?_,
    fun hlocked => ?_⟩
  · obtain ⟨hheap, hnone⟩ := hi.unlocked hfree
    dsimp only
    rw [hheap]
    exact ⟨rfl, hnone⟩
  · obtain ⟨t₀, hh⟩ := hi.locked hlocked
    exact ⟨t₀, hh.interrupt (f := fun h => { h with mem := h.mem.write a [b] })
      (fun call hcall => hi.apart hmay hcall) (fun o w ho => act_write o w ho)
      fun g hg => (hh.got g hg).2⟩

/-- A client reads what it would if no call were in progress. -/
theorem LockInv.mem_eq {a : Nat} (hi : LockInv s r) (hmay : s.MayAccess a) :
    s.heap.mem a = r.heap.mem a := by
  rcases hlocked : s.locked with _ | _
  · rw [(hi.unlocked hlocked).1]
  · obtain ⟨t₀, hh⟩ := hi.locked hlocked
    obtain ⟨call, code, got, hin, hreach⟩ := hh.reaches
    have hcall : s.calls t₀ = some call := by
      unfold AllocThreads.calls
      rw [hin]
      rfl
    refine hreach.keeps (I := fun w => w.heap.mem a = r.heap.mem a) (hi.apart hmay hcall) ?_ rfl
    intro o w ho hw
    cases o with
    | store addr value =>
      have hout : a ∉ (⟨addr, 8⟩ : ByteRange) := ho _ (List.mem_singleton.mpr rfl)
      exact (Mem.writeWord_of_notMem hout).trans hw
    | vmAlloc size base =>
      cases base with
      | none => exact hw
      | some base => exact hw
    | load addr => exact hw
    | getFree => exact hw
    | setFree node => exact hw
    | getChunk => exact hw
    | setChunk chunk => exact hw

/-! ## Steps of the holder -/

theorem LockInv.step_acquire {call : LockedCall} (hi : LockInv s r)
    (hwait : s.threads t = .waiting call) (hfree : s.locked = false) :
    LockInv (s.afterAcquire t call) r := by
  obtain ⟨hheap, hnone⟩ := hi.unlocked hfree
  have hself : (s.afterAcquire t call).threads t = .inside call call.code [] :=
    AllocThreads.withThread_self _ _ _
  have hother : ∀ t', t' ≠ t → (s.afterAcquire t call).threads t' = s.threads t' :=
    fun t' ht' => AllocThreads.withThread_of_ne _ _ ht'
  have hcalls : (s.afterAcquire t call).calls = s.calls := by
    funext t'
    unfold AllocThreads.calls
    by_cases ht' : t' = t
    · rw [ht', hself, hwait]
      rfl
    · rw [hother t' ht']
  have hreach : Reaches HeapOp.act call.code ⟨r.heap, []⟩ call.code ⟨s.heap, []⟩ := by
    rw [hheap]
    exact Reaches.refl
  refine ⟨hi.reachable, hi.live, ?_, fun h => ?_, fun _ =>
    ⟨t, ⟨call, _, _, hself, hreach⟩, fun t' ht' => ?_, fun g hg => ?_⟩⟩
  · rw [hcalls]
    exact hi.calls
  · have hlocked : true = false := h
    exact absurd hlocked (by simp)
  · by_cases heq : t' = t
    · exact heq
    · rw [hother t' heq, hnone t'] at ht'
      exact absurd ht' (by simp)
  · rw [hself] at hg
    exact absurd hg (by simp [LockState.got])

theorem LockInv.step_access {call : LockedCall} {o : HeapOp} {k : o.Answer → HeapCode Nat}
    {got : List ByteRange} (hi : LockInv s r) (hin : s.threads t = .inside call (.op o k) got)
    (hmay : s.MayPerform o) :
    LockInv (s.afterAccess t call o k got) r := by
  have hlock : (s.threads t).hasLock = true := by
    rw [hin]
    rfl
  have hh := hi.holder hlock
  obtain ⟨call₀, code, got₀, hin₀, hreach⟩ := hh.reaches
  rw [hin] at hin₀
  injection hin₀ with hcall hcode hgot
  rw [← hcall, ← hcode, ← hgot] at hreach
  have hregions : (o.act ⟨s.heap, got⟩).2.heap.regions = s.heap.regions := by
    cases o with
    | vmAlloc size base =>
      cases base with
      | none => rfl
      | some base => rfl
    | load addr => rfl
    | store addr value => rfl
    | getFree => rfl
    | setFree node => rfl
    | getChunk => rfl
    | setChunk chunk => rfl
  have hself : (s.afterAccess t call o k got).threads t
      = .inside call (k (o.act ⟨s.heap, got⟩).1) (o.act ⟨s.heap, got⟩).2.got :=
    AllocThreads.withThread_self _ _ _
  have hother : ∀ t', t' ≠ t → (s.afterAccess t call o k got).threads t' = s.threads t' :=
    fun t' ht' => AllocThreads.withThread_of_ne _ _ ht'
  have hcalls : (s.afterAccess t call o k got).calls = s.calls := by
    funext t'
    unfold AllocThreads.calls
    by_cases ht' : t' = t
    · rw [ht', hself, hin]
      rfl
    · rw [hother t' ht']
  refine ⟨hi.reachable, hi.live, ?_, fun h => ?_, fun _ =>
    ⟨t, ⟨call, _, _, hself, hreach.step⟩, fun t' ht' => ?_, fun g hg => ?_⟩⟩
  · rw [hcalls]
    exact hi.calls
  · have hlocked : s.locked = false := h
    rw [hi.isLocked hlock] at hlocked
    exact absurd hlocked (by simp)
  · by_cases heq : t' = t
    · exact heq
    · rw [hother t' heq] at ht'
      exact hh.only t' ht'
  · rw [hself] at hg
    have hregions : (s.afterAccess t call o k got).heap.regions = s.heap.regions := hregions
    rw [hregions]
    have hold : ∀ g ∈ got, RegionWellFormed g ∧ ∀ rg ∈ s.heap.regions, Apart rg g := by
      have hgot := hh.got
      rw [hin] at hgot
      exact hgot
    -- what was got is fresh
    cases o with
    | vmAlloc size base =>
      cases base with
      | none => exact hold g hg
      | some base =>
        rcases List.mem_cons.mp hg with heq | hg
        · rw [heq]
          exact ⟨hmay.wellFormed, hmay.regions⟩
        · exact hold g hg
    | load addr => exact hold g hg
    | store addr value => exact hold g hg
    | getFree => exact hold g hg
    | setFree node => exact hold g hg
    | getChunk => exact hold g hg
    | setChunk chunk => exact hold g hg

/-- **The call takes its effect** when the lock is released. -/
theorem LockInv.step_release {call : LockedCall} {p : Nat} {got : List ByteRange}
    (hi : LockInv s r) (hin : s.threads t = .inside call (.ret (.ok p)) got) :
    ∃ r', AtomicStep r (.release t call p) r' ∧ LockInv (s.afterRelease t p call got) r' := by
  have hlock : (s.threads t).hasLock = true := by
    rw [hin]
    rfl
  have hh := hi.holder hlock
  have hcall : s.calls t = some call := by
    unfold AllocThreads.calls
    rw [hin]
    rfl
  have hsmall := hi.calls.small t call hcall
  have hgot := hh.got
  obtain ⟨call₀, code, got₀, hin₀, hreach⟩ := hh.reaches
  rw [hin] at hin₀ hgot
  injection hin₀ with hcall₀ hcode hgot₀
  rw [← hcall₀, ← hcode, ← hgot₀] at hreach
  -- `r` has not moved since the lock was taken: the whole code runs from its heap
  have hrun : run HeapOp.act call.code ⟨r.heap, []⟩ = (.ok p, ⟨s.heap, got⟩) :=
    hreach.run_eq.symm
  have hstep : AtomicStep r (.release t call p)
      ⟨Holding.done ⟨s.heap, got⟩, call.liveAfter r.live p⟩ := by
    cases call with
    | alloc fuel base layout =>
      obtain ⟨vm, hgave, hok⟩ := LockedCall.run_alloc hsmall hrun
      refine AtomicStep.alloc (fun size b hb => ?_) hok
      obtain ⟨hwf, hfresh⟩ := hgot _ (hgave size b hb)
      exact ⟨hwf, hi.regions ▸ hfresh⟩
    | dealloc ptr layout =>
      obtain ⟨free, hinv⟩ := hi.reachable.inv
      have hsmall : normSize layout < largeThreshold := hsmall
      have hmem : (ptr, layout) ∈ r.live := hi.live ▸ (hi.calls.frees t _ _ hcall rfl).1
      obtain ⟨w, hrun', hok⟩ :=
        LockedCall.run_dealloc (h := r.heap) (hinv.live_ne_zero hmem) hsmall true
      rw [hrun] at hrun'
      injection hrun' with _ hw
      rw [← hw] at hok
      exact AtomicStep.dealloc hmem hok
  have hself : (s.afterRelease t p call got).threads t = .outside :=
    AllocThreads.withThread_self _ _ _
  refine ⟨_, hstep, hstep.reachable hi.reachable, congrArg (call.liveAfter · p) hi.live, ?_,
    fun _ => ⟨rfl, fun t' => ?_⟩, fun h => ?_⟩
  · unfold AllocThreads.afterRelease
    rw [AllocThreads.calls_withThread]
    exact hi.calls.finish hcall p
  · by_cases heq : t' = t
    · rw [heq, hself]
      rfl
    · have hother : (s.afterRelease t p call got).threads t' = s.threads t' :=
        AllocThreads.withThread_of_ne _ _ heq
      rw [hother]
      rcases hhas : (s.threads t').hasLock with _ | _
      · rfl
      · exact absurd (hh.only t' hhas) heq
  · have hlocked : false = true := h
    exact absurd hlocked (by simp)

/-- Every step is one of the atomic allocator. -/
theorem LockInv.step {s' : AllocThreads} {e : LockEvent} (hi : LockInv s r)
    (h : LockStep s e s') : ∃ r', AtomicStep r e r' ∧ LockInv s' r' := by
  cases h with
  | call hout hsmall hheld => exact ⟨r, .silent rfl, hi.step_call hout hsmall hheld⟩
  | spin hwait => exact ⟨r, .silent rfl, hi⟩
  | acquire hwait hfree => exact ⟨r, .silent rfl, hi.step_acquire hwait hfree⟩
  | access hin hmay => exact ⟨r, .silent rfl, hi.step_access hin hmay⟩
  | release hin => exact hi.step_release hin
  | allocLarge hout hlarge hfresh => exact hi.step_allocLarge hlarge hfresh
  | @refuseLarge t layout hout hlarge =>
    have hok : r.heap.allocImpl (fun _ => none) 0 layout = .ok (0, r.heap) := by
      unfold Heap.allocImpl
      rw [normalize_eq, Outcome.ok_bind]
      dsimp only
      rw [if_pos hlarge]
      rfl
    exact ⟨r, AtomicStep.allocLarge (fun _ _ hb => absurd hb (by simp)) hok, hi⟩
  | deallocLarge hout hlarge hheld => exact hi.step_deallocLarge hlarge hheld _
  | read hmay =>
    refine ⟨r, ?_, hi⟩
    rw [hi.mem_eq hmay]
    exact AtomicStep.read
  | write hmay => exact hi.step_write hmay

end

/-- **The lock makes calls atomic.** Whatever a run of the threads does, in whatever order,
an allocator whose calls are one step does the same: the same calls return the same blocks,
and the clients read the same bytes. No two threads have the lock, the heap is that of the
other allocator whenever no thread has it, and the blocks that are live never overlap. -/
theorem allocator_linearizes {mem : Mem} {events : List LockEvent} {s : AllocThreads}
    (h : System.Run LockStep (AllocThreads.start mem) events s) :
    (∃ r, System.Run AtomicStep ⟨(AllocThreads.start mem).heap, []⟩ events r ∧
      AllocatorSafe r ∧ s.live = r.live ∧ (s.locked = false → s.heap = r.heap)) ∧
    ∀ t t', (s.threads t).hasLock = true → (s.threads t').hasLock = true → t = t' := by
  have hsim : ∀ (s : AllocThreads) (e : LockEvent) (s' : AllocThreads) (r : AllocRun),
      LockInv s r → LockStep s e s' → ∃ r', AtomicStep r e r' ∧ LockInv s' r' :=
    fun _ _ _ _ hi hstep => hi.step hstep
  obtain ⟨r, hrun, hi⟩ := h.refines hsim (LockInv.init mem)
  refine ⟨⟨r, hrun, allocator_safe hi.reachable, hi.live, fun hfree => (hi.unlocked hfree).1⟩, ?_⟩
  intro t t' ht ht'
  exact (hi.holder ht').only t ht

/-! ## A short run

A thread gets a block of 24 bytes. Another one spins in the meantime, and a byte is written
somewhere else. -/

def sampleLockedCall : LockedCall := .alloc 1 (some 0x100000) sampleLayout24

theorem sampleOutside {s : AllocThreads} {a : Nat} (hregions : s.heap.regions = [])
    (hgot : ∀ t, (s.threads t).got = []) : s.MayAccess a := by
  refine .inr ⟨fun r hr => ?_, fun t r hr => ?_⟩
  · rw [hregions] at hr
    exact absurd hr (by simp)
  · rw [hgot t] at hr
    exact absurd hr (by simp)

theorem sampleFresh {s : AllocThreads} (hregions : s.heap.regions = [])
    (hgot : ∀ t, (s.threads t).got = []) :
    s.MayPerform (.vmAlloc chunkSize (some 0x100000)) := by
  refine ⟨⟨by decide, by decide⟩, fun r hr => ?_, fun t r hr => ?_⟩
  · rw [hregions] at hr
    exact absurd hr (by simp)
  · rw [hgot t] at hr
    exact absurd hr (by simp)

theorem sampleThreads_got {s : AllocThreads} (h0 : (s.threads 0).got = [])
    (h1 : (s.threads 1).got = []) (hother : ∀ t, t ≠ 0 → t ≠ 1 → s.threads t = .outside) :
    ∀ t, (s.threads t).got = [] := by
  intro t
  by_cases ht : t = 0
  · rw [ht, h0]
  · by_cases ht' : t = 1
    · rw [ht', h1]
    · rw [hother t ht ht']
      rfl

theorem sampleThreads_run : ∃ events s,
    System.Run LockStep (AllocThreads.start fun _ => 0) events s ∧
      s.live = [(0x100000, sampleLayout24)] := by
  have hsmall : normSize sampleLockedCall.layout < largeThreshold := by decide
  have hfrees : ∀ (s : AllocThreads) (l : Nat × Layout), sampleLockedCall.frees = some l →
      s.Held l := fun _ l hl => absurd hl (by simp [sampleLockedCall, LockedCall.frees])
  have h0 : System.Run LockStep (AllocThreads.start fun _ => 0) [] _ := System.Run.nil
  have h1 := h0.snoc (LockStep.call (t := 0) rfl hsmall (hfrees _))
  have h2 := h1.snoc (LockStep.call (t := 1) rfl hsmall (hfrees _))
  have h3 := h2.snoc (LockStep.acquire (t := 0) rfl rfl)
  have h4 := h3.snoc (LockStep.spin (t := 1) rfl)
  -- the list is empty, and there is no chunk
  have h5 := h4.snoc (LockStep.access (t := 0) (o := .getFree) rfl trivial)
  have h6 := h5.snoc (LockStep.access (t := 0) (o := .getChunk) rfl trivial)
  have h7 := h6.snoc (LockStep.write (a := 5) (b := 1) (sampleOutside rfl
    (sampleThreads_got rfl rfl fun t ht ht' => by
      simp [AllocThreads.afterAccess, AllocThreads.afterAcquire, AllocThreads.start, ht, ht'])))
  have h8 := h7.snoc (LockStep.access (t := 0) (o := .vmAlloc chunkSize (some 0x100000)) rfl
    (sampleFresh rfl (sampleThreads_got rfl rfl fun t ht ht' => by
      simp [AllocThreads.afterAccess, AllocThreads.afterAcquire, AllocThreads.start, ht, ht'])))
  have h9 := h8.snoc (LockStep.access (t := 0) (o := .setChunk ⟨0x100000, chunkSize, 0⟩) rfl
    trivial)
  have h10 := h9.snoc (LockStep.access (t := 0) (o := .getChunk) rfl trivial)
  have h11 := h10.snoc (LockStep.access (t := 0) (o := .setChunk ⟨0x100000, chunkSize, 24⟩) rfl
    trivial)
  have h12 := h11.snoc (LockStep.release (t := 0) (p := 0x100000) rfl)
  exact ⟨_, _, h12, rfl⟩

theorem sampleThreads_linearize : ∃ events s,
    System.Run LockStep (AllocThreads.start fun _ => 0) events s ∧
      s.live = [(0x100000, sampleLayout24)] ∧
      ∃ r, System.Run AtomicStep ⟨(AllocThreads.start fun _ => 0).heap, []⟩ events r ∧
        AllocatorSafe r ∧ s.live = r.live := by
  obtain ⟨events, s, hrun, hlive⟩ := sampleThreads_run
  obtain ⟨⟨r, hatomic, hsafe, hsame, -⟩, -⟩ := allocator_linearizes hrun
  exact ⟨events, s, hrun, hlive, r, hatomic, hsafe, hsame⟩

end Dynld
