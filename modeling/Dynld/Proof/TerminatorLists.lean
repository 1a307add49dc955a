import Dynld.Proof.ThreadTables

/-!
# Lists of terminators

The terminators of a thread are in a list that is moved to a larger one when it is full.
The list stands for the entries that were registered (`Pending`): no entry is lost, the
old list is freed when it is moved, and nothing else that is in use is written.
-/

namespace Dynld

/-! ## A list -/

/-- A list with room for `n` entries. `others` are the other ranges in use. -/
structure ListAt (s : Tlv) (list n : Nat) (others : List ByteRange)
    (entries : List (Nat × Nat)) : Prop where
  ne : list ≠ 0
  alloc : s.mem.readWord 4 list = n
  used : s.mem.readWord 4 (list + 4) = entries.length
  fits : entries.length ≤ n
  grown : 0 < n ∧ (n = 1 ∨ n ≤ 2 * entries.length)
  pairs : s.mem.PairsAt (list + 8) entries
  block : ⟨list, terminatorListSize n⟩ ∈ s.live
  rest : s.live.filter (fun r => r.start != list) = others
  apart : ∀ r ∈ others, ByteRange.Apart ⟨list, terminatorListSize n⟩ r

/-- Between `s` and `s'` only the terminators of one thread were changed, and new memory. -/
structure ListStep (thread : Nat) (others : List ByteRange) (s s' : Tlv) : Prop where
  mem : ∀ r ∈ others, ∀ x ∈ r, s'.mem x = s.mem x
  specific : ∀ t k, (t, k) ≠ (thread, s.terminatorsKey) → s'.specific t k = s.specific t k
  key : s'.terminatorsKey = s.terminatorsKey
  destroyed : s'.destroyed = s.destroyed

theorem ListStep.refl (thread : Nat) (others : List ByteRange) (s : Tlv) :
    ListStep thread others s s := ⟨fun _ _ _ _ => rfl, fun _ _ _ => rfl, rfl, rfl⟩

theorem ListStep.trans {thread : Nat} {others : List ByteRange} {s s' s'' : Tlv}
    (h : ListStep thread others s s') (h' : ListStep thread others s' s'') :
    ListStep thread others s s'' := by
  refine ⟨fun r hr x hx => (h'.mem r hr x hx).trans (h.mem r hr x hx), fun t k hne => ?_,
    h'.key.trans h.key, h'.destroyed.trans h.destroyed⟩
  have hne' : (t, k) ≠ (thread, s'.terminatorsKey) := by
    rw [h.key]
    exact hne
  exact (h'.specific t k hne').trans (h.specific t k hne)

/-- The terminators that a thread has registered. -/
def Pending (s : Tlv) (thread : Nat) (others : List ByteRange) (entries : List (Nat × Nat)) : Prop :=
  s.specific thread s.terminatorsKey = 0 ∧ s.live = others ∧ entries = [] ∨
    entries ≠ [] ∧ ∃ n, ListAt s (s.specific thread s.terminatorsKey) n others entries

section

variable {libc : Libc} {thread list n func objAddr : Nat} {others : List ByteRange}
  {entries : List (Nat × Nat)} {s s' : Tlv}

theorem ListAt.congr (h : ListAt s list n others entries) (hlive : s'.live = s.live)
    (hmem : ∀ x ∈ (⟨list, terminatorListSize n⟩ : ByteRange), s'.mem x = s.mem x) :
    ListAt s' list n others entries where
  ne := h.ne
  alloc := by
    rw [← h.alloc]
    exact Mem.readWord_congr fun x hx => hmem x (ByteRange.within_mk (Nat.le_refl _)
      (by unfold terminatorListSize; omega) x hx)
  used := by
    rw [← h.used]
    exact Mem.readWord_congr fun x hx => hmem x (ByteRange.within_mk (by omega)
      (by unfold terminatorListSize; omega) x hx)
  fits := h.fits
  grown := h.grown
  pairs := by
    have hfits := h.fits
    exact h.pairs.congr fun x hx => hmem x (ByteRange.within_mk (by omega)
      (by unfold terminatorListSize; omega) x hx)
  block := hlive ▸ h.block
  rest := hlive ▸ h.rest
  apart := h.apart

/-- Nothing else in use starts where a new range does. -/
theorem filter_fresh {r : ByteRange} (hpos : ∀ q ∈ others, 0 < q.len) (hr : 0 < r.len)
    (hfresh : ∀ q ∈ others, ByteRange.Apart r q) :
    others.filter (fun q => q.start != r.start) = others := by
  refine List.filter_eq_self.mpr fun q hq => bne_iff_ne.mpr fun hbad => ?_
  have hlen := hpos q hq
  refine hfresh q hq r.start (ByteRange.mem_def.mpr ⟨Nat.le_refl _, by omega⟩)
    (ByteRange.mem_def.mpr ⟨?_, ?_⟩)
  · omega
  · omega

/-! ## Registering -/

theorem tlvGetSpecific_bind {α : Type} (f : Nat → Exec Tlv α) :
    (Tlv.getSpecific thread >>= f) s = f (s.specific thread s.terminatorsKey) s := rfl

theorem tlvRead_bind {α : Type} {w a : Nat} (f : Nat → Exec Tlv α) :
    (Tlv.read w a >>= f) s = f (s.mem.readWord w a) s := rfl

/-- The process after an entry was appended. -/
def Tlv.pushEntry (s : Tlv) (list used func objAddr : Nat) : Tlv :=
  { s with
    mem := (s.mem.writePair (list + 8 + 16 * used) func objAddr).writeWord 4 (list + 4)
      ((used + 1) % 2 ^ 32) }

theorem terminatorsAppend_run (h : ListAt s list n others entries) (func objAddr : Nat) :
    terminatorsAppend list func objAddr s
      = (.ok (), s.pushEntry list entries.length func objAddr) := by
  unfold terminatorsAppend Tlv.pushEntry
  rw [tlvRead_bind, h.used, terminatorListSize, ← Nat.add_assoc]
  rfl

theorem ListAt.append (h : ListAt s list n others entries) (hroom : entries.length < n)
    (hn : n < 2 ^ 32) (hw : func < 2 ^ 64 ∧ objAddr < 2 ^ 64) :
    ListAt (s.pushEntry list entries.length func objAddr) list n others
      (entries ++ [(func, objAddr)]) := by
  have hlen : (entries ++ [(func, objAddr)]).length = entries.length + 1 := by
    rw [List.length_append, List.length_singleton]
  have hmod : (entries.length + 1) % 2 ^ 32 = entries.length + 1 := Nat.mod_eq_of_lt (by omega)
  have hpairs : (s.mem.writePair (list + 8 + 16 * entries.length) func objAddr).PairsAt (list + 8)
      (entries ++ [(func, objAddr)]) := h.pairs.push hw.1 hw.2
  have hcount : ∀ x ∈ (⟨list + 8, 16 * (entries.length + 1)⟩ : ByteRange),
      x ∉ (⟨list + 4, 4⟩ : ByteRange) := fun x hx hbad => by
    have hlo := (ByteRange.mem_mk.mp hx).1
    have hhi := (ByteRange.mem_mk.mp hbad).2
    omega
  unfold Tlv.pushEntry
  refine ⟨h.ne, ?_, ?_, by omega, ⟨h.grown.1, ?_⟩, ?_, h.block, h.rest, h.apart⟩
  · rw [← h.alloc]
    refine Mem.readWord_congr fun x hx => ?_
    have hhi := (ByteRange.mem_mk.mp hx).2
    refine (Mem.writeWord_of_notMem fun hbad => ?_).trans (Mem.writePair_of_notMem fun hbad => ?_)
    · have hlo := (ByteRange.mem_mk.mp hbad).1
      omega
    · have hlo := (ByteRange.mem_mk.mp hbad).1
      omega
  · rw [hlen]
    refine (Mem.readWord_writeWord _ _ ?_).trans hmod
    exact Nat.mod_lt _ (by decide)
  · rw [hlen]
    have hgrown := h.grown.2
    omega
  · refine hpairs.congr fun x hx => Mem.writeWord_of_notMem (hcount x ?_)
    rw [hlen] at hx
    exact hx

theorem pushEntry_step (h : ListAt s list n others entries) (hroom : entries.length < n) :
    ListStep thread others s (s.pushEntry list entries.length func objAddr) := by
  refine ⟨fun r hr x hx => ?_, fun _ _ _ => rfl, rfl, rfl⟩
  have hout : x ∉ (⟨list, terminatorListSize n⟩ : ByteRange) := fun hbad => h.apart r hr x hbad hx
  refine (Mem.writeWord_of_notMem fun hbad => hout ?_).trans
    (Mem.writePair_of_notMem fun hbad => hout ?_)
  · exact ByteRange.within_mk (by omega) (by unfold terminatorListSize; omega) x hbad
  · exact ByteRange.within_mk (by omega) (by unfold terminatorListSize; omega) x hbad

theorem tlvWrite_bind {α : Type} {w a v : Nat} (f : Unit → Exec Tlv α) :
    (Tlv.write w a v >>= f) s = f () { s with mem := s.mem.writeWord w a v } := rfl

/-- Every entry is copied. -/
theorem entriesCopy_run {newlist : Nat} (hapart : ByteRange.Apart ⟨newlist + 8, 16 * entries.length⟩
    ⟨list + 8, 16 * entries.length⟩) : ∀ (remaining i : Nat) (s : Tlv),
    i + remaining = entries.length → s.mem.PairsAt (list + 8) entries →
    s.mem.PairsAt (newlist + 8) (entries.take i) →
    ∃ m, entriesCopy list newlist remaining i s = (.ok (), { s with mem := m }) ∧
      m.PairsAt (newlist + 8) entries ∧
      ∀ x, x ∉ (⟨newlist + 8, 16 * entries.length⟩ : ByteRange) → m x = s.mem x := by
  intro remaining
  induction remaining with
  | zero =>
    intro i s hi _ hnew
    rw [List.take_of_length_le (by omega)] at hnew
    exact ⟨s.mem, rfl, hnew, fun _ _ => rfl⟩
  | succ remaining ih =>
    intro i s hi hold hnew
    have hlt : i < entries.length := by omega
    obtain ⟨hfunc, hobj⟩ := hold i entries[i] (List.getElem?_eq_getElem hlt)
    have hlen : (entries.take i).length = i := List.length_take_of_le (Nat.le_of_lt hlt)
    have hfuncLt : entries[i].1 < 2 ^ 64 := by
      rw [← hfunc]
      exact Mem.readWord_lt 8 s.mem _
    have hobjLt : entries[i].2 < 2 ^ 64 := by
      rw [← hobj]
      exact Mem.readWord_lt 8 s.mem _
    have hin : ByteRange.Within ⟨newlist + 8 + 16 * i, 16⟩ ⟨newlist + 8, 16 * entries.length⟩ :=
      ByteRange.within_mk (by omega) (by omega)
    have hpushed := hnew.push hfuncLt hobjLt
    rw [hlen] at hpushed
    have hold' : (s.mem.writePair (newlist + 8 + 16 * i) entries[i].1 entries[i].2).PairsAt
        (list + 8) entries := hold.congr fun x hx =>
      Mem.writePair_of_notMem fun hbad => hapart x (hin x hbad) hx
    obtain ⟨m, hrun, hpairs, hmem⟩ := ih (i + 1)
      { s with mem := s.mem.writePair (newlist + 8 + 16 * i) entries[i].1 entries[i].2 }
      (by omega) hold' (by rw [List.take_succ_eq_append_getElem hlt]; exact hpushed)
    refine ⟨m, ?_, hpairs, fun x hx => (hmem x hx).trans (Mem.writePair_of_notMem fun hbad =>
      hx (hin x hbad))⟩
    rw [entriesCopy, tlvRead_bind, tlvRead_bind, tlvWrite_bind, tlvWrite_bind, terminatorListSize,
      ← Nat.add_assoc, ← Nat.add_assoc, hfunc, hobj]
    exact hrun

/-- The process after the list was moved. -/
def Tlv.moveTerminators (s : Tlv) (thread list newlist size : Nat) (m : Mem) : Tlv :=
  { s with
    mem := m
    live := (⟨newlist, size⟩ :: s.live).filter fun r => r.start != list
    specific := (s.setSpecific thread s.terminatorsKey newlist).specific }

/-- The ranges in use after the list was moved. -/
theorem ListAt.moved (h : ListAt s list n others entries) (hpos : ∀ r ∈ s.live, 0 < r.len)
    {newlist size : Nat} (hsize : 0 < size)
    (hfresh : ∀ r ∈ s.live, ByteRange.Apart ⟨newlist, size⟩ r) :
    (⟨newlist, size⟩ :: s.live).filter (fun r => r.start != list) = ⟨newlist, size⟩ :: others ∧
      others.filter (fun r => r.start != newlist) = others := by
  have hmem : ∀ r ∈ others, r ∈ s.live := fun r hr => by
    rw [← h.rest] at hr
    exact (List.mem_filter.mp hr).1
  have hne : newlist ≠ list := by
    rintro rfl
    refine hfresh _ h.block newlist (ByteRange.mem_mk.mpr ⟨Nat.le_refl _, by omega⟩)
      (ByteRange.mem_mk.mpr ⟨Nat.le_refl _, ?_⟩)
    unfold terminatorListSize
    omega
  have hkept : ((⟨newlist, size⟩ : ByteRange).start != list) = true := bne_iff_ne.mpr hne
  rw [List.filter_cons_of_pos (p := fun r : ByteRange => r.start != list) hkept, h.rest]
  exact ⟨rfl, filter_fresh (r := ⟨newlist, size⟩) (fun r hr => hpos r (hmem r hr)) hsize
    fun r hr => hfresh r (hmem r hr)⟩

/-- **The list is moved** with all its entries, and the old one is freed. -/
theorem terminatorsGrow_eq_ok {newlist : Nat} (hlibc : libc.Sound)
    (hpos : ∀ r ∈ s.live, 0 < r.len) (h : ListAt s list n others entries)
    (hfull : entries.length = n) (hn : 2 * n < 2 ^ 32)
    (hgrow : terminatorsGrow libc thread list s = (.ok newlist, s')) :
    ListAt s' newlist (2 * n) others entries ∧ ListStep thread others s s' ∧
      s'.specific thread s'.terminatorsKey = newlist ∧ ∀ r ∈ s'.live, 0 < r.len := by
  have hmod : n * 2 % 2 ^ 32 = 2 * n := by omega
  have hgrown := h.grown.1
  unfold terminatorsGrow at hgrow
  rw [tlvRead_bind, h.alloc, hmod] at hgrow
  obtain ⟨new, s₁, hnew, hgrow⟩ := Exec.bind_eq_ok.mp hgrow
  obtain ⟨hmalloc, rfl⟩ := tlvMalloc_eq_ok.mp hnew
  obtain ⟨hne, -, hfresh⟩ := hlibc.malloc _ _ _ hmalloc
  have hout : ∀ x ∈ (⟨list, terminatorListSize n⟩ : ByteRange),
      x ∉ (⟨new, terminatorListSize (2 * n)⟩ : ByteRange) :=
    fun x hx hbad => hfresh _ h.block x hbad hx
  -- the counts of the new list
  have hcounts : ∀ x, x ∉ (⟨new, 8⟩ : ByteRange) →
      ((s.mem.writeWord 4 new (2 * n)).writeWord 4 (new + 4) entries.length) x = s.mem x := by
    intro x hx
    refine (Mem.writeWord_of_notMem fun hbad => hx ?_).trans
      (Mem.writeWord_of_notMem fun hbad => hx ?_)
    · exact ByteRange.within_mk (by omega) (by omega) x hbad
    · exact ByteRange.within_mk (by omega) (by omega) x hbad
  have hused : (s.mem.writeWord 4 new (2 * n)).readWord 4 (list + 4) = entries.length := by
    rw [← h.used]
    refine Mem.readWord_congr fun x hx => Mem.writeWord_of_notMem fun hbad => hout x ?_ ?_
    · exact ByteRange.within_mk (by omega) (by unfold terminatorListSize; omega) x hx
    · exact ByteRange.within_mk (by omega) (by unfold terminatorListSize; omega) x hbad
  rw [tlvWrite_bind, tlvRead_bind] at hgrow
  dsimp only at hgrow
  rw [hused, tlvWrite_bind] at hgrow
  have hold : ((s.mem.writeWord 4 new (2 * n)).writeWord 4 (new + 4) entries.length).PairsAt
      (list + 8) entries := by
    refine h.pairs.congr fun x hx => hcounts x fun hbad => hout x ?_ ?_
    · exact ByteRange.within_mk (by omega) (by unfold terminatorListSize; omega) x hx
    · exact ByteRange.within_mk (by omega) (by unfold terminatorListSize; omega) x hbad
  have hapart : ByteRange.Apart ⟨new + 8, 16 * entries.length⟩ ⟨list + 8, 16 * entries.length⟩ := by
    refine (ByteRange.Apart.symm hout).mono ?_ ?_
    · exact ByteRange.within_mk (by omega) (by unfold terminatorListSize; omega)
    · exact ByteRange.within_mk (by omega) (by unfold terminatorListSize; omega)
  obtain ⟨m, hrun, hpairs, hmem⟩ := entriesCopy_run hapart entries.length 0
    { s with
      mem := (s.mem.writeWord 4 new (2 * n)).writeWord 4 (new + 4) entries.length
      live := ⟨new, terminatorListSize (2 * n)⟩ :: s.live } (Nat.zero_add _) hold
    (Mem.PairsAt.nil _ _)
  rw [Exec.bind_of_ok hrun] at hgrow
  obtain ⟨hok, hs'⟩ := Prod.mk.inj hgrow
  obtain rfl : new = newlist := Outcome.ok.inj hok
  replace hs' : s' = s.moveTerminators thread list new (terminatorListSize (2 * n)) m := hs'.symm
  have hsize : 0 < terminatorListSize (2 * n) := Nat.add_pos_left (by decide) _
  obtain ⟨hlive, hothers⟩ := h.moved hpos hsize hfresh
  have hother : ∀ r ∈ others, ∀ x ∈ r, x ∉ (⟨new, terminatorListSize (2 * n)⟩ : ByteRange) := by
    intro r hr x hx hbad
    rw [← h.rest] at hr
    exact hfresh r (List.mem_filter.mp hr).1 x hbad hx
  have hset : (s.setSpecific thread s.terminatorsKey new).specific thread s.terminatorsKey = new :=
    if_pos ⟨rfl, rfl⟩
  have hhead : ∀ x ∈ (⟨new, 8⟩ : ByteRange),
      m x = ((s.mem.writeWord 4 new (2 * n)).writeWord 4 (new + 4) entries.length) x := fun x hx =>
    hmem x fun hbad => by
      have hlo := (ByteRange.mem_mk.mp hbad).1
      have hhi := (ByteRange.mem_mk.mp hx).2
      omega
  have hfits := h.fits
  rw [hs']
  unfold Tlv.moveTerminators
  refine ⟨⟨hne, ?_, ?_, by omega, ⟨by omega, by omega⟩, hpairs, ?_, ?_, fun r hr x hx hbad =>
    hother r hr x hbad hx⟩, ⟨fun r hr x hx => ?_, fun t k hne => ?_, rfl, rfl⟩, hset, fun r hr => ?_⟩
  · have hread : m.readWord 4 new = ((s.mem.writeWord 4 new (2 * n)).writeWord 4 (new + 4)
        entries.length).readWord 4 new := Mem.readWord_congr fun x hx => hhead x
      (ByteRange.within_mk (Nat.le_refl _) (by omega) x hx)
    rw [hread, Mem.readWord_writeWord_of_apart (ByteRange.apart_of_le (Nat.le_refl _)),
      Mem.readWord_writeWord _ _ (by omega)]
  · have hread : m.readWord 4 (new + 4) = ((s.mem.writeWord 4 new (2 * n)).writeWord 4 (new + 4)
        entries.length).readWord 4 (new + 4) := Mem.readWord_congr fun x hx => hhead x
      (ByteRange.within_mk (by omega) (by omega) x hx)
    rw [hread, Mem.readWord_writeWord _ _ (by omega)]
  · rw [hlive]
    exact List.mem_cons_self
  · dsimp only
    rw [hlive, List.filter_cons_of_neg (by simp), hothers]
  · have hnew := hother r hr x hx
    refine (hmem x fun hbad => hnew ?_).trans (hcounts x fun hbad => hnew ?_)
    · exact ByteRange.within_mk (by omega) (by unfold terminatorListSize; omega) x hbad
    · exact ByteRange.within_mk (Nat.le_refl _) (by unfold terminatorListSize; omega) x hbad
  · exact if_neg fun hbad => hne (Prod.ext hbad.1 hbad.2)
  · rcases List.mem_cons.mp (List.mem_filter.mp hr).1 with rfl | hr
    · exact hsize
    · exact hpos r hr

/-- The process with a list of one entry. -/
def Tlv.firstTerminator (s : Tlv) (thread list func objAddr : Nat) : Tlv :=
  { s with
    mem := ((s.mem.writeWord 4 list 1).writeWord 4 (list + 4) 1).writePair (list + 8) func objAddr
    live := ⟨list, terminatorListSize 1⟩ :: s.live
    specific := (s.setSpecific thread s.terminatorsKey list).specific }

theorem firstTerminator_list (hne : list ≠ 0) (hpos : ∀ r ∈ s.live, 0 < r.len)
    (hfresh : ∀ r ∈ s.live, ByteRange.Apart ⟨list, terminatorListSize 1⟩ r)
    (hw : func < 2 ^ 64 ∧ objAddr < 2 ^ 64) :
    ListAt (s.firstTerminator thread list func objAddr) list 1 s.live [(func, objAddr)] ∧
      ListStep thread s.live s (s.firstTerminator thread list func objAddr) := by
  have hcount : ∀ a, a + 4 ≤ list + 8 →
      (((s.mem.writeWord 4 list 1).writeWord 4 (list + 4) 1).writePair (list + 8) func
        objAddr).readWord 4 a
        = ((s.mem.writeWord 4 list 1).writeWord 4 (list + 4) 1).readWord 4 a := fun a ha =>
    Mem.readWord_congr fun x hx => Mem.writePair_of_notMem fun hbad => by
      have hhi := (ByteRange.mem_mk.mp hx).2
      have hlo := (ByteRange.mem_mk.mp hbad).1
      omega
  have hpairs := (Mem.PairsAt.nil ((s.mem.writeWord 4 list 1).writeWord 4 (list + 4) 1)
    (list + 8)).push hw.1 hw.2
  unfold Tlv.firstTerminator
  refine ⟨⟨hne, ?_, ?_, Nat.le_refl _, ⟨by decide, .inl rfl⟩, hpairs, List.mem_cons_self, ?_, hfresh⟩,
    ⟨fun r hr x hx => ?_, fun t k hne => if_neg fun hbad => hne (Prod.ext hbad.1 hbad.2), rfl, rfl⟩⟩
  · dsimp only
    rw [hcount _ (by omega), Mem.readWord_writeWord_of_apart (ByteRange.apart_of_le (Nat.le_refl _)),
      Mem.readWord_writeWord _ _ (by decide)]
  · dsimp only
    rw [hcount _ (by omega), Mem.readWord_writeWord _ _ (by decide)]
    rfl
  · have hfilter := @filter_fresh s.live ⟨list, terminatorListSize 1⟩ hpos
      (Nat.succ_pos _) hfresh
    dsimp only
    rw [List.filter_cons_of_neg (by simp), hfilter]
  · have hout : x ∉ (⟨list, terminatorListSize 1⟩ : ByteRange) := fun hbad => hfresh r hr x hbad hx
    refine (Mem.writePair_of_notMem fun hbad => hout ?_).trans ((Mem.writeWord_of_notMem fun hbad =>
      hout ?_).trans (Mem.writeWord_of_notMem fun hbad => hout ?_))
    · exact ByteRange.within_mk (by omega) (by unfold terminatorListSize; omega) x hbad
    · exact ByteRange.within_mk (by omega) (by unfold terminatorListSize; omega) x hbad
    · exact ByteRange.within_mk (by omega) (by unfold terminatorListSize; omega) x hbad

/-- An entry is appended to the list of the thread. -/
theorem append_pending (hset : s.specific thread s.terminatorsKey = list)
    (hlist : ListAt s list n others entries) (hroom : entries.length < n) (hn : n < 2 ^ 32)
    (hw : func < 2 ^ 64 ∧ objAddr < 2 ^ 64)
    (h : terminatorsAppend list func objAddr s = (.ok (), s')) :
    Pending s' thread others (entries ++ [(func, objAddr)]) ∧ ListStep thread others s s' ∧
      s'.live = s.live := by
  rw [terminatorsAppend_run hlist] at h
  obtain rfl := (Prod.mk.inj h).2
  have hlist' := hlist.append hroom hn hw
  rw [← hset] at hlist'
  refine ⟨.inr ⟨List.append_ne_nil_of_right_ne_nil _ (List.cons_ne_nil _ _), n, ?_⟩,
    pushEntry_step hlist hroom, rfl⟩
  rw [← hset]
  exact hlist'

/-- **A terminator is registered** behind the others. -/
theorem tlvAtexit_registers (hlibc : libc.Sound) (hpos : ∀ r ∈ s.live, 0 < r.len)
    (hp : Pending s thread others entries) (hlen : entries.length < 2 ^ 31)
    (hw : func < 2 ^ 64 ∧ objAddr < 2 ^ 64)
    (h : tlvAtexit libc thread func objAddr s = (.ok (), s')) :
    Pending s' thread others (entries ++ [(func, objAddr)]) ∧ ListStep thread others s s' ∧
      ∀ r ∈ s'.live, 0 < r.len := by
  unfold tlvAtexit at h
  rw [tlvGetSpecific_bind] at h
  rcases hp with ⟨hnone, rfl, rfl⟩ | ⟨hsome, n, hlist⟩
  · rw [if_pos hnone] at h
    obtain ⟨list, s₁, hnew, h⟩ := Exec.bind_eq_ok.mp h
    obtain ⟨hmalloc, rfl⟩ := tlvMalloc_eq_ok.mp hnew
    obtain ⟨hne, -, hfresh⟩ := hlibc.malloc _ _ _ hmalloc
    have hs' : s' = s.firstTerminator thread list func objAddr := (Prod.mk.inj h).2.symm
    obtain ⟨hlist, hstep⟩ := @firstTerminator_list thread list func objAddr s hne hpos hfresh hw
    have hset : s'.specific thread s'.terminatorsKey = list := by
      rw [hs']
      exact if_pos ⟨rfl, rfl⟩
    rw [← hs'] at hlist hstep
    refine ⟨.inr ⟨List.cons_ne_nil _ _, 1, hset ▸ hlist⟩, hstep, fun r hr => ?_⟩
    rw [hs'] at hr
    rcases List.mem_cons.mp hr with rfl | hr
    · exact Nat.succ_pos _
    · exact hpos r hr
  · rw [if_neg hlist.ne, tlvRead_bind, tlvRead_bind, hlist.used, hlist.alloc] at h
    have hfits := hlist.fits
    have hgrown := hlist.grown
    by_cases hfull : entries.length = n
    · rw [if_pos hfull] at h
      obtain ⟨newlist, s₁, hgrow, h⟩ := Exec.bind_eq_ok.mp h
      obtain ⟨hlist₁, hstep₁, hset₁, hpos₁⟩ :=
        terminatorsGrow_eq_ok hlibc hpos hlist hfull (by omega) hgrow
      obtain ⟨hp, hstep, hlive⟩ := append_pending hset₁ hlist₁ (by omega) (by omega) hw h
      exact ⟨hp, hstep₁.trans hstep, fun r hr => hpos₁ r (hlive ▸ hr)⟩
    · rw [if_neg hfull, Exec.bind_of_ok (Exec.pure_run _ s)] at h
      obtain ⟨hp, hstep, hlive⟩ := append_pending rfl hlist (by omega) (by omega) hw h
      exact ⟨hp, hstep, fun r hr => hpos r (hlive ▸ hr)⟩

/-- Terminators are registered one after the other. -/
theorem tlvAtexits_register (hlibc : libc.Sound) : ∀ {new entries : List (Nat × Nat)} {s s' : Tlv}
    {us : List Unit}, (∀ r ∈ s.live, 0 < r.len) → Pending s thread others entries →
    entries.length + new.length ≤ 2 ^ 31 → (∀ e ∈ new, e.1 < 2 ^ 64 ∧ e.2 < 2 ^ 64) →
    Exec.each (fun e => tlvAtexit libc thread e.1 e.2) new s = (.ok us, s') →
    Pending s' thread others (entries ++ new) ∧ ListStep thread others s s' ∧
      ∀ r ∈ s'.live, 0 < r.len := by
  intro new
  induction new with
  | nil =>
    intro entries s s' us hpos hp _ _ h
    obtain rfl : s = s' := (Prod.mk.inj h).2
    rw [List.append_nil]
    exact ⟨hp, ListStep.refl _ _ _, hpos⟩
  | cons e new ih =>
    intro entries s s' us hpos hp hlen hw h
    rw [List.length_cons] at hlen
    obtain ⟨u, s₁, hfirst, h⟩ := Exec.bind_eq_ok.mp h
    obtain ⟨us', s₂, hrest, h⟩ := Exec.bind_eq_ok.mp h
    obtain rfl : s₂ = s' := (Prod.mk.inj h).2
    obtain ⟨hp₁, hstep₁, hpos₁⟩ := tlvAtexit_registers hlibc hpos hp (by omega)
      (hw e List.mem_cons_self) hfirst
    have hlen₁ : (entries ++ [(e.1, e.2)]).length + new.length ≤ 2 ^ 31 := by
      rw [List.length_append, List.length_singleton]
      omega
    obtain ⟨hp', hstep', hpos'⟩ :=
      ih hpos₁ hp₁ hlen₁ (fun e' he' => hw e' (List.mem_cons_of_mem e he'))
      hrest
    rw [List.append_assoc] at hp'
    exact ⟨hp', hstep₁.trans hstep', hpos'⟩

end

end Dynld
