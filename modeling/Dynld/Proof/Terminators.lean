import Dynld.Lib.Stacks
import Dynld.Proof.TerminatorLists

/-!
# Terminators

When a thread goes away, its list of terminators is taken down from its end, and what a
terminator registers goes to a new list, which is taken down at once. So the terminators
are called in the order of one stack (`Work.Drains`), however deep the lists are nested;
every list is freed, and a list that waits is not written to. The calls come to an end
just when those of the stack do.
-/

namespace Dynld

/-! ## Destroying -/

/-- The entries with a function: the others are skipped. -/
def callable (entries : List (Nat × Nat)) : List (Nat × Nat) := entries.filter fun e => e.1 != 0

/-- The entries that a call adds. -/
def Terminators.adds (terms : Terminators) (done : List (Nat × Nat)) (e : Nat × Nat) :
    List (Nat × Nat) := callable (terms.registers done e.1 e.2)

/-- The terminators write to the ranges of the program, and each registers fewer than 2^31. -/
structure Terminators.Sound (terms : Terminators) (program : List ByteRange) : Prop where
  words : ∀ done f o, ∀ e ∈ terms.registers done f o, e.1 < 2 ^ 64 ∧ e.2 < 2 ^ 64
  few : ∀ done f o, (terms.registers done f o).length ≤ 2 ^ 31
  effect : ∀ f o m x, (∀ r ∈ program, x ∉ r) → terms.effect f o m x = m x

/-- Between `s` and `s'` the program may have written to its ranges as well. -/
structure TerminatorStep (program : List ByteRange) (thread : Nat) (others : List ByteRange)
    (s s' : Tlv) : Prop where
  mem : ∀ r ∈ others, ∀ x ∈ r, (∀ q ∈ program, x ∉ q) → s'.mem x = s.mem x
  specific : ∀ t k, (t, k) ≠ (thread, s.terminatorsKey) → s'.specific t k = s.specific t k
  key : s'.terminatorsKey = s.terminatorsKey

/-- A list was destroyed, and is not in use any more. -/
structure Finalized (terms : Terminators) (program : List ByteRange) (thread : Nat)
    (others : List ByteRange) (entries : List (Nat × Nat)) (s s' : Tlv) : Prop where
  step : TerminatorStep program thread others s s'
  live : s'.live = others
  none : s'.specific thread s'.terminatorsKey = 0
  drains : Work.Drains terms.adds (callable entries).reverse s.destroyed s'.destroyed

section

variable {libc : Libc} {terms : Terminators} {program : List ByteRange} {thread list n : Nat}
  {others : List ByteRange} {entries : List (Nat × Nat)} {s s' s'' : Tlv}

theorem TerminatorStep.refl (program : List ByteRange) (thread : Nat) (others : List ByteRange)
    (s : Tlv) : TerminatorStep program thread others s s :=
  ⟨fun _ _ _ _ _ => rfl, fun _ _ _ => rfl, rfl⟩

theorem TerminatorStep.trans (h : TerminatorStep program thread others s s')
    (h' : TerminatorStep program thread others s' s'') :
    TerminatorStep program thread others s s'' := by
  refine ⟨fun r hr x hx hout => (h'.mem r hr x hx hout).trans (h.mem r hr x hx hout),
    fun t k hne => ?_, h'.key.trans h.key⟩
  have hne' : (t, k) ≠ (thread, s'.terminatorsKey) := by
    rw [h.key]
    exact hne
  exact (h'.specific t k hne').trans (h.specific t k hne)

theorem TerminatorStep.mono {fewer : List ByteRange} (h : TerminatorStep program thread others s s')
    (hsub : ∀ r ∈ fewer, r ∈ others) : TerminatorStep program thread fewer s s' :=
  ⟨fun r hr => h.mem r (hsub r hr), h.specific, h.key⟩

/-- A terminator is called: it is noted, and what it registers is on a new list. -/
theorem terminatorCall_eq_ok {f o : Nat} (hlibc : libc.Sound) (hterms : terms.Sound program)
    (hpos : ∀ r ∈ s.live, 0 < r.len) (hnone : s.specific thread s.terminatorsKey = 0)
    (h : terminatorCall libc terms thread f o s = (.ok (), s')) :
    Pending s' thread s.live (terms.registers s.destroyed f o) ∧
      TerminatorStep program thread s.live s s' ∧ s'.destroyed = s.destroyed ++ [(f, o)] ∧
      ∀ r ∈ s'.live, 0 < r.len := by
  have hread : (Exec.lift fun w : Tlv => Outcome.ok w) s = (.ok s, s) := rfl
  unfold terminatorCall at h
  rw [Exec.bind_of_ok hread, Exec.modify_bind] at h
  obtain ⟨us, s₁, hregister, h⟩ := Exec.bind_eq_ok.mp h
  obtain rfl : s₁ = s' := (Prod.mk.inj h).2
  have hfew : ([] : List (Nat × Nat)).length + (terms.registers s.destroyed f o).length ≤ 2 ^ 31 := by
    rw [List.length_nil, Nat.zero_add]
    exact hterms.few _ _ _
  have hregistered := @tlvAtexits_register libc thread s.live hlibc _ [] { s with
    mem := terms.effect f o s.mem
    destroyed := s.destroyed ++ [(f, o)] } s₁ us hpos (.inl ⟨hnone, rfl, rfl⟩) hfew
    (hterms.words _ _ _) hregister
  obtain ⟨hp, hstep, hpos'⟩ := hregistered
  refine ⟨hp, ⟨fun r hr x hx hout => ?_, hstep.specific, hstep.key⟩, hstep.destroyed, hpos'⟩
  exact (hstep.mem r hr x hx).trans (hterms.effect _ _ _ _ hout)

/-- What `tlv_finalize_list` has to do, for the lists that are made while a list is destroyed. -/
def FinalizeOk (terms : Terminators) (program : List ByteRange) (thread : Nat)
    (finalize : Nat → Exec Tlv Unit) : Prop :=
  ∀ {s s' list n others entries}, ListAt s list n others entries →
    s.specific thread s.terminatorsKey = 0 → (∀ r ∈ s.live, 0 < r.len) →
    (∀ q ∈ program, q ∈ others) → finalize list s = (.ok (), s') →
    Finalized terms program thread others entries s s'

/-- A list that is not written to stays as it is. -/
theorem ListAt.kept (h : ListAt s list n others entries) (hprogram : ∀ q ∈ program, q ∈ others)
    (hstep : TerminatorStep program thread s.live s s') (hlive : s'.live = s.live) :
    ListAt s' list n others entries :=
  h.congr hlive fun x hx => hstep.mem _ h.block x hx fun q hq hbad =>
    h.apart q (hprogram q hq) x hx hbad

/-- What was registered while an entry was destroyed is destroyed next. -/
theorem newlistFinalize_eq_ok {finalize : Nat → Exec Tlv Unit} {new : List (Nat × Nat)}
    (hfinalize : FinalizeOk terms program thread finalize) (hpos : ∀ r ∈ s.live, 0 < r.len)
    (hprogram : ∀ q ∈ program, q ∈ others) (hp : Pending s thread others new)
    (h : newlistFinalize thread finalize s = (.ok (), s')) :
    Finalized terms program thread others new s s' := by
  unfold newlistFinalize at h
  rw [tlvGetSpecific_bind] at h
  rcases hp with ⟨hnone, hlive, rfl⟩ | ⟨hne, n, hlist⟩
  · rw [if_pos hnone] at h
    obtain rfl : s = s' := (Prod.mk.inj h).2
    exact ⟨TerminatorStep.refl _ _ _ _, hlive, hnone, Work.Drains.nil _⟩
  · rw [if_neg hlist.ne] at h
    have hset : (Tlv.setTerminators thread 0) s
        = (.ok (), s.setSpecific thread s.terminatorsKey 0) := rfl
    rw [Exec.bind_of_ok hset] at h
    have hlist' : ListAt (s.setSpecific thread s.terminatorsKey 0)
        (s.specific thread s.terminatorsKey) n others new := hlist.congr rfl fun _ _ => rfl
    have hdone := hfinalize hlist' (if_pos ⟨rfl, rfl⟩) hpos hprogram h
    refine ⟨⟨hdone.step.mem, fun t k hne => ?_, hdone.step.key⟩, hdone.live, hdone.none,
      hdone.drains⟩
    exact (hdone.step.specific t k hne).trans (if_neg fun hbad => hne (Prod.ext hbad.1 hbad.2))

theorem callable_take_succ {i : Nat} (hlt : i < entries.length) :
    callable (entries.take (i + 1)) = callable (entries.take i) ++
      if entries[i].1 = 0 then [] else [entries[i]] := by
  unfold callable
  rw [List.take_succ_eq_append_getElem hlt, List.filter_append]
  by_cases hnull : entries[i].1 = 0
  · rw [if_pos hnull, List.filter_cons_of_neg (by simp [hnull]), List.filter_nil]
  · rw [if_neg hnull, List.filter_cons_of_pos (by simp [hnull]), List.filter_nil]

/-- An entry is destroyed, and what that has registered. -/
theorem entryFinalize_eq_ok {finalize : Nat → Exec Tlv Unit} {i : Nat} (hlibc : libc.Sound)
    (hterms : terms.Sound program) (hfinalize : FinalizeOk terms program thread finalize)
    (hlist : ListAt s list n others entries) (hi : i < entries.length)
    (hnone : s.specific thread s.terminatorsKey = 0) (hpos : ∀ r ∈ s.live, 0 < r.len)
    (hprogram : ∀ q ∈ program, q ∈ s.live)
    (h : entryFinalize libc terms thread list i s = (.ok (), s'))
    (h' : newlistFinalize thread finalize s' = (.ok (), s'')) :
    TerminatorStep program thread s.live s s'' ∧ s''.live = s.live ∧
      s''.specific thread s''.terminatorsKey = 0 ∧
      Work.Drains terms.adds (if entries[i].1 = 0 then [] else [entries[i]]) s.destroyed
        s''.destroyed := by
  obtain ⟨hfunc, hobj⟩ := hlist.pairs i entries[i] (List.getElem?_eq_getElem hi)
  unfold entryFinalize at h
  rw [tlvRead_bind, terminatorListSize, ← Nat.add_assoc, hfunc] at h
  by_cases hnull : entries[i].1 = 0
  · rw [if_pos hnull] at h ⊢
    obtain rfl : s = s' := (Prod.mk.inj h).2
    have hdone := newlistFinalize_eq_ok hfinalize hpos hprogram (.inl ⟨hnone, rfl, rfl⟩) h'
    exact ⟨hdone.step, hdone.live, hdone.none, hdone.drains⟩
  · rw [if_neg hnull, tlvRead_bind, hobj] at h
    rw [if_neg hnull]
    obtain ⟨hp, hstep, hdestroyed, hpos'⟩ := terminatorCall_eq_ok hlibc hterms hpos hnone h
    have hdone := newlistFinalize_eq_ok hfinalize hpos' hprogram hp h'
    refine ⟨hstep.trans hdone.step, hdone.live, hdone.none, Work.Drains.cons ?_⟩
    have hdrains := hdone.drains
    rw [hdestroyed] at hdrains
    rw [List.append_nil]
    exact hdrains

/-- **The loop** destroys the entries that are left in the order of a stack. -/
theorem entriesFinalize_eq_ok {finalize : Nat → Exec Tlv Unit} (hlibc : libc.Sound)
    (hterms : terms.Sound program) (hfinalize : FinalizeOk terms program thread finalize)
    (hprogram : ∀ q ∈ program, q ∈ others) :
    ∀ {i : Nat} {s s' : Tlv}, ListAt s list n others entries → i ≤ entries.length →
    s.specific thread s.terminatorsKey = 0 → (∀ r ∈ s.live, 0 < r.len) →
    entriesFinalize libc terms thread finalize list i s = (.ok (), s') →
    Finalized terms program thread s.live (entries.take i) s s' := by
  intro i
  induction i with
  | zero =>
    intro s s' _ _ hnone _ h
    obtain rfl : s = s' := (Prod.mk.inj h).2
    exact ⟨TerminatorStep.refl _ _ _ _, rfl, hnone, Work.Drains.nil _⟩
  | succ i ih =>
    intro s s' hlist hi hnone hpos h
    have hsub : ∀ q ∈ program, q ∈ s.live := fun q hq => by
      have hmem := hprogram q hq
      rw [← hlist.rest] at hmem
      exact (List.mem_filter.mp hmem).1
    obtain ⟨_, s₁, hentry, h⟩ := Exec.bind_eq_ok.mp h
    obtain ⟨_, s₂, hnew, h⟩ := Exec.bind_eq_ok.mp h
    obtain ⟨hstep, hlive, hnone₂, hdrains⟩ :=
      entryFinalize_eq_ok hlibc hterms hfinalize hlist hi hnone hpos hsub hentry hnew
    have hlist₂ := hlist.kept hprogram hstep hlive
    have hdone := ih hlist₂ (Nat.le_of_succ_le hi) hnone₂ (hlive ▸ hpos) h
    rw [hlive] at hdone
    refine ⟨hstep.trans hdone.step, hdone.live, hdone.none, ?_⟩
    rw [callable_take_succ hi, List.reverse_append]
    refine Work.Drains.append_iff.mpr ⟨s₂.destroyed, ?_, hdone.drains⟩
    by_cases hnull : entries[i].1 = 0
    · rw [if_pos hnull] at hdrains ⊢
      exact hdrains
    · rw [if_neg hnull] at hdrains ⊢
      exact hdrains

/-- **A list is destroyed**, with all that is registered meanwhile, and freed. -/
theorem tlvFinalizeList_ok (hlibc : libc.Sound) (hterms : terms.Sound program) : ∀ fuel,
    FinalizeOk terms program thread (tlvFinalizeList libc terms thread fuel) := by
  intro fuel
  induction fuel with
  | zero =>
    intro s s' list n others entries _ _ _ _ h
    exact absurd (Prod.mk.inj h).1 (by simp)
  | succ fuel ih =>
    intro s s' list n others entries hlist hnone hpos hprogram h
    rw [tlvFinalizeList, tlvRead_bind, hlist.used] at h
    obtain ⟨_, s₁, hentries, h⟩ := Exec.bind_eq_ok.mp h
    have hdone :=
      entriesFinalize_eq_ok hlibc hterms ih hprogram hlist (Nat.le_refl _) hnone hpos hentries
    obtain rfl := (Prod.mk.inj h).2
    rw [List.take_length] at hdone
    have hsub : ∀ r ∈ others, r ∈ s.live := fun r hr => by
      rw [← hlist.rest] at hr
      exact (List.mem_filter.mp hr).1
    have hstep := hdone.step.mono hsub
    refine ⟨⟨hstep.mem, hstep.specific, hstep.key⟩, ?_, hdone.none, hdone.drains⟩
    rw [← hlist.rest, ← hdone.live]

/-- **When a thread goes away**, its terminators are called in the order of a stack: the last one that
was registered is first, and what it registers comes before the others. All lists are freed, and
nothing else in use is written but by the terminators. -/
theorem tlvExit_destroys {fuel : Nat} {new : List (Nat × Nat)} {us : List Unit} (hlibc : libc.Sound)
    (hterms : terms.Sound program) (hpos : ∀ r ∈ s.live, 0 < r.len)
    (hprogram : ∀ q ∈ program, q ∈ s.live) (hnone : s.specific thread s.terminatorsKey = 0)
    (hlen : new.length ≤ 2 ^ 31) (hw : ∀ e ∈ new, e.1 < 2 ^ 64 ∧ e.2 < 2 ^ 64)
    (hregister : Exec.each (fun e => tlvAtexit libc thread e.1 e.2) new s = (.ok us, s'))
    (hexit : tlvExit libc terms thread fuel s' = (.ok (), s'')) :
    Finalized terms program thread s.live new s s'' := by
  have hfew : ([] : List (Nat × Nat)).length + new.length ≤ 2 ^ 31 := by
    rw [List.length_nil, Nat.zero_add]
    exact hlen
  obtain ⟨hp, hstep, hpos'⟩ :=
    tlvAtexits_register hlibc hpos (.inl ⟨hnone, rfl, rfl⟩) hfew hw hregister
  have hdone : Finalized terms program thread s.live new s' s'' :=
    newlistFinalize_eq_ok (tlvFinalizeList_ok hlibc hterms fuel) hpos' hprogram hp hexit
  have hfirst : TerminatorStep program thread s.live s s' :=
    ⟨fun r hr x hx _ => hstep.mem r hr x hx, hstep.specific, hstep.key⟩
  refine ⟨hfirst.trans hdone.step, hdone.live, hdone.none, ?_⟩
  rw [← hstep.destroyed]
  exact hdone.drains

/-- The terminator at `0x2000` registers two others. -/
def sampleTerms : Terminators where
  registers := fun _ f o =>
    if f = 0x2000 then [(0x3000, o % 2 ^ 64), (0x3000, (o + 1) % 2 ^ 64)] else []
  effect := fun _ _ mem => mem

theorem sampleTerms_sound : sampleTerms.Sound [] where
  words := by
    intro done f o e he
    unfold sampleTerms at he
    dsimp only at he
    split at he
    · rcases List.mem_cons.mp he with rfl | he
      · exact ⟨show 0x3000 < 2 ^ 64 by decide, Nat.mod_lt _ (by decide)⟩
      · obtain rfl := List.mem_singleton.mp he
        exact ⟨show 0x3000 < 2 ^ 64 by decide, Nat.mod_lt _ (by decide)⟩
    · exact absurd he List.not_mem_nil
  few := by
    intro done f o
    unfold sampleTerms
    dsimp only
    split
    · rw [List.length_cons, List.length_singleton]
      decide
    · exact Nat.zero_le _
  effect := fun _ _ _ _ _ => rfl

/-- A thread has registered three terminators: the list was moved twice. -/
def sampleRegistered : Tlv := (Exec.each (fun e : Nat × Nat => tlvAtexit sampleLibc 7 e.1 e.2)
  [(0x2000, 1), (0x2000, 2), (0x4000, 3)] (sampleProcess (fun _ => 0) [⟨0x1000, 16⟩])).2

theorem sampleRegistered_run : Exec.each (fun e : Nat × Nat => tlvAtexit sampleLibc 7 e.1 e.2)
    [(0x2000, 1), (0x2000, 2), (0x4000, 3)] (sampleProcess (fun _ => 0) [⟨0x1000, 16⟩])
      = (.ok [(), (), ()], sampleRegistered) := Exec.eq_of_fst (by decide +kernel)

theorem sampleProcess_pos : ∀ r ∈ (sampleProcess (fun _ => 0) [⟨0x1000, 16⟩]).live, 0 < r.len := by
  intro r hr
  obtain rfl := List.mem_singleton.mp hr
  decide

theorem sampleTerminators_destroyed : Finalized sampleTerms [] 7 [⟨0x1000, 16⟩]
    [(0x2000, 1), (0x2000, 2), (0x4000, 3)] (sampleProcess (fun _ => 0) [⟨0x1000, 16⟩])
    (tlvExit sampleLibc sampleTerms 7 8 sampleRegistered).2 :=
  tlvExit_destroys sampleLibc_sound sampleTerms_sound sampleProcess_pos
    (fun q hq => absurd hq List.not_mem_nil) rfl (by decide) (by decide) sampleRegistered_run
    (Exec.eq_of_fst (by decide +kernel))

example : (tlvExit sampleLibc sampleTerms 7 8 sampleRegistered).2.destroyed
    = [(0x4000, 3), (0x2000, 2), (0x3000, 3), (0x3000, 2), (0x2000, 1), (0x3000, 2), (0x3000, 1)] := by
  decide +kernel

/-! ## The end of it -/

theorem ok_ne_outOfFuel {α : Type} (a : α) : (Outcome.ok a) ≠ .outOfFuel := by simp

theorem tlvMalloc_ne_outOfFuel (libc : Libc) (size : Nat) (s : Tlv) :
    (Tlv.malloc libc size s).1 ≠ .outOfFuel :=
  Exec.bind_ne_outOfFuel (Outcome.orPanic_ne_outOfFuel _ _) fun a _ _ => ok_ne_outOfFuel a

theorem entriesCopy_ne_outOfFuel {newlist : Nat} : ∀ (remaining i : Nat) (s : Tlv),
    (entriesCopy list newlist remaining i s).1 ≠ .outOfFuel
  | 0, _, _ => ok_ne_outOfFuel ()
  | remaining + 1, i, _ => entriesCopy_ne_outOfFuel remaining (i + 1) _

theorem terminatorsGrow_ne_outOfFuel (s : Tlv) :
    (terminatorsGrow libc thread list s).1 ≠ .outOfFuel := by
  unfold terminatorsGrow
  refine Exec.bind_ne_outOfFuel (ok_ne_outOfFuel _) fun allocCount s₁ _ => ?_
  refine Exec.bind_ne_outOfFuel (tlvMalloc_ne_outOfFuel _ _ _) fun newlist s₂ _ => ?_
  rw [tlvWrite_bind, tlvRead_bind, tlvWrite_bind]
  exact Exec.bind_ne_outOfFuel (entriesCopy_ne_outOfFuel _ _ _) fun _ _ _ => ok_ne_outOfFuel newlist

theorem tlvAtexit_ne_outOfFuel (func objAddr : Nat) (s : Tlv) :
    (tlvAtexit libc thread func objAddr s).1 ≠ .outOfFuel := by
  unfold tlvAtexit
  rw [tlvGetSpecific_bind]
  split
  · refine Exec.bind_ne_outOfFuel (tlvMalloc_ne_outOfFuel _ _ _) fun list s₁ _ => ?_
    exact ok_ne_outOfFuel ()
  · rw [tlvRead_bind, tlvRead_bind]
    split
    · refine Exec.bind_ne_outOfFuel (terminatorsGrow_ne_outOfFuel s) fun list s₁ _ => ?_
      exact ok_ne_outOfFuel ()
    · exact ok_ne_outOfFuel ()

theorem entryFinalize_ne_outOfFuel (i : Nat) (s : Tlv) :
    (entryFinalize libc terms thread list i s).1 ≠ .outOfFuel := by
  unfold entryFinalize
  rw [tlvRead_bind]
  split
  · exact ok_ne_outOfFuel ()
  · rw [tlvRead_bind]
    unfold terminatorCall
    refine Exec.bind_ne_outOfFuel (ok_ne_outOfFuel s) fun s₁ s₂ _ => ?_
    rw [Exec.modify_bind]
    refine Exec.bind_ne_outOfFuel ?_ fun _ _ _ => ok_ne_outOfFuel ()
    exact Exec.each_ne_outOfFuel fun e _ s => tlvAtexit_ne_outOfFuel e.1 e.2 s

/-- A list of which this fuel is enough: it is more than the number of calls that are made. -/
def FinalizeEnds (terms : Terminators) (program : List ByteRange) (thread fuel : Nat)
    (finalize : Nat → Exec Tlv Unit) : Prop :=
  ∀ {s : Tlv} {list n : Nat} {others : List ByteRange} {entries done : List (Nat × Nat)},
    ListAt s list n others entries → s.specific thread s.terminatorsKey = 0 →
    (∀ r ∈ s.live, 0 < r.len) → (∀ q ∈ program, q ∈ others) →
    Work.Drains terms.adds (callable entries).reverse s.destroyed done →
    done.length < s.destroyed.length + fuel → (finalize list s).1 ≠ .outOfFuel

theorem newlistFinalize_ends {finalize : Nat → Exec Tlv Unit} {fuel : Nat}
    {new done : List (Nat × Nat)} (hends : FinalizeEnds terms program thread fuel finalize)
    (hpos : ∀ r ∈ s.live, 0 < r.len) (hprogram : ∀ q ∈ program, q ∈ others)
    (hp : Pending s thread others new)
    (hdrains : Work.Drains terms.adds (callable new).reverse s.destroyed done)
    (hfuel : new ≠ [] → done.length < s.destroyed.length + fuel) :
    (newlistFinalize thread finalize s).1 ≠ .outOfFuel := by
  unfold newlistFinalize
  rw [tlvGetSpecific_bind]
  rcases hp with ⟨hnone, -, -⟩ | ⟨hne, n, hlist⟩
  · rw [if_pos hnone]
    exact ok_ne_outOfFuel ()
  · rw [if_neg hlist.ne]
    have hset : (Tlv.setTerminators thread 0) s
        = (.ok (), s.setSpecific thread s.terminatorsKey 0) := rfl
    rw [Exec.bind_of_ok hset]
    have hlist' : ListAt (s.setSpecific thread s.terminatorsKey 0)
        (s.specific thread s.terminatorsKey) n others new := hlist.congr rfl fun _ _ => rfl
    exact hends hlist' (if_pos ⟨rfl, rfl⟩) hpos hprogram hdrains (hfuel hne)

/-- What an entry has registered is destroyed with fewer calls than the entry. -/
theorem entry_pending {i : Nat} {done : List (Nat × Nat)} (hlibc : libc.Sound)
    (hterms : terms.Sound program) (hlist : ListAt s list n others entries) (hi : i < entries.length)
    (hnone : s.specific thread s.terminatorsKey = 0) (hpos : ∀ r ∈ s.live, 0 < r.len)
    (h : entryFinalize libc terms thread list i s = (.ok (), s'))
    (hdrains : Work.Drains terms.adds (if entries[i].1 = 0 then [] else [entries[i]]).reverse
      s.destroyed done) :
    ∃ new, Pending s' thread s.live new ∧ (∀ r ∈ s'.live, 0 < r.len) ∧
      Work.Drains terms.adds (callable new).reverse s'.destroyed done ∧
      (new ≠ [] → s.destroyed.length < s'.destroyed.length) := by
  obtain ⟨hfunc, hobj⟩ := hlist.pairs i entries[i] (List.getElem?_eq_getElem hi)
  unfold entryFinalize at h
  rw [tlvRead_bind, terminatorListSize, ← Nat.add_assoc, hfunc] at h
  by_cases hnull : entries[i].1 = 0
  · rw [if_pos hnull] at h hdrains
    obtain rfl : s = s' := (Prod.mk.inj h).2
    exact ⟨[], .inl ⟨hnone, rfl, rfl⟩, hpos, hdrains, fun hbad => absurd rfl hbad⟩
  · rw [if_neg hnull, tlvRead_bind, hobj] at h
    rw [if_neg hnull] at hdrains
    obtain ⟨hp, -, hdestroyed, hpos'⟩ := terminatorCall_eq_ok hlibc hterms hpos hnone h
    -- what it registers is drained before the entries that are left
    have hnew := Work.Drains.cons_iff.mp hdrains
    rw [List.append_nil] at hnew
    refine ⟨_, hp, hpos', ?_, fun _ => ?_⟩
    · rw [hdestroyed]
      exact hnew
    · rw [hdestroyed, List.length_append]
      exact Nat.lt_succ_self _

theorem entriesFinalize_ends {finalize : Nat → Exec Tlv Unit} {fuel : Nat} (hlibc : libc.Sound)
    (hterms : terms.Sound program) (hfinalize : FinalizeOk terms program thread finalize)
    (hends : FinalizeEnds terms program thread fuel finalize)
    (hprogram : ∀ q ∈ program, q ∈ others) :
    ∀ {i : Nat} {s : Tlv} {done : List (Nat × Nat)}, ListAt s list n others entries →
    i ≤ entries.length → s.specific thread s.terminatorsKey = 0 → (∀ r ∈ s.live, 0 < r.len) →
    Work.Drains terms.adds (callable (entries.take i)).reverse s.destroyed done →
    done.length ≤ s.destroyed.length + fuel →
    (entriesFinalize libc terms thread finalize list i s).1 ≠ .outOfFuel := by
  intro i
  induction i with
  | zero => intro s done _ _ _ _ _ _; exact ok_ne_outOfFuel ()
  | succ i ih =>
    intro s done hlist hi hnone hpos hdrains hfuel
    have hsub : ∀ q ∈ program, q ∈ s.live := fun q hq => by
      have hmem := hprogram q hq
      rw [← hlist.rest] at hmem
      exact (List.mem_filter.mp hmem).1
    rw [callable_take_succ hi, List.reverse_append] at hdrains
    obtain ⟨done₁, hfirst, hrest⟩ := Work.Drains.append_iff.mp hdrains
    have hle := hrest.length_le
    refine Exec.bind_ne_outOfFuel (entryFinalize_ne_outOfFuel i s) fun _ s₁ hentry => ?_
    refine Exec.bind_ne_outOfFuel ?_ fun _ s₂ hnew => ?_
    · obtain ⟨new, hp, hpos', hdrains', hbound⟩ :=
        entry_pending hlibc hterms hlist hi hnone hpos hentry hfirst
      exact newlistFinalize_ends hends hpos' hsub hp hdrains' fun hne => by
        have hlt := hbound hne
        omega
    · obtain ⟨hstep, hlive, hnone₂, hdone⟩ :=
        entryFinalize_eq_ok hlibc hterms hfinalize hlist hi hnone hpos hsub hentry hnew
      have hsame : s₂.destroyed = done₁ := by
        refine hdone.unique ?_
        by_cases hnull : entries[i].1 = 0
        · rw [if_pos hnull] at hfirst ⊢
          exact hfirst
        · rw [if_neg hnull] at hfirst ⊢
          exact hfirst
      have hlist₂ := hlist.kept hprogram hstep hlive
      have hge := hfirst.length_le
      rw [← hsame] at hrest hge
      exact ih hlist₂ (Nat.le_of_succ_le hi) hnone₂ (hlive ▸ hpos) hrest (by omega)

theorem tlvFinalizeList_ends (hlibc : libc.Sound) (hterms : terms.Sound program) : ∀ fuel,
    FinalizeEnds terms program thread fuel (tlvFinalizeList libc terms thread fuel) := by
  intro fuel
  induction fuel with
  | zero =>
    intro s list n others entries done _ _ _ _ hdrains hfuel
    have hle := hdrains.length_le
    omega
  | succ fuel ih =>
    intro s list n others entries done hlist hnone hpos hprogram hdrains hfuel
    rw [tlvFinalizeList, tlvRead_bind, hlist.used]
    rw [← List.take_length (l := entries)] at hdrains
    refine Exec.bind_ne_outOfFuel ?_ fun _ s₁ _ => ok_ne_outOfFuel ()
    exact entriesFinalize_ends hlibc hterms (tlvFinalizeList_ok hlibc hterms fuel) ih hprogram hlist
      (Nat.le_refl _) hnone hpos hdrains (by omega)

/-- **The calls come to an end** when those of the stack do: with more fuel than there are calls, the
fuel does not run out. -/
theorem tlvExit_ends {fuel : Nat} {new done : List (Nat × Nat)} {us : List Unit}
    (hlibc : libc.Sound) (hterms : terms.Sound program) (hpos : ∀ r ∈ s.live, 0 < r.len)
    (hprogram : ∀ q ∈ program, q ∈ s.live) (hnone : s.specific thread s.terminatorsKey = 0)
    (hlen : new.length ≤ 2 ^ 31) (hw : ∀ e ∈ new, e.1 < 2 ^ 64 ∧ e.2 < 2 ^ 64)
    (hregister : Exec.each (fun e => tlvAtexit libc thread e.1 e.2) new s = (.ok us, s'))
    (hdrains : Work.Drains terms.adds (callable new).reverse s.destroyed done)
    (hfuel : done.length < s.destroyed.length + fuel) :
    (tlvExit libc terms thread fuel s').1 ≠ .outOfFuel := by
  have hfew : ([] : List (Nat × Nat)).length + new.length ≤ 2 ^ 31 := by
    rw [List.length_nil, Nat.zero_add]
    exact hlen
  obtain ⟨hp, hstep, hpos'⟩ :=
    tlvAtexits_register hlibc hpos (.inl ⟨hnone, rfl, rfl⟩) hfew hw hregister
  rw [← hstep.destroyed] at hdrains hfuel
  exact newlistFinalize_ends (tlvFinalizeList_ends hlibc hterms fuel) hpos' hprogram hp hdrains
    fun _ => hfuel

theorem sampleTerminators_end :
    (tlvExit sampleLibc sampleTerms 7 8 sampleRegistered).1 ≠ .outOfFuel := by
  have hdrains : Work.Drains sampleTerms.adds
      (callable [(0x2000, 1), (0x2000, 2), (0x4000, 3)]).reverse
      (sampleProcess (fun _ => 0) [⟨0x1000, 16⟩]).destroyed
      [(0x4000, 3), (0x2000, 2), (0x3000, 3), (0x3000, 2), (0x2000, 1), (0x3000, 2), (0x3000, 1)] := by
    have hcons := @Work.Drains.cons (Nat × Nat) sampleTerms.adds
    exact hcons (hcons (hcons (hcons (hcons (hcons (hcons (Work.Drains.nil _)))))))
  exact tlvExit_ends sampleLibc_sound sampleTerms_sound sampleProcess_pos
    (fun q hq => absurd hq List.not_mem_nil) rfl (by decide) (by decide) sampleRegistered_run hdrains
    (by decide)

end

end Dynld