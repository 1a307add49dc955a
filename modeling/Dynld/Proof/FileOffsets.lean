import Dynld.Proof.CacheAddresses

/-!
# A file offset in two steps

`runtime_offset_for_file_offset` finds the mapping that has the file offset. The other
way goes through the address: `vm_address_for_file_offset` finds the same mapping, and
`runtime_offset_for_vm_address` then searches the table once more, by address. It may
stop at an earlier entry, whose mapping overlaps in the address space and not in the
file; but what it returns does not depend on where it stops.
-/

namespace Dynld

namespace DyldSharedSubCache

/-- No mapping of the table ends past the address space or begins below the base. -/
structure MappingsAbove (subcache : DyldSharedSubCache) : Prop where
  fits : ∀ k < subcache.mappingTableEntryCount, ∀ mapping, subcache.mappingAt k = .ok mapping →
    mapping.address + mapping.size < 2 ^ 64
  above : ∀ k < subcache.mappingTableEntryCount, ∀ mapping, subcache.mappingAt k = .ok mapping →
    subcache.unslidBaseVmAddress ≤ mapping.address

/-- The second step: the address, if one was found, as an offset. -/
def thenRuntimeOffset (subcache : DyldSharedSubCache) : Option Nat → Outcome (Option Nat)
  | none => .ok none
  | some vmAddress => subcache.runtimeOffsetForVmAddress vmAddress

/-- The entries before this one can be read. -/
def ReadsTo (subcache : DyldSharedSubCache) (entryIndex : Nat) : Prop :=
  ∀ k < entryIndex, ∃ mapping, subcache.mappingAt k = .ok mapping

variable {subcache : DyldSharedSubCache} {a fileOffset : Nat}

/-- An address is found whichever mapping has it, and the offset is that from the base. -/
theorem runtimeOffsetLoop_of_covered (h : subcache.MappingsAbove) {k : Nat}
    {mapping : DyldCacheMappingInfo} (hread : subcache.mappingAt k = .ok mapping)
    (hbefore : subcache.ReadsTo k) (hcovers : mapping.Covers a) :
    ∀ {n entryIndex : Nat}, entryIndex ≤ k → k < entryIndex + n →
      entryIndex + n = subcache.mappingTableEntryCount →
      subcache.runtimeOffsetLoop a n entryIndex
        = .ok (some (a - subcache.unslidBaseVmAddress)) := by
  intro n
  induction n with
  | zero =>
    intro entryIndex hle hlt _
    omega
  | succ n ih =>
    intro entryIndex hle hlt hcount
    obtain ⟨first, hfirst⟩ : ∃ first, subcache.mappingAt entryIndex = .ok first := by
      rcases Nat.lt_or_eq_of_le hle with hlt | rfl
      · exact hbefore entryIndex hlt
      · exact ⟨mapping, hread⟩
    have hend := h.fits entryIndex (by omega) first hfirst
    rw [runtimeOffsetLoop, hfirst, Outcome.ok_bind, Outcome.add_of_lt hend, Outcome.ok_bind]
    split
    · rename_i hin
      have hbase := h.above entryIndex (by omega) first hfirst
      rw [Outcome.sub_of_le (Nat.le_trans hbase hin.1)]
      rfl
    · rename_i hout
      have hne : entryIndex ≠ k := by
        rintro rfl
        obtain rfl := Outcome.ok.inj (hfirst.symm.trans hread)
        exact hout hcovers
      exact ih (by omega) (by omega) (by omega)

/-- The two searches by file offset stop at the same entry. -/
theorem runtimeOffsetForFileOffsetLoop_eq (h : subcache.MappingsAbove) :
    ∀ {n entryIndex : Nat}, entryIndex + n = subcache.mappingTableEntryCount →
      subcache.ReadsTo entryIndex →
      subcache.runtimeOffsetForFileOffsetLoop fileOffset n entryIndex
        = subcache.vmAddressForFileOffsetLoop fileOffset n entryIndex
          >>= subcache.thenRuntimeOffset := by
  intro n
  induction n with
  | zero =>
    intro entryIndex _ _
    rfl
  | succ n ih =>
    intro entryIndex hcount hbefore
    rw [runtimeOffsetForFileOffsetLoop, vmAddressForFileOffsetLoop, Outcome.bind_assoc]
    refine Outcome.bind_congr_ok fun mapping hread => ?_
    rw [Outcome.bind_assoc]
    refine Outcome.bind_congr_ok fun fileEnd hfile => ?_
    by_cases hin : mapping.fileOffset ≤ fileOffset ∧ fileOffset < fileEnd
    · have hend := h.fits entryIndex (by omega) mapping hread
      have hbase := h.above entryIndex (by omega) mapping hread
      have hsize := (Outcome.add_eq_ok.mp hfile).2
      have hcovers : mapping.Covers (mapping.address + (fileOffset - mapping.fileOffset)) :=
        ⟨by omega, by omega⟩
      have hlt : entryIndex < 0 + subcache.mappingTableEntryCount := by omega
      -- the search by address stops at an entry that covers it, this one or one before
      have hfound := runtimeOffsetLoop_of_covered h hread hbefore hcovers (Nat.zero_le entryIndex)
        hlt (Nat.zero_add _)
      rw [if_pos hin, if_pos hin, Outcome.sub_of_le hbase, Outcome.ok_bind,
        Outcome.add_of_lt (by omega), Outcome.add_of_lt (by omega)]
      show Outcome.ok (some _) = subcache.runtimeOffsetLoop _ _ 0
      rw [hfound]
      congr 2
      omega
    · rw [if_neg hin, if_neg hin]
      refine ih (by omega) fun k hk => ?_
      rcases Nat.lt_or_eq_of_le (Nat.le_of_lt_succ hk) with hlt | rfl
      · exact hbefore k hlt
      · exact ⟨mapping, hread⟩

/-- **The runtime offset of a file offset is that of its address**, whatever mappings overlap and
in whatever order they are. -/
theorem runtimeOffsetForFileOffset_eq (h : subcache.MappingsAbove) (fileOffset : Nat) :
    subcache.runtimeOffsetForFileOffset fileOffset
      = subcache.vmAddressForFileOffset fileOffset >>= subcache.thenRuntimeOffset :=
  runtimeOffsetForFileOffsetLoop_eq h (Nat.zero_add _) fun _ hk => absurd hk (Nat.not_lt_zero _)

/-! ## Two mappings that overlap -/

/-- Both mappings have the address `0x1180`; the file offset `0x280` is in the second one only. -/
def sampleOverlap : DyldSharedSubCache where
  container :=
    { data := Bytes.encodeFields .little
        [(8, 0x1100), (8, 0x100), (8, 0), (4, 1), (4, 1),
         (8, 0x1000), (8, 0x200), (8, 0x100), (4, 1), (4, 1)]
      endian := .little }
  unslidBaseVmAddress := 0x1000
  mappingTableOffset := 0
  mappingTableEntryCount := 2

theorem sampleOverlap_above : sampleOverlap.MappingsAbove := by
  have h0 : sampleOverlap.mappingAt 0 = .ok ⟨0x1100, 0x100, 0⟩ := by decide
  have h1 : sampleOverlap.mappingAt 1 = .ok ⟨0x1000, 0x200, 0x100⟩ := by decide
  have hentries : ∀ k < sampleOverlap.mappingTableEntryCount, ∀ mapping,
      sampleOverlap.mappingAt k = .ok mapping →
        mapping.address + mapping.size < 2 ^ 64 ∧ 0x1000 ≤ mapping.address := by
    intro k hk mapping hread
    have hk : k < 2 := hk
    rcases (show k = 0 ∨ k = 1 by omega) with rfl | rfl
    · obtain rfl := Outcome.ok.inj (h0.symm.trans hread)
      exact ⟨by decide, by decide⟩
    · obtain rfl := Outcome.ok.inj (h1.symm.trans hread)
      exact ⟨by decide, by decide⟩
  exact ⟨fun k hk mapping hread => (hentries k hk mapping hread).1,
    fun k hk mapping hread => (hentries k hk mapping hread).2⟩

theorem sampleOverlap_composes :
    sampleOverlap.vmAddressForFileOffset 0x280 >>= sampleOverlap.thenRuntimeOffset
      = .ok (some 0x180) := by
  rw [← runtimeOffsetForFileOffset_eq sampleOverlap_above 0x280]
  decide

end DyldSharedSubCache

end Dynld
