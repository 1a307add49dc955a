import Dynld.Format.UniversalBinaries

/-!
# Which universal binaries are accepted

Whatever the container holds, its first 32 bytes are read as a 64-bit Mach header, and
only then is the magic number looked at. In a universal binary these bytes are the fat
header and the first entry of its table, and the subtype of that entry's processor is
where a Mach header has its file type. File types are an enumeration with a checked
reader, so `arm64ContainerCreate_iff` asks of the first entry what nobody promises.
-/

namespace Dynld

open Bytes

/-! ## One Mach-O file -/

namespace MachOFileHeader

variable {h : MachOFileHeader} {bytes : List UInt8}

/-- Its magic number comes first. -/
theorem Heads.at_magic (hh : h.Heads bytes) :
    At bytes 0 (encode h.endian 4 (ReprEnum.toNat h.magic)) := by
  have hat := hh.at_start
  unfold fields at hat
  split at hat
  · exact (at_encodeFields_cons.mp hat).1
  · exact (at_encodeFields_cons.mp hat).1

/-- The magic number of a file, as the machine reads it, gives the byte order of the file. -/
theorem Heads.machMagicRead (hh : h.Heads bytes) :
    ∃ magic, Dynld.machMagicRead bytes = .ok magic ∧ machoEndianFromMagic magic = h.endian := by
  have hat := hh.at_magic
  have hswap : ∀ {e : Endian}, h.endian = e → ∃ magic : MachMagic,
      encode e 4 (ReprEnum.toNat h.magic) = encode .little 4 (ReprEnum.toNat magic) ∧
        ReprEnum.toNat magic < 256 ^ 4 ∧ machoEndianFromMagic magic = e := by
    intro e he
    unfold MachOFileHeader.magic
    cases e with
    | little => cases h.is64 <;> exact ⟨_, rfl, by decide, rfl⟩
    | big =>
        cases h.is64
        · exact ⟨.mhCigam, by decide, by decide, rfl⟩
        · exact ⟨.mhCigam64, by decide, by decide, rfl⟩
  obtain ⟨magic, henc, hlt, hendian⟩ := hswap rfl
  rw [henc] at hat
  refine ⟨magic, ?_, hendian⟩
  rw [Dynld.machMagicRead, wordAt_of_at (by decide) hat hlt]
  exact Outcome.orPanic_eq_ok.mpr (ReprEnum.ofNat?_toNat magic)

/-- A 64-bit header is read as it is. -/
theorem Heads.machHeader64 (hh : h.Heads bytes) (h64 : h.is64 = true) :
    Container.machHeader64 ⟨bytes, h.endian⟩ 0 = some h.wide := by
  have hfields : h.fields = h.wide.fields := by rw [fields, if_pos h64]
  exact Container.machHeader64_of_at (hfields ▸ hh.fits) (hfields ▸ hh.at_start)

/-- The check of a slice finds the 64-bit files for arm64. -/
theorem Heads.isArm64_iff (hh : h.Heads bytes) :
    ((Container.machHeader64 ⟨bytes, h.endian⟩ 0).map MachHeader64.isArm64).getD false = true ↔
      h.IsArm64 := by
  by_cases h64 : h.is64 = true
  · rw [hh.machHeader64 h64]
    simp [MachHeader64.isArm64, wide, magic, h64, IsArm64]
  · -- a 32-bit file has another magic number, wherever it ends
    have hmagic : Container.enum32 MachMagic ⟨bytes, h.endian⟩ 0 = some .mhMagic := by
      have hat := hh.at_magic
      rw [magic, if_neg h64] at hat
      exact Container.enum32_of_at hat (by decide)
    constructor
    · intro hcheck
      cases hread : Container.machHeader64 ⟨bytes, h.endian⟩ 0 with
      | none => simp [hread] at hcheck
      | some header =>
          obtain ⟨found, hfound, hrest⟩ := Option.bind_eq_some_iff.mp hread
          obtain rfl := Option.some.inj (hmagic.symm.trans hfound)
          simp only [Option.bind_eq_bind, Option.bind_eq_some_iff] at hrest
          obtain ⟨_, -, _, -, _, -, _, -, _, -, _, -, _, -, hrest⟩ := hrest
          rw [hread, ← Option.some.inj hrest] at hcheck
          simp [MachHeader64.isArm64] at hcheck
    · exact fun harm => absurd harm.1 h64

/-- A 64-bit file has room for its header. -/
theorem Heads.length_le (hh : h.Heads bytes) (h64 : h.is64 = true) : 32 ≤ bytes.length := by
  have hat := hh.at_start
  rw [fields, if_pos h64] at hat
  simp only [MachHeader64.fields, at_encodeFields_cons, Nat.reduceAdd] at hat
  obtain ⟨-, -, -, -, -, -, -, h28, -⟩ := hat
  exact at_encode_le (by decide) h28

end MachOFileHeader

/-! ## The table -/

theorem fatArch_of_at {c : Container} {off : Nat} {arch : FatArch} (hfit : FieldsFit arch.fields)
    (hat : At c.data off (encodeFields c.endian arch.fields)) : c.fatArch off = some arch := by
  simp only [FatArch.fields, at_encodeFields_cons, Nat.add_assoc, Nat.reduceAdd] at hat
  obtain ⟨h0, h4, h8, h12, h16, -⟩ := hat
  obtain ⟨f0, f4, f8, f12, f16, -⟩ := hfit
  simp only [Container.fatArch, Container.u32_of_at h0 f0, Container.u32_of_at h4 f4,
    Container.u32_of_at h8 f8, Container.u32_of_at h12 f12, Container.u32_of_at h16 f16,
    Option.bind_eq_bind, Option.bind_some, Option.pure_def]

/-- The slices before the first one for arm64 are passed over. -/
theorem arm64SliceFind_first {c : Container} {slices after : List FatSlice} {first : FatSlice}
    {bytes : List UInt8} (hu : UniversalBinary c slices) (harm : first.header.IsArm64)
    (hbytes : c.slice first.arch.offset first.arch.size = some bytes) :
    ∀ (before done : List FatSlice), slices = done ++ (before ++ first :: after) →
      (∀ slice ∈ before, ¬ slice.header.IsArm64) →
      arm64SliceFind c (before ++ first :: after).length done.length
        = .ok (some ⟨bytes, first.header.endian⟩) := by
  intro before
  induction before with
  | nil =>
    intro done hslices _
    have hk : slices[done.length]? = some first := by rw [hslices]; simp
    obtain ⟨hfit, hat⟩ := hu.table _ _ hk
    obtain ⟨bytes', hbytes', hheads⟩ := hu.slices_in first (List.mem_of_getElem? hk)
    obtain rfl := Option.some.inj (hbytes.symm.trans hbytes')
    obtain ⟨magic, hmagic, hendian⟩ := hheads.machMagicRead
    rw [List.nil_append, List.length_cons, arm64SliceFind,
      fatArch_of_at hfit (hu.big ▸ hat)]
    simp only [hbytes, hmagic, Outcome.ok_bind, hendian]
    rw [if_pos (hheads.isArm64_iff.mpr harm)]
  | cons slice before ih =>
    intro done hslices hbefore
    have hk : slices[done.length]? = some slice := by rw [hslices]; simp
    obtain ⟨hfit, hat⟩ := hu.table _ _ hk
    obtain ⟨bytes', hbytes', hheads⟩ := hu.slices_in slice (List.mem_of_getElem? hk)
    obtain ⟨magic, hmagic, hendian⟩ := hheads.machMagicRead
    have hnot := hbefore slice List.mem_cons_self
    have hnext : slices = (done ++ [slice]) ++ (before ++ first :: after) := by
      rw [hslices]
      simp
    have hfind := ih (done ++ [slice]) hnext
      fun s hs => hbefore s (List.mem_cons_of_mem _ hs)
    rw [show (done ++ [slice]).length = done.length + 1 from List.length_append] at hfind
    rw [List.cons_append, List.length_cons, arm64SliceFind,
      fatArch_of_at hfit (hu.big ▸ hat)]
    simp only [hbytes', hmagic, Outcome.ok_bind, hendian]
    rw [if_neg fun hcheck => hnot (hheads.isArm64_iff.mp hcheck)]
    exact hfind

/-! ## The whole file -/

/-- A thin file for arm64 is returned as it is. -/
theorem arm64ContainerCreate_thin {c : Container} {header : MachOFileHeader}
    (hheads : header.Heads c.data) (harm : header.IsArm64) (hendian : c.endian = header.endian)
    (fuel : Nat) : arm64ContainerCreate (fuel + 1) c = .ok c := by
  have hread : c.machHeader64 0 = some header.wide := by
    have hread := hheads.machHeader64 harm.1
    rwa [← hendian] at hread
  have hcheck : header.wide.isArm64 = true := by
    have hcheck := hheads.isArm64_iff.mpr harm
    rw [hheads.machHeader64 harm.1] at hcheck
    exact hcheck
  rw [arm64ContainerCreate, hread, Outcome.orPanic_some, Outcome.ok_bind, if_pos hcheck]

/-- The first bytes of a universal binary, as the fields of a Mach header. -/
theorem UniversalBinary.first_fields {c : Container} {slices : List FatSlice} {entry : FatSlice}
    (hu : UniversalBinary c slices) (hentry : slices.head? = some entry) :
    c.enum32 MachMagic 0 = some .fatMagic ∧ c.u32 4 = some slices.length ∧
      c.u32 8 = some entry.arch.cputype ∧ c.u32 12 = some entry.arch.cpusubtype ∧
      c.u32 16 = some entry.arch.offset ∧ c.u32 20 = some entry.arch.size ∧
      c.u32 24 = some entry.arch.align := by
  have hheader := hu.header
  rw [← hu.big] at hheader
  simp only [FatHeader.fields, at_encodeFields_cons] at hheader
  obtain ⟨h0, h4, -⟩ := hheader
  obtain ⟨hfit, hat⟩ := hu.table 0 entry (by rw [← List.head?_eq_getElem?]; exact hentry)
  rw [← hu.big] at hat
  simp only [FatArch.fields, at_encodeFields_cons, FatHeader.size, Nat.zero_mul, Nat.add_zero,
    Nat.reduceAdd] at hat
  obtain ⟨h8, h12, h16, h20, h24, -⟩ := hat
  obtain ⟨f8, f12, f16, f20, f24, -⟩ := hfit
  exact ⟨Container.enum32_of_at h0 (by decide), Container.u32_of_at h4 hu.count_lt,
    Container.u32_of_at h8 f8, Container.u32_of_at h12 f12, Container.u32_of_at h16 f16,
    Container.u32_of_at h20 f20, Container.u32_of_at h24 f24⟩

/-- The subtype of the first entry is read as the file type. -/
theorem UniversalBinary.machHeader64_iff {c : Container} {slices : List FatSlice}
    {entry : FatSlice} (hu : UniversalBinary c slices) (hentry : slices.head? = some entry)
    (hroom : 32 ≤ c.data.length) :
    (∃ header, c.machHeader64 0 = some header ∧ header.magic = .fatMagic) ↔
      ∃ filetype : MachoFiletypeVariants, ReprEnum.toNat filetype = entry.arch.cpusubtype := by
  obtain ⟨h0, h4, h8, h12, h16, h20, h24⟩ := hu.first_fields hentry
  constructor
  · rintro ⟨header, hread, -⟩
    simp only [Container.machHeader64, Option.bind_eq_bind, Option.bind_eq_some_iff] at hread
    obtain ⟨_, -, _, -, _, -, filetype, hfiletype, -⟩ := hread
    rw [Container.enum32, Nat.zero_add, h12, Option.bind_some] at hfiletype
    exact ⟨filetype, ReprEnum.toNat_of_ofNat? hfiletype⟩
  · rintro ⟨filetype, hfiletype⟩
    obtain ⟨reserved, h28⟩ : ∃ v, c.u32 28 = some v := wordAt_isSome hroom
    have h12 : c.enum32 MachoFiletypeVariants 12 = some filetype := by
      rw [Container.enum32, h12, ← hfiletype]
      exact ReprEnum.ofNat?_toNat filetype
    simp only [Container.machHeader64, h0, h4, h8, h12, h16, h20, h24, h28, Nat.zero_add,
      Option.bind_eq_bind, Option.bind_some, Option.pure_def]
    exact ⟨_, rfl, rfl⟩

/-- **Which binaries are accepted.** A thin file for arm64 is returned as it is. Of a universal
binary the first slice for arm64 is returned exactly if the subtype in the first entry of the
table is the number of a file type. -/
theorem arm64ContainerCreate_iff (c : Container) :
    (∀ header : MachOFileHeader, header.Heads c.data → header.IsArm64 →
      c.endian = header.endian → ∀ fuel, arm64ContainerCreate (fuel + 1) c = .ok c) ∧
    ∀ (before after : List FatSlice) (first entry : FatSlice) (bytes : List UInt8),
      UniversalBinary c (before ++ first :: after) →
      (before ++ first :: after).head? = some entry →
      (∀ slice ∈ before, ¬ slice.header.IsArm64) → first.header.IsArm64 →
      c.slice first.arch.offset first.arch.size = some bytes → ∀ fuel,
        (arm64ContainerCreate (fuel + 2) c = .ok ⟨bytes, first.header.endian⟩ ↔
          ∃ filetype : MachoFiletypeVariants, ReprEnum.toNat filetype = entry.arch.cpusubtype) := by
  refine ⟨fun header hheads harm hendian => arm64ContainerCreate_thin hheads harm hendian, ?_⟩
  intro before after first entry bytes hu hentry hbefore harm hbytes fuel
  obtain ⟨bytes', hbytes', hheads⟩ := hu.slices_in first (by simp)
  obtain rfl := Option.some.inj (hbytes.symm.trans hbytes')
  have hroom : 32 ≤ c.data.length := by
    obtain ⟨-, hle, hslice⟩ := Container.slice_eq_some hbytes
    have hlong := hheads.length_le harm.1
    rw [hslice, List.length_take] at hlong
    omega
  have hmagic := (hu.first_fields hentry).1
  -- the fat header is first read as a Mach-O header: its fourth word must be a file type
  rw [← hu.machHeader64_iff hentry hroom, arm64ContainerCreate]
  constructor
  · intro h
    obtain ⟨header, hread, -⟩ := Outcome.bind_eq_ok.mp h
    have hread := Outcome.orPanic_eq_ok.mp hread
    refine ⟨header, hread, ?_⟩
    obtain ⟨magic, hfound, hrest⟩ := Option.bind_eq_some_iff.mp hread
    obtain rfl := Option.some.inj (hmagic.symm.trans hfound)
    simp only [Option.bind_eq_bind, Option.bind_eq_some_iff] at hrest
    obtain ⟨_, -, _, -, _, -, _, -, _, -, _, -, _, -, hrest⟩ := hrest
    rw [← Option.some.inj hrest]
  · rintro ⟨header, hread, hfat⟩
    have hnot : header.isArm64 = false := by simp [MachHeader64.isArm64, hfat]
    have hfatHeader : c.fatHeader 0 = some ⟨.fatMagic, (before ++ first :: after).length⟩ := by
      rw [Container.fatHeader, hmagic, Nat.zero_add, (hu.first_fields hentry).2.1]
      rfl
    have hfind := arm64SliceFind_first hu harm hbytes before [] rfl hbefore
    rw [List.length_nil] at hfind
    rw [hread, Outcome.orPanic_some, Outcome.ok_bind, hnot, if_neg (by decide),
      if_neg (by rw [hfat]; decide), hfatHeader, Outcome.orPanic_some, Outcome.ok_bind, hfind,
      Outcome.ok_bind, Outcome.okOr_some, Outcome.ok_bind]
    exact arm64ContainerCreate_thin hheads harm rfl fuel

/-! ## Two universal binaries

In the first the only slice is for arm64, with the subtype 0 that most such slices have.
In the second a slice for x86-64 comes before it, whose subtype is 3. -/

def sampleFileHeader (cputype cpusubtype : Nat) : MachOFileHeader :=
  ⟨.little, true, cputype, cpusubtype, .mhExecute, 0, 0, 0, 0⟩

def sampleUniversal (slices : List FatSlice) : Container where
  data := encodeFields .big (FatHeader.fields ⟨.fatMagic, slices.length⟩)
    ++ slices.flatMap (fun slice => encodeFields .big slice.arch.fields)
    ++ slices.flatMap fun slice => encodeFields .little slice.header.fields
  endian := .big

def sampleArmSlice (offset : Nat) : FatSlice :=
  ⟨⟨0x0100000c, 0, offset, 32, 0⟩, sampleFileHeader 0x0100000c 0⟩

def sampleX86Slice : FatSlice := ⟨⟨0x01000007, 3, 48, 32, 0⟩, sampleFileHeader 0x01000007 3⟩

theorem sampleArm_heads :
    (sampleFileHeader 0x0100000c 0).Heads
      (encodeFields .little (sampleFileHeader 0x0100000c 0).fields) where
  fits := by simp [FieldsFit, MachOFileHeader.fields, MachOFileHeader.wide, MachHeader64.fields,
    MachOFileHeader.magic, sampleFileHeader, ReprEnum.toNat]
  at_start := by decide

theorem sampleX86_heads :
    (sampleFileHeader 0x01000007 3).Heads
      (encodeFields .little (sampleFileHeader 0x01000007 3).fields) where
  fits := by simp [FieldsFit, MachOFileHeader.fields, MachOFileHeader.wide, MachHeader64.fields,
    MachOFileHeader.magic, sampleFileHeader, ReprEnum.toNat]
  at_start := by decide

theorem sampleArm_universal : UniversalBinary (sampleUniversal [sampleArmSlice 28])
    [sampleArmSlice 28] where
  big := rfl
  header := by decide
  count_lt := by decide
  table := by
    intro k slice hk
    match k with
    | 0 =>
        obtain rfl := Option.some.inj hk
        exact ⟨by simp [FieldsFit, FatArch.fields, sampleArmSlice], by decide⟩
  slices_in := by
    intro slice hslice
    obtain rfl := List.mem_singleton.mp hslice
    exact ⟨_, by decide +kernel, sampleArm_heads⟩

theorem sampleBoth_universal :
    UniversalBinary (sampleUniversal [sampleX86Slice, sampleArmSlice 80])
      [sampleX86Slice, sampleArmSlice 80] where
  big := rfl
  header := by decide
  count_lt := by decide
  table := by
    intro k slice hk
    match k with
    | 0 =>
        obtain rfl := Option.some.inj hk
        exact ⟨by simp [FieldsFit, FatArch.fields, sampleX86Slice], by decide +kernel⟩
    | 1 =>
        obtain rfl := Option.some.inj hk
        exact ⟨by simp [FieldsFit, FatArch.fields, sampleArmSlice], by decide +kernel⟩
  slices_in := by
    intro slice hslice
    simp only [List.mem_cons, List.not_mem_nil, or_false] at hslice
    rcases hslice with rfl | rfl
    · exact ⟨_, by decide +kernel, sampleX86_heads⟩
    · exact ⟨_, by decide +kernel, sampleArm_heads⟩

/-- Subtype 0 is not the number of a file type, so the linker panics. -/
theorem sampleArm_panics :
    UniversalBinary (sampleUniversal [sampleArmSlice 28]) [sampleArmSlice 28] ∧
    (sampleArmSlice 28).header.IsArm64 ∧
    (sampleUniversal [sampleArmSlice 28]).slice 28 32
      = some (encodeFields .little (sampleArmSlice 28).header.fields) ∧
    ∀ fuel, arm64ContainerCreate (fuel + 1) (sampleUniversal [sampleArmSlice 28])
      = .panic "called `Result::unwrap()` on an `Err` value: ()" := by
  refine ⟨sampleArm_universal, ⟨rfl, rfl⟩, by decide +kernel, fun fuel => ?_⟩
  have hnone : (sampleUniversal [sampleArmSlice 28]).machHeader64 0 = none := by decide +kernel
  rw [arm64ContainerCreate, hnone]
  rfl

theorem sampleBoth_created :
    arm64ContainerCreate 1 ⟨encodeFields .little (sampleFileHeader 0x0100000c 0).fields, .little⟩
      = .ok ⟨encodeFields .little (sampleFileHeader 0x0100000c 0).fields, .little⟩ ∧
    (arm64ContainerCreate 2 (sampleUniversal [sampleX86Slice, sampleArmSlice 80])
        = .ok ⟨encodeFields .little (sampleFileHeader 0x0100000c 0).fields, .little⟩ ↔
      ∃ filetype : MachoFiletypeVariants, ReprEnum.toNat filetype = 3) :=
  ⟨(arm64ContainerCreate_iff _).1 _ sampleArm_heads ⟨rfl, rfl⟩ rfl 0,
    (arm64ContainerCreate_iff _).2 [sampleX86Slice] [] (sampleArmSlice 80) sampleX86Slice _
      sampleBoth_universal rfl
      (by
        intro slice hslice
        obtain rfl := List.mem_singleton.mp hslice
        exact fun harm => absurd harm.2 (by decide))
      ⟨rfl, rfl⟩ (by decide +kernel) 0⟩

end Dynld
