import RCoreKernel.Syscall.Range

/-!
# What `mmap` maps

A range of bytes touches the pages that contain one of its bytes.  `mmap` should add one area of
exactly these pages, and refuse when there are none.

* `touched_iff` — the pages of a range that passes the check;
* `addNewArea_cases` — when `add_new_area` succeeds;
* `mmapRight_iff` — **`mmap` is right except for an empty range inside a free page**, which it maps.
-/

namespace RCoreKernel.Syscall

open Mm Mm.VMSpace

/-- The page numbers that contain an address of `[addr, addr + len)`. -/
def touched (addr len : ℕ) : Set ℕ :=
  {v | ∃ x, addr ≤ x ∧ x < addr + len ∧ x / pageSizeBytes = v}

/-- The permissions that `prot` asks for. -/
def grantedBy (prot : ℕ) : ℕ :=
  permissionU ||| (if prot &&& protRead ≠ 0 then permissionR else 0) |||
    (if prot &&& protWrite ≠ 0 then permissionW else 0) |||
    if prot &&& protExec ≠ 0 then permissionX else 0

/-- The call is to succeed: a non-empty range of user space, known bits, and free pages. -/
def MmapAllowed (s : VMSpace) (addr len prot : ℕ) : Prop :=
  addr + len ≤ userSpaceEnd ∧ andNot prot allProtFlags = 0 ∧ (touched addr len).Nonempty ∧
    ∀ v ∈ touched addr len, ∀ a ∈ s.areas, a.containVpn v = false

/-- What is expected of the call. -/
structure MmapRight (s : VMSpace) (addr len prot : ℕ) : Prop where
  returns : (mmap s addr len prot).1 = .ok 0 ∨ (mmap s addr len prot).1 = .ok (-1)
  zero_iff : (mmap s addr len prot).1 = .ok 0 ↔ MmapAllowed s addr len prot
  added : (mmap s addr len prot).1 = .ok 0 → ∃ a : VMArea,
    (mmap s addr len prot).2 = { s with areas := s.areas ++ [a] } ∧
      (∀ v, a.containVpn v = true ↔ v ∈ touched addr len) ∧ a.permissions = grantedBy prot
  unchanged : (mmap s addr len prot).1 = .ok (-1) → (mmap s addr len prot).2 = s

theorem toPermissions_eq (prot : ℕ) : toPermissions prot = grantedBy prot := by
  unfold toPermissions grantedBy
  split_ifs <;> rfl

theorem toPermissions_bits (prot : ℕ) : PermissionBits (toPermissions prot) := by
  unfold toPermissions PermissionBits
  split_ifs <;> decide

/-- A range is touched between its rounded ends. -/
theorem touched_iff {addr len v : ℕ} (hlen : 0 < len) :
    v ∈ touched addr len ↔ addr / 4096 ≤ v ∧ v < (addr + len + 4095) / 4096 := by
  constructor
  · rintro ⟨x, hle, hlt, hv⟩
    rw [pageSizeBytes_eq] at hv
    omega
  · rintro ⟨hle, hlt⟩
    -- the first byte of the page, or of the range
    refine ⟨max addr (v * 4096), by omega, ?_, ?_⟩
    · omega
    · rw [pageSizeBytes_eq]
      omega

theorem touched_empty (addr : ℕ) : ¬(touched addr 0).Nonempty := by
  rintro ⟨v, x, hle, hlt, -⟩
  omega

/-- Areas apart, by their ends. -/
theorem free_iff {areas : List VMArea} {startVpn endVpn : ℕ} (hlt : startVpn < endVpn)
    (hne : ∀ a ∈ areas, a.startVpn < a.endVpn) :
    areas.all (fun area => area.endVpn ≤ startVpn || endVpn ≤ area.startVpn) = true ↔
      ∀ v, startVpn ≤ v → v < endVpn → ∀ a ∈ areas, a.containVpn v = false := by
  rw [List.all_eq_true]
  constructor
  · intro h v hle hv a ha
    have hapart := h a ha
    rw [Bool.or_eq_true, decide_eq_true_eq, decide_eq_true_eq] at hapart
    rw [← Bool.not_eq_true, VMArea.containVpn_iff]
    omega
  · intro h a ha
    have hpos := hne a ha
    rw [Bool.or_eq_true, decide_eq_true_eq, decide_eq_true_eq]
    by_contra hmeet
    -- the later of the two starts is in both
    have hin := h (max startVpn a.startVpn) (by omega) (by omega) a ha
    rw [← Bool.not_eq_true, VMArea.containVpn_iff] at hin
    omega

variable {img : KernelImage} {m : Mem} {s : VMSpace} {addr len prot : ℕ}

/-- `mmap` with a range and bits that pass the checks. -/
theorem mmap_accepted (haccept : mmapAccepts addr len prot = true) :
    (addr / 4096 < (addr + len + 4095) / 4096 ∧
        s.areas.all (fun area => area.endVpn ≤ addr / 4096 ||
          (addr + len + 4095) / 4096 ≤ area.startVpn) = true ∧
        mmap s addr len prot = (.ok 0, { s with areas := s.areas ++
          [VMArea.new (addr / 4096) ((addr + len + 4095) / 4096) .anonymous
            (toPermissions prot)] })) ∨
      (¬(addr / 4096 < (addr + len + 4095) / 4096 ∧
        s.areas.all (fun area => area.endVpn ≤ addr / 4096 ||
          (addr + len + 4095) / 4096 ≤ area.startVpn) = true) ∧
        mmap s addr len prot = (.ok (-1), s)) := by
  obtain ⟨hrange, -⟩ := Bool.and_eq_true_iff.mp haccept
  obtain ⟨hstart, hend, -⟩ := vpn_of_checked hrange
  have hbits : ¬andNot (toPermissions prot) allPermissionFlags ≠ 0 :=
    not_not.mpr (toPermissions_bits prot)
  rw [mmap, if_pos haccept]
  simp only [mmapTcb, hstart, hend, addNewArea, if_neg hbits]
  by_cases hlt : addr / 4096 < (addr + len + 4095) / 4096
  · rw [if_neg (not_le.mpr hlt)]
    by_cases hfree : s.areas.all (fun area => area.endVpn ≤ addr / 4096 ||
        (addr + len + 4095) / 4096 ≤ area.startVpn) = true
    · rw [if_pos hfree]
      exact Or.inl ⟨hlt, hfree, rfl⟩
    · rw [if_neg hfree]
      exact Or.inr ⟨fun h => hfree h.2, rfl⟩
  · rw [if_pos (not_lt.mp hlt)]
    exact Or.inr ⟨fun h => hlt h.1, rfl⟩

theorem mmap_refused (h : ¬mmapAccepts addr len prot = true) :
    mmap s addr len prot = (.ok (-1), s) := by
  rw [mmap, if_neg h]

/-- The range and the bits are accepted for every call that is to succeed. -/
theorem MmapAllowed.accepts (h : MmapAllowed s addr len prot) :
    mmapAccepts addr len prot = true ∧ 0 < len := by
  obtain ⟨hend, hprot, ⟨v, x, hle, hlt, -⟩, -⟩ := h
  have hlen : 0 < len := by omega
  refine ⟨?_, hlen⟩
  rw [mmapAccepts, Bool.and_eq_true, decide_eq_true_eq, checkUVaRange_iff (by omega)]
  exact ⟨⟨by omega, hend⟩, hprot⟩

/-- **`mmap`.** -/
theorem mmapRight_iff (hwf : WellFormed img m s) (addr len prot : ℕ) :
    MmapRight s addr len prot ↔
      ¬(len = 0 ∧ addr % pageSizeBytes ≠ 0 ∧ addr < userSpaceEnd ∧ andNot prot allProtFlags = 0 ∧
        ∀ a ∈ s.areas, a.containVpn (addr / pageSizeBytes) = false) := by
  have hmax : (0 : ℤ) ≠ -1 := by decide
  constructor
  · rintro hright ⟨rfl, hoff, haddr, hprot, hfree⟩
    rw [pageSizeBytes_eq] at hoff hfree
    have haccept : mmapAccepts addr 0 prot = true := by
      rw [mmapAccepts, Bool.and_eq_true, decide_eq_true_eq, checkUVaRange_iff (by omega)]
      exact ⟨⟨haddr, by omega⟩, hprot⟩
    rcases mmap_accepted (s := s) haccept with ⟨-, -, hmap⟩ | ⟨hno, -⟩
    · have hallowed := hright.zero_iff.mp (by rw [hmap])
      exact touched_empty addr hallowed.2.2.1
    · refine hno ⟨by omega, (free_iff (by omega) hwf.nonempty).mpr fun v hle hlt a ha => ?_⟩
      obtain rfl : v = addr / 4096 := by omega
      exact hfree a ha
  · intro hcond
    by_cases haccept : mmapAccepts addr len prot = true
    swap
    · have hmap := mmap_refused (s := s) haccept
      refine ⟨Or.inr (by rw [hmap]), ?_, ?_, fun _ => by rw [hmap]⟩
      · rw [hmap]
        exact ⟨fun h => absurd (Except.ok.inj h) hmax.symm, fun h => absurd h.accepts.1 haccept⟩
      · rw [hmap]
        exact fun h => absurd (Except.ok.inj h) hmax.symm
    have hpass := haccept
    rw [mmapAccepts, Bool.and_eq_true, decide_eq_true_eq] at hpass
    obtain ⟨hrange, hprot⟩ := hpass
    obtain ⟨haddr, hend⟩ := checkUVaRange_le hrange
    rcases mmap_accepted (s := s) haccept with ⟨hlt, hfree, hmap⟩ | ⟨hno, hmap⟩
    · -- an area was added, so the range is not empty
      have hfree' := (free_iff hlt hwf.nonempty).mp hfree
      have hlen : 0 < len := by
        by_contra hzero
        obtain rfl : len = 0 := by omega
        refine hcond ⟨rfl, ?_, haddr, hprot, hfree' _ le_rfl hlt⟩
        rw [pageSizeBytes_eq]
        omega
      refine ⟨Or.inl (by rw [hmap]), ?_, ?_, ?_⟩
      · rw [hmap]
        refine ⟨fun _ => ⟨hend, hprot, ⟨addr / 4096, ?_⟩, fun v hv => ?_⟩, fun _ => rfl⟩
        · rw [touched_iff hlen]
          exact ⟨le_rfl, hlt⟩
        · rw [touched_iff hlen] at hv
          exact hfree' v hv.1 hv.2
      · intro _
        refine ⟨_, by rw [hmap], fun v => ?_, toPermissions_eq prot⟩
        rw [touched_iff hlen, VMArea.containVpn_iff]
        rfl
      · rw [hmap]
        exact fun h => absurd (Except.ok.inj h) hmax
    · refine ⟨Or.inr (by rw [hmap]), ?_, ?_, fun _ => by rw [hmap]⟩
      · rw [hmap]
        refine ⟨fun h => absurd (Except.ok.inj h) hmax.symm, fun hallowed => ?_⟩
        obtain ⟨-, hlen⟩ := hallowed.accepts
        have hlt : addr / 4096 < (addr + len + 4095) / 4096 := by omega
        refine absurd ⟨hlt, (free_iff hlt hwf.nonempty).mpr fun v hle hv => ?_⟩ hno
        exact hallowed.2.2.2 v ((touched_iff hlen).mpr ⟨hle, hv⟩)
      · rw [hmap]
        exact fun h => absurd (Except.ok.inj h) hmax.symm

/-- The first areas that the test of `mmap` asks for. -/
theorem mmapRight_sample : MmapRight sampleSpace 0x80000002 100 (protRead ||| protWrite) := by
  have hwf : WellFormed sampleImage samplePhys.mem sampleSpace :=
    ⟨sample_ok.agrees, by simp [sampleSpace]⟩
  exact (mmapRight_iff hwf _ _ _).mpr fun h => absurd h.1 (by decide)

/-- An empty range inside a page is mapped. -/
theorem mmap_empty_range :
    (mmap sampleSpace 0x10001 0 protRead).1 = .ok 0 ∧ ¬(touched 0x10001 0).Nonempty ∧
      ¬MmapRight sampleSpace 0x10001 0 protRead := by
  have hzero : (mmap sampleSpace 0x10001 0 protRead).1 = .ok 0 := by decide
  exact ⟨hzero, touched_empty _, fun h => touched_empty _ (h.zero_iff.mp hzero).2.2.1⟩

end RCoreKernel.Syscall
