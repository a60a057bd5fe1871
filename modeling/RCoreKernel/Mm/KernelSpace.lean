import RCoreKernel.Mm.WellFormed

/-!
# The kernel's own tables (`init_kernel_satp` in `os/src/mm/vm.rs`)

At boot the kernel maps the device registers, its own sections and the rest of memory into one
root table, and then forgets the pages of that table so that they are never recycled.  The
linker symbols are a `Layout`, which carries what `os/src/linker.ld` promises about
`kernel_end`.

* `initKernelSatp_image` — **the tables left by a successful `init_kernel_satp` form a
  `KernelImage`**: a tree of distinct pages, all of them accounted for, with an empty user half
  and a level-0 table below the first slot of the kernel half.
-/

namespace RCoreKernel.Mm

open Radix RootPgt

/-- The linker symbols that `init_kernel_satp` reads. -/
structure Layout where
  textStart : UInt64
  textEnd : UInt64
  kernelStackStart : UInt64
  kernelStackEnd : UInt64
  rodataStart : UInt64
  rodataEnd : UInt64
  dataStart : UInt64
  dataEnd : UInt64
  bssStart : UInt64
  bssEnd : UInt64
  kernelEnd : UInt64
  /-- The kernel starts at `KERNEL_BASE_VA` -/
  base_le : 0x80200000 + kernelVaOffset ≤ kernelEnd.toNat
  /-- and ends inside physical memory. -/
  le_memEnd : kernelEnd.toNat ≤ memStartPa + memSizeBytes + kernelVaOffset

/-- `(start..end).step_by(step)`. -/
def stepBy (start stop step : ℕ) : List ℕ :=
  List.range' start ((stop - start + (step - 1)) / step) step

/-- The page numbers of a kernel address, or the assertion that failed. -/
def kernelPage (va : ℕ) : Except Panic (ℕ × ℕ) :=
  match VPN.fromVa va with
  | none => .error .invalidVirtualAddress
  | some vpn =>
    match getPaFromVa va with
    | none => .error .addressUnderflow
    | some pa =>
      match PPN.fromPa pa with
      | none => .error .invalidPhysicalAddress
      | some ppn => .ok (vpn, ppn)

/-- The loop of `map_kernel_range`. -/
def mapKernelPages (pteFlags : ℕ) :
    List ℕ → Phys → RootPgt → Outcome VMError Unit × Phys × RootPgt
  | [], k, t => (.ok (), k, t)
  | va :: vas, k, t =>
    match kernelPage va with
    | .error site => (.panic site, k, t)
    | .ok (vpn, ppn) =>
      match RootPgt.mapCreate k t vpn ppn pteFlags with
      | (.error e, k, t) => (.err (.pgtError vpn e), k, t)
      | (.ok (), k, t) => mapKernelPages pteFlags vas k t

/-- `map_kernel_range`. -/
def mapKernelRange (k : Phys) (t : RootPgt) (startVa endVa permissions : ℕ) :
    Outcome VMError Unit × Phys × RootPgt :=
  match toPteFlags permissions with
  | .error e => (.err e, k, t)
  | .ok pteFlags => mapKernelPages pteFlags (stepBy startVa endVa pageSizeBytes) k t

/-- The loop of `map_kernel_range_large`. -/
def mapKernelLargePages (pteFlags : ℕ) :
    List ℕ → Phys → RootPgt → Outcome VMError Unit × Phys × RootPgt
  | [], k, t => (.ok (), k, t)
  | va :: vas, k, t =>
    match kernelPage va with
    | .error site => (.panic site, k, t)
    | .ok (vpn, ppn) =>
      match RootPgt.mapCreateLarge k t vpn ppn pteFlags with
      | none => (.panic .invalidVirtualAddress, k, t)
      | some (.error e, k, t) => (.err (.pgtError vpn e), k, t)
      | some (.ok (), k, t) => mapKernelLargePages pteFlags vas k t

/-- `map_kernel_range_large`. -/
def mapKernelRangeLarge (k : Phys) (t : RootPgt) (startVa endVa permissions : ℕ) :
    Outcome VMError Unit × Phys × RootPgt :=
  if startVa &&& (largePageSizeBytes - 1) ≠ 0 then (.panic .unalignedLargeRange, k, t)
  else if endVa &&& (largePageSizeBytes - 1) ≠ 0 then (.panic .unalignedLargeRange, k, t)
  else
    match toPteFlags permissions with
    | .error e => (.err e, k, t)
    | .ok pteFlags => mapKernelLargePages pteFlags (stepBy startVa endVa largePageSizeBytes) k t

/-- The `?` operator: runs `f` after a stage that succeeded. -/
def andThen (r : Outcome VMError Unit × Phys × RootPgt)
    (f : Phys → RootPgt → Outcome VMError Unit × Phys × RootPgt) :
    Outcome VMError Unit × Phys × RootPgt :=
  match r with
  | (.ok (), k, t) => f k t
  | r => r

theorem andThen_ok (k : Phys) (t : RootPgt)
    (f : Phys → RootPgt → Outcome VMError Unit × Phys × RootPgt) :
    andThen (.ok (), k, t) f = f k t := rfl

/-- The kernel addresses of a device range. -/
def mmioVas (range : ℕ × ℕ) : Option (ℕ × ℕ) :=
  (getVaFromPa range.1).bind fun startVa =>
    (getVaFromPa (range.1 + range.2)).map fun endVa => (startVa, endVa)

/-- The loop of `map_virt_mmio`. -/
def mapVirtMmio : List (ℕ × ℕ) → Phys → RootPgt → Outcome VMError Unit × Phys × RootPgt
  | [], k, t => (.ok (), k, t)
  | range :: ranges, k, t =>
    (mmioVas range).elim (.panic .addressOverflow, k, t) fun vas =>
      andThen (mapKernelRange k t vas.1 vas.2 (permissionR ||| permissionW)) (mapVirtMmio ranges)

/-- `compute_phy_mem_page_start` and `compute_phy_mem_large_page_start`, which differ in the page
size. -/
def roundUpTo (size va : ℕ) : ℕ :=
  if va &&& (size - 1) = 0 then va else wrap (wrappingSub va (va &&& (size - 1)) + size)

def computePhyMemPageStart (kernelEnd : ℕ) : ℕ := roundUpTo pageSizeBytes kernelEnd
def computePhyMemLargePageStart (kernelEnd : ℕ) : ℕ := roundUpTo largePageSizeBytes kernelEnd

def computePhyMemLargePageEnd (phyMemEnd : ℕ) : ℕ :=
  if phyMemEnd &&& (largePageSizeBytes - 1) = 0 then phyMemEnd
  else wrappingSub phyMemEnd (phyMemEnd &&& (largePageSizeBytes - 1))

/-- `map_phys_mem`, with `end_va` given. -/
def mapPhysMemTo (endVa : ℕ) (layout : Layout) (k : Phys) (t : RootPgt) :
    Outcome VMError Unit × Phys × RootPgt :=
  let permissions := permissionR ||| permissionW
  let startVa := computePhyMemPageStart layout.kernelEnd.toNat
  let largeStartVa := computePhyMemLargePageStart startVa
  let largeEndVa := computePhyMemLargePageEnd endVa
  if largeEndVa ≤ largeStartVa then mapKernelRange k t startVa endVa permissions
  else
    andThen (mapKernelRange k t startVa largeStartVa permissions) fun k t =>
    andThen (mapKernelRangeLarge k t largeStartVa largeEndVa permissions) fun k t =>
    mapKernelRange k t largeEndVa endVa permissions

/-- `map_phys_mem`. -/
def mapPhysMem (layout : Layout) (k : Phys) (t : RootPgt) : Outcome VMError Unit × Phys × RootPgt :=
  match getVaFromPa (memStartPa + memSizeBytes) with
  | none => (.panic .addressOverflow, k, t)
  | some endVa => mapPhysMemTo endVa layout k t

/-- The stages of `init_kernel_satp` between the creation of the root and the store to
`KERNEL_SATP`. -/
def mapKernel (layout : Layout) (k : Phys) (t : RootPgt) : Outcome VMError Unit × Phys × RootPgt :=
  let range (start stop : UInt64) (permissions : ℕ) (k : Phys) (t : RootPgt) :=
    mapKernelRange k t start.toNat stop.toNat permissions
  andThen (mapVirtMmio qemuVirtMmio k t) fun k t =>
  andThen (range layout.textStart layout.textEnd (permissionR ||| permissionX) k t) fun k t =>
  andThen (range layout.kernelStackStart layout.kernelStackEnd (permissionR ||| permissionW) k t)
    fun k t =>
  andThen (range layout.rodataStart layout.rodataEnd permissionR k t) fun k t =>
  andThen (range layout.dataStart layout.dataEnd (permissionR ||| permissionW) k t) fun k t =>
  andThen (range layout.bssStart layout.bssEnd (permissionR ||| permissionW) k t) fun k t =>
  mapPhysMem layout k t

/-- `init_kernel_satp`.  On success it returns the root table; its pages are forgotten, so that
they stay allocated.  An error drops the table. -/
def initKernelSatp (layout : Layout) (k : Phys) : Outcome VMError RootPgt × Phys :=
  match RootPgt.new k with
  | (.error e, k) => (.err (.createRootPgtFailed e), k)
  | (.ok t, k) =>
    match mapKernel layout k t with
    | (.ok (), k, t) => (.ok t, k)
    | (.err e, k, t) => (.err e, k.dropPages t.pages)
    | (.panic site, k, _) => (.panic site, k)

/-! ### The tables while they are built -/

/-- The kernel tables under construction: a tree of distinct pages that holds every issued page,
with nothing below the user half of the root. -/
structure KernelTables (first : ℕ) (k : Phys) (t : RootPgt) : Prop where
  accounted : k.Accounted first (t.pages ++ [])
  tables : Tables (fun _ => True) k t
  user_empty : ∀ i, UserHalf i → k.mem t.ppn i = 0

/-- The entry of `VIRT_TEST`, the first page that is mapped.  It lies below the first slot of the
kernel half. -/
def VirtTestMapped (k : Phys) (t : RootPgt) : Prop :=
  PTE.isValid (leaf PTE.child 0 k.mem t.ppn 256 0 256) = true

/-- What a stage keeps, when it succeeds. -/
def Stage (first : ℕ) (Q : Phys → RootPgt → Prop) (r : Outcome VMError Unit × Phys × RootPgt) : Prop :=
  r.1 = .ok () → KernelTables first r.2.1 r.2.2 ∧ Q r.2.1 r.2.2

variable {first : ℕ} {k k' : Phys} {t t' : RootPgt} {vpn ppn pteFlags : ℕ}

theorem kernelPage_eq {va : ℕ} (h : kernelPage va = .ok (vpn, ppn)) :
    vpn = va / 4096 ∧ ppn = (va - kernelVaOffset) / 4096 ∧ kernelVaOffset ≤ va ∧
      va - kernelVaOffset < 2 ^ 56 := by
  unfold kernelPage at h
  split at h
  · cases h
  rename_i v hv
  split at h
  · cases h
  rename_i pa hpa
  split at h
  · cases h
  rename_i p hp
  obtain ⟨rfl, rfl⟩ := Prod.mk.inj (Except.ok.inj h)
  have hpa' : kernelVaOffset ≤ va ∧ pa = va - kernelVaOffset := by
    unfold getPaFromVa at hpa
    split at hpa
    · exact ⟨‹_›, (Option.some.inj hpa).symm⟩
    · cases hpa
  have hp' := PPN.fromPa_eq_some hp
  refine ⟨(VPN.fromVa_eq_some hv).2, ?_, hpa'.1, by omega⟩
  rw [hp'.2, hpa'.2]

/-- A kernel address lies below a slot of the kernel half. -/
theorem parseVpn_kernel {va : ℕ} (h : kernelVaOffset ≤ va) (h' : va < 2 ^ 64) :
    (parseVpn (va / 4096)).vpn2 = 256 + (va - kernelVaOffset) / 2 ^ 30 := by
  have hoff : kernelVaOffset = 18446743798831644672 := rfl
  rw [parseVpn_eq]
  dsimp only
  omega

/-- `map_create` outside the user half. -/
theorem KernelTables.mapCreate (hk : KernelTables first k t) (hhalf : ¬UserHalf (parseVpn vpn).vpn2)
    (hppn : ppn < 2 ^ 44) (h : RootPgt.mapCreate k t vpn ppn pteFlags = (.ok (), k', t')) :
    KernelTables first k' t' ∧ (VirtTestMapped k t → VirtTestMapped k' t') ∧
      (parseVpn vpn = ⟨256, 0, 256⟩ → VirtTestMapped k' t') := by
  have g := mapCreate_spec hk.accounted hk.tables trivial hppn h
  obtain ⟨hflags, hinv, hleaf⟩ := g.leaf_ok rfl
  have hvalid : PTE.isValid (ppn * 1024 + pteFlags) = true := by
    have := (PTE.isValidFlags_iff.mp hflags).2.1
    rw [PTE.isValid_iff]
    omega
  refine ⟨⟨g.accounted, g.tables, ?_⟩, ?_, ?_⟩
  · intro i hi
    rw [g.ppn_eq, g.root_frame i fun e => hhalf (e ▸ hi)]
    exact hk.user_empty i hi
  · intro hv
    unfold VirtTestMapped at hv ⊢
    rw [g.ppn_eq, hleaf trivial]
    split
    · exact hvalid
    · exact hv
  · intro hp
    unfold VirtTestMapped
    rw [g.ppn_eq, hleaf trivial, hp, if_pos ⟨rfl, rfl, rfl⟩]
    exact hvalid

/-- `map_create_large` of a read-write page in physical memory. -/
theorem KernelTables.mapCreateLarge (hk : KernelTables first k t) {va : ℕ}
    (hlo : memStartPa + kernelVaOffset ≤ va) (hhi : va < 2 ^ 64)
    (h : RootPgt.mapCreateLarge k t (va / 4096) ppn (permissionR ||| permissionW ||| PTE.flagV) =
      some (.ok (), k', t')) :
    KernelTables first k' t' ∧ (VirtTestMapped k t → VirtTestMapped k' t') := by
  have hoff : kernelVaOffset = 18446743798831644672 := rfl
  have hmem : memStartPa = 2147483648 := rfl
  unfold RootPgt.mapCreateLarge at h
  obtain ⟨vpn', hvpn', h⟩ := Option.bind_eq_some_iff.mp h
  obtain ⟨ppn', hppn', h⟩ := Option.map_eq_some_iff.mp h
  dsimp only at h
  -- rounding down to a large page keeps the root slot
  have hslot : (parseVpn vpn').vpn2 = 256 + (va - kernelVaOffset) / 2 ^ 30 := by
    rw [(VPN.fromVa_eq_some hvpn').2, show largePageSizeBytes - 1 = 2 ^ 21 - 1 from rfl, andNot_mask,
      VPN.getVa, Nat.shiftLeft_eq, pageSizeOrder, wrap_of_lt (by omega), parseVpn_eq]
    dsimp only
    omega
  split at h
  · cases h
  rename_i leafPte hnew
  have hppn := PPN.fromPa_eq_some hppn'
  have hnone : PTE.child leafPte = none := by
    obtain ⟨-, rfl⟩ := PTE.new_eq_ok (by omega) hnew
    refine PTE.child_of_leaf (PTE.isLeaf_iff.mpr ?_)
    rw [show permissionR ||| permissionW ||| PTE.flagV = 7 from rfl]
    omega
  split at h
  · cases h
  rename_i table1 k₁ t₁ h₁
  obtain ⟨g, hmid⟩ := descend_root (U := fun _ => True) hk.accounted hk.tables h₁
  have hmid := hmid _ rfl
  split at h
  · cases h
  obtain ⟨-, h'⟩ := Prod.mk.inj h
  obtain ⟨rfl, rfl⟩ := Prod.mk.inj h'
  obtain ⟨-, hne⟩ := g.tables.mid_mem trivial hmid
  refine ⟨⟨g.accounted.of_alloc_eq rfl, g.tables.cutMid trivial hmid hnone, ?_⟩, ?_⟩
  · intro i hi
    have hi' : i ≠ (parseVpn vpn').vpn2 := fun e => by
      rw [hslot] at e
      unfold UserHalf at hi
      omega
    have h0 := g.root_frame i hi'
    rw [← g.ppn_eq] at h0
    dsimp only
    rw [put_apply, if_neg (fun e => hne e.1.symm), h0, g.ppn_eq]
    exact hk.user_empty i hi
  · intro hv
    unfold VirtTestMapped at hv ⊢
    dsimp only
    rw [g.tables.leaf_cutMid_of_ne trivial hmid hnone trivial (by rw [hslot]; omega), g.leaf_eq trivial]
    exact hv

/-! ### The stages -/

/-- What a stage keeps of the entry of `VIRT_TEST`. -/
def Keeps (k : Phys) (t : RootPgt) (k' : Phys) (t' : RootPgt) : Prop :=
  VirtTestMapped k t → VirtTestMapped k' t'

theorem mem_stepBy {start stop step va : ℕ} (hstep : 0 < step) (h : va ∈ stepBy start stop step) :
    start ≤ va ∧ va < stop := by
  obtain ⟨i, hi, rfl⟩ := List.mem_range'.mp h
  have hmul : (i + 1) * step ≤ stop - start + (step - 1) :=
    (Nat.le_div_iff_mul_le hstep).mp hi
  rw [Nat.add_mul, Nat.one_mul, Nat.mul_comm] at hmul
  omega

theorem mapKernelPages_stage {vas : List ℕ} (hvas : ∀ va ∈ vas, va < 2 ^ 64) :
    ∀ {k t}, KernelTables first k t → Stage first (Keeps k t) (mapKernelPages pteFlags vas k t) := by
  induction vas with
  | nil =>
    intro k t hk _
    exact ⟨hk, id⟩
  | cons va vas ih =>
    intro k t hk
    unfold mapKernelPages
    split
    · exact fun h => by cases h
    rename_i vpn ppn hpage
    obtain ⟨rfl, rfl, hle, hlt⟩ := kernelPage_eq hpage
    split
    · exact fun h => by cases h
    rename_i k₁ t₁ hmap
    have hhalf : ¬UserHalf (parseVpn (va / 4096)).vpn2 := by
      rw [parseVpn_kernel hle (hvas va (by simp)), UserHalf]
      omega
    obtain ⟨hk₁, hkeep, -⟩ := hk.mapCreate hhalf (by omega) hmap
    intro hok
    obtain ⟨hk₂, hkeep₂⟩ := ih (fun v hv => hvas v (by simp [hv])) hk₁ hok
    exact ⟨hk₂, fun hv => hkeep₂ (hkeep hv)⟩

theorem mapKernelRange_stage (hk : KernelTables first k t) {startVa endVa permissions : ℕ}
    (hend : endVa ≤ 2 ^ 64) :
    Stage first (Keeps k t) (mapKernelRange k t startVa endVa permissions) := by
  unfold mapKernelRange
  split
  · exact fun h => by cases h
  · refine mapKernelPages_stage (fun va hva => ?_) hk
    exact lt_of_lt_of_le (mem_stepBy (by decide) hva).2 hend

theorem mapKernelLargePages_stage {vas : List ℕ}
    (hvas : ∀ va ∈ vas, memStartPa + kernelVaOffset ≤ va ∧ va < 2 ^ 64) :
    ∀ {k t}, KernelTables first k t → Stage first (Keeps k t)
      (mapKernelLargePages (permissionR ||| permissionW ||| PTE.flagV) vas k t) := by
  induction vas with
  | nil =>
    intro k t hk _
    exact ⟨hk, id⟩
  | cons va vas ih =>
    intro k t hk
    unfold mapKernelLargePages
    split
    · exact fun h => by cases h
    rename_i vpn ppn hpage
    obtain ⟨rfl, -, -, -⟩ := kernelPage_eq hpage
    split
    · exact fun h => by cases h
    · exact fun h => by cases h
    rename_i k₁ t₁ hmap
    obtain ⟨hlo, hhi⟩ := hvas va (by simp)
    obtain ⟨hk₁, hkeep⟩ := hk.mapCreateLarge hlo hhi hmap
    intro hok
    obtain ⟨hk₂, hkeep₂⟩ := ih (fun v hv => hvas v (by simp [hv])) hk₁ hok
    exact ⟨hk₂, fun hv => hkeep₂ (hkeep hv)⟩

theorem mapKernelRangeLarge_stage (hk : KernelTables first k t) {startVa endVa : ℕ}
    (hstart : memStartPa + kernelVaOffset ≤ startVa) (hend : endVa ≤ 2 ^ 64) :
    Stage first (Keeps k t)
      (mapKernelRangeLarge k t startVa endVa (permissionR ||| permissionW)) := by
  unfold mapKernelRangeLarge
  split
  · exact fun h => by cases h
  split
  · exact fun h => by cases h
  rw [show toPteFlags (permissionR ||| permissionW) =
    .ok (permissionR ||| permissionW ||| PTE.flagV) from rfl]
  refine mapKernelLargePages_stage (fun va hva => ?_) hk
  obtain ⟨h1, h2⟩ := mem_stepBy (by decide) hva
  exact ⟨hstart.trans h1, lt_of_lt_of_le h2 hend⟩

/-- Stages in sequence. -/
theorem Stage.andThen {r : Outcome VMError Unit × Phys × RootPgt}
    {f : Phys → RootPgt → Outcome VMError Unit × Phys × RootPgt} {Q Q' : Phys → RootPgt → Prop}
    (h : Stage first Q r) (hf : ∀ k t, KernelTables first k t → Q k t → Stage first Q' (f k t)) :
    Stage first Q' (Mm.andThen r f) := by
  obtain ⟨res, k, t⟩ := r
  cases res with
  | ok _ => exact hf k t (h rfl).1 (h rfl).2
  | err _ => exact fun h => by cases h
  | panic _ => exact fun h => by cases h

theorem Stage.mono {r : Outcome VMError Unit × Phys × RootPgt} {Q Q' : Phys → RootPgt → Prop}
    (h : Stage first Q r) (hQ : ∀ k t, Q k t → Q' k t) : Stage first Q' r :=
  fun hok => ⟨(h hok).1, hQ _ _ (h hok).2⟩

theorem getVaFromPa_le {pa va : ℕ} (h : getVaFromPa pa = some va) :
    va = pa + kernelVaOffset ∧ va < 2 ^ 64 := by
  unfold getVaFromPa at h
  split at h
  · obtain rfl := Option.some.inj h
    exact ⟨rfl, ‹_›⟩
  · cases h

theorem mapVirtMmio_stage {ranges : List (ℕ × ℕ)} :
    ∀ {k t}, KernelTables first k t → Stage first (Keeps k t) (mapVirtMmio ranges k t) := by
  induction ranges with
  | nil =>
    intro k t hk _
    exact ⟨hk, id⟩
  | cons range ranges ih =>
    intro k t hk
    rw [mapVirtMmio]
    cases hvas : mmioVas range with
    | none => exact fun h => by cases h
    | some vas =>
      obtain ⟨startVa, -, hvas⟩ := Option.bind_eq_some_iff.mp hvas
      obtain ⟨endVa, hend, rfl⟩ := Option.map_eq_some_iff.mp hvas
      refine (mapKernelRange_stage hk (getVaFromPa_le hend).2.le).andThen fun k₁ t₁ hk₁ hkeep => ?_
      exact (ih hk₁).mono fun k₂ t₂ hkeep₂ hv => hkeep₂ (hkeep hv)

/-- The first device range is the page of `VIRT_TEST`. -/
theorem mapVirtMmio_virtTest (hk : KernelTables first k t) :
    Stage first VirtTestMapped (mapVirtMmio qemuVirtMmio k t) := by
  have hpage : kernelPage (0x00100000 + kernelVaOffset) = .ok (4503599560261888, 256) := by decide
  have hfirst : Stage first VirtTestMapped
      (mapKernelRange k t (0x00100000 + kernelVaOffset) (0x00101000 + kernelVaOffset)
        (permissionR ||| permissionW)) := by
    rw [mapKernelRange, show toPteFlags (permissionR ||| permissionW) = .ok 7 from rfl]
    dsimp only
    rw [show stepBy (0x00100000 + kernelVaOffset) (0x00101000 + kernelVaOffset) pageSizeBytes =
      [0x00100000 + kernelVaOffset] from rfl, mapKernelPages, hpage]
    dsimp only
    split
    · exact fun h => by cases h
    rename_i k₁ t₁ hmap
    obtain ⟨hk₁, -, hv⟩ := hk.mapCreate (by unfold UserHalf; decide) (by decide) hmap
    exact fun _ => ⟨hk₁, hv (by decide)⟩
  rw [qemuVirtMmio, mapVirtMmio,
    show mmioVas (0x00100000, 0x00001000) =
      some (0x00100000 + kernelVaOffset, 0x00101000 + kernelVaOffset) from rfl, Option.elim_some]
  exact hfirst.andThen fun k₁ t₁ hk₁ hv =>
    (mapVirtMmio_stage hk₁).mono fun k₂ t₂ hkeep => hkeep hv

/-- Rounding up moves an address by less than one block. -/
theorem roundUpTo_bounds {n va : ℕ} (h : va + 2 ^ n < 2 ^ 64) :
    va ≤ roundUpTo (2 ^ n) va ∧ roundUpTo (2 ^ n) va < va + 2 ^ n := by
  have hpos : 0 < 2 ^ n := Nat.two_pow_pos n
  have hmod := Nat.mod_lt va hpos
  have hle := Nat.mod_le va (2 ^ n)
  unfold roundUpTo
  rw [Nat.and_two_pow_sub_one_eq_mod]
  split
  · omega
  · rename_i hne
    have hsub : wrappingSub va (va % 2 ^ n) = va - va % 2 ^ n := by
      unfold wrappingSub wrap
      omega
    rw [hsub, wrap_of_lt (by omega)]
    omega

theorem computePhyMemLargePageEnd_le {va : ℕ} (h : va < 2 ^ 64) : computePhyMemLargePageEnd va ≤ va := by
  unfold computePhyMemLargePageEnd
  split
  · exact le_refl _
  · rw [show largePageSizeBytes - 1 = 2 ^ 21 - 1 from rfl, Nat.and_two_pow_sub_one_eq_mod]
    have := Nat.mod_le va (2 ^ 21)
    unfold wrappingSub wrap
    omega

theorem mapPhysMem_stage (hk : KernelTables first k t) (layout : Layout) :
    Stage first (Keeps k t) (mapPhysMem layout k t) := by
  have hoff : kernelVaOffset = 18446743798831644672 := rfl
  have hms : memStartPa = 2147483648 := rfl
  have hmz : memSizeBytes = 134217728 := rfl
  unfold mapPhysMem
  split
  · exact fun h => by cases h
  rename_i endVa hend
  obtain ⟨hendEq, hendLt⟩ := getVaFromPa_le hend
  have hbase := layout.base_le
  have hle := layout.le_memEnd
  have hs : layout.kernelEnd.toNat ≤ computePhyMemPageStart layout.kernelEnd.toNat ∧
      computePhyMemPageStart layout.kernelEnd.toNat < layout.kernelEnd.toNat + 2 ^ 12 :=
    roundUpTo_bounds (n := 12) (by omega)
  have hl : computePhyMemPageStart layout.kernelEnd.toNat ≤
        computePhyMemLargePageStart (computePhyMemPageStart layout.kernelEnd.toNat) ∧
      computePhyMemLargePageStart (computePhyMemPageStart layout.kernelEnd.toNat) <
        computePhyMemPageStart layout.kernelEnd.toNat + 2 ^ 21 :=
    roundUpTo_bounds (n := 21) (by omega)
  have he := computePhyMemLargePageEnd_le hendLt
  unfold mapPhysMemTo
  dsimp only
  split
  · exact mapKernelRange_stage hk hendLt.le
  · refine (mapKernelRange_stage hk (by omega)).andThen fun k₁ t₁ hk₁ hkeep₁ => ?_
    refine (mapKernelRangeLarge_stage hk₁ (by omega) (by omega)).andThen fun k₂ t₂ hk₂ hkeep₂ => ?_
    exact (mapKernelRange_stage hk₂ hendLt.le).mono fun k₃ t₃ hkeep₃ hv => hkeep₃ (hkeep₂ (hkeep₁ hv))

/-- All stages. -/
theorem mapKernel_stage (hk : KernelTables first k t) (layout : Layout) :
    Stage first VirtTestMapped (mapKernel layout k t) := by
  have hrange : ∀ {k t} {start stop : UInt64} {permissions : ℕ}, KernelTables first k t →
      VirtTestMapped k t →
      Stage first VirtTestMapped (mapKernelRange k t start.toNat stop.toNat permissions) :=
    fun hk hv => (mapKernelRange_stage hk (UInt64.toNat_lt _).le).mono fun _ _ hkeep => hkeep hv
  refine (mapVirtMmio_virtTest hk).andThen fun k t hk hv => ?_
  refine (hrange hk hv).andThen fun k t hk hv => ?_
  refine (hrange hk hv).andThen fun k t hk hv => ?_
  refine (hrange hk hv).andThen fun k t hk hv => ?_
  refine (hrange hk hv).andThen fun k t hk hv => ?_
  refine (hrange hk hv).andThen fun k t hk hv => ?_
  exact (mapPhysMem_stage hk layout).mono fun _ _ hkeep => hkeep hv

/-! ### The image -/

/-- Finished tables are an image. -/
def KernelTables.image (hk : KernelTables first k t) (hv : VirtTestMapped k t) : KernelImage where
  mem := k.mem
  root := t.ppn
  pages := t.pages
  root_mem := hk.tables.root_mem
  user_empty := hk.user_empty
  mid_mem h := (hk.tables.mid_mem trivial h).1
  bottom_mem {_ _ _ _} h h' := (hk.tables.bottom_mem trivial (bottom_eq_some.mpr ⟨_, h, h'⟩)).1
  stops := by
    cases hb : bottom PTE.child k.mem t.ppn 256 0 with
    | none =>
      unfold VirtTestMapped at hv
      rw [leaf_of_bottom_none hb] at hv
      cases hv
    | some q =>
      obtain ⟨p, hp, hq⟩ := bottom_eq_some.mp hb
      exact ⟨p, q, hp, hq⟩

/-- At boot nothing has been issued. -/
theorem accounted_initial (layout : Layout) (m : Mem) {a : PageAllocator}
    (h : initialAllocator layout.kernelEnd.toNat = some a) :
    Phys.Accounted a.nextUnusedPpn ⟨m, a⟩ [] := by
  have hoff : kernelVaOffset = 18446743798831644672 := rfl
  have hms : memStartPa = 2147483648 := rfl
  have hmz : memSizeBytes = 134217728 := rfl
  obtain ⟨next, hnext, h⟩ := Option.bind_eq_some_iff.mp h
  rw [computeMaxPpn_eq, Option.map_some] at h
  obtain rfl := Option.some.inj h
  refine ⟨⟨le_refl _, by simp⟩, ?_, le_refl _⟩
  show next ≤ memEndPpn
  obtain ⟨pa, hpa, hnext⟩ := Option.bind_eq_some_iff.mp hnext
  have hle := layout.le_memEnd
  have hpa' : pa = layout.kernelEnd.toNat - kernelVaOffset := by
    unfold getPaFromVa at hpa
    split at hpa
    · exact (Option.some.inj hpa).symm
    · cases hpa
  rw [memEndPpn_eq]
  split at hnext
  · have := (PPN.fromPa_eq_some hnext).2
    omega
  · rename_i hrem
    rw [show pageSizeBytes - 1 = 2 ^ 12 - 1 from rfl, Nat.and_two_pow_sub_one_eq_mod] at hrem
    have := (PPN.fromPa_eq_some hnext).2
    rw [show pageSizeBytes = 4096 from rfl] at this
    omega

/-- **The tables after boot.** -/
theorem initKernelSatp_image (layout : Layout) (hfresh : k.Accounted first [])
    (h : initKernelSatp layout k = (.ok t, k')) :
    ∃ img : KernelImage, img.root = t.ppn ∧ img.mem = k'.mem ∧ img.pages = t.pages ∧
      k'.Accounted first img.pages := by
  unfold initKernelSatp at h
  split at h
  · cases h
  rename_i t₀ k₀ hnew
  have hk₀ : KernelTables first k₀ t₀ := by
    unfold RootPgt.new at hnew
    split at hnew
    · cases hnew
    rename_i page k₁ hal
    obtain ⟨hacc, -, hmem⟩ := Phys.allocZeroedPage_spec hfresh hal
    obtain ⟨ht, rfl⟩ := Prod.mk.inj hnew
    obtain rfl := Except.ok.inj ht
    have hzero : ∀ i, k₁.mem page i = 0 := fun i => by simp [hmem]
    refine ⟨hacc, Tree.bare fun i _ => ?_, fun i _ => hzero i⟩
    rw [mid, hzero, PTE.child_zero]
  have hstage := mapKernel_stage hk₀ layout
  split at h
  · rename_i k₂ t₂ hres
    rw [hres] at hstage
    obtain ⟨hk₂, hv⟩ := hstage rfl
    obtain ⟨ht, rfl⟩ := Prod.mk.inj h
    obtain rfl := Outcome.ok.inj ht
    have hacc := hk₂.accounted
    rw [List.append_nil] at hacc
    exact ⟨hk₂.image hv, rfl, rfl, rfl, hacc⟩
  · cases h
  · cases h

end RCoreKernel.Mm
