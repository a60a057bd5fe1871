import RCoreKernel.Mm.Boot

/-!
# Every successful `init_kernel_satp` maps at `KERNEL_VA_OFFSET`

However many pages there are: when `init_kernel_satp` succeeds, its root translates kernel addresses
only, each to the address `KERNEL_VA_OFFSET` below.

* `CallRule` — a property that both kinds of calls keep;
* `CallRule.mapKernel`, `CallRule.initKernelSatp` — **then `init_kernel_satp` keeps it**;
* `initKernelSatp_direct` — what its root translates.
-/

namespace RCoreKernel.Mm

open Radix RootPgt

/-- The calls of `map_create` and `map_create_large` for kernel addresses, with the flags of kernel
memory, keep `I`. -/
structure CallRule (I : Phys → RootPgt → Prop) : Prop where
  small : ∀ {va vpn ppn f : ℕ} {k k' : Phys} {t t' : RootPgt}, va < 2 ^ 64 →
    kernelPage va = .ok (vpn, ppn) → LeafFlags f → f < 16 → I k t →
    RootPgt.mapCreate k t vpn ppn f = (.ok (), k', t') → I k' t'
  large : ∀ {va vpn ppn f : ℕ} {k k' : Phys} {t t' : RootPgt}, va < 2 ^ 64 →
    kernelPage va = .ok (vpn, ppn) → LeafFlags f → f / 4 % 2 = 1 → f < 16 → I k t →
    RootPgt.mapCreateLarge k t vpn ppn f = some (.ok (), k', t') → I k' t'

/-- A stage keeps `I`, when it succeeds. -/
def StageKeeps (I : Phys → RootPgt → Prop) (r : Outcome VMError Unit × Phys × RootPgt) : Prop :=
  r.1 = .ok () → I r.2.1 r.2.2

variable {I : Phys → RootPgt → Prop} {k k' : Phys} {t t' : RootPgt} {f : ℕ}

theorem StageKeeps.andThen {r : Outcome VMError Unit × Phys × RootPgt}
    {g : Phys → RootPgt → Outcome VMError Unit × Phys × RootPgt} (h : StageKeeps I r)
    (hg : ∀ k t, I k t → StageKeeps I (g k t)) : StageKeeps I (Mm.andThen r g) := by
  obtain ⟨res, k, t⟩ := r
  cases res with
  | ok _ => exact hg k t (h rfl)
  | err _ => exact fun h => by cases h
  | panic _ => exact fun h => by cases h

/-- The permissions of kernel memory. -/
def KernelPermissions (permissions : ℕ) : Prop :=
  permissions = permissionR ∨ permissions = permissionR ||| permissionW ∨
    permissions = permissionR ||| permissionX

theorem KernelPermissions.flags {permissions : ℕ} (h : KernelPermissions permissions) {f : ℕ}
    (hf : toPteFlags permissions = .ok f) : LeafFlags f ∧ f < 16 := by
  have hall : ∀ p ∈ [permissionR, permissionR ||| permissionW, permissionR ||| permissionX],
      toPteFlags p = .ok (p ||| PTE.flagV) ∧ PTE.isValidFlags (p ||| PTE.flagV) = true ∧
        (p ||| PTE.flagV) / 2 % 2 = 1 ∧ (p ||| PTE.flagV) < 16 := by decide
  obtain ⟨htwo, hvalid, hread, hlt⟩ := hall permissions (by
    rcases h with rfl | rfl | rfl <;> simp)
  rw [htwo] at hf
  cases hf
  exact ⟨⟨hvalid, hread⟩, hlt⟩

namespace CallRule

variable (hI : CallRule I)

include hI

theorem mapKernelPages (hf : LeafFlags f) (hlt : f < 16) {vas : List ℕ}
    (hvas : ∀ va ∈ vas, va < 2 ^ 64) (h : I k t) :
    StageKeeps I (Mm.mapKernelPages f vas k t) := by
  induction vas generalizing k t with
  | nil => exact fun _ => h
  | cons va vas ih =>
    unfold Mm.mapKernelPages
    split
    · exact fun h => by cases h
    rename_i vpn ppn hpage
    split
    · exact fun h => by cases h
    rename_i k₁ t₁ hmap
    exact ih (fun v hv => hvas v (by simp [hv])) (hI.small (hvas va (by simp)) hpage hf hlt h hmap)

theorem mapKernelRange {startVa endVa permissions : ℕ} (hp : KernelPermissions permissions)
    (hend : endVa ≤ 2 ^ 64) (h : I k t) :
    StageKeeps I (Mm.mapKernelRange k t startVa endVa permissions) := by
  unfold Mm.mapKernelRange
  split
  · exact fun h => by cases h
  · rename_i f hflags
    obtain ⟨hf, hlt⟩ := hp.flags hflags
    exact hI.mapKernelPages hf hlt (fun va hva =>
      lt_of_lt_of_le (mem_stepBy (by decide) hva).2 hend) h

theorem mapKernelLargePages (hf : LeafFlags f) (hW : f / 4 % 2 = 1) (hlt : f < 16) {vas : List ℕ}
    (hvas : ∀ va ∈ vas, va < 2 ^ 64) (h : I k t) :
    StageKeeps I (Mm.mapKernelLargePages f vas k t) := by
  induction vas generalizing k t with
  | nil => exact fun _ => h
  | cons va vas ih =>
    unfold Mm.mapKernelLargePages
    split
    · exact fun h => by cases h
    rename_i vpn ppn hpage
    split
    · exact fun h => by cases h
    · exact fun h => by cases h
    rename_i k₁ t₁ hmap
    exact ih (fun v hv => hvas v (by simp [hv]))
      (hI.large (hvas va (by simp)) hpage hf hW hlt h hmap)

theorem mapKernelRangeLarge {startVa endVa : ℕ} (hend : endVa ≤ 2 ^ 64) (h : I k t) :
    StageKeeps I (Mm.mapKernelRangeLarge k t startVa endVa (permissionR ||| permissionW)) := by
  unfold Mm.mapKernelRangeLarge
  split
  · exact fun h => by cases h
  split
  · exact fun h => by cases h
  rw [show toPteFlags (permissionR ||| permissionW) =
    .ok (permissionR ||| permissionW ||| PTE.flagV) from rfl]
  exact hI.mapKernelLargePages leafFlags_rw (by decide) (by decide) (fun va hva =>
    lt_of_lt_of_le (mem_stepBy (by decide) hva).2 hend) h

theorem mapVirtMmio {ranges : List (ℕ × ℕ)} (h : I k t) :
    StageKeeps I (Mm.mapVirtMmio ranges k t) := by
  induction ranges generalizing k t with
  | nil => exact fun _ => h
  | cons range ranges ih =>
    rw [Mm.mapVirtMmio]
    cases hvas : mmioVas range with
    | none => exact fun h => by cases h
    | some vas =>
      obtain ⟨startVa, -, hvas⟩ := Option.bind_eq_some_iff.mp hvas
      obtain ⟨endVa, hend, rfl⟩ := Option.map_eq_some_iff.mp hvas
      exact (hI.mapKernelRange (Or.inr (Or.inl rfl)) (getVaFromPa_le hend).2.le h).andThen
        fun k₁ t₁ h₁ => ih h₁

theorem mapPhysMem (layout : Layout) (h : I k t) : StageKeeps I (Mm.mapPhysMem layout k t) := by
  have hoff : kernelVaOffset = 18446743798831644672 := rfl
  have hrw : KernelPermissions (permissionR ||| permissionW) := Or.inr (Or.inl rfl)
  unfold Mm.mapPhysMem
  split
  · exact fun h => by cases h
  rename_i endVa hend
  have hlt := (getVaFromPa_le hend).2
  have hlarge := computePhyMemLargePageEnd_le hlt
  have hlargeStart : computePhyMemLargePageStart
      (computePhyMemPageStart layout.kernelEnd.toNat) ≤ 2 ^ 64 := by
    have hle := layout.le_memEnd
    have hms : memStartPa + memSizeBytes = 0x88000000 := rfl
    have hs : layout.kernelEnd.toNat ≤ roundUpTo (2 ^ 12) layout.kernelEnd.toNat ∧
        roundUpTo (2 ^ 12) layout.kernelEnd.toNat < layout.kernelEnd.toNat + 2 ^ 12 :=
      roundUpTo_bounds (by omega)
    have hl : roundUpTo (2 ^ 12) layout.kernelEnd.toNat ≤
          roundUpTo (2 ^ 21) (roundUpTo (2 ^ 12) layout.kernelEnd.toNat) ∧
        roundUpTo (2 ^ 21) (roundUpTo (2 ^ 12) layout.kernelEnd.toNat) <
          roundUpTo (2 ^ 12) layout.kernelEnd.toNat + 2 ^ 21 :=
      roundUpTo_bounds (by omega)
    exact le_of_lt (lt_of_lt_of_le hl.2 (by omega))
  unfold mapPhysMemTo
  dsimp only
  split
  · exact hI.mapKernelRange hrw hlt.le h
  · refine (hI.mapKernelRange hrw hlargeStart h).andThen fun k₁ t₁ h₁ => ?_
    refine (hI.mapKernelRangeLarge (by omega) h₁).andThen fun k₂ t₂ h₂ => ?_
    exact hI.mapKernelRange hrw hlt.le h₂

/-- All stages. -/
theorem mapKernel (layout : Layout) (h : I k t) : StageKeeps I (Mm.mapKernel layout k t) := by
  have hrange : ∀ {k t} {start stop : UInt64} {permissions : ℕ}, KernelPermissions permissions →
      I k t → StageKeeps I (Mm.mapKernelRange k t start.toNat stop.toNat permissions) :=
    fun hp h => hI.mapKernelRange hp (UInt64.toNat_lt _).le h
  refine (hI.mapVirtMmio h).andThen fun k t h => ?_
  refine (hrange (Or.inr (Or.inr rfl)) h).andThen fun k t h => ?_
  refine (hrange (Or.inr (Or.inl rfl)) h).andThen fun k t h => ?_
  refine (hrange (Or.inl rfl) h).andThen fun k t h => ?_
  refine (hrange (Or.inr (Or.inl rfl)) h).andThen fun k t h => ?_
  refine (hrange (Or.inr (Or.inl rfl)) h).andThen fun k t h => ?_
  exact hI.mapPhysMem layout h

/-- The whole of `init_kernel_satp`, from an empty root. -/
theorem initKernelSatp (layout : Layout) {k₀ : Phys}
    (hnew : ∀ k t, RootPgt.new k₀ = (.ok t, k) → I k t)
    (h : Mm.initKernelSatp layout k₀ = (.ok t, k)) : I k t := by
  unfold Mm.initKernelSatp at h
  split at h
  · cases h
  rename_i t₀ k₁ hroot
  have hstage := hI.mapKernel layout (hnew k₁ t₀ hroot)
  split at h
  · rename_i k₂ t₂ hres
    rw [hres] at hstage
    obtain ⟨ht, rfl⟩ := Prod.mk.inj h
    obtain rfl := Outcome.ok.inj ht
    exact hstage rfl
  · cases h
  · cases h

end CallRule

/-! ### Direct translations -/

/-- Kernel addresses only, each to the address `KERNEL_VA_OFFSET` below, for the kernel. -/
def Direct (m : Mem) (root : ℕ) : Prop := ∀ v ppn f, Canonical v → translate m root v = some (ppn, f) →
  v = kernelHalf + ppn ∧ ppn < 2 ^ 26 ∧ f < 16

variable {first : ℕ}

/-- The page numbers of a kernel address. -/
theorem kernelPage_direct {va vpn ppn : ℕ} (hva : va < 2 ^ 64) (h : kernelPage va = .ok (vpn, ppn)) :
    vpn = kernelHalf + ppn ∧ ppn < 2 ^ 26 := by
  have hoff : kernelVaOffset = 18446743798831644672 := rfl
  obtain ⟨rfl, rfl, hle, -⟩ := kernelPage_eq h
  rw [kernelHalf]
  omega

/-- `map_create` of a kernel page. -/
theorem Direct.mapCreate {vpn ppn : ℕ} (hs : Sound first [] k t) (hd : Direct k.mem t.ppn)
    (hvpn : vpn = kernelHalf + ppn) (hppn : ppn < 2 ^ 26) (hf : LeafFlags f) (hlt : f < 16)
    (h : RootPgt.mapCreate k t vpn ppn f = (.ok (), k', t')) :
    Sound first [] k' t' ∧ Direct k'.mem t'.ppn := by
  have hcan : Canonical vpn := by
    rw [hvpn]
    exact canonical_kernelHalf hppn
  have g := mapCreate_spec hs.accounted hs.tables (parseVpn_slot _) (by omega) h
  have hreg' := g.interior PTE.regular_zero PTE.regular_pointer hs.regular
  refine ⟨⟨g.accounted, g.tables, hreg'⟩, fun v p f' hv htr => ?_⟩
  rw [g.ppn_eq] at htr hreg'
  by_cases hvp : v = vpn
  · rw [translate, walk_eq hreg', hvp, g.path_ok rfl, decode_leaf hf (by omega)] at htr
    cases htr
    exact ⟨hvp.trans hvpn, hppn, hlt⟩
  · refine hd v p f' hv ?_
    rw [← htr, translate, translate, walk_eq hs.regular, walk_eq hreg']
    refine (decode_same (g.path_same (parseVpn_slot v) fun _ he => ?_) _ _).symm
    exact hvp (hv.ext hcan (Parsed.ext he.2.2 he.2.1 he.1))

/-- `map_create_large` of a kernel page. -/
theorem Direct.mapCreateLarge {vpn ppn : ℕ} (hs : Sound first [] k t) (hd : Direct k.mem t.ppn)
    (hvpn : vpn = kernelHalf + ppn) (hppn : ppn < 2 ^ 26) (hf : LeafFlags f) (hW : f / 4 % 2 = 1)
    (hlt : f < 16) (h : RootPgt.mapCreateLarge k t vpn ppn f = some (.ok (), k', t')) :
    Sound first [] k' t' ∧ Direct k'.mem t'.ppn := by
  have hcan : Canonical vpn := by
    rw [hvpn]
    exact canonical_kernelHalf hppn
  have hpa : PPN.fromPa (ppn * 4096) = some ppn := by
    have hv : PPN.isValidPa (ppn * 4096) = true :=
      decide_eq_true (show ppn * 4096 < 2 ^ 56 - 1 by omega)
    have hdiv : ppn * 4096 / 2 ^ 12 = ppn := by omega
    rw [PPN.fromPa, if_pos hv, pageSizeOrder, Nat.shiftRight_eq_div_pow, hdiv]
  obtain ⟨res, k₂, t₂, hcall, hres⟩ :=
    mapCreateLarge_cases hs.accounted hs.tables hcan ⟨_, hpa⟩ hf.1
  rw [hcall] at h
  simp only [Option.some.injEq, Prod.mk.injEq] at h
  obtain ⟨rfl, rfl, rfl⟩ := h
  rcases hres with ⟨e, he, -⟩ | ⟨k₁, table1, -, g, hmid, -, rfl⟩
  · cases he
  have hbase : largeBase ppn = ppn / 512 * 512 := rfl
  obtain ⟨hfl, hfv, -⟩ := PTE.isValidFlags_iff.mp hf.1
  have hR := hf.2
  have hleaf : PTE.isLeaf (largeBase ppn * 1024 + f) = true := by
    rw [PTE.isLeaf_iff]
    omega
  have hnone := PTE.child_of_leaf hleaf
  have hs₁ := g.sound hs
  have hs' : Sound first [] { k₁ with
      mem := put k₁.mem table1 (parseVpn vpn).vpn1 (largeBase ppn * 1024 + f) } t₂ :=
    ⟨g.accounted.of_alloc_eq rfl, g.tables.cutMid (parseVpn_slot vpn) hmid hnone,
      hs₁.regular.cutMid g.tables (parseVpn_slot vpn) hmid fun _ => hleaf⟩
  refine ⟨hs', fun v p f' hv htr => ?_⟩
  rw [translate, walk_eq hs'.regular] at htr
  dsimp only at htr
  rw [g.tables.path_cutMid (parseVpn_slot vpn) hmid hnone (parseVpn_slot v)] at htr
  split at htr
  · -- inside the large page
    rename_i hin
    have hregion : v / 512 = vpn / 512 := (parseVpn_region hv hcan).mpr hin
    have hkind : PTE.kind (largeBase ppn * 1024 + f) = .leaf := by
      rw [PTE.kind_eq, if_neg (by omega), if_pos (by omega)]
    have hget : PTE.getPpn (largeBase ppn * 1024 + f) = largeBase ppn := by
      rw [PTE.getPpn_eq]
      omega
    have hflag : (largeBase ppn * 1024 + f) % 1024 = f := by omega
    rw [decode, hget, if_pos ⟨hkind, by omega⟩, hflag, parseVpn_eq] at htr
    simp only [Option.some.injEq, Prod.mk.injEq] at htr
    rw [kernelHalf] at hvpn ⊢
    omega
  · refine hd v p f' hv ?_
    rw [← htr, ← g.translate_eq hs.regular v, translate, walk_eq hs₁.regular]

/-- **What a kernel root translates.** -/
theorem initKernelSatp_direct {l : Layout} {m₀ : Mem} {a₀ : PageAllocator}
    (halloc : initialAllocator l.kernelEnd.toNat = some a₀)
    (h : initKernelSatp l ⟨m₀, a₀⟩ = (.ok t, k)) : Direct k.mem t.ppn := by
  have hrule : CallRule fun k t => Sound a₀.nextUnusedPpn [] k t ∧ Direct k.mem t.ppn := by
    refine ⟨fun hva hpage hf hlt hI hcall => ?_, fun hva hpage hf hW hlt hI hcall => ?_⟩
    · obtain ⟨hvpn, hppn⟩ := kernelPage_direct hva hpage
      exact hI.2.mapCreate hI.1 hvpn hppn hf hlt hcall
    · obtain ⟨hvpn, hppn⟩ := kernelPage_direct hva hpage
      exact hI.2.mapCreateLarge hI.1 hvpn hppn hf hW hlt hcall
  refine (hrule.initKernelSatp l (fun k t hnew => ?_) h).2
  obtain ⟨hs, hinvalid⟩ := new_sound (accounted_initial l m₀ halloc) hnew
  refine ⟨hs, fun v ppn f _ htr => ?_⟩
  have hvalid := isValid_of_translate htr
  rw [hinvalid] at hvalid
  cases hvalid

end RCoreKernel.Mm
