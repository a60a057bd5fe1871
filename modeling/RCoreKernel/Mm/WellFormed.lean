import RCoreKernel.Mm.Sv39Unmap
import RCoreKernel.Mm.Vm

/-!
# Well-formed address spaces

Three structures describe one user address space: the list of areas, the pages each area owns,
and the page tables.  `Agrees` says that they agree; it compares page table entries up to the
accessed and dirty bits, which the hardware may set at any time (`PTE.SameButAD`).
`WellFormed` adds that no area is empty.

`SpaceOk` adds to `Agrees` what the constructors of a `VMSpace` establish and its operations
rely on: the user-half tables are a tree of distinct pages owned by the root, without large
pages; an area's permissions are permission bits; areas in user space are anonymous and the
others lie in the kernel half.  Ownership of the pages themselves is the ledger
`Phys.Accounted`.  A program with an empty segment yields a `SpaceOk` space that is not
`WellFormed`.

The kernel half is described by a `KernelImage`: the tables that `init_kernel_satp` leaves in
memory.
-/

namespace RCoreKernel.Mm

open Radix RootPgt

/-! ### Entries up to the accessed and dirty bits -/

/-- The two words differ at most in bits 6 (accessed) and 7 (dirty). -/
def PTE.SameButAD (w w' : ℕ) : Prop := w / 256 = w' / 256 ∧ w % 64 = w' % 64

namespace PTE.SameButAD

variable {w w' w'' : ℕ}

theorem refl (w : ℕ) : PTE.SameButAD w w := ⟨rfl, rfl⟩

theorem symm (h : PTE.SameButAD w w') : PTE.SameButAD w' w := ⟨h.1.symm, h.2.symm⟩

theorem trans (h : PTE.SameButAD w w') (h' : PTE.SameButAD w' w'') : PTE.SameButAD w w'' :=
  ⟨h.1.trans h'.1, h.2.trans h'.2⟩

theorem isValid_eq (h : PTE.SameButAD w w') : PTE.isValid w = PTE.isValid w' := by
  rw [Bool.eq_iff_iff, PTE.isValid_iff, PTE.isValid_iff]
  have := h.2
  omega

theorem isLeaf_eq (h : PTE.SameButAD w w') : PTE.isLeaf w = PTE.isLeaf w' := by
  rw [Bool.eq_iff_iff, PTE.isLeaf_iff, PTE.isLeaf_iff]
  have := h.2
  omega

theorem getPpn_eq (h : PTE.SameButAD w w') : PTE.getPpn w = PTE.getPpn w' := by
  rw [PTE.getPpn_eq, PTE.getPpn_eq]
  have := h.1
  omega

theorem child_eq (h : PTE.SameButAD w w') : PTE.child w = PTE.child w' := by
  unfold PTE.child
  rw [h.isValid_eq, h.isLeaf_eq, h.getPpn_eq]

end PTE.SameButAD

/-! ### The kernel's tables -/

/-- The kernel root table and the tables below it, as they stand in memory at boot.  The user
half is empty, the pages holding the tables are listed, and the first slot of the kernel half
leads to a level-0 table. -/
structure KernelImage where
  mem : Mem
  root : ℕ
  pages : List ℕ
  root_mem : root ∈ pages
  user_empty : ∀ i, UserHalf i → mem root i = 0
  mid_mem : ∀ {i p}, PTE.child (mem root i) = some p → p ∈ pages
  bottom_mem : ∀ {i j p q}, PTE.child (mem root i) = some p → PTE.child (mem p j) = some q →
    q ∈ pages
  stops : StopsUnmap mem root

/-- The kernel tables stand in `m` as they did at boot. -/
def KernelImage.Intact (img : KernelImage) (m : Mem) : Prop :=
  ∀ p ∈ img.pages, ∀ j, PTE.SameButAD (m p j) (img.mem p j)

/-! ### Agreement of areas, pages and tables -/

namespace VMSpace

/-- Some area contains `vpn` and holds `page` for it. -/
def Holds (s : VMSpace) (vpn page : ℕ) : Prop :=
  ∃ a ∈ s.areas, a.containVpn vpn = true ∧ (vpn, page) ∈ a.pages.entries

/-- Areas, pages and tables agree. -/
structure Agrees (img : KernelImage) (m : Mem) (s : VMSpace) : Prop where
  disjoint : s.areas.Pairwise VMArea.Apart
  keys : ∀ a ∈ s.areas, ∀ v page, (v, page) ∈ a.pages.entries → a.containVpn v = true
  valid_iff : ∀ v < userEndVpn,
    PTE.isValid (pteAt m s.rootPgt.ppn v) = true ↔ ∃ page, s.Holds v page
  pte_eq : ∀ v < userEndVpn, ∀ a ∈ s.areas, ∀ page, a.containVpn v = true →
    (v, page) ∈ a.pages.entries →
      PTE.SameButAD (pteAt m s.rootPgt.ppn v) (page * 1024 + (a.permissions ||| PTE.flagV))
  kernel_root : ∀ i, 256 ≤ i → i < 512 →
    PTE.SameButAD (m s.rootPgt.ppn i) (img.mem img.root i)
  kernel_tables : img.Intact m

/-- A well-formed space: its areas are not empty, and areas, pages and tables agree. -/
structure WellFormed (img : KernelImage) (m : Mem) (s : VMSpace) : Prop extends Agrees img m s where
  nonempty : ∀ a ∈ s.areas, a.startVpn < a.endVpn

/-- The permissions of an area are permission bits only. -/
def PermissionBits (permissions : ℕ) : Prop := andNot permissions allPermissionFlags = 0

/-- Permission bits and the valid bit are flag bits. -/
theorem lor_flagV_lt {permissions : ℕ} (h : PermissionBits permissions) :
    permissions ||| PTE.flagV < 1024 := by
  have hand := andNot_eq_zero.mp h
  have hle : permissions ≤ allPermissionFlags := by
    rw [← hand]
    exact Nat.and_le_right
  exact Nat.or_lt_two_pow (n := 10) (lt_of_le_of_lt hle (by decide)) (by decide)

/-- An area lies in user space, or it is a kernel stack. -/
def Placed (a : VMArea) : Prop :=
  (a.mapType = .anonymous ∧ ∀ v, a.containVpn v = true → v < userEndVpn) ∨
    (a.mapType = .kernelVaOffset ∧ 2 ^ 26 ≤ a.startVpn ∧ a.startVpn < a.endVpn)

/-- A space in the representation its constructors give it. -/
structure SpaceOk (img : KernelImage) (m : Mem) (s : VMSpace) : Prop where
  agrees : Agrees img m s
  tables : Tree PTE.child UserHalf m s.rootPgt.ppn s.rootPgt.pages
  noLarge : Interior PTE.child (fun w => PTE.isLeaf w = false) UserHalf m s.rootPgt.ppn
  top_invalid : PTE.isValid (pteAt m s.rootPgt.ppn userEndVpn) = false
  permissions : ∀ a ∈ s.areas, PermissionBits a.permissions
  placement : ∀ a ∈ s.areas, Placed a

variable {img : KernelImage} {m m' : Mem} {s s' : VMSpace} {v page : ℕ} {a b : VMArea}

/-- Of areas apart from each other, at most one contains a page number. -/
theorem eq_of_apart {areas : List VMArea} (h : areas.Pairwise VMArea.Apart) (ha : a ∈ areas)
    (hb : b ∈ areas) (hav : a.containVpn v = true) (hbv : b.containVpn v = true) : a = b := by
  have hp : areas.Pairwise fun a b => a.containVpn v = true → b.containVpn v = true → a = b :=
    h.imp fun {x y} h hx hy => absurd ⟨hx, hy⟩ (h v)
  exact hp.forall_of_forall_of_flip (fun _ _ _ _ => rfl)
    (hp.imp fun {x y} h hy hx => (h hx hy).symm) ha hb hav hbv

theorem Agrees.area_unique (w : Agrees img m s) (ha : a ∈ s.areas) (hb : b ∈ s.areas)
    (hav : a.containVpn v = true) (hbv : b.containVpn v = true) : a = b :=
  eq_of_apart w.disjoint ha hb hav hbv

theorem mem_pages_of_mem_area (ha : a ∈ s.areas) (hp : page ∈ a.pages.values) : page ∈ s.pages :=
  List.mem_append_right _ (List.mem_flatMap.mpr ⟨a, ha, hp⟩)

theorem mem_pages_of_table {p : ℕ} (hp : p ∈ s.rootPgt.pages) : p ∈ s.pages :=
  List.mem_append_left _ hp

/-- **Frame.**  A space only depends on its own tables and on the kernel's. -/
theorem SpaceOk.frame (h : SpaceOk img m s)
    (hown : ∀ p ∈ s.rootPgt.pages, ∀ j, PTE.SameButAD (m' p j) (m p j)) (himg : img.Intact m') :
    SpaceOk img m' s := by
  have hroot : ∀ j, PTE.SameButAD (m' s.rootPgt.ppn j) (m s.rootPgt.ppn j) :=
    hown _ h.tables.root_mem
  have hpte : ∀ {v}, v < 2 ^ 26 →
      PTE.SameButAD (pteAt m' s.rootPgt.ppn v) (pteAt m s.rootPgt.ppn v) := by
    intro v hv
    rw [pteAt_user hv, pteAt_user hv]
    exact h.tables.leaf_rel (PTE.SameButAD.refl 0) (fun i _ => (hroot i).child_eq)
      (fun p hp _ j => ⟨(hown p hp j).child_eq, hown p hp j⟩) (userHalf_of_lt hv) _ _
  have hlt : ∀ {v}, v < userEndVpn → v < 2 ^ 26 := fun hv => by
    rw [userEndVpn_eq] at hv
    omega
  refine ⟨⟨h.agrees.disjoint, h.agrees.keys, ?_, ?_, ?_, himg⟩, ?_, ?_, ?_, h.permissions,
    h.placement⟩
  · intro v hv
    rw [(hpte (hlt hv)).isValid_eq]
    exact h.agrees.valid_iff v hv
  · intro v hv a ha page hav hmem
    exact (hpte (hlt hv)).trans (h.agrees.pte_eq v hv a ha page hav hmem)
  · intro i h1 h2
    exact (hroot i).trans (h.agrees.kernel_root i h1 h2)
  · exact h.tables.frame (fun i _ => (hroot i).child_eq) (fun p hp _ j => (hown p hp j).child_eq)
  · refine h.noLarge.frame h.tables (fun i _ => ⟨(hroot i).child_eq, ?_⟩) (fun p hp _ j => ?_)
    · rw [(hroot i).isLeaf_eq]
      exact id
    · rw [(hown p hp j).isLeaf_eq]
      exact id
  · rw [(hpte (by decide)).isValid_eq]
    exact h.top_invalid

/-- The kernel half of a space's root refers to the kernel's tables. -/
theorem Agrees.kernel_child (w : Agrees img m s) {i p : ℕ} (h1 : 256 ≤ i) (h2 : i < 512)
    (h : PTE.child (m s.rootPgt.ppn i) = some p) : p ∈ img.pages := by
  rw [(w.kernel_root i h1 h2).child_eq] at h
  exact img.mid_mem h

theorem Agrees.stopsUnmap (w : Agrees img m s) : StopsUnmap m s.rootPgt.ppn := by
  obtain ⟨p, q, hp, hq⟩ := img.stops
  refine ⟨p, q, ?_, ?_⟩
  · rw [(w.kernel_root 256 (by decide) (by decide)).child_eq]
    exact hp
  · rw [(w.kernel_tables p (img.mid_mem hp) 0).child_eq]
    exact hq

/-! ### A small space -/

/-- Kernel tables in pages 0, 1 and 2, and a user root in page 3. -/
def sampleMem : Mem := fun p j =>
  if j = 256 ∧ (p = 0 ∨ p = 3) then PTE.flagV + 1 * 1024
  else if j = 0 ∧ p = 1 then PTE.flagV + 2 * 1024
  else 0

theorem sampleMem_user {p i : ℕ} (hp : p ≠ 1) (hi : i < 256) : sampleMem p i = 0 := by
  unfold sampleMem
  rw [if_neg (by omega), if_neg (by omega)]

theorem child_sampleMem {p i q : ℕ} (h : PTE.child (sampleMem p i) = some q) : q = 1 ∨ q = 2 := by
  unfold sampleMem at h
  split at h
  · exact Or.inl (Option.some.inj h).symm
  · split at h
    · exact Or.inr (Option.some.inj h).symm
    · rw [PTE.child_zero] at h
      cases h

/-- The kernel tables of `sampleMem`. -/
def sampleImage : KernelImage where
  mem := sampleMem
  root := 0
  pages := [0, 1, 2]
  root_mem := by decide
  user_empty _ hi := sampleMem_user (by decide) hi
  mid_mem h := by rcases child_sampleMem h with rfl | rfl <;> decide
  bottom_mem _ h := by rcases child_sampleMem h with rfl | rfl <;> decide
  stops := ⟨1, 2, by decide, by decide⟩

/-- Four pages are in use and six are free. -/
def samplePhys : Phys := ⟨sampleMem, ⟨4, 10, []⟩⟩

/-- A space without areas. -/
def sampleSpace : VMSpace := ⟨⟨3, [3]⟩, [], 0, 0, 0⟩

theorem sample_accounted : samplePhys.Accounted 0 (sampleSpace.pages ++ [0, 1, 2]) :=
  ⟨⟨by decide, by decide⟩, by decide, by decide⟩

theorem sample_ok : SpaceOk sampleImage samplePhys.mem sampleSpace := by
  have hmid : ∀ {i}, UserHalf i → mid PTE.child sampleMem 3 i = none := fun {i} hi => by
    rw [mid, sampleMem_user (by decide) hi, PTE.child_zero]
  have hpte : ∀ {v}, v < 2 ^ 26 → pteAt sampleMem 3 v = 0 := fun {v} hv => by
    rw [pteAt_user hv]
    exact leaf_bare (fun _ => hmid) (userHalf_of_lt hv) _ _
  refine ⟨⟨List.Pairwise.nil, by simp [sampleSpace], ?_, by simp [sampleSpace], ?_,
    fun _ _ _ => PTE.SameButAD.refl _⟩, ?_, ?_, by decide, by simp [sampleSpace],
    by simp [sampleSpace]⟩
  · intro v hv
    have hlt : v < 2 ^ 26 := by
      rw [userEndVpn_eq] at hv
      omega
    rw [show pteAt samplePhys.mem sampleSpace.rootPgt.ppn v = 0 from hpte hlt]
    simp [Holds, sampleSpace, PTE.isValid_iff]
  · intro i _ _
    show PTE.SameButAD (sampleMem 3 i) (sampleMem 0 i)
    simp [sampleMem, PTE.SameButAD.refl]
  · exact Tree.bare fun _ => hmid
  · refine Interior.bare (fun _ => hmid) fun {i} hi => ?_
    show PTE.isLeaf (sampleMem 3 i) = false
    rw [sampleMem_user (by decide) hi]
    rfl

end VMSpace

end RCoreKernel.Mm
