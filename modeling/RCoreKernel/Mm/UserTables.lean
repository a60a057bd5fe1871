import RCoreKernel.Mm.Boot
import RCoreKernel.Mm.Loader

/-!
# User tables after any history

A user table starts as a copy of the kernel root.  Afterwards `map_create` and `unmap` change it,
in any order, while the rest of the kernel goes on: pages are taken and returned, and the hardware
sets accessed and dirty bits.  `Derived` is that history, `UserTable` the invariant it keeps.

The loops of `RootPgt::unmap` only look at the end of the range in a level-0 table.  Over missing
tables they run on, at most into the first slot of the kernel half, where the table of the first
device stops them.

* `Unmapped.walk_user`, `UserTable.walk_kernel` — the walks that `unmap` does not change;
* `Derived.userTable` — the invariant, by induction on the history;
* `Derived.unmap_cleared` — **after any history, `unmap` clears its range and changes no other
  entry**.
-/

namespace RCoreKernel.Mm

open Radix RootPgt

/-- A pointer of the hardware is one of the software. -/
theorem PTE.child_of_hwChild {w p : ℕ} (h : PTE.hwChild w = some p) : PTE.child w = some p := by
  unfold PTE.hwChild at h
  split at h
  · rename_i hk
    have hreg : PTE.Regular w := fun hl => by
      rw [hk] at hl
      cases hl
    rw [← PTE.hwChild_eq hreg, PTE.hwChild, if_pos hk]
    exact h
  · cases h

/-- Outside the range, the walk of a user page reads what it read before. -/
theorem RootPgt.Unmapped.walk_user {m m' : Mem} {t : RootPgt} {lo hi v : ℕ} (u : Unmapped m m' t lo hi)
    (hv : v < 2 ^ 26) (hout : ¬(lo ≤ v ∧ v < hi)) : walk m' t.ppn v = walk m t.ppn v := by
  unfold walk
  have hU : UserHalf (parseVpn v).vpn2 := VMSpace.vpn2_lt hv
  refine path_congr (congrFun u.root_eq _) ?_ ?_
  · intro p hp
    rw [u.mid_eq hU (PTE.child_of_hwChild hp)]
  · intro p q hp hq
    have hmid : mid PTE.child m t.ppn (parseVpn v).vpn2 = some p := PTE.child_of_hwChild hp
    have hbottom : bottom PTE.child m t.ppn (parseVpn v).vpn2 (parseVpn v).vpn1 = some q :=
      bottom_eq_some.mpr ⟨p, hmid, PTE.child_of_hwChild hq⟩
    have hbottom' : bottom PTE.child m' t.ppn (parseVpn v).vpn2 (parseVpn v).vpn1 = some q := by
      refine bottom_eq_some.mpr ⟨p, ?_, ?_⟩
      · rw [mid, u.root_eq]
        exact hmid
      · rw [u.mid_eq hU hmid]
        exact PTE.child_of_hwChild hq
    have hpte := u.pte_eq hv
    rw [if_neg hout, pteAt, pteAt, leaf_of_bottom hbottom, leaf_of_bottom hbottom'] at hpte
    exact hpte

/-! ### The invariant -/

/-- A user table: a tree of its own pages without large pages, and a kernel half that leads to the
tables of the kernel. -/
structure UserTable (img : KernelImage) (first : ℕ) (k : Phys) (t : RootPgt) : Prop where
  tables : Tables UserHalf k t
  noLarge : NoLarge UserHalf k t
  kernel_root : ∀ i, 256 ≤ i → i < 512 → PTE.SameButAD (k.mem t.ppn i) (img.mem img.root i)
  kernel_tables : img.Intact k.mem
  accounted : ∃ rest, k.Accounted first (t.pages ++ rest) ∧ ∀ p ∈ img.pages, p ∈ rest

variable {img : KernelImage} {first : ℕ} {k k' : Phys} {t t' : RootPgt} {m' : Mem} {lo hi v : ℕ}

/-- The space of a user table has one. -/
theorem VMSpace.SpaceOk.userTable {s : VMSpace} {rest : List ℕ} (hok : VMSpace.SpaceOk img k.mem s)
    (hacc : k.Accounted first (s.pages ++ rest)) (hrest : ∀ p ∈ img.pages, p ∈ rest) :
    UserTable img first k s.rootPgt := by
  rw [VMSpace.pages, List.append_assoc] at hacc
  exact ⟨hok.tables, hok.noLarge, hok.agrees.kernel_root, hok.agrees.kernel_tables, _, hacc,
    fun p hp => List.mem_append_right _ (hrest p hp)⟩

namespace UserTable

theorem kernel_child (h : UserTable img first k t) {i p : ℕ} (h1 : 256 ≤ i) (h2 : i < 512)
    (hp : PTE.child (k.mem t.ppn i) = some p) : PTE.child (img.mem img.root i) = some p := by
  rw [← (h.kernel_root i h1 h2).child_eq]
  exact hp

/-- The tables of the kernel are not among those of the user. -/
theorem not_mem_pages (h : UserTable img first k t) {p : ℕ} (hp : p ∈ img.pages) :
    p ∉ t.pages := by
  obtain ⟨rest, hacc, hrest⟩ := h.accounted
  intro ht
  exact (List.nodup_append.mp hacc.ledger.held_nodup).2.2 p ht p (hrest p hp) rfl

theorem stopsUnmap (h : UserTable img first k t) : StopsUnmap k.mem t.ppn := by
  obtain ⟨p, q, hp, hq⟩ := img.stops
  refine ⟨p, q, ?_, ?_⟩
  · rw [(h.kernel_root 256 (by decide) (by decide)).child_eq]
    exact hp
  · rw [(h.kernel_tables p (img.mid_mem hp) 0).child_eq]
    exact hq

/-- `RootPgt::unmap` returns on every user range. -/
theorem unmap_range (h : UserTable img first k t) (lo : ℕ) (hend : hi ≤ userEndVpn) :
    ∃ m', RootPgt.unmap k.mem t lo hi = (m', .done) ∧ Unmapped k.mem m' t lo hi :=
  unmap_user h.tables h.noLarge
    (fun _ hp => h.not_mem_pages (img.mid_mem (h.kernel_child (by decide) (by decide) hp)))
    h.stopsUnmap hend

/-- The walks of the kernel half stay in the root and in the tables of the kernel. -/
theorem walk_kernel (h : UserTable img first k t)
    (hroot : ∀ i, 256 ≤ i → m' t.ppn i = k.mem t.ppn i) (hsame : ∀ p ∈ img.pages, m' p = k.mem p)
    (hv : 256 ≤ (parseVpn v).vpn2) : walk m' t.ppn v = walk k.mem t.ppn v := by
  have h512 : (parseVpn v).vpn2 < 512 := parseVpn_slot v
  refine path_congr (hroot _ hv) ?_ ?_
  · intro p hp
    have hchild := h.kernel_child hv h512 (PTE.child_of_hwChild hp)
    rw [hsame p (img.mid_mem hchild)]
  · intro p q hp hq
    have hchild := h.kernel_child hv h512 (PTE.child_of_hwChild hp)
    have hq' := PTE.child_of_hwChild hq
    rw [(h.kernel_tables p (img.mid_mem hchild) _).child_eq] at hq'
    rw [hsame q (img.bottom_mem hchild hq')]

/-- The walks of the user half stay in the tables of the user. -/
theorem walk_user (h : UserTable img first k t) (hsame : ∀ p ∈ t.pages, m' p = k.mem p)
    (hv : v < 2 ^ 26) : walk m' t.ppn v = walk k.mem t.ppn v := by
  have hU : UserHalf (parseVpn v).vpn2 := VMSpace.vpn2_lt hv
  refine path_congr (congrFun (hsame _ h.tables.root_mem) _) ?_ ?_
  · intro p hp
    rw [hsame p (h.tables.mid_mem hU (PTE.child_of_hwChild hp)).1]
  · intro p q hp hq
    have hq' : bottom PTE.child k.mem t.ppn (parseVpn v).vpn2 (parseVpn v).vpn1 = some q :=
      bottom_eq_some.mpr ⟨p, PTE.child_of_hwChild hp, PTE.child_of_hwChild hq⟩
    rw [hsame q (h.tables.bottom_mem hU hq').1]

theorem vpn2_kernel (hv : 2 ^ 52 - 2 ^ 26 ≤ v ∧ v < 2 ^ 52) : 256 ≤ (parseVpn v).vpn2 := by
  rw [parseVpn_eq]
  dsimp only
  omega

/-- Outside the range, no walk changes. -/
theorem walk_unmapped (h : UserTable img first k t) (u : Unmapped k.mem m' t lo hi)
    (hv : Canonical v) (hout : ¬(lo ≤ v ∧ v < hi)) : walk m' t.ppn v = walk k.mem t.ppn v := by
  rcases hv.lt with hlt | hge
  · exact u.walk_user hlt hout
  · exact h.walk_kernel (fun i _ => congrFun u.root_eq i)
      (fun p hp => u.frame p (h.not_mem_pages hp)) (vpn2_kernel hge)

/-- No entry above level 0 changes, in either half. -/
theorem tables_unmapped (h : UserTable img first k t) (u : Unmapped k.mem m' t lo hi) {i p : ℕ}
    (hi : i < 512) (hp : PTE.child (k.mem t.ppn i) = some p) : m' p = k.mem p := by
  by_cases hU : i < 256
  · exact u.mid_eq hU hp
  · have hchild := h.kernel_child (by omega) hi hp
    exact u.frame p (h.not_mem_pages (img.mid_mem hchild))

/-! ### What keeps the invariant -/

theorem newCopy {rest : List ℕ} (hrest : ∀ p ∈ img.pages, p ∈ rest)
    (hacc : k.Accounted first rest) (himg : img.Intact k.mem)
    (h : RootPgt.newCopy k img.root = (.ok t, k')) : UserTable img first k' t := by
  have hl := VMSpace.Loaded.newCopy hrest hacc himg h 0 0 0
  exact hl.ok.userTable hl.accounted hrest

theorem mapCreate (h : UserTable img first k t) {ppn pteFlags : ℕ} (hv : v < 2 ^ 26)
    (hppn : ppn < 2 ^ 44) {res : Except PgtError Unit}
    (hm : RootPgt.mapCreate k t v ppn pteFlags = (res, k', t')) : UserTable img first k' t' := by
  obtain ⟨rest, hacc, hrest⟩ := h.accounted
  have hU : (parseVpn v).vpn2 < 256 := VMSpace.vpn2_lt hv
  have g := mapCreate_spec hacc h.tables hU hppn hm
  refine ⟨g.tables, g.noLarge h.noLarge, ?_, ?_, rest, g.accounted, hrest⟩
  · intro i h1 h2
    rw [g.ppn_eq, g.root_frame i (by omega)]
    exact h.kernel_root i h1 h2
  · intro p hp j
    rw [g.frame_rest (hrest p hp)]
    exact h.kernel_tables p hp j

theorem unmapped (h : UserTable img first k t) (u : Unmapped k.mem m' t lo hi) :
    UserTable img first { k with mem := m' } t := by
  obtain ⟨rest, hacc, hrest⟩ := h.accounted
  refine ⟨u.tree, u.interior h.noLarge, ?_, ?_, rest, hacc.of_alloc_eq rfl, hrest⟩
  · intro i h1 h2
    show PTE.SameButAD (m' t.ppn i) _
    rw [u.root_eq]
    exact h.kernel_root i h1 h2
  · intro p hp j
    show PTE.SameButAD (m' p j) _
    rw [u.frame p (h.not_mem_pages hp)]
    exact h.kernel_tables p hp j

/-- Others may do what they like, as long as they leave the tables alone. -/
theorem elsewhere (h : UserTable img first k t) {rest : List ℕ}
    (hacc : k'.Accounted first (t.pages ++ rest)) (hrest : ∀ p ∈ img.pages, p ∈ rest)
    (hown : ∀ p ∈ t.pages, ∀ j, PTE.SameButAD (k'.mem p j) (k.mem p j))
    (himg : img.Intact k'.mem) : UserTable img first k' t := by
  have hroot := hown _ h.tables.root_mem
  refine ⟨?_, ?_, fun i h1 h2 => (hroot i).trans (h.kernel_root i h1 h2), himg, rest, hacc, hrest⟩
  · exact h.tables.frame (fun i _ => (hroot i).child_eq) (fun p hp _ j => (hown p hp j).child_eq)
  · refine h.noLarge.frame h.tables (fun i _ => ⟨(hroot i).child_eq, ?_⟩) (fun p hp _ j => ?_)
    · rw [(hroot i).isLeaf_eq]
      exact id
    · rw [(hown p hp j).isLeaf_eq]
      exact id

end UserTable

/-! ### Histories -/

/-- The histories of a user table: `kt` is the kernel root and `k₀` the memory that
`init_kernel_satp` left. -/
inductive Derived (first : ℕ) (kt : RootPgt) (k₀ : Phys) : Phys → RootPgt → Prop
  | newCopy {k k' : Phys} {t : RootPgt} {rest : List ℕ} (hacc : k.Accounted first rest)
      (hrest : ∀ p ∈ kt.pages, p ∈ rest)
      (hkernel : ∀ p ∈ kt.pages, ∀ j, PTE.SameButAD (k.mem p j) (k₀.mem p j))
      (h : RootPgt.newCopy k kt.ppn = (.ok t, k')) : Derived first kt k₀ k' t
  | mapCreate {k k' : Phys} {t t' : RootPgt} {vpn ppn pteFlags : ℕ} {res : Except PgtError Unit}
      (hd : Derived first kt k₀ k t) (hv : vpn < 2 ^ 26) (hppn : ppn < 2 ^ 44)
      (h : RootPgt.mapCreate k t vpn ppn pteFlags = (res, k', t')) : Derived first kt k₀ k' t'
  | unmap {k : Phys} {t : RootPgt} {lo hi : ℕ} {m' : Mem} {res : Sweep}
      (hd : Derived first kt k₀ k t) (hend : hi ≤ userEndVpn)
      (h : RootPgt.unmap k.mem t lo hi = (m', res)) : Derived first kt k₀ { k with mem := m' } t
  | elsewhere {k k' : Phys} {t : RootPgt} {rest : List ℕ} (hd : Derived first kt k₀ k t)
      (hacc : k'.Accounted first (t.pages ++ rest)) (hrest : ∀ p ∈ kt.pages, p ∈ rest)
      (hown : ∀ p ∈ t.pages, ∀ j, PTE.SameButAD (k'.mem p j) (k.mem p j))
      (hkernel : ∀ p ∈ kt.pages, ∀ j, PTE.SameButAD (k'.mem p j) (k₀.mem p j)) :
      Derived first kt k₀ k' t

variable {kt : RootPgt} {k₀ : Phys}

theorem Derived.userTable (hroot : img.root = kt.ppn) (hmem : img.mem = k₀.mem)
    (hpages : img.pages = kt.pages) (h : Derived first kt k₀ k t) : UserTable img first k t := by
  induction h with
  | newCopy hacc hrest hkernel h =>
    refine UserTable.newCopy (by rwa [hpages]) hacc ?_ (by rwa [hroot])
    intro p hp j
    rw [hmem]
    exact hkernel p (hpages ▸ hp) j
  | mapCreate hd hv hppn h ih => exact ih.mapCreate hv hppn h
  | unmap hd hend h ih =>
    obtain ⟨m₁, h₁, u⟩ := ih.unmap_range _ hend
    obtain ⟨rfl, -⟩ := Prod.mk.inj (h₁.symm.trans h)
    exact ih.unmapped u
  | elsewhere hd hacc hrest hown hkernel ih =>
    refine ih.elsewhere hacc (by rwa [hpages]) hown ?_
    intro p hp j
    rw [hmem]
    exact hkernel p (hpages ▸ hp) j

/-- Accessed and dirty bits do not make an entry irregular. -/
theorem PTE.SameButAD.regular {w w' : ℕ} (h : PTE.SameButAD w w') (hr : PTE.Regular w') :
    PTE.Regular w := by
  have hkind : PTE.kind w = PTE.kind w' := by
    have h64 := h.2
    rw [PTE.kind_eq, PTE.kind_eq]
    have h1 : w % 2 = w' % 2 := by omega
    have h2 : w / 2 % 2 = w' / 2 % 2 := by omega
    have h4 : w / 4 % 2 = w' / 4 % 2 := by omega
    have h8 : w / 8 % 2 = w' / 8 % 2 := by omega
    rw [h1, h2, h4, h8]
  intro hk
  rw [h.isLeaf_eq]
  exact hr (hkind ▸ hk)

/-- In every user table the entries above level 0 are pointers for the hardware, too. -/
theorem Derived.regular (hroot : img.root = kt.ppn) (hmem : img.mem = k₀.mem)
    (hpages : img.pages = kt.pages) (h : Derived first kt k₀ k t) :
    Interior PTE.child PTE.Regular UserHalf k.mem t.ppn := by
  induction h with
  | newCopy hacc hrest hkernel h =>
    obtain ⟨page, k₁, hal, rfl, rfl⟩ := newCopy_ok h
    obtain ⟨-, -, hmem₁⟩ := Phys.allocPage_spec hacc hal
    have hempty : ∀ i, UserHalf i → PTE.SameButAD (copy k₁.mem kt.ppn page page i) 0 := fun i hi => by
      have h0 := hkernel kt.ppn (by rw [← hroot, ← hpages]; exact img.root_mem) i
      rw [← hmem, ← hroot, img.user_empty i hi] at h0
      simpa [hmem₁, ← hroot] using h0
    exact Interior.bare (fun i hi => (hempty i hi).child_eq)
      fun hi => (hempty _ hi).regular PTE.regular_zero
  | mapCreate hd hv hppn h ih =>
    obtain ⟨rest, hacc, -⟩ := (hd.userTable hroot hmem hpages).accounted
    have g := mapCreate_spec hacc (hd.userTable hroot hmem hpages).tables (VMSpace.vpn2_lt hv) hppn h
    exact g.interior PTE.regular_zero PTE.regular_pointer ih
  | unmap hd hend h ih =>
    obtain ⟨m₁, h₁, u⟩ := (hd.userTable hroot hmem hpages).unmap_range _ hend
    obtain ⟨rfl, -⟩ := Prod.mk.inj (h₁.symm.trans h)
    exact u.interior ih
  | elsewhere hd hacc hrest hown hkernel ih =>
    have ht := (hd.userTable hroot hmem hpages).tables
    refine ih.frame ht (fun i _ => ⟨(hown _ ht.root_mem i).child_eq, ?_⟩) (fun p hp _ j => ?_)
    · exact (hown _ ht.root_mem i).regular
    · exact (hown p hp j).regular

/-- **`RootPgt::unmap` after any history.**  It returns, the entries of the range are invalid,
every walk outside the range ends at the same word as before, and no entry above level 0 has
changed. -/
theorem Derived.unmap_cleared (layout : Layout) (m₀ : Mem) {a₀ : PageAllocator}
    (halloc : initialAllocator layout.kernelEnd.toNat = some a₀)
    (hinit : initKernelSatp layout ⟨m₀, a₀⟩ = (.ok kt, k₀))
    (hd : Derived a₀.nextUnusedPpn kt k₀ k t) (startVpn : ℕ) {endVpn : ℕ}
    (hend : endVpn ≤ userEndVpn) :
    ∃ m', RootPgt.unmap k.mem t startVpn endVpn = (m', .done) ∧
      (∀ v, startVpn ≤ v → v < endVpn → PTE.isValid (pteAt m' t.ppn v) = false) ∧
      (∀ v, Canonical v → ¬(startVpn ≤ v ∧ v < endVpn) →
        walk m' t.ppn v = walk k.mem t.ppn v) ∧
      m' t.ppn = k.mem t.ppn ∧
      ∀ i p, i < 512 → PTE.child (k.mem t.ppn i) = some p → m' p = k.mem p := by
  obtain ⟨img, hroot, hmem, hpages, -⟩ :=
    initKernelSatp_image layout (accounted_initial layout m₀ halloc) hinit
  have ht := hd.userTable hroot hmem hpages
  obtain ⟨m', h, u⟩ := ht.unmap_range startVpn hend
  refine ⟨m', h, ?_, fun v hv hout => ht.walk_unmapped u hv hout, u.root_eq,
    fun i p hi hp => ht.tables_unmapped u hi hp⟩
  intro v h1 h2
  rw [u.pte_eq (VMSpace.lt_of_lt_userEnd (lt_of_lt_of_le h2 hend)), if_pos ⟨h1, h2⟩]
  rfl

/-- A page mapped in a copy of the kernel root, and a range around it. -/
theorem Derived.unmap_cleared_sample : ∃ (kt : RootPgt) (k₀ k : Phys) (t : RootPgt)
    (m' : Mem), initKernelSatp sampleLayout ⟨fun _ _ => 0, ⟨0x80500, 0x88000, []⟩⟩ = (.ok kt, k₀) ∧
      RootPgt.unmap k.mem t 0x0f 0x400 = (m', .done) ∧
      PTE.isValid (pteAt m' t.ppn 0x10) = false := by
  obtain ⟨kt, k₀, hinit, hm⟩ := initKernelSatp_mapping sampleLayout_linked (fun _ _ => 0)
    sampleLayout_allocator (show _ + 73 + 1 ≤ _ by decide)
  obtain ⟨img, -, hmem, hpages, hacc⟩ :=
    initKernelSatp_image sampleLayout (accounted_initial _ _ sampleLayout_allocator) hinit
  -- a page is left for the copy of the root
  obtain ⟨page, k₁, hal, -⟩ := Phys.allocZeroedPage_of_available
    (lt_of_lt_of_le (Nat.succ_pos _) hm.room)
  obtain ⟨⟨page', k₂⟩, hal', -⟩ := Option.map_eq_some_iff.mp hal
  have hcopy : RootPgt.newCopy k₀ kt.ppn =
      (.ok ⟨page', [page']⟩, { k₂ with mem := copy k₂.mem kt.ppn page' }) := by
    rw [RootPgt.newCopy, hal']
  have hd : Derived 0x80500 kt k₀ _ _ := .newCopy hacc (fun p hp => hpages ▸ hp)
    (fun _ _ _ => .refl _) hcopy
  obtain ⟨r, k₃, t₃, hmap⟩ : ∃ r k₃ t₃, RootPgt.mapCreate { k₂ with mem := copy k₂.mem kt.ppn page' }
      ⟨page', [page']⟩ 0x10 0x80600 0x17 = (r, k₃, t₃) := ⟨_, _, _, rfl⟩
  obtain ⟨m', hu, hclear, -⟩ := Derived.unmap_cleared sampleLayout _ sampleLayout_allocator hinit
    (hd.mapCreate (by decide) (by decide) hmap) 0x0f (show 0x400 ≤ userEndVpn by decide)
  exact ⟨kt, k₀, k₃, t₃, m', hinit, hu, hclear 0x10 (by decide) (by decide)⟩

end RCoreKernel.Mm
