import Mathlib.Logic.Relation
import RCoreKernel.Mm.Bare
import RCoreKernel.Mm.Boot

/-!
# All address spaces and the page allocator

The system of this file is physical memory with its allocator and the list of live address
spaces, after `init_kernel_satp`.  Its steps are the operations of `VMSpace`, in any order and on
any of the spaces, and what user programs and the hardware write in between.

The invariant is the ledger of `Mm.PageAlloc`, filled in: the pages held are those of all live
spaces and those of the kernel tables that were forgotten at boot.  Each step only concerns one
space; the lemmas of `Mm.SpaceOps` and `Mm.Loader` take the pages of all the others as `rest`.

* `Step.inOrder` — one step keeps every space and the ledger in order;
* `run_conserved` — **along every run, every issued page is in exactly one place, and every valid
  entry in the user half of a space refers to a page of that space**.
-/

namespace RCoreKernel.Mm.Spaces

open Radix RootPgt VMSpace

/-- Physical memory and the live address spaces. -/
structure System where
  phys : Phys
  spaces : List VMSpace

/-- The segments of the file lie below the user stack, as `user/src/linker.ld` places them. -/
def BelowStack (elf : Elf) : Prop :=
  ∀ file, elf.parsed = .ok file → ∀ a ∈ loadAreas file.headers, ∀ v, a.containVpn v = true →
    v < userEndVpn - 2048

/-- User programs write to their data, the hardware sets accessed and dirty bits. -/
structure Touched (kernelPages : List ℕ) (st : System) (m' : Mem) : Prop where
  tables : ∀ s ∈ st.spaces, ∀ p ∈ s.rootPgt.pages, ∀ j, PTE.SameButAD (m' p j) (st.phys.mem p j)
  kernel : ∀ p ∈ kernelPages, ∀ j, PTE.SameButAD (m' p j) (st.phys.mem p j)

/-- One step of the system.  An operation that panics has no next state. -/
inductive Step (root : ℕ) (kernelPages : List ℕ) : System → System → Prop
  | newUser (k : Phys) (ss : List VMSpace) (elf : Elf) (s : VMSpace) (k' : Phys) (hb : BelowStack elf)
      (h : VMSpace.newUser k root elf = (.ok s, k')) :
      Step root kernelPages ⟨k, ss⟩ ⟨k', s :: ss⟩
  | newUserFailed (k : Phys) (ss : List VMSpace) (elf : Elf) (e : VMError) (k' : Phys)
      (hb : BelowStack elf) (h : VMSpace.newUser k root elf = (.err e, k')) :
      Step root kernelPages ⟨k, ss⟩ ⟨k', ss⟩
  | mapFaultPage (k : Phys) (A B : List VMSpace) (s : VMSpace) (va minPermissions : ℕ)
      (res : Outcome VMError Unit) (k' : Phys) (s' : VMSpace)
      (hinv : va / 4096 < userEndVpn → PTE.isValid (pteAt k.mem s.rootPgt.ppn (va / 4096)) = false)
      (h : VMSpace.mapFaultPage k s va minPermissions = (res, k', s'))
      (hres : ∀ site, res ≠ .panic site) :
      Step root kernelPages ⟨k, A ++ s :: B⟩ ⟨k', A ++ s' :: B⟩
  | addNewArea (k : Phys) (A B : List VMSpace) (s : VMSpace) (startVpn endVpn permissions : ℕ)
      (hend : endVpn ≤ userEndVpn) :
      Step root kernelPages ⟨k, A ++ s :: B⟩
        ⟨k, A ++ (VMSpace.addNewArea s startVpn endVpn .anonymous permissions).2 :: B⟩
  | unmap (k : Phys) (A B : List VMSpace) (s : VMSpace) (startVpn endVpn : ℕ)
      (res : Outcome VMError Unit) (k' : Phys) (s' : VMSpace) (hle : startVpn ≤ endVpn)
      (hend : endVpn ≤ userEndVpn) (h : VMSpace.unmap k s startVpn endVpn = (res, k', s')) :
      Step root kernelPages ⟨k, A ++ s :: B⟩ ⟨k', A ++ s' :: B⟩
  | drop (k : Phys) (A B : List VMSpace) (s : VMSpace) :
      Step root kernelPages ⟨k, A ++ s :: B⟩ ⟨VMSpace.drop k s, A ++ B⟩
  | touch (st : System) (m' : Mem) (h : Touched kernelPages st m') :
      Step root kernelPages st ⟨{ st.phys with mem := m' }, st.spaces⟩

/-- The pages of all live spaces. -/
def livePages (ss : List VMSpace) : List ℕ := ss.flatMap VMSpace.pages

/-- Every space is in order and every issued page is accounted for. -/
structure InOrder (img : KernelImage) (first : ℕ) (st : System) : Prop where
  spaces : ∀ s ∈ st.spaces, SpaceOk img st.phys.mem s
  intact : img.Intact st.phys.mem
  accounted : st.phys.Accounted first (livePages st.spaces ++ img.pages)

variable {img : KernelImage} {first : ℕ} {st st' : System} {k k' : Phys} {A B ss : List VMSpace}
  {s s' : VMSpace}

/-- The pages of a system, seen from one of its spaces. -/
theorem livePages_perm (A B : List VMSpace) (s : VMSpace) (kernelPages : List ℕ) :
    (livePages (A ++ s :: B) ++ kernelPages).Perm
      (s.pages ++ (livePages (A ++ B) ++ kernelPages)) := by
  simp only [livePages, List.flatMap_append, List.flatMap_cons, List.append_assoc]
  exact List.perm_append_comm_assoc _ _ _

theorem mem_livePages_of_mem {p : ℕ} (hs : s ∈ ss) (hp : p ∈ s.pages) : p ∈ livePages ss :=
  List.mem_flatMap.mpr ⟨s, hs, hp⟩

/-- Spaces are not disturbed by a step that leaves their pages and the kernel's alone. -/
theorem InOrder.others (h : ∀ s ∈ ss, SpaceOk img k.mem s)
    (hframe : ∀ p ∈ livePages ss ++ img.pages, k'.mem p = k.mem p) (hintact : img.Intact k.mem) :
    (∀ s ∈ ss, SpaceOk img k'.mem s) ∧ img.Intact k'.mem := by
  have hint : img.Intact k'.mem := fun p hp j => by
    rw [hframe p (List.mem_append_right _ hp)]
    exact hintact p hp j
  refine ⟨fun s hs => (h s hs).frame (fun p hp j => ?_) hint, hint⟩
  rw [hframe p (List.mem_append_left _ (mem_livePages_of_mem hs (mem_pages_of_table hp)))]
  exact .refl _

/-- One space has been worked on. -/
theorem InOrder.replace (h : InOrder img first ⟨k, A ++ s :: B⟩)
    (hk : Kept img first (livePages (A ++ B) ++ img.pages) k s k' s') :
    InOrder img first ⟨k', A ++ s' :: B⟩ := by
  have hAB : ∀ x ∈ A ++ B, SpaceOk img k.mem x := fun x hx => h.spaces x (by
    simp only [List.mem_append, List.mem_cons] at hx ⊢
    tauto)
  obtain ⟨hothers, hint⟩ := InOrder.others hAB hk.frame h.intact
  refine ⟨fun x hx => ?_, hint, hk.accounted.congr (livePages_perm A B s' img.pages).symm⟩
  simp only [List.mem_append, List.mem_cons] at hx
  rcases hx with hx | rfl | hx
  · exact hothers x (by simp [hx])
  · exact hk.ok
  · exact hothers x (by simp [hx])

theorem InOrder.space (h : InOrder img first ⟨k, A ++ s :: B⟩) :
    SpaceOk img k.mem s ∧ k.Accounted first (s.pages ++ (livePages (A ++ B) ++ img.pages)) :=
  ⟨h.spaces s (by simp), h.accounted.congr (livePages_perm A B s img.pages)⟩

/-- Segments below the stack only have pages of user space. -/
theorem tameSegments_of_below {phs : List ProgramHeader}
    (h : ∀ a ∈ loadAreas phs, ∀ v, a.containVpn v = true → v < userEndVpn) :
    ∀ cov, TameSegments cov phs := by
  induction phs with
  | nil => exact fun _ => trivial
  | cons ph phs ih =>
    intro cov
    have ih := ih fun a ha => h a (by
      rw [loadAreas, List.filterMap_cons]
      split
      · exact ha
      · exact List.mem_cons_of_mem _ ha)
    unfold TameSegments
    split
    · trivial
    · exact ih cov
    · rename_i htype
      intro area _ harea
      refine ⟨tame_of_forall fun v hv => h area ?_ v (VMArea.mem_vpns.mp hv), fun _ => ih _⟩
      simp [loadAreas, htype, harea]

theorem BelowStack.tame {elf : Elf} (h : BelowStack elf) : TameElf elf := fun file hfile =>
  tameSegments_of_below (fun a ha v hv => lt_of_lt_of_le (h file hfile a ha v hv) (Nat.sub_le _ _)) _

theorem BelowStack.stackFree {elf : Elf} (h : BelowStack elf) {file : ElfFile}
    (hfile : elf.parsed = .ok file) : StackFree (loadAreas file.headers) := by
  rintro - a ha v ⟨hav, hv⟩
  have h1 := h file hfile a ha v hav
  have h2 := (VMArea.containVpn_iff.mp hv).1
  exact absurd h1 (not_lt.mpr h2)

/-- `map_fault_page` at any address whose page has no valid entry. -/
theorem mapFaultPage_kept {rest : List ℕ} (hok : SpaceOk img k.mem s)
    (hacc : k.Accounted first (s.pages ++ rest)) (hrest : ∀ p ∈ img.pages, p ∈ rest)
    {va minPermissions : ℕ} {res : Outcome VMError Unit}
    (hinv : va / 4096 < userEndVpn → PTE.isValid (pteAt k.mem s.rootPgt.ppn (va / 4096)) = false)
    (h : VMSpace.mapFaultPage k s va minPermissions = (res, k', s')) :
    Kept img first rest k s k' s' := by
  unfold VMSpace.mapFaultPage at h
  split at h
  · cases h
    exact Kept.refl hok hacc
  rename_i vpn hvpn
  obtain ⟨-, rfl⟩ := VPN.fromVa_eq_some hvpn
  by_cases hv : va / 4096 < userEndVpn
  · exact (map_kept hok hacc hrest hv (hinv hv) h).2
  -- outside user space there is at most the kernel stack, which `map` does not touch
  unfold VMSpace.map at h
  split at h
  · cases h
    exact Kept.refl hok hacc
  rename_i area hfind
  split at h
  · cases h
    exact Kept.refl hok hacc
  split at h
  · cases h
    exact Kept.refl hok hacc
  rename_i hanon
  obtain ⟨A, B, hs, hav, -⟩ := Vec.find?_split hfind
  rcases hok.placement area (by simp [hs]) with ⟨-, hin⟩ | ⟨htype, -⟩
  · exact absurd (hin _ hav) hv
  · rw [htype] at hanon
    exact absurd (by decide) hanon

/-- **One step keeps the system in order.** -/
theorem Step.inOrder (h : Step img.root img.pages st st') (hin : InOrder img first st) :
    InOrder img first st' := by
  have hsub : ∀ {l : List ℕ}, ∀ p ∈ img.pages, p ∈ l ++ img.pages := fun p hp =>
    List.mem_append_right _ hp
  cases h with
  | newUser k ss elf s k' hb h =>
    have hspec := newUser_spec (hsub (l := livePages ss)) hin.accounted hin.intact
      hb.tame fun file hfile => hb.stackFree hfile
    rw [h] at hspec
    obtain ⟨hl, -⟩ := hspec
    obtain ⟨hothers, hint⟩ := InOrder.others hin.spaces hl.frame hin.intact
    refine ⟨fun x hx => ?_, hint, ?_⟩
    · rcases List.mem_cons.mp hx with rfl | hx
      · exact hl.ok
      · exact hothers x hx
    · exact hl.accounted.congr (livePages_perm [] ss s img.pages).symm
  | newUserFailed k ss elf e k' hb h =>
    have hspec := newUser_spec (hsub (l := livePages ss)) hin.accounted hin.intact
      hb.tame fun file hfile => hb.stackFree hfile
    rw [h] at hspec
    obtain ⟨hothers, hint⟩ := InOrder.others hin.spaces hspec.2 hin.intact
    exact ⟨hothers, hint, hspec.1⟩
  | mapFaultPage k A B s va minPermissions res k' s' hinv h hres =>
    obtain ⟨hok, hacc⟩ := hin.space
    exact hin.replace (mapFaultPage_kept hok hacc hsub hinv h)
  | addNewArea k A B s startVpn endVpn permissions hend =>
    obtain ⟨hok, hacc⟩ := hin.space
    exact hin.replace (addNewArea_kept hok hacc hend rfl)
  | unmap k A B s startVpn endVpn res k' s' hle hend h =>
    obtain ⟨hok, hacc⟩ := hin.space
    obtain ⟨k₁, s₁, h₁, hkept⟩ := unmap_kept hok hacc hsub hend hle
    obtain ⟨rfl, hks⟩ := Prod.mk.inj (h₁.symm.trans h)
    obtain ⟨rfl, rfl⟩ := Prod.mk.inj hks
    exact hin.replace hkept
  | drop k A B s =>
    obtain ⟨-, hacc⟩ := hin.space
    refine ⟨fun x hx => ?_, ?_, hacc.dropPages⟩
    · rw [VMSpace.drop, Phys.dropPages_mem]
      refine hin.spaces x ?_
      simp only [List.mem_append, List.mem_cons] at hx ⊢
      tauto
    · rw [VMSpace.drop, Phys.dropPages_mem]
      exact hin.intact
  | touch st m' h =>
    have hint : img.Intact m' := fun p hp j => (h.kernel p hp j).trans (hin.intact p hp j)
    exact ⟨fun s hs => (hin.spaces s hs).frame (h.tables s hs) hint, hint,
      hin.accounted.of_alloc_eq rfl⟩

/-! ### What the invariant says about pages -/

/-- A valid entry in the user half of the tables of `s`, at some level, refers to page `p`. -/
inductive PointsTo (m : Mem) (s : VMSpace) (p : ℕ) : Prop
  | level2 (i : ℕ) (hi : i < 256) (hv : PTE.isValid (m s.rootPgt.ppn i) = true)
      (hp : PTE.getPpn (m s.rootPgt.ppn i) = p) : PointsTo m s p
  | level1 (i j table1 : ℕ) (hi : i < 256) (hj : j < 512)
      (hv : PTE.isValid (m s.rootPgt.ppn i) = true) (ht : PTE.getPpn (m s.rootPgt.ppn i) = table1)
      (hv1 : PTE.isValid (m table1 j) = true) (hp : PTE.getPpn (m table1 j) = p) : PointsTo m s p
  | level0 (i j c table1 table0 : ℕ) (hi : i < 256) (hj : j < 512) (hc : c < 512)
      (hv : PTE.isValid (m s.rootPgt.ppn i) = true) (ht : PTE.getPpn (m s.rootPgt.ppn i) = table1)
      (hv1 : PTE.isValid (m table1 j) = true) (ht1 : PTE.getPpn (m table1 j) = table0)
      (hv0 : PTE.isValid (m table0 c) = true) (hp : PTE.getPpn (m table0 c) = p) : PointsTo m s p

/-- The page is the root of `s` or something its tables refer to. -/
def Reaches (m : Mem) (s : VMSpace) (p : ℕ) : Prop := p = s.rootPgt.ppn ∨ PointsTo m s p

/-- How often a page number occurs among the recycled pages, the pages of the live spaces and
the pages of the kernel tables. -/
def places (kernelPages : List ℕ) (st : System) (p : ℕ) : ℕ :=
  st.phys.alloc.recycledPpn.count p +
    (st.spaces.map fun s =>
      s.rootPgt.pages.count p + (s.areas.map fun a => a.pages.values.count p).sum).sum +
    kernelPages.count p

theorem places_eq (kernelPages : List ℕ) (st : System) (p : ℕ) :
    places kernelPages st p = st.phys.alloc.recycledPpn.count p +
      (livePages st.spaces ++ kernelPages).count p := by
  unfold places livePages
  rw [List.count_append, List.count_flatMap, Nat.add_assoc]
  congr 4
  funext s
  simp [VMSpace.pages, List.count_append, List.count_flatMap, Function.comp_def]

variable {m : Mem}

/-- Valid entries of a space in order refer to its own pages. -/
theorem mem_pages_of_pointsTo {p : ℕ} (hok : SpaceOk img m s) (hlt : ∀ q ∈ s.pages, q < 2 ^ 44)
    (h : PointsTo m s p) : p ∈ s.pages := by
  cases h with
  | level2 i hi hv hp =>
    have hc := PTE.child_of_valid hv (hok.noLarge.top hi)
    rw [hp] at hc
    exact mem_pages_of_table (hok.tables.mid_mem hi hc).1
  | level1 i j table1 hi hj hv ht hv1 hp =>
    have hmid := PTE.child_of_valid hv (hok.noLarge.top hi)
    rw [ht] at hmid
    have hc := PTE.child_of_valid hv1 (hok.noLarge.inner hi hmid j)
    rw [hp] at hc
    have hbot : bottom PTE.child m s.rootPgt.ppn i j = some p :=
      bottom_eq_some.mpr ⟨table1, hmid, hc⟩
    exact mem_pages_of_table (hok.tables.bottom_mem hi hbot).1
  | level0 i j c table1 table0 hi hj hc hv ht hv1 ht1 hv0 hp =>
    have hmid := PTE.child_of_valid hv (hok.noLarge.top hi)
    rw [ht] at hmid
    have hc1 := PTE.child_of_valid hv1 (hok.noLarge.inner hi hmid j)
    rw [ht1] at hc1
    have hbot : bottom PTE.child m s.rootPgt.ppn i j = some table0 :=
      bottom_eq_some.mpr ⟨table1, hmid, hc1⟩
    -- the entry is the level-0 entry of a user page number
    have hpte : pteAt m s.rootPgt.ppn (vpnOf i j c) = m table0 c := by
      rw [pteAt, parseVpn_vpnOf (by omega) hj hc]
      exact leaf_of_bottom hbot c
    rw [← hpte] at hv0 hp
    have hv : vpnOf i j c < userEndVpn := by
      have hne : vpnOf i j c ≠ userEndVpn := fun e => by
        rw [e, hok.top_invalid] at hv0
        cases hv0
      have : vpnOf i j c < 2 ^ 26 := by
        unfold vpnOf
        omega
      rw [userEndVpn_eq] at hne ⊢
      omega
    obtain ⟨page, a, ha, hav, hmem⟩ := (hok.agrees.valid_iff _ hv).mp hv0
    have hpage : page ∈ s.pages :=
      mem_pages_of_mem_area ha (BTreeMap.mem_values.mpr ⟨_, hmem⟩)
    have hsame := hok.agrees.pte_eq _ hv a ha page hav hmem
    have hflags := lor_flagV_lt (hok.permissions a ha)
    have hpn := hlt page hpage
    have : p = page := by
      rw [← hp, hsame.getPpn_eq, PTE.getPpn_eq]
      omega
    rwa [this]

/-- What the conservation law says about one state. -/
structure Conserved (first : ℕ) (kernelPages : List ℕ) (st : System) : Prop where
  /-- Every issued page is in exactly one place. -/
  one_place : ∀ p, first ≤ p → p < st.phys.alloc.nextUnusedPpn → places kernelPages st p = 1
  /-- Valid entries in the user half of a space refer to pages of that space. -/
  owned : ∀ s ∈ st.spaces, ∀ p, PointsTo st.phys.mem s p → p ∈ s.pages
  /-- No page is reachable from two of the live spaces, -/
  separate : st.spaces.Pairwise fun s s' =>
    ∀ p, Reaches st.phys.mem s p → ¬Reaches st.phys.mem s' p
  /-- and no recycled page from any. -/
  not_recycled : ∀ s ∈ st.spaces, ∀ p, Reaches st.phys.mem s p → p ∉ st.phys.alloc.recycledPpn
  /-- Dropping a space recycles exactly its own pages, each once. -/
  drop_exact : ∀ s ∈ st.spaces, s.pages.Nodup ∧
    (VMSpace.drop st.phys s).alloc.recycledPpn = st.phys.alloc.recycledPpn ++ s.pages ∧
    ∀ p ∈ s.pages, p ∉ st.phys.alloc.recycledPpn

theorem InOrder.mem_pages_of_reaches {p : ℕ} (h : InOrder img first st) (hs : s ∈ st.spaces)
    (hp : Reaches st.phys.mem s p) : p ∈ s.pages := by
  have hok := h.spaces s hs
  rcases hp with rfl | hp
  · exact mem_pages_of_table hok.tables.root_mem
  · refine mem_pages_of_pointsTo hok (fun q hq => h.accounted.lt ?_) hp
    exact List.mem_append_left _ (mem_livePages_of_mem hs hq)

/-- A state in order obeys the law. -/
theorem InOrder.conserved (h : InOrder img first st) : Conserved first img.pages st := by
  have hheld : ∀ {s p}, s ∈ st.spaces → p ∈ s.pages → p ∈ livePages st.spaces ++ img.pages :=
    fun hs hp => List.mem_append_left _ (mem_livePages_of_mem hs hp)
  have hnodup : (livePages st.spaces).Nodup := h.accounted.ledger.held_nodup.of_append_left
  obtain ⟨hown, hsep⟩ := List.nodup_flatMap.mp hnodup
  refine ⟨fun p h₁ h₂ => ?_, fun s hs p hp => ?_, ?_, fun s hs p hp => ?_, fun s hs => ⟨?_, ?_, ?_⟩⟩
  · rw [places_eq]
    exact h.accounted.ledger.count_eq_one h₁ h₂
  · exact h.mem_pages_of_reaches hs (Or.inr hp)
  · refine hsep.imp_of_mem fun {s s'} hs hs' hdisj p hp hp' => ?_
    exact hdisj (h.mem_pages_of_reaches hs hp) (h.mem_pages_of_reaches hs' hp')
  · exact h.accounted.ledger.not_mem_free (hheld hs (h.mem_pages_of_reaches hs hp))
  · exact hown s hs
  · rw [VMSpace.drop, Phys.dropPages_recycled]
  · exact fun p hp => h.accounted.ledger.not_mem_free (hheld hs hp)

/-- After boot there is no space yet and the kernel tables are as they were built. -/
theorem inOrder_boot (h : k.Accounted first img.pages) (hm : img.mem = k.mem) :
    InOrder img first ⟨k, []⟩ := by
  refine ⟨fun s hs => (List.not_mem_nil hs).elim, fun p _ j => ?_, h⟩
  rw [hm]
  exact .refl _

/-- **Conservation of pages.**  In every state that any steps lead to after boot, every issued
page is in exactly one place, and every valid entry in the user half of a space refers to a page
of that space. -/
theorem run_conserved (layout : Layout) (m₀ : Mem) {a₀ : PageAllocator} {k : Phys} {t : RootPgt}
    (halloc : initialAllocator layout.kernelEnd.toNat = some a₀)
    (hinit : initKernelSatp layout ⟨m₀, a₀⟩ = (.ok t, k)) {st : System}
    (hrun : Relation.ReflTransGen (Step t.ppn t.pages) ⟨k, []⟩ st) :
    Conserved a₀.nextUnusedPpn t.pages st := by
  obtain ⟨img, hroot, hmem, hpages, hacc⟩ :=
    initKernelSatp_image layout (accounted_initial layout m₀ halloc) hinit
  rw [← hpages]
  rw [← hroot, ← hpages] at hrun
  have hin : InOrder img a₀.nextUnusedPpn st := by
    induction hrun with
    | refl => exact inOrder_boot hacc hmem
    | tail _ hstep ih => exact hstep.inOrder ih
  exact hin.conserved

theorem belowStack_bare : BelowStack bareElf := by
  intro file hfile a ha
  obtain rfl := Except.ok.inj hfile
  exact (List.not_mem_nil ha).elim

/-- With five pages left another space is created. -/
theorem InOrder.newUser_bare (h : InOrder img first ⟨k, ss⟩) (hroom : 5 ≤ k.available) :
    ∃ s k', newUser k img.root bareElf = (.ok s, k') ∧ k.available ≤ k'.available + 5 ∧
      InOrder img first ⟨k', s :: ss⟩ ∧ NewSpace bareElf s := by
  have hsub : ∀ p ∈ img.pages, p ∈ livePages ss ++ img.pages := fun p hp =>
    List.mem_append_right _ hp
  obtain ⟨s, k', hnew, hav⟩ := VMSpace.newUser_bare hsub h.accounted h.intact hroom
  have hspec := newUser_spec hsub h.accounted h.intact belowStack_bare.tame
    fun file hfile => belowStack_bare.stackFree hfile
  rw [hnew] at hspec
  exact ⟨s, k', hnew, hav, (Step.newUser k ss bareElf s k' belowStack_bare hnew).inOrder h, hspec.2⟩

/-- A page of the user stack below the first one is mapped on a fault. -/
theorem InOrder.stack_fault {elf : Elf} (h : InOrder img first ⟨k, A ++ s :: B⟩)
    (hspace : NewSpace elf s) (hroom : 3 ≤ k.available) {vpn : ℕ} (hlow : userEndVpn - 2048 ≤ vpn)
    (hhigh : vpn < userEndVpn - 1) : ∃ k' s',
      mapFaultPage k s (vpn * 4096) (permissionU ||| permissionW) = (.ok (), k', s') ∧
      Step img.root img.pages ⟨k, A ++ s :: B⟩ ⟨k', A ++ s' :: B⟩ := by
  obtain ⟨file, segments, -, -, -, pageU, pageK, hareas, -⟩ := hspace.file
  have hv : vpn < userEndVpn := by omega
  have hstack : userStack pageU ∈ s.areas := by simp [hareas]
  have hav : (userStack pageU).containVpn vpn = true := VMArea.containVpn_iff.mpr ⟨hlow, hv⟩
  obtain ⟨hok, hacc⟩ := h.space
  -- the only page of the stack so far is its last one
  have hinv : PTE.isValid (pteAt k.mem s.rootPgt.ppn vpn) = false := by
    rw [← Bool.not_eq_true, hok.agrees.valid_iff _ hv]
    rintro ⟨page, a, ha, hav', hmem⟩
    obtain rfl := hok.agrees.area_unique hstack ha hav hav'
    obtain ⟨rfl, -⟩ := Prod.mk.inj (List.mem_singleton.mp hmem)
    omega
  have hmissing : missingTables k.mem s.rootPgt.ppn vpn ≤ 2 := by
    unfold missingTables
    split
    · exact Nat.le_refl 2
    · split <;> omega
  have hpermissions : (userStack pageU).permissions =
      permissionR ||| permissionW ||| permissionU := rfl
  have hmap : (map k s vpn (permissionU ||| permissionW)).1 = .ok () := by
    refine (map_ok_iff hok hacc (fun p hp => List.mem_append_right _ hp) hv hinv _).mpr
      ⟨userStack pageU, hstack, hav, ?_, ?_, by omega⟩
    · rw [hpermissions]
      decide
    · rw [hpermissions]
      decide
  have hva : vpn * 4096 / 4096 = vpn := Nat.mul_div_cancel _ (by decide)
  obtain ⟨k', s', hfault⟩ : ∃ k' s',
      mapFaultPage k s (vpn * 4096) (permissionU ||| permissionW) = (.ok (), k', s') := by
    refine ⟨_, _, Prod.ext ?_ rfl⟩
    rw [userEndVpn_eq] at hv
    rw [mapFaultPage, VPN.fromVa_of_user (by omega), hva]
    exact hmap
  exact ⟨k', s', hfault, .mapFaultPage k A B s _ _ _ k' s' (by rw [hva]; exact fun _ => hinv)
    hfault (by simp)⟩

/-- Two spaces are created, the second one grows on a page fault and loses the page again to
`unmap`, and the first one is dropped. -/
theorem run_conserved_bare : ∃ t k s₁ k₁ s₂ k₂ k₃ s₃ k₄ s₄,
    initKernelSatp sampleLayout ⟨fun _ _ => 0, ⟨0x80500, 0x88000, []⟩⟩ = (.ok t, k) ∧
      newUser k t.ppn bareElf = (.ok s₁, k₁) ∧ newUser k₁ t.ppn bareElf = (.ok s₂, k₂) ∧
      mapFaultPage k₂ s₂ ((userEndVpn - 3) * 4096) (permissionU ||| permissionW) = (.ok (), k₃, s₃) ∧
      unmap k₃ s₃ (userEndVpn - 4) (userEndVpn - 2) = (.ok (), k₄, s₄) ∧
      Conserved 0x80500 t.pages ⟨VMSpace.drop k₄ s₁, [s₄]⟩ := by
  obtain ⟨t, k, hinit, hmap⟩ := initKernelSatp_mapping sampleLayout_linked (fun _ _ => 0)
    sampleLayout_allocator (show _ + 73 + 13 ≤ _ by decide)
  obtain ⟨img, hroot, hmem, hpages, hacc⟩ :=
    initKernelSatp_image sampleLayout (accounted_initial _ _ sampleLayout_allocator) hinit
  have hroom := hmap.room
  obtain ⟨s₁, k₁, hnew₁, hav₁, hin₁, -⟩ := (inOrder_boot hacc hmem).newUser_bare (by omega)
  obtain ⟨s₂, k₂, hnew₂, hav₂, hin₂, hspace⟩ := hin₁.newUser_bare (by omega)
  obtain ⟨k₃, s₃, hfault, hstep₃⟩ := @InOrder.stack_fault _ _ _ [] [s₁] s₂ _ hin₂ hspace
    (by omega) (userEndVpn - 3) (by decide) (by decide)
  obtain ⟨hok₃, hacc₃⟩ := @InOrder.space _ _ _ [] [s₁] s₃ (hstep₃.inOrder hin₂)
  have hle : userEndVpn - 4 ≤ userEndVpn - 2 := by decide
  have hend : userEndVpn - 2 ≤ userEndVpn := by decide
  obtain ⟨k₄, s₄, hunmap, -⟩ := unmap_kept hok₃ hacc₃ (fun p hp => List.mem_append_right _ hp)
    hend hle
  have hcreated : Relation.ReflTransGen (Step img.root img.pages) ⟨k, []⟩ ⟨k₂, [s₂, s₁]⟩ :=
    (Relation.ReflTransGen.single (.newUser k [] bareElf s₁ k₁ belowStack_bare hnew₁)).tail
      (.newUser k₁ [s₁] bareElf s₂ k₂ belowStack_bare hnew₂)
  have hrun := ((hcreated.tail hstep₃).tail
    (.unmap k₃ [] [s₁] s₃ _ _ _ k₄ s₄ hle hend hunmap)).tail (.drop k₄ [s₄] [] s₁)
  rw [hroot] at hnew₁ hnew₂
  rw [hroot, hpages] at hrun
  exact ⟨t, k, s₁, k₁, s₂, k₂, k₃, s₃, k₄, s₄, hinit, hnew₁, hnew₂, hfault, hunmap,
    run_conserved sampleLayout _ sampleLayout_allocator hinit hrun⟩

end RCoreKernel.Mm.Spaces
