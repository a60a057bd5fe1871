import RCoreKernel.Mm.Direct
import RCoreKernel.Mm.KernelHalf
import RCoreKernel.Syscall.Tasks

/-!
# What user code can reach

The hardware translates an address for user code if the walk ends at an entry with the bit `U`.  In
every state that any steps lead to after boot, such a walk ends at a page of the task itself: tables,
kernel stacks, the kernel, free pages and the pages of other tasks are out of reach.  The kernel in
turn finds its own half in the space of each task, and every page that it hands out there.

* `user_confined` — **user code reaches the pages of its own areas only**;
* `kernel_everywhere` — **the kernel half is the same in every space**.
-/

namespace RCoreKernel.Syscall.Tasks

open Mm Mm.VMSpace Mm.RootPgt Radix Components

/-- The walk of `v` from the root of the space leads user code to `page`, with the flags `f`. -/
def UserReaches (m : Mem) (s : VMSpace) (v page f : ℕ) : Prop :=
  Canonical v ∧ translate m s.rootPgt.ppn v = some (page, f) ∧ f &&& PTE.flagU ≠ 0

/-- `page` is a page of an area of the task `x` at `v`, and nothing else. -/
structure OwnPage (first : ℕ) (kernelPages : List ℕ) (w : World) (x : ℕ × VMSpace)
    (v page f : ℕ) : Prop where
  area : ∃ a ∈ x.2.areas, a.mapType = .anonymous ∧ a.containVpn v = true ∧
    (v, page) ∈ a.pages.entries ∧ f % 64 = (a.permissions ||| PTE.flagV) % 64
  /-- It was handed out, so it is not memory of the kernel itself. -/
  issued : first ≤ page ∧ page < w.phys.alloc.nextUnusedPpn
  notFree : page ∉ w.phys.alloc.recycledPpn
  notKernelTable : page ∉ kernelPages
  notTable : ∀ y ∈ w.tasks, page ∉ y.2.rootPgt.pages
  notStack : ∀ y ∈ w.tasks, ∀ a ∈ y.2.areas, a.mapType = .kernelVaOffset → page ∉ a.pages.values
  /-- It is not shared, and it is at one place. -/
  alone : ∀ y ∈ w.tasks, ∀ u g, UserReaches w.phys.mem y.2 u page g → y = x ∧ u = v

variable {img : KernelImage} {first : ℕ} {w : World} {x y : ℕ × VMSpace} {v page f p : ℕ}

/-- Different tasks have different pages. -/
theorem InOrder.apart (h : InOrder img first w) (hx : x ∈ w.tasks) (hy : y ∈ w.tasks)
    (hpx : p ∈ x.2.pages) (hpy : p ∈ y.2.pages) : y = x := by
  have hnodup : (Spaces.livePages (w.tasks.map Prod.snd)).Nodup :=
    h.system.accounted.ledger.held_nodup.of_append_left
  have hsep := (List.nodup_flatMap.mp hnodup).2
  rw [List.pairwise_map] at hsep
  have hown : w.tasks.Pairwise fun x y => p ∈ x.2.pages → p ∈ y.2.pages → y = x :=
    hsep.imp fun hd hx hy => (hd hx hy).elim
  exact hown.forall_of_forall_of_flip (fun _ _ _ _ => rfl) (hown.imp fun hxy hy hx => (hxy hx hy).symm)
    hx hy hpx hpy

theorem held_of_task (hx : x ∈ w.tasks) (hp : p ∈ x.2.pages) :
    p ∈ Spaces.livePages (w.tasks.map Prod.snd) ++ img.pages :=
  List.mem_append_left _ (Spaces.mem_livePages_of_mem (List.mem_map_of_mem hx) hp)

/-- User code is kept in the user half, and there in its areas. -/
theorem InOrder.area_of_reaches (h : InOrder img first w) (hdirect : Direct img.mem img.root)
    (hx : x ∈ w.tasks) (hr : UserReaches w.phys.mem x.2 v page f) :
    ∃ a ∈ x.2.areas, a.mapType = .anonymous ∧ a.containVpn v = true ∧
      (v, page) ∈ a.pages.entries ∧ f % 64 = (a.permissions ||| PTE.flagV) % 64 := by
  obtain ⟨hcan, htr, hU⟩ := hr
  have hok : SpaceOk img w.phys.mem x.2 := h.system.spaces x.2 (List.mem_map_of_mem hx)
  by_cases hv : v < 2 ^ 26
  · exact user_half hok (h.regular x hx)
      (fun p hp => h.system.accounted.lt (held_of_task hx hp)) hv htr
  -- entries of the kernel half lack the bit
  have hsame := kernel_half hok hcan (Nat.le_of_not_lt hv)
  rw [htr] at hsame
  generalize htr' : translate img.mem img.root v = target at hsame
  cases hsame with
  | some hsame =>
    obtain ⟨-, -, hf⟩ := hdirect v _ _ hcan htr'
    refine absurd ?_ hU
    have h64 := hsame.2.2
    rw [show PTE.flagU = (2 ^ 1 - 1) * 2 ^ 4 from rfl, land_block]
    omega

theorem InOrder.ownPage (h : InOrder img first w) (hdirect : Direct img.mem img.root)
    (hx : x ∈ w.tasks) (hr : UserReaches w.phys.mem x.2 v page f) :
    OwnPage first img.pages w x v page f := by
  obtain ⟨a, ha, hanon, hav, hmem, hf⟩ := h.area_of_reaches hdirect hx hr
  have hacc := h.system.accounted
  have hvalue : page ∈ a.pages.values := BTreeMap.mem_values.mpr ⟨v, hmem⟩
  have hpage : page ∈ x.2.pages := mem_pages_of_mem_area ha hvalue
  have hheld : page ∈ _ ++ img.pages := held_of_task hx hpage
  have hown : x.2 ∈ w.tasks.map Prod.snd := List.mem_map_of_mem hx
  obtain ⟨A, B, hAB⟩ := List.append_of_mem hown
  have hmine : w.phys.Accounted first
      (x.2.pages ++ (Spaces.livePages (A ++ B) ++ img.pages)) := by
    refine hacc.congr ?_
    show (Spaces.livePages (w.tasks.map Prod.snd) ++ img.pages).Perm _
    rw [hAB]
    exact Spaces.livePages_perm A B x.2 img.pages
  refine ⟨⟨a, ha, hanon, hav, hmem, hf⟩, hacc.ledger.mem_iff.mp (Or.inr hheld),
    hacc.ledger.not_mem_free hheld, fun hp => ?_, fun y hy hp => ?_, fun y hy b hb hkern hp => ?_,
    fun y hy u g hu => ?_⟩
  · exact (List.nodup_append.mp hacc.ledger.held_nodup).2.2 page
      (Spaces.mem_livePages_of_mem hown hpage) page hp rfl
  · obtain rfl := h.apart hx hy hpage (mem_pages_of_table hp)
    exact not_table hmine ha hvalue hp
  · obtain rfl := h.apart hx hy hpage (mem_pages_of_mem_area hb hp)
    obtain ⟨u, hu⟩ := BTreeMap.mem_values.mp hp
    obtain ⟨-, rfl⟩ := page_once hmine ha hb hmem hu
    have hok := h.system.spaces y.2 hown
    obtain rfl := hok.agrees.area_unique ha hb hav (hok.agrees.keys b hb _ _ hu)
    rw [hanon] at hkern
    cases hkern
  · obtain ⟨b, hb, -, -, hu, -⟩ := h.area_of_reaches hdirect hy hu
    obtain rfl := h.apart hx hy hpage (mem_pages_of_mem_area hb (BTreeMap.mem_values.mpr ⟨u, hu⟩))
    exact ⟨rfl, (page_once hmine ha hb hmem hu).2.symm⟩

/-- What `Permits` says of a load, the walk does. -/
theorem reaches_of_permits {m : Mem} {s : VMSpace} {va : ℕ} (hok : SpaceOk img m s)
    (hreg : RegularUser m s.rootPgt.ppn) (hva : checkUVa va = true)
    (h : Permits m s.rootPgt.ppn va .load) :
    ∃ page f, UserReaches m s (va / 4096) page f := by
  have hv : va / 4096 < 2 ^ 26 := lt_of_lt_userEnd (vpn_lt_of_check hva)
  rw [checkUVa_iff] at hva
  obtain ⟨hvalid, hland⟩ := h
  change PTE.isValid (pteAt m s.rootPgt.ppn (va / 4096)) = true at hvalid
  change pteAt m s.rootPgt.ppn (va / 4096) &&& 18 = 18 at hland
  rw [PTE.isValid_iff] at hvalid
  have hbit : ∀ i, Nat.testBit 18 i = true → pteAt m s.rootPgt.ppn (va / 4096) / 2 ^ i % 2 = 1 := by
    intro i hi
    have h : Nat.testBit (pteAt m s.rootPgt.ppn (va / 4096) &&& 18) i = true := by rw [hland, hi]
    rw [Nat.testBit_and, hi, Bool.and_true, Nat.testBit_eq_decide_div_mod_eq] at h
    exact of_decide_eq_true h
  have hU := hbit 4 (by decide)
  have hR := hbit 1 (by decide)
  have hleaf : PTE.kind (pteAt m s.rootPgt.ppn (va / 4096)) = .leaf := by
    rw [PTE.kind_eq, if_neg (by omega), if_pos (by omega)]
  refine ⟨PTE.getPpn (pteAt m s.rootPgt.ppn (va / 4096)), pteAt m s.rootPgt.ppn (va / 4096) % 1024,
    ⟨va, by omega, VPN.fromVa_of_user (by omega)⟩, ?_, ?_⟩
  · rw [translate_user hok hreg hv, if_pos hleaf]
  · rw [show PTE.flagU = (2 ^ 1 - 1) * 2 ^ 4 from rfl, land_block]
    omega

/-! ### From boot -/

variable {k : Phys} {t : RootPgt} {log : List (Label ℕ AddressSpace Action)}

/-- **User code reaches the pages of its own areas only.** -/
theorem user_confined (layout : Layout) (m₀ : Mem) {a₀ : PageAllocator}
    (halloc : initialAllocator layout.kernelEnd.toNat = some a₀)
    (hinit : initKernelSatp layout ⟨m₀, a₀⟩ = (.ok t, k))
    (hrun : Run (Step t.ppn t.pages) ⟨k, []⟩ log w) (hx : x ∈ w.tasks)
    (hr : UserReaches w.phys.mem x.2 v page f) :
    OwnPage a₀.nextUnusedPpn t.pages w x v page f := by
  obtain ⟨img, hroot, hmem, hpages, hacc⟩ :=
    initKernelSatp_image layout (accounted_initial layout m₀ halloc) hinit
  have hdirect := initKernelSatp_direct halloc hinit
  rw [← hroot, ← hpages] at hrun
  rw [← hmem, ← hroot] at hdirect
  rw [← hpages]
  exact (independent.inv_of_run (inOrder_boot hacc hmem) hrun).ownPage hdirect hx hr

/-- The last page of the first task's stack. -/
theorem user_confined_bare : ∃ t k w x page f,
    initKernelSatp sampleLayout ⟨fun _ _ => 0, ⟨0x80500, 0x88000, []⟩⟩ = (.ok t, k) ∧
      Run (Step t.ppn t.pages) ⟨k, []⟩ [.created 7 (elfSpace bareElf)] w ∧ x ∈ w.tasks ∧
      UserReaches w.phys.mem x.2 ((2 ^ 38 - 8192) / 4096) page f ∧
      OwnPage 0x80500 t.pages w x ((2 ^ 38 - 8192) / 4096) page f := by
  obtain ⟨img, t, k, k', s, hinit, -, -, hin, hrun, hpermits⟩ := bare_created
  have hx : (7, s) ∈ (⟨k', [(7, s)]⟩ : World).tasks := List.mem_singleton_self _
  obtain ⟨page, f, hr⟩ := reaches_of_permits (hin.system.spaces s (List.mem_singleton_self _))
    (hin.regular _ hx) (show checkUVa (2 ^ 38 - 8192) = true by decide) (hpermits .load)
  exact ⟨t, k, _, _, page, f, hinit, hrun, hx, hr,
    user_confined sampleLayout _ sampleLayout_allocator hinit hrun hx hr⟩

/-- **The kernel half is the same in every space**: whichever task is running, the kernel finds its
text, its data and its devices, and every page of the allocator, where it left them at boot. -/
theorem kernel_everywhere {layout : Layout} (hl : layout.Linked) (m₀ : Mem) {a₀ : PageAllocator}
    (halloc : initialAllocator layout.kernelEnd.toNat = some a₀)
    (hroom : a₀.nextUnusedPpn + 73 ≤ a₀.maxPpn)
    (hinit : initKernelSatp layout ⟨m₀, a₀⟩ = (.ok t, k))
    (hrun : Run (Step t.ppn t.pages) ⟨k, []⟩ log w) (hx : x ∈ w.tasks) :
    (∀ v, Canonical v → 2 ^ 26 ≤ v →
      SameTranslation (translate w.phys.mem x.2.rootPgt.ppn v) (target (flagsOf layout.regions) v)) ∧
    ∀ p, a₀.nextUnusedPpn ≤ p → p < a₀.maxPpn →
      ∃ f, translate w.phys.mem x.2.rootPgt.ppn (kernelHalf + p) = some (p, f) ∧
        f % 64 = permissionR ||| permissionW ||| PTE.flagV := by
  obtain ⟨img, hroot, hmem, hpages, hacc⟩ :=
    initKernelSatp_image layout (accounted_initial layout m₀ halloc) hinit
  obtain ⟨t', k', hinit', hmapping⟩ := initKernelSatp_mapping hl m₀ halloc
    (show a₀.nextUnusedPpn + 73 + 0 ≤ a₀.maxPpn from hroom)
  obtain ⟨ht, rfl⟩ := Prod.mk.inj (hinit.symm.trans hinit')
  obtain rfl := Outcome.ok.inj ht
  have hmaps : ∀ v, Canonical v → translate k.mem t.ppn v = target (flagsOf layout.regions) v :=
    fun v hv => (hmapping.shows v hv).translate_eq
  rw [← hroot, ← hpages] at hrun
  have hin := independent.inv_of_run (inOrder_boot hacc hmem) hrun
  have hok : SpaceOk img w.phys.mem x.2 := hin.system.spaces x.2 (List.mem_map_of_mem hx)
  have hhalf : ∀ v, Canonical v → 2 ^ 26 ≤ v →
      SameTranslation (translate w.phys.mem x.2.rootPgt.ppn v) (translate k.mem t.ppn v) := by
    intro v hv hle
    have := kernel_half hok hv hle
    rwa [hmem, hroot] at this
  refine ⟨fun v hv hle => hmaps v hv ▸ hhalf v hv hle, fun p hle hlt => ?_⟩
  obtain rfl := nextUnused_eq hl halloc
  have hin : layout.memoryRegion.contains p = true := Region.contains_iff.mpr ⟨hle, hlt⟩
  have hp : p < 2 ^ 26 := layout.lt_of_memory hin
  have hsame := hhalf _ (canonical_kernelHalf hp) (by unfold kernelHalf; omega)
  rw [hmaps _ (canonical_kernelHalf hp), target_kernelHalf, hl.flagsOf_memory hin,
    Option.map_some] at hsame
  generalize translate w.phys.mem x.2.rootPgt.ppn (kernelHalf + p) = found at hsame
  cases hsame with
  | @some y _ hsame =>
    obtain ⟨q, f⟩ := y
    obtain ⟨rfl, -, hf⟩ := hsame
    exact ⟨f, rfl, hf.trans (show (permissionR ||| permissionW ||| PTE.flagV) % 64 = _ by decide)⟩

/-- The first free page, in the space of the first task. -/
theorem kernel_everywhere_bare : ∃ t k w x f,
    initKernelSatp sampleLayout ⟨fun _ _ => 0, ⟨0x80500, 0x88000, []⟩⟩ = (.ok t, k) ∧
      Run (Step t.ppn t.pages) ⟨k, []⟩ [.created 7 (elfSpace bareElf)] w ∧ x ∈ w.tasks ∧
      translate w.phys.mem x.2.rootPgt.ppn (kernelHalf + 0x80500) = some (0x80500, f) := by
  obtain ⟨img, t, k, k', s, hinit, -, -, -, hrun, -⟩ := bare_created
  have hx : (7, s) ∈ (⟨k', [(7, s)]⟩ : World).tasks := List.mem_singleton_self _
  obtain ⟨f, hf, -⟩ := (kernel_everywhere sampleLayout_linked _ sampleLayout_allocator (by decide)
    hinit hrun hx).2 0x80500 (by decide) (by decide)
  exact ⟨t, k, _, _, f, hinit, hrun, hx, hf⟩

end RCoreKernel.Syscall.Tasks
