import RCoreKernel.Mm.UserTables
import RCoreKernel.Task.Start

/-!
# The page tables and the kernel stack in use

While a task runs, `satp` holds the root of its address space and the kernel works on its kernel
stack; both change only in `__switch`.  This file adds these two registers to the system of
`Mm.Spaces`.  `run_next_task` drops the control block of a task that has exited or been killed
before it calls `__switch`, so for a while both registers refer to pages that were given back.

* `DropCurrent`, `retire_drops` — the drop of the current task, and that the scheduler makes it;
* `Step.keeps` — operations on spaces keep the root and the kernel stack of every space;
* `run_in_use` — **in every run without exits and kills the pages in use are never recycled**;
* `exit_recycles_satp` — a run with an exit in which they are.
-/

namespace RCoreKernel.Task.Satp

open Mm Mm.VMSpace Mm.RootPgt Mm.Spaces Radix

/-- The system with the registers of the hart: the root in `satp`, and the page of the kernel stack
in use (none while the boot stack is). -/
structure Hart where
  sys : System
  satp : ℕ
  stack : Option ℕ

/-- One step of the hart. -/
inductive Step (root : ℕ) (kernelPages : List ℕ) : Hart → Hart → Prop
  /-- an operation that does not drop a space -/
  | work {sys sys' : System} {satp : ℕ} {stack : Option ℕ} (h : Spaces.Step root kernelPages sys sys')
      (hkeep : sys.spaces.length ≤ sys'.spaces.length) :
      Step root kernelPages ⟨sys, satp, stack⟩ ⟨sys', satp, stack⟩
  /-- `__switch` to the task with the space `s` -/
  | switch {sys : System} {satp page : ℕ} {stack : Option ℕ} {s : VMSpace} (hs : s ∈ sys.spaces)
      (hpage : kernelStack page ∈ s.areas) :
      Step root kernelPages ⟨sys, satp, stack⟩ ⟨sys, s.rootPgt.ppn, some page⟩

/-- `run_next_task` drops the control block of the task with the space `s`, which is still the
current one. -/
inductive DropCurrent : Hart → Hart → Prop
  | drop {k : Phys} {A B : List VMSpace} {s : VMSpace} {page : ℕ} (hpage : kernelStack page ∈ s.areas) :
      DropCurrent ⟨⟨k, A ++ s :: B⟩, s.rootPgt.ppn, some page⟩
        ⟨⟨VMSpace.drop k s, A ++ B⟩, s.rootPgt.ppn, some page⟩

/-- **The scheduler does drop it there.**  When the current task has exited or been killed, the first
half of `run_next_task` lets its control block go, and the spaces of the others stay. -/
theorem retire_drops {created gone : List ℕ} {kernel : Kernel VMSpace}
    {tcb : TaskControlBlock VMSpace} (h : Ongoing created gone kernel tcb)
    (hend : tcb.state = .exited ∨ tcb.state = .killed) (time : ℕ) (k : Phys) {page : ℕ}
    (hpage : kernelStack page ∈ tcb.vmSpace.areas) : ∃ tasks spaces,
      kernel.retire time = .ok (some tcb, some tcb, tasks) ∧
      (tasks.map (·.vmSpace)).Perm spaces ∧
      DropCurrent ⟨⟨k, kernel.allTasks.map (·.vmSpace)⟩, tcb.vmSpace.rootPgt.ppn, some page⟩
        ⟨⟨VMSpace.drop k tcb.vmSpace, spaces⟩, tcb.vmSpace.rootPgt.ppn, some page⟩ := by
  obtain ⟨tcb', tasks, htake⟩ := takeTaskTcb_isSome h.mem time
  obtain ⟨hid, hperm⟩ := takeTaskTcb_spec htake
  obtain rfl : tcb' = tcb :=
    h.listed.eq_of_taskId (hperm.mem_iff.mpr (List.mem_cons_self ..)) h.mem hid
  obtain ⟨A, B, hsplit⟩ := List.append_of_mem h.mem
  have hothers : tasks.Perm (A ++ B) :=
    ((hperm.symm.trans (hsplit ▸ List.perm_middle)).cons_inv)
  refine ⟨tasks, (A ++ B).map (·.vmSpace), ?_, hothers.map _, ?_⟩
  · rw [Kernel.retire, h.current]
    simp only [htake]
    rcases hend with hend | hend
    · simp [hend]
    · simp [hend]
  · rw [hsplit, List.map_append, List.map_cons, List.map_append]
    exact .drop hpage

/-- The page is the root or a table that the hardware finds below it. -/
def TableOf (m : Mem) (root p : ℕ) : Prop :=
  p = root ∨ (∃ i < 512, PTE.hwChild (m root i) = some p) ∨
    ∃ i < 512, ∃ j < 512, ∃ q, PTE.hwChild (m root i) = some q ∧ PTE.hwChild (m q j) = some p

/-- No page that the hardware or the kernel is using has been given back. -/
structure InUse (h : Hart) : Prop where
  tables : ∀ p, TableOf h.sys.phys.mem h.satp p → p ∉ h.sys.phys.alloc.recycledPpn
  stack : ∀ p, h.stack = some p → p ∉ h.sys.phys.alloc.recycledPpn

variable {img : KernelImage} {first : ℕ} {st st' : System}

/-- Operations on spaces keep the root and the kernel stack of every space. -/
theorem Step.keeps (hstep : Spaces.Step img.root img.pages st st') (hin : InOrder img first st)
    (hkeep : st.spaces.length ≤ st'.spaces.length) :
    ∀ s ∈ st.spaces, ∃ s' ∈ st'.spaces, s'.rootPgt.ppn = s.rootPgt.ppn ∧
      ∀ a ∈ s.areas, a.mapType = .kernelVaOffset → a ∈ s'.areas := by
  have hsub : ∀ {l : List ℕ}, ∀ p ∈ img.pages, p ∈ l ++ img.pages := fun p hp =>
    List.mem_append_right _ hp
  -- one space has been replaced by a later state of it
  have hone : ∀ {k k' : Phys} {A B : List VMSpace} {s₀ s₁ : VMSpace},
      Kept img first (livePages (A ++ B) ++ img.pages) k s₀ k' s₁ →
      ∀ s ∈ A ++ s₀ :: B, ∃ s' ∈ A ++ s₁ :: B, s'.rootPgt.ppn = s.rootPgt.ppn ∧
        ∀ a ∈ s.areas, a.mapType = .kernelVaOffset → a ∈ s'.areas := by
    intro k k' A B s₀ s₁ hk s hs
    simp only [List.mem_append, List.mem_cons] at hs
    rcases hs with hs | rfl | hs
    · exact ⟨s, by simp [hs], rfl, fun a ha _ => ha⟩
    · exact ⟨s₁, by simp, hk.root_eq, hk.kernel_areas⟩
    · exact ⟨s, by simp [hs], rfl, fun a ha _ => ha⟩
  cases hstep with
  | newUser k ss elf s k' hb h =>
    exact fun s hs => ⟨s, List.mem_cons_of_mem _ hs, rfl, fun a ha _ => ha⟩
  | newUserFailed k ss elf e k' hb h => exact fun s hs => ⟨s, hs, rfl, fun a ha _ => ha⟩
  | mapFaultPage k A B s va minPermissions res k' s' hinv h hres =>
    obtain ⟨hok, hacc⟩ := hin.space
    exact hone (mapFaultPage_kept hok hacc hsub hinv h)
  | addNewArea k A B s startVpn endVpn permissions hend =>
    obtain ⟨hok, hacc⟩ := hin.space
    exact hone (addNewArea_kept hok hacc hend rfl)
  | unmap k A B s startVpn endVpn res k' s' hle hend h =>
    obtain ⟨hok, hacc⟩ := hin.space
    obtain ⟨k₁, s₁, h₁, hkept⟩ := unmap_kept hok hacc hsub hend hle
    obtain ⟨rfl, hks⟩ := Prod.mk.inj (h₁.symm.trans h)
    obtain ⟨rfl, rfl⟩ := Prod.mk.inj hks
    exact hone hkept
  | drop k A B s =>
    simp only [List.length_append, List.length_cons] at hkeep
    omega
  | touch st m' h => exact fun s hs => ⟨s, hs, rfl, fun a ha _ => ha⟩

/-- The registers refer to the kernel's own tables, or to a live space. -/
structure Current (img : KernelImage) (first : ℕ) (h : Hart) : Prop where
  order : InOrder img first h.sys
  current : (h.satp = img.root ∧ h.stack = none) ∨
    ∃ s ∈ h.sys.spaces, s.rootPgt.ppn = h.satp ∧
      ∀ p, h.stack = some p → kernelStack p ∈ s.areas

theorem Current.step {h h' : Hart} (hc : Current img first h)
    (hstep : Step img.root img.pages h h') : Current img first h' := by
  obtain ⟨hin, hcur⟩ := hc
  cases hstep with
  | work hs hkeep =>
    refine ⟨hs.inOrder hin, hcur.imp_right ?_⟩
    rintro ⟨s, hmem, hroot, hstack⟩
    obtain ⟨s', hmem', hroot', hareas⟩ := Step.keeps hs hin hkeep s hmem
    exact ⟨s', hmem', hroot'.trans hroot, fun p hp => hareas _ (hstack p hp) rfl⟩
  | switch hs hpage =>
    refine ⟨hin, Or.inr ⟨_, hs, rfl, fun p hp => ?_⟩⟩
    cases hp
    exact hpage

/-- Tables of the kernel are accounted for. -/
theorem tableOf_kernel {m : Mem} {p : ℕ} (hintact : img.Intact m) (h : TableOf m img.root p) :
    p ∈ img.pages := by
  rcases h with rfl | ⟨i, -, hp⟩ | ⟨i, -, j, -, q, hq, hp⟩
  · exact img.root_mem
  · have hc := PTE.child_of_hwChild hp
    rw [(hintact _ img.root_mem i).child_eq] at hc
    exact img.mid_mem hc
  · have hq' := PTE.child_of_hwChild hq
    have hp' := PTE.child_of_hwChild hp
    rw [(hintact _ img.root_mem i).child_eq] at hq'
    rw [(hintact _ (img.mid_mem hq') j).child_eq] at hp'
    exact img.bottom_mem hq' hp'

/-- Tables below the root of a space belong to the space or to the kernel. -/
theorem tableOf_space {m : Mem} {s : VMSpace} {p : ℕ} (hok : SpaceOk img m s)
    (h : TableOf m s.rootPgt.ppn p) : p ∈ s.rootPgt.pages ∨ p ∈ img.pages := by
  have hmid : ∀ {i q}, i < 512 → PTE.hwChild (m s.rootPgt.ppn i) = some q →
      (UserHalf i ∧ PTE.child (m s.rootPgt.ppn i) = some q ∧ q ∈ s.rootPgt.pages) ∨
        (PTE.child (img.mem img.root i) = some q ∧ q ∈ img.pages) := by
    intro i q hi hq
    have hc := PTE.child_of_hwChild hq
    by_cases hu : UserHalf i
    · exact Or.inl ⟨hu, hc, (hok.tables.mid_mem hu hc).1⟩
    · rw [(hok.agrees.kernel_root i (Nat.le_of_not_lt hu) hi).child_eq] at hc
      exact Or.inr ⟨hc, img.mid_mem hc⟩
  rcases h with rfl | ⟨i, hi, hp⟩ | ⟨i, hi, j, -, q, hq, hp⟩
  · exact Or.inl hok.tables.root_mem
  · exact (hmid hi hp).imp (fun h => h.2.2) fun h => h.2
  · have hp' := PTE.child_of_hwChild hp
    rcases hmid hi hq with ⟨hu, hc, -⟩ | ⟨hc, hq'⟩
    · exact Or.inl (hok.tables.bottom_mem hu (bottom_eq_some.mpr ⟨q, hc, hp'⟩)).1
    · rw [(hok.agrees.kernel_tables q hq' j).child_eq] at hp'
      exact Or.inr (img.bottom_mem hc hp')

theorem Current.inUse {h : Hart} (hc : Current img first h) : InUse h := by
  obtain ⟨hin, hcur⟩ := hc
  have hheld : ∀ {p}, p ∈ livePages h.sys.spaces ++ img.pages → p ∉ h.sys.phys.alloc.recycledPpn :=
    fun hp => hin.accounted.ledger.not_mem_free hp
  rcases hcur with ⟨hroot, hstack⟩ | ⟨s, hs, hroot, hstack⟩
  · refine ⟨fun p hp => hheld (List.mem_append_right _ ?_), fun p hp => ?_⟩
    · rw [hroot] at hp
      exact tableOf_kernel hin.intact hp
    · rw [hstack] at hp
      cases hp
  · refine ⟨fun p hp => hheld ?_, fun p hp => hheld (List.mem_append_left _ ?_)⟩
    · rw [← hroot] at hp
      rcases tableOf_space (hin.spaces s hs) hp with hp | hp
      · exact List.mem_append_left _ (mem_livePages_of_mem hs (mem_pages_of_table hp))
      · exact List.mem_append_right _ hp
    · refine mem_livePages_of_mem hs (mem_pages_of_mem_area (hstack p hp) ?_)
      exact List.mem_singleton_self p

/-- **The pages in use are never recycled** in any run after boot in which no task exits or is
killed. -/
theorem run_in_use (layout : Layout) (m₀ : Mem) {a₀ : PageAllocator} {k : Phys} {t : RootPgt}
    (halloc : initialAllocator layout.kernelEnd.toNat = some a₀)
    (hinit : initKernelSatp layout ⟨m₀, a₀⟩ = (.ok t, k)) {h : Hart}
    (hrun : Relation.ReflTransGen (Step t.ppn t.pages) ⟨⟨k, []⟩, t.ppn, none⟩ h) : InUse h := by
  obtain ⟨img, hroot, hmem, hpages, hacc⟩ :=
    initKernelSatp_image layout (accounted_initial layout m₀ halloc) hinit
  rw [← hroot, ← hpages] at hrun
  have hcur : Current img a₀.nextUnusedPpn h := by
    induction hrun with
    | refl => exact ⟨inOrder_boot hacc hmem, Or.inl ⟨rfl, rfl⟩⟩
    | tail _ hstep ih => exact ih.step hstep
  exact hcur.inUse

/-- A task has been created and switched to. -/
theorem bare_switched : ∃ t k k' s page,
    initKernelSatp sampleLayout ⟨fun _ _ => 0, ⟨0x80500, 0x88000, []⟩⟩ = (.ok t, k) ∧
      kernelStack page ∈ s.areas ∧ s.rootPgt.ppn ∈ s.pages ∧
      Relation.ReflTransGen (Step t.ppn t.pages) ⟨⟨k, []⟩, t.ppn, none⟩
        ⟨⟨k', [s]⟩, s.rootPgt.ppn, some page⟩ := by
  obtain ⟨t, k, hinit, hmap⟩ := initKernelSatp_mapping sampleLayout_linked (fun _ _ => 0)
    sampleLayout_allocator (show _ + 73 + 5 ≤ _ by decide)
  obtain ⟨img, hroot, hmem, hpages, hacc⟩ :=
    initKernelSatp_image sampleLayout (accounted_initial _ _ sampleLayout_allocator) hinit
  obtain ⟨s, k', hnew, -, hin, ⟨_, _, _, _, _, _, page, hareas, -⟩, -⟩ :=
    (inOrder_boot hacc hmem).newUser_bare (by have := hmap.room; omega)
  have hstack : kernelStack page ∈ s.areas := by simp [hareas]
  rw [hroot] at hnew
  refine ⟨t, k, k', s, page, hinit, hstack,
    mem_pages_of_table (hin.spaces s (List.mem_singleton_self s)).tables.root_mem, ?_⟩
  exact .tail (.single (.work (.newUser k [] bareElf s k' belowStack_bare hnew) (by simp)))
    (.switch (List.mem_singleton_self s) hstack)

theorem run_in_use_bare : ∃ t k h,
    initKernelSatp sampleLayout ⟨fun _ _ => 0, ⟨0x80500, 0x88000, []⟩⟩ = (.ok t, k) ∧
      Relation.ReflTransGen (Step t.ppn t.pages) ⟨⟨k, []⟩, t.ppn, none⟩ h ∧ InUse h := by
  obtain ⟨t, k, k', s, page, hinit, -, -, hrun⟩ := bare_switched
  exact ⟨t, k, _, hinit, hrun, run_in_use sampleLayout _ sampleLayout_allocator hinit hrun⟩

/-- The task exits: its root table is recycled while it is in `satp`. -/
theorem exit_recycles_satp : ∃ t k h h',
    initKernelSatp sampleLayout ⟨fun _ _ => 0, ⟨0x80500, 0x88000, []⟩⟩ = (.ok t, k) ∧
      Relation.ReflTransGen (Step t.ppn t.pages) ⟨⟨k, []⟩, t.ppn, none⟩ h ∧ DropCurrent h h' ∧
      h'.satp ∈ h'.sys.phys.alloc.recycledPpn ∧ ¬InUse h' := by
  obtain ⟨t, k, k', s, page, hinit, hstack, hroot, hrun⟩ := bare_switched
  have hrec : s.rootPgt.ppn ∈ (VMSpace.drop k' s).alloc.recycledPpn := by
    rw [VMSpace.drop, Phys.dropPages_recycled]
    exact List.mem_append_right _ hroot
  have hdrop : DropCurrent ⟨⟨k', [s]⟩, s.rootPgt.ppn, some page⟩
      ⟨⟨VMSpace.drop k' s, []⟩, s.rootPgt.ppn, some page⟩ :=
    @DropCurrent.drop k' [] [] s page hstack
  exact ⟨t, k, _, _, hinit, hrun, hdrop, hrec, fun h => h.tables _ (Or.inl rfl) hrec⟩

end RCoreKernel.Task.Satp
