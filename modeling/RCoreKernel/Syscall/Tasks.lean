import RCoreKernel.Lib.Components
import RCoreKernel.Syscall.AddressSpace

/-!
# All tasks and their address spaces

The system of this file is physical memory with its allocator and the spaces of all tasks.  Tasks
are created from ELF files, ask for memory, load and store, fault, and end, in any order; in between
the hardware sets accessed and dirty bits and the kernel writes to its stacks.

Page tables, free pages, the order in which pages are handed out and everything the other tasks do
are invisible to a task: what it gets back is what its own page map promises.

* `Step` — one step of the system;
* `InOrder`, `Step.inOrder` — the invariant;
* `independent` — each step is one of at most one task;
* `tasks_live` — **along every run from boot, every task gets what its page map promises**.
-/

namespace RCoreKernel.Syscall.Tasks

open Mm Mm.VMSpace Mm.RootPgt Radix Components

/-- Physical memory and the spaces of the tasks. -/
structure World where
  phys : Phys
  tasks : List (ℕ × VMSpace)

def World.system (w : World) : Spaces.System := ⟨w.phys, w.tasks.map Prod.snd⟩

/-- The page map of a task. -/
def World.space? (w : World) (id : ℕ) : Option AddressSpace :=
  (w.tasks.lookup id).map fun s => s.space w.phys.mem

/-- The page map that an ELF file describes. -/
def elfSpace (elf : Elf) : AddressSpace := (elfView elf).space

/-- Segments as `user/src/linker.ld` makes them: below the stack, and none is empty. -/
structure WellLinked (elf : Elf) : Prop where
  below : Spaces.BelowStack elf
  nonempty : ∀ file, elf.parsed = .ok file → ∀ a ∈ loadAreas file.headers, a.startVpn < a.endVpn

/-- The hardware sets accessed and dirty bits, the kernel uses its stacks, and the free pages may
hold anything. -/
structure Quiet (kernelPages : List ℕ) (w : World) (m' : Mem) : Prop where
  tables : ∀ x ∈ w.tasks, ∀ p ∈ x.2.rootPgt.pages, ∀ j, PTE.SameButAD (m' p j) (w.phys.mem p j)
  kernel : ∀ p ∈ kernelPages, ∀ j, PTE.SameButAD (m' p j) (w.phys.mem p j)
  data : ∀ x ∈ w.tasks, ∀ a ∈ x.2.areas, a.mapType = .anonymous → ∀ p ∈ a.pages.values,
    m' p = w.phys.mem p

/-- One step of the system, and what it means for the tasks.  A fault is raised by a task or, while
it copies for a task, by the kernel. -/
inductive Step (root : ℕ) (kernelPages : List ℕ) : World → Label ℕ AddressSpace Action → World → Prop
  | created (k : Phys) (ts : List (ℕ × VMSpace)) (id : ℕ) (elf : Elf) (s : VMSpace) (k' : Phys)
      (hlinked : WellLinked elf) (hfresh : id ∉ ts.map Prod.fst)
      (h : newUser k root elf = (.ok s, k')) :
      Step root kernelPages ⟨k, ts⟩ (.created id (elfSpace elf)) ⟨k', (id, s) :: ts⟩
  | notCreated (k : Phys) (ts : List (ℕ × VMSpace)) (elf : Elf) (e : VMError) (k' : Phys)
      (hlinked : WellLinked elf) (h : newUser k root elf = (.err e, k')) :
      Step root kernelPages ⟨k, ts⟩ .silent ⟨k', ts⟩
  | mmap (k : Phys) (A B : List (ℕ × VMSpace)) (id : ℕ) (s : VMSpace) (addr len prot : ℕ) (code : ℤ)
      (s' : VMSpace) (h : Syscall.mmap s addr len prot = (.ok code, s')) :
      Step root kernelPages ⟨k, A ++ (id, s) :: B⟩ (.acted id (.mmap addr len prot code))
        ⟨k, A ++ (id, s') :: B⟩
  | munmap (k : Phys) (A B : List (ℕ × VMSpace)) (id : ℕ) (s : VMSpace) (addr len : ℕ) (code : ℤ)
      (k' : Phys) (s' : VMSpace) (h : Syscall.munmap k s addr len = (.ok code, k', s')) :
      Step root kernelPages ⟨k, A ++ (id, s) :: B⟩ (.acted id (.munmap addr len code))
        ⟨k', A ++ (id, s') :: B⟩
  | load (k : Phys) (A B : List (ℕ × VMSpace)) (id : ℕ) (s : VMSpace) (va : ℕ)
      (hva : checkUVa va = true) (hpermits : Permits k.mem s.rootPgt.ppn va .load) :
      Step root kernelPages ⟨k, A ++ (id, s) :: B⟩
        (.acted id (.load va (byteAt k.mem (pageAt ⟨k, s⟩ va) (va % 4096))))
        ⟨k, A ++ (id, s) :: B⟩
  | store (k : Phys) (A B : List (ℕ × VMSpace)) (id : ℕ) (s : VMSpace) (va byte : ℕ)
      (hva : checkUVa va = true) (hpermits : Permits k.mem s.rootPgt.ppn va .store)
      (hbyte : byte < 256) :
      Step root kernelPages ⟨k, A ++ (id, s) :: B⟩ (.acted id (.store va byte))
        ⟨{ k with mem := storeByte k.mem (pageAt ⟨k, s⟩ va) (va % 4096) byte }, A ++ (id, s) :: B⟩
  | fault (k : Phys) (A B : List (ℕ × VMSpace)) (id : ℕ) (s : VMSpace) (va : ℕ) (access : Access)
      (res : Outcome VMError Unit) (k' : Phys) (s' : VMSpace) (hva : checkUVa va = true)
      (hnot : ¬Permits k.mem s.rootPgt.ppn va access)
      (h : mapFaultPage k s va access.minPermissions = (res, k', s')) :
      Step root kernelPages ⟨k, A ++ (id, s) :: B⟩ .silent ⟨k', A ++ (id, s') :: B⟩
  | ended (k : Phys) (A B : List (ℕ × VMSpace)) (id : ℕ) (s : VMSpace) :
      Step root kernelPages ⟨k, A ++ (id, s) :: B⟩ (.removed id) ⟨VMSpace.drop k s, A ++ B⟩
  | quiet (w : World) (m' : Mem) (h : Quiet kernelPages w m') :
      Step root kernelPages w .silent ⟨{ w.phys with mem := m' }, w.tasks⟩

/-- All spaces are in order, every issued page is accounted for, and the tasks have different
ids. -/
structure InOrder (img : KernelImage) (first : ℕ) (w : World) : Prop where
  system : Spaces.InOrder img first w.system
  regular : ∀ x ∈ w.tasks, RegularUser w.phys.mem x.2.rootPgt.ppn
  nonempty : ∀ x ∈ w.tasks, ∀ a ∈ x.2.areas, a.startVpn < a.endVpn
  ids : (w.tasks.map Prod.fst).Nodup

variable {img : KernelImage} {first : ℕ} {w w' : World} {k k' : Phys} {A B ts : List (ℕ × VMSpace)}
  {id j : ℕ} {s s' : VMSpace} {m' : Mem} {l : Label ℕ AddressSpace Action}

/-! ### Looking up a task -/

theorem lookup_mid (h : ((A ++ (id, s) :: B).map Prod.fst).Nodup) :
    (A ++ (id, s) :: B).lookup id = some s := by
  rw [List.map_append, List.map_cons] at h
  have hA : A.lookup id = none := by
    rw [List.lookup_eq_none_iff]
    intro x hx
    have hne := (List.nodup_append.mp h).2.2 x.1 (List.mem_map_of_mem hx) id (List.mem_cons_self ..)
    simpa using fun he => hne he.symm
  rw [List.lookup_append, hA, Option.none_or, List.lookup_cons, beq_self_eq_true]

theorem lookup_other (h : j ≠ id) (s : VMSpace) :
    (A ++ (id, s) :: B).lookup j = (A ++ B).lookup j := by
  rw [List.lookup_append, List.lookup_append, List.lookup_cons, beq_false_of_ne h]

theorem lookup_none (h : ((A ++ (id, s) :: B).map Prod.fst).Nodup) :
    (A ++ B).lookup id = none := by
  rw [List.map_append, List.map_cons] at h
  obtain ⟨-, hB, hAB⟩ := List.nodup_append.mp h
  rw [List.lookup_eq_none_iff]
  intro x hx
  rcases List.mem_append.mp hx with hx | hx
  · have hne := hAB x.1 (List.mem_map_of_mem hx) id (List.mem_cons_self ..)
    simpa using fun he => hne he.symm
  · have hne : id ≠ x.1 := fun he =>
      (List.nodup_cons.mp hB).1 (List.mem_map.mpr ⟨x, hx, he.symm⟩)
    simpa using hne

/-! ### One space changes -/

/-- What other tasks own, seen from the task in the middle. -/
abbrev othersPages (img : KernelImage) (A B : List (ℕ × VMSpace)) : List ℕ :=
  Spaces.livePages ((A ++ B).map Prod.snd) ++ img.pages

theorem mem_othersPages {x : ℕ × VMSpace} (hx : x ∈ A ++ B) {p : ℕ} (hp : p ∈ x.2.pages) :
    p ∈ othersPages img A B :=
  List.mem_append_left _ (Spaces.mem_livePages_of_mem (List.mem_map_of_mem hx) hp)

theorem InOrder.system_mid (h : InOrder img first ⟨k, A ++ (id, s) :: B⟩) :
    Spaces.InOrder img first ⟨k, A.map Prod.snd ++ s :: B.map Prod.snd⟩ := by
  have := h.system
  unfold World.system at this
  rwa [List.map_append, List.map_cons] at this

/-- The space of a task, beside all the others. -/
theorem InOrder.tidy (h : InOrder img first ⟨k, A ++ (id, s) :: B⟩) :
    Tidy img first (othersPages img A B) k s := by
  obtain ⟨hok, hacc⟩ := h.system_mid.space
  refine ⟨hok, h.regular (id, s) (by simp), ?_, fun p hp => List.mem_append_right _ hp⟩
  rwa [← List.map_append] at hacc

/-- A page map is what the areas and their pages make it. -/
theorem space_frame
    (h : ∀ a ∈ s.areas, a.mapType = .anonymous → ∀ p ∈ a.pages.values, m' p = k.mem p) :
    s.space m' = s.space k.mem := by
  have hview : s.view m' = s.view k.mem := by
    apply List.map_congr_left
    intro a ha
    by_cases hanon : a.mapType = .anonymous
    · exact VMArea.view_congr (h a ha hanon)
    · rw [VMArea.view, VMArea.view, if_neg hanon, if_neg hanon]
  rw [VMSpace.space, hview]
  rfl

theorem regular_frame (hok : SpaceOk img k.mem s) (hreg : RegularUser k.mem s.rootPgt.ppn)
    (h : ∀ p ∈ s.rootPgt.pages, ∀ j, PTE.SameButAD (m' p j) (k.mem p j)) :
    RegularUser m' s.rootPgt.ppn :=
  hreg.frame hok.tables (fun i _ => ⟨(h _ hok.tables.root_mem i).child_eq,
    (h _ hok.tables.root_mem i).regular⟩) fun p hp _ j => (h p hp j).regular

/-- One space has been worked on; the others are as before. -/
theorem InOrder.replace (h : InOrder img first ⟨k, A ++ (id, s) :: B⟩)
    (ht : Tidy img first (othersPages img A B) k' s')
    (hk : Kept img first (othersPages img A B) k s k' s') :
    InOrder img first ⟨k', A ++ (id, s') :: B⟩ := by
  have hmem : ∀ x, x ∈ A ++ (id, s') :: B → x = (id, s') ∨ x ∈ A ++ B := fun x hx => by
    simp only [List.mem_append, List.mem_cons] at hx ⊢
    tauto
  have hold : ∀ x ∈ A ++ B, x ∈ A ++ (id, s) :: B := fun x hx => by
    simp only [List.mem_append, List.mem_cons] at hx ⊢
    tauto
  refine ⟨?_, fun x hx => ?_, fun x hx => ?_, ?_⟩
  · rw [othersPages, List.map_append] at hk
    have hsys := h.system_mid.replace hk
    unfold World.system
    rwa [List.map_append, List.map_cons]
  · rcases hmem x hx with rfl | hx
    · exact ht.regular
    · refine regular_frame (h.system.spaces x.2 (List.mem_map_of_mem (hold x hx)))
        (h.regular x (hold x hx)) fun p hp j => ?_
      rw [hk.frame p (mem_othersPages hx (mem_pages_of_table hp))]
      exact .refl _
  · rcases hmem x hx with rfl | hx
    · exact hk.nonempty (h.nonempty (id, s) (by simp))
    · exact h.nonempty x (hold x hx)
  · have := h.ids
    rwa [List.map_append, List.map_cons] at this ⊢

/-- The other tasks do not see it. -/
theorem space?_other (hframe : ∀ p ∈ othersPages img A B, k'.mem p = k.mem p) (hj : j ≠ id)
    (s s' : VMSpace) :
    World.space? ⟨k', A ++ (id, s') :: B⟩ j = World.space? ⟨k, A ++ (id, s) :: B⟩ j := by
  unfold World.space?
  dsimp only
  rw [lookup_other hj, lookup_other hj]
  cases hl : (A ++ B).lookup j with
  | none => rfl
  | some t =>
    have hmem : (j, t) ∈ A ++ B := by
      obtain ⟨l₁, l₂, he, -⟩ := List.lookup_eq_some_iff.mp hl
      rw [he]
      simp
    rw [Option.map_some, Option.map_some,
      space_frame fun a ha _ p hp => hframe p (mem_othersPages hmem (mem_pages_of_mem_area ha hp))]

theorem space?_mid (h : ((A ++ (id, s) :: B).map Prod.fst).Nodup) :
    World.space? ⟨k, A ++ (id, s) :: B⟩ id = some (s.space k.mem) := by
  unfold World.space?
  dsimp only
  rw [lookup_mid h]
  rfl

/-! ### The invariant -/

/-- Nothing is left of the other tables when a space is made. -/
theorem InOrder.regular_of_frame (h : InOrder img first ⟨k, ts⟩)
    (hframe : ∀ p ∈ Spaces.livePages (ts.map Prod.snd) ++ img.pages, k'.mem p = k.mem p) :
    ∀ x ∈ ts, RegularUser k'.mem x.2.rootPgt.ppn := by
  intro x hx
  have hs : x.2 ∈ ts.map Prod.snd := List.mem_map_of_mem hx
  refine regular_frame (h.system.spaces x.2 hs) (h.regular x hx) fun p hp j => ?_
  rw [hframe p (List.mem_append_left _ (Spaces.mem_livePages_of_mem hs (mem_pages_of_table hp)))]
  exact .refl _

/-- No area of a new space is empty. -/
theorem WellLinked.nonempty_areas {elf : Elf} (h : WellLinked elf) (hs : NewSpace elf s) :
    ∀ a ∈ s.areas, a.startVpn < a.endVpn := by
  obtain ⟨file, segments, hfile, hbare, -, pageU, pageK, hareas, -⟩ := hs.file
  intro a ha
  rw [hareas, List.mem_append, List.mem_append, List.mem_singleton, List.mem_singleton] at ha
  rcases ha with (ha | rfl) | rfl
  · exact h.nonempty file hfile a.bare (hbare ▸ List.mem_map_of_mem ha)
  · show userEndVpn - 2048 < userEndVpn
    rw [userEndVpn_eq]
    decide
  · exact Nat.lt_succ_self _

/-- A space is made beside those of the tasks. -/
theorem InOrder.created (h : InOrder img first ⟨k, ts⟩) {elf : Elf} (hlinked : WellLinked elf)
    (hnew : newUser k img.root elf = (.ok s, k')) :
    Loaded img first (Spaces.livePages (ts.map Prod.snd) ++ img.pages) k k' s ∧
      NewSpace elf s ∧ s.view k'.mem = elfView elf ∧ RegularUser k'.mem s.rootPgt.ppn := by
  have hsub : ∀ p ∈ img.pages, p ∈ Spaces.livePages (ts.map Prod.snd) ++ img.pages := fun p hp =>
    List.mem_append_right _ hp
  have hstack : ∀ file, elf.parsed = .ok file → StackFree (loadAreas file.headers) :=
    fun file hfile => hlinked.below.stackFree hfile
  have hspec := newUser_spec (k := k) hsub h.system.accounted h.system.intact hlinked.below.tame
    hstack
  rw [hnew] at hspec
  exact ⟨hspec.1, hspec.2, newUser_view hsub h.system.accounted h.system.intact
    hlinked.below.tame hstack hnew⟩

/-- A space could not be made. -/
theorem InOrder.notCreated (h : InOrder img first ⟨k, ts⟩) {elf : Elf} {e : VMError}
    (hlinked : WellLinked elf) (hnew : newUser k img.root elf = (.err e, k')) :
    ∀ p ∈ Spaces.livePages (ts.map Prod.snd) ++ img.pages, k'.mem p = k.mem p := by
  have hsub : ∀ p ∈ img.pages, p ∈ Spaces.livePages (ts.map Prod.snd) ++ img.pages := fun p hp =>
    List.mem_append_right _ hp
  have hspec := newUser_spec (k := k) hsub h.system.accounted h.system.intact hlinked.below.tame
    fun file hfile => hlinked.below.stackFree hfile
  rw [hnew] at hspec
  exact hspec.2

/-- What an ended task leaves behind. -/
theorem InOrder.drop (h : InOrder img first ⟨k, A ++ (id, s) :: B⟩) :
    InOrder img first ⟨VMSpace.drop k s, A ++ B⟩ := by
  have hold : ∀ x ∈ A ++ B, x ∈ A ++ (id, s) :: B := fun x hx => by
    simp only [List.mem_append, List.mem_cons] at hx ⊢
    tauto
  refine ⟨?_, fun x hx => ?_, fun x hx => h.nonempty x (hold x hx), ?_⟩
  · have hsys := (Spaces.Step.drop k (A.map Prod.snd) (B.map Prod.snd) s).inOrder h.system_mid
    unfold World.system
    rwa [List.map_append]
  · rw [VMSpace.drop, Phys.dropPages_mem]
    exact h.regular x (hold x hx)
  · have hsub : (A ++ B).Sublist (A ++ (id, s) :: B) :=
      (List.Sublist.refl A).append (List.sublist_cons_self ..)
    exact h.ids.sublist (hsub.map _)

/-- **One step keeps the invariant.** -/
theorem Step.inOrder (hstep : Step img.root img.pages w l w') (h : InOrder img first w) :
    InOrder img first w' := by
  cases hstep with
  | created k ts id elf s k' hlinked hfresh hnew =>
    obtain ⟨hl, hspace, -, hreg⟩ := h.created hlinked hnew
    have hsys := (Spaces.Step.newUser k (ts.map Prod.snd) elf s k' hlinked.below hnew).inOrder
      h.system
    refine ⟨hsys, fun x hx => ?_, fun x hx => ?_, List.nodup_cons.mpr ⟨hfresh, h.ids⟩⟩
    · rcases List.mem_cons.mp hx with rfl | hx
      · exact hreg
      · exact h.regular_of_frame hl.frame x hx
    · rcases List.mem_cons.mp hx with rfl | hx
      · exact hlinked.nonempty_areas hspace
      · exact h.nonempty x hx
  | notCreated k ts elf e k' hlinked hnew =>
    have hsys := (Spaces.Step.newUserFailed k (ts.map Prod.snd) elf e k' hlinked.below hnew).inOrder
      h.system
    exact ⟨hsys, h.regular_of_frame (h.notCreated hlinked hnew), h.nonempty, h.ids⟩
  | mmap k A B id s addr len prot code s' hcall =>
    obtain ⟨code', s'', hcall', ht, hk, -⟩ :=
      mmap_step h.tidy (h.nonempty (id, s) (by simp)) addr len prot
    obtain ⟨-, rfl⟩ := Prod.mk.inj (hcall.symm.trans hcall')
    exact h.replace ht hk
  | munmap k A B id s addr len code k' s' hcall =>
    obtain ⟨code', k'', s'', hcall', ht, hk, -⟩ := munmap_step h.tidy addr len
    obtain ⟨-, hks⟩ := Prod.mk.inj (hcall.symm.trans hcall')
    obtain ⟨rfl, rfl⟩ := Prod.mk.inj hks
    exact h.replace ht hk
  | load => exact h
  | store k A B id s va byte hva hpermits hbyte =>
    obtain ⟨ht, hk, -⟩ := store_step h.tidy hva hpermits hbyte
    exact h.replace ht hk
  | fault k A B id s va access res k' s' hva hnot hfault =>
    obtain ⟨res', k'', s'', hfault', -, ht, hk, -⟩ := fault_silent h.tidy hva hnot
    obtain ⟨-, hks⟩ := Prod.mk.inj (hfault.symm.trans hfault')
    obtain ⟨rfl, rfl⟩ := Prod.mk.inj hks
    exact h.replace ht hk
  | ended => exact h.drop
  | quiet w m' hq =>
    have hsys := (Spaces.Step.touch w.system m' ⟨fun s hs => ?_, hq.kernel⟩).inOrder h.system
    · refine ⟨hsys, fun x hx => ?_, h.nonempty, h.ids⟩
      exact regular_frame (h.system.spaces x.2 (List.mem_map_of_mem hx)) (h.regular x hx)
        (hq.tables x hx)
    · obtain ⟨x, hx, rfl⟩ := List.mem_map.mp hs
      exact hq.tables x hx

/-! ### Every step is one of at most one task -/

/-- The page maps of tasks whose pages are left alone. -/
theorem space?_frame (hframe : ∀ x ∈ ts, ∀ a ∈ x.2.areas, a.mapType = .anonymous →
    ∀ p ∈ a.pages.values, k'.mem p = k.mem p) (j : ℕ) :
    World.space? ⟨k', ts⟩ j = World.space? ⟨k, ts⟩ j := by
  unfold World.space?
  dsimp only
  cases hl : ts.lookup j with
  | none => rfl
  | some t =>
    obtain ⟨l₁, l₂, he, -⟩ := List.lookup_eq_some_iff.mp hl
    rw [Option.map_some, Option.map_some, space_frame (hframe (j, t) (by simp [he]))]

theorem space?_live (hframe : ∀ p ∈ Spaces.livePages (ts.map Prod.snd) ++ img.pages,
    k'.mem p = k.mem p) (j : ℕ) : World.space? ⟨k', ts⟩ j = World.space? ⟨k, ts⟩ j :=
  space?_frame (fun _ hx _ ha _ p hp => hframe p (List.mem_append_left _
    (Spaces.mem_livePages_of_mem (List.mem_map_of_mem hx) (mem_pages_of_mem_area ha hp)))) j

/-- The page map of a new task. -/
theorem space?_created (h : InOrder img first ⟨k, ts⟩) {elf : Elf} (hlinked : WellLinked elf)
    (hnew : newUser k img.root elf = (.ok s, k')) (j : ℕ) :
    World.space? ⟨k', (id, s) :: ts⟩ j =
      if j = id then some (elfSpace elf) else World.space? ⟨k, ts⟩ j := by
  obtain ⟨hl, -, hview, -⟩ := h.created hlinked hnew
  by_cases hj : j = id
  · subst hj
    rw [if_pos rfl, World.space?, List.lookup_cons, beq_self_eq_true]
    show some (VMSpace.space k'.mem s) = _
    rw [VMSpace.space, hview]
    rfl
  · rw [if_neg hj, ← space?_live hl.frame j, World.space?, World.space?, List.lookup_cons,
      beq_false_of_ne hj]

/-- The page maps when a task has ended. -/
theorem space?_ended (h : InOrder img first ⟨k, A ++ (id, s) :: B⟩) (j : ℕ) :
    World.space? ⟨VMSpace.drop k s, A ++ B⟩ j =
      if j = id then none else World.space? ⟨k, A ++ (id, s) :: B⟩ j := by
  rw [space?_frame (k := k) fun _ _ _ _ _ p _ => by rw [VMSpace.drop, Phys.dropPages_mem]]
  unfold World.space?
  dsimp only
  by_cases hj : j = id
  · subst hj
    rw [if_pos rfl, lookup_none h.ids]
    rfl
  · rw [if_neg hj, lookup_other hj]

/-- **Tasks are independent.**  No step changes the page map of another task, and none leaves that
of its own task other than promised. -/
theorem independent : Independent (Step img.root img.pages) (InOrder img first) World.space?
    AddressSpace.Step where
  keeps h hstep := hstep.inOrder h
  others := by
    intro w l w' h hstep j hj
    cases hstep with
    | created k ts id elf s k' hlinked hfresh hnew =>
      rw [space?_created h hlinked hnew, if_neg fun he => hj (congrArg some he.symm)]
    | notCreated k ts elf e k' hlinked hnew => exact space?_live (h.notCreated hlinked hnew) j
    | mmap k A B id s addr len prot code s' hcall =>
      have hframe : ∀ p ∈ othersPages img A B, k.mem p = k.mem p := fun _ _ => rfl
      exact space?_other hframe (fun he => hj (congrArg some he.symm)) s s'
    | munmap k A B id s addr len code k' s' hcall =>
      obtain ⟨code', k'', s'', hcall', -, hk, -⟩ := munmap_step h.tidy addr len
      obtain ⟨-, hks⟩ := Prod.mk.inj (hcall.symm.trans hcall')
      obtain ⟨rfl, rfl⟩ := Prod.mk.inj hks
      exact space?_other hk.frame (fun he => hj (congrArg some he.symm)) s s'
    | load => rfl
    | store k A B id s va byte hva hpermits hbyte =>
      obtain ⟨-, hk, -⟩ := store_step h.tidy hva hpermits hbyte
      exact space?_other hk.frame (fun he => hj (congrArg some he.symm)) s s
    | fault k A B id s va access res k' s' hva hnot hfault =>
      obtain ⟨res', k'', s'', hfault', -, ht, hk, hspace⟩ := fault_silent h.tidy hva hnot
      obtain ⟨-, hks⟩ := Prod.mk.inj (hfault.symm.trans hfault')
      obtain ⟨rfl, rfl⟩ := Prod.mk.inj hks
      by_cases he : j = id
      · subst he
        rw [space?_mid h.ids, space?_mid (h.replace ht hk).ids, hspace]
      · exact space?_other hk.frame he s s'
    | ended k A B id s =>
      rw [space?_ended h, if_neg fun he => hj (congrArg some he.symm)]
    | quiet w m' hq => exact space?_frame hq.data j
  created := by
    intro w w' j space h hstep
    cases hstep with
    | created k ts id elf s k' hlinked hfresh hnew => rw [space?_created h hlinked hnew, if_pos rfl]
  acted := by
    intro w w' j e h hstep
    have h' := hstep.inOrder h
    cases hstep with
    | mmap k A B id s addr len prot code s' hcall =>
      obtain ⟨code', s'', hcall', -, -, hact⟩ :=
        mmap_step h.tidy (h.nonempty (j, s) (by simp)) addr len prot
      obtain ⟨hcode, rfl⟩ := Prod.mk.inj (hcall.symm.trans hcall')
      obtain rfl := Except.ok.inj hcode
      exact ⟨_, _, space?_mid h.ids, space?_mid h'.ids, hact⟩
    | munmap k A B id s addr len code k' s' hcall =>
      obtain ⟨code', k'', s'', hcall', -, -, hact⟩ := munmap_step h.tidy addr len
      obtain ⟨hcode, hks⟩ := Prod.mk.inj (hcall.symm.trans hcall')
      obtain ⟨rfl, rfl⟩ := Prod.mk.inj hks
      obtain rfl := Except.ok.inj hcode
      exact ⟨_, _, space?_mid h.ids, space?_mid h'.ids, hact⟩
    | load k A B id s va hva hpermits =>
      exact ⟨_, _, space?_mid h.ids, space?_mid h.ids, load_step h.tidy hva hpermits⟩
    | store k A B id s va byte hva hpermits hbyte =>
      obtain ⟨-, -, hact⟩ := store_step h.tidy hva hpermits hbyte
      exact ⟨_, _, space?_mid h.ids, space?_mid h'.ids, hact⟩
  removed := by
    intro w w' j h hstep
    cases hstep with
    | ended k A B id s => rw [space?_ended h, if_pos rfl]

/-! ### From boot -/

theorem inOrder_boot (h : k.Accounted first img.pages) (hm : img.mem = k.mem) :
    InOrder img first ⟨k, []⟩ :=
  ⟨Spaces.inOrder_boot h hm, fun _ hx => (List.not_mem_nil hx).elim,
    fun _ hx => (List.not_mem_nil hx).elim, List.nodup_nil⟩

/-- **Every task has its own memory.**  After any steps from boot, what a task finds in its space is
the result of its file and of its own calls and stores, in their order, on a page map; every load
returned the byte of that page map, and every call the code. -/
theorem tasks_live (layout : Layout) (m₀ : Mem) {a₀ : PageAllocator} {k : Phys} {t : RootPgt}
    (halloc : initialAllocator layout.kernelEnd.toNat = some a₀)
    (hinit : initKernelSatp layout ⟨m₀, a₀⟩ = (.ok t, k)) {log : List (Label ℕ AddressSpace Action)}
    {w : World} (hrun : Run (Step t.ppn t.pages) ⟨k, []⟩ log w) (id : ℕ) :
    Option.Rel (fun x space => Accepts AddressSpace.Step x.1 x.2 space) (life id log)
      (w.space? id) := by
  obtain ⟨img, hroot, hmem, hpages, hacc⟩ :=
    initKernelSatp_image layout (accounted_initial layout m₀ halloc) hinit
  rw [← hroot, ← hpages] at hrun
  exact independent.lives (inOrder_boot hacc hmem) (fun _ => rfl) hrun id

theorem bare_linked : WellLinked bareElf := by
  constructor
  · intro file hfile a ha
    obtain rfl := Except.ok.inj hfile
    exact (List.not_mem_nil ha).elim
  · intro file hfile a ha
    obtain rfl := Except.ok.inj hfile
    exact (List.not_mem_nil ha).elim

/-- A first task is created; it may load from and store to the last page of its stack. -/
theorem bare_created : ∃ img t k k' s,
    initKernelSatp sampleLayout ⟨fun _ _ => 0, ⟨0x80500, 0x88000, []⟩⟩ = (.ok t, k) ∧
      img.root = t.ppn ∧ img.pages = t.pages ∧ InOrder img 0x80500 ⟨k', [(7, s)]⟩ ∧
      Run (Step t.ppn t.pages) ⟨k, []⟩ [.created 7 (elfSpace bareElf)] ⟨k', [(7, s)]⟩ ∧
      ∀ access, Permits k'.mem s.rootPgt.ppn (2 ^ 38 - 8192) access := by
  obtain ⟨t, k, hinit, hmap⟩ := initKernelSatp_mapping sampleLayout_linked (fun _ _ => 0)
    sampleLayout_allocator (show _ + 73 + 5 ≤ _ by decide)
  obtain ⟨img, hroot, hmem, hpages, hacc⟩ :=
    initKernelSatp_image sampleLayout (accounted_initial _ _ sampleLayout_allocator) hinit
  have hboot := inOrder_boot hacc hmem
  obtain ⟨s, k', hnew, -⟩ := newUser_bare (fun _ hp => hp) hacc hboot.system.intact
    (by have := hmap.room; omega)
  have hcreated : Step img.root img.pages ⟨k, []⟩ (.created 7 (elfSpace bareElf))
      ⟨k', [(7, s)]⟩ := .created k [] 7 _ s k' bare_linked List.not_mem_nil hnew
  have hin := hcreated.inOrder hboot
  obtain ⟨-, hspace, -, -⟩ := hboot.created bare_linked hnew
  obtain ⟨file, segments, -, -, -, pageU, pageK, hareas, -⟩ := hspace.file
  have hstack : userStack pageU ∈ s.areas := by simp [hareas]
  have hok : SpaceOk img k'.mem s := hin.system.spaces s (List.mem_singleton_self s)
  have hvpn : (2 ^ 38 - 8192) / 4096 < userEndVpn := by decide
  have hav : (userStack pageU).containVpn ((2 ^ 38 - 8192) / 4096) = true := by
    rw [VMArea.containVpn_iff]
    exact ⟨show userEndVpn - 2048 ≤ _ by decide, hvpn⟩
  have hheld : s.Holds ((2 ^ 38 - 8192) / 4096) pageU :=
    ⟨userStack pageU, hstack, hav, BTreeMap.get?_eq_some.mp BTreeMap.get?_insert⟩
  rw [hroot, hpages] at hcreated
  refine ⟨img, t, k, k', s, hinit, hroot, hpages, hin, .step .start hcreated, fun access => ?_⟩
  refine (permits_iff_granted hok hvpn ((hok.agrees.valid_iff _ hvpn).mpr ⟨pageU, hheld⟩)).mpr
    ⟨userStack pageU, hstack, hav, ?_⟩
  show access.minPermissions &&& (permissionR ||| permissionW ||| permissionU) = _
  cases access <;> decide

/-- A task is created and maps two pages. -/
theorem tasks_live_bare : ∃ t k w code,
    initKernelSatp sampleLayout ⟨fun _ _ => 0, ⟨0x80500, 0x88000, []⟩⟩ = (.ok t, k) ∧
      Run (Step t.ppn t.pages) ⟨k, []⟩
        [.created 7 (elfSpace bareElf), .acted 7 (.mmap 0x10000 8192 3 code)] w ∧
      Option.Rel (fun x space => Accepts AddressSpace.Step x.1 x.2 space)
        (life 7 [.created 7 (elfSpace bareElf), .acted 7 (.mmap 0x10000 8192 3 code)])
        (w.space? 7) := by
  obtain ⟨img, t, k, k', s, hinit, -, -, hin, hrun, -⟩ := bare_created
  obtain ⟨code, s', hmmap, -⟩ := mmap_step (@InOrder.tidy _ _ _ [] [] 7 s hin)
    (hin.nonempty (7, s) (List.mem_singleton_self _)) 0x10000 8192 3
  have hrun' := hrun.step (.mmap k' [] [] 7 s 0x10000 8192 3 code s' hmmap)
  exact ⟨t, k, _, code, hinit, hrun', tasks_live sampleLayout _ sampleLayout_allocator hinit hrun' 7⟩

end RCoreKernel.Syscall.Tasks
