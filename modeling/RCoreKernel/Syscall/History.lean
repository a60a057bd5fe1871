import RCoreKernel.Syscall.Tasks

/-!
# What a task remembers

From the page maps of the tasks: a byte stays what it was last made, by a store of the task or as
part of a new page, and a page that is unmapped is out of reach until the task maps it again.  What
other tasks do in between does not matter, nor do page faults of any task.

* `load_last_set` — **a load returns what the task itself last put there**;
* `gone_until_mapped` — **there is no access after `munmap`, and the pages can be mapped again**;
* `unmap_undoes` — **what a task does with pages that it maps is undone when it unmaps them**.
-/

namespace RCoreKernel.Syscall

open Mm Mm.VMSpace Mm.RootPgt Radix Components

/-! ### Actions and bytes -/

/-- The action makes the byte at `va` what it says. -/
def Action.Sets (va byte : ℕ) : Action → Prop
  | .mmap addr len _ code => code = 0 ∧ va / 4096 ∈ claimed addr len ∧ byte = 0
  | .munmap .. => False
  | .load .. => False
  | .store va' byte' => va' = va ∧ byte' = byte

/-- The action leaves the byte at `va` alone. -/
def Action.Spares (va : ℕ) : Action → Prop
  | .mmap .. => True
  | .munmap addr len code => code = 0 → va / 4096 ∉ touched addr len
  | .load .. => True
  | .store va' _ => va' ≠ va

/-- The action does not map a page of `S`. -/
def Action.MapsNone (S : Set ℕ) : Action → Prop
  | .mmap addr len _ code => code = 0 → ∀ v ∈ claimed addr len, v ∉ S
  | .munmap .. => True
  | .load .. => True
  | .store .. => True

/-- The action changes pages of `S` only. -/
def Action.Within (S : Set ℕ) : Action → Prop
  | .mmap addr len _ code => code = 0 → claimed addr len ⊆ S
  | .munmap addr len code => code = 0 → touched addr len ⊆ S
  | .load .. => True
  | .store va _ => va / 4096 ∈ S

variable {f f' : AddressSpace} {e : Action} {va byte : ℕ} {S : Set ℕ}

theorem Action.Sets.read (h : e.Sets va byte) (hstep : AddressSpace.Step f e f') :
    f'.read (va / 4096) (va % 4096) = some byte := by
  cases hstep with
  | mmap _ =>
    obtain ⟨-, hin, rfl⟩ := h
    exact PageMap.read_add hin
  | mmapRefused _ => exact absurd h.1 (by decide)
  | munmap _ => exact h.elim
  | munmapRefused _ => exact h.elim
  | load _ _ => exact h.elim
  | store hgrants =>
    obtain ⟨rfl, rfl⟩ := h
    obtain ⟨page, hpage, -⟩ := hgrants
    refine PageMap.read_write_same ?_
    rw [hpage]
    exact Option.some_ne_none _

theorem Action.Spares.read (hread : f.read (va / 4096) (va % 4096) = some byte) (h : e.Spares va)
    (hstep : AddressSpace.Step f e f') : f'.read (va / 4096) (va % 4096) = some byte := by
  cases hstep with
  | mmap hfits =>
    -- a page that is there is not claimed again
    rw [PageMap.read_add_of_notMem, hread]
    intro hin
    rw [PageMap.read, hfits.2.2 _ hin] at hread
    cases hread
  | mmapRefused _ => exact hread
  | munmap _ => rw [PageMap.read_remove_of_notMem (h rfl), hread]
  | munmapRefused _ => exact hread
  | load _ _ => exact hread
  | @store va' _ _ =>
    rw [PageMap.read_write_other, hread]
    by_contra hsame
    have hne : va' ≠ va := h
    omega

theorem Action.MapsNone.free (hfree : f.Free S) (h : e.MapsNone S)
    (hstep : AddressSpace.Step f e f') : f'.Free S := by
  cases hstep with
  | mmap _ => exact fun v hv => (PageMap.add_of_notMem fun hin => h rfl v hin hv).trans (hfree v hv)
  | mmapRefused _ => exact hfree
  | munmap _ => exact hfree.remove
  | munmapRefused _ => exact hfree
  | load _ _ => exact hfree
  | store _ => exact hfree.write

theorem Action.Within.remove (h : e.Within S) (hstep : AddressSpace.Step f e f') :
    f'.remove S = f.remove S := by
  cases hstep with
  | mmap _ => exact PageMap.remove_add (h rfl)
  | mmapRefused _ => rfl
  | munmap _ => exact PageMap.remove_remove (h rfl)
  | munmapRefused _ => rfl
  | load _ _ => rfl
  | store _ => exact PageMap.remove_write h

/-- A free page grants no access. -/
theorem not_grants_of_free (h : f.Free S) (hva : va / 4096 ∈ S) (access : Access) :
    ¬f.Grants va access := by
  rintro ⟨page, hpage, -⟩
  rw [h _ hva] at hpage
  cases hpage

end RCoreKernel.Syscall

namespace RCoreKernel.Syscall.Tasks

open Mm Mm.VMSpace Mm.RootPgt Radix Components

/-! ### Along a run -/

/-- In this part of the log the task only acts, as `P` says. -/
def OnlyActs (id : ℕ) (P : Action → Prop) (log : List (Label ℕ AddressSpace Action)) : Prop :=
  ∀ l ∈ log, l.component? = some id → ∃ e, l = .acted id e ∧ P e

variable {img : KernelImage} {first id : ℕ} {w₀ w w' : World} {e : Action} {P : Action → Prop}
  {Q : AddressSpace → Prop} {before between : List (Label ℕ AddressSpace Action)}

/-- What an action of a task makes true stays true until another one of its actions breaks it. -/
theorem since (hinit : InOrder img first w₀)
    (hrun : Run (Step img.root img.pages) w₀ (before ++ .acted id e :: between) w)
    (hmade : ∀ {f f'}, AddressSpace.Step f e f' → Q f')
    (hkept : ∀ {f e f'}, Q f → P e → AddressSpace.Step f e f' → Q f')
    (hbetween : OnlyActs id P between) :
    InOrder img first w ∧ ∃ space, w.space? id = some space ∧ Q space := by
  have hin := independent.inv_of_run hinit hrun
  rw [List.append_cons] at hrun
  obtain ⟨w₂, h₂, hrest⟩ := hrun.split
  obtain ⟨w₁, h₁, hstep⟩ := h₂.last
  obtain ⟨_, space, -, hspace, hact⟩ := independent.acted (independent.inv_of_run hinit h₁) hstep
  exact ⟨hin, independent.maintains hkept (independent.inv_of_run hinit h₂) hrest hbetween
    ⟨space, hspace, hmade hact⟩⟩

/-- **A load returns what was last put there.**  The byte at `va` was made `byte`, by a store or as
part of a page mapped by `mmap`; since then the task has not unmapped the page nor stored to `va`.
Whatever other tasks have done and whichever faults there have been, a load gets `byte`. -/
theorem load_last_set (layout : Layout) (m₀ : Mem) {a₀ : PageAllocator} {k : Phys} {t : RootPgt}
    (halloc : initialAllocator layout.kernelEnd.toNat = some a₀)
    (hinit : initKernelSatp layout ⟨m₀, a₀⟩ = (.ok t, k))
    (before between : List (Label ℕ AddressSpace Action)) {va byte byte' : ℕ}
    (hrun : Run (Step t.ppn t.pages) ⟨k, []⟩
      ((before ++ .acted id e :: between) ++ [.acted id (.load va byte')]) w)
    (hset : e.Sets va byte) (hbetween : OnlyActs id (Action.Spares va) between) : byte' = byte := by
  obtain ⟨img, hroot, hmem, hpages, hacc⟩ :=
    initKernelSatp_image layout (accounted_initial layout m₀ halloc) hinit
  rw [← hroot, ← hpages] at hrun
  obtain ⟨w₁, hrun₁, hstep⟩ := hrun.last
  obtain ⟨hin, space, hspace, hread⟩ := since (inOrder_boot hacc hmem) hrun₁ hset.read
    Action.Spares.read hbetween
  obtain ⟨space', _, hspace', -, hact⟩ := independent.acted hin hstep
  obtain rfl := Option.some.inj (hspace.symm.trans hspace')
  cases hact with
  | load _ hgot => exact Option.some.inj (hgot.symm.trans hread)

/-- A byte on the stack of the first task. -/
theorem load_last_set_bare : ∃ t k w byte,
    initKernelSatp sampleLayout ⟨fun _ _ => 0, ⟨0x80500, 0x88000, []⟩⟩ = (.ok t, k) ∧
      Run (Step t.ppn t.pages) ⟨k, []⟩ [.created 7 (elfSpace bareElf),
        .acted 7 (.store (2 ^ 38 - 8192) 5), .acted 7 (.load (2 ^ 38 - 8192) byte)] w ∧
      byte = 5 := by
  obtain ⟨img, t, k, k', s, hinit, hroot, hpages, hin, hrun, hpermits⟩ := bare_created
  have hva : checkUVa (2 ^ 38 - 8192) = true := by decide
  have hrun₁ := hrun.step (.store k' [] [] 7 s _ 5 hva (hpermits .store) (by decide))
  have ht := @InOrder.tidy _ _ _ [] [] 7 s hin
  have hload := hpermits .load
  have hpte := @pteAt_tables _ _ { k' with mem := storeByte k'.mem _ _ 5 } _ ht.ok
    (ht.stored (vpn_lt_of_check hva) hload.1 5).2.2 _ (vpn_lt_of_check hva)
  have hload' : Permits _ s.rootPgt.ppn (2 ^ 38 - 8192) .load := ⟨hpte ▸ hload.1, hpte ▸ hload.2⟩
  have hrun₂ := hrun₁.step (.load _ [] [] 7 s _ hva hload')
  exact ⟨t, k, _, _, hinit, hrun₂, load_last_set sampleLayout _ sampleLayout_allocator hinit
    [_] [] hrun₂ ⟨rfl, rfl⟩ fun _ hl => (List.not_mem_nil hl).elim⟩

/-- **There is no access after `munmap`**, until the task has mapped one of the pages again; and it
can map them again. -/
theorem gone_until_mapped (layout : Layout) (m₀ : Mem) {a₀ : PageAllocator} {k : Phys} {t : RootPgt}
    (halloc : initialAllocator layout.kernelEnd.toNat = some a₀)
    (hinit : initKernelSatp layout ⟨m₀, a₀⟩ = (.ok t, k))
    (before between : List (Label ℕ AddressSpace Action)) {addr len : ℕ}
    (hrun : Run (Step t.ppn t.pages) ⟨k, []⟩
      (before ++ .acted id (.munmap addr len 0) :: between) w)
    (hbetween : OnlyActs id (Action.MapsNone (touched addr len)) between) :
    (∀ va byte w', va / 4096 ∈ touched addr len →
      ¬Step t.ppn t.pages w (.acted id (.load va byte)) w' ∧
      ¬Step t.ppn t.pages w (.acted id (.store va byte)) w') ∧
    ∀ prot code w', 0 < len → mmapAccepts addr len prot = true →
      Step t.ppn t.pages w (.acted id (.mmap addr len prot code)) w' → code = 0 := by
  obtain ⟨img, hroot, hmem, hpages, hacc⟩ :=
    initKernelSatp_image layout (accounted_initial layout m₀ halloc) hinit
  rw [← hroot, ← hpages] at hrun ⊢
  have hmade : ∀ {f f' : AddressSpace}, AddressSpace.Step f (.munmap addr len 0) f' →
      f'.Free (touched addr len) := by
    intro f f' hstep
    cases hstep with
    | munmap _ => exact PageMap.free_remove
  obtain ⟨hin, space, hspace, hfree⟩ := since (inOrder_boot hacc hmem) hrun hmade
    Action.MapsNone.free hbetween
  have hacts : ∀ {e w'}, Step img.root img.pages w (.acted id e) w' →
      ∃ space', AddressSpace.Step space e space' := by
    intro e w' hstep
    obtain ⟨space₁, space', hspace₁, -, hact⟩ := independent.acted hin hstep
    obtain rfl := Option.some.inj (hspace.symm.trans hspace₁)
    exact ⟨space', hact⟩
  refine ⟨fun va byte w' hva => ⟨fun hstep => ?_, fun hstep => ?_⟩,
    fun prot code w' hlen haccept hstep => ?_⟩
  · obtain ⟨space', hact⟩ := hacts hstep
    cases hact with
    | load hgrants _ => exact not_grants_of_free hfree hva .load hgrants
  · obtain ⟨space', hact⟩ := hacts hstep
    cases hact with
    | store hgrants => exact not_grants_of_free hfree hva .store hgrants
  · obtain ⟨space', hact⟩ := hacts hstep
    have hsame : ∀ v, v ∈ touched addr len ↔ v ∈ claimed addr len := fun v => touched_iff hlen
    cases hact with
    | mmap _ => rfl
    | mmapRefused hno =>
      refine absurd ⟨haccept, ⟨addr / 4096, le_rfl, ?_⟩, fun v hv => hfree v ((hsame v).mpr hv)⟩ hno
      omega

/-- The first task unmaps the last page of its stack. -/
theorem gone_until_mapped_bare : ∃ t k w,
    initKernelSatp sampleLayout ⟨fun _ _ => 0, ⟨0x80500, 0x88000, []⟩⟩ = (.ok t, k) ∧
      Run (Step t.ppn t.pages) ⟨k, []⟩ [.created 7 (elfSpace bareElf),
        .acted 7 (.munmap (2 ^ 38 - 8192) 4096 0)] w ∧
      ∀ byte w', ¬Step t.ppn t.pages w (.acted 7 (.load (2 ^ 38 - 8192) byte)) w' := by
  obtain ⟨img, t, k, k', s, hinit, hroot, hpages, hin, hrun, -⟩ := bare_created
  obtain ⟨code, k'', s', hmunmap, -, -, hact⟩ :=
    munmap_step (@InOrder.tidy _ _ _ [] [] 7 s hin) (2 ^ 38 - 8192) 4096
  have hcode : code = 0 := by
    generalize VMSpace.space k''.mem s' = after at hact
    cases hact with
    | munmap _ => rfl
    | munmapRefused h => exact absurd h (by decide)
  subst hcode
  have hrun' := hrun.step (.munmap k' [] [] 7 s _ _ 0 k'' s' hmunmap)
  refine ⟨t, k, _, hinit, hrun', fun byte w' => ?_⟩
  refine ((gone_until_mapped sampleLayout _ sampleLayout_allocator hinit [_] [] hrun' fun _ hl =>
    (List.not_mem_nil hl).elim).1 _ byte w' ?_).1
  rw [touched_iff (by decide)]
  decide

/-- **Unmapping undoes.**  A task maps pages and unmaps them later; in between it changes these pages
only.  Then `munmap` succeeds, and the memory of the task is what it was before `mmap`. -/
theorem unmap_undoes (layout : Layout) (m₀ : Mem) {a₀ : PageAllocator} {k : Phys} {t : RootPgt}
    (halloc : initialAllocator layout.kernelEnd.toNat = some a₀)
    (hinit : initKernelSatp layout ⟨m₀, a₀⟩ = (.ok t, k))
    (before between : List (Label ℕ AddressSpace Action)) {addr len prot : ℕ} {code : ℤ}
    (hrun : Run (Step t.ppn t.pages) ⟨k, []⟩
      ((before ++ .acted id (.mmap addr len prot 0) :: between) ++ [.acted id (.munmap addr len code)]) w)
    (hlen : 0 < len) (hbetween : OnlyActs id (Action.Within (touched addr len)) between) :
    code = 0 ∧ ∃ w₁, Run (Step t.ppn t.pages) ⟨k, []⟩ before w₁ ∧ w.space? id = w₁.space? id := by
  obtain ⟨img, hroot, hmem, hpages, hacc⟩ :=
    initKernelSatp_image layout (accounted_initial layout m₀ halloc) hinit
  rw [← hroot, ← hpages] at hrun ⊢
  have hinit₀ := inOrder_boot hacc hmem
  obtain ⟨w₃, hrun₃, hlast⟩ := hrun.last
  have hin₃ := independent.inv_of_run hinit₀ hrun₃
  rw [List.append_cons] at hrun₃
  obtain ⟨w₂, hrun₂, hrest⟩ := hrun₃.split
  obtain ⟨w₁, hrun₁, hfirst⟩ := hrun₂.last
  obtain ⟨f₁, f₂, hspace₁, hspace₂, hmmap⟩ :=
    independent.acted (independent.inv_of_run hinit₀ hrun₁) hfirst
  -- outside the range everything is as before, at each moment
  have hclaimed : claimed addr len = touched addr len := by
    ext v
    exact (touched_iff hlen).symm
  have hmade : f₂.remove (touched addr len) = f₁ ∧ checkUVaRange addr len = true := by
    cases hmmap with
    | mmap hfits =>
      rw [hclaimed, PageMap.remove_add subset_rfl]
      exact ⟨(hclaimed ▸ hfits.2.2).remove_eq, (Bool.and_eq_true_iff.mp hfits.1).1⟩
  obtain ⟨f₃, hspace₃, hf₃⟩ := independent.maintains
    (fun hQ hP hstep => (Action.Within.remove hP hstep).trans hQ)
    (independent.inv_of_run hinit₀ hrun₂) hrest hbetween ⟨f₂, hspace₂, hmade.1⟩
  obtain ⟨f₃', f, hspace₃', hspace, hmunmap⟩ := independent.acted hin₃ hlast
  obtain rfl := Option.some.inj (hspace₃.symm.trans hspace₃')
  cases hmunmap with
  | munmap _ => exact ⟨rfl, w₁, hrun₁, by rw [hspace, hspace₁, hf₃]⟩
  | munmapRefused hrange =>
    rw [hmade.2] at hrange
    cases hrange

/-- The first task maps a page that it has unmapped, and unmaps it. -/
theorem unmap_undoes_bare : ∃ t k w w₁ code,
    initKernelSatp sampleLayout ⟨fun _ _ => 0, ⟨0x80500, 0x88000, []⟩⟩ = (.ok t, k) ∧
      Run (Step t.ppn t.pages) ⟨k, []⟩ [.created 7 (elfSpace bareElf),
        .acted 7 (.munmap 0x10000 4096 0), .acted 7 (.mmap 0x10000 4096 3 0),
        .acted 7 (.munmap 0x10000 4096 code)] w ∧
      Run (Step t.ppn t.pages) ⟨k, []⟩ [.created 7 (elfSpace bareElf),
        .acted 7 (.munmap 0x10000 4096 0)] w₁ ∧ code = 0 ∧ w.space? 7 = w₁.space? 7 := by
  obtain ⟨img, t, k, k₁, s₁, hinit, hroot, hpages, hin₁, hrun₁, -⟩ := bare_created
  rw [← hroot, ← hpages] at hrun₁
  obtain ⟨code₂, k₂, s₂, hmunmap₂, -, -, hact₂⟩ :=
    munmap_step (@InOrder.tidy _ _ _ [] [] 7 s₁ hin₁) 0x10000 4096
  have hfree : code₂ = 0 ∧ (s₂.space k₂.mem).Free (touched 0x10000 4096) := by
    generalize VMSpace.space k₂.mem s₂ = after at hact₂
    cases hact₂ with
    | munmap _ => exact ⟨rfl, PageMap.free_remove⟩
    | munmapRefused h => exact absurd h (by decide)
  obtain ⟨rfl, hfree⟩ := hfree
  have hstep₂ : Step img.root img.pages ⟨k₁, [(7, s₁)]⟩ (.acted 7 (.munmap 0x10000 4096 0))
      ⟨k₂, [(7, s₂)]⟩ := .munmap k₁ [] [] 7 s₁ _ _ 0 k₂ s₂ hmunmap₂
  have hrun₂ := hrun₁.step hstep₂
  have hin₂ := hstep₂.inOrder hin₁
  -- the pages are free now
  obtain ⟨code₃, s₃, hmmap₃, -, -, hact₃⟩ := mmap_step (@InOrder.tidy _ _ _ [] [] 7 s₂ hin₂)
    (hin₂.nonempty (7, s₂) (List.mem_singleton_self _)) 0x10000 4096 3
  have hserved : code₃ = 0 := by
    generalize VMSpace.space k₂.mem s₃ = after at hact₃
    cases hact₃ with
    | mmap _ => rfl
    | mmapRefused hno =>
      have hpage : 16 ∈ claimed 0x10000 4096 := ⟨by decide, by decide⟩
      exact absurd ⟨by decide, ⟨16, hpage⟩, fun v hv => hfree v ((touched_iff (by decide)).mpr hv)⟩ hno
  subst hserved
  have hstep₃ : Step img.root img.pages ⟨k₂, [(7, s₂)]⟩ (.acted 7 (.mmap 0x10000 4096 3 0))
      ⟨k₂, [(7, s₃)]⟩ := .mmap k₂ [] [] 7 s₂ _ _ _ 0 s₃ hmmap₃
  obtain ⟨code, k₄, s₄, hmunmap₄, -⟩ :=
    munmap_step (@InOrder.tidy _ _ _ [] [] 7 s₃ (hstep₃.inOrder hin₂)) 0x10000 4096
  have hrun₄ := (hrun₂.step hstep₃).step (.munmap k₂ [] [] 7 s₃ _ _ code k₄ s₄ hmunmap₄)
  rw [hroot, hpages] at hrun₄
  obtain ⟨hcode, w₁, hrun, hsame⟩ := unmap_undoes sampleLayout _ sampleLayout_allocator hinit
    [_, _] [] hrun₄ (by decide) fun _ hl => (List.not_mem_nil hl).elim
  exact ⟨t, k, _, w₁, code, hinit, hrun₄, hrun, hcode, hsame⟩

end RCoreKernel.Syscall.Tasks
