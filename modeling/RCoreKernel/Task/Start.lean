import RCoreKernel.Mm.Accounting
import RCoreKernel.Mm.Spaces
import RCoreKernel.Task.Run

/-!
# From boot to the first task (`task::start` and `add_task` in `os/src/task.rs`)

`start` adds one task for each application and calls `run_next_task`.  The trap context that
`add_task` writes to the new kernel stack is where the thread pointer of the task refers to; the
scheduler only reads its id.  Kernel stacks are pages that `new_user` took from the allocator, so
two tasks never share a thread pointer.

* `addTasks_booted` — the tasks are listed under different ids, each with its own trap context;
* `schedule_sound` — **the scheduler along every run from boot**.
-/

namespace RCoreKernel.Task

open Mm Mm.VMSpace

/-- `size_of::<TrapContext>()`. -/
def sizeOfTrapContext : ℕ := 280

/-- The kernel while it adds tasks. -/
structure Boot where
  phys : Phys
  nextTaskId : ℕ
  kernel : Kernel VMSpace

/-- `add_task`; `none` is the failed `expect`. -/
def addTask (kernelRoot restoreUCtx : ℕ) (b : Boot) (elf : Elf) : Option Boot :=
  match newUser b.phys kernelRoot elf with
  | (.ok vmSpace, k) =>
    let kernelSp := vmSpace.kStackEnd - sizeOfTrapContext
    let tcb := TaskControlBlock.newReady b.nextTaskId vmSpace restoreUCtx kernelSp kernelSp
      vmSpace.rootPgt.getSatp
    some ⟨k, wrap (b.nextTaskId + 1),
      { b.kernel with
        allTasks := b.kernel.allTasks ++ [tcb]
        taskIdAt := Function.update b.kernel.taskIdAt kernelSp tcb.taskId }⟩
  | _ => none

/-- The loop of `start`. -/
def addTasks (kernelRoot restoreUCtx : ℕ) : List Elf → Boot → Option Boot
  | [], b => some b
  | elf :: apps, b => (addTask kernelRoot restoreUCtx b elf).bind (addTasks kernelRoot restoreUCtx apps)

/-- The tasks `1` to `n` have been added. -/
structure Added (first : ℕ) (kernelPages : List ℕ) (n : ℕ) (b : Boot) : Prop where
  accounted : b.phys.Accounted first
    ((b.kernel.allTasks.flatMap fun t => t.vmSpace.pages) ++ kernelPages)
  ids : b.kernel.allTasks.map (fun t => t.taskId) = List.range' 1 n
  next : b.nextTaskId = wrap (n + 1)
  ready : ∀ t ∈ b.kernel.allTasks, t.state = .ready
  kernelStacks : ∀ t ∈ b.kernel.allTasks, ∃ page ∈ t.vmSpace.pages,
    t.context.tp = (page + 1) * 4096 + kernelVaOffset - sizeOfTrapContext ∧
      b.kernel.taskIdAt t.context.tp = t.taskId
  tp : b.kernel.tp = 0

variable {first n kernelRoot restoreUCtx : ℕ} {kernelPages : List ℕ} {b b' : Boot} {elf : Elf}

/-- One call of `add_task`. -/
theorem Added.addTask (h : Added first kernelPages n b) (hn : n + 1 < 2 ^ 64)
    (hadd : addTask kernelRoot restoreUCtx b elf = some b') :
    Added first kernelPages (n + 1) b' := by
  unfold Task.addTask at hadd
  split at hadd
  swap
  · cases hadd
  rename_i vmSpace k hnew
  obtain rfl := Option.some.inj hadd
  dsimp only
  obtain ⟨hacc, page, hpage, hstack⟩ := newUser_accounted h.accounted hnew
  have hid : b.nextTaskId = n + 1 := by rw [h.next, wrap_of_lt hn]
  -- the kernel stacks of the tasks before lie in other pages
  have hfresh : ∀ t ∈ b.kernel.allTasks, t.context.tp ≠ vmSpace.kStackEnd - sizeOfTrapContext := by
    intro t ht he
    obtain ⟨page', hpage', htp, -⟩ := h.kernelStacks t ht
    have hsame : page' = page := by
      rw [htp, hstack] at he
      unfold sizeOfTrapContext at he
      omega
    rw [hsame] at hpage'
    exact (List.nodup_append.mp hacc.ledger.held_nodup).2.2 page hpage page
      (List.mem_append_left _ (List.mem_flatMap.mpr ⟨t, ht, hpage'⟩)) rfl
  refine ⟨?_, ?_, ?_, fun t ht => ?_, fun t ht => ?_, h.tp⟩
  · refine hacc.congr ?_
    simp only [TaskControlBlock.newReady, List.flatMap_append, List.flatMap_cons,
      List.flatMap_nil, List.append_nil, List.append_assoc]
    exact List.perm_append_comm_assoc _ _ _
  · rw [List.map_append, h.ids, List.range'_concat]
    simp [TaskControlBlock.newReady, hid, Nat.add_comm]
  · rw [hid]
  · rcases List.mem_append.mp ht with ht | ht
    · exact h.ready t ht
    · rw [List.mem_singleton.mp ht]
      rfl
  · rcases List.mem_append.mp ht with ht | ht
    · obtain ⟨page', hpage', htp, hslot⟩ := h.kernelStacks t ht
      refine ⟨page', hpage', htp, ?_⟩
      dsimp only
      rw [Function.update_of_ne (hfresh t ht), hslot]
    · rw [List.mem_singleton.mp ht]
      dsimp only [TaskControlBlock.newReady, TaskContext.newInitial]
      rw [Function.update_self, hstack]
      exact ⟨page, hpage, rfl, rfl⟩

theorem Added.addTasks {apps : List Elf} (h : Added first kernelPages n b)
    (hn : n + apps.length < 2 ^ 64) (hadd : addTasks kernelRoot restoreUCtx apps b = some b') :
    Added first kernelPages (n + apps.length) b' := by
  induction apps generalizing n b with
  | nil =>
    obtain rfl := Option.some.inj hadd
    exact h
  | cons elf apps ih =>
    obtain ⟨b₁, hone, hrest⟩ := Option.bind_eq_some_iff.mp hadd
    rw [List.length_cons] at hn ⊢
    have hall := ih (h.addTask (by omega) hone) (by omega) hrest
    have hlen : n + 1 + apps.length = n + (apps.length + 1) := by omega
    rwa [hlen] at hall

theorem Added.booted (h : Added first kernelPages n b) :
    Booted (List.range' 1 n) b.kernel := by
  refine ⟨⟨?_, fun id => ?_, fun t ht => ?_⟩, h.ready, h.tp⟩
  · rw [h.ids]
    exact List.nodup_range' 1 (by decide)
  · rw [h.ids]
    simp
  · obtain ⟨page, -, htp, hslot⟩ := h.kernelStacks t ht
    refine ⟨?_, hslot⟩
    have hoff : kernelVaOffset = 18446743798831644672 := rfl
    rw [htp]
    unfold sizeOfTrapContext
    omega

/-- **After `start` has added its tasks.** -/
theorem addTasks_booted {k : Phys} (hacc : k.Accounted first kernelPages) (slots : ℕ → ℕ)
    {apps : List Elf} (hn : apps.length < 2 ^ 64)
    (hadd : addTasks kernelRoot restoreUCtx apps ⟨k, 1, ⟨[], 0, slots⟩⟩ = some b) :
    Booted (List.range' 1 apps.length) b.kernel := by
  have hnone : Added first kernelPages 0 ⟨k, 1, ⟨[], 0, slots⟩⟩ :=
    ⟨hacc, rfl, rfl, fun t ht => (List.not_mem_nil ht).elim,
      fun t ht => (List.not_mem_nil ht).elim, rfl⟩
  have hall := hnone.addTasks (by omega) hadd
  rw [Nat.zero_add] at hall
  exact hall.booted

/-- **The scheduler along every run from boot.**  With `tp = 0` at the entry, `start` and
`run_next_task` do not panic once the tasks have been added, and they shut down at once only when
there are no tasks.  At every later point, for every order of actions and every value of the
clock, the listed tasks are those that have not ended, exactly the one switched to is running, no
action of it panics, and the kernel shuts down only when all tasks have ended. -/
theorem schedule_sound (layout : Layout) (m₀ : Mem) {a₀ : PageAllocator} {k : Phys} {t : RootPgt}
    (halloc : initialAllocator layout.kernelEnd.toNat = some a₀)
    (hinit : initKernelSatp layout ⟨m₀, a₀⟩ = (.ok t, k)) (restoreUCtx retAddr : ℕ)
    (slots : ℕ → ℕ) (apps : List Elf) (hn : apps.length < 2 ^ 64) {b : Boot}
    (hadd : addTasks t.ppn restoreUCtx apps ⟨k, 1, ⟨[], 0, slots⟩⟩ = some b) :
    (∀ clock : Clock, ∃ sw,
      b.kernel.runNextTask clock.takeCurr clock.takeNext clock.runStart = .ok sw ∧
        ∀ dropped tasks, sw = .shutdown dropped tasks → apps = []) ∧
      ∀ next st log, Run b.kernel retAddr (fun _ => True) next st log →
        Scheduled (List.range' 1 apps.length) next st log := by
  obtain ⟨img, -, -, -, hacc⟩ :=
    initKernelSatp_image layout (accounted_initial layout m₀ halloc) hinit
  have hboot := addTasks_booted hacc slots hn hadd
  refine ⟨fun clock => ?_, fun next st log hrun => hrun.scheduled hboot⟩
  rcases hboot.continues clock with ⟨_, hstop, hall⟩ | ⟨_, _, _, _, -, hsw, -⟩
  · refine ⟨_, hstop, fun _ _ _ => ?_⟩
    cases apps with
    | nil => rfl
    | cons elf apps => exact (List.not_mem_nil (hall 1 (by simp))).elim
  · refine ⟨_, hsw, fun _ _ he => ?_⟩
    cases he

/-! ### A small instance -/

/-- Tasks without segments can be added while there are five pages for each. -/
theorem addTasks_bare {img : KernelImage} {ss : List VMSpace} (hin : Spaces.InOrder img first ⟨b.phys, ss⟩)
    (restoreUCtx n : ℕ) (hroom : 5 * n ≤ b.phys.available) :
    ∃ b', addTasks img.root restoreUCtx (List.replicate n bareElf) b = some b' := by
  induction n generalizing b ss with
  | zero => exact ⟨b, rfl⟩
  | succ n ih =>
    obtain ⟨s, k', hnew, hav, hin', -⟩ := hin.newUser_bare (by omega)
    rw [List.replicate_succ, addTasks, addTask, hnew, Option.bind_some]
    exact ih hin' (by dsimp only; omega)

/-- A kernel with any number of tasks without segments comes up, if memory is large enough. -/
theorem bare_starts (restoreUCtx n : ℕ) (hn : 73 + 5 * n ≤ 0x88000 - 0x80500) : ∃ t k b,
    initKernelSatp sampleLayout ⟨fun _ _ => 0, ⟨0x80500, 0x88000, []⟩⟩ = (.ok t, k) ∧
      addTasks t.ppn restoreUCtx (List.replicate n bareElf) ⟨k, 1, ⟨[], 0, fun _ => 0⟩⟩ = some b := by
  obtain ⟨t, k, hinit, hmap⟩ := initKernelSatp_mapping sampleLayout_linked (fun _ _ => 0)
    sampleLayout_allocator (show 0x80500 + 73 + 5 * n ≤ 0x88000 by omega)
  obtain ⟨img, hroot, hmem, -, hacc⟩ :=
    initKernelSatp_image sampleLayout (accounted_initial _ _ sampleLayout_allocator) hinit
  obtain ⟨b, hb⟩ := addTasks_bare (b := ⟨k, 1, ⟨[], 0, fun _ => 0⟩⟩)
    (Spaces.inOrder_boot hacc hmem) restoreUCtx n (by have := hmap.room; dsimp only; omega)
  rw [hroot] at hb
  exact ⟨t, k, b, hinit, hb⟩

/-- A kernel with one of them comes up. -/
theorem bare_start (restoreUCtx : ℕ) : ∃ t k b,
    initKernelSatp sampleLayout ⟨fun _ _ => 0, ⟨0x80500, 0x88000, []⟩⟩ = (.ok t, k) ∧
      addTasks t.ppn restoreUCtx [bareElf] ⟨k, 1, ⟨[], 0, fun _ => 0⟩⟩ = some b :=
  bare_starts restoreUCtx 1 (by decide)

/-- Three tasks: one is preempted, one yields, one is killed, one exits, and a fifth slice begins. -/
theorem schedule_sound_bare : ∃ t k b next st log,
    initKernelSatp sampleLayout ⟨fun _ _ => 0, ⟨0x80500, 0x88000, []⟩⟩ = (.ok t, k) ∧
      addTasks t.ppn 0 [bareElf, bareElf, bareElf] ⟨k, 1, ⟨[], 0, fun _ => 0⟩⟩ = some b ∧
      Run b.kernel 4 (fun _ => True) next st log ∧
      (log.filterMap fun
        | .out _ _ state _ => some state
        | .start _ _ _ => none) = [.ready, .ready, .killed, .exited] ∧
      Scheduled [1, 2, 3] next st log := by
  obtain ⟨t, k, b, hinit, hb⟩ := bare_starts 0 3 (by decide)
  obtain ⟨hfirst, hruns⟩ := schedule_sound sampleLayout _ sampleLayout_allocator hinit 0 4
    (fun _ => 0) [bareElf, bareElf, bareElf] (by decide) hb
  have hids : [1, 2, 3].Nodup := by decide
  obtain ⟨sw, hsw, hstop⟩ := hfirst ⟨0, 0, 0, 0⟩
  cases sw with
  | shutdown dropped tasks => exact absurd (hstop dropped tasks rfl) (List.cons_ne_nil _ _)
  | switch curr dropped next₁ st₁ =>
    have hrun₁ : Run b.kernel 4 (fun _ => True) next₁ st₁ _ :=
      @Run.start _ _ _ _ ⟨0, 0, 0, 0⟩ _ _ _ _ hsw
    obtain ⟨next₂, st₂, _, hrun₂⟩ := hrun₁.leave (hruns _ _ _ hrun₁) hids (a := .timer) trivial rfl
      ⟨10, 11, 12, 13⟩ ⟨[], 4, 0⟩ rfl (by simp [goneAfter, ended, TaskState.isEnd])
    obtain ⟨next₃, st₃, _, hrun₃⟩ := hrun₂.leave (hruns _ _ _ hrun₂) hids (a := .yield) trivial rfl
      ⟨20, 21, 22, 23⟩ ⟨[], 4, 0⟩ rfl (by simp [goneAfter, ended, TaskState.isEnd])
    obtain ⟨next₄, st₄, _, hrun₄⟩ := hrun₃.leave (hruns _ _ _ hrun₃) hids (a := .kill) trivial rfl
      ⟨30, 31, 32, 33⟩ ⟨[], 4, 0⟩ rfl (by simp [goneAfter, ended, TaskState.isEnd])
    obtain ⟨next₅, st₅, _, hrun₅⟩ := hrun₄.leave (hruns _ _ _ hrun₄) hids (a := .exit) trivial rfl
      ⟨40, 41, 42, 43⟩ ⟨[], 4, 0⟩ rfl (by simp [goneAfter, ended, TaskState.isEnd])
    exact ⟨t, k, b, next₅, st₅, _, hinit, hb, hrun₅, rfl, hruns _ _ _ hrun₅⟩

end RCoreKernel.Task
