import RCoreKernel.Task.Start

/-!
# What a task that is switched to again resumes with

`run_next_task` hands `__switch` a pointer into the control block of the current task and one into
that of the next task, and both blocks are local variables at that time.  The registers that
`__switch` stores are therefore not in the block that went back to `ALL_TASKS`.

* `Run.contexts` — the contexts in `ALL_TASKS`, and so those that are loaded, are the ones that
  `add_task` put there;
* `switch_reloads_initial` — **a task that was switched out is never resumed where it stopped**: it
  starts at `__restore_u_ctx` each time.
-/

namespace RCoreKernel.Task

open Mm Mm.VMSpace

variable {V : Type} {created : List ℕ} {boot st : Kernel V} {next : TaskControlBlock V}
  {retAddr : ℕ} {allowed : Action V → Prop} {log : List Mark}

/-- The state in which the task was switched out most recently, and what `__switch` stored. -/
def lastOut (taskId : ℕ) (log : List Mark) : Option (TaskState × Saved) :=
  log.reverse.findSome? fun
    | .out id _ state regs => if id = taskId then some (state, regs) else none
    | .start _ _ _ => none

theorem mem_of_lastOut {taskId : ℕ} {state : TaskState} {regs : Saved}
    (h : lastOut taskId log = some (state, regs)) : ∃ time, .out taskId time state regs ∈ log := by
  obtain ⟨m, hm, he⟩ := List.exists_of_findSome?_eq_some h
  cases m with
  | start id time context => cases he
  | out id time state' regs' =>
    simp only [Option.ite_none_right_eq_some, Option.some.injEq, Prod.mk.injEq] at he
    obtain ⟨rfl, rfl, rfl⟩ := he
    exact ⟨time, List.mem_reverse.mp hm⟩

/-- `__switch` stores the return address into `run_next_task`. -/
theorem Run.stored (hrun : Run boot retAddr allowed next st log) {taskId time : ℕ} {state : TaskState}
    {regs : Saved} (hm : .out taskId time state regs ∈ log) : regs.ra = retAddr := by
  induction hrun with
  | start _ => simp at hm
  | stay _ _ _ _ ih => exact ih hm
  | switch _ _ _ _ _ hregs ih =>
    rcases List.mem_append.mp hm with hm | hm
    · exact ih hm
    · simp only [List.mem_cons, Mark.out.injEq, List.not_mem_nil, or_false, reduceCtorEq] at hm
      rw [hm.2.2.2]
      exact hregs

/-- **Contexts never change.**  What holds of all contexts at boot holds of those in `ALL_TASKS` and
of those that are loaded, in every run. -/
theorem Run.contexts (hboot : Booted created boot) {Q : TaskContext → Prop}
    (hQ : ∀ t ∈ boot.allTasks, Q t.context) (hrun : Run boot retAddr allowed next st log) :
    (∀ t ∈ st.allTasks, Q t.context) ∧ ∀ id time context, .start id time context ∈ log → Q context := by
  induction hrun with
  | start h =>
    rename_i clock _ _ _ _
    rcases hboot.continues clock with ⟨_, hstop, -⟩ | ⟨_, _, next', st', hnext, hsw, -, hmem⟩
    · rw [hstop] at h
      cases h
    rw [hsw] at h
    cases h
    have hstarted := hQ _ hnext
    refine ⟨fun t ht => ?_, fun id time context hm => ?_⟩
    · rcases hmem t ht with ht | rfl
      · exact hQ t ht
      · exact hstarted
    · simp only [List.mem_singleton, Mark.start.injEq] at hm
      rw [hm.2.2]
      exact hstarted
  | stay hr _ ha h ih =>
    rename_i next st st' log a time _
    obtain ⟨tcb, hong, hstate, -, -⟩ := hr.ongoing hboot
    obtain ⟨st₁, happly, -, hmem⟩ := Action.apply_ongoing hong hstate a time
    rw [happly] at h
    cases h
    refine ⟨fun t ht => ?_, ih.2⟩
    rcases hmem t ht with ht | rfl
    · exact ih.1 t ht
    · rw [a.effect_context]
      exact ih.1 tcb hong.mem
  | switch hr _ ha h hnext _ ih =>
    rename_i next next' st st₁ st' log a new clock _ _ regs _ _
    obtain ⟨tcb, hong, hstate, -, -⟩ := hr.ongoing hboot
    obtain ⟨st₂, happly, -, hmem, hc⟩ := Action.continues hong hstate ha clock
    rw [happly] at h
    cases h
    have hst₂ : ∀ t ∈ st₁.allTasks, Q t.context := fun t ht => by
      rcases hmem t ht with ht | rfl
      · exact ih.1 t ht
      · rw [a.effect_context]
        exact ih.1 tcb hong.mem
    rcases hc with ⟨_, hstop, -⟩ | ⟨_, _, _, _, hin, hsw, -, hmem'⟩
    · rw [hstop] at hnext
      cases hnext
    rw [hsw] at hnext
    cases hnext
    have hstarted := hst₂ _ hin
    refine ⟨fun t ht => ?_, fun id time context hm => ?_⟩
    · rcases hmem' t ht with ht | rfl
      · exact hst₂ t ht
      · exact hstarted
    · rcases List.mem_append.mp hm with hm | hm
      · exact ih.2 id time context hm
      · simp only [List.mem_cons, Mark.start.injEq, List.not_mem_nil, or_false, reduceCtorEq,
          false_or] at hm
        rw [hm.2.2]
        exact hstarted

/-- What holds of every new control block holds of those that `start` lists. -/
theorem addTasks_new {kernelRoot restoreUCtx : ℕ} {P : TaskControlBlock VMSpace → Prop}
    (hP : ∀ id s kernelSp satp, P (.newReady id s restoreUCtx kernelSp kernelSp satp))
    {apps : List Elf} {b b' : Boot} (hb : ∀ t ∈ b.kernel.allTasks, P t)
    (hadd : addTasks kernelRoot restoreUCtx apps b = some b') : ∀ t ∈ b'.kernel.allTasks, P t := by
  induction apps generalizing b with
  | nil =>
    obtain rfl := Option.some.inj hadd
    exact hb
  | cons elf apps ih =>
    obtain ⟨b₁, hone, hrest⟩ := Option.bind_eq_some_iff.mp hadd
    refine ih (fun t ht => ?_) hrest
    unfold addTask at hone
    split at hone
    · obtain rfl := Option.some.inj hone
      rcases List.mem_append.mp ht with ht | ht
      · exact hb t ht
      · rw [List.mem_singleton.mp ht]
        exact hP _ _ _ _
    · cases hone

/-- **A task that was switched out is never resumed where it stopped.**  In every run from boot,
whenever a task is switched to that was switched out before, the context that is loaded sends it to
`__restore_u_ctx`, and so it differs from what `__switch` stored for it. -/
theorem switch_reloads_initial (layout : Layout) (m₀ : Mem) {a₀ : PageAllocator} {k : Phys}
    {t : RootPgt} (halloc : initialAllocator layout.kernelEnd.toNat = some a₀)
    (hinit : initKernelSatp layout ⟨m₀, a₀⟩ = (.ok t, k)) {restoreUCtx retAddr : ℕ}
    (hne : restoreUCtx ≠ retAddr) (slots : ℕ → ℕ) (apps : List Elf) (hn : apps.length < 2 ^ 64)
    {b : Boot} (hadd : addTasks t.ppn restoreUCtx apps ⟨k, 1, ⟨[], 0, slots⟩⟩ = some b)
    {next : TaskControlBlock VMSpace} {st : Kernel VMSpace} {log : List Mark}
    (hrun : Run b.kernel retAddr (fun _ => True) next st log) :
    ∀ before taskId time context later, log = before ++ .start taskId time context :: later →
      ∀ regs, lastOut taskId before = some (.ready, regs) →
        context.ra = restoreUCtx ∧ context.saved ≠ regs := by
  obtain ⟨img, -, -, -, hacc⟩ :=
    initKernelSatp_image layout (accounted_initial layout m₀ halloc) hinit
  have hboot := addTasks_booted hacc slots hn hadd
  have hra : ∀ t ∈ b.kernel.allTasks, t.context.ra = restoreUCtx :=
    addTasks_new (fun _ _ _ _ => rfl) (fun t ht => (List.not_mem_nil ht).elim) hadd
  intro before taskId time context later hlog regs hlast
  obtain ⟨time', hout⟩ := mem_of_lastOut hlast
  have hstored : regs.ra = retAddr := hrun.stored (by
    rw [hlog]
    exact List.mem_append_left _ hout)
  have hloaded : context.ra = restoreUCtx :=
    (hrun.contexts (Q := fun c => c.ra = restoreUCtx) hboot hra).2 taskId time context (by simp [hlog])
  refine ⟨hloaded, fun he => hne ?_⟩
  rw [← hloaded, ← hstored, ← he]
  rfl

/-- A single task is switched out, as ready, and is switched to again. -/
theorem one_task_returns (hboot : Booted [1] boot) {allowed : Action V → Prop} {a : Action V}
    (hok : allowed a) (ha : a.leaves = some .ready) {regs : Saved} (hregs : regs.ra = retAddr)
    (clock clock' : Clock) : ∃ next st context context',
    Run boot retAddr allowed next st [.start 1 clock.runStart context,
      .out 1 clock'.runEnd .ready regs, .start 1 clock'.runStart context'] ∧
      ∃ t ∈ st.allTasks, ∃ t₀ ∈ boot.allTasks, t.taskId = 1 ∧ t.statistics =
        (a.effect clock'.runEnd (started t₀ clock.runStart)).statistics.recordRunStart
          clock'.runStart := by
  rcases hboot.continues clock with ⟨_, -, hall⟩ | ⟨_, _, next, st, hnext, hsw, hong, -⟩
  · exact (List.not_mem_nil (hall 1 (by simp))).elim
  have hid : next.taskId = 1 := by
    have hmem := (hboot.listed.mem_iff next.taskId).mp (List.mem_map_of_mem hnext)
    simpa using hmem
  have hrun : Run boot retAddr allowed next st _ := .start hsw
  obtain ⟨st₁, happly, hong₁, -, hc⟩ := Action.continues hong rfl ha clock'
  rcases hc with ⟨_, -, hall⟩ | ⟨_, _, next', st', hnext', hsw', hong', -⟩
  · exact (List.not_mem_nil (hall 1 (by simp))).elim
  -- the task that left is the only one
  have hid' : next'.taskId = 1 := by
    have hmem := (hong₁.listed.mem_iff next'.taskId).mp (List.mem_map_of_mem hnext')
    simpa using hmem
  have hsame : next' = a.effect clock'.runEnd (started next clock.runStart) := by
    refine hong₁.listed.eq_of_taskId hnext' hong₁.mem (hid'.trans ?_)
    rw [a.effect_taskId]
    exact hid.symm
  have hrun' := Run.switch hrun hok ha happly hsw' hregs
  rw [hid, hid'] at hrun'
  refine ⟨next', st', _, _, hrun', _, hong'.mem, next, hnext, hid', ?_⟩
  rw [hsame]
  rfl

/-- The task without segments yields and is not resumed where it stopped. -/
theorem switch_reloads_initial_bare : ∃ t k b next st context context' regs,
    initKernelSatp sampleLayout ⟨fun _ _ => 0, ⟨0x80500, 0x88000, []⟩⟩ = (.ok t, k) ∧
      addTasks t.ppn 0x100 [bareElf] ⟨k, 1, ⟨[], 0, fun _ => 0⟩⟩ = some b ∧
      Run b.kernel 0x200 (fun _ => True) next st
        [.start 1 5 context, .out 1 7 .ready regs, .start 1 9 context'] ∧
      context'.ra = 0x100 ∧ context'.saved ≠ regs := by
  obtain ⟨t, k, b, hinit, hb⟩ := bare_start 0x100
  obtain ⟨img, -, -, -, hacc⟩ :=
    initKernelSatp_image sampleLayout (accounted_initial _ _ sampleLayout_allocator) hinit
  have hboot := addTasks_booted hacc (fun _ => 0) (show [bareElf].length < 2 ^ 64 by decide) hb
  obtain ⟨next, st, context, context', hrun, -⟩ :=
    @one_task_returns _ _ 0x200 hboot (fun _ => True) .yield trivial rfl ⟨[], 0x200, 0⟩ rfl
      ⟨0, 4, 4, 5⟩ ⟨7, 8, 8, 9⟩
  have hresult := switch_reloads_initial sampleLayout _ sampleLayout_allocator hinit
    (show 0x100 ≠ 0x200 by decide) _ [bareElf] (by decide) hb hrun
    [.start 1 5 context, .out 1 7 .ready ⟨[], 0x200, 0⟩] 1 9 context' [] rfl _ rfl
  exact ⟨t, k, b, next, st, context, context', _, hinit, hb, hrun, hresult⟩

/-- A run in which the registers of a task that yielded are not those it is resumed with. -/
theorem yield_loses_registers : ¬∀ (b : Boot) (next : TaskControlBlock VMSpace) (st : Kernel VMSpace)
    (log : List Mark), (∃ t k,
      initKernelSatp sampleLayout ⟨fun _ _ => 0, ⟨0x80500, 0x88000, []⟩⟩ = (.ok t, k) ∧
      addTasks t.ppn 0x100 [bareElf] ⟨k, 1, ⟨[], 0, fun _ => 0⟩⟩ = some b) →
    Run b.kernel 0x200 (fun _ => True) next st log →
    ∀ before taskId time context later, log = before ++ .start taskId time context :: later →
      ∀ regs, lastOut taskId before = some (.ready, regs) → context.saved = regs := by
  intro hclaim
  obtain ⟨t, k, b, hinit, hb⟩ := bare_start 0x100
  obtain ⟨img, -, -, -, hacc⟩ :=
    initKernelSatp_image sampleLayout (accounted_initial _ _ sampleLayout_allocator) hinit
  have hboot := addTasks_booted hacc (fun _ => 0) (show [bareElf].length < 2 ^ 64 by decide) hb
  have hra : ∀ t ∈ b.kernel.allTasks, t.context.ra = 0x100 :=
    addTasks_new (fun _ _ _ _ => rfl) (fun t ht => (List.not_mem_nil ht).elim) hb
  obtain ⟨next, st, context, context', hrun, -⟩ :=
    @one_task_returns _ _ 0x200 hboot (fun _ => True) .yield trivial rfl ⟨[], 0x200, 0⟩ rfl
      ⟨0, 4, 4, 5⟩ ⟨7, 8, 8, 9⟩
  have hloaded : context'.ra = 0x100 :=
    (hrun.contexts (Q := fun c => c.ra = 0x100) hboot hra).2 1 9 context' (by simp)
  have heq := hclaim b next st _ ⟨t, k, hinit, hb⟩ hrun
    [.start 1 5 context, .out 1 7 .ready ⟨[], 0x200, 0⟩] 1 9 context' [] rfl _ rfl
  have hra' := congrArg Saved.ra heq
  rw [show context'.saved.ra = context'.ra from rfl, hloaded] at hra'
  exact absurd hra' (by decide)

end RCoreKernel.Task
