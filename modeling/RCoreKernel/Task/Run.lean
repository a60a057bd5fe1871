import Mathlib.Data.List.Nodup
import Mathlib.Data.List.Perm.Subperm
import RCoreKernel.Task.Sched

/-!
# Runs of the scheduler

After `add_task` has listed the tasks, `run_next_task` switches to one of them, and from then on
each trap of the running task updates its control block and may end in `run_next_task` again.  A
`Run` is any such sequence, with any values of the clock; its log keeps who was switched out, in
which state and when, and who was started.

* `Ongoing` — the invariant: the control blocks listed are those of the tasks that have not ended,
  and all but the one that `tp` refers to are ready;
* `Action.apply_ongoing`, `runNextTask_ongoing` — one action and one switch keep it;
* `Run.ongoing` — **every run keeps it**.
-/

namespace RCoreKernel.Task

variable {V : Type}

/-- What the running task does next, or what happens to it. -/
inductive Action (V : Type)
  /-- a timer interrupt -/
  | timer
  /-- a fault that `kill_task` answers -/
  | kill
  | exit
  | yield
  /-- the start of any system call -/
  | syscall (syscallId : ℕ)
  /-- a change to the address space: a page fault, `mmap` or `munmap` -/
  | space (f : V → V)

namespace Action

/-- The state in which the action leaves the task, if `run_next_task` follows. -/
def leaves : Action V → Option TaskState
  | .timer => some .ready
  | .kill => some .killed
  | .exit => some .exited
  | .yield => some .ready
  | .syscall _ => none
  | .space _ => none

/-- What the action does before `run_next_task`; `time` is what `record_run_end` reads. -/
def apply (st : Kernel V) (time : ℕ) : Action V → Except Site (Kernel V)
  | .timer => st.sleepTask time
  | .kill => st.killTask time
  | .exit => st.sysExit
  | .yield => st.sysYield
  | .syscall syscallId => st.recordCurrentSyscall syscallId
  | .space f =>
    match st.tryGetCurrentTaskId with
    | none => .error .noCurrentTask
    | some taskId => st.updateTcb taskId fun tcb => { tcb with vmSpace := f tcb.vmSpace }

/-- What the action does to the control block of the running task. -/
def effect (time : ℕ) (tcb : TaskControlBlock V) : Action V → TaskControlBlock V
  | .timer => (tcb.setState .ready).recordRunEnd time
  | .kill => (tcb.setState .killed).recordRunEnd time
  | .exit => tcb.setState .exited
  | .yield => tcb.setState .ready
  | .syscall syscallId => tcb.recordSyscall syscallId
  | .space f => { tcb with vmSpace := f tcb.vmSpace }

end Action

/-- The registers that `__switch` stores: `s0` to `s11`, `ra` and `sp`. -/
structure Saved where
  s : List ℕ
  ra : ℕ
  sp : ℕ
  deriving DecidableEq, Repr

/-- The part of a context that `__switch` stores. -/
def TaskContext.saved (c : TaskContext) : Saved := ⟨c.s, c.ra, c.sp⟩

/-- The local variables of `run_next_task` that `curr_context` and `next_context` point into.  Both
control blocks have been moved to `ALL_TASKS` or dropped by then; the pointers still designate the
locals. -/
structure Locals (V : Type) where
  curr : Option (TaskControlBlock V)
  next : TaskControlBlock V

/-- `__switch`: the registers go to `curr_context`, unless it is null, and the context at
`next_context` is loaded. -/
def Locals.switch (locals : Locals V) (regs : Saved) : Locals V × TaskContext :=
  ({ locals with curr := locals.curr.map fun tcb =>
      { tcb with context := { tcb.context with s := regs.s, ra := regs.ra, sp := regs.sp } } },
    locals.next.context)

/-- What a run leaves in its log. -/
inductive Mark
  /-- `run_next_task` stops the task; `__switch` stores `regs` through `curr_context` -/
  | out (taskId time : ℕ) (state : TaskState) (regs : Saved)
  /-- `run_next_task` starts the task; `__switch` loads `context` through `next_context` -/
  | start (taskId time : ℕ) (context : TaskContext)
  deriving DecidableEq

/-- The runs that follow `boot` with actions in `allowed`, with the control block whose context was
loaded last.  `retAddr` is the address after the call of `__switch`; the other registers at that
point are left open. -/
inductive Run (boot : Kernel V) (retAddr : ℕ) (allowed : Action V → Prop) :
    TaskControlBlock V → Kernel V → List Mark → Prop
  | start {clock : Clock} {curr dropped : Option (TaskControlBlock V)} {next : TaskControlBlock V}
      {st : Kernel V}
      (h : boot.runNextTask clock.takeCurr clock.takeNext clock.runStart =
        .ok (.switch curr dropped next st)) :
      Run boot retAddr allowed next st [.start next.taskId clock.runStart next.context]
  | stay {next : TaskControlBlock V} {st st' : Kernel V} {log : List Mark} {a : Action V} {time : ℕ}
      (hr : Run boot retAddr allowed next st log) (hok : allowed a) (ha : a.leaves = none)
      (h : a.apply st time = .ok st') : Run boot retAddr allowed next st' log
  | switch {next next' : TaskControlBlock V} {st st₁ st' : Kernel V} {log : List Mark} {a : Action V}
      {new : TaskState} {clock : Clock} {curr dropped : Option (TaskControlBlock V)} {regs : Saved}
      (hr : Run boot retAddr allowed next st log) (hok : allowed a) (ha : a.leaves = some new)
      (h : a.apply st clock.runEnd = .ok st₁)
      (hrun : st₁.runNextTask clock.takeCurr clock.takeNext clock.runStart =
        .ok (.switch curr dropped next' st'))
      (hregs : regs.ra = retAddr) :
      Run boot retAddr allowed next' st' (log ++ [.out next.taskId clock.runEnd new regs,
        .start next'.taskId clock.runStart (Locals.switch ⟨curr, next'⟩ regs).2])

/-- The task has come to its end. -/
def TaskState.isEnd : TaskState → Bool
  | .killed | .exited => true
  | .ready | .running => false

/-- The tasks that have exited or been killed. -/
def ended (log : List Mark) : List ℕ :=
  log.filterMap fun
    | .out taskId _ state _ => if state.isEnd then some taskId else none
    | .start _ _ _ => none

theorem ended_append (log log' : List Mark) : ended (log ++ log') = ended log ++ ended log' :=
  List.filterMap_append

/-! ### The invariant -/

/-- The control blocks in the list are those of the tasks that were created and have not ended, and
each thread pointer refers to a trap context with the id of its task. -/
structure Listed (created gone : List ℕ) (slot : ℕ → ℕ) (tasks : List (TaskControlBlock V)) : Prop where
  ids : (tasks.map fun t => t.taskId).Nodup
  mem_iff : ∀ id, id ∈ tasks.map (fun t => t.taskId) ↔ id ∈ created ∧ id ∉ gone
  slots : ∀ t ∈ tasks, t.context.tp ≠ 0 ∧ slot t.context.tp = t.taskId

/-- The hart runs the task of `tcb`; all other tasks are ready. -/
structure Ongoing (created gone : List ℕ) (st : Kernel V) (tcb : TaskControlBlock V) : Prop where
  listed : Listed created gone st.taskIdAt st.allTasks
  mem : tcb ∈ st.allTasks
  others : ∀ t ∈ st.allTasks, t.taskId ≠ tcb.taskId → t.state = .ready
  tp : st.tp = tcb.context.tp

/-- The tasks are listed and ready, and the hart runs none of them. -/
structure Booted (created : List ℕ) (boot : Kernel V) : Prop where
  listed : Listed created [] boot.taskIdAt boot.allTasks
  ready : ∀ t ∈ boot.allTasks, t.state = .ready
  tp : boot.tp = 0

variable {created gone : List ℕ} {slot : ℕ → ℕ} {tasks tasks' : List (TaskControlBlock V)}
  {boot st st' : Kernel V} {tcb next : TaskControlBlock V}

theorem Listed.perm (h : Listed created gone slot tasks) (hp : tasks.Perm tasks') :
    Listed created gone slot tasks' := by
  refine ⟨(hp.map _).nodup_iff.mp h.ids, fun id => ?_, fun t ht => h.slots t (hp.mem_iff.mpr ht)⟩
  rw [← h.mem_iff id]
  exact ((hp.map _).mem_iff).symm

/-- Only ids and contexts matter. -/
theorem Listed.congr (h : Listed created gone slot tasks)
    (hid : tasks'.map (fun t => (t.taskId, t.context)) = tasks.map fun t => (t.taskId, t.context)) :
    Listed created gone slot tasks' := by
  have hids : tasks'.map (fun t => t.taskId) = tasks.map fun t => t.taskId := by
    simpa [Function.comp_def] using congrArg (List.map Prod.fst) hid
  refine ⟨by rw [hids]; exact h.ids, fun id => by rw [hids]; exact h.mem_iff id, fun t ht => ?_⟩
  obtain ⟨t₀, ht₀, he⟩ : ∃ t₀ ∈ tasks, (t₀.taskId, t₀.context) = (t.taskId, t.context) := by
    have hmem : (t.taskId, t.context) ∈ tasks'.map fun t => (t.taskId, t.context) :=
      List.mem_map_of_mem ht
    rw [hid] at hmem
    simpa using hmem
  obtain ⟨hi, hc⟩ := Prod.mk.inj he
  rw [← hi, ← hc]
  exact h.slots t₀ ht₀

theorem Listed.eq_of_taskId (h : Listed created gone slot tasks) {t t' : TaskControlBlock V}
    (ht : t ∈ tasks) (ht' : t' ∈ tasks) (he : t.taskId = t'.taskId) : t = t' :=
  List.inj_on_of_nodup_map h.ids ht ht' he

/-- A task ends. -/
theorem Listed.remove (h : Listed created gone slot (tcb :: tasks)) :
    Listed created (gone ++ [tcb.taskId]) slot tasks := by
  have hids := List.nodup_cons.mp h.ids
  refine ⟨hids.2, fun id => ?_, fun t ht => h.slots t (List.mem_cons_of_mem _ ht)⟩
  have hiff := h.mem_iff id
  simp only [List.map_cons, List.mem_cons] at hiff
  simp only [List.mem_append, List.mem_singleton, not_or]
  constructor
  · intro hid
    obtain ⟨hc, hg⟩ := hiff.mp (Or.inr hid)
    refine ⟨hc, hg, fun he => hids.1 ?_⟩
    rw [he] at hid
    exact hid
  · rintro ⟨hc, hg, hne⟩
    exact (hiff.mpr ⟨hc, hg⟩).resolve_left hne

namespace Ongoing

variable (h : Ongoing created gone st tcb)

include h

theorem current : st.tryGetCurrentTaskId = some tcb.taskId := by
  obtain ⟨hne, hid⟩ := h.listed.slots tcb h.mem
  rw [Kernel.tryGetCurrentTaskId, h.tp, if_neg hne, hid]

theorem find : st.findTcb tcb.taskId = some tcb := by
  cases hf : st.findTcb tcb.taskId with
  | none => exact absurd (List.find?_eq_none.mp hf tcb h.mem) (by simp)
  | some t =>
    have hid : t.taskId = tcb.taskId := by simpa using List.find?_some hf
    rw [h.listed.eq_of_taskId (List.mem_of_find?_eq_some hf) h.mem hid]

/-- A change to the control block of the running task. -/
theorem modify {f : TaskControlBlock V → TaskControlBlock V} (hid : (f tcb).taskId = tcb.taskId)
    (hctx : (f tcb).context = tcb.context) :
    Ongoing created gone (st.modifyTcb tcb.taskId f) (f tcb) := by
  obtain ⟨A, B, hs, hA, hs'⟩ := modifyTcb_allTasks h.find f
  have hothers : ∀ t ∈ A ++ B, t ∈ st.allTasks := by
    intro t ht
    rw [hs]
    simp only [List.mem_append, List.mem_cons] at ht ⊢
    tauto
  refine ⟨h.listed.congr ?_, ?_, fun t ht hne => ?_, ?_⟩
  · rw [hs, hs']
    simp [hid, hctx]
  · rw [hs']
    simp
  · rw [hs'] at ht
    simp only [List.mem_append, List.mem_cons] at ht
    have ht' : t ∈ A ++ B := by
      rcases ht with ht | rfl | ht
      · exact List.mem_append_left _ ht
      · exact absurd rfl hne
      · exact List.mem_append_right _ ht
    exact h.others t (hothers t ht') (by rwa [← hid])
  · rw [hctx]
    exact h.tp

end Ongoing

theorem Action.effect_taskId (a : Action V) (time : ℕ) (tcb : TaskControlBlock V) :
    (a.effect time tcb).taskId = tcb.taskId := by
  cases a <;> rfl

theorem Action.effect_context (a : Action V) (time : ℕ) (tcb : TaskControlBlock V) :
    (a.effect time tcb).context = tcb.context := by
  cases a <;> rfl

theorem Action.effect_state (a : Action V) (time : ℕ) (hrun : tcb.state = .running) :
    (a.effect time tcb).state = a.leaves.getD .running := by
  cases a with
  | syscall syscallId => exact hrun
  | space f => exact hrun
  | timer => rfl
  | kill => rfl
  | exit => rfl
  | yield => rfl

/-- **One action.**  None of the updates of the running task's control block can panic. -/
theorem Action.apply_ongoing (h : Ongoing created gone st tcb) (hrun : tcb.state = .running)
    (a : Action V) (time : ℕ) :
    ∃ st₁, a.apply st time = .ok st₁ ∧ Ongoing created gone st₁ (a.effect time tcb) ∧
      ∀ t ∈ st₁.allTasks, t ∈ st.allTasks ∨ t = a.effect time tcb := by
  have hmem : ∀ {st : Kernel V} {tcb : TaskControlBlock V} {f : TaskControlBlock V →
      TaskControlBlock V}, Ongoing created gone st tcb →
      ∀ t ∈ (st.modifyTcb tcb.taskId f).allTasks, t ∈ st.allTasks ∨ t = f tcb := by
    intro st tcb f h t ht
    obtain ⟨A, B, hs, -, hs'⟩ := modifyTcb_allTasks h.find f
    rw [hs'] at ht
    rw [hs]
    simp only [List.mem_append, List.mem_cons] at ht ⊢
    tauto
  have hupdate : ∀ {f : TaskControlBlock V → TaskControlBlock V},
      st.updateTcb tcb.taskId f = .ok (st.modifyTcb tcb.taskId f) := by
    intro f
    rw [Kernel.updateTcb, h.find]
  -- `sleep_task` and `kill_task` change the control block twice
  have hslice : ∀ new, ∃ st₁, st.endSlice new time = .ok st₁ ∧
      Ongoing created gone st₁ ((tcb.setState new).recordRunEnd time) ∧
      ∀ t ∈ st₁.allTasks, t ∈ st.allTasks ∨ t = (tcb.setState new).recordRunEnd time := by
    intro new
    have h₁ : Ongoing created gone (st.modifyTcb tcb.taskId fun t => t.setState new)
        (tcb.setState new) := h.modify rfl rfl
    have h₂ : Ongoing created gone ((st.modifyTcb tcb.taskId fun t => t.setState new).modifyTcb
        tcb.taskId fun t => t.recordRunEnd time) ((tcb.setState new).recordRunEnd time) :=
      h₁.modify rfl rfl
    refine ⟨_, endSlice_eq h.current h.find hrun new time, h₂, fun t ht => ?_⟩
    rcases hmem h₁ t ht with ht | rfl
    · rcases hmem h t ht with ht | rfl
      · exact Or.inl ht
      · -- the block between the two changes has been replaced
        refine Or.inr (h₂.listed.eq_of_taskId ?_ h₂.mem rfl)
        assumption
    · exact Or.inr rfl
  have hleave : ∀ new, ∃ st₁, st.leaveRunning new = .ok st₁ ∧
      Ongoing created gone st₁ (tcb.setState new) ∧
      ∀ t ∈ st₁.allTasks, t ∈ st.allTasks ∨ t = tcb.setState new := fun new =>
    ⟨_, leaveRunning_eq h.current h.find hrun new, h.modify rfl rfl, hmem h⟩
  cases a with
  | timer => exact hslice .ready
  | kill => exact hslice .killed
  | exit => exact hleave .exited
  | yield => exact hleave .ready
  | syscall syscallId =>
    refine ⟨st.modifyTcb tcb.taskId fun t => t.recordSyscall syscallId, ?_, h.modify rfl rfl,
      hmem h⟩
    rw [Action.apply, Kernel.recordCurrentSyscall, h.current]
    exact hupdate
  | space f =>
    refine ⟨st.modifyTcb tcb.taskId fun t => { t with vmSpace := f t.vmSpace }, ?_,
      h.modify rfl rfl, hmem h⟩
    rw [Action.apply, h.current]
    exact hupdate

/-! ### `run_next_task` -/

/-- The running task has left the state `Running`: `run_next_task` puts it back or drops it. -/
theorem retire_ongoing (h : Ongoing created gone st tcb) (hrun : tcb.state ≠ .running) (time : ℕ) :
    ∃ dropped tasks, st.retire time = .ok (some tcb, dropped, tasks) ∧
      Listed created (if tcb.state.isEnd then gone ++ [tcb.taskId] else gone) st.taskIdAt tasks ∧
      (∀ t ∈ tasks, t.state = .ready) ∧ ∀ t ∈ tasks, t ∈ st.allTasks := by
  obtain ⟨tcb', rest, htake⟩ := takeTaskTcb_isSome h.mem time
  obtain ⟨hid, hperm⟩ := takeTaskTcb_spec htake
  obtain rfl : tcb' = tcb :=
    h.listed.eq_of_taskId (hperm.mem_iff.mpr (List.mem_cons_self ..)) h.mem hid
  have hlisted := h.listed.perm hperm
  have hsub : ∀ t ∈ rest, t ∈ st.allTasks := fun t ht =>
    hperm.mem_iff.mpr (List.mem_cons_of_mem _ ht)
  have hrest : ∀ t ∈ rest, t.state = .ready := fun t ht =>
    h.others t (hsub t ht) fun he => (List.nodup_cons.mp hlisted.ids).1
      (List.mem_map.mpr ⟨t, ht, he⟩)
  rw [Kernel.retire, h.current]
  simp only [htake]
  cases hstate : tcb'.state with
  | running => exact absurd hstate hrun
  | ready =>
    refine ⟨none, rest ++ [tcb'], by simp, ?_, fun t ht => ?_, fun t ht => ?_⟩
    · exact hlisted.perm (List.perm_append_singleton tcb' rest).symm
    · rcases List.mem_append.mp ht with ht | ht
      · exact hrest t ht
      · rw [List.mem_singleton.mp ht]
        exact hstate
    · rcases List.mem_append.mp ht with ht | ht
      · exact hsub t ht
      · rw [List.mem_singleton.mp ht]
        exact h.mem
  | killed => exact ⟨some tcb', rest, by simp, hlisted.remove, hrest, hsub⟩
  | exited => exact ⟨some tcb', rest, by simp, hlisted.remove, hrest, hsub⟩

/-- The second half of `run_next_task`: any task may be next, and there is one unless all have
ended. -/
theorem launch {curr dropped : Option (TaskControlBlock V)} {time₁ : ℕ}
    (hretire : st.retire time₁ = .ok (curr, dropped, tasks))
    (hl : Listed created gone st.taskIdAt tasks) (hready : ∀ t ∈ tasks, t.state = .ready)
    (time₂ time₃ : ℕ) :
    (tasks = [] ∧ st.runNextTask time₁ time₂ time₃ = .ok (.shutdown dropped tasks)) ∨
      ∃ next st', next ∈ tasks ∧
        st.runNextTask time₁ time₂ time₃ = .ok (.switch curr dropped next st') ∧
        Ongoing created gone st' ((next.setState .running).recordRunStart time₃) ∧
        ∀ t ∈ st'.allTasks, t ∈ tasks ∨ t = (next.setState .running).recordRunStart time₃ := by
  cases htasks : tasks with
  | nil =>
    refine Or.inl ⟨rfl, ?_⟩
    rw [Kernel.runNextTask, hretire, htasks]
    rfl
  | cons first more =>
    -- all tasks are ready, so the first one is chosen
    have hnext : Kernel.getNextTaskId tasks = some first.taskId := by
      have hfirst : first.state = .ready := hready first (by simp [htasks])
      simp [Kernel.getNextTaskId, htasks, hfirst]
    have hmem : first ∈ tasks := by simp [htasks]
    obtain ⟨tcb, rest, htake⟩ := takeTaskTcb_isSome hmem time₂
    obtain ⟨-, hperm⟩ := takeTaskTcb_spec htake
    have hsub : ∀ t ∈ rest, t ∈ tasks := fun t ht => hperm.mem_iff.mpr (List.mem_cons_of_mem _ ht)
    have hlisted := hl.perm hperm
    rw [← htasks]
    refine Or.inr ⟨tcb, { st with
      allTasks := rest ++ [(tcb.setState .running).recordRunStart time₃], tp := tcb.context.tp },
      hperm.mem_iff.mpr (List.mem_cons_self ..), ?_, ⟨?_, ?_, ?_, rfl⟩, ?_⟩
    · rw [Kernel.runNextTask, hretire]
      simp only [hnext, htake]
    · refine (hlisted.perm (List.perm_append_singleton tcb rest).symm).congr ?_
      simp [TaskControlBlock.setState, TaskControlBlock.recordRunStart]
    · simp
    · intro t ht hne
      rcases List.mem_append.mp ht with ht | ht
      · exact hready t (hsub t ht)
      · rw [List.mem_singleton.mp ht] at hne
        exact absurd rfl hne
    · intro t ht
      rcases List.mem_append.mp ht with ht | ht
      · exact Or.inl (hsub t ht)
      · exact Or.inr (List.mem_singleton.mp ht)

/-- The block of the task that `run_next_task` starts. -/
def started (next : TaskControlBlock V) (time : ℕ) : TaskControlBlock V :=
  (next.setState .running).recordRunStart time

/-- The tasks that are gone after the running task has left in the state `new`. -/
def goneAfter (gone : List ℕ) (taskId : ℕ) (new : TaskState) : List ℕ :=
  if new.isEnd then gone ++ [taskId] else gone

/-- What `run_next_task` may end in: nothing is left to run, or some ready task is started. -/
def Continues (created gone : List ℕ) (st : Kernel V) (tasks : List (TaskControlBlock V))
    (clock : Clock) : Prop :=
  (∃ dropped, st.runNextTask clock.takeCurr clock.takeNext clock.runStart =
      .ok (.shutdown dropped []) ∧ ∀ id ∈ created, id ∈ gone) ∨
    ∃ curr dropped next st', next ∈ tasks ∧
      st.runNextTask clock.takeCurr clock.takeNext clock.runStart =
        .ok (.switch curr dropped next st') ∧
      Ongoing created gone st' (started next clock.runStart) ∧
      ∀ t ∈ st'.allTasks, t ∈ tasks ∨ t = started next clock.runStart

theorem continues_of_retire {curr dropped : Option (TaskControlBlock V)} {clock : Clock}
    (hretire : st.retire clock.takeCurr = .ok (curr, dropped, tasks))
    (hl : Listed created gone st.taskIdAt tasks) (hready : ∀ t ∈ tasks, t.state = .ready)
    (hsub : ∀ t ∈ tasks, t ∈ st.allTasks) :
    Continues created gone st st.allTasks clock := by
  rcases launch hretire hl hready clock.takeNext clock.runStart with ⟨rfl, hrun⟩ |
    ⟨next, st', hnext, hrun, hong, hmem⟩
  · refine Or.inl ⟨dropped, hrun, fun id hid => ?_⟩
    by_contra hgone
    exact List.not_mem_nil ((hl.mem_iff id).mpr ⟨hid, hgone⟩)
  · exact Or.inr ⟨curr, dropped, next, st', hsub next hnext, hrun, hong, fun t ht =>
      (hmem t ht).imp_left (hsub t)⟩

/-- The first call of `run_next_task`. -/
theorem Booted.continues (h : Booted created boot) (clock : Clock) :
    Continues created [] boot boot.allTasks clock := by
  have hretire : boot.retire clock.takeCurr = .ok (none, none, boot.allTasks) := by
    rw [Kernel.retire, Kernel.tryGetCurrentTaskId, if_pos h.tp]
  exact continues_of_retire hretire h.listed h.ready fun _ ht => ht

/-- **One switch.**  After an action that ends the slice of the running task, `run_next_task` does
not panic and starts a task that has not ended, or nothing is left to run. -/
theorem Ongoing.continues (h : Ongoing created gone st tcb) (hrun : tcb.state ≠ .running)
    (clock : Clock) :
    Continues created (goneAfter gone tcb.taskId tcb.state) st st.allTasks clock := by
  obtain ⟨dropped, tasks, hretire, hl, hready, hsub⟩ := retire_ongoing h hrun clock.takeCurr
  exact continues_of_retire hretire hl hready hsub

theorem leaves_ne_running {a : Action V} {new : TaskState} (h : a.leaves = some new) :
    new ≠ .running := by
  rintro rfl
  cases a <;> simp [Action.leaves] at h

theorem Action.continues (h : Ongoing created gone st tcb) (hrun : tcb.state = .running)
    {a : Action V} {new : TaskState} (ha : a.leaves = some new) (clock : Clock) :
    ∃ st₁, a.apply st clock.runEnd = .ok st₁ ∧
      Ongoing created gone st₁ (a.effect clock.runEnd tcb) ∧
      (∀ t ∈ st₁.allTasks, t ∈ st.allTasks ∨ t = a.effect clock.runEnd tcb) ∧
      Continues created (goneAfter gone tcb.taskId new) st₁ st₁.allTasks clock := by
  obtain ⟨st₁, happly, hong, hmem⟩ := Action.apply_ongoing h hrun a clock.runEnd
  have hstate : (a.effect clock.runEnd tcb).state = new := by
    rw [a.effect_state clock.runEnd hrun, ha]
    rfl
  have hc := hong.continues (by rw [hstate]; exact leaves_ne_running ha) clock
  rw [a.effect_taskId, hstate] at hc
  exact ⟨st₁, happly, hong, hmem, hc⟩

theorem ended_snoc (log : List Mark) (taskId time : ℕ) (new : TaskState) (regs : Saved)
    (m : ℕ × ℕ × TaskContext) :
    ended (log ++ [.out taskId time new regs, .start m.1 m.2.1 m.2.2]) =
      goneAfter (ended log) taskId new := by
  rw [ended_append, goneAfter]
  cases hnew : new.isEnd <;> simp [ended, hnew]

variable {retAddr : ℕ} {allowed : Action V → Prop} {log : List Mark}

/-- **Every run keeps the invariant.** -/
theorem Run.ongoing (hboot : Booted created boot) (hrun : Run boot retAddr allowed next st log) :
    ∃ tcb, Ongoing created (ended log) st tcb ∧ tcb.state = .running ∧
      tcb.taskId = next.taskId ∧ tcb.context = next.context := by
  induction hrun with
  | start h =>
    rename_i clock _ _ _ _
    rcases hboot.continues clock with ⟨_, hstop, -⟩ | ⟨_, _, next', st', -, hsw, hong, -⟩
    · rw [hstop] at h
      cases h
    · rw [hsw] at h
      cases h
      exact ⟨_, hong, rfl, rfl, rfl⟩
  | stay _ _ ha h ih =>
    rename_i next st st' log a time _ _
    obtain ⟨tcb, hong, hstate, hid, hctx⟩ := ih
    obtain ⟨st₁, happly, hong₁, -⟩ := Action.apply_ongoing hong hstate a time
    rw [happly] at h
    cases h
    refine ⟨_, hong₁, ?_, (a.effect_taskId time tcb).trans hid, (a.effect_context time tcb).trans hctx⟩
    rw [a.effect_state time hstate, ha]
    rfl
  | switch _ _ ha h hnext _ ih =>
    rename_i next next' st st₁ st' log a new clock _ _ regs _ _ _
    obtain ⟨tcb, hong, hstate, hid, hctx⟩ := ih
    obtain ⟨st₂, happly, hong₂, -, hc⟩ := Action.continues hong hstate ha clock
    rw [happly] at h
    cases h
    rcases hc with ⟨_, hstop, -⟩ | ⟨_, _, next'', st'', -, hsw, hong', -⟩
    · rw [hstop] at hnext
      cases hnext
    · rw [hsw] at hnext
      cases hnext
      refine ⟨started next' clock.runStart, ?_, rfl, rfl, rfl⟩
      rw [ended_snoc log _ _ _ _ (_, _, _), ← hid]
      exact hong'

/-- What holds at every point of a run, where `next` was switched to last. -/
structure Scheduled (created : List ℕ) (next : TaskControlBlock V) (st : Kernel V)
    (log : List Mark) : Prop where
  /-- Ids are distinct, -/
  ids : (st.allTasks.map fun t => t.taskId).Nodup
  /-- and they are those of the tasks that have not ended. -/
  present : ∀ id, id ∈ st.allTasks.map (fun t => t.taskId) ↔ id ∈ created ∧ id ∉ ended log
  /-- Exactly one task is running: the one switched to, whose id the trap context at `tp` holds. -/
  running : ∃ tcb ∈ st.allTasks, tcb.state = .running ∧
    (∀ t ∈ st.allTasks, t.state = .running → t = tcb) ∧ tcb.taskId = next.taskId ∧
    tcb.context = next.context ∧ st.tp = next.context.tp ∧ st.taskIdAt st.tp = tcb.taskId
  /-- The task switched to has not ended. -/
  alive : next.taskId ∉ ended log
  /-- No action of the running task panics, -/
  no_panic : ∀ (a : Action V) time, ∃ st₁, a.apply st time = .ok st₁
  /-- nor does `run_next_task` after it; it shuts down only when all tasks have ended. -/
  continues : ∀ (a : Action V) (new : TaskState), a.leaves = some new → ∀ (clock : Clock) st₁,
    a.apply st clock.runEnd = .ok st₁ →
    ∃ sw, st₁.runNextTask clock.takeCurr clock.takeNext clock.runStart = .ok sw ∧
      ∀ dropped tasks, sw = .shutdown dropped tasks →
        ∀ id ∈ created, id ∈ goneAfter (ended log) next.taskId new

theorem Run.scheduled (hboot : Booted created boot) (hrun : Run boot retAddr allowed next st log) :
    Scheduled created next st log := by
  obtain ⟨tcb, hong, hstate, hid, hctx⟩ := hrun.ongoing hboot
  refine ⟨hong.listed.ids, hong.listed.mem_iff, ?_, ?_, fun a time => ?_, ?_⟩
  · refine ⟨tcb, hong.mem, hstate, fun t ht hrunning => ?_, hid, hctx, ?_, ?_⟩
    · by_contra hne
      have hready := hong.others t ht fun he => hne (hong.listed.eq_of_taskId ht hong.mem he)
      rw [hready] at hrunning
      cases hrunning
    · rw [← hctx]
      exact hong.tp
    · rw [hong.tp]
      exact (hong.listed.slots tcb hong.mem).2
  · rw [← hid]
    exact ((hong.listed.mem_iff tcb.taskId).mp (List.mem_map_of_mem hong.mem)).2
  · obtain ⟨st₁, happly, -⟩ := Action.apply_ongoing hong hstate a time
    exact ⟨st₁, happly⟩
  · intro a new ha clock st₁ h
    obtain ⟨st₂, happly, -, -, hc⟩ := Action.continues hong hstate ha clock
    rw [happly] at h
    cases h
    rw [← hid]
    rcases hc with ⟨_, hstop, hall⟩ | ⟨_, _, _, _, -, hsw, -⟩
    · exact ⟨_, hstop, fun _ _ _ => hall⟩
    · refine ⟨_, hsw, fun _ _ he => ?_⟩
      cases he

/-- A run goes on with any action that ends the slice, while a task is left. -/
theorem Run.leave (hrun : Run boot retAddr allowed next st log) (hs : Scheduled created next st log)
    (hids : created.Nodup) {a : Action V} {new : TaskState} (hok : allowed a)
    (ha : a.leaves = some new) (clock : Clock) (regs : Saved) (hregs : regs.ra = retAddr)
    (hleft : (goneAfter (ended log) next.taskId new).length < created.length) :
    ∃ next' st' context, Run boot retAddr allowed next' st'
      (log ++ [.out next.taskId clock.runEnd new regs, .start next'.taskId clock.runStart context]) := by
  obtain ⟨st₁, happly⟩ := hs.no_panic a clock.runEnd
  obtain ⟨sw, hsw, hstop⟩ := hs.continues a new ha clock st₁ happly
  cases sw with
  | shutdown dropped tasks =>
    have hall : created ⊆ goneAfter (ended log) next.taskId new := hstop dropped tasks rfl
    exact absurd (List.subperm_of_subset hids hall).length_le (Nat.not_le_of_lt hleft)
  | switch curr dropped next' st' =>
    exact ⟨next', st', _, .switch hrun hok ha happly hsw hregs⟩

end RCoreKernel.Task
