import RCoreKernel.Lib.Vec
import RCoreKernel.Task.State

/-!
# The scheduler (`os/src/task.rs`)

The state of the scheduler is the list `ALL_TASKS`, the thread pointer of the hart, and the
`task_id` slots of the trap contexts that thread pointers refer to.  `run_next_task` ends in
`__switch`; its result says which control block the local variable held whose context
`curr_context` points to, which one was dropped, and which context is loaded.
-/

namespace RCoreKernel.Task

/-- Where the functions of this file can panic. -/
inductive Site
  /-- `get_current_task_id`: `This hart is not running a task.` -/
  | noCurrentTask
  /-- a `find` in `ALL_TASKS` that is unwrapped -/
  | noTcb
  /-- `Expected the current TaskState to be Running.`, `Expected running but got ..` -/
  | notRunning
  /-- `run_next_task`: `Attempt to switch task .. but its state is running` -/
  | switchRunning
  deriving DecidableEq, Repr

/-- What `read_time` returns in the calls of one trap. -/
structure Clock where
  runEnd : ℕ
  takeCurr : ℕ
  takeNext : ℕ
  runStart : ℕ

/-- The scheduler's part of the machine. -/
structure Kernel (V : Type) where
  allTasks : List (TaskControlBlock V)
  tp : ℕ
  taskIdAt : ℕ → ℕ

namespace Kernel

variable {V : Type}

/-- `try_get_current_task_id`. -/
def tryGetCurrentTaskId (st : Kernel V) : Option ℕ :=
  if st.tp = 0 then none else some (st.taskIdAt st.tp)

/-- The control block with the given id. -/
def findTcb (st : Kernel V) (taskId : ℕ) : Option (TaskControlBlock V) :=
  st.allTasks.find? fun tcb => tcb.taskId = taskId

/-- A change to the control block with the given id. -/
def modifyTcb (st : Kernel V) (taskId : ℕ) (f : TaskControlBlock V → TaskControlBlock V) : Kernel V :=
  { st with allTasks := Vec.modifyFind (fun tcb => tcb.taskId = taskId) f st.allTasks }

/-- `update_tcb`. -/
def updateTcb (st : Kernel V) (taskId : ℕ) (f : TaskControlBlock V → TaskControlBlock V) :
    Except Site (Kernel V) :=
  match st.findTcb taskId with
  | none => .error .noTcb
  | some _ => .ok (st.modifyTcb taskId f)

/-- `exchange_current_task_state`. -/
def exchangeCurrentTaskState (st : Kernel V) (expected new : TaskState) :
    Except Site (Except TaskState TaskState × Kernel V) :=
  match st.tryGetCurrentTaskId with
  | none => .error .noCurrentTask
  | some taskId =>
    match st.findTcb taskId with
    | none => .error .noTcb
    | some tcb =>
      if tcb.state = expected then
        .ok (.ok expected, st.modifyTcb taskId fun tcb => tcb.setState new)
      else .ok (.error tcb.state, st)

/-- `record_current_run_end` at the time `time`. -/
def recordCurrentRunEnd (st : Kernel V) (time : ℕ) : Except Site (Kernel V) :=
  match st.tryGetCurrentTaskId with
  | none => .error .noCurrentTask
  | some taskId => st.updateTcb taskId fun tcb => tcb.recordRunEnd time

/-- `record_current_syscall`. -/
def recordCurrentSyscall (st : Kernel V) (syscallId : ℕ) : Except Site (Kernel V) :=
  match st.tryGetCurrentTaskId with
  | none => .error .noCurrentTask
  | some taskId => st.updateTcb taskId fun tcb => tcb.recordSyscall syscallId

/-- The exchange of the state, which every caller insists on. -/
def leaveRunning (st : Kernel V) (new : TaskState) : Except Site (Kernel V) :=
  match st.exchangeCurrentTaskState .running new with
  | .error site => .error site
  | .ok (.error _, _) => .error .notRunning
  | .ok (.ok _, st) => .ok st

/-- The running task takes the state `new` and its slice ends at the time `time`. -/
def endSlice (st : Kernel V) (new : TaskState) (time : ℕ) : Except Site (Kernel V) :=
  match st.leaveRunning new with
  | .error site => .error site
  | .ok st => st.recordCurrentRunEnd time

/-- `sleep_task`. -/
def sleepTask (st : Kernel V) (time : ℕ) : Except Site (Kernel V) := st.endSlice .ready time

/-- `kill_task`. -/
def killTask (st : Kernel V) (time : ℕ) : Except Site (Kernel V) := st.endSlice .killed time

/-- `sys_yield`, up to `run_next_task`. -/
def sysYield (st : Kernel V) : Except Site (Kernel V) := st.leaveRunning .ready

/-- `sys_exit`, up to `run_next_task`. -/
def sysExit (st : Kernel V) : Except Site (Kernel V) := st.leaveRunning .exited

/-- `take_task_tcb`, where `read_time` returns `time`. -/
def takeTaskTcb (tasks : List (TaskControlBlock V)) (taskId time : ℕ) :
    Option (TaskControlBlock V × List (TaskControlBlock V)) :=
  match tasks.findIdx? fun tcb => tcb.taskId = taskId with
  | none => none
  | some index =>
    let randIndex := time % tasks.length
    let tasks := Vec.swap tasks index randIndex
    match tasks[randIndex]? with
    | none => none
    | some tcb => some (tcb, Vec.swapRemove tasks randIndex)

/-- `get_next_task_id`. -/
def getNextTaskId (tasks : List (TaskControlBlock V)) : Option ℕ :=
  (tasks.find? fun tcb => tcb.state = .ready).map fun tcb => tcb.taskId

/-- The end of `run_next_task`. -/
inductive Switch (V : Type)
  /-- `__switch` saves to the context in `curr`, a local variable, and loads that of `next`; the
  control block `dropped` has gone out of scope before. -/
  | switch (curr dropped : Option (TaskControlBlock V)) (next : TaskControlBlock V) (st : Kernel V)
  | shutdown (dropped : Option (TaskControlBlock V)) (tasks : List (TaskControlBlock V))

/-- The first half of `run_next_task`: the control block taken, the one dropped, and the list. -/
def retire (st : Kernel V) (time : ℕ) :
    Except Site (Option (TaskControlBlock V) × Option (TaskControlBlock V) ×
      List (TaskControlBlock V)) :=
  match st.tryGetCurrentTaskId with
  | none => .ok (none, none, st.allTasks)
  | some taskId =>
    match takeTaskTcb st.allTasks taskId time with
    | none => .ok (none, none, st.allTasks)
    | some (tcb, tasks) =>
      if tcb.state = .ready then .ok (some tcb, none, tasks ++ [tcb])
      else if tcb.state = .running then .error .switchRunning
      else .ok (some tcb, some tcb, tasks)

/-- `run_next_task`; `time₁`, `time₂` and `time₃` are what `read_time` returns in the two calls of
`take_task_tcb` and in `record_run_start`. -/
def runNextTask (st : Kernel V) (time₁ time₂ time₃ : ℕ) : Except Site (Switch V) :=
  match st.retire time₁ with
  | .error site => .error site
  | .ok (curr, dropped, tasks) =>
    match getNextTaskId tasks with
    | none => .ok (.shutdown dropped tasks)
    | some taskId =>
      match takeTaskTcb tasks taskId time₂ with
      | none => .error .noTcb
      | some (tcb, tasks) =>
        let started := (tcb.setState .running).recordRunStart time₃
        .ok (.switch curr dropped tcb
          { st with allTasks := tasks ++ [started], tp := tcb.context.tp })

end Kernel

/-! ### What the operations do -/

variable {V : Type} {st st' : Kernel V} {tasks rest : List (TaskControlBlock V)}
  {tcb : TaskControlBlock V} {taskId time : ℕ}

theorem modifyTcb_allTasks (h : st.findTcb taskId = some tcb)
    (f : TaskControlBlock V → TaskControlBlock V) :
    ∃ A B, st.allTasks = A ++ tcb :: B ∧ (∀ a ∈ A, a.taskId ≠ taskId) ∧
      (st.modifyTcb taskId f).allTasks = A ++ f tcb :: B := by
  obtain ⟨A, B, hs, htcb, hA⟩ := Vec.find?_split h
  refine ⟨A, B, hs, fun a ha => by simpa using hA a ha, ?_⟩
  rw [Kernel.modifyTcb, hs, Vec.modifyFind_append hA htcb]

theorem findTcb_modifyTcb (h : st.findTcb taskId = some tcb)
    {f : TaskControlBlock V → TaskControlBlock V} (hf : (f tcb).taskId = tcb.taskId) :
    (st.modifyTcb taskId f).findTcb taskId = some (f tcb) := by
  obtain ⟨A, B, hs, hA, hs'⟩ := modifyTcb_allTasks h f
  have hid : tcb.taskId = taskId := by simpa using List.find?_some h
  rw [Kernel.findTcb, hs']
  exact Vec.find?_append_cons (fun a ha => by simp [hA a ha]) (by simp [hf, hid])

@[simp] theorem modifyTcb_tp (f : TaskControlBlock V → TaskControlBlock V) :
    (st.modifyTcb taskId f).tp = st.tp := rfl

@[simp] theorem modifyTcb_taskIdAt (f : TaskControlBlock V → TaskControlBlock V) :
    (st.modifyTcb taskId f).taskIdAt = st.taskIdAt := rfl

@[simp] theorem modifyTcb_tryGetCurrentTaskId (f : TaskControlBlock V → TaskControlBlock V) :
    (st.modifyTcb taskId f).tryGetCurrentTaskId = st.tryGetCurrentTaskId := rfl

/-- The running task leaves the state `Running`. -/
theorem leaveRunning_eq (hcur : st.tryGetCurrentTaskId = some taskId)
    (hfind : st.findTcb taskId = some tcb) (hrun : tcb.state = .running) (new : TaskState) :
    st.leaveRunning new = .ok (st.modifyTcb taskId fun tcb => tcb.setState new) := by
  unfold Kernel.leaveRunning Kernel.exchangeCurrentTaskState
  simp only [hcur, hfind, hrun, if_true]

theorem recordCurrentRunEnd_eq (hcur : st.tryGetCurrentTaskId = some taskId)
    (hfind : st.findTcb taskId = some tcb) (time : ℕ) :
    st.recordCurrentRunEnd time = .ok (st.modifyTcb taskId fun tcb => tcb.recordRunEnd time) := by
  unfold Kernel.recordCurrentRunEnd Kernel.updateTcb
  simp only [hcur, hfind]

/-- `sleep_task` and `kill_task` of the running task. -/
theorem endSlice_eq (hcur : st.tryGetCurrentTaskId = some taskId)
    (hfind : st.findTcb taskId = some tcb) (hrun : tcb.state = .running) (new : TaskState)
    (time : ℕ) :
    st.endSlice new time = .ok ((st.modifyTcb taskId fun tcb => tcb.setState new).modifyTcb taskId
      fun tcb => tcb.recordRunEnd time) := by
  have hfind' : (st.modifyTcb taskId fun tcb => tcb.setState new).findTcb taskId =
      some (tcb.setState new) := findTcb_modifyTcb hfind rfl
  have hcur' : (st.modifyTcb taskId fun tcb => tcb.setState new).tryGetCurrentTaskId =
      some taskId := hcur
  rw [Kernel.endSlice, leaveRunning_eq hcur hfind hrun]
  exact recordCurrentRunEnd_eq hcur' hfind' time

theorem endSlice_state (hcur : st.tryGetCurrentTaskId = some taskId)
    (hfind : st.findTcb taskId = some tcb) (hrun : tcb.state = .running) (new : TaskState)
    (time : ℕ) :
    ∃ st' tcb', st.endSlice new time = .ok st' ∧ st'.findTcb taskId = some tcb' ∧
      tcb'.state = new := by
  have hfind' : (st.modifyTcb taskId fun tcb => tcb.setState new).findTcb taskId =
      some (tcb.setState new) := findTcb_modifyTcb hfind rfl
  have hfind'' : ((st.modifyTcb taskId fun tcb => tcb.setState new).modifyTcb taskId
      fun tcb => tcb.recordRunEnd time).findTcb taskId =
      some ((tcb.setState new).recordRunEnd time) := findTcb_modifyTcb hfind' rfl
  exact ⟨_, _, endSlice_eq hcur hfind hrun new time, hfind'', rfl⟩

/-- `take_task_tcb` takes the control block out, whatever the clock says. -/
theorem takeTaskTcb_spec (h : Kernel.takeTaskTcb tasks taskId time = some (tcb, rest)) :
    tcb.taskId = taskId ∧ tasks.Perm (tcb :: rest) := by
  unfold Kernel.takeTaskTcb at h
  split at h
  · cases h
  rename_i index hidx
  obtain ⟨hlt, hid, -⟩ := List.findIdx?_eq_some_iff_getElem.mp hidx
  have hpos : 0 < tasks.length := lt_of_le_of_lt (Nat.zero_le _) hlt
  have hj : time % tasks.length < tasks.length := Nat.mod_lt _ hpos
  have hget := Vec.getElem?_swap (List.getElem?_eq_getElem hlt) hj
  simp only [hget] at h
  obtain ⟨rfl, rfl⟩ := Prod.mk.inj (Option.some.inj h)
  refine ⟨by simpa using hid, ?_⟩
  exact ((Vec.swapRemove_perm hget).trans (Vec.swap_perm _ _ _)).symm

theorem takeTaskTcb_isSome (htcb : tcb ∈ tasks) (time : ℕ) :
    ∃ tcb' rest, Kernel.takeTaskTcb tasks tcb.taskId time = some (tcb', rest) := by
  unfold Kernel.takeTaskTcb
  obtain ⟨index, hidx⟩ : ∃ index,
      tasks.findIdx? (fun x => decide (x.taskId = tcb.taskId)) = some index := by
    have hsome : (tasks.findIdx? fun x => decide (x.taskId = tcb.taskId)).isSome := by
      rw [List.findIdx?_isSome, List.any_eq_true]
      exact ⟨tcb, htcb, by simp⟩
    exact Option.isSome_iff_exists.mp hsome
  obtain ⟨hlt, -, -⟩ := List.findIdx?_eq_some_iff_getElem.mp hidx
  have hj : time % tasks.length < tasks.length :=
    Nat.mod_lt _ (lt_of_le_of_lt (Nat.zero_le _) hlt)
  have hget := Vec.getElem?_swap (List.getElem?_eq_getElem hlt) hj
  simp only [hidx, hget]
  exact ⟨_, _, rfl⟩

end RCoreKernel.Task
