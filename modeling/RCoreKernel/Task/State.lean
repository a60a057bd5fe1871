import RCoreKernel.Mm.Address

/-!
# Task control blocks (`os/src/task/state.rs`)

A task control block holds the address space of a task, which this file leaves open, its state,
the registers that `__switch` saves, and its statistics.  Times are the values that `rdtime`
returned; sums and differences wrap as in the release build.
-/

namespace RCoreKernel.Task

/-- `TaskState`. -/
inductive TaskState
  | ready
  | running
  | killed
  | exited
  deriving DecidableEq, Repr

/-- `TaskContext`: the callee-saved registers, and the registers that `__switch` loads. -/
structure TaskContext where
  s : List ℕ
  ra : ℕ
  sp : ℕ
  tp : ℕ
  satp : ℕ
  deriving DecidableEq, Repr

def TaskContext.newInitial (ra sp tp satp : ℕ) : TaskContext :=
  ⟨List.replicate 12 0, ra, sp, tp, satp⟩

def maxSyscallsTracked : ℕ := 6

/-- `TaskStatistics`. -/
structure TaskStatistics where
  firstRunStart : ℕ
  lastRunStart : ℕ
  lastRunEnd : ℕ
  totalExecuted : ℕ
  totalWaiting : ℕ
  switchCount : ℕ
  syscallCounts : List (ℕ × ℕ)
  deriving DecidableEq, Repr

namespace TaskStatistics

def newZeros : TaskStatistics := ⟨0, 0, 0, 0, 0, 0, List.replicate maxSyscallsTracked (0, 0)⟩

/-- `increase_syscall_count`; the second component says whether the call was recorded. -/
def increaseSyscallCount (st : TaskStatistics) (syscallId : ℕ) : TaskStatistics × Bool :=
  match st.syscallCounts.findIdx? fun c => c.1 = syscallId ∨ c.1 = 0 with
  | some i =>
    ({ st with syscallCounts :=
        st.syscallCounts.modify i fun c => (syscallId, wrap (c.2 + 1)) }, true)
  | none => (st, false)

/-- `TaskControlBlock::record_run_start` at the time `time`. -/
def recordRunStart (st : TaskStatistics) (time : ℕ) : TaskStatistics :=
  let st :=
    if st.firstRunStart = 0 then { st with firstRunStart := time }
    else { st with totalWaiting := wrap (st.totalWaiting + wrappingSub time st.lastRunEnd) }
  { st with lastRunStart := time }

/-- `TaskControlBlock::record_run_end` at the time `time`. -/
def recordRunEnd (st : TaskStatistics) (time : ℕ) : TaskStatistics :=
  { st with
    lastRunEnd := time
    totalExecuted := wrap (st.totalExecuted + wrappingSub time st.lastRunStart)
    switchCount := wrap (st.switchCount + 1) }

end TaskStatistics

/-- `TaskControlBlock`, over any type of address spaces. -/
structure TaskControlBlock (V : Type) where
  taskId : ℕ
  vmSpace : V
  state : TaskState
  context : TaskContext
  statistics : TaskStatistics

namespace TaskControlBlock

variable {V : Type}

/-- `TaskControlBlock::new_ready`, with the id that `NEXT_TASK_ID` supplied. -/
def newReady (taskId : ℕ) (vmSpace : V) (ra kernelSp tp satp : ℕ) : TaskControlBlock V :=
  ⟨taskId, vmSpace, .ready, TaskContext.newInitial ra kernelSp tp satp, TaskStatistics.newZeros⟩

def setState (tcb : TaskControlBlock V) (state : TaskState) : TaskControlBlock V :=
  { tcb with state := state }

def recordRunStart (tcb : TaskControlBlock V) (time : ℕ) : TaskControlBlock V :=
  { tcb with statistics := tcb.statistics.recordRunStart time }

def recordRunEnd (tcb : TaskControlBlock V) (time : ℕ) : TaskControlBlock V :=
  { tcb with statistics := tcb.statistics.recordRunEnd time }

def recordSyscall (tcb : TaskControlBlock V) (syscallId : ℕ) : TaskControlBlock V :=
  { tcb with statistics := (tcb.statistics.increaseSyscallCount syscallId).1 }

end TaskControlBlock

end RCoreKernel.Task
