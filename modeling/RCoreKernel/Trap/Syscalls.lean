import RCoreKernel.Syscall.Isolation
import RCoreKernel.Trap.Growth

/-!
# `syscall_handler` (`os/src/syscall.rs`) and the traps it answers

`u_trap_handler` hands an `ecall` to `syscall_handler`, which panics for a number it does not know.
A trap is contained when the task is resumed, or is put back or ended and `run_next_task` goes on
without it.  An allocation that the kernel heap refuses brings the kernel down as well.

* `syscallHandler` — the six calls, on the machine;
* `trapGrowths`, `trap` — what a trap takes from the heap, and a trap with that heap;
* `Standing.leave` — the traps and calls after which another task runs;
* `mmap_standing`, `munmap_standing`, `sysTaskInfo_standing`, `sysWrite_standing` — the others;
* `trap_contained_iff` — **the traps from user mode that the kernel contains**.
-/

namespace RCoreKernel.Trap

open Mm Mm.VMSpace Syscall RCoreKernel.Task Utf8

def syscallWrite : ℕ := 64
def syscallMmap : ℕ := 90
def syscallMunmap : ℕ := 215
def syscallExit : ℕ := 93
def syscallYield : ℕ := 124
def syscallTaskInfo : ℕ := (1 <<< 63) ||| 1

/-- How a `TaskInfo` lies in memory: its size, the address of the local variable of `sys_task_info`
on the kernel stack, and its bytes. -/
structure InfoLayout where
  size : ℕ
  addr : ℕ
  byte : TaskControlBlock VMSpace → ℕ → ℕ
  placed : kernelVaOffset ≤ addr ∧ addr < 2 ^ 64 ∧ addr + size ≤ 2 ^ 64

/-- What the calls use beside the machine.  `grows buffer growths` says whether the heap serves these
growths of the collections, one after the other, beside a buffer of that size. -/
structure Surroundings where
  heap : Heap
  grows : ℕ → List Growth → Bool
  grows_nil : ∀ buffer, grows buffer [] = true
  ua : UAccess
  memory : ℕ → ℕ
  info : InfoLayout

/-- The registers of an `ecall`. -/
structure Call where
  syscallId : ℕ
  a0 : ℕ
  a1 : ℕ
  a2 : ℕ

/-- `mmap`. -/
def mmapCall (mc : Machine) (addr len prot : ℕ) : Except Crash (ℤ × Machine) :=
  if mmapAccepts addr len prot then
    match mc.kernel.tryGetCurrentTaskId with
    | none => .error (.sched .noCurrentTask)
    | some taskId =>
      match mc.kernel.findTcb taskId with
      | none => .error (.sched .noTcb)
      | some tcb =>
        let r := mmapTcb addr len prot tcb.vmSpace
        match resultCode r.1 with
        | .error site => .error (.mm site)
        | .ok code => .ok (code, mc.withSpace taskId mc.phys r.2)
  else .ok (-1, mc)

/-- `munmap`. -/
def munmapCall (mc : Machine) (addr len : ℕ) : Except Crash (ℤ × Machine) :=
  if !checkUVaRange addr len then .ok (-1, mc)
  else if len = 0 then .ok (0, mc)
  else
    match mc.kernel.tryGetCurrentTaskId with
    | none => .error (.sched .noCurrentTask)
    | some taskId =>
      match mc.kernel.findTcb taskId with
      | none => .error (.sched .noTcb)
      | some tcb =>
        let r := munmapTcb addr len mc.phys tcb.vmSpace
        match resultCode r.1 with
        | .error site => .error (.mm site)
        | .ok code => .ok (code, mc.withSpace taskId r.2.1 r.2.2)

/-- `sys_task_info`.  `copy_to_user` is the same call of `__uaccess` as `copy_from_user`. -/
def sysTaskInfo (info : InfoLayout) (ua : UAccess) (mc : Machine) (memory : ℕ → ℕ)
    (taskId dst : ℕ) : Except Crash (ℤ × Machine) :=
  if !checkUVaRange dst info.size then .ok (-1, mc)
  else
    match mc.kernel.findTcb taskId with
    | none => .ok (-1, mc)
    | some tcb =>
      let memory a :=
        if info.addr ≤ a ∧ a < info.addr + info.size then info.byte tcb (a - info.addr) else memory a
      match copyFromUser ua mc memory info.addr dst info.size with
      | .error crash => .error crash
      | .ok c => .ok (if c.result = 0 then 0 else -1, c.mc)

/-- A call that returns to the task; what it returns goes to the trap context. -/
def returning : Except Crash (ℤ × Machine) → Except Crash (UEnd × Machine)
  | .error crash => .error crash
  | .ok (_, mc) => .ok (.resume, mc)

/-- A call that ends with `run_next_task`. -/
def leaving (mc : Machine) (clock : Clock) :
    Except Site (Kernel VMSpace) → Except Crash (UEnd × Machine)
  | .error site => .error (.sched site)
  | .ok st => runNextTask { mc with kernel := st } clock

/-- `syscall_handler`. -/
def syscallHandler (env : Surroundings) (clock : Clock) (call : Call) (mc : Machine) :
    Except Crash (UEnd × Machine) :=
  if call.syscallId = syscallWrite then
    returning ((sysWrite env.heap env.ua mc env.memory call.a0 call.a1 call.a2).map
      fun w => (w.ret, w.mc))
  else if call.syscallId = syscallMmap then returning (mmapCall mc call.a0 call.a1 call.a2)
  else if call.syscallId = syscallMunmap then returning (munmapCall mc call.a0 call.a1)
  else if call.syscallId = syscallExit then leaving mc clock mc.kernel.sysExit
  else if call.syscallId = syscallYield then leaving mc clock mc.kernel.sysYield
  else if call.syscallId = syscallTaskInfo then
    returning (sysTaskInfo env.info env.ua mc env.memory call.a0 call.a1)
  else .error (.unknownSyscall call.syscallId)

/-- A trap with its registers, while the heap serves every growth. -/
def servedTrap (env : Surroundings) (clock : Clock) (call : Call) (mc : Machine)
    (scause stval : ℕ) : Except Crash (UEnd × Machine) :=
  uTrapHandler (syscallHandler env clock call) call.syscallId mc clock scause stval

/-! ### The heap -/

/-- `sys_task_info`. -/
def taskInfoGrowths (env : Surroundings) (mc : Machine) (taskId dst : ℕ) : List Growth :=
  if checkUVaRange dst env.info.size = false then []
  else
    match mc.kernel.findTcb taskId with
    | none => []
    | some tcb =>
      let memory a :=
        if env.info.addr ≤ a ∧ a < env.info.addr + env.info.size then
          env.info.byte tcb (a - env.info.addr)
        else env.memory a
      copyGrowths env.ua mc memory env.info.addr dst env.info.size

/-- `syscall_handler`. -/
def callGrowths (env : Surroundings) (call : Call) (mc : Machine) : List Growth :=
  if call.syscallId = syscallWrite then
    writeGrowths env.heap env.ua mc env.memory call.a0 call.a1 call.a2
  else if call.syscallId = syscallMmap then mmapGrowths mc call.a0 call.a1 call.a2
  else if call.syscallId = syscallMunmap then munmapGrowths mc call.a0 call.a1
  else if call.syscallId = syscallExit then endGrowths mc
  else if call.syscallId = syscallTaskInfo then taskInfoGrowths env mc call.a0 call.a1
  else []

/-- The growths during a trap, in order. -/
def trapGrowths (env : Surroundings) (call : Call) (mc : Machine) (scause stval : ℕ) :
    List Growth :=
  match mc.kernel.tryGetCurrentTaskId with
  | none => []
  | some taskId =>
    match matchCause scause with
    | .userEnvironmentCall =>
      match mc.kernel.recordCurrentSyscall call.syscallId with
      | .error _ => []
      | .ok st => callGrowths env call { mc with kernel := st }
    | .storeOrAmoPageFault =>
      if checkUVa stval then uPageFaultGrowths mc taskId stval (permissionU ||| permissionW) else []
    | .loadPageFault =>
      if checkUVa stval then uPageFaultGrowths mc taskId stval (permissionU ||| permissionR) else []
    | .illegalInstruction | .instructionPageFault => endGrowths mc
    | _ => []

/-- The buffer that `sys_write` holds while it copies. -/
def heldBuffer (call : Call) (scause : ℕ) : ℕ :=
  if matchCause scause = .userEnvironmentCall ∧ call.syscallId = syscallWrite then call.a2 else 0

/-- The heap serves every growth during the trap. -/
def HeapServes (env : Surroundings) (call : Call) (mc : Machine) (scause stval : ℕ) : Prop :=
  env.grows (heldBuffer call scause) (trapGrowths env call mc scause stval) = true

instance (env : Surroundings) (call : Call) (mc : Machine) (scause stval : ℕ) :
    Decidable (HeapServes env call mc scause stval) :=
  inferInstanceAs (Decidable (_ = true))

/-- A trap with its registers, handled. -/
def trap (env : Surroundings) (clock : Clock) (call : Call) (mc : Machine) (scause stval : ℕ) :
    Except Crash (UEnd × Machine) :=
  if HeapServes env call mc scause stval then servedTrap env clock call mc scause stval
  else .error .heapExhausted

theorem trap_ok {env : Surroundings} {clock : Clock} {call : Call} {mc : Machine} {scause stval : ℕ}
    {result : UEnd × Machine} (h : trap env clock call mc scause stval = .ok result) :
    servedTrap env clock call mc scause stval = .ok result := by
  unfold trap at h
  split at h
  · exact h
  · cases h

/-! ### What it means to contain a trap -/

/-- `run_next_task` has gone on: no task is left, or a ready task runs. -/
def Handed (created gone : List ℕ) (clock : Clock) : Kernel.Switch VMSpace → Prop
  | .shutdown _ tasks => tasks = [] ∧ ∀ id ∈ created, id ∈ gone
  | .switch _ _ next st => Ongoing created gone st (started next clock.runStart)

/-- The task is resumed with its space in order, or it has left the state `Running` and the kernel
goes on; of the tasks, only this one may have ended. -/
def Contained (img : KernelImage) (first : ℕ) (rest created gone : List ℕ) (taskId : ℕ)
    (clock : Clock) (result : Except Crash (UEnd × Machine)) : Prop :=
  (∃ mc tcb, result = .ok (.resume, mc) ∧ Standing img first rest created gone mc tcb ∧
      tcb.taskId = taskId) ∨
    ∃ new sw mc, new ≠ .running ∧ result = .ok (.next sw, mc) ∧
      Handed created (goneAfter gone taskId new) clock sw

/-- For a checked range, `sys_write` has a block for the buffer, and a buffer that can be read is
UTF-8. -/
def WriteServed (env : Surroundings) (mc : Machine) (tcb : TaskControlBlock VMSpace)
    (fd buf count : ℕ) : Prop :=
  fd = fdStdout → checkUVaRange buf count = true →
    (0 < count → env.heap.alloc count ≠ none) ∧
      (Readable mc tcb buf count → fromUtf8 (userBytes mc tcb buf count) ≠ none)

/-- The calls other than `sys_write`. -/
def otherCalls : List ℕ :=
  [syscallMmap, syscallMunmap, syscallExit, syscallYield, syscallTaskInfo]

/-- The calls that are answered. -/
def Answered (env : Surroundings) (mc : Machine) (tcb : TaskControlBlock VMSpace) (call : Call) :
    Prop :=
  call.syscallId ∈ otherCalls ∨
    call.syscallId = syscallWrite ∧ WriteServed env mc tcb call.a0 call.a1 call.a2

/-- The traps that have an answer. -/
def Foreseen (env : Surroundings) (mc : Machine) (tcb : TaskControlBlock VMSpace) (call : Call)
    (scause stval : ℕ) : Prop :=
  match matchCause scause with
  | .supervisorTimerInterrupt | .illegalInstruction | .instructionPageFault => True
  | .loadPageFault | .storeOrAmoPageFault => checkUVa stval = true
  | .userEnvironmentCall => Answered env mc tcb call
  | _ => False

/-- The traps that are expected: they have an answer, for which the heap is large enough. -/
def Expected (env : Surroundings) (mc : Machine) (tcb : TaskControlBlock VMSpace) (call : Call)
    (scause stval : ℕ) : Prop :=
  Foreseen env mc tcb call scause stval ∧ HeapServes env call mc scause stval

/-- The hardware raises a page fault on a user address only for an access that the tables do not
permit. -/
def Raised (mc : Machine) (tcb : TaskControlBlock VMSpace) (scause stval : ℕ) : Prop :=
  ∀ access, matchCause scause = matchCause (scauseOf access) → checkUVa stval = true →
    ¬Permits mc.phys.mem tcb.vmSpace.rootPgt.ppn stval access

variable {img : KernelImage} {first : ℕ} {rest created gone : List ℕ} {mc : Machine}
  {tcb : TaskControlBlock VMSpace} {env : Surroundings} {clock : Clock} {call : Call}

theorem not_contained_error {taskId : ℕ} (crash : Crash) :
    ¬Contained img first rest created gone taskId clock (.error crash) := by
  rintro (⟨_, _, h, -⟩ | ⟨_, _, _, -, h, -⟩) <;> cases h

/-- **The task leaves the state `Running`.** -/
theorem Standing.leave (h : Standing img first rest created gone mc tcb)
    {a : Action VMSpace} {new : TaskState} (ha : a.leaves = some new) (clock : Clock) :
    ∃ st sw, a.apply mc.kernel clock.runEnd = .ok st ∧
      runNextTask { mc with kernel := st } clock = .ok (.next sw, { mc with kernel := st }) ∧
      Handed created (goneAfter gone tcb.taskId new) clock sw := by
  obtain ⟨st, happly, -, -, hc⟩ := Action.continues h.ongoing h.running ha clock
  rcases hc with ⟨dropped, hrun, hgone⟩ | ⟨curr, dropped, next, st', -, hrun, hong, -⟩
  · refine ⟨st, .shutdown dropped [], happly, ?_, rfl, hgone⟩
    rw [runNextTask, hrun]
  · refine ⟨st, .switch curr dropped next st', happly, ?_, hong⟩
    rw [runNextTask, hrun]

theorem Standing.contained_leaving (h : Standing img first rest created gone mc tcb)
    {a : Action VMSpace} {new : TaskState} (ha : a.leaves = some new) (clock : Clock) :
    Contained img first rest created gone tcb.taskId clock
      (leaving mc clock (a.apply mc.kernel clock.runEnd)) := by
  obtain ⟨st, sw, happly, hrun, hhanded⟩ := h.leave ha clock
  rw [happly]
  exact Or.inr ⟨new, sw, _, leaves_ne_running ha, hrun, hhanded⟩

/-- The task is resumed with another space. -/
theorem Standing.contained_resume (h : Standing img first rest created gone mc tcb) {k : Phys}
    {s : VMSpace} (ht : Tidy img first rest k s) (clock : Clock) :
    Contained img first rest created gone tcb.taskId clock
      (.ok (.resume, mc.withSpace tcb.taskId k s)) :=
  Or.inl ⟨_, _, rfl, h.withSpace ht, rfl⟩

/-! ### The calls that return -/

theorem mmap_standing (h : Standing img first rest created gone mc tcb) (addr len prot : ℕ) :
    ∃ code s, mmapCall mc addr len prot = .ok (code, mc.withSpace tcb.taskId mc.phys s) ∧
      Tidy img first rest mc.phys s := by
  have hv := mmap_onView h.tidy.ok h.tidy.accounted addr len prot
  obtain ⟨⟨code, hcode⟩, -⟩ := mmap_served h.tidy.ok h.tidy.accounted addr len prot
  have ht := h.tidy.of_viewed hv
  unfold Request.exec Syscall.mmap at hcode ht
  unfold mmapCall
  by_cases haccept : mmapAccepts addr len prot = true
  · simp only [haccept, if_true] at hcode ht
    simp only [haccept, if_true, h.ongoing.current, h.ongoing.find, hcode]
    exact ⟨code, _, rfl, ht⟩
  · rw [if_neg haccept]
    exact ⟨-1, tcb.vmSpace, by rw [h.withSpace_self], h.tidy⟩

theorem munmap_standing (h : Standing img first rest created gone mc tcb) (addr len : ℕ) :
    ∃ code k s, munmapCall mc addr len = .ok (code, mc.withSpace tcb.taskId k s) ∧
      Tidy img first rest k s := by
  have hv := munmap_onView h.tidy.ok h.tidy.accounted h.tidy.kernel addr len
  obtain ⟨⟨code, hcode⟩, -⟩ := munmap_served h.tidy.ok h.tidy.accounted h.tidy.kernel addr len
  have ht := h.tidy.of_viewed hv
  unfold Request.exec Syscall.munmap at hcode ht
  unfold munmapCall
  by_cases hrange : (!checkUVaRange addr len) = true
  · rw [if_pos hrange]
    exact ⟨-1, mc.phys, tcb.vmSpace, by rw [h.withSpace_self], h.tidy⟩
  rw [if_neg hrange]
  by_cases hlen : len = 0
  · rw [if_pos hlen]
    exact ⟨0, mc.phys, tcb.vmSpace, by rw [h.withSpace_self], h.tidy⟩
  rw [if_neg hlen]
  simp only [if_neg hrange, if_neg hlen] at hcode ht
  simp only [h.ongoing.current, h.ongoing.find, hcode]
  exact ⟨code, _, _, rfl, ht⟩

/-- `copy_to_user` from kernel memory. -/
theorem copyToUser_standing (h : Standing img first rest created gone mc tcb) {ua : UAccess}
    (hlb : ua.lb ≠ ua.fix) (hsb : ua.sb ≠ ua.fix) (memory : ℕ → ℕ) {src dst len : ℕ}
    (hdst : checkUVaRange dst len = true)
    (hsrc : kernelVaOffset ≤ src ∧ src < 2 ^ 64 ∧ src + len ≤ 2 ^ 64) :
    ∃ c k s, copyFromUser ua mc memory src dst len = .ok c ∧
      c.mc = mc.withSpace tcb.taskId k s ∧ Tidy img first rest k s := by
  obtain ⟨c, r, k, s, hrun, hc⟩ := uaccess_spec (e := ⟨.store, dst, src, len⟩) h
    ⟨hdst, hsrc.1, hsrc.2.1, hsrc.2.2⟩ hlb hsb memory
  refine ⟨c, k, s, ?_, hc.machine_eq, hc.tidy⟩
  have hrun : Copy.run ua (5 * len + 1) (Copy.start mc memory src dst len) = .ok c := hrun
  rw [copyFromUser, hrun]
  dsimp only
  rw [if_pos hc.done]

theorem sysTaskInfo_standing (h : Standing img first rest created gone mc tcb)
    (hlb : env.ua.lb ≠ env.ua.fix) (hsb : env.ua.sb ≠ env.ua.fix) (taskId dst : ℕ) :
    ∃ code k s, sysTaskInfo env.info env.ua mc env.memory taskId dst =
        .ok (code, mc.withSpace tcb.taskId k s) ∧ Tidy img first rest k s := by
  unfold sysTaskInfo
  by_cases hrange : (!checkUVaRange dst env.info.size) = true
  · rw [if_pos hrange]
    exact ⟨-1, mc.phys, tcb.vmSpace, by rw [h.withSpace_self], h.tidy⟩
  rw [if_neg hrange]
  cases mc.kernel.findTcb taskId with
  | none => exact ⟨-1, mc.phys, tcb.vmSpace, by rw [h.withSpace_self], h.tidy⟩
  | some other =>
    dsimp only
    obtain ⟨c, k, s, hcopy, hmc, ht⟩ := copyToUser_standing h hlb hsb (fun a =>
      if env.info.addr ≤ a ∧ a < env.info.addr + env.info.size then
        env.info.byte other (a - env.info.addr)
      else env.memory a) (by simpa using hrange) env.info.placed
    rw [hcopy]
    dsimp only
    rw [hmc]
    exact ⟨_, k, s, rfl, ht⟩

/-- `sys_write` returns, or it ends in one of its two panics. -/
theorem sysWrite_returns (h : Standing img first rest created gone mc tcb)
    (hlb : env.ua.lb ≠ env.ua.fix) (hsb : env.ua.sb ≠ env.ua.fix) (fd buf count : ℕ) :
    (∃ w k s, sysWrite env.heap env.ua mc env.memory fd buf count = .ok w ∧
        w.mc = mc.withSpace tcb.taskId k s ∧ Tidy img first rest k s) ∧
      WriteServed env mc tcb fd buf count ∨
    (∃ crash, sysWrite env.heap env.ua mc env.memory fd buf count = .error crash) ∧
      ¬WriteServed env mc tcb fd buf count := by
  by_cases hready : fd = fdStdout ∧ checkUVaRange buf count = true
  · obtain ⟨rfl, hbuf⟩ := hready
    obtain ⟨hwrote, hok⟩ := sysWrite_spec h hlb hsb env.heap env.memory hbuf
    obtain ⟨res, hres⟩ : ∃ res,
        sysWrite env.heap env.ua mc env.memory fdStdout buf count = res := ⟨_, rfl⟩
    rw [hres] at hwrote
    cases hwrote with
    | exhausted hpos hnone => exact Or.inr ⟨⟨_, hres⟩, fun hall => (hall rfl hbuf).1 hpos hnone⟩
    | @failed w hserved hread _ _ =>
      obtain ⟨k, s, ht, hmc⟩ := hok w hres
      exact Or.inl ⟨⟨w, k, s, hres, hmc, ht⟩, fun _ _ => ⟨hserved, fun h => absurd h hread⟩⟩
    | notUtf8 hserved hread hnone =>
      exact Or.inr ⟨⟨_, hres⟩, fun hall => (hall rfl hbuf).2 hread hnone⟩
    | @written w str hserved hread hstr _ _ =>
      obtain ⟨k, s, ht, hmc⟩ := hok w hres
      exact Or.inl ⟨⟨w, k, s, hres, hmc, ht⟩, fun _ _ => ⟨hserved, fun _ => by simp [hstr]⟩⟩
  · obtain ⟨w, hw, -, -, hmc⟩ :=
      sysWrite_rejected env.heap env.ua mc env.memory (rejected_of_not_ready hready)
    exact Or.inl ⟨⟨w, mc.phys, tcb.vmSpace, hw, by rw [hmc, h.withSpace_self], h.tidy⟩,
      fun hfd hbuf => absurd ⟨hfd, hbuf⟩ hready⟩

/-! ### The traps -/

/-- **A system call.** -/
theorem syscall_contained_iff (h : Standing img first rest created gone mc tcb)
    (hlb : env.ua.lb ≠ env.ua.fix) (hsb : env.ua.sb ≠ env.ua.fix) (clock : Clock) (call : Call) :
    Contained img first rest created gone tcb.taskId clock (syscallHandler env clock call mc) ↔
      Answered env mc tcb call := by
  -- a call that always returns
  have hknown : ∀ {result : Except Crash (UEnd × Machine)} {n : ℕ}, call.syscallId = n →
      n ∈ otherCalls → Contained img first rest created gone tcb.taskId clock result →
      (Contained img first rest created gone tcb.taskId clock result ↔
        Answered env mc tcb call) :=
    fun hid hmem hc => ⟨fun _ => Or.inl (hid ▸ hmem), fun _ => hc⟩
  unfold syscallHandler
  by_cases hwrite : call.syscallId = syscallWrite
  · have hother : call.syscallId ∉ otherCalls := by
      rw [hwrite]
      decide
    rw [if_pos hwrite]
    rcases sysWrite_returns h hlb hsb call.a0 call.a1 call.a2 with
      ⟨⟨w, k, s, hw, hmc, ht⟩, hcond⟩ | ⟨⟨crash, hcrash⟩, hcond⟩
    · rw [hw]
      refine ⟨fun _ => Or.inr ⟨hwrite, hcond⟩, fun _ => ?_⟩
      have hres := h.contained_resume ht clock
      rwa [← hmc] at hres
    · rw [hcrash]
      refine ⟨fun hc => absurd hc (not_contained_error crash), fun hans => ?_⟩
      exact absurd (hans.resolve_left hother).2 hcond
  rw [if_neg hwrite]
  by_cases hmmap : call.syscallId = syscallMmap
  · obtain ⟨code, s, hcall, ht⟩ := mmap_standing h call.a0 call.a1 call.a2
    rw [if_pos hmmap, hcall]
    exact hknown hmmap (by decide) (h.contained_resume ht clock)
  rw [if_neg hmmap]
  by_cases hmunmap : call.syscallId = syscallMunmap
  · obtain ⟨code, k, s, hcall, ht⟩ := munmap_standing h call.a0 call.a1
    rw [if_pos hmunmap, hcall]
    exact hknown hmunmap (by decide) (h.contained_resume ht clock)
  rw [if_neg hmunmap]
  by_cases hexit : call.syscallId = syscallExit
  · rw [if_pos hexit]
    exact hknown hexit (by decide) (h.contained_leaving (a := .exit) rfl clock)
  rw [if_neg hexit]
  by_cases hyield : call.syscallId = syscallYield
  · rw [if_pos hyield]
    exact hknown hyield (by decide) (h.contained_leaving (a := .yield) rfl clock)
  rw [if_neg hyield]
  by_cases hinfo : call.syscallId = syscallTaskInfo
  · obtain ⟨code, k, s, hcall, ht⟩ := sysTaskInfo_standing h hlb hsb call.a0 call.a1
    rw [if_pos hinfo, hcall]
    exact hknown hinfo (by decide) (h.contained_resume ht clock)
  rw [if_neg hinfo]
  refine ⟨fun hc => absurd hc (not_contained_error _), ?_⟩
  rintro (hmem | ⟨hid, -⟩)
  · simp only [otherCalls, List.mem_cons, List.not_mem_nil, or_false] at hmem
    tauto
  · exact absurd hid hwrite

/-- A page fault on a user address that the tables do not permit. -/
theorem uPageFault_contained (h : Standing img first rest created gone mc tcb) {va : ℕ}
    (hva : checkUVa va = true) {access : Access}
    (hnot : ¬Permits mc.phys.mem tcb.vmSpace.rootPgt.ppn va access) (clock : Clock) :
    Contained img first rest created gone tcb.taskId clock
      (uPageFault mc clock tcb.taskId va access.minPermissions) := by
  obtain ⟨k, s, ht, -, ⟨hdo, -⟩ | ⟨⟨e, hdo⟩, -⟩⟩ := h.faulted hva hnot
  · rw [uPageFault, hdo]
    exact h.contained_resume ht clock
  · rw [uPageFault, hdo]
    exact (h.withSpace ht).contained_leaving (a := .kill) rfl clock

/-- The task after `record_current_syscall`. -/
theorem Standing.recorded (h : Standing img first rest created gone mc tcb) (syscallId : ℕ) :
    ∃ st, mc.kernel.recordCurrentSyscall syscallId = .ok st ∧
      Standing img first rest created gone { mc with kernel := st } (tcb.recordSyscall syscallId) := by
  obtain ⟨st, happly, hong, -⟩ := Action.apply_ongoing h.ongoing h.running (.syscall syscallId) 0
  exact ⟨st, happly, hong, h.running, h.tidy⟩

/-- While the heap serves every growth, the traps with an answer are contained. -/
theorem servedTrap_contained_iff (h : Standing img first rest created gone mc tcb)
    (hlb : env.ua.lb ≠ env.ua.fix) (hsb : env.ua.sb ≠ env.ua.fix) (clock : Clock) (call : Call)
    {scause stval : ℕ} (hraised : Raised mc tcb scause stval) :
    Contained img first rest created gone tcb.taskId clock
      (servedTrap env clock call mc scause stval) ↔ Foreseen env mc tcb call scause stval := by
  have herror : ∀ crash, Contained img first rest created gone tcb.taskId clock (.error crash) ↔
      False := fun crash => iff_false_intro (not_contained_error crash)
  unfold servedTrap uTrapHandler Foreseen
  rw [h.ongoing.current]
  dsimp only
  cases hcause : matchCause scause with
  | supervisorTimerInterrupt =>
    exact iff_of_true (h.contained_leaving (a := .timer) rfl clock) trivial
  | illegalInstruction =>
    exact iff_of_true (h.contained_leaving (a := .kill) rfl clock) trivial
  | instructionPageFault =>
    exact iff_of_true (h.contained_leaving (a := .kill) rfl clock) trivial
  | userEnvironmentCall =>
    obtain ⟨st, hrecord, hst⟩ := h.recorded call.syscallId
    dsimp only
    rw [hrecord]
    exact syscall_contained_iff hst hlb hsb clock call
  | loadPageFault =>
    dsimp only
    by_cases hva : checkUVa stval = true
    · rw [if_pos hva]
      exact iff_of_true (uPageFault_contained h hva (hraised .load hcause hva) clock) hva
    · rw [if_neg hva, herror]
      exact iff_of_false id hva
  | storeOrAmoPageFault =>
    dsimp only
    by_cases hva : checkUVa stval = true
    · rw [if_pos hva]
      exact iff_of_true (uPageFault_contained h hva (hraised .store hcause hva) clock) hva
    · rw [if_neg hva, herror]
      exact iff_of_false id hva
  | _ => exact herror _

/-- **The traps that the kernel contains.**  A trap of the running task resumes it, or puts it back
or ends it and the kernel goes on, exactly when it is one that is expected; any other trap brings
the kernel down. -/
theorem trap_contained_iff (h : Standing img first rest created gone mc tcb)
    (hlb : env.ua.lb ≠ env.ua.fix) (hsb : env.ua.sb ≠ env.ua.fix) (clock : Clock) (call : Call)
    {scause stval : ℕ} (hraised : Raised mc tcb scause stval) :
    Contained img first rest created gone tcb.taskId clock (trap env clock call mc scause stval) ↔
      Expected env mc tcb call scause stval := by
  unfold trap Expected
  by_cases hserves : HeapServes env call mc scause stval
  · rw [if_pos hserves, and_iff_left hserves]
    exact servedTrap_contained_iff h hlb hsb clock call hraised
  · rw [if_neg hserves]
    exact iff_of_false (not_contained_error _) fun he => hserves he.2

/-! ### The small machine -/

theorem sampleInfo_placed : kernelVaOffset ≤ kernelVaOffset ∧ kernelVaOffset < 2 ^ 64 ∧
    kernelVaOffset + 160 ≤ 2 ^ 64 := by
  decide

def sampleInfo : InfoLayout where
  size := 160
  addr := kernelVaOffset
  byte _ _ := 0
  placed := sampleInfo_placed

/-- The heap has room for a hundred growths. -/
def sampleSurroundings : Surroundings where
  heap := sampleHeap
  grows _ growths := growths.length ≤ 100
  grows_nil _ := rfl
  ua := ⟨0x100, 0x104, 0x108⟩
  memory _ := 0
  info := sampleInfo

/-- A store to the small area is contained: the heap takes the page and the missing tables. -/
theorem trap_contained_sample :
    trapGrowths sampleSurroundings ⟨0, 0, 0, 0⟩ sampleMachine 15 0x10008 =
        [.page 0, .table 1, .table 2] ∧
      Contained sampleImage 0 [0, 1, 2] [7] [] 7 ⟨0, 0, 0, 0⟩
        (trap sampleSurroundings ⟨0, 0, 0, 0⟩ ⟨0, 0, 0, 0⟩ sampleMachine 15 0x10008) := by
  have hcause : matchCause 15 = .storeOrAmoPageFault := by decide
  have hgrowths : trapGrowths sampleSurroundings ⟨0, 0, 0, 0⟩ sampleMachine 15 0x10008 =
      [.page 0, .table 1, .table 2] := by decide +kernel
  refine ⟨hgrowths, (trap_contained_iff sampleMachine_standing (by decide) (by decide) _ _ ?_).mpr
    ⟨?_, ?_⟩⟩
  · rintro access - - ⟨hvalid, -⟩
    exact absurd hvalid (by decide)
  · unfold Foreseen
    rw [hcause]
    decide
  · unfold HeapServes
    rw [hgrowths]
    decide

/-- A load from the kernel half is not: the kernel panics. -/
theorem kernel_load_panics :
    Standing sampleImage 0 [0, 1, 2] [7] [] sampleMachine sampleTask ∧
      Raised sampleMachine sampleTask 13 userSpaceEnd ∧
      trap sampleSurroundings ⟨0, 0, 0, 0⟩ ⟨0, 0, 0, 0⟩ sampleMachine 13 userSpaceEnd =
        .error (.trap .loadPageFault) ∧
      ¬Contained sampleImage 0 [0, 1, 2] [7] [] sampleTask.taskId ⟨0, 0, 0, 0⟩
        (trap sampleSurroundings ⟨0, 0, 0, 0⟩ ⟨0, 0, 0, 0⟩ sampleMachine 13 userSpaceEnd) := by
  have htrap : trap sampleSurroundings ⟨0, 0, 0, 0⟩ ⟨0, 0, 0, 0⟩ sampleMachine 13 userSpaceEnd =
      .error (.trap .loadPageFault) := by
    have hserves : HeapServes sampleSurroundings ⟨0, 0, 0, 0⟩ sampleMachine 13 userSpaceEnd := by
      decide +kernel
    have hcause : matchCause 13 = .loadPageFault := by decide
    have hva : ¬checkUVa userSpaceEnd = true := by decide
    rw [trap, if_pos hserves]
    unfold servedTrap uTrapHandler
    rw [sampleMachine_standing.ongoing.current]
    simp only [hcause, if_neg hva]
  refine ⟨sampleMachine_standing, fun _ _ hva => absurd hva (by decide), htrap, ?_⟩
  rw [htrap]
  exact not_contained_error _

end RCoreKernel.Trap
