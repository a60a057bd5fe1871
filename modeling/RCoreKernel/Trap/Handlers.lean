import RCoreKernel.Mm.Fault
import RCoreKernel.Syscall.Mm
import RCoreKernel.Task.Sched

/-!
# Trap handlers (`os/src/trap.rs`, `os/src/trap/utrap.rs`, `os/src/trap/ktrap.rs`)

`u_trap_handler` serves traps from user mode and `k_trap_handler` the page faults that the kernel
takes while it copies from or to user memory.  Both hand a page fault to `do_page_fault`; they
differ in what they do when it fails.

* `doPageFault_eq` — `do_page_fault` is `map_fault_page` on the space of the task;
* `uTrapHandler_fault`, `kTrapHandler_fault` — both handlers reduced to `do_page_fault`;
* `pageFault_decided` — **the decision on a page fault**: when it is served, what a served fault
  leaves behind, and what happens otherwise, the same on both paths.
-/

namespace RCoreKernel.Trap

open Mm Mm.VMSpace Mm.RootPgt Syscall RCoreKernel.Task

/-- `scause::Cause`. -/
inductive Cause
  | supervisorSoftwareInterrupt
  | supervisorTimerInterrupt
  | supervisorExternalInterrupt
  | counterOverflowInterrupt
  | instructionAddressMisaligned
  | instructionAccessFault
  | illegalInstruction
  | breakpoint
  | loadAddressMisaligned
  | loadAccessFault
  | storeOrAmoAddressMisaligned
  | storeOrAmoAccessFault
  | userEnvironmentCall
  | supervisorEnvironmentCall
  | instructionPageFault
  | loadPageFault
  | storeOrAmoPageFault
  | softwareCheck
  | hardwareError
  | unknown
  deriving DecidableEq, Repr

def interruptBit : ℕ := 1 <<< 63

def isInterrupt (value : ℕ) : Bool := value &&& interruptBit ≠ 0

def matchInterruptCause (value : ℕ) : Cause :=
  match value ^^^ interruptBit with
  | 1 => .supervisorSoftwareInterrupt
  | 5 => .supervisorTimerInterrupt
  | 9 => .supervisorExternalInterrupt
  | 13 => .counterOverflowInterrupt
  | _ => .unknown

def matchExceptionCause (value : ℕ) : Cause :=
  match value with
  | 0 => .instructionAddressMisaligned
  | 1 => .instructionAccessFault
  | 2 => .illegalInstruction
  | 3 => .breakpoint
  | 4 => .loadAddressMisaligned
  | 5 => .loadAccessFault
  | 6 => .storeOrAmoAddressMisaligned
  | 7 => .storeOrAmoAccessFault
  | 8 => .userEnvironmentCall
  | 9 => .supervisorEnvironmentCall
  | 12 => .instructionPageFault
  | 13 => .loadPageFault
  | 15 => .storeOrAmoPageFault
  | 18 => .softwareCheck
  | 19 => .hardwareError
  | _ => .unknown

/-- `match_cause`. -/
def matchCause (value : ℕ) : Cause :=
  if isInterrupt value then matchInterruptCause value else matchExceptionCause value

/-- Physical memory and the tasks. -/
structure Machine where
  phys : Phys
  kernel : Kernel VMSpace

/-- How the kernel comes down. -/
inductive Crash
  | sched (site : Site)
  | mm (site : Panic)
  /-- `trap_panic` -/
  | trap (cause : Cause)
  /-- `Unknown syscall` -/
  | unknownSyscall (id : ℕ)
  /-- `str::from_utf8(&dst).unwrap()` in `sys_write` -/
  | notUtf8
  /-- `vec![0; count]` in `sys_write`, when the heap has no such block -/
  | heapExhausted
  /-- an access of `__uaccess` that faults again and again -/
  | endless
  deriving DecidableEq, Repr

/-- `do_page_fault`. -/
def doPageFault (mc : Machine) (taskId stval minPermissions : ℕ) :
    Except Crash (Except VMError Unit × Machine) :=
  match mc.kernel.findTcb taskId with
  | none => .error (.sched .noTcb)
  | some tcb =>
    let after (k : Phys) (s : VMSpace) : Machine :=
      ⟨k, mc.kernel.modifyTcb taskId fun tcb => { tcb with vmSpace := s }⟩
    match mapFaultPage mc.phys tcb.vmSpace stval minPermissions with
    | (.panic site, _, _) => .error (.mm site)
    | (.ok (), k, s) => .ok (.ok (), after k s)
    | (.err e, k, s) => .ok (.error e, after k s)

/-- The end of a trap from user mode: back to the task, or on to another one. -/
inductive UEnd
  | resume
  | next (sw : Kernel.Switch VMSpace)

/-- `run_next_task`, on the machine. -/
def runNextTask (mc : Machine) (clock : Clock) : Except Crash (UEnd × Machine) :=
  match mc.kernel.runNextTask clock.takeCurr clock.takeNext clock.runStart with
  | .error site => .error (.sched site)
  | .ok sw => .ok (.next sw, mc)

/-- `kill_task(); run_next_task();`. -/
def killAndRunNext (mc : Machine) (clock : Clock) : Except Crash (UEnd × Machine) :=
  match mc.kernel.killTask clock.runEnd with
  | .error site => .error (.sched site)
  | .ok st => runNextTask { mc with kernel := st } clock

/-- `sleep_task(); run_next_task();`. -/
def sleepAndRunNext (mc : Machine) (clock : Clock) : Except Crash (UEnd × Machine) :=
  match mc.kernel.sleepTask clock.runEnd with
  | .error site => .error (.sched site)
  | .ok st => runNextTask { mc with kernel := st } clock

/-- The page fault arms of `u_trap_handler`. -/
def uPageFault (mc : Machine) (clock : Clock) (taskId stval minPermissions : ℕ) :
    Except Crash (UEnd × Machine) :=
  match doPageFault mc taskId stval minPermissions with
  | .error crash => .error crash
  | .ok (.ok (), mc) => .ok (.resume, mc)
  | .ok (.error _, mc) => killAndRunNext mc clock

/-- `u_trap_handler`, where `syscall` is what `syscall_handler` does for the call `syscallId`. -/
def uTrapHandler (syscall : Machine → Except Crash (UEnd × Machine)) (syscallId : ℕ) (mc : Machine)
    (clock : Clock) (scause stval : ℕ) : Except Crash (UEnd × Machine) :=
  match mc.kernel.tryGetCurrentTaskId with
  | none => .error (.sched .noCurrentTask)
  | some taskId =>
    match matchCause scause with
    | .supervisorTimerInterrupt => sleepAndRunNext mc clock
    | .userEnvironmentCall =>
      match mc.kernel.recordCurrentSyscall syscallId with
      | .error site => .error (.sched site)
      | .ok st => syscall { mc with kernel := st }
    | .storeOrAmoPageFault =>
      if checkUVa stval then uPageFault mc clock taskId stval (permissionU ||| permissionW)
      else .error (.trap .storeOrAmoPageFault)
    | .loadPageFault =>
      if checkUVa stval then uPageFault mc clock taskId stval (permissionU ||| permissionR)
      else .error (.trap .loadPageFault)
    | .illegalInstruction | .instructionPageFault => killAndRunNext mc clock
    | cause => .error (.trap cause)

/-- The labels of `uaccess.S`. -/
structure UAccess where
  lb : ℕ
  sb : ℕ
  fix : ℕ

/-- The page fault arms of `k_trap_handler`: the `sepc` to return to. -/
def kPageFault (mc : Machine) (ua : UAccess) (savedTp sepc stval minPermissions : ℕ) :
    Except Crash (ℕ × Machine) :=
  match doPageFault mc (mc.kernel.taskIdAt savedTp) stval minPermissions with
  | .error crash => .error crash
  | .ok (.ok (), mc) => .ok (sepc, mc)
  | .ok (.error _, mc) => .ok (ua.fix, mc)

/-- `k_trap_handler`. -/
def kTrapHandler (ua : UAccess) (mc : Machine) (savedTp scause sepc stval : ℕ) :
    Except Crash (ℕ × Machine) :=
  match matchCause scause with
  | .loadPageFault =>
    if savedTp ≠ 0 ∧ sepc = ua.lb then
      kPageFault mc ua savedTp sepc stval (permissionU ||| permissionR)
    else .error (.trap .loadPageFault)
  | .storeOrAmoPageFault =>
    if savedTp ≠ 0 ∧ sepc = ua.sb then
      kPageFault mc ua savedTp sepc stval (permissionU ||| permissionW)
    else .error (.trap .storeOrAmoPageFault)
  | cause => .error (.trap cause)

/-! ### Page faults -/

/-- The exception code of a page fault. -/
def scauseOf : Access → ℕ
  | .load => 13
  | .store => 15

/-- The instruction of `__uaccess` that makes the access. -/
def UAccess.label (ua : UAccess) : Access → ℕ
  | .load => ua.lb
  | .store => ua.sb

variable {img : KernelImage} {first taskId va : ℕ} {rest : List ℕ} {mc mc' : Machine}
  {tcb : TaskControlBlock VMSpace}

/-- Both handlers hand a page fault on a user address to `do_page_fault`. -/
theorem uTrapHandler_fault (hcur : mc.kernel.tryGetCurrentTaskId = some taskId)
    (hva : checkUVa va = true) (access : Access)
    (syscall : Machine → Except Crash (UEnd × Machine)) (syscallId : ℕ) (clock : Clock) :
    uTrapHandler syscall syscallId mc clock (scauseOf access) va =
      uPageFault mc clock taskId va access.minPermissions := by
  unfold uTrapHandler
  cases access with
  | load =>
    have hcause : matchCause (scauseOf .load) = .loadPageFault := by decide
    simp only [hcur, hcause, hva, if_true]
    rfl
  | store =>
    have hcause : matchCause (scauseOf .store) = .storeOrAmoPageFault := by decide
    simp only [hcur, hcause, hva, if_true]
    rfl

theorem kTrapHandler_fault (ua : UAccess) (htp : mc.kernel.tp ≠ 0) (va : ℕ) (access : Access) :
    kTrapHandler ua mc mc.kernel.tp (scauseOf access) (ua.label access) va =
      kPageFault mc ua mc.kernel.tp (ua.label access) va access.minPermissions := by
  unfold kTrapHandler
  cases access with
  | load =>
    have hcause : matchCause (scauseOf .load) = .loadPageFault := by decide
    simp only [hcause]
    rw [if_pos ⟨htp, rfl⟩]
    rfl
  | store =>
    have hcause : matchCause (scauseOf .store) = .storeOrAmoPageFault := by decide
    simp only [hcause]
    rw [if_pos ⟨htp, rfl⟩]
    rfl

/-- `do_page_fault` for a user address never panics, and it is `VMSpace::map`. -/
theorem doPageFault_eq (hok : SpaceOk img mc.phys.mem tcb.vmSpace)
    (hacc : mc.phys.Accounted first (tcb.vmSpace.pages ++ rest)) (hrest : ∀ p ∈ img.pages, p ∈ rest)
    (hfind : mc.kernel.findTcb taskId = some tcb) (hva : checkUVa va = true)
    (hinv : PTE.isValid (pteAt mc.phys.mem tcb.vmSpace.rootPgt.ppn (va / 4096)) = false)
    (minPermissions : ℕ) {res : Outcome VMError Unit} {k' : Phys} {s' : VMSpace}
    (h : VMSpace.map mc.phys tcb.vmSpace (va / 4096) minPermissions = (res, k', s')) :
    doPageFault mc taskId va minPermissions = .ok
      (match res with
        | .err e => .error e
        | _ => .ok (),
      ⟨k', mc.kernel.modifyTcb taskId fun tcb => { tcb with vmSpace := s' }⟩) := by
  rw [checkUVa_iff] at hva
  have hvpn : va / 4096 < userEndVpn := by
    rw [userEndVpn_eq]
    omega
  have hnp := (map_kept hok hacc hrest hvpn hinv h).1
  unfold doPageFault
  simp only [hfind, mapFaultPage, VPN.fromVa_of_user (show va < 2 ^ 38 by omega), h]
  cases res with
  | ok u => rfl
  | err e => rfl
  | panic site => exact absurd rfl (hnp site)

/-- The permissions of a faulting access ask for reading or writing. -/
theorem access_reads (access : Access) :
    access.minPermissions / 2 % 2 = 1 ∨ access.minPermissions / 4 % 2 = 1 := by
  cases access <;> decide

/-- **The decision on a page fault.**  For the running task and a user address without a valid
entry, `do_page_fault` returns; it succeeds exactly when the fault can be served; then the access
can be repeated, the new page is zero and nothing else has changed.  `u_trap_handler` resumes the
task or kills it, `k_trap_handler` resumes the copy at the same instruction or at the fix-up, on
the same decision. -/
theorem pageFault_decided (hok : SpaceOk img mc.phys.mem tcb.vmSpace)
    (hreg : RegularUser mc.phys.mem tcb.vmSpace.rootPgt.ppn)
    (hacc : mc.phys.Accounted first (tcb.vmSpace.pages ++ rest)) (hrest : ∀ p ∈ img.pages, p ∈ rest)
    (htp : mc.kernel.tp ≠ 0) (hid : mc.kernel.taskIdAt mc.kernel.tp = taskId)
    (hfind : mc.kernel.findTcb taskId = some tcb) (hrun : tcb.state = .running)
    (hva : va < userSpaceEnd)
    (hinv : PTE.isValid (pteAt mc.phys.mem tcb.vmSpace.rootPgt.ppn (va / 4096)) = false)
    (access : Access) (ua : UAccess) (clock : Clock)
    (syscall : Machine → Except Crash (UEnd × Machine)) (syscallId : ℕ) :
    ∃ res mc', doPageFault mc taskId va access.minPermissions = .ok (res, mc') ∧
      (res = .ok () ↔ Servable mc.phys tcb.vmSpace (va / 4096) access.minPermissions) ∧
      (res = .ok () → ∃ tcb', mc'.kernel.findTcb taskId = some tcb' ∧
        Faulted rest (va / 4096) access.minPermissions mc.phys tcb.vmSpace mc'.phys tcb'.vmSpace) ∧
      (res = .ok () →
        uTrapHandler syscall syscallId mc clock (scauseOf access) va = .ok (.resume, mc') ∧
        kTrapHandler ua mc mc.kernel.tp (scauseOf access) (ua.label access) va =
          .ok (ua.label access, mc')) ∧
      (res ≠ .ok () →
        uTrapHandler syscall syscallId mc clock (scauseOf access) va = killAndRunNext mc' clock ∧
        (∃ st tcb', mc'.kernel.killTask clock.runEnd = .ok st ∧ st.findTcb taskId = some tcb' ∧
          tcb'.state = .killed) ∧
        kTrapHandler ua mc mc.kernel.tp (scauseOf access) (ua.label access) va =
          .ok (ua.fix, mc')) := by
  have hcheck : checkUVa va = true := by
    rw [checkUVa, decide_eq_true_eq]
    exact hva
  have hvpn : va / 4096 < userEndVpn := by
    rw [checkUVa_iff] at hcheck
    rw [userEndVpn_eq]
    omega
  have hcur : mc.kernel.tryGetCurrentTaskId = some taskId := by
    rw [Kernel.tryGetCurrentTaskId, if_neg htp, hid]
  obtain ⟨res, k', s', h⟩ : ∃ res k' s',
      VMSpace.map mc.phys tcb.vmSpace (va / 4096) access.minPermissions = (res, k', s') :=
    ⟨_, _, _, rfl⟩
  have hiff := map_ok_iff hok hacc hrest hvpn hinv access.minPermissions
  rw [h] at hiff
  have hdo := doPageFault_eq hok hacc hrest hfind hcheck hinv access.minPermissions h
  have hnp := (map_kept hok hacc hrest hvpn hinv h).1
  have hfind' : (mc.kernel.modifyTcb taskId fun tcb => { tcb with vmSpace := s' }).findTcb taskId =
      some { tcb with vmSpace := s' } := findTcb_modifyTcb hfind rfl
  have hu := uTrapHandler_fault hcur hcheck access syscall syscallId clock
  have hk := kTrapHandler_fault ua htp va access
  unfold uPageFault at hu
  unfold kPageFault at hk
  rw [hid] at hk
  rw [hdo] at hu hk
  cases res with
  | panic site => exact absurd rfl (hnp site)
  | ok u =>
    refine ⟨.ok (), _, hdo, ?_, fun _ => ⟨_, hfind', ?_⟩, fun _ => ⟨hu, hk⟩, fun hne => absurd rfl hne⟩
    · simpa using hiff
    · rcases map_cases hok hacc hrest hvpn hinv h with ⟨⟨e, he⟩, -⟩ |
        ⟨A, B, a, page, k₁, r, k₂, t₂, ht, ⟨rfl, -, rfl, rfl⟩ | ⟨e, -, he, -⟩⟩
      · cases he
      · exact ht.faulted hok hacc hrest hvpn hreg (access_reads access)
      · cases he
  | err e =>
    refine ⟨.error e, _, hdo, ?_, (fun he => by cases he), (fun he => by cases he),
      fun _ => ⟨hu, ?_, hk⟩⟩
    · simpa using hiff
    · have hcur' : (mc.kernel.modifyTcb taskId fun tcb =>
          { tcb with vmSpace := s' }).tryGetCurrentTaskId = some taskId := hcur
      exact endSlice_state hcur' hfind' hrun .killed clock.runEnd

/-- One running task, with the small space. -/
def sampleMachine : Machine :=
  ⟨samplePhys, ⟨[⟨7, sampleAreaSpace, .running, TaskContext.newInitial 0 0x1000 0x1000 0,
    TaskStatistics.newZeros⟩], 0x1000, fun _ => 7⟩⟩

/-- A store to the small area is served. -/
theorem pageFault_decided_sample : ∃ mc',
    doPageFault sampleMachine 7 0x10008 (permissionU ||| permissionW) = .ok (.ok (), mc') ∧
      kTrapHandler ⟨0x100, 0x104, 0x108⟩ sampleMachine 0x1000 15 0x104 0x10008 =
        .ok (0x104, mc') := by
  have htp : sampleMachine.kernel.tp ≠ 0 := by decide
  have hfind : sampleMachine.kernel.findTcb 7 = some _ := rfl
  have hinv : PTE.isValid (pteAt sampleMachine.phys.mem sampleAreaSpace.rootPgt.ppn
      (0x10008 / 4096)) = false := by decide
  obtain ⟨res, mc', hdo, hiff, -, hserved, -⟩ := pageFault_decided sampleArea_kept.ok sample_regular
    sampleArea_kept.accounted (fun _ h => h) htp rfl hfind rfl (by decide) hinv .store
    ⟨0x100, 0x104, 0x108⟩ ⟨0, 0, 0, 0⟩ (fun mc => .ok (.resume, mc)) 0
  have hres : res = .ok () := hiff.mpr
    ⟨_, List.mem_singleton_self _, by decide, by decide, by decide, by decide⟩
  subst hres
  exact ⟨mc', hdo, (hserved rfl).2⟩

end RCoreKernel.Trap
