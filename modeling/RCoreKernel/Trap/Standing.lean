import RCoreKernel.Syscall.Touch
import RCoreKernel.Task.Run
import RCoreKernel.Trap.Handlers

/-!
# The machine while a task runs

`Standing` is what holds of the machine whenever a trap of the running task is served: the scheduler
runs the task, and its space is in order.  Page faults only change the space of the task, so the
machine after any of them is `Machine.withSpace` of the machine before.

* `Standing.withSpace` — the machine with another space of the task;
* `Standing.doPageFault` — `do_page_fault` on the machine;
* `Standing.faulted` — **a page fault on a user address**.
-/

namespace RCoreKernel.Trap

open Mm Mm.VMSpace Mm.RootPgt Syscall RCoreKernel.Task

/-- The task of `tcb` runs, and its space is in order. -/
structure Standing (img : KernelImage) (first : ℕ) (rest created gone : List ℕ) (mc : Machine)
    (tcb : TaskControlBlock VMSpace) : Prop where
  ongoing : Ongoing created gone mc.kernel tcb
  running : tcb.state = .running
  tidy : Tidy img first rest mc.phys tcb.vmSpace

/-- The machine with other memory and another space of one task. -/
def Machine.withSpace (mc : Machine) (taskId : ℕ) (k : Phys) (s : VMSpace) : Machine :=
  ⟨k, mc.kernel.modifyTcb taskId fun tcb => { tcb with vmSpace := s }⟩

variable {img : KernelImage} {first : ℕ} {rest created gone : List ℕ} {mc : Machine}
  {tcb : TaskControlBlock VMSpace} {k k' : Phys} {s s' : VMSpace} {access : Access} {va : ℕ}

@[simp] theorem withSpace_phys (taskId : ℕ) : (mc.withSpace taskId k s).phys = k := rfl

/-- The last space counts. -/
theorem withSpace_withSpace (taskId : ℕ) :
    (mc.withSpace taskId k s).withSpace taskId k' s' = mc.withSpace taskId k' s' := by
  unfold Machine.withSpace Kernel.modifyTcb
  congr 2
  dsimp only
  have hid : ∀ t : TaskControlBlock VMSpace,
      decide ({ t with vmSpace := s }.taskId = taskId) = decide (t.taskId = taskId) := fun _ => rfl
  exact Vec.modifyFind_modifyFind hid _

namespace Standing

theorem withSpace (h : Standing img first rest created gone mc tcb)
    (ht : Tidy img first rest k s) :
    Standing img first rest created gone (mc.withSpace tcb.taskId k s) { tcb with vmSpace := s } :=
  ⟨h.ongoing.modify rfl rfl, h.running, ht⟩

variable (h : Standing img first rest created gone mc tcb)

include h

/-- The machine with the space the task has. -/
theorem withSpace_self : mc.withSpace tcb.taskId mc.phys tcb.vmSpace = mc := by
  have hself : Vec.modifyFind (fun t => decide (t.taskId = tcb.taskId))
      (fun t => { t with vmSpace := tcb.vmSpace }) mc.kernel.allTasks = mc.kernel.allTasks := by
    obtain ⟨A, B, hs, -, hs'⟩ :=
      modifyTcb_allTasks h.ongoing.find fun t => { t with vmSpace := tcb.vmSpace }
    rw [show Vec.modifyFind _ _ mc.kernel.allTasks = A ++ tcb :: B from hs', hs]
  unfold Machine.withSpace Kernel.modifyTcb
  rw [hself]

/-- `do_page_fault` for the running task. -/
theorem doPageFault (va minPermissions : ℕ) :
    Trap.doPageFault mc tcb.taskId va minPermissions =
      match mapFaultPage mc.phys tcb.vmSpace va minPermissions with
      | (.panic site, _, _) => .error (.mm site)
      | (.ok (), k, s) => .ok (.ok (), mc.withSpace tcb.taskId k s)
      | (.err e, k, s) => .ok (.error e, mc.withSpace tcb.taskId k s) := by
  unfold Trap.doPageFault
  rw [h.ongoing.find]
  rfl

/-- The thread pointer refers to the running task. -/
theorem tp_ne_zero : mc.kernel.tp ≠ 0 := by
  rw [h.ongoing.tp]
  exact (h.ongoing.listed.slots tcb h.ongoing.mem).1

theorem taskIdAt_tp : mc.kernel.taskIdAt mc.kernel.tp = tcb.taskId := by
  rw [h.ongoing.tp]
  exact (h.ongoing.listed.slots tcb h.ongoing.mem).2

/-- **A page fault on a user address.**  `do_page_fault` returns, and the machine stays in order. -/
theorem faulted (hva : checkUVa va = true)
    (hnot : ¬Permits mc.phys.mem tcb.vmSpace.rootPgt.ppn va access) :
    ∃ k s, Tidy img first rest k s ∧ Kept img first rest mc.phys tcb.vmSpace k s ∧
      ((Trap.doPageFault mc tcb.taskId va access.minPermissions =
            .ok (.ok (), mc.withSpace tcb.taskId k s) ∧
          FaultServed img first rest access va mc.phys tcb.vmSpace k s) ∨
        ((∃ e, Trap.doPageFault mc tcb.taskId va access.minPermissions =
            .ok (.error e, mc.withSpace tcb.taskId k s)) ∧
          FaultRefused access va mc.phys tcb.vmSpace ∧
          s.areas.map bounds = tcb.vmSpace.areas.map bounds ∧
          s.view k.mem = tcb.vmSpace.view mc.phys.mem ∧ ∀ v < userEndVpn,
            PTE.isValid (pteAt k.mem s.rootPgt.ppn v) = true ↔
              PTE.isValid (pteAt mc.phys.mem tcb.vmSpace.rootPgt.ppn v) = true)) := by
  obtain ⟨k, s, ht, hkept, ⟨hmap, hserved⟩ | ⟨⟨e, hmap⟩, hrefused⟩⟩ :=
    fault_reached h.tidy hva hnot
  · exact ⟨k, s, ht, hkept, Or.inl ⟨by rw [h.doPageFault, hmap], hserved⟩⟩
  · exact ⟨k, s, ht, hkept, Or.inr ⟨⟨e, by rw [h.doPageFault, hmap]⟩, hrefused⟩⟩

end Standing

/-- The task of the small machine. -/
def sampleTask : TaskControlBlock VMSpace :=
  ⟨7, sampleAreaSpace, .running, TaskContext.newInitial 0 0x1000 0x1000 0, TaskStatistics.newZeros⟩

theorem sampleMachine_standing :
    Standing sampleImage 0 [0, 1, 2] [7] [] sampleMachine sampleTask where
  ongoing := ⟨⟨by decide, fun id => by simp [sampleMachine], fun t ht => by
    rw [List.mem_singleton.mp ht]
    exact ⟨by decide, rfl⟩⟩, List.mem_singleton_self _, fun t ht hne => by
    rw [List.mem_singleton.mp ht] at hne
    exact absurd rfl hne, rfl⟩
  running := rfl
  tidy := ⟨sampleArea_kept.ok, sample_regular, sampleArea_kept.accounted, fun _ h => h⟩

end RCoreKernel.Trap
