import RCoreKernel.Lib.Locks

/-!
# The locks of the kernel

`ALL_TASKS` and `PAGE_ALLOCATOR` are the two spin locks that kernel code takes while it serves
traps.  This file gives, for every function on the way from a trap to the return to user mode,
its lock operations in the order of the source: a guard that is a temporary is released at the
end of its statement, a guard bound by `let` at the end of its block or by `drop`, and a `Page`
that goes out of scope takes `PAGE_ALLOCATOR` for a moment.  Panics and `shutdown` never return.
A page fault inside `copy_from_user` or `copy_to_user` runs `k_trap_handler` in the middle of the
copy.

* `kernel_lockOrder` — **no lock is taken twice, `ALL_TASKS` is never taken while
  `PAGE_ALLOCATOR` is held, and neither is held at a switch or on the way to user mode**.
-/

namespace RCoreKernel.Task.LockOrder

open Locks Locks.Prog

/-- The locks. -/
inductive Lock
  | allTasks
  | pageAllocator
  deriving DecidableEq, Repr

/-- The points that have to be passed without a lock. -/
inductive Point
  | switch
  | user
  deriving DecidableEq, Repr

abbrev Code := Prog Lock Point

/-! ### `mm/page_alloc.rs` -/

/-- `alloc_page`. -/
def allocPage : Code := locked .pageAllocator .skip

/-- `alloc_zeroed_page`. -/
def allocZeroedPage : Code := allocPage

/-- `Drop for Page`. -/
def dropPage : Code := locked .pageAllocator .skip

/-- The drop of a collection of pages. -/
def dropPages : Code := .star dropPage

/-! ### `mm/sv39.rs` -/

/-- `RootPgt::new` and `RootPgt::new_copy`. -/
def newRootPgt : Code := allocPage

/-- One round of the loop of `map_create`; an illegal entry drops the new page. -/
def walkLevel : Code := opt (block [allocZeroedPage, opt dropPage])

/-- `RootPgt::map_create`. -/
def mapCreate : Code := opt (block [walkLevel, opt walkLevel])

/-- `RootPgt::map_create_large`. -/
def mapCreateLarge : Code := opt (block [.choice .skip .halt, walkLevel])

/-! ### `mm/vm.rs` -/

/-- `init_kernel_satp`. -/
def initKernelSatp : Code :=
  block [newRootPgt, .star (.choice .halt (.choice mapCreate mapCreateLarge)), opt dropPages]

/-- `VMSpace::map`: a page that is replaced is dropped at once, and so is the new page after a
failure. -/
def map : Code :=
  opt (.choice .halt
    (block [allocZeroedPage, opt (block [opt dropPage, opt (block [mapCreate, opt dropPage])])]))

/-- `VMSpace::map_fault_page`. -/
def mapFaultPage : Code := .choice .halt map

/-- `VMSpace::unmap`: the pages of each area that is cut are dropped. -/
def unmap : Code := .star (.choice .halt dropPages)

/-- `VMSpace::map_user_elf_segment`; on an error the page in hand and the area are dropped. -/
def mapUserElfSegment : Code :=
  opt (.choice .halt (block [
    .star (block [allocZeroedPage, opt (.choice .halt (block [mapCreate, opt dropPage]))]),
    opt dropPages]))

/-- `VMSpace::add_user_stack_area`. -/
def addUserStackArea : Code := block [allocZeroedPage, opt (block [mapCreate, opt dropPage])]

/-- `VMSpace::add_kernel_stack_area`. -/
def addKernelStackArea : Code := block [allocPage, opt dropPage]

/-- `VMSpace::new_user`; on an error the space is dropped. -/
def newUser : Code :=
  block [newRootPgt, .star mapUserElfSegment, opt addUserStackArea, opt addKernelStackArea,
    opt dropPages]

/-! ### `task.rs` -/

/-- `add_task`. -/
def addTask : Code := block [newUser, .choice .halt .skip, locked .allTasks .skip]

/-- `update_tcb`: the guard is a temporary of the statement that runs `f`. -/
def updateTcb (f : Code) : Code := locked .allTasks (.choice .halt f)

/-- `exchange_current_task_state`, `record_current_run_end` and `record_current_syscall`. -/
def withCurrentTcb : Code := .choice .halt (locked .allTasks (.choice .halt .skip))

/-- `get_task_info`. -/
def getTaskInfo : Code := locked .allTasks .skip

/-- `run_next_task`: the control block of an ended task is dropped under the guard, and the guard
is dropped before `__switch`. -/
def runNextTask : Code :=
  block [.acquire .allTasks, opt (.choice .halt (opt dropPages)), .choice .halt .skip,
    .release .allTasks, .mark .switch]

/-! ### Traps and system calls -/

/-- `do_page_fault`. -/
def doPageFault : Code := updateTcb mapFaultPage

/-- `k_trap_handler`. -/
def kTrapHandler : Code := .choice .halt doPageFault

/-- `copy_from_user` and `copy_to_user`, with any number of page faults. -/
def copyUser : Code := .star kTrapHandler

/-- `sys_write`. -/
def sysWrite : Code := opt (block [copyUser, .choice .halt .skip])

/-- `mmap`. -/
def mmap : Code := opt (updateTcb (.choice .halt .skip))

/-- `munmap`. -/
def munmap : Code := opt (updateTcb (.choice .halt unmap))

/-- `sys_exit` and `sys_yield`. -/
def exchangeAndRunNext : Code := block [withCurrentTcb, .choice .halt .skip, runNextTask]

/-- `sys_task_info`. -/
def sysTaskInfo : Code := opt (block [getTaskInfo, opt copyUser])

/-- `syscall_handler`. -/
def syscallHandler : Code :=
  .choice sysWrite (.choice mmap (.choice munmap (.choice exchangeAndRunNext
    (.choice sysTaskInfo .halt))))

/-- `sleep_task(); run_next_task();` and `kill_task(); run_next_task();`. -/
def endSliceAndRunNext : Code :=
  block [withCurrentTcb, .choice .halt .skip, withCurrentTcb, runNextTask]

/-- `u_trap_handler`. -/
def uTrapHandler : Code :=
  .choice .halt
    (.choice endSliceAndRunNext
      (.choice (block [withCurrentTcb, syscallHandler])
        (block [doPageFault, opt endSliceAndRunNext])))

/-- The kernel side of a task: `__restore_u_ctx` and then one trap after the other. -/
def taskThread : Code := block [.mark .user, .star (block [uTrapHandler, .mark .user])]

/-- `rust_main`. -/
def bootThread : Code := block [initKernelSatp, .choice .halt .skip, .star addTask, runNextTask, .halt]

/-! ### The order of the locks -/

/-- `PAGE_ALLOCATOR` may be taken under `ALL_TASKS`, not the other way round. -/
def rank : Lock → ℕ
  | .allTasks => 0
  | .pageAllocator => 1

theorem threads_check : ∀ p ∈ [bootThread, taskThread], (p.check rank []).isSome = true := by
  intro p hp
  rcases List.mem_pair.mp hp with rfl | rfl
  · decide
  · decide

/-- **The locks of the kernel.**  In every run of one hart, over any number of tasks and in any
order of traps, nested page faults, drops and switches: a lock is never taken while it is held,
`ALL_TASKS` is never taken while `PAGE_ALLOCATOR` is held, and no lock is held when `__switch`
runs or when control returns to user mode. -/
theorem kernel_lockOrder {es : List (Event Lock Point)}
    (hrun : Interleaved [bootThread, taskThread] .switch es) :
    (∀ before l later, es = before ++ .acquire l :: later →
      l ∉ after [] before ∧ (l = .allTasks → .pageAllocator ∉ after [] before)) ∧
    ∀ before point later, es = before ++ .mark point :: later → after [] before = [] := by
  have hsafe := safe_of_segments threads_check hrun
  refine ⟨?_, ?_⟩
  · intro before l later hes
    rw [hes] at hsafe
    have hrank := hsafe.acquire
    refine ⟨fun hl => Nat.lt_irrefl _ (hrank l hl), ?_⟩
    rintro rfl hp
    exact absurd (hrank _ hp) (by decide)
  · intro before point later hes
    rw [hes] at hsafe
    exact hsafe.mark

/-- A lock that is taken and released at once. -/
def take (l : Lock) : List (Event Lock Point) := [.acquire l, .release l]

/-- A page fault of `copy_to_user`, and the end of a task that has one page: the page allocator is
locked under the list of tasks. -/
def pageUnderTasks : List (Event Lock Point) :=
  [.acquire .allTasks] ++ (take .pageAllocator ++ [.release .allTasks])

/-- A task asks for its info, which faults once, and exits; another one starts. -/
def exitEvents : List (Event Lock Point) :=
  [.mark .user] ++ (take .allTasks ++ (take .allTasks ++ pageUnderTasks) ++ [.mark .user] ++
    (take .allTasks ++ (take .allTasks ++ (pageUnderTasks ++ [.mark .switch])))) ++ [.mark .user]

theorem exitEvents_run : Interleaved [bootThread, taskThread] .switch exitEvents := by
  have hpage : allocPage.Full (take .pageAllocator) :=
    .seq (.acquire _) (.seq .skip (.seq (.release _) .skip))
  have hcurrent : withCurrentTcb.Full (take .allTasks) :=
    .right (.seq (.acquire _) (.seq (.right .skip) (.seq (.release _) .skip)))
  have hmap : mapFaultPage.Full (take .pageAllocator) :=
    .right (.right (.right (.seq hpage (.seq (.left .skip) .skip))))
  have hfault : doPageFault.Full pageUnderTasks :=
    .seq (.acquire _) (.seq (.right hmap) (.seq (.release _) .skip))
  have hget : getTaskInfo.Full (take .allTasks) :=
    .seq (.acquire _) (.seq .skip (.seq (.release _) .skip))
  -- a round of the loop and then none
  have hcopy : copyUser.Full (pageUnderTasks ++ []) := .again (.right hfault) .done
  have hinfo : sysTaskInfo.Full (take .allTasks ++ ((pageUnderTasks ++ []) ++ [])) :=
    .right (.seq hget (.seq (.right hcopy) .skip))
  have hdrop : dropPages.Full (take .pageAllocator ++ []) := .again hpage .done
  have hswitch : runNextTask.Full ([.acquire .allTasks] ++ ((take .pageAllocator ++ []) ++ ([] ++
      ([.release .allTasks] ++ ([.mark .switch] ++ []))))) :=
    .seq (.acquire _) (.seq (.right (.right (.right hdrop))) (.seq (.right .skip)
      (.seq (.release _) (.seq (.mark _) .skip))))
  have hexit : exchangeAndRunNext.Full
      (take .allTasks ++ ([] ++ ((pageUnderTasks ++ [.mark .switch]) ++ []))) :=
    .seq hcurrent (.seq (.right .skip) (.seq hswitch .skip))
  have hcall : syscallHandler.Full (take .allTasks ++ pageUnderTasks) :=
    .right (.right (.right (.right (.left hinfo))))
  have hcall' : syscallHandler.Full (take .allTasks ++ (pageUnderTasks ++ [.mark .switch])) :=
    .right (.right (.right (.left hexit)))
  have htrap₁ : uTrapHandler.Full (take .allTasks ++ ((take .allTasks ++ pageUnderTasks) ++ [])) :=
    .right (.right (.left (.seq hcurrent (.seq hcall .skip))))
  have htrap₂ : uTrapHandler.Full
      (take .allTasks ++ ((take .allTasks ++ (pageUnderTasks ++ [.mark .switch])) ++ [])) :=
    .right (.right (.left (.seq hcurrent (.seq hcall' .skip))))
  have hround : (block [uTrapHandler, .mark .user] : Code).Full
      ((take .allTasks ++ (take .allTasks ++ pageUnderTasks)) ++ ([.mark .user] ++ [])) :=
    .seq htrap₁ (.seq (.mark _) .skip)
  have hloop := Partial.rounds hround (.round (.first (.full htrap₂)))
  have hthread : taskThread.Partial _ := .second (.mark Point.user) (.first hloop)
  have hother : taskThread.Partial [.mark .user] := .first (.full (.mark _))
  have hsegment : Segment [bootThread, taskThread] .switch ([.mark .user] ++ (take .allTasks ++
      (take .allTasks ++ pageUnderTasks) ++ [.mark .user] ++ (take .allTasks ++ (take .allTasks ++
      pageUnderTasks))) ++ [.mark .switch]) := ⟨taskThread, by simp, [], Or.inl rfl, hthread⟩
  exact Interleaved.switch hsegment (.last ⟨taskThread, by simp, [], Or.inl rfl, hother⟩)

theorem kernel_lockOrder_exit :
    Lock.allTasks ∈ after [] (exitEvents.take 6) ∧
      exitEvents.drop 6 = .acquire .pageAllocator :: exitEvents.drop 7 ∧
      Lock.pageAllocator ∉ after [] (exitEvents.take 6) ∧
      exitEvents.drop 18 = .mark .switch :: exitEvents.drop 19 ∧
      after [] (exitEvents.take 18) = [] := by
  obtain ⟨hacquire, hmark⟩ := kernel_lockOrder exitEvents_run
  exact ⟨by decide, rfl, (hacquire (exitEvents.take 6) .pageAllocator (exitEvents.drop 7) rfl).1, rfl,
    hmark (exitEvents.take 18) .switch (exitEvents.drop 19) rfl⟩

end RCoreKernel.Task.LockOrder
