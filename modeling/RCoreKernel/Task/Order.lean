import RCoreKernel.Task.Run

/-!
# In which order tasks run

`run_next_task` starts the first ready task of the list.  The task that was running is moved to the
end before that, so the others go first; but `take_task_tcb` fills the gap with the last control
block, and the value of the clock says where the gap is.

* `resumed_at_once_iff` — **a task is resumed at once only if it is the last one alive**;
* `passed_over` — **for some values of the clock two tasks take turns for ever**, and the control
  blocks of all others are never touched.
-/

namespace RCoreKernel.Task

variable {V : Type}

/-! ### Taking a control block out -/

section Take

variable {tasks : List (TaskControlBlock V)} {tcb first last : TaskControlBlock V} {time : ℕ}

theorem findIdx_last (h : ∀ t ∈ tasks, t.taskId ≠ tcb.taskId) :
    (tasks ++ [tcb]).findIdx? (fun t => t.taskId = tcb.taskId) = some tasks.length := by
  rw [List.findIdx?_append, List.findIdx?_eq_none_iff.mpr fun t ht => by simpa using h t ht]
  simp

/-- The last control block leaves no gap, wherever it is swapped to. -/
theorem takeTaskTcb_last (h : ∀ t ∈ tasks, t.taskId ≠ tcb.taskId) (time : ℕ) :
    Kernel.takeTaskTcb (tasks ++ [tcb]) tcb.taskId time = some (tcb, tasks) := by
  have hlen : (tasks ++ [tcb]).length = tasks.length + 1 := by simp
  have hlast : (tasks ++ [tcb])[tasks.length]? = some tcb := by simp
  rw [Kernel.takeTaskTcb, findIdx_last h]
  dsimp only
  rw [hlen]
  generalize hr : time % (tasks.length + 1) = r
  have hlt : r < tasks.length + 1 := hr ▸ Nat.mod_lt _ (Nat.succ_pos _)
  rcases Nat.lt_succ_iff_lt_or_eq.mp hlt with hlt | rfl
  · have hget : (tasks ++ [tcb])[r]? = some tasks[r] := by
      rw [List.getElem?_append_left hlt, List.getElem?_eq_getElem hlt]
    have hswap : Vec.swap (tasks ++ [tcb]) tasks.length r = tasks.set r tcb ++ [tasks[r]] := by
      rw [Vec.swap, hlast, hget]
      simp [hlt]
    have hin : (tasks.set r tcb ++ [tasks[r]])[r]? = some tcb := by
      rw [List.getElem?_append_left (by simpa using hlt), List.getElem?_set_self hlt]
    have hset : (tasks.set r tcb ++ [tasks[r]]).set r tasks[r] = tasks ++ [tasks[r]] := by
      simp [hlt]
    rw [hswap, hin]
    dsimp only
    rw [Vec.swapRemove, List.getLast?_concat]
    dsimp only
    rw [if_neg (by simp; omega), hset, List.dropLast_concat]
  · have hswap : Vec.swap (tasks ++ [tcb]) tasks.length tasks.length = tasks ++ [tcb] := by
      rw [Vec.swap, hlast]
      simp
    rw [hswap, hlast]
    dsimp only
    rw [Vec.swapRemove, List.getLast?_concat]
    dsimp only
    rw [if_pos hlen.symm, List.dropLast_concat]

/-- The first control block is replaced by the last one, when the clock says so. -/
theorem takeTaskTcb_first (htime : time % (tasks.length + 2) = 0) :
    Kernel.takeTaskTcb (first :: (tasks ++ [last])) first.taskId time =
      some (first, last :: tasks) := by
  have hidx : (first :: (tasks ++ [last])).findIdx? (fun t => t.taskId = first.taskId) = some 0 := by
    simp [List.findIdx?_cons]
  have hlen : (first :: (tasks ++ [last])).length = tasks.length + 2 := by simp
  have hswap : Vec.swap (first :: (tasks ++ [last])) 0 0 = first :: (tasks ++ [last]) := rfl
  have hlast : (first :: (tasks ++ [last])).getLast? = some last := by
    rw [← List.cons_append, List.getLast?_concat]
  rw [Kernel.takeTaskTcb, hidx]
  dsimp only
  rw [hlen, htime, hswap]
  show some (first, Vec.swapRemove (first :: (tasks ++ [last])) 0) = _
  rw [Vec.swapRemove, hlast]
  dsimp only
  rw [if_neg (by simp), List.set_cons_zero, ← List.cons_append, List.dropLast_concat]

end Take

/-! ### Who is next -/

variable {created gone : List ℕ} {boot st st₁ st' : Kernel V} {tcb next next' : TaskControlBlock V}
  {curr dropped : Option (TaskControlBlock V)} {log : List Mark} {retAddr : ℕ}
  {allowed : Action V → Prop} {time₁ time₂ time₃ : ℕ}

/-- The first of the ready tasks is started. -/
theorem runNextTask_first {first : TaskControlBlock V} {more : List (TaskControlBlock V)}
    (hretire : st.retire time₁ = .ok (curr, dropped, first :: more)) (hready : first.state = .ready)
    {curr' dropped' : Option (TaskControlBlock V)}
    (h : st.runNextTask time₁ time₂ time₃ = .ok (.switch curr' dropped' next st')) :
    next.taskId = first.taskId := by
  have hnext : Kernel.getNextTaskId (first :: more) = some first.taskId := by
    simp [Kernel.getNextTaskId, hready]
  rw [Kernel.runNextTask, hretire] at h
  simp only [hnext] at h
  cases htake : Kernel.takeTaskTcb (first :: more) first.taskId time₂ with
  | none =>
    rw [htake] at h
    cases h
  | some r =>
    rw [htake] at h
    obtain ⟨tcb, rest⟩ := r
    simp only [Except.ok.injEq, Kernel.Switch.switch.injEq] at h
    rw [← h.2.2.1]
    exact (takeTaskTcb_spec htake).1

/-- A task that stays ready goes to the end of the list. -/
theorem retire_ready (h : Ongoing created gone st tcb) (hstate : tcb.state = .ready) (time : ℕ) :
    ∃ rest, st.retire time = .ok (some tcb, none, rest ++ [tcb]) ∧
      st.allTasks.Perm (tcb :: rest) := by
  obtain ⟨tcb', rest, htake⟩ := takeTaskTcb_isSome h.mem time
  obtain ⟨hid, hperm⟩ := takeTaskTcb_spec htake
  obtain rfl : tcb' = tcb :=
    h.listed.eq_of_taskId (hperm.mem_iff.mpr (List.mem_cons_self ..)) h.mem hid
  refine ⟨rest, ?_, hperm⟩
  rw [Kernel.retire, h.current]
  simp only [htake, hstate, if_true]

/-- After a slice that leaves the task ready. -/
theorem next_of_ready (h : Ongoing created gone st tcb) (hstate : tcb.state = .ready)
    (hsw : st.runNextTask time₁ time₂ time₃ = .ok (.switch curr dropped next st')) :
    next.taskId = tcb.taskId ↔ ∀ id ∈ created, id ∉ gone → id = tcb.taskId := by
  obtain ⟨rest, hretire, hperm⟩ := retire_ready h hstate time₁
  have hlisted := h.listed.perm hperm
  cases rest with
  | nil =>
    have hid := runNextTask_first hretire hstate hsw
    refine ⟨fun _ id hc hg => ?_, fun _ => hid⟩
    have hmem := (hlisted.mem_iff id).mpr ⟨hc, hg⟩
    simpa using hmem
  | cons first more =>
    -- somebody else is alive, and is first
    have hmem : first ∈ st.allTasks := hperm.mem_iff.mpr (by simp)
    have hne : first.taskId ≠ tcb.taskId := by
      have hids := hlisted.ids
      rw [List.map_cons, List.map_cons, List.nodup_cons] at hids
      exact fun he => hids.1 (he ▸ List.mem_cons_self ..)
    have hid := runNextTask_first hretire (h.others first hmem hne) hsw
    have hbelongs := (h.listed.mem_iff first.taskId).mp (List.mem_map_of_mem hmem)
    refine ⟨fun he => absurd (hid.symm.trans he) hne, fun hall => ?_⟩
    exact absurd (hall _ hbelongs.1 hbelongs.2) hne

/-- **A task is resumed at once only if it is the last one alive.**  At every point of every run,
whatever the clock says: if the running task yields, is interrupted, exits or is killed, the task
that is started next is the same one if and only if it is still ready and all others have ended. -/
theorem resumed_at_once_iff (hboot : Booted created boot)
    (hrun : Run boot retAddr allowed next st log) {a : Action V} {new : TaskState}
    (ha : a.leaves = some new) {time : ℕ} (happly : a.apply st time = .ok st₁)
    (hsw : st₁.runNextTask time₁ time₂ time₃ = .ok (.switch curr dropped next' st')) :
    next'.taskId = next.taskId ↔
      new = .ready ∧ ∀ id ∈ created, id ∉ ended log → id = next.taskId := by
  obtain ⟨tcb, hong, hstate, hid, -⟩ := hrun.ongoing hboot
  obtain ⟨st₂, happly', hong₁, -, hc⟩ := Action.continues hong hstate ha ⟨time, time₁, time₂, time₃⟩
  obtain rfl := Except.ok.inj (happly.symm.trans happly')
  have hleft : (a.effect time tcb).state = new := by
    rw [a.effect_state time hstate, ha]
    rfl
  have hsame : (a.effect time tcb).taskId = next.taskId := (a.effect_taskId time tcb).trans hid
  by_cases hready : new = .ready
  · have hnext := next_of_ready hong₁ (hleft.trans hready) hsw
    rw [hsame] at hnext
    rw [hnext]
    exact ⟨fun h => ⟨hready, h⟩, fun h => h.2⟩
  -- a task that has ended is not in the list any more
  have hend : new.isEnd = true := by
    have hrunning := leaves_ne_running ha
    cases new with
    | ready => exact absurd rfl hready
    | running => exact absurd rfl hrunning
    | killed => rfl
    | exited => rfl
  refine ⟨fun he => ?_, fun h => absurd h.1 hready⟩
  rcases hc with ⟨_, hstop, -⟩ | ⟨_, _, next'', st'', -, hsw', hong', -⟩
  · rw [hstop] at hsw
    cases hsw
  · rw [hsw'] at hsw
    cases hsw
    have halive := (hong'.listed.mem_iff _).mp (List.mem_map_of_mem hong'.mem)
    refine absurd ?_ halive.2
    rw [goneAfter, if_pos hend, List.mem_append, List.mem_singleton]
    exact Or.inr (he.trans hid.symm)

/-! ### Who may wait for ever -/

/-- The tasks that were started, with the times. -/
def starts (log : List Mark) : List (ℕ × ℕ) :=
  log.filterMap fun
    | .start taskId time _ => some (taskId, time)
    | .out _ _ _ _ => none

theorem starts_append (log log' : List Mark) : starts (log ++ log') = starts log ++ starts log' :=
  List.filterMap_append

variable {first last : TaskControlBlock V} {middle : List (TaskControlBlock V)} {clock : Clock}

/-- A timer interrupt, when the clock says that the last control block fills the gap: the task in
front and the one that is running change places. -/
theorem timer_swaps (h : Ongoing created gone st tcb) (hstate : tcb.state = .running)
    (htasks : st.allTasks = first :: (middle ++ [tcb]))
    (hclock : clock.takeNext % (middle.length + 2) = 0) :
    ∃ st₁ curr dropped st', (Action.timer : Action V).apply st clock.runEnd = .ok st₁ ∧
      st₁.runNextTask clock.takeCurr clock.takeNext clock.runStart =
        .ok (.switch curr dropped first st') ∧
      ∃ tcb', tcb'.taskId = tcb.taskId ∧
        st'.allTasks = tcb' :: (middle ++ [started first clock.runStart]) := by
  have hnodup := h.listed.ids
  rw [htasks, ← List.cons_append, List.map_append, List.map_singleton] at hnodup
  have hothers : ∀ t ∈ first :: middle, t.taskId ≠ tcb.taskId := fun t ht =>
    (List.nodup_append.mp hnodup).2.2 _ (List.mem_map_of_mem ht) _ (List.mem_singleton_self _)
  have hready : first.state = .ready :=
    h.others first (by simp [htasks]) (hothers first (by simp))
  obtain ⟨st₁, happly, hong, -⟩ := Action.apply_ongoing h hstate .timer clock.runEnd
  -- the control block changes in its place
  have hkeep : ∀ t ∈ first :: middle, decide (t.taskId = tcb.taskId) = false := fun t ht =>
    decide_eq_false (hothers t ht)
  have hslept : ∀ x : TaskControlBlock V, x.taskId = tcb.taskId →
      decide (x.taskId = tcb.taskId) = true := fun _ => decide_eq_true
  have htasks₁ : st₁.allTasks = (first :: middle) ++ [(tcb.setState .ready).recordRunEnd clock.runEnd] := by
    rw [Action.apply, Kernel.sleepTask, endSlice_eq h.current h.find hstate] at happly
    obtain rfl := Except.ok.inj happly
    rw [Kernel.modifyTcb, Kernel.modifyTcb, htasks, ← List.cons_append]
    dsimp only
    rw [Vec.modifyFind_append hkeep (hslept tcb rfl),
      Vec.modifyFind_append hkeep (hslept (tcb.setState .ready) rfl)]
  change Ongoing created gone st₁ ((tcb.setState .ready).recordRunEnd clock.runEnd) at hong
  generalize htcb' : (tcb.setState .ready).recordRunEnd clock.runEnd = tcb' at htasks₁ hong
  have hid : tcb'.taskId = tcb.taskId := by
    rw [← htcb']
    rfl
  have hleft : tcb'.state = .ready := by
    rw [← htcb']
    rfl
  rw [← hid] at hothers
  have hretire : st₁.retire clock.takeCurr = .ok (some tcb', none, first :: (middle ++ [tcb'])) := by
    rw [Kernel.retire, hong.current, htasks₁]
    dsimp only
    rw [takeTaskTcb_last hothers]
    dsimp only
    rw [if_pos hleft, List.cons_append]
  have hnext : Kernel.getNextTaskId (first :: (middle ++ [tcb'])) = some first.taskId := by
    simp [Kernel.getNextTaskId, hready]
  refine ⟨st₁, some tcb', none, { st₁ with
    allTasks := tcb' :: middle ++ [started first clock.runStart], tp := first.context.tp }, happly, ?_,
    tcb', hid, rfl⟩
  rw [Kernel.runNextTask, hretire]
  simp only [hnext, takeTaskTcb_first hclock]
  rfl

/-- The first task is started, when the clock says so. -/
theorem boot_swaps (h : Booted created boot) (htasks : boot.allTasks = first :: (middle ++ [last]))
    (hclock : clock.takeNext % (middle.length + 2) = 0) :
    ∃ st', boot.runNextTask clock.takeCurr clock.takeNext clock.runStart =
        .ok (.switch none none first st') ∧
      st'.allTasks = last :: (middle ++ [started first clock.runStart]) := by
  have hretire : boot.retire clock.takeCurr = .ok (none, none, first :: (middle ++ [last])) := by
    rw [Kernel.retire, Kernel.tryGetCurrentTaskId, if_pos h.tp, htasks]
  have hready : first.state = .ready := h.ready first (by simp [htasks])
  have hnext : Kernel.getNextTaskId (first :: (middle ++ [last])) = some first.taskId := by
    simp [Kernel.getNextTaskId, hready]
  refine ⟨{ boot with
    allTasks := last :: middle ++ [started first clock.runStart], tp := first.context.tp }, ?_, rfl⟩
  rw [Kernel.runNextTask, hretire]
  simp only [hnext, takeTaskTcb_first hclock]
  rfl

theorem if_succ_even (m x y : ℕ) :
    (if (m + 1) % 2 = 0 then x else y) = if m % 2 = 0 then y else x := by
  rcases Nat.mod_two_eq_zero_or_one m with h | h
  · rw [if_pos h, if_neg (by omega)]
  · rw [if_neg (show ¬m % 2 = 0 by omega), if_pos (by omega)]

/-- **Two tasks may take turns for ever.**  If the value of the clock is a multiple of the number of
tasks whenever `take_task_tcb` takes the next one, timer interrupts switch between the first and the
last task only; the control blocks of the others stay as they were, ready and never started. -/
theorem passed_over (hboot : Booted created boot)
    (htasks : boot.allTasks = first :: (middle ++ [last])) (clock : ℕ → Clock)
    (hclock : ∀ m, (clock m).takeNext % boot.allTasks.length = 0) (N : ℕ) :
    ∃ next st log, Run boot retAddr (fun a => a = .timer) next st log ∧
      starts log = (List.range (N + 1)).map (fun m =>
        (if m % 2 = 0 then first.taskId else last.taskId, (clock m).runStart)) ∧
      ∀ tcb ∈ middle, tcb ∈ st.allTasks ∧ tcb.state = .ready := by
  have hlen : boot.allTasks.length = middle.length + 2 := by simp [htasks]
  rw [hlen] at hclock
  have hready : ∀ tcb ∈ middle, tcb.state = .ready := fun tcb ht =>
    hboot.ready tcb (by simp [htasks, ht])
  -- the induction is on the number of interrupts; the last two control blocks change places
  suffices h : ∃ next st log, Run boot retAddr (fun a => a = .timer) next st log ∧
      starts log = (List.range (N + 1)).map (fun m =>
        (if m % 2 = 0 then first.taskId else last.taskId, (clock m).runStart)) ∧
      ∃ front back, st.allTasks = front :: (middle ++ [back]) ∧ back.taskId = next.taskId ∧
        back.taskId = (if N % 2 = 0 then first.taskId else last.taskId) ∧
        front.taskId = (if N % 2 = 0 then last.taskId else first.taskId) by
    obtain ⟨next, st, log, hrun, hstarts, front, back, hall, -⟩ := h
    refine ⟨next, st, log, hrun, hstarts, fun tcb ht => ⟨?_, hready tcb ht⟩⟩
    simp [hall, ht]
  induction N with
  | zero =>
    obtain ⟨st, hsw, hall⟩ := boot_swaps hboot htasks (hclock 0)
    exact ⟨first, st, _, .start hsw, rfl, last, started first (clock 0).runStart, hall, rfl, rfl, rfl⟩
  | succ N ih =>
    obtain ⟨next, st, log, hrun, hstarts, front, back, hall, hnext, hback, hfront⟩ := ih
    obtain ⟨tcb, hong, hstate, hid, -⟩ := hrun.ongoing hboot
    obtain rfl : tcb = back := hong.listed.eq_of_taskId hong.mem (by simp [hall]) (hid.trans hnext.symm)
    obtain ⟨st₁, curr, dropped, st', happly, hsw, tcb', hid', hall'⟩ :=
      timer_swaps hong hstate hall (hclock (N + 1))
    have hregs : (⟨[], retAddr, 0⟩ : Saved).ra = retAddr := rfl
    refine ⟨front, st', _, .switch hrun rfl rfl happly hsw hregs, ?_, tcb',
      started front (clock (N + 1)).runStart, hall', rfl, ?_, ?_⟩
    · rw [starts_append, hstarts, List.range_succ (n := N + 1), List.map_append, List.map_singleton,
        if_succ_even, ← hfront]
      rfl
    · rw [if_succ_even, ← hfront]
      rfl
    · rw [if_succ_even, ← hback, hid']

/-- Three tasks, whose trap contexts are at `8`, `16` and `24`. -/
def threeTasks : Kernel Unit where
  allTasks := [.newReady 1 () 0 8 8 0, .newReady 2 () 0 16 16 0, .newReady 3 () 0 24 24 0]
  tp := 0
  taskIdAt := fun tp => tp / 8

theorem threeTasks_booted : Booted [1, 2, 3] threeTasks := by
  refine ⟨⟨by decide, fun id => ?_, by decide⟩, by decide, rfl⟩
  show id ∈ [1, 2, 3] ↔ id ∈ [1, 2, 3] ∧ id ∉ []
  simp

theorem threeTasks_split : threeTasks.allTasks =
    .newReady 1 () 0 8 8 0 :: ([.newReady 2 () 0 16 16 0] ++ [.newReady 3 () 0 24 24 0]) := rfl

/-- Three interrupts, and the task in the middle has not run. -/
theorem passed_over_three : ∃ next st log, Run threeTasks 4 (fun a => a = .timer) next st log ∧
    starts log = [(1, 9), (3, 18), (1, 27), (3, 36)] := by
  obtain ⟨next, st, log, hrun, hstarts, -⟩ := passed_over threeTasks_booted threeTasks_split
    (fun m => ⟨9 * m + 3, 9 * m + 4, 9 * m + 6, 9 * m + 9⟩)
    (fun m => show (9 * m + 6) % 3 = 0 by omega) 3
  exact ⟨next, st, log, hrun, hstarts⟩

/-- The first of the three is interrupted. -/
theorem resumed_at_once_three : ∃ next st log st₁ curr dropped next' st',
    Run threeTasks 4 (fun _ => True) next st log ∧
      (Action.timer : Action Unit).apply st 3 = .ok st₁ ∧
      st₁.runNextTask 4 6 9 = .ok (.switch curr dropped next' st') ∧ next'.taskId ≠ next.taskId := by
  obtain ⟨st, hsw, hall⟩ := @boot_swaps _ _ _ _ _ _ ⟨0, 0, 0, 0⟩ threeTasks_booted threeTasks_split rfl
  have hrun : Run threeTasks 4 (fun _ => True) _ st _ := .start hsw
  obtain ⟨tcb, hong, hstate, hid, -⟩ := hrun.ongoing threeTasks_booted
  have hback : started (.newReady 1 () 0 8 8 0) 0 ∈ st.allTasks := by
    rw [hall]
    simp
  obtain rfl := hong.listed.eq_of_taskId hong.mem hback hid
  obtain ⟨st₁, curr, dropped, st', happly, hsw', -⟩ :=
    @timer_swaps _ _ _ _ _ _ _ ⟨3, 4, 6, 9⟩ hong hstate hall (by decide)
  refine ⟨_, st, _, st₁, curr, dropped, _, st', hrun, happly, hsw', fun he => ?_⟩
  have hlast := ((resumed_at_once_iff threeTasks_booted hrun rfl happly hsw').mp he).2
  exact absurd (hlast 2 (by decide) List.not_mem_nil) (by decide)

end RCoreKernel.Task
