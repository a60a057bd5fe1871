import RCoreKernel.Task.Resume

/-!
# Task statistics along runs

`record_run_start` and `record_run_end` keep, for each task, the number of switches and the times
it has been running and waiting.  The log of a run says when a task was really started and switched
out; from these times `executedTime` and `waitingTime` are defined without reference to the
counters.  `sys_yield` switches a task out without `record_run_end`.

* `Tracked` — the counters of a task agree with the log, and its times add up;
* `Run.tracked` — **they do along every run without `sys_yield`**;
* `statistics_accurate`, `yield_not_counted` — the counters from boot on, and what a yield does.
-/

namespace RCoreKernel.Task

open Mm Mm.VMSpace

variable {V : Type}

def Mark.time : Mark → ℕ
  | .out _ time _ _ => time
  | .start _ time _ => time

/-- The times at which the task was started. -/
def startsOf (taskId : ℕ) (log : List Mark) : List ℕ :=
  log.filterMap fun
    | .start id time _ => if id = taskId then some time else none
    | .out _ _ _ _ => none

/-- The times at which the task was switched out. -/
def outsOf (taskId : ℕ) (log : List Mark) : List ℕ :=
  log.filterMap fun
    | .out id time _ _ => if id = taskId then some time else none
    | .start _ _ _ => none

/-- The sum of the completed slices. -/
def executedTime (starts outs : List ℕ) : ℕ := (List.zipWith (fun s o => o - s) starts outs).sum

/-- The sum of the times between a switch and the next start. -/
def waitingTime (starts outs : List ℕ) : ℕ := (List.zipWith (fun o s => s - o) outs starts.tail).sum

/-- The clock is positive, fits a `usize` and does not go back. -/
structure Timed (log : List Mark) : Prop where
  pos : ∀ m ∈ log, 0 < m.time
  lt : ∀ m ∈ log, m.time < 2 ^ 64
  sorted : log.Pairwise fun m m' => m.time ≤ m'.time

theorem Timed.of_append {log log' : List Mark} (h : Timed (log ++ log')) : Timed log :=
  ⟨fun m hm => h.pos m (List.mem_append_left _ hm), fun m hm => h.lt m (List.mem_append_left _ hm),
    (List.pairwise_append.mp h.sorted).1⟩

theorem Timed.snoc_le {log : List Mark} {m : Mark} (h : Timed (log ++ [m])) :
    ∀ x ∈ log, x.time ≤ m.time := fun x hx =>
  (List.pairwise_append.mp h.sorted).2.2 x hx m (List.mem_singleton_self m)

theorem Timed.snoc_mem {log : List Mark} {m : Mark} (h : Timed (log ++ [m])) :
    0 < m.time ∧ m.time < 2 ^ 64 :=
  ⟨h.pos m (by simp), h.lt m (by simp)⟩

/-- The counters of a task agree with the log. -/
structure Tracked (log : List Mark) (t : TaskControlBlock V) : Prop where
  count : t.statistics.switchCount = (outsOf t.taskId log).length
  executed : t.statistics.totalExecuted = executedTime (startsOf t.taskId log) (outsOf t.taskId log)
  waiting : t.statistics.totalWaiting = waitingTime (startsOf t.taskId log) (outsOf t.taskId log)
  first : t.statistics.firstRunStart = (startsOf t.taskId log).headD 0
  lastStart : t.statistics.lastRunStart = (startsOf t.taskId log).getLastD 0
  lastEnd : t.statistics.lastRunEnd = (outsOf t.taskId log).getLastD 0
  shape : (startsOf t.taskId log).length =
    (outsOf t.taskId log).length + if t.state = .running then 1 else 0
  /-- From its first start on, a task is either running or waiting. -/
  span : t.statistics.firstRunStart + t.statistics.totalExecuted + t.statistics.totalWaiting =
    if t.state = .running then t.statistics.lastRunStart else t.statistics.lastRunEnd

variable {log : List Mark} {t : TaskControlBlock V} {taskId time : ℕ}

theorem startsOf_out (id taskId time : ℕ) (state : TaskState) (regs : Saved) (log : List Mark) :
    startsOf id (log ++ [.out taskId time state regs]) = startsOf id log := by
  simp [startsOf]

theorem outsOf_start (id taskId time : ℕ) (context : TaskContext) (log : List Mark) :
    outsOf id (log ++ [.start taskId time context]) = outsOf id log := by
  simp [outsOf]

theorem startsOf_start (id taskId time : ℕ) (context : TaskContext) (log : List Mark) :
    startsOf id (log ++ [.start taskId time context]) =
      if taskId = id then startsOf id log ++ [time] else startsOf id log := by
  by_cases h : taskId = id <;> simp [startsOf, h]

theorem outsOf_out (id taskId time : ℕ) (state : TaskState) (regs : Saved) (log : List Mark) :
    outsOf id (log ++ [.out taskId time state regs]) =
      if taskId = id then outsOf id log ++ [time] else outsOf id log := by
  by_cases h : taskId = id <;> simp [outsOf, h]

theorem mem_startsOf (h : time ∈ startsOf taskId log) : ∃ m ∈ log, m.time = time := by
  obtain ⟨m, hm, he⟩ := List.mem_filterMap.mp h
  cases m with
  | out id time' state regs => cases he
  | start id time' context =>
    simp only [Option.ite_none_right_eq_some, Option.some.injEq] at he
    exact ⟨_, hm, he.2⟩

theorem mem_outsOf (h : time ∈ outsOf taskId log) : ∃ m ∈ log, m.time = time := by
  obtain ⟨m, hm, he⟩ := List.mem_filterMap.mp h
  cases m with
  | start id time' context => cases he
  | out id time' state regs =>
    simp only [Option.ite_none_right_eq_some, Option.some.injEq] at he
    exact ⟨_, hm, he.2⟩

/-- A slice ends. -/
theorem executedTime_snoc {S O : List ℕ} (h : S.length = O.length + 1) (time : ℕ) :
    executedTime S (O ++ [time]) = executedTime S O + (time - S.getLastD 0) := by
  obtain ⟨S', s, rfl⟩ : ∃ S' s, S = S' ++ [s] :=
    ⟨S.dropLast, S.getLast (by intro he; simp [he] at h), (List.dropLast_append_getLast _).symm⟩
  have hlen : S'.length = O.length := by simpa using h
  have hpre : List.zipWith (fun s o => o - s) (S' ++ [s]) O =
      List.zipWith (fun s o => o - s) S' O := by
    have happ : List.zipWith (fun s o => o - s) (S' ++ [s]) (O ++ []) = _ :=
      List.zipWith_append hlen
    simpa using happ
  unfold executedTime
  rw [List.zipWith_append hlen, hpre]
  simp

/-- A slice after the first begins. -/
theorem waitingTime_snoc {S O : List ℕ} (h : S.length = O.length) (hne : S ≠ []) (time : ℕ) :
    waitingTime (S ++ [time]) O = waitingTime S O + (time - O.getLastD 0) := by
  obtain ⟨s, S', rfl⟩ := List.exists_cons_of_ne_nil hne
  obtain ⟨O', o, rfl⟩ : ∃ O' o, O = O' ++ [o] :=
    ⟨O.dropLast, O.getLast (by intro he; simp [he] at h), (List.dropLast_append_getLast _).symm⟩
  have hlen : O'.length = S'.length := by simpa using h.symm
  have hpre : List.zipWith (fun o s => s - o) (O' ++ [o]) S' =
      List.zipWith (fun o s => s - o) O' S' := by
    have happ : List.zipWith (fun o s => s - o) (O' ++ [o]) (S' ++ []) = _ :=
      List.zipWith_append hlen
    simpa using happ
  unfold waitingTime
  rw [List.cons_append, List.tail_cons, List.tail_cons, List.zipWith_append hlen, hpre]
  simp

/-- A slice begins while all times so far lie before. -/
theorem waitingTime_short {S O : List ℕ} (h : S.length = O.length + 1) (time : ℕ) :
    waitingTime S (O ++ [time]) = waitingTime S O := by
  obtain ⟨s, S', rfl⟩ := List.exists_cons_of_ne_nil (l := S) (by intro he; simp [he] at h)
  have hlen : O.length = S'.length := by simpa using h.symm
  have happ : List.zipWith (fun o s => s - o) (O ++ [time]) (S' ++ []) = _ :=
    List.zipWith_append hlen
  simp only [List.append_nil, List.zipWith_nil_right] at happ
  unfold waitingTime
  rw [List.tail_cons, happ]

theorem executedTime_short {S O : List ℕ} (h : S.length = O.length) (time : ℕ) :
    executedTime (S ++ [time]) O = executedTime S O := by
  have happ : List.zipWith (fun s o => o - s) (S ++ [time]) (O ++ []) = _ :=
    List.zipWith_append h
  simp only [List.append_nil, List.zipWith_nil_right] at happ
  unfold executedTime
  rw [happ]

/-! ### One event -/

theorem getLastD_mem {l : List ℕ} (hne : l ≠ []) : l.getLastD 0 ∈ l := by
  obtain ⟨l', x, rfl⟩ : ∃ l' x, l = l' ++ [x] :=
    ⟨l.dropLast, l.getLast hne, (List.dropLast_append_getLast hne).symm⟩
  simp

/-- The last start or switch of a task lies before any later event. -/
theorem getLastD_startsOf_le (h : ∀ m ∈ log, m.time ≤ time) (id : ℕ) :
    (startsOf id log).getLastD 0 ≤ time := by
  by_cases hne : startsOf id log = []
  · rw [hne]
    exact Nat.zero_le _
  · obtain ⟨m, hm, he⟩ := mem_startsOf (getLastD_mem hne)
    rw [← he]
    exact h m hm

theorem getLastD_outsOf_le (h : ∀ m ∈ log, m.time ≤ time) (id : ℕ) :
    (outsOf id log).getLastD 0 ≤ time := by
  by_cases hne : outsOf id log = []
  · rw [hne]
    exact Nat.zero_le _
  · obtain ⟨m, hm, he⟩ := mem_outsOf (getLastD_mem hne)
    rw [← he]
    exact h m hm

theorem wrappingSub_of_le {a b : ℕ} (h : b ≤ a) (ha : a < 2 ^ 64) : wrappingSub a b = a - b := by
  unfold wrappingSub wrap
  omega

/-- Only the events of the task matter. -/
theorem Tracked.congr {log' : List Mark} (h : Tracked log t)
    (hs : startsOf t.taskId log' = startsOf t.taskId log)
    (ho : outsOf t.taskId log' = outsOf t.taskId log) : Tracked log' t := by
  refine ⟨?_, ?_, ?_, ?_, ?_, ?_, ?_, h.span⟩
  · rw [ho, h.count]
  · rw [hs, ho, h.executed]
  · rw [hs, ho, h.waiting]
  · rw [hs, h.first]
  · rw [hs, h.lastStart]
  · rw [ho, h.lastEnd]
  · rw [hs, ho, h.shape]

theorem Tracked.other_out (h : Tracked log t) (hne : taskId ≠ t.taskId) (state : TaskState)
    (regs : Saved) : Tracked (log ++ [.out taskId time state regs]) t :=
  h.congr (startsOf_out ..) (by rw [outsOf_out, if_neg hne])

theorem Tracked.other_start (h : Tracked log t) (hne : taskId ≠ t.taskId) (context : TaskContext) :
    Tracked (log ++ [.start taskId time context]) t :=
  h.congr (by rw [startsOf_start, if_neg hne]) (outsOf_start ..)

/-- **A slice ends.**  `record_run_end` keeps the counters. -/
theorem Tracked.out (h : Tracked log t) (hrun : t.state = .running) {new : TaskState}
    (hnew : new ≠ .running) {regs : Saved}
    (htimed : Timed (log ++ [.out t.taskId time new regs])) (hlen : log.length + 1 < 2 ^ 64) :
    Tracked (log ++ [.out t.taskId time new regs]) ((t.setState new).recordRunEnd time) := by
  have hshape := h.shape
  rw [if_pos hrun] at hshape
  have hspan := h.span
  rw [if_pos hrun] at hspan
  have htime := htimed.snoc_mem
  have hle : t.statistics.lastRunStart ≤ time := by
    rw [h.lastStart]
    exact getLastD_startsOf_le htimed.snoc_le _
  have hcount : (outsOf t.taskId log).length ≤ log.length := List.length_filterMap_le _ _
  have hsub := wrappingSub_of_le hle htime.2
  have hsum : t.statistics.totalExecuted + (time - t.statistics.lastRunStart) < 2 ^ 64 := by
    have := htime.2
    simp only [Mark.time] at this
    omega
  constructor <;> simp only [TaskControlBlock.setState, TaskControlBlock.recordRunEnd,
    TaskStatistics.recordRunEnd, startsOf_out, outsOf_out, if_true, hsub, wrap_of_lt hsum, if_neg hnew]
  · rw [h.count, wrap_of_lt (by omega)]
    simp
  · rw [executedTime_snoc hshape, h.executed, h.lastStart]
  · rw [waitingTime_short hshape, h.waiting]
  · exact h.first
  · exact h.lastStart
  · simp
  · rw [hshape]
    simp
  · omega

/-- **A slice begins.**  `record_run_start` keeps the counters. -/
theorem Tracked.start (h : Tracked log t) (hrun : t.state ≠ .running) (context : TaskContext)
    (htimed : Timed (log ++ [.start t.taskId time context])) :
    Tracked (log ++ [.start t.taskId time context]) (started t time) := by
  have hshape := h.shape
  rw [if_neg hrun, Nat.add_zero] at hshape
  have hspan := h.span
  rw [if_neg hrun] at hspan
  have htime : 0 < time ∧ time < 2 ^ 64 := htimed.snoc_mem
  have hle : t.statistics.lastRunEnd ≤ time := by
    rw [h.lastEnd]
    exact getLastD_outsOf_le htimed.snoc_le _
  have hsub := wrappingSub_of_le hle htime.2
  -- a task has been started before exactly when its first start is not zero
  have hfirst : t.statistics.firstRunStart = 0 ↔ startsOf t.taskId log = [] := by
    rw [h.first]
    constructor
    · intro hz
      cases hS : startsOf t.taskId log with
      | nil => rfl
      | cons s S =>
        obtain ⟨m, hm, he⟩ := mem_startsOf (show s ∈ startsOf t.taskId log by simp [hS])
        have hpos := htimed.pos m (List.mem_append_left _ hm)
        rw [hS, List.headD_cons] at hz
        omega
    · intro hS
      rw [hS]
      rfl
  by_cases hz : t.statistics.firstRunStart = 0
  · have hS := hfirst.mp hz
    have hO : outsOf t.taskId log = [] := by
      rw [hS] at hshape
      exact List.length_eq_zero_iff.mp hshape.symm
    have hex : t.statistics.totalExecuted = 0 := by
      rw [h.executed, hS]
      rfl
    have hwt : t.statistics.totalWaiting = 0 := by
      rw [h.waiting, hS, hO]
      rfl
    have hcount := h.count
    have hend := h.lastEnd
    rw [hO] at hcount hend
    constructor <;> simp only [started, TaskControlBlock.setState, TaskControlBlock.recordRunStart,
      TaskStatistics.recordRunStart, startsOf_start, outsOf_start, if_true, hS, hO, hz, hex, hwt,
      hcount, hend]
    · rfl
    · rfl
    · rfl
    · rfl
    · rfl
    · rfl
  · have hne : startsOf t.taskId log ≠ [] := fun he => hz (hfirst.mpr he)
    have hsum : t.statistics.totalWaiting + (time - t.statistics.lastRunEnd) < 2 ^ 64 := by omega
    constructor <;> simp only [started, TaskControlBlock.setState, TaskControlBlock.recordRunStart,
      TaskStatistics.recordRunStart, startsOf_start, outsOf_start, if_true, if_neg hz, hsub,
      wrap_of_lt hsum]
    · exact h.count
    · rw [executedTime_short hshape, h.executed]
    · rw [waitingTime_snoc hshape hne, h.waiting, h.lastEnd]
    · rw [h.first]
      cases hS : startsOf t.taskId log with
      | nil => exact absurd hS hne
      | cons s S => rfl
    · simp
    · exact h.lastEnd
    · rw [List.length_append, hshape]
      rfl
    · omega

/-! ### Runs -/

theorem increaseSyscallCount_statistics (s : TaskStatistics) (syscallId : ℕ) :
    ∃ counts, (s.increaseSyscallCount syscallId).1 = { s with syscallCounts := counts } := by
  unfold TaskStatistics.increaseSyscallCount
  split
  · exact ⟨_, rfl⟩
  · exact ⟨_, rfl⟩

/-- An action that does not end the slice leaves the counters of times alone. -/
theorem Tracked.stay (h : Tracked log t) {a : Action V} (ha : a.leaves = none) :
    Tracked log (a.effect time t) := by
  cases a with
  | syscall syscallId =>
    obtain ⟨counts, hcounts⟩ := increaseSyscallCount_statistics t.statistics syscallId
    have heq : Action.effect time t (.syscall syscallId) =
        { t with statistics := { t.statistics with syscallCounts := counts } } := by
      rw [Action.effect, TaskControlBlock.recordSyscall, hcounts]
    rw [heq]
    exact ⟨h.count, h.executed, h.waiting, h.first, h.lastStart, h.lastEnd, h.shape, h.span⟩
  | space f =>
    exact ⟨h.count, h.executed, h.waiting, h.first, h.lastStart, h.lastEnd, h.shape, h.span⟩
  | timer => cases ha
  | kill => cases ha
  | exit => cases ha
  | yield => cases ha

/-- The action is not `sys_yield`. -/
def Action.noYield : Action V → Prop
  | .yield => False
  | _ => True

/-- An action that leaves the task to be scheduled again, other than `sys_yield`, ends its slice. -/
theorem Action.effect_of_ready {a : Action V} (hok : a.noYield) {new : TaskState}
    (ha : a.leaves = some new) (hend : new.isEnd = false) :
    new = .ready ∧ a.effect time t = (t.setState .ready).recordRunEnd time := by
  cases a with
  | timer => exact ⟨(Option.some.inj ha).symm, rfl⟩
  | yield => exact hok.elim
  | kill =>
    obtain rfl := Option.some.inj ha
    cases hend
  | exit =>
    obtain rfl := Option.some.inj ha
    cases hend
  | syscall syscallId => cases ha
  | space f => cases ha

variable {created : List ℕ} {boot st : Kernel V} {next : TaskControlBlock V} {retAddr : ℕ}

/-- A task that has not been started. -/
theorem tracked_zeros (h : t.statistics = TaskStatistics.newZeros) (hready : t.state = .ready) :
    Tracked [] t := by
  have hne : t.state ≠ .running := by
    rw [hready]
    decide
  constructor <;> simp [h, TaskStatistics.newZeros, startsOf, outsOf, executedTime, waitingTime, hne]

/-- **The counters along every run without `sys_yield`.** -/
theorem Run.tracked (hboot : Booted created boot)
    (hzeros : ∀ t ∈ boot.allTasks, t.statistics = TaskStatistics.newZeros)
    (hrun : Run boot retAddr Action.noYield next st log) (htimed : Timed log)
    (hlen : log.length < 2 ^ 64) : ∀ t ∈ st.allTasks, Tracked log t := by
  induction hrun with
  | start h =>
    rename_i clock _ _ _ _
    have hnew : ∀ t ∈ boot.allTasks, Tracked [] t := fun t ht =>
      tracked_zeros (hzeros t ht) (hboot.ready t ht)
    rcases hboot.continues clock with ⟨_, hstop, -⟩ | ⟨_, _, next', st', hnext, hsw, hong, hmem⟩
    · rw [hstop] at h
      cases h
    rw [hsw] at h
    cases h
    rename_i next _
    have hne : next.state ≠ .running := by
      rw [hboot.ready next hnext]
      decide
    have hstarted := (hnew next hnext).start hne next.context htimed
    intro t ht
    by_cases hid : next.taskId = t.taskId
    · rw [hong.listed.eq_of_taskId ht hong.mem hid.symm]
      exact hstarted
    · rcases hmem t ht with ht | rfl
      · exact (hnew t ht).other_start hid _
      · exact absurd rfl hid
  | stay hr hok ha h ih =>
    rename_i next st st' log a time
    obtain ⟨tcb, hong, hstate, -, -⟩ := hr.ongoing hboot
    obtain ⟨st₁, happly, -, hmem⟩ := Action.apply_ongoing hong hstate a time
    rw [happly] at h
    cases h
    intro t ht
    rcases hmem t ht with ht | rfl
    · exact ih htimed hlen t ht
    · exact (ih htimed hlen tcb hong.mem).stay ha
  | switch hr hok ha h hnext _ ih =>
    rename_i next next' st st₁ st' log a new clock _ _ regs _
    obtain ⟨tcb, hong, hstate, hid, -⟩ := hr.ongoing hboot
    obtain ⟨st₂, happly, hong₁, hmem, hc⟩ := Action.continues hong hstate ha clock
    rw [happly] at h
    cases h
    rcases hc with ⟨_, hstop, -⟩ | ⟨_, _, _, _, hin, hsw, hong', hmem'⟩
    · rw [hstop] at hnext
      cases hnext
    rw [hsw] at hnext
    cases hnext
    have hsplit : ∀ curr, log ++ [Mark.out next.taskId clock.runEnd new regs,
        .start next'.taskId clock.runStart (Locals.switch ⟨curr, next'⟩ regs).2] =
        (log ++ [.out tcb.taskId clock.runEnd new regs]) ++
          [.start next'.taskId clock.runStart next'.context] := by
      intro curr
      rw [hid, List.append_assoc]
      rfl
    rw [hsplit] at htimed hlen ⊢
    simp only [List.length_append, List.length_singleton] at hlen
    have ih := ih htimed.of_append.of_append (by omega)
    -- nobody else is affected by the switch, and only a timer interrupt leaves the task in the list
    have hout : ∀ t ∈ st₁.allTasks, t.taskId ∉ goneAfter (ended log) tcb.taskId new →
        Tracked (log ++ [.out tcb.taskId clock.runEnd new regs]) t ∧ t.state ≠ .running := by
      intro t ht hgone
      by_cases hsame : tcb.taskId = t.taskId
      · have heff : t = a.effect clock.runEnd tcb :=
          hong₁.listed.eq_of_taskId ht hong₁.mem (by rw [a.effect_taskId, hsame])
        have hend : new.isEnd = false := by
          rw [← Bool.not_eq_true]
          intro hend
          rw [goneAfter, if_pos hend] at hgone
          exact hgone (by simp [hsame])
        have hready : new = .ready ∧ a.effect clock.runEnd tcb = _ :=
          Action.effect_of_ready hok ha hend
        obtain ⟨rfl, heff'⟩ := hready
        have hne : TaskState.ready ≠ .running := by decide
        rw [heff, heff']
        exact ⟨(ih tcb hong.mem).out hstate hne htimed.of_append (by omega), hne⟩
      · have hold : t ∈ st.allTasks := by
          rcases hmem t ht with ht | rfl
          · exact ht
          · exact absurd (a.effect_taskId clock.runEnd tcb).symm hsame
        refine ⟨(ih t hold).other_out hsame _ _, ?_⟩
        rw [hong.others t hold (Ne.symm hsame)]
        decide
    have hpresent : ∀ t ∈ st'.allTasks, t.taskId ∉ goneAfter (ended log) tcb.taskId new :=
      fun t ht => ((hong'.listed.mem_iff t.taskId).mp (List.mem_map_of_mem ht)).2
    have halive : next'.taskId ∉ goneAfter (ended log) tcb.taskId new :=
      hpresent (started next' clock.runStart) hong'.mem
    obtain ⟨htracked, hne⟩ := hout next' hin halive
    have hstarted := htracked.start hne next'.context htimed
    intro t ht
    by_cases hsame : next'.taskId = t.taskId
    · rw [hong'.listed.eq_of_taskId ht hong'.mem hsame.symm]
      exact hstarted
    · rcases hmem' t ht with ht' | rfl
      · exact (hout t ht' (hpresent t ht)).1.other_start hsame _
      · exact absurd rfl hsame

/-- What the counters of a task say at a point of a run. -/
structure Accurate (log : List Mark) (t : TaskControlBlock V) : Prop where
  switches : t.statistics.switchCount = (outsOf t.taskId log).length
  executed : t.statistics.totalExecuted = executedTime (startsOf t.taskId log) (outsOf t.taskId log)
  waiting : t.statistics.totalWaiting = waitingTime (startsOf t.taskId log) (outsOf t.taskId log)
  /-- The two times fit between the first start and any later moment, -/
  bounded : ∀ now, (∀ m ∈ log, m.time ≤ now) → t.statistics.totalExecuted +
    t.statistics.totalWaiting ≤ now - t.statistics.firstRunStart
  /-- and no subtraction of a later `record_run_end` or `record_run_start` underflows. -/
  no_underflow : ∀ now, (∀ m ∈ log, m.time ≤ now) →
    t.statistics.lastRunStart ≤ now ∧ t.statistics.lastRunEnd ≤ now

theorem Tracked.accurate (h : Tracked log t) : Accurate log t := by
  have hunder : ∀ now, (∀ m ∈ log, m.time ≤ now) →
      t.statistics.lastRunStart ≤ now ∧ t.statistics.lastRunEnd ≤ now := by
    intro now hnow
    rw [h.lastStart, h.lastEnd]
    exact ⟨getLastD_startsOf_le hnow _, getLastD_outsOf_le hnow _⟩
  refine ⟨h.count, h.executed, h.waiting, fun now hnow => ?_, hunder⟩
  obtain ⟨hs, he⟩ := hunder now hnow
  have hspan := h.span
  split at hspan <;> omega

/-- **The statistics of tasks that never yield.**  In every run from boot with a positive clock that
does not go back, in which no task calls `sys_yield` and fewer than `2 ^ 64` switches happen, the
counters of every task agree with the switches of the run. -/
theorem statistics_accurate (layout : Layout) (m₀ : Mem) {a₀ : PageAllocator} {k : Phys}
    {t : RootPgt} (halloc : initialAllocator layout.kernelEnd.toNat = some a₀)
    (hinit : initKernelSatp layout ⟨m₀, a₀⟩ = (.ok t, k)) (restoreUCtx retAddr : ℕ)
    (slots : ℕ → ℕ) (apps : List Elf) (hn : apps.length < 2 ^ 64) {b : Boot}
    (hadd : addTasks t.ppn restoreUCtx apps ⟨k, 1, ⟨[], 0, slots⟩⟩ = some b)
    {next : TaskControlBlock VMSpace} {st : Kernel VMSpace} {log : List Mark}
    (hrun : Run b.kernel retAddr Action.noYield next st log) (htimed : Timed log)
    (hlen : log.length < 2 ^ 64) : ∀ tcb ∈ st.allTasks, Accurate log tcb := by
  obtain ⟨img, -, -, -, hacc⟩ :=
    initKernelSatp_image layout (accounted_initial layout m₀ halloc) hinit
  have hboot := addTasks_booted hacc slots hn hadd
  have hzeros : ∀ t ∈ b.kernel.allTasks, t.statistics = TaskStatistics.newZeros :=
    addTasks_new (fun _ _ _ _ => rfl) (fun t ht => (List.not_mem_nil ht).elim) hadd
  exact fun tcb htcb => (hrun.tracked hboot hzeros htimed hlen tcb htcb).accurate

/-- The task without segments runs from 5 to 7, waits until 9 and runs again. -/
theorem statistics_accurate_bare : ∃ t k b next st context context' regs,
    initKernelSatp sampleLayout ⟨fun _ _ => 0, ⟨0x80500, 0x88000, []⟩⟩ = (.ok t, k) ∧
      addTasks t.ppn 0x100 [bareElf] ⟨k, 1, ⟨[], 0, fun _ => 0⟩⟩ = some b ∧
      Run b.kernel 0x200 Action.noYield next st
        [.start 1 5 context, .out 1 7 .ready regs, .start 1 9 context'] ∧
      ∃ tcb ∈ st.allTasks, tcb.statistics.switchCount = 1 ∧ tcb.statistics.totalExecuted = 2 ∧
        tcb.statistics.totalWaiting = 2 ∧
        Accurate [.start 1 5 context, .out 1 7 .ready regs, .start 1 9 context'] tcb := by
  obtain ⟨t, k, b, hinit, hb⟩ := bare_start 0x100
  obtain ⟨img, -, -, -, hacc⟩ :=
    initKernelSatp_image sampleLayout (accounted_initial _ _ sampleLayout_allocator) hinit
  have hlen : [bareElf].length < 2 ^ 64 := by decide
  have hboot := addTasks_booted hacc (fun _ => 0) hlen hb
  have hzeros : ∀ t ∈ b.kernel.allTasks, t.statistics = TaskStatistics.newZeros :=
    addTasks_new (fun _ _ _ _ => rfl) (fun t ht => (List.not_mem_nil ht).elim) hb
  obtain ⟨next, st, context, context', hrun, tcb, htcb, t₀, ht₀, -, hstat⟩ :=
    @one_task_returns _ _ 0x200 hboot Action.noYield .timer trivial rfl ⟨[], 0x200, 0⟩ rfl
      ⟨0, 4, 4, 5⟩ ⟨7, 8, 8, 9⟩
  have htimed : Timed [.start 1 5 context, .out 1 7 .ready ⟨[], 0x200, 0⟩, .start 1 9 context'] := by
    refine ⟨?_, ?_, ?_⟩ <;> simp [Mark.time]
  replace hstat : tcb.statistics =
      ((TaskStatistics.newZeros.recordRunStart 5).recordRunEnd 7).recordRunStart 9 := by
    rw [hstat, ← hzeros t₀ ht₀]
    rfl
  have hvalues : tcb.statistics.switchCount = 1 ∧ tcb.statistics.totalExecuted = 2 ∧
      tcb.statistics.totalWaiting = 2 := by
    rw [hstat]
    exact ⟨rfl, rfl, rfl⟩
  exact ⟨t, k, b, next, st, context, context', _, hinit, hb, hrun, tcb, htcb, hvalues.1,
    hvalues.2.1, hvalues.2.2, statistics_accurate sampleLayout _ sampleLayout_allocator hinit 0x100
    0x200 _ [bareElf] hlen hb hrun htimed (by simp) tcb htcb⟩

/-- A task that yields is switched out once and its counter says zero; after its next start the
whole time since boot counts as waiting. -/
theorem yield_not_counted : ∃ t k b next st context context' regs,
    initKernelSatp sampleLayout ⟨fun _ _ => 0, ⟨0x80500, 0x88000, []⟩⟩ = (.ok t, k) ∧
      addTasks t.ppn 0x100 [bareElf] ⟨k, 1, ⟨[], 0, fun _ => 0⟩⟩ = some b ∧
      Run b.kernel 0x200 (fun _ => True) next st
        [.start 1 5 context, .out 1 7 .ready regs, .start 1 9 context'] ∧
      Timed [.start 1 5 context, .out 1 7 .ready regs, .start 1 9 context'] ∧
      ∃ tcb ∈ st.allTasks, tcb.taskId = 1 ∧ tcb.statistics.switchCount = 0 ∧
        tcb.statistics.totalWaiting = 9 ∧
        ¬Accurate [.start 1 5 context, .out 1 7 .ready regs, .start 1 9 context'] tcb := by
  obtain ⟨t, k, b, hinit, hb⟩ := bare_start 0x100
  obtain ⟨img, -, -, -, hacc⟩ :=
    initKernelSatp_image sampleLayout (accounted_initial _ _ sampleLayout_allocator) hinit
  have hboot := addTasks_booted hacc (fun _ => 0) (show [bareElf].length < 2 ^ 64 by decide) hb
  have hzeros : ∀ t ∈ b.kernel.allTasks, t.statistics = TaskStatistics.newZeros :=
    addTasks_new (fun _ _ _ _ => rfl) (fun t ht => (List.not_mem_nil ht).elim) hb
  obtain ⟨next, st, context, context', hrun, tcb, htcb, t₀, ht₀, hid, hstat⟩ :=
    @one_task_returns _ _ 0x200 hboot (fun _ => True) .yield trivial rfl ⟨[], 0x200, 0⟩ rfl
      ⟨0, 4, 4, 5⟩ ⟨7, 8, 8, 9⟩
  replace hstat : tcb.statistics = (TaskStatistics.newZeros.recordRunStart 5).recordRunStart 9 := by
    rw [hstat, ← hzeros t₀ ht₀]
    rfl
  have hcount : tcb.statistics.switchCount = 0 := by
    rw [hstat]
    rfl
  have hwait : tcb.statistics.totalWaiting = 9 := by
    rw [hstat]
    rfl
  refine ⟨t, k, b, next, st, context, context', _, hinit, hb, hrun, ⟨?_, ?_, ?_⟩, tcb, htcb, hid,
    hcount, hwait, fun h => ?_⟩
  · simp [Mark.time]
  · simp [Mark.time]
  · simp [Mark.time]
  · have hs := h.switches
    rw [hcount, hid] at hs
    exact absurd hs (by simp [outsOf])

end RCoreKernel.Task
