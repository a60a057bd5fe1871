import RCoreKernel.Task.Resume
import RCoreKernel.Trap.Scratch
import RCoreKernel.Trap.Switch

/-!
# Every task has a hart of its own

`trap.S`, the scheduler and `switch.S` together.  One hart runs the user programs in turn: a program
traps, a handler runs, and either the same program goes on or `run_next_task` calls `__switch` and
another one does.  What `__switch` stores is never loaded again; a task goes on at
`__restore_u_ctx`, with the trap context that its last trap has left on its kernel stack.

The runs are those under two conditions.  From the call of `__switch` to the `sret` after it no
interrupt is taken; on the first entry of a task interrupts can be enabled there, and one of them
would overwrite its trap context (`Trap.Scratch`, `Spared`).  And the two control blocks that are
local variables of `run_next_task` lie in different places of the kernel stack.

* `HartRun` — the runs of the hart, with a log of the slices of all programs;
* `harts` — the same log on a machine with a hart for each task;
* `HartRun.inv` — the invariant, and `hartRun_slices` — **a program goes on with the registers and
  at the address where it was, and with its own `satp`, whatever ran in between**.
-/

namespace RCoreKernel.Trap.Asm

open Mm RCoreKernel.Task Switch

variable {V : Type}

/-! ### A hart for each task -/

/-- The registers and the program counter of a user program. -/
structure VHart where
  x : ℕ → ℕ
  pc : ℕ

/-- The same registers `x1` to `x31`, and the same program counter. -/
structure VHart.Same (v w : VHart) : Prop where
  regs : ∀ n, 0 < n → n < 32 → v.x n = w.x n
  pc : v.pc = w.pc

/-- Past an `ecall`. -/
def VHart.skip (v : VHart) : VHart := { v with pc := wrap (v.pc + 4) }

/-- What shows of a run. -/
inductive Event
  /-- the program of the task runs from `start` to a trap at `stop` -/
  | slice (taskId satp : ℕ) (start stop : VHart)
  /-- its system call returns -/
  | answered (taskId value : ℕ)
  /-- its system call does not return: `sys_yield` or `sys_exit` -/
  | unanswered (taskId : ℕ)

/-- An event changes the hart of its task. -/
def Event.apply (vs : ℕ → VHart) : Event → ℕ → VHart
  | .slice taskId _ _ stop => Function.update vs taskId stop
  | .answered taskId value =>
    Function.update vs taskId
      { (vs taskId).skip with x := Function.update (vs taskId).x 10 value }
  | .unanswered taskId => Function.update vs taskId (vs taskId).skip

/-- The harts of the tasks after a run. -/
def harts (init : ℕ → VHart) (log : List Event) : ℕ → VHart := log.foldl Event.apply init

theorem harts_append (init : ℕ → VHart) (log log' : List Event) :
    harts init (log ++ log') = harts (harts init log) log' :=
  List.foldl_append

/-! ### The hart that there is -/

/-- The hart in user mode, its `satp`, and the scheduler: `next` is the task that was switched to. -/
structure Core.State (V : Type) where
  hart : Hart
  satp : ℕ
  next : TaskControlBlock V
  kernel : Kernel V

/-- The trap contexts of the tasks, but for the one at `c`, have the same words. -/
def KeepsOthers (tasks : List (TaskControlBlock V)) (c : ℕ) (mem mem' : ℕ → ℕ) : Prop :=
  ∀ t ∈ tasks, t.context.tp ≠ c → ∀ n < 35, mem' (slot t.context.tp n) = mem (slot t.context.tp n)

/-- What a handler does to the control block of the task, before it may leave it. -/
def Stays : Kernel V → Kernel V → Prop :=
  Relation.ReflTransGen fun st st' => ∃ a time, a.leaves = none ∧ Action.apply st time a = .ok st'

/-- A user program traps at `epc`, with registers `x`; `u_trap_handler` assigns `slots` of the trap
context and ends at `g`.  Neither writes the trap context of another task. -/
structure Handled (ua : UAccess) (tasks : List (TaskControlBlock V)) (h : Hart) (x mem : ℕ → ℕ)
    (epc : ℕ) (slots : List ℕ) (g : Hart) : Prop where
  user : ∀ t ∈ tasks, ∀ n < 35, mem (slot t.context.tp n) = h.mem (slot t.context.tp n)
  body : KernelRun ua h.sscratch (keptWords h.sscratch slots)
    (enterU { h with x := x, mem := mem } epc) g
  others : KeepsOthers tasks h.sscratch (enterU { h with x := x, mem := mem } epc).mem g.mem
  /-- `context.sepc += 4` -/
  sepc : 33 ∈ slots → g.mem (slot h.sscratch 33) = wrap (epc + 4)

/-- `run_next_task` calls `__switch`, with pointers to its locals, which do not overlap. -/
structure CallsSwitch (tasks : List (TaskControlBlock V)) (locals : Locals V) (g : Hart) : Prop where
  callable : Callable g
  curr : (locals.curr.map fun tcb => tcb.context) =
    if g.x a0 = 0 then none else some (contextAt g.mem (g.x a0))
  next : locals.next.context = contextAt g.mem (g.x a1)
  /-- the locals are not where the trap contexts are -/
  apart : g.x a0 ≠ 0 → ∀ t ∈ tasks,
    g.x a0 + 8 * 16 ≤ t.context.tp ∨ t.context.tp + contextSize ≤ g.x a0

/-- The slots of the trap context that have been assigned when `run_next_task` is called. -/
def assignedLeaving : Action V → List ℕ
  | .exit => [33]
  | .yield => [33]
  | _ => []

/-- From the call of `__switch` to user mode, without an interrupt. -/
def afterSwitch (restoreUCtx : ℕ) (g : Hart) (satp : ℕ) : Hart :=
  (switch restoreUCtx g satp).hart.run 37

/-- The runs after `boot`, with the trap contexts in `mem₀`, that take no interrupt between a call of
`__switch` and user mode. -/
inductive HartRun (boot : Kernel V) (retAddr restoreUCtx : ℕ) (ua : UAccess) (mem₀ : ℕ → ℕ) :
    Core.State V → List Event → Prop
  | start {clock : Clock} {curr dropped : Option (TaskControlBlock V)} {next : TaskControlBlock V}
      {st : Kernel V} {g : Hart} {satp : ℕ}
      (h : boot.runNextTask clock.takeCurr clock.takeNext clock.runStart =
        .ok (.switch curr dropped next st))
      (hg : Running g)
      (hmem : ∀ t ∈ boot.allTasks, ∀ n < 35,
        g.mem (slot t.context.tp n) = mem₀ (slot t.context.tp n))
      (hcall : CallsSwitch boot.allTasks ⟨curr, next⟩ g) :
      HartRun boot retAddr restoreUCtx ua mem₀
        ⟨afterSwitch restoreUCtx g satp, (switch restoreUCtx g satp).satp, next, st⟩ []
  /-- The handler returns. -/
  | returns {s : Core.State V} {log : List Event} {x mem : ℕ → ℕ} {epc : ℕ} {g : Hart}
      {st' : Kernel V} {ecall : Bool} (hr : HartRun boot retAddr restoreUCtx ua mem₀ s log)
      (hbody : Handled ua s.kernel.allTasks s.hart x mem epc (assigned ecall) g)
      (hstay : Stays s.kernel st') :
      HartRun boot retAddr restoreUCtx ua mem₀ ⟨leaveU g, s.satp, s.next, st'⟩
        (log ++ .slice s.next.taskId s.satp ⟨s.hart.x, s.hart.sepc⟩ ⟨x, epc⟩ ::
          if ecall then [.answered s.next.taskId (g.mem (slot s.hart.sscratch 10))] else [])
  /-- The handler calls `run_next_task`, which calls `__switch`. -/
  | switches {s : Core.State V} {log : List Event} {x mem : ℕ → ℕ} {epc : ℕ} {g : Hart}
      {st₁ st₂ st' : Kernel V} {a : Action V} {new : TaskState} {clock : Clock}
      {curr dropped : Option (TaskControlBlock V)} {next' : TaskControlBlock V}
      (hr : HartRun boot retAddr restoreUCtx ua mem₀ s log)
      (hbody : Handled ua s.kernel.allTasks s.hart x mem epc (assignedLeaving a) g)
      (hstay : Stays s.kernel st₁) (ha : a.leaves = some new)
      (happly : a.apply st₁ clock.runEnd = .ok st₂)
      (hnext : st₂.runNextTask clock.takeCurr clock.takeNext clock.runStart =
        .ok (.switch curr dropped next' st'))
      (hret : g.x ra = retAddr) (hcall : CallsSwitch s.kernel.allTasks ⟨curr, next'⟩ g) :
      HartRun boot retAddr restoreUCtx ua mem₀
        ⟨afterSwitch restoreUCtx g s.satp, (switch restoreUCtx g s.satp).satp, next', st'⟩
        (log ++ .slice s.next.taskId s.satp ⟨s.hart.x, s.hart.sepc⟩ ⟨x, epc⟩ ::
          if 33 ∈ assignedLeaving a then [.unanswered s.next.taskId] else [])

/-! ### What a context holds -/

/-- The trap context at `c` holds the state of a user program. -/
structure HoldsHart (mem : ℕ → ℕ) (c : ℕ) (v : VHart) : Prop where
  regs : ∀ n, 0 < n → n < 32 → mem (slot c n) = v.x n
  sepc : mem (slot c 33) = v.pc
  spp : (mem (slot c 32)).testBit sppBit = false

theorem HoldsHart.congr {mem mem' : ℕ → ℕ} {c : ℕ} {v : VHart} (h : HoldsHart mem c v)
    (hmem : ∀ n < 35, mem' (slot c n) = mem (slot c n)) : HoldsHart mem' c v where
  regs n hpos hlt := (hmem n (by omega)).trans (h.regs n hpos hlt)
  sepc := (hmem 33 (by norm_num)).trans h.sepc
  spp := by
    rw [hmem 32 (by norm_num)]
    exact h.spp

/-- The hart runs a user program, whose trap context is at `c`. -/
structure InUser (h : Hart) (c : ℕ) (v : VHart) : Prop where
  mode : h.mode = .user
  pc : h.pc = .user
  sscratch : h.sscratch = c
  same : VHart.Same ⟨h.x, h.sepc⟩ v

/-- `__restore_u_ctx` gives the program what the context holds. -/
theorem leaveU_user {g : Hart} {c : ℕ} {v : VHart} (htp : g.x tp = c) (hv : HoldsHart g.mem c v) :
    InUser (leaveU g) c v ∧ (leaveU g).mem = g.mem := by
  obtain ⟨r, hleave, hrestored, hscratch⟩ := leaveU_spec g htp
  have hspp : ¬r.spp = true := by
    show ¬r.sstatus.testBit sppBit = true
    rw [hrestored.status, hv.spp]
    decide
  rw [hleave]
  refine ⟨⟨if_neg hspp, if_neg hspp, hscratch, ?_, ?_⟩, hrestored.mem⟩
  · intro n hpos hlt
    exact (hrestored.regs n hpos hlt).trans (hv.regs n hpos hlt)
  · exact hrestored.sepc.trans hv.sepc

theorem slot_apart {b c m n : ℕ} (hb : Fits b) (hc : Fits c) (h : ContextsApart b c) (hm : m < 35)
    (hn : n < 35) : slot b m ≠ slot c n := by
  rw [slot_eq hb hm, slot_eq hc hn]
  unfold ContextsApart contextSize at h
  omega

variable {ua : UAccess} {tasks : List (TaskControlBlock V)} {h g : Hart} {x mem : ℕ → ℕ} {epc c : ℕ}
  {slots : List ℕ}

/-- What is in the trap context of the program when the handler ends. -/
structure Handled.Left (g : Hart) (c : ℕ) (x : ℕ → ℕ) (epc : ℕ) (slots : List ℕ) : Prop where
  running : Running g
  tp : g.x tp = c
  spp : (g.mem (slot c 32)).testBit sppBit = false
  regs : ∀ n, 0 < n → n < 32 → n ∉ slots → g.mem (slot c n) = x n
  sepc : g.mem (slot c 33) = if 33 ∈ slots then wrap (epc + 4) else epc

theorem Handled.left (hb : Handled ua tasks h x mem epc slots g) (hmode : h.mode = .user)
    (hs : h.sscratch = c) (hc : c ≠ 0) (hfits : Fits c) (h32 : 32 ∉ slots) :
    Handled.Left g c x epc slots := by
  subst hs
  obtain ⟨hin, hheld, -⟩ := enterU_spec (h := { h with x := x, mem := mem }) epc rfl hc hfits
  have hbase : h.sscratch < 2 ^ 64 := by
    unfold Fits contextSize at hfits
    omega
  obtain ⟨hg, htp, hmem⟩ := hb.body.spec hbase (keptWords_ge hfits slots)
    ⟨hin.pc, hin.mode, hin.sscratch⟩
  have hslot : ∀ n < 35, n ∉ slots → g.mem (slot h.sscratch n) =
      (enterU { h with x := x, mem := mem } epc).mem (slot h.sscratch n) :=
    fun n hn hna => hmem _ ⟨n, hn, hna, rfl⟩
  refine ⟨hg, htp.trans hin.tp, ?_, fun n hpos hlt hna => ?_, ?_⟩
  · rw [hslot 32 (by norm_num) h32, hheld.status]
    show (Hart.trap { h with x := x, mem := mem } epc).spp = false
    rw [Hart.trap_spp]
    show decide (h.mode = .supervisor) = false
    rw [hmode]
    decide
  · exact (hslot n (by omega) hna).trans (hheld.regs n hpos hlt)
  · split
    · rename_i h33
      exact hb.sepc h33
    · rename_i h33
      exact (hslot 33 (by norm_num) h33).trans hheld.sepc

/-- The trap contexts of the other tasks are what they were. -/
theorem Handled.kept (hb : Handled ua tasks h x mem epc slots g) (hs : h.sscratch = c) (hc : c ≠ 0)
    (hfits : Fits c) {t : TaskControlBlock V} (ht : t ∈ tasks) (htfits : Fits t.context.tp)
    (hapart : ContextsApart c t.context.tp) {n : ℕ} (hn : n < 35) :
    g.mem (slot t.context.tp n) = h.mem (slot t.context.tp n) := by
  subst hs
  obtain ⟨-, -, hframe⟩ := enterU_spec (h := { h with x := x, mem := mem }) epc rfl hc hfits
  have hne : t.context.tp ≠ h.sscratch := fun he => by
    rw [he] at hapart
    unfold ContextsApart contextSize at hapart
    omega
  rw [hb.others t ht hne n hn, hframe _ fun m hm => (slot_apart hfits htfits hapart (by omega) hn).symm]
  exact hb.user t ht n hn

/-! ### The tasks -/

/-- The control blocks come from `tasks`, with the same ids and contexts. -/
def Descends (tasks tasks' : List (TaskControlBlock V)) : Prop :=
  ∀ t' ∈ tasks', ∃ t ∈ tasks, t.taskId = t'.taskId ∧ t.context = t'.context

theorem Descends.refl (tasks : List (TaskControlBlock V)) : Descends tasks tasks :=
  fun t ht => ⟨t, ht, rfl, rfl⟩

theorem Descends.trans {tasks₁ tasks₂ tasks₃ : List (TaskControlBlock V)}
    (h : Descends tasks₁ tasks₂) (h' : Descends tasks₂ tasks₃) : Descends tasks₁ tasks₃ := by
  intro t₃ ht₃
  obtain ⟨t₂, ht₂, hid₂, hctx₂⟩ := h' t₃ ht₃
  obtain ⟨t₁, ht₁, hid₁, hctx₁⟩ := h t₂ ht₂
  exact ⟨t₁, ht₁, hid₁.trans hid₂, hctx₁.trans hctx₂⟩

/-- One control block of `tasks` has changed. -/
theorem Descends.of_mem {tasks tasks' : List (TaskControlBlock V)} {t t₀ : TaskControlBlock V}
    (h : ∀ t' ∈ tasks', t' ∈ tasks ∨ t' = t) (ht₀ : t₀ ∈ tasks) (hid : t₀.taskId = t.taskId)
    (hctx : t₀.context = t.context) : Descends tasks tasks' := by
  intro t' ht'
  rcases h t' ht' with ht' | rfl
  · exact ⟨t', ht', rfl, rfl⟩
  · exact ⟨t₀, ht₀, hid, hctx⟩

/-- The trap contexts of the tasks, and where `__switch` goes. -/
structure Placed (restoreUCtx : ℕ) (tasks : List (TaskControlBlock V)) : Prop where
  ra : ∀ t ∈ tasks, t.context.ra = restoreUCtx
  fits : ∀ t ∈ tasks, Fits t.context.tp
  ne_zero : ∀ t ∈ tasks, t.context.tp ≠ 0
  apart : ∀ t ∈ tasks, ∀ t' ∈ tasks, t.taskId ≠ t'.taskId →
    ContextsApart t.context.tp t'.context.tp

theorem Placed.descends {restoreUCtx : ℕ} {tasks tasks' : List (TaskControlBlock V)}
    (h : Placed restoreUCtx tasks) (hd : Descends tasks tasks') : Placed restoreUCtx tasks' := by
  constructor
  · intro t' ht'
    obtain ⟨t, ht, -, hctx⟩ := hd t' ht'
    exact hctx ▸ h.ra t ht
  · intro t' ht'
    obtain ⟨t, ht, -, hctx⟩ := hd t' ht'
    exact hctx ▸ h.fits t ht
  · intro t' ht'
    obtain ⟨t, ht, -, hctx⟩ := hd t' ht'
    exact hctx ▸ h.ne_zero t ht
  · intro t' ht' u' hu' hne
    obtain ⟨t, ht, hid, hctx⟩ := hd t' ht'
    obtain ⟨u, hu, huid, huctx⟩ := hd u' hu'
    rw [← hctx, ← huctx]
    exact h.apart t ht u hu (by rwa [hid, huid])

variable {created : List ℕ} {boot st st' : Kernel V} {next : TaskControlBlock V}
  {retAddr restoreUCtx satp : ℕ} {marks : List Mark} {mem₀ : ℕ → ℕ} {s : Core.State V}
  {log : List Event} {init vs : ℕ → VHart}

/-- What a handler does before it may leave the task. -/
theorem stays_run (hrun : Task.Run boot retAddr (fun _ => True) next st marks)
    (hstay : Stays st st') : Task.Run boot retAddr (fun _ => True) next st' marks := by
  induction hstay with
  | refl => exact hrun
  | tail _ hone ih =>
    obtain ⟨a, time, ha, happly⟩ := hone
    exact .stay ih trivial ha happly

theorem stays_descends (hboot : Booted created boot)
    (hrun : Task.Run boot retAddr (fun _ => True) next st marks) (hstay : Stays st st') :
    Descends st.allTasks st'.allTasks := by
  induction hstay with
  | refl => exact .refl _
  | tail hmore hone ih =>
    obtain ⟨a, time, ha, happly⟩ := hone
    obtain ⟨tcb, hong, hstate, -, -⟩ := (stays_run hrun hmore).ongoing hboot
    obtain ⟨st₁, happly', -, hmem⟩ := Action.apply_ongoing hong hstate a time
    obtain rfl := Except.ok.inj (happly.symm.trans happly')
    exact ih.trans (.of_mem hmem hong.mem (a.effect_taskId time tcb).symm
      (a.effect_context time tcb).symm)

/-- `run_next_task` starts one of the tasks. -/
theorem continues_descends {gone : List ℕ} {tasks : List (TaskControlBlock V)} {clock : Clock}
    {curr dropped : Option (TaskControlBlock V)} (hc : Continues created gone st tasks clock)
    (h : st.runNextTask clock.takeCurr clock.takeNext clock.runStart =
      .ok (.switch curr dropped next st')) : next ∈ tasks ∧ Descends tasks st'.allTasks := by
  rcases hc with ⟨_, hstop, -⟩ | ⟨_, _, next', st'', hin, hsw, -, hmem⟩
  · rw [hstop] at h
    cases h
  · rw [hsw] at h
    cases h
    exact ⟨hin, .of_mem hmem hin rfl rfl⟩

/-- The hart runs the scheduler's runs. -/
theorem HartRun.run (hrun : HartRun boot retAddr restoreUCtx ua mem₀ s log) :
    ∃ marks, Task.Run boot retAddr (fun _ => True) s.next s.kernel marks := by
  induction hrun with
  | start h => exact ⟨_, .start h⟩
  | returns _ _ hstay ih =>
    obtain ⟨marks, hrun⟩ := ih
    exact ⟨marks, stays_run hrun hstay⟩
  | switches _ _ hstay ha happly hnext hret _ ih =>
    obtain ⟨marks, hrun⟩ := ih
    exact ⟨_, .switch (stays_run hrun hstay) trivial ha happly hnext
      (show (savedRegs _).ra = retAddr from hret)⟩

/-- The task that runs is the one with the id of `next`. -/
def Core.State.Listed (s : Core.State V) : Prop :=
  (∃ t ∈ s.kernel.allTasks, t.taskId = s.next.taskId ∧ t.context = s.next.context) ∧
    ∀ t ∈ s.kernel.allTasks, t.taskId = s.next.taskId → t.context = s.next.context

theorem HartRun.listed (hboot : Booted created boot)
    (hrun : HartRun boot retAddr restoreUCtx ua mem₀ s log) : s.Listed := by
  obtain ⟨marks, hmarks⟩ := hrun.run
  obtain ⟨tcb, hong, -, hid, hctx⟩ := hmarks.ongoing hboot
  refine ⟨⟨tcb, hong.mem, hid, hctx⟩, fun t ht heq => ?_⟩
  rw [hong.listed.eq_of_taskId ht hong.mem (heq.trans hid.symm)]
  exact hctx

/-! ### The invariant -/

/-- The task that an event is about. -/
def Event.taskId : Event → ℕ
  | .slice taskId _ _ _ => taskId
  | .answered taskId _ => taskId
  | .unanswered taskId => taskId

/-- The events of a task do not change the harts of the others. -/
theorem harts_of_ne {events : List Event} {taskId : ℕ} (h : ∀ e ∈ events, e.taskId ≠ taskId) :
    harts vs events taskId = vs taskId := by
  induction events generalizing vs with
  | nil => rfl
  | cons e events ih =>
    obtain ⟨he, hrest⟩ := List.forall_mem_cons.mp h
    have happly : e.apply vs taskId = vs taskId := by
      cases e with
      | slice => exact Function.update_of_ne he.symm _ _
      | answered => exact Function.update_of_ne he.symm _ _
      | unanswered => exact Function.update_of_ne he.symm _ _
    exact (ih hrest).trans happly

/-- The program that runs has what its own hart has, and the trap contexts hold the harts of the
others. -/
structure HartInv (restoreUCtx : ℕ) (boot : Kernel V) (init : ℕ → VHart) (s : Core.State V)
    (log : List Event) : Prop where
  placed : Placed restoreUCtx s.kernel.allTasks
  descends : Descends boot.allTasks s.kernel.allTasks
  user : InUser s.hart s.next.context.tp (harts init log s.next.taskId)
  satp : s.satp = s.next.context.satp
  others : ∀ t ∈ s.kernel.allTasks, t.taskId ≠ s.next.taskId →
    HoldsHart s.hart.mem t.context.tp (harts init log t.taskId)

/-- When a handler ends, the trap contexts hold the harts of all tasks, if the one of the task that
trapped does. -/
theorem HartInv.held (hinv : HartInv restoreUCtx boot init s log)
    (hnext : s.Listed)
    (hb : Handled ua s.kernel.allTasks s.hart x mem epc slots g)
    (hv : HoldsHart g.mem s.next.context.tp (vs s.next.taskId))
    (hother : ∀ id, id ≠ s.next.taskId → vs id = harts init log id) :
    ∀ t ∈ s.kernel.allTasks, HoldsHart g.mem t.context.tp (vs t.taskId) := by
  intro t ht
  by_cases hid : t.taskId = s.next.taskId
  · rw [hnext.2 t ht hid, hid]
    exact hv
  · obtain ⟨⟨tcb, htcb, hid', hctx⟩, -⟩ := hnext
    have hapart := hinv.placed.apart tcb htcb t ht fun he => hid (he.symm.trans hid')
    have hfits := hinv.placed.fits tcb htcb
    have hne := hinv.placed.ne_zero tcb htcb
    rw [hctx] at hapart hfits hne
    rw [hother _ hid]
    exact (hinv.others t ht hid).congr fun n hn =>
      hb.kept hinv.user.sscratch hne hfits ht (hinv.placed.fits t ht) hapart hn

/-- `__switch` starts the program of a task, with what its trap context holds. -/
theorem afterSwitch_user {tasks : List (TaskControlBlock V)} {curr : Option (TaskControlBlock V)}
    (hcall : CallsSwitch tasks ⟨curr, next⟩ g) (hplaced : Placed restoreUCtx tasks)
    (hnext : ∃ t ∈ tasks, t.taskId = next.taskId ∧ t.context = next.context)
    (hheld : ∀ t ∈ tasks, HoldsHart g.mem t.context.tp (vs t.taskId)) (satp : ℕ) :
    InUser (afterSwitch restoreUCtx g satp) next.context.tp (vs next.taskId) ∧
      (switch restoreUCtx g satp).satp = next.context.satp ∧
      ∀ t ∈ tasks, HoldsHart (afterSwitch restoreUCtx g satp).mem t.context.tp (vs t.taskId) := by
  have hsw : Switched restoreUCtx g next.context (switch restoreUCtx g satp) :=
    (switch_locals hcall.callable hcall.curr hcall.next satp).2
  have hheld' : ∀ t ∈ tasks,
      HoldsHart (switch restoreUCtx g satp).hart.mem t.context.tp (vs t.taskId) := by
    intro t ht
    refine (hheld t ht).congr fun n hn => ?_
    rw [hsw.mem]
    refine switchMem_of_ne fun hne m hm => ?_
    have hapart := hcall.apart hne t ht
    rw [slot_eq (hplaced.fits t ht) hn, slot_task (hcall.callable.curr hne).1 (by omega)]
    unfold contextSize at hapart
    omega
  obtain ⟨t, ht, hid, hctx⟩ := hnext
  have hpc : (switch restoreUCtx g satp).hart.pc = .asm Asm.restoreUCtx := by
    rw [hsw.pc, if_pos (hctx ▸ hplaced.ra t ht)]
  have hleave : afterSwitch restoreUCtx g satp = leaveU (switch restoreUCtx g satp).hart := by
    rw [afterSwitch, leaveU, Hart.goto, ← hpc]
  have hv := hheld' t ht
  rw [hid, hctx] at hv
  obtain ⟨huser, hmem⟩ := leaveU_user hsw.tp hv
  rw [hleave]
  refine ⟨huser, hsw.satp, fun t ht => ?_⟩
  rw [hmem]
  exact hheld' t ht

/-- A handler that returns leaves the hart of its task in the trap context. -/
theorem Handled.Left.returns {stop : VHart} {ecall : Bool} {taskId : ℕ} {rest : List Event}
    (hleft : Handled.Left g c x epc (assigned ecall)) (hstop : stop = ⟨x, epc⟩)
    (hrest : rest = if ecall then [.answered taskId (g.mem (slot c 10))] else []) :
    HoldsHart g.mem c (harts (Function.update vs taskId stop) rest taskId) := by
  subst hstop hrest
  cases ecall with
  | false =>
    show HoldsHart g.mem c ((Function.update vs taskId ⟨x, epc⟩ : ℕ → VHart) taskId)
    rw [Function.update_self]
    exact ⟨fun n hpos hlt => hleft.regs n hpos hlt List.not_mem_nil, hleft.sepc, hleft.spp⟩
  | true =>
    show HoldsHart g.mem c ((Function.update _ taskId _ : ℕ → VHart) taskId)
    rw [Function.update_self, Function.update_self]
    refine ⟨fun n hpos hlt => ?_, hleft.sepc, hleft.spp⟩
    show _ = Function.update x 10 _ n
    by_cases h10 : n = 10
    · rw [h10, Function.update_self]
    · rw [Function.update_of_ne h10]
      exact hleft.regs n hpos hlt (not_mem_assigned h10 (by omega) true)

/-- So does a handler that calls `run_next_task`. -/
theorem Handled.Left.leaves {stop : VHart} {a : Action V} {taskId : ℕ} {rest : List Event}
    (hleft : Handled.Left g c x epc (assignedLeaving a)) (hstop : stop = ⟨x, epc⟩)
    (hrest : rest = if 33 ∈ assignedLeaving a then [.unanswered taskId] else []) :
    HoldsHart g.mem c (harts (Function.update vs taskId stop) rest taskId) := by
  subst hstop hrest
  have hregs : ∀ n, 0 < n → n < 32 → g.mem (slot c n) = x n := fun n hpos hlt =>
    hleft.regs n hpos hlt (by
      cases a <;> simp [assignedLeaving]
      all_goals omega)
  have hsepc := hleft.sepc
  by_cases h33 : 33 ∈ assignedLeaving a
  · rw [if_pos h33] at hsepc ⊢
    show HoldsHart g.mem c ((Function.update _ taskId _ : ℕ → VHart) taskId)
    rw [Function.update_self, Function.update_self]
    exact ⟨hregs, hsepc, hleft.spp⟩
  · rw [if_neg h33] at hsepc ⊢
    show HoldsHart g.mem c ((Function.update vs taskId ⟨x, epc⟩ : ℕ → VHart) taskId)
    rw [Function.update_self]
    exact ⟨hregs, hsepc, hleft.spp⟩

/-- The harts after a slice and what comes of its trap. -/
theorem harts_slice (init : ℕ → VHart) (log rest : List Event) (taskId satp : ℕ) (start stop : VHart) :
    harts init (log ++ .slice taskId satp start stop :: rest) =
      harts (Function.update (harts init log) taskId stop) rest := by
  rw [harts_append]
  rfl

theorem harts_slice_of_ne {rest : List Event} {taskId id : ℕ} (hrest : ∀ e ∈ rest, e.taskId = taskId)
    (hne : id ≠ taskId) (stop : VHart) :
    harts (Function.update vs taskId stop) rest id = vs id := by
  rw [harts_of_ne fun e he heq => hne (heq.symm.trans (hrest e he)), Function.update_of_ne hne]

/-- **Every run keeps the invariant.** -/
theorem HartRun.inv (hboot : Booted created boot) (hplaced : Placed restoreUCtx boot.allTasks)
    (hheld : ∀ t ∈ boot.allTasks, HoldsHart mem₀ t.context.tp (init t.taskId))
    (hrun : HartRun boot retAddr restoreUCtx ua mem₀ s log) :
    HartInv restoreUCtx boot init s log := by
  induction hrun with
  | start h hg hmem hcall =>
    obtain ⟨hin, hdesc⟩ := continues_descends (hboot.continues _) h
    have hheld' := fun t ht => (hheld t ht).congr (hmem t ht)
    obtain ⟨huser, hsatp, hafter⟩ := afterSwitch_user hcall hplaced ⟨_, hin, rfl, rfl⟩ hheld' _
    refine ⟨hplaced.descends hdesc, hdesc, huser, hsatp, fun t ht _ => ?_⟩
    obtain ⟨t₀, ht₀, hid₀, hctx₀⟩ := hdesc t ht
    rw [← hid₀, ← hctx₀]
    exact hafter t₀ ht₀
  | returns hr hbody hstay ih =>
    rename_i s log x mem epc g st' ecall
    have hlisted := hr.listed hboot
    obtain ⟨marks, hmarks⟩ := hr.run
    have hdesc := stays_descends hboot hmarks hstay
    obtain ⟨⟨tcb, htcb, -, hctx⟩, -⟩ := hlisted
    have hleft := hbody.left ih.user.mode ih.user.sscratch
      (hctx ▸ ih.placed.ne_zero tcb htcb) (hctx ▸ ih.placed.fits tcb htcb)
      (not_mem_assigned (by decide) (by decide) ecall)
    have hrest := congrArg (fun c => if ecall then
      [Event.answered s.next.taskId (g.mem (slot c 10))] else []) ih.user.sscratch
    have hv := @Handled.Left.returns _ _ _ _ (harts init log) _ _ s.next.taskId _ hleft rfl hrest
    obtain ⟨huser, hmem⟩ := leaveU_user hleft.tp hv
    have hall := ih.held (hr.listed hboot) hbody hv fun id hne =>
      harts_slice_of_ne (by cases ecall <;> simp [Event.taskId]) hne _
    refine ⟨ih.placed.descends hdesc, ih.descends.trans hdesc, ?_, ih.satp, fun t ht _ => ?_⟩
    · rw [harts_slice]
      exact huser
    · obtain ⟨t₀, ht₀, hid₀, hctx₀⟩ := hdesc t ht
      rw [harts_slice, ← hid₀, ← hctx₀]
      show HoldsHart (leaveU g).mem _ _
      rw [hmem]
      exact hall t₀ ht₀
  | switches hr hbody hstay ha happly hnext hret hcall ih =>
    rename_i s log x mem epc g st₁ st₂ st' a new clock curr dropped next'
    have hlisted := hr.listed hboot
    obtain ⟨marks, hmarks⟩ := hr.run
    obtain ⟨tcb', hong, hstate, -, -⟩ := (stays_run hmarks hstay).ongoing hboot
    obtain ⟨st₃, happly', hong', hmem', hc⟩ := Action.continues hong hstate ha clock
    obtain rfl := Except.ok.inj (happly.symm.trans happly')
    have hdesc : Descends s.kernel.allTasks st₂.allTasks :=
      (stays_descends hboot hmarks hstay).trans (.of_mem hmem' hong.mem
        (a.effect_taskId clock.runEnd tcb').symm (a.effect_context clock.runEnd tcb').symm)
    obtain ⟨hin, hdesc'⟩ := continues_descends hc hnext
    obtain ⟨⟨tcb, htcb, -, hctx⟩, -⟩ := hlisted
    have hleft := hbody.left ih.user.mode ih.user.sscratch
      (hctx ▸ ih.placed.ne_zero tcb htcb) (hctx ▸ ih.placed.fits tcb htcb)
      (by cases a <;> simp [assignedLeaving])
    have hv := @Handled.Left.leaves V g x epc _ (harts init log) _ a s.next.taskId _ hleft rfl rfl
    have hall := ih.held (hr.listed hboot) hbody hv fun id hne =>
      harts_slice_of_ne (by split <;> simp [Event.taskId]) hne _
    obtain ⟨huser, hsatp, hafter⟩ := afterSwitch_user hcall ih.placed (hdesc next' hin) hall s.satp
    have hdesc'' := hdesc.trans hdesc'
    refine ⟨ih.placed.descends hdesc'', ih.descends.trans hdesc'', ?_, hsatp, fun t ht _ => ?_⟩
    · rw [harts_slice]
      exact huser
    · obtain ⟨t₀, ht₀, hid₀, hctx₀⟩ := hdesc'' t ht
      rw [harts_slice, ← hid₀, ← hctx₀]
      exact hafter t₀ ht₀

/-! ### The slices -/

/-- The slice that a step adds is the only one it adds. -/
theorem log_slice {log rest before later : List Event} {e : Event} {taskId satp : ℕ}
    {start stop : VHart} (hrest : .slice taskId satp start stop ∉ rest)
    (h : log ++ e :: rest = before ++ .slice taskId satp start stop :: later) :
    (before = log ∧ .slice taskId satp start stop = e) ∨
      ∃ later', log = before ++ .slice taskId satp start stop :: later' := by
  rcases List.append_eq_append_iff.mp h with ⟨as, hbefore, has⟩ | ⟨bs, hlog, hbs⟩
  · cases as with
    | nil =>
      rw [List.append_nil] at hbefore
      exact Or.inl ⟨hbefore, (List.cons.inj has).1.symm⟩
    | cons a as =>
      refine absurd ?_ hrest
      rw [(List.cons.inj has).2]
      simp
  · cases bs with
    | nil =>
      rw [List.append_nil] at hlog
      exact Or.inl ⟨hlog.symm, (List.cons.inj hbs).1⟩
    | cons b bs =>
      refine Or.inr ⟨bs, ?_⟩
      rw [hlog, (List.cons.inj hbs).1]

/-- What the invariant says about the next slice. -/
theorem HartInv.slice (hinv : HartInv restoreUCtx boot init s log) (hlisted : s.Listed) :
    VHart.Same ⟨s.hart.x, s.hart.sepc⟩ (harts init log s.next.taskId) ∧
      ∃ t ∈ boot.allTasks, t.taskId = s.next.taskId ∧ t.context.satp = s.satp := by
  obtain ⟨⟨tcb, htcb, hid, hctx⟩, -⟩ := hlisted
  obtain ⟨t₀, ht₀, hid₀, hctx₀⟩ := hinv.descends tcb htcb
  refine ⟨hinv.user.same, t₀, ht₀, hid₀.trans hid, ?_⟩
  rw [hctx₀, hctx, hinv.satp]

/-- **A program goes on where it was.**  In every run, a slice of a task starts with the registers
and at the address of the hart that the task would have for itself, and with the `satp` of the task. -/
theorem HartRun.slices (hboot : Booted created boot) (hplaced : Placed restoreUCtx boot.allTasks)
    (hheld : ∀ t ∈ boot.allTasks, HoldsHart mem₀ t.context.tp (init t.taskId))
    (hrun : HartRun boot retAddr restoreUCtx ua mem₀ s log) {before later : List Event}
    {taskId satp : ℕ} {start stop : VHart}
    (hlog : log = before ++ .slice taskId satp start stop :: later) :
    start.Same (harts init before taskId) ∧
      ∃ t ∈ boot.allTasks, t.taskId = taskId ∧ t.context.satp = satp := by
  induction hrun generalizing later with
  | start => simp at hlog
  | returns hr hbody hstay ih =>
    rename_i s log x mem epc g st' ecall
    rcases log_slice (by cases ecall <;> simp) hlog with ⟨rfl, he⟩ | ⟨later', hin⟩
    · cases he
      exact (hr.inv hboot hplaced hheld).slice (hr.listed hboot)
    · exact ih hin
  | switches hr hbody hstay ha happly hnext hret hcall ih =>
    rcases log_slice (by split <;> simp) hlog with ⟨rfl, he⟩ | ⟨later', hin⟩
    · cases he
      exact (hr.inv hboot hplaced hheld).slice (hr.listed hboot)
    · exact ih hin

/-! ### From boot -/

/-- The words of `TrapContext::new_initial`. -/
def newInitial (sstatus entryAddr userSp taskId : ℕ) : ℕ → ℕ
  | 2 => userSp
  | 32 => setBit sstatus sppBit false
  | 33 => entryAddr
  | 34 => taskId
  | _ => 0

/-- `write_volatile` of a trap context at `kernel_sp`. -/
def writeContext (c : ℕ) (words mem : ℕ → ℕ) : ℕ → ℕ := storeAt words c (List.range 35) 0 mem

/-- The trap contexts that `add_task` writes, when it reads `sstatus`. -/
def writeContexts (sstatus : ℕ → ℕ) (tasks : List (TaskControlBlock VMSpace)) (mem : ℕ → ℕ) : ℕ → ℕ :=
  tasks.foldl (fun mem t => writeContext t.context.tp
    (newInitial (sstatus t.taskId) t.vmSpace.entryAddr t.vmSpace.uStackEnd t.taskId) mem) mem

/-- A program at its entry: its stack pointer, and zero in the other registers. -/
def newHart (vmSpace : VMSpace) : VHart :=
  ⟨Function.update (fun _ => 0) sp vmSpace.uStackEnd, vmSpace.entryAddr⟩

theorem writeContext_slot {words : ℕ → ℕ} (hc : Fits c) {n : ℕ} (hn : n < 35) :
    writeContext c words mem (slot c n) = words n := by
  have hlt : n < (List.range 35).length := by simpa using hn
  have hget := @storeAt_get words c 35 hc (List.range 35) 0 mem (by simp) n hlt
  rw [Nat.zero_add, List.getElem_range] at hget
  exact hget

theorem writeContext_of_ne {words : ℕ → ℕ} {a : ℕ} (ha : ∀ n < 35, a ≠ slot c n) :
    writeContext c words mem a = mem a :=
  storeAt_of_ne _ 0 mem fun i _ hi => ha i (by simpa using hi)

theorem writeContext_holds (sstatus taskId : ℕ) (mem : ℕ → ℕ) (vmSpace : VMSpace) (hc : Fits c) :
    HoldsHart (writeContext c
      (newInitial sstatus vmSpace.entryAddr vmSpace.uStackEnd taskId) mem) c (newHart vmSpace) := by
  constructor
  · intro n hpos hlt
    rw [writeContext_slot hc (by omega)]
    show newInitial _ _ _ _ n = Function.update (fun _ => 0) 2 _ n
    by_cases h2 : n = 2
    · rw [h2, Function.update_self]
      rfl
    · rw [Function.update_of_ne h2]
      unfold newInitial
      split
      · exact absurd rfl h2
      · omega
      · omega
      · omega
      · rfl
  · exact writeContext_slot hc (by norm_num)
  · rw [writeContext_slot hc (by norm_num)]
    show (setBit _ sppBit false).testBit sppBit = false
    rw [testBit_setBit, if_pos rfl]

/-- Writing the contexts of other tasks. -/
theorem writeContexts_kept {sstatus : ℕ → ℕ} {tasks : List (TaskControlBlock VMSpace)} {a : ℕ}
    (ha : ∀ t ∈ tasks, ∀ n < 35, a ≠ slot t.context.tp n) (mem : ℕ → ℕ) :
    writeContexts sstatus tasks mem a = mem a := by
  induction tasks generalizing mem with
  | nil => rfl
  | cons t tasks ih =>
    obtain ⟨ht, hrest⟩ := List.forall_mem_cons.mp ha
    refine (ih hrest _).trans ?_
    exact writeContext_of_ne ht

theorem writeContexts_holds {sstatus : ℕ → ℕ} {tasks : List (TaskControlBlock VMSpace)}
    (hplaced : Placed restoreUCtx tasks) (hids : (tasks.map fun t => t.taskId).Nodup) (mem : ℕ → ℕ) :
    ∀ t ∈ tasks, HoldsHart (writeContexts sstatus tasks mem) t.context.tp (newHart t.vmSpace) := by
  induction tasks generalizing mem with
  | nil => exact fun t ht => absurd ht List.not_mem_nil
  | cons t tasks ih =>
    rw [List.map_cons, List.nodup_cons] at hids
    have hrest : Placed restoreUCtx tasks :=
      hplaced.descends fun t' ht' => ⟨t', List.mem_cons_of_mem _ ht', rfl, rfl⟩
    intro t' ht'
    rcases List.mem_cons.mp ht' with rfl | ht'
    · refine (writeContext_holds (sstatus t'.taskId) t'.taskId mem t'.vmSpace
        (hplaced.fits t' ht')).congr fun n hn => ?_
      refine @writeContexts_kept sstatus tasks _ (fun u hu m hm => ?_) (writeContext _ _ mem)
      have hne : t'.taskId ≠ u.taskId := fun he =>
        hids.1 (he ▸ List.mem_map_of_mem (f := fun t => t.taskId) hu)
      exact slot_apart (hplaced.fits t' ht') (hrest.fits u hu)
        (hplaced.apart t' ht' u (List.mem_cons_of_mem _ hu) hne) hn hm
    · exact ih hrest hids.2 _ t' ht'

/-- A page is one task's only. -/
theorem eq_of_mem_pages {tasks : List (TaskControlBlock VMSpace)}
    (hnodup : (tasks.flatMap fun t => t.vmSpace.pages).Nodup) {t u : TaskControlBlock VMSpace}
    (ht : t ∈ tasks) (hu : u ∈ tasks) {p : ℕ} (hpt : p ∈ t.vmSpace.pages)
    (hpu : p ∈ u.vmSpace.pages) : t = u := by
  have hown : tasks.Pairwise fun t u => p ∈ t.vmSpace.pages → p ∈ u.vmSpace.pages → t = u :=
    (List.nodup_flatMap.mp hnodup).2.imp fun hdisj ht hu => (hdisj ht hu).elim
  exact hown.forall_of_forall_of_flip (fun _ _ _ _ => rfl)
    (hown.imp fun htu hu ht => (htu ht hu).symm) ht hu hpt hpu

variable {first kernelRoot : ℕ} {kernelPages : List ℕ} {b : Boot}

/-- The kernel stacks are in pages of the tasks. -/
theorem addTasks_stacks {k : Phys} (hacc : k.Accounted first kernelPages) (slots : ℕ → ℕ)
    {apps : List Elf} (hn : apps.length < 2 ^ 64)
    (hadd : addTasks kernelRoot restoreUCtx apps ⟨k, 1, ⟨[], 0, slots⟩⟩ = some b) :
    (b.kernel.allTasks.flatMap fun t => t.vmSpace.pages).Nodup ∧
      ∀ t ∈ b.kernel.allTasks, ∃ page ∈ t.vmSpace.pages,
        t.context.tp = page * 4096 + 18446743798831648488 ∧ page < 2 ^ 21 := by
  have hnone : Added first kernelPages 0 ⟨k, 1, ⟨[], 0, slots⟩⟩ :=
    ⟨hacc, rfl, rfl, fun t ht => (List.not_mem_nil ht).elim,
      fun t ht => (List.not_mem_nil ht).elim, rfl⟩
  have hall := hnone.addTasks (by omega) hadd
  refine ⟨(List.nodup_append.mp hall.accounted.ledger.held_nodup).1, fun t ht => ?_⟩
  obtain ⟨page, hin, htp, -⟩ := hall.kernelStacks t ht
  have hlt := hall.accounted.lt_memEnd (List.mem_append_left _ (List.mem_flatMap.mpr ⟨t, ht, hin⟩))
  rw [memEndPpn_eq] at hlt
  refine ⟨page, hin, ?_, by omega⟩
  rw [htp]
  unfold kernelVaOffset sizeOfTrapContext
  omega

/-- So the trap contexts do not overlap. -/
theorem addTasks_placed {k : Phys} (hacc : k.Accounted first kernelPages) (slots : ℕ → ℕ)
    {apps : List Elf} (hn : apps.length < 2 ^ 64)
    (hadd : addTasks kernelRoot restoreUCtx apps ⟨k, 1, ⟨[], 0, slots⟩⟩ = some b) :
    Placed restoreUCtx b.kernel.allTasks := by
  obtain ⟨hpages, hpage⟩ := addTasks_stacks hacc slots hn hadd
  have hra : ∀ t ∈ b.kernel.allTasks, t.context.ra = restoreUCtx :=
    addTasks_new (fun _ _ _ _ => rfl) (fun t ht => (List.not_mem_nil ht).elim) hadd
  refine ⟨hra, fun t ht => ?_, fun t ht => ?_, fun t ht t' ht' hne => ?_⟩
  · obtain ⟨page, -, htp, hlt⟩ := hpage t ht
    unfold Fits contextSize
    omega
  · obtain ⟨page, -, htp, hlt⟩ := hpage t ht
    omega
  · obtain ⟨page, hin, htp, -⟩ := hpage t ht
    obtain ⟨page', hin', htp', -⟩ := hpage t' ht'
    have hdisj : page ≠ page' := by
      rintro rfl
      exact hne (congrArg (fun t => t.taskId) (eq_of_mem_pages hpages ht ht' hin hin'))
    unfold ContextsApart contextSize
    omega

/-- The harts of the tasks before any of them has run. -/
def newHarts (tasks : List (TaskControlBlock VMSpace)) (taskId : ℕ) : VHart :=
  match tasks.find? fun t => t.taskId = taskId with
  | some t => newHart t.vmSpace
  | none => ⟨fun _ => 0, 0⟩

theorem newHarts_eq {tasks : List (TaskControlBlock VMSpace)} {t : TaskControlBlock VMSpace}
    (hids : (tasks.map fun t => t.taskId).Nodup) (ht : t ∈ tasks) :
    newHarts tasks t.taskId = newHart t.vmSpace := by
  rw [newHarts]
  cases hf : tasks.find? fun u => u.taskId = t.taskId with
  | none => exact absurd (List.find?_eq_none.mp hf t ht) (by simp)
  | some u =>
    have hid : u.taskId = t.taskId := by simpa using List.find?_some hf
    obtain rfl := List.inj_on_of_nodup_map hids (List.mem_of_find?_eq_some hf) ht hid
    rfl

theorem writeContexts_newHarts {sstatus : ℕ → ℕ} {tasks : List (TaskControlBlock VMSpace)}
    (hplaced : Placed restoreUCtx tasks) (hids : (tasks.map fun t => t.taskId).Nodup) (mem : ℕ → ℕ) :
    ∀ t ∈ tasks,
      HoldsHart (writeContexts sstatus tasks mem) t.context.tp (newHarts tasks t.taskId) := by
  intro t ht
  rw [newHarts_eq hids ht]
  exact writeContexts_holds hplaced hids mem t ht

/-- **Every task has a hart of its own.**  In every run from boot that takes no interrupt during a
first entry and whose calls of `__switch` have the two control blocks apart, whatever the values of
the clock and whichever traps the programs take: a program starts at its entry with zero in its
registers but the stack pointer; each time it goes on it finds `x1` to `x31` and the program counter as
its last trap left them, past the `ecall` and with its result in `x10` if that was a system call, and
its own `satp`.  The hart is in user mode then, with the trap context of that task in `sscratch`. -/
theorem harts_apart (layout : Layout) (m₀ : Mem) {a₀ : PageAllocator} {k : Phys} {t : RootPgt}
    (halloc : initialAllocator layout.kernelEnd.toNat = some a₀)
    (hinit : initKernelSatp layout ⟨m₀, a₀⟩ = (.ok t, k)) (slots : ℕ → ℕ) (apps : List Elf)
    (hn : apps.length < 2 ^ 64)
    (hadd : addTasks t.ppn restoreUCtx apps ⟨k, 1, ⟨[], 0, slots⟩⟩ = some b) (sstatus mem : ℕ → ℕ)
    {s : Core.State VMSpace}
    (hrun : HartRun b.kernel retAddr restoreUCtx ua (writeContexts sstatus b.kernel.allTasks mem) s
      log) :
    InUser s.hart s.next.context.tp (harts (newHarts b.kernel.allTasks) log s.next.taskId) ∧
      s.satp = s.next.context.satp ∧
      ∀ before taskId satp start stop later, log = before ++ .slice taskId satp start stop :: later →
        start.Same (harts (newHarts b.kernel.allTasks) before taskId) ∧
          ∃ t ∈ b.kernel.allTasks, t.taskId = taskId ∧ t.context.satp = satp := by
  obtain ⟨img, -, -, -, hacc⟩ :=
    initKernelSatp_image layout (accounted_initial layout m₀ halloc) hinit
  have hboot := addTasks_booted hacc slots hn hadd
  have hplaced := addTasks_placed hacc slots hn hadd
  have hheld := @writeContexts_newHarts _ sstatus _ hplaced hboot.listed.ids mem
  have hinv := hrun.inv hboot hplaced hheld
  exact ⟨hinv.user, hinv.satp, fun _ _ _ _ _ _ hlog => hrun.slices hboot hplaced hheld hlog⟩

/-- A trap of which nothing comes, such as a page fault that is answered. -/
theorem HartRun.quiet (hrun : HartRun boot retAddr restoreUCtx ua mem₀ s log) (x : ℕ → ℕ) (epc : ℕ) :
    ∃ s', s'.next = s.next ∧ s'.satp = s.satp ∧ HartRun boot retAddr restoreUCtx ua mem₀ s'
      (log ++ [.slice s.next.taskId s.satp ⟨s.hart.x, s.hart.sepc⟩ ⟨x, epc⟩]) := by
  have hbody : Handled ua s.kernel.allTasks s.hart x s.hart.mem epc (assigned false)
      (enterU { s.hart with x := x, mem := s.hart.mem } epc) :=
    ⟨fun _ _ _ _ => rfl, .start _ _ _, fun _ _ _ _ _ => rfl, fun h => absurd h List.not_mem_nil⟩
  have hmore := HartRun.returns hrun hbody .refl
  rw [if_neg Bool.false_ne_true] at hmore
  refine ⟨_, ?_, ?_, hmore⟩
  · rfl
  · rfl

/-- There is no current context at the first call of `run_next_task`. -/
theorem boot_curr (hboot : Booted created boot) {clock : Clock}
    {curr dropped : Option (TaskControlBlock V)}
    (h : boot.runNextTask clock.takeCurr clock.takeNext clock.runStart =
      .ok (.switch curr dropped next st)) : curr = none := by
  have hretire : boot.retire clock.takeCurr = .ok (none, none, boot.allTasks) := by
    rw [Kernel.retire, Kernel.tryGetCurrentTaskId, if_pos hboot.tp]
  rw [Kernel.runNextTask, hretire] at h
  dsimp only at h
  split at h
  · cases h
  · split at h
    · cases h
    · cases h
      rfl

/-- The words of a context that has not been stored to. -/
def contextWords (context : TaskContext) : ℕ → ℕ
  | 12 => context.ra
  | 13 => context.sp
  | 14 => context.tp
  | 15 => context.satp
  | _ => 0

/-- The first call of `__switch`, with the next context at `0x1000`. -/
theorem first_switch (hboot : Booted created boot) (hplaced : Placed restoreUCtx boot.allTasks)
    (hs : ∀ t ∈ boot.allTasks, t.context.s = List.replicate 12 0)
    (hhigh : ∀ t ∈ boot.allTasks, 0x2000 ≤ t.context.tp) (hne : created ≠ []) (ua : UAccess)
    (clock : Clock) :
    ∃ s, s.next ∈ boot.allTasks ∧ HartRun boot retAddr restoreUCtx ua mem₀ s [] := by
  rcases hboot.continues clock with ⟨_, -, hall⟩ | ⟨curr, dropped, next, st, hin, hsw, -, -⟩
  · obtain ⟨id, hid⟩ := List.exists_mem_of_ne_nil created hne
    exact absurd (hall id hid) List.not_mem_nil
  obtain rfl := boot_curr hboot hsw
  have hfits : FitsTask 0x1000 := by
    unfold FitsTask
    decide
  let g : Hart := ⟨.supervisor, Function.update (fun _ => 0) a1 0x1000,
    storeAt (contextWords next.context) 0x1000 (List.range 16) 0 mem₀, 0, 0, 0, .kernel⟩
  have hword : ∀ n < 16, g.mem (slot 0x1000 n) = contextWords next.context n := fun n hn => by
    have hget := @storeAt_get (contextWords next.context) 0x1000 16 hfits (List.range 16) 0 mem₀
      (by simp) n (by simpa using hn)
    rw [Nat.zero_add, List.getElem_range] at hget
    exact hget
  have hctx : contextAt g.mem 0x1000 = next.context := by
    have hlist : (List.range 12).map (fun n => g.mem (slot 0x1000 n)) = List.replicate 12 0 := by
      refine List.eq_replicate_iff.mpr ⟨by simp, fun v hv => ?_⟩
      obtain ⟨n, hn, rfl⟩ := List.mem_map.mp hv
      have hlt := List.mem_range.mp hn
      rw [hword n (by omega)]
      interval_cases n <;> rfl
    rw [contextAt, hlist, ← hs next hin, hword 12 (by decide), hword 13 (by decide),
      hword 14 (by decide), hword 15 (by decide)]
    rfl
  have hcall : CallsSwitch boot.allTasks ⟨none, next⟩ g :=
    ⟨⟨hfits, fun h => absurd rfl h⟩, rfl, hctx.symm, fun h => absurd rfl h⟩
  refine ⟨_, hin, @HartRun.start _ _ _ _ _ _ clock _ _ _ _ g 0 hsw ⟨rfl, rfl, rfl⟩
    (fun t ht n hn => ?_) hcall⟩
  refine storeAt_of_ne _ 0 mem₀ fun i _ hi => ?_
  have hlt : i < 16 := by simpa using hi
  have hbound := hhigh t ht
  rw [slot_eq (hplaced.fits t ht) hn, slot_task hfits hlt]
  omega

/-- The task without segments is switched to. -/
theorem bare_switch : ∃ t k b s,
    initKernelSatp sampleLayout ⟨fun _ _ => 0, ⟨0x80500, 0x88000, []⟩⟩ = (.ok t, k) ∧
      addTasks t.ppn 0x100 [bareElf] ⟨k, 1, ⟨[], 0, fun _ => 0⟩⟩ = some b ∧
      s.next ∈ b.kernel.allTasks ∧ HartRun b.kernel 0x200 0x100 ⟨0, 4, 8⟩
        (writeContexts (fun _ => 0) b.kernel.allTasks fun _ => 0) s [] := by
  obtain ⟨t, k, b, hinit, hb⟩ := bare_start 0x100
  obtain ⟨img, -, -, -, hacc⟩ :=
    initKernelSatp_image sampleLayout (accounted_initial _ _ sampleLayout_allocator) hinit
  have hlen : [bareElf].length < 2 ^ 64 := by decide
  have hboot := addTasks_booted hacc (fun _ => 0) hlen hb
  have hplaced := addTasks_placed hacc (fun _ => 0) hlen hb
  have hs : ∀ t ∈ b.kernel.allTasks, t.context.s = List.replicate 12 0 :=
    addTasks_new (fun _ _ _ _ => rfl) (fun t ht => (List.not_mem_nil ht).elim) hb
  have hhigh : ∀ t ∈ b.kernel.allTasks, 0x2000 ≤ t.context.tp := fun t ht => by
    obtain ⟨page, -, htp, -⟩ := (addTasks_stacks hacc (fun _ => 0) hlen hb).2 t ht
    omega
  obtain ⟨s, hnext, hrun⟩ := @first_switch _ _ _ 0x200 0x100
    (writeContexts (fun _ => 0) b.kernel.allTasks fun _ => 0) hboot hplaced hs hhigh
    (List.cons_ne_nil _ _) ⟨0, 4, 8⟩ ⟨0, 0, 0, 0⟩
  exact ⟨t, k, b, s, hinit, hb, hnext, hrun⟩

/-- It traps twice. -/
theorem harts_apart_bare : ∃ t k b s taskId satp start start',
    initKernelSatp sampleLayout ⟨fun _ _ => 0, ⟨0x80500, 0x88000, []⟩⟩ = (.ok t, k) ∧
      addTasks t.ppn 0x100 [bareElf] ⟨k, 1, ⟨[], 0, fun _ => 0⟩⟩ = some b ∧
      HartRun b.kernel 0x200 0x100 ⟨0, 4, 8⟩ (writeContexts (fun _ => 0) b.kernel.allTasks fun _ => 0) s
        [.slice taskId satp start ⟨fun n => n, 64⟩, .slice taskId satp start' ⟨fun _ => 9, 68⟩] ∧
      start.Same (newHarts b.kernel.allTasks taskId) ∧ start'.Same ⟨fun n => n, 64⟩ := by
  obtain ⟨t, k, b, s₀, hinit, hb, -, h₀⟩ := bare_switch
  obtain ⟨s₁, hnext₁, hsatp₁, h₁⟩ := h₀.quiet (fun n => n) 64
  obtain ⟨s₂, -, -, h₂⟩ := h₁.quiet (fun _ => 9) 68
  rw [hnext₁, hsatp₁] at h₂
  have hall := (harts_apart sampleLayout _ sampleLayout_allocator hinit _ [bareElf] (by decide) hb
    _ _ h₂).2.2
  refine ⟨t, k, b, s₂, _, _, _, _, hinit, hb, h₂, (hall [] _ _ _ _ _ rfl).1, ?_⟩
  have hsame := (hall [_] _ _ _ _ [] rfl).1
  simp only [harts, List.foldl_cons, List.foldl_nil, Event.apply, Function.update_self] at hsame
  exact hsame

end RCoreKernel.Trap.Asm
