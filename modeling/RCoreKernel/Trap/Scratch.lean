import RCoreKernel.Trap.Asm
import Mathlib.Data.List.Chain
import Mathlib.Tactic.IntervalCases

/-!
# `sscratch` tells user traps from kernel traps

`__stvec` takes a trap for one from user code when `sscratch` is not zero.  This module follows
`sscratch` and `sstatus` through every instruction of `trap.S`, the handlers and the switches
between tasks, from `trap::init` on, which enables interrupts.

A task enters user mode for the first time with the `sstatus` that `TrapContext::new_initial` found,
so interrupts can be enabled between the first instruction of `__restore_u_ctx` and its `sret`,
where `sscratch` is the address of the task's context already.

* `Step` — one instruction of `trap.S`, a trap, or a move of the code around it;
* `FirstEntry` — the hart is in that window of a task that has not run yet;
* `Inv` — the invariant, position by position;
* `run_boundary` — **where an interrupt can be taken, `sscratch` is zero exactly in supervisor mode,
  everywhere but in these windows**, in the runs that take no interrupt there;
* `first_entry_unmasked` — the first task is entered with interrupts enabled.
-/

namespace RCoreKernel.Trap.Asm

open Mm

/-- A hart, the addresses of the trap contexts of the tasks, the addresses of the contexts of the
kernel traps under way, innermost first, and the contexts whose `sstatus` is still the one that
`new_initial` put there. -/
structure World where
  h : Hart
  contexts : List ℕ
  frames : List ℕ
  initial : List ℕ

/-- Two contexts share no byte. -/
def ContextsApart (b c : ℕ) : Prop := b + contextSize ≤ c ∨ c + contextSize ≤ b

/-- A place for a new context: it overlaps none of those in use. -/
structure Fresh (w : World) (b : ℕ) : Prop where
  fits : b + contextSize ≤ 2 ^ 64
  apart : ∀ c ∈ w.contexts ++ w.frames, ContextsApart b c

/-- The `sstatus` field of a context. -/
def Hart.statusAt (h : Hart) (b : ℕ) : ℕ := h.mem (slot b 32)

/-- A change of memory by code outside `trap.S`, which writes the `sstatus` field of no context. -/
def KeepsStatus (w : World) (contexts : List ℕ) (mem : ℕ → ℕ) : Prop :=
  ∀ b ∈ contexts ++ w.frames, mem (slot b 32) = w.h.statusAt b

/-- The instruction stores to the `sstatus` field of the context at `tp`. -/
def Instr.storesStatus : Instr → Bool
  | .sd _ n => n == 32
  | _ => false

/-- The state after an instruction; with the call of `k_trap_handler` a kernel trap is under way. -/
def World.next (w : World) (ins : Instr) (rest : List Instr) : World :=
  ⟨ins.exec rest w.h, w.contexts,
    if ins = .call .kTrapHandler then w.h.x sp :: w.frames else w.frames,
    if ins.storesStatus then w.initial.filter (· ≠ w.h.x tp) else w.initial⟩

/-- One step. -/
inductive Step : World → World → Prop
  /-- An instruction of `trap.S`. -/
  | instr {w : World} {ins : Instr} {rest : List Instr} (hpc : w.h.pc = .asm (ins :: rest)) :
      Step w (w.next ins rest)
  /-- The user program runs. -/
  | user {w : World} (hpc : w.h.pc = .user) (x mem : ℕ → ℕ)
      (hmem : KeepsStatus w w.contexts mem) :
      Step w { w with h := { w.h with x := x, mem := mem } }
  /-- A trap from user mode. -/
  | trapUser {w : World} (hmode : w.h.mode = .user) (epc : ℕ) :
      Step w { w with h := w.h.trap epc }
  /-- An exception in the compiled kernel, or an interrupt in supervisor mode. -/
  | trapKernel {w : World} (hmode : w.h.mode = .supervisor)
      (htaken : w.h.pc = .kernel ∨ w.h.sie = true) (epc : ℕ)
      (hfree : Fresh w (addImm (w.h.x sp) (-280))) :
      Step w { w with h := w.h.trap epc }
  /-- The compiled kernel runs: it may drop tasks, and of `sstatus` it writes `SUM`. -/
  | kernel {w : World} (hpc : w.h.pc = .kernel) (x mem : ℕ → ℕ) (sstatus : ℕ) (contexts : List ℕ)
      (hstatus : ∀ bit ∈ [sieBit, spieBit, sppBit],
        sstatus.testBit bit = w.h.sstatus.testBit bit)
      (hsub : contexts ⊆ w.contexts) (hmem : KeepsStatus w contexts mem) :
      Step w ⟨{ w.h with x := x, mem := mem, sstatus := sstatus }, contexts, w.frames, w.initial⟩
  /-- `TrapContext::new_initial`, with `sstatus::set_spp_user`. -/
  | newInitial {w : World} (hpc : w.h.pc = .kernel) (c : ℕ) (hc : c ≠ 0) (hfree : Fresh w c)
      (mem : ℕ → ℕ) (hmem : KeepsStatus w w.contexts mem)
      (hnew : mem (slot c 32) = setBit w.h.sstatus sppBit false) :
      Step w ⟨{ w.h with mem := mem, sstatus := setBit w.h.sstatus sppBit false },
        c :: w.contexts, w.frames, c :: w.initial⟩
  /-- `u_trap_handler` returns, or `__switch` goes to a task: on at `__restore_u_ctx`, with the
  address of the task's context in `tp`. -/
  | enterUser {w : World} (hpc : w.h.pc = .kernel) (hframes : w.frames = []) (x : ℕ → ℕ)
      (htp : x tp ∈ w.contexts) :
      Step w { w with h := { w.h with x := x, pc := .asm restoreUCtx } }
  /-- `k_trap_handler` returns, with the same `sp`. -/
  | leaveKernel {w : World} (hpc : w.h.pc = .kernel) (b : ℕ) (frames : List ℕ)
      (hframes : w.frames = b :: frames) (x : ℕ → ℕ) (hsp : x sp = b) :
      Step w ⟨{ w.h with x := x, pc := .asm restoreKCtx }, w.contexts, frames, w.initial⟩

/-- The states visited before the current one, and the current one. -/
inductive Run (start : World) : List World → World → Prop
  | start : Run start [] start
  | step {visited : List World} {w w' : World} (hrun : Run start visited w) (hstep : Step w w') :
      Run start (visited ++ [w]) w'

/-- The state that `trap::init` leaves: interrupts are enabled, and there is no task yet. -/
structure AfterInit (w : World) : Prop where
  mode : w.h.mode = .supervisor
  pc : w.h.pc = .kernel
  sscratch : w.h.sscratch = 0
  sie : w.h.sie = true
  contexts : w.contexts = []
  frames : w.frames = []
  initial : w.initial = []

/-- An interrupt can be taken. -/
def Hart.Interruptible (h : Hart) : Prop := h.mode = .user ∨ h.sie = true

/-- `sscratch` tells the mode wherever an interrupt can be taken. -/
def Boundary (h : Hart) : Prop := h.Interruptible → (h.sscratch = 0 ↔ h.mode = .supervisor)

/-- Between the first instruction of `__restore_u_ctx` and its `sret`, on the first entry of a task,
with interrupts enabled. -/
structure FirstEntry (w : World) : Prop where
  pc : ∃ j, 0 < j ∧ j < restoreUCtx.length ∧ w.h.pc = .asm (restoreUCtx.drop j)
  initial : w.h.sscratch ∈ w.initial
  sie : w.h.sie = true

/-- The step does not take an interrupt during a first entry. -/
def Spared (w w' : World) : Prop := FirstEntry w → w'.h.pc ≠ .asm stvec

/-! ### The saved `sstatus` -/

/-- A store into one context leaves the `sstatus` field of another one. -/
theorem update_status {mem : ℕ → ℕ} {b c n v : ℕ} (hb : b + contextSize ≤ 2 ^ 64)
    (hc : c + contextSize ≤ 2 ^ 64) (hn : n < 35) (hapart : ContextsApart b c ∨ n ≠ 32)
    (hbc : ContextsApart b c ∨ b = c) :
    Function.update mem (slot b n) v (slot c 32) = mem (slot c 32) := by
  apply Function.update_of_ne
  rw [slot_eq hb hn, slot_eq hc (by norm_num)]
  unfold ContextsApart contextSize at *
  omega

/-- No task has been in user mode and back. -/
def OnlyInitial (w : World) : Prop := w.contexts ⊆ w.initial

/-- The `sstatus` of a trap from the kernel.  Interrupts were only enabled before the first task
came back from user mode. -/
structure KernelStatus (contexts initial : List ℕ) (v : ℕ) : Prop where
  spp : v.testBit sppBit = true
  sie : v.testBit sieBit = false
  spie : v.testBit spieBit = true → contexts ⊆ initial

/-- The `sstatus` in the context of a task. -/
structure UserStatus (initial : List ℕ) (c v : ℕ) : Prop where
  spp : v.testBit sppBit = false
  sie : v.testBit sieBit = true → c ∈ initial

/-- The contexts in use: in memory, apart, with what their traps found in `sstatus`. -/
structure Contexts (w : World) : Prop where
  fits : ∀ b ∈ w.contexts ++ w.frames, b + contextSize ≤ 2 ^ 64
  pos : ∀ c ∈ w.contexts ++ w.initial, c ≠ 0
  apart : ∀ b ∈ w.contexts, ∀ c ∈ w.contexts, ContextsApart b c ∨ b = c
  user : ∀ c ∈ w.contexts, UserStatus w.initial c (w.h.statusAt c)
  kernel : ∀ b ∈ w.frames, KernelStatus w.contexts w.initial (w.h.statusAt b)

theorem Contexts.congr {w : World} (hw : Contexts w) {h : Hart} (hmem : h.mem = w.h.mem) :
    Contexts { w with h := h } := by
  have hstatus : ∀ b, h.statusAt b = w.h.statusAt b := fun b => by simp only [Hart.statusAt, hmem]
  constructor
  · exact hw.fits
  · exact hw.pos
  · exact hw.apart
  · intro c hc
    obtain ⟨hspp, hsie⟩ := hw.user c hc
    rw [← hstatus] at hspp hsie
    exact ⟨hspp, hsie⟩
  · intro b hb
    obtain ⟨hspp, hsie, hspie⟩ := hw.kernel b hb
    rw [← hstatus] at hspp hsie hspie
    exact ⟨hspp, hsie, hspie⟩

/-- Code outside `trap.S` keeps the contexts. -/
theorem Contexts.keep {w : World} (hw : Contexts w) {contexts : List ℕ}
    (hsub : contexts ⊆ w.contexts) {h : Hart} (hmem : KeepsStatus w contexts h.mem) :
    Contexts ⟨h, contexts, w.frames, w.initial⟩ := by
  constructor
  · intro b hb
    apply hw.fits
    rcases List.mem_append.mp hb with hb | hb
    · exact List.mem_append_left _ (hsub hb)
    · exact List.mem_append_right _ hb
  · intro c hc
    apply hw.pos
    rcases List.mem_append.mp hc with hc | hc
    · exact List.mem_append_left _ (hsub hc)
    · exact List.mem_append_right _ hc
  · exact fun b hb c hc => hw.apart b (hsub hb) c (hsub hc)
  · intro c hc
    obtain ⟨hspp, hsie⟩ := hw.user c (hsub hc)
    rw [← hmem c (List.mem_append_left _ hc)] at hspp hsie
    exact ⟨hspp, hsie⟩
  · intro b hb
    obtain ⟨hspp, hsie, hspie⟩ := hw.kernel b hb
    rw [← hmem b (List.mem_append_right _ hb)] at hspp hsie hspie
    exact ⟨hspp, hsie, fun hv => List.Subset.trans hsub (hspie hv)⟩

/-- A store of `__save_u_ctx`: with the `sstatus` field the context stops being initial. -/
theorem Contexts.storeUser {w : World} (hw : Contexts w) {b n v : ℕ} {initial : List ℕ}
    (hb : b ∈ w.contexts) (hframes : w.frames = []) (hn : n < 35)
    (hv : n = 32 → v.testBit sppBit = false ∧ v.testBit sieBit = false)
    (hinitial : initial = if n == 32 then w.initial.filter (· ≠ b) else w.initial) {h : Hart}
    (hmem : h.mem = Function.update w.h.mem (slot b n) v) :
    Contexts ⟨h, w.contexts, w.frames, initial⟩ := by
  have hfits := hw.fits b (List.mem_append_left _ hb)
  have hmem_initial : ∀ c, c ∈ initial ↔ c ∈ w.initial ∧ (n = 32 → c ≠ b) := by
    intro c
    rw [hinitial]
    by_cases hn : n = 32 <;> simp [hn]
  constructor
  · exact hw.fits
  · intro c hc
    apply hw.pos
    rcases List.mem_append.mp hc with hc | hc
    · exact List.mem_append_left _ hc
    · exact List.mem_append_right _ ((hmem_initial c).mp hc).1
  · exact hw.apart
  · intro c hc
    have hat : h.statusAt c = Function.update w.h.mem (slot b n) v (slot c 32) := by
      rw [← hmem]
      rfl
    by_cases hcase : b = c ∧ n = 32
    · obtain ⟨rfl, rfl⟩ := hcase
      obtain ⟨hspp, hsie⟩ := hv rfl
      rw [Function.update_self] at hat
      rw [← hat] at hspp hsie
      exact ⟨hspp, fun h => absurd h (by simp [hsie])⟩
    · rw [update_status hfits (hw.fits c (List.mem_append_left _ hc)) hn
        (by have := hw.apart b hb c hc; tauto) (hw.apart b hb c hc)] at hat
      obtain ⟨hspp, hsie⟩ := hw.user c hc
      have hne : n = 32 → c ≠ b := fun h32 he => hcase ⟨he.symm, h32⟩
      rw [show w.h.statusAt c = h.statusAt c from hat.symm] at hspp hsie
      exact ⟨hspp, fun h => (hmem_initial c).mpr ⟨hsie h, hne⟩⟩
  · intro c hc
    simp [hframes] at hc

/-- A store of `__save_k_ctx` is outside all contexts in use. -/
theorem Contexts.storeFresh {w : World} (hw : Contexts w) {b n v : ℕ} (hb : Fresh w b)
    (hn : n < 35) {h : Hart} (hmem : h.mem = Function.update w.h.mem (slot b n) v) :
    Contexts { w with h := h } := by
  apply hw.keep (h := h) (List.Subset.refl w.contexts)
  intro c hc
  rw [hmem]
  exact update_status hb.fits (hw.fits c hc) hn (Or.inl (hb.apart c hc)) (Or.inl (hb.apart c hc))

/-- The context of a kernel trap is not that of a task. -/
theorem Fresh.onlyInitial {w : World} {b : ℕ} (hb : Fresh w b) {h : Hart} :
    OnlyInitial w → OnlyInitial ⟨h, w.contexts, w.frames, w.initial.filter (· ≠ b)⟩ := by
  intro honly c hc
  refine List.mem_filter.mpr ⟨honly hc, ?_⟩
  have happart := hb.apart c (List.mem_append_left _ hc)
  unfold ContextsApart contextSize at happart
  simp only [ne_eq, decide_not, Bool.not_eq_eq_eq_not, Bool.not_true, decide_eq_false_iff_not]
  omega

/-- The context of a kernel trap leaves the list of initial ones. -/
theorem Contexts.filterInitial {w : World} (hw : Contexts w) {b : ℕ} (hb : Fresh w b) :
    Contexts { w with initial := w.initial.filter (· ≠ b) } := by
  constructor
  · exact hw.fits
  · intro c hc
    apply hw.pos
    rcases List.mem_append.mp hc with hc | hc
    · exact List.mem_append_left _ hc
    · exact List.mem_append_right _ (List.mem_of_mem_filter hc)
  · exact hw.apart
  · intro c hc
    obtain ⟨hspp, hsie⟩ := hw.user c hc
    refine ⟨hspp, fun h => List.mem_filter.mpr ⟨hsie h, ?_⟩⟩
    have happart := hb.apart c (List.mem_append_left _ hc)
    unfold ContextsApart contextSize at happart
    simp only [ne_eq, decide_not, Bool.not_eq_eq_eq_not, Bool.not_true, decide_eq_false_iff_not]
    omega
  · intro c hc
    obtain ⟨hspp, hsie, hspie⟩ := hw.kernel c hc
    exact ⟨hspp, hsie, fun h => hb.onlyInitial (hspie h)⟩

/-! ### The invariant -/

/-- Where the trap came from, by the value that tells it: a user program, with its context, or the
kernel, with room for a context below `sp`. -/
def Origin (w : World) (told : ℕ) : Prop :=
  (told ∈ w.contexts ∧ w.frames = [] ∧ w.h.spp = false) ∨
    (told = 0 ∧ KernelStatus w.contexts w.initial w.h.sstatus ∧ Fresh w (addImm (w.h.x sp) (-280)))

/-- In `__save_u_ctx`. -/
structure SavingU (w : World) : Prop where
  mode : w.h.mode = .supervisor
  sie : w.h.sie = false
  spp : w.h.spp = false
  tp : w.h.x tp ∈ w.contexts
  frames : w.frames = []

/-- In `__save_k_ctx`, with `b` the new context. -/
structure SavingK (w : World) (b : ℕ) : Prop where
  mode : w.h.mode = .supervisor
  status : KernelStatus w.contexts w.initial w.h.sstatus
  fresh : Fresh w b

/-- In `__restore_u_ctx`, after its first instruction. -/
structure RestoringU (w : World) : Prop where
  mode : w.h.mode = .supervisor
  sie : w.h.sie = true → w.h.sscratch ∈ w.initial
  sscratch : w.h.sscratch ∈ w.contexts
  frames : w.frames = []

/-- In the kernel with `sscratch` zero; interrupts are only enabled before the first task came back
from user mode. -/
structure Quiet (w : World) : Prop where
  mode : w.h.mode = .supervisor
  sie : w.h.sie = true → OnlyInitial w
  sscratch : w.h.sscratch = 0

/-- What holds at a position. -/
inductive At (w : World) : Pc → Prop
  | user (hmode : w.h.mode = .user) (hs : w.h.sscratch ∈ w.contexts) (hf : w.frames = []) :
      At w .user
  | kernel (hq : Quiet w) : At w .kernel
  | stvec (hmode : w.h.mode = .supervisor) (hsie : w.h.sie = false)
      (horigin : Origin w w.h.sscratch) : At w (.asm stvec)
  | branch (hmode : w.h.mode = .supervisor) (hsie : w.h.sie = false)
      (horigin : Origin w (w.h.x tp)) : At w (.asm (.beqz tp :: saveUCtx))
  | saveU (k : ℕ) (hk : k ≤ 32) (hs : SavingU w) : At w (.asm (savesFrom k ++ saveUTail))
  | saveUTail (j : ℕ) (hj : 0 < j ∧ j ≤ 8) (hs : SavingU w) (hscratch : w.h.sscratch = 0)
      (hx : j = 3 → (w.h.x 5).testBit sppBit = false ∧ (w.h.x 5).testBit sieBit = false) :
      At w (.asm (saveUTail.drop j))
  | restoreU (hq : Quiet w) (htp : w.h.x tp ∈ w.contexts) (hf : w.frames = []) :
      At w (.asm restoreUCtx)
  | restoreUHead (j : ℕ) (hj : 0 < j ∧ j ≤ 4) (hr : RestoringU w)
      (htp : j = 1 → w.h.x tp = w.h.sscratch)
      (hx : j = 2 → UserStatus w.initial w.h.sscratch (w.h.x 5))
      (hspp : 2 < j → w.h.spp = false) : At w (.asm (restoreUCtx.drop j))
  | loadU (ns : List ℕ) (hns : ns <:+ reloaded) (hr : RestoringU w) (hspp : w.h.spp = false) :
      At w (.asm (loads ns))
  | saveKStart (hs : SavingK w (addImm (w.h.x sp) (-280))) : At w (.asm saveKCtx)
  | saveK (k : ℕ) (hk : k ≤ 32) (hs : SavingK w (w.h.x tp)) : At w (.asm (savesFrom k ++ saveKTail))
  | saveKTail (j : ℕ) (hj : 0 < j ∧ j ≤ 10) (b : ℕ) (hs : SavingK w b) (hscratch : w.h.sscratch = 0)
      (htp : j ≤ 9 → w.h.x tp = b) (hsp : 8 ≤ j → w.h.x sp = b)
      (hx : j = 3 → KernelStatus w.contexts w.initial (w.h.x 5))
      (hmem : 4 ≤ j → KernelStatus w.contexts w.initial (w.h.statusAt b)) :
      At w (.asm (saveKTail.drop j))
  | restoreKHead (j : ℕ) (hj : j ≤ 5) (hq : Quiet w)
      (b : ℕ) (hsp : j ≤ 1 → w.h.x sp = b) (htp : j = 2 → w.h.x tp = b)
      (hmem : j ≤ 2 → KernelStatus w.contexts w.initial (w.h.statusAt b))
      (hx : j = 3 → KernelStatus w.contexts w.initial (w.h.x 5))
      (hstatus : 3 < j → KernelStatus w.contexts w.initial w.h.sstatus) :
      At w (.asm (restoreKCtx.drop j))
  | loadK (ns : List ℕ) (hq : Quiet w)
      (hstatus : KernelStatus w.contexts w.initial w.h.sstatus) : At w (.asm (loads ns))

/-- The invariant. -/
structure Inv (w : World) : Prop where
  contexts : Contexts w
  here : At w w.h.pc

/-- The reloads that are left belong to `__restore_u_ctx`. -/
theorem loads_eq_drop {ns : List ℕ} (hns : ns <:+ reloaded) :
    ∃ j, 0 < j ∧ j < restoreUCtx.length ∧ loads ns = restoreUCtx.drop j := by
  obtain ⟨before, hbefore⟩ := hns
  have hlength : before.length + ns.length = 31 := by
    rw [← List.length_append, hbefore]
    rfl
  refine ⟨5 + before.length, by omega, ?_, ?_⟩
  · show _ < 37
    omega
  · rw [← List.drop_drop, show restoreUCtx.drop 5 = loads reloaded from rfl, ← hbefore, loads,
      loads, List.map_append, List.append_assoc, List.drop_left' (List.length_map _)]

/-- The invariant tells the property at every position. -/
theorem Inv.boundary {w : World} (hw : Inv w) : Boundary w.h ↔ ¬FirstEntry w := by
  obtain ⟨hcontexts, hat⟩ := hw
  generalize hpc : w.h.pc = pc at hat
  have hmasked : w.h.mode = .supervisor → w.h.sie = false → (Boundary w.h ↔ ¬FirstEntry w) := by
    intro hmode hsie
    refine iff_of_true (fun hint => ?_) fun hfirst => ?_
    · rcases hint with hu | hs
      · simp [hmode] at hu
      · simp [hsie] at hs
    · exact absurd hfirst.sie (by simp [hsie])
  have hkernel : Quiet w → (Boundary w.h ↔ ¬FirstEntry w) := by
    intro hq
    refine iff_of_true (fun _ => iff_of_true hq.sscratch hq.mode) fun hfirst => ?_
    exact hcontexts.pos _ (List.mem_append_right _ hfirst.initial) hq.sscratch
  -- in the window, interrupts are enabled exactly on a first entry
  have hwindow : RestoringU w → (∃ j, 0 < j ∧ j < restoreUCtx.length ∧
      pc = .asm (restoreUCtx.drop j)) → (Boundary w.h ↔ ¬FirstEntry w) := by
    intro hr hj
    cases hsie : w.h.sie with
    | false => exact hmasked hr.mode hsie
    | true =>
      refine iff_of_false (fun hboundary => ?_) fun hnot => hnot ⟨hpc ▸ hj, hr.sie hsie, hsie⟩
      exact hcontexts.pos _ (List.mem_append_left _ hr.sscratch)
        ((hboundary (Or.inr hsie)).mpr hr.mode)
  cases hat with
  | user hmode hs hf =>
    refine iff_of_true (fun _ => ?_) fun ⟨⟨j, _, _, hj⟩, _, _⟩ => ?_
    · simp [hcontexts.pos _ (List.mem_append_left _ hs), hmode]
    · rw [hpc] at hj
      cases hj
  | kernel hq => exact hkernel hq
  | stvec hmode hsie => exact hmasked hmode hsie
  | branch hmode hsie => exact hmasked hmode hsie
  | saveU k hk hs => exact hmasked hs.mode hs.sie
  | saveUTail j hj hs => exact hmasked hs.mode hs.sie
  | restoreU hq => exact hkernel hq
  | restoreUHead j hj hr =>
    exact hwindow hr ⟨j, hj.1, lt_of_le_of_lt hj.2 (by decide), rfl⟩
  | loadU ns hns hr =>
    obtain ⟨j, hpos, hlt, hj⟩ := loads_eq_drop hns
    exact hwindow hr ⟨j, hpos, hlt, by rw [hj]⟩
  | saveKStart hs => exact hmasked hs.mode hs.status.sie
  | saveK k hk hs => exact hmasked hs.mode hs.status.sie
  | saveKTail j hj b hs => exact hmasked hs.mode hs.status.sie
  | restoreKHead j hj hq => exact hkernel hq
  | loadK ns hq => exact hkernel hq

/-! ### One instruction -/

variable {w : World} {ins : Instr} {rest : List Instr}

theorem SavingU.store (hw : Contexts w) (hs : SavingU w) {r n : ℕ} (hn : n < 35)
    (hr : n = 32 → (w.h.reg r).testBit sppBit = false ∧ (w.h.reg r).testBit sieBit = false) :
    Contexts (w.next (.sd r n) rest) ∧ SavingU (w.next (.sd r n) rest) := by
  constructor
  · exact hw.storeUser hs.tp hs.frames hn hr rfl rfl
  · exact ⟨hs.mode, hs.sie, hs.spp, hs.tp, hs.frames⟩

theorem SavingK.store (hw : Contexts w) {b : ℕ} (hs : SavingK w b) (htp : w.h.x tp = b) {r n : ℕ}
    (hn : n < 35) :
    Contexts (w.next (.sd r n) rest) ∧ SavingK (w.next (.sd r n) rest) b ∧
      ∀ v, KernelStatus w.contexts w.initial v →
        KernelStatus w.contexts (w.next (.sd r n) rest).initial v := by
  subst htp
  have hstored : Contexts { w with h := (w.next (.sd r n) rest).h } :=
    hw.storeFresh hs.fresh hn rfl
  have hkeep : ∀ v, KernelStatus w.contexts w.initial v →
      KernelStatus w.contexts (w.next (.sd r n) rest).initial v := by
    refine fun v hv => ⟨hv.spp, hv.sie, fun hspie => ?_⟩
    by_cases h32 : n = 32
    · subst h32
      exact hs.fresh.onlyInitial (hv.spie hspie)
    · intro c hc
      have hc := hv.spie hspie hc
      simpa [World.next, Instr.storesStatus, h32] using hc
  refine ⟨?_, ⟨hs.mode, hkeep _ hs.status, ⟨hs.fresh.fits, hs.fresh.apart⟩⟩, hkeep⟩
  by_cases h32 : n = 32
  · subst h32
    exact hstored.filterInitial ⟨hs.fresh.fits, hs.fresh.apart⟩
  · have hnext : w.next (.sd r n) rest = { w with h := (w.next (.sd r n) rest).h } := by
      simp [World.next, Instr.storesStatus, h32]
    rw [hnext]
    exact hstored

/-- `__save_u_ctx`, one register. -/
theorem Inv.saveU (hw : Contexts w) {k : ℕ} (hk : k ≤ 32) (hs : SavingU w)
    (hp : ins :: rest = savesFrom k ++ saveUTail) : Inv (w.next ins rest) := by
  rcases Nat.lt_or_ge k 32 with hlt | hge
  · rw [savesFrom_of_lt hlt, List.cons_append] at hp
    obtain ⟨rfl, rfl⟩ := List.cons.inj hp
    obtain ⟨hcontexts, hsaving⟩ := hs.store hw (r := k) (show k < 35 by omega) (by omega)
    exact ⟨hcontexts, .saveU (k + 1) hlt hsaving⟩
  · obtain rfl : k = 32 := by omega
    obtain ⟨rfl, rfl⟩ := List.cons.inj hp
    exact ⟨hw.congr rfl, .saveUTail 1 (by norm_num)
      ⟨hs.mode, hs.sie, hs.spp, hs.tp, hs.frames⟩ rfl (by norm_num)⟩

/-- `__save_u_ctx`, after the registers. -/
theorem Inv.saveUTail (hw : Contexts w) {j : ℕ} (hj : 0 < j ∧ j ≤ 8) (hs : SavingU w)
    (hscratch : w.h.sscratch = 0)
    (hx : j = 3 → (w.h.x 5).testBit sppBit = false ∧ (w.h.x 5).testBit sieBit = false)
    (hp : ins :: rest = saveUTail.drop j) : Inv (w.next ins rest) := by
  obtain ⟨hpos, hle⟩ := hj
  interval_cases j <;> obtain ⟨rfl, rfl⟩ := List.cons.inj hp
  · obtain ⟨hcontexts, hsaving⟩ := hs.store hw (r := 5) (n := 4) (by norm_num) (by norm_num)
    exact ⟨hcontexts, .saveUTail 2 (by norm_num) hsaving hscratch (by norm_num)⟩
  · exact ⟨hw.congr rfl, .saveUTail 3 (by norm_num)
      ⟨hs.mode, hs.sie, hs.spp, hs.tp, hs.frames⟩ hscratch fun _ => ⟨hs.spp, hs.sie⟩⟩
  · obtain ⟨hcontexts, hsaving⟩ := hs.store hw (r := 5) (n := 32) (by norm_num) (fun _ => hx rfl)
    exact ⟨hcontexts, .saveUTail 4 (by norm_num) hsaving hscratch (by norm_num)⟩
  · exact ⟨hw.congr rfl, .saveUTail 5 (by norm_num)
      ⟨hs.mode, hs.sie, hs.spp, hs.tp, hs.frames⟩ hscratch (by norm_num)⟩
  · obtain ⟨hcontexts, hsaving⟩ := hs.store hw (r := 5) (n := 33) (by norm_num) (by norm_num)
    exact ⟨hcontexts, .saveUTail 6 (by norm_num) hsaving hscratch (by norm_num)⟩
  · exact ⟨hw.congr rfl, .saveUTail 7 (by norm_num)
      ⟨hs.mode, hs.sie, hs.spp, hs.tp, hs.frames⟩ hscratch (by norm_num)⟩
  · exact ⟨hw.congr rfl, .saveUTail 8 (by norm_num)
      ⟨hs.mode, hs.sie, hs.spp, hs.tp, hs.frames⟩ hscratch (by norm_num)⟩
  · exact ⟨hw.congr rfl, .kernel ⟨hs.mode, fun hsie =>
      absurd (hs.sie.symm.trans hsie) Bool.false_ne_true, hscratch⟩⟩

/-- `__restore_u_ctx`, up to the registers. -/
theorem Inv.restoreUHead (hw : Contexts w) {j : ℕ} (hj : 0 < j ∧ j ≤ 4) (hr : RestoringU w)
    (htp : j = 1 → w.h.x tp = w.h.sscratch)
    (hx : j = 2 → UserStatus w.initial w.h.sscratch (w.h.x 5))
    (hspp : 2 < j → w.h.spp = false) (hp : ins :: rest = restoreUCtx.drop j) :
    Inv (w.next ins rest) := by
  obtain ⟨hpos, hle⟩ := hj
  have hstatus := hw.user _ hr.sscratch
  interval_cases j <;> obtain ⟨rfl, rfl⟩ := List.cons.inj hp
  · refine ⟨hw.congr rfl, .restoreUHead 2 (by norm_num)
      ⟨hr.mode, hr.sie, hr.sscratch, hr.frames⟩ (by norm_num) (fun _ => ?_) (by norm_num)⟩
    rw [← htp rfl] at hstatus
    show UserStatus w.initial w.h.sscratch (w.h.statusAt (w.h.x tp))
    rw [← htp rfl]
    exact hstatus
  · exact ⟨hw.congr rfl, .restoreUHead 3 (by norm_num)
      ⟨hr.mode, (hx rfl).sie, hr.sscratch, hr.frames⟩ (by norm_num) (by norm_num)
      fun _ => (hx rfl).spp⟩
  · exact ⟨hw.congr rfl, .restoreUHead 4 (by norm_num) ⟨hr.mode, hr.sie, hr.sscratch, hr.frames⟩
      (by norm_num) (by norm_num) fun _ => hspp (by norm_num)⟩
  · exact ⟨hw.congr rfl, .loadU reloaded (List.suffix_refl _)
      ⟨hr.mode, hr.sie, hr.sscratch, hr.frames⟩ (hspp (by norm_num))⟩

/-- The reloads of `__restore_u_ctx`, and `sret`. -/
theorem Inv.loadU (hw : Contexts w) {ns : List ℕ} (hns : ns <:+ reloaded) (hr : RestoringU w)
    (hspp : w.h.spp = false) (hp : ins :: rest = loads ns) : Inv (w.next ins rest) := by
  cases ns with
  | nil =>
    obtain ⟨rfl, rfl⟩ := List.cons.inj hp
    have hpc : (w.next .sret []).h.pc = .user := if_neg (by simp [hspp])
    refine ⟨hw.congr rfl, ?_⟩
    rw [hpc]
    exact .user (if_neg (by simp [hspp])) hr.sscratch hr.frames
  | cons n ns =>
    obtain ⟨rfl, rfl⟩ := List.cons.inj hp
    exact ⟨hw.congr rfl, .loadU ns ((List.suffix_cons n ns).trans hns)
      ⟨hr.mode, hr.sie, hr.sscratch, hr.frames⟩ hspp⟩

/-- `__save_k_ctx`, one register. -/
theorem Inv.saveK (hw : Contexts w) {k : ℕ} (hk : k ≤ 32) (hs : SavingK w (w.h.x tp))
    (hp : ins :: rest = savesFrom k ++ saveKTail) : Inv (w.next ins rest) := by
  rcases Nat.lt_or_ge k 32 with hlt | hge
  · rw [savesFrom_of_lt hlt, List.cons_append] at hp
    obtain ⟨rfl, rfl⟩ := List.cons.inj hp
    obtain ⟨hcontexts, hsaving, -⟩ := hs.store hw rfl (r := k) (show k < 35 by omega)
    exact ⟨hcontexts, .saveK (k + 1) hlt hsaving⟩
  · obtain rfl : k = 32 := by omega
    obtain ⟨rfl, rfl⟩ := List.cons.inj hp
    exact ⟨hw.congr rfl, .saveKTail 1 (by norm_num) (w.h.x tp)
      ⟨hs.mode, hs.status, ⟨hs.fresh.fits, hs.fresh.apart⟩⟩ rfl (fun _ => rfl) (by norm_num)
      (by norm_num) (by norm_num)⟩

/-- A store of `__save_k_ctx` that is not to the `sstatus` field leaves it. -/
theorem SavingK.statusAt_store {b : ℕ} (hs : SavingK w b) (htp : w.h.x tp = b) {r n : ℕ}
    (hn : n < 35) (hne : n ≠ 32) :
    (w.next (.sd r n) rest).h.statusAt b = w.h.statusAt b := by
  subst htp
  exact update_status hs.fresh.fits hs.fresh.fits hn (Or.inr hne) (Or.inr rfl)

/-- The call of `k_trap_handler` puts the new context in use. -/
theorem Contexts.push (hw : Contexts w) {b : ℕ} (hb : Fresh w b)
    (hstatus : KernelStatus w.contexts w.initial (w.h.statusAt b)) {h : Hart}
    (hmem : h.mem = w.h.mem) : Contexts ⟨h, w.contexts, b :: w.frames, w.initial⟩ := by
  have hold : Contexts { w with h := h } := hw.congr hmem
  constructor
  · intro c hc
    rcases List.mem_append.mp hc with hc | hc
    · exact hw.fits c (List.mem_append_left _ hc)
    · rcases List.mem_cons.mp hc with rfl | hc
      · exact hb.fits
      · exact hw.fits c (List.mem_append_right _ hc)
  · exact hold.pos
  · exact hold.apart
  · exact hold.user
  · intro c hc
    rcases List.mem_cons.mp hc with rfl | hc
    · show KernelStatus w.contexts w.initial (h.mem (slot c 32))
      rw [hmem]
      exact hstatus
    · exact hold.kernel c hc

/-- `__save_k_ctx`, after the registers. -/
theorem Inv.saveKTail (hw : Contexts w) {j b : ℕ} (hj : 0 < j ∧ j ≤ 10) (hs : SavingK w b)
    (hscratch : w.h.sscratch = 0) (htp : j ≤ 9 → w.h.x tp = b) (hsp : 8 ≤ j → w.h.x sp = b)
    (hx : j = 3 → KernelStatus w.contexts w.initial (w.h.x 5))
    (hmem : 4 ≤ j → KernelStatus w.contexts w.initial (w.h.statusAt b))
    (hp : ins :: rest = saveKTail.drop j) : Inv (w.next ins rest) := by
  obtain ⟨hpos, hle⟩ := hj
  have hfresh : ∀ {h : Hart}, Fresh { w with h := h } b := ⟨hs.fresh.fits, hs.fresh.apart⟩
  interval_cases j <;> obtain ⟨rfl, rfl⟩ := List.cons.inj hp
  · have htp := htp (by norm_num)
    obtain ⟨hcontexts, hsaving, -⟩ := hs.store hw htp (r := 5) (n := 4) (by norm_num)
    exact ⟨hcontexts, .saveKTail 2 (by norm_num) b hsaving hscratch (fun _ => htp) (by norm_num)
      (by norm_num) (by norm_num)⟩
  · exact ⟨hw.congr rfl, .saveKTail 3 (by norm_num) b ⟨hs.mode, hs.status, hfresh⟩ hscratch
      (fun _ => htp (by norm_num)) (by norm_num) (fun _ => hs.status) (by norm_num)⟩
  · have htp := htp (by norm_num)
    obtain ⟨hcontexts, hsaving, hkeep⟩ := hs.store hw htp (r := 5) (n := 32) (by norm_num)
    refine ⟨hcontexts, .saveKTail 4 (by norm_num) b hsaving hscratch (fun _ => htp) (by norm_num)
      (by norm_num) fun _ => ?_⟩
    have hstored : (w.next (.sd 5 32) (saveKTail.drop 4)).h.statusAt b = w.h.x 5 := by
      subst htp
      exact Function.update_self ..
    have hnew := hkeep _ (hx rfl)
    rw [← hstored] at hnew
    exact hnew
  · exact ⟨hw.congr rfl, .saveKTail 5 (by norm_num) b ⟨hs.mode, hs.status, hfresh⟩ hscratch
      (fun _ => htp (by norm_num)) (by norm_num) (by norm_num) fun _ => hmem (by norm_num)⟩
  · have htp := htp (by norm_num)
    obtain ⟨hcontexts, hsaving, -⟩ := hs.store hw htp (r := 5) (n := 33) (by norm_num)
    refine ⟨hcontexts, .saveKTail 6 (by norm_num) b hsaving hscratch (fun _ => htp) (by norm_num)
      (by norm_num) fun _ => ?_⟩
    rw [hs.statusAt_store htp (by norm_num) (by norm_num)]
    exact hmem (by norm_num)
  · have htp := htp (by norm_num)
    obtain ⟨hcontexts, hsaving, -⟩ := hs.store hw htp (r := 0) (n := 34) (by norm_num)
    refine ⟨hcontexts, .saveKTail 7 (by norm_num) b hsaving hscratch (fun _ => htp) (by norm_num)
      (by norm_num) fun _ => ?_⟩
    rw [hs.statusAt_store htp (by norm_num) (by norm_num)]
    exact hmem (by norm_num)
  · exact ⟨hw.congr rfl, .saveKTail 8 (by norm_num) b ⟨hs.mode, hs.status, hfresh⟩ hscratch
      (fun _ => htp (by norm_num)) (fun _ => htp (by norm_num)) (by norm_num)
      fun _ => hmem (by norm_num)⟩
  · exact ⟨hw.congr rfl, .saveKTail 9 (by norm_num) b ⟨hs.mode, hs.status, hfresh⟩ hscratch
      (fun _ => htp (by norm_num)) (fun _ => hsp (by norm_num)) (by norm_num)
      fun _ => hmem (by norm_num)⟩
  · exact ⟨hw.congr rfl, .saveKTail 10 (by norm_num) b ⟨hs.mode, hs.status, hfresh⟩ hscratch
      (by norm_num) (fun _ => hsp (by norm_num)) (by norm_num) fun _ => hmem (by norm_num)⟩
  · obtain rfl := hsp (by norm_num)
    exact ⟨hw.push hs.fresh (hmem (by norm_num)) rfl, .kernel ⟨hs.mode, fun hsie =>
      absurd (hs.status.sie.symm.trans hsie) Bool.false_ne_true, hscratch⟩⟩

/-- `__restore_k_ctx`, up to the registers. -/
theorem Inv.restoreKHead (hw : Contexts w) {j b : ℕ} (hj : j ≤ 5) (hq : Quiet w)
    (hsp : j ≤ 1 → w.h.x sp = b) (htp : j = 2 → w.h.x tp = b)
    (hmem : j ≤ 2 → KernelStatus w.contexts w.initial (w.h.statusAt b))
    (hx : j = 3 → KernelStatus w.contexts w.initial (w.h.x 5))
    (hstatus : 3 < j → KernelStatus w.contexts w.initial w.h.sstatus)
    (hp : ins :: rest = restoreKCtx.drop j) : Inv (w.next ins rest) := by
  interval_cases j <;> obtain ⟨rfl, rfl⟩ := List.cons.inj hp
  · exact ⟨hw.congr rfl, .restoreKHead 1 (by norm_num) ⟨hq.mode, hq.sie, rfl⟩ b
      (fun _ => hsp (by norm_num)) (by norm_num) (fun _ => hmem (by norm_num)) (by norm_num)
      (by norm_num)⟩
  · exact ⟨hw.congr rfl, .restoreKHead 2 (by norm_num) ⟨hq.mode, hq.sie, hq.sscratch⟩ b
      (by norm_num) (fun _ => hsp (by norm_num)) (fun _ => hmem (by norm_num)) (by norm_num)
      (by norm_num)⟩
  · obtain rfl := htp rfl
    exact ⟨hw.congr rfl, .restoreKHead 3 (by norm_num) ⟨hq.mode, hq.sie, hq.sscratch⟩ 0
      (by norm_num) (by norm_num) (by norm_num) (fun _ => hmem (by norm_num)) (by norm_num)⟩
  · exact ⟨hw.congr rfl, .restoreKHead 4 (by norm_num)
      ⟨hq.mode, fun hsie => absurd ((hx rfl).sie.symm.trans hsie) Bool.false_ne_true, hq.sscratch⟩ 0
      (by norm_num) (by norm_num) (by norm_num) (by norm_num) fun _ => hx rfl⟩
  · exact ⟨hw.congr rfl, .restoreKHead 5 (by norm_num) ⟨hq.mode, hq.sie, hq.sscratch⟩ 0
      (by norm_num) (by norm_num) (by norm_num) (by norm_num) fun _ => hstatus (by norm_num)⟩
  · exact ⟨hw.congr rfl, .loadK reloaded ⟨hq.mode, hq.sie, hq.sscratch⟩ (hstatus (by norm_num))⟩

/-- The reloads of `__restore_k_ctx`, and `sret`, which takes `SIE` from `SPIE`. -/
theorem Inv.loadK (hw : Contexts w) {ns : List ℕ} (hq : Quiet w)
    (hstatus : KernelStatus w.contexts w.initial w.h.sstatus) (hp : ins :: rest = loads ns) :
    Inv (w.next ins rest) := by
  cases ns with
  | nil =>
    obtain ⟨rfl, rfl⟩ := List.cons.inj hp
    have hpc : (w.next .sret []).h.pc = .kernel := if_pos hstatus.spp
    have hsie : (w.next .sret []).h.sie = w.h.sstatus.testBit spieBit := by
      show (setBit (setBit (setBit _ sieBit _) spieBit true) sppBit false).testBit sieBit = _
      rw [testBit_setBit, if_neg (by decide), testBit_setBit, if_neg (by decide), testBit_setBit,
        if_pos rfl]
    refine ⟨hw.congr rfl, ?_⟩
    rw [hpc]
    exact .kernel ⟨if_pos hstatus.spp, fun h => hstatus.spie (hsie ▸ h), hq.sscratch⟩
  | cons n ns =>
    obtain ⟨rfl, rfl⟩ := List.cons.inj hp
    exact ⟨hw.congr rfl, .loadK ns ⟨hq.mode, hq.sie, hq.sscratch⟩ hstatus⟩

/-- **One instruction keeps the invariant.** -/
theorem Inv.next (hw : Inv w) (hpc : w.h.pc = .asm (ins :: rest)) : Inv (w.next ins rest) := by
  obtain ⟨hcontexts, hat⟩ := hw
  generalize hhere : w.h.pc = here at hat
  have hp : here = .asm (ins :: rest) := hhere ▸ hpc
  cases hat with
  | user => cases hp
  | kernel => cases hp
  | stvec hmode hsie horigin =>
    obtain ⟨rfl, rfl⟩ := List.cons.inj (Pc.asm.inj hp.symm)
    refine ⟨hcontexts.congr rfl, .branch hmode hsie ?_⟩
    rcases horigin with huser | ⟨hzero, hstatus, hfresh⟩
    · exact Or.inl huser
    · exact Or.inr ⟨hzero, hstatus, ⟨hfresh.fits, hfresh.apart⟩⟩
  | branch hmode hsie horigin =>
    obtain ⟨rfl, rfl⟩ := List.cons.inj (Pc.asm.inj hp.symm)
    rcases horigin with ⟨htp, hframes, hspp⟩ | ⟨htp, hstatus, hfresh⟩
    · have hne : ¬ w.h.reg tp = 0 := hcontexts.pos _ (List.mem_append_left _ htp)
      have hnext : w.next (.beqz tp) saveUCtx = { w with h := w.h.goto saveUCtx } := by
        simp [World.next, Instr.exec, Instr.storesStatus, hne]
      rw [hnext]
      exact ⟨hcontexts.congr rfl, .saveU 0 (by norm_num) ⟨hmode, hsie, hspp, htp, hframes⟩⟩
    · have hzero : w.h.reg tp = 0 := htp
      have hnext : w.next (.beqz tp) saveUCtx = { w with h := w.h.goto saveKCtx } := by
        simp [World.next, Instr.exec, Instr.storesStatus, hzero]
      rw [hnext]
      exact ⟨hcontexts.congr rfl, .saveKStart ⟨hmode, hstatus, ⟨hfresh.fits, hfresh.apart⟩⟩⟩
  | saveU k hk hs => exact Inv.saveU hcontexts hk hs (Pc.asm.inj hp.symm)
  | saveUTail j hj hs hscratch hx =>
    exact Inv.saveUTail hcontexts hj hs hscratch hx (Pc.asm.inj hp.symm)
  | restoreU hq htp hf =>
    obtain ⟨rfl, rfl⟩ := List.cons.inj (Pc.asm.inj hp.symm)
    exact ⟨hcontexts.congr rfl, .restoreUHead 1 (by norm_num)
      ⟨hq.mode, fun hsie => hq.sie hsie htp, htp, hf⟩ (fun _ => rfl) (by norm_num) (by norm_num)⟩
  | restoreUHead j hj hr htp hx hspp =>
    exact Inv.restoreUHead hcontexts hj hr htp hx hspp (Pc.asm.inj hp.symm)
  | loadU ns hns hr hspp => exact Inv.loadU hcontexts hns hr hspp (Pc.asm.inj hp.symm)
  | saveKStart hs =>
    obtain ⟨rfl, rfl⟩ := List.cons.inj (Pc.asm.inj hp.symm)
    exact ⟨hcontexts.congr rfl, .saveK 0 (by norm_num)
      ⟨hs.mode, hs.status, ⟨hs.fresh.fits, hs.fresh.apart⟩⟩⟩
  | saveK k hk hs => exact Inv.saveK hcontexts hk hs (Pc.asm.inj hp.symm)
  | saveKTail j hj b hs hscratch htp hsp hx hmem =>
    exact Inv.saveKTail hcontexts hj hs hscratch htp hsp hx hmem (Pc.asm.inj hp.symm)
  | restoreKHead j hj hq b hsp htp hmem hx hstatus =>
    exact Inv.restoreKHead hcontexts hj hq hsp htp hmem hx hstatus (Pc.asm.inj hp.symm)
  | loadK ns hq hstatus => exact Inv.loadK hcontexts hq hstatus (Pc.asm.inj hp.symm)

/-! ### Every step -/

theorem Inv.trapUser (hw : Inv w) (hmode : w.h.mode = .user) (epc : ℕ) :
    Inv { w with h := w.h.trap epc } := by
  obtain ⟨hcontexts, hat⟩ := hw
  have hspp : (w.h.trap epc).spp = false := by
    rw [Hart.trap_spp, hmode]
    rfl
  refine ⟨hcontexts.congr rfl, .stvec rfl (w.h.trap_sie epc) (Or.inl ?_)⟩
  generalize w.h.pc = here at hat
  cases hat with
  | user _ hs hf => exact ⟨hs, hf, hspp⟩
  | stvec hmode' | branch hmode' => simp [hmode'] at hmode
  | kernel hq | restoreU hq | restoreKHead _ _ hq | loadK _ hq => simp [hq.mode] at hmode
  | saveU _ _ hs | saveUTail _ _ hs | restoreUHead _ _ hs | loadU _ _ hs | saveKStart hs
  | saveK _ _ hs | saveKTail _ _ _ hs => simp [hs.mode] at hmode

/-- A trap from the kernel, outside the first entries. -/
theorem Inv.trapKernel (hw : Inv w) (hmode : w.h.mode = .supervisor)
    (htaken : w.h.pc = .kernel ∨ w.h.sie = true) (hnot : ¬FirstEntry w) (epc : ℕ)
    (hfree : Fresh w (addImm (w.h.x sp) (-280))) : Inv { w with h := w.h.trap epc } := by
  have hboundary := hw.boundary.mpr hnot
  obtain ⟨hcontexts, hat⟩ := hw
  have hspp : (w.h.trap epc).spp = true := by
    rw [Hart.trap_spp, hmode]
    rfl
  have hspie : (w.h.trap epc).sstatus.testBit spieBit = w.h.sie := by
    show (setBit (setBit (setBit _ spieBit _) sieBit false) sppBit _).testBit spieBit = _
    rw [testBit_setBit, if_neg (by decide), testBit_setBit, if_neg (by decide), testBit_setBit,
      if_pos rfl]
  have hquiet : w.h.sscratch = 0 ∧ (w.h.sie = true → OnlyInitial w) := by
    rcases htaken with hpc | hsie
    · rw [hpc] at hat
      cases hat with
      | kernel hq => exact ⟨hq.sscratch, hq.sie⟩
    · have hzero := (hboundary (Or.inr hsie)).mpr hmode
      refine ⟨hzero, fun _ => ?_⟩
      generalize w.h.pc = here at hat
      cases hat with
      | user hmode' => simp [hmode'] at hmode
      | kernel hq | restoreU hq | restoreKHead _ _ hq | loadK _ hq => exact hq.sie hsie
      | stvec _ hsie' | branch _ hsie' => simp [hsie'] at hsie
      | saveU _ _ hs | saveUTail _ _ hs => simp [hs.sie] at hsie
      | saveKStart hs | saveK _ _ hs | saveKTail _ _ _ hs =>
        exact absurd (hs.status.sie.symm.trans hsie) Bool.false_ne_true
      | restoreUHead _ _ hr | loadU _ _ hr =>
        exact absurd hzero (hcontexts.pos _ (List.mem_append_left _ hr.sscratch))
  exact ⟨hcontexts.congr rfl, .stvec rfl (w.h.trap_sie epc) (Or.inr ⟨hquiet.1,
    ⟨hspp, w.h.trap_sie epc, fun h => hquiet.2 (hspie ▸ h)⟩, ⟨hfree.fits, hfree.apart⟩⟩)⟩

theorem Contexts.add (hw : Contexts w) {c : ℕ} (hc : c ≠ 0) (hfree : Fresh w c) {h : Hart}
    (hmem : KeepsStatus w w.contexts h.mem) (hnew : (h.statusAt c).testBit sppBit = false) :
    Contexts ⟨h, c :: w.contexts, w.frames, c :: w.initial⟩ := by
  have hold : Contexts ⟨h, w.contexts, w.frames, w.initial⟩ := hw.keep (List.Subset.refl _) hmem
  constructor
  · intro b hb
    rcases List.mem_cons.mp hb with rfl | hb
    · exact hfree.fits
    · exact hold.fits b hb
  · intro b hb
    rcases List.mem_append.mp hb with hb | hb
    · rcases List.mem_cons.mp hb with rfl | hb
      · exact hc
      · exact hold.pos b (List.mem_append_left _ hb)
    · rcases List.mem_cons.mp hb with rfl | hb
      · exact hc
      · exact hold.pos b (List.mem_append_right _ hb)
  · intro b hb d hd
    rcases List.mem_cons.mp hb with rfl | hbold
    · rcases List.mem_cons.mp hd with rfl | hdold
      · exact Or.inr rfl
      · exact Or.inl (hfree.apart d (List.mem_append_left _ hdold))
    · rcases List.mem_cons.mp hd with rfl | hdold
      · exact Or.inl (hfree.apart b (List.mem_append_left _ hbold)).symm
      · exact hold.apart b hbold d hdold
  · intro b hb
    rcases List.mem_cons.mp hb with rfl | hb
    · exact ⟨hnew, fun _ => List.mem_cons_self⟩
    · obtain ⟨hspp, hsie⟩ := hold.user b hb
      exact ⟨hspp, fun h => List.mem_cons_of_mem _ (hsie h)⟩
  · intro b hb
    obtain ⟨hspp, hsie, hspie⟩ := hold.kernel b hb
    exact ⟨hspp, hsie, fun h => List.cons_subset_cons c (hspie h)⟩

theorem Inv.of_kernel (hw : Inv w) (hpc : w.h.pc = .kernel) : Quiet w := by
  obtain ⟨-, hat⟩ := hw
  rw [hpc] at hat
  cases hat with
  | kernel hq => exact hq

theorem Inv.of_user (hw : Inv w) (hpc : w.h.pc = .user) :
    w.h.mode = .user ∧ w.h.sscratch ∈ w.contexts ∧ w.frames = [] := by
  obtain ⟨-, hat⟩ := hw
  rw [hpc] at hat
  cases hat with
  | user hmode hs hf => exact ⟨hmode, hs, hf⟩

/-- **Every step keeps the invariant** that takes no interrupt during a first entry. -/
theorem Inv.step {w' : World} (hw : Inv w) (hspared : Spared w w') (hstep : Step w w') :
    Inv w' := by
  cases hstep with
  | instr hpc => exact hw.next hpc
  | user hpc x mem hmem =>
    obtain ⟨hmode, hs, hf⟩ := hw.of_user hpc
    refine ⟨hw.contexts.keep (List.Subset.refl _) hmem, ?_⟩
    show At _ w.h.pc
    rw [hpc]
    exact .user hmode hs hf
  | trapUser hmode epc => exact hw.trapUser hmode epc
  | trapKernel hmode htaken epc hfree =>
    exact hw.trapKernel hmode htaken (fun hfirst => hspared hfirst rfl) epc hfree
  | kernel hpc x mem sstatus contexts hstatus hsub hmem =>
    have hq := hw.of_kernel hpc
    refine ⟨hw.contexts.keep hsub hmem, ?_⟩
    show At _ w.h.pc
    rw [hpc]
    refine .kernel ⟨hq.mode, fun hsie => List.Subset.trans hsub (hq.sie ?_), hq.sscratch⟩
    exact (hstatus sieBit (by simp)).symm.trans hsie
  | newInitial hpc c hc hfree mem hmem hnew =>
    have hq := hw.of_kernel hpc
    refine ⟨hw.contexts.add hc hfree hmem ?_, ?_⟩
    · show (mem (slot c 32)).testBit sppBit = false
      rw [hnew, testBit_setBit, if_pos rfl]
    · show At _ w.h.pc
      rw [hpc]
      refine .kernel ⟨hq.mode, fun hsie => List.cons_subset_cons c (hq.sie ?_), hq.sscratch⟩
      have hsame : (setBit w.h.sstatus sppBit false).testBit sieBit = w.h.sie := by
        rw [testBit_setBit, if_neg (by decide)]
        rfl
      exact hsame.symm.trans hsie
  | enterUser hpc hframes x htp =>
    have hq := hw.of_kernel hpc
    exact ⟨hw.contexts.congr rfl, .restoreU ⟨hq.mode, hq.sie, hq.sscratch⟩ htp hframes⟩
  | leaveKernel hpc b frames hframes x hsp =>
    have hq := hw.of_kernel hpc
    have hmem : b ∈ w.frames := by simp [hframes]
    refine ⟨⟨?_, hw.contexts.pos, hw.contexts.apart, hw.contexts.user, ?_⟩, ?_⟩
    · intro c hc
      apply hw.contexts.fits
      rw [hframes]
      rcases List.mem_append.mp hc with hc | hc
      · exact List.mem_append_left _ hc
      · exact List.mem_append_right _ (List.mem_cons_of_mem _ hc)
    · intro c hc
      apply hw.contexts.kernel
      rw [hframes]
      exact List.mem_cons_of_mem _ hc
    · exact .restoreKHead 0 (by norm_num) ⟨hq.mode, hq.sie, hq.sscratch⟩ b (fun _ => hsp)
        (by norm_num) (fun _ => hw.contexts.kernel b hmem) (by norm_num) (by norm_num)

/-! ### Runs -/

theorem AfterInit.inv {w : World} (hw : AfterInit w) : Inv w := by
  constructor
  · constructor <;> simp [hw.contexts, hw.frames, hw.initial]
  · rw [hw.pc]
    refine .kernel ⟨hw.mode, fun _ c hc => ?_, hw.sscratch⟩
    rw [hw.contexts] at hc
    exact (List.not_mem_nil hc).elim

/-- The last step of a run that spares the first entries, and the run before it. -/
theorem spared_snoc {visited : List World} {w w' : World} :
    ((visited ++ [w]) ++ [w']).IsChain Spared ↔ (visited ++ [w]).IsChain Spared ∧ Spared w w' := by
  rw [List.append_assoc, List.singleton_append, List.isChain_append_cons_cons]
  simp

/-- **`sscratch` tells the mode wherever an interrupt can be taken, except during the first entry of
a task**, in every run that takes no interrupt there. -/
theorem run_boundary {start : World} (hstart : AfterInit start) {visited : List World} {w : World}
    (hrun : Run start visited w) (hspared : (visited ++ [w]).IsChain Spared) :
    ∀ v ∈ visited ++ [w], (Boundary v.h ↔ ¬FirstEntry v) := by
  have hall : ∀ v ∈ visited ++ [w], Inv v := by
    induction hrun with
    | start =>
      intro v hv
      obtain rfl := List.mem_singleton.mp hv
      exact hstart.inv
    | step hrun hstep ih =>
      obtain ⟨hbefore, hlast⟩ := spared_snoc.mp hspared
      have ih := ih hbefore
      intro v hv
      rcases List.mem_append.mp hv with hv | hv
      · exact ih v hv
      · obtain rfl := List.mem_singleton.mp hv
        exact (ih _ (List.mem_append_right _ (List.mem_singleton_self _))).step hlast hstep
  exact fun v hv => (hall v hv).boundary

/-! ### The first task, up to its return from a trap -/

/-- A run with the condition of `run_boundary`. -/
structure SparedRun (start : World) (visited : List World) (w : World) : Prop where
  run : Run start visited w
  spared : (visited ++ [w]).IsChain Spared

variable {start w' : World} {visited : List World}

theorem SparedRun.step (h : SparedRun start visited w) (hstep : Step w w')
    (hspared : Spared w w') : SparedRun start (visited ++ [w]) w' :=
  ⟨h.run.step hstep, spared_snoc.mpr ⟨h.spared, hspared⟩⟩

/-- The instruction goes on with the next one. -/
def Instr.straight : Instr → Bool
  | .beqz _ | .call _ | .sret => false
  | _ => true

theorem World.next_pc (w : World) (rest : List Instr) (hins : ins.straight = true) :
    (w.next ins rest).h.pc = .asm rest := by
  cases ins with
  | beqz | call | sret => cases hins
  | _ => rfl

/-- The state after a block of straight code, with `rest` after it. -/
def World.through (rest : List Instr) : List Instr → World → World
  | [], w => w
  | ins :: block, w => through rest block (w.next ins (block ++ rest))

/-- A block of straight code is executed; it is too short for `__stvec` to be part of it. -/
theorem SparedRun.through (h : SparedRun start visited w) (rest block : List Instr)
    (hblock : ∀ ins ∈ block, ins.straight = true)
    (hlength : (block ++ rest).length ≤ stvec.length) (hpc : w.h.pc = .asm (block ++ rest)) :
    ∃ visited', SparedRun start visited' (w.through rest block) ∧
      (w.through rest block).h.pc = .asm rest ∧
      visited ++ [w] <+: visited' ++ [w.through rest block] := by
  induction block generalizing w visited with
  | nil => exact ⟨visited, h, hpc, List.prefix_refl _⟩
  | cons ins block ih =>
    have hpc' := w.next_pc (block ++ rest) (hblock ins List.mem_cons_self)
    simp only [List.cons_append, List.length_cons] at hlength
    have hnext := h.step (.instr hpc) fun _ he => by
      have := congrArg List.length (Pc.asm.inj (hpc'.symm.trans he))
      omega
    obtain ⟨visited', hrun, hend, hprefix⟩ := ih hnext
      (fun i hi => hblock i (List.mem_cons_of_mem _ hi)) (by omega) hpc'
    exact ⟨visited', hrun, hend, (List.prefix_append _ _).trans hprefix⟩

/-- The hart after `trap::init`. -/
def bootHart : Hart := ⟨.supervisor, fun _ => 0, fun _ => 0, 0, 2, 0, .kernel⟩

/-- The same after one task was made, with its context at `0x1000`. -/
def madeHart : Hart := { bootHart with mem := fun _ => 2 }

/-- The start of `__restore_u_ctx` for that task. -/
def enteredHart : Hart := { madeHart with x := fun _ => 4096, pc := .asm restoreUCtx }

/-- After the first instruction of it. -/
def firstEntry : World :=
  World.next ⟨enteredHart, [4096], [], [4096]⟩ (.csrw .sscratch tp) (restoreUCtx.drop 1)

theorem bootHart_afterInit : AfterInit ⟨bootHart, [], [], []⟩ :=
  ⟨rfl, rfl, rfl, by decide, rfl, rfl, rfl⟩

/-- The way into the first task, up to the first instruction of `__restore_u_ctx`. -/
theorem enter_run : SparedRun ⟨bootHart, [], [], []⟩
    [⟨bootHart, [], [], []⟩, ⟨madeHart, [4096], [], [4096]⟩, ⟨enteredHart, [4096], [], [4096]⟩]
    firstEntry := by
  have hfree : Fresh ⟨bootHart, [], [], []⟩ 4096 := ⟨by decide, by simp⟩
  have hmade : Step ⟨bootHart, [], [], []⟩ ⟨madeHart, [4096], [], [4096]⟩ :=
    Step.newInitial (w := ⟨bootHart, [], [], []⟩) rfl 4096 (by decide) hfree (fun _ => 2)
      (by intro b hb; simp at hb) (by decide)
  have hentered : Step ⟨madeHart, [4096], [], [4096]⟩ ⟨enteredHart, [4096], [], [4096]⟩ :=
    Step.enterUser (w := ⟨madeHart, [4096], [], [4096]⟩) rfl rfl (fun _ => 4096) (by simp)
  have hfirst := @Step.instr ⟨enteredHart, [4096], [], [4096]⟩ (.csrw .sscratch tp)
    (restoreUCtx.drop 1) rfl
  have hstart : SparedRun ⟨bootHart, [], [], []⟩ [] ⟨bootHart, [], [], []⟩ :=
    ⟨.start, List.isChain_singleton _⟩
  exact ((hstart.step hmade fun _ he => Pc.noConfusion he).step hentered fun _ he => by
    cases congrArg List.length (Pc.asm.inj he)).step hfirst fun _ he => by
    cases congrArg List.length (Pc.asm.inj he)

/-- `__restore_u_ctx` between its first instruction and `sret`. -/
def restoreBlock : List Instr := (restoreUCtx.drop 1).dropLast

/-- `__save_u_ctx` up to the call. -/
def saveBlock : List Instr := saveUCtx.dropLast

/-- User mode is reached for the first time. -/
def userWorld : World := (firstEntry.through [.sret] restoreBlock).next .sret []

/-- A trap from there. -/
def trappedWorld : World := { userWorld with h := userWorld.h.trap 0 }

/-- The first instructions of `__stvec` are done. -/
def branchedWorld : World :=
  (trappedWorld.next (.csrrw tp .sscratch tp) (.beqz tp :: saveUCtx)).next (.beqz tp) saveUCtx

/-- `u_trap_handler` is called. -/
def calledWorld : World :=
  (branchedWorld.through [.call .uTrapHandler] saveBlock).next (.call .uTrapHandler) []

/-- `u_trap_handler` has returned. -/
def returningWorld : World :=
  { calledWorld with h := { calledWorld.h with x := fun _ => 4096, pc := .asm restoreUCtx } }

/-- User mode is reached again. -/
def returnedWorld : World :=
  ((returningWorld.next (.csrw .sscratch tp) (restoreUCtx.drop 1)).through [.sret]
    restoreBlock).next .sret []

theorem spared_of_pc {pc : Pc} (hpc : w'.h.pc = pc) (hne : pc ≠ .asm stvec) : Spared w w' :=
  fun _ he => hne (hpc.symm.trans he)

theorem restoreBlock_straight : ∀ ins ∈ restoreBlock, ins.straight = true := by decide

/-- The first entry, up to user mode. -/
theorem user_run : ∃ visited, SparedRun ⟨bootHart, [], [], []⟩ visited userWorld ∧
    firstEntry ∈ visited := by
  obtain ⟨visited, hrun, hpc, hprefix⟩ := enter_run.through [.sret] restoreBlock
    restoreBlock_straight (by decide) rfl
  have huser : userWorld.h.pc = .user := by decide +kernel
  exact ⟨_, hrun.step (.instr hpc) (spared_of_pc huser (by decide)),
    hprefix.subset (List.mem_append_right _ (List.mem_singleton_self _))⟩

/-- A trap from user mode, up to the call of its handler. -/
theorem called_run : ∃ visited, SparedRun ⟨bootHart, [], [], []⟩ visited calledWorld ∧
    firstEntry ∈ visited ∧ trappedWorld ∈ visited := by
  obtain ⟨visited, hrun, hfirst⟩ := user_run
  have hmode : userWorld.h.mode = .user := by decide +kernel
  have huser : userWorld.h.pc = .user := by decide +kernel
  have htrapped : SparedRun ⟨bootHart, [], [], []⟩ (visited ++ [userWorld]) trappedWorld := by
    refine hrun.step (.trapUser hmode 0) fun hentry => ?_
    obtain ⟨j, -, -, hj⟩ := hentry.pc
    cases huser.symm.trans hj
  have hsecond := htrapped.step (@Step.instr trappedWorld (.csrrw tp .sscratch tp)
    (.beqz tp :: saveUCtx) rfl) (spared_of_pc rfl (by decide))
  have hbranch : branchedWorld.h.pc = .asm (saveBlock ++ [.call .uTrapHandler]) := by
    decide +kernel
  have hbranched : SparedRun _ _ branchedWorld :=
    hsecond.step (.instr rfl) (spared_of_pc hbranch (by decide))
  obtain ⟨visited', hsaved, hpc, hprefix⟩ := hbranched.through [.call .uTrapHandler] saveBlock
    (by decide) (by decide) hbranch
  have hkernel : calledWorld.h.pc = .kernel := rfl
  refine ⟨_, hsaved.step (.instr hpc) (spared_of_pc hkernel (by decide)), ?_, ?_⟩
  · exact hprefix.subset (by simp [hfirst])
  · exact hprefix.subset (by simp)

/-- With interrupts enabled from `trap::init` on, the first task is made and entered, traps, and is
returned to. -/
theorem run_boundary_returned : ∃ start visited w, AfterInit start ∧ Run start visited w ∧
    (∃ v ∈ visited, FirstEntry v) ∧ (∃ v ∈ visited, v.h.pc = .asm stvec) ∧ w.h.pc = .user ∧
    ∀ v ∈ visited ++ [w], (Boundary v.h ↔ ¬FirstEntry v) := by
  obtain ⟨visited, hcalled, hfirst, htrapped⟩ := called_run
  have hframes : calledWorld.frames = [] := by decide +kernel
  have hcontexts : 4096 ∈ calledWorld.contexts := by decide +kernel
  have hreturning : SparedRun _ _ returningWorld :=
    hcalled.step (.enterUser rfl hframes (fun _ => 4096) hcontexts) (spared_of_pc rfl (by decide))
  have hsecond := hreturning.step (@Step.instr returningWorld (.csrw .sscratch tp)
    (restoreUCtx.drop 1) rfl) (spared_of_pc rfl (by decide))
  obtain ⟨visited', hloaded, hpc, hprefix⟩ := hsecond.through [.sret] restoreBlock
    restoreBlock_straight (by decide) rfl
  have huser : returnedWorld.h.pc = .user := by decide +kernel
  have hrun : SparedRun _ _ returnedWorld :=
    hloaded.step (.instr hpc) (spared_of_pc huser (by decide))
  have hentry : FirstEntry firstEntry := ⟨⟨1, by decide, by decide, rfl⟩, by decide, by decide⟩
  refine ⟨_, _, returnedWorld, bootHart_afterInit, hrun.run, ⟨firstEntry, ?_, hentry⟩,
    ⟨trappedWorld, ?_, rfl⟩, huser, run_boundary bootHart_afterInit hrun.run hrun.spared⟩
  · exact hprefix.subset (by simp [hfirst])
  · exact hprefix.subset (by simp [htrapped])

/-- The first task is entered with interrupts enabled: after the first instruction of
`__restore_u_ctx` the hart is in supervisor mode, an interrupt can be taken, and `sscratch` is the
address of the task's context. -/
theorem first_entry_unmasked :
    ∃ start visited w, AfterInit start ∧ Run start visited w ∧ ¬ Boundary w.h := by
  refine ⟨_, _, firstEntry, bootHart_afterInit, enter_run.run, fun hboundary => ?_⟩
  have hiff := hboundary (Or.inr (by decide))
  exact absurd (hiff.mpr rfl) (by decide)

end RCoreKernel.Trap.Asm
