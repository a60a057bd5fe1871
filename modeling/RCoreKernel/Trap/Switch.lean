import RCoreKernel.Task.Run
import RCoreKernel.Trap.Context

/-!
# The switch between tasks (`os/src/task/switch.S`)

The instructions of `switch.S`, on the hart of `trap.S` with `satp` beside it.

* `Instr.exec`, `Core.run` — the instructions, one after another;
* `switch_spec` — what the whole of `__switch` does, with and without a context to store to;
* `switch_locals` — it does with the words in memory what `Locals.switch` does with the contexts;
* `switch_back` — a context that was stored and is loaded again brings its registers back.
-/

namespace RCoreKernel.Trap.Asm.Switch

open Mm RCoreKernel.Task

/-! ### The text -/

/-- The instructions that `switch.S` uses. -/
inductive Instr
  /-- `beqz rs, DONE_SAVE` -/
  | beqz (rs : ℕ)
  /-- `sd rs, n*8(base)` -/
  | sd (rs n base : ℕ)
  /-- `ld rd, n*8(base)` -/
  | ld (rd n base : ℕ)
  | csrwSatp (rs : ℕ)
  | sfenceVma
  | ret
  deriving DecidableEq, Repr

def ra : ℕ := 1

def a1 : ℕ := 11

/-- `s0` to `s11`. -/
def sRegs : List ℕ := [8, 9] ++ List.range' 18 10

/-- `save_sn %n` and so on: the registers of a list, from word `n` on. -/
def savesAt (n : ℕ) : List ℕ → List Instr
  | [] => []
  | r :: rs => .sd r n a0 :: savesAt (n + 1) rs

/-- `restore_sn %n` and so on. -/
def restoresAt (n : ℕ) : List ℕ → List Instr
  | [] => []
  | r :: rs => .ld r n a1 :: restoresAt (n + 1) rs

/-- The registers in the order of the fields of a `TaskContext`, without and with `tp`. -/
def storedRegs : List ℕ := sRegs ++ [ra, sp]

def loadedRegs : List ℕ := storedRegs ++ [tp]

/-- `RESTORE_CONTEXT`, `DONE_RESTORE`. -/
def restoreContext : List Instr := restoresAt 0 loadedRegs ++ [.ret]

/-- `DONE_SAVE`: the `satp` of the next context, then its registers. -/
def doneSave : List Instr := [.ld 5 15 a1, .csrwSatp 5, .sfenceVma] ++ restoreContext

/-- `SAVE_CONTEXT`. -/
def saveContext : List Instr := savesAt 0 storedRegs ++ doneSave

/-! ### The hart -/

/-- A hart in `__switch`, with the rest of the text. -/
structure Core where
  hart : Hart
  satp : ℕ
  rest : List Instr

/-- What an instruction does, with `rest` after it.  `restoreUCtx` is the address of
`__restore_u_ctx`; any other return address is one in the compiled kernel. -/
def Instr.exec (restoreUCtx : ℕ) (rest : List Instr) (c : Core) : Instr → Core
  | .beqz rs => { c with rest := if c.hart.reg rs = 0 then doneSave else rest }
  | .sd rs n base =>
    { c with
      hart := { c.hart with
        mem := Function.update c.hart.mem (slot (c.hart.reg base) n) (c.hart.reg rs) }
      rest := rest }
  | .ld rd n base =>
    { c with hart := c.hart.setReg rd (c.hart.mem (slot (c.hart.reg base) n)), rest := rest }
  | .csrwSatp rs => { c with satp := c.hart.reg rs, rest := rest }
  | .sfenceVma => { c with rest := rest }
  | .ret =>
    { c with
      hart := { c.hart with
        pc := if c.hart.reg ra = restoreUCtx then .asm Asm.restoreUCtx else .kernel }
      rest := [] }

/-- The next instruction, while the hart is in `__switch`. -/
def Core.exec (restoreUCtx : ℕ) (c : Core) : Core :=
  match c.rest with
  | ins :: rest => ins.exec restoreUCtx rest c
  | [] => c

def Core.run (restoreUCtx : ℕ) : ℕ → Core → Core
  | 0, c => c
  | n + 1, c => Core.run restoreUCtx n (c.exec restoreUCtx)

/-- `__switch`, to its return; it is over sooner when there is nothing to store. -/
def switch (restoreUCtx : ℕ) (h : Hart) (satp : ℕ) : Core :=
  Core.run restoreUCtx 34 ⟨h, satp, .beqz a0 :: saveContext⟩

/-! ### Runs of instructions -/

variable {restoreUCtx : ℕ}

theorem Core.run_add (m n : ℕ) (c : Core) :
    c.run restoreUCtx (m + n) = (c.run restoreUCtx m).run restoreUCtx n := by
  induction m generalizing c with
  | zero => rw [Nat.zero_add]; rfl
  | succ m ih =>
    rw [Nat.succ_add]
    exact ih (c.exec restoreUCtx)

theorem Core.run_nil (n : ℕ) (h : Hart) (satp : ℕ) :
    (⟨h, satp, []⟩ : Core).run restoreUCtx n = ⟨h, satp, []⟩ := by
  induction n with
  | zero => rfl
  | succ n ih => exact ih

/-- The memory after the registers of a list have been stored from word `n` on. -/
def storeAt (reg : ℕ → ℕ) (p : ℕ) : List ℕ → ℕ → (ℕ → ℕ) → ℕ → ℕ
  | [], _, mem => mem
  | r :: rs, n, mem => storeAt reg p rs (n + 1) (Function.update mem (slot p n) (reg r))

/-- The registers after those of a list have been loaded from word `n` on. -/
def loadAt (mem : ℕ → ℕ) (p : ℕ) : List ℕ → ℕ → (ℕ → ℕ) → ℕ → ℕ
  | [], _, x => x
  | r :: rs, n, x => loadAt mem p rs (n + 1) (Function.update x r (mem (slot p n)))

theorem run_savesAt (rs : List ℕ) (n : ℕ) (tail : List Instr) (h : Hart) (satp : ℕ) :
    (⟨h, satp, savesAt n rs ++ tail⟩ : Core).run restoreUCtx rs.length =
      ⟨{ h with mem := storeAt h.reg (h.x a0) rs n h.mem }, satp, tail⟩ := by
  induction rs generalizing n h with
  | nil => rfl
  | cons r rs ih => exact ih (n + 1) { h with mem := Function.update h.mem (slot (h.x a0) n) (h.reg r) }

theorem run_restoresAt (restoreUCtx : ℕ) (rs : List ℕ) (n : ℕ) (tail : List Instr) (hrs : a1 ∉ rs) (h : Hart)
    (satp : ℕ) :
    (⟨h, satp, restoresAt n rs ++ tail⟩ : Core).run restoreUCtx rs.length =
      ⟨{ h with x := loadAt h.mem (h.x a1) rs n h.x }, satp, tail⟩ := by
  induction rs generalizing n h with
  | nil => rfl
  | cons r rs ih =>
    obtain ⟨hr, hrest⟩ := List.ne_and_not_mem_of_not_mem_cons hrs
    have hbase : (h.setReg r (h.mem (slot (h.x a1) n))).x a1 = h.x a1 := Function.update_of_ne hr _ _
    have hrun := ih (n + 1) hrest (h.setReg r (h.mem (slot (h.x a1) n)))
    rw [hbase] at hrun
    exact hrun

theorem loadAt_of_not_mem {mem : ℕ → ℕ} {p r : ℕ} {rs : List ℕ} (hr : r ∉ rs) (n : ℕ)
    (x : ℕ → ℕ) : loadAt mem p rs n x r = x r := by
  induction rs generalizing n x with
  | nil => rfl
  | cons r' rs ih =>
    obtain ⟨hne, hrest⟩ := List.ne_and_not_mem_of_not_mem_cons hr
    show loadAt mem p rs (n + 1) _ r = x r
    rw [ih hrest, Function.update_of_ne hne]

theorem loadAt_get {mem : ℕ → ℕ} {p : ℕ} {rs : List ℕ} (hrs : rs.Nodup) (n : ℕ) (x : ℕ → ℕ) {i : ℕ}
    (hi : i < rs.length) : loadAt mem p rs n x rs[i] = mem (slot p (n + i)) := by
  induction rs generalizing n x i with
  | nil => exact absurd hi (Nat.not_lt_zero i)
  | cons r rs ih =>
    obtain ⟨hr, hrest⟩ := List.nodup_cons.mp hrs
    cases i with
    | zero =>
      show loadAt mem p rs (n + 1) _ r = _
      rw [loadAt_of_not_mem hr, Function.update_self]
      rfl
    | succ i =>
      have hget := ih hrest (n + 1) (Function.update x r (mem (slot p n))) (Nat.lt_of_succ_lt_succ hi)
      rw [show n + (i + 1) = n + 1 + i by omega]
      exact hget

/-- Words that do not wrap around. -/
theorem slot_words {p m n : ℕ} (hp : p + 8 * m ≤ 2 ^ 64) (hn : n < m) : slot p n = p + 8 * n :=
  wrap_of_lt (by omega)

theorem storeAt_of_ne {reg : ℕ → ℕ} {p a : ℕ} (rs : List ℕ) (n : ℕ) (mem : ℕ → ℕ)
    (ha : ∀ i, n ≤ i → i < n + rs.length → a ≠ slot p i) : storeAt reg p rs n mem a = mem a := by
  induction rs generalizing n mem with
  | nil => rfl
  | cons r rs ih =>
    have hlen : (r :: rs).length = rs.length + 1 := rfl
    show storeAt reg p rs (n + 1) _ a = mem a
    rw [ih (n + 1) _ fun i hlo hhi => ha i (by omega) (by omega),
      Function.update_of_ne (ha n le_rfl (by omega))]

theorem storeAt_get {reg : ℕ → ℕ} {p m : ℕ} (hp : p + 8 * m ≤ 2 ^ 64) (rs : List ℕ) (n : ℕ)
    (mem : ℕ → ℕ) (hn : n + rs.length ≤ m) {i : ℕ} (hi : i < rs.length) :
    storeAt reg p rs n mem (slot p (n + i)) = reg rs[i] := by
  induction rs generalizing n mem i with
  | nil => exact absurd hi (Nat.not_lt_zero i)
  | cons r rs ih =>
    have hlen : (r :: rs).length = rs.length + 1 := rfl
    cases i with
    | zero =>
      show storeAt reg p rs (n + 1) _ (slot p n) = reg r
      rw [storeAt_of_ne rs (n + 1), Function.update_self]
      intro j hlo hhi
      rw [slot_words hp (by omega), slot_words hp (by omega)]
      omega
    | succ i =>
      have hget := ih (n + 1) (Function.update mem (slot p n) (reg r)) (by omega)
        (Nat.lt_of_succ_lt_succ hi)
      rw [show n + (i + 1) = n + 1 + i by omega]
      exact hget

/-! ### The whole of `__switch` -/

/-- The memory that `__switch` leaves. -/
def switchMem (h : Hart) : ℕ → ℕ :=
  if h.x a0 = 0 then h.mem else storeAt h.reg (h.x a0) storedRegs 0 h.mem

/-- The registers that are loaded from a context at `a1`. -/
def switchRegs (h : Hart) (mem : ℕ → ℕ) : ℕ → ℕ :=
  loadAt mem (h.x a1) loadedRegs 0 (Function.update h.x 5 (mem (slot (h.x a1) 15)))

theorem run_doneSave (h : Hart) (satp : ℕ) :
    (⟨h, satp, doneSave⟩ : Core).run restoreUCtx 19 =
      ⟨{ h with
        x := switchRegs h h.mem
        pc := if switchRegs h h.mem ra = restoreUCtx then .asm Asm.restoreUCtx else .kernel },
        h.mem (slot (h.x a1) 15), []⟩ := by
  have hload := run_restoresAt restoreUCtx loadedRegs 0 [.ret] (by decide)
    (h.setReg 5 (h.mem (slot (h.x a1) 15))) (h.mem (slot (h.x a1) 15))
  have hlen : loadedRegs.length = 15 := rfl
  rw [hlen] at hload
  rw [show 19 = 3 + (15 + 1) from rfl, Core.run_add, Core.run_add]
  exact congrArg (Core.run restoreUCtx 1) hload

/-- **`__switch`**, from its call to its return. -/
theorem switch_eq (restoreUCtx : ℕ) (h : Hart) (satp : ℕ) : switch restoreUCtx h satp =
    ⟨{ h with
      x := switchRegs h (switchMem h)
      mem := switchMem h
      pc := if switchRegs h (switchMem h) ra = restoreUCtx then .asm Asm.restoreUCtx else .kernel },
      switchMem h (slot (h.x a1) 15), []⟩ := by
  have hreg : h.reg a0 = h.x a0 := rfl
  rw [switch, show 34 = 1 + 33 from rfl, Core.run_add]
  have hbranch : (⟨h, satp, .beqz a0 :: saveContext⟩ : Core).run restoreUCtx 1 =
      ⟨h, satp, if h.x a0 = 0 then doneSave else saveContext⟩ := rfl
  rw [hbranch, switchMem]
  by_cases hnull : h.x a0 = 0
  · rw [if_pos hnull, if_pos hnull, show 33 = 19 + 14 from rfl, Core.run_add, run_doneSave,
      Core.run_nil]
  · rw [if_neg hnull, if_neg hnull, show 33 = storedRegs.length + 19 from rfl, Core.run_add,
      saveContext, run_savesAt, run_doneSave]
    rfl

/-- The context at `p`, as `TaskContext` lays it out. -/
def contextAt (mem : ℕ → ℕ) (p : ℕ) : TaskContext where
  s := (List.range 12).map fun n => mem (slot p n)
  ra := mem (slot p 12)
  sp := mem (slot p 13)
  tp := mem (slot p 14)
  satp := mem (slot p 15)

/-- The registers that `__switch` stores. -/
def savedRegs (h : Hart) : Saved := ⟨sRegs.map h.x, h.x ra, h.x sp⟩

/-- `size_of::<TaskContext>()` is `16 * 8`. -/
def FitsTask (p : ℕ) : Prop := p + 8 * 16 ≤ 2 ^ 64

theorem slot_task {p n : ℕ} (hp : FitsTask p) (hn : n < 16) : slot p n = p + 8 * n :=
  slot_words hp hn

/-- A context at `p` shares no byte with one at `q`. -/
def TasksApart (p q : ℕ) : Prop := p + 128 ≤ q ∨ q + 128 ≤ p

/-- Where `__switch` may be called: the contexts are different ones. -/
structure Callable (h : Hart) : Prop where
  next : FitsTask (h.x a1)
  curr : h.x a0 ≠ 0 → FitsTask (h.x a0) ∧ TasksApart (h.x a0) (h.x a1)

/-- Nothing is stored but in the context at `a0`. -/
theorem switchMem_of_ne {h : Hart} {a : ℕ} (ha : h.x a0 ≠ 0 → ∀ n < 14, a ≠ slot (h.x a0) n) :
    switchMem h a = h.mem a := by
  rw [switchMem]
  split
  · rfl
  · rename_i hne
    exact storeAt_of_ne storedRegs 0 h.mem fun i _ hi => ha hne i (by simpa [storedRegs, sRegs] using hi)

theorem Callable.switchMem_next {h : Hart} (hcall : Callable h) {n : ℕ} (hn : n < 16) :
    switchMem h (slot (h.x a1) n) = h.mem (slot (h.x a1) n) := by
  refine switchMem_of_ne fun hne m hm => ?_
  obtain ⟨hfits, hapart⟩ := hcall.curr hne
  rw [slot_task hcall.next hn, slot_task hfits (by omega)]
  unfold TasksApart at hapart
  omega

/-- The registers come from the next context. -/
theorem switchRegs_get (h : Hart) (mem : ℕ → ℕ) {i : ℕ} (hi : i < 15) :
    switchRegs h mem (loadedRegs.getD i 0) = mem (slot (h.x a1) i) := by
  have hlt : i < loadedRegs.length := hi
  have hget := @loadAt_get mem (h.x a1) _ (show loadedRegs.Nodup by decide) 0
    (Function.update h.x 5 (mem (slot (h.x a1) 15))) _ hlt
  rw [Nat.zero_add] at hget
  rw [List.getD_eq_getElem _ _ hlt]
  exact hget

/-- `s0` to `s11` come first. -/
theorem sRegs_eq : sRegs = (List.range 12).map fun i => loadedRegs.getD i 0 := rfl

/-- The hart goes on with the next context: its registers, its `satp`, and at its `ra`. -/
structure Switched (restoreUCtx : ℕ) (h : Hart) (next : TaskContext) (c : Core) : Prop where
  regs : savedRegs c.hart = next.saved
  tp : c.hart.x tp = next.tp
  satp : c.satp = next.satp
  pc : c.hart.pc = if next.ra = restoreUCtx then .asm Asm.restoreUCtx else .kernel
  mode : c.hart.mode = h.mode
  sscratch : c.hart.sscratch = h.sscratch
  sstatus : c.hart.sstatus = h.sstatus
  mem : c.hart.mem = switchMem h

theorem switch_spec (restoreUCtx : ℕ) {h : Hart} (hcall : Callable h) (satp : ℕ) :
    Switched restoreUCtx h (contextAt h.mem (h.x a1)) (switch restoreUCtx h satp) := by
  have hmem : ∀ n < 16, switchMem h (slot (h.x a1) n) = h.mem (slot (h.x a1) n) :=
    fun n hn => hcall.switchMem_next hn
  have hget : ∀ i < 15,
      switchRegs h (switchMem h) (loadedRegs.getD i 0) = h.mem (slot (h.x a1) i) := fun i hi => by
    rw [switchRegs_get h _ hi, hmem i (by omega)]
  have hs : sRegs.map (switchRegs h (switchMem h)) =
      (List.range 12).map fun n => h.mem (slot (h.x a1) n) := by
    rw [sRegs_eq, List.map_map]
    refine List.map_congr_left fun i hi => ?_
    exact hget i (by
      have := List.mem_range.mp hi
      omega)
  have hra : switchRegs h (switchMem h) ra = h.mem (slot (h.x a1) 12) := hget 12 (by decide)
  have hsp : switchRegs h (switchMem h) sp = h.mem (slot (h.x a1) 13) := hget 13 (by decide)
  have htp : switchRegs h (switchMem h) tp = h.mem (slot (h.x a1) 14) := hget 14 (by decide)
  rw [switch_eq]
  refine ⟨?_, htp, hmem 15 (by norm_num), ?_, rfl, rfl, rfl, rfl⟩
  · show Saved.mk (sRegs.map (switchRegs h (switchMem h))) (switchRegs h (switchMem h) ra)
      (switchRegs h (switchMem h) sp) = _
    rw [hs, hra, hsp]
    rfl
  · dsimp only
    rw [hra]
    rfl

/-- A stored register is in its word, and `tp` and `satp` are not stored. -/
theorem switchMem_curr {h : Hart} (hne : h.x a0 ≠ 0) (hfits : FitsTask (h.x a0)) {i : ℕ}
    (hi : i < 14) : switchMem h (slot (h.x a0) i) = h.x (storedRegs.getD i 0) := by
  have hlt : i < storedRegs.length := hi
  have hnz : ∀ r ∈ storedRegs, h.reg r = h.x r := fun r hr => if_neg fun h0 => by
    rw [h0] at hr
    exact absurd hr (by decide)
  have hget := @storeAt_get h.reg _ _ hfits storedRegs 0 h.mem (show 0 + 14 ≤ 16 by decide) _ hlt
  rw [Nat.zero_add, hnz _ (List.getElem_mem _)] at hget
  rw [switchMem, if_neg hne, List.getD_eq_getElem _ _ hlt]
  exact hget

theorem switchMem_rest {h : Hart} (hfits : h.x a0 ≠ 0 → FitsTask (h.x a0)) {i : ℕ} (hlo : 14 ≤ i)
    (hi : i < 16) : switchMem h (slot (h.x a0) i) = h.mem (slot (h.x a0) i) := by
  refine switchMem_of_ne fun hne n hn => ?_
  rw [slot_task (hfits hne) hi, slot_task (hfits hne) (by omega)]
  omega

/-- What the words of the current context are afterwards. -/
theorem contextAt_curr {h : Hart} (hne : h.x a0 ≠ 0) (hfits : FitsTask (h.x a0)) :
    contextAt (switchMem h) (h.x a0) =
      { contextAt h.mem (h.x a0) with
        s := (savedRegs h).s, ra := (savedRegs h).ra, sp := (savedRegs h).sp } := by
  have hs : (List.range 12).map (fun n => switchMem h (slot (h.x a0) n)) = sRegs.map h.x := by
    rw [show sRegs = (List.range 12).map fun i => storedRegs.getD i 0 from rfl, List.map_map]
    refine List.map_congr_left fun i hi => ?_
    exact switchMem_curr hne hfits (by
      have := List.mem_range.mp hi
      omega)
  have hra : switchMem h (slot (h.x a0) 12) = h.x ra := switchMem_curr hne hfits (by norm_num)
  have hsp : switchMem h (slot (h.x a0) 13) = h.x sp := switchMem_curr hne hfits (by norm_num)
  rw [contextAt, hs, hra, hsp, switchMem_rest (fun _ => hfits) le_rfl (by norm_num),
    switchMem_rest (fun _ => hfits) (by norm_num) (by norm_num)]
  rfl

/-- **`__switch` refines `Locals.switch`**: with pointers to the contexts of the two locals in `a0`
and `a1`, null if there is no current one, it leaves in the first what `Locals.switch` leaves there
and goes on with the context that `Locals.switch` returns. -/
theorem switch_locals {V : Type} {h : Hart} (hcall : Callable h) {locals : Locals V}
    (hcurr : (locals.curr.map fun tcb => tcb.context) =
      if h.x a0 = 0 then none else some (contextAt h.mem (h.x a0)))
    (hnext : locals.next.context = contextAt h.mem (h.x a1)) (satp : ℕ) :
    (((locals.switch (savedRegs h)).1.curr.map fun tcb => tcb.context) =
        if h.x a0 = 0 then none else
          some (contextAt (switch restoreUCtx h satp).hart.mem (h.x a0))) ∧
      Switched restoreUCtx h (locals.switch (savedRegs h)).2 (switch restoreUCtx h satp) := by
  have hspec := switch_spec restoreUCtx hcall satp
  refine ⟨?_, ?_⟩
  · rw [hspec.mem]
    split
    · rename_i h0
      rw [if_pos h0, Option.map_eq_none_iff] at hcurr
      rw [Locals.switch, hcurr]
      rfl
    · rename_i hne
      rw [if_neg hne, Option.map_eq_some_iff] at hcurr
      obtain ⟨tcb, htcb, hctx⟩ := hcurr
      rw [contextAt_curr hne (hcall.curr hne).1, ← hctx, Locals.switch, htcb]
      rfl
  · rw [← hnext] at hspec
    exact hspec

/-- **A context that was stored brings its registers back.**  `h` calls `__switch` and stores at `p`;
when `g` calls it with the same words at `p` in `a1`, on any later occasion, the hart goes on with
`s0` to `s11`, `ra` and `sp` of `h`; `tp` and `satp` are those the context had before. -/
theorem switch_back {h g : Hart} {p : ℕ} (hp : h.x a0 = p) (hne : p ≠ 0) (hcall : Callable h)
    (hg : g.x a1 = p) (hgcall : Callable g) (satp satp' : ℕ)
    (hkept : ∀ n < 16, g.mem (slot p n) = (switch restoreUCtx h satp).hart.mem (slot p n)) :
    savedRegs (switch restoreUCtx g satp').hart = savedRegs h ∧
      (switch restoreUCtx g satp').hart.x tp = (contextAt h.mem p).tp ∧
      (switch restoreUCtx g satp').satp = (contextAt h.mem p).satp ∧
      (switch restoreUCtx g satp').hart.pc =
        if h.x ra = restoreUCtx then .asm Asm.restoreUCtx else .kernel := by
  subst hp
  have hmem := (switch_spec restoreUCtx hcall satp).mem
  have hback := switch_spec restoreUCtx hgcall satp'
  have hctx : contextAt g.mem (g.x a1) =
      { contextAt h.mem (h.x a0) with
        s := (savedRegs h).s, ra := (savedRegs h).ra, sp := (savedRegs h).sp } := by
    rw [← contextAt_curr hne (hcall.curr hne).1, ← hmem, hg]
    unfold contextAt
    rw [hkept 12 (by norm_num), hkept 13 (by norm_num), hkept 14 (by norm_num),
      hkept 15 (by norm_num)]
    congr 1
    exact List.map_congr_left fun n hn => hkept n (by
      have := List.mem_range.mp hn
      omega)
  rw [hctx] at hback
  exact ⟨hback.regs, hback.tp, hback.satp, hback.pc⟩

/-- A kernel thread with its context at `0x2000`, which switches to one at `0x3000`. -/
def sampleThread : Hart :=
  ⟨.supervisor, Function.update (Function.update (fun n => n) a0 0x2000) a1 0x3000, fun _ => 0, 0, 0, 0,
    .kernel⟩

/-- The other one, which switches back. -/
def otherThread : Hart :=
  { (switch 0x100 sampleThread 0).hart with
    x := Function.update (Function.update (fun _ => 7) a0 0x3000) a1 0x2000 }

theorem switch_back_sample : savedRegs otherThread ≠ savedRegs sampleThread ∧
    savedRegs (switch 0x100 otherThread 5).hart = savedRegs sampleThread := by
  have hcall : Callable sampleThread := by
    refine ⟨?_, fun _ => ⟨?_, ?_⟩⟩
    · show 0x3000 + 8 * 16 ≤ 2 ^ 64
      norm_num
    · show 0x2000 + 8 * 16 ≤ 2 ^ 64
      norm_num
    · exact Or.inl (by show 0x2000 + 128 ≤ 0x3000; norm_num)
  have hcall' : Callable otherThread := by
    refine ⟨?_, fun _ => ⟨?_, ?_⟩⟩
    · show 0x2000 + 8 * 16 ≤ 2 ^ 64
      norm_num
    · show 0x3000 + 8 * 16 ≤ 2 ^ 64
      norm_num
    · exact Or.inr (by show 0x2000 + 128 ≤ 0x3000; norm_num)
  have hp : sampleThread.x a0 = 0x2000 := rfl
  have hg : otherThread.x a1 = 0x2000 := rfl
  have hmem : otherThread.mem = (switch 0x100 sampleThread 0).hart.mem := by
    rw [otherThread]
  have hback := @switch_back 0x100 sampleThread otherThread 0x2000 hp (by decide) hcall hg hcall' 0 5
    fun n _ => congrFun hmem (slot 0x2000 n)
  refine ⟨fun he => ?_, hback.1⟩
  have hra : (7 : ℕ) = 1 := congrArg Saved.ra he
  exact absurd hra (by decide)

end RCoreKernel.Trap.Asm.Switch
