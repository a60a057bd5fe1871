import RCoreKernel.Mm.Address
import Mathlib.Data.List.Basic
import Mathlib.Logic.Function.Basic

/-!
# The trap entry and exit code (`os/src/trap/trap.S`)

The instructions of `trap.S`, one by one, on a hart with its registers, a memory of 64-bit words and
the three CSRs the code uses.  Code that is not in `trap.S` is only known to be running: a user
program or the compiled kernel.

* `stvec`, `saveUCtx`, `restoreUCtx`, `saveKCtx`, `restoreKCtx` — the text of `trap.S`;
* `Instr.exec` — what an instruction does;
* `Hart.trap` — what the hart does when it takes a trap.
-/

namespace RCoreKernel.Trap.Asm

open Mm

inductive Csr
  | sscratch
  | sstatus
  | sepc
  deriving DecidableEq, Repr

/-- The functions that `trap.S` calls. -/
inductive Handler
  | uTrapHandler
  | kTrapHandler
  deriving DecidableEq, Repr

/-- The instructions that `trap.S` uses.  Every load and store is relative to `tp`. -/
inductive Instr
  | csrrw (rd : ℕ) (csr : Csr) (rs : ℕ)
  | csrr (rd : ℕ) (csr : Csr)
  | csrw (csr : Csr) (rs : ℕ)
  /-- `beqz rs, __save_k_ctx` -/
  | beqz (rs : ℕ)
  /-- `sd rs, n*8(tp)` -/
  | sd (rs n : ℕ)
  /-- `ld rd, n*8(tp)` -/
  | ld (rd n : ℕ)
  | addi (rd rs : ℕ) (imm : ℤ)
  | mv (rd rs : ℕ)
  | call (handler : Handler)
  | sret
  deriving DecidableEq, Repr

/-- The registers that the code names: `sp`, `tp`, `x5`, `a0`. -/
def sp : ℕ := 2

def tp : ℕ := 4

def a0 : ℕ := 10

/-! ### The text -/

/-- `.rept 32 save_xn %n`, from `n = k` on. -/
def savesFrom (k : ℕ) : List Instr := (List.range' k (32 - k)).map fun n => .sd n n

theorem savesFrom_of_lt {k : ℕ} (hk : k < 32) : savesFrom k = .sd k k :: savesFrom (k + 1) := by
  unfold savesFrom
  obtain ⟨m, hm⟩ : ∃ m, 32 - k = m + 1 := ⟨31 - k, by omega⟩
  rw [hm, List.range'_succ, List.map_cons, show 32 - (k + 1) = m by omega]

/-- The registers in the order in which they are reloaded: `x5` to `x31`, then `x1` to `x4`. -/
def reloaded : List ℕ := List.range' 5 27 ++ [1, 2, 3, 4]

/-- `load_xn %n` for the registers of a list, then `sret`. -/
def loads (ns : List ℕ) : List Instr := ns.map (fun n => .ld n n) ++ [.sret]

/-- `__save_u_ctx`, after the registers. -/
def saveUTail : List Instr :=
  [.csrrw 5 .sscratch 0, .sd 5 4, .csrr 5 .sstatus, .sd 5 32, .csrr 5 .sepc, .sd 5 33,
    .mv sp tp, .mv a0 tp, .call .uTrapHandler]

/-- `__save_u_ctx`. -/
def saveUCtx : List Instr := savesFrom 0 ++ saveUTail

/-- `__stvec`, which runs on into `__save_u_ctx`. -/
def stvec : List Instr := [.csrrw tp .sscratch tp, .beqz tp] ++ saveUCtx

/-- `__restore_u_ctx`. -/
def restoreUCtx : List Instr :=
  [.csrw .sscratch tp, .ld 5 32, .csrw .sstatus 5, .ld 5 33, .csrw .sepc 5] ++ loads reloaded

/-- `__save_k_ctx`, after the registers. -/
def saveKTail : List Instr :=
  [.csrrw 5 .sscratch 0, .sd 5 4, .csrr 5 .sstatus, .sd 5 32, .csrr 5 .sepc, .sd 5 33, .sd 0 34,
    .mv sp tp, .mv a0 tp, .mv tp 0, .call .kTrapHandler]

/-- `__save_k_ctx`. -/
def saveKCtx : List Instr := [.addi tp sp (-280)] ++ savesFrom 0 ++ saveKTail

/-- `__restore_k_ctx`. -/
def restoreKCtx : List Instr :=
  [.csrw .sscratch 0, .mv tp sp, .ld 5 32, .csrw .sstatus 5, .ld 5 33, .csrw .sepc 5] ++
    loads reloaded

/-! ### The hart -/

inductive Mode
  | user
  | supervisor
  deriving DecidableEq, Repr

/-- What the hart runs: a user program, the compiled kernel, or the rest of a part of `trap.S`. -/
inductive Pc
  | user
  | kernel
  | asm (rest : List Instr)
  deriving DecidableEq, Repr

structure Hart where
  mode : Mode
  x : ℕ → ℕ
  mem : ℕ → ℕ
  sscratch : ℕ
  sstatus : ℕ
  sepc : ℕ
  pc : Pc

/-- The bits of `sstatus`. -/
def sieBit : ℕ := 1

def spieBit : ℕ := 5

def sppBit : ℕ := 8

/-- Writes one bit of a word. -/
def setBit (word bit : ℕ) (value : Bool) : ℕ :=
  if value then word ||| 2 ^ bit else andNot word (2 ^ bit)

@[simp] theorem testBit_setBit (word bit : ℕ) (value : Bool) (other : ℕ) :
    (setBit word bit value).testBit other = if other = bit then value else word.testBit other := by
  cases value with
  | true =>
    by_cases hb : other = bit
    · simp [setBit, hb]
    · simp [setBit, hb, Nat.testBit_two_pow_of_ne (Ne.symm hb)]
  | false =>
    by_cases hb : other = bit
    · simp [setBit, andNot, hb]
    · simp [setBit, andNot, hb, Nat.testBit_two_pow_of_ne (Ne.symm hb)]

/-- The word `n*8(b)`. -/
def slot (b n : ℕ) : ℕ := wrap (b + 8 * n)

/-- `size_of::<TrapContext>()`. -/
def contextSize : ℕ := 35 * 8

theorem slot_eq {b n : ℕ} (hb : b + contextSize ≤ 2 ^ 64) (hn : n < 35) : slot b n = b + 8 * n := by
  unfold slot
  apply wrap_of_lt
  unfold contextSize at hb
  omega

/-- `rs + imm` on machine words. -/
def addImm (v : ℕ) (imm : ℤ) : ℕ := ((v + imm) % 2 ^ 64).toNat

namespace Hart

def sie (h : Hart) : Bool := h.sstatus.testBit sieBit

def spp (h : Hart) : Bool := h.sstatus.testBit sppBit

/-- `x0` reads as zero. -/
def reg (h : Hart) (r : ℕ) : ℕ := if r = 0 then 0 else h.x r

def setReg (h : Hart) (r v : ℕ) : Hart := { h with x := Function.update h.x r v }

def csr (h : Hart) : Csr → ℕ
  | .sscratch => h.sscratch
  | .sstatus => h.sstatus
  | .sepc => h.sepc

def setCsr (h : Hart) (c : Csr) (v : ℕ) : Hart :=
  match c with
  | .sscratch => { h with sscratch := v }
  | .sstatus => { h with sstatus := v }
  | .sepc => { h with sepc := v }

/-- Goes on with the rest of a part. -/
def goto (h : Hart) (rest : List Instr) : Hart := { h with pc := .asm rest }

/-- A trap: `SPIE := SIE`, `SIE := 0`, `SPP := mode`, and on to `__stvec` in supervisor mode. -/
def trap (h : Hart) (epc : ℕ) : Hart :=
  { h with
    mode := .supervisor
    sstatus := setBit (setBit (setBit h.sstatus spieBit h.sie) sieBit false) sppBit
      (h.mode = .supervisor)
    sepc := epc
    pc := .asm stvec }

theorem trap_sie (h : Hart) (epc : ℕ) : (h.trap epc).sie = false := by
  show (setBit (setBit (setBit _ _ _) sieBit false) sppBit _).testBit sieBit = false
  rw [testBit_setBit, if_neg (by decide), testBit_setBit, if_pos rfl]

theorem trap_spp (h : Hart) (epc : ℕ) : (h.trap epc).spp = decide (h.mode = .supervisor) := by
  show (setBit (setBit (setBit _ _ _) sieBit false) sppBit _).testBit sppBit = _
  rw [testBit_setBit, if_pos rfl]

/-- `sret`: `SIE := SPIE`, `SPIE := 1`, `SPP := U`, and on at `sepc` in the mode of `SPP`. -/
def sret (h : Hart) : Hart :=
  { h with
    mode := if h.spp then .supervisor else .user
    sstatus := setBit (setBit (setBit h.sstatus sieBit (h.sstatus.testBit spieBit)) spieBit true)
      sppBit false
    pc := if h.spp then .kernel else .user }

end Hart

/-- What an instruction does, with `rest` after it. -/
def Instr.exec (rest : List Instr) (h : Hart) : Instr → Hart
  | .csrrw rd c rs => ((h.setCsr c (h.reg rs)).setReg rd (h.csr c)).goto rest
  | .csrr rd c => (h.setReg rd (h.csr c)).goto rest
  | .csrw c rs => (h.setCsr c (h.reg rs)).goto rest
  | .beqz rs => if h.reg rs = 0 then h.goto saveKCtx else h.goto rest
  | .sd rs n => { h with mem := Function.update h.mem (slot (h.reg tp) n) (h.reg rs) }.goto rest
  | .ld rd n => (h.setReg rd (h.mem (slot (h.reg tp) n))).goto rest
  | .addi rd rs imm => (h.setReg rd (addImm (h.reg rs) imm)).goto rest
  | .mv rd rs => (h.setReg rd (h.reg rs)).goto rest
  | .call _ => { h with pc := .kernel }
  | .sret => h.sret

end RCoreKernel.Trap.Asm
