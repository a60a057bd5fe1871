import RCoreKernel.Trap.Asm
import RCoreKernel.Trap.Handlers

/-!
# What a trap saves it restores (`os/src/trap/trap.S`)

The save and restore sequences, run as whole, and their composition with the handlers and with the
page faults that the kernel takes while a handler runs.

* `Hart.run` — instructions of `trap.S`, one after another;
* `enterU_spec`, `leaveU_spec`, `enterK_spec`, `leaveK_spec` — the four sequences;
* `KernelRun` — compiled kernel code, with any number of page faults in it;
* `trap_roundTrip` — **a trap returns with every register the handler did not assign**, and so does
  each page fault inside it.
-/

namespace RCoreKernel.Trap.Asm

open Mm

/-! ### Runs of instructions -/

/-- The next instruction, while the hart is in `trap.S`. -/
def Hart.exec (h : Hart) : Hart :=
  match h.pc with
  | .asm (ins :: rest) => ins.exec rest h
  | _ => h

def Hart.run : ℕ → Hart → Hart
  | 0, h => h
  | n + 1, h => (Hart.run n h).exec

theorem Hart.run_add (m n : ℕ) (h : Hart) : h.run (m + n) = (h.run m).run n := by
  induction n with
  | zero => rfl
  | succ n ih =>
    show (h.run (m + n)).exec = ((h.run m).run n).exec
    rw [ih]

/-- The memory after `save_xn` for the registers below `m`. -/
def storeRegs (h : Hart) (c : ℕ) : ℕ → ℕ → ℕ
  | 0 => h.mem
  | m + 1 => Function.update (storeRegs h c m) (slot c m) (h.reg m)

/-- The registers after `load_xn` for the registers of a list. -/
def loadRegs (mem : ℕ → ℕ) (c : ℕ) : List ℕ → (ℕ → ℕ) → ℕ → ℕ
  | [], x => x
  | n :: ns, x => loadRegs mem c ns (Function.update x n (mem (slot c n)))

theorem run_saves (h : Hart) (tail : List Instr) {m : ℕ} (hm : m ≤ 32) :
    (h.goto (savesFrom 0 ++ tail)).run m =
      ({ h with mem := storeRegs h (h.x tp) m }).goto (savesFrom m ++ tail) := by
  induction m with
  | zero => rfl
  | succ m ih =>
    show ((h.goto (savesFrom 0 ++ tail)).run m).exec = _
    rw [ih (by omega), savesFrom_of_lt (by omega)]
    rfl

theorem run_loads (ns : List ℕ) (tail : List Instr) (hns : tp ∉ ns) (h : Hart) :
    (h.goto (ns.map (fun n => .ld n n) ++ tail)).run ns.length =
      ({ h with x := loadRegs h.mem (h.x tp) ns h.x }).goto tail := by
  induction ns generalizing h with
  | nil => rfl
  | cons n ns ih =>
    obtain ⟨hn, hrest⟩ := List.ne_and_not_mem_of_not_mem_cons hns
    rw [List.length_cons, Nat.add_comm, Hart.run_add]
    show ((h.setReg n (h.mem (slot (h.x tp) n))).goto _).run ns.length = _
    refine (ih hrest _).trans ?_
    have htp : (h.setReg n (h.mem (slot (h.x tp) n))).x tp = h.x tp := Function.update_of_ne hn _ _
    rw [htp]
    rfl

/-! ### Contexts in memory -/

/-- A context at `c` lies in memory. -/
def Fits (c : ℕ) : Prop := c + contextSize ≤ 2 ^ 64

theorem slot_inj {c m n : ℕ} (hc : Fits c) (hm : m < 35) (hn : n < 35) :
    slot c m = slot c n ↔ m = n := by
  rw [slot_eq hc hm, slot_eq hc hn]
  omega

theorem storeRegs_slot (h : Hart) {c m n : ℕ} (hc : Fits c) (hn : n < m) (hm : m ≤ 32) :
    storeRegs h c m (slot c n) = h.reg n := by
  induction m with
  | zero => omega
  | succ m ih =>
    unfold storeRegs
    rcases Nat.lt_succ_iff_lt_or_eq.mp hn with hlt | rfl
    · rw [Function.update_of_ne, ih hlt (by omega)]
      rw [Ne, slot_inj hc (by omega) (by omega)]
      omega
    · exact Function.update_self _ _ _

theorem storeRegs_of_ne (h : Hart) {c m a : ℕ} (ha : ∀ n < m, a ≠ slot c n) :
    storeRegs h c m a = h.mem a := by
  induction m with
  | zero => rfl
  | succ m ih =>
    unfold storeRegs
    rw [Function.update_of_ne (ha m (by omega))]
    exact ih fun n hn => ha n (by omega)

theorem loadRegs_of_not_mem {mem : ℕ → ℕ} {c r : ℕ} {ns : List ℕ} (hr : r ∉ ns) (x : ℕ → ℕ) :
    loadRegs mem c ns x r = x r := by
  induction ns generalizing x with
  | nil => rfl
  | cons n ns ih =>
    obtain ⟨hn, hrest⟩ := List.ne_and_not_mem_of_not_mem_cons hr
    unfold loadRegs
    rw [ih hrest, Function.update_of_ne hn]

theorem loadRegs_of_mem {mem : ℕ → ℕ} {c r : ℕ} {ns : List ℕ} (hr : r ∈ ns) (x : ℕ → ℕ) :
    loadRegs mem c ns x r = mem (slot c r) := by
  induction ns generalizing x with
  | nil => cases hr
  | cons n ns ih =>
    unfold loadRegs
    by_cases hmem : r ∈ ns
    · exact ih hmem _
    · obtain rfl : r = n := by
        rcases List.mem_cons.mp hr with heq | hin
        · exact heq
        · exact absurd hin hmem
      rw [loadRegs_of_not_mem hmem, Function.update_self]

/-! ### The four sequences -/

/-- From a trap in user mode to the call of `u_trap_handler`. -/
def enterU (h : Hart) (epc : ℕ) : Hart := (h.trap epc).run 43

/-- From the return of `u_trap_handler`, or a switch to the task, to user mode. -/
def leaveU (h : Hart) : Hart := (h.goto restoreUCtx).run 37

/-- From a trap in the kernel to the call of `k_trap_handler`. -/
def enterK (h : Hart) (epc : ℕ) : Hart := (h.trap epc).run 46

/-- From the return of `k_trap_handler` to the code that took the trap. -/
def leaveK (h : Hart) : Hart := (h.goto restoreKCtx).run 38

/-- The memory after the stores of the registers, of the old `tp`, `sstatus` and `sepc`. -/
def savedMem (h : Hart) (c oldTp : ℕ) : ℕ → ℕ :=
  Function.update (Function.update (Function.update (storeRegs h c 32) (slot c 4) oldTp) (slot c 32)
    h.sstatus) (slot c 33) h.sepc

/-- A context at `c` holds the state of a hart that trapped at `epc`. -/
structure Holds (mem : ℕ → ℕ) (c : ℕ) (h : Hart) (epc : ℕ) : Prop where
  regs : ∀ n, 0 < n → n < 32 → mem (slot c n) = h.x n
  status : mem (slot c 32) = (h.trap epc).sstatus
  sepc : mem (slot c 33) = epc

theorem savedMem_holds {h mid : Hart} {c epc : ℕ} (hc : Fits c)
    (hx : ∀ n, n ≠ 0 → n ≠ 4 → mid.x n = h.x n) (hstatus : mid.sstatus = (h.trap epc).sstatus)
    (hsepc : mid.sepc = epc) : Holds (savedMem mid c (h.x 4)) c h epc := by
  constructor
  · intro n hpos hlt
    unfold savedMem
    rw [Function.update_of_ne (by rw [Ne, slot_inj hc (by omega) (by omega)]; omega),
      Function.update_of_ne (by rw [Ne, slot_inj hc (by omega) (by omega)]; omega)]
    by_cases h4 : n = 4
    · subst h4
      exact Function.update_self _ _ _
    · rw [Function.update_of_ne (by rwa [Ne, slot_inj hc (by omega) (by omega)]),
        storeRegs_slot mid hc hlt le_rfl, Hart.reg, if_neg (by omega)]
      exact hx n (by omega) h4
  · unfold savedMem
    rw [Function.update_of_ne (by rw [Ne, slot_inj hc (by omega) (by omega)]; omega),
      Function.update_self]
    exact hstatus
  · unfold savedMem
    rw [Function.update_self]
    exact hsepc

theorem savedMem_of_ne (h : Hart) {c a : ℕ} (oldTp : ℕ) (ha : ∀ n < 34, a ≠ slot c n) :
    savedMem h c oldTp a = h.mem a := by
  unfold savedMem
  rw [Function.update_of_ne (ha 33 (by norm_num)), Function.update_of_ne (ha 32 (by norm_num)),
    Function.update_of_ne (ha 4 (by norm_num))]
  exact storeRegs_of_ne h fun n hn => ha n (by omega)

/-- The hart when a handler is called, with the context at `c` and `tp` in the register. -/
structure Entered (g : Hart) (c tpValue : ℕ) : Prop where
  pc : g.pc = .kernel
  mode : g.mode = .supervisor
  sscratch : g.sscratch = 0
  tp : g.x tp = tpValue
  sp : g.x sp = c

/-- `__stvec` and `__save_u_ctx`. -/
theorem enterU_spec {h : Hart} {c : ℕ} (epc : ℕ) (hs : h.sscratch = c) (hc : c ≠ 0)
    (hfits : Fits c) :
    Entered (enterU h epc) c c ∧ Holds (enterU h epc).mem c h epc ∧
      ∀ a, (∀ n < 34, a ≠ slot c n) → (enterU h epc).mem a = h.mem a := by
  subst hs
  -- after the exchange of `tp` and `sscratch`
  let mid : Hart :=
    { h.trap epc with x := Function.update h.x 4 h.sscratch, sscratch := h.x 4 }
  have hbranch : (h.trap epc).run 2 = mid.goto saveUCtx := by
    show Instr.exec saveUCtx (mid.goto (.beqz tp :: saveUCtx)) (.beqz tp) = _
    exact if_neg hc
  have hsaves := run_saves mid saveUTail (le_refl 32)
  have htail : (({ mid with mem := storeRegs mid h.sscratch 32 } : Hart).goto saveUTail).run 9 =
      enterU h epc := by
    unfold enterU
    rw [show 43 = 2 + (32 + 9) from rfl, Hart.run_add, hbranch, Hart.run_add]
    exact congrArg _ hsaves.symm
  have hmem : (enterU h epc).mem = savedMem mid h.sscratch (h.x 4) := by
    rw [← htail]
    rfl
  have hx : ∀ n, n ≠ 0 → n ≠ 4 → mid.x n = h.x n := fun n _ h4 => Function.update_of_ne h4 _ _
  refine ⟨?_, ?_, ?_⟩
  · rw [← htail]
    exact ⟨rfl, rfl, rfl, rfl, rfl⟩
  · rw [hmem]
    exact savedMem_holds hfits hx rfl rfl
  · intro a ha
    rw [hmem]
    exact savedMem_of_ne mid _ ha

/-- `__stvec` and `__save_k_ctx`. -/
theorem enterK_spec {h : Hart} {b : ℕ} (epc : ℕ) (hs : h.sscratch = 0)
    (hb : addImm (h.x sp) (-280) = b) (hfits : Fits b) :
    Entered (enterK h epc) b 0 ∧ Holds (enterK h epc).mem b h epc ∧
      ∀ a, (∀ n < 35, a ≠ slot b n) → (enterK h epc).mem a = h.mem a := by
  subst hb
  -- after the exchange, the branch and the move of `tp` below `sp`
  let b := addImm (h.x sp) (-280)
  let mid : Hart :=
    { h.trap epc with x := Function.update (Function.update h.x 4 0) 4 b, sscratch := h.x 4 }
  have hbranch : (h.trap epc).run 3 = mid.goto (savesFrom 0 ++ saveKTail) := by
    have htwo : (h.trap epc).run 2 =
        ({ h.trap epc with x := Function.update h.x 4 h.sscratch, sscratch := h.x 4 } : Hart).goto
          saveKCtx := by
      exact if_pos hs
    rw [show 3 = 2 + 1 from rfl, Hart.run_add, htwo, hs]
    rfl
  have hsaves := run_saves mid saveKTail (le_refl 32)
  have htail : (({ mid with mem := storeRegs mid b 32 } : Hart).goto saveKTail).run 11 =
      enterK h epc := by
    unfold enterK
    rw [show 46 = 3 + (32 + 11) from rfl, Hart.run_add, hbranch, Hart.run_add]
    exact congrArg _ hsaves.symm
  have hmem : (enterK h epc).mem = Function.update (savedMem mid b (h.x 4)) (slot b 34) 0 := by
    rw [← htail]
    rfl
  have hx : ∀ n, n ≠ 0 → n ≠ 4 → mid.x n = h.x n := by
    intro n _ h4
    rw [show mid.x n = Function.update (Function.update h.x 4 0) 4 b n from rfl,
      Function.update_of_ne h4, Function.update_of_ne h4]
  have hheld : Holds (savedMem mid b (h.x 4)) b h epc := savedMem_holds hfits hx rfl rfl
  have h34 : ∀ n < 34, Function.update (savedMem mid b (h.x 4)) (slot b 34) 0 (slot b n) =
      savedMem mid b (h.x 4) (slot b n) := by
    intro n hn
    apply Function.update_of_ne
    rw [Ne, slot_inj hfits (by omega) (by norm_num)]
    omega
  refine ⟨?_, ?_, ?_⟩
  · rw [← htail]
    exact ⟨rfl, rfl, rfl, rfl, rfl⟩
  · rw [hmem]
    constructor
    · intro n hpos hlt
      rw [h34 n (by omega)]
      exact hheld.regs n hpos hlt
    · rw [h34 32 (by norm_num)]
      exact hheld.status
    · rw [h34 33 (by norm_num)]
      exact hheld.sepc
  · intro a ha
    rw [hmem, Function.update_of_ne (ha 34 (by norm_num))]
    exact savedMem_of_ne mid _ fun n hn => ha n (by omega)

/-- The registers that are reloaded before `tp`. -/
def beforeTp : List ℕ := List.range' 5 27 ++ [1, 2, 3]

/-- The registers after the reloads from a context at `c`. -/
def reloadedRegs (h : Hart) (c : ℕ) : ℕ → ℕ :=
  Function.update (loadRegs h.mem c beforeTp h.x) 4 (h.mem (slot c 4))

/-- The reloads leave the base register to the end. -/
theorem run_reload (h : Hart) :
    (h.goto (loads reloaded)).run 31 =
      ({ h with x := reloadedRegs h (h.x tp) } : Hart).goto [.sret] := by
  have hloads := run_loads beforeTp [.ld 4 4, .sret] (by decide) h
  have htp : loadRegs h.mem (h.x tp) beforeTp h.x tp = h.x tp := loadRegs_of_not_mem (by decide) _
  rw [show 31 = beforeTp.length + 1 from rfl, Hart.run_add]
  refine (congrArg (Hart.run 1) hloads).trans ?_
  show ((({ h with x := loadRegs h.mem (h.x tp) beforeTp h.x } : Hart).setReg 4
    (h.mem (slot (loadRegs h.mem (h.x tp) beforeTp h.x tp) 4))).goto [.sret]) = _
  rw [htp]
  rfl

theorem reloadedRegs_eq (h : Hart) (c : ℕ) {n : ℕ} (hpos : 0 < n) (hlt : n < 32) :
    reloadedRegs h c n = h.mem (slot c n) := by
  unfold reloadedRegs
  by_cases h4 : n = 4
  · subst h4
    exact Function.update_self _ _ _
  · rw [Function.update_of_ne h4]
    apply loadRegs_of_mem
    simp only [beforeTp, List.mem_append, List.mem_range'_1, List.mem_cons, List.not_mem_nil,
      or_false]
    omega

/-- The hart `g'` before `sret`, restored from the context at `c` in the memory of `g`. -/
structure Restored (g' g : Hart) (c : ℕ) : Prop where
  pc : g'.pc = .asm [.sret]
  status : g'.sstatus = g.mem (slot c 32)
  sepc : g'.sepc = g.mem (slot c 33)
  regs : ∀ n, 0 < n → n < 32 → g'.x n = g.mem (slot c n)
  mem : g'.mem = g.mem

/-- `__restore_u_ctx`, up to `sret`. -/
theorem leaveU_spec (g : Hart) {c : ℕ} (htp : g.x tp = c) :
    ∃ g', leaveU g = g'.sret ∧ Restored g' g c ∧ g'.sscratch = c := by
  subst htp
  let mid : Hart :=
    { g with
      sscratch := g.x tp
      sstatus := g.mem (slot (g.x tp) 32)
      sepc := g.mem (slot (g.x tp) 33)
      x := Function.update (Function.update g.x 5 (g.mem (slot (g.x tp) 32))) 5
        (g.mem (slot (g.x tp) 33)) }
  have hhead : (g.goto restoreUCtx).run 5 = mid.goto (loads reloaded) := rfl
  refine ⟨({ mid with x := reloadedRegs mid (mid.x tp) } : Hart).goto [.sret], ?_, ?_, rfl⟩
  · unfold leaveU
    rw [show 37 = 5 + (31 + 1) from rfl, Hart.run_add, hhead, Hart.run_add, run_reload]
    rfl
  · exact ⟨rfl, rfl, rfl, fun n hpos hlt => reloadedRegs_eq mid _ hpos hlt, rfl⟩

/-- `__restore_k_ctx`, up to `sret`. -/
theorem leaveK_spec (g : Hart) {b : ℕ} (hsp : g.x sp = b) :
    ∃ g', leaveK g = g'.sret ∧ Restored g' g b ∧ g'.sscratch = 0 := by
  subst hsp
  let mid : Hart :=
    { g with
      sscratch := 0
      sstatus := g.mem (slot (g.x sp) 32)
      sepc := g.mem (slot (g.x sp) 33)
      x := Function.update (Function.update (Function.update g.x 4 (g.x sp)) 5
        (g.mem (slot (g.x sp) 32))) 5 (g.mem (slot (g.x sp) 33)) }
  have hhead : (g.goto restoreKCtx).run 6 = mid.goto (loads reloaded) := rfl
  refine ⟨({ mid with x := reloadedRegs mid (mid.x tp) } : Hart).goto [.sret], ?_, ?_, rfl⟩
  · unfold leaveK
    rw [show 38 = 6 + (31 + 1) from rfl, Hart.run_add, hhead, Hart.run_add, run_reload]
    rfl
  · exact ⟨rfl, rfl, rfl, fun n hpos hlt => reloadedRegs_eq mid _ hpos hlt, rfl⟩

/-! ### Compiled kernel code and the page faults in it -/

/-- The words of a context, but for the slots that a handler assigns. -/
def keptWords (c : ℕ) (assigned : List ℕ) : Set ℕ := {a | ∃ n < 35, n ∉ assigned ∧ a = slot c n}

/-- There is room for the context `b` of a kernel trap below `sp`, which is at or below `base`. -/
structure Room (base : ℕ) (g : Hart) (b : ℕ) : Prop where
  below : g.x sp ≤ base
  frame : b + contextSize = g.x sp

/-- `k_trap_handler` returns and leaves `sepc'` in the `sepc` field of the context. -/
def Returns (ua : UAccess) (g : Hart) (epc sepc' : ℕ) : Prop :=
  ∃ mc mc' scause stval, kTrapHandler ua mc (g.x tp) scause epc stval = .ok (sepc', mc')

/-- Compiled kernel code from `h` on, called with its context at `base`: it keeps `tp` and the words
of `kept`, and any number of page faults are taken in it. -/
inductive KernelRun (ua : UAccess) : ℕ → Set ℕ → Hart → Hart → Prop
  | start (base : ℕ) (kept : Set ℕ) (h : Hart) : KernelRun ua base kept h h
  | code {base : ℕ} {kept : Set ℕ} {h g : Hart} (hrun : KernelRun ua base kept h g)
      (x mem : ℕ → ℕ) (sstatus : ℕ) (htp : x tp = g.x tp) (hmem : ∀ a ∈ kept, mem a = g.mem a) :
      KernelRun ua base kept h { g with x := x, mem := mem, sstatus := sstatus }
  /-- A page fault: the handler runs below, and returns with the same `sp`. -/
  | fault {base : ℕ} {kept : Set ℕ} {h g g' : Hart} {b epc : ℕ}
      (hrun : KernelRun ua base kept h g) (hroom : Room base g b)
      (hbody : KernelRun ua b (kept ∪ keptWords b [33]) (enterK g epc) g') (hsp : g'.x sp = b)
      (hret : Returns ua g epc (g'.mem (slot b 33))) : KernelRun ua base kept h (leaveK g')

/-- The hart runs compiled kernel code. -/
structure Running (g : Hart) : Prop where
  pc : g.pc = .kernel
  mode : g.mode = .supervisor
  sscratch : g.sscratch = 0

/-- `k_trap_handler` returns only from a fault of `__uaccess`, with `sepc` as it was or at the
fix-up. -/
theorem Returns.sepc {ua : UAccess} {g : Hart} {epc sepc' : ℕ} (hret : Returns ua g epc sepc') :
    (epc = ua.lb ∨ epc = ua.sb) ∧ g.x tp ≠ 0 ∧ (sepc' = epc ∨ sepc' = ua.fix) := by
  obtain ⟨mc, mc', scause, stval, hok⟩ := hret
  have hfault : ∀ perm, kPageFault mc ua (g.x tp) epc stval perm = .ok (sepc', mc') →
      sepc' = epc ∨ sepc' = ua.fix := by
    intro perm hok
    unfold kPageFault at hok
    split at hok
    · cases hok
    · cases hok
      exact Or.inl rfl
    · cases hok
      exact Or.inr rfl
  unfold kTrapHandler at hok
  split at hok
  · split at hok
    · rename_i htaken
      exact ⟨Or.inl htaken.2, htaken.1, hfault _ hok⟩
    · cases hok
  · split at hok
    · rename_i htaken
      exact ⟨Or.inr htaken.2, htaken.1, hfault _ hok⟩
    · cases hok
  · cases hok

theorem addImm_frame {v b : ℕ} (hv : v < 2 ^ 64) (hb : b + contextSize = v) :
    addImm v (-280) = b := by
  unfold addImm
  unfold contextSize at hb
  omega

/-- What the code that took a page fault finds when it goes on. -/
structure Resumed (g2 g : Hart) (kept : Set ℕ) (sepc' : ℕ) : Prop where
  running : Running g2
  regs : ∀ n, 0 < n → n < 32 → g2.x n = g.x n
  kept : ∀ a ∈ kept, g2.mem a = g.mem a
  sepc : g2.sepc = sepc'

variable {ua : UAccess} {base : ℕ} {kept : Set ℕ}

/-- The context of a kernel trap lies below everything that is kept. -/
theorem Room.apart {g : Hart} {b : ℕ} (hroom : Room base g b) (hbase : base < 2 ^ 64)
    (hkept : ∀ a ∈ kept, base ≤ a) : Fits b ∧ ∀ a ∈ kept, ∀ n < 35, a ≠ slot b n := by
  have hframe := hroom.frame
  have hbelow := hroom.below
  have hfits : Fits b := by
    unfold Fits
    omega
  refine ⟨hfits, fun a ha n hn => ?_⟩
  have := hkept a ha
  rw [slot_eq hfits hn]
  unfold contextSize at hframe
  omega

/-- The call of `k_trap_handler`. -/
theorem Room.entered {g : Hart} {b : ℕ} (hroom : Room base g b) (hbase : base < 2 ^ 64)
    (hkept : ∀ a ∈ kept, base ≤ a) (hg : Running g) (epc : ℕ) :
    Running (enterK g epc) ∧ Holds (enterK g epc).mem b g epc ∧
      ∀ a ∈ kept, (enterK g epc).mem a = g.mem a := by
  obtain ⟨hfits, hapart⟩ := hroom.apart hbase hkept
  have hsp : g.x sp < 2 ^ 64 := lt_of_le_of_lt hroom.below hbase
  obtain ⟨hin, hheld, hframe⟩ := enterK_spec epc hg.sscratch (addImm_frame hsp hroom.frame) hfits
  exact ⟨⟨hin.pc, hin.mode, hin.sscratch⟩, hheld, fun a ha => hframe a (hapart a ha)⟩

/-- A page fault goes on with the registers it was taken with, when the handler kept its context. -/
theorem Room.resumed {g g' : Hart} {b epc : ℕ} (hroom : Room base g b) (hbase : base < 2 ^ 64)
    (hkept : ∀ a ∈ kept, base ≤ a) (hg : Running g)
    (hbody : ∀ a ∈ kept ∪ keptWords b [33], g'.mem a = (enterK g epc).mem a)
    (hsp : g'.x sp = b) : Resumed (leaveK g') g kept (g'.mem (slot b 33)) := by
  obtain ⟨-, hheld, hframe⟩ := hroom.entered hbase hkept hg epc
  have hslot : ∀ n < 35, n ≠ 33 → g'.mem (slot b n) = (enterK g epc).mem (slot b n) := by
    intro n hn hne
    exact hbody _ (Or.inr ⟨n, hn, by simpa using hne, rfl⟩)
  obtain ⟨r, hleave, hrestored, hscratch⟩ := leaveK_spec g' hsp
  have hspp : r.spp = true := by
    show r.sstatus.testBit sppBit = true
    rw [hrestored.status, hslot 32 (by norm_num) (by norm_num), hheld.status]
    show (g.trap epc).spp = true
    rw [Hart.trap_spp, hg.mode]
    rfl
  rw [hleave]
  constructor
  · exact ⟨if_pos hspp, if_pos hspp, hscratch⟩
  · intro n hpos hlt
    show r.x n = g.x n
    rw [hrestored.regs n hpos hlt, hslot n (by omega) (by omega)]
    exact hheld.regs n hpos hlt
  · intro a ha
    show r.mem a = g.mem a
    rw [hrestored.mem, hbody a (Or.inl ha)]
    exact hframe a ha
  · exact hrestored.sepc

theorem keptWords_ge {c : ℕ} (hc : Fits c) (assigned : List ℕ) :
    ∀ a ∈ keptWords c assigned, c ≤ a := by
  rintro a ⟨n, hn, -, rfl⟩
  rw [slot_eq hc hn]
  omega

/-- The handler of a page fault has its context below everything it must keep. -/
theorem Room.inner {g : Hart} {b : ℕ} (hroom : Room base g b) (hbase : base < 2 ^ 64)
    (hkept : ∀ a ∈ kept, base ≤ a) :
    b < 2 ^ 64 ∧ ∀ a ∈ kept ∪ keptWords b [33], b ≤ a := by
  obtain ⟨hfits, -⟩ := hroom.apart hbase hkept
  have hbelow := hroom.below
  have hframe := hroom.frame
  unfold contextSize at hframe
  refine ⟨by omega, fun a ha => ?_⟩
  rcases ha with ha | ha
  · have := hkept a ha
    omega
  · exact keptWords_ge hfits _ a ha

/-- **Compiled kernel code with page faults in it** stays in supervisor mode with `sscratch` zero and
keeps `tp` and the words it must keep. -/
theorem KernelRun.spec {h g : Hart} (hrun : KernelRun ua base kept h g) (hbase : base < 2 ^ 64)
    (hkept : ∀ a ∈ kept, base ≤ a) (hh : Running h) :
    Running g ∧ g.x tp = h.x tp ∧ ∀ a ∈ kept, g.mem a = h.mem a := by
  induction hrun with
  | start => exact ⟨hh, rfl, fun _ _ => rfl⟩
  | code hrun x mem sstatus htp hmem ih =>
    obtain ⟨hg, htp', hmem'⟩ := ih hbase hkept hh
    exact ⟨⟨hg.pc, hg.mode, hg.sscratch⟩, htp.trans htp', fun a ha => (hmem a ha).trans (hmem' a ha)⟩
  | fault hrun hroom hbody hsp hret ih ihbody =>
    obtain ⟨hg, htp, hmem⟩ := ih hbase hkept hh
    obtain ⟨hin, -, -⟩ := hroom.entered hbase hkept hg _
    obtain ⟨hb, hkept'⟩ := hroom.inner hbase hkept
    obtain ⟨-, -, hbody'⟩ := ihbody hb hkept' hin
    have hres := hroom.resumed hbase hkept hg hbody' hsp
    refine ⟨hres.running, ?_, fun a ha => (hres.kept a ha).trans (hmem a ha)⟩
    rw [hres.regs tp (by decide) (by decide)]
    exact htp

/-! ### The round trip -/

/-- The slots of the context that `u_trap_handler` assigns: `x10` and `sepc` for an `ecall`. -/
def assigned (ecall : Bool) : List ℕ := if ecall then [10, 33] else []

/-- What a page fault inside the handling of a user trap does, for a handler run `g'`: `sscratch` is
zero, the task id is kept, and when the handler returns, the code that took the fault goes on with
its registers, where it was or at the fix-up. -/
structure FaultKept (ua : UAccess) (h g g' : Hart) (c b epc : ℕ) : Prop where
  sscratch : g'.sscratch = 0
  taskId : g'.mem (slot c 34) = h.mem (slot c 34)
  resumes : g'.x sp = b → Returns ua g epc (g'.mem (slot b 33)) →
    Running (leaveK g') ∧ (∀ n, 0 < n → n < 32 → (leaveK g').x n = g.x n) ∧
      ((leaveK g').sepc = epc ∨ (leaveK g').sepc = ua.fix)

/-- What the user program finds when it goes on, after a handler that ended at `g`. -/
structure Returned (h h' g : Hart) (c epc : ℕ) (ecall : Bool) : Prop where
  pc : h'.pc = .user
  mode : h'.mode = .user
  sscratch : h'.sscratch = c
  /-- the registers and `sepc` are those of the context -/
  stored : ∀ n, 0 < n → n < 32 → h'.x n = g.mem (slot c n)
  storedPc : h'.sepc = g.mem (slot c 33)
  /-- `sstatus` is written back before `sret`, as it was after the trap -/
  status : ∃ r : Hart, h' = r.sret ∧ r.sstatus = g.mem (slot c 32) ∧
    g.mem (slot c 32) = (h.trap epc).sstatus
  /-- what the handler did not assign is unchanged -/
  regs : ∀ n, 0 < n → n < 32 → n ∉ assigned ecall → h'.x n = h.x n
  sepc : 33 ∉ assigned ecall → h'.sepc = epc
  taskId : h'.mem (slot c 34) = h.mem (slot c 34)

theorem not_mem_assigned {n : ℕ} (h10 : n ≠ 10) (h33 : n ≠ 33) (ecall : Bool) :
    n ∉ assigned ecall := by
  cases ecall <;> simp [assigned, h10, h33]

/-- **A trap from user mode returns what it saved**, whatever the handler does and however many page
faults it takes. -/
theorem trap_roundTrip {h g : Hart} {c : ℕ} (hmode : h.mode = .user) (hs : h.sscratch = c)
    (hc : c ≠ 0) (hfits : Fits c) (epc : ℕ) (ecall : Bool)
    (hrun : KernelRun ua c (keptWords c (assigned ecall)) (enterU h epc) g) :
    Running g ∧ g.mem (slot c 34) = h.mem (slot c 34) ∧
      (∀ g' b epc', Room c g b →
        KernelRun ua b (keptWords c (assigned ecall) ∪ keptWords b [33]) (enterK g epc') g' →
        FaultKept ua h g g' c b epc') ∧
      Returned h (leaveU g) g c epc ecall := by
  obtain ⟨hin, hheld, hframe⟩ := enterU_spec epc hs hc hfits
  have hbase : c < 2 ^ 64 := by
    unfold Fits contextSize at hfits
    omega
  have hkept := keptWords_ge hfits (assigned ecall)
  obtain ⟨hg, htp, hmem⟩ := hrun.spec hbase hkept ⟨hin.pc, hin.mode, hin.sscratch⟩
  have hslot : ∀ n < 35, n ∉ assigned ecall → g.mem (slot c n) = (enterU h epc).mem (slot c n) :=
    fun n hn hna => hmem _ ⟨n, hn, hna, rfl⟩
  have hid : slot c 34 ∈ keptWords c (assigned ecall) :=
    ⟨34, by norm_num, not_mem_assigned (by norm_num) (by norm_num) ecall, rfl⟩
  have htask : g.mem (slot c 34) = h.mem (slot c 34) := by
    rw [hmem _ hid]
    apply hframe
    intro n hn
    rw [Ne, slot_inj hfits (by norm_num) (by omega)]
    omega
  refine ⟨hg, htask, ?_, ?_⟩
  · intro g' b epc' hroom hbody
    obtain ⟨hin', -, hkeptIn⟩ := hroom.entered hbase hkept hg epc'
    obtain ⟨hb, hkept'⟩ := hroom.inner hbase hkept
    obtain ⟨hg', -, hbody'⟩ := hbody.spec hb hkept' hin'
    constructor
    · exact hg'.sscratch
    · rw [hbody' _ (Or.inl hid), hkeptIn _ hid, htask]
    · intro hsp hret
      have hres := hroom.resumed hbase hkept hg hbody' hsp
      refine ⟨hres.running, hres.regs, ?_⟩
      rw [hres.sepc]
      exact hret.sepc.2.2
  · obtain ⟨r, hleave, hrestored, hscratch⟩ := leaveU_spec g (htp.trans hin.tp)
    have hstatus : g.mem (slot c 32) = (h.trap epc).sstatus := by
      rw [hslot 32 (by norm_num) (not_mem_assigned (by norm_num) (by norm_num) ecall)]
      exact hheld.status
    have hspp : ¬ r.spp = true := by
      have hfrom : r.spp = (h.trap epc).spp := by
        show r.sstatus.testBit sppBit = (h.trap epc).sstatus.testBit sppBit
        rw [hrestored.status, hstatus]
      rw [hfrom, Hart.trap_spp, hmode]
      decide
    rw [hleave]
    constructor
    · exact if_neg hspp
    · exact if_neg hspp
    · exact hscratch
    · exact hrestored.regs
    · exact hrestored.sepc
    · exact ⟨r, rfl, hrestored.status, hstatus⟩
    · intro n hpos hlt hna
      show r.x n = h.x n
      rw [hrestored.regs n hpos hlt, hslot n (by omega) hna]
      exact hheld.regs n hpos hlt
    · intro hna
      show r.sepc = epc
      rw [hrestored.sepc, hslot 33 (by norm_num) hna]
      exact hheld.sepc
    · show r.mem (slot c 34) = h.mem (slot c 34)
      rw [hrestored.mem]
      exact htask

/-- A user program with its context at `0x2000`. -/
def sampleHart : Hart := ⟨.user, fun n => n + 1, fun _ => 7, 8192, 0, 0, .user⟩

/-- An `ecall` whose handler first stores to a user page that no area holds: the page fault is taken
with its context below `sp` and resumed at the fix-up.  Then the handler assigns `x10`. -/
theorem trap_roundTrip_ecall :
    ∃ g' g, Room 8192 (enterU sampleHart 64) 7912 ∧
      KernelRun ⟨0, 4, 8⟩ 7912 (keptWords 8192 (assigned true) ∪ keptWords 7912 [33])
        (enterK (enterU sampleHart 64) 4) g' ∧
      Returns ⟨0, 4, 8⟩ (enterU sampleHart 64) 4 (g'.mem (slot 7912 33)) ∧ (leaveK g').sepc = 8 ∧
      KernelRun ⟨0, 4, 8⟩ 8192 (keptWords 8192 (assigned true)) (enterU sampleHart 64) g ∧
      g.mem (slot 8192 10) = 0 ∧ Returned sampleHart (leaveU g) g 8192 64 true := by
  have hfits : Fits 8192 := by unfold Fits; decide
  obtain ⟨hin, -, -⟩ := @enterU_spec sampleHart 8192 64 rfl (by decide) hfits
  obtain ⟨h₀, hh₀⟩ : ∃ h₀, enterU sampleHart 64 = h₀ := ⟨_, rfl⟩
  rw [hh₀] at hin
  have hkept := keptWords_ge hfits (assigned true)
  have hroom : Room 8192 h₀ 7912 := ⟨hin.sp.le, hin.sp.symm⟩
  obtain ⟨hfits', hapart⟩ := hroom.apart (by decide) hkept
  have hsp : addImm (h₀.x sp) (-280) = 7912 := addImm_frame (by rw [hin.sp]; decide) hroom.frame
  obtain ⟨hin', -, -⟩ := enterK_spec 4 hin.sscratch hsp hfits'
  -- the handler of the fault: it moves `sepc` to the fix-up
  have hword : ∀ a ∈ keptWords 8192 (assigned true) ∪ keptWords 7912 [33],
      Function.update (enterK h₀ 4).mem (slot 7912 33) 8 a = (enterK h₀ 4).mem a := by
    rintro a (ha | ⟨n, hn, hna, rfl⟩)
    · exact Function.update_of_ne (hapart a ha 33 (by decide)) _ _
    · apply Function.update_of_ne
      rw [Ne, slot_inj hfits' hn (by norm_num)]
      rintro rfl
      exact hna (by decide)
  obtain ⟨g', hg'⟩ : ∃ g' : Hart, { enterK h₀ 4 with
      mem := Function.update (enterK h₀ 4).mem (slot 7912 33) 8 } = g' := ⟨_, rfl⟩
  have hfix : g'.mem (slot 7912 33) = 8 := by
    rw [← hg']
    exact Function.update_self (slot 7912 33) 8 (enterK h₀ 4).mem
  have hsp' : g'.x sp = 7912 := by
    rw [← hg']
    exact hin'.sp
  have hbody : KernelRun ⟨0, 4, 8⟩ 7912 (keptWords 8192 (assigned true) ∪ keptWords 7912 [33])
      (enterK h₀ 4) g' := by
    rw [← hg']
    exact (KernelRun.start ..).code (enterK h₀ 4).x _ (enterK h₀ 4).sstatus rfl hword
  have hret : Returns ⟨0, 4, 8⟩ h₀ 4 (g'.mem (slot 7912 33)) := by
    obtain ⟨mc', hhandler⟩ :
        ∃ mc', kTrapHandler ⟨0, 4, 8⟩ sampleMachine 8192 15 4 0x20008 = .ok (8, mc') := ⟨_, rfl⟩
    rw [hfix]
    exact ⟨sampleMachine, mc', 15, 0x20008, by rw [hin.tp]; exact hhandler⟩
  have hres : Resumed (leaveK g') h₀ (keptWords 8192 (assigned true)) (g'.mem (slot 7912 33)) :=
    hroom.resumed (by decide) hkept ⟨hin.pc, hin.mode, hin.sscratch⟩ (by rw [← hg']; exact hword)
      hsp'
  have hrun := (((@KernelRun.start ⟨0, 4, 8⟩ 8192 (keptWords 8192 (assigned true)) h₀).fault hroom
    hbody hsp' hret).code (leaveK g').x (Function.update (leaveK g').mem (slot 8192 10) 0) 0 rfl (by
        rintro a ⟨n, hn, hna, rfl⟩
        apply Function.update_of_ne
        rw [Ne, slot_inj hfits hn (by norm_num)]
        rintro rfl
        exact hna (by decide)))
  rw [hh₀]
  refine ⟨_, _, hroom, hbody, hret, ?_, hrun, ?_, ?_⟩
  · exact hres.sepc.trans hfix
  · exact Function.update_self (slot 8192 10) 0 (leaveK g').mem
  · subst hh₀
    exact (trap_roundTrip rfl rfl (by decide) hfits 64 true hrun).2.2.2

end RCoreKernel.Trap.Asm
