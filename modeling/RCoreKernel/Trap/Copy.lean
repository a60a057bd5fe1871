import RCoreKernel.Trap.Standing

/-!
# `copy_from_user` and `copy_to_user` (`os/src/mm/uaccess.S`, `os/src/mm/uaccess.rs`)

`__uaccess` copies byte by byte.  Its loop compares addresses as signed numbers, and each access to
user memory may fault: `k_trap_handler` then resumes the copy at the same instruction or at
`__uaccess_fix`.  Kernel memory is kept apart from the pages of the allocator; a kernel buffer is
used by nobody else during the copy.

* `Copy.step` — the instructions of `__uaccess`, with the handler for the two that may fault;
* `LoopAt`, `DoneAt` — the invariant at the head of the loop and at its end;
* `copy_byte` — one round of the loop;
* `uaccess_spec` — **both copies**: they end, what they have copied, and where they stop.
-/

namespace RCoreKernel.Trap

open Mm Mm.VMSpace Mm.RootPgt Syscall RCoreKernel.Task

/-- The instructions of `__uaccess`; `bump` is the two increments and the jump to `Loop`. -/
inductive CopyPc
  | loop
  | lb
  | sb
  | bump
  | done
  deriving DecidableEq, Repr

/-- The registers of `__uaccess`, the machine, and the bytes of kernel memory. -/
structure Copy where
  pc : CopyPc
  a0 : ℕ
  a1 : ℕ
  t5 : ℕ
  t6 : ℕ
  mc : Machine
  kernel : ℕ → ℕ

/-- What `lb` makes of a byte. -/
def signExtend (byte : ℕ) : ℕ := if byte < 128 then byte else 2 ^ 64 - 256 + byte

/-- The space of the running task, whose tables are in use. -/
def Machine.space (mc : Machine) : Option VMSpace :=
  (mc.kernel.tryGetCurrentTaskId.bind mc.kernel.findTcb).map fun tcb => tcb.vmSpace

namespace Copy

/-- The byte at `va`; `none` is a page fault. -/
def load (c : Copy) (va : ℕ) : Option ℕ :=
  if kernelVaOffset ≤ va then some (c.kernel va % 256)
  else c.mc.space.bind fun s =>
    if Permits c.mc.phys.mem s.rootPgt.ppn va .load then
      some (byteAt c.mc.phys.mem (pageAt ⟨c.mc.phys, s⟩ va) (va % 4096))
    else none

/-- A byte stored at `va`; `none` is a page fault. -/
def store (c : Copy) (va byte : ℕ) : Option Copy :=
  if kernelVaOffset ≤ va then some { c with kernel := Function.update c.kernel va byte }
  else c.mc.space.bind fun s =>
    if Permits c.mc.phys.mem s.rootPgt.ppn va .store then
      some { c with mc := { c.mc with phys := { c.mc.phys with
        mem := storeByte c.mc.phys.mem (pageAt ⟨c.mc.phys, s⟩ va) (va % 4096) byte } } }
    else none

/-- A page fault, and the return from `k_trap_handler`. -/
def fault (ua : UAccess) (c : Copy) (access : Access) (va : ℕ) : Except Crash Copy :=
  match kTrapHandler ua c.mc c.mc.kernel.tp (scauseOf access) (ua.label access) va with
  | .error crash => .error crash
  | .ok (sepc, mc) => .ok { c with mc := mc, pc := if sepc = ua.fix then .done else c.pc }

/-- One instruction. -/
def step (ua : UAccess) (c : Copy) : Except Crash Copy :=
  match c.pc with
  | .loop => .ok { c with pc := if signed c.t5 ≤ signed c.a0 then .done else .lb }
  | .lb =>
    match c.load c.a0 with
    | some byte => .ok { c with t6 := signExtend byte, pc := .sb }
    | none => c.fault ua .load c.a0
  | .sb =>
    match c.store c.a1 (c.t6 % 256) with
    | some c => .ok { c with pc := .bump }
    | none => c.fault ua .store c.a1
  | .bump => .ok { c with a0 := wrap (c.a0 + 1), a1 := wrap (c.a1 + 1), pc := .loop }
  | .done => .ok c

/-- A number of instructions. -/
def run (ua : UAccess) : ℕ → Copy → Except Crash Copy
  | 0, c => .ok c
  | n + 1, c =>
    match c.step ua with
    | .error crash => .error crash
    | .ok c => run ua n c

/-- `__uaccess(src, dst, len)`. -/
def start (mc : Machine) (kernel : ℕ → ℕ) (src dst len : ℕ) : Copy :=
  ⟨.loop, src, dst, wrap (src + len), 0, mc, kernel⟩

/-- `sub a0, t5, a0`, the number of bytes that are left. -/
def result (c : Copy) : ℕ := wrappingSub c.t5 c.a0

theorem run_succ {ua : UAccess} {c c' : Copy} (h : c.step ua = .ok c') (n : ℕ) :
    run ua (n + 1) c = run ua n c' := by
  rw [run, h]

theorem run_add (ua : UAccess) (m n : ℕ) (c : Copy) :
    run ua (m + n) c = match run ua m c with
      | .error crash => .error crash
      | .ok c => run ua n c := by
  induction m generalizing c with
  | zero => rw [Nat.zero_add]; rfl
  | succ m ih =>
    rw [Nat.succ_add, run, run]
    cases c.step ua with
    | error crash => rfl
    | ok c => exact ih c

theorem run_done (ua : UAccess) {c : Copy} (h : c.pc = .done) (n : ℕ) : run ua n c = .ok c := by
  induction n with
  | zero => rfl
  | succ n ih =>
    have hstep : c.step ua = .ok c := by
      rw [step, h]
    rw [run, hstep]
    exact ih

end Copy

/-! ### The loop -/

/-- The user and the kernel end of a copy. -/
structure Ends where
  access : Access
  user : ℕ
  kernel : ℕ
  len : ℕ

namespace Ends

def src (e : Ends) : ℕ :=
  match e.access with
  | .load => e.user
  | .store => e.kernel

def dst (e : Ends) : ℕ :=
  match e.access with
  | .load => e.kernel
  | .store => e.user

/-- A checked user range and a buffer in the kernel half. -/
structure Valid (e : Ends) : Prop where
  user : checkUVaRange e.user e.len = true
  kernel : kernelVaOffset ≤ e.kernel
  kernel_lt : e.kernel < 2 ^ 64
  kernel_end : e.kernel + e.len ≤ 2 ^ 64

/-- Kernel memory with the first `i` bytes copied from user memory. -/
def kernelAfter (e : Ends) (user kernel : ℕ → ℕ) (i : ℕ) : ℕ → ℕ :=
  match e.access with
  | .load => fun a => if e.kernel ≤ a ∧ a < e.kernel + i then user (e.user + (a - e.kernel)) else kernel a
  | .store => kernel

/-- User memory with the first `i` bytes copied from kernel memory. -/
def userAfter (e : Ends) (user kernel : ℕ → ℕ) (i : ℕ) : ℕ → ℕ :=
  match e.access with
  | .load => user
  | .store => fun a =>
    if e.user ≤ a ∧ a < e.user + i then kernel (e.kernel + (a - e.user)) % 256 else user a

/-- The loop ends at the end of the range and not before. -/
theorem Valid.signed_le {e : Ends} (h : e.Valid) {i : ℕ} (hi : i ≤ e.len) :
    signed (wrap (e.src + e.len)) ≤ signed (wrap (e.src + i)) ↔ i = e.len := by
  have huser := (checkUVaRange_le h.user).2
  have hkernel := h.kernel
  have hend := h.kernel_end
  rw [userSpaceEnd_eq] at huser
  rw [kernelVaOffset] at hkernel
  unfold signed wrap src
  cases e.access with
  | load =>
    dsimp only
    rw [Nat.mod_eq_of_lt (by omega), Nat.mod_eq_of_lt (by omega), if_pos (by omega),
      if_pos (by omega)]
    omega
  | store =>
    dsimp only
    split_ifs <;> omega

end Ends

variable {img : KernelImage} {first : ℕ} {rest created gone : List ℕ} {mc : Machine}
  {tcb : TaskControlBlock VMSpace} {k k' : Phys} {s s' : VMSpace} {kernel : ℕ → ℕ} {e : Ends}
  {ua : UAccess} {c : Copy} {i j : ℕ}

/-- Memory when the first `i` bytes of the user range have been accessed and the first `j` copied. -/
structure CopyMemory (img : KernelImage) (first : ℕ) (rest : List ℕ) (k₀ : Phys) (s₀ : VMSpace)
    (kernel : ℕ → ℕ) (e : Ends) (i j : ℕ) (k : Phys) (s : VMSpace) : Prop where
  tidy : Tidy img first rest k s
  kept : Kept img first rest k₀ s₀ k s
  valid_iff : ∀ v < userEndVpn, PTE.isValid (pteAt k.mem s.rootPgt.ppn v) = true ↔
    PTE.isValid (pteAt k₀.mem s₀.rootPgt.ppn v) = true ∨ v ∈ pagesOf e.user i
  bounds_eq : s.areas.map bounds = s₀.areas.map bounds
  bytes : ∀ va, (s.view k.mem).peek va = e.userAfter (s₀.view k₀.mem).peek kernel j va

/-- The registers with `i` bytes copied. -/
structure CopyRegs (mc : Machine) (tcb : TaskControlBlock VMSpace) (kernel : ℕ → ℕ) (e : Ends) (i : ℕ)
    (pc : CopyPc) (k : Phys) (s : VMSpace) (c : Copy) : Prop where
  pc_eq : c.pc = pc
  a0_eq : c.a0 = wrap (e.src + i)
  a1_eq : c.a1 = wrap (e.dst + i)
  t5_eq : c.t5 = wrap (e.src + e.len)
  mc_eq : c.mc = mc.withSpace tcb.taskId k s
  kernel_eq : c.kernel = e.kernelAfter (tcb.vmSpace.view mc.phys.mem).peek kernel i

/-- The head of the loop. -/
structure LoopAt (img : KernelImage) (first : ℕ) (rest : List ℕ) (mc : Machine)
    (tcb : TaskControlBlock VMSpace) (kernel : ℕ → ℕ) (e : Ends) (i : ℕ) (k : Phys) (s : VMSpace)
    (c : Copy) : Prop where
  regs : CopyRegs mc tcb kernel e i .loop k s c
  memory : CopyMemory img first rest mc.phys tcb.vmSpace kernel e i i k s
  progress : Progress e.access e.user mc.phys tcb.vmSpace i k s

/-- The end of the loop. -/
structure DoneAt (img : KernelImage) (first : ℕ) (rest : List ℕ) (mc : Machine)
    (tcb : TaskControlBlock VMSpace) (kernel : ℕ → ℕ) (e : Ends) (i : ℕ) (k : Phys) (s : VMSpace)
    (c : Copy) : Prop where
  regs : CopyRegs mc tcb kernel e i .done k s c
  memory : CopyMemory img first rest mc.phys tcb.vmSpace kernel e i i k s
  pages_ok : ∀ j < i, PageOk e.access e.user mc.phys tcb.vmSpace j
  stopped : i < e.len → ¬PageOk e.access e.user mc.phys tcb.vmSpace i

theorem Ends.Valid.check (h : e.Valid) (hi : i < e.len) :
    checkUVa (e.user + i) = true ∧ e.user + (i + 1) ≤ userSpaceEnd := by
  have hle := (checkUVaRange_le h.user).2
  rw [checkUVa_iff]
  rw [userSpaceEnd_eq] at hle ⊢
  omega

theorem Ends.Valid.wrap_user (h : e.Valid) (hi : i ≤ e.len) : wrap (e.user + i) = e.user + i := by
  have hle := (checkUVaRange_le h.user).2
  rw [userSpaceEnd_eq] at hle
  exact wrap_of_lt (by omega)

theorem Ends.Valid.wrap_kernel (h : e.Valid) (hi : i < e.len) :
    wrap (e.kernel + i) = e.kernel + i := by
  have hle := h.kernel_end
  exact wrap_of_lt (by omega)

theorem Ends.Valid.user_half (h : e.Valid) (hi : i < e.len) : ¬kernelVaOffset ≤ e.user + i := by
  have hcheck := (h.check hi).1
  rw [checkUVa_iff] at hcheck
  rw [kernelVaOffset]
  omega

theorem Ends.Valid.kernel_half (h : e.Valid) (i : ℕ) : kernelVaOffset ≤ e.kernel + i :=
  le_trans h.kernel (Nat.le_add_right _ _)

theorem wrap_succ (n i : ℕ) : wrap (wrap (n + i) + 1) = wrap (n + (i + 1)) := by
  unfold wrap
  omega

/-- The space in use is that of the running task. -/
theorem space_withSpace (hst : Standing img first rest created gone mc tcb)
    (ht : Tidy img first rest k s) : (mc.withSpace tcb.taskId k s).space = some s := by
  have hst' := hst.withSpace ht
  have hcur := hst'.ongoing.current
  have hfind := hst'.ongoing.find
  rw [Machine.space, hcur, Option.bind_some, hfind]
  rfl

/-- **A fault of the copy.** -/
theorem copy_fault (hst : Standing img first rest created gone mc tcb) (hval : e.Valid)
    (hlabel : ua.label e.access ≠ ua.fix) (hi : i < e.len)
    (hmc : c.mc = mc.withSpace tcb.taskId k s)
    (hm : CopyMemory img first rest mc.phys tcb.vmSpace kernel e i i k s)
    (hp : Progress e.access e.user mc.phys tcb.vmSpace i k s)
    (hnot : ¬Permits k.mem s.rootPgt.ppn (e.user + i) e.access) :
    ∃ k' s', (c.fault ua e.access (e.user + i) =
          .ok { c with mc := mc.withSpace tcb.taskId k' s' } ∧
        Permits k'.mem s'.rootPgt.ppn (e.user + i) e.access ∧
        CopyMemory img first rest mc.phys tcb.vmSpace kernel e (i + 1) i k' s' ∧
        Progress e.access e.user mc.phys tcb.vmSpace (i + 1) k' s') ∨
      (c.fault ua e.access (e.user + i) =
          .ok { c with mc := mc.withSpace tcb.taskId k' s', pc := .done } ∧
        CopyMemory img first rest mc.phys tcb.vmSpace kernel e i i k' s' ∧
        ¬PageOk e.access e.user mc.phys tcb.vmSpace i) := by
  obtain ⟨hcheck, hend⟩ := hval.check hi
  have hst' := hst.withSpace hm.tidy
  have htp := hst'.tp_ne_zero
  have hfault := kTrapHandler_fault ua htp (e.user + i) e.access
  rw [kPageFault, hst'.taskIdAt_tp] at hfault
  have hstep : c.fault ua e.access (e.user + i) = match kTrapHandler ua (mc.withSpace tcb.taskId k s)
      (mc.withSpace tcb.taskId k s).kernel.tp (scauseOf e.access) (ua.label e.access) (e.user + i) with
    | .error crash => .error crash
    | .ok (sepc, mc) => .ok { c with mc := mc, pc := if sepc = ua.fix then .done else c.pc } := by
    rw [Copy.fault, hmc]
  obtain ⟨k', s', ht, hkept, ⟨hdo, hserved⟩ | ⟨⟨err, hdo⟩, hrefused, hbounds, hview, hvalid⟩⟩ :=
    hst'.faulted hcheck hnot
  · rw [withSpace_withSpace] at hdo
    rw [hdo] at hfault
    have hp' := hp.served hend hserved
    refine ⟨k', s', Or.inl ⟨?_, hserved.permits, ⟨ht, hm.kept.trans hkept, hp'.valid_iff,
      hp'.bounds_eq, fun va => ?_⟩, hp'⟩⟩
    · rw [hstep, hfault]
      dsimp only
      rw [if_neg hlabel]
    · rw [hserved.view_eq, View.peek_fault]
      exact hm.bytes va
  · rw [withSpace_withSpace] at hdo
    rw [hdo] at hfault
    refine ⟨k', s', Or.inr ⟨?_, ⟨ht, hm.kept.trans hkept, fun v hv => ?_, hbounds.trans hm.bounds_eq,
      fun va => ?_⟩, hp.refused hend hrefused⟩⟩
    · rw [hstep, hfault]
      dsimp only
      rw [if_pos rfl]
    · rw [hvalid v hv]
      exact hm.valid_iff v hv
    · rw [hview]
      exact hm.bytes va

theorem signExtend_mod {byte : ℕ} (h : byte < 256) : signExtend byte % 256 = byte := by
  unfold signExtend
  split <;> omega

theorem byteAt_lt (m : Mem) (ppn offset : ℕ) : byteAt m ppn offset < 256 := Nat.mod_lt _ (by decide)

/-- The registers after a fault has changed the space. -/
theorem CopyRegs.withSpace {pc : CopyPc} (h : CopyRegs mc tcb kernel e i pc k s c) (k' : Phys)
    (s' : VMSpace) :
    CopyRegs mc tcb kernel e i pc k' s' { c with mc := mc.withSpace tcb.taskId k' s' } :=
  ⟨h.pc_eq, h.a0_eq, h.a1_eq, h.t5_eq, rfl, h.kernel_eq⟩

/-- The registers at the head of the loop, after `bump`; `c₂` is the state before it. -/
theorem CopyRegs.bump {pc : CopyPc} {c₂ : Copy} (h : CopyRegs mc tcb kernel e i pc k s c)
    (ht5 : c₂.t5 = c.t5) (hmc : c₂.mc = mc.withSpace tcb.taskId k' s')
    (hkernel : c₂.kernel = e.kernelAfter (tcb.vmSpace.view mc.phys.mem).peek kernel (i + 1)) :
    CopyRegs mc tcb kernel e (i + 1) .loop k' s'
      { c₂ with a0 := wrap (c.a0 + 1), a1 := wrap (c.a1 + 1), pc := .loop } := by
  refine ⟨rfl, ?_, ?_, ht5.trans h.t5_eq, hmc, hkernel⟩
  · dsimp only
    rw [h.a0_eq, wrap_succ]
  · dsimp only
    rw [h.a1_eq, wrap_succ]

/-- The loop goes on before the end. -/
theorem loop_step (ua : UAccess) (hval : e.Valid) (h : CopyRegs mc tcb kernel e i .loop k s c) (hi : i ≤ e.len) :
    c.step ua = .ok { c with pc := if i = e.len then .done else .lb } := by
  rw [Copy.step, h.pc_eq]
  dsimp only
  rw [h.t5_eq, h.a0_eq]
  simp only [hval.signed_le hi]

/-- A page that can be accessed, after it was or without being faulted in. -/
theorem memory_there (hval : e.Valid) (hi : i < e.len)
    (hm : CopyMemory img first rest mc.phys tcb.vmSpace kernel e i i k s)
    (hp : Progress e.access e.user mc.phys tcb.vmSpace i k s)
    (hpermits : Permits k.mem s.rootPgt.ppn (e.user + i) e.access) :
    CopyMemory img first rest mc.phys tcb.vmSpace kernel e (i + 1) i k s ∧
      Progress e.access e.user mc.phys tcb.vmSpace (i + 1) k s := by
  have hp' := hp.there hm.tidy.ok (hval.check hi).2 hpermits
  exact ⟨⟨hm.tidy, hm.kept, hp'.valid_iff, hp'.bounds_eq, hm.bytes⟩, hp'⟩

/-- The rest of a round of `copy_from_user`, from the load on. -/
theorem load_round (ua : UAccess) (hst : Standing img first rest created gone mc tcb)
    (hval : e.Valid) (hacc : e.access = .load) (hi : i < e.len)
    (hr : CopyRegs mc tcb kernel e i .lb k s c)
    (hm : CopyMemory img first rest mc.phys tcb.vmSpace kernel e (i + 1) i k s)
    (hp : Progress e.access e.user mc.phys tcb.vmSpace (i + 1) k s)
    (hpermits : Permits k.mem s.rootPgt.ppn (e.user + i) e.access) :
    ∃ c', Copy.run ua 3 c = .ok c' ∧
      LoopAt img first rest mc tcb kernel e (i + 1) k s c' := by
  obtain ⟨hcheck, hend⟩ := hval.check hi
  have hv := vpn_lt_of_check hcheck
  have hsrc : e.src = e.user := by rw [Ends.src, hacc]
  have hdst : e.dst = e.kernel := by rw [Ends.dst, hacc]
  have ha0 : c.a0 = e.user + i := by rw [hr.a0_eq, hsrc, hval.wrap_user hi.le]
  have ha1 : c.a1 = e.kernel + i := by rw [hr.a1_eq, hdst, hval.wrap_kernel hi]
  have huser := hval.user_half hi
  have hkernel := hval.kernel_half i
  -- the byte that is loaded
  have hbyte : byteAt k.mem (pageAt ⟨k, s⟩ (e.user + i)) ((e.user + i) % 4096) =
      (tcb.vmSpace.view mc.phys.mem).peek (e.user + i) := by
    have hheld := pageAt_held hm.tidy.ok hm.tidy.accounted hv hpermits.1
    rw [← peek_held hm.tidy.ok hv hheld, hm.bytes, Ends.userAfter, hacc]
  have hload : c.load c.a0 = some ((tcb.vmSpace.view mc.phys.mem).peek (e.user + i)) := by
    rw [ha0, Copy.load, if_neg huser, hr.mc_eq, space_withSpace hst hm.tidy, Option.bind_some,
      withSpace_phys, if_pos (hacc ▸ hpermits), hbyte]
  have hlt : (tcb.vmSpace.view mc.phys.mem).peek (e.user + i) < 256 := hbyte ▸ byteAt_lt _ _ _
  obtain ⟨c₂, hc₂⟩ : ∃ c₂, c₂ = { c with
      t6 := signExtend ((tcb.vmSpace.view mc.phys.mem).peek (e.user + i)), pc := .sb } := ⟨_, rfl⟩
  have hstep₁ : c.step ua = .ok c₂ := by
    rw [Copy.step, hr.pc_eq]
    dsimp only
    rw [hload, hc₂]
  obtain ⟨c₃, hc₃⟩ : ∃ c₃, c₃ = { c₂ with
      kernel := Function.update c.kernel (e.kernel + i)
        ((tcb.vmSpace.view mc.phys.mem).peek (e.user + i)), pc := .bump } := ⟨_, rfl⟩
  have hstore : c₂.store (e.kernel + i) ((tcb.vmSpace.view mc.phys.mem).peek (e.user + i)) =
      some { c₂ with
        kernel := Function.update c.kernel (e.kernel + i)
          ((tcb.vmSpace.view mc.phys.mem).peek (e.user + i)) } := by
    rw [Copy.store, if_pos hkernel, hc₂]
  have hc₂a1 : c₂.a1 = e.kernel + i := by rw [hc₂, ← ha1]
  have hc₂t6 : c₂.t6 % 256 = (tcb.vmSpace.view mc.phys.mem).peek (e.user + i) := by
    rw [hc₂]
    exact signExtend_mod hlt
  have hstep₂ : c₂.step ua = .ok c₃ := by
    have hpc : c₂.pc = .sb := by rw [hc₂]
    rw [Copy.step, hpc]
    dsimp only
    rw [hc₂a1, hc₂t6, hstore, hc₃]
  have hstep₃ : c₃.step ua =
      .ok { c₃ with a0 := wrap (c.a0 + 1), a1 := wrap (c.a1 + 1), pc := .loop } := by
    rw [Copy.step, hc₃, hc₂]
  refine ⟨{ c₃ with a0 := wrap (c.a0 + 1), a1 := wrap (c.a1 + 1), pc := .loop }, ?_, ⟨?_, ?_, hp⟩⟩
  · rw [Copy.run_succ hstep₁, Copy.run_succ hstep₂, Copy.run_succ hstep₃]
    rfl
  · refine hr.bump ?_ ?_ ?_
    · rw [hc₃, hc₂]
    · rw [hc₃, hc₂]
      exact hr.mc_eq
    · rw [hc₃, hc₂]
      dsimp only
      rw [hr.kernel_eq]
      funext a
      rw [Ends.kernelAfter, Ends.kernelAfter, hacc]
      dsimp only
      by_cases ha : a = e.kernel + i
      · subst ha
        rw [Function.update_self, if_pos (by omega), Nat.add_sub_cancel_left]
      · rw [Function.update_of_ne ha]
        by_cases hin : e.kernel ≤ a ∧ a < e.kernel + i
        · rw [if_pos hin, if_pos (by omega)]
        · rw [if_neg hin, if_neg (by omega)]
  · refine ⟨hm.tidy, hm.kept, hm.valid_iff, hm.bounds_eq, fun va => ?_⟩
    rw [hm.bytes, Ends.userAfter, Ends.userAfter, hacc]

/-- The rest of a round of `copy_to_user`, from the store on. -/
theorem store_round (ua : UAccess) (hst : Standing img first rest created gone mc tcb)
    (hval : e.Valid) (hacc : e.access = .store) (hi : i < e.len)
    (hr : CopyRegs mc tcb kernel e i .sb k s c)
    (ht6 : c.t6 % 256 = kernel (e.kernel + i) % 256)
    (hm : CopyMemory img first rest mc.phys tcb.vmSpace kernel e (i + 1) i k s)
    (hp : Progress e.access e.user mc.phys tcb.vmSpace (i + 1) k s)
    (hpermits : Permits k.mem s.rootPgt.ppn (e.user + i) e.access) :
    ∃ c' k', Copy.run ua 2 c = .ok c' ∧
      LoopAt img first rest mc tcb kernel e (i + 1) k' s c' := by
  obtain ⟨hcheck, hend⟩ := hval.check hi
  have hv := vpn_lt_of_check hcheck
  have hdst : e.dst = e.user := by rw [Ends.dst, hacc]
  have ha1 : c.a1 = e.user + i := by rw [hr.a1_eq, hdst, hval.wrap_user hi.le]
  have huser := hval.user_half hi
  have hheld := pageAt_held hm.tidy.ok hm.tidy.accounted hv hpermits.1
  have hlt : kernel (e.kernel + i) % 256 < 256 := Nat.mod_lt _ (by decide)
  obtain ⟨m', hm'⟩ : ∃ m', m' = storeByte k.mem (pageAt ⟨k, s⟩ (e.user + i))
    ((e.user + i) % 4096) (kernel (e.kernel + i) % 256) := ⟨_, rfl⟩
  obtain ⟨k', hk'⟩ : ∃ k' : Phys, k' = { k with mem := m' } := ⟨_, rfl⟩
  -- only a data page has changed
  obtain ⟨ht', hkept, htables⟩ := hm.tidy.stored hv hpermits.1 (kernel (e.kernel + i) % 256)
  rw [← hm', ← hk'] at ht' hkept
  have htables' : ∀ p ∈ s.rootPgt.pages, k'.mem p = k.mem p := by
    rw [hk', hm']
    exact htables
  have hstore : c.store (e.user + i) (kernel (e.kernel + i) % 256) =
      some { c with mc := mc.withSpace tcb.taskId k' s } := by
    have hspace : c.mc.space = some s := by rw [hr.mc_eq, space_withSpace hst hm.tidy]
    have hphys : c.mc.phys = k := by rw [hr.mc_eq, withSpace_phys]
    rw [Copy.store, if_neg huser, hspace, Option.bind_some, hphys, if_pos (hacc ▸ hpermits), ← hm',
      ← hk', hr.mc_eq]
    rfl
  obtain ⟨c₂, hc₂⟩ : ∃ c₂ : Copy, c₂ = { c with mc := mc.withSpace tcb.taskId k' s, pc := .bump } :=
    ⟨_, rfl⟩
  have hstep₁ : c.step ua = .ok c₂ := by
    rw [Copy.step, hr.pc_eq]
    dsimp only
    rw [ha1, ht6, hstore, hc₂]
  have hstep₂ : c₂.step ua =
      .ok { c₂ with a0 := wrap (c.a0 + 1), a1 := wrap (c.a1 + 1), pc := .loop } := by
    rw [Copy.step, hc₂]
  have hp' := hp.congr hm.tidy.ok htables' (by rw [hk']; rfl)
  have hpage : ((s.view k.mem).page ((e.user + i) / 4096)).isSome = true := by
    rw [page_held hm.tidy.ok hv hheld]
    rfl
  refine ⟨{ c₂ with a0 := wrap (c.a0 + 1), a1 := wrap (c.a1 + 1), pc := .loop }, k', ?_, ⟨?_, ?_, hp'⟩⟩
  · rw [Copy.run_succ hstep₁, Copy.run_succ hstep₂]
    rfl
  · refine hr.bump ?_ ?_ ?_
    · rw [hc₂]
    · rw [hc₂]
    · rw [hc₂]
      dsimp only
      rw [hr.kernel_eq, Ends.kernelAfter, Ends.kernelAfter, hacc]
  · refine ⟨ht', hm.kept.trans hkept, hp'.valid_iff, hm.bounds_eq, fun va => ?_⟩
    rw [hk', hm', store_view hm.tidy.ok hm.tidy.accounted hv hheld hlt, View.peek_store hpage, hm.bytes,
      Ends.userAfter, Ends.userAfter, hacc]
    dsimp only
    by_cases ha : va = e.user + i
    · subst ha
      rw [if_pos rfl, if_pos (by omega), Nat.add_sub_cancel_left]
    · rw [if_neg ha]
      by_cases hin : e.user ≤ va ∧ va < e.user + i
      · rw [if_pos hin, if_pos (by omega)]
      · rw [if_neg hin, if_neg (by omega)]

/-! ### One byte -/

/-- **The next byte is copied, or the copy ends there.** -/
def NextByte (img : KernelImage) (first : ℕ) (rest : List ℕ) (ua : UAccess) (mc : Machine)
    (tcb : TaskControlBlock VMSpace) (kernel : ℕ → ℕ) (e : Ends) (i : ℕ) (c : Copy) : Prop :=
  ∃ n ≤ 5, ∃ c' k' s', Copy.run ua n c = .ok c' ∧
    (LoopAt img first rest mc tcb kernel e (i + 1) k' s' c' ∨
      DoneAt img first rest mc tcb kernel e i k' s' c')

/-- A byte that is loaded. -/
theorem copy_byte_load (hst : Standing img first rest created gone mc tcb) (hval : e.Valid)
    (hlb : ua.lb ≠ ua.fix) (hacc : e.access = .load) (hi : i < e.len)
    (h : LoopAt img first rest mc tcb kernel e i k s c) :
    NextByte img first rest ua mc tcb kernel e i c := by
  obtain ⟨c₁, hc₁⟩ : ∃ c₁, c₁ = { c with pc := .lb } := ⟨_, rfl⟩
  have hstep := loop_step ua hval h.regs hi.le
  rw [if_neg hi.ne, ← hc₁] at hstep
  have hr : CopyRegs mc tcb kernel e i .lb k s c₁ := by
    rw [hc₁]
    exact ⟨rfl, h.regs.a0_eq, h.regs.a1_eq, h.regs.t5_eq, h.regs.mc_eq, h.regs.kernel_eq⟩
  by_cases hpermits : Permits k.mem s.rootPgt.ppn (e.user + i) e.access
  · obtain ⟨hm, hp⟩ := memory_there hval hi h.memory h.progress hpermits
    obtain ⟨c', hrun, hloop⟩ := load_round ua hst hval hacc hi hr hm hp hpermits
    exact ⟨4, by omega, c', k, s, by rw [Copy.run_succ hstep, hrun], Or.inl hloop⟩
  · -- the load faults, and is done again if the fault is served
    have hlabel : ua.label e.access ≠ ua.fix := by
      rw [hacc]
      exact hlb
    have ha0 : c₁.a0 = e.user + i := by
      rw [hr.a0_eq, Ends.src, hacc, hval.wrap_user hi.le]
    have huser := hval.user_half hi
    have hload : c₁.load (e.user + i) = none := by
      rw [Copy.load, if_neg huser, hr.mc_eq, space_withSpace hst h.memory.tidy, Option.bind_some,
        withSpace_phys, if_neg (hacc ▸ hpermits)]
    have hstep₁ : c₁.step ua = c₁.fault ua e.access (e.user + i) := by
      rw [Copy.step, hr.pc_eq]
      dsimp only
      rw [ha0, hload, hacc]
    obtain ⟨k', s', ⟨hfault, hpermits', hm, hp⟩ | ⟨hfault, hm, hno⟩⟩ :=
      copy_fault hst hval hlabel hi hr.mc_eq h.memory h.progress hpermits
    · obtain ⟨c₂, hc₂⟩ : ∃ c₂, c₂ = { c₁ with mc := mc.withSpace tcb.taskId k' s' } := ⟨_, rfl⟩
      rw [← hc₂] at hfault
      have hr₂ : CopyRegs mc tcb kernel e i .lb k' s' c₂ := by
        rw [hc₂]
        exact hr.withSpace k' s'
      obtain ⟨c', hrun, hloop⟩ := load_round ua hst hval hacc hi hr₂ hm hp hpermits'
      refine ⟨5, le_rfl, c', k', s', ?_, Or.inl hloop⟩
      rw [Copy.run_succ hstep, Copy.run_succ (hstep₁.trans hfault), hrun]
    · refine ⟨2, by omega, { c₁ with mc := mc.withSpace tcb.taskId k' s', pc := .done }, k', s', ?_,
        Or.inr ⟨⟨rfl, hr.a0_eq, hr.a1_eq, hr.t5_eq, rfl, hr.kernel_eq⟩, hm, h.progress.pages_ok,
          fun _ => hno⟩⟩
      rw [Copy.run_succ hstep, Copy.run_succ (hstep₁.trans hfault)]
      rfl

/-- A byte that is stored. -/
theorem copy_byte_store (hst : Standing img first rest created gone mc tcb) (hval : e.Valid)
    (hsb : ua.sb ≠ ua.fix) (hacc : e.access = .store) (hi : i < e.len)
    (h : LoopAt img first rest mc tcb kernel e i k s c) :
    NextByte img first rest ua mc tcb kernel e i c := by
  -- the kernel byte does not fault
  obtain ⟨c₁, hc₁⟩ : ∃ c₁, c₁ = { c with pc := .lb } := ⟨_, rfl⟩
  have hstep := loop_step ua hval h.regs hi.le
  rw [if_neg hi.ne, ← hc₁] at hstep
  have ha0 : c₁.a0 = e.kernel + i := by
    rw [hc₁]
    dsimp only
    rw [h.regs.a0_eq, Ends.src, hacc, hval.wrap_kernel hi]
  have hkernel := hval.kernel_half i
  have hload : c₁.load (e.kernel + i) = some (kernel (e.kernel + i) % 256) := by
    rw [Copy.load, if_pos hkernel, hc₁, h.regs.kernel_eq, Ends.kernelAfter, hacc]
  obtain ⟨c₂, hc₂⟩ : ∃ c₂, c₂ = { c₁ with
    t6 := signExtend (kernel (e.kernel + i) % 256), pc := .sb } := ⟨_, rfl⟩
  have hstep₁ : c₁.step ua = .ok c₂ := by
    have hpc : c₁.pc = .lb := by rw [hc₁]
    have hload' : c₁.load c₁.a0 = some (kernel (e.kernel + i) % 256) := by rw [ha0, hload]
    rw [Copy.step, hpc]
    dsimp only
    rw [hload', hc₂]
  have hr : CopyRegs mc tcb kernel e i .sb k s c₂ := by
    rw [hc₂, hc₁]
    exact ⟨rfl, h.regs.a0_eq, h.regs.a1_eq, h.regs.t5_eq, h.regs.mc_eq, h.regs.kernel_eq⟩
  have ht6 : c₂.t6 % 256 = kernel (e.kernel + i) % 256 := by
    rw [hc₂]
    exact signExtend_mod (Nat.mod_lt _ (by decide))
  by_cases hpermits : Permits k.mem s.rootPgt.ppn (e.user + i) e.access
  · obtain ⟨hm, hp⟩ := memory_there hval hi h.memory h.progress hpermits
    obtain ⟨c', k', hrun, hloop⟩ := store_round ua hst hval hacc hi hr ht6 hm hp hpermits
    exact ⟨4, by omega, c', k', s, by rw [Copy.run_succ hstep, Copy.run_succ hstep₁, hrun],
      Or.inl hloop⟩
  · have hlabel : ua.label e.access ≠ ua.fix := by
      rw [hacc]
      exact hsb
    have ha1 : c₂.a1 = e.user + i := by
      rw [hr.a1_eq, Ends.dst, hacc, hval.wrap_user hi.le]
    have huser := hval.user_half hi
    have hstore : c₂.store (e.user + i) (kernel (e.kernel + i) % 256) = none := by
      rw [Copy.store, if_neg huser, hr.mc_eq, space_withSpace hst h.memory.tidy, Option.bind_some,
        withSpace_phys, if_neg (hacc ▸ hpermits)]
    have hstep₂ : c₂.step ua = c₂.fault ua e.access (e.user + i) := by
      rw [Copy.step, hr.pc_eq]
      dsimp only
      rw [ha1, ht6, hstore, hacc]
    obtain ⟨k', s', ⟨hfault, hpermits', hm, hp⟩ | ⟨hfault, hm, hno⟩⟩ :=
      copy_fault hst hval hlabel hi hr.mc_eq h.memory h.progress hpermits
    · obtain ⟨c₃, hc₃⟩ : ∃ c₃, c₃ = { c₂ with mc := mc.withSpace tcb.taskId k' s' } := ⟨_, rfl⟩
      rw [← hc₃] at hfault
      have hr₃ : CopyRegs mc tcb kernel e i .sb k' s' c₃ := by
        rw [hc₃]
        exact hr.withSpace k' s'
      have ht6₃ : c₃.t6 % 256 = kernel (e.kernel + i) % 256 := by
        rw [hc₃]
        exact ht6
      obtain ⟨c', k'', hrun, hloop⟩ :=
        store_round ua hst hval hacc hi hr₃ ht6₃ hm hp hpermits'
      refine ⟨5, le_rfl, c', k'', s', ?_, Or.inl hloop⟩
      rw [Copy.run_succ hstep, Copy.run_succ hstep₁, Copy.run_succ (hstep₂.trans hfault), hrun]
    · refine ⟨3, by omega, { c₂ with mc := mc.withSpace tcb.taskId k' s', pc := .done }, k', s', ?_,
        Or.inr ⟨⟨rfl, hr.a0_eq, hr.a1_eq, hr.t5_eq, rfl, hr.kernel_eq⟩, hm, h.progress.pages_ok,
          fun _ => hno⟩⟩
      rw [Copy.run_succ hstep, Copy.run_succ hstep₁, Copy.run_succ (hstep₂.trans hfault)]
      rfl

theorem copy_byte (hst : Standing img first rest created gone mc tcb) (hval : e.Valid)
    (hlb : ua.lb ≠ ua.fix) (hsb : ua.sb ≠ ua.fix) (hi : i < e.len)
    (h : LoopAt img first rest mc tcb kernel e i k s c) :
    NextByte img first rest ua mc tcb kernel e i c := by
  cases hacc : e.access with
  | load => exact copy_byte_load hst hval hlb hacc hi h
  | store => exact copy_byte_store hst hval hsb hacc hi h

/-! ### The whole copy -/

/-- The loop ends. -/
theorem copy_ends (hst : Standing img first rest created gone mc tcb) (hval : e.Valid)
    (hlb : ua.lb ≠ ua.fix) (hsb : ua.sb ≠ ua.fix) (left : ℕ) (hi : i + left = e.len)
    (h : LoopAt img first rest mc tcb kernel e i k s c) :
    ∃ n ≤ 5 * left + 1, ∃ c' j k' s', Copy.run ua n c = .ok c' ∧ j ≤ e.len ∧
      DoneAt img first rest mc tcb kernel e j k' s' c' := by
  induction left generalizing i k s c with
  | zero =>
    have hend : i = e.len := hi
    have hstep := loop_step ua hval h.regs hend.le
    rw [if_pos hend] at hstep
    refine ⟨1, le_rfl, { c with pc := .done }, i, k, s, ?_, hend.le, ⟨⟨rfl, h.regs.a0_eq, h.regs.a1_eq,
      h.regs.t5_eq, h.regs.mc_eq, h.regs.kernel_eq⟩, h.memory, h.progress.pages_ok, ?_⟩⟩
    · rw [Copy.run_succ hstep]
      rfl
    · intro hlt
      omega
  | succ left ih =>
    have hlt : i < e.len := by omega
    obtain ⟨n, hn, c₁, k₁, s₁, hrun, hloop | hdone⟩ := copy_byte hst hval hlb hsb hlt h
    · obtain ⟨n', hn', c', j, k', s', hrun', hj, hdone⟩ := ih (by omega) hloop
      refine ⟨n + n', by omega, c', j, k', s', ?_, hj, hdone⟩
      rw [Copy.run_add, hrun]
      exact hrun'
    · exact ⟨n, by omega, c₁, i, k₁, s₁, hrun, hlt.le, hdone⟩

/-- `sub a0, t5, a0` counts the bytes that are left. -/
theorem result_eq (hval : e.Valid) (hi : i ≤ e.len) (h : CopyRegs mc tcb kernel e i .done k s c) :
    c.result = e.len - i := by
  have huser := (checkUVaRange_le hval.user).2
  have hend := hval.kernel_end
  rw [userSpaceEnd_eq] at huser
  have hlen : e.len < 2 ^ 64 := by omega
  rw [Copy.result, h.t5_eq, h.a0_eq]
  unfold wrappingSub wrap
  omega

/-- What `copy_from_user` and `copy_to_user` leave when `r` bytes are not copied. -/
structure Copied (img : KernelImage) (first : ℕ) (rest : List ℕ) (mc : Machine)
    (tcb : TaskControlBlock VMSpace) (kernel : ℕ → ℕ) (e : Ends) (r : ℕ) (c : Copy) (k : Phys)
    (s : VMSpace) : Prop where
  done : c.pc = .done
  result_eq : c.result = r
  le_len : r ≤ e.len
  machine_eq : c.mc = mc.withSpace tcb.taskId k s
  kernel_eq : c.kernel = e.kernelAfter (tcb.vmSpace.view mc.phys.mem).peek kernel (e.len - r)
  user_eq : (s.view k.mem).peek =
    e.userAfter (tcb.vmSpace.view mc.phys.mem).peek kernel (e.len - r)
  tidy : Tidy img first rest k s
  kept : Kept img first rest mc.phys tcb.vmSpace k s
  bounds_eq : s.areas.map bounds = tcb.vmSpace.areas.map bounds
  valid_iff : ∀ v < userEndVpn, PTE.isValid (pteAt k.mem s.rootPgt.ppn v) = true ↔
    PTE.isValid (pteAt mc.phys.mem tcb.vmSpace.rootPgt.ppn v) = true ∨
      v ∈ pagesOf e.user (e.len - r)
  all_iff : r = 0 ↔ ∀ j < e.len, PageOk e.access e.user mc.phys tcb.vmSpace j
  before : ∀ j < e.len - r, PageOk e.access e.user mc.phys tcb.vmSpace j
  stopped : 0 < r → ¬PageOk e.access e.user mc.phys tcb.vmSpace (e.len - r)

/-- The end of the loop is the end of the call. -/
theorem copied_of_done (hval : e.Valid) (hi : i ≤ e.len)
    (h : DoneAt img first rest mc tcb kernel e i k s c) :
    Copied img first rest mc tcb kernel e (e.len - i) c k s := by
  have hback : e.len - (e.len - i) = i := by omega
  have hstop : 0 < e.len - i → ¬PageOk e.access e.user mc.phys tcb.vmSpace i :=
    fun hpos => h.stopped (by omega)
  refine ⟨h.regs.pc_eq, result_eq hval hi h.regs, Nat.sub_le _ _, h.regs.mc_eq, ?_, ?_, h.memory.tidy,
    h.memory.kept, h.memory.bounds_eq, ?_, ?_, ?_, ?_⟩
  · rw [hback]
    exact h.regs.kernel_eq
  · rw [hback]
    funext va
    exact h.memory.bytes va
  · rw [hback]
    exact h.memory.valid_iff
  · constructor
    · intro hzero
      have hall : i = e.len := by omega
      rw [← hall]
      exact h.pages_ok
    · intro hall
      by_contra hne
      exact hstop (by omega) (hall i (by omega))
  · rw [hback]
    exact h.pages_ok
  · rw [hback]
    exact hstop

/-- Nothing is copied at the start. -/
theorem loopAt_start (kernel : ℕ → ℕ) (hst : Standing img first rest created gone mc tcb) (hval : e.Valid) :
    LoopAt img first rest mc tcb kernel e 0 mc.phys tcb.vmSpace
      (Copy.start mc kernel e.src e.dst e.len) := by
  have hlt : e.src < 2 ^ 64 ∧ e.dst < 2 ^ 64 := by
    have huser := (checkUVaRange_le hval.user).2
    rw [userSpaceEnd_eq] at huser
    have hkernel := hval.kernel_lt
    unfold Ends.src Ends.dst
    cases e.access <;> constructor <;> dsimp only <;> omega
  have hp := Progress.zero e.access e.user mc.phys tcb.vmSpace
  refine ⟨⟨rfl, (wrap_of_lt hlt.1).symm, (wrap_of_lt hlt.2).symm, rfl, hst.withSpace_self.symm, ?_⟩,
    ⟨hst.tidy, Kept.refl hst.tidy.ok hst.tidy.accounted, hp.valid_iff, rfl, fun va => ?_⟩, hp⟩
  · rw [Ends.kernelAfter]
    cases e.access with
    | load =>
      funext a
      dsimp only
      rw [if_neg (by omega)]
      rfl
    | store => rfl
  · rw [Ends.userAfter]
    cases e.access with
    | load => rfl
    | store =>
      dsimp only
      rw [if_neg (by omega)]

/-- **`copy_from_user` and `copy_to_user`.**  They end, and what they return tells how much of the
range could be accessed, and so was copied. -/
theorem uaccess_spec (hst : Standing img first rest created gone mc tcb) (hval : e.Valid)
    (hlb : ua.lb ≠ ua.fix) (hsb : ua.sb ≠ ua.fix) (kernel : ℕ → ℕ) :
    ∃ c r k s, Copy.run ua (5 * e.len + 1) (Copy.start mc kernel e.src e.dst e.len) = .ok c ∧
      Copied img first rest mc tcb kernel e r c k s := by
  obtain ⟨n, hn, c, i, k, s, hrun, hi, hdone⟩ :=
    copy_ends hst hval hlb hsb e.len (Nat.zero_add _) (loopAt_start kernel hst hval)
  refine ⟨c, e.len - i, k, s, ?_, copied_of_done hval hi hdone⟩
  obtain ⟨d, hd⟩ := Nat.exists_eq_add_of_le hn
  rw [hd, Copy.run_add, hrun]
  exact Copy.run_done ua hdone.regs.pc_eq d

/-- Four bytes from two pages of the small area. -/
theorem uaccess_spec_sample : ∃ c r k s,
    Copy.run ⟨0x100, 0x104, 0x108⟩ 21 (Copy.start sampleMachine (fun _ => 0) 0x10ffe kernelVaOffset 4) =
        .ok c ∧
      Copied sampleImage 0 [0, 1, 2] sampleMachine sampleTask (fun _ => 0)
        ⟨.load, 0x10ffe, kernelVaOffset, 4⟩ r c k s :=
  uaccess_spec (e := ⟨.load, 0x10ffe, kernelVaOffset, 4⟩) sampleMachine_standing
    ⟨by decide, by decide, by decide, by decide⟩ (by decide) (by decide) _

end RCoreKernel.Trap
