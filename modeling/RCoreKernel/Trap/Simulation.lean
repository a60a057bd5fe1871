import RCoreKernel.Task.Programs
import RCoreKernel.Trap.Syscalls

/-!
# The trap handlers carry out the steps of the tasks

`Syscall.Tasks` says what may happen to the memory of the tasks, one space after the other.  Here it
is the machine that runs: user programs load, store and trap, `u_trap_handler` serves the trap, and
`run_next_task` goes on with some task.  Each of these is a run of the steps there.

* `Machine.Shows` — the spaces of the machine, in any order;
* `copyFromUser_does` — `__uaccess`, an access after the other, with the page faults in between;
* `Simulates.trap` — **a trap**: of the running task only, and what its registers ask for;
* `machine_lives` — **the memory of a task is its ELF file, and what its own accesses and calls have
  made of it**.
-/

namespace RCoreKernel.Trap

open Mm Mm.VMSpace Mm.RootPgt Components Syscall RCoreKernel.Task

/-! ### The spaces of the machine -/

/-- The tasks with their spaces. -/
def Machine.spaces (mc : Machine) : List (ℕ × VMSpace) :=
  mc.kernel.allTasks.map fun t => (t.taskId, t.vmSpace)

/-- The order of the list is the scheduler's. -/
structure Machine.Shows (mc : Machine) (w : Tasks.World) : Prop where
  phys : mc.phys = w.phys
  tasks : mc.spaces.Perm w.tasks

variable {img : KernelImage} {first : ℕ} {rest created gone : List ℕ} {mc mc' : Machine}
  {tcb : TaskControlBlock VMSpace} {k k' : Phys} {s s' : VMSpace} {A B : List (ℕ × VMSpace)}
  {w w' : Tasks.World} {log ls : List (Label ℕ AddressSpace Syscall.Action)} {as : List Syscall.Action}

/-- Some change to the control block of a task. -/
theorem spaces_modifyTcb (hfind : mc.kernel.findTcb tcb.taskId = some tcb)
    {f : TaskControlBlock VMSpace → TaskControlBlock VMSpace} (hid : (f tcb).taskId = tcb.taskId) :
    ∃ A B, mc.spaces = A ++ (tcb.taskId, tcb.vmSpace) :: B ∧ ∀ k,
      Machine.spaces ⟨k, mc.kernel.modifyTcb tcb.taskId f⟩ =
        A ++ (tcb.taskId, (f tcb).vmSpace) :: B := by
  obtain ⟨A, B, hs, -, hs'⟩ := modifyTcb_allTasks hfind f
  refine ⟨A.map fun t => (t.taskId, t.vmSpace), B.map fun t => (t.taskId, t.vmSpace), ?_, fun k => ?_⟩
  · rw [Machine.spaces, hs, List.map_append, List.map_cons]
  · rw [Machine.spaces]
    dsimp only
    rw [hs', List.map_append, List.map_cons, hid]

theorem Machine.Shows.withSpace (hfind : mc.kernel.findTcb tcb.taskId = some tcb)
    (h : mc.Shows ⟨k, A ++ (tcb.taskId, tcb.vmSpace) :: B⟩) (k' : Phys) (s' : VMSpace) :
    (mc.withSpace tcb.taskId k' s').Shows ⟨k', A ++ (tcb.taskId, s') :: B⟩ := by
  obtain ⟨A', B', hs, hs'⟩ :=
    spaces_modifyTcb (f := fun tcb => { tcb with vmSpace := s' }) hfind rfl
  refine ⟨rfl, ?_⟩
  have hperm := h.tasks
  rw [hs] at hperm
  rw [Machine.withSpace, hs' k']
  -- the other tasks are the same on both sides
  have hothers := (List.perm_middle.symm.trans (hperm.trans List.perm_middle)).cons_inv
  exact List.perm_middle.trans ((hothers.cons _).trans List.perm_middle.symm)

/-- The running task stands somewhere among the tasks. -/
theorem Machine.Shows.split (h : mc.Shows w) (hmem : tcb ∈ mc.kernel.allTasks) :
    ∃ A B, w = ⟨mc.phys, A ++ (tcb.taskId, tcb.vmSpace) :: B⟩ := by
  have hin : (tcb.taskId, tcb.vmSpace) ∈ w.tasks :=
    h.tasks.mem_iff.mp (List.mem_map_of_mem (f := fun t => (t.taskId, t.vmSpace)) hmem)
  obtain ⟨A, B, hs⟩ := List.append_of_mem hin
  exact ⟨A, B, by rw [h.phys, ← hs]⟩

/-! ### Steps of the running task -/

/-- Steps of the running task lead to `mc'`. -/
def Moves (img : KernelImage) (mc : Machine) (tcb : TaskControlBlock VMSpace)
    (A B : List (ℕ × VMSpace)) (as : List Syscall.Action) (mc' : Machine) : Prop :=
  ∃ k s ls, mc' = mc.withSpace tcb.taskId k s ∧
    Components.Run (Tasks.Step img.root img.pages) ⟨mc.phys, A ++ (tcb.taskId, tcb.vmSpace) :: B⟩ ls
      ⟨k, A ++ (tcb.taskId, s) :: B⟩ ∧ Does tcb.taskId ls as

section Moves

variable (hst : Standing img first (Tasks.othersPages img A B) created gone mc tcb)

include hst

theorem Moves.refl : Moves img mc tcb A B [] mc :=
  ⟨mc.phys, tcb.vmSpace, [], hst.withSpace_self.symm, .start, .nil _⟩

/-- A page fault is a step without an action, served or refused. -/
theorem doPageFault_does {va : ℕ} (hva : checkUVa va = true) {access : Access}
    (hnot : ¬Permits mc.phys.mem tcb.vmSpace.rootPgt.ppn va access) {r : Except VMError Unit}
    (h : doPageFault mc tcb.taskId va access.minPermissions = .ok (r, mc')) :
    Moves img mc tcb A B [] mc' := by
  rw [hst.doPageFault] at h
  split at h
  · cases h
  · rename_i k s hmap
    obtain ⟨-, rfl⟩ := Prod.mk.inj (Except.ok.inj h)
    exact ⟨k, s, _, rfl, .step .start (.fault _ A B _ _ va access _ k s hva hnot hmap), .silent _⟩
  · rename_i k s hmap
    obtain ⟨-, rfl⟩ := Prod.mk.inj (Except.ok.inj h)
    exact ⟨k, s, _, rfl, .step .start (.fault _ A B _ _ va access _ k s hva hnot hmap), .silent _⟩

end Moves

/-! ### The copy -/

/-- An access to user memory, as the task sees it. -/
def accessed : Access → ℕ → ℕ → Syscall.Action
  | .load => .load
  | .store => .store

/-- Accesses to consecutive addresses. -/
def Accesses (access : Access) (user n : ℕ) (as : List Syscall.Action) : Prop :=
  List.Forall₂ (fun i a => ∃ byte, a = accessed access (user + i) byte) (List.range n) as

theorem Accesses.succ {access : Access} {user n : ℕ} {as : List Syscall.Action}
    (h : Accesses access user n as) (byte : ℕ) :
    Accesses access user (n + 1) (as ++ [accessed access (user + n) byte]) := by
  rw [Accesses, List.range_succ]
  exact List.rel_append h (.cons ⟨byte, rfl⟩ .nil)

/-- How many accesses to user memory have been made. -/
def accessCount (access : Access) (i : ℕ) : CopyPc → ℕ
  | .sb => if access = .load then i + 1 else i
  | .bump => i + 1
  | _ => i

/-- In the middle of a copy for the running task: `i` bytes are copied. -/
structure Copying (img : KernelImage) (mc : Machine) (tcb : TaskControlBlock VMSpace)
    (A B : List (ℕ × VMSpace)) (e : Ends) (i : ℕ) (c : Copy) (k : Phys) (s : VMSpace)
    (ls : List (Label ℕ AddressSpace Syscall.Action)) (as : List Syscall.Action) : Prop where
  machine : c.mc = mc.withSpace tcb.taskId k s
  run : Components.Run (Tasks.Step img.root img.pages) ⟨mc.phys, A ++ (tcb.taskId, tcb.vmSpace) :: B⟩ ls
    ⟨k, A ++ (tcb.taskId, s) :: B⟩
  does : Does tcb.taskId ls as
  accesses : Accesses e.access e.user (accessCount e.access i c.pc) as
  le : i ≤ e.len
  more : c.pc ≠ .loop → c.pc ≠ .done → i < e.len
  a0 : c.a0 = wrap (e.src + i)
  a1 : c.a1 = wrap (e.dst + i)
  t5 : c.t5 = wrap (e.src + e.len)

variable {e : Ends} {ua : UAccess} {c c' : Copy} {i : ℕ}

/-- The address of the next byte at both ends. -/
theorem Ends.Valid.next (h : e.Valid) (hi : i < e.len) :
    checkUVa (e.user + i) = true ∧ wrap (e.user + i) = e.user + i ∧
      ¬kernelVaOffset ≤ e.user + i ∧ wrap (e.kernel + i) = e.kernel + i ∧
      kernelVaOffset ≤ e.kernel + i :=
  ⟨(h.check hi).1, h.wrap_user hi.le, h.user_half hi, h.wrap_kernel hi, h.kernel_half i⟩

section Copy

variable (hst : Standing img first (Tasks.othersPages img A B) created gone mc tcb)
  (hin : Tasks.InOrder img first ⟨mc.phys, A ++ (tcb.taskId, tcb.vmSpace) :: B⟩) (hval : e.Valid)

include hin

theorem Copying.tidy (h : Copying img mc tcb A B e i c k s ls as) :
    Tidy img first (Tasks.othersPages img A B) k s :=
  (Tasks.independent.inv_of_run hin h.run).tidy

include hst

/-- An access that faults: the copy goes on where it was, or at the end. -/
theorem Copying.fault (h : Copying img mc tcb A B e i c k s ls as) {access : Access} {va : ℕ}
    (hva : checkUVa va = true) (hnot : ¬Permits k.mem s.rootPgt.ppn va access)
    (hcount : accessCount e.access i c.pc = i) (hf : c.fault ua access va = .ok c') :
    ∃ i k s ls as, Copying img mc tcb A B e i c' k s ls as := by
  have hst' := hst.withSpace (h.tidy hin)
  have htp : c.mc.kernel.tp ≠ 0 := by
    rw [h.machine]
    exact hst'.tp_ne_zero
  rw [Copy.fault, kTrapHandler_fault ua htp, kPageFault, h.machine, hst'.taskIdAt_tp] at hf
  dsimp only at hf
  rw [← h.machine] at hf
  have hacc := h.accesses
  rw [hcount] at hacc
  -- served or refused, the registers are the same
  have hnext : ∀ {r : Except VMError Unit} {mc' : Machine} {pc : CopyPc},
      doPageFault c.mc tcb.taskId va access.minPermissions = .ok (r, mc') → pc = .done ∨ pc = c.pc →
      ∃ k s ls as, Copying img mc tcb A B e i { c with mc := mc', pc := pc } k s ls as := by
    intro r mc' pc hdo hpc
    rw [h.machine] at hdo
    obtain ⟨k', s', ls', rfl, hrun, hdoes⟩ := doPageFault_does hst' hva hnot hdo
    have hdoes' := h.does.append hdoes
    rw [List.append_nil] at hdoes'
    rw [withSpace_withSpace]
    refine ⟨k', s', _, as, rfl, h.run.append hrun, hdoes', ?_, h.le, fun hl hd => ?_, h.a0, h.a1, h.t5⟩
    · rcases hpc with rfl | rfl
      · exact hacc
      · exact h.accesses
    · rcases hpc with rfl | rfl
      · exact absurd rfl hd
      · exact h.more hl hd
  cases hdo : doPageFault c.mc tcb.taskId va access.minPermissions with
  | error crash =>
    rw [hdo] at hf
    cases hf
  | ok x =>
    obtain ⟨r, mc'⟩ := x
    rw [hdo] at hf
    cases r with
    | ok u =>
      obtain rfl := Except.ok.inj hf
      refine ⟨i, hnext hdo ?_⟩
      split
      · exact Or.inl rfl
      · exact Or.inr rfl
    | error error =>
      obtain rfl := Except.ok.inj hf
      refine ⟨i, hnext hdo ?_⟩
      rw [if_pos rfl]
      exact Or.inl rfl

include hval

/-- `lb`. -/
theorem Copying.lb (h : Copying img mc tcb A B e i c k s ls as) (hpc : c.pc = .lb)
    (hstep : c.step ua = .ok c') : ∃ i k s ls as, Copying img mc tcb A B e i c' k s ls as := by
  have hi : i < e.len := h.more (by simp [hpc]) (by simp [hpc])
  obtain ⟨hva, huser, hnotk, hkernel, hk⟩ := hval.next hi
  have hacc : Accesses e.access e.user i as := by
    have hacc := h.accesses
    rw [hpc] at hacc
    exact hacc
  rw [Copy.step, hpc] at hstep
  dsimp only at hstep
  cases haccess : e.access with
  | store =>
    -- a byte of the kernel
    have ha0 : c.a0 = e.kernel + i := by rw [h.a0, Ends.src, haccess, hkernel]
    have hload : c.load c.a0 = some (c.kernel (e.kernel + i) % 256) := by
      rw [ha0, Copy.load, if_pos hk]
    rw [hload] at hstep
    obtain rfl := Except.ok.inj hstep
    refine ⟨i, k, s, ls, as, h.machine, h.run, h.does, ?_, h.le, fun _ _ => hi, h.a0, h.a1, h.t5⟩
    rw [accessCount, haccess, if_neg (by decide)]
    rwa [haccess] at hacc
  | load =>
    have ha0 : c.a0 = e.user + i := by rw [h.a0, Ends.src, haccess, huser]
    have hload : c.load c.a0 = if Permits k.mem s.rootPgt.ppn (e.user + i) .load then
        some (byteAt k.mem (pageAt ⟨k, s⟩ (e.user + i)) ((e.user + i) % 4096)) else none := by
      rw [ha0, Copy.load, if_neg hnotk, h.machine, space_withSpace hst (h.tidy hin), Option.bind_some,
        withSpace_phys]
    rw [hload] at hstep
    by_cases hpermits : Permits k.mem s.rootPgt.ppn (e.user + i) .load
    · rw [if_pos hpermits] at hstep
      obtain rfl := Except.ok.inj hstep
      refine ⟨i, k, s, _, _, h.machine, h.run.step (.load k A B tcb.taskId s _ hva hpermits),
        h.does.append (.act _ _), ?_, h.le, fun _ _ => hi, h.a0, h.a1, h.t5⟩
      rw [accessCount, haccess, if_pos rfl]
      rw [haccess] at hacc
      exact hacc.succ _
    · rw [if_neg hpermits] at hstep
      dsimp only at hstep
      rw [ha0] at hstep
      exact h.fault hst hin hva hpermits (by rw [hpc]; rfl) hstep

/-- `sb`. -/
theorem Copying.sb (h : Copying img mc tcb A B e i c k s ls as) (hpc : c.pc = .sb)
    (hstep : c.step ua = .ok c') : ∃ i k s ls as, Copying img mc tcb A B e i c' k s ls as := by
  have hi : i < e.len := h.more (by simp [hpc]) (by simp [hpc])
  obtain ⟨hva, huser, hnotk, hkernel, hk⟩ := hval.next hi
  have hacc : Accesses e.access e.user (if e.access = .load then i + 1 else i) as := by
    have hacc := h.accesses
    rw [hpc] at hacc
    exact hacc
  rw [Copy.step, hpc] at hstep
  dsimp only at hstep
  cases haccess : e.access with
  | load =>
    have ha1 : c.a1 = e.kernel + i := by rw [h.a1, Ends.dst, haccess, hkernel]
    have hstore : c.store c.a1 (c.t6 % 256) =
        some { c with kernel := Function.update c.kernel c.a1 (c.t6 % 256) } :=
      if_pos (ha1.symm ▸ hk)
    rw [hstore] at hstep
    obtain rfl := Except.ok.inj hstep
    rw [haccess, if_pos rfl] at hacc
    exact ⟨i, k, s, ls, as, h.machine, h.run, h.does, by rwa [haccess], h.le, fun _ _ => hi, h.a0,
      h.a1, h.t5⟩
  | store =>
    have ha1 : c.a1 = e.user + i := by rw [h.a1, Ends.dst, haccess, huser]
    rw [haccess, if_neg (by decide)] at hacc
    rw [← ha1] at hva hnotk
    have hstore : c.store c.a1 (c.t6 % 256) = if Permits k.mem s.rootPgt.ppn c.a1 .store then
        some { c with mc := mc.withSpace tcb.taskId { k with
          mem := storeByte k.mem (pageAt ⟨k, s⟩ c.a1) (c.a1 % 4096) (c.t6 % 256) } s } else none := by
      rw [Copy.store, if_neg hnotk, h.machine, space_withSpace hst (h.tidy hin), Option.bind_some,
        withSpace_phys]
      rfl
    rw [hstore] at hstep
    by_cases hpermits : Permits k.mem s.rootPgt.ppn c.a1 .store
    · rw [if_pos hpermits] at hstep
      obtain rfl := Except.ok.inj hstep
      have hbyte : c.t6 % 256 < 256 := Nat.mod_lt _ (by decide)
      refine ⟨i, _, s, _, _, rfl, h.run.step (.store k A B tcb.taskId s _ _ hva hpermits hbyte),
        h.does.append (.act _ _), ?_, h.le, fun _ _ => hi, h.a0, h.a1, h.t5⟩
      rw [haccess, ha1]
      exact hacc.succ _
    · rw [if_neg hpermits] at hstep
      refine h.fault hst hin hva hpermits ?_ hstep
      rw [hpc, haccess]
      rfl

/-- **One instruction of `__uaccess`.** -/
theorem Copying.step (h : Copying img mc tcb A B e i c k s ls as) (hstep : c.step ua = .ok c') :
    ∃ i k s ls as, Copying img mc tcb A B e i c' k s ls as := by
  cases hpc : c.pc with
  | lb => exact h.lb hst hin hval hpc hstep
  | sb => exact h.sb hst hin hval hpc hstep
  | done =>
    rw [Copy.step, hpc] at hstep
    obtain rfl := Except.ok.inj hstep
    exact ⟨i, k, s, ls, as, h⟩
  | loop =>
    rw [Copy.step, hpc] at hstep
    obtain rfl := Except.ok.inj hstep
    have hacc := h.accesses
    rw [hpc] at hacc
    have hend : signed c.t5 ≤ signed c.a0 ↔ i = e.len := by
      rw [h.t5, h.a0]
      exact hval.signed_le h.le
    refine ⟨i, k, s, ls, as, h.machine, h.run, h.does, ?_, h.le, fun _ hne => ?_, h.a0, h.a1, h.t5⟩
    · dsimp only
      split <;> exact hacc
    · have hle := h.le
      by_contra hge
      exact hne (if_pos (hend.mpr (by omega)))
  | bump =>
    have hi : i < e.len := h.more (by simp [hpc]) (by simp [hpc])
    rw [Copy.step, hpc] at hstep
    obtain rfl := Except.ok.inj hstep
    have hacc := h.accesses
    rw [hpc] at hacc
    refine ⟨i + 1, k, s, ls, as, h.machine, h.run, h.does, hacc, hi, fun hne => absurd rfl hne, ?_, ?_,
      h.t5⟩
    · dsimp only
      rw [h.a0, wrap_succ]
    · dsimp only
      rw [h.a1, wrap_succ]

theorem Copying.steps (h : Copying img mc tcb A B e i c k s ls as) {n : ℕ}
    (hrun : Copy.run ua n c = .ok c') : ∃ i k s ls as, Copying img mc tcb A B e i c' k s ls as := by
  induction n generalizing c i k s ls as with
  | zero =>
    obtain rfl := Except.ok.inj hrun
    exact ⟨i, k, s, ls, as, h⟩
  | succ n ih =>
    rw [Copy.run] at hrun
    cases hstep : c.step ua with
    | error crash =>
      rw [hstep] at hrun
      cases hrun
    | ok c₁ =>
      rw [hstep] at hrun
      obtain ⟨_, _, _, _, _, h₁⟩ := h.step hst hin hval hstep
      exact ih h₁ hrun

end Copy

/-! ### The calls -/

section Calls

variable (hst : Standing img first (Tasks.othersPages img A B) created gone mc tcb)

include hst

/-- **A copy makes its accesses one after the other, and may stop at a page fault.** -/
theorem copyFromUser_does
    (hin : Tasks.InOrder img first ⟨mc.phys, A ++ (tcb.taskId, tcb.vmSpace) :: B⟩)
    (hval : e.Valid) {kernel : ℕ → ℕ}
    (h : copyFromUser ua mc kernel e.src e.dst e.len = .ok c) :
    ∃ n as, n ≤ e.len ∧ Accesses e.access e.user n as ∧ Moves img mc tcb A B as c.mc := by
  have hlt : e.src < 2 ^ 64 ∧ e.dst < 2 ^ 64 := by
    have huser := (checkUVaRange_le hval.user).2
    have hkernel := hval.kernel_lt
    rw [userSpaceEnd_eq] at huser
    unfold Ends.src Ends.dst
    constructor <;> cases e.access <;> dsimp only <;> omega
  have hstart : Copying img mc tcb A B e 0 (Copy.start mc kernel e.src e.dst e.len) mc.phys tcb.vmSpace
      [] [] :=
    ⟨hst.withSpace_self.symm, .start, .nil _, .nil, Nat.zero_le _, fun hne => absurd rfl hne,
      (wrap_of_lt hlt.1).symm, (wrap_of_lt hlt.2).symm, rfl⟩
  rw [copyFromUser] at h
  split at h
  · cases h
  rename_i c' hrun
  split at h
  · rename_i hdone
    obtain rfl := Except.ok.inj h
    obtain ⟨i, k, s, ls, as, hc⟩ := hstart.steps hst hin hval hrun
    have hacc := hc.accesses
    rw [hdone] at hacc
    exact ⟨i, as, hc.le, hacc, k, s, ls, hc.machine, hc.run, hc.does⟩
  · cases h

omit hst in
/-- Nothing is copied from an empty buffer. -/
theorem copyFromUser_empty {kernel : ℕ → ℕ} {buf dst : ℕ} (hbuf : buf < 2 ^ 64)
    (h : copyFromUser ua mc kernel buf dst 0 = .ok c) : c.mc = mc := by
  have ht5 : (Copy.start mc kernel buf dst 0).t5 = buf := wrap_of_lt hbuf
  have hstep : (Copy.start mc kernel buf dst 0).step ua =
      .ok { Copy.start mc kernel buf dst 0 with pc := .done } := by
    show Except.ok { Copy.start mc kernel buf dst 0 with
      pc := if signed (Copy.start mc kernel buf dst 0).t5 ≤ signed buf then .done else .lb } = _
    rw [ht5, if_pos le_rfl]
  rw [copyFromUser, Copy.run_succ hstep] at h
  obtain rfl := Except.ok.inj h
  rfl

theorem mmapCall_does {addr len prot : ℕ} {code : ℤ} (h : mmapCall mc addr len prot = .ok (code, mc')) :
    Moves img mc tcb A B [.mmap addr len prot code] mc' := by
  have hmmap : ∃ s', Syscall.mmap tcb.vmSpace addr len prot = (.ok code, s') ∧
      mc' = mc.withSpace tcb.taskId mc.phys s' := by
    unfold mmapCall at h
    unfold Syscall.mmap
    by_cases haccept : mmapAccepts addr len prot = true
    · simp only [haccept, if_true, hst.ongoing.current, hst.ongoing.find] at h ⊢
      split at h
      · cases h
      rename_i hcode
      obtain ⟨rfl, rfl⟩ := Prod.mk.inj (Except.ok.inj h)
      exact ⟨_, Prod.ext hcode rfl, rfl⟩
    · rw [if_neg haccept] at h ⊢
      obtain ⟨rfl, rfl⟩ := Prod.mk.inj (Except.ok.inj h)
      exact ⟨_, rfl, hst.withSpace_self.symm⟩
  obtain ⟨s', hs', rfl⟩ := hmmap
  exact ⟨_, s', _, rfl, .step .start (.mmap mc.phys A B _ _ addr len prot code s' hs'), .act _ _⟩

theorem munmapCall_does {addr len : ℕ} {code : ℤ} (h : munmapCall mc addr len = .ok (code, mc')) :
    Moves img mc tcb A B [.munmap addr len code] mc' := by
  have hmunmap : ∃ k' s', Syscall.munmap mc.phys tcb.vmSpace addr len = (.ok code, k', s') ∧
      mc' = mc.withSpace tcb.taskId k' s' := by
    unfold munmapCall at h
    unfold Syscall.munmap
    by_cases hrange : (!checkUVaRange addr len) = true
    · rw [if_pos hrange] at h ⊢
      obtain ⟨rfl, rfl⟩ := Prod.mk.inj (Except.ok.inj h)
      exact ⟨_, _, rfl, hst.withSpace_self.symm⟩
    rw [if_neg hrange] at h ⊢
    by_cases hlen : len = 0
    · rw [if_pos hlen] at h ⊢
      obtain ⟨rfl, rfl⟩ := Prod.mk.inj (Except.ok.inj h)
      exact ⟨_, _, rfl, hst.withSpace_self.symm⟩
    rw [if_neg hlen] at h ⊢
    simp only [hst.ongoing.current, hst.ongoing.find] at h
    split at h
    · cases h
    rename_i hcode
    obtain ⟨rfl, rfl⟩ := Prod.mk.inj (Except.ok.inj h)
    exact ⟨_, _, Prod.ext hcode rfl, rfl⟩
  obtain ⟨k', s', hs', rfl⟩ := hmunmap
  exact ⟨k', s', _, rfl, .step .start (.munmap mc.phys A B _ _ addr len code k' s' hs'), .act _ _⟩

variable (hin : Tasks.InOrder img first ⟨mc.phys, A ++ (tcb.taskId, tcb.vmSpace) :: B⟩)

include hin

theorem sysTaskInfo_does {info : InfoLayout} {memory : ℕ → ℕ} {taskId dst : ℕ} {code : ℤ}
    (h : sysTaskInfo info ua mc memory taskId dst = .ok (code, mc')) :
    ∃ n as, n ≤ info.size ∧ Accesses .store dst n as ∧ Moves img mc tcb A B as mc' := by
  unfold sysTaskInfo at h
  split at h
  · obtain ⟨rfl, rfl⟩ := Prod.mk.inj (Except.ok.inj h)
    exact ⟨0, [], Nat.zero_le _, .nil, .refl hst⟩
  rename_i hrange
  split at h
  · obtain ⟨rfl, rfl⟩ := Prod.mk.inj (Except.ok.inj h)
    exact ⟨0, [], Nat.zero_le _, .nil, .refl hst⟩
  dsimp only at h
  split at h
  · cases h
  rename_i hcopy
  obtain ⟨rfl, rfl⟩ := Prod.mk.inj (Except.ok.inj h)
  obtain ⟨hlow, hlt, hend⟩ := info.placed
  exact copyFromUser_does (e := ⟨.store, dst, info.addr, info.size⟩) hst hin
    ⟨by simpa using hrange, hlow, hlt, hend⟩ hcopy

theorem sysWrite_does {heap : Heap} {memory : ℕ → ℕ} {fd buf count : ℕ} {wr : Written}
    (h : sysWrite heap ua mc memory fd buf count = .ok wr) :
    ∃ n as, n ≤ count ∧ Accesses .load buf n as ∧ Moves img mc tcb A B as wr.mc := by
  unfold sysWrite at h
  split at h
  · obtain rfl := Except.ok.inj h
    exact ⟨0, [], Nat.zero_le _, .nil, .refl hst⟩
  split at h
  · obtain rfl := Except.ok.inj h
    exact ⟨0, [], Nat.zero_le _, .nil, .refl hst⟩
  rename_i hrange
  split at h
  · cases h
  rename_i dst kernel hvec
  split at h
  · cases h
  rename_i c hcopy
  have hmc : wr.mc = c.mc := by
    split at h
    · obtain rfl := Except.ok.inj h
      rfl
    · split at h
      · cases h
      · obtain rfl := Except.ok.inj h
        rfl
  rw [hmc]
  have hrange' : checkUVaRange buf count = true := by simpa using hrange
  rcases vecZeros_ok hvec with rfl | ⟨hlow, hlt, hend⟩
  · have hle := (checkUVaRange_le hrange').2
    rw [userSpaceEnd_eq] at hle
    rw [copyFromUser_empty (by omega) hcopy]
    exact ⟨0, [], Nat.zero_le _, .nil, .refl hst⟩
  · exact copyFromUser_does (e := ⟨.load, buf, dst, count⟩) hst hin ⟨hrange', hlow, hlt, hend⟩ hcopy

end Calls

/-! ### The scheduler -/

/-- `run_next_task` drops the control block of a task that has ended. -/
def dropTask (k : Phys) : Option (TaskControlBlock VMSpace) → Phys
  | some tcb => VMSpace.drop k tcb.vmSpace
  | none => k

/-- Where the kernel goes on, unless it shuts down. -/
def UEnd.after (mc : Machine) : UEnd → Option Machine
  | .resume => some mc
  | .next (.switch _ dropped _ st) => some ⟨dropTask mc.phys dropped, st⟩
  | .next (.shutdown _ _) => none

/-- A change that is not to the space. -/
theorem spaces_modifyTcb_same {st : Kernel VMSpace} {taskId : ℕ}
    {f : TaskControlBlock VMSpace → TaskControlBlock VMSpace}
    (hf : ∀ t, (f t).taskId = t.taskId ∧ (f t).vmSpace = t.vmSpace) (k : Phys) :
    Machine.spaces ⟨k, st.modifyTcb taskId f⟩ = Machine.spaces ⟨k, st⟩ := by
  cases hfind : st.findTcb taskId with
  | none =>
    have hnone : Vec.modifyFind (fun t => decide (t.taskId = taskId)) f st.allTasks = st.allTasks :=
      Vec.modifyFind_of_forall (fun t ht => by simpa using List.find?_eq_none.mp hfind t ht) f
    rw [Machine.spaces, Kernel.modifyTcb]
    dsimp only
    rw [hnone]
    rfl
  | some tcb =>
    obtain ⟨A, B, hs, -, hs'⟩ := modifyTcb_allTasks hfind f
    simp only [Machine.spaces, hs', hs, List.map_append, List.map_cons, (hf tcb).1, (hf tcb).2]

theorem spaces_leaving (hong : Ongoing created gone mc.kernel tcb) (hrun : tcb.state = .running)
    {a : Action VMSpace} {new : TaskState} (ha : a.leaves = some new) {time : ℕ}
    {st : Kernel VMSpace} (h : a.apply mc.kernel time = .ok st) (k : Phys) :
    Machine.spaces ⟨k, st⟩ = Machine.spaces ⟨k, mc.kernel⟩ := by
  have hleave : ∀ new, mc.kernel.leaveRunning new = .ok st →
      Machine.spaces ⟨k, st⟩ = Machine.spaces ⟨k, mc.kernel⟩ := fun new h => by
    obtain rfl := Except.ok.inj ((leaveRunning_eq hong.current hong.find hrun new).symm.trans h)
    exact spaces_modifyTcb_same (f := fun tcb => tcb.setState new) (fun _ => ⟨rfl, rfl⟩) k
  have hend : ∀ new, mc.kernel.endSlice new time = .ok st →
      Machine.spaces ⟨k, st⟩ = Machine.spaces ⟨k, mc.kernel⟩ := fun new h => by
    obtain rfl := Except.ok.inj ((endSlice_eq hong.current hong.find hrun new time).symm.trans h)
    exact (spaces_modifyTcb_same (f := fun tcb => tcb.recordRunEnd time) (fun _ => ⟨rfl, rfl⟩) k).trans
      (spaces_modifyTcb_same (f := fun tcb => tcb.setState new) (fun _ => ⟨rfl, rfl⟩) k)
  cases a with
  | timer => exact hend _ h
  | kill => exact hend _ h
  | exit => exact hleave _ h
  | yield => exact hleave _ h
  | syscall => cases ha
  | space => cases ha

/-- `run_next_task` reorders the list, and drops no other task than the current one. -/
theorem spaces_runNextTask {st st' : Kernel VMSpace} {t₁ t₂ t₃ : ℕ}
    {curr dropped : Option (TaskControlBlock VMSpace)} {next : TaskControlBlock VMSpace}
    (h : st.runNextTask t₁ t₂ t₃ = .ok (.switch curr dropped next st')) (k : Phys) :
    (Machine.spaces ⟨k, st⟩).Perm
        ((dropped.toList.map fun t => (t.taskId, t.vmSpace)) ++ Machine.spaces ⟨k, st'⟩) ∧
      ∀ t ∈ dropped, st.tryGetCurrentTaskId = some t.taskId := by
  have hretire : ∀ {curr dropped tasks}, st.retire t₁ = .ok (curr, dropped, tasks) →
      st.allTasks.Perm (dropped.toList ++ tasks) ∧
        ∀ t ∈ dropped, st.tryGetCurrentTaskId = some t.taskId := by
    intro curr dropped tasks h
    unfold Kernel.retire at h
    cases hcur : st.tryGetCurrentTaskId with
    | none =>
      rw [hcur] at h
      obtain ⟨-, rfl, rfl⟩ : _ ∧ none = dropped ∧ st.allTasks = tasks := by simpa using h
      exact ⟨.refl _, fun t ht => absurd ht (by simp)⟩
    | some taskId =>
      rw [hcur] at h
      dsimp only at h
      cases htake : Kernel.takeTaskTcb st.allTasks taskId t₁ with
      | none =>
        rw [htake] at h
        obtain ⟨-, rfl, rfl⟩ : _ ∧ none = dropped ∧ st.allTasks = tasks := by simpa using h
        exact ⟨.refl _, fun t ht => absurd ht (by simp)⟩
      | some x =>
        obtain ⟨tcb, rest⟩ := x
        obtain ⟨hid, hperm⟩ := takeTaskTcb_spec htake
        rw [htake] at h
        dsimp only at h
        split at h
        · obtain ⟨-, rfl, rfl⟩ : _ ∧ none = dropped ∧ rest ++ [tcb] = tasks := by simpa using h
          exact ⟨hperm.trans (List.perm_append_singleton tcb rest).symm,
            fun t ht => absurd ht (by simp)⟩
        split at h
        · cases h
        · obtain ⟨-, rfl, rfl⟩ : _ ∧ some tcb = dropped ∧ rest = tasks := by simpa using h
          refine ⟨hperm, fun t ht => ?_⟩
          rw [← Option.some.inj ht, hid]
  unfold Kernel.runNextTask at h
  split at h
  · cases h
  rename_i hr
  obtain ⟨hperm, hcur⟩ := hretire hr
  dsimp only at h
  split at h
  · cases h
  split at h
  · cases h
  rename_i tasks hnext tcb rest htake
  obtain ⟨-, hperm'⟩ := takeTaskTcb_spec htake
  cases h
  refine ⟨?_, hcur⟩
  have hall := (hperm.trans (hperm'.append_left _)).map fun t => (t.taskId, t.vmSpace)
  rw [List.map_append] at hall
  refine hall.trans (List.Perm.append_left _ ?_)
  -- the block that is started stands at the end
  rw [Machine.spaces]
  dsimp only
  rw [List.map_append, List.map_cons]
  exact (List.perm_append_singleton _ _).symm

/-! ### The turns of the tasks -/

/-- What a task does: an access of its program, or a trap with the registers that it has then. -/
inductive Turn
  | load (taskId va : ℕ)
  | store (taskId va byte : ℕ)
  | trap (taskId scause : ℕ) (call : Call)

def Turn.taskId : Turn → ℕ
  | .load taskId _ => taskId
  | .store taskId _ _ => taskId
  | .trap taskId _ _ => taskId

/-- What a call asks for: `sys_write` loads the buffer, or a part of it, and `sys_task_info` stores to
it. -/
def Call.Asks (infoSize : ℕ) (call : Call) (as : List Syscall.Action) : Prop :=
  if call.syscallId = syscallWrite then ∃ n ≤ call.a2, Accesses .load call.a1 n as
  else if call.syscallId = syscallMmap then ∃ code, as = [.mmap call.a0 call.a1 call.a2 code]
  else if call.syscallId = syscallMunmap then ∃ code, as = [.munmap call.a0 call.a1 code]
  else if call.syscallId = syscallTaskInfo then ∃ n ≤ infoSize, Accesses .store call.a1 n as
  else as = []

/-- Other traps ask for nothing. -/
def Turn.Asks (infoSize : ℕ) (as : List Syscall.Action) : Turn → Prop
  | .load _ va => ∃ byte, as = [.load va byte]
  | .store _ va byte => as = [.store va byte]
  | .trap _ scause call =>
    if matchCause scause = .userEnvironmentCall then call.Asks infoSize as else as = []

/-- The control block of the running task. -/
def Machine.running? (mc : Machine) : Option (TaskControlBlock VMSpace) :=
  mc.kernel.tryGetCurrentTaskId.bind mc.kernel.findTcb

/-- One turn of the machine; the program of the running task makes the access, or it traps and the
kernel goes on.  Of the surroundings only the size of a `TaskInfo` is the same in every turn. -/
inductive MachineStep (infoSize : ℕ) : Machine → Turn → Machine → Prop
  | load {mc : Machine} {tcb : TaskControlBlock VMSpace} {va : ℕ} (hcur : mc.running? = some tcb)
      (hva : checkUVa va = true) (hpermits : Permits mc.phys.mem tcb.vmSpace.rootPgt.ppn va .load) :
      MachineStep infoSize mc (.load tcb.taskId va) mc
  | store {mc : Machine} {tcb : TaskControlBlock VMSpace} {va byte : ℕ} (hcur : mc.running? = some tcb)
      (hva : checkUVa va = true) (hpermits : Permits mc.phys.mem tcb.vmSpace.rootPgt.ppn va .store)
      (hbyte : byte < 256) :
      MachineStep infoSize mc (.store tcb.taskId va byte) { mc with phys := { mc.phys with
        mem := storeByte mc.phys.mem (pageAt ⟨mc.phys, tcb.vmSpace⟩ va) (va % 4096) byte } }
  | trap {env : Surroundings} {mc mc' mc'' : Machine} {tcb : TaskControlBlock VMSpace} {clock : Clock}
      {call : Call} {scause stval : ℕ} {e : UEnd} (hinfo : env.info.size = infoSize)
      (hcur : mc.running? = some tcb)
      (hraised : Raised mc tcb scause stval)
      (h : Trap.trap env clock call mc scause stval = .ok (e, mc')) (hafter : e.after mc' = some mc'') :
      MachineStep infoSize mc (.trap tcb.taskId scause call) mc''

/-- The runs of the machine, with the turns.  Between them the hardware sets accessed and dirty bits,
the kernel uses its stacks, and the free pages may hold anything. -/
inductive MachineRun (infoSize : ℕ) (kernelPages : List ℕ) (start : Machine) :
    List Turn → Machine → Prop
  | start : MachineRun infoSize kernelPages start [] start
  | turn {log : List Turn} {mc mc' : Machine} {turn : Turn}
      (hrun : MachineRun infoSize kernelPages start log mc) (hstep : MachineStep infoSize mc turn mc') :
      MachineRun infoSize kernelPages start (log ++ [turn]) mc'
  | quiet {log : List Turn} {mc : Machine} {m' : Mem} (hrun : MachineRun infoSize kernelPages start log mc)
      (hquiet : Tasks.Quiet kernelPages ⟨mc.phys, mc.spaces⟩ m') :
      MachineRun infoSize kernelPages start log { mc with phys := { mc.phys with mem := m' } }

/-! ### One turn -/

/-- The machine, as a state of `Tasks`. -/
structure Simulates (img : KernelImage) (first : ℕ) (created : List ℕ) (mc : Machine)
    (w : Tasks.World) : Prop where
  shows : mc.Shows w
  order : Tasks.InOrder img first w
  ongoing : ∃ gone tcb, Ongoing created gone mc.kernel tcb ∧ tcb.state = .running

/-- What a task does in a turn, which may be its last. -/
def Turned (id : ℕ) (ls : List (Label ℕ AddressSpace Syscall.Action)) (as : List Syscall.Action) : Prop :=
  Does id ls as ∨ ∃ ls', ls = ls' ++ [.removed id] ∧ Does id ls' as

variable {infoSize : ℕ} {env : Surroundings} {clock : Clock} {call : Call}

/-- The task that runs, and its space beside all others. -/
theorem Simulates.standing (h : Simulates img first created mc w) (hcur : mc.running? = some tcb) :
    ∃ gone A B, w = ⟨mc.phys, A ++ (tcb.taskId, tcb.vmSpace) :: B⟩ ∧
      Standing img first (Tasks.othersPages img A B) created gone mc tcb := by
  obtain ⟨gone, tcb', hong, hrun⟩ := h.ongoing
  have hcur' : mc.running? = some tcb' := by
    rw [Machine.running?, hong.current, Option.bind_some, hong.find]
  obtain rfl := Option.some.inj (hcur'.symm.trans hcur)
  obtain ⟨A, B, rfl⟩ := h.shows.split hong.mem
  exact ⟨gone, A, B, rfl, hong, hrun, h.order.tidy⟩

/-- **The task leaves the state `Running`**, and its space is dropped if it has ended. -/
theorem leaving_does (hst : Standing img first rest created gone mc tcb) (hshows : mc.Shows w)
    {a : Action VMSpace} {new : TaskState} (ha : a.leaves = some new) {st : Kernel VMSpace} {e : UEnd}
    {mc'' : Machine} (happly : a.apply mc.kernel clock.runEnd = .ok st)
    (hrun : runNextTask { mc with kernel := st } clock = .ok (e, mc')) (hafter : e.after mc' = some mc'') :
    ∃ w' ls, Components.Run (Tasks.Step img.root img.pages) w ls w' ∧ mc''.Shows w' ∧
      (∃ gone tcb, Ongoing created gone mc''.kernel tcb ∧ tcb.state = .running) ∧
      (ls = [] ∨ ls = [.removed tcb.taskId]) := by
  obtain ⟨st₁, sw, happly₁, hrun₁, hhanded⟩ := hst.leave ha clock
  obtain rfl := Except.ok.inj (happly₁.symm.trans happly)
  obtain ⟨rfl, rfl⟩ := Prod.mk.inj (Except.ok.inj (hrun₁.symm.trans hrun))
  have hsw : st₁.runNextTask clock.takeCurr clock.takeNext clock.runStart = .ok sw := by
    unfold runNextTask at hrun₁
    dsimp only at hrun₁
    split at hrun₁
    · cases hrun₁
    · rename_i hsw
      cases hrun₁
      exact hsw
  have hsame := spaces_leaving hst.ongoing hst.running ha happly mc.phys
  have hcur : st₁.tryGetCurrentTaskId = some tcb.taskId := by
    obtain ⟨st₂, happly₂, hong, -⟩ := Action.apply_ongoing hst.ongoing hst.running a clock.runEnd
    obtain rfl := Except.ok.inj (happly₂.symm.trans happly)
    rw [hong.current, a.effect_taskId]
  cases sw with
  | shutdown dropped tasks => cases hafter
  | switch curr dropped next st' =>
    obtain rfl := Option.some.inj hafter
    obtain ⟨hperm, hdropped⟩ := spaces_runNextTask hsw mc.phys
    rw [hsame] at hperm
    have hgoes := hperm.symm.trans hshows.tasks
    cases dropped with
    | none => exact ⟨w, [], .start, ⟨hshows.phys, hgoes⟩, ⟨_, _, hhanded, rfl⟩, Or.inl rfl⟩
    | some t =>
      have hid : t.taskId = tcb.taskId := Option.some.inj ((hdropped t rfl).symm.trans hcur)
      have hin : (t.taskId, t.vmSpace) ∈ w.tasks := hgoes.mem_iff.mp (by simp)
      obtain ⟨A, B, hw⟩ := List.append_of_mem hin
      obtain ⟨k, ts⟩ := w
      obtain rfl : mc.phys = k := hshows.phys
      obtain rfl : ts = _ := hw
      refine ⟨_, _, .step .start (.ended mc.phys A B t.taskId t.vmSpace), ⟨rfl, ?_⟩,
        ⟨_, _, hhanded, rfl⟩, Or.inr (by rw [hid]; rfl)⟩
      exact (hgoes.trans List.perm_middle).cons_inv

theorem Turned.of_leaving {id : ℕ} {as : List Syscall.Action}
    {ls₁ ls₂ : List (Label ℕ AddressSpace Syscall.Action)} (h₁ : Does id ls₁ as)
    (h₂ : ls₂ = [] ∨ ls₂ = [.removed id]) : Turned id (ls₁ ++ ls₂) as := by
  rcases h₂ with rfl | rfl
  · rw [List.append_nil]
    exact Or.inl h₁
  · exact Or.inr ⟨ls₁, rfl, h₁⟩

/-- The steps of a turn lead to a state that the machine shows. -/
def Plays (img : KernelImage) (first : ℕ) (created : List ℕ) (w : Tasks.World) (id : ℕ)
    (as : List Syscall.Action) (mc' : Machine) : Prop :=
  ∃ w' ls, Components.Run (Tasks.Step img.root img.pages) w ls w' ∧
    Simulates img first created mc' w' ∧ Turned id ls as

section Trap

variable (hst : Standing img first (Tasks.othersPages img A B) created gone mc tcb)
  (hshows : mc.Shows ⟨mc.phys, A ++ (tcb.taskId, tcb.vmSpace) :: B⟩)
  (hin : Tasks.InOrder img first ⟨mc.phys, A ++ (tcb.taskId, tcb.vmSpace) :: B⟩)

include hst hshows hin

/-- After the steps of the running task. -/
theorem Moves.next (h : Moves img mc tcb A B as mc') :
    ∃ k s ls, mc' = mc.withSpace tcb.taskId k s ∧
      Components.Run (Tasks.Step img.root img.pages) ⟨mc.phys, A ++ (tcb.taskId, tcb.vmSpace) :: B⟩ ls
        ⟨k, A ++ (tcb.taskId, s) :: B⟩ ∧ Does tcb.taskId ls as ∧
      Tasks.InOrder img first ⟨k, A ++ (tcb.taskId, s) :: B⟩ ∧
      mc'.Shows ⟨k, A ++ (tcb.taskId, s) :: B⟩ ∧
      Standing img first (Tasks.othersPages img A B) created gone mc' { tcb with vmSpace := s } := by
  obtain ⟨k, s, ls, rfl, hrun, hdoes⟩ := h
  have hin' := Tasks.independent.inv_of_run hin hrun
  exact ⟨k, s, ls, rfl, hrun, hdoes, hin', hshows.withSpace hst.ongoing.find k s,
    hst.withSpace hin'.tidy⟩

/-- The task is resumed. -/
theorem Moves.resumed (h : Moves img mc tcb A B as mc') :
    Plays img first created ⟨mc.phys, A ++ (tcb.taskId, tcb.vmSpace) :: B⟩ tcb.taskId as mc' := by
  obtain ⟨k, s, ls, -, hrun, hdoes, hin', hshows', hst'⟩ := h.next hst hshows hin
  exact ⟨_, ls, hrun, ⟨hshows', hin', _, _, hst'.ongoing, hst'.running⟩, Or.inl hdoes⟩

/-- The task leaves after some steps. -/
theorem Moves.leaving (h : Moves img mc tcb A B as mc') {a : Action VMSpace} {new : TaskState}
    (ha : a.leaves = some new) {st : Kernel VMSpace} {e : UEnd} {mc₁ mc'' : Machine}
    (happly : a.apply mc'.kernel clock.runEnd = .ok st)
    (hnext : runNextTask { mc' with kernel := st } clock = .ok (e, mc₁))
    (hafter : e.after mc₁ = some mc'') :
    Plays img first created ⟨mc.phys, A ++ (tcb.taskId, tcb.vmSpace) :: B⟩ tcb.taskId as mc'' := by
  obtain ⟨k, s, ls, -, hrun, hdoes, hin', hshows', hst'⟩ := h.next hst hshows hin
  obtain ⟨w', ls', hrun', hshows'', hong, hls'⟩ := leaving_does hst' hshows' ha happly hnext hafter
  exact ⟨w', ls ++ ls', hrun.append hrun',
    ⟨hshows'', Tasks.independent.inv_of_run hin' hrun', hong⟩, .of_leaving hdoes hls'⟩

/-- The task is killed after some steps. -/
theorem Moves.killed {mc₁ mc'' : Machine} {e : UEnd} (h : Moves img mc tcb A B as mc₁)
    (hkill : killAndRunNext mc₁ clock = .ok (e, mc')) (hafter : e.after mc' = some mc'') :
    Plays img first created ⟨mc.phys, A ++ (tcb.taskId, tcb.vmSpace) :: B⟩ tcb.taskId as mc'' := by
  unfold killAndRunNext at hkill
  split at hkill
  · cases hkill
  · rename_i st happly
    exact h.leaving hst hshows hin (a := .kill) rfl happly hkill hafter

theorem uPageFault_does {va : ℕ} (hva : checkUVa va = true) {access : Access}
    (hnot : ¬Permits mc.phys.mem tcb.vmSpace.rootPgt.ppn va access) {e : UEnd} {mc'' : Machine}
    (h : uPageFault mc clock tcb.taskId va access.minPermissions = .ok (e, mc'))
    (hafter : e.after mc' = some mc'') :
    Plays img first created ⟨mc.phys, A ++ (tcb.taskId, tcb.vmSpace) :: B⟩ tcb.taskId [] mc'' := by
  unfold uPageFault at h
  split at h
  · cases h
  · rename_i mc₁ hdo
    obtain ⟨rfl, rfl⟩ := Prod.mk.inj (Except.ok.inj h)
    obtain rfl := Option.some.inj hafter
    exact (doPageFault_does hst hva hnot hdo).resumed hst hshows hin
  · rename_i mc₁ hdo
    exact (doPageFault_does hst hva hnot hdo).killed hst hshows hin h hafter

omit hst hshows hin in
/-- A call that returns resumes its task. -/
theorem returning_after {res : Except Crash (ℤ × Machine)} {e : UEnd} {mc'' : Machine}
    (h : returning res = .ok (e, mc')) (hafter : e.after mc' = some mc'') :
    ∃ code, res = .ok (code, mc'') := by
  cases res with
  | error crash => cases h
  | ok x =>
    obtain ⟨rfl, rfl⟩ := Prod.mk.inj (Except.ok.inj h)
    obtain rfl := Option.some.inj hafter
    exact ⟨x.1, rfl⟩

/-- A call that leaves has no action. -/
theorem leaving_plays {a : Action VMSpace} {new : TaskState} (ha : a.leaves = some new) {e : UEnd}
    {mc'' : Machine} (h : leaving mc clock (a.apply mc.kernel clock.runEnd) = .ok (e, mc'))
    (hafter : e.after mc' = some mc'') :
    Plays img first created ⟨mc.phys, A ++ (tcb.taskId, tcb.vmSpace) :: B⟩ tcb.taskId [] mc'' := by
  cases happly : a.apply mc.kernel clock.runEnd with
  | error site =>
    rw [happly] at h
    cases h
  | ok st =>
    rw [happly] at h
    exact (Moves.refl hst).leaving hst hshows hin ha happly h hafter

/-- A system call. -/
theorem syscallHandler_does {e : UEnd} {mc'' : Machine}
    (h : syscallHandler env clock call mc = .ok (e, mc')) (hafter : e.after mc' = some mc'') :
    ∃ as, call.Asks env.info.size as ∧
      Plays img first created ⟨mc.phys, A ++ (tcb.taskId, tcb.vmSpace) :: B⟩ tcb.taskId as mc'' := by
  unfold syscallHandler at h
  unfold Call.Asks
  by_cases hwrite : call.syscallId = syscallWrite
  · rw [if_pos hwrite] at h
    obtain ⟨code, hcall⟩ := returning_after h hafter
    obtain ⟨wr, hwr, hmc⟩ : ∃ wr, sysWrite env.heap env.ua mc env.memory call.a0 call.a1 call.a2 =
        .ok wr ∧ wr.mc = mc'' := by
      cases hwr : sysWrite env.heap env.ua mc env.memory call.a0 call.a1 call.a2 with
      | error crash =>
        rw [hwr] at hcall
        cases hcall
      | ok wr =>
        rw [hwr] at hcall
        exact ⟨wr, rfl, (Prod.mk.inj (Except.ok.inj hcall)).2⟩
    obtain ⟨n, as, hn, hacc, hmoves⟩ := sysWrite_does hst hin hwr
    rw [hmc] at hmoves
    simp only [if_pos hwrite]
    exact ⟨as, ⟨n, hn, hacc⟩, hmoves.resumed hst hshows hin⟩
  simp only [if_neg hwrite] at h ⊢
  by_cases hmmap : call.syscallId = syscallMmap
  · rw [if_pos hmmap] at h
    obtain ⟨code, hcall⟩ := returning_after h hafter
    simp only [if_pos hmmap]
    exact ⟨_, ⟨code, rfl⟩, (mmapCall_does hst hcall).resumed hst hshows hin⟩
  simp only [if_neg hmmap] at h ⊢
  by_cases hmunmap : call.syscallId = syscallMunmap
  · rw [if_pos hmunmap] at h
    obtain ⟨code, hcall⟩ := returning_after h hafter
    simp only [if_pos hmunmap]
    exact ⟨_, ⟨code, rfl⟩, (munmapCall_does hst hcall).resumed hst hshows hin⟩
  simp only [if_neg hmunmap] at h ⊢
  by_cases hexit : call.syscallId = syscallExit
  · have hother : ¬call.syscallId = syscallTaskInfo := by
      rw [hexit]
      decide
    rw [if_pos hexit] at h
    simp only [if_neg hother]
    exact ⟨[], rfl, leaving_plays (a := .exit) hst hshows hin rfl h hafter⟩
  rw [if_neg hexit] at h
  by_cases hyield : call.syscallId = syscallYield
  · have hother : ¬call.syscallId = syscallTaskInfo := by
      rw [hyield]
      decide
    rw [if_pos hyield] at h
    simp only [if_neg hother]
    exact ⟨[], rfl, leaving_plays (a := .yield) hst hshows hin rfl h hafter⟩
  rw [if_neg hyield] at h
  by_cases hinfo : call.syscallId = syscallTaskInfo
  · rw [if_pos hinfo] at h
    obtain ⟨code, hcall⟩ := returning_after h hafter
    obtain ⟨n, as, hn, hacc, hmoves⟩ := sysTaskInfo_does hst hin hcall
    simp only [if_pos hinfo]
    exact ⟨as, ⟨n, hn, hacc⟩, hmoves.resumed hst hshows hin⟩
  · rw [if_neg hinfo] at h
    cases h

end Trap

/-- **A trap.** -/
theorem Simulates.trap (h : Simulates img first created mc w) (hcur : mc.running? = some tcb)
    {scause stval : ℕ} (hraised : Raised mc tcb scause stval) {e : UEnd} {mc'' : Machine}
    (htrap : Trap.trap env clock call mc scause stval = .ok (e, mc')) (hafter : e.after mc' = some mc'') :
    ∃ as, (Turn.trap tcb.taskId scause call).Asks env.info.size as ∧
      Plays img first created w tcb.taskId as mc'' := by
  obtain ⟨gone, A, B, rfl, hst⟩ := h.standing hcur
  have hshows := h.shows
  have hin := h.order
  replace htrap := trap_ok htrap
  unfold servedTrap uTrapHandler at htrap
  rw [hst.ongoing.current] at htrap
  dsimp only at htrap
  unfold Turn.Asks
  dsimp only
  cases hcause : matchCause scause with
  | supervisorTimerInterrupt =>
    rw [hcause] at htrap
    dsimp only at htrap
    unfold sleepAndRunNext at htrap
    split at htrap
    · cases htrap
    · rename_i st hsleep
      exact ⟨[], rfl, (Moves.refl hst).leaving hst hshows hin (a := .timer) rfl hsleep htrap hafter⟩
  | illegalInstruction =>
    rw [hcause] at htrap
    exact ⟨[], rfl, (Moves.refl hst).killed hst hshows hin htrap hafter⟩
  | instructionPageFault =>
    rw [hcause] at htrap
    exact ⟨[], rfl, (Moves.refl hst).killed hst hshows hin htrap hafter⟩
  | loadPageFault =>
    rw [hcause] at htrap
    dsimp only at htrap
    split at htrap
    · rename_i hva
      exact ⟨[], rfl, uPageFault_does hst hshows hin hva (hraised .load hcause hva)
        htrap hafter⟩
    · cases htrap
  | storeOrAmoPageFault =>
    rw [hcause] at htrap
    dsimp only at htrap
    split at htrap
    · rename_i hva
      exact ⟨[], rfl, uPageFault_does hst hshows hin hva
        (hraised .store hcause hva) htrap hafter⟩
    · cases htrap
  | userEnvironmentCall =>
    rw [hcause] at htrap
    dsimp only at htrap
    obtain ⟨st, hrecord, hst'⟩ := hst.recorded call.syscallId
    rw [hrecord] at htrap
    have hspaces : Machine.spaces ⟨mc.phys, st⟩ = mc.spaces := by
      unfold Kernel.recordCurrentSyscall Kernel.updateTcb at hrecord
      simp only [hst.ongoing.current, hst.ongoing.find] at hrecord
      obtain rfl := Except.ok.inj hrecord
      exact spaces_modifyTcb_same (f := fun tcb => tcb.recordSyscall call.syscallId)
        (fun _ => ⟨rfl, rfl⟩) mc.phys
    have hshows' : Machine.Shows ⟨mc.phys, st⟩ ⟨mc.phys, A ++ (tcb.taskId, tcb.vmSpace) :: B⟩ :=
      ⟨rfl, by rw [hspaces]; exact hshows.tasks⟩
    exact syscallHandler_does hst' hshows' hin htrap hafter
  | _ =>
    rw [hcause] at htrap
    cases htrap

/-- **One turn.** -/
theorem Simulates.turn (h : Simulates img first created mc w) {turn : Turn}
    (hstep : MachineStep infoSize mc turn mc') :
    ∃ as, turn.Asks infoSize as ∧ Plays img first created w turn.taskId as mc' := by
  cases hstep with
  | load hcur hva hpermits =>
    rename_i tcb va
    obtain ⟨gone, A, B, rfl, hst⟩ := h.standing hcur
    exact ⟨_, ⟨_, rfl⟩, _, _, .step .start (.load mc.phys A B tcb.taskId tcb.vmSpace va hva hpermits),
      h, Or.inl (.act _ _)⟩
  | store hcur hva hpermits hbyte =>
    rename_i tcb va byte
    obtain ⟨gone, A, B, rfl, hst⟩ := h.standing hcur
    have hrun : Components.Run (Tasks.Step img.root img.pages)
        ⟨mc.phys, A ++ (tcb.taskId, tcb.vmSpace) :: B⟩ _ _ :=
      .step .start (.store mc.phys A B tcb.taskId tcb.vmSpace va byte hva hpermits hbyte)
    exact ⟨_, rfl, _, _, hrun, ⟨⟨rfl, h.shows.tasks⟩, Tasks.independent.inv_of_run h.order hrun,
      h.ongoing⟩, Or.inl (.act _ _)⟩
  | trap hinfo hcur hraised htrap hafter => exact hinfo ▸ h.trap hcur hraised htrap hafter

theorem Simulates.quiet (h : Simulates img first created mc w) {m' : Mem}
    (hquiet : Tasks.Quiet img.pages ⟨mc.phys, mc.spaces⟩ m') :
    Plays img first created w 0 [] { mc with phys := { mc.phys with mem := m' } } := by
  obtain ⟨k, ts⟩ := w
  obtain rfl : mc.phys = k := h.shows.phys
  have hmem : ∀ x, x ∈ ts ↔ x ∈ mc.spaces := fun x => h.shows.tasks.mem_iff.symm
  have hrun : Components.Run (Tasks.Step img.root img.pages) ⟨mc.phys, ts⟩ _ _ :=
    .step .start (.quiet ⟨mc.phys, ts⟩ m' ⟨fun x hx => hquiet.tables x ((hmem x).mp hx), hquiet.kernel,
      fun x hx => hquiet.data x ((hmem x).mp hx)⟩)
  exact ⟨_, _, hrun, ⟨⟨rfl, h.shows.tasks⟩, Tasks.independent.inv_of_run h.order hrun, h.ongoing⟩,
    Or.inl (.silent _)⟩

/-! ### The runs -/

/-- The actions of a task are those that its turns ask for, in their order. -/
inductive Explained (infoSize id : ℕ) : List Turn → List Syscall.Action → Prop
  | start : Explained infoSize id [] []
  | own {log : List Turn} {es as : List Syscall.Action} {turn : Turn} (h : Explained infoSize id log es)
      (hid : turn.taskId = id) (hasks : turn.Asks infoSize as) :
      Explained infoSize id (log ++ [turn]) (es ++ as)
  | other {log : List Turn} {es : List Syscall.Action} {turn : Turn} (h : Explained infoSize id log es)
      (hid : turn.taskId ≠ id) : Explained infoSize id (log ++ [turn]) es

/-- What a turn adds to the life of a task. -/
theorem life_turned {id j : ℕ} {as : List Syscall.Action} (h : Turned j ls as)
    {x : AddressSpace × List Syscall.Action} (hx : life id (log ++ ls) = some x) :
    ∃ y, life id log = some y ∧ x = if j = id then (y.1, y.2 ++ as) else y := by
  rcases h with hdoes | ⟨ls', rfl, hdoes⟩
  · rw [life_does hdoes] at hx
    split at hx
    · rename_i hid
      obtain ⟨y, hy, rfl⟩ := Option.map_eq_some_iff.mp hx
      exact ⟨y, hy, (if_pos hid).symm⟩
    · rename_i hid
      exact ⟨x, hx, (if_neg hid).symm⟩
  · rw [← List.append_assoc, life_append, life_does hdoes, lifeAfter] at hx
    split at hx
    · cases hx
    · rename_i hid
      exact ⟨x, hx, (if_neg hid).symm⟩

variable {apps : List Elf} {start : Machine} {turns : List Turn} {w₀ : Tasks.World}

/-- **The machine, along a run.** -/
theorem MachineRun.plays
    (h₀ : Components.Run (Tasks.Step img.root img.pages) w₀ (Task.Apps.createdLog apps) w)
    (hsim : Simulates img first created start w)
    (hrun : MachineRun infoSize img.pages start turns mc) :
    ∃ w ls, Components.Run (Tasks.Step img.root img.pages) w₀ ls w ∧ Simulates img first created mc w ∧
      ∀ i x, life (i + 1) ls = some x → ∃ elf, apps[i]? = some elf ∧ x.1 = Tasks.elfSpace elf ∧
        Explained infoSize (i + 1) turns x.2 := by
  induction hrun with
  | start =>
    refine ⟨w, _, h₀, hsim, fun i x hx => ?_⟩
    rw [Task.Apps.life_createdLog] at hx
    obtain ⟨elf, helf, rfl⟩ := Option.map_eq_some_iff.mp hx
    exact ⟨elf, helf, rfl, .start⟩
  | turn _ hstep ih =>
    obtain ⟨w₁, ls, hls, hsim₁, hlife⟩ := ih
    obtain ⟨as, hasks, w₂, ls', hls', hsim₂, hturned⟩ := hsim₁.turn hstep
    refine ⟨w₂, ls ++ ls', hls.append hls', hsim₂, fun i x hx => ?_⟩
    obtain ⟨y, hy, rfl⟩ := life_turned hturned hx
    obtain ⟨elf, helf, hspace, hexp⟩ := hlife i y hy
    split
    · rename_i hid
      exact ⟨elf, helf, hspace, hexp.own hid hasks⟩
    · rename_i hid
      exact ⟨elf, helf, hspace, hexp.other hid⟩
  | quiet _ hquiet ih =>
    obtain ⟨w₁, ls, hls, hsim₁, hlife⟩ := ih
    obtain ⟨w₂, ls', hls', hsim₂, hturned⟩ := hsim₁.quiet hquiet
    refine ⟨w₂, ls ++ ls', hls.append hls', hsim₂, fun i x hx => ?_⟩
    obtain ⟨y, hy, rfl⟩ := life_turned hturned hx
    exact hlife i _ hy

/-- The first task is switched to. -/
theorem simulates_boot {b : Boot} (hboot : Booted created b.kernel)
    (hin : Tasks.InOrder img first (Task.Apps.worldOf b))
    {curr dropped : Option (TaskControlBlock VMSpace)} {next : TaskControlBlock VMSpace}
    {st : Kernel VMSpace}
    (h : b.kernel.runNextTask clock.takeCurr clock.takeNext clock.runStart =
      .ok (.switch curr dropped next st)) :
    Simulates img first created ⟨b.phys, st⟩ (Task.Apps.worldOf b) := by
  obtain ⟨hperm, hdropped⟩ := spaces_runNextTask h b.phys
  have hnone : dropped = none := by
    cases dropped with
    | none => rfl
    | some t =>
      have hcur := hdropped t rfl
      rw [Kernel.tryGetCurrentTaskId, if_pos hboot.tp] at hcur
      cases hcur
  rw [hnone] at hperm
  refine ⟨⟨rfl, hperm.symm.trans ?_⟩, hin, ?_⟩
  · exact (List.reverse_perm _).symm
  · rcases hboot.continues clock with ⟨_, hstop, -⟩ | ⟨_, _, _, _, -, hsw, hong, -⟩
    · rw [hstop] at h
      cases h
    · rw [hsw] at h
      cases h
      exact ⟨_, _, hong, rfl⟩

theorem Explained.nil {id : ℕ} {es : List Syscall.Action} (h : Explained infoSize id [] es) :
    es = [] := by
  generalize hl : ([] : List Turn) = log at h
  cases h with
  | start => rfl
  | own => exact absurd hl.symm (by simp)
  | other => exact absurd hl.symm (by simp)

/-- A single turn of the task. -/
theorem Explained.single {id : ℕ} {turn : Turn} {es : List Syscall.Action}
    (h : Explained infoSize id [turn] es) (hid : turn.taskId = id) : turn.Asks infoSize es := by
  generalize hl : [turn] = log at h
  cases h with
  | start => cases hl
  | own h _ hasks =>
    obtain ⟨rfl, hturn⟩ := @List.append_inj' _ [] _ _ _ hl rfl
    obtain rfl := List.singleton_inj.mp hturn
    rwa [h.nil]
  | other h hother =>
    obtain ⟨rfl, hturn⟩ := @List.append_inj' _ [] _ _ _ hl rfl
    obtain rfl := List.singleton_inj.mp hturn
    exact absurd hid hother

/-- `mmap` is called, and the heap has room for another area. -/
theorem Simulates.mmap_turn (h : Simulates img first created mc w) {env : Surroundings}
    (hgrows : ∀ buffer growths, growths.length ≤ 1 → env.grows buffer growths = true)
    (hcur : mc.running? = some tcb) (addr len prot : ℕ) : ∃ mc',
      MachineStep env.info.size mc (.trap tcb.taskId 8 ⟨syscallMmap, addr, len, prot⟩) mc' ∧
      tcb.taskId ∈ mc'.kernel.allTasks.map (·.taskId) := by
  obtain ⟨gone, A, B, rfl, hst⟩ := h.standing hcur
  have hcause : matchCause 8 = .userEnvironmentCall := by decide
  obtain ⟨st, hrecord, hst'⟩ := hst.recorded syscallMmap
  obtain ⟨code, s, hcall, htidy⟩ := mmap_standing hst' addr len prot
  refine ⟨_, @MachineStep.trap _ env mc _ _ tcb ⟨0, 0, 0, 0⟩ _ 8 0 .resume rfl hcur ?_ ?_ rfl,
    List.mem_map_of_mem (f := (·.taskId)) (hst'.withSpace htidy).ongoing.mem⟩
  · intro access hload
    cases access <;> exact absurd hload (by decide)
  · have hserves : HeapServes env ⟨syscallMmap, addr, len, prot⟩ mc 8 0 := by
      apply hgrows
      unfold trapGrowths
      rw [hst.ongoing.current]
      dsimp only
      rw [hcause]
      dsimp only
      rw [hrecord]
      exact mmapGrowths_length_le _ addr len prot
    rw [Trap.trap, if_pos hserves]
    unfold servedTrap uTrapHandler
    rw [hst.ongoing.current]
    dsimp only
    rw [hcause]
    dsimp only
    rw [hrecord]
    show returning (mmapCall _ addr len prot) = _
    rw [hcall]
    rfl

/-! ### From boot -/

section Boot

variable (layout : Layout) (m₀ : Mem) {a₀ : PageAllocator} {k : Phys} {t : RootPgt}
  (halloc : initialAllocator layout.kernelEnd.toNat = some a₀)
  (hinit : initKernelSatp layout ⟨m₀, a₀⟩ = (.ok t, k)) (slots : ℕ → ℕ)
  (hn : apps.length < 2 ^ 64) (hlinked : ∀ elf ∈ apps, Tasks.WellLinked elf) {restoreUCtx : ℕ}
  {b : Boot} (hadd : addTasks t.ppn restoreUCtx apps ⟨k, 1, ⟨[], 0, slots⟩⟩ = some b)
  {curr dropped : Option (TaskControlBlock VMSpace)} {next : TaskControlBlock VMSpace}
  {st : Kernel VMSpace}
  (hfirst : b.kernel.runNextTask clock.takeCurr clock.takeNext clock.runStart =
    .ok (.switch curr dropped next st))

include halloc hinit hn hlinked hadd hfirst

/-- The kernel has created the tasks and has switched to the first. -/
theorem boot_simulates : ∃ img w, img.root = t.ppn ∧ img.pages = t.pages ∧
    Tasks.InOrder img a₀.nextUnusedPpn ⟨k, []⟩ ∧
    Components.Run (Tasks.Step img.root img.pages) ⟨k, []⟩ (Task.Apps.createdLog apps) w ∧
    Simulates img a₀.nextUnusedPpn (List.range' 1 apps.length) ⟨b.phys, st⟩ w := by
  obtain ⟨img, hroot, hmem, hpages, hacc⟩ :=
    initKernelSatp_image layout (accounted_initial layout m₀ halloc) hinit
  have hboot := addTasks_booted hacc slots hn hadd
  rw [← hroot] at hadd
  have hnone : Task.Apps.Started img a₀.nextUnusedPpn k [] ⟨k, 1, ⟨[], 0, slots⟩⟩ :=
    ⟨⟨hacc, rfl, rfl, fun t ht => (List.not_mem_nil ht).elim,
      fun t ht => (List.not_mem_nil ht).elim, rfl⟩, .start, .nil⟩
  have hstarted := hnone.addTasks hacc hmem (by rwa [List.length_nil, Nat.zero_add]) hlinked hadd
  rw [List.nil_append] at hstarted
  have hin := Tasks.inOrder_boot hacc hmem
  exact ⟨img, _, hroot, hpages, hin, hstarted.run,
    simulates_boot hboot (Tasks.independent.inv_of_run hin hstarted.run) hfirst⟩

/-- **The memory of a task is what its own turns have made of its file.**  In every run of the machine
from boot, with any programs, traps, page faults and values of the clock: what a task finds in its
space is the result of its ELF file and of a sequence of calls, loads and stores on a page map; these
are exactly what the task's own accesses and the registers of its own system calls ask for, in their
order.  No turn of another task, no page fault and no choice of the scheduler shows. -/
theorem machine_lives {mc : Machine} (hrun : MachineRun infoSize t.pages ⟨b.phys, st⟩ turns mc) :
    ∀ tcb ∈ mc.kernel.allTasks, ∃ i elf es, tcb.taskId = i + 1 ∧ apps[i]? = some elf ∧
      Explained infoSize tcb.taskId turns es ∧
      Accepts AddressSpace.Step (Tasks.elfSpace elf) es (tcb.vmSpace.space mc.phys.mem) := by
  obtain ⟨img, w₀, -, hpages, hin, hcreated, hsim⟩ :=
    boot_simulates layout m₀ halloc hinit slots hn hlinked hadd hfirst
  rw [← hpages] at hrun
  obtain ⟨w, ls, hls, hsim', hlife⟩ := hrun.plays hcreated hsim
  intro tcb htcb
  obtain ⟨gone, tcb', hong, -⟩ := hsim'.ongoing
  have hid := ((hong.listed.mem_iff tcb.taskId).mp (List.mem_map_of_mem htcb)).1
  rw [List.mem_range'_1] at hid
  obtain ⟨i, hi⟩ : ∃ i, tcb.taskId = i + 1 := ⟨tcb.taskId - 1, by omega⟩
  obtain ⟨A, B, rfl⟩ := hsim'.shows.split htcb
  have hlives := Tasks.independent.lives hin (fun _ => rfl) hls tcb.taskId
  rw [Tasks.space?_mid hsim'.order.ids, hi] at hlives
  generalize hx : life (i + 1) ls = x at hlives
  cases hlives with
  | some haccepts =>
    obtain ⟨elf, helf, hspace, hexp⟩ := hlife i _ hx
    rw [hspace] at haccepts
    exact ⟨i, elf, _, hi, helf, hi ▸ hexp, haccepts⟩

end Boot

/-- The task without segments maps a page. -/
theorem machine_lives_bare : ∃ t k b st mc tcb code,
    initKernelSatp sampleLayout ⟨fun _ _ => 0, ⟨0x80500, 0x88000, []⟩⟩ = (.ok t, k) ∧
      addTasks t.ppn 0x100 [bareElf] ⟨k, 1, ⟨[], 0, fun _ => 0⟩⟩ = some b ∧
      MachineRun sampleSurroundings.info.size t.pages ⟨b.phys, st⟩
        [.trap tcb.taskId 8 ⟨syscallMmap, 0x10000, 4096, 3⟩] mc ∧ tcb ∈ mc.kernel.allTasks ∧
      Accepts AddressSpace.Step (Tasks.elfSpace bareElf) [.mmap 0x10000 4096 3 code]
        (tcb.vmSpace.space mc.phys.mem) := by
  obtain ⟨t, k, b, hinit, hb⟩ := bare_start 0x100
  obtain ⟨_, -, -, -, hacc⟩ :=
    initKernelSatp_image sampleLayout (accounted_initial _ _ sampleLayout_allocator) hinit
  have hlinked : ∀ elf ∈ [bareElf], Tasks.WellLinked elf := fun elf helf => by
    obtain rfl := List.mem_singleton.mp helf
    exact Tasks.bare_linked
  have hlen : [bareElf].length < 2 ^ 64 := by decide
  have hboot := addTasks_booted hacc (fun _ => 0) hlen hb
  rcases hboot.continues ⟨0, 0, 0, 0⟩ with ⟨_, -, hall⟩ | ⟨curr, dropped, next, st, -, hsw, hong, -⟩
  · exact absurd (hall 1 (by decide)) List.not_mem_nil
  have hcur : Machine.running? ⟨b.phys, st⟩ = some (started next 0) := by
    rw [Machine.running?, hong.current]
    exact hong.find
  obtain ⟨img, w, -, -, -, -, hsim⟩ :=
    boot_simulates sampleLayout _ sampleLayout_allocator hinit _ hlen hlinked hb hsw
  have hgrows : ∀ buffer growths, growths.length ≤ 1 →
      sampleSurroundings.grows buffer growths = true :=
    fun _ _ hle => decide_eq_true (hle.trans (by decide))
  obtain ⟨mc, hstep, hid⟩ := hsim.mmap_turn hgrows hcur 0x10000 4096 3
  obtain ⟨tcb, htcb, hid⟩ := List.mem_map.mp hid
  have hrun : MachineRun sampleSurroundings.info.size t.pages ⟨b.phys, st⟩ [_] mc := .turn .start hstep
  obtain ⟨i, elf, es, -, helf, hexp, haccepts⟩ :=
    machine_lives sampleLayout _ sampleLayout_allocator hinit _ hlen hlinked hb hsw hrun tcb htcb
  rw [← hid] at hrun hexp
  obtain ⟨code, rfl⟩ := hexp.single rfl
  obtain rfl : elf = bareElf := List.mem_singleton.mp (List.mem_of_getElem? helf)
  exact ⟨t, k, b, st, mc, tcb, code, hinit, hb, hrun, htcb, haccepts⟩

end RCoreKernel.Trap
