import RCoreKernel.Lib.Utf8
import RCoreKernel.Trap.Copy

/-!
# `sys_write` (`os/src/syscall/io.rs`) and the console (`os/src/console.rs`)

`sys_write` copies the buffer into a new vector, reads it as UTF-8 and prints it.  `write_str` hands
the code of each character to `sbi::console_putchar`, which takes a byte.

* `sysWrite`, `writeStr` — the call, and the loop that prints;
* `copyFromUser_spec` — `copy_from_user` into a vector;
* `sysWrite_spec` — what the call does, from what the buffer holds;
* `writeRight_iff` — **it prints the bytes of the buffer when they are ASCII, and only then**.
-/

namespace RCoreKernel.Syscall

open Mm Mm.VMSpace Trap RCoreKernel.Task Utf8

/-- `FD_STDOUT`. -/
def fdStdout : ℕ := 1

/-- The heap of the kernel.  A block of the heap lies in the kernel half. -/
structure Heap where
  alloc : ℕ → Option ℕ
  placed : ∀ {n addr}, alloc n = some addr → kernelVaOffset ≤ addr ∧ addr < 2 ^ 64 ∧ addr + n ≤ 2 ^ 64

/-- The warnings of `sys_write`. -/
inductive Warning
  | unsupportedFd (taskId : Option ℕ) (fd : ℕ)
  | failedCopyFrom (taskId : Option ℕ) (src len failedLen : ℕ)
  deriving DecidableEq, Repr

/-- What `sys_write` returns, what it passed to `console_putchar`, and what it logged. -/
structure Written where
  ret : ℤ
  console : List ℕ
  warnings : List Warning
  mc : Machine

/-- `Stdout::write_str`: the arguments of `console_putchar`. -/
def writeStr (s : List Char) : List ℕ := s.map code

/-- `vec![0; count]`: where its bytes are, and kernel memory.  An empty vector has no block. -/
def vecZeros (heap : Heap) (kernel : ℕ → ℕ) (count : ℕ) : Except Crash (ℕ × (ℕ → ℕ)) :=
  if count = 0 then .ok (1, kernel)
  else match heap.alloc count with
    | none => .error .heapExhausted
    | some addr => .ok (addr, fun a => if addr ≤ a ∧ a < addr + count then 0 else kernel a)

/-- `copy_from_user`. -/
def copyFromUser (ua : UAccess) (mc : Machine) (kernel : ℕ → ℕ) (src dst len : ℕ) :
    Except Crash Copy :=
  match Copy.run ua (5 * len + 1) (Copy.start mc kernel src dst len) with
  | .error crash => .error crash
  | .ok c => if c.pc = .done then .ok c else .error .endless

/-- The bytes of a vector. -/
def bytesAt (memory : ℕ → ℕ) (addr count : ℕ) : List UInt8 :=
  (List.range count).map fun i => UInt8.ofNat (memory (addr + i))

/-- `sys_write`. -/
def sysWrite (heap : Heap) (ua : UAccess) (mc : Machine) (kernel : ℕ → ℕ) (fd buf count : ℕ) :
    Except Crash Written :=
  if fd ≠ fdStdout then
    .ok ⟨-1, [], [.unsupportedFd mc.kernel.tryGetCurrentTaskId fd], mc⟩
  else if checkUVaRange buf count = false then
    .ok ⟨-1, [], [.failedCopyFrom mc.kernel.tryGetCurrentTaskId buf count count], mc⟩
  else match vecZeros heap kernel count with
    | .error crash => .error crash
    | .ok (dst, kernel) =>
      match copyFromUser ua mc kernel buf dst count with
      | .error crash => .error crash
      | .ok c =>
        if c.result ≠ 0 then
          .ok ⟨-1, [], [.failedCopyFrom mc.kernel.tryGetCurrentTaskId buf count c.result], c.mc⟩
        else match fromUtf8 (bytesAt c.kernel dst count) with
          | none => .error .notUtf8
          | some str => .ok ⟨count, writeStr str, [], c.mc⟩

variable {img : KernelImage} {first : ℕ} {rest created gone : List ℕ} {mc : Machine}
  {tcb : TaskControlBlock VMSpace} {kernel : ℕ → ℕ} {ua : UAccess} {heap : Heap}
  {fd buf count dst : ℕ}

/-- The bytes of a user buffer. -/
def userBytes (mc : Machine) (tcb : TaskControlBlock VMSpace) (buf count : ℕ) : List UInt8 :=
  bytesAt (tcb.vmSpace.view mc.phys.mem).peek buf count

/-- A user buffer that can be read, with what its pages need. -/
def Readable (mc : Machine) (tcb : TaskControlBlock VMSpace) (buf count : ℕ) : Prop :=
  checkUVaRange buf count = true ∧ ∀ j < count, PageOk .load buf mc.phys tcb.vmSpace j

/-! ### The copy -/

/-- The vector has its bytes in the kernel half, if it has any. -/
theorem vecZeros_ok {kernel' : ℕ → ℕ} (h : vecZeros heap kernel count = .ok (dst, kernel')) :
    count = 0 ∨ kernelVaOffset ≤ dst ∧ dst < 2 ^ 64 ∧ dst + count ≤ 2 ^ 64 := by
  unfold vecZeros at h
  split at h
  · rename_i hzero
    exact Or.inl hzero
  · split at h
    · cases h
    · rename_i addr halloc
      simp only [Except.ok.injEq, Prod.mk.injEq] at h
      obtain ⟨rfl, -⟩ := h
      exact Or.inr (heap.placed halloc)

/-- **`copy_from_user` into a vector.**  It returns; everything was copied exactly when the buffer
can be read; the machine stays in order. -/
theorem copyFromUser_spec (hst : Standing img first rest created gone mc tcb)
    (hlb : ua.lb ≠ ua.fix) (hsb : ua.sb ≠ ua.fix) (hbuf : checkUVaRange buf count = true)
    (hdst : count = 0 ∨ kernelVaOffset ≤ dst ∧ dst < 2 ^ 64 ∧ dst + count ≤ 2 ^ 64)
    (kernel : ℕ → ℕ) :
    ∃ c k s, copyFromUser ua mc kernel buf dst count = .ok c ∧ Tidy img first rest k s ∧
      c.mc = mc.withSpace tcb.taskId k s ∧ (c.result = 0 ↔ Readable mc tcb buf count) ∧
      (c.result = 0 → bytesAt c.kernel dst count = userBytes mc tcb buf count) := by
  rcases hdst with rfl | ⟨hkernel, hlt, hend⟩
  · -- nothing to copy: the loop ends at once
    have hlt : buf < 2 ^ 64 := by
      have hle := (checkUVaRange_le hbuf).2
      rw [userSpaceEnd_eq] at hle
      omega
    have ht5 : (Copy.start mc kernel buf dst 0).t5 = buf := wrap_of_lt hlt
    have hstep : (Copy.start mc kernel buf dst 0).step ua =
        .ok { Copy.start mc kernel buf dst 0 with pc := .done } := by
      show Except.ok { Copy.start mc kernel buf dst 0 with
        pc := if signed (Copy.start mc kernel buf dst 0).t5 ≤ signed buf then .done else .lb } = _
      rw [ht5, if_pos le_rfl]
    have hcopy : copyFromUser ua mc kernel buf dst 0 =
        .ok { Copy.start mc kernel buf dst 0 with pc := .done } := by
      rw [copyFromUser, Copy.run_succ hstep]
      rfl
    have hresult : ({ Copy.start mc kernel buf dst 0 with pc := .done } : Copy).result = 0 := by
      show wrappingSub (Copy.start mc kernel buf dst 0).t5 buf = 0
      rw [ht5, wrappingSub, wrap]
      omega
    refine ⟨_, mc.phys, tcb.vmSpace, hcopy, hst.tidy, hst.withSpace_self.symm, ?_, fun _ => rfl⟩
    rw [hresult]
    exact ⟨fun _ => ⟨hbuf, fun j hj => absurd hj (Nat.not_lt_zero j)⟩, fun _ => rfl⟩
  · obtain ⟨c, r, k, s, hrun, hc⟩ := uaccess_spec (e := ⟨.load, buf, dst, count⟩) hst
      ⟨hbuf, hkernel, hlt, hend⟩ hlb hsb kernel
    refine ⟨c, k, s, ?_, hc.tidy, hc.machine_eq, ?_, fun hzero => ?_⟩
    · have hrun : Copy.run ua (5 * count + 1) (Copy.start mc kernel buf dst count) = .ok c := hrun
      rw [copyFromUser, hrun]
      dsimp only
      rw [if_pos hc.done]
    · rw [hc.result_eq, hc.all_iff]
      exact ⟨fun h => ⟨hbuf, h⟩, fun h => h.2⟩
    · have hr : r = 0 := by rw [← hc.result_eq, hzero]
      subst hr
      rw [hc.kernel_eq]
      apply List.map_congr_left
      intro i hi
      have hi := List.mem_range.mp hi
      rw [Ends.kernelAfter]
      dsimp only
      rw [if_pos (by omega), Nat.add_sub_cancel_left]

/-! ### The call -/

/-- How `sys_write` ends for a range that passed the check. -/
inductive Wrote (mc : Machine) (tcb : TaskControlBlock VMSpace) (heap : Heap) (buf count : ℕ) :
    Except Crash Written → Prop
  | exhausted : 0 < count → heap.alloc count = none → Wrote mc tcb heap buf count (.error .heapExhausted)
  | failed {w : Written} : (0 < count → heap.alloc count ≠ none) → ¬Readable mc tcb buf count →
      w.ret = -1 → w.console = [] → Wrote mc tcb heap buf count (.ok w)
  | notUtf8 : (0 < count → heap.alloc count ≠ none) → Readable mc tcb buf count →
      fromUtf8 (userBytes mc tcb buf count) = none → Wrote mc tcb heap buf count (.error .notUtf8)
  | written {w : Written} {str : List Char} : (0 < count → heap.alloc count ≠ none) →
      Readable mc tcb buf count → fromUtf8 (userBytes mc tcb buf count) = some str →
      w.ret = count → w.console = writeStr str → Wrote mc tcb heap buf count (.ok w)

/-- **`sys_write`, from what the buffer holds.** -/
theorem sysWrite_spec (hst : Standing img first rest created gone mc tcb) (hlb : ua.lb ≠ ua.fix)
    (hsb : ua.sb ≠ ua.fix) (heap : Heap) (kernel : ℕ → ℕ) (hbuf : checkUVaRange buf count = true) :
    Wrote mc tcb heap buf count (sysWrite heap ua mc kernel fdStdout buf count) ∧
      ∀ w, sysWrite heap ua mc kernel fdStdout buf count = .ok w →
        ∃ k s, Tidy img first rest k s ∧ w.mc = mc.withSpace tcb.taskId k s := by
  unfold sysWrite
  rw [if_neg (by simp), if_neg (by simp [hbuf])]
  cases hvec : vecZeros heap kernel count with
  | error crash =>
    unfold vecZeros at hvec
    split at hvec
    · cases hvec
    · rename_i hne
      split at hvec
      · rename_i hnone
        cases hvec
        exact ⟨.exhausted (Nat.pos_of_ne_zero hne) hnone, fun w hw => nomatch hw⟩
      · cases hvec
  | ok vec =>
    obtain ⟨dst, kernel'⟩ := vec
    have hserved : 0 < count → heap.alloc count ≠ none := by
      intro hpos hnone
      rw [vecZeros, if_neg hpos.ne', hnone] at hvec
      cases hvec
    obtain ⟨c, k, s, hcopy, ht, hmc, hresult, hbytes⟩ :=
      copyFromUser_spec hst hlb hsb hbuf (vecZeros_ok hvec) kernel'
    dsimp only
    rw [hcopy]
    dsimp only
    by_cases hzero : c.result = 0
    · rw [if_neg (by simp [hzero]), hbytes hzero]
      have hread := hresult.mp hzero
      cases hstr : fromUtf8 (userBytes mc tcb buf count) with
      | none => exact ⟨.notUtf8 hserved hread hstr, fun w hw => nomatch hw⟩
      | some str =>
        refine ⟨.written hserved hread hstr rfl rfl, fun w hw => ?_⟩
        cases hw
        exact ⟨k, s, ht, hmc⟩
    · rw [if_pos hzero]
      refine ⟨.failed hserved (fun hread => hzero (hresult.mpr hread)) rfl rfl, fun w hw => ?_⟩
      cases hw
      exact ⟨k, s, ht, hmc⟩

/-- The calls that write nothing. -/
theorem sysWrite_rejected (heap : Heap) (ua : UAccess) (mc : Machine) (kernel : ℕ → ℕ)
    (h : fd ≠ fdStdout ∨ checkUVaRange buf count = false) :
    ∃ w, sysWrite heap ua mc kernel fd buf count = .ok w ∧ w.ret = -1 ∧ w.console = [] ∧ w.mc = mc := by
  unfold sysWrite
  by_cases hfd : fd = fdStdout
  · have hbuf := h.resolve_left (fun hne => hne hfd)
    rw [if_neg (by simp [hfd]), if_pos hbuf]
    exact ⟨_, rfl, rfl, rfl, rfl⟩
  · rw [if_pos hfd]
    exact ⟨_, rfl, rfl, rfl, rfl⟩

theorem rejected_of_not_ready (h : ¬(fd = fdStdout ∧ checkUVaRange buf count = true)) :
    fd ≠ fdStdout ∨ checkUVaRange buf count = false := by
  by_cases hfd : fd = fdStdout
  · exact Or.inr (by simpa [hfd] using h)
  · exact Or.inl hfd

/-! ### What is printed -/

/-- The call does what is expected of it: it prints the bytes of a readable buffer that is valid
UTF-8 and returns their number, and for another file descriptor or a buffer that cannot be read it
prints nothing and returns -1. -/
structure WriteRight (heap : Heap) (ua : UAccess) (mc : Machine) (tcb : TaskControlBlock VMSpace)
    (kernel : ℕ → ℕ) (fd buf count : ℕ) : Prop where
  printed : fd = fdStdout → 0 < count → Readable mc tcb buf count →
    fromUtf8 (userBytes mc tcb buf count) ≠ none →
    ∃ w, sysWrite heap ua mc kernel fd buf count = .ok w ∧ w.ret = count ∧
      w.console = (userBytes mc tcb buf count).map UInt8.toNat
  rejected : fd ≠ fdStdout ∨ ¬Readable mc tcb buf count →
    ∃ w, sysWrite heap ua mc kernel fd buf count = .ok w ∧ w.ret = -1 ∧ w.console = []

/-- **When `sys_write` prints the bytes of the buffer.**  For the standard output and a range that
passes the check, the heap must have a block of the size of the buffer, and what it prints must be
ASCII. -/
theorem writeRight_iff (hst : Standing img first rest created gone mc tcb) (hlb : ua.lb ≠ ua.fix)
    (hsb : ua.sb ≠ ua.fix) (heap : Heap) (kernel : ℕ → ℕ) (fd buf count : ℕ) :
    WriteRight heap ua mc tcb kernel fd buf count ↔
      (fd = fdStdout → checkUVaRange buf count = true → 0 < count →
        (¬Readable mc tcb buf count ∨ fromUtf8 (userBytes mc tcb buf count) ≠ none) →
        heap.alloc count ≠ none ∧
          (Readable mc tcb buf count → ∀ b ∈ userBytes mc tcb buf count, b.toNat < 128)) := by
  by_cases hready : fd = fdStdout ∧ checkUVaRange buf count = true
  · obtain ⟨rfl, hbuf⟩ := hready
    obtain ⟨hwrote, -⟩ := sysWrite_spec hst hlb hsb heap kernel hbuf
    obtain ⟨res, hres⟩ : ∃ res, sysWrite heap ua mc kernel fdStdout buf count = res := ⟨_, rfl⟩
    rw [hres] at hwrote
    cases hwrote with
    | exhausted hpos hnone =>
      constructor
      · intro hright _ _ _ hreq
        rcases hreq with hread | hvalid
        · obtain ⟨w, hw, -⟩ := hright.rejected (Or.inr hread)
          rw [hres] at hw
          cases hw
        · by_cases hread : Readable mc tcb buf count
          · obtain ⟨w, hw, -⟩ := hright.printed rfl hpos hread hvalid
            rw [hres] at hw
            cases hw
          · obtain ⟨w, hw, -⟩ := hright.rejected (Or.inr hread)
            rw [hres] at hw
            cases hw
      · intro hcond
        have hno : ∀ hreq, False := fun hreq => (hcond rfl hbuf hpos hreq).1 hnone
        refine ⟨fun _ _ _ hvalid => (hno (Or.inr hvalid)).elim, fun h => ?_⟩
        exact (hno (Or.inl (h.resolve_left fun hne => hne rfl))).elim
    | @failed w hserved hread hret hconsole =>
      constructor
      · intro _ _ _ hpos _
        exact ⟨hserved hpos, fun h => absurd h hread⟩
      · intro _
        exact ⟨fun _ _ h => absurd h hread, fun _ => ⟨w, hres, hret, hconsole⟩⟩
    | notUtf8 hserved hread hnone =>
      constructor
      · intro _ _ _ _ hreq
        exact absurd hnone (hreq.resolve_left fun h => h hread)
      · intro _
        exact ⟨fun _ _ _ hvalid => absurd hnone hvalid, fun h =>
          absurd hread (h.resolve_left fun hne => hne rfl)⟩
    | @written w str hserved hread hstr hret hconsole =>
      -- the characters are the bytes exactly for ASCII
      have hascii : w.console = (userBytes mc tcb buf count).map UInt8.toNat ↔
          ∀ b ∈ userBytes mc tcb buf count, b.toNat < 128 := by
        rw [hconsole, writeStr, fromUtf8_eq_some.mp hstr]
        exact codes_eq_bytes_iff str
      constructor
      · intro hright _ _ hpos _
        refine ⟨hserved hpos, fun _ => hascii.mp ?_⟩
        obtain ⟨w', hw', -, hprinted⟩ := hright.printed rfl hpos hread (by simp [hstr])
        rw [hres] at hw'
        cases hw'
        exact hprinted
      · intro hcond
        refine ⟨fun _ hpos _ hvalid => ⟨w, hres, hret, ?_⟩, fun h =>
          absurd hread (h.resolve_left fun hne => hne rfl)⟩
        exact hascii.mpr ((hcond rfl hbuf hpos (Or.inr hvalid)).2 hread)
  · obtain ⟨w, hw, hret, hconsole, -⟩ :=
      sysWrite_rejected heap ua mc kernel (rejected_of_not_ready hready)
    constructor
    · intro _ hfd hbuf
      exact absurd ⟨hfd, hbuf⟩ hready
    · intro _
      exact ⟨fun hfd _ hread => absurd ⟨hfd, hread.1⟩ hready, fun _ => ⟨w, hw, hret, hconsole⟩⟩

/-! ### A buffer with one character of two bytes -/

theorem page_placed {n addr : ℕ} (h : (if n ≤ 4096 then some kernelVaOffset else none) = some addr) :
    kernelVaOffset ≤ addr ∧ addr < 2 ^ 64 ∧ addr + n ≤ 2 ^ 64 := by
  split at h
  · cases h
    rw [kernelVaOffset]
    omega
  · cases h

/-- A heap of one page. -/
def sampleHeap : Heap where
  alloc n := if n ≤ 4096 then some kernelVaOffset else none
  placed := page_placed

/-- Two zeros are ASCII. -/
theorem writeRight_sample :
    WriteRight sampleHeap ⟨0x100, 0x104, 0x108⟩ sampleMachine sampleTask (fun _ => 0) fdStdout
      0x10008 2 := by
  refine (writeRight_iff sampleMachine_standing (by decide) (by decide) _ _ _ _ _).mpr ?_
  intro _ _ _ _
  exact ⟨by decide, fun _ => by decide +kernel⟩

/-- The first page of the small area holds the bytes of a character that is not ASCII. -/
def samplePhysText : Phys :=
  { sampleMapped.2.1 with mem := storeByte (storeByte sampleMapped.2.1.mem 4 8 0xC3) 4 9 0xA9 }

def sampleTaskText : TaskControlBlock VMSpace := { sampleTask with vmSpace := sampleMapped.2.2 }

def sampleMachineText : Machine := sampleMachine.withSpace 7 samplePhysText sampleMapped.2.2

theorem sampleMapped_tidy : Tidy sampleImage 0 [0, 1, 2] sampleMapped.2.1 sampleMapped.2.2 := by
  have hnot : ¬Permits samplePhys.mem sampleAreaSpace.rootPgt.ppn 0x10008 .store := by
    have hinv : PTE.isValid (RootPgt.pteAt samplePhys.mem sampleAreaSpace.rootPgt.ppn
        (0x10008 / pageSizeBytes)) = false := by decide
    rintro ⟨hval, -⟩
    rw [hinv] at hval
    cases hval
  have hmap : mapFaultPage samplePhys sampleAreaSpace 0x10008 Access.store.minPermissions =
      sampleMapped := rfl
  obtain ⟨k, s, ht, -, ⟨hdo, -⟩ | ⟨⟨e, hdo⟩, -⟩⟩ :=
    fault_reached sampleMachine_standing.tidy (by decide) hnot
  all_goals
    have hdo := hmap.symm.trans hdo
    rw [hdo]
    exact ht

theorem sampleMachineText_standing :
    Standing sampleImage 0 [0, 1, 2] [7] [] sampleMachineText sampleTaskText := by
  have hv : 0x10008 / 4096 < userEndVpn := by decide
  have ht := sampleMapped_tidy
  have hpage : pageAt ⟨sampleMapped.2.1, sampleMapped.2.2⟩ 0x10008 = 4 := by decide
  have hheld := pageAt_held ht.ok ht.accounted hv (by decide)
  rw [hpage] at hheld
  obtain ⟨hkept, hreg⟩ := store_kept ht.ok ht.regular ht.accounted ht.kernel hv hheld 8 0xC3
  obtain ⟨hkept', hreg'⟩ := store_kept hkept.ok hreg hkept.accounted ht.kernel hv hheld 9 0xA9
  exact sampleMachine_standing.withSpace ⟨hkept'.ok, hreg', hkept'.accounted, ht.kernel⟩

/-- The character is printed as its code, and the number of bytes is returned. -/
theorem write_not_ascii :
    (∃ w, sysWrite sampleHeap ⟨0x100, 0x104, 0x108⟩ sampleMachineText (fun _ => 0) fdStdout 0x10008 2 =
      .ok w ∧ w.ret = 2 ∧ w.console = [0xE9]) ∧
    ¬WriteRight sampleHeap ⟨0x100, 0x104, 0x108⟩ sampleMachineText sampleTaskText (fun _ => 0) fdStdout
      0x10008 2 := by
  have hbytes : userBytes sampleMachineText sampleTaskText 0x10008 2 = [0xC3, 0xA9] := by decide
  have hchars : fromUtf8 [0xC3, 0xA9] = some [Char.ofNat 0xE9] := by decide
  have hread : Readable sampleMachineText sampleTaskText 0x10008 2 := by
    refine ⟨by decide, fun j hj => ?_⟩
    have hvalid : ∀ j < 2, PTE.isValid (RootPgt.pteAt sampleMachineText.phys.mem
        sampleTaskText.vmSpace.rootPgt.ppn ((0x10008 + j) / 4096)) = true := by decide
    have hsame : (0x10008 + j) / 4096 = 0x10 := by omega
    refine ⟨_, List.mem_singleton_self _, ?_, by decide, Or.inl (hvalid j hj)⟩
    rw [hsame]
    decide
  obtain ⟨ua, hua⟩ : ∃ ua : UAccess, ua = ⟨0x100, 0x104, 0x108⟩ := ⟨_, rfl⟩
  have hlb : ua.lb ≠ ua.fix := by rw [hua]; decide
  have hsb : ua.sb ≠ ua.fix := by rw [hua]; decide
  obtain ⟨hwrote, -⟩ :=
    sysWrite_spec sampleMachineText_standing hlb hsb sampleHeap (fun _ => 0) hread.1
  rw [← hua]
  obtain ⟨res, hres⟩ : ∃ res, sysWrite sampleHeap ua sampleMachineText (fun _ => 0) fdStdout 0x10008 2 =
    res := ⟨_, rfl⟩
  rw [hres] at hwrote
  have hwritten : ∃ w, res = .ok w ∧ w.ret = 2 ∧ w.console = [0xE9] := by
    cases hwrote with
    | exhausted _ hnone => exact absurd hnone (by decide)
    | failed _ hno => exact absurd hread hno
    | notUtf8 _ _ hnone =>
      rw [hbytes, hchars] at hnone
      cases hnone
    | @written w str _ _ hstr hret hconsole =>
      rw [hbytes, hchars] at hstr
      cases hstr
      exact ⟨w, rfl, hret, hconsole⟩
  obtain ⟨w, rfl, hret, hconsole⟩ := hwritten
  refine ⟨⟨w, hres, hret, hconsole⟩, fun hright => ?_⟩
  obtain ⟨w', hw', -, hprinted⟩ := hright.printed rfl (by decide) hread (by rw [hbytes, hchars]; simp)
  rw [hres] at hw'
  cases hw'
  rw [hconsole, hbytes] at hprinted
  cases hprinted

end RCoreKernel.Syscall
