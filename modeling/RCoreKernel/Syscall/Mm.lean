import Mathlib.Logic.Relation
import RCoreKernel.Mm.SpaceOps

/-!
# `mmap`, `munmap` and page faults on one address space

`os/src/syscall/mm.rs` and `do_page_fault` reach the space of the current task through
`update_tcb`; this file holds what they do with it.  A `Request` is one of the three things a
task can ask of its space, and `Served` is what every request leaves behind:

* `mmap_served`, `munmap_served`, `fault_served` — one lemma per request;
* `Request.exec_served` — together: whatever the request returns, the space stays in order and
  nothing panics;
* `run_wellFormed` — **every space along every run of requests is well-formed**, while other
  tasks take and return pages and the hardware sets accessed and dirty bits in between.

A page fault is only raised for an access that the current tables do not permit.  Either the
page has no valid entry, and `map` may install one, or the entry lacks a permission that the
area lacks too, and `map` refuses.
-/

namespace RCoreKernel.Syscall

open Mm Mm.VMSpace Mm.RootPgt Radix

def protExec : ℕ := 1
def protRead : ℕ := 2
def protWrite : ℕ := 4
def allProtFlags : ℕ := protExec ||| protRead ||| protWrite

def toPermissions (prot : ℕ) : ℕ :=
  let result := permissionU
  let result := if prot &&& protRead ≠ 0 then result ||| permissionR else result
  let result := if prot &&& protWrite ≠ 0 then result ||| permissionW else result
  if prot &&& protExec ≠ 0 then result ||| permissionX else result

/-- The argument checks of `mmap`. -/
def mmapAccepts (addr len prot : ℕ) : Bool :=
  checkUVaRange addr len && andNot prot allProtFlags = 0

/-- What `mmap` does inside `update_tcb`. -/
def mmapTcb (addr len prot : ℕ) (s : VMSpace) : Outcome VMError Unit × VMSpace :=
  match VPN.fromVa addr, VPN.fromVa (endOfRange addr len) with
  | some startVpn, some endVpn =>
    match addNewArea s startVpn endVpn .anonymous (toPermissions prot) with
    | (.ok (), s) => (.ok (), s)
    | (.error e, s) => (.err e, s)
  | _, _ => (.panic .invalidVirtualAddress, s)

/-- What `munmap` does inside `update_tcb`. -/
def munmapTcb (addr len : ℕ) (k : Phys) (s : VMSpace) : Outcome VMError Unit × Phys × VMSpace :=
  match VPN.fromVa addr, VPN.fromVa (endOfRange addr len) with
  | some startVpn, some endVpn => VMSpace.unmap k s startVpn endVpn
  | _, _ => (.panic .invalidVirtualAddress, k, s)

/-- The result of a system call: `0` for success, `-1` for an error. -/
def resultCode : Outcome VMError Unit → Except Panic ℤ
  | .ok () => .ok 0
  | .err _ => .ok (-1)
  | .panic site => .error site

/-- `mmap` on the space of the current task. -/
def mmap (s : VMSpace) (addr len prot : ℕ) : Except Panic ℤ × VMSpace :=
  if mmapAccepts addr len prot then
    let r := mmapTcb addr len prot s
    (resultCode r.1, r.2)
  else (.ok (-1), s)

/-- `munmap` on the space of the current task. -/
def munmap (k : Phys) (s : VMSpace) (addr len : ℕ) : Except Panic ℤ × Phys × VMSpace :=
  if !checkUVaRange addr len then (.ok (-1), k, s)
  else if len = 0 then (.ok 0, k, s)
  else
    let r := munmapTcb addr len k s
    (resultCode r.1, r.2.1, r.2.2)

/-- The accesses that the fault handlers serve. -/
inductive Access
  | load
  | store
  deriving DecidableEq, Repr

/-- `min_permissions` in the fault handlers. -/
def Access.minPermissions : Access → ℕ
  | .load => permissionU ||| permissionR
  | .store => permissionU ||| permissionW

/-- The tables below `r` let user code make the access. -/
def Permits (m : Mem) (r va : ℕ) (access : Access) : Prop :=
  PTE.isValid (pteAt m r (va / pageSizeBytes)) = true ∧
    pteAt m r (va / pageSizeBytes) &&& access.minPermissions = access.minPermissions

instance (m : Mem) (r va : ℕ) (access : Access) : Decidable (Permits m r va access) :=
  inferInstanceAs (Decidable (_ ∧ _))

/-! ### Arguments -/

theorem checkUVa_iff {va : ℕ} : checkUVa va = true ↔ va < 2 ^ 38 - 4096 := by
  rw [checkUVa, decide_eq_true_eq, userSpaceEnd_eq]

theorem checkUVaRange_le {start len : ℕ} (h : checkUVaRange start len = true) :
    start < userSpaceEnd ∧ start + len ≤ userSpaceEnd := by
  unfold checkUVaRange at h
  rw [Bool.and_eq_true] at h
  obtain ⟨h1, h2⟩ := h
  split at h2
  · rename_i hlt
    rw [checkUVa_iff] at h1 h2
    rw [userSpaceEnd_eq]
    unfold wrappingSub wrap at h2
    omega
  · cases h2

/-- A range that passes the check has page numbers in user space. -/
theorem vpn_of_checked {addr len : ℕ} (h : checkUVaRange addr len = true) :
    VPN.fromVa addr = some (addr / 4096) ∧
      VPN.fromVa (endOfRange addr len) = some ((addr + len + 4095) / 4096) ∧
      (addr + len + 4095) / 4096 ≤ userEndVpn := by
  have hle := checkUVaRange_le h
  rw [userSpaceEnd_eq] at hle
  have hend : endOfRange addr len = addr + len + 4095 := by
    simp only [endOfRange, wrappingSub, wrap, pageSizeBytes_eq]
    omega
  rw [hend, userEndVpn_eq]
  exact ⟨VPN.fromVa_of_user (by omega), VPN.fromVa_of_user (by omega), by omega⟩

/-! ### Requests -/

/-- What a task can ask of its address space. -/
inductive Request
  | mmap (addr len prot : ℕ)
  | munmap (addr len : ℕ)
  | fault (va : ℕ) (access : Access)
  deriving DecidableEq, Repr

/-- A fault is raised for a user address and an access that the tables do not permit; the
system calls can always be made. -/
def Request.Raised (k : Phys) (s : VMSpace) : Request → Prop
  | .fault va access => checkUVa va = true ∧ ¬Permits k.mem s.rootPgt.ppn va access
  | _ => True

/-- Serving a request; a fault is served by `map_fault_page`. -/
def Request.exec (k : Phys) (s : VMSpace) : Request → Except Panic ℤ × Phys × VMSpace
  | .mmap addr len prot => ((Syscall.mmap s addr len prot).1, k, (Syscall.mmap s addr len prot).2)
  | .munmap addr len => Syscall.munmap k s addr len
  | .fault va access =>
    let r := mapFaultPage k s va access.minPermissions
    (resultCode r.1, r.2.1, r.2.2)

variable {img : KernelImage} {first : ℕ} {rest : List ℕ} {k k' : Phys} {s s' : VMSpace}

/-- The request was answered without a panic and the space is still in order. -/
def Served (img : KernelImage) (first : ℕ) (rest : List ℕ) (k : Phys) (s : VMSpace)
    (r : Except Panic ℤ × Phys × VMSpace) : Prop :=
  (∃ code, r.1 = .ok code) ∧ Kept img first rest k s r.2.1 r.2.2

theorem Served.refl (hok : SpaceOk img k.mem s) (hacc : k.Accounted first (s.pages ++ rest))
    (code : ℤ) : Served img first rest k s (.ok code, k, s) :=
  ⟨⟨code, rfl⟩, Kept.refl hok hacc⟩

theorem resultCode_ok {r : Outcome VMError Unit} (h : ∀ site, r ≠ .panic site) :
    ∃ code, resultCode r = .ok code := by
  cases r with
  | ok _ => exact ⟨0, rfl⟩
  | err _ => exact ⟨-1, rfl⟩
  | panic site => exact absurd rfl (h site)

/-- `mmap`. -/
theorem mmap_served (hok : SpaceOk img k.mem s) (hacc : k.Accounted first (s.pages ++ rest))
    (addr len prot : ℕ) : Served img first rest k s ((Request.mmap addr len prot).exec k s) := by
  unfold Request.exec
  dsimp only
  unfold Syscall.mmap
  split
  · rename_i haccept
    obtain ⟨hrange, -⟩ := Bool.and_eq_true_iff.mp haccept
    obtain ⟨hstart, hend, hle⟩ := vpn_of_checked hrange
    simp only [mmapTcb, hstart, hend]
    split
    · rename_i s' hadd
      exact ⟨⟨0, rfl⟩, addNewArea_kept hok hacc hle hadd⟩
    · rename_i e s' hadd
      exact ⟨⟨-1, rfl⟩, addNewArea_kept hok hacc hle hadd⟩
  · exact Served.refl hok hacc _

/-- `munmap`. -/
theorem munmap_served (hok : SpaceOk img k.mem s) (hacc : k.Accounted first (s.pages ++ rest))
    (hrest : ∀ p ∈ img.pages, p ∈ rest) (addr len : ℕ) :
    Served img first rest k s ((Request.munmap addr len).exec k s) := by
  unfold Request.exec
  dsimp only
  unfold Syscall.munmap
  split
  · exact Served.refl hok hacc _
  rename_i hrange
  split
  · exact Served.refl hok hacc _
  rename_i hlen
  obtain ⟨hstart, hend, hle⟩ := vpn_of_checked (by simpa using hrange)
  have hpos : addr / 4096 ≤ (addr + len + 4095) / 4096 := by omega
  obtain ⟨k', s', hun, kept⟩ := unmap_kept hok hacc hrest hle hpos
  simp only [munmapTcb, hstart, hend, hun]
  exact ⟨⟨0, rfl⟩, kept⟩

/-- The permissions of an entry are those of its area. -/
theorem land_of_sameButAD {w page p mask : ℕ} (h : PTE.SameButAD w (page * 1024 + (p ||| PTE.flagV)))
    (hmask : mask &&& p = mask) (hm : mask < 2 ^ 6) : w &&& mask = mask := by
  have hw : w % 2 ^ 6 = (p ||| PTE.flagV) % 2 ^ 6 := by
    have := h.2
    omega
  have hsub : (p ||| PTE.flagV) &&& mask = mask := by
    apply Nat.eq_of_testBit_eq
    intro i
    have hi := congrArg (fun n => n.testBit i) hmask
    simp only [Nat.testBit_and, Nat.testBit_or] at hi ⊢
    cases hb : mask.testBit i <;> simp_all
  calc w &&& mask = (w &&& mask) % 2 ^ 6 :=
        (Nat.mod_eq_of_lt (Nat.lt_of_le_of_lt Nat.and_le_right hm)).symm
    _ = ((p ||| PTE.flagV) &&& mask) % 2 ^ 6 := by
        rw [Nat.and_mod_two_pow, hw, ← Nat.and_mod_two_pow]
    _ = mask := by rw [hsub, Nat.mod_eq_of_lt hm]

/-- An access to a page that is there is refused: its area lacks the permission. -/
theorem fault_denied (hok : SpaceOk img k.mem s) {va : ℕ} {access : Access}
    (hv : va / 4096 < userEndVpn)
    (hval : PTE.isValid (pteAt k.mem s.rootPgt.ppn (va / 4096)) = true)
    (hnot : ¬Permits k.mem s.rootPgt.ppn va access) :
    VMSpace.map k s (va / 4096) access.minPermissions =
      (.err (.permissionDenied (va / 4096) access.minPermissions), k, s) := by
  obtain ⟨page, a, ha, hav, hmem⟩ := (hok.agrees.valid_iff _ hv).mp hval
  have hpte := hok.agrees.pte_eq _ hv a ha page hav hmem
  have hdenied : access.minPermissions &&& a.permissions ≠ access.minPermissions := by
    intro hsub
    refine hnot ⟨hval, land_of_sameButAD hpte hsub ?_⟩
    cases access <;> decide
  have hfind : s.findArea (va / 4096) = some a := by
    obtain ⟨b, hb⟩ : ∃ b, s.findArea (va / 4096) = some b := by
      cases hf : s.findArea (va / 4096) with
      | none => exact absurd hav (by simpa using List.find?_eq_none.mp hf a ha)
      | some b => exact ⟨b, rfl⟩
    have hbv : b.containVpn (va / 4096) = true := by simpa using List.find?_some hb
    rw [hb, hok.agrees.area_unique (List.mem_of_find?_eq_some hb) ha hbv hav]
  simp only [VMSpace.map, hfind, hdenied, ne_eq, not_false_eq_true, if_true]

/-- A page fault. -/
theorem fault_served (hok : SpaceOk img k.mem s) (hacc : k.Accounted first (s.pages ++ rest))
    (hrest : ∀ p ∈ img.pages, p ∈ rest) {va : ℕ} {access : Access}
    (h : (Request.fault va access).Raised k s) :
    Served img first rest k s ((Request.fault va access).exec k s) := by
  obtain ⟨hva, hnot⟩ := h
  rw [checkUVa_iff] at hva
  have hv : va / 4096 < userEndVpn := by
    rw [userEndVpn_eq]
    omega
  unfold Request.exec
  simp only [mapFaultPage, VPN.fromVa_of_user (show va < 2 ^ 38 by omega)]
  by_cases hinv : PTE.isValid (pteAt k.mem s.rootPgt.ppn (va / 4096)) = true
  · simp only [fault_denied hok hv hinv hnot, resultCode]
    exact Served.refl hok hacc _
  · have hinv : PTE.isValid (pteAt k.mem s.rootPgt.ppn (va / 4096)) = false := by simpa using hinv
    obtain ⟨res, k', s', hmap⟩ : ∃ res k' s',
        VMSpace.map k s (va / 4096) access.minPermissions = (res, k', s') := ⟨_, _, _, rfl⟩
    obtain ⟨hpanic, kept⟩ := map_kept hok hacc hrest hv hinv hmap
    rw [hmap]
    exact ⟨resultCode_ok hpanic, kept⟩

/-- **Every request.** -/
theorem Request.exec_served (hok : SpaceOk img k.mem s)
    (hacc : k.Accounted first (s.pages ++ rest)) (hrest : ∀ p ∈ img.pages, p ∈ rest) {r : Request}
    (h : r.Raised k s) : Served img first rest k s (r.exec k s) := by
  cases r with
  | mmap addr len prot => exact mmap_served hok hacc addr len prot
  | munmap addr len => exact munmap_served hok hacc hrest addr len
  | fault va access => exact fault_served hok hacc hrest h

/-! ### Runs -/

/-- Physical memory and one address space. -/
structure SpaceState where
  phys : Phys
  space : VMSpace

/-- The space is in order and its pages, like those of the kernel tables, are accounted for.
`VMSpace::new_user` establishes this and every request keeps it. -/
def SpaceState.InOrder (img : KernelImage) (st : SpaceState) : Prop :=
  SpaceOk img st.phys.mem st.space ∧ (∀ a ∈ st.space.areas, a.startVpn < a.endVpn) ∧
    ∃ first rest, st.phys.Accounted first (st.space.pages ++ rest) ∧ ∀ p ∈ img.pages, p ∈ rest

/-- What may happen between two requests: other owners take and return pages, data pages change,
and the hardware sets accessed and dirty bits in the tables.  Nobody else writes the tables. -/
structure Interlude (img : KernelImage) (st st' : SpaceState) : Prop where
  space_eq : st'.space = st.space
  tables : ∀ p ∈ st.space.rootPgt.pages, ∀ j, PTE.SameButAD (st'.phys.mem p j) (st.phys.mem p j)
  kernel : ∀ p ∈ img.pages, ∀ j, PTE.SameButAD (st'.phys.mem p j) (st.phys.mem p j)
  accounted : ∃ first rest, st'.phys.Accounted first (st.space.pages ++ rest) ∧
    ∀ p ∈ img.pages, p ∈ rest

/-- One step of a run: a request is served, or other things happen in between. -/
inductive Step (img : KernelImage) : SpaceState → SpaceState → Prop
  | request (st : SpaceState) (r : Request) (h : r.Raised st.phys st.space) :
      Step img st ⟨(r.exec st.phys st.space).2.1, (r.exec st.phys st.space).2.2⟩
  | interlude (st st' : SpaceState) (h : Interlude img st st') : Step img st st'

/-- A step keeps a space in order. -/
theorem Step.inOrder {st st' : SpaceState} (h : Step img st st') (hin : st.InOrder img) :
    st'.InOrder img := by
  obtain ⟨hok, hne, first, rest, hacc, hrest⟩ := hin
  cases h with
  | request r hr =>
    have served := r.exec_served hok hacc hrest hr
    exact ⟨served.2.ok, served.2.nonempty hne, first, rest, served.2.accounted, hrest⟩
  | interlude st' h =>
    refine ⟨?_, by rwa [h.space_eq], ?_⟩
    · rw [h.space_eq]
      exact hok.frame h.tables fun p hp j => (h.kernel p hp j).trans (hok.agrees.kernel_tables p hp j)
    · rw [h.space_eq]
      exact h.accounted

/-- **Well-formed along every run.**  Starting from a space in order, every state reached by
requests, in any order and with any results, is well-formed, and no request panics there. -/
theorem run_wellFormed {st st' : SpaceState} (hin : st.InOrder img)
    (hrun : Relation.ReflTransGen (Step img) st st') :
    WellFormed img st'.phys.mem st'.space ∧
      ∀ r : Request, r.Raised st'.phys st'.space →
        ∃ code, (r.exec st'.phys st'.space).1 = .ok code := by
  have hin' : st'.InOrder img := by
    induction hrun with
    | refl => exact hin
    | tail _ hstep ih => exact hstep.inOrder ih
  obtain ⟨hok, hne, first, rest, hacc, hrest⟩ := hin'
  exact ⟨⟨hok.agrees, hne⟩, fun r hr => (r.exec_served hok hacc hrest hr).1⟩

theorem sample_inOrder : SpaceState.InOrder sampleImage ⟨samplePhys, sampleSpace⟩ :=
  ⟨sample_ok, by simp [sampleSpace], 0, [0, 1, 2], sample_accounted, fun _ h => h⟩

/-- Two requests from a space without areas: map one page, then store to it. -/
theorem run_wellFormed_sample :
    let r₁ := Request.mmap 0x10000 0x1000 (protRead ||| protWrite)
    let st₁ : SpaceState := ⟨samplePhys, (r₁.exec samplePhys sampleSpace).2.2⟩
    let r₂ := Request.fault 0x10008 .store
    (r₂.exec st₁.phys st₁.space).1 = .ok 0 ∧
      WellFormed sampleImage (r₂.exec st₁.phys st₁.space).2.1.mem
        (r₂.exec st₁.phys st₁.space).2.2 := by
  intro r₁ st₁ r₂
  have hrun : Relation.ReflTransGen (Step sampleImage) ⟨samplePhys, sampleSpace⟩
      ⟨(r₂.exec st₁.phys st₁.space).2.1, (r₂.exec st₁.phys st₁.space).2.2⟩ :=
    Relation.ReflTransGen.tail (.single (.request ⟨samplePhys, sampleSpace⟩ r₁ trivial))
      (.request st₁ r₂ ⟨by decide, by decide⟩)
  exact ⟨by decide, (run_wellFormed sample_inOrder hrun).1⟩

end RCoreKernel.Syscall
