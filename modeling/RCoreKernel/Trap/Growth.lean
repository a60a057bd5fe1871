import RCoreKernel.Mm.Demand
import RCoreKernel.Syscall.Io

/-!
# What a trap takes from the kernel heap

The collections of the kernel live on a heap of 4 MiB, and an allocation that the heap refuses brings
the kernel down.  In the other modules the collections are lists of any length.  This file follows the
same functions once more and notes, in order, where they let a collection grow: `areas.push` in
`add_new_area` and `unmap`, `pages.insert` in `map`, `pages.push` in `map_create`, `split_off` in
`unmap`, and `recycled_ppn.push` for every page that is given back.

`all_tasks.push` in `run_next_task` puts back what was taken out just before, and the capacity of a
`Vec` does not shrink, so it takes nothing.

* `mapGrowths`, `unmapBelowGrowths` — the operations on a space;
* `mapGrowths_served` — **what a served page fault takes**;
* `uPageFaultGrowths`, `writeGrowths`, `mmapGrowths`, `munmapGrowths` — the handlers.
-/

namespace RCoreKernel.Trap

open Mm Mm.VMSpace Syscall RCoreKernel.Task

/-- A collection grows; the number is its length before. -/
inductive Growth
  /-- `VMSpace::areas.push` -/
  | area (len : ℕ)
  /-- `VMArea::pages.insert` -/
  | page (len : ℕ)
  /-- `VMArea::pages.split_off` -/
  | split (len : ℕ)
  /-- `RootPgt::pages.push` -/
  | table (len : ℕ)
  /-- `PageAllocator::recycled_ppn.push` -/
  | recycled (len : ℕ)
  deriving DecidableEq, Repr

/-! ### The operations on a space -/

/-- A number of pages is dropped. -/
def recycledGrowths (k : Phys) (n : ℕ) : List Growth :=
  (List.range' k.alloc.recycledPpn.length n).map .recycled

/-- `map_create` has added tables. -/
def tableGrowths (before after : RootPgt) : List Growth :=
  (List.range' before.pages.length (after.pages.length - before.pages.length)).map .table

/-- `VMSpace::map`. -/
def mapGrowths (k : Phys) (s : VMSpace) (vpn minPermissions : ℕ) : List Growth :=
  match s.findArea vpn with
  | none => []
  | some area =>
    if minPermissions &&& area.permissions ≠ minPermissions ∨ area.mapType ≠ .anonymous then []
    else
      match k.allocZeroedPage with
      | none => []
      | some (page, k) =>
        let replaced := (area.pages.get? vpn).toList
        let inserted := .page area.pages.entries.length :: recycledGrowths k replaced.length
        match toPteFlags area.permissions with
        | .error _ => inserted
        | .ok pteFlags =>
          match RootPgt.mapCreate (k.dropPages replaced) s.rootPgt vpn page pteFlags with
          | (.ok (), _, t) => inserted ++ tableGrowths s.rootPgt t
          -- the page is removed from the area again
          | (.error _, k, t) => inserted ++ tableGrowths s.rootPgt t ++ recycledGrowths k 1

/-- A page goes to the tables or stays with the allocator. -/
theorem descend_balance {k k' : Phys} {t t' : RootPgt} {vpn ppn table idx p : ℕ}
    (h : RootPgt.descend k t vpn ppn table idx = (.ok p, k', t')) :
    t'.pages.length + k'.available = t.pages.length + k.available := by
  unfold RootPgt.descend at h
  dsimp only at h
  split at h
  · split at h
    · cases h
    · cases h
      rfl
  split at h
  · cases h
  rename_i page k₁ hal
  have hav := Phys.available_of_alloc hal
  split at h
  · cases h
  split at h
  · cases h
  · cases h
    simp only [List.length_append, List.length_singleton]
    show _ + k₁.available = _
    omega

theorem mapCreate_balance {k k' : Phys} {t t' : RootPgt} {vpn ppn pteFlags : ℕ}
    (h : RootPgt.mapCreate k t vpn ppn pteFlags = (.ok (), k', t')) :
    t'.pages.length + k'.available = t.pages.length + k.available := by
  unfold RootPgt.mapCreate at h
  dsimp only at h
  split at h
  · cases h
  split at h
  · cases h
  rename_i h₁
  split at h
  · cases h
  rename_i h₂
  split at h
  · cases h
  · cases h
    exact (descend_balance h₂).trans (descend_balance h₁)

/-- **A served fault takes one entry for the page and one for each missing table.** -/
theorem mapGrowths_served {img : KernelImage} {first vpn minPermissions : ℕ} {rest : List ℕ}
    {k k' : Phys} {s s' : VMSpace} (hok : SpaceOk img k.mem s)
    (hacc : k.Accounted first (s.pages ++ rest)) (hrest : ∀ p ∈ img.pages, p ∈ rest)
    (hv : vpn < userEndVpn) (hinv : PTE.isValid (RootPgt.pteAt k.mem s.rootPgt.ppn vpn) = false)
    (h : map k s vpn minPermissions = (.ok (), k', s')) :
    ∃ n, mapGrowths k s vpn minPermissions = .page n ::
      (List.range' s.rootPgt.pages.length
        (RootPgt.missingTables k.mem s.rootPgt.ppn vpn)).map .table := by
  rcases map_cases hok hacc hrest hv hinv h with ⟨⟨e, he⟩, -⟩ |
    ⟨A, B, a, page, k₁, r, k₂, t₂, ht, ⟨rfl, -, -, -⟩ | ⟨e, -, he, -⟩⟩
  · cases he
  swap
  · cases he
  have ha : a ∈ s.areas := by simp [ht.areas_eq]
  have hfind : s.findArea vpn = some a := by
    cases hf : s.findArea vpn with
    | none => exact absurd ht.contains (by simpa using List.find?_eq_none.mp hf a ha)
    | some b =>
      obtain ⟨_, _, hs, hbv, -⟩ := Vec.find?_split hf
      rw [hok.agrees.area_unique ha (by simp [hs]) ht.contains hbv]
  have hanon : a.mapType = .anonymous := hok.anonymous ha hv ht.contains
  have hacc₁ : k₁.Accounted first
      (s.rootPgt.pages ++ (page :: (s.areas.flatMap (fun a => a.pages.values) ++ rest))) := by
    refine (Phys.allocZeroedPage_spec hacc ht.alloc).1.congr ?_
    simp only [pages, List.append_assoc]
    exact List.perm_middle.symm
  -- the pages that `map_create` took are the missing tables
  have hspent := (RootPgt.mapCreate_linked hacc₁ ht.ok.tables (vpn2_lt (lt_of_lt_userEnd hv))
    ht.create).2
  have hbalance := mapCreate_balance ht.create
  have hmissing := ht.missingTables_eq hok hv
  refine ⟨a.pages.entries.length, ?_⟩
  unfold mapGrowths
  simp only [hfind, ht.grants, hanon, ne_eq, not_true_eq_false, or_self, if_false, ht.alloc,
    ht.get?_eq, Option.toList_none, List.length_nil, toPteFlags_of_bits (hok.permissions a ha),
    Phys.dropPages, List.foldl_nil, ht.create]
  rw [recycledGrowths, List.range'_zero, List.map_nil, List.singleton_append, tableGrowths]
  congr 3
  omega

/-- One round of the loop of `VMSpace::unmap`, at index `i`. -/
def unmapAreaGrowths (k : Phys) (s : VMSpace) (startVpn endVpn i : ℕ) : List Growth :=
  match s.areas[i]? with
  | none => []
  | some area =>
    if area.endVpn ≤ startVpn ∨ endVpn ≤ area.startVpn then []
    else if startVpn ≤ area.startVpn ∧ area.endVpn ≤ endVpn then
      recycledGrowths k area.pages.values.length
    else if startVpn ≤ area.startVpn then
      .split area.pages.entries.length ::
        recycledGrowths k (area.pages.keep endVpn).values.length
    else if area.endVpn ≤ endVpn then
      .split area.pages.entries.length ::
        recycledGrowths k (area.pages.splitOff startVpn).values.length
    else
      let tail := area.pages.splitOff startVpn
      .split area.pages.entries.length :: .split tail.entries.length ::
        (recycledGrowths k (tail.keep endVpn).values.length ++ [.area s.areas.length])

/-- The loop of `VMSpace::unmap`, with the indices below `n` still to visit. -/
def unmapBelowGrowths (k : Phys) (s : VMSpace) (startVpn endVpn : ℕ) : ℕ → List Growth
  | 0 => []
  | i + 1 =>
    unmapAreaGrowths k s startVpn endVpn i ++
      match unmapArea k s startVpn endVpn i with
      | (.ok (), k, s) => unmapBelowGrowths k s startVpn endVpn i
      | _ => []

/-! ### The handlers -/

/-- `do_page_fault`. -/
def faultGrowths (mc : Machine) (taskId va minPermissions : ℕ) : List Growth :=
  match mc.kernel.findTcb taskId, VPN.fromVa va with
  | some tcb, some vpn => mapGrowths mc.phys tcb.vmSpace vpn minPermissions
  | _, _ => []

/-- `run_next_task` drops the control block of a task that has exited or been killed. -/
def endGrowths (mc : Machine) : List Growth :=
  match mc.space with
  | none => []
  | some s => recycledGrowths mc.phys s.pages.length

/-- The page fault arms of `u_trap_handler`. -/
def uPageFaultGrowths (mc : Machine) (taskId stval minPermissions : ℕ) : List Growth :=
  faultGrowths mc taskId stval minPermissions ++
    match doPageFault mc taskId stval minPermissions with
    | .ok (.error _, mc) => endGrowths mc
    | _ => []

/-- One instruction of `__uaccess`, with the page fault that it may take. -/
def Copy.stepGrowths (c : Copy) : List Growth :=
  match c.pc with
  | .lb =>
    match c.load c.a0 with
    | some _ => []
    | none => faultGrowths c.mc (c.mc.kernel.taskIdAt c.mc.kernel.tp) c.a0
        (permissionU ||| permissionR)
  | .sb =>
    match c.store c.a1 (c.t6 % 256) with
    | some _ => []
    | none => faultGrowths c.mc (c.mc.kernel.taskIdAt c.mc.kernel.tp) c.a1
        (permissionU ||| permissionW)
  | _ => []

/-- A number of instructions. -/
def Copy.runGrowths (ua : UAccess) : ℕ → Copy → List Growth
  | 0, _ => []
  | n + 1, c =>
    c.stepGrowths ++
      match c.step ua with
      | .error _ => []
      | .ok c => runGrowths ua n c

/-- `copy_from_user` and `copy_to_user`. -/
def copyGrowths (ua : UAccess) (mc : Machine) (kernel : ℕ → ℕ) (src dst len : ℕ) : List Growth :=
  Copy.runGrowths ua (5 * len + 1) (Copy.start mc kernel src dst len)

/-- `sys_write`, beside its buffer. -/
def writeGrowths (heap : Heap) (ua : UAccess) (mc : Machine) (kernel : ℕ → ℕ)
    (fd buf count : ℕ) : List Growth :=
  if fd ≠ fdStdout ∨ checkUVaRange buf count = false then []
  else
    match vecZeros heap kernel count with
    | .error _ => []
    | .ok (dst, kernel) => copyGrowths ua mc kernel buf dst count

/-- `mmap`. -/
def mmapGrowths (mc : Machine) (addr len prot : ℕ) : List Growth :=
  match mc.space with
  | none => []
  | some s =>
    if mmapAccepts addr len prot = true ∧ (mmapTcb addr len prot s).1 = .ok () then
      [.area s.areas.length]
    else []

theorem mmapGrowths_length_le (mc : Machine) (addr len prot : ℕ) :
    (mmapGrowths mc addr len prot).length ≤ 1 := by
  unfold mmapGrowths
  split
  · exact Nat.zero_le 1
  · split
    · exact Nat.le_refl 1
    · exact Nat.zero_le 1

/-- `munmap`. -/
def munmapGrowths (mc : Machine) (addr len : ℕ) : List Growth :=
  if checkUVaRange addr len = false ∨ len = 0 then []
  else
    match mc.space, VPN.fromVa addr, VPN.fromVa (endOfRange addr len) with
    | some s, some startVpn, some endVpn =>
      unmapBelowGrowths mc.phys s startVpn endVpn s.areas.length
    | _, _, _ => []

end RCoreKernel.Trap
