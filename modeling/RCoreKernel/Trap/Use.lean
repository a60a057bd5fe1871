import RCoreKernel.Syscall.Mmap
import RCoreKernel.Trap.Copy

/-!
# How a task uses the pages it was given

A task loads, stores and fetches instructions.  `mmap` records what its area grants, and the entry
of a page is made when the page is first used, by the handler of the fault: that of a load or a
store maps the page, that of a fetch kills the task.

* `Succeeds` — a use succeeds at once, or after faults from which the task is resumed;
* `History` — the uses that succeeded so far;
* `succeeds_step` — what a use that succeeds leaves;
* `succeeds_iff` — when a use succeeds;
* `granted_succeeds_iff` — **of what `mmap` grants, loads succeed, stores that may also load, and
  fetches from pages that were loaded from or stored to before**.
-/

namespace RCoreKernel.Trap

open Mm Mm.VMSpace Mm.RootPgt Syscall RCoreKernel.Task

/-- What an instruction does with memory. -/
inductive Use
  | data (access : Access)
  | fetch
  deriving DecidableEq, Repr

namespace Use

/-- The bits that the entry must have. -/
def permissions : Use → ℕ
  | .data access => access.minPermissions
  | .fetch => permissionU ||| permissionX

/-- The bit of `prot` that grants the use. -/
def prot : Use → ℕ
  | .data .load => protRead
  | .data .store => protWrite
  | .fetch => protExec

/-- The exception code of its page fault. -/
def scause : Use → ℕ
  | .data access => scauseOf access
  | .fetch => 12

theorem permissions_lt (use : Use) : use.permissions < 2 ^ 6 := by
  cases use with
  | data access => exact minPermissions_lt access
  | fetch => decide

theorem flagV_land (use : Use) : PTE.flagV &&& use.permissions = 0 := by
  cases use with
  | data access => cases access <;> decide
  | fetch => decide

end Use

/-- The entry of the page permits the use. -/
def UsePermits (m : Mem) (root va : ℕ) (use : Use) : Prop :=
  PTE.isValid (pteAt m root (va / pageSizeBytes)) = true ∧
    pteAt m root (va / pageSizeBytes) &&& use.permissions = use.permissions

/-- The tables in use permit the use. -/
def Machine.Permits (mc : Machine) (va : ℕ) (use : Use) : Prop :=
  ∃ s, mc.space = some s ∧ UsePermits mc.phys.mem s.rootPgt.ppn va use

/-- What a use does to memory, when it succeeds. -/
def Machine.after (mc : Machine) (va : ℕ) (use : Use) (byte : ℕ) : Machine :=
  match use, mc.space with
  | .data .store, some s => { mc with phys := { mc.phys with
      mem := storeByte mc.phys.mem (pageAt ⟨mc.phys, s⟩ va) (va % 4096) byte } }
  | _, _ => mc

section
variable (syscall : Machine → Except Crash (UEnd × Machine)) (syscallId : ℕ) (clock : Clock)

/-- The use succeeds at once, or the task is resumed after a fault and the use then succeeds. -/
inductive Succeeds : Machine → Use → ℕ → Machine → Prop
  | direct {mc : Machine} {use : Use} {va : ℕ} : mc.Permits va use → Succeeds mc use va mc
  | resumed {mc mc₁ mc' : Machine} {use : Use} {va : ℕ} : ¬mc.Permits va use →
      uTrapHandler syscall syscallId mc clock use.scause va = .ok (.resume, mc₁) →
      Succeeds mc₁ use va mc' → Succeeds mc use va mc'

/-- The uses of a task that have succeeded, with their addresses and the bytes of its stores. -/
inductive History (start : Machine) : List (Use × ℕ × ℕ) → Machine → Prop
  | start : History start [] start
  | used {uses : List (Use × ℕ × ℕ)} {mc mc' : Machine} {use : Use} {va byte : ℕ} :
      History start uses mc → Succeeds syscall syscallId clock mc use va mc' → byte < 256 →
      History start (uses ++ [(use, va, byte)]) (mc'.after va use byte)

end

variable {img : KernelImage} {first : ℕ} {rest created gone : List ℕ} {mc mc' : Machine}
  {tcb : TaskControlBlock VMSpace} {k : Phys} {s s₁ : VMSpace} {use : Use} {va : ℕ}
  {syscall : Machine → Except Crash (UEnd × Machine)} {syscallId : ℕ} {clock : Clock}

theorem space_standing (hst : Standing img first rest created gone mc tcb) :
    mc.space = some tcb.vmSpace := by
  have h := space_withSpace hst hst.tidy
  rwa [hst.withSpace_self] at h

theorem permits_iff (hst : Standing img first rest created gone mc tcb) :
    mc.Permits va use ↔ UsePermits mc.phys.mem tcb.vmSpace.rootPgt.ppn va use := by
  rw [Machine.Permits, space_standing hst]
  constructor
  · rintro ⟨s, hs, h⟩
    cases hs
    exact h
  · exact fun h => ⟨_, rfl, h⟩

/-- A killed task is not resumed. -/
theorem killAndRunNext_ne_resume (mc₁ : Machine) : killAndRunNext mc clock ≠ .ok (.resume, mc₁) := by
  unfold killAndRunNext
  cases mc.kernel.killTask clock.runEnd with
  | error site => exact fun h => nomatch h
  | ok st =>
    dsimp only
    unfold runNextTask
    split <;> exact fun h => nomatch h

/-- A page that is there permits what its area grants. -/
theorem usePermits_iff_granted (ht : Tidy img first rest k s) (hv : va / 4096 < userEndVpn)
    (hval : PTE.isValid (pteAt k.mem s.rootPgt.ppn (va / 4096)) = true) :
    UsePermits k.mem s.rootPgt.ppn va use ↔ Granted s (va / 4096) use.permissions := by
  rw [← land_iff_granted ht.ok hv hval use.permissions_lt use.flagV_land]
  exact ⟨fun h => h.2, fun h => ⟨hval, h⟩⟩

/-! ### One use -/

/-- The fault of a load or a store: the task is resumed, or not. -/
theorem data_fault (hst : Standing img first rest created gone mc tcb) (hva : checkUVa va = true)
    {access : Access} (hnot : ¬UsePermits mc.phys.mem tcb.vmSpace.rootPgt.ppn va (.data access)) :
    (∃ k s, uTrapHandler syscall syscallId mc clock (Use.data access).scause va =
          .ok (.resume, mc.withSpace tcb.taskId k s) ∧ Tidy img first rest k s ∧
        FaultServed img first rest access va mc.phys tcb.vmSpace k s) ∨
      (∀ mc₁, uTrapHandler syscall syscallId mc clock (Use.data access).scause va ≠
          .ok (.resume, mc₁)) ∧ FaultRefused access va mc.phys tcb.vmSpace := by
  have htrap := uTrapHandler_fault hst.ongoing.current hva access syscall syscallId clock
  rw [uPageFault] at htrap
  obtain ⟨k, s, ht, -, ⟨hdo, hserved⟩ | ⟨⟨e, hdo⟩, hrefused, -⟩⟩ := hst.faulted hva hnot
  · rw [hdo] at htrap
    exact Or.inl ⟨k, s, htrap, ht, hserved⟩
  · rw [hdo] at htrap
    refine Or.inr ⟨fun mc₁ h => ?_, hrefused⟩
    exact killAndRunNext_ne_resume mc₁ (htrap.symm.trans h)

/-- The fault of a fetch. -/
theorem fetch_fault (hst : Standing img first rest created gone mc tcb) (mc₁ : Machine) :
    uTrapHandler syscall syscallId mc clock Use.fetch.scause va ≠ .ok (.resume, mc₁) := by
  have hcause : matchCause Use.fetch.scause = .instructionPageFault := by decide
  unfold uTrapHandler
  simp only [hst.ongoing.current, hcause]
  exact killAndRunNext_ne_resume mc₁

/-- The page that was used, before and after. -/
structure Used (img : KernelImage) (first : ℕ) (rest : List ℕ) (use : Use) (va : ℕ) (k : Phys)
    (s : VMSpace) (k' : Phys) (s' : VMSpace) : Prop where
  tidy : Tidy img first rest k' s'
  bounds_eq : s'.areas.map bounds = s.areas.map bounds
  permits : UsePermits k'.mem s'.rootPgt.ppn va use
  first_use : PTE.isValid (pteAt k.mem s.rootPgt.ppn (va / 4096)) = true ∨
    use ≠ .fetch ∧ ∃ a ∈ s.areas, a.containVpn (va / 4096) = true ∧
      PTE.isValidFlags (a.permissions ||| PTE.flagV) = true

/-- **What a use that succeeds leaves.** -/
theorem succeeds_step (hst : Standing img first rest created gone mc tcb)
    (hva : checkUVa va = true) (h : Succeeds syscall syscallId clock mc use va mc') :
    ∃ k s, mc' = mc.withSpace tcb.taskId k s ∧
      Used img first rest use va mc.phys tcb.vmSpace k s := by
  cases h with
  | direct hpermits =>
    rw [permits_iff hst] at hpermits
    exact ⟨_, _, hst.withSpace_self.symm, hst.tidy, rfl, hpermits, Or.inl hpermits.1⟩
  | resumed hnot htrap hrest =>
    rw [permits_iff hst] at hnot
    cases use with
    | fetch => exact absurd htrap (fetch_fault hst _)
    | data access =>
      rcases data_fault hst hva hnot with ⟨k, s, hserve, ht, hserved⟩ | ⟨hno, -⟩
      · rw [hserve] at htrap
        cases htrap
        have hthere : (mc.withSpace tcb.taskId k s).Permits va (.data access) :=
          (permits_iff (hst.withSpace ht)).mpr hserved.permits
        -- the second attempt does not fault
        cases hrest with
        | direct _ =>
          obtain ⟨a, ha, hav, -, hlegal⟩ := hserved.legal
          exact ⟨k, s, rfl, ht, hserved.bounds_eq, hserved.permits,
            Or.inr ⟨by simp, a, ha, hav, hlegal⟩⟩
        | resumed hnot' _ _ => exact absurd hthere hnot'
      · exact absurd htrap (hno _)

/-- **When a use succeeds.**  Its page is there, or it is a load or a store and the area of the page
has permissions that an entry can have. -/
theorem succeeds_iff (hst : Standing img first rest created gone mc tcb) (hva : checkUVa va = true)
    {a : VMArea} (ha : a ∈ tcb.vmSpace.areas) (hav : a.containVpn (va / 4096) = true)
    (hgrants : use.permissions &&& a.permissions = use.permissions)
    (hfree : 3 ≤ mc.phys.available) :
    (∃ mc', Succeeds syscall syscallId clock mc use va mc') ↔
      (PTE.isValid (pteAt mc.phys.mem tcb.vmSpace.rootPgt.ppn (va / 4096)) = true ∨
        use ≠ .fetch ∧ PTE.isValidFlags (a.permissions ||| PTE.flagV) = true) := by
  have hv := vpn_lt_of_check hva
  have hgranted : Granted tcb.vmSpace (va / 4096) use.permissions := ⟨a, ha, hav, hgrants⟩
  constructor
  · rintro ⟨mc', h⟩
    obtain ⟨k, s, -, hused⟩ := succeeds_step hst hva h
    rcases hused.first_use with hval | ⟨hdata, b, hb, hbv, hlegal⟩
    · exact Or.inl hval
    · obtain rfl := hst.tidy.ok.agrees.area_unique ha hb hav hbv
      exact Or.inr ⟨hdata, hlegal⟩
  · intro hcan
    by_cases hval : PTE.isValid (pteAt mc.phys.mem tcb.vmSpace.rootPgt.ppn (va / 4096)) = true
    · exact ⟨mc, .direct ((permits_iff hst).mpr ((usePermits_iff_granted hst.tidy hv hval).mpr hgranted))⟩
    · obtain ⟨hdata, hlegal⟩ := hcan.resolve_left hval
      have hnot : ¬UsePermits mc.phys.mem tcb.vmSpace.rootPgt.ppn va use := fun h => hval h.1
      cases use with
      | fetch => exact absurd rfl hdata
      | data access =>
        rcases data_fault hst hva hnot with ⟨k, s, hserve, ht, hserved⟩ | ⟨-, hrefused⟩
        · refine ⟨_, .resumed (fun h => hnot ((permits_iff hst).mp h)) hserve (.direct ?_)⟩
          exact (permits_iff (hst.withSpace ht)).mpr hserved.permits
        · rcases hrefused with hno | ⟨-, hno⟩
          · exact absurd hgranted hno
          · have hle := missingTables_le mc.phys.mem tcb.vmSpace.rootPgt.ppn (va / 4096)
            exact absurd ⟨a, ha, hav, hgrants, hlegal, by omega⟩ hno

/-- What is stored changes no table. -/
theorem after_eq (hst : Standing img first rest created gone mc tcb) (hva : checkUVa va = true)
    (ht : Tidy img first rest k s) (hpermits : UsePermits k.mem s.rootPgt.ppn va use) (byte : ℕ) :
    ∃ k', (mc.withSpace tcb.taskId k s).after va use byte = mc.withSpace tcb.taskId k' s ∧
      Tidy img first rest k' s ∧ ∀ v < userEndVpn,
        pteAt k'.mem s.rootPgt.ppn v = pteAt k.mem s.rootPgt.ppn v := by
  have hspace := space_withSpace hst ht
  cases use with
  | fetch => exact ⟨k, rfl, ht, fun _ _ => rfl⟩
  | data access =>
    cases access with
    | load => exact ⟨k, rfl, ht, fun _ _ => rfl⟩
    | store =>
      obtain ⟨ht', -, htables⟩ := ht.stored (vpn_lt_of_check hva) hpermits.1 byte
      refine ⟨_, ?_, ht', fun v hv => pteAt_tables ht.ok htables hv⟩
      unfold Machine.after
      rw [hspace]
      rfl

/-! ### What was used before -/

/-- A page that nobody has used is there after the first use, which only a load or a store of a
legal area can be. -/
theorem history_page (hst : Standing img first rest created gone mc tcb) {v : ℕ} {a : VMArea}
    (ha : a ∈ tcb.vmSpace.areas) (hav : a.containVpn v = true) (hv : v < userEndVpn)
    (hinv : ¬PTE.isValid (pteAt mc.phys.mem tcb.vmSpace.rootPgt.ppn v) = true)
    {uses : List (Use × ℕ × ℕ)} (huses : ∀ x ∈ uses, x.2.1 / 4096 = v)
    (h : History syscall syscallId clock mc uses mc') :
    ∃ k s, mc' = mc.withSpace tcb.taskId k s ∧ Tidy img first rest k s ∧
      s.areas.map bounds = tcb.vmSpace.areas.map bounds ∧
      (PTE.isValid (pteAt k.mem s.rootPgt.ppn v) = true ↔ uses ≠ []) ∧
      (uses ≠ [] → PTE.isValidFlags (a.permissions ||| PTE.flagV) = true) := by
  induction h with
  | start =>
    exact ⟨_, _, hst.withSpace_self.symm, hst.tidy, rfl, by simp [hinv], by simp⟩
  | @used uses mc₁ mc₂ use va byte h hsucc hbyte ih =>
    obtain ⟨k, s, rfl, ht, hbounds, hvalid, hlegal⟩ :=
      ih fun x hx => huses x (List.mem_append_left _ hx)
    have hva : va / 4096 = v := huses (use, va, byte) (by simp)
    have hcheck : checkUVa va = true := by
      rw [checkUVa_iff]
      rw [userEndVpn_eq] at hv
      omega
    have hst₁ := hst.withSpace ht
    obtain ⟨k', s', rfl, hused⟩ := succeeds_step hst₁ hcheck hsucc
    rw [withSpace_withSpace]
    obtain ⟨k'', hafter, ht'', hpte⟩ := after_eq hst hcheck hused.tidy hused.permits byte
    refine ⟨k'', s', hafter, ht'', hused.bounds_eq.trans hbounds, ?_, fun _ => ?_⟩
    · have hthere : PTE.isValid (pteAt k'.mem s'.rootPgt.ppn (va / 4096)) = true := hused.permits.1
      rw [hpte v hv, ← hva]
      simp [hthere]
    · -- the first use brought the page, from the same area
      rcases hused.first_use with hval | ⟨-, b, hb, hbv, hflags⟩
      · rw [hva] at hval
        exact hlegal (hvalid.mp hval)
      · rw [hva] at hbv
        obtain ⟨b', hb', hperm, hcontain⟩ := area_of_bounds hbounds.symm hb
        rw [← hcontain] at hbv
        obtain rfl := hst.tidy.ok.agrees.area_unique ha hb' hav hbv
        rw [hperm]
        exact hflags

/-! ### The permissions of `mmap` -/

/-- `prot` grants the use: the area has its permissions. -/
theorem toPermissions_grants {prot : ℕ} (h : prot &&& use.prot ≠ 0) :
    use.permissions &&& toPermissions prot = use.permissions := by
  unfold toPermissions
  cases use with
  | fetch =>
    have h : prot &&& protExec ≠ 0 := h
    simp only [h, not_false_eq_true, if_true, ne_eq]
    split_ifs <;> decide
  | data access =>
    cases access with
    | load =>
      have h : prot &&& protRead ≠ 0 := h
      simp only [h, not_false_eq_true, if_true, ne_eq]
      split_ifs <;> decide
    | store =>
      have h : prot &&& protWrite ≠ 0 := h
      simp only [h, not_false_eq_true, if_true, ne_eq]
      split_ifs <;> decide

/-- An entry cannot have the permission to write alone. -/
theorem toPermissions_legal (prot : ℕ) :
    PTE.isValidFlags (toPermissions prot ||| PTE.flagV) = true ↔
      (prot &&& protWrite ≠ 0 → prot &&& protRead ≠ 0) := by
  unfold toPermissions
  by_cases hr : prot &&& protRead = 0 <;> by_cases hw : prot &&& protWrite = 0 <;>
    by_cases hx : prot &&& protExec = 0 <;> simp [hr, hw, hx] <;> decide

/-- A page of an area that `mmap` has added. -/
theorem mmap_page {addr len prot : ℕ} {a : VMArea}
    (hst : Standing img first rest created gone mc tcb)
    (hmap : mmap tcb.vmSpace addr len prot = (.ok 0, s₁))
    (ha : s₁.areas = tcb.vmSpace.areas ++ [a]) (hav : a.containVpn (va / 4096) = true) :
    Tidy img first rest mc.phys s₁ ∧ a.permissions = toPermissions prot ∧ a ∈ s₁.areas ∧
      checkUVa va = true ∧ ¬PTE.isValid (pteAt mc.phys.mem s₁.rootPgt.ppn (va / 4096)) = true := by
  have haccept : mmapAccepts addr len prot = true := by
    by_contra hno
    rw [mmap_refused hno] at hmap
    cases hmap
  have hrange := haccept
  rw [mmapAccepts, Bool.and_eq_true] at hrange
  obtain ⟨-, hend⟩ := checkUVaRange_le hrange.1
  have ht : Tidy img first rest mc.phys s₁ := by
    have hview := mmap_onView hst.tidy.ok hst.tidy.accounted addr len prot
    have hexec : ((Request.mmap addr len prot).exec mc.phys tcb.vmSpace).2 = (mc.phys, s₁) := by
      unfold Request.exec
      simp only [hmap]
    rw [hexec] at hview
    exact hst.tidy.of_viewed hview
  rcases mmap_accepted haccept with ⟨-, -, hdone⟩ | ⟨-, hdone⟩
  · rw [hdone] at hmap
    cases hmap
    obtain rfl : a = VMArea.new (addr / 4096) ((addr + len + 4095) / 4096) .anonymous
        (toPermissions prot) := by
      simpa using ha.symm
    have hcontain := VMArea.containVpn_iff.mp hav
    simp only [VMArea.new] at hcontain
    rw [userSpaceEnd_eq] at hend
    have hcheck : checkUVa va = true := by
      rw [checkUVa_iff]
      omega
    have hmem : VMArea.new (addr / 4096) ((addr + len + 4095) / 4096) .anonymous
        (toPermissions prot) ∈ tcb.vmSpace.areas ++ [VMArea.new (addr / 4096)
          ((addr + len + 4095) / 4096) .anonymous (toPermissions prot)] := by simp
    refine ⟨ht, rfl, hmem, hcheck, fun hval => ?_⟩
    -- the new area has no pages
    obtain ⟨page, b, hb, hbv, hpage⟩ := (ht.ok.agrees.valid_iff _ (vpn_lt_of_check hcheck)).mp hval
    obtain rfl := ht.ok.agrees.area_unique hb hmem hbv hav
    exact absurd hpage (by simp [VMArea.new])
  · rw [hdone] at hmap
    cases hmap

/-! ### What `mmap` grants -/

/-- **Which of the granted uses succeed.**  After `mmap` has added the area of the page, and after
some uses of this page, a use that `prot` grants succeeds, with three free pages, exactly when it is
a load, or a store and `prot` grants loads too, or a fetch and the page has been used before. -/
theorem granted_succeeds_iff {addr len prot : ℕ} {a : VMArea} {uses : List (Use × ℕ × ℕ)}
    (hst : Standing img first rest created gone mc tcb)
    (hmap : mmap tcb.vmSpace addr len prot = (.ok 0, s₁))
    (ha : s₁.areas = tcb.vmSpace.areas ++ [a]) (hav : a.containVpn (va / 4096) = true)
    (hhistory : History syscall syscallId clock (mc.withSpace tcb.taskId mc.phys s₁) uses mc')
    (huses : ∀ x ∈ uses, x.2.1 / 4096 = va / 4096) (hgrants : prot &&& use.prot ≠ 0)
    (hfree : 3 ≤ mc'.phys.available) :
    (∃ mc'', Succeeds syscall syscallId clock mc' use va mc'') ↔
      (use = .data .load ∨ use = .data .store ∧ prot &&& protRead ≠ 0 ∨ use = .fetch ∧ uses ≠ []) := by
  obtain ⟨ht₁, hperm, hmem, hcheck, hinv⟩ := mmap_page hst hmap ha hav
  have hv := vpn_lt_of_check hcheck
  obtain ⟨k, s, rfl, ht, hbounds, hvalid, hlegal⟩ :=
    history_page (hst.withSpace ht₁) hmem hav hv hinv huses hhistory
  rw [withSpace_withSpace] at hfree ⊢
  obtain ⟨b, hb, hbperm, hcontain⟩ := area_of_bounds hbounds hmem
  rw [succeeds_iff (hst.withSpace ht) hcheck hb (by rw [hcontain]; exact hav)
    (by rw [hbperm, hperm]; exact toPermissions_grants hgrants) hfree]
  rw [hperm, toPermissions_legal] at hlegal
  rw [hbperm, hperm, toPermissions_legal]
  have hvalid : PTE.isValid (pteAt (mc.withSpace tcb.taskId k s).phys.mem s.rootPgt.ppn
    (va / 4096)) = true ↔ uses ≠ [] := hvalid
  dsimp only
  rw [hvalid]
  cases use with
  | fetch => simp
  | data access =>
    cases access with
    | load =>
      have hr : prot &&& protRead ≠ 0 := hgrants
      simp [hr]
    | store =>
      have hw : prot &&& protWrite ≠ 0 := hgrants
      constructor
      · rintro (hused | ⟨-, hlegal'⟩)
        · exact Or.inr (Or.inl ⟨rfl, hlegal hused hw⟩)
        · exact Or.inr (Or.inl ⟨rfl, hlegal' hw⟩)
      · rintro (h | ⟨-, hr⟩ | ⟨h, -⟩)
        · cases h
        · exact Or.inr ⟨by simp, fun _ => hr⟩
        · cases h

/-- One page is added to the small space. -/
def sampleAdded (prot : ℕ) : VMSpace := (mmap sampleAreaSpace 0x20000 4096 prot).2

/-- One page that may be loaded from and executed has been added. -/
def sampleStart : Machine :=
  sampleMachine.withSpace 7 samplePhys (sampleAdded (protRead ||| protExec))

/-- The machine after the first load from it. -/
def sampleLoaded : Machine :=
  match uTrapHandler (fun mc => .ok (.resume, mc)) 0 sampleStart ⟨0, 0, 0, 0⟩ 13 0x20010 with
  | .ok (_, mc) => mc
  | .error _ => sampleStart

theorem sampleLoaded_succeeds : Succeeds (fun mc => .ok (.resume, mc)) 0 ⟨0, 0, 0, 0⟩ sampleStart
    (.data .load) 0x20010 sampleLoaded := by
  have hpermits : UsePermits sampleLoaded.phys.mem 3 0x20010 (.data .load) :=
    ⟨by decide +kernel, by decide +kernel⟩
  refine .resumed ?_ rfl (.direct ⟨_, rfl, hpermits⟩)
  rintro ⟨s, hs, hvalid, -⟩
  cases hs
  revert hvalid
  decide

/-- A fetch from the page, after a load. -/
theorem granted_succeeds_sample : ∃ mc'', Succeeds (fun mc => .ok (.resume, mc)) 0 ⟨0, 0, 0, 0⟩
    sampleLoaded .fetch 0x20020 mc'' := by
  have hmap : mmap sampleTask.vmSpace 0x20000 4096 (protRead ||| protExec) =
    (.ok 0, sampleAdded (protRead ||| protExec)) := rfl
  have hhistory : History (fun mc => .ok (.resume, mc)) 0 ⟨0, 0, 0, 0⟩ sampleStart
      [(.data .load, 0x20010, 0)] sampleLoaded := .used .start sampleLoaded_succeeds (by decide)
  have hfree : 3 ≤ sampleLoaded.phys.available := by decide +kernel
  exact (granted_succeeds_iff sampleMachine_standing hmap rfl (by decide) hhistory (by decide)
    (by decide) hfree).mpr (Or.inr (Or.inr ⟨rfl, by simp⟩))

/-- The first fetch from a page that may be executed kills the task, and succeeds after a load; each
store to a page that may only be stored to kills the task. -/
theorem granted_use_fails :
    (¬∃ mc'', Succeeds (fun mc => .ok (.resume, mc)) 0 ⟨0, 0, 0, 0⟩
      (sampleMachine.withSpace 7 samplePhys (sampleAdded (protRead ||| protExec))) .fetch 0x20010 mc'') ∧
    (∃ mc' mc'', Succeeds (fun mc => .ok (.resume, mc)) 0 ⟨0, 0, 0, 0⟩
      (sampleMachine.withSpace 7 samplePhys (sampleAdded (protRead ||| protExec))) (.data .load) 0x20010
        mc' ∧
      Succeeds (fun mc => .ok (.resume, mc)) 0 ⟨0, 0, 0, 0⟩ mc' .fetch 0x20010 mc'') ∧
    ¬∃ mc'', Succeeds (fun mc => .ok (.resume, mc)) 0 ⟨0, 0, 0, 0⟩
      (sampleMachine.withSpace 7 samplePhys (sampleAdded protWrite)) (.data .store) 0x20010 mc'' := by
  have hmap : mmap sampleTask.vmSpace 0x20000 4096 (protRead ||| protExec) =
    (.ok 0, sampleAdded (protRead ||| protExec)) := rfl
  have hmap' : mmap sampleTask.vmSpace 0x20000 4096 protWrite = (.ok 0, sampleAdded protWrite) := rfl
  have hareas : (sampleAdded (protRead ||| protExec)).areas = sampleTask.vmSpace.areas ++
    [VMArea.new 0x20 0x21 .anonymous (permissionR ||| permissionX ||| permissionU)] := rfl
  have hareas' : (sampleAdded protWrite).areas = sampleTask.vmSpace.areas ++
    [VMArea.new 0x20 0x21 .anonymous (permissionW ||| permissionU)] := rfl
  have hav : ∀ p, (VMArea.new 0x20 0x21 .anonymous p).containVpn (0x20010 / 4096) = true :=
    fun p => rfl
  obtain ⟨ht, -, hmem, hcheck, hinv⟩ := mmap_page sampleMachine_standing hmap hareas (hav _)
  obtain ⟨ht', -, hmem', -, hinv'⟩ := mmap_page sampleMachine_standing hmap' hareas' (hav _)
  have hst := sampleMachine_standing.withSpace ht
  have hst' := sampleMachine_standing.withSpace ht'
  refine ⟨?_, ?_, ?_⟩
  · intro hfetch
    obtain hval | ⟨hdata, -⟩ :=
      (succeeds_iff hst hcheck hmem (hav _) (by decide) (by decide)).mp hfetch
    · exact hinv hval
    · exact hdata rfl
  · have hgrants : (Use.data .load).permissions &&& (permissionR ||| permissionX ||| permissionU) =
        (Use.data .load).permissions := by decide
    obtain ⟨mc', hload⟩ := (succeeds_iff hst hcheck hmem (hav _) hgrants (by decide)).mpr
      (Or.inr ⟨by decide, by decide⟩)
    obtain ⟨k, s, rfl, hused⟩ := succeeds_step hst hcheck hload
    obtain ⟨b, hb, hperm, hcontain⟩ := area_of_bounds hused.bounds_eq hmem
    have hfetch : UsePermits k.mem s.rootPgt.ppn 0x20010 .fetch :=
      (usePermits_iff_granted hused.tidy (vpn_lt_of_check hcheck) hused.permits.1).mpr
        ⟨b, hb, by rw [hcontain]; exact hav _, by rw [hperm]; decide⟩
    exact ⟨_, _, hload, .direct ((permits_iff (hst.withSpace hused.tidy)).mpr hfetch)⟩
  · intro hstore
    obtain hval | ⟨-, hlegal⟩ :=
      (succeeds_iff hst' hcheck hmem' (hav _) (by decide) (by decide)).mp hstore
    · exact hinv' hval
    · exact absurd hlegal (by decide)

end RCoreKernel.Trap
