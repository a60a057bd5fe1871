import RCoreKernel.Lib.PageMap
import RCoreKernel.Mm.Difference
import RCoreKernel.Syscall.Mmap
import RCoreKernel.Syscall.Touch

/-!
# What an address space is for

To a task its address space is a page map: the pages that its areas cover, with their permissions
and bytes.  Pages that are not in memory yet are pages of zeros there, so page faults do not show.

* `View.space` — the page map of a space;
* `AddressSpace.Step` — what the calls and accesses of a task do to a page map, and what they return;
* `mmap_step`, `munmap_step`, `load_step`, `store_step`, `fault_silent` — **the kernel does the
  same**.
-/

namespace RCoreKernel

/-- Page numbers with permissions and bytes. -/
abbrev AddressSpace := PageMap ℕ ℕ ℕ ℕ

namespace Mm

open Radix RootPgt VMSpace

/-! ### The page map of a view -/

namespace View

/-- Pages that are not there yet read as zeros. -/
def space (areas : View) : AddressSpace := fun v =>
  (areas.find? (inArea v)).bind fun x => x.map fun a => (a.permissions, (a.content v).getD fun _ => 0)

/-- A change of the page `v` of one area. -/
theorem space_modify (areas : View) (v w : ℕ) {f : UserArea → UserArea}
    (hbounds : ∀ a, (f a).startVpn = a.startVpn ∧ (f a).endVpn = a.endVpn)
    (hothers : ∀ a, (f a).permissions = a.permissions ∧ ∀ u, u ≠ v → (f a).content u = a.content u) :
    (areas.modify v f).space w =
      if w = v then (areas.find? (inArea v)).bind fun x => x.map fun a =>
        (a.permissions, ((f a).content v).getD fun _ => 0)
      else areas.space w := by
  unfold space modify
  induction areas with
  | nil => simp [Vec.modifyFind]
  | cons x xs ih =>
    cases x with
    | none => simpa [Vec.modifyFind, inArea] using ih
    | some a =>
      have hin : ∀ u, inArea u (some (f a)) = inArea u (some a) := by
        intro u
        simp only [inArea, hbounds]
      rw [Vec.modifyFind]
      cases hv : inArea v (some a) with
      | true =>
        rw [if_pos rfl, Option.map_some, List.find?_cons, hin]
        by_cases hw : w = v
        · subst hw
          rw [hv, if_pos rfl, List.find?_cons, hv]
          simp only [Option.bind_some, Option.map_some, (hothers a).1]
        · rw [if_neg hw, List.find?_cons]
          cases inArea w (some a) with
          | true => simp only [Option.bind_some, Option.map_some, (hothers a).1, (hothers a).2 w hw]
          | false => rfl
      | false =>
        rw [if_neg (by simp), List.find?_cons]
        cases hw : inArea w (some a) with
        | true =>
          have hne : w ≠ v := by
            rintro rfl
            rw [hv] at hw
            cases hw
          rw [if_neg hne, List.find?_cons, hw]
        | false => rw [ih, List.find?_cons, hv, List.find?_cons, hw]

/-- Page faults do not show. -/
theorem space_fault (areas : View) (v minPermissions : ℕ) :
    (areas.fault v minPermissions).space = areas.space := by
  refine PageMap.ext fun w => ?_
  rw [fault, space_modify]
  · split
    · rename_i hw
      subst hw
      unfold space
      congr 1
      funext x
      congr 1
      funext a
      split
      · rename_i hserved
        dsimp only
        rw [Function.update_self, hserved.2.2]
        rfl
      · rfl
    · rfl
  · intro a
    split <;> exact ⟨rfl, rfl⟩
  · intro a
    split
    · exact ⟨rfl, fun u hu => Function.update_of_ne hu ..⟩
    · exact ⟨rfl, fun _ _ => rfl⟩

/-- A store to a page that is there. -/
theorem space_store {areas : View} {va : ℕ} (hpage : (areas.page (va / 4096)).isSome = true)
    (byte : ℕ) :
    (areas.store va byte).space = areas.space.write (va / 4096) (va % 4096) byte := by
  refine PageMap.ext fun w => ?_
  rw [store, space_modify]
  · by_cases hw : w = va / 4096
    swap
    · rw [if_neg hw, PageMap.write_other hw]
    subst hw
    rw [if_pos rfl, PageMap.write_same, space]
    unfold page at hpage
    cases hfind : areas.find? (inArea (va / 4096)) with
    | none => rfl
    | some x =>
      cases x with
      | none => rfl
      | some a =>
        rw [hfind, Option.bind_some, Option.bind_some] at hpage
        obtain ⟨bytes, hbytes⟩ := Option.isSome_iff_exists.mp hpage
        simp only [Option.bind_some, Option.map_some, Function.update_self, hbytes, Option.getD_some]
        congr!
  · exact fun a => ⟨rfl, rfl⟩
  · exact fun a => ⟨rfl, fun u hu => Function.update_of_ne hu ..⟩

end View

/-! ### The page map of a space -/

/-- What a task sees of its space. -/
def VMSpace.space (m : Mem) (s : VMSpace) : AddressSpace := (s.view m).space

variable {img : KernelImage} {first : ℕ} {rest : List ℕ} {k k' : Phys} {s s' : VMSpace} {m : Mem}
  {v : ℕ}

/-- A page is mapped by the area that contains it. -/
theorem space_eq_some (hok : SpaceOk img m s) {x : ℕ × (ℕ → ℕ)} :
    s.space m v = some x ↔ ∃ a ∈ s.areas, a.mapType = .anonymous ∧ a.containVpn v = true ∧
      x = (a.permissions, (a.content m v).getD fun _ => 0) := by
  have hin : ∀ a ∈ s.areas, a.mapType = .anonymous → inArea v (a.view m) = a.containVpn v := by
    intro a _ hanon
    rw [VMArea.view_anonymous hanon]
    rfl
  unfold VMSpace.space View.space
  constructor
  · intro h
    obtain ⟨y, hfind, h⟩ := Option.bind_eq_some_iff.mp h
    obtain ⟨a, ha, rfl⟩ := List.mem_map.mp (List.mem_of_find?_eq_some hfind)
    have hanon : a.mapType = .anonymous := by
      by_contra hne
      rw [VMArea.view, if_neg hne] at h
      cases h
    have hav := List.find?_some hfind
    rw [hin a ha hanon] at hav
    rw [VMArea.view_anonymous hanon] at h
    exact ⟨a, ha, hanon, hav, (Option.some.inj h).symm⟩
  · rintro ⟨a, ha, hanon, hav, rfl⟩
    obtain ⟨y, hfind⟩ : ∃ y, (s.view m).find? (inArea v) = some y := by
      cases hf : (s.view m).find? (inArea v) with
      | none =>
        refine absurd (hin a ha hanon ▸ hav) ?_
        exact List.find?_eq_none.mp hf _ (List.mem_map_of_mem ha)
      | some y => exact ⟨y, rfl⟩
    obtain ⟨b, hb, rfl⟩ := List.mem_map.mp (List.mem_of_find?_eq_some hfind)
    have hbv := List.find?_some hfind
    have hbanon : b.mapType = .anonymous := by
      by_contra hne
      rw [VMArea.view, if_neg hne] at hbv
      cases hbv
    rw [hin b hb hbanon] at hbv
    obtain rfl := hok.agrees.area_unique ha hb hav hbv
    rw [hfind, Option.bind_some, VMArea.view_anonymous hanon]
    rfl

theorem space_eq_none (hok : SpaceOk img m s) (hv : v < userEndVpn) :
    s.space m v = none ↔ ∀ a ∈ s.areas, a.containVpn v = false := by
  rw [← not_iff_not, ← ne_eq, Option.ne_none_iff_exists']
  constructor
  · rintro ⟨x, hx⟩ hall
    obtain ⟨a, ha, -, hav, -⟩ := (space_eq_some hok).mp hx
    rw [hall a ha] at hav
    cases hav
  · intro hall
    obtain ⟨a, ha, hav⟩ : ∃ a ∈ s.areas, a.containVpn v = true := by
      by_contra hno
      exact hall fun a ha => by
        by_contra hav
        exact hno ⟨a, ha, by simpa using hav⟩
    have hanon : a.mapType = .anonymous := by
      rcases hok.placement a ha with ⟨hanon, -⟩ | ⟨-, hstart, -⟩
      · exact hanon
      · rw [VMArea.containVpn_iff] at hav
        rw [userEndVpn_eq] at hv
        omega
    exact ⟨_, (space_eq_some hok).mpr ⟨a, ha, hanon, hav, rfl⟩⟩

/-- Areas that say the same, with the same bytes in their pages, make the same page. -/
theorem space_congr {m' : Mem} (hok : SpaceOk img m s) (hok' : SpaceOk img m' s')
    (hsame : ∀ x, s'.Describes v x ↔ s.Describes v x)
    (hmem : ∀ page, s.Holds v page → m' page = m page) : s'.space m' v = s.space m v := by
  have hcontent : ∀ {a b : VMArea}, a ∈ s.areas → a.containVpn v = true →
      b.pages.get? v = a.pages.get? v → b.content m' v = a.content m v := by
    intro a b ha hav hget
    unfold VMArea.content
    rw [hget]
    cases hpage : a.pages.get? v with
    | none => rfl
    | some page =>
      rw [Option.map_some, Option.map_some,
        pageBytes_congr (hmem page ⟨a, ha, hav, BTreeMap.get?_eq_some.mp hpage⟩)]
  apply Option.ext
  intro x
  rw [space_eq_some hok, space_eq_some hok']
  constructor
  · rintro ⟨b, hb, hanon, hbv, rfl⟩
    obtain ⟨a, ha, hav, he⟩ := (hsame _).mp ⟨b, hb, hbv, rfl⟩
    simp only [Prod.mk.injEq] at he
    exact ⟨a, ha, he.1 ▸ hanon, hav, by rw [hcontent ha hav he.2.2, he.2.1]⟩
  · rintro ⟨a, ha, hanon, hav, rfl⟩
    obtain ⟨b, hb, hbv, he⟩ := (hsame _).mpr ⟨a, ha, hav, rfl⟩
    simp only [Prod.mk.injEq] at he
    exact ⟨b, hb, he.1 ▸ hanon, hbv, by rw [hcontent ha hav he.2.2.symm, he.2.1]⟩

end Mm

/-! ### The promise -/

namespace Syscall

open Mm Mm.VMSpace Mm.RootPgt Radix

/-- What a task does with its space, and what it gets back. -/
inductive Action
  | mmap (addr len prot : ℕ) (code : ℤ)
  | munmap (addr len : ℕ) (code : ℤ)
  | load (va byte : ℕ)
  | store (va byte : ℕ)

/-- The pages from that of `addr` to the rounded end of the range. -/
def claimed (addr len : ℕ) : Set ℕ := {v | addr / 4096 ≤ v ∧ v < (addr + len + 4095) / 4096}

end Syscall

namespace AddressSpace

open Syscall Mm

/-- The page is mapped with the permissions of the access. -/
def Grants (f : AddressSpace) (va : ℕ) (access : Access) : Prop :=
  ∃ page, f (va / 4096) = some page ∧ access.minPermissions &&& page.1 = access.minPermissions

/-- `mmap` can be served: the arguments are in order and the pages are free. -/
def Fits (f : AddressSpace) (addr len prot : ℕ) : Prop :=
  mmapAccepts addr len prot = true ∧ (claimed addr len).Nonempty ∧ f.Free (claimed addr len)

/-- The actions, on a page map.  New pages are zero; there are no page faults. -/
inductive Step : AddressSpace → Action → AddressSpace → Prop
  | mmap {f : AddressSpace} {addr len prot : ℕ} (h : f.Fits addr len prot) :
      Step f (.mmap addr len prot 0) (f.add (claimed addr len) (grantedBy prot) 0)
  | mmapRefused {f : AddressSpace} {addr len prot : ℕ} (h : ¬f.Fits addr len prot) :
      Step f (.mmap addr len prot (-1)) f
  | munmap {f : AddressSpace} {addr len : ℕ} (h : checkUVaRange addr len = true) :
      Step f (.munmap addr len 0) (f.remove (touched addr len))
  | munmapRefused {f : AddressSpace} {addr len : ℕ} (h : checkUVaRange addr len = false) :
      Step f (.munmap addr len (-1)) f
  | load {f : AddressSpace} {va byte : ℕ} (hgrants : f.Grants va .load)
      (hread : f.read (va / 4096) (va % 4096) = some byte) : Step f (.load va byte) f
  | store {f : AddressSpace} {va byte : ℕ} (hgrants : f.Grants va .store) :
      Step f (.store va byte) (f.write (va / 4096) (va % 4096) byte)

end AddressSpace

namespace Syscall

open Mm Mm.VMSpace Mm.RootPgt Radix

variable {img : KernelImage} {first : ℕ} {rest : List ℕ} {k k' : Phys} {s s' : VMSpace} {va : ℕ}
  {access : Access}

/-- `mmap` does what is promised. -/
theorem mmap_step (h : Tidy img first rest k s) (hne : ∀ a ∈ s.areas, a.startVpn < a.endVpn)
    (addr len prot : ℕ) :
    ∃ code s', mmap s addr len prot = (.ok code, s') ∧ Tidy img first rest k s' ∧
      Kept img first rest k s k s' ∧
      AddressSpace.Step (s.space k.mem) (.mmap addr len prot code) (s'.space k.mem) := by
  have hv := mmap_onView h.ok h.accounted addr len prot
  unfold Request.exec at hv
  dsimp only at hv
  have ht := h.of_viewed hv
  by_cases haccept : mmapAccepts addr len prot = true
  swap
  · have hrefused := mmap_refused (s := s) haccept
    rw [hrefused] at ht hv
    exact ⟨-1, s, hrefused, ht, hv.kept, .mmapRefused fun hfits => haccept hfits.1⟩
  have hrange := checkUVaRange_le (Bool.and_eq_true_iff.mp haccept).1
  rw [userSpaceEnd_eq] at hrange
  have hfits : (s.space k.mem).Fits addr len prot ↔ addr / 4096 < (addr + len + 4095) / 4096 ∧
      s.areas.all (fun area => area.endVpn ≤ addr / 4096 ||
        (addr + len + 4095) / 4096 ≤ area.startVpn) = true := by
    constructor
    · rintro ⟨-, ⟨w, hle, hlt⟩, hfree⟩
      have hpos : addr / 4096 < (addr + len + 4095) / 4096 := lt_of_le_of_lt hle hlt
      refine ⟨hpos, (free_iff hpos hne).mpr fun v hle hlt => ?_⟩
      refine (space_eq_none h.ok ?_).mp (hfree v ⟨hle, hlt⟩)
      rw [userEndVpn_eq]
      omega
    · rintro ⟨hpos, hall⟩
      refine ⟨haccept, ⟨addr / 4096, le_rfl, hpos⟩, fun v hv => ?_⟩
      refine (space_eq_none h.ok ?_).mpr ((free_iff hpos hne).mp hall v hv.1 hv.2)
      have := hv.2
      rw [userEndVpn_eq]
      omega
  rcases mmap_accepted (s := s) haccept with ⟨hlt, hfree, hmap⟩ | ⟨hno, hmap⟩
  swap
  · rw [hmap] at ht hv
    exact ⟨-1, s, hmap, ht, hv.kept, .mmapRefused fun h => hno (hfits.mp h)⟩
  rw [hmap] at ht hv
  dsimp only at ht hv
  refine ⟨0, _, hmap, ht, hv.kept, ?_⟩
  have hstep := AddressSpace.Step.mmap (hfits.mpr ⟨hlt, hfree⟩)
  rw [show VMSpace.space k.mem { s with areas := s.areas ++ [VMArea.new (addr / 4096)
      ((addr + len + 4095) / 4096) .anonymous (toPermissions prot)] } =
      (s.space k.mem).add (claimed addr len) (grantedBy prot) 0 from ?_]
  · exact hstep
  -- the new area has the claimed pages, and none of them is in memory
  refine PageMap.ext fun v => Option.ext fun x => ?_
  rw [space_eq_some ht.ok]
  by_cases hv : v ∈ claimed addr len
  · rw [PageMap.add_of_mem hv, Option.some.injEq]
    constructor
    · rintro ⟨a, ha, -, hav, rfl⟩
      rcases List.mem_append.mp ha with ha | ha
      · have hold := (free_iff hlt hne).mp hfree v hv.1 hv.2 a ha
        rw [hav] at hold
        cases hold
      · obtain rfl := List.mem_singleton.mp ha
        rw [← toPermissions_eq]
        rfl
    · rintro rfl
      refine ⟨_, List.mem_append_right _ (List.mem_singleton_self _), rfl,
        VMArea.containVpn_iff.mpr hv, ?_⟩
      rw [← toPermissions_eq]
      rfl
  · rw [PageMap.add_of_notMem hv, space_eq_some h.ok]
    constructor
    · rintro ⟨a, ha, hanon, hav, rfl⟩
      rcases List.mem_append.mp ha with ha | ha
      · exact ⟨a, ha, hanon, hav, rfl⟩
      · obtain rfl := List.mem_singleton.mp ha
        exact absurd (VMArea.containVpn_iff.mp hav) hv
    · rintro ⟨a, ha, hanon, hav, rfl⟩
      exact ⟨a, List.mem_append_left _ ha, hanon, hav, rfl⟩

/-- `munmap` does what is promised. -/
theorem munmap_step (h : Tidy img first rest k s) (addr len : ℕ) :
    ∃ code k' s', munmap k s addr len = (.ok code, k', s') ∧ Tidy img first rest k' s' ∧
      Kept img first rest k s k' s' ∧
      AddressSpace.Step (s.space k.mem) (.munmap addr len code) (s'.space k'.mem) := by
  have hv := munmap_onView h.ok h.accounted h.kernel addr len
  have ht := h.of_viewed hv
  unfold Request.exec at hv ht
  dsimp only at hv ht
  by_cases hrange : checkUVaRange addr len = true
  swap
  · have hrefused : munmap k s addr len = (.ok (-1), k, s) := by
      rw [munmap, if_pos (by simpa using hrange)]
    rw [hrefused] at ht hv
    exact ⟨-1, k, s, hrefused, ht, hv.kept, .munmapRefused (by simpa using hrange)⟩
  have hnot : ¬(!checkUVaRange addr len) = true := by simpa using hrange
  by_cases hlen : len = 0
  · have hempty : munmap k s addr len = (.ok 0, k, s) := by
      rw [munmap, if_neg hnot, if_pos hlen]
    rw [hempty] at ht hv
    refine ⟨0, k, s, hempty, ht, hv.kept, ?_⟩
    have hstep := AddressSpace.Step.munmap (f := s.space k.mem) hrange
    rwa [show (s.space k.mem).remove (touched addr len) = s.space k.mem from ?_] at hstep
    refine PageMap.ext fun v => PageMap.remove_of_notMem fun hv => ?_
    exact touched_empty addr ⟨v, hlen ▸ hv⟩
  obtain ⟨hstart, hend, hle⟩ := vpn_of_checked hrange
  obtain ⟨k', s', dropped, hun, hkept, htrim, hall⟩ := unmapBelow_trimmed hle
    (show addr / 4096 ≤ (addr + len + 4095) / 4096 by omega) h.kernel s.areas.length h.ok h.accounted
    (List.append_nil _).symm rfl (by simp)
  change unmap k s _ _ = _ at hun
  have hdiff := htrim.difference h.kernel hle hkept hall
  have hres : munmap k s addr len = (.ok 0, k', s') := by
    rw [munmap, if_neg hnot, if_neg hlen]
    simp only [munmapTcb, hstart, hend, hun]
    rfl
  rw [hres] at ht hv
  dsimp only at ht hv
  refine ⟨0, k', s', hres, ht, hv.kept, ?_⟩
  have hstep := AddressSpace.Step.munmap (f := s.space k.mem) hrange
  rwa [show (s.space k.mem).remove (touched addr len) = s'.space k'.mem from ?_] at hstep
  refine PageMap.ext fun v => ?_
  have hmem : v ∈ touched addr len ↔ _ := touched_iff (Nat.pos_of_ne_zero hlen)
  by_cases hv : v ∈ touched addr len
  · rw [PageMap.remove_of_mem hv]
    cases hspace : s'.space k'.mem v with
    | none => rfl
    | some x =>
      obtain ⟨a, ha, -, hav, -⟩ := (space_eq_some ht.ok).mp hspace
      exact absurd (hmem.mp hv) ((hdiff.describes_iff v _).mp ⟨a, ha, hav, rfl⟩).2
  · rw [PageMap.remove_of_notMem hv]
    refine (space_congr h.ok ht.ok (fun x => ?_) fun page hheld => ?_).symm
    · rw [hdiff.describes_iff]
      exact and_iff_left fun hin => hv (hmem.mpr hin)
    · obtain ⟨a, ha, -, hin⟩ := hheld
      exact hdiff.data page (not_table h.accounted ha (BTreeMap.mem_values.mpr ⟨v, hin⟩))

/-- The page of an access that the tables permit. -/
theorem held_of_permits (h : Tidy img first rest k s) (hva : checkUVa va = true)
    (hpermits : Permits k.mem s.rootPgt.ppn va access) :
    s.Holds (va / 4096) (pageAt ⟨k, s⟩ va) ∧ (s.space k.mem).Grants va access := by
  have hv := vpn_lt_of_check hva
  obtain ⟨a, ha, hav, hgrants⟩ := (permits_iff_granted h.ok hv hpermits.1).mp hpermits
  refine ⟨pageAt_held h.ok h.accounted hv hpermits.1, ?_⟩
  have hsome : s.space k.mem (va / 4096) ≠ none := fun hnone => by
    rw [(space_eq_none h.ok hv).mp hnone a ha] at hav
    cases hav
  obtain ⟨page, hpage⟩ := Option.ne_none_iff_exists'.mp hsome
  refine ⟨page, hpage, ?_⟩
  obtain ⟨b, hb, -, hbv, rfl⟩ := (space_eq_some h.ok).mp hpage
  obtain rfl := h.ok.agrees.area_unique ha hb hav hbv
  exact hgrants

/-- A load gets the byte of the page map. -/
theorem load_step (h : Tidy img first rest k s) (hva : checkUVa va = true)
    (hpermits : Permits k.mem s.rootPgt.ppn va .load) :
    AddressSpace.Step (s.space k.mem) (.load va (byteAt k.mem (pageAt ⟨k, s⟩ va) (va % 4096)))
      (s.space k.mem) := by
  obtain ⟨hheld, hgrants⟩ := held_of_permits h hva hpermits
  refine .load hgrants ?_
  obtain ⟨a, ha, hav, hin⟩ := hheld
  obtain ⟨page, hpage, -⟩ := hgrants
  obtain ⟨b, hb, -, hbv, rfl⟩ := (space_eq_some h.ok).mp hpage
  obtain rfl := h.ok.agrees.area_unique ha hb hav hbv
  rw [PageMap.read, hpage, Option.map_some, VMArea.content, BTreeMap.get?_eq_some.mpr hin,
    Option.map_some, Option.getD_some]
  exact congrArg some (if_pos (Nat.mod_lt _ (by decide)))

/-- A store is a write to the page map. -/
theorem store_step (h : Tidy img first rest k s) (hva : checkUVa va = true)
    (hpermits : Permits k.mem s.rootPgt.ppn va .store) {byte : ℕ} (hbyte : byte < 256) :
    Tidy img first rest { k with mem := storeByte k.mem (pageAt ⟨k, s⟩ va) (va % 4096) byte } s ∧
      Kept img first rest k s
        { k with mem := storeByte k.mem (pageAt ⟨k, s⟩ va) (va % 4096) byte } s ∧
      AddressSpace.Step (s.space k.mem) (.store va byte)
        (s.space (storeByte k.mem (pageAt ⟨k, s⟩ va) (va % 4096) byte)) := by
  have hv := vpn_lt_of_check hva
  obtain ⟨hheld, hgrants⟩ := held_of_permits h hva hpermits
  obtain ⟨ht, hkept, -⟩ := h.stored hv hpermits.1 byte
  refine ⟨ht, hkept, ?_⟩
  have hpage : ((s.view k.mem).page (va / 4096)).isSome = true := by
    rw [page_held h.ok hv hheld]
    rfl
  rw [VMSpace.space, VMSpace.space, store_view h.ok h.accounted hv hheld hbyte,
    View.space_store hpage]
  exact .store hgrants

/-- A page fault, served or refused, does not show. -/
theorem fault_silent (h : Tidy img first rest k s) (hva : checkUVa va = true)
    (hnot : ¬Permits k.mem s.rootPgt.ppn va access) :
    ∃ res k' s', mapFaultPage k s va access.minPermissions = (res, k', s') ∧
      (∀ site, res ≠ .panic site) ∧ Tidy img first rest k' s' ∧ Kept img first rest k s k' s' ∧
      s'.space k'.mem = s.space k.mem := by
  obtain ⟨k', s', ht, hkept, ⟨hmap, hserved⟩ | ⟨⟨e, hmap⟩, -, -, hview, -⟩⟩ := fault_reached h hva hnot
  · refine ⟨_, k', s', hmap, (fun _ he => by cases he), ht, hkept, ?_⟩
    rw [VMSpace.space, hserved.view_eq, View.space_fault]
    rfl
  · refine ⟨_, k', s', hmap, (fun _ he => by cases he), ht, hkept, ?_⟩
    rw [VMSpace.space, hview]
    rfl

end Syscall

end RCoreKernel
