import RCoreKernel.Mm.UserTables

/-!
# A failed `VMSpace::map`

`map` stores the new page in its area before it knows whether `map_create` accepts it, and takes
it out again by its key when it does not.  For a page number that has no page yet this restores
the area.  For one that already has a page, `BTreeMap::insert` replaces that page and its drop
recycles it, while the entry in the table still refers to it.

* `Unchanged` — the space after a failure is the space before, up to new tables;
* `map_repeated_ne` — a second `map` of the same page number loses the page;
* `map_error_unchanged_iff` — **a failed `map` leaves the space as it was exactly when it was not
  a second one for the same page**.
-/

namespace RCoreKernel.Mm

open Radix RootPgt

namespace VMSpace

/-- The interior entries of the user half are pointers for the hardware, too. -/
abbrev RegularUser (m : Mem) (root : ℕ) : Prop := Interior PTE.child PTE.Regular UserHalf m root

/-- The space is left as it was, up to new tables. -/
structure Unchanged (rest : List ℕ) (k : Phys) (s : VMSpace) (k' : Phys) (s' : VMSpace) : Prop where
  areas_eq : s'.areas = s.areas
  root_eq : s'.rootPgt.ppn = s.rootPgt.ppn
  pte_eq : ∀ v < 2 ^ 26, pteAt k'.mem s'.rootPgt.ppn v = pteAt k.mem s.rootPgt.ppn v
  translate_eq : RegularUser k.mem s.rootPgt.ppn → ∀ v, Canonical v →
    translate k'.mem s'.rootPgt.ppn v = translate k.mem s.rootPgt.ppn v
  not_recycled : ∀ v < userEndVpn, PTE.isValid (pteAt k'.mem s'.rootPgt.ppn v) = true →
    PTE.getPpn (pteAt k'.mem s'.rootPgt.ppn v) ∉ k'.alloc.recycledPpn
  new_tables : ∃ new, s'.rootPgt.pages = s.rootPgt.pages ++ new ∧ ∀ p ∈ new, p ∉ s.pages ++ rest

variable {img : KernelImage} {first vpn minPermissions page : ℕ} {rest : List ℕ} {k k' k₁ k₂ : Phys}
  {s s' : VMSpace} {a : VMArea} {A B : List VMArea} {t₂ : RootPgt} {e : PgtError}

/-- A valid user entry refers to a page of the space, which is not recycled. -/
theorem SpaceOk.not_recycled (hok : SpaceOk img k.mem s)
    (hacc : k.Accounted first (s.pages ++ rest)) {v : ℕ} (hv : v < userEndVpn)
    (hval : PTE.isValid (pteAt k.mem s.rootPgt.ppn v) = true) :
    PTE.getPpn (pteAt k.mem s.rootPgt.ppn v) ∉ k.alloc.recycledPpn := by
  obtain ⟨page, a, ha, hav, hmem⟩ := (hok.agrees.valid_iff v hv).mp hval
  have hpage : page ∈ s.pages := mem_pages_of_mem_area ha (BTreeMap.mem_values.mpr ⟨v, hmem⟩)
  have hbits := hok.permissions a ha
  have hflags : a.permissions ||| PTE.flagV < 1024 := by
    have hle : a.permissions ≤ allPermissionFlags := by
      rw [← andNot_eq_zero.mp hbits]
      exact Nat.and_le_right
    have hlt : a.permissions < 2 ^ 10 := lt_of_le_of_lt hle (by decide)
    exact Nat.or_lt_two_pow hlt (by decide)
  have hlt := hacc.lt (List.mem_append_left rest hpage)
  have hppn : PTE.getPpn (pteAt k.mem s.rootPgt.ppn v) = page := by
    rw [(hok.agrees.pte_eq v hv a ha page hav hmem).getPpn_eq, PTE.getPpn_eq]
    omega
  rw [hppn]
  exact hacc.ledger.not_mem_free (List.mem_append_left rest hpage)

theorem Unchanged.refl (hok : SpaceOk img k.mem s) (hacc : k.Accounted first (s.pages ++ rest)) :
    Unchanged rest k s k s where
  areas_eq := rfl
  root_eq := rfl
  pte_eq _ _ := rfl
  translate_eq _ _ _ := rfl
  not_recycled _ hv hval := hok.not_recycled hacc hv hval
  new_tables := ⟨[], by simp, by simp⟩

/-- A new page leaves the translation alone. -/
theorem MapTried.walk_eq {res : Except PgtError Unit} (hok : SpaceOk img k.mem s)
    (hacc : k.Accounted first (s.pages ++ rest)) (hrest : ∀ p ∈ img.pages, p ∈ rest)
    (ht : MapTried img first rest k s vpn minPermissions A B a page k₁ res k₂ t₂) {v : ℕ}
    (hv : v < 2 ^ 26) :
    walk k₁.mem s.rootPgt.ppn v = walk k.mem s.rootPgt.ppn v ∧
      pteAt k₁.mem s.rootPgt.ppn v = pteAt k.mem s.rootPgt.ppn v := by
  have hsame : ∀ p ∈ s.rootPgt.pages, k₁.mem p = k.mem p := fun p hp =>
    ht.mem_eq p (List.mem_append_left rest (mem_pages_of_table hp))
  refine ⟨(hok.userTable hacc hrest).walk_user hsame hv, ?_⟩
  rw [pteAt_user hv, pteAt_user hv]
  refine hok.tables.leaf_rel rfl (fun i _ => ?_) (fun p hp _ j => ?_) (userHalf_of_lt hv) _ _
  · rw [hsame _ hok.tables.root_mem]
  · rw [hsame p hp]
    exact ⟨rfl, rfl⟩

theorem MapTried.regular {res : Except PgtError Unit} (hok : SpaceOk img k.mem s)
    (ht : MapTried img first rest k s vpn minPermissions A B a page k₁ res k₂ t₂)
    (hreg : RegularUser k.mem s.rootPgt.ppn) :
    RegularUser k₁.mem s.rootPgt.ppn ∧ RegularUser k₂.mem t₂.ppn := by
  have hsame : ∀ p ∈ s.rootPgt.pages, k₁.mem p = k.mem p := fun p hp =>
    ht.mem_eq p (List.mem_append_left rest (mem_pages_of_table hp))
  have h₁ : RegularUser k₁.mem s.rootPgt.ppn := by
    refine hreg.frame hok.tables (fun i _ => ?_) (fun p hp _ j => ?_)
    · rw [hsame _ hok.tables.root_mem]
      exact ⟨rfl, id⟩
    · rw [hsame p hp]
      exact id
  exact ⟨h₁, ht.mapped.interior PTE.regular_zero PTE.regular_pointer h₁⟩

/-- The kernel half does not change. -/
theorem MapTried.walk_kernel {res : Except PgtError Unit} (hok : SpaceOk img k.mem s)
    (hacc : k.Accounted first (s.pages ++ rest)) (hrest : ∀ p ∈ img.pages, p ∈ rest)
    (hv : vpn < userEndVpn)
    (ht : MapTried img first rest k s vpn minPermissions A B a page k₁ res k₂ t₂) {v : ℕ}
    (hk : 256 ≤ (parseVpn v).vpn2) :
    walk k₂.mem s.rootPgt.ppn v = walk k.mem s.rootPgt.ppn v := by
  have h2 : (parseVpn vpn).vpn2 < 256 := vpn2_lt (lt_of_lt_userEnd hv)
  refine (hok.userTable hacc hrest).walk_kernel (fun i hi => ?_) (fun p hp => ?_) hk
  · rw [ht.mapped.root_frame i (by omega),
      ht.mem_eq _ (List.mem_append_left rest (mem_pages_of_table hok.tables.root_mem))]
  · rw [ht.mapped.frame_rest (by simp [hrest p hp]),
      ht.mem_eq p (List.mem_append_right _ (hrest p hp))]

/-- Of user pages, only the walk of `vpn` may end at another target. -/
theorem MapTried.translate_user {res : Except PgtError Unit} (hok : SpaceOk img k.mem s)
    (hacc : k.Accounted first (s.pages ++ rest)) (hrest : ∀ p ∈ img.pages, p ∈ rest)
    (hv : vpn < userEndVpn)
    (ht : MapTried img first rest k s vpn minPermissions A B a page k₁ res k₂ t₂)
    (hreg : RegularUser k.mem s.rootPgt.ppn) {v : ℕ} (hlt : v < 2 ^ 26)
    (hne : res = .ok () → v ≠ vpn) :
    translate k₂.mem t₂.ppn v = translate k.mem s.rootPgt.ppn v := by
  obtain ⟨hreg₁, hreg₂⟩ := ht.regular hok hreg
  have hU : UserHalf (parseVpn v).vpn2 := vpn2_lt hlt
  have hpath : SameTarget (walk k₁.mem s.rootPgt.ppn v) (walk k₂.mem t₂.ppn v) := by
    rw [walk, walk, path_hwChild hreg₁ hU, path_hwChild hreg₂ hU, ht.mapped.ppn_eq]
    refine ht.mapped.path_same hU fun hr he => hne hr ?_
    have h26 := lt_of_lt_userEnd hv
    rw [parseVpn_user hlt, parseVpn_user h26] at he
    dsimp only at he
    omega
  rw [translate, translate, decode_same hpath, (ht.walk_eq hok hacc hrest hlt).1]

/-- A failed `map` for a page number without a page. -/
theorem MapTried.unchanged (hok : SpaceOk img k.mem s) (hacc : k.Accounted first (s.pages ++ rest))
    (hrest : ∀ p ∈ img.pages, p ∈ rest) (hv : vpn < userEndVpn)
    (ht : MapTried img first rest k s vpn minPermissions A B a page k₁ (.error e) k₂ t₂) :
    Unchanged rest k s (k₂.dropPage page) { s with rootPgt := t₂ } := by
  have hkept := (map_kept_err ht.ok hrest hv ht.mapped).of_fresh ht.mem_eq
  refine ⟨rfl, ht.mapped.ppn_eq, ?_, ?_, fun v hv hval => hkept.ok.not_recycled hkept.accounted hv hval,
    ?_⟩
  · intro v hlt
    rw [← (ht.walk_eq hok hacc hrest hlt).2]
    show pteAt k₂.mem t₂.ppn v = _
    rw [ht.mapped.ppn_eq]
    exact ht.mapped.leaf_err e rfl (vpn2_lt hlt)
  · intro hreg v hcan
    rcases hcan.lt with hlt | hge
    · exact ht.translate_user hok hacc hrest hv hreg hlt fun h => by cases h
    · show translate k₂.mem t₂.ppn v = _
      rw [ht.mapped.ppn_eq, translate, translate,
        ht.walk_kernel hok hacc hrest hv (UserTable.vpn2_kernel hge)]
  · obtain ⟨new, hnew⟩ := ht.mapped.pages
    refine ⟨new, hnew, ?_⟩
    intro p hp hmem
    have hnodup := hkept.accounted.ledger.held_nodup
    rw [pages, show ({ s with rootPgt := t₂ } : VMSpace).rootPgt.pages = s.rootPgt.pages ++ new from
      hnew, List.append_assoc, List.append_assoc] at hnodup
    rw [pages, List.append_assoc, List.mem_append] at hmem
    obtain ⟨-, htail, hdis⟩ := List.nodup_append.mp hnodup
    rcases hmem with hmem | hmem
    · exact hdis p hmem p (List.mem_append_left _ hp) rfl
    · exact (List.nodup_append.mp htail).2.2 p hp p hmem rfl

/-! ### The second `map` of one page -/

/-- The page number already has a page, its area grants the permissions, and the allocator has
another page. -/
def Repeated (k : Phys) (s : VMSpace) (vpn minPermissions : ℕ) : Prop :=
  (∃ a page, s.findArea vpn = some a ∧ minPermissions &&& a.permissions = minPermissions ∧
    a.pages.get? vpn = some page) ∧ 0 < k.available

/-- The page is taken out of its area. -/
theorem map_repeated_ne (hok : SpaceOk img k.mem s) (hrep : Repeated k s vpn minPermissions)
    {err : VMError} (h : map k s vpn minPermissions = (.err err, k', s')) : s'.areas ≠ s.areas := by
  obtain ⟨⟨a, page, hfind, hgrants, hget⟩, hav⟩ := hrep
  obtain ⟨A, B, hs, hcon, hA⟩ := Vec.find?_split hfind
  have ha : a ∈ s.areas := by simp [hs]
  unfold map at h
  simp only [hfind] at h
  rw [if_neg (not_not.mpr hgrants)] at h
  split at h
  · cases h
  split at h
  · rename_i hal
    rw [Phys.allocZeroedPage_eq_none.mp hal] at hav
    exact absurd hav (lt_irrefl _)
  rename_i page' k₁ hal
  simp only [toPteFlags_of_bits (hok.permissions a ha), updateArea, hs,
    Vec.modifyFind_append hA hcon] at h
  split at h
  · cases h
  -- the second lookup finds the same area, and removes the key
  have hcon₂ : ({ a with pages := a.pages.insert vpn page' } : VMArea).containVpn vpn = true := hcon
  simp only [findArea, Vec.find?_append_cons hA hcon₂, Vec.modifyFind_append hA hcon₂] at h
  obtain ⟨-, h'⟩ := Prod.mk.inj h
  obtain ⟨-, rfl⟩ := Prod.mk.inj h'
  intro heq
  rw [hs] at heq
  obtain ⟨harea, -⟩ := List.cons.inj (List.append_cancel_left heq)
  have hnone : (a.pages.insert vpn page').remove vpn = a.pages := congrArg VMArea.pages harea
  have hmem := BTreeMap.get?_eq_some.mp hget
  rw [← hnone, BTreeMap.mem_remove] at hmem
  exact hmem.1 rfl

/-- **A failed `map` leaves the space as it was, unless it was a second one for the same page.** -/
theorem map_error_unchanged_iff (hok : SpaceOk img k.mem s)
    (hacc : k.Accounted first (s.pages ++ rest)) (hrest : ∀ p ∈ img.pages, p ∈ rest)
    {err : VMError} (h : map k s vpn minPermissions = (.err err, k', s')) :
    Unchanged rest k s k' s' ↔ ¬Repeated k s vpn minPermissions := by
  constructor
  · intro hun hrep
    exact map_repeated_ne hok hrep h hun.areas_eq
  intro hnot
  by_cases hv : vpn < userEndVpn ∧ PTE.isValid (pteAt k.mem s.rootPgt.ppn vpn) = false
  · rcases map_cases hok hacc hrest hv.1 hv.2 h with ⟨-, rfl, rfl, -⟩ |
      ⟨A, B, a, page, k₁, r, k₂, t₂, ht, ⟨-, hr, -⟩ | ⟨e, rfl, -, rfl, rfl⟩⟩
    · exact Unchanged.refl hok hacc
    · cases hr
    · exact ht.unchanged hok hacc hrest hv.1
  · -- the request is refused before the page is stored
    have hsame : k' = k ∧ s' = s := by
      unfold map at h
      split at h
      · obtain ⟨-, h'⟩ := Prod.mk.inj h
        exact ⟨(Prod.mk.inj h').1.symm, (Prod.mk.inj h').2.symm⟩
      rename_i a hfind
      split at h
      · obtain ⟨-, h'⟩ := Prod.mk.inj h
        exact ⟨(Prod.mk.inj h').1.symm, (Prod.mk.inj h').2.symm⟩
      rename_i hgrants
      split at h
      · cases h
      rename_i hanon
      obtain ⟨A, B, hs, hcon, -⟩ := Vec.find?_split hfind
      have ha : a ∈ s.areas := by simp [hs]
      have hlt : vpn < userEndVpn := by
        rcases hok.placement a ha with hp | hp
        · exact hp.2 vpn hcon
        · exact absurd (not_not.mp hanon) (by rw [hp.1]; decide)
      have hval : PTE.isValid (pteAt k.mem s.rootPgt.ppn vpn) = true := by
        rw [← Bool.not_eq_false]
        exact fun hf => hv ⟨hlt, hf⟩
      obtain ⟨page, b, hb, hbv, hmem⟩ := (hok.agrees.valid_iff vpn hlt).mp hval
      obtain rfl := hok.agrees.area_unique ha hb hcon hbv
      have hzero : k.available = 0 := by
        by_contra hpos
        exact hnot ⟨⟨a, page, hfind, not_not.mp hgrants, BTreeMap.get?_eq_some.mpr hmem⟩,
          Nat.pos_of_ne_zero hpos⟩
      rw [Phys.allocZeroedPage_eq_none.mpr hzero] at h
      obtain ⟨-, h'⟩ := Prod.mk.inj h
      exact ⟨(Prod.mk.inj h').1.symm, (Prod.mk.inj h').2.symm⟩
    obtain ⟨rfl, rfl⟩ := hsame
    exact Unchanged.refl hok hacc

theorem sample_regular : RegularUser samplePhys.mem sampleSpace.rootPgt.ppn := by
  have hmid : ∀ i, UserHalf i → mid PTE.child samplePhys.mem sampleSpace.rootPgt.ppn i = none :=
    fun i hi => by
      show PTE.child (sampleMem 3 i) = none
      rw [sampleMem_user (by decide) hi, PTE.child_zero]
  refine Interior.bare hmid fun {i} hi => ?_
  show PTE.Regular (sampleMem 3 i)
  rw [sampleMem_user (by decide) hi]
  exact PTE.regular_zero

/-- The small kernel with two free pages: one for the data and one for the first of two tables. -/
def tightPhys : Phys := ⟨sampleMem, ⟨4, 6, []⟩⟩

/-- The tables run out midway: the page goes back, and the first table stays. -/
theorem map_error_unchanged_sample : ∃ k' s',
    map tightPhys sampleAreaSpace 0x10 (permissionU ||| permissionW) =
        (.err (.pgtError 0x10 .acquirePageFailed), k', s') ∧
      s'.rootPgt.pages = [3, 5] ∧ k'.available = 1 ∧
      Unchanged [0, 1, 2] tightPhys sampleAreaSpace k' s' := by
  have hacc : tightPhys.Accounted 0 (sampleAreaSpace.pages ++ [0, 1, 2]) :=
    ⟨⟨by decide, by decide⟩, by decide, by decide⟩
  obtain ⟨k', s', h, hpages, hav⟩ : ∃ k' s',
      map tightPhys sampleAreaSpace 0x10 (permissionU ||| permissionW) =
        (.err (.pgtError 0x10 .acquirePageFailed), k', s') ∧
      s'.rootPgt.pages = [3, 5] ∧ k'.available = 1 := ⟨_, _, rfl, rfl, rfl⟩
  refine ⟨k', s', h, hpages, hav, ?_⟩
  have hok : SpaceOk sampleImage tightPhys.mem sampleAreaSpace := sampleArea_kept.ok
  refine (map_error_unchanged_iff hok hacc (fun _ h => h) h).mpr ?_
  rintro ⟨⟨a, page, hfind, -, hget⟩, -⟩
  cases hfind
  cases hget

/-- The page that was just stored to is requested again. -/
theorem map_repeated_sample : ∃ err k' s',
    map sampleMapped.2.1 sampleMapped.2.2 0x10 (permissionU ||| permissionW) = (.err err, k', s') ∧
      SpaceOk sampleImage sampleMapped.2.1.mem sampleMapped.2.2 ∧
      ¬Unchanged [0, 1, 2] sampleMapped.2.1 sampleMapped.2.2 k' s' := by
  obtain ⟨err, k', s', h⟩ : ∃ err k' s', map sampleMapped.2.1 sampleMapped.2.2 0x10
      (permissionU ||| permissionW) = (.err err, k', s') := ⟨_, _, _, rfl⟩
  refine ⟨err, k', s', h, sampleMapped_kept.ok, fun hun => ?_⟩
  refine map_repeated_ne sampleMapped_kept.ok ⟨⟨_, 4, rfl, by decide, by decide⟩, by decide⟩ h
    hun.areas_eq

end VMSpace

end RCoreKernel.Mm
