import RCoreKernel.Mm.View

/-!
# The operations on a space, on its view

Every operation of `VMSpace` does to the view what a function of the view alone does: which physical
pages the allocator hands out, and what they held before, does not come into it.

* `unmap_view` — `VMSpace::unmap`, with the pieces of the areas it cuts;
* `addNewArea_view` — `VMSpace::add_new_area`;
* `map_view` — a page fault, when there are pages enough;
* `store_view` — a store of user code.
-/

namespace RCoreKernel.Mm

open Radix RootPgt VMSpace

namespace UserArea

/-- The area without the pages from `v` on. -/
def below (a : UserArea) (v : ℕ) : UserArea :=
  { a with endVpn := v, content := fun w => if w < v then a.content w else none }

/-- The area without the pages below `v`. -/
def above (a : UserArea) (v : ℕ) : UserArea :=
  { a with startVpn := v, content := fun w => if v ≤ w then a.content w else none }

end UserArea

namespace View

/-! ### `VMSpace::unmap` -/

/-- One round of the loop of `unmap`. -/
def cutAt (areas : View) (startVpn endVpn i : ℕ) : View :=
  match areas[i]? with
  | some (some a) =>
    if a.endVpn ≤ startVpn ∨ endVpn ≤ a.startVpn then areas
    else if startVpn ≤ a.startVpn ∧ a.endVpn ≤ endVpn then Vec.swapRemove areas i
    else if startVpn ≤ a.startVpn then areas.set i (some (a.above endVpn))
    else if a.endVpn ≤ endVpn then areas.set i (some (a.below startVpn))
    else areas.set i (some (a.below startVpn)) ++ [some ((a.above startVpn).above endVpn)]
  | _ => areas

/-- The loop of `unmap`, with the indices below `n` still to visit. -/
def cutBelow (areas : View) (startVpn endVpn : ℕ) : ℕ → View
  | 0 => areas
  | i + 1 => cutBelow (cutAt areas startVpn endVpn i) startVpn endVpn i

def unmap (areas : View) (startVpn endVpn : ℕ) : View :=
  cutBelow areas startVpn endVpn areas.length

/-! ### The other operations -/

/-- `add_new_area`, for an anonymous area. -/
def addNewArea (areas : View) (startVpn endVpn permissions : ℕ) : View :=
  if endVpn ≤ startVpn then areas
  else if andNot permissions allPermissionFlags ≠ 0 then areas
  else if areas.all fun x => x.all fun a => a.endVpn ≤ startVpn || endVpn ≤ a.startVpn then
    areas ++ [some ⟨startVpn, endVpn, permissions, fun _ => none⟩]
  else areas

/-- A change to the area of a page number. -/
def modify (areas : View) (v : ℕ) (f : UserArea → UserArea) : View :=
  Vec.modifyFind (inArea v) (fun x => x.map f) areas

/-- A page fault is served with a page of zeros. -/
def fault (areas : View) (v minPermissions : ℕ) : View :=
  areas.modify v fun a =>
    if minPermissions &&& a.permissions = minPermissions ∧
        PTE.isValidFlags (a.permissions ||| PTE.flagV) = true ∧ a.content v = none then
      { a with content := Function.update a.content v (some fun _ => 0) }
    else a

/-- A store of one byte. -/
def store (areas : View) (va byte : ℕ) : View :=
  areas.modify (va / 4096) fun a =>
    let page := (a.content (va / 4096)).map fun bytes => Function.update bytes (va % 4096) byte
    { a with content := Function.update a.content (va / 4096) page }

end View

variable {img : KernelImage} {first : ℕ} {rest : List ℕ} {k k' : Phys} {s s' : VMSpace} {m : Mem}

/-! ### Cutting areas -/

theorem VMArea.view_anonymous {a : VMArea} (h : a.mapType = .anonymous) (m : Mem) :
    a.view m = some ⟨a.startVpn, a.endVpn, a.permissions, a.content m⟩ := if_pos h

theorem VMArea.view_below {a : VMArea} (h : a.mapType = .anonymous) (m : Mem) (v : ℕ) :
    VMArea.view m { a with endVpn := v, pages := a.pages.keep v } =
      (a.view m).map fun u => u.below v := by
  rw [VMArea.view_anonymous h, Option.map_some]
  refine (if_pos h).trans ?_
  congr 1
  unfold UserArea.below
  congr 1
  funext w
  show ((a.pages.keep v).get? w).map _ = _
  rw [BTreeMap.get?_keep]
  split
  · rfl
  · rfl

theorem VMArea.view_above {a : VMArea} (h : a.mapType = .anonymous) (m : Mem) (v : ℕ) :
    VMArea.view m { a with startVpn := v, pages := a.pages.splitOff v } =
      (a.view m).map fun u => u.above v := by
  rw [VMArea.view_anonymous h, Option.map_some]
  refine (if_pos h).trans ?_
  congr 1
  unfold UserArea.above
  congr 1
  funext w
  show ((a.pages.splitOff v).get? w).map _ = _
  rw [BTreeMap.get?_splitOff]
  split
  · rfl
  · rfl

theorem VMSpace.view_getElem? (m : Mem) (s : VMSpace) (i : ℕ) :
    (s.view m)[i]? = s.areas[i]?.map (VMArea.view m) := List.getElem?_map

/-- One round of `unmap`, as far as the list of areas goes. -/
theorem unmapArea_areas (hok : SpaceOk img m s) {startVpn endVpn i : ℕ}
    (hend : endVpn ≤ userEndVpn) (h : unmapArea k s startVpn endVpn i = (.ok (), k', s')) :
    s'.view m = View.cutAt (s.view m) startVpn endVpn i := by
  unfold unmapArea at h
  unfold View.cutAt
  rw [VMSpace.view_getElem?]
  cases hget : s.areas[i]? with
  | none =>
    rw [hget] at h
    cases h
  | some a =>
    rw [hget] at h
    dsimp only at h
    have ha : a ∈ s.areas := List.mem_of_getElem? hget
    rcases hok.placement a ha with ⟨hanon, -⟩ | ⟨hkern, hstart, -⟩
    · simp only [Option.map_some, VMArea.view_anonymous hanon]
      by_cases h0 : a.endVpn ≤ startVpn ∨ endVpn ≤ a.startVpn
      · rw [if_pos h0] at h ⊢
        cases h
        rfl
      rw [if_neg h0] at h ⊢
      by_cases h1 : startVpn ≤ a.startVpn ∧ a.endVpn ≤ endVpn
      · rw [if_pos h1] at h ⊢
        split at h
        · cases h
        · cases h
          exact Vec.map_swapRemove _ _ _
      rw [if_neg h1] at h ⊢
      by_cases h2 : startVpn ≤ a.startVpn
      · rw [if_pos h2] at h ⊢
        split at h
        · cases h
        · cases h
          show (s.areas.set i _).map _ = _
          rw [List.map_set, VMArea.view_above hanon, VMArea.view_anonymous hanon]
          rfl
      rw [if_neg h2] at h ⊢
      by_cases h3 : a.endVpn ≤ endVpn
      · rw [if_pos h3] at h ⊢
        split at h
        · cases h
        · cases h
          show (s.areas.set i _).map _ = _
          rw [List.map_set, VMArea.view_below hanon, VMArea.view_anonymous hanon]
          rfl
      rw [if_neg h3] at h ⊢
      split at h
      · cases h
      · cases h
        show (s.areas.set i _ ++ [_]).map _ = _
        rw [List.map_append, List.map_set, VMArea.view_below hanon, VMArea.view_anonymous hanon]
        have htail := VMArea.view_above (a := { a with
          startVpn := startVpn, pages := a.pages.splitOff startVpn }) hanon m endVpn
        rw [VMArea.view_above hanon, VMArea.view_anonymous hanon] at htail
        exact congrArg _ (congrArg (fun x => [x]) htail)
    · -- the kernel stack lies above every user range
      have hview : a.view m = none := if_neg (by rw [hkern]; decide)
      have h0 : a.endVpn ≤ startVpn ∨ endVpn ≤ a.startVpn := by
        rw [userEndVpn_eq] at hend
        omega
      simp only [Option.map_some, hview]
      rw [if_pos h0] at h
      cases h
      rfl

/-- An operation keeps the space in order, and its tables regular for the hardware. -/
structure Viewed (img : KernelImage) (first : ℕ) (rest : List ℕ) (k : Phys) (s : VMSpace) (k' : Phys)
    (s' : VMSpace) (view' : View) : Prop where
  kept : Kept img first rest k s k' s'
  regular : RegularUser k.mem s.rootPgt.ppn → RegularUser k'.mem s'.rootPgt.ppn
  view_eq : s'.view k'.mem = view'

theorem Viewed.refl (hok : SpaceOk img k.mem s) (hacc : k.Accounted first (s.pages ++ rest)) :
    Viewed img first rest k s k s (s.view k.mem) := ⟨Kept.refl hok hacc, id, rfl⟩

/-- One round of `unmap`. -/
theorem unmapArea_view (hok : SpaceOk img k.mem s) (hacc : k.Accounted first (s.pages ++ rest))
    (hrest : ∀ p ∈ img.pages, p ∈ rest) {startVpn endVpn i : ℕ} (hend : endVpn ≤ userEndVpn)
    (hle : startVpn ≤ endVpn) (hi : i < s.areas.length) :
    ∃ k' s', unmapArea k s startVpn endVpn i = (.ok (), k', s') ∧ i ≤ s'.areas.length ∧
      Viewed img first rest k s k' s' (View.cutAt (s.view k.mem) startVpn endVpn i) := by
  obtain ⟨k', s', h, hkept, hlen⟩ := unmapArea_kept hok hacc hrest hend hle hi
  refine ⟨k', s', h, hlen, hkept, ?_, ?_⟩
  · obtain ⟨A, a, B, hs, hA⟩ := exists_split hi
    rcases unmapArea_cases hok hacc hrest hend hle hs hA with
      ⟨h', -⟩ | ⟨lo, hi', pieces, dropped, m', s₁, h', r⟩
    · rw [h'] at h
      cases h
      exact id
    · rw [h'] at h
      cases h
      intro hreg
      rw [Phys.dropPages_mem, r.rootPgt_eq]
      exact r.unmapped.interior hreg
  · rw [← unmapArea_areas hok hend h]
    apply VMSpace.view_of_tables hkept.accounted
    obtain ⟨A, a, B, hs, hA⟩ := exists_split hi
    rcases unmapArea_cases hok hacc hrest hend hle hs hA with
      ⟨h', -⟩ | ⟨lo, hi', pieces, dropped, m', s₁, h', r⟩
    · rw [h'] at h
      cases h
      exact fun _ _ => rfl
    · rw [h'] at h
      cases h
      intro p hp
      rw [Phys.dropPages_mem]
      exact r.unmapped.frame p (r.rootPgt_eq ▸ hp)

/-- The loop of `unmap`. -/
theorem unmapBelow_view (hrest : ∀ p ∈ img.pages, p ∈ rest) {startVpn endVpn n : ℕ}
    (hend : endVpn ≤ userEndVpn) (hle : startVpn ≤ endVpn) (hok : SpaceOk img k.mem s)
    (hacc : k.Accounted first (s.pages ++ rest)) (hn : n ≤ s.areas.length) :
    ∃ k' s', unmapBelow k s startVpn endVpn n = (.ok (), k', s') ∧
      Viewed img first rest k s k' s' (View.cutBelow (s.view k.mem) startVpn endVpn n) := by
  induction n generalizing k s with
  | zero => exact ⟨k, s, rfl, Viewed.refl hok hacc⟩
  | succ i ih =>
    obtain ⟨k₁, s₁, h₁, hlen, hv₁⟩ := unmapArea_view hok hacc hrest hend hle hn
    obtain ⟨k', s', h', hv'⟩ := ih hv₁.kept.ok hv₁.kept.accounted hlen
    refine ⟨k', s', ?_, hv₁.kept.trans hv'.kept, fun hreg => hv'.regular (hv₁.regular hreg), ?_⟩
    · rw [unmapBelow, h₁]
      exact h'
    · rw [hv'.view_eq, hv₁.view_eq]
      rfl

/-- **`VMSpace::unmap`, on the view.** -/
theorem unmap_view (hok : SpaceOk img k.mem s) (hacc : k.Accounted first (s.pages ++ rest))
    (hrest : ∀ p ∈ img.pages, p ∈ rest) {startVpn endVpn : ℕ} (hend : endVpn ≤ userEndVpn)
    (hle : startVpn ≤ endVpn) :
    ∃ k' s', VMSpace.unmap k s startVpn endVpn = (.ok (), k', s') ∧
      Viewed img first rest k s k' s' (View.unmap (s.view k.mem) startVpn endVpn) := by
  have h := unmapBelow_view (n := s.areas.length) hrest hend hle hok hacc le_rfl
  rwa [View.unmap, VMSpace.view, List.length_map]

/-! ### New areas -/

/-- **`VMSpace::add_new_area`, on the view.** -/
theorem addNewArea_view (hok : SpaceOk img k.mem s) (hacc : k.Accounted first (s.pages ++ rest))
    {startVpn endVpn permissions : ℕ} (hend : endVpn ≤ userEndVpn) {r : Except VMError Unit}
    (h : VMSpace.addNewArea s startVpn endVpn .anonymous permissions = (r, s')) :
    Viewed img first rest k s k s'
      (View.addNewArea (s.view k.mem) startVpn endVpn permissions) := by
  have hkept := addNewArea_kept hok hacc hend h
  refine ⟨hkept, fun hreg => by rwa [hkept.root_eq], ?_⟩
  unfold VMSpace.addNewArea at h
  unfold View.addNewArea
  split at h
  · rename_i h0
    rw [if_pos h0]
    cases h
    rfl
  rename_i h0
  rw [if_neg h0]
  split at h
  · rename_i h1
    rw [if_pos h1]
    cases h
    rfl
  rename_i h1
  rw [if_neg h1]
  -- the kernel stack never overlaps
  have hall : ((s.view k.mem).all fun x => x.all fun a =>
      decide (a.endVpn ≤ startVpn) || decide (endVpn ≤ a.startVpn)) =
      s.areas.all fun area => decide (area.endVpn ≤ startVpn) || decide (endVpn ≤ area.startVpn) := by
    rw [VMSpace.view, List.all_map, Bool.eq_iff_iff, List.all_eq_true, List.all_eq_true]
    apply forall₂_congr
    intro a ha
    rcases hok.placement a ha with ⟨hanon, -⟩ | ⟨hkern, hstart, -⟩
    · simp only [Function.comp_apply, VMArea.view_anonymous hanon, Option.all_some]
    · have hview : a.view k.mem = none := if_neg (by rw [hkern]; decide)
      have hout : endVpn ≤ a.startVpn := by
        rw [userEndVpn_eq] at hend
        omega
      simp [hview, hout]
  rw [hall]
  split at h
  · rename_i h2
    rw [if_pos h2]
    cases h
    show (s.areas ++ [_]).map _ = _
    rw [List.map_append]
    rfl
  · rename_i h2
    rw [if_neg h2]
    cases h
    rfl

/-! ### Page faults -/

/-- A change to the area of a page number, on the view. -/
theorem modify_view (hok : SpaceOk img m s) {A B : List VMArea} {a : VMArea}
    (hs : s.areas = A ++ a :: B) {v : ℕ} (hv : v < 2 ^ 26) (hav : a.containVpn v = true)
    (f : UserArea → UserArea) :
    (s.view m).modify v f =
      A.map (VMArea.view m) ++ (a.view m).map f :: B.map (VMArea.view m) := by
  have ha : a ∈ s.areas := by simp [hs]
  have hA : ∀ x ∈ A.map (VMArea.view m), inArea v x = false := by
    intro x hx
    obtain ⟨b, hb, rfl⟩ := List.mem_map.mp hx
    have hbs : b ∈ s.areas := by simp [hs, hb]
    rw [inArea_view hok hbs hv, ← Bool.not_eq_true]
    intro hbv
    have hdis := hok.agrees.disjoint
    rw [hs, List.pairwise_append] at hdis
    exact hdis.2.2 b hb a List.mem_cons_self v ⟨hbv, hav⟩
  have hx : inArea v (a.view m) = true := by rw [inArea_view hok ha hv, hav]
  unfold View.modify VMSpace.view
  rw [hs, List.map_append, List.map_cons]
  exact Vec.modifyFind_append hA hx _

/-- A page fault that cannot be served leaves the view. -/
theorem fault_unserved (hok : SpaceOk img k.mem s) {vpn minPermissions : ℕ} (hv : vpn < userEndVpn)
    (hserve : ∀ a ∈ s.areas, a.containVpn vpn = true → a.pages.get? vpn = none →
      ¬(minPermissions &&& a.permissions = minPermissions ∧
        PTE.isValidFlags (a.permissions ||| PTE.flagV) = true)) :
    View.fault (s.view k.mem) vpn minPermissions = s.view k.mem := by
  have h26 := lt_of_lt_userEnd hv
  by_cases hfind : ∃ a ∈ s.areas, a.containVpn vpn = true
  · obtain ⟨a, ha, hav⟩ := hfind
    obtain ⟨A, B, hs⟩ := List.append_of_mem ha
    rw [View.fault, modify_view hok hs h26 hav, VMSpace.view, hs, List.map_append, List.map_cons]
    congr 2
    unfold VMArea.view
    split
    · rw [Option.map_some, if_neg]
      rintro ⟨hgrants, hflags, hcontent⟩
      refine hserve a ha hav ?_ ⟨hgrants, hflags⟩
      exact Option.map_eq_none_iff.mp hcontent
    · rfl
  · apply Vec.modifyFind_of_forall
    intro x hx
    obtain ⟨a, ha, rfl⟩ := List.mem_map.mp hx
    rw [inArea_view hok ha h26, ← Bool.not_eq_true]
    exact fun hav => hfind ⟨a, ha, hav⟩

theorem missingTables_le (m : Mem) (root vpn : ℕ) : missingTables m root vpn ≤ 2 := by
  unfold missingTables
  split
  · omega
  · split <;> omega

/-- `map` writes no page of an area. -/
theorem VMSpace.MapTried.frame {vpn minPermissions : ℕ} {A B : List VMArea} {a : VMArea} {page : ℕ}
    {k₁ k₂ : Phys} {r : Except PgtError Unit} {t₂ : RootPgt}
    (ht : MapTried img first rest k s vpn minPermissions A B a page k₁ r k₂ t₂) :
    ∀ b ∈ s.areas, ∀ p ∈ b.pages.values, k₂.mem p = k.mem p := by
  intro b hb p hp
  have hin : p ∈ s.areas.flatMap fun a => a.pages.values := List.mem_flatMap.mpr ⟨b, hb, hp⟩
  rw [ht.mapped.frame_rest (List.mem_cons_of_mem _ (List.mem_append_left _ hin))]
  exact ht.mem_eq p (List.mem_append_left _ (mem_pages_of_mem_area hb hp))

/-- A served fault, on the view. -/
theorem VMSpace.MapTried.view_eq {vpn minPermissions : ℕ} {A B : List VMArea} {a : VMArea} {page : ℕ}
    {k₁ k₂ : Phys} {t₂ : RootPgt} (hok : SpaceOk img k.mem s)
    (hacc : k.Accounted first (s.pages ++ rest)) (hv : vpn < userEndVpn)
    (ht : MapTried img first rest k s vpn minPermissions A B a page k₁ (.ok ()) k₂ t₂) :
    VMSpace.view k₂.mem { s with
        rootPgt := t₂, areas := A ++ { a with pages := a.pages.insert vpn page } :: B } =
      View.fault (s.view k.mem) vpn minPermissions := by
  have hframe := ht.frame
  have ha : a ∈ s.areas := by simp [ht.areas_eq]
  have hanon : a.mapType = .anonymous := by
    rcases hok.placement a ha with ⟨hanon, -⟩ | ⟨-, hstart, -⟩
    · exact hanon
    · have hcon := VMArea.containVpn_iff.mp ht.contains
      rw [userEndVpn_eq] at hv
      omega
  have hzero : pageBytes k₂.mem page = fun _ => 0 := by
    apply pageBytes_zero
    intro j
    rw [ht.mapped.frame_rest List.mem_cons_self, (Phys.allocZeroedPage_spec hacc ht.alloc).2.2]
    simp
  have hnone : a.content k.mem vpn = none := by
    rw [VMArea.content, ht.get?_eq]
    rfl
  have hnew : VMArea.view k₂.mem { a with pages := a.pages.insert vpn page } =
      some ⟨a.startVpn, a.endVpn, a.permissions,
        Function.update (a.content k.mem) vpn (some fun _ => 0)⟩ := by
    refine (if_pos hanon).trans ?_
    congr 2
    funext w
    show ((a.pages.insert vpn page).get? w).map (pageBytes k₂.mem) = _
    rw [BTreeMap.get?_insert]
    by_cases hw : w = vpn
    · subst hw
      rw [if_pos rfl, Option.map_some, hzero, Function.update_self]
    · rw [if_neg hw, Function.update_of_ne hw]
      exact congrFun (VMArea.content_congr (hframe a ha)) w
  have hothers : ∀ C : List VMArea, (∀ b ∈ C, b ∈ s.areas) →
      C.map (VMArea.view k₂.mem) = C.map (VMArea.view k.mem) := by
    intro C hC
    exact List.map_congr_left fun b hb => VMArea.view_congr (hframe b (hC b hb))
  rw [View.fault, modify_view hok ht.areas_eq (lt_of_lt_userEnd hv) ht.contains]
  show (A ++ _ :: B).map _ = _
  rw [List.map_append, List.map_cons, hnew, VMArea.view_anonymous hanon, Option.map_some,
    if_pos ⟨ht.grants, (ht.mapped.leaf_ok rfl).1, hnone⟩,
    hothers A (fun b hb => by simp [ht.areas_eq, hb]),
    hothers B (fun b hb => by simp [ht.areas_eq, hb])]

/-- **A page fault, on the view**: with three pages free the outcome does not depend on the
allocator. -/
theorem map_view (hok : SpaceOk img k.mem s) (hacc : k.Accounted first (s.pages ++ rest))
    (hrest : ∀ p ∈ img.pages, p ∈ rest) {vpn minPermissions : ℕ} (hv : vpn < userEndVpn)
    (hinv : PTE.isValid (pteAt k.mem s.rootPgt.ppn vpn) = false) (hfree : 3 ≤ k.available)
    {res : Outcome VMError Unit} (h : VMSpace.map k s vpn minPermissions = (res, k', s')) :
    Viewed img first rest k s k' s' (View.fault (s.view k.mem) vpn minPermissions) := by
  have hkept := (map_kept hok hacc hrest hv hinv h).2
  have hiff := map_ok_iff hok hacc hrest hv hinv minPermissions
  rw [h] at hiff
  have hunserved : res ≠ .ok () →
      View.fault (s.view k.mem) vpn minPermissions = s.view k.mem := by
    intro hne
    apply fault_unserved hok hv
    rintro a ha hav - ⟨hgrants, hflags⟩
    have := missingTables_le k.mem s.rootPgt.ppn vpn
    exact hne (hiff.mpr ⟨a, ha, hav, hgrants, hflags, by omega⟩)
  rcases map_cases hok hacc hrest hv hinv h with ⟨⟨e, rfl⟩, rfl, rfl, -⟩ |
    ⟨A, B, a, page, k₁, r, k₂, t₂, ht, ⟨rfl, rfl, rfl, rfl⟩ | ⟨e, rfl, rfl, rfl, rfl⟩⟩
  · exact ⟨hkept, id, (hunserved (by simp)).symm⟩
  · exact ⟨hkept, fun hreg => (ht.regular hok hreg).2, ht.view_eq hok hacc hv⟩
  · refine ⟨hkept, fun hreg => (ht.regular hok hreg).2, ?_⟩
    rw [hunserved (by simp)]
    show s.areas.map (VMArea.view k₂.mem) = s.areas.map (VMArea.view k.mem)
    exact VMSpace.view_congr ht.frame

/-! ### Stores of user code -/

/-- A byte written into a page. -/
def storeByte (m : Mem) (ppn offset byte : ℕ) : Mem := fun q j =>
  if q = ppn ∧ j = offset / 8 then
    wordOfBytes fun b => if 8 * j + b = offset then byte else m q j / 256 ^ b % 256
  else m q j

theorem storeByte_of_ne {m : Mem} {ppn q : ℕ} (h : q ≠ ppn) (offset byte : ℕ) :
    storeByte m ppn offset byte q = m q := by
  funext j
  exact if_neg fun hq => h hq.1

theorem byteAt_storeByte {m : Mem} {ppn offset byte : ℕ} (hb : byte < 256) (other : ℕ) :
    byteAt (storeByte m ppn offset byte) ppn other =
      if other = offset then byte else byteAt m ppn other := by
  unfold byteAt storeByte
  have hsplit : 8 * (other / 8) + other % 8 = other := Nat.div_add_mod other 8
  by_cases hword : other / 8 = offset / 8
  · rw [if_pos ⟨rfl, hword⟩, wordOfBytes_byte _ (Nat.mod_lt _ (by decide))]
    · rw [hsplit]
    · intro b
      split
      · exact hb
      · exact Nat.mod_lt _ (by decide)
  · rw [if_neg fun h => hword h.2, if_neg]
    rintro rfl
    exact hword rfl

theorem pageBytes_storeByte {m : Mem} {ppn offset byte : ℕ} (hb : byte < 256) (ho : offset < 4096) :
    pageBytes (storeByte m ppn offset byte) ppn = Function.update (pageBytes m ppn) offset byte := by
  funext other
  unfold pageBytes
  rw [byteAt_storeByte hb]
  by_cases hother : other = offset
  · subst hother
    rw [if_pos ho, if_pos rfl, Function.update_self]
  · rw [Function.update_of_ne hother, if_neg hother]

/-- A page is in one area, under one page number. -/
theorem page_once (hacc : k.Accounted first (s.pages ++ rest)) {a b : VMArea} (ha : a ∈ s.areas)
    (hb : b ∈ s.areas) {v w page : ℕ} (hv : (v, page) ∈ a.pages.entries)
    (hw : (w, page) ∈ b.pages.entries) : a.pages = b.pages ∧ v = w := by
  have hnd := (List.nodup_append.mp hacc.ledger.held_nodup).1
  rw [VMSpace.pages] at hnd
  obtain ⟨heach, hpair⟩ := List.nodup_flatMap.mp (List.nodup_append.mp hnd).2.1
  have hpv : page ∈ a.pages.values := BTreeMap.mem_values.mpr ⟨v, hv⟩
  have hpw : page ∈ b.pages.values := BTreeMap.mem_values.mpr ⟨w, hw⟩
  have hab : a.pages = b.pages := by
    by_contra hne
    have hdis : s.areas.Pairwise fun x y =>
        x.pages ≠ y.pages → List.Disjoint x.pages.values y.pages.values := by
      refine hpair.imp ?_
      intro x y h _
      exact h
    have hflip := hdis.imp fun {x y} h (hyx : y.pages ≠ x.pages) => (h hyx.symm).symm
    exact hdis.forall_of_forall_of_flip (fun _ _ hxy => absurd rfl hxy) hflip ha hb hne hpv hpw
  refine ⟨hab, ?_⟩
  rw [← hab] at hw
  have hinj := List.inj_on_of_nodup_map (heach a ha) hv hw rfl
  exact (Prod.mk.inj hinj).1

/-- The pages of the areas, of which one is written. -/
theorem content_store (hacc : k.Accounted first (s.pages ++ rest)) {a : VMArea} (ha : a ∈ s.areas)
    {v page offset byte : ℕ} (hheld : (v, page) ∈ a.pages.entries) (hbyte : byte < 256)
    (ho : offset < 4096) (m : Mem) :
    a.content (storeByte m page offset byte) = Function.update (a.content m) v
      ((a.content m v).map fun bytes => Function.update bytes offset byte) := by
  funext w
  unfold VMArea.content
  by_cases hw : w = v
  · subst hw
    rw [Function.update_self, BTreeMap.get?_eq_some.mpr hheld, Option.map_some, Option.map_some,
      Option.map_some, pageBytes_storeByte hbyte ho]
  · rw [Function.update_of_ne hw]
    cases hget : a.pages.get? w with
    | none => rfl
    | some p =>
      have hp : p ≠ page := by
        rintro rfl
        exact hw (page_once hacc ha ha (BTreeMap.get?_eq_some.mp hget) hheld).2
      simp only [Option.map_some, pageBytes_congr (storeByte_of_ne hp offset byte)]

/-- **A store of user code, on the view.** -/
theorem store_view (hok : SpaceOk img k.mem s) (hacc : k.Accounted first (s.pages ++ rest))
    {va page byte : ℕ} (hv : va / 4096 < userEndVpn) (hheld : s.Holds (va / 4096) page)
    (hbyte : byte < 256) :
    s.view (storeByte k.mem page (va % 4096) byte) = View.store (s.view k.mem) va byte := by
  obtain ⟨a, ha, hav, hmem⟩ := hheld
  obtain ⟨A, B, hs⟩ := List.append_of_mem ha
  have hanon : a.mapType = .anonymous := by
    rcases hok.placement a ha with ⟨hanon, -⟩ | ⟨-, hstart, -⟩
    · exact hanon
    · have hcon := VMArea.containVpn_iff.mp hav
      rw [userEndVpn_eq] at hv
      omega
  have hothers : ∀ b ∈ s.areas, VMArea.Apart b a →
      b.view (storeByte k.mem page (va % 4096) byte) = b.view k.mem := by
    intro b hb hapart
    apply VMArea.view_congr
    intro p hp
    apply storeByte_of_ne
    rintro rfl
    obtain ⟨w, hw⟩ := BTreeMap.mem_values.mp hp
    obtain ⟨-, rfl⟩ := page_once hacc hb ha hw hmem
    exact hapart _ ⟨hok.agrees.keys b hb _ _ hw, hav⟩
  have hdis := hok.agrees.disjoint
  rw [hs, List.pairwise_append, List.pairwise_cons] at hdis
  rw [View.store, modify_view hok hs (lt_of_lt_userEnd hv) hav, VMSpace.view, hs, List.map_append,
    List.map_cons, VMArea.view_anonymous hanon, VMArea.view_anonymous hanon, Option.map_some,
    content_store hacc ha hmem hbyte (Nat.mod_lt _ (by decide))]
  congr 1
  · apply List.map_congr_left
    intro b hb
    exact hothers b (by simp [hs, hb]) (hdis.2.2 b hb a List.mem_cons_self)
  · congr 1
    apply List.map_congr_left
    intro b hb
    exact hothers b (by simp [hs, hb]) (hdis.2.1.1 b hb).symm

end RCoreKernel.Mm
