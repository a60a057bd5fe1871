import RCoreKernel.Mm.WellFormed

/-!
# Operations on an address space keep it well-formed

One statement per operation, each about the space (`SpaceOk`) and the ledger together.  `rest`
are the pages held by everyone but this space; it contains the kernel's tables.  `Kept` bundles
what every operation guarantees, whatever it returns.

* `map_kept` — `VMSpace::map` on a user page without a valid entry;
* `addNewArea_kept` — `VMSpace::add_new_area` on a user range;
* `unmap_kept` — `VMSpace::unmap` on a user range; it always succeeds.
-/

namespace RCoreKernel.Mm

open Radix RootPgt

namespace VMSpace

/-- What an operation on one space guarantees: the space and the ledger stay in order, and the
pages of everyone else and of the kernel stack keep their contents. -/
structure Kept (img : KernelImage) (first : ℕ) (rest : List ℕ) (k : Phys) (s : VMSpace)
    (k' : Phys) (s' : VMSpace) : Prop where
  ok : SpaceOk img k'.mem s'
  accounted : k'.Accounted first (s'.pages ++ rest)
  frame : ∀ p ∈ rest, k'.mem p = k.mem p
  kernel_frame : ∀ a ∈ s.areas, a.mapType = .kernelVaOffset → ∀ p ∈ a.pages.values,
    k'.mem p = k.mem p
  kernel_areas : ∀ a ∈ s.areas, a.mapType = .kernelVaOffset → a ∈ s'.areas
  nonempty : (∀ a ∈ s.areas, a.startVpn < a.endVpn) → ∀ a ∈ s'.areas, a.startVpn < a.endVpn
  root_eq : s'.rootPgt.ppn = s.rootPgt.ppn
  kStackEnd_eq : s'.kStackEnd = s.kStackEnd

variable {img : KernelImage} {first : ℕ} {rest : List ℕ} {k k' k'' : Phys} {s s' s'' : VMSpace}
  {t' : RootPgt} {vpn page pteFlags : ℕ} {m m' : Mem}

theorem Kept.refl (hok : SpaceOk img k.mem s) (hacc : k.Accounted first (s.pages ++ rest)) :
    Kept img first rest k s k s :=
  ⟨hok, hacc, fun _ _ => rfl, fun _ _ _ _ _ => rfl, fun _ h _ => h, id, rfl, rfl⟩

theorem Kept.trans (h : Kept img first rest k s k' s') (h' : Kept img first rest k' s' k'' s'') :
    Kept img first rest k s k'' s'' where
  ok := h'.ok
  accounted := h'.accounted
  frame p hp := (h'.frame p hp).trans (h.frame p hp)
  kernel_frame a ha hk p hp :=
    (h'.kernel_frame a (h.kernel_areas a ha hk) hk p hp).trans (h.kernel_frame a ha hk p hp)
  kernel_areas a ha hk := h'.kernel_areas a (h.kernel_areas a ha hk) hk
  nonempty hne := h'.nonempty (h.nonempty hne)
  root_eq := h'.root_eq.trans h.root_eq
  kStackEnd_eq := h'.kStackEnd_eq.trans h.kStackEnd_eq

theorem lt_of_lt_userEnd {v : ℕ} (h : v < userEndVpn) : v < 2 ^ 26 := by
  rw [userEndVpn_eq] at h
  omega

theorem vpn2_lt {v : ℕ} (h : v < 2 ^ 26) : UserHalf (parseVpn v).vpn2 := by
  rw [parseVpn_user h]
  exact userHalf_of_lt h

/-! ### Tables that grow, and a newly installed page -/

/-- `map_create` failed: the space is unchanged but for new tables. -/
theorem SpaceOk.grow (hok : SpaceOk img k.mem s) (hrest : ∀ p ∈ img.pages, p ∈ rest)
    (hv : vpn < userEndVpn) {e : PgtError}
    (g : Mapped UserHalf first rest vpn page pteFlags k s.rootPgt (.error e) k' t') :
    SpaceOk img k'.mem { s with rootPgt := t' } := by
  have hpte : ∀ {v}, v < 2 ^ 26 → pteAt k'.mem t'.ppn v = pteAt k.mem s.rootPgt.ppn v := by
    intro v hv
    rw [g.ppn_eq, pteAt_user hv, pteAt_user hv]
    exact g.leaf_err e rfl (userHalf_of_lt hv)
  have h2 : (parseVpn vpn).vpn2 < 256 := vpn2_lt (lt_of_lt_userEnd hv)
  refine ⟨⟨hok.agrees.disjoint, hok.agrees.keys, ?_, ?_, ?_, ?_⟩, g.tables,
    g.noLarge hok.noLarge, ?_, hok.permissions, hok.placement⟩
  · intro v hv
    rw [hpte (lt_of_lt_userEnd hv)]
    exact hok.agrees.valid_iff v hv
  · intro v hv a ha page hav hmem
    rw [hpte (lt_of_lt_userEnd hv)]
    exact hok.agrees.pte_eq v hv a ha page hav hmem
  · intro i h1 h512
    rw [show ({ s with rootPgt := t' } : VMSpace).rootPgt.ppn = s.rootPgt.ppn from g.ppn_eq,
      g.root_frame i (by omega)]
    exact hok.agrees.kernel_root i h1 h512
  · intro p hp j
    rw [g.frame_rest (hrest p hp)]
    exact hok.agrees.kernel_tables p hp j
  · rw [show pteAt k'.mem t'.ppn userEndVpn = _ from hpte (by decide)]
    exact hok.top_invalid

/-- `to_pte_flags` on permission bits. -/
theorem toPteFlags_of_bits {p : ℕ} (h : PermissionBits p) : toPteFlags p = .ok (p ||| PTE.flagV) := by
  have h0 : andNot p allPermissionFlags = 0 := h
  rw [toPteFlags, if_neg (not_not.mpr h0), andNot_eq_zero.mp h0]

/-! ### Replacing one area -/

/-- The pieces `pieces` that replace the area `a`, together with the new level-0 entries. -/
structure Patch (m m' : Mem) (r : ℕ) (a : VMArea) (pieces : List VMArea) : Prop where
  within : ∀ p ∈ pieces, p.startVpn < p.endVpn ∧ a.startVpn ≤ p.startVpn ∧ p.endVpn ≤ a.endVpn ∧
    p.mapType = a.mapType ∧ p.permissions = a.permissions
  disjoint : pieces.Pairwise VMArea.Apart
  keys : ∀ p ∈ pieces, ∀ v page, (v, page) ∈ p.pages.entries → p.containVpn v = true
  outside : ∀ v < 2 ^ 26, a.containVpn v = false → pteAt m' r v = pteAt m r v
  valid_iff : ∀ v < userEndVpn, a.containVpn v = true → (PTE.isValid (pteAt m' r v) = true ↔
    ∃ p ∈ pieces, ∃ page, p.containVpn v = true ∧ (v, page) ∈ p.pages.entries)
  pte_eq : ∀ v < userEndVpn, ∀ p ∈ pieces, ∀ page, p.containVpn v = true →
    (v, page) ∈ p.pages.entries →
      PTE.SameButAD (pteAt m' r v) (page * 1024 + (a.permissions ||| PTE.flagV))

/-- A piece lies inside its area. -/
theorem Patch.contain {r : ℕ} {a p : VMArea} {pieces : List VMArea} (h : Patch m m' r a pieces)
    (hp : p ∈ pieces) {v : ℕ} (hv : p.containVpn v = true) : a.containVpn v = true := by
  have := h.within p hp
  rw [VMArea.containVpn_iff] at hv ⊢
  omega

variable {a : VMArea} {pieces others : List VMArea}

/-- Areas other than `a` do not meet it. -/
theorem Agrees.others_disjoint (w : Agrees img m s) (hs : s.areas.Perm (a :: others)) :
    others.Pairwise VMArea.Apart ∧ ∀ b ∈ others, VMArea.Apart a b := by
  have h := (hs.pairwise_iff VMArea.Apart.symm).mp w.disjoint
  obtain ⟨h1, h2⟩ := List.pairwise_cons.mp h
  exact ⟨h2, h1⟩

/-- **Replacing one area by pieces of it.** -/
theorem SpaceOk.patch (hok : SpaceOk img m s) (hs : s.areas.Perm (a :: others))
    (hs' : s'.areas.Perm (pieces ++ others)) (hppn : s'.rootPgt.ppn = s.rootPgt.ppn)
    (htables : Tree PTE.child UserHalf m' s'.rootPgt.ppn s'.rootPgt.pages)
    (hlarge : Interior PTE.child (fun w => PTE.isLeaf w = false) UserHalf m' s'.rootPgt.ppn)
    (hroot : ∀ i, 256 ≤ i → m' s.rootPgt.ppn i = m s.rootPgt.ppn i) (himg : img.Intact m')
    (hp : Patch m m' s.rootPgt.ppn a pieces) : SpaceOk img m' s' := by
  have ha : a ∈ s.areas := hs.mem_iff.mpr (by simp)
  have hothers : ∀ b ∈ others, b ∈ s.areas := fun b hb => hs.mem_iff.mpr (by simp [hb])
  obtain ⟨hdis, hadis⟩ := hok.agrees.others_disjoint hs
  have hmem : ∀ b, b ∈ s'.areas ↔ b ∈ pieces ∨ b ∈ others := fun b => by
    rw [hs'.mem_iff, List.mem_append]
  have hcases : ∀ b, b ∈ s.areas → b = a ∨ b ∈ others := fun b hb => by
    simpa using hs.mem_iff.mp hb
  -- an area other than `a` keeps its entries
  have hout : ∀ b ∈ others, ∀ v, b.containVpn v = true → v < userEndVpn →
      pteAt m' s.rootPgt.ppn v = pteAt m s.rootPgt.ppn v := by
    intro b hb v hbv hv
    refine hp.outside v (lt_of_lt_userEnd hv) ?_
    rw [← Bool.not_eq_true]
    exact fun hav => hadis b hb v ⟨hav, hbv⟩
  refine ⟨⟨?_, ?_, ?_, ?_, ?_, himg⟩, htables, hlarge, ?_, ?_, ?_⟩
  · refine (hs'.pairwise_iff VMArea.Apart.symm).mpr
      (List.pairwise_append.mpr ⟨hp.disjoint, hdis, ?_⟩)
    intro x hx y hy v hv
    exact hadis y hy v ⟨hp.contain hx hv.1, hv.2⟩
  · intro b hb v page hmem'
    rcases (hmem b).mp hb with hb | hb
    · exact hp.keys b hb v page hmem'
    · exact hok.agrees.keys b (hothers b hb) v page hmem'
  · intro v hv
    rw [hppn]
    constructor
    · intro hval
      by_cases hav : a.containVpn v = true
      · obtain ⟨p, hpm, page, hpv, hpage⟩ := (hp.valid_iff v hv hav).mp hval
        exact ⟨page, p, (hmem p).mpr (Or.inl hpm), hpv, hpage⟩
      · rw [hp.outside v (lt_of_lt_userEnd hv) (by simpa using hav), hok.agrees.valid_iff v hv] at hval
        obtain ⟨page, b, hb, hbv, hpage⟩ := hval
        rcases hcases b hb with rfl | hb
        · exact absurd hbv hav
        · exact ⟨page, b, (hmem b).mpr (Or.inr hb), hbv, hpage⟩
    · rintro ⟨page, b, hb, hbv, hpage⟩
      rcases (hmem b).mp hb with hb | hb
      · exact (hp.valid_iff v hv (hp.contain hb hbv)).mpr ⟨b, hb, page, hbv, hpage⟩
      · rw [hout b hb v hbv hv, hok.agrees.valid_iff v hv]
        exact ⟨page, b, hothers b hb, hbv, hpage⟩
  · intro v hv b hb page hbv hpage
    rw [hppn]
    rcases (hmem b).mp hb with hb | hb
    · rw [(hp.within b hb).2.2.2.2]
      exact hp.pte_eq v hv b hb page hbv hpage
    · rw [hout b hb v hbv hv]
      exact hok.agrees.pte_eq v hv b (hothers b hb) page hbv hpage
  · intro i h1 h2
    rw [hppn, hroot i h1]
    exact hok.agrees.kernel_root i h1 h2
  · rw [hppn, hp.outside userEndVpn (by decide)]
    · exact hok.top_invalid
    · rw [← Bool.not_eq_true]
      intro hav
      rcases hok.placement a ha with ⟨-, h⟩ | ⟨-, h, -⟩
      · exact absurd (h _ hav) (lt_irrefl _)
      · rw [VMArea.containVpn_iff, userEndVpn_eq] at hav
        omega
  · intro b hb
    rcases (hmem b).mp hb with hb | hb
    · rw [(hp.within b hb).2.2.2.2]
      exact hok.permissions a ha
    · exact hok.permissions b (hothers b hb)
  · intro b hb
    rcases (hmem b).mp hb with hb | hb
    · have h1 := hp.within b hb
      rw [Placed, h1.2.2.2.1]
      rcases hok.placement a ha with ⟨h2, h3⟩ | ⟨h2, h3, h4⟩
      · exact Or.inl ⟨h2, fun v hv => h3 v (hp.contain hb hv)⟩
      · exact Or.inr ⟨h2, by omega⟩
    · exact hok.placement b (hothers b hb)

/-! ### `map` -/

/-- The new page becomes the only change of its area. -/
theorem patch_install (hok : SpaceOk img k.mem s) (ha : a ∈ s.areas) (hv : vpn < userEndVpn)
    (hav : a.containVpn vpn = true)
    (g : Mapped UserHalf first rest vpn page (a.permissions ||| PTE.flagV) k s.rootPgt (.ok ())
      k' t') :
    Patch k.mem k'.mem s.rootPgt.ppn a [{ a with pages := a.pages.insert vpn page }] := by
  obtain ⟨hflags, -, hleaf⟩ := g.leaf_ok rfl
  have h26 := lt_of_lt_userEnd hv
  have hpte : ∀ {v}, v < 2 ^ 26 → pteAt k'.mem s.rootPgt.ppn v =
      if v = vpn then page * 1024 + (a.permissions ||| PTE.flagV)
      else pteAt k.mem s.rootPgt.ppn v := by
    intro v hv
    rw [pteAt_user hv, pteAt_user hv, hleaf (userHalf_of_lt hv), parseVpn_user h26]
    have : (v / 262144 = vpn / 262144 ∧ v / 512 % 512 = vpn / 512 % 512 ∧ v % 512 = vpn % 512) ↔
        v = vpn := by omega
    simp only [this]
  refine ⟨?_, List.pairwise_singleton _ _, ?_, ?_, ?_, ?_⟩
  · intro p hp
    obtain rfl := List.mem_singleton.mp hp
    have := VMArea.containVpn_iff.mp hav
    exact ⟨by dsimp only; omega, le_refl _, le_refl _, rfl, rfl⟩
  · intro p hp v q hq
    obtain rfl := List.mem_singleton.mp hp
    rcases BTreeMap.mem_insert.mp hq with ⟨rfl, -⟩ | ⟨-, hq⟩
    · exact hav
    · exact hok.agrees.keys a ha v q hq
  · intro v hv hout
    have hne : v ≠ vpn := fun e => by rw [e, hav] at hout; cases hout
    rw [hpte hv, if_neg hne]
  · intro v hv' hin
    simp only [List.mem_singleton, exists_eq_left, BTreeMap.mem_insert]
    rw [hpte (lt_of_lt_userEnd hv')]
    by_cases h : v = vpn
    · have := (PTE.isValidFlags_iff.mp hflags).2.1
      rw [if_pos h, PTE.isValid_iff]
      exact ⟨fun _ => ⟨page, hin, Or.inl ⟨h, rfl⟩⟩, fun _ => by omega⟩
    · rw [if_neg h, hok.agrees.valid_iff v hv']
      constructor
      · rintro ⟨q, b, hb, hbv, hq⟩
        obtain rfl := hok.agrees.area_unique hb ha hbv hin
        exact ⟨q, hin, Or.inr ⟨h, hq⟩⟩
      · rintro ⟨q, -, ⟨e, -⟩ | ⟨-, hq⟩⟩
        · exact absurd e h
        · exact ⟨q, a, ha, hin, hq⟩
  · intro v hv' p hp q hpv hq
    obtain rfl := List.mem_singleton.mp hp
    rw [hpte (lt_of_lt_userEnd hv')]
    rcases BTreeMap.mem_insert.mp hq with ⟨rfl, rfl⟩ | ⟨hne, hq⟩
    · rw [if_pos rfl]
      exact PTE.SameButAD.refl _
    · rw [if_neg hne]
      exact hok.agrees.pte_eq v hv' a ha q hpv hq

/-- A page number without a valid entry has no page. -/
theorem SpaceOk.get?_eq_none (hok : SpaceOk img m s) (ha : a ∈ s.areas) (hv : vpn < userEndVpn)
    (hav : a.containVpn vpn = true) (hinv : PTE.isValid (pteAt m s.rootPgt.ppn vpn) = false) :
    a.pages.get? vpn = none := by
  rw [BTreeMap.get?_eq_none]
  intro p hp
  have := (hok.agrees.valid_iff vpn hv).mpr ⟨p, a, ha, hav, hp⟩
  rw [hinv] at this
  cases this

/-- An area that contains a user page number is anonymous. -/
theorem SpaceOk.anonymous (hok : SpaceOk img m s) (ha : a ∈ s.areas) (hv : vpn < userEndVpn)
    (hav : a.containVpn vpn = true) : a.mapType = .anonymous := by
  rcases hok.placement a ha with h | h
  · exact h.1
  · rw [VMArea.containVpn_iff] at hav
    have := lt_of_lt_userEnd hv
    have := h.2.1
    omega

/-- The pages of a space whose area `a` has been given one more page. -/
theorem pages_insert_perm {A B : List VMArea} (hs : s.areas = A ++ a :: B)
    (hnone : a.pages.get? vpn = none) (t' : RootPgt) :
    (t'.pages ++ (page :: (s.areas.flatMap (fun a => a.pages.values) ++ rest))).Perm
      (pages { s with
        rootPgt := t', areas := A ++ { a with pages := a.pages.insert vpn page } :: B } ++ rest) := by
  have hv : ((a.pages.insert vpn page).values).Perm (page :: a.pages.values) := by
    have := BTreeMap.insert_values_perm (m := a.pages) (k := vpn) (v := page)
    rwa [BTreeMap.remove_of_get?_none hnone] at this
  simp only [pages, hs, List.flatMap_append, List.flatMap_cons, List.append_assoc]
  refine List.Perm.append_left _ ?_
  refine (List.perm_middle.symm.trans ?_)
  refine List.Perm.append_left _ ?_
  rw [← List.cons_append]
  exact hv.symm.append_right _

/-- The end of a successful `map`. -/
theorem map_kept_ok {A B : List VMArea} (hok : SpaceOk img k.mem s)
    (hrest : ∀ p ∈ img.pages, p ∈ rest) (hs : s.areas = A ++ a :: B) (hv : vpn < userEndVpn)
    (hav : a.containVpn vpn = true) (hnone : a.pages.get? vpn = none)
    (g : Mapped UserHalf first (page :: (s.areas.flatMap (fun a => a.pages.values) ++ rest)) vpn page
      (a.permissions ||| PTE.flagV) k s.rootPgt (.ok ()) k' t') :
    Kept img first rest k s k' { s with
      rootPgt := t', areas := A ++ { a with pages := a.pages.insert vpn page } :: B } := by
  have ha : a ∈ s.areas := by simp [hs]
  have hperm : s.areas.Perm (a :: (A ++ B)) := by
    rw [hs]
    exact List.perm_middle
  have h2 : (parseVpn vpn).vpn2 < 256 := vpn2_lt (lt_of_lt_userEnd hv)
  refine ⟨?_, g.accounted.congr (pages_insert_perm hs hnone t'), ?_, ?_, ?_, ?_, g.ppn_eq, rfl⟩
  · have hs' : (A ++ { a with pages := a.pages.insert vpn page } :: B).Perm
        ([{ a with pages := a.pages.insert vpn page }] ++ (A ++ B)) := List.perm_middle
    refine hok.patch hperm hs' g.ppn_eq g.tables (g.noLarge hok.noLarge) ?_ ?_
      (patch_install hok ha hv hav g)
    · intro i hi
      exact g.root_frame i (by omega)
    · intro p hp j
      rw [g.frame_rest (by simp [hrest p hp])]
      exact hok.agrees.kernel_tables p hp j
  · intro p hp
    exact g.frame_rest (by simp [hp])
  · intro b hb _ p hp
    exact g.frame_rest (List.mem_cons_of_mem _
      (List.mem_append_left _ (List.mem_flatMap.mpr ⟨b, hb, hp⟩)))
  · intro b hb hk
    have hne : b ≠ a := fun e => by
      rw [e, hok.anonymous ha hv hav] at hk
      cases hk
    rw [hs] at hb
    simp only [List.mem_append, List.mem_cons] at hb ⊢
    tauto
  · intro hne b hb
    simp only [List.mem_append, List.mem_cons] at hb
    rcases hb with hb | rfl | hb
    · exact hne b (by simp [hs, hb])
    · exact hne a ha
    · exact hne b (by simp [hs, hb])

/-- The end of a failed `map`: the page is taken back, only tables may have been added. -/
theorem map_kept_err (hok : SpaceOk img k.mem s) (hrest : ∀ p ∈ img.pages, p ∈ rest)
    (hv : vpn < userEndVpn) {e : PgtError}
    (g : Mapped UserHalf first (page :: (s.areas.flatMap (fun a => a.pages.values) ++ rest)) vpn page
      pteFlags k s.rootPgt (.error e) k' t') :
    Kept img first rest k s (k'.dropPage page) { s with rootPgt := t' } := by
  refine ⟨?_, ?_, ?_, ?_, fun b hb _ => hb, id, g.ppn_eq, rfl⟩
  · have hgrow : SpaceOk img k'.mem { s with rootPgt := t' } :=
      hok.grow (fun p hp => by simp [hrest p hp]) hv g
    exact hgrow
  · refine Phys.Accounted.dropPage (g.accounted.congr ?_)
    simp only [pages, List.append_assoc]
    exact List.perm_middle
  · intro p hp
    exact g.frame_rest (by simp [hp])
  · intro b hb _ p hp
    exact g.frame_rest (List.mem_cons_of_mem _
      (List.mem_append_left _ (List.mem_flatMap.mpr ⟨b, hb, hp⟩)))

/-- Changes to a page that nobody holds keep a space, its owner and everyone else. -/
theorem Kept.of_fresh (h : Kept img first rest k' s k'' s')
    (hsame : ∀ p ∈ s.pages ++ rest, k'.mem p = k.mem p) : Kept img first rest k s k'' s' where
  ok := h.ok
  accounted := h.accounted
  frame p hp := (h.frame p hp).trans (hsame p (List.mem_append_right _ hp))
  kernel_frame a ha hk p hp := (h.kernel_frame a ha hk p hp).trans
    (hsame p (List.mem_append_left _ (mem_pages_of_mem_area ha hp)))
  kernel_areas := h.kernel_areas
  nonempty := h.nonempty
  root_eq := h.root_eq
  kStackEnd_eq := h.kStackEnd_eq

/-- A new page, whatever is written to it, leaves a space in order. -/
theorem SpaceOk.fresh (hok : SpaceOk img k.mem s)
    (hrest : ∀ p ∈ img.pages, p ∈ rest) (hnew : k'.Accounted first (page :: (s.pages ++ rest)))
    (hmem : ∀ p, p ≠ page → k'.mem p = k.mem p) :
    SpaceOk img k'.mem s ∧ (∀ p ∈ s.pages ++ rest, k'.mem p = k.mem p) ∧
      k'.Accounted first
        (s.rootPgt.pages ++ (page :: (s.areas.flatMap (fun a => a.pages.values) ++ rest))) := by
  have hfresh : page ∉ s.pages ++ rest := (List.nodup_cons.mp hnew.ledger.held_nodup).1
  have hsame : ∀ p ∈ s.pages ++ rest, k'.mem p = k.mem p := fun p hp =>
    hmem p fun e => hfresh (e ▸ hp)
  refine ⟨hok.frame ?_ ?_, hsame, hnew.congr ?_⟩
  · intro p hp j
    rw [hsame p (List.mem_append_left _ (mem_pages_of_table hp))]
    exact .refl _
  · intro p hp j
    rw [hsame p (List.mem_append_right _ (hrest p hp))]
    exact hok.agrees.kernel_tables p hp j
  · simp only [pages, List.append_assoc]
    exact List.perm_middle.symm

/-- `map` refuses without touching anything: no area contains the page number, the area does not
grant the permissions, or there is no page. -/
def MapRefused (k : Phys) (s : VMSpace) (vpn minPermissions : ℕ) : Prop :=
  s.findArea vpn = none ∨
    ∃ area, s.findArea vpn = some area ∧
      (minPermissions &&& area.permissions ≠ minPermissions ∨ k.allocZeroedPage = none)

/-- `map` takes `page` for the page number and calls `map_create`, which returns `res`. -/
structure MapTried (img : KernelImage) (first : ℕ) (rest : List ℕ) (k : Phys) (s : VMSpace)
    (vpn minPermissions : ℕ) (A B : List VMArea) (a : VMArea) (page : ℕ) (k₁ : Phys)
    (res : Except PgtError Unit) (k₂ : Phys) (t₂ : RootPgt) : Prop where
  areas_eq : s.areas = A ++ a :: B
  contains : a.containVpn vpn = true
  grants : minPermissions &&& a.permissions = minPermissions
  alloc : k.allocZeroedPage = some (page, k₁)
  get?_eq : a.pages.get? vpn = none
  create : mapCreate k₁ s.rootPgt vpn page (a.permissions ||| PTE.flagV) = (res, k₂, t₂)
  mem_eq : ∀ p ∈ s.pages ++ rest, k₁.mem p = k.mem p
  ok : SpaceOk img k₁.mem s
  mapped : Mapped UserHalf first (page :: (s.areas.flatMap (fun a => a.pages.values) ++ rest)) vpn page
    (a.permissions ||| PTE.flagV) k₁ s.rootPgt res k₂ t₂

/-- **`VMSpace::map` on a user page without a valid entry**: all it can do. -/
theorem map_cases (hok : SpaceOk img k.mem s) (hacc : k.Accounted first (s.pages ++ rest))
    (hrest : ∀ p ∈ img.pages, p ∈ rest) (hv : vpn < userEndVpn)
    (hinv : PTE.isValid (pteAt k.mem s.rootPgt.ppn vpn) = false) {minPermissions : ℕ}
    {res : Outcome VMError Unit} (h : map k s vpn minPermissions = (res, k', s')) :
    ((∃ e, res = .err e) ∧ k' = k ∧ s' = s ∧ MapRefused k s vpn minPermissions) ∨
      ∃ A B a page k₁ r k₂ t₂,
        MapTried img first rest k s vpn minPermissions A B a page k₁ r k₂ t₂ ∧
        ((r = .ok () ∧ res = .ok () ∧ k' = k₂ ∧ s' = { s with
            rootPgt := t₂, areas := A ++ { a with pages := a.pages.insert vpn page } :: B }) ∨
          ∃ e, r = .error e ∧ res = .err (.pgtError vpn e) ∧ k' = k₂.dropPage page ∧
            s' = { s with rootPgt := t₂ }) := by
  unfold map at h
  split at h
  · rename_i hnone
    obtain ⟨rfl, h'⟩ := Prod.mk.inj h
    obtain ⟨rfl, rfl⟩ := Prod.mk.inj h'
    exact Or.inl ⟨⟨_, rfl⟩, rfl, rfl, Or.inl hnone⟩
  rename_i area hfind
  obtain ⟨A, B, hs, hav, hA⟩ := Vec.find?_split hfind
  have ha : area ∈ s.areas := by simp [hs]
  split at h
  · rename_i hdenied
    obtain ⟨rfl, h'⟩ := Prod.mk.inj h
    obtain ⟨rfl, rfl⟩ := Prod.mk.inj h'
    exact Or.inl ⟨⟨_, rfl⟩, rfl, rfl, Or.inr ⟨area, hfind, Or.inl hdenied⟩⟩
  rename_i hgrants
  rw [if_neg (not_not.mpr (hok.anonymous ha hv hav))] at h
  split at h
  · rename_i hal
    obtain ⟨rfl, h'⟩ := Prod.mk.inj h
    obtain ⟨rfl, rfl⟩ := Prod.mk.inj h'
    exact Or.inl ⟨⟨_, rfl⟩, rfl, rfl, Or.inr ⟨area, hfind, Or.inr hal⟩⟩
  rename_i page k₁ hal
  obtain ⟨hacc₁, -, hmem₁⟩ := Phys.allocZeroedPage_spec hacc hal
  have hnone := hok.get?_eq_none ha hv hav hinv
  have hbits := hok.permissions area ha
  obtain ⟨hok₁, hsame, hperm₁⟩ := hok.fresh hrest hacc₁ fun p hp => by
    funext j
    simp [hmem₁, hp]
  simp only [hnone, Option.toList_none, Phys.dropPages, List.foldl_nil, toPteFlags_of_bits hbits,
    updateArea, hs, Vec.modifyFind_append hA hav] at h
  have htried : ∀ {r k₂ t₂}, mapCreate k₁ s.rootPgt vpn page (area.permissions ||| PTE.flagV) =
      (r, k₂, t₂) → MapTried img first rest k s vpn minPermissions A B area page k₁ r k₂ t₂ := fun hmap =>
    ⟨hs, hav, not_not.mp hgrants, hal, hnone, hmap, hsame, hok₁,
      mapCreate_spec hperm₁ hok₁.tables (vpn2_lt (lt_of_lt_userEnd hv)) (hacc₁.lt (by simp)) hmap⟩
  right
  split at h
  · rename_i k₂ t₂ hmap
    obtain ⟨rfl, h'⟩ := Prod.mk.inj h
    obtain ⟨rfl, rfl⟩ := Prod.mk.inj h'
    exact ⟨A, B, area, page, k₁, _, k₂, t₂, htried hmap, Or.inl ⟨rfl, rfl, rfl, rfl⟩⟩
  · rename_i e k₂ t₂ hmap
    have hget : (area.pages.insert vpn page).get? vpn = some page :=
      BTreeMap.get?_eq_some.mpr (BTreeMap.mem_insert.mpr (Or.inl ⟨rfl, rfl⟩))
    -- the second lookup finds the area that was just extended
    have hfind₂ : (A ++ { area with pages := area.pages.insert vpn page } :: B).find?
        (fun a => a.containVpn vpn) = some { area with pages := area.pages.insert vpn page } :=
      Vec.find?_append_cons hA hav
    have hback : Vec.modifyFind (fun a : VMArea => a.containVpn vpn)
        (fun a => { a with pages := a.pages.remove vpn })
        (A ++ { area with pages := area.pages.insert vpn page } :: B) = s.areas := by
      have hav₂ : ({ area with pages := area.pages.insert vpn page } : VMArea).containVpn vpn = true :=
        hav
      rw [Vec.modifyFind_append hA hav₂, hs, BTreeMap.remove_insert hnone]
    simp only [findArea, hfind₂, hback, hget, Option.toList_some, List.foldl_cons,
      List.foldl_nil] at h
    obtain ⟨rfl, h'⟩ := Prod.mk.inj h
    obtain ⟨rfl, rfl⟩ := Prod.mk.inj h'
    exact ⟨A, B, area, page, k₁, _, k₂, t₂, htried hmap, Or.inr ⟨e, rfl, rfl, rfl, rfl⟩⟩

/-- **`VMSpace::map` keeps a space in order.** -/
theorem map_kept (hok : SpaceOk img k.mem s) (hacc : k.Accounted first (s.pages ++ rest))
    (hrest : ∀ p ∈ img.pages, p ∈ rest) (hv : vpn < userEndVpn)
    (hinv : PTE.isValid (pteAt k.mem s.rootPgt.ppn vpn) = false) {minPermissions : ℕ}
    {res : Outcome VMError Unit} (h : map k s vpn minPermissions = (res, k', s')) :
    (∀ site, res ≠ .panic site) ∧ Kept img first rest k s k' s' := by
  rcases map_cases hok hacc hrest hv hinv h with ⟨⟨e, rfl⟩, rfl, rfl, -⟩ |
    ⟨A, B, a, page, k₁, r, k₂, t₂, ht, ⟨rfl, rfl, rfl, rfl⟩ | ⟨e, rfl, rfl, rfl, rfl⟩⟩
  · exact ⟨fun _ => by simp, Kept.refl hok hacc⟩
  · exact ⟨fun _ => by simp, (map_kept_ok ht.ok hrest ht.areas_eq hv ht.contains ht.get?_eq
      ht.mapped).of_fresh ht.mem_eq⟩
  · exact ⟨fun _ => by simp, (map_kept_err ht.ok hrest hv ht.mapped).of_fresh ht.mem_eq⟩

/-! ### `add_new_area` -/

/-- A new area that holds no page of user space and meets no other area. -/
theorem SpaceOk.push (hok : SpaceOk img m s)
    (hpages : ∀ v page, (v, page) ∈ a.pages.entries → a.containVpn v = true ∧ userEndVpn ≤ v)
    (hbits : PermissionBits a.permissions) (hplace : Placed a)
    (hapart : ∀ b ∈ s.areas, VMArea.Apart b a) :
    SpaceOk img m { s with areas := s.areas ++ [a] } := by
  have hmem : ∀ b, b ∈ s.areas ++ [a] → b ∈ s.areas ∨ b = a := fun b hb => by simpa using hb
  have hno : ∀ v < userEndVpn, ∀ page, (v, page) ∉ a.pages.entries := fun v hv page hp =>
    absurd (hpages v page hp).2 (not_le.mpr hv)
  refine ⟨⟨?_, ?_, ?_, ?_, hok.agrees.kernel_root, hok.agrees.kernel_tables⟩, hok.tables,
    hok.noLarge, hok.top_invalid, ?_, ?_⟩
  · refine List.pairwise_append.mpr ⟨hok.agrees.disjoint, List.pairwise_singleton _ _, ?_⟩
    intro x hx y hy
    obtain rfl := List.mem_singleton.mp hy
    exact hapart x hx
  · intro b hb v page hp
    rcases hmem b hb with hb | rfl
    · exact hok.agrees.keys b hb v page hp
    · exact (hpages v page hp).1
  · intro v hv
    rw [hok.agrees.valid_iff v hv]
    constructor
    · rintro ⟨page, b, hb, hbv, hp⟩
      exact ⟨page, b, List.mem_append_left _ hb, hbv, hp⟩
    · rintro ⟨page, b, hb, hbv, hp⟩
      rcases hmem b hb with hb | rfl
      · exact ⟨page, b, hb, hbv, hp⟩
      · exact absurd hp (hno v hv page)
  · intro v hv b hb page hbv hp
    rcases hmem b hb with hb | rfl
    · exact hok.agrees.pte_eq v hv b hb page hbv hp
    · exact absurd hp (hno v hv page)
  · intro b hb
    rcases hmem b hb with hb | rfl
    · exact hok.permissions b hb
    · exact hbits
  · intro b hb
    rcases hmem b hb with hb | rfl
    · exact hok.placement b hb
    · exact hplace

/-- **`VMSpace::add_new_area` on a user range.** -/
theorem addNewArea_kept (hok : SpaceOk img k.mem s) (hacc : k.Accounted first (s.pages ++ rest))
    {startVpn endVpn permissions : ℕ} (hend : endVpn ≤ userEndVpn) {res : Except VMError Unit}
    (h : addNewArea s startVpn endVpn .anonymous permissions = (res, s')) :
    Kept img first rest k s k s' := by
  unfold addNewArea at h
  split at h
  · cases h
    exact Kept.refl hok hacc
  rename_i hlt
  split at h
  · cases h
    exact Kept.refl hok hacc
  rename_i hbits
  split at h
  · rename_i hall
    cases h
    have hdis : ∀ b ∈ s.areas, b.endVpn ≤ startVpn ∨ endVpn ≤ b.startVpn := by
      simpa using hall
    refine ⟨hok.push ?_ (not_not.mp hbits) ?_ ?_, ?_, fun _ _ => rfl, fun _ _ _ _ _ => rfl,
      fun b hb _ => List.mem_append_left _ hb, ?_, rfl, rfl⟩
    · intro v page hp
      exact absurd hp BTreeMap.not_mem_new
    · refine Or.inl ⟨rfl, fun v hv => ?_⟩
      exact lt_of_lt_of_le (VMArea.containVpn_iff.mp hv).2 hend
    · intro b hb
      exact VMArea.apart_of_le (hdis b hb)
    · simpa [pages, VMArea.new] using hacc
    · intro hne b hb
      have hb : b ∈ s.areas ∨ b = VMArea.new startVpn endVpn .anonymous permissions := by
        simpa using hb
      rcases hb with hb | rfl
      · exact hne b hb
      · exact not_le.mp hlt
  · cases h
    exact Kept.refl hok hacc

/-! ### `unmap` -/

/-- What is left of the area `a` when `[lo, hi)` is cut out of it. -/
structure Cut (a : VMArea) (lo hi : ℕ) (pieces : List VMArea) (dropped : List ℕ) : Prop where
  within : ∀ p ∈ pieces, p.startVpn < p.endVpn ∧ a.startVpn ≤ p.startVpn ∧ p.endVpn ≤ a.endVpn ∧
    p.mapType = a.mapType ∧ p.permissions = a.permissions
  avoids : ∀ p ∈ pieces, p.endVpn ≤ lo ∨ hi ≤ p.startVpn
  disjoint : pieces.Pairwise VMArea.Apart
  entries : ∀ p ∈ pieces, ∀ v page, (v, page) ∈ p.pages.entries →
    p.containVpn v = true ∧ (v, page) ∈ a.pages.entries
  kept : ∀ v page, (v, page) ∈ a.pages.entries → ¬(lo ≤ v ∧ v < hi) →
    ∃ p ∈ pieces, p.containVpn v = true ∧ (v, page) ∈ p.pages.entries
  values : (dropped ++ pieces.flatMap fun a => a.pages.values).Perm a.pages.values
  covered : ∀ v, a.containVpn v = true → ¬(lo ≤ v ∧ v < hi) → ∃ p ∈ pieces, p.containVpn v = true
  drops : ∀ page, page ∈ dropped ↔ ∃ v, (v, page) ∈ a.pages.entries ∧ lo ≤ v ∧ v < hi

variable {lo hi : ℕ} {dropped : List ℕ}

/-- Cutting an area and clearing the same range of entries. -/
theorem Cut.patch (c : Cut a lo hi pieces dropped) (hok : SpaceOk img m s) (ha : a ∈ s.areas)
    (hlo : a.startVpn ≤ lo) (hhi : hi ≤ a.endVpn) (u : Unmapped m m' s.rootPgt lo hi) :
    Patch m m' s.rootPgt.ppn a pieces := by
  refine ⟨c.within, c.disjoint, fun p hp v page h => (c.entries p hp v page h).1, ?_, ?_, ?_⟩
  · intro v hv hout
    rw [u.pte_eq hv, if_neg]
    rw [← Bool.not_eq_true, VMArea.containVpn_iff] at hout
    omega
  · intro v hv hav
    rw [u.pte_eq (lt_of_lt_userEnd hv)]
    by_cases hin : lo ≤ v ∧ v < hi
    · rw [if_pos hin]
      constructor
      · intro h
        cases h
      · rintro ⟨p, hp, page, hpv, -⟩
        have := c.avoids p hp
        rw [VMArea.containVpn_iff] at hpv
        omega
    · rw [if_neg hin, hok.agrees.valid_iff v hv]
      constructor
      · rintro ⟨page, b, hb, hbv, hmem⟩
        obtain rfl := hok.agrees.area_unique hb ha hbv hav
        obtain ⟨p, hp, hpv, hpm⟩ := c.kept v page hmem hin
        exact ⟨p, hp, page, hpv, hpm⟩
      · rintro ⟨p, hp, page, -, hpm⟩
        exact ⟨page, a, ha, hav, (c.entries p hp v page hpm).2⟩
  · intro v hv p hp page hpv hpm
    have hav := (c.within p hp)
    have hnot := c.avoids p hp
    rw [VMArea.containVpn_iff] at hpv
    rw [u.pte_eq (lt_of_lt_userEnd hv), if_neg (by omega)]
    exact hok.agrees.pte_eq v hv a ha page (VMArea.containVpn_iff.mpr (by omega))
      (c.entries p hp v page hpm).2

/-- Overlap case 1. -/
theorem cut_all (a : VMArea) (hkeys : ∀ v page, (v, page) ∈ a.pages.entries → a.containVpn v = true) :
    Cut a a.startVpn a.endVpn [] a.pages.values where
  within := by simp
  avoids := by simp
  disjoint := List.Pairwise.nil
  entries := by simp
  kept v page h hn := absurd (VMArea.containVpn_iff.mp (hkeys v page h)) hn
  values := by simp
  covered v hv hn := absurd (VMArea.containVpn_iff.mp hv) hn
  drops page := by
    rw [BTreeMap.mem_values]
    constructor
    · rintro ⟨v, h⟩
      exact ⟨v, h, VMArea.containVpn_iff.mp (hkeys v page h)⟩
    · rintro ⟨v, h, -⟩
      exact ⟨v, h⟩

/-- Overlap case 2. -/
theorem cut_head (a : VMArea) (hkeys : ∀ v page, (v, page) ∈ a.pages.entries → a.containVpn v = true)
    (h1 : a.startVpn < hi) (h2 : hi < a.endVpn) :
    Cut a a.startVpn hi [{ a with startVpn := hi, pages := a.pages.splitOff hi }]
      (a.pages.keep hi).values where
  within p hp := by
    obtain rfl := List.mem_singleton.mp hp
    exact ⟨h2, h1.le, le_refl _, rfl, rfl⟩
  avoids p hp := by
    obtain rfl := List.mem_singleton.mp hp
    exact Or.inr (le_refl _)
  disjoint := List.pairwise_singleton _ _
  entries p hp v page hmem := by
    obtain rfl := List.mem_singleton.mp hp
    obtain ⟨hle, hmem⟩ := BTreeMap.mem_splitOff.mp hmem
    have := VMArea.containVpn_iff.mp (hkeys v page hmem)
    exact ⟨VMArea.containVpn_iff.mpr ⟨hle, this.2⟩, hmem⟩
  kept v page hmem hn := by
    have := VMArea.containVpn_iff.mp (hkeys v page hmem)
    exact ⟨_, List.mem_singleton_self _, VMArea.containVpn_iff.mpr (by dsimp only; omega),
      BTreeMap.mem_splitOff.mpr ⟨by omega, hmem⟩⟩
  values := by simpa using BTreeMap.keep_append_splitOff_perm
  covered v hv hn := by
    have := VMArea.containVpn_iff.mp hv
    exact ⟨_, List.mem_singleton_self _, VMArea.containVpn_iff.mpr (by dsimp only; omega)⟩
  drops page := by
    rw [BTreeMap.mem_values]
    simp only [BTreeMap.mem_keep]
    constructor
    · rintro ⟨v, hlt, h⟩
      exact ⟨v, h, (VMArea.containVpn_iff.mp (hkeys v page h)).1, hlt⟩
    · rintro ⟨v, h, -, hlt⟩
      exact ⟨v, hlt, h⟩

/-- Overlap case 3. -/
theorem cut_tail (a : VMArea) (hkeys : ∀ v page, (v, page) ∈ a.pages.entries → a.containVpn v = true)
    (h1 : a.startVpn < lo) (h2 : lo < a.endVpn) :
    Cut a lo a.endVpn [{ a with endVpn := lo, pages := a.pages.keep lo }]
      (a.pages.splitOff lo).values where
  within p hp := by
    obtain rfl := List.mem_singleton.mp hp
    exact ⟨h1, le_refl _, h2.le, rfl, rfl⟩
  avoids p hp := by
    obtain rfl := List.mem_singleton.mp hp
    exact Or.inl (le_refl _)
  disjoint := List.pairwise_singleton _ _
  entries p hp v page hmem := by
    obtain rfl := List.mem_singleton.mp hp
    obtain ⟨hlt, hmem⟩ := BTreeMap.mem_keep.mp hmem
    have := VMArea.containVpn_iff.mp (hkeys v page hmem)
    exact ⟨VMArea.containVpn_iff.mpr ⟨this.1, hlt⟩, hmem⟩
  kept v page hmem hn := by
    have := VMArea.containVpn_iff.mp (hkeys v page hmem)
    exact ⟨_, List.mem_singleton_self _, VMArea.containVpn_iff.mpr (by dsimp only; omega),
      BTreeMap.mem_keep.mpr ⟨by omega, hmem⟩⟩
  values := by
    simpa using List.perm_append_comm.trans BTreeMap.keep_append_splitOff_perm
  covered v hv hn := by
    have := VMArea.containVpn_iff.mp hv
    exact ⟨_, List.mem_singleton_self _, VMArea.containVpn_iff.mpr (by dsimp only; omega)⟩
  drops page := by
    rw [BTreeMap.mem_values]
    simp only [BTreeMap.mem_splitOff]
    constructor
    · rintro ⟨v, hle, h⟩
      exact ⟨v, h, hle, (VMArea.containVpn_iff.mp (hkeys v page h)).2⟩
    · rintro ⟨v, h, hle, -⟩
      exact ⟨v, hle, h⟩

/-- Overlap case 4. -/
theorem cut_middle (a : VMArea)
    (hkeys : ∀ v page, (v, page) ∈ a.pages.entries → a.containVpn v = true)
    (h1 : a.startVpn < lo) (h2 : lo ≤ hi) (h3 : hi < a.endVpn) :
    Cut a lo hi [{ a with endVpn := lo, pages := a.pages.keep lo },
        ⟨hi, a.endVpn, a.mapType, a.permissions, (a.pages.splitOff lo).splitOff hi⟩]
      ((a.pages.splitOff lo).keep hi).values where
  within p hp := by
    simp only [List.mem_cons, List.not_mem_nil, or_false] at hp
    rcases hp with rfl | rfl
    · exact ⟨h1, le_refl _, (lt_of_le_of_lt h2 h3).le, rfl, rfl⟩
    · exact ⟨h3, (lt_of_lt_of_le h1 h2).le, le_refl _, rfl, rfl⟩
  avoids p hp := by
    simp only [List.mem_cons, List.not_mem_nil, or_false] at hp
    rcases hp with rfl | rfl
    · exact Or.inl (le_refl _)
    · exact Or.inr (le_refl _)
  disjoint := by
    simp only [List.pairwise_cons, List.mem_singleton, forall_eq, List.not_mem_nil, IsEmpty.forall_iff,
      implies_true, List.Pairwise.nil, and_true]
    exact VMArea.apart_of_le (Or.inl h2)
  entries p hp v page hmem := by
    simp only [List.mem_cons, List.not_mem_nil, or_false] at hp
    rcases hp with rfl | rfl
    · obtain ⟨hlt, hmem⟩ := BTreeMap.mem_keep.mp hmem
      have := VMArea.containVpn_iff.mp (hkeys v page hmem)
      exact ⟨VMArea.containVpn_iff.mpr ⟨this.1, hlt⟩, hmem⟩
    · obtain ⟨hle, hmem⟩ := BTreeMap.mem_splitOff.mp hmem
      obtain ⟨-, hmem⟩ := BTreeMap.mem_splitOff.mp hmem
      have := VMArea.containVpn_iff.mp (hkeys v page hmem)
      exact ⟨VMArea.containVpn_iff.mpr ⟨hle, this.2⟩, hmem⟩
  kept v page hmem hn := by
    have := VMArea.containVpn_iff.mp (hkeys v page hmem)
    by_cases hv : v < lo
    · exact ⟨{ a with endVpn := lo, pages := a.pages.keep lo }, List.mem_cons_self,
        VMArea.containVpn_iff.mpr ⟨this.1, hv⟩, BTreeMap.mem_keep.mpr ⟨hv, hmem⟩⟩
    · refine ⟨_, List.mem_cons_of_mem _ (List.mem_singleton_self _),
        VMArea.containVpn_iff.mpr ⟨by dsimp only; omega, this.2⟩,
        BTreeMap.mem_splitOff.mpr ⟨by omega, BTreeMap.mem_splitOff.mpr ⟨by omega, hmem⟩⟩⟩
  values := by
    simp only [List.flatMap_cons, List.flatMap_nil, List.append_nil]
    have h := BTreeMap.keep_append_splitOff_perm (m := a.pages) (k := lo)
    have h' := BTreeMap.keep_append_splitOff_perm (m := a.pages.splitOff lo) (k := hi)
    refine (List.perm_append_comm_assoc _ _ _).trans ((h'.append_left _).trans h)
  covered v hv hn := by
    have := VMArea.containVpn_iff.mp hv
    by_cases hlt : v < lo
    · exact ⟨{ a with endVpn := lo, pages := a.pages.keep lo }, List.mem_cons_self,
        VMArea.containVpn_iff.mpr ⟨this.1, hlt⟩⟩
    · exact ⟨_, List.mem_cons_of_mem _ (List.mem_singleton_self _),
        VMArea.containVpn_iff.mpr ⟨by dsimp only; omega, this.2⟩⟩
  drops page := by
    rw [BTreeMap.mem_values]
    simp only [BTreeMap.mem_keep, BTreeMap.mem_splitOff]
    constructor
    · rintro ⟨v, hlt, hle, h⟩
      exact ⟨v, h, hle, hlt⟩
    · rintro ⟨v, h, hle, hlt⟩
      exact ⟨v, hlt, hle, h⟩

/-- Pages of a space whose area `a` was replaced by the pieces of a cut. -/
theorem Cut.pages_perm (c : Cut a lo hi pieces dropped) (hs : s.areas.Perm (a :: others))
    (hs' : s'.areas.Perm (pieces ++ others)) (hroot : s'.rootPgt = s.rootPgt) :
    (s.pages ++ rest).Perm (dropped ++ (s'.pages ++ rest)) := by
  have hold := hs.flatMap_right fun a : VMArea => a.pages.values
  have hnew := hs'.flatMap_right fun a : VMArea => a.pages.values
  rw [List.flatMap_cons] at hold
  rw [List.flatMap_append] at hnew
  rw [pages, pages, hroot]
  rw [← List.append_assoc]
  refine List.Perm.append_right rest ?_
  refine (hold.append_left _).trans ?_
  refine List.Perm.trans ?_ ((hnew.symm.append_left _).append_left dropped)
  refine List.Perm.trans ?_ (List.perm_append_comm_assoc _ _ _)
  refine List.Perm.append_left _ ?_
  rw [← List.append_assoc]
  exact c.values.symm.append_right _

/-- Cutting one anonymous area out of a space. -/
theorem Cut.space_kept (c : Cut a lo hi pieces dropped) (hok : SpaceOk img k.mem s)
    (hacc : k.Accounted first (s.pages ++ rest)) (hrest : ∀ p ∈ img.pages, p ∈ rest)
    (ha : a.mapType = .anonymous) (hs : s.areas.Perm (a :: others))
    (hs' : s'.areas.Perm (pieces ++ others)) (hroot : s'.rootPgt = s.rootPgt)
    (hstack : s'.kStackEnd = s.kStackEnd) (hlo : a.startVpn ≤ lo) (hhi : hi ≤ a.endVpn)
    (u : Unmapped k.mem m' s.rootPgt lo hi) :
    Kept img first rest k s ({ k with mem := m' }.dropPages dropped) s' := by
  have hmem : a ∈ s.areas := hs.mem_iff.mpr (by simp)
  -- a page held by another owner, or by an area, is not a table of this space
  have hframe : ∀ p, p ∈ (s.areas.flatMap fun a => a.pages.values) ++ rest → m' p = k.mem p := by
    intro p hp
    refine u.frame p fun ht => ?_
    have hn : (s.rootPgt.pages ++ ((s.areas.flatMap fun a => a.pages.values) ++ rest)).Nodup := by
      rw [← List.append_assoc]
      exact hacc.ledger.held_nodup
    exact (List.nodup_append.mp hn).2.2 p ht p hp rfl
  refine ⟨?_, ?_, ?_, ?_, ?_, ?_, by rw [hroot], hstack⟩
  · refine hok.patch hs hs' (by rw [hroot]) ?_ ?_ ?_ ?_ ?_
    · rw [hroot, Phys.dropPages_mem]
      exact u.tree
    · rw [hroot, Phys.dropPages_mem]
      exact u.interior hok.noLarge
    · intro i _
      rw [Phys.dropPages_mem]
      exact congrFun u.root_eq i
    · intro p hp j
      rw [Phys.dropPages_mem]
      dsimp only
      rw [hframe p (List.mem_append_right _ (hrest p hp))]
      exact hok.agrees.kernel_tables p hp j
    · rw [Phys.dropPages_mem]
      exact c.patch hok hmem hlo hhi u
  · have hperm : (s.pages ++ rest).Perm (dropped ++ (s'.pages ++ rest)) := c.pages_perm hs hs' hroot
    exact Phys.Accounted.dropPages ((hacc.congr hperm).of_alloc_eq rfl)
  · intro p hp
    rw [Phys.dropPages_mem]
    exact hframe p (List.mem_append_right _ hp)
  · intro b hb _ p hp
    rw [Phys.dropPages_mem]
    exact hframe p (List.mem_append_left _ (List.mem_flatMap.mpr ⟨b, hb, hp⟩))
  · intro b hb hk
    have hb' : b = a ∨ b ∈ others := by simpa using hs.mem_iff.mp hb
    rcases hb' with rfl | hb'
    · rw [ha] at hk
      cases hk
    · exact hs'.mem_iff.mpr (List.mem_append_right _ hb')
  · intro hne b hb
    rcases List.mem_append.mp (hs'.mem_iff.mp hb) with hb | hb
    · exact (c.within b hb).1
    · exact hne b (hs.mem_iff.mpr (List.mem_cons_of_mem _ hb))

/-- `RootPgt::unmap` applies to every user range of a space in order. -/
theorem SpaceOk.unmap_range (hok : SpaceOk img k.mem s)
    (hacc : k.Accounted first (s.pages ++ rest)) (hrest : ∀ p ∈ img.pages, p ∈ rest) (lo : ℕ)
    (hend : hi ≤ userEndVpn) :
    ∃ m', RootPgt.unmap k.mem s.rootPgt lo hi = (m', .done) ∧ Unmapped k.mem m' s.rootPgt lo hi := by
  refine unmap_user hok.tables hok.noLarge ?_ hok.agrees.stopsUnmap hend
  intro p hp ht
  have hrest' := hrest p (hok.agrees.kernel_child (by decide) (by decide) hp)
  exact (List.nodup_append.mp hacc.ledger.held_nodup).2.2 p (mem_pages_of_table ht) p hrest' rfl

/-- One round of the loop of `unmap` that cuts `[lo, hi)` out of the area `a`. -/
structure Round (k : Phys) (s : VMSpace) (startVpn endVpn : ℕ) (A B : List VMArea) (a : VMArea)
    (lo hi : ℕ) (pieces : List VMArea) (dropped : List ℕ) (m' : Mem) (s' : VMSpace) : Prop where
  cut : Cut a lo hi pieces dropped
  anonymous : a.mapType = .anonymous
  areas_new : ∃ C, s'.areas = A ++ C ∧ C.Perm (pieces ++ B)
  rootPgt_eq : s'.rootPgt = s.rootPgt
  kStackEnd_eq : s'.kStackEnd = s.kStackEnd
  within : a.startVpn ≤ lo ∧ hi ≤ a.endVpn
  range : startVpn ≤ lo ∧ hi ≤ endVpn
  meets : ∀ v, a.containVpn v = true → startVpn ≤ v → v < endVpn → lo ≤ v ∧ v < hi
  unmapped : Unmapped k.mem m' s.rootPgt lo hi

theorem Round.perm {startVpn endVpn : ℕ} {A B : List VMArea}
    (r : Round k s startVpn endVpn A B a lo hi pieces dropped m' s') :
    s'.areas.Perm (pieces ++ (A ++ B)) := by
  obtain ⟨C, hC, hperm⟩ := r.areas_new
  rw [hC]
  exact (hperm.append_left A).trans (List.perm_append_comm_assoc _ _ _)

/-- **One round of the loop of `unmap`** leaves an area outside the range alone, and cuts the
range out of an area that meets it. -/
theorem unmapArea_cases (hok : SpaceOk img k.mem s) (hacc : k.Accounted first (s.pages ++ rest))
    (hrest : ∀ p ∈ img.pages, p ∈ rest) {startVpn endVpn i : ℕ} (hend : endVpn ≤ userEndVpn)
    (hle : startVpn ≤ endVpn) {A B : List VMArea} (hs : s.areas = A ++ a :: B) (hA : A.length = i) :
    (unmapArea k s startVpn endVpn i = (.ok (), k, s) ∧
        (a.endVpn ≤ startVpn ∨ endVpn ≤ a.startVpn)) ∨
      ∃ lo hi pieces dropped m' s', unmapArea k s startVpn endVpn i =
          (.ok (), { k with mem := m' }.dropPages dropped, s') ∧
        Round k s startVpn endVpn A B a lo hi pieces dropped m' s' := by
  have ha : a ∈ s.areas := by simp [hs]
  have hget : s.areas[i]? = some a := by simp [hs, ← hA]
  have hkeys := hok.agrees.keys a ha
  have hset : ∀ b, s.areas.set i b = A ++ b :: B := fun b => by simp [hs, ← hA]
  unfold unmapArea
  simp only [hget]
  split
  · rename_i hout
    exact Or.inl ⟨rfl, hout⟩
  rename_i hover
  right
  -- the range meets the area, so the area lies in user space
  obtain ⟨hanon, haend⟩ : a.mapType = .anonymous ∧ a.endVpn ≤ userEndVpn := by
    rcases hok.placement a ha with ⟨h, hin⟩ | ⟨-, h, h'⟩
    · refine ⟨h, ?_⟩
      by_cases hne : a.startVpn < a.endVpn
      · have := hin (a.endVpn - 1) (VMArea.containVpn_iff.mpr (by omega))
        omega
      · omega
    · rw [userEndVpn_eq] at hend
      omega
  split
  · obtain ⟨m', hu, u⟩ := hok.unmap_range hacc hrest a.startVpn haend
    obtain ⟨B', hB', hBperm⟩ := Vec.swapRemove_append A B a
    rw [← hs, hA] at hB'
    simp only [hu]
    exact ⟨_, _, _, _, _, _, rfl, cut_all a hkeys, hanon, ⟨B', hB', hBperm⟩, rfl, rfl,
      ⟨le_refl _, le_refl _⟩, by omega, fun v hv _ _ => VMArea.containVpn_iff.mp hv, u⟩
  split
  · obtain ⟨m', hu, u⟩ := hok.unmap_range hacc hrest a.startVpn hend
    simp only [hu]
    exact ⟨_, _, _, _, _, _, rfl, cut_head a hkeys (by omega) (by omega), hanon,
      ⟨_, hset _, List.Perm.refl _⟩, rfl, rfl, ⟨le_refl _, by omega⟩, by omega,
      fun v hv _ h => ⟨(VMArea.containVpn_iff.mp hv).1, h⟩, u⟩
  split
  · obtain ⟨m', hu, u⟩ := hok.unmap_range hacc hrest startVpn haend
    simp only [hu]
    exact ⟨_, _, _, _, _, _, rfl, cut_tail a hkeys (by omega) (by omega), hanon,
      ⟨_, hset _, List.Perm.refl _⟩, rfl, rfl, ⟨by omega, le_refl _⟩, by omega,
      fun v hv h _ => ⟨h, (VMArea.containVpn_iff.mp hv).2⟩, u⟩
  · obtain ⟨m', hu, u⟩ := hok.unmap_range hacc hrest startVpn hend
    simp only [hu]
    refine ⟨_, _, _, _, _, _, rfl, cut_middle a hkeys (by omega) hle (by omega), hanon,
      ⟨_, by rw [hset, List.append_assoc], ?_⟩, rfl, rfl, ⟨by omega, by omega⟩, by omega,
      fun v _ h h' => ⟨h, h'⟩, u⟩
    exact (List.perm_append_singleton _ _).cons _

/-- A round keeps the space in order. -/
theorem Round.kept {startVpn endVpn : ℕ} {A B : List VMArea} (hok : SpaceOk img k.mem s)
    (hacc : k.Accounted first (s.pages ++ rest)) (hrest : ∀ p ∈ img.pages, p ∈ rest)
    (hs : s.areas = A ++ a :: B)
    (r : Round k s startVpn endVpn A B a lo hi pieces dropped m' s') :
    Kept img first rest k s ({ k with mem := m' }.dropPages dropped) s' := by
  have hperm : s.areas.Perm (a :: (A ++ B)) := by
    rw [hs]
    exact List.perm_middle
  exact r.cut.space_kept hok hacc hrest r.anonymous hperm r.perm r.rootPgt_eq r.kStackEnd_eq
    r.within.1 r.within.2 r.unmapped

theorem exists_split {α : Type} {l : List α} {i : ℕ} (hi : i < l.length) :
    ∃ A a B, l = A ++ a :: B ∧ A.length = i :=
  ⟨l.take i, l[i], l.drop (i + 1), by simp, by simp; omega⟩

theorem unmapArea_kept (hok : SpaceOk img k.mem s) (hacc : k.Accounted first (s.pages ++ rest))
    (hrest : ∀ p ∈ img.pages, p ∈ rest) {startVpn endVpn i : ℕ} (hend : endVpn ≤ userEndVpn)
    (hle : startVpn ≤ endVpn) (hi : i < s.areas.length) :
    ∃ k' s', unmapArea k s startVpn endVpn i = (.ok (), k', s') ∧
      Kept img first rest k s k' s' ∧ i ≤ s'.areas.length := by
  obtain ⟨A, a, B, hs, hA⟩ := exists_split hi
  rcases unmapArea_cases hok hacc hrest hend hle hs hA with ⟨h, -⟩ | ⟨lo, hi, ps, ds, m', s', h, r⟩
  · exact ⟨k, s, h, Kept.refl hok hacc, hi.le⟩
  · obtain ⟨C, hC, -⟩ := r.areas_new
    refine ⟨_, s', h, r.kept hok hacc hrest hs, ?_⟩
    rw [hC, List.length_append]
    omega

/-- The loop of `unmap`. -/
theorem unmapBelow_kept (hok : SpaceOk img k.mem s) (hacc : k.Accounted first (s.pages ++ rest))
    (hrest : ∀ p ∈ img.pages, p ∈ rest) {startVpn endVpn n : ℕ} (hend : endVpn ≤ userEndVpn)
    (hle : startVpn ≤ endVpn) (hn : n ≤ s.areas.length) :
    ∃ k' s', unmapBelow k s startVpn endVpn n = (.ok (), k', s') ∧
      Kept img first rest k s k' s' := by
  induction n generalizing k s with
  | zero => exact ⟨k, s, rfl, Kept.refl hok hacc⟩
  | succ i ih =>
    obtain ⟨k₁, s₁, h₁, kept₁, hlen⟩ := unmapArea_kept hok hacc hrest hend hle hn
    obtain ⟨k', s', h', kept'⟩ := ih kept₁.ok kept₁.accounted hlen
    refine ⟨k', s', ?_, kept₁.trans kept'⟩
    rw [unmapBelow, h₁]
    exact h'

/-- **`VMSpace::unmap` on a user range always succeeds.** -/
theorem unmap_kept (hok : SpaceOk img k.mem s) (hacc : k.Accounted first (s.pages ++ rest))
    (hrest : ∀ p ∈ img.pages, p ∈ rest) {startVpn endVpn : ℕ} (hend : endVpn ≤ userEndVpn)
    (hle : startVpn ≤ endVpn) :
    ∃ k' s', unmap k s startVpn endVpn = (.ok (), k', s') ∧ Kept img first rest k s k' s' :=
  unmapBelow_kept hok hacc hrest hend hle (le_refl _)

/-! ### The small space with an area -/

/-- Two pages, for reading and writing. -/
def sampleAreaSpace : VMSpace :=
  (addNewArea sampleSpace 0x10 0x12 .anonymous (permissionR ||| permissionW ||| permissionU)).2

/-- The first of them has been stored to. -/
def sampleMapped : Outcome VMError Unit × Phys × VMSpace :=
  map samplePhys sampleAreaSpace 0x10 (permissionU ||| permissionW)

theorem sampleArea_kept : Kept sampleImage 0 [0, 1, 2] samplePhys sampleSpace samplePhys
    sampleAreaSpace := by
  have h : addNewArea sampleSpace 0x10 0x12 .anonymous (permissionR ||| permissionW ||| permissionU) =
      (.ok (), sampleAreaSpace) := rfl
  exact addNewArea_kept sample_ok sample_accounted (by decide) h

theorem sampleMapped_kept : Kept sampleImage 0 [0, 1, 2] samplePhys sampleAreaSpace
    sampleMapped.2.1 sampleMapped.2.2 := by
  have h : map samplePhys sampleAreaSpace 0x10 (permissionU ||| permissionW) =
      (sampleMapped.1, sampleMapped.2.1, sampleMapped.2.2) := by
    unfold sampleMapped
    rfl
  exact (map_kept sampleArea_kept.ok sampleArea_kept.accounted (fun _ h => h) (by decide)
    (by decide) h).2

end VMSpace

end RCoreKernel.Mm
