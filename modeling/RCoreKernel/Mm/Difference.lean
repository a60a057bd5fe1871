import RCoreKernel.Mm.UserTables

/-!
# `VMSpace::unmap` is set difference

For a page number, the areas of a space say three things: the map type, the permissions, and the
page held for it.  `Describes` is that relation; it does not mention the order of the areas or
where one area ends and the next one begins.  `unmap` removes the page numbers of its range from
the relation and leaves the rest of it as it is.

The loop of `unmap` goes through the indices from the last one down.  What it has passed avoids
the range; `swap_remove` and `push` only move such areas around (`Round.areas_new`).

* `Trimmed` — what rounds of the loop do, composable (`Trimmed.trans`);
* `unmapBelow_trimmed` — the loop, by induction on the index;
* `unmap_difference` — **`unmap` returns `Ok`, what the areas say is the set difference, exactly
  the pages of the range are recycled, and no walk outside the range changes**.
-/

namespace RCoreKernel.Mm

open Radix RootPgt

namespace VMSpace

/-- What the areas of a space say about a page number. -/
def Describes (s : VMSpace) (v : ℕ) (x : MapType × ℕ × Option ℕ) : Prop :=
  ∃ a ∈ s.areas, a.containVpn v = true ∧ x = (a.mapType, a.permissions, a.pages.get? v)

/-- What some rounds of the loop of `unmap` do to a space. -/
structure Trimmed (startVpn endVpn : ℕ) (k : Phys) (s : VMSpace) (dropped : List ℕ) (k' : Phys)
    (s' : VMSpace) : Prop where
  outside : ∀ v x, ¬(startVpn ≤ v ∧ v < endVpn) → s.Describes v x → s'.Describes v x
  shrinks : ∀ v x, s'.Describes v x → s.Describes v x
  alloc_eq : k'.alloc = { k.alloc with recycledPpn := k.alloc.recycledPpn ++ dropped }
  drops : ∀ page ∈ dropped, ∃ v, startVpn ≤ v ∧ v < endVpn ∧ s.Holds v page
  gone : ∀ v page, s.Holds v page → s'.Holds v page ∨ page ∈ dropped
  frame : ∀ p, p ∉ s.rootPgt.pages → k'.mem p = k.mem p
  rootPgt_eq : s'.rootPgt = s.rootPgt
  walk_eq : ∀ v, Canonical v → ¬(startVpn ≤ v ∧ v < endVpn) →
    walk k'.mem s.rootPgt.ppn v = walk k.mem s.rootPgt.ppn v
  tables_eq : ∀ i p, i < 512 → PTE.child (k.mem s.rootPgt.ppn i) = some p → k'.mem p = k.mem p
  root_eq : k'.mem s.rootPgt.ppn = k.mem s.rootPgt.ppn
  kernel_areas : ∀ a, a.mapType = .kernelVaOffset → (a ∈ s'.areas ↔ a ∈ s.areas)

variable {img : KernelImage} {first startVpn endVpn lo hi v page : ℕ} {rest dropped dropped' : List ℕ}
  {k k' k'' : Phys} {s s' s'' : VMSpace} {a p : VMArea} {pieces A B : List VMArea} {m' : Mem}
  {x : MapType × ℕ × Option ℕ}

/-- A page is held when the areas say so. -/
theorem holds_iff_describes :
    s.Holds v page ↔ ∃ mapType permissions, s.Describes v (mapType, permissions, some page) := by
  constructor
  · rintro ⟨a, ha, hav, hmem⟩
    exact ⟨a.mapType, a.permissions, a, ha, hav, by rw [BTreeMap.get?_eq_some.mpr hmem]⟩
  · rintro ⟨mapType, permissions, a, ha, hav, h⟩
    have hget : some page = a.pages.get? v := congrArg (fun x => x.2.2) h
    exact ⟨a, ha, hav, BTreeMap.get?_eq_some.mp hget.symm⟩

theorem Trimmed.refl (k : Phys) (s : VMSpace) : Trimmed startVpn endVpn k s [] k s where
  outside _ _ _ h := h
  shrinks _ _ h := h
  alloc_eq := by simp
  drops := by simp
  gone _ _ h := Or.inl h
  frame _ _ := rfl
  rootPgt_eq := rfl
  walk_eq _ _ _ := rfl
  tables_eq _ _ _ _ := rfl
  root_eq := rfl
  kernel_areas _ _ := Iff.rfl

theorem Trimmed.trans (h : Trimmed startVpn endVpn k s dropped k' s')
    (h' : Trimmed startVpn endVpn k' s' dropped' k'' s'') :
    Trimmed startVpn endVpn k s (dropped ++ dropped') k'' s'' where
  outside v x hv hx := h'.outside v x hv (h.outside v x hv hx)
  shrinks v x hx := h.shrinks v x (h'.shrinks v x hx)
  alloc_eq := by
    rw [h'.alloc_eq, h.alloc_eq]
    simp
  drops page hp := by
    rcases List.mem_append.mp hp with hp | hp
    · exact h.drops page hp
    · obtain ⟨v, h1, h2, hv⟩ := h'.drops page hp
      obtain ⟨mapType, permissions, hd⟩ := holds_iff_describes.mp hv
      exact ⟨v, h1, h2, holds_iff_describes.mpr ⟨mapType, permissions, h.shrinks v _ hd⟩⟩
  gone v page hv := by
    rcases h.gone v page hv with hv | hp
    · rcases h'.gone v page hv with hv | hp
      · exact Or.inl hv
      · exact Or.inr (List.mem_append_right _ hp)
    · exact Or.inr (List.mem_append_left _ hp)
  frame p hp := by
    rw [h'.frame p (by rwa [h.rootPgt_eq]), h.frame p hp]
  rootPgt_eq := h'.rootPgt_eq.trans h.rootPgt_eq
  walk_eq v hv hout := by
    have h₂ := h'.walk_eq v hv hout
    rw [h.rootPgt_eq] at h₂
    exact h₂.trans (h.walk_eq v hv hout)
  tables_eq i p hi hp := by
    have h₂ := h'.tables_eq i p hi
    rw [h.rootPgt_eq, h.root_eq] at h₂
    exact (h₂ hp).trans (h.tables_eq i p hi hp)
  root_eq := by
    have h₂ := h'.root_eq
    rw [h.rootPgt_eq] at h₂
    exact h₂.trans h.root_eq
  kernel_areas a ha := (h'.kernel_areas a ha).trans (h.kernel_areas a ha)

/-! ### One round -/

/-- A piece of a cut area holds what the area held. -/
theorem Cut.get?_eq (c : Cut a lo hi pieces dropped) (hp : p ∈ pieces)
    (hv : p.containVpn v = true) : p.pages.get? v = a.pages.get? v := by
  apply Option.ext
  intro page
  rw [BTreeMap.get?_eq_some, BTreeMap.get?_eq_some]
  constructor
  · intro h
    exact (c.entries p hp v page h).2
  · intro h
    have hout : ¬(lo ≤ v ∧ v < hi) := by
      have := c.avoids p hp
      rw [VMArea.containVpn_iff] at hv
      omega
    obtain ⟨p', hp', hv', hmem⟩ := c.kept v page h hout
    obtain rfl := eq_of_apart c.disjoint hp hp' hv hv'
    exact hmem

/-- What a piece says about a page number, its area said too. -/
theorem Cut.describes_piece (c : Cut a lo hi pieces dropped) (hp : p ∈ pieces)
    (hv : p.containVpn v = true) :
    a.containVpn v = true ∧
      (p.mapType, p.permissions, p.pages.get? v) = (a.mapType, a.permissions, a.pages.get? v) := by
  have hw := c.within p hp
  refine ⟨?_, ?_⟩
  · rw [VMArea.containVpn_iff] at hv ⊢
    omega
  · rw [hw.2.2.2.1, hw.2.2.2.2, c.get?_eq hp hv]

theorem Round.mem_areas (r : Round k s startVpn endVpn A B a lo hi pieces dropped m' s')
    {b : VMArea} : b ∈ s'.areas ↔ b ∈ pieces ∨ b ∈ A ++ B := by
  rw [r.perm.mem_iff, List.mem_append]

/-- A round that cuts an area. -/
theorem Round.trimmed (hok : SpaceOk img k.mem s) (hacc : k.Accounted first (s.pages ++ rest))
    (hrest : ∀ p ∈ img.pages, p ∈ rest) (hs : s.areas = A ++ a :: B)
    (r : Round k s startVpn endVpn A B a lo hi pieces dropped m' s') :
    Trimmed startVpn endVpn k s dropped ({ k with mem := m' }.dropPages dropped) s' := by
  have hut := hok.userTable hacc hrest
  have ha : a ∈ s.areas := by simp [hs]
  have hmem : ∀ b, b ∈ s.areas ↔ b = a ∨ b ∈ A ++ B := fun b => by
    rw [hs]
    simp only [List.mem_append, List.mem_cons]
    tauto
  have hin : ∀ {v}, ¬(startVpn ≤ v ∧ v < endVpn) → ¬(lo ≤ v ∧ v < hi) := fun {v} hout h => by
    have := r.range
    omega
  refine ⟨?_, ?_, ?_, ?_, ?_, ?_, r.rootPgt_eq, ?_, ?_, ?_, ?_⟩
  · rintro v x hout ⟨b, hb, hbv, rfl⟩
    rcases (hmem b).mp hb with rfl | hb
    · obtain ⟨p, hp, hpv⟩ := r.cut.covered v hbv (hin hout)
      exact ⟨p, r.mem_areas.mpr (Or.inl hp), hpv, (r.cut.describes_piece hp hpv).2.symm⟩
    · exact ⟨b, r.mem_areas.mpr (Or.inr hb), hbv, rfl⟩
  · rintro v x ⟨b, hb, hbv, rfl⟩
    rcases r.mem_areas.mp hb with hb | hb
    · obtain ⟨hav, heq⟩ := r.cut.describes_piece hb hbv
      exact ⟨a, ha, hav, heq⟩
    · exact ⟨b, (hmem b).mpr (Or.inr hb), hbv, rfl⟩
  · rw [Phys.dropPages_recycled]
  · intro page hp
    obtain ⟨v, hv, h1, h2⟩ := (r.cut.drops page).mp hp
    have := r.range
    exact ⟨v, by omega, by omega, a, ha, hok.agrees.keys a ha v page hv, hv⟩
  · rintro v page ⟨b, hb, hbv, hbm⟩
    rcases (hmem b).mp hb with rfl | hb
    · by_cases hcut : lo ≤ v ∧ v < hi
      · exact Or.inr ((r.cut.drops page).mpr ⟨v, hbm, hcut⟩)
      · obtain ⟨p, hp, hpv, hpm⟩ := r.cut.kept v page hbm hcut
        exact Or.inl ⟨p, r.mem_areas.mpr (Or.inl hp), hpv, hpm⟩
    · exact Or.inl ⟨b, r.mem_areas.mpr (Or.inr hb), hbv, hbm⟩
  · intro p hp
    rw [Phys.dropPages_mem]
    exact r.unmapped.frame p hp
  · intro v hv hout
    rw [Phys.dropPages_mem]
    exact hut.walk_unmapped r.unmapped hv (hin hout)
  · intro i p hi hp
    rw [Phys.dropPages_mem]
    exact hut.tables_unmapped r.unmapped hi hp
  · rw [Phys.dropPages_mem]
    exact r.unmapped.root_eq
  · intro b hb
    rw [r.mem_areas, hmem]
    have hpiece : b ∉ pieces := fun hp => by
      have := (r.cut.within b hp).2.2.2.1
      rw [r.anonymous, hb] at this
      cases this
    have hne : b ≠ a := fun e => by
      rw [e, r.anonymous] at hb
      cases hb
    tauto

/-! ### The loop -/

/-- The area lies outside the range. -/
def Avoids (startVpn endVpn : ℕ) (a : VMArea) : Prop :=
  ∀ v, a.containVpn v = true → ¬(startVpn ≤ v ∧ v < endVpn)

/-- What is left of an area after a round avoids the range. -/
theorem Round.avoids (r : Round k s startVpn endVpn A B a lo hi pieces dropped m' s')
    (hp : p ∈ pieces) : Avoids startVpn endVpn p := by
  intro v hv hin
  have hcut := r.cut.avoids p hp
  have hmeet := r.meets v (r.cut.describes_piece hp hv).1 hin.1 hin.2
  rw [VMArea.containVpn_iff] at hv
  omega

/-- **The loop of `unmap`.**  The areas from index `n` on avoid the range; afterwards all do. -/
theorem unmapBelow_trimmed (hend : endVpn ≤ userEndVpn) (hle : startVpn ≤ endVpn)
    (hrest : ∀ p ∈ img.pages, p ∈ rest) (n : ℕ) :
    ∀ {k : Phys} {s : VMSpace} {A B : List VMArea}, SpaceOk img k.mem s →
      k.Accounted first (s.pages ++ rest) → s.areas = A ++ B → A.length = n →
      (∀ b ∈ B, Avoids startVpn endVpn b) →
      ∃ k' s' dropped, unmapBelow k s startVpn endVpn n = (.ok (), k', s') ∧
        Kept img first rest k s k' s' ∧ Trimmed startVpn endVpn k s dropped k' s' ∧
        ∀ b ∈ s'.areas, Avoids startVpn endVpn b := by
  induction n with
  | zero =>
    intro k s A B hok hacc hs hA hB
    obtain rfl := List.length_eq_zero_iff.mp hA
    refine ⟨k, s, [], rfl, Kept.refl hok hacc, Trimmed.refl k s, ?_⟩
    rw [hs]
    exact hB
  | succ n ih =>
    intro k s A B hok hacc hs hA hB
    obtain ⟨A', a, hA'⟩ : ∃ A' a, A = A' ++ [a] :=
      ⟨_, _, (List.dropLast_append_getLast (List.ne_nil_of_length_eq_add_one hA)).symm⟩
    have hlen : A'.length = n := by
      rw [hA', List.length_append, List.length_singleton] at hA
      omega
    rw [hA', List.append_assoc, List.singleton_append] at hs
    rcases unmapArea_cases hok hacc hrest hend hle hs hlen with
      ⟨h, hout⟩ | ⟨lo, hi, pieces, dropped, m', s₁, h, r⟩
    · have hB' : ∀ b ∈ a :: B, Avoids startVpn endVpn b := fun b hb => by
        rcases List.mem_cons.mp hb with rfl | hb
        · intro v hv
          rw [VMArea.containVpn_iff] at hv
          omega
        · exact hB b hb
      obtain ⟨k', s', dropped, h', hrest'⟩ := ih hok hacc hs hlen hB'
      refine ⟨k', s', dropped, ?_, hrest'⟩
      rw [unmapBelow, h]
      exact h'
    · obtain ⟨C, hC, hperm⟩ := r.areas_new
      have hkept := r.kept hok hacc hrest hs
      have hC' : ∀ b ∈ C, Avoids startVpn endVpn b := fun b hb => by
        rcases List.mem_append.mp (hperm.mem_iff.mp hb) with hb | hb
        · exact r.avoids hb
        · exact hB b hb
      obtain ⟨k', s', dropped', h', hkept', htrim, hall⟩ :=
        ih hkept.ok hkept.accounted hC hlen hC'
      refine ⟨k', s', dropped ++ dropped', ?_, hkept.trans hkept',
        (r.trimmed hok hacc hrest hs).trans htrim, hall⟩
      rw [unmapBelow, h]
      exact h'

/-! ### Set difference -/

/-- The space `s'` is the space `s` without the page numbers in the range, and `dropped` are the
pages of the range. -/
structure Difference (img : KernelImage) (startVpn endVpn : ℕ) (k : Phys) (s : VMSpace)
    (dropped : List ℕ) (k' : Phys) (s' : VMSpace) : Prop where
  describes_iff : ∀ v x, s'.Describes v x ↔ s.Describes v x ∧ ¬(startVpn ≤ v ∧ v < endVpn)
  recycled : k'.alloc = { k.alloc with recycledPpn := k.alloc.recycledPpn ++ dropped }
  dropped_nodup : dropped.Nodup
  mem_dropped : ∀ page, page ∈ dropped ↔ ∃ v, startVpn ≤ v ∧ v < endVpn ∧ s.Holds v page
  cleared : ∀ v, startVpn ≤ v → v < endVpn → PTE.isValid (pteAt k'.mem s'.rootPgt.ppn v) = false
  walk_eq : ∀ v, Canonical v → ¬(startVpn ≤ v ∧ v < endVpn) →
    walk k'.mem s'.rootPgt.ppn v = walk k.mem s.rootPgt.ppn v
  kernel_areas : ∀ a, a.mapType = .kernelVaOffset → (a ∈ s'.areas ↔ a ∈ s.areas)
  root_eq : k'.mem s'.rootPgt.ppn = k.mem s.rootPgt.ppn
  kernel_tables : ∀ p ∈ img.pages, k'.mem p = k.mem p
  data : ∀ p, p ∉ s.rootPgt.pages → k'.mem p = k.mem p
  rootPgt_eq : s'.rootPgt = s.rootPgt
  ok : SpaceOk img k'.mem s'

theorem Trimmed.difference (hrest : ∀ p ∈ img.pages, p ∈ rest)
    (hend : endVpn ≤ userEndVpn) (hkept : Kept img first rest k s k' s')
    (h : Trimmed startVpn endVpn k s dropped k' s')
    (hall : ∀ b ∈ s'.areas, Avoids startVpn endVpn b) :
    Difference img startVpn endVpn k s dropped k' s' := by
  -- no area of the result meets the range
  have hno : ∀ v x, s'.Describes v x → ¬(startVpn ≤ v ∧ v < endVpn) := by
    rintro v x ⟨b, hb, hbv, -⟩
    exact hall b hb v hbv
  have hnoheld : ∀ v page, s'.Holds v page → ¬(startVpn ≤ v ∧ v < endVpn) := by
    intro v page hv
    obtain ⟨mapType, permissions, hd⟩ := holds_iff_describes.mp hv
    exact hno v _ hd
  refine ⟨?_, h.alloc_eq, ?_, ?_, ?_, ?_, h.kernel_areas, ?_, ?_, h.frame, h.rootPgt_eq, hkept.ok⟩
  · intro v x
    exact ⟨fun hx => ⟨h.shrinks v x hx, hno v x hx⟩, fun hx => h.outside v x hx.2 hx.1⟩
  · have hnodup := hkept.accounted.ledger.free_nodup
    rw [h.alloc_eq] at hnodup
    exact (List.nodup_append.mp hnodup).2.1
  · intro page
    refine ⟨h.drops page, ?_⟩
    rintro ⟨v, h1, h2, hv⟩
    rcases h.gone v page hv with hv | hp
    · exact absurd ⟨h1, h2⟩ (hnoheld v page hv)
    · exact hp
  · intro v h1 h2
    rw [← Bool.not_eq_true, hkept.ok.agrees.valid_iff v (by omega)]
    rintro ⟨page, hv⟩
    exact hnoheld v page hv ⟨h1, h2⟩
  · intro v hv hout
    rw [h.rootPgt_eq]
    exact h.walk_eq v hv hout
  · rw [h.rootPgt_eq]
    exact h.root_eq
  · intro p hp
    exact hkept.frame p (hrest p hp)

/-- The order of the areas does not matter for a space in order. -/
theorem SpaceOk.reorder (hok : SpaceOk img k.mem s) (hroot : s'.rootPgt = s.rootPgt)
    (hperm : s'.areas.Perm s.areas) : SpaceOk img k.mem s' := by
  have hmem : ∀ b, b ∈ s'.areas ↔ b ∈ s.areas := fun b => hperm.mem_iff
  refine ⟨⟨?_, ?_, ?_, ?_, ?_, hok.agrees.kernel_tables⟩, ?_, ?_, ?_, ?_, ?_⟩
  · exact (hperm.pairwise_iff VMArea.Apart.symm).mpr hok.agrees.disjoint
  · intro b hb
    exact hok.agrees.keys b ((hmem b).mp hb)
  · intro v hv
    rw [hroot, hok.agrees.valid_iff v hv]
    unfold Holds
    simp only [hmem]
  · intro v hv b hb
    rw [hroot]
    exact hok.agrees.pte_eq v hv b ((hmem b).mp hb)
  · rw [hroot]
    exact hok.agrees.kernel_root
  · rw [hroot]
    exact hok.tables
  · rw [hroot]
    exact hok.noLarge
  · rw [hroot]
    exact hok.top_invalid
  · intro b hb
    exact hok.permissions b ((hmem b).mp hb)
  · intro b hb
    exact hok.placement b ((hmem b).mp hb)

theorem pages_reorder (hroot : s'.rootPgt = s.rootPgt) (hperm : s'.areas.Perm s.areas) :
    s'.pages.Perm s.pages := by
  unfold pages
  rw [hroot]
  exact (hperm.flatMap_right _).append_left _

/-- Differences of the same space agree. -/
theorem Difference.agree {dropped₂ : List ℕ} {k₂ : Phys} {s₂ s₂' : VMSpace}
    (h : Difference img startVpn endVpn k s dropped k' s')
    (h₂ : Difference img startVpn endVpn k s₂ dropped₂ k₂ s₂') (hperm : s₂.areas.Perm s.areas)
    (hroot : s₂.rootPgt = s.rootPgt) :
    (∀ v x, s₂'.Describes v x ↔ s'.Describes v x) ∧ dropped₂.Perm dropped ∧
      ∀ v, Canonical v → ¬(startVpn ≤ v ∧ v < endVpn) →
        walk k₂.mem s₂'.rootPgt.ppn v = walk k'.mem s'.rootPgt.ppn v := by
  have hdesc : ∀ v x, s₂.Describes v x ↔ s.Describes v x := fun v x => by
    unfold Describes
    simp only [hperm.mem_iff]
  have hholds : ∀ v page, s₂.Holds v page ↔ s.Holds v page := fun v page => by
    unfold Holds
    simp only [hperm.mem_iff]
  refine ⟨?_, ?_, ?_⟩
  · intro v x
    rw [h.describes_iff, h₂.describes_iff, hdesc]
  · rw [List.perm_ext_iff_of_nodup h₂.dropped_nodup h.dropped_nodup]
    intro page
    rw [h.mem_dropped, h₂.mem_dropped]
    simp only [hholds]
  · intro v hv hout
    rw [h.walk_eq v hv hout, h₂.walk_eq v hv hout, hroot]

/-- **`VMSpace::unmap` is set difference**, for every order of the areas. -/
theorem unmap_difference (hok : SpaceOk img k.mem s) (hacc : k.Accounted first (s.pages ++ rest))
    (hrest : ∀ p ∈ img.pages, p ∈ rest) (hle : startVpn ≤ endVpn) (hend : endVpn ≤ userEndVpn) :
    ∃ k' s' dropped, unmap k s startVpn endVpn = (.ok (), k', s') ∧
      Difference img startVpn endVpn k s dropped k' s' ∧
      ∀ s₂ : VMSpace, s₂.areas.Perm s.areas → s₂.rootPgt = s.rootPgt →
        ∃ k₂ s₂' dropped₂, unmap k s₂ startVpn endVpn = (.ok (), k₂, s₂') ∧
          (∀ v x, s₂'.Describes v x ↔ s'.Describes v x) ∧ dropped₂.Perm dropped ∧
          k₂.alloc = { k.alloc with recycledPpn := k.alloc.recycledPpn ++ dropped₂ } ∧
          ∀ v, Canonical v → ¬(startVpn ≤ v ∧ v < endVpn) →
            walk k₂.mem s₂'.rootPgt.ppn v = walk k'.mem s'.rootPgt.ppn v := by
  have hone : ∀ s : VMSpace, SpaceOk img k.mem s → k.Accounted first (s.pages ++ rest) →
      ∃ k' s' dropped, unmap k s startVpn endVpn = (.ok (), k', s') ∧
        Difference img startVpn endVpn k s dropped k' s' := by
    intro s hok hacc
    obtain ⟨k', s', dropped, h, hkept, htrim, hall⟩ := unmapBelow_trimmed hend hle hrest
      s.areas.length hok hacc (List.append_nil _).symm rfl (by simp)
    exact ⟨k', s', dropped, h, htrim.difference hrest hend hkept hall⟩
  obtain ⟨k', s', dropped, h, hdiff⟩ := hone s hok hacc
  refine ⟨k', s', dropped, h, hdiff, ?_⟩
  intro s₂ hperm hroot
  obtain ⟨k₂, s₂', dropped₂, h₂, hdiff₂⟩ := hone s₂ (hok.reorder hroot hperm)
    (hacc.congr ((pages_reorder hroot hperm).symm.append_right _))
  obtain ⟨h1, h2, h3⟩ := hdiff.agree hdiff₂ hperm hroot
  exact ⟨k₂, s₂', dropped₂, h₂, h1, h2, hdiff₂.recycled, h3⟩

/-- The first page of the small area is unmapped and recycled. -/
theorem unmap_difference_sample : ∃ k' s' dropped,
    unmap sampleMapped.2.1 sampleMapped.2.2 0x0f 0x11 = (.ok (), k', s') ∧ 4 ∈ dropped ∧
      Difference sampleImage 0x0f 0x11 sampleMapped.2.1 sampleMapped.2.2 dropped k' s' := by
  obtain ⟨k', s', dropped, h, hdiff, -⟩ := unmap_difference sampleMapped_kept.ok
    sampleMapped_kept.accounted (fun _ h => h) (show 0x0f ≤ 0x11 by decide) (by decide)
  refine ⟨k', s', dropped, h, ?_, hdiff⟩
  refine (hdiff.mem_dropped 4).mpr ⟨0x10, by decide, by decide, ?_⟩
  exact ⟨_, List.mem_singleton_self _, by decide, by decide⟩

end VMSpace

end RCoreKernel.Mm
