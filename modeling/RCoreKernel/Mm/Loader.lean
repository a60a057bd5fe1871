import RCoreKernel.Mm.NewUser

/-!
# What `VMSpace::new_user` builds

The state of the loader is `Loaded`: the space built so far is in order, its areas have a page
everywhere, and nothing of the other owners has changed.  While a segment is being loaded its
area is counted only up to the current page, so that it never meets an earlier area: a page
that is already covered makes `map_create` fail before the area grows over it.

* `mapSegmentPages_spec`, `mapSegments_spec` — the loops keep `Loaded`, as long as every page
  they reach lies in user space or is already covered (`Tame`);
* `newUser_spec` — **a new space is in order, and a failed attempt gives every page back**.
-/

namespace RCoreKernel.Mm

open Radix RootPgt

namespace VMSpace

variable {img : KernelImage} {first : ℕ} {rest : List ℕ} {k₀ k k' : Phys} {s s' : VMSpace}
  {t t' : RootPgt} {A : List VMArea} {a a' : VMArea} {m : Mem} {vpn page : ℕ}

/-- The areas of a space that only holds segments: anonymous, with every page there. -/
structure Full (s : VMSpace) : Prop where
  page : ∀ a ∈ s.areas, ∀ v, a.containVpn v = true → ∃ page, (v, page) ∈ a.pages.entries
  anonymous : ∀ a ∈ s.areas, a.mapType = .anonymous

/-- The state of the loader; `k₀` is the memory when it started. -/
structure Loaded (img : KernelImage) (first : ℕ) (rest : List ℕ) (k₀ k : Phys) (s : VMSpace) :
    Prop where
  ok : SpaceOk img k.mem s
  accounted : k.Accounted first (s.pages ++ rest)
  frame : ∀ p ∈ rest, k.mem p = k₀.mem p

/-- The loader has given up: every page is still accounted for. -/
structure Aborted (first : ℕ) (rest : List ℕ) (k₀ k : Phys) (held : List ℕ) : Prop where
  accounted : k.Accounted first (held ++ rest)
  frame : ∀ p ∈ rest, k.mem p = k₀.mem p

/-! ### Growing the last area -/

/-- The last area takes over page numbers that no other area contains. -/
theorem SpaceOk.extend (hok : SpaceOk img m s) (hs : s.areas = A ++ [a])
    (hpages : a'.pages = a.pages) (hperm : a'.permissions = a.permissions)
    (hsub : ∀ v, a.containVpn v = true → a'.containVpn v = true) (hplace : Placed a')
    (hapart : ∀ b ∈ A, VMArea.Apart b a') : SpaceOk img m { s with areas := A ++ [a'] } := by
  have ha : a ∈ s.areas := by simp [hs]
  have hA : ∀ b ∈ A, b ∈ s.areas := fun b hb => by simp [hs, hb]
  have hmem : ∀ b, b ∈ A ++ [a'] → b ∈ A ∨ b = a' := fun b hb => by simpa using hb
  have hcases : ∀ b ∈ s.areas, b ∈ A ∨ b = a := fun b hb => by
    rw [hs] at hb
    simpa using hb
  have hkeys : ∀ v page, (v, page) ∈ a'.pages.entries → a.containVpn v = true := fun v page h =>
    hok.agrees.keys a ha v page (hpages ▸ h)
  refine ⟨⟨?_, ?_, ?_, ?_, hok.agrees.kernel_root, hok.agrees.kernel_tables⟩, hok.tables,
    hok.noLarge, hok.top_invalid, ?_, ?_⟩
  · have hdis := hok.agrees.disjoint
    rw [hs, List.pairwise_append] at hdis
    refine List.pairwise_append.mpr ⟨hdis.1, List.pairwise_singleton _ _, ?_⟩
    intro x hx y hy
    obtain rfl := List.mem_singleton.mp hy
    exact hapart x hx
  · intro b hb v page h
    rcases hmem b hb with hb | rfl
    · exact hok.agrees.keys b (hA b hb) v page h
    · exact hsub v (hkeys v page h)
  · intro v hv
    rw [hok.agrees.valid_iff v hv]
    constructor
    · rintro ⟨page, b, hb, hbv, h⟩
      rcases hcases b hb with hb | rfl
      · exact ⟨page, b, List.mem_append_left _ hb, hbv, h⟩
      · exact ⟨page, a', by simp, hsub v hbv, hpages ▸ h⟩
    · rintro ⟨page, b, hb, hbv, h⟩
      rcases hmem b hb with hb | rfl
      · exact ⟨page, b, hA b hb, hbv, h⟩
      · exact ⟨page, a, ha, hkeys v page h, hpages ▸ h⟩
  · intro v hv b hb page hbv h
    rcases hmem b hb with hb | rfl
    · exact hok.agrees.pte_eq v hv b (hA b hb) page hbv h
    · rw [hperm]
      exact hok.agrees.pte_eq v hv a ha page (hkeys v page h) (hpages ▸ h)
  · intro b hb
    rcases hmem b hb with hb | rfl
    · exact hok.permissions b (hA b hb)
    · rw [hperm]
      exact hok.permissions a ha
  · intro b hb
    rcases hmem b hb with hb | rfl
    · exact hok.placement b (hA b hb)
    · exact hplace

/-- A page number without a valid entry is in no area, when the areas are full. -/
theorem SpaceOk.not_contain (hok : SpaceOk img m s) (hfull : Full s) (hv : vpn < userEndVpn)
    (hinv : PTE.isValid (pteAt m s.rootPgt.ppn vpn) = false) {b : VMArea} (hb : b ∈ s.areas) :
    b.containVpn vpn = false := by
  rw [← Bool.not_eq_true]
  intro hbv
  obtain ⟨p, hp⟩ := hfull.page b hb vpn hbv
  have := (hok.agrees.valid_iff vpn hv).mpr ⟨p, b, hb, hbv, hp⟩
  rw [hinv] at this
  cases this

/-- The page numbers of the segments lie in user space. -/
theorem SpaceOk.contain_lt (hok : SpaceOk img m s) (hfull : Full s) {b : VMArea} (hb : b ∈ s.areas)
    (hbv : b.containVpn vpn = true) : vpn < userEndVpn := by
  rcases hok.placement b hb with ⟨-, h⟩ | ⟨h, -⟩
  · exact h vpn hbv
  · rw [hfull.anonymous b hb] at h
    cases h

/-! ### One page of a segment -/

/-- A page was allocated, and at most this page was written. -/
theorem Loaded.fresh {k₁ k₂ : Phys} (hrest : ∀ p ∈ img.pages, p ∈ rest)
    (hl : Loaded img first rest k₀ k s) (hal : k.allocZeroedPage = some (page, k₁))
    (halloc : k₂.alloc = k₁.alloc) (hmem : ∀ p, p ≠ page → k₂.mem p = k₁.mem p) :
    SpaceOk img k₂.mem s ∧ (∀ p ∈ rest, k₂.mem p = k₀.mem p) ∧
      k₂.Accounted first
        (s.rootPgt.pages ++ (page :: (s.areas.flatMap (fun a => a.pages.values) ++ rest))) := by
  obtain ⟨hacc₁, -, hmem₁⟩ := Phys.allocZeroedPage_spec hl.accounted hal
  obtain ⟨hok₂, hsame, hperm₂⟩ := hl.ok.fresh hrest (hacc₁.of_alloc_eq halloc) fun p hp => by
    rw [hmem p hp]
    funext j
    simp [hmem₁, hp]
  exact ⟨hok₂, fun p hp => (hsame p (List.mem_append_right _ hp)).trans (hl.frame p hp), hperm₂⟩

/-- `loadPage` only writes the page it is given. -/
theorem loadPage_eq {bytes : List UInt8} {dataEnd dataStart d : ℕ}
    (h : loadPage bytes dataEnd k page dataStart = some (k', d)) :
    k'.alloc = k.alloc ∧ ∀ p, p ≠ page → k'.mem p = k.mem p := by
  unfold loadPage at h
  split at h
  · obtain ⟨data, -, he⟩ := Option.map_eq_some_iff.mp h
    obtain ⟨rfl, -⟩ := Prod.mk.inj he
    exact ⟨rfl, fun p hp => copyData_of_ne hp data⟩
  · obtain ⟨rfl, -⟩ := Prod.mk.inj (Option.some.inj h)
    exact ⟨rfl, fun _ _ => rfl⟩

/-- The space while the segment `area` is being loaded and has reached the page number `v`. -/
def partly (s : VMSpace) (t : RootPgt) (area : VMArea) (v : ℕ) : VMSpace :=
  { s with rootPgt := t, areas := s.areas ++ [{ area with endVpn := v }] }

theorem mem_partly {area : VMArea} {v : ℕ} {b : VMArea} :
    b ∈ (partly s t area v).areas ↔ b ∈ s.areas ∨ b = { area with endVpn := v } := by
  simp [partly]

theorem last_mem_partly (s : VMSpace) (t : RootPgt) (area : VMArea) (v : ℕ) :
    { area with endVpn := v } ∈ (partly s t area v).areas := mem_partly.mpr (Or.inr rfl)

theorem pages_partly (s : VMSpace) (t : RootPgt) (area : VMArea) (v : ℕ) :
    (partly s t area v).pages =
      t.pages ++ (s.areas.flatMap (fun a => a.pages.values) ++ area.pages.values) := by
  simp [partly, pages]

/-- The segment page was installed: the area has grown by one page. -/
theorem Loaded.grow_area {area : VMArea} {v : ℕ} (hrest : ∀ p ∈ img.pages, p ∈ rest)
    (hok : SpaceOk img k.mem (partly s t area v)) (hfull : Full (partly s t area v))
    (hframe : ∀ p ∈ rest, k.mem p = k₀.mem p) (hstart : area.startVpn ≤ v) (hv : v < userEndVpn)
    (g : Mapped UserHalf first
      (page :: ((partly s t area v).areas.flatMap (fun a => a.pages.values) ++ rest)) v page
      (area.permissions ||| PTE.flagV) k t (.ok ()) k' t') :
    Loaded img first rest k₀ k' (partly s t' { area with pages := area.pages.insert v page } (v + 1)) ∧
      Full (partly s t' { area with pages := area.pages.insert v page } (v + 1)) := by
  obtain ⟨-, hinv, -⟩ := g.leaf_ok rfl
  have hanon := hfull.anonymous _ (last_mem_partly s t area v)
  have hnot : ∀ b ∈ s.areas, b.containVpn v = false := fun b hb =>
    hok.not_contain hfull hv hinv (mem_partly.mpr (Or.inl hb))
  have hdis := (List.pairwise_append.mp hok.agrees.disjoint).2.2
  -- first the area takes over the page number, then the page is put there
  have hext : SpaceOk img k.mem (partly s t area (v + 1)) := by
    refine hok.extend rfl rfl rfl (?_ : ∀ w, _ → { area with endVpn := v + 1 }.containVpn w = true) ?_ ?_
    · intro w hw
      rw [VMArea.containVpn_iff] at hw ⊢
      exact ⟨hw.1, Nat.lt_succ_of_lt hw.2⟩
    · refine Or.inl ⟨hanon, fun w hw => ?_⟩
      exact lt_of_le_of_lt (Nat.le_of_lt_succ (VMArea.containVpn_iff.mp hw).2) hv
    · rintro b hb w ⟨hbw, hw⟩
      rw [VMArea.containVpn_iff] at hw
      rcases Nat.lt_succ_iff_lt_or_eq.mp hw.2 with hlt | rfl
      · exact hdis b hb _ (List.mem_singleton_self _) w
          ⟨hbw, VMArea.containVpn_iff.mpr ⟨hw.1, hlt⟩⟩
      · rw [hnot b hb] at hbw
        cases hbw
  have hkeys : ∀ w q, (w, q) ∈ area.pages.entries → area.startVpn ≤ w ∧ w < v := fun w q hq =>
    VMArea.containVpn_iff.mp (hok.agrees.keys _ (mem_partly.mpr (Or.inr rfl)) w q hq)
  have hnone : area.pages.get? v = none := by
    rw [BTreeMap.get?_eq_none]
    intro q hq
    exact absurd (hkeys v q hq).2 (lt_irrefl _)
  have hkept : Kept img first rest k (partly s t area (v + 1)) k'
      (partly s t' { area with pages := area.pages.insert v page } (v + 1)) := by
    refine map_kept_ok (a := { area with endVpn := v + 1 }) (A := s.areas) (B := []) hext hrest rfl hv
      (VMArea.containVpn_iff.mpr ⟨hstart, Nat.lt_succ_self v⟩) hnone ?_
    simpa [partly] using g
  refine ⟨⟨hkept.ok, hkept.accounted, fun p hp => (hkept.frame p hp).trans (hframe p hp)⟩, ?_, ?_⟩
  · intro b hb w hw
    rcases mem_partly.mp hb with hb | rfl
    · exact hfull.page b (mem_partly.mpr (Or.inl hb)) w hw
    · rw [VMArea.containVpn_iff] at hw
      rcases Nat.lt_succ_iff_lt_or_eq.mp hw.2 with hlt | rfl
      · obtain ⟨q, hq⟩ := hfull.page _ (mem_partly.mpr (Or.inr rfl)) w
          (VMArea.containVpn_iff.mpr ⟨hw.1, hlt⟩)
        exact ⟨q, BTreeMap.mem_insert.mpr (Or.inr ⟨by omega, hq⟩)⟩
      · exact ⟨page, BTreeMap.mem_insert.mpr (Or.inl ⟨rfl, rfl⟩)⟩
  · intro b hb
    rcases mem_partly.mp hb with hb | rfl
    · exact hfull.anonymous b (mem_partly.mpr (Or.inl hb))
    · exact hanon

/-! ### The loop over the pages of a segment -/

/-- Every page that the loop reaches lies in user space: it stops at the first page when the
flags are not a legal encoding, and at a page that an area already contains. -/
def Tame (covered : ℕ → Bool) (pteFlags : ℕ) : List ℕ → Prop
  | [] => True
  | v :: vs => PTE.isValidFlags pteFlags = true → covered v = false →
      v < userEndVpn ∧ Tame covered pteFlags vs

/-- Some area contains the page number. -/
def covered (areas : List VMArea) (v : ℕ) : Bool := areas.any fun a => a.containVpn v

theorem covered_eq_false {areas : List VMArea} {v : ℕ} :
    covered areas v = false ↔ ∀ a ∈ areas, a.containVpn v = false := by
  simp [covered]

theorem covered_eq_true {areas : List VMArea} {v : ℕ} :
    covered areas v = true ↔ ∃ a ∈ areas, a.containVpn v = true := by
  simp [covered]

theorem tame_of_forall {cov : ℕ → Bool} {pteFlags : ℕ} {vs : List ℕ}
    (h : ∀ v ∈ vs, v < userEndVpn) : Tame cov pteFlags vs := by
  induction vs with
  | nil => trivial
  | cons v vs ih =>
    exact fun _ _ => ⟨h v (by simp), ih fun w hw => h w (by simp [hw])⟩

/-- What the loop over the pages of a segment leaves behind. -/
def SegmentDone (img : KernelImage) (first : ℕ) (rest : List ℕ) (k₀ : Phys) (s : VMSpace)
    (area : VMArea) (v : ℕ) (r : Outcome VMError Unit × Phys × RootPgt × VMArea) : Prop :=
  match r.1 with
  | .ok () => Loaded img first rest k₀ r.2.1 (partly s r.2.2.1 r.2.2.2 v) ∧
      Full (partly s r.2.2.1 r.2.2.2 v) ∧ r.2.2.2 = { area with pages := r.2.2.2.pages }
  | .err _ => Aborted first rest k₀ r.2.1 (partly s r.2.2.1 r.2.2.2 v).pages
  | .panic _ => True

/-- An error before the page was linked: only the page goes back. -/
theorem Aborted.dropPage {area : VMArea} {v : ℕ}
    (hacc : k.Accounted first
      (t.pages ++ (page :: ((partly s t area v).areas.flatMap (fun a => a.pages.values) ++ rest))))
    (hframe : ∀ p ∈ rest, k.mem p = k₀.mem p) (w : ℕ) :
    Aborted first rest k₀ (k.dropPage page) (partly s t area w).pages := by
  refine ⟨Phys.Accounted.dropPage (hacc.congr ?_), hframe⟩
  rw [pages_partly]
  simp only [partly, List.flatMap_append, List.flatMap_cons, List.flatMap_nil, List.append_nil,
    List.append_assoc]
  exact List.perm_middle

/-- **The pages of a segment.** -/
theorem mapSegmentPages_spec (hrest : ∀ p ∈ img.pages, p ∈ rest) (bytes : List UInt8)
    (pteFlags dataEnd n : ℕ) : ∀ {k t} (area : VMArea) {v} (dataStart : ℕ), area.startVpn ≤ v →
      pteFlags = area.permissions ||| PTE.flagV →
      Loaded img first rest k₀ k (partly s t area v) → Full (partly s t area v) →
      Tame (covered s.areas) pteFlags (List.range' v n) →
      SegmentDone img first rest k₀ s area (v + n)
        (mapSegmentPages bytes pteFlags dataEnd (List.range' v n) k t area dataStart) := by
  induction n with
  | zero =>
    intro k t area v dataStart hstart hflags hl hfull htame
    exact ⟨hl, hfull, rfl⟩
  | succ n ih =>
    intro k t area v dataStart hstart hflags hl hfull htame
    rw [List.range'_succ] at htame ⊢
    rw [mapSegmentPages]
    split
    · refine ⟨?_, hl.frame⟩
      have := hl.accounted
      rwa [pages_partly] at this ⊢
    rename_i page k₁ hal
    split
    · trivial
    rename_i k₂ d hload
    obtain ⟨halloc₂, hmem₂⟩ := loadPage_eq hload
    obtain ⟨hok₂, hframe₂, hperm₂⟩ := hl.fresh hrest hal halloc₂ hmem₂
    -- a legal encoding reaches the tables, so the page number is one of user space
    by_cases hvalid : PTE.isValidFlags pteFlags = true
    · have hv : v < userEndVpn := by
        by_cases hcov : covered s.areas v = false
        · exact (htame hvalid hcov).1
        · obtain ⟨b, hb, hbv⟩ := covered_eq_true.mp (by simpa using hcov)
          exact hl.ok.contain_lt hfull (mem_partly.mpr (Or.inl hb)) hbv
      have hU := vpn2_lt (lt_of_lt_userEnd hv)
      have hlt : page < 2 ^ 44 := hperm₂.lt (by simp)
      split
      · rename_i e k₃ t₃ hmap
        have g := mapCreate_spec hperm₂ hok₂.tables hU hlt hmap
        refine Aborted.dropPage (v := v) g.accounted (fun p hp => ?_) _
        exact (g.frame_rest (by simp [hp])).trans (hframe₂ p hp)
      · rename_i k₃ t₃ hmap
        have g := mapCreate_spec hperm₂ hok₂.tables hU hlt hmap
        rw [hflags] at g
        obtain ⟨hl₃, hfull₃⟩ := Loaded.grow_area hrest hok₂ hfull hframe₂ hstart hv g
        obtain ⟨-, hinv, -⟩ := g.leaf_ok rfl
        have hcov : covered s.areas v = false := covered_eq_false.mpr fun b hb =>
          hok₂.not_contain hfull hv hinv (mem_partly.mpr (Or.inl hb))
        have h := ih { area with pages := area.pages.insert v page } d
          (Nat.le_succ_of_le hstart) hflags hl₃ hfull₃ (htame hvalid hcov).2
        rwa [show v + (n + 1) = v + 1 + n from by omega]
    · rw [mapCreate_illegal hvalid]
      exact Aborted.dropPage (v := v) hperm₂ hframe₂ _

/-- A segment with pages and an illegal encoding of its permissions is never completed. -/
theorem mapSegmentPages_flags {bytes : List UInt8} {pteFlags dataEnd dataStart v : ℕ} {vs : List ℕ}
    {area : VMArea}
    (h : (mapSegmentPages bytes pteFlags dataEnd (v :: vs) k t area dataStart).1 = .ok ()) :
    PTE.isValidFlags pteFlags = true := by
  by_contra hvalid
  rw [mapSegmentPages] at h
  split at h
  · cases h
  split at h
  · cases h
  rw [mapCreate_illegal hvalid] at h
  cases h

/-! ### Segments -/

/-- What a stage of the loader leaves behind; `Q` is what it adds on success. -/
def LoadDone (img : KernelImage) (first : ℕ) (rest : List ℕ) (k₀ : Phys) (Q : VMSpace → Prop)
    (r : Outcome VMError Unit × Phys × VMSpace) : Prop :=
  match r.1 with
  | .ok () => Loaded img first rest k₀ r.2.1 r.2.2 ∧ Q r.2.2
  | .err _ => Aborted first rest k₀ r.2.1 r.2.2.pages
  | .panic _ => True

/-- A stage that failed adds nothing. -/
theorem LoadDone.of_failed {Q Q' : VMSpace → Prop} {r : Outcome VMError Unit × Phys × VMSpace}
    (h : LoadDone img first rest k₀ Q r) (hne : ∀ k s, r ≠ (.ok (), k, s)) :
    LoadDone img first rest k₀ Q' r := by
  obtain ⟨res, k, s⟩ := r
  cases res with
  | ok _ => exact absurd rfl (hne k s)
  | err _ => exact h
  | panic _ => trivial

/-- The flags of the entries of a segment. -/
def segmentFlags (area : VMArea) : ℕ := area.permissions ||| PTE.flagV

/-- The segment has pages that the loader can install. -/
def Fits (cov : ℕ → Bool) (area : VMArea) : Prop :=
  ∀ v, area.containVpn v = true → cov v = false ∧ PTE.isValidFlags (segmentFlags area) = true

/-- Every page that the loader reaches while it maps the segments lies in user space. -/
def TameSegments (cov : ℕ → Bool) : List ProgramHeader → Prop
  | [] => True
  | ph :: phs =>
    match ph.type with
    | .error _ => True
    | .ok .other => TameSegments cov phs
    | .ok .load => ∀ area, pageSizeBytes % ph.align.toNat = 0 → createAreaFromPh ph = some area →
        Tame cov (segmentFlags area) area.vpns ∧
          (Fits cov area → TameSegments (fun v => cov v || area.containVpn v) phs)

/-- The areas of the loadable segments, without pages. -/
def loadAreas (phs : List ProgramHeader) : List VMArea :=
  phs.filterMap fun ph =>
    match ph.type with
    | .ok .load => createAreaFromPh ph
    | _ => none

theorem getPermissions_bits (ph : ProgramHeader) : PermissionBits (getPermissionsFromPhFlags ph) := by
  unfold getPermissionsFromPhFlags PermissionBits
  cases ph.isRead <;> cases ph.isWrite <;> cases ph.isExecute <;> decide

theorem createAreaFromPh_eq {ph : ProgramHeader} {area : VMArea} (h : createAreaFromPh ph = some area) :
    area.pages = BTreeMap.new ∧ area.mapType = .anonymous ∧ PermissionBits area.permissions := by
  obtain ⟨startVpn, -, h⟩ := Option.bind_eq_some_iff.mp h
  obtain ⟨endVpn, -, rfl⟩ := Option.map_eq_some_iff.mp h
  exact ⟨rfl, rfl, getPermissions_bits ph⟩

theorem toPteFlags_segment {area : VMArea} (h : PermissionBits area.permissions) :
    toPteFlags area.permissions = .ok (segmentFlags area) := toPteFlags_of_bits h

/-- An area that contains nothing can be added. -/
theorem Loaded.push_empty {area : VMArea} (hl : Loaded img first rest k₀ k s) (hfull : Full s)
    (hpages : area.pages = BTreeMap.new) (hanon : area.mapType = .anonymous)
    (hbits : PermissionBits area.permissions) :
    Loaded img first rest k₀ k (partly s s.rootPgt area area.startVpn) ∧
      Full (partly s s.rootPgt area area.startVpn) := by
  have hnot : ∀ v, ({ area with endVpn := area.startVpn } : VMArea).containVpn v ≠ true := by
    intro v hv
    rw [VMArea.containVpn_iff] at hv
    exact absurd (lt_of_le_of_lt hv.1 hv.2) (lt_irrefl _)
  refine ⟨⟨hl.ok.push ?_ hbits ?_ ?_, ?_, hl.frame⟩, ?_, ?_⟩
  · intro v page hp
    rw [hpages] at hp
    exact absurd hp BTreeMap.not_mem_new
  · exact Or.inl ⟨hanon, fun v hv => absurd hv (hnot v)⟩
  · exact fun b _ v hv => hnot v hv.2
  · rw [pages_partly, hpages]
    simpa [pages] using hl.accounted
  · intro b hb v hv
    rcases mem_partly.mp hb with hb | rfl
    · exact hfull.page b hb v hv
    · exact absurd hv (hnot v)
  · intro b hb
    rcases mem_partly.mp hb with hb | rfl
    · exact hfull.anonymous b hb
    · exact hanon

/-- The loop has reached the end of the area. -/
theorem Loaded.complete {area : VMArea}
    (hl : Loaded img first rest k₀ k (partly s t area (area.startVpn + (area.endVpn - area.startVpn))))
    (hfull : Full (partly s t area (area.startVpn + (area.endVpn - area.startVpn)))) :
    Loaded img first rest k₀ k { s with rootPgt := t, areas := s.areas ++ [area] } ∧
      Full { s with rootPgt := t, areas := s.areas ++ [area] } := by
  have hsame : ∀ v, ({ area with endVpn := area.startVpn + (area.endVpn - area.startVpn) } :
      VMArea).containVpn v = area.containVpn v := by
    intro v
    rw [Bool.eq_iff_iff, VMArea.containVpn_iff, VMArea.containVpn_iff]
    dsimp only
    omega
  have hmem := last_mem_partly s t area (area.startVpn + (area.endVpn - area.startVpn))
  have hanon := hfull.anonymous _ hmem
  have hdis := (List.pairwise_append.mp hl.ok.agrees.disjoint).2.2
  refine ⟨⟨hl.ok.extend rfl rfl rfl (fun v hv => (hsame v) ▸ hv) ?_ ?_, ?_, hl.frame⟩, ?_, ?_⟩
  · exact Or.inl ⟨hanon, fun v hv => by
      rcases hl.ok.placement _ hmem with ⟨-, h⟩ | ⟨h, -⟩
      · exact h v ((hsame v).trans hv)
      · rw [hanon] at h
        cases h⟩
  · rintro b hb v ⟨hbv, hv⟩
    exact hdis b hb _ (List.mem_singleton_self _) v ⟨hbv, (hsame v).trans hv⟩
  · simpa [pages, partly] using hl.accounted
  · intro b hb v hv
    rcases List.mem_append.mp hb with hb | hb
    · exact hfull.page b (mem_partly.mpr (Or.inl hb)) v hv
    · obtain rfl := List.mem_singleton.mp hb
      exact hfull.page _ hmem v ((hsame v).trans hv)
  · intro b hb
    rcases List.mem_append.mp hb with hb | hb
    · exact hfull.anonymous b (mem_partly.mpr (Or.inl hb))
    · obtain rfl := List.mem_singleton.mp hb
      exact hanon

theorem Loaded.abort (hl : Loaded img first rest k₀ k s) : Aborted first rest k₀ k s.pages :=
  ⟨hl.accounted, hl.frame⟩

/-- **One segment.** -/
theorem mapUserElfSegment_spec (hrest : ∀ p ∈ img.pages, p ∈ rest)
    (hl : Loaded img first rest k₀ k s) (hfull : Full s) (bytes : List UInt8) (ph : ProgramHeader)
    (ht : ∀ area, pageSizeBytes % ph.align.toNat = 0 → createAreaFromPh ph = some area →
      Tame (covered s.areas) (segmentFlags area) area.vpns) :
    LoadDone img first rest k₀
      (fun s' => Full s' ∧ pageSizeBytes % ph.align.toNat = 0 ∧
        ∃ area pages, createAreaFromPh ph = some area ∧ Fits (covered s.areas) area ∧
          s'.areas = s.areas ++ [{ area with pages := pages }])
      (mapUserElfSegment bytes k s ph) := by
  unfold mapUserElfSegment
  dsimp only
  split
  · trivial
  split
  · exact hl.abort
  rename_i halign
  have halign : pageSizeBytes % ph.align.toNat = 0 := not_not.mp halign
  split
  · trivial
  rename_i area harea
  obtain ⟨hpages, hanon, hbits⟩ := createAreaFromPh_eq harea
  rw [toPteFlags_segment hbits]
  dsimp only
  obtain ⟨hl₀, hfull₀⟩ := hl.push_empty hfull hpages hanon hbits
  have hdone := mapSegmentPages_spec hrest bytes (segmentFlags area)
    (wrap (ph.offset.toNat + ph.fileSize.toNat)) (area.endVpn - area.startVpn) area ph.offset.toNat
    (le_refl _) rfl hl₀ hfull₀ (ht area halign harea)
  have hflags : ∀ v vs, area.vpns = v :: vs →
      (mapSegmentPages bytes (segmentFlags area) (wrap (ph.offset.toNat + ph.fileSize.toNat))
        (v :: vs) k s.rootPgt area ph.offset.toNat).1 = .ok () →
      PTE.isValidFlags (segmentFlags area) = true := fun v vs _ h => mapSegmentPages_flags h
  rw [← VMArea.vpns] at hdone
  split
  · rename_i k' t' area' hres
    rw [hres] at hdone
    obtain ⟨hl₁, hfull₁, heq⟩ := hdone
    dsimp only at hl₁ hfull₁ heq
    have hstart : area'.startVpn = area.startVpn := by rw [heq]
    have hend : area'.endVpn = area.endVpn := by rw [heq]
    rw [← hstart, ← hend] at hl₁ hfull₁
    obtain ⟨hl₂, hfull₂⟩ := Loaded.complete hl₁ hfull₁
    refine ⟨hl₂, hfull₂, halign, area, area'.pages, harea, ?_, by rw [← heq]⟩
    intro v hv
    have hv' : area'.containVpn v = true := by
      rw [heq]
      exact hv
    constructor
    · refine covered_eq_false.mpr fun b hb => ?_
      rw [← Bool.not_eq_true]
      intro hbv
      exact (List.pairwise_append.mp hl₂.ok.agrees.disjoint).2.2 b hb area'
        (List.mem_singleton_self _) v ⟨hbv, hv'⟩
    · obtain ⟨w, ws, hw⟩ := List.exists_cons_of_ne_nil
        (List.ne_nil_of_mem (VMArea.mem_vpns.mpr hv))
      refine hflags w ws hw ?_
      rw [← hw, hres]
  · rename_i e k' t' area' hres
    rw [hres] at hdone
    obtain ⟨hacc, hframe⟩ := hdone
    refine ⟨Phys.Accounted.dropPages (hacc.congr ?_), fun p hp => ?_⟩
    · rw [pages_partly]
      simp only [pages, List.append_assoc]
      exact ((List.perm_append_comm_assoc _ _ _).append_left _).trans
        (List.perm_append_comm_assoc _ _ _)
    · rw [Phys.dropPages_mem]
      exact hframe p hp
  · trivial

theorem covered_append (areas : List VMArea) (a : VMArea) (v : ℕ) :
    covered (areas ++ [a]) v = (covered areas v || a.containVpn v) := by
  simp [covered]

/-- **All segments.** -/
theorem mapSegments_spec (hrest : ∀ p ∈ img.pages, p ∈ rest) (bytes : List UInt8)
    {phs : List ProgramHeader} : ∀ {k s}, Loaded img first rest k₀ k s → Full s →
      TameSegments (covered s.areas) phs →
      LoadDone img first rest k₀
        (fun s' => Full s' ∧ s'.areas.map VMArea.bare = s.areas.map VMArea.bare ++ loadAreas phs)
        (mapSegments bytes phs k s) := by
  induction phs with
  | nil =>
    intro k s hl hfull _
    exact ⟨hl, hfull, by simp [loadAreas, mapSegments]⟩
  | cons ph phs ih =>
    intro k s hl hfull htame
    unfold mapSegments
    unfold TameSegments at htame
    split
    · exact hl.abort
    · rename_i htype
      rw [htype] at htame
      have h := ih hl hfull htame
      simpa only [loadAreas, List.filterMap_cons, htype] using h
    · rename_i htype
      rw [htype] at htame
      have hseg := mapUserElfSegment_spec hrest hl hfull bytes ph
        fun area halign harea => (htame area halign harea).1
      split
      · rename_i k₁ s₁ hres
        rw [hres] at hseg
        obtain ⟨hl₁, hfull₁, halign, area, pages, harea, hfits, hareas⟩ := hseg
        have hnext := (htame area halign harea).2 hfits
        have hcov : (fun v => covered s.areas v || area.containVpn v) = covered s₁.areas := by
          funext v
          dsimp only at hareas
          rw [hareas, covered_append]
          rfl
        rw [hcov] at hnext
        have h := ih hl₁ hfull₁ hnext
        have hbare : s₁.areas.map VMArea.bare ++ loadAreas phs =
            s.areas.map VMArea.bare ++ loadAreas (ph :: phs) := by
          have hnew : ({ area with pages := pages } : VMArea).bare = area := by
            rw [VMArea.bare, ← (createAreaFromPh_eq harea).1]
          dsimp only at hareas
          rw [hareas, List.map_append, List.map_singleton, hnew]
          simp [loadAreas, htype, harea]
        rw [hbare] at h
        exact h
      · rename_i hne
        exact hseg.of_failed hne

/-- Only the tables and the areas matter. -/
theorem SpaceOk.of_eq (hok : SpaceOk img m s) (hroot : s'.rootPgt = s.rootPgt)
    (hareas : s'.areas = s.areas) : SpaceOk img m s' := by
  obtain ⟨root, areas, _, _, _⟩ := s
  obtain ⟨root', areas', _, _, _⟩ := s'
  obtain rfl : root' = root := hroot
  obtain rfl : areas' = areas := hareas
  exact ⟨⟨hok.agrees.disjoint, hok.agrees.keys, hok.agrees.valid_iff, hok.agrees.pte_eq,
    hok.agrees.kernel_root, hok.agrees.kernel_tables⟩, hok.tables, hok.noLarge, hok.top_invalid,
    hok.permissions, hok.placement⟩

theorem Loaded.of_eq (hl : Loaded img first rest k₀ k s) (hroot : s'.rootPgt = s.rootPgt)
    (hareas : s'.areas = s.areas) : Loaded img first rest k₀ k s' := by
  refine ⟨hl.ok.of_eq hroot hareas, ?_, hl.frame⟩
  rw [pages, hroot, hareas]
  exact hl.accounted

/-- Every page that the loader reaches while it maps the file lies in user space. -/
def TameElf (elf : Elf) : Prop :=
  ∀ file, elf.parsed = .ok file → TameSegments (fun _ => false) file.headers

/-- What `map_user_elf` adds to an empty space. -/
structure HoldsElf (elf : Elf) (s : VMSpace) : Prop where
  full : Full s
  areas : ∃ file, elf.parsed = .ok file ∧ s.areas.map VMArea.bare = loadAreas file.headers ∧
    s.entryAddr = file.entryPoint.toNat

/-- **The ELF file.** -/
theorem mapUserElf_spec (hrest : ∀ p ∈ img.pages, p ∈ rest) (hl : Loaded img first rest k₀ k s)
    (hnil : s.areas = []) {elf : Elf} (htame : TameElf elf) :
    LoadDone img first rest k₀ (HoldsElf elf) (mapUserElf k s elf) := by
  have hfull : Full s := ⟨by simp [hnil], by simp [hnil]⟩
  unfold mapUserElf
  split
  · exact hl.abort
  rename_i file hparsed
  have hcov : covered s.areas = fun _ => false := by
    rw [hnil]
    rfl
  have hsegs := mapSegments_spec hrest elf.bytes hl hfull
    (hcov ▸ htame file hparsed)
  split
  · rename_i k₁ s₁ hres
    rw [hres] at hsegs
    obtain ⟨hl₁, hfull₁, hareas⟩ := hsegs
    refine ⟨hl₁.of_eq rfl rfl, ⟨hfull₁.page, hfull₁.anonymous⟩, file, hparsed, ?_, rfl⟩
    simpa [hnil] using hareas
  · rename_i hne
    exact hsegs.of_failed hne

/-! ### The two stacks -/

/-- The area of the user stack. -/
def userStackArea : VMArea :=
  VMArea.new (userEndVpn - 2048) userEndVpn .anonymous (permissionR ||| permissionW ||| permissionU)

/-- The area of the user stack with its first page. -/
def userStack (page : ℕ) : VMArea :=
  { userStackArea with pages := userStackArea.pages.insert (userEndVpn - 1) page }

/-- The virtual page number of the kernel's view of page 0. -/
def kernelBaseVpn : ℕ := kernelVaOffset / 4096

theorem kernelBaseVpn_eq : kernelBaseVpn = 4503599560261632 := rfl

/-- The area of the kernel stack in page `page`. -/
def kernelStack (page : ℕ) : VMArea where
  startVpn := page + kernelBaseVpn
  endVpn := page + kernelBaseVpn + 1
  mapType := .kernelVaOffset
  permissions := permissionR ||| permissionW
  pages := BTreeMap.new.insert (page + kernelBaseVpn) page

theorem kernelStack_contain {page v : ℕ} :
    (kernelStack page).containVpn v = true ↔ v = page + kernelBaseVpn := by
  rw [VMArea.containVpn_iff]
  show page + kernelBaseVpn ≤ v ∧ v < page + kernelBaseVpn + 1 ↔ _
  omega

/-- The last page of the user stack is free only if the whole stack is. -/
def StackFree (areas : List VMArea) : Prop :=
  covered areas (userEndVpn - 1) = false → ∀ a ∈ areas, VMArea.Apart a userStackArea

/-- **The user stack.** -/
theorem addUserStackArea_spec (hrest : ∀ p ∈ img.pages, p ∈ rest)
    (hl : Loaded img first rest k₀ k s) (hfull : Full s) (hstack : StackFree s.areas) :
    LoadDone img first rest k₀
      (fun s' => (∃ page, s'.areas = s.areas ++ [userStack page]) ∧ s'.uStackEnd = userSpaceEnd ∧
        s'.entryAddr = s.entryAddr)
      (addUserStackArea k s) := by
  have hv : userEndVpn - 1 < userEndVpn := by decide
  have hbits : PermissionBits userStackArea.permissions := by
    unfold PermissionBits
    decide
  unfold addUserStackArea
  dsimp only
  rw [show toPteFlags (permissionR ||| permissionW ||| permissionU) =
    .ok (userStackArea.permissions ||| PTE.flagV) from toPteFlags_of_bits hbits]
  dsimp only
  split
  · exact hl.abort
  rename_i page k₁ hal
  obtain ⟨hok₁, hframe₁, hperm₁⟩ := hl.fresh hrest hal rfl fun _ _ => rfl
  rw [show VPN.fromVa (userSpaceEnd - pageSizeBytes) = some (userEndVpn - 1) by decide,
    show VPN.fromVa userSpaceEnd = some userEndVpn by decide,
    show VPN.fromVa (userSpaceEnd - userStackMaxSizeBytes) = some (userEndVpn - 2048) by decide]
  dsimp only
  have hU := vpn2_lt (lt_of_lt_userEnd hv)
  have hlt : page < 2 ^ 44 := hperm₁.lt (by simp)
  split
  · rename_i e k₂ t₂ hmap
    have g := mapCreate_spec hperm₁ hok₁.tables hU hlt hmap
    have hkept := map_kept_err hok₁ hrest hv g
    exact ⟨hkept.accounted, fun p hp => (hkept.frame p hp).trans (hframe₁ p hp)⟩
  · rename_i k₂ t₂ hmap
    have g := mapCreate_spec hperm₁ hok₁.tables hU hlt hmap
    obtain ⟨-, hinv, -⟩ := g.leaf_ok rfl
    have hcov : covered s.areas (userEndVpn - 1) = false :=
      covered_eq_false.mpr fun b hb => hok₁.not_contain hfull hv hinv hb
    -- first the area without pages, then its first page
    have hpush : SpaceOk img k₁.mem { s with areas := s.areas ++ [userStackArea] } := by
      refine hok₁.push ?_ hbits (Or.inl ⟨rfl, fun v h => (VMArea.containVpn_iff.mp h).2⟩)
        (hstack hcov)
      intro v q hq
      exact absurd hq BTreeMap.not_mem_new
    have hkept : Kept img first rest k₁ { s with areas := s.areas ++ [userStackArea] } k₂
        { s with rootPgt := t₂, areas := s.areas ++ [userStack page] } := by
      refine map_kept_ok (a := userStackArea) (A := s.areas) (B := []) hpush hrest rfl hv (by decide)
        (BTreeMap.get?_eq_none.mpr fun _ => BTreeMap.not_mem_new) ?_
      simpa [userStackArea, VMArea.new] using g
    have hl₂ : Loaded img first rest k₀ k₂ _ :=
      ⟨hkept.ok, hkept.accounted, fun p hp => (hkept.frame p hp).trans (hframe₁ p hp)⟩
    exact ⟨hl₂.of_eq rfl rfl, ⟨page, rfl⟩, rfl, rfl⟩

/-- The addresses of the kernel stack in page `page`. -/
theorem kernelStackVpns_eq (h : page < memEndPpn) :
    kernelStackVpns page = some (page + kernelBaseVpn, page + kernelBaseVpn + 1) := by
  rw [memEndPpn_eq] at h
  have hpa : PPN.getPa page = page * 4096 := by
    rw [PPN.getPa, Nat.shiftLeft_eq, wrap_of_lt]
    · rfl
    · rw [pageSizeOrder]
      omega
  have hoff : kernelVaOffset = 18446743798831644672 := rfl
  rw [kernelStackVpns, kernelBaseVpn_eq, hpa, pageSizeBytes_eq, wrap_of_lt (by omega),
    wrap_of_lt (by omega), VPN.fromVa_of_kernel (by omega) (by omega),
    VPN.fromVa_of_kernel (by omega) (by omega), Option.bind_some, Option.map_some]
  congr 2 <;> omega

theorem pushKernelStack_eq (h : page < memEndPpn) (k : Phys) (s : VMSpace) :
    pushKernelStack page k s = (.ok (), k,
      { s with
        areas := s.areas ++ [kernelStack page]
        kStackEnd := (page + 1) * 4096 + kernelVaOffset }) := by
  have hvpns := kernelStackVpns_eq h
  rw [memEndPpn_eq] at h
  have hoff : kernelVaOffset = 18446743798831644672 := rfl
  have hsp : VPN.getVa (page + kernelBaseVpn + 1) = (page + 1) * 4096 + kernelVaOffset := by
    rw [VPN.getVa, Nat.shiftLeft_eq, pageSizeOrder, kernelBaseVpn_eq, wrap_of_lt] <;> omega
  rw [pushKernelStack, hvpns, Option.elim_some, ← hsp, kernelStack]
  -- the page number is large: keep it symbolic
  generalize page + kernelBaseVpn = v
  rfl

/-- **The kernel stack.** -/
theorem addKernelStackArea_spec (hl : Loaded img first rest k₀ k s)
    (hanon : ∀ a ∈ s.areas, a.mapType = .anonymous) :
    LoadDone img first rest k₀
      (fun s' => (∃ page, s'.areas = s.areas ++ [kernelStack page] ∧
          s'.kStackEnd = (page + 1) * 4096 + kernelVaOffset) ∧
        s'.uStackEnd = s.uStackEnd ∧ s'.entryAddr = s.entryAddr)
      (addKernelStackArea k s) := by
  unfold addKernelStackArea
  split
  · exact hl.abort
  rename_i page k₁ hal
  obtain ⟨hacc₁, -, hmem₁⟩ := Phys.allocPage_spec hl.accounted hal
  have hlt : page < memEndPpn := hacc₁.lt_memEnd (by simp)
  rw [pushKernelStack_eq hlt]
  have hok : SpaceOk img k₁.mem { s with areas := s.areas ++ [kernelStack page] } := by
    rw [hmem₁]
    refine hl.ok.push ?_ ?_ (Or.inr ⟨rfl, ?_, ?_⟩) ?_
    · intro v q hq
      rcases BTreeMap.mem_insert.mp hq with ⟨rfl, -⟩ | ⟨-, hq⟩
      · refine ⟨kernelStack_contain.mpr rfl, ?_⟩
        rw [userEndVpn_eq, kernelBaseVpn_eq]
        omega
      · exact absurd hq BTreeMap.not_mem_new
    · show andNot (permissionR ||| permissionW) allPermissionFlags = 0
      decide
    · show 2 ^ 26 ≤ page + kernelBaseVpn
      rw [kernelBaseVpn_eq]
      omega
    · show page + kernelBaseVpn < page + kernelBaseVpn + 1
      omega
    · rintro b hb v ⟨hbv, hv⟩
      rcases hl.ok.placement b hb with ⟨-, h⟩ | ⟨h, -⟩
      · have := h v hbv
        rw [kernelStack_contain.mp hv, userEndVpn_eq, kernelBaseVpn_eq] at this
        omega
      · rw [hanon b hb] at h
        cases h
  have hl₁ : Loaded img first rest k₀ k₁ { s with areas := s.areas ++ [kernelStack page] } := by
    refine ⟨hok, hacc₁.congr ?_, fun p hp => ?_⟩
    · have hval : (kernelStack page).pages.values = [page] := by
        simp [kernelStack, BTreeMap.values, BTreeMap.insert, BTreeMap.new]
      rw [pages, pages]
      simp only [List.flatMap_append, List.flatMap_cons, List.flatMap_nil, List.append_nil, hval,
        List.append_assoc, List.singleton_append]
      rw [← List.append_assoc, ← List.append_assoc]
      exact List.perm_middle.symm
    · rw [hmem₁]
      exact hl.frame p hp
  exact ⟨hl₁.of_eq rfl rfl, ⟨page, rfl, rfl⟩, rfl, rfl⟩

/-! ### `new_user` -/

/-- The shape of a new space. -/
structure NewSpace (elf : Elf) (s : VMSpace) : Prop where
  file : ∃ file segments, elf.parsed = .ok file ∧
    segments.map VMArea.bare = loadAreas file.headers ∧ s.entryAddr = file.entryPoint.toNat ∧
    ∃ pageU pageK, s.areas = segments ++ [userStack pageU] ++ [kernelStack pageK] ∧
      s.kStackEnd = (pageK + 1) * 4096 + kernelVaOffset
  uStackEnd : s.uStackEnd = userSpaceEnd

/-- A copy of the kernel root is an empty space in order. -/
theorem Loaded.newCopy (hrest : ∀ p ∈ img.pages, p ∈ rest) (hacc : k.Accounted first rest)
    (himg : img.Intact k.mem) (h : RootPgt.newCopy k img.root = (.ok t, k')) (e u ks : ℕ) :
    Loaded img first rest k k' ⟨t, [], e, u, ks⟩ := by
  obtain ⟨page, k₁, hal, rfl, rfl⟩ := newCopy_ok h
  obtain ⟨hacc₁, hfresh, hmem₁⟩ := Phys.allocPage_spec hacc hal
  have hroot : ∀ i, copy k₁.mem img.root page page i = k.mem img.root i := fun i => by
    simp [hmem₁]
  have hsame : ∀ p ∈ rest, copy k₁.mem img.root page p = k.mem p := fun p hp => by
    have hne : p ≠ page := fun e => hfresh (e ▸ hp)
    funext j
    simp [hmem₁, hne]
  have hempty : ∀ i, UserHalf i → PTE.SameButAD (copy k₁.mem img.root page page i) 0 := fun i hi => by
    rw [hroot, ← img.user_empty i hi]
    exact himg img.root img.root_mem i
  have hmid : ∀ i, UserHalf i → mid PTE.child (copy k₁.mem img.root page) page i = none :=
    fun i hi => (hempty i hi).child_eq
  have hpte : ∀ {v}, v < 2 ^ 26 → pteAt (copy k₁.mem img.root page) page v = 0 := fun hv => by
    rw [pteAt_user hv]
    exact leaf_bare hmid (userHalf_of_lt hv) _ _
  refine ⟨⟨⟨List.Pairwise.nil, by simp, ?_, by simp, ?_, ?_⟩, Tree.bare hmid,
    Interior.bare hmid fun hi => (hempty _ hi).isLeaf_eq, ?_, by simp, by simp⟩,
    hacc₁.of_alloc_eq rfl, hsame⟩
  · intro v hv
    rw [hpte (lt_of_lt_userEnd hv)]
    simp [Holds, PTE.isValid_iff]
  · intro i _ _
    dsimp only
    rw [hroot]
    exact himg img.root img.root_mem i
  · intro p hp j
    dsimp only
    rw [hsame p (hrest p hp)]
    exact himg p hp j
  · dsimp only
    rw [hpte (by decide)]
    rfl

/-- Only the bounds of the areas matter for the stack. -/
theorem StackFree.of_bare {areas : List VMArea} (h : StackFree (areas.map VMArea.bare)) :
    StackFree areas := by
  intro hcov a ha
  refine h (covered_eq_false.mpr fun b hb => ?_) a.bare (List.mem_map_of_mem ha)
  obtain ⟨c, hc, rfl⟩ := List.mem_map.mp hb
  exact covered_eq_false.mp hcov c hc

/-- The stages after the copy of the root. -/
theorem fillUser_spec (hrest : ∀ p ∈ img.pages, p ∈ rest) (hl : Loaded img first rest k₀ k s)
    (hnil : s.areas = []) {elf : Elf} (htame : TameElf elf)
    (hstack : ∀ file, elf.parsed = .ok file → StackFree (loadAreas file.headers)) :
    LoadDone img first rest k₀ (NewSpace elf) (fillUser k s elf) := by
  have helf := mapUserElf_spec hrest hl hnil htame
  unfold fillUser
  split
  · rename_i k₁ s₁ hres
    rw [hres] at helf
    obtain ⟨hl₁, hfull₁, file, hparsed, hareas₁, hentry₁⟩ := helf
    have hfree : StackFree s₁.areas := StackFree.of_bare (hareas₁ ▸ hstack file hparsed)
    have hu := addUserStackArea_spec hrest hl₁ hfull₁ hfree
    split
    · rename_i k₂ s₂ hres₂
      rw [hres₂] at hu
      obtain ⟨hl₂, ⟨pageU, hareas₂⟩, hend₂, hentry₂⟩ := hu
      dsimp only at hareas₂ hend₂ hentry₂
      have hanon : ∀ a ∈ s₂.areas, a.mapType = .anonymous := by
        intro a ha
        rw [hareas₂] at ha
        rcases List.mem_append.mp ha with ha | ha
        · exact hfull₁.anonymous a ha
        · obtain rfl := List.mem_singleton.mp ha
          rfl
      have hk := addKernelStackArea_spec hl₂ hanon
      generalize addKernelStackArea k₂ s₂ = r at hk
      obtain ⟨res, k₃, s₃⟩ := r
      cases res with
      | ok _ =>
        obtain ⟨hl₃, ⟨pageK, hareas₃, hend₃⟩, huend₃, hentry₃⟩ := hk
        refine ⟨hl₃, ⟨file, s₁.areas, hparsed, hareas₁, ?_, pageU, pageK, ?_, hend₃⟩, ?_⟩
        · exact (hentry₃.trans hentry₂).trans hentry₁
        · rw [← hareas₂]
          exact hareas₃
        · exact huend₃.trans hend₂
      | err _ => exact hk
      | panic _ => trivial
    · rename_i hne
      exact hu.of_failed hne
  · rename_i hne
    exact helf.of_failed hne

/-- **`VMSpace::new_user`.**  On success the new space is in order; on an error every page is
given back; in both cases the pages of the other owners are as they were. -/
theorem newUser_spec (hrest : ∀ p ∈ img.pages, p ∈ rest) (hacc : k.Accounted first rest)
    (himg : img.Intact k.mem) {elf : Elf} (htame : TameElf elf)
    (hstack : ∀ file, elf.parsed = .ok file → StackFree (loadAreas file.headers)) :
    match newUser k img.root elf with
    | (.ok s, k') => Loaded img first rest k k' s ∧ NewSpace elf s
    | (.err _, k') => k'.Accounted first rest ∧ ∀ p ∈ rest, k'.mem p = k.mem p
    | (.panic _, _) => True := by
  unfold newUser
  cases hcopy : RootPgt.newCopy k img.root with
  | mk res k₁ =>
    cases res with
    | error e =>
      rw [newCopy_error hcopy]
      exact ⟨hacc, fun _ _ => rfl⟩
    | ok t =>
      have hl := Loaded.newCopy hrest hacc himg hcopy 0 0 0
      have hfill := fillUser_spec hrest hl rfl htame hstack
      dsimp only
      generalize fillUser k₁ ⟨t, [], 0, 0, 0⟩ elf = r at hfill
      obtain ⟨res, k₂, s₂⟩ := r
      cases res with
      | ok _ => exact hfill
      | err _ =>
        refine ⟨Phys.Accounted.dropPages hfill.accounted, fun p hp => ?_⟩
        rw [VMSpace.drop, Phys.dropPages_mem]
        exact hfill.frame p hp
      | panic _ => trivial

end VMSpace

end RCoreKernel.Mm
