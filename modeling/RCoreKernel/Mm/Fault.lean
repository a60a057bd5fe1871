import RCoreKernel.Mm.MapFailure

/-!
# When a page fault can be served

`map_fault_page` needs one page for the data and one for each table that is missing on the path
of the faulting page number.  Everything else it needs is decided before: the area, its
permissions, and whether they make a legal entry.

* `mapCreate_ok_iff` — `map_create` succeeds exactly when the missing tables can be allocated;
* `map_ok_iff` — **the same for `VMSpace::map`, with all its conditions**;
* `MapTried.faulted` — what a successful `map` leaves behind: the page is readable with the
  permissions of its area, it is zero, and nothing else has changed.
-/

namespace RCoreKernel.Mm

open Radix

namespace RootPgt

/-- The number of tables that are missing on the path of `vpn`. -/
def missingTables (m : Mem) (root vpn : ℕ) : ℕ :=
  match mid PTE.child m root (parseVpn vpn).vpn2 with
  | none => 2
  | some p => if PTE.child (m p (parseVpn vpn).vpn1) = none then 1 else 0

variable {U : ℕ → Prop} {first vpn ppn pteFlags : ℕ} {rest : List ℕ} {k : Phys} {t : RootPgt}
  {table idx p : ℕ}

theorem descend_of_child (h : PTE.child (k.mem table idx) = some p)
    (hl : PTE.isLeaf (k.mem table idx) = false) :
    descend k t vpn ppn table idx = (.ok p, k, t) := by
  obtain ⟨hv, hp⟩ : PTE.isValid (k.mem table idx) = true ∧ PTE.getPpn (k.mem table idx) = p := by
    unfold PTE.child at h
    split at h
    · rename_i hc
      rw [Bool.and_eq_true] at hc
      exact ⟨hc.1, Option.some.inj h⟩
    · cases h
  rw [descend_of_valid hv, if_neg (by simp [hl]), hp]

theorem not_valid_of_no_child {w : ℕ} (h : PTE.child w = none) (hl : PTE.isLeaf w = false) :
    PTE.isValid w = false := by
  rw [← Bool.not_eq_true]
  intro hv
  rw [PTE.child_of_valid hv hl] at h
  cases h

theorem descend_exhausted (hv : PTE.isValid (k.mem table idx) = false) (ha : k.available = 0) :
    descend k t vpn ppn table idx = (.error .acquirePageFailed, k, t) := by
  rw [descend]
  simp only [hv, Bool.false_eq_true, if_false, Phys.allocZeroedPage_eq_none.mpr ha]

/-- A new table is empty and takes one page. -/
theorem descend_new (hacc : k.Accounted first (t.pages ++ rest)) (vpn ppn : ℕ) (htab : table ∈ t.pages)
    (hv : PTE.isValid (k.mem table idx) = false) (ha : 0 < k.available) :
    ∃ p k' t', descend k t vpn ppn table idx = (.ok p, k', t') ∧ k'.available + 1 = k.available ∧
      ∀ j, k'.mem p j = 0 := by
  obtain ⟨page, k₁, hal, hav⟩ := Phys.allocZeroedPage_of_available ha
  obtain ⟨hacc₁, hfresh, hmem⟩ := Phys.allocZeroedPage_spec hacc hal
  have hlt := hacc₁.lt (List.mem_cons_self (a := page))
  have hppn : PTE.getPpn (page * 1024 + 1) = page := by
    rw [PTE.getPpn_eq]
    omega
  have hne : page ≠ table := fun e => hfresh (List.mem_append_left _ (e ▸ htab))
  refine ⟨page, { k₁ with mem := put k₁.mem table idx (page * 1024 + 1) },
    { t with pages := t.pages ++ [page] }, ?_, hav, fun j => ?_⟩
  · rw [descend]
    simp only [hv, Bool.false_eq_true, if_false, hal, PTE.new_pointer hlt, put_apply, and_self,
      if_true, PTE.not_isLeaf_pointer, hppn]
  · simp [put_apply, hne, hmem]

theorem mapCreate_of_descend_error {e : PgtError} {k₁ : Phys} {t₁ : RootPgt}
    (hflags : PTE.isValidFlags pteFlags = true)
    (h : descend k t vpn ppn t.ppn (parseVpn vpn).vpn2 = (.error e, k₁, t₁)) :
    mapCreate k t vpn ppn pteFlags = (.error e, k₁, t₁) := by
  rw [mapCreate, PTE.new, if_pos hflags]
  dsimp only
  rw [h]

theorem mapCreate_of_descend_error₂ {e : PgtError} {table1 : ℕ} {k₁ k₂ : Phys} {t₁ t₂ : RootPgt}
    (hflags : PTE.isValidFlags pteFlags = true)
    (h₁ : descend k t vpn ppn t.ppn (parseVpn vpn).vpn2 = (.ok table1, k₁, t₁))
    (h₂ : descend k₁ t₁ vpn ppn table1 (parseVpn vpn).vpn1 = (.error e, k₂, t₂)) :
    mapCreate k t vpn ppn pteFlags = (.error e, k₂, t₂) := by
  rw [mapCreate, PTE.new, if_pos hflags]
  dsimp only
  rw [h₁]
  dsimp only
  rw [h₂]

/-- **`map_create` on a page number without a valid entry.** -/
theorem mapCreate_ok_iff (hacc : k.Accounted first (t.pages ++ rest)) (ht : Tables U k t)
    (hU : U (parseVpn vpn).vpn2) (hn : NoLarge U k t)
    (hinv : PTE.isValid (pteAt k.mem t.ppn vpn) = false) :
    (mapCreate k t vpn ppn pteFlags).1 = .ok () ↔
      PTE.isValidFlags pteFlags = true ∧ missingTables k.mem t.ppn vpn ≤ k.available := by
  by_cases hflags : PTE.isValidFlags pteFlags = true
  swap
  · rw [mapCreate_illegal hflags]
    simp [hflags]
  rw [and_iff_right hflags]
  unfold missingTables
  have hl₁ := hn.top hU
  cases hmid : mid PTE.child k.mem t.ppn (parseVpn vpn).vpn2 with
  | none =>
    -- both tables are missing
    have hv₁ := not_valid_of_no_child hmid hl₁
    dsimp only
    by_cases ha : k.available = 0
    · rw [mapCreate_of_descend_error hflags (descend_exhausted hv₁ ha), ha]
      simp
    obtain ⟨table1, k₁, t₁, h₁, hav₁, hzero⟩ :=
      descend_new hacc vpn ppn ht.root_mem hv₁ (Nat.pos_of_ne_zero ha)
    obtain ⟨g₁, hmid₁⟩ := descend_root hacc ht h₁
    have hmem₁ := (g₁.tables.mid_mem hU (hmid₁ _ rfl)).1
    have hv₂ : PTE.isValid (k₁.mem table1 (parseVpn vpn).vpn1) = false := by
      rw [hzero]
      rfl
    by_cases ha₁ : k₁.available = 0
    · rw [mapCreate_of_descend_error₂ hflags h₁ (descend_exhausted hv₂ ha₁)]
      simp only [reduceCtorEq, false_iff]
      omega
    obtain ⟨table0, k₂, t₂, h₂, hav₂, -⟩ :=
      descend_new g₁.accounted vpn ppn hmem₁ hv₂ (Nat.pos_of_ne_zero ha₁)
    rw [mapCreate_of_descend hacc ht hU hflags hinv h₁ h₂]
    simp only [true_iff]
    omega
  | some table1 =>
    have h₁ : descend k t vpn ppn t.ppn (parseVpn vpn).vpn2 = (.ok table1, k, t) :=
      descend_of_child hmid hl₁
    have hl₂ := hn.inner hU hmid (parseVpn vpn).vpn1
    have hmem₁ := (ht.mid_mem hU hmid).1
    dsimp only
    cases hc : PTE.child (k.mem table1 (parseVpn vpn).vpn1) with
    | none =>
      have hv₂ := not_valid_of_no_child hc hl₂
      rw [if_pos rfl]
      by_cases ha : k.available = 0
      · rw [mapCreate_of_descend_error₂ hflags h₁ (descend_exhausted hv₂ ha), ha]
        simp
      obtain ⟨table0, k₂, t₂, h₂, -, -⟩ :=
        descend_new hacc vpn ppn hmem₁ hv₂ (Nat.pos_of_ne_zero ha)
      rw [mapCreate_of_descend hacc ht hU hflags hinv h₁ h₂]
      simp only [true_iff]
      omega
    | some table0 =>
      rw [mapCreate_of_descend hacc ht hU hflags hinv h₁ (descend_of_child hc hl₂)]
      simp

end RootPgt

namespace VMSpace

open RootPgt

variable {img : KernelImage} {first vpn minPermissions page : ℕ} {rest : List ℕ} {k k' k₁ k₂ : Phys}
  {s s' : VMSpace} {a : VMArea} {A B : List VMArea} {t₂ : RootPgt}

/-- The conditions for serving a fault: an area that grants the permissions, a legal entry, and
pages for the data and for the missing tables. -/
def Servable (k : Phys) (s : VMSpace) (vpn minPermissions : ℕ) : Prop :=
  ∃ a ∈ s.areas, a.containVpn vpn = true ∧ minPermissions &&& a.permissions = minPermissions ∧
    PTE.isValidFlags (a.permissions ||| PTE.flagV) = true ∧
    1 + missingTables k.mem s.rootPgt.ppn vpn ≤ k.available

theorem MapTried.available {res : Except PgtError Unit}
    (ht : MapTried img first rest k s vpn minPermissions A B a page k₁ res k₂ t₂) :
    k₁.available + 1 = k.available := by
  have hpos : 0 < k.available := by
    by_contra h
    have hnone := Phys.allocZeroedPage_eq_none.mpr (Nat.eq_zero_of_not_pos h)
    rw [ht.alloc] at hnone
    cases hnone
  obtain ⟨page', k₁', hal, hav⟩ := Phys.allocZeroedPage_of_available hpos
  rw [ht.alloc] at hal
  obtain ⟨-, rfl⟩ := Prod.mk.inj (Option.some.inj hal)
  exact hav

/-- The new page is in none of the tables, so the same tables are missing. -/
theorem MapTried.missingTables_eq {res : Except PgtError Unit} (hok : SpaceOk img k.mem s)
    (hv : vpn < userEndVpn)
    (ht : MapTried img first rest k s vpn minPermissions A B a page k₁ res k₂ t₂) :
    missingTables k₁.mem s.rootPgt.ppn vpn = missingTables k.mem s.rootPgt.ppn vpn := by
  have hsame : ∀ p ∈ s.rootPgt.pages, k₁.mem p = k.mem p := fun p hp =>
    ht.mem_eq p (List.mem_append_left rest (mem_pages_of_table hp))
  have hmid : mid PTE.child k₁.mem s.rootPgt.ppn (parseVpn vpn).vpn2 =
      mid PTE.child k.mem s.rootPgt.ppn (parseVpn vpn).vpn2 := by
    rw [mid, mid, hsame _ hok.tables.root_mem]
  unfold missingTables
  rw [hmid]
  cases hc : mid PTE.child k.mem s.rootPgt.ppn (parseVpn vpn).vpn2 with
  | none => rfl
  | some p =>
    dsimp only
    rw [hsame p (hok.tables.mid_mem (vpn2_lt (lt_of_lt_userEnd hv)) hc).1]

/-- **`VMSpace::map` on a user page without a valid entry succeeds exactly under its conditions.** -/
theorem map_ok_iff (hok : SpaceOk img k.mem s) (hacc : k.Accounted first (s.pages ++ rest))
    (hrest : ∀ p ∈ img.pages, p ∈ rest) (hv : vpn < userEndVpn)
    (hinv : PTE.isValid (pteAt k.mem s.rootPgt.ppn vpn) = false) (minPermissions : ℕ) :
    (map k s vpn minPermissions).1 = .ok () ↔ Servable k s vpn minPermissions := by
  obtain ⟨res, k', s', h⟩ : ∃ res k' s', map k s vpn minPermissions = (res, k', s') :=
    ⟨_, _, _, rfl⟩
  rw [h]
  rcases map_cases hok hacc hrest hv hinv h with ⟨⟨e, rfl⟩, rfl, rfl, hrefused⟩ |
    ⟨A, B, a, page, k₁, r, k₂, t₂, ht, hres⟩
  · -- refused: one of the conditions fails
    simp only [reduceCtorEq, false_iff]
    rintro ⟨a, ha, hav, hgrants, -, havail⟩
    rcases hrefused with hnone | ⟨b, hfind, hdenied⟩
    · exact absurd hav (by simpa using List.find?_eq_none.mp hnone a ha)
    · obtain ⟨A, B, hs, hbv, -⟩ := Vec.find?_split hfind
      obtain rfl := hok.agrees.area_unique ha (by simp [hs]) hav hbv
      rcases hdenied with hdenied | hal
      · exact hdenied hgrants
      · rw [Phys.allocZeroedPage_eq_none.mp hal] at havail
        omega
  · have ha : a ∈ s.areas := by simp [ht.areas_eq]
    have hacc₁ : k₁.Accounted first
        (s.rootPgt.pages ++ (page :: (s.areas.flatMap (fun a => a.pages.values) ++ rest))) := by
      obtain ⟨hacc₁, -, -⟩ := Phys.allocZeroedPage_spec hacc ht.alloc
      refine hacc₁.congr ?_
      simp only [pages, List.append_assoc]
      exact List.perm_middle.symm
    have hinv₁ : PTE.isValid (pteAt k₁.mem s.rootPgt.ppn vpn) = false := by
      rw [(ht.walk_eq hok hacc hrest (lt_of_lt_userEnd hv)).2]
      exact hinv
    have hiff : r = .ok () ↔ PTE.isValidFlags (a.permissions ||| PTE.flagV) = true ∧
        missingTables k.mem s.rootPgt.ppn vpn ≤ k₁.available := by
      have h0 : (mapCreate k₁ s.rootPgt vpn page (a.permissions ||| PTE.flagV)).1 = .ok () ↔ _ :=
        mapCreate_ok_iff hacc₁ ht.ok.tables (vpn2_lt (lt_of_lt_userEnd hv)) ht.ok.noLarge hinv₁
      rwa [ht.create, ht.missingTables_eq hok hv] at h0
    have hres' : res = .ok () ↔ r = .ok () := by
      rcases hres with ⟨rfl, rfl, -⟩ | ⟨e, rfl, rfl, -⟩ <;> simp
    have hav := ht.available
    rw [hres', hiff]
    constructor
    · rintro ⟨hflags, hroom⟩
      exact ⟨a, ha, ht.contains, ht.grants, hflags, by omega⟩
    · rintro ⟨b, hb, hbv, -, hflags, hroom⟩
      obtain rfl := hok.agrees.area_unique ha hb ht.contains hbv
      exact ⟨hflags, by omega⟩

/-! ### After a fault was served -/

/-- What a served fault leaves behind. -/
structure Faulted (rest : List ℕ) (vpn minPermissions : ℕ) (k : Phys) (s : VMSpace) (k' : Phys)
    (s' : VMSpace) : Prop where
  root_eq : s'.rootPgt.ppn = s.rootPgt.ppn
  mapped : ∃ page flags, translate k'.mem s'.rootPgt.ppn vpn = some (page, flags) ∧
    PTE.isValid flags = true ∧ minPermissions &&& flags = minPermissions ∧
    (∀ j, k'.mem page j = 0) ∧ page ∉ s.pages ++ rest
  others : ∀ v, Canonical v → v ≠ vpn →
    translate k'.mem s'.rootPgt.ppn v = translate k.mem s.rootPgt.ppn v
  contents : ∀ p ∈ s.areas.flatMap (fun a => a.pages.values) ++ rest, k'.mem p = k.mem p
  regular : RegularUser k'.mem s'.rootPgt.ppn

theorem or_land_self (a b : ℕ) : a ||| (a &&& b) = a := by
  apply Nat.eq_of_testBit_eq
  intro i
  simp only [Nat.testBit_or, Nat.testBit_and]
  cases a.testBit i <;> simp

/-- A bit of the smaller set is one of the larger. -/
theorem bit_of_land_eq {a b : ℕ} (h : a &&& b = a) (i : ℕ) (ha : a / 2 ^ i % 2 = 1) :
    b / 2 ^ i % 2 = 1 := by
  have hbit : a.testBit i = true := by
    rw [Nat.testBit_eq_decide_div_mod_eq, decide_eq_true_eq]
    exact ha
  rw [← h, Nat.testBit_and, Bool.and_eq_true, Nat.testBit_eq_decide_div_mod_eq,
    Nat.testBit_eq_decide_div_mod_eq, decide_eq_true_eq, decide_eq_true_eq] at hbit
  exact hbit.2

/-- A legal leaf entry is decoded as it was made. -/
theorem decode_leaf {flags : ℕ} (hflags : PTE.isValidFlags flags = true) (hlt : flags < 1024)
    (hleaf : flags / 2 % 2 = 1 ∨ flags / 8 % 2 = 1) (hpage : page < 2 ^ 44) (b c : ℕ) :
    decode b c (.leaf (page * 1024 + flags)) = some (page, flags) := by
  have hv := PTE.isValidFlags_iff.mp hflags
  have hk : PTE.kind (page * 1024 + flags) = .leaf := by
    rw [PTE.kind_eq, if_neg (by omega), if_pos (by omega)]
  rw [decode, if_pos hk, PTE.getPpn_eq]
  congr 2
  · omega
  · omega

/-- **A served fault**: the access can be repeated, the page is zero, and nothing else changed. -/
theorem MapTried.faulted (hok : SpaceOk img k.mem s) (hacc : k.Accounted first (s.pages ++ rest))
    (hrest : ∀ p ∈ img.pages, p ∈ rest) (hv : vpn < userEndVpn)
    (hreg : RegularUser k.mem s.rootPgt.ppn)
    (hread : minPermissions / 2 % 2 = 1 ∨ minPermissions / 4 % 2 = 1)
    (ht : MapTried img first rest k s vpn minPermissions A B a page k₁ (.ok ()) k₂ t₂) :
    Faulted rest vpn minPermissions k s k₂ { s with
      rootPgt := t₂, areas := A ++ { a with pages := a.pages.insert vpn page } :: B } := by
  obtain ⟨hreg₁, hreg₂⟩ := ht.regular hok hreg
  obtain ⟨hacc₁, hfresh, hmem₁⟩ := Phys.allocZeroedPage_spec hacc ht.alloc
  have ha : a ∈ s.areas := by simp [ht.areas_eq]
  have hU : UserHalf (parseVpn vpn).vpn2 := vpn2_lt (lt_of_lt_userEnd hv)
  obtain ⟨hflags, -, -⟩ := ht.mapped.leaf_ok rfl
  have hgrants : minPermissions &&& (a.permissions ||| PTE.flagV) = minPermissions := by
    rw [Nat.and_or_distrib_left, ht.grants]
    exact or_land_self _ _
  have hvf := PTE.isValidFlags_iff.mp hflags
  have hleaf : (a.permissions ||| PTE.flagV) / 2 % 2 = 1 := by
    rcases hread with hR | hW
    · exact bit_of_land_eq hgrants 1 hR
    · have := bit_of_land_eq hgrants 2 hW
      omega
  refine ⟨ht.mapped.ppn_eq, ⟨page, a.permissions ||| PTE.flagV, ?_, ?_, hgrants, ?_, hfresh⟩, ?_, ?_,
    hreg₂⟩
  · show translate k₂.mem t₂.ppn vpn = _
    rw [translate, walk, path_hwChild hreg₂ hU, ht.mapped.ppn_eq, ht.mapped.path_ok rfl]
    exact decode_leaf hflags hvf.1 (Or.inl hleaf) (hacc₁.lt List.mem_cons_self) _ _
  · rw [PTE.isValid_iff]
    exact hvf.2.1
  · intro j
    rw [ht.mapped.frame_rest List.mem_cons_self, hmem₁]
    simp
  · intro v hcan hne
    rcases hcan.lt with hlt | hge
    · exact ht.translate_user hok hacc hrest hv hreg hlt fun _ => hne
    · show translate k₂.mem t₂.ppn v = _
      rw [ht.mapped.ppn_eq, translate, translate,
        ht.walk_kernel hok hacc hrest hv (UserTable.vpn2_kernel hge)]
  · intro p hp
    rw [ht.mapped.frame_rest (List.mem_cons_of_mem _ hp)]
    refine ht.mem_eq p ?_
    rw [pages, List.append_assoc]
    exact List.mem_append_right _ hp

end VMSpace

end RCoreKernel.Mm
