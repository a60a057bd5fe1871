import RCoreKernel.Mm.Demand
import RCoreKernel.Mm.Peek
import RCoreKernel.Syscall.Isolation

/-!
# Accesses to a range of user memory

An access to user memory finds its page there, has it faulted in, or is refused.  Along a range the
pages are faulted in one after the other, and what each fault needs is decided by the state before
the first.

* `fault_reached` — one access that faults;
* `Progress` — how far a range has been accessed, relative to the state at its start;
* `Progress.reached`, `Progress.refused` — **the next access succeeds exactly when its page can be
  accessed, judged by the state at the start**.
-/

namespace RCoreKernel.Syscall

open Mm Mm.VMSpace Mm.RootPgt Radix

/-- A space whose pages are accounted for, beside those in `rest`, with tables the hardware reads as
the kernel does. -/
structure Tidy (img : KernelImage) (first : ℕ) (rest : List ℕ) (k : Phys) (s : VMSpace) : Prop where
  ok : SpaceOk img k.mem s
  regular : RegularUser k.mem s.rootPgt.ppn
  accounted : k.Accounted first (s.pages ++ rest)
  kernel : ∀ p ∈ img.pages, p ∈ rest

variable {img : KernelImage} {first : ℕ} {rest : List ℕ} {k k₀ k' : Phys} {s s₀ s' : VMSpace}
  {access : Access} {va u i : ℕ}

theorem Tidy.of_viewed {view' : View} (h : Tidy img first rest k s)
    (hv : Viewed img first rest k s k' s' view') : Tidy img first rest k' s' :=
  ⟨hv.kept.ok, hv.regular h.regular, hv.kept.accounted, h.kernel⟩

/-- An area with the page number grants the permissions. -/
def Granted (s : VMSpace) (vpn minPermissions : ℕ) : Prop :=
  ∃ a ∈ s.areas, a.containVpn vpn = true ∧ minPermissions &&& a.permissions = minPermissions

/-- What the areas say about a page number. -/
def bounds (a : VMArea) : ℕ × ℕ × ℕ := (a.startVpn, a.endVpn, a.permissions)

theorem minPermissions_lt (access : Access) : access.minPermissions < 2 ^ 6 := by
  cases access <;> decide

/-- An area is found again by its bounds. -/
theorem area_of_bounds (hb : s'.areas.map bounds = s.areas.map bounds) {a : VMArea}
    (ha : a ∈ s.areas) : ∃ b ∈ s'.areas, b.permissions = a.permissions ∧
      ∀ v, b.containVpn v = a.containVpn v := by
  have hmem : bounds a ∈ s'.areas.map bounds := by
    rw [hb]
    exact List.mem_map_of_mem ha
  obtain ⟨b, hbmem, he⟩ := List.mem_map.mp hmem
  simp only [bounds, Prod.mk.injEq] at he
  exact ⟨b, hbmem, he.2.2, fun v => by simp only [VMArea.containVpn, he.1, he.2.1]⟩

/-- The entry of a page that is there has the permission bits of its area. -/
theorem land_iff_granted (hok : SpaceOk img k.mem s) {v mask : ℕ} (hv : v < userEndVpn)
    (hval : PTE.isValid (pteAt k.mem s.rootPgt.ppn v) = true) (hmask : mask < 2 ^ 6)
    (hflag : PTE.flagV &&& mask = 0) :
    pteAt k.mem s.rootPgt.ppn v &&& mask = mask ↔ Granted s v mask := by
  obtain ⟨page, a, ha, hav, hmem⟩ := (hok.agrees.valid_iff _ hv).mp hval
  have hpte := hok.agrees.pte_eq _ hv a ha page hav hmem
  constructor
  · intro hland
    refine ⟨a, ha, hav, ?_⟩
    have hlow : pteAt k.mem s.rootPgt.ppn v % 2 ^ 6 = (a.permissions ||| PTE.flagV) % 2 ^ 6 := by
      have := hpte.2
      omega
    calc mask &&& a.permissions
        = (a.permissions ||| PTE.flagV) &&& mask := by
          rw [Nat.and_or_distrib_right, hflag, Nat.or_zero, Nat.and_comm]
      _ = ((a.permissions ||| PTE.flagV) &&& mask) % 2 ^ 6 :=
          (Nat.mod_eq_of_lt (lt_of_le_of_lt Nat.and_le_right hmask)).symm
      _ = (pteAt k.mem s.rootPgt.ppn v &&& mask) % 2 ^ 6 := by
          rw [Nat.and_mod_two_pow, ← hlow, ← Nat.and_mod_two_pow]
      _ = mask := by rw [hland, Nat.mod_eq_of_lt hmask]
  · rintro ⟨b, hb, hbv, hgrants⟩
    obtain rfl := hok.agrees.area_unique ha hb hav hbv
    exact land_of_sameButAD hpte hgrants hmask

/-- A page that is there can be accessed exactly when its area grants the permissions. -/
theorem permits_iff_granted (hok : SpaceOk img k.mem s) (hv : va / 4096 < userEndVpn)
    (hval : PTE.isValid (pteAt k.mem s.rootPgt.ppn (va / 4096)) = true) :
    Permits k.mem s.rootPgt.ppn va access ↔ Granted s (va / 4096) access.minPermissions := by
  have hflag : PTE.flagV &&& access.minPermissions = 0 := by cases access <;> decide
  rw [← land_iff_granted hok hv hval (minPermissions_lt access) hflag]
  exact ⟨fun h => h.2, fun h => ⟨hval, h⟩⟩

/-- The entries of a space are in its tables. -/
theorem pteAt_tables (hok : SpaceOk img k.mem s)
    (htables : ∀ p ∈ s.rootPgt.pages, k'.mem p = k.mem p) {v : ℕ} (hv : v < userEndVpn) :
    pteAt k'.mem s.rootPgt.ppn v = pteAt k.mem s.rootPgt.ppn v :=
  hok.tables.leaf_rel rfl (fun j _ => by rw [htables _ hok.tables.root_mem])
    (fun p hp _ j => by rw [htables p hp]; exact ⟨rfl, rfl⟩) (vpn2_lt (lt_of_lt_userEnd hv)) _ _

/-- A store to a page of the space. -/
theorem Tidy.stored (h : Tidy img first rest k s) (hv : va / 4096 < userEndVpn)
    (hval : PTE.isValid (pteAt k.mem s.rootPgt.ppn (va / 4096)) = true) (byte : ℕ) :
    Tidy img first rest
        { k with mem := storeByte k.mem (pageAt ⟨k, s⟩ va) (va % 4096) byte } s ∧
      Kept img first rest k s
        { k with mem := storeByte k.mem (pageAt ⟨k, s⟩ va) (va % 4096) byte } s ∧
      ∀ p ∈ s.rootPgt.pages,
        storeByte k.mem (pageAt ⟨k, s⟩ va) (va % 4096) byte p = k.mem p := by
  have hheld := pageAt_held h.ok h.accounted hv hval
  obtain ⟨hkept, hreg⟩ := store_kept h.ok h.regular h.accounted h.kernel hv hheld (va % 4096) byte
  refine ⟨⟨hkept.ok, hreg, hkept.accounted, h.kernel⟩, hkept, fun p hp => ?_⟩
  obtain ⟨a, ha, -, hmem⟩ := hheld
  have hnot := not_table h.accounted ha (BTreeMap.mem_values.mpr ⟨_, hmem⟩)
  refine storeByte_of_ne ?_ _ _
  rintro rfl
  exact hnot hp

theorem vpn_lt_of_check (hva : checkUVa va = true) : va / 4096 < userEndVpn := by
  rw [checkUVa_iff] at hva
  rw [userEndVpn_eq]
  omega

/-! ### One access -/

/-- `map_fault_page` has mapped the page. -/
structure FaultServed (img : KernelImage) (first : ℕ) (rest : List ℕ) (access : Access) (va : ℕ)
    (k : Phys) (s : VMSpace) (k' : Phys) (s' : VMSpace) : Prop where
  invalid : PTE.isValid (pteAt k.mem s.rootPgt.ppn (va / 4096)) = false
  permits : Permits k'.mem s'.rootPgt.ppn va access
  legal : ∃ a ∈ s.areas, a.containVpn (va / 4096) = true ∧
    access.minPermissions &&& a.permissions = access.minPermissions ∧
    PTE.isValidFlags (a.permissions ||| PTE.flagV) = true
  bounds_eq : s'.areas.map bounds = s.areas.map bounds
  valid_iff : ∀ v < userEndVpn, PTE.isValid (pteAt k'.mem s'.rootPgt.ppn v) = true ↔
    PTE.isValid (pteAt k.mem s.rootPgt.ppn v) = true ∨ v = va / 4096
  demand : ∀ vpns : Finset ℕ, va / 4096 ∈ vpns → (∀ v ∈ vpns, v < userEndVpn) →
    demand k'.mem s'.rootPgt.ppn (vpns.erase (va / 4096)) + k.available =
      demand k.mem s.rootPgt.ppn vpns + k'.available
  kept : Kept img first rest k s k' s'
  view_eq : s'.view k'.mem = (s.view k.mem).fault (va / 4096) access.minPermissions

/-- The access is refused for good: no area grants it, or the page cannot be mapped. -/
def FaultRefused (access : Access) (va : ℕ) (k : Phys) (s : VMSpace) : Prop :=
  ¬Granted s (va / 4096) access.minPermissions ∨
    PTE.isValid (pteAt k.mem s.rootPgt.ppn (va / 4096)) = false ∧
      ¬Servable k s (va / 4096) access.minPermissions

/-- A served `map`, as the range sees it. -/
theorem served_of_tried {page : ℕ} {A B : List VMArea} {a : VMArea} {k₁ k₂ : Phys} {t₂ : RootPgt}
    (h : Tidy img first rest k s) (hv : va / 4096 < userEndVpn)
    (hinv : PTE.isValid (pteAt k.mem s.rootPgt.ppn (va / 4096)) = false)
    (ht : MapTried img first rest k s (va / 4096) access.minPermissions A B a page k₁ (.ok ()) k₂ t₂)
    (hkept : Kept img first rest k s k₂ { s with
      rootPgt := t₂, areas := A ++ { a with pages := a.pages.insert (va / 4096) page } :: B }) :
    FaultServed img first rest access va k s k₂ { s with
      rootPgt := t₂, areas := A ++ { a with pages := a.pages.insert (va / 4096) page } :: B } := by
  obtain ⟨hflags, -, hleaf⟩ := ht.mapped.leaf_ok rfl
  have hpte : ∀ v < userEndVpn, pteAt k₂.mem t₂.ppn v =
      if v = va / 4096 then page * 1024 + (a.permissions ||| PTE.flagV)
      else pteAt k.mem s.rootPgt.ppn v := by
    intro v hlt
    have h26 := lt_of_lt_userEnd hlt
    have hva26 := lt_of_lt_userEnd hv
    rw [ht.mapped.ppn_eq, pteAt, hleaf (vpn2_lt h26), parseVpn_user h26, parseVpn_user hva26]
    by_cases he : v = va / 4096
    · rw [if_pos he, if_pos ⟨by rw [he], by rw [he], by rw [he]⟩]
    · rw [if_neg he, if_neg (by dsimp only; omega), ← (ht.walk_eq h.ok h.accounted h.kernel h26).2,
        pteAt, parseVpn_user h26]
  have hvalid : PTE.isValid (page * 1024 + (a.permissions ||| PTE.flagV)) = true := by
    rw [PTE.isValid_iff]
    have := (PTE.isValidFlags_iff.mp hflags).2.1
    omega
  refine ⟨hinv, ⟨?_, ?_⟩, ⟨a, by simp [ht.areas_eq], ht.contains, ht.grants, hflags⟩, ?_, ?_, ?_, hkept,
    ht.view_eq h.ok h.accounted hv⟩
  · show PTE.isValid (pteAt k₂.mem t₂.ppn (va / 4096)) = true
    rw [hpte _ hv, if_pos rfl]
    exact hvalid
  · have hsame : PTE.SameButAD (pteAt k₂.mem t₂.ppn (va / 4096))
        (page * 1024 + (a.permissions ||| PTE.flagV)) := by
      rw [hpte _ hv, if_pos rfl]
      exact .refl _
    exact land_of_sameButAD hsame ht.grants (minPermissions_lt access)
  · rw [ht.areas_eq, List.map_append, List.map_append, List.map_cons, List.map_cons]
    rfl
  · intro v hlt
    dsimp only
    rw [hpte v hlt]
    by_cases he : v = va / 4096
    · rw [if_pos he]
      simp [hvalid, he]
    · rw [if_neg he]
      simp [he]
  · intro vpns hvpn hlt
    exact ht.demand_served h.ok h.accounted hv hvpn fun v hv' => vpn2_lt (lt_of_lt_userEnd (hlt v hv'))

/-- **An access that faults.**  `map_fault_page` does not panic; it serves the fault, or the access
is refused. -/
theorem fault_reached (h : Tidy img first rest k s) (hva : checkUVa va = true)
    (hnot : ¬Permits k.mem s.rootPgt.ppn va access) :
    ∃ k' s', Tidy img first rest k' s' ∧ Kept img first rest k s k' s' ∧
      ((mapFaultPage k s va access.minPermissions = (.ok (), k', s') ∧
          FaultServed img first rest access va k s k' s') ∨
        ((∃ e, mapFaultPage k s va access.minPermissions = (.err e, k', s')) ∧
          FaultRefused access va k s ∧ s'.areas.map bounds = s.areas.map bounds ∧
          s'.view k'.mem = s.view k.mem ∧ ∀ v < userEndVpn,
            PTE.isValid (pteAt k'.mem s'.rootPgt.ppn v) = true ↔
              PTE.isValid (pteAt k.mem s.rootPgt.ppn v) = true)) := by
  have hv := vpn_lt_of_check hva
  have hvpn : VPN.fromVa va = some (va / 4096) := by
    rw [checkUVa_iff] at hva
    exact VPN.fromVa_of_user (by omega)
  simp only [mapFaultPage, hvpn]
  cases hval : PTE.isValid (pteAt k.mem s.rootPgt.ppn (va / 4096)) with
  | true =>
    refine ⟨k, s, h, Kept.refl h.ok h.accounted, Or.inr ⟨⟨_, fault_denied h.ok hv hval hnot⟩, ?_, rfl,
      rfl, fun _ _ => Iff.rfl⟩⟩
    exact Or.inl fun hg => hnot ((permits_iff_granted h.ok hv hval).mpr hg)
  | false =>
    obtain ⟨res, k', s', hmap⟩ : ∃ res k' s',
        VMSpace.map k s (va / 4096) access.minPermissions = (res, k', s') := ⟨_, _, _, rfl⟩
    have hkept := (map_kept h.ok h.accounted h.kernel hv hval hmap).2
    have hiff := map_ok_iff h.ok h.accounted h.kernel hv hval access.minPermissions
    rw [hmap] at hiff
    have hrefused : res ≠ .ok () → FaultRefused access va k s :=
      fun hne => Or.inr ⟨hval, fun hs => hne (hiff.mpr hs)⟩
    rcases map_cases h.ok h.accounted h.kernel hv hval hmap with ⟨⟨e, rfl⟩, rfl, rfl, -⟩ |
      ⟨A, B, a, page, k₁, r, k₂, t₂, ht, ⟨rfl, rfl, rfl, rfl⟩ | ⟨e, rfl, rfl, rfl, rfl⟩⟩
    · exact ⟨_, _, h, hkept, Or.inr ⟨⟨e, hmap⟩, hrefused (by simp), rfl, rfl, fun _ _ => Iff.rfl⟩⟩
    · exact ⟨_, _, ⟨hkept.ok, (ht.regular h.ok h.regular).2, hkept.accounted, h.kernel⟩, hkept,
        Or.inl ⟨hmap, served_of_tried h hv hval ht hkept⟩⟩
    · refine ⟨_, _, ⟨hkept.ok, (ht.regular h.ok h.regular).2, hkept.accounted, h.kernel⟩, hkept,
        Or.inr ⟨⟨_, hmap⟩, hrefused (by simp), rfl, ?_, fun v hlt => ?_⟩⟩
      · exact VMSpace.view_congr ht.frame
      · -- the areas are the same, so the same pages are there
        rw [hkept.ok.agrees.valid_iff v hlt, h.ok.agrees.valid_iff v hlt]
        rfl

/-! ### A range -/

/-- The page numbers of the first `n` bytes from `u` on. -/
def pagesOf (u n : ℕ) : Finset ℕ := (Finset.range n).image fun i => (u + i) / 4096

/-- Those of them without a valid entry. -/
def unbacked (m : Mem) (root u n : ℕ) : Finset ℕ :=
  (pagesOf u n).filter fun v => PTE.isValid (pteAt m root v) = false

/-- The byte `u + i` can be accessed after those before it: its page is there, or it is legal and the
pages for all faults up to this one are left. -/
def PageOk (access : Access) (u : ℕ) (k : Phys) (s : VMSpace) (i : ℕ) : Prop :=
  ∃ a ∈ s.areas, a.containVpn ((u + i) / 4096) = true ∧
    access.minPermissions &&& a.permissions = access.minPermissions ∧
    (PTE.isValid (pteAt k.mem s.rootPgt.ppn ((u + i) / 4096)) = true ∨
      PTE.isValidFlags (a.permissions ||| PTE.flagV) = true ∧
        demand k.mem s.rootPgt.ppn (unbacked k.mem s.rootPgt.ppn u (i + 1)) ≤ k.available)

/-- The first `i` bytes of a range have been accessed since the state of `k₀` and `s₀`. -/
structure Progress (access : Access) (u : ℕ) (k₀ : Phys) (s₀ : VMSpace) (i : ℕ) (k : Phys)
    (s : VMSpace) : Prop where
  valid_iff : ∀ v < userEndVpn, PTE.isValid (pteAt k.mem s.rootPgt.ppn v) = true ↔
    PTE.isValid (pteAt k₀.mem s₀.rootPgt.ppn v) = true ∨ v ∈ pagesOf u i
  demand : ∀ n, i ≤ n → u + n ≤ userSpaceEnd →
    demand k.mem s.rootPgt.ppn (unbacked k.mem s.rootPgt.ppn u n) + k₀.available =
      demand k₀.mem s₀.rootPgt.ppn (unbacked k₀.mem s₀.rootPgt.ppn u n) + k.available
  bounds_eq : s.areas.map bounds = s₀.areas.map bounds
  pages_ok : ∀ j < i, PageOk access u k₀ s₀ j

theorem mem_pagesOf {u n v : ℕ} : v ∈ pagesOf u n ↔ ∃ i < n, (u + i) / 4096 = v := by
  simp [pagesOf]

theorem pagesOf_succ (u n : ℕ) : pagesOf u (n + 1) = insert ((u + n) / 4096) (pagesOf u n) := by
  rw [pagesOf, Finset.range_add_one, Finset.image_insert]
  rfl

theorem pagesOf_lt {u n v : ℕ} (hn : u + n ≤ userSpaceEnd) (h : v ∈ pagesOf u n) :
    v < userEndVpn := by
  obtain ⟨i, hi, rfl⟩ := mem_pagesOf.mp h
  rw [userSpaceEnd_eq] at hn
  rw [userEndVpn_eq]
  omega

theorem mem_unbacked {m : Mem} {root u n v : ℕ} : v ∈ unbacked m root u n ↔
    v ∈ pagesOf u n ∧ ¬PTE.isValid (pteAt m root v) = true := by
  rw [unbacked, Finset.mem_filter, Bool.not_eq_true]

theorem Progress.zero (access : Access) (u : ℕ) (k : Phys) (s : VMSpace) :
    Progress access u k s 0 k s where
  valid_iff v _ := by simp [pagesOf]
  demand n _ _ := rfl
  bounds_eq := rfl
  pages_ok j hj := absurd hj (Nat.not_lt_zero j)

namespace Progress

/-- All pages so far are there, so nothing is missing for them. -/
theorem demand_le (hp : Progress access u k₀ s₀ i k s) (hi : u + i ≤ userSpaceEnd) :
    RootPgt.demand k₀.mem s₀.rootPgt.ppn (unbacked k₀.mem s₀.rootPgt.ppn u i) ≤ k₀.available := by
  have hempty : unbacked k.mem s.rootPgt.ppn u i = ∅ := by
    rw [Finset.eq_empty_iff_forall_notMem]
    intro v hv
    obtain ⟨hin, hinv⟩ := mem_unbacked.mp hv
    exact hinv ((hp.valid_iff v (pagesOf_lt hi hin)).mpr (Or.inr hin))
  have hd := hp.demand i le_rfl hi
  have hzero : RootPgt.demand k.mem s.rootPgt.ppn ∅ = 0 := rfl
  rw [hempty, hzero] at hd
  omega

/-- A page that is there now was there at the start, or an earlier byte has brought it. -/
theorem pageOk_of_valid (hp : Progress access u k₀ s₀ i k s) (hi : u + (i + 1) ≤ userSpaceEnd)
    (hgranted : Granted s₀ ((u + i) / 4096) access.minPermissions)
    (hval : PTE.isValid (pteAt k.mem s.rootPgt.ppn ((u + i) / 4096)) = true) :
    PageOk access u k₀ s₀ i := by
  have hin : (u + i) / 4096 ∈ pagesOf u (i + 1) := mem_pagesOf.mpr ⟨i, Nat.lt_succ_self i, rfl⟩
  rcases (hp.valid_iff _ (pagesOf_lt hi hin)).mp hval with h₀ | hearlier
  · obtain ⟨a, ha, hav, hgrants⟩ := hgranted
    exact ⟨a, ha, hav, hgrants, Or.inl h₀⟩
  · obtain ⟨j, hj, he⟩ := mem_pagesOf.mp hearlier
    obtain ⟨a, ha, hav, hgrants, hthere | ⟨hlegal, -⟩⟩ := hp.pages_ok j hj
    · rw [he] at hav hthere
      exact ⟨a, ha, hav, hgrants, Or.inl hthere⟩
    · rw [he] at hav
      refine ⟨a, ha, hav, hgrants, Or.inr ⟨hlegal, ?_⟩⟩
      rw [unbacked, pagesOf_succ, Finset.insert_eq_of_mem hearlier]
      exact hp.demand_le (by omega)

theorem granted₀ (hp : Progress access u k₀ s₀ i k s) {v minPermissions : ℕ} :
    Granted s v minPermissions ↔ Granted s₀ v minPermissions := by
  constructor
  · rintro ⟨a, ha, hav, hgrants⟩
    obtain ⟨b, hb, hperm, hcontain⟩ := area_of_bounds hp.bounds_eq.symm ha
    exact ⟨b, hb, by rw [hcontain, hav], by rw [hperm, hgrants]⟩
  · rintro ⟨a, ha, hav, hgrants⟩
    obtain ⟨b, hb, hperm, hcontain⟩ := area_of_bounds hp.bounds_eq ha
    exact ⟨b, hb, by rw [hcontain, hav], by rw [hperm, hgrants]⟩

/-- The next byte is in a page that can be accessed at once. -/
theorem there (hp : Progress access u k₀ s₀ i k s) (hok : SpaceOk img k.mem s)
    (hi : u + (i + 1) ≤ userSpaceEnd) (hpermits : Permits k.mem s.rootPgt.ppn (u + i) access) :
    Progress access u k₀ s₀ (i + 1) k s := by
  have hin : (u + i) / 4096 ∈ pagesOf u (i + 1) := mem_pagesOf.mpr ⟨i, Nat.lt_succ_self i, rfl⟩
  have hv := pagesOf_lt hi hin
  have hval : PTE.isValid (pteAt k.mem s.rootPgt.ppn ((u + i) / 4096)) = true := hpermits.1
  have hgranted := hp.granted₀.mp ((permits_iff_granted hok hv hval).mp hpermits)
  refine ⟨fun v hlt => ?_, fun n hn => hp.demand n (by omega), hp.bounds_eq, fun j hj => ?_⟩
  · rw [pagesOf_succ, Finset.mem_insert, hp.valid_iff v hlt]
    constructor
    · exact fun h => h.imp_right Or.inr
    · rintro (h | rfl | h)
      · exact Or.inl h
      · exact (hp.valid_iff _ hlt).mp hval
      · exact Or.inr h
  · rcases Nat.lt_succ_iff_lt_or_eq.mp hj with hj | rfl
    · exact hp.pages_ok j hj
    · exact hp.pageOk_of_valid hi hgranted hval

/-- The next byte is in a page that is faulted in. -/
theorem served (hp : Progress access u k₀ s₀ i k s) (hi : u + (i + 1) ≤ userSpaceEnd)
    (hs : FaultServed img first rest access (u + i) k s k' s') :
    Progress access u k₀ s₀ (i + 1) k' s' := by
  have hin : (u + i) / 4096 ∈ pagesOf u (i + 1) := mem_pagesOf.mpr ⟨i, Nat.lt_succ_self i, rfl⟩
  have hv := pagesOf_lt hi hin
  have hnew : ¬PTE.isValid (pteAt k.mem s.rootPgt.ppn ((u + i) / 4096)) = true := by
    rw [hs.invalid]
    simp
  have hnew₀ : (u + i) / 4096 ∉ pagesOf u i := fun h => hnew ((hp.valid_iff _ hv).mpr (Or.inr h))
  have herase : ∀ n, u + n ≤ userSpaceEnd →
      unbacked k'.mem s'.rootPgt.ppn u n =
        (unbacked k.mem s.rootPgt.ppn u n).erase ((u + i) / 4096) := by
    intro n hn
    ext v
    rw [Finset.mem_erase, mem_unbacked, mem_unbacked]
    constructor
    · rintro ⟨hmem, hinv⟩
      rw [hs.valid_iff v (pagesOf_lt hn hmem), not_or] at hinv
      exact ⟨hinv.2, hmem, hinv.1⟩
    · rintro ⟨hne, hmem, hinv⟩
      refine ⟨hmem, ?_⟩
      rw [hs.valid_iff v (pagesOf_lt hn hmem), not_or]
      exact ⟨hinv, hne⟩
  have hdemand : ∀ n, i + 1 ≤ n → u + n ≤ userSpaceEnd →
      RootPgt.demand k'.mem s'.rootPgt.ppn (unbacked k'.mem s'.rootPgt.ppn u n) + k₀.available =
        RootPgt.demand k₀.mem s₀.rootPgt.ppn (unbacked k₀.mem s₀.rootPgt.ppn u n) +
          k'.available := by
    intro n hlt hn
    have hmem : (u + i) / 4096 ∈ unbacked k.mem s.rootPgt.ppn u n :=
      mem_unbacked.mpr ⟨mem_pagesOf.mpr ⟨i, hlt, rfl⟩, hnew⟩
    have h1 := hs.demand _ hmem fun v hv' => pagesOf_lt hn (mem_unbacked.mp hv').1
    have h2 := hp.demand n (by omega) hn
    rw [herase n hn]
    omega
  have hvalid : ∀ v < userEndVpn, PTE.isValid (pteAt k'.mem s'.rootPgt.ppn v) = true ↔
      PTE.isValid (pteAt k₀.mem s₀.rootPgt.ppn v) = true ∨ v ∈ pagesOf u (i + 1) := by
    intro v hlt
    rw [pagesOf_succ, Finset.mem_insert, hs.valid_iff v hlt, hp.valid_iff v hlt, or_assoc,
      or_comm (a := v ∈ _)]
  refine ⟨hvalid, hdemand, hs.bounds_eq.trans hp.bounds_eq, fun j hj => ?_⟩
  rcases Nat.lt_succ_iff_lt_or_eq.mp hj with hj | rfl
  · exact hp.pages_ok j hj
  -- this page's own share was left, and the pages before it need nothing more
  obtain ⟨a, ha, hav, hgrants, hlegal⟩ := hs.legal
  obtain ⟨b, hb, hperm, hcontain⟩ := area_of_bounds hp.bounds_eq.symm ha
  refine ⟨b, hb, by rw [hcontain, hav], by rw [hperm, hgrants], Or.inr ⟨by rw [hperm, hlegal], ?_⟩⟩
  have hempty : unbacked k'.mem s'.rootPgt.ppn u (j + 1) = ∅ := by
    rw [Finset.eq_empty_iff_forall_notMem]
    intro v hv'
    obtain ⟨hin', hinv⟩ := mem_unbacked.mp hv'
    exact hinv ((hvalid v (pagesOf_lt hi hin')).mpr (Or.inr hin'))
  have hd := hdemand (j + 1) le_rfl hi
  have hzero : RootPgt.demand k'.mem s'.rootPgt.ppn ∅ = 0 := rfl
  rw [hempty, hzero] at hd
  omega

/-- The next byte is refused. -/
theorem refused (hp : Progress access u k₀ s₀ i k s) (hi : u + (i + 1) ≤ userSpaceEnd)
    (hr : FaultRefused access (u + i) k s) : ¬PageOk access u k₀ s₀ i := by
  have hin : (u + i) / 4096 ∈ pagesOf u (i + 1) := mem_pagesOf.mpr ⟨i, Nat.lt_succ_self i, rfl⟩
  have hv := pagesOf_lt hi hin
  rintro ⟨a, ha, hav, hgrants, hpage⟩
  rcases hr with hno | ⟨hinv, hno⟩
  · exact hno (hp.granted₀.mpr ⟨a, ha, hav, hgrants⟩)
  have hnew : ¬PTE.isValid (pteAt k.mem s.rootPgt.ppn ((u + i) / 4096)) = true := by
    rw [hinv]
    simp
  rcases hpage with hthere | ⟨hlegal, hroom⟩
  · exact hnew ((hp.valid_iff _ hv).mpr (Or.inl hthere))
  · obtain ⟨b, hb, hperm, hcontain⟩ := area_of_bounds hp.bounds_eq ha
    have hd := hp.demand (i + 1) (by omega) hi
    have hneed : 1 + missingTables k.mem s.rootPgt.ppn ((u + i) / 4096) ≤
        RootPgt.demand k.mem s.rootPgt.ppn (unbacked k.mem s.rootPgt.ppn u (i + 1)) :=
      missingTables_le_demand (mem_unbacked.mpr ⟨hin, hnew⟩)
    exact hno ⟨b, hb, by rw [hcontain, hav], by rw [hperm, hgrants], by rw [hperm, hlegal], by omega⟩

/-- What is written to data pages makes no difference. -/
theorem congr (hp : Progress access u k₀ s₀ i k s) (hok : SpaceOk img k.mem s)
    (htables : ∀ p ∈ s.rootPgt.pages, k'.mem p = k.mem p) (havail : k'.available = k.available) :
    Progress access u k₀ s₀ i k' s := by
  have hmid : ∀ j, mid PTE.child k'.mem s.rootPgt.ppn j = mid PTE.child k.mem s.rootPgt.ppn j := by
    intro j
    rw [mid, mid, htables _ hok.tables.root_mem]
  have hbot : ∀ j, UserHalf j → ∀ l, bottom PTE.child k'.mem s.rootPgt.ppn j l =
      bottom PTE.child k.mem s.rootPgt.ppn j l := fun j hj l =>
    hok.tables.bottom_congr (fun j _ => by rw [htables _ hok.tables.root_mem])
      (fun p hp _ l => by rw [htables p hp]) hj l
  have hpte : ∀ v < userEndVpn, pteAt k'.mem s.rootPgt.ppn v = pteAt k.mem s.rootPgt.ppn v :=
    fun v hv => pteAt_tables hok htables hv
  refine ⟨fun v hv => by rw [hpte v hv]; exact hp.valid_iff v hv, fun n hin hn => ?_, hp.bounds_eq,
    hp.pages_ok⟩
  have hset : unbacked k'.mem s.rootPgt.ppn u n = unbacked k.mem s.rootPgt.ppn u n := by
    ext v
    rw [mem_unbacked, mem_unbacked]
    exact and_congr_right fun hv => by rw [hpte v (pagesOf_lt hn hv)]
  have hsame : RootPgt.demand k'.mem s.rootPgt.ppn (unbacked k.mem s.rootPgt.ppn u n) =
      RootPgt.demand k.mem s.rootPgt.ppn (unbacked k.mem s.rootPgt.ppn u n) := by
    apply demand_congr hmid
    intro v hv l
    exact hbot _ (vpn2_lt (lt_of_lt_userEnd (pagesOf_lt hn (mem_unbacked.mp hv).1))) l
  rw [hset, hsame, havail]
  exact hp.demand n hin hn

end Progress

end RCoreKernel.Syscall
