import RCoreKernel.Mm.Segment
import RCoreKernel.Mm.Fault

/-!
# An address space without its physical pages

What a task can see of its space does not depend on where its pages are.  The view of a space keeps
the bounds and permissions of the user areas and, for every page number that has a page, the bytes
of that page.  The kernel stack is a place in the list that nothing is known about.

* `VMSpace.view` — the view;
* `View.observe`, `observe_view` — **the translation of every user address and the byte behind it
  are determined by the view**.
-/

namespace RCoreKernel.Mm

open Radix RootPgt VMSpace

/-- The bytes of a page. -/
def pageBytes (m : Mem) (ppn : ℕ) : ℕ → ℕ := fun offset =>
  if offset < 4096 then byteAt m ppn offset else 0

theorem pageBytes_congr {m m' : Mem} {ppn : ℕ} (h : m' ppn = m ppn) :
    pageBytes m' ppn = pageBytes m ppn := by
  funext offset
  rw [pageBytes, pageBytes, byteAt_congr h]

theorem pageBytes_zero {m : Mem} {ppn : ℕ} (h : ∀ j, m ppn j = 0) : pageBytes m ppn = fun _ => 0 := by
  funext offset
  simp [pageBytes, byteAt, h]

/-- A user area without physical pages. -/
structure UserArea where
  startVpn : ℕ
  endVpn : ℕ
  permissions : ℕ
  content : ℕ → Option (ℕ → ℕ)

/-- The areas of a space, with `none` for an area of the kernel. -/
abbrev View := List (Option UserArea)

/-- The page number is in the area. -/
def inArea (v : ℕ) : Option UserArea → Bool
  | some a => a.startVpn ≤ v && v < a.endVpn
  | none => false

/-- The bytes that the pages of an area hold. -/
def VMArea.content (m : Mem) (a : VMArea) : ℕ → Option (ℕ → ℕ) := fun v =>
  (a.pages.get? v).map (pageBytes m)

def VMArea.view (m : Mem) (a : VMArea) : Option UserArea :=
  if a.mapType = .anonymous then some ⟨a.startVpn, a.endVpn, a.permissions, a.content m⟩ else none

/-- The view of a space. -/
def VMSpace.view (m : Mem) (s : VMSpace) : View := s.areas.map (VMArea.view m)

theorem VMArea.content_congr {m m' : Mem} {a : VMArea}
    (h : ∀ p ∈ a.pages.values, m' p = m p) : a.content m' = a.content m := by
  funext v
  unfold VMArea.content
  cases hget : a.pages.get? v with
  | none => rfl
  | some p =>
    have hp : p ∈ a.pages.values := BTreeMap.mem_values.mpr ⟨v, BTreeMap.get?_eq_some.mp hget⟩
    simp only [Option.map_some, pageBytes_congr (h p hp)]

theorem VMArea.view_congr {m m' : Mem} {a : VMArea} (h : ∀ p ∈ a.pages.values, m' p = m p) :
    a.view m' = a.view m := by
  unfold VMArea.view
  rw [VMArea.content_congr h]

/-- The view only depends on the pages of the areas. -/
theorem VMSpace.view_congr {m m' : Mem} {s : VMSpace}
    (h : ∀ a ∈ s.areas, ∀ p ∈ a.pages.values, m' p = m p) : s.view m' = s.view m :=
  List.map_congr_left fun a ha => VMArea.view_congr (h a ha)

/-- The pages of the areas are not those of the tables. -/
theorem not_table {first : ℕ} {k : Phys} {s : VMSpace} {rest : List ℕ}
    (hacc : k.Accounted first (s.pages ++ rest)) {a : VMArea} (ha : a ∈ s.areas) {p : ℕ}
    (hp : p ∈ a.pages.values) : p ∉ s.rootPgt.pages := by
  intro ht
  have hnd := (List.nodup_append.mp hacc.ledger.held_nodup).1
  rw [VMSpace.pages] at hnd
  exact (List.nodup_append.mp hnd).2.2 p ht p (List.mem_flatMap.mpr ⟨a, ha, hp⟩) rfl

theorem VMSpace.view_of_tables {first : ℕ} {k : Phys} {m m' : Mem} {s : VMSpace} {rest : List ℕ}
    (hacc : k.Accounted first (s.pages ++ rest)) (h : ∀ p, p ∉ s.rootPgt.pages → m' p = m p) :
    s.view m' = s.view m :=
  VMSpace.view_congr fun _ ha p hp => h p (not_table hacc ha hp)

/-! ### What the view tells -/

/-- The byte at a virtual address, and the bits of the entry other than accessed and dirty. -/
def observe (m : Mem) (root va : ℕ) : Option (ℕ × ℕ) :=
  (readUser m root va).map fun r => (r.1, r.2 % 64)

/-- The same, from the view. -/
def View.observe (areas : View) (va : ℕ) : Option (ℕ × ℕ) :=
  (areas.find? (inArea (va / 4096))).bind fun x => x.bind fun a =>
    (a.content (va / 4096)).bind fun bytes =>
      if PTE.kind (a.permissions ||| PTE.flagV) = .leaf then
        some (bytes (va % 4096), (a.permissions ||| PTE.flagV) % 64)
      else none

variable {img : KernelImage} {first : ℕ} {rest : List ℕ} {k : Phys} {s : VMSpace} {m : Mem}

theorem inArea_view (hok : SpaceOk img m s) {a : VMArea} (ha : a ∈ s.areas) {v : ℕ}
    (hv : v < 2 ^ 26) : inArea v (a.view m) = a.containVpn v := by
  unfold VMArea.view
  rcases hok.placement a ha with ⟨hanon, -⟩ | ⟨hkern, hstart, -⟩
  · rw [if_pos hanon]
    rfl
  · rw [if_neg (by rw [hkern]; decide)]
    symm
    show a.containVpn v = false
    rw [← Bool.not_eq_true, VMArea.containVpn_iff]
    omega

/-- The area of a page number. -/
theorem view_find (hok : SpaceOk img m s) {v : ℕ} (hv : v < 2 ^ 26) :
    (s.view m).find? (inArea v) = (s.areas.find? fun a => a.containVpn v).map (VMArea.view m) := by
  unfold VMSpace.view
  rw [List.find?_map]
  congr 1
  apply Vec.find?_congr
  intro a ha
  exact inArea_view hok ha hv

theorem kind_of_sameButAD {w page f : ℕ} (h : PTE.SameButAD w (page * 1024 + f)) :
    PTE.kind w = PTE.kind f := by
  have h64 := h.2
  rw [← kind_entry page f, PTE.kind_eq, PTE.kind_eq]
  have h1 : w % 2 = (page * 1024 + f) % 2 := by omega
  have h2 : w / 2 % 2 = (page * 1024 + f) / 2 % 2 := by omega
  have h4 : w / 4 % 2 = (page * 1024 + f) / 4 % 2 := by omega
  have h8 : w / 8 % 2 = (page * 1024 + f) / 8 % 2 := by omega
  rw [h1, h2, h4, h8]

/-- The walk of a user page ends at its level-0 entry, or nowhere. -/
theorem translate_user (hok : SpaceOk img m s) (hreg : RegularUser m s.rootPgt.ppn) {v : ℕ}
    (hv : v < 2 ^ 26) :
    translate m s.rootPgt.ppn v =
      if PTE.kind (pteAt m s.rootPgt.ppn v) = .leaf then
        some (PTE.getPpn (pteAt m s.rootPgt.ppn v), pteAt m s.rootPgt.ppn v % 1024)
      else none := by
  have hU : UserHalf (parseVpn v).vpn2 := vpn2_lt hv
  have hfault : PTE.kind 0 ≠ .leaf := by decide
  have hpointer : ∀ {w : ℕ}, PTE.Regular w → PTE.isLeaf w = false → PTE.kind w ≠ .leaf := by
    intro w hr hl hk
    rw [hr hk] at hl
    cases hl
  rw [translate, walk, path_hwChild hreg hU, pteAt]
  rcases path_cases PTE.child m s.rootPgt.ppn (parseVpn v).vpn2 (parseVpn v).vpn1 (parseVpn v).vpn0
    with ⟨hmid, hp⟩ | ⟨p, hmid, hj, hp⟩ | ⟨q, hq, hp⟩
  · have hnone : bottom PTE.child m s.rootPgt.ppn (parseVpn v).vpn2 (parseVpn v).vpn1 = none := by
      rw [bottom, hmid, Option.bind_none]
    have hk := hpointer (hreg.top hU) (hok.noLarge.top hU)
    rw [hp, leaf_of_bottom_none hnone, if_neg hfault]
    exact if_neg fun h => hk h.1
  · have hnone : bottom PTE.child m s.rootPgt.ppn (parseVpn v).vpn2 (parseVpn v).vpn1 = none := by
      rw [bottom, hmid, Option.bind_some]
      exact hj
    have hk := hpointer (hreg.inner hU hmid (parseVpn v).vpn1) (hok.noLarge.inner hU hmid _)
    rw [hp, leaf_of_bottom_none hnone, if_neg hfault]
    exact if_neg fun h => hk h.1
  · rw [hp, leaf_of_bottom hq]
    rfl

/-- **The view determines what user space sees.** -/
theorem observe_view (hok : SpaceOk img m s) (hreg : RegularUser m s.rootPgt.ppn)
    {first : ℕ} {k : Phys} {rest : List ℕ} (hacc : k.Accounted first (s.pages ++ rest)) {va : ℕ}
    (hva : va < 2 ^ 38) : observe m s.rootPgt.ppn va = View.observe (s.view m) va := by
  have hv : va / 4096 < 2 ^ 26 := by omega
  unfold observe readUser View.observe
  rw [translate_user hok hreg hv, view_find hok hv]
  cases hfind : s.areas.find? fun a => a.containVpn (va / 4096) with
  | none =>
    -- no area, so no page and no valid entry
    have hno : ¬∃ page, s.Holds (va / 4096) page := by
      rintro ⟨page, a, ha, hav, -⟩
      exact absurd hav (by simpa using List.find?_eq_none.mp hfind a ha)
    have hinv : PTE.isValid (pteAt m s.rootPgt.ppn (va / 4096)) = false := by
      by_cases hlt : va / 4096 < userEndVpn
      · rw [← Bool.not_eq_true, hok.agrees.valid_iff _ hlt]
        exact hno
      · have heq : va / 4096 = userEndVpn := by
          rw [userEndVpn_eq] at hlt ⊢
          omega
        rw [heq]
        exact hok.top_invalid
    rw [PTE.kind_of_invalid hinv, if_neg (by decide)]
    rfl
  | some a =>
    have ha := List.mem_of_find?_eq_some hfind
    have hav : a.containVpn (va / 4096) = true := by simpa using List.find?_some hfind
    have hplaced : a.mapType = .anonymous ∧ va / 4096 < userEndVpn := by
      rcases hok.placement a ha with ⟨hanon, hlt⟩ | ⟨-, hstart, -⟩
      · exact ⟨hanon, hlt _ hav⟩
      · rw [VMArea.containVpn_iff] at hav
        omega
    have hview : a.view m = some ⟨a.startVpn, a.endVpn, a.permissions, a.content m⟩ :=
      if_pos hplaced.1
    simp only [Option.map_some, Option.bind_some, hview, VMArea.content]
    cases hget : a.pages.get? (va / 4096) with
    | none =>
      have hinv : PTE.isValid (pteAt m s.rootPgt.ppn (va / 4096)) = false := by
        rw [← Bool.not_eq_true, hok.agrees.valid_iff _ hplaced.2]
        rintro ⟨page, b, hb, hbv, hmem⟩
        obtain rfl := hok.agrees.area_unique ha hb hav hbv
        exact BTreeMap.get?_eq_none.mp hget page hmem
      rw [PTE.kind_of_invalid hinv, if_neg (by decide)]
      rfl
    | some page =>
      have hmem := BTreeMap.get?_eq_some.mp hget
      have hpte := hok.agrees.pte_eq _ hplaced.2 a ha page hav hmem
      have hppn : PTE.getPpn (pteAt m s.rootPgt.ppn (va / 4096)) = page := by
        have hlt : page < 2 ^ 44 := hacc.lt (List.mem_append_left _
          (mem_pages_of_mem_area ha (BTreeMap.mem_values.mpr ⟨_, hmem⟩)))
        have hflags := hok.permissions a ha
        rw [hpte.getPpn_eq, PTE.getPpn_eq]
        have hbits := lor_flagV_lt hflags
        omega
      rw [kind_of_sameButAD hpte]
      by_cases hleaf : PTE.kind (a.permissions ||| PTE.flagV) = .leaf
      · have h64 : pteAt m s.rootPgt.ppn (va / 4096) % 1024 % 64 =
            (a.permissions ||| PTE.flagV) % 64 := by
          have := hpte.2
          omega
        have hoff : va % 4096 < 4096 := Nat.mod_lt _ (by decide)
        rw [if_pos hleaf]
        simp only [Option.map_some, Option.bind_some, if_pos hleaf, hppn, pageBytes, if_pos hoff, h64]
      · rw [if_neg hleaf]
        simp only [Option.map_some, Option.map_none, Option.bind_some, if_neg hleaf]

end RCoreKernel.Mm
