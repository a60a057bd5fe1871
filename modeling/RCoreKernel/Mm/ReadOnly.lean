import Mathlib.Data.Finset.Insert
import RCoreKernel.Mm.Mappings

/-!
# Read-only large pages

The software's test for a leaf asks for `W` or `X`, so a read-only large page fails it, and a call
that comes to its entry takes the entry for a pointer.  Calls for other regions never read the entry:
they do what they would do if the page were executable too, and then the tables are sound.

* `veil` — the entries of these pages with `X` added, `Veiled` — the tables under the veil;
* `Veiled.walk_cases` — the veil changes no other walk;
* `mapCreate_veil`, `mapCreateLarge_veil` — **a call does the same with and without the veil**;
* `Built.grows` — **mappings only grow** in every run of calls none of which is for a region with a
  read-only large page, and none of which puts a large page over one of 4 KiB;
* `large_over_small` — a run in which a large page takes the place of a small one.
-/

namespace RCoreKernel.Mm

open Radix

namespace PTE

/-- A read-only leaf, which the software does not take for one. -/
theorem not_regular_iff {w : ℕ} : ¬Regular w ↔ w % 2 = 1 ∧ w / 2 % 2 = 1 ∧ w / 4 % 4 = 0 := by
  unfold Regular
  rw [kind_eq, isLeaf_iff]
  split
  · simp
    omega
  split
  · simp
    omega
  · simp
    omega

theorem hwChild_of_not_regular {w : ℕ} (h : ¬Regular w) : hwChild w = none := by
  have hk : kind w = .leaf := (Classical.not_imp.mp h).1
  rw [hwChild, hk]
  rfl

end PTE

/-! ### The veil -/

/-- The entries of the read-only large pages, in the cells `D`, with `X` added. -/
def veil (D : Finset (ℕ × ℕ)) (m : Mem) : Mem := fun p j => if (p, j) ∈ D then m p j + 8 else m p j

def Phys.veil (D : Finset (ℕ × ℕ)) (k : Phys) : Phys := { k with mem := Mm.veil D k.mem }

variable {first vpn ppn pteFlags p j w : ℕ} {rest : List ℕ} {k k' : Phys} {t t' : RootPgt}
  {D D' : Finset (ℕ × ℕ)} {m : Mem}

theorem veil_of_mem (h : (p, j) ∈ D) : veil D m p j = m p j + 8 := if_pos h

theorem veil_of_not_mem (h : (p, j) ∉ D) : veil D m p j = m p j := if_neg h

theorem veil_put (h : (p, j) ∉ D) : veil D (put m p j w) = put (veil D m) p j w := by
  funext q l
  by_cases hq : q = p ∧ l = j
  · obtain ⟨rfl, rfl⟩ := hq
    simp [veil, h]
  · simp [veil, hq]

theorem veil_insert_put (h : (p, j) ∉ D) :
    veil (insert (p, j) D) (put m p j w) = put (veil D m) p j (w + 8) := by
  funext q l
  by_cases hq : q = p ∧ l = j
  · obtain ⟨rfl, rfl⟩ := hq
    simp [veil]
  · simp [veil, hq]

theorem veil_fill (h : ∀ j, (p, j) ∉ D) : veil D (fill m p 0) = fill (veil D m) p 0 := by
  funext q l
  by_cases hq : q = p
  · subst hq
    simp [veil, h]
  · simp [veil, hq]

theorem mid_veil {r : ℕ} (h : ∀ j, (r, j) ∉ D) (i : ℕ) :
    mid PTE.child (veil D m) r i = mid PTE.child m r i := by
  rw [mid, veil_of_not_mem (h i), mid]

namespace Phys

theorem veil_put (h : (p, j) ∉ D) :
    veil D { k with mem := put k.mem p j w } =
      { k.veil D with mem := put (k.veil D).mem p j w } := by
  dsimp only [veil]
  rw [Mm.veil_put h]

theorem veil_insert_put (h : (p, j) ∉ D) :
    veil (insert (p, j) D) { k with mem := put k.mem p j w } =
      { k.veil D with mem := put (k.veil D).mem p j (w + 8) } := by
  dsimp only [veil]
  rw [Mm.veil_insert_put h]

theorem veil_empty (k : Phys) : k.veil ∅ = k := by
  have hmem : Mm.veil ∅ k.mem = k.mem := by
    funext p j
    exact veil_of_not_mem (Finset.notMem_empty _)
  rw [veil, hmem]

/-- A page for a table is taken in the same way. -/
theorem allocZeroedPage_veil {page : ℕ} (h : k.allocZeroedPage = some (page, k'))
    (hfresh : ∀ j, (page, j) ∉ D) : (k.veil D).allocZeroedPage = some (page, k'.veil D) := by
  obtain ⟨⟨q, k₁⟩, hal, he⟩ := Option.map_eq_some_iff.mp h
  cases he
  obtain ⟨r, hr, hk⟩ := Option.map_eq_some_iff.mp hal
  cases hk
  have hal' : (k.veil D).allocPage = some (r.1, { k with alloc := r.2 }.veil D) :=
    Option.map_eq_some_iff.mpr ⟨r, hr, rfl⟩
  rw [allocZeroedPage, hal', Option.map_some]
  dsimp only [veil]
  rw [veil_fill hfresh]

theorem allocZeroedPage_veil_none (h : k.allocZeroedPage = none) :
    (k.veil D).allocZeroedPage = none := by
  rw [allocZeroedPage, Option.map_eq_none_iff, allocPage, Option.map_eq_none_iff] at h ⊢
  exact h

end Phys

namespace RootPgt

/-- A round of `map_create` at a cell without a read-only large page. -/
theorem descend_veil (hacc : k.Accounted first (t.pages ++ rest)) (hpages : ∀ c ∈ D, c.1 ∈ t.pages)
    {table idx : ℕ} (hcell : (table, idx) ∉ D) {res : Except PgtError ℕ}
    (h : descend k t vpn ppn table idx = (res, k', t')) :
    descend (k.veil D) t vpn ppn table idx = (res, k'.veil D, t') := by
  have hword : (k.veil D).mem table idx = k.mem table idx := veil_of_not_mem hcell
  rw [descend] at h ⊢
  dsimp only at h ⊢
  rw [hword]
  by_cases hv : PTE.isValid (k.mem table idx) = true
  · rw [if_pos hv] at h ⊢
    by_cases hl : PTE.isLeaf (k.mem table idx) = true
    · rw [if_pos hl] at h ⊢
      cases h
      rfl
    · rw [if_neg hl] at h ⊢
      cases h
      rfl
  rw [if_neg hv] at h ⊢
  cases hal : k.allocZeroedPage with
  | none =>
    rw [hal] at h
    cases h
    rw [Phys.allocZeroedPage_veil_none hal]
  | some r =>
    obtain ⟨page, k₁⟩ := r
    obtain ⟨hacc₁, hfresh, -⟩ := Phys.allocZeroedPage_spec hacc hal
    have hnot : ∀ j, (page, j) ∉ D := fun j hj =>
      hfresh (List.mem_append_left _ (hpages _ hj))
    rw [hal] at h
    rw [Phys.allocZeroedPage_veil hal hnot]
    dsimp only at h ⊢
    rw [PTE.new_pointer (hacc₁.lt (List.mem_cons_self ..))] at h ⊢
    simp only [put_apply, and_self, if_true, PTE.not_isLeaf_pointer, Bool.false_eq_true,
      if_false] at h ⊢
    cases h
    rw [Phys.veil_put hcell]

/-! ### Tables with read-only large pages -/

/-- Under the veil the tables are sound; its cells hold read-only large pages, below the root. -/
structure Veiled (first : ℕ) (rest : List ℕ) (D : Finset (ℕ × ℕ)) (k : Phys) (t : RootPgt) :
    Prop where
  sound : Sound first rest (k.veil D) t
  root : ∀ j, (t.ppn, j) ∉ D
  readOnly : ∀ c ∈ D, ¬PTE.Regular (k.mem c.1 c.2)
  placed : ∀ c ∈ D, ∃ i, Slot i ∧ mid PTE.child k.mem t.ppn i = some c.1

namespace Veiled

variable (hv : Veiled first rest D k t)
include hv

theorem mid_eq (i : ℕ) :
    mid PTE.child (k.veil D).mem t.ppn i = mid PTE.child k.mem t.ppn i := mid_veil hv.root i

theorem mem_pages {c : ℕ × ℕ} (hc : c ∈ D) : c.1 ∈ t.pages := by
  obtain ⟨i, hi, hm⟩ := hv.placed c hc
  exact (hv.sound.tables.mid_mem hi ((hv.mid_eq i).trans hm)).1

theorem valid {c : ℕ × ℕ} (hc : c ∈ D) : PTE.isValid (k.mem c.1 c.2) = true :=
  PTE.isValid_iff.mpr (PTE.not_regular_iff.mp (hv.readOnly c hc)).1

/-- Level-0 tables are not veiled. -/
theorem bottom_not_mem {i b q : ℕ} (hi : Slot i)
    (hq : bottom PTE.child (k.veil D).mem t.ppn i b = some q) (l : ℕ) : (q, l) ∉ D := by
  intro hD
  obtain ⟨i', hi', hm⟩ := hv.placed _ hD
  exact hv.sound.tables.mid_ne_bottom hi' hi ((hv.mid_eq i').trans hm) hq rfl

/-- The hardware finds the tables below the root. -/
theorem hwMid_eq (v : ℕ) : mid PTE.hwChild k.mem t.ppn (parseVpn v).vpn2 =
    mid PTE.child (k.veil D).mem t.ppn (parseVpn v).vpn2 := by
  rw [hv.mid_eq]
  have hword : (k.veil D).mem t.ppn (parseVpn v).vpn2 = k.mem t.ppn (parseVpn v).vpn2 :=
    veil_of_not_mem (hv.root _)
  have hreg := hv.sound.regular.top (parseVpn_slot v)
  rw [hword] at hreg
  exact PTE.hwChild_eq hreg

/-- The walk to a read-only large page. -/
theorem walk_mem {v : ℕ} (hm : mid PTE.child k.mem t.ppn (parseVpn v).vpn2 = some p)
    (hD : (p, (parseVpn v).vpn1) ∈ D) :
    walk k.mem t.ppn v = .inner (k.mem p (parseVpn v).vpn1) ∧
      walk (k.veil D).mem t.ppn v = .inner (k.mem p (parseVpn v).vpn1 + 8) := by
  have hbits := PTE.not_regular_iff.mp (hv.readOnly _ hD)
  dsimp only at hbits
  constructor
  · refine path_of_mid ((hv.hwMid_eq v).trans ((hv.mid_eq _).trans hm)) ?_ _
    exact PTE.hwChild_of_not_regular (hv.readOnly _ hD)
  · have hw : (k.veil D).mem p (parseVpn v).vpn1 = k.mem p (parseVpn v).vpn1 + 8 := veil_of_mem hD
    have hleaf : PTE.isLeaf (k.mem p (parseVpn v).vpn1 + 8) = true := by
      rw [PTE.isLeaf_iff]
      omega
    rw [walk_eq hv.sound.regular, ← hw]
    refine path_of_mid ((hv.mid_eq _).trans hm) ?_ _
    rw [hw]
    exact PTE.child_of_leaf hleaf

/-- **The veil changes no walk but those to read-only large pages.** -/
theorem walk_cases (v : ℕ) : walk (k.veil D).mem t.ppn v = walk k.mem t.ppn v ∨
    ∃ p, mid PTE.child k.mem t.ppn (parseVpn v).vpn2 = some p ∧ (p, (parseVpn v).vpn1) ∈ D := by
  have hslot := parseVpn_slot v
  have hroot : (k.veil D).mem t.ppn (parseVpn v).vpn2 = k.mem t.ppn (parseVpn v).vpn2 :=
    veil_of_not_mem (hv.root _)
  rw [walk_eq hv.sound.regular]
  rcases path_cases PTE.child (k.veil D).mem t.ppn (parseVpn v).vpn2 (parseVpn v).vpn1
    (parseVpn v).vpn0 with ⟨hm, hp⟩ | ⟨p, hm, hc, hp⟩ | ⟨q, hq, hp⟩
  · left
    have hw : walk k.mem t.ppn v = _ := path_of_mid_none ((hv.hwMid_eq v).trans hm) _ _
    rw [hp, hw, hroot]
  · by_cases hD : (p, (parseVpn v).vpn1) ∈ D
    · exact .inr ⟨p, (hv.mid_eq _).symm.trans hm, hD⟩
    left
    have hinner : (k.veil D).mem p (parseVpn v).vpn1 = k.mem p (parseVpn v).vpn1 :=
      veil_of_not_mem hD
    have hreg := hv.sound.regular.inner hslot hm (parseVpn v).vpn1
    rw [hinner] at hreg hc
    have hw : walk k.mem t.ppn v = _ := path_of_mid
      ((hv.hwMid_eq v).trans hm) ((PTE.hwChild_eq hreg).trans hc) _
    rw [hp, hw, hinner]
  · obtain ⟨p, hm, hc⟩ := bottom_eq_some.mp hq
    by_cases hD : (p, (parseVpn v).vpn1) ∈ D
    · exact .inr ⟨p, (hv.mid_eq _).symm.trans hm, hD⟩
    left
    have hinner : (k.veil D).mem p (parseVpn v).vpn1 = k.mem p (parseVpn v).vpn1 :=
      veil_of_not_mem hD
    have hreg := hv.sound.regular.inner hslot hm (parseVpn v).vpn1
    rw [hinner] at hreg hc
    have hb : bottom PTE.hwChild k.mem t.ppn (parseVpn v).vpn2 (parseVpn v).vpn1 = some q :=
      bottom_eq_some.mpr ⟨p, (hv.hwMid_eq v).trans hm,
        (PTE.hwChild_eq hreg).trans hc⟩
    have hw : walk k.mem t.ppn v = _ := path_of_bottom hb _
    have hleaf : (k.veil D).mem q (parseVpn v).vpn0 = k.mem q (parseVpn v).vpn0 :=
      veil_of_not_mem (hv.bottom_not_mem hslot hq _)
    rw [hp, hw, hleaf]

end Veiled

/-! ### Calls under the veil -/

/-- What a call leaves alone: the tables below the root, and the read-only large pages. -/
structure Steady (D : Finset (ℕ × ℕ)) (k : Phys) (t : RootPgt) (k' : Phys) (t' : RootPgt) :
    Prop where
  ppn_eq : t'.ppn = t.ppn
  mid : ∀ {i p}, mid PTE.child k.mem t.ppn i = some p → mid PTE.child k'.mem t'.ppn i = some p
  cells : ∀ c ∈ D, k'.mem c.1 c.2 = k.mem c.1 c.2

theorem Veiled.steady (hv : Veiled first rest D k t) (hppn : t'.ppn = t.ppn)
    (hkeeps : KeepsValid t.pages k k') : Steady D k t k' t' := by
  refine ⟨hppn, fun {i p} hm => ?_, fun c hc => hkeeps _ (hv.mem_pages hc) _ (hv.valid hc)⟩
  have hword : k'.mem t.ppn i = k.mem t.ppn i :=
    hkeeps _ hv.sound.tables.root_mem _ (isValid_of_child hm).1
  rw [Radix.mid, hppn, hword]
  exact hm

/-- The veil stays. -/
theorem Veiled.kept (hv : Veiled first rest D k t) (hs : Sound first rest (k'.veil D) t')
    (h : Steady D k t k' t') : Veiled first rest D k' t' := by
  refine ⟨hs, fun j => ?_, fun c hc => ?_, fun c hc => ?_⟩
  · rw [h.ppn_eq]
    exact hv.root j
  · rw [h.cells c hc]
    exact hv.readOnly c hc
  · obtain ⟨i, hi, hm⟩ := hv.placed c hc
    exact ⟨i, hi, h.mid hm⟩

/-- No read-only large page lies where the call goes, and a large page goes where no 4 KiB page is
mapped. -/
structure Call.Careful (m : Mem) (root : ℕ) (c : Call) : Prop where
  regular : ∀ v w, Canonical v → v / 512 = c.vpn / 512 → walk m root v = .inner w → PTE.Regular w
  free : ∀ vpn ppn pteFlags, c = .large vpn ppn pteFlags → ∀ v w, Canonical v →
    v / 512 = vpn / 512 → walk m root v = .leaf w → translate m root v = none

/-- The entry of a region without a read-only large page is not veiled. -/
theorem Veiled.cell_not_mem (hv : Veiled first rest D k t) {c : Call} (hc : c.Careful k.mem t.ppn)
    {v : ℕ} (hcan : Canonical v) (hreg : v / 512 = c.vpn / 512)
    (hm : mid PTE.child k.mem t.ppn (parseVpn v).vpn2 = some p) : (p, (parseVpn v).vpn1) ∉ D :=
  fun hD => hv.readOnly _ hD (hc.regular v _ hcan hreg (hv.walk_mem hm hD).1)

/-- The entry is not veiled after the round at the root either. -/
theorem Veiled.cell_not_mem_of_descend (hv : Veiled first rest D k t) {c : Call}
    (hc : c.Careful k.mem t.ppn) (hcan : Canonical c.vpn) {table1 : ℕ}
    (htree : Tables Slot (k'.veil D) t')
    (hmid : mid PTE.child (k'.veil D).mem t'.ppn (parseVpn c.vpn).vpn2 = some table1)
    (hs : Steady D k t k' t') : (table1, (parseVpn c.vpn).vpn1) ∉ D := by
  intro hD
  obtain ⟨i, hi, hm⟩ := hv.placed _ hD
  have hroot : ∀ j, (t'.ppn, j) ∉ D := fun j => by
    rw [hs.ppn_eq]
    exact hv.root j
  have hm' : mid PTE.child (k'.veil D).mem t'.ppn i = some table1 :=
    (mid_veil hroot i).trans (hs.mid hm)
  obtain rfl := htree.mid_inj hi (parseVpn_slot _) hm' hmid
  exact hv.cell_not_mem hc hcan rfl hm hD

/-- **`map_create` under the veil.** -/
theorem mapCreate_veil (hv : Veiled first rest D k t)
    (hc : (Call.small vpn ppn pteFlags).Careful k.mem t.ppn) (hcan : Canonical vpn)
    {res : Except PgtError Unit} (h : mapCreate k t vpn ppn pteFlags = (res, k', t')) :
    mapCreate (k.veil D) t vpn ppn pteFlags = (res, k'.veil D, t') := by
  have hslot := parseVpn_slot vpn
  have hacc : k.Accounted first (t.pages ++ rest) := hv.sound.accounted.of_alloc_eq rfl
  rw [mapCreate] at h ⊢
  cases hnew : PTE.new ppn pteFlags with
  | error e =>
    rw [hnew] at h
    cases h
    rfl
  | ok w =>
    rw [hnew] at h
    dsimp only at h ⊢
    obtain ⟨⟨r₁, k₁, t₁⟩, h₁⟩ : ∃ r, descend k t vpn ppn t.ppn (parseVpn vpn).vpn2 = r := ⟨_, rfl⟩
    have h₁' := descend_veil hacc (fun c => hv.mem_pages) (hv.root _) h₁
    rw [h₁] at h
    rw [h₁']
    cases r₁ with
    | error e =>
      cases h
      rfl
    | ok table1 =>
      dsimp only at h ⊢
      obtain ⟨g₁, hmid⟩ := descend_root hv.sound.accounted hv.sound.tables h₁'
      have hmid := hmid _ rfl
      have hst : Steady D k t k₁ t₁ := hv.steady g₁.ppn_eq
        ((descend_keepsValid hacc h₁).mono (List.subset_append_left _ _))
      have hv₁ := hv.kept (g₁.sound hv.sound) hst
      have hcell : (table1, (parseVpn vpn).vpn1) ∉ D :=
        hv.cell_not_mem_of_descend hc hcan g₁.tables hmid hst
      obtain ⟨⟨r₂, k₂, t₂⟩, h₂⟩ :
          ∃ r, descend k₁ t₁ vpn ppn table1 (parseVpn vpn).vpn1 = r := ⟨_, rfl⟩
      have hacc₁ : k₁.Accounted first (t₁.pages ++ rest) := g₁.accounted.of_alloc_eq rfl
      have h₂' := descend_veil hacc₁ (fun c => hv₁.mem_pages) hcell h₂
      rw [h₂] at h
      rw [h₂']
      cases r₂ with
      | error e =>
        cases h
        rfl
      | ok table0 =>
        dsimp only at h ⊢
        obtain ⟨g₂, hbot⟩ := descend_mid g₁.accounted g₁.tables hslot hmid h₂'
        have hst₂ : Steady D k₁ t₁ k₂ t₂ := hv₁.steady g₂.ppn_eq
          ((descend_keepsValid hacc₁ h₂).mono (List.subset_append_left _ _))
        have hv₂ := hv₁.kept (g₂.sound hv₁.sound) hst₂
        have hleaf : (table0, (parseVpn vpn).vpn0) ∉ D := hv₂.bottom_not_mem hslot (hbot _ rfl) _
        have hword : (k₂.veil D).mem table0 (parseVpn vpn).vpn0 =
            k₂.mem table0 (parseVpn vpn).vpn0 := veil_of_not_mem hleaf
        rw [hword]
        by_cases hvalid : PTE.isValid (k₂.mem table0 (parseVpn vpn).vpn0) = true
        · rw [if_pos hvalid] at h ⊢
          cases h
          rfl
        · rw [if_neg hvalid] at h ⊢
          cases h
          rw [Phys.veil_put hleaf]

/-- The flags of a large page under the veil. -/
def veilFlags (pteFlags : ℕ) : ℕ := if PTE.Regular pteFlags then pteFlags else pteFlags + 8

theorem isValidFlags_veilFlags (h : PTE.isValidFlags pteFlags = true) :
    PTE.isValidFlags (veilFlags pteFlags) = true := by
  unfold veilFlags
  split
  · exact h
  · rename_i hno
    have hbits := PTE.not_regular_iff.mp hno
    rw [PTE.isValidFlags_iff] at h ⊢
    omega

/-- What `map_create_large` does, with and without the veil. -/
structure LargeVeiled (D : Finset (ℕ × ℕ)) (vpn ppn pteFlags : ℕ) (k : Phys) (t : RootPgt)
    (res : Except PgtError Unit) (k' : Phys) (t' : RootPgt) (D' : Finset (ℕ × ℕ)) : Prop where
  exec : mapCreateLarge k t vpn ppn pteFlags = some (res, k', t')
  veiled : mapCreateLarge (k.veil D) t vpn ppn (veilFlags pteFlags) = some (res, k'.veil D', t')
  steady : Steady D k t k' t'
  root : ∀ j, (t'.ppn, j) ∉ D'
  sub : D ⊆ D'
  new : ∀ c ∈ D', c ∉ D → res = .ok () ∧ ¬PTE.Regular (k'.mem c.1 c.2) ∧
    mid PTE.child k'.mem t'.ppn (parseVpn vpn).vpn2 = some c.1 ∧ c.2 = (parseVpn vpn).vpn1

theorem not_regular_add {ppn f : ℕ} : ¬PTE.Regular (ppn * 1024 + f) ↔ ¬PTE.Regular f := by
  rw [PTE.not_regular_iff, PTE.not_regular_iff]
  omega

/-- **`map_create_large` under the veil.** -/
theorem mapCreateLarge_veil (hv : Veiled first rest D k t)
    (ha : (Call.large vpn ppn pteFlags).Admissible)
    (hc : (Call.large vpn ppn pteFlags).Careful k.mem t.ppn) :
    ∃ res k' t' D', LargeVeiled D vpn ppn pteFlags k t res k' t' D' := by
  have hcan : Canonical vpn := ha.canonical
  have hppn : ∃ pa, PPN.fromPa pa = some ppn := ha.physical
  have hflags : PTE.isValidFlags pteFlags = true := ha.legal
  have hacc : k.Accounted first (t.pages ++ rest) := hv.sound.accounted.of_alloc_eq rfl
  have hreal := mapCreateLarge_eq (k := k) (t := t) hcan hppn hflags
  have hveil := mapCreateLarge_eq (k := k.veil D) (t := t) hcan hppn (isValidFlags_veilFlags hflags)
  obtain ⟨⟨r₁, k₁, t₁⟩, h₁⟩ : ∃ r, descend k t (largeBase vpn) (largeBase ppn) t.ppn
      (parseVpn vpn).vpn2 = r := ⟨_, rfl⟩
  have h₁' := descend_veil hacc (fun c => hv.mem_pages) (hv.root _) h₁
  obtain ⟨g, hmid⟩ := descend_root hv.sound.accounted hv.sound.tables h₁'
  have hst : Steady D k t k₁ t₁ := hv.steady g.ppn_eq
    ((descend_keepsValid hacc h₁).mono (List.subset_append_left _ _))
  have hv₁ := hv.kept (g.sound hv.sound) hst
  rw [h₁] at hreal
  rw [h₁'] at hveil
  cases r₁ with
  | error e =>
    exact ⟨_, _, _, D, hreal, hveil, hst, hv₁.root, fun _ h => h, fun c h hno => absurd h hno⟩
  | ok table1 =>
    have hmid := hmid _ rfl
    have hcell : (table1, (parseVpn vpn).vpn1) ∉ D :=
      hv.cell_not_mem_of_descend hc hcan g.tables hmid hst
    have hword : (k₁.veil D).mem table1 (parseVpn vpn).vpn1 = k₁.mem table1 (parseVpn vpn).vpn1 :=
      veil_of_not_mem hcell
    have hne : table1 ≠ t₁.ppn := (g.tables.mid_mem (parseVpn_slot vpn) hmid).2
    dsimp only at hreal hveil
    rw [hword] at hveil
    by_cases hl : PTE.isLeaf (k₁.mem table1 (parseVpn vpn).vpn1) = true
    · rw [if_pos hl] at hreal hveil
      exact ⟨_, _, _, D, hreal, hveil, hst, hv₁.root, fun _ h => h, fun c h hno => absurd h hno⟩
    rw [if_neg hl] at hreal hveil
    -- the entry is written; the tables below the root and the veiled entries are elsewhere
    obtain ⟨k₂, hk₂⟩ : ∃ k₂ : Phys, { k₁ with
        mem := put k₁.mem table1 (parseVpn vpn).vpn1 (largeBase ppn * 1024 + pteFlags) } = k₂ :=
      ⟨_, rfl⟩
    have hmem : k₂.mem = put k₁.mem table1 (parseVpn vpn).vpn1
        (largeBase ppn * 1024 + pteFlags) := by rw [← hk₂]
    have hst₂ : Steady D k t k₂ t₁ := by
      refine ⟨hst.ppn_eq, fun {i p} hm => ?_, fun c hcD => ?_⟩
      · have hmid₁ := hst.mid hm
        rw [mid, hmem, put_apply, if_neg (fun e => hne e.1.symm)]
        exact hmid₁
      · rw [hmem, put_apply, if_neg, hst.cells c hcD]
        rintro ⟨h₁, h₂⟩
        exact hcell (by rw [← h₁, ← h₂]; exact hcD)
    rw [hk₂] at hreal
    by_cases hreg : PTE.Regular pteFlags
    · refine ⟨_, _, _, D, hreal, hveil.trans ?_, hst₂, hv₁.root, fun _ h => h,
        fun c h hno => absurd h hno⟩
      rw [veilFlags, if_pos hreg, ← hk₂, Phys.veil_put hcell]
    · refine ⟨_, _, _, insert (table1, (parseVpn vpn).vpn1) D, hreal, hveil.trans ?_, hst₂,
        fun j hj => ?_, Finset.subset_insert _ _, fun c hcD hno => ⟨rfl, ?_⟩⟩
      · rw [veilFlags, if_neg hreg, ← hk₂, Phys.veil_insert_put hcell, Nat.add_assoc]
      · rcases Finset.mem_insert.mp hj with he | hj
        · exact hne (Prod.mk.inj he).1.symm
        · exact hv₁.root j hj
      · obtain rfl := (Finset.mem_insert.mp hcD).resolve_right hno
        refine ⟨?_, ?_, rfl⟩
        · rw [hmem, put_apply, if_pos ⟨rfl, rfl⟩, not_regular_add]
          exact hreg
        · rw [mid, hmem, put_apply, if_neg (fun e => hne e.1.symm)]
          exact (hv₁.mid_eq _).symm.trans hmid

/-- **What a call does under the veil, it does.** -/
theorem Veiled.lift (hv : Veiled first rest D k t) (hv' : Veiled first rest D' k' t')
    (hsub : D ⊆ D') (hst : Steady D k t k' t') {c c' : Call} {res : Except PgtError Unit}
    (hg : Grows c' (k.veil D) t res (k'.veil D') t') (hcov : ∀ v, c.Covers v → c'.Covers v)
    (hc : c.Careful k.mem t.ppn)
    (hnew : ∀ e ∈ D', e ∉ D → res = .ok () ∧
      mid PTE.child k'.mem t'.ppn (parseVpn c.vpn).vpn2 = some e.1 ∧ e.2 = (parseVpn c.vpn).vpn1 ∧
      ∀ v, v / 512 = c.vpn / 512 → c.Covers v) (hcan : Canonical c.vpn) :
    Grows c k t res k' t' := by
  constructor
  · intro v x hvcan hx
    rcases hv.walk_cases v with hsame | ⟨p, hm, hD⟩
    · have hx' : translate (k.veil D).mem t.ppn v = some x := by
        rw [translate, hsame]
        exact hx
      have hkept := hg.kept v x hvcan hx'
      rcases hv'.walk_cases v with hsame' | ⟨p, hm', hD'⟩
      · rwa [translate, hsame'] at hkept
      exfalso
      by_cases hD : (p, (parseVpn v).vpn1) ∈ D
      · -- it was a read-only large page before
        obtain ⟨i, hi, hm⟩ := hv.placed _ hD
        obtain rfl := hv'.sound.tables.mid_inj hi (parseVpn_slot v)
          ((hv'.mid_eq i).trans (hst.mid hm)) ((hv'.mid_eq _).trans hm')
        obtain ⟨hw, hw'⟩ := hv.walk_mem hm hD
        rw [hw, hw'] at hsame
        have := Stop.inner.inj hsame
        omega
      · -- the call has made it, where something was translated
        obtain ⟨hok, hm, h1, hall⟩ := hnew _ hD' hD
        have h2 := hv'.sound.tables.mid_inj (parseVpn_slot v) (parseVpn_slot c.vpn)
          ((hv'.mid_eq _).trans hm') ((hv'.mid_eq _).trans hm)
        have hcovers := hall v ((parseVpn_region hvcan hcan).mpr ⟨h2, h1⟩)
        obtain ⟨vpn', ppn', hres⟩ := hg.refused ⟨v, x, hvcan, hcov v hcovers, hx'⟩
        cases hok.symm.trans hres
    · have hw := (hv.walk_mem hm hD).1
      have hw' := (hv'.walk_mem (hst.mid hm) (hsub hD)).1
      rw [hst.cells _ hD] at hw'
      rw [translate, hw', ← hw]
      exact hx
  · rintro ⟨v, x, hvcan, hcovers, hx⟩
    have hreg : v / 512 = c.vpn / 512 := by
      cases c with
      | small vpn ppn pteFlags => exact congrArg (· / 512) hcovers
      | large vpn ppn pteFlags => exact hcovers
    rcases hv.walk_cases v with hsame | ⟨p, hm, hD⟩
    · refine hg.refused ⟨v, x, hvcan, hcov v hcovers, ?_⟩
      rw [translate, hsame]
      exact hx
    · exact absurd (hc.regular v _ hvcan hreg (hv.walk_mem hm hD).1) (hv.readOnly _ hD)

/-! ### Runs of calls -/

/-- `map_create`, on arguments of a caller, away from read-only large pages. -/
theorem Veiled.small (hv : Veiled first rest D k t) (ha : (Call.small vpn ppn pteFlags).Admissible)
    (hc : (Call.small vpn ppn pteFlags).Careful k.mem t.ppn) :
    ∃ res k' t', (Call.small vpn ppn pteFlags).exec k t = some (res, k', t') ∧
      Veiled first rest D k' t' ∧ Grows (.small vpn ppn pteFlags) k t res k' t' := by
  obtain ⟨⟨res, k', t'⟩, h⟩ : ∃ r, mapCreate k t vpn ppn pteFlags = r := ⟨_, rfl⟩
  have hcan : Canonical vpn := ha.canonical
  obtain ⟨pa, hpa⟩ : ∃ pa, PPN.fromPa pa = some ppn := ha.physical
  have hlt := PPN.fromPa_eq_some hpa
  have hacc : k.Accounted first (t.pages ++ rest) := hv.sound.accounted.of_alloc_eq rfl
  have hveil := mapCreate_veil hv hc hcan h
  have hppn := (mapCreate_spec hv.sound.accounted hv.sound.tables (parseVpn_slot vpn)
    (by omega) hveil).ppn_eq
  have hst : Steady D k t k' t' := hv.steady hppn
    ((mapCreate_keepsValid hacc h).mono (List.subset_append_left _ _))
  obtain ⟨res', k'', t'', hexec, hs, hg⟩ := hv.sound.small ha
  obtain ⟨rfl, hk⟩ := Prod.mk.inj (Option.some.inj ((congrArg some hveil).symm.trans hexec))
  obtain ⟨rfl, rfl⟩ := Prod.mk.inj hk
  have hv' := hv.kept hs hst
  exact ⟨res, k', t', congrArg some h, hv', hv.lift hv' (fun _ h => h) hst hg (fun _ h => h) hc
    (fun e h hno => absurd h hno) hcan⟩

/-- A large page under the veil is writable or executable. -/
theorem admissible_veilFlags (ha : (Call.large vpn ppn pteFlags).Admissible) :
    (Call.large vpn ppn (veilFlags pteFlags)).Admissible ∧
      (veilFlags pteFlags &&& PTE.flagW ≠ 0 ∨ veilFlags pteFlags &&& PTE.flagX ≠ 0) := by
  have hlegal : PTE.isValidFlags pteFlags = true := ha.legal
  have hleaf : pteFlags &&& PTE.flagR ≠ 0 ∨ pteFlags &&& PTE.flagX ≠ 0 := ha.leaf
  have hR : ∀ f, f &&& PTE.flagR = f / 2 % 2 * 2 := fun f => land_block f 1 1
  have hW : ∀ f, f &&& PTE.flagW = f / 4 % 2 * 4 := fun f => land_block f 1 2
  have hX : ∀ f, f &&& PTE.flagX = f / 8 % 2 * 8 := fun f => land_block f 1 3
  have hv := (PTE.isValidFlags_iff.mp hlegal).2.1
  have hveil := isValidFlags_veilFlags hlegal
  rw [hR, hX] at hleaf
  rw [hW, hX]
  refine ⟨⟨ha.canonical, ha.physical, hveil, ?_⟩, ?_⟩
  · show veilFlags pteFlags &&& PTE.flagR ≠ 0 ∨ veilFlags pteFlags &&& PTE.flagX ≠ 0
    rw [hR, hX, veilFlags]
    split
    · exact hleaf
    · rename_i hno
      have := PTE.not_regular_iff.mp hno
      omega
  · rw [veilFlags]
    split
    · rename_i hreg
      have hno := mt PTE.not_regular_iff.mpr (not_not.mpr hreg)
      omega
    · rename_i hno
      have := PTE.not_regular_iff.mp hno
      omega

/-- `map_create_large`, on arguments of a caller, away from read-only large pages and where no 4 KiB
page is mapped. -/
theorem Veiled.large (hv : Veiled first rest D k t) (ha : (Call.large vpn ppn pteFlags).Admissible)
    (hc : (Call.large vpn ppn pteFlags).Careful k.mem t.ppn) :
    ∃ res k' t' D', (Call.large vpn ppn pteFlags).exec k t = some (res, k', t') ∧
      Veiled first rest D' k' t' ∧ Grows (.large vpn ppn pteFlags) k t res k' t' := by
  have hcan : Canonical vpn := ha.canonical
  obtain ⟨res, k', t', D', h⟩ := mapCreateLarge_veil hv ha hc
  obtain ⟨ha', hwx⟩ := admissible_veilFlags ha
  have hplain : (Call.large vpn ppn (veilFlags pteFlags)).Plain (k.veil D).mem t.ppn := by
    refine ⟨hwx, fun v w hvcan hreg hw => ?_⟩
    rcases hv.walk_cases v with hsame | ⟨p, hm, hD⟩
    · rw [hsame] at hw
      rw [translate, hsame]
      exact hc.free _ _ _ rfl v w hvcan hreg hw
    · rw [(hv.walk_mem hm hD).2] at hw
      cases hw
  obtain ⟨res', k'', t'', hexec, hs, hg⟩ := hv.sound.large ha' hplain
  obtain ⟨rfl, hk⟩ := Prod.mk.inj (Option.some.inj (h.veiled.symm.trans hexec))
  obtain ⟨rfl, rfl⟩ := Prod.mk.inj hk
  have hv' : Veiled first rest D' k' t' := by
    refine ⟨hs, h.root, fun c hcD => ?_, fun c hcD => ?_⟩
    · by_cases hD : c ∈ D
      · rw [h.steady.cells c hD]
        exact hv.readOnly c hD
      · exact (h.new c hcD hD).2.1
    · by_cases hD : c ∈ D
      · obtain ⟨i, hi, hm⟩ := hv.placed c hD
        exact ⟨i, hi, h.steady.mid hm⟩
      · exact ⟨_, parseVpn_slot vpn, (h.new c hcD hD).2.2.1⟩
  refine ⟨res, k', t', D', h.exec, hv', hv.lift hv' h.sub h.steady hg (fun _ h => h) hc ?_ hcan⟩
  intro e he hno
  obtain ⟨hok, -, hm, h1⟩ := h.new e he hno
  exact ⟨hok, hm, h1, fun _ h => h⟩

/-- **One call, on arguments of a caller.** -/
theorem Veiled.call (hv : Veiled first rest D k t) {c : Call} (ha : c.Admissible)
    (hc : c.Careful k.mem t.ppn) :
    ∃ res k' t' D', c.exec k t = some (res, k', t') ∧ Veiled first rest D' k' t' ∧
      Grows c k t res k' t' := by
  cases c with
  | small vpn ppn pteFlags =>
    obtain ⟨res, k', t', h⟩ := hv.small ha hc
    exact ⟨res, k', t', D, h⟩
  | large vpn ppn pteFlags => exact hv.large ha hc

/-- The roots that calls satisfying `P` lead to, starting with `RootPgt::new` in `k₀`. -/
inductive Built (P : Mem → ℕ → Call → Prop) (k₀ : Phys) : Phys → RootPgt → Prop
  | new {k : Phys} {t : RootPgt} (h : RootPgt.new k₀ = (.ok t, k)) : Built P k₀ k t
  | call {k k' : Phys} {t t' : RootPgt} {res : Except PgtError Unit} (hb : Built P k₀ k t) (c : Call)
      (ha : c.Admissible) (hc : P k.mem t.ppn c) (h : c.exec k t = some (res, k', t')) :
      Built P k₀ k' t'

theorem Built.veiled {k₀ : Phys} (hfresh : k₀.Accounted first rest)
    (hb : Built (fun m r c => c.Careful m r) k₀ k t) : ∃ D, Veiled first rest D k t := by
  induction hb with
  | @new k t h =>
    refine ⟨∅, ?_, fun j => Finset.notMem_empty _, fun c hc => ?_, fun c hc => ?_⟩
    · rw [Phys.veil_empty]
      exact Sound.new hfresh h
    · exact absurd hc (Finset.notMem_empty c)
    · exact absurd hc (Finset.notMem_empty c)
  | @call k k' t t' res hb c ha hc h ih =>
    obtain ⟨D, hv⟩ := ih
    obtain ⟨res', k'', t'', D', h', hv', -⟩ := hv.call ha hc
    obtain ⟨-, hk⟩ := Prod.mk.inj (Option.some.inj (h.symm.trans h'))
    obtain ⟨rfl, rfl⟩ := Prod.mk.inj hk
    exact ⟨D', hv'⟩

/-- **Mappings only grow.**  In every root built by calls that are not for a region with a read-only
large page and that put large pages only where no 4 KiB page is mapped, every further such call keeps
every translation, and a call for a page number that is already translated is refused. -/
theorem Built.grows {k₀ : Phys} (hfresh : k₀.Accounted first rest)
    (hb : Built (fun m r c => c.Careful m r) k₀ k t) {c : Call} (ha : c.Admissible)
    (hc : c.Careful k.mem t.ppn) :
    ∃ res k' t', c.exec k t = some (res, k', t') ∧ Grows c k t res k' t' := by
  obtain ⟨D, hv⟩ := hb.veiled hfresh
  obtain ⟨res, k', t', D', h, -, hg⟩ := hv.call ha hc
  exact ⟨res, k', t', h, hg⟩

/-- Memory at boot, for the runs below. -/
def bootPhys : Phys := ⟨fun _ _ => 0, ⟨0x80000, memEndPpn, []⟩⟩

theorem bootPhys_accounted : bootPhys.Accounted 0x80000 [] :=
  ⟨⟨by decide, by decide⟩, by decide, by decide⟩

theorem Call.admissible_of {c : Call} (va pa : ℕ) (hva : va < 2 ^ 64)
    (hvpn : VPN.fromVa va = some c.vpn) (hppn : PPN.fromPa pa = some c.ppn)
    (hlegal : PTE.isValidFlags c.pteFlags = true)
    (hleaf : c.pteFlags &&& PTE.flagR ≠ 0 ∨ c.pteFlags &&& PTE.flagX ≠ 0) : c.Admissible :=
  ⟨⟨va, hva, hvpn⟩, ⟨pa, hppn⟩, hlegal, hleaf⟩

/-- A root with one read-write page, at page number 0. -/
def smallFirst : Except PgtError Unit × Phys × RootPgt :=
  mapCreate (RootPgt.new bootPhys).2 ⟨0x80000, [0x80000]⟩ 0 1 7

theorem smallFirst_built (P : Mem → ℕ → Call → Prop)
    (hP : P (RootPgt.new bootPhys).2.mem 0x80000 (.small 0 1 7)) :
    Built P bootPhys smallFirst.2.1 smallFirst.2.2 :=
  .call (.new rfl) (.small 0 1 7)
    (Call.admissible_of 0 4096 (by decide) (by decide) (by decide) (by decide) (by decide)) hP rfl

/-- Nothing is mapped where the call goes. -/
theorem Call.careful_of_invalid {root : ℕ} {c : Call} (h : ∀ v, Canonical v →
    v / 512 = c.vpn / 512 → PTE.isValid (walk m root v).word = false) : c.Careful m root := by
  constructor
  · intro v w hv hreg hwalk hleaf
    have hinvalid := h v hv hreg
    rw [hwalk] at hinvalid
    cases hleaf.symm.trans (PTE.kind_of_invalid hinvalid)
  · rintro vpn ppn pteFlags rfl v w hv hreg -
    exact decode_of_invalid (h v hv hreg) _ _

/-- The level-1 entry of the region is zero. -/
theorem Call.careful_of_vacant {root : ℕ} {c : Call} (hcan : Canonical c.vpn)
    (hm : mid PTE.hwChild m root (parseVpn c.vpn).vpn2 = some p)
    (hzero : m p (parseVpn c.vpn).vpn1 = 0) : c.Careful m root := by
  refine Call.careful_of_invalid fun v hv hreg => ?_
  obtain ⟨h2, h1⟩ := (parseVpn_region hv hcan).mp hreg
  have hnone : PTE.hwChild (m p (parseVpn c.vpn).vpn1) = none := by
    rw [hzero]
    decide
  rw [walk, h2, h1, path_of_mid hm hnone, Stop.word_inner, hzero]
  decide

theorem smallFirst_careful : (Call.small 0 1 7).Careful (RootPgt.new bootPhys).2.mem 0x80000 := by
  refine Call.careful_of_invalid fun v _ _ => ?_
  have hzero : ∀ i, (RootPgt.new bootPhys).2.mem 0x80000 i = 0 := fun _ => rfl
  have hnone : mid PTE.hwChild (RootPgt.new bootPhys).2.mem 0x80000 (parseVpn v).vpn2 = none := by
    rw [mid, hzero]
    decide
  rw [walk, path_of_mid_none hnone, Stop.word_top, hzero]
  decide

/-- A read-only large page beside the small one. -/
def largeSecond : Except PgtError Unit × Phys × RootPgt :=
  (.ok (), { smallFirst.2.1 with mem := put smallFirst.2.1.mem 0x80001 1 (512 * 1024 + 3) },
    smallFirst.2.2)

/-- A small page, a read-only large page beside it, and a large page beside both. -/
theorem Built.grows_smallFirst :
    (∃ res k' t', (Call.large 512 512 3).exec smallFirst.2.1 smallFirst.2.2 = some (res, k', t') ∧
      Grows (.large 512 512 3) smallFirst.2.1 smallFirst.2.2 res k' t') ∧
    ∃ res k' t', (Call.large 1024 1024 7).exec largeSecond.2.1 largeSecond.2.2 =
        some (res, k', t') ∧
      Grows (.large 1024 1024 7) largeSecond.2.1 largeSecond.2.2 res k' t' := by
  have hb := smallFirst_built (fun m r c => c.Careful m r) smallFirst_careful
  have ha : (Call.large 512 512 3).Admissible := Call.admissible_of (512 * 4096) (512 * 4096)
    (by decide) (by decide) (by decide) (by decide) (by decide)
  have hc : (Call.large 512 512 3).Careful smallFirst.2.1.mem 0x80000 :=
    Call.careful_of_vacant (p := 0x80001) ha.canonical (by decide +kernel) (by decide +kernel)
  have ha' : (Call.large 1024 1024 7).Admissible := Call.admissible_of (1024 * 4096) (1024 * 4096)
    (by decide) (by decide) (by decide) (by decide) (by decide)
  have hc' : (Call.large 1024 1024 7).Careful largeSecond.2.1.mem 0x80000 :=
    Call.careful_of_vacant (p := 0x80001) ha'.canonical (by decide +kernel) (by decide +kernel)
  have hb' : Built (fun m r c => c.Careful m r) bootPhys largeSecond.2.1 largeSecond.2.2 :=
    .call hb _ ha hc (rfl : _ = some largeSecond)
  exact ⟨Built.grows bootPhys_accounted hb ha hc, Built.grows bootPhys_accounted hb' ha' hc'⟩

/-- A large page replaces a small one: the call succeeds and page number 0 is translated to
another page. -/
theorem large_over_small :
    Built (fun _ _ _ => True) bootPhys smallFirst.2.1 smallFirst.2.2 ∧
      (Call.large 0 512 7).Admissible ∧
      ∃ res k' t', (Call.large 0 512 7).exec smallFirst.2.1 smallFirst.2.2 = some (res, k', t') ∧
        ¬Grows (.large 0 512 7) smallFirst.2.1 smallFirst.2.2 res k' t' := by
  refine ⟨smallFirst_built _ trivial,
    Call.admissible_of 0 (512 * 4096) (by decide) (by decide) (by decide) (by decide) (by decide),
    _, _, _, rfl, fun h => ?_⟩
  have hx : translate smallFirst.2.1.mem smallFirst.2.2.ppn 0 = some (1, 7) := by decide +kernel
  have hkept := h.kept 0 (1, 7) ⟨0, by decide, by decide⟩ hx
  revert hkept
  decide +kernel

end RCoreKernel.Mm.RootPgt
