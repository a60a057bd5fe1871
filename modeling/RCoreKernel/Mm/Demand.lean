import Mathlib.Data.Finset.Card
import RCoreKernel.Mm.ViewOps

/-!
# The pages that a range of faults takes

A copy from user memory can fault on every page of its range.  Each fault takes a page for the data,
and the first one below a missing table takes a page for that table too, so what the whole range
takes is known before the first fault.

* `demand` — the pages that faults on a set of page numbers take together;
* `demand_served` — **a served fault takes its share of the demand and leaves the rest**.
-/

namespace RCoreKernel.Mm

open Radix

namespace RootPgt

/-- The pages taken when all page numbers of the set are mapped: one for each of them, one for each
table at level 0 and one for each table at level 1 that is missing. -/
def demand (m : Mem) (root : ℕ) (vpns : Finset ℕ) : ℕ :=
  vpns.card +
    ((vpns.image fun v => ((parseVpn v).vpn2, (parseVpn v).vpn1)).filter fun c =>
      bottom PTE.child m root c.1 c.2 = none).card +
    ((vpns.image fun v => (parseVpn v).vpn2).filter fun i => mid PTE.child m root i = none).card

/-- The tables of `vpn` are there now, and no others below the root slots in `U` have come or gone. -/
structure Linked (U : ℕ → Prop) (m : Mem) (root vpn : ℕ) (m' : Mem) (root' : ℕ) : Prop where
  mid_none : ∀ i, U i → (mid PTE.child m' root' i = none ↔
    mid PTE.child m root i = none ∧ i ≠ (parseVpn vpn).vpn2)
  bottom_none : ∀ i, U i → ∀ j, (bottom PTE.child m' root' i j = none ↔
    bottom PTE.child m root i j = none ∧ (i, j) ≠ ((parseVpn vpn).vpn2, (parseVpn vpn).vpn1))

theorem filter_image_erase {α β : Type} [DecidableEq α] [DecidableEq β] {s : Finset α} {f : α → β}
    {P Q : β → Prop} [DecidablePred P] [DecidablePred Q] {a : α}
    (h : ∀ b ∈ s, (Q (f b) ↔ P (f b) ∧ f b ≠ f a)) :
    ((s.erase a).image f).filter Q = ((s.image f).filter P).erase (f a) := by
  ext c
  simp only [Finset.mem_filter, Finset.mem_image, Finset.mem_erase]
  constructor
  · rintro ⟨⟨b, ⟨-, hb⟩, rfl⟩, hQ⟩
    obtain ⟨hP, hne⟩ := (h b hb).mp hQ
    exact ⟨hne, ⟨b, hb, rfl⟩, hP⟩
  · rintro ⟨hne, ⟨b, hb, rfl⟩, hP⟩
    refine ⟨⟨b, ⟨?_, hb⟩, rfl⟩, (h b hb).mpr ⟨hP, hne⟩⟩
    rintro rfl
    exact hne rfl

/-- Removing a value that counts takes one off. -/
theorem card_filter_image_erase {α β : Type} [DecidableEq α] [DecidableEq β] {s : Finset α} {f : α → β}
    {P Q : β → Prop} [DecidablePred P] [DecidablePred Q] {a : α} (ha : a ∈ s)
    (h : ∀ b ∈ s, (Q (f b) ↔ P (f b) ∧ f b ≠ f a)) :
    (((s.erase a).image f).filter Q).card + (if P (f a) then 1 else 0) =
      ((s.image f).filter P).card := by
  rw [filter_image_erase h]
  split
  · rename_i hP
    exact Finset.card_erase_add_one
      (Finset.mem_filter.mpr ⟨Finset.mem_image_of_mem f ha, hP⟩)
  · rename_i hP
    rw [Finset.erase_eq_of_notMem fun hm => hP (Finset.mem_filter.mp hm).2, Nat.add_zero]

/-- The tables on the path of a page number that are missing, level by level. -/
theorem missingTables_eq_add (m : Mem) (root vpn : ℕ) :
    missingTables m root vpn =
      (if bottom PTE.child m root (parseVpn vpn).vpn2 (parseVpn vpn).vpn1 = none then 1 else 0) +
        if mid PTE.child m root (parseVpn vpn).vpn2 = none then 1 else 0 := by
  unfold missingTables
  cases hmid : mid PTE.child m root (parseVpn vpn).vpn2 with
  | none =>
    have hbot : bottom PTE.child m root (parseVpn vpn).vpn2 (parseVpn vpn).vpn1 = none := by
      rw [bottom, hmid, Option.bind_none]
    rw [if_pos hbot, if_pos rfl]
  | some p =>
    have hbot : bottom PTE.child m root (parseVpn vpn).vpn2 (parseVpn vpn).vpn1 =
        PTE.child (m p (parseVpn vpn).vpn1) := by
      rw [bottom, hmid, Option.bind_some]
    rw [hbot]
    simp

/-- **What one of the page numbers takes.** -/
theorem demand_erase {m m' : Mem} {root root' vpn : ℕ} {vpns : Finset ℕ}
    (h : Linked UserHalf m root vpn m' root') (hvpn : vpn ∈ vpns)
    (hU : ∀ v ∈ vpns, UserHalf (parseVpn v).vpn2) :
    demand m' root' (vpns.erase vpn) + (1 + missingTables m root vpn) = demand m root vpns := by
  have hcard := Finset.card_erase_add_one hvpn
  have hbot := card_filter_image_erase (f := fun v => ((parseVpn v).vpn2, (parseVpn v).vpn1))
    (P := fun c => bottom PTE.child m root c.1 c.2 = none)
    (Q := fun c => bottom PTE.child m' root' c.1 c.2 = none) hvpn
    fun v hv => h.bottom_none _ (hU v hv) _
  have hmid := card_filter_image_erase (f := fun v => (parseVpn v).vpn2)
    (P := fun i => mid PTE.child m root i = none)
    (Q := fun i => mid PTE.child m' root' i = none) hvpn fun v hv => h.mid_none _ (hU v hv)
  rw [missingTables_eq_add]
  unfold demand
  dsimp only at hbot hmid
  omega

/-- The demand only depends on which tables are there. -/
theorem demand_congr {m m' : Mem} {root : ℕ} {vpns : Finset ℕ}
    (hmid : ∀ i, mid PTE.child m' root i = mid PTE.child m root i)
    (hbot : ∀ v ∈ vpns, ∀ j, bottom PTE.child m' root (parseVpn v).vpn2 j =
      bottom PTE.child m root (parseVpn v).vpn2 j) :
    demand m' root vpns = demand m root vpns := by
  unfold demand
  simp only [hmid]
  congr 3
  apply Finset.filter_congr
  intro c hc
  obtain ⟨v, hv, rfl⟩ := Finset.mem_image.mp hc
  rw [hbot v hv]

/-- What is missing on the path of one page number of the set is part of the demand. -/
theorem missingTables_le_demand {m : Mem} {root vpn : ℕ} {vpns : Finset ℕ} (hvpn : vpn ∈ vpns) :
    1 + missingTables m root vpn ≤ demand m root vpns := by
  have hcard : 0 < vpns.card := Finset.card_pos.mpr ⟨vpn, hvpn⟩
  rw [missingTables_eq_add]
  unfold demand
  have hbot : (if bottom PTE.child m root (parseVpn vpn).vpn2 (parseVpn vpn).vpn1 = none then 1
      else 0) ≤ ((vpns.image fun v => ((parseVpn v).vpn2, (parseVpn v).vpn1)).filter fun c =>
      bottom PTE.child m root c.1 c.2 = none).card := by
    split
    · rename_i hnone
      exact Finset.card_pos.mpr ⟨((parseVpn vpn).vpn2, (parseVpn vpn).vpn1),
        Finset.mem_filter.mpr ⟨Finset.mem_image.mpr ⟨vpn, hvpn, rfl⟩, hnone⟩⟩
    · exact Nat.zero_le _
  have hmid : (if mid PTE.child m root (parseVpn vpn).vpn2 = none then 1 else 0) ≤
      ((vpns.image fun v => (parseVpn v).vpn2).filter fun i =>
        mid PTE.child m root i = none).card := by
    split
    · rename_i hnone
      exact Finset.card_pos.mpr ⟨(parseVpn vpn).vpn2,
        Finset.mem_filter.mpr ⟨Finset.mem_image.mpr ⟨vpn, hvpn, rfl⟩, hnone⟩⟩
    · exact Nat.zero_le _
  omega

/-! ### `map_create` -/

variable {U : ℕ → Prop} {first vpn ppn pteFlags : ℕ} {rest : List ℕ} {k k' : Phys} {t t' : RootPgt}
  {table idx p : ℕ}

/-- A table is followed, or a new one takes a page. -/
theorem descend_spent (hacc : k.Accounted first (t.pages ++ rest)) (htab : table ∈ t.pages)
    (h : descend k t vpn ppn table idx = (.ok p, k', t')) :
    k'.available + (if PTE.child (k.mem table idx) = none then 1 else 0) = k.available := by
  rcases descend_cases hacc h with ⟨-, he, -⟩ | ⟨q, hc, -, rfl, -⟩ | ⟨-, -, he, -⟩ |
    ⟨page, hv, -, -, -, -, -, -⟩
  · cases he
  · rw [hc, if_neg (by simp), Nat.add_zero]
  · cases he
  · have hpos : 0 < k.available := by
      by_contra hzero
      rw [descend_exhausted hv (Nat.eq_zero_of_not_pos hzero)] at h
      cases h
    obtain ⟨q, k₁, t₁, h₁, hav, -⟩ := descend_new hacc vpn ppn htab hv hpos
    rw [h] at h₁
    obtain ⟨-, h₁⟩ := Prod.mk.inj h₁
    obtain ⟨rfl, -⟩ := Prod.mk.inj h₁
    rw [PTE.child_of_not_valid hv, if_pos rfl]
    exact hav

theorem descend_root_links (hacc : k.Accounted first (t.pages ++ rest)) (ht : Tables U k t)
    {i : ℕ} (h : descend k t vpn ppn t.ppn i = (.ok p, k', t')) :
    (∀ i', mid PTE.child k'.mem t'.ppn i' = none ↔
        mid PTE.child k.mem t.ppn i' = none ∧ i' ≠ i) ∧
      ∀ i', U i' → ∀ j, bottom PTE.child k'.mem t'.ppn i' j =
        bottom PTE.child k.mem t.ppn i' j := by
  rcases descend_cases hacc h with ⟨-, he, -⟩ | ⟨q, hc, -, rfl, rfl⟩ | ⟨-, -, he, -⟩ |
    ⟨page, hv, hfresh, hlt, -, hmem, -, rfl⟩
  · cases he
  · refine ⟨fun i' => ⟨fun hn => ⟨hn, ?_⟩, fun hn => hn.1⟩, fun _ _ _ => rfl⟩
    rintro rfl
    rw [mid, hc] at hn
    cases hn
  · cases he
  · have hnone : mid PTE.child k.mem t.ppn i = none := PTE.child_of_not_valid hv
    have hnot : page ∉ t.pages := fun hp => hfresh (List.mem_append_left _ hp)
    have hne : page ≠ t.ppn := fun e => hnot (e ▸ ht.root_mem)
    refine ⟨fun i' => ?_, fun i' hi' j => ?_⟩
    · rw [hmem, mid_linkMid hne (PTE.child_pointer hlt)]
      split
      · simp [*]
      · simp [*]
    · rw [hmem]
      exact ht.bottom_linkMid PTE.child_zero hnone hnot (PTE.child_pointer hlt) hi' j

theorem descend_mid_links (hacc : k.Accounted first (t.pages ++ rest)) (ht : Tables U k t)
    {i j : ℕ} (hi : U i) (hmid : mid PTE.child k.mem t.ppn i = some table)
    (h : descend k t vpn ppn table j = (.ok p, k', t')) :
    (∀ i', mid PTE.child k'.mem t'.ppn i' = mid PTE.child k.mem t.ppn i') ∧
      ∀ i', U i' → ∀ j', (bottom PTE.child k'.mem t'.ppn i' j' = none ↔
        bottom PTE.child k.mem t.ppn i' j' = none ∧ (i', j') ≠ (i, j)) := by
  rcases descend_cases hacc h with ⟨-, he, -⟩ | ⟨q, hc, -, rfl, rfl⟩ | ⟨-, -, he, -⟩ |
    ⟨page, hv, hfresh, hlt, -, hmem, -, rfl⟩
  · cases he
  · refine ⟨fun _ => rfl, fun i' _ j' => ⟨fun hn => ⟨hn, ?_⟩, fun hn => hn.1⟩⟩
    rintro he
    obtain ⟨rfl, rfl⟩ := Prod.mk.inj he
    rw [bottom, hmid, Option.bind_some, hc] at hn
    cases hn
  · cases he
  · have hnot : page ∉ t.pages := fun hp => hfresh (List.mem_append_left _ hp)
    refine ⟨fun i' => ?_, fun i' hi' j' => ?_⟩
    · rw [hmem]
      exact ht.mid_linkBottom hi hmid hnot
    · rw [hmem, ht.bottom_linkBottom hi hmid hnot (PTE.child_pointer hlt) hi', ne_eq, Prod.mk.injEq]
      split
      · simp [*]
      · simp [*]

/-- **`map_create` takes the missing tables and links them.** -/
theorem mapCreate_linked (hacc : k.Accounted first (t.pages ++ rest)) (ht : Tables U k t)
    (hU : U (parseVpn vpn).vpn2)
    (h : mapCreate k t vpn ppn pteFlags = (.ok (), k', t')) :
    Linked U k.mem t.ppn vpn k'.mem t'.ppn ∧
      k'.available + missingTables k.mem t.ppn vpn = k.available := by
  unfold mapCreate at h
  dsimp only at h
  split at h
  · cases h
  split at h
  · cases h
  rename_i table1 k₁ t₁ h₁
  split at h
  · cases h
  rename_i table0 k₂ t₂ h₂
  split at h
  · cases h
  obtain ⟨-, h⟩ := Prod.mk.inj h
  obtain ⟨rfl, rfl⟩ := Prod.mk.inj h
  obtain ⟨g₁, hmid⟩ := descend_root hacc ht h₁
  have hmid := hmid _ rfl
  obtain ⟨g₂, hbot⟩ := descend_mid g₁.accounted g₁.tables hU hmid h₂
  have hbot := hbot _ rfl
  obtain ⟨hmid₁, hbot₁⟩ := descend_root_links hacc ht h₁
  obtain ⟨hmid₂, hbot₂⟩ := descend_mid_links g₁.accounted g₁.tables hU hmid h₂
  refine ⟨⟨fun i hi => ?_, fun i hi j => ?_⟩, ?_⟩
  · dsimp only
    rw [g₂.tables.mid_setLeaf hU hbot, hmid₂, hmid₁]
  · dsimp only
    rw [g₂.tables.bottom_setLeaf hU hbot hi, hbot₂ i hi, hbot₁ i hi]
  · have hs₁ := descend_spent hacc ht.root_mem h₁
    have hs₂ := descend_spent g₁.accounted (g₁.tables.mid_mem hU hmid).1 h₂
    have hchild : PTE.child (k₁.mem table1 (parseVpn vpn).vpn1) =
        bottom PTE.child k.mem t.ppn (parseVpn vpn).vpn2 (parseVpn vpn).vpn1 := by
      rw [← hbot₁ _ hU, bottom, hmid, Option.bind_some]
    rw [hchild] at hs₂
    rw [missingTables_eq_add]
    show k₂.available + _ = _
    unfold mid
    omega

end RootPgt

namespace VMSpace

open RootPgt

variable {img : KernelImage} {first vpn minPermissions page : ℕ} {rest : List ℕ} {k k' k₁ k₂ : Phys}
  {s s' : VMSpace} {a : VMArea} {A B : List VMArea} {t₂ : RootPgt}

/-- **A served fault takes its share of the demand.** -/
theorem MapTried.demand_served (hok : SpaceOk img k.mem s)
    (hacc : k.Accounted first (s.pages ++ rest)) (hv : vpn < userEndVpn)
    (ht : MapTried img first rest k s vpn minPermissions A B a page k₁ (.ok ()) k₂ t₂)
    {vpns : Finset ℕ} (hvpn : vpn ∈ vpns) (hU : ∀ v ∈ vpns, UserHalf (parseVpn v).vpn2) :
    demand k₂.mem t₂.ppn (vpns.erase vpn) + k.available =
      demand k.mem s.rootPgt.ppn vpns + k₂.available := by
  obtain ⟨hacc₁, -, -⟩ := Phys.allocZeroedPage_spec hacc ht.alloc
  have hacc₁' : k₁.Accounted first
      (s.rootPgt.pages ++ (page :: (s.areas.flatMap (fun a => a.pages.values) ++ rest))) := by
    refine hacc₁.congr ?_
    simp only [pages, List.append_assoc]
    exact List.perm_middle.symm
  obtain ⟨hl, hav⟩ := mapCreate_linked hacc₁' ht.ok.tables (vpn2_lt (lt_of_lt_userEnd hv)) ht.create
  have hsame : ∀ p ∈ s.rootPgt.pages, k₁.mem p = k.mem p := fun p hp =>
    ht.mem_eq p (List.mem_append_left rest (mem_pages_of_table hp))
  -- the new page is in no table, so the tables are those before the allocation
  have hmid : ∀ i, mid PTE.child k₁.mem s.rootPgt.ppn i = mid PTE.child k.mem s.rootPgt.ppn i := by
    intro i
    rw [mid, mid, hsame _ hok.tables.root_mem]
  have hbot : ∀ i, UserHalf i → ∀ j, bottom PTE.child k₁.mem s.rootPgt.ppn i j =
      bottom PTE.child k.mem s.rootPgt.ppn i j := by
    intro i hi j
    rw [bottom, bottom, hmid]
    cases hm : mid PTE.child k.mem s.rootPgt.ppn i with
    | none => rfl
    | some p => rw [Option.bind_some, Option.bind_some, hsame p (hok.tables.mid_mem hi hm).1]
  have hlinked : Linked UserHalf k.mem s.rootPgt.ppn vpn k₂.mem t₂.ppn := by
    refine ⟨fun i hi => ?_, fun i hi j => ?_⟩
    · rw [hl.mid_none i hi, hmid]
    · rw [hl.bottom_none i hi, hbot i hi]
  have herase := demand_erase hlinked hvpn hU
  have hmiss := ht.missingTables_eq hok hv
  have hone := ht.available
  omega

end VMSpace

end RCoreKernel.Mm
