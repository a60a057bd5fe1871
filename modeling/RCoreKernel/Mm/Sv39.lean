import RCoreKernel.Mm.PageAlloc
import RCoreKernel.Mm.Pte

/-!
# Root page tables (`RootPgt` in `os/src/mm/sv39.rs`)

The tables live in physical memory as raw words; a `RootPgt` only holds the page number of the
root and the list of pages it owns.  Operations take the physical memory and the table, and
return both together with the result, because an error leaves the tables and pages created so
far in place.

The walk below a root is the radix walk of `Lib.Radix` read through `PTE.child`.  `pteAt` is
the level-0 entry of a page number, or `0` when an intermediate table is missing.

* `mapCreate_spec` — **one specification for `map_create`**: whatever the result, the tables
  stay a tree of pairwise distinct pages owned by the root, nothing outside the owned pages is
  written, and every level-0 entry keeps its value, except that success installs the new one
  in a slot that was invalid.

`unmap` is treated in `Mm.Sv39Unmap`.
-/

namespace RCoreKernel.Mm

open Radix

def ptesPerTable : ℕ := 512

theorem ptesPerTable_eq : ptesPerTable = 512 := rfl

/-- `RootPgt`: the page backing the root table, and all pages backing the tables. -/
structure RootPgt where
  ppn : ℕ
  pages : List ℕ
  deriving DecidableEq, Repr

namespace RootPgt

/-- `RootPgt::new`. -/
def new (k : Phys) : Except PgtError RootPgt × Phys :=
  match k.allocZeroedPage with
  | none => (.error .acquirePageFailed, k)
  | some (page, k) => (.ok ⟨page, [page]⟩, k)

/-- `RootPgt::new_copy` of the table stored in page `entries`. -/
def newCopy (k : Phys) (entries : ℕ) : Except PgtError RootPgt × Phys :=
  match k.allocPage with
  | none => (.error .acquirePageFailed, k)
  | some (page, k) => (.ok ⟨page, [page]⟩, { k with mem := copy k.mem entries page })

/-- The copy is made in a new page. -/
theorem newCopy_ok {k k' : Phys} {entries : ℕ} {t : RootPgt} (h : newCopy k entries = (.ok t, k')) :
    ∃ page k₁, k.allocPage = some (page, k₁) ∧ t = ⟨page, [page]⟩ ∧
      k' = { k₁ with mem := copy k₁.mem entries page } := by
  unfold newCopy at h
  split at h
  · cases h
  · rename_i page k₁ hal
    obtain ⟨ht, rfl⟩ := Prod.mk.inj h
    exact ⟨page, k₁, hal, (Except.ok.inj ht).symm, rfl⟩

/-- Without a page nothing happens. -/
theorem newCopy_error {k k' : Phys} {entries : ℕ} {e : PgtError}
    (h : newCopy k entries = (.error e, k')) : k' = k := by
  unfold newCopy at h
  split at h
  · exact (Prod.mk.inj h).2.symm
  · cases h

/-- `satp::compute_value` for mode Sv39. -/
def satpValue (ppn : ℕ) : ℕ := wrap (8 <<< 60) ||| (ppn &&& 0xfffffffffff)

def getSatp (t : RootPgt) : ℕ := satpValue t.ppn

/-- One round of the loop of `map_create`: the table below slot `idx` of `table`, which is
created when the slot is invalid. -/
def descend (k : Phys) (t : RootPgt) (vpn ppn table idx : ℕ) :
    Except PgtError ℕ × Phys × RootPgt :=
  let follow (k : Phys) (t : RootPgt) : Except PgtError ℕ × Phys × RootPgt :=
    if PTE.isLeaf (k.mem table idx) then (.error (.doubleMapping vpn ppn), k, t)
    else (.ok (PTE.getPpn (k.mem table idx)), k, t)
  if PTE.isValid (k.mem table idx) then follow k t
  else
    match k.allocZeroedPage with
    | none => (.error .acquirePageFailed, k, t)
    | some (page, k) =>
      match PTE.new page PTE.flagV with
      | .error e => (.error e, k.dropPage page, t)
      | .ok pte =>
        follow { k with mem := put k.mem table idx pte } { t with pages := t.pages ++ [page] }

/-- `RootPgt::map_create`. -/
def mapCreate (k : Phys) (t : RootPgt) (vpn ppn pteFlags : ℕ) :
    Except PgtError Unit × Phys × RootPgt :=
  let parsed := parseVpn vpn
  match PTE.new ppn pteFlags with
  | .error e => (.error e, k, t)
  | .ok leafPte =>
    match descend k t vpn ppn t.ppn parsed.vpn2 with
    | (.error e, k, t) => (.error e, k, t)
    | (.ok table1, k, t) =>
      match descend k t vpn ppn table1 parsed.vpn1 with
      | (.error e, k, t) => (.error e, k, t)
      | (.ok table0, k, t) =>
        if PTE.isValid (k.mem table0 parsed.vpn0) then (.error (.doubleMapping vpn ppn), k, t)
        else (.ok (), { k with mem := put k.mem table0 parsed.vpn0 leafPte }, t)

/-- An illegal encoding is refused before the tables are read. -/
theorem mapCreate_illegal {pteFlags : ℕ} (h : ¬PTE.isValidFlags pteFlags = true) (k : Phys)
    (t : RootPgt) (vpn ppn : ℕ) :
    mapCreate k t vpn ppn pteFlags = (.error (.invalidPteFlags pteFlags), k, t) := by
  rw [mapCreate, PTE.new, if_neg h]

/-- `RootPgt::map_create_large`; `none` is a failed assertion of the two conversions. -/
def mapCreateLarge (k : Phys) (t : RootPgt) (vpn ppn pteFlags : ℕ) :
    Option (Except PgtError Unit × Phys × RootPgt) :=
  (VPN.fromVa (andNot (VPN.getVa vpn) (largePageSizeBytes - 1))).bind fun vpn =>
    (PPN.fromPa (andNot (PPN.getPa ppn) (largePageSizeBytes - 1))).map fun ppn =>
      let parsed := parseVpn vpn
      match PTE.new ppn pteFlags with
      | .error e => (.error e, k, t)
      | .ok leafPte =>
        match descend k t vpn ppn t.ppn parsed.vpn2 with
        | (.error e, k, t) => (.error e, k, t)
        | (.ok table1, k, t) =>
          if PTE.isLeaf (k.mem table1 parsed.vpn1) then (.error (.doubleMapping vpn ppn), k, t)
          else (.ok (), { k with mem := put k.mem table1 parsed.vpn1 leafPte }, t)

/-- How a loop of `unmap` ends: the range is done, the table is exhausted, or a panic. -/
inductive Sweep
  | done
  | more
  | panic (site : Panic)
  deriving DecidableEq, Repr

/-- The innermost loop of `unmap`, over the remaining values of `vpn0`. -/
def unmapTable0 (m : Mem) (table0 vpn2 vpn1 endVpn : ℕ) : List ℕ → Mem × Sweep
  | [] => (m, .more)
  | vpn0 :: rest =>
    if endVpn ≤ (vpn2 <<< 18) + (vpn1 <<< 9) + vpn0 then (m, .done)
    else unmapTable0 (put m table0 vpn0 0) table0 vpn2 vpn1 endVpn rest

/-- The middle loop of `unmap`, over the remaining values of `vpn1`; `parsed0` is the current
value of `parsed_vpn[0]`, which is returned with the memory. -/
def unmapTable1 (m : Mem) (table1 vpn2 endVpn parsed0 : ℕ) : List ℕ → Mem × ℕ × Sweep
  | [] => (m, parsed0, .more)
  | vpn1 :: rest =>
    let pte1 := m table1 vpn1
    if !PTE.isValid pte1 then unmapTable1 m table1 vpn2 endVpn 0 rest
    else if PTE.isLeaf pte1 then (m, parsed0, .panic .unmapLargePage)
    else
      match unmapTable0 m (PTE.getPpn pte1) vpn2 vpn1 endVpn
          (List.range' parsed0 (ptesPerTable - parsed0)) with
      | (m, .more) => unmapTable1 m table1 vpn2 endVpn 0 rest
      | (m, s) => (m, parsed0, s)

/-- The outer loop of `unmap`, over the remaining values of `vpn2`; `parsed1` and `parsed0` are
the current values of `parsed_vpn[1]` and `parsed_vpn[0]`. -/
def unmapTable2 (m : Mem) (table2 endVpn parsed1 parsed0 : ℕ) : List ℕ → Mem × Sweep
  | [] => (m, .panic .unmapPastEnd)
  | vpn2 :: rest =>
    let pte2 := m table2 vpn2
    if !PTE.isValid pte2 then unmapTable2 m table2 endVpn 0 0 rest
    else if PTE.isLeaf pte2 then (m, .panic .unmapHugePage)
    else
      match unmapTable1 m (PTE.getPpn pte2) vpn2 endVpn parsed0
          (List.range' parsed1 (ptesPerTable - parsed1)) with
      | (m, parsed0, .more) => unmapTable2 m table2 endVpn 0 parsed0 rest
      | (m, _, s) => (m, s)

/-- `RootPgt::unmap`.  It never returns an error: it succeeds or panics. -/
def unmap (m : Mem) (t : RootPgt) (startVpn endVpn : ℕ) : Mem × Sweep :=
  if endVpn ≤ startVpn then (m, .done)
  else
    let parsed := parseVpn startVpn
    unmapTable2 m t.ppn endVpn parsed.vpn1 parsed.vpn0
      (List.range' parsed.vpn2 (ptesPerTable - parsed.vpn2))

/-! ### Walking -/

/-- The level-0 entry of `vpn` below the root `r`, or `0` when a table is missing. -/
def pteAt (m : Mem) (r vpn : ℕ) : ℕ :=
  leaf PTE.child 0 m r (parseVpn vpn).vpn2 (parseVpn vpn).vpn1 (parseVpn vpn).vpn0

/-- The tables below the root slots in `U` form a tree of distinct pages owned by `t`. -/
abbrev Tables (U : ℕ → Prop) (k : Phys) (t : RootPgt) : Prop :=
  Tree PTE.child U k.mem t.ppn t.pages

/-- No large or huge page below the root slots in `U`. -/
abbrev NoLarge (U : ℕ → Prop) (k : Phys) (t : RootPgt) : Prop :=
  Interior PTE.child (fun w => PTE.isLeaf w = false) U k.mem t.ppn

/-- The walks end at the same word, or both end at an invalid one. -/
def SameTarget (s s' : Stop ℕ) : Prop :=
  s' = s ∨ PTE.isValid s.word = false ∧ PTE.isValid s'.word = false

theorem SameTarget.refl (s : Stop ℕ) : SameTarget s s := .inl rfl

theorem SameTarget.trans {s s' s'' : Stop ℕ} (h : SameTarget s s') (h' : SameTarget s' s'') :
    SameTarget s s'' := by
  rcases h' with rfl | ⟨h1, h2⟩
  · exact h
  · rcases h with rfl | ⟨h3, -⟩
    · exact .inr ⟨h1, h2⟩
    · exact .inr ⟨h3, h2⟩

/-- What `map_create` may do to the tables without changing any level-0 entry: new tables
are hung into invalid slots.  `rest` are the pages held by everyone else, and `i` is the root
slot below which tables may grow. -/
structure Grown (U : ℕ → Prop) (first : ℕ) (rest : List ℕ) (i : ℕ)
    (k : Phys) (t : RootPgt) (k' : Phys) (t' : RootPgt) : Prop where
  ppn_eq : t'.ppn = t.ppn
  accounted : k'.Accounted first (t'.pages ++ rest)
  tables : Tables U k' t'
  pages : ∃ new, t'.pages = t.pages ++ new
  frame : ∀ p, p ∉ t'.pages → k'.mem p = k.mem p
  root_frame : ∀ i', i' ≠ i → k'.mem t.ppn i' = k.mem t.ppn i'
  leaf_eq : ∀ {a b c}, U a →
    leaf PTE.child 0 k'.mem t'.ppn a b c = leaf PTE.child 0 k.mem t.ppn a b c
  noLarge : NoLarge U k t → NoLarge U k' t'
  path_same : ∀ {a b c}, U a →
    SameTarget (path PTE.child k.mem t.ppn a b c) (path PTE.child k'.mem t'.ppn a b c)
  interior : ∀ {good : ℕ → Prop}, good 0 → (∀ page, good (page * 1024 + 1)) →
    Interior PTE.child good U k.mem t.ppn → Interior PTE.child good U k'.mem t'.ppn

variable {U : ℕ → Prop} {first i vpn ppn pteFlags : ℕ} {rest : List ℕ} {k k' k'' : Phys} {t t' t'' : RootPgt}

theorem Grown.refl (hacc : k.Accounted first (t.pages ++ rest)) (ht : Tables U k t) :
    Grown U first rest i k t k t :=
  ⟨rfl, hacc, ht, ⟨[], by simp⟩, fun _ _ => rfl, fun _ _ => rfl, fun _ => rfl, id,
    fun _ => .refl _, fun _ _ h => h⟩

theorem Grown.mem_pages (g : Grown U first rest i k t k' t') {p : ℕ} (h : p ∈ t.pages) :
    p ∈ t'.pages := by
  obtain ⟨new, hnew⟩ := g.pages
  rw [hnew]
  exact List.mem_append_left _ h

theorem Grown.trans (g : Grown U first rest i k t k' t') (g' : Grown U first rest i k' t' k'' t'') :
    Grown U first rest i k t k'' t'' where
  ppn_eq := g'.ppn_eq.trans g.ppn_eq
  accounted := g'.accounted
  tables := g'.tables
  pages := by
    obtain ⟨n, hn⟩ := g.pages
    obtain ⟨n', hn'⟩ := g'.pages
    exact ⟨n ++ n', by rw [hn', hn, List.append_assoc]⟩
  frame p hp := (g'.frame p hp).trans (g.frame p fun h => hp (g'.mem_pages h))
  root_frame i' hi := by
    have h := g'.root_frame i' hi
    rw [g.ppn_eq] at h
    exact h.trans (g.root_frame i' hi)
  leaf_eq ha := (g'.leaf_eq ha).trans (g.leaf_eq ha)
  noLarge h := g'.noLarge (g.noLarge h)
  path_same ha := (g.path_same ha).trans (g'.path_same ha)
  interior h0 hp h := g'.interior h0 hp (g.interior h0 hp h)

/-! ### One level of `map_create` -/

/-- Everything one round of the loop can do. -/
theorem descend_cases (hacc : k.Accounted first (t.pages ++ rest)) {vpn ppn table idx : ℕ}
    {res : Except PgtError ℕ} (h : descend k t vpn ppn table idx = (res, k', t')) :
    (PTE.isLeaf (k.mem table idx) = true ∧ res = .error (.doubleMapping vpn ppn) ∧
        k' = k ∧ t' = t) ∨
      (∃ p, PTE.child (k.mem table idx) = some p ∧ res = .ok p ∧ k' = k ∧ t' = t) ∨
      (PTE.isValid (k.mem table idx) = false ∧ k.allocZeroedPage = none ∧
        res = .error .acquirePageFailed ∧ k' = k ∧ t' = t) ∨
      (∃ page, PTE.isValid (k.mem table idx) = false ∧ page ∉ t.pages ++ rest ∧ page < 2 ^ 44 ∧
        res = .ok page ∧ k'.mem = put (fill k.mem page 0) table idx (page * 1024 + 1) ∧
        k'.Accounted first (page :: (t.pages ++ rest)) ∧
        t' = { t with pages := t.pages ++ [page] }) := by
  unfold descend at h
  dsimp only at h
  split at h
  · rename_i hv
    split at h
    · rename_i hl
      obtain ⟨rfl, h'⟩ := Prod.mk.inj h
      obtain ⟨rfl, rfl⟩ := Prod.mk.inj h'
      exact Or.inl ⟨hl, rfl, rfl, rfl⟩
    · rename_i hl
      obtain ⟨rfl, h'⟩ := Prod.mk.inj h
      obtain ⟨rfl, rfl⟩ := Prod.mk.inj h'
      exact Or.inr (Or.inl ⟨_, PTE.child_of_valid hv (by simpa using hl), rfl, rfl, rfl⟩)
  · rename_i hv
    have hv : PTE.isValid (k.mem table idx) = false := by simpa using hv
    split at h
    · rename_i hal
      obtain ⟨rfl, h'⟩ := Prod.mk.inj h
      obtain ⟨rfl, rfl⟩ := Prod.mk.inj h'
      exact Or.inr (Or.inr (Or.inl ⟨hv, hal, rfl, rfl, rfl⟩))
    · rename_i page k₁ hal
      obtain ⟨hacc₁, hfresh, hmem⟩ := Phys.allocZeroedPage_spec hacc hal
      have hlt : page < 2 ^ 44 := hacc₁.lt (by simp)
      have hppn : PTE.getPpn (page * 1024 + 1) = page :=
        (PTE.child_eq_some.mp (PTE.child_pointer hlt)).2.2
      rw [PTE.new_pointer hlt] at h
      simp only [put_apply, and_self, if_true, PTE.not_isLeaf_pointer, Bool.false_eq_true,
        if_false, hppn] at h
      obtain ⟨rfl, h'⟩ := Prod.mk.inj h
      obtain ⟨rfl, rfl⟩ := Prod.mk.inj h'
      refine Or.inr (Or.inr (Or.inr ⟨page, hv, hfresh, hlt, rfl, ?_, ?_, rfl⟩))
      · simp only [hmem]
      · exact hacc₁.of_alloc_eq rfl

/-- Moving a new table page from the allocator to the root's list. -/
theorem accounted_push {page : ℕ} (h : k.Accounted first (page :: (t.pages ++ rest))) :
    k.Accounted first ((t.pages ++ [page]) ++ rest) :=
  h.congr (by
    rw [List.append_assoc, List.singleton_append]
    exact List.perm_middle.symm)

/-- The round at the root. -/
theorem descend_root (hacc : k.Accounted first (t.pages ++ rest)) (ht : Tables U k t)
    {vpn ppn : ℕ} {res : Except PgtError ℕ}
    (h : descend k t vpn ppn t.ppn i = (res, k', t')) :
    Grown U first rest i k t k' t' ∧ ∀ p, res = .ok p → mid PTE.child k'.mem t'.ppn i = some p := by
  rcases descend_cases hacc h with ⟨_, rfl, rfl, rfl⟩ | ⟨p, hc, rfl, rfl, rfl⟩ |
    ⟨_, _, rfl, rfl, rfl⟩ | ⟨page, hv, hfresh, hlt, rfl, hmem, hacc', rfl⟩
  · exact ⟨Grown.refl hacc ht, fun p hp => by cases hp⟩
  · exact ⟨Grown.refl hacc ht, fun q hq => by cases hq; exact hc⟩
  · exact ⟨Grown.refl hacc ht, fun p hp => by cases hp⟩
  have hchild := PTE.child_pointer hlt
  have hnot : page ∉ t.pages := fun hp => hfresh (List.mem_append_left _ hp)
  have hnone : mid PTE.child k.mem t.ppn i = none := PTE.child_of_not_valid hv
  have hne : page ≠ t.ppn := fun e => hnot (e ▸ ht.root_mem)
  refine ⟨⟨rfl, accounted_push hacc', ?_, ⟨[page], rfl⟩, ?_, ?_, ?_, ?_, ?_, ?_⟩, ?_⟩
  · show Tree _ _ _ _ _
    rw [hmem]
    exact ht.linkMid PTE.child_zero hnone hnot hchild
  · intro p hp
    simp only [List.mem_append, List.mem_singleton, not_or] at hp
    have hpt : p ≠ t.ppn := fun e => hp.1 (e ▸ ht.root_mem)
    funext j
    simp [hmem, hp.2, hpt]
  · intro i' hi'
    simp [hmem, hi', hne.symm]
  · intro a b c ha
    rw [hmem]
    exact ht.leaf_linkMid PTE.child_zero hnone hnot hchild ha b c
  · intro hn
    show Interior _ _ _ _ _
    rw [hmem]
    exact hn.linkMid ht hnot hchild (PTE.not_isLeaf_pointer page) (by decide)
  · intro a b c ha
    rw [hmem, ht.path_linkMid PTE.child_zero hnone hnot hchild ha]
    split
    · rename_i hai
      rw [hai, path_of_mid_none hnone]
      exact .inr ⟨hv, by decide⟩
    · exact .refl _
  · intro good h0 hp hn
    show Interior _ _ _ _ _
    rw [hmem]
    exact hn.linkMid ht hnot hchild (hp page) h0
  · intro p hp
    cases hp
    rw [hmem, mid_linkMid hne hchild, if_pos rfl]

/-- The round below the root. -/
theorem descend_mid (hacc : k.Accounted first (t.pages ++ rest)) (ht : Tables U k t) (hi : U i)
    {vpn ppn table j : ℕ} (hmid : mid PTE.child k.mem t.ppn i = some table)
    {res : Except PgtError ℕ} (h : descend k t vpn ppn table j = (res, k', t')) :
    Grown U first rest i k t k' t' ∧
      ∀ q, res = .ok q → bottom PTE.child k'.mem t'.ppn i j = some q := by
  rcases descend_cases hacc h with ⟨_, rfl, rfl, rfl⟩ | ⟨p, hc, rfl, rfl, rfl⟩ |
    ⟨_, _, rfl, rfl, rfl⟩ | ⟨page, hv, hfresh, hlt, rfl, hmem, hacc', rfl⟩
  · exact ⟨Grown.refl hacc ht, fun p hp => by cases hp⟩
  · exact ⟨Grown.refl hacc ht, fun q hq => by
      cases hq
      exact bottom_eq_some.mpr ⟨table, hmid, hc⟩⟩
  · exact ⟨Grown.refl hacc ht, fun p hp => by cases hp⟩
  have hchild := PTE.child_pointer hlt
  have hnot : page ∉ t.pages := fun hp => hfresh (List.mem_append_left _ hp)
  have hnone : PTE.child (k.mem table j) = none := PTE.child_of_not_valid hv
  have hne : page ≠ t.ppn := fun e => hnot (e ▸ ht.root_mem)
  obtain ⟨htab, htabne⟩ := ht.mid_mem hi hmid
  refine ⟨⟨rfl, accounted_push hacc', ?_, ⟨[page], rfl⟩, ?_, ?_, ?_, ?_, ?_, ?_⟩, ?_⟩
  · show Tree _ _ _ _ _
    rw [hmem]
    exact ht.linkBottom hi hmid hnot hchild
  · intro p hp
    simp only [List.mem_append, List.mem_singleton, not_or] at hp
    have hpt : p ≠ table := fun e => hp.1 (e ▸ htab)
    funext j
    simp [hmem, hp.2, hpt]
  · intro i' _
    simp [hmem, htabne.symm, hne.symm]
  · intro a b c ha
    rw [hmem]
    exact ht.leaf_linkBottom hi hmid hnone hnot hchild ha b c
  · intro hn
    show Interior _ _ _ _ _
    rw [hmem]
    exact hn.linkBottom ht hi hmid hnot (PTE.not_isLeaf_pointer page)
  · intro a b c ha
    rw [hmem, ht.path_linkBottom hi hmid hnot hchild ha]
    split
    · rename_i hab
      obtain ⟨rfl, rfl⟩ := hab
      rw [path_of_mid hmid hnone]
      exact .inr ⟨hv, by decide⟩
    · exact .refl _
  · intro good _ hp hn
    show Interior _ _ _ _ _
    rw [hmem]
    exact hn.linkBottom ht hi hmid hnot (hp page)
  · intro q hq
    cases hq
    rw [hmem, ht.bottom_linkBottom hi hmid hnot hchild hi, if_pos ⟨rfl, rfl⟩]

/-! ### `map_create` -/

/-- The outcome of `map_create`: tables may have grown, and on success one level-0 entry, which
was invalid, is replaced. -/
structure Mapped (U : ℕ → Prop) (first : ℕ) (rest : List ℕ) (vpn ppn pteFlags : ℕ)
    (k : Phys) (t : RootPgt) (res : Except PgtError Unit) (k' : Phys) (t' : RootPgt) : Prop where
  ppn_eq : t'.ppn = t.ppn
  accounted : k'.Accounted first (t'.pages ++ rest)
  tables : Tables U k' t'
  pages : ∃ new, t'.pages = t.pages ++ new
  frame : ∀ p, p ∉ t'.pages → k'.mem p = k.mem p
  root_frame : ∀ i', i' ≠ (parseVpn vpn).vpn2 → k'.mem t.ppn i' = k.mem t.ppn i'
  noLarge : NoLarge U k t → NoLarge U k' t'
  interior : ∀ {good : ℕ → Prop}, good 0 → (∀ page, good (page * 1024 + 1)) →
    Interior PTE.child good U k.mem t.ppn → Interior PTE.child good U k'.mem t'.ppn
  path_same : ∀ {a b c}, U a → (res = .ok () →
      ¬(a = (parseVpn vpn).vpn2 ∧ b = (parseVpn vpn).vpn1 ∧ c = (parseVpn vpn).vpn0)) →
    SameTarget (path PTE.child k.mem t.ppn a b c) (path PTE.child k'.mem t.ppn a b c)
  path_ok : res = .ok () →
    path PTE.child k'.mem t.ppn (parseVpn vpn).vpn2 (parseVpn vpn).vpn1 (parseVpn vpn).vpn0 =
      .leaf (ppn * 1024 + pteFlags)
  leaf_err : ∀ e, res = .error e → ∀ {a b c}, U a →
    leaf PTE.child 0 k'.mem t.ppn a b c = leaf PTE.child 0 k.mem t.ppn a b c
  leaf_ok : res = .ok () →
    PTE.isValidFlags pteFlags = true ∧ PTE.isValid (pteAt k.mem t.ppn vpn) = false ∧
      ∀ {a b c}, U a → leaf PTE.child 0 k'.mem t.ppn a b c =
        if a = (parseVpn vpn).vpn2 ∧ b = (parseVpn vpn).vpn1 ∧ c = (parseVpn vpn).vpn0
        then ppn * 1024 + pteFlags else leaf PTE.child 0 k.mem t.ppn a b c

/-- `map_create` leaves the pages that are not its own alone. -/
theorem Mapped.frame_rest {res : Except PgtError Unit}
    (g : Mapped U first rest vpn ppn pteFlags k t res k' t') {p : ℕ} (hp : p ∈ rest) :
    k'.mem p = k.mem p :=
  g.frame p fun h => (List.nodup_append.mp g.accounted.ledger.held_nodup).2.2 p h p hp rfl

theorem Grown.mapped (g : Grown U first rest (parseVpn vpn).vpn2 k t k' t') (e : PgtError) :
    Mapped U first rest vpn ppn pteFlags k t (.error e) k' t' where
  ppn_eq := g.ppn_eq
  accounted := g.accounted
  tables := g.tables
  pages := g.pages
  frame := g.frame
  root_frame := g.root_frame
  noLarge := g.noLarge
  interior := g.interior
  path_same {a b c} ha _ := by
    have h := g.path_same (b := b) (c := c) ha
    rwa [g.ppn_eq] at h
  path_ok h := by cases h
  leaf_err _ _ {a b c} ha := by
    have h := g.leaf_eq (b := b) (c := c) ha
    rwa [g.ppn_eq] at h
  leaf_ok h := by cases h

/-- **`map_create`.** -/
theorem mapCreate_spec (hacc : k.Accounted first (t.pages ++ rest)) (ht : Tables U k t)
    {vpn ppn pteFlags : ℕ} (hU : U (parseVpn vpn).vpn2) (hppn : ppn < 2 ^ 44)
    {res : Except PgtError Unit} (h : mapCreate k t vpn ppn pteFlags = (res, k', t')) :
    Mapped U first rest vpn ppn pteFlags k t res k' t' := by
  unfold mapCreate at h
  dsimp only at h
  split at h
  · obtain ⟨rfl, h'⟩ := Prod.mk.inj h
    obtain ⟨rfl, rfl⟩ := Prod.mk.inj h'
    exact (Grown.refl hacc ht).mapped _
  rename_i leafPte hnew
  obtain ⟨hflags, rfl⟩ := PTE.new_eq_ok hppn hnew
  split at h
  · rename_i e k₁ t₁ h₁
    obtain ⟨rfl, h'⟩ := Prod.mk.inj h
    obtain ⟨rfl, rfl⟩ := Prod.mk.inj h'
    exact (descend_root hacc ht h₁).1.mapped _
  rename_i table1 k₁ t₁ h₁
  obtain ⟨g₁, hmid⟩ := descend_root hacc ht h₁
  have hmid := hmid _ rfl
  split at h
  · rename_i e k₂ t₂ h₂
    obtain ⟨rfl, h'⟩ := Prod.mk.inj h
    obtain ⟨rfl, rfl⟩ := Prod.mk.inj h'
    exact (g₁.trans (descend_mid g₁.accounted g₁.tables hU hmid h₂).1).mapped _
  rename_i table0 k₂ t₂ h₂
  obtain ⟨g₂, hbot⟩ := descend_mid g₁.accounted g₁.tables hU hmid h₂
  have hbot := hbot _ rfl
  have g := g₁.trans g₂
  split at h
  · obtain ⟨rfl, h'⟩ := Prod.mk.inj h
    obtain ⟨rfl, rfl⟩ := Prod.mk.inj h'
    exact g.mapped _
  · rename_i hinv
    obtain ⟨rfl, h'⟩ := Prod.mk.inj h
    obtain ⟨rfl, rfl⟩ := Prod.mk.inj h'
    obtain ⟨htab, htabne⟩ := g.tables.bottom_mem hU hbot
    have hleaf := fun {a b c} (ha : U a) => g.leaf_eq (b := b) (c := c) ha
    rw [g.ppn_eq] at hleaf htabne
    refine ⟨g.ppn_eq, g.accounted.of_alloc_eq rfl, g.tables.setLeaf hU hbot, g.pages, ?_, ?_, ?_,
      fun h0 hp hn => (g.interior h0 hp hn).setLeaf g.tables hU hbot, ?_, ?_, ?_, ?_⟩
    · intro p hp
      have hpt : p ≠ table0 := fun e => hp (e ▸ htab)
      rw [← g.frame p hp]
      funext j
      simp [hpt]
    · intro i' hi'
      rw [← g.root_frame i' hi']
      simp [htabne.symm]
    · intro hn
      exact (g.noLarge hn).setLeaf g.tables hU hbot
    · intro a b c ha hne
      have h := g.path_same (b := b) (c := c) ha
      have hset : path PTE.child (put k₂.mem table0 (parseVpn vpn).vpn0 (ppn * 1024 + pteFlags))
          t₂.ppn a b c = path PTE.child k₂.mem t₂.ppn a b c := by
        rw [g.tables.path_setLeaf hU hbot ha, if_neg (hne rfl)]
      rw [g.ppn_eq] at h hset
      rw [hset]
      exact h
    · intro _
      rw [← g.ppn_eq]
      dsimp only
      rw [g.tables.path_setLeaf hU hbot hU, if_pos ⟨rfl, rfl, rfl⟩]
    · intro e he
      cases he
    · intro _
      refine ⟨hflags, ?_, ?_⟩
      · have h0 : leaf PTE.child 0 k₂.mem t₂.ppn (parseVpn vpn).vpn2 (parseVpn vpn).vpn1
            (parseVpn vpn).vpn0 = k₂.mem table0 (parseVpn vpn).vpn0 := leaf_of_bottom hbot _
        rw [g.ppn_eq, hleaf hU] at h0
        unfold pteAt
        rw [h0]
        simpa using hinv
      · intro a b c ha
        rw [← hleaf ha, ← g.ppn_eq]
        exact g.tables.leaf_setLeaf hU hbot ha b c

/-! ### Pages and valid entries

These hold for any tables, also for those that do not form a tree. -/

theorem descend_accounted (hacc : k.Accounted first (t.pages ++ rest)) {vpn ppn table idx : ℕ}
    {res : Except PgtError ℕ} (h : descend k t vpn ppn table idx = (res, k', t')) :
    k'.Accounted first (t'.pages ++ rest) := by
  rcases descend_cases hacc h with ⟨_, rfl, rfl, rfl⟩ | ⟨p, hc, rfl, rfl, rfl⟩ |
    ⟨_, _, rfl, rfl, rfl⟩ | ⟨page, hv, hfresh, hlt, rfl, hmem, hacc', rfl⟩
  · exact hacc
  · exact hacc
  · exact hacc
  · exact accounted_push hacc'

theorem mapCreate_accounted (hacc : k.Accounted first (t.pages ++ rest)) {vpn ppn pteFlags : ℕ}
    {res : Except PgtError Unit} (h : mapCreate k t vpn ppn pteFlags = (res, k', t')) :
    k'.Accounted first (t'.pages ++ rest) := by
  unfold mapCreate at h
  dsimp only at h
  split at h
  · cases h
    exact hacc
  split at h
  · rename_i h₁
    cases h
    exact descend_accounted hacc h₁
  rename_i h₁
  have hacc₁ := descend_accounted hacc h₁
  split at h
  · rename_i h₂
    cases h
    exact descend_accounted hacc₁ h₂
  rename_i h₂
  have hacc₂ := descend_accounted hacc₁ h₂
  split at h
  · cases h
    exact hacc₂
  · cases h
    exact hacc₂.of_alloc_eq rfl

/-- Valid entries of these pages stay as they are. -/
def KeepsValid (held : List ℕ) (k k' : Phys) : Prop :=
  ∀ p ∈ held, ∀ j, PTE.isValid (k.mem p j) = true → k'.mem p j = k.mem p j

section

variable {held held' : List ℕ}

theorem KeepsValid.refl (held : List ℕ) (k : Phys) : KeepsValid held k k := fun _ _ _ _ => rfl

theorem KeepsValid.trans (h : KeepsValid held k k') (h' : KeepsValid held k' k'') :
    KeepsValid held k k'' := by
  intro p hp j hv
  have hkept := h p hp j hv
  rw [← hkept] at hv ⊢
  exact h' p hp j hv

theorem KeepsValid.mono (h : KeepsValid held k k') (hsub : held' ⊆ held) :
    KeepsValid held' k k' := fun p hp => h p (hsub hp)

theorem KeepsValid.of_mem_eq (h : ∀ p ∈ held, k'.mem p = k.mem p) : KeepsValid held k k' :=
  fun p hp j _ => by rw [h p hp]

/-- A word is only written where there is no valid entry. -/
theorem KeepsValid.put {table idx w : ℕ} (hv : PTE.isValid (k.mem table idx) = false) :
    KeepsValid held k { k with mem := put k.mem table idx w } := by
  intro p _ j h
  dsimp only
  rw [put_apply, if_neg]
  rintro ⟨rfl, rfl⟩
  rw [h] at hv
  cases hv

end

theorem descend_keepsValid (hacc : k.Accounted first (t.pages ++ rest)) {table idx : ℕ}
    {res : Except PgtError ℕ} (h : descend k t vpn ppn table idx = (res, k', t')) :
    KeepsValid (t.pages ++ rest) k k' := by
  rcases descend_cases hacc h with ⟨-, -, rfl, -⟩ | ⟨_, -, -, rfl, -⟩ | ⟨-, -, -, rfl, -⟩ |
    ⟨page, hv, hfresh, -, -, hmem, -, -⟩
  · exact KeepsValid.refl _ _
  · exact KeepsValid.refl _ _
  · exact KeepsValid.refl _ _
  · intro p hp j hvalid
    have hne : p ≠ page := fun e => hfresh (e ▸ hp)
    rw [hmem, put_apply, if_neg, fill_apply, if_neg hne]
    rintro ⟨rfl, rfl⟩
    rw [hvalid] at hv
    cases hv

/-- A round adds pages to the root's list. -/
theorem descend_pages (hacc : k.Accounted first (t.pages ++ rest)) {table idx : ℕ}
    {res : Except PgtError ℕ} (h : descend k t vpn ppn table idx = (res, k', t')) :
    t.pages ⊆ t'.pages := by
  rcases descend_cases hacc h with ⟨-, -, -, rfl⟩ | ⟨_, -, -, -, rfl⟩ | ⟨-, -, -, -, rfl⟩ |
    ⟨page, -, -, -, -, -, -, rfl⟩
  · exact fun _ h => h
  · exact fun _ h => h
  · exact fun _ h => h
  · exact List.subset_append_left _ _

/-- **`map_create` takes no valid entry back.** -/
theorem mapCreate_keepsValid (hacc : k.Accounted first (t.pages ++ rest)) {res : Except PgtError Unit}
    (h : mapCreate k t vpn ppn pteFlags = (res, k', t')) : KeepsValid (t.pages ++ rest) k k' := by
  unfold mapCreate at h
  dsimp only at h
  split at h
  · cases h
    exact KeepsValid.refl _ k
  split at h
  · rename_i h₁
    cases h
    exact descend_keepsValid hacc h₁
  rename_i h₁
  have hacc₁ := descend_accounted hacc h₁
  have hsub : t.pages ++ rest ⊆ _ ++ rest := fun p hp =>
    List.mem_append.mpr ((List.mem_append.mp hp).imp_left fun hp => descend_pages hacc h₁ hp)
  split at h
  · rename_i h₂
    cases h
    exact (descend_keepsValid hacc h₁).trans ((descend_keepsValid hacc₁ h₂).mono hsub)
  rename_i h₂
  have hkeeps := (descend_keepsValid hacc h₁).trans ((descend_keepsValid hacc₁ h₂).mono hsub)
  split at h
  · cases h
    exact hkeeps
  · rename_i hv
    cases h
    exact hkeeps.trans (KeepsValid.put (by simpa using hv))

/-! ### When `map_create` succeeds -/

/-- When both tables are there, a page number without a valid entry can be mapped. -/
theorem mapCreate_of_descend (hacc : k.Accounted first (t.pages ++ rest)) (ht : Tables U k t)
    (hU : U (parseVpn vpn).vpn2) (hflags : PTE.isValidFlags pteFlags = true)
    (hinv : PTE.isValid (pteAt k.mem t.ppn vpn) = false) {table1 table0 : ℕ} {k₁ k₂ : Phys}
    {t₁ t₂ : RootPgt} (h₁ : descend k t vpn ppn t.ppn (parseVpn vpn).vpn2 = (.ok table1, k₁, t₁))
    (h₂ : descend k₁ t₁ vpn ppn table1 (parseVpn vpn).vpn1 = (.ok table0, k₂, t₂)) :
    mapCreate k t vpn ppn pteFlags = (.ok (),
      { k₂ with mem := put k₂.mem table0 (parseVpn vpn).vpn0 (wrap (ppn <<< 10) ||| pteFlags) },
      t₂) := by
  obtain ⟨g₁, hmid⟩ := descend_root hacc ht h₁
  have hmid := hmid _ rfl
  obtain ⟨g₂, hbot⟩ := descend_mid g₁.accounted g₁.tables hU hmid h₂
  have hbot := hbot _ rfl
  have hentry : PTE.isValid (k₂.mem table0 (parseVpn vpn).vpn0) = false := by
    have h0 : leaf PTE.child 0 k₂.mem t₂.ppn (parseVpn vpn).vpn2 (parseVpn vpn).vpn1
        (parseVpn vpn).vpn0 = k₂.mem table0 (parseVpn vpn).vpn0 := leaf_of_bottom hbot _
    rw [← h0, (g₁.trans g₂).leaf_eq hU]
    exact hinv
  rw [mapCreate, PTE.new, if_pos hflags]
  dsimp only
  rw [h₁]
  dsimp only
  rw [h₂]
  dsimp only
  rw [hentry]
  rfl

end RootPgt

end RCoreKernel.Mm
