import RCoreKernel.Mm.Accounting
import RCoreKernel.Mm.Demand

/-!
# The tables of a new space, in outline

A new space starts with a copy of the kernel's root table.  Below the root slots that the kernel does
not use it has tables of its own, and which of them are missing follows from the page numbers mapped
so far; below the others `map_create` works on the tables of the kernel.

* `Draft` — the pages left and the page numbers mapped, `Drawn` — the tables are as the draft says;
* `Drawn.mapCreate_ok_iff`, `Drawn.mapped` — **`map_create` below a slot of the space's own**;
* `Refuses`, `Drawn.spoils` — **below a slot of the kernel it fails, or writes to a kernel table**.
-/

namespace RCoreKernel.Mm

open Radix RootPgt

/-- The pages that are left, and the page numbers that have been mapped below the root slots that
the kernel does not use. -/
structure Draft where
  free : ℕ
  mapped : List Parsed

namespace Draft

/-- The tables that are missing on the path of one more page number. -/
def missing (d : Draft) (v : Parsed) : ℕ :=
  if ∃ q ∈ d.mapped, q.vpn2 = v.vpn2 ∧ q.vpn1 = v.vpn1 then 0
  else if ∃ q ∈ d.mapped, q.vpn2 = v.vpn2 then 1
  else 2

/-- A page is taken, for data. -/
def take (d : Draft) : Draft := { d with free := d.free - 1 }

/-- The page number can be mapped. -/
def Maps (d : Draft) (v : Parsed) : Prop := v ∉ d.mapped ∧ d.missing v ≤ d.free

/-- The page number is mapped. -/
def map (d : Draft) (v : Parsed) : Draft := ⟨d.free - d.missing v, v :: d.mapped⟩

end Draft

/-- The kernel does not use the root slot. -/
def Unused (m : Mem) (root i : ℕ) : Prop := PTE.isValid (m root i) = false

/-- Below a root slot of the kernel, with `free` pages left: the path of the page number ends at a
valid entry, or there is no page for the table that is missing. -/
def Refuses (m : Mem) (root free vpn : ℕ) : Prop :=
  PTE.isValid (pathOf m root vpn).word = true ∨
    free = 0 ∧ bottom PTE.child m root (parseVpn vpn).vpn2 (parseVpn vpn).vpn1 = none

/-- The tables of a new space are as the draft says; `k₀` is the memory when its root was copied from
page `root`. -/
structure Drawn (first : ℕ) (rest : List ℕ) (root : ℕ) (k₀ : Phys) (d : Draft) (k : Phys)
    (t : RootPgt) : Prop where
  accounted : ∃ held, k.Accounted first (t.pages ++ (held ++ rest))
  available : k.available = d.free
  tables : Tables (Unused k₀.mem root) k t
  noLarge : NoLarge (Unused k₀.mem root) k t
  shared : ∀ i, ¬Unused k₀.mem root i → k.mem t.ppn i = k₀.mem root i
  frame : ∀ p ∈ rest, k.mem p = k₀.mem p
  valid_iff : ∀ v : Parsed, Unused k₀.mem root v.vpn2 →
    (PTE.isValid (leaf PTE.child 0 k.mem t.ppn v.vpn2 v.vpn1 v.vpn0) = true ↔ v ∈ d.mapped)
  mid_iff : ∀ i, Unused k₀.mem root i →
    (mid PTE.child k.mem t.ppn i = none ↔ ∀ q ∈ d.mapped, q.vpn2 ≠ i)
  bottom_iff : ∀ i, Unused k₀.mem root i → ∀ j,
    (bottom PTE.child k.mem t.ppn i j = none ↔ ∀ q ∈ d.mapped, (q.vpn2, q.vpn1) ≠ (i, j))

variable {img : KernelImage} {first root vpn ppn pteFlags page : ℕ} {rest : List ℕ}
  {k₀ k k' k₁ : Phys} {t t' : RootPgt} {d : Draft}

/-! ### The copy of the root -/

theorem available_of_allocPage (h : k.allocPage = some (page, k')) :
    k'.available + 1 = k.available := by
  have hz : k.allocZeroedPage = some (page, { k' with mem := fill k'.mem page 0 }) := by
    rw [Phys.allocZeroedPage, h]
    rfl
  have hav := Phys.available_of_alloc hz
  exact hav

/-- The copy has no tables of its own yet. -/
theorem Drawn.newCopy (hacc : k.Accounted first rest)
    (h : RootPgt.newCopy k root = (.ok t, k')) :
    Drawn first rest root k ⟨k.available - 1, []⟩ k' t := by
  obtain ⟨page, k₁, hal, rfl, rfl⟩ := newCopy_ok h
  obtain ⟨hacc₁, hfresh, hmem₁⟩ := Phys.allocPage_spec hacc hal
  have hav := available_of_allocPage hal
  have hrow : ∀ i, copy k₁.mem root page page i = k.mem root i := fun i => by simp [hmem₁]
  have hmid : ∀ i, Unused k.mem root i → mid PTE.child (copy k₁.mem root page) page i = none := by
    intro i hi
    rw [mid, hrow]
    exact PTE.child_of_not_valid hi
  refine ⟨⟨[], hacc₁.of_alloc_eq rfl⟩, ?_, Tree.bare hmid, Interior.bare hmid ?_, fun i _ => hrow i,
    fun p hp => ?_, fun v hv => ?_, fun i hi => ?_, fun i hi j => ?_⟩
  · show k₁.available = _
    dsimp only
    omega
  · intro i hi
    dsimp only
    rw [hrow, ← Bool.not_eq_true]
    intro hl
    have hvalid : PTE.isValid (k.mem root i) = true := isValid_of_isLeaf hl
    rw [hi] at hvalid
    cases hvalid
  · have hne : p ≠ page := fun e => hfresh (e ▸ hp)
    funext j
    simp [hmem₁, hne]
  · dsimp only
    rw [leaf_bare hmid hv]
    simp [PTE.isValid_iff]
  · simp [hmid i hi]
  · simp [bottom_bare hmid hi j]

/-! ### A page for data -/

/-- Taking a page and writing to it leaves the tables as they were. -/
theorem Drawn.take (hd : Drawn first rest root k₀ d k t) (hal : k.allocPage = some (page, k₁))
    (halloc : k'.alloc = k₁.alloc) (hmem : ∀ p, p ≠ page → k'.mem p = k.mem p) :
    Drawn first rest root k₀ d.take k' t ∧ page < memEndPpn := by
  obtain ⟨held, hacc⟩ := hd.accounted
  obtain ⟨hacc₁, hfresh, -⟩ := Phys.allocPage_spec hacc hal
  have hav := available_of_allocPage hal
  have hsame : ∀ p ∈ t.pages, k'.mem p = k.mem p := fun p hp =>
    hmem p fun e => hfresh (e ▸ List.mem_append_left _ hp)
  have hroot : k'.mem t.ppn = k.mem t.ppn := hsame _ hd.tables.root_mem
  have hchild : ∀ i, Unused k₀.mem root i →
      PTE.child (k'.mem t.ppn i) = PTE.child (k.mem t.ppn i) := fun i _ => by rw [hroot]
  have hmid : ∀ i, Unused k₀.mem root i →
      mid PTE.child k'.mem t.ppn i = mid PTE.child k.mem t.ppn i := hchild
  have hbot : ∀ i, Unused k₀.mem root i → ∀ j,
      bottom PTE.child k'.mem t.ppn i j = bottom PTE.child k.mem t.ppn i j := fun i hi j =>
    hd.tables.bottom_congr hchild (fun p hp _ j => by rw [hsame p hp]) hi j
  refine ⟨⟨⟨page :: held, ?_⟩, ?_, ?_, ?_, fun i hi => ?_, fun p hp => ?_, fun v hv => ?_,
    fun i hi => ?_, fun i hi j => ?_⟩, hacc₁.lt_memEnd (List.mem_cons_self ..)⟩
  · exact (hacc₁.of_alloc_eq halloc).congr List.perm_middle.symm
  · have hav' : k'.available = k₁.available := by rw [Phys.available, halloc, Phys.available]
    show _ = d.free - 1
    rw [hav', ← hd.available]
    omega
  · exact hd.tables.frame hchild fun p hp _ j => by rw [hsame p hp]
  · exact hd.noLarge.frame hd.tables (fun i _ => by rw [hroot]; exact ⟨rfl, id⟩)
      fun p hp _ j h => by rwa [hsame p hp]
  · rw [hroot]
    exact hd.shared i hi
  · rw [← hd.frame p hp]
    exact hmem p fun e => hfresh (e ▸ List.mem_append_right _ (List.mem_append_right _ hp))
  · have hleaf : leaf PTE.child 0 k'.mem t.ppn v.vpn2 v.vpn1 v.vpn0 =
        leaf PTE.child 0 k.mem t.ppn v.vpn2 v.vpn1 v.vpn0 :=
      hd.tables.leaf_rel rfl hchild (fun p hp _ j => by rw [hsame p hp]; exact ⟨rfl, rfl⟩) hv _ _
    rw [hleaf]
    exact hd.valid_iff v hv
  · rw [hmid i hi]
    exact hd.mid_iff i hi
  · rw [hbot i hi]
    exact hd.bottom_iff i hi j

/-! ### A page number of the space's own -/

theorem Drawn.missing_eq (hd : Drawn first rest root k₀ d k t)
    (hU : Unused k₀.mem root (parseVpn vpn).vpn2) :
    missingTables k.mem t.ppn vpn = d.missing (parseVpn vpn) := by
  rw [missingTables_eq_add, Draft.missing]
  have hmid : mid PTE.child k.mem t.ppn (parseVpn vpn).vpn2 = none ↔
      ¬∃ q ∈ d.mapped, q.vpn2 = (parseVpn vpn).vpn2 := by
    rw [hd.mid_iff _ hU]
    push Not
    rfl
  have hbot : bottom PTE.child k.mem t.ppn (parseVpn vpn).vpn2 (parseVpn vpn).vpn1 = none ↔
      ¬∃ q ∈ d.mapped, q.vpn2 = (parseVpn vpn).vpn2 ∧ q.vpn1 = (parseVpn vpn).vpn1 := by
    rw [hd.bottom_iff _ hU]
    simp only [ne_eq, Prod.mk.injEq, not_exists, not_and]
  by_cases hb : ∃ q ∈ d.mapped, q.vpn2 = (parseVpn vpn).vpn2 ∧ q.vpn1 = (parseVpn vpn).vpn1
  · have hm : ∃ q ∈ d.mapped, q.vpn2 = (parseVpn vpn).vpn2 :=
      hb.imp fun _ h => ⟨h.1, h.2.1⟩
    rw [if_neg (fun h => hbot.mp h hb), if_neg (fun h => hmid.mp h hm), if_pos hb]
  · rw [if_pos (hbot.mpr hb), if_neg hb]
    by_cases hm : ∃ q ∈ d.mapped, q.vpn2 = (parseVpn vpn).vpn2
    · rw [if_neg (fun h => hmid.mp h hm), if_pos hm]
    · rw [if_pos (hmid.mpr hm), if_neg hm]

/-- **When a page number of the space's own is mapped.** -/
theorem Drawn.mapCreate_ok_iff (hd : Drawn first rest root k₀ d k t)
    (hU : Unused k₀.mem root (parseVpn vpn).vpn2) (hppn : ppn < 2 ^ 44)
    (hflags : PTE.isValidFlags pteFlags = true) :
    (mapCreate k t vpn ppn pteFlags).1 = .ok () ↔ d.Maps (parseVpn vpn) := by
  obtain ⟨held, hacc⟩ := hd.accounted
  have hvalid := hd.valid_iff (parseVpn vpn) hU
  by_cases hmem : parseVpn vpn ∈ d.mapped
  · refine ⟨fun h => ?_, fun h => absurd hmem h.1⟩
    obtain ⟨⟨res, k', t'⟩, hmap⟩ : ∃ r, mapCreate k t vpn ppn pteFlags = r := ⟨_, rfl⟩
    rw [hmap] at h
    have hinv := ((mapCreate_spec hacc hd.tables hU hppn hmap).leaf_ok h).2.1
    rw [pteAt, hvalid.mpr hmem] at hinv
    cases hinv
  · have hinv : PTE.isValid (pteAt k.mem t.ppn vpn) = false := by
      rw [← Bool.not_eq_true, pteAt, hvalid]
      exact hmem
    rw [RootPgt.mapCreate_ok_iff hacc hd.tables hU hd.noLarge hinv, hd.missing_eq hU,
      hd.available, Draft.Maps]
    exact ⟨fun h => ⟨hmem, h.2⟩, fun h => ⟨hflags, h.2⟩⟩

/-- **The draft after a page number has been mapped.** -/
theorem Drawn.mapped (hd : Drawn first rest root k₀ d k t)
    (hU : Unused k₀.mem root (parseVpn vpn).vpn2) (hppn : ppn < 2 ^ 44)
    (h : mapCreate k t vpn ppn pteFlags = (.ok (), k', t')) :
    Drawn first rest root k₀ (d.map (parseVpn vpn)) k' t' := by
  obtain ⟨held, hacc⟩ := hd.accounted
  have g := mapCreate_spec hacc hd.tables hU hppn h
  obtain ⟨hlinked, hav⟩ := mapCreate_linked hacc hd.tables hU h
  obtain ⟨hflags, -, hleaf⟩ := g.leaf_ok rfl
  rw [hd.missing_eq hU, hd.available] at hav
  have hnew : PTE.isValid (ppn * 1024 + pteFlags) = true := by
    rw [PTE.isValid_iff]
    have := (PTE.isValidFlags_iff.mp hflags).2.1
    omega
  refine ⟨⟨held, g.accounted⟩, ?_, g.tables, g.noLarge hd.noLarge, fun i hi => ?_, fun p hp => ?_,
    fun v hv => ?_, fun i hi => ?_, fun i hi j => ?_⟩
  · show _ = d.free - _
    omega
  · rw [g.ppn_eq, g.root_frame i fun e => hi (e ▸ hU)]
    exact hd.shared i hi
  · rw [g.frame_rest (List.mem_append_right _ hp)]
    exact hd.frame p hp
  · rw [g.ppn_eq, hleaf hv, Draft.map, List.mem_cons]
    by_cases he : v.vpn2 = (parseVpn vpn).vpn2 ∧ v.vpn1 = (parseVpn vpn).vpn1 ∧
        v.vpn0 = (parseVpn vpn).vpn0
    · rw [if_pos he]
      exact ⟨fun _ => Or.inl (Parsed.ext he.2.2 he.2.1 he.1), fun _ => hnew⟩
    · rw [if_neg he, hd.valid_iff v hv, or_iff_right]
      rintro rfl
      exact he ⟨rfl, rfl, rfl⟩
  · rw [hlinked.mid_none i hi, hd.mid_iff i hi, Draft.map]
    simp only [List.forall_mem_cons, and_comm, ne_comm]
  · rw [hlinked.bottom_none i hi, hd.bottom_iff i hi, Draft.map]
    simp only [List.forall_mem_cons, and_comm, ne_comm]

/-- Whatever the result, the other owners keep what they had. -/
theorem Drawn.mapCreate_frame (hd : Drawn first rest root k₀ d k t)
    (hU : Unused k₀.mem root (parseVpn vpn).vpn2) (hppn : ppn < 2 ^ 44)
    {res : Except PgtError Unit} (h : mapCreate k t vpn ppn pteFlags = (res, k', t')) :
    ∀ p ∈ rest, k'.mem p = k₀.mem p := by
  obtain ⟨held, hacc⟩ := hd.accounted
  have g := mapCreate_spec hacc hd.tables hU hppn h
  intro p hp
  rw [g.frame_rest (List.mem_append_right _ hp)]
  exact hd.frame p hp

/-! ### A page number below a slot of the kernel -/

theorem KernelImage.Intact.mid_mem {m : Mem} {i p : ℕ} (himg : img.Intact m)
    (h : PTE.child (m img.root i) = some p) : p ∈ img.pages := by
  rw [(himg img.root img.root_mem i).child_eq] at h
  exact img.mid_mem h

theorem KernelImage.Intact.bottom_mem {m : Mem} {i j p q : ℕ} (himg : img.Intact m)
    (h : PTE.child (m img.root i) = some p) (hq : PTE.child (m p j) = some q) : q ∈ img.pages := by
  rw [(himg p (himg.mid_mem h) j).child_eq] at hq
  rw [(himg img.root img.root_mem i).child_eq] at h
  exact img.bottom_mem h hq

/-- An entry of the kernel's tables that was not valid is valid now. -/
def Spoiled (img : KernelImage) (k₀ k : Phys) : Prop :=
  ∃ p ∈ img.pages, ∃ j, PTE.isValid (k₀.mem p j) = false ∧ PTE.isValid (k.mem p j) = true

theorem Spoiled.ne (h : Spoiled img k k') : ¬∀ p ∈ img.pages, k'.mem p = k.mem p := by
  obtain ⟨p, hp, j, hinvalid, hvalid⟩ := h
  intro hsame
  rw [hsame p hp, hinvalid] at hvalid
  cases hvalid

/-- A valid entry stays. -/
theorem Spoiled.mono (hrest : ∀ p ∈ img.pages, p ∈ rest) (h : Spoiled img k₀ k)
    (hk : KeepsValid rest k k') : Spoiled img k₀ k' := by
  obtain ⟨p, hp, j, h₀, h₁⟩ := h
  exact ⟨p, hp, j, h₀, by rw [hk p (hrest p hp) j h₁, h₁]⟩

/-- Below a slot of the kernel the space has the kernel's tables. -/
theorem Drawn.pathOf_eq (hrest : ∀ p ∈ img.pages, p ∈ rest) (himg : img.Intact k₀.mem)
    (hd : Drawn first rest img.root k₀ d k t) (hU : ¬Unused k₀.mem img.root (parseVpn vpn).vpn2) :
    pathOf k.mem t.ppn vpn = pathOf k₀.mem img.root vpn := by
  have hroot : k.mem img.root = k₀.mem img.root := hd.frame _ (hrest _ img.root_mem)
  have hsame : pathOf k.mem t.ppn vpn = pathOf k.mem img.root vpn := by
    unfold pathOf path
    rw [hd.shared _ hU, hroot]
  rw [hsame]
  refine path_congr (by rw [hroot]) (fun p hp => ?_) fun p q hp hq => ?_
  · rw [hd.frame p (hrest p (himg.mid_mem hp))]
  · rw [hd.frame q (hrest q (himg.bottom_mem hp hq))]

/-- The table below a slot of the kernel is found. -/
theorem Drawn.descend_kernel (hd : Drawn first rest root k₀ d k t) {i p : ℕ}
    (hU : ¬Unused k₀.mem root i) (h : PTE.child (k₀.mem root i) = some p) :
    descend k t vpn ppn t.ppn i = (.ok p, k, t) := by
  have hword := hd.shared i hU
  exact descend_of_child (by rw [hword]; exact h) (by rw [hword]; exact (isValid_of_child h).2.1)

/-- **A refused page number: nothing is written.** -/
theorem Drawn.refused (hrest : ∀ p ∈ img.pages, p ∈ rest) (himg : img.Intact k₀.mem)
    (hd : Drawn first rest img.root k₀ d k t) (hU : ¬Unused k₀.mem img.root (parseVpn vpn).vpn2)
    (hflags : PTE.isValidFlags pteFlags = true) (h : Refuses k₀.mem img.root d.free vpn) :
    ∃ e, mapCreate k t vpn ppn pteFlags = (.error e, k, t) := by
  by_cases hocc : PTE.isValid (pathOf k₀.mem img.root vpn).word = true
  · exact ⟨_, mapCreate_of_occupied hflags (by rw [hd.pathOf_eq hrest himg hU]; exact hocc)⟩
  obtain ⟨hfree, hnone⟩ := h.resolve_left hocc
  rcases path_cases PTE.child k₀.mem img.root (parseVpn vpn).vpn2 (parseVpn vpn).vpn1
    (parseVpn vpn).vpn0 with ⟨-, hp⟩ | ⟨p, hmid, hno, hp⟩ | ⟨q, hq, -⟩
  · -- a slot in use that refers to no table is a valid end of the path
    rw [pathOf, hp, Stop.word_top] at hocc
    exact absurd (Bool.eq_false_of_not_eq_true hocc) hU
  · rw [pathOf, hp, Stop.word_inner] at hocc
    have hv : PTE.isValid (k.mem p (parseVpn vpn).vpn1) = false := by
      rw [hd.frame p (hrest p (himg.mid_mem hmid))]
      simpa using hocc
    exact ⟨_, mapCreate_of_descend_error₂ hflags (hd.descend_kernel hU hmid)
      (descend_exhausted hv (hd.available.trans hfree))⟩
  · rw [hnone] at hq
    cases hq

/-- **Otherwise a table of the kernel is written.** -/
theorem Drawn.spoils (hrest : ∀ p ∈ img.pages, p ∈ rest) (himg : img.Intact k₀.mem)
    (hd : Drawn first rest img.root k₀ d k t) (hU : ¬Unused k₀.mem img.root (parseVpn vpn).vpn2)
    (hppn : ppn < 2 ^ 44) (hflags : PTE.isValidFlags pteFlags = true)
    (hno : ¬Refuses k₀.mem img.root d.free vpn) {res : Except PgtError Unit}
    (h : mapCreate k t vpn ppn pteFlags = (res, k', t')) : Spoiled img k₀ k' := by
  obtain ⟨held, hacc⟩ := hd.accounted
  obtain ⟨hocc, hroom⟩ := not_or.mp hno
  rw [mapCreate, PTE.new, if_pos hflags, PTE.lor_flags hppn (PTE.isValidFlags_iff.mp hflags).1] at h
  dsimp only at h
  rcases path_cases PTE.child k₀.mem img.root (parseVpn vpn).vpn2 (parseVpn vpn).vpn1
    (parseVpn vpn).vpn0 with ⟨-, hp⟩ | ⟨p, hmid, hnone, hp⟩ | ⟨q, hq, hp⟩
  · rw [pathOf, hp, Stop.word_top] at hocc
    exact absurd (Bool.eq_false_of_not_eq_true hocc) hU
  · -- a table is missing: a new one is linked into the table of the kernel
    rw [pathOf, hp, Stop.word_inner] at hocc
    have hmem := himg.mid_mem hmid
    rw [hd.descend_kernel hU hmid] at h
    dsimp only at h
    have hbot : bottom PTE.child k₀.mem img.root (parseVpn vpn).vpn2 (parseVpn vpn).vpn1 = none := by
      rw [bottom, hmid, Option.bind_some, hnone]
    obtain ⟨⟨res₂, k₂, t₂⟩, h₂⟩ :
        ∃ r, descend k t vpn ppn p (parseVpn vpn).vpn1 = r := ⟨_, rfl⟩
    have hframe := hd.frame p (hrest p hmem)
    have hv : PTE.isValid (k.mem p (parseVpn vpn).vpn1) = false := by
      rw [hframe]
      simpa using hocc
    rcases descend_cases hacc h₂ with ⟨hl, -⟩ | ⟨q, hc, -⟩ | ⟨-, hal, -⟩ |
      ⟨page, -, hfresh, -, rfl, hmem₂, -, -⟩
    · rw [isValid_of_isLeaf hl] at hv
      cases hv
    · rw [(isValid_of_child hc).1] at hv
      cases hv
    · exact absurd ⟨hd.available.symm.trans (Phys.allocZeroedPage_eq_none.mp hal), hbot⟩ hroom
    · have hne : page ≠ p := by
        rintro rfl
        exact hfresh (List.mem_append_right _ (List.mem_append_right _ (hrest _ hmem)))
      rw [h₂] at h
      dsimp only at h
      refine ⟨p, hmem, (parseVpn vpn).vpn1, by simpa using hocc, ?_⟩
      have hlinked : k₂.mem p (parseVpn vpn).vpn1 = page * 1024 + 1 := by
        simp [hmem₂]
      have hvalid : PTE.isValid (page * 1024 + 1) = true := by
        rw [PTE.isValid_iff]
        omega
      split at h
      · cases h
        rw [hlinked]
        exact hvalid
      · cases h
        dsimp only
        rw [put_apply, if_neg (fun e => hne e.1.symm), hlinked]
        exact hvalid
  · -- both tables are there: the entry is written
    rw [pathOf, hp, Stop.word_leaf] at hocc
    obtain ⟨p, hmid, hc⟩ := bottom_eq_some.mp hq
    have hmem := himg.bottom_mem hmid hc
    have hword := hd.frame p (hrest p (himg.mid_mem hmid))
    rw [hd.descend_kernel hU hmid] at h
    dsimp only at h
    rw [descend_of_child (by rw [hword]; exact hc)
      (by rw [hword]; exact (isValid_of_child hc).2.1)] at h
    dsimp only at h
    have hv : ¬PTE.isValid (k.mem q (parseVpn vpn).vpn0) = true := by
      rw [hd.frame q (hrest q hmem)]
      exact hocc
    rw [if_neg hv] at h
    cases h
    refine ⟨q, hmem, (parseVpn vpn).vpn0, by simpa using hocc, ?_⟩
    dsimp only
    rw [put_apply, if_pos ⟨rfl, rfl⟩, PTE.isValid_iff]
    have := (PTE.isValidFlags_iff.mp hflags).2.1
    omega

end RCoreKernel.Mm
