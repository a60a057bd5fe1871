import RCoreKernel.Mm.Sv39

/-!
# The Sv39 walk

The hardware follows an entry when it is valid and none of `R`, `W`, `X` is set; an entry with `R`
or `X` is a leaf, and writable without readable is a fault.  The software's test `PTE.isLeaf` asks
for `W` or `X`, so the two differ on read-only leaves.  `PTE.Regular` excludes those above
level 0, and then both walks agree (`path_hwChild`).

* `mapCreate_created` — **`map_create` seen through the walk**: which of its four results it
  gives, and that it changes no translation but the requested one.
-/

namespace RCoreKernel.Mm

open Radix

namespace PTE

/-- What the hardware makes of an entry. -/
inductive Kind
  | fault
  | leaf
  | pointer
  deriving DecidableEq, Repr

def kind (pte : ℕ) : Kind :=
  if !isValid pte || isReservedXwrEncodings pte then .fault
  else if pte &&& flagR ≠ 0 ∨ pte &&& flagX ≠ 0 then .leaf
  else .pointer

/-- The next table, for the hardware. -/
def hwChild (pte : ℕ) : Option ℕ := if kind pte = .pointer then some (getPpn pte) else none

/-- A leaf of the hardware is a leaf of the software. -/
def Regular (pte : ℕ) : Prop := kind pte = .leaf → isLeaf pte = true

instance (pte : ℕ) : Decidable (Regular pte) := inferInstanceAs (Decidable (_ → _))

theorem kind_eq (pte : ℕ) : kind pte =
    if pte % 2 = 0 ∨ (pte / 2 % 2 = 0 ∧ pte / 4 % 2 = 1) then .fault
    else if pte / 2 % 2 = 1 ∨ pte / 8 % 2 = 1 then .leaf else .pointer := by
  have hR : pte &&& flagR = pte / 2 % 2 * 2 := land_block pte 1 1
  have hX : pte &&& flagX = pte / 8 % 2 * 8 := land_block pte 1 3
  have h1 : (!isValid pte || isReservedXwrEncodings pte) = true ↔
      pte % 2 = 0 ∨ (pte / 2 % 2 = 0 ∧ pte / 4 % 2 = 1) := by
    rw [Bool.or_eq_true, Bool.not_eq_true', isValid_eq_false_iff, isReservedXwrEncodings_iff]
  have h2 : pte &&& flagR ≠ 0 ∨ pte &&& flagX ≠ 0 ↔ pte / 2 % 2 = 1 ∨ pte / 8 % 2 = 1 := by
    rw [hR, hX]
    omega
  unfold kind
  simp only [h1, h2]

theorem kind_of_invalid {pte : ℕ} (h : isValid pte = false) : kind pte = .fault := by
  rw [isValid_eq_false_iff] at h
  rw [kind_eq, if_pos (.inl h)]

/-- On regular entries both notions of a child agree. -/
theorem hwChild_eq {pte : ℕ} (h : Regular pte) : hwChild pte = child pte := by
  unfold Regular at h
  rw [kind_eq, isLeaf_iff] at h
  unfold hwChild child
  rw [kind_eq]
  by_cases h0 : pte % 2 = 0 ∨ (pte / 2 % 2 = 0 ∧ pte / 4 % 2 = 1)
  · have hno : (isValid pte && !isLeaf pte) = false := by
      rw [← Bool.not_eq_true, Bool.and_eq_true, Bool.not_eq_true', ← Bool.not_eq_true, isValid_iff,
        isLeaf_iff]
      omega
    rw [if_pos h0, hno]
    rfl
  · rw [if_neg h0] at h ⊢
    by_cases h1 : pte / 2 % 2 = 1 ∨ pte / 8 % 2 = 1
    · rw [if_pos h1] at h
      have hno : (isValid pte && !isLeaf pte) = false := by
        rw [← Bool.not_eq_true, Bool.and_eq_true, Bool.not_eq_true', ← Bool.not_eq_true, isValid_iff,
          isLeaf_iff]
        have := h rfl
        omega
      rw [if_pos h1, hno]
      rfl
    · have hyes : (isValid pte && !isLeaf pte) = true := by
        rw [Bool.and_eq_true, Bool.not_eq_true', ← Bool.not_eq_true, isValid_iff, isLeaf_iff]
        omega
      rw [if_neg h1, hyes]
      rfl

theorem regular_zero : Regular 0 := by decide

theorem regular_pointer (page : ℕ) : Regular (page * 1024 + 1) := by
  unfold Regular
  rw [kind_eq, isLeaf_iff]
  intro h
  split at h
  · cases h
  · split at h
    · omega
    · cases h

end PTE

/-! ### Translation -/

/-- What the entry at the end of a walk translates to: the physical page number and the flags.
Large and huge pages must be aligned. -/
def decode (vpn1 vpn0 : ℕ) : Stop ℕ → Option (ℕ × ℕ)
  | .top w =>
    if PTE.kind w = .leaf ∧ PTE.getPpn w % 2 ^ 18 = 0 then
      some (PTE.getPpn w + vpn1 * 512 + vpn0, w % 1024)
    else none
  | .inner w =>
    if PTE.kind w = .leaf ∧ PTE.getPpn w % 2 ^ 9 = 0 then
      some (PTE.getPpn w + vpn0, w % 1024)
    else none
  | .leaf w => if PTE.kind w = .leaf then some (PTE.getPpn w, w % 1024) else none

/-- Where the hardware's walk of `vpn` ends. -/
def walk (m : Mem) (root vpn : ℕ) : Stop ℕ :=
  path PTE.hwChild m root (parseVpn vpn).vpn2 (parseVpn vpn).vpn1 (parseVpn vpn).vpn0

/-- The Sv39 translation of a page number. -/
def translate (m : Mem) (root vpn : ℕ) : Option (ℕ × ℕ) :=
  decode (parseVpn vpn).vpn1 (parseVpn vpn).vpn0 (walk m root vpn)

/-- The walk ends at a valid entry: a level-0 entry, or a large or huge page. -/
def Occupied (m : Mem) (root vpn : ℕ) : Prop := PTE.isValid (walk m root vpn).word = true

instance (m : Mem) (root vpn : ℕ) : Decidable (Occupied m root vpn) :=
  inferInstanceAs (Decidable (_ = _))

/-- Root slots. -/
def Slot (i : ℕ) : Prop := i < 512

/-- All entries above level 0 are regular. -/
abbrev RegularTables (m : Mem) (root : ℕ) : Prop := Interior PTE.child PTE.Regular Slot m root

theorem parseVpn_slot (vpn : ℕ) : Slot (parseVpn vpn).vpn2 := by
  rw [parseVpn_eq]
  exact Nat.mod_lt _ (by decide)

theorem path_hwChild {m : Mem} {r i : ℕ} {U : ℕ → Prop} (h : Interior PTE.child PTE.Regular U m r)
    (hi : U i) (j c : ℕ) :
    path PTE.hwChild m r i j c = path PTE.child m r i j c := by
  have h2 : mid PTE.hwChild m r i = mid PTE.child m r i := PTE.hwChild_eq (h.top hi)
  rcases path_cases PTE.child m r i j c with ⟨h1, hp⟩ | ⟨p, h1, h3, hp⟩ | ⟨q, h1, hp⟩
  · rw [hp]
    exact path_of_mid_none (h2.trans h1) j c
  · have h4 := PTE.hwChild_eq (h.inner hi h1 j)
    rw [hp]
    exact path_of_mid (h2.trans h1) (h4.trans h3) c
  · obtain ⟨p, h3, h4⟩ := bottom_eq_some.mp h1
    have h5 := PTE.hwChild_eq (h.inner hi h3 j)
    rw [hp]
    exact path_of_bottom (bottom_eq_some.mpr ⟨p, h2.trans h3, h5.trans h4⟩) c

theorem walk_eq {m : Mem} {r : ℕ} (h : RegularTables m r) (vpn : ℕ) :
    walk m r vpn =
      path PTE.child m r (parseVpn vpn).vpn2 (parseVpn vpn).vpn1 (parseVpn vpn).vpn0 :=
  path_hwChild h (parseVpn_slot vpn) _ _

theorem decode_of_invalid {s : Stop ℕ} (h : PTE.isValid s.word = false) (b c : ℕ) :
    decode b c s = none := by
  have hk := PTE.kind_of_invalid h
  cases s with
  | top w => exact if_neg fun hw => by cases hk.symm.trans hw.1
  | inner w => exact if_neg fun hw => by cases hk.symm.trans hw.1
  | leaf w => exact if_neg fun hw => by cases hk.symm.trans hw

theorem decode_same {s s' : Stop ℕ} (h : RootPgt.SameTarget s s') (b c : ℕ) :
    decode b c s' = decode b c s := by
  rcases h with rfl | ⟨h1, h2⟩
  · rfl
  · rw [decode_of_invalid h1, decode_of_invalid h2]

/-- Canonical page numbers with the same indices are equal. -/
def Canonical (vpn : ℕ) : Prop := ∃ va < 2 ^ 64, VPN.fromVa va = some vpn

theorem Canonical.lt {vpn : ℕ} (h : Canonical vpn) :
    vpn < 2 ^ 26 ∨ (2 ^ 52 - 2 ^ 26 ≤ vpn ∧ vpn < 2 ^ 52) := by
  obtain ⟨va, hlt, hva⟩ := h
  obtain ⟨hvalid, rfl⟩ := VPN.fromVa_eq_some hva
  rcases (VPN.isValidVa_iff hlt).mp hvalid with h | h
  · omega
  · omega

theorem Canonical.ext {vpn vpn' : ℕ} (h : Canonical vpn) (h' : Canonical vpn')
    (he : parseVpn vpn = parseVpn vpn') : vpn = vpn' := by
  have h1 := h.lt
  have h2 := h'.lt
  rw [parseVpn_eq, parseVpn_eq] at he
  simp only [Parsed.mk.injEq] at he
  omega

/-! ### The results of `map_create` -/

namespace RootPgt

variable {U : ℕ → Prop} {first vpn ppn pteFlags : ℕ} {rest nodes : List ℕ} {k k' : Phys}
  {t t' : RootPgt}

/-- The path of `vpn` that the software follows. -/
abbrev pathOf (m : Mem) (root vpn : ℕ) : Stop ℕ :=
  path PTE.child m root (parseVpn vpn).vpn2 (parseVpn vpn).vpn1 (parseVpn vpn).vpn0

/-- The rounds of `map_create` above level 0, when the path of `vpn` ends at a valid entry. -/
theorem descend_of_valid {table idx : ℕ} (hv : PTE.isValid (k.mem table idx) = true) :
    descend k t vpn ppn table idx =
      if PTE.isLeaf (k.mem table idx) then (.error (.doubleMapping vpn ppn), k, t)
      else (.ok (PTE.getPpn (k.mem table idx)), k, t) := by
  rw [descend, if_pos hv]

theorem isValid_of_child {w p : ℕ} (h : PTE.child w = some p) :
    PTE.isValid w = true ∧ PTE.isLeaf w = false ∧ PTE.getPpn w = p := by
  obtain ⟨h1, h2, h3⟩ := PTE.child_eq_some.mp h
  refine ⟨PTE.isValid_iff.mpr h1, ?_, h3⟩
  rw [← Bool.not_eq_true, PTE.isLeaf_iff]
  omega

theorem isLeaf_of_no_child {w : ℕ} (hv : PTE.isValid w = true) (h : PTE.child w = none) :
    PTE.isLeaf w = true := by
  by_contra hl
  rw [PTE.child_of_valid hv (by simpa using hl)] at h
  cases h

/-- A page number whose path ends at a valid entry is refused, and nothing changes. -/
theorem mapCreate_of_occupied (hflags : PTE.isValidFlags pteFlags = true)
    (hocc : PTE.isValid (pathOf k.mem t.ppn vpn).word = true) :
    mapCreate k t vpn ppn pteFlags = (.error (.doubleMapping vpn ppn), k, t) := by
  rw [mapCreate, PTE.new, if_pos hflags]
  dsimp only
  rcases path_cases PTE.child k.mem t.ppn (parseVpn vpn).vpn2 (parseVpn vpn).vpn1
    (parseVpn vpn).vpn0 with ⟨h1, hp⟩ | ⟨p, h1, h2, hp⟩ | ⟨q, h1, hp⟩
  · rw [pathOf, hp, Stop.word_top] at hocc
    rw [descend_of_valid hocc, if_pos (isLeaf_of_no_child hocc h1)]
  · rw [pathOf, hp, Stop.word_inner] at hocc
    obtain ⟨hv, hl, hpp⟩ := isValid_of_child h1
    rw [descend_of_valid hv, if_neg (by simp [hl]), hpp]
    dsimp only
    rw [descend_of_valid hocc, if_pos (isLeaf_of_no_child hocc h2)]
  · rw [pathOf, hp, Stop.word_leaf] at hocc
    obtain ⟨p, h3, h4⟩ := bottom_eq_some.mp h1
    obtain ⟨hv, hl, hpp⟩ := isValid_of_child h3
    obtain ⟨hv', hl', hqq⟩ := isValid_of_child h4
    rw [descend_of_valid hv, if_neg (by simp [hl]), hpp]
    dsimp only
    rw [descend_of_valid hv', if_neg (by simp [hl']), hqq]
    dsimp only
    exact if_pos hocc

/-- Growing tables leaves a path that ends at a valid entry alone. -/
theorem Grown.occupied (g : Grown U first rest (parseVpn vpn).vpn2 k t k' t')
    (hU : U (parseVpn vpn).vpn2) (hv : PTE.isValid (pathOf k'.mem t'.ppn vpn).word = true) :
    PTE.isValid (pathOf k.mem t.ppn vpn).word = true := by
  rcases g.path_same hU with h | ⟨-, h⟩
  · rwa [pathOf, h] at hv
  · rw [h] at hv
    cases hv

/-- Why a round above level 0 fails. -/
theorem descend_error (hacc : k.Accounted first (t.pages ++ rest)) {table idx : ℕ} {e : PgtError}
    (h : descend k t vpn ppn table idx = (.error e, k', t')) :
    PTE.isLeaf (k.mem table idx) = true ∨ e = .acquirePageFailed ∧ k'.allocZeroedPage = none := by
  rcases descend_cases hacc h with ⟨hl, -⟩ | ⟨p, _, hres, -⟩ | ⟨_, hal, hres, rfl, -⟩ |
    ⟨page, _, _, _, hres, -⟩
  · exact .inl hl
  · cases hres
  · exact .inr ⟨Except.error.inj hres, hal⟩
  · cases hres

theorem isValid_of_isLeaf {w : ℕ} (h : PTE.isLeaf w = true) : PTE.isValid w = true :=
  PTE.isValid_iff.mpr (PTE.isLeaf_iff.mp h).1

/-- Otherwise `map_create` succeeds or runs out of pages. -/
theorem mapCreate_of_free (hacc : k.Accounted first (t.pages ++ rest)) (ht : Tables U k t)
    (hU : U (parseVpn vpn).vpn2) (hflags : PTE.isValidFlags pteFlags = true)
    (hfree : PTE.isValid (pathOf k.mem t.ppn vpn).word = false) {res : Except PgtError Unit}
    (h : mapCreate k t vpn ppn pteFlags = (res, k', t')) :
    res = .ok () ∨ (res = .error .acquirePageFailed ∧ k'.allocZeroedPage = none) := by
  have hno : ∀ {k' : Phys} {t' : RootPgt}, Grown U first rest (parseVpn vpn).vpn2 k t k' t' →
      PTE.isValid (pathOf k'.mem t'.ppn vpn).word ≠ true := fun g hv => by
    rw [g.occupied hU hv] at hfree
    cases hfree
  rw [mapCreate, PTE.new, if_pos hflags] at h
  dsimp only at h
  split at h
  · rename_i e k₁ t₁ h₁
    obtain ⟨rfl, hk⟩ := Prod.mk.inj h
    obtain ⟨rfl, rfl⟩ := Prod.mk.inj hk
    rcases descend_error hacc h₁ with hl | ⟨rfl, hal⟩
    · -- a huge page would be a valid end of the path
      have hm : mid PTE.child k.mem t.ppn (parseVpn vpn).vpn2 = none := PTE.child_of_leaf hl
      have hp : pathOf k.mem t.ppn vpn = _ := path_of_mid_none hm _ _
      refine absurd (isValid_of_isLeaf hl) ?_
      have := hno (Grown.refl hacc ht)
      rwa [hp] at this
    · exact .inr ⟨rfl, hal⟩
  rename_i table1 k₁ t₁ h₁
  obtain ⟨g₁, hmid⟩ := descend_root hacc ht h₁
  have hmid := hmid _ rfl
  split at h
  · rename_i e k₂ t₂ h₂
    obtain ⟨rfl, hk⟩ := Prod.mk.inj h
    obtain ⟨rfl, rfl⟩ := Prod.mk.inj hk
    rcases descend_error g₁.accounted h₂ with hl | ⟨rfl, hal⟩
    · have hp : pathOf k₁.mem t₁.ppn vpn = _ := path_of_mid hmid (PTE.child_of_leaf hl) _
      refine absurd (isValid_of_isLeaf hl) ?_
      have := hno g₁
      rwa [hp] at this
    · exact .inr ⟨rfl, hal⟩
  rename_i table0 k₂ t₂ h₂
  obtain ⟨g₂, hbot⟩ := descend_mid g₁.accounted g₁.tables hU hmid h₂
  have hbot := hbot _ rfl
  split at h
  · rename_i hv
    have hp : pathOf k₂.mem t₂.ppn vpn = _ := path_of_bottom hbot _
    refine absurd hv ?_
    have := hno (g₁.trans g₂)
    rwa [hp] at this
  · exact .inl (Prod.mk.inj h).1.symm

/-! ### Tables that are not all listed in the root

A root made by `new_copy` leads to the kernel's tables, which it does not own.  `map_create` never
reads the list of pages, so its specification carries over to any list of tables. -/

/-- The root with further pages listed before its own. -/
def listing (l : List ℕ) (t : RootPgt) : RootPgt := ⟨t.ppn, l ++ t.pages⟩

theorem descend_listing (l : List ℕ) (k : Phys) (t : RootPgt) (vpn ppn table idx : ℕ) :
    descend k (t.listing l) vpn ppn table idx =
      Prod.map id (Prod.map id (listing l)) (descend k t vpn ppn table idx) := by
  unfold descend
  dsimp only
  split
  · split <;> rfl
  · split
    · rfl
    · split
      · rfl
      · split <;> simp [listing, List.append_assoc]

theorem mapCreate_listing (l : List ℕ) (k : Phys) (t : RootPgt) (vpn ppn pteFlags : ℕ) :
    mapCreate k (t.listing l) vpn ppn pteFlags =
      Prod.map id (Prod.map id (listing l)) (mapCreate k t vpn ppn pteFlags) := by
  unfold mapCreate
  dsimp only
  cases PTE.new ppn pteFlags with
  | error e => rfl
  | ok leafPte =>
    dsimp only
    rw [descend_listing]
    obtain ⟨r₁, k₁, t₁, h₁⟩ : ∃ r k' t',
        descend k t vpn ppn t.ppn (parseVpn vpn).vpn2 = (r, k', t') := ⟨_, _, _, rfl⟩
    rw [show (t.listing l).ppn = t.ppn from rfl, h₁]
    cases r₁ with
    | error e => rfl
    | ok table1 =>
      simp only [Prod.map, id]
      rw [descend_listing]
      obtain ⟨r₂, k₂, t₂, h₂⟩ : ∃ r k' t',
          descend k₁ t₁ vpn ppn table1 (parseVpn vpn).vpn1 = (r, k', t') := ⟨_, _, _, rfl⟩
      rw [h₂]
      cases r₂ with
      | error e => rfl
      | ok table0 =>
        simp only [Prod.map, id]
        split <;> rfl

/-! ### `map_create` and the hardware's walk -/

/-- What one call of `map_create` did, for tables `nodes` below the root.  The list `rest` holds
the other allocated pages. -/
structure MapCreated (first : ℕ) (nodes rest : List ℕ) (vpn ppn pteFlags : ℕ) (k : Phys)
    (t : RootPgt) (res : Except PgtError Unit) (k' : Phys) (t' : RootPgt) : Prop where
  /-- Success: the walk of `vpn` ends at level 0, in an entry with that page number and flags. -/
  ok : res = .ok () → walk k'.mem t'.ppn vpn = .leaf (ppn * 1024 + pteFlags) ∧
    PTE.getPpn (ppn * 1024 + pteFlags) = ppn ∧ (ppn * 1024 + pteFlags) % 1024 = pteFlags
  /-- Every other translation is unchanged, and after an error every translation is. -/
  others : ∀ v, Canonical v → (res = .ok () → v ≠ vpn) →
    translate k'.mem t'.ppn v = translate k.mem t.ppn v
  /-- The tables are a tree of distinct allocated pages, with the new ones listed in the root. -/
  tables : ∃ new, t'.pages = t.pages ++ new ∧ t'.ppn = t.ppn ∧
    Tree PTE.child Slot k'.mem t'.ppn (nodes ++ new) ∧
    k'.Accounted first (nodes ++ new ++ rest)
  regular : RegularTables k'.mem t'.ppn
  invalidFlags : res = .error (.invalidPteFlags pteFlags) ↔ PTE.isValidFlags pteFlags = false
  doubleMapping : res = .error (.doubleMapping vpn ppn) ↔
    PTE.isValidFlags pteFlags = true ∧ Occupied k.mem t.ppn vpn
  /-- Other errors do not occur, and pages are missing only when the allocator has run out. -/
  acquireFailed : ∀ e, res = .error e → e = .invalidPteFlags pteFlags ∨ e = .doubleMapping vpn ppn ∨
    e = .acquirePageFailed ∧ k'.allocZeroedPage = none

/-- **`map_create`.**  For every tree of tables, every canonical page number, every physical page
number and every flag word. -/
theorem mapCreate_created (hacc : k.Accounted first (nodes ++ rest))
    (ht : Tree PTE.child Slot k.mem t.ppn nodes) (hreg : RegularTables k.mem t.ppn)
    (hvpn : Canonical vpn) (hppn : ∃ pa, PPN.fromPa pa = some ppn) :
    MapCreated first nodes rest vpn ppn pteFlags k t (mapCreate k t vpn ppn pteFlags).1
      (mapCreate k t vpn ppn pteFlags).2.1 (mapCreate k t vpn ppn pteFlags).2.2 := by
  have hlt : ppn < 2 ^ 44 := by
    obtain ⟨pa, hpa⟩ := hppn
    have := PPN.fromPa_eq_some hpa
    omega
  -- run the call once with no page listed and once with all tables listed
  obtain ⟨res, k', t₀, h₀⟩ : ∃ res k' t₀,
      mapCreate k ⟨t.ppn, []⟩ vpn ppn pteFlags = (res, k', t₀) := ⟨_, _, _, rfl⟩
  have ht' : mapCreate k t vpn ppn pteFlags = (res, k', t₀.listing t.pages) := by
    have h := mapCreate_listing t.pages k ⟨t.ppn, []⟩ vpn ppn pteFlags
    rw [h₀] at h
    simpa [listing] using h
  have hn' : mapCreate k ⟨t.ppn, nodes⟩ vpn ppn pteFlags = (res, k', t₀.listing nodes) := by
    have h := mapCreate_listing nodes k ⟨t.ppn, []⟩ vpn ppn pteFlags
    rw [h₀] at h
    simpa [listing] using h
  have hslot := parseVpn_slot vpn
  have g := mapCreate_spec (t := ⟨t.ppn, nodes⟩) hacc ht hslot hlt hn'
  have hppn' : t₀.ppn = t.ppn := g.ppn_eq
  have hreg' : RegularTables k'.mem t.ppn := by
    have := g.interior PTE.regular_zero PTE.regular_pointer hreg
    rwa [show (t₀.listing nodes).ppn = t.ppn from hppn'] at this
  -- the flags are illegal, or the page number is taken, or pages decide
  have hres : (PTE.isValidFlags pteFlags = false ∧ res = .error (.invalidPteFlags pteFlags)) ∨
      (PTE.isValidFlags pteFlags = true ∧ Occupied k.mem t.ppn vpn ∧
        res = .error (.doubleMapping vpn ppn)) ∨
      (PTE.isValidFlags pteFlags = true ∧ ¬Occupied k.mem t.ppn vpn ∧
        (res = .ok () ∨ res = .error .acquirePageFailed ∧ k'.allocZeroedPage = none)) := by
    cases hflags : PTE.isValidFlags pteFlags with
    | false =>
      rw [mapCreate, PTE.new, hflags] at h₀
      exact .inl ⟨rfl, (Prod.mk.inj h₀).1.symm⟩
    | true =>
      unfold Occupied
      rw [walk_eq hreg vpn]
      by_cases hocc : PTE.isValid (pathOf k.mem t.ppn vpn).word = true
      · have h : mapCreate k t vpn ppn pteFlags = _ := mapCreate_of_occupied hflags hocc
        exact .inr (.inl ⟨rfl, hocc, (Prod.mk.inj (ht'.symm.trans h)).1⟩)
      · exact .inr (.inr ⟨rfl, hocc,
          mapCreate_of_free hacc ht hslot hflags (by simpa using hocc) hn'⟩)
  rw [ht']
  refine ⟨?_, ?_, ?_, ?_, ?_, ?_, ?_⟩
  · rintro rfl
    have hf := (PTE.isValidFlags_iff.mp (g.leaf_ok rfl).1).1
    refine ⟨?_, ?_, by omega⟩
    · show walk k'.mem t₀.ppn vpn = _
      rw [hppn', walk_eq hreg' vpn]
      exact g.path_ok rfl
    · rw [PTE.getPpn_eq]
      omega
  · intro v hv hne
    show translate k'.mem t₀.ppn v = _
    rw [hppn', translate, translate, walk_eq hreg' v, walk_eq hreg v]
    refine decode_same (g.path_same (parseVpn_slot v) fun hok he => hne hok ?_) _ _
    exact hv.ext hvpn (Parsed.ext he.2.2 he.2.1 he.1)
  · refine ⟨t₀.pages, rfl, hppn', ?_, g.accounted⟩
    show Tree PTE.child Slot k'.mem t₀.ppn (nodes ++ t₀.pages)
    exact g.tables
  · show RegularTables k'.mem t₀.ppn
    rwa [hppn']
  · rcases hres with ⟨hf, rfl⟩ | ⟨hf, -, rfl⟩ | ⟨hf, -, rfl | ⟨rfl, -⟩⟩ <;> simp [hf]
  · rcases hres with ⟨hf, rfl⟩ | ⟨hf, ho, rfl⟩ | ⟨hf, ho, rfl | ⟨rfl, -⟩⟩
    · simp [hf]
    · simp [hf, ho]
    · simp [ho]
    · simp [ho]
  · intro e he
    rcases hres with ⟨-, rfl⟩ | ⟨-, -, rfl⟩ | ⟨-, -, rfl | ⟨rfl, hal⟩⟩
    · exact .inl (Except.error.inj he).symm
    · exact .inr (.inl (Except.error.inj he).symm)
    · cases he
    · exact .inr (.inr ⟨(Except.error.inj he).symm, hal⟩)

/-- An empty root table in page `0x80000` of an empty memory. -/
def emptyPhys : Phys := ⟨fun _ _ => 0, ⟨0x80001, memEndPpn, []⟩⟩

theorem emptyPhys_accounted : emptyPhys.Accounted 0x80000 [0x80000] :=
  ⟨⟨by decide, by decide⟩, by decide, by decide⟩

theorem emptyPhys_tables : Tree PTE.child Slot emptyPhys.mem 0x80000 [0x80000] :=
  Tree.bare fun i _ => by
    rw [mid, show emptyPhys.mem 0x80000 i = 0 from rfl, PTE.child_zero]

theorem emptyPhys_regular : RegularTables emptyPhys.mem 0x80000 :=
  ⟨fun _ => PTE.regular_zero, fun _ _ _ => PTE.regular_zero⟩

theorem mapCreate_created_empty :
    MapCreated 0x80000 [0x80000] [] 0x1234 0x85000 0b10111 emptyPhys ⟨0x80000, [0x80000]⟩
        (mapCreate emptyPhys ⟨0x80000, [0x80000]⟩ 0x1234 0x85000 0b10111).1
        (mapCreate emptyPhys ⟨0x80000, [0x80000]⟩ 0x1234 0x85000 0b10111).2.1
        (mapCreate emptyPhys ⟨0x80000, [0x80000]⟩ 0x1234 0x85000 0b10111).2.2 ∧
      (mapCreate emptyPhys ⟨0x80000, [0x80000]⟩ 0x1234 0x85000 0b10111).1.isOk = true :=
  ⟨mapCreate_created emptyPhys_accounted emptyPhys_tables emptyPhys_regular
    ⟨0x1234 * 4096, by decide, by decide⟩ ⟨0x85000 * 4096, by decide⟩, by decide⟩

end RootPgt

end RCoreKernel.Mm
