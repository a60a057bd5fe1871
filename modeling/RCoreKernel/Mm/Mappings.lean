import RCoreKernel.Mm.Walk

/-!
# Small and large mappings together

`map_create` and `map_create_large` share one tree of tables.  The first refuses a page number
whose walk ends at any valid entry; the second only looks whether the level-1 entry is a leaf in
the software's sense.  Two kinds of calls escape it: a large page over an existing table of
4 KiB pages, whose entry is overwritten, and a read-only large page, which later calls take for a
pointer to a table.

* `mapCreateLarge_cases` — everything `map_create_large` can do;
* `Sound.small`, `Sound.large` — **one call** on tables without read-only large pages.

`Mm.ReadOnly` adds these pages, and runs of calls.
-/

namespace RCoreKernel.Mm.RootPgt

open Radix

/-- One call. -/
inductive Call
  | small (vpn ppn pteFlags : ℕ)
  | large (vpn ppn pteFlags : ℕ)
  deriving DecidableEq, Repr

namespace Call

def vpn : Call → ℕ
  | small v _ _ | large v _ _ => v

def ppn : Call → ℕ
  | small _ p _ | large _ p _ => p

def pteFlags : Call → ℕ
  | small _ _ f | large _ _ f => f

def exec (k : Phys) (t : RootPgt) : Call → Option (Except PgtError Unit × Phys × RootPgt)
  | small vpn ppn pteFlags => some (mapCreate k t vpn ppn pteFlags)
  | large vpn ppn pteFlags => mapCreateLarge k t vpn ppn pteFlags

/-- The arguments a caller can pass: page numbers made by `from_va` and `from_pa`, and flags that
`PTE::new` accepts and that include `R` or `X`. -/
structure Admissible (c : Call) : Prop where
  canonical : Canonical c.vpn
  physical : ∃ pa, PPN.fromPa pa = some c.ppn
  legal : PTE.isValidFlags c.pteFlags = true
  leaf : c.pteFlags &&& PTE.flagR ≠ 0 ∨ c.pteFlags &&& PTE.flagX ≠ 0

/-- The page numbers the call asks to map. -/
def Covers : Call → ℕ → Prop
  | small vpn _ _, v => v = vpn
  | large vpn _ _, v => v / 512 = vpn / 512

/-- A large page is writable or executable, and no 4 KiB page is mapped where it goes. -/
def Plain (m : Mem) (root : ℕ) : Call → Prop
  | small _ _ _ => True
  | large vpn _ pteFlags =>
    (pteFlags &&& PTE.flagW ≠ 0 ∨ pteFlags &&& PTE.flagX ≠ 0) ∧
      ∀ v w, Canonical v → v / 512 = vpn / 512 → walk m root v = .leaf w → translate m root v = none

end Call

/-! ### `map_create_large` -/

variable {first vpn ppn pteFlags : ℕ} {rest : List ℕ} {k k' : Phys} {t t' : RootPgt}

/-- The page number of a large page. -/
def largeBase (n : ℕ) : ℕ := n / 512 * 512

theorem fromVa_large (h : Canonical vpn) :
    VPN.fromVa (andNot (VPN.getVa vpn) (largePageSizeBytes - 1)) = some (largeBase vpn) := by
  have hlt := h.lt
  have hva : andNot (VPN.getVa vpn) (2 ^ 21 - 1) = vpn / 512 * 2 ^ 21 := by
    rw [andNot_mask, VPN.getVa, Nat.shiftLeft_eq, pageSizeOrder, wrap_of_lt (by omega)]
    omega
  have hvalid : VPN.isValidVa (vpn / 512 * 2 ^ 21) = true := by
    rw [VPN.isValidVa_iff (by omega)]
    omega
  rw [show largePageSizeBytes - 1 = 2 ^ 21 - 1 from rfl, hva, VPN.fromVa, if_pos hvalid,
    pageSizeOrder, Nat.shiftRight_eq_div_pow, largeBase]
  congr 1
  omega

theorem fromPa_large (h : ∃ pa, PPN.fromPa pa = some ppn) :
    PPN.fromPa (andNot (PPN.getPa ppn) (largePageSizeBytes - 1)) = some (largeBase ppn) := by
  obtain ⟨pa, hpa⟩ := h
  have hlt := PPN.fromPa_eq_some hpa
  have hva : andNot (PPN.getPa ppn) (2 ^ 21 - 1) = ppn / 512 * 2 ^ 21 := by
    rw [andNot_mask, PPN.getPa, Nat.shiftLeft_eq, pageSizeOrder, wrap_of_lt (by omega)]
    omega
  have hvalid : PPN.isValidPa (ppn / 512 * 2 ^ 21) = true :=
    decide_eq_true (show ppn / 512 * 2 ^ 21 < 2 ^ 56 - 1 by omega)
  rw [show largePageSizeBytes - 1 = 2 ^ 21 - 1 from rfl, hva, PPN.fromPa, if_pos hvalid,
    pageSizeOrder, Nat.shiftRight_eq_div_pow, largeBase]
  congr 1
  omega

theorem parseVpn_large (h : Canonical vpn) :
    parseVpn (largeBase vpn) = ⟨0, (parseVpn vpn).vpn1, (parseVpn vpn).vpn2⟩ := by
  have := h.lt
  rw [parseVpn_eq, parseVpn_eq, largeBase]
  simp only [Parsed.mk.injEq]
  omega

theorem parseVpn_region {v : ℕ} (hv : Canonical v) (hvpn : Canonical vpn) :
    v / 512 = vpn / 512 ↔
      (parseVpn v).vpn2 = (parseVpn vpn).vpn2 ∧ (parseVpn v).vpn1 = (parseVpn vpn).vpn1 := by
  have := hv.lt
  have := hvpn.lt
  rw [parseVpn_eq, parseVpn_eq]
  dsimp only
  omega

/-- `map_create_large` with arguments of a caller. -/
theorem mapCreateLarge_eq (hvpn : Canonical vpn) (hppn : ∃ pa, PPN.fromPa pa = some ppn)
    (hflags : PTE.isValidFlags pteFlags = true) :
    mapCreateLarge k t vpn ppn pteFlags = some
      (match descend k t (largeBase vpn) (largeBase ppn) t.ppn (parseVpn vpn).vpn2 with
      | (.error e, k, t) => (.error e, k, t)
      | (.ok table1, k, t) =>
        if PTE.isLeaf (k.mem table1 (parseVpn vpn).vpn1) then
          (.error (.doubleMapping (largeBase vpn) (largeBase ppn)), k, t)
        else (.ok (), { k with
          mem := put k.mem table1 (parseVpn vpn).vpn1 (largeBase ppn * 1024 + pteFlags) }, t)) := by
  have hnew : PTE.new (largeBase ppn) pteFlags = .ok (largeBase ppn * 1024 + pteFlags) := by
    obtain ⟨pa, hpa⟩ := hppn
    have hlt := PPN.fromPa_eq_some hpa
    rw [PTE.new, if_pos hflags, PTE.lor_flags (by unfold largeBase; omega)
      (PTE.isValidFlags_iff.mp hflags).1]
  rw [mapCreateLarge, fromVa_large hvpn, Option.bind_some, fromPa_large hppn, Option.map_some]
  dsimp only
  rewrite [hnew, parseVpn_large hvpn]
  rfl

/-- Everything `map_create_large` can do with arguments of a caller. -/
theorem mapCreateLarge_cases (hacc : k.Accounted first (t.pages ++ rest)) (ht : Tables Slot k t)
    (hvpn : Canonical vpn) (hppn : ∃ pa, PPN.fromPa pa = some ppn)
    (hflags : PTE.isValidFlags pteFlags = true) :
    ∃ res k' t', mapCreateLarge k t vpn ppn pteFlags = some (res, k', t') ∧
      ((∃ e, res = .error e ∧ Grown Slot first rest (parseVpn vpn).vpn2 k t k' t' ∧
          (e = .doubleMapping (largeBase vpn) (largeBase ppn) ∨
            e = .acquirePageFailed ∧ PTE.isValid (k.mem t.ppn (parseVpn vpn).vpn2) = false)) ∨
        (∃ k₁ table1, res = .ok () ∧ Grown Slot first rest (parseVpn vpn).vpn2 k t k₁ t' ∧
          mid PTE.child k₁.mem t'.ppn (parseVpn vpn).vpn2 = some table1 ∧
          PTE.isLeaf (k₁.mem table1 (parseVpn vpn).vpn1) = false ∧
          k' = { k₁ with
            mem := put k₁.mem table1 (parseVpn vpn).vpn1 (largeBase ppn * 1024 + pteFlags) })) := by
  rw [mapCreateLarge_eq hvpn hppn hflags]
  obtain ⟨r₁, k₁, t₁, h₁⟩ : ∃ r k' t', descend k t (largeBase vpn) (largeBase ppn) t.ppn
      (parseVpn vpn).vpn2 = (r, k', t') := ⟨_, _, _, rfl⟩
  obtain ⟨g, hmid⟩ := descend_root hacc ht h₁
  rw [h₁]
  cases r₁ with
  | error e =>
    refine ⟨_, _, _, rfl, .inl ⟨e, rfl, g, ?_⟩⟩
    rcases descend_cases hacc h₁ with ⟨_, hres, -⟩ | ⟨p, _, hres, -⟩ | ⟨hinv, _, hres, -⟩ |
      ⟨page, _, _, _, hres, -⟩
    · exact .inl (Except.error.inj hres)
    · cases hres
    · exact .inr ⟨Except.error.inj hres, hinv⟩
    · cases hres
  | ok table1 =>
    dsimp only
    split
    · exact ⟨_, _, _, rfl, .inl ⟨_, rfl, g, .inl rfl⟩⟩
    · rename_i hl
      exact ⟨_, _, _, rfl, .inr ⟨k₁, table1, rfl, g, hmid _ rfl, by simpa using hl, rfl⟩⟩

/-! ### One call -/

/-- What calls keep: a tree of allocated tables whose entries are regular. -/
structure Sound (first : ℕ) (rest : List ℕ) (k : Phys) (t : RootPgt) : Prop where
  accounted : k.Accounted first (t.pages ++ rest)
  tables : Tables Slot k t
  regular : RegularTables k.mem t.ppn

/-- What one call did to the translations. -/
structure Grows (c : Call) (k : Phys) (t : RootPgt) (res : Except PgtError Unit) (k' : Phys)
    (t' : RootPgt) : Prop where
  kept : ∀ v x, Canonical v → translate k.mem t.ppn v = some x → translate k'.mem t'.ppn v = some x
  refused : (∃ v x, Canonical v ∧ c.Covers v ∧ translate k.mem t.ppn v = some x) →
    ∃ vpn ppn, res = .error (.doubleMapping vpn ppn)

theorem isValid_of_translate {m : Mem} {r v : ℕ} {x : ℕ × ℕ} (h : translate m r v = some x) :
    PTE.isValid (walk m r v).word = true := by
  by_contra hv
  rw [translate, decode_of_invalid (by simpa using hv)] at h
  cases h

/-- Growing tables keeps translations. -/
theorem Grown.translate_eq {i : ℕ} (g : Grown Slot first rest i k t k' t')
    (hreg : RegularTables k.mem t.ppn) (v : ℕ) :
    translate k'.mem t'.ppn v = translate k.mem t.ppn v := by
  have hreg' := g.interior PTE.regular_zero PTE.regular_pointer hreg
  rw [translate, translate, walk_eq hreg', walk_eq hreg]
  exact decode_same (g.path_same (parseVpn_slot v)) _ _

theorem Grown.sound {i : ℕ} (g : Grown Slot first rest i k t k' t') (hs : Sound first rest k t) :
    Sound first rest k' t' :=
  ⟨g.accounted, g.tables, g.interior PTE.regular_zero PTE.regular_pointer hs.regular⟩

/-- `map_create`, on arguments of a caller. -/
theorem Sound.small (hs : Sound first rest k t) (ha : (Call.small vpn ppn pteFlags).Admissible) :
    ∃ res k' t', (Call.small vpn ppn pteFlags).exec k t = some (res, k', t') ∧
      Sound first rest k' t' ∧ Grows (.small vpn ppn pteFlags) k t res k' t' := by
  obtain ⟨res, k', t', h⟩ : ∃ res k' t', mapCreate k t vpn ppn pteFlags = (res, k', t') :=
    ⟨_, _, _, rfl⟩
  have hvpn : Canonical vpn := ha.canonical
  have hppn : ∃ pa, PPN.fromPa pa = some ppn := ha.physical
  have c : MapCreated first t.pages rest vpn ppn pteFlags k t res k' t' := by
    have hc : MapCreated first t.pages rest vpn ppn pteFlags k t _ _ _ :=
      mapCreate_created hs.accounted hs.tables hs.regular hvpn hppn
    rwa [h] at hc
  have hdouble : ∀ {v x}, translate k.mem t.ppn v = some x → v = vpn →
      res = .error (.doubleMapping vpn ppn) := fun hv he =>
    c.doubleMapping.mpr ⟨ha.legal, isValid_of_translate (he ▸ hv)⟩
  refine ⟨res, k', t', congrArg some h, ?_, ?_, ?_⟩
  · obtain ⟨new, hpages, -, ht, hacc⟩ := c.tables
    rw [← hpages] at ht hacc
    exact ⟨hacc, ht, c.regular⟩
  · intro v x hv hx
    rw [c.others v hv fun hok he => by cases hok.symm.trans (hdouble hx he)]
    exact hx
  · rintro ⟨v, x, -, hcov, hx⟩
    exact ⟨vpn, ppn, hdouble hx hcov⟩

/-- Where no 4 KiB page is mapped, a translated page number lies in a large page. -/
theorem Call.Plain.not_translated (hs : Sound first rest k t)
    (hc : (Call.large vpn ppn pteFlags).Plain k.mem t.ppn) (hvpn : Canonical vpn) {k₁ : Phys}
    {t₁ : RootPgt} {i table1 v : ℕ} (g : Grown Slot first rest i k t k₁ t₁)
    (hmid : mid PTE.child k₁.mem t₁.ppn (parseVpn vpn).vpn2 = some table1)
    (hl : PTE.isLeaf (k₁.mem table1 (parseVpn vpn).vpn1) = false) (hv : Canonical v)
    (hreg : v / 512 = vpn / 512) (x : ℕ × ℕ) : translate k.mem t.ppn v ≠ some x := by
  intro hx
  have hvalid := isValid_of_translate hx
  obtain ⟨h2, h1⟩ := (parseVpn_region hv hvpn).mp hreg
  -- the walk is the same in the grown tables, where it passes `table1`
  have hpath : pathOf k₁.mem t₁.ppn v = walk k.mem t.ppn v := by
    rw [walk_eq hs.regular] at hvalid ⊢
    rcases g.path_same (b := (parseVpn v).vpn1) (c := (parseVpn v).vpn0) (parseVpn_slot v) with
      h | ⟨h, -⟩
    · exact h
    · rw [h] at hvalid
      cases hvalid
  rw [← h2] at hmid
  rw [← h1] at hl
  cases hc1 : PTE.child (k₁.mem table1 (parseVpn v).vpn1) with
  | none =>
    have hp : pathOf k₁.mem t₁.ppn v = _ := path_of_mid hmid hc1 _
    rw [← hpath, hp, Stop.word_inner] at hvalid
    rw [isLeaf_of_no_child hvalid hc1] at hl
    cases hl
  | some q =>
    have hp : pathOf k₁.mem t₁.ppn v = _ := path_of_bottom (bottom_eq_some.mpr ⟨_, hmid, hc1⟩) _
    rw [hpath] at hp
    rw [hc.2 v _ hv hreg hp] at hx
    cases hx

/-- `map_create_large`, on arguments of a caller, where no 4 KiB page is mapped. -/
theorem Sound.large (hs : Sound first rest k t) (ha : (Call.large vpn ppn pteFlags).Admissible)
    (hc : (Call.large vpn ppn pteFlags).Plain k.mem t.ppn) :
    ∃ res k' t', (Call.large vpn ppn pteFlags).exec k t = some (res, k', t') ∧
      Sound first rest k' t' ∧ Grows (.large vpn ppn pteFlags) k t res k' t' := by
  have hvpn : Canonical vpn := ha.canonical
  have hppn : ∃ pa, PPN.fromPa pa = some ppn := ha.physical
  have hlegal : PTE.isValidFlags pteFlags = true := ha.legal
  obtain ⟨res, k', t', h, hres⟩ := mapCreateLarge_cases hs.accounted hs.tables hvpn hppn hlegal
  refine ⟨res, k', t', h, ?_⟩
  rcases hres with ⟨e, rfl, g, he⟩ | ⟨k₁, table1, rfl, g, hmid, hl, rfl⟩
  · refine ⟨g.sound hs, fun v x _ hx => (g.translate_eq hs.regular v).trans hx, ?_⟩
    rintro ⟨v, x, hv, hcov, hx⟩
    rcases he with rfl | ⟨-, hinv⟩
    · exact ⟨_, _, rfl⟩
    · -- nothing is translated below an invalid root entry
      have h2 := ((parseVpn_region hv hvpn).mp hcov).1
      have hm : mid PTE.child k.mem t.ppn (parseVpn v).vpn2 = none := by
        rw [h2]
        exact PTE.child_of_not_valid hinv
      have hvalid := isValid_of_translate hx
      rw [walk_eq hs.regular, path_of_mid_none hm, Stop.word_top, h2, hinv] at hvalid
      cases hvalid
  · have hleaf : PTE.isLeaf (largeBase ppn * 1024 + pteFlags) = true := by
      have hW : pteFlags &&& PTE.flagW = pteFlags / 4 % 2 * 4 := land_block pteFlags 1 2
      have hX : pteFlags &&& PTE.flagX = pteFlags / 8 % 2 * 8 := land_block pteFlags 1 3
      have hv := (PTE.isValidFlags_iff.mp hlegal).2.1
      have hwx := hc.1
      rw [hW, hX] at hwx
      rw [PTE.isLeaf_iff]
      omega
    have hnone := PTE.child_of_leaf hleaf
    have hs₁ := g.sound hs
    have hs' : Sound first rest { k₁ with
        mem := put k₁.mem table1 (parseVpn vpn).vpn1 (largeBase ppn * 1024 + pteFlags) } t' :=
      ⟨g.accounted.of_alloc_eq rfl, g.tables.cutMid (parseVpn_slot vpn) hmid hnone,
        hs₁.regular.cutMid g.tables (parseVpn_slot vpn) hmid fun _ => hleaf⟩
    have hno := fun {v} (hv : Canonical v) hreg x =>
      hc.not_translated hs hvpn g hmid hl (v := v) hv hreg x
    refine ⟨hs', fun v x hv hx => ?_, ?_⟩
    · have hout : ¬((parseVpn v).vpn2 = (parseVpn vpn).vpn2 ∧
          (parseVpn v).vpn1 = (parseVpn vpn).vpn1) := fun he =>
        hno hv ((parseVpn_region hv hvpn).mpr he) x hx
      rw [← hx, ← g.translate_eq hs.regular v, translate, translate, walk_eq hs'.regular,
        walk_eq hs₁.regular]
      dsimp only
      rw [g.tables.path_cutMid (parseVpn_slot vpn) hmid hnone (parseVpn_slot v), if_neg hout]
    · rintro ⟨v, x, hv, hcov, hx⟩
      exact absurd hx (hno hv hcov x)

/-- A new root is sound. -/
theorem Sound.new {k₀ : Phys} (hfresh : k₀.Accounted first rest)
    (h : RootPgt.new k₀ = (.ok t, k)) : Sound first rest k t := by
  unfold RootPgt.new at h
  split at h
  · cases h
  rename_i page k₁ hal
  obtain ⟨hacc, -, hmem⟩ := Phys.allocZeroedPage_spec hfresh hal
  obtain ⟨ht, rfl⟩ := Prod.mk.inj h
  obtain rfl := Except.ok.inj ht
  have hzero : ∀ i, k₁.mem page i = 0 := fun i => by simp [hmem]
  have hnone : ∀ i, mid PTE.child k₁.mem page i = none := fun i => by
    rw [mid, hzero, PTE.child_zero]
  refine ⟨hacc, Tree.bare fun i _ => hnone i, fun {i} _ => ?_, fun {i p} _ hp => ?_⟩
  · show PTE.Regular (k₁.mem page i)
    rw [hzero]
    exact PTE.regular_zero
  · rw [hnone] at hp
    cases hp

end RCoreKernel.Mm.RootPgt
