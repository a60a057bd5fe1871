import RCoreKernel.Mm.Accounting
import RCoreKernel.Mm.Walk

/-!
# What user space reads after a segment has been loaded

`map_user_elf_segment` walks the file in chunks of a page and the address space in pages.  Each
chunk is copied to the start of its page, whatever the offset of `p_vaddr` in its page; the end of
the address space and flags without `R`, `W` and `X` are not looked at.

* `mapSegmentPages_loaded` — the loop, over any tables: which pages it maps, with what contents;
* `mapUserElfSegment_loaded_iff` — **after a successful call user space reads the segment exactly
  when `p_memsz` is zero, or the range does not reach the last page, the flags make a leaf, and
  `p_vaddr` is page-aligned or all file bytes are zero**.
-/

namespace RCoreKernel.Mm

open Radix RootPgt

/-! ### Bytes of a page -/

/-- The byte at an offset of a physical page. -/
def byteAt (m : Mem) (ppn offset : ℕ) : ℕ := m ppn (offset / 8) / 256 ^ (offset % 8) % 256

theorem wordOfBytes_byte {f : ℕ → ℕ} (hf : ∀ b, f b < 256) {b : ℕ} (hb : b < 8) :
    wordOfBytes f / 256 ^ b % 256 = f b := by
  have h0 := hf 0
  have h1 := hf 1
  have h2 := hf 2
  have h3 := hf 3
  have h4 := hf 4
  have h5 := hf 5
  have h6 := hf 6
  have h7 := hf 7
  have hw : wordOfBytes f = f 0 + 256 * (f 1 + 256 * (f 2 + 256 * (f 3 + 256 * (f 4 + 256 * (f 5 +
      256 * (f 6 + 256 * (f 7 + 256 * 0))))))) := rfl
  rw [hw]
  match b, hb with
  | 0, _ => omega
  | 1, _ => omega
  | 2, _ => omega
  | 3, _ => omega
  | 4, _ => omega
  | 5, _ => omega
  | 6, _ => omega
  | 7, _ => omega

/-- `copy_data` to an empty page. -/
theorem byteAt_copyData {m : Mem} {ppn offset : ℕ} (hz : ∀ j, m ppn j = 0)
    (ho : offset < pageSizeBytes) (data : List UInt8) :
    byteAt (copyData m ppn data) ppn offset =
      if offset < data.length then (data.getD offset 0).toNat else 0 := by
  unfold byteAt copyData
  rw [if_pos rfl, wordOfBytes_byte _ (Nat.mod_lt _ (by decide))]
  · have hoff : 8 * (offset / 8) + offset % 8 = offset := Nat.div_add_mod offset 8
    simp only [hoff, hz, Nat.zero_div, Nat.zero_mod, lt_min_iff, ho, and_true]
  · intro b
    dsimp only
    split
    · exact UInt8.toNat_lt _
    · exact Nat.mod_lt _ (by decide)

theorem byteAt_congr {m m' : Mem} {ppn : ℕ} (h : m' ppn = m ppn) (offset : ℕ) :
    byteAt m' ppn offset = byteAt m ppn offset := by
  rw [byteAt, byteAt, h]

/-! ### One page of a segment -/

namespace VMSpace

/-- The byte of the file at a position below `dataEnd`, and zero from there on. -/
def fileByte (bytes : List UInt8) (dataEnd pos : ℕ) : ℕ :=
  if pos < dataEnd then (bytes.getD pos 0).toNat else 0

variable {first : ℕ} {rest nodes : List ℕ} {k k' : Phys} {t t' : RootPgt} {s s' : VMSpace}
  {bytes : List UInt8} {dataEnd dataStart pteFlags : ℕ}

/-- The chunk of the file that goes to a page. -/
theorem segmentSlice_eq (hend : dataEnd ≤ bytes.length) (hlen : bytes.length < 2 ^ 63)
    (hlt : dataStart < dataEnd) :
    segmentSlice bytes dataStart dataEnd =
      some ((bytes.drop dataStart).take (min pageSizeBytes (dataEnd - dataStart))) := by
  unfold segmentSlice
  have hwrap : wrap (dataStart + pageSizeBytes) = dataStart + pageSizeBytes := by
    refine wrap_of_lt ?_
    rw [pageSizeBytes_eq]
    omega
  have hstop : min (dataStart + pageSizeBytes) dataEnd - dataStart =
      min pageSizeBytes (dataEnd - dataStart) := by omega
  simp only [hwrap, hstop]
  exact if_pos (by omega)

/-- A zeroed page after its chunk has been copied, and where the next chunk starts. -/
theorem loadPage_loaded (hend : dataEnd ≤ bytes.length) (hlen : bytes.length < 2 ^ 63) {page d : ℕ}
    (hz : ∀ j, k.mem page j = 0) (h : loadPage bytes dataEnd k page dataStart = some (k', d)) :
    (∀ offset < 4096, byteAt k'.mem page offset = fileByte bytes dataEnd (dataStart + offset)) ∧
      (∀ pos, fileByte bytes dataEnd (d + pos) = fileByte bytes dataEnd (dataStart + 4096 + pos)) ∧
      (∀ p, p ≠ page → k'.mem p = k.mem p) ∧ k'.alloc = k.alloc := by
  unfold loadPage at h
  split at h
  · rename_i hlt
    rw [segmentSlice_eq hend hlen hlt, Option.map_some] at h
    obtain ⟨rfl, rfl⟩ := Prod.mk.inj (Option.some.inj h)
    refine ⟨fun offset ho => ?_, fun pos => ?_, fun p hp => copyData_of_ne hp _, rfl⟩
    · rw [byteAt_copyData hz (by rw [pageSizeBytes_eq]; exact ho), List.length_take, List.length_drop,
        fileByte, pageSizeBytes_eq]
      by_cases hpos : dataStart + offset < dataEnd
      · rw [if_pos (by omega), if_pos hpos]
        simp only [List.getD_eq_getElem?_getD, List.getElem?_take, List.getElem?_drop]
        rw [if_pos (by omega)]
      · rw [if_neg (by omega), if_neg hpos]
    · rw [pageSizeBytes_eq, wrap_of_lt (by omega)]
  · rename_i hge
    obtain ⟨rfl, rfl⟩ := Prod.mk.inj (Option.some.inj h)
    refine ⟨fun offset _ => ?_, fun pos => ?_, fun _ _ => rfl, rfl⟩
    · rw [fileByte, if_neg (by omega), byteAt, hz]
      simp
    · rw [fileByte, fileByte, if_neg (by omega), if_neg (by omega)]

/-! ### The loop -/

theorem fromPa_of_accounted {held : List ℕ} (hacc : k.Accounted first held) {page : ℕ}
    (hp : page ∈ held) : ∃ pa, PPN.fromPa pa = some page := by
  have hlt := hacc.lt_memEnd hp
  rw [memEndPpn_eq] at hlt
  have hvalid : PPN.isValidPa (page * 4096) = true :=
    decide_eq_true (show page * 4096 < 2 ^ 56 - 1 by omega)
  refine ⟨page * 4096, ?_⟩
  rw [PPN.fromPa, if_pos hvalid, pageSizeOrder, Nat.shiftRight_eq_div_pow]
  congr 1
  omega

/-- `map_create` on any tree of tables leaves the other pages alone. -/
theorem mapCreate_frame (hacc : k.Accounted first (nodes ++ rest))
    (ht : Tree PTE.child Slot k.mem t.ppn nodes) {vpn ppn : ℕ} (hppn : ppn < 2 ^ 44)
    {res : Except PgtError Unit} (h : mapCreate k t vpn ppn pteFlags = (res, k', t')) {p : ℕ}
    (hp : p ∈ rest) : k'.mem p = k.mem p := by
  obtain ⟨res₀, k₀, t₀, h₀⟩ : ∃ res k' t₀,
      mapCreate k ⟨t.ppn, []⟩ vpn ppn pteFlags = (res, k', t₀) := ⟨_, _, _, rfl⟩
  have hl := mapCreate_listing t.pages k ⟨t.ppn, []⟩ vpn ppn pteFlags
  have hn := mapCreate_listing nodes k ⟨t.ppn, []⟩ vpn ppn pteFlags
  rw [h₀] at hl hn
  have hk : k' = k₀ := by
    have heq : mapCreate k t vpn ppn pteFlags = (res₀, k₀, t₀.listing t.pages) := by
      simpa [listing] using hl
    rw [h] at heq
    exact (Prod.mk.inj (Prod.mk.inj heq).2).1
  have hn' : mapCreate k ⟨t.ppn, nodes⟩ vpn ppn pteFlags = (res₀, k₀, t₀.listing nodes) := by
    simpa [listing] using hn
  rw [hk]
  exact (mapCreate_spec (t := ⟨t.ppn, nodes⟩) hacc ht (parseVpn_slot vpn) hppn hn').frame_rest hp

/-- The translation of a page number that `map_create` has just mapped. -/
def leafTarget (page pteFlags : ℕ) : Option (ℕ × ℕ) :=
  if PTE.kind (page * 1024 + pteFlags) = .leaf then some (page, pteFlags) else none

/-- What the loop over the pages `vs` has done, with `dataStart` as the position in the file. -/
structure PagesLoaded (bytes : List UInt8) (dataEnd pteFlags : ℕ) (vs : List ℕ) (dataStart : ℕ)
    (k : Phys) (t : RootPgt) (rest : List ℕ) (k' : Phys) (t' : RootPgt) : Prop where
  ppn_eq : t'.ppn = t.ppn
  loaded : ∀ j v, vs[j]? = some v → ∃ page,
    translate k'.mem t'.ppn v = leafTarget page pteFlags ∧
      ∀ offset < 4096, byteAt k'.mem page offset =
        fileByte bytes dataEnd (dataStart + (4096 * j + offset))
  others : ∀ v, Canonical v → v ∉ vs → translate k'.mem t'.ppn v = translate k.mem t.ppn v
  frame : ∀ p ∈ rest, k'.mem p = k.mem p
  flags : vs ≠ [] → PTE.isValidFlags pteFlags = true

/-- **The loop over the pages of a segment**, on any tree of tables. -/
theorem mapSegmentPages_loaded (hend : dataEnd ≤ bytes.length) (hlen : bytes.length < 2 ^ 63)
    {vs : List ℕ} {area area' : VMArea} (hacc : k.Accounted first (nodes ++ rest))
    (ht : Tree PTE.child Slot k.mem t.ppn nodes) (hreg : RegularTables k.mem t.ppn)
    (hvs : ∀ v ∈ vs, Canonical v) (hnd : vs.Nodup)
    (h : mapSegmentPages bytes pteFlags dataEnd vs k t area dataStart = (.ok (), k', t', area')) :
    PagesLoaded bytes dataEnd pteFlags vs dataStart k t rest k' t' := by
  induction vs generalizing k t area dataStart nodes rest with
  | nil =>
    cases h
    exact ⟨rfl, fun j v hv => by simp at hv, fun _ _ _ => rfl, fun _ _ => rfl, fun hne => absurd rfl hne⟩
  | cons v vs ih =>
    rw [mapSegmentPages] at h
    split at h
    · cases h
    rename_i page k₁ hal
    obtain ⟨hacc₁, hfresh, hmem₁⟩ := Phys.allocZeroedPage_spec hacc hal
    have hz : ∀ j, k₁.mem page j = 0 := fun j => by simp [hmem₁]
    have hsame₁ : ∀ p, p ≠ page → k₁.mem p = k.mem p := fun p hp => by
      funext j
      simp [hmem₁, hp]
    split at h
    · cases h
    rename_i k₂ d hload
    obtain ⟨hbytes, hnext, hsame₂, halloc₂⟩ := loadPage_loaded hend hlen hz hload
    have hsame : ∀ p, p ≠ page → k₂.mem p = k.mem p := fun p hp =>
      (hsame₂ p hp).trans (hsame₁ p hp)
    have hacc₂ : k₂.Accounted first (nodes ++ (page :: rest)) :=
      (hacc₁.of_alloc_eq halloc₂).congr List.perm_middle.symm
    have hnodes : ∀ p ∈ nodes, k₂.mem p = k.mem p := fun p hp =>
      hsame p fun e => hfresh (List.mem_append_left _ (e ▸ hp))
    have hlt : page < 2 ^ 44 := hacc₂.lt (by simp)
    have ht₂ : Tree PTE.child Slot k₂.mem t.ppn nodes :=
      ht.frame (fun i _ => by rw [hnodes _ ht.root_mem]) fun p hp _ j => by rw [hnodes p hp]
    have hreg₂ : RegularTables k₂.mem t.ppn :=
      hreg.frame ht (fun i _ => by rw [hnodes _ ht.root_mem]; exact ⟨rfl, id⟩) fun p hp _ j => by
        rw [hnodes p hp]
        exact id
    have htr₂ : ∀ w, translate k₂.mem t.ppn w = translate k.mem t.ppn w := fun w => by
      rw [translate, translate, walk_eq hreg₂, walk_eq hreg, ht.path_frame hnodes (parseVpn_slot w)]
    split at h
    · cases h
    rename_i k₃ t₃ hmap
    have hv : Canonical v := hvs v (List.mem_cons_self ..)
    have hppn : ∃ pa, PPN.fromPa pa = some page := fromPa_of_accounted hacc₂ (by simp)
    have hcreated : MapCreated first nodes (page :: rest) v page pteFlags k₂ t _ _ _ :=
      mapCreate_created hacc₂ ht₂ hreg₂ hv hppn
    rw [hmap] at hcreated
    obtain ⟨hwalk, hgetPpn, hmod⟩ := hcreated.ok rfl
    obtain ⟨new, -, hroot, ht₃, hacc₃⟩ := hcreated.tables
    have hframe₃ : ∀ p ∈ page :: rest, k₃.mem p = k₂.mem p := fun p hp =>
      mapCreate_frame hacc₂ ht₂ hlt hmap hp
    obtain ⟨hvn, hnd'⟩ := List.nodup_cons.mp hnd
    have hrest := ih hacc₃ ht₃ hcreated.regular (fun w hw => hvs w (List.mem_cons_of_mem _ hw)) hnd' h
    refine ⟨hrest.ppn_eq.trans hroot, ?_, ?_, fun p hp => ?_, fun _ => ?_⟩
    · intro j w hw
      cases j with
      | zero =>
        obtain rfl : v = w := by simpa using hw
        refine ⟨page, ?_, fun offset ho => ?_⟩
        · rw [hrest.others v hv hvn, translate, hwalk, decode, leafTarget, hgetPpn, hmod]
        · rw [byteAt_congr (hrest.frame page (by simp)), byteAt_congr (hframe₃ page (by simp)),
            hbytes offset ho]
          congr 1
          omega
      | succ j =>
        obtain ⟨page', htr, hb⟩ := hrest.loaded j w (by simpa using hw)
        refine ⟨page', htr, fun offset ho => ?_⟩
        rw [hb offset ho, hnext]
        congr 1
        omega
    · intro w hw hwn
      rw [List.mem_cons, not_or] at hwn
      rw [hrest.others w hw hwn.2, hcreated.others w hw fun _ => hwn.1, htr₂]
    · have hp' : p ≠ page := fun e => hfresh (List.mem_append_right _ (e ▸ hp))
      rw [hrest.frame p (List.mem_cons_of_mem _ hp), hframe₃ p (List.mem_cons_of_mem _ hp), hsame p hp']
    · by_contra hflags
      have hbad := hcreated.invalidFlags.mpr (by simpa using hflags)
      cases hbad

/-! ### How many pages a segment can have -/

theorem descend_available {vpn ppn table idx : ℕ} {res : Except PgtError ℕ}
    (h : descend k t vpn ppn table idx = (res, k', t')) : k'.available ≤ k.available := by
  unfold descend at h
  dsimp only at h
  split at h
  · split at h <;> cases h <;> exact Nat.le_refl _
  · split at h
    · cases h
      exact Nat.le_refl _
    rename_i page k₁ hal
    have hav := Phys.available_of_alloc hal
    split at h
    · cases h
      unfold Phys.dropPage PageAllocator.dealloc Phys.available at *
      simp only [List.length_append, List.length_singleton] at *
      omega
    · have hle : k₁.available ≤ k.available := by omega
      split at h <;> cases h <;> exact hle

theorem mapCreate_available {vpn ppn : ℕ} {res : Except PgtError Unit}
    (h : mapCreate k t vpn ppn pteFlags = (res, k', t')) : k'.available ≤ k.available := by
  unfold mapCreate at h
  dsimp only at h
  split at h
  · cases h
    exact Nat.le_refl _
  split at h
  · rename_i h₁
    cases h
    exact descend_available h₁
  rename_i h₁
  split at h
  · rename_i h₂
    cases h
    exact (descend_available h₂).trans (descend_available h₁)
  rename_i h₂
  have hle := (descend_available h₂).trans (descend_available h₁)
  split at h
  · cases h
    exact hle
  · cases h
    exact hle

/-- A segment that is loaded had enough free pages. -/
theorem mapSegmentPages_length {vs : List ℕ} {area area' : VMArea}
    (h : mapSegmentPages bytes pteFlags dataEnd vs k t area dataStart = (.ok (), k', t', area')) :
    vs.length ≤ k.available := by
  induction vs generalizing k t area dataStart with
  | nil => exact Nat.zero_le _
  | cons v vs ih =>
    rw [mapSegmentPages] at h
    split at h
    · cases h
    rename_i page k₁ hal
    have hav := Phys.available_of_alloc hal
    split at h
    · cases h
    rename_i k₂ d hload
    have hav₂ : k₂.available = k₁.available := by
      rw [Phys.available, Phys.available, loadPage_alloc hload]
    split at h
    · cases h
    rename_i k₃ t₃ hmap
    have hav₃ := mapCreate_available hmap
    have := ih h
    rw [List.length_cons]
    omega

theorem canonical_of_ends {startVpn endVpn va va' : ℕ} (hva : va < 2 ^ 64) (hva' : va' < 2 ^ 64)
    (hstart : VPN.fromVa va = some startVpn) (hend : VPN.fromVa va' = some endVpn)
    (hlen : endVpn - startVpn ≤ memEndPpn) {v : ℕ} (h₁ : startVpn ≤ v) (h₂ : v < endVpn) :
    Canonical v := by
  obtain ⟨hvalid, rfl⟩ := VPN.fromVa_eq_some hstart
  obtain ⟨hvalid', rfl⟩ := VPN.fromVa_eq_some hend
  rw [VPN.isValidVa_iff hva] at hvalid
  rw [VPN.isValidVa_iff hva'] at hvalid'
  rw [memEndPpn_eq] at hlen
  have hv : VPN.isValidVa (v * 4096) = true := by
    rw [VPN.isValidVa_iff (by omega)]
    omega
  refine ⟨v * 4096, by omega, ?_⟩
  rw [VPN.fromVa, if_pos hv, pageSizeOrder, Nat.shiftRight_eq_div_pow]
  congr 1
  omega

/-! ### The segment as user space sees it -/

/-- The byte at a virtual address and the flags of its page. -/
def readUser (m : Mem) (root va : ℕ) : Option (ℕ × ℕ) :=
  (translate m root (va / 4096)).map fun target => (byteAt m target.1 (va % 4096), target.2)

/-- The flags of a page of the segment: `U`, and of `R`, `W` and `X` those that `p_flags` asks for. -/
def SegmentFlags (ph : ProgramHeader) (flags : ℕ) : Prop :=
  flags &&& PTE.flagU ≠ 0 ∧ (flags &&& PTE.flagR ≠ 0 ↔ ph.isRead = true) ∧
    (flags &&& PTE.flagW ≠ 0 ↔ ph.isWrite = true) ∧ (flags &&& PTE.flagX ≠ 0 ↔ ph.isExecute = true)

/-- User space reads the segment at `p_vaddr`, and nothing else has been mapped. -/
structure SegmentLoaded (bytes : List UInt8) (ph : ProgramHeader) (m : Mem) (root : ℕ) (m' : Mem)
    (root' : ℕ) : Prop where
  data : ∀ i < ph.fileSize.toNat, ∃ flags,
    readUser m' root' (wrap (ph.virtualAddr.toNat + i)) =
      some ((bytes.getD (ph.offset.toNat + i) 0).toNat, flags) ∧ SegmentFlags ph flags
  zeros : ∀ i, ph.fileSize.toNat ≤ i → i < ph.memSize.toNat → ∃ flags,
    readUser m' root' (wrap (ph.virtualAddr.toNat + i)) = some (0, flags) ∧ SegmentFlags ph flags
  others : ∀ v, Canonical v →
    ¬(ph.virtualAddr.toNat / 4096 ≤ v ∧
      v < (ph.virtualAddr.toNat + ph.memSize.toNat + 4095) / 4096) →
    translate m' root' v = translate m root v

/-- Data that is shifted by `d` and reads the same is zero, or `d` is. -/
theorem shift_eq_iff {F : ℕ → ℕ} {n d : ℕ} (hz : ∀ x, n ≤ x → F x = 0) :
    (∀ i < n, F (d + i) = F i) ↔ d = 0 ∨ ∀ i < n, F i = 0 := by
  constructor
  · intro h
    refine or_iff_not_imp_left.mpr fun hd => ?_
    -- downwards from the end of the data
    have hdown : ∀ c i, n ≤ i + c → F i = 0 := by
      intro c
      induction c with
      | zero => exact fun i hi => hz i hi
      | succ c ih =>
        intro i hi
        by_cases hlt : i < n
        · rw [← h i hlt]
          exact ih (d + i) (by omega)
        · exact hz i (by omega)
    exact fun i _ => hdown n i (by omega)
  · rintro (rfl | h) i hi
    · rw [Nat.zero_add]
    · rw [h i hi]
      by_cases hlt : d + i < n
      · exact h _ hlt
      · exact hz _ (by omega)

theorem segmentFlags_spec (ph : ProgramHeader) :
    SegmentFlags ph (getPermissionsFromPhFlags ph ||| PTE.flagV) := by
  unfold SegmentFlags getPermissionsFromPhFlags
  cases ph.isRead <;> cases ph.isWrite <;> cases ph.isExecute <;> decide

theorem kind_entry (page f : ℕ) : PTE.kind (page * 1024 + f) = PTE.kind f := by
  have h0 : (page * 1024 + f) % 2 = f % 2 := by omega
  have h1 : (page * 1024 + f) / 2 % 2 = f / 2 % 2 := by omega
  have h2 : (page * 1024 + f) / 4 % 2 = f / 4 % 2 := by omega
  have h3 : (page * 1024 + f) / 8 % 2 = f / 8 % 2 := by omega
  rw [PTE.kind_eq, PTE.kind_eq, h0, h1, h2, h3]

/-- The entries of a segment are leaves when it is readable or executable. -/
theorem leafTarget_segment {ph : ProgramHeader}
    (hflags : PTE.isValidFlags (getPermissionsFromPhFlags ph ||| PTE.flagV) = true) (page : ℕ) :
    leafTarget page (getPermissionsFromPhFlags ph ||| PTE.flagV) =
      if ph.isRead = true ∨ ph.isExecute = true then
        some (page, getPermissionsFromPhFlags ph ||| PTE.flagV) else none := by
  have hkind : PTE.kind (getPermissionsFromPhFlags ph ||| PTE.flagV) = .leaf ↔
      ph.isRead = true ∨ ph.isExecute = true := by
    revert hflags
    unfold getPermissionsFromPhFlags
    cases ph.isRead <;> cases ph.isWrite <;> cases ph.isExecute <;> decide
  unfold leafTarget
  rw [kind_entry]
  simp only [hkind]

/-- The condition under which a segment is loaded as user space expects. -/
structure Loadable (bytes : List UInt8) (ph : ProgramHeader) : Prop where
  /-- The range ends before the last page of the address space. -/
  no_wrap : ph.virtualAddr.toNat + ph.memSize.toNat + 4095 < 2 ^ 64
  /-- An entry with neither `R` nor `X` is not a leaf. -/
  leaf : ph.isRead = true ∨ ph.isExecute = true
  /-- Chunks go to the start of a page. -/
  aligned : ph.virtualAddr.toNat % 4096 = 0 ∨
    ∀ i < ph.fileSize.toNat, (bytes.getD (ph.offset.toNat + i) 0).toNat = 0

variable {ph : ProgramHeader}

/-- The end of the range of a segment, in bytes. -/
theorem endOfRange_eq (addr len : ℕ) : endOfRange addr len = (addr + len + 4095) % 2 ^ 64 := by
  simp only [endOfRange, wrappingSub, wrap, pageSizeBytes_eq]
  omega

/-- What a successful call has done to the tables. -/
theorem mapUserElfSegment_pages (hacc : k.Accounted first (nodes ++ rest))
    (ht : Tree PTE.child Slot k.mem s.rootPgt.ppn nodes)
    (hreg : RegularTables k.mem s.rootPgt.ppn)
    (hrange : ph.offset.toNat + ph.fileSize.toNat ≤ bytes.length) (hlen : bytes.length < 2 ^ 63)
    (h : mapUserElfSegment bytes k s ph = (.ok (), k', s')) :
    ∃ n, ph.virtualAddr.toNat / 4096 + n ≤ 2 ^ 52 - 1 ∧
      (ph.virtualAddr.toNat + ph.memSize.toNat + 4095 < 2 ^ 64 →
        n = (ph.virtualAddr.toNat + ph.memSize.toNat + 4095) / 4096 - ph.virtualAddr.toNat / 4096) ∧
      ph.virtualAddr.toNat / 4096 + n ≤
        (ph.virtualAddr.toNat + ph.memSize.toNat + 4095) / 4096 ∧
      (∀ j < n, Canonical (ph.virtualAddr.toNat / 4096 + j)) ∧
      PagesLoaded bytes (ph.offset.toNat + ph.fileSize.toNat)
        (getPermissionsFromPhFlags ph ||| PTE.flagV) (List.range' (ph.virtualAddr.toNat / 4096) n)
        ph.offset.toNat k s.rootPgt rest k' s'.rootPgt := by
  have hva := ph.virtualAddr.toNat_lt
  unfold mapUserElfSegment at h
  dsimp only at h
  split at h
  · cases h
  split at h
  · cases h
  split at h
  · cases h
  rename_i area harea
  rw [createAreaFromPh, endOfRange_eq] at harea
  obtain ⟨startVpn, hstart, harea⟩ := Option.bind_eq_some_iff.mp harea
  obtain ⟨endVpn, hend, rfl⟩ := Option.map_eq_some_iff.mp harea
  have hmod : (ph.virtualAddr.toNat + ph.memSize.toNat + 4095) % 2 ^ 64 < 2 ^ 64 :=
    Nat.mod_lt _ (by decide)
  have hs := (VPN.fromVa_eq_some hstart).2
  have he := (VPN.fromVa_eq_some hend).2
  rw [show (VMArea.new startVpn endVpn .anonymous (getPermissionsFromPhFlags ph)).permissions =
    getPermissionsFromPhFlags ph from rfl, toPteFlags_of_bits (getPermissions_bits ph)] at h
  dsimp only at h
  rw [wrap_of_lt (by omega)] at h
  split at h
  · rename_i k₁ t₁ area₁ hpages
    cases h
    have hcount : endVpn - startVpn ≤ memEndPpn := by
      have := (mapSegmentPages_length hpages).trans hacc.available_le
      simpa [VMArea.vpns, VMArea.new] using this
    have hcan : ∀ v, startVpn ≤ v → v < endVpn → Canonical v := fun v h₁ h₂ =>
      canonical_of_ends hva hmod hstart hend hcount h₁ h₂
    have hload := mapSegmentPages_loaded hrange hlen hacc ht hreg
      (fun v hv => by
        have hv' : v ∈ List.range' startVpn (endVpn - startVpn) := hv
        rw [List.mem_range'_1] at hv'
        exact hcan v hv'.1 (by omega))
      (List.nodup_range' 1 (by decide)) hpages
    have hle : (ph.virtualAddr.toNat + ph.memSize.toNat + 4095) % 2 ^ 64 ≤
        ph.virtualAddr.toNat + ph.memSize.toNat + 4095 := Nat.mod_le _ _
    refine ⟨endVpn - startVpn, by omega, fun hw => ?_, by omega, fun j hj => ?_, ?_⟩
    · rw [hs, he, Nat.mod_eq_of_lt hw]
    · rw [← hs]
      exact hcan _ (by omega) (by omega)
    · rw [← hs]
      exact hload
  · cases h
  · cases h

/-- What user space reads in a segment whose entries are leaves. -/
theorem PagesLoaded.read {n base : ℕ} {root : RootPgt}
    (hp : PagesLoaded bytes dataEnd (getPermissionsFromPhFlags ph ||| PTE.flagV)
      (List.range' (base / 4096) n) dataStart k root rest k' t')
    {i : ℕ} (hi : (base + i) / 4096 < base / 4096 + n) :
    readUser k'.mem t'.ppn (base + i) =
      if ph.isRead = true ∨ ph.isExecute = true then
        some (fileByte bytes dataEnd (dataStart + (base % 4096 + i)),
          getPermissionsFromPhFlags ph ||| PTE.flagV) else none := by
  have hget : (List.range' (base / 4096) n)[(base + i) / 4096 - base / 4096]? =
      some ((base + i) / 4096) := by
    rw [List.getElem?_range' (by omega)]
    congr 1
    omega
  obtain ⟨page, htr, hbyte⟩ := hp.loaded _ _ hget
  have hflags := hp.flags fun he => by
    rw [he] at hget
    cases hget
  rw [readUser, htr, leafTarget_segment hflags]
  split
  · have hpos : 4096 * ((base + i) / 4096 - base / 4096) + (base + i) % 4096 = base % 4096 + i := by
      omega
    rw [Option.map_some, hbyte _ (Nat.mod_lt _ (by decide)), hpos]
  · rfl

/-- **What a successful `map_user_elf_segment` has loaded.**  On any tree of tables with nothing in
the last page of the address space, user space reads the segment exactly when `p_memsz` is zero or
the segment is `Loadable`. -/
theorem mapUserElfSegment_loaded_iff (hacc : k.Accounted first (nodes ++ rest))
    (ht : Tree PTE.child Slot k.mem s.rootPgt.ppn nodes)
    (hreg : RegularTables k.mem s.rootPgt.ppn)
    (hlast : translate k.mem s.rootPgt.ppn (2 ^ 52 - 1) = none)
    (hsize : ph.fileSize.toNat ≤ ph.memSize.toNat)
    (hrange : ph.offset.toNat + ph.fileSize.toNat ≤ bytes.length) (hlen : bytes.length < 2 ^ 63)
    (h : mapUserElfSegment bytes k s ph = (.ok (), k', s')) :
    SegmentLoaded bytes ph k.mem s.rootPgt.ppn k'.mem s'.rootPgt.ppn ↔
      ph.memSize.toNat = 0 ∨ Loadable bytes ph := by
  obtain ⟨n, hbound, hn, hle, hcan, hp⟩ := mapUserElfSegment_pages hacc ht hreg hrange hlen h
  have hva := ph.virtualAddr.toNat_lt
  obtain ⟨base, hbase⟩ : ∃ base, ph.virtualAddr.toNat = base := ⟨_, rfl⟩
  obtain ⟨size, hmem⟩ : ∃ size, ph.memSize.toNat = size := ⟨_, rfl⟩
  rw [hbase] at hbound hn hle hcan hp hva
  rw [hmem] at hn hle hsize ⊢
  -- nothing outside the range changes, whatever the segment
  have hothers : ∀ v, Canonical v → ¬(base / 4096 ≤ v ∧ v < (base + size + 4095) / 4096) →
      translate k'.mem s'.rootPgt.ppn v = translate k.mem s.rootPgt.ppn v := by
    intro v hv hout
    refine hp.others v hv fun hin => hout ?_
    rw [List.mem_range'_1] at hin
    exact ⟨hin.1, by omega⟩
  -- past the data every byte is zero
  have hpast : ∀ x, ph.fileSize.toNat ≤ x →
      fileByte bytes (ph.offset.toNat + ph.fileSize.toNat) (ph.offset.toNat + x) = 0 := by
    intro x hx
    rw [fileByte, if_neg (by omega)]
  have hdata : ∀ x, x < ph.fileSize.toNat →
      fileByte bytes (ph.offset.toNat + ph.fileSize.toNat) (ph.offset.toNat + x) =
        (bytes.getD (ph.offset.toNat + x) 0).toNat := by
    intro x hx
    rw [fileByte, if_pos (by omega)]
  have hread : base + size + 4095 < 2 ^ 64 → ∀ i < size,
      readUser k'.mem s'.rootPgt.ppn (wrap (base + i)) =
        if ph.isRead = true ∨ ph.isExecute = true then
          some (fileByte bytes (ph.offset.toNat + ph.fileSize.toNat)
            (ph.offset.toNat + (base % 4096 + i)), getPermissionsFromPhFlags ph ||| PTE.flagV)
        else none := by
    intro hw i hi
    rw [wrap_of_lt (by omega)]
    refine hp.read ?_
    have := hn hw
    omega
  have hshift := shift_eq_iff (d := base % 4096) hpast
  constructor
  · intro hl
    refine or_iff_not_imp_left.mpr fun hpos => ?_
    have hmapped : ∀ i < size, ∃ r, readUser k'.mem s'.rootPgt.ppn (wrap (base + i)) = some r := by
      intro i hi
      by_cases hfile : i < ph.fileSize.toNat
      · obtain ⟨flags, hr, -⟩ := hl.data i hfile
        rw [hbase] at hr
        exact ⟨_, hr⟩
      · obtain ⟨flags, hr, -⟩ := hl.zeros i (by omega) (by omega)
        rw [hbase] at hr
        exact ⟨_, hr⟩
    -- the last page is never mapped, so the range does not reach it
    have hw : base + size + 4095 < 2 ^ 64 := by
      by_contra hwrap
      obtain ⟨i, hi, hpage, hlt⟩ : ∃ i < size, (base + i) / 4096 = 2 ^ 52 - 1 ∧ base + i < 2 ^ 64 := by
        by_cases hb : 2 ^ 64 - 4096 ≤ base
        · exact ⟨0, by omega, by omega, by omega⟩
        · exact ⟨2 ^ 64 - 4096 - base, by omega, by omega, by omega⟩
      obtain ⟨r, hr⟩ := hmapped i hi
      have hcan' : Canonical (2 ^ 52 - 1) := ⟨2 ^ 64 - 4096, by decide, by decide⟩
      rw [wrap_of_lt hlt, readUser, hpage, hp.others _ hcan' (by
        rw [List.mem_range'_1]
        omega), hlast] at hr
      cases hr
    have hleaf : ph.isRead = true ∨ ph.isExecute = true := by
      obtain ⟨r, hr⟩ := hmapped 0 (by omega)
      rw [hread hw 0 (by omega)] at hr
      split at hr
      · assumption
      · cases hr
    refine ⟨by rw [hbase, hmem]; exact hw, hleaf, ?_⟩
    have hsame : ∀ i < ph.fileSize.toNat,
        fileByte bytes (ph.offset.toNat + ph.fileSize.toNat) (ph.offset.toNat + (base % 4096 + i)) =
          fileByte bytes (ph.offset.toNat + ph.fileSize.toNat) (ph.offset.toNat + i) := by
      intro i hi
      obtain ⟨flags, hr, -⟩ := hl.data i hi
      rw [hbase, hread hw i (by omega), if_pos hleaf] at hr
      rw [hdata i hi]
      exact (Prod.mk.inj (Option.some.inj hr)).1
    rw [hbase]
    refine (hshift.mp hsame).imp_right fun hzero i hi => ?_
    rw [← hdata i hi]
    exact hzero i hi
  · intro hcond
    have hfull : ∀ i < size, ∃ flags, readUser k'.mem s'.rootPgt.ppn (wrap (base + i)) =
        some (fileByte bytes (ph.offset.toNat + ph.fileSize.toNat) (ph.offset.toNat + i), flags) ∧
          SegmentFlags ph flags := by
      intro i hi
      rcases hcond with hz | hc
      · omega
      have hw := hc.no_wrap
      have hal := hc.aligned
      rw [hbase, hmem] at hw
      rw [hbase] at hal
      refine ⟨_, ?_, segmentFlags_spec ph⟩
      rw [hread hw i hi, if_pos hc.leaf]
      congr 2
      by_cases hfile : i < ph.fileSize.toNat
      · refine hshift.mpr (hal.imp_right fun hzero x hx => ?_) i hfile
        rw [hdata x hx]
        exact hzero x hx
      · rw [hpast _ (by omega), hpast _ (by omega)]
    refine ⟨fun i hi => ?_, fun i hi₁ hi₂ => ?_, by rw [hbase, hmem]; exact hothers⟩
    · obtain ⟨flags, hr, hf⟩ := hfull i (by omega)
      rw [hdata i hi] at hr
      exact ⟨flags, by rw [hbase]; exact hr, hf⟩
    · obtain ⟨flags, hr, hf⟩ := hfull i (by omega)
      rw [hpast i hi₁] at hr
      exact ⟨flags, by rw [hbase]; exact hr, hf⟩

/-- An address space with an empty root table. -/
def emptySpace : VMSpace := ⟨⟨0x80000, [0x80000]⟩, [], 0, 0, 0⟩

/-- Four bytes of data after four bytes of header, readable and page-aligned in memory. -/
def alignedPh : ProgramHeader := ⟨.ok .load, 4, 4, 0x10000, 4, 8, 4⟩

/-- The same data at the address that agrees with its offset in the file. -/
def congruentPh : ProgramHeader := ⟨.ok .load, 4, 4, 0x10004, 4, 8, 4096⟩

def sampleBytes : List UInt8 := [0, 0, 0, 0, 1, 2, 3, 4]

theorem emptyPhys_last : translate emptyPhys.mem emptySpace.rootPgt.ppn (2 ^ 52 - 1) = none := by
  decide

theorem mapUserElfSegment_loaded_aligned : ∃ k' s',
    mapUserElfSegment sampleBytes emptyPhys emptySpace alignedPh = (.ok (), k', s') ∧
      SegmentLoaded sampleBytes alignedPh emptyPhys.mem 0x80000 k'.mem s'.rootPgt.ppn := by
  have hok : (mapUserElfSegment sampleBytes emptyPhys emptySpace alignedPh).1 = .ok () := by decide
  have h : mapUserElfSegment sampleBytes emptyPhys emptySpace alignedPh =
      (.ok (), (mapUserElfSegment sampleBytes emptyPhys emptySpace alignedPh).2.1,
        (mapUserElfSegment sampleBytes emptyPhys emptySpace alignedPh).2.2) :=
    Prod.ext hok rfl
  have hacc : emptyPhys.Accounted 0x80000 ([0x80000] ++ []) := emptyPhys_accounted
  refine ⟨_, _, h, ?_⟩
  refine (mapUserElfSegment_loaded_iff hacc emptyPhys_tables emptyPhys_regular emptyPhys_last
    (by decide) (by decide) (by decide) h).mpr (Or.inr ?_)
  exact ⟨by decide, by decide, Or.inl (by decide)⟩

/-- The first byte of the data is 1, and user space reads 0 at its address. -/
theorem congruent_segment_shifted : ∃ k' s',
    mapUserElfSegment sampleBytes emptyPhys emptySpace congruentPh = (.ok (), k', s') ∧
      sampleBytes.getD congruentPh.offset.toNat 0 = 1 ∧
      readUser k'.mem s'.rootPgt.ppn congruentPh.virtualAddr.toNat = some (0, 0b10011) ∧
      ¬SegmentLoaded sampleBytes congruentPh emptyPhys.mem 0x80000 k'.mem s'.rootPgt.ppn := by
  have hok : (mapUserElfSegment sampleBytes emptyPhys emptySpace congruentPh).1 = .ok () := by decide
  have h : mapUserElfSegment sampleBytes emptyPhys emptySpace congruentPh =
      (.ok (), (mapUserElfSegment sampleBytes emptyPhys emptySpace congruentPh).2.1,
        (mapUserElfSegment sampleBytes emptyPhys emptySpace congruentPh).2.2) :=
    Prod.ext hok rfl
  have hread : readUser (mapUserElfSegment sampleBytes emptyPhys emptySpace congruentPh).2.1.mem
      (mapUserElfSegment sampleBytes emptyPhys emptySpace congruentPh).2.2.rootPgt.ppn
      congruentPh.virtualAddr.toNat = some (0, 0b10011) := by decide
  refine ⟨_, _, h, by decide, hread, fun hl => ?_⟩
  obtain ⟨flags, hr, -⟩ := hl.data 0 (by decide)
  rw [Nat.add_zero, wrap_of_lt (by decide), hread] at hr
  exact absurd (Prod.mk.inj (Option.some.inj hr)).1 (by decide)

end VMSpace

end RCoreKernel.Mm
