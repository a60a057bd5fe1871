import RCoreKernel.Mm.ViewOps

/-!
# What a new space holds

The pages of a new space hold chunks of the ELF file and zeros, whatever the physical pages held
before.

* `mapSegmentPages_content` — the loop over the pages of a segment;
* `newUser_view` — **the view of a new space is a function of the ELF file**.
-/

namespace RCoreKernel.Mm

open Radix RootPgt

namespace VMSpace

/-- The chunk of the file that goes to a page, from `dataStart` on. -/
def chunk (bytes : List UInt8) (dataEnd dataStart : ℕ) : List UInt8 :=
  if dataStart < dataEnd then (segmentSlice bytes dataStart dataEnd).getD [] else []

/-- Where the next chunk starts. -/
def nextChunk (dataEnd dataStart : ℕ) : ℕ :=
  if dataStart < dataEnd then wrap (dataStart + pageSizeBytes) else dataStart

/-- A page that starts with a chunk. -/
def chunkBytes (data : List UInt8) : ℕ → ℕ := fun offset =>
  if offset < 4096 then (data.getD offset 0).toNat else 0

/-- The pages of a segment. -/
def segmentContent (bytes : List UInt8) (dataEnd : ℕ) : List ℕ → ℕ → ℕ → Option (ℕ → ℕ)
  | [], _ => fun _ => none
  | v :: vs, dataStart =>
    Function.update (segmentContent bytes dataEnd vs (nextChunk dataEnd dataStart)) v
      (some (chunkBytes (chunk bytes dataEnd dataStart)))

theorem segmentContent_of_not_mem {bytes : List UInt8} {dataEnd : ℕ} {vs : List ℕ} {v : ℕ}
    (h : v ∉ vs) (dataStart : ℕ) : segmentContent bytes dataEnd vs dataStart v = none := by
  induction vs generalizing dataStart with
  | nil => rfl
  | cons w ws ih =>
    obtain ⟨hw, hws⟩ := List.ne_and_not_mem_of_not_mem_cons h
    unfold segmentContent
    rw [Function.update_of_ne hw]
    exact ih hws _

variable {img : KernelImage} {first : ℕ} {rest others : List ℕ} {k₀ k k' : Phys} {s s' : VMSpace}
  {t t' : RootPgt} {bytes : List UInt8} {dataEnd dataStart pteFlags : ℕ}

/-- A zeroed page after its chunk has been copied. -/
theorem loadPage_bytes {page d : ℕ} (hz : ∀ j, k.mem page j = 0)
    (h : loadPage bytes dataEnd k page dataStart = some (k', d)) :
    pageBytes k'.mem page = chunkBytes (chunk bytes dataEnd dataStart) ∧
      d = nextChunk dataEnd dataStart := by
  unfold loadPage at h
  unfold chunk nextChunk
  split at h
  · rename_i hlt
    obtain ⟨data, hslice, hd⟩ := Option.map_eq_some_iff.mp h
    obtain ⟨rfl, rfl⟩ := Prod.mk.inj hd
    rw [if_pos hlt, if_pos hlt, hslice, Option.getD_some]
    refine ⟨?_, rfl⟩
    funext offset
    unfold pageBytes chunkBytes
    split
    · rename_i ho
      rw [byteAt_copyData hz (by rw [pageSizeBytes_eq]; exact ho)]
      split
      · rfl
      · rename_i hlen
        rw [List.getD_eq_default _ _ (by omega)]
        rfl
    · rfl
  · rename_i hge
    obtain ⟨rfl, rfl⟩ := Prod.mk.inj (Option.some.inj h)
    rw [if_neg hge, if_neg hge]
    refine ⟨?_, rfl⟩
    rw [pageBytes_zero hz]
    funext offset
    simp [chunkBytes]

/-- The loop only adds pages to the area. -/
theorem mapSegmentPages_area {vs : List ℕ} {area area' : VMArea}
    (h : mapSegmentPages bytes pteFlags dataEnd vs k t area dataStart = (.ok (), k', t', area')) :
    area' = { area with pages := area'.pages } := by
  induction vs generalizing k t area dataStart area' with
  | nil =>
    cases h
    rfl
  | cons v vs ih =>
    rw [mapSegmentPages] at h
    split at h
    · cases h
    split at h
    · cases h
    split at h
    · cases h
    have hnext := ih h
    exact hnext

/-- What the loop over the pages of a segment has done. -/
structure SegmentFilled (bytes : List UInt8) (dataEnd : ℕ) (vs : List ℕ) (dataStart : ℕ)
    (others : List ℕ) (k : Phys) (area : VMArea) (k' : Phys) (t' : RootPgt) (area' : VMArea) :
    Prop where
  content : ∀ v, area'.content k'.mem v =
    if v ∈ vs then segmentContent bytes dataEnd vs dataStart v else area.content k.mem v
  frame : ∀ p ∈ others, k'.mem p = k.mem p
  regular : RegularUser k'.mem t'.ppn

/-- **The loop over the pages of a segment.** -/
theorem mapSegmentPages_content {vs : List ℕ} {area area' : VMArea}
    (hacc : k.Accounted first (t.pages ++ others)) (ht : Tables UserHalf k t)
    (hreg : RegularUser k.mem t.ppn) (hvs : ∀ v ∈ vs, v < 2 ^ 26) (hnd : vs.Nodup)
    (hown : ∀ p ∈ area.pages.values, p ∈ others)
    (h : mapSegmentPages bytes pteFlags dataEnd vs k t area dataStart = (.ok (), k', t', area')) :
    SegmentFilled bytes dataEnd vs dataStart others k area k' t' area' := by
  induction vs generalizing k t area dataStart others with
  | nil =>
    cases h
    exact ⟨fun v => by simp, fun _ _ => rfl, hreg⟩
  | cons v vs ih =>
    rw [mapSegmentPages] at h
    split at h
    · cases h
    rename_i page k₁ hal
    obtain ⟨hacc₁, hfresh, hmem₁⟩ := Phys.allocZeroedPage_spec hacc hal
    have hz : ∀ j, k₁.mem page j = 0 := fun j => by simp [hmem₁]
    have hsame₁ : ∀ p, p ≠ page → k₁.mem p = k.mem p := fun p hp => by
      funext j
      simp [hmem₁, hp]
    split at h
    · cases h
    rename_i k₂ d hload
    obtain ⟨hbytes, rfl⟩ := loadPage_bytes hz hload
    obtain ⟨halloc₂, hsame₂⟩ := loadPage_eq hload
    have hsame : ∀ p, p ≠ page → k₂.mem p = k.mem p := fun p hp =>
      (hsame₂ p hp).trans (hsame₁ p hp)
    have hacc₂ : k₂.Accounted first (t.pages ++ (page :: others)) :=
      (hacc₁.of_alloc_eq halloc₂).congr List.perm_middle.symm
    have htables : ∀ p ∈ t.pages, k₂.mem p = k.mem p := fun p hp =>
      hsame p fun e => hfresh (List.mem_append_left _ (e ▸ hp))
    have ht₂ : Tables UserHalf k₂ t :=
      ht.frame (fun i _ => by rw [htables _ ht.root_mem]) fun p hp _ j => by rw [htables p hp]
    have hreg₂ : RegularUser k₂.mem t.ppn :=
      hreg.frame ht (fun i _ => by rw [htables _ ht.root_mem]; exact ⟨rfl, id⟩) fun p hp _ j => by
        rw [htables p hp]
        exact id
    split at h
    · cases h
    rename_i k₃ t₃ hmap
    have hU : UserHalf (parseVpn v).vpn2 := vpn2_lt (hvs v List.mem_cons_self)
    have g := mapCreate_spec hacc₂ ht₂ hU (hacc₂.lt (by simp)) hmap
    have hframe₃ : ∀ p ∈ page :: others, k₃.mem p = k₂.mem p := fun p hp => g.frame_rest hp
    have hothers : ∀ p ∈ others, k₃.mem p = k.mem p := fun p hp => by
      rw [hframe₃ p (List.mem_cons_of_mem _ hp)]
      exact hsame p fun e => hfresh (List.mem_append_right _ (e ▸ hp))
    obtain ⟨hvn, hnd'⟩ := List.nodup_cons.mp hnd
    have hown' : ∀ p ∈ (area.pages.insert v page).values, p ∈ page :: others := by
      intro p hp
      obtain ⟨w, hw⟩ := BTreeMap.mem_values.mp hp
      rcases BTreeMap.mem_insert.mp hw with ⟨-, rfl⟩ | ⟨-, hw⟩
      · exact List.mem_cons_self
      · exact List.mem_cons_of_mem _ (hown p (BTreeMap.mem_values.mpr ⟨w, hw⟩))
    have hrest := ih g.accounted g.tables (g.interior PTE.regular_zero PTE.regular_pointer hreg₂)
      (fun w hw => hvs w (List.mem_cons_of_mem _ hw)) hnd' hown' h
    refine ⟨fun w => ?_, fun p hp => ?_, hrest.regular⟩
    · -- the page itself, the later pages, and what the area held before
      rw [hrest.content w]
      have hinsert : VMArea.content k₃.mem { area with pages := area.pages.insert v page } w =
          if w = v then some (pageBytes k₃.mem page) else area.content k₃.mem w := by
        show ((area.pages.insert v page).get? w).map _ = _
        rw [BTreeMap.get?_insert]
        split
        · rfl
        · rfl
      have hcons : segmentContent bytes dataEnd (v :: vs) dataStart =
          Function.update (segmentContent bytes dataEnd vs (nextChunk dataEnd dataStart)) v
            (some (chunkBytes (chunk bytes dataEnd dataStart))) := rfl
      rw [hcons]
      by_cases hw : w = v
      · subst hw
        rw [if_neg hvn, hinsert, if_pos rfl, if_pos List.mem_cons_self, Function.update_self,
          pageBytes_congr (hframe₃ page List.mem_cons_self), hbytes]
      · rw [Function.update_of_ne hw, hinsert, if_neg hw,
          VMArea.content_congr fun p hp => hothers p (hown p hp)]
        simp [hw]
    · rw [hrest.frame p (List.mem_cons_of_mem _ hp)]
      exact hothers p hp

/-! ### The stages of `new_user` -/

/-- The area of a segment, with the data of the file. -/
def segmentArea (bytes : List UInt8) (ph : ProgramHeader) (area : VMArea) : UserArea :=
  ⟨area.startVpn, area.endVpn, area.permissions,
    segmentContent bytes (wrap (ph.offset.toNat + ph.fileSize.toNat)) area.vpns ph.offset.toNat⟩

/-- The areas that `map_user_elf` adds. -/
def segmentViews (bytes : List UInt8) (phs : List ProgramHeader) : View :=
  phs.filterMap fun ph =>
    match ph.type with
    | .ok .load => (createAreaFromPh ph).map fun area => some (segmentArea bytes ph area)
    | _ => none

/-- The user stack, with one page. -/
def stackView : UserArea :=
  ⟨userStackArea.startVpn, userStackArea.endVpn, userStackArea.permissions,
    Function.update (fun _ => none) (userEndVpn - 1) (some fun _ => 0)⟩

/-- The view of a new space. -/
def elfView (elf : Elf) : View :=
  match elf.parsed with
  | .ok file => segmentViews elf.bytes file.headers ++ [some stackView] ++ [none]
  | .error _ => []

theorem Loaded.accounted_others (hl : Loaded img first rest k₀ k s) :
    k.Accounted first (s.rootPgt.pages ++ (s.areas.flatMap (fun a => a.pages.values) ++ rest)) := by
  have hacc := hl.accounted
  rwa [pages, List.append_assoc] at hacc

/-- One segment. -/
theorem mapUserElfSegment_view (hl : Loaded img first rest k₀ k s)
    (hreg : RegularUser k.mem s.rootPgt.ppn) {ph : ProgramHeader}
    (h : mapUserElfSegment bytes k s ph = (.ok (), k', s')) (hl' : Loaded img first rest k₀ k' s') :
    ∃ area, createAreaFromPh ph = some area ∧
      s'.view k'.mem = s.view k.mem ++ [some (segmentArea bytes ph area)] ∧
      RegularUser k'.mem s'.rootPgt.ppn := by
  unfold mapUserElfSegment at h
  dsimp only at h
  split at h
  · cases h
  split at h
  · cases h
  split at h
  · cases h
  rename_i area harea
  obtain ⟨hpages, hanon, hbits⟩ := createAreaFromPh_eq harea
  rw [toPteFlags_segment hbits] at h
  dsimp only at h
  split at h
  · rename_i k₁ t₁ area₁ hres
    cases h
    have hempty : ∀ p ∈ area.pages.values, p ∈ s.areas.flatMap (fun a => a.pages.values) ++ rest := by
      rw [hpages]
      simp
    have hnd : area.vpns.Nodup := List.nodup_range'
    -- the pages of the finished area lie in user space
    have hplaced : ∀ v ∈ area.vpns, area₁ = { area with pages := area₁.pages } → v < 2 ^ 26 := by
      intro v hv heq
      have hcon : area₁.containVpn v = true := by
        rw [heq]
        exact VMArea.mem_vpns.mp hv
      have hanon₁ : area₁.mapType = .anonymous := by
        rw [heq]
        exact hanon
      rcases hl'.ok.placement area₁ (by simp) with ⟨-, hlt⟩ | ⟨hkern, -⟩
      · exact lt_of_lt_userEnd (hlt v hcon)
      · rw [hanon₁] at hkern
        cases hkern
    have heq := mapSegmentPages_area hres
    have hfill := mapSegmentPages_content hl.accounted_others hl.ok.tables hreg
      (fun v hv => hplaced v hv heq) hnd hempty hres
    refine ⟨area, harea, ?_, hfill.regular⟩
    show (s.areas ++ [area₁]).map (VMArea.view k'.mem) = _
    rw [List.map_append, List.map_singleton]
    congr 1
    · apply List.map_congr_left
      intro a ha
      apply VMArea.view_congr
      intro p hp
      exact hfill.frame p (List.mem_append_left _ (List.mem_flatMap.mpr ⟨a, ha, hp⟩))
    · congr 1
      have hanon₁ : area₁.mapType = .anonymous := by
        rw [heq]
        exact hanon
      rw [VMArea.view_anonymous hanon₁, segmentArea]
      have hcontent : area₁.content k'.mem = segmentContent bytes
          (wrap (ph.offset.toNat + ph.fileSize.toNat)) area.vpns ph.offset.toNat := by
        funext v
        rw [hfill.content v]
        split
        · rfl
        · rename_i hv
          rw [segmentContent_of_not_mem hv, VMArea.content, hpages]
          rfl
      rw [hcontent, heq]
  · cases h
  · cases h

/-- All segments. -/
theorem mapSegments_view (hrest : ∀ p ∈ img.pages, p ∈ rest) (bytes : List UInt8)
    {phs : List ProgramHeader} : ∀ {k s}, Loaded img first rest k₀ k s → Full s →
      TameSegments (covered s.areas) phs → RegularUser k.mem s.rootPgt.ppn →
      mapSegments bytes phs k s = (.ok (), k', s') →
      s'.view k'.mem = s.view k.mem ++ segmentViews bytes phs ∧
        RegularUser k'.mem s'.rootPgt.ppn := by
  induction phs with
  | nil =>
    intro k s hl _ _ hreg h
    cases h
    exact ⟨by simp [segmentViews], hreg⟩
  | cons ph phs ih =>
    intro k s hl hfull htame hreg h
    unfold mapSegments at h
    unfold TameSegments at htame
    split at h
    · cases h
    · rename_i htype
      rw [htype] at htame
      have hnext := ih hl hfull htame hreg h
      simpa only [segmentViews, List.filterMap_cons, htype] using hnext
    · rename_i htype
      rw [htype] at htame
      have hseg := mapUserElfSegment_spec hrest hl hfull bytes ph
        fun area halign harea => (htame area halign harea).1
      split at h
      · rename_i k₁ s₁ hres
        rw [hres] at hseg
        obtain ⟨hl₁, hfull₁, halign, area, pages, harea, hfits, hareas⟩ := hseg
        dsimp only at hareas
        have hcov : (fun v => covered s.areas v || area.containVpn v) = covered s₁.areas := by
          funext v
          rw [hareas, covered_append]
          rfl
        have htame₁ := (htame area halign harea).2 hfits
        rw [hcov] at htame₁
        obtain ⟨area', harea', hview₁, hreg₁⟩ := mapUserElfSegment_view hl hreg hres hl₁
        obtain rfl := Option.some.inj (harea.symm.trans harea')
        obtain ⟨hview, hreg'⟩ := ih hl₁ hfull₁ htame₁ hreg₁ h
        refine ⟨?_, hreg'⟩
        rw [hview, hview₁, List.append_assoc]
        simp [segmentViews, htype, harea]
      · rename_i hne
        exact absurd h (hne k' s')

/-- The user stack. -/
theorem addUserStackArea_view (hl : Loaded img first rest k₀ k s)
    (hreg : RegularUser k.mem s.rootPgt.ppn) (h : addUserStackArea k s = (.ok (), k', s')) :
    s'.view k'.mem = s.view k.mem ++ [some stackView] ∧ RegularUser k'.mem s'.rootPgt.ppn := by
  have hbits : PermissionBits userStackArea.permissions := by
    unfold PermissionBits
    decide
  unfold addUserStackArea at h
  dsimp only at h
  rw [show toPteFlags (permissionR ||| permissionW ||| permissionU) =
    .ok (userStackArea.permissions ||| PTE.flagV) from toPteFlags_of_bits hbits] at h
  dsimp only at h
  split at h
  · cases h
  rename_i page k₁ hal
  rw [show VPN.fromVa (userSpaceEnd - pageSizeBytes) = some (userEndVpn - 1) by decide,
    show VPN.fromVa userSpaceEnd = some userEndVpn by decide,
    show VPN.fromVa (userSpaceEnd - userStackMaxSizeBytes) = some (userEndVpn - 2048) by decide] at h
  dsimp only at h
  split at h
  · cases h
  rename_i k₂ t₂ hmap
  cases h
  -- the page is fresh and zero, and the tables grow
  obtain ⟨hacc₁, hfresh, hmem₁⟩ := Phys.allocZeroedPage_spec hl.accounted_others hal
  have hsame : ∀ p, p ≠ page → k₁.mem p = k.mem p := fun p hp => by
    funext j
    simp [hmem₁, hp]
  have htables : ∀ p ∈ s.rootPgt.pages, k₁.mem p = k.mem p := fun p hp =>
    hsame p fun e => hfresh (List.mem_append_left _ (e ▸ hp))
  have ht := hl.ok.tables
  have ht₁ : Tables UserHalf k₁ s.rootPgt :=
    ht.frame (fun i _ => by rw [htables _ ht.root_mem]) fun p hp _ j => by rw [htables p hp]
  have hreg₁ : RegularUser k₁.mem s.rootPgt.ppn :=
    hreg.frame ht (fun i _ => by rw [htables _ ht.root_mem]; exact ⟨rfl, id⟩) fun p hp _ j => by
      rw [htables p hp]
      exact id
  have hU : UserHalf (parseVpn (userEndVpn - 1)).vpn2 := vpn2_lt (by decide)
  have hacc₁' : k₁.Accounted first
      (s.rootPgt.pages ++ page :: (s.areas.flatMap (fun a => a.pages.values) ++ rest)) :=
    hacc₁.congr List.perm_middle.symm
  have g := mapCreate_spec hacc₁' ht₁ hU (hacc₁'.lt (by simp)) hmap
  refine ⟨?_, g.interior PTE.regular_zero PTE.regular_pointer hreg₁⟩
  show (s.areas ++ [userStack page]).map (VMArea.view k'.mem) = _
  rw [List.map_append, List.map_singleton]
  congr 1
  · apply List.map_congr_left
    intro a ha
    apply VMArea.view_congr
    intro p hp
    have hin : p ∈ s.areas.flatMap (fun a => a.pages.values) ++ rest :=
      List.mem_append_left _ (List.mem_flatMap.mpr ⟨a, ha, hp⟩)
    rw [g.frame_rest (List.mem_cons_of_mem _ hin)]
    exact hsame p fun e => hfresh (List.mem_append_right _ (e ▸ hin))
  · congr 1
    have hzero : pageBytes k'.mem page = fun _ => 0 := by
      apply pageBytes_zero
      intro j
      rw [g.frame_rest List.mem_cons_self, hmem₁]
      simp
    refine (if_pos rfl).trans ?_
    show some (UserArea.mk _ _ _ _) = some (UserArea.mk _ _ _ _)
    congr 2
    funext v
    show ((userStackArea.pages.insert (userEndVpn - 1) page).get? v).map _ = _
    rw [BTreeMap.get?_insert]
    by_cases hv : v = userEndVpn - 1
    · rw [if_pos hv, hv, Function.update_self, Option.map_some, hzero]
    · rw [if_neg hv, Function.update_of_ne hv]
      rfl

/-- The kernel stack. -/
theorem addKernelStackArea_view (hl : Loaded img first rest k₀ k s)
    (hreg : RegularUser k.mem s.rootPgt.ppn) (h : addKernelStackArea k s = (.ok (), k', s')) :
    s'.view k'.mem = s.view k.mem ++ [none] ∧ RegularUser k'.mem s'.rootPgt.ppn := by
  unfold addKernelStackArea at h
  split at h
  · cases h
  rename_i page k₁ hal
  obtain ⟨hacc₁, -, hmem₁⟩ := Phys.allocPage_spec hl.accounted hal
  have hlt : page < memEndPpn := hacc₁.lt_memEnd (by simp)
  rw [pushKernelStack_eq hlt] at h
  cases h
  refine ⟨?_, ?_⟩
  · show (s.areas ++ [kernelStack page]).map (VMArea.view k'.mem) = _
    rw [List.map_append, hmem₁]
    rfl
  · rw [hmem₁]
    exact hreg

/-- A copy of the kernel root has no entries in user space. -/
theorem newCopy_regular (hacc : k.Accounted first rest) (himg : img.Intact k.mem)
    (h : RootPgt.newCopy k img.root = (.ok t, k')) : RegularUser k'.mem t.ppn := by
  obtain ⟨page, k₁, hal, rfl, rfl⟩ := newCopy_ok h
  obtain ⟨-, -, hmem₁⟩ := Phys.allocPage_spec hacc hal
  have hempty : ∀ i, UserHalf i →
      PTE.SameButAD (copy k₁.mem img.root page page i) 0 := fun i hi => by
    have h0 := himg img.root img.root_mem i
    rw [img.user_empty i hi] at h0
    simpa [hmem₁] using h0
  exact Interior.bare (fun i hi => (hempty i hi).child_eq)
    fun hi => (hempty _ hi).regular PTE.regular_zero

/-- **The view of a new space is a function of the ELF file.** -/
theorem newUser_view (hrest : ∀ p ∈ img.pages, p ∈ rest) (hacc : k.Accounted first rest)
    (himg : img.Intact k.mem) {elf : Elf} (htame : TameElf elf)
    (hstack : ∀ file, elf.parsed = .ok file → StackFree (loadAreas file.headers))
    (h : newUser k img.root elf = (.ok s, k')) :
    s.view k'.mem = elfView elf ∧ RegularUser k'.mem s.rootPgt.ppn := by
  unfold newUser at h
  split at h
  · cases h
  rename_i t k₁ hcopy
  have hl := Loaded.newCopy hrest hacc himg hcopy 0 0 0
  have hreg := newCopy_regular hacc himg hcopy
  have hfull : Full ⟨t, [], 0, 0, 0⟩ := ⟨by simp, by simp⟩
  split at h
  · rename_i k₂ s₂ hfill
    cases h
    unfold fillUser at hfill
    split at hfill
    · rename_i k₃ s₃ helf
      have hspec := mapUserElf_spec hrest hl rfl htame
      rw [helf] at hspec
      obtain ⟨hl₃, hfull₃, file, hparsed, hareas₃, -⟩ := hspec
      unfold mapUserElf at helf
      rw [hparsed] at helf
      dsimp only at helf
      split at helf
      · rename_i k₄ s₄ hsegs
        cases helf
        obtain ⟨hview₄, hreg₄⟩ := mapSegments_view hrest elf.bytes hl hfull
          (htame file hparsed) hreg hsegs
        have hfree : StackFree s₄.areas := StackFree.of_bare (hareas₃ ▸ hstack file hparsed)
        have hu := addUserStackArea_spec hrest hl₃ hfull₃ hfree
        split at hfill
        · rename_i k₅ s₅ hstackRes
          rw [hstackRes] at hu
          obtain ⟨hview₅, hreg₅⟩ := addUserStackArea_view hl₃ hreg₄ hstackRes
          obtain ⟨hview₆, hreg₆⟩ := addKernelStackArea_view hu.1 hreg₅ hfill
          refine ⟨?_, hreg₆⟩
          rw [hview₆, hview₅, elfView, hparsed]
          congr 2
        · rename_i hne
          exact absurd hfill (hne _ _)
      · rename_i hne
        exact absurd helf (hne _ _)
    · rename_i hne
      exact absurd hfill (hne _ _)
  · cases h
  · cases h

end VMSpace

end RCoreKernel.Mm
