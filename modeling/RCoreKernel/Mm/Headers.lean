import RCoreKernel.Mm.Draft

/-!
# Program headers

`new_user` validates the alignment of a header and nothing else.  `HeadersSafe` is what the headers
must be like, as far as the loader reaches them, so that it neither panics nor writes to tables of
the kernel nor returns areas that overlap or are empty.  How far it reaches depends on the pages that
are available, which the draft of the tables counts.

* `PagesSafe`, `SegmentsSafe`, `StacksSafe`, `HeadersSafe` — the pages of a segment, the segments, the
  stacks, the file;
* `Fate` — how a stage of the loader ends, `mapSegmentPages_fate`, `mapSegments_fate` — the loops;
* `newUser_contract` — **exactly safe headers give a space in order, or an error**.
-/

namespace RCoreKernel.Mm

open Radix RootPgt

namespace VMSpace

variable {img : KernelImage} {first page : ℕ} {rest : List ℕ} {k₀ k k' k₁ : Phys} {s s' : VMSpace}
  {t t' : RootPgt} {d : Draft} {res : Outcome VMError Unit} {safe : Prop} {next next' : Draft → Prop}

/-! ### The condition -/

/-- The pages of a segment that the loader reaches: their part of the file is there, and those below
a root slot of the kernel are refused.  It stops when no page is left, at the first page if the flags
are not a legal encoding, and at a page that cannot be mapped; `next` is about what comes after the
last one. -/
def PagesSafe (m : Mem) (root : ℕ) (bytes : List UInt8) (pteFlags dataEnd : ℕ)
    (next : Draft → Prop) : List ℕ → ℕ → Draft → Prop
  | [], _, d => next d
  | v :: vs, dataStart, d => 0 < d.free →
      (dataStart < dataEnd → segmentSlice bytes dataStart dataEnd ≠ none) ∧
      (PTE.isValidFlags pteFlags = true →
        (¬Unused m root (parseVpn v).vpn2 → Refuses m root d.take.free v) ∧
        (Unused m root (parseVpn v).vpn2 → d.take.Maps (parseVpn v) →
          PagesSafe m root bytes pteFlags dataEnd next vs
            (if dataStart < dataEnd then wrap (dataStart + pageSizeBytes) else dataStart)
            (d.take.map (parseVpn v))))

/-- A loadable segment. -/
def SegmentSafe (m : Mem) (root : ℕ) (bytes : List UInt8) (next : Draft → Prop)
    (ph : ProgramHeader) (d : Draft) : Prop :=
  ph.align.toNat ≠ 0 ∧
    (pageSizeBytes % ph.align.toNat = 0 → ∃ area, createAreaFromPh ph = some area ∧
      PagesSafe m root bytes (segmentFlags area) (wrap (ph.offset.toNat + ph.fileSize.toNat)) next
        area.vpns ph.offset.toNat d)

/-- The headers that the loader reaches. -/
def SegmentsSafe (m : Mem) (root : ℕ) (bytes : List UInt8) (next : Draft → Prop) :
    List ProgramHeader → Draft → Prop
  | [], d => next d
  | ph :: phs, d =>
    match ph.type with
    | .error _ => True
    | .ok .other => SegmentsSafe m root bytes next phs d
    | .ok .load => SegmentSafe m root bytes (fun d => SegmentsSafe m root bytes next phs d) ph d

/-- No segment is empty, and each lies below the end of user space and outside the user stack. -/
def SegmentsPlaced (areas : List VMArea) : Prop :=
  ∀ a ∈ areas, a.startVpn < a.endVpn ∧ a.endVpn ≤ userEndVpn ∧ VMArea.Apart a userStackArea

/-- The last page of the user stack. -/
def stackVpn : Parsed := parseVpn (userEndVpn - 1)

/-- The stacks are only added when there are pages for both and the last page of the user stack can be
mapped. -/
def StacksSafe (areas : List VMArea) (d : Draft) : Prop :=
  0 < d.free → d.take.Maps stackVpn → 0 < (d.take.map stackVpn).free → SegmentsPlaced areas

/-- The headers of a file that can be parsed, when there is a page for the root. -/
def HeadersSafe (k : Phys) (root : ℕ) (elf : Elf) : Prop :=
  0 < k.available → ∀ file, elf.parsed = .ok file →
    SegmentsSafe k.mem root elf.bytes (StacksSafe (loadAreas file.headers)) file.headers
      ⟨k.available - 1, []⟩

/-! ### How a stage ends -/

/-- A stage of the loader, started in a state where `safe` decides: it goes on, where `next` decides;
it fails and the kernel's tables are as they were; it panics; or a table of the kernel has been
written. -/
inductive Fate (img : KernelImage) (first : ℕ) (rest : List ℕ) (k₀ : Phys) (safe : Prop)
    (next : Draft → Prop) : Outcome VMError Unit → Phys → RootPgt → Prop
  | done {d : Draft} {k : Phys} {t : RootPgt} (hd : Drawn first rest img.root k₀ d k t)
      (h : safe ↔ next d) : Fate img first rest k₀ safe next (.ok ()) k t
  | failed {e : VMError} {k : Phys} {t : RootPgt} (hframe : ∀ p ∈ rest, k.mem p = k₀.mem p)
      (h : safe) : Fate img first rest k₀ safe next (.err e) k t
  | panics {site : Panic} {k : Phys} {t : RootPgt} (h : ¬safe) :
      Fate img first rest k₀ safe next (.panic site) k t
  | spoiled {res : Outcome VMError Unit} {k : Phys} {t : RootPgt} (hs : Spoiled img k₀ k)
      (h : ¬safe) : Fate img first rest k₀ safe next res k t

theorem Fate.congr {safe' : Prop} (h : Fate img first rest k₀ safe next res k t)
    (hiff : safe ↔ safe') : Fate img first rest k₀ safe' next res k t := by
  cases h with
  | done hd h => exact .done hd (hiff.symm.trans h)
  | failed hframe h => exact .failed hframe (hiff.mp h)
  | panics h => exact .panics fun hs => h (hiff.mpr hs)
  | spoiled hs h => exact .spoiled hs fun hs' => h (hiff.mpr hs')

/-- Giving pages back does not change how a stage ended. -/
theorem Fate.of_mem_eq (h : Fate img first rest k₀ safe next res k t) (hne : res ≠ .ok ())
    (hmem : k'.mem = k.mem) : Fate img first rest k₀ safe next res k' t' := by
  cases h with
  | done => exact absurd rfl hne
  | failed hframe h => exact .failed (fun p hp => by rw [hmem]; exact hframe p hp) h
  | panics h => exact .panics h
  | spoiled hs h => exact .spoiled (by unfold Spoiled; rw [hmem]; exact hs) h

/-- **The next stage.** -/
theorem Fate.bind (hrest : ∀ p ∈ img.pages, p ∈ rest)
    (h : Fate img first rest k₀ safe next (.ok ()) k t)
    (hnext : ∀ d, Drawn first rest img.root k₀ d k t →
      Fate img first rest k₀ (next d) next' res k' t')
    (hkeeps : KeepsValid rest k k') : Fate img first rest k₀ safe next' res k' t' := by
  cases h with
  | done hd h => exact (hnext _ hd).congr h.symm
  | spoiled hs h => exact .spoiled (hs.mono hrest hkeeps) h

/-- A stage that stopped is the end. -/
theorem Fate.stop (h : Fate img first rest k₀ safe next res k t) (hne : res ≠ .ok ()) :
    Fate img first rest k₀ safe next' res k t := by
  cases h with
  | done => exact absurd rfl hne
  | failed hframe h => exact .failed hframe h
  | panics h => exact .panics h
  | spoiled hs h => exact .spoiled hs h

/-! ### Valid entries stay valid -/

/-- The pages of the tables and of the other owners are in use. -/
def Holding (first : ℕ) (rest : List ℕ) (k : Phys) (t : RootPgt) : Prop :=
  ∃ held, k.Accounted first (t.pages ++ (held ++ rest))

/-- Whatever a stage did, it took no valid entry of another owner back. -/
structure Upheld (first : ℕ) (rest : List ℕ) (k : Phys) (res : Outcome VMError Unit) (k' : Phys)
    (t' : RootPgt) : Prop where
  keeps : KeepsValid rest k k'
  holding : res = .ok () → Holding first rest k' t'

theorem allocPage_of_zeroed (h : k.allocZeroedPage = some (page, k')) :
    ∃ k₁, k.allocPage = some (page, k₁) ∧ k'.alloc = k₁.alloc ∧
      ∀ p, p ≠ page → k'.mem p = k.mem p := by
  obtain ⟨⟨q, k₁⟩, hal, he⟩ := Option.map_eq_some_iff.mp h
  cases he
  obtain ⟨r, -, hr⟩ := Option.map_eq_some_iff.mp hal
  cases hr
  refine ⟨_, hal, rfl, fun p hp => ?_⟩
  funext j
  simp [hp]

/-- Taking a page and writing to it. -/
theorem Holding.take (h : Holding first rest k t) (hal : k.allocPage = some (page, k₁))
    (halloc : k'.alloc = k₁.alloc) (hmem : ∀ p, p ≠ page → k'.mem p = k.mem p) :
    Holding first rest k' t ∧ KeepsValid rest k k' := by
  obtain ⟨held, hacc⟩ := h
  obtain ⟨hacc₁, hfresh, -⟩ := Phys.allocPage_spec hacc hal
  refine ⟨⟨page :: held, (hacc₁.of_alloc_eq halloc).congr List.perm_middle.symm⟩, ?_⟩
  refine KeepsValid.of_mem_eq fun p hp => hmem p ?_
  rintro rfl
  exact hfresh (List.mem_append_right _ (List.mem_append_right _ hp))

theorem Holding.mapCreate {vpn ppn pteFlags : ℕ} {r : Except PgtError Unit}
    (h : Holding first rest k t) (hmap : mapCreate k t vpn ppn pteFlags = (r, k', t')) :
    Holding first rest k' t' ∧ KeepsValid rest k k' := by
  obtain ⟨held, hacc⟩ := h
  refine ⟨⟨held, mapCreate_accounted hacc hmap⟩, (mapCreate_keepsValid hacc hmap).mono ?_⟩
  exact fun p hp => List.mem_append_right _ (List.mem_append_right _ hp)

theorem mapSegmentPages_upheld {bytes : List UInt8} {pteFlags dataEnd : ℕ} (vs : List ℕ) :
    ∀ {k k' t t'} {area area' : VMArea} {dataStart : ℕ}, Holding first rest k t →
      mapSegmentPages bytes pteFlags dataEnd vs k t area dataStart = (res, k', t', area') →
      Upheld first rest k res k' t' := by
  induction vs with
  | nil =>
    intro k k' t t' area area' dataStart hh h
    cases h
    exact ⟨KeepsValid.refl rest k, fun _ => hh⟩
  | cons v vs ih =>
    intro k k' t t' area area' dataStart hh h
    rw [mapSegmentPages] at h
    split at h
    · cases h
      exact ⟨KeepsValid.refl rest k, fun he => by cases he⟩
    rename_i page k₁ hal
    obtain ⟨k₀, hal₀, halloc, hmem⟩ := allocPage_of_zeroed hal
    split at h
    · cases h
      exact ⟨(hh.take hal₀ halloc hmem).2, fun he => by cases he⟩
    rename_i k₂ d hload
    obtain ⟨halloc₂, hmem₂⟩ := loadPage_eq hload
    obtain ⟨hh₂, hk₂⟩ := hh.take hal₀ (halloc₂.trans halloc) fun p hp =>
      (hmem₂ p hp).trans (hmem p hp)
    split at h
    · rename_i hmap
      cases h
      exact ⟨hk₂.trans (hh₂.mapCreate hmap).2, fun he => by cases he⟩
    · rename_i hmap
      obtain ⟨hh₃, hk₃⟩ := hh₂.mapCreate hmap
      have hu := ih hh₃ h
      exact ⟨(hk₂.trans hk₃).trans hu.keeps, hu.holding⟩

theorem mapUserElfSegment_upheld {bytes : List UInt8} {ph : ProgramHeader}
    (hh : Holding first rest k s.rootPgt)
    (h : mapUserElfSegment bytes k s ph = (res, k', s')) :
    Upheld first rest k res k' s'.rootPgt := by
  unfold mapUserElfSegment at h
  dsimp only at h
  split at h
  · cases h
    exact ⟨KeepsValid.refl rest k, fun he => by cases he⟩
  split at h
  · cases h
    exact ⟨KeepsValid.refl rest k, fun he => by cases he⟩
  split at h
  · cases h
    exact ⟨KeepsValid.refl rest k, fun he => by cases he⟩
  split at h
  · cases h
    exact ⟨KeepsValid.refl rest k, fun he => by cases he⟩
  split at h
  · rename_i hpages
    cases h
    exact mapSegmentPages_upheld _ hh hpages
  · rename_i hpages
    cases h
    refine ⟨fun p hp j hv => ?_, fun he => by cases he⟩
    rw [Phys.dropPages_mem]
    exact (mapSegmentPages_upheld _ hh hpages).keeps p hp j hv
  · rename_i hpages
    cases h
    exact ⟨(mapSegmentPages_upheld _ hh hpages).keeps, fun he => by cases he⟩

theorem mapSegments_upheld {bytes : List UInt8} (phs : List ProgramHeader) :
    ∀ {k k'} {s s' : VMSpace}, Holding first rest k s.rootPgt →
      mapSegments bytes phs k s = (res, k', s') → Upheld first rest k res k' s'.rootPgt := by
  induction phs with
  | nil =>
    intro k k' s s' hh h
    cases h
    exact ⟨KeepsValid.refl rest k, fun _ => hh⟩
  | cons ph phs ih =>
    intro k k' s s' hh h
    rw [mapSegments] at h
    split at h
    · cases h
      exact ⟨KeepsValid.refl rest k, fun he => by cases he⟩
    · exact ih hh h
    · split at h
      · rename_i hseg
        have hu := mapUserElfSegment_upheld hh hseg
        have hu' := ih (hu.holding rfl) h
        exact ⟨hu.keeps.trans hu'.keeps, hu'.holding⟩
      · exact mapUserElfSegment_upheld hh h

/-- The user stack is set up by one `map_create`. -/
theorem addUserStackArea_eq (k : Phys) (s : VMSpace) : addUserStackArea k s =
    match k.allocZeroedPage with
    | none => (.err .acquirePageFailed, k, s)
    | some (page, k) =>
      match RootPgt.mapCreate k s.rootPgt (userEndVpn - 1) page 23 with
      | (.error e, k, t) =>
        (.err (.pgtError (userEndVpn - 1) e), k.dropPage page, { s with rootPgt := t })
      | (.ok (), k, t) => (.ok (), k,
        { s with rootPgt := t, areas := s.areas ++ [userStack page], uStackEnd := userSpaceEnd }) := by
  have hflags : toPteFlags (permissionR ||| permissionW ||| permissionU) = .ok 23 := by decide
  have hvpn : VPN.fromVa (userSpaceEnd - pageSizeBytes) = some (userEndVpn - 1) := by decide
  have hend : VPN.fromVa userSpaceEnd = some userEndVpn := by decide
  have hstart : VPN.fromVa (userSpaceEnd - userStackMaxSizeBytes) = some (userEndVpn - 2048) := by
    decide
  unfold addUserStackArea
  simp only [hflags, hvpn, hend, hstart]
  rfl

theorem addUserStackArea_upheld (hh : Holding first rest k s.rootPgt)
    (h : addUserStackArea k s = (res, k', s')) : Upheld first rest k res k' s'.rootPgt := by
  rw [addUserStackArea_eq] at h
  split at h
  · cases h
    exact ⟨KeepsValid.refl rest k, fun he => by cases he⟩
  rename_i page k₁ hal
  obtain ⟨k₀, hal₀, halloc, hmem⟩ := allocPage_of_zeroed hal
  obtain ⟨hh₁, hk₁⟩ := hh.take hal₀ halloc hmem
  split at h
  · rename_i hmap
    cases h
    exact ⟨hk₁.trans (hh₁.mapCreate hmap).2, fun he => by cases he⟩
  · rename_i hmap
    cases h
    exact ⟨hk₁.trans (hh₁.mapCreate hmap).2, fun _ => (hh₁.mapCreate hmap).1⟩

/-- The kernel stack has no table entry of its own: memory stays as it is. -/
theorem addKernelStackArea_mem (h : addKernelStackArea k s = (res, k', s')) : k'.mem = k.mem := by
  unfold addKernelStackArea at h
  split at h
  · cases h
    rfl
  · rename_i page k₁ hal
    have hmem : k₁.mem = k.mem := by
      obtain ⟨r, -, hr⟩ := Option.map_eq_some_iff.mp hal
      cases hr
      rfl
    unfold pushKernelStack at h
    cases hvpns : kernelStackVpns page with
    | none =>
      rw [hvpns] at h
      cases h
      exact hmem
    | some r =>
      rw [hvpns] at h
      cases h
      exact hmem

/-! ### The stages -/

/-- What a page of data takes from the file. -/
theorem loadPage_eq_some {bytes : List UInt8} {dataEnd dataStart d' : ℕ}
    (h : loadPage bytes dataEnd k page dataStart = some (k', d')) :
    (dataStart < dataEnd → segmentSlice bytes dataStart dataEnd ≠ none) ∧
      d' = if dataStart < dataEnd then wrap (dataStart + pageSizeBytes) else dataStart := by
  unfold loadPage at h
  split at h
  · rename_i hlt
    obtain ⟨data, hdata, he⟩ := Option.map_eq_some_iff.mp h
    cases he
    refine ⟨fun _ hnone => ?_, by rw [if_pos hlt]⟩
    rw [hnone] at hdata
    cases hdata
  · rename_i hlt
    cases h
    exact ⟨fun hlt' => absurd hlt' hlt, by rw [if_neg hlt]⟩

theorem loadPage_eq_none {bytes : List UInt8} {dataEnd dataStart : ℕ}
    (h : loadPage bytes dataEnd k page dataStart = none) :
    ¬(dataStart < dataEnd → segmentSlice bytes dataStart dataEnd ≠ none) := by
  unfold loadPage at h
  split at h
  · rename_i hlt
    exact fun hslice => hslice hlt (Option.map_eq_none_iff.mp h)
  · cases h

theorem lt_of_memEnd (h : page < memEndPpn) : page < 2 ^ 44 := by
  rw [memEndPpn_eq] at h
  omega

/-- **The pages of a segment**, one round after the other. -/
theorem mapSegmentPages_fate (hrest : ∀ p ∈ img.pages, p ∈ rest) (himg : img.Intact k₀.mem)
    {bytes : List UInt8} {pteFlags dataEnd : ℕ} (vs : List ℕ) :
    ∀ {d k k' t t'} {area area' : VMArea} {dataStart : ℕ}, Drawn first rest img.root k₀ d k t →
      mapSegmentPages bytes pteFlags dataEnd vs k t area dataStart = (res, k', t', area') →
      Fate img first rest k₀
        (PagesSafe k₀.mem img.root bytes pteFlags dataEnd next vs dataStart d) next res k' t' := by
  induction vs with
  | nil =>
    intro d k k' t t' area area' dataStart hd h
    cases h
    exact .done hd Iff.rfl
  | cons v vs ih =>
    intro d k k' t t' area area' dataStart hd h
    rw [mapSegmentPages] at h
    split at h
    · rename_i hal
      cases h
      refine .failed hd.frame fun hpos => ?_
      rw [← hd.available, Phys.allocZeroedPage_eq_none.mp hal] at hpos
      exact absurd hpos (lt_irrefl 0)
    rename_i page k₁ hal
    have hpos : 0 < d.free := by
      have := Phys.available_of_alloc hal
      rw [← hd.available]
      omega
    obtain ⟨ka, hala, halloc, hmem⟩ := allocPage_of_zeroed hal
    split at h
    · rename_i hload
      cases h
      exact .panics fun hsafe => loadPage_eq_none hload (hsafe hpos).1
    rename_i k₂ dataStart' hload
    obtain ⟨halloc₂, hmem₂⟩ := loadPage_eq hload
    obtain ⟨hslice, rfl⟩ := loadPage_eq_some hload
    obtain ⟨hd₂, hpage⟩ := hd.take hala (halloc₂.trans halloc) fun p hp =>
      (hmem₂ p hp).trans (hmem p hp)
    have hppn := lt_of_memEnd hpage
    obtain ⟨⟨r, k₃, t₃⟩, hmap⟩ : ∃ r, mapCreate k₂ t v page pteFlags = r := ⟨_, rfl⟩
    rw [hmap] at h
    by_cases hflags : PTE.isValidFlags pteFlags = true
    swap
    · -- the first page with an illegal encoding is refused
      rw [mapCreate_illegal hflags] at hmap
      cases hmap
      cases h
      exact .failed hd₂.frame fun _ => ⟨hslice, fun hvalid => absurd hvalid hflags⟩
    by_cases hU : Unused k₀.mem img.root (parseVpn v).vpn2
    · have hiff := hd₂.mapCreate_ok_iff hU hppn hflags
      rw [hmap] at hiff
      cases r with
      | error e =>
        have hframe := hd₂.mapCreate_frame hU hppn hmap
        cases h
        refine .failed hframe fun _ => ⟨hslice, fun _ =>
          ⟨fun hused => absurd hU hused, fun _ hmaps => ?_⟩⟩
        cases hiff.mpr hmaps
      | ok u =>
        have hd₃ := hd₂.mapped hU hppn hmap
        refine (ih hd₃ h).congr ⟨fun hsafe _ => ⟨hslice, fun _ => ⟨fun hused => absurd hU hused,
          fun _ _ => hsafe⟩⟩, fun hsafe => ?_⟩
        exact ((hsafe hpos).2 hflags).2 hU (hiff.mp rfl)
    · by_cases hrefuses : Refuses k₀.mem img.root d.take.free v
      · obtain ⟨e, hrefused⟩ := hd₂.refused hrest himg hU hflags hrefuses
        rw [hrefused] at hmap
        cases hmap
        cases h
        exact .failed hd₂.frame fun _ => ⟨hslice, fun _ =>
          ⟨fun _ => hrefuses, fun hunused => absurd hunused hU⟩⟩
      · -- a table of the kernel has been written, and stays so
        have hs₃ := hd₂.spoils hrest himg hU hppn hflags hrefuses hmap
        have hunsafe : ¬PagesSafe k₀.mem img.root bytes pteFlags dataEnd next (v :: vs) dataStart d :=
          fun hsafe => hrefuses (((hsafe hpos).2 hflags).1 hU)
        cases r with
        | error e =>
          cases h
          exact .spoiled hs₃ hunsafe
        | ok u =>
          have hh₃ : Holding first rest k₃ t₃ := (Holding.mapCreate hd₂.accounted hmap).1
          exact .spoiled (hs₃.mono hrest (mapSegmentPages_upheld vs hh₃ h).keeps) hunsafe

/-- One segment. -/
theorem mapUserElfSegment_fate (hrest : ∀ p ∈ img.pages, p ∈ rest) (himg : img.Intact k₀.mem)
    {bytes : List UInt8} {ph : ProgramHeader} (hd : Drawn first rest img.root k₀ d k s.rootPgt)
    (h : mapUserElfSegment bytes k s ph = (res, k', s')) :
    Fate img first rest k₀ (SegmentSafe k₀.mem img.root bytes next ph d) next res k' s'.rootPgt := by
  unfold mapUserElfSegment at h
  dsimp only at h
  split at h
  · rename_i halign
    cases h
    exact .panics fun hsafe => hsafe.1 halign
  rename_i halign
  split at h
  · rename_i hdvd
    cases h
    exact .failed hd.frame ⟨halign, fun hdvd' => absurd hdvd' hdvd⟩
  rename_i hdvd
  have hdvd := not_not.mp hdvd
  split at h
  · rename_i harea
    cases h
    refine .panics fun hsafe => ?_
    obtain ⟨area, harea', -⟩ := hsafe.2 hdvd
    rw [harea] at harea'
    cases harea'
  rename_i area harea
  rw [toPteFlags_segment (createAreaFromPh_eq harea).2.2] at h
  dsimp only at h
  have hiff : PagesSafe k₀.mem img.root bytes (segmentFlags area)
      (wrap (ph.offset.toNat + ph.fileSize.toNat)) next area.vpns ph.offset.toNat d ↔
      SegmentSafe k₀.mem img.root bytes next ph d := by
    refine ⟨fun hsafe => ⟨halign, fun _ => ⟨area, harea, hsafe⟩⟩, fun hsafe => ?_⟩
    obtain ⟨area', harea', hpages⟩ := hsafe.2 hdvd
    rw [harea] at harea'
    cases harea'
    exact hpages
  split at h
  · rename_i hpages
    cases h
    exact (mapSegmentPages_fate hrest himg _ hd hpages).congr hiff
  · rename_i hpages
    cases h
    exact ((mapSegmentPages_fate hrest himg _ hd hpages).congr hiff).of_mem_eq
      (fun he => by cases he) (Phys.dropPages_mem _)
  · rename_i hpages
    cases h
    exact (mapSegmentPages_fate hrest himg _ hd hpages).congr hiff

/-- **All segments.** -/
theorem mapSegments_fate (hrest : ∀ p ∈ img.pages, p ∈ rest) (himg : img.Intact k₀.mem)
    {bytes : List UInt8} (phs : List ProgramHeader) :
    ∀ {d k k'} {s s' : VMSpace}, Drawn first rest img.root k₀ d k s.rootPgt →
      mapSegments bytes phs k s = (res, k', s') →
      Fate img first rest k₀ (SegmentsSafe k₀.mem img.root bytes next phs d) next res k'
        s'.rootPgt := by
  induction phs with
  | nil =>
    intro d k k' s s' hd h
    cases h
    exact .done hd Iff.rfl
  | cons ph phs ih =>
    intro d k k' s s' hd h
    cases htype : ph.type with
    | error msg =>
      rw [mapSegments, htype] at h
      rw [SegmentsSafe, htype]
      cases h
      exact .failed hd.frame trivial
    | ok type =>
      cases type with
      | other =>
        rw [mapSegments, htype] at h
        rw [SegmentsSafe, htype]
        exact ih hd h
      | load =>
        rw [mapSegments, htype] at h
        rw [SegmentsSafe, htype]
        dsimp only at h ⊢
        obtain ⟨⟨r, k₁, s₁⟩, hseg⟩ : ∃ r, mapUserElfSegment bytes k s ph = r := ⟨_, rfl⟩
        have hfate : Fate img first rest k₀ (SegmentSafe k₀.mem img.root bytes
            (fun d => SegmentsSafe k₀.mem img.root bytes next phs d) ph d)
            (fun d => SegmentsSafe k₀.mem img.root bytes next phs d) r k₁ s₁.rootPgt :=
          mapUserElfSegment_fate hrest himg hd hseg
        have hu := mapUserElfSegment_upheld hd.accounted hseg
        rw [hseg] at h
        cases r with
        | ok u =>
          exact hfate.bind hrest (fun d hd => ih hd h)
            (mapSegments_upheld phs (hu.holding rfl) h).keeps
        | err e =>
          cases h
          exact hfate.stop fun he => by cases he
        | panic site =>
          cases h
          exact hfate.stop fun he => by cases he

/-- The last page of the user stack lies below a root slot that the kernel does not use. -/
theorem stack_unused (himg : img.Intact k.mem) : Unused k.mem img.root stackVpn.vpn2 := by
  have hu : UserHalf stackVpn.vpn2 := vpn2_lt (lt_of_lt_userEnd (show userEndVpn - 1 < _ by decide))
  rw [Unused, (himg img.root img.root_mem _).isValid_eq, img.user_empty _ hu]
  rfl

/-- The user stack, then the kernel stack. -/
theorem addStacks_fate (himg : img.Intact k₀.mem) {areas : List VMArea}
    (hd : Drawn first rest img.root k₀ d k s.rootPgt)
    (h : addUserStackArea k s = (res, k', s')) :
    Fate img first rest k₀ (StacksSafe areas d) (fun d => 0 < d.free → SegmentsPlaced areas) res k'
      s'.rootPgt := by
  have hU := stack_unused himg
  have hflags : PTE.isValidFlags 23 = true := by decide
  rw [addUserStackArea_eq] at h
  split at h
  · rename_i hal
    cases h
    refine .failed hd.frame fun hpos => ?_
    rw [← hd.available, Phys.allocZeroedPage_eq_none.mp hal] at hpos
    exact absurd hpos (lt_irrefl 0)
  rename_i page k₁ hal
  have hpos : 0 < d.free := by
    have := Phys.available_of_alloc hal
    rw [← hd.available]
    omega
  obtain ⟨ka, hala, halloc, hmem⟩ := allocPage_of_zeroed hal
  obtain ⟨hd₁, hpage⟩ := hd.take hala halloc hmem
  have hppn := lt_of_memEnd hpage
  have hiff := hd₁.mapCreate_ok_iff hU hppn hflags
  split at h
  · rename_i hmap
    rw [hmap] at hiff
    have hframe := hd₁.mapCreate_frame hU hppn hmap
    cases h
    refine .failed hframe fun _ hmaps => ?_
    cases hiff.mpr hmaps
  · rename_i hmap
    rw [hmap] at hiff
    have hd₂ := hd₁.mapped hU hppn hmap
    cases h
    exact .done hd₂ ⟨fun hsafe => hsafe hpos (hiff.mp rfl), fun hsafe _ _ => hsafe⟩

theorem addKernelStackArea_fate {P : Prop} (hd : Drawn first rest img.root k₀ d k s.rootPgt)
    (h : addKernelStackArea k s = (res, k', s')) :
    Fate img first rest k₀ (0 < d.free → P) (fun _ => P) res k' s'.rootPgt := by
  unfold addKernelStackArea at h
  split at h
  · rename_i hal
    cases h
    refine .failed hd.frame fun hpos => ?_
    have hnone : k.allocZeroedPage = none := by rw [Phys.allocZeroedPage, hal]; rfl
    rw [← hd.available, Phys.allocZeroedPage_eq_none.mp hnone] at hpos
    exact absurd hpos (lt_irrefl 0)
  · rename_i page k₁ hal
    have hpos : 0 < d.free := by
      have := available_of_allocPage hal
      rw [← hd.available]
      omega
    obtain ⟨held, hacc⟩ := hd.accounted
    obtain ⟨hd₁, hpage⟩ := hd.take hal rfl fun p _ => by
      rw [(Phys.allocPage_spec hacc hal).2.2]
    rw [pushKernelStack_eq hpage] at h
    cases h
    exact .done hd₁ ⟨fun hsafe => hsafe hpos, fun hsafe _ => hsafe⟩

/-- The stages after the copy of the root. -/
theorem fillUser_fate (hrest : ∀ p ∈ img.pages, p ∈ rest) (himg : img.Intact k₀.mem) {elf : Elf}
    {file : ElfFile} (hparsed : elf.parsed = .ok file)
    (hd : Drawn first rest img.root k₀ d k s.rootPgt) (h : fillUser k s elf = (res, k', s')) :
    Fate img first rest k₀
      (SegmentsSafe k₀.mem img.root elf.bytes (StacksSafe (loadAreas file.headers)) file.headers d)
      (fun _ => SegmentsPlaced (loadAreas file.headers)) res k' s'.rootPgt := by
  unfold fillUser mapUserElf at h
  rw [hparsed] at h
  dsimp only at h
  obtain ⟨⟨r, k₁, s₁⟩, hsegs⟩ : ∃ r, mapSegments elf.bytes file.headers k s = r := ⟨_, rfl⟩
  have hfate : Fate img first rest k₀
      (SegmentsSafe k₀.mem img.root elf.bytes (StacksSafe (loadAreas file.headers)) file.headers d)
      (StacksSafe (loadAreas file.headers)) r k₁ s₁.rootPgt := mapSegments_fate hrest himg _ hd hsegs
  have hu := mapSegments_upheld _ hd.accounted hsegs
  rw [hsegs] at h
  cases r with
  | err e =>
    cases h
    exact hfate.stop fun he => by cases he
  | panic site =>
    cases h
    exact hfate.stop fun he => by cases he
  | ok u =>
    dsimp only at h
    obtain ⟨⟨r, k₂, s₂⟩, hstack⟩ :
        ∃ r, addUserStackArea k₁ { s₁ with entryAddr := file.entryPoint.toNat } = r := ⟨_, rfl⟩
    have hu₂ : Upheld first rest k₁ r k₂ s₂.rootPgt :=
      addUserStackArea_upheld (s := { s₁ with entryAddr := file.entryPoint.toNat })
        (hu.holding rfl) hstack
    have hfate₂ := hfate.bind hrest (fun d hd => addStacks_fate
      (s := { s₁ with entryAddr := file.entryPoint.toNat }) himg hd hstack) hu₂.keeps
    rw [hstack] at h
    cases r with
    | err e =>
      cases h
      exact hfate₂.stop fun he => by cases he
    | panic site =>
      cases h
      exact hfate₂.stop fun he => by cases he
    | ok u =>
      refine hfate₂.bind hrest (fun d hd => addKernelStackArea_fate hd h) ?_
      exact KeepsValid.of_mem_eq fun p _ => by rw [addKernelStackArea_mem h]

/-! ### `new_user` -/

/-- The areas of a new space are in order: none is empty, no two overlap, and those of the file lie
in user space and outside the user stack. -/
structure Laid (elf : Elf) (s : VMSpace) : Prop where
  nonempty : ∀ a ∈ s.areas, a.startVpn < a.endVpn
  disjoint : s.areas.Pairwise VMArea.Apart
  segments : ∃ file segments pageU pageK, elf.parsed = .ok file ∧
    segments.map VMArea.bare = loadAreas file.headers ∧
    s.areas = segments ++ [userStack pageU] ++ [kernelStack pageK] ∧
    ∀ a ∈ segments, a.endVpn ≤ userEndVpn ∧ VMArea.Apart a userStackArea

/-- What a caller of `new_user` relies on: it returns, a space that it returns is in order, and the
pages of the kernel are as they were. -/
def Contract (img : KernelImage) (elf : Elf) (k : Phys) (r : Outcome VMError VMSpace × Phys) :
    Prop :=
  (∀ p ∈ img.pages, r.2.mem p = k.mem p) ∧
    match r.1 with
    | .ok s => Laid elf s
    | .err _ => True
    | .panic _ => False

/-- Areas below the end of user space are tame, whatever is covered. -/
theorem tameSegments_of_placed {phs : List ProgramHeader} (h : SegmentsPlaced (loadAreas phs)) :
    ∀ cov, TameSegments cov phs := by
  induction phs with
  | nil => exact fun _ => trivial
  | cons ph phs ih =>
    intro cov
    unfold TameSegments
    split
    · trivial
    · rename_i htype
      refine ih ?_ cov
      simpa only [loadAreas, List.filterMap_cons, htype] using h
    · rename_i htype
      intro area _ harea
      have hcons : loadAreas (ph :: phs) = area :: loadAreas phs := by
        simp only [loadAreas, List.filterMap_cons, htype, harea]
      rw [hcons] at h
      refine ⟨tame_of_forall fun v hv => ?_,
        fun _ => ih (fun a ha => h a (List.mem_cons_of_mem _ ha)) _⟩
      have hlt := (VMArea.containVpn_iff.mp (VMArea.mem_vpns.mp hv)).2
      exact lt_of_lt_of_le hlt (h area (List.mem_cons_self ..)).2.1

/-- The segments of a space in order are placed. -/
theorem Laid.placed {elf : Elf} {file : ElfFile} (h : Laid elf s) (hparsed : elf.parsed = .ok file) :
    SegmentsPlaced (loadAreas file.headers) := by
  obtain ⟨file', segments, pageU, pageK, hparsed', hbare, hareas, hsegs⟩ := h.segments
  rw [hparsed] at hparsed'
  cases hparsed'
  rw [← hbare]
  intro b hb
  obtain ⟨a, ha, rfl⟩ := List.mem_map.mp hb
  exact ⟨h.nonempty a (by simp [hareas, ha]), hsegs a ha⟩

/-- A space whose segments are placed is in order. -/
theorem SegmentsPlaced.laid (hrest : ∀ p ∈ img.pages, p ∈ rest) (hacc : k.Accounted first rest)
    (himg : img.Intact k.mem) {elf : Elf} {file : ElfFile} (hparsed : elf.parsed = .ok file)
    (h : SegmentsPlaced (loadAreas file.headers)) (hnew : newUser k img.root elf = (.ok s, k')) :
    Laid elf s := by
  have htame : TameElf elf := by
    intro file' hparsed'
    rw [hparsed] at hparsed'
    cases hparsed'
    exact tameSegments_of_placed h _
  have hstack : ∀ file, elf.parsed = .ok file → StackFree (loadAreas file.headers) := by
    intro file' hparsed' _ a ha
    rw [hparsed] at hparsed'
    cases hparsed'
    exact (h a ha).2.2
  have hspec := newUser_spec hrest hacc himg htame hstack
  rw [hnew] at hspec
  obtain ⟨hl, ⟨file', segments, hparsed', hbare, -, pageU, pageK, hareas, -⟩, -⟩ := hspec
  rw [hparsed] at hparsed'
  cases hparsed'
  have hsegs : ∀ a ∈ segments, a.startVpn < a.endVpn ∧ a.endVpn ≤ userEndVpn ∧
      VMArea.Apart a userStackArea := fun a ha =>
    h a.bare (hbare ▸ List.mem_map_of_mem ha)
  refine ⟨fun a ha => ?_, hl.ok.agrees.disjoint, file, segments, pageU, pageK, hparsed, hbare,
    hareas, fun a ha => (hsegs a ha).2⟩
  rw [hareas] at ha
  simp only [List.mem_append, List.mem_singleton] at ha
  rcases ha with (ha | rfl) | rfl
  · exact (hsegs a ha).1
  · exact show userEndVpn - 2048 < userEndVpn by decide
  · exact Nat.lt_succ_self _

/-- **Exactly safe headers: `new_user` returns, a space in order or an error, and leaves the kernel's
tables alone.** -/
theorem newUser_contract (hrest : ∀ p ∈ img.pages, p ∈ rest) (hacc : k.Accounted first rest)
    (himg : img.Intact k.mem) (elf : Elf) :
    Contract img elf k (newUser k img.root elf) ↔ HeadersSafe k img.root elf := by
  obtain ⟨⟨result, k'⟩, hnew⟩ : ∃ r, newUser k img.root elf = r := ⟨_, rfl⟩
  rw [hnew]
  unfold newUser at hnew
  split at hnew
  · -- no page for the root
    rename_i e k₁ hcopy
    cases hnew
    rw [newCopy_error hcopy]
    refine iff_of_true ⟨fun _ _ => rfl, trivial⟩ fun hpos => ?_
    obtain ⟨page, k₁, hal, -⟩ := Phys.allocZeroedPage_of_available hpos
    obtain ⟨ka, hala, -⟩ := allocPage_of_zeroed hal
    rw [RootPgt.newCopy, hala] at hcopy
    cases hcopy
  rename_i t k₁ hcopy
  have hd : Drawn first rest img.root k ⟨k.available - 1, []⟩ k₁ t := Drawn.newCopy hacc hcopy
  have hpos : 0 < k.available := by
    obtain ⟨page, ka, hal, -⟩ := newCopy_ok hcopy
    have := available_of_allocPage hal
    omega
  cases hparsed : elf.parsed with
  | error msg =>
    have hfill : fillUser k₁ ⟨t, [], 0, 0, 0⟩ elf = (.err (.elfError msg), k₁, ⟨t, [], 0, 0, 0⟩) := by
      rw [fillUser, mapUserElf, hparsed]
    rw [hfill] at hnew
    cases hnew
    refine iff_of_true ⟨fun p hp => ?_, trivial⟩ fun _ file hfile => ?_
    · rw [VMSpace.drop, Phys.dropPages_mem]
      exact hd.frame p (hrest p hp)
    · rw [hparsed] at hfile
      cases hfile
  | ok file =>
    have hsafe : HeadersSafe k img.root elf ↔ SegmentsSafe k.mem img.root elf.bytes
        (StacksSafe (loadAreas file.headers)) file.headers ⟨k.available - 1, []⟩ := by
      refine ⟨fun h => h hpos file hparsed, fun h _ file' hparsed' => ?_⟩
      rw [hparsed] at hparsed'
      cases hparsed'
      exact h
    rw [hsafe]
    obtain ⟨⟨res, k₂, s₂⟩, hfill⟩ : ∃ r, fillUser k₁ ⟨t, [], 0, 0, 0⟩ elf = r := ⟨_, rfl⟩
    have hfate := fillUser_fate hrest himg hparsed hd hfill
    have hok : ∀ s, result = .ok s → newUser k img.root elf = (.ok s, k') := by
      rintro s rfl
      rw [newUser, hcopy]
      exact hnew
    rw [hfill] at hnew
    cases hfate with
    | done hd₂ hiff =>
      cases hnew
      rw [hiff]
      refine ⟨fun h => h.2.placed hparsed, fun h => ⟨fun p hp => hd₂.frame p (hrest p hp), ?_⟩⟩
      exact h.laid hrest hacc himg hparsed (hok _ rfl)
    | failed hframe h =>
      cases hnew
      refine iff_of_true ⟨fun p hp => ?_, trivial⟩ h
      rw [VMSpace.drop, Phys.dropPages_mem]
      exact hframe p (hrest p hp)
    | panics h =>
      cases hnew
      exact iff_of_false (fun hc => hc.2) h
    | spoiled hs h =>
      refine iff_of_false (fun hc => hs.ne fun p hp => ?_) h
      rw [← hc.1 p hp]
      cases res with
      | ok u =>
        cases hnew
        rfl
      | err e =>
        cases hnew
        rw [VMSpace.drop, Phys.dropPages_mem]
      | panic site =>
        cases hnew
        rfl

/-- One page of code, with four bytes of it in the file. -/
def codeElf : Elf :=
  ⟨[0x73, 0, 0, 0], .ok ⟨[⟨.ok .load, 5, 0, 0x10000, 4, 4096, 4096⟩], 0x10000⟩⟩

theorem codeElf_safe : HeadersSafe samplePhys sampleImage.root codeElf := by
  intro _ file hfile
  cases hfile
  have hstart : VPN.fromVa 0x10000 = some 16 := by decide
  have hend : VPN.fromVa (endOfRange 0x10000 4096) = some 17 := by decide
  have harea : createAreaFromPh ⟨.ok .load, 5, 0, 0x10000, 4, 4096, 4096⟩ =
      some (.new 16 17 .anonymous (permissionU ||| permissionR ||| permissionX)) := by
    show (VPN.fromVa 0x10000).bind _ = _
    rw [hstart, Option.bind_some]
    show (VPN.fromVa (endOfRange 0x10000 4096)).map _ = _
    rw [hend]
    rfl
  refine ⟨by decide, fun _ => ⟨_, harea, fun _ => ⟨fun _ => ?_, fun _ => ⟨fun hused => ?_, ?_⟩⟩⟩⟩
  · show segmentSlice [0x73, 0, 0, 0] 0 4 ≠ none
    decide
  · refine absurd ?_ hused
    show PTE.isValid (sampleMem 0 (parseVpn 16).vpn2) = false
    decide
  · intro _ _ _ _ _ a ha
    have hareas : loadAreas [⟨.ok .load, 5, 0, 0x10000, 4, 4096, 4096⟩] =
        [.new 16 17 .anonymous (permissionU ||| permissionR ||| permissionX)] := by
      simp only [loadAreas, List.filterMap_cons, List.filterMap_nil, harea]
    rw [hareas] at ha
    obtain rfl := List.mem_singleton.mp ha
    refine ⟨show 16 < 17 by decide, show 17 ≤ userEndVpn by decide,
      VMArea.apart_of_le (Or.inl ?_)⟩
    show 17 ≤ userEndVpn - 2048
    decide

theorem newUser_contract_code :
    Contract sampleImage codeElf samplePhys (newUser samplePhys sampleImage.root codeElf) :=
  (newUser_contract (by decide : ∀ p ∈ sampleImage.pages, p ∈ [3, 0, 1, 2]) sample_accounted
    (fun _ _ _ => PTE.SameButAD.refl _) codeElf).mpr codeElf_safe

/-- A header without an alignment. -/
def unalignedElf : Elf := ⟨[], .ok ⟨[⟨.ok .load, 5, 0, 0x10000, 0, 4096, 0⟩], 0x10000⟩⟩

/-- The remainder by the alignment fails. -/
theorem unaligned_panics : ¬∀ (img : KernelImage) (first : ℕ) (rest : List ℕ) (k : Phys) (elf : Elf),
    (∀ p ∈ img.pages, p ∈ rest) → k.Accounted first rest → img.Intact k.mem →
      Contract img elf k (newUser k img.root elf) := by
  intro hclaim
  have h := hclaim sampleImage 0 [3, 0, 1, 2] samplePhys unalignedElf (by decide) sample_accounted
    fun _ _ _ => PTE.SameButAD.refl _
  have hres : (newUser samplePhys sampleImage.root unalignedElf).1 = .panic .remainderByZero := rfl
  have := h.2
  rw [hres] at this
  exact this

end VMSpace

end RCoreKernel.Mm
