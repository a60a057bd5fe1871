import RCoreKernel.Mm.Loader

/-!
# Page accounting of `new_user` for arbitrary files

`Mm.Loader` shows what a space built from a well-placed file looks like.  Which pages belong to
the space does not depend on where the segments lie or on what the tables contain: whatever the
file, a page that `new_user` took from the allocator is in the new space or has been given back.

* `newUser_accounted` — **a new space owns its pages alone, one of them the kernel stack**.
-/

namespace RCoreKernel.Mm

open Radix RootPgt

variable {first : ℕ} {rest held : List ℕ} {k k' : Phys} {t t' : RootPgt} {s s' : VMSpace}

namespace VMSpace

theorem loadPage_alloc {bytes : List UInt8} {dataEnd page dataStart d : ℕ}
    (h : loadPage bytes dataEnd k page dataStart = some (k', d)) : k'.alloc = k.alloc := by
  unfold loadPage at h
  split at h
  · obtain ⟨data, -, he⟩ := Option.map_eq_some_iff.mp h
    cases he
    rfl
  · cases h
    rfl

/-- The pages in hand while a segment is loaded: those of its area, of the tables, and of others. -/
theorem mapSegmentPages_accounted {bytes : List UInt8} {pteFlags dataEnd : ℕ} {vs : List ℕ}
    {area area' : VMArea} {dataStart : ℕ}
    (hacc : k.Accounted first (t.pages ++ (area.pages.values ++ rest))) (hnd : vs.Nodup)
    (hnew : ∀ v ∈ vs, area.pages.get? v = none)
    (h : mapSegmentPages bytes pteFlags dataEnd vs k t area dataStart = (.ok (), k', t', area')) :
    k'.Accounted first (t'.pages ++ (area'.pages.values ++ rest)) := by
  induction vs generalizing k t area dataStart with
  | nil =>
    cases h
    exact hacc
  | cons v vs ih =>
    rw [mapSegmentPages] at h
    split at h
    · cases h
    rename_i page k₁ hal
    obtain ⟨hacc₁, -, -⟩ := Phys.allocZeroedPage_spec hacc hal
    split at h
    · cases h
    rename_i k₂ d hload
    have hacc₂ := hacc₁.of_alloc_eq (loadPage_alloc hload)
    split at h
    · cases h
    rename_i k₃ t₃ hmap
    -- the page in hand waits among the pages of others
    have hacc₂' : k₂.Accounted first (t.pages ++ (page :: (area.pages.values ++ rest))) :=
      hacc₂.congr List.perm_middle.symm
    have hacc₃ := mapCreate_accounted hacc₂' hmap
    obtain ⟨hv, hnd'⟩ := List.nodup_cons.mp hnd
    have hget : area.pages.get? v = none := hnew v (List.mem_cons_self ..)
    have hvals : ((area.pages.insert v page).values).Perm (page :: area.pages.values) := by
      have hperm := BTreeMap.insert_values_perm (m := area.pages) (k := v) (v := page)
      rwa [BTreeMap.remove_of_get?_none hget] at hperm
    refine ih ?_ hnd' (fun w hw => ?_) h
    · refine hacc₃.congr (List.Perm.append_left _ ?_)
      exact (hvals.symm.append_right rest)
    · have hne : w ≠ v := fun e => hv (e ▸ hw)
      refine BTreeMap.get?_eq_none.mpr fun p hp => ?_
      rcases BTreeMap.mem_insert.mp hp with ⟨he, -⟩ | ⟨-, hp⟩
      · exact hne he
      · exact BTreeMap.get?_eq_none.mp (hnew w (List.mem_cons_of_mem _ hw)) p hp

theorem pages_snoc (s : VMSpace) (t : RootPgt) (area : VMArea) (e u ks : ℕ) (held : List ℕ) :
    ((⟨t, s.areas ++ [area], e, u, ks⟩ : VMSpace).pages ++ held).Perm
      (t.pages ++ (area.pages.values ++ ((s.areas.flatMap fun a => a.pages.values) ++ held))) := by
  simp only [VMSpace.pages, List.flatMap_append, List.flatMap_cons, List.flatMap_nil,
    List.append_nil, List.append_assoc]
  exact List.Perm.append_left _ (List.perm_append_comm_assoc _ _ _)

theorem mapUserElfSegment_accounted {bytes : List UInt8} {ph : ProgramHeader}
    (hacc : k.Accounted first (s.pages ++ rest))
    (h : mapUserElfSegment bytes k s ph = (.ok (), k', s')) :
    k'.Accounted first (s'.pages ++ rest) := by
  unfold mapUserElfSegment at h
  dsimp only at h
  split at h
  · cases h
  split at h
  · cases h
  split at h
  · cases h
  rename_i area harea
  split at h
  · cases h
  split at h
  · rename_i k₁ t₁ area₁ hpages
    cases h
    have hempty : area.pages = BTreeMap.new := by
      rw [(createAreaFromPh_eq harea).1]
    have hacc' : k.Accounted first (s.rootPgt.pages ++
        (area.pages.values ++ ((s.areas.flatMap fun a => a.pages.values) ++ rest))) := by
      rw [hempty]
      simpa [VMSpace.pages] using hacc
    have hdone := mapSegmentPages_accounted hacc' (List.nodup_range' 1 (by decide)) (fun v _ => by
      rw [hempty]
      rfl) hpages
    exact hdone.congr (pages_snoc s t₁ area₁ _ _ _ rest).symm
  · cases h
  · cases h

theorem mapSegments_accounted {bytes : List UInt8} {phs : List ProgramHeader}
    (hacc : k.Accounted first (s.pages ++ rest)) (h : mapSegments bytes phs k s = (.ok (), k', s')) :
    k'.Accounted first (s'.pages ++ rest) := by
  induction phs generalizing k s with
  | nil =>
    cases h
    exact hacc
  | cons ph phs ih =>
    rw [mapSegments] at h
    split at h
    · cases h
    · exact ih hacc h
    · split at h
      · rename_i hseg
        exact ih (mapUserElfSegment_accounted hacc hseg) h
      · rename_i hne
        exact absurd h fun he => hne _ _ he

theorem mapUserElf_accounted {elf : Elf} (hacc : k.Accounted first (s.pages ++ rest))
    (h : mapUserElf k s elf = (.ok (), k', s')) : k'.Accounted first (s'.pages ++ rest) := by
  unfold mapUserElf at h
  split at h
  · cases h
  split at h
  · rename_i hseg
    cases h
    have hdone := mapSegments_accounted hacc hseg
    exact hdone
  · rename_i hne
    exact absurd h fun he => hne _ _ he

theorem addUserStackArea_accounted (hacc : k.Accounted first (s.pages ++ rest))
    (h : addUserStackArea k s = (.ok (), k', s')) : k'.Accounted first (s'.pages ++ rest) := by
  unfold addUserStackArea at h
  dsimp only at h
  split at h
  · cases h
  split at h
  · cases h
  rename_i page k₁ hal
  obtain ⟨hacc₁, -, -⟩ := Phys.allocZeroedPage_spec hacc hal
  split at h
  · split at h
    · cases h
    rename_i k₂ t₂ hmap
    cases h
    have hacc₁' : k₁.Accounted first (s.rootPgt.pages ++
        (page :: ((s.areas.flatMap fun a => a.pages.values) ++ rest))) := by
      refine hacc₁.congr ?_
      simp only [VMSpace.pages, List.append_assoc]
      exact List.perm_middle.symm
    have hvals : ∀ vpn : ℕ, (BTreeMap.new.insert vpn page).values = [page] := fun _ => rfl
    refine (mapCreate_accounted hacc₁' hmap).congr (List.Perm.trans ?_ (pages_snoc s _ _ _ _ _ rest).symm)
    dsimp only [VMArea.new]
    rw [hvals]
    exact List.Perm.refl _
  · cases h

theorem addKernelStackArea_accounted (hacc : k.Accounted first (s.pages ++ rest))
    (h : addKernelStackArea k s = (.ok (), k', s')) :
    k'.Accounted first (s'.pages ++ rest) ∧
      ∃ page ∈ s'.pages, s'.kStackEnd = (page + 1) * 4096 + kernelVaOffset := by
  unfold addKernelStackArea at h
  split at h
  · cases h
  rename_i page k₁ hal
  obtain ⟨hacc₁, -, -⟩ := Phys.allocPage_spec hacc hal
  have hlt : page < memEndPpn := hacc₁.lt_memEnd (List.mem_cons_self ..)
  rw [pushKernelStack_eq hlt] at h
  cases h
  have hvals : (kernelStack page).pages.values = [page] := rfl
  refine ⟨hacc₁.congr (List.Perm.trans ?_ (pages_snoc s _ _ _ _ _ rest).symm), page, ?_, rfl⟩
  · rw [hvals, VMSpace.pages, List.append_assoc]
    exact List.perm_middle.symm
  · simp [VMSpace.pages, hvals]

/-- **A new space owns its pages alone**, whatever the file; one of them is the kernel stack. -/
theorem newUser_accounted {kernelRoot : ℕ} {elf : Elf} (hacc : k.Accounted first rest)
    (h : newUser k kernelRoot elf = (.ok s, k')) :
    k'.Accounted first (s.pages ++ rest) ∧
      ∃ page ∈ s.pages, s.kStackEnd = (page + 1) * 4096 + kernelVaOffset := by
  unfold newUser at h
  split at h
  · cases h
  rename_i t k₁ hcopy
  have hacc₁ : k₁.Accounted first ((⟨t, [], 0, 0, 0⟩ : VMSpace).pages ++ rest) := by
    obtain ⟨page, k₁, hal, rfl, rfl⟩ := newCopy_ok hcopy
    exact (Phys.allocPage_spec hacc hal).1.of_alloc_eq rfl
  split at h
  · rename_i k₂ s₂ hfill
    cases h
    unfold fillUser at hfill
    split at hfill
    · rename_i k₃ s₃ helf
      have hacc₃ := mapUserElf_accounted hacc₁ helf
      split at hfill
      · rename_i k₄ s₄ hstack
        exact addKernelStackArea_accounted (addUserStackArea_accounted hacc₃ hstack) hfill
      · rename_i hne
        exact absurd hfill fun he => hne _ _ he
    · rename_i hne
      exact absurd hfill fun he => hne _ _ he
  · cases h
  · cases h

end VMSpace

end RCoreKernel.Mm
