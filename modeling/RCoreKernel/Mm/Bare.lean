import RCoreKernel.Mm.Fault
import RCoreKernel.Mm.Accounting

/-!
# A file without program headers

The smallest address space that `new_user` builds has a user stack and a kernel stack.  It takes at
most five pages: the root table, a page for each stack and two tables.

* `newUser_bare` — with five pages it is built, from any state in order.
-/

namespace RCoreKernel.Mm

open Radix

namespace RootPgt

theorem available_of_descend {k k' : Phys} {t t' : RootPgt} {vpn ppn table idx : ℕ}
    {res : Except PgtError ℕ} (h : descend k t vpn ppn table idx = (res, k', t')) :
    k.available ≤ k'.available + 1 := by
  unfold descend at h
  dsimp only at h
  split at h
  · split at h <;> cases h <;> omega
  · split at h
    · cases h
      omega
    rename_i page k₁ hal
    have hav := Phys.available_of_alloc hal
    split at h
    · cases h
      unfold Phys.dropPage PageAllocator.dealloc Phys.available at *
      simp only [List.length_append] at *
      omega
    · split at h <;> cases h <;> exact hav.ge

theorem available_of_mapCreate {k k' : Phys} {t t' : RootPgt} {vpn ppn pteFlags : ℕ}
    (h : mapCreate k t vpn ppn pteFlags = (.ok (), k', t')) :
    k.available ≤ k'.available + 2 := by
  unfold mapCreate at h
  dsimp only at h
  split at h
  · cases h
  split at h
  · cases h
  rename_i h₁
  split at h
  · cases h
  rename_i h₂
  have hav₁ := available_of_descend h₁
  have hav₂ := available_of_descend h₂
  split at h
  · cases h
  · cases h
    exact hav₁.trans (Nat.add_le_add_right hav₂ 1)

end RootPgt

/-- A file without program headers. -/
def bareElf : Elf := ⟨[], .ok ⟨[], 0⟩⟩

namespace VMSpace

variable {img : KernelImage} {first : ℕ} {rest : List ℕ} {k : Phys}

/-- **Five pages are enough for a task without segments.** -/
theorem newUser_bare (hrest : ∀ p ∈ img.pages, p ∈ rest) (hacc : k.Accounted first rest)
    (himg : img.Intact k.mem) (hroom : 5 ≤ k.available) :
    ∃ s k', newUser k img.root bareElf = (.ok s, k') ∧ k.available ≤ k'.available + 5 := by
  have hpage : ∀ {k : Phys}, 0 < k.available →
      ∃ page k', k.allocPage = some (page, k') ∧ k'.available + 1 = k.available := by
    intro k hpos
    obtain ⟨_, _, hal, hav⟩ := Phys.allocZeroedPage_of_available hpos
    obtain ⟨⟨page, k₁⟩, hal₁, he⟩ := Option.map_eq_some_iff.mp hal
    cases he
    exact ⟨page, k₁, hal₁, hav⟩
  obtain ⟨root, k₁, hal₁, hav₁⟩ := hpage (show 0 < k.available by omega)
  have hcopy : RootPgt.newCopy k img.root =
      (.ok ⟨root, [root]⟩, { k₁ with mem := Radix.copy k₁.mem img.root root }) := by
    rw [RootPgt.newCopy, hal₁]
  have hl := Loaded.newCopy hrest hacc himg hcopy 0 0 0
  obtain ⟨k₂, hk₂⟩ : ∃ k₂ : Phys, { k₁ with mem := Radix.copy k₁.mem img.root root } = k₂ := ⟨_, rfl⟩
  have hav₂ : k₂.available = k₁.available := by rw [← hk₂]; rfl
  rw [hk₂] at hcopy hl
  obtain ⟨page, k₃, hal₃, hav₃⟩ := Phys.allocZeroedPage_of_available
    (show 0 < k₂.available by omega)
  obtain ⟨hacc₃, -, hmem₃⟩ := Phys.allocZeroedPage_spec hl.accounted hal₃
  obtain ⟨hok₃, -, hperm₃⟩ := hl.ok.fresh hrest hacc₃ fun p hp => by
    funext j
    simp [hmem₃, hp]
  have hv : userEndVpn - 1 < userEndVpn := by decide
  have hinv : PTE.isValid (RootPgt.pteAt k₃.mem root (userEndVpn - 1)) = false := by
    rw [← Bool.not_eq_true, hok₃.agrees.valid_iff _ hv]
    rintro ⟨_, a, ha, -⟩
    exact List.not_mem_nil ha
  have hmissing : RootPgt.missingTables k₃.mem root (userEndVpn - 1) ≤ 2 := by
    unfold RootPgt.missingTables
    split
    · exact Nat.le_refl 2
    · split <;> omega
  have hok : (RootPgt.mapCreate k₃ ⟨root, [root]⟩ (userEndVpn - 1) page 23).1 = .ok () :=
    (RootPgt.mapCreate_ok_iff hperm₃ hok₃.tables (vpn2_lt (lt_of_lt_userEnd hv)) hok₃.noLarge
      hinv).mpr ⟨by decide, hmissing.trans (by omega)⟩
  obtain ⟨⟨⟨⟩⟩, k₄, t₄, hmap⟩ : ∃ r k₄ t₄,
      RootPgt.mapCreate k₃ ⟨root, [root]⟩ (userEndVpn - 1) page 23 = (.ok r, k₄, t₄) :=
    ⟨(), _, _, Prod.ext hok rfl⟩
  have hav₄ := RootPgt.available_of_mapCreate hmap
  obtain ⟨pageK, k₅, hal₅, hav₅⟩ := hpage (show 0 < k₄.available by omega)
  have hacc₅ : pageK < memEndPpn := by
    have hacc₄ := RootPgt.mapCreate_accounted hperm₃ hmap
    exact (Phys.allocPage_spec hacc₄ hal₅).1.lt_memEnd (List.mem_cons_self ..)
  have hflags : toPteFlags (permissionR ||| permissionW ||| permissionU) = .ok 23 := by decide
  have hvpn : VPN.fromVa (userSpaceEnd - pageSizeBytes) = some (userEndVpn - 1) := by decide
  have hend : VPN.fromVa userSpaceEnd = some userEndVpn := by decide
  have hstart : VPN.fromVa (userSpaceEnd - userStackMaxSizeBytes) = some (userEndVpn - 2048) := by
    decide
  unfold newUser
  simp only [hcopy, fillUser, mapUserElf, bareElf, mapSegments, addUserStackArea, hflags, hal₃, hvpn,
    hend, hstart]
  simp only [hmap, addKernelStackArea, hal₅, pushKernelStack_eq hacc₅]
  refine ⟨_, _, rfl, ?_⟩
  show k.available ≤ k₅.available + 5
  omega

end VMSpace

end RCoreKernel.Mm
