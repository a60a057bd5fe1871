import RCoreKernel.Mm.UserTables
import RCoreKernel.Mm.View

/-!
# The kernel half of a space

The hardware may have set accessed and dirty bits in the kernel's tables; apart from these, every
space translates kernel addresses as the kernel root does.

* `translate_rel` — walks over entries that differ in accessed and dirty bits only;
* `kernel_half` — **the kernel half of a space is that of the kernel root**.
-/

namespace RCoreKernel.Mm

open Radix RootPgt VMSpace

namespace PTE.SameButAD

variable {w w' : ℕ}

theorem kind_eq (h : PTE.SameButAD w w') : PTE.kind w = PTE.kind w' := by
  have h64 := h.2
  have h1 : w % 2 = w' % 2 := by omega
  have h2 : w / 2 % 2 = w' / 2 % 2 := by omega
  have h4 : w / 4 % 2 = w' / 4 % 2 := by omega
  have h8 : w / 8 % 2 = w' / 8 % 2 := by omega
  rw [PTE.kind_eq, PTE.kind_eq, h1, h2, h4, h8]

theorem hwChild_eq (h : PTE.SameButAD w w') : PTE.hwChild w = PTE.hwChild w' := by
  rw [PTE.hwChild, PTE.hwChild, h.kind_eq, h.getPpn_eq]

theorem mod (h : PTE.SameButAD w w') : PTE.SameButAD (w % 1024) (w' % 1024) := by
  obtain ⟨h256, h64⟩ := h
  constructor
  · omega
  · omega

end PTE.SameButAD

/-- The same physical page, and flags that differ in the accessed and dirty bits at most. -/
def SameTranslation : Option (ℕ × ℕ) → Option (ℕ × ℕ) → Prop :=
  Option.Rel fun x y => x.1 = y.1 ∧ PTE.SameButAD x.2 y.2

/-- A walk that stops at the same level, at entries that differ in these bits only. -/
inductive StopsAlike : Stop ℕ → Stop ℕ → Prop
  | top {w w' : ℕ} (h : PTE.SameButAD w w') : StopsAlike (.top w) (.top w')
  | inner {w w' : ℕ} (h : PTE.SameButAD w w') : StopsAlike (.inner w) (.inner w')
  | leaf {w w' : ℕ} (h : PTE.SameButAD w w') : StopsAlike (.leaf w) (.leaf w')

theorem decode_rel {s s' : Stop ℕ} (h : StopsAlike s s') (b c : ℕ) :
    SameTranslation (decode b c s) (decode b c s') := by
  cases h with
  | top h =>
    rw [decode, decode, h.kind_eq, h.getPpn_eq]
    split
    · exact .some ⟨rfl, h.mod⟩
    · exact .none
  | inner h =>
    rw [decode, decode, h.kind_eq, h.getPpn_eq]
    split
    · exact .some ⟨rfl, h.mod⟩
    · exact .none
  | leaf h =>
    rw [decode, decode, h.kind_eq, h.getPpn_eq]
    split
    · exact .some ⟨rfl, h.mod⟩
    · exact .none

variable {m m' : Mem} {r r' v : ℕ}

/-- Two walks along the same tables. -/
theorem translate_rel (htop : PTE.SameButAD (m r (parseVpn v).vpn2) (m' r' (parseVpn v).vpn2))
    (hmid : ∀ p, PTE.hwChild (m' r' (parseVpn v).vpn2) = some p →
      PTE.SameButAD (m p (parseVpn v).vpn1) (m' p (parseVpn v).vpn1))
    (hbottom : ∀ p q, PTE.hwChild (m' r' (parseVpn v).vpn2) = some p →
      PTE.hwChild (m' p (parseVpn v).vpn1) = some q →
      PTE.SameButAD (m q (parseVpn v).vpn0) (m' q (parseVpn v).vpn0)) :
    SameTranslation (translate m r v) (translate m' r' v) := by
  refine decode_rel ?_ _ _
  unfold walk path
  rw [htop.hwChild_eq]
  cases hp : PTE.hwChild (m' r' (parseVpn v).vpn2) with
  | none => exact .top htop
  | some p =>
    rw [Option.elim_some, Option.elim_some, (hmid p hp).hwChild_eq]
    cases hq : PTE.hwChild (m' p (parseVpn v).vpn1) with
    | none => exact .inner (hmid p hp)
    | some q => exact .leaf (hbottom p q hp hq)

variable {img : KernelImage} {s : VMSpace}

/-- **The kernel half of a space is that of the kernel root.** -/
theorem kernel_half (hok : SpaceOk img m s) (hv : Canonical v) (hhalf : 2 ^ 26 ≤ v) :
    SameTranslation (translate m s.rootPgt.ppn v) (translate img.mem img.root v) := by
  have hvpn2 : 256 ≤ (parseVpn v).vpn2 ∧ (parseVpn v).vpn2 < 512 := by
    have hlt := hv.lt
    rw [parseVpn_eq]
    dsimp only
    omega
  refine translate_rel (hok.agrees.kernel_root _ hvpn2.1 hvpn2.2) (fun p hp => ?_) fun p q hp hq => ?_
  · exact hok.agrees.kernel_tables p (img.mid_mem (PTE.child_of_hwChild hp)) _
  · exact hok.agrees.kernel_tables q
      (img.bottom_mem (PTE.child_of_hwChild hp) (PTE.child_of_hwChild hq)) _

/-- A page that is translated in the user half is one of an area. -/
theorem user_half (hok : SpaceOk img m s) (hreg : RegularUser m s.rootPgt.ppn)
    (hlt : ∀ p ∈ s.pages, p < 2 ^ 44) (hv : v < 2 ^ 26) {page f : ℕ}
    (h : translate m s.rootPgt.ppn v = some (page, f)) :
    ∃ a ∈ s.areas, a.mapType = .anonymous ∧ a.containVpn v = true ∧ (v, page) ∈ a.pages.entries ∧
      f % 64 = (a.permissions ||| PTE.flagV) % 64 := by
  rw [translate_user hok hreg hv] at h
  split at h
  swap
  · cases h
  rename_i hleaf
  obtain ⟨rfl, rfl⟩ := Prod.mk.inj (Option.some.inj h)
  have hvalid : PTE.isValid (pteAt m s.rootPgt.ppn v) = true := by
    by_contra hno
    rw [PTE.kind_of_invalid (by simpa using hno)] at hleaf
    cases hleaf
  have hend : v < userEndVpn := by
    have hne : v ≠ userEndVpn := by
      rintro rfl
      rw [hok.top_invalid] at hvalid
      cases hvalid
    rw [userEndVpn_eq] at hne ⊢
    omega
  obtain ⟨page, a, ha, hav, hmem⟩ := (hok.agrees.valid_iff v hend).mp hvalid
  have hsame := hok.agrees.pte_eq v hend a ha page hav hmem
  have hpage := hlt page (mem_pages_of_mem_area ha (BTreeMap.mem_values.mpr ⟨_, hmem⟩))
  have hflags := lor_flagV_lt (hok.permissions a ha)
  have hppn : PTE.getPpn (pteAt m s.rootPgt.ppn v) = page := by
    rw [hsame.getPpn_eq, PTE.getPpn_eq]
    omega
  have hanon : a.mapType = .anonymous := by
    rcases hok.placement a ha with ⟨hanon, -⟩ | ⟨-, hstart, -⟩
    · exact hanon
    · rw [VMArea.containVpn_iff] at hav
      omega
  refine ⟨a, ha, hanon, hav, hppn ▸ hmem, ?_⟩
  have := hsame.2
  omega

end RCoreKernel.Mm
