import RCoreKernel.Syscall.Mm

/-!
# User ranges (`check_u_va_range` in `os/src/mm.rs`)

Every system call with a user pointer checks its range first, and `mmap` and `munmap` then round the
range to pages.

* `checkUVaRange_iff` — which ranges pass;
* `rangeSound_iff` — **the check and the rounding are right for all ranges but the empty one at
  address zero**, for which the check subtracts one from zero.
-/

namespace RCoreKernel.Syscall

open Mm

/-- The check does not underflow, accepts the ranges in user space, and the roundings of `mmap` and
`munmap` work for every range it accepts. -/
structure RangeSound (start len : ℕ) : Prop where
  /-- `end - 1` is only computed when both conditions before it hold. -/
  no_underflow : checkUVa start = true → start + len < 2 ^ 64 → 1 ≤ start + len
  accepts_iff : checkUVaRange start len = true ↔
    start < userSpaceEnd ∧ start + len ≤ userSpaceEnd
  no_wrap : checkUVaRange start len = true → start + len + pageSizeBytes < 2 ^ 64
  rounded : checkUVaRange start len = true → ∃ startVpn endVpn, VPN.fromVa start = some startVpn ∧
    VPN.fromVa (endOfRange start len) = some endVpn ∧ endVpn ≤ userEndVpn ∧
    (0 < len → startVpn < endVpn)

/-- The check, as arithmetic. -/
theorem checkUVaRange_iff {start len : ℕ} (hne : 0 < start + len) :
    checkUVaRange start len = true ↔ start < userSpaceEnd ∧ start + len ≤ userSpaceEnd := by
  constructor
  · exact checkUVaRange_le
  · rintro ⟨hstart, hend⟩
    rw [userSpaceEnd_eq] at hstart hend
    have hlt : start + len < 2 ^ 64 := by omega
    have hsub : wrappingSub (start + len) 1 = start + len - 1 := by
      unfold wrappingSub wrap
      omega
    rw [checkUVaRange, if_pos hlt, hsub, Bool.and_eq_true, checkUVa_iff, checkUVa_iff]
    omega

theorem checkUVaRange_zero : checkUVaRange 0 0 = false := by decide

/-- **The range check.** -/
theorem rangeSound_iff (start len : ℕ) : RangeSound start len ↔ 0 < start + len := by
  constructor
  · intro h
    by_contra hzero
    obtain ⟨rfl, rfl⟩ : start = 0 ∧ len = 0 := by omega
    exact absurd (h.no_underflow (by decide) (by decide)) (by decide)
  · intro hne
    refine ⟨fun _ _ => hne, checkUVaRange_iff hne, fun h => ?_, fun h => ?_⟩
    · have hle := (checkUVaRange_le h).2
      rw [userSpaceEnd_eq] at hle
      rw [pageSizeBytes_eq]
      omega
    · obtain ⟨hstart, hend, hle⟩ := vpn_of_checked h
      exact ⟨_, _, hstart, hend, hle, fun hlen => by omega⟩

/-- The empty range at address zero lies in user space and is refused. -/
theorem rangeSound_zero : ¬RangeSound 0 0 := by
  intro h
  have hpass := h.accepts_iff.mpr ⟨by decide, by decide⟩
  rw [checkUVaRange_zero] at hpass
  cases hpass

end RCoreKernel.Syscall
