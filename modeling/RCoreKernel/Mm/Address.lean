import Mathlib.Data.Nat.Bitwise
import Mathlib.Tactic.NormNum

/-!
# Addresses, page numbers and machine words (`os/src/mm.rs`)

A `usize` is a natural number below `2 ^ 64`; the release build wraps on overflow, so every
sum, product or shift that the source lets overflow is reduced by `wrap`.  A failed `assert!`,
`unwrap`, `expect`, slice bound or division by zero is a `Panic`, kept apart from an error that
the code returns.

The address arithmetic of the source uses masks and shifts.  The lemmas of this file turn them
into division and remainder once, so that later proofs only see linear arithmetic:

* `isValidVa_iff` — the canonical addresses of Sv39 are the lowest and the highest `2 ^ 38`;
* `parseVpn_eq` — the three indices of a virtual page number;
* `vpn_recompose` — they determine a user page number.
-/

namespace RCoreKernel

/-- Reduction modulo the word size. -/
def wrap (n : ℕ) : ℕ := n % 2 ^ 64

theorem wrap_of_lt {n : ℕ} (h : n < 2 ^ 64) : wrap n = n := Nat.mod_eq_of_lt h

/-- A word as a signed number. -/
def signed (w : ℕ) : ℤ := if w < 2 ^ 63 then w else (w : ℤ) - 2 ^ 64

/-- `a - b` on machine words. -/
def wrappingSub (a b : ℕ) : ℕ := wrap (a + 2 ^ 64 - b)

/-- `a & !b` on machine words. -/
def andNot (a b : ℕ) : ℕ := a ^^^ (a &&& b)

theorem andNot_eq_zero {a b : ℕ} : andNot a b = 0 ↔ a &&& b = a := by
  rw [andNot, Nat.xor_eq_zero_iff]
  exact eq_comm

/-- The places where the kernel stops. -/
inductive Panic
  /-- `VPN::from_va`: `invalid virtual address` -/
  | invalidVirtualAddress
  /-- `PPN::from_pa`: `invalid physical address` -/
  | invalidPhysicalAddress
  /-- `get_va_from_pa`: `address overflow` -/
  | addressOverflow
  /-- `get_pa_from_va`: `address underflow` -/
  | addressUnderflow
  /-- `PAGE_SIZE_BYTES % align` with `align = 0` -/
  | remainderByZero
  /-- `v[i]` out of range -/
  | indexOutOfRange
  /-- `elf_bytes[a..b]` out of range -/
  | sliceOutOfRange
  /-- `map_kernel_range_large`: an end is not aligned to a large page -/
  | unalignedLargeRange
  /-- `RootPgt::unmap`: `Unmap huge page is unexpected` -/
  | unmapHugePage
  /-- `RootPgt::unmap`: `Unmap large page is unexpected` -/
  | unmapLargePage
  /-- `RootPgt::unmap`: `Code should not reach here.` -/
  | unmapPastEnd
  /-- `VMSpace::map`: `Unexpected MapType` -/
  | unexpectedMapType
  /-- `VMSpace::map`: `find_area_mut(vpn).unwrap()` after a failed `map_create` -/
  | unwrapArea
  deriving DecidableEq, Repr

/-- What a call can do: return a value, return an error, or panic. -/
inductive Outcome (ε α : Type)
  | ok (a : α)
  | err (e : ε)
  | panic (site : Panic)
  deriving DecidableEq, Repr

namespace Mm

/-! ### Constants -/

/-- The `(base_pa, size_bytes)` pairs of the QEMU virt machine. -/
def qemuVirtMmio : List (ℕ × ℕ) :=
  [(0x00100000, 0x00001000),
   (0x00101000, 0x00001000),
   (0x02000000, 0x00010000),
   (0x0c000000, 0x00600000),
   (0x10000000, 0x00000100),
   (0x10010000, 0x00001000)]

def memStartPa : ℕ := 0x80000000
def memSizeBytes : ℕ := 128 <<< 20

def pageSizeOrder : ℕ := 12
def pageSizeBytes : ℕ := 1 <<< pageSizeOrder
def largePageSizeOrder : ℕ := 21
def largePageSizeBytes : ℕ := 1 <<< largePageSizeOrder

def kernelVaOffset : ℕ := 0xffffffc000000000

/-- One page below `0x40_0000_0000`, which is not a valid Sv39 address. -/
def userSpaceEnd : ℕ := 0x4000000000 - pageSizeBytes
def userStackMaxSizeBytes : ℕ := 8 <<< 20

/-- The virtual page number of `USER_SPACE_END`. -/
def userEndVpn : ℕ := userSpaceEnd >>> pageSizeOrder

theorem pageSizeBytes_eq : pageSizeBytes = 4096 := rfl
theorem largePageSizeBytes_eq : largePageSizeBytes = 2097152 := rfl
theorem userSpaceEnd_eq : userSpaceEnd = 2 ^ 38 - 4096 := rfl
theorem userEndVpn_eq : userEndVpn = 2 ^ 26 - 1 := rfl

/-! ### Conversions -/

/-- `get_va_from_pa`; `none` is the failed `expect`. -/
def getVaFromPa (pa : ℕ) : Option ℕ :=
  if pa + kernelVaOffset < 2 ^ 64 then some (pa + kernelVaOffset) else none

/-- `get_pa_from_va`; `none` is the failed `expect`. -/
def getPaFromVa (va : ℕ) : Option ℕ :=
  if kernelVaOffset ≤ va then some (va - kernelVaOffset) else none

/-- Whether the va is inside user space. -/
def checkUVa (va : ℕ) : Bool := va < userSpaceEnd

/-- Whether the whole va range is inside user space.  The subtraction wraps when both `start`
and `len` are zero. -/
def checkUVaRange (start len : ℕ) : Bool :=
  checkUVa start && (if start + len < 2 ^ 64 then checkUVa (wrappingSub (start + len) 1) else false)

/-- `addr + len + PAGE_SIZE_BYTES - 1`, the last byte of the pages that hold `len` bytes from
`addr` on, or the byte before them when there are none. -/
def endOfRange (addr len : ℕ) : ℕ := wrappingSub (wrap (addr + len + pageSizeBytes)) 1

/-- `PPN::MAX_PA`. -/
def PPN.maxPa : ℕ := (1 <<< 56) - 1

def PPN.isValidPa (pa : ℕ) : Bool := pa < PPN.maxPa

/-- `PPN::from_pa`; `none` is the failed assertion. -/
def PPN.fromPa (pa : ℕ) : Option ℕ :=
  if PPN.isValidPa pa then some (pa >>> pageSizeOrder) else none

def PPN.getPa (ppn : ℕ) : ℕ := wrap (ppn <<< pageSizeOrder)

/-- Bits 63 to 38 must all be equal. -/
def VPN.isValidVa (va : ℕ) : Bool :=
  let mask := 0xffffffc000000000
  va &&& mask = 0 || va &&& mask = mask

/-- `VPN::from_va`; `none` is the failed assertion. -/
def VPN.fromVa (va : ℕ) : Option ℕ :=
  if VPN.isValidVa va then some (va >>> pageSizeOrder) else none

def VPN.getVa (vpn : ℕ) : ℕ := wrap (vpn <<< pageSizeOrder)

/-! ### Masks and shifts as arithmetic -/

/-- Masking with a block of `a` ones above `b` zeros. -/
theorem land_block (n a b : ℕ) :
    n &&& ((2 ^ a - 1) * 2 ^ b) = n / 2 ^ b % 2 ^ a * 2 ^ b := by
  apply Nat.eq_of_testBit_eq
  intro i
  simp only [Nat.testBit_and, Nat.testBit_mul_two_pow, Nat.testBit_mod_two_pow,
    Nat.testBit_div_two_pow, Nat.testBit_two_pow_sub_one]
  by_cases h : b ≤ i
  · simp [h, Bool.and_comm]
  · simp [h]

/-- `x & !(2^n - 1)` clears the low bits. -/
theorem andNot_mask (x n : ℕ) : andNot x (2 ^ n - 1) = x / 2 ^ n * 2 ^ n := by
  rw [andNot, Nat.and_two_pow_sub_one_eq_mod]
  apply Nat.eq_of_testBit_eq
  intro i
  simp only [Nat.testBit_xor, Nat.testBit_mod_two_pow, Nat.testBit_mul_two_pow,
    Nat.testBit_div_two_pow]
  by_cases h : n ≤ i
  · simp [h, not_lt.mpr h, Nat.sub_add_cancel h]
  · simp [h, not_le.mp h]

theorem land_mask (va : ℕ) : va &&& 0xffffffc000000000 = va / 2 ^ 38 % 2 ^ 26 * 2 ^ 38 :=
  land_block va 26 38

/-- **Canonical addresses.** -/
theorem VPN.isValidVa_iff {va : ℕ} (h : va < 2 ^ 64) :
    VPN.isValidVa va = true ↔ va < 2 ^ 38 ∨ 2 ^ 64 - 2 ^ 38 ≤ va := by
  simp only [VPN.isValidVa, land_mask, Bool.or_eq_true, decide_eq_true_eq]
  omega

theorem VPN.fromVa_of_user {va : ℕ} (h : va < 2 ^ 38) : VPN.fromVa va = some (va / 4096) := by
  have hv : VPN.isValidVa va = true := (VPN.isValidVa_iff (by omega)).mpr (Or.inl h)
  simp [VPN.fromVa, hv, pageSizeOrder, Nat.shiftRight_eq_div_pow]

theorem VPN.fromVa_of_kernel {va : ℕ} (h : kernelVaOffset ≤ va) (h' : va < 2 ^ 64) :
    VPN.fromVa va = some (va / 4096) := by
  have hv : VPN.isValidVa va = true :=
    (VPN.isValidVa_iff h').mpr (Or.inr (by simp only [kernelVaOffset] at h; omega))
  simp [VPN.fromVa, hv, pageSizeOrder, Nat.shiftRight_eq_div_pow]

theorem VPN.fromVa_eq_some {va : ℕ} {vpn : ℕ} (h : VPN.fromVa va = some vpn) :
    VPN.isValidVa va = true ∧ vpn = va / 4096 := by
  unfold VPN.fromVa at h
  split at h
  · refine ⟨‹_›, ?_⟩
    simpa [pageSizeOrder, Nat.shiftRight_eq_div_pow] using (Option.some.inj h).symm
  · cases h

theorem PPN.fromPa_eq_some {pa ppn : ℕ} (h : PPN.fromPa pa = some ppn) :
    pa < 2 ^ 56 - 1 ∧ ppn = pa / 4096 := by
  unfold PPN.fromPa PPN.isValidPa at h
  split at h
  · rename_i hlt
    refine ⟨of_decide_eq_true hlt, ?_⟩
    simpa [pageSizeOrder, Nat.shiftRight_eq_div_pow] using (Option.some.inj h).symm
  · cases h

/-! ### Indices of a virtual page number -/

/-- `VPN_0`, `VPN_1` and `VPN_2`. -/
@[ext] structure Parsed where
  vpn0 : ℕ
  vpn1 : ℕ
  vpn2 : ℕ
  deriving DecidableEq, Repr

def parseVpn (vpn : ℕ) : Parsed :=
  let va := VPN.getVa vpn
  ⟨(va >>> 12) &&& 0x1ff, (va >>> 21) &&& 0x1ff, (va >>> 30) &&& 0x1ff⟩

theorem land_511 (n : ℕ) : n &&& 0x1ff = n % 512 := Nat.and_two_pow_sub_one_eq_mod n 9

theorem parseVpn_eq (vpn : ℕ) :
    parseVpn vpn = ⟨vpn % 512, vpn / 512 % 512, vpn / 262144 % 512⟩ := by
  simp only [parseVpn, VPN.getVa, wrap, pageSizeOrder, land_511, Nat.shiftRight_eq_div_pow,
    Nat.shiftLeft_eq, Parsed.mk.injEq]
  omega

theorem parseVpn_user {vpn : ℕ} (h : vpn < 2 ^ 26) :
    parseVpn vpn = ⟨vpn % 512, vpn / 512 % 512, vpn / 262144⟩ := by
  rw [parseVpn_eq, Nat.mod_eq_of_lt (a := vpn / 262144)]
  omega

/-- A user page number is determined by its indices. -/
theorem vpn_recompose (vpn : ℕ) :
    vpn / 262144 * 262144 + vpn / 512 % 512 * 512 + vpn % 512 = vpn := by
  omega

end Mm

end RCoreKernel
