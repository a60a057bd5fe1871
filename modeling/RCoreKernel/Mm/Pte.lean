import RCoreKernel.Mm.Address

/-!
# Page table entries (`PTE` in `os/src/mm/sv39.rs`)

An entry is a machine word: ten flag bits and a 44-bit physical page number above them.
`PTE.new` rejects flag words that are not a legal encoding.  The software notion of a leaf
(`PTE.isLeaf`) asks for `W` or `X`; an entry that is valid and not such a leaf is followed as a
pointer to the next table, which is what `PTE.child` says.
-/

namespace RCoreKernel.Mm

/-- `PgtError`. -/
inductive PgtError
  | acquirePageFailed
  | invalidPteFlags (flags : ℕ)
  /-- Attempts to map a page number that is already mapped: `(vpn, ppn)`. -/
  | doubleMapping (vpn ppn : ℕ)
  deriving DecidableEq, Repr

namespace PTE

def allFlags : ℕ := 0x3ff
def flagV : ℕ := 1 <<< 0
def flagR : ℕ := 1 <<< 1
def flagW : ℕ := 1 <<< 2
def flagX : ℕ := 1 <<< 3
def flagU : ℕ := 1 <<< 4

def hasUnknownFlagsSet (pteFlags : ℕ) : Bool := andNot pteFlags allFlags ≠ 0

def hasVFlagClear (pteFlags : ℕ) : Bool := pteFlags &&& flagV = 0

def isReservedXwrEncodings (pteFlags : ℕ) : Bool :=
  let xwr := (pteFlags &&& (flagX ||| flagW ||| flagR)) >>> 1
  xwr = 0b010 || xwr = 0b110

def isValidFlags (pteFlags : ℕ) : Bool :=
  !(hasUnknownFlagsSet pteFlags || hasVFlagClear pteFlags || isReservedXwrEncodings pteFlags)

/-- `PTE::new`. -/
def new (ppn pteFlags : ℕ) : Except PgtError ℕ :=
  if isValidFlags pteFlags then .ok (wrap (ppn <<< 10) ||| pteFlags)
  else .error (.invalidPteFlags pteFlags)

def isValid (pte : ℕ) : Bool := pte &&& flagV ≠ 0

def isLeaf (pte : ℕ) : Bool := isValid pte && (pte &&& (flagX ||| flagW) ≠ 0)

/-- `PTE::get_ppn`.  The assertion in `PPN::from_pa` cannot fail here (`fromPa_getPpn`). -/
def getPpn (pte : ℕ) : ℕ := (pte >>> 10) &&& 0xfffffffffff

/-- The next table, when the entry is valid and not a leaf. -/
def child (pte : ℕ) : Option ℕ := if isValid pte && !isLeaf pte then some (getPpn pte) else none

/-! ### The encodings as arithmetic -/

theorem land_one (n : ℕ) : n &&& 1 = n % 2 := Nat.and_two_pow_sub_one_eq_mod n 1

theorem isValid_iff {pte : ℕ} : isValid pte = true ↔ pte % 2 = 1 := by
  simp only [isValid, flagV, Nat.shiftLeft_zero, land_one, ne_eq, decide_not, Bool.not_eq_true',
    decide_eq_false_iff_not]
  omega

theorem isValid_eq_false_iff {pte : ℕ} : isValid pte = false ↔ pte % 2 = 0 := by
  rw [← Bool.not_eq_true, isValid_iff]
  omega

theorem land_twelve (n : ℕ) : n &&& 12 = n / 4 % 4 * 4 := land_block n 2 2

theorem isLeaf_iff {pte : ℕ} : isLeaf pte = true ↔ pte % 2 = 1 ∧ pte / 4 % 4 ≠ 0 := by
  simp only [isLeaf, Bool.and_eq_true, isValid_iff]
  rw [show flagX ||| flagW = 12 from rfl, land_twelve, decide_eq_true_eq]
  omega

theorem getPpn_eq (pte : ℕ) : getPpn pte = pte / 1024 % 2 ^ 44 := by
  rw [getPpn, Nat.shiftRight_eq_div_pow]
  exact Nat.and_two_pow_sub_one_eq_mod _ 44

theorem getPpn_lt (pte : ℕ) : getPpn pte < 2 ^ 44 := by
  rw [getPpn_eq]
  exact Nat.mod_lt _ (by norm_num)

/-- The conversion inside `PTE::get_ppn` never trips its assertion. -/
theorem fromPa_getPpn (pte : ℕ) : PPN.fromPa (getPpn pte <<< pageSizeOrder) = some (getPpn pte) := by
  have h := getPpn_lt pte
  have hv : PPN.isValidPa (getPpn pte <<< pageSizeOrder) = true := by
    simp only [PPN.isValidPa, PPN.maxPa, pageSizeOrder, Nat.shiftLeft_eq, decide_eq_true_eq]
    omega
  rw [PPN.fromPa, if_pos hv, Nat.shiftLeft_shiftRight]

theorem hasUnknownFlagsSet_eq_false {f : ℕ} : hasUnknownFlagsSet f = false ↔ f < 1024 := by
  simp only [hasUnknownFlagsSet, decide_eq_false_iff_not, ne_eq, not_not, andNot_eq_zero]
  rw [show allFlags = 2 ^ 10 - 1 from rfl, Nat.and_two_pow_sub_one_eq_mod]
  omega

theorem isReservedXwrEncodings_iff {f : ℕ} :
    isReservedXwrEncodings f = true ↔ f / 2 % 2 = 0 ∧ f / 4 % 2 = 1 := by
  have h : f &&& 14 = f / 2 % 8 * 2 := land_block f 3 1
  simp only [isReservedXwrEncodings, show flagX ||| flagW ||| flagR = 14 from rfl, h,
    Nat.shiftRight_eq_div_pow, Bool.or_eq_true, decide_eq_true_eq]
  omega

/-- A legal flag word: ten bits, valid, and writable only if readable. -/
theorem isValidFlags_iff {f : ℕ} :
    isValidFlags f = true ↔ f < 1024 ∧ f % 2 = 1 ∧ ¬(f / 2 % 2 = 0 ∧ f / 4 % 2 = 1) := by
  have hv : hasVFlagClear f = false ↔ f % 2 = 1 := by
    simp only [hasVFlagClear, flagV, Nat.shiftLeft_zero, land_one, decide_eq_false_iff_not]
    omega
  simp only [isValidFlags, Bool.not_or, Bool.and_eq_true, Bool.not_eq_true',
    hasUnknownFlagsSet_eq_false, hv, and_assoc, ← isReservedXwrEncodings_iff, Bool.not_eq_true]

/-- Flags fit below the page number. -/
theorem lor_flags {ppn f : ℕ} (hp : ppn < 2 ^ 44) (hf : f < 1024) :
    wrap (ppn <<< 10) ||| f = ppn * 1024 + f := by
  rw [wrap_of_lt (by rw [Nat.shiftLeft_eq]; omega), ← Nat.shiftLeft_add_eq_or_of_lt hf,
    Nat.shiftLeft_eq]

theorem new_eq_ok {ppn f w : ℕ} (hp : ppn < 2 ^ 44) (h : new ppn f = .ok w) :
    isValidFlags f = true ∧ w = ppn * 1024 + f := by
  unfold new at h
  split at h
  · rename_i hf
    refine ⟨hf, ?_⟩
    rw [lor_flags hp (isValidFlags_iff.mp hf).1] at h
    exact (Except.ok.inj h).symm
  · cases h

/-- The entry written for a new intermediate table. -/
theorem new_pointer {page : ℕ} (hp : page < 2 ^ 44) : new page flagV = .ok (page * 1024 + 1) := by
  have hv : isValidFlags flagV = true := isValidFlags_iff.mpr (by decide)
  rw [new, if_pos hv, lor_flags hp (by decide)]
  rfl

theorem child_eq_some {w p : ℕ} : child w = some p ↔ w % 2 = 1 ∧ w / 4 % 4 = 0 ∧ getPpn w = p := by
  unfold child
  split
  · rename_i h
    simp only [Bool.and_eq_true, Bool.not_eq_true', ← Bool.not_eq_true, isValid_iff,
      isLeaf_iff] at h
    simp only [Option.some.injEq]
    omega
  · rename_i h
    simp only [Bool.and_eq_true, Bool.not_eq_true', ← Bool.not_eq_true, isValid_iff,
      isLeaf_iff] at h
    simp only [reduceCtorEq, false_iff]
    omega

@[simp] theorem child_zero : child 0 = none := by decide

theorem child_pointer {p : ℕ} (hp : p < 2 ^ 44) : child (p * 1024 + 1) = some p := by
  rw [child_eq_some, getPpn_eq]
  omega

theorem not_isLeaf_pointer (p : ℕ) : isLeaf (p * 1024 + 1) = false := by
  rw [← Bool.not_eq_true, isLeaf_iff]
  omega

theorem child_of_valid {w : ℕ} (hv : isValid w = true) (hl : isLeaf w = false) :
    child w = some (getPpn w) := by
  simp [child, hv, hl]

theorem child_of_not_valid {w : ℕ} (hv : isValid w = false) : child w = none := by
  simp [child, hv]

theorem child_of_leaf {w : ℕ} (hl : isLeaf w = true) : child w = none := by
  simp [child, hl]

end PTE

end RCoreKernel.Mm
