import RCoreKernel.Mm.Direct

/-!
# The boot page table (`os/src/entry.S`)

Before any Rust code runs, `entry.S` fills one page with huge-page entries: physical memory below
`2 ^ 38` at `KERNEL_VA_OFFSET`, and the gigabyte that holds the entry code at its own address.

* `activateBootPgt` — `.L_activate_boot_pgt`, its two loops being `loop1` and `loop2`;
* `bootPgt_entries` — every entry of the table;
* `bootPgt_maps` — **what the table translates, and that it translates all that the table built by
  `init_kernel_satp` does**.
-/

namespace RCoreKernel.Mm

open Radix RootPgt

/-- `SATP_SV39_MODE`. -/
def satpSv39Mode : ℕ := 8

/-- `PTE_FLAG_RWXV`. -/
def pteFlagRwxv : ℕ := 0xf

/-- `sd word, 0(addr)`, before there are virtual addresses. -/
def sd (m : Mem) (addr word : ℕ) : Mem := fun p j =>
  if p = addr / 4096 ∧ j = addr % 4096 / 8 then word else m p j

/-- `Loop1`: zeros from `t0` to `t1`. -/
def loop1 : ℕ → ℕ → ℕ → Mem → Option Mem
  | 0, _, _, _ => none
  | n + 1, t0, t1, m =>
    if signed t1 ≤ signed t0 then some m else loop1 n (wrap (t0 + 8)) t1 (sd m t0 0)

/-- `Loop2`: the entries for physical memory from `t2` on, one for each `t5` bytes. -/
def loop2 : ℕ → ℕ → ℕ → ℕ → ℕ → ℕ → Mem → Option Mem
  | 0, _, _, _, _, _, _ => none
  | n + 1, t0, t1, t2, t5, t6, m =>
    if signed t1 ≤ signed t0 then some m
    else
      let t3 := wrap ((t2 >>> 12) <<< 10) ^^^ t6 ^^^ pteFlagRwxv
      loop2 n (wrap (t0 + 8)) t1 (wrap (t2 + t5)) t5 t6 (sd m t0 t3)

/-- The entry page is mapped identically. -/
def mapEntry (bootPgt textStart : ℕ) (m : Mem) : Mem :=
  let t1 := textStart >>> 30
  let t2 := wrap (t1 <<< 28) ^^^ pteFlagRwxv
  sd m (wrap (bootPgt + wrap (t1 <<< 3))) t2

/-- `.L_activate_boot_pgt`: memory and `satp`, if the loops end after so many rounds. -/
def activateBootPgt (rounds bootPgt textStart : ℕ) (m : Mem) : Option (Mem × ℕ) :=
  (loop1 rounds bootPgt (wrap (bootPgt + 512 <<< 3)) m).bind fun m =>
    let t0 := wrap (bootPgt + 256 <<< 3)
    (loop2 rounds t0 (wrap (256 <<< 3 + t0)) 0 (1 <<< 30) (1 <<< 8) (mapEntry bootPgt textStart m)).map
      fun m => (m, (bootPgt >>> 12) ^^^ wrap (satpSv39Mode <<< 60))

/-! ### The loops -/

variable {b textStart : ℕ}

/-- The address of an entry. -/
theorem sd_entry (m : Mem) {i : ℕ} (hi : i < 512) (word : ℕ) :
    sd m (b * 4096 + 8 * i) word = fun p j => if p = b ∧ j = i then word else m p j := by
  unfold sd
  rw [show (b * 4096 + 8 * i) / 4096 = b by omega, show (b * 4096 + 8 * i) % 4096 / 8 = i by omega]

theorem signed_of_lt {w : ℕ} (h : w < 2 ^ 63) : signed w = w := if_pos h

theorem loop1_eq (hb : b < 2 ^ 26) (left : ℕ) (hleft : left ≤ 512) (spare : ℕ) (m : Mem) :
    loop1 (spare + left + 1) (b * 4096 + 8 * (512 - left)) (b * 4096 + 4096) m =
      some fun p j => if p = b ∧ 512 - left ≤ j ∧ j < 512 then 0 else m p j := by
  induction left generalizing m with
  | zero =>
    rw [loop1, if_pos le_rfl]
    congr 1
    funext p j
    rw [if_neg (by omega)]
  | succ left ih =>
    have hlt : ¬signed (b * 4096 + 4096) ≤ signed (b * 4096 + 8 * (512 - (left + 1))) := by
      rw [signed_of_lt (by omega), signed_of_lt (by omega)]
      omega
    have hnext : wrap (b * 4096 + 8 * (512 - (left + 1)) + 8) = b * 4096 + 8 * (512 - left) := by
      rw [wrap_of_lt (by omega)]
      omega
    rw [loop1, if_neg hlt, hnext, ← Nat.add_assoc, ih (by omega), sd_entry m (by omega)]
    refine congrArg some (funext fun p => funext fun j => ?_)
    dsimp only
    by_cases hin : p = b ∧ 512 - left ≤ j ∧ j < 512
    · rw [if_pos hin, if_pos (by omega)]
    · rw [if_neg hin]
      by_cases hhere : p = b ∧ j = 512 - (left + 1)
      · rw [if_pos hhere, if_pos (by omega)]
      · rw [if_neg hhere, if_neg (by omega)]

/-- The entry for the `q`-th gigabyte.  The mask sets a bit that is left to software. -/
theorem high_entry : ∀ q < 256,
    wrap (((q * 2 ^ 30) >>> 12) <<< 10) ^^^ (1 <<< 8) ^^^ pteFlagRwxv = q * 2 ^ 28 + 0x10f := by
  decide +kernel

theorem low_entry : ∀ q < 256, wrap (q <<< 28) ^^^ pteFlagRwxv = q * 2 ^ 28 + 0xf := by
  decide +kernel

theorem loop2_eq (hb : b < 2 ^ 26) (left : ℕ) (hleft : left ≤ 256) (spare : ℕ) (m : Mem) :
    loop2 (spare + left + 1) (b * 4096 + 8 * (512 - left)) (b * 4096 + 4096) ((256 - left) * 2 ^ 30)
        (1 <<< 30) (1 <<< 8) m =
      some fun p j => if p = b ∧ 512 - left ≤ j ∧ j < 512 then (j - 256) * 2 ^ 28 + 0x10f
        else m p j := by
  induction left generalizing m with
  | zero =>
    rw [loop2, if_pos le_rfl]
    congr 1
    funext p j
    rw [if_neg (by omega)]
  | succ left ih =>
    have hlt : ¬signed (b * 4096 + 4096) ≤ signed (b * 4096 + 8 * (512 - (left + 1))) := by
      rw [signed_of_lt (by omega), signed_of_lt (by omega)]
      omega
    have hnext : wrap (b * 4096 + 8 * (512 - (left + 1)) + 8) = b * 4096 + 8 * (512 - left) := by
      rw [wrap_of_lt (by omega)]
      omega
    have hpa : wrap ((256 - (left + 1)) * 2 ^ 30 + 1 <<< 30) = (256 - left) * 2 ^ 30 := by
      rw [Nat.one_shiftLeft, wrap_of_lt (by omega)]
      omega
    rw [loop2, if_neg hlt]
    dsimp only
    rw [hnext, hpa, high_entry _ (by omega), ← Nat.add_assoc, ih (by omega), sd_entry m (by omega)]
    refine congrArg some (funext fun p => funext fun j => ?_)
    dsimp only
    by_cases hin : p = b ∧ 512 - left ≤ j ∧ j < 512
    · rw [if_pos hin, if_pos (by omega)]
    · rw [if_neg hin]
      by_cases hhere : p = b ∧ j = 512 - (left + 1)
      · have hq : j - 256 = 256 - (left + 1) := by omega
        rw [if_pos hhere, if_pos (by omega), hq]
      · rw [if_neg hhere, if_neg (by omega)]

/-! ### The table -/

/-- The entries of the boot page table. -/
def bootEntry (textStart j : ℕ) : ℕ :=
  if 256 ≤ j then (j - 256) * 2 ^ 28 + 0x10f
  else if j = textStart / 2 ^ 30 then j * 2 ^ 28 + 0xf
  else 0

/-- The mode and the page do not overlap, so that they may be combined by `xor`. -/
theorem satp_eq (hb : b < 2 ^ 26) :
    (b * 4096) >>> 12 ^^^ wrap (satpSv39Mode <<< 60) = satpValue b := by
  have hmode : wrap (satpSv39Mode <<< 60) = 2 ^ 63 := by decide
  have hmode' : wrap (8 <<< 60) = 2 ^ 63 := by decide
  have hppn : b &&& 0xfffffffffff = b := by
    rw [show 0xfffffffffff = 2 ^ 44 - 1 from rfl, Nat.and_two_pow_sub_one_eq_mod]
    omega
  rw [satpValue, hmode, hmode', hppn, Nat.shiftRight_eq_div_pow, Nat.mul_div_cancel _ (by decide)]
  apply Nat.eq_of_testBit_eq
  intro i
  rw [Nat.testBit_xor, Nat.testBit_or, Nat.testBit_two_pow]
  by_cases hi : 63 = i
  · have hbit : b.testBit i = false := by
      rw [← hi]
      exact Nat.testBit_lt_two_pow (by omega)
    simp [hi, hbit]
  · simp [hi]

/-- **Every entry**, and `satp`; no other page is written. -/
theorem bootPgt_entries (hb : b < 2 ^ 26) (htext : textStart < 2 ^ 38) (m : Mem) :
    ∃ m', activateBootPgt 513 (b * 4096) textStart m = some (m', satpValue b) ∧
      (∀ j < 512, m' b j = bootEntry textStart j) ∧ ∀ p ≠ b, m' p = m p := by
  obtain ⟨q, hq⟩ : ∃ q, q = textStart / 2 ^ 30 := ⟨_, rfl⟩
  have hend : wrap (b * 4096 + 512 <<< 3) = b * 4096 + 4096 := wrap_of_lt (by omega)
  have hmid : wrap (b * 4096 + 256 <<< 3) = b * 4096 + 8 * (512 - 256) := wrap_of_lt (by omega)
  have hend' : wrap (256 <<< 3 + (b * 4096 + 8 * (512 - 256))) = b * 4096 + 4096 := by
    rw [wrap_of_lt (by omega)]
    omega
  have hentry : ∀ m, mapEntry (b * 4096) textStart m =
      fun p j => if p = b ∧ j = q then q * 2 ^ 28 + 0xf else m p j := by
    intro m
    have hslot : wrap (b * 4096 + wrap (q <<< 3)) = b * 4096 + 8 * q := by
      rw [Nat.shiftLeft_eq, wrap_of_lt (show q * 2 ^ 3 < 2 ^ 64 by omega), wrap_of_lt (by omega)]
      omega
    rw [mapEntry, Nat.shiftRight_eq_div_pow, ← hq, hslot, low_entry q (by omega), sd_entry m (by omega)]
  have hloop1 := loop1_eq hb 512 le_rfl 0 m
  have hloop2 := fun m => loop2_eq hb 256 le_rfl 256 m
  rw [show b * 4096 + 8 * (512 - 512) = b * 4096 by omega] at hloop1
  refine ⟨fun p j => if p = b ∧ 512 - 256 ≤ j ∧ j < 512 then (j - 256) * 2 ^ 28 + 0x10f
    else if p = b ∧ j = q then q * 2 ^ 28 + 0xf
    else if p = b ∧ 512 - 512 ≤ j ∧ j < 512 then 0 else m p j, ?_, fun j hj => ?_, fun p hp => ?_⟩
  · have hstart : (256 - 256) * 2 ^ 30 = 0 := rfl
    rw [activateBootPgt, hend, hloop1, Option.bind_some, hmid]
    dsimp only
    rw [hend', hentry, ← hstart, hloop2, Option.map_some, satp_eq hb]
  · dsimp only
    rw [bootEntry, ← hq]
    by_cases hhigh : 256 ≤ j
    · rw [if_pos (by omega), if_pos hhigh]
    · rw [if_neg (by omega), if_neg hhigh]
      by_cases hslot : j = q
      · rw [if_pos ⟨rfl, hslot⟩, if_pos hslot, hslot]
      · rw [if_neg (by omega), if_neg hslot, if_pos (by omega)]
  · funext j
    dsimp only
    rw [if_neg (by omega), if_neg (by omega), if_neg (by omega)]

/-! ### Translations -/

/-- A walk that ends at the root. -/
theorem translate_huge {m : Mem} {root vpn w : ℕ} (hw : m root (parseVpn vpn).vpn2 = w)
    (hchild : PTE.hwChild w = none) :
    translate m root vpn = decode (parseVpn vpn).vpn1 (parseVpn vpn).vpn0 (.top w) := by
  have hmid : mid PTE.hwChild m root (parseVpn vpn).vpn2 = none := by
    rw [mid, hw, hchild]
  rw [translate, walk, path_of_mid_none hmid, hw]

/-- An entry for the `q`-th gigabyte. -/
theorem translate_gigabyte {m : Mem} {root vpn q f : ℕ} (hq : q < 256) (hf : f < 1024)
    (hleaf : f % 2 = 1 ∧ f / 2 % 2 = 1)
    (hw : m root (parseVpn vpn).vpn2 = q * 2 ^ 28 + f) :
    translate m root vpn =
      some (q * 2 ^ 18 + (parseVpn vpn).vpn1 * 512 + (parseVpn vpn).vpn0, f) := by
  have hkind : PTE.kind (q * 2 ^ 28 + f) = .leaf := by
    rw [PTE.kind_eq, if_neg (by omega), if_pos (by omega)]
  have hget : PTE.getPpn (q * 2 ^ 28 + f) = q * 2 ^ 18 := by
    rw [PTE.getPpn_eq]
    omega
  have hchild : PTE.hwChild (q * 2 ^ 28 + f) = none := by
    rw [PTE.hwChild, hkind, if_neg (by decide)]
  have hflags : (q * 2 ^ 28 + f) % 1024 = f := by omega
  rw [translate_huge hw hchild, decode, if_pos ⟨hkind, by omega⟩, hget, hflags]

/-- **The boot page table.**  It maps physical memory below `2 ^ 38` at `KERNEL_VA_OFFSET` and, in
the lower half, the gigabyte of the entry code at its own address; all other entries are invalid.
So it translates what the root of `init_kernel_satp` translates, to the same page, and permits what
that root permits. -/
theorem bootPgt_maps (hb : b < 2 ^ 26) (htext : textStart < 2 ^ 38) (m : Mem) :
    ∃ m', activateBootPgt 513 (b * 4096) textStart m = some (m', satpValue b) ∧
      (∀ p ≠ b, m' p = m p) ∧
      (∀ j < 512, PTE.isValid (m' b j) = true ↔ 256 ≤ j ∨ j = textStart / 2 ^ 30) ∧
      (∀ p < 2 ^ 26, translate m' b (kernelHalf + p) = some (p, pteFlagRwxv ||| 1 <<< 8)) ∧
      (∀ v < 2 ^ 26, translate m' b v =
        if v / 2 ^ 18 = textStart / 2 ^ 30 then some (v, pteFlagRwxv) else none) ∧
      ∀ (l : Layout) (m₀ : Mem) (a₀ : PageAllocator) (t : RootPgt) (k : Phys),
        initialAllocator l.kernelEnd.toNat = some a₀ → initKernelSatp l ⟨m₀, a₀⟩ = (.ok t, k) →
        ∀ vpn ppn f, Canonical vpn → translate k.mem t.ppn vpn = some (ppn, f) →
          ∃ f', translate m' b vpn = some (ppn, f') ∧ f &&& f' = f ∧
            f' &&& PTE.flagU = f &&& PTE.flagU := by
  obtain ⟨m', hrun, hentries, hframe⟩ := bootPgt_entries hb htext m
  have hhigh : ∀ p < 2 ^ 26, translate m' b (kernelHalf + p) = some (p, pteFlagRwxv ||| 1 <<< 8) := by
    intro p hp
    have hparse := parseVpn_kernelHalf hp
    have hw : m' b (parseVpn (kernelHalf + p)).vpn2 = p / 2 ^ 18 * 2 ^ 28 + 0x10f := by
      rw [hparse]
      dsimp only
      rw [hentries _ (by omega), bootEntry, if_pos (by omega), Nat.add_sub_cancel_left]
    rw [translate_gigabyte (by omega) (by decide) (by decide) hw, hparse]
    dsimp only
    congr 2
    omega
  refine ⟨m', hrun, hframe, fun j hj => ?_, hhigh, fun v hv => ?_, ?_⟩
  · rw [hentries j hj, bootEntry, PTE.isValid_iff]
    split_ifs with h1 h2
    · exact ⟨fun _ => Or.inl h1, fun _ => by omega⟩
    · exact ⟨fun _ => Or.inr h2, fun _ => by omega⟩
    · exact iff_of_false (by decide) (not_or.mpr ⟨h1, h2⟩)
  · have hparse : parseVpn v = ⟨v % 512, v / 512 % 512, v / 2 ^ 18⟩ := by
      rw [parseVpn_eq, show v / 262144 % 512 = v / 2 ^ 18 by omega]
    by_cases hin : v / 2 ^ 18 = textStart / 2 ^ 30
    · have hw : m' b (parseVpn v).vpn2 = v / 2 ^ 18 * 2 ^ 28 + 0xf := by
        rw [hparse]
        dsimp only
        rw [hentries _ (by omega), bootEntry, if_neg (by omega), if_pos hin]
      rw [if_pos hin, translate_gigabyte (by omega) (by decide) (by decide) hw, hparse]
      dsimp only
      congr 2
      omega
    · have hw : m' b (parseVpn v).vpn2 = 0 := by
        rw [hparse]
        dsimp only
        rw [hentries _ (by omega), bootEntry, if_neg (by omega), if_neg hin]
      rw [if_neg hin, translate_huge hw (by decide)]
      exact decode_of_invalid (by decide) _ _
  · intro l m₀ a₀ t k halloc hinit vpn ppn f hv htr
    obtain ⟨rfl, hppn, hf⟩ := initKernelSatp_direct halloc hinit vpn ppn f hv htr
    have hsub : ∀ f < 16, f &&& (pteFlagRwxv ||| 1 <<< 8) = f ∧
        (pteFlagRwxv ||| 1 <<< 8) &&& PTE.flagU = f &&& PTE.flagU := by decide
    exact ⟨_, hhigh ppn hppn, hsub f hf⟩

/-- The table after the text of a kernel of half a megabyte. -/
theorem bootPgt_maps_sample : ∃ m',
    activateBootPgt 513 (0x80280 * 4096) 0x80200000 (fun _ _ => 0) = some (m', satpValue 0x80280) ∧
      translate m' 0x80280 0x80200 = some (0x80200, pteFlagRwxv) := by
  obtain ⟨m', hrun, -, -, -, hlow, -⟩ :=
    bootPgt_maps (show 0x80280 < 2 ^ 26 by decide) (show 0x80200000 < 2 ^ 38 by decide) fun _ _ => 0
  exact ⟨m', hrun, by rw [hlow 0x80200 (by decide), if_pos (by decide)]⟩

end RCoreKernel.Mm
