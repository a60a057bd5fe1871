import RCoreKernel.Mm.Walk

/-!
# Encodings of page numbers

Page numbers are packed into page table entries and into `satp`, split into indices by `parse_vpn`
and put together again by `unmap`.  Each of these is undone by its counterpart.

* `PTE.new_decodes` — an entry gives back its page number and its flags;
* `getKernelSatpPpn_getSatp` — so does `satp`;
* `VPN.parse_fromVa` — the indices of a canonical address;
* `Parsed.recompose_lt` — `unmap` visits the page numbers in their order;
* `codecs_agree` — all of them together.
-/

namespace RCoreKernel.Mm

/-- `get_kernel_satp_ppn`, with the value that `get_kernel_satp` returns. -/
def getKernelSatpPpn (satp : ℕ) : Option ℕ :=
  PPN.fromPa (wrap ((satp &&& 0xfffffffffff) <<< pageSizeOrder))

/-- The indices that the Sv39 walk takes from an address. -/
def walkIndices (va : ℕ) : Parsed :=
  ⟨va / 2 ^ 12 % 2 ^ 9, va / 2 ^ 21 % 2 ^ 9, va / 2 ^ 30 % 2 ^ 9⟩

/-- The page number that `unmap` computes from the indices. -/
def Parsed.recompose (p : Parsed) : ℕ := (p.vpn2 <<< 18) + (p.vpn1 <<< 9) + p.vpn0

/-- The order of the loops of `unmap`. -/
def Parsed.Before (p q : Parsed) : Prop :=
  p.vpn2 < q.vpn2 ∨ p.vpn2 = q.vpn2 ∧ (p.vpn1 < q.vpn1 ∨ p.vpn1 = q.vpn1 ∧ p.vpn0 < q.vpn0)

/-- The indices are indices of a table. -/
def Parsed.InTable (p : Parsed) : Prop := p.vpn2 < 512 ∧ p.vpn1 < 512 ∧ p.vpn0 < 512

theorem PPN.lt_of_fromPa {pa ppn : ℕ} (h : PPN.fromPa pa = some ppn) : ppn < 2 ^ 44 := by
  obtain ⟨hlt, rfl⟩ := PPN.fromPa_eq_some h
  omega

theorem PPN.fromPa_shiftLeft {ppn : ℕ} (h : ppn < 2 ^ 44) :
    PPN.fromPa (ppn <<< pageSizeOrder) = some ppn := by
  have hv : PPN.isValidPa (ppn <<< pageSizeOrder) = true := by
    simp only [PPN.isValidPa, PPN.maxPa, pageSizeOrder, Nat.shiftLeft_eq, decide_eq_true_eq]
    omega
  rw [PPN.fromPa, if_pos hv, Nat.shiftLeft_shiftRight]

/-- An entry gives back its page number and its flags. -/
theorem PTE.new_decodes {ppn flags pte : ℕ} (hppn : ppn < 2 ^ 44) (h : PTE.new ppn flags = .ok pte) :
    PTE.getPpn pte = ppn ∧ pte &&& PTE.allFlags = flags ∧ PTE.isValid pte = true := by
  obtain ⟨hflags, rfl⟩ := PTE.new_eq_ok hppn h
  obtain ⟨hlt, hodd, -⟩ := PTE.isValidFlags_iff.mp hflags
  refine ⟨?_, ?_, ?_⟩
  · rw [PTE.getPpn_eq]
    omega
  · rw [show PTE.allFlags = 2 ^ 10 - 1 from rfl, Nat.and_two_pow_sub_one_eq_mod]
    omega
  · rw [PTE.isValid_iff]
    omega

/-- The page number in `satp`. -/
theorem getKernelSatpPpn_getSatp {ppn : ℕ} (hppn : ppn < 2 ^ 44) (pages : List ℕ) :
    getKernelSatpPpn (RootPgt.getSatp ⟨ppn, pages⟩) = some ppn := by
  have hmask : ∀ n : ℕ, n &&& 0xfffffffffff = n % 2 ^ 44 := fun n =>
    Nat.and_two_pow_sub_one_eq_mod n 44
  have hmode : (wrap (8 <<< 60) ||| ppn % 2 ^ 44) % 2 ^ 44 = ppn := by
    rw [Nat.or_mod_two_pow, show wrap (8 <<< 60) % 2 ^ 44 = 0 from rfl, Nat.zero_or, Nat.mod_mod,
      Nat.mod_eq_of_lt hppn]
  have hwrap : wrap (ppn <<< pageSizeOrder) = ppn <<< pageSizeOrder := by
    apply wrap_of_lt
    rw [Nat.shiftLeft_eq, pageSizeOrder]
    omega
  rw [getKernelSatpPpn, RootPgt.getSatp, RootPgt.satpValue, hmask, hmask, hmode, hwrap]
  exact PPN.fromPa_shiftLeft hppn

/-- **The page number of a canonical address, and its indices.** -/
theorem VPN.parse_fromVa {va : ℕ} (hlt : va < 2 ^ 64) (hva : VPN.isValidVa va = true) :
    ∃ vpn, VPN.fromVa va = some vpn ∧ VPN.getVa vpn = va / pageSizeBytes * pageSizeBytes ∧
      parseVpn vpn = walkIndices va := by
  have hvpn : VPN.fromVa va = some (va / 4096) := by
    simp [VPN.fromVa, hva, pageSizeOrder, Nat.shiftRight_eq_div_pow]
  refine ⟨va / 4096, hvpn, ?_, ?_⟩
  · rw [VPN.getVa, Nat.shiftLeft_eq, pageSizeBytes_eq, pageSizeOrder, wrap_of_lt (by omega)]
  · rw [parseVpn_eq, walkIndices, Nat.div_div_eq_div_mul, Nat.div_div_eq_div_mul]
    norm_num

/-- `unmap` finds a user page number again. -/
theorem Parsed.recompose_parseVpn {vpn : ℕ} (h : vpn < 2 ^ 26) :
    (parseVpn vpn).recompose = vpn := by
  rw [parseVpn_user h, Parsed.recompose]
  dsimp only
  rw [Nat.shiftLeft_eq, Nat.shiftLeft_eq]
  omega

/-- The page number grows along the loops. -/
theorem Parsed.recompose_lt {p q : Parsed} (hp : p.InTable) (hq : q.InTable) :
    p.Before q ↔ p.recompose < q.recompose := by
  obtain ⟨hp2, hp1, hp0⟩ := hp
  obtain ⟨hq2, hq1, hq0⟩ := hq
  rw [Parsed.Before, Parsed.recompose, Parsed.recompose, Nat.shiftLeft_eq, Nat.shiftLeft_eq,
    Nat.shiftLeft_eq, Nat.shiftLeft_eq]
  omega

/-- **Encoders and decoders agree.** -/
theorem codecs_agree :
    (∀ pa ppn flags pte, PPN.fromPa pa = some ppn → PTE.new ppn flags = .ok pte →
      PTE.getPpn pte = ppn ∧ PPN.fromPa (PTE.getPpn pte <<< pageSizeOrder) = some ppn ∧
        pte &&& PTE.allFlags = flags ∧ PTE.isValid pte = true) ∧
    (∀ pa ppn pages, PPN.fromPa pa = some ppn →
      getKernelSatpPpn (RootPgt.getSatp ⟨ppn, pages⟩) = some ppn) ∧
    (∀ va < 2 ^ 64, VPN.isValidVa va = true → ∃ vpn, VPN.fromVa va = some vpn ∧
      VPN.getVa vpn = va / pageSizeBytes * pageSizeBytes ∧ parseVpn vpn = walkIndices va) ∧
    (∀ v w, Canonical v → Canonical w → parseVpn v = parseVpn w → v = w) ∧
    (∀ v < 2 ^ 26, (parseVpn v).recompose = v) ∧
    ∀ p q : Parsed, p.InTable → q.InTable → (p.Before q ↔ p.recompose < q.recompose) := by
  refine ⟨fun pa ppn flags pte hpa hnew => ?_, fun pa ppn pages hpa => ?_, fun va hlt hva => ?_,
    fun v w hv hw he => hv.ext hw he, fun v hv => Parsed.recompose_parseVpn hv,
    fun p q hp hq => Parsed.recompose_lt hp hq⟩
  · have hppn := PPN.lt_of_fromPa hpa
    obtain ⟨hget, hflags, hvalid⟩ := PTE.new_decodes hppn hnew
    refine ⟨hget, ?_, hflags, hvalid⟩
    rw [hget]
    exact PPN.fromPa_shiftLeft hppn
  · exact getKernelSatpPpn_getSatp (PPN.lt_of_fromPa hpa) pages
  · exact VPN.parse_fromVa hlt hva

end RCoreKernel.Mm
