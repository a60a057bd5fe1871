import Mathlib.Data.List.Basic

/-!
# Characters and their UTF-8 bytes

The codes of some characters are their UTF-8 bytes exactly when all of them are ASCII.

* `fromUtf8` — the characters that are encoded by some bytes;
* `codes_eq_bytes_iff` — **codes and bytes agree for ASCII only**.
-/

namespace RCoreKernel.Utf8

/-- The characters encoded by `bytes`, if these are valid UTF-8. -/
def fromUtf8 (bytes : List UInt8) : Option (List Char) :=
  bytes.toByteArray.utf8Decode?.map Array.toList

/-- The code point. -/
def code (c : Char) : ℕ := c.val.toNat

theorem fromUtf8_flatMap (chars : List Char) :
    fromUtf8 (chars.flatMap String.utf8EncodeChar) = some chars := by
  have h : (chars.flatMap String.utf8EncodeChar).toByteArray.utf8Decode? = some chars.toArray :=
    List.utf8Decode?_utf8Encode
  rw [fromUtf8, h, Option.map_some]

/-- Only their encoding is read as the characters. -/
theorem fromUtf8_eq_some {bytes : List UInt8} {chars : List Char} :
    fromUtf8 bytes = some chars ↔ bytes = chars.flatMap String.utf8EncodeChar := by
  constructor
  · intro h
    have hsome : bytes.toByteArray.utf8Decode?.isSome = true := by
      rw [fromUtf8, Option.map_eq_some_iff] at h
      obtain ⟨a, ha, -⟩ := h
      rw [ha]
      rfl
    obtain ⟨chars', hchars'⟩ := ByteArray.isSome_utf8Decode?_iff.mp hsome
    have hbytes : bytes = chars'.flatMap String.utf8EncodeChar := by
      rw [List.utf8Encode] at hchars'
      rw [← List.toList_data_toByteArray (l := bytes), hchars', List.toList_data_toByteArray]
    have hboth : some chars' = some chars := by
      rw [← fromUtf8_flatMap chars', ← hbytes, h]
    rw [hbytes, Option.some.inj hboth]
  · rintro rfl
    exact fromUtf8_flatMap chars

/-- One byte below 128, or several of which the first is not. -/
theorem utf8EncodeChar_cases (c : Char) :
    (∃ b, String.utf8EncodeChar c = [b] ∧ b.toNat = code c ∧ b.toNat < 128) ∨
      ∃ b b' bs, String.utf8EncodeChar c = b :: b' :: bs ∧ 128 ≤ b.toNat := by
  fun_cases String.utf8EncodeChar c with
  | case1 v h =>
    have hv : v < 128 := by omega
    refine Or.inl ⟨UInt8.ofNat v, rfl, ?_, ?_⟩
    · rw [UInt8.toNat_ofNat', Nat.mod_eq_of_lt (by omega)]
      rfl
    · rw [UInt8.toNat_ofNat']
      omega
  | case2 v h h' =>
    refine Or.inr ⟨_, _, _, rfl, ?_⟩
    rw [UInt8.toNat_ofNat']
    omega
  | case3 v h h' h'' =>
    refine Or.inr ⟨_, _, _, rfl, ?_⟩
    rw [UInt8.toNat_ofNat']
    omega
  | case4 v h h' h'' =>
    refine Or.inr ⟨_, _, _, rfl, ?_⟩
    rw [UInt8.toNat_ofNat']
    omega

theorem length_le_flatMap (chars : List Char) :
    chars.length ≤ (chars.flatMap String.utf8EncodeChar).length := by
  induction chars with
  | nil => exact Nat.le_refl _
  | cons c chars ih =>
    rw [List.flatMap_cons, List.length_cons, List.length_append]
    have hpos : 0 < (String.utf8EncodeChar c).length := by
      rw [String.length_utf8EncodeChar]
      exact c.utf8Size_pos
    omega

/-- **Codes and bytes agree for ASCII only.** -/
theorem codes_eq_bytes_iff (chars : List Char) :
    chars.map code = (chars.flatMap String.utf8EncodeChar).map UInt8.toNat ↔
      ∀ b ∈ chars.flatMap String.utf8EncodeChar, b.toNat < 128 := by
  induction chars with
  | nil => simp
  | cons c chars ih =>
    rw [List.flatMap_cons, List.map_cons, List.map_append]
    rcases utf8EncodeChar_cases c with ⟨b, henc, hcode, hlt⟩ | ⟨b, b', bs, henc, hge⟩
    · rw [henc]
      simp only [List.map_cons, List.map_nil, List.cons_append, List.nil_append, List.cons.injEq,
        List.forall_mem_cons, hcode, true_and, ih]
      rw [← hcode]
      exact ⟨fun h => ⟨hlt, h⟩, fun h => h.2⟩
    · -- several bytes for one code, so there are more bytes than codes
      rw [henc]
      constructor
      · intro h
        have hlen := congrArg List.length h
        have hle := length_le_flatMap chars
        simp only [List.length_cons, List.length_map, List.length_append] at hlen
        omega
      · intro h
        have hb := h b (by simp)
        omega

end RCoreKernel.Utf8
