import RCoreKernel.Mm.ViewOps

/-!
# The bytes of a view

* `View.page`, `View.peek` — the bytes of a page number and of an address; a page that is not there
  yet reads as zeros;
* `View.page_fault`, `View.page_store` — what a served fault and a store do to them;
* `page_held` — they are the bytes of the physical page.
-/

namespace RCoreKernel.Mm

open Radix RootPgt VMSpace

namespace View

/-- The bytes of the page with the given number. -/
def page (areas : View) (v : ℕ) : Option (ℕ → ℕ) :=
  (areas.find? (inArea v)).bind fun x => x.bind fun a => a.content v

/-- The byte at a virtual address. -/
def peek (areas : View) (va : ℕ) : ℕ :=
  ((areas.page (va / 4096)).map fun bytes => bytes (va % 4096)).getD 0

/-- A change of one area that keeps its bounds, and its pages but one. -/
theorem page_modify (areas : View) (v w : ℕ) {f : UserArea → UserArea}
    (hbounds : ∀ a, (f a).startVpn = a.startVpn ∧ (f a).endVpn = a.endVpn)
    (hothers : ∀ a u, u ≠ v → (f a).content u = a.content u) :
    (areas.modify v f).page w =
      if w = v then (areas.find? (inArea v)).bind fun x => x.bind fun a => (f a).content v
      else areas.page w := by
  unfold page modify
  induction areas with
  | nil => simp [Vec.modifyFind]
  | cons x xs ih =>
    cases x with
    | none => simpa [Vec.modifyFind, inArea] using ih
    | some a =>
      have hin : ∀ u, inArea u (some (f a)) = inArea u (some a) := by
        intro u
        simp only [inArea, hbounds]
      rw [Vec.modifyFind]
      cases hv : inArea v (some a) with
      | true =>
        rw [if_pos rfl, Option.map_some, List.find?_cons, hin]
        by_cases hw : w = v
        · subst hw
          rw [hv, if_pos rfl, List.find?_cons, hv]
          rfl
        · rw [if_neg hw, List.find?_cons]
          cases inArea w (some a) with
          | true => exact hothers a w hw
          | false => rfl
      | false =>
        rw [if_neg (by simp), List.find?_cons]
        cases hw : inArea w (some a) with
        | true =>
          have hne : w ≠ v := by
            rintro rfl
            rw [hv] at hw
            cases hw
          rw [if_neg hne, List.find?_cons, hw]
        | false => rw [ih, List.find?_cons, hv, List.find?_cons, hw]

/-- A served fault brings a page of zeros at most. -/
theorem page_fault (areas : View) (v minPermissions w : ℕ) :
    (areas.fault v minPermissions).page w = areas.page w ∨
      w = v ∧ areas.page w = none ∧
        (areas.fault v minPermissions).page w = some fun _ => 0 := by
  rw [fault, page_modify]
  · by_cases hw : w = v
    · subst hw
      rw [if_pos rfl, page]
      cases areas.find? (inArea w) with
      | none => exact Or.inl rfl
      | some x =>
        cases x with
        | none => exact Or.inl rfl
        | some a =>
          simp only [Option.bind_some]
          split
          · rename_i hserved
            exact Or.inr ⟨trivial, hserved.2.2, Function.update_self ..⟩
          · exact Or.inl rfl
    · rw [if_neg hw]
      exact Or.inl rfl
  · intro a
    split <;> exact ⟨rfl, rfl⟩
  · intro a u hu
    split
    · exact Function.update_of_ne hu ..
    · rfl

theorem peek_fault (areas : View) (v minPermissions va : ℕ) :
    (areas.fault v minPermissions).peek va = areas.peek va := by
  unfold peek
  rcases page_fault areas v minPermissions (va / 4096) with h | ⟨-, hnone, hzero⟩
  · rw [h]
  · rw [hnone, hzero]
    rfl

theorem page_store (areas : View) (va byte w : ℕ) :
    (areas.store va byte).page w = if w = va / 4096 then
      (areas.page w).map fun bytes => Function.update bytes (va % 4096) byte else areas.page w := by
  rw [store, page_modify]
  · split
    · rename_i hw
      subst hw
      rw [page]
      cases areas.find? (inArea (va / 4096)) with
      | none => rfl
      | some x =>
        cases x with
        | none => rfl
        | some a => exact Function.update_self ..
    · rfl
  · exact fun a => ⟨rfl, rfl⟩
  · exact fun a u hu => Function.update_of_ne hu ..

/-- A store changes one byte. -/
theorem peek_store {areas : View} {va : ℕ} (hpage : (areas.page (va / 4096)).isSome = true)
    (byte other : ℕ) :
    (areas.store va byte).peek other = if other = va then byte else areas.peek other := by
  unfold peek
  rw [page_store]
  by_cases ho : other / 4096 = va / 4096
  · rw [if_pos ho, ho]
    obtain ⟨bytes, hbytes⟩ := Option.isSome_iff_exists.mp hpage
    rw [hbytes]
    simp only [Option.map_some, Option.getD_some]
    by_cases heq : other = va
    · rw [if_pos heq, heq, Function.update_self]
    · rw [if_neg heq, Function.update_of_ne]
      omega
  · rw [if_neg ho, if_neg]
    rintro rfl
    exact ho rfl

end View

variable {img : KernelImage} {m : Mem} {s : VMSpace} {v page : ℕ}

/-- The page of an area holds the bytes. -/
theorem page_held (hok : SpaceOk img m s) (hv : v < userEndVpn) (hheld : s.Holds v page) :
    (s.view m).page v = some (pageBytes m page) := by
  obtain ⟨a, ha, hav, hmem⟩ := hheld
  have hfind : s.areas.find? (fun a => a.containVpn v) = some a := by
    obtain ⟨b, hb⟩ : ∃ b, s.areas.find? (fun a => a.containVpn v) = some b := by
      cases hf : s.areas.find? fun a => a.containVpn v with
      | none => exact absurd hav (by simpa using List.find?_eq_none.mp hf a ha)
      | some b => exact ⟨b, rfl⟩
    have hbv : b.containVpn v = true := by simpa using List.find?_some hb
    rw [hb, hok.agrees.area_unique (List.mem_of_find?_eq_some hb) ha hbv hav]
  have hanon : a.mapType = .anonymous := by
    rcases hok.placement a ha with ⟨hanon, -⟩ | ⟨-, hstart, -⟩
    · exact hanon
    · have hcon := VMArea.containVpn_iff.mp hav
      rw [userEndVpn_eq] at hv
      omega
  rw [View.page, view_find hok (lt_of_lt_userEnd hv), hfind, Option.map_some, Option.bind_some,
    VMArea.view_anonymous hanon, Option.bind_some]
  show (a.pages.get? v).map (pageBytes m) = _
  rw [BTreeMap.get?_eq_some.mpr hmem, Option.map_some]

/-- The byte behind a user address. -/
theorem peek_held (hok : SpaceOk img m s) {va : ℕ} (hv : va / 4096 < userEndVpn)
    (hheld : s.Holds (va / 4096) page) : (s.view m).peek va = byteAt m page (va % 4096) := by
  rw [View.peek, page_held hok hv hheld, Option.map_some, Option.getD_some, pageBytes,
    if_pos (Nat.mod_lt _ (by decide))]

end RCoreKernel.Mm
