import RCoreKernel.Mm.Sv39

/-!
# `RootPgt::unmap` on user ranges

The three nested loops share the start indices, and the end of the range is only tested in the
innermost one.  Over missing tables the walk therefore runs on, past the end of the range and
into the kernel half, where it must meet a level-0 table before any large page.

The argument is one relation, `Swept m m' start end pos`: relative to the memory `m` before the
call, the level-0 entries from `start` up to the current position `pos`, but below `end`, are
zero in `m'`, and nothing else has changed.  Skipping a missing table moves the position, since
the entries below it already read as zero.

* `unmap_user` — **the range is cleared**: for `start < end ≤ VPN(USER_SPACE_END)` the call
  succeeds, exactly the level-0 entries of the range become zero, and no intermediate entry
  and no page outside the tables is written.
-/

namespace RCoreKernel.Mm

open Radix

namespace RootPgt

/-- Root slots of the user half. -/
def UserHalf (i : ℕ) : Prop := i < 256

/-- The page number with indices `a`, `b` and `c`. -/
def vpnOf (a b c : ℕ) : ℕ := a * 262144 + b * 512 + c

theorem parseVpn_vpnOf {a b c : ℕ} (ha : a < 512) (hb : b < 512) (hc : c < 512) :
    parseVpn (vpnOf a b c) = ⟨c, b, a⟩ := by
  simp only [parseVpn_eq, vpnOf, Parsed.mk.injEq]
  omega

/-- The level-0 entry of a user page number. -/
theorem pteAt_user {m : Mem} {r v : ℕ} (h : v < 2 ^ 26) :
    pteAt m r v = leaf PTE.child 0 m r (v / 262144) (v / 512 % 512) (v % 512) := by
  rw [pteAt, parseVpn_user h]

theorem userHalf_of_lt {v : ℕ} (h : v < 2 ^ 26) : UserHalf (v / 262144) := by
  unfold UserHalf
  omega

theorem pteAt_setLeaf {m : Mem} {r q a b c w v : ℕ} {nodes : List ℕ}
    (t : Tree PTE.child UserHalf m r nodes) (ha : UserHalf a) (hb : b < 512) (hc : c < 512)
    (hq : bottom PTE.child m r a b = some q) (hv : v < 2 ^ 26) :
    pteAt (put m q c w) r v = if v = vpnOf a b c then w else pteAt m r v := by
  rw [pteAt_user hv, pteAt_user hv, t.leaf_setLeaf ha hq (userHalf_of_lt hv)]
  have : (v / 262144 = a ∧ v / 512 % 512 = b ∧ v % 512 = c) ↔ v = vpnOf a b c := by
    unfold vpnOf
    omega
  simp only [this]

/-- Progress of a sweep from `m` to `m'` that has reached the position `pos`. -/
structure Swept (m m' : Mem) (r : ℕ) (nodes : List ℕ) (startVpn endVpn pos : ℕ) : Prop where
  tree : Tree PTE.child UserHalf m' r nodes
  frame : ∀ p, p ∉ nodes → m' p = m p
  root_eq : m' r = m r
  mid_eq : ∀ {i p}, UserHalf i → mid PTE.child m r i = some p → m' p = m p
  pte_eq : ∀ {v}, v < 2 ^ 26 → pteAt m' r v =
    if startVpn ≤ v ∧ v < pos ∧ v < endVpn then 0 else pteAt m r v

variable {m m₁ m₂ : Mem} {r startVpn endVpn pos i j c : ℕ} {nodes : List ℕ}

theorem Swept.refl (t : Tree PTE.child UserHalf m r nodes) : Swept m m r nodes startVpn endVpn startVpn where
  tree := t
  frame _ _ := rfl
  root_eq := rfl
  mid_eq _ _ := rfl
  pte_eq _ := by
    rw [if_neg]
    omega

theorem Swept.mid_congr (s : Swept m m₁ r nodes startVpn endVpn pos) :
    mid PTE.child m₁ r i = mid PTE.child m r i := by
  simp [mid, s.root_eq]

theorem Swept.bottom_congr (s : Swept m m₁ r nodes startVpn endVpn pos) (hi : UserHalf i) :
    bottom PTE.child m₁ r i j = bottom PTE.child m r i j := by
  unfold bottom
  rw [s.mid_congr]
  cases h : mid PTE.child m r i with
  | none => rfl
  | some p => simp [s.mid_eq hi h]

/-- Passing over page numbers whose entries read as zero. -/
theorem Swept.skip (s : Swept m m₁ r nodes startVpn endVpn pos) {pos' : ℕ}
    (hle : pos ≤ pos') (hz : ∀ {v}, v < 2 ^ 26 → pos ≤ v → v < pos' → pteAt m r v = 0) :
    Swept m m₁ r nodes startVpn endVpn pos' where
  tree := s.tree
  frame := s.frame
  root_eq := s.root_eq
  mid_eq := s.mid_eq
  pte_eq {v} hv := by
    rw [s.pte_eq hv]
    by_cases h : pos ≤ v ∧ v < pos'
    · rw [hz hv h.1 h.2]
      simp
    · have : (startVpn ≤ v ∧ v < pos ∧ v < endVpn) ↔ (startVpn ≤ v ∧ v < pos' ∧ v < endVpn) := by
        omega
      simp only [this]

/-- One write of the innermost loop. -/
theorem Swept.clear (s : Swept m m₁ r nodes startVpn endVpn (vpnOf i j c)) {q : ℕ}
    (hi : UserHalf i) (hj : j < 512) (hc : c < 512) (hq : bottom PTE.child m r i j = some q)
    (hstart : startVpn ≤ vpnOf i j c) (hend : vpnOf i j c < endVpn) :
    Swept m (put m₁ q c 0) r nodes startVpn endVpn (vpnOf i j (c + 1)) := by
  have hq₁ : bottom PTE.child m₁ r i j = some q := by rw [s.bottom_congr hi, hq]
  obtain ⟨hmem, hne⟩ := s.tree.bottom_mem hi hq₁
  refine ⟨s.tree.setLeaf hi hq₁, ?_, ?_, ?_, ?_⟩
  · intro p hp
    have : p ≠ q := fun e => hp (e ▸ hmem)
    rw [← s.frame p hp]
    funext x
    simp [this]
  · rw [← s.root_eq]
    funext x
    simp [hne.symm]
  · intro a p ha hp
    rw [← s.mid_eq ha hp]
    have hp₁ : mid PTE.child m₁ r a = some p := by rw [s.mid_congr, hp]
    have := s.tree.mid_ne_bottom ha hi hp₁ hq₁
    funext x
    simp [this]
  · intro v hv
    rw [pteAt_setLeaf s.tree hi hj hc hq₁ hv, s.pte_eq hv]
    by_cases h : v = vpnOf i j c
    · rw [if_pos h, if_pos]
      unfold vpnOf at *
      omega
    · have : (startVpn ≤ v ∧ v < vpnOf i j c ∧ v < endVpn) ↔
          (startVpn ≤ v ∧ v < vpnOf i j (c + 1) ∧ v < endVpn) := by
        unfold vpnOf at *
        omega
      simp only [if_neg h, this]

/-- The innermost loop, from slot `c` on. -/
theorem unmapTable0_swept {q : ℕ} (hi : UserHalf i) (hj : j < 512)
    (hq : bottom PTE.child m r i j = some q) :
    ∀ (n c : ℕ) (m₁ : Mem), c + n = 512 → startVpn ≤ vpnOf i j c →
      Swept m m₁ r nodes startVpn endVpn (vpnOf i j c) →
      ∃ m₂ pos, Swept m m₂ r nodes startVpn endVpn pos ∧
        ((unmapTable0 m₁ q i j endVpn (List.range' c n) = (m₂, .more) ∧ pos = vpnOf i j 512) ∨
          (unmapTable0 m₁ q i j endVpn (List.range' c n) = (m₂, .done) ∧ endVpn ≤ pos)) := by
  intro n
  induction n with
  | zero =>
    intro c m₁ hc _ s
    obtain rfl : c = 512 := by omega
    exact ⟨m₁, _, s, Or.inl ⟨rfl, rfl⟩⟩
  | succ n ih =>
    intro c m₁ hc hstart s
    have hpos : (i <<< 18) + (j <<< 9) + c = vpnOf i j c := by
      simp only [vpnOf, Nat.shiftLeft_eq]
    rw [List.range'_succ, unmapTable0, hpos]
    by_cases hend : endVpn ≤ vpnOf i j c
    · exact ⟨m₁, _, s, Or.inr ⟨by rw [if_pos hend], hend⟩⟩
    · rw [if_neg hend]
      have hs := s.clear hi hj (by omega) hq hstart (by omega)
      refine ih (c + 1) _ (by omega) ?_ hs
      unfold vpnOf at *
      omega

/-- Entries below a missing level-0 table read as zero. -/
theorem pteAt_of_bottom_none {v : ℕ} (hv : v < 2 ^ 26)
    (h : bottom PTE.child m r (v / 262144) (v / 512 % 512) = none) : pteAt m r v = 0 := by
  rw [pteAt_user hv]
  exact leaf_of_bottom_none h _

/-- The middle loop, from slot `j` on.  The first level-0 table is entered at slot `c`. -/
theorem unmapTable1_swept {p : ℕ} (hi : UserHalf i) (hp : mid PTE.child m r i = some p)
    (hn : Interior PTE.child (fun w => PTE.isLeaf w = false) UserHalf m r) :
    ∀ (n j c : ℕ) (m₁ : Mem), j + n = 512 → c < 512 → startVpn ≤ vpnOf i j c →
      Swept m m₁ r nodes startVpn endVpn (vpnOf i j c) →
      ∃ m₂ pos, Swept m m₂ r nodes startVpn endVpn pos ∧
        ((∃ c', unmapTable1 m₁ p i endVpn c (List.range' j n) = (m₂, c', .more) ∧
            pos = vpnOf i 512 c' ∧ (0 < n → c' = 0)) ∨
          (∃ c', unmapTable1 m₁ p i endVpn c (List.range' j n) = (m₂, c', .done) ∧
            endVpn ≤ pos)) := by
  intro n
  induction n with
  | zero =>
    intro j c m₁ hj _ _ s
    obtain rfl : j = 512 := by omega
    exact ⟨m₁, _, s, Or.inl ⟨c, rfl, rfl, by omega⟩⟩
  | succ n ih =>
    intro j c m₁ hj hc hstart s
    rw [List.range'_succ, unmapTable1]
    have hword : m₁ p j = m p j := by rw [s.mid_eq hi hp]
    have hleaf : PTE.isLeaf (m p j) = false := hn.inner hi hp j
    simp only [hword, hleaf, Bool.false_eq_true, if_false]
    have hle : vpnOf i j c ≤ vpnOf i (j + 1) 0 := by unfold vpnOf; omega
    -- the loop continues at slot `j + 1` with `parsed_vpn[0]` reset
    have hnext : ∀ m₂, Swept m m₂ r nodes startVpn endVpn (vpnOf i (j + 1) 0) →
        ∃ m₃ pos, Swept m m₃ r nodes startVpn endVpn pos ∧
          ((∃ c', unmapTable1 m₂ p i endVpn 0 (List.range' (j + 1) n) = (m₃, c', .more) ∧
              pos = vpnOf i 512 c' ∧ (0 < n + 1 → c' = 0)) ∨
            (∃ c', unmapTable1 m₂ p i endVpn 0 (List.range' (j + 1) n) = (m₃, c', .done) ∧
              endVpn ≤ pos)) := by
      intro m₂ s₂
      obtain ⟨m₃, pos, s₃, h⟩ :=
        ih (j + 1) 0 m₂ (by omega) (by omega) (hstart.trans hle) s₂
      refine ⟨m₃, pos, s₃, h.imp ?_ id⟩
      rintro ⟨c', h1, h2, h3⟩
      refine ⟨c', h1, h2, fun _ => ?_⟩
      rcases Nat.eq_zero_or_pos n with rfl | hpos
      · cases h1
        rfl
      · exact h3 hpos
    by_cases hv : PTE.isValid (m p j) = true
    · have hq : bottom PTE.child m r i j = some (PTE.getPpn (m p j)) :=
        bottom_eq_some.mpr ⟨p, hp, PTE.child_of_valid hv hleaf⟩
      simp only [hv, Bool.not_true, Bool.false_eq_true, if_false]
      obtain ⟨m₂, pos, s₂, ⟨h, rfl⟩ | ⟨h, hend⟩⟩ :=
        unmapTable0_swept hi (by omega) hq (512 - c) c m₁ (by omega) hstart s
      · rw [ptesPerTable_eq, h]
        refine hnext m₂ ?_
        rwa [show vpnOf i (j + 1) 0 = vpnOf i j 512 from by unfold vpnOf; omega]
      · rw [ptesPerTable_eq, h]
        exact ⟨m₂, pos, s₂, Or.inr ⟨c, rfl, hend⟩⟩
    · have hv : PTE.isValid (m p j) = false := by simpa using hv
      simp only [hv, Bool.not_false, if_true]
      refine hnext m₁ (s.skip hle ?_)
      intro v hlt hlo hhi
      apply pteAt_of_bottom_none hlt
      have h1 : v / 262144 = i := by unfold vpnOf at *; omega
      have h2 : v / 512 % 512 = j := by unfold vpnOf at *; omega
      rw [h1, h2, bottom, hp]
      exact PTE.child_of_not_valid hv

/-- The first slot of the kernel half leads to a level-0 table through its first slot, so that a
walk that runs into the kernel half stops there. -/
def StopsUnmap (m : Mem) (r : ℕ) : Prop :=
  ∃ p q, PTE.child (m r 256) = some p ∧ PTE.child (m p 0) = some q

theorem unmapTable2_stop {p q : ℕ} (hp : PTE.child (m r 256) = some p)
    (hq : PTE.child (m p 0) = some q) (hend : endVpn ≤ 2 ^ 26) (n : ℕ) :
    unmapTable2 m r endVpn 0 0 (List.range' 256 (n + 1)) = (m, .done) := by
  have h1 := PTE.child_eq_some.mp hp
  have h2 := PTE.child_eq_some.mp hq
  have hv1 : PTE.isValid (m r 256) = true := PTE.isValid_iff.mpr h1.1
  have hl1 : PTE.isLeaf (m r 256) = false := by
    rw [← Bool.not_eq_true, PTE.isLeaf_iff]
    omega
  have hv2 : PTE.isValid (m p 0) = true := PTE.isValid_iff.mpr h2.1
  have hl2 : PTE.isLeaf (m p 0) = false := by
    rw [← Bool.not_eq_true, PTE.isLeaf_iff]
    omega
  have hstop : endVpn ≤ (256 <<< 18) + (0 <<< 9) + 0 := hend
  rw [List.range'_succ, unmapTable2]
  simp only [hv1, hl1, Bool.not_true, Bool.false_eq_true, if_false, h1.2.2, ptesPerTable]
  rw [show 512 - 0 = 511 + 1 from rfl, List.range'_succ, unmapTable1]
  simp only [hv2, hl2, Bool.not_true, Bool.false_eq_true, if_false, h2.2.2, ptesPerTable]
  rw [show 512 - 0 = 511 + 1 from rfl, List.range'_succ, unmapTable0, if_pos hstop]

/-- The outer loop over the user half, from slot `i` on. -/
theorem unmapTable2_swept (hn : Interior PTE.child (fun w => PTE.isLeaf w = false) UserHalf m r)
    (hnodes : ∀ p, PTE.child (m r 256) = some p → p ∉ nodes) (hstop : StopsUnmap m r)
    (hend : endVpn ≤ 2 ^ 26) :
    ∀ (n i j c : ℕ) (m₁ : Mem), i + n = 256 → (n = 0 → j = 0 ∧ c = 0) → j < 512 → c < 512 →
      startVpn ≤ vpnOf i j c → Swept m m₁ r nodes startVpn endVpn (vpnOf i j c) →
      ∃ m₂ pos, Swept m m₂ r nodes startVpn endVpn pos ∧ endVpn ≤ pos ∧
        unmapTable2 m₁ r endVpn j c (List.range' i (n + 256)) = (m₂, .done) := by
  intro n
  induction n with
  | zero =>
    intro i j c m₁ hi h0 _ _ _ s
    obtain ⟨rfl, rfl⟩ := h0 rfl
    obtain rfl : i = 256 := by omega
    obtain ⟨p, q, hp, hq⟩ := hstop
    have hp₁ : PTE.child (m₁ r 256) = some p := by rw [s.root_eq, hp]
    have hq₁ : PTE.child (m₁ p 0) = some q := by rw [s.frame p (hnodes p hp), hq]
    refine ⟨m₁, _, s, ?_, unmapTable2_stop hp₁ hq₁ hend 255⟩
    simp only [vpnOf]
    omega
  | succ n ih =>
    intro i j c m₁ hi _ hj hc hstart s
    have hi' : UserHalf i := by unfold UserHalf; omega
    rw [show n + 1 + 256 = (n + 256) + 1 from by omega, List.range'_succ, unmapTable2]
    have hword : m₁ r i = m r i := by rw [s.root_eq]
    have hleaf : PTE.isLeaf (m r i) = false := hn.top hi'
    simp only [hword, hleaf, Bool.false_eq_true, if_false]
    have hle : vpnOf i j c ≤ vpnOf (i + 1) 0 0 := by unfold vpnOf; omega
    have hnext : ∀ m₂, Swept m m₂ r nodes startVpn endVpn (vpnOf (i + 1) 0 0) →
        ∃ m₃ pos, Swept m m₃ r nodes startVpn endVpn pos ∧ endVpn ≤ pos ∧
          unmapTable2 m₂ r endVpn 0 0 (List.range' (i + 1) (n + 256)) = (m₃, .done) := by
      intro m₂ s₂
      exact ih (i + 1) 0 0 m₂ (by omega) (fun _ => ⟨rfl, rfl⟩) (by omega) (by omega)
        (hstart.trans hle) s₂
    by_cases hv : PTE.isValid (m r i) = true
    · have hp : mid PTE.child m r i = some (PTE.getPpn (m r i)) := PTE.child_of_valid hv hleaf
      simp only [hv, Bool.not_true, Bool.false_eq_true, if_false]
      obtain ⟨m₂, pos, s₂, ⟨c', h, rfl, h0⟩ | ⟨c', h, hdone⟩⟩ :=
        unmapTable1_swept hi' hp hn (512 - j) j c m₁ (by omega) hc hstart s
      · rw [ptesPerTable_eq, h]
        obtain rfl : c' = 0 := h0 (by omega)
        refine hnext m₂ ?_
        rwa [show vpnOf (i + 1) 0 0 = vpnOf i 512 0 from by unfold vpnOf; omega]
      · rw [ptesPerTable_eq, h]
        exact ⟨m₂, pos, s₂, hdone, rfl⟩
    · have hv : PTE.isValid (m r i) = false := by simpa using hv
      simp only [hv, Bool.not_false, if_true]
      refine hnext m₁ (s.skip hle ?_)
      intro v hlt hlo hhi
      apply pteAt_of_bottom_none hlt
      have h1 : v / 262144 = i := by unfold vpnOf at *; omega
      rw [h1, bottom, show mid PTE.child m r i = none from PTE.child_of_not_valid hv]
      rfl

/-- What `unmap` on a user range does. -/
structure Unmapped (m m' : Mem) (t : RootPgt) (startVpn endVpn : ℕ) : Prop where
  tree : Tree PTE.child UserHalf m' t.ppn t.pages
  frame : ∀ p, p ∉ t.pages → m' p = m p
  root_eq : m' t.ppn = m t.ppn
  mid_eq : ∀ {i p}, UserHalf i → mid PTE.child m t.ppn i = some p → m' p = m p
  pte_eq : ∀ {v}, v < 2 ^ 26 → pteAt m' t.ppn v =
    if startVpn ≤ v ∧ v < endVpn then 0 else pteAt m t.ppn v

/-- What holds of the entries above level 0 still holds. -/
theorem Unmapped.interior {good : ℕ → Prop} {t : RootPgt} {lo hi : ℕ} (u : Unmapped m m' t lo hi)
    (h : Interior PTE.child good UserHalf m t.ppn) : Interior PTE.child good UserHalf m' t.ppn := by
  refine ⟨fun {i} hi => ?_, fun {i p} hi hp j => ?_⟩
  · rw [u.root_eq]
    exact h.top hi
  · have hp' : mid PTE.child m t.ppn i = some p := by
      rw [mid, ← u.root_eq]
      exact hp
    rw [u.mid_eq hi hp']
    exact h.inner hi hp' j

/-- **The range is cleared, and only the range.** -/
theorem unmap_user {t : RootPgt} (ht : Tree PTE.child UserHalf m t.ppn t.pages)
    (hn : Interior PTE.child (fun w => PTE.isLeaf w = false) UserHalf m t.ppn)
    (hnodes : ∀ p, PTE.child (m t.ppn 256) = some p → p ∉ t.pages) (hstop : StopsUnmap m t.ppn)
    (hend : endVpn ≤ userEndVpn) :
    ∃ m', unmap m t startVpn endVpn = (m', .done) ∧ Unmapped m m' t startVpn endVpn := by
  rw [userEndVpn_eq] at hend
  unfold unmap
  by_cases hempty : endVpn ≤ startVpn
  · refine ⟨m, by rw [if_pos hempty], ht, fun _ _ => rfl, rfl, fun _ _ => rfl, fun _ => ?_⟩
    rw [if_neg]
    omega
  · have hparse : parseVpn startVpn = ⟨startVpn % 512, startVpn / 512 % 512, startVpn / 262144⟩ :=
      parseVpn_user (by omega)
    have hof : vpnOf (startVpn / 262144) (startVpn / 512 % 512) (startVpn % 512) = startVpn := by
      unfold vpnOf
      exact vpn_recompose startVpn
    have hrefl : Swept m m t.ppn t.pages startVpn endVpn
        (vpnOf (startVpn / 262144) (startVpn / 512 % 512) (startVpn % 512)) := by
      rw [hof]
      exact Swept.refl ht
    have hpos : startVpn ≤ vpnOf (startVpn / 262144) (startVpn / 512 % 512) (startVpn % 512) := hof.ge
    obtain ⟨m', pos, s, hle, h⟩ := unmapTable2_swept hn hnodes hstop
      (by omega : endVpn ≤ 2 ^ 26) (256 - startVpn / 262144) (startVpn / 262144)
      (startVpn / 512 % 512) (startVpn % 512) m (by omega) (by omega) (by omega) (by omega)
      (by omega) hrefl
    refine ⟨m', ?_, s.tree, s.frame, s.root_eq, s.mid_eq, ?_⟩
    · have hlen : 512 - startVpn / 262144 = 256 - startVpn / 262144 + 256 := by omega
      rw [if_neg hempty, hparse]
      dsimp only
      rw [ptesPerTable_eq, hlen]
      exact h
    · intro v hv
      rw [s.pte_eq hv]
      have : (startVpn ≤ v ∧ v < pos ∧ v < endVpn) ↔ (startVpn ≤ v ∧ v < endVpn) := by omega
      simp only [this]

end RootPgt

end RCoreKernel.Mm
