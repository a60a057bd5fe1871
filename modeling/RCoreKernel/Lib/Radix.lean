import Mathlib.Data.List.Basic

/-!
# Three-level radix tables stored in a flat memory

A memory `m : P → I → W` assigns a word to every slot `i` of every node `p`.  A word either
refers to a child node (`child w = some q`) or does not.  Starting from a root `r`, two
references lead to a bottom node whose slots hold the leaf words:

* `mid` / `bottom` / `leaf` — the node one step below the root, the node two steps below it,
  and the leaf word (`blank` when the path is missing);
* `Tree` — over a set `U` of root slots, distinct paths lead to distinct nodes, none of them
  is the root, and all of them are listed in `nodes`;
* `Tree.bare` — a root without children;
* `Tree.cutMid` — a middle word is replaced by one without a child;
* `Tree.linkMid`, `Tree.linkBottom`, `Tree.setLeaf` — the three edits (hang a blank node
  below the root, hang a blank node below a middle node, overwrite one leaf word) keep the
  tree and change the leaf words exactly at the edited place;
* `Tree.frame` — only the listed nodes matter;
* `path` — the word at which the walk ends, and how far it got; the same edits change it exactly
  at the edited place;
* `Interior` — a property of every word above the leaf words, kept by the same edits.

Nothing here is specific to a page-table format.
-/

namespace RCoreKernel.Radix

variable {P I W : Type}

/-! ### Memory edits -/

section Edits

variable [DecidableEq P] [DecidableEq I]

/-- Overwrite slot `i` of node `p`. -/
def put (m : P → I → W) (p : P) (i : I) (w : W) : P → I → W :=
  fun q j => if q = p ∧ j = i then w else m q j

/-- Overwrite every slot of node `p` with `w`. -/
def fill (m : P → I → W) (p : P) (w : W) : P → I → W :=
  fun q j => if q = p then w else m q j

/-- Overwrite node `dst` with the slots of node `src`. -/
def copy (m : P → I → W) (src dst : P) : P → I → W :=
  fun q j => if q = dst then m src j else m q j

@[simp, grind =] theorem put_apply (m : P → I → W) (p q : P) (i j : I) (w : W) :
    put m p i w q j = if q = p ∧ j = i then w else m q j := rfl

omit [DecidableEq I] in
@[simp, grind =] theorem fill_apply (m : P → I → W) (p q : P) (j : I) (w : W) :
    fill m p w q j = if q = p then w else m q j := rfl

omit [DecidableEq I] in
@[simp, grind =] theorem copy_apply (m : P → I → W) (src dst q : P) (j : I) :
    copy m src dst q j = if q = dst then m src j else m q j := rfl

end Edits

/-! ### Walking -/

variable (child : W → Option P) (blank : W)

/-- The node below slot `i` of the root. -/
def mid (m : P → I → W) (r : P) (i : I) : Option P := child (m r i)

/-- The node below slot `j` of the node below slot `i` of the root. -/
def bottom (m : P → I → W) (r : P) (i j : I) : Option P :=
  (mid child m r i).bind fun p => child (m p j)

/-- The leaf word on the path `i, j, k`, or `blank` when the path is missing. -/
def leaf (m : P → I → W) (r : P) (i j k : I) : W :=
  ((bottom child m r i j).map fun q => m q k).getD blank

/-- Where a walk ends: at a word of the root, of a middle node or of a bottom node. -/
inductive Stop (W : Type)
  | top (w : W)
  | inner (w : W)
  | leaf (w : W)
  deriving DecidableEq, Repr

def Stop.word : Stop W → W
  | .top w | .inner w | .leaf w => w

@[simp] theorem Stop.word_top (w : W) : (Stop.top w).word = w := rfl
@[simp] theorem Stop.word_inner (w : W) : (Stop.inner w).word = w := rfl
@[simp] theorem Stop.word_leaf (w : W) : (Stop.leaf w).word = w := rfl

/-- The walk along `i, j, k` follows references as far as there are any. -/
def path (m : P → I → W) (r : P) (i j k : I) : Stop W :=
  (child (m r i)).elim (.top (m r i)) fun p =>
    (child (m p j)).elim (.inner (m p j)) fun q => .leaf (m q k)

/-- Over the root slots in `U`, the nodes below `r` are pairwise distinct, differ from `r`, and
are listed in `nodes`. -/
structure Tree (U : I → Prop) (m : P → I → W) (r : P) (nodes : List P) : Prop where
  root_mem : r ∈ nodes
  mid_mem : ∀ {i p}, U i → mid child m r i = some p → p ∈ nodes ∧ p ≠ r
  bottom_mem : ∀ {i j q}, U i → bottom child m r i j = some q → q ∈ nodes ∧ q ≠ r
  mid_inj : ∀ {i i' p}, U i → U i' → mid child m r i = some p → mid child m r i' = some p → i = i'
  bottom_inj : ∀ {i j i' j' q}, U i → U i' → bottom child m r i j = some q →
    bottom child m r i' j' = some q → i = i' ∧ j = j'
  mid_ne_bottom : ∀ {i i' j' p q}, U i → U i' → mid child m r i = some p →
    bottom child m r i' j' = some q → p ≠ q

/-- Every word of the root (in `U`) and of the middle nodes satisfies `good`. -/
structure Interior (good : W → Prop) (U : I → Prop) (m : P → I → W) (r : P) : Prop where
  top : ∀ {i}, U i → good (m r i)
  inner : ∀ {i p}, U i → mid child m r i = some p → ∀ j, good (m p j)

variable {child blank} {U : I → Prop} {m m' : P → I → W} {r : P} {nodes : List P}
  {good : W → Prop}

theorem bottom_eq_some {i j : I} {q : P} :
    bottom child m r i j = some q ↔ ∃ p, mid child m r i = some p ∧ child (m p j) = some q := by
  simp [bottom, Option.bind_eq_some_iff]

theorem leaf_of_bottom {i j : I} {q : P} (h : bottom child m r i j = some q) (k : I) :
    leaf child blank m r i j k = m q k := by
  simp [leaf, h]

theorem leaf_of_bottom_none {i j : I} (h : bottom child m r i j = none) (k : I) :
    leaf child blank m r i j k = blank := by
  simp [leaf, h]

theorem path_of_bottom {i j : I} {q : P} (h : bottom child m r i j = some q) (k : I) :
    path child m r i j k = .leaf (m q k) := by
  obtain ⟨p, hp, hq⟩ := bottom_eq_some.mp h
  rw [path, show child (m r i) = some p from hp, Option.elim_some, hq, Option.elim_some]

theorem path_of_mid {i j : I} {p : P} (h : mid child m r i = some p) (hj : child (m p j) = none)
    (k : I) : path child m r i j k = .inner (m p j) := by
  rw [path, show child (m r i) = some p from h, Option.elim_some, hj, Option.elim_none]

theorem path_of_mid_none {i : I} (h : mid child m r i = none) (j k : I) :
    path child m r i j k = .top (m r i) := by
  rw [path, show child (m r i) = none from h, Option.elim_none]

/-- A walk only depends on the words it reads. -/
theorem path_congr {i j k : I} (h0 : m' r i = m r i)
    (h1 : ∀ p, child (m r i) = some p → m' p j = m p j)
    (h2 : ∀ p q, child (m r i) = some p → child (m p j) = some q → m' q k = m q k) :
    path child m' r i j k = path child m r i j k := by
  unfold path
  rw [h0]
  cases hp : child (m r i) with
  | none => rfl
  | some p =>
    rw [Option.elim_some, Option.elim_some, h1 p hp]
    cases hq : child (m p j) with
    | none => rfl
    | some q => rw [Option.elim_some, Option.elim_some, h2 p q hp hq]

/-- The three ways a walk ends. -/
theorem path_cases (child : W → Option P) (m : P → I → W) (r : P) (i j k : I) :
    (mid child m r i = none ∧ path child m r i j k = .top (m r i)) ∨
      (∃ p, mid child m r i = some p ∧ child (m p j) = none ∧
        path child m r i j k = .inner (m p j)) ∨
      (∃ q, bottom child m r i j = some q ∧ path child m r i j k = .leaf (m q k)) := by
  cases h : mid child m r i with
  | none => exact .inl ⟨rfl, path_of_mid_none h j k⟩
  | some p =>
    cases hj : child (m p j) with
    | none => exact .inr (.inl ⟨p, rfl, hj, path_of_mid h hj k⟩)
    | some q =>
      have hb : bottom child m r i j = some q := bottom_eq_some.mpr ⟨p, h, hj⟩
      exact .inr (.inr ⟨q, hb, path_of_bottom hb k⟩)

/-! ### A root without children -/

section Bare

variable (h : ∀ i, U i → mid child m r i = none)
include h

theorem bottom_bare {i : I} (hi : U i) (j : I) : bottom child m r i j = none := by
  rw [bottom, h i hi]
  rfl

theorem leaf_bare {i : I} (hi : U i) (j k : I) : leaf child blank m r i j k = blank :=
  leaf_of_bottom_none (bottom_bare h hi j) k

theorem Tree.bare : Tree child U m r [r] where
  root_mem := List.mem_singleton_self r
  mid_mem hi hp := by
    rw [h _ hi] at hp
    cases hp
  bottom_mem {_ j _} hi hq := by
    rw [bottom_bare h hi j] at hq
    cases hq
  mid_inj hi _ hp _ := by
    rw [h _ hi] at hp
    cases hp
  bottom_inj {_ j _ _ _} hi _ hq _ := by
    rw [bottom_bare h hi j] at hq
    cases hq
  mid_ne_bottom hi _ hp _ := by
    rw [h _ hi] at hp
    cases hp

theorem Interior.bare (hgood : ∀ {i}, U i → good (m r i)) : Interior child good U m r where
  top := hgood
  inner hi hp := by
    rw [h _ hi] at hp
    cases hp

end Bare

/-! ### Congruence and frames -/

/-- Memories whose words refer to the same children have the same paths. -/
theorem Tree.mid_congr (hr : ∀ i, U i → child (m' r i) = child (m r i)) {i : I} (hi : U i) :
    mid child m' r i = mid child m r i := hr i hi

theorem Tree.bottom_congr (t : Tree child U m r nodes)
    (hr : ∀ i, U i → child (m' r i) = child (m r i))
    (hm : ∀ p ∈ nodes, p ≠ r → ∀ j, child (m' p j) = child (m p j)) {i : I} (hi : U i) (j : I) :
    bottom child m' r i j = bottom child m r i j := by
  have h1 := Tree.mid_congr hr hi
  unfold bottom
  rw [h1]
  cases hp : mid child m r i with
  | none => rfl
  | some p =>
    obtain ⟨hmem, hne⟩ := t.mid_mem hi hp
    simp [hm p hmem hne]

/-- **Frame.**  A tree only depends on the references stored in its listed nodes. -/
theorem Tree.frame (t : Tree child U m r nodes)
    (hr : ∀ i, U i → child (m' r i) = child (m r i))
    (hm : ∀ p ∈ nodes, p ≠ r → ∀ j, child (m' p j) = child (m p j)) : Tree child U m' r nodes where
  root_mem := t.root_mem
  mid_mem hi h := t.mid_mem hi (by rwa [Tree.mid_congr hr hi] at h)
  bottom_mem hi h := t.bottom_mem hi (by rwa [t.bottom_congr hr hm hi] at h)
  mid_inj hi hi' h h' := by
    rw [Tree.mid_congr hr hi] at h
    rw [Tree.mid_congr hr hi'] at h'
    exact t.mid_inj hi hi' h h'
  bottom_inj hi hi' h h' := by
    rw [t.bottom_congr hr hm hi] at h
    rw [t.bottom_congr hr hm hi'] at h'
    exact t.bottom_inj hi hi' h h'
  mid_ne_bottom hi hi' h h' := by
    rw [Tree.mid_congr hr hi] at h
    rw [t.bottom_congr hr hm hi'] at h'
    exact t.mid_ne_bottom hi hi' h h'

/-- A relation between the words of the listed nodes carries over to the leaf words. -/
theorem Tree.leaf_rel (t : Tree child U m r nodes) {R : W → W → Prop} (hb : R blank blank)
    (hr : ∀ i, U i → child (m' r i) = child (m r i))
    (hm : ∀ p ∈ nodes, p ≠ r → ∀ j, child (m' p j) = child (m p j) ∧ R (m' p j) (m p j))
    {i : I} (hi : U i) (j k : I) :
    R (leaf child blank m' r i j k) (leaf child blank m r i j k) := by
  unfold leaf
  rw [t.bottom_congr hr (fun p hp hne j => (hm p hp hne j).1) hi j]
  cases hq : bottom child m r i j with
  | none => exact hb
  | some q =>
    obtain ⟨hmem, hne⟩ := t.bottom_mem hi hq
    exact (hm q hmem hne k).2

/-- A walk only reads listed nodes. -/
theorem Tree.path_frame (t : Tree child U m r nodes) (hm : ∀ p ∈ nodes, m' p = m p) {i : I}
    (hi : U i) (j k : I) : path child m' r i j k = path child m r i j k := by
  refine path_congr (by rw [hm r t.root_mem]) (fun p hp => ?_) fun p q hp hq => ?_
  · rw [hm p (t.mid_mem hi hp).1]
  · have hb : bottom child m r i j = some q := bottom_eq_some.mpr ⟨p, hp, hq⟩
    rw [hm q (t.bottom_mem hi hb).1]

theorem Interior.frame (n : Interior child good U m r) (t : Tree child U m r nodes)
    (hr : ∀ i, U i → child (m' r i) = child (m r i) ∧ (good (m r i) → good (m' r i)))
    (hm : ∀ p ∈ nodes, p ≠ r → ∀ j, good (m p j) → good (m' p j)) :
    Interior child good U m' r where
  top hi := (hr _ hi).2 (n.top hi)
  inner hi h j := by
    rw [Tree.mid_congr (fun i hi => (hr i hi).1) hi] at h
    exact hm _ (t.mid_mem hi h).1 (t.mid_mem hi h).2 j (n.inner hi h j)

/-! ### The three edits -/

section Link

variable [DecidableEq P] [DecidableEq I] {i₀ j₀ k₀ : I} {p p₁ q₀ : P} {w : W}

/-- Hanging the blank node `p` below the empty root slot `i₀`. -/
theorem mid_linkMid (hpr : p ≠ r) (hw : child w = some p) (i : I) :
    mid child (put (fill m p blank) r i₀ w) r i = if i = i₀ then some p else mid child m r i := by
  by_cases h : i = i₀
  · simp [mid, h, hw]
  · simp [mid, h, hpr.symm]

theorem Tree.bottom_linkMid (t : Tree child U m r nodes) (hb : child blank = none)
    (h₀ : mid child m r i₀ = none) (hp : p ∉ nodes) (hw : child w = some p)
    {i : I} (hi : U i) (j : I) :
    bottom child (put (fill m p blank) r i₀ w) r i j = bottom child m r i j := by
  have hpr : p ≠ r := fun h => hp (h ▸ t.root_mem)
  unfold bottom
  rw [mid_linkMid hpr hw]
  by_cases h : i = i₀
  · simp [h, h₀, hpr, hb]
  · cases h1 : mid child m r i with
    | none => simp [h]
    | some p' =>
      obtain ⟨hmem, hne⟩ := t.mid_mem hi h1
      have : p' ≠ p := fun e => hp (e ▸ hmem)
      simp [h, hne, this]

theorem Tree.leaf_linkMid (t : Tree child U m r nodes) (hb : child blank = none)
    (h₀ : mid child m r i₀ = none) (hp : p ∉ nodes) (hw : child w = some p)
    {i : I} (hi : U i) (j k : I) :
    leaf child blank (put (fill m p blank) r i₀ w) r i j k = leaf child blank m r i j k := by
  unfold leaf
  rw [t.bottom_linkMid hb h₀ hp hw hi j]
  cases hq : bottom child m r i j with
  | none => rfl
  | some q =>
    obtain ⟨hmem, hne⟩ := t.bottom_mem hi hq
    have : q ≠ p := fun e => hp (e ▸ hmem)
    simp [hne, this]

theorem Tree.path_linkMid (t : Tree child U m r nodes) (hb : child blank = none)
    (h₀ : mid child m r i₀ = none) (hp : p ∉ nodes) (hw : child w = some p)
    {i : I} (hi : U i) (j k : I) :
    path child (put (fill m p blank) r i₀ w) r i j k =
      if i = i₀ then .inner blank else path child m r i j k := by
  have hpr : p ≠ r := fun h => hp (h ▸ t.root_mem)
  have hmid : ∀ i, mid child (put (fill m p blank) r i₀ w) r i =
      if i = i₀ then some p else mid child m r i := mid_linkMid hpr hw
  by_cases h : i = i₀
  · have h' : mid child (put (fill m p blank) r i₀ w) r i = some p := by rw [hmid, if_pos h]
    have hword : put (fill m p blank) r i₀ w p j = blank := by simp [hpr]
    rw [path_of_mid h' (by rw [hword, hb]), hword, if_pos h]
  · have h' : mid child (put (fill m p blank) r i₀ w) r i = mid child m r i := by
      rw [hmid, if_neg h]
    rw [if_neg h]
    rcases path_cases child m r i j k with ⟨h1, h2⟩ | ⟨q, h1, h2, h3⟩ | ⟨q, h1, h2⟩
    · rw [path_of_mid_none (h'.trans h1), h2]
      simp [h, hpr.symm]
    · obtain ⟨hmem, hne⟩ := t.mid_mem hi h1
      have hqp : q ≠ p := fun e => hp (e ▸ hmem)
      have hword : put (fill m p blank) r i₀ w q j = m q j := by simp [hqp, hne]
      rw [path_of_mid (h'.trans h1) (by rw [hword, h2]), h3, hword]
    · obtain ⟨hmem, hne⟩ := t.bottom_mem hi h1
      have hqp : q ≠ p := fun e => hp (e ▸ hmem)
      rw [path_of_bottom ((t.bottom_linkMid hb h₀ hp hw hi j).trans h1), h2]
      simp [hqp, hne]

theorem Tree.linkMid (t : Tree child U m r nodes) (hb : child blank = none)
    (h₀ : mid child m r i₀ = none) (hp : p ∉ nodes) (hw : child w = some p) :
    Tree child U (put (fill m p blank) r i₀ w) r (nodes ++ [p]) := by
  have hpr : p ≠ r := fun h => hp (h ▸ t.root_mem)
  have hmid : ∀ i, mid child (put (fill m p blank) r i₀ w) r i =
      if i = i₀ then some p else mid child m r i := mid_linkMid hpr hw
  have hbot := fun {i} (hi : U i) j => t.bottom_linkMid hb h₀ hp hw hi j
  have hold : ∀ {i p'}, U i → mid child m r i = some p' → p' ≠ p :=
    fun hi h e => hp (e ▸ (t.mid_mem hi h).1)
  refine ⟨by simp [t.root_mem], ?_, ?_, ?_, ?_, ?_⟩
  · intro i p' hi h
    rw [hmid] at h
    have := @t.mid_mem i p' hi
    grind
  · intro i j q hi h
    rw [hbot hi] at h
    have := t.bottom_mem hi h
    grind
  · intro i i' p' hi hi' h h'
    rw [hmid] at h h'
    have := @t.mid_inj i i' p' hi hi'
    have := @hold i p' hi
    have := @hold i' p' hi'
    grind
  · intro i j i' j' q hi hi' h h'
    rw [hbot hi] at h
    rw [hbot hi'] at h'
    exact t.bottom_inj hi hi' h h'
  · intro i i' j' p' q hi hi' h h'
    rw [hmid] at h
    rw [hbot hi'] at h'
    have := t.bottom_mem hi' h'
    have := @t.mid_ne_bottom i i' j' p' q hi hi'
    grind

/-- Hanging the blank node `p` below the empty slot `j₀` of the middle node `p₁`. -/
theorem Tree.mid_linkBottom (t : Tree child U m r nodes) (hi₀ : U i₀)
    (h₁ : mid child m r i₀ = some p₁) (hp : p ∉ nodes) {i : I} :
    mid child (put (fill m p blank) p₁ j₀ w) r i = mid child m r i := by
  have hpr : p ≠ r := fun h => hp (h ▸ t.root_mem)
  have hne := (t.mid_mem hi₀ h₁).2
  simp [mid, hpr.symm, hne.symm]

theorem Tree.bottom_linkBottom (t : Tree child U m r nodes) (hi₀ : U i₀)
    (h₁ : mid child m r i₀ = some p₁) (hp : p ∉ nodes) (hw : child w = some p)
    {i : I} (hi : U i) (j : I) :
    bottom child (put (fill m p blank) p₁ j₀ w) r i j
      = if i = i₀ ∧ j = j₀ then some p else bottom child m r i j := by
  unfold bottom
  rw [t.mid_linkBottom hi₀ h₁ hp]
  cases h2 : mid child m r i with
  | none =>
    have : i ≠ i₀ := fun e => by rw [e, h₁] at h2; cases h2
    simp [this]
  | some p' =>
    have hmem := (t.mid_mem hi h2).1
    have hpp : p' ≠ p := fun e => hp (e ▸ hmem)
    have hinj : p' = p₁ → i = i₀ := fun e => t.mid_inj hi hi₀ h2 (e ▸ h₁)
    by_cases h : i = i₀ ∧ j = j₀
    · obtain ⟨rfl, rfl⟩ := h
      have : p' = p₁ := by rw [h₁] at h2; exact (Option.some.inj h2).symm
      simp [this, hw]
    · have : ¬(p' = p₁ ∧ j = j₀) := fun e => h ⟨hinj e.1, e.2⟩
      simp [h, this, hpp]

theorem Tree.leaf_linkBottom (t : Tree child U m r nodes) (hi₀ : U i₀)
    (h₁ : mid child m r i₀ = some p₁) (h₀ : child (m p₁ j₀) = none) (hp : p ∉ nodes)
    (hw : child w = some p) {i : I} (hi : U i) (j k : I) :
    leaf child blank (put (fill m p blank) p₁ j₀ w) r i j k = leaf child blank m r i j k := by
  unfold leaf
  rw [t.bottom_linkBottom hi₀ h₁ hp hw hi j]
  have hp₁ : p ≠ p₁ := fun e => hp (e ▸ (t.mid_mem hi₀ h₁).1)
  by_cases h : i = i₀ ∧ j = j₀
  · obtain ⟨rfl, rfl⟩ := h
    simp [bottom, h₁, h₀, hp₁]
  · rw [if_neg h]
    cases hq : bottom child m r i j with
    | none => rfl
    | some q =>
      have hqp : q ≠ p := fun e => hp (e ▸ (t.bottom_mem hi hq).1)
      have hqp₁ : q ≠ p₁ := (t.mid_ne_bottom hi₀ hi h₁ hq).symm
      simp [hqp, hqp₁]

theorem Tree.path_linkBottom (t : Tree child U m r nodes) (hi₀ : U i₀)
    (h₁ : mid child m r i₀ = some p₁) (hp : p ∉ nodes) (hw : child w = some p)
    {i : I} (hi : U i) (j k : I) :
    path child (put (fill m p blank) p₁ j₀ w) r i j k =
      if i = i₀ ∧ j = j₀ then .leaf blank else path child m r i j k := by
  have hmid : ∀ {i}, mid child (put (fill m p blank) p₁ j₀ w) r i = mid child m r i :=
    t.mid_linkBottom hi₀ h₁ hp
  have hbot : bottom child (put (fill m p blank) p₁ j₀ w) r i j =
      if i = i₀ ∧ j = j₀ then some p else bottom child m r i j :=
    t.bottom_linkBottom hi₀ h₁ hp hw hi j
  have hpr : p ≠ r := fun h => hp (h ▸ t.root_mem)
  obtain ⟨hmem₁, hne₁⟩ := t.mid_mem hi₀ h₁
  have hpp₁ : p ≠ p₁ := fun e => hp (e ▸ hmem₁)
  by_cases h : i = i₀ ∧ j = j₀
  · rw [if_pos h] at hbot
    rw [path_of_bottom hbot, if_pos h]
    simp [hpp₁]
  · rw [if_neg h] at hbot
    rw [if_neg h]
    rcases path_cases child m r i j k with ⟨h1, h2⟩ | ⟨q, h1, h2, h3⟩ | ⟨q, h1, h2⟩
    · rw [path_of_mid_none (hmid.trans h1), h2]
      simp [hpr.symm, hne₁.symm]
    · have hmem := (t.mid_mem hi h1).1
      have hqp : q ≠ p := fun e => hp (e ▸ hmem)
      have hq : ¬(q = p₁ ∧ j = j₀) := fun e =>
        h ⟨t.mid_inj hi hi₀ (e.1 ▸ h1) h₁, e.2⟩
      have hword : put (fill m p blank) p₁ j₀ w q j = m q j := by simp [hqp, hq]
      rw [path_of_mid (hmid.trans h1) (by rw [hword, h2]), h3, hword]
    · have hqp : q ≠ p := fun e => hp (e ▸ (t.bottom_mem hi h1).1)
      have hqp₁ : q ≠ p₁ := (t.mid_ne_bottom hi₀ hi h₁ h1).symm
      rw [path_of_bottom (hbot.trans h1), h2]
      simp [hqp, hqp₁]

theorem Tree.linkBottom (t : Tree child U m r nodes) (hi₀ : U i₀)
    (h₁ : mid child m r i₀ = some p₁) (hp : p ∉ nodes) (hw : child w = some p) :
    Tree child U (put (fill m p blank) p₁ j₀ w) r (nodes ++ [p]) := by
  have hpr : p ≠ r := fun h => hp (h ▸ t.root_mem)
  have hmid : ∀ {i}, mid child (put (fill m p blank) p₁ j₀ w) r i = mid child m r i :=
    t.mid_linkBottom hi₀ h₁ hp
  have hbot : ∀ {i}, U i → ∀ j, bottom child (put (fill m p blank) p₁ j₀ w) r i j =
      if i = i₀ ∧ j = j₀ then some p else bottom child m r i j :=
    fun hi j => t.bottom_linkBottom hi₀ h₁ hp hw hi j
  refine ⟨by simp [t.root_mem], ?_, ?_, ?_, ?_, ?_⟩
  · intro i p' hi h
    rw [hmid] at h
    have := t.mid_mem hi h
    grind
  · intro i j q hi h
    rw [hbot hi] at h
    have := @t.bottom_mem i j q hi
    grind
  · intro i i' p' hi hi' h h'
    rw [hmid] at h h'
    exact t.mid_inj hi hi' h h'
  · intro i j i' j' q hi hi' h h'
    rw [hbot hi] at h
    rw [hbot hi'] at h'
    have := @t.bottom_inj i j i' j' q hi hi'
    have := @t.bottom_mem i j q hi
    have := @t.bottom_mem i' j' q hi'
    grind
  · intro i i' j' p' q hi hi' h h'
    rw [hmid] at h
    rw [hbot hi'] at h'
    have := @t.mid_ne_bottom i i' j' p' q hi hi' h
    have := t.mid_mem hi h
    grind

/-- Overwriting one word of a bottom node moves no path. -/
theorem Tree.mid_setLeaf (t : Tree child U m r nodes) (hi₀ : U i₀)
    (h₀ : bottom child m r i₀ j₀ = some q₀) {i : I} :
    mid child (put m q₀ k₀ w) r i = mid child m r i := by
  have hne := (t.bottom_mem hi₀ h₀).2
  simp [mid, hne.symm]

theorem Tree.bottom_setLeaf (t : Tree child U m r nodes) (hi₀ : U i₀)
    (h₀ : bottom child m r i₀ j₀ = some q₀) {i : I} (hi : U i) (j : I) :
    bottom child (put m q₀ k₀ w) r i j = bottom child m r i j := by
  unfold bottom
  rw [t.mid_setLeaf hi₀ h₀]
  cases h1 : mid child m r i with
  | none => rfl
  | some p' =>
    have := t.mid_ne_bottom hi hi₀ h1 h₀
    simp [this]

theorem Tree.leaf_setLeaf (t : Tree child U m r nodes) (hi₀ : U i₀)
    (h₀ : bottom child m r i₀ j₀ = some q₀) {i : I} (hi : U i) (j k : I) :
    leaf child blank (put m q₀ k₀ w) r i j k
      = if i = i₀ ∧ j = j₀ ∧ k = k₀ then w else leaf child blank m r i j k := by
  unfold leaf
  rw [t.bottom_setLeaf hi₀ h₀ hi j]
  cases hq : bottom child m r i j with
  | none =>
    have : ¬(i = i₀ ∧ j = j₀ ∧ k = k₀) := by
      rintro ⟨rfl, rfl, -⟩
      rw [h₀] at hq
      cases hq
    simp [this]
  | some q =>
    have hinj : q = q₀ → i = i₀ ∧ j = j₀ := fun e => t.bottom_inj hi hi₀ (e ▸ hq) h₀
    by_cases h : i = i₀ ∧ j = j₀ ∧ k = k₀
    · obtain ⟨rfl, rfl, rfl⟩ := h
      have : q = q₀ := by rw [h₀] at hq; exact (Option.some.inj hq).symm
      simp [this]
    · have : ¬(q = q₀ ∧ k = k₀) := fun e => h ⟨(hinj e.1).1, (hinj e.1).2, e.2⟩
      simp [h, this]

theorem Tree.path_setLeaf (t : Tree child U m r nodes) (hi₀ : U i₀)
    (h₀ : bottom child m r i₀ j₀ = some q₀) {i : I} (hi : U i) (j k : I) :
    path child (put m q₀ k₀ w) r i j k =
      if i = i₀ ∧ j = j₀ ∧ k = k₀ then .leaf w else path child m r i j k := by
  have hmid : ∀ {i}, mid child (put m q₀ k₀ w) r i = mid child m r i := t.mid_setLeaf hi₀ h₀
  have hbot : bottom child (put m q₀ k₀ w) r i j = bottom child m r i j :=
    t.bottom_setLeaf hi₀ h₀ hi j
  have hne := (t.bottom_mem hi₀ h₀).2
  rcases path_cases child m r i j k with ⟨h1, h2⟩ | ⟨q, h1, h2, h3⟩ | ⟨q, h1, h2⟩
  · have h : ¬(i = i₀ ∧ j = j₀ ∧ k = k₀) := by
      rintro ⟨rfl, rfl, -⟩
      rw [bottom, h1] at h₀
      cases h₀
    rw [path_of_mid_none (hmid.trans h1), h2, if_neg h]
    simp [hne.symm]
  · have h : ¬(i = i₀ ∧ j = j₀ ∧ k = k₀) := by
      rintro ⟨rfl, rfl, -⟩
      rw [bottom, h1, Option.bind_some, h2] at h₀
      cases h₀
    have hq := t.mid_ne_bottom hi hi₀ h1 h₀
    have hword : put m q₀ k₀ w q j = m q j := by simp [hq]
    rw [path_of_mid (hmid.trans h1) (by rw [hword, h2]), h3, if_neg h, hword]
  · rw [path_of_bottom (hbot.trans h1), h2]
    by_cases h : i = i₀ ∧ j = j₀ ∧ k = k₀
    · obtain ⟨rfl, rfl, rfl⟩ := h
      have : q = q₀ := Option.some.inj (h1.symm.trans h₀)
      simp [this]
    · have hq : ¬(q = q₀ ∧ k = k₀) := fun e => by
        obtain ⟨e1, e2⟩ := t.bottom_inj hi hi₀ (e.1 ▸ h1) h₀
        exact h ⟨e1, e2, e.2⟩
      simp [h, hq]

theorem Tree.setLeaf (t : Tree child U m r nodes) (hi₀ : U i₀)
    (h₀ : bottom child m r i₀ j₀ = some q₀) : Tree child U (put m q₀ k₀ w) r nodes := by
  have hmid : ∀ {i}, mid child (put m q₀ k₀ w) r i = mid child m r i := t.mid_setLeaf hi₀ h₀
  have hbot : ∀ {i}, U i → ∀ j, bottom child (put m q₀ k₀ w) r i j = bottom child m r i j :=
    fun hi j => t.bottom_setLeaf hi₀ h₀ hi j
  refine ⟨t.root_mem, ?_, ?_, ?_, ?_, ?_⟩
  · intro i p' hi h
    rw [hmid] at h
    exact t.mid_mem hi h
  · intro i j q hi h
    rw [hbot hi] at h
    exact t.bottom_mem hi h
  · intro i i' p' hi hi' h h'
    rw [hmid] at h h'
    exact t.mid_inj hi hi' h h'
  · intro i j i' j' q hi hi' h h'
    rw [hbot hi] at h
    rw [hbot hi'] at h'
    exact t.bottom_inj hi hi' h h'
  · intro i i' j' p' q hi hi' h h'
    rw [hmid] at h
    rw [hbot hi'] at h'
    exact t.mid_ne_bottom hi hi' h h'

/-- Overwriting a word of a middle node by one that refers to nothing cuts what hung there. -/
theorem Tree.mid_cutMid (t : Tree child U m r nodes) (hi₀ : U i₀)
    (h₁ : mid child m r i₀ = some p₁) {i : I} :
    mid child (put m p₁ j₀ w) r i = mid child m r i := by
  have hne := (t.mid_mem hi₀ h₁).2
  simp [mid, hne.symm]

theorem Tree.bottom_cutMid (t : Tree child U m r nodes) (hi₀ : U i₀)
    (h₁ : mid child m r i₀ = some p₁) (hw : child w = none) {i : I} (hi : U i) (j : I) :
    bottom child (put m p₁ j₀ w) r i j = if i = i₀ ∧ j = j₀ then none else bottom child m r i j := by
  unfold bottom
  rw [t.mid_cutMid hi₀ h₁]
  cases h : mid child m r i with
  | none => simp
  | some p' =>
    by_cases hp : p' = p₁
    · have hii : i = i₀ := t.mid_inj hi hi₀ (hp ▸ h) h₁
      by_cases hj : j = j₀ <;> simp [hp, hii, hj, hw]
    · have hii : i ≠ i₀ := fun e => by
        rw [e, h₁] at h
        exact hp (Option.some.inj h).symm
      simp [hp, hii]

theorem Tree.cutMid (t : Tree child U m r nodes) (hi₀ : U i₀) (h₁ : mid child m r i₀ = some p₁)
    (hw : child w = none) : Tree child U (put m p₁ j₀ w) r nodes := by
  have hmid : ∀ {i}, mid child (put m p₁ j₀ w) r i = mid child m r i := t.mid_cutMid hi₀ h₁
  have hbot : ∀ {i j q}, U i → bottom child (put m p₁ j₀ w) r i j = some q →
      bottom child m r i j = some q := by
    intro i j q hi h
    rw [t.bottom_cutMid hi₀ h₁ hw hi] at h
    split at h
    · cases h
    · exact h
  refine ⟨t.root_mem, ?_, ?_, ?_, ?_, ?_⟩
  · intro i p' hi h
    exact t.mid_mem hi (hmid ▸ h)
  · intro i j q hi h
    exact t.bottom_mem hi (hbot hi h)
  · intro i i' p' hi hi' h h'
    exact t.mid_inj hi hi' (hmid ▸ h) (hmid ▸ h')
  · intro i j i' j' q hi hi' h h'
    exact t.bottom_inj hi hi' (hbot hi h) (hbot hi' h')
  · intro i i' j' p' q hi hi' h h'
    exact t.mid_ne_bottom hi hi' (hmid ▸ h) (hbot hi' h')

theorem Tree.path_cutMid (t : Tree child U m r nodes) (hi₀ : U i₀)
    (h₁ : mid child m r i₀ = some p₁) (hw : child w = none) {i : I} (hi : U i) (j k : I) :
    path child (put m p₁ j₀ w) r i j k =
      if i = i₀ ∧ j = j₀ then .inner w else path child m r i j k := by
  have hmid : ∀ {i}, mid child (put m p₁ j₀ w) r i = mid child m r i := t.mid_cutMid hi₀ h₁
  have hbot : bottom child (put m p₁ j₀ w) r i j =
      if i = i₀ ∧ j = j₀ then none else bottom child m r i j := t.bottom_cutMid hi₀ h₁ hw hi j
  have hne₁ := (t.mid_mem hi₀ h₁).2
  by_cases h : i = i₀ ∧ j = j₀
  · obtain ⟨rfl, rfl⟩ := h
    have hword : put m p₁ j w p₁ j = w := by simp
    rw [path_of_mid (hmid.trans h₁) (by rw [hword, hw]), hword, if_pos ⟨rfl, rfl⟩]
  · rw [if_neg h] at hbot
    rw [if_neg h]
    rcases path_cases child m r i j k with ⟨h1, h2⟩ | ⟨q, h1, h2, h3⟩ | ⟨q, h1, h2⟩
    · rw [path_of_mid_none (hmid.trans h1), h2]
      simp [hne₁.symm]
    · have hq : ¬(q = p₁ ∧ j = j₀) := fun e =>
        h ⟨t.mid_inj hi hi₀ (e.1 ▸ h1) h₁, e.2⟩
      have hword : put m p₁ j₀ w q j = m q j := by simp [hq]
      rw [path_of_mid (hmid.trans h1) (by rw [hword, h2]), h3, hword]
    · have hqp₁ : q ≠ p₁ := (t.mid_ne_bottom hi₀ hi h₁ h1).symm
      rw [path_of_bottom (hbot.trans h1), h2]
      simp [hqp₁]

/-- Below the other root slots nothing changes. -/
theorem Tree.leaf_cutMid_of_ne (t : Tree child U m r nodes) (hi₀ : U i₀)
    (h₁ : mid child m r i₀ = some p₁) (hw : child w = none) {i : I} (hi : U i) (hne : i ≠ i₀)
    (j k : I) : leaf child blank (put m p₁ j₀ w) r i j k = leaf child blank m r i j k := by
  unfold leaf
  rw [t.bottom_cutMid hi₀ h₁ hw hi, if_neg (fun h => hne h.1)]
  cases hq : bottom child m r i j with
  | none => rfl
  | some q =>
    have := (t.mid_ne_bottom hi₀ hi h₁ hq).symm
    simp [this]

theorem Interior.linkMid (n : Interior child good U m r) (t : Tree child U m r nodes)
    (hp : p ∉ nodes) (hw : child w = some p) (gw : good w) (gb : good blank) :
    Interior child good U (put (fill m p blank) r i₀ w) r := by
  have hpr : p ≠ r := fun h => hp (h ▸ t.root_mem)
  refine ⟨?_, ?_⟩
  · intro i hi
    by_cases h : i = i₀
    · simpa [h] using gw
    · simpa [h, hpr.symm] using n.top hi
  · intro i p' hi h j
    rw [mid_linkMid hpr hw] at h
    by_cases hii : i = i₀
    · have : p = p' := by simpa [hii] using h
      subst this
      simpa [hpr] using gb
    · rw [if_neg hii] at h
      obtain ⟨hmem, hne⟩ := t.mid_mem hi h
      have : p' ≠ p := fun e => hp (e ▸ hmem)
      simpa [hne, this] using n.inner hi h j

theorem Interior.linkBottom (n : Interior child good U m r) (t : Tree child U m r nodes)
    (hi₀ : U i₀) (h₁ : mid child m r i₀ = some p₁) (hp : p ∉ nodes) (gw : good w) :
    Interior child good U (put (fill m p blank) p₁ j₀ w) r := by
  have hpr : p ≠ r := fun h => hp (h ▸ t.root_mem)
  have hne := (t.mid_mem hi₀ h₁).2
  refine ⟨?_, ?_⟩
  · intro i hi
    simpa [hpr.symm, hne.symm] using n.top hi
  · intro i p' hi h j
    rw [t.mid_linkBottom hi₀ h₁ hp] at h
    have : p' ≠ p := fun e => hp (e ▸ (t.mid_mem hi h).1)
    by_cases hpj : p' = p₁ ∧ j = j₀
    · simpa [hpj] using gw
    · simpa [hpj, this] using n.inner hi h j

theorem Interior.cutMid (n : Interior child good U m r) (t : Tree child U m r nodes) (hi₀ : U i₀)
    (h₁ : mid child m r i₀ = some p₁) (hgood : good w) :
    Interior child good U (put m p₁ j₀ w) r := by
  have hne := (t.mid_mem hi₀ h₁).2
  refine ⟨fun {i} hi => ?_, fun {i p} hi h j => ?_⟩
  · rw [put_apply, if_neg fun e => hne e.1.symm]
    exact n.top hi
  · rw [t.mid_cutMid hi₀ h₁] at h
    rw [put_apply]
    split
    · exact hgood
    · exact n.inner hi h j

theorem Interior.setLeaf (n : Interior child good U m r) (t : Tree child U m r nodes)
    (hi₀ : U i₀) (h₀ : bottom child m r i₀ j₀ = some q₀) :
    Interior child good U (put m q₀ k₀ w) r := by
  have hne := (t.bottom_mem hi₀ h₀).2
  refine ⟨?_, ?_⟩
  · intro i hi
    simpa [hne.symm] using n.top hi
  · intro i p' hi h j
    rw [t.mid_setLeaf hi₀ h₀] at h
    have := t.mid_ne_bottom hi hi₀ h h₀
    simpa [this] using n.inner hi h j

end Link

end RCoreKernel.Radix
