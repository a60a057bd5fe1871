import Mathlib.Data.List.Sort

/-!
# Ordered maps

An ordered map is its list of entries in strictly increasing key order; the order is part of
the type, so a map with a repeated key cannot be built.  `insert` returns the value it
replaces and `remove` the value it takes out, because in the programs modelled here dropping a
value has an effect.  `splitOff k` keeps the entries below `k` and hands out the rest.

Users reason through membership of entries (`mem_insert`, `mem_remove`, `mem_keep`,
`mem_splitOff`) and through permutations of the values (`insert_values_perm` and so on).
-/

namespace RCoreKernel

/-- A finite map with entries sorted by key. -/
structure BTreeMap (K V : Type) [LinearOrder K] where
  entries : List (K × V)
  sorted : entries.Pairwise fun x y => x.1 < y.1

namespace BTreeMap

variable {K V : Type} [LinearOrder K]

def new : BTreeMap K V := ⟨[], List.Pairwise.nil⟩

/-- The values in key order. -/
def values (m : BTreeMap K V) : List V := m.entries.map Prod.snd

def get? (m : BTreeMap K V) (k : K) : Option V :=
  (m.entries.find? fun e => e.1 = k).map Prod.snd

/-- Entries below `k`. -/
def keep (m : BTreeMap K V) (k : K) : BTreeMap K V :=
  ⟨m.entries.filter fun e => e.1 < k, m.sorted.filter _⟩

/-- Entries from `k` on. -/
def splitOff (m : BTreeMap K V) (k : K) : BTreeMap K V :=
  ⟨m.entries.filter fun e => k ≤ e.1, m.sorted.filter _⟩

/-- The map without key `k`. -/
def remove (m : BTreeMap K V) (k : K) : BTreeMap K V :=
  ⟨m.entries.filter fun e => e.1 ≠ k, m.sorted.filter _⟩

/-- Put `v` at key `k`, replacing an entry with that key. -/
def insert (m : BTreeMap K V) (k : K) (v : V) : BTreeMap K V where
  entries := (m.entries.filter fun e => e.1 < k) ++ (k, v) :: m.entries.filter fun e => k < e.1
  sorted := by
    rw [List.pairwise_append, List.pairwise_cons]
    refine ⟨m.sorted.filter _, ⟨?_, m.sorted.filter _⟩, ?_⟩
    · intro e he
      simpa using (List.mem_filter.mp he).2
    · intro a ha b hb
      have h1 : a.1 < k := by simpa using (List.mem_filter.mp ha).2
      rcases List.mem_cons.mp hb with rfl | hb
      · exact h1
      · have h2 : k < b.1 := by simpa using (List.mem_filter.mp hb).2
        exact h1.trans h2

variable {m : BTreeMap K V} {k k' : K} {v v' : V}

/-- A key has at most one entry. -/
theorem eq_of_mem (h : (k, v) ∈ m.entries) (h' : (k, v') ∈ m.entries) : v = v' := by
  have hp : m.entries.Pairwise fun x y => x.1 = y.1 → x = y :=
    m.sorted.imp fun h e => absurd e h.ne
  have key := hp.forall_of_forall_of_flip (fun x _ _ => rfl)
    (hp.imp fun hxy e => (hxy e.symm).symm) h h' rfl
  exact congrArg Prod.snd key

theorem get?_eq_some : m.get? k = some v ↔ (k, v) ∈ m.entries := by
  unfold get?
  constructor
  · intro h
    obtain ⟨⟨k', w⟩, he, rfl⟩ := Option.map_eq_some_iff.mp h
    have hk : k' = k := by simpa using List.find?_some he
    exact hk ▸ List.mem_of_find?_eq_some he
  · intro h
    cases hf : m.entries.find? fun e => e.1 = k with
    | none =>
      have := List.find?_eq_none.mp hf (k, v) h
      simp at this
    | some e =>
      have hk : e.1 = k := by simpa using List.find?_some hf
      have he : (k, e.2) ∈ m.entries := hk ▸ List.mem_of_find?_eq_some hf
      simp [eq_of_mem h he]

theorem get?_eq_none : m.get? k = none ↔ ∀ v, (k, v) ∉ m.entries := by
  constructor
  · intro h v hv
    rw [get?_eq_some.mpr hv] at h
    cases h
  · intro h
    cases hg : m.get? k with
    | none => rfl
    | some v => exact absurd (get?_eq_some.mp hg) (h v)

theorem mem_insert :
    (k', v') ∈ (m.insert k v).entries ↔ (k' = k ∧ v' = v) ∨ (k' ≠ k ∧ (k', v') ∈ m.entries) := by
  simp only [insert, List.mem_append, List.mem_filter, List.mem_cons, Prod.mk.injEq,
    decide_eq_true_eq]
  constructor
  · rintro (⟨h, hlt⟩ | h | ⟨h, hlt⟩)
    · exact Or.inr ⟨hlt.ne, h⟩
    · exact Or.inl h
    · exact Or.inr ⟨hlt.ne', h⟩
  · rintro (h | ⟨hne, h⟩)
    · exact Or.inr (Or.inl h)
    · rcases lt_or_gt_of_ne hne with hlt | hlt
      · exact Or.inl ⟨h, hlt⟩
      · exact Or.inr (Or.inr ⟨h, hlt⟩)

theorem mem_remove : (k', v') ∈ (m.remove k).entries ↔ k' ≠ k ∧ (k', v') ∈ m.entries := by
  simp [remove, and_comm]

theorem mem_keep : (k', v') ∈ (m.keep k).entries ↔ k' < k ∧ (k', v') ∈ m.entries := by
  simp [keep, and_comm]

theorem mem_splitOff : (k', v') ∈ (m.splitOff k).entries ↔ k ≤ k' ∧ (k', v') ∈ m.entries := by
  simp [splitOff, and_comm]

@[simp] theorem not_mem_new : (k, v) ∉ (new : BTreeMap K V).entries := by simp [new]

@[simp] theorem values_new : (new : BTreeMap K V).values = [] := rfl

theorem mem_values : v ∈ m.values ↔ ∃ k, (k, v) ∈ m.entries := by simp [values]

/-- The two halves of a split hold every value once. -/
theorem keep_append_splitOff_perm :
    ((m.keep k).values ++ (m.splitOff k).values).Perm m.values := by
  unfold values keep splitOff
  rw [← List.map_append]
  refine List.Perm.map _ ?_
  have h := List.filter_append_perm (fun e : K × V => decide (e.1 < k)) m.entries
  simpa [← not_lt] using h

/-- The new value and the values at the other keys. -/
theorem insert_values_perm : ((m.insert k v).values).Perm (v :: (m.remove k).values) := by
  unfold values insert remove
  simp only [List.map_append, List.map_cons]
  refine List.perm_middle.trans (List.Perm.cons _ ?_)
  rw [← List.map_append]
  refine List.Perm.map _ ?_
  have hnd : m.entries.Nodup := m.sorted.imp fun h => fun e => absurd h (e ▸ lt_irrefl _)
  refine (List.perm_ext_iff_of_nodup ?_ (hnd.filter _)).mpr ?_
  · rw [List.nodup_append]
    refine ⟨hnd.filter _, hnd.filter _, ?_⟩
    intro a ha b hb hab
    have h1 : a.1 < k := by simpa using (List.mem_filter.mp ha).2
    have h2 : k < b.1 := by simpa using (List.mem_filter.mp hb).2
    exact absurd (h1.trans h2) (hab ▸ lt_irrefl _)
  · intro e
    simp only [List.mem_append, List.mem_filter, decide_eq_true_eq]
    constructor
    · rintro (⟨h, hlt⟩ | ⟨h, hlt⟩)
      · exact ⟨h, hlt.ne⟩
      · exact ⟨h, hlt.ne'⟩
    · rintro ⟨h, hne⟩
      rcases lt_or_gt_of_ne hne with hlt | hlt
      · exact Or.inl ⟨h, hlt⟩
      · exact Or.inr ⟨h, hlt⟩

/-- Maps with the same entries are equal. -/
theorem ext_mem {m' : BTreeMap K V} (h : ∀ k v, (k, v) ∈ m.entries ↔ (k, v) ∈ m'.entries) :
    m = m' := by
  have hnd : ∀ m : BTreeMap K V, m.entries.Nodup :=
    fun m => m.sorted.imp fun h => fun e => absurd h (e ▸ lt_irrefl _)
  have hperm : m.entries.Perm m'.entries :=
    (List.perm_ext_iff_of_nodup (hnd m) (hnd m')).mpr fun e => h e.1 e.2
  have heq : m.entries = m'.entries :=
    hperm.eq_of_pairwise (fun a b _ _ hab hba => absurd (hab.trans hba) (lt_irrefl _))
      m.sorted m'.sorted
  cases m
  cases m'
  cases heq
  rfl

/-- Two maps with the same entry at a key read the same there. -/
theorem get?_congr {m' : BTreeMap K V} (h : ∀ v, (k, v) ∈ m.entries ↔ (k, v) ∈ m'.entries) :
    m.get? k = m'.get? k := by
  cases hget : m'.get? k with
  | none => exact get?_eq_none.mpr fun v hv => get?_eq_none.mp hget v ((h v).mp hv)
  | some v => exact get?_eq_some.mpr ((h v).mpr (get?_eq_some.mp hget))

theorem get?_insert : (m.insert k v).get? k' = if k' = k then some v else m.get? k' := by
  split
  · rename_i hk
    exact get?_eq_some.mpr (mem_insert.mpr (Or.inl ⟨hk, rfl⟩))
  · rename_i hk
    apply get?_congr
    intro v'
    rw [mem_insert]
    exact ⟨fun h => h.elim (fun h => absurd h.1 hk) And.right, fun h => Or.inr ⟨hk, h⟩⟩

theorem get?_keep : (m.keep k).get? k' = if k' < k then m.get? k' else none := by
  split
  · rename_i hk
    apply get?_congr
    intro v'
    rw [mem_keep]
    exact ⟨And.right, fun h => ⟨hk, h⟩⟩
  · rename_i hk
    exact get?_eq_none.mpr fun v' h => hk (mem_keep.mp h).1

theorem get?_splitOff : (m.splitOff k).get? k' = if k ≤ k' then m.get? k' else none := by
  split
  · rename_i hk
    apply get?_congr
    intro v'
    rw [mem_splitOff]
    exact ⟨And.right, fun h => ⟨hk, h⟩⟩
  · rename_i hk
    exact get?_eq_none.mpr fun v' h => hk (mem_splitOff.mp h).1

@[simp] theorem get?_new : (new : BTreeMap K V).get? k = none := rfl

/-- Taking back an insertion under a new key. -/
theorem remove_insert (h : m.get? k = none) : (m.insert k v).remove k = m := by
  refine ext_mem fun k' v' => ?_
  rw [mem_remove, mem_insert]
  constructor
  · rintro ⟨hne, ⟨rfl, -⟩ | ⟨-, hmem⟩⟩
    · exact absurd rfl hne
    · exact hmem
  · intro hmem
    have hne : k' ≠ k := fun e => get?_eq_none.mp h v' (e ▸ hmem)
    exact ⟨hne, Or.inr ⟨hne, hmem⟩⟩

theorem remove_of_get?_none (h : m.get? k = none) : m.remove k = m := by
  refine ext_mem fun k' v' => ?_
  rw [mem_remove]
  exact ⟨And.right, fun hmem => ⟨fun e => get?_eq_none.mp h v' (e ▸ hmem), hmem⟩⟩

end BTreeMap

end RCoreKernel
