import Mathlib.Data.List.Nodup

/-!
# A conservation ledger for numbered resources

Resources are issued in order from `first` on; `next` is the first one never issued.  An
issued resource is either in the list `free`, waiting to be issued again, or in the list
`held`.  `Balanced` says that every issued resource stands in exactly one of the two lists and
exactly once.  The moves of an allocator keep the ledger balanced:

* `Balanced.issue` — a resource that was never issued becomes held;
* `Balanced.reissue` — the last entry of the free list becomes held;
* `Balanced.giveBack` / `Balanced.giveBackAll` — held resources go to the end of the free list.
-/

namespace RCoreKernel.Ledger

/-- Every issued resource is free or held, once. -/
structure Balanced (first next : ℕ) (free held : List ℕ) : Prop where
  le : first ≤ next
  perm : (free ++ held).Perm (List.range' first (next - first))

variable {first next p : ℕ} {free held held' ps : List ℕ}

theorem Balanced.nodup (b : Balanced first next free held) : (free ++ held).Nodup :=
  b.perm.nodup_iff.mpr List.nodup_range'

theorem Balanced.mem_iff (b : Balanced first next free held) :
    (p ∈ free ∨ p ∈ held) ↔ first ≤ p ∧ p < next := by
  have h := b.perm.mem_iff (a := p)
  have := b.le
  rw [← List.mem_append, h, List.mem_range'_1]
  omega

theorem Balanced.held_nodup (b : Balanced first next free held) : held.Nodup :=
  (List.nodup_append.mp b.nodup).2.1

theorem Balanced.free_nodup (b : Balanced first next free held) : free.Nodup :=
  (List.nodup_append.mp b.nodup).1

theorem Balanced.not_mem_free (b : Balanced first next free held) (h : p ∈ held) : p ∉ free :=
  fun hf => (List.nodup_append.mp b.nodup).2.2 p hf p h rfl

/-- An issued resource occurs once in the two lists together. -/
theorem Balanced.count_eq_one (b : Balanced first next free held) (h₁ : first ≤ p)
    (h₂ : p < next) : free.count p + held.count p = 1 := by
  have hmem : p ∈ free ++ held := List.mem_append.mpr (b.mem_iff.mpr ⟨h₁, h₂⟩)
  rw [← List.count_append]
  exact List.count_eq_one_of_mem b.nodup hmem

theorem Balanced.congr (b : Balanced first next free held) (h : held.Perm held') :
    Balanced first next free held' :=
  ⟨b.le, (h.append_left free).symm.trans b.perm⟩

theorem Balanced.issue (b : Balanced first next free held) :
    Balanced first (next + 1) free (next :: held) := by
  refine ⟨by have := b.le; omega, ?_⟩
  have hlast : List.range' first (next + 1 - first)
      = List.range' first (next - first) ++ [next] := by
    have := b.le
    rw [show next + 1 - first = (next - first) + 1 from by omega, List.range'_1_concat,
      show first + (next - first) = next from by omega]
  rw [hlast]
  calc (free ++ next :: held).Perm (next :: (free ++ held)) := List.perm_middle
    _ |>.Perm ((free ++ held) ++ [next]) := (List.perm_append_singleton _ _).symm
    _ |>.Perm (List.range' first (next - first) ++ [next]) := b.perm.append_right _

theorem Balanced.reissue (b : Balanced first next (free ++ [p]) held) :
    Balanced first next free (p :: held) :=
  ⟨b.le, by simpa using b.perm⟩

theorem Balanced.giveBack (b : Balanced first next free (p :: held)) :
    Balanced first next (free ++ [p]) held :=
  ⟨b.le, by simpa using b.perm⟩

theorem Balanced.giveBackAll (b : Balanced first next free (ps ++ held)) :
    Balanced first next (free ++ ps) held :=
  ⟨b.le, by simpa using b.perm⟩

theorem Balanced.fresh (b : Balanced first next free held) : next ∉ held := fun h => by
  have := (b.mem_iff (p := next)).mp (Or.inr h)
  omega

end RCoreKernel.Ledger
