import Mathlib.Data.List.Induction

/-!
# Vector operations on lists

`swapRemove` takes an element out by moving the last element into its place.  It keeps the
other elements up to order, and keeps everything before the removed position in place.
`modifyFind` changes the first element that satisfies a test.
-/

namespace RCoreKernel.Vec

variable {α : Type}

/-- Remove the element at `i`, filling the hole with the last element. -/
def swapRemove (l : List α) (i : ℕ) : List α :=
  match l.getLast? with
  | some y => if i + 1 = l.length then l.dropLast else (l.set i y).dropLast
  | none => l

theorem swapRemove_append (A B : List α) (x : α) :
    ∃ B', swapRemove (A ++ x :: B) A.length = A ++ B' ∧ B'.Perm B := by
  induction B using List.reverseRecOn with
  | nil =>
    refine ⟨[], ?_, List.Perm.refl _⟩
    simp [swapRemove]
  | append_singleton B y _ =>
    refine ⟨y :: B, ?_, (List.perm_append_singleton y B).symm⟩
    have hlast : (A ++ x :: (B ++ [y])).getLast? = some y := by
      rw [show A ++ x :: (B ++ [y]) = (A ++ x :: B) ++ [y] by simp, List.getLast?_concat]
    have hset : (A ++ x :: (B ++ [y])).set A.length y = (A ++ y :: B) ++ [y] := by simp
    rw [swapRemove, hlast]
    simp only [List.length_append, List.length_cons]
    rw [if_neg (by simp), hset, List.dropLast_concat]

theorem swapRemove_perm {l : List α} {i : ℕ} {x : α} (h : l[i]? = some x) :
    (x :: swapRemove l i).Perm l := by
  obtain ⟨hi, rfl⟩ := List.getElem?_eq_some_iff.mp h
  have hl : l = l.take i ++ l[i] :: l.drop (i + 1) := by simp
  have hlen : (l.take i).length = i := by simp; omega
  obtain ⟨B', hB', hperm⟩ := swapRemove_append (l.take i) (l.drop (i + 1)) l[i]
  rw [← hl, hlen] at hB'
  rw [hB']
  calc (l[i] :: (l.take i ++ B')).Perm (l.take i ++ l[i] :: B') := List.perm_middle.symm
    _ |>.Perm (l.take i ++ l[i] :: l.drop (i + 1)) := (hperm.cons _).append_left _
    _ |>.Perm l := by rw [← hl]

/-- Exchange the elements at `i` and `j`. -/
def swap (l : List α) (i j : ℕ) : List α :=
  match l[i]?, l[j]? with
  | some x, some y => (l.set i y).set j x
  | _, _ => l

theorem swap_perm (l : List α) (i j : ℕ) : (swap l i j).Perm l := by
  unfold swap
  split
  · rename_i x y hx hy
    obtain ⟨hi, rfl⟩ := List.getElem?_eq_some_iff.mp hx
    obtain ⟨hj, rfl⟩ := List.getElem?_eq_some_iff.mp hy
    exact List.set_set_perm hi hj
  · exact List.Perm.refl l

theorem getElem?_swap {l : List α} {i j : ℕ} {x : α} (hi : l[i]? = some x) (hj : j < l.length) :
    (swap l i j)[j]? = some x := by
  unfold swap
  rw [hi, List.getElem?_eq_getElem hj]
  simp [hj]

/-- Apply `f` to the first element that satisfies `p`. -/
def modifyFind (p : α → Bool) (f : α → α) : List α → List α
  | [] => []
  | x :: xs => if p x then f x :: xs else x :: modifyFind p f xs

/-- Two changes of the same element. -/
theorem modifyFind_modifyFind {p : α → Bool} {f g : α → α} (hp : ∀ x, p (g x) = p x) (l : List α) :
    modifyFind p f (modifyFind p g l) = modifyFind p (fun x => f (g x)) l := by
  induction l with
  | nil => rfl
  | cons x xs ih =>
    cases hx : p x with
    | true => simp [modifyFind, hx, hp]
    | false => simp [modifyFind, hx, ih]

theorem modifyFind_append {p : α → Bool} {A B : List α} {x : α} (hA : ∀ a ∈ A, p a = false)
    (hx : p x = true) (f : α → α) : modifyFind p f (A ++ x :: B) = A ++ f x :: B := by
  induction A with
  | nil => simp [modifyFind, hx]
  | cons y ys ih =>
    have hy : p y = false := hA y (by simp)
    simp [modifyFind, hy, ih fun a ha => hA a (by simp [ha])]

theorem modifyFind_of_forall {p : α → Bool} {l : List α} (h : ∀ a ∈ l, p a = false) (f : α → α) :
    modifyFind p f l = l := by
  induction l with
  | nil => rfl
  | cons y ys ih =>
    have hy : p y = false := h y (by simp)
    simp [modifyFind, hy, ih fun a ha => h a (by simp [ha])]

theorem find?_append_cons {p : α → Bool} {A B : List α} {x : α} (hA : ∀ a ∈ A, p a = false)
    (hx : p x = true) : (A ++ x :: B).find? p = some x := by
  have hnone : A.find? p = none := List.find?_eq_none.mpr fun a ha => by simp [hA a ha]
  rw [List.find?_append, hnone, Option.none_or, List.find?_cons_of_pos hx]

/-- The first match splits the list. -/
theorem find?_split {p : α → Bool} {l : List α} {x : α} (h : l.find? p = some x) :
    ∃ A B, l = A ++ x :: B ∧ p x = true ∧ ∀ a ∈ A, p a = false := by
  obtain ⟨hx, A, B, rfl, hA⟩ := List.find?_eq_some_iff_append.mp h
  exact ⟨A, B, rfl, hx, fun a ha => by simpa using hA a ha⟩

theorem find?_congr {p q : α → Bool} {l : List α} (h : ∀ a ∈ l, p a = q a) :
    l.find? p = l.find? q := by
  induction l with
  | nil => rfl
  | cons x xs ih =>
    rw [List.find?_cons, List.find?_cons, h x List.mem_cons_self,
      ih fun a ha => h a (List.mem_cons_of_mem x ha)]

/-- `swapRemove` does not look at the elements. -/
theorem map_swapRemove {β : Type} (f : α → β) (l : List α) (i : ℕ) :
    (swapRemove l i).map f = swapRemove (l.map f) i := by
  unfold swapRemove
  rw [List.getLast?_map]
  cases l.getLast? with
  | none => rfl
  | some y =>
    simp only [Option.map_some, List.length_map]
    split
    · rw [List.map_dropLast]
    · rw [List.map_dropLast, List.map_set]

end RCoreKernel.Vec
