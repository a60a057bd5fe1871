import Mathlib.Data.Set.Basic
import Mathlib.Logic.Function.Basic

/-!
# Memory that is mapped by pages

For every page that is mapped, a page map has its attributes and its cells.  Pages are added and
removed by sets of page numbers, and one cell is written at a time.  There is no order among the
pages and nothing is said about where they are.

* `PageMap.add`, `PageMap.remove`, `PageMap.write` — the operations;
* `read_add`, `read_remove_of_notMem`, `read_write_same` — what they do to the cells;
* `free_remove` — what was removed can be added again;
* `remove_add`, `remove_remove`, `remove_write` — **removing undoes what was done to these pages**.
-/

namespace RCoreKernel

/-- The attributes and the cells of the pages that are mapped. -/
def PageMap (V A O B : Type*) := V → Option (A × (O → B))

namespace PageMap

variable {V A O B : Type*} {f g : PageMap V A O B} {S T : Set V} {v w : V} {o o' : O} {a : A} {b z : B}

@[ext] theorem ext (h : ∀ v, f v = g v) : f = g := funext h

/-- None of the pages is mapped. -/
def Free (f : PageMap V A O B) (S : Set V) : Prop := ∀ v ∈ S, f v = none

/-- The content of a cell. -/
def read (f : PageMap V A O B) (v : V) (o : O) : Option B := (f v).map fun page => page.2 o

open Classical in
/-- New pages with the attributes `a`, filled with `z`. -/
noncomputable def add (f : PageMap V A O B) (S : Set V) (a : A) (z : B) : PageMap V A O B :=
  fun v => if v ∈ S then some (a, fun _ => z) else f v

open Classical in
/-- Without the pages of `S`. -/
noncomputable def remove (f : PageMap V A O B) (S : Set V) : PageMap V A O B :=
  fun v => if v ∈ S then none else f v

open Classical in
/-- One cell is written, if its page is mapped. -/
noncomputable def write (f : PageMap V A O B) (v : V) (o : O) (b : B) : PageMap V A O B :=
  fun w => if w = v then (f w).map fun page => (page.1, Function.update page.2 o b) else f w

theorem add_of_mem (h : v ∈ S) : f.add S a z v = some (a, fun _ => z) := if_pos h

theorem add_of_notMem (h : v ∉ S) : f.add S a z v = f v := if_neg h

theorem remove_of_mem (h : v ∈ S) : f.remove S v = none := if_pos h

theorem remove_of_notMem (h : v ∉ S) : f.remove S v = f v := if_neg h

theorem write_same : f.write v o b v =
    (f v).map fun page => (page.1, @Function.update _ _ (Classical.decEq O) page.2 o b) := by
  rw [write, if_pos rfl]

theorem write_other (h : w ≠ v) : f.write v o b w = f w := if_neg h

/-! ### Cells -/

theorem read_add (h : v ∈ S) : (f.add S a z).read v o = some z := by
  rw [read, add_of_mem h, Option.map_some]

theorem read_add_of_notMem (h : v ∉ S) : (f.add S a z).read v o = f.read v o := by
  rw [read, add_of_notMem h, read]

theorem read_remove_of_notMem (h : v ∉ S) : (f.remove S).read v o = f.read v o := by
  rw [read, remove_of_notMem h, read]

/-- The last write counts. -/
theorem read_write_same (h : f v ≠ none) : (f.write v o b).read v o = some b := by
  classical
  obtain ⟨page, hpage⟩ := Option.ne_none_iff_exists'.mp h
  rw [read, write_same, hpage, Option.map_some, Option.map_some]
  exact congrArg some (Function.update_self ..)

theorem read_write_other (h : w ≠ v ∨ o' ≠ o) : (f.write v o b).read w o' = f.read w o' := by
  classical
  by_cases hw : w = v
  · subst hw
    rw [read, write_same, read]
    cases f w with
    | none => rfl
    | some page =>
      rw [Option.map_some, Option.map_some, Option.map_some]
      exact congrArg some (Function.update_of_ne (h.resolve_left fun hne => hne rfl) ..)
  · rw [read, write_other hw, read]

/-! ### Pages -/

/-- What was removed can be added again. -/
theorem free_remove : (f.remove S).Free S := fun _ hv => remove_of_mem hv

theorem Free.remove (h : f.Free S) : (f.remove T).Free S := by
  intro v hv
  by_cases hT : v ∈ T
  · exact remove_of_mem hT
  · rw [remove_of_notMem hT, h v hv]

theorem Free.write (h : f.Free S) : (f.write v o b).Free S := by
  classical
  intro w hw
  by_cases hv : w = v
  · subst hv
    rw [write_same, h w hw, Option.map_none]
  · rw [write_other hv, h w hw]

/-! ### What removing undoes -/

theorem Free.remove_eq (h : f.Free S) : f.remove S = f := by
  ext v
  by_cases hv : v ∈ S
  · rw [remove_of_mem hv, h v hv]
  · rw [remove_of_notMem hv]

theorem remove_add (h : T ⊆ S) : (f.add T a z).remove S = f.remove S := by
  ext v
  by_cases hv : v ∈ S
  · rw [remove_of_mem hv, remove_of_mem hv]
  · rw [remove_of_notMem hv, remove_of_notMem hv, add_of_notMem fun hT => hv (h hT)]

theorem remove_remove (h : T ⊆ S) : (f.remove T).remove S = f.remove S := by
  ext v
  by_cases hv : v ∈ S
  · rw [remove_of_mem hv, remove_of_mem hv]
  · rw [remove_of_notMem hv, remove_of_notMem hv, remove_of_notMem fun hT => hv (h hT)]

theorem remove_write (h : v ∈ S) : (f.write v o b).remove S = f.remove S := by
  ext w
  by_cases hw : w ∈ S
  · rw [remove_of_mem hw, remove_of_mem hw]
  · have hne : w ≠ v := fun he => hw (he ▸ h)
    rw [remove_of_notMem hw, remove_of_notMem hw, write_other hne]

end PageMap

end RCoreKernel
