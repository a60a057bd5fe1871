import Mathlib.Data.List.Nodup
import Mathlib.Data.List.Count
import Mathlib.Data.List.Induction
import RCoreKernel.Task.State

/-!
# The table of system call counts (`increase_syscall_count`)

One search finds the slot of an id or the first empty one.  The table stays filled from the front,
so the search never claims an empty slot for an id that has one.

* `bump_mem`, `bump_not_mem` — the search on a filled prefix;
* `recordAll_counts` — **the table after any sequence of calls**.

A count is a machine word and wraps, so after `2 ^ 64` calls with one id its count is zero again.
-/

namespace RCoreKernel.Task

/-- What `increase_syscall_count` does to the table. -/
def bump (counts : List (ℕ × ℕ)) (id : ℕ) : List (ℕ × ℕ) × Bool :=
  match counts.findIdx? fun c => c.1 = id ∨ c.1 = 0 with
  | some i => (counts.modify i fun c => (id, wrap (c.2 + 1)), true)
  | none => (counts, false)

theorem increaseSyscallCount_eq (st : TaskStatistics) (id : ℕ) :
    st.increaseSyscallCount id =
      ({ st with syscallCounts := (bump st.syscallCounts id).1 }, (bump st.syscallCounts id).2) := by
  unfold TaskStatistics.increaseSyscallCount bump
  cases st.syscallCounts.findIdx? fun c => c.1 = id ∨ c.1 = 0 with
  | some i => rfl
  | none => rfl

theorem bump_nil (id : ℕ) : bump [] id = ([], false) := rfl

theorem bump_cons (c : ℕ × ℕ) (counts : List (ℕ × ℕ)) (id : ℕ) :
    bump (c :: counts) id =
      if c.1 = id ∨ c.1 = 0 then ((id, wrap (c.2 + 1)) :: counts, true)
      else (c :: (bump counts id).1, (bump counts id).2) := by
  unfold bump
  rw [List.findIdx?_cons]
  by_cases hc : c.1 = id ∨ c.1 = 0
  · simp [hc]
  · cases hf : counts.findIdx? fun c => c.1 = id ∨ c.1 = 0 with
    | none => simp [hc]
    | some i => simp [hc]

/-- The ids of a sequence, in the order of their first occurrence. -/
def distinct (ids : List ℕ) : List ℕ :=
  ids.foldl (fun seen id => if id ∈ seen then seen else seen ++ [id]) []

/-- The ids that have a slot. -/
def tracked (ids : List ℕ) : List ℕ := (distinct ids).take maxSyscallsTracked

/-- The table that a sequence of calls should leave. -/
def table (ids : List ℕ) : List (ℕ × ℕ) :=
  (tracked ids).map (fun id => (id, wrap (ids.count id))) ++
    List.replicate (maxSyscallsTracked - (tracked ids).length) (0, 0)

/-- The statistics after a sequence of calls. -/
def recordAll (st : TaskStatistics) (ids : List ℕ) : TaskStatistics :=
  ids.foldl (fun st id => (st.increaseSyscallCount id).1) st

theorem recordAll_snoc (st : TaskStatistics) (ids : List ℕ) (id : ℕ) :
    recordAll st (ids ++ [id]) = ((recordAll st ids).increaseSyscallCount id).1 := by
  simp [recordAll, List.foldl_append]

/-! ### First occurrences -/

theorem distinct_snoc (ids : List ℕ) (id : ℕ) :
    distinct (ids ++ [id]) =
      if id ∈ distinct ids then distinct ids else distinct ids ++ [id] := by
  rw [distinct, List.foldl_append]
  rfl

theorem mem_distinct {ids : List ℕ} {i : ℕ} : i ∈ distinct ids ↔ i ∈ ids := by
  induction ids using List.reverseRecOn with
  | nil => simp [distinct]
  | append_singleton ids id ih =>
    rw [distinct_snoc]
    split
    · rename_i hmem
      rw [List.mem_append, List.mem_singleton, ih]
      refine ⟨Or.inl, fun h => h.elim (fun h => h) fun h => ?_⟩
      subst h
      exact ih.mp hmem
    · rw [List.mem_append, List.mem_append, ih]

theorem distinct_nodup (ids : List ℕ) : (distinct ids).Nodup := by
  induction ids using List.reverseRecOn with
  | nil => exact List.nodup_nil
  | append_singleton ids id ih =>
    rw [distinct_snoc]
    split
    · exact ih
    · rename_i hnot
      rw [← List.concat_eq_append]
      exact ih.concat hnot

theorem tracked_nodup (ids : List ℕ) : (tracked ids).Nodup :=
  (distinct_nodup ids).sublist (List.take_sublist _ _)

theorem tracked_ne_zero {ids : List ℕ} (hne : ∀ i ∈ ids, i ≠ 0) : ∀ i ∈ tracked ids, i ≠ 0 :=
  fun i hi => hne i (mem_distinct.mp (List.mem_of_mem_take hi))

/-- With a slot left, every id has its slot. -/
theorem tracked_eq_distinct {ids : List ℕ} (h : (tracked ids).length < maxSyscallsTracked) :
    tracked ids = distinct ids := by
  rw [tracked, List.length_take] at h
  rw [tracked, List.take_of_length_le (by omega)]

/-- The slots after one more call. -/
theorem tracked_snoc (ids : List ℕ) (id : ℕ) :
    tracked (ids ++ [id]) =
      if id ∈ tracked ids then tracked ids
      else if (tracked ids).length < maxSyscallsTracked then tracked ids ++ [id] else tracked ids := by
  have hlen : (tracked ids).length = min maxSyscallsTracked (distinct ids).length :=
    List.length_take ..
  split
  · rename_i hmem
    rw [tracked, distinct_snoc, if_pos (List.mem_of_mem_take hmem), tracked]
  · rename_i hnot
    split
    · rename_i hroom
      have heq := tracked_eq_distinct hroom
      rw [heq] at hnot hlen ⊢
      rw [tracked, distinct_snoc, if_neg hnot, List.take_of_length_le]
      rw [List.length_append, List.length_singleton]
      rw [heq] at hroom
      omega
    · rename_i hfull
      rw [tracked, distinct_snoc]
      split
      · rfl
      · rw [List.take_append_of_le_length (by omega)]
        rfl

/-! ### The search -/

/-- An id with a slot is counted there. -/
theorem bump_mem {slots : List ℕ} {id : ℕ} (hnd : slots.Nodup) (hne : ∀ i ∈ slots, i ≠ 0)
    (hid : id ∈ slots) (count : ℕ → ℕ) (rest : List (ℕ × ℕ)) :
    bump (slots.map (fun i => (i, count i)) ++ rest) id =
      (slots.map (fun i => (i, if i = id then wrap (count i + 1) else count i)) ++ rest, true) := by
  induction slots with
  | nil => cases hid
  | cons i slots ih =>
    obtain ⟨hi, hnd⟩ := List.nodup_cons.mp hnd
    rw [List.map_cons, List.cons_append, bump_cons, List.map_cons, List.cons_append]
    by_cases he : i = id
    · subst he
      have hothers : slots.map (fun j => (j, if j = i then wrap (count j + 1) else count j)) =
          slots.map fun j => (j, count j) := by
        apply List.map_congr_left
        intro j hj
        rw [if_neg]
        rintro rfl
        exact hi hj
      rw [if_pos (Or.inl rfl), if_pos rfl, hothers]
    · have hin : id ∈ slots := (List.mem_cons.mp hid).resolve_left (Ne.symm he)
      have hstop : ¬(i = id ∨ i = 0) := fun h => h.elim he (hne i List.mem_cons_self)
      rw [if_neg hstop, if_neg he, ih hnd (fun j hj => hne j (List.mem_cons_of_mem _ hj)) hin]

/-- An id without a slot passes all slots in use. -/
theorem bump_not_mem {slots : List ℕ} {id : ℕ} (hne : ∀ i ∈ slots, i ≠ 0) (hid : id ∉ slots)
    (count : ℕ → ℕ) (rest : List (ℕ × ℕ)) :
    bump (slots.map (fun i => (i, count i)) ++ rest) id =
      (slots.map (fun i => (i, count i)) ++ (bump rest id).1, (bump rest id).2) := by
  induction slots with
  | nil => rfl
  | cons i slots ih =>
    have hstop : ¬(i = id ∨ i = 0) := fun h =>
      h.elim (fun e => hid (e ▸ List.mem_cons_self)) (hne i List.mem_cons_self)
    rw [List.map_cons, List.cons_append, bump_cons, if_neg hstop,
      ih (fun j hj => hne j (List.mem_cons_of_mem _ hj)) fun h => hid (List.mem_cons_of_mem _ h)]
    rfl

/-- **One call.** -/
theorem bump_table {ids : List ℕ} (hne : ∀ i ∈ ids, i ≠ 0) (id : ℕ) :
    bump (table ids) id = (table (ids ++ [id]), decide (id ∈ tracked (ids ++ [id]))) := by
  have hzero := tracked_ne_zero hne
  have hcount : ∀ i ∈ tracked ids, i ≠ id → (ids ++ [id]).count i = ids.count i := by
    intro i _ hi
    rw [List.count_append, List.count_singleton, if_neg (by simpa using hi.symm), Nat.add_zero]
  rw [table, table, tracked_snoc]
  by_cases hmem : id ∈ tracked ids
  · rw [if_pos hmem, bump_mem (tracked_nodup ids) hzero hmem]
    refine Prod.ext ?_ (by simp [hmem])
    show _ ++ _ = _ ++ _
    congr 1
    apply List.map_congr_left
    intro i hi
    by_cases he : i = id
    · subst he
      rw [if_pos rfl, List.count_append, List.count_singleton_self]
      simp [wrap]
    · rw [if_neg he, hcount i hi he]
  · rw [if_neg hmem, bump_not_mem hzero hmem]
    have hsame : (tracked ids).map (fun i => (i, wrap (ids.count i))) =
        (tracked ids).map fun i => (i, wrap ((ids ++ [id]).count i)) := by
      apply List.map_congr_left
      intro i hi
      rw [hcount i hi]
      rintro rfl
      exact hmem hi
    by_cases hroom : (tracked ids).length < maxSyscallsTracked
    · -- the first empty slot is the one after those in use
      obtain ⟨n, hn⟩ : ∃ n, maxSyscallsTracked - (tracked ids).length = n + 1 :=
        ⟨maxSyscallsTracked - (tracked ids).length - 1, by omega⟩
      have hnew : id ∉ ids := by
        rw [← mem_distinct, ← tracked_eq_distinct hroom]
        exact hmem
      have hone : (ids ++ [id]).count id = 1 := by
        rw [List.count_append, List.count_singleton_self, List.count_eq_zero_of_not_mem hnew]
      rw [if_pos hroom, hn, List.replicate_succ, bump_cons, if_pos (Or.inr rfl)]
      refine Prod.ext ?_ (by simp)
      have hrest : maxSyscallsTracked - (tracked ids ++ [id]).length = n := by
        rw [List.length_append, List.length_singleton]
        omega
      rw [hrest, List.map_append, ← hsame, List.map_singleton, hone, List.append_assoc]
      rfl
    · have hfull : maxSyscallsTracked - (tracked ids).length = 0 := by omega
      rw [if_neg hroom, hfull, ← hsame]
      refine Prod.ext rfl ?_
      simp [bump_nil, hmem]

/-- The slot of an id other than the one called is not touched. -/
theorem mem_table_snoc {ids : List ℕ} {id i count : ℕ} (hi : i ≠ id) (hzero : i ≠ 0) :
    (i, count) ∈ table (ids ++ [id]) ↔ (i, count) ∈ table ids := by
  have hmem : ∀ l : List ℕ, (i, count) ∈ table l ↔ i ∈ tracked l ∧ wrap (l.count i) = count := by
    intro l
    rw [table, List.mem_append, List.mem_map, List.mem_replicate]
    constructor
    · rintro (⟨j, hj, he⟩ | ⟨-, he⟩)
      · obtain ⟨rfl, rfl⟩ := Prod.mk.inj he
        exact ⟨hj, rfl⟩
      · exact absurd (Prod.mk.inj he).1 hzero
    · rintro ⟨hj, rfl⟩
      exact Or.inl ⟨i, hj, rfl⟩
  have hcount : (ids ++ [id]).count i = ids.count i := by
    rw [List.count_append, List.count_singleton, if_neg (by simpa using hi.symm), Nat.add_zero]
  rw [hmem, hmem, hcount, tracked_snoc]
  split
  · rfl
  · split
    · simp [hi]
    · rfl

/-- The table after a sequence of calls. -/
theorem recordAll_eq (st : TaskStatistics)
    (hst : st.syscallCounts = List.replicate maxSyscallsTracked (0, 0)) {ids : List ℕ}
    (hne : ∀ i ∈ ids, i ≠ 0) : recordAll st ids = { st with syscallCounts := table ids } := by
  induction ids using List.reverseRecOn with
  | nil =>
    have hempty : table [] = st.syscallCounts := hst.symm
    rw [hempty]
    rfl
  | append_singleton ids id ih =>
    have hids : ∀ i ∈ ids, i ≠ 0 := fun i hi => hne i (List.mem_append_left _ hi)
    rw [recordAll_snoc, ih hids, increaseSyscallCount_eq]
    dsimp only
    rw [bump_table hids]

/-- **The table after any sequence of calls**: the ids with a slot in the order of their first
occurrence, each with the number of its calls modulo the word size, then empty slots; and what each
call answered and changed. -/
theorem recordAll_counts (st : TaskStatistics)
    (hst : st.syscallCounts = List.replicate maxSyscallsTracked (0, 0)) {ids : List ℕ}
    (hne : ∀ i ∈ ids, i ≠ 0) :
    recordAll st ids = { st with syscallCounts := table ids } ∧ (tracked ids).Nodup ∧
      ∀ before id after, ids = before ++ id :: after →
        (((recordAll st before).increaseSyscallCount id).2 = true ↔
          id ∈ tracked (before ++ [id])) ∧
        ((recordAll st before).increaseSyscallCount id).1 =
          { st with syscallCounts := table (before ++ [id]) } ∧
        ∀ i count, i ≠ id → i ≠ 0 →
          ((i, count) ∈ table (before ++ [id]) ↔ (i, count) ∈ table before) := by
  refine ⟨recordAll_eq st hst hne, tracked_nodup ids, fun before id after he => ?_⟩
  have hbefore : ∀ i ∈ before, i ≠ 0 := fun i hi => hne i (he ▸ List.mem_append_left _ hi)
  rw [recordAll_eq st hst hbefore, increaseSyscallCount_eq]
  dsimp only
  rw [bump_table hbefore]
  exact ⟨decide_eq_true_iff, rfl, fun i count hi hzero => mem_table_snoc hi hzero⟩

/-- Seven ids: the last has no slot. -/
theorem recordAll_counts_full :
    (recordAll TaskStatistics.newZeros [64, 93, 64, 124, 90, 215, 169, 7]).syscallCounts =
      [(64, 2), (93, 1), (124, 1), (90, 1), (215, 1), (169, 1)] := by
  rw [(recordAll_counts TaskStatistics.newZeros rfl (by decide)).1]
  decide

theorem tracked_replicate (n id : ℕ) : tracked (List.replicate (n + 1) id) = [id] := by
  have hdistinct : distinct (List.replicate (n + 1) id) = [id] := by
    induction n with
    | zero => rfl
    | succ n ih => rw [List.replicate_succ', distinct_snoc, ih, if_pos (List.mem_singleton_self id)]
  rw [tracked, hdistinct]
  rfl

/-- After `2 ^ 64` calls the count is zero, not their number. -/
theorem recordAll_wraps : ∃ ids : List ℕ, (∀ i ∈ ids, i ≠ 0) ∧
    (1, ids.count 1) ∉ (recordAll TaskStatistics.newZeros ids).syscallCounts ∧
    (1, 0) ∈ (recordAll TaskStatistics.newZeros ids).syscallCounts := by
  obtain ⟨n, hn⟩ : ∃ n, n + 1 = 2 ^ 64 := ⟨2 ^ 64 - 1, rfl⟩
  have hne : ∀ i ∈ List.replicate (n + 1) 1, i ≠ 0 := by
    intro i hi
    rw [List.eq_of_mem_replicate hi]
    decide
  have hcount : (List.replicate (n + 1) 1).count 1 = 2 ^ 64 := by
    rw [List.count_replicate_self, hn]
  have htable : table (List.replicate (n + 1) 1) = (1, 0) :: List.replicate 5 (0, 0) := by
    rw [table, tracked_replicate, List.map_singleton, hcount]
    rfl
  refine ⟨List.replicate (n + 1) 1, hne, ?_, ?_⟩
  · rw [recordAll_eq _ rfl hne, htable, hcount]
    decide
  · rw [recordAll_eq _ rfl hne, htable]
    exact List.mem_cons_self

end RCoreKernel.Task
