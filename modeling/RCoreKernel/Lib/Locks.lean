import Mathlib.Data.List.Basic

/-!
# Lock discipline of sequential programs

A program takes and releases locks and passes marked points.  Which branch it takes and how often
it repeats a loop is left open, so its traces cover every run of a program with the same calls.
The discipline gives each lock a rank: a lock is only taken while all locks held have a smaller
rank, and marked points are passed without a lock.

* `Prog.check` — a checker that computes the locks held at the end;
* `Prog.check_sound` — **every run of a program that passes the check obeys the discipline**;
* `safe_of_segments` — the same for several threads that are switched at marked points.
-/

namespace RCoreKernel.Locks

variable {L M : Type} [DecidableEq L]

/-- What a run does to locks, and the points it passes. -/
inductive Event (L M : Type)
  | acquire (l : L)
  | release (l : L)
  | mark (m : M)
  deriving DecidableEq

/-- The locks held after a trace, starting with `held`. -/
def after : List L → List (Event L M) → List L
  | held, [] => held
  | held, .acquire l :: es => after (l :: held) es
  | held, .release l :: es => after (held.erase l) es
  | held, .mark _ :: es => after held es

/-- The trace obeys the discipline. -/
def Safe (rank : L → ℕ) : List L → List (Event L M) → Prop
  | _, [] => True
  | held, .acquire l :: es => (∀ x ∈ held, rank x < rank l) ∧ Safe rank (l :: held) es
  | held, .release l :: es => Safe rank (held.erase l) es
  | held, .mark _ :: es => held = [] ∧ Safe rank held es

variable {rank : L → ℕ} {held : List L} {es es' : List (Event L M)}

theorem after_append : after held (es ++ es') = after (after held es) es' := by
  induction es generalizing held with
  | nil => rfl
  | cons e es ih => cases e <;> exact ih

theorem safe_append :
    Safe rank held (es ++ es') ↔ Safe rank held es ∧ Safe rank (after held es) es' := by
  induction es generalizing held with
  | nil => simp [Safe, after]
  | cons e es ih =>
    cases e with
    | acquire l => simp only [List.cons_append, Safe, after, ih, and_assoc]
    | release l => exact ih
    | mark m => simp only [List.cons_append, Safe, after, ih, and_assoc]

/-- Right after a marked point no lock is held. -/
theorem after_mark {m : M} (h : Safe rank held (es ++ [.mark m])) :
    after held (es ++ [.mark m]) = [] := by
  obtain ⟨-, hm⟩ := safe_append.mp h
  rw [after_append]
  exact hm.1

/-- A lock is taken while only locks of smaller rank are held. -/
theorem Safe.acquire {l : L} (h : Safe rank held (es ++ .acquire l :: es')) :
    ∀ x ∈ after held es, rank x < rank l :=
  (safe_append.mp h).2.1

theorem Safe.mark {m : M} (h : Safe rank held (es ++ .mark m :: es')) : after held es = [] :=
  (safe_append.mp h).2.1

/-! ### Programs -/

/-- Programs over locks; `halt` never returns. -/
inductive Prog (L M : Type)
  | skip
  | halt
  | acquire (l : L)
  | release (l : L)
  | mark (m : M)
  | seq (p q : Prog L M)
  | choice (p q : Prog L M)
  | star (p : Prog L M)

namespace Prog

/-- One program after the other. -/
def block : List (Prog L M) → Prog L M
  | [] => .skip
  | p :: ps => .seq p (block ps)

/-- The program, or nothing. -/
def opt (p : Prog L M) : Prog L M := .choice .skip p

/-- The program with the lock held. -/
def locked (l : L) (p : Prog L M) : Prog L M := block [.acquire l, p, .release l]

end Prog

/-- The traces of the runs that return. -/
inductive Prog.Full : Prog L M → List (Event L M) → Prop
  | skip : Full .skip []
  | acquire (l : L) : Full (.acquire l) [.acquire l]
  | release (l : L) : Full (.release l) [.release l]
  | mark (m : M) : Full (.mark m) [.mark m]
  | seq {p q : Prog L M} {es es' : List (Event L M)} (hp : Full p es) (hq : Full q es') :
      Full (.seq p q) (es ++ es')
  | left {p q : Prog L M} {es : List (Event L M)} (hp : Full p es) : Full (.choice p q) es
  | right {p q : Prog L M} {es : List (Event L M)} (hq : Full q es) : Full (.choice p q) es
  | done {p : Prog L M} : Full (.star p) []
  | again {p : Prog L M} {es es' : List (Event L M)} (hp : Full p es) (hs : Full (.star p) es') :
      Full (.star p) (es ++ es')

/-- The traces of all runs so far, whether they return or not. -/
inductive Prog.Partial : Prog L M → List (Event L M) → Prop
  | start {p : Prog L M} : Partial p []
  | full {p : Prog L M} {es : List (Event L M)} (hp : p.Full es) : Partial p es
  | first {p q : Prog L M} {es : List (Event L M)} (hp : Partial p es) : Partial (.seq p q) es
  | second {p q : Prog L M} {es es' : List (Event L M)} (hp : p.Full es) (hq : Partial q es') :
      Partial (.seq p q) (es ++ es')
  | left {p q : Prog L M} {es : List (Event L M)} (hp : Partial p es) : Partial (.choice p q) es
  | right {p q : Prog L M} {es : List (Event L M)} (hq : Partial q es) : Partial (.choice p q) es
  | round {p : Prog L M} {es : List (Event L M)} (hp : Partial p es) : Partial (.star p) es
  | rounds {p : Prog L M} {es es' : List (Event L M)} (hp : p.Full es)
      (hs : Partial (.star p) es') : Partial (.star p) (es ++ es')

/-- The locks held when the program returns, `some none` when it does not return, and `none` when
it may break the discipline. -/
def Prog.check (rank : L → ℕ) : Prog L M → List L → Option (Option (List L))
  | .skip, held => some (some held)
  | .halt, _ => some none
  | .acquire l, held => if ∀ x ∈ held, rank x < rank l then some (some (l :: held)) else none
  | .release l, held => if l ∈ held then some (some (held.erase l)) else none
  | .mark _, held => if held = [] then some (some held) else none
  | .seq p q, held =>
    match p.check rank held with
    | some (some held') => q.check rank held'
    | r => r
  | .choice p q, held =>
    match p.check rank held, q.check rank held with
    | some none, r => r
    | r, some none => r
    | some (some held₁), some (some held₂) => if held₁ = held₂ then some (some held₁) else none
    | _, _ => none
  | .star p, held =>
    match p.check rank held with
    | some none => some (some held)
    | some (some held') => if held' = held then some (some held) else none
    | none => none

variable {p q : Prog L M} {r : Option (List L)}

theorem Prog.check_choice (h : (Prog.choice p q).check rank held = some r) :
    (∃ r₁, p.check rank held = some r₁ ∧ (r₁ = none ∨ r₁ = r)) ∧
      ∃ r₂, q.check rank held = some r₂ ∧ (r₂ = none ∨ r₂ = r) := by
  rw [Prog.check] at h
  split at h
  · rename_i hp
    exact ⟨⟨none, hp, Or.inl rfl⟩, r, h, Or.inr rfl⟩
  · rename_i hq _
    exact ⟨⟨r, h, Or.inr rfl⟩, none, hq, Or.inl rfl⟩
  · rename_i held₁ held₂ hp hq
    split at h
    · rename_i heq
      subst heq
      obtain rfl := Option.some.inj h
      exact ⟨⟨_, hp, Or.inr rfl⟩, _, hq, Or.inr rfl⟩
    · cases h
  · cases h

theorem Prog.check_star (h : (Prog.star p).check rank held = some r) :
    r = some held ∧ ∃ r₁, p.check rank held = some r₁ ∧ (r₁ = none ∨ r₁ = some held) := by
  rw [Prog.check] at h
  split at h
  · rename_i hp
    exact ⟨(Option.some.inj h).symm, none, hp, Or.inl rfl⟩
  · rename_i held' hp
    split at h
    · rename_i heq
      subst heq
      exact ⟨(Option.some.inj h).symm, _, hp, Or.inr rfl⟩
    · cases h
  · cases h

theorem Prog.check_seq (h : (Prog.seq p q).check rank held = some r) :
    (p.check rank held = some none ∧ r = none) ∨
      ∃ held', p.check rank held = some (some held') ∧ q.check rank held' = some r := by
  rw [Prog.check] at h
  cases hp : p.check rank held with
  | none =>
    rw [hp] at h
    cases h
  | some r' =>
    rw [hp] at h
    cases r' with
    | none => exact Or.inl ⟨rfl, (Option.some.inj h).symm⟩
    | some held' => exact Or.inr ⟨held', rfl, h⟩

/-! ### Soundness -/

/-- A run that returns obeys the discipline and ends with the locks that were computed. -/
theorem Prog.Full.sound {es : List (Event L M)} (hf : p.Full es) :
    ∀ {held : List L} {r : Option (List L)}, p.check rank held = some r →
      Safe rank held es ∧ r = some (after held es) := by
  induction hf with
  | skip =>
    intro held r h
    exact ⟨trivial, (Option.some.inj h).symm⟩
  | acquire l =>
    intro held r h
    rw [Prog.check] at h
    split at h
    · rename_i hok
      exact ⟨⟨hok, trivial⟩, (Option.some.inj h).symm⟩
    · cases h
  | release l =>
    intro held r h
    rw [Prog.check] at h
    split at h
    · exact ⟨trivial, (Option.some.inj h).symm⟩
    · cases h
  | mark m =>
    intro held r h
    rw [Prog.check] at h
    split at h
    · rename_i hempty
      exact ⟨⟨hempty, trivial⟩, (Option.some.inj h).symm⟩
    · cases h
  | seq _ _ ihp ihq =>
    intro held r h
    rcases Prog.check_seq h with ⟨hp, -⟩ | ⟨held', hp, hq⟩
    · cases (ihp hp).2
    · obtain ⟨hsafe, hafter⟩ := ihp hp
      obtain rfl := Option.some.inj hafter
      obtain ⟨hsafe', hafter'⟩ := ihq hq
      exact ⟨safe_append.mpr ⟨hsafe, hsafe'⟩, by rw [after_append]; exact hafter'⟩
  | left _ ih =>
    intro held r h
    obtain ⟨⟨r₁, hp, hr⟩, -⟩ := Prog.check_choice h
    obtain ⟨hsafe, hafter⟩ := ih hp
    rcases hr with rfl | rfl
    · cases hafter
    · exact ⟨hsafe, hafter⟩
  | right _ ih =>
    intro held r h
    obtain ⟨-, r₂, hq, hr⟩ := Prog.check_choice h
    obtain ⟨hsafe, hafter⟩ := ih hq
    rcases hr with rfl | rfl
    · cases hafter
    · exact ⟨hsafe, hafter⟩
  | done =>
    intro held r h
    exact ⟨trivial, (Prog.check_star h).1⟩
  | again _ _ ihp ihs =>
    intro held r h
    obtain ⟨rfl, r₁, hp, hr⟩ := Prog.check_star h
    obtain ⟨hsafe, hafter⟩ := ihp hp
    rcases hr with rfl | rfl
    · cases hafter
    -- a round ends with the locks it started with
    · have hback := Option.some.inj hafter
      obtain ⟨hsafe', hafter'⟩ := ihs h
      exact ⟨safe_append.mpr ⟨hsafe, hback ▸ hsafe'⟩, by rw [after_append, ← hback]; exact hafter'⟩

/-- **Every run of a program that passes the check obeys the discipline.** -/
theorem Prog.check_sound {es : List (Event L M)} (hrun : p.Partial es) :
    ∀ {held : List L} {r : Option (List L)}, p.check rank held = some r → Safe rank held es := by
  induction hrun with
  | start =>
    intro held r _
    trivial
  | full hp =>
    intro held r h
    exact (hp.sound h).1
  | first _ ih =>
    intro held r h
    rcases Prog.check_seq h with ⟨hp, -⟩ | ⟨held', hp, -⟩
    · exact ih hp
    · exact ih hp
  | second hp _ ih =>
    intro held r h
    rcases Prog.check_seq h with ⟨hp', -⟩ | ⟨held', hp', hq⟩
    · cases (hp.sound hp').2
    · obtain ⟨hsafe, hafter⟩ := hp.sound hp'
      obtain rfl := Option.some.inj hafter
      exact safe_append.mpr ⟨hsafe, ih hq⟩
  | left _ ih =>
    intro held r h
    obtain ⟨⟨r₁, hp, -⟩, -⟩ := Prog.check_choice h
    exact ih hp
  | right _ ih =>
    intro held r h
    obtain ⟨-, r₂, hq, -⟩ := Prog.check_choice h
    exact ih hq
  | round _ ih =>
    intro held r h
    obtain ⟨-, r₁, hp, -⟩ := Prog.check_star h
    exact ih hp
  | rounds hp _ ih =>
    intro held r h
    obtain ⟨-, r₁, hp', hr⟩ := Prog.check_star h
    obtain ⟨hsafe, hafter⟩ := hp.sound hp'
    rcases hr with rfl | rfl
    · cases hafter
    · have hback := Option.some.inj hafter
      exact safe_append.mpr ⟨hsafe, hback ▸ ih h⟩

/-! ### Threads -/

/-- A part of a run of one of the programs, from the start or a switch on. -/
def Segment (progs : List (Prog L M)) (switch : M) (es : List (Event L M)) : Prop :=
  ∃ p ∈ progs, ∃ before, (before = [] ∨ ∃ b, before = b ++ [.mark switch]) ∧
    p.Partial (before ++ es)

/-- The traces of one processor that runs the programs as threads: every segment but the last one
ends at a switch. -/
inductive Interleaved (progs : List (Prog L M)) (switch : M) : List (Event L M) → Prop
  | last {es : List (Event L M)} (h : Segment progs switch es) : Interleaved progs switch es
  | switch {es es' : List (Event L M)} (h : Segment progs switch (es ++ [.mark switch]))
      (hrest : Interleaved progs switch es') :
      Interleaved progs switch (es ++ [.mark switch] ++ es')

variable {progs : List (Prog L M)} {switch : M}

theorem Segment.safe (hcheck : ∀ p ∈ progs, (p.check rank []).isSome = true)
    (h : Segment progs switch es) : Safe rank [] es := by
  obtain ⟨p, hp, before, hbefore, hrun⟩ := h
  obtain ⟨r, hr⟩ := Option.isSome_iff_exists.mp (hcheck p hp)
  have hsafe := Prog.check_sound hrun hr
  rcases hbefore with rfl | ⟨b, rfl⟩
  · exact hsafe
  · obtain ⟨h1, h2⟩ := safe_append.mp hsafe
    rwa [after_mark h1] at h2

/-- **Threads that are switched at marked points obey the discipline together.** -/
theorem safe_of_segments (hcheck : ∀ p ∈ progs, (p.check rank []).isSome = true)
    (h : Interleaved progs switch es) : Safe rank [] es := by
  induction h with
  | last h => exact h.safe hcheck
  | switch h _ ih =>
    have hsafe := h.safe hcheck
    rw [safe_append, after_mark hsafe]
    exact ⟨hsafe, ih⟩

end RCoreKernel.Locks
