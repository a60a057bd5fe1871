import Mathlib.Data.List.Induction
import Mathlib.Data.Option.Basic

/-!
# Independent components of a system

A system has components that come and go.  Each step of the system is one of a single component, or
of none; what the other components are does not change.  Then, however the steps interleave, each
component has made a run of its own machine, and the log says which.

* `Label`, `life` — what a step means, and what a log says about one component;
* `Independent` — the obligations on the steps;
* `Independent.lives` — **every component that is there has made the run that its part of the log
  describes, and no other component is there**;
* `Independent.maintains` — what all acts of a component in a part of the log preserve.
-/

namespace RCoreKernel.Components

variable {ι S A E : Type*}

/-- What a step of the system means for its components. -/
inductive Label (ι A E : Type*)
  | silent
  | created (i : ι) (a : A)
  | acted (i : ι) (e : E)
  | removed (i : ι)

/-- The component that a step is one of. -/
def Label.component? : Label ι A E → Option ι
  | .silent => none
  | .created i _ => some i
  | .acted i _ => some i
  | .removed i => some i

/-- What the component does. -/
def Label.act? : Label ι A E → Option E
  | .acted _ e => some e
  | _ => none

/-- The runs of a component. -/
inductive Accepts (machine : A → E → A → Prop) (a₀ : A) : List E → A → Prop
  | start : Accepts machine a₀ [] a₀
  | act {es : List E} {e : E} {a a' : A} (hrun : Accepts machine a₀ es a) (hact : machine a e a') :
      Accepts machine a₀ (es ++ [e]) a'

theorem Accepts.of_nil {machine : A → E → A → Prop} {a₀ a : A} (h : Accepts machine a₀ [] a) :
    a = a₀ := by
  generalize hlog : ([] : List E) = es at h
  cases h with
  | start => rfl
  | act => simp at hlog

/-- The runs of the system, with their logs. -/
inductive Run (step : S → Label ι A E → S → Prop) (s₀ : S) : List (Label ι A E) → S → Prop
  | start : Run step s₀ [] s₀
  | step {log : List (Label ι A E)} {l : Label ι A E} {s s' : S} (hrun : Run step s₀ log s)
      (hstep : step s l s') : Run step s₀ (log ++ [l]) s'

theorem Run.last {step : S → Label ι A E → S → Prop} {s₀ s : S} {log : List (Label ι A E)}
    {l : Label ι A E} (h : Run step s₀ (log ++ [l]) s) :
    ∃ s₁, Run step s₀ log s₁ ∧ step s₁ l s := by
  generalize hlog : log ++ [l] = whole at h
  cases h with
  | start => simp at hlog
  | step hrun hstep =>
    obtain ⟨rfl, he⟩ := List.append_inj' hlog rfl
    obtain rfl := List.singleton_inj.mp he
    exact ⟨_, hrun, hstep⟩

theorem Run.append {step : S → Label ι A E → S → Prop} {s₀ s₁ s : S} {log₁ log₂ : List (Label ι A E)}
    (h₁ : Run step s₀ log₁ s₁) (h₂ : Run step s₁ log₂ s) : Run step s₀ (log₁ ++ log₂) s := by
  induction h₂ with
  | start => rwa [List.append_nil]
  | step _ hstep ih =>
    rw [← List.append_assoc]
    exact ih.step hstep

/-- A run is a run after a run. -/
theorem Run.split {step : S → Label ι A E → S → Prop} {s₀ s : S} {log₁ log₂ : List (Label ι A E)}
    (h : Run step s₀ (log₁ ++ log₂) s) : ∃ s₁, Run step s₀ log₁ s₁ ∧ Run step s₁ log₂ s := by
  induction log₂ using List.reverseRecOn generalizing s with
  | nil => exact ⟨s, by rwa [List.append_nil] at h, .start⟩
  | append_singleton log l ih =>
    rw [← List.append_assoc] at h
    obtain ⟨s₂, hrun, hstep⟩ := h.last
    obtain ⟨s₁, h₁, h₂⟩ := ih hrun
    exact ⟨s₁, h₁, h₂.step hstep⟩

/-- Some silent steps, and some of one component. -/
def Does (j : ι) (log : List (Label ι A E)) (es : List E) : Prop :=
  (∀ l ∈ log, l = .silent ∨ ∃ e, l = .acted j e) ∧ log.filterMap Label.act? = es

theorem Does.nil (j : ι) : Does (A := A) (E := E) j [] [] := ⟨fun _ h => (List.not_mem_nil h).elim, rfl⟩

theorem Does.append {j : ι} {log₁ log₂ : List (Label ι A E)} {es₁ es₂ : List E}
    (h₁ : Does j log₁ es₁) (h₂ : Does j log₂ es₂) : Does j (log₁ ++ log₂) (es₁ ++ es₂) := by
  refine ⟨fun l hl => (List.mem_append.mp hl).elim (h₁.1 l) (h₂.1 l), ?_⟩
  rw [List.filterMap_append, h₁.2, h₂.2]

theorem Does.silent (j : ι) : Does (A := A) (E := E) j [.silent] [] :=
  ⟨fun _ h => Or.inl (List.mem_singleton.mp h), rfl⟩

theorem Does.act (j : ι) (e : E) : Does (A := A) j [.acted j e] [e] :=
  ⟨fun _ h => Or.inr ⟨e, List.mem_singleton.mp h⟩, rfl⟩

section Life

variable [DecidableEq ι]

/-- How a component began and what it has done since, one step later. -/
def lifeAfter (i : ι) : Option (A × List E) → Label ι A E → Option (A × List E)
  | life, .silent => life
  | life, .created j a => if j = i then some (a, []) else life
  | life, .acted j e => if j = i then life.map fun x => (x.1, x.2 ++ [e]) else life
  | life, .removed j => if j = i then none else life

/-- What a log says about a component: nothing if it is not there. -/
def life (i : ι) (log : List (Label ι A E)) : Option (A × List E) := log.foldl (lifeAfter i) none

theorem life_append (i : ι) (log : List (Label ι A E)) (l : Label ι A E) :
    life i (log ++ [l]) = lifeAfter i (life i log) l := by
  rw [life, List.foldl_append]
  rfl

/-- A step of another component. -/
theorem lifeAfter_other {i : ι} {l : Label ι A E} (h : l.component? ≠ some i)
    (x : Option (A × List E)) : lifeAfter i x l = x := by
  cases l with
  | silent => rfl
  | created j a => exact if_neg fun he => h (congrArg some he)
  | acted j e => exact if_neg fun he => h (congrArg some he)
  | removed j => exact if_neg fun he => h (congrArg some he)

/-- They belong to the life of that component. -/
theorem life_does {i j : ι} {log log' : List (Label ι A E)} {es : List E} (h : Does j log' es) :
    life i (log ++ log') =
      if j = i then (life i log).map fun x => (x.1, x.2 ++ es) else life i log := by
  obtain ⟨hown, rfl⟩ := h
  induction log' using List.reverseRecOn with
  | nil =>
    rw [List.append_nil, List.filterMap_nil]
    cases life i log <;> simp
  | append_singleton log' l ih =>
    rw [← List.append_assoc, life_append, ih fun l hl => hown l (List.mem_append_left _ hl),
      List.filterMap_append]
    rcases hown l (by simp) with rfl | ⟨e, rfl⟩
    · have hsilent : [(.silent : Label ι A E)].filterMap Label.act? = [] := rfl
      rw [hsilent, List.append_nil]
      rfl
    · have hact : [(.acted j e : Label ι A E)].filterMap Label.act? = [e] := rfl
      rw [hact, lifeAfter]
      by_cases hij : j = i
      · rw [if_pos hij, if_pos hij, if_pos hij, Option.map_map]
        simp [Function.comp_def]
      · rw [if_neg hij, if_neg hij, if_neg hij]

end Life

/-- Every step is one of at most one component.  `view` is what a component is, if it is there. -/
structure Independent (step : S → Label ι A E → S → Prop) (inv : S → Prop)
    (view : S → ι → Option A) (machine : A → E → A → Prop) : Prop where
  keeps : ∀ {s l s'}, inv s → step s l s' → inv s'
  others : ∀ {s l s'}, inv s → step s l s' → ∀ i, l.component? ≠ some i → view s' i = view s i
  created : ∀ {s s' i a}, inv s → step s (.created i a) s' → view s' i = some a
  acted : ∀ {s s' i e}, inv s → step s (.acted i e) s' →
    ∃ a a', view s i = some a ∧ view s' i = some a' ∧ machine a e a'
  removed : ∀ {s s' i}, inv s → step s (.removed i) s' → view s' i = none

variable {step : S → Label ι A E → S → Prop} {inv : S → Prop} {view : S → ι → Option A}
  {machine : A → E → A → Prop} {s₀ s : S} {log : List (Label ι A E)}

theorem Independent.inv_of_run (h : Independent step inv view machine) (hinit : inv s₀)
    (hrun : Run step s₀ log s) : inv s := by
  induction hrun with
  | start => exact hinit
  | step _ hstep ih => exact h.keeps ih hstep

/-- A property of a component holds until the component breaks it. -/
theorem Independent.maintains (h : Independent step inv view machine) {Q : A → Prop} {P : E → Prop}
    (hact : ∀ {a e a'}, Q a → P e → machine a e a' → Q a') (hinv : inv s₀)
    (hrun : Run step s₀ log s) {i : ι}
    (hlog : ∀ l ∈ log, l.component? = some i → ∃ e, l = .acted i e ∧ P e)
    (hview : ∃ a, view s₀ i = some a ∧ Q a) : ∃ a, view s i = some a ∧ Q a := by
  induction hrun with
  | start => exact hview
  | @step log l s s' hrun hstep ih =>
    have hinv' := h.inv_of_run hinv hrun
    obtain ⟨a, ha, hQ⟩ := ih fun l hl => hlog l (List.mem_append_left _ hl)
    by_cases hi : l.component? = some i
    · obtain ⟨e, rfl, hP⟩ := hlog l (by simp) hi
      obtain ⟨b, b', hb, hb', hm⟩ := h.acted hinv' hstep
      obtain rfl := Option.some.inj (ha.symm.trans hb)
      exact ⟨b', hb', hact hQ hP hm⟩
    · exact ⟨a, (h.others hinv' hstep i hi).trans ha, hQ⟩

variable [DecidableEq ι]

/-- **The lives of the components.**  Each component is what its own machine has made of it. -/
theorem Independent.lives (h : Independent step inv view machine) (hinit : inv s₀)
    (hnone : ∀ i, view s₀ i = none) (hrun : Run step s₀ log s) (i : ι) :
    Option.Rel (fun x a => Accepts machine x.1 x.2 a) (life i log) (view s i) := by
  induction hrun with
  | start =>
    rw [hnone]
    exact .none
  | @step log l s s' hrun hstep ih =>
    have hinv := h.inv_of_run hinit hrun
    rw [life_append]
    by_cases hi : l.component? = some i
    swap
    · rw [lifeAfter_other hi, h.others hinv hstep i hi]
      exact ih
    cases l with
    | silent => cases hi
    | created j a =>
      obtain rfl := Option.some.inj hi
      rw [h.created hinv hstep, lifeAfter, if_pos rfl]
      exact .some .start
    | acted j e =>
      obtain rfl := Option.some.inj hi
      obtain ⟨a, a', hbefore, hafter, hact⟩ := h.acted hinv hstep
      rw [hbefore] at ih
      rw [hafter, lifeAfter, if_pos rfl]
      -- the component was there, so the log knows how it began
      generalize life j log = x at ih
      cases ih with
      | some hruns => exact .some (hruns.act hact)
    | removed j =>
      obtain rfl := Option.some.inj hi
      rw [h.removed hinv hstep, lifeAfter, if_pos rfl]
      exact .none

end RCoreKernel.Components
