import Mathlib.Data.List.Induction
import Mathlib.Logic.Function.Basic
import Mathlib.Logic.Relation

/-!
# The spin lock (`os/src/sync/spin.rs`)

Any number of harts share a lock and the data in it.  A hart calls `lock`, which tries
`compare_exchange_weak` until it succeeds; while it has the guard it reads and writes the data through
it; dropping the guard unlocks.  The steps of different harts interleave in any order, and an exchange
may fail for no reason.  Reading the data and writing it back are two steps.

* `Step.serial` — what one step keeps;
* `run_serial` — **every run is a sequence of critical sections**, one after the other, and the data
  is what their updates make of it;
* `relock_spins` — **a hart that locks again while it has the guard never gets out**.
-/

namespace RCoreKernel.Sync

variable {H T : Type}

/-- A hart: the guard that it has, with what it has read through it, and whether it is in `lock`. -/
structure Hart (T : Type) where
  guard : Option (Option T)
  inLock : Bool

/-- `SpinLock`, and the harts that use it. -/
structure SpinLock (H T : Type) where
  locked : Bool
  data : T
  harts : H → Hart T

/-- `SpinLock::new`. -/
def SpinLock.new (data : T) : SpinLock H T := ⟨false, data, fun _ => ⟨none, false⟩⟩

/-- What the lock and its data show of a run. -/
inductive Event (H T : Type)
  | acquired (h : H)
  | updated (h : H) (f : T → T)
  | released (h : H)

section Steps

variable [DecidableEq H]

/-- One hart changes. -/
def SpinLock.setHart (s : SpinLock H T) (h : H) (hart : Hart T) : SpinLock H T :=
  { s with harts := Function.update s.harts h hart }

theorem SpinLock.setHart_harts (s : SpinLock H T) (h g : H) (hart : Hart T) :
    (s.setHart h hart).harts g = if g = h then hart else s.harts g :=
  Function.update_apply s.harts h hart g

/-- One step of one hart. -/
inductive Step : SpinLock H T → Option (Event H T) → SpinLock H T → Prop
  /-- `lock` is called. -/
  | call (s : SpinLock H T) (h : H) (hout : (s.harts h).inLock = false) :
      Step s none (s.setHart h ⟨(s.harts h).guard, true⟩)
  /-- `compare_exchange_weak` fails. -/
  | retry (s : SpinLock H T) (h : H) (hin : (s.harts h).inLock = true) : Step s none s
  /-- `compare_exchange_weak` succeeds, and `lock` returns a `SpinGuard`. -/
  | exchange (s : SpinLock H T) (h : H) (hin : (s.harts h).inLock = true)
      (hfree : s.locked = false) :
      Step s (some (.acquired h)) ({ s with locked := true }.setHart h ⟨some none, false⟩)
  /-- The data is read through `Deref`. -/
  | deref (s : SpinLock H T) (h : H) (read : Option T) (hhart : s.harts h = ⟨some read, false⟩) :
      Step s none (s.setHart h ⟨some (some s.data), false⟩)
  /-- What was read is changed and written through `DerefMut`. -/
  | derefMut (s : SpinLock H T) (h : H) (x : T) (f : T → T)
      (hhart : s.harts h = ⟨some (some x), false⟩) :
      Step s (some (.updated h f)) ({ s with data := f x }.setHart h ⟨some none, false⟩)
  /-- The guard is dropped, which calls `unlock`. -/
  | drop (s : SpinLock H T) (h : H) (read : Option T) (hhart : s.harts h = ⟨some read, false⟩) :
      Step s (some (.released h)) ({ s with locked := false }.setHart h ⟨none, false⟩)

/-- The runs, with what they show. -/
inductive Run (s₀ : SpinLock H T) : List (Event H T) → SpinLock H T → Prop
  | start : Run s₀ [] s₀
  | step {log : List (Event H T)} {s s' : SpinLock H T} {e : Option (Event H T)}
      (hrun : Run s₀ log s) (hstep : Step s e s') : Run s₀ (log ++ e.toList) s'

end Steps

/-! ### Critical sections -/

/-- The updates that a hart makes while it has the guard. -/
structure CriticalSection (H T : Type) where
  hart : H
  updates : List (T → T)

namespace CriticalSection

/-- What a section shows before the guard is dropped, -/
def opened (c : CriticalSection H T) : List (Event H T) :=
  .acquired c.hart :: c.updates.map (.updated c.hart)

/-- and after that. -/
def events (c : CriticalSection H T) : List (Event H T) := c.opened ++ [.released c.hart]

/-- The updates, one after the other. -/
def apply (x : T) (c : CriticalSection H T) : T := c.updates.foldl (fun x f => f x) x

/-- One more update. -/
def snoc (c : CriticalSection H T) (f : T → T) : CriticalSection H T := ⟨c.hart, c.updates ++ [f]⟩

theorem opened_snoc (c : CriticalSection H T) (f : T → T) :
    (c.snoc f).opened = c.opened ++ [.updated c.hart f] := by
  rw [opened, opened, snoc, List.map_append, List.map_singleton]
  rfl

theorem apply_snoc (c : CriticalSection H T) (f : T → T) (x : T) :
    (c.snoc f).apply x = f (c.apply x) := by
  rw [apply, apply, snoc, List.foldl_append]
  rfl

end CriticalSection

/-- The sections `done` are over, and the section `current` is not.  Only the hart of this section
has a guard, and what it has read through it is still there. -/
structure Serial (x₀ : T) (log : List (Event H T)) (s : SpinLock H T)
    (done : List (CriticalSection H T)) (current : Option (CriticalSection H T)) : Prop where
  log_eq : log = done.flatMap CriticalSection.events ++ (current.map CriticalSection.opened).getD []
  data_eq : s.data = (done ++ current.toList).foldl CriticalSection.apply x₀
  locked_eq : s.locked = current.isSome
  holds_iff : ∀ h, (s.harts h).guard ≠ none ↔ ∃ c, current = some c ∧ c.hart = h
  fresh : ∀ h x, (s.harts h).guard = some (some x) → x = s.data

variable {x₀ : T} {log : List (Event H T)} {s s' : SpinLock H T} {done : List (CriticalSection H T)}
  {current : Option (CriticalSection H T)} {e : Option (Event H T)}

theorem serial_new (x₀ : T) : Serial x₀ [] (SpinLock.new x₀ : SpinLock H T) [] none where
  log_eq := rfl
  data_eq := rfl
  locked_eq := rfl
  holds_iff := fun _ => ⟨fun h => absurd rfl h, fun ⟨_, hc, _⟩ => by cases hc⟩
  fresh := fun _ _ h => by cases h

/-- The hart with the guard is in the section that is not over. -/
theorem Serial.section_of_holds (hs : Serial x₀ log s done current) {h : H} {read : Option T}
    (hhart : s.harts h = ⟨some read, false⟩) : ∃ c, current = some c ∧ c.hart = h := by
  refine (hs.holds_iff h).mp ?_
  rw [hhart]
  exact Option.some_ne_none _

/-- Nobody else has a guard. -/
theorem Serial.alone {c : CriticalSection H T} (hs : Serial x₀ log s done (some c)) {g : H}
    (hne : g ≠ c.hart) : (s.harts g).guard = none := by
  by_contra hg
  obtain ⟨c', hc', he⟩ := (hs.holds_iff g).mp hg
  obtain rfl := Option.some.inj hc'
  exact hne he.symm

theorem Serial.nobody (hs : Serial x₀ log s done none) (g : H) : (s.harts g).guard = none := by
  by_contra hg
  obtain ⟨c, hc, -⟩ := (hs.holds_iff g).mp hg
  cases hc

variable [DecidableEq H]

/-! A hart gets or loses a guard, when nobody else has one. -/

theorem setHart_holds (c : CriticalSection H T)
    (halone : ∀ g, g ≠ c.hart → (s.harts g).guard = none) {hart : Hart T} (hguard : hart.guard ≠ none)
    (g : H) : ((s.setHart c.hart hart).harts g).guard ≠ none ↔ ∃ c', some c = some c' ∧ c'.hart = g := by
  rw [SpinLock.setHart_harts]
  split
  · rename_i hg
    exact ⟨fun _ => ⟨c, rfl, hg.symm⟩, fun _ => hguard⟩
  · rename_i hg
    refine ⟨fun hno => absurd (halone g hg) hno, fun ⟨c', hc', he⟩ => ?_⟩
    obtain rfl := Option.some.inj hc'
    exact absurd he.symm hg

theorem setHart_fresh {h : H} (halone : ∀ g, g ≠ h → (s.harts g).guard = none) {hart : Hart T} {data : T}
    (hfresh : ∀ x, hart.guard = some (some x) → x = data) (g : H) (x : T)
    (hg : ((s.setHart h hart).harts g).guard = some (some x)) : x = data := by
  rw [SpinLock.setHart_harts] at hg
  split at hg
  · exact hfresh x hg
  · rename_i hne
    rw [halone g hne] at hg
    cases hg

/-- `lock` is called. -/
theorem Serial.call (hs : Serial x₀ log s done current) (h : H) :
    Serial x₀ log (s.setHart h ⟨(s.harts h).guard, true⟩) done current := by
  have hguard : ∀ g, ((s.setHart h ⟨(s.harts h).guard, true⟩).harts g).guard = (s.harts g).guard := by
    intro g
    rw [SpinLock.setHart_harts]
    split
    · rename_i hg
      rw [hg]
    · rfl
  refine ⟨hs.log_eq, hs.data_eq, hs.locked_eq, fun g => ?_, fun g x hg => ?_⟩
  · rw [hguard g]
    exact hs.holds_iff g
  · rw [hguard g] at hg
    exact hs.fresh g x hg

/-- A section begins. -/
theorem Serial.exchange (hs : Serial x₀ log s done none) (h : H) :
    Serial x₀ (log ++ [.acquired h]) ({ s with locked := true }.setHart h ⟨some none, false⟩) done
      (some ⟨h, []⟩) := by
  refine ⟨?_, ?_, rfl, setHart_holds ⟨h, []⟩ (fun g _ => hs.nobody g) (Option.some_ne_none _),
    setHart_fresh (fun g _ => hs.nobody g) fun _ hg => by cases hg⟩
  · rw [hs.log_eq]
    simp [CriticalSection.opened]
  · rw [Option.toList_some, List.foldl_append]
    have hdata := hs.data_eq
    rw [Option.toList_none, List.append_nil] at hdata
    exact hdata

/-- The data is read. -/
theorem Serial.deref {c : CriticalSection H T} (hs : Serial x₀ log s done (some c)) :
    Serial x₀ log (s.setHart c.hart ⟨some (some s.data), false⟩) done (some c) :=
  ⟨hs.log_eq, hs.data_eq, hs.locked_eq, setHart_holds c (fun _ => hs.alone) (Option.some_ne_none _),
    setHart_fresh (fun _ => hs.alone) fun _ hg => (Option.some.inj (Option.some.inj hg)).symm⟩

/-- One more update. -/
theorem Serial.derefMut {c : CriticalSection H T} (hs : Serial x₀ log s done (some c)) (f : T → T) :
    Serial x₀ (log ++ [.updated c.hart f])
      ({ s with data := f s.data }.setHart c.hart ⟨some none, false⟩) done (some (c.snoc f)) := by
  refine ⟨?_, ?_, hs.locked_eq, setHart_holds (c.snoc f) (fun _ => hs.alone) (Option.some_ne_none _),
    setHart_fresh (fun _ => hs.alone) fun _ hg => by cases hg⟩
  · rw [hs.log_eq]
    show _ = _ ++ (c.snoc f).opened
    rw [c.opened_snoc]
    simp
  · have hdata := hs.data_eq
    rw [Option.toList_some, List.foldl_append] at hdata ⊢
    show f s.data = (c.snoc f).apply _
    rw [c.apply_snoc, hdata]
    rfl

/-- The section ends. -/
theorem Serial.drop {c : CriticalSection H T} (hs : Serial x₀ log s done (some c)) :
    Serial x₀ (log ++ [.released c.hart]) ({ s with locked := false }.setHart c.hart ⟨none, false⟩)
      (done ++ [c]) none := by
  refine ⟨?_, ?_, rfl, fun g => ⟨fun hno => ?_, fun ⟨_, hc', _⟩ => by cases hc'⟩,
    setHart_fresh (fun _ => hs.alone) fun _ hg => by cases hg⟩
  · rw [hs.log_eq]
    simp [CriticalSection.events]
  · rw [Option.toList_none, List.append_nil]
    exact hs.data_eq
  · rw [SpinLock.setHart_harts] at hno
    split at hno
    · exact absurd rfl hno
    · rename_i hg
      exact absurd (hs.alone hg) hno

/-- **One step** begins a section, works in it, ends it or does not show. -/
theorem Step.serial (hstep : Step s e s') (hs : Serial x₀ log s done current) :
    ∃ done' current', Serial x₀ (log ++ e.toList) s' done' current' := by
  cases hstep with
  | call h hout =>
    rw [Option.toList_none, List.append_nil]
    exact ⟨done, current, hs.call h⟩
  | retry h hin =>
    rw [Option.toList_none, List.append_nil]
    exact ⟨done, current, hs⟩
  | exchange h hin hfree =>
    -- the lock was free, so no section is open
    obtain rfl : current = none := by
      have hnone := hs.locked_eq
      rw [hfree] at hnone
      cases current with
      | none => rfl
      | some c => cases hnone
    exact ⟨done, _, hs.exchange h⟩
  | deref h read hhart =>
    obtain ⟨c, rfl, rfl⟩ := hs.section_of_holds hhart
    rw [Option.toList_none, List.append_nil]
    exact ⟨done, _, hs.deref⟩
  | derefMut h x f hhart =>
    obtain ⟨c, rfl, rfl⟩ := hs.section_of_holds hhart
    obtain rfl := hs.fresh c.hart x (by rw [hhart])
    exact ⟨done, _, hs.derefMut f⟩
  | drop h read hhart =>
    obtain ⟨c, rfl, rfl⟩ := hs.section_of_holds hhart
    exact ⟨_, none, hs.drop⟩

theorem Run.serial (hrun : Run (SpinLock.new x₀) log s) :
    ∃ done current, Serial x₀ log s done current := by
  induction hrun with
  | start => exact ⟨[], none, serial_new x₀⟩
  | step _ hstep ih =>
    obtain ⟨done, current, hs⟩ := ih
    exact hstep.serial hs

/-- **Every run is a sequence of critical sections.**  However the steps of the harts interleave,
what shows is a list of whole sections, one after the other, and at most one that has begun; the lock
is taken exactly during that one and only its hart has a guard; the data is what the updates of all
sections make of it in their order, so no update is lost. -/
theorem run_serial (hrun : Run (SpinLock.new x₀) log s) :
    ∃ done current, Serial x₀ log s done current :=
  hrun.serial

/-- Two harts want the lock; one of them counts, while the other is waiting, and then the other has
it. -/
theorem run_serial_two : ∃ (s : SpinLock Bool ℕ) (log : List (Event Bool ℕ)),
    Run (SpinLock.new 0) log s ∧ log.length = 4 ∧ s.locked = true ∧ s.data = 1 ∧
      ∃ done current, Serial 0 log s done current := by
  have h₁ := Run.step (@Run.start Bool ℕ _ (SpinLock.new 0)) (.call _ false rfl)
  have h₂ := h₁.step (.call _ true rfl)
  have h₃ := h₂.step (.exchange _ false rfl rfl)
  have h₄ := h₃.step (.deref _ false none rfl)
  have h₅ := h₄.step (.retry _ true rfl)
  have h₆ := h₅.step (.derefMut _ false 0 (fun x => x + 1) rfl)
  have h₇ := h₆.step (.drop _ false none rfl)
  have h₈ := h₇.step (.exchange _ true rfl rfl)
  exact ⟨_, _, h₈, rfl, rfl, rfl, run_serial h₈⟩

/-! ### Locking again -/

/-- The hart has the guard and is in `lock` again, for ever. -/
def Relocked (h : H) (s : SpinLock H T) : Prop :=
  s.locked = true ∧ (s.harts h).guard ≠ none ∧ (s.harts h).inLock = true

theorem Step.relocked {h : H} (hstep : Step s e s') (hs : Serial x₀ log s done current)
    (hr : Relocked h s) : Relocked h s' ∧ s'.data = s.data := by
  obtain ⟨hlocked, hguard, hin⟩ := hr
  -- the only hart that could unlock is this one
  have hother : ∀ {g : H} {read : Option T}, s.harts g = ⟨some read, false⟩ → False := by
    intro g read hhart
    obtain ⟨c, rfl, rfl⟩ := hs.section_of_holds hhart
    obtain ⟨c', hc', he⟩ := (hs.holds_iff h).mp hguard
    obtain rfl := Option.some.inj hc'
    rw [← he, hhart] at hin
    cases hin
  cases hstep with
  | call g hout =>
    have hne : h ≠ g := fun he => by
      rw [he, hout] at hin
      cases hin
    rw [Relocked, SpinLock.setHart_harts, if_neg hne]
    exact ⟨⟨hlocked, hguard, hin⟩, rfl⟩
  | retry => exact ⟨⟨hlocked, hguard, hin⟩, rfl⟩
  | exchange g hin' hfree =>
    rw [hlocked] at hfree
    cases hfree
  | deref g read hhart => exact (hother hhart).elim
  | derefMut g x f hhart => exact (hother hhart).elim
  | drop g read hhart => exact (hother hhart).elim

/-- **A hart that locks again while it has the guard never gets out of `lock`**, whatever the other
harts do, and the data stays as it is. -/
theorem relock_spins {h : H} (hrun : Run (SpinLock.new x₀) log s) (hr : Relocked h s)
    (hmore : Relation.ReflTransGen (fun s s' => ∃ e, Step s e s') s s') :
    Relocked h s' ∧ s'.data = s.data := by
  obtain ⟨done, current, hs⟩ := hrun.serial
  suffices hall : (Relocked h s' ∧ s'.data = s.data) ∧ ∃ log done current, Serial x₀ log s' done current
    from hall.1
  induction hmore with
  | refl => exact ⟨⟨hr, rfl⟩, log, done, current, hs⟩
  | tail _ hstep ih =>
    obtain ⟨⟨hr', hdata⟩, log', done', current', hs'⟩ := ih
    obtain ⟨e, hstep⟩ := hstep
    obtain ⟨hr'', hsame⟩ := hstep.relocked hs' hr'
    obtain ⟨done'', current'', hs''⟩ := hstep.serial hs'
    exact ⟨⟨hr'', hsame.trans hdata⟩, _, done'', current'', hs''⟩

/-- A hart takes the lock, calls `lock` again and fails once. -/
theorem relock_spins_one : ∃ (s s' : SpinLock Bool ℕ) (log : List (Event Bool ℕ)),
    Run (SpinLock.new 0) log s ∧ Relocked false s ∧
      Relation.ReflTransGen (fun s s' => ∃ e, Step s e s') s s' ∧
      (Relocked false s' ∧ s'.data = s.data) := by
  have h₁ := Run.step (@Run.start Bool ℕ _ (SpinLock.new 0)) (.call _ false rfl)
  have h₂ := h₁.step (.exchange _ false rfl rfl)
  have h₃ := h₂.step (.call _ false rfl)
  generalize hs : SpinLock.setHart _ false ⟨_, true⟩ = s at h₃
  have hr : Relocked false s := by
    rw [← hs]
    exact ⟨rfl, Option.some_ne_none _, rfl⟩
  have hmore : Relation.ReflTransGen (fun s s' => ∃ e, Step s e s') s s :=
    .single ⟨none, .retry s false hr.2.2⟩
  exact ⟨s, s, _, h₃, hr, hmore, relock_spins h₃ hr hmore⟩

end RCoreKernel.Sync
