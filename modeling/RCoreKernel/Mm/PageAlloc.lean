import RCoreKernel.Lib.Ledger
import RCoreKernel.Lib.Radix
import RCoreKernel.Mm.Address

/-!
# The physical page allocator (`os/src/mm/page_alloc.rs`)

Physical memory is the word stored in each slot of each page; a page has 512 slots of eight
bytes.  The allocator hands out recycled pages first, newest first, and then pages that were
never used.  A `Page` is its physical page number; dropping it pushes the number on the
recycled list, which the callers do explicitly.

`Phys.Accounted first k held` is the allocator's side of every conservation statement: each
page number issued so far is either recycled or in `held`, once.
-/

namespace RCoreKernel.Mm

/-- Words of physical memory, by physical page number and slot. -/
abbrev Mem := ℕ → ℕ → ℕ

/-- `PageAllocator`. -/
structure PageAllocator where
  nextUnusedPpn : ℕ
  /-- The exclusive upper bound of valid page numbers. -/
  maxPpn : ℕ
  recycledPpn : List ℕ
  deriving DecidableEq, Repr

def PageAllocator.alloc (a : PageAllocator) : Option (ℕ × PageAllocator) :=
  match a.recycledPpn.getLast? with
  | some ppn => some (ppn, { a with recycledPpn := a.recycledPpn.dropLast })
  | none =>
    if a.maxPpn ≤ a.nextUnusedPpn then none
    else some (a.nextUnusedPpn, { a with nextUnusedPpn := a.nextUnusedPpn + 1 })

def PageAllocator.dealloc (a : PageAllocator) (page : ℕ) : PageAllocator :=
  { a with recycledPpn := a.recycledPpn ++ [page] }

/-- `compute_first_unused_ppn`, from the linker symbol `kernel_end`. -/
def computeFirstUnusedPpn (kernelEnd : ℕ) : Option ℕ :=
  (getPaFromVa kernelEnd).bind fun kernelEndPa =>
    if kernelEndPa &&& (pageSizeBytes - 1) = 0 then PPN.fromPa kernelEndPa
    else PPN.fromPa (kernelEndPa + pageSizeBytes)

/-- `compute_max_ppn`; both of its alignment assertions are about constants and hold. -/
def computeMaxPpn : Option ℕ := PPN.fromPa (memStartPa + memSizeBytes)

/-- The page number of the end of memory, which is `computeMaxPpn`. -/
def memEndPpn : ℕ := (memStartPa + memSizeBytes) >>> pageSizeOrder

theorem memEndPpn_eq : memEndPpn = 0x88000 := rfl

theorem computeMaxPpn_eq : computeMaxPpn = some memEndPpn := rfl

/-- The initial value of `PAGE_ALLOCATOR`. -/
def initialAllocator (kernelEnd : ℕ) : Option PageAllocator :=
  (computeFirstUnusedPpn kernelEnd).bind fun nextUnusedPpn =>
    computeMaxPpn.map fun maxPpn => ⟨nextUnusedPpn, maxPpn, []⟩

/-- Physical memory and the global allocator. -/
structure Phys where
  mem : Mem
  alloc : PageAllocator

namespace Phys

/-- `alloc_page`: the page may contain old data. -/
def allocPage (k : Phys) : Option (ℕ × Phys) :=
  k.alloc.alloc.map fun r => (r.1, { k with alloc := r.2 })

/-- `alloc_zeroed_page`. -/
def allocZeroedPage (k : Phys) : Option (ℕ × Phys) :=
  k.allocPage.map fun r => (r.1, { r.2 with mem := Radix.fill r.2.mem r.1 0 })

/-- `Drop for Page`. -/
def dropPage (k : Phys) (page : ℕ) : Phys := { k with alloc := k.alloc.dealloc page }

/-- Dropping several pages, first to last. -/
def dropPages (k : Phys) (pages : List ℕ) : Phys := pages.foldl dropPage k

/-- Every page number issued from `first` on is recycled or in `held`, once. -/
structure Accounted (first : ℕ) (k : Phys) (held : List ℕ) : Prop where
  ledger : Ledger.Balanced first k.alloc.nextUnusedPpn k.alloc.recycledPpn held
  next_le : k.alloc.nextUnusedPpn ≤ memEndPpn
  max_le : k.alloc.maxPpn ≤ memEndPpn

variable {first : ℕ} {k k' : Phys} {held held' : List ℕ} {page : ℕ}

theorem Accounted.lt_memEnd (h : Accounted first k held) (hp : page ∈ held) : page < memEndPpn := by
  have := (h.ledger.mem_iff (p := page)).mp (Or.inr hp)
  have := h.next_le
  omega

theorem Accounted.lt (h : Accounted first k held) (hp : page ∈ held) : page < 2 ^ 44 := by
  have := h.lt_memEnd hp
  rw [memEndPpn_eq] at this
  omega

/-- A page in use has an address in the kernel's window on physical memory. -/
theorem Accounted.getVaFromPa (h : Accounted first k held) (hp : page ∈ held) :
    getVaFromPa (PPN.getPa page) = some (page * 4096 + kernelVaOffset) := by
  have := h.lt_memEnd hp
  rw [memEndPpn_eq] at this
  have hpa : PPN.getPa page = page * 4096 := by
    rw [PPN.getPa, Nat.shiftLeft_eq, wrap_of_lt]
    · rfl
    · rw [pageSizeOrder]
      omega
  rw [hpa, Mm.getVaFromPa, if_pos]
  simp only [kernelVaOffset]
  omega

theorem Accounted.congr (h : Accounted first k held) (hp : held.Perm held') :
    Accounted first k held' :=
  ⟨h.ledger.congr hp, h.next_le, h.max_le⟩

/-- Only the allocator matters. -/
theorem Accounted.of_alloc_eq (h : Accounted first k held) (he : k'.alloc = k.alloc) :
    Accounted first k' held := by
  obtain ⟨h1, h2, h3⟩ := h
  exact ⟨by rwa [he], by rwa [he], by rwa [he]⟩

/-- What a successful allocation does to the allocator. -/
theorem alloc_cases {a a' : PageAllocator} (h : a.alloc = some (page, a')) :
    (a.recycledPpn = a'.recycledPpn ++ [page] ∧ a'.nextUnusedPpn = a.nextUnusedPpn ∧
        a'.maxPpn = a.maxPpn) ∨
      (a.recycledPpn = [] ∧ a'.recycledPpn = [] ∧ page = a.nextUnusedPpn ∧
        a.nextUnusedPpn < a.maxPpn ∧ a'.nextUnusedPpn = a.nextUnusedPpn + 1 ∧
        a'.maxPpn = a.maxPpn) := by
  unfold PageAllocator.alloc at h
  split at h
  · rename_i ppn hlast
    obtain ⟨rfl, rfl⟩ := Prod.mk.inj (Option.some.inj h)
    refine Or.inl ⟨?_, rfl, rfl⟩
    obtain ⟨ys, hys⟩ := List.getLast?_eq_some_iff.mp hlast
    simp [hys]
  · rename_i hlast
    have hnil : a.recycledPpn = [] := by simpa using hlast
    split at h
    · cases h
    · obtain ⟨rfl, rfl⟩ := Prod.mk.inj (Option.some.inj h)
      exact Or.inr ⟨hnil, hnil, rfl, by omega, rfl, rfl⟩

theorem Accounted.alloc (h : Accounted first k held) {a' : PageAllocator}
    (ha : k.alloc.alloc = some (page, a')) :
    Accounted first { k with alloc := a' } (page :: held) := by
  rcases alloc_cases ha with ⟨h1, h2, h3⟩ | ⟨h1, h1', rfl, h2, h3, h4⟩
  · refine ⟨?_, by simpa [h2] using h.next_le, by simpa [h3] using h.max_le⟩
    have hl := h.ledger
    rw [h1] at hl
    simpa [h2] using hl.reissue
  · refine ⟨?_, ?_, by simpa [h4] using h.max_le⟩
    · have hl := h.ledger
      rw [h1] at hl
      simpa [h1', h3] using hl.issue
    · have := h.max_le
      simp only [h3]
      omega

/-- A newly allocated page was held by nobody, and nothing else changes. -/
theorem allocPage_spec (h : Accounted first k held) (ha : k.allocPage = some (page, k')) :
    Accounted first k' (page :: held) ∧ page ∉ held ∧ k'.mem = k.mem := by
  obtain ⟨⟨p, a'⟩, hal, he⟩ := Option.map_eq_some_iff.mp ha
  obtain ⟨rfl, rfl⟩ := Prod.mk.inj he
  have hacc := h.alloc hal
  exact ⟨hacc, (List.nodup_cons.mp hacc.ledger.held_nodup).1, rfl⟩

theorem allocZeroedPage_spec (h : Accounted first k held)
    (ha : k.allocZeroedPage = some (page, k')) :
    Accounted first k' (page :: held) ∧ page ∉ held ∧ k'.mem = Radix.fill k.mem page 0 := by
  obtain ⟨⟨p, k₁⟩, hal, he⟩ := Option.map_eq_some_iff.mp ha
  obtain ⟨rfl, rfl⟩ := Prod.mk.inj he
  obtain ⟨h1, h2, h3⟩ := allocPage_spec h hal
  exact ⟨h1.of_alloc_eq rfl, h2, by simp [h3]⟩

/-- The number of pages that can still be handed out. -/
def available (k : Phys) : ℕ := k.alloc.recycledPpn.length + (k.alloc.maxPpn - k.alloc.nextUnusedPpn)

theorem allocZeroedPage_of_available (h : 0 < k.available) :
    ∃ page k', k.allocZeroedPage = some (page, k') ∧ k'.available + 1 = k.available := by
  unfold available at h ⊢
  unfold allocZeroedPage allocPage PageAllocator.alloc
  split
  · rename_i ppn hlast
    obtain ⟨ys, hys⟩ := List.getLast?_eq_some_iff.mp hlast
    refine ⟨ppn, _, rfl, ?_⟩
    simp [hys]
    omega
  · rename_i hlast
    have hnil : k.alloc.recycledPpn = [] := by simpa using hlast
    rw [hnil, List.length_nil] at h
    rw [if_neg (by omega)]
    refine ⟨_, _, rfl, ?_⟩
    simp only [hnil, List.length_nil]
    omega

theorem allocZeroedPage_eq_none : k.allocZeroedPage = none ↔ k.available = 0 := by
  constructor
  · intro h
    by_contra hne
    obtain ⟨page, k', hal, -⟩ := allocZeroedPage_of_available (Nat.pos_of_ne_zero hne)
    rw [h] at hal
    cases hal
  · intro h
    unfold available at h
    have hnil : k.alloc.recycledPpn = [] := List.length_eq_zero_iff.mp (by omega)
    unfold allocZeroedPage allocPage PageAllocator.alloc
    rw [hnil]
    dsimp only [List.getLast?_nil]
    rw [if_pos (by omega)]
    rfl

theorem available_of_alloc (h : k.allocZeroedPage = some (page, k')) :
    k'.available + 1 = k.available := by
  have hpos : 0 < k.available := by
    by_contra hne
    rw [allocZeroedPage_eq_none.mpr (by omega)] at h
    cases h
  obtain ⟨_, _, hal, hav⟩ := allocZeroedPage_of_available hpos
  rw [hal] at h
  cases h
  exact hav

/-- There are never more pages than memory. -/
theorem Accounted.available_le (h : Accounted first k held) : k.available ≤ memEndPpn := by
  have hlen := h.ledger.perm.length_eq
  have hle := h.ledger.le
  have hnext := h.next_le
  have hmax := h.max_le
  rw [List.length_append, List.length_range'] at hlen
  unfold available
  omega

@[simp] theorem dropPage_mem : (k.dropPage page).mem = k.mem := rfl

theorem Accounted.dropPage (h : Accounted first k (page :: held)) :
    Accounted first (k.dropPage page) held :=
  ⟨h.ledger.giveBack, h.next_le, h.max_le⟩

@[simp] theorem dropPages_mem (pages : List ℕ) : (k.dropPages pages).mem = k.mem := by
  induction pages generalizing k with
  | nil => rfl
  | cons p ps ih => exact ih (k := k.dropPage p)

theorem dropPages_recycled (pages : List ℕ) :
    (k.dropPages pages).alloc = { k.alloc with recycledPpn := k.alloc.recycledPpn ++ pages } := by
  induction pages generalizing k with
  | nil => simp [dropPages]
  | cons p ps ih =>
    rw [show k.dropPages (p :: ps) = (k.dropPage p).dropPages ps from rfl, ih]
    simp [Phys.dropPage, PageAllocator.dealloc]

theorem Accounted.dropPages {pages : List ℕ} (h : Accounted first k (pages ++ held)) :
    Accounted first (k.dropPages pages) held := by
  refine ⟨?_, by simpa [dropPages_recycled] using h.next_le,
    by simpa [dropPages_recycled] using h.max_le⟩
  simpa [dropPages_recycled] using h.ledger.giveBackAll

end Phys

end RCoreKernel.Mm
