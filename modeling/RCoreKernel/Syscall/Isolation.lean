import RCoreKernel.Mm.Contents
import RCoreKernel.Mm.Spaces
import RCoreKernel.Syscall.Mm
import RCoreKernel.Task.Start

/-!
# No task sees what was left in a page

A run of one task on its space: system calls, page faults and stores of the task, and in between
whatever the rest of the system does with its own pages.  On the view of the space every event is a
function, so the run is one, too.

* `Event.onView` — an event, on the view;
* `Event.Does.view_eq` — the space does what the view does;
* `observed_alike` — **two tasks that do the same see the same**, whatever the free pages held and
  in whichever order they are handed out.
-/

namespace RCoreKernel.Syscall

open Mm Mm.VMSpace Mm.RootPgt Radix

/-- What a task does with its space. -/
inductive Event
  | request (r : Request)
  /-- a store of one byte that does not fault -/
  | store (va byte : ℕ)

/-- A page fault needs a page and at most two tables. -/
def Request.Enough (k : Phys) : Request → Prop
  | .fault _ _ => 3 ≤ k.available
  | _ => True

/-- The physical page of a user address. -/
def pageAt (st : SpaceState) (va : ℕ) : ℕ :=
  PTE.getPpn (pteAt st.phys.mem st.space.rootPgt.ppn (va / 4096))

/-- An event and the state it leaves. -/
inductive Event.Does (st : SpaceState) : Event → SpaceState → Prop
  | request (r : Request) (hraised : r.Raised st.phys st.space) (hfree : r.Enough st.phys) :
      Event.Does st (.request r)
        ⟨(r.exec st.phys st.space).2.1, (r.exec st.phys st.space).2.2⟩
  | store (va byte : ℕ) (hva : checkUVa va = true)
      (hpermits : Permits st.phys.mem st.space.rootPgt.ppn va .store) (hbyte : byte < 256) :
      Event.Does st (.store va byte)
        ⟨{ st.phys with mem := storeByte st.phys.mem (pageAt st va) (va % 4096) byte }, st.space⟩

/-- What happens between two events: nobody else writes the task's pages. -/
structure Elsewhere (img : KernelImage) (st st' : SpaceState) : Prop extends
    Interlude img st st' where
  data : ∀ a ∈ st.space.areas, a.mapType = .anonymous → ∀ p ∈ a.pages.values,
    st'.phys.mem p = st.phys.mem p

/-- The runs of a task, with their events. -/
inductive TaskRun (img : KernelImage) (start : SpaceState) : List Event → SpaceState → Prop
  | start : TaskRun img start [] start
  | elsewhere {events : List Event} {st st' : SpaceState} (hrun : TaskRun img start events st)
      (h : Elsewhere img st st') : TaskRun img start events st'
  | event {events : List Event} {st st' : SpaceState} {e : Event}
      (hrun : TaskRun img start events st) (h : e.Does st st') :
      TaskRun img start (events ++ [e]) st'

/-- A request, on the view. -/
def Request.onView (areas : View) : Request → View
  | .mmap addr len prot =>
    if mmapAccepts addr len prot then
      match VPN.fromVa addr, VPN.fromVa (endOfRange addr len) with
      | some startVpn, some endVpn => areas.addNewArea startVpn endVpn (toPermissions prot)
      | _, _ => areas
    else areas
  | .munmap addr len =>
    if !checkUVaRange addr len then areas
    else if len = 0 then areas
    else
      match VPN.fromVa addr, VPN.fromVa (endOfRange addr len) with
      | some startVpn, some endVpn => areas.unmap startVpn endVpn
      | _, _ => areas
  | .fault va access => areas.fault (va / 4096) access.minPermissions

/-- An event, on the view. -/
def Event.onView (areas : View) : Event → View
  | .request r => r.onView areas
  | .store va byte => areas.store va byte

/-- The space is in order, as far as the view needs it. -/
structure Orderly (img : KernelImage) (st : SpaceState) : Prop where
  ok : SpaceOk img st.phys.mem st.space
  regular : RegularUser st.phys.mem st.space.rootPgt.ppn
  accounted : ∃ first rest, st.phys.Accounted first (st.space.pages ++ rest) ∧
    ∀ p ∈ img.pages, p ∈ rest

/-- The view of a state. -/
def SpaceState.view (st : SpaceState) : View := st.space.view st.phys.mem

variable {img : KernelImage} {st st' : SpaceState}

theorem Orderly.of_viewed {first : ℕ} {rest : List ℕ} {view' : View}
    (hst : Orderly img st) (hrest : ∀ p ∈ img.pages, p ∈ rest)
    (hv : Viewed img first rest st.phys st.space st'.phys st'.space view') :
    Orderly img st' ∧ st'.view = view' :=
  ⟨⟨hv.kept.ok, hv.regular hst.regular, first, rest, hv.kept.accounted, hrest⟩, hv.view_eq⟩

/-! ### Requests -/

theorem mmap_onView {first : ℕ} {rest : List ℕ} {k : Phys} {s : VMSpace}
    (hok : SpaceOk img k.mem s) (hacc : k.Accounted first (s.pages ++ rest)) (addr len prot : ℕ) :
    Viewed img first rest k s ((Request.mmap addr len prot).exec k s).2.1
      ((Request.mmap addr len prot).exec k s).2.2
      ((Request.mmap addr len prot).onView (s.view k.mem)) := by
  unfold Request.exec Request.onView
  dsimp only
  unfold Syscall.mmap
  by_cases haccept : mmapAccepts addr len prot = true
  · rw [if_pos haccept, if_pos haccept]
    obtain ⟨hrange, -⟩ := Bool.and_eq_true_iff.mp haccept
    obtain ⟨hstart, hend, hle⟩ := vpn_of_checked hrange
    simp only [mmapTcb, hstart, hend]
    split
    · rename_i s' hadd
      exact addNewArea_view hok hacc hle hadd
    · rename_i e s' hadd
      exact addNewArea_view hok hacc hle hadd
  · rw [if_neg haccept, if_neg haccept]
    exact Viewed.refl hok hacc

theorem munmap_onView {first : ℕ} {rest : List ℕ} {k : Phys} {s : VMSpace}
    (hok : SpaceOk img k.mem s) (hacc : k.Accounted first (s.pages ++ rest))
    (hrest : ∀ p ∈ img.pages, p ∈ rest) (addr len : ℕ) :
    Viewed img first rest k s ((Request.munmap addr len).exec k s).2.1
      ((Request.munmap addr len).exec k s).2.2
      ((Request.munmap addr len).onView (s.view k.mem)) := by
  unfold Request.exec Request.onView
  dsimp only
  unfold Syscall.munmap
  by_cases hrange : (!checkUVaRange addr len) = true
  · rw [if_pos hrange, if_pos hrange]
    exact Viewed.refl hok hacc
  rw [if_neg hrange, if_neg hrange]
  by_cases hlen : len = 0
  · rw [if_pos hlen, if_pos hlen]
    exact Viewed.refl hok hacc
  rw [if_neg hlen, if_neg hlen]
  obtain ⟨hstart, hend, hle⟩ := vpn_of_checked (by simpa using hrange)
  have hpos : addr / 4096 ≤ (addr + len + 4095) / 4096 := by omega
  obtain ⟨k', s', hun, hv⟩ := unmap_view hok hacc hrest hle hpos
  simp only [munmapTcb, hstart, hend, hun]
  exact hv

theorem fault_onView {first : ℕ} {rest : List ℕ} {k : Phys} {s : VMSpace}
    (hok : SpaceOk img k.mem s) (hacc : k.Accounted first (s.pages ++ rest))
    (hrest : ∀ p ∈ img.pages, p ∈ rest) {va : ℕ} {access : Access}
    (hraised : (Request.fault va access).Raised k s) (hfree : 3 ≤ k.available) :
    Viewed img first rest k s ((Request.fault va access).exec k s).2.1
      ((Request.fault va access).exec k s).2.2
      ((Request.fault va access).onView (s.view k.mem)) := by
  obtain ⟨hva, hnot⟩ := hraised
  rw [checkUVa_iff] at hva
  have hv : va / 4096 < userEndVpn := by
    rw [userEndVpn_eq]
    omega
  by_cases hinv : PTE.isValid (pteAt k.mem s.rootPgt.ppn (va / 4096)) = true
  · -- the area has a page there and lacks a permission: nothing happens
    obtain ⟨page, a, ha, hav, hmem⟩ := (hok.agrees.valid_iff _ hv).mp hinv
    have hsame := fault_denied hok hv hinv hnot
    have hheld : ∀ b ∈ s.areas, b.containVpn (va / 4096) = true →
        b.pages.get? (va / 4096) = none → False := by
      intro b hb hbv hget
      obtain rfl := hok.agrees.area_unique ha hb hav hbv
      exact BTreeMap.get?_eq_none.mp hget page hmem
    have hview : (Request.fault va access).onView (s.view k.mem) = s.view k.mem :=
      fault_unserved hok hv fun b hb hbv hget _ => hheld b hb hbv hget
    rw [hview]
    unfold Request.exec
    simp only [mapFaultPage, VPN.fromVa_of_user (show va < 2 ^ 38 by omega), hsame]
    exact Viewed.refl hok hacc
  · have hinv : PTE.isValid (pteAt k.mem s.rootPgt.ppn (va / 4096)) = false := by simpa using hinv
    obtain ⟨res, k', s', hmap⟩ : ∃ res k' s',
        VMSpace.map k s (va / 4096) access.minPermissions = (res, k', s') := ⟨_, _, _, rfl⟩
    unfold Request.exec
    simp only [mapFaultPage, VPN.fromVa_of_user (show va < 2 ^ 38 by omega), hmap]
    exact map_view hok hacc hrest hv hinv hfree hmap

/-- The entry of a user page leads to the page of its area. -/
theorem pageAt_held {first : ℕ} {rest : List ℕ} {k : Phys} {s : VMSpace} (hok : SpaceOk img k.mem s)
    (hacc : k.Accounted first (s.pages ++ rest)) {va : ℕ} (hv : va / 4096 < userEndVpn)
    (hval : PTE.isValid (pteAt k.mem s.rootPgt.ppn (va / 4096)) = true) :
    s.Holds (va / 4096) (pageAt ⟨k, s⟩ va) := by
  obtain ⟨page, a, ha, hav, hmem⟩ := (hok.agrees.valid_iff _ hv).mp hval
  have hin : page ∈ a.pages.values := BTreeMap.mem_values.mpr ⟨_, hmem⟩
  have hpage : pageAt ⟨k, s⟩ va = page := by
    have hlt : page < 2 ^ 44 := hacc.lt (List.mem_append_left _ (mem_pages_of_mem_area ha hin))
    have hflags := lor_flagV_lt (hok.permissions a ha)
    rw [pageAt, (hok.agrees.pte_eq _ hv a ha page hav hmem).getPpn_eq, PTE.getPpn_eq]
    omega
  rw [hpage]
  exact ⟨a, ha, hav, hmem⟩

/-- A byte stored into a user page is in nobody else's memory. -/
theorem store_kept {first : ℕ} {rest : List ℕ} {k : Phys} {s : VMSpace} (hok : SpaceOk img k.mem s)
    (hreg : RegularUser k.mem s.rootPgt.ppn) (hacc : k.Accounted first (s.pages ++ rest))
    (hrest : ∀ p ∈ img.pages, p ∈ rest) {va page : ℕ} (hv : va / 4096 < userEndVpn)
    (hheld : s.Holds (va / 4096) page) (offset byte : ℕ) :
    Kept img first rest k s { k with mem := storeByte k.mem page offset byte } s ∧
      RegularUser (storeByte k.mem page offset byte) s.rootPgt.ppn := by
  obtain ⟨a, ha, hav, hmem⟩ := hheld
  have hin : page ∈ a.pages.values := BTreeMap.mem_values.mpr ⟨_, hmem⟩
  have hnot := not_table hacc ha hin
  have hothers : page ∉ rest := fun hp =>
    (List.nodup_append.mp hacc.ledger.held_nodup).2.2 page (mem_pages_of_mem_area ha hin) page hp rfl
  have htable : ∀ p, p ≠ page → storeByte k.mem page offset byte p = k.mem p :=
    fun p hp => storeByte_of_ne hp _ _
  have hown : ∀ p ∈ s.rootPgt.pages, storeByte k.mem page offset byte p = k.mem p :=
    fun p hp => htable p fun e => hnot (e ▸ hp)
  have hkernel : ∀ p ∈ img.pages, storeByte k.mem page offset byte p = k.mem p :=
    fun p hp => htable p fun e => hothers (e ▸ hrest p hp)
  refine ⟨⟨?_, hacc.of_alloc_eq rfl, fun p hp => htable p fun e => hothers (e ▸ hp), ?_,
    fun _ h _ => h, id, rfl, rfl⟩, ?_⟩
  · apply hok.frame
    · intro p hp j
      dsimp only
      rw [hown p hp]
      exact .refl _
    · intro p hp j
      dsimp only
      rw [hkernel p hp]
      exact hok.agrees.kernel_tables p hp j
  · -- the kernel stack lies elsewhere
    intro b hb hkern p hp
    apply htable
    rintro rfl
    obtain ⟨w, hw⟩ := BTreeMap.mem_values.mp hp
    obtain ⟨-, rfl⟩ := page_once hacc ha hb hmem hw
    have hbv := hok.agrees.keys b hb _ _ hw
    rcases hok.placement b hb with ⟨hanon, -⟩ | ⟨-, hstart, -⟩
    · rw [hkern] at hanon
      cases hanon
    · rw [VMArea.containVpn_iff] at hbv
      rw [userEndVpn_eq] at hv
      omega
  · refine hreg.frame hok.tables (fun i _ => ?_) (fun p hp _ j => ?_)
    · rw [hown _ hok.tables.root_mem]
      exact ⟨rfl, id⟩
    · rw [hown p hp]
      exact id

/-! ### Events -/

/-- **The space does what the view does.** -/
theorem Event.Does.view_eq {e : Event} (hst : Orderly img st) (h : e.Does st st') :
    Orderly img st' ∧ st'.view = e.onView st.view := by
  obtain ⟨first, rest, hacc, hrest⟩ := hst.accounted
  cases h with
  | request r hraised hfree =>
    cases r with
    | mmap addr len prot => exact hst.of_viewed hrest (mmap_onView hst.ok hacc addr len prot)
    | munmap addr len => exact hst.of_viewed hrest (munmap_onView hst.ok hacc hrest addr len)
    | fault va access => exact hst.of_viewed hrest (fault_onView hst.ok hacc hrest hraised hfree)
  | store va byte hva hpermits hbyte =>
    rw [checkUVa_iff] at hva
    have hv : va / 4096 < userEndVpn := by
      rw [userEndVpn_eq]
      omega
    have hheld := pageAt_held hst.ok hacc hv hpermits.1
    obtain ⟨hkept, hreg⟩ := store_kept hst.ok hst.regular hacc hrest hv hheld (va % 4096) byte
    exact ⟨⟨hkept.ok, hreg, first, rest, hkept.accounted, hrest⟩,
      store_view hst.ok hacc hv hheld hbyte⟩

/-- What the others do does not show. -/
theorem Elsewhere.view_eq (hst : Orderly img st) (h : Elsewhere img st st') :
    Orderly img st' ∧ st'.view = st.view := by
  have hown := h.tables
  have ht := hst.ok.tables
  refine ⟨⟨?_, ?_, ?_⟩, ?_⟩
  · rw [h.space_eq]
    exact hst.ok.frame hown fun p hp j => (h.kernel p hp j).trans (hst.ok.agrees.kernel_tables p hp j)
  · rw [h.space_eq]
    refine hst.regular.frame ht (fun i _ => ⟨(hown _ ht.root_mem i).child_eq, ?_⟩) (fun p hp _ j => ?_)
    · exact (hown _ ht.root_mem i).regular
    · exact (hown p hp j).regular
  · rw [h.space_eq]
    exact h.accounted
  · unfold SpaceState.view
    rw [h.space_eq]
    apply List.map_congr_left
    intro a ha
    by_cases hanon : a.mapType = .anonymous
    · exact VMArea.view_congr (h.data a ha hanon)
    · unfold VMArea.view
      rw [if_neg hanon, if_neg hanon]

/-- **A run of a task, on the view.** -/
theorem TaskRun.view_eq {start : SpaceState} {events : List Event} (hstart : Orderly img start)
    (hrun : TaskRun img start events st) :
    Orderly img st ∧ st.view = events.foldl Event.onView start.view := by
  induction hrun with
  | start => exact ⟨hstart, rfl⟩
  | elsewhere hrun h ih =>
    obtain ⟨hst, hview⟩ := ih
    obtain ⟨hst', hview'⟩ := h.view_eq hst
    exact ⟨hst', hview'.trans hview⟩
  | event hrun h ih =>
    obtain ⟨hst, hview⟩ := ih
    obtain ⟨hst', hview'⟩ := h.view_eq hst
    refine ⟨hst', ?_⟩
    rw [hview', hview, List.foldl_append]
    rfl

/-! ### Two runs -/

/-- A new space, and the run of its task. -/
structure Lived (img : KernelImage) (elf : Elf) (events : List Event) (st : SpaceState) : Prop where
  run : ∃ first rest k k' s, (∀ p ∈ img.pages, p ∈ rest) ∧ k.Accounted first rest ∧
    img.Intact k.mem ∧ newUser k img.root elf = (.ok s, k') ∧ TaskRun img ⟨k', s⟩ events st

/-- What a task sees is what its file and its own events make. -/
theorem Lived.observe_eq {elf : Elf} {events : List Event} (hbelow : Spaces.BelowStack elf)
    (h : Lived img elf events st) {va : ℕ} (hva : va < 2 ^ 38) :
    observe st.phys.mem st.space.rootPgt.ppn va =
      View.observe (events.foldl Event.onView (elfView elf)) va := by
  obtain ⟨first, rest, k, k', s, hrest, hacc, himg, hnew, hrun⟩ := h.run
  have hspec := newUser_spec hrest hacc himg hbelow.tame fun file hfile => hbelow.stackFree hfile
  rw [hnew] at hspec
  obtain ⟨hview, hreg⟩ := newUser_view hrest hacc himg hbelow.tame
    (fun file hfile => hbelow.stackFree hfile) hnew
  have hstart : Orderly img ⟨k', s⟩ := ⟨hspec.1.ok, hreg, first, rest, hspec.1.accounted, hrest⟩
  obtain ⟨hst, hview'⟩ := hrun.view_eq hstart
  obtain ⟨first', rest', hacc', -⟩ := hst.accounted
  rw [observe_view hst.ok hst.regular hacc' hva]
  show View.observe st.view va = _
  rw [hview', show SpaceState.view ⟨k', s⟩ = elfView elf from hview]

/-- **Two tasks that do the same see the same.**  From any contents of physical memory, with any
free pages in any order, the same file and the same events give the same translations, with the
same permissions, and the same bytes: those of the file, zeros, and what the task stored. -/
theorem observed_alike {img₁ img₂ : KernelImage} {elf : Elf} (hbelow : Spaces.BelowStack elf)
    {events : List Event} {st₁ st₂ : SpaceState} (h₁ : Lived img₁ elf events st₁)
    (h₂ : Lived img₂ elf events st₂) {va : ℕ} (hva : va < 2 ^ 38) :
    observe st₁.phys.mem st₁.space.rootPgt.ppn va = observe st₂.phys.mem st₂.space.rootPgt.ppn va ∧
      observe st₁.phys.mem st₁.space.rootPgt.ppn va =
        View.observe (events.foldl Event.onView (elfView elf)) va := by
  refine ⟨?_, h₁.observe_eq hbelow hva⟩
  rw [h₁.observe_eq hbelow hva, h₂.observe_eq hbelow hva]

/-- Memory with the word `w` in every page that the small kernel does not use. -/
def leftover (w : ℕ) (alloc : PageAllocator) : Phys :=
  ⟨fun p j => if p < 3 then sampleMem p j else w, alloc⟩

theorem leftover_intact (w : ℕ) (alloc : PageAllocator) :
    sampleImage.Intact (leftover w alloc).mem := by
  intro p hp j
  have hlt : p < 3 := by
    simp only [sampleImage, List.mem_cons, List.not_mem_nil, or_false] at hp
    omega
  show PTE.SameButAD (if p < 3 then sampleMem p j else w) (sampleMem p j)
  rw [if_pos hlt]
  exact .refl _

/-- A page that the view has can be used as its area permits. -/
theorem Orderly.permits_of_view (hst : Orderly img st) {va : ℕ} (hva : checkUVa va = true)
    {access : Access} {a : UserArea} (hfind : st.view.find? (inArea (va / 4096)) = some (some a))
    (hcontent : a.content (va / 4096) ≠ none)
    (hperm : access.minPermissions &&& a.permissions = access.minPermissions) :
    Permits st.phys.mem st.space.rootPgt.ppn va access := by
  rw [checkUVa_iff] at hva
  have hv : va / 4096 < userEndVpn := by
    rw [userEndVpn_eq]
    omega
  rw [SpaceState.view, view_find hst.ok (by omega)] at hfind
  obtain ⟨b, hb, hview⟩ := Option.map_eq_some_iff.mp hfind
  have hmem := List.mem_of_find?_eq_some hb
  have hbv : b.containVpn (va / 4096) = true := by simpa using List.find?_some hb
  unfold VMArea.view at hview
  split at hview
  · cases hview
    obtain ⟨page, hpage⟩ : ∃ page, b.pages.get? (va / 4096) = some page := by
      rw [← Option.ne_none_iff_exists']
      intro hnone
      refine hcontent (show (b.pages.get? (va / 4096)).map (pageBytes st.phys.mem) = none from ?_)
      rw [hnone]
      rfl
    have hentry := BTreeMap.get?_eq_some.mp hpage
    refine ⟨(hst.ok.agrees.valid_iff _ hv).mpr ⟨page, b, hmem, hbv, hentry⟩, ?_⟩
    refine land_of_sameButAD (hst.ok.agrees.pte_eq _ hv b hmem page hbv hentry) hperm ?_
    cases access <;> decide
  · cases hview

/-- A page that the view does not have cannot be used. -/
theorem Orderly.not_permits_of_view (hst : Orderly img st) {va : ℕ} (hva : checkUVa va = true)
    {access : Access} (hno : ∀ a, st.view.find? (inArea (va / 4096)) = some (some a) →
      a.content (va / 4096) = none) :
    ¬Permits st.phys.mem st.space.rootPgt.ppn va access := by
  rw [checkUVa_iff] at hva
  have hv : va / 4096 < userEndVpn := by
    rw [userEndVpn_eq]
    omega
  rintro ⟨hvalid, -⟩
  obtain ⟨page, a, ha, hav, hentry⟩ := (hst.ok.agrees.valid_iff _ hv).mp hvalid
  have hanon : a.mapType = .anonymous := by
    rcases hst.ok.placement a ha with ⟨hanon, -⟩ | ⟨-, hstart, -⟩
    · exact hanon
    · rw [VMArea.containVpn_iff] at hav
      omega
  have hfind : st.space.areas.find? (fun b => b.containVpn (va / 4096)) = some a := by
    cases hf : st.space.areas.find? fun b => b.containVpn (va / 4096) with
    | none => exact absurd hav (by simpa using List.find?_eq_none.mp hf a ha)
    | some b =>
      have hbv : b.containVpn (va / 4096) = true := by simpa using List.find?_some hf
      rw [hst.ok.agrees.area_unique (List.mem_of_find?_eq_some hf) ha hbv hav]
  have hview : st.view.find? (inArea (va / 4096)) =
      some (some ⟨a.startVpn, a.endVpn, a.permissions, a.content st.phys.mem⟩) := by
    rw [SpaceState.view, view_find hst.ok (by omega), hfind, Option.map_some, VMArea.view,
      if_pos hanon]
  have hnone : a.content st.phys.mem (va / 4096) = none := hno _ hview
  cases hget : a.pages.get? (va / 4096) with
  | none => exact BTreeMap.get?_eq_none.mp hget page hentry
  | some q =>
    unfold VMArea.content at hnone
    rw [hget] at hnone
    cases hnone

/-- A task maps a page, touches it and stores a byte there. -/
def storeEvents : List Event :=
  [.request (.mmap 0x10000 4096 6), .request (.fault 0x10008 .store), .store 0x10008 42]

/-- Four free pages are enough. -/
theorem storeEvents_run (hst : Orderly img st) (hview : st.view = elfView bareElf)
    (hroom : 3 ≤ st.phys.available) : ∃ st', TaskRun img st storeEvents st' := by
  have h₁ : Event.Does st (.request (.mmap 0x10000 4096 6)) _ := .request _ trivial trivial
  obtain ⟨hst₁, hview₁⟩ := h₁.view_eq hst
  rw [hview] at hview₁
  have h₂ : Event.Does _ (.request (.fault 0x10008 .store)) _ :=
    .request _ ⟨by decide, hst₁.not_permits_of_view (by decide) fun a ha => by
      rw [hview₁] at ha
      cases ha
      rfl⟩ hroom
  obtain ⟨hst₂, hview₂⟩ := h₂.view_eq hst₁
  rw [hview₁] at hview₂
  have h₃ : Event.Does _ (.store 0x10008 42) _ := .store _ _ (by decide)
    (hst₂.permits_of_view (by decide) (by rw [hview₂]; rfl) (by decide) (by decide)) (by decide)
  exact ⟨_, ((TaskRun.start.event h₁).event h₂).event h₃⟩

/-- The life of a task without segments that maps a page, touches it and stores a byte there. -/
theorem storeEvents_lived {k : Phys} (hacc : k.Accounted 0 sampleImage.pages)
    (himg : sampleImage.Intact k.mem) (hroom : 8 ≤ k.available) : ∃ s k' st,
      newUser k sampleImage.root bareElf = (.ok s, k') ∧
      TaskRun sampleImage ⟨k', s⟩ storeEvents st ∧ Lived sampleImage bareElf storeEvents st := by
  have hrest : ∀ p ∈ sampleImage.pages, p ∈ sampleImage.pages := fun _ hp => hp
  have hbelow := Spaces.belowStack_bare
  obtain ⟨s, k', hnew, hleft⟩ := newUser_bare hrest hacc himg (by omega)
  obtain ⟨hview, hreg⟩ := newUser_view hrest hacc himg hbelow.tame
    (fun file hfile => hbelow.stackFree hfile) hnew
  have hspec := newUser_spec hrest hacc himg hbelow.tame fun file hfile => hbelow.stackFree hfile
  rw [hnew] at hspec
  have hst : Orderly sampleImage ⟨k', s⟩ := ⟨hspec.1.ok, hreg, 0, _, hspec.1.accounted, hrest⟩
  have hroom' : 3 ≤ k'.available := by omega
  obtain ⟨st, hrun⟩ := storeEvents_run hst hview hroom'
  exact ⟨s, k', st, hnew, hrun, 0, _, k, k', s, hrest, hacc, himg, hnew, hrun⟩

/-- Clean pages in order, and used pages in some other order. -/
theorem observed_alike_leftover : ∃ s₁ k₁ st₁ s₂ k₂ st₂,
    newUser (leftover 0 ⟨3, 12, []⟩) 0 bareElf = (.ok s₁, k₁) ∧
      newUser (leftover 0xdead ⟨12, 12, [7, 4, 9, 3, 5, 6, 8, 10, 11]⟩) 0 bareElf =
        (.ok s₂, k₂) ∧
      TaskRun sampleImage ⟨k₁, s₁⟩ storeEvents st₁ ∧
      TaskRun sampleImage ⟨k₂, s₂⟩ storeEvents st₂ ∧
      observe st₁.phys.mem st₁.space.rootPgt.ppn 0x10008 =
        observe st₂.phys.mem st₂.space.rootPgt.ppn 0x10008 ∧
      observe st₁.phys.mem st₁.space.rootPgt.ppn 0x10008 = some (42, 23) := by
  have hacc₁ : (leftover 0 ⟨3, 12, []⟩).Accounted 0 sampleImage.pages :=
    ⟨⟨by decide, by decide⟩, by decide, by decide⟩
  have hacc₂ : (leftover 0xdead ⟨12, 12, [7, 4, 9, 3, 5, 6, 8, 10, 11]⟩).Accounted 0
      sampleImage.pages := ⟨⟨by decide, by decide⟩, by decide, by decide⟩
  obtain ⟨s₁, k₁, st₁, h₁, hrun₁, hlived₁⟩ :=
    storeEvents_lived hacc₁ (leftover_intact _ _) (by decide)
  obtain ⟨s₂, k₂, st₂, h₂, hrun₂, hlived₂⟩ :=
    storeEvents_lived hacc₂ (leftover_intact _ _) (by decide)
  obtain ⟨halike, hbyte⟩ := observed_alike Spaces.belowStack_bare hlived₁ hlived₂
    (show 0x10008 < 2 ^ 38 by decide)
  exact ⟨s₁, k₁, st₁, s₂, k₂, st₂, h₁, h₂, hrun₁, hrun₂, halike, hbyte.trans rfl⟩

end RCoreKernel.Syscall
