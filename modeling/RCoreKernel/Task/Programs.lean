import RCoreKernel.Syscall.Tasks
import RCoreKernel.Task.Apps
import RCoreKernel.Trap.Harts

/-!
# From the build to the first instruction

`task::start` reads the table of the apps and adds one task for each of them.  What the build script
has written, the address spaces and the trap contexts meet here.

* `start` — the loop of `task::start`;
* `Started`, `Started.addTask` — what holds after each round;
* `programs_start` — **the app at index `i` runs as task `i + 1`**: in an address space that holds its
  ELF file and nothing else, from the entry point of that file, with an empty stack.
-/

namespace RCoreKernel.Task.Apps

open Mm Mm.VMSpace Assembler Components Syscall Trap.Asm

/-! ### The loop -/

/-- `start`, up to `run_next_task`.  `parse` is `ElfFile::new`; `none` is the failed `expect`. -/
def start (parse : List UInt8 → Except String ElfFile) (kernelRoot restoreUCtx : ℕ) (image : AppImage)
    (b : Boot) : Option Boot := do
  let total ← getTotalApps image
  (List.range total).foldlM (fun b i => do
    let bytes ← getAppElf image i
    addTask kernelRoot restoreUCtx b ⟨bytes, parse bytes⟩) b

variable {parse : List UInt8 → Except String ElfFile} {kernelRoot restoreUCtx : ℕ} {image : AppImage}

/-- The loop from `first` on, when the table holds the files. -/
theorem foldlM_addTask {files : List (List UInt8)} {first : ℕ}
    (hfiles : ∀ i (hi : i < files.length), getAppElf image (first + i) = some files[i]) (b : Boot) :
    (List.range' first files.length).foldlM (fun b i => do
      let bytes ← getAppElf image i
      addTask kernelRoot restoreUCtx b ⟨bytes, parse bytes⟩) b =
      addTasks kernelRoot restoreUCtx (files.map fun bytes => ⟨bytes, parse bytes⟩) b := by
  induction files generalizing first b with
  | nil => rfl
  | cons bytes files ih =>
    have hfirst : getAppElf image first = some bytes := hfiles 0 (Nat.succ_pos _)
    rw [List.length_cons, List.range'_succ, List.foldlM_cons, List.map_cons, addTasks, hfirst]
    simp only [Option.bind_eq_bind, Option.bind_some]
    congr 1
    funext b'
    refine ih (fun i hi => ?_) b'
    rw [Nat.add_assoc, Nat.add_comm 1]
    exact hfiles (i + 1) (Nat.succ_lt_succ hi)

theorem start_eq {files : List (List UInt8)} (htotal : getTotalApps image = some files.length)
    (hfiles : ∀ i (hi : i < files.length), getAppElf image i = some files[i]) (b : Boot) :
    start parse kernelRoot restoreUCtx image b =
      addTasks kernelRoot restoreUCtx (files.map fun bytes => ⟨bytes, parse bytes⟩) b := by
  rw [start, htotal]
  simp only [Option.bind_eq_bind, Option.bind_some, List.range_eq_range']
  refine foldlM_addTask (fun i hi => ?_) b
  rw [Nat.zero_add]
  exact hfiles i hi

/-! ### The tasks that it adds -/

/-- The spaces of the tasks, last one first. -/
def worldOf (b : Boot) : Tasks.World :=
  ⟨b.phys, (b.kernel.allTasks.map fun t => (t.taskId, t.vmSpace)).reverse⟩

/-- The tasks are created one after the other. -/
def createdLog (apps : List Elf) : List (Label ℕ AddressSpace Syscall.Action) :=
  apps.zipIdx.map fun x => .created (x.2 + 1) (Tasks.elfSpace x.1)

theorem createdLog_append (apps : List Elf) (elf : Elf) :
    createdLog (apps ++ [elf]) = createdLog apps ++ [.created (apps.length + 1) (Tasks.elfSpace elf)] := by
  simp [createdLog, List.zipIdx_append]

/-- Each of them has been created, and has done nothing yet. -/
theorem life_createdLog (apps : List Elf) (i : ℕ) :
    life (i + 1) (createdLog apps) = apps[i]?.map fun elf => (Tasks.elfSpace elf, []) := by
  induction apps using List.reverseRecOn with
  | nil => rfl
  | append_singleton apps elf ih =>
    rw [createdLog_append, life_append, ih, lifeAfter]
    rcases Nat.lt_trichotomy i apps.length with hlt | rfl | hgt
    · rw [if_neg (by omega), List.getElem?_append_left hlt]
    · rw [if_pos rfl, List.getElem?_concat_length]
      rfl
    · rw [if_neg (by omega), List.getElem?_eq_none (by omega),
        List.getElem?_eq_none (by simp; omega)]

/-- After the tasks for `apps` have been added to `k`. -/
structure Started (img : KernelImage) (first : ℕ) (k : Phys) (apps : List Elf) (b : Boot) : Prop where
  added : Added first img.pages apps.length b
  run : Components.Run (Tasks.Step img.root img.pages) ⟨k, []⟩ (createdLog apps) (worldOf b)
  spaces : List.Forall₂ (fun elf t => NewSpace elf t.vmSpace ∧
    t.context.satp = t.vmSpace.rootPgt.getSatp) apps b.kernel.allTasks

variable {img : KernelImage} {first : ℕ} {k : Phys} {apps : List Elf} {b b' : Boot} {elf : Elf}

/-- **One round.** -/
theorem Started.addTask (h : Started img first k apps b) (hacc : k.Accounted first img.pages)
    (hmem : img.mem = k.mem) (hn : apps.length + 1 < 2 ^ 64) (hlinked : Tasks.WellLinked elf)
    (hadd : Task.addTask img.root restoreUCtx b elf = some b') :
    Started img first k (apps ++ [elf]) b' := by
  have hadded := h.added.addTask hn hadd
  have hin := Tasks.independent.inv_of_run (Tasks.inOrder_boot hacc hmem) h.run
  have hid : b.nextTaskId = apps.length + 1 := by rw [h.added.next, wrap_of_lt hn]
  unfold Task.addTask at hadd
  split at hadd
  swap
  · cases hadd
  rename_i vmSpace k' hnew
  obtain rfl := Option.some.inj hadd
  let tcb := TaskControlBlock.newReady b.nextTaskId vmSpace restoreUCtx
    (vmSpace.kStackEnd - sizeOfTrapContext) (vmSpace.kStackEnd - sizeOfTrapContext)
    vmSpace.rootPgt.getSatp
  have hnew' : newUser (worldOf b).phys img.root elf = (.ok vmSpace, k') := hnew
  obtain ⟨-, hspace, -, -⟩ := hin.created hlinked hnew'
  refine ⟨?_, ?_, ?_⟩
  · rw [List.length_append]
    exact hadded
  · have hfresh : b.nextTaskId ∉ (worldOf b).tasks.map Prod.fst := by
      rw [worldOf, List.map_reverse, List.mem_reverse, List.map_map]
      show b.nextTaskId ∉ b.kernel.allTasks.map fun t => t.taskId
      rw [h.added.ids, hid, List.mem_range'_1]
      omega
    have hrun := h.run.step (.created _ _ _ _ _ _ hlinked hfresh hnew')
    have hworld : ∀ kernel : Kernel VMSpace, kernel.allTasks = b.kernel.allTasks ++ [tcb] →
        worldOf ⟨k', wrap (b.nextTaskId + 1), kernel⟩ =
          ⟨k', (b.nextTaskId, vmSpace) :: (worldOf b).tasks⟩ := fun kernel htasks => by
      simp [worldOf, htasks, tcb, TaskControlBlock.newReady]
    rw [createdLog_append, ← hid, hworld _ rfl]
    exact hrun
  · exact List.rel_append h.spaces (.cons ⟨hspace, rfl⟩ .nil)

theorem Started.addTasks {more : List Elf} (h : Started img first k apps b)
    (hacc : k.Accounted first img.pages) (hmem : img.mem = k.mem)
    (hn : apps.length + more.length < 2 ^ 64) (hlinked : ∀ elf ∈ more, Tasks.WellLinked elf)
    (hadd : Task.addTasks img.root restoreUCtx more b = some b') :
    Started img first k (apps ++ more) b' := by
  induction more generalizing apps b with
  | nil =>
    obtain rfl := Option.some.inj hadd
    rwa [List.append_nil]
  | cons elf more ih =>
    obtain ⟨b₁, hone, hrest⟩ := Option.bind_eq_some_iff.mp hadd
    rw [List.length_cons] at hn
    have hstep := h.addTask hacc hmem (by omega) (hlinked elf (by simp)) hone
    have hall := ih hstep (by rw [List.length_append, List.length_singleton]; omega)
      (fun elf hin => hlinked elf (by simp [hin])) hrest
    rwa [List.append_assoc] at hall

theorem reverse_map_split {α β : Type} {xs : List α} (f : α → β) {i : ℕ} (hi : i < xs.length) :
    (xs.map f).reverse =
      ((xs.drop (i + 1)).map f).reverse ++ f xs[i] :: ((xs.take i).map f).reverse := by
  conv_lhs => rw [← List.take_append_drop i xs, List.drop_eq_getElem_cons hi]
  simp only [List.map_append, List.map_cons, List.reverse_append, List.reverse_cons,
    List.append_assoc, List.singleton_append]

/-- **The task at an index.** -/
theorem Started.task (h : Started img first k apps b) (hacc : k.Accounted first img.pages)
    (hmem : img.mem = k.mem) {i : ℕ} (hi : apps[i]? = some elf) :
    ∃ tcb, b.kernel.allTasks[i]? = some tcb ∧ tcb.taskId = i + 1 ∧
      (NewSpace elf tcb.vmSpace ∧ tcb.context.satp = tcb.vmSpace.rootPgt.getSatp) ∧
      tcb.vmSpace.space b.phys.mem = Tasks.elfSpace elf := by
  obtain ⟨hlt, rfl⟩ := List.getElem?_eq_some_iff.mp hi
  have hlt' : i < b.kernel.allTasks.length := h.spaces.length_eq ▸ hlt
  have hid : b.kernel.allTasks[i].taskId = i + 1 := by
    have hids := congrArg (·[i]?) h.added.ids
    simp only [List.getElem?_map, List.getElem?_eq_getElem hlt', Option.map_some,
      List.getElem?_range' hlt, Option.some.injEq] at hids
    omega
  have hin := Tasks.independent.inv_of_run (Tasks.inOrder_boot hacc hmem) h.run
  have hlives := Tasks.independent.lives (Tasks.inOrder_boot hacc hmem) (fun _ => rfl) h.run (i + 1)
  rw [life_createdLog, hi] at hlives
  -- the task stands between those before and those after
  have hworld : worldOf b = ⟨b.phys, ((b.kernel.allTasks.drop (i + 1)).map fun t =>
      (t.taskId, t.vmSpace)).reverse ++ (i + 1, b.kernel.allTasks[i].vmSpace) ::
        ((b.kernel.allTasks.take i).map fun t => (t.taskId, t.vmSpace)).reverse⟩ := by
    have hsplit :=
      reverse_map_split (fun t : TaskControlBlock VMSpace => (t.taskId, t.vmSpace)) hlt'
    rw [hid] at hsplit
    rw [worldOf, hsplit]
  rw [hworld] at hin hlives
  rw [Tasks.space?_mid hin.ids] at hlives
  refine ⟨_, List.getElem?_eq_getElem hlt', hid, h.spaces.get hlt hlt', ?_⟩
  obtain ⟨haccepts⟩ := hlives
  exact haccepts.of_nil

/-! ### The table that it reads -/

section Reading

variable {o : Object} {names : List String} {elfOf : String → List UInt8} {place : String → ℕ}
  {data : List UInt8}

/-- The table is smaller than memory. -/
theorem Assembled.length_lt (h : Assembled o names elfOf) (hlink : o.link place ".data" = some data)
    (hplaced : Placed place o data) : names.length < 2 ^ 64 := by
  obtain ⟨more, hmore⟩ := h.summary
  have hfits := hplaced.fits
  have hlen := length_linkItems hlink
  rw [hmore, size_append, size_quads, table, List.length_cons, length_flatMap_metaItems] at hlen
  omega

/-- The files that `start` adds tasks for. -/
def elfsOf (parse : List UInt8 → Except String ElfFile) (elfOf : String → List UInt8)
    (names : List String) : List Elf :=
  names.map fun name => ⟨elfOf name, parse (elfOf name)⟩

theorem Assembled.start_eq (h : Assembled o names elfOf) (hlink : o.link place ".data" = some data)
    (hplaced : Placed place o data) (rest : ℕ → UInt8) (b : Boot) :
    start parse kernelRoot restoreUCtx ⟨place ".data", load (place ".data") data rest⟩ b =
      addTasks kernelRoot restoreUCtx (elfsOf parse elfOf names) b := by
  have htotal := h.getTotalApps_eq hlink hplaced rest
  have hfiles : ∀ i (hi : i < (names.map elfOf).length),
      getAppElf ⟨place ".data", load (place ".data") data rest⟩ i = some (names.map elfOf)[i] := by
    intro i hi
    rw [List.getElem_map]
    exact h.getAppElf_eq hlink hplaced rest (by rwa [List.length_map] at hi)
  rw [← names.length_map (f := elfOf)] at htotal
  rw [Apps.start_eq htotal hfiles, List.map_map]
  rfl

end Reading

/-! ### The first slice -/

section First

variable {created : List ℕ} {boot : Kernel VMSpace} {retAddr : ℕ} {ua : Trap.UAccess} {sstatus mem : ℕ → ℕ}
  {s : Core.State VMSpace} {before later : List Trap.Asm.Event} {taskId satp : ℕ} {start stop : VHart}

/-- A task that has not run yet starts with what `add_task` wrote. -/
theorem first_slice (hboot : Booted created boot) (hplaced : Trap.Asm.Placed restoreUCtx boot.allTasks)
    (hrun : HartRun boot retAddr restoreUCtx ua (writeContexts sstatus boot.allTasks mem) s
      (before ++ .slice taskId satp start stop :: later))
    (hfirst : ∀ e ∈ before, e.taskId ≠ taskId) {tcb : TaskControlBlock VMSpace}
    (htcb : tcb ∈ boot.allTasks) (hid : tcb.taskId = taskId) :
    start.Same (newHart tcb.vmSpace) ∧ satp = tcb.context.satp := by
  subst hid
  obtain ⟨hsame, t, ht, hid, hsatp⟩ := hrun.slices hboot hplaced
    (writeContexts_newHarts hplaced hboot.listed.ids mem) rfl
  rw [harts_of_ne hfirst, newHarts_eq hboot.listed.ids htcb] at hsame
  rw [hboot.listed.eq_of_taskId ht htcb hid] at hsatp
  exact ⟨hsame, hsatp.symm⟩

end First

/-- **From the build to the first instruction.**  Let the output of the build script for `names` be
assembled and linked into the kernel, and let the loop of `start` succeed.  Then there is a task for
each app and no other; the app at index `i` of the sorted names is task `i + 1`, whose space holds what
its ELF file describes and nothing else.  The apps are linked as `user/src/linker.ld` does.  In every
run of the hart (no interrupt during a first entry, the control blocks of `run_next_task` apart), the
first time that it is switched to it starts at the entry point of that file, with its `satp`, the end
of the user space in the stack pointer and zero in the other registers. -/
theorem programs_start (layout : Layout) (m₀ : Mem) {a₀ : PageAllocator} {k : Phys} {t : RootPgt}
    (halloc : initialAllocator layout.kernelEnd.toNat = some a₀)
    (hinit : initKernelSatp layout ⟨m₀, a₀⟩ = (.ok t, k)) (slots : ℕ → ℕ)
    (parse : List UInt8 → Except String ElfFile) {names : List String}
    (hchars : ∀ name ∈ names, ∀ c ∈ name.toList, nameChar c = true)
    {files : String → Option (List UInt8)} {elfOf : String → List UInt8}
    (hfiles : ∀ name ∈ names, files s!"{elfDir}/{name}" = some (elfOf name))
    (hlinked : ∀ name ∈ names, Tasks.WellLinked ⟨elfOf name, parse (elfOf name)⟩) {entry : Object}
    (hentry : AfterEntry entry) (place : String → ℕ) (rest : ℕ → UInt8) :
    ∃ o data numApps, assemble files (generateAsm names) entry = some o ∧
      o.link place ".data" = some data ∧ o.symbol place "_num_apps" = some numApps ∧
      ∀ restoreUCtx b, Placed place o data →
        start parse t.ppn restoreUCtx ⟨numApps, load (place ".data") data rest⟩
          ⟨k, 1, ⟨[], 0, slots⟩⟩ = some b →
        b.kernel.allTasks.map (fun t => t.taskId) = List.range' 1 names.length ∧
        ∀ i name, (sortNames names)[i]? = some name →
          ∃ tcb file, b.kernel.allTasks[i]? = some tcb ∧ tcb.taskId = i + 1 ∧
            parse (elfOf name) = .ok file ∧
            tcb.vmSpace.space b.phys.mem = Tasks.elfSpace ⟨elfOf name, parse (elfOf name)⟩ ∧
            ∀ retAddr ua sstatus mem s before satp start stop later,
              HartRun b.kernel retAddr restoreUCtx ua (writeContexts sstatus b.kernel.allTasks mem)
                s (before ++ .slice (i + 1) satp start stop :: later) →
              (∀ e ∈ before, e.taskId ≠ i + 1) →
              start.Same ⟨Function.update (fun _ => 0) sp userSpaceEnd, file.entryPoint.toNat⟩ ∧
                satp = tcb.vmSpace.rootPgt.getSatp := by
  obtain ⟨o, hrun, h⟩ := assemble_generateAsm hchars hfiles hentry
  obtain ⟨data, hlink⟩ : ∃ data, o.link place ".data" = some data := h.link
  refine ⟨o, data, place ".data", hrun, hlink, h.symbol, fun restoreUCtx b hplaced hstart => ?_⟩
  obtain ⟨img, hroot, hmem, hpages, hacc⟩ :=
    initKernelSatp_image layout (accounted_initial layout m₀ halloc) hinit
  have hlen := h.length_lt hlink hplaced
  rw [h.start_eq hlink hplaced rest] at hstart
  have hn : (elfsOf parse elfOf (sortNames names)).length < 2 ^ 64 := by
    rw [elfsOf, List.length_map]
    exact hlen
  have hboot := addTasks_booted hacc slots hn hstart
  have hplaced' := addTasks_placed hacc slots hn hstart
  rw [← hroot] at hstart
  have hnone : Started img a₀.nextUnusedPpn k [] ⟨k, 1, ⟨[], 0, slots⟩⟩ :=
    ⟨⟨hacc, rfl, rfl, fun t ht => (List.not_mem_nil ht).elim,
      fun t ht => (List.not_mem_nil ht).elim, rfl⟩, .start, .nil⟩
  have hall := hnone.addTasks hacc hmem (by rwa [List.length_nil, Nat.zero_add]) (fun elf hin => by
    obtain ⟨name, hname, rfl⟩ := List.mem_map.mp hin
    exact hlinked name ((sortNames_perm names).mem_iff.mp hname)) hstart
  rw [List.nil_append] at hall
  refine ⟨?_, fun i name hi => ?_⟩
  · rw [hall.added.ids, elfsOf, List.length_map, length_sortNames]
  have hi' : (elfsOf parse elfOf (sortNames names))[i]? = some ⟨elfOf name, parse (elfOf name)⟩ := by
    rw [elfsOf, List.getElem?_map, hi]
    rfl
  obtain ⟨tcb, htcb, hid, ⟨hspace, hsatp⟩, helf⟩ := hall.task hacc hmem hi'
  obtain ⟨file, _, hfile, -, hentryAddr, -⟩ := hspace.file
  refine ⟨tcb, file, htcb, hid, hfile, helf, fun _ _ _ _ _ _ _ _ _ _ hrun hfirst => ?_⟩
  obtain ⟨hsame, hsatp'⟩ :=
    first_slice hboot hplaced' hrun hfirst (List.mem_of_getElem? htcb) hid
  rw [newHart, hspace.uStackEnd, hentryAddr] at hsame
  exact ⟨hsame, hsatp'.trans hsatp⟩

/-! ### An example -/

/-- The header of an ELF file for this machine, without program headers. -/
def headerOnly : List UInt8 :=
  [0x7f, 0x45, 0x4c, 0x46, 2, 1, 1, 0, 0, 0, 0, 0, 0, 0, 0, 0,
    2, 0, 0xf3, 0, 1, 0, 0, 0, 0, 0, 0, 0, 0, 0, 0, 0,
    0, 0, 0, 0, 0, 0, 0, 0, 0, 0, 0, 0, 0, 0, 0, 0,
    0, 0, 0, 0, 0x40, 0, 0x38, 0, 0, 0, 0x40, 0, 0, 0, 0, 0]

def headerFiles (path : String) : Option (List UInt8) :=
  if path = s!"{elfDir}/init" then some headerOnly else none

def headerParse (bytes : List UInt8) : Except String ElfFile :=
  if bytes = headerOnly then .ok ⟨[], 0⟩ else .error "Did not find ELF magic number"

theorem headerOnly_parsed : headerParse headerOnly = .ok ⟨[], 0⟩ := if_pos rfl

theorem headerOnly_linked : Tasks.WellLinked ⟨headerOnly, headerParse headerOnly⟩ := by
  constructor <;> intro file hfile a ha
  all_goals
    rw [headerOnly_parsed] at hfile
    obtain rfl := Except.ok.inj hfile
    exact (List.not_mem_nil ha).elim

/-- The section has the alignment 8 and 112 bytes. -/
theorem header_section :
    (assemble headerFiles (writeAppAsms ["init"]) sampleEntry).bind (fun o =>
      (o.link samplePlace ".data").map fun data => (o.exponent ".data", data.length)) =
        some (3, 112) := by
  decide +kernel

theorem header_placed {o : Object} {data : List UInt8}
    (hrun : assemble headerFiles (generateAsm ["init"]) sampleEntry = some o)
    (hlink : o.link samplePlace ".data" = some data) : Placed samplePlace o data := by
  have hsection := header_section
  have hsorted : sortNames ["init"] = ["init"] := List.mergeSort_singleton _
  rw [← hsorted, ← generateAsm, hrun, Option.bind_some, hlink, Option.map_some,
    Option.some.injEq, Prod.mk.injEq] at hsection
  obtain ⟨hexponent, hlength⟩ := hsection
  refine ⟨by decide, ?_, ?_⟩
  · rw [hexponent]
    decide
  · rw [hlength]
    decide

/-- The table of one app is read, and its program traps. -/
theorem programs_start_init : ∃ t k o data numApps b tcb s satp start,
    initKernelSatp sampleLayout ⟨fun _ _ => 0, ⟨0x80500, 0x88000, []⟩⟩ = (.ok t, k) ∧
      assemble headerFiles (generateAsm ["init"]) sampleEntry = some o ∧
      o.link samplePlace ".data" = some data ∧ o.symbol samplePlace "_num_apps" = some numApps ∧
      Apps.start headerParse t.ppn 0x100 ⟨numApps, load (samplePlace ".data") data fun _ => 0⟩
        ⟨k, 1, ⟨[], 0, fun _ => 0⟩⟩ = some b ∧
      b.kernel.allTasks[0]? = some tcb ∧ tcb.taskId = 1 ∧
      tcb.vmSpace.space b.phys.mem = Tasks.elfSpace ⟨headerOnly, headerParse headerOnly⟩ ∧
      HartRun b.kernel 0x200 0x100 ⟨0, 4, 8⟩ (writeContexts (fun _ => 0) b.kernel.allTasks fun _ => 0) s
        [.slice 1 satp start ⟨fun n => n, 64⟩] ∧
      start.Same ⟨Function.update (fun _ => 0) sp userSpaceEnd, 0⟩ ∧
      satp = tcb.vmSpace.rootPgt.getSatp := by
  obtain ⟨t, k, b, s₀, hinit, hb, hin, h₀⟩ := bare_switch
  have hchars : ∀ name ∈ ["init"], ∀ c ∈ name.toList, nameChar c = true := fun name hname =>
    sampleNames_chars name (List.mem_cons_of_mem _ hname)
  have hfiles : ∀ name ∈ ["init"],
      headerFiles s!"{elfDir}/{name}" = some ((fun _ => headerOnly) name) := by
    decide +kernel
  obtain ⟨o, data, numApps, hrun, hlink, hsymbol, hall⟩ :=
    @programs_start sampleLayout _ _ _ _ sampleLayout_allocator hinit (fun _ => 0) headerParse ["init"]
      hchars headerFiles (fun _ => headerOnly) hfiles (fun _ _ => headerOnly_linked) sampleEntry
      sampleEntry_afterEntry samplePlace fun _ => 0
  have hplaced := header_placed hrun hlink
  obtain ⟨o', hrun', h⟩ := assemble_generateAsm hchars hfiles sampleEntry_afterEntry
  obtain rfl := Option.some.inj (hrun.symm.trans hrun')
  obtain rfl := Option.some.inj (hsymbol.symm.trans h.symbol)
  have hsorted : sortNames ["init"] = ["init"] := List.mergeSort_singleton _
  have hstart : Apps.start headerParse t.ppn 0x100
      ⟨samplePlace ".data", load (samplePlace ".data") data fun _ => 0⟩ ⟨k, 1, ⟨[], 0, fun _ => 0⟩⟩ =
        some b := by
    rw [h.start_eq hlink hplaced, hsorted, elfsOf, List.map_singleton, headerOnly_parsed, ← hb]
    rfl
  obtain ⟨hids, happs⟩ := hall 0x100 b hplaced hstart
  obtain ⟨tcb, file, htcb, hid, hfile, hspace, hfirst⟩ := happs 0 "init" (by rw [hsorted]; rfl)
  rw [headerOnly_parsed] at hfile
  obtain rfl := Except.ok.inj hfile
  -- there is no other task to switch to
  have hnext : s₀.next.taskId = 1 := by
    have hmem := List.mem_map_of_mem (f := fun t => t.taskId) hin
    rw [hids] at hmem
    simpa using hmem
  obtain ⟨s₁, -, -, h₁⟩ := h₀.quiet (fun n => n) 64
  rw [hnext] at h₁
  obtain ⟨hsame, hsatp⟩ := hfirst _ _ _ _ _ [] _ _ _ [] h₁ fun e he => absurd he List.not_mem_nil
  exact ⟨t, k, o, data, _, b, tcb, s₁, _, _, hinit, hrun, hlink, hsymbol, hstart, htcb, hid, hspace, h₁,
    hsame, hsatp⟩

end RCoreKernel.Task.Apps
