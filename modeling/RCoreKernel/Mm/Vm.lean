import RCoreKernel.Lib.BTreeMap
import RCoreKernel.Lib.Vec
import RCoreKernel.Mm.Sv39

/-!
# Address spaces (`VMSpace` and `VMArea` in `os/src/mm/vm.rs`)

A `VMSpace` is a root table and a list of areas; each area owns the pages mapped in it.  The
operations below are those a running task can cause: `map` (through `map_fault_page`),
`add_new_area` and `unmap`, together with the drop of a whole space.  Each takes and returns
the physical memory, and drops a page exactly where the Rust value goes out of scope.
-/

namespace RCoreKernel.Mm

open Radix

/-! ### Permissions -/

def permissionR : ℕ := PTE.flagR
def permissionW : ℕ := PTE.flagW
def permissionX : ℕ := PTE.flagX
def permissionU : ℕ := PTE.flagU
def allPermissionFlags : ℕ := permissionR ||| permissionW ||| permissionX ||| permissionU

/-- `MapType`. -/
inductive MapType
  | anonymous
  | kernelVaOffset
  deriving DecidableEq, Repr

/-- `VMError`. -/
inductive VMError
  | createRootPgtFailed (e : PgtError)
  | pgtError (vpn : ℕ) (e : PgtError)
  | noAreaContainVpn (vpn : ℕ)
  | invalidPermissions (permissions : ℕ)
  | permissionDenied (vpn permissions : ℕ)
  | elfError (msg : String)
  | alignDataFailed (align : ℕ)
  | acquirePageFailed
  | areaOverlapping (startVpn endVpn : ℕ)
  | emptyArea (startVpn endVpn : ℕ)
  deriving DecidableEq, Repr

def toPteFlags (permissions : ℕ) : Except VMError ℕ :=
  if andNot permissions allPermissionFlags ≠ 0 then .error (.invalidPermissions permissions)
  else .ok ((permissions &&& allPermissionFlags) ||| PTE.flagV)

/-! ### Areas and spaces -/

/-- `VMArea`: a range of virtual page numbers and the pages mapped in it. -/
structure VMArea where
  startVpn : ℕ
  endVpn : ℕ
  mapType : MapType
  permissions : ℕ
  pages : BTreeMap ℕ ℕ

namespace VMArea

def new (startVpn endVpn : ℕ) (mapType : MapType) (permissions : ℕ) : VMArea :=
  ⟨startVpn, endVpn, mapType, permissions, BTreeMap.new⟩

def containVpn (a : VMArea) (vpn : ℕ) : Bool := a.startVpn ≤ vpn && vpn < a.endVpn

theorem containVpn_iff {a : VMArea} {vpn : ℕ} :
    a.containVpn vpn = true ↔ a.startVpn ≤ vpn ∧ vpn < a.endVpn := by
  simp [containVpn]

/-- The page numbers of an area, in order. -/
def vpns (a : VMArea) : List ℕ := List.range' a.startVpn (a.endVpn - a.startVpn)

theorem mem_vpns {a : VMArea} {v : ℕ} : v ∈ a.vpns ↔ a.containVpn v = true := by
  rw [vpns, List.mem_range'_1, containVpn_iff]
  omega

/-- The area without its pages. -/
def bare (a : VMArea) : VMArea := { a with pages := BTreeMap.new }

/-- No page number is in both areas. -/
def Apart (a b : VMArea) : Prop := ∀ v, ¬(a.containVpn v = true ∧ b.containVpn v = true)

theorem Apart.symm {a b : VMArea} (h : Apart a b) : Apart b a := fun v hv => h v hv.symm

theorem apart_of_le {a b : VMArea} (h : a.endVpn ≤ b.startVpn ∨ b.endVpn ≤ a.startVpn) :
    Apart a b := by
  intro v hv
  rw [containVpn_iff, containVpn_iff] at hv
  omega

end VMArea

/-- `VMSpace`. -/
structure VMSpace where
  rootPgt : RootPgt
  areas : List VMArea
  entryAddr : ℕ
  uStackEnd : ℕ
  kStackEnd : ℕ

namespace VMSpace

/-- The pages owned by a space, in the order in which its drop gives them back. -/
def pages (s : VMSpace) : List ℕ := s.rootPgt.pages ++ s.areas.flatMap fun a => a.pages.values

/-- Dropping a space. -/
def drop (k : Phys) (s : VMSpace) : Phys := k.dropPages s.pages

/-- `find_area_mut`, for reading. -/
def findArea (s : VMSpace) (vpn : ℕ) : Option VMArea := s.areas.find? fun a => a.containVpn vpn

/-- `find_area_mut`, for writing. -/
def updateArea (s : VMSpace) (vpn : ℕ) (f : VMArea → VMArea) : VMSpace :=
  { s with areas := Vec.modifyFind (fun a => a.containVpn vpn) f s.areas }

/-- `VMSpace::map`. -/
def map (k : Phys) (s : VMSpace) (vpn minPermissions : ℕ) : Outcome VMError Unit × Phys × VMSpace :=
  match s.findArea vpn with
  | none => (.err (.noAreaContainVpn vpn), k, s)
  | some area =>
    if minPermissions &&& area.permissions ≠ minPermissions then
      (.err (.permissionDenied vpn minPermissions), k, s)
    else if area.mapType ≠ .anonymous then (.panic .unexpectedMapType, k, s)
    else
      match k.allocZeroedPage with
      | none => (.err .acquirePageFailed, k, s)
      | some (page, k) =>
        -- a page already stored under `vpn` is replaced, and dropped at once
        let k := k.dropPages (area.pages.get? vpn).toList
        let s := s.updateArea vpn fun a => { a with pages := a.pages.insert vpn page }
        match toPteFlags area.permissions with
        | .error e => (.err e, k, s)
        | .ok pteFlags =>
          match RootPgt.mapCreate k s.rootPgt vpn page pteFlags with
          | (.ok (), k, t) => (.ok (), k, { s with rootPgt := t })
          | (.error e, k, t) =>
            let s := { s with rootPgt := t }
            match s.findArea vpn with
            | none => (.panic .unwrapArea, k, s)
            | some area =>
              (.err (.pgtError vpn e), k.dropPages (area.pages.get? vpn).toList,
                s.updateArea vpn fun a => { a with pages := a.pages.remove vpn })

/-- `VMSpace::map_fault_page`. -/
def mapFaultPage (k : Phys) (s : VMSpace) (va minPermissions : ℕ) :
    Outcome VMError Unit × Phys × VMSpace :=
  match VPN.fromVa va with
  | none => (.panic .invalidVirtualAddress, k, s)
  | some vpn => map k s vpn minPermissions

/-- `VMSpace::add_new_area`. -/
def addNewArea (s : VMSpace) (startVpn endVpn : ℕ) (mapType : MapType) (permissions : ℕ) :
    Except VMError Unit × VMSpace :=
  if endVpn ≤ startVpn then (.error (.emptyArea startVpn endVpn), s)
  else if andNot permissions allPermissionFlags ≠ 0 then
    (.error (.invalidPermissions permissions), s)
  else if s.areas.all fun area => area.endVpn ≤ startVpn || endVpn ≤ area.startVpn then
    (.ok (), { s with areas := s.areas ++ [VMArea.new startVpn endVpn mapType permissions] })
  else (.error (.areaOverlapping startVpn endVpn), s)

/-- One round of the loop of `VMSpace::unmap`, at index `i`. -/
def unmapArea (k : Phys) (s : VMSpace) (startVpn endVpn i : ℕ) :
    Outcome VMError Unit × Phys × VMSpace :=
  match s.areas[i]? with
  | none => (.panic .indexOutOfRange, k, s)
  | some area =>
    if area.endVpn ≤ startVpn ∨ endVpn ≤ area.startVpn then (.ok (), k, s)
    else if startVpn ≤ area.startVpn ∧ area.endVpn ≤ endVpn then
      -- Overlap case 1: the area disappears
      match RootPgt.unmap k.mem s.rootPgt area.startVpn area.endVpn with
      | (m, .panic site) => (.panic site, { k with mem := m }, s)
      | (m, _) =>
        (.ok (), { k with mem := m }.dropPages area.pages.values,
          { s with areas := Vec.swapRemove s.areas i })
    else if startVpn ≤ area.startVpn then
      -- Overlap case 2: the area loses its head
      match RootPgt.unmap k.mem s.rootPgt area.startVpn endVpn with
      | (m, .panic site) => (.panic site, { k with mem := m }, s)
      | (m, _) =>
        let areaAfter := { area with startVpn := endVpn, pages := area.pages.splitOff endVpn }
        (.ok (), { k with mem := m }.dropPages (area.pages.keep endVpn).values,
          { s with areas := s.areas.set i areaAfter })
    else if area.endVpn ≤ endVpn then
      -- Overlap case 3: the area loses its tail
      match RootPgt.unmap k.mem s.rootPgt startVpn area.endVpn with
      | (m, .panic site) => (.panic site, { k with mem := m }, s)
      | (m, _) =>
        let areaAfter := { area with endVpn := startVpn, pages := area.pages.keep startVpn }
        (.ok (), { k with mem := m }.dropPages (area.pages.splitOff startVpn).values,
          { s with areas := s.areas.set i areaAfter })
    else
      -- Overlap case 4: the area is split
      match RootPgt.unmap k.mem s.rootPgt startVpn endVpn with
      | (m, .panic site) => (.panic site, { k with mem := m }, s)
      | (m, _) =>
        let tail := area.pages.splitOff startVpn
        let areaAfter := { area with endVpn := startVpn, pages := area.pages.keep startVpn }
        let newArea : VMArea :=
          ⟨endVpn, area.endVpn, area.mapType, area.permissions, tail.splitOff endVpn⟩
        (.ok (), { k with mem := m }.dropPages (tail.keep endVpn).values,
          { s with areas := s.areas.set i areaAfter ++ [newArea] })

/-- The loop of `VMSpace::unmap`, with the indices below `n` still to visit. -/
def unmapBelow (k : Phys) (s : VMSpace) (startVpn endVpn : ℕ) :
    ℕ → Outcome VMError Unit × Phys × VMSpace
  | 0 => (.ok (), k, s)
  | i + 1 =>
    match unmapArea k s startVpn endVpn i with
    | (.ok (), k, s) => unmapBelow k s startVpn endVpn i
    | r => r

/-- `VMSpace::unmap`. -/
def unmap (k : Phys) (s : VMSpace) (startVpn endVpn : ℕ) : Outcome VMError Unit × Phys × VMSpace :=
  unmapBelow k s startVpn endVpn s.areas.length

end VMSpace

end RCoreKernel.Mm
