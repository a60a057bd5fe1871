import RCoreKernel.Mm.SpaceOps

/-!
# Building an address space from an ELF file (`VMSpace::new_user`)

`xmas_elf` is outside the repository: an `Elf` is the bytes of the file together with what the
parser returns for them, an error or the program headers as they are stored.  The rest of
`new_user` follows `os/src/mm/vm.rs`; an error drops the page in hand, then the area under
construction, then the space itself.

What `new_user` guarantees is proved in `Mm.Loader`.
-/

namespace RCoreKernel.Mm

open Radix RootPgt

/-- `program::Type`, as far as `map_user_elf` looks at it. -/
inductive PhType
  | load
  | other
  deriving DecidableEq, Repr

/-- `program::ProgramHeader`. -/
structure ProgramHeader where
  type : Except String PhType
  flags : UInt32
  offset : UInt64
  virtualAddr : UInt64
  fileSize : UInt64
  memSize : UInt64
  align : UInt64

/-- `ElfFile`: the program headers in the order of `program_iter`, and the entry point. -/
structure ElfFile where
  headers : List ProgramHeader
  entryPoint : UInt64

/-- `elf_bytes` and the result of `ElfFile::new` on them. -/
structure Elf where
  bytes : List UInt8
  parsed : Except String ElfFile

/-- `Flags::is_execute`, `Flags::is_write` and `Flags::is_read` of `xmas_elf`. -/
def ProgramHeader.isExecute (ph : ProgramHeader) : Bool := ph.flags &&& 1 ≠ 0
@[inherit_doc ProgramHeader.isExecute]
def ProgramHeader.isWrite (ph : ProgramHeader) : Bool := ph.flags &&& 2 ≠ 0
@[inherit_doc ProgramHeader.isExecute]
def ProgramHeader.isRead (ph : ProgramHeader) : Bool := ph.flags &&& 4 ≠ 0

/-! ### `copy_data` -/

/-- The word whose bytes, lowest first, are given by `f`. -/
def wordOfBytes (f : ℕ → ℕ) : ℕ := (List.range 8).foldr (fun b acc => f b + 256 * acc) 0

/-- `VMSpace::copy_data`: at most one page of `data` is written at the start of page `ppn`. -/
def copyData (m : Mem) (ppn : ℕ) (data : List UInt8) : Mem := fun q j =>
  if q = ppn then
    wordOfBytes fun b =>
      let offset := 8 * j + b
      if offset < min data.length pageSizeBytes then (data.getD offset 0).toNat
      else m q j / 256 ^ b % 256
  else m q j

theorem copyData_of_ne {m : Mem} {ppn q : ℕ} (h : q ≠ ppn) (data : List UInt8) :
    copyData m ppn data q = m q := by
  funext j
  rw [copyData, if_neg h]

namespace VMSpace

/-- `get_permissions_from_ph_flags`. -/
def getPermissionsFromPhFlags (ph : ProgramHeader) : ℕ :=
  let result := permissionU
  let result := if ph.isRead then result ||| permissionR else result
  let result := if ph.isWrite then result ||| permissionW else result
  if ph.isExecute then result ||| permissionX else result

/-- `create_area_from_ph`; `none` is the failed assertion of `VPN::from_va`. -/
def createAreaFromPh (ph : ProgramHeader) : Option VMArea :=
  (VPN.fromVa ph.virtualAddr.toNat).bind fun startVpn =>
    (VPN.fromVa (endOfRange ph.virtualAddr.toNat ph.memSize.toNat)).map fun endVpn =>
      VMArea.new startVpn endVpn .anonymous (getPermissionsFromPhFlags ph)

/-- `&elf_bytes[data_start..(data_start + PAGE_SIZE_BYTES).min(data_end)]`; `none` is the panic
of the slice. -/
def segmentSlice (bytes : List UInt8) (dataStart dataEnd : ℕ) : Option (List UInt8) :=
  let stop := min (wrap (dataStart + pageSizeBytes)) dataEnd
  if dataStart ≤ stop ∧ stop ≤ bytes.length then some ((bytes.drop dataStart).take (stop - dataStart))
  else none

/-- Fills a page of a segment with its data, if there is any left. -/
def loadPage (bytes : List UInt8) (dataEnd : ℕ) (k : Phys) (page dataStart : ℕ) :
    Option (Phys × ℕ) :=
  if dataStart < dataEnd then
    (segmentSlice bytes dataStart dataEnd).map fun data =>
      ({ k with mem := copyData k.mem page data }, wrap (dataStart + pageSizeBytes))
  else some (k, dataStart)

/-- The loop of `map_user_elf_segment`, over the remaining page numbers.  The area is returned
with the result because an error drops it. -/
def mapSegmentPages (bytes : List UInt8) (pteFlags dataEnd : ℕ) :
    List ℕ → Phys → RootPgt → VMArea → ℕ → Outcome VMError Unit × Phys × RootPgt × VMArea
  | [], k, t, area, _ => (.ok (), k, t, area)
  | v :: vs, k, t, area, dataStart =>
    match k.allocZeroedPage with
    | none => (.err .acquirePageFailed, k, t, area)
    | some (page, k) =>
      match loadPage bytes dataEnd k page dataStart with
      | none => (.panic .sliceOutOfRange, k, t, area)
      | some (k, dataStart) =>
        match RootPgt.mapCreate k t v page pteFlags with
        | (.error e, k, t) => (.err (.pgtError v e), k.dropPage page, t, area)
        | (.ok (), k, t) =>
          mapSegmentPages bytes pteFlags dataEnd vs k t
            { area with pages := area.pages.insert v page } dataStart

/-- `VMSpace::map_user_elf_segment`. -/
def mapUserElfSegment (bytes : List UInt8) (k : Phys) (s : VMSpace) (ph : ProgramHeader) :
    Outcome VMError Unit × Phys × VMSpace :=
  let align := ph.align.toNat
  if align = 0 then (.panic .remainderByZero, k, s)
  else if pageSizeBytes % align ≠ 0 then (.err (.alignDataFailed align), k, s)
  else
    match createAreaFromPh ph with
    | none => (.panic .invalidVirtualAddress, k, s)
    | some area =>
      match toPteFlags area.permissions with
      | .error e => (.err e, k, s)
      | .ok pteFlags =>
        let dataStart := ph.offset.toNat
        let dataEnd := wrap (dataStart + ph.fileSize.toNat)
        match mapSegmentPages bytes pteFlags dataEnd area.vpns k s.rootPgt area dataStart with
        | (.ok (), k, t, area) => (.ok (), k, { s with rootPgt := t, areas := s.areas ++ [area] })
        | (.err e, k, t, area) => (.err e, k.dropPages area.pages.values, { s with rootPgt := t })
        | (.panic site, k, t, _) => (.panic site, k, { s with rootPgt := t })

/-- The loop of `map_user_elf`. -/
def mapSegments (bytes : List UInt8) :
    List ProgramHeader → Phys → VMSpace → Outcome VMError Unit × Phys × VMSpace
  | [], k, s => (.ok (), k, s)
  | ph :: phs, k, s =>
    match ph.type with
    | .error msg => (.err (.elfError msg), k, s)
    | .ok .other => mapSegments bytes phs k s
    | .ok .load =>
      match mapUserElfSegment bytes k s ph with
      | (.ok (), k, s) => mapSegments bytes phs k s
      | r => r

/-- `VMSpace::map_user_elf`. -/
def mapUserElf (k : Phys) (s : VMSpace) (elf : Elf) : Outcome VMError Unit × Phys × VMSpace :=
  match elf.parsed with
  | .error msg => (.err (.elfError msg), k, s)
  | .ok file =>
    match mapSegments elf.bytes file.headers k s with
    | (.ok (), k, s) => (.ok (), k, { s with entryAddr := file.entryPoint.toNat })
    | r => r

/-- `VMSpace::add_user_stack_area`. -/
def addUserStackArea (k : Phys) (s : VMSpace) : Outcome VMError Unit × Phys × VMSpace :=
  let permissions := permissionR ||| permissionW ||| permissionU
  match toPteFlags permissions with
  | .error e => (.err e, k, s)
  | .ok pteFlags =>
    match k.allocZeroedPage with
    | none => (.err .acquirePageFailed, k, s)
    | some (page, k) =>
      match VPN.fromVa (userSpaceEnd - pageSizeBytes), VPN.fromVa userSpaceEnd,
          VPN.fromVa (userSpaceEnd - userStackMaxSizeBytes) with
      | some vpn, some endVpn, some startVpn =>
        match RootPgt.mapCreate k s.rootPgt vpn page pteFlags with
        | (.error e, k, t) => (.err (.pgtError vpn e), k.dropPage page, { s with rootPgt := t })
        | (.ok (), k, t) =>
          let area := VMArea.new startVpn endVpn .anonymous permissions
          let area := { area with pages := area.pages.insert vpn page }
          (.ok (), k,
            { s with rootPgt := t, areas := s.areas ++ [area], uStackEnd := userSpaceEnd })
      | _, _, _ => (.panic .invalidVirtualAddress, k, s)

/-- The page numbers at the two ends of the kernel stack in page `page`; `none` is the failed
assertion of `VPN::from_va`. -/
def kernelStackVpns (page : ℕ) : Option (ℕ × ℕ) :=
  (VPN.fromVa (wrap (PPN.getPa page + kernelVaOffset))).bind fun startVpn =>
    (VPN.fromVa (wrap (PPN.getPa page + kernelVaOffset + pageSizeBytes))).map fun endVpn =>
      (startVpn, endVpn)

/-- The second half of `add_kernel_stack_area`, with the page in hand. -/
def pushKernelStack (page : ℕ) (k : Phys) (s : VMSpace) : Outcome VMError Unit × Phys × VMSpace :=
  (kernelStackVpns page).elim (.panic .invalidVirtualAddress, k, s) fun (startVpn, endVpn) =>
    let area := VMArea.new startVpn endVpn .kernelVaOffset (permissionR ||| permissionW)
    let area := { area with pages := area.pages.insert startVpn page }
    (.ok (), k, { s with areas := s.areas ++ [area], kStackEnd := VPN.getVa endVpn })

/-- `VMSpace::add_kernel_stack_area`. -/
def addKernelStackArea (k : Phys) (s : VMSpace) : Outcome VMError Unit × Phys × VMSpace :=
  match k.allocPage with
  | none => (.err .acquirePageFailed, k, s)
  | some (page, k) => pushKernelStack page k s

/-- The part of `new_user` after the root table has been copied. -/
def fillUser (k : Phys) (s : VMSpace) (elf : Elf) : Outcome VMError Unit × Phys × VMSpace :=
  match mapUserElf k s elf with
  | (.ok (), k, s) =>
    match addUserStackArea k s with
    | (.ok (), k, s) => addKernelStackArea k s
    | r => r
  | r => r

/-- `VMSpace::new_user`, with the kernel root table in page `kernelRoot`. -/
def newUser (k : Phys) (kernelRoot : ℕ) (elf : Elf) : Outcome VMError VMSpace × Phys :=
  match RootPgt.newCopy k kernelRoot with
  | (.error e, k) => (.err (.createRootPgtFailed e), k)
  | (.ok rootPgt, k) =>
    match fillUser k ⟨rootPgt, [], 0, 0, 0⟩ elf with
    | (.ok (), k, s) => (.ok s, k)
    | (.err e, k, s) => (.err e, VMSpace.drop k s)
    | (.panic site, k, _) => (.panic site, k)

end VMSpace

end RCoreKernel.Mm
