import Seele.Lib.Intervals
import Seele.Memory.MemArea

/-!
# The areas of an address space

`AreaMap` is the part of `AddrSpace` that says what is mapped where: the vector `memory_areas`, the
placement cursor `user_mem` and the cached index `last_area_index`. The operations are those of
`memory/addrspace/{mapping, mod, misc}.rs` on these fields, the stack growth of
`interrupts/pagefault.rs`, and the in-place extension of `Mremap`. The page table, which the same
calls also change, is in `Seele.Memory.Kernel`.
-/

namespace Seele.Memory

open Seele.Lib

/-- The fields of `AddrSpace` that describe its areas. -/
structure AreaMap where
  memoryAreas : List MemoryArea
  userMem : ℕ
  lastAreaIndex : Option ℕ
deriving DecidableEq, Repr

/-- `AddrSpace::default()`. -/
def AreaMap.default : AreaMap :=
  ⟨[], userMemStart, none⟩

/-! ## Looking an area up -/

variable (s : AreaMap)

/-- The area at the cached index, if it contains the address. -/
def AreaMap.cachedArea (addr : ℕ) : Option MemoryArea :=
  match s.lastAreaIndex with
  | none => none
  | some index => (s.memoryAreas[index]?).filter fun area => area.contains addr

/-- `get_area` and `get_area_mut`: the cached index first, then a binary search, which also sets the
cached index. -/
def AreaMap.getArea (addr : ℕ) : Option MemoryArea × AreaMap :=
  match s.cachedArea addr with
  | some area => (some area, s)
  | none =>
    let areas := s.memoryAreas
    match search MemoryArea.start MemoryArea.end_ areas addr 0 areas.length areas.length with
    | some mid => (areas[mid]?, { s with lastAreaIndex := some mid })
    | none => (none, { s with lastAreaIndex := none })

/-! ## Cutting and registering -/

/-- `unmap_areas`. -/
def AreaMap.unmapAreas (start end_ : ℕ) : AreaMap :=
  { s with
    memoryAreas := s.memoryAreas.flatMap fun area => area.unmapped start end_
    lastAreaIndex := none }

/-- The areas with one more, in front of the first that does not start below it: where
`binary_search_by_key` on the starts of a sorted vector puts it. -/
def insertArea (areas : List MemoryArea) (area : MemoryArea) : List MemoryArea :=
  areas.takeWhile (fun existing => decide (existing.start < area.start)) ++
    area :: areas.dropWhile (fun existing => decide (existing.start < area.start))

/-- `register_area`, without the pages an area that is not lazy is given at once. -/
def AreaMap.registerArea (area : MemoryArea) : AreaMap :=
  { s with
    memoryAreas := insertArea (s.unmapAreas area.start area.end_).memoryAreas area
    lastAreaIndex := none }

/-- `set_locked`. -/
def AreaMap.setLocked (start end_ : ℕ) (locked : Bool) : AreaMap :=
  if start ≥ end_ then s
  else
    { s with
      memoryAreas := s.memoryAreas.flatMap fun area => area.relocked start end_ locked
      lastAreaIndex := none }

/-- `update_permissions`, without the flags of the pages that are present. -/
def AreaMap.updatePermissions (start end_ : ℕ) (protection : Protection) : AreaMap :=
  if start ≥ end_ then s
  else
    { s with
      memoryAreas := s.memoryAreas.flatMap fun area => area.reprotected start end_ protection
      lastAreaIndex := none }

/-- `try_unmap` on the areas. The file mappings of the range are flushed first, and if that fails
nothing is unmapped. The end of the range must be an address. -/
def AreaMap.tryUnmap (start len : ℕ) (flushed : Bool) : Option AreaMap :=
  if len = 0 then some s
  else do
    let end_ ← virtAddr (start + len)
    return if flushed then s.unmapAreas start end_ else s

/-! ## Placing -/

/-- `fetch_add_user_mem`: the cursor before it moves past the pages and one guard page. -/
def AreaMap.fetchAddUserMem (pages : ℕ) : Option (ℕ × AreaMap) := do
  let userMem ← virtAddr (s.userMem + (pages + 1) * 4096)
  return (s.userMem, { s with userMem })

/-- `mapping_overlaps`. -/
def mappingOverlaps (areas : List MemoryArea) (start end_ : ℕ) : Bool :=
  areas.any fun area => decide (area.start < end_) && decide (start < area.end_)

/-- The errors the memory system calls return. -/
inductive SyscallError where
  | invalidArguments
  | noMemory
  | badAddress
  | badFileDescriptor
  | fileAlreadyExists
  | fileNotFound
  | accessDenied
  | permissionDenied
  | operationNotSupported
  | other
deriving DecidableEq, Repr

/-- `checked_user_range`: a range that is not empty and ends at or below `USER_MEM_END`. The address
`USER_MEM_END` itself is not canonical, so a range that ends there panics. -/
def checkedUserRange (start len : ℕ) : Option (Option (ℕ × ℕ)) :=
  if len = 0 ∨ 0x10000000000000000 ≤ start + len ∨ userMemEnd < start + len then some none
  else do
    let end_ ← virtAddr (start + len)
    return some (start, end_)

/-- `checked_user_mapping`. -/
def checkedUserMapping (addr pages : ℕ) : Option (Except SyscallError (ℕ × ℕ)) :=
  if addr = 0 ∨ addr % 4096 ≠ 0 ∨ 0x10000000000000000 ≤ pages * 4096 then
    some (.error .invalidArguments)
  else do
    match ← checkedUserRange addr (pages * 4096) with
    | none => return .error .invalidArguments
    | some range => return .ok range

/-- `area_covers_range`, for a range whose end is an address. -/
def areaCoversRange (area : MemoryArea) (start pages : ℕ) : Option Bool := do
  let end_ ← virtAddr (start + pages * 4096)
  return decide (area.start ≤ start) && decide (end_ ≤ area.end_)

/-- `mmap_data`: the data of a mapping of a file whose `info()` gives the size `size`, or fails. -/
def mmapData (file : FileLikeObject) (size : Option ℕ) (offset pages : ℕ) (shared : Bool) : Data :=
  .file offset (match size with
    | none => 0
    | some size => min (size - offset) (pages * 4096)) false file shared

/-- The area with a new end, and with the file bytes counted again: what `Mremap` makes of an area
it extends. `info` gives the sizes of files. -/
def MemoryArea.extended (area : MemoryArea) (info : FileLikeObject → Option ℕ)
    (newMappingEnd newPages : ℕ) : MemoryArea :=
  { area with
    end_ := newMappingEnd
    data := match area.data with
      | .file offset _ _ file shared => mmapData file (info file) offset newPages shared
      | data => data }

/-- The part of `Mremap` that extends the area at `oldAddr` in place, if nothing is mapped between
its old and its new end. The `Bool` says whether it did. -/
def AreaMap.extendInPlace (info : FileLikeObject → Option ℕ)
    (oldAddr oldPages newPages : ℕ) : Option (Bool × AreaMap) := do
  let oldMappingEnd ← virtAddr (oldAddr + oldPages * 4096)
  let newMappingEnd ← virtAddr (oldAddr + newPages * 4096)
  let checked ← checkedUserMapping oldAddr newPages
  if checked.isOk && !mappingOverlaps s.memoryAreas oldMappingEnd newMappingEnd then
    match s.memoryAreas.findIdx? fun existing => decide (existing.start = oldAddr) with
    | some index =>
      return (true, { s with
          memoryAreas := s.memoryAreas.modify index fun area =>
            area.extended info newMappingEnd newPages
          lastAreaIndex := none })
    | none => return (false, s)
  else return (false, s)

/-- `Mremap` from the lookup of the old mapping up to the extension in place, for a length that
grows. -/
def AreaMap.mremapExtend (info : FileLikeObject → Option ℕ)
    (oldAddr oldPages newPages : ℕ) : Option AreaMap :=
  match s.getArea oldAddr with
  | (none, s') => some s'
  | (some area, s') => do
    let covers ← areaCoversRange area oldAddr oldPages
    if covers = true ∧ area.start = oldAddr ∧ oldPages < newPages then
      let (_, s') ← s'.extendInPlace info oldAddr oldPages newPages
      return s'
    else return s'

/-! ## Stack growth -/

/-- The area that grows down and starts right above the page of the address. -/
def growsInto (faultPageStart : ℕ) (area : MemoryArea) : Bool :=
  area.growsDown && decide (faultPageStart < area.start) &&
    decide (faultPageStart + 4096 = area.start)

/-- The growth of a stack in `pagefault_handler`: the first area that grows into the faulting page
takes it, if no other area starts below the page and ends less than `STACK_GUARD_GAP_PAGES` pages
below it. -/
def AreaMap.growStack (faultPageStart : ℕ) : Option MemoryArea × AreaMap :=
  match s.memoryAreas.findIdx? (growsInto faultPageStart) with
  | none => (none, s)
  | some index =>
    let guardStart := faultPageStart - 256 * 4096
    let guardBlocked := s.memoryAreas.zipIdx.any fun other =>
      decide (other.2 ≠ index) && decide (other.1.start < faultPageStart) &&
        decide (guardStart < other.1.end_)
    if guardBlocked then (none, s)
    else
      let areas := s.memoryAreas.modify index fun area => { area with start := faultPageStart }
      (areas[index]?, { s with memoryAreas := areas, lastAreaIndex := some index })

/-- The lookup of a page fault: the area of the address, or the stack that grows into its page. -/
def AreaMap.faultArea (address : ℕ) : Option MemoryArea × AreaMap :=
  match s.getArea address with
  | (some area, s') => (some area, s')
  | (none, s') => s'.growStack (address / 4096 * 4096)

/-! ## What the operations leave alone -/

/-- A lookup keeps the areas. -/
@[simp]
theorem AreaMap.getArea_memoryAreas (addr : ℕ) :
    (s.getArea addr).2.memoryAreas = s.memoryAreas := by
  grind [AreaMap.getArea]

/-- A lookup keeps the next address. -/
@[simp]
theorem AreaMap.getArea_userMem (addr : ℕ) : (s.getArea addr).2.userMem = s.userMem := by
  grind [AreaMap.getArea]

/-- The areas after one is inserted. -/
@[simp]
theorem mem_insertArea {areas : List MemoryArea} {area a : MemoryArea} :
    a ∈ insertArea areas area ↔ a = area ∨ a ∈ areas := by
  have hsplit := List.takeWhile_append_dropWhile
    (p := fun existing : MemoryArea => decide (existing.start < area.start)) (l := areas)
  unfold insertArea
  grind

end Seele.Memory
