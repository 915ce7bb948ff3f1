import Mathlib.Data.Nat.Notation
import Mathlib.Order.Basic
import Mathlib.Data.List.Basic

/-!
# Memory areas

The model of `memory/addrspace/mem_area.rs` and of the functions that cut an area into pieces:
`split_memory_area` of `misc.rs`, and what `unmap_areas`, `set_locked` and `update_permissions` do
with one area.

Addresses, page numbers and frame numbers are natural numbers, and a page has 4096 bytes. The model
is that of the default build, which panics where a `u64` overflows: `virtAddr` is `none` there and
where `VirtAddr::new` panics. The offset of a piece of a file is not bounded here.
-/

namespace Seele.Memory

/-- `VirtAddr::new`: bits 48 to 63 must repeat bit 47, and the call panics where they do not. -/
def virtAddr (n : ℕ) : Option ℕ :=
  if n < 0x800000000000 then some n
  else if 0xffff800000000000 ≤ n ∧ n < 0x10000000000000000 then some n
  else none

/-- `USER_MEM_START`: where the placement cursor of an empty address space stands. -/
def userMemStart : ℕ := 0xc0000000

/-- `USER_MEM_END`: the end of the user half of the address space. -/
def userMemEnd : ℕ := 0x800000000000

/-! ## Flags and protections -/

/-- The page-table flags the kernel sets and reads; `cow` is bit 9, `COW_FLAG`. -/
structure PageTableFlags where
  present : Bool
  writable : Bool
  userAccessible : Bool
  noExecute : Bool
  cow : Bool
deriving DecidableEq, Repr

/-- `PageTableFlags::empty()`. -/
def PageTableFlags.empty : PageTableFlags :=
  ⟨false, false, false, false, false⟩

/-- `a | b` of two sets of flags. -/
def PageTableFlags.union (a b : PageTableFlags) : PageTableFlags where
  present := a.present || b.present
  writable := a.writable || b.writable
  userAccessible := a.userAccessible || b.userAccessible
  noExecute := a.noExecute || b.noExecute
  cow := a.cow || b.cow

/-- `as_cow_flags` of `memory/utils.rs`: the flags with `COW_FLAG` and without `WRITABLE`. -/
def asCowFlags (flags : PageTableFlags) : PageTableFlags :=
  { flags with cow := true, writable := false }

/-- `Protection`. -/
structure Protection where
  read : Bool
  write : Bool
  exec : Bool
deriving DecidableEq, Repr

/-- `protection_to_page_flags` of `misc/others.rs`: `PRESENT` and `USER_ACCESSIBLE` are set for
every protection, the empty one included. -/
def protectionToPageFlags (protection : Protection) : PageTableFlags where
  present := true
  writable := protection.write
  userAccessible := true
  noExecute := !protection.exec
  cow := false

/-! ## Areas -/

/-- `mapping_identity()` of a file: the key under which its pages are shared. -/
structure MappingIdentity where
  deviceId : ℕ
  inode : ℕ
deriving DecidableEq, Repr

/-- A `FileLikeObject` behind an `Arc`: the address of the object and, for a file that has one, its
identity. -/
structure FileLikeObject where
  object : ℕ
  mappingIdentity : Option MappingIdentity
deriving DecidableEq, Repr

/-- `Arc<SharedFrames>`: the address of the object, which tells two of them apart, and its
frames. -/
structure SharedFrames where
  object : ℕ
  frames : List ℕ
deriving DecidableEq, Repr

/-- `MmapPermissions`. -/
structure MmapPermissions where
  sharedWriteAllowed : Option Bool
  sharedMapping : Bool
deriving DecidableEq, Repr

/-- `Data`: what a memory area contains. -/
inductive Data where
  | normal (permissions : MmapPermissions)
  | file (offset fileBytes : ℕ) (zeroFillAfterFile : Bool) (file : FileLikeObject) (shared : Bool)
  | shared (frames : SharedFrames) (flags : PageTableFlags)
deriving DecidableEq, Repr

/-- `MemoryArea`: the addresses from `start` up to but not including `end_`. -/
structure MemoryArea where
  start : ℕ
  end_ : ℕ
  flags : PageTableFlags
  protection : Protection
  data : Data
  lazy : Bool
  locked : Bool
  growsDown : Bool
deriving DecidableEq, Repr

/-- `MemoryArea::new`, for a start and a number of pages whose end is a valid address. -/
def MemoryArea.new (start pages : ℕ) (flags : PageTableFlags) (protection : Protection)
    (data : Data) (lazy : Bool) : MemoryArea :=
  ⟨start, start + pages * 4096, flags, protection, data, lazy, false, false⟩

variable (area : MemoryArea)

/-- `contains`. -/
def MemoryArea.contains (addr : ℕ) : Bool :=
  decide (area.start ≤ addr) && decide (addr < area.end_)

/-- `pages()`: the number of whole pages the length of the area comes to. -/
def MemoryArea.pages : ℕ :=
  (area.end_ - area.start) / 4096

/-- `is_user`. -/
def MemoryArea.isUser : Bool :=
  decide (area.start < userMemEnd) && decide (area.end_ ≤ userMemEnd)

/-- The pages from the one that contains `first` to the one that contains `last`, both included:
`Page::range_inclusive(Page::containing_address(first), Page::containing_address(last))`. -/
def pagesInclusive (first last : ℕ) : List ℕ :=
  List.range' (first / 4096) (last / 4096 + 1 - first / 4096)

/-- The pages of a range. -/
theorem mem_pagesInclusive {first last page : ℕ} :
    page ∈ pagesInclusive first last ↔ first / 4096 ≤ page ∧ page ≤ last / 4096 := by
  unfold pagesInclusive
  rw [List.mem_range'_1]
  omega

/-! ## Pieces of an area -/

/-- The data of a left piece of `span` bytes: the same offset, and no more file bytes than fit. -/
def Data.truncated : Data → ℕ → Data
  | .file offset fileBytes zeroFill object isShared, span =>
    .file offset (min fileBytes span) zeroFill object isShared
  | data, _ => data

/-- The data of a piece of `span` bytes that starts `delta` bytes into the area. Only file data
moves with the start: anonymous data and shared frames are taken over as they are. -/
def Data.advanced : Data → ℕ → ℕ → Data
  | .file offset fileBytes zeroFill object isShared, delta, span =>
    .file (offset + delta) (min (fileBytes - delta) span) zeroFill object isShared
  | data, _, _ => data

/-- The piece of an area below `overlapStart`. -/
def MemoryArea.leftPiece (overlapStart : ℕ) : MemoryArea :=
  { area with
    end_ := overlapStart
    data := area.data.truncated (overlapStart - area.start) }

/-- The piece of an area from `overlapStart` up to `overlapEnd`, before its metadata are changed. -/
def MemoryArea.middlePiece (overlapStart overlapEnd : ℕ) : MemoryArea :=
  { area with
    start := overlapStart
    end_ := overlapEnd
    data := area.data.advanced (overlapStart - area.start) (overlapEnd - overlapStart) }

/-- The piece of an area from `overlapEnd` on. -/
def MemoryArea.rightPiece (overlapEnd : ℕ) : MemoryArea :=
  { area with
    start := overlapEnd
    data := area.data.advanced (overlapEnd - area.start) (area.end_ - overlapEnd) }

/-- `split_memory_area`: what is left of the area on both sides of `[start, end)`. -/
def splitMemoryArea (start end_ : ℕ) : Option MemoryArea × Option MemoryArea :=
  let overlapStart := max area.start start
  let overlapEnd := min area.end_ end_
  if overlapStart ≥ overlapEnd then (some area, none)
  else
    (if area.start < overlapStart then some (area.leftPiece overlapStart) else none,
      if overlapEnd < area.end_ then some (area.rightPiece overlapEnd) else none)

/-- What `unmap_areas` leaves of one area. -/
def MemoryArea.unmapped (start end_ : ℕ) : List MemoryArea :=
  let overlapStart := max area.start start
  let overlapEnd := min area.end_ end_
  if overlapStart ≥ overlapEnd then [area]
  else
    (if area.start < overlapStart then [area.leftPiece overlapStart] else []) ++
      (if overlapEnd < area.end_ then [area.rightPiece overlapEnd] else [])

/-- What a pass that keeps the overlap with `[start, end)` as an area of its own, with other
metadata, makes of one area: the left piece, the changed middle and the right piece. -/
def MemoryArea.recut (start end_ : ℕ) (change : MemoryArea → MemoryArea) :
    List MemoryArea :=
  let overlapStart := max area.start start
  let overlapEnd := min area.end_ end_
  if overlapStart ≥ overlapEnd then [area]
  else
    (splitMemoryArea area start end_).1.toList ++
      change (area.middlePiece overlapStart overlapEnd) ::
        (splitMemoryArea area start end_).2.toList

/-- What `set_locked` makes of one area. -/
def MemoryArea.relocked (start end_ : ℕ) (locked : Bool) : List MemoryArea :=
  area.recut start end_ fun middle => { middle with locked }

/-- What `update_permissions` makes of one area. -/
def MemoryArea.reprotected (start end_ : ℕ) (protection : Protection) :
    List MemoryArea :=
  area.recut start end_ fun middle =>
    { middle with flags := protectionToPageFlags protection, protection }

/-! ## The shape of a cut -/

/-- The range and the area have no address in common. -/
def MemoryArea.apart (start end_ : ℕ) : Prop :=
  min area.end_ end_ ≤ max area.start start

instance (area : MemoryArea) (start end_ : ℕ) : Decidable (area.apart start end_) :=
  inferInstanceAs (Decidable (_ ≤ _))

variable {area : MemoryArea} {start end_ : ℕ}

/-- An area that is not met stays. -/
theorem MemoryArea.unmapped_of_apart (h : area.apart start end_) :
    area.unmapped start end_ = [area] :=
  if_pos h

variable {change : MemoryArea → MemoryArea}

/-- An area that is not met stays. -/
theorem MemoryArea.recut_of_apart (h : area.apart start end_) :
    area.recut start end_ change = [area] :=
  if_pos h

variable (h : ¬ area.apart start end_)

include h

variable {piece : MemoryArea}

/-- The pieces that `unmap_areas` leaves of an area that meets the range: what lies below the range
and what lies above it. -/
theorem MemoryArea.mem_unmapped : piece ∈ area.unmapped start end_ ↔
      (area.start < start ∧ piece = area.leftPiece start) ∨
        (end_ < area.end_ ∧ piece = area.rightPiece end_) := by
  have hlt : max area.start start < min area.end_ end_ := Nat.lt_of_not_le h
  grind [MemoryArea.unmapped]

/-- An area that meets the range is recut into what `unmap_areas` leaves of it on the left, the
changed overlap, and what `unmap_areas` leaves of it on the right. -/
theorem MemoryArea.recut_of_meets : area.recut start end_ change =
      (if area.start < start then [area.leftPiece start] else []) ++
        change (area.middlePiece (max area.start start) (min area.end_ end_)) ::
          (if end_ < area.end_ then [area.rightPiece end_] else []) := by
  have hlt : max area.start start < min area.end_ end_ := Nat.lt_of_not_le h
  unfold MemoryArea.recut splitMemoryArea
  grind

/-- The pieces of a change. -/
theorem MemoryArea.mem_recut : piece ∈ area.recut start end_ change ↔
      (area.start < start ∧ piece = area.leftPiece start) ∨
        piece = change (area.middlePiece (max area.start start) (min area.end_ end_)) ∨
          (end_ < area.end_ ∧ piece = area.rightPiece end_) := by
  grind [MemoryArea.recut_of_meets]

end Seele.Memory
