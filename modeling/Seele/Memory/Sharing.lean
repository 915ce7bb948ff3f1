import Seele.Memory.Kernel

/-!
# Memory that processes share, and processes that come and go

The SysV segments of `ipc/sysv_shm.rs`, the dumb buffers of `drm/`, and the parts of `fork` and of
the end of a process that deal with memory.

A segment owns its frames through the reference count; attaching it makes a `SharedFrames` object of
the same frames. A dumb buffer is never removed, and its frames are not counted. Times, process ids
and the report of `IPC_STAT` are left out, and so is everything of the graphics card that does not
decide what a mapping of it shows.
-/

namespace Seele.Memory

open Seele.Lib

variable {φ : Type}

/-! ## SysV segments -/

/-- The bits of `shmflg` that `shmget` reads. -/
structure ShmgetFlags where
  create : Bool
  exclusive : Bool
  mode : ℕ
deriving DecidableEq, Repr

/-- The bits of `shmflg` that `shmat` reads; `unknown` stands for any other bit. -/
structure ShmatFlags where
  rdonly : Bool
  rnd : Bool
  unknown : Bool
deriving DecidableEq, Repr

/-- `mapping_pages`. -/
def mappingPages (len : ℕ) : ℕ :=
  (len + 4095) / 4096

/-- `allocate_segment_frames`. -/
def allocateSegmentFrames (pages : ℕ) : KernelM φ (List ℕ) :=
  allocateZeroedFrames increaseRef pages

/-- The kernel with another segment under an id. -/
def Kernel.setSegment (k : Kernel φ) (shmid : ℕ) (segment : Option SysvShmSegment) : Kernel φ :=
  { k with segments := Function.update k.segments shmid segment }

/-- `destroy_segment_locked`. -/
def destroySegmentLocked (shmid : ℕ) : KernelM φ Unit := do
  let k ← Cmd.get
  match k.segments shmid with
  | none => return ()
  | some segment =>
    Cmd.modify fun k => k.setSegment shmid none
    Cmd.each dropRef segment.frames

/-- `segment_allows_access`. -/
def segmentAllowsAccess (segment : SysvShmSegment) (process : Process) (readonly : Bool) : Bool :=
  let mask := if readonly then 4 else 6
  let allows := fun mask => decide (segment.mode &&& mask = mask)
  if process.effectiveUid = 0 then true
  else if process.effectiveUid = segment.ownerUid ∨ process.effectiveUid = segment.creatorUid then
    allows (mask <<< 6)
  else if process.effectiveGid = segment.ownerGid ∨ process.effectiveGid = segment.creatorGid ∨
      process.supplementaryGroups.any (fun gid =>
        decide (gid = segment.ownerGid) || decide (gid = segment.creatorGid)) then
    allows (mask <<< 3)
  else allows mask

/-- The segment that `shmget` finds under a key. -/
def Kernel.findSegment (k : Kernel φ) (namespaceInode : ℕ) (key : Int) :
    Option (ℕ × SysvShmSegment) :=
  (List.range' 1 k.nextShmid).findSome? fun shmid =>
    match k.segments shmid with
    | none => none
    | some segment =>
      if segment.namespaceInode = namespaceInode ∧ segment.key = key ∧
          segment.markedForRemoval = false then some (shmid, segment)
      else none

/-- The part of `shmget` that makes a new segment. -/
def createSegment (pid : ℕ) (key : Int) (size mode : ℕ) : KernelM φ ℕ := do
  let frames ← allocateSegmentFrames (mappingPages size)
  let k ← Cmd.get
  let process := k.process pid
  let shmid := k.nextShmid + 1
  let segment : SysvShmSegment :=
    { namespaceInode := process.ipcNamespace
      key, size, frames, mode
      ownerUid := process.effectiveUid
      ownerGid := process.effectiveGid
      creatorUid := process.effectiveUid
      creatorGid := process.effectiveGid
      attachCount := 0
      markedForRemoval := false }
  Cmd.modify fun k => { k.setSegment shmid (some segment) with nextShmid := shmid }
  return shmid

/-- `shmget`. -/
def shmget (pid : ℕ) (key : Int) (size : ℕ) (flags : ShmgetFlags) : KernelM φ ℕ := do
  let k ← Cmd.get
  let existing := if key = 0 then none else k.findSegment (k.process pid).ipcNamespace key
  match existing with
  | some (shmid, segment) =>
    if flags.create && flags.exclusive then
      Cmd.throw .fileAlreadyExists
    else if size ≠ 0 ∧ segment.size < size then
      Cmd.throw .invalidArguments
    else return shmid
  | none =>
    if !flags.create && decide (key ≠ 0) then
      Cmd.throw .fileNotFound
    else if size = 0 then
      Cmd.throw .invalidArguments
    else createSegment pid key size flags.mode

/-- `attach_addr`. -/
def attachAddr (pid requested : ℕ) (rnd : Bool) (len : ℕ) : KernelM φ ℕ := do
  if requested = 0 then
    fetchAddUserMem pid (mappingPages len)
  else if rnd then
    return requested / 4096 * 4096
  else if requested % 4096 ≠ 0 then
    Cmd.throw .invalidArguments
  else return requested

/-- The flags of the pages of an attached segment: they do not forbid execution. -/
def shmatPageFlags (rdonly : Bool) : PageTableFlags where
  present := true
  writable := !rdonly
  userAccessible := true
  noExecute := false
  cow := false

/-- The kernel with one more attachment of a segment, or one less. -/
def Kernel.setAttachCount (k : Kernel φ) (shmid : ℕ) (f : ℕ → ℕ) : Kernel φ :=
  match k.segments shmid with
  | none => k
  | some segment =>
    k.setSegment shmid (some { segment with attachCount := f segment.attachCount })

section Files

variable [FileLayer φ]

/-- The part of `shmat` that maps the frames of a segment at an address. -/
def attachSegment (pid shmid addr : ℕ) (frames : List ℕ) (pages : ℕ) (rdonly : Bool) :
    KernelM φ Unit := do
  let object ← sharedFramesNew frames
  let area ← newArea addr pages (shmatPageFlags rdonly) ⟨true, !rdonly, false⟩
    (.shared object .empty) false
  registerArea pid area
  Cmd.modify fun k => k.setProcess pid fun p =>
    { p with sysvShmMappings := p.sysvShmMappings ++ [⟨shmid, addr, pages * 4096⟩] }
  Cmd.modify fun k => k.setAttachCount shmid (· + 1)

/-- `shmat`. -/
def shmat (pid shmid shmaddr : ℕ) (flags : ShmatFlags) : KernelM φ ℕ := do
  if flags.unknown then
    Cmd.throw .invalidArguments
  else
    let k ← Cmd.get
    match k.segments shmid with
    | none => Cmd.throw .invalidArguments
    | some segment =>
      if segment.namespaceInode ≠ (k.process pid).ipcNamespace then
        Cmd.throw .invalidArguments
      else if !segmentAllowsAccess segment (k.process pid) flags.rdonly then
        Cmd.throw .permissionDenied
      else
        let requested ← Cmd.orPanic (virtAddr shmaddr)
        let addr ← attachAddr pid requested flags.rnd segment.size
        attachSegment pid shmid addr segment.frames (mappingPages segment.size) flags.rdonly
        return addr

/-- `complete_detach`. -/
def completeDetach (pid : ℕ) (mapping : ProcessShmMapping) : KernelM φ Unit := do
  unmap pid mapping.addr mapping.len
  Cmd.modify fun k => k.setAttachCount mapping.shmid (· - 1)
  let k ← Cmd.get
  match k.segments mapping.shmid with
  | none => return ()
  | some segment =>
    if segment.markedForRemoval && decide (segment.attachCount = 0) then
      destroySegmentLocked mapping.shmid

/-- `shmdt`. -/
def shmdt (pid shmaddr : ℕ) : KernelM φ Unit := do
  let addr ← Cmd.orPanic (virtAddr shmaddr)
  let k ← Cmd.get
  match (k.process pid).sysvShmMappings.findIdx? fun mapping => decide (mapping.addr = addr) with
  | none => Cmd.throw .invalidArguments
  | some index =>
    let mapping ← Cmd.orPanic (k.process pid).sysvShmMappings[index]?
    Cmd.modify fun k => k.setProcess pid fun p =>
      { p with sysvShmMappings := p.sysvShmMappings.eraseIdx index }
    completeDetach pid mapping

/-- `detach_all_process_mappings`. -/
def detachAllProcessMappings (pid : ℕ) : KernelM φ Unit := do
  let k ← Cmd.get
  Cmd.modify fun k => k.setProcess pid fun p => { p with sysvShmMappings := [] }
  Cmd.each (completeDetach pid) (k.process pid).sysvShmMappings

end Files

/-- `shmctl` with `IPC_RMID`. -/
def shmctlRmid (pid shmid : ℕ) : KernelM φ Unit := do
  let k ← Cmd.get
  match k.segments shmid with
  | none => Cmd.throw .invalidArguments
  | some segment =>
    let uid := (k.process pid).effectiveUid
    if segment.namespaceInode ≠ (k.process pid).ipcNamespace then
      Cmd.throw .invalidArguments
    else if uid ≠ 0 ∧ uid ≠ segment.ownerUid ∧ uid ≠ segment.creatorUid then
      Cmd.throw .permissionDenied
    else
      Cmd.modify fun k => k.setSegment shmid (some { segment with markedForRemoval := true })
      if segment.attachCount = 0 then
        destroySegmentLocked shmid

/-! ## Dumb buffers -/

/-- `normalized_pages`: the power of two that a request for contiguous frames is rounded up to. -/
def normalizedPages (pages : ℕ) : Option ℕ :=
  if pages = 0 then none else some pages.nextPowerOfTwo

/-- `allocate_contiguous`, where the allocator has chosen the frames from `start` on; it can choose
only free ones. -/
def allocateContiguous (start pages : ℕ) : KernelM φ Bool := do
  let k ← Cmd.get
  match normalizedPages pages with
  | none => return false
  | some count =>
    let frames := List.range' start count
    if frames.all fun frame => decide (frame ∈ k.freeFrames) then
      Cmd.modify fun k =>
        { k with freeFrames := k.freeFrames.filter fun frame => decide (frame ∉ frames) }
      return true
    else return false

/-- The part of `create_dumb_buffer` after the size of the buffer is known. -/
def insertDumbBuffer (start size pages : ℕ) : KernelM φ ℕ := do
  let k ← Cmd.get
  let handle := k.nextHandle
  let mapOffset := k.nextMapOffset
  if 0x100000000 ≤ handle + 1 then
    Cmd.throw .other
  else
    Cmd.modify fun k => { k with nextHandle := handle + 1 }
    if 0x10000000000000000 ≤ mapOffset + pages * 4096 + 4096 then
      Cmd.throw .other
    else
      Cmd.modify fun k =>
        { k with
          nextMapOffset := mapOffset + pages * 4096 + 4096
          dumbBuffers := Function.update k.dumbBuffers handle
            (some ⟨size, mapOffset, List.range' start pages, pages, .empty⟩) }
      return handle

/-- `create_dumb_buffer`, for a request with `flags` equal to zero; the allocator chooses the
frames. -/
def createDumbBuffer (width height bpp start : ℕ) : KernelM φ ℕ := do
  if width = 0 ∨ height = 0 ∨ bpp = 0 then
    Cmd.throw .invalidArguments
  else
    let pitch := width * ((bpp + 7) / 8)
    if 0x100000000 ≤ pitch then
      Cmd.throw .invalidArguments
    else
      let size := pitch * height
      let pages := (size + 4095) / 4096
      if ← allocateContiguous start pages then
        Cmd.each zeroFrame (List.range' start pages)
        insertDumbBuffer start size pages
      else Cmd.throw .other

/-- `aligned_size`. -/
def DumbBuffer.alignedSize (buffer : DumbBuffer) : ℕ :=
  (buffer.size + 4095) / 4096 * 4096

/-- `dumb_buffer_for_mapping`: the frames of the buffer at an offset. -/
def Kernel.dumbBufferForMapping (k : Kernel φ) (offset pages : ℕ) :
    Option (List ℕ × PageTableFlags) :=
  match (List.range' 1 k.nextHandle).findSome? fun handle =>
      (k.dumbBuffers handle).filter fun buffer =>
        decide (buffer.mapOffset ≤ offset) &&
          decide (offset < buffer.mapOffset + buffer.alignedSize) with
  | none => none
  | some buffer =>
    let byteDelta := offset - buffer.mapOffset
    let pageDelta := byteDelta / 4096
    if byteDelta % 4096 ≠ 0 ∨ pages = 0 ∨ buffer.pages < pageDelta + pages then none
    else some ((buffer.frames.drop pageDelta).take pages, buffer.sharedFlags)

/-- `DrmCardObject::map`. -/
def drmMap [FileLayer φ] (pid offset pages : ℕ) (protection : Protection) : KernelM φ ℕ := do
  let k ← Cmd.get
  match k.dumbBufferForMapping offset pages with
  | none => Cmd.throw .invalidArguments
  | some (frames, flags) =>
    let object ← sharedFramesNew frames
    allocateUserLazy pid pages protection (.shared object flags)

/-! ## Fork and exit -/

/-- `inherit_forked_mappings`. -/
def inheritForkedMappings (mappings : List ProcessShmMapping) : KernelM φ Unit :=
  Cmd.each (fun mapping => Cmd.modify fun k => k.setAttachCount mapping.shmid (· + 1)) mappings

/-- `allocate_process_id`: an id that no process has. -/
def Kernel.freshPid (k : Kernel φ) : ℕ :=
  k.pids.foldr max 0 + 1

/-- A fresh number is not in use. -/
theorem Kernel.freshPid_notMem (k : Kernel φ) : k.freshPid ∉ k.pids := by
  have hle : ∀ l : List ℕ, ∀ pid ∈ l, pid ≤ l.foldr max 0 := by
    intro l
    induction l with
    | nil => exact nofun
    | cons a l ih => grind
  grind [Kernel.freshPid]

/-- The memory side of `fork`: a copy of the address space, and one more attachment of every segment
that the parent has attached. -/
def fork (parent : ℕ) (shareVm : Bool) : KernelM φ ℕ := do
  let k ← Cmd.get
  let child := k.freshPid
  cloneWithVmSharing parent child shareVm
  inheritForkedMappings (k.process parent).sysvShmMappings
  return child

/-- The memory side of the end of a process and of its reaping: the segments are detached, the user
mappings released, and then the page tables go with the process. -/
def exit [FileLayer φ] (pid : ℕ) : KernelM φ Unit := do
  detachAllProcessMappings pid
  releaseUserMappings pid
  Cmd.modify fun k =>
    { k with
      pids := k.pids.filter fun other => decide (other ≠ pid)
      process := Function.update k.process pid Process.default }

end Seele.Memory
