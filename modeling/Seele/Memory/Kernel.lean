import Mathlib.Logic.Function.Basic
import Seele.Lib.Cmd
import Seele.Memory.AreaMap

/-!
# Page tables, frames and reference counts

The state of the memory subsystem over all processes, and the functions of `memory/addrspace/` that
change it. A command of `KernelM` stops where the source panics.

The page table of a process is the map from page numbers to entries that the x86 tables describe;
the frames of the tables themselves and the TLB are left out. A function that collects frames and
hands them back to the allocator after a loop hands each one back at once here, which leaves the
same frames free. `Arc<SharedFrames>` is dropped when no area of any process refers to it any more
(`setAreas`). Files are behind `FileLayer`.
-/

namespace Seele.Memory

open Seele.Lib

/-! ## State -/

/-- A page-table entry that is in use. -/
structure Pte where
  frame : ℕ
  flags : PageTableFlags
deriving DecidableEq, Repr

/-- `FilePageCacheKey`. -/
structure FilePageCacheKey where
  file : MappingIdentity
  offset : ℕ
deriving DecidableEq, Repr

/-- `ProcessShmMapping`. -/
structure ProcessShmMapping where
  shmid : ℕ
  addr : ℕ
  len : ℕ
deriving DecidableEq, Repr

/-- The fields of a `Process` that its memory calls read. -/
structure Process where
  areas : AreaMap
  pageTable : ℕ → Option Pte
  programBreak : ℕ
  programBreakBase : ℕ
  rlimitDataCur : ℕ
  sysvShmMappings : List ProcessShmMapping
  effectiveUid : ℕ
  effectiveGid : ℕ
  supplementaryGroups : List ℕ
  ipcNamespace : ℕ

/-- A process of the superuser with an empty address space. -/
def Process.default : Process where
  areas := AreaMap.default
  pageTable := fun _ => none
  programBreak := 0
  programBreakBase := 0
  rlimitDataCur := 0xffffffffffffffff
  sysvShmMappings := []
  effectiveUid := 0
  effectiveGid := 0
  supplementaryGroups := []
  ipcNamespace := 0

/-- `SysvShmSegment`, without the times and process ids that `IPC_STAT` reports. -/
structure SysvShmSegment where
  namespaceInode : ℕ
  key : Int
  size : ℕ
  frames : List ℕ
  ownerUid : ℕ
  ownerGid : ℕ
  creatorUid : ℕ
  creatorGid : ℕ
  mode : ℕ
  attachCount : ℕ
  markedForRemoval : Bool
deriving DecidableEq, Repr

/-- The fields of `DumbBuffer` that decide what it maps. -/
structure DumbBuffer where
  size : ℕ
  mapOffset : ℕ
  frames : List ℕ
  pages : ℕ
  sharedFlags : PageTableFlags
deriving DecidableEq, Repr

/-- What a read of a cluster of the page cache returns: the bytes, of which the first `validLen` are
those of the file. -/
structure ClusterRead where
  data : ℕ → UInt8
  validLen : ℕ

/-- The files and the page cache, as the memory subsystem uses them. -/
class FileLayer (φ : Type) where
  /-- The size that `info()` reports. -/
  size : φ → FileLikeObject → Option ℕ
  /-- `page_cache::read_cluster` for a page index; `none` if the read fails. -/
  readCluster : φ → FileLikeObject → ℕ → Option ClusterRead × φ
  /-- `page_cache::invalidate_file`. -/
  invalidate : φ → FileLikeObject → φ
  /-- `with_file_write_cursor`: writes of bytes at offsets, one after another, and whether all of
  them succeed. -/
  writeChunks : φ → FileLikeObject → List (ℕ × List UInt8) → Bool × φ

/-- No files. -/
instance noFiles : FileLayer Unit where
  size _ _ := none
  readCluster files _ _ := (none, files)
  invalidate files _ := files
  writeChunks files _ _ := (true, files)

/-- The state of the memory subsystem. -/
structure Kernel (φ : Type) where
  /-- The processes that exist. -/
  pids : List ℕ
  process : ℕ → Process
  /-- The free frames of `FRAME_ALLOCATOR`, in the order in which it hands them out. -/
  freeFrames : List ℕ
  /-- `FRAME_REF_COUNT`. -/
  frameRefCount : ℕ → Option ℕ
  /-- The bytes of every frame. -/
  ram : ℕ → ℕ → UInt8
  /-- `SHARED_FILE_PAGE_CACHE`. -/
  sharedFilePageCache : FilePageCacheKey → Option ℕ
  /-- The address of the next object behind an `Arc`. -/
  nextObject : ℕ
  nextShmid : ℕ
  segments : ℕ → Option SysvShmSegment
  nextHandle : ℕ
  nextMapOffset : ℕ
  dumbBuffers : ℕ → Option DumbBuffer
  files : φ

/-- A command of the kernel. -/
abbrev KernelM (φ : Type) : Type → Type :=
  Cmd SyscallError (Kernel φ)

variable {φ : Type}

/-- The kernel with another state of one process. -/
def Kernel.setProcess (k : Kernel φ) (pid : ℕ) (f : Process → Process) : Kernel φ :=
  { k with process := Function.update k.process pid (f (k.process pid)) }

/-- The areas of all processes. -/
def Kernel.allAreas (k : Kernel φ) : List MemoryArea :=
  k.pids.flatMap fun pid => (k.process pid).areas.memoryAreas

/-! ## Frames and their reference counts -/

/-- `allocate_frame`. -/
def allocateFrame : KernelM φ (Option ℕ) := fun k =>
  match k.freeFrames with
  | [] => some (.ok none, k)
  | frame :: rest => some (.ok (some frame), { k with freeFrames := rest })

variable (frame : ℕ)

/-- `deallocate_frame`. -/
def deallocateFrame : KernelM φ Unit :=
  Cmd.modify fun k => { k with freeFrames := frame :: k.freeFrames }

/-- The kernel with another reference count of one frame. -/
def Kernel.setRef (k : Kernel φ) (frame : ℕ) (count : Option ℕ) : Kernel φ :=
  { k with frameRefCount := Function.update k.frameRefCount frame count }

/-- `increase_ref_by`. -/
def increaseRefBy (frame amount : ℕ) : KernelM φ Unit :=
  Cmd.modify fun k => k.setRef frame (some ((k.frameRefCount frame).getD 0 + amount))

/-- `increase_ref`. -/
def increaseRef : KernelM φ Unit :=
  increaseRefBy frame 1

/-- `take_exclusive_ref`: a frame without a count has one owner. -/
def takeExclusiveRef : KernelM φ Bool := fun k =>
  match k.frameRefCount frame with
  | none => some (.ok true, k)
  | some count =>
    if count = 1 then some (.ok true, k.setRef frame none) else some (.ok false, k)

/-- The count of a frame with one owner less, and whether that was the last one. -/
def Kernel.countDown (k : Kernel φ) (frame count : ℕ) : Bool × Kernel φ :=
  if count - 1 = 0 then (true, k.setRef frame none)
  else (false, k.setRef frame (some (count - 1)))

/-- `release_mapping_ref`: a frame without a count has lost its only owner. -/
def releaseMappingRef : KernelM φ Bool := fun k =>
  match k.frameRefCount frame with
  | none => some (.ok true, k)
  | some count => some (.ok (k.countDown frame count).1, (k.countDown frame count).2)

/-- `decrease_ref`: nothing happens to a frame without a count. -/
def decreaseRef : KernelM φ Bool := fun k =>
  match k.frameRefCount frame with
  | none => some (.ok false, k)
  | some count => some (.ok (k.countDown frame count).1, (k.countDown frame count).2)

/-- One owner less, and the frame goes back to the allocator if it was the last. -/
def dropRef : KernelM φ Unit := do
  if ← decreaseRef frame then
    deallocateFrame frame

/-- `Drop` of `SharedFrames` for those of the objects in `areas` that no area refers to any more. -/
def dropSharedFrames (areas : List MemoryArea) : KernelM φ Unit := do
  let k ← Cmd.get
  let objects := (areas.filterMap fun area =>
    match area.data with
    | .shared frames _ => some frames
    | _ => none).dedup
  let live := k.allAreas.map MemoryArea.data
  Cmd.each (fun frames : SharedFrames => Cmd.each dropRef frames.frames)
    (objects.filter fun frames => !live.any fun data =>
      match data with
      | .shared other _ => decide (other = frames)
      | _ => false)

/-- An edit of the areas of a process, which drops the shared frames that it leaves without an
area. -/
def setAreas (pid : ℕ) (edit : AreaMap → AreaMap) : KernelM φ Unit := do
  let k ← Cmd.get
  Cmd.modify fun k => k.setProcess pid fun p => { p with areas := edit p.areas }
  dropSharedFrames (k.process pid).areas.memoryAreas

/-! ## Page tables -/

/-- The entry of a page. -/
def Kernel.pte (k : Kernel φ) (pid page : ℕ) : Option Pte :=
  (k.process pid).pageTable page

/-- The kernel with another entry for one page. -/
def Kernel.setPte (k : Kernel φ) (pid page : ℕ) (pte : Option Pte) : Kernel φ :=
  k.setProcess pid fun p => { p with pageTable := Function.update p.pageTable page pte }

/-- `map_to(..).unwrap()`: a page that is mapped already is a panic. -/
def mapTo (pid page frame : ℕ) (flags : PageTableFlags) : KernelM φ Unit := do
  let k ← Cmd.get
  if (k.pte pid page).isSome then
    Cmd.panic
  Cmd.modify fun k => k.setPte pid page (some ⟨frame, flags⟩)

/-- `page_table.unmap(page)`: the frame of the page, if it was mapped. -/
def unmapPage (pid page : ℕ) : KernelM φ (Option ℕ) := do
  let k ← Cmd.get
  match k.pte pid page with
  | none => return none
  | some pte =>
    Cmd.modify fun k => k.setPte pid page none
    return some pte.frame

/-- `update_flags`, for a page that may be unmapped. -/
def updateFlags (pid page : ℕ) (flags : PageTableFlags) : KernelM φ Unit := do
  let k ← Cmd.get
  match k.pte pid page with
  | none => return ()
  | some pte => Cmd.modify fun k => k.setPte pid page (some ⟨pte.frame, flags⟩)

/-- The unmapping of one page in `try_unmap` and `release_user_mappings`. -/
def unmapAndRelease (pid page : ℕ) : KernelM φ Unit := do
  match ← unmapPage pid page with
  | none => return ()
  | some frame =>
    if ← releaseMappingRef frame then
      deallocateFrame frame

/-! ## Contents of frames -/

/-- The kernel with other bytes in one frame. -/
def Kernel.setRam (k : Kernel φ) (frame : ℕ) (bytes : ℕ → UInt8) : Kernel φ :=
  { k with ram := Function.update k.ram frame bytes }

/-- `write_bytes(frame, 0, 4096)`. -/
def zeroFrame (frame : ℕ) : KernelM φ Unit :=
  Cmd.modify fun k => k.setRam frame fun _ => 0

/-- `copy_nonoverlapping` of the first `len` bytes of a source into a frame. -/
def copyInto (frame : ℕ) (source : ℕ → UInt8) (len : ℕ) : KernelM φ Unit :=
  Cmd.modify fun k => k.setRam frame fun i => if i < len then source i else k.ram frame i

/-! ## Permissions and copy on write -/

/-- `update_permissions`. -/
def updatePermissions (pid start end_ : ℕ) (protection : Protection) : KernelM φ Unit := do
  if start < end_ then
    Cmd.modify fun k => k.setProcess pid fun p =>
      { p with areas := p.areas.updatePermissions start end_ protection }
    Cmd.each (fun page => updateFlags pid page (protectionToPageFlags protection))
      (pagesInclusive start (end_ - 1))

/-- `replace_cow_page`. -/
def replaceCowPage (pid addr : ℕ) : KernelM φ Unit := do
  let page := addr / 4096
  let k ← Cmd.get
  match k.pte pid page with
  | none => return ()
  | some pte =>
    let flags := { pte.flags with cow := false, writable := true }
    if ← takeExclusiveRef pte.frame then
      updateFlags pid page flags
    else
      let newFrame ← Cmd.orPanic (← allocateFrame)
      let _ ← unmapPage pid page
      copyInto newFrame (k.ram pte.frame) 4096
      mapTo pid page newFrame flags
      increaseRef newFrame
      dropRef pte.frame

/-- `is_shared_mapping` of `clone_with_vm_sharing`. -/
def Data.isSharedMapping : Data → Bool
  | .file _ _ _ _ isShared => isShared
  | .shared _ _ => true
  | .normal _ => false

/-- The copy of one page in `clone_with_vm_sharing`. -/
def clonePage (parent child : ℕ) (area : MemoryArea) (shareVm : Bool) (page : ℕ) :
    KernelM φ Unit := do
  let k ← Cmd.get
  match k.pte parent page with
  | none => return ()
  | some pte =>
    if page * 4096 < 0xffff900000000000 then
      let alreadyRefCounted := (k.frameRefCount pte.frame).isSome
      let cow := pte.flags.writable && !area.data.isSharedMapping && !shareVm
      let newFlags := if cow then asCowFlags pte.flags else pte.flags
      if cow then
        updateFlags parent page newFlags
      mapTo child page pte.frame newFlags
      increaseRefBy pte.frame (if alreadyRefCounted then 1 else 2)

/-- `clone_with_vm_sharing`: the child's address space. `clone_all` is the case without sharing. -/
def cloneWithVmSharing (parent child : ℕ) (shareVm : Bool) : KernelM φ Unit := do
  let k ← Cmd.get
  let p := k.process parent
  Cmd.modify fun k =>
    { k.setProcess child (fun _ =>
        { p with areas := { p.areas with lastAreaIndex := none }, pageTable := fun _ => none }) with
      pids := child :: k.pids }
  Cmd.each (fun area =>
      Cmd.each (clonePage parent child area shareVm) (pagesInclusive area.start (area.end_ - 1)))
    (p.areas.memoryAreas.filter fun area => decide (area.pages ≠ 0))

/-! ## Faulting pages in -/

/-- `u64` subtraction, which panics below 0. -/
def subU64 (a b : ℕ) : Option ℕ :=
  if a < b then none else some (a - b)

/-- `u64` addition, which panics from `2 ^ 64` on. -/
def addU64 (a b : ℕ) : Option ℕ :=
  if a + b < 0x10000000000000000 then some (a + b) else none

/-- `map_existing_frame`. -/
def mapExistingFrame (pid page frame : ℕ) (flags : PageTableFlags) : KernelM φ Unit := do
  mapTo pid page frame flags
  increaseRef frame

/-- `alloc_map_zeroed_page`. -/
def allocMapZeroedPage (pid page : ℕ) (area : MemoryArea) (zeroPage : Bool) : KernelM φ ℕ := do
  let frame ← Cmd.orPanic (← allocateFrame)
  mapTo pid page frame area.flags
  increaseRef frame
  if zeroPage then
    zeroFrame frame
  return frame

/-- The lookup of an area for the kernel's own use. -/
def getArea (pid addr : ℕ) : KernelM φ (Option MemoryArea) := do
  let k ← Cmd.get
  let (area, areas) := (k.process pid).areas.getArea addr
  Cmd.modify fun k => k.setProcess pid fun p => { p with areas }
  return area

/-! ## Placing and sharing -/

/-- `MemoryArea::new`, which panics if the end is no address. -/
def newArea (start pages : ℕ) (flags : PageTableFlags) (protection : Protection) (data : Data)
    (lazy : Bool) : KernelM φ MemoryArea := do
  let end_ ← Cmd.orPanic (virtAddr (start + pages * 4096))
  return ⟨start, end_, flags, protection, data, lazy, false, false⟩

/-- `fetch_add_user_mem` on the address space of a process. -/
def fetchAddUserMem (pid pages : ℕ) : KernelM φ ℕ := do
  let k ← Cmd.get
  let (mem, areas) ← Cmd.orPanic ((k.process pid).areas.fetchAddUserMem pages)
  Cmd.modify fun k => k.setProcess pid fun p => { p with areas }
  return mem

/-- `SharedFrames::new`, behind an `Arc`: every frame gets one more reference. -/
def sharedFramesNew (frames : List ℕ) : KernelM φ SharedFrames := do
  Cmd.each increaseRef frames
  let k ← Cmd.get
  Cmd.modify fun k => { k with nextObject := k.nextObject + 1 }
  return ⟨k.nextObject, frames⟩

/-- A loop that takes frames from the allocator and zeroes them; `track` is what it does with each.
If there are not enough, those it has taken are left to themselves. -/
def allocateZeroedFrames (track : ℕ → KernelM φ Unit) : ℕ → KernelM φ (List ℕ)
  | 0 => return []
  | pages + 1 => do
    match ← allocateFrame with
    | none => Cmd.throw .noMemory
    | some frame =>
      zeroFrame frame
      track frame
      let frames ← allocateZeroedFrames track pages
      return frame :: frames

/-- `anonymous_mapping_data`. -/
def anonymousMappingData (pages : ℕ) (shared : Bool) (protection : Protection) :
    KernelM φ Data := do
  if !shared then
    return .normal ⟨none, false⟩
  let frames ← allocateZeroedFrames (fun _ => pure ()) pages
  let object ← sharedFramesNew frames
  return .shared object (protectionToPageFlags protection)

section Files

variable [FileLayer φ] (file : FileLikeObject)

/-- `page_cache::read_cluster` on the files of the kernel. -/
def readCluster (pageIndex : ℕ) : KernelM φ (Option ClusterRead) := fun k =>
  let (read, files) := FileLayer.readCluster k.files file pageIndex
  some (.ok read, { k with files })

/-- The part of `get_or_load_shared_file_frame` after a miss. If the read fails the new frame is
left to itself. -/
def loadSharedFileFrame (key : FilePageCacheKey) (readLen : ℕ) :
    KernelM φ (Option ℕ) := do
  let frame ← Cmd.orPanic (← allocateFrame)
  zeroFrame frame
  if readLen ≠ 0 then
    match ← readCluster file (key.offset / 4096) with
    | none => return none
    | some cluster =>
      let clusterOffset := key.offset % (4096 * 16) / 4096 * 4096
      let available := cluster.validLen - clusterOffset
      copyInto frame (fun i => cluster.data (clusterOffset + i)) (min readLen available)
  increaseRef frame
  Cmd.modify fun k =>
    { k with sharedFilePageCache := Function.update k.sharedFilePageCache key (some frame) }
  return some frame

/-- `get_or_load_shared_file_frame`. -/
def getOrLoadSharedFileFrame (identity : MappingIdentity)
    (offset readLen : ℕ) : KernelM φ (Option ℕ) := do
  let k ← Cmd.get
  match k.sharedFilePageCache ⟨identity, offset⟩ with
  | some frame => return some frame
  | none => loadSharedFileFrame file ⟨identity, offset⟩ readLen

/-- `copy_cached_file_page`, whose caller expects it to succeed. -/
def copyCachedFilePage (fileOffset readLen frame : ℕ) : KernelM φ Unit := do
  if readLen ≠ 0 then
    let cluster ← Cmd.orPanic (← readCluster file (fileOffset / 4096))
    let clusterOffset := fileOffset % (4096 * 16)
    let copyLen := min (cluster.validLen - clusterOffset) readLen
    copyInto frame (fun i => if i < copyLen then cluster.data (clusterOffset + i) else 0) readLen

/-- The private path of a file-backed page: a frame of its own, filled from the page cache. -/
def loadPrivateFilePage (pid page : ℕ) (area : MemoryArea) (file : FileLikeObject)
    (fileOffset readLen : ℕ) : KernelM φ Unit := do
  let frame ← allocMapZeroedPage pid page area (decide (readLen < 4096))
  copyCachedFilePage file fileOffset readLen frame

/-- One iteration of the cluster loop of `apply_page_cluster`. -/
def loadFilePage (pid page : ℕ) (area : MemoryArea) (file : FileLikeObject)
    (identity : MappingIdentity) (offset fileBytes : ℕ) (shared : Bool) : KernelM φ Unit := do
  let k ← Cmd.get
  if (k.pte pid page).isSome then
    return ()
  let pageOffset ← Cmd.orPanic (subU64 (page * 4096) area.start)
  let readLen := min 4096 (fileBytes - pageOffset)
  let fileOffset ← Cmd.orPanic (addU64 offset pageOffset)
  -- The frame is looked up or loaded before `shared` is tested, for private mappings too.
  let sharedFrame ← getOrLoadSharedFileFrame file identity fileOffset readLen
  match shared, sharedFrame with
  | true, some frame => mapExistingFrame pid page frame area.flags
  | _, _ => loadPrivateFilePage pid page area file fileOffset readLen

/-- `apply_page_cluster`. -/
def applyPageCluster (pid page : ℕ) (area : MemoryArea) (clusterPages : ℕ) : KernelM φ Unit :=
  match area.data with
  | .normal _ => do
    let _ ← allocMapZeroedPage pid page area true
    return ()
  | .file offset fileBytes _ file shared => do
    let identity ← Cmd.orPanic file.mappingIdentity
    let pageOffset ← Cmd.orPanic (subU64 (page * 4096) area.start)
    let maxPages := min clusterPages (area.pages - pageOffset / 4096)
    Cmd.each (fun i => loadFilePage pid (page + i) area file identity offset fileBytes shared)
      (List.range maxPages)
    let k ← Cmd.get
    if (k.pte pid page).isNone then
      Cmd.panic
  | .shared frames sharedFlags => do
    let pageOffset ← Cmd.orPanic (subU64 (page * 4096) area.start)
    let frame ← Cmd.orPanic frames.frames[pageOffset / 4096]?
    mapExistingFrame pid page frame (area.flags.union sharedFlags)

/-- `apply_page`. -/
def applyPage (pid page : ℕ) (area : MemoryArea) : KernelM φ Unit :=
  applyPageCluster pid page area 1

/-- `apply_area`: every page of the area, at once. -/
def applyArea (pid : ℕ) (area : MemoryArea) : KernelM φ Unit :=
  Cmd.each (fun i => applyPage pid (area.start / 4096 + i) area) (List.range area.pages)

/-- `register_area`. -/
def registerArea (pid : ℕ) (area : MemoryArea) : KernelM φ Unit := do
  setAreas pid fun areas => areas.registerArea area
  if !area.lazy then
    applyArea pid area

/-- `populate_mapping`. -/
def populateMapping (pid start pages : ℕ) : KernelM φ Unit :=
  Cmd.each (fun i => do
      let address ← Cmd.orPanic (virtAddr (start + i * 4096))
      match ← getArea pid address with
      | none => return ()
      | some area => applyPage pid (address / 4096) area)
    (List.range pages)

/-- `MappingOptions`. -/
structure MappingOptions where
  locked : Bool
  growsDown : Bool
  populate : Bool
deriving DecidableEq, Repr

/-- `register_lazy_mapping`. -/
def registerLazyMapping (pid start pages : ℕ) (protection : Protection) (data : Data)
    (options : MappingOptions) : KernelM φ ℕ := do
  let area ← newArea start pages (protectionToPageFlags protection) protection data true
  registerArea pid { area with locked := options.locked, growsDown := options.growsDown }
  if options.populate || options.locked then
    populateMapping pid start pages
  return start

/-- `allocate_user_lazy`. -/
def allocateUserLazy (pid pages : ℕ) (protection : Protection) (data : Data) : KernelM φ ℕ := do
  let mem ← fetchAddUserMem pid pages
  let area ← newArea mem pages (protectionToPageFlags protection) protection data true
  registerArea pid area
  return mem

/-! ## Writing shared files back and unmapping -/

/-- Consecutive writes joined into one, as `write_back_area_range` collects them. -/
def joinWrites : List (ℕ × List UInt8) → List (ℕ × List UInt8)
  | [] => []
  | (offset, bytes) :: rest =>
    match joinWrites rest with
    | [] => [(offset, bytes)]
    | (next, more) :: later =>
      if offset + bytes.length = next then (offset, bytes ++ more) :: later
      else (offset, bytes) :: (next, more) :: later

/-- The pages of a mapping that `write_back_area_range` writes: the present ones, up to the end of
the file or of the mapped file bytes, whichever is larger. -/
def pageWrites (k : Kernel φ) (pid : ℕ) (area : MemoryArea)
    (offset currentFileBytes first last : ℕ) : Option (List (ℕ × List UInt8)) :=
  (pagesInclusive first last).filterMapM fun page =>
    match k.pte pid page with
    | none => return none
    | some pte => do
      let pageOffset ← subU64 (page * 4096) area.start
      if currentFileBytes ≤ pageOffset then return none
      let writeLen := min 4096 (currentFileBytes - pageOffset)
      return some (← addU64 offset pageOffset, (List.range writeLen).map (k.ram pte.frame))

/-- The writes of a file; a failed one ends the call with an error. -/
def writeChunks (file : FileLikeObject) (chunks : List (ℕ × List UInt8)) : KernelM φ Unit :=
  fun k =>
  let (ok, files) := FileLayer.writeChunks k.files file chunks
  some (if ok then .ok () else .error .other, { k with files })

/-- `write_back_area_range`. The dirty bits it clears are not read anywhere and are left out. -/
def writeBackAreaRange (pid : ℕ) (area : MemoryArea) (start end_ : ℕ) : KernelM φ Unit :=
  match area.data with
  | .file offset fileBytes _ file true => do
    let writeStart := max start area.start
    let writeEnd := min end_ area.end_
    if writeStart ≥ writeEnd then
      return ()
    let k ← Cmd.get
    let currentFileBytes := max (match FileLayer.size k.files file with
      | some size => size - offset
      | none => fileBytes) fileBytes
    Cmd.modify fun k => { k with files := FileLayer.invalidate k.files file }
    let writes ← Cmd.orPanic
      (pageWrites k pid area offset currentFileBytes writeStart (writeEnd - 1))
    writeChunks file (joinWrites writes)
  | _ => return ()

/-- `flush_file_mappings`. -/
def flushFileMappings (pid start len : ℕ) : KernelM φ Unit := do
  if len ≠ 0 then
    let end_ ← Cmd.orPanic (virtAddr (start + len))
    let k ← Cmd.get
    Cmd.each (fun area => writeBackAreaRange pid area start end_)
      ((k.process pid).areas.memoryAreas.filter fun area =>
        decide (area.start < end_) && decide (start < area.end_))

/-- `try_unmap`. -/
def tryUnmap (pid start len : ℕ) : KernelM φ Unit := do
  if len ≠ 0 then
    flushFileMappings pid start len
    let end_ ← Cmd.orPanic (virtAddr (start + len))
    Cmd.each (unmapAndRelease pid) (pagesInclusive start (end_ - 1))
    setAreas pid fun areas => areas.unmapAreas start end_

/-- `unmap`: an error of `try_unmap` is ignored. -/
def unmap (pid start len : ℕ) : KernelM φ Unit := do
  let _ ← (tryUnmap pid start len).attempt
  return ()

/-- `release_user_mappings(true)`, which is `clean_for_exit`: the pages from the one of the start up
to but not including the one of the end of every user area. -/
def releaseUserMappings (pid : ℕ) : KernelM φ Unit := do
  let k ← Cmd.get
  Cmd.each (fun area => do
      let _ ← (writeBackAreaRange pid area area.start area.end_).attempt
      Cmd.each (unmapAndRelease pid)
        (List.range' (area.start / 4096) (area.end_ / 4096 - area.start / 4096)))
    ((k.process pid).areas.memoryAreas.filter MemoryArea.isUser)
  setAreas pid fun _ => AreaMap.default

/-! ## Page faults and copies from and to user memory -/

/-- The bits of `PageFaultErrorCode` the handler reads. -/
structure PageFaultErrorCode where
  protectionViolation : Bool
  causedByWrite : Bool
  instructionFetch : Bool
deriving DecidableEq, Repr

/-- The signals a fault can end with. -/
inductive Signal where
  | sigsegv
  | sigbus
deriving DecidableEq, Repr

/-- `fault_allowed_by_protection`. -/
def faultAllowedByProtection (code : PageFaultErrorCode) (protection : Protection) : Bool :=
  if code.instructionFetch then protection.exec
  else if code.causedByWrite then protection.write
  else protection.read

/-- The file pages of a fault are beyond the end of the file. -/
def beyondFile (area : MemoryArea) (address : ℕ) : Option Bool :=
  match area.data with
  | .file _ fileBytes zeroFill _ _ => do
    let pageOffset ← subU64 (address / 4096 * 4096) area.start
    return !zeroFill && decide (fileBytes ≤ pageOffset)
  | _ => some false

/-- The number of pages a fault in this area loads: `FILE_LAZY_CLUSTER_PAGES` for a file. -/
def faultClusterPages (area : MemoryArea) : ℕ :=
  match area.data with
  | .file .. => 16
  | _ => 1

/-- The part of `pagefault_handler` for a page that is not present. -/
def faultIn (pid address : ℕ) (code : PageFaultErrorCode) : KernelM φ (Option Signal) := do
  let k ← Cmd.get
  let (area, areas) := (k.process pid).areas.faultArea address
  Cmd.modify fun k => k.setProcess pid fun p => { p with areas }
  match area with
  | none => return some .sigsegv
  | some area =>
    if area.lazy && faultAllowedByProtection code area.protection then
      if ← Cmd.orPanic (beyondFile area address) then
        return some .sigbus
      else
        applyPageCluster pid (address / 4096) area (faultClusterPages area)
        return none
    else return some .sigsegv

/-- `pagefault_handler`. -/
def pagefaultHandler (pid address : ℕ) (code : PageFaultErrorCode) : KernelM φ (Option Signal) := do
  let k ← Cmd.get
  let cow := match k.pte pid (address / 4096) with
    | none => false
    | some pte => pte.flags.cow
  if code.causedByWrite && cow then
    replaceCowPage pid address
    return none
  else if code.protectionViolation then
    return some .sigsegv
  else faultIn pid address code

/-- `ensure_user_page_readable`, for the access of `len` bytes at `addr`. -/
def ensureUserPageReadable (pid addr len : ℕ) : KernelM φ Bool := do
  match ← Cmd.orPanic (checkedUserRange addr len) with
  | none => return false
  | some _ =>
    match ← getArea pid addr with
    | none => return false
    | some area =>
      if area.isUser && area.protection.read then
        let k ← Cmd.get
        match k.pte pid (addr / 4096) with
        | some pte => return pte.flags.userAccessible
        | none =>
          if area.lazy && area.flags.userAccessible then
            applyPageCluster pid (addr / 4096) area (faultClusterPages area)
            let k ← Cmd.get
            return match k.pte pid (addr / 4096) with
              | some pte => pte.flags.userAccessible
              | none => false
          else return false
      else return false

/-- `ensure_user_page_writable`. -/
def ensureUserPageWritable (pid addr len : ℕ) : KernelM φ Bool := do
  match ← Cmd.orPanic (checkedUserRange addr len) with
  | none => return false
  | some _ =>
    let k ← Cmd.get
    match k.pte pid (addr / 4096) with
    | some pte =>
      if pte.flags.userAccessible then
        if pte.flags.cow then
          replaceCowPage pid addr
          return true
        else return pte.flags.writable
      else return false
    | none =>
      match ← getArea pid addr with
      | none => return false
      | some area =>
        if area.lazy && area.isUser && area.flags.userAccessible && area.flags.writable then
          applyPageCluster pid (addr / 4096) area (faultClusterPages area)
          let k ← Cmd.get
          return match k.pte pid (addr / 4096) with
            | some pte => pte.flags.userAccessible && pte.flags.writable
            | none => false
        else return false

end Files

end Seele.Memory
