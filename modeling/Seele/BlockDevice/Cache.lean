import Mathlib.Data.List.Basic
import Mathlib.Logic.Function.Basic
import Seele.Lib.Chunks

/-!
# The block cache of `filesystem/block_device/cache.rs`

`CachedBlockDevice` keeps blocks of an inner device in a map from block numbers to entries, with a
queue of block numbers that eviction follows. A command runs in `DevM`: it changes the cache and
the inner device, and it returns a value or a `BlockDeviceError`, where an error keeps the state
it was raised in, as an early return with `?` does.

The inner device is an array of equal blocks, with the default `read_blocks` and `write_blocks` of
the `BlockDevice` trait. Its calls take their outcome from a script of faults.
-/

namespace Seele.BlockDevice

open Seele.Lib

/-- `BlockDeviceError`. -/
inductive BlockDeviceError where
  | readonly
  | outOfBounds
  | bufferTooSmall
  | other
  deriving DecidableEq, Repr

/-- A block device that stores an array of equal blocks. `faults` is the outcome of the next
calls, `true` for a failure; once it is exhausted every call succeeds. -/
@[ext]
structure Disk where
  /-- `block_size`. -/
  blockSize : ℕ
  /-- `total_blocks`. -/
  totalBlocks : ℕ
  /-- The bytes of each block. -/
  blocks : ℕ → List UInt8
  /-- Whether each of the next calls fails. -/
  faults : List Bool
  /-- A block holds at least one byte. -/
  blockSize_pos : 0 < blockSize
  /-- Every block holds `blockSize` bytes. -/
  length_blocks : ∀ id, (blocks id).length = blockSize

/-- The disk after `data` is stored in the block `id`. -/
def Disk.store (disk : Disk) (id : ℕ) (data : List UInt8) (h : data.length = disk.blockSize) :
    Disk where
  blockSize := disk.blockSize
  totalBlocks := disk.totalBlocks
  blocks := Function.update disk.blocks id data
  faults := disk.faults
  blockSize_pos := disk.blockSize_pos
  length_blocks := by
    intro id'
    by_cases hid : id' = id
    · subst hid; rw [Function.update_self]; exact h
    · rw [Function.update_of_ne hid]; exact disk.length_blocks id'

/-- `CacheEntry`: the bytes of a block, and whether they are newer than the inner device's. -/
structure CacheEntry where
  data : List UInt8
  dirty : Bool
  deriving DecidableEq, Repr

/-- `CacheState`: the cached blocks, and the queue of block numbers in order of use. -/
structure CacheState where
  entries : Std.TreeMap ℕ CacheEntry
  lru : List ℕ

/-- `CacheState::new`. -/
def CacheState.new : CacheState := ⟨∅, []⟩

/-- `CacheState::touch`. -/
def CacheState.touch (state : CacheState) (blockId : ℕ) : CacheState :=
  { state with lru := state.lru ++ [blockId] }

/-- `CachedBlockDevice`. -/
structure CachedBlockDevice where
  inner : Disk
  maxEntries : ℕ
  readaheadBlocks : ℕ
  state : CacheState

/-- `DEFAULT_READAHEAD_BLOCKS`. -/
def DEFAULT_READAHEAD_BLOCKS : ℕ := 128

/-- `CachedBlockDevice::with_capacity`. -/
def CachedBlockDevice.withCapacity (inner : Disk) (maxEntries : ℕ) : CachedBlockDevice where
  inner := inner
  maxEntries := max maxEntries 1
  readaheadBlocks := DEFAULT_READAHEAD_BLOCKS
  state := CacheState.new

/-- A command over the cache and its inner device. -/
abbrev DevM := EStateM BlockDeviceError CachedBlockDevice

/-! ## The inner device -/

/-- A call of the inner device fails when the fault script says so. -/
def innerCall : DevM Unit := do
  let d ← get
  match d.inner.faults with
  | [] => return ()
  | fault :: faults =>
    set { d with inner := { d.inner with faults := faults } }
    if fault then throw .other

variable (id : ℕ)

/-- The inner device's `read_single_block` into a buffer of one block. -/
def innerReadSingleBlock : DevM (List UInt8) := do
  innerCall
  let d ← get
  if d.inner.totalBlocks ≤ id then throw .outOfBounds
  return d.inner.blocks id

/-- The inner device's `write_single_block`. -/
def innerWriteSingleBlock (buffer : List UInt8) : DevM Unit := do
  innerCall
  let d ← get
  if h : d.inner.blockSize ≤ buffer.length then
    if d.inner.totalBlocks ≤ id then throw .outOfBounds
    let inner := d.inner.store id (buffer.take d.inner.blockSize) (List.length_take_of_le h)
    set { d with inner := inner }
  else
    throw .bufferTooSmall

/-- The trait's default `read_blocks`, on a buffer of `count` whole blocks. -/
def innerReadBlocks (start count : ℕ) : DevM (List UInt8) :=
  (List.range count).foldlM (fun bytes i => do
    let block ← innerReadSingleBlock (start + i) return bytes ++ block) []

/-- The trait's default `write_blocks`. -/
def innerWriteBlocks (start : ℕ) (buffer : List UInt8) : DevM Unit := do
  let d ← get
  let blockSize := d.inner.blockSize
  if ¬ blockSize ∣ buffer.length then throw .bufferTooSmall
  forM (List.range (buffer.length / blockSize)) fun i =>
    innerWriteSingleBlock (start + i) (blockAt blockSize i buffer)

/-! ## Eviction -/

/-- `take_eviction_candidate`'s loop over the queue: the first queued block that is still cached is
taken out of the map. -/
def takeEvictionCandidate (entries : Std.TreeMap ℕ CacheEntry) :
    List ℕ → Option (ℕ × CacheEntry) × CacheState
  | [] => (none, ⟨entries, []⟩)
  | blockId :: lru =>
    match entries[blockId]? with
    | some entry => (some (blockId, entry), ⟨entries.erase blockId, lru⟩)
    | none => takeEvictionCandidate entries lru

/-- The end of a round of `ensure_capacity`: a dirty victim is written to the inner device. -/
def writeBack (blockId : ℕ) (entry : CacheEntry) : DevM Unit :=
  if entry.dirty then innerWriteSingleBlock blockId entry.data else return ()

/-- `ensure_capacity`'s loop. Every round takes at least one number off the queue, so that the
length of the queue and one more round are enough fuel. -/
def ensureCapacityLoop : ℕ → DevM Unit
  | 0 => return ()
  | fuel + 1 => do
    let d ← get
    if d.state.entries.size < d.maxEntries then
      return ()
    else
      match takeEvictionCandidate d.state.entries d.state.lru with
      | (none, state) => set { d with state := state }
      | (some (blockId, entry), state) =>
        set { d with state := state }
        writeBack blockId entry
        ensureCapacityLoop fuel

/-- `ensure_capacity`. -/
def ensureCapacity : DevM Unit := do
  let d ← get
  ensureCapacityLoop (d.state.lru.length + 1)

/-- `state.entries.insert(id, ..)` followed by `state.touch(id)`. -/
def insertEntry (entry : CacheEntry) : DevM Unit := do
  let d ← get
  set { d with
    state := CacheState.touch { d.state with entries := d.state.entries.insert id entry } id }

/-- The step by which every operation caches a block: `ensure_capacity`, then the insertion. -/
def cacheBlock (entry : CacheEntry) : DevM Unit := do
  ensureCapacity
  insertEntry id entry

/-! ## The operations of `impl BlockDevice for CachedBlockDevice` -/

/-- `read_single_block`: the number of bytes read, and the buffer with the block in its first
bytes. -/
def readSingleBlock (buffer : List UInt8) : DevM (ℕ × List UInt8) := do
  let d ← get
  let blockSize := d.inner.blockSize
  if buffer.length < blockSize then throw .bufferTooSmall
  match d.state.entries[id]? with
  | some entry => return (blockSize, setBlock blockSize 0 buffer entry.data)
  | none =>
    let data ← innerReadSingleBlock id
    cacheBlock id ⟨data, false⟩
    return (blockSize, setBlock blockSize 0 buffer data)

variable (state : CacheState)

/-- The end of the run of blocks that are not cached, from the block after `index`. -/
def missEnd (start total index : ℕ) : ℕ :=
  index + 1 + ((List.range' (index + 1) (total - (index + 1))).takeWhile
    fun offset => !state.entries.contains (start + offset)).length

/-- `readahead_end`: the end of the blocks that a miss at `index` fetches. -/
def readaheadEnd (d : CachedBlockDevice) (start total index : ℕ) : ℕ :=
  min total (missEnd d.state start total index + d.readaheadBlocks)

/-- The part of `read_blocks` after a miss at `index`: the blocks up to `readahead_end` are fetched
and cached, and those of the miss run are copied to the buffer. -/
def readMissRun (start total index : ℕ) (buffer : List UInt8) : DevM (List UInt8) := do
  let d ← get
  let blockSize := d.inner.blockSize
  let missEnd := missEnd d.state start total index
  let readaheadEnd := readaheadEnd d start total index
  let temp ← innerReadBlocks (start + index) (readaheadEnd - index)
  (List.range' index (readaheadEnd - index)).foldlM (fun buffer blockOffset => do
    let data := blockAt blockSize (blockOffset - index) temp
    cacheBlock (start + blockOffset) ⟨data, false⟩
    return if blockOffset < missEnd then setBlock blockSize blockOffset buffer data else buffer)
    buffer

/-- `read_blocks`' loop over the request, which moves `index` forward in every round. -/
def readBlocksLoop (start total : ℕ) : ℕ → ℕ → List UInt8 → DevM (List UInt8)
  | 0, _, buffer => return buffer
  | fuel + 1, index, buffer => do
    let d ← get
    if index < total then
      match d.state.entries[start + index]? with
      | some entry =>
        readBlocksLoop start total fuel (index + 1)
          (setBlock d.inner.blockSize index buffer entry.data)
      | none =>
        let buffer ← readMissRun start total index buffer
        readBlocksLoop start total fuel (missEnd d.state start total index) buffer
    else
      return buffer

/-- `read_blocks`. -/
def readBlocks (start : ℕ) (buffer : List UInt8) : DevM (ℕ × List UInt8) := do
  let d ← get
  if ¬ d.inner.blockSize ∣ buffer.length then throw .bufferTooSmall
  let total := buffer.length / d.inner.blockSize
  if d.inner.totalBlocks < start + total then throw .outOfBounds
  let bytes ← readBlocksLoop start total total 0 buffer
  return (buffer.length, bytes)

/-- `write_single_block`. -/
def writeSingleBlock (buffer : List UInt8) : DevM ℕ := do
  let d ← get
  let blockSize := d.inner.blockSize
  if buffer.length < blockSize then throw .bufferTooSmall
  if d.inner.totalBlocks ≤ id then throw .outOfBounds
  cacheBlock id ⟨buffer.take blockSize, true⟩
  return blockSize

/-- `write_blocks`. -/
def writeBlocks (start : ℕ) (buffer : List UInt8) : DevM ℕ := do
  let d ← get
  let blockSize := d.inner.blockSize
  if ¬ blockSize ∣ buffer.length then throw .bufferTooSmall
  let total := buffer.length / blockSize
  if d.inner.totalBlocks < start + total then throw .outOfBounds
  forM (List.range total) fun index =>
    cacheBlock (start + index) ⟨blockAt blockSize index buffer, true⟩
  return buffer.length

/-- The `dirty_blocks` of `collect_dirty_runs`, in ascending order. -/
def dirtyBlocks : List ℕ :=
  (state.entries.toList.filterMap fun (blockId, entry) =>
    if entry.dirty then some blockId else none).mergeSort

/-- `collect_dirty_runs`: the dirty blocks, cut where two neighbours are not consecutive, each run
with its first block and its bytes. -/
def collectDirtyRuns : List (ℕ × List UInt8) :=
  ((dirtyBlocks state).splitBy fun prev next => next == prev + 1).map fun run =>
    (run.headD 0, run.flatMap fun blockId =>
      ((state.entries[blockId]?).map CacheEntry.data).getD [])

/-- `mark_clean_range`. -/
def markCleanRange (startBlock blockCount : ℕ) (state : CacheState) : CacheState :=
  { state with
    entries := (List.range' startBlock blockCount).foldl
      (fun entries blockId => entries.modify blockId fun entry => { entry with dirty := false })
      state.entries }

/-- One round of `flush`: a dirty run is written to the inner device and marked clean. -/
def flushRun (startBlock : ℕ) (buffer : List UInt8) : DevM Unit := do
  let d ← get
  let blockCount := buffer.length / d.inner.blockSize
  innerWriteBlocks startBlock buffer
  let d ← get
  set { d with state := markCleanRange startBlock blockCount d.state }

/-- `flush`. -/
def flush : DevM Unit := do
  let d ← get
  forM (collectDirtyRuns d.state) fun (startBlock, buffer) => flushRun startBlock buffer
  innerCall

/-! ## Requests -/

/-- The operations of a block device. -/
inductive Op where
  | readSingleBlock (id : ℕ) (buffer : List UInt8)
  | readBlocks (start : ℕ) (buffer : List UInt8)
  | writeSingleBlock (id : ℕ) (buffer : List UInt8)
  | writeBlocks (start : ℕ) (buffer : List UInt8)
  | flush

/-- What a request returns: an error, or the number of bytes and the caller's buffer after it. -/
abbrev Outcome := Except BlockDeviceError (ℕ × List UInt8)

/-- The command of a request. -/
def Op.command : Op → DevM (ℕ × List UInt8)
  | .readSingleBlock id buffer => Seele.BlockDevice.readSingleBlock id buffer
  | .readBlocks start buffer => Seele.BlockDevice.readBlocks start buffer
  | .writeSingleBlock id buffer => do
    let n ← Seele.BlockDevice.writeSingleBlock id buffer
    return (n, buffer)
  | .writeBlocks start buffer => do
    let n ← Seele.BlockDevice.writeBlocks start buffer
    return (n, buffer)
  | .flush => do
    Seele.BlockDevice.flush
    return (0, [])

/-- One request: its outcome and the device after it. -/
def CachedBlockDevice.exec (d : CachedBlockDevice) (op : Op) : Outcome × CachedBlockDevice :=
  match op.command.run d with
  | .ok r d' => (.ok r, d')
  | .error e d' => (.error e, d')

/-- A sequence of requests: their outcomes and the device after them. -/
def CachedBlockDevice.run (d : CachedBlockDevice) : List Op → List Outcome × CachedBlockDevice
  | [] => ([], d)
  | op :: ops =>
    let (outcome, d') := d.exec op
    let (outcomes, d'') := d'.run ops
    (outcome :: outcomes, d'')

end Seele.BlockDevice
