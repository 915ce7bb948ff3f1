import Seele.Lib.GuardedRun
import Seele.BlockDevice.Cache

/-!
# Callers of the block cache, one critical section at a time

`CachedBlockDevice` takes its lock for single accesses of the cache and releases it between them and
around every call of the inner device. Here each critical section and each inner call is one atomic
step of some caller, so that the operations of several callers interleave. A `Place` says where a
caller is between two steps and what it has in its local variables. How an inner call ends is an
input of the step: the device may fail at any call.

Beside the device and the callers, `World` keeps two arrays that the code does not have: `written`,
with the bytes of the last insertion by a write, and `acked`, with those of the last write that
returned `Ok`.
-/

namespace Seele.BlockDevice

open Seele.Lib

/-! ## Where a caller is -/

/-- What a caller does after its last insertion. -/
inductive After where
  /-- `read_single_block` returns the block it inserted. -/
  | readSingleBlock
  /-- `read_blocks` goes on with the block `index` of its request. -/
  | readBlocks (start total index : ℕ) (buffer : List UInt8)
  /-- `write_single_block` and `write_blocks` return `Ok`: all of these blocks are inserted. -/
  | write (blocks : List (ℕ × CacheEntry))
  deriving DecidableEq

/-- Where a caller is between two steps. -/
inductive Place where
  /-- Outside of the cache. -/
  | idle
  /-- `read_single_block` has missed. -/
  | fetch (id : ℕ)
  /-- At the start of a round of the loop of `read_blocks`. -/
  | readRound (start total index : ℕ) (buffer : List UInt8)
  /-- `read_blocks` has missed at `index`. -/
  | fetchRun (start total index missEnd readaheadEnd : ℕ) (buffer : List UInt8)
  /-- At the start of a round of `ensure_capacity`. -/
  | ensureCapacity (inserts : List (ℕ × CacheEntry)) (after : After)
  /-- `ensure_capacity` has taken out a dirty entry. -/
  | writeBack (blockId : ℕ) (entry : CacheEntry) (inserts : List (ℕ × CacheEntry)) (after : After)
  /-- `ensure_capacity` has returned. -/
  | insert (inserts : List (ℕ × CacheEntry)) (after : After)
  /-- `flush` has still to write these runs. -/
  | flushRuns (runs : List (ℕ × List UInt8))
  /-- `flush` has written a run and has still to mark it clean. -/
  | markClean (startBlock blockCount : ℕ) (runs : List (ℕ × List UInt8))
  deriving DecidableEq

/-- The blocks of a `write_blocks` request, to be inserted one by one. -/
def writtenBlocks (blockSize start : ℕ) (buffer : List UInt8) : List (ℕ × CacheEntry) :=
  (List.range (buffer.length / blockSize)).map fun index =>
    (start + index, ⟨blockAt blockSize index buffer, true⟩)

/-- The blocks that a miss at `index` has fetched, to be inserted one by one. -/
def fetchedBlocks (blockSize start index readaheadEnd : ℕ) (temp : List UInt8) :
    List (ℕ × CacheEntry) :=
  (List.range' index (readaheadEnd - index)).map fun blockOffset =>
    (start + blockOffset, ⟨blockAt blockSize (blockOffset - index) temp, false⟩)

/-- The caller's buffer with the blocks of the miss run. The buffer is the caller's own, so the
copies are made here at once. -/
def copyMissRun (blockSize index missEnd : ℕ) (temp buffer : List UInt8) : List UInt8 :=
  (List.range' index (missEnd - index)).foldl
    (fun buffer blockOffset =>
      setBlock blockSize blockOffset buffer (blockAt blockSize (blockOffset - index) temp)) buffer

/-- The first section of an operation: the checks of its arguments, and the lookup of
`read_single_block` or the collection of `flush`. -/
def Op.begin (op : Op) (d : CachedBlockDevice) : Place :=
  let blockSize := d.inner.blockSize
  match op with
  | .readSingleBlock id buffer =>
    if buffer.length < blockSize then .idle
    else match d.state.entries[id]? with
      | some _ => .idle
      | none => .fetch id
  | .readBlocks start buffer =>
    if ¬ blockSize ∣ buffer.length then .idle
    else if d.inner.totalBlocks < start + buffer.length / blockSize then .idle
    else .readRound start (buffer.length / blockSize) 0 buffer
  | .writeSingleBlock id buffer =>
    if buffer.length < blockSize then .idle
    else if d.inner.totalBlocks ≤ id then .idle
    else
      let blocks := [(id, ⟨buffer.take blockSize, true⟩)]
      .ensureCapacity blocks (.write blocks)
  | .writeBlocks start buffer =>
    if ¬ blockSize ∣ buffer.length then .idle
    else if d.inner.totalBlocks < start + buffer.length / blockSize then .idle
    else
      let blocks := writtenBlocks blockSize start buffer
      if blocks = [] then .idle else .ensureCapacity blocks (.write blocks)
  | .flush => .flushRuns (collectDirtyRuns d.state)

/-- A call of the inner device whose outcomes are those of `faults`. -/
def callInner {α : Type} (faults : List Bool) (call : DevM α) (d : CachedBlockDevice) :
    Option α × CachedBlockDevice :=
  match call.run { d with inner := { d.inner with faults := faults } } with
  | .ok a d' => (some a, d')
  | .error _ d' => (none, d')

/-- Where a caller goes after its last insertion. -/
def After.place : After → Place
  | .readSingleBlock => .idle
  | .readBlocks start total index buffer => .readRound start total index buffer
  | .write _ => .idle

/-- The next section or inner call of a caller. -/
def Place.advance (faults : List Bool) (p : Place) (d : CachedBlockDevice) :
    Place × CachedBlockDevice :=
  let blockSize := d.inner.blockSize
  match p with
  | .idle => (.idle, d)
  | .fetch id =>
    match callInner faults (innerReadSingleBlock id) d with
    | (some data, d') => (.ensureCapacity [(id, ⟨data, false⟩)] .readSingleBlock, d')
    | (none, d') => (.idle, d')
  | .readRound start total index buffer =>
    if index < total then
      match d.state.entries[start + index]? with
      | some entry =>
        (.readRound start total (index + 1) (setBlock blockSize index buffer entry.data), d)
      | none =>
        (.fetchRun start total index (missEnd d.state start total index)
          (readaheadEnd d start total index) buffer, d)
    else (.idle, d)
  | .fetchRun start total index missEnd readaheadEnd buffer =>
    match callInner faults (innerReadBlocks (start + index) (readaheadEnd - index)) d with
    | (some temp, d') =>
      (.ensureCapacity (fetchedBlocks blockSize start index readaheadEnd temp)
        (.readBlocks start total missEnd (copyMissRun blockSize index missEnd temp buffer)), d')
    | (none, d') => (.idle, d')
  | .ensureCapacity inserts after =>
    if d.state.entries.size < d.maxEntries then (.insert inserts after, d)
    else match takeEvictionCandidate d.state.entries d.state.lru with
      | (none, state) => (.insert inserts after, { d with state := state })
      | (some (blockId, entry), state) =>
        (if entry.dirty then .writeBack blockId entry inserts after
          else .ensureCapacity inserts after, { d with state := state })
  | .writeBack blockId entry inserts after =>
    match callInner faults (innerWriteSingleBlock blockId entry.data) d with
    | (some _, d') => (.ensureCapacity inserts after, d')
    | (none, d') => (.idle, d')
  | .insert [] after => (after.place, d)
  | .insert ((id, entry) :: inserts) after =>
    let state := CacheState.touch { d.state with entries := d.state.entries.insert id entry } id
    (if inserts = [] then after.place else .ensureCapacity inserts after, { d with state := state })
  | .flushRuns [] => (.idle, (callInner faults innerCall d).2)
  | .flushRuns ((startBlock, buffer) :: runs) =>
    match callInner faults (innerWriteBlocks startBlock buffer) d with
    | (some _, d') => (.markClean startBlock (buffer.length / blockSize) runs, d')
    | (none, d') => (.idle, d')
  | .markClean startBlock blockCount runs =>
    (.flushRuns runs, { d with state := markCleanRange startBlock blockCount d.state })

/-! ## Steps -/

/-- The array with new bytes in one block. -/
def Disk.put (disk : Disk) (id : ℕ) (data : List UInt8) : Disk :=
  if h : data.length = disk.blockSize then disk.store id data h else disk

/-- The device, the callers, and the bytes of each block that were last inserted by a write and last
acknowledged. -/
structure World where
  device : CachedBlockDevice
  places : ℕ → Place
  written : Disk
  acked : Disk

/-- A new cache over a device, with all callers outside of it. -/
def World.start (inner : Disk) (maxEntries : ℕ) : World where
  device := CachedBlockDevice.withCapacity inner maxEntries
  places _ := .idle
  written := inner
  acked := inner

/-- What a caller does next: it calls an operation, or it goes on with the one that it is in. -/
inductive Move where
  | call (op : Op)
  | advance (faults : List Bool)

/-- A step of a caller. -/
structure Step where
  caller : ℕ
  move : Move

/-- The array of last insertions after a step from the place `p`. -/
def Place.writes (p : Place) (written : Disk) : Disk :=
  match p with
  | .insert ((id, entry) :: _) _ => if entry.dirty then written.put id entry.data else written
  | _ => written

/-- The array of acknowledged writes after a step from the place `p`: the last insertion of a write
is followed by its `Ok`. -/
def Place.acks (p : Place) (acked : Disk) : Disk :=
  match p with
  | .insert [_] (.write blocks) =>
    blocks.foldl (fun acked block => acked.put block.1 block.2.data) acked
  | _ => acked

/-- The world after the caller `c` has gone on with its operation. -/
def World.advance (w : World) (c : ℕ) (faults : List Bool) : World :=
  let p := w.places c
  let next := p.advance faults w.device
  { device := next.2
    places := Function.update w.places c next.1
    written := p.writes w.written
    acked := p.acks w.acked }

/-- The world after a step. A caller inside of an operation cannot call another one. -/
def World.exec (step : Step) (w : World) : Option World :=
  match step.move, w.places step.caller with
  | .call op, .idle =>
    some { w with places := Function.update w.places step.caller (op.begin w.device) }
  | .call _, _ => none
  | .advance _, .idle => none
  | .advance faults, _ => some (w.advance step.caller faults)

/-- The block that a `read_single_block` returns in this step, with the bytes it returns. -/
def World.returned (step : Step) (w : World) : Option (ℕ × List UInt8) :=
  match step.move, w.places step.caller with
  | .call (.readSingleBlock id buffer), .idle =>
    if buffer.length < w.device.inner.blockSize then none
    else (w.device.state.entries[id]?).map fun entry => (id, entry.data)
  | .advance _, .insert [(id, entry)] .readSingleBlock => some (id, entry.data)
  | _, _ => none

/-- The bytes that a read of the block finds, in the cache or on the inner device. -/
def World.readsBack (w : World) (id : ℕ) : List UInt8 :=
  match w.device.state.entries[id]? with
  | some entry => entry.data
  | none => w.device.inner.blocks id

end Seele.BlockDevice
