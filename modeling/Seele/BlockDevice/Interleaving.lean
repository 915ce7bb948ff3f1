import Seele.BlockDevice.CacheSpec
import Seele.BlockDevice.Callers

/-!
# What the callers of the block cache cannot lose

`World.Intact` says where the last written bytes of every block are: in the cache if the block is
cached, and otherwise on the inner device or in the hands of a caller that has evicted the block and
has still to write it back.

The code releases its lock between the moment it takes bytes in hand and the moment it puts them
down, and another caller can write the block in between, or read it from the inner device before its
write-back. `World.Safe` is the condition on a step that rules these races out, together with a
device that fails the write-back of an evicted block, whose bytes are then nowhere. Steps with the
condition keep `World.Intact` (`World.Intact.exec`).
-/

namespace Seele.BlockDevice

open Seele.Lib World List Function Disk EStateM

/-! ## Inner calls that may fail -/

/-- `d'` differs from `d` at most in the fault script. -/
structure Unmoved (d d' : CachedBlockDevice) : Prop where
  state : d'.state = d.state
  blockSize : d'.inner.blockSize = d.inner.blockSize
  totalBlocks : d'.inner.totalBlocks = d.inner.totalBlocks
  blocks : d'.inner.blocks = d.inner.blocks

/-- From `d` to `d'` some blocks of the inner device may have got the bytes of the array `a`. -/
structure Toward (a : Disk) (d d' : CachedBlockDevice) : Prop where
  state : d'.state = d.state
  blockSize : d'.inner.blockSize = d.inner.blockSize
  totalBlocks : d'.inner.totalBlocks = d.inner.totalBlocks
  blocks : ∀ id, d.inner.blocks id = a.blocks id → d'.inner.blocks id = a.blocks id

variable {d d' : CachedBlockDevice}

/-- The device has not moved. -/
theorem Unmoved.toward (h : Unmoved d d') (a : Disk) : Toward a d d' where
  state := h.state
  blockSize := h.blockSize
  totalBlocks := h.totalBlocks
  blocks id hid := by rw [h.blocks]; exact hid

/-- A call may use up a fault. -/
theorem innerCall_ends (P : CachedBlockDevice → Prop)
    (hP : ∀ d faults, P d → P { d with inner := { d.inner with faults := faults } }) :
    Ends P innerCall (fun _ => P) P := by
  intro d hd
  simp only [innerCall, run_bind]
  grind

/-- Faults do not count. -/
theorem Unmoved.faults (h : Unmoved d d') (faults : List Bool) :
    Unmoved d { d' with inner := { d'.inner with faults := faults } } :=
  ⟨h.state, h.blockSize, h.totalBlocks, h.blocks⟩

variable {a : Disk}

/-- A move does not depend on faults. -/
theorem Toward.faults (h : Toward a d d') (faults : List Bool) :
    Toward a d { d' with inner := { d'.inner with faults := faults } } :=
  ⟨h.state, h.blockSize, h.totalBlocks, h.blocks⟩

/-- A read of a block moves nothing. -/
theorem innerReadSingleBlock_ends (d : CachedBlockDevice) (id : ℕ) :
    Ends (Unmoved d) (innerReadSingleBlock id)
      (fun data d' => Unmoved d d' ∧ data = d.inner.blocks id ∧ id < d.inner.totalBlocks)
      (Unmoved d) := by
  refine .bind (innerCall_ends (Unmoved d) fun _ faults h => h.faults faults) fun _ => ?_
  intro d' hd'
  simp only [run_bind, run_get]
  by_cases hid : d'.inner.totalBlocks ≤ id
  · rw [if_pos hid]
    exact hd'
  · grind [hd'.blocks, hd'.totalBlocks]

/-- A read of blocks moves nothing. -/
theorem innerReadBlocks_ends (d : CachedBlockDevice) (start count : ℕ) :
    Ends (Unmoved d) (innerReadBlocks start count) (fun bytes d' => Unmoved d d' ∧
        bytes = (range count).flatMap (fun i => d.inner.blocks (start + i)) ∧
        ∀ i, i < count → start + i < d.inner.totalBlocks) (Unmoved d) := by
  have hloop := Ends.foldlM (E := Unmoved d) (f := fun (bytes : List UInt8) i => do
      let block ← innerReadSingleBlock (start + i) return bytes ++ block)
    (fun done bytes d' => Unmoved d d' ∧
      bytes = done.flatMap (fun i => d.inner.blocks (start + i)) ∧
      ∀ i ∈ done, start + i < d.inner.totalBlocks) (range count) ?_ []
  · refine hloop.conseq (fun d' h => ⟨h, rfl, by simp⟩) ?_ fun _ h => h
    simp
  -- One more block is read after those of `done`.
  rintro done i rest bytes - d' ⟨hsame, rfl, hrange⟩
  have hread := innerReadSingleBlock_ends d (start + i) d' hsame
  grind

/-- A write of the array's bytes moves toward it. -/
theorem innerWriteSingleBlock_ends (hbs : d.inner.blockSize = a.blockSize) (id : ℕ) :
    Ends (Toward a d) (innerWriteSingleBlock id (a.blocks id))
      (fun _ d' => Toward a d d' ∧ d'.inner.blocks id = a.blocks id) (Toward a d) := by
  refine .bind (innerCall_ends (Toward a d) fun _ faults h => h.faults faults) fun _ => ?_
  intro d' hd'
  have hlen : (a.blocks id).length = d'.inner.blockSize := by
    rw [a.length_blocks, hd'.blockSize, hbs]
  have htake : (a.blocks id).take d'.inner.blockSize = a.blocks id := by rw [← hlen, take_length]
  simp only [run_bind, run_get, dif_pos hlen.ge]
  split_ifs with hid
  · exact hd'
  simp only [htake]
  refine ⟨⟨hd'.state, hd'.blockSize, hd'.totalBlocks, fun id' h => ?_⟩, ?_⟩
  · by_cases heq : id' = id
    · subst heq
      simp [store]
    · simp only [store, update_of_ne heq]
      exact hd'.blocks id' h
  · simp [store]

/-- A write succeeds if no fault comes. -/
theorem innerWriteSingleBlock_ok (a : Disk) (d : CachedBlockDevice)
    (hbs : d.inner.blockSize = a.blockSize) (id : ℕ) (hid : id < d.inner.totalBlocks)
    (hf : d.inner.faults.head? ≠ some true) :
    ∃ d', (innerWriteSingleBlock id (a.blocks id)).run d = .ok () d' := by
  have hcall : ∃ faults, innerCall.run d =
      .ok () { d with inner := { d.inner with faults := faults } } := by
    simp only [innerCall, run_bind, run_get]
    cases hfaults : d.inner.faults with
    | nil => exact ⟨d.inner.faults, rfl⟩
    | cons fault faults =>
      cases fault with
      | false => exact ⟨faults, rfl⟩
      | true => simp [hfaults] at hf
  obtain ⟨faults, hcall⟩ := hcall
  have hlen : d.inner.blockSize ≤ (a.blocks id).length := by rw [a.length_blocks, hbs]
  simp only [innerWriteSingleBlock, run_bind, hcall, run_get, dif_pos hlen,
    if_neg (Nat.not_le.mpr hid)]
  exact ⟨_, rfl⟩

/-- No step at all. -/
theorem Toward.refl (a : Disk) (d : CachedBlockDevice) : Toward a d d :=
  ⟨rfl, rfl, rfl, fun _ h => h⟩

/-- One step after another. -/
theorem Toward.trans {d'' : CachedBlockDevice} (h : Toward a d d') (h' : Toward a d' d'') :
    Toward a d d'' where
  state := h'.state.trans h.state
  blockSize := h'.blockSize.trans h.blockSize
  totalBlocks := h'.totalBlocks.trans h.totalBlocks
  blocks id hid := h'.blocks id (h.blocks id hid)

/-- Writing the array's bytes of `n` blocks to the inner device. A failure leaves the blocks before
it written. -/
theorem innerWriteBlocks_ends (hbs : d.inner.blockSize = a.blockSize) (start n : ℕ) :
    Ends (Toward a d) (innerWriteBlocks start ((range n).flatMap fun i => a.blocks (start + i)))
      (fun _ d' => Toward a d d' ∧ ∀ i, i < n → d'.inner.blocks (start + i) = a.blocks (start + i))
      (Toward a d) := by
  intro d' hd'
  have hbs' : d'.inner.blockSize = a.blockSize := hd'.blockSize.trans hbs
  have hlen : ((range n).flatMap fun i => a.blocks (start + i)).length = n * a.blockSize := by
    rw [length_flatMap_blocks fun i _ => a.length_blocks _, length_range]
  simp only [innerWriteBlocks, run_bind, run_get, hbs', hlen,
    if_neg (not_not.mpr (Nat.dvd_mul_left _ _)), Nat.mul_div_cancel _ a.blockSize_pos]
  have hloop := Ends.forM_list (E := Toward a d) (f := fun i => innerWriteSingleBlock (start + i)
      (blockAt a.blockSize i ((range n).flatMap fun i => a.blocks (start + i))))
    (fun done d' => Toward a d d' ∧ ∀ i ∈ done, d'.inner.blocks (start + i) = a.blocks (start + i))
    (range n) ?_
  · refine hloop.conseq (fun _ h => ⟨h, by simp⟩) ?_ (fun _ h => h) d' hd'
    simp
  rintro done i rest hsplit d'' ⟨htoward, hdone⟩
  have hi : i < n := by
    rw [← mem_range, hsplit]
    exact mem_append_right _ mem_cons_self
  rw [blockAt_flatMap (fun i _ => a.length_blocks _) (by rw [length_range]; exact hi),
    getElem_range]
  -- The blocks written before stay as they are, since the next one only moves towards `a`.
  have hwrite := innerWriteSingleBlock_ends (htoward.blockSize.trans hbs) (start + i) d''
    (.refl a d'')
  cases hrun : (innerWriteSingleBlock (start + i) (a.blocks (start + i))).run d'' with
  | error e d₃ =>
    rw [hrun] at hwrite
    exact htoward.trans hwrite
  | ok u d₃ =>
  rw [hrun] at hwrite
  refine ⟨htoward.trans hwrite.1, fun j hj => ?_⟩
  rcases mem_append.mp hj with hj | hj
  · exact hwrite.1.blocks _ (hdone j hj)
  · rw [mem_singleton.mp hj]
    exact hwrite.2

/-! ## What a caller has in hand -/

/-- The blocks that a caller has still to insert. -/
def Place.inserts : Place → List (ℕ × CacheEntry)
  | .ensureCapacity inserts _ => inserts
  | .writeBack _ _ inserts _ => inserts
  | .insert inserts _ => inserts
  | _ => []

/-- The blocks of the write that returns after the last insertion. -/
def After.writing : After → Option (List (ℕ × CacheEntry))
  | .write blocks => some blocks
  | _ => none

/-- All blocks of the write that a caller is in. -/
def Place.writing : Place → Option (List (ℕ × CacheEntry))
  | .ensureCapacity _ after => after.writing
  | .writeBack _ _ _ after => after.writing
  | .insert _ after => after.writing
  | _ => none

/-- The dirty entry that a caller has taken out of the cache and has still to write back. -/
def Place.evicted : Place → Option (ℕ × CacheEntry)
  | .writeBack blockId entry _ _ => some (blockId, entry)
  | _ => none

/-- The runs that a caller's flush has still to write. -/
def Place.runs : Place → List (ℕ × List UInt8)
  | .flushRuns runs => runs
  | .markClean _ _ runs => runs
  | _ => []

/-- The block is in the run that a caller's flush has written and has still to mark clean. -/
def Place.Unmarked (p : Place) (id : ℕ) : Prop :=
  match p with
  | .markClean startBlock blockCount _ => startBlock ≤ id ∧ id < startBlock + blockCount
  | _ => False

/-- The caller has bytes of the block in hand: fetched and not inserted, evicted and not written
back, or collected by a flush and not marked clean. -/
def Place.InHand (blockSize : ℕ) (p : Place) (id : ℕ) : Prop :=
  (∃ entry, (id, entry) ∈ p.inserts ∧ entry.dirty = false) ∨
    (∃ entry, p.evicted = some (id, entry)) ∨
    (∃ run ∈ p.runs, run.1 ≤ id ∧ id < run.1 + run.2.length / blockSize) ∨ p.Unmarked id

/-- A caller without a call has nothing in hand. -/
theorem Place.not_inHand_idle (blockSize id : ℕ) : ¬ Place.idle.InHand blockSize id := by
  rintro (⟨_, hin, -⟩ | ⟨_, he⟩ | ⟨_, hrun, -⟩ | hunmarked)
  · cases hin
  · cases he
  · cases hrun
  · exact hunmarked

variable {inserts : List (ℕ × CacheEntry)} {after : After}

/-- What is to be inserted dirty is not in hand. -/
theorem Place.not_inHand_insert (hdirty : ∀ x ∈ inserts, x.2.dirty = true) (blockSize id : ℕ) :
    ¬ (Place.insert inserts after).InHand blockSize id := by
  rintro (⟨entry, hin, hclean⟩ | ⟨_, he⟩ | ⟨_, hrun, -⟩ | hunmarked)
  · rw [hdirty (id, entry) hin] at hclean
    cases hclean
  · cases he
  · cases hrun
  · exact hunmarked

/-- What a caller has in hand are the bytes of the array `a`, and the inner device has them too
where the caller relies on it. -/
structure Place.Ok (a : Disk) (d : CachedBlockDevice) (p : Place) : Prop where
  /-- A block to be inserted lies on the device and has its size. -/
  inserts : ∀ id entry, (id, entry) ∈ p.inserts →
    id < a.totalBlocks ∧ entry.data.length = a.blockSize
  /-- Writes are inserted as dirty entries, fetched blocks as clean ones. -/
  kind : ∀ id entry, (id, entry) ∈ p.inserts → entry.dirty = p.writing.isSome
  /-- A fetched block has the array's bytes, on the inner device too. -/
  fetched : ∀ id entry, (id, entry) ∈ p.inserts → entry.dirty = false →
    entry.data = a.blocks id ∧ d.inner.blocks id = a.blocks id
  /-- An evicted entry has the array's bytes. -/
  evicted : ∀ id entry, p.evicted = some (id, entry) →
    id < a.totalBlocks ∧ entry.data = a.blocks id
  /-- A run to be flushed has the array's bytes. -/
  runs : ∀ run ∈ p.runs, ∃ n, run.1 + n ≤ a.totalBlocks ∧
    run.2 = (List.range n).flatMap fun i => a.blocks (run.1 + i)
  /-- The inner device has the array's bytes of a run to be marked clean. -/
  unmarked : ∀ id, p.Unmarked id → d.inner.blocks id = a.blocks id

variable {p : Place}

/-- A call that carries nothing is in order. -/
theorem Place.Ok.of_empty (hi : p.inserts = []) (he : p.evicted = none) (hr : p.runs = [])
    (hu : ∀ id, ¬ p.Unmarked id) : p.Ok a d where
  inserts id entry h := by simp [hi] at h
  kind id entry h := by simp [hi] at h
  fetched id entry h := by simp [hi] at h
  evicted id entry h := by simp [he] at h
  runs run h := by simp [hr] at h
  unmarked id h := absurd h (hu id)

/-- A call stays in order when the device moves toward the array. -/
theorem Place.Ok.toward (h : p.Ok a d)
    (hmove : ∀ id, d.inner.blocks id = a.blocks id → d'.inner.blocks id = a.blocks id) :
    p.Ok a d' where
  inserts := h.inserts
  kind := h.kind
  fetched id entry hin hclean := by
    obtain ⟨h1, h2⟩ := h.fetched id entry hin hclean
    exact ⟨h1, hmove id h2⟩
  evicted := h.evicted
  runs := h.runs
  unmarked id hid := hmove id (h.unmarked id hid)

/-- A put keeps the block size. -/
@[simp] theorem Disk.put_blockSize (a : Disk) (id : ℕ) (data : List UInt8) :
    (a.put id data).blockSize = a.blockSize := by
  unfold put
  split <;> rfl

/-- A put keeps the number of blocks. -/
@[simp] theorem Disk.put_totalBlocks (a : Disk) (id : ℕ) (data : List UInt8) :
    (a.put id data).totalBlocks = a.totalBlocks := by
  unfold put
  split <;> rfl

variable {id : ℕ} {data : List UInt8}

/-- The block that is put. -/
theorem Disk.put_blocks_self (h : data.length = a.blockSize) :
    (a.put id data).blocks id = data := by
  simp [put, h, store]

/-- The others stay. -/
theorem Disk.put_blocks_of_ne {id' : ℕ} (h : id' ≠ id) :
    (a.put id data).blocks id' = a.blocks id' := by
  unfold put
  split
  · simp [store, h]
  · rfl

/-- A put of a block that a call does not have in hand. -/
theorem Place.Ok.put (h : p.Ok a d) (hout : ¬ p.InHand a.blockSize id) :
    p.Ok (a.put id data) d where
  inserts id' entry hin := by simpa using h.inserts id' entry hin
  kind := h.kind
  fetched id' entry hin hclean := by
    have hne : id' ≠ id := by
      rintro rfl
      exact hout (.inl ⟨entry, hin, hclean⟩)
    rw [put_blocks_of_ne hne]
    exact h.fetched id' entry hin hclean
  evicted id' entry he := by
    have hne : id' ≠ id := by
      rintro rfl
      exact hout (.inr (.inl ⟨entry, he⟩))
    rw [put_blocks_of_ne hne, put_totalBlocks]
    exact h.evicted id' entry he
  runs run hrun := by
    obtain ⟨n, hn, hbytes⟩ := h.runs run hrun
    refine ⟨n, by simpa using hn, ?_⟩
    have hcount : run.2.length / a.blockSize = n := by
      rw [hbytes, length_flatMap_blocks fun i _ => a.length_blocks _, length_range,
        Nat.mul_div_cancel _ a.blockSize_pos]
    rw [hbytes]
    refine flatMap_congr fun i hi => (put_blocks_of_ne ?_).symm
    intro heq
    have hi' := mem_range.mp hi
    exact hout (.inr (.inr (.inl ⟨run, hrun, by omega, by omega⟩)))
  unmarked id' hid := by
    have hne : id' ≠ id := by
      rintro rfl
      exact hout (.inr (.inr (.inr hid)))
    rw [put_blocks_of_ne hne]
    exact h.unmarked id' hid

/-! ## The invariant -/

/-- The last written bytes of every block are where they are looked for: in the cache if the block
is cached, and otherwise on the inner device, unless a caller has still to write them back. -/
structure World.Intact (w : World) : Prop where
  blockSize : w.device.inner.blockSize = w.written.blockSize
  totalBlocks : w.device.inner.totalBlocks = w.written.totalBlocks
  cached : ∀ id entry, w.device.state.entries[id]? = some entry → id < w.written.totalBlocks ∧
    entry.data = w.written.blocks id ∧
      (entry.dirty = false → w.device.inner.blocks id = w.written.blocks id)
  uncached : ∀ id, w.device.state.entries[id]? = none →
    w.device.inner.blocks id = w.written.blocks id ∨
      ∃ i entry, (w.places i).evicted = some (id, entry)
  places : ∀ i, (w.places i).Ok w.written w.device

/-- A block may be read from the inner device: no newer bytes of it are in the cache, and no caller
has still to write it back. -/
def World.Fetchable (w : World) (id : ℕ) : Prop :=
  (∀ entry, w.device.state.entries[id]? = some entry → entry.dirty = false) ∧
    ∀ i entry, (w.places i).evicted ≠ some (id, entry)

/-- The condition on a step. A block is fetched only if no newer bytes of it are in the cache or
still to be written back; a write is inserted only while nobody has the block in hand; and the
device does not fail the write-back of an evicted block. -/
def World.Safe (step : Step) (w : World) : Prop :=
  match step.move, w.places step.caller with
  | .advance _, .fetch id => w.Fetchable id
  | .advance _, .fetchRun start _ index _ readaheadEnd _ =>
    ∀ offset, index ≤ offset → offset < readaheadEnd → w.Fetchable (start + offset)
  | .advance faults, .writeBack _ _ _ _ => faults.head? ≠ some true
  | .advance _, .insert ((id, entry) :: _) _ =>
    entry.dirty = true → ∀ i, ¬ (w.places i).InHand w.device.inner.blockSize id
  | _, _ => True

variable {w : World}

/-- A call at its place is in order. -/
theorem World.Intact.at (h : w.Intact) {c : ℕ} (hc : w.places c = p) : p.Ok w.written w.device :=
  hc ▸ h.places c

/-- What may be fetched is up to date. -/
theorem World.Intact.fetchable (h : w.Intact) (hid : w.Fetchable id) :
    w.device.inner.blocks id = w.written.blocks id := by
  cases hentry : w.device.state.entries[id]? with
  | some entry => exact (h.cached id entry hentry).2.2 (hid.1 entry hentry)
  | none =>
    rcases h.uncached id hentry with hinner | ⟨i, entry, he⟩
    · exact hinner
    · exact absurd he (hid.2 i entry)

/-- A step of the caller `c` that leaves the last written bytes as they are keeps the invariant if
the inner device moves towards them and what the step changes is right afterwards. -/
theorem World.Intact.move (h : w.Intact) (c : ℕ) (p : Place) (d : CachedBlockDevice) (acked : Disk)
    (hbs : d.inner.blockSize = w.device.inner.blockSize)
    (htb : d.inner.totalBlocks = w.device.inner.totalBlocks)
    (hmove : ∀ id, w.device.inner.blocks id = w.written.blocks id →
      d.inner.blocks id = w.written.blocks id) (hp : p.Ok w.written d)
    (hcached : ∀ id entry, d.state.entries[id]? = some entry → id < w.written.totalBlocks ∧
      entry.data = w.written.blocks id ∧
        (entry.dirty = false → d.inner.blocks id = w.written.blocks id))
    (huncached : ∀ id, d.state.entries[id]? = none → d.inner.blocks id = w.written.blocks id ∨
      (∃ entry, p.evicted = some (id, entry)) ∨
        ∃ i entry, i ≠ c ∧ (w.places i).evicted = some (id, entry)) :
    Intact ⟨d, update w.places c p, w.written, acked⟩ where
  blockSize := hbs.trans h.blockSize
  totalBlocks := htb.trans h.totalBlocks
  cached := hcached
  uncached id hid := by
    rcases huncached id hid with hinner | ⟨entry, he⟩ | ⟨i, entry, hi, he⟩
    · exact .inl hinner
    · refine .inr ⟨c, entry, ?_⟩
      simpa only [update_self] using he
    · refine .inr ⟨i, entry, ?_⟩
      simpa only [update_of_ne hi] using he
  places i := by
    by_cases hi : i = c
    · subst hi
      simpa only [update_self] using hp
    · simpa only [update_of_ne hi] using (h.places i).toward hmove

/-- A step that does not touch the cache, in which a caller that had evicted a block has written it
back. -/
theorem World.Intact.call (h : w.Intact) (c : ℕ) (p : Place) (acked : Disk)
    (ht : Toward w.written w.device d) (hp : p.Ok w.written d)
    (hevicted : ∀ id entry, (w.places c).evicted = some (id, entry) →
      d.inner.blocks id = w.written.blocks id) :
    Intact ⟨d, update w.places c p, w.written, acked⟩ := by
  refine h.move c p d acked ht.blockSize ht.totalBlocks ht.blocks hp ?_ ?_
  · intro id entry hentry
    rw [ht.state] at hentry
    obtain ⟨h1, h2, h3⟩ := h.cached id entry hentry
    exact ⟨h1, h2, fun hclean => ht.blocks id (h3 hclean)⟩
  · intro id hid
    grind [ht.state, h.uncached, ht.blocks]

/-! ## Steps -/

variable {start : ℕ} {entry : CacheEntry} {buffer : List UInt8} {blockSize total readaheadEnd : ℕ}

/-- What is written is dirty, whole and in range. -/
theorem mem_writtenBlocks (h : (id, entry) ∈ writtenBlocks blockSize start buffer) :
    entry.dirty = true ∧ entry.data.length = blockSize ∧
      id < start + buffer.length / blockSize := by
  obtain ⟨index, hindex, heq⟩ := mem_map.mp h
  rw [mem_range] at hindex
  obtain ⟨rfl, rfl⟩ := Prod.mk.inj heq
  refine ⟨rfl, ?_, by omega⟩
  apply length_blockAt
  calc index * blockSize + blockSize = (index + 1) * blockSize := by rw [Nat.add_mul, Nat.one_mul]
    _ ≤ buffer.length / blockSize * blockSize := Nat.mul_le_mul_right _ hindex
    _ ≤ buffer.length := Nat.div_mul_le_self _ _

variable {blocks : List (ℕ × CacheEntry)}

/-- A write begins in order. -/
theorem Place.Ok.of_writes (h : ∀ id entry, (id, entry) ∈ blocks →
      entry.dirty = true ∧ entry.data.length = a.blockSize ∧ id < a.totalBlocks) :
    (Place.ensureCapacity blocks (.write blocks)).Ok a d where
  inserts id entry hin := ⟨(h id entry hin).2.2, (h id entry hin).2.1⟩
  kind id entry hin := (h id entry hin).1
  fetched id entry hin hclean := by
    rw [(h id entry hin).1] at hclean
    cases hclean
  evicted := nofun
  runs := nofun
  unmarked := nofun

variable {runs : List (ℕ × List UInt8)}

/-- A flush begins in order. -/
theorem Place.Ok.of_runs (h : ∀ run ∈ runs, ∃ n, run.1 + n ≤ a.totalBlocks ∧
      run.2 = (range n).flatMap fun i => a.blocks (run.1 + i)) :
    (Place.flushRuns runs).Ok a d where
  inserts := nofun
  kind := nofun
  fetched := nofun
  evicted := nofun
  runs := h
  unmarked := nofun

/-- Every request begins in order. -/
theorem World.Intact.begin_ok (h : w.Intact) (op : Op) :
    (op.begin w.device).Ok w.written w.device := by
  cases op <;> simp only [Op.begin]
  case readSingleBlock id buffer =>
    repeat' split
    all_goals exact .of_empty rfl rfl rfl nofun
  case readBlocks start buffer =>
    split_ifs
    all_goals exact .of_empty rfl rfl rfl nofun
  case writeSingleBlock id buffer =>
    split_ifs with hlen hid
    · exact .of_empty rfl rfl rfl nofun
    · exact .of_empty rfl rfl rfl nofun
    · refine .of_writes fun id' entry hin => ?_
      grind [h.blockSize, h.totalBlocks]
  case writeBlocks start buffer =>
    split_ifs with hdvd hrange hnone
    · exact .of_empty rfl rfl rfl nofun
    · exact .of_empty rfl rfl rfl nofun
    · refine .of_writes fun id' entry hin => ?_
      obtain ⟨hdirty, hlen, hid⟩ := mem_writtenBlocks hin
      grind [h.blockSize, h.totalBlocks]
    · exact .of_empty rfl rfl rfl nofun
  case flush =>
    have hheld : w.device.state.Holds w.written := fun id entry hentry =>
      ⟨(h.cached id entry hentry).1, (h.cached id entry hentry).2.1⟩
    refine .of_runs fun run hrun => ?_
    obtain ⟨ids, hids, rfl⟩ := mem_map.mp hrun
    obtain ⟨-, hle, hbytes⟩ := dirtyRun_bytes hheld hids
    exact ⟨ids.length, hle, hbytes⟩

/-- A call of the device, however it ends. -/
theorem callInner_of_ends {α : Type} {P : CachedBlockDevice → Prop} {call : DevM α}
    {Q : α → CachedBlockDevice → Prop} {E : CachedBlockDevice → Prop} (h : Ends P call Q E)
    {f : List Bool} (hP : P { d with inner := { d.inner with faults := f } }) :
    (∃ a d', callInner f call d = (some a, d') ∧ Q a d') ∨
      ∃ d', callInner f call d = (none, d') ∧ E d' := by
  have hend := h _ hP
  unfold callInner
  grind

/-- What has been fetched is in order. -/
theorem Place.Ok.of_fetched (hafter : after.writing = none)
    (h : ∀ id entry, (id, entry) ∈ blocks → entry.dirty = false ∧ id < a.totalBlocks ∧
      entry.data = a.blocks id ∧ d.inner.blocks id = a.blocks id) :
    (Place.ensureCapacity blocks after).Ok a d where
  inserts id entry hin := by
    obtain ⟨-, hid, hdata, -⟩ := h id entry hin
    exact ⟨hid, by rw [hdata, a.length_blocks]⟩
  kind id entry hin := by
    rw [(h id entry hin).1, Place.writing, hafter]
    rfl
  fetched id entry hin _ := (h id entry hin).2.2
  evicted := nofun
  runs := nofun
  unmarked := nofun

variable {c : ℕ} {q : Place}

/-- One call moves on that has evicted nothing. -/
theorem World.Intact.call_of_none (h : w.Intact) (hc : w.places c = q) (hnone : q.evicted = none)
    (p : Place) (acked : Disk) (ht : Toward w.written w.device d) (hp : p.Ok w.written d) :
    Intact ⟨d, update w.places c p, w.written, acked⟩ := by
  grind [h.call]

/-- A single block is fetched. -/
theorem World.Intact.fetch (h : w.Intact) (hc : w.places c = .fetch id) (hid : w.Fetchable id)
    (faults : List Bool) : (w.advance c faults).Intact := by
  simp only [advance, hc, Place.advance]
  rcases callInner_of_ends (innerReadSingleBlock_ends w.device id) (d := w.device)
    (f := faults) ⟨rfl, rfl, rfl, rfl⟩ with ⟨data, d', hcall, hsame, rfl, hlt⟩ |
    ⟨d', hcall, hsame⟩
  · simp only [hcall]
    refine h.call_of_none hc rfl _ _ (hsame.toward _) (.of_fetched rfl fun id' entry hin => ?_)
    grind [h.fetchable, h.totalBlocks, hsame.blocks]
  · simp only [hcall]
    exact h.call_of_none hc rfl _ _ (hsame.toward _) (.of_empty rfl rfl rfl nofun)

variable {index : ℕ}

/-- A round of `read_blocks` begins. -/
theorem World.Intact.readRound (h : w.Intact)
    (hc : w.places c = .readRound start total index buffer) (faults : List Bool) :
    (w.advance c faults).Intact := by
  simp only [advance, hc, Place.advance]
  repeat' split
  all_goals exact h.call_of_none hc rfl _ _ (.refl _ _) (.of_empty rfl rfl rfl nofun)

/-- The blocks that were fetched, with their bytes. -/
theorem mem_fetchedBlocks {f : ℕ → List UInt8} (hf : ∀ i, (f i).length = blockSize)
    (h : (id, entry) ∈ fetchedBlocks blockSize start index readaheadEnd
      ((range (readaheadEnd - index)).flatMap fun i => f (start + index + i))) :
    ∃ offset, index ≤ offset ∧ offset < readaheadEnd ∧ id = start + offset ∧
      entry.dirty = false ∧ entry.data = f id := by
  obtain ⟨offset, hoffset, heq⟩ := mem_map.mp h
  rw [mem_range'_1] at hoffset
  obtain ⟨rfl, rfl⟩ := Prod.mk.inj heq
  refine ⟨offset, hoffset.1, by omega, rfl, rfl, ?_⟩
  grind [blockAt_flatMap]

/-- A run is fetched. -/
theorem World.Intact.fetchRun (h : w.Intact) {missEnd : ℕ}
    (hc : w.places c = .fetchRun start total index missEnd readaheadEnd buffer)
    (hids : ∀ offset, index ≤ offset → offset < readaheadEnd → w.Fetchable (start + offset))
    (faults : List Bool) : (w.advance c faults).Intact := by
  simp only [advance, hc, Place.advance]
  rcases callInner_of_ends
    (innerReadBlocks_ends w.device (start + index) (readaheadEnd - index)) (d := w.device)
    (f := faults) ⟨rfl, rfl, rfl, rfl⟩ with ⟨temp, d', hcall, hsame, rfl, hlt⟩ |
    ⟨d', hcall, hsame⟩
  · simp only [hcall]
    refine h.call_of_none hc rfl _ _ (hsame.toward _) (.of_fetched rfl fun id entry hin => ?_)
    obtain ⟨offset, hlo, hhi, rfl, hclean, hdata⟩ :=
      mem_fetchedBlocks (fun i => w.device.inner.length_blocks i) hin
    have hinner := h.fetchable (hids offset hlo hhi)
    have hoffset := hlt (offset - index) (by omega)
    refine ⟨hclean, ?_, hdata.trans hinner, ?_⟩
    · rw [← h.totalBlocks]
      omega
    · rw [hsame.blocks]
      exact hinner
  · simp only [hcall]
    exact h.call_of_none hc rfl _ _ (hsame.toward _) (.of_empty rfl rfl rfl nofun)

/-- A call goes on with part of what it had. -/
theorem Place.Ok.of_inserts (h : p.Ok a d)
    (hmove : ∀ id, d.inner.blocks id = a.blocks id → d'.inner.blocks id = a.blocks id)
    (hsub : ∀ x ∈ q.inserts, x ∈ p.inserts) (hwriting : q.writing = p.writing)
    (hevicted : ∀ id entry, q.evicted = some (id, entry) →
      id < a.totalBlocks ∧ entry.data = a.blocks id) (hruns : q.runs = [])
    (hunmarked : ∀ id, ¬ q.Unmarked id) : q.Ok a d' where
  inserts id entry hin := h.inserts id entry (hsub _ hin)
  kind id entry hin := by rw [hwriting]; exact h.kind id entry (hsub _ hin)
  fetched id entry hin hclean := by
    obtain ⟨h1, h2⟩ := h.fetched id entry (hsub _ hin) hclean
    exact ⟨h1, hmove id h2⟩
  evicted := hevicted
  runs run hrun := by simp [hruns] at hrun
  unmarked id hid := absurd hid (hunmarked id)

/-- What is not cached is on the device, or evicted by another call. -/
theorem World.Intact.uncached_of_none (h : w.Intact) (hc : w.places c = q)
    (hnone : q.evicted = none) (hid : w.device.state.entries[id]? = none) :
    w.device.inner.blocks id = w.written.blocks id ∨
      ∃ i entry, i ≠ c ∧ (w.places i).evicted = some (id, entry) := by
  grind [h.uncached]

variable {blockId : ℕ}

/-- A block leaves the cache: a dirty one into the hands of the caller, a clean one is on the inner
device. -/
theorem World.Intact.evict (h : w.Intact) (hc : w.places c = q) (hnone : q.evicted = none)
    (p : Place) (acked : Disk) {state : CacheState}
    (herase : state.entries = w.device.state.entries.erase blockId) (hp : p.Ok w.written w.device)
    (hout : w.device.inner.blocks blockId = w.written.blocks blockId ∨
      ∃ entry, p.evicted = some (blockId, entry)) :
    Intact ⟨{ w.device with state := state }, update w.places c p, w.written, acked⟩ := by
  refine h.move c p _ acked rfl rfl (fun _ h => h) (hp.toward fun _ h => h) ?_ ?_
  · intro id entry hentry
    simp only [herase, getElem?_erase_entry] at hentry
    split at hentry
    · cases hentry
    · exact h.cached id entry hentry
  · grind [h.uncached_of_none]

/-- A call takes a candidate out of the cache. -/
theorem World.Intact.ensureCapacity (h : w.Intact) (hc : w.places c = .ensureCapacity inserts after)
    (faults : List Bool) : (w.advance c faults).Intact := by
  have hok := h.at hc
  have hinsert : (Place.insert inserts after).Ok w.written w.device :=
    hok.of_inserts (fun _ h => h) (fun _ h => h) rfl nofun rfl fun _ h => h
  simp only [advance, hc, Place.advance]
  split
  · -- There is room.
    exact h.call_of_none hc rfl _ _ (.refl _ _) hinsert
  generalize hcand : takeEvictionCandidate w.device.state.entries w.device.state.lru = candidate
  obtain ⟨victim, state⟩ := candidate
  cases victim with
  | none =>
    have hsame := takeEvictionCandidate_none hcand
    refine h.move c _ _ _ rfl rfl (fun _ h => h) (hinsert.toward fun _ h => h) ?_ ?_
    · simp only [hsame]
      exact h.cached
    · exact fun id hid => (h.uncached_of_none hc rfl (hsame ▸ hid)).imp_right .inr
  | some victim =>
  obtain ⟨blockId, entry⟩ := victim
  obtain ⟨hentry, herase⟩ := takeEvictionCandidate_some hcand
  obtain ⟨hlt, hdata, hclean⟩ := h.cached blockId entry hentry
  cases hdirty : entry.dirty with
  | true =>
    simp only [hdirty]
    refine h.evict hc rfl _ _ herase ?_ (.inr ⟨entry, rfl⟩)
    refine hok.of_inserts (fun _ h => h) (fun _ h => h) rfl (fun id' entry' he => ?_) rfl
      fun _ h => h
    cases he
    exact ⟨hlt, hdata⟩
  | false =>
    simp only [hdirty]
    exact h.evict hc rfl _ _ herase hok (.inl (hclean hdirty))

variable {faults : List Bool}

variable (h : w.Intact) (hc : w.places c = .writeBack blockId entry inserts after)
  (hf : faults.head? ≠ some true)

include h hc hf

/-- A candidate is written back without a fault. -/
theorem World.Intact.writeBack_ok :
    ∃ d, callInner faults (innerWriteSingleBlock blockId entry.data) w.device = (some (), d) := by
  have hok := h.at hc
  obtain ⟨hlt, hdata⟩ := hok.evicted blockId entry rfl
  obtain ⟨d, hrun⟩ := innerWriteSingleBlock_ok w.written
    { w.device with inner := { w.device.inner with faults := faults } } h.blockSize blockId
    (by rw [← h.totalBlocks] at hlt; exact hlt) hf
  refine ⟨d, ?_⟩
  rw [callInner, hdata, hrun]

/-- A candidate has been written back. -/
theorem World.Intact.writeBack : (w.advance c faults).Intact := by
  have hok := h.at hc
  obtain ⟨hlt, hdata⟩ := hok.evicted blockId entry rfl
  simp only [advance, hc, Place.advance]
  rw [hdata]
  rcases callInner_of_ends (innerWriteSingleBlock_ends h.blockSize blockId)
    (d := w.device) (f := faults) ⟨rfl, rfl, rfl, fun _ h => h⟩ with
    ⟨u, d', hcall, htoward, hinner⟩ | ⟨d', hcall, -⟩
  · simp only [hcall]
    refine h.call c _ _ htoward ?_ ?_
    · exact hok.of_inserts htoward.blocks (fun _ h => h) rfl nofun rfl fun _ h => h
    intro id entry' he
    rw [hc] at he
    cases he
    exact hinner
  · -- The device does not fail this call.
    grind [h.writeBack_ok]

omit h hc hf

/-- The call goes on with what is left to insert. -/
theorem Place.Ok.after_insert {block : ℕ × CacheEntry}
    (h : (Place.insert (block :: inserts) after).Ok a d)
    (hmove : ∀ id, d.inner.blocks id = a.blocks id → d'.inner.blocks id = a.blocks id) :
    (if inserts = [] then after.place else .ensureCapacity inserts after).Ok a d' := by
  split
  · cases after <;> exact .of_empty rfl rfl rfl nofun
  · exact h.of_inserts hmove (fun _ h => mem_cons_of_mem _ h) rfl nofun rfl fun _ h => h

variable (h : w.Intact)

include h

/-- A clean block is inserted. -/
theorem World.Intact.insert_clean (hc : w.places c = .insert ((id, entry) :: inserts) after)
    (hclean : entry.dirty = false)
    (faults : List Bool) : (w.advance c faults).Intact := by
  have hok := h.at hc
  obtain ⟨hdata, hinner⟩ := hok.fetched id entry mem_cons_self hclean
  obtain ⟨hlt, -⟩ := hok.inserts id entry mem_cons_self
  simp only [advance, hc, Place.advance, Place.writes, hclean]
  refine h.move c _ _ _ rfl rfl (fun _ h => h) (hok.after_insert fun _ h => h) ?_ ?_
  · intro id' entry' hentry
    simp only [CacheState.touch, getElem?_insert_entry] at hentry
    split at hentry
    · next heq =>
      grind
    · exact h.cached id' entry' hentry
  intro id' hid
  simp only [CacheState.touch, getElem?_insert_entry] at hid
  split at hid
  · cases hid
  · exact (h.uncached_of_none hc rfl hid).imp_right .inr

/-- A dirty block is inserted. -/
theorem World.Intact.insert_dirty (hc : w.places c = .insert ((id, entry) :: inserts) after)
    (hdirty : entry.dirty = true)
    (hfree : ∀ i, ¬ (w.places i).InHand w.device.inner.blockSize id) (faults : List Bool) :
    (w.advance c faults).Intact := by
  have hok := h.at hc
  obtain ⟨hlt, hlen⟩ := hok.inserts id entry mem_cons_self
  rw [h.blockSize] at hfree
  have hown := hfree c
  rw [hc] at hown
  simp only [advance, hc, Place.advance, Place.writes, hdirty, if_true]
  refine ⟨by simpa using h.blockSize, by simpa using h.totalBlocks, ?_, ?_, ?_⟩
  · intro id' entry' hentry
    simp only [CacheState.touch, getElem?_insert_entry] at hentry
    split at hentry
    · next heq =>
      subst heq
      cases hentry
      refine ⟨by simpa using hlt, (put_blocks_self hlen).symm, fun hclean => ?_⟩
      rw [hdirty] at hclean
      cases hclean
    · next hne =>
      simp only [put_totalBlocks, put_blocks_of_ne (Ne.symm hne)]
      exact h.cached id' entry' hentry
  · intro id' hid
    simp only [CacheState.touch, getElem?_insert_entry] at hid
    split at hid
    · cases hid
    next hne =>
    simp only [put_blocks_of_ne (Ne.symm hne)]
    rcases h.uncached_of_none hc rfl hid with hinner | ⟨i, entry', hi, he⟩
    · exact .inl hinner
    · refine .inr ⟨i, entry', ?_⟩
      rw [update_of_ne hi]
      exact he
  intro i
  by_cases hi : i = c
  · subst hi
    simp only [update_self]
    exact (hok.put hown).after_insert fun _ h => h
  · simp only [update_of_ne hi]
    exact ((h.places i).put (hfree i)).toward fun _ h => h

/-- A run is written to the device. -/
theorem World.Intact.flushRuns (hc : w.places c = .flushRuns runs) (faults : List Bool) :
    (w.advance c faults).Intact := by
  have hok := h.at hc
  cases runs with
  | nil =>
    simp only [advance, hc, Place.advance]
    rcases callInner_of_ends (innerCall_ends (Unmoved w.device) fun _ faults h => h.faults faults)
      (d := w.device) (f := faults) ⟨rfl, rfl, rfl, rfl⟩ with
      ⟨u, d', hcall, hsame⟩ | ⟨d', hcall, hsame⟩
    all_goals
      simp only [hcall]
      exact h.call_of_none hc rfl _ _ (hsame.toward _) (.of_empty rfl rfl rfl nofun)
  | cons run runs =>
  obtain ⟨startBlock, buffer⟩ := run
  obtain ⟨n, hn, hbytes⟩ := hok.runs _ mem_cons_self
  simp only at hn hbytes
  have hcount : buffer.length / w.device.inner.blockSize = n := by
    rw [hbytes, length_flatMap_blocks fun i _ => w.written.length_blocks _, length_range,
      h.blockSize, Nat.mul_div_cancel _ w.written.blockSize_pos]
  simp only [advance, hc, Place.advance, hcount]
  rw [hbytes]
  rcases callInner_of_ends (innerWriteBlocks_ends h.blockSize startBlock n) (d := w.device)
    (f := faults) ⟨rfl, rfl, rfl, fun _ h => h⟩ with
    ⟨u, d', hcall, htoward, hwritten⟩ | ⟨d', hcall, htoward⟩
  · simp only [hcall]
    refine h.call_of_none hc rfl _ _ htoward ?_
    refine ⟨nofun, nofun, nofun, nofun, ?_, ?_⟩
    · exact fun run hrun => hok.runs run (mem_cons_of_mem _ hrun)
    · rintro id ⟨hlo, hhi⟩
      have hid := hwritten (id - startBlock) (by omega)
      grind
  · simp only [hcall]
    exact h.call_of_none hc rfl _ _ htoward (.of_empty rfl rfl rfl nofun)

/-- A run is marked clean. -/
theorem World.Intact.markClean {startBlock blockCount : ℕ}
    (hc : w.places c = .markClean startBlock blockCount runs)
    (faults : List Bool) : (w.advance c faults).Intact := by
  have hok := h.at hc
  simp only [advance, hc, Place.advance]
  refine h.move c _ _ _ rfl rfl (fun _ h => h) (.of_runs hok.runs) ?_ ?_
  · intro id entry hentry
    simp only [getElem?_markCleanRange, Option.map_eq_some_iff] at hentry
    obtain ⟨old, hold, rfl⟩ := hentry
    obtain ⟨h1, h2, h3⟩ := h.cached id old hold
    split
    · next hin => exact ⟨h1, h2, fun _ => hok.unmarked id hin⟩
    · exact ⟨h1, h2, h3⟩
  · intro id hid
    simp only [getElem?_markCleanRange, Option.map_eq_none_iff] at hid
    exact (h.uncached_of_none hc rfl hid).imp_right .inr

/-- Every safe step of a call keeps the world intact. -/
theorem World.Intact.advance (hsafe : w.Safe ⟨c, .advance faults⟩) :
    (w.advance c faults).Intact := by
  cases hc : w.places c with
  | idle =>
    simp only [World.advance, hc]
    exact h.call_of_none hc rfl _ _ (.refl _ _) (.of_empty rfl rfl rfl nofun)
  | fetch id => exact h.fetch hc (by simpa only [Safe, hc] using hsafe) faults
  | readRound start total index buffer => exact h.readRound hc faults
  | fetchRun start total index missEnd readaheadEnd buffer => grind [h.fetchRun, Safe]
  | ensureCapacity inserts after => exact h.ensureCapacity hc faults
  | writeBack blockId entry inserts after => grind [h.writeBack, Safe]
  | insert inserts after =>
    cases inserts with
    | nil =>
      simp only [World.advance, hc]
      refine h.call_of_none hc rfl _ _ (.refl _ _) ?_
      cases after <;> exact .of_empty rfl rfl rfl nofun
    | cons block inserts =>
    obtain ⟨id, entry⟩ := block
    cases hdirty : entry.dirty with
    | false => exact h.insert_clean hc hdirty faults
    | true => grind [Safe, h.insert_dirty]
  | flushRuns runs => exact h.flushRuns hc faults
  | markClean startBlock blockCount runs => exact h.markClean hc faults

omit h

variable {step : Step} {w' : World}

/-- A step begins a call or goes on with one. -/
theorem World.exec_cases (h : w.exec step = some w') :
    (∃ op, step.move = .call op ∧ w.places step.caller = .idle ∧
      w' = { w with places := update w.places step.caller (op.begin w.device) }) ∨
    ∃ faults, step.move = .advance faults ∧ w.places step.caller ≠ .idle ∧
      w' = w.advance step.caller faults := by
  obtain ⟨c, move⟩ := step
  cases move with
  | call op => grind [exec]
  | advance faults =>
    cases hc : w.places c <;> simp [exec, hc] at h
    all_goals exact .inr ⟨faults, rfl, by simp, h.symm⟩

/-- Every safe step loses nothing. -/
theorem World.Intact.exec (h : w.Intact) (hsafe : w.Safe step)
    (hexec : w.exec step = some w') : w'.Intact := by
  obtain ⟨c, move⟩ := step
  rcases exec_cases hexec with ⟨op, -, hidle, rfl⟩ | ⟨faults, hmove, -, rfl⟩
  · exact h.call_of_none hidle rfl _ _ (.refl _ _) (h.begin_ok op)
  · grind [h.advance]

/-- At the start nothing is cached. -/
theorem World.intact_start {inner : Disk} {maxEntries : ℕ} :
    (World.start inner maxEntries).Intact where
  blockSize := rfl
  totalBlocks := rfl
  cached id entry h := by simp [start, CachedBlockDevice.withCapacity, CacheState.new] at h
  uncached _ _ := .inl rfl
  places _ := (.of_empty rfl rfl rfl nofun)

/-! ## Several callers -/

/-- A read returns what was written last. -/
theorem World.Intact.returned (h : w.Intact)
    (hret : w.returned step = some (id, data)) : data = w.written.blocks id := by
  unfold World.returned at hret
  split at hret
  · -- A hit returns the cached entry.
    split at hret
    · cases hret
    · obtain ⟨entry, hentry, heq⟩ := Option.map_eq_some_iff.mp hret
      obtain ⟨rfl, rfl⟩ := Prod.mk.inj heq
      exact (h.cached _ entry hentry).2.1
  · -- After a miss, the block is returned when it is inserted.
    next _ id' entry _ hc =>
    obtain ⟨rfl, rfl⟩ := Prod.mk.inj (Option.some.inj hret)
    have hok := h.at hc
    have hclean := hok.kind id' entry mem_cons_self
    exact (hok.fetched id' entry mem_cons_self hclean).1
  · cases hret

/-- Any callers, in any order of steps that meet the condition: the last written bytes of a block
are in the cache as a dirty entry, or on the inner device, or a caller has evicted them and is about
to write them back; and what a `read_single_block` returns are the last written bytes. -/
theorem run_loses_nothing (inner : Disk) (maxEntries : ℕ) (steps : List Step) (w : World)
    (hsafe : Lib.SafeRun World.exec World.Safe steps (World.start inner maxEntries))
    (hrun : runOps World.exec steps (World.start inner maxEntries) = some w) :
    (∀ id, (∃ entry, w.device.state.entries[id]? = some entry ∧ entry.dirty = true ∧
          entry.data = w.written.blocks id) ∨
        w.device.inner.blocks id = w.written.blocks id ∨
        ∃ i entry, (w.places i).evicted = some (id, entry) ∧ entry.data = w.written.blocks id) ∧
      ∀ step id data, w.returned step = some (id, data) → data = w.written.blocks id := by
  have hintact : w.Intact :=
    hsafe.invariant (fun _ _ _ hsafe hexec h => h.exec hsafe hexec) (intact_start) hrun
  refine ⟨fun id => ?_, fun step id data hret => hintact.returned hret⟩
  cases hentry : w.device.state.entries[id]? with
  | some entry =>
    obtain ⟨-, hdata, hclean⟩ := hintact.cached id entry hentry
    grind
  | none =>
    rcases hintact.uncached id hentry with hinner | ⟨i, entry, he⟩
    · exact .inr (.inl hinner)
    · exact .inr (.inr ⟨i, entry, he, ((hintact.places i).evicted id entry he).2⟩)

/-- Two callers, of which the second one reads what the first one has written. -/
theorem run_loses_nothing_hit :
    let steps : List Step := [⟨0, .call (.writeSingleBlock 0 [7])⟩, ⟨0, .advance []⟩,
      ⟨0, .advance []⟩]
    ∃ w, runOps World.exec steps (.start twoBlocks 1) = some w ∧
      ∀ data, w.returned ⟨1, .call (.readSingleBlock 0 [9])⟩ = some (0, data) →
        data = w.written.blocks 0 := by
  refine ⟨_, rfl, fun data hret => ?_⟩
  refine (run_loses_nothing twoBlocks 1 [⟨0, .call (.writeSingleBlock 0 [7])⟩, ⟨0, .advance []⟩,
    ⟨0, .advance []⟩] _ ?_ rfl).2 _ _ _ hret
  refine ⟨trivial, trivial, fun _ i => ?_, trivial⟩
  by_cases hi : i = 0
  · subst hi
    exact Place.not_inHand_insert (by decide) 1 0
  · simp only [advance, update_of_ne hi]
    exact Place.not_inHand_idle 1 0

/-- Three callers on a cache of one block. The first writes block 0 and returns; the second evicts
it to write block 1, and has not written it back when the third reads block 0. -/
def evictionRace : List Step :=
  [⟨0, .call (.writeSingleBlock 0 [7])⟩, ⟨0, .advance []⟩, ⟨0, .advance []⟩,
    ⟨1, .call (.writeSingleBlock 1 [8])⟩, ⟨1, .advance []⟩,
    ⟨2, .call (.readSingleBlock 0 [9])⟩, ⟨2, .advance []⟩, ⟨2, .advance []⟩]

/-- The third caller returns the bytes from before the acknowledged write. -/
theorem read_returns_older : (runOps World.exec evictionRace (World.start twoBlocks 1)).map
      (fun w => (w.acked.blocks 0, w.returned ⟨2, .advance []⟩)) =
      some ([7], some (0, [0])) := by
  decide

end Seele.BlockDevice
