import Mathlib.Data.List.SplitBy
import Mathlib.Data.List.Chain
import Mathlib.Data.Set.Basic
import Seele.Lib.Triple
import Seele.BlockDevice.Cache

/-!
# The block cache refines an uncached array of blocks

`Disk.exec` is the specification: the same requests on a plain array of blocks, without a cache.
`Coherent a d` is the simulation relation: a cached block holds the array's bytes, and the inner
device holds them for every block that is not cached or that is cached clean.

A clean insertion keeps it only when the inner device holds the array's bytes for the inserted block
at that moment. `read_blocks` inserts every block that it fetches as a clean one, and it fetches
past the run of blocks that missed, over blocks that are cached. When one of those is dirty, its
newer bytes are replaced by the inner device's. So the refinement holds for the runs in which no
`read_blocks` fetches a block that is cached dirty (`readsClean`), and fails otherwise
(`run_loses_write`).
-/

namespace Seele.BlockDevice

open Seele.Lib CachedBlockDevice List Triple Function

/-! ## The array -/

/-- The array after the first `k` blocks of `buffer` are stored from the block `start` on. -/
def Disk.storeFirst (a : Disk) (start : ℕ) (buffer : List UInt8) (k : ℕ)
    (h : k ≤ buffer.length / a.blockSize) : Disk where
  blockSize := a.blockSize
  totalBlocks := a.totalBlocks
  blocks id := if start ≤ id ∧ id < start + k then blockAt a.blockSize (id - start) buffer
    else a.blocks id
  faults := a.faults
  blockSize_pos := a.blockSize_pos
  length_blocks := by
    intro id
    split
    · next hid =>
      apply length_blockAt
      have hle : (id - start + 1) * a.blockSize ≤ buffer.length :=
        (Nat.le_div_iff_mul_le a.blockSize_pos).mp (by omega)
      rw [Nat.add_mul, Nat.one_mul] at hle
      exact hle
    · exact a.length_blocks id

/-- The array after the blocks of `buffer` are stored from the block `start` on. -/
def Disk.storeBlocks (a : Disk) (start : ℕ) (buffer : List UInt8) : Disk :=
  a.storeFirst start buffer (buffer.length / a.blockSize) (Nat.le_refl _)

/-- A request on the plain array. -/
def Disk.exec (a : Disk) : Op → Outcome × Disk
  | .readSingleBlock id buffer =>
    if buffer.length < a.blockSize then (.error .bufferTooSmall, a)
    else (.ok (a.blockSize, setBlock a.blockSize 0 buffer (a.blocks id)), a)
  | .readBlocks start buffer =>
    if ¬ a.blockSize ∣ buffer.length then (.error .bufferTooSmall, a)
    else (.ok (buffer.length, (List.range (buffer.length / a.blockSize)).flatMap
      fun i => a.blocks (start + i)), a)
  | .writeSingleBlock id buffer =>
    if h : a.blockSize ≤ buffer.length then
      (.ok (a.blockSize, buffer), a.store id (buffer.take a.blockSize) (length_take_of_le h))
    else (.error .bufferTooSmall, a)
  | .writeBlocks start buffer =>
    if ¬ a.blockSize ∣ buffer.length then (.error .bufferTooSmall, a)
    else (.ok (buffer.length, buffer), a.storeBlocks start buffer)
  | .flush => (.ok (0, []), a)

/-- A sequence of requests on the plain array. -/
def Disk.run (a : Disk) : List Op → List Outcome × Disk
  | [] => ([], a)
  | op :: ops =>
    let (outcome, a') := a.exec op
    let (outcomes, a'') := a'.run ops
    (outcome :: outcomes, a'')

/-- The blocks that a request names lie on the device. -/
def Op.InRange (op : Op) (a : Disk) : Prop :=
  match op with
  | .readSingleBlock id _ => id < a.totalBlocks
  | .readBlocks start buffer => start + buffer.length / a.blockSize ≤ a.totalBlocks
  | .writeSingleBlock id _ => id < a.totalBlocks
  | .writeBlocks start buffer => start + buffer.length / a.blockSize ≤ a.totalBlocks
  | .flush => True

instance (op : Op) (a : Disk) : Decidable (op.InRange a) :=
  match op with
  | .readSingleBlock id _ => inferInstanceAs (Decidable (id < a.totalBlocks))
  | .readBlocks start buffer =>
    inferInstanceAs (Decidable (start + buffer.length / a.blockSize ≤ a.totalBlocks))
  | .writeSingleBlock id _ => inferInstanceAs (Decidable (id < a.totalBlocks))
  | .writeBlocks start buffer =>
    inferInstanceAs (Decidable (start + buffer.length / a.blockSize ≤ a.totalBlocks))
  | .flush => inferInstanceAs (Decidable True)

/-- A request leaves the size of the array alone. -/
theorem Disk.exec_geometry (a : Disk) (op : Op) :
    (a.exec op).2.blockSize = a.blockSize ∧ (a.exec op).2.totalBlocks = a.totalBlocks := by
  cases op <;> simp only [Disk.exec]
  case flush => exact ⟨trivial, trivial⟩
  all_goals split <;> exact ⟨rfl, rfl⟩

/-! ## The simulation relation -/

/-- The cached device `d` stands for the array `a`. -/
structure Coherent (a : Disk) (d : CachedBlockDevice) : Prop where
  /-- The blocks have the array's size. -/
  blockSize : d.inner.blockSize = a.blockSize
  /-- The inner device has the array's number of blocks. -/
  totalBlocks : d.inner.totalBlocks = a.totalBlocks
  /-- No call of the inner device fails from here on. -/
  faults : d.inner.faults = []
  /-- A cached block lies on the device and holds the array's bytes, and if it is clean then the
  inner device holds them too. -/
  cached : ∀ id entry, d.state.entries[id]? = some entry → id < a.totalBlocks ∧
    entry.data = a.blocks id ∧ (entry.dirty = false → d.inner.blocks id = a.blocks id)
  /-- The inner device holds the array's bytes for a block that is not cached. -/
  uncached : ∀ id, d.state.entries[id]? = none → d.inner.blocks id = a.blocks id

/-- `d` stands for `a`, and the inner device holds the array's bytes for the blocks in `S`. -/
def Synced (a : Disk) (S : Set ℕ) (d : CachedBlockDevice) : Prop :=
  Coherent a d ∧ ∀ id ∈ S, d.inner.blocks id = a.blocks id

/-- An empty cache stands for its device. -/
theorem coherent_withCapacity (a : Disk) (hf : a.faults = []) (n : ℕ) :
    Coherent a (withCapacity a n) where
  blockSize := rfl
  totalBlocks := rfl
  faults := hf
  cached := by
    intro id entry h
    simp [withCapacity, CacheState.new] at h
  uncached := by
    intro id _
    rfl

/-! ## The inner device's calls -/

variable (d : CachedBlockDevice)

variable (hf : d.inner.faults = [])

include hf

/-- A call of a device without faults returns. -/
theorem innerCall_run : innerCall.run d = .ok () d := by
  simp [innerCall, hf]

/-- The device reads a block. -/
theorem innerReadSingleBlock_run (id : ℕ)
    (hid : id < d.inner.totalBlocks) :
    (innerReadSingleBlock id).run d = .ok (d.inner.blocks id) d := by
  simp only [innerReadSingleBlock, EStateM.run_bind, innerCall_run d hf, EStateM.run_get,
    if_neg (Nat.not_le.mpr hid), EStateM.run_pure]

/-- The device writes a block. -/
theorem innerWriteSingleBlock_run (id : ℕ)
    (data : List UInt8) (hid : id < d.inner.totalBlocks) (hd : data.length = d.inner.blockSize) :
    (innerWriteSingleBlock id data).run d = .ok ()
    { d with inner := d.inner.store id data hd } := by
  have htake : data.take d.inner.blockSize = data := by rw [← hd, take_length]
  simp only [innerWriteSingleBlock, EStateM.run_bind, innerCall_run d hf, EStateM.run_get,
    dif_pos hd.ge, if_neg (Nat.not_le.mpr hid), EStateM.run_set, htake]

/-- The device reads blocks one by one. -/
theorem innerReadBlocks_run (start count : ℕ)
    (h : start + count ≤ d.inner.totalBlocks) : (innerReadBlocks start count).run d =
      .ok ((range count).flatMap fun i => d.inner.blocks (start + i)) d := by
  unfold innerReadBlocks
  have key := foldlM (ε := BlockDeviceError) (f := fun (bytes : List UInt8) i => do
      let block ← innerReadSingleBlock (start + i) return bytes ++ block)
    (fun done bytes d' => bytes = (done.flatMap fun i => d.inner.blocks (start + i)) ∧ d' = d)
    (range count) ?_ []
  · obtain ⟨bytes, d', hrun, hbytes, hd'⟩ := key d ⟨rfl, rfl⟩
    rw [hrun, hbytes, hd']
  rintro done i rest bytes hsplit d' ⟨rfl, rfl⟩
  have hi : i < count := by
    rw [← mem_range, hsplit]
    exact mem_append_right _ mem_cons_self
  refine ⟨(done ++ [i]).flatMap fun i => d'.inner.blocks (start + i), d', ?_, rfl, rfl⟩
  grind [innerReadSingleBlock_run]

omit hf

/-! ## Eviction -/

variable {id : ℕ} {state : CacheState} {entry : CacheEntry} {entries : Std.TreeMap ℕ CacheEntry}

variable {lru : List ℕ}

/-- The candidate is cached, and leaves the cache. -/
theorem takeEvictionCandidate_some
    (h : takeEvictionCandidate entries lru = (some (id, entry), state)) :
    entries[id]? = some entry ∧ state.entries = entries.erase id := by
  induction lru with
  | nil => simp [takeEvictionCandidate] at h
  | cons blockId lru ih =>
  unfold takeEvictionCandidate at h
  split at h
  · next e he =>
    grind
  · exact ih h

/-- Without a candidate nothing leaves it. -/
theorem takeEvictionCandidate_none
    (h : takeEvictionCandidate entries lru = (none, state)) : state.entries = entries := by
  induction lru with
  | nil =>
    simp only [takeEvictionCandidate, Prod.mk.injEq, true_and] at h
    rw [← h]
  | cons blockId lru ih =>
  unfold takeEvictionCandidate at h
  split at h
  · simp at h
  · exact ih h

variable (entries : Std.TreeMap ℕ CacheEntry) (id' : ℕ)

/-- A lookup after an insertion. -/
theorem getElem?_insert_entry (entry : CacheEntry) :
    (entries.insert id entry)[id']? = if id = id' then some entry else entries[id']? := by
  grind

/-- A lookup after a removal. -/
theorem getElem?_erase_entry :
    (entries.erase id)[id']? = if id = id' then none else entries[id']? := by
  grind

variable {a : Disk} {S : Set ℕ} {d : CachedBlockDevice}

/-- Only the device and the entries count. -/
theorem Synced.congr {d' : CachedBlockDevice} (h : Synced a S d) (hi : d'.inner = d.inner)
    (he : d'.state.entries = d.state.entries) : Synced a S d' := by
  obtain ⟨⟨hbs, htb, hf, hc, hu⟩, hS⟩ := h
  refine ⟨⟨?_, ?_, ?_, ?_, ?_⟩, ?_⟩ <;> simp only [hi, he]
  · exact hbs
  · exact htb
  · exact hf
  · exact hc
  · exact hu
  · exact hS

/-- The array's bytes are written to the device. -/
theorem Synced.store (h : Synced a S d) (id : ℕ) (hlen : (a.blocks id).length = d.inner.blockSize) :
    Synced a (insert id S) { d with inner := d.inner.store id (a.blocks id) hlen } := by
  obtain ⟨hcoh, hS⟩ := h
  -- A block that held the array's bytes before holds them after.
  have hkeep : ∀ id', d.inner.blocks id' = a.blocks id' →
      (d.inner.store id (a.blocks id) hlen).blocks id' = a.blocks id' := by
    intro id' h'
    by_cases hid : id' = id
    · subst hid
      simp only [Disk.store, update_self]
    · simp only [Disk.store, update_of_ne hid, h']
  refine ⟨⟨hcoh.blockSize, hcoh.totalBlocks, hcoh.faults, ?_, ?_⟩, ?_⟩
  · intro id' entry h'
    obtain ⟨h1, h2, h3⟩ := hcoh.cached id' entry h'
    exact ⟨h1, h2, fun hc => hkeep id' (h3 hc)⟩
  · intro id' h'
    exact hkeep id' (hcoh.uncached id' h')
  · rintro id' (rfl | hmem)
    · simp only [Disk.store, update_self]
    · exact hkeep id' (hS id' hmem)

/-- Fewer blocks are in step. -/
theorem Synced.mono {T : Set ℕ} (h : Synced a T d) (hST : S ⊆ T) : Synced a S d :=
  ⟨h.1, fun id hid => h.2 id (hST hid)⟩

/-- A block that the device has may leave the cache. -/
theorem Synced.forget (h : Synced a S d) (hid : d.inner.blocks id = a.blocks id)
    (he : state.entries = d.state.entries.erase id) : Synced a S { d with state := state } := by
  obtain ⟨hcoh, hS⟩ := h
  refine ⟨⟨hcoh.blockSize, hcoh.totalBlocks, hcoh.faults, ?_, ?_⟩, hS⟩
  · intro id' entry' h'
    rw [show ({ d with state := state } : CachedBlockDevice).state.entries = _ from he,
      getElem?_erase_entry] at h'
    split at h'
    · cases h'
    · exact hcoh.cached id' entry' h'
  · grind [hcoh.uncached]

/-- Every round writes back what it evicts. -/
theorem ensureCapacityLoop_spec (fuel : ℕ) :
    Triple (Synced a S) (ensureCapacityLoop fuel) (fun _ => Synced a S) := by
  induction fuel with
  | zero => exact pure fun _ h => h
  | succ fuel ih =>
  refine get_bind fun d hd => ?_
  split_ifs with hroom
  · exact pure fun _ h => h ▸ hd
  generalize hcand : takeEvictionCandidate d.state.entries d.state.lru = candidate
  obtain ⟨victim, state⟩ := candidate
  cases victim with
  | none => exact set { d with state := state } (hd.congr rfl (takeEvictionCandidate_none hcand))
  | some victim =>
  obtain ⟨id, entry⟩ := victim
  obtain ⟨hentry, herase⟩ := takeEvictionCandidate_some hcand
  obtain ⟨hid, hdata, hclean⟩ := hd.1.cached id entry hentry
  refine set_bind (bind (R := fun _ => Synced a S) ?_ fun _ => ih)
  -- The write of a dirty victim goes to the block it was taken from.
  rintro d' rfl
  unfold writeBack
  cases hdirty : entry.dirty with
  | false => exact ⟨(), _, rfl, hd.forget (hclean hdirty) herase⟩
  | true =>
  have hlen : (a.blocks id).length = d.inner.blockSize := by rw [a.length_blocks, hd.1.blockSize]
  rw [hdata]
  refine ⟨(), _, innerWriteSingleBlock_run { d with state := state } hd.1.faults id _
    (by rw [← hd.1.totalBlocks] at hid; exact hid) hlen, ?_⟩
  have hst := hd.store id hlen
  exact (hst.mono (Set.subset_insert id S)).forget (hst.2 id (Set.mem_insert id S)) herase

/-- Room is made without a loss. -/
theorem ensureCapacity_spec : Triple (Synced a S) ensureCapacity (fun _ => Synced a S) :=
  get_bind fun _ hd =>
    (ensureCapacityLoop_spec _).conseq (fun _ h => h ▸ hd) fun _ _ h => h

/-! ## Insertion -/

/-- An entry with the bytes of the array `a'`, which is `a` for the other blocks. -/
theorem Coherent.insert {a' : Disk} (hd : Coherent a d)
    (hsize : a'.blockSize = a.blockSize) (htotal : a'.totalBlocks = a.totalBlocks)
    (hblocks : ∀ id', id' ≠ id → a'.blocks id' = a.blocks id')
    (hentry : id < a.totalBlocks ∧ entry.data = a'.blocks id ∧
      (entry.dirty = false → d.inner.blocks id = a'.blocks id)) :
    Coherent a' { d with
      state := .touch { d.state with entries := d.state.entries.insert id entry } id } := by
  refine ⟨hd.blockSize.trans hsize.symm, hd.totalBlocks.trans htotal.symm, hd.faults, ?_, ?_⟩
  · intro id' entry' h'
    simp only [CacheState.touch, getElem?_insert_entry] at h'
    split at h'
    · next heq =>
      subst heq
      rw [← Option.some.inj h', htotal]
      exact hentry
    · next hne =>
      rw [htotal, hblocks id' (Ne.symm hne)]
      exact hd.cached id' entry' h'
  intro id' h'
  simp only [CacheState.touch, getElem?_insert_entry] at h'
  split at h'
  · simp at h'
  · next hne =>
    rw [hblocks id' (Ne.symm hne)]
    exact hd.uncached id' h'

variable {data : List UInt8}

/-- A clean entry has the bytes of the device. -/
theorem insertEntry_clean (hid : id < a.totalBlocks) (hdata : data = a.blocks id) (hS : id ∈ S) :
    Triple (Synced a S) (insertEntry id ⟨data, false⟩) (fun _ => Synced a S) := by
  refine get_bind fun d hd => set _ ⟨?_, hd.2⟩
  exact hd.1.insert rfl rfl (fun _ _ => rfl) ⟨hid, hdata, fun _ => hd.2 id hS⟩

/-- A dirty entry is a store to the array. -/
theorem insertEntry_dirty (hid : id < a.totalBlocks) (hlen : data.length = a.blockSize) :
    Triple (Coherent a) (insertEntry id ⟨data, true⟩)
    (fun _ => Coherent (a.store id data hlen)) := by
  refine get_bind fun d hd => set _ ?_
  refine hd.insert rfl rfl (fun id' hne => update_of_ne hne ..) ⟨hid, ?_, nofun⟩
  simp [Disk.store]

/-! ## Reading -/

/-- The first miss is part of the run. -/
theorem lt_missEnd (state : CacheState) (start total index : ℕ) :
    index < missEnd state start total index := by
  unfold missEnd
  omega

/-- The run stays inside the request. -/
theorem missEnd_le (state : CacheState) (start total index : ℕ) (h : index < total) :
    missEnd state start total index ≤ total := by
  have hlen := (takeWhile_sublist (fun offset => !state.entries.contains (start + offset))
    (l := range' (index + 1) (total - (index + 1)))).length_le
  rw [length_range'] at hlen
  unfold missEnd
  omega

/-- The buffer of a read of `total` blocks holds the array's blocks up to `index`. -/
def Filled (a : Disk) (start total index : ℕ) (buffer : List UInt8) : Prop :=
  buffer.length = total * a.blockSize ∧
    ∀ i, i < index → blockAt a.blockSize i buffer = a.blocks (start + i)

variable {total : ℕ} {buffer : List UInt8} {i n k : ℕ}

/-- A block of the buffer lies inside it. -/
theorem block_le_length {bs : ℕ} (h : buffer.length = total * bs)
    (hi : i < total) : i * bs + bs ≤ buffer.length := by
  rw [h]
  calc i * bs + bs = (i + 1) * bs := by rw [Nat.add_mul, Nat.one_mul]
    _ ≤ total * bs := Nat.mul_le_mul_right bs hi

variable {start index : ℕ}

/-- The next block is filled. -/
theorem Filled.set (h : Filled a start total index buffer)
    (hi : index < total) (hdata : data = a.blocks (start + index)) :
    Filled a start total (index + 1) (setBlock a.blockSize index buffer data) := by
  have hlen : data.length = a.blockSize := by rw [hdata, a.length_blocks]
  have hin := block_le_length h.1 hi
  refine ⟨by rw [length_setBlock hlen hin]; exact h.1, ?_⟩
  intro i hi'
  rcases Nat.lt_succ_iff_lt_or_eq.mp hi' with hlt | rfl
  · rw [blockAt_setBlock_of_ne hlen hin (by omega)]
    exact h.2 i hlt
  · rw [blockAt_setBlock_self hlen hin, hdata]

/-- An offset in the middle of the range. -/
theorem range'_split {s : ℕ} {done rest : List ℕ}
    (h : range' s n = done ++ i :: rest) : i = s + done.length ∧ i < s + n := by
  grind

/-- A fetched block is cached. -/
theorem cacheBlock_clean (hid : id < a.totalBlocks) (hdata : data = a.blocks id) (hS : id ∈ S) :
    Triple (Synced a S) (cacheBlock id ⟨data, false⟩) (fun _ => Synced a S) :=
  bind ensureCapacity_spec fun _ => insertEntry_clean hid hdata hS

/-- The blocks that a miss at `index` fetches. -/
def fetched (d : CachedBlockDevice) (start total index : ℕ) : Set ℕ :=
  {id | start + index ≤ id ∧ id < start + readaheadEnd d start total index}

/-- A miss fills the buffer up to the end of the miss run, when the inner device holds the array's
bytes for what is fetched. -/
theorem readMissRun_spec (hd : Synced a S d) (htotal : start + total ≤ a.totalBlocks)
    (hi : index < total) (hS : fetched d start total index ⊆ S)
    (hbuf : Filled a start total index buffer) :
    Triple (· = d) (readMissRun start total index buffer) (fun buffer' d' => Synced a S d' ∧
      Filled a start total (missEnd d.state start total index) buffer') := by
  have hend : readaheadEnd d start total index ≤ total := Nat.min_le_left _ _
  have hmle : missEnd d.state start total index ≤ readaheadEnd d start total index :=
    Nat.le_min.mpr ⟨missEnd_le d.state start total index hi, Nat.le_add_right _ _⟩
  have hlt := lt_missEnd d.state start total index
  refine get_bind fun d' hd' => ?_
  subst hd'
  unfold fetched at hS
  generalize readaheadEnd d' start total index = re at hS hend hmle ⊢
  generalize missEnd d'.state start total index = me at hmle hlt ⊢
  have hmem : ∀ offset, index ≤ offset → offset < re → start + offset ∈ S := by
    intro offset hlo hhi
    exact hS ⟨by omega, by omega⟩
  have hread := innerReadBlocks_run d' hd.1.faults (start + index) (re - index)
    (by rw [hd.1.totalBlocks]; omega)
  generalize htemp :
    ((range (re - index)).flatMap fun i => d'.inner.blocks (start + index + i)) = temp at hread
  -- What was fetched are the array's blocks.
  have hblock : ∀ offset, index ≤ offset → offset < re →
      blockAt a.blockSize (offset - index) temp = a.blocks (start + offset) := by
    intro offset hlo hhi
    rw [← htemp, blockAt_flatMap (fun x _ => by rw [d'.inner.length_blocks]; exact hd.1.blockSize)
      (by rw [length_range]; omega), getElem_range,
      show start + index + (offset - index) = start + offset by omega]
    exact hd.2 _ (hmem offset hlo hhi)
  rw [hd.1.blockSize]
  refine bind (R := fun t s => t = temp ∧ s = d') ?_ fun t => ?_
  · rintro _ rfl
    exact ⟨temp, _, hread, rfl, rfl⟩
  -- The loop caches what was fetched, and copies it to the buffer inside the miss run.
  refine (foldlM (fun done buf s => t = temp ∧ Synced a S s ∧
    Filled a start total (min me (index + done.length)) buf)
    (range' index (re - index)) ?_ buffer).conseq ?_ ?_
  · rintro done offset rest buf hsplit s ⟨rfl, hsy, hfill⟩
    obtain ⟨hoff, hre⟩ := range'_split hsplit
    have hdata := hblock offset (by omega) (by omega)
    obtain ⟨_, s', hrun, hsy'⟩ := cacheBlock_clean (by omega) hdata
      (hmem offset (by omega) (by omega)) s hsy
    refine ⟨_, s', by rw [EStateM.run_bind, hrun]; rfl, rfl, hsy', ?_⟩
    rw [length_append, length_singleton]
    by_cases hin : offset < me
    · rw [if_pos hin, show min me (index + (done.length + 1)) = offset + 1 by omega]
      rw [show min me (index + done.length) = offset by omega] at hfill
      exact hfill.set (by omega) hdata
    · grind
  · grind
  · grind

/-- A hit fills the next block. -/
theorem Filled.hit (hd : Coherent a d) (h : Filled a start total index buffer) (hi : index < total)
    (hentry : d.state.entries[start + index]? = some entry) :
    Filled a start total (index + 1) (setBlock d.inner.blockSize index buffer entry.data) := by
  rw [hd.blockSize]
  exact h.set hi (hd.cached _ entry hentry).2.1

/-- None of the blocks that a miss at `index` fetches is cached dirty. -/
def fetchesClean (d : CachedBlockDevice) (start total index : ℕ) : Bool :=
  (range' index (readaheadEnd d start total index - index)).all fun offset =>
    d.state.entries[start + offset]?.all fun entry => !entry.dirty

/-- No miss of the loop of `read_blocks` fetches a block that is cached dirty then. -/
def readsClean (start total : ℕ) : ℕ → ℕ → List UInt8 → CachedBlockDevice → Bool
  | 0, _, _, _ => true
  | fuel + 1, index, buffer, d =>
    if index < total then
      match d.state.entries[start + index]? with
      | some entry =>
        readsClean start total fuel (index + 1) (setBlock d.inner.blockSize index buffer entry.data)
          d
      | none => fetchesClean d start total index &&
        match (readMissRun start total index buffer).run d with
        | .ok buffer' d' =>
          readsClean start total fuel (missEnd d.state start total index) buffer' d'
        | .error _ _ => true
    else true

/-- The inner device holds the array's bytes for every block that is not cached dirty. -/
theorem synced_of_fetchesClean (hd : Coherent a d) (h : fetchesClean d start total index = true) :
    Synced a (fetched d start total index) d := by
  refine ⟨hd, ?_⟩
  rintro id ⟨hlo, hhi⟩
  obtain ⟨j, rfl⟩ := Nat.exists_eq_add_of_le hlo
  have hclean := all_eq_true.mp h (index + j) (mem_range'_1.mpr ⟨by omega, by omega⟩)
  rw [← Nat.add_assoc] at hclean
  cases hentry : d.state.entries[start + index + j]? with
  | none => exact hd.uncached _ hentry
  | some entry =>
    rw [hentry] at hclean
    exact (hd.cached _ entry hentry).2.2 (by simpa using hclean)

/-- The loop of `read_blocks` reads the array's blocks, if it fetches no block that is cached
dirty. -/
theorem readBlocksLoop_spec (htotal : start + total ≤ a.totalBlocks) (fuel : ℕ) :
    ∀ index buffer, total ≤ index + fuel → index ≤ total → Filled a start total index buffer →
      Triple (fun d => Coherent a d ∧ readsClean start total fuel index buffer d = true)
        (readBlocksLoop start total fuel index buffer)
        (fun buffer' d' => Coherent a d' ∧ Filled a start total total buffer') := by
  induction fuel with
  | zero =>
    intro index buffer hfuel hle hbuf
    rw [show index = total by omega] at hbuf
    exact pure fun _ h => ⟨h.1, hbuf⟩
  | succ fuel ih =>
  intro index buffer hfuel hle hbuf
  refine get_bind fun d hd => ?_
  obtain ⟨hd, hclean⟩ := hd
  rw [readsClean] at hclean
  split_ifs with hi
  · rw [if_pos hi] at hclean
    cases hentry : d.state.entries[start + index]? with
    | some entry =>
      rw [hentry] at hclean
      refine (ih (index + 1) _ (by omega) hi (hbuf.hit hd hi hentry)).conseq ?_ fun _ _ h => h
      rintro _ rfl
      exact ⟨hd, hclean⟩
    | none =>
    rw [hentry] at hclean
    obtain ⟨hfetch, hrest⟩ := Bool.and_eq_true_iff.mp hclean
    have hlt := lt_missEnd d.state start total index
    have hend := missEnd_le d.state start total index hi
    obtain ⟨buffer', d', hrun, hd', hbuf'⟩ :=
      readMissRun_spec (synced_of_fetchesClean hd hfetch) htotal hi (.refl _) hbuf d rfl
    rw [hrun] at hrest
    refine bind (R := fun b s => b = buffer' ∧ s = d') ?_ fun b => ?_
    · rintro _ rfl
      exact ⟨buffer', d', hrun, rfl, rfl⟩
    · rintro _ ⟨rfl, rfl⟩
      exact ih _ _ (by omega) hend hbuf' _ ⟨hd'.1, hrest⟩
  · rw [show index = total by omega] at hbuf
    exact pure fun _ h => ⟨h ▸ hd, hbuf⟩

/-- `read_blocks` reads the array. -/
theorem readBlocks_run (hd : Coherent a d) (hdvd : a.blockSize ∣ buffer.length)
    (hrange : start + buffer.length / a.blockSize ≤ a.totalBlocks)
    (hclean : readsClean start (buffer.length / a.blockSize) (buffer.length / a.blockSize) 0 buffer
      d = true) :
    ∃ d', (readBlocks start buffer).run d = .ok (buffer.length,
      (range (buffer.length / a.blockSize)).flatMap fun i => a.blocks (start + i)) d' ∧
      Coherent a d' := by
  have hlen : buffer.length = buffer.length / a.blockSize * a.blockSize :=
    (Nat.div_mul_cancel hdvd).symm
  obtain ⟨bytes, d', hrun, hd', hfilled⟩ := readBlocksLoop_spec hrange
    (buffer.length / a.blockSize) 0 buffer (by omega) (Nat.zero_le _)
    ⟨hlen, fun i hi => absurd hi (Nat.not_lt_zero i)⟩ d ⟨hd, hclean⟩
  -- A buffer is determined by its blocks.
  have hbytes : bytes = (range (buffer.length / a.blockSize)).flatMap
      fun i => a.blocks (start + i) := by
    refine ext_blockAt a.blockSize_pos hfilled.1 ?_ ?_
    · rw [length_flatMap_blocks fun i _ => a.length_blocks _, length_range]
    · intro i hi
      rw [hfilled.2 i hi, blockAt_flatMap (fun i _ => a.length_blocks _)
        (by rw [length_range]; exact hi), getElem_range]
  refine ⟨d', ?_, hd'⟩
  rw [← hbytes]
  simp only [readBlocks, EStateM.run_bind, EStateM.run_get, hd.blockSize, hd.totalBlocks,
    not_true_eq_false, hdvd, if_false, if_neg (Nat.not_lt.mpr hrange), hrun, EStateM.run_pure]

/-- `read_single_block` reads the array. -/
theorem readSingleBlock_run (hd : Coherent a d) (hlen : a.blockSize ≤ buffer.length)
    (hid : id < a.totalBlocks) : ∃ d', (readSingleBlock id buffer).run d =
      .ok (a.blockSize, setBlock a.blockSize 0 buffer (a.blocks id)) d' ∧ Coherent a d' := by
  simp only [readSingleBlock, EStateM.run_bind, EStateM.run_get, hd.blockSize]
  cases hentry : d.state.entries[id]? with
  | some entry => grind [hd.cached]
  | none =>
  have hblock := hd.uncached id hentry
  obtain ⟨_, d', hrun, hd'⟩ := cacheBlock_clean (S := {id}) hid rfl rfl d
    ⟨hd, by rintro _ rfl; exact hblock⟩
  refine ⟨d', ?_, hd'.1⟩
  grind [innerReadSingleBlock_run, hd.faults, hd.totalBlocks]

/-! ## Writing -/

/-- A written block is cached. -/
theorem cacheBlock_dirty (hid : id < a.totalBlocks) (hlen : data.length = a.blockSize) :
    Triple (Coherent a) (cacheBlock id ⟨data, true⟩) (fun _ => Coherent (a.store id data hlen)) :=
  bind ((ensureCapacity_spec (S := ∅)).conseq (fun _ h => ⟨h, fun _ hid => hid.elim⟩)
    fun _ _ h => h.1) fun _ => insertEntry_dirty hid hlen

/-- `write_single_block` writes the array. -/
theorem writeSingleBlock_run (hd : Coherent a d) (hid : id < a.totalBlocks)
    (hbuf : a.blockSize ≤ buffer.length) (hlen : (buffer.take a.blockSize).length = a.blockSize) :
    ∃ d', (writeSingleBlock id buffer).run d = .ok a.blockSize d' ∧
      Coherent (a.store id (buffer.take a.blockSize) hlen) d' := by
  obtain ⟨_, d', hrun, hd'⟩ := cacheBlock_dirty hid hlen d hd
  refine ⟨d', ?_, hd'⟩
  simp only [writeSingleBlock, EStateM.run_bind, EStateM.run_get, hd.blockSize, hd.totalBlocks,
    if_neg (Nat.not_lt.mpr hbuf), if_neg (Nat.not_le.mpr hid), hrun, EStateM.run_pure]

/-- No block has been stored yet. -/
theorem Disk.storeFirst_zero : a.storeFirst start buffer 0 (Nat.zero_le _) = a := by
  apply Disk.ext
  case blocks =>
    grind [Disk.storeFirst]
  all_goals rfl

/-- One block more is stored. -/
theorem Disk.store_storeFirst (h : k + 1 ≤ buffer.length / a.blockSize)
    (hlen : (blockAt a.blockSize k buffer).length = a.blockSize) :
    (a.storeFirst start buffer k (Nat.le_of_succ_le h)).store (start + k)
      (blockAt a.blockSize k buffer) hlen = a.storeFirst start buffer (k + 1) h := by
  apply Disk.ext
  case blocks =>
    funext id
    simp only [Disk.store, Disk.storeFirst]
    grind
  all_goals rfl

/-- `write_blocks` writes the array. -/
theorem writeBlocks_run (hd : Coherent a d) (hdvd : a.blockSize ∣ buffer.length)
    (hrange : start + buffer.length / a.blockSize ≤ a.totalBlocks) :
    ∃ d', (writeBlocks start buffer).run d = .ok buffer.length d' ∧
      Coherent (a.storeBlocks start buffer) d' := by
  have hloop := forM_list (ε := BlockDeviceError)
    (f := fun index => cacheBlock (start + index) ⟨blockAt a.blockSize index buffer, true⟩)
    (fun done d' => ∃ h, Coherent (a.storeFirst start buffer done.length h) d')
    (range (buffer.length / a.blockSize)) ?_
  · obtain ⟨_, d', hrun, h, hd'⟩ := hloop d ⟨Nat.zero_le _, by
      simp only [length_nil, Disk.storeFirst_zero]
      exact hd⟩
    simp only [length_range] at hd'
    refine ⟨d', ?_, hd'⟩
    simp only [writeBlocks, EStateM.run_bind, EStateM.run_get, hd.blockSize, hd.totalBlocks,
      not_true_eq_false, hdvd, if_false, if_neg (Nat.not_lt.mpr hrange), hrun, EStateM.run_pure]
  -- Each round caches one more block as a dirty one.
  rintro done index rest hsplit d' ⟨hk, hd'⟩
  rw [range_eq_range'] at hsplit
  obtain ⟨hidx, hlt⟩ := range'_split hsplit
  rw [Nat.zero_add] at hidx hlt
  subst hidx
  have hlen : (blockAt a.blockSize done.length buffer).length = a.blockSize :=
    length_blockAt (block_le_length (Nat.div_mul_cancel hdvd).symm hlt)
  obtain ⟨u, d'', hrun, hd''⟩ := cacheBlock_dirty (a := a.storeFirst start buffer done.length hk)
    (show start + done.length < a.totalBlocks by omega) hlen d' hd'
  refine ⟨u, d'', hrun, by rw [length_append]; exact hlt, ?_⟩
  rw [Disk.store_storeFirst hlt] at hd''
  grind

/-! ## Flushing -/

/-- Numbers that follow each other are a range. -/
theorem eq_range'_of_consecutive {x : ℕ} {l : List ℕ}
    (h : (x :: l).IsChain fun prev next => (next == prev + 1) = true) :
    x :: l = range' x (l.length + 1) := by
  induction l generalizing x with
  | nil => rfl
  | cons y l ih => grind [range'_succ]

/-- The dirty blocks are those of dirty entries. -/
theorem mem_dirtyBlocks :
    id ∈ dirtyBlocks state ↔ ∃ entry, state.entries[id]? = some entry ∧ entry.dirty = true := by
  simp [dirtyBlocks]

/-- Every cached block lies on the device and holds the array's bytes. -/
def CacheState.Holds (state : CacheState) (a : Disk) : Prop :=
  ∀ id entry, state.entries[id]? = some entry → id < a.totalBlocks ∧ entry.data = a.blocks id

/-- What is cached holds the array's bytes. -/
theorem Coherent.holds (hd : Coherent a d) : d.state.Holds a :=
  fun id entry hentry => ⟨(hd.cached id entry hentry).1, (hd.cached id entry hentry).2.1⟩

/-- A run of dirty blocks has the array's bytes. -/
theorem dirtyRun_bytes (hheld : state.Holds a) {ids : List ℕ}
    (h : ids ∈ (dirtyBlocks state).splitBy fun prev next => next == prev + 1) :
    ids = range' (ids.headD 0) ids.length ∧ ids.headD 0 + ids.length ≤ a.totalBlocks ∧
      (ids.flatMap fun blockId => ((state.entries[blockId]?).map CacheEntry.data).getD []) =
        (range ids.length).flatMap fun i => a.blocks (ids.headD 0 + i) := by
  -- The blocks of a run are cached, so their bytes are the array's.
  have hcached : ∀ id ∈ ids, ∃ entry, state.entries[id]? = some entry := by
    intro id hid
    have hmem := mem_flatten_of_mem h hid
    grind [flatten_splitBy, mem_dirtyBlocks]
  cases ids with
  | nil => exact absurd rfl (ne_nil_of_mem_splitBy h)
  | cons x l =>
  have hrange := eq_range'_of_consecutive (isChain_of_mem_splitBy h)
  rw [headD_cons, length_cons]
  refine ⟨hrange, ?_, ?_⟩
  · obtain ⟨entry, hentry⟩ := hcached (x + l.length) (by
      rw [hrange, mem_range'_1]
      omega)
    have hlt := (hheld _ entry hentry).1
    omega
  rw [flatMap_congr (g := a.blocks) fun id hid => by
    obtain ⟨entry, hentry⟩ := hcached id hid
    rw [hentry]
    exact (hheld id entry hentry).2]
  rw [hrange, range'_eq_map_range, flatMap_map]

/-- A run is written to the device. -/
theorem innerWriteBlocks_spec (hrange : start + n ≤ a.totalBlocks) : Triple (Synced a S)
      (innerWriteBlocks start ((range n).flatMap fun i => a.blocks (start + i)))
      (fun _ => Synced a (S ∪ {id | start ≤ id ∧ id < start + n})) := by
  have hlen : ((range n).flatMap fun i => a.blocks (start + i)).length = n * a.blockSize := by
    rw [length_flatMap_blocks fun i _ => a.length_blocks _, length_range]
  refine get_bind fun d hd => ?_
  rw [hd.1.blockSize, hlen, if_neg (not_not.mpr (Nat.dvd_mul_left _ _)),
    Nat.mul_div_cancel _ a.blockSize_pos]
  refine (forM_list (fun done => Synced a (S ∪ {id | start ≤ id ∧ id < start + done.length}))
    (range n) ?_).conseq ?_ ?_
  · rintro done i rest hsplit d' hd'
    rw [range_eq_range'] at hsplit
    obtain ⟨hi, hlt⟩ := range'_split hsplit
    rw [Nat.zero_add] at hi hlt
    subst hi
    rw [blockAt_flatMap (fun i _ => a.length_blocks _) (by rw [length_range]; exact hlt),
      getElem_range]
    refine ⟨(), _, innerWriteSingleBlock_run d' hd'.1.faults _ _
      (by rw [hd'.1.totalBlocks]; omega) (by rw [a.length_blocks, hd'.1.blockSize]), ?_⟩
    refine (hd'.store _ _).mono ?_
    grind
  · rintro _ rfl
    refine ⟨hd.1, ?_⟩
    rintro id (hid | ⟨hlo, hhi⟩)
    · exact hd.2 id hid
    · exact absurd hhi (by rw [length_nil]; omega)
  · simp

/-- The entries of the range are clean afterwards. -/
theorem getElem?_markCleanRange (n : ℕ) :
    (markCleanRange start n state).entries[id]? = (state.entries[id]?).map fun entry =>
      if start ≤ id ∧ id < start + n then { entry with dirty := false } else entry := by
  unfold markCleanRange
  simp only
  generalize state.entries = entries
  induction n generalizing start entries with
  | zero => grind
  | succ n ih =>
  rw [range'_succ, foldl_cons, ih, Std.TreeMap.getElem?_modify]
  simp only [Nat.compare_eq_eq]
  by_cases hid : start = id
  · -- The first block of the range: the rest of the range does not touch it.
    grind
  · grind

/-- What the device has may be marked clean. -/
theorem Synced.markCleanRange (h : Synced a S d) (start n : ℕ)
    (hS : ∀ id, start ≤ id → id < start + n → id ∈ S) :
    Synced a S { d with state := BlockDevice.markCleanRange start n d.state } := by
  obtain ⟨hcoh, hsync⟩ := h
  refine ⟨⟨hcoh.blockSize, hcoh.totalBlocks, hcoh.faults, ?_, ?_⟩, hsync⟩
  · intro id entry hentry
    rw [getElem?_markCleanRange, Option.map_eq_some_iff] at hentry
    obtain ⟨old, hold, rfl⟩ := hentry
    obtain ⟨h1, h2, h3⟩ := hcoh.cached id old hold
    grind
  · intro id hnone
    rw [getElem?_markCleanRange, Option.map_eq_none_iff] at hnone
    exact hcoh.uncached id hnone

/-- The blocks of a run of bytes from the block `run.1` on. -/
def runBlocks (a : Disk) (run : ℕ × List UInt8) : Set ℕ :=
  {id | run.1 ≤ id ∧ id < run.1 + run.2.length / a.blockSize}

/-- A run is flushed. -/
theorem flushRun_spec {run : ℕ × List UInt8} (hrange : run.1 + n ≤ a.totalBlocks)
    (hbytes : run.2 = (range n).flatMap fun i => a.blocks (run.1 + i)) :
    Triple (Synced a S) (flushRun run.1 run.2) (fun _ => Synced a (S ∪ runBlocks a run)) := by
  have hn : run.2.length / a.blockSize = n := by
    rw [hbytes, length_flatMap_blocks fun i _ => a.length_blocks _, length_range,
      Nat.mul_div_cancel _ a.blockSize_pos]
  refine get_bind fun d hd => ?_
  rw [hd.1.blockSize, runBlocks, hn, hbytes]
  refine bind ((innerWriteBlocks_spec hrange).conseq (fun _ h => h ▸ hd) fun _ _ h => h) fun _ => ?_
  refine get_bind fun d' hd' => ?_
  exact set _ (hd'.markCleanRange run.1 n fun id hlo hhi => .inr ⟨hlo, hhi⟩)

/-- The device has what is not dirty. -/
theorem Coherent.synced_notMem_dirtyBlocks (hd : Coherent a d) :
    Synced a {id | id ∉ dirtyBlocks d.state} d := by
  refine ⟨hd, fun id hid => ?_⟩
  cases hentry : d.state.entries[id]? with
  | none => exact hd.uncached id hentry
  | some entry =>
    refine (hd.cached id entry hentry).2.2 (Bool.eq_false_iff.mpr fun hdirty => ?_)
    exact hid (mem_dirtyBlocks.mpr ⟨entry, hentry, hdirty⟩)

/-- Every dirty block is in some run. -/
theorem exists_run_of_mem_dirtyBlocks (hd : Coherent a d) (hid : id ∈ dirtyBlocks d.state) :
    ∃ run ∈ collectDirtyRuns d.state, id ∈ runBlocks a run := by
  rw [← flatten_splitBy (fun prev next => next == prev + 1) (dirtyBlocks d.state),
    mem_flatten] at hid
  obtain ⟨ids, hids, hmem⟩ := hid
  obtain ⟨hrange, -, hbytes⟩ := dirtyRun_bytes hd.holds hids
  refine ⟨_, mem_map_of_mem hids, ?_⟩
  rw [hrange, mem_range'_1] at hmem
  simp only [runBlocks, hbytes, length_flatMap_blocks fun i _ => a.length_blocks _,
    length_range, Nat.mul_div_cancel _ a.blockSize_pos]
  exact hmem

/-- `flush` leaves the array's bytes on the inner device. The invariant of its loop is that the
inner device holds them for the blocks that were not dirty and for the runs written so far. -/
theorem flush_spec (hd : Coherent a d) :
    Triple (· = d) flush (fun _ d' => Synced a Set.univ d') := by
  refine get_bind fun d' hd' => ?_
  subst hd'
  have hloop := forM_list (ε := BlockDeviceError)
    (f := fun (run : ℕ × List UInt8) => flushRun run.1 run.2)
    (fun done => Synced a ({id | id ∉ dirtyBlocks d'.state} ∪
      {id | ∃ run ∈ done, id ∈ runBlocks a run})) (collectDirtyRuns d'.state) ?_
  · refine bind (hloop.conseq ?_ fun _ _ h => h) fun _ => ?_
    · grind [hd.synced_notMem_dirtyBlocks.mono]
    intro s hs
    refine ⟨(), s, innerCall_run s hs.1.faults, hs.mono fun id _ => ?_⟩
    by_cases hid : id ∈ dirtyBlocks d'.state
    · exact .inr (exists_run_of_mem_dirtyBlocks hd hid)
    · exact .inl hid
  rintro done run rest hsplit
  have hrun : run ∈ collectDirtyRuns d'.state := by simp [hsplit]
  obtain ⟨ids, hids, rfl⟩ := mem_map.mp hrun
  obtain ⟨-, hle, hbytes⟩ := dirtyRun_bytes hd.holds hids
  refine (flushRun_spec hle hbytes).conseq (fun _ h => h) fun _ s hs => hs.mono ?_
  rintro id (hid | ⟨run, hmem, hid⟩)
  · exact .inl (.inl hid)
  · grind

/-! ## Runs -/

/-- The condition under which a request keeps the relation: a `read_blocks` fetches no block that is
cached dirty. -/
def Op.Safe (op : Op) (d : CachedBlockDevice) : Prop :=
  match op with
  | .readBlocks start buffer =>
    let total := buffer.length / d.inner.blockSize
    readsClean start total total 0 buffer d = true
  | _ => True

/-- Every request of a run is safe in the state it finds. -/
def SafeRun (d : CachedBlockDevice) : List Op → Prop
  | [] => True
  | op :: ops => op.Safe d ∧ SafeRun (d.exec op).2 ops

/-- A safe request does what the array does. -/
theorem exec_refines (hd : Coherent a d) {op : Op} (hrange : op.InRange a) (hsafe : op.Safe d) :
    (d.exec op).1 = (a.exec op).1 ∧ Coherent (a.exec op).2 (d.exec op).2 := by
  cases op with
  | readSingleBlock id buffer =>
    by_cases hlen : buffer.length < a.blockSize
    · simp [exec, Op.command, readSingleBlock, Disk.exec, hd.blockSize, hlen, hd]
    · obtain ⟨d', hrun, hd'⟩ := readSingleBlock_run hd (Nat.not_lt.mp hlen) hrange
      grind [exec, Op.command, Disk.exec]
  | readBlocks start buffer =>
    by_cases hdvd : a.blockSize ∣ buffer.length
    · simp only [Op.Safe, hd.blockSize] at hsafe
      obtain ⟨d', hrun, hd'⟩ := readBlocks_run hd hdvd hrange hsafe
      grind [exec, Op.command, Disk.exec]
    · simp [exec, Op.command, readBlocks, Disk.exec, hd.blockSize, hdvd, hd]
  | writeSingleBlock id buffer =>
    by_cases hlen : a.blockSize ≤ buffer.length
    · obtain ⟨d', hrun, hd'⟩ := writeSingleBlock_run hd hrange hlen (length_take_of_le hlen)
      grind [exec, Op.command, Disk.exec]
    simp only [exec, Op.command, writeSingleBlock, EStateM.run_bind,
      EStateM.run_get, EStateM.run_throw, hd.blockSize, if_pos (Nat.not_le.mp hlen), Disk.exec,
      dif_neg hlen]
    exact ⟨trivial, hd⟩
  | writeBlocks start buffer =>
    by_cases hdvd : a.blockSize ∣ buffer.length
    · obtain ⟨d', hrun, hd'⟩ := writeBlocks_run hd hdvd hrange
      grind [exec, Op.command, Disk.exec]
    · simp only [exec, Op.command, writeBlocks, EStateM.run_bind,
        EStateM.run_get, EStateM.run_throw, hd.blockSize, if_pos hdvd, Disk.exec]
      exact ⟨trivial, hd⟩
  | flush =>
    obtain ⟨_, d', hrun, hd'⟩ := flush_spec hd d rfl
    simp only [exec, Op.command, EStateM.run_bind, hrun, EStateM.run_pure, Disk.exec]
    exact ⟨trivial, hd'.1⟩

/-- A request in range stays so. -/
theorem Op.inRange_exec {op op' : Op} (h : op.InRange a) : op.InRange (a.exec op').2 := by
  obtain ⟨hbs, htb⟩ := a.exec_geometry op'
  cases op <;> simp only [Op.InRange, hbs, htb] at h ⊢ <;> exact h

/-- A safe run answers as the array does. -/
theorem run_refines (hd : Coherent a d) (ops : List Op) (hrange : ∀ op ∈ ops, op.InRange a)
    (hsafe : SafeRun d ops) :
    (d.run ops).1 = (a.run ops).1 ∧ Coherent (a.run ops).2 (d.run ops).2 := by
  induction ops generalizing a d with
  | nil => exact ⟨rfl, hd⟩
  | cons op ops ih =>
  obtain ⟨hout, hd'⟩ := exec_refines hd (hrange op mem_cons_self) hsafe.1
  obtain ⟨houts, hd''⟩ := ih hd'
    (fun op' h => Op.inRange_exec (hrange op' (mem_cons_of_mem op h))) hsafe.2
  grind [run, Disk.run]

/-- The last request of a run. -/
theorem CachedBlockDevice.run_append_singleton (d : CachedBlockDevice) (ops : List Op) (op : Op) :
    (d.run (ops ++ [op])).2 = ((d.run ops).2.exec op).2 := by
  induction ops generalizing d with
  | nil => rfl
  | cons op' ops ih => exact ih (d.exec op').2

/-- The first requests of a safe run. -/
theorem SafeRun.of_prefix {ops ops' : List Op} (h : SafeRun d (ops ++ ops')) : SafeRun d ops := by
  induction ops generalizing d with
  | nil => trivial
  | cons op ops ih => exact ⟨h.1, ih h.2⟩

/-- The cache over a device that never fails refines the plain array: along a run of requests in
range, none of which fetches a block that is cached dirty, every outcome is that of the array, and
after each `flush` the inner device holds the array's contents. -/
theorem cached_run_refines_array (disk : Disk) (hf : disk.faults = []) (maxEntries : ℕ)
    (ops : List Op) (hrange : ∀ op ∈ ops, op.InRange disk)
    (hsafe : SafeRun (withCapacity disk maxEntries) ops) :
    ((withCapacity disk maxEntries).run ops).1 = (disk.run ops).1 ∧
      ∀ done rest, ops = done ++ .flush :: rest →
        ((withCapacity disk maxEntries).run (done ++ [.flush])).2.inner.blocks =
          (disk.run done).2.blocks := by
  have hnew := coherent_withCapacity disk hf maxEntries
  refine ⟨(run_refines hnew ops hrange hsafe).1, ?_⟩
  rintro done rest rfl
  obtain ⟨-, hd⟩ := run_refines hnew done (fun op h => hrange op (mem_append_left _ h))
    hsafe.of_prefix
  obtain ⟨_, d', hrun, hsync⟩ := flush_spec hd _ rfl
  rw [run_append_singleton]
  simp only [exec, Op.command, EStateM.run_bind, hrun]
  funext id
  exact hsync.2 id (Set.mem_univ id)

/-- A disk of two blocks of one byte. -/
def twoBlocks : Disk where
  blockSize := 1
  totalBlocks := 2
  blocks _ := [0]
  faults := []
  blockSize_pos := Nat.one_pos
  length_blocks _ := rfl

/-- A read over both blocks of the disk after each of them is cached, then a flush. -/
theorem cached_run_refines_array_twoBlocks :
    let ops := [.readBlocks 0 [9, 9], .writeSingleBlock 1 [7], .readBlocks 0 [9, 9], .flush]
    SafeRun (withCapacity twoBlocks 4) ops ∧
      ((withCapacity twoBlocks 4).run ops).1 = (twoBlocks.run ops).1 := by
  intro ops
  have hsafe : SafeRun (withCapacity twoBlocks 4) ops :=
    ⟨show readsClean 0 2 2 0 _ _ = true by decide, trivial,
      show readsClean 0 2 2 0 _ _ = true by decide, trivial, trivial⟩
  exact ⟨hsafe, (cached_run_refines_array twoBlocks rfl 4 ops (by decide) hsafe).1⟩

/-- The block 1 is written and cached dirty; a `read_blocks` that misses on the block 0 fetches
both, and the bytes written are lost. -/
theorem run_loses_write : let ops := [.writeSingleBlock 1 [7], .readBlocks 0 [9, 9]]
    twoBlocks.faults = [] ∧ (∀ op ∈ ops, op.InRange twoBlocks) ∧
      ((withCapacity twoBlocks 4).run ops).1 = [.ok (1, [7]), .ok (2, [0, 0])] ∧
      (twoBlocks.run ops).1 = [.ok (1, [7]), .ok (2, [0, 7])] := by
  exact ⟨rfl, by decide, by decide, by decide⟩

end Seele.BlockDevice
