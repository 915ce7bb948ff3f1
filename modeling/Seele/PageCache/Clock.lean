import Mathlib.Data.List.AList
import Seele.Lib.GuardedRun

/-!
# The clock of `filesystem/page_cache.rs`

`PageCacheState` maps the clusters of files to their bytes, each with a reference bit, and queues
their keys for eviction. `evict_one` gives a referenced entry a second chance: it clears the bit and
queues the key again. Keys that are queued but no longer cached, because `invalidate_file` removes
entries and leaves the queue alone, are dropped when they come up.

The loop of `evict_one` ends because every round takes a key off the queue for good or clears a
reference bit (`PageCacheState.work`). Every cached key stays queued, so `insert` always makes room
for the new entry. That no key is queued twice needs a condition: a key that was invalidated must
have left the queue before it is cached again (`run_faithful`).
-/

namespace Seele.PageCache

open Seele.Lib AList

/-! ## The state and its operations -/

/-- `FileCacheKey`. -/
structure FileCacheKey where
  deviceId : ℕ
  inode : ℕ
deriving DecidableEq, Repr

/-- `CachedClusterKey`. -/
structure CachedClusterKey where
  file : FileCacheKey
  clusterIndex : ℕ
deriving DecidableEq, Repr

/-- `CachedCluster`: the bytes of a cluster, of which the first `validLen` are those of the file. -/
structure CachedCluster where
  data : List UInt8
  validLen : ℕ
deriving DecidableEq, Repr

/-- `CachedClusterEntry`. -/
structure CachedClusterEntry where
  cluster : CachedCluster
  referenced : Bool
deriving DecidableEq, Repr

/-- `PageCacheState`. -/
structure PageCacheState where
  entries : AList fun _ : CachedClusterKey => CachedClusterEntry
  evictionQueue : List CachedClusterKey

open PageCacheState

/-- `FILE_CACHE_CLUSTER_PAGES`. -/
def FILE_CACHE_CLUSTER_PAGES : ℕ := 16

/-- `MAX_CACHED_PAGES`. -/
def MAX_CACHED_PAGES : ℕ := 16384

/-- `MAX_CACHED_CLUSTERS`. -/
def MAX_CACHED_CLUSTERS : ℕ := MAX_CACHED_PAGES / FILE_CACHE_CLUSTER_PAGES

/-- `PageCacheState::new`. -/
def PageCacheState.new : PageCacheState := ⟨∅, []⟩

/-- `entries.len()`. -/
def PageCacheState.len (s : PageCacheState) : ℕ := s.entries.keys.length

/-- The cluster is cached with its reference bit set. -/
def PageCacheState.isReferenced (s : PageCacheState) (key : CachedClusterKey) : Bool :=
  match s.entries.lookup key with
  | none => false
  | some entry => entry.referenced

/-- How many rounds `evict_one` can still take: every one of them either takes a key off the queue
for good or clears a reference bit. -/
def PageCacheState.work (s : PageCacheState) : ℕ :=
  s.evictionQueue.length + s.entries.keys.countP s.isReferenced

/-- `touch`. -/
def PageCacheState.touch (s : PageCacheState) (key : CachedClusterKey) : PageCacheState :=
  match s.entries.lookup key with
  | none => s
  | some entry => { s with entries := s.entries.insert key { entry with referenced := true } }

/-- The state after `evict_one` has given `candidate`, the head of the queue, a second chance. -/
def PageCacheState.spare (s : PageCacheState) (candidate : CachedClusterKey)
    (entry : CachedClusterEntry) (queue : List CachedClusterKey) : PageCacheState where
  entries := s.entries.insert candidate { entry with referenced := false }
  evictionQueue := queue ++ [candidate]

variable {candidate : CachedClusterKey} {entry : CachedClusterEntry}

/-- Sparing an entry clears its bit. -/
theorem PageCacheState.countP_spare (s : PageCacheState) (queue : List CachedClusterKey)
    (hentry : s.entries.lookup candidate = some entry) (href : entry.referenced = true) :
    (s.spare candidate entry queue).entries.keys.countP
        (s.spare candidate entry queue).isReferenced + 1 =
      s.entries.keys.countP s.isReferenced := by
  have hmem : candidate ∈ s.entries.keys := by
    rw [← mem_keys, ← lookup_isSome, hentry]
    rfl
  have hself : (s.spare candidate entry queue).isReferenced candidate = false := by
    simp [isReferenced, spare]
  have hother : ∀ key ∈ s.entries.keys.erase candidate,
      (s.spare candidate entry queue).isReferenced key = s.isReferenced key := by
    grind [s.entries.keys_nodup.mem_erase_iff.mp, isReferenced, spare, lookup_insert_ne]
  have hbefore : s.isReferenced candidate = true := by grind [isReferenced]
  have hkeys : (s.spare candidate entry queue).entries.keys =
      candidate :: s.entries.keys.erase candidate := keys_insert s.entries
  rw [hkeys, List.countP_cons, hself, List.countP_congr fun key hkey => by rw [hother key hkey],
    (List.perm_cons_erase hmem).countP_eq, List.countP_cons, hbefore]
  rfl

/-- The loop of `evict_one`, with the entry that it removes. -/
def PageCacheState.evictLoop (s : PageCacheState) :
    Option (CachedClusterKey × CachedClusterEntry) × PageCacheState :=
  match _hqueue : s.evictionQueue with
  | [] => (none, s)
  | candidate :: queue =>
    match _hentry : s.entries.lookup candidate with
    | none => evictLoop { s with evictionQueue := queue }
    | some entry =>
      if _href : entry.referenced then (s.spare candidate entry queue).evictLoop
      else (some (candidate, entry), ⟨s.entries.erase candidate, queue⟩)
termination_by s.work
decreasing_by
  · have hsame : ({ s with evictionQueue := queue } : PageCacheState).isReferenced =
        s.isReferenced := rfl
    simp only [work, _hqueue, hsame, List.length_cons]
    omega
  · have hcount := s.countP_spare queue _hentry _href
    have hlength : (s.spare candidate entry queue).evictionQueue.length = queue.length + 1 := by
      simp [spare]
    simp only [work, _hqueue, hlength, List.length_cons]
    omega

/-- `evict_one`. -/
def PageCacheState.evictOne (s : PageCacheState) : PageCacheState :=
  s.evictLoop.2

/-- The loop of `insert` that makes room for a new entry. Every round but the last leaves fewer
entries, so that their number and one more round are enough fuel. -/
def PageCacheState.makeRoomLoop : ℕ → PageCacheState → PageCacheState
  | 0, s => s
  | fuel + 1, s =>
    if MAX_CACHED_CLUSTERS ≤ s.len then
      if s.evictOne.len = s.len then s.evictOne
      else makeRoomLoop fuel s.evictOne
    else s

variable (s : PageCacheState)

/-- The state in which `insert` queues a key that is not cached. -/
def PageCacheState.makeRoom : PageCacheState :=
  makeRoomLoop (s.len + 1) s

/-- `insert`. -/
def PageCacheState.insert (key : CachedClusterKey) (cluster : CachedCluster) :
    PageCacheState :=
  let s := if key ∈ s.entries then s else
    { s.makeRoom with evictionQueue := s.makeRoom.evictionQueue ++ [key] }
  { s with entries := s.entries.insert key ⟨cluster, true⟩ }

/-- `invalidate_file`: the entries of the file are removed, and the queue stays as it is. -/
def PageCacheState.invalidateFile (file : FileCacheKey) : PageCacheState :=
  { s with
    entries := (s.entries.keys.filter fun key => decide (key.file = file)).foldl
      (fun entries key => entries.erase key) s.entries }

/-! ## Eviction -/

/-- Every cached key is queued. -/
def PageCacheState.Queued : Prop :=
  ∀ key ∈ s.entries, key ∈ s.evictionQueue

variable {s : PageCacheState}

variable (queue : List CachedClusterKey) (hentry : s.entries.lookup candidate = some entry)

include hentry

/-- Sparing keeps the entries. -/
theorem PageCacheState.mem_spare (key : CachedClusterKey) :
    key ∈ (s.spare candidate entry queue).entries ↔ key ∈ s.entries := by
  grind [lookup_isSome, spare, mem_insert]

/-- Sparing keeps the keys. -/
theorem PageCacheState.keys_spare :
    s.entries.keys.Perm (s.spare candidate entry queue).entries.keys := by
  grind [mem_keys, lookup_isSome, spare, keys_insert]

omit hentry

variable {queue : List CachedClusterKey}

variable (h : s.Queued) (hqueue : s.evictionQueue = candidate :: queue)

include h hqueue

/-- A spared entry stays queued. -/
theorem PageCacheState.Queued.spare (hentry : s.entries.lookup candidate = some entry) :
    (s.spare candidate entry queue).Queued := by
  intro key hkey
  have hmem := h key ((s.mem_spare queue hentry key).mp hkey)
  grind [spare]

/-- A key without an entry may go. -/
theorem PageCacheState.Queued.drop (hentry : s.entries.lookup candidate = none) :
    Queued { s with evictionQueue := queue } := by
  intro key hkey
  have hmem := h key hkey
  grind [lookup_eq_none.mp]

omit h hqueue

/-- An eviction keeps the entries queued. -/
theorem PageCacheState.Queued.evictOne (h : s.Queued) : s.evictOne.Queued := by
  unfold PageCacheState.evictOne
  fun_induction evictLoop s with
  | case1 s hqueue => exact h
  | case2 s candidate queue hqueue hentry ih => exact ih (h.drop hqueue hentry)
  | case3 s candidate queue hqueue entry hentry href ih => exact ih (h.spare hqueue hentry)
  | case4 s candidate queue hqueue entry hentry href =>
  intro key hkey
  obtain ⟨hne, hkey⟩ := mem_erase.mp hkey
  have hmem := h key hkey
  grind

/-- An eviction repeats no key. -/
theorem PageCacheState.evictOne_nodup (h : s.evictionQueue.Nodup) :
    s.evictOne.evictionQueue.Nodup := by
  unfold evictOne
  fun_induction evictLoop s with
  | case1 s hqueue => exact h
  | case2 s candidate queue hqueue hentry ih =>
    rw [hqueue] at h
    exact ih (List.nodup_cons.mp h).2
  | case3 s candidate queue hqueue entry hentry href ih =>
    rw [hqueue] at h
    refine ih ?_
    -- The key moves from the front of the queue to its end.
    exact (List.perm_append_singleton candidate queue).nodup_iff.mpr h
  | case4 s candidate queue hqueue entry hentry href =>
    rw [hqueue] at h
    exact (List.nodup_cons.mp h).2

/-- In a cache that is not empty, `evict_one` removes one entry, whose reference bit is clear when
it goes. -/
theorem PageCacheState.evictLoop_spec (h : s.Queued) (hpos : 0 < s.len) :
    ∃ key entry, s.evictLoop.1 = some (key, entry) ∧ entry.referenced = false ∧
      s.entries.keys.Perm (key :: s.evictOne.entries.keys) := by
  unfold evictOne
  fun_induction evictLoop s with
  | case1 s hqueue =>
    -- The queue holds all keys, so it is not empty.
    obtain ⟨key, hkey⟩ := List.length_pos_iff_exists_mem.mp hpos
    have hmem := h key (mem_keys.mpr hkey)
    rw [hqueue] at hmem
    exact absurd hmem List.not_mem_nil
  | case2 s candidate queue hqueue hentry ih => exact ih (h.drop hqueue hentry) hpos
  | case3 s candidate queue hqueue entry hentry href ih =>
    have hperm := s.keys_spare queue hentry
    grind [len, hperm.length_eq, h.spare]
  | case4 s candidate queue hqueue entry hentry href => grind [mem_keys, lookup_isSome, keys_erase]

/-- An eviction removes an entry. -/
theorem PageCacheState.Queued.evictOne_len (h : s.Queued) (hpos : 0 < s.len) :
    s.evictOne.len + 1 = s.len := by
  obtain ⟨key, entry, -, -, hkeys⟩ := s.evictLoop_spec h hpos
  exact hkeys.length_eq.symm

/-! ## Making room -/

/-- What an eviction keeps, making room keeps. -/
theorem PageCacheState.makeRoom_induct {P : PageCacheState → Prop}
    (hstep : ∀ s : PageCacheState, P s → P s.evictOne) (h : P s) : P s.makeRoom := by
  have hloop : ∀ fuel (s : PageCacheState), P s → P (makeRoomLoop fuel s) := by
    intro fuel
    induction fuel with
    | zero => exact fun s hs => hs
    | succ fuel ih =>
      intro s hs
      grind [makeRoomLoop]
  exact hloop _ s h

/-- With more fuel than there are entries, the loop ends with room for one more entry: every round
removes one. -/
theorem PageCacheState.makeRoomLoop_len :
    ∀ (fuel : ℕ) (s : PageCacheState), s.Queued → s.len < fuel →
      (makeRoomLoop fuel s).len < MAX_CACHED_CLUSTERS
  | 0, s, _, hfuel => absurd hfuel (Nat.not_lt_zero _)
  | fuel + 1, s, hqueued, hfuel => by
    unfold makeRoomLoop
    by_cases hfull : MAX_CACHED_CLUSTERS ≤ s.len
    · have hpos : 0 < s.len := Nat.lt_of_lt_of_le (by decide) hfull
      have hlen := hqueued.evictOne_len hpos
      rw [if_pos hfull, if_neg (by omega)]
      exact makeRoomLoop_len fuel s.evictOne hqueued.evictOne (by omega)
    · rw [if_neg hfull]
      exact Nat.lt_of_not_le hfull

/-- There is room then. -/
theorem PageCacheState.Queued.makeRoom_len (h : s.Queued) : s.makeRoom.len < MAX_CACHED_CLUSTERS :=
  makeRoomLoop_len (s.len + 1) s h (Nat.lt_succ_self _)

/-! ## The invariant -/

/-- The cache is bounded and every cached key is queued. -/
structure PageCacheState.Bounded (s : PageCacheState) : Prop where
  queued : s.Queued
  len_le : s.len ≤ MAX_CACHED_CLUSTERS

variable {key : CachedClusterKey}

/-- An insertion adds at most one. -/
theorem len_insert_le {entries : AList fun _ : CachedClusterKey => CachedClusterEntry}
    : (entries.insert key entry).keys.length ≤ entries.keys.length + 1 ∧
      (key ∈ entries → (entries.insert key entry).keys.length = entries.keys.length) := by
  grind [keys_insert, mem_keys.mp]

/-- An entry is replaced. -/
theorem PageCacheState.Bounded.replace (h : s.Bounded)
    (hmem : key ∈ s.entries) (entry : CachedClusterEntry) :
    Bounded { s with entries := s.entries.insert key entry } := by
  refine ⟨fun other hother => ?_, ?_⟩
  · rcases (mem_insert s.entries).mp hother with rfl | hold
    · exact h.queued other hmem
    · exact h.queued other hold
  · exact Nat.le_trans (Nat.le_of_eq ((len_insert_le).2 hmem)) h.len_le

/-- An insertion keeps the bound. -/
theorem PageCacheState.Bounded.insert (h : s.Bounded) (key : CachedClusterKey)
    (cluster : CachedCluster) : (s.insert key cluster).Bounded := by
  unfold PageCacheState.insert
  split_ifs with hmem
  · exact h.replace hmem _
  have hroom := h.queued.makeRoom_len
  have hqueued : s.makeRoom.Queued :=
    makeRoom_induct (fun _ hs => hs.evictOne) h.queued
  refine ⟨fun other hother => ?_, ?_⟩
  · rcases (mem_insert s.makeRoom.entries).mp hother with rfl | hold
    · exact List.mem_append_right _ (List.mem_singleton.mpr rfl)
    · exact List.mem_append_left _ (hqueued other hold)
  · exact Nat.le_trans (len_insert_le).1 hroom

/-- A touch keeps the bound. -/
theorem PageCacheState.Bounded.touch (h : s.Bounded) (key : CachedClusterKey) :
    (s.touch key).Bounded := by
  unfold PageCacheState.touch
  cases hentry : s.entries.lookup key with
  | none => exact h
  | some entry =>
  have hmem : key ∈ s.entries := by
    rw [← lookup_isSome, hentry]
    rfl
  exact h.replace hmem _

/-- An eviction adds nothing. -/
theorem PageCacheState.evictOne_len_le (s : PageCacheState) : s.evictOne.len ≤ s.len := by
  unfold evictOne
  fun_induction evictLoop s with
  | case1 s hqueue => exact Nat.le_refl _
  | case2 s candidate queue hqueue hentry ih => exact ih
  | case3 s candidate queue hqueue entry hentry href ih =>
    exact Nat.le_trans ih (Nat.le_of_eq (s.keys_spare queue hentry).length_eq.symm)
  | case4 s candidate queue hqueue entry hentry href =>
    show (s.entries.erase candidate).keys.length ≤ s.entries.keys.length
    rw [keys_erase]
    exact List.length_erase_le

/-- An eviction keeps the bound. -/
theorem PageCacheState.Bounded.evictOne (h : s.Bounded) : s.evictOne.Bounded :=
  ⟨h.queued.evictOne, Nat.le_trans s.evictOne_len_le h.len_le⟩

/-- Erasing adds no key. -/
theorem keys_foldl_erase (keys : List CachedClusterKey)
    (entries : AList fun _ : CachedClusterKey => CachedClusterEntry) :
    (keys.foldl (fun entries key => entries.erase key) entries).keys.Sublist entries.keys := by
  induction keys generalizing entries with
  | nil => exact .refl _
  | cons key keys ih =>
    refine (ih (entries.erase key)).trans ?_
    rw [keys_erase]
    exact List.erase_sublist

/-- An invalidation keeps the bound. -/
theorem PageCacheState.Bounded.invalidateFile (h : s.Bounded) (file : FileCacheKey) :
    (s.invalidateFile file).Bounded := by
  have hsub := keys_foldl_erase (s.entries.keys.filter fun key => decide (key.file = file))
    s.entries
  refine ⟨fun key hkey => ?_, Nat.le_trans hsub.length_le h.len_le⟩
  exact h.queued key (mem_keys.mpr (hsub.subset (mem_keys.mp hkey)))

/-! ## Runs -/

/-- The operations on the cache. -/
inductive CacheOp where
  | insert (key : CachedClusterKey) (cluster : CachedCluster)
  | touch (key : CachedClusterKey)
  | evictOne
  | invalidateFile (file : FileCacheKey)

open CacheOp

/-- The state after an operation. All of them return. -/
def CacheOp.exec : CacheOp → PageCacheState → Option PageCacheState
  | .insert key cluster, s => some (s.insert key cluster)
  | .touch key, s => some (s.touch key)
  | .evictOne, s => some s.evictOne
  | .invalidateFile file, s => some (s.invalidateFile file)

/-- When a key is queued, it is not queued from an earlier time. -/
def CacheOp.Safe : CacheOp → PageCacheState → Prop
  | .insert key _, s => key ∉ s.entries → key ∉ s.makeRoom.evictionQueue
  | _, _ => True

instance CacheOp.Safe.decidable : ∀ (op : CacheOp) (s : PageCacheState), Decidable (op.Safe s)
  | .insert key _, s =>
    inferInstanceAs (Decidable (key ∉ s.entries → key ∉ s.makeRoom.evictionQueue))
  | .touch _, _ => .isTrue trivial
  | .evictOne, _ => .isTrue trivial
  | .invalidateFile _, _ => .isTrue trivial

variable (op : CacheOp) (s s' : PageCacheState)

/-- Every operation keeps the bound. -/
theorem CacheOp.exec_bounded (hexec : op.exec s = some s')
    (h : s.Bounded) : s'.Bounded := by
  cases op with
  | insert key cluster =>
    cases hexec
    exact h.insert key cluster
  | touch key =>
    cases hexec
    exact h.touch key
  | evictOne =>
    cases hexec
    exact h.evictOne
  | invalidateFile file =>
    cases hexec
    exact h.invalidateFile file

/-- A safe operation repeats no key. -/
theorem CacheOp.exec_nodup (hsafe : op.Safe s)
    (hexec : op.exec s = some s') (h : s.evictionQueue.Nodup) : s'.evictionQueue.Nodup := by
  cases op with
  | insert key cluster =>
    cases hexec
    unfold PageCacheState.insert
    split_ifs with hmem
    · exact h
    have hroom : s.makeRoom.evictionQueue.Nodup :=
      makeRoom_induct (P := fun t => t.evictionQueue.Nodup) (fun t => t.evictOne_nodup) h
    refine hroom.append (List.nodup_singleton key) fun other hother hkey => ?_
    obtain rfl := List.mem_singleton.mp hkey
    exact hsafe hmem hother
  | touch key =>
    cases hexec
    grind [PageCacheState.touch]
  | evictOne =>
    cases hexec
    exact s.evictOne_nodup h
  | invalidateFile file =>
    cases hexec
    exact h

/-- After every run from the empty cache it is bounded, every cached key is queued, and `evict_one`
removes an entry whose reference bit is clear, if there is any entry. If no cluster was inserted
while its key was still queued from an earlier time, no key is queued twice. -/
theorem run_faithful (ops : List CacheOp) (s : PageCacheState)
    (hrun : runOps exec ops .new = some s) :
    s.len ≤ MAX_CACHED_CLUSTERS ∧ (∀ key ∈ s.entries, key ∈ s.evictionQueue) ∧
      (SafeRun exec Safe ops .new → s.evictionQueue.Nodup) ∧
      (0 < s.len → ∃ key entry, s.evictLoop.1 = some (key, entry) ∧ entry.referenced = false ∧
        s.entries.keys.Perm (key :: s.evictOne.entries.keys)) := by
  have hnew : new.Bounded :=
    ⟨fun key hkey => absurd hkey (notMem_empty key), Nat.zero_le _⟩
  have hbounded : s.Bounded := runOps_invariant exec_bounded hnew hrun
  refine ⟨hbounded.len_le, hbounded.queued, fun hsafe => ?_, fun hpos => ?_⟩
  · exact hsafe.invariant exec_nodup List.nodup_nil hrun
  · exact s.evictLoop_spec hbounded.queued hpos

/-- The first cluster of a file. -/
def firstCluster : CachedClusterKey := ⟨⟨1, 2⟩, 0⟩

/-- A cluster of which nothing is valid. -/
def emptyCluster : CachedCluster := ⟨[], 0⟩

/-- The first cluster of another file. -/
def otherCluster : CachedClusterKey := ⟨⟨1, 3⟩, 0⟩

/-- A cluster is evicted and cached again, its file is invalidated, and it is cached once more after
its key has left the queue. -/
def cacheAgain : List CacheOp :=
  [.insert firstCluster emptyCluster, .insert otherCluster emptyCluster, .evictOne,
    .insert firstCluster emptyCluster, .touch firstCluster, .invalidateFile firstCluster.file,
    .evictOne, .evictOne, .insert firstCluster emptyCluster]

/-- The run is safe, and the key is queued once. -/
theorem run_faithful_cacheAgain : ∃ s, runOps exec cacheAgain .new = some s ∧
    s.evictionQueue = [firstCluster] ∧ s.evictionQueue.Nodup ∧
      ∃ key entry, s.evictLoop.1 = some (key, entry) ∧ entry.referenced = false ∧
        s.entries.keys.Perm (key :: s.evictOne.entries.keys) := by
  have hend : (runOps exec cacheAgain .new).map (fun s => (s.evictionQueue, s.len)) =
      some ([firstCluster], 1) := by decide +kernel
  obtain ⟨s, hrun, hs⟩ := Option.map_eq_some_iff.mp hend
  obtain ⟨hqueue, hlen⟩ := Prod.mk.inj hs
  have hfaithful := run_faithful cacheAgain s hrun
  refine ⟨s, hrun, hqueue, hfaithful.2.2.1 (by decide +kernel), hfaithful.2.2.2 ?_⟩
  rw [hlen]
  exact Nat.one_pos

/-- The file is invalidated and its cluster cached again: the key is queued twice. -/
theorem reinserted_key_queued_twice :
    (runOps exec [.insert firstCluster emptyCluster, .invalidateFile firstCluster.file,
        .insert firstCluster emptyCluster] .new).map evictionQueue =
      some [firstCluster, firstCluster] := rfl

end Seele.PageCache
