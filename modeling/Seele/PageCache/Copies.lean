import Seele.PageCache.Clock

/-!
# Copies of cached file pages

`copy_cached_file_page` copies a range of a file out of one cluster of the page cache, the one that
holds the start of the range, and fills the rest with zeros. `copyCachedFilePage_eq_iff` says when
this is what the file holds: a cluster that is cached already must agree with the file, and the
bytes of the range behind the end of the cluster must be zeros, as they are if there are none. A
cluster is loaded by reads that may be short (`loadLoop_eq`).
-/

namespace Seele.PageCache

open List

/-- A file, and by how much a read at an offset falls short. -/
structure File where
  content : List UInt8
  short : ℕ → ℕ → ℕ

/-- The byte at an offset, and zero behind the end. -/
def File.byte (file : File) (i : ℕ) : UInt8 := file.content.getD i 0

/-- `read_at`: it returns at least one byte if there is one to read. -/
def File.readAt (file : File) (len offset : ℕ) : List UInt8 :=
  ((file.content.drop offset).take len).take (max 1 (len - file.short len offset))

/-- `cluster_len`. -/
def clusterLen : ℕ := 4096 * FILE_CACHE_CLUSTER_PAGES

/-- The loop of `load_cluster`, with what was read. Every round but the last reads a byte, so that
the number of bytes is enough fuel. -/
def loadLoop (file : File) (clusterOffset targetLen : ℕ) : ℕ → List UInt8 → List UInt8
  | 0, done => done
  | fuel + 1, done =>
    if done.length < targetLen then
      let bytes := file.readAt (targetLen - done.length) (clusterOffset + done.length)
      if bytes = [] then done else loadLoop file clusterOffset targetLen fuel (done ++ bytes)
    else done

/-- `load_cluster`. -/
def loadCluster (file : File) (clusterOffset fileSize : ℕ) : CachedCluster :=
  let targetLen := min clusterLen (fileSize - clusterOffset)
  let bytes := loadLoop file clusterOffset targetLen targetLen []
  ⟨bytes ++ List.replicate (clusterLen - bytes.length) 0, bytes.length⟩

variable {file : File}

/-- The loop reads up to its target, from wherever it is. -/
theorem loadLoop_eq {offset target fuel n : ℕ} (htarget : target ≤ file.content.length - offset)
    (hn : n ≤ target) (hfuel : target ≤ n + fuel) :
    loadLoop file offset target fuel ((file.content.drop offset).take n) =
      (file.content.drop offset).take target := by
  induction fuel generalizing n with
  | zero => rw [loadLoop, Nat.le_antisymm hn (by omega)]
  | succ fuel ih =>
  have hlength : ((file.content.drop offset).take n).length = n := by
    rw [length_take, length_drop]
    omega
  rw [loadLoop, hlength]
  by_cases hlt : n < target
  · -- the bytes of one read come right behind
    have hread : file.readAt (target - n) (offset + n) = ((file.content.drop offset).drop n).take
        (min (target - n) (max 1 (target - n - file.short (target - n) (offset + n)))) := by
      rw [File.readAt, take_take, drop_drop, Nat.min_comm]
    generalize hstep : min (target - n)
      (max 1 (target - n - file.short (target - n) (offset + n))) = step at hread
    have hnonempty : file.readAt (target - n) (offset + n) ≠ [] := by
      rw [hread, ← length_pos_iff, length_take, length_drop, length_drop]
      omega
    rw [if_pos hlt, if_neg hnonempty, hread, ← take_add]
    exact ih (by omega) (by omega)
  · rw [if_neg hlt, Nat.le_antisymm hn (Nat.not_lt.mp hlt)]

/-- A cluster that is loaded holds the bytes of the file. -/
theorem loadCluster_spec (file : File) (offset : ℕ) :
    (loadCluster file offset file.content.length).validLen =
        min clusterLen (file.content.length - offset) ∧
      ∀ i < min clusterLen (file.content.length - offset),
        (loadCluster file offset file.content.length).data.getD i 0 = file.byte (offset + i) := by
  generalize htarget : min clusterLen (file.content.length - offset) = target
  have hload := loadLoop_eq (n := 0) (htarget ▸ Nat.min_le_right ..)
    (Nat.zero_le target) (Nat.le_add_left target 0)
  rw [take_zero] at hload
  have hlength : ((file.content.drop offset).take target).length = target := by
    rw [length_take, length_drop]
    omega
  unfold loadCluster
  simp only [htarget, hload]
  refine ⟨hlength, fun i hi => ?_⟩
  rw [File.byte, getD_eq_getElem?_getD, getD_eq_getElem?_getD,
    getElem?_append_left (hlength.symm ▸ hi), getElem?_take_of_lt hi, getElem?_drop]

/-- The byte at a place of a cluster, and zero behind those that are valid. -/
def CachedCluster.byte (cluster : CachedCluster) (i : ℕ) : UInt8 :=
  if i < cluster.validLen then cluster.data.getD i 0 else 0

/-- A cluster that is loaded agrees with the file, also behind its end. -/
theorem loadCluster_byte {offset i : ℕ} (hi : i < clusterLen) :
    (loadCluster file offset file.content.length).byte i = file.byte (offset + i) := by
  obtain ⟨hvalid, hdata⟩ := loadCluster_spec file offset
  rw [CachedCluster.byte, hvalid]
  split_ifs with hlt
  · exact hdata i hlt
  · rw [File.byte, getD_eq_getElem?_getD, getElem?_eq_none (by omega)]
    rfl

/-- The clusters that are cached under the identity of a file: whatever they hold, they are not
longer than a cluster. -/
structure FileCache where
  clusters : ℕ → Option CachedCluster
  sized : ∀ index cluster, clusters index = some cluster → cluster.validLen ≤ clusterLen

variable (cache : FileCache)

/-- `get_or_load_cluster`, for a file that is as long as its identity says. -/
def getOrLoadCluster (file : File) (pageIndex : ℕ) : CachedCluster × FileCache :=
  let index := pageIndex / FILE_CACHE_CLUSTER_PAGES
  match cache.clusters index with
  | some cluster => (cluster, cache)
  | none =>
    let cluster := loadCluster file (index * clusterLen) file.content.length
    (cluster, {
      clusters := Function.update cache.clusters index (some cluster)
      sized := by
        intro other found hfound
        by_cases hother : other = index
        · rw [hother, Function.update_self] at hfound
          rw [← Option.some.inj hfound, (loadCluster_spec ..).1]
          exact Nat.min_le_left ..
        · rw [Function.update_of_ne hother] at hfound
          exact cache.sized other found hfound })

/-- `copy_cached_file_page`: what it leaves in the destination. -/
def copyCachedFilePage (file : File) (fileOffset readLen : ℕ) : List UInt8 × FileCache :=
  if readLen = 0 then ([], cache)
  else
    let (cached, cache) := getOrLoadCluster cache file (fileOffset / 4096)
    let clusterOffset := fileOffset % clusterLen
    let copyLen := min (cached.validLen - clusterOffset) readLen
    ((List.range readLen).map fun i =>
      if i < copyLen then cached.data.getD (clusterOffset + i) 0 else 0, cache)

/-- What the copy holds: the bytes of the cluster up to its end, and zeros. -/
theorem copyCachedFilePage_eq (fileOffset readLen : ℕ) :
    (copyCachedFilePage cache file fileOffset readLen).1 = (List.range readLen).map fun i =>
      (getOrLoadCluster cache file (fileOffset / 4096)).1.byte (fileOffset % clusterLen + i) := by
  unfold copyCachedFilePage
  split
  · next hzero => rw [hzero]; rfl
  refine map_congr_left fun i hi => ?_
  have hi := mem_range.mp hi
  unfold CachedCluster.byte
  split_ifs <;> first | rfl | omega

/-- The cluster that holds an offset, if it is cached, has the bytes of the file from the offset up
to the end of the range or of the cluster. -/
def FileCache.Agrees (file : File) (fileOffset readLen : ℕ) : Prop :=
  ∀ cluster, cache.clusters (fileOffset / clusterLen) = some cluster → ∀ i < readLen,
    fileOffset % clusterLen + i < clusterLen →
      cluster.byte (fileOffset % clusterLen + i) = file.byte (fileOffset + i)

/-- The cluster that holds an offset: the cached one, or one that agrees with the file. -/
theorem getOrLoadCluster_cases (file : File) (fileOffset : ℕ) :
    let cluster := (getOrLoadCluster cache file (fileOffset / 4096)).1
    cluster.validLen ≤ clusterLen ∧ (cache.clusters (fileOffset / clusterLen) = some cluster ∨
      cache.clusters (fileOffset / clusterLen) = none ∧
      ∀ i, fileOffset % clusterLen + i < clusterLen →
        cluster.byte (fileOffset % clusterLen + i) = file.byte (fileOffset + i)) := by
  have hindex : fileOffset / 4096 / FILE_CACHE_CLUSTER_PAGES = fileOffset / clusterLen :=
    Nat.div_div_eq_div_mul ..
  unfold getOrLoadCluster
  simp only [hindex]
  cases hcached : cache.clusters (fileOffset / clusterLen) with
  | some cluster => exact ⟨cache.sized _ _ hcached, .inl rfl⟩
  | none =>
  refine ⟨(loadCluster_spec ..).1 ▸ Nat.min_le_left .., .inr ⟨rfl, fun i hi => ?_⟩⟩
  rw [loadCluster_byte hi, ← Nat.add_assoc, Nat.div_add_mod']

/-- The copy holds the bytes of the file if the cluster, where it is cached already, agrees with the
file, and those of the range that lie behind the end of the cluster are zeros. -/
theorem copyCachedFilePage_eq_iff (cache : FileCache) (file : File) (fileOffset readLen : ℕ) :
    (copyCachedFilePage cache file fileOffset readLen).1 =
        (List.range readLen).map (fun i => file.byte (fileOffset + i)) ↔
      cache.Agrees file fileOffset readLen ∧
      ∀ i, (fileOffset / clusterLen + 1) * clusterLen ≤ i → i < fileOffset + readLen →
        file.byte i = 0 := by
  obtain ⟨hlen, hcases⟩ := getOrLoadCluster_cases cache file fileOffset
  rw [copyCachedFilePage_eq, map_inj_left]
  generalize (getOrLoadCluster cache file (fileOffset / 4096)).1 = cluster at hlen hcases
  -- Behind its end, the cluster gives zeros.
  have hzero : ∀ i, clusterLen ≤ i → cluster.byte i = 0 := fun i hi => if_neg (by omega)
  have hplace := Nat.div_add_mod' fileOffset clusterLen
  have hmod := Nat.mod_lt fileOffset (show 0 < clusterLen by decide)
  simp only [Nat.add_one_mul]
  generalize fileOffset / clusterLen * clusterLen = base at hplace ⊢
  constructor
  · refine fun h => ⟨fun found hfound i hi hinside => ?_, fun i hend hi => ?_⟩
    · obtain hcached | ⟨hnone, -⟩ := hcases
      · obtain rfl := Option.some.inj (hcached.symm.trans hfound)
        exact h i (mem_range.mpr hi)
      · rw [hnone] at hfound
        cases hfound
    · have hbyte := h (i - fileOffset) (mem_range.mpr (by omega))
      rw [hzero _ (by omega), Nat.add_sub_cancel' (by omega)] at hbyte
      exact hbyte.symm
  rintro ⟨hagrees, hbehind⟩ i hi
  have hi := mem_range.mp hi
  by_cases hinside : fileOffset % clusterLen + i < clusterLen
  · obtain hcached | ⟨-, hbytes⟩ := hcases
    · exact hagrees cluster hcached i hi hinside
    · exact hbytes i hinside
  · rw [hzero _ (Nat.not_lt.mp hinside), hbehind _ (by omega) (by omega)]

/-- A file of ones. -/
def ones : File := ⟨List.replicate 70000 1, fun _ _ => 0⟩

/-- Of a range that begins with the last byte of a cluster, the next byte is lost. -/
theorem copy_across_clusters :
    (copyCachedFilePage ⟨fun _ => none, nofun⟩ ones 65535 2).1 = [1, 0] ∧
      (List.range 2).map (fun i => ones.byte (65535 + i)) = [1, 1] := by
  have hbyte : ∀ i < 70000, ones.byte i = 1 := by
    intro i hi
    rw [File.byte, getD_eq_getElem?_getD, ones, getElem?_replicate_of_lt hi]
    rfl
  constructor
  · obtain ⟨hlen, hcached | ⟨-, hbytes⟩⟩ :=
      getOrLoadCluster_cases ⟨fun _ => none, nofun⟩ ones 65535
    · cases hcached
    rw [copyCachedFilePage_eq]
    generalize (getOrLoadCluster ⟨fun _ => none, nofun⟩ ones (65535 / 4096)).1 = cluster at *
    show [cluster.byte (65535 % clusterLen + 0), cluster.byte 65536] = _
    rw [hbytes 0 (by decide), hbyte _ (by decide)]
    exact congrArg ([1, ·]) (if_neg (Nat.not_lt.mpr hlen))
  · show [ones.byte 65535, ones.byte 65536] = _
    rw [hbyte _ (by decide), hbyte _ (by decide)]

end Seele.PageCache
