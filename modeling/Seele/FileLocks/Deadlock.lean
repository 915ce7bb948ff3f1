import Seele.FileLocks.Waits

/-!
# The waits-for relation stays acyclic

`LockSystem.WaitsFor` relates an owner with a recorded wait to every owner that holds a conflicting
lock. A grant adds edges to the owner that got the lock: that owner waits for nothing then
(`held_waits_for_nothing`). A recorded wait adds edges from its owner, and `lock_wait_chain_reaches`
is the check that none of them closes a cycle.

The source runs that check for one conflicting owner only, the one with the lowest range, and it
gives up both locks between the check and `set_lock_wait`. `Action.Safe` is the condition under
which neither matters. Along the runs whose actions are safe the relation stays acyclic
(`run_acyclic`); `unchecked_conflict_deadlocks` is a run in which a conflicting owner that is not
checked reaches the requester. A request that is refused would have closed a cycle
(`refused_closes_cycle`): that needs only the part of the condition about the locks.

What a request for a POSIX lock does at every offset comes first (`applyPosixLock_pointwise`).
-/

namespace Seele.FileLocks

open Seele.Lib LockSystem List LockRequest Function Seele.FileLocks.Action Relation Option

/-! ## What a request does to the locks -/

variable {entries : List AdvisoryLock} {o : ℕ}
  {kind : AdvisoryLockApi × AdvisoryLockOwner × AdvisoryLockType}

/-- Merging keeps what is locked at each offset. -/
theorem spans_mergePosixLocks_iff (hbound : ∀ a ∈ entries, rangeEndBound a.range ≤ U64_MAX) :
    (∃ b ∈ mergePosixLocks entries, b.kind = kind ∧ b.range.Spans o) ↔
      ∃ a ∈ entries, a.kind = kind ∧ a.range.Spans o := by
  have hmem : ∀ a, a ∈ entries.insertionSort SortLe ↔ a ∈ entries := fun _ =>
    mem_insertionSort SortLe
  have hsorted := (pairwise_insertionSort SortLe entries).imp SortLe.startLe
  unfold mergePosixLocks
  simp only [← hmem] at hbound ⊢
  generalize entries.insertionSort SortLe = sorted at *
  cases sorted with
  | nil => rfl
  | cons last entries => exact spans_mergeFrom_iff last hbound hsorted

/-- The pieces of a lock end no later. -/
theorem bound_of_mem_subtractLockRange {p lock : AdvisoryLock} {remove : AdvisoryLockRange}
    (hl : rangeEndBound lock.range ≤ U64_MAX) (hp : p ∈ subtractLockRange lock remove) :
    rangeEndBound p.range ≤ U64_MAX := by
  by_cases hover : rangesOverlap lock.range remove = true
  · rcases (mem_subtractLockRange hover).mp hp with ⟨-, rfl⟩ | ⟨removeEnd, -, -, rfl⟩
    · have hstart : remove.start < rangeEndBound lock.range :=
        of_decide_eq_true (Bool.and_eq_true_iff.mp hover).2
      exact Nat.le_of_lt (Nat.lt_of_lt_of_le hstart hl)
    · exact hl
  · grind [subtractLockRange_of_not_overlap]

/-- Merging leaves `flock` locks alone. -/
theorem filter_flock_mergeFrom (last : AdvisoryLock) :
    (mergeFrom last entries).filter (·.api = .flock) =
      (last :: entries).filter (·.api = .flock) := by
  induction entries generalizing last with
  | nil => rfl
  | cons entry entries ih =>
  unfold mergeFrom
  split
  · next hmerge =>
    obtain ⟨hp, hp', -⟩ := canMergePosixLocks_iff.mp hmerge
    rw [ih]
    simp [mergeInto, hp, hp']
  · simp [filter_cons, ih]

/-- Cutting leaves `flock` locks alone. -/
theorem filter_flock_subtractOwned (owner : AdvisoryLockOwner) (range : AdvisoryLockRange) :
    (subtractOwned entries owner range).filter (·.api = .flock) =
      entries.filter (·.api = .flock) := by
  induction entries with
  | nil => rfl
  | cons entry entries ih =>
  have hhead : (cutEntry owner range entry).filter (·.api = .flock) =
      [entry].filter (·.api = .flock) := by
    unfold cutEntry
    split_ifs with hother
    · rfl
    have hposix : entry.api = .posix := by grind
    have hpieces : ∀ p ∈ subtractLockRange entry range, p.api = .posix := by
      grind [subtractLockRange]
    rw [filter_eq_nil_iff.mpr (by simpa using fun p hp => by simp [hpieces p hp])]
    simp [hposix]
  show (cutEntry owner range entry ++ subtractOwned entries owner range).filter _ =
    ([entry] ++ entries).filter _
  rw [filter_append, filter_append, hhead, ih]

/-- The list that `apply_posix_lock` merges: the cut list, and the new lock if there is one. -/
def updatedEntries (entries : List AdvisoryLock) (r : LockRequest) : List AdvisoryLock :=
  subtractOwned entries r.owner r.request.range ++ r.lock.toList

variable {r : LockRequest}

/-- What a POSIX request makes of the entries. -/
theorem grant_posix (hapi : r.api = .posix) :
    r.grant entries = mergePosixLocks (updatedEntries entries r) := by
  unfold grant updatedEntries lock applyPosixLock
  grind

/-- The owner holds a POSIX lock of the type at the offset. -/
def Holds (entries : List AdvisoryLock) (owner : AdvisoryLockOwner) (lockType : AdvisoryLockType)
    (o : ℕ) : Prop :=
  ∃ e ∈ entries, e.api = .posix ∧ e.owner = owner ∧ e.lockType = lockType ∧ e.range.Covers o

variable {holder : AdvisoryLockOwner} {lockType : AdvisoryLockType}

/-- A lock is held at the offsets of its range. -/
theorem holds_iff (ho : o < U64_MAX) : Holds entries holder lockType o ↔
      ∃ e ∈ entries, e.kind = (.posix, holder, lockType) ∧ e.range.Spans o := by
  simp [Holds, AdvisoryLock.kind, covers_iff_spans ho, and_assoc]

variable (hentries : ∀ e ∈ entries, rangeEndBound e.range ≤ U64_MAX)

include hentries

/-- The new entries end no later than they may. -/
theorem bound_updatedEntries (hrequest : rangeEndBound r.request.range ≤ U64_MAX) :
    ∀ p ∈ updatedEntries entries r, rangeEndBound p.range ≤ U64_MAX := by
  intro p hp
  rcases mem_append.mp hp with hp | hp
  · obtain ⟨e, he, hp⟩ := mem_flatMap.mp hp
    rcases mem_cutEntry.mp hp with ⟨rfl, -⟩ | ⟨hp, -⟩
    · exact hentries p he
    · exact bound_of_mem_subtractLockRange (hentries e he) hp
  · grind [LockRequest.lock, map_eq_some_iff]

/-- What is locked at an offset after a request. -/
theorem spans_updatedEntries_iff (hapi : r.api = .posix) :
    (∃ p ∈ updatedEntries entries r, p.kind = (.posix, holder, lockType) ∧ p.range.Spans o) ↔
      (holder = r.owner ∧ r.request.range.Spans o) ∧ r.request.lockType = some lockType ∨
      ¬ (holder = r.owner ∧ r.request.range.Spans o) ∧
        ∃ e ∈ entries, e.kind = (.posix, holder, lockType) ∧ e.range.Spans o := by
  have hcut : ∀ e ∈ entries, (∃ p ∈ cutEntry r.owner r.request.range e,
      p.kind = (.posix, holder, lockType) ∧ p.range.Spans o) ↔
        ¬ (holder = r.owner ∧ r.request.range.Spans o) ∧ e.kind = (.posix, holder, lockType) ∧
          e.range.Spans o := by
    intro e he
    unfold cutEntry
    split_ifs with hother
    · simp only [mem_singleton, exists_eq_left, AdvisoryLock.kind]
      grind
    · rw [spans_subtractLockRange_iff (hentries e he)]
      simp only [AdvisoryLock.kind]
      grind
  have hnew : (∃ p ∈ r.lock.toList, p.kind = (.posix, holder, lockType) ∧ p.range.Spans o) ↔
      (holder = r.owner ∧ r.request.range.Spans o) ∧ r.request.lockType = some lockType := by
    cases hlock : r.request.lockType <;> simp [LockRequest.lock, hlock, hapi, AdvisoryLock.kind]
    grind
  unfold updatedEntries
  simp only [mem_append, or_and_right, exists_or, hnew]
  rw [or_comm]
  refine or_congr_right ⟨?_, ?_⟩
  · rintro ⟨p, hp, hspans⟩
    obtain ⟨e, he, hp⟩ := mem_flatMap.mp hp
    obtain ⟨hout, hspans⟩ := (hcut e he).mp ⟨p, hp, hspans⟩
    exact ⟨hout, e, he, hspans⟩
  · rintro ⟨hout, e, he, hspans⟩
    obtain ⟨p, hp, hspans⟩ := (hcut e he).mpr ⟨hout, hspans⟩
    exact ⟨p, mem_flatMap.mpr ⟨e, he, hp⟩, hspans⟩

omit hentries

/-- `apply_posix_lock` replaces the lock of the owner offset by offset: inside the range it has the
requested type or none, outside the one that it had. The locks of the others stay as they are at
every offset, and the entries of `flock` stay but for their order. -/
theorem applyPosixLock_pointwise (entries : List AdvisoryLock) (owner : AdvisoryLockOwner)
    (request : ParsedFlockRequest) (hentries : ∀ e ∈ entries, rangeEndBound e.range ≤ U64_MAX)
    (hrequest : rangeEndBound request.range ≤ U64_MAX) (o : ℕ) (ho : o < U64_MAX) :
    (∀ holder lockType, Holds (applyPosixLock entries owner request) holder lockType o ↔
      (holder = owner ∧ request.range.Covers o) ∧ request.lockType = some lockType ∨
      ¬ (holder = owner ∧ request.range.Covers o) ∧ Holds entries holder lockType o) ∧
    ((applyPosixLock entries owner request).filter (·.api = .flock)).Perm
      (entries.filter (·.api = .flock)) := by
  let r : LockRequest := ⟨.posix, "", owner, request⟩
  have happly : applyPosixLock entries owner request = mergePosixLocks (updatedEntries entries r) :=
    grant_posix (r := r) rfl
  rw [happly]
  refine ⟨fun holder lockType => ?_, ?_⟩
  · rw [holds_iff ho, holds_iff ho, covers_iff_spans ho,
      spans_mergePosixLocks_iff (bound_updatedEntries hentries hrequest)]
    exact spans_updatedEntries_iff (r := r) hentries rfl
  have hsort := (perm_insertionSort SortLe (updatedEntries entries r)).filter (·.api = .flock)
  have hupdated : (updatedEntries entries r).filter (·.api = .flock) =
      entries.filter (·.api = .flock) := by
    rw [updatedEntries, filter_append, filter_flock_subtractOwned]
    cases hlock : request.lockType <;> simp [r, LockRequest.lock, hlock]
  rw [hupdated] at hsort
  refine .trans (.of_eq ?_) hsort
  unfold mergePosixLocks
  split
  · next h => rw [h]
  · next h => rw [h, filter_flock_mergeFrom]

/-- Process 1 unlocks ten bytes in the middle of a lock of the whole file. -/
theorem applyPosixLock_pointwise_split :
    Holds (applyPosixLock [⟨.posix, .process 1, .write, ⟨0, none⟩⟩] (.process 1)
      ⟨none, ⟨10, some 20⟩⟩) (.process 1) .write 15 ↔ False := by
  have hcovers : AdvisoryLockRange.Covers ⟨10, some 20⟩ 15 := ⟨by decide, by simp⟩
  rw [(applyPosixLock_pointwise [⟨.posix, .process 1, .write, ⟨0, none⟩⟩] (.process 1)
    ⟨none, ⟨10, some 20⟩⟩ (by simp [rangeEndBound]) (by decide) 15 (by decide)).1]
  simp [hcovers]

/-! ## What a grant does to the locks of others -/

/-- `big` is a lock of the same interface, owner and type as `small` that spans all of it. -/
structure Contains (big small : AdvisoryLock) : Prop where
  api : big.api = small.api
  owner : big.owner = small.owner
  lockType : big.lockType = small.lockType
  start_le : big.range.start ≤ small.range.start
  end_le : rangeEndBound small.range ≤ rangeEndBound big.range

/-- A lock contains itself. -/
theorem Contains.refl (a : AdvisoryLock) : Contains a a :=
  ⟨rfl, rfl, rfl, Nat.le_refl _, Nat.le_refl _⟩

variable {a b : AdvisoryLock}

/-- A lock in a lock in a lock. -/
theorem Contains.trans {c : AdvisoryLock} (h : Contains a b) (h' : Contains b c) : Contains a c :=
  ⟨h.api.trans h'.api, h.owner.trans h'.owner, h.lockType.trans h'.lockType,
    h.start_le.trans h'.start_le, h'.end_le.trans h.end_le⟩

variable {range : AdvisoryLockRange}

/-- What meets the part meets the whole. -/
theorem Contains.rangesOverlap {big small : AdvisoryLock} (h : Contains big small)
    (hover : rangesOverlap small.range range = true) :
    FileLocks.rangesOverlap big.range range = true := by
  have h1 := h.start_le
  have h2 := h.end_le
  grind [FileLocks.rangesOverlap]

variable {entry : AdvisoryLock}

/-- A merged lock contains both. -/
theorem contains_mergeInto {last : AdvisoryLock} (hmerge : canMergePosixLocks last entry = true)
    (hl : last.range.WellFormed) (he : entry.range.WellFormed) (hstart : StartLe last entry) :
    Contains (mergeInto last entry) last ∧ Contains (mergeInto last entry) entry := by
  obtain ⟨hp, hp', howner, htype, -⟩ := canMergePosixLocks_iff.mp hmerge
  have hbound := rangeEndBound_merge hl.le_max he.le_max
  refine ⟨⟨rfl, rfl, rfl, Nat.le_refl _, ?_⟩, ⟨hp.trans hp'.symm, howner, htype, ?_, ?_⟩⟩
  · simp [hbound, mergeInto]
  · exact hstart (hp.trans hp'.symm) howner htype
  · simp [hbound, mergeInto]

/-- Every lock is in some merged one. -/
theorem contains_mergeFrom (last : AdvisoryLock) (hready : MergeReady (last :: entries)) :
    ∀ a ∈ last :: entries, ∃ b ∈ mergeFrom last entries, Contains b a := by
  induction entries generalizing last with
  | nil => exact fun a ha => ⟨a, ha, .refl a⟩
  | cons entry entries ih =>
  have hv := hready.1
  simp only [forall_mem_cons] at hv
  unfold mergeFrom
  by_cases hmerge : canMergePosixLocks last entry = true
  · -- Both locks go into the one in hand.
    rw [if_pos hmerge]
    obtain ⟨hlast, hentry⟩ := contains_mergeInto hmerge hv.1 hv.2.1
      (rel_of_pairwise_cons hready.2 mem_cons_self)
    have hih := ih (mergeInto last entry) hready.merge
    have hmerged := hih (mergeInto last entry) mem_cons_self
    intro a ha
    rcases mem_cons.mp ha with rfl | ha
    · obtain ⟨b, hb, hc⟩ := hmerged
      exact ⟨b, hb, hc.trans hlast⟩
    rcases mem_cons.mp ha with rfl | ha
    · obtain ⟨b, hb, hc⟩ := hmerged
      exact ⟨b, hb, hc.trans hentry⟩
    · exact hih a (mem_cons_of_mem _ ha)
  rw [if_neg hmerge]
  have hready' := hready.tail
  intro a ha
  rcases mem_cons.mp ha with rfl | ha
  · exact ⟨a, mem_cons_self, .refl a⟩
  · grind

variable (h : ∀ a ∈ entries, a.range.WellFormed)

include h

/-- Sorted locks can be merged. -/
theorem mergeReady_insertionSort : MergeReady (entries.insertionSort SortLe) :=
  ⟨fun a ha => h a ((mem_insertionSort SortLe).mp ha),
    (pairwise_insertionSort SortLe entries).imp SortLe.startLe⟩

/-- Every lock is in some lock after merging. -/
theorem contains_mergePosixLocks
    (ha : a ∈ entries) : ∃ b ∈ mergePosixLocks entries, Contains b a := by
  have hready := mergeReady_insertionSort h
  rw [← mem_insertionSort SortLe] at ha
  unfold mergePosixLocks
  generalize entries.insertionSort SortLe = sorted at hready ha ⊢
  grind [contains_mergeFrom]

/-- What overlaps a lock after `merge_posix_locks` overlaps one of the same interface, owner and
type before it. -/
theorem rangesOverlap_of_mem_mergePosixLocks (hr : range.WellFormed)
    (hb : b ∈ mergePosixLocks entries) (hover : rangesOverlap b.range range = true) :
    ∃ a ∈ entries, a.api = b.api ∧ a.owner = b.owner ∧ a.lockType = b.lockType ∧
      rangesOverlap a.range range = true := by
  have hready := mergeReady_insertionSort h
  have hmem : ∀ a, a ∈ entries.insertionSort SortLe → a ∈ entries := fun a ha =>
    (mem_insertionSort SortLe).mp ha
  unfold mergePosixLocks at hb
  generalize entries.insertionSort SortLe = sorted at hready hmem hb
  grind [rangesOverlap_of_mem_mergeFrom]

omit h

/-- The new entries have proper ranges. -/
theorem wellFormed_updatedEntries (h : EntriesOk entries) (hr : r.request.range.WellFormed) :
    ∀ a ∈ updatedEntries entries r, a.range.WellFormed := by
  intro a ha
  rcases mem_append.mp ha with ha | ha
  · exact (subtractOwned_ok h hr).wellFormed a ha
  · grind [lock, map_eq_some_iff]

/-- The locks of others are kept by a grant. -/
theorem contains_grant (h : EntriesOk entries) (hr : r.request.range.WellFormed)
    (ha : a ∈ entries) (hne : a.owner ≠ r.owner) : ∃ b ∈ r.grant entries, Contains b a := by
  cases hapi : r.api with
  | posix =>
    rw [grant_posix hapi]
    refine contains_mergePosixLocks (wellFormed_updatedEntries h hr) (mem_append_left _ ?_)
    refine mem_flatMap.mpr ⟨a, ha, ?_⟩
    rw [if_pos (Or.inr hne)]
    exact mem_singleton_self a
  | flock =>
    refine ⟨a, ?_, .refl a⟩
    grind [grant]

variable {lock : AdvisoryLock}

/-- The lock that was asked for is granted. -/
theorem contains_grant_lock (h : EntriesOk entries) (hr : r.request.range.WellFormed)
    (hlock : r.lock = some lock) : ∃ b ∈ r.grant entries, Contains b lock := by
  cases hapi : r.api with
  | posix =>
    rw [grant_posix hapi]
    refine contains_mergePosixLocks (wellFormed_updatedEntries h hr) (mem_append_right _ ?_)
    rw [hlock]
    exact mem_singleton_self lock
  | flock =>
    refine ⟨lock, ?_, .refl lock⟩
    simp [hapi, hlock, grant]

/-- A grant gives others nothing new. -/
theorem rangesOverlap_of_mem_grant (h : EntriesOk entries) (hr : r.request.range.WellFormed)
    (hrange : range.WellFormed) (hb : b ∈ r.grant entries)
    (hne : b.owner ≠ r.owner) (hover : rangesOverlap b.range range = true) :
    ∃ a ∈ entries, a.api = b.api ∧ a.owner = b.owner ∧ a.lockType = b.lockType ∧
      rangesOverlap a.range range = true := by
  have hlockOwner : ∀ lock, r.lock = some lock → lock.owner = r.owner := by simp [lock]
  cases hapi : r.api with
  | posix =>
    rw [grant_posix hapi] at hb
    obtain ⟨a, ha, h1, h2, h3, h4⟩ :=
      rangesOverlap_of_mem_mergePosixLocks (wellFormed_updatedEntries h hr) hrange hb hover
    refine ⟨a, ?_, h1, h2, h3, h4⟩
    -- The lock is not one of the requester's, so it was there before.
    rcases mem_append.mp ha with ha | ha
    · rcases mem_subtractOwned h.wellFormed hr ha with ⟨hmem, -⟩ | ⟨-, howner, -⟩
      · exact hmem
      · exact absurd (h2.symm.trans howner) hne
    · grind
  | flock => grind [grant]

/-! ## The edges of the waits-for relation -/

/-- A conflict with a single entry. -/
theorem isSome_findConflict_singleton (requested : AdvisoryLock) (owner : AdvisoryLockOwner)
    (api : AdvisoryLockApi) : (findConflict [entry] owner (some requested) api).isSome =
      conflicts entry owner requested api := by
  unfold findConflict
  cases h : conflicts entry owner requested api <;> simp [h]

variable {s : LockSystem}

/-- One owner waits for another if it has a conflicting lock. -/
theorem waitsFor_iff {a b : AdvisoryLockOwner} :
    s.WaitsFor a b ↔ ∃ wait, s.waits.lookup a = some wait ∧ ∃ entry ∈ s.table wait.key,
      conflicts entry wait.lock.owner wait.lock wait.lock.api = true ∧ entry.owner = b := by
  unfold WaitsFor Edge waitTargets
  grind [isSome_findConflict_singleton]

variable {requested conflict : AdvisoryLock} {owner : AdvisoryLockOwner} {api : AdvisoryLockApi}

/-- When two locks conflict. -/
theorem conflicts_iff : conflicts entry owner requested api = true ↔
      entry.api = api ∧ entry.owner ≠ owner ∧ rangesOverlap entry.range requested.range = true ∧
        ¬ (requested.lockType = .read ∧ entry.lockType = .read) := by
  unfold conflicts
  grind

/-- The search of `lock_wait_chain_reaches` ends, whatever cycles there are, and finds the target
exactly if it can be reached: from an owner with a recorded wait to the owners of the entries under
the awaited key that conflict with the awaited lock. -/
theorem lockWaitChainReaches_spec (table : LockTable) (waits : LockWaits)
    (start target : AdvisoryLockOwner) :
    (∃ rounds, dfs (waitTargets table waits) target rounds [start] [] =
      some (lockWaitChainReaches table waits start target)) ∧
    (lockWaitChainReaches table waits start target = true ↔
      ReflTransGen (fun a b => ∃ wait, waits.lookup a = some wait ∧
        ∃ entry ∈ table wait.key, entry.owner = b ∧ entry.api = wait.lock.api ∧
          entry.owner ≠ wait.lock.owner ∧ rangesOverlap entry.range wait.lock.range = true ∧
          ¬ (wait.lock.lockType = .read ∧ entry.lockType = .read)) start target) := by
  have hnodes : ∀ a, waitTargets table waits a ≠ [] → a ∈ waits.keys := fun _ =>
    mem_keys_of_waitTargets
  refine ⟨⟨_, dfs_eq hnodes ?_⟩, ?_⟩
  · rw [length_singleton]
    omega
  rw [lockWaitChainReaches_iff ⟨table, waits, fun _ => .granted⟩]
  have hsame : WaitsFor ⟨table, waits, fun _ => .granted⟩ = fun a b =>
      ∃ wait, waits.lookup a = some wait ∧ ∃ entry ∈ table wait.key, entry.owner = b ∧
        entry.api = wait.lock.api ∧ entry.owner ≠ wait.lock.owner ∧
        rangesOverlap entry.range wait.lock.range = true ∧
        ¬ (wait.lock.lockType = .read ∧ entry.lockType = .read) := by
    funext a b
    simp only [waitsFor_iff, conflicts_iff, eq_iff_iff]
    grind
  rw [hsame]

/-- The wait that an owner has recorded when it holds the lock already. -/
def Held (table : LockTable) (wait : AdvisoryLockWait) : Prop :=
  ∃ entry ∈ table wait.key, Contains entry wait.lock

variable {wait : AdvisoryLockWait}

/-- What is held already meets no conflict. -/
theorem not_conflicts_of_held {table : LockTable} (h : Inv table)
    (hheld : Held table wait) (hentry : entry ∈ table wait.key) :
    conflicts entry wait.lock.owner wait.lock wait.lock.api = false := by
  obtain ⟨held, hmem, hc⟩ := hheld
  rw [Bool.eq_false_iff, ne_eq, conflicts_iff]
  rintro ⟨hapi, hne, hover, hread⟩
  have hne' : held ≠ entry := by
    rintro rfl
    exact hne hc.owner
  have hcomp : Compatible held entry := (h wait.key).compatible.forall hmem hentry hne'
  rw [rangesOverlap_comm] at hover
  rcases hcomp (hc.api.trans hapi.symm) (hc.rangesOverlap hover) with ⟨heq, -⟩ | ⟨-, h1, h2⟩
  · exact hne (heq.symm.trans hc.owner)
  · exact hread ⟨hc.lockType.symm.trans h1, h2⟩

variable {o : AdvisoryLockOwner}

/-- An owner that holds what it waited for waits for nobody. -/
theorem held_waits_for_nothing (h : Inv s.table)
    (hheld : ∀ wait, s.waits.lookup o = some wait → Held s.table wait) (b : AdvisoryLockOwner) :
    ¬ s.WaitsFor o b := by
  grind [waitsFor_iff, not_conflicts_of_held]

/-! ## The invariant -/

/-- A request that met a conflict and is on its way to sleep. -/
def Pc.Busy : Pc → Prop
  | .check _ _ _ => True
  | .record _ _ => True
  | _ => False

/-- What holds of the call of `o` as far as it has come. -/
def PcOk (s : LockSystem) (o : AdvisoryLockOwner) : Pc → Prop
  | .attempt r _ => r.owner = o ∧ r.request.range.WellFormed
  | .blocked r => r.owner = o ∧ r.request.range.WellFormed
  | .check r lock conflict => (r.owner = o ∧ r.request.range.WellFormed) ∧ r.lock = some lock ∧
    (conflict ∈ s.table r.key ∧ conflicts conflict o lock r.api = true) ∧
    ∀ entry ∈ s.table r.key, conflicts entry o lock r.api = true →
      ReflTransGen s.WaitsFor entry.owner o →
      ReflTransGen s.WaitsFor conflict.owner o
  | .record r lock => (r.owner = o ∧ r.request.range.WellFormed) ∧ r.lock = some lock ∧
    ∀ entry ∈ s.table r.key, conflicts entry o lock r.api = true →
      ¬ ReflTransGen s.WaitsFor entry.owner o
  | _ => True

/-- What holds of the recorded wait of `o` as far as its call has come: it is the wait of the
running request. -/
def WaitOk (table : LockTable) (wait : AdvisoryLockWait) : Pc → Prop
  | .attempt r blocking => blocking = true ∧ wait.key = r.key ∧ r.lock = some wait.lock
  | .blocked r => wait.key = r.key ∧ r.lock = some wait.lock
  | .check r lock _ => wait = ⟨r.key, lock⟩
  | .record r lock => wait = ⟨r.key, lock⟩
  | .granted => Held table wait
  | .interrupted => True
  | .idle _ => False
  | .releasing _ => False

/-- The invariant of the lock system. -/
structure LockSystem.Inv (s : LockSystem) : Prop where
  table : FileLocks.Inv s.table
  pc : ∀ o, PcOk s o (s.pc o)
  wait : ∀ o wait, s.waits.lookup o = some wait →
    wait.lock.owner = o ∧ wait.lock.range.WellFormed ∧ WaitOk s.table wait (s.pc o)
  acyclic : Acyclic s.WaitsFor

variable {pc : Pc} {s' : LockSystem}

/-- Others do not matter to a call that is not on its way to sleep. -/
theorem PcOk.congr (h : PcOk s o pc) (hbusy : ¬ pc.Busy) : PcOk s' o pc := by
  cases pc with
  | check r lock conflict | record r lock => exact absurd trivial hbusy
  | _ => exact h

/-- The table matters to a granted wait only. -/
theorem WaitOk.congr {table table' : LockTable} (h : WaitOk table wait pc)
    (hheld : Held table wait → Held table' wait) : WaitOk table' wait pc := by
  cases pc with
  | granted => exact hheld h
  | _ => exact h

/-- The lock that a request asks for. -/
theorem LockRequest.lock_eq (h : r.lock = some lock) :
    lock.api = r.api ∧ lock.owner = r.owner ∧ lock.range = r.request.range := by
  obtain ⟨lockType, -, rfl⟩ := map_eq_some_iff.mp h
  exact ⟨rfl, rfl, rfl⟩

/-! ## The steps -/

section Steps

variable {s : LockSystem} {o : AdvisoryLockOwner}

/-- What holds of the call of one owner and of the others. -/
theorem forall_setPc {P : AdvisoryLockOwner → Pc → Prop} (ho : P o pc)
    (hother : ∀ p, p ≠ o → P p (s.pc p)) (p : AdvisoryLockOwner) : P p ((s.setPc o pc).pc p) := by
  show P p (update s.pc o pc p)
  grind

/-- A call goes on. -/
theorem LockSystem.Inv.setPc (h : s.Inv) (hpc : PcOk s o pc)
    (hwait : ∀ wait, s.waits.lookup o = some wait → WaitOk s.table wait pc) :
    (s.setPc o pc).Inv where
  table := h.table
  pc := forall_setPc (P := fun p pc => PcOk (s.setPc o _) p pc) hpc fun p _ => h.pc p
  wait := by
    intro p
    refine forall_setPc (P := fun p pc => ∀ wait, s.waits.lookup p = some wait →
      wait.lock.owner = p ∧ wait.lock.range.WellFormed ∧ WaitOk s.table wait pc) ?_ ?_ p
    · intro wait hlookup
      obtain ⟨h1, h2, -⟩ := h.wait o wait hlookup
      exact ⟨h1, h2, hwait wait hlookup⟩
    · exact fun p _ => h.wait p
  acyclic := h.acyclic

/-- A wait is taken back. -/
theorem LockSystem.Inv.clearLockWait (h : s.Inv) (hquiet : ∀ p, p ≠ o → ¬ (s.pc p).Busy)
    (hpc : ∀ s', PcOk s' o pc) : ((s.clearLockWait o).setPc o pc).Inv := by
  have hlookup : ∀ p wait, (s.waits.erase o).lookup p = some wait →
      p ≠ o ∧ s.waits.lookup p = some wait := by
    grind [AList.lookup_erase, AList.lookup_erase_ne]
  refine ⟨h.table, ?_, ?_, ?_⟩
  · refine forall_setPc (P := fun p pc => PcOk _ p pc) (hpc _) fun p hp => ?_
    exact (h.pc p).congr (hquiet p hp)
  · intro p wait hp
    obtain ⟨hpo, hp⟩ := hlookup p wait hp
    have hold := h.wait p wait hp
    unfold LockSystem.setPc
    simp only [update_of_ne hpo]
    exact hold
  -- The relation loses the edges from `o`.
  refine h.acyclic.mono ?_
  intro a b hab
  rw [waitsFor_iff] at hab ⊢
  obtain ⟨wait, hwait, hentry⟩ := hab
  exact ⟨wait, (hlookup a wait hwait).2, hentry⟩

/-- The locks of an owner are released. -/
theorem LockSystem.Inv.release (h : s.Inv) (hquiet : ∀ p, p ≠ o → ¬ (s.pc p).Busy) {key : String}
    (hnone : s.waits.lookup o = none) :
    ({ s with table := releaseOwner s.table key o }.setPc o (.idle (.ok ()))).Inv := by
  have hmem : ∀ key' entry, entry ∈ releaseOwner s.table key o key' → entry ∈ s.table key' := by
    intro key' entry hentry
    unfold releaseOwner at hentry
    grind
  have hkeep : ∀ key' entry, entry ∈ s.table key' → entry.owner ≠ o →
      entry ∈ releaseOwner s.table key o key' := by
    intro key' entry hentry hne
    unfold releaseOwner
    grind
  refine ⟨?_, ?_, ?_, ?_⟩
  · intro key'
    show EntriesOk (releaseOwner s.table key o key')
    unfold releaseOwner
    by_cases hkey : key' = key
    · rw [hkey, update_self]
      exact (h.table key).filter _
    · rw [update_of_ne hkey]
      exact h.table key'
  · exact forall_setPc (s := { s with table := releaseOwner s.table key o })
      (P := fun p pc => PcOk _ p pc) trivial fun p hp => (h.pc p).congr (hquiet p hp)
  · intro p wait hp
    have hpo : p ≠ o := by
      rintro rfl
      have hp' : s.waits.lookup p = some wait := hp
      rw [hnone] at hp'
      cases hp'
    obtain ⟨h1, h2, h3⟩ := h.wait p wait hp
    unfold LockSystem.setPc
    simp only [update_of_ne hpo]
    refine ⟨h1, h2, h3.congr ?_⟩
    -- The locks of the other owners stay.
    rintro ⟨entry, hentry, hc⟩
    refine ⟨entry, hkeep _ entry hentry ?_, hc⟩
    rw [hc.owner, h1]
    exact hpo
  refine h.acyclic.mono ?_
  intro a b hab
  rw [waitsFor_iff] at hab ⊢
  obtain ⟨wait, hwait, entry, hentry, hconf⟩ := hab
  exact ⟨wait, hwait, entry, hmem _ entry hentry, hconf⟩

/-- A wait on owners that do not reach the waiter closes no cycle. -/
theorem acyclic_setLockWait (h : Acyclic s.WaitsFor) (howner : r.owner = o)
    (hlock : r.lock = some lock)
    (hreach : ∀ entry ∈ s.table r.key, conflicts entry o lock r.api = true →
      ¬ ReflTransGen s.WaitsFor entry.owner o) :
    Acyclic (s.setLockWait o r.key lock).WaitsFor := by
  obtain ⟨hapi, hlockOwner, -⟩ := lock_eq hlock
  -- The new edges lead from `o` to the owners of conflicting entries.
  refine acyclic_of_new_edges (o := o) h ?_ ?_
  · intro a b ha hab
    rw [waitsFor_iff] at hab ⊢
    obtain ⟨wait, hwait, hentry⟩ := hab
    refine ⟨wait, ?_, hentry⟩
    rw [← AList.lookup_insert_ne ha]
    exact hwait
  intro b hob
  rw [waitsFor_iff] at hob
  obtain ⟨wait, hwait, entry, hentry, hconf, rfl⟩ := hob
  have hself : (s.waits.insert o ⟨r.key, lock⟩).lookup o = some wait := hwait
  rw [AList.lookup_insert] at hself
  cases hself
  simp only [hlockOwner, howner, hapi] at hconf
  exact hreach entry hentry hconf

/-- A wait is recorded. -/
theorem LockSystem.Inv.record (h : s.Inv) (hquiet : ∀ p, p ≠ o → ¬ (s.pc p).Busy)
    (hpc : s.pc o = .record r lock) : ((s.setLockWait o r.key lock).setPc o (.blocked r)).Inv := by
  have hok := h.pc o
  rw [hpc] at hok
  obtain ⟨⟨howner, hwf⟩, hlock, hreach⟩ := hok
  obtain ⟨-, hlockOwner, hrange⟩ := lock_eq hlock
  have hself : (s.waits.insert o ⟨r.key, lock⟩).lookup o = some ⟨r.key, lock⟩ :=
    AList.lookup_insert s.waits
  have hother : ∀ p, p ≠ o → (s.waits.insert o ⟨r.key, lock⟩).lookup p = s.waits.lookup p :=
    fun p hp => AList.lookup_insert_ne hp
  refine ⟨h.table, ?_, ?_, ?_⟩
  · exact forall_setPc (s := s.setLockWait o r.key lock) (P := fun p pc => PcOk _ p pc)
      ⟨howner, hwf⟩ fun p hp => (h.pc p).congr (hquiet p hp)
  · intro p
    refine forall_setPc (s := s.setLockWait o r.key lock) (P := fun p pc => ∀ wait,
      (s.waits.insert o ⟨r.key, lock⟩).lookup p = some wait →
      wait.lock.owner = p ∧ wait.lock.range.WellFormed ∧ WaitOk s.table wait pc) ?_ ?_ p
    · intro wait hwait
      rw [hself] at hwait
      cases hwait
      refine ⟨hlockOwner.trans howner, ?_, rfl, hlock⟩
      rw [hrange]
      exact hwf
    · intro p hp wait hwait
      rw [hother p hp] at hwait
      exact h.wait p wait hwait
  · exact acyclic_setLockWait h.acyclic howner hlock hreach

/-- A granted request. The edges that it adds lead to `o`, which waits for nothing: what it waited
for it holds now. -/
theorem LockSystem.Inv.grant (h : s.Inv) (hquiet : ∀ p, p ≠ o → ¬ (s.pc p).Busy) {blocking : Bool}
    (hpc : s.pc o = .attempt r blocking)
    (hfree : findConflict (s.table r.key) r.owner r.lock r.api = none) :
    ({ s with table := update s.table r.key (r.grant (s.table r.key)) }.setPc o .granted).Inv := by
  have hok := h.pc o
  rw [hpc] at hok
  obtain ⟨howner, hwf⟩ := hok
  have hentries := h.table r.key
  generalize htable : update s.table r.key (r.grant (s.table r.key)) = table
  have hat : table r.key = r.grant (s.table r.key) := by rw [← htable, update_self]
  have hne : ∀ key, key ≠ r.key → table key = s.table key := fun key hkey => by
    rw [← htable, update_of_ne hkey]
  have hinv : FileLocks.Inv table := by
    intro key
    by_cases hkey : key = r.key
    · rw [hkey, hat]
      exact grant_ok hentries hwf hfree
    · rw [hne key hkey]
      exact h.table key
  -- The recorded wait of `o`, if it has one, is for the lock it has just got.
  have hheld : ∀ wait, s.waits.lookup o = some wait → Held table wait := by
    intro wait hwait
    obtain ⟨-, -, hwaitOk⟩ := h.wait o wait hwait
    rw [hpc] at hwaitOk
    obtain ⟨-, hkey, hlock⟩ := hwaitOk
    grind [Held, contains_grant_lock]
  refine ⟨hinv, ?_, ?_, ?_⟩
  · exact forall_setPc (s := { s with table := table }) (P := fun p pc => PcOk _ p pc) trivial
      fun p hp => (h.pc p).congr (hquiet p hp)
  · intro p
    refine forall_setPc (s := { s with table := table }) (P := fun p pc => ∀ wait,
      s.waits.lookup p = some wait →
      wait.lock.owner = p ∧ wait.lock.range.WellFormed ∧ WaitOk table wait pc) ?_ ?_ p
    · intro wait hwait
      obtain ⟨h1, h2, -⟩ := h.wait o wait hwait
      exact ⟨h1, h2, hheld wait hwait⟩
    intro p hp wait hwait
    obtain ⟨h1, h2, h3⟩ := h.wait p wait hwait
    refine ⟨h1, h2, h3.congr ?_⟩
    rintro ⟨entry, hentry, hc⟩
    by_cases hkey : wait.key = r.key
    · rw [hkey] at hentry
      obtain ⟨big, hbig, hbc⟩ := contains_grant hentries hwf hentry (by
        rw [hc.owner, h1, howner]
        exact hp)
      refine ⟨big, ?_, hbc.trans hc⟩
      rw [hkey, hat]
      exact hbig
    · refine ⟨entry, ?_, hc⟩
      rw [hne _ hkey]
      exact hentry
  refine acyclic_of_sink (o := o) h.acyclic ?_ ?_
  · -- An edge to another owner was there before.
    intro a b hb hab
    rw [waitsFor_iff] at hab ⊢
    obtain ⟨wait, hwait, entry, hentry, hconf, rfl⟩ := hab
    have hentry' : entry ∈ table wait.key := hentry
    obtain ⟨-, hwaitWf, -⟩ := h.wait a wait hwait
    refine ⟨wait, hwait, ?_⟩
    by_cases hkey : wait.key = r.key
    · grind [conflicts_iff.mp, rangesOverlap_of_mem_grant, conflicts_iff.mpr]
    · grind
  · exact held_waits_for_nothing hinv hheld

end Steps

/-! ## Runs -/

/-- While a request that met a conflict is on its way to sleep, only its own owner runs. -/
def Action.Alone (a : Action) (s : LockSystem) : Prop :=
  ∀ o, (s.pc o).Busy → a = .step o

/-- The condition on an action: a request that met a conflict is alone on its way to sleep, and if
any owner of a conflicting entry reaches the requester by recorded waits, the one that
`find_conflict` returns does. -/
def Action.Safe (a : Action) (s : LockSystem) : Prop :=
  a.Alone s ∧
    ∀ o r lock conflict, a = .step o → s.pc o = .attempt r true → r.lock = some lock →
      findConflict (s.table r.key) r.owner (some lock) r.api = some conflict →
      ∀ entry ∈ s.table r.key, conflicts entry r.owner lock r.api = true →
        lockWaitChainReaches s.table s.waits entry.owner o = true →
        lockWaitChainReaches s.table s.waits conflict.owner o = true

/-- The conflict is one of the entries. -/
theorem conflicts_of_findConflict
    (h : findConflict entries owner (some requested) api = some conflict) :
    conflict ∈ entries ∧ conflicts conflict owner requested api = true :=
  mem_filter.mp (argmin_mem h)

section Advance

variable {s s' : LockSystem} {o : AdvisoryLockOwner}

/-- The others are not on their way to sleep. -/
theorem Action.Alone.quiet (halone : Alone (.step o) s) (p : AdvisoryLockOwner) (hp : p ≠ o) :
    ¬ (s.pc p).Busy := by
  intro hbusy
  have heq := halone p hbusy
  injection heq with heq
  exact hp heq.symm

/-- A request meets a conflict. -/
theorem LockSystem.Inv.meetConflict (h : s.Inv) (hsafe : Safe (.step o) s)
    (hpc : s.pc o = .attempt r true) (hlock : r.lock = some lock)
    (hfound : findConflict (s.table r.key) r.owner (some lock) r.api = some conflict) :
    (s.setPc o (.check r lock conflict)).Inv := by
  have hok := h.pc o
  rw [hpc] at hok
  obtain ⟨howner, hwf⟩ := hok
  obtain ⟨hmem, hconf⟩ := conflicts_of_findConflict hfound
  have hreach := hsafe.2 o r lock conflict rfl hpc hlock hfound
  rw [howner] at hconf hreach
  refine h.setPc ⟨⟨howner, hwf⟩, hlock, ⟨hmem, hconf⟩, ?_⟩ ?_
  · grind [lockWaitChainReaches_iff]
  -- A wait that is recorded already is the one for this request.
  intro wait hwait
  obtain ⟨-, -, hwaitOk⟩ := h.wait o wait hwait
  rw [hpc] at hwaitOk
  obtain ⟨-, hkey, hwl⟩ := hwaitOk
  rw [hlock] at hwl
  obtain ⟨key, lock'⟩ := wait
  cases hwl
  obtain rfl : key = r.key := hkey
  rfl

/-- A request is tried. -/
theorem LockSystem.Inv.attempt (h : s.Inv) (hsafe : Safe (.step o) s) {blocking : Bool}
    (hpc : s.pc o = .attempt r blocking) (hexec : s.advance o = some s') : s'.Inv := by
  have hok := h.pc o
  have hwaitOk := fun wait hwait => (h.wait o wait hwait).2.2
  rw [hpc] at hok hwaitOk
  unfold advance LockRequest.attempt at hexec
  rw [hpc] at hexec
  simp only at hexec
  cases hfree : findConflict (s.table r.key) r.owner r.lock r.api with
  | none => grind [h.grant, hsafe.1.quiet]
  | some conflict =>
  rw [hfree] at hexec
  simp only at hexec
  cases blocking with
  | true =>
    cases hlock : r.lock with
    | none =>
      rw [hlock] at hexec
      cases hexec
      exact h.setPc hok fun wait hwait => (hwaitOk wait hwait).2
    | some lock => grind [h.meetConflict]
  | false =>
    -- A call that does not block has no recorded wait.
    cases hexec
    exact h.setPc trivial fun wait hwait => absurd (hwaitOk wait hwait).1 (by decide)

/-- The check of the chain of waits keeps the invariant. A request that it refuses has no recorded
wait, which would be part of a cycle. -/
theorem LockSystem.Inv.check (h : s.Inv)
    (hpc : s.pc o = .check r lock conflict) (hexec : s.advance o = some s') : s'.Inv := by
  have hok := h.pc o
  have hwaitOk := fun wait hwait => (h.wait o wait hwait).2.2
  rw [hpc] at hok hwaitOk
  obtain ⟨hr, hlock, ⟨hmem, hconf⟩, hreach⟩ := hok
  unfold advance at hexec
  rw [hpc] at hexec
  simp only at hexec
  split at hexec
  · next hchain =>
    cases hexec
    refine h.setPc trivial fun wait hwait => ?_
    rw [lockWaitChainReaches_iff] at hchain
    obtain rfl : wait = ⟨r.key, lock⟩ := hwaitOk wait hwait
    obtain ⟨hapi, hlockOwner, -⟩ := lock_eq hlock
    have hedge : s.WaitsFor o conflict.owner := by grind [waitsFor_iff]
    exact h.acyclic o (.head' hedge hchain)
  next hchain =>
  cases hexec
  refine h.setPc ⟨hr, hlock, ?_⟩ hwaitOk
  grind [lockWaitChainReaches_iff]

/-- A call takes a step. -/
theorem LockSystem.Inv.advance (h : s.Inv) (hsafe : Safe (.step o) s)
    (hexec : s.advance o = some s') : s'.Inv := by
  cases hpc : s.pc o with
  | attempt r blocking => exact h.attempt hsafe hpc hexec
  | check r lock conflict => exact h.check hpc hexec
  | idle result | blocked r =>
    rw [LockSystem.advance, hpc] at hexec
    cases hexec
  | granted | interrupted =>
    rw [LockSystem.advance, hpc] at hexec
    cases hexec
    exact h.clearLockWait hsafe.1.quiet fun _ => trivial
  | record r lock => grind [advance, h.record, hsafe.1.quiet]
  | releasing key =>
  rw [LockSystem.advance, hpc] at hexec
  cases hexec
  refine h.release hsafe.1.quiet ?_
  cases hlookup : s.waits.lookup o with
  | none => rfl
  | some wait =>
    have hwaitOk := (h.wait o wait hlookup).2.2
    rw [hpc] at hwaitOk
    exact hwaitOk.elim

/-- Every safe action keeps the invariant. -/
theorem LockSystem.Inv.exec (h : s.Inv) {a : Action} (hsafe : a.Safe s)
    (hexec : s.exec a = some s') : s'.Inv := by
  cases a <;> simp only [LockSystem.exec] at hexec
  case step o => exact h.advance hsafe hexec
  case call op blocking =>
    split at hexec
    · next r hreq =>
      split at hexec
      · -- An owner without a call has no recorded wait.
        next result hpc =>
        cases hexec
        refine h.setPc ⟨rfl, op.wellFormed_request hreq⟩ fun wait hwait => ?_
        have hwaitOk := (h.wait r.owner wait hwait).2.2
        rw [hpc] at hwaitOk
        exact hwaitOk.elim
      · cases hexec
    · cases hexec
  case close o key =>
    split at hexec
    · next result hpc =>
      cases hexec
      refine h.clearLockWait (fun p _ hbusy => ?_) fun _ => trivial
      cases hsafe.1 p hbusy
    · cases hexec
  case wake o =>
    split at hexec
    · next r hpc =>
      cases hexec
      have hok := h.pc o
      rw [hpc] at hok
      refine h.setPc hok fun wait hwait => ?_
      have hwaitOk := (h.wait o wait hwait).2.2
      rw [hpc] at hwaitOk
      exact ⟨rfl, hwaitOk⟩
    · cases hexec
  case interrupt o =>
    split at hexec
    · cases hexec
      exact h.setPc trivial fun _ _ => trivial
    · cases hexec

end Advance

/-- Every action of a run meets a condition in the state that it finds. -/
def ActionsMeet (Cond : Action → LockSystem → Prop) (s : LockSystem) : List Action → Prop
  | [] => True
  | a :: actions => Cond a s ∧ ∀ s', s.exec a = some s' → ActionsMeet Cond s' actions

/-- Every action of a run is safe in the state that it finds. -/
def SafeActions (s : LockSystem) (actions : List Action) : Prop :=
  ActionsMeet Action.Safe s actions

/-- What every action that meets the condition keeps holds at the end of a run of such actions. -/
theorem LockSystem.run_invariant {Cond : Action → LockSystem → Prop} {I : LockSystem → Prop}
    (hstep : ∀ a s s', Cond a s → s.exec a = some s' → I s → I s') (h : I s)
    {actions : List Action} (hmeet : ActionsMeet Cond s actions)
    (hrun : s.run actions = some s') : I s' := by
  induction actions generalizing s with
  | nil =>
    cases hrun
    exact h
  | cons a actions ih =>
  unfold run at hrun
  rw [foldlM_cons, bind_eq_bind, bind_eq_some_iff] at hrun
  obtain ⟨s₁, hexec, hrun⟩ := hrun
  exact ih (hstep a s s₁ hmeet.1 hexec h) (hmeet.2 s₁ hexec) hrun

/-- A safe run keeps the invariant. -/
theorem LockSystem.Inv.run (h : s.Inv) (actions : List Action)
    (hsafe : SafeActions s actions) (hrun : s.run actions = some s') : s'.Inv := by
  refine run_invariant (fun a s s' hsafe hexec h => ?_) h hsafe hrun
  exact h.exec hsafe hexec

/-- No lock is held and nobody waits. -/
theorem LockSystem.inv_init : init.Inv where
  table := inv_empty
  pc _ := trivial
  wait := by
    intro o wait hwait
    cases hwait
  acyclic := by
    intro o ho
    obtain ⟨b, hb, -⟩ := TransGen.head'_iff.mp ho
    rw [waitsFor_iff] at hb
    obtain ⟨wait, hwait, -⟩ := hb
    cases hwait

/-- In every state that a run of safe actions reaches, the waits-for relation is acyclic, and a
request whose wait would close a cycle is refused with `ResourceDeadlock`. -/
theorem run_acyclic (actions : List Action) (hsafe : SafeActions init actions)
    (s : LockSystem) (hrun : init.run actions = some s) : Acyclic s.WaitsFor ∧
      ∀ o r lock conflict, s.pc o = .check r lock conflict →
        ¬ Acyclic (s.setLockWait o r.key lock).WaitsFor →
        s.exec (.step o) = some (s.setPc o (.idle (.error .resourceDeadlock))) := by
  have h := inv_init.run actions hsafe hrun
  refine ⟨h.acyclic, ?_⟩
  intro o r lock conflict hpc hcycle
  have hok := h.pc o
  rw [hpc] at hok
  obtain ⟨hr, hlock, -, hreach⟩ := hok
  have hchain : lockWaitChainReaches s.table s.waits conflict.owner o = true := by
    grind [acyclic_setLockWait, h.acyclic, lockWaitChainReaches_iff]
  simp only [exec, advance, hpc, hchain, if_true]

/-- Two files. -/
def fileX : LockObject := ⟨"/x", 0, .ok 0, .ok 0⟩

@[inherit_doc fileX]
def fileY : LockObject := ⟨"/y", 1, .ok 0, .ok 0⟩

/-- A call of `fcntl` by the process `pid` that is granted at once. -/
def lockAtOnce (object : LockObject) (flock : LinuxFlock) (pid : ℕ) : List Action :=
  [.call (.fcntlSetLock object flock false pid) true, .step (.process pid), .step (.process pid)]

/-- A call of `fcntl` by the process `pid` that meets a conflict and goes to sleep. -/
def lockAndSleep (object : LockObject) (flock : LinuxFlock) (pid : ℕ) : List Action :=
  [.call (.fcntlSetLock object flock false pid) true, .step (.process pid), .step (.process pid),
    .step (.process pid)]

variable {a : Action}

/-- One lock for each file leaves no choice of a conflict. -/
theorem Action.safe_of_subsingleton (hbusy : ∀ o, (s.pc o).Busy → a = .step o)
    (hone : ∀ key, ∀ e ∈ s.table key, ∀ e' ∈ s.table key, e = e') : a.Safe s := by
  refine ⟨hbusy, ?_⟩
  intro o r lock conflict _ _ _ hfound entry hentry _ hreach
  rw [hone r.key conflict (conflicts_of_findConflict hfound).1 entry hentry]
  exact hreach

/-- Who is on the way to sleep after a step. -/
theorem busy_setPc (hother : ∀ p, (s.pc p).Busy → a = .step p) (ho : pc.Busy → a = .step o) :
    ∀ p, ((s.setPc o pc).pc p).Busy → a = .step p :=
  forall_setPc (P := fun p pc => pc.Busy → a = .step p) ho fun p _ => hother p

/-- A table with one lock. -/
theorem subsingleton_update_empty {key : String} :
    ∀ key', ∀ e ∈ update LockTable.empty key [lock] key',
      ∀ e' ∈ update LockTable.empty key [lock] key', e = e' := by
  intro key' e he e' he'
  by_cases hkey : key' = key
  · grind
  · rw [update_of_ne hkey] at he
    cases he

/-- Process 1 locks a byte, and process 2 goes to sleep on it. -/
theorem run_acyclic_sleeper :
    let actions := lockAtOnce fileX ⟨1, 0, 0, 1⟩ 1 ++ lockAndSleep fileX ⟨1, 0, 0, 1⟩ 2
    SafeActions init actions ∧ ∀ s, init.run actions = some s → Acyclic s.WaitsFor := by
  intro actions
  have hsafe : SafeActions init actions := by
    have hinit : ∀ a p, (init.pc p).Busy → a = step p := by rintro _ _ ⟨⟩
    -- Only process 2 runs once it has met the conflict, and there is one lock at most.
    iterate 7
      refine ⟨safe_of_subsingleton ?_ (by first | exact subsingleton_update_empty | nofun), ?_⟩
      · repeat refine busy_setPc ?_ (by first | exact False.elim | exact fun _ => rfl)
        exact hinit _
      rintro _ ⟨⟩
    trivial
  exact ⟨hsafe, fun s hrun => (run_acyclic actions hsafe s hrun).1⟩

/-- Processes 2 and 3 hold read locks on neighbouring bytes of one file and process 1 a write lock
on another file; process 3 waits for process 1, and then process 1 asks for a write lock on both
bytes. -/
def uncheckedConflict : List Action :=
  lockAtOnce fileX ⟨0, 0, 0, 1⟩ 2 ++ lockAtOnce fileX ⟨0, 0, 1, 1⟩ 3 ++
    lockAtOnce fileY ⟨1, 0, 0, 1⟩ 1 ++ lockAndSleep fileY ⟨1, 0, 0, 1⟩ 3 ++
    lockAndSleep fileX ⟨1, 0, 0, 2⟩ 1

/-- The request of process 1 is recorded and closes a cycle: the chain is checked from process 2
only, whose lock is the lower one. -/
theorem unchecked_conflict_deadlocks :
    ∃ s, init.run uncheckedConflict = some s ∧ ¬ Acyclic s.WaitsFor := by
  have htargets : (init.run uncheckedConflict).map (fun s =>
      (waitTargets s.table s.waits (.process 1), waitTargets s.table s.waits (.process 3))) =
      some ([.process 2, .process 3], [.process 1]) := by
    decide +kernel
  obtain ⟨s, hrun, hs⟩ := map_eq_some_iff.mp htargets
  rw [Prod.mk.injEq] at hs
  refine ⟨s, hrun, fun h => h (.process 1) ?_⟩
  have h13 : s.WaitsFor (.process 1) (.process 3) := by
    rw [WaitsFor, Edge, hs.1]
    decide
  have h31 : s.WaitsFor (.process 3) (.process 1) := by
    rw [WaitsFor, Edge, hs.2]
    decide
  exact .head h13 (.single h31)

/-! ## Refusals -/

/-- A request belongs to the owner whose call it is of, and one that met a conflict still meets
it. -/
def Pc.Met (table : LockTable) (o : AdvisoryLockOwner) : Pc → Prop
  | .attempt r _ | .blocked r | .record r _ => r.owner = o
  | .check r lock conflict => r.owner = o ∧ r.lock = some lock ∧ conflict ∈ table r.key ∧
    conflicts conflict o lock r.api = true
  | _ => True

/-- The table matters to a request only on its way to sleep. -/
theorem Pc.Met.congr {table table' : LockTable} (h : pc.Met table o) (hbusy : ¬ pc.Busy) :
    pc.Met table' o := by
  cases pc with
  | check r lock conflict => exact absurd trivial hbusy
  | _ => exact h

/-- Every request is as it should be. -/
def LockSystem.AllMet (s : LockSystem) : Prop := ∀ o, (s.pc o).Met s.table o

/-- One call goes on, and no other is on its way to sleep. -/
theorem LockSystem.AllMet.setPc {t : LockSystem} (h : s.AllMet)
    (hquiet : ∀ p, p ≠ o → ¬ (s.pc p).Busy) (hsame : t.pc = s.pc) (hpc : pc.Met t.table o) :
    (t.setPc o pc).AllMet := by
  refine forall_setPc (P := fun p pc => pc.Met t.table p) hpc fun p hp => ?_
  rw [hsame]
  exact (h p).congr (hquiet p hp)

/-- A critical section of a call that is alone on its way to sleep. -/
theorem LockSystem.AllMet.advance (h : s.AllMet) (hquiet : ∀ p, p ≠ o → ¬ (s.pc p).Busy)
    (hexec : s.advance o = some s') : s'.AllMet := by
  have hok := h o
  unfold LockSystem.advance at hexec
  cases hpc : s.pc o with
  | attempt r blocking =>
    rw [hpc] at hok hexec
    have howner : r.owner = o := hok
    dsimp only [LockRequest.attempt] at hexec
    split at hexec
    · cases hexec
      exact h.setPc hquiet rfl trivial
    rename_i conflict hattempt
    split_ifs at hexec
    · split at hexec <;> cases hexec
      · rename_i lock hlock
        refine h.setPc hquiet rfl ?_
        have hfound : findConflict (s.table r.key) r.owner (some lock) r.api = some conflict := by
          grind
        obtain ⟨hmem, hconflict⟩ := conflicts_of_findConflict hfound
        exact ⟨howner, hlock, hmem, howner ▸ hconflict⟩
      · exact h.setPc hquiet rfl howner
    · cases hexec
      exact h.setPc hquiet rfl trivial
  | check r lock conflict =>
    rw [hpc] at hok hexec
    dsimp only at hexec
    split_ifs at hexec <;> cases hexec
    · exact h.setPc hquiet rfl trivial
    · exact h.setPc hquiet rfl hok.1
  | record r lock =>
    rw [hpc] at hok hexec
    cases hexec
    exact h.setPc hquiet rfl hok
  | idle _ | blocked _ =>
    rw [hpc] at hexec
    cases hexec
  | granted | interrupted | releasing _ =>
    rw [hpc] at hexec
    cases hexec
    exact h.setPc hquiet rfl trivial

/-- Every action keeps it, if only the owner of a request on its way to sleep runs. -/
theorem LockSystem.AllMet.exec {a : Action} (h : s.AllMet) (halone : a.Alone s)
    (hexec : s.exec a = some s') : s'.AllMet := by
  have hquiet : (∀ o, a ≠ .step o) → ∀ o p, p ≠ o → ¬ (s.pc p).Busy :=
    fun hne _ p _ hbusy => hne p (halone p hbusy)
  cases a with
  | step o => exact h.advance halone.quiet hexec
  | call op blocking =>
    dsimp only [LockSystem.exec] at hexec
    split at hexec
    · split at hexec <;> cases hexec
      exact h.setPc (hquiet nofun _) rfl rfl
    · cases hexec
  | close o key =>
    dsimp only [LockSystem.exec] at hexec
    split at hexec <;> cases hexec
    exact h.setPc (hquiet nofun _) rfl trivial
  | wake o =>
    dsimp only [LockSystem.exec] at hexec
    split at hexec <;> cases hexec
    rename_i r hpc
    have hok := h o
    rw [hpc] at hok
    exact h.setPc (hquiet nofun _) rfl hok
  | interrupt o =>
    dsimp only [LockSystem.exec] at hexec
    split at hexec <;> cases hexec
    exact h.setPc (hquiet nofun _) rfl trivial

/-- A request that is refused with `ResourceDeadlock` would have closed a cycle of waits, in every
run in which only the owner of a request that met a conflict runs until it sleeps. -/
theorem refused_closes_cycle (actions : List Action)
    (halone : ActionsMeet Action.Alone init actions)
    (s : LockSystem) (hrun : init.run actions = some s) (o : AdvisoryLockOwner) (r : LockRequest)
    (lock conflict : AdvisoryLock) (hpc : s.pc o = .check r lock conflict)
    (hstep : s.exec (.step o) = some (s.setPc o (.idle (.error .resourceDeadlock)))) :
    ¬ Acyclic (s.setLockWait o r.key lock).WaitsFor := by
  have hinit : init.AllMet := fun _ => trivial
  have hmet : s.AllMet :=
    run_invariant (fun a s s' halone hexec h => h.exec halone hexec) hinit halone hrun
  have hok := hmet o
  rw [hpc] at hok
  obtain ⟨howner, hlock, hmem, hconflict⟩ := hok
  obtain ⟨hapi, hlockOwner, -⟩ := lock_eq hlock
  have hchain : ReflTransGen s.WaitsFor conflict.owner o := by
    rw [← lockWaitChainReaches_iff]
    by_contra hnot
    simp only [exec, advance, hpc, hnot, if_false, some.injEq] at hstep
    have hplace := congrArg (fun t => t.pc o) hstep
    simp [setPc] at hplace
  -- The chain is still there up to the first time that it meets `o`.
  have hpath : ReflTransGen (s.setLockWait o r.key lock).WaitsFor conflict.owner o := by
    refine hchain.head_induction_on .refl fun {a b} hab _ ih => ?_
    by_cases ha : a = o
    · exact ha ▸ .refl
    · refine .head ?_ ih
      rw [waitsFor_iff] at hab ⊢
      simpa only [setLockWait, AList.lookup_insert_ne ha] using hab
  refine fun hacyclic => hacyclic o (.head' ?_ hpath)
  rw [waitsFor_iff]
  refine ⟨⟨r.key, lock⟩, AList.lookup_insert _, conflict, hmem, ?_, rfl⟩
  simpa only [hapi, hlockOwner, howner] using hconflict

/-- Process 1 locks one file and process 2 another, then each asks for the file of the other. -/
def crossedLocks : List Action :=
  lockAtOnce fileX ⟨1, 0, 0, 1⟩ 1 ++ lockAtOnce fileY ⟨1, 0, 0, 1⟩ 2 ++
    lockAndSleep fileX ⟨1, 0, 0, 1⟩ 2 ++ (lockAtOnce fileY ⟨1, 0, 0, 1⟩ 1).take 2

/-- The second of them is refused. -/
theorem refused_closes_cycle_crossed : ∃ s lock, init.run crossedLocks = some s ∧
    ¬ Acyclic (s.setLockWait (.process 1) fileY.key lock).WaitsFor := by
  have halone : ActionsMeet Action.Alone init crossedLocks := by
    have hinit : ∀ a p, (init.pc p).Busy → a = step p := by rintro _ _ ⟨⟩
    iterate 12
      refine ⟨?_, ?_⟩
      · first
        | repeat refine busy_setPc ?_ (by first | exact False.elim | exact fun _ => rfl)
          exact hinit _
        -- Process 2 has been on its way to sleep before: only its last place counts.
        | intro p
          simp only [setPc, setLockWait, clearLockWait, update_apply]
          split_ifs <;> rintro ⟨⟩
      rintro _ ⟨⟩
    trivial
  exact ⟨_, _, rfl, refused_closes_cycle crossedLocks halone _ rfl (.process 1) _ _ _ rfl rfl⟩

end Seele.FileLocks
