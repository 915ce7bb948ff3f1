import Mathlib.Data.List.Pairwise
import Mathlib.Data.Prod.Lex
import Seele.FileLocks.Table

/-!
# Exclusion in the lock table

`TableOk` is what the lock table promises: two locks of one interface under one key with different
owners share a byte only if both are read locks, the POSIX locks of one owner share none, and every
lock covers a byte. `EntriesOk` is the invariant behind it, on the list under one key, in terms of
the source's own comparison `ranges_overlap`. A granted `fcntl` request goes through three steps:
the requested range is cut out of the owner's POSIX locks, the new lock joins the list, and
neighbours of one owner and type are merged.

The comparison treats an open-ended range as one that ends before `u64::MAX`, although such a range
covers that offset. A request that starts there, or one that ends there inside an open-ended lock,
puts a range into the table on which the two readings differ. `TableOk` holds along the runs without
such requests (`run_tableOk`), and `unlock_below_max_breaks_exclusion` is a run with one.
-/

namespace Seele.FileLocks

open List LockRequest AdvisoryLockRange Option

/-! ## The property -/

/-- The range covers the byte offset `o`. -/
def AdvisoryLockRange.Covers (r : AdvisoryLockRange) (o : ℕ) : Prop :=
  r.start ≤ o ∧ ∀ stop, r.stop = some stop → o < stop

/-- The ranges share a byte offset. -/
def Overlap (left right : AdvisoryLockRange) : Prop :=
  ∃ o, o ≤ U64_MAX ∧ left.Covers o ∧ right.Covers o

/-- What a lock table promises. -/
structure TableOk (table : LockTable) : Prop where
  /-- Locks of one interface with different owners share a byte only if both are read locks. -/
  exclusive : ∀ key, ∀ a ∈ table key, ∀ b ∈ table key, a.api = b.api → a.owner ≠ b.owner →
    Overlap a.range b.range → a.lockType = .read ∧ b.lockType = .read
  /-- The POSIX locks of one owner under a key are disjoint. -/
  disjoint : ∀ key, (table key).Pairwise fun a b => a.api = .posix → b.api = .posix →
    a.owner = b.owner → ¬ Overlap a.range b.range
  /-- Every lock covers a byte. -/
  nonempty : ∀ key, ∀ a ∈ table key, ∃ o, o ≤ U64_MAX ∧ a.range.Covers o

/-! ## Ranges -/

/-- The offset `o` lies in the range as the source compares ranges, below `range_end_bound`. -/
def AdvisoryLockRange.Spans (r : AdvisoryLockRange) (o : ℕ) : Prop :=
  r.start ≤ o ∧ o < rangeEndBound r

/-- The ranges that come into the table: `u64` offsets, and not empty, except for the open-ended
range at `u64::MAX`, which spans nothing. -/
structure AdvisoryLockRange.WellFormed (r : AdvisoryLockRange) : Prop where
  le_max : rangeEndBound r ≤ U64_MAX
  start_le : r.start ≤ rangeEndBound r
  start_lt : r.start < rangeEndBound r ∨ r.start = U64_MAX

variable {left right : AdvisoryLockRange}

/-- Ranges overlap if they share an offset. -/
theorem rangesOverlap_iff (hl : left.WellFormed) (hr : right.WellFormed) :
    rangesOverlap left right = true ↔ ∃ o, left.Spans o ∧ right.Spans o := by
  have hl1 := hl.start_lt
  have hl2 := hl.le_max
  have hr1 := hr.start_lt
  have hr2 := hr.le_max
  unfold rangesOverlap Spans
  simp only [Bool.and_eq_true, decide_eq_true_eq]
  constructor
  · -- The larger of the two starts is in both.
    rintro ⟨h1, h2⟩
    exact ⟨max left.start right.start, by omega, by omega⟩
  · rintro ⟨o, h1, h2⟩
    omega

/-- Below the maximum both notions agree. -/
theorem covers_iff_spans {r : AdvisoryLockRange} {o : ℕ} (ho : o < U64_MAX) :
    r.Covers o ↔ r.Spans o := by
  unfold Covers Spans rangeEndBound
  cases hstop : r.stop with
  | none => simp [ho]
  | some stop => simp

/-- A proper range covers its start. -/
theorem AdvisoryLockRange.WellFormed.covers_start {r : AdvisoryLockRange} (h : r.WellFormed)
    (hlt : r.start < U64_MAX) : r.Covers r.start := by
  have h1 := h.start_lt
  rw [covers_iff_spans hlt]
  exact ⟨Nat.le_refl _, by omega⟩

/-- Overlap is what the source tests. -/
theorem overlap_iff (hl : left.WellFormed) (hr : right.WellFormed) (hl' : left.start < U64_MAX)
    (hr' : right.start < U64_MAX) : Overlap left right ↔ rangesOverlap left right = true := by
  rw [rangesOverlap_iff hl hr]
  have hl2 := hl.le_max
  constructor
  · -- A shared byte at `u64::MAX` itself lies in two open-ended ranges.
    rintro ⟨o, ho, h1, h2⟩
    by_cases hmax : o < U64_MAX
    · grind [covers_iff_spans]
    have hstart : max left.start right.start < U64_MAX := by omega
    refine ⟨max left.start right.start, (covers_iff_spans hstart).mp ⟨by omega, ?_⟩,
      (covers_iff_spans hstart).mp ⟨by omega, ?_⟩⟩
    · intro stop hstop
      have := h1.2 stop hstop
      omega
    · intro stop hstop
      have := h2.2 stop hstop
      omega
  · rintro ⟨o, h1, h2⟩
    have hmax : o < U64_MAX := Nat.lt_of_lt_of_le h1.2 hl2
    exact ⟨o, Nat.le_of_lt hmax, (covers_iff_spans hmax).mpr h1, (covers_iff_spans hmax).mpr h2⟩

/-! ## Cutting a range out of a lock -/

/-- `p` is what is left of `lock` outside the range `remove`, or a part of it. -/
structure PieceOf (p lock : AdvisoryLock) (remove : AdvisoryLockRange) : Prop where
  api : p.api = lock.api
  owner : p.owner = lock.owner
  lockType : p.lockType = lock.lockType
  wellFormed : p.range.WellFormed
  spans : ∀ o, p.range.Spans o → lock.range.Spans o
  outside : ∀ o, p.range.Spans o → ¬ remove.Spans o

variable {lock : AdvisoryLock} {remove : AdvisoryLockRange} {p : AdvisoryLock}

/-- The pieces that are left of a lock. -/
theorem mem_subtractLockRange (hover : rangesOverlap lock.range remove = true) :
    p ∈ subtractLockRange lock remove ↔ (lock.range.start < remove.start ∧
        p = { lock with range := ⟨lock.range.start, some remove.start⟩ }) ∨
      ∃ removeEnd, remove.stop = some removeEnd ∧
        lock.range.stop.all (fun stop => removeEnd < stop) = true ∧
        p = { lock with range := ⟨removeEnd, lock.range.stop⟩ } := by
  unfold subtractLockRange
  grind

/-- A lock that is not met stays whole. -/
theorem subtractLockRange_of_not_overlap (hover : ¬ rangesOverlap lock.range remove = true) :
    subtractLockRange lock remove = [lock] := by
  unfold subtractLockRange
  rw [if_pos (by simpa using hover)]

/-- The pieces are proper ranges. -/
theorem wellFormed_of_mem_subtractLockRange (hl : lock.range.WellFormed) (hr : remove.WellFormed)
    (hp : p ∈ subtractLockRange lock remove) : p.range.WellFormed := by
  by_cases hover : rangesOverlap lock.range remove = true
  · have hl2 := hl.le_max
    have hr2 := hr.le_max
    rcases (mem_subtractLockRange hover).mp hp with ⟨hlt, rfl⟩ | ⟨removeEnd, hstop, hkeep, rfl⟩
    · have hr3 := hr.start_le
      refine ⟨?_, Nat.le_of_lt hlt, Or.inl hlt⟩
      show remove.start ≤ U64_MAX
      omega
    -- An open-ended lock leaves an open-ended piece, which may start at `u64::MAX`.
    have hstart : removeEnd < lock.range.stop.getD U64_MAX ∨
        removeEnd = U64_MAX ∧ lock.range.stop.getD U64_MAX = U64_MAX := by
      rw [rangeEndBound, hstop, getD_some] at hr2
      cases hls : lock.range.stop with
      | none =>
        rw [getD_none]
        omega
      | some stop => grind
    refine ⟨hl2, ?_, hstart.imp_right And.left⟩
    show removeEnd ≤ lock.range.stop.getD U64_MAX
    omega
  · rw [subtractLockRange_of_not_overlap hover, mem_singleton] at hp
    rw [hp]
    exact hl

/-- The interface, the owner and the type of a lock. -/
def AdvisoryLock.kind (lock : AdvisoryLock) :
    AdvisoryLockApi × AdvisoryLockOwner × AdvisoryLockType :=
  (lock.api, lock.owner, lock.lockType)

variable {kind : AdvisoryLockApi × AdvisoryLockOwner × AdvisoryLockType} {o : ℕ}

/-- What is left of a lock spans what it spanned outside the range. -/
theorem spans_subtractLockRange_iff (hl : rangeEndBound lock.range ≤ U64_MAX) :
    (∃ p ∈ subtractLockRange lock remove, p.kind = kind ∧ p.range.Spans o) ↔
      lock.kind = kind ∧ lock.range.Spans o ∧ ¬ remove.Spans o := by
  by_cases hover : rangesOverlap lock.range remove = true
  · have hshare : lock.range.start < rangeEndBound remove ∧
        remove.start < rangeEndBound lock.range := by simpa [rangesOverlap] using hover
    simp only [mem_subtractLockRange hover]
    constructor
    · rintro ⟨p, ⟨hlt, rfl⟩ | ⟨removeEnd, hstop, hkeep, rfl⟩, hkind, h1, h2⟩
      · have h2' : o < remove.start := h2
        exact ⟨hkind, ⟨h1, by omega⟩, fun h => by have := h.1; omega⟩
      · have hend : rangeEndBound remove = removeEnd := by rw [rangeEndBound, hstop]; rfl
        have h1' : removeEnd ≤ o := h1
        exact ⟨hkind, ⟨by omega, h2⟩, fun h => by have := h.2; omega⟩
    rintro ⟨hkind, ⟨h1, h2⟩, hout⟩
    by_cases hlt : o < remove.start
    · exact ⟨_, .inl ⟨by omega, rfl⟩, hkind, h1, hlt⟩
    have hpast : rangeEndBound remove ≤ o :=
      Nat.le_of_not_lt fun hin => hout ⟨Nat.le_of_not_lt hlt, hin⟩
    unfold rangeEndBound at h2 hl hpast
    cases hstop : remove.stop with
    | none =>
      rw [hstop, getD_none] at hpast
      omega
    | some removeEnd =>
    rw [hstop, getD_some] at hpast
    refine ⟨_, .inr ⟨removeEnd, rfl, ?_, rfl⟩, hkind, hpast, h2⟩
    cases hls : lock.range.stop with
    | none => rfl
    | some stop =>
      rw [hls, getD_some] at h2
      exact decide_eq_true (by omega)
  rw [subtractLockRange_of_not_overlap hover]
  have hapart : ¬ (lock.range.start < rangeEndBound remove ∧
      remove.start < rangeEndBound lock.range) := by simpa [rangesOverlap] using hover
  simp only [mem_singleton, exists_eq_left, Spans]
  refine and_congr_right fun _ => (and_iff_left_of_imp ?_).symm
  omega

/-- What is left are pieces outside of the range. -/
theorem pieceOf_of_mem_subtractLockRange (hl : lock.range.WellFormed) (hr : remove.WellFormed)
    (hp : p ∈ subtractLockRange lock remove) : PieceOf p lock remove := by
  have hkind : p.api = lock.api ∧ p.owner = lock.owner ∧ p.lockType = lock.lockType := by
    grind [subtractLockRange]
  have hspans := fun o ho => (spans_subtractLockRange_iff (o := o) hl.le_max).mp ⟨p, hp, rfl, ho⟩
  exact ⟨hkind.1, hkind.2.1, hkind.2.2, wellFormed_of_mem_subtractLockRange hl hr hp,
    fun o ho => (hspans o ho).2.1, fun o ho => (hspans o ho).2.2⟩

/-- The pieces have no offset in common: the left one ends where the range starts, the right one
starts where it ends. -/
theorem pairwise_subtractLockRange (hr : remove.WellFormed) :
    (subtractLockRange lock remove).Pairwise fun p q => rangesOverlap p.range q.range = false := by
  by_cases hover : rangesOverlap lock.range remove = true
  · unfold subtractLockRange
    rw [if_neg (by rw [hover]; decide), pairwise_append]
    refine ⟨?_, ?_, ?_⟩
    · grind
    · grind
    intro p hp q hq
    split at hp
    · split at hq
      · cases hq
      next removeEnd hstop =>
      split at hq
      · rw [mem_singleton.mp hp, mem_singleton.mp hq]
        have h1 := hr.start_le
        unfold rangeEndBound at h1
        rw [hstop, getD_some] at h1
        refine Bool.and_eq_false_iff.mpr (Or.inr (decide_eq_false ?_))
        exact Nat.not_lt.mpr h1
      · cases hq
    · cases hp
  · grind [subtractLockRange_of_not_overlap]

/-! ## The invariant -/

/-- Two locks under one key that may stand side by side. -/
def Compatible (a b : AdvisoryLock) : Prop :=
  a.api = b.api → rangesOverlap a.range b.range = true →
    (a.owner = b.owner ∧ a.api = .flock) ∨
      (a.owner ≠ b.owner ∧ a.lockType = .read ∧ b.lockType = .read)

/-- The invariant of the list under one key. -/
structure EntriesOk (entries : List AdvisoryLock) : Prop where
  wellFormed : ∀ a ∈ entries, a.range.WellFormed
  compatible : entries.Pairwise Compatible

/-- Overlap is symmetric. -/
theorem rangesOverlap_comm : rangesOverlap left right = rangesOverlap right left := by
  exact Bool.and_comm _ _

variable {a b : AdvisoryLock}

/-- Compatibility is symmetric. -/
theorem Compatible.symm (h : Compatible a b) : Compatible b a := by
  intro hapi hover
  rw [rangesOverlap_comm] at hover
  rcases h hapi.symm hover with ⟨h1, h2⟩ | ⟨h1, h2, h3⟩
  · exact .inl ⟨h1.symm, hapi.trans h2⟩
  · exact .inr ⟨h1.symm, h3, h2⟩

instance : Std.Symm Compatible := ⟨fun _ _ => Compatible.symm⟩

/-- A piece is compatible with what the lock was. -/
theorem Compatible.of_piece (h : Compatible a b) (hp : PieceOf p a remove) (ha : a.range.WellFormed)
    (hb : b.range.WellFormed) : Compatible p b := by
  intro heq hover
  obtain ⟨o, h1, h2⟩ := (rangesOverlap_iff hp.wellFormed hb).mp hover
  rw [hp.api] at heq
  rw [hp.api, hp.owner, hp.lockType]
  exact h heq ((rangesOverlap_iff ha hb).mpr ⟨o, hp.spans o h1, h2⟩)

variable {l : List AdvisoryLock}

/-- The order does not matter. -/
theorem EntriesOk.perm {l' : List AdvisoryLock} (h : EntriesOk l) (hp : l.Perm l') : EntriesOk l' :=
  ⟨fun a ha => h.wellFormed a (hp.mem_iff.mpr ha),
    (hp.pairwise_iff fun {_ _} h => .symm h).mp h.compatible⟩

/-- Some of the entries. -/
theorem EntriesOk.filter (h : EntriesOk l) (p : AdvisoryLock → Bool) : EntriesOk (l.filter p) :=
  ⟨fun a ha => h.wellFormed a (mem_of_mem_filter ha), h.compatible.filter p⟩

/-- One more lock that is compatible. -/
theorem EntriesOk.append_singleton (h : EntriesOk l)
    (hv : a.range.WellFormed) (hc : ∀ b ∈ l, Compatible b a) : EntriesOk (l ++ [a]) := by
  refine ⟨?_, ?_⟩
  · grind [h.wellFormed]
  · grind [h.compatible]

/-! ## Cutting the owner's locks -/

/-- What `apply_posix_lock` leaves of one entry before it adds the new lock. -/
def cutEntry (owner : AdvisoryLockOwner) (range : AdvisoryLockRange) (entry : AdvisoryLock) :
    List AdvisoryLock :=
  if entry.api ≠ .posix ∨ entry.owner ≠ owner then [entry] else subtractLockRange entry range

variable {owner : AdvisoryLockOwner} {entry : AdvisoryLock} {range : AdvisoryLockRange}

/-- What is left of an entry. -/
theorem mem_cutEntry : p ∈ cutEntry owner range entry ↔
      (p = entry ∧ (entry.api ≠ .posix ∨ entry.owner ≠ owner)) ∨
        (p ∈ subtractLockRange entry range ∧ entry.api = .posix ∧ entry.owner = owner) := by
  unfold cutEntry
  grind

/-- A piece is proper and stays compatible. -/
theorem compatible_cutEntry (hentry : entry.range.WellFormed)
    (hr : range.WellFormed) (hb : b.range.WellFormed) (hp : p ∈ cutEntry owner range entry)
    (h : Compatible entry b) : p.range.WellFormed ∧ Compatible p b := by
  rcases mem_cutEntry.mp hp with ⟨rfl, -⟩ | ⟨hp, -⟩
  · exact ⟨hentry, h⟩
  · have hpiece := pieceOf_of_mem_subtractLockRange hentry hr hp
    exact ⟨hpiece.wellFormed, h.of_piece hpiece hentry hb⟩

variable {entries : List AdvisoryLock}

/-- The owner's locks can be cut. -/
theorem subtractOwned_ok (h : EntriesOk entries) (hr : remove.WellFormed) :
    EntriesOk (subtractOwned entries owner remove) := by
  have hwf : ∀ e ∈ entries, ∀ p ∈ cutEntry owner remove e, p.range.WellFormed := by
    intro e he p hp
    rcases mem_cutEntry.mp hp with ⟨rfl, -⟩ | ⟨hp, -⟩
    · exact h.wellFormed p he
    · exact (pieceOf_of_mem_subtractLockRange (h.wellFormed e he) hr hp).wellFormed
  refine ⟨?_, ?_⟩
  · intro p hp
    obtain ⟨e, he, hp⟩ := mem_flatMap.mp hp
    exact hwf e he p hp
  unfold subtractOwned
  rw [pairwise_flatMap]
  refine ⟨?_, ?_⟩
  · -- The pieces of one lock have no offset in common.
    intro e he
    split
    · exact pairwise_singleton _ _
    refine (pairwise_subtractLockRange hr).imp ?_
    intro p q hpq _ hover
    rw [hpq] at hover
    cases hover
  refine h.compatible.imp_of_mem ?_
  intro e e' he he' hc p hp q hq
  have hp' := (compatible_cutEntry (h.wellFormed e he) hr (h.wellFormed e' he') hp hc).2
  exact (compatible_cutEntry (h.wellFormed e' he') hr (hwf e he p hp) hq hp'.symm).2.symm

/-- A lock that is left is an untouched one of another owner or interface, or it has no offset in
common with the range. -/
theorem mem_subtractOwned (h : ∀ a ∈ entries, a.range.WellFormed) (hr : remove.WellFormed)
    (hp : p ∈ subtractOwned entries owner remove) :
    (p ∈ entries ∧ (p.api ≠ .posix ∨ p.owner ≠ owner)) ∨
      (p.api = .posix ∧ p.owner = owner ∧ rangesOverlap p.range remove = false) := by
  obtain ⟨e, he, hp⟩ := mem_flatMap.mp hp
  rcases mem_cutEntry.mp hp with ⟨rfl, hne⟩ | ⟨hp, hapi, howner⟩
  · exact .inl ⟨he, hne⟩
  · have hpiece := pieceOf_of_mem_subtractLockRange (h e he) hr hp
    refine .inr ⟨hpiece.api.trans hapi, hpiece.owner.trans howner, ?_⟩
    grind [rangesOverlap_iff, hpiece.wellFormed, hpiece.outside]

/-! ## Merging neighbours -/

/-- The merged range ends at the later end. -/
theorem rangeEndBound_merge (hl : rangeEndBound left ≤ U64_MAX)
    (hr : rangeEndBound right ≤ U64_MAX) :
    rangeEndBound ⟨left.start, mergeLockEnds left.stop right.stop⟩ =
      max (rangeEndBound left) (rangeEndBound right) := by
  obtain ⟨s, e⟩ := left
  obtain ⟨s', e'⟩ := right
  unfold rangeEndBound at *
  cases e with
  | none =>
    simp only [mergeLockEnds, getD_none] at *
    omega
  | some e =>
  cases e' with
  | none =>
    simp only [mergeLockEnds, getD_none] at *
    omega
  | some e' => rfl

/-- The merged range spans what the two ranges span, when the second starts inside the first or
right behind it. -/
theorem spans_merge (hstart : left.start ≤ right.start) (hnext : right.start ≤ rangeEndBound left)
    (hl : rangeEndBound left ≤ U64_MAX) (hr : rangeEndBound right ≤ U64_MAX) {o : ℕ} :
    Spans ⟨left.start, mergeLockEnds left.stop right.stop⟩ o ↔ left.Spans o ∨ right.Spans o := by
  grind [Spans, rangeEndBound_merge]

/-- A merged range is proper. -/
theorem wellFormed_merge (hl : left.WellFormed) (hr : right.WellFormed) :
    WellFormed ⟨left.start, mergeLockEnds left.stop right.stop⟩ := by
  have hl1 := hl.start_lt
  have hl2 := hl.le_max
  have hl3 := hl.start_le
  have hr2 := hr.le_max
  constructor <;> rw [rangeEndBound_merge hl2 hr2]
  · omega
  · show left.start ≤ _
    omega
  · show left.start < _ ∨ left.start = _
    omega

/-- Locks of one interface, owner and type are in ascending order of their starts. -/
def StartLe (a b : AdvisoryLock) : Prop :=
  a.api = b.api → a.owner = b.owner → a.lockType = b.lockType → a.range.start ≤ b.range.start

variable {last : AdvisoryLock}

/-- The next lock is merged into the last one when they agree on everything but the range, and the
ranges touch. -/
theorem canMergePosixLocks_iff :
    canMergePosixLocks last entry = true ↔ last.api = .posix ∧ entry.api = .posix ∧
      last.owner = entry.owner ∧ last.lockType = entry.lockType ∧
      entry.range.start ≤ rangeEndBound last.range := by
  simp [and_assoc, canMergePosixLocks]

/-- What the loop of `merge_posix_locks` carries along: the locks that are left are valid and in
order. -/
def MergeReady (entries : List AdvisoryLock) : Prop :=
  (∀ a ∈ entries, a.range.WellFormed) ∧ entries.Pairwise StartLe

/-- Without the first lock. -/
theorem MergeReady.tail (h : MergeReady (last :: entries)) : MergeReady entries :=
  ⟨fun a ha => h.1 a (mem_cons_of_mem last ha), h.2.of_cons⟩

/-- With the first two merged. -/
theorem MergeReady.merge (h : MergeReady (last :: entry :: entries)) :
    MergeReady (mergeInto last entry :: entries) := by
  obtain ⟨hv, hs⟩ := h
  simp only [forall_mem_cons] at hv
  rw [pairwise_cons] at hs
  refine ⟨?_, ?_⟩
  · rw [forall_mem_cons]
    exact ⟨wellFormed_merge hv.1 hv.2.1, hv.2.2⟩
  · rw [pairwise_cons]
    refine ⟨fun b hb => ?_, hs.2.of_cons⟩
    exact hs.1 b (mem_cons_of_mem entry hb)

/-- Merging changes nothing at any offset. -/
theorem spans_mergeFrom_iff (last : AdvisoryLock)
    (hbound : ∀ a ∈ last :: entries, rangeEndBound a.range ≤ U64_MAX)
    (hsorted : (last :: entries).Pairwise StartLe) :
    (∃ b ∈ mergeFrom last entries, b.kind = kind ∧ b.range.Spans o) ↔
      ∃ a ∈ last :: entries, a.kind = kind ∧ a.range.Spans o := by
  induction entries generalizing last with
  | nil => rfl
  | cons entry entries ih =>
  have hb := hbound
  simp only [forall_mem_cons] at hb
  rw [pairwise_cons] at hsorted
  unfold mergeFrom
  split
  · next hmerge =>
    obtain ⟨hp, hp', howner, htype, hnext⟩ := canMergePosixLocks_iff.mp hmerge
    have hle := hsorted.1 entry mem_cons_self (hp.trans hp'.symm) howner htype
    have hspans := spans_merge hle hnext hb.1 hb.2.1 (o := o)
    have hkind : entry.kind = last.kind := by simp [AdvisoryLock.kind, hp, hp', howner, htype]
    rw [ih (mergeInto last entry)]
    · simp only [exists_mem_cons_iff, hkind]
      show (last.kind = kind ∧ Spans ⟨last.range.start, _⟩ o) ∨ _ ↔ _
      rw [hspans]
      grind
    · rw [forall_mem_cons]
      refine ⟨?_, hb.2.2⟩
      rw [mergeInto, rangeEndBound_merge hb.1 hb.2.1]
      omega
    · rw [pairwise_cons]
      exact ⟨fun b hb => hsorted.1 b (mem_cons_of_mem entry hb), hsorted.2.of_cons⟩
  · rw [exists_mem_cons_iff, exists_mem_cons_iff,
      ih entry (fun a ha => hbound a (mem_cons_of_mem last ha)) hsorted.2]

variable (hready : MergeReady (last :: entries))

include hready

/-- Merged locks are proper ranges. -/
theorem wellFormed_mergeFrom : ∀ b ∈ mergeFrom last entries, b.range.WellFormed := by
  induction entries generalizing last with
  | nil => exact hready.1
  | cons entry entries ih =>
  unfold mergeFrom
  split
  · exact ih hready.merge
  · rw [forall_mem_cons]
    exact ⟨hready.1 last mem_cons_self, ih hready.tail⟩

/-- What overlaps a lock of the merged list overlaps one of the same interface, owner and type in
the list before. -/
theorem rangesOverlap_of_mem_mergeFrom (hr : range.WellFormed) (hb : b ∈ mergeFrom last entries)
    (hover : rangesOverlap b.range range = true) :
    ∃ a ∈ last :: entries, a.api = b.api ∧ a.owner = b.owner ∧ a.lockType = b.lockType ∧
      rangesOverlap a.range range = true := by
  obtain ⟨o, hbo, hro⟩ := (rangesOverlap_iff (wellFormed_mergeFrom hready b hb) hr).mp hover
  obtain ⟨a, ha, hkind, hao⟩ := (spans_mergeFrom_iff last (fun a ha => (hready.1 a ha).le_max)
    hready.2).mp ⟨b, hb, rfl, hbo⟩
  have hsame : a.api = b.api ∧ a.owner = b.owner ∧ a.lockType = b.lockType := by
    simpa [AdvisoryLock.kind] using hkind
  exact ⟨a, ha, hsame.1, hsame.2.1, hsame.2.2,
    (rangesOverlap_iff (hready.1 a ha) hr).mpr ⟨o, hao, hro⟩⟩

/-- Merged locks stay compatible with another. -/
theorem compatible_mergeFrom (hb : b.range.WellFormed)
    (h : ∀ a ∈ last :: entries, Compatible a b) : ∀ a ∈ mergeFrom last entries, Compatible a b := by
  intro a ha hapi hover
  obtain ⟨a', ha', hapi', howner, htype, hover'⟩ :=
    rangesOverlap_of_mem_mergeFrom hready hb ha hover
  have hc := h a' ha' (hapi'.trans hapi) hover'
  rwa [hapi', howner, htype] at hc

omit hready

/-- Merging sorted locks keeps them in order. -/
theorem mergeFrom_ok (last : AdvisoryLock) (h : EntriesOk (last :: entries))
    (hsorted : (last :: entries).Pairwise StartLe) : EntriesOk (mergeFrom last entries) := by
  refine ⟨wellFormed_mergeFrom ⟨h.wellFormed, hsorted⟩, ?_⟩
  induction entries generalizing last with
  | nil => exact h.compatible
  | cons entry entries ih =>
  have hready : MergeReady (last :: entry :: entries) := ⟨h.wellFormed, hsorted⟩
  have hc := h.compatible
  rw [pairwise_cons, pairwise_cons] at hc
  unfold mergeFrom
  split
  · next hmerge =>
    refine ih _ ⟨hready.merge.1, ?_⟩ hready.merge.2
    -- The merged lock is what merging makes of the two alone.
    have hpair : MergeReady [last, entry] := by grind [MergeReady]
    have hmem : mergeInto last entry ∈ mergeFrom last [entry] := by simp [mergeFrom, hmerge]
    rw [pairwise_cons]
    refine ⟨fun b hb => ?_, hc.2.2⟩
    refine compatible_mergeFrom hpair (h.wellFormed b (by simp [hb])) ?_ _ hmem
    grind
  rw [pairwise_cons]
  refine ⟨fun a ha => ?_, ih entry ⟨hready.tail.1, h.compatible.of_cons⟩ hready.tail.2⟩
  exact (compatible_mergeFrom hready.tail (hready.1 last mem_cons_self)
    (fun b hb => (hc.1 b hb).symm) a ha).symm

instance : Std.Total SortLe := ⟨fun left right => le_total (sortKey left) (sortKey right)⟩

instance : IsTrans AdvisoryLock SortLe := ⟨fun left _ _ => le_trans (a := sortKey left)⟩

/-- Sorting by the key of `merge_posix_locks` puts locks of one interface, owner and type in order
of their starts. -/
theorem SortLe.startLe (h : SortLe a b) : StartLe a b := by
  intro h1 h2 h3
  unfold SortLe sortKey at h
  grind [Prod.Lex.toLex_le_toLex]

/-- Merging all locks keeps them in order. -/
theorem mergePosixLocks_ok (h : EntriesOk entries) : EntriesOk (mergePosixLocks entries) := by
  have hperm := perm_insertionSort SortLe entries
  have hsorted := pairwise_insertionSort SortLe entries
  unfold mergePosixLocks
  generalize entries.insertionSort SortLe = sorted at *
  grind [mergeFrom_ok, h.perm, hsorted.imp, SortLe.startLe]

/-! ## Grants and releases -/

/-- Without a conflict no entry is in the way. -/
theorem not_conflicts_of_findConflict {requested : AdvisoryLock} {api : AdvisoryLockApi}
    (h : findConflict entries owner (some requested) api = none) :
    ∀ e ∈ entries, conflicts e owner requested api = false := by
  intro e he
  simp only [findConflict, argmin_eq_none, filter_eq_nil_iff] at h
  exact Bool.eq_false_iff.mpr (h e he)

/-- What is not in the way is compatible. -/
theorem compatible_of_not_conflicts {e requested : AdvisoryLock} (hne : e.owner ≠ requested.owner)
    (h : conflicts e requested.owner requested requested.api = false) : Compatible e requested := by
  intro hapi hover
  unfold conflicts at h
  grind

/-- A POSIX request that meets no conflict. -/
theorem applyPosixLock_ok {request : ParsedFlockRequest} (h : EntriesOk entries)
    (hr : request.range.WellFormed)
    (hfree : ∀ lockType, request.lockType = some lockType → ∀ e ∈ entries,
      conflicts e owner ⟨.posix, owner, lockType, request.range⟩ .posix = false) :
    EntriesOk (applyPosixLock entries owner request) := by
  have hcut : EntriesOk (subtractOwned entries owner request.range) := subtractOwned_ok h hr
  apply mergePosixLocks_ok
  cases htype : request.lockType with
  | none => exact hcut
  | some lockType =>
  refine hcut.append_singleton hr ?_
  intro p hp
  rcases mem_subtractOwned h.wellFormed hr hp with ⟨hmem, hne | hne⟩ | ⟨-, -, hdis⟩
  · -- A lock of the other interface.
    intro hapi
    exact absurd hapi hne
  · -- A lock of another owner was checked for a conflict.
    grind [compatible_of_not_conflicts]
  -- What is left of the owner's locks has nothing in common with the new one.
  intro _ hover
  rw [hdis] at hover
  cases hover

/-- The range of a whole file. -/
theorem wellFormed_whole : WellFormed ⟨0, none⟩ := by constructor <;> decide

variable {r : LockRequest}

/-- A `flock` request that meets no conflict. -/
theorem grantFlock_ok (h : EntriesOk entries) (hapi : r.api = .flock)
    (hr : r.request.range.WellFormed) (hfree : findConflict entries r.owner r.lock r.api = none) :
    EntriesOk (r.grant entries) := by
  have hrest := h.filter fun entry => !(entry.api == .flock && entry.owner == r.owner)
  unfold grant
  rw [hapi]
  simp only
  cases hlock : r.lock with
  | none => exact hrest
  | some lock =>
  rw [hlock] at hfree
  obtain ⟨lockType, -, rfl⟩ := map_eq_some_iff.mp hlock
  refine hrest.append_singleton hr ?_
  intro e he
  obtain ⟨hmem, hkept⟩ := mem_filter.mp he
  by_cases howner : e.owner = r.owner
  · -- The owner's own `flock` entry is gone, its POSIX locks are of the other interface.
    intro hapi' _
    rw [hapi] at hapi'
    simp [hapi', howner] at hkept
  · exact compatible_of_not_conflicts howner (not_conflicts_of_findConflict hfree e hmem)

/-- Any request that meets no conflict. -/
theorem grant_ok (h : EntriesOk entries) (hr : r.request.range.WellFormed)
    (hfree : findConflict entries r.owner r.lock r.api = none) : EntriesOk (r.grant entries) := by
  grind [grantFlock_ok, grant, applyPosixLock_ok, lock, not_conflicts_of_findConflict]

/-! ## The ranges that start below `u64::MAX` -/

/-- Every lock of the list starts below `u64::MAX`. -/
def StartsBelowMax (entries : List AdvisoryLock) : Prop :=
  ∀ a ∈ entries, a.range.start < U64_MAX

/-- The condition on a request: its range does not start at `u64::MAX`, and it does not end there
while an open-ended POSIX lock of its owner stands under its key. -/
def LockRequest.Safe (r : LockRequest) (table : LockTable) : Prop :=
  r.request.range.start < U64_MAX ∧ (r.request.range.stop = some U64_MAX →
    ∀ e ∈ table r.key, e.api = .posix → e.owner = r.owner → e.range.stop ≠ none)

instance (r : LockRequest) (table : LockTable) : Decidable (r.Safe table) :=
  inferInstanceAs (Decidable (_ ∧ (_ → _)))

/-- A cut leaves no piece that starts at `u64::MAX`, unless it ends there inside an open-ended
lock. -/
theorem start_lt_of_mem_subtractLockRange (hl : lock.range.WellFormed)
    (hlt : lock.range.start < U64_MAX) (hr : remove.WellFormed)
    (hcut : remove.stop = some U64_MAX → lock.range.stop ≠ none)
    (hp : p ∈ subtractLockRange lock remove) : p.range.start < U64_MAX := by
  by_cases hover : rangesOverlap lock.range remove = true
  · rcases (mem_subtractLockRange hover).mp hp with ⟨-, rfl⟩ | ⟨removeEnd, hstop, hkeep, rfl⟩
    · exact hlt
    show removeEnd < U64_MAX
    have hl2 := hl.le_max
    have hr2 := hr.le_max
    unfold rangeEndBound at hl2 hr2
    cases hls : lock.range.stop with
    | none => grind
    | some stop => grind
  · grind [subtractLockRange_of_not_overlap]

/-- Merging adds no start. -/
theorem startsBelowMax_mergeFrom
    (h : StartsBelowMax (last :: entries)) : StartsBelowMax (mergeFrom last entries) := by
  induction entries generalizing last with
  | nil => exact h
  | cons entry entries ih =>
  unfold StartsBelowMax at h
  simp only [forall_mem_cons] at h
  unfold mergeFrom
  split
  · apply ih
    unfold StartsBelowMax
    rw [forall_mem_cons]
    exact ⟨h.1, h.2.2⟩
  · grind [StartsBelowMax]

/-- Merging all locks adds no start. -/
theorem startsBelowMax_mergePosixLocks (h : StartsBelowMax entries) :
    StartsBelowMax (mergePosixLocks entries) := by
  have hsorted : StartsBelowMax (entries.insertionSort SortLe) := fun p hp =>
    h p ((mem_insertionSort SortLe).mp hp)
  unfold mergePosixLocks
  generalize entries.insertionSort SortLe = sorted at hsorted
  grind [startsBelowMax_mergeFrom]

/-- One more lock that starts below the maximum. -/
theorem StartsBelowMax.append_singleton (h : StartsBelowMax entries)
    (hlock : lock.range.start < U64_MAX) : StartsBelowMax (entries ++ [lock]) := by
  intro p hp
  rcases mem_append.mp hp with hp | hp
  · exact h p hp
  · rw [mem_singleton.mp hp]
    exact hlock

variable {table : LockTable}

/-- A safe request adds no start at the maximum. -/
theorem startsBelowMax_grant (h : EntriesOk (table r.key)) (hbelow : StartsBelowMax (table r.key))
    (hr : r.request.range.WellFormed) (hsafe : r.Safe table) :
    StartsBelowMax (r.grant (table r.key)) := by
  unfold grant
  split
  · have hcut : StartsBelowMax (subtractOwned (table r.key) r.owner r.request.range) := by
      intro p hp
      obtain ⟨e, he, hp⟩ := mem_flatMap.mp hp
      rcases mem_cutEntry.mp hp with ⟨rfl, -⟩ | ⟨hp, hapi, howner⟩
      · exact hbelow p he
      · exact start_lt_of_mem_subtractLockRange (h.wellFormed e he) (hbelow e he) hr
          (fun hstop => hsafe.2 hstop e he hapi howner) hp
    apply startsBelowMax_mergePosixLocks
    cases r.request.lockType with
    | none => exact hcut
    | some lockType => exact hcut.append_singleton hsafe.1
  -- A `flock` request replaces the owner's entry.
  have hrest : StartsBelowMax ((table r.key).filter fun entry =>
      !(entry.api == .flock && entry.owner == r.owner)) := fun p hp =>
    hbelow p (mem_of_mem_filter hp)
  cases hlock : r.lock with
  | none => exact hrest
  | some lock =>
    obtain ⟨lockType, -, rfl⟩ := map_eq_some_iff.mp hlock
    exact hrest.append_singleton hsafe.1

/-! ## Runs -/

/-- The calls that change the lock table, with the attempts of a blocking call one by one. -/
inductive Op where
  | fcntlSetLock (object : LockObject) (flock : LinuxFlock) (ofd : Bool) (pid : ℕ)
  | flockLock (object : LockObject) (operation : BitVec 32)
  | releaseProcessLock (key : String) (pid : ℕ)
  | releaseOfdLock (key : String) (ptr : ℕ)

/-- The request of a call, if it makes one. -/
def Op.request : Op → Option LockRequest
  | .fcntlSetLock object flock ofd pid => (fcntlRequest object flock ofd pid).toOption
  | .flockLock object operation => (flockRequest object operation).toOption
  | .releaseProcessLock _ _ => none
  | .releaseOfdLock _ _ => none

/-- An attempt that meets a conflict leaves the table as it is. -/
def LockRequest.apply (r : LockRequest) (table : LockTable) : LockTable :=
  match r.attempt table with
  | .inl _ => table
  | .inr table' => table'

/-- One call on the table. -/
def LockTable.step (table : LockTable) (op : Op) : LockTable :=
  match op with
  | .releaseProcessLock key pid => releaseOwner table key (.process pid)
  | .releaseOfdLock key ptr => releaseOwner table key (.openFileDescription ptr)
  | _ => match op.request with
    | some r => r.apply table
    | none => table

open LockTable

/-- A sequence of calls on the table. -/
def LockTable.run (table : LockTable) (ops : List Op) : LockTable := ops.foldl step table

/-- The condition on a call: its request, if it makes one, is safe. -/
def Op.Safe (op : Op) (table : LockTable) : Prop :=
  match op.request with
  | some r => r.Safe table
  | none => True

instance (op : Op) (table : LockTable) : Decidable (op.Safe table) :=
  match h : op.request with
  | some r => decidable_of_iff (r.Safe table) (by rw [Op.Safe, h])
  | none => .isTrue (by rw [Op.Safe, h]; trivial)

/-- Every call of a run is safe in the table that it finds. -/
def SafeRun (table : LockTable) : List Op → Prop
  | [] => True
  | op :: ops => op.Safe table ∧ SafeRun (table.step op) ops

instance SafeRun.decidable : ∀ (ops : List Op) (table : LockTable), Decidable (SafeRun table ops)
  | [], _ => .isTrue trivial
  | op :: ops, table =>
    have := SafeRun.decidable ops (table.step op)
    inferInstanceAs (Decidable (op.Safe table ∧ SafeRun (table.step op) ops))

/-- The invariant of the table. -/
def Inv (table : LockTable) : Prop := ∀ key, EntriesOk (table key)

variable {object : LockObject} {flock : LinuxFlock}

/-- A range that is accepted is proper. -/
theorem wellFormed_of_resolveFlockRange
    (h : resolveFlockRange flock object = .ok range) : range.WellFormed := by
  unfold resolveFlockRange at h
  cases hbase : flockBase flock object with
  | error e => rw [hbase] at h; cases h
  | ok base =>
  rw [hbase] at h
  simp only [bind, Except.bind] at h
  cases hadd : checkedAddSigned base flock.start.toInt with
  | none => rw [hadd] at h; cases h
  | some start =>
  rw [hadd] at h
  have hmax : start ≤ U64_MAX := by
    unfold checkedAddSigned at hadd
    grind
  simp only [flockRangeFrom] at h
  generalize flock.len.toInt = len at h
  split at h
  · -- A positive length: the sum was checked.
    split at h
    · next hpos hle =>
      cases h
      have hlt : start < start + len.toNat := by omega
      exact ⟨hle, Nat.le_of_lt hlt, Or.inl hlt⟩
    · cases h
  split at h
  · cases h
    exact ⟨Nat.le_refl _, hmax, Nat.lt_or_eq_of_le hmax⟩
  -- A negative length: the bytes before `start`.
  split at h
  · cases h
    have hlt : start - len.natAbs < start := by omega
    exact ⟨hmax, Nat.le_of_lt hlt, Or.inl hlt⟩
  · cases h

/-- The range of a request. -/
theorem range_of_parseFlockRequest
    {request : ParsedFlockRequest} (h : parseFlockRequest flock object = .ok request) :
    resolveFlockRange flock object = .ok request.range := by
  unfold parseFlockRequest at h
  cases hrange : resolveFlockRange flock object with
  | error e => rw [hrange] at h; cases h
  | ok range =>
  rw [hrange] at h
  split at h
  · cases h
    rfl
  split at h
  · cases h
    rfl
  split at h
  · cases h
    rfl
  · cases h

variable {op : Op}

/-- A request has a proper range. -/
theorem Op.wellFormed_request (h : op.request = some r) : r.request.range.WellFormed := by
  cases op with
  | fcntlSetLock object flock ofd pid =>
    simp only [Op.request, fcntlRequest] at h
    cases hparse : parseFlockRequest flock object with
    | error e => rw [hparse] at h; cases h
    | ok request =>
      rw [hparse] at h
      cases h
      exact wellFormed_of_resolveFlockRange (range_of_parseFlockRequest hparse)
  | flockLock object operation =>
    simp only [Op.request, flockRequest] at h
    cases htype : parseFlockOperation operation with
    | error e => rw [htype] at h; cases h
    | ok lockType =>
      rw [htype] at h
      cases h
      exact wellFormed_whole
  | releaseProcessLock key pid => cases h
  | releaseOfdLock key ptr => cases h

/-- A property of the list under a key that every grant under that key and every release keeps is
kept by a call. -/
theorem step_induction {P : List AdvisoryLock → Prop} (h : ∀ key, P (table key))
    (hgrant : ∀ r, op.request = some r → findConflict (table r.key) r.owner r.lock r.api = none →
      P (r.grant (table r.key)))
    (hrelease : ∀ key owner, P ((table key).filter fun entry => entry.owner != owner)) :
    ∀ key, P (table.step op key) := by
  have hupdate : ∀ key entries, P entries → ∀ key', P (Function.update table key entries key') := by
    grind
  unfold step
  split
  · exact hupdate _ _ (hrelease _ _)
  · exact hupdate _ _ (hrelease _ _)
  cases hreq : op.request with
  | none => exact h
  | some r =>
  simp only [apply, attempt]
  cases hfree : findConflict (table r.key) r.owner r.lock r.api with
  | some conflict => exact h
  | none => exact hupdate _ _ (hgrant r hreq hfree)

/-- Every operation keeps the table in order. -/
theorem step_inv (h : Inv table) : Inv (table.step op) :=
  step_induction h (fun r hreq hfree => grant_ok (h r.key) (op.wellFormed_request hreq) hfree)
    fun key _ => (h key).filter _

variable (h : Inv table) (hbelow : ∀ key, StartsBelowMax (table key))

include h hbelow

/-- A safe one adds no start at the maximum. -/
theorem step_startsBelowMax (hsafe : op.Safe table) : ∀ key, StartsBelowMax
    (table.step op key) := by
  refine step_induction hbelow ?_ ?_
  · intro r hreq hfree
    rw [Op.Safe, hreq] at hsafe
    exact startsBelowMax_grant (h r.key) (hbelow r.key) (op.wellFormed_request hreq) hsafe
  · exact fun key _ p hp => hbelow key p (mem_of_mem_filter hp)

/-- A safe run keeps the invariant. -/
theorem run_inv {ops : List Op}
    (hsafe : SafeRun table ops) :
    Inv (table.run ops) ∧ ∀ key, StartsBelowMax (table.run ops key) := by
  induction ops generalizing table with
  | nil => exact ⟨h, hbelow⟩
  | cons op ops ih => exact ih (step_inv h) (step_startsBelowMax h hbelow hsafe.1) hsafe.2

/-- The invariant is what is asked of the table. -/
theorem Inv.tableOk :
    TableOk table where
  exclusive := by
    intro key a ha b hb hapi hne hover
    have hc : Compatible a b :=
      (h key).compatible.forall ha hb fun heq => hne (congrArg AdvisoryLock.owner heq)
    rw [overlap_iff ((h key).wellFormed a ha) ((h key).wellFormed b hb) (hbelow key a ha)
      (hbelow key b hb)] at hover
    rcases hc hapi hover with ⟨heq, -⟩ | ⟨-, hread⟩
    · exact absurd heq hne
    · exact hread
  disjoint := by
    intro key
    refine (h key).compatible.imp_of_mem ?_
    intro a b ha hb hc hp hp' howner hover
    rw [overlap_iff ((h key).wellFormed a ha) ((h key).wellFormed b hb) (hbelow key a ha)
      (hbelow key b hb)] at hover
    rcases hc (hp.trans hp'.symm) hover with ⟨-, hf⟩ | ⟨hne, -⟩
    · rw [hp] at hf
      cases hf
    · exact hne howner
  nonempty := by
    intro key a ha
    have hlt := hbelow key a ha
    exact ⟨a.range.start, Nat.le_of_lt hlt, ((h key).wellFormed a ha).covers_start hlt⟩

omit h hbelow

/-- The empty table. -/
def LockTable.empty : LockTable := fun _ => []

/-- The table without locks. -/
theorem inv_empty : Inv empty := by
  intro key
  exact ⟨nofun, .nil⟩

/-- In every table that a run of safe calls reaches from the empty one, locks of different owners
exclude each other, the POSIX locks of an owner are disjoint, and every lock covers a byte. -/
theorem run_tableOk (ops : List Op) (hsafe : SafeRun empty ops) : TableOk (empty.run ops) := by
  obtain ⟨hinv, hbelow⟩ := run_inv inv_empty nofun hsafe
  exact hinv.tableOk hbelow

/-- A file of one byte. -/
def oneByteFile : LockObject := ⟨"/a", 0, .ok 0, .ok 1⟩

/-- Process 1 locks a file, unlocks five bytes in the middle, and process 2 takes a read lock on
three of them; both interfaces are used and one lock is released. -/
theorem run_tableOk_split_lock : let ops := [.fcntlSetLock oneByteFile ⟨1, 0, 0, 0⟩ false 1,
      .fcntlSetLock oneByteFile ⟨2, 0, 10, 5⟩ false 1,
      .fcntlSetLock oneByteFile ⟨0, 0, 11, 3⟩ false 2,
      .flockLock oneByteFile 2, .releaseOfdLock "/a" 0]
    SafeRun empty ops ∧ TableOk (empty.run ops) := by
  intro ops
  have hsafe : SafeRun empty ops := by decide +kernel
  exact ⟨hsafe, run_tableOk ops hsafe⟩

/-- Process 1 locks the file to its end and unlocks everything from the offset `2^63` up to
`u64::MAX`, exclusive; then process 2 locks from `2^63` to the end. -/
def unlockBelowMax : List Op :=
  [.fcntlSetLock oneByteFile ⟨1, 0, 0, 0⟩ false 1,
    .fcntlSetLock oneByteFile ⟨2, 2, Int64.maxValue, Int64.maxValue⟩ false 1,
    .fcntlSetLock oneByteFile ⟨1, 2, Int64.maxValue, 0⟩ false 2]

/-- Both processes hold a write lock on the offset `u64::MAX` then: the tail that the unlock leaves
to process 1 overlaps nothing by `ranges_overlap`. -/
theorem unlock_below_max_breaks_exclusion : ¬ TableOk (empty.run unlockBelowMax) := by
  intro h
  have hread := h.exclusive "/a" ⟨.posix, .process 1, .write, ⟨U64_MAX, none⟩⟩ (by decide +kernel)
    ⟨.posix, .process 2, .write, ⟨2 ^ 63, none⟩⟩ (by decide +kernel) rfl (by decide)
    ⟨U64_MAX, Nat.le_refl _, ⟨Nat.le_refl _, by simp⟩, ⟨by decide, by simp⟩⟩
  cases hread.1

end Seele.FileLocks
