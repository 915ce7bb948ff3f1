import Mathlib.Data.List.Nodup
import Mathlib.Data.List.Perm.Basic
import Mathlib.Logic.Function.Basic

/-!
# The futex queue

`FUTEX_QUEUE` of `systemcall/implementations/memory_sync.rs`: a map from futex keys to buckets, each
with the threads that wait there in the order of their arrival, and the identifier that the next one
gets. A bucket that becomes empty is dropped, so the identifiers of a key start again at 0.

Every function below runs under the lock of the queue. For the proofs there are two relations:
waiters of one bucket leave the queue (`Removes`), or new waiters arrive at the end of one bucket
(`Adds`). Each function comes with the lemma that says which of them it is.
-/

namespace Seele.Futex

open List Function

/-- `u64::MAX`. -/
def u64Max : ℕ := 0xffffffffffffffff

/-- `ThreadID`. It stands for the `ThreadRef` of the thread as well. -/
abbrev ThreadID := ℕ

/-- `FutexKey`: the word that threads wait at. -/
inductive FutexKey where
  | priv (pid addr : ℕ)
  | sharedAnonymous (frames offset : ℕ)
  | sharedFile (deviceId inode offset : ℕ)
  | sharedObject (object offset : ℕ)
  | sharedPhysical (frame offset : ℕ)
  deriving DecidableEq, Repr

/-- `FutexWaitId`. -/
structure FutexWaitId where
  key : FutexKey
  waiterId : ℕ
  deriving DecidableEq, Repr

/-- `FutexWaiter`. -/
structure FutexWaiter where
  id : ℕ
  thread : ThreadID
  bitset : UInt32
  deriving DecidableEq, Repr

open FutexWaiter

/-- `FutexBucket`. -/
structure FutexBucket where
  nextWaiterId : ℕ
  waiters : List FutexWaiter
  deriving DecidableEq, Repr

/-- `FutexBucket::default`. -/
def FutexBucket.default : FutexBucket := ⟨0, []⟩

/-- The contents of `FUTEX_QUEUE`. -/
abbrev FutexQueue := FutexKey → Option FutexBucket

/-- `FutexBucket::push_waiter`. -/
def FutexBucket.pushWaiter (bucket : FutexBucket) (thread : ThreadID) (bitset : UInt32) :
    ℕ × FutexBucket :=
  let waiterId := bucket.nextWaiterId
  (waiterId, { nextWaiterId := min (bucket.nextWaiterId + 1) u64Max
               waiters := bucket.waiters ++ [⟨waiterId, thread, bitset⟩] })

variable (queue : FutexQueue) (key : FutexKey)

/-- `queue_waiter_in_locked_queue`. -/
def queueWaiterInLockedQueue (thread : ThreadID) (bitset : UInt32) : FutexWaitId × FutexQueue :=
  let pushed := ((queue key).getD .default).pushWaiter thread bitset
  (⟨key, pushed.1⟩, update queue key (some pushed.2))

/-- `should_wake` in `take_futex_waiters_from_bucket`. -/
def FutexWaiter.shouldWake (waiter : FutexWaiter) (wakeMask : Option UInt32) : Bool :=
  match wakeMask with
  | none => true
  | some mask => waiter.bitset &&& mask != 0

/-- The loop of `take_futex_waiters_from_bucket`, with `initial_len - scanned` rounds to go. It has
no result where `pop_front` finds nothing. -/
def takeLoop (count : ℕ) (wakeMask : Option UInt32) :
    ℕ → List ThreadID → List FutexWaiter → Option (List ThreadID × List FutexWaiter)
  | 0, woken, waiters => some (woken, waiters)
  | rounds + 1, woken, waiters =>
    if woken.length < count then
      match waiters with
      | [] => none
      | waiter :: waiters =>
        if waiter.shouldWake wakeMask then
          takeLoop count wakeMask rounds (woken ++ [waiter.thread]) waiters
        else
          -- Passed over: it goes to the end of the bucket.
          takeLoop count wakeMask rounds woken (waiters ++ [waiter])
    else some (woken, waiters)

/-- `take_futex_waiters_from_bucket`. -/
def takeFutexWaitersFromBucket (bucket : FutexBucket) (count : ℕ) (wakeMask : Option UInt32) :
    Option (List ThreadID × FutexBucket) :=
  (takeLoop count wakeMask bucket.waiters.length [] bucket.waiters).map fun taken =>
    (taken.1, { bucket with waiters := taken.2 })

/-- `bucket_is_empty`: the bucket is there, and without waiters. -/
def bucketIsEmpty : Bool :=
  match queue key with
  | none => false
  | some bucket => bucket.waiters.isEmpty

/-- The queue without the bucket, if that is empty. -/
def dropEmpty : FutexQueue :=
  if bucketIsEmpty queue key then update queue key none else queue

/-- `take_futex_waiters`. -/
def takeFutexWaiters (count : ℕ) (wakeMask : Option UInt32) : Option (List ThreadID × FutexQueue) :=
  match queue key with
  | none => some ([], queue)
  | some bucket =>
    (takeFutexWaitersFromBucket bucket count wakeMask).map fun taken =>
      (taken.1, dropEmpty (update queue key (some taken.2)) key)

/-- `remove_futex_waiter`. -/
def removeFutexWaiter (waitId : FutexWaitId) : FutexQueue :=
  match queue waitId.key with
  | none => queue
  | some bucket =>
    let waiters := bucket.waiters.filter fun waiter => waiter.id != waitId.waiterId
    update queue waitId.key
      (if waiters.isEmpty then none else some { bucket with waiters })

/-- The waiters that `futex_requeue_impl` moves, queued in the bucket of the target one by one, with
the thread and the new identifier of each. -/
def queueMoved (target : FutexKey) :
    List FutexWaiter → FutexQueue → List (ThreadID × FutexWaitId) × FutexQueue
  | [], queue => ([], queue)
  | waiter :: moved, queue =>
    let pushed := queueWaiterInLockedQueue queue target waiter.thread waiter.bitset
    let rest := queueMoved target moved pushed.2
    ((waiter.thread, pushed.1) :: rest.1, rest.2)

/-- What `futex_requeue_impl` has in hand when it gives the lock of the queue back. -/
structure Requeue where
  woken : List ThreadID
  movedIds : List (ThreadID × FutexWaitId)
  queue : FutexQueue

variable (queue : FutexQueue)

/-- The part of `futex_requeue_impl` under the lock of the queue. -/
def requeueWaiters (source target : FutexKey) (wakeCount requeueCount : ℕ) :
    Requeue :=
  match queue source with
  | none => ⟨[], [], queue⟩
  | some bucket =>
    let woken := bucket.waiters.take wakeCount
    let moved := (bucket.waiters.drop wakeCount).take requeueCount
    let left := (bucket.waiters.drop wakeCount).drop requeueCount
    let queue := dropEmpty
      (update queue source (some { bucket with waiters := left })) source
    let queued := queueMoved target moved queue
    ⟨woken.map thread, queued.1, queued.2⟩

/-! ## What a bucket holds -/

/-- The waiters at a key. -/
def FutexQueue.waiters (key : FutexKey) : List FutexWaiter :=
  match queue key with
  | none => []
  | some bucket => bucket.waiters

/-- The identifier that the next waiter at a key gets. -/
def FutexQueue.nextWaiterId (key : FutexKey) : ℕ :=
  match queue key with
  | none => 0
  | some bucket => bucket.nextWaiterId

variable {queue queue' : FutexQueue} {key : FutexKey}

/-- Nobody waits without a bucket. -/
theorem FutexQueue.waiters_of_none (h : queue key = none) : queue.waiters key = [] := by
  unfold FutexQueue.waiters
  rw [h]

variable {bucket : FutexBucket}

/-- The waiters of a bucket. -/
theorem FutexQueue.waiters_of_some (h : queue key = some bucket) :
    queue.waiters key = bucket.waiters := by
  unfold FutexQueue.waiters
  rw [h]

/-- The next number of a bucket. -/
theorem FutexQueue.nextWaiterId_of_some (h : queue key = some bucket) :
    queue.nextWaiterId key = bucket.nextWaiterId := by
  unfold FutexQueue.nextWaiterId
  rw [h]

/-- Only the bucket counts. -/
theorem FutexQueue.waiters_congr (h : queue' key = queue key) :
    FutexQueue.waiters queue' key = FutexQueue.waiters queue key := by
  unfold FutexQueue.waiters
  rw [h]

/-- Only the bucket counts. -/
theorem FutexQueue.nextWaiterId_congr (h : queue' key = queue key) :
    FutexQueue.nextWaiterId queue' key = FutexQueue.nextWaiterId queue key := by
  unfold FutexQueue.nextWaiterId
  rw [h]

/-! ## Waiters leave -/

/-- The waiters `gone` have left the bucket of `key`. -/
structure Removes (queue queue' : FutexQueue) (key : FutexKey) (gone : List FutexWaiter) :
    Prop where
  perm : (queue.waiters key).Perm (gone ++ queue'.waiters key)
  next : queue' key = none ∨
    queue key ≠ none ∧ queue'.nextWaiterId key = queue.nextWaiterId key
  other : ∀ key', key' ≠ key → queue' key' = queue key'

open Removes

/-- Nobody goes. -/
theorem Removes.nothing (queue : FutexQueue) (key : FutexKey) : Removes queue queue key [] := by
  refine ⟨.refl _, ?_, fun _ _ => rfl⟩
  grind

variable {gone : List FutexWaiter}

/-- Some waiters of a bucket go. -/
theorem Removes.of_bucket {left : List FutexWaiter}
    (hbucket : queue key = some bucket) (hperm : bucket.waiters.Perm (gone ++ left))
    (hqueue' : queue' = update queue key
      (if left.isEmpty then none else some { bucket with waiters := left })) :
    Removes queue queue' key gone := by
  subst hqueue'
  have hleft : FutexQueue.waiters (update queue key
      (if left.isEmpty then none else some { bucket with waiters := left })) key = left := by
    grind [FutexQueue.waiters]
  constructor
  · grind [FutexQueue.waiters_of_some]
  · grind [FutexQueue.nextWaiterId]
  · intro key' hkey'
    exact update_of_ne hkey' ..

/-- A bucket is dropped when it is empty. -/
theorem dropEmpty_update : dropEmpty (update queue key (some bucket)) key =
      update queue key (if bucket.waiters.isEmpty then none else some bucket) := by
  unfold dropEmpty bucketIsEmpty
  grind

/-- What a wake finds in the order of the waiters: those that it is to take, those that it passes
over before the last of them, and the rest. -/
structure Selection where
  taken : List FutexWaiter
  passed : List FutexWaiter
  rest : List FutexWaiter

/-- The first `count` waiters that the mask is for. -/
def selectWaiters (wakeMask : Option UInt32) : ℕ → List FutexWaiter → Selection
  | 0, waiters => ⟨[], [], waiters⟩
  | _ + 1, [] => ⟨[], [], []⟩
  | count + 1, waiter :: waiters =>
    if waiter.shouldWake wakeMask then
      let selection := selectWaiters wakeMask count waiters
      { selection with taken := waiter :: selection.taken }
    else
      let selection := selectWaiters wakeMask (count + 1) waiters
      { selection with passed := waiter :: selection.passed }

variable {wakeMask : Option UInt32} {count : ℕ}

/-- The loop takes the waiters of the selection, and leaves those that it has passed over behind the
rest. -/
theorem takeLoop_eq {waiters : List FutexWaiter} :
    ∀ (woken : List ThreadID) (back : List FutexWaiter), woken.length ≤ count →
      takeLoop count wakeMask waiters.length woken (waiters ++ back) =
        let selection := selectWaiters wakeMask (count - woken.length) waiters
        some (woken ++ selection.taken.map FutexWaiter.thread,
          selection.rest ++ back ++ selection.passed) := by
  induction waiters with
  | nil =>
    intro woken back _
    cases count - woken.length <;> simp [takeLoop, selectWaiters]
  | cons waiter waiters ih =>
  intro woken back hle
  rw [length_cons]
  unfold takeLoop
  by_cases hcount : woken.length < count
  · obtain ⟨left, hleft⟩ := Nat.exists_eq_add_of_lt hcount
    rw [if_pos hcount, show count - woken.length = left + 1 by omega, selectWaiters]
    simp only [cons_append]
    split_ifs with hwake
    · rw [ih _ back (by rw [length_append]; exact hcount), length_append,
        show count - (woken.length + [waiter.thread].length) = left by simp; omega]
      simp
    · rw [append_assoc, ih _ _ hle, show count - woken.length = left + 1 by omega]
      simp
  · rw [if_neg hcount, show count - woken.length = 0 by omega, selectWaiters]
    simp

/-- What the loop takes from a bucket. -/
theorem takeLoop_bucket (count : ℕ) (wakeMask : Option UInt32) (waiters : List FutexWaiter) :
    takeLoop count wakeMask waiters.length [] waiters =
      let selection := selectWaiters wakeMask count waiters
      some (selection.taken.map FutexWaiter.thread, selection.rest ++ selection.passed) := by
  simpa using takeLoop_eq [] [] (Nat.zero_le _)

/-- A waiter is taken or stays. -/
theorem perm_selectWaiters (wakeMask : Option UInt32) (count : ℕ) (waiters : List FutexWaiter) :
    let selection := selectWaiters wakeMask count waiters
    waiters.Perm (selection.taken ++ (selection.rest ++ selection.passed)) := by
  induction waiters generalizing count with
  | nil => cases count <;> exact .refl _
  | cons waiter waiters ih =>
  cases count with
  | zero => simp [selectWaiters]
  | succ count =>
  unfold selectWaiters
  split_ifs
  · exact (ih count).cons waiter
  · refine ((ih (count + 1)).cons waiter).trans ?_
    rw [← append_assoc, ← append_assoc]
    exact perm_middle.symm

/-- What `take_futex_waiters` removes. -/
theorem takeFutexWaiters_spec : ∃ taken queue', takeFutexWaiters queue key count wakeMask =
      some (taken.map thread, queue') ∧ Removes queue queue' key taken := by
  unfold takeFutexWaiters
  cases hbucket : queue key with
  | none => exact ⟨[], queue, rfl, .nothing queue key⟩
  | some bucket =>
    refine ⟨_, _, ?_, .of_bucket hbucket (perm_selectWaiters wakeMask count _) rfl⟩
    simp [takeFutexWaitersFromBucket, takeLoop_bucket, dropEmpty_update]

/-- What `remove_futex_waiter` removes. -/
theorem removeFutexWaiter_spec (queue : FutexQueue) (waitId : FutexWaitId) :
    Removes queue (removeFutexWaiter queue waitId) waitId.key
      ((queue.waiters waitId.key).filter fun waiter => waiter.id == waitId.waiterId) := by
  unfold removeFutexWaiter
  cases hbucket : queue waitId.key with
  | none =>
    rw [FutexQueue.waiters_of_none hbucket]
    exact .nothing queue waitId.key
  | some bucket =>
    rw [FutexQueue.waiters_of_some hbucket]
    refine of_bucket hbucket ?_ rfl
    exact (filter_append_perm (fun waiter => waiter.id == waitId.waiterId) bucket.waiters).symm

/-- Who is left after a removal. -/
theorem waiters_removeFutexWaiter (waitId : FutexWaitId) :
    (removeFutexWaiter queue waitId).waiters key =
      (queue.waiters key).filter fun waiter => !decide (⟨key, waiter.id⟩ = waitId) := by
  by_cases hkey : key = waitId.key
  swap
  · rw [FutexQueue.waiters_congr ((removeFutexWaiter_spec queue waitId).other key hkey)]
    grind [filter_eq_self]
  subst hkey
  unfold removeFutexWaiter
  cases hbucket : queue waitId.key with
  | none =>
    simp only [FutexQueue.waiters_of_none hbucket]
    rfl
  | some bucket =>
  rw [FutexQueue.waiters_of_some hbucket]
  have hfilter : (fun waiter : FutexWaiter => waiter.id != waitId.waiterId) =
      fun waiter => !decide ((⟨waitId.key, waiter.id⟩ : FutexWaitId) = waitId) := by
    funext waiter
    obtain ⟨key, waiterId⟩ := waitId
    simp [bne, BEq.beq]
  rw [← hfilter]
  unfold FutexQueue.waiters
  simp only [update_self]
  generalize bucket.waiters.filter _ = left
  cases left with
  | nil => rfl
  | cons _ _ => rfl

/-! ### The order of the waiters that stay -/

/-- Two lists commute exactly if they repeat one list. -/
theorem append_comm_iff {α : Type} (u v : List α) : u ++ v = v ++ u ↔
    ∃ (unit : List α) (m n : ℕ),
      u = (replicate m unit).flatten ∧ v = (replicate n unit).flatten := by
  constructor
  · intro h
    -- Induction on both lengths: the shorter list is in front of the longer one, and commutes with
    -- what follows it there.
    induction hn : u.length + v.length using Nat.strongRecOn generalizing u v with
    | ind n ih =>
    obtain rfl | hu := eq_or_ne u []
    · exact ⟨v, 0, 1, by simp, by simp⟩
    obtain rfl | hv := eq_or_ne v []
    · exact ⟨u, 1, 0, by simp, by simp⟩
    have hulen := length_pos_of_ne_nil hu
    have hvlen := length_pos_of_ne_nil hv
    obtain ⟨t, rfl, -⟩ | ⟨t, rfl, -⟩ := append_eq_append_iff.mp h
    · rw [length_append] at hn
      have ht : u ++ t = t ++ u := by simpa using h
      obtain ⟨unit, m, k, hm, hk⟩ := ih _ (by omega) u t ht rfl
      refine ⟨unit, m, m + k, hm, ?_⟩
      rw [← replicate_append_replicate, flatten_append, ← hm, ← hk]
    rw [length_append] at hn
    have ht : v ++ t = t ++ v := by simpa using h.symm
    obtain ⟨unit, m, k, hm, hk⟩ := ih _ (by omega) v t ht rfl
    refine ⟨unit, m + k, m, ?_, hm⟩
    rw [← replicate_append_replicate, flatten_append, ← hm, ← hk]
  · rintro ⟨unit, m, n, rfl, rfl⟩
    rw [← flatten_append, ← flatten_append, replicate_append_replicate,
      replicate_append_replicate, Nat.add_comm]

/-- The first that match are taken. -/
theorem taken_selectWaiters (wakeMask : Option UInt32) (count : ℕ) (waiters : List FutexWaiter) :
    (selectWaiters wakeMask count waiters).taken =
      (waiters.filter (FutexWaiter.shouldWake · wakeMask)).take count := by
  induction waiters generalizing count with
  | nil => cases count <;> rfl
  | cons waiter waiters ih =>
  cases count with
  | zero => simp [selectWaiters]
  | succ count =>
    unfold selectWaiters
    split_ifs with hwake <;> simp [hwake, ih]

/-- The first waiters that the mask is for leave the bucket, and the others stay in their order,
exactly if those that the scan passes over and the rest of the bucket repeat one list of waiters:
in particular if there are none of the one or of the other. -/
theorem takeFutexWaitersFromBucket_fifo_iff (bucket : FutexBucket) (count : ℕ)
    (wakeMask : Option UInt32) : (takeFutexWaitersFromBucket bucket count wakeMask = some
      (((bucket.waiters.filter (FutexWaiter.shouldWake · wakeMask)).take count).map
        FutexWaiter.thread,
      { bucket with waiters := (selectWaiters wakeMask count bucket.waiters).passed ++
          (selectWaiters wakeMask count bucket.waiters).rest })) ↔
      ∃ (unit : List FutexWaiter) (m n : ℕ),
        (selectWaiters wakeMask count bucket.waiters).passed = (List.replicate m unit).flatten ∧
        (selectWaiters wakeMask count bucket.waiters).rest = (List.replicate n unit).flatten := by
  rw [← taken_selectWaiters, ← append_comm_iff, takeFutexWaitersFromBucket, takeLoop_bucket]
  simp [eq_comm]

/-- Of three waiters, a wake of one that passes over the first leaves that behind the third. -/
theorem takeFutexWaitersFromBucket_rotates :
    takeFutexWaitersFromBucket ⟨3, [⟨0, 10, 1⟩, ⟨1, 11, 2⟩, ⟨2, 12, 2⟩]⟩ 1 (some 2) =
      some ([11], ⟨3, [⟨2, 12, 2⟩, ⟨0, 10, 1⟩]⟩) := by
  decide +kernel

/-! ## Waiters arrive -/

/-- The waiters `new` have arrived at the end of the bucket of `key`, with the identifiers that
follow. -/
structure Adds (queue queue' : FutexQueue) (key : FutexKey) (new : List FutexWaiter) : Prop where
  waiters : queue'.waiters key = queue.waiters key ++ new
  ids : new.map FutexWaiter.id = List.range' (queue.nextWaiterId key) new.length
  next : queue'.nextWaiterId key = queue.nextWaiterId key + new.length
  other : ∀ key', key' ≠ key → queue' key' = queue key'

/-- A waiter is queued with the next number. -/
theorem queueWaiter_spec (queue : FutexQueue) (key : FutexKey) (thread : ThreadID)
    (bitset : UInt32) (hnext : queue.nextWaiterId key + 1 ≤ u64Max) :
    (queueWaiterInLockedQueue queue key thread bitset).1 = ⟨key, queue.nextWaiterId key⟩ ∧
      Adds queue (queueWaiterInLockedQueue queue key thread bitset).2 key
        [⟨queue.nextWaiterId key, thread, bitset⟩] := by
  have hwaiters : ((queue key).getD .default).waiters = queue.waiters key := by
    unfold FutexQueue.waiters
    cases queue key with
    | none => rfl
    | some bucket => rfl
  have hid : ((queue key).getD .default).nextWaiterId = queue.nextWaiterId key := by
    unfold FutexQueue.nextWaiterId
    cases queue key with
    | none => rfl
    | some bucket => rfl
  unfold queueWaiterInLockedQueue FutexBucket.pushWaiter
  simp only [hwaiters, hid]
  refine ⟨trivial, ?_, rfl, ?_, ?_⟩
  · rw [FutexQueue.waiters_of_some (update_self ..)]
  · rw [FutexQueue.nextWaiterId_of_some (update_self ..)]
    exact Nat.min_eq_left hnext
  · intro key' hkey'
    exact update_of_ne hkey' ..

/-- The moved waiters are queued with new numbers. -/
theorem queueMoved_spec (target : FutexKey) : ∀ (moved : List FutexWaiter) (queue : FutexQueue),
      queue.nextWaiterId target + moved.length ≤ u64Max →
      ∃ new, new.map FutexWaiter.thread = moved.map FutexWaiter.thread ∧
        (queueMoved target moved queue).1 =
          new.map (fun waiter => (waiter.thread, ⟨target, waiter.id⟩)) ∧
        Adds queue (queueMoved target moved queue).2 target new
  | [], queue, _ => ⟨[], rfl, rfl, (append_nil _).symm, rfl, rfl, fun _ _ => rfl⟩
  | waiter :: moved, queue, hnext => by
    rw [length_cons] at hnext
    obtain ⟨hid, hadd⟩ :=
      queueWaiter_spec queue target waiter.thread waiter.bitset (by omega)
    unfold queueMoved
    generalize queueWaiterInLockedQueue queue target waiter.thread waiter.bitset = pushed at *
    have hpushed := hadd.next
    rw [length_singleton] at hpushed
    obtain ⟨new, hthreads, hids, hadds⟩ := queueMoved_spec target moved pushed.2 (by omega)
    refine ⟨⟨queue.nextWaiterId target, waiter.thread, waiter.bitset⟩ :: new, ?_, ?_, ?_⟩
    · rw [map_cons, map_cons, hthreads]
    · rw [map_cons, ← hids, ← hid]
    constructor
    · simp [hadds.waiters, hadd.waiters]
    · simp [hadds.ids, hpushed, range'_succ]
    · rw [hadds.next, hpushed, length_cons]
      omega
    · grind [hadds.other, hadd.other]

/-- A requeue between two different words: some waiters leave the first bucket, the `moved` ones
among them arrive in the second. -/
theorem requeueWaiters_spec {source target : FutexKey}
    {requeueCount : ℕ} (wakeCount : ℕ) (hne : source ≠ target)
    (hnext : queue.nextWaiterId target + (queue.waiters source).length ≤ u64Max) :
    ∃ woken moved new mid, (requeueWaiters queue source target wakeCount requeueCount).woken =
        woken.map thread ∧
      (requeueWaiters queue source target wakeCount requeueCount).movedIds =
        new.map (fun waiter => (waiter.thread, ⟨target, waiter.id⟩)) ∧
      new.map thread = moved.map thread ∧
      Removes queue mid source (woken ++ moved) ∧
      Adds mid (requeueWaiters queue source target wakeCount requeueCount).queue target new := by
  unfold requeueWaiters
  cases hbucket : queue source with
  | none =>
    exact ⟨[], [], [], queue, rfl, rfl, rfl, .nothing queue source, (append_nil _).symm, rfl,
      rfl, fun _ _ => rfl⟩
  | some bucket =>
  rw [FutexQueue.waiters_of_some hbucket] at hnext
  simp only [dropEmpty_update]
  generalize hwoken : bucket.waiters.take wakeCount = woken
  generalize hmoved : (bucket.waiters.drop wakeCount).take requeueCount = moved
  generalize hleft : (bucket.waiters.drop wakeCount).drop requeueCount = left
  have hsplit : bucket.waiters = woken ++ moved ++ left := by grind [take_append_drop]
  have hremoves := of_bucket hbucket (.of_eq hsplit) rfl
  generalize update queue source _ = mid at hremoves
  have hmid : FutexQueue.nextWaiterId mid target = queue.nextWaiterId target :=
    FutexQueue.nextWaiterId_congr (hremoves.other target hne.symm)
  have hlength : moved.length ≤ bucket.waiters.length := by grind
  obtain ⟨new, hthreads, hids, hadds⟩ := queueMoved_spec target moved mid (by omega)
  grind

/-! ## Queues in order -/

/-- The thread is in some bucket. -/
def FutexQueue.Has (queue : FutexQueue) (thread : ThreadID) : Prop :=
  ∃ key, ∃ waiter ∈ queue.waiters key, waiter.thread = thread

/-- No identifier is used twice in a bucket or has still to be issued, and no thread is in the queue
twice. -/
structure FutexQueue.Ordered (queue : FutexQueue) : Prop where
  ids : ∀ key, ((queue.waiters key).map FutexWaiter.id).Nodup
  below : ∀ key, ∀ waiter ∈ queue.waiters key, waiter.id < queue.nextWaiterId key
  threads : ∀ key, ((queue.waiters key).map thread).Nodup
  apart : ∀ key key', ∀ waiter ∈ queue.waiters key, ∀ waiter' ∈ queue.waiters key',
    waiter.thread = waiter'.thread → key = key'

variable {waiter : FutexWaiter} {key' : FutexKey} {waiter' : FutexWaiter}

/-- A thread waits once. -/
theorem FutexQueue.Ordered.unique (hqueue : queue.Ordered) {key : FutexKey}
    (h : waiter ∈ queue.waiters key) (h' : waiter' ∈ queue.waiters key')
    (hthread : waiter.thread = waiter'.thread) : key = key' ∧ waiter = waiter' := by
  obtain rfl := hqueue.apart key key' waiter h waiter' h' hthread
  exact ⟨rfl, inj_on_of_nodup_map (hqueue.threads key) h h' hthread⟩

variable (h : Removes queue queue' key gone)

include h

/-- A waiter is gone or stays. -/
theorem Removes.mem_iff :
    waiter ∈ queue.waiters key' ↔ key' = key ∧ waiter ∈ gone ∨ waiter ∈ queue'.waiters key' := by
  by_cases hkey : key' = key
  · grind [h.perm.mem_iff]
  · grind [FutexQueue.waiters_congr, h.other]

/-- Who stays has another number. -/
theorem Removes.id_ne (hqueue : queue.Ordered)
    (hgone : waiter ∈ gone) (hstay : waiter' ∈ queue'.waiters key) :
    waiter'.id ≠ waiter.id := by
  have hids := hqueue.ids key
  rw [(h.perm.map FutexWaiter.id).nodup_iff, map_append] at hids
  grind [mem_map_of_mem]

/-- Who is gone waits nowhere. -/
theorem Removes.not_has (hqueue : queue.Ordered)
    (hgone : waiter ∈ gone) : ¬queue'.Has waiter.thread := by
  rintro ⟨key', waiter', hstay, hthread⟩
  obtain ⟨rfl, heq⟩ := hqueue.unique (h.mem_iff.mpr (.inr hstay))
    (h.mem_iff.mpr (.inl ⟨rfl, hgone⟩)) hthread
  exact h.id_ne hqueue hgone hstay (by rw [heq])

/-- A removal keeps the order. -/
theorem Removes.ordered (hqueue : queue.Ordered) : queue'.Ordered := by
  have hmem : ∀ {key' waiter}, waiter ∈ queue'.waiters key' → waiter ∈ queue.waiters key' :=
    fun hstay => h.mem_iff.mpr (.inr hstay)
  constructor
  · intro key'
    by_cases hkey : key' = key
    · subst hkey
      have hids := hqueue.ids key'
      rw [(h.perm.map FutexWaiter.id).nodup_iff, map_append] at hids
      exact hids.of_append_right
    · grind [FutexQueue.waiters_congr, h.other, hqueue.ids]
  · intro key' waiter hstay
    have hbelow := hqueue.below key' waiter (hmem hstay)
    by_cases hkey : key' = key
    · grind [h.next, FutexQueue.waiters_of_none]
    · grind [FutexQueue.nextWaiterId_congr, h.other]
  · intro key'
    by_cases hkey : key' = key
    · subst hkey
      have hthreads := hqueue.threads key'
      rw [(h.perm.map thread).nodup_iff, map_append] at hthreads
      exact hthreads.of_append_right
    · grind [FutexQueue.waiters_congr, h.other, hqueue.threads]
  · grind [hqueue.apart]

omit h

variable {new : List FutexWaiter}

/-- A waiter is new or was there. -/
theorem Adds.mem_iff (h : Adds queue queue' key new) :
    waiter ∈ queue'.waiters key' ↔ key' = key ∧ waiter ∈ new ∨ waiter ∈ queue.waiters key' := by
  by_cases hkey : key' = key
  · grind [h.waiters]
  · grind [FutexQueue.waiters_congr, h.other]

/-- New waiters have new numbers. -/
theorem Adds.id_bounds (h : Adds queue queue' key new) (hnew : waiter ∈ new) :
    queue.nextWaiterId key ≤ waiter.id ∧ waiter.id < queue'.nextWaiterId key := by
  grind [mem_map_of_mem, h.ids, h.next]

/-- New threads keep the order. -/
theorem Adds.ordered (h : Adds queue queue' key new)
    (hqueue : queue.Ordered) (hnodup : (new.map thread).Nodup)
    (hfresh : ∀ waiter ∈ new, ¬queue.Has waiter.thread) : queue'.Ordered := by
  constructor
  · intro key'
    by_cases hkey : key' = key
    · subst hkey
      rw [h.waiters, map_append, nodup_append']
      refine ⟨hqueue.ids key', ?_, ?_⟩
      · rw [h.ids]
        exact nodup_range'
      intro id hold hnew
      obtain ⟨waiter, hwaiter, rfl⟩ := mem_map.mp hold
      obtain ⟨waiter', hwaiter', heq⟩ := mem_map.mp hnew
      have hbelow := hqueue.below key' waiter hwaiter
      have habove := (h.id_bounds hwaiter').1
      omega
    · rw [FutexQueue.waiters_congr (h.other key' hkey)]
      exact hqueue.ids key'
  · intro key' waiter hwaiter
    by_cases hkey : key' = key
    · subst hkey
      rcases h.mem_iff.mp hwaiter with ⟨-, hnew⟩ | hold
      · exact (h.id_bounds hnew).2
      · have hbelow := hqueue.below key' waiter hold
        have hnext := h.next
        omega
    · rw [FutexQueue.waiters_congr (h.other key' hkey)] at hwaiter
      rw [FutexQueue.nextWaiterId_congr (h.other key' hkey)]
      exact hqueue.below key' waiter hwaiter
  · intro key'
    by_cases hkey : key' = key
    · subst hkey
      rw [h.waiters, map_append, nodup_append']
      refine ⟨hqueue.threads key', hnodup, ?_⟩
      intro thread hold hnew
      obtain ⟨waiter, hwaiter, hthread⟩ := mem_map.mp hold
      obtain ⟨waiter', hwaiter', rfl⟩ := mem_map.mp hnew
      exact hfresh waiter' hwaiter' ⟨key', waiter, hwaiter, hthread⟩
    · rw [FutexQueue.waiters_congr (h.other key' hkey)]
      exact hqueue.threads key'
  intro key₁ key₂ waiter₁ h₁ waiter₂ h₂ hthread
  rcases h.mem_iff.mp h₁ with ⟨rfl, hnew₁⟩ | hold₁
  · rcases h.mem_iff.mp h₂ with ⟨rfl, -⟩ | hold₂
    · rfl
    · exact absurd ⟨key₂, waiter₂, hold₂, hthread.symm⟩ (hfresh waiter₁ hnew₁)
  · rcases h.mem_iff.mp h₂ with ⟨rfl, hnew₂⟩ | hold₂
    · exact absurd ⟨key₁, waiter₁, hold₁, hthread⟩ (hfresh waiter₂ hnew₂)
    · grind [hqueue.apart]

end Seele.Futex
