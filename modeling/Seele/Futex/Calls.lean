import Seele.Futex.Threads

/-!
# `FUTEX_WAIT`, `FUTEX_WAKE` and `FUTEX_REQUEUE`, lock by lock

Waiting checks the word, queues the thread and blocks it under the locks of the thread manager and
of the queue, so that is one step. The other calls give the lock of the queue back before they are
done: waking takes threads out of the queue and wakes them afterwards, and requeueing moves threads
to another bucket, then writes their new identifiers one by one, and wakes last. A `Place` says how
far a thread is in such a call. What a call reads from user memory and the clock are arguments of
its step. `FUTEX_WAKE_BITSET` is a wake with a mask, `FUTEX_CMP_REQUEUE` a requeue with a value.
-/

namespace Seele.Futex

/-- How far a thread is in a futex call. -/
inductive Place where
  | idle
  /-- In `futex_wait_impl`, after the queue. -/
  | waiting (deadline : Option ℕ)
  /-- The threads are out of the queue and have still to be woken. -/
  | taken (threads : List ThreadID)
  /-- In `futex_requeue_impl`: some threads have still to get their new identifier, some to be
  woken. -/
  | requeued (moved : List (ThreadID × FutexWaitId)) (woken : List ThreadID)
  /-- In the section of the thread manager that wakes so many threads. -/
  | waking (woken : ℕ)
  deriving DecidableEq, Repr

/-- The threads that a call has taken out of the queue to wake them. -/
def Place.toWake : Place → List ThreadID
  | .taken threads | .requeued _ threads => threads
  | _ => []

/-- The threads that a call has moved, with the identifiers it has still to write. -/
def Place.moved : Place → List (ThreadID × FutexWaitId)
  | .requeued moved _ => moved
  | _ => []

/-- The kernel and where everybody is in a futex call. -/
structure FutexSystem where
  threads : Threads
  place : ThreadID → Place

open FutexSystem

variable (s : FutexSystem)

/-- The system with a thread at another place. -/
def FutexSystem.go (thread : ThreadID) (place : Place) : FutexSystem :=
  { s with place := Function.update s.place thread place }

/-- The system with another queue. -/
def FutexSystem.setQueue (queue : FutexQueue) : FutexSystem :=
  { s with threads := { s.threads with queue := queue } }

/-- `futex_wait_impl` up to the point where the waiter is queued. -/
def futexWaitCheck (word : Except SyscallError ℕ) (value : ℕ) (deadline : Option ℕ) (now : ℕ) :
    Except SyscallError Unit := do
  let curValue ← word
  if curValue ≠ value then throw .tryAgain
  if deadline.any (· ≤ now) then throw .timedOut

/-- What `futex_wait_impl` returns after the wait. -/
def futexWaitResult (interrupted : Bool) (deadline : Option ℕ) (now : ℕ) : Except SyscallError ℕ :=
  if interrupted then .error .interrupted
  else if deadline.any (· ≤ now) then .error .timedOut
  else .ok 0

/-- The check of `FUTEX_CMP_REQUEUE`. Without a value to compare, the word is not read. -/
def futexRequeueCheck (word : Except SyscallError ℕ) (compare : Option ℕ) :
    Except SyscallError Unit :=
  match compare with
  | none => .ok ()
  | some expected => do
    let curValue ← word
    if curValue ≠ expected then throw .tryAgain

/-- The steps of a system. -/
inductive FutexMove where
  | thread (move : ThreadMove)
  | wait (thread : ThreadID) (key : FutexKey) (word : Except SyscallError ℕ) (value : ℕ)
      (bitset : UInt32) (deadline : Option ℕ) (now : ℕ)
  | waitReturn (thread : ThreadID) (interrupted : Bool) (now : ℕ)
  | wake (caller : ThreadID) (key : FutexKey) (word : Except SyscallError ℕ) (count : ℕ)
      (wakeMask : Option UInt32)
  | requeue (caller : ThreadID) (source target : FutexKey) (word : Except SyscallError ℕ)
      (compare : Option ℕ) (wakeCount requeueCount : ℕ)
  /-- The requeue writes the new identifier of the next thread it has moved. -/
  | updateRecord (caller : ThreadID)
  /-- A call takes the lock of the thread manager to wake its threads. -/
  | enterManager (caller : ThreadID)
  /-- The lock of the thread manager is given back. -/
  | leaveManager

/-- A step leaves a system and returns from a call, or not. -/
structure FutexEffect where
  system : FutexSystem
  reply : Option (ThreadID × Except SyscallError ℕ)

/-- The thread is on a CPU, in no futex call. -/
def FutexSystem.MayCall (thread : ThreadID) : Prop :=
  (s.threads.state thread).executes = true ∧ s.place thread = .idle

instance (s : FutexSystem) (thread : ThreadID) : Decidable (s.MayCall thread) :=
  inferInstanceAs (Decidable (_ ∧ _))

/-- One step. It has no result where it cannot be taken. -/
def FutexSystem.exec (move : FutexMove) : Option FutexEffect :=
  match move with
  | .thread move => (s.threads.exec move).map fun threads => ⟨{ s with threads }, none⟩
  | .wait thread key word value bitset deadline now =>
    if s.threads.manager = none ∧ s.MayCall thread then
      match futexWaitCheck word value deadline now with
      | .error e => some ⟨s, some (thread, .error e)⟩
      | .ok () => some
          ⟨go { s with threads := s.threads.publish thread key bitset deadline } thread
            (.waiting deadline), none⟩
    else none
  | .waitReturn thread interrupted now =>
    match s.place thread with
    | .waiting deadline =>
      if (s.threads.state thread).executes = true then
        some ⟨s.go thread .idle, some (thread, futexWaitResult interrupted deadline now)⟩
      else none
    | _ => none
  | .wake caller key word count wakeMask =>
    if s.MayCall caller then
      match word with
      | .error e => some ⟨s, some (caller, .error e)⟩
      | .ok _ => (takeFutexWaiters s.threads.queue key count wakeMask).map fun taken =>
          ⟨(s.setQueue taken.2).go caller (.taken taken.1), none⟩
    else none
  | .requeue caller source target word compare wakeCount requeueCount =>
    if s.MayCall caller then
      match futexRequeueCheck word compare with
      | .error e => some ⟨s, some (caller, .error e)⟩
      | .ok () =>
        let requeue := requeueWaiters s.threads.queue source target wakeCount requeueCount
        some ⟨(s.setQueue requeue.queue).go caller (.requeued requeue.movedIds requeue.woken), none⟩
    else none
  | .updateRecord caller =>
    match s.place caller with
    | .requeued ((thread, waitId) :: moved) woken => some
        ⟨go { s with
            threads := s.threads.setState thread ((s.threads.state thread).setWaitId waitId) }
          caller (.requeued moved woken), none⟩
    | _ => none
  | .enterManager caller =>
    if s.threads.manager = none then
      match s.place caller with
      | .taken threads | .requeued [] threads => some
          ⟨go { s with
              threads := { s.threads with manager := some ⟨some caller, .wake, none, threads⟩ } }
            caller (.waking threads.length), none⟩
      | _ => none
    else none
  | .leaveManager =>
    match s.threads.manager with
    | some ⟨owner, _, none, []⟩ =>
      let s : FutexSystem := { s with threads := { s.threads with manager := none } }
      match owner with
      | none => some ⟨s, none⟩
      | some caller =>
        match s.place caller with
        | .waking woken => some ⟨s.go caller .idle, some (caller, .ok woken)⟩
        | _ => none
    | _ => none

/-- The system after one step. -/
def FutexSystem.next (move : FutexMove) (s : FutexSystem) : Option FutexSystem :=
  (s.exec move).map FutexEffect.system

end Seele.Futex
