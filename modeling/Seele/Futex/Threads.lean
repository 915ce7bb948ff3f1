import Seele.Futex.Queue

/-!
# Threads that sleep and are woken

The part of `thread/yielding.rs` and `thread/manager.rs` that a futex is built on. There are three
kinds of locks: that of the thread manager, that of the futex queue and that of each thread.
`ThreadManager::wake` and `mark_thread_exited` hold the first one all the time, but take the other
two one after another: they read the state of the thread, remove its waiter from the queue, and set
the state. In between, calls that do not need the thread manager change the queue and the states. So
waking a thread is three steps here, and `Section` says how far the holder of the manager has come
with the threads it has to wake.
-/

namespace Seele.Futex

/-- The errors of `SyscallError` that the futex calls return. -/
inductive SyscallError where
  | badAddress
  | invalidArguments
  | permissionDenied
  | tryAgain
  | timedOut
  | interrupted
  | resourceDeadlock
  deriving DecidableEq, Repr

/-- `BlockType`. What a `WakeRequired` waits for makes no difference here. -/
inductive BlockType where
  | setTime (time : ℕ)
  | wakeRequired (deadline : Option ℕ)
  | futex (deadline : Option ℕ) (waitId : FutexWaitId)
  | stopped
  deriving DecidableEq, Repr

/-- `State` of a thread. -/
inductive State where
  | ready
  | running
  | blocking (block : BlockType)
  | woken
  | blocked (block : BlockType)
  | exiting
  | zombie
  deriving DecidableEq, Repr

/-- The identifier in a block of type `Futex`. -/
def BlockType.waitId : BlockType → Option FutexWaitId
  | .futex _ waitId => some waitId
  | _ => none

/-- The identifier that the state of a thread records: `futex_wait_id` in
`remove_from_blocked_queues`. -/
def State.waitId : State → Option FutexWaitId
  | .blocking block | .blocked block => block.waitId
  | _ => none

/-- `futex_requeue_impl` writes the new identifier of a waiter, if the thread still waits at a
futex. -/
def State.setWaitId (state : State) (waitId : FutexWaitId) : State :=
  match state with
  | .blocking (.futex deadline _) => .blocking (.futex deadline waitId)
  | .blocked (.futex deadline _) => .blocked (.futex deadline waitId)
  | state => state

/-- The thread is on a CPU, in code of its own. -/
def State.executes : State → Bool
  | .running | .exiting => true
  | _ => false

/-- What is done to a thread once it is out of the queues: `wake`, or `mark_thread_exited`. -/
inductive Ending where
  | wake
  | exit
  deriving DecidableEq, Repr

/-- How far the holder of the thread manager has come with one thread. -/
inductive WakePhase where
  /-- `remove_from_blocked_queues` has read the state. -/
  | found (thread : ThreadID) (waitId : Option FutexWaitId)
  /-- The thread is out of the queues. -/
  | removed (thread : ThreadID)
  deriving DecidableEq, Repr

/-- The thread that is being woken. -/
def WakePhase.thread : WakePhase → ThreadID
  | .found thread _ | .removed thread => thread

/-- A section under the lock of the thread manager in which threads are woken, for a futex call of
`owner` or for another part of the kernel. -/
structure Section where
  owner : Option ThreadID
  ending : Ending
  current : Option WakePhase
  pending : List ThreadID
  deriving DecidableEq, Repr

/-- The futex queue, the threads and who holds the lock of the thread manager. -/
structure Threads where
  queue : FutexQueue
  state : ThreadID → State
  ready : List ThreadID
  manager : Option Section

open Threads

variable (threads : Threads) (thread : ThreadID)

/-- The threads with one state changed. -/
def Threads.setState (state : State) : Threads :=
  { threads with state := Function.update threads.state thread state }

/-- `push_ready_balanced`, whatever the CPU. -/
def Threads.pushReady : Threads :=
  if thread ∈ threads.ready then threads else { threads with ready := threads.ready ++ [thread] }

/-- `remove_ready_thread`. -/
def Threads.removeReadyThread : Threads :=
  { threads with ready := threads.ready.filter (· != thread) }

/-- `queue_waiter_in_locked_queue` and `ThreadManager::block`, as the futex calls use them: under
the locks of the thread manager and of the queue. -/
def Threads.publish (key : FutexKey) (bitset : UInt32) (deadline : Option ℕ) : Threads :=
  let queued := queueWaiterInLockedQueue threads.queue key thread bitset
  { threads.setState thread (.blocking (.futex deadline queued.1)) with queue := queued.2 }

/-- `finish_block_current`, under the lock of the thread manager. -/
def Threads.finishBlock : Threads :=
  match threads.state thread with
  | .blocking block => threads.setState thread (.blocked block)
  | .woken => threads.setState thread .running
  | .ready =>
    if thread ∈ threads.ready then (threads.removeReadyThread thread).setState thread .running
    else threads
  | _ => threads

/-- What `remove_from_blocked_queues` does to the futex queue, with what it has read. -/
def removeRecorded (queue : FutexQueue) (waitId : Option FutexWaitId) : FutexQueue :=
  match waitId with
  | none => queue
  | some waitId => removeFutexWaiter queue waitId

/-- The end of `wake` and of `mark_thread_exited`. -/
def Threads.finish (ending : Ending) (thread : ThreadID) : Threads :=
  match ending with
  | .exit => (threads.removeReadyThread thread).setState thread .zombie
  | .wake =>
    match threads.state thread with
    | .blocking _ => threads.setState thread .woken
    | .blocked _ => (threads.setState thread .ready).pushReady thread
    | _ => threads

/-- The steps of the kernel that no futex call takes, and those of whoever holds the thread
manager. -/
inductive ThreadMove where
  /-- A thread blocks on something that is not a futex. -/
  | block (thread : ThreadID) (block : BlockType)
  | finishBlock (thread : ThreadID)
  /-- `run_ready_thread`. -/
  | dispatch (thread : ThreadID)
  /-- The timer, a signal, or the end of a thread takes the lock of the thread manager. -/
  | interrupt (ending : Ending) (threads : List ThreadID)
  | readRecord
  | removeWaiter
  | finish
  deriving DecidableEq, Repr

/-- One step. It has no result where it cannot be taken. -/
def Threads.exec (move : ThreadMove) (threads : Threads) : Option Threads :=
  match move with
  | .block thread block =>
    if threads.manager = none ∧ (threads.state thread).executes = true ∧ block.waitId = none then
      some (threads.setState thread (.blocking block))
    else none
  | .finishBlock thread =>
    if threads.manager = none then some (threads.finishBlock thread) else none
  | .dispatch thread =>
    if thread ∈ threads.ready ∧ threads.state thread = .ready then
      some ((threads.removeReadyThread thread).setState thread .running)
    else none
  | .interrupt ending pending =>
    if threads.manager = none then
      some { threads with manager := some ⟨none, ending, none, pending⟩ }
    else none
  | .readRecord =>
    match threads.manager with
    | some ⟨owner, ending, none, thread :: pending⟩ =>
      some { threads with
        manager := some ⟨owner, ending, some (.found thread (threads.state thread).waitId),
          pending⟩ }
    | _ => none
  | .removeWaiter =>
    match threads.manager with
    | some ⟨owner, ending, some (.found thread waitId), pending⟩ =>
      some { threads with
        queue := removeRecorded threads.queue waitId
        manager := some ⟨owner, ending, some (.removed thread), pending⟩ }
    | _ => none
  | .finish =>
    match threads.manager with
    | some ⟨owner, ending, some (.removed thread), pending⟩ =>
      some { threads.finish ending thread with manager := some ⟨owner, ending, none, pending⟩ }
    | _ => none

/-! ## What a thread records -/

/-- The identifier under which a thread says it waits. -/
def Threads.recorded (threads : Threads) (thread : ThreadID) : Option FutexWaitId :=
  (threads.state thread).waitId

/-- Who executes has no record. -/
theorem State.waitId_of_executes {state : State} (h : state.executes = true) :
    state.waitId = none := by
  cases state with
  | running | exiting => rfl
  | ready | blocking | woken | blocked | zombie => cases h

/-- The record is replaced, if there is one. -/
theorem State.waitId_setWaitId (state : State) (waitId : FutexWaitId) :
    (state.setWaitId waitId).waitId = state.waitId.map fun _ => waitId := by
  unfold State.setWaitId
  split
  · rfl
  · rfl
  rename_i hblocking hblocked
  have hnone : state.waitId = none := by
    cases state with
    | blocking block =>
      cases block with
      | futex deadline old => exact absurd rfl (hblocking deadline old)
      | setTime | wakeRequired | stopped => rfl
    | blocked block =>
      cases block with
      | futex deadline old => exact absurd rfl (hblocked deadline old)
      | setTime | wakeRequired | stopped => rfl
    | ready | running | woken | exiting | zombie => rfl
  rw [hnone]
  rfl

variable {threads : Threads} {thread : ThreadID} (threads : Threads) (thread : ThreadID)

/-- The records after a state is set. -/
theorem Threads.recorded_setState (state : State)
    (other : ThreadID) : (threads.setState thread state).recorded other =
      if other = thread then state.waitId else threads.recorded other := by
  unfold recorded setState
  dsimp only
  rw [Function.update_apply]
  split_ifs <;> rfl

/-- Finishing a block keeps the records. -/
theorem Threads.recorded_finishBlock (thread other : ThreadID) :
    (threads.finishBlock thread).recorded other = threads.recorded other := by
  unfold finishBlock
  by_cases hother : other = thread
  · subst hother
    split
    · rename_i block hstate
      rw [recorded_setState, if_pos rfl]
      unfold recorded
      rw [hstate]
      rfl
    · rename_i hstate
      rw [recorded_setState, if_pos rfl]
      unfold recorded
      rw [hstate]
      rfl
    · rename_i hstate
      split_ifs
      · rw [recorded_setState, if_pos rfl]
        unfold recorded
        rw [hstate]
        rfl
      · rfl
    · rfl
  split
  · rw [recorded_setState, if_neg hother]
  · rw [recorded_setState, if_neg hother]
  · split_ifs
    · rw [recorded_setState, if_neg hother]
      rfl
    · rfl
  · rfl

/-- Finishing a block keeps the queue. -/
@[simp]
theorem Threads.queue_finishBlock : (threads.finishBlock thread).queue = threads.queue := by
  unfold finishBlock
  split
  · rfl
  · rfl
  · split_ifs <;> rfl
  · rfl

/-- Finishing a block keeps the lock. -/
@[simp]
theorem Threads.manager_finishBlock : (threads.finishBlock thread).manager = threads.manager := by
  unfold finishBlock
  split
  · rfl
  · rfl
  · split_ifs <;> rfl
  · rfl

/-- `push_ready` keeps the records. -/
theorem Threads.recorded_pushReady (thread other : ThreadID) :
    (threads.pushReady thread).recorded other = threads.recorded other := by
  unfold pushReady
  split_ifs <;> rfl

/-- `push_ready` keeps the queue. -/
theorem Threads.queue_pushReady : (threads.pushReady thread).queue = threads.queue := by
  unfold pushReady
  split_ifs <;> rfl

/-- Only this record is cleared. -/
theorem Threads.recorded_finish (ending : Ending) (thread other : ThreadID) :
    (threads.finish ending thread).recorded other =
      if other = thread then none else threads.recorded other := by
  cases ending with
  | exit =>
    unfold finish
    rw [recorded_setState]
    rfl
  | wake =>
  unfold finish
  dsimp only
  split
  · rw [recorded_setState]
    rfl
  · rw [recorded_pushReady, recorded_setState]
    rfl
  rename_i hblocking hblocked
  split_ifs with hother
  · subst hother
    unfold recorded
    cases hstate : threads.state other with
    | blocking block => exact absurd hstate (hblocking block)
    | blocked block => exact absurd hstate (hblocked block)
    | ready | running | woken | exiting | zombie => rfl
  · rfl

/-- The queue is kept. -/
@[simp]
theorem Threads.queue_finish (ending : Ending) (thread : ThreadID) :
    (threads.finish ending thread).queue = threads.queue := by
  cases ending with
  | exit => rfl
  | wake =>
  unfold finish
  dsimp only
  split
  · rfl
  · exact queue_pushReady _ _
  · rfl

end Seele.Futex
