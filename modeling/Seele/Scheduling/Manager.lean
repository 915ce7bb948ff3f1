import Seele.Futex.Queue
import Seele.Signalling.Signals

/-!
# The thread manager

`ThreadManager` of `thread/manager.rs` and `thread/yielding.rs`: the states of the threads, a queue
of ready threads for every CPU, the queues of the threads that are blocked, by what they wait for,
and the threads that have exited. Every function below runs under the lock of the thread manager,
unless its comment says otherwise.

A thread is a number here, both for its `ThreadID` and for its `ThreadRef`. The futex queue has a
lock of its own, but the functions below only take waiters out of it, so it is part of the state.
`Woke` says what becomes of the manager when a list of threads has been woken.
-/

namespace Seele.Scheduling

open Futex (ThreadID FutexKey FutexWaitId FutexQueue removeFutexWaiter takeFutexWaiters)
open Signalling (Signal Signals)

/-- `ProcessID`. It stands for the `ProcessRef` of the process as well. -/
abbrev ProcessID := ℕ

/-- `WakeType`. A poller is named by a number. -/
inductive WakeType where
  | pty
  | mouse
  | keyboard
  | processExit
  | io
  | signalWait (mask : Signals)
  | poller (poller : ℕ)
  deriving DecidableEq, Repr

/-- `BlockType`. Times are nanoseconds since boot. -/
inductive BlockType where
  | setTime (time : ℕ)
  | wakeRequired (wakeType : WakeType) (deadline : Option ℕ)
  | futex (deadline : Option ℕ) (waitId : FutexWaitId)
  | stopped
  deriving DecidableEq, Repr

/-- `block_deadline`. -/
def BlockType.deadline : BlockType → Option ℕ
  | .setTime time => some time
  | .wakeRequired _ deadline | .futex deadline _ => deadline
  | .stopped => none

/-- `is_timed_out`. -/
def BlockType.isTimedOut (block : BlockType) (now : ℕ) : Bool :=
  match block with
  | .setTime time => time ≤ now
  | .wakeRequired _ (some deadline) | .futex (some deadline) _ => deadline ≤ now
  | _ => false

/-- Who timed out had a deadline. -/
theorem BlockType.deadline_of_isTimedOut {block : BlockType} {now : ℕ}
    (h : block.isTimedOut now = true) :
    ∃ deadline, block.deadline = some deadline ∧ deadline ≤ now := by
  cases block with
  | setTime time => exact ⟨time, rfl, of_decide_eq_true h⟩
  | wakeRequired _ deadline | futex deadline _ =>
    cases deadline with
    | none => simp [isTimedOut] at h
    | some deadline => exact ⟨deadline, rfl, of_decide_eq_true h⟩
  | stopped => simp [isTimedOut] at h

/-- A deadline that has passed times out. -/
theorem BlockType.isTimedOut_of_deadline {block : BlockType} {now deadline : ℕ}
    (h : block.deadline = some deadline) (hdue : deadline ≤ now) : block.isTimedOut now = true := by
  cases block with
  | setTime time =>
    cases h
    exact decide_eq_true hdue
  | wakeRequired _ time | futex time _ =>
    cases time with
    | none => cases h
    | some time =>
      cases h
      exact decide_eq_true hdue
  | stopped => cases h

/-- The identifier under which a thread waits at a futex. -/
def BlockType.waitId : BlockType → Option FutexWaitId
  | .futex _ waitId => some waitId
  | _ => none

/-- `State` of a thread. -/
inductive State where
  | ready
  | running
  | blocking (block : BlockType)
  | woken
  | blocked (block : BlockType)
  | exiting
  | zombie
  deriving DecidableEq, Repr

open State

/-- What a thread is blocked on, or about to be. -/
def State.block : State → Option BlockType
  | .blocking block | .blocked block => some block
  | _ => none

/-- The thread sleeps, or so its state says. -/
def State.isBlocked : State → Bool
  | .blocked _ => true
  | _ => false

/-- The thread is about to sleep. -/
def State.isBlocking : State → Bool
  | .blocking _ => true
  | _ => false

/-- What `ThreadManager::wake` makes of a state. -/
def State.wake : State → State
  | .blocking _ => .woken
  | .blocked _ => .ready
  | state => state

/-- The parts of a `Thread` that scheduling reads: its state, its process, the address to clear when
it exits, and whether its snapshot is one of user mode. -/
structure Thread where
  state : State
  parent : ProcessID
  clearChildTid : ℕ
  userSnapshot : Bool
  deriving DecidableEq, Repr

/-- The queues of `BlockedQueues` for threads that have to be woken. -/
inductive Queue where
  | keyboard
  | pty
  | io
  | processExit
  | signalWait
  | mouse
  | poller
  deriving DecidableEq, Repr

/-- `get_appropriate_queue`. -/
def WakeType.queue : WakeType → Queue
  | .pty => .pty
  | .keyboard => .keyboard
  | .mouse => .mouse
  | .processExit => .processExit
  | .poller _ => .poller
  | .io => .io
  | .signalWait _ => .signalWait

/-- `BlockedQueues`: the queues, and the threads with a deadline, earliest first. -/
structure BlockedQueues where
  waiting : Queue → List ThreadID
  timed : List (ℕ × ThreadID)

/-- The order of the keys of `timed`. -/
def timedBefore (key other : ℕ × ThreadID) : Bool :=
  key.1 < other.1 || (key.1 == other.1 && key.2 < other.2)

/-- A key is inserted in its place. -/
def insertTimed (timed : List (ℕ × ThreadID)) (key : ℕ × ThreadID) : List (ℕ × ThreadID) :=
  timed.filter (timedBefore · key) ++ key :: timed.filter (timedBefore key ·)

/-- `BlockedQueues::push`. -/
def BlockedQueues.push (queues : BlockedQueues) (thread : ThreadID) (block : BlockType) :
    BlockedQueues where
  timed :=
    match block.deadline with
    | some deadline => insertTimed queues.timed (deadline, thread)
    | none => queues.timed
  waiting :=
    match block with
    | .wakeRequired wakeType _ =>
      Function.update queues.waiting wakeType.queue (queues.waiting wakeType.queue ++ [thread])
    | _ => queues.waiting

/-- `PendingThreadExit`. -/
structure PendingThreadExit where
  process : ProcessID
  clearChildTid : ℕ
  deriving DecidableEq, Repr

/-- `ThreadManager`. The map `threads` has the threads that can be found by their number; the other
threads are only reached by those who have their `ThreadRef`. -/
structure ThreadManager where
  thread : ThreadID → Thread
  threads : List ThreadID
  readyQueues : List (List ThreadID)
  nextReadyCpu : ℕ
  zombies : List ThreadID
  pendingThreadExits : List PendingThreadExit
  blockedQueues : BlockedQueues
  futexQueue : FutexQueue

namespace ThreadManager

/-- The state of a thread. -/
def state (manager : ThreadManager) (thread : ThreadID) : State := (manager.thread thread).state

/-- The threads with one state changed. It needs the lock of the thread only. -/
def setState (manager : ThreadManager) (thread : ThreadID) (state : State) : ThreadManager :=
  { manager with
    thread := Function.update manager.thread thread { manager.thread thread with state } }

/-- The address that a thread has cleared when it exits is changed. -/
def setClearChildTid (manager : ThreadManager) (thread : ThreadID) (clearChildTid : ℕ) :
    ThreadManager :=
  { manager with
    thread := Function.update manager.thread thread { manager.thread thread with clearChildTid } }

/-- The threads that wait in a queue. -/
def waiting (manager : ThreadManager) (queue : Queue) : List ThreadID :=
  manager.blockedQueues.waiting queue

/-- The threads that wait for a time. -/
def timed (manager : ThreadManager) : List (ℕ × ThreadID) := manager.blockedQueues.timed

/-- One of the queues of blocked threads is changed. -/
def setWaiting (manager : ThreadManager) (queue : Queue) (threads : List ThreadID) :
    ThreadManager :=
  { manager with blockedQueues :=
    { manager.blockedQueues with
      waiting := Function.update manager.blockedQueues.waiting queue threads } }

/-! ## Ready threads -/

/-- `resize_ready_queues`. -/
def resizeReadyQueues (manager : ThreadManager) (cpuCount : ℕ) : ThreadManager :=
  let cpuCount := max cpuCount 1
  if cpuCount ≤ manager.readyQueues.length then manager
  else
    { manager with
      readyQueues :=
        manager.readyQueues ++ List.replicate (cpuCount - manager.readyQueues.length) []
      nextReadyCpu := if cpuCount ≤ manager.nextReadyCpu then 0 else manager.nextReadyCpu }

/-- There is a queue for at least one CPU. -/
def withReadyQueue (manager : ThreadManager) : ThreadManager :=
  if manager.readyQueues.isEmpty then manager.resizeReadyQueues 1 else manager

/-- `is_ready_queued`. -/
def isReadyQueued (manager : ThreadManager) (thread : ThreadID) : Bool :=
  manager.readyQueues.any fun queue => queue.contains thread

/-- `push_ready_on_cpu`. -/
def pushReadyOnCpu (manager : ThreadManager) (thread : ThreadID) (cpu : ℕ) : ThreadManager :=
  let manager := manager.withReadyQueue
  if manager.isReadyQueued thread then manager
  else
    let queueIndex := min cpu (manager.readyQueues.length - 1)
    { manager with readyQueues := manager.readyQueues.modify queueIndex (· ++ [thread]) }

/-- `push_ready_balanced`, with `next_balanced_cpu`. -/
def pushReadyBalanced (manager : ThreadManager) (thread : ThreadID) : ThreadManager :=
  let manager := manager.withReadyQueue
  let cpu := manager.nextReadyCpu % manager.readyQueues.length
  { manager with nextReadyCpu := (cpu + 1) % manager.readyQueues.length }.pushReadyOnCpu thread cpu

/-- `remove_ready_thread`, with whether the thread was there. -/
def removeReadyThread (manager : ThreadManager) (thread : ThreadID) : Bool × ThreadManager :=
  (manager.readyQueues.any fun queue => (queue.filter (· != thread)).length != queue.length,
    { manager with readyQueues := manager.readyQueues.map (·.filter (· != thread)) })

/-- `ReadyThreadFilter`. -/
inductive ReadyThreadFilter where
  | any
  | userThread
  deriving DecidableEq, Repr

/-- `ReadyThreadFilter::matches`. -/
def ReadyThreadFilter.accepts (filter : ReadyThreadFilter) (thread : Thread) : Bool :=
  match filter with
  | .any => true
  | .userThread => thread.userSnapshot

/-- `pop_ready_from_queue_matching`, with the number of rounds to go: a thread that is not ready
leaves the queue, and one that is ready but does not match goes to its end. -/
def popReadyFromQueueMatching (thread : ThreadID → Thread) (filter : ReadyThreadFilter) :
    ℕ → List ThreadID → Option ThreadID × List ThreadID
  | 0, queue => (none, queue)
  | _ + 1, [] => (none, [])
  | rounds + 1, t :: queue =>
    if (thread t).state = .ready then
      if filter.accepts (thread t) then (some t, queue)
      else popReadyFromQueueMatching thread filter rounds (queue ++ [t])
    else popReadyFromQueueMatching thread filter rounds queue

/-- A thread out of the queue of one CPU. -/
def popReadyAt (manager : ThreadManager) (filter : ReadyThreadFilter) (index : ℕ) :
    Option ThreadID × ThreadManager :=
  let queue := manager.readyQueues.getD index []
  let popped := popReadyFromQueueMatching manager.thread filter queue.length queue
  (popped.1, { manager with readyQueues := manager.readyQueues.set index popped.2 })

/-- The queues are tried in turn, until one of them has a thread. -/
def popReadyAmong (manager : ThreadManager) (filter : ReadyThreadFilter) :
    List ℕ → Option ThreadID × ThreadManager
  | [] => (none, manager)
  | index :: rest =>
    match manager.popReadyAt filter index with
    | (some thread, manager) => (some thread, manager)
    | (none, manager) => manager.popReadyAmong filter rest

/-- `pop_ready_for_cpu_inner`: the queue of the CPU comes first. -/
def popReadyForCpuInner (manager : ThreadManager) (cpu : ℕ) (allowSteal : Bool)
    (filter : ReadyThreadFilter) : Option ThreadID × ThreadManager :=
  let manager := manager.withReadyQueue
  let localIndex := min cpu (manager.readyQueues.length - 1)
  let others :=
    if allowSteal then (List.range manager.readyQueues.length).filter (· != localIndex) else []
  manager.popReadyAmong filter (localIndex :: others)

/-! ## Blocking and waking -/

/-- `remove_from_blocked_queues`. The deadline and the place in the futex queue are those that the
state of the thread records. -/
def removeFromBlockedQueues (manager : ThreadManager) (thread : ThreadID) : ThreadManager :=
  let timedKey := (manager.state thread).block.bind fun block =>
    block.deadline.map fun deadline => (deadline, thread)
  let futexWaitId := (manager.state thread).block.bind BlockType.waitId
  { manager with
    futexQueue :=
      match futexWaitId with
      | some waitId => removeFutexWaiter manager.futexQueue waitId
      | none => manager.futexQueue
    blockedQueues :=
      { timed :=
          match timedKey with
          | some key => manager.timed.filter (· != key)
          | none => manager.timed
        waiting := fun queue => (manager.waiting queue).filter (· != thread) } }

/-- `block`. -/
def block (manager : ThreadManager) (thread : ThreadID) (block : BlockType) : ThreadManager :=
  { manager.setState thread (.blocking block) with
    blockedQueues := manager.blockedQueues.push thread block }

/-- `wake`. -/
def wake (manager : ThreadManager) (thread : ThreadID) : ThreadManager :=
  let manager := manager.removeFromBlockedQueues thread
  match manager.state thread with
  | .blocking _ => manager.setState thread .woken
  | .blocked _ => (manager.setState thread .ready).pushReadyBalanced thread
  | _ => manager

/-- The threads of a list are woken one after another. -/
def wakeAll (manager : ThreadManager) (threads : List ThreadID) : ThreadManager :=
  threads.foldl wake manager

/-- The threads of a list whose states call for it are woken, one after another. -/
def wakeIf (manager : ThreadManager) (threads : List ThreadID) (shouldWake : State → Bool) :
    ThreadManager :=
  threads.foldl (fun manager thread =>
    if shouldWake (manager.state thread) then manager.wake thread else manager) manager

/-- `wake_thread_by_id`. -/
def wakeThreadById (manager : ThreadManager) (thread : ThreadID) : ThreadManager :=
  if thread ∈ manager.threads then manager.wake thread else manager

/-- `retain` on a queue of blocked threads: those in certain states leave it and are woken. -/
def wakeRetain (manager : ThreadManager) (queue : Queue) (shouldWake : State → Bool) :
    ThreadManager :=
  let toWake := (manager.waiting queue).filter fun thread => shouldWake (manager.state thread)
  let kept := (manager.waiting queue).filter fun thread => !shouldWake (manager.state thread)
  (manager.setWaiting queue kept).wakeAll toWake

end ThreadManager

/-- `should_wake` of `wake_process_exit_waiters`. -/
def State.awaitsProcessExit : State → Bool
  | .blocked (.wakeRequired .processExit _) => true
  | _ => false

/-- `should_wake` of `wake_signal_waiters`. -/
def State.awaitsSignal (signal : Signal) : State → Bool
  | .blocking (.wakeRequired (.signalWait mask) _)
  | .blocked (.wakeRequired (.signalWait mask) _) => mask.contains signal
  | _ => false

/-- `should_wake` of `wake_affected_pollers` and `wake_ready_pollers`. -/
def State.awaitsPoller (pollers : List ℕ) : State → Bool
  | .blocked (.wakeRequired (.poller poller) _) => pollers.contains poller
  | _ => false

/-- The thread has been stopped by a signal. -/
def State.isStopped : State → Bool
  | .blocked .stopped => true
  | _ => false

/-- `should_wake` of `cleanup_exited_threads`: the thread sleeps, but has not been stopped. -/
def State.sleeps (state : State) : Bool := state.isBlocked && !state.isStopped

/-- The thread sleeps until a time that has come. -/
def State.isTimedOut (now : ℕ) : State → Bool
  | .blocked block => block.isTimedOut now
  | _ => false

namespace ThreadManager

variable (manager : ThreadManager)

/-- `wake_process_exit_waiters`. -/
def wakeProcessExitWaiters : ThreadManager :=
  manager.wakeRetain .processExit awaitsProcessExit

/-- `wake_signal_waiters`. -/
def wakeSignalWaiters (signal : Signal) : ThreadManager :=
  manager.wakeRetain .signalWait (awaitsSignal signal)

/-- `wake_affected_pollers`. -/
def wakeAffectedPollers (pollers : List ℕ) : ThreadManager :=
  manager.wakeRetain .poller (awaitsPoller pollers)

/-- `wake_ready_pollers`, with the pollers that have events. -/
def wakeReadyPollers (withEvents : List ℕ) : ThreadManager :=
  manager.wakeAll <| (manager.waiting .poller).filter fun thread =>
    (manager.state thread).awaitsPoller withEvents

/-- The loop of `register_wake_func`: as long as the queue has a first thread, it is taken out and
woken. -/
def wakeQueueLoop (queue : Queue) : ℕ → ThreadManager → ThreadManager
  | 0, manager => manager
  | rounds + 1, manager =>
    match manager.waiting queue with
    | [] => manager
    | thread :: rest => wakeQueueLoop queue rounds ((manager.setWaiting queue rest).wake thread)

variable (manager : ThreadManager)

/-- The functions that `register_wake_func` makes. A round takes at least one thread out of the
queue. -/
def wakeQueue (queue : Queue) : ThreadManager :=
  wakeQueueLoop queue (manager.waiting queue).length manager

/-- `wake_pty`. -/
def wakePty : ThreadManager := manager.wakeQueue .pty

/-- `wake_keyboard`. -/
def wakeKeyboard : ThreadManager := manager.wakeQueue .keyboard

/-- `wake_mouse`. -/
def wakeMouse : ThreadManager := manager.wakeQueue .mouse

/-- `wake_io`. -/
def wakeIo : ThreadManager := manager.wakeQueue .io

/-- The entries of `timed` that are due are taken out. -/
def dropDue (now : ℕ) : ThreadManager :=
  { manager with blockedQueues :=
    { manager.blockedQueues with timed := manager.timed.filter fun entry => now < entry.1 } }

/-- `process_timed_out_threads`. The threads with an entry that is due are woken if they still sleep
until a time that has come. The clock is read once. -/
def processTimedOutThreads (now : ℕ) : ThreadManager :=
  let due := manager.timed.filter fun entry => entry.1 ≤ now
  (manager.dropDue now).wakeAll <|
    (due.map Prod.snd).filter fun thread => (manager.state thread).isTimedOut now

/-- `wake_process_threads`: the threads of a process that are stopped, or those that sleep for
another reason. -/
def wakeProcessThreads (threads : List ThreadID) (wakeStoppedOnly : Bool) : ThreadManager :=
  manager.wakeIf threads (if wakeStoppedOnly then isStopped else sleeps)

/-- What `cleanup_exited_threads` does for the parent of a process whose threads are all gone. -/
def wakeForChildExit (parentThreads : List ThreadID) : ThreadManager :=
  (manager.wakeIf parentThreads sleeps).wakeProcessExitWaiters

/-- `take_futex_waiters`, and the waiters that it finds are woken. -/
def wakeFutex (key : FutexKey) (count : ℕ) (wakeMask : Option UInt32) :
    ThreadManager :=
  match takeFutexWaiters manager.futexQueue key count wakeMask with
  | some (threads, futexQueue) => { manager with futexQueue }.wakeAll threads
  | none => manager

variable (thread : ThreadID)

/-- `finish_block_current`, with whether the thread goes on at once. Otherwise it returns to the
scheduler. -/
def finishBlockCurrent : Bool × ThreadManager :=
  match manager.state thread with
  | .blocking block => (false, manager.setState thread (.blocked block))
  | .blocked _ => (false, manager)
  | .woken => (true, manager.setState thread .running)
  | .ready =>
    let removed := manager.removeReadyThread thread
    if removed.1 then (true, removed.2.setState thread .running) else (false, removed.2)
  | .running => (true, manager)
  | .exiting | .zombie => (false, manager)

/-- The second half of `cancel_block`, under the lock of the thread only. The first half is
`remove_from_blocked_queues`. -/
def cancelState : ThreadManager :=
  match manager.state thread with
  | .blocking _ | .blocked _ => manager.setState thread .running
  | _ => manager

/-- The arms of `after_thread_yield` for a thread that can go on: it becomes ready and is queued. -/
def requeue : ThreadManager :=
  (manager.setState thread .ready).pushReadyBalanced thread

/-- `run_ready_thread`, under the lock of the thread: it is given to the CPU if it is ready. -/
def runReadyThread : Bool × ThreadManager :=
  if manager.state thread = .ready then (true, manager.setState thread .running)
  else (false, manager)

/-! ## Exiting -/

/-- `mark_thread_exited`. -/
def markThreadExited : ThreadManager :=
  if manager.state thread = .zombie then manager
  else
    let process := (manager.thread thread).parent
    let clearChildTid := (manager.thread thread).clearChildTid
    let cleared := manager.setClearChildTid thread 0
    let removed := ((cleared.removeFromBlockedQueues thread).removeReadyThread thread).2
    let marked := removed.setState thread .zombie
    { marked with
      pendingThreadExits :=
        if clearChildTid = 0 then marked.pendingThreadExits
        else marked.pendingThreadExits ++ [⟨process, clearChildTid⟩]
      zombies := marked.zombies ++ [thread] }

/-- `defer_current_zombie_thread`. The process and the stacks of the thread are left out. -/
def deferCurrentZombieThread : ThreadManager :=
  let removed := (manager.removeReadyThread thread).2.removeFromBlockedQueues thread
  { removed with
    threads := removed.threads.filter (· != thread)
    zombies := removed.zombies.filter (· != thread) }

/-- One thread of `exit_thread_list_except`. A thread that runs is told to exit, and is not stopped
yet; any other one is marked right away. -/
def exitSibling : Bool × ThreadManager :=
  match manager.state thread with
  | .zombie => (true, manager)
  | .running => (false, manager.setState thread .exiting)
  | .exiting => (false, manager)
  | .ready | .blocking _ | .woken | .blocked _ => (true, manager.markThreadExited thread)

/-- The body of the loop of `exit_thread_list_except`. -/
def exitStep (current : ThreadID) (exited : Bool × ThreadManager) (thread : ThreadID) :
    Bool × ThreadManager :=
  if thread = current then exited
  else
    let stopped := exited.2.exitSibling thread
    (exited.1 && stopped.1, stopped.2)

/-- `exit_thread_list_except`, with whether all the siblings are stopped. -/
def exitThreadListExcept (threads : List ThreadID) (current : ThreadID) : Bool × ThreadManager :=
  threads.foldl (exitStep current) (true, manager)

end ThreadManager

end Seele.Scheduling
