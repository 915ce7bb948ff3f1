import Seele.Scheduling.Wakes
import Seele.Lib.GuardedRun

/-!
# Stopped processes

A stop signal sets the state of every thread of a process to `Blocked(Stopped)`, in place. What the
thread waited for until then is forgotten, but its entries stay: in the queue it waited in, in
`timed`, in the futex queue. So wakes for the wait of before still find the thread.

Some of them look at the state and leave it alone. The others wake whatever they find: the functions
that wake a whole queue, `wake_thread_by_id`, the futex calls, and the second half of
`wake_specific_thread_for_signal`. Then the thread runs in a stopped process
(`stopped_thread_wakes`).

`stops_hold` is about any run of all of these with stops, `SIGCONT` and `SIGKILL`: as long as the
latter functions meet no stopped thread, and stopped threads take no steps of their own, a thread
that has been stopped stays so until its process gets one of the two signals. After `SIGCONT` it
stays in a queue of ready threads, or with the CPU that took it out, until it runs.
-/

namespace Seele.Scheduling

open Function

open Futex (ThreadID FutexKey)
open Signalling (Signal)
open ThreadManager

/-! ## Wakes that leave a stopped thread alone -/

/-- The state of a stopped thread. -/
theorem State.isStopped_iff {state : State} : state.isStopped ↔ state = .blocked .stopped := by
  constructor
  · intro h
    unfold isStopped at h
    split at h
    case h_1 => rfl
    case h_2 => cases h
  · rintro rfl
    rfl

/-- The threads that a call takes for woken without a look at their state. -/
def WakeCall.wakesBlindly (manager : ThreadManager) : WakeCall → List ThreadID
  | .wakePty => manager.waiting .pty
  | .wakeKeyboard => manager.waiting .keyboard
  | .wakeMouse => manager.waiting .mouse
  | .wakeIo => manager.waiting .io
  | .wakeThreadById thread => [thread]
  | _ => []

/-- Who wakes a stopped thread does so blindly. -/
theorem WakeCall.mem_wakesBlindly {call : WakeCall} {manager : ThreadManager} {thread : ThreadID}
    (hwoken : thread ∈ call.woken manager) (hstopped : (manager.state thread).isStopped) :
    thread ∈ call.wakesBlindly manager := by
  rw [State.isStopped_iff] at hstopped
  cases call with
  | wakePty | wakeKeyboard | wakeMouse | wakeIo => exact hwoken
  | wakeThreadById target =>
    simp only [woken] at hwoken
    split at hwoken
    case isTrue => exact hwoken
    case isFalse => cases hwoken
  | wakeProcessExitWaiters | wakeSignalWaiters _ | wakeAffectedPollers _ | wakeReadyPollers _
  | processTimedOutThreads _ =>
    have hstate := (List.mem_filter.mp hwoken).2
    rw [hstopped] at hstate
    cases hstate

namespace Stops

/-! ## The system -/

/-- The threads, by process, and those that a CPU has popped. A thread is held from the moment it is
stopped to the next `SIGCONT` or `SIGKILL` for its process, and resumed from a `SIGCONT` that finds
it held to its next step. -/
structure System where
  manager : ThreadManager
  members : ProcessID → List ThreadID
  popped : List ThreadID
  held : ThreadID → Bool
  resumed : ThreadID → Bool

/-- The steps. -/
inductive Op where
  /-- One thread in the loop for `stop_current` of `process_current_process_signals`. -/
  | stop (thread : ThreadID)
  | sigcont (process : ProcessID)
  | sigkill (process : ProcessID)
  | wake (call : WakeCall)
  | wakeFutex (key : FutexKey) (count : ℕ) (wakeMask : Option UInt32)
  /-- `wake`, by someone with a reference to the thread. -/
  | wakeThread (thread : ThreadID)
  | childExit (parent : ProcessID)
  | block (thread : ThreadID) (block : BlockType)
  | finish (thread : ThreadID)
  | cancelQueues (thread : ThreadID)
  | cancelState (thread : ThreadID)
  | yield (thread : ThreadID)
  | pop (cpu : ℕ) (allowSteal : Bool) (filter : ReadyThreadFilter)
  | runReady (thread : ThreadID)
  | markExited (thread : ThreadID)
  | setMembers (process : ProcessID) (threads : List ThreadID)
  deriving DecidableEq, Repr

/-- A thread takes a step of its own, so it runs again. -/
def System.step (s : System) (thread : ThreadID) (manager : ThreadManager) : System :=
  { s with manager, resumed := update s.resumed thread false }

/-- One step. -/
def exec (op : Op) (s : System) : Option System :=
  match op with
  | .stop thread =>
    some { s with
      manager := s.manager.setState thread (.blocked .stopped)
      held := update s.held thread true
      resumed := update s.resumed thread false }
  | .sigcont process =>
    some { s with
      manager := s.manager.wakeProcessThreads (s.members process) true
      held := fun t => s.held t && !(s.members process).contains t
      resumed := fun t => s.resumed t || s.held t && (s.members process).contains t }
  | .sigkill process =>
    some { s with
      manager := s.manager.wakeSignalWaiters .SIGKILL
      held := fun t => s.held t && !(s.members process).contains t }
  | .wake call => some { s with manager := call.run s.manager }
  | .wakeFutex key count wakeMask =>
    some { s with manager := s.manager.wakeFutex key count wakeMask }
  | .wakeThread thread => some { s with manager := s.manager.wake thread }
  | .childExit parent =>
    some { s with manager := s.manager.wakeForChildExit (s.members parent) }
  | .block thread block => some (s.step thread (s.manager.block thread block))
  | .finish thread => some (s.step thread (s.manager.finishBlockCurrent thread).2)
  | .cancelQueues thread => some (s.step thread (s.manager.removeFromBlockedQueues thread))
  | .cancelState thread => some (s.step thread (s.manager.cancelState thread))
  | .yield thread => some (s.step thread (s.manager.requeue thread))
  | .pop cpu allowSteal filter =>
    let popped := s.manager.popReadyForCpuInner cpu allowSteal filter
    some { s with manager := popped.2, popped := popped.1.toList ++ s.popped }
  | .runReady thread =>
    if thread ∈ s.popped then
      some { s.step thread (s.manager.runReadyThread thread).2 with
        popped := s.popped.erase thread }
    else none
  | .markExited thread =>
    some { s.step thread (s.manager.markThreadExited thread) with
      held := update s.held thread false }
  | .setMembers process threads =>
    some { s with members := update s.members process threads }

/-- No stopped thread is woken blindly, and none takes a step of its own. -/
def Safe (op : Op) (s : System) : Prop :=
  match op with
  | .wake call => ∀ t ∈ call.wakesBlindly s.manager, ¬ (s.manager.state t).isStopped
  | .wakeFutex key count wakeMask =>
    ∀ t ∈ s.manager.futexWaiters key count wakeMask, ¬ (s.manager.state t).isStopped
  | .wakeThread thread | .block thread _ | .cancelState thread | .yield thread =>
    ¬ (s.manager.state thread).isStopped
  | _ => True

instance : ∀ op s, Decidable (Safe op s)
  | .wake call, s => inferInstanceAs
      (Decidable (∀ t ∈ call.wakesBlindly s.manager, ¬ (s.manager.state t).isStopped))
  | .wakeFutex key count wakeMask, s => inferInstanceAs
      (Decidable (∀ t ∈ s.manager.futexWaiters key count wakeMask, ¬ (s.manager.state t).isStopped))
  | .wakeThread thread, s | .block thread _, s | .cancelState thread, s | .yield thread, s =>
    inferInstanceAs (Decidable (¬ (s.manager.state thread).isStopped))
  | .stop _, _ | .sigcont _, _ | .sigkill _, _ | .childExit _, _ | .finish _, _
  | .cancelQueues _, _ | .pop .., _ | .runReady _, _ | .markExited _, _ | .setMembers .., _ =>
    .isTrue trivial

/-! ## Stopped threads stay stopped -/

/-- What is held is stopped, and what has been resumed is ready and will be found by a CPU. -/
structure Stopped (s : System) : Prop where
  held : ∀ t, s.held t = true → s.manager.state t = .blocked .stopped
  resumed : ∀ t, s.resumed t = true →
    s.manager.state t = .ready ∧ (s.manager.ReadyQueued t ∨ t ∈ s.popped)

variable {s s' : System} {manager manager' : ThreadManager} {thread : ThreadID} (h : Stopped s)

include h

/-- A wake that spares the stopped. -/
theorem Stopped.woke {woken : List ThreadID} (hwoke : Woke manager manager' woken)
    (hstate : ∀ t, manager.state t = s.manager.state t)
    (hready : ∀ t, manager.ReadyQueued t ↔ s.manager.ReadyQueued t)
    (hspared : ∀ t ∈ woken, ¬ (s.manager.state t).isStopped) :
    Stopped { s with manager := manager' } where
  held t ht := by
    have hstopped := h.held t ht
    have hnot : t ∉ woken := fun hmem => hspared t hmem (State.isStopped_iff.mpr hstopped)
    rw [hwoke.state_of_not_mem hnot, hstate]
    exact hstopped
  resumed t ht := by
    obtain ⟨hrun, hqueued⟩ := h.resumed t ht
    refine ⟨?_, hqueued.imp_left fun hqueued => (hwoke.ready t).mpr (.inl ((hready t).mpr hqueued))⟩
    -- A thread that is ready does not notice a wake.
    rw [hwoke.state, hstate, hrun]
    split <;> rfl

/-- A thread that stays stopped. -/
theorem Stopped.step (hspares : Spares s.manager manager' thread)
    (hstopped : s.manager.state thread = .blocked .stopped →
      manager'.state thread = .blocked .stopped) : Stopped (s.step thread manager') where
  held t ht := by
    by_cases hne : t = thread
    · subst hne
      exact hstopped (h.held t ht)
    · exact (hspares.state t hne).trans (h.held t ht)
  resumed t ht := by
    by_cases hne : t = thread
    · subst hne
      simp [System.step] at ht
    · simp only [System.step, update_of_ne hne] at ht
      obtain ⟨hrun, hqueued⟩ := h.resumed t ht
      exact ⟨(hspares.state t hne).trans hrun, hqueued.imp_left (hspares.ready t hne)⟩

/-- A thread that is not stopped. -/
theorem Stopped.step_awake (hspares : Spares s.manager manager' thread)
    (hsafe : ¬ (s.manager.state thread).isStopped) : Stopped (s.step thread manager') :=
  h.step hspares fun hstopped => absurd (State.isStopped_iff.mpr hstopped) hsafe

/-- A process is continued. -/
theorem Stopped.sigcont {process : ProcessID}
    (hexec : exec (.sigcont process) s = some s') : Stopped s' := by
  cases hexec
  have hwoke : Woke s.manager (s.manager.wakeProcessThreads (s.members process) true)
      ((s.members process).filter fun t => (s.manager.state t).isStopped) := wakeIf_woke _ _ _
  refine ⟨fun t ht => ?_, fun t ht => ?_⟩
  · grind [hwoke.state_of_not_mem, h.held]
  obtain hresumed | ⟨hheld, hmember⟩ : s.resumed t = true ∨ s.held t = true ∧
      t ∈ s.members process := by simpa using ht
  · obtain ⟨hrun, hqueued⟩ := h.resumed t hresumed
    refine ⟨?_, hqueued.imp_left fun hqueued => (hwoke.ready t).mpr (.inl hqueued)⟩
    rw [hwoke.state, hrun]
    split <;> rfl
  have hstopped := h.held t hheld
  have hmem : t ∈ (s.members process).filter fun t => (s.manager.state t).isStopped :=
    List.mem_filter.mpr ⟨hmember, State.isStopped_iff.mpr hstopped⟩
  refine ⟨?_, .inl ((hwoke.ready t).mpr (.inr ⟨hmem, ?_⟩))⟩
  · dsimp only
    rw [hwoke.state_of_mem hmem, hstopped]
    rfl
  · rw [hstopped]
    rfl

/-- A wake function is called. -/
theorem Stopped.call (call : WakeCall)
    (hsafe : ∀ t ∈ call.wakesBlindly s.manager, ¬ (s.manager.state t).isStopped) :
    Stopped { s with manager := call.run s.manager } := by
  refine h.woke (call.run_woke s.manager) (call.state_base s.manager) (fun t => ?_) ?_
  · cases call <;> rfl
  · grind [call.mem_wakesBlindly]

/-- A child exits. -/
theorem Stopped.childExit (parentThreads : List ThreadID) :
    Stopped { s with manager := s.manager.wakeForChildExit parentThreads } := by
  have hparents : Stopped { s with manager := s.manager.wakeIf parentThreads State.sleeps } := by
    refine h.woke (wakeIf_woke _ _ _) (fun _ => rfl) (fun _ => .rfl) fun t hmem hstopped => ?_
    grind [State.sleeps]
  exact hparents.call .wakeProcessExitWaiters nofun

omit h

/-- Every safe step leaves the stopped alone. -/
theorem exec_stopped {op : Op} (hsafe : Safe op s) (hexec : exec op s = some s')
    (h : Stopped s) : Stopped s' := by
  cases op with
  | sigcont process => exact h.sigcont hexec
  | stop thread =>
    cases hexec
    have hspares := s.manager.setState_spares thread (.blocked .stopped)
    refine ⟨fun t ht => ?_, fun t ht => ?_⟩
    · grind [state_setState_self, hspares.state, h.held]
    by_cases hne : t = thread
    · subst hne
      simp at ht
    · simp only [update_of_ne hne] at ht
      obtain ⟨hrun, hqueued⟩ := h.resumed t ht
      exact ⟨(hspares.state t hne).trans hrun, hqueued⟩
  | sigkill process =>
    cases hexec
    have hcall := h.call (.wakeSignalWaiters .SIGKILL) nofun
    refine ⟨fun t ht => hcall.held t ?_, hcall.resumed⟩
    exact (Bool.and_eq_true_iff.mp ht).1
  | wake call =>
    cases hexec
    exact h.call call hsafe
  | wakeFutex key count wakeMask =>
    cases hexec
    exact h.woke (wakeFutex_woke _ key count wakeMask) (fun _ => rfl) (fun _ => .rfl) hsafe
  | wakeThread thread =>
    cases hexec
    refine h.woke (wake_woke _ thread) (fun _ => rfl) (fun _ => .rfl) fun t hmem => ?_
    rw [List.mem_singleton.mp hmem]
    exact hsafe
  | childExit parent =>
    cases hexec
    exact h.childExit (s.members parent)
  | block thread block =>
    cases hexec
    exact h.step_awake (block_spares _ thread block) hsafe
  | finish thread =>
    cases hexec
    refine h.step (finishBlockCurrent_spares _ thread) fun hstopped => ?_
    simp [finishBlockCurrent, hstopped]
  | cancelQueues thread =>
    cases hexec
    exact h.step (removeFromBlockedQueues_spares _ thread) id
  | cancelState thread =>
    cases hexec
    exact h.step_awake (cancelState_spares _ thread) hsafe
  | yield thread =>
    cases hexec
    exact h.step_awake (requeue_spares _ thread) hsafe
  | pop cpu allowSteal filter =>
    cases hexec
    have hsame := (popReadyForCpuInner_spec s.manager cpu allowSteal filter).1
    refine ⟨fun t ht => (hsame.state t).trans (h.held t ht), fun t ht => ?_⟩
    grind [h.resumed, hsame.state, popReadyForCpuInner_keeps]
  | runReady thread =>
    simp only [exec] at hexec
    split at hexec
    case isFalse => cases hexec
    case isTrue hpopped =>
      cases hexec
      have hstep : Stopped (s.step thread (s.manager.runReadyThread thread).2) :=
        h.step (runReadyThread_spares _ thread) fun hstopped => by simp [runReadyThread, hstopped]
      refine ⟨hstep.held, fun t ht => ?_⟩
      obtain ⟨hrun, hqueued⟩ := hstep.resumed t ht
      -- The thread that leaves the list is not among the resumed ones any more.
      have hne : t ≠ thread := by
        rintro rfl
        simp [System.step] at ht
      exact ⟨hrun, hqueued.imp_right fun hmem => (List.mem_erase_of_ne hne).mpr hmem⟩
  | markExited thread =>
    cases hexec
    have hspares := s.manager.markThreadExited_spares thread
    refine ⟨fun t ht => ?_, fun t ht => ?_⟩
    · by_cases hne : t = thread
      · subst hne
        simp at ht
      · simp only [update_of_ne hne] at ht
        exact (hspares.state t hne).trans (h.held t ht)
    by_cases hne : t = thread
    · subst hne
      simp [System.step] at ht
    · simp only [System.step, update_of_ne hne] at ht
      obtain ⟨hrun, hqueued⟩ := h.resumed t ht
      exact ⟨(hspares.state t hne).trans hrun, hqueued.imp_left (hspares.ready t hne)⟩
  | setMembers process threads =>
    cases hexec
    exact ⟨h.held, h.resumed⟩

/-- Nothing has been stopped yet. -/
structure Initial (s : System) : Prop where
  held : ∀ t, s.held t = false
  resumed : ∀ t, s.resumed t = false

/-- Nobody is stopped at first. -/
theorem Stopped.of_initial (h : Initial s) : Stopped s where
  held t ht := by
    rw [h.held] at ht
    cases ht
  resumed t ht := by
    rw [h.resumed] at ht
    cases ht

/-- In every run in which no stopped thread is woken blindly and none takes a step of its own, a
stopped thread stays stopped until its process gets `SIGCONT` or `SIGKILL`, and after `SIGCONT` it
is ready until it runs. -/
theorem stops_hold {ops : List Op} (hinitial : Initial s) (hsafe : Lib.SafeRun exec Safe ops s)
    (hrun : Lib.runOps exec ops s = some s') : Stopped s' :=
  hsafe.invariant (fun _ _ _ => exec_stopped) (.of_initial hinitial) hrun

/-- The word that a thread waits at in the examples. -/
def word : FutexKey := .priv 1 4096

/-- Process 1 has the threads 1 and 2, which run, and the first is about to wait at a futex. -/
def siblings : System where
  manager :=
    { thread := fun _ => ⟨.running, 1, 0, false⟩
      threads := [1, 2]
      readyQueues := [[]]
      nextReadyCpu := 0
      zombies := []
      pendingThreadExits := []
      blockedQueues := ⟨fun _ => [], []⟩
      futexQueue := update (fun _ => none) word (some ⟨1, [⟨0, 1, 1⟩]⟩) }
  members := fun process => if process = 1 then [1, 2] else []
  popped := []
  held := fun _ => false
  resumed := fun _ => false

/-- Thread 2 acts on a stop of the process: it stops each of the threads. -/
def stopBoth : List Op := [.stop 1, .stop 2]

/-- The process is stopped while thread 1 waits for a child. The child exits, and then the process
goes on. -/
def stopAndGoOn : List Op :=
  [.block 1 (.wakeRequired .processExit none), .finish 1] ++ stopBoth ++ [.childExit 1, .sigcont 1]

/-- Both threads are resumed. -/
theorem stops_hold_once : ∃ s', Lib.runOps exec stopAndGoOn siblings = some s' ∧
    s'.resumed 1 = true ∧ s'.resumed 2 = true ∧ Stopped s' := by
  refine ⟨_, rfl, rfl, rfl, ?_⟩
  refine stops_hold ⟨fun _ => rfl, fun _ => rfl⟩ ?_
    (rfl : Lib.runOps exec stopAndGoOn siblings = some _)
  decide

/-- Thread 1 sleeps in a read, at a futex, or for the exec of its child, when the process is
stopped. The wake for what it waited for makes it ready, although its process is stopped. -/
theorem stopped_thread_wakes : Initial siblings ∧
    ∀ wait ∈ [(BlockType.wakeRequired .io none, Op.wake .wakeIo),
        (.futex none ⟨word, 0⟩, .wakeFutex word 1 none),
        (.wakeRequired .io none, .wake (.wakeThreadById 1))],
      ∃ s', Lib.runOps exec ([.block 1 wait.1, .finish 1] ++ stopBoth ++ [wait.2]) siblings =
        some s' ∧ s'.held 1 = true ∧ s'.manager.state 1 = .ready ∧
          s'.manager.state 2 = .blocked .stopped := by
  refine ⟨⟨fun _ => rfl, fun _ => rfl⟩, fun wait hwait => ?_⟩
  simp only [List.mem_cons, List.not_mem_nil, or_false] at hwait
  obtain rfl | rfl | rfl := hwait <;> exact ⟨_, rfl, rfl, rfl, rfl⟩

end Stops

end Seele.Scheduling
