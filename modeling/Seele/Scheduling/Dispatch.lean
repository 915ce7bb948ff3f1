import Seele.Scheduling.Wakes
import Seele.Lib.GuardedRun

/-!
# One CPU for a thread

Each CPU pops a ready thread and runs it, until the thread returns to the scheduler, which saves its
context, and `after_thread_yield` looks at the state it was left in. In the meantime others wake it,
stop it, mark it as exited, or tell it to exit because a sibling calls `execve`.

That no two CPUs run the same thread rests on one fact: the state of a thread is not `Ready` while a
CPU has it. But `finish_block_current` sets the state to `Blocked` before the thread has returned to
the scheduler, and a stop signal does so for threads on other CPUs. A wake then makes the thread
ready, and another CPU runs it from a context that has not been saved yet. In the same way
`exit_thread_list_except` takes a thread for stopped while its CPU still executes it
(`runs_twice_and_reported_stopped`). `one_cpu_each` says for all runs when neither happens.
-/

namespace Seele.Scheduling

open Futex (ThreadID)
open ThreadManager Function

namespace Dispatch

/-! ## CPUs -/

/-- Where a CPU is. -/
inductive CpuPlace where
  /-- In the loop of the scheduler. -/
  | scheduling
  /-- It has popped a thread. -/
  | popped (thread : ThreadID)
  /-- It executes a thread, in user mode or in the kernel. -/
  | executing (thread : ThreadID)
  /-- The context of the thread is saved, and `after_thread_yield` begins. -/
  | returned (thread : ThreadID)
  /-- `after_thread_yield` has seen that the thread does not exit. -/
  | lives (thread : ThreadID)
  /-- `after_thread_yield` has read the state again, and is about to act on it. -/
  | seen (thread : ThreadID) (state : State)
  /-- `after_thread_yield` is about to queue the thread. -/
  | queueing (thread : ThreadID)
  /-- `after_thread_yield` is about to mark the thread as exited. -/
  | reaping (thread : ThreadID)
  /-- `after_thread_yield` is about to put a thread away that has been marked before. -/
  | deferring (thread : ThreadID)
  deriving DecidableEq, Repr

/-- The thread that is on the CPU: dispatched, and not yet dealt with by `after_thread_yield`. -/
def CpuPlace.thread : CpuPlace → Option ThreadID
  | executing thread | returned thread | lives thread | seen thread _ => some thread
  | _ => none

/-- The CPUs and the manager. The threads that the last step has reported as stopped are recorded,
if it was a call of `exit_thread_list_except` that returned true. -/
structure System (cpus : ℕ) where
  manager : ThreadManager
  cpu : Fin cpus → CpuPlace
  reported : List ThreadID

/-- The steps. -/
inductive Op (cpus : ℕ) where
  | pop (cpu : Fin cpus) (allowSteal : Bool) (filter : ReadyThreadFilter)
  | dispatch (cpu : Fin cpus)
  | block (cpu : Fin cpus) (block : BlockType)
  | finish (cpu : Fin cpus)
  | cancelQueues (cpu : Fin cpus)
  | cancelState (cpu : Fin cpus)
  | returnToScheduler (cpu : Fin cpus)
  | look (cpu : Fin cpus)
  | lookAgain (cpu : Fin cpus)
  | settle (cpu : Fin cpus)
  | queue (cpu : Fin cpus)
  | reap (cpu : Fin cpus)
  | defer (cpu : Fin cpus)
  /-- A new thread is queued. -/
  | spawn (thread : ThreadID)
  | wake (thread : ThreadID)
  | stop (thread : ThreadID)
  | markExited (thread : ThreadID)
  | exitSiblings (threads : List ThreadID) (current : ThreadID)
  deriving DecidableEq, Repr

variable {cpus : ℕ}

/-- A CPU gets to another place, with what the manager has done. -/
def System.move (s : System cpus) (cpu : Fin cpus) (place : CpuPlace) (manager : ThreadManager) :
    System cpus :=
  { manager, cpu := update s.cpu cpu place, reported := [] }

/-- The manager has done something that is not about a CPU. -/
def System.withManager (s : System cpus) (manager : ThreadManager) : System cpus :=
  { s with manager, reported := [] }

/-- The arms of the `match` in `after_thread_yield`, up to the queueing. What they set, they set
whatever the state is by now. -/
def settle (s : System cpus) (cpu : Fin cpus) (thread : ThreadID) : State → System cpus
  | .running | .woken => s.move cpu (.queueing thread) (s.manager.setState thread .ready)
  | .ready => s.move cpu (.queueing thread) s.manager
  | .blocked _ | .zombie => s.move cpu .scheduling s.manager
  | .blocking block => s.move cpu .scheduling (s.manager.setState thread (.blocked block))
  | .exiting => s.move cpu (.reaping thread) s.manager

/-- One step. It has no result where the CPU is not at the place it starts from. -/
def exec (op : Op cpus) (s : System cpus) : Option (System cpus) :=
  match op with
  | .pop cpu allowSteal filter =>
    match s.cpu cpu with
    | .scheduling =>
      let popped := s.manager.popReadyForCpuInner cpu allowSteal filter
      some (s.move cpu (popped.1.elim .scheduling .popped) popped.2)
    | _ => none
  | .dispatch cpu =>
    match s.cpu cpu with
    | .popped thread =>
      let run := s.manager.runReadyThread thread
      some (s.move cpu (if run.1 then .executing thread else .scheduling) run.2)
    | _ => none
  | .block cpu block =>
    match s.cpu cpu with
    | .executing thread => some (s.withManager (s.manager.block thread block))
    | _ => none
  | .finish cpu =>
    match s.cpu cpu with
    | .executing thread => some (s.withManager (s.manager.finishBlockCurrent thread).2)
    | _ => none
  | .cancelQueues cpu =>
    match s.cpu cpu with
    | .executing thread => some (s.withManager (s.manager.removeFromBlockedQueues thread))
    | _ => none
  | .cancelState cpu =>
    match s.cpu cpu with
    | .executing thread => some (s.withManager (s.manager.cancelState thread))
    | _ => none
  | .returnToScheduler cpu =>
    match s.cpu cpu with
    | .executing thread => some (s.move cpu (.returned thread) s.manager)
    | _ => none
  | .look cpu =>
    match s.cpu cpu with
    | .returned thread =>
      match s.manager.state thread with
      | .exiting => some (s.move cpu (.reaping thread) s.manager)
      | .zombie => some (s.move cpu (.deferring thread) s.manager)
      | _ => some (s.move cpu (.lives thread) s.manager)
    | _ => none
  | .lookAgain cpu =>
    match s.cpu cpu with
    | .lives thread => some (s.move cpu (.seen thread (s.manager.state thread)) s.manager)
    | _ => none
  | .settle cpu =>
    match s.cpu cpu with
    | .seen thread state => some (settle s cpu thread state)
    | _ => none
  | .queue cpu =>
    match s.cpu cpu with
    | .queueing thread => some (s.move cpu .scheduling (s.manager.pushReadyBalanced thread))
    | _ => none
  | .reap cpu =>
    match s.cpu cpu with
    | .reaping thread => some (s.move cpu .scheduling (s.manager.markThreadExited thread))
    | _ => none
  | .defer cpu =>
    match s.cpu cpu with
    | .deferring thread =>
      some (s.move cpu .scheduling (s.manager.deferCurrentZombieThread thread))
    | _ => none
  | .spawn thread =>
    if s.manager.state thread = .ready then
      some (s.withManager (s.manager.pushReadyBalanced thread))
    else none
  | .wake thread => some (s.withManager (s.manager.wake thread))
  | .stop thread => some (s.withManager (s.manager.setState thread (.blocked .stopped)))
  | .markExited thread => some (s.withManager (s.manager.markThreadExited thread))
  | .exitSiblings threads current =>
    let exited := s.manager.exitThreadListExcept threads current
    some { s with
      manager := exited.2
      reported := if exited.1 then threads.filter (· != current) else [] }

/-- A blocked thread that is woken is on no CPU, and a sibling that a CPU executes is running or has
been told to exit. -/
def Safe (op : Op cpus) (s : System cpus) : Prop :=
  match op with
  | .wake thread =>
    (s.manager.state thread).isBlocked → ∀ cpu, (s.cpu cpu).thread ≠ some thread
  | .exitSiblings threads current => ∀ thread ∈ threads, thread ≠ current →
    ∀ cpu, s.cpu cpu = .executing thread →
      s.manager.state thread = .running ∨ s.manager.state thread = .exiting
  | _ => True

instance : ∀ (op : Op cpus) s, Decidable (Safe op s)
  | .wake thread, s => inferInstanceAs (Decidable
      ((s.manager.state thread).isBlocked → ∀ cpu, (s.cpu cpu).thread ≠ some thread))
  | .exitSiblings threads current, s => inferInstanceAs (Decidable
      (∀ thread ∈ threads, thread ≠ current → ∀ cpu, s.cpu cpu = .executing thread →
        s.manager.state thread = .running ∨ s.manager.state thread = .exiting))
  | .pop .., _ | .dispatch _, _ | .block .., _ | .finish _, _ | .cancelQueues _, _
  | .cancelState _, _ | .returnToScheduler _, _ | .look _, _ | .lookAgain _, _ | .settle _, _
  | .queue _, _ | .reap _, _ | .defer _, _ | .spawn _, _ | .stop _, _ | .markExited _, _ =>
    .isTrue trivial

/-! ## What makes a thread ready -/

/-- No thread has become ready. -/
def NoneReadied (manager manager' : ThreadManager) : Prop :=
  ∀ thread, manager'.state thread = .ready → manager.state thread = .ready

variable {manager manager' manager'' : ThreadManager} {thread : ThreadID}

/-- One change after another. -/
theorem NoneReadied.trans (h : NoneReadied manager manager') (h' : NoneReadied manager' manager'') :
    NoneReadied manager manager'' :=
  fun t ht => h t (h' t ht)

/-- Only this thread changes, and is not readied. -/
theorem NoneReadied.of_spares (h : Spares manager manager' thread)
    (hstate : manager'.state thread = .ready → manager.state thread = .ready) :
    NoneReadied manager manager' := by
  intro t ht
  grind [h.state]

/-- Only the ready queue changes. -/
theorem NoneReadied.of_sameButReady (h : SameButReady manager manager') :
    NoneReadied manager manager' := fun t ht => by
  rw [← h.state t]
  exact ht

variable (manager : ThreadManager)

/-- Finishing a block readies nobody. -/
theorem finishBlockCurrent_noneReadied :
    NoneReadied manager (manager.finishBlockCurrent thread).2 := by
  refine .of_spares (manager.finishBlockCurrent_spares thread) ?_
  unfold finishBlockCurrent
  split
  case h_4 hready => exact fun _ => hready
  case h_1 => simp
  case h_3 => simp
  all_goals exact id

/-- Cancelling readies nobody. -/
theorem cancelState_noneReadied : NoneReadied manager (manager.cancelState thread) := by
  refine .of_spares (manager.cancelState_spares thread) ?_
  unfold cancelState
  split
  case h_1 | h_2 => simp
  case h_3 => exact id

/-- An exit readies nobody. -/
theorem markThreadExited_noneReadied (thread : ThreadID) :
    NoneReadied manager (manager.markThreadExited thread) :=
  .of_spares (manager.markThreadExited_spares thread) (by simp)

/-! ## Siblings that are told to exit -/

/-- One sibling: the others are as before, and it is stopped only if it neither ran nor was about to
exit. -/
theorem exitSibling_spec (thread : ThreadID) :
    Spares manager (manager.exitSibling thread).2 thread ∧
      NoneReadied manager (manager.exitSibling thread).2 ∧
      ((manager.exitSibling thread).1 = true →
        manager.state thread ≠ .running ∧ manager.state thread ≠ .exiting) := by
  unfold exitSibling
  split
  case h_1 hstate =>
    refine ⟨.refl _ _, fun _ => id, fun _ => ?_⟩
    simp [hstate]
  case h_2 hstate =>
    have hspares := manager.setState_spares thread .exiting
    refine ⟨hspares, .of_spares hspares (by simp), ?_⟩
    rintro ⟨⟩
  case h_3 hstate =>
    refine ⟨.refl _ _, fun _ => id, ?_⟩
    rintro ⟨⟩
  all_goals
    rename_i hstate
    refine ⟨manager.markThreadExited_spares thread, markThreadExited_noneReadied manager thread,
      fun _ => ?_⟩
    simp [hstate]

/-- What is done to the siblings. -/
theorem exitList_spec (current : ThreadID) :
    ∀ (threads : List ThreadID) (exited : Bool × ThreadManager),
      NoneReadied exited.2 (threads.foldl (exitStep current) exited).2 ∧
        ((threads.foldl (exitStep current) exited).1 = true → exited.1 = true ∧
          ∀ t ∈ threads, t ≠ current → exited.2.state t ≠ .running ∧ exited.2.state t ≠ .exiting)
  | [], exited => ⟨fun _ => id, fun h => ⟨h, nofun⟩⟩
  | first :: threads, exited => by
    obtain ⟨hready, hstopped⟩ := exitList_spec current threads (exitStep current exited first)
    rw [List.foldl_cons]
    by_cases hcurrent : first = current
    · have hstep : exitStep current exited first = exited := if_pos hcurrent
      grind
    have hstep : exitStep current exited first =
        (exited.1 && (exited.2.exitSibling first).1, (exited.2.exitSibling first).2) :=
      if_neg hcurrent
    obtain ⟨hspares, hsibling, hfirst⟩ := exitSibling_spec exited.2 first
    rw [hstep] at hready hstopped ⊢
    refine ⟨hsibling.trans hready, fun htrue => ?_⟩
    obtain ⟨hboth, hrest⟩ := hstopped htrue
    obtain ⟨hbefore, hnow⟩ := Bool.and_eq_true_iff.mp hboth
    refine ⟨hbefore, fun t ht hne => ?_⟩
    by_cases hsame : t = first
    · rw [hsame]
      exact hfirst hnow
    · -- A later sibling still has the state it had before.
      grind [hspares.state]

/-- No sibling becomes ready, and if all are reported as stopped, none of them was running or about
to exit. -/
theorem exitThreadListExcept_spec (threads : List ThreadID) (current : ThreadID) :
    NoneReadied manager (manager.exitThreadListExcept threads current).2 ∧
      ((manager.exitThreadListExcept threads current).1 = true → ∀ t ∈ threads, t ≠ current →
        manager.state t ≠ .running ∧ manager.state t ≠ .exiting) := by
  obtain ⟨hready, hstopped⟩ := exitList_spec current threads (true, manager)
  exact ⟨hready, fun htrue => (hstopped htrue).2⟩

/-! ## The invariant -/

/-- No thread is on two CPUs, none that is on a CPU is ready, and the siblings that have just been
reported as stopped are not executed. -/
structure Exclusive (s : System cpus) : Prop where
  one : ∀ cpu cpu' thread, (s.cpu cpu).thread = some thread →
    (s.cpu cpu').thread = some thread → cpu = cpu'
  notReady : ∀ cpu thread, (s.cpu cpu).thread = some thread → s.manager.state thread ≠ .ready
  reported : ∀ thread ∈ s.reported, ∀ cpu, s.cpu cpu ≠ .executing thread

variable {s s' : System cpus} {cpu : Fin cpus} {place : CpuPlace} (h : Exclusive s)

include h

/-- No thread of a processor is readied. -/
theorem Exclusive.withManager
    (hready : ∀ c t, (s.cpu c).thread = some t → manager'.state t ≠ .ready) :
    Exclusive (s.withManager manager') where
  one := h.one
  notReady := hready
  reported _ ht := by cases ht

/-- A change that readies nobody. -/
theorem Exclusive.withManager_noneReadied
    (hready : NoneReadied s.manager manager') : Exclusive (s.withManager manager') :=
  h.withManager fun c t ht hnow => h.notReady c t ht (hready t hnow)

variable (hplace : ∀ t, place.thread = some t → (s.cpu cpu).thread = some t)

include hplace

/-- A processor moves on. -/
theorem Exclusive.move (hready : ∀ c t, ((update s.cpu cpu place) c).thread = some t →
      manager'.state t ≠ .ready) : Exclusive (s.move cpu place manager') := by
  have hbefore : ∀ c t, ((update s.cpu cpu place) c).thread = some t →
      (s.cpu c).thread = some t := by
    grind
  exact ⟨fun c c' t hc hc' => h.one c c' t (hbefore c t hc) (hbefore c' t hc'), hready, nofun⟩

/-- A processor moves on, and nobody is readied. -/
theorem Exclusive.move_noneReadied
    (hready : NoneReadied s.manager manager') : Exclusive (s.move cpu place manager') := by
  refine h.move hplace fun c t ht hnow => ?_
  by_cases hne : c = cpu
  · subst hne
    rw [update_self] at ht
    exact h.notReady c t (hplace t ht) (hready t hnow)
  · rw [update_of_ne hne] at ht
    exact h.notReady c t ht (hready t hnow)

omit hplace

/-- A ready thread is dispatched. -/
theorem Exclusive.dispatch (hready : s.manager.state thread = .ready) :
    Exclusive (s.move cpu (.executing thread) (s.manager.setState thread .running)) := by
  have hfree : ∀ c, (s.cpu c).thread ≠ some thread := fun c hc => h.notReady c thread hc hready
  refine ⟨fun c c' t hc hc' => ?_, fun c t hc => ?_, nofun⟩
  · simp only [System.move, update_apply] at hc hc'
    split at hc <;> split at hc'
    case isTrue.isTrue hcpu hcpu' => exact hcpu.trans hcpu'.symm
    case isTrue.isFalse =>
      cases hc
      exact absurd hc' (hfree c')
    case isFalse.isTrue =>
      cases hc'
      exact absurd hc (hfree c)
    case isFalse.isFalse => exact h.one c c' t hc hc'
  simp only [System.move] at hc ⊢
  by_cases ht : t = thread
  · rw [ht, state_setState_self]
    rintro ⟨⟩
  rw [state_setState_of_ne ht]
  rw [update_apply] at hc
  split at hc
  case isTrue => exact absurd (Option.some.inj hc).symm ht
  case isFalse => exact h.notReady c t hc

/-- A processor lets its thread go. -/
theorem Exclusive.release (hplace : (s.cpu cpu).thread = some thread)
    (hnone : place.thread = none) (state : State) :
    Exclusive (s.move cpu place (s.manager.setState thread state)) := by
  refine h.move (fun t ht => by rw [hnone] at ht; cases ht) fun c t ht => ?_
  by_cases hne : c = cpu
  · grind
  · rw [update_of_ne hne] at ht
    -- The thread of another CPU is another thread.
    grind [h.one, state_setState_of_ne, h.notReady]

/-- The thread is put away as it was seen. -/
theorem settle_exclusive {state : State} (hplace : s.cpu cpu = .seen thread state) :
    Exclusive (settle s cpu thread state) := by
  have hthread : (s.cpu cpu).thread = some thread := by
    rw [hplace]
    rfl
  have hnone : ∀ {place : CpuPlace}, place.thread = none →
      ∀ t, place.thread = some t → (s.cpu cpu).thread = some t := fun hplace t ht => by
    rw [hplace] at ht
    cases ht
  unfold settle
  split
  case h_1 | h_2 | h_6 => exact h.release hthread rfl _
  all_goals exact h.move_noneReadied (hnone rfl) fun _ => id

omit h

/-- Every safe step keeps threads on one processor. -/
theorem exec_exclusive {op : Op cpus} (hsafe : Safe op s) (hexec : exec op s = some s')
    (h : Exclusive s) : Exclusive s' := by
  -- A step at a place is split into the one that starts from it and those that are not steps.
  cases op <;> simp only [exec] at hexec <;> try cases hexec
  case pop cpu allowSteal filter =>
    split at hexec <;> cases hexec
    have hsame := (popReadyForCpuInner_spec s.manager cpu allowSteal filter).1
    refine h.move_noneReadied (fun t ht => ?_) (.of_sameButReady hsame)
    -- What has been popped is not on the CPU yet.
    cases hpop : (s.manager.popReadyForCpuInner cpu allowSteal filter).1 <;>
      simp [hpop, CpuPlace.thread] at ht
  case dispatch cpu =>
    split at hexec <;> cases hexec
    next thread hplace =>
    by_cases hready : s.manager.state thread = .ready
    · simp only [runReadyThread, hready]
      exact h.dispatch hready
    · simp only [runReadyThread, hready]
      exact h.move_noneReadied nofun fun _ => id
  case block cpu block =>
    split at hexec <;> cases hexec
    exact h.withManager_noneReadied (.of_spares (block_spares _ _ block) (by simp))
  case finish cpu =>
    split at hexec <;> cases hexec
    exact h.withManager_noneReadied (finishBlockCurrent_noneReadied _)
  case cancelQueues cpu =>
    split at hexec <;> cases hexec
    exact h.withManager_noneReadied fun _ => id
  case cancelState cpu =>
    split at hexec <;> cases hexec
    exact h.withManager_noneReadied (cancelState_noneReadied _)
  case returnToScheduler cpu | lookAgain cpu =>
    split at hexec <;> cases hexec
    next thread hplace =>
    exact h.move_noneReadied (fun t ht => by rw [hplace]; exact ht) fun _ => id
  case look cpu =>
    split at hexec <;> try cases hexec
    next thread hplace =>
    split at hexec <;> cases hexec
    case h_3 => exact h.move_noneReadied (fun t ht => by rw [hplace]; exact ht) fun _ => id
    all_goals exact h.move_noneReadied nofun fun _ => id
  case settle cpu =>
    grind [settle_exclusive]
  case queue cpu =>
    split at hexec <;> cases hexec
    exact h.move_noneReadied nofun (.of_sameButReady (pushReadyBalanced_spec _ _).1)
  case reap cpu =>
    split at hexec <;> cases hexec
    exact h.move_noneReadied nofun (markThreadExited_noneReadied _ _)
  case defer cpu =>
    split at hexec <;> cases hexec
    exact h.move_noneReadied nofun fun _ => id
  case spawn thread =>
    split at hexec <;> cases hexec
    exact h.withManager_noneReadied (.of_sameButReady (pushReadyBalanced_spec _ thread).1)
  case wake thread =>
    have hwoke := s.manager.wake_woke thread
    refine h.withManager fun c t ht hnow => ?_
    by_cases hmem : t ∈ [thread]
    · obtain rfl := List.mem_singleton.mp hmem
      rw [hwoke.state_of_mem hmem] at hnow
      cases hstate : s.manager.state t with
      | blocked block => exact hsafe (by rw [hstate]; rfl) c ht
      | ready => exact h.notReady c t ht hstate
      | _ => simp [hstate, State.wake] at hnow
    · grind [hwoke.state_of_not_mem, h.notReady]
  case stop thread =>
    exact h.withManager_noneReadied (.of_spares (setState_spares _ thread _) (by simp))
  case markExited thread => exact h.withManager_noneReadied (markThreadExited_noneReadied _ thread)
  case exitSiblings threads current =>
    obtain ⟨hready, hstopped⟩ := exitThreadListExcept_spec s.manager threads current
    refine ⟨h.one, fun c t ht hnow => h.notReady c t ht (hready t hnow), fun t ht c hc => ?_⟩
    split at ht
    case isFalse => cases ht
    case isTrue htrue =>
      obtain ⟨hmem, hne⟩ : t ∈ threads ∧ t ≠ current := by simpa using ht
      obtain ⟨hrunning, hexiting⟩ := hstopped htrue t hmem hne
      exact (hsafe t hmem hne c hc).elim hrunning hexiting

/-! ## Whole runs -/

/-- All CPUs are in the scheduler. -/
structure Initial (s : System cpus) : Prop where
  cpu : ∀ cpu, s.cpu cpu = .scheduling
  reported : s.reported = []

/-- No processor has a thread at first. -/
theorem Exclusive.of_initial (h : Initial s) : Exclusive s where
  one cpu _ thread ht _ := by
    rw [h.cpu] at ht
    cases ht
  notReady cpu thread ht := by
    rw [h.cpu] at ht
    cases ht
  reported thread ht := by
    rw [h.reported] at ht
    cases ht

/-- No thread is on two CPUs, and siblings that are reported as stopped are executed by none. -/
structure OneCpuEach (s : System cpus) : Prop where
  one : ∀ cpu cpu' thread, (s.cpu cpu).thread = some thread →
    (s.cpu cpu').thread = some thread → cpu = cpu'
  reported : ∀ thread ∈ s.reported, ∀ cpu, s.cpu cpu ≠ .executing thread

/-- No thread is on two CPUs, and no CPU executes siblings that have been reported as stopped: with
any number of CPUs, in every run in which a blocked thread is woken only when it is on no CPU, and
siblings that are told to exit run or are about to exit while a CPU executes them. -/
theorem one_cpu_each {ops : List (Op cpus)} (hinitial : Initial s)
    (hsafe : Lib.SafeRun exec Safe ops s) (hrun : Lib.runOps exec ops s = some s') :
    OneCpuEach s' := by
  have h := hsafe.invariant (fun _ _ _ => exec_exclusive) (.of_initial hinitial) hrun
  exact ⟨h.one, h.reported⟩

/-- Two CPUs, and thread 1 is ready. -/
def oneReady : System 2 where
  manager :=
    { thread := fun _ => ⟨.ready, 1, 0, false⟩
      threads := [1]
      readyQueues := [[1], []]
      nextReadyCpu := 1
      zombies := []
      pendingThreadExits := []
      blockedQueues := ⟨fun _ => [], []⟩
      futexQueue := fun _ => none }
  cpu := fun _ => .scheduling
  reported := []

/-- The first CPU runs the thread, until it is about to sleep. -/
def runAndBlock : List (Op 2) :=
  [.pop 0 true .any, .dispatch 0, .block 0 (.wakeRequired .io none)]

/-- The thread goes to sleep, its CPU is done with it, and then it is woken and the second CPU runs
it. -/
theorem one_cpu_each_asleep : ∃ s', Lib.runOps exec
      (runAndBlock ++ [.finish 0, .returnToScheduler 0, .look 0, .lookAgain 0, .settle 0, .wake 1,
        .pop 1 true .any, .dispatch 1]) oneReady = some s' ∧
      s'.cpu 1 = .executing 1 ∧ OneCpuEach s' := by
  refine ⟨_, rfl, rfl, ?_⟩
  refine one_cpu_each ⟨fun _ => rfl, rfl⟩ ?_ (rfl : Lib.runOps exec
      (runAndBlock ++ [.finish 0, .returnToScheduler 0, .look 0, .lookAgain 0, .settle 0, .wake 1,
        .pop 1 true .any, .dispatch 1]) oneReady = some _)
  decide

/-- The thread is woken after `finish_block_current` has set its state, but before it has returned
to the scheduler: both CPUs execute it. And a sibling that calls `execve` is told that it is
stopped, while a CPU executes it. -/
theorem runs_twice_and_reported_stopped : Initial oneReady ∧
    (∃ s', Lib.runOps exec (runAndBlock ++ [.finish 0, .wake 1, .pop 1 true .any, .dispatch 1])
        oneReady = some s' ∧ s'.cpu 0 = .executing 1 ∧ s'.cpu 1 = .executing 1) ∧
      ∃ s', Lib.runOps exec (runAndBlock ++ [.exitSiblings [1, 2] 2]) oneReady = some s' ∧
        s'.reported = [1] ∧ s'.cpu 0 = .executing 1 :=
  ⟨⟨fun _ => rfl, rfl⟩, ⟨_, rfl, rfl, rfl⟩, ⟨_, rfl, rfl, rfl⟩⟩

end Dispatch

end Seele.Scheduling
