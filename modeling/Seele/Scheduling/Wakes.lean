import Seele.Scheduling.Manager
import Mathlib.Data.List.Basic

/-!
# What the functions of the thread manager do to the threads

The lemmas of this module say which threads a function of the thread manager touches, and how. For
the functions that wake threads that is one relation, `Woke`: the states of the threads in a list
take the step of `State.wake`, the threads leave the queues of blocked threads, and those that were
asleep are ready and queued. The relation composes, so it holds of a list of calls of `wake` as soon
as it holds of one, and it is all that is known about the functions in the proofs that follow.
-/

namespace Seele.Scheduling

open List Function State

open Futex (ThreadID FutexKey FutexWaitId FutexQueue removeFutexWaiter takeFutexWaiters)
open Signalling (Signal Signals)

/-- A second wake changes nothing. -/
@[simp] theorem State.wake_wake (state : State) : state.wake.wake = state.wake := by
  cases state <;> rfl

/-- A thread that is woken is not blocked. -/
@[simp] theorem State.isBlocked_wake (state : State) : state.wake.isBlocked = false := by
  cases state <;> rfl

/-- A thread that waits for nothing is not woken. -/
theorem State.wake_of_block {state : State} (h : state.block = none) : state.wake = state := by
  cases state <;> simp_all [block, wake]

namespace ThreadManager

variable {manager manager' manager'' : ThreadManager} {thread other : ThreadID}

/-! ## Changes to one thread -/

/-- The thread whose state is set. -/
@[simp] theorem thread_setState_self (manager : ThreadManager) (thread : ThreadID) (state : State) :
    (manager.setState thread state).thread thread = { manager.thread thread with state } :=
  update_self ..

/-- The other threads stay as they are. -/
theorem thread_setState_of_ne (h : other ≠ thread) (state : State) :
    (manager.setState thread state).thread other = manager.thread other :=
  update_of_ne h ..

/-- The state that has been set. -/
@[simp] theorem state_setState_self (manager : ThreadManager) (thread : ThreadID) (state : State) :
    (manager.setState thread state).state thread = state := by
  simp [ThreadManager.state]

/-- The states of the others stay. -/
theorem state_setState_of_ne (h : other ≠ thread) {state : State} :
    (manager.setState thread state).state other = manager.state other := by
  simp [ThreadManager.state, thread_setState_of_ne h]

/-! ## Ready threads -/

/-- A thread is in one of the queues of ready threads. -/
def ReadyQueued (manager : ThreadManager) (thread : ThreadID) : Prop :=
  ∃ queue ∈ manager.readyQueues, thread ∈ queue

/-- The test finds what is queued. -/
theorem isReadyQueued_iff : manager.isReadyQueued thread ↔ manager.ReadyQueued thread := by
  simp [isReadyQueued, ReadyQueued]

instance : Decidable (manager.ReadyQueued thread) := decidable_of_iff _ isReadyQueued_iff

/-- Two managers differ at most in the queues of ready threads. -/
structure SameButReady (manager manager' : ThreadManager) : Prop where
  thread : manager'.thread = manager.thread
  threads : manager'.threads = manager.threads
  zombies : manager'.zombies = manager.zombies
  pendingThreadExits : manager'.pendingThreadExits = manager.pendingThreadExits
  blockedQueues : manager'.blockedQueues = manager.blockedQueues
  futexQueue : manager'.futexQueue = manager.futexQueue

/-- Nothing has changed. -/
theorem SameButReady.refl (manager : ThreadManager) : SameButReady manager manager :=
  ⟨rfl, rfl, rfl, rfl, rfl, rfl⟩

variable (h : SameButReady manager manager')

include h

/-- Two such changes in a row. -/
theorem SameButReady.trans (h' : SameButReady manager' manager'') :
    SameButReady manager manager'' where
  thread := h'.thread.trans h.thread
  threads := h'.threads.trans h.threads
  zombies := h'.zombies.trans h.zombies
  pendingThreadExits := h'.pendingThreadExits.trans h.pendingThreadExits
  blockedQueues := h'.blockedQueues.trans h.blockedQueues
  futexQueue := h'.futexQueue.trans h.futexQueue

/-- The states are the same. -/
theorem SameButReady.state (thread : ThreadID) : manager'.state thread = manager.state thread := by
  simp only [ThreadManager.state, h.thread]

/-- The queues of waiting threads are the same. -/
theorem SameButReady.waiting (queue : Queue) : manager'.waiting queue = manager.waiting queue := by
  simp only [ThreadManager.waiting, h.blockedQueues]

/-- The deadlines are the same. -/
theorem SameButReady.timed : manager'.timed = manager.timed := by
  simp only [ThreadManager.timed, h.blockedQueues]

omit h

/-- A first ready queue is made, and it is empty. -/
theorem withReadyQueue_spec :
    SameButReady manager manager.withReadyQueue ∧ manager.withReadyQueue.readyQueues ≠ [] ∧
      ∀ thread, manager.withReadyQueue.ReadyQueued thread ↔ manager.ReadyQueued thread := by
  unfold withReadyQueue
  split
  case isTrue hempty =>
    have hnil : manager.readyQueues = [] := isEmpty_iff.mp hempty
    refine ⟨?_, ?_, fun thread => ?_⟩
    · simp only [resizeReadyQueues, hnil]
      exact ⟨rfl, rfl, rfl, rfl, rfl, rfl⟩
    · simp [resizeReadyQueues, hnil]
    · simp [resizeReadyQueues, ReadyQueued, hnil]
  case isFalse hempty =>
    exact ⟨.refl manager, fun hnil => hempty (by simp [hnil]), fun _ => .rfl⟩

/-- What is in the queues after a push on one. -/
theorem mem_modify_append (thread other : ThreadID) {queues : List (List ThreadID)} {index : ℕ}
    (h : index < queues.length) : (∃ queue ∈ queues.modify index (· ++ [thread]), other ∈ queue) ↔
      (∃ queue ∈ queues, other ∈ queue) ∨ other = thread := by
  induction queues generalizing index with
  | nil => simp at h
  | cons queue queues ih =>
  cases index with
  | zero =>
    simp only [modify_zero_cons, mem_cons, exists_eq_or_imp, mem_append, not_mem_nil, or_false]
    exact or_right_comm
  | succ index =>
    have hrest := @ih index (by simpa using h)
    grind

/-- A push on a CPU queues one thread more. -/
theorem pushReadyOnCpu_spec (manager : ThreadManager) (thread : ThreadID) (cpu : ℕ) :
    SameButReady manager (manager.pushReadyOnCpu thread cpu) ∧
      ∀ other, (manager.pushReadyOnCpu thread cpu).ReadyQueued other ↔
        manager.ReadyQueued other ∨ other = thread := by
  obtain ⟨hsame, hne, hqueued⟩ := manager.withReadyQueue_spec
  simp only [pushReadyOnCpu]
  split
  case isTrue hthere =>
    grind [isReadyQueued_iff.mp]
  case isFalse =>
    refine ⟨⟨hsame.1, hsame.2, hsame.3, hsame.4, hsame.5, hsame.6⟩, fun other => ?_⟩
    have hlength : 0 < manager.withReadyQueue.readyQueues.length := length_pos_iff.mpr hne
    have hindex : min cpu (manager.withReadyQueue.readyQueues.length - 1) <
        manager.withReadyQueue.readyQueues.length := by omega
    have hmem := mem_modify_append thread other hindex
    exact hmem.trans (or_congr (hqueued other) Iff.rfl)

/-- A push that picks the CPU queues one thread more. -/
theorem pushReadyBalanced_spec (manager : ThreadManager) (thread : ThreadID) :
    SameButReady manager (manager.pushReadyBalanced thread) ∧
      ∀ other, (manager.pushReadyBalanced thread).ReadyQueued other ↔
        manager.ReadyQueued other ∨ other = thread := by
  obtain ⟨hsame, -, hqueued⟩ := manager.withReadyQueue_spec
  simp only [pushReadyBalanced]
  have hpush := pushReadyOnCpu_spec { manager.withReadyQueue with
      nextReadyCpu := (manager.withReadyQueue.nextReadyCpu %
        manager.withReadyQueue.readyQueues.length + 1) %
          manager.withReadyQueue.readyQueues.length } thread
    (manager.withReadyQueue.nextReadyCpu % manager.withReadyQueue.readyQueues.length)
  refine ⟨hsame.trans ⟨hpush.1.1, hpush.1.2, hpush.1.3, hpush.1.4, hpush.1.5, hpush.1.6⟩, ?_⟩
  intro other
  exact (hpush.2 other).trans (or_congr (hqueued other) Iff.rfl)

/-- One thread leaves the ready queues. -/
theorem removeReadyThread_spec (thread : ThreadID) :
    SameButReady manager (manager.removeReadyThread thread).2 ∧
      (∀ other, (manager.removeReadyThread thread).2.ReadyQueued other ↔
        manager.ReadyQueued other ∧ other ≠ thread) ∧
      ((manager.removeReadyThread thread).1 = true ↔ manager.ReadyQueued thread) := by
  refine ⟨⟨rfl, rfl, rfl, rfl, rfl, rfl⟩, fun other => ?_, ?_⟩
  · simp only [removeReadyThread, ReadyQueued, mem_map]
    grind
  · simp [removeReadyThread, ReadyQueued]

variable {filter : ReadyThreadFilter}

/-- What is popped is ready. -/
theorem popReadyFromQueueMatching_ready {state : ThreadID → Thread} :
    ∀ {rounds : ℕ} {queue : List ThreadID},
      (popReadyFromQueueMatching state filter rounds queue).1 = some thread →
        (state thread).state = .ready
  | 0, _, h => by simp [popReadyFromQueueMatching] at h
  | _ + 1, [], h => by simp [popReadyFromQueueMatching] at h
  | rounds + 1, first :: queue, h => by
    unfold popReadyFromQueueMatching at h
    split at h
    case isTrue hready =>
      split at h
      case isTrue =>
        cases h
        exact hready
      case isFalse => exact popReadyFromQueueMatching_ready h
    case isFalse => exact popReadyFromQueueMatching_ready h

/-- A pop over several queues takes a ready thread only. -/
theorem popReadyAmong_spec (filter : ReadyThreadFilter) :
    ∀ (manager : ThreadManager) (indices : List ℕ),
      SameButReady manager (manager.popReadyAmong filter indices).2 ∧
        ∀ thread, (manager.popReadyAmong filter indices).1 = some thread →
          manager.state thread = .ready
  | manager, [] => ⟨.refl manager, fun _ h => by simp [popReadyAmong] at h⟩
  | manager, index :: rest => by
    have hat : SameButReady manager (manager.popReadyAt filter index).2 :=
      ⟨rfl, rfl, rfl, rfl, rfl, rfl⟩
    unfold popReadyAmong
    split
    case h_1 thread manager' hpop =>
      rw [hpop] at hat
      refine ⟨hat, fun other h => ?_⟩
      cases h
      exact popReadyFromQueueMatching_ready (congrArg Prod.fst hpop)
    case h_2 manager' hpop =>
      obtain ⟨hsame, hready⟩ := popReadyAmong_spec filter manager' rest
      grind [hat.trans, hat.state]

/-- The pop for a CPU takes a ready thread only. -/
theorem popReadyForCpuInner_spec (manager : ThreadManager) (cpu : ℕ) (allowSteal : Bool)
    (filter : ReadyThreadFilter) :
    SameButReady manager (manager.popReadyForCpuInner cpu allowSteal filter).2 ∧
      ∀ thread, (manager.popReadyForCpuInner cpu allowSteal filter).1 = some thread →
        manager.state thread = .ready := by
  have hqueue := manager.withReadyQueue_spec.1
  obtain ⟨hsame, hready⟩ := popReadyAmong_spec filter manager.withReadyQueue _
  refine ⟨hqueue.trans hsame, fun thread h => ?_⟩
  rw [← hqueue.state thread]
  exact hready thread h

/-- A ready thread is popped or stays in its queue. -/
theorem popReadyFromQueueMatching_keeps {state : ThreadID → Thread}
    (hready : (state thread).state = .ready) :
    ∀ {rounds : ℕ} {queue : List ThreadID}, thread ∈ queue →
      (popReadyFromQueueMatching state filter rounds queue).1 = some thread ∨
        thread ∈ (popReadyFromQueueMatching state filter rounds queue).2
  | 0, _, h => .inr h
  | _ + 1, [], h => .inr h
  | rounds + 1, first :: queue, h => by
    unfold popReadyFromQueueMatching
    split
    case isTrue =>
      split
      case isTrue =>
        grind
      case isFalse =>
        apply popReadyFromQueueMatching_keeps hready
        grind
    case isFalse hfirst =>
      apply popReadyFromQueueMatching_keeps hready
      grind

/-- A pop from one queue loses no ready thread. -/
theorem popReadyAt_keeps (filter : ReadyThreadFilter) (index : ℕ)
    (hready : manager.state thread = .ready) (h : manager.ReadyQueued thread) :
    (manager.popReadyAt filter index).1 = some thread ∨
      (manager.popReadyAt filter index).2.ReadyQueued thread := by
  obtain ⟨queue, hqueue, hthread⟩ := h
  obtain ⟨place, hplace, rfl⟩ := mem_iff_getElem.mp hqueue
  by_cases hindex : place = index
  · subst hindex
    have hget : manager.readyQueues.getD place [] = manager.readyQueues[place] := by simp [hplace]
    have hmem : thread ∈ manager.readyQueues.getD place [] := by
      rw [hget]
      exact hthread
    refine (popReadyFromQueueMatching_keeps hready hmem).imp_right fun hmem => ⟨_, ?_, hmem⟩
    exact mem_set (by simpa using hplace) _
  · refine .inr ⟨manager.readyQueues[place], ?_, hthread⟩
    refine mem_iff_getElem.mpr ⟨place, by simpa [popReadyAt] using hplace, ?_⟩
    exact getElem_set_ne (.symm hindex) _

/-- A pop over several queues loses none. -/
theorem popReadyAmong_keeps :
    ∀ (manager : ThreadManager) (indices : List ℕ), manager.state thread = .ready →
      manager.ReadyQueued thread → (manager.popReadyAmong filter indices).1 = some thread ∨
        (manager.popReadyAmong filter indices).2.ReadyQueued thread
  | _, [], _, h => .inr h
  | manager, index :: rest, hready, h => by
    have hat := popReadyAt_keeps filter index hready h
    unfold popReadyAmong
    split
    case h_1 popped manager' hpop =>
      rw [hpop] at hat
      exact hat
    case h_2 manager' hpop =>
      rw [hpop] at hat
      have hmanager : (manager.popReadyAt filter index).2 = manager' := congrArg Prod.snd hpop
      have hsame : manager'.state thread = manager.state thread := by
        rw [← hmanager]
        rfl
      refine popReadyAmong_keeps manager' rest (hsame.trans hready) (hat.resolve_left ?_)
      rintro ⟨⟩

/-- The pop for a CPU loses none. -/
theorem popReadyForCpuInner_keeps (cpu : ℕ) (allowSteal : Bool) (filter : ReadyThreadFilter)
    (hready : manager.state thread = .ready) (h : manager.ReadyQueued thread) :
    (manager.popReadyForCpuInner cpu allowSteal filter).1 = some thread ∨
      (manager.popReadyForCpuInner cpu allowSteal filter).2.ReadyQueued thread := by
  obtain ⟨hsame, -, hqueued⟩ := manager.withReadyQueue_spec
  exact popReadyAmong_keeps _ _ ((hsame.state thread).trans hready) ((hqueued thread).mpr h)

/-! ## Waking -/

/-- The threads stay as they are. -/
@[simp] theorem thread_removeFromBlockedQueues (manager : ThreadManager) (thread : ThreadID) :
    (manager.removeFromBlockedQueues thread).thread = manager.thread := rfl

/-- Their states stay. -/
@[simp] theorem state_removeFromBlockedQueues (manager : ThreadManager) (thread other : ThreadID) :
    (manager.removeFromBlockedQueues thread).state other = manager.state other := rfl

variable {queue : Queue}

/-- One thread leaves each queue. -/
theorem mem_waiting_removeFromBlockedQueues :
    other ∈ (manager.removeFromBlockedQueues thread).waiting queue ↔
      other ∈ manager.waiting queue ∧ other ≠ thread := by
  simp [removeFromBlockedQueues, waiting]

/-- The deadlines of the others stay. -/
theorem mem_timed_removeFromBlockedQueues {entry : ℕ × ThreadID} (h : entry ∈ manager.timed)
    (hne : entry.2 ≠ thread) : entry ∈ (manager.removeFromBlockedQueues thread).timed := by
  simp only [removeFromBlockedQueues]
  split
  case h_1 key hkey =>
    have hthread : key.2 = thread := by
      obtain ⟨block, -, hblock⟩ := Option.bind_eq_some_iff.mp hkey
      obtain ⟨deadline, -, rfl⟩ := Option.map_eq_some_iff.mp hblock
      rfl
    refine mem_filter.mpr ⟨h, ?_⟩
    rw [bne_iff_ne]
    rintro rfl
    exact hne hthread
  case h_2 => exact h

/-- What becomes of the manager when the threads of a list are woken. -/
structure Woke (manager manager' : ThreadManager) (woken : List ThreadID) : Prop where
  thread : ∀ t, manager'.thread t =
    if t ∈ woken then { manager.thread t with state := (manager.state t).wake }
    else manager.thread t
  waiting : ∀ queue t, t ∈ manager'.waiting queue ↔ t ∈ manager.waiting queue ∧ t ∉ woken
  timed : ∀ entry ∈ manager.timed, entry.2 ∉ woken → entry ∈ manager'.timed
  ready : ∀ t, manager'.ReadyQueued t ↔
    manager.ReadyQueued t ∨ t ∈ woken ∧ (manager.state t).isBlocked
  threads : manager'.threads = manager.threads
  zombies : manager'.zombies = manager.zombies
  pendingThreadExits : manager'.pendingThreadExits = manager.pendingThreadExits

namespace Woke

variable {woken woken' : List ThreadID}

/-- The states after a wake of some threads. -/
theorem state (h : Woke manager manager' woken) (t : ThreadID) :
    manager'.state t = if t ∈ woken then (manager.state t).wake else manager.state t := by
  simp only [ThreadManager.state, h.thread t]
  split <;> rfl

variable {t : ThreadID}

/-- A woken thread. -/
theorem state_of_mem (h : Woke manager manager' woken) (ht : t ∈ woken) :
    manager'.state t = (manager.state t).wake := by
  rw [h.state t, if_pos ht]

/-- The others keep their state. -/
theorem state_of_not_mem (h : Woke manager manager' woken) (ht : t ∉ woken) :
    manager'.state t = manager.state t := by
  rw [h.state t, if_neg ht]

/-- Nobody is woken. -/
theorem nothing (manager : ThreadManager) : Woke manager manager [] where
  thread _ := by simp
  waiting _ _ := by simp
  timed _ h _ := h
  ready _ := by simp
  threads := rfl
  zombies := rfl
  pendingThreadExits := rfl

/-- Which threads are woken matters, not their order. -/
theorem congr (h : Woke manager manager' woken) (hmem : ∀ t, t ∈ woken ↔ t ∈ woken') :
    Woke manager manager' woken' where
  thread t := by simpa only [hmem] using h.thread t
  waiting queue t := by simpa only [hmem] using h.waiting queue t
  timed entry := by simpa only [hmem] using h.timed entry
  ready t := by simpa only [hmem] using h.ready t
  threads := h.threads
  zombies := h.zombies
  pendingThreadExits := h.pendingThreadExits

/-- Two wakes in a row. -/
theorem trans (h : Woke manager manager' woken) (h' : Woke manager' manager'' woken') :
    Woke manager manager'' (woken ++ woken') where
  thread t := by
    rw [h'.thread t, h.state t, h.thread t]
    by_cases ht : t ∈ woken <;> by_cases ht' : t ∈ woken' <;> simp [ht]
  waiting queue t := by
    rw [h'.waiting, h.waiting, mem_append]
    tauto
  timed entry hentry hnot := by
    rw [mem_append, not_or] at hnot
    exact h'.timed entry (h.timed entry hentry hnot.1) hnot.2
  ready t := by
    rw [h'.ready, h.ready, h.state t, mem_append]
    by_cases ht : t ∈ woken <;> simp [ht]
  threads := h'.threads.trans h.threads
  zombies := h'.zombies.trans h.zombies
  pendingThreadExits := h'.pendingThreadExits.trans h.pendingThreadExits

end Woke

/-- A thread is blocked, or about to be, and out of the queues: it gets the state that `wake` gives
it, and is queued as ready if it slept. -/
theorem wake_woke (manager : ThreadManager) (thread : ThreadID) :
    Woke manager (manager.wake thread) [thread] := by
  have hwaiting : ∀ queue t, t ∈ (manager.removeFromBlockedQueues thread).waiting queue ↔
      t ∈ manager.waiting queue ∧ t ∉ [thread] := fun queue t => by
    rw [mem_waiting_removeFromBlockedQueues, mem_singleton]
  have htimed : ∀ entry ∈ manager.timed, entry.2 ∉ [thread] →
      entry ∈ (manager.removeFromBlockedQueues thread).timed := fun entry hentry hnot =>
    mem_timed_removeFromBlockedQueues hentry (by simpa using hnot)
  have hthread : ∀ state, state = (manager.state thread).wake → ∀ t,
      ((manager.removeFromBlockedQueues thread).setState thread state).thread t =
        if t ∈ [thread] then { manager.thread t with state := (manager.state t).wake }
        else manager.thread t := fun state hstate t => by
    by_cases ht : t = thread
    · subst ht
      simp [hstate]
    · simp [ht, thread_setState_of_ne ht]
  unfold wake
  simp only [state_removeFromBlockedQueues]
  split
  case h_1 block hstate =>
    refine ⟨hthread _ (by rw [hstate]; rfl), hwaiting, htimed, fun t => ?_, rfl, rfl, rfl⟩
    -- A thread that is about to sleep is still on its CPU, and is not queued.
    refine ⟨.inl, ?_⟩
    rintro (h | ⟨h, hblocked⟩)
    · exact h
    · rw [mem_singleton.mp h, hstate] at hblocked
      cases hblocked
  case h_2 block hstate =>
    obtain ⟨hsame, hready⟩ := pushReadyBalanced_spec
      ((manager.removeFromBlockedQueues thread).setState thread .ready) thread
    refine ⟨fun t => ?_, fun queue t => ?_, fun entry hentry hnot => ?_, fun t => ?_, hsame.threads,
      hsame.zombies, hsame.pendingThreadExits⟩
    · rw [hsame.thread]
      exact hthread _ (by rw [hstate]; rfl) t
    · rw [hsame.waiting]
      exact hwaiting queue t
    · rw [hsame.timed]
      exact htimed entry hentry hnot
    rw [hready]
    refine or_congr Iff.rfl ⟨?_, fun h => mem_singleton.mp h.1⟩
    rintro rfl
    exact ⟨mem_singleton_self _, by rw [hstate]; rfl⟩
  case h_3 hblocking hblocked =>
    have hnone : (manager.state thread).block = none := by
      cases hstate : manager.state thread with
      | blocking block => exact absurd hstate (hblocking block)
      | blocked block => exact absurd hstate (hblocked block)
      | _ => rfl
    refine ⟨fun t => ?_, hwaiting, htimed, fun t => ?_, rfl, rfl, rfl⟩
    · split
      case isTrue ht =>
        obtain rfl := mem_singleton.mp ht
        rw [wake_of_block hnone]
        rfl
      case isFalse => rfl
    refine ⟨.inl, ?_⟩
    rintro (h | ⟨h, hasleep⟩)
    · exact h
    · grind [isBlocked]

/-- All threads of a list are woken. -/
theorem wakeAll_woke (threads : List ThreadID) (manager : ThreadManager) :
    Woke manager (manager.wakeAll threads) threads := by
  induction threads generalizing manager with
  | nil => exact .nothing manager
  | cons thread threads ih => exact (manager.wake_woke thread).trans (ih (manager.wake thread))

/-- Those that meet a condition are woken. -/
theorem wakeIf_woke (shouldWake : State → Bool) (threads : List ThreadID)
    (manager : ThreadManager) : Woke manager (manager.wakeIf threads shouldWake)
      (threads.filter fun thread => shouldWake (manager.state thread)) := by
  induction threads generalizing manager with
  | nil => exact .nothing manager
  | cons thread threads ih =>
  simp only [wakeIf, foldl_cons, filter_cons]
  split
  case isTrue hwake =>
    have hfirst := manager.wake_woke thread
    refine (hfirst.trans (ih (manager.wake thread))).congr fun t => ?_
    by_cases ht : t = thread
    · simp [ht]
    · have hstate : (manager.wake thread).state t = manager.state t :=
        hfirst.state_of_not_mem (by simpa using ht)
      simp [hstate]
  case isFalse => exact ih manager

/-- Woken threads may leave their queue first. -/
theorem Woke.of_setWaiting {kept woken : List ThreadID}
    (h : Woke (manager.setWaiting queue kept) manager' woken)
    (hkept : ∀ t, t ∈ kept → t ∈ manager.waiting queue)
    (hwoken : ∀ t, t ∈ manager.waiting queue → t ∉ woken → t ∈ kept) :
    Woke manager manager' woken where
  thread := h.thread
  waiting other t := by
    rw [h.waiting other t]
    by_cases hqueue : other = queue
    · subst hqueue
      simp only [setWaiting, ThreadManager.waiting, update_self]
      exact ⟨fun ⟨ht, hnot⟩ => ⟨hkept t ht, hnot⟩, fun ⟨ht, hnot⟩ => ⟨hwoken t ht hnot, hnot⟩⟩
    · simp only [setWaiting, ThreadManager.waiting, update_of_ne hqueue]
  timed := h.timed
  ready := h.ready
  threads := h.threads
  zombies := h.zombies
  pendingThreadExits := h.pendingThreadExits

/-- Those in a queue that meet a condition are woken. -/
theorem wakeRetain_woke {shouldWake : State → Bool} :
    Woke manager (manager.wakeRetain queue shouldWake)
      ((manager.waiting queue).filter fun thread => shouldWake (manager.state thread)) := by
  refine (wakeAll_woke _ _).of_setWaiting (fun t ht => (mem_filter.mp ht).1) ?_
  grind

/-- A wake takes the thread out of every queue. -/
theorem waiting_wake (queue : Queue) :
    (manager.wake thread).waiting queue = (manager.waiting queue).filter (· != thread) := by
  simp only [wake]
  split
  case h_1 => rfl
  case h_2 => exact (pushReadyBalanced_spec _ thread).1.waiting queue
  case h_3 => rfl

/-- With enough rounds a whole queue is woken. -/
theorem wakeQueueLoop_woke :
    ∀ (rounds : ℕ) (manager : ThreadManager), (manager.waiting queue).length ≤ rounds →
      Woke manager (wakeQueueLoop queue rounds manager) (manager.waiting queue)
  | 0, manager, h => by
    have hnil : manager.waiting queue = [] := length_eq_zero_iff.mp (by omega)
    rw [hnil]
    exact .nothing manager
  | rounds + 1, manager, h => by
    unfold wakeQueueLoop
    split
    case h_1 hnil =>
      rw [hnil]
      exact .nothing manager
    case h_2 first rest hcons =>
      have hrest : (manager.setWaiting queue rest).waiting queue = rest := by
        simp [setWaiting, waiting]
      have hwaiting : ((manager.setWaiting queue rest).wake first).waiting queue =
          rest.filter (· != first) := by rw [waiting_wake, hrest]
      have hlength : (((manager.setWaiting queue rest).wake first).waiting queue).length ≤
          rounds := by
        grind
      have hloop := wakeQueueLoop_woke rounds _ hlength
      rw [hwaiting] at hloop
      have hwoke := (wake_woke _ first).trans hloop
      -- Both lists have the same threads: one that is there twice is woken once.
      have hmem : ∀ t, t ∈ [first] ++ rest.filter (· != first) ↔ t ∈ first :: rest := fun t => by
        by_cases ht : t = first <;> simp [ht]
      rw [hcons]
      refine (hwoke.congr hmem).of_setWaiting (fun t ht => ?_) (fun t ht hnot => ?_)
      · rw [hcons]
        exact mem_cons_of_mem first ht
      · rw [hcons] at ht
        exact absurd ht hnot

variable (manager : ThreadManager)

/-- A whole queue is woken. -/
theorem wakeQueue_woke (queue : Queue) :
    Woke manager (manager.wakeQueue queue) (manager.waiting queue) :=
  wakeQueueLoop_woke _ manager (Nat.le_refl _)

/-- Threads whose deadline has passed are woken. -/
theorem processTimedOutThreads_woke (now : ℕ) :
    Woke (manager.dropDue now) (manager.processTimedOutThreads now)
      (((manager.timed.filter fun entry => entry.1 ≤ now).map Prod.snd).filter fun thread =>
        (manager.state thread).isTimedOut now) :=
  wakeAll_woke _ _

/-- The threads that a futex call takes out of the queue. -/
def futexWaiters (manager : ThreadManager) (key : FutexKey) (count : ℕ)
    (wakeMask : Option UInt32) : List ThreadID :=
  ((takeFutexWaiters manager.futexQueue key count wakeMask).map Prod.fst).getD []

/-- The futex waiters are woken. -/
theorem wakeFutex_woke (key : FutexKey) (count : ℕ) (wakeMask : Option UInt32) :
    Woke manager (manager.wakeFutex key count wakeMask)
      (manager.futexWaiters key count wakeMask) := by
  unfold wakeFutex futexWaiters
  split
  case h_1 threads queue htaken =>
    rw [htaken]
    have hwoke := wakeAll_woke threads { manager with futexQueue := queue }
    exact ⟨hwoke.thread, hwoke.waiting, hwoke.timed, hwoke.ready, hwoke.threads, hwoke.zombies,
      hwoke.pendingThreadExits⟩
  case h_2 hnone =>
    rw [hnone]
    exact .nothing manager

end ThreadManager

/-! ## The calls that wake -/

/-- The wake functions that choose their threads by what these wait for. -/
inductive WakeCall where
  | wakeProcessExitWaiters
  | wakeSignalWaiters (signal : Signal)
  | wakeAffectedPollers (pollers : List ℕ)
  | wakeReadyPollers (withEvents : List ℕ)
  | wakeThreadById (thread : ThreadID)
  | wakePty
  | wakeKeyboard
  | wakeMouse
  | wakeIo
  | processTimedOutThreads (now : ℕ)
  deriving DecidableEq, Repr

namespace WakeCall

open ThreadManager

variable (manager : ThreadManager)

/-- What the call does. -/
def run : WakeCall → ThreadManager
  | wakeProcessExitWaiters => manager.wakeProcessExitWaiters
  | wakeSignalWaiters signal => manager.wakeSignalWaiters signal
  | wakeAffectedPollers pollers => manager.wakeAffectedPollers pollers
  | wakeReadyPollers withEvents => manager.wakeReadyPollers withEvents
  | wakeThreadById thread => manager.wakeThreadById thread
  | wakePty => manager.wakePty
  | wakeKeyboard => manager.wakeKeyboard
  | wakeMouse => manager.wakeMouse
  | wakeIo => manager.wakeIo
  | processTimedOutThreads now => manager.processTimedOutThreads now

/-- The threads that the call wakes. -/
def woken : WakeCall → List ThreadID
  | wakeProcessExitWaiters =>
    (manager.waiting .processExit).filter fun t => (manager.state t).awaitsProcessExit
  | wakeSignalWaiters signal =>
    (manager.waiting .signalWait).filter fun t => (manager.state t).awaitsSignal signal
  | wakeAffectedPollers pollers | wakeReadyPollers pollers =>
    (manager.waiting .poller).filter fun t => (manager.state t).awaitsPoller pollers
  | wakeThreadById thread => if thread ∈ manager.threads then [thread] else []
  | wakePty => manager.waiting .pty
  | wakeKeyboard => manager.waiting .keyboard
  | wakeMouse => manager.waiting .mouse
  | wakeIo => manager.waiting .io
  | processTimedOutThreads now =>
    ((manager.timed.filter fun entry => entry.1 ≤ now).map Prod.snd).filter fun t =>
      (manager.state t).isTimedOut now

/-- The manager from which the threads are woken: the entries that are due have left `timed`. -/
def base : WakeCall → ThreadManager
  | processTimedOutThreads now => manager.dropDue now
  | _ => manager

variable (manager : ThreadManager)

variable (call : WakeCall)

/-- What each wake function does. -/
theorem run_woke :
    Woke (call.base manager) (call.run manager) (call.woken manager) := by
  cases call with
  | wakeProcessExitWaiters | wakeSignalWaiters signal
  | wakeAffectedPollers pollers => exact wakeRetain_woke
  | wakeReadyPollers withEvents => exact wakeAll_woke _ manager
  | wakeThreadById thread =>
    simp only [base, run, woken, ThreadManager.wakeThreadById]
    grind [wake_woke, Woke.nothing]
  | wakePty | wakeKeyboard | wakeMouse | wakeIo => exact wakeQueue_woke manager _
  | processTimedOutThreads now => exact processTimedOutThreads_woke manager now

/-- What is done before the wake leaves the states alone. -/
theorem state_base (thread : ThreadID) :
    (call.base manager).state thread = manager.state thread := by
  cases call <;> rfl

/-- What is done before the wake leaves the queues alone. -/
theorem waiting_base (queue : Queue) :
    (call.base manager).waiting queue = manager.waiting queue := by
  cases call <;> rfl

end WakeCall

namespace ThreadManager

variable {manager manager' manager'' : ThreadManager} {thread other : ThreadID}

/-! ## Functions that touch one thread -/

/-- The states of the other threads are as before, and none of them has left a queue. -/
structure Spares (manager manager' : ThreadManager) (thread : ThreadID) : Prop where
  state : ∀ other ≠ thread, manager'.state other = manager.state other
  waiting : ∀ other ≠ thread, ∀ queue,
    other ∈ manager.waiting queue → other ∈ manager'.waiting queue
  timed : ∀ entry ∈ manager.timed, entry.2 ≠ thread → entry ∈ manager'.timed
  ready : ∀ other ≠ thread, manager.ReadyQueued other → manager'.ReadyQueued other

namespace Spares

/-- Nothing has changed. -/
theorem refl (manager : ThreadManager) (thread : ThreadID) : Spares manager manager thread :=
  ⟨fun _ _ => rfl, fun _ _ _ h => h, fun _ h _ => h, fun _ _ h => h⟩

/-- Two steps that spare the other threads. -/
theorem trans (h : Spares manager manager' thread) (h' : Spares manager' manager'' thread) :
    Spares manager manager'' thread where
  state other hne := (h'.state other hne).trans (h.state other hne)
  waiting other hne queue hother := h'.waiting other hne queue (h.waiting other hne queue hother)
  timed entry hentry hne := h'.timed entry (h.timed entry hentry hne) hne
  ready other hne hother := h'.ready other hne (h.ready other hne hother)

/-- Only the ready queues have changed. -/
theorem of_sameButReady (h : SameButReady manager manager')
    (hready : ∀ other ≠ thread, manager.ReadyQueued other → manager'.ReadyQueued other) :
    Spares manager manager' thread where
  state other _ := h.state other
  waiting other _ queue hother := by rw [h.waiting]; exact hother
  timed entry hentry _ := by rw [h.timed]; exact hentry
  ready := hready

end Spares

/-- The thread is in the queues that its block calls for. -/
structure Enqueued (manager : ThreadManager) (thread : ThreadID) (block : BlockType) : Prop where
  waiting : ∀ wakeType deadline, block = .wakeRequired wakeType deadline →
    thread ∈ manager.waiting wakeType.queue
  timed : ∀ deadline, block.deadline = some deadline → (deadline, thread) ∈ manager.timed

/-- A waiting thread that is spared stays queued. -/
theorem Enqueued.spared {block : BlockType} (h : manager.Enqueued other block)
    (hspares : Spares manager manager' thread) (hne : other ≠ thread) :
    manager'.Enqueued other block where
  waiting wakeType deadline hblock :=
    hspares.waiting other hne _ (h.waiting wakeType deadline hblock)
  timed deadline hdeadline := hspares.timed _ (h.timed deadline hdeadline) hne

variable (manager) (thread)

/-- A state is set for one thread. -/
theorem setState_spares (state : State) :
    Spares manager (manager.setState thread state) thread where
  state _ hne := state_setState_of_ne hne
  waiting _ _ _ h := h
  timed _ h _ := h
  ready _ _ h := h

/-- One thread leaves the queues. -/
theorem removeFromBlockedQueues_spares :
    Spares manager (manager.removeFromBlockedQueues thread) thread where
  state _ _ := rfl
  waiting _ hne _ h := mem_waiting_removeFromBlockedQueues.mpr ⟨h, hne⟩
  timed _ h hne := mem_timed_removeFromBlockedQueues h hne
  ready _ _ h := h

/-- One thread is made ready. -/
theorem pushReadyBalanced_spares : Spares manager (manager.pushReadyBalanced thread) thread := by
  obtain ⟨hsame, hready⟩ := manager.pushReadyBalanced_spec thread
  exact .of_sameButReady hsame fun other _ h => (hready other).mpr (.inl h)

/-- One thread leaves the ready queues. -/
theorem removeReadyThread_spares : Spares manager (manager.removeReadyThread thread).2 thread := by
  obtain ⟨hsame, hready, -⟩ := manager.removeReadyThread_spec thread
  exact .of_sameButReady hsame fun other hne h => (hready other).mpr ⟨h, hne⟩

/-- A deadline is in the list once. -/
theorem mem_insertTimed {timed : List (ℕ × ThreadID)} {key entry : ℕ × ThreadID} :
    entry ∈ insertTimed timed key ↔ entry = key ∨ entry ∈ timed ∧ entry ≠ key := by
  have horder : ∀ a b a' b' : ℕ, ¬ (a = a' ∧ b = b') ↔
      (a < a' ∨ a = a' ∧ b < b') ∨ (a' < a ∨ a' = a ∧ b' < b) := by omega
  have hbefore : entry ≠ key ↔ timedBefore entry key ∨ timedBefore key entry := by
    rw [ne_eq, Prod.ext_iff]
    simp only [timedBefore, Bool.or_eq_true, Bool.and_eq_true, decide_eq_true_eq, beq_iff_eq]
    exact horder _ _ _ _
  simp only [insertTimed, mem_append, mem_cons, mem_filter]
  tauto

variable (blockType : BlockType)

/-- One thread blocks. -/
theorem block_spares : Spares manager (manager.block thread blockType) thread where
  state _ hne := state_setState_of_ne hne
  waiting other hne queue h := by
    simp only [block, waiting, BlockedQueues.push]
    split
    case h_1 wakeType deadline =>
      by_cases hqueue : queue = wakeType.queue
      · subst hqueue
        rw [update_self]
        exact mem_append_left _ h
      · rw [update_of_ne hqueue]
        exact h
    case h_2 => exact h
  timed entry h hne := by
    simp only [block, timed, BlockedQueues.push]
    split
    case h_1 deadline hdeadline =>
      refine mem_insertTimed.mpr (.inr ⟨h, ?_⟩)
      rintro rfl
      exact hne rfl
    case h_2 => exact h
  ready _ _ h := h

/-- Who blocks is in the queue of what it waits for. -/
theorem block_enqueued : (manager.block thread blockType).Enqueued thread blockType where
  waiting wakeType deadline h := by
    subst h
    simp [block, waiting, BlockedQueues.push]
  timed deadline h := by
    simp only [block, BlockedQueues.push, h]
    exact mem_insertTimed.mpr (.inl rfl)

/-- Its state says what it waits for. -/
@[simp] theorem state_block : (manager.block thread blockType).state thread = .blocking blockType :=
  state_setState_self manager thread _

/-- One thread goes back to the ready queues. -/
theorem requeue_spares : Spares manager (manager.requeue thread) thread :=
  (manager.setState_spares thread .ready).trans (pushReadyBalanced_spares _ thread)

/-- A requeued thread is ready. -/
@[simp] theorem state_requeue : (manager.requeue thread).state thread = .ready := by
  rw [requeue, (pushReadyBalanced_spec _ thread).1.state, state_setState_self]

/-- One thread takes its wait back. -/
theorem cancelState_spares : Spares manager (manager.cancelState thread) thread := by
  unfold cancelState
  split
  case h_1 | h_2 => exact manager.setState_spares thread .running
  case h_3 => exact .refl manager thread

/-- Who takes its wait back waits for nothing. -/
theorem block_state_cancelState : ((manager.cancelState thread).state thread).block = none := by
  unfold cancelState
  split
  case h_1 | h_2 => simp [State.block]
  case h_3 hblocking hblocked =>
    cases hstate : manager.state thread with
    | blocking block => exact absurd hstate (hblocking block)
    | blocked block => exact absurd hstate (hblocked block)
    | _ => rfl

/-- One thread finishes its block. -/
theorem finishBlockCurrent_spares :
    Spares manager (manager.finishBlockCurrent thread).2 thread := by
  unfold finishBlockCurrent
  split
  case h_4 =>
    have hremove := manager.removeReadyThread_spares thread
    grind [hremove.trans, setState_spares]
  all_goals first | exact .refl manager thread | exact manager.setState_spares thread _

/-- A thread that was about to sleep sleeps now, in the same queues. Any other thread that is not
asleep stays awake. -/
theorem finishBlockCurrent_state : (∀ blockType, manager.state thread = .blocking blockType →
      manager.finishBlockCurrent thread = (false, manager.setState thread (.blocked blockType))) ∧
    ((manager.state thread).block = none →
      ((manager.finishBlockCurrent thread).2.state thread).block = none) := by
  refine ⟨fun blockType h => by simp [finishBlockCurrent, h], fun h => ?_⟩
  unfold finishBlockCurrent
  split
  case h_4 hready =>
    dsimp only
    split
    case isTrue => simp [State.block]
    case isFalse =>
      exact h
  case h_1 blockType hstate => simp [hstate, State.block] at h
  case h_2 blockType hstate => simp [hstate, State.block] at h
  all_goals first | exact h | simp [State.block]

/-- One thread is run. -/
theorem runReadyThread_spares : Spares manager (manager.runReadyThread thread).2 thread := by
  unfold runReadyThread
  split
  case isTrue => exact manager.setState_spares thread .running
  case isFalse => exact .refl manager thread

/-- One thread is marked as exited. -/
theorem markThreadExited_spares : Spares manager (manager.markThreadExited thread) thread := by
  unfold markThreadExited
  split
  case isTrue => exact .refl manager thread
  case isFalse =>
    have hclear : Spares manager (manager.setClearChildTid thread 0) thread :=
      ⟨fun other hne => by simp [ThreadManager.state, setClearChildTid, update_of_ne hne],
        fun _ _ _ h => h, fun _ h _ => h, fun _ _ h => h⟩
    have hremove := hclear.trans (removeFromBlockedQueues_spares _ thread)
    have hready := hremove.trans (removeReadyThread_spares _ thread)
    have hmark := hready.trans (setState_spares _ thread .zombie)
    exact ⟨hmark.state, hmark.waiting, hmark.timed, hmark.ready⟩

/-- An exited thread is a zombie. -/
@[simp] theorem state_markThreadExited :
    (manager.markThreadExited thread).state thread = .zombie := by
  unfold markThreadExited
  split
  case isTrue h => exact h
  case isFalse => exact state_setState_self _ thread .zombie

end ThreadManager

end Seele.Scheduling
