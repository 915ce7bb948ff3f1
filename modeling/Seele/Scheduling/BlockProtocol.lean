import Seele.Scheduling.Wakes
import Seele.Lib.GuardedRun

/-!
# Going to sleep without missing the wake

A thread that waits for a condition checks it, announces that it will sleep
(`prepare_block_current`), checks again, and then goes to sleep (`finish_block_current`) or takes
the announcement back (`cancel_block`). Whoever makes the condition true calls the wake function for
what the thread waits for. But `wake_process_exit_waiters`, `wake_affected_pollers`,
`wake_ready_pollers` and `process_timed_out_threads` look for threads that sleep, and pass over one
that is `Blocking`. If such a call comes between the second check and `finish_block_current`, the
thread goes to sleep although the wake has been sent (`wake_is_lost`).

`no_lost_wakeups` is the protocol for any number of threads, in any order: as long as these four
functions meet none of the threads they are meant for while it is about to sleep, no thread sleeps
after the wake that it waits for. The invariant is `Fits`.
-/

namespace Seele.Scheduling

open Function List

open Futex (ThreadID)
open Signalling (Signal)
open ThreadManager

/-! ## Who a call is for -/

/-- The call is the wake function for a thread that waits with a certain block. -/
def WakeCall.isFor (call : WakeCall) (manager : ThreadManager) (thread : ThreadID)
    (block : BlockType) : Bool :=
  match call, block with
  | .wakeProcessExitWaiters, .wakeRequired .processExit _ => true
  | .wakeSignalWaiters signal, .wakeRequired (.signalWait mask) _ => mask.contains signal
  | .wakeAffectedPollers pollers, .wakeRequired (.poller poller) _ => pollers.contains poller
  | .wakeReadyPollers withEvents, .wakeRequired (.poller poller) _ => withEvents.contains poller
  | .wakeThreadById target, _ => target == thread && manager.threads.contains thread
  | .wakePty, .wakeRequired .pty _ => true
  | .wakeKeyboard, .wakeRequired .keyboard _ => true
  | .wakeMouse, .wakeRequired .mouse _ => true
  | .wakeIo, .wakeRequired .io _ => true
  | .processTimedOutThreads now, block => block.isTimedOut now
  | _, _ => false

open WakeCall

/-- The block of a thread that is about to sleep. -/
def aboutToSleep (manager : ThreadManager) (thread : ThreadID) : Option BlockType :=
  if (manager.state thread).isBlocking then (manager.state thread).block else none

/-- A thread that the call is for is about to sleep, and the call would pass over it. -/
def WakeCall.passesOver (call : WakeCall) (manager : ThreadManager) (thread : ThreadID) : Bool :=
  match call with
  | .wakeProcessExitWaiters | .wakeAffectedPollers _ | .wakeReadyPollers _
  | .processTimedOutThreads _ =>
    (aboutToSleep manager thread).any (call.isFor manager thread)
  | _ => false

/-- The threads that the call looks at. -/
def WakeCall.candidates (manager : ThreadManager) : WakeCall → List ThreadID
  | .wakeProcessExitWaiters => manager.waiting .processExit
  | .wakeAffectedPollers _ | .wakeReadyPollers _ => manager.waiting .poller
  | .processTimedOutThreads now =>
    (manager.timed.filter fun entry => entry.1 ≤ now).map Prod.snd
  | _ => []

variable {manager : ThreadManager} {thread : ThreadID}

/-- Who is blocking is about to sleep. -/
theorem aboutToSleep_of_blocking {block : BlockType}
    (h : manager.state thread = .blocking block) : aboutToSleep manager thread = some block := by
  simp [aboutToSleep, h, State.isBlocking, State.block]

/-- The blocks that a call for one of the queues is for. -/
def WakeCall.kind (block : BlockType) : WakeCall → Prop
  | .wakeProcessExitWaiters => ∃ deadline, block = .wakeRequired .processExit deadline
  | .wakeSignalWaiters _ => ∃ mask deadline, block = .wakeRequired (.signalWait mask) deadline
  | .wakeAffectedPollers _ | .wakeReadyPollers _ =>
    ∃ poller deadline, block = .wakeRequired (.poller poller) deadline
  | .wakePty => ∃ deadline, block = .wakeRequired .pty deadline
  | .wakeKeyboard => ∃ deadline, block = .wakeRequired .keyboard deadline
  | .wakeMouse => ∃ deadline, block = .wakeRequired .mouse deadline
  | .wakeIo => ∃ deadline, block = .wakeRequired .io deadline
  | .wakeThreadById _ | .processTimedOutThreads _ => True

variable {call : WakeCall}

/-- A call is for its own queue. -/
theorem WakeCall.isFor_queue
    {block : BlockType} (hfor : call.isFor manager thread block) : call.kind block := by
  unfold isFor at hfor
  split at hfor
  case h_11 => cases hfor
  all_goals first | exact trivial | exact ⟨_, rfl⟩ | exact ⟨_, _, rfl⟩

/-- Who is waited for is woken. -/
theorem WakeCall.mem_woken {block : BlockType} (hfor : call.isFor manager thread block)
    (hqueued : manager.Enqueued thread block)
    (hstate : manager.state thread = .blocking block ∨ manager.state thread = .blocked block)
    (hmeets : ∀ t ∈ call.candidates manager, ¬ call.passesOver manager t) :
    thread ∈ call.woken manager := by
  -- For the four calls that look for threads that sleep: this one does.
  have hasleep : thread ∈ call.candidates manager →
      (call.passesOver manager thread = (aboutToSleep manager thread).any
        (call.isFor manager thread)) → manager.state thread = .blocked block := by
    intro hcandidate hpasses
    refine hstate.resolve_left fun hblocking => hmeets thread hcandidate ?_
    rw [hpasses, aboutToSleep_of_blocking hblocking]
    exact hfor
  cases call with
  | wakeThreadById target =>
    obtain ⟨htarget, hthreads⟩ : target = thread ∧ thread ∈ manager.threads := by
      simpa [isFor] using hfor
    simp [woken, htarget, hthreads]
  | processTimedOutThreads now =>
    have hout : block.isTimedOut now = true := by simpa [isFor] using hfor
    obtain ⟨deadline, hdeadline, hdue⟩ := BlockType.deadline_of_isTimedOut hout
    have hentry : (deadline, thread) ∈ manager.timed.filter fun entry => entry.1 ≤ now :=
      mem_filter.mpr ⟨hqueued.timed deadline hdeadline, decide_eq_true hdue⟩
    have hcandidate : thread ∈ (manager.timed.filter fun entry => entry.1 ≤ now).map Prod.snd :=
      mem_map.mpr ⟨_, hentry, rfl⟩
    refine mem_filter.mpr ⟨hcandidate, ?_⟩
    rw [hasleep hcandidate rfl]
    exact hout
  | wakeProcessExitWaiters =>
    obtain ⟨deadline, rfl⟩ : ∃ deadline, block = .wakeRequired .processExit deadline :=
      isFor_queue hfor
    have hmem := hqueued.waiting _ _ rfl
    exact mem_filter.mpr ⟨hmem, by rw [hasleep hmem rfl]; rfl⟩
  | wakeSignalWaiters signal =>
    obtain ⟨mask, deadline, rfl⟩ : ∃ mask deadline,
        block = .wakeRequired (.signalWait mask) deadline := isFor_queue hfor
    have hmem := hqueued.waiting _ _ rfl
    refine mem_filter.mpr ⟨hmem, ?_⟩
    obtain hstate | hstate := hstate
    · rw [hstate]
      exact hfor
    · rw [hstate]
      exact hfor
  | wakeAffectedPollers pollers | wakeReadyPollers pollers =>
    obtain ⟨poller, deadline, rfl⟩ : ∃ poller deadline,
        block = .wakeRequired (.poller poller) deadline := isFor_queue hfor
    have hmem := hqueued.waiting _ _ rfl
    exact mem_filter.mpr ⟨hmem, by rw [hasleep hmem rfl]; exact hfor⟩
  | wakePty =>
    obtain ⟨deadline, rfl⟩ : ∃ deadline, block = .wakeRequired .pty deadline := isFor_queue hfor
    exact hqueued.waiting _ _ rfl
  | wakeKeyboard =>
    obtain ⟨deadline, rfl⟩ : ∃ deadline, block = .wakeRequired .keyboard deadline :=
      isFor_queue hfor
    exact hqueued.waiting _ _ rfl
  | wakeMouse =>
    obtain ⟨deadline, rfl⟩ : ∃ deadline, block = .wakeRequired .mouse deadline := isFor_queue hfor
    exact hqueued.waiting _ _ rfl
  | wakeIo =>
    obtain ⟨deadline, rfl⟩ : ∃ deadline, block = .wakeRequired .io deadline := isFor_queue hfor
    exact hqueued.waiting _ _ rfl

namespace BlockProtocol

/-! ## The protocol -/

/-- Where a thread is in the protocol. -/
inductive Place where
  /-- Somewhere else. -/
  | idle
  /-- About to check its condition. -/
  | checking (block : BlockType)
  /-- The condition was false. -/
  | checked (block : BlockType)
  /-- After `prepare_block_current`. -/
  | prepared (block : BlockType)
  /-- The condition was still false. -/
  | rechecked (block : BlockType)
  /-- In `cancel_block`. -/
  | cancelling
  /-- In `cancel_block`, out of the queues. -/
  | cancelled
  /-- `finish_block_current` has returned to the scheduler. -/
  | asleep (block : BlockType)
  deriving DecidableEq, Repr

/-- What a thread waits for, while it does. -/
def Place.block : Place → Option BlockType
  | checking block | checked block | prepared block | rechecked block | asleep block => some block
  | _ => none

/-- The threads with their places and conditions. A thread is owed its wake-up when its wake
function has been called, since it began to wait, while its condition was true. -/
structure System where
  manager : ThreadManager
  place : ThreadID → Place
  condition : ThreadID → Bool
  owed : ThreadID → Bool

/-- The steps. -/
inductive Op where
  | beginWait (thread : ThreadID) (block : BlockType)
  | check (thread : ThreadID)
  | prepare (thread : ThreadID)
  | recheck (thread : ThreadID)
  | beginCancel (thread : ThreadID)
  | cancelQueues (thread : ThreadID)
  | cancelState (thread : ThreadID)
  | finish (thread : ThreadID)
  /-- The thread loses its CPU in user mode: the kernel is not preempted. -/
  | yield (thread : ThreadID)
  | pop (cpu : ℕ) (allowSteal : Bool) (filter : ReadyThreadFilter)
  | runReady (thread : ThreadID)
  | markExited (thread : ThreadID)
  | setCondition (thread : ThreadID) (value : Bool)
  | wake (call : WakeCall)
  deriving DecidableEq, Repr

/-- The thread is on a CPU, outside the protocol. -/
def System.executes (s : System) (thread : ThreadID) : Bool :=
  s.manager.state thread = .running || s.manager.state thread = .woken

/-- A thread gets to another place, with what the manager has done. -/
def System.move (s : System) (thread : ThreadID) (place : Place) (manager : ThreadManager) :
    System :=
  { s with manager, place := update s.place thread place }

/-- The threads that the call is for are owed a wake-up if their condition is true. -/
def System.noteWake (s : System) (call : WakeCall) (thread : ThreadID) : Bool :=
  s.owed thread ||
    s.condition thread && (s.place thread).block.any (call.isFor s.manager thread)

/-- One step. It has no result where the thread is not at the place it starts from. -/
def exec (op : Op) (s : System) : Option System :=
  match op with
  | .beginWait thread block =>
    match s.place thread with
    | .idle =>
      if s.executes thread then
        some { s.move thread (.checking block) s.manager with
          owed := update s.owed thread false }
      else none
    | _ => none
  | .check thread =>
    match s.place thread with
    | .checking block =>
      some (s.move thread (if s.condition thread then .idle else .checked block) s.manager)
    | _ => none
  | .prepare thread =>
    match s.place thread with
    | .checked block => some (s.move thread (.prepared block) (s.manager.block thread block))
    | _ => none
  | .recheck thread =>
    match s.place thread with
    | .prepared block =>
      some (s.move thread (if s.condition thread then .cancelling else .rechecked block) s.manager)
    | _ => none
  | .beginCancel thread =>
    match s.place thread with
    -- `poll` cancels after it has been woken, too.
    | .idle => if s.executes thread then some (s.move thread .cancelling s.manager) else none
    | _ => none
  | .cancelQueues thread =>
    match s.place thread with
    | .cancelling => some (s.move thread .cancelled (s.manager.removeFromBlockedQueues thread))
    | _ => none
  | .cancelState thread =>
    match s.place thread with
    | .cancelled => some (s.move thread .idle (s.manager.cancelState thread))
    | _ => none
  | .finish thread =>
    let finished := s.manager.finishBlockCurrent thread
    match s.place thread with
    | .rechecked block =>
      some (s.move thread (if finished.1 then .idle else .asleep block) finished.2)
    -- `wait_for_child_exit` finishes after it has cancelled, too.
    | .idle => if s.executes thread then some (s.move thread .idle finished.2) else none
    | _ => none
  | .yield thread =>
    match s.place thread with
    | .idle =>
      if s.executes thread then some (s.move thread .idle (s.manager.requeue thread)) else none
    | _ => none
  | .pop cpu allowSteal filter =>
    some { s with manager := (s.manager.popReadyForCpuInner cpu allowSteal filter).2 }
  | .runReady thread =>
    match s.place thread with
    | .idle | .asleep _ =>
      let run := s.manager.runReadyThread thread
      if run.1 then some (s.move thread .idle run.2) else none
    | _ => none
  | .markExited thread => some { s with manager := s.manager.markThreadExited thread }
  | .setCondition thread value =>
    some { s with
      condition := update s.condition thread value
      owed := update s.owed thread (s.owed thread && value) }
  | .wake call => some { s with manager := call.run s.manager, owed := s.noteWake call }

/-- No call passes over a thread that it is for. -/
def Safe (op : Op) (s : System) : Prop :=
  match op with
  | .wake call => ∀ thread ∈ call.candidates s.manager, ¬ call.passesOver s.manager thread
  | _ => True

instance : ∀ op s, Decidable (Safe op s)
  | .wake call, s => inferInstanceAs
      (Decidable (∀ thread ∈ call.candidates s.manager, ¬ call.passesOver s.manager thread))
  | .beginWait .., _ | .check _, _ | .prepare _, _ | .recheck _, _ | .beginCancel _, _
  | .cancelQueues _, _ | .cancelState _, _ | .finish _, _ | .yield _, _ | .pop .., _
  | .runReady _, _ | .markExited _, _ | .setCondition .., _ => .isTrue trivial

/-! ## The invariant -/

/-- The states that a thread may have at its place. -/
def Fits (manager : ThreadManager) (thread : ThreadID) (place : Place) (owed : Bool) : Prop :=
  match place with
  | .idle | .checking _ | .checked _ => (manager.state thread).block = none
  | .prepared block =>
    (manager.state thread).block = none ∨
      manager.state thread = .blocking block ∧ manager.Enqueued thread block
  | .rechecked block =>
    (manager.state thread).block = none ∨
      manager.state thread = .blocking block ∧ manager.Enqueued thread block ∧ owed = false
  | .cancelling | .cancelled => (manager.state thread).isBlocked = false
  | .asleep block =>
    (manager.state thread).block = none ∨
      manager.state thread = .blocked block ∧ manager.Enqueued thread block ∧ owed = false

/-- Every thread fits its place, and a thread that is owed a wake-up has a true condition. -/
structure Inv (s : System) : Prop where
  fits : ∀ thread, Fits s.manager thread (s.place thread) (s.owed thread)
  owed : ∀ thread, s.owed thread = true → s.condition thread = true

variable {s s' : System} {manager manager' : ThreadManager} {thread other : ThreadID}
  {place : Place} {owed : Bool}

/-- Who is awake fits anywhere. -/
theorem Fits.of_awake (h : (manager.state thread).block = none) :
    Fits manager thread place owed := by
  have hblocked : (manager.state thread).isBlocked = false := by
    cases hstate : manager.state thread <;> simp_all [State.block, State.isBlocked]
  cases place with
  | idle | checking _ | checked _ => exact h
  | prepared _ | rechecked _ | asleep _ => exact .inl h
  | cancelling | cancelled => exact hblocked

/-- Steps of others leave it so. -/
theorem Fits.spared (h : Fits manager other place owed) (hspares : Spares manager manager' thread)
    (hne : other ≠ thread) : Fits manager' other place owed := by
  unfold Fits at h ⊢
  rw [hspares.state other hne]
  cases place with
  | idle | checking _ | checked _ | cancelling | cancelled => exact h
  | prepared block =>
    exact h.imp_right fun ⟨hstate, hqueued⟩ => ⟨hstate, hqueued.spared hspares hne⟩
  | rechecked block | asleep block =>
    exact h.imp_right fun ⟨hstate, hqueued, howed⟩ => ⟨hstate, hqueued.spared hspares hne, howed⟩

/-- The ready queue does not count. -/
theorem Fits.sameButReady (h : Fits manager thread place owed)
    (hsame : SameButReady manager manager') : Fits manager' thread place owed := by
  have hqueued : ∀ block, manager.Enqueued thread block → manager'.Enqueued thread block :=
    fun block hblock =>
      ⟨by simpa only [hsame.waiting] using hblock.waiting,
        by simpa only [hsame.timed] using hblock.timed⟩
  unfold Fits at h ⊢
  grind [hsame.state]

/-- Nothing more is owed. -/
theorem Fits.unowed (h : Fits manager thread place owed) : Fits manager thread place false := by
  cases place with
  | idle | checking _ | checked _ | cancelling | cancelled | prepared _ => exact h
  | rechecked block | asleep block =>
    exact h.imp_right fun ⟨hstate, hqueued, _⟩ => ⟨hstate, hqueued, rfl⟩

/-- A thread moves on. -/
theorem Inv.move (h : Inv s) (hspares : Spares s.manager manager' thread)
    (hfits : Fits manager' thread place (s.owed thread)) : Inv (s.move thread place manager') where
  fits other := by
    by_cases hne : other = thread
    · subst hne
      simp only [System.move, update_self]
      exact hfits
    · simp only [System.move, update_of_ne hne]
      exact (h.fits other).spared hspares hne
  owed := h.owed

/-- A thread is awake. -/
theorem Inv.awake (h : Inv s) (hspares : Spares s.manager manager' thread)
    (hawake : (manager'.state thread).block = none) : Inv { s with manager := manager' } where
  fits other := by
    by_cases hne : other = thread
    · subst hne
      exact .of_awake hawake
    · exact (h.fits other).spared hspares hne
  owed := h.owed

/-- What a thread is owed is only taken back, unless its condition becomes true. -/
theorem Inv.note (h : Inv s) {c o : Bool} (ho : o = true → s.owed thread = true ∧ c = true) :
    Inv { s with condition := update s.condition thread c, owed := update s.owed thread o } where
  fits other := by
    by_cases hne : other = thread
    · subst hne
      simp only [update_self]
      cases o with
      | true => exact (ho rfl).1 ▸ h.fits other
      | false => exact (h.fits other).unowed
    · simp only [update_of_ne hne]
      exact h.fits other
  owed other howed := by
    by_cases hne : other = thread
    · subst hne
      simp only [update_self] at howed ⊢
      exact (ho howed).2
    · simp only [update_of_ne hne] at howed ⊢
      exact h.owed other howed

/-! ## A wake function is called -/

/-- Who is woken does not block. -/
theorem block_wake (state : State) : state.wake.block = none := by
  cases state <;> rfl

/-- Who is not woken stays queued. -/
theorem enqueued_run {block : BlockType}
    (hmeets : ∀ t ∈ call.candidates manager, ¬ call.passesOver manager t)
    (hqueued : manager.Enqueued thread block)
    (hstate : manager.state thread = .blocking block ∨ manager.state thread = .blocked block)
    (hnot : thread ∉ call.woken manager) : (call.run manager).Enqueued thread block where
  waiting wakeType deadline hblock := by
    have hmem := hqueued.waiting wakeType deadline hblock
    rw [(call.run_woke manager).waiting, waiting_base]
    exact ⟨hmem, hnot⟩
  timed deadline hdeadline := by
    have hentry := hqueued.timed deadline hdeadline
    refine (call.run_woke manager).timed _ ?_ hnot
    cases call with
    | processTimedOutThreads now =>
      refine mem_filter.mpr ⟨hentry, decide_eq_true ?_⟩
      by_contra hdue
      have hout : block.isTimedOut now = true :=
        BlockType.isTimedOut_of_deadline hdeadline (Nat.le_of_not_lt hdue)
      exact hnot (mem_woken hout hqueued hstate hmeets)
    | _ => exact hentry

/-- A call not meant for a thread is not noted. -/
theorem noteWake_eq_false {block : BlockType}
    (hmeets : ∀ t ∈ call.candidates s.manager, ¬ call.passesOver s.manager t)
    (hplace : (s.place thread).block = some block) (howed : s.owed thread = false)
    (hqueued : s.manager.Enqueued thread block) (hstate : s.manager.state thread = .blocking block ∨
      s.manager.state thread = .blocked block)
    (hnot : thread ∉ call.woken s.manager) : s.noteWake call thread = false := by
  grind [mem_woken, System.noteWake]

/-- A wake keeps the invariant. -/
theorem Inv.wake (h : Inv s)
    (hmeets : ∀ t ∈ call.candidates s.manager, ¬ call.passesOver s.manager t) :
    Inv { s with manager := call.run s.manager, owed := s.noteWake call } where
  fits thread := by
    have hwoke := call.run_woke s.manager
    by_cases hmem : thread ∈ call.woken s.manager
    · grind [Fits.of_awake, hwoke.state_of_mem, block_wake]
    have hsame : (call.run s.manager).state thread = s.manager.state thread := by
      rw [hwoke.state_of_not_mem hmem, state_base]
    have hfits := h.fits thread
    unfold Fits at hfits ⊢
    simp only [hsame]
    cases hplace : s.place thread with
    | idle | checking _ | checked _ | cancelling | cancelled =>
      rw [hplace] at hfits
      exact hfits
    | prepared block => grind [enqueued_run]
    | rechecked block =>
      rw [hplace] at hfits
      exact hfits.imp_right fun ⟨hstate, hqueued, howed⟩ =>
        ⟨hstate, enqueued_run hmeets hqueued (.inl hstate) hmem,
          noteWake_eq_false hmeets (by rw [hplace]; rfl) howed hqueued (.inl hstate) hmem⟩
    | asleep block =>
    rw [hplace] at hfits
    exact hfits.imp_right fun ⟨hstate, hqueued, howed⟩ =>
      ⟨hstate, enqueued_run hmeets hqueued (.inr hstate) hmem,
        noteWake_eq_false hmeets (by rw [hplace]; rfl) howed hqueued (.inr hstate) hmem⟩
  owed thread hnote := by
    simp only [System.noteWake, Bool.or_eq_true, Bool.and_eq_true] at hnote
    exact hnote.elim (h.owed thread) And.left

/-! ## Every step -/

/-- Who executes does not block. -/
theorem block_of_executes (h : s.executes thread) : (s.manager.state thread).block = none := by
  simp only [System.executes, Bool.or_eq_true, decide_eq_true_eq] at h
  obtain h | h := h <;> rw [h] <;> rfl

/-- Every safe step keeps the invariant. -/
theorem exec_inv {op : Op} (hsafe : Safe op s) (hexec : exec op s = some s') (h : Inv s) :
    Inv s' := by
  cases op <;> simp only [exec] at hexec
  case beginWait thread block =>
    split at hexec <;> try cases hexec
    split at hexec <;> cases hexec
    next hplace hcpu =>
    have hmoved : Inv (s.move thread (.checking block) s.manager) :=
      h.move (.refl _ _) (block_of_executes hcpu)
    have hnoted := @Inv.note _ thread hmoved (s.condition thread) false nofun
    rwa [System.move, update_eq_self] at hnoted
  case check thread =>
    have hfits := h.fits thread
    split at hexec <;> cases hexec
    next block hplace =>
    rw [hplace] at hfits
    exact h.move (.refl _ _) (.of_awake hfits)
  case prepare thread =>
    split at hexec <;> cases hexec
    next block hplace =>
    exact h.move (block_spares _ thread block)
      (.inr ⟨state_block _ thread block, block_enqueued _ thread block⟩)
  case recheck thread =>
    have hfits := h.fits thread
    split at hexec <;> cases hexec
    next block hplace =>
    rw [hplace] at hfits
    refine h.move (.refl _ _) ?_
    split
    case isTrue =>
      obtain hawake | ⟨hstate, -⟩ := hfits
      · exact .of_awake hawake
      · simp [Fits, hstate, State.isBlocked]
    case isFalse hfalse =>
      -- The condition is false, so nothing is owed yet.
      have howed : s.owed thread = false := by
        rw [← Bool.not_eq_true]
        exact fun howed => hfalse (h.owed thread howed)
      obtain hawake | ⟨hstate, hqueued⟩ := hfits
      · exact .inl hawake
      · exact .inr ⟨hstate, hqueued, howed⟩
  case beginCancel thread =>
    split at hexec <;> try cases hexec
    split at hexec <;> cases hexec
    next hplace hcpu => exact h.move (.refl _ _) (.of_awake (block_of_executes hcpu))
  case cancelQueues thread =>
    have hfits := h.fits thread
    split at hexec <;> cases hexec
    next hplace =>
    rw [hplace] at hfits
    exact h.move (removeFromBlockedQueues_spares _ thread) hfits
  case cancelState thread =>
    split at hexec <;> cases hexec
    exact h.move (cancelState_spares _ thread) (block_state_cancelState _ thread)
  case finish thread =>
    obtain ⟨hsleeps, hawake⟩ := finishBlockCurrent_state s.manager thread
    have hspares := finishBlockCurrent_spares s.manager thread
    have hfits := h.fits thread
    split at hexec
    case h_3 => cases hexec
    case h_1 block hplace =>
      cases hexec
      rw [hplace] at hfits
      refine h.move hspares ?_
      obtain hnone | ⟨hstate, hqueued, howed⟩ := hfits
      · exact .of_awake (hawake hnone)
      · rw [hsleeps block hstate]
        exact .inr ⟨state_setState_self _ thread _, ⟨hqueued.waiting, hqueued.timed⟩, howed⟩
    case h_2 hplace =>
      split at hexec <;> cases hexec
      next hcpu => exact h.move hspares (hawake (block_of_executes hcpu))
  case yield thread =>
    split at hexec <;> try cases hexec
    split at hexec <;> cases hexec
    refine h.move (requeue_spares _ thread) (.of_awake ?_)
    rw [state_requeue]
    rfl
  case pop cpu allowSteal filter =>
    cases hexec
    have hsame := (popReadyForCpuInner_spec s.manager cpu allowSteal filter).1
    exact ⟨fun other => (h.fits other).sameButReady hsame, h.owed⟩
  case runReady thread =>
    have hrun : ((s.manager.runReadyThread thread).1 = true →
        ((s.manager.runReadyThread thread).2.state thread).block = none) := by
      unfold runReadyThread
      split <;> simp [State.block]
    split at hexec
    case h_3 => cases hexec
    all_goals
      split at hexec <;> cases hexec
      next htrue => exact h.move (runReadyThread_spares _ thread) (.of_awake (hrun htrue))
  case markExited thread =>
    cases hexec
    exact h.awake (markThreadExited_spares _ thread) (by rw [state_markThreadExited]; rfl)
  case setCondition thread value =>
    cases hexec
    exact h.note (Bool.and_eq_true _ _ ▸ id)
  case wake call =>
    cases hexec
    exact h.wake hsafe

/-! ## Whole runs -/

/-- No thread waits, and none is owed a wake-up. -/
structure Initial (s : System) : Prop where
  place : ∀ thread, s.place thread = .idle
  awake : ∀ thread, (s.manager.state thread).block = none
  owed : ∀ thread, s.owed thread = false

/-- No thread sleeps after the wake that it waits for; and once it is through with the protocol, it
is not about to sleep either. -/
def NoneLost (s : System) : Prop :=
  ∀ thread, s.owed thread = true → (s.manager.state thread).isBlocked = false ∧
    ∀ block, s.place thread = .asleep block → (s.manager.state thread).block = none

/-- The invariant holds at the start. -/
theorem Inv.of_initial (h : Initial s) : Inv s where
  fits thread := by
    rw [h.place]
    exact h.awake thread
  owed thread howed := by
    rw [h.owed] at howed
    cases howed

/-- No wake is lost. -/
theorem Inv.noneLost (h : Inv s) : NoneLost s := by
  intro thread howed
  have hfits := h.fits thread
  rw [howed] at hfits
  refine ⟨?_, fun block hplace => ?_⟩
  · cases hstate : s.manager.state thread with
    | blocked block =>
      -- Only a thread at the place `asleep` sleeps, and that one is owed nothing.
      exfalso
      cases hplace : s.place thread <;>
        simp [Fits, hplace, hstate, State.block, State.isBlocked] at hfits
    | _ => rfl
  · rw [hplace] at hfits
    grind [hfits.resolve_right]

/-- Whatever the threads and the wake functions do, in any order: if no wake function passes over a
thread that it is for, no thread sleeps after the wake that it waits for. -/
theorem no_lost_wakeups {ops : List Op} (hinitial : Initial s)
    (hsafe : Lib.SafeRun exec Safe ops s) (hrun : Lib.runOps exec ops s = some s') : NoneLost s' :=
  (hsafe.invariant (fun _ _ _ => exec_inv) (Inv.of_initial hinitial) hrun).noneLost

/-- Every thread runs, and none waits. -/
def allRunning : System where
  manager :=
    { thread := fun _ => ⟨.running, 1, 0, false⟩
      threads := [1, 2]
      readyQueues := [[]]
      nextReadyCpu := 0
      zombies := []
      pendingThreadExits := []
      blockedQueues := ⟨fun _ => [], []⟩
      futexQueue := fun _ => none }
  place := fun _ => .idle
  condition := fun _ => false
  owed := fun _ => false

/-- All threads may run at the start. -/
theorem allRunning_initial : Initial allRunning := ⟨fun _ => rfl, fun _ => rfl, fun _ => rfl⟩

/-- A thread goes through the protocol. Another one makes its condition true and calls the wake
function, after the second check or when the thread sleeps. -/
def waitAndWake (thread : ThreadID) (block : BlockType) (call : WakeCall) (early : Bool) :
    List Op :=
  [.beginWait thread block, .check thread, .prepare thread, .recheck thread] ++
    (if early then [.setCondition thread true, .wake call, .finish thread]
      else [.finish thread, .setCondition thread true, .wake call])

/-- One thread waits for input and is woken while it is about to sleep, another one waits for a
child and is woken when it sleeps. -/
theorem no_lost_wakeups_two : ∃ s', Lib.runOps exec
      (waitAndWake 1 (.wakeRequired .io none) .wakeIo true ++
        waitAndWake 2 (.wakeRequired .processExit none) .wakeProcessExitWaiters false)
      allRunning = some s' ∧ s'.owed 1 = true ∧ s'.owed 2 = true ∧ NoneLost s' := by
  refine ⟨_, rfl, rfl, rfl, ?_⟩
  refine no_lost_wakeups allRunning_initial ?_ (rfl : Lib.runOps exec
      (waitAndWake 1 (.wakeRequired .io none) .wakeIo true ++
        waitAndWake 2 (.wakeRequired .processExit none) .wakeProcessExitWaiters false)
      allRunning = some _)
  decide

/-- A thread waits for a child, at a poller or for a time. Its condition becomes true after the
second check and its wake function is called, and then it goes to sleep. -/
theorem wake_is_lost : Initial allRunning ∧
    ∀ wait ∈ [(BlockType.wakeRequired .processExit none, WakeCall.wakeProcessExitWaiters),
        (.wakeRequired (.poller 7) none, .wakeAffectedPollers [7]),
        (.wakeRequired (.poller 7) none, .wakeReadyPollers [7]),
        (.setTime 5, .processTimedOutThreads 5)],
      ∃ s', Lib.runOps exec (waitAndWake 1 wait.1 wait.2 true) allRunning = some s' ∧
        s'.owed 1 = true ∧ s'.manager.state 1 = .blocked wait.1 := by
  refine ⟨allRunning_initial, fun wait hwait => ?_⟩
  simp only [mem_cons, not_mem_nil, or_false] at hwait
  obtain rfl | rfl | rfl | rfl := hwait <;> exact ⟨_, rfl, rfl, rfl⟩

end BlockProtocol

end Seele.Scheduling
