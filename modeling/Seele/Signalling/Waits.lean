import Seele.Signalling.Delivery

/-!
# Signals that end a wait

Three predicates decide whether a wait ends with `Interrupted`. `has_interrupting_pending_signal`
first drops `SIGCHLD`, `SIGURG` and `SIGWINCH` of the process if they are not handled, and then
looks whether any signal is pending. `has_pending_signal` looks whether any is.
`wake_specific_thread_for_signal` marks a thread that waits as interrupted if the signal is not
blocked. Only the last of them looks at the mask, and none of them at all dispositions, so that a
signal that will not be delivered (`Quiet`) ends waits. For each of them there is an equivalence
that says when it does not.
-/

namespace Seele.Signalling

open Process

variable {ρ ξ : Type}

/-! ## The calls -/

/-- The thread that waits and its process. -/
structure Waiter (ρ ξ : Type) where
  process : Process
  thread : Thread ρ ξ

open Waiter

/-- `ObjectError` and `SyscallError`, as far as the calls here return them. -/
inductive WaitError where
  | interrupted
  | tryAgain
deriving DecidableEq, Repr

/-- The signal is left to its default action or ignored. -/
def SignalAction.isUnhandled (action : SignalAction) : Bool :=
  match action.handlingType with
  | .default | .ignore => true
  | .function1 _ | .function2 _ => false

/-- The body of the loop of `has_interrupting_pending_signal`. -/
def Process.dropUnhandled (process : Process) (signal : Signal) : Process :=
  if process.pending.signals.contains signal && (process.signalActions signal).isUnhandled then
    { process with pending := (process.pending.take signal).2 }
  else process

/-- The signals that `has_interrupting_pending_signal` drops. -/
def droppedSignals : List Signal := [.SIGCHLD, .SIGURG, .SIGWINCH]

variable (w : Waiter ρ ξ)

/-- `has_interrupting_pending_signal`. -/
def hasInterruptingPendingSignal : Bool × Waiter ρ ξ :=
  let process := droppedSignals.foldl dropUnhandled w.process
  (!process.pending.signals.isEmpty || !w.thread.pending.signals.isEmpty,
    { w with process := process })

/-- `block_current_with_sig_check`. -/
def blockCurrentWithSigCheck (sleep : Waiter ρ ξ → Waiter ρ ξ) (w : Waiter ρ ξ) :
    Except WaitError Unit × Waiter ρ ξ :=
  let (interrupts, w) := hasInterruptingPendingSignal w
  if interrupts then (.error .interrupted, w)
  else
    let (interrupts, w) := hasInterruptingPendingSignal (sleep w)
    if interrupts then (.error .interrupted, w) else (.ok (), w)

/-- `has_pending_signal`. -/
def hasPendingSignal : Bool :=
  !w.process.pending.signals.isEmpty || !w.thread.pending.signals.isEmpty

/-- `InterruptibleObjectWaitGuard`. -/
def Waiter.setWaitActive (active : Bool) : Waiter ρ ξ :=
  { w with thread := { w.thread with interruptibleWaitActive := active } }

/-- `take_signal_interrupt`. -/
def takeSignalInterrupt : Bool × Waiter ρ ξ :=
  (w.thread.interruptedBySignal,
    { w with thread := { w.thread with interruptedBySignal := false } })

/-- `wait_for_object_event_interruptible`. The poller has events at once, or when the thread is
about to sleep, or not. -/
def waitForObjectEventInterruptible (ready readyPrepared : Bool) (sleep : Waiter ρ ξ → Waiter ρ ξ)
    (w : Waiter ρ ξ) : Except WaitError Unit × Waiter ρ ξ :=
  if ready then (.ok (), w)
  else if hasPendingSignal w then (.error .interrupted, w)
  else
    let w := w.setWaitActive true
    if readyPrepared then (.ok (), w.setWaitActive false)
    else
      let (interrupted, w) := takeSignalInterrupt (sleep w)
      (if interrupted || hasPendingSignal w then .error .interrupted else .ok (),
        w.setWaitActive false)

/-- `thread_blocks_signal_inner`. -/
def threadBlocksSignalInner (thread : Thread ρ ξ) (signal : Signal) : Bool :=
  !signal.isUnblockable && thread.blockedSignals.contains signal

/-- `wake_specific_thread_for_signal`, for a thread that sleeps in a wait, or not. The first result
tells whether it is woken. -/
def wakeSpecificThreadForSignal (sleeping : Bool) (thread : Thread ρ ξ) (signal : Signal) :
    Bool × Thread ρ ξ :=
  let interruptsWait := !threadBlocksSignalInner thread signal
  let thread :=
    if thread.interruptibleWaitActive && interruptsWait then
      { thread with interruptedBySignal := true }
    else thread
  if sleeping && interruptsWait then (true, { thread with interruptedBySignal := true })
  else (false, thread)

/-- The first signal of a pending set that is waited for. -/
def Pending.firstIn (pending : Pending) (waitMask : Signals) : Option Signal :=
  Signal.iter.find? fun signal => waitMask.contains signal && pending.signals.contains signal

/-- `dequeue_wait_signal`. -/
def dequeueWaitSignal (waitMask : Signals) (w : Waiter ρ ξ) :
    Option ((Signal × PendingSignalInfo) × Waiter ρ ξ) :=
  match w.thread.pending.firstIn waitMask with
  | some signal =>
    let (siginfo, pending) := w.thread.pending.take signal
    some ((signal, siginfo), { w with thread := { w.thread with pending := pending } })
  | none =>
    match w.process.pending.firstIn waitMask with
    | some signal =>
      let (siginfo, pending) := w.process.pending.take signal
      some ((signal, siginfo), { w with process := { w.process with pending := pending } })
    | none => none

/-- A round of the loop of `RtSigtimedwait`: whether the deadline has passed when the loop looks at
it, and what happens while the thread sleeps. -/
structure Round (ρ ξ : Type) where
  expired : Bool
  sleep : Waiter ρ ξ → Waiter ρ ξ

/-- `RtSigtimedwait`. After the last round the call is still waiting. -/
def rtSigtimedwait (waitMask : Signals) : List (Round ρ ξ) → Waiter ρ ξ →
    Option (Except WaitError (Signal × PendingSignalInfo) × Waiter ρ ξ)
  | [], _ => none
  | round :: rounds, w =>
    match dequeueWaitSignal waitMask w with
    | some (signal, w) => some (.ok signal, w)
    | none =>
      if round.expired then some (.error .tryAgain, w)
      else
        match blockCurrentWithSigCheck round.sleep w with
        | (.ok _, w) => rtSigtimedwait waitMask rounds w
        | (.error _, w) =>
          match dequeueWaitSignal waitMask w with
          | some (signal, w) => some (.ok signal, w)
          | none => some (.error .interrupted, w)

/-! ## Signals that will not be delivered -/

/-- The signal has no effect if it is delivered. -/
def Process.ignores (process : Process) (signal : Signal) : Bool :=
  match (process.signalActions signal).handlingType with
  | .ignore => true
  | .default => (process.defaultSignalAction signal).map Prod.fst = some .default
  | .function1 _ | .function2 _ => false

namespace Waiter

variable (w : Waiter ρ ξ)

/-- The signal is pending. -/
def isPending (signal : Signal) : Bool :=
  w.thread.pending.signals.contains signal || w.process.pending.signals.contains signal

/-- Every pending signal is blocked or ignored. -/
def Quiet : Prop :=
  ∀ signal, w.isPending signal = true →
    threadBlocksSignalInner w.thread signal = true ∨ w.process.ignores signal = true

/-- The signal is pending and is not one that `has_interrupting_pending_signal` drops. -/
def isKept (signal : Signal) : Bool :=
  w.thread.pending.signals.contains signal || (w.process.pending.signals.contains signal &&
    !(decide (signal ∈ droppedSignals) && (w.process.signalActions signal).isUnhandled))

/-- All pending signals are dropped. -/
def DropsAll : Prop :=
  ∀ signal, w.isKept signal = false

/-- No signal is pending. -/
def NonePending : Prop :=
  ∀ signal, w.isPending signal = false

/-- There are signals that are not dropped, all of them blocked and none of them waited for. -/
def Spurious (waitMask : Signals) (w : Waiter ρ ξ) : Prop :=
  (∃ signal, w.isKept signal = true) ∧ ∀ signal, w.isKept signal = true →
    threadBlocksSignalInner w.thread signal = true ∧ waitMask.contains signal = false

end Waiter

/-! ## What the checks see -/

/-- What dropping one signal does. -/
theorem dropUnhandled_spec (process : Process) (signal : Signal) :
    (process.dropUnhandled signal).signalActions = process.signalActions ∧
      ∀ other : Signal, (process.dropUnhandled signal).pending.signals.contains other =
        (process.pending.signals.contains other &&
          !(decide (other = signal) && (process.signalActions other).isUnhandled)) := by
  grind [dropUnhandled, Pending.take, Signals.contains_remove, Signals.ofSignal_contains]

/-- What dropping several does. -/
theorem foldl_dropUnhandled : ∀ (signals : List Signal) (process : Process),
    (signals.foldl dropUnhandled process).signalActions = process.signalActions ∧
      ∀ other : Signal, (signals.foldl dropUnhandled process).pending.signals.contains other =
          (process.pending.signals.contains other &&
            !(decide (other ∈ signals) && (process.signalActions other).isUnhandled)) := by
  intro signals
  induction signals with
  | nil =>
    intro process
    exact ⟨rfl, fun other => by simp⟩
  | cons signal signals ih => grind [dropUnhandled_spec]

/-- A set that is not empty has a signal. -/
theorem not_isEmpty_iff {signals : Signals} :
    (!signals.isEmpty) = true ↔ ∃ signal : Signal, signals.contains signal = true := by
  grind [Signals.isEmpty_iff]

section

variable {w : Waiter ρ ξ}

/-- What is pending after the check. -/
theorem isPending_afterCheck (signal : Signal) :
    (hasInterruptingPendingSignal w).2.isPending signal = w.isKept signal := by
  unfold hasInterruptingPendingSignal isPending isKept
  grind [foldl_dropUnhandled]

/-- The check finds what is kept. -/
theorem hasInterruptingPendingSignal_iff :
    (hasInterruptingPendingSignal w).1 = true ↔ ∃ signal, w.isKept signal = true := by
  have hpending := fun signal => isPending_afterCheck (w := w) signal
  unfold hasInterruptingPendingSignal isPending at *
  grind [not_isEmpty_iff]

/-- The check drops all if it finds nothing. -/
theorem dropsAll_iff : w.DropsAll ↔ (hasInterruptingPendingSignal w).1 = false := by
  rw [← Bool.not_eq_true, hasInterruptingPendingSignal_iff, not_exists]
  simp only [Bool.not_eq_true]
  rfl

/-- What is dropped is ignored. -/
theorem ignores_of_dropped {process : Process} {signal : Signal} (hmem : signal ∈ droppedSignals)
    (hunhandled : (process.signalActions signal).isUnhandled = true) :
    process.ignores signal = true := by
  have hdefault : (process.defaultSignalAction signal).map Prod.fst = some .default := by
    simp only [droppedSignals, List.mem_cons, List.not_mem_nil, or_false] at hmem
    rcases hmem with rfl | rfl | rfl
    · rfl
    · rfl
    · rfl
  grind [SignalAction.isUnhandled, ignores]

/-- The check keeps the actions. -/
theorem ignores_afterCheck (signal : Signal) :
    (hasInterruptingPendingSignal w).2.process.ignores signal = w.process.ignores signal := by
  have hactions : (hasInterruptingPendingSignal w).2.process.signalActions =
      w.process.signalActions := (foldl_dropUnhandled droppedSignals w.process).1
  have hdefault : ∀ process : Process, ((process.defaultSignalAction signal).map Prod.fst =
      some .default) ↔ ((w.process.defaultSignalAction signal).map Prod.fst = some .default) := by
    intro process
    unfold defaultSignalAction
    split
    · rfl
    · split <;> rfl
  grind [ignores]

/-- The check keeps a quiet thread so. -/
theorem quiet_afterCheck : (hasInterruptingPendingSignal w).2.Quiet ↔ w.Quiet := by
  unfold Quiet
  simp only [isPending_afterCheck, ignores_afterCheck]
  refine forall_congr' fun signal => ⟨fun h hpending => ?_, fun h hkept => h ?_⟩
  · by_cases hkept : w.isKept signal = true
    · exact h hkept
    · -- A signal that is pending and not kept has been dropped.
      grind [isKept, isPending, ignores_of_dropped]
  · grind [isKept, isPending]

/-- Nothing is pending. -/
theorem nonePending_iff : w.NonePending ↔ hasPendingSignal w = false := by
  unfold NonePending isPending hasPendingSignal
  grind [not_isEmpty_iff]

/-! ## The waits -/

variable (sleep : Waiter ρ ξ → Waiter ρ ξ)

/-- If `block_current_with_sig_check` is interrupted, some pending signal will be delivered. -/
def BlockSpares (w : Waiter ρ ξ) : Prop :=
  (blockCurrentWithSigCheck sleep w).1 = .error .interrupted →
    ¬ (blockCurrentWithSigCheck sleep w).2.Quiet

/-- Before and after the thread sleeps, signals that will not be delivered are all dropped. -/
def ChecksDropAll (w : Waiter ρ ξ) : Prop :=
  (w.Quiet → w.DropsAll) ∧
    (w.DropsAll → (sleep (hasInterruptingPendingSignal w).2).Quiet →
      (sleep (hasInterruptingPendingSignal w).2).DropsAll)

/-- A block is not interrupted for nothing. -/
theorem block_spares_iff : BlockSpares sleep w ↔ ChecksDropAll sleep w := by
  unfold BlockSpares ChecksDropAll blockCurrentWithSigCheck
  cases hbefore : (hasInterruptingPendingSignal w).1 with
  | true => simp [dropsAll_iff, hbefore, quiet_afterCheck]
  | false =>
  cases hafter : (hasInterruptingPendingSignal (sleep (hasInterruptingPendingSignal w).2)).1 with
  | true => grind [dropsAll_iff, quiet_afterCheck]
  | false => grind [dropsAll_iff.mpr]

/-- What ends `wait_for_object_event_interruptible`: a signal before it sleeps that will be
delivered, or one afterwards, or the mark of one. -/
def EndedByDelivery (w : Waiter ρ ξ) : Prop :=
  (¬ w.NonePending ∧ ¬ w.Quiet) ∨
    (w.NonePending ∧ (¬ (sleep (w.setWaitActive true)).Quiet ∨
      (sleep (w.setWaitActive true)).thread.interruptedBySignal = true))

/-- Signals that will not be delivered do not interrupt `wait_for_object_event_interruptible`. -/
def ObjectSpares (ready readyPrepared : Bool) (sleep : Waiter ρ ξ → Waiter ρ ξ) (w : Waiter ρ ξ) :
    Prop :=
  (waitForObjectEventInterruptible ready readyPrepared sleep w).1 = .error .interrupted →
    EndedByDelivery sleep w

/-- The object is ready, or before and after the thread sleeps there are no signals that will not be
delivered. -/
def ChecksFindNone (ready readyPrepared : Bool) (sleep : Waiter ρ ξ → Waiter ρ ξ)
    (w : Waiter ρ ξ) : Prop :=
  ready = true ∨ ((w.Quiet → w.NonePending) ∧
    (w.NonePending → readyPrepared = false →
      (sleep (w.setWaitActive true)).Quiet →
      (sleep (w.setWaitActive true)).thread.interruptedBySignal = false →
      (sleep (w.setWaitActive true)).NonePending))

/-- A wait for an object is not interrupted for nothing. -/
theorem object_spares_iff (ready readyPrepared : Bool) (sleep : Waiter ρ ξ → Waiter ρ ξ) :
    ObjectSpares ready readyPrepared sleep w ↔ ChecksFindNone ready readyPrepared sleep w := by
  unfold ObjectSpares ChecksFindNone waitForObjectEventInterruptible EndedByDelivery
    takeSignalInterrupt
  cases ready with
  | true => simp
  | false =>
  cases hbefore : hasPendingSignal w with
  | true => simp [nonePending_iff, hbefore]
  | false =>
  have hnone : w.NonePending := nonePending_iff.mpr hbefore
  cases readyPrepared with
  | true => simp [hnone]
  | false =>
  have hpending : hasPendingSignal { sleep (w.setWaitActive true) with
        thread := { (sleep (w.setWaitActive true)).thread with
          interruptedBySignal := false } } =
      hasPendingSignal (sleep (w.setWaitActive true)) := rfl
  cases hmark : (sleep (w.setWaitActive true)).thread.interruptedBySignal with
  | true => simp [hnone]
  | false =>
  cases hafter : hasPendingSignal (sleep (w.setWaitActive true)) with
  | true => grind [nonePending_iff]
  | false => grind [nonePending_iff.mpr]

/-- A signal that will not be delivered does not mark a thread as interrupted. -/
def MarkSpares (sleeping : Bool) (signal : Signal) (w : Waiter ρ ξ) : Prop :=
  threadBlocksSignalInner w.thread signal = true ∨ w.process.ignores signal = true →
    (wakeSpecificThreadForSignal sleeping w.thread signal).2.interruptedBySignal =
      w.thread.interruptedBySignal

/-- A signal that is ignored is blocked too, or the thread does not wait, or is marked already. -/
def IgnoredIsBlocked (sleeping : Bool) (signal : Signal) (w : Waiter ρ ξ) : Prop :=
  w.process.ignores signal = true → threadBlocksSignalInner w.thread signal = true ∨
    (sleeping || w.thread.interruptibleWaitActive) = false ∨ w.thread.interruptedBySignal = true

/-- A thread is not marked for nothing. -/
theorem mark_spares_iff (sleeping : Bool) (signal : Signal) :
    MarkSpares sleeping signal w ↔ IgnoredIsBlocked sleeping signal w := by
  unfold MarkSpares IgnoredIsBlocked wakeSpecificThreadForSignal
  grind

/-! ## Waiting for signals -/

variable {waitMask : Signals}

/-- When no signal is dequeued. -/
theorem dequeueWaitSignal_eq_none : dequeueWaitSignal waitMask w = none ↔
      ∀ signal : Signal, w.isPending signal = true → waitMask.contains signal = false := by
  have hfirst : ∀ pending : Pending, pending.firstIn waitMask = none ↔
      ∀ signal : Signal, pending.signals.contains signal = true →
        waitMask.contains signal = false := by
    grind [Pending.firstIn, Signal.mem_iter]
  have hboth : dequeueWaitSignal waitMask w = none ↔
      w.thread.pending.firstIn waitMask = none ∧ w.process.pending.firstIn waitMask = none := by
    unfold dequeueWaitSignal
    grind
  grind [isPending]

/-- When a wait ends for nothing. -/
theorem spurious_iff (hkept : (hasInterruptingPendingSignal w).1 = true) :
    w.Spurious waitMask ↔ dequeueWaitSignal waitMask (hasInterruptingPendingSignal w).2 = none ∧
      ¬ ∃ signal, (hasInterruptingPendingSignal w).2.isPending signal = true ∧
        threadBlocksSignalInner (hasInterruptingPendingSignal w).2.thread signal = false := by
  unfold Spurious
  rw [dequeueWaitSignal_eq_none]
  simp only [isPending_afterCheck, hasInterruptingPendingSignal_iff.mp hkept]
  have hthread : (hasInterruptingPendingSignal w).2.thread = w.thread := rfl
  grind

end

/-- The rounds of `RtSigtimedwait` do not come to a check that finds only blocked signals. -/
def AvoidsSpurious (waitMask : Signals) : List (Round ρ ξ) → Waiter ρ ξ → Prop
  | [], _ => True
  | round :: rounds, w =>
    (∃ signal, w.isPending signal = true ∧ waitMask.contains signal = true) ∨
      round.expired = true ∨
      (¬ w.Spurious waitMask ∧ (w.DropsAll →
        ¬ (round.sleep (hasInterruptingPendingSignal w).2).Spurious waitMask ∧
          ((round.sleep (hasInterruptingPendingSignal w).2).DropsAll →
            AvoidsSpurious waitMask rounds
              (hasInterruptingPendingSignal (round.sleep (hasInterruptingPendingSignal w).2)).2)))

/-- If `RtSigtimedwait` is interrupted, then by a signal that is not blocked. -/
def EndedByUnblocked
    (result : Option (Except WaitError (Signal × PendingSignalInfo) × Waiter ρ ξ)) : Prop :=
  ∀ w, result = some (.error .interrupted, w) →
    ∃ signal, w.isPending signal = true ∧ threadBlocksSignalInner w.thread signal = false

/-- `RtSigtimedwait` is ended by a blocked signal only if it comes to a check that finds nothing
else. -/
theorem timedwait_spares_iff (waitMask : Signals) : ∀ (rounds : List (Round ρ ξ)) (w : Waiter ρ ξ),
      EndedByUnblocked (rtSigtimedwait waitMask rounds w) ↔ AvoidsSpurious waitMask rounds w := by
  intro rounds
  induction rounds with
  | nil =>
    intro w
    exact ⟨fun _ => trivial, fun _ w' h => by cases h⟩
  | cons round rounds ih =>
  intro w
  -- The end of a round in which a check has found signals.
  have hended : ∀ v : Waiter ρ ξ, (hasInterruptingPendingSignal v).1 = true →
      (EndedByUnblocked (match dequeueWaitSignal waitMask (hasInterruptingPendingSignal v).2 with
          | some (signal, w) => some (.ok signal, w)
          | none => some (.error .interrupted, (hasInterruptingPendingSignal v).2)) ↔
        ¬ v.Spurious waitMask) := by
    intro v hkept
    rw [spurious_iff hkept]
    cases hdequeue : dequeueWaitSignal waitMask (hasInterruptingPendingSignal v).2 with
    | some result =>
      refine ⟨fun _ h => ?_, fun _ w' h => ?_⟩
      · cases h.1
      · cases h
    | none =>
      refine ⟨fun h hnot => hnot.2 (h _ rfl), fun h w' hw' => ?_⟩
      grind
  unfold rtSigtimedwait AvoidsSpurious
  cases hdequeue : dequeueWaitSignal waitMask w with
  | some result =>
    have hwaited : ∃ signal, w.isPending signal = true ∧ waitMask.contains signal = true := by
      grind [dequeueWaitSignal_eq_none.mpr]
    exact ⟨fun _ => .inl hwaited, fun _ w' h => by cases h⟩
  | none =>
  have hwaited : ¬ ∃ signal, w.isPending signal = true ∧ waitMask.contains signal = true := by
    grind [dequeueWaitSignal_eq_none.mp]
  cases hexpired : round.expired with
  | true => exact ⟨fun _ => .inr (.inl rfl), fun _ w' h => by cases h⟩
  | false =>
  simp only [hwaited]
  unfold blockCurrentWithSigCheck
  cases hbefore : (hasInterruptingPendingSignal w).1 with
  | true => grind [dropsAll_iff]
  | false =>
  have hdrops : w.DropsAll := dropsAll_iff.mpr hbefore
  have hclear : ¬ w.Spurious waitMask := by
    rintro ⟨⟨signal, hkept⟩, -⟩
    rw [hdrops signal] at hkept
    cases hkept
  simp only [hdrops]
  cases hafter : (hasInterruptingPendingSignal
      (round.sleep (hasInterruptingPendingSignal w).2)).1 with
  | true => grind [dropsAll_iff]
  | false =>
  have hdrops' : (round.sleep (hasInterruptingPendingSignal w).2).DropsAll :=
    dropsAll_iff.mpr hafter
  have hclear' : ¬ (round.sleep (hasInterruptingPendingSignal w).2).Spurious waitMask := by
    rintro ⟨⟨signal, hkept⟩, -⟩
    rw [hdrops' signal] at hkept
    cases hkept
  grind

/-- When the waits are not ended by signals that will not be delivered. -/
theorem waits_spare_blocked_iff (sleep : Waiter ρ ξ → Waiter ρ ξ) (w : Waiter ρ ξ) :
    (BlockSpares sleep w ↔ ChecksDropAll sleep w) ∧ (∀ ready readyPrepared,
      ObjectSpares ready readyPrepared sleep w ↔ ChecksFindNone ready readyPrepared sleep w) ∧
    (∀ sleeping signal, MarkSpares sleeping signal w ↔ IgnoredIsBlocked sleeping signal w) ∧
    ∀ waitMask rounds,
      EndedByUnblocked (rtSigtimedwait waitMask rounds w) ↔ AvoidsSpurious waitMask rounds w :=
  ⟨block_spares_iff sleep, fun ready readyPrepared => object_spares_iff ready readyPrepared sleep,
    fun sleeping signal => mark_spares_iff sleeping signal,
    fun waitMask rounds => timedwait_spares_iff waitMask rounds w⟩

/-- A thread that blocks `SIGUSR1`, which is pending. -/
def blockingWaiter : Waiter Unit Unit where
  process := {
    signalActions := fun _ => ⟨.default, .empty, 0, 0⟩
    pending := Pending.empty.queue .SIGUSR1 none
    dumpable := true
    rlimitCoreCur := 0
    exitStatus := none
    written := []
    frames := [] }
  thread := {
    snapshotState := .normal
    snapshot := ⟨0x1000, 0x7000, 0, 0, 0, (), (), 0⟩
    sigHandlerSnapshot := ⟨0, 0, 0, 0, 0, (), (), 0⟩
    sigaltstack := ⟨0, 2, 0⟩
    blockedSignals := .ofSignal .SIGUSR1
    savedBlockedSignals := []
    temporaryBlockedSignals := none
    interruptibleWaitActive := false
    interruptedBySignal := false
    pending := .empty }

/-- The blocked signal ends all three waits, also the wait for `SIGUSR2`. -/
theorem blocked_signal_interrupts : (∀ signal, blockingWaiter.isPending signal = true →
      threadBlocksSignalInner blockingWaiter.thread signal = true) ∧
    (blockCurrentWithSigCheck id blockingWaiter).1 = .error .interrupted ∧
    (waitForObjectEventInterruptible false false id blockingWaiter).1 = .error .interrupted ∧
    (rtSigtimedwait (.ofSignal .SIGUSR2) [⟨false, id⟩] blockingWaiter).map Prod.fst =
      some (.error .interrupted) := by
  refine ⟨?_, by decide, by decide, by decide⟩
  intro signal
  cases signal <;> decide

end Seele.Signalling
