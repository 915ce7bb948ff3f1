import Seele.Lib.GuardedRun
import Seele.Signalling.Delivery

/-!
# Handlers nest like a stack

`Stack` is what a program may expect: a delivery puts the context it interrupts and the mask of the
thread on a stack and starts the handler with more signals blocked; `rt_sigreturn` takes both from
the stack again; a signal is delivered only if the mask of the moment lets it through. `Nested` says
that the kernel and the stack agree on the context that the program goes on with and on its mask.

The kernel keeps the masks on a stack too, but has a single slot for the context of a handler, and
`rt_sigreturn` always goes back to the context of the program. It also reads the mask only once for
all signals that are pending. So the two agree as long as a call delivers at most one signal with a
handler, to a thread that is not in a handler, and no signal after it that the handler blocks
(`handlers_nest`). Otherwise contexts are lost (`contexts_lost`).
-/

namespace Seele.Signalling

open Lib Thread Signal SignalAction Option

variable {ρ ξ : Type}

/-! ## The stack of a program -/

/-- What a delivery has interrupted. -/
structure Frame (ρ ξ : Type) where
  signal : Signal
  context : ThreadSnapshot ρ ξ
  mask : Signals
deriving DecidableEq, Repr

/-- The context that runs, its mask, the mask of a wait, and what has been interrupted. -/
structure Stack (ρ ξ : Type) where
  current : ThreadSnapshot ρ ξ
  mask : Signals
  temporary : Option Signals
  frames : List (Frame ρ ξ)
deriving DecidableEq, Repr
open Stack

/-- A signal that has been removed from a pending set, with the signals that its handler blocks and
the context that the handler starts in, if it has a handler. -/
structure Delivery (ρ ξ : Type) where
  signal : Signal
  blocks : Signals
  handler : Option (ThreadSnapshot ρ ξ)
deriving DecidableEq, Repr

namespace Stack

variable (stack : Stack ρ ξ)

/-- The mask of the moment. -/
def effective : Signals := stack.temporary.getD stack.mask

/-- The signal may be delivered. -/
def allows (signal : Signal) : Bool :=
  signal.isUnblockable || !stack.effective.contains signal

/-- A delivery. -/
def deliver (delivery : Delivery ρ ξ) : Option (Stack ρ ξ) :=
  if stack.allows delivery.signal then
    match delivery.handler with
    | none => some stack
    | some context =>
      some ⟨context, stack.mask.insert delivery.blocks, none,
        ⟨delivery.signal, stack.current, stack.mask⟩ :: stack.frames⟩
  else none

/-- A return. -/
def sigreturn : Stack ρ ξ :=
  match stack.frames with
  | [] => { stack with temporary := none }
  | frame :: frames => ⟨frame.context, frame.mask, none, frames⟩

/-- The mask below all handlers. -/
def baseMask : Signals :=
  match stack.frames.getLast? with
  | none => stack.mask
  | some frame => frame.mask

end Stack

/-! ## Runs -/

/-- The signals that a handler blocks, its own included. -/
def SignalAction.blocks (action : SignalAction) (signal : Signal) : Signals :=
  action.sigHandlerIgnoredSigs.insert signal

/-- The process and the thread. `wait` is the mask that a call of `with_temporary_signal_mask` has
found. -/
structure State (ρ ξ : Type) where
  process : Process
  thread : Thread ρ ξ
  wait : Option Signals

/-- `SigMaskHow`. -/
inductive SigMaskHow where
  | block
  | unblock
  | setMask
deriving DecidableEq, Repr

/-- The steps. `run` is the program, which leaves other values in its registers. -/
inductive Op (ρ ξ : Type) where
  | run (registers : ThreadSnapshot ρ ξ)
  | queueSignal (signal : Signal) (siginfo : Option PendingSignalInfo)
  | queueSignalToThread (signal : Signal) (siginfo : Option PendingSignalInfo)
  | rtSigaction (signal : Signal) (action : SignalAction)
  | rtSigprocmask (how : SigMaskHow) (set : Signals)
  | setWaitActive (active : Bool)
  | beginWait (newMask : Signals)
  | endWait (interrupted : Bool)
  | processSignals
  | rtSigreturn

/-- The registers of the context that runs are saved. -/
def Thread.saveRegisters (thread : Thread ρ ξ) (registers : ThreadSnapshot ρ ξ) : Thread ρ ξ :=
  match thread.snapshotState with
  | .normal => { thread with snapshot := registers }
  | .signalHandler => { thread with sigHandlerSnapshot := registers }

/-- The new mask of `RtSigprocmask`. -/
def SigMaskHow.apply (how : SigMaskHow) (set mask : Signals) : Signals :=
  let unmaskable := (Signals.ofSignal .SIGKILL).insert Signal.SIGSTOP
  match how with
  | .block => mask.insert (set.remove unmaskable)
  | .unblock => mask.remove set
  | .setMask => set.remove unmaskable

/-- The first part of `with_temporary_signal_mask`. -/
def State.beginWait (s : State ρ ξ) (newMask : Signals) : State ρ ξ :=
  let oldMask :=
    match s.thread.snapshotState, s.thread.savedBlockedSignals with
    | .signalHandler, mask :: _ => mask
    | _, _ => s.thread.blockedSignals
  { s with
    thread := { s.thread with
      blockedSignals := newMask
      temporaryBlockedSignals := some (oldMask, newMask) }
    wait := some oldMask }

/-- `has_temporary_unblocked_pending_signal_handlers`. -/
def hasTemporaryUnblockedPendingSignalHandlers (process : Process) (thread : Thread ρ ξ) : Bool :=
  match thread.temporaryBlockedSignals with
  | none => false
  | some (oldMask, newMask) => iter.any fun signal =>
    (thread.pending.signals.insert process.pending.signals).contains signal &&
      (oldMask.remove newMask).contains signal && (process.signalActions signal).isHandler

/-- The mask of a wait stays in place for the handlers that end it. -/
def State.keepsMask (s : State ρ ξ) (interrupted : Bool) : Bool :=
  interrupted && hasTemporaryUnblockedPendingSignalHandlers s.process s.thread

/-- The last part of `with_temporary_signal_mask`. -/
def State.endWait (s : State ρ ξ) (interrupted : Bool) : State ρ ξ :=
  match s.wait with
  | none => s
  | some oldMask =>
    if s.keepsMask interrupted then { s with wait := none }
    else
      { s with
        thread := { s.thread with
          temporaryBlockedSignals := none
          savedBlockedSignals :=
            match s.thread.snapshotState, s.thread.savedBlockedSignals with
            | .signalHandler, _ :: saved => oldMask :: saved
            | _, saved => saved
          blockedSignals := oldMask }
        wait := none }

section

variable [Inhabited ρ] (userFrame : ℕ → UInt64 × UInt64)

/-- The deliveries of `process_pending_signals`. -/
def Pass.deliveries (blockedSignals : Signals) : List Signal → Pass ρ ξ → List (Delivery ρ ξ)
  | [], _ => []
  | signal :: signals, pass =>
    match pass.visit userFrame blockedSignals signal with
    | none => []
    | some next =>
      if deliverable pass.pending.signals blockedSignals signal then
        let action := pass.process.signalActions signal
        ⟨signal, action.blocks signal,
          if action.isHandler then some next.thread.sigHandlerSnapshot else none⟩ ::
          next.deliveries blockedSignals signals
      else next.deliveries blockedSignals signals

/-- The first pass of `process_current_process_signals`. -/
def threadPass (process : Process) (thread : Thread ρ ξ) : Pass ρ ξ :=
  ⟨process, (takePending thread).2, thread.pending, .default⟩

/-- The second pass, after the first. -/
def processPass (pass : Pass ρ ξ) : Pass ρ ξ :=
  { pass with process := { pass.process with pending := .empty }, pending := pass.process.pending }

/-- The deliveries of `process_current_process_signals`. -/
def deliveries (process : Process) (thread : Thread ρ ξ) : List (Delivery ρ ξ) :=
  if interruptsWait process thread then []
  else
    (threadPass process thread).deliveries userFrame thread.blockedSignals iter ++
      match processPendingSignals userFrame thread.blockedSignals (threadPass process thread) with
      | none => []
      | some pass => (processPass pass).deliveries userFrame thread.blockedSignals iter

variable (op : Op ρ ξ)

/-- A step of the kernel. -/
def State.exec (s : State ρ ξ) : Option (State ρ ξ) :=
  match op with
  | .run registers => some { s with thread := s.thread.saveRegisters registers }
  | .queueSignal signal siginfo =>
    if signal = .SIGCONT then some s
    else some { s with
      process := { s.process with pending := s.process.pending.queue signal siginfo } }
  | .queueSignalToThread signal siginfo => some { s with
      thread := { s.thread with pending := s.thread.pending.queue signal siginfo } }
  | .rtSigaction signal action => some { s with
      process := { s.process with
        signalActions := Function.update s.process.signalActions signal action } }
  | .rtSigprocmask how set => some { s with
      thread := { s.thread with blockedSignals := how.apply set s.thread.blockedSignals } }
  | .setWaitActive active => some { s with
      thread := { s.thread with interruptibleWaitActive := active } }
  | .beginWait newMask => some (s.beginWait newMask)
  | .endWait interrupted => some (s.endWait interrupted)
  | .processSignals => do
    let (_, process, thread) ← processCurrentProcessSignals userFrame s.process s.thread
    return { s with process := process, thread := thread }
  | .rtSigreturn => some { s with thread := s.thread.rtSigreturn }

/-- What a step is for the stack. There is none any more once a signal has been delivered that the
mask does not let through. -/
def Stack.follow (s : State ρ ξ) (stack : Stack ρ ξ) : Option (Stack ρ ξ) :=
  match op with
  | .run registers => some { stack with current := registers }
  | .queueSignal _ _ | .queueSignalToThread _ _ | .rtSigaction _ _ | .setWaitActive _ => some stack
  | .rtSigprocmask how set => some { stack with mask := how.apply set stack.mask }
  | .beginWait newMask => some { stack with temporary := some newMask }
  | .endWait interrupted =>
    if s.wait.isNone || s.keepsMask interrupted then some stack
    else some { stack with temporary := none }
  | .processSignals => (deliveries userFrame s.process s.thread).foldlM deliver stack
  | .rtSigreturn => some stack.sigreturn

/-- The signals that have disappeared from a pending set. -/
def removedFrom (pending pending' : Signals) : List Signal :=
  iter.filter fun signal => pending.contains signal && !pending'.contains signal

/-- The signals that a step has removed from the pending sets of the thread and of the process. -/
def removedSignals (s s' : State ρ ξ) : List Signal :=
  removedFrom s.thread.pending.signals s'.thread.pending.signals ++
    removedFrom s.process.pending.signals s'.process.pending.signals

/-- The signals that a step delivers. -/
def deliveredSignals (s : State ρ ξ) : List Signal :=
  match op with
  | .processSignals => (deliveries userFrame s.process s.thread).map Delivery.signal
  | _ => []

/-- A state of the kernel and the stack that goes with it, with the signals that have been removed
from pending sets and those that have been delivered so far. -/
structure Run (ρ ξ : Type) where
  state : State ρ ξ
  stack : Option (Stack ρ ξ)
  removed : List Signal
  delivered : List Signal

/-- The kernel and the stack take a step. -/
def Run.exec (run : Run ρ ξ) : Option (Run ρ ξ) := do
  let state ← run.state.exec userFrame op
  return {
    state := state
    stack := run.stack.bind (follow userFrame op run.state)
    removed := run.removed ++ removedSignals run.state state
    delivered := run.delivered ++ deliveredSignals userFrame op run.state }

end

/-- Every signal that has been removed has been delivered once, and the kernel goes on with the
context and the mask that the stack has. -/
def Nested (run : Run ρ ξ) : Prop :=
  run.removed = run.delivered ∧ ∃ stack, run.stack = some stack ∧
    run.state.thread.getAppropriateSnapshot = stack.current ∧
    run.state.thread.blockedSignals = stack.effective

/-- A thread in its program, without a wait. -/
structure Fresh (s : State ρ ξ) : Prop where
  normal : s.thread.snapshotState = .normal
  saved : s.thread.savedBlockedSignals = []
  temporary : s.thread.temporaryBlockedSignals = none
  wait : s.wait = none

/-- The stack of a thread in its program. -/
def Run.start (s : State ρ ξ) : Run ρ ξ :=
  ⟨s, some ⟨s.thread.snapshot, s.thread.blockedSignals, none, []⟩, [], []⟩

/-! ## The condition -/

/-- Of the signals to be delivered at most one has a handler; the thread is not in a handler then,
and no signal after it is blocked by the handler or by the mask of the thread. -/
def AtMostOneHandler (actions : Signal → SignalAction) (state : SnapshotState) (mask : Signals) :
    List Signal → Prop
  | [] => True
  | signal :: signals =>
    if (actions signal).isHandler then
      state = .normal ∧ ∀ later ∈ signals, (actions later).isHandler = false ∧
        (later.isUnblockable ||
          !(mask.insert ((actions signal).blocks signal)).contains later) = true
    else AtMostOneHandler actions state mask signals

instance AtMostOneHandler.decidable (actions : Signal → SignalAction) (state : SnapshotState)
    (mask : Signals) : ∀ signals, Decidable (AtMostOneHandler actions state mask signals)
  | [] => .isTrue trivial
  | signal :: signals =>
    have := AtMostOneHandler.decidable actions state mask signals
    inferInstanceAs (Decidable (if (actions signal).isHandler then _ ∧ _ else _))

/-- The mask of the thread outside of a wait. -/
def Thread.mask (thread : Thread ρ ξ) : Signals :=
  match thread.temporaryBlockedSignals with
  | some (oldMask, _) => oldMask
  | none => thread.blockedSignals

/-- The signals that a call delivers from a pending set. -/
def deliverables (pending blockedSignals : Signals) : List Signal :=
  iter.filter (deliverable pending blockedSignals)

/-- The condition on a step. -/
def Safe (op : Op ρ ξ) (run : Run ρ ξ) : Prop :=
  let s := run.state
  match op with
  | .processSignals =>
    interruptsWait s.process s.thread = true ∨
      AtMostOneHandler s.process.signalActions s.thread.snapshotState s.thread.mask
        (deliverables s.thread.pending.signals s.thread.blockedSignals ++
          deliverables s.process.pending.signals s.thread.blockedSignals)
  | .beginWait _ =>
    s.thread.snapshotState = .normal ∧ s.thread.temporaryBlockedSignals = none ∧ s.wait = none
  | .endWait _ => s.wait = none ∨ s.thread.snapshotState = .normal
  | .rtSigprocmask _ _ => s.thread.temporaryBlockedSignals = none ∧ s.wait = none
  | _ => True

instance (op : Op ρ ξ) (run : Run ρ ξ) : Decidable (Safe op run) :=
  match op with
  | .processSignals => inferInstanceAs (Decidable (_ = true ∨ AtMostOneHandler _ _ _ _))
  | .beginWait _ => inferInstanceAs (Decidable (_ = _ ∧ _ = none ∧ _ = none))
  | .endWait _ => inferInstanceAs (Decidable (_ = none ∨ _ = _))
  | .rtSigprocmask _ _ => inferInstanceAs (Decidable (_ = none ∧ _ = none))
  | .run _ | .queueSignal _ _ | .queueSignalToThread _ _ | .rtSigaction _ _ | .setWaitActive _
  | .rtSigreturn => .isTrue trivial

/-! ## The kernel follows the stack -/

/-- How the thread holds the stack: without a handler, or with one handler, whose frame is spread
over the snapshot of the program and the saved masks. -/
structure Follows (thread : Thread ρ ξ) (stack : Stack ρ ξ) : Prop where
  mask : thread.blockedSignals = stack.effective
  temporary : thread.temporaryBlockedSignals = stack.temporary.map fun new => (stack.mask, new)
  frames :
    (stack.frames = [] ∧ thread.snapshotState = .normal ∧ thread.snapshot = stack.current ∧
      thread.savedBlockedSignals = []) ∨
    ∃ frame, stack.frames = [frame] ∧ thread.snapshotState = .signalHandler ∧
      thread.sigHandlerSnapshot = stack.current ∧ thread.snapshot = frame.context ∧
      thread.savedBlockedSignals = [frame.mask] ∧ stack.temporary = none

namespace Follows

variable {thread : Thread ρ ξ} {stack : Stack ρ ξ} (h : Follows thread stack)

include h

/-- Both have the same context. -/
theorem current : thread.getAppropriateSnapshot = stack.current := by
  grind [getAppropriateSnapshot, h.frames]

/-- Both block the same signals. -/
theorem mask_eq : thread.mask = stack.mask := by
  unfold Thread.mask
  rw [h.temporary, h.mask]
  unfold effective
  cases stack.temporary with
  | none => rfl
  | some new => rfl

/-- Outside of a handler the stack is empty. -/
theorem frames_nil (hnormal : thread.snapshotState = .normal) :
    stack.frames = [] ∧ thread.snapshot = stack.current ∧ thread.savedBlockedSignals = [] := by
  grind [h.frames]

/-- Only these fields count. -/
theorem congr {thread' : Thread ρ ξ} (hmask : thread'.blockedSignals = thread.blockedSignals)
    (htemporary : thread'.temporaryBlockedSignals = thread.temporaryBlockedSignals)
    (hsaved : thread'.savedBlockedSignals = thread.savedBlockedSignals)
    (hstate : thread'.snapshotState = thread.snapshotState)
    (hsnapshot : thread'.snapshot = thread.snapshot)
    (hhandler : thread'.sigHandlerSnapshot = thread.sigHandlerSnapshot) :
    Follows thread' stack := by
  refine ⟨hmask.trans h.mask, htemporary.trans h.temporary, ?_⟩
  rw [hsaved, hstate, hsnapshot, hhandler]
  exact h.frames

/-- The registers are saved on both sides. -/
theorem saveRegisters (registers : ThreadSnapshot ρ ξ) :
    Follows (thread.saveRegisters registers) { stack with current := registers } := by
  unfold Thread.saveRegisters
  rcases h.frames with ⟨hframes, hstate, -, hsaved⟩ | ⟨frame, hframes, hstate, -, hsnapshot, hrest⟩
  · rw [hstate]
    exact ⟨h.mask, h.temporary, .inl ⟨hframes, rfl, rfl, hsaved⟩⟩
  · rw [hstate]
    exact ⟨h.mask, h.temporary, .inr ⟨frame, hframes, rfl, rfl, hsnapshot, hrest⟩⟩

/-- A handler is entered on both sides. -/
theorem enter (hnormal : thread.snapshotState = .normal)
    (action : SignalAction) (signal : Signal) (context : ThreadSnapshot ρ ξ) :
    Follows (((thread.restoreTemporaryBlockedSignals.2).blockSignalsForHandler
        action.sigHandlerIgnoredSigs signal
        thread.restoreTemporaryBlockedSignals.1).enterSignalHandler context)
      ⟨context, stack.mask.insert (action.blocks signal), none,
        ⟨signal, stack.current, stack.mask⟩ :: stack.frames⟩ := by
  obtain ⟨hframes, hsnapshot, hsaved⟩ := h.frames_nil hnormal
  have hmask := h.mask_eq
  unfold Thread.mask at hmask
  unfold Thread.restoreTemporaryBlockedSignals
  cases htemporary : thread.temporaryBlockedSignals with
  | none | some masks =>
  rw [htemporary] at hmask
  dsimp only at hmask
  refine ⟨?_, ?_, .inr ⟨⟨signal, stack.current, stack.mask⟩, ?_, rfl, rfl, hsnapshot, ?_, rfl⟩⟩
  · exact congrArg (fun mask : Signals => mask.insert (action.blocks signal)) hmask
  · first | exact htemporary | rfl
  · rw [hframes]
  · change _ :: _ = _
    rw [hsaved, hmask]

/-- A handler returns on both sides. -/
theorem rtSigreturn : Follows thread.rtSigreturn stack.sigreturn := by
  unfold Thread.rtSigreturn sigreturn
  rcases h.frames with ⟨hframes, hstate, hsnapshot, hsaved⟩ |
    ⟨frame, hframes, hstate, hhandler, hsnapshot, hsaved, hnone⟩
  · rw [hframes]
    have hmask := h.mask_eq
    unfold Thread.mask at hmask
    cases htemporary : thread.temporaryBlockedSignals with
    | none | some masks =>
      rw [htemporary] at hmask
      rw [hsaved]
      exact ⟨hmask, rfl, .inl ⟨rfl, rfl, hsnapshot, rfl⟩⟩
  rw [hframes]
  have htemporary := h.temporary
  rw [hnone] at htemporary
  rw [htemporary, hsaved]
  exact ⟨rfl, rfl, .inl ⟨rfl, rfl, hsnapshot, rfl⟩⟩

omit h

end Follows

section

variable {stack : Stack ρ ξ} {s : State ρ ξ} {signal : Signal} {blockedSignals : Signals}

/-! ## Waits -/

/-- A delivery keeps the mask below the handlers. -/
theorem deliver_baseMask {stack' : Stack ρ ξ} {delivery : Delivery ρ ξ}
    (h : stack.deliver delivery = some stack') : stack'.baseMask = stack.baseMask := by
  grind [deliver, baseMask]

/-- Several deliveries keep it. -/
theorem foldlM_deliver_baseMask : ∀ {deliveries : List (Delivery ρ ξ)} {stack stack' : Stack ρ ξ},
    deliveries.foldlM deliver stack = some stack' → stack'.baseMask = stack.baseMask := by
  intro deliveries
  induction deliveries with
  | nil => simp
  | cons delivery deliveries ih =>
    intro stack stack' h
    obtain ⟨next, hnext, h⟩ := bind_eq_some_iff.mp h
    exact (ih h).trans (deliver_baseMask hnext)

/-- A return keeps it. -/
theorem sigreturn_baseMask : stack.sigreturn.baseMask = stack.baseMask := by
  unfold sigreturn baseMask
  grind

/-- The invariant of safe runs. -/
structure Invariant (s : State ρ ξ) (stack : Stack ρ ξ) : Prop where
  follows : Follows s.thread stack
  wait : ∀ oldMask, s.wait = some oldMask → stack.baseMask = oldMask

/-- A wait begins on both sides. -/
theorem Invariant.beginWait (h : Invariant s stack) (hnormal : s.thread.snapshotState = .normal)
    (htemporary : s.thread.temporaryBlockedSignals = none) (newMask : Signals) :
    Invariant (s.beginWait newMask) { stack with temporary := some newMask } := by
  obtain ⟨hframes, hsnapshot, hsaved⟩ := h.follows.frames_nil hnormal
  have hmask := h.follows.mask_eq
  unfold Thread.mask at hmask
  rw [htemporary] at hmask
  dsimp only at hmask
  unfold State.beginWait
  simp only [hnormal]
  refine ⟨⟨rfl, ?_, .inl ⟨hframes, rfl, hsnapshot, hsaved⟩⟩, fun oldMask hold => ?_⟩
  · rw [hmask]
    rfl
  · grind [baseMask]

/-- A wait ends on both sides. -/
theorem Invariant.endWait (h : Invariant s stack)
    (hnormal : s.wait = none ∨ s.thread.snapshotState = .normal) (interrupted : Bool) :
    Invariant (s.endWait interrupted) (if s.wait.isNone || s.keepsMask interrupted then stack
        else { stack with temporary := none }) := by
  unfold State.endWait
  cases hwait : s.wait with
  | none => exact ⟨h.follows, fun oldMask hold => by rw [hwait] at hold; cases hold⟩
  | some oldMask =>
  cases hkeeps : s.keepsMask interrupted with
  | true => exact ⟨h.follows, nofun⟩
  | false =>
  have hnormal' := hnormal.resolve_left (by rw [hwait]; exact some_ne_none oldMask)
  obtain ⟨hframes, hsnapshot, hsaved⟩ := h.follows.frames_nil hnormal'
  -- Without frames the mask of the program is the one that the wait has found.
  have hold := h.wait oldMask hwait
  unfold baseMask at hold
  rw [hframes] at hold
  simp only [hnormal']
  exact ⟨⟨hold.symm, rfl, .inl ⟨hframes, rfl, hsnapshot, hsaved⟩⟩, nofun⟩

/-! ## Removed signals -/

/-- Nothing has been removed. -/
theorem removedFrom_self (pending : Signals) : removedFrom pending pending = [] := by
  refine List.filter_eq_nil_iff.mpr fun signal _ => ?_
  simp

/-- Queueing removes nothing. -/
theorem removedFrom_queue (pending : Pending) (siginfo : Option PendingSignalInfo) :
    removedFrom pending.signals (pending.queue signal siginfo).signals = [] := by
  refine List.filter_eq_nil_iff.mpr fun other _ => ?_
  grind [Pending.queue, Signals.contains_insert]

/-! ## A pass -/

/-- What a pass does to the thread for a signal that it has removed. -/
inductive ActsOn (action : SignalAction) (signal : Signal) (thread : Thread ρ ξ) :
    Thread ρ ξ → Prop
  | quiet : action.isHandler = false → ActsOn action signal thread thread
  | enters (context : ThreadSnapshot ρ ξ) : action.isHandler = true →
    ActsOn action signal thread
      (((thread.restoreTemporaryBlockedSignals.2).blockSignalsForHandler
        action.sigHandlerIgnoredSigs signal
        thread.restoreTemporaryBlockedSignals.1).enterSignalHandler context)

/-- The signals that are still to be delivered in a call: either no handler has been entered, or one
has and none of the signals has a handler or is blocked. -/
def Prepared (actions : Signal → SignalAction) (blockedSignals : Signals) (thread : Thread ρ ξ)
    (stack : Stack ρ ξ) (signals : List Signal) : Prop :=
  (stack.effective = blockedSignals ∧
    AtMostOneHandler actions thread.snapshotState stack.mask signals ∧
    ∀ signal ∈ signals, (signal.isUnblockable || !blockedSignals.contains signal) = true) ∨
  ∀ signal ∈ signals, (actions signal).isHandler = false ∧ stack.allows signal = true

/-- After one delivery the rest can be delivered. -/
theorem Prepared.deliver {actions : Signal → SignalAction} {thread next : Thread ρ ξ}
    {signals : List Signal} (h : Prepared actions blockedSignals thread stack (signal :: signals))
    (hfollows : Follows thread stack) (hacts : ActsOn (actions signal) signal thread next) :
    ∃ stack', stack.deliver ⟨signal, (actions signal).blocks signal,
        if (actions signal).isHandler then some next.sigHandlerSnapshot else none⟩ = some stack' ∧
      Follows next stack' ∧ Prepared actions blockedSignals next stack' signals := by
  have hallows : stack.allows signal = true := by
    rcases h with ⟨heffective, -, hall⟩ | hall
    · grind [allows]
    · exact (hall signal List.mem_cons_self).2
  unfold Stack.deliver
  rw [if_pos hallows]
  cases hacts with
  | quiet hquiet =>
    rw [hquiet]
    refine ⟨stack, rfl, hfollows, ?_⟩
    rcases h with ⟨heffective, hone, hall⟩ | hall
    · refine .inl ⟨heffective, ?_, fun later hlater => hall later (List.mem_cons_of_mem _ hlater)⟩
      grind [AtMostOneHandler]
    · exact .inr fun later hlater => hall later (List.mem_cons_of_mem _ hlater)
  | enters context hhandler =>
  rw [hhandler]
  rcases h with ⟨-, hone, -⟩ | hall
  · unfold AtMostOneHandler at hone
    rw [if_pos hhandler] at hone
    obtain ⟨hnormal, hlater⟩ := hone
    exact ⟨_, rfl, hfollows.enter hnormal (actions signal) signal context, .inr hlater⟩
  · grind

variable [Inhabited ρ] {userFrame : ℕ → UInt64 × UInt64}

/-- What an action leaves: the actions and the pending set of the process, and the pending set of
the pass. -/
structure Keeps (pass next : Pass ρ ξ) : Prop where
  actions : next.process.signalActions = pass.process.signalActions
  processPending : next.process.pending = pass.process.pending
  pending : next.pending = pass.pending

variable {pass next : Pass ρ ξ}

/-- What entering a handler does. -/
theorem enter_spec {action : SignalAction} {func rsi rdx : UInt64}
    (hhandler : action.isHandler = true)
    (hrun : pass.enter action signal func rsi rdx = some next) :
    Keeps pass next ∧ ActsOn action signal pass.thread next.thread := by
  obtain ⟨handlerStack, -, hrun⟩ := bind_eq_some_iff.mp hrun
  cases hrun
  exact ⟨⟨rfl, rfl, rfl⟩, .enters _ hhandler⟩

/-- What acting on a signal does. -/
theorem act_spec {siginfo : PendingSignalInfo}
    (hrun : pass.act userFrame signal siginfo = some next) : Keeps pass next ∧
      ActsOn (pass.process.signalActions signal) signal pass.thread next.thread := by
  unfold Pass.act at hrun
  cases htype : (pass.process.signalActions signal).handlingType with
  | default =>
    have hhandler : (pass.process.signalActions signal).isHandler = false := by
      simp [isHandler, htype]
    simp only [htype] at hrun
    obtain ⟨⟨result, process⟩, hdefault, hrun⟩ := bind_eq_some_iff.mp hrun
    cases hrun
    -- A default action changes at most the status of the process.
    have hprocess : process.signalActions = pass.process.signalActions ∧
        process.pending = pass.process.pending := by
      unfold Process.defaultSignalAction Process.terminateInner at hdefault
      split at hdefault
      · grind
      split at hdefault
      all_goals first
        | (obtain ⟨-, rfl⟩ := Prod.mk.inj (some.inj hdefault)
           exact ⟨rfl, rfl⟩)
        | cases hdefault
    exact ⟨⟨hprocess.1, hprocess.2, rfl⟩, .quiet hhandler⟩
  | ignore =>
    have hhandler : (pass.process.signalActions signal).isHandler = false := by
      simp [isHandler, htype]
    simp only [htype] at hrun
    cases hrun
    exact ⟨⟨rfl, rfl, rfl⟩, .quiet hhandler⟩
  | function1 func => grind [isHandler, enter_spec]
  | function2 func =>
  have hhandler : (pass.process.signalActions signal).isHandler = true := by simp [isHandler, htype]
  simp only [htype] at hrun
  obtain ⟨⟨hactions, hpending, hleft⟩, hacts⟩ := enter_spec hhandler hrun
  exact ⟨⟨hactions, hpending, hleft⟩, hacts⟩

/-- A signal that is not deliverable is passed over. -/
theorem visit_of_not (hnot : deliverable pass.pending.signals blockedSignals signal = false) :
    pass.visit userFrame blockedSignals signal = some pass := by
  unfold Pass.visit
  rw [hnot]
  rfl

/-- A deliverable signal is taken and acted on. -/
theorem visit_spec (hdeliver : deliverable pass.pending.signals blockedSignals signal = true)
    (hrun : pass.visit userFrame blockedSignals signal = some next) :
    next.process.signalActions = pass.process.signalActions ∧
      next.process.pending = pass.process.pending ∧
      next.pending.signals = pass.pending.signals.remove signal ∧
      ActsOn (pass.process.signalActions signal) signal pass.thread next.thread := by
  unfold Pass.visit at hrun
  rw [hdeliver] at hrun
  obtain ⟨⟨hactions, hprocess, hpending⟩, hacts⟩ := act_spec hrun
  refine ⟨hactions, hprocess, ?_, hacts⟩
  rw [hpending]

variable {pending : Signals}

/-- The other signals stay deliverable. -/
theorem deliverable_remove {other : Signal} (hne : other ≠ signal) :
    deliverable (pending.remove signal) blockedSignals other =
      deliverable pending blockedSignals other := by
  simp [hne.symm, deliverable]

/-! ## A call -/

/-- A pass does what the stack does. -/
theorem pass_follows {later : List Signal} :
    ∀ {signals : List Signal} {pass next : Pass ρ ξ} {stack : Stack ρ ξ}, signals.Nodup →
      signals.foldlM (Pass.visit userFrame blockedSignals) pass = some next →
      Follows pass.thread stack →
      Prepared pass.process.signalActions blockedSignals pass.thread stack
        (signals.filter (deliverable pass.pending.signals blockedSignals) ++ later) →
      ∃ stack', (pass.deliveries userFrame blockedSignals signals).foldlM deliver stack =
          some stack' ∧
        Follows next.thread stack' ∧
        next.process.signalActions = pass.process.signalActions ∧
        next.process.pending = pass.process.pending ∧
        Prepared next.process.signalActions blockedSignals next.thread stack' later := by
  intro signals
  induction signals with
  | nil =>
    intro pass next stack _ hrun hfollows hprepared
    cases hrun
    exact ⟨stack, rfl, hfollows, rfl, rfl, hprepared⟩
  | cons signal signals ih =>
  intro pass next stack hnodup hrun hfollows hprepared
  obtain ⟨hnew, hnodup⟩ := List.nodup_cons.mp hnodup
  obtain ⟨pass', hvisit, hrun⟩ := bind_eq_some_iff.mp hrun
  unfold Pass.deliveries
  cases hdeliver : deliverable pass.pending.signals blockedSignals signal with
  | false => grind [visit_of_not]
  | true =>
  obtain ⟨hactions, hprocess, hpending, hacts⟩ := visit_spec hdeliver hvisit
  rw [List.filter_cons, hdeliver] at hprepared
  obtain ⟨stack', hdelivered, hfollows', hprepared'⟩ := hprepared.deliver hfollows hacts
  have hrest : signals.filter (deliverable pass'.pending.signals blockedSignals) =
      signals.filter (deliverable pass.pending.signals blockedSignals) := by
    grind [List.filter_congr, deliverable_remove]
  rw [← hactions] at hprepared'
  obtain ⟨stack'', hrun', hfollows'', hactions', hprocess', hprepared''⟩ :=
    ih hnodup hrun hfollows' (by rw [hrest]; exact hprepared')
  grind

/-- What is deliverable is not blocked, or cannot be. -/
theorem of_mem_deliverables (hmem : signal ∈ deliverables pending blockedSignals) :
    (signal.isUnblockable || !blockedSignals.contains signal) = true := by
  have hdeliver := (List.mem_filter.mp hmem).2
  exact (Bool.and_eq_true_iff.mp hdeliver).2

variable {result : ProcessSignalsResult} {process process' : Process}

/-- The call does what the stack does. -/
theorem processCurrentProcessSignals_follows {thread thread' : Thread ρ ξ}
    (hrun : processCurrentProcessSignals userFrame process thread =
      some (result, process', thread')) (hfollows : Follows thread stack)
    (hsafe : interruptsWait process thread = true ∨
      AtMostOneHandler process.signalActions thread.snapshotState thread.mask
        (deliverables thread.pending.signals thread.blockedSignals ++
          deliverables process.pending.signals thread.blockedSignals)) :
    ∃ stack', (deliveries userFrame process thread).foldlM deliver stack = some stack' ∧
      Follows thread' stack' := by
  unfold processCurrentProcessSignals at hrun
  unfold deliveries
  split_ifs at hrun ⊢ with hwait
  · cases hrun
    exact ⟨stack, rfl, hfollows.congr rfl rfl rfl rfl rfl rfl⟩
  have hone := hsafe.resolve_left hwait
  rw [hfollows.mask_eq] at hone
  obtain ⟨⟨pass, left⟩, hact, hrun⟩ := bind_eq_some_iff.mp hrun
  cases hrun
  obtain ⟨first, hfirst, hact⟩ := bind_eq_some_iff.mp hact
  obtain ⟨second, hsecond, hact⟩ := bind_eq_some_iff.mp hact
  cases hact
  -- Both passes are prepared by the condition, with the signals of both pending sets.
  have hprepared : Prepared process.signalActions thread.blockedSignals
      (threadPass process thread).thread stack
      (deliverables thread.pending.signals thread.blockedSignals ++
        deliverables process.pending.signals thread.blockedSignals) := by
    refine .inl ⟨hfollows.mask.symm, hone, fun signal hmem => ?_⟩
    grind [of_mem_deliverables]
  obtain ⟨stack₁, hstack₁, hfollows₁, hactions₁, hpending₁, hprepared₁⟩ :=
    pass_follows nodup_iter hfirst (hfollows.congr rfl rfl rfl rfl rfl rfl) hprepared
  have hprepared₁' : Prepared (processPass first).process.signalActions thread.blockedSignals
      (processPass first).thread stack₁
      (iter.filter (deliverable (processPass first).pending.signals
        thread.blockedSignals) ++ []) := by
    have hsame : (processPass first).pending = process.pending := hpending₁
    rw [hsame, List.append_nil]
    exact hprepared₁
  obtain ⟨stack₂, hstack₂, hfollows₂, -⟩ :=
    pass_follows nodup_iter hsecond hfollows₁ hprepared₁'
  refine ⟨stack₂, ?_, hfollows₂.congr rfl rfl rfl rfl rfl rfl⟩
  have hfirst' : processPendingSignals userFrame thread.blockedSignals
      (threadPass process thread) = some first := hfirst
  have hstack₁' : ((threadPass process thread).deliveries userFrame thread.blockedSignals
      iter).foldlM deliver stack = some stack₁ := hstack₁
  rw [hfirst', List.foldlM_append, hstack₁']
  exact hstack₂

/-- A pass delivers what it removes. -/
theorem pass_removes : ∀ {signals : List Signal} {pass next : Pass ρ ξ}, signals.Nodup →
      signals.foldlM (Pass.visit userFrame blockedSignals) pass = some next →
      (pass.deliveries userFrame blockedSignals signals).map Delivery.signal =
          signals.filter (deliverable pass.pending.signals blockedSignals) ∧
        next.process.pending = pass.process.pending ∧
        ∀ signal : Signal, next.pending.signals.contains signal =
          (pass.pending.signals.contains signal && !(decide (signal ∈ signals) &&
              deliverable pass.pending.signals blockedSignals signal)) := by
  intro signals
  induction signals with
  | nil =>
    intro pass next _ hrun
    cases hrun
    exact ⟨rfl, rfl, fun signal => by simp⟩
  | cons signal signals ih =>
  intro pass next hnodup hrun
  obtain ⟨hnew, hnodup⟩ := List.nodup_cons.mp hnodup
  obtain ⟨pass', hvisit, hrun⟩ := bind_eq_some_iff.mp hrun
  obtain ⟨hmap, hprocess, hleft⟩ := ih hnodup hrun
  unfold Pass.deliveries
  cases hdeliver : deliverable pass.pending.signals blockedSignals signal with
  | false => grind [visit_of_not]
  | true =>
  obtain ⟨-, hprocess', hpending, -⟩ := visit_spec hdeliver hvisit
  have hrest : ∀ other ≠ signal, deliverable pass'.pending.signals blockedSignals other =
      deliverable pass.pending.signals blockedSignals other := by
    grind [deliverable_remove]
  refine ⟨?_, hprocess.trans hprocess', fun other => ?_⟩
  · grind [List.filter_congr]
  rw [hleft]
  by_cases heq : other = signal
  · simp [heq, hdeliver, hpending]
  · rw [hrest other heq, hpending]
    simp [heq, Ne.symm heq]

/-- What a pass removes is what it delivers. -/
theorem removedFrom_pass (hrun : processPendingSignals userFrame blockedSignals pass = some next) :
    removedFrom pass.pending.signals next.pending.signals =
      (pass.deliveries userFrame blockedSignals iter).map Delivery.signal := by
  obtain ⟨hmap, -, hleft⟩ := pass_removes nodup_iter hrun
  rw [hmap]
  refine List.filter_congr fun signal hmem => ?_
  rw [hleft, decide_eq_true hmem]
  unfold deliverable
  cases pass.pending.signals.contains signal <;> simp

/-- What the call removes is what it delivers. -/
theorem removed_call {thread thread' : Thread ρ ξ}
    (hrun : processCurrentProcessSignals userFrame process thread =
      some (result, process', thread')) :
    removedFrom thread.pending.signals thread'.pending.signals ++
        removedFrom process.pending.signals process'.pending.signals =
      (deliveries userFrame process thread).map Delivery.signal := by
  unfold processCurrentProcessSignals at hrun
  unfold deliveries
  by_cases hwait : interruptsWait process thread = true
  · grind [removedFrom_self]
  rw [if_neg hwait] at hrun ⊢
  obtain ⟨⟨pass, left⟩, hact, hrun⟩ := bind_eq_some_iff.mp hrun
  cases hrun
  obtain ⟨first, hfirst, hact⟩ := bind_eq_some_iff.mp hact
  obtain ⟨second, hsecond, hact⟩ := bind_eq_some_iff.mp hact
  cases hact
  have hfirst' : processPendingSignals userFrame thread.blockedSignals
      (threadPass process thread) = some first := hfirst
  have hsecond' : processPendingSignals userFrame thread.blockedSignals
      (processPass first) = some second := hsecond
  have hpending : first.process.pending = process.pending :=
    (pass_removes nodup_iter hfirst').2.1
  rw [hfirst', List.map_append, ← removedFrom_pass hfirst', ← removedFrom_pass hsecond']
  change _ = removedFrom thread.pending.signals first.pending.signals ++
    removedFrom first.process.pending.signals second.pending.signals
  rw [hpending]
  rfl

variable {op : Op ρ ξ}

/-- What a step removes is what it delivers. -/
theorem removed_exec {s' : State ρ ξ} (hrun : s.exec userFrame op = some s') :
    removedSignals s s' = deliveredSignals userFrame op s := by
  have hself : ∀ {thread' : Thread ρ ξ} {process' : Process} {wait' : Option Signals},
      thread'.pending = s.thread.pending → process'.pending = s.process.pending →
      removedSignals s ⟨process', thread', wait'⟩ = [] := by
    intro thread' process' wait' hthread hprocess
    simp [hthread, hprocess, removedFrom_self, removedSignals]
  cases op with
  | run registers =>
    cases hrun
    refine hself ?_ rfl
    unfold saveRegisters
    split <;> rfl
  | queueSignal signal siginfo =>
    unfold State.exec at hrun
    dsimp only at hrun
    split at hrun
    · cases hrun
      exact hself rfl rfl
    cases hrun
    unfold removedSignals
    rw [removedFrom_self, removedFrom_queue]
    rfl
  | queueSignalToThread signal siginfo =>
    cases hrun
    unfold removedSignals
    rw [removedFrom_self, removedFrom_queue]
    rfl
  | rtSigaction signal action | rtSigprocmask how set | setWaitActive active | beginWait newMask =>
    cases hrun
    exact hself rfl rfl
  | endWait interrupted =>
    cases hrun
    unfold State.endWait
    split
    · exact hself rfl rfl
    · split
      · exact hself rfl rfl
      · exact hself rfl rfl
  | processSignals =>
    obtain ⟨⟨result, process, thread⟩, hcall, hrun⟩ := bind_eq_some_iff.mp hrun
    cases hrun
    exact removed_call hcall
  | rtSigreturn =>
    cases hrun
    refine hself ?_ rfl
    grind [rtSigreturn, restoreBlockedSignals]

/-! ## Whole runs -/

/-- A safe step is one of the stack. -/
theorem Invariant.exec {run : Run ρ ξ} {state : State ρ ξ} (hsafe : Safe op run)
    (hrun : run.state.exec userFrame op = some state) (h : Invariant run.state stack) :
    ∃ stack', follow userFrame op run.state stack = some stack' ∧ Invariant state stack' := by
  cases op with
  | run registers =>
    cases hrun
    exact ⟨_, rfl, h.follows.saveRegisters registers, h.wait⟩
  | queueSignal signal siginfo =>
    refine ⟨stack, rfl, ?_⟩
    unfold State.exec at hrun
    dsimp only at hrun
    split at hrun
    · cases hrun
      exact h
    · cases hrun
      exact ⟨h.follows, h.wait⟩
  | queueSignalToThread signal siginfo | setWaitActive active =>
    cases hrun
    exact ⟨stack, rfl, h.follows.congr rfl rfl rfl rfl rfl rfl, h.wait⟩
  | rtSigaction signal action =>
    cases hrun
    exact ⟨stack, rfl, h.follows, h.wait⟩
  | rtSigprocmask how set =>
    cases hrun
    obtain ⟨htemporary, hwait⟩ := hsafe
    have hmask := h.follows.mask_eq
    have hnone := h.follows.temporary
    unfold Thread.mask at hmask
    rw [htemporary] at hmask hnone
    have hnone' : stack.temporary = none := map_eq_none_iff.mp hnone.symm
    refine ⟨_, rfl, ⟨?_, ?_, h.follows.frames⟩, fun oldMask hold => ?_⟩
    · simp [hnone', hmask, effective]
    · dsimp only
      rw [htemporary, hnone']
      rfl
    · grind
  | beginWait newMask =>
    cases hrun
    exact ⟨_, rfl, h.beginWait hsafe.1 hsafe.2.1 newMask⟩
  | endWait interrupted =>
    cases hrun
    refine ⟨_, ?_, h.endWait hsafe interrupted⟩
    unfold follow
    dsimp only
    split <;> rfl
  | processSignals =>
    obtain ⟨⟨result, process, thread⟩, hcall, hrun⟩ := bind_eq_some_iff.mp hrun
    cases hrun
    obtain ⟨stack', hstack', hfollows⟩ :=
      processCurrentProcessSignals_follows hcall h.follows hsafe
    refine ⟨stack', hstack', hfollows, fun oldMask hold => ?_⟩
    grind [foldlM_deliver_baseMask, h.wait]
  | rtSigreturn =>
    cases hrun
    refine ⟨_, rfl, h.follows.rtSigreturn, fun oldMask hold => ?_⟩
    rw [sigreturn_baseMask]
    exact h.wait oldMask hold

/-- In every run in which a call delivers at most one signal with a handler, to a thread outside of
a handler, and no signal after it that is blocked then, and in which masks are changed and waits are
made outside of each other, the kernel and the stack agree in every state. -/
theorem handlers_nest (userFrame : ℕ → UInt64 × UInt64) (s : State ρ ξ) (hfresh : Fresh s)
    (ops : List (Op ρ ξ)) (hsafe : SafeRun (Run.exec userFrame) Safe ops (Run.start s))
    (run : Run ρ ξ) (hrun : runOps (Run.exec userFrame) ops (Run.start s) = some run) :
    Nested run := by
  have hstart : (Run.start s).removed = (Run.start s).delivered ∧
      ∃ stack, (Run.start s).stack = some stack ∧ Invariant (Run.start s).state stack := by
    refine ⟨rfl, _, rfl, ⟨rfl, hfresh.temporary, .inl ⟨rfl, hfresh.normal, rfl, hfresh.saved⟩⟩, ?_⟩
    intro oldMask hold
    exact absurd (hfresh.wait.symm.trans hold) (some_ne_none oldMask).symm
  obtain ⟨hremoved, stack, hstack, hinvariant⟩ := SafeRun.invariant
    (I := fun run : Run ρ ξ => run.removed = run.delivered ∧
      ∃ stack, run.stack = some stack ∧ Invariant run.state stack)
    (fun op run run' hop hexec ⟨hremoved, stack, hstack, hinvariant⟩ => by
      obtain ⟨state, hstate, hexec⟩ := bind_eq_some_iff.mp hexec
      cases hexec
      obtain ⟨stack', hstack', hinvariant'⟩ := hinvariant.exec hop hstate
      refine ⟨?_, stack', ?_, hinvariant'⟩
      · rw [hremoved, removed_exec hstate]
      · rw [hstack]
        exact hstack') hsafe hstart hrun
  exact ⟨hremoved, stack, hstack, hinvariant.follows.current, hinvariant.follows.mask⟩

end

/-! ## Lost contexts -/

/-- A program with handlers for `SIGUSR1` and `SIGUSR2`. The one for `SIGUSR1` blocks `SIGTERM`. -/
def handlingProcess : Process where
  signalActions
    | .SIGUSR1 => ⟨.function1 0x2000, .ofSignal .SIGTERM, 0, 0x4000⟩
    | .SIGUSR2 => ⟨.function1 0x3000, .empty, 0, 0x4000⟩
    | _ => ⟨.default, .empty, 0, 0⟩
  pending := .empty
  dumpable := true
  rlimitCoreCur := 0
  exitStatus := none
  written := []
  frames := []

/-- The program at address `0x1000`. -/
def handlingState : State Unit Unit where
  process := handlingProcess
  thread := {
    snapshotState := .normal
    snapshot := ⟨0x1000, 0x7000, 0, 0, 0, (), (), 0⟩
    sigHandlerSnapshot := ⟨0, 0, 0, 0, 0, (), (), 0⟩
    sigaltstack := ⟨0, 2, 0⟩
    blockedSignals := .empty
    savedBlockedSignals := []
    temporaryBlockedSignals := none
    interruptibleWaitActive := false
    interruptedBySignal := false
    pending := .empty }
  wait := none

/-- Where the kernel and the stack go on after some steps. -/
def resumes (ops : List (Op Unit Unit)) : Option (UInt64 × Option UInt64) :=
  (runOps (Run.exec fun _ => (0, 0)) ops (Run.start handlingState)).map fun run =>
    (run.state.thread.getAppropriateSnapshot.rip, run.stack.map fun stack => stack.current.rip)

/-- One signal is handled, the handler runs and returns. -/
def handledOnce : List (Op Unit Unit) :=
  [.queueSignal .SIGUSR1 none, .processSignals, .run ⟨0x2010, 0x6f00, 1, 2, 3, (), (), 0⟩,
    .rtSigreturn]

/-- A signal is handled once, and the thread goes on where it was. -/
theorem handlers_nest_once : resumes handledOnce = some (0x1000, some 0x1000) ∧
      ∀ run, runOps (Run.exec fun _ => (0, 0)) handledOnce (Run.start handlingState) = some run →
        Nested run :=
  ⟨by decide +kernel, handlers_nest (fun _ => (0, 0)) handlingState ⟨rfl, rfl, rfl, rfl⟩ handledOnce
    (by decide +kernel)⟩

/-- If both signals are pending, or one arrives in the handler of the other, the first handler does
not go on: the return goes to the program. And `SIGTERM` ends the program although a handler that
has been entered blocks it. -/
theorem contexts_lost :
    resumes [.queueSignal .SIGUSR1 none, .queueSignal .SIGUSR2 none, .processSignals,
      .rtSigreturn] = some (0x1000, some 0x2000) ∧
    resumes [.queueSignal .SIGUSR1 none, .processSignals, .queueSignal .SIGUSR2 none,
      .processSignals, .rtSigreturn] = some (0x1000, some 0x2000) ∧
    resumes [.queueSignal .SIGUSR1 none, .queueSignal .SIGTERM none, .processSignals] =
      some (0x2000, none) := by
  decide +kernel

end Seele.Signalling
