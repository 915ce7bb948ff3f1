import Mathlib.Data.Int.Notation
import Seele.Signalling.Signals

/-!
# Delivery of pending signals

A model of `process_current_process_signals`. The call takes the pending set of the thread, goes
through it and then through the pending set of the process, both with the mask it has read at its
start, and stores what is left. `process_pending_signals` is the loop over one set. To run a handler
it saves the mask, blocks the signals of the action, and puts a fresh snapshot in the one slot that
the thread has for handlers. The three parts between which locks are dropped are separate
definitions (`takePending`, `actOnPending` and `storePending`).
-/

namespace Seele.Signalling

/-! ## Threads and processes -/

/-- `SnapshotState`. -/
inductive SnapshotState where
  | normal
  | signalHandler
deriving DecidableEq, Repr

/-- `LinuxStack`. -/
structure LinuxStack where
  ssSp : UInt64
  ssFlags : UInt32
  ssSize : UInt64
deriving DecidableEq, Repr

/-- `ThreadSnapshot`, as far as a user program sees it: the registers that handlers are started
with, the other registers of `inner`, `extended_state` and `fs_base`. -/
structure ThreadSnapshot (ρ ξ : Type) where
  rip : UInt64
  rsp : UInt64
  rdi : UInt64
  rsi : UInt64
  rdx : UInt64
  others : ρ
  extendedState : ξ
  fsBase : UInt64
deriving DecidableEq, Repr

/-- `PendingSignalInfo`. -/
structure PendingSignalInfo where
  siSigno : ℤ
  siErrno : ℤ
  siCode : ℤ
  siPid : ℤ
  siUid : ℕ
  siValue : UInt64
  siFd : ℤ
deriving DecidableEq, Repr

/-- `PendingSignalInfo::for_signal`. -/
def PendingSignalInfo.forSignal (signal : Signal) : PendingSignalInfo :=
  ⟨signal.index + 1, 0, 0, 0, 0, 0, 0⟩

/-- `pending_signals` and `pending_signal_info`. -/
structure Pending where
  signals : Signals
  info : Signal → Option PendingSignalInfo

namespace Pending

/-- No signal is pending. -/
def empty : Pending := ⟨.empty, fun _ => none⟩

/-- A signal is taken out, with what is known about it. -/
def take (pending : Pending) (signal : Signal) : PendingSignalInfo × Pending :=
  ((pending.info signal).getD (.forSignal signal),
    ⟨pending.signals.remove signal, Function.update pending.info signal none⟩)

/-- What `queue_signal` and `queue_signal_to_thread` do to a pending set. -/
def queue (pending : Pending) (signal : Signal) (siginfo : Option PendingSignalInfo) : Pending where
  signals := pending.signals.insert signal
  info :=
    if siginfo.isSome ∧ (¬ pending.signals.contains signal ∨ pending.info signal = none) then
      Function.update pending.info signal siginfo
    else pending.info

end Pending

/-- `Thread`. The last of `saved_blocked_signals` comes first. -/
structure Thread (ρ ξ : Type) where
  snapshotState : SnapshotState
  snapshot : ThreadSnapshot ρ ξ
  sigHandlerSnapshot : ThreadSnapshot ρ ξ
  sigaltstack : LinuxStack
  blockedSignals : Signals
  savedBlockedSignals : List Signals
  temporaryBlockedSignals : Option (Signals × Signals)
  interruptibleWaitActive : Bool
  interruptedBySignal : Bool
  pending : Pending

/-- `SignalHandlingType`. -/
inductive SignalHandlingType where
  | default
  | ignore
  | function1 (func : UInt64)
  | function2 (func : UInt64)
deriving DecidableEq, Repr

/-- `SignalAction`. -/
structure SignalAction where
  handlingType : SignalHandlingType
  sigHandlerIgnoredSigs : Signals
  flags : UInt64
  restorer : UInt64
deriving DecidableEq, Repr

/-- The action is a function of the program. -/
def SignalAction.isHandler (action : SignalAction) : Bool :=
  match action.handlingType with
  | .function1 _ | .function2 _ => true
  | .default | .ignore => false

/-- `ProcessExitStatus::Signaled`. -/
structure Signaled where
  signal : Signal
  coreDumped : Bool
deriving DecidableEq, Repr

/-- `Process`. The words written on user stacks and the signals described in frames for handlers
with three arguments come last first. -/
structure Process where
  signalActions : Signal → SignalAction
  pending : Pending
  dumpable : Bool
  rlimitCoreCur : ℕ
  exitStatus : Option Signaled
  written : List (UInt64 × UInt64)
  frames : List (Signal × PendingSignalInfo)

/-! ## The stack of a handler -/

/-- The largest `u64`. -/
def U64_MAX : ℕ := 18446744073709551615

/-- `u64::saturating_add`. -/
def saturatingAdd (a b : UInt64) : UInt64 := UInt64.ofNat (min (a.toNat + b.toNat) U64_MAX)

/-- `u64::saturating_sub`. -/
def saturatingSub (a b : UInt64) : UInt64 := UInt64.ofNat (a.toNat - b.toNat)

/-- `SA_ONSTACK`. -/
def SA_ONSTACK : UInt64 := 0x08000000

/-- `SS_DISABLE`. -/
def SS_DISABLE : UInt32 := 2

variable {ρ ξ : Type}

namespace Thread

/-- `get_appropriate_snapshot`. -/
def getAppropriateSnapshot (thread : Thread ρ ξ) : ThreadSnapshot ρ ξ :=
  match thread.snapshotState with
  | .normal => thread.snapshot
  | .signalHandler => thread.sigHandlerSnapshot

/-- `enabled_sigaltstack_top`. -/
def enabledSigaltstackTop (thread : Thread ρ ξ) : Option UInt64 :=
  let stack := thread.sigaltstack
  if stack.ssFlags &&& SS_DISABLE ≠ 0 ∨ stack.ssSp = 0 ∨ stack.ssSize = 0 then none
  else some (saturatingAdd stack.ssSp stack.ssSize)

end Thread

/-- The words on the stack of a handler, and the stack pointer it starts with. -/
structure HandlerStack where
  words : List (UInt64 × UInt64)
  rsp : UInt64
deriving DecidableEq, Repr

/-- The padding and the return address at an address. -/
def HandlerStack.at (rsp restorer : UInt64) : HandlerStack :=
  ⟨[(rsp, 0), (rsp + 8, restorer)], rsp + 8⟩

/-- `prepare_signal_handler_stack`. The subtraction from the top of the alternate stack is checked.
-/
def prepareSignalHandlerStack (thread : Thread ρ ξ) (actionFlags restorer : UInt64) :
    Option HandlerStack :=
  match if actionFlags &&& SA_ONSTACK ≠ 0 then thread.enabledSigaltstackTop else none with
  | some stackTop =>
    if 16 ≤ stackTop then some (.at ((stackTop - 16) &&& ~~~0xf) restorer) else none
  | none =>
    let interruptedRsp := thread.getAppropriateSnapshot.rsp
    some (.at (saturatingSub interruptedRsp 16 &&& ~~~0xf) restorer)

/-! ## Entering a handler -/

namespace Thread

variable (thread : Thread ρ ξ)

/-- `restore_temporary_blocked_signals`. -/
def restoreTemporaryBlockedSignals : Signals × Thread ρ ξ :=
  match thread.temporaryBlockedSignals with
  | some (oldMask, _) =>
    (oldMask, { thread with temporaryBlockedSignals := none, blockedSignals := oldMask })
  | none => (thread.blockedSignals, thread)

/-- `block_signals_for_handler`. -/
def blockSignalsForHandler (signalsToBlock : Signals) (signal : Signal)
    (savedMask : Signals) : Thread ρ ξ :=
  { thread with
    savedBlockedSignals := savedMask :: thread.savedBlockedSignals
    blockedSignals := thread.blockedSignals.insert (signalsToBlock.insert signal) }

/-- `enter_signal_handler`. -/
def enterSignalHandler (snapshot : ThreadSnapshot ρ ξ) : Thread ρ ξ :=
  { thread with snapshotState := .signalHandler, sigHandlerSnapshot := snapshot }

/-- `restore_blocked_signals`. -/
def restoreBlockedSignals : Thread ρ ξ :=
  match thread.savedBlockedSignals with
  | mask :: saved => { thread with savedBlockedSignals := saved, blockedSignals := mask }
  | [] => thread

/-- `RtSigreturn`. -/
def rtSigreturn : Thread ρ ξ :=
  let thread := { thread with snapshotState := .normal }
  match thread.temporaryBlockedSignals with
  | some (oldMask, _) =>
    { thread with
      temporaryBlockedSignals := none
      blockedSignals := oldMask
      savedBlockedSignals :=
        match thread.savedBlockedSignals with
        | _ :: saved => oldMask :: saved
        | [] => [] }
  | none => thread.restoreBlockedSignals

end Thread

/-- `ProcessSignalsResult`. Instead of the threads that exit there are the signals that end the
process. -/
structure ProcessSignalsResult where
  shouldSwitch : Bool
  exits : List Signal
  stopCurrent : Bool
  stoppedSignal : Option Signal
deriving DecidableEq, Repr

namespace ProcessSignalsResult

/-- `default`. -/
def default : ProcessSignalsResult := ⟨false, [], false, none⟩

/-- `merge`. -/
def merge (result other : ProcessSignalsResult) : ProcessSignalsResult where
  shouldSwitch := result.shouldSwitch || other.shouldSwitch
  exits := result.exits ++ other.exits
  stopCurrent := result.stopCurrent || other.stopCurrent
  stoppedSignal := result.stoppedSignal <|> other.stoppedSignal

end ProcessSignalsResult

/-- `default_action_dumps_core`. -/
def Signal.defaultActionDumpsCore : Signal → Bool
  | .SIGQUIT | .SIGILL | .SIGTRAP | .SIGABRT | .SIGBUS | .SIGFPE | .SIGSEGV | .SIGXCPU
  | .SIGXFSZ | .SIGSYS => true
  | _ => false

namespace Signal

/-- The signals whose default action ends the process, besides the real-time ones. -/
def terminates : Signal → Bool
  | SIGTERM | SIGKILL | SIGINT | SIGQUIT | SIGABRT | SIGBUS | SIGSEGV | SIGPIPE | SIGALRM | SIGHUP
  | SIGFPE | SIGILL | SIGSTKFLT | SIGTRAP | SIGUSR1 | SIGUSR2 | SIGXCPU | SIGXFSZ | SIGVTALRM
  | SIGPROF | SIGIO | SIGPWR | SIGSYS => true
  | _ => false

end Signal

/-- `terminate_inner`, as far as signals see it: the first status stays. -/
def Process.terminateInner (process : Process) (exitStatus : Signaled) : Process :=
  { process with exitStatus := process.exitStatus <|> some exitStatus }

/-- `default_signal_action`. The branch of `SIGCONT` is `unreachable!`. -/
def Process.defaultSignalAction (process : Process) (signal : Signal) :
    Option (ProcessSignalsResult × Process) :=
  if signal.isRealtime || signal.terminates then
    some (⟨true, [signal], false, none⟩, process.terminateInner ⟨signal,
        signal.defaultActionDumpsCore && process.dumpable && (0 < process.rlimitCoreCur)⟩)
  else
    match signal with
    | .SIGSTOP | .SIGTSTP | .SIGTTIN | .SIGTTOU => some (⟨true, [], true, some signal⟩, process)
    | .SIGCONT => none
    | _ => some (.default, process)

section

-- `userFrame` tells where the frames of handlers with three arguments are put: for the frame after
-- so many others, the addresses of the context and of the information about the signal.
variable [Inhabited ρ] (userFrame : ℕ → UInt64 × UInt64)

/-- `ThreadSnapshot::new_with_extended_state` and what is set afterwards, for a handler that
interrupts a context. -/
def handlerSnapshot (interrupted : ThreadSnapshot ρ ξ) (func rsp rdi rsi rdx : UInt64) :
    ThreadSnapshot ρ ξ where
  rip := func
  rsp := rsp
  rdi := rdi
  rsi := rsi
  rdx := rdx
  others := default
  extendedState := interrupted.extendedState
  fsBase := interrupted.fsBase

/-- What `process_pending_signals` works on. -/
structure Pass (ρ ξ : Type) where
  process : Process
  thread : Thread ρ ξ
  pending : Pending
  result : ProcessSignalsResult

/-- The branches of `process_pending_signals` for handlers. `rsi` and `rdx` are the second and third
argument. -/
def Pass.enter (pass : Pass ρ ξ) (action : SignalAction) (signal : Signal) (func rsi rdx : UInt64) :
    Option (Pass ρ ξ) := do
  let (savedMask, thread) := pass.thread.restoreTemporaryBlockedSignals
  let handlerStack ← prepareSignalHandlerStack thread action.flags action.restorer
  let snapshot := handlerSnapshot thread.getAppropriateSnapshot func handlerStack.rsp
    signal.number rsi rdx
  let thread := thread.blockSignalsForHandler action.sigHandlerIgnoredSigs signal savedMask
  return { pass with
    process := { pass.process with
      written := handlerStack.words.reverse ++ pass.process.written }
    thread := thread.enterSignalHandler snapshot
    result := { pass.result with shouldSwitch := true } }

/-- What `process_pending_signals` does with a signal that it has removed. -/
def Pass.act (pass : Pass ρ ξ) (signal : Signal) (siginfo : PendingSignalInfo) :
    Option (Pass ρ ξ) :=
  let action := pass.process.signalActions signal
  match action.handlingType with
  | .default => do
    let (result, process) ← pass.process.defaultSignalAction signal
    return { pass with process := process, result := pass.result.merge result }
  | .ignore => some pass
  | .function1 func => pass.enter action signal func 0 0
  | .function2 func =>
    let (ucontextPtr, siginfoPtr) := userFrame pass.process.frames.length
    let process := { pass.process with frames := (signal, siginfo) :: pass.process.frames }
    { pass with process := process }.enter action signal func siginfoPtr ucontextPtr

/-- A pending signal that the mask lets through. -/
def deliverable (pending blockedSignals : Signals) (signal : Signal) : Bool :=
  pending.contains signal && (signal.isUnblockable || !blockedSignals.contains signal)

/-- One round of `process_pending_signals`. -/
def Pass.visit (blockedSignals : Signals) (pass : Pass ρ ξ) (signal : Signal) :
    Option (Pass ρ ξ) :=
  if deliverable pass.pending.signals blockedSignals signal then
    let (siginfo, pending) := pass.pending.take signal
    { pass with pending := pending }.act userFrame signal siginfo
  else some pass

/-- `process_pending_signals`. -/
def processPendingSignals (blockedSignals : Signals) (pass : Pass ρ ξ) : Option (Pass ρ ξ) :=
  Signal.iter.foldlM (Pass.visit userFrame blockedSignals) pass

variable (process : Process)

/-- `process_has_pending_user_handler_signal`. -/
def processHasPendingUserHandlerSignal (blockedSignals : Signals) : Bool :=
  Signal.iter.any fun signal =>
    deliverable process.pending.signals blockedSignals signal &&
      (process.signalActions signal).isHandler

variable (thread : Thread ρ ξ)

/-- The first lines of `process_current_process_signals`: a thread that waits is told and goes on.
-/
def interruptsWait : Bool :=
  thread.interruptibleWaitActive && (thread.temporaryBlockedSignals.isSome ||
    processHasPendingUserHandlerSignal process thread.blockedSignals)

/-- The pending set of a thread is taken. -/
def takePending : Pending × Thread ρ ξ :=
  (thread.pending, { thread with pending := .empty })

/-- Both sets are worked off, the one that has been taken from the thread and the one of the
process. -/
def actOnPending (pending : Pending) (blockedSignals : Signals) : Option (Pass ρ ξ × Pending) := do
  let pass ← processPendingSignals userFrame blockedSignals ⟨process, thread, pending, .default⟩
  let left := pass.pending
  -- `Process::process_signals`
  let process := { pass.process with pending := .empty }
  let pass ← processPendingSignals userFrame blockedSignals
    { pass with process := process, pending := pass.process.pending }
  return ({ pass with process := { pass.process with pending := pass.pending } }, left)

/-- What is left of the set of the thread is stored. -/
def storePending (left : Pending) (shouldSwitch : Bool) : Thread ρ ξ :=
  { thread with
    interruptedBySignal :=
      thread.interruptedBySignal || (shouldSwitch && thread.interruptibleWaitActive)
    pending := left }

/-- `process_current_process_signals`, without the exit and the stop that its result asks for. -/
def processCurrentProcessSignals :
    Option (ProcessSignalsResult × Process × Thread ρ ξ) :=
  if interruptsWait process thread then
    some (.default, process, { thread with interruptedBySignal := true })
  else do
    let blockedSignals := thread.blockedSignals
    let (pending, thread) := takePending thread
    let (pass, left) ← actOnPending userFrame process thread pending blockedSignals
    return (pass.result, pass.process, storePending pass.thread left pass.result.shouldSwitch)

end

end Seele.Signalling
