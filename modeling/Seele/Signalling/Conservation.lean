import Seele.Signalling.Nesting
import Seele.Signalling.Waits

/-!
# No signal is lost or duplicated

Threads and senders take turns here, a section in which a lock is held being one step. A call of
`process_current_process_signals` has four, a call of `dequeue_wait_signal` has two, `fork` has one.

A ledger counts for every process and thread how often each signal has been inserted in its pending
set and how often it has been acted on or dequeued. `Conserved` says that what has been inserted has
been consumed by the same owner or is still held, in its pending set or in the hands of the thread
that works on it. The last step of a call overwrites what has arrived for the thread in the
meantime, and `fork` copies the pending set of the parent. Without these two the books stay balanced
in every run (`signals_conserved`).
-/

namespace Seele.Signalling.Conservation

open Lib Function Signal Option

variable {ρ ξ : Type}

/-! ## Steps -/

/-- Where a thread is in the calls. -/
inductive Place where
  | idle
  /-- It does not wait. -/
  | taking
  /-- It has taken its pending set and read its mask. -/
  | acting (pending : Pending) (blockedSignals : Signals)
  /-- It has worked on the set. -/
  | storing (left : Pending) (shouldSwitch : Bool)
  /-- It has found nothing in its own pending set. -/
  | dequeuing (waitMask : Signals)

/-- A thread, its process and its place. -/
structure Worker (ρ ξ : Type) where
  thread : Thread ρ ξ
  parent : ℕ
  place : Place

/-- Who has a pending set. -/
inductive Owner where
  | process (pid : ℕ)
  | thread (tid : ℕ)
deriving DecidableEq, Repr

/-- The processes, the threads and the ledger. -/
structure System (ρ ξ : Type) where
  processes : ℕ → Option Process
  threads : ℕ → Option (Worker ρ ξ)
  inserted : Owner → Signal → ℕ
  consumed : Owner → Signal → ℕ

open Seele.Signalling.Conservation.System

/-- The steps. -/
inductive Op where
  | queueSignal (pid : ℕ) (signal : Signal) (siginfo : Option PendingSignalInfo)
  | queueSignalToThread (tid : ℕ) (signal : Signal) (siginfo : Option PendingSignalInfo)
  | check (tid : ℕ)
  | take (tid : ℕ)
  | act (tid : ℕ)
  | store (tid : ℕ)
  | dequeueFromThread (tid : ℕ) (waitMask : Signals)
  | dequeueFromProcess (tid : ℕ)
  | fork (tid childPid childTid : ℕ)
deriving Repr

/-- Signals are entered in one side of the ledger. -/
def record (side : Owner → Signal → ℕ) (owner : Owner) (signals : List Signal) :
    Owner → Signal → ℕ :=
  update side owner fun signal => side owner signal + signals.count signal

/-- The signals that a pending set gains. -/
def gained (pending : Pending) (signal : Signal) : List Signal :=
  if pending.signals.contains signal then [] else [signal]

namespace System

variable (s : System ρ ξ)

/-- A process changes. -/
def setProcess (pid : ℕ) (process : Process) : System ρ ξ :=
  { s with processes := update s.processes pid (some process) }

/-- A thread changes. -/
def setThread (tid : ℕ) (worker : Worker ρ ξ) : System ρ ξ :=
  { s with threads := update s.threads tid (some worker) }

/-- Signals have been inserted. -/
def recordInserted (owner : Owner) (signals : List Signal) : System ρ ξ :=
  { s with inserted := record s.inserted owner signals }

/-- Signals have been consumed. -/
def recordConsumed (owner : Owner) (signals : List Signal) : System ρ ξ :=
  { s with consumed := record s.consumed owner signals }

/-- The section of `queue_signal`. `SIGCONT` is not queued. -/
def queueSignal (pid : ℕ) (signal : Signal)
    (siginfo : Option PendingSignalInfo) : Option (System ρ ξ) := do
  let process ← s.processes pid
  if signal = .SIGCONT then return s
  return (s.setProcess pid { process with pending := process.pending.queue signal siginfo })
    |>.recordInserted (.process pid) (gained process.pending signal)

/-- The section of `queue_signal_to_thread`. -/
def queueSignalToThread (tid : ℕ) (signal : Signal)
    (siginfo : Option PendingSignalInfo) : Option (System ρ ξ) := do
  let worker ← s.threads tid
  return (s.setThread tid { worker with
      thread := { worker.thread with pending := worker.thread.pending.queue signal siginfo } })
    |>.recordInserted (.thread tid) (gained worker.thread.pending signal)

/-- The first section of `process_current_process_signals`. -/
def check (tid : ℕ) : Option (System ρ ξ) := do
  let worker ← s.threads tid
  let process ← s.processes worker.parent
  match worker.place with
  | .idle =>
    if interruptsWait process worker.thread then
      return s.setThread tid { worker with
        thread := { worker.thread with interruptedBySignal := true } }
    else return s.setThread tid { worker with place := .taking }
  | _ => none

/-- The second section. -/
def take (tid : ℕ) : Option (System ρ ξ) := do
  let worker ← s.threads tid
  match worker.place with
  | .taking =>
    let (pending, thread) := takePending worker.thread
    return s.setThread tid { worker with
      thread := thread
      place := .acting pending worker.thread.blockedSignals }
  | _ => none

section

variable [Inhabited ρ] (userFrame : ℕ → UInt64 × UInt64) (s : System ρ ξ)

/-- The third section, with the signals that it acts on: those of the thread, and then those of the
process. -/
def act (tid : ℕ) : Option (System ρ ξ) := do
  let worker ← s.threads tid
  let process ← s.processes worker.parent
  match worker.place with
  | .acting pending blockedSignals =>
    let first : Pass ρ ξ := ⟨process, worker.thread, pending, .default⟩
    let middle ← processPendingSignals userFrame blockedSignals first
    let second := processPass middle
    let (pass, left) ← actOnPending userFrame process worker.thread pending blockedSignals
    return (s.setProcess worker.parent pass.process)
      |>.setThread tid { worker with
        thread := pass.thread
        place := .storing left pass.result.shouldSwitch }
      |>.recordConsumed (.thread tid)
        ((first.deliveries userFrame blockedSignals iter).map Delivery.signal)
      |>.recordConsumed (.process worker.parent)
        ((second.deliveries userFrame blockedSignals iter).map Delivery.signal)
  | _ => none

/-- The fourth section. -/
def store (tid : ℕ) : Option (System ρ ξ) := do
  let worker ← s.threads tid
  match worker.place with
  | .storing left shouldSwitch =>
    return s.setThread tid { worker with
      thread := storePending worker.thread left shouldSwitch
      place := .idle }
  | _ => none

/-- The first section of `dequeue_wait_signal`. -/
def dequeueFromThread (tid : ℕ) (waitMask : Signals) : Option (System ρ ξ) := do
  let worker ← s.threads tid
  match worker.place with
  | .idle =>
    match worker.thread.pending.firstIn waitMask with
    | some signal =>
      return (s.setThread tid { worker with
          thread := { worker.thread with pending := (worker.thread.pending.take signal).2 } })
        |>.recordConsumed (.thread tid) [signal]
    | none => return s.setThread tid { worker with place := .dequeuing waitMask }
  | _ => none

/-- The second section. -/
def dequeueFromProcess (tid : ℕ) : Option (System ρ ξ) := do
  let worker ← s.threads tid
  let process ← s.processes worker.parent
  match worker.place with
  | .dequeuing waitMask =>
    let s := s.setThread tid { worker with place := .idle }
    match process.pending.firstIn waitMask with
    | some signal =>
      return (s.setProcess worker.parent
          { process with pending := (process.pending.take signal).2 })
        |>.recordConsumed (.process worker.parent) [signal]
    | none => return s
  | _ => none

/-- The thread that `clone_for_spawn_with_id` makes. -/
def spawned (thread : Thread ρ ξ) : Thread ρ ξ :=
  { thread with
    snapshotState := .normal
    sigaltstack := ⟨0, 0, 0⟩
    temporaryBlockedSignals := none
    interruptibleWaitActive := false
    interruptedBySignal := false
    pending := .empty }

/-- `fork_process`, called by a thread, and the first thread of the child. Both ids are new. -/
def fork (tid childPid childTid : ℕ) : Option (System ρ ξ) := do
  let worker ← s.threads tid
  let process ← s.processes worker.parent
  if (s.processes childPid).isSome ∨ (s.threads childTid).isSome then none
  else
    return (s.setProcess childPid { process with exitStatus := none })
      |>.setThread childTid ⟨spawned worker.thread, childPid, .idle⟩

/-- A step. -/
def exec (op : Op) (s : System ρ ξ) : Option (System ρ ξ) :=
  match op with
  | .queueSignal pid signal siginfo => s.queueSignal pid signal siginfo
  | .queueSignalToThread tid signal siginfo => s.queueSignalToThread tid signal siginfo
  | .check tid => s.check tid
  | .take tid => s.take tid
  | .act tid => s.act userFrame tid
  | .store tid => s.store tid
  | .dequeueFromThread tid waitMask => s.dequeueFromThread tid waitMask
  | .dequeueFromProcess tid => s.dequeueFromProcess tid
  | .fork tid childPid childTid => s.fork tid childPid childTid

end

end System

/-! ## Balanced books -/

/-- The signals in the hands of a thread. -/
def Place.pending : Place → Signals
  | .acting pending _ => pending.signals
  | .storing left _ => left.signals
  | .idle | .taking | .dequeuing _ => .empty

/-- The thread is between the section that takes its pending set and the one that stores it. -/
def Place.isOpen : Place → Bool
  | .acting _ _ | .storing _ _ => true
  | .idle | .taking | .dequeuing _ => false

/-- How often an owner holds a signal. -/
def System.held (s : System ρ ξ) : Owner → Signal → ℕ
  | .process pid, signal =>
    match s.processes pid with
    | some process => (process.pending.signals.contains signal).toNat
    | none => 0
  | .thread tid, signal =>
    match s.threads tid with
    | some worker => (worker.thread.pending.signals.contains signal).toNat +
      (worker.place.pending.contains signal).toNat
    | none => 0

/-- Everything that has been inserted has been consumed by the same owner or is still held. -/
def Conserved (s : System ρ ξ) : Prop :=
  ∀ owner signal, s.inserted owner signal = s.consumed owner signal + s.held owner signal

/-- The ledger of a system is opened with what is pending. -/
def System.start (processes : ℕ → Option Process) (threads : ℕ → Option (Worker ρ ξ)) :
    System ρ ξ :=
  let s : System ρ ξ := ⟨processes, threads, fun _ _ => 0, fun _ _ => 0⟩
  { s with inserted := s.held }

/-- The condition on a step: no signal is sent to a thread that works on its pending set, and a
process with pending signals does not fork. -/
def Safe (op : Op) (s : System ρ ξ) : Prop :=
  match op with
  | .queueSignalToThread tid _ _ => (s.threads tid).all fun worker => !worker.place.isOpen
  | .fork tid _ _ => (s.threads tid).all fun worker =>
    (s.processes worker.parent).all fun process => process.pending.signals.isEmpty
  | _ => True

instance (op : Op) (s : System ρ ξ) : Decidable (Safe op s) :=
  match op with
  | .queueSignalToThread _ _ _ | .fork _ _ _ => inferInstanceAs (Decidable (_ = true))
  | .queueSignal _ _ _ | .check _ | .take _ | .act _ | .store _ | .dequeueFromThread _ _
  | .dequeueFromProcess _ => .isTrue trivial

/-! ## One owner at a time -/

section

variable {s s' : System ρ ξ} {tid : ℕ} {owner : Owner}

/-- Nothing is recorded. -/
theorem record_nil {side : Owner → Signal → ℕ} : record side owner [] = side := by
  unfold record
  simp

variable {process : Process}

/-- What a process has pending. -/
theorem held_process {pid : ℕ} (h : s.processes pid = some process) (signal : Signal) :
    s.held (.process pid) signal = (process.pending.signals.contains signal).toNat := by
  simp only [held, h]

variable {worker : Worker ρ ξ}

/-- What a thread has pending or in hand. -/
theorem held_thread (h : s.threads tid = some worker) (signal : Signal) :
    s.held (.thread tid) signal = (worker.thread.pending.signals.contains signal).toNat +
      (worker.place.pending.contains signal).toNat := by
  simp only [held, h]

/-- The books stay balanced if one owner alone holds something else than before. -/
theorem Conserved.change (h : Conserved s) {amount : Signal → ℕ}
    (gains losses : List Signal) (hinserted : s'.inserted = record s.inserted owner gains)
    (hconsumed : s'.consumed = record s.consumed owner losses)
    (hheld : ∀ other signal, s'.held other signal =
      if other = owner then amount signal else s.held other signal)
    (hcount : ∀ signal, s.held owner signal + gains.count signal =
      amount signal + losses.count signal) : Conserved s' := by
  intro other signal
  have hbefore := h other signal
  rw [hinserted, hconsumed, hheld]
  unfold record
  by_cases heq : other = owner
  · grind
  · rw [update_of_ne heq, update_of_ne heq, if_neg heq]
    exact hbefore

/-- One process changes. -/
theorem held_setProcess {pid : ℕ} (hthreads : s'.threads = s.threads)
    (hprocesses : s'.processes = update s.processes pid (some process)) (other : Owner)
    (signal : Signal) : s'.held other signal =
      if other = .process pid then (process.pending.signals.contains signal).toNat
      else s.held other signal := by
  cases other with
  | thread tid => simp [held, hthreads]
  | process pid' =>
    simp only [held, hprocesses, update_apply, Owner.process.injEq]
    split_ifs <;> rfl

/-- One thread changes. -/
theorem held_setThread (hprocesses : s'.processes = s.processes)
    (hthreads : s'.threads = update s.threads tid (some worker)) (other : Owner)
    (signal : Signal) : s'.held other signal =
      if other = .thread tid then (worker.thread.pending.signals.contains signal).toNat +
        (worker.place.pending.contains signal).toNat
      else s.held other signal := by
  cases other with
  | process pid => simp [held, hprocesses]
  | thread tid' =>
    simp only [held, hthreads, update_apply, Owner.thread.injEq]
    split_ifs <;> rfl

/-- A thread changes and holds the same signals. -/
theorem Conserved.setThread (h : Conserved s) {worker' : Worker ρ ξ} (hheld : ∀ signal : Signal,
      s.held (.thread tid) signal = (worker'.thread.pending.signals.contains signal).toNat +
          (worker'.place.pending.contains signal).toNat) :
    Conserved (s.setThread tid worker') :=
  h.change [] [] (record_nil).symm (record_nil).symm (held_setThread rfl rfl) hheld

/-- Queueing adds what was not pending. -/
theorem queue_count (pending : Pending) (signal : Signal) (siginfo : Option PendingSignalInfo)
    (other : Signal) :
    (pending.signals.contains other).toNat + (gained pending signal).count other =
      ((pending.queue signal siginfo).signals.contains other).toNat := by
  unfold gained Pending.queue
  grind [Signals.contains_insert, Signals.ofSignal_contains]

variable {pending : Pending} {signal : Signal}

/-- Taking removes the signal. -/
theorem take_count (hmem : pending.signals.contains signal = true) {other : Signal} :
    (pending.signals.contains other).toNat =
      ((pending.take signal).2.signals.contains other).toNat + [signal].count other := by
  grind [Pending.take, Signals.contains_remove, Signals.ofSignal_contains]

/-- What is found is pending. -/
theorem contains_of_firstIn {waitMask : Signals}
    (h : pending.firstIn waitMask = some signal) : pending.signals.contains signal = true := by
  have hboth : (waitMask.contains signal && pending.signals.contains signal) = true := by
    simpa using List.find?_some h
  exact (Bool.and_eq_true_iff.mp hboth).2

end

/-! ## A pass -/

section

variable {userFrame : ℕ → UInt64 × UInt64} {signal : Signal}

/-- Acting on a signal queues none. -/
theorem pending_of_actsOn {action : SignalAction} {thread thread' : Thread ρ ξ}
    (h : ActsOn action signal thread thread') : thread'.pending = thread.pending := by
  cases h with
  | quiet _ => rfl
  | enters context _ =>
    unfold Thread.restoreTemporaryBlockedSignals
    split <;> rfl

variable {blockedSignals : Signals}

/-- A pass queues none. -/
theorem pending_of_pass [Inhabited ρ] :
    ∀ {signals : List Signal} {pass next : Pass ρ ξ},
      signals.foldlM (Pass.visit userFrame blockedSignals) pass = some next →
      next.thread.pending = pass.thread.pending := by
  intro signals
  induction signals with
  | nil => simp
  | cons signal signals ih =>
  intro pass next hrun
  obtain ⟨middle, hvisit, hrun⟩ := bind_eq_some_iff.mp hrun
  refine (ih hrun).trans ?_
  cases hdeliver : deliverable pass.pending.signals blockedSignals signal with
  | false => grind [visit_of_not]
  | true => exact pending_of_actsOn (visit_spec hdeliver hvisit).2.2.2

/-- A pass delivers what it removes. -/
theorem pass_count [Inhabited ρ] {pass next : Pass ρ ξ}
    (hrun : processPendingSignals userFrame blockedSignals pass = some next) (signal : Signal) :
    (pass.pending.signals.contains signal).toNat = (next.pending.signals.contains signal).toNat +
        ((pass.deliveries userFrame blockedSignals iter).map Delivery.signal).count signal := by
  obtain ⟨hmap, -, hleft⟩ := pass_removes nodup_iter hrun
  rw [hmap, hleft, decide_eq_true (mem_iter signal)]
  cases hdeliver : deliverable pass.pending.signals blockedSignals signal with
  | true =>
    have hmem : signal ∈ iter.filter (deliverable pass.pending.signals blockedSignals) :=
      List.mem_filter.mpr ⟨mem_iter signal, hdeliver⟩
    rw [List.count_eq_one_of_mem (nodup_iter.filter _) hmem]
    rw [(Bool.and_eq_true_iff.mp hdeliver).1]
    rfl
  | false => grind [List.count_eq_zero_of_not_mem]

/-! ## Steps and runs -/

/-- While a thread works on its pending set, nothing arrives for it. -/
def Undisturbed (s : System ρ ξ) : Prop :=
  ∀ tid worker, s.threads tid = some worker → worker.place.isOpen = true →
    ∀ signal : Signal, worker.thread.pending.signals.contains signal = false

/-- A thread may go on with nothing pending. -/
theorem Undisturbed.setThread {s : System ρ ξ} (h : Undisturbed s) (tid : ℕ) {worker : Worker ρ ξ}
    (hworker : worker.place.isOpen = true →
      ∀ signal : Signal, worker.thread.pending.signals.contains signal = false) :
    Undisturbed (s.setThread tid worker) := by
  intro tid' worker' hget
  unfold System.setThread at hget
  dsimp only at hget
  by_cases heq : tid' = tid
  · grind
  · rw [update_of_ne heq] at hget
    exact h tid' worker' hget

/-- The invariant. -/
structure Invariant (s : System ρ ξ) : Prop where
  conserved : Conserved s
  undisturbed : Undisturbed s

variable {s s' : System ρ ξ} {tid : ℕ} (h : Invariant s)

include h

/-- A thread that does not work on its pending set goes to another place. -/
theorem Invariant.goes {worker worker' : Worker ρ ξ} (hworker : s.threads tid = some worker)
    (hpending : worker'.thread.pending = worker.thread.pending)
    (hclosed : worker.place.isOpen = false) (hclosed' : worker'.place.isOpen = false) :
    Invariant (s.setThread tid worker') := by
  have hnone : ∀ {place : Place}, place.isOpen = false → place.pending = .empty := by
    intro place h
    cases place <;> first | rfl | cases h
  refine ⟨h.conserved.setThread fun signal => ?_, h.undisturbed.setThread tid ?_⟩
  · rw [held_thread hworker, hpending, hnone hclosed, hnone hclosed']
  · rw [hclosed']
    exact nofun

variable {siginfo : Option PendingSignalInfo}

/-- A signal is queued for a process. -/
theorem Invariant.queueSignal {pid : ℕ} (hrun : s.queueSignal pid signal siginfo = some s') :
    Invariant s' := by
  obtain ⟨process, hprocess, hrun⟩ := bind_eq_some_iff.mp hrun
  split at hrun
  · cases hrun
    exact h
  cases hrun
  refine ⟨h.conserved.change (gained process.pending signal) [] rfl (record_nil).symm
    (held_setProcess rfl rfl) fun other => ?_, h.undisturbed⟩
  rw [held_process hprocess]
  exact queue_count process.pending signal siginfo other

/-- A signal is queued for a thread. -/
theorem Invariant.queueSignalToThread (hsafe : Safe (.queueSignalToThread tid signal siginfo) s)
    (hrun : s.queueSignalToThread tid signal siginfo = some s') : Invariant s' := by
  obtain ⟨worker, hworker, hrun⟩ := bind_eq_some_iff.mp hrun
  cases hrun
  have hclosed : worker.place.isOpen = false := by simpa [Safe, hworker] using hsafe
  refine ⟨h.conserved.change (gained worker.thread.pending signal) [] rfl (record_nil).symm
    (held_setThread rfl rfl) fun other => ?_, ?_⟩
  · have hcount := queue_count worker.thread.pending signal siginfo other
    rw [held_thread hworker, List.count_nil]
    dsimp only
    omega
  · refine h.undisturbed.setThread tid fun hopen => ?_
    rw [hclosed] at hopen
    cases hopen

/-- The call looks for signals. -/
theorem Invariant.check (hrun : s.check tid = some s') : Invariant s' := by
  obtain ⟨worker, hworker, hrun⟩ := bind_eq_some_iff.mp hrun
  obtain ⟨process, -, hrun⟩ := bind_eq_some_iff.mp hrun
  split at hrun
  case h_1 hplace =>
    have hclosed : worker.place.isOpen = false := by rw [hplace]; rfl
    split at hrun
    · cases hrun
      exact h.goes hworker rfl hclosed hclosed
    · cases hrun
      exact h.goes hworker rfl hclosed rfl
  case h_2 => cases hrun

/-- The call takes the pending set. -/
theorem Invariant.take (hrun : s.take tid = some s') : Invariant s' := by
  obtain ⟨worker, hworker, hrun⟩ := bind_eq_some_iff.mp hrun
  split at hrun
  case h_1 hplace =>
    cases hrun
    refine ⟨h.conserved.setThread fun signal => ?_, h.undisturbed.setThread tid ?_⟩
    · -- The bits move from the thread to its hands.
      rw [held_thread hworker, hplace]
      simp [Place.pending, Pending.empty]
    · intro _ signal
      exact Signals.contains_empty signal
  case h_2 => cases hrun

/-- The call acts on the signals. -/
theorem Invariant.act [Inhabited ρ] (hrun : s.act userFrame tid = some s') : Invariant s' := by
  obtain ⟨worker, hworker, hrun⟩ := bind_eq_some_iff.mp hrun
  obtain ⟨process, hprocess, hrun⟩ := bind_eq_some_iff.mp hrun
  split at hrun
  case h_1 pending blockedSignals hplace =>
    obtain ⟨middle, hfirst, hrun⟩ := bind_eq_some_iff.mp hrun
    obtain ⟨⟨pass, left⟩, hact, hrun⟩ := bind_eq_some_iff.mp hrun
    cases hrun
    obtain ⟨middle', hfirst', hact⟩ := bind_eq_some_iff.mp hact
    rw [hfirst] at hfirst'
    cases hfirst'
    obtain ⟨second, hsecond, hact⟩ := bind_eq_some_iff.mp hact
    cases hact
    have hsecond' : processPendingSignals userFrame blockedSignals (processPass middle) =
        some second := hsecond
    have hquiet := h.undisturbed tid worker hworker (by rw [hplace]; rfl)
    have hthread : second.thread.pending = worker.thread.pending :=
      (pending_of_pass hsecond').trans (pending_of_pass hfirst)
    have hkept : middle.process.pending = process.pending :=
      (pass_removes nodup_iter hfirst).2.1
    -- First the books of the thread, then those of the process.
    have hbooks : Conserved ((s.setThread tid { worker with
        thread := second.thread
        place := .storing middle.pending second.result.shouldSwitch }).recordConsumed (.thread tid)
        ((Pass.deliveries userFrame blockedSignals iter
          ⟨process, worker.thread, pending, .default⟩).map Delivery.signal)) := by
      refine h.conserved.change [] _ (record_nil).symm rfl (held_setThread rfl rfl) fun signal => ?_
      have hcount := pass_count hfirst signal
      grind [Place.pending, held_thread]
    refine ⟨hbooks.change [] _ (record_nil).symm rfl (held_setProcess rfl rfl)
      fun signal => (congrArg (· + 0) (held_process hprocess signal)).trans ?_,
      h.undisturbed.setThread tid fun _ => ?_⟩
    · have hcount := pass_count hsecond' signal
      have hpending : (processPass middle).pending = process.pending := hkept
      rw [hpending] at hcount
      exact hcount
    · rw [hthread]
      exact hquiet
  case h_2 => cases hrun

/-- The call stores what is left. -/
theorem Invariant.store (hrun : s.store tid = some s') : Invariant s' := by
  obtain ⟨worker, hworker, hrun⟩ := bind_eq_some_iff.mp hrun
  split at hrun
  case h_1 left shouldSwitch hplace =>
    cases hrun
    have hquiet := h.undisturbed tid worker hworker (by rw [hplace]; rfl)
    refine ⟨h.conserved.setThread fun signal => ?_, h.undisturbed.setThread tid ?_⟩
    · -- Nothing is overwritten, as nothing has arrived.
      rw [held_thread hworker, hplace, hquiet]
      simp [storePending, Place.pending]
    · exact nofun
  case h_2 => cases hrun

/-- A wait takes a signal of the thread. -/
theorem Invariant.dequeueFromThread {waitMask : Signals}
    (hrun : s.dequeueFromThread tid waitMask = some s') : Invariant s' := by
  obtain ⟨worker, hworker, hrun⟩ := bind_eq_some_iff.mp hrun
  split at hrun
  case h_1 hplace =>
    split at hrun
    case h_1 signal hfirst =>
      cases hrun
      refine ⟨h.conserved.change [] [signal] (record_nil).symm rfl (held_setThread rfl rfl)
        fun other => ?_, h.undisturbed.setThread tid ?_⟩
      · grind [held_thread, take_count, contains_of_firstIn]
      · rw [hplace]
        exact nofun
    case h_2 =>
      cases hrun
      exact h.goes hworker rfl (by rw [hplace]; rfl) rfl
  case h_2 => cases hrun

/-- A wait takes a signal of the process. -/
theorem Invariant.dequeueFromProcess
    (hrun : s.dequeueFromProcess tid = some s') : Invariant s' := by
  obtain ⟨worker, hworker, hrun⟩ := bind_eq_some_iff.mp hrun
  obtain ⟨process, hprocess, hrun⟩ := bind_eq_some_iff.mp hrun
  split at hrun
  case h_1 waitMask hplace =>
    have hidle : Invariant (s.setThread tid { worker with place := .idle }) :=
      h.goes hworker rfl (by rw [hplace]; rfl) rfl
    split at hrun
    case h_1 signal hfirst =>
      cases hrun
      refine ⟨hidle.conserved.change [] [signal] (record_nil).symm rfl
        (held_setProcess rfl rfl) fun other => ?_, hidle.undisturbed⟩
      exact (held_process hprocess other).trans (take_count (contains_of_firstIn hfirst))
    case h_2 =>
      cases hrun
      exact hidle
  case h_2 => cases hrun

/-- A process is forked. -/
theorem Invariant.fork {childPid childTid : ℕ} (hsafe : Safe (.fork tid childPid childTid) s)
    (hrun : s.fork tid childPid childTid = some s') : Invariant s' := by
  obtain ⟨worker, hworker, hrun⟩ := bind_eq_some_iff.mp hrun
  obtain ⟨process, hprocess, hrun⟩ := bind_eq_some_iff.mp hrun
  have hempty := Signals.isEmpty_iff.mp
    (show process.pending.signals.isEmpty = true by simpa [Safe, hworker, hprocess] using hsafe)
  split at hrun
  case isTrue => cases hrun
  case isFalse hnew =>
    obtain ⟨hpid, htid⟩ := not_or.mp hnew
    have hpid' : s.processes childPid = none := by simpa using hpid
    have htid' : s.threads childTid = none := by simpa using htid
    cases hrun
    have hchild : Conserved (s.setProcess childPid { process with exitStatus := none }) := by
      refine h.conserved.change [] [] (record_nil).symm (record_nil).symm
        (held_setProcess rfl rfl) fun signal => ?_
      simp [held, hpid', hempty]
    refine ⟨hchild.setThread fun signal => ?_,
      .setThread (s := s.setProcess childPid _) h.undisturbed childTid nofun⟩
    simp [held, setProcess, htid', spawned, Place.pending, Pending.empty]

/-- Every safe step keeps the invariant. -/
theorem Invariant.exec [Inhabited ρ] {op : Op} (hsafe : Safe op s)
    (hrun : s.exec userFrame op = some s') : Invariant s' := by
  cases op with
  | queueSignal pid signal siginfo => exact h.queueSignal hrun
  | queueSignalToThread tid signal siginfo => exact h.queueSignalToThread hsafe hrun
  | check tid => exact h.check hrun
  | take tid => exact h.take hrun
  | act tid => exact h.act hrun
  | store tid => exact h.store hrun
  | dequeueFromThread tid waitMask => exact h.dequeueFromThread hrun
  | dequeueFromProcess tid => exact h.dequeueFromProcess hrun
  | fork tid childPid childTid => exact h.fork hsafe hrun

omit h

/-- In every run in which no signal is sent to a thread that works on its pending set and no process
with pending signals forks, every signal that has been inserted has been consumed by its owner once
or is still held. -/
theorem signals_conserved [Inhabited ρ] (userFrame : ℕ → UInt64 × UInt64)
    (processes : ℕ → Option Process) (threads : ℕ → Option (Worker ρ ξ))
    (hidle : ∀ tid worker, threads tid = some worker → worker.place.isOpen = false) (ops : List Op)
    (hsafe : SafeRun (exec userFrame) Safe ops (start processes threads)) (s : System ρ ξ)
    (hrun : runOps (exec userFrame) ops (start processes threads) = some s) : Conserved s := by
  have hstart : Invariant (start processes threads) := by
    refine ⟨fun owner signal => ?_, fun tid worker hworker hopen => ?_⟩
    · exact (Nat.zero_add _).symm
    · rw [hidle tid worker hworker] at hopen
      cases hopen
  exact (SafeRun.invariant (fun op s s' hop hexec h => h.exec hop hexec) hsafe hstart
    hrun).conserved

end

/-! ## Lost and duplicated signals -/

/-- Process 1 leaves all signals to their default actions. -/
def oneProcess : ℕ → Option Process
  | 1 => some {
      signalActions := fun _ => ⟨.default, .empty, 0, 0⟩
      pending := .empty
      dumpable := true
      rlimitCoreCur := 0
      exitStatus := none
      written := []
      frames := [] }
  | _ => none

/-- Its only thread, with id 7. -/
def oneThread : ℕ → Option (Worker Unit Unit)
  | 7 => some {
      thread := {
        snapshotState := .normal
        snapshot := ⟨0x1000, 0x7000, 0, 0, 0, (), (), 0⟩
        sigHandlerSnapshot := ⟨0, 0, 0, 0, 0, (), (), 0⟩
        sigaltstack := ⟨0, 2, 0⟩
        blockedSignals := .empty
        savedBlockedSignals := []
        temporaryBlockedSignals := none
        interruptibleWaitActive := false
        interruptedBySignal := false
        pending := .empty }
      parent := 1
      place := .idle }
  | _ => none

/-- What the books say about an owner and `SIGUSR1` after some steps: inserted, consumed and held.
-/
def books (ops : List Op) (owner : Owner) : Option (ℕ × ℕ × ℕ) :=
  (runOps (exec fun _ => (0, 0)) ops (start oneProcess oneThread)).map fun s =>
    (s.inserted owner .SIGUSR1, s.consumed owner .SIGUSR1, s.held owner .SIGUSR1)

/-- A signal for the process, one for the thread before it begins, and a fork. -/
def orderlyRun : List Op :=
  [.queueSignalToThread 7 .SIGUSR1 none, .check 7, .take 7, .queueSignal 1 .SIGUSR2 none, .act 7,
    .store 7, .fork 7 2 8]

/-- A signal is queued, taken and delivered. -/
theorem signals_conserved_orderly : books orderlyRun (.thread 7) = some (1, 1, 0) ∧
      ∀ s, runOps (exec fun _ => (0, 0)) orderlyRun (start oneProcess oneThread) =
        some s → Conserved s := by
  refine ⟨by decide +kernel, signals_conserved (fun _ => (0, 0)) oneProcess oneThread ?_ orderlyRun
    (by decide +kernel)⟩
  intro tid worker hworker
  unfold oneThread at hworker
  split at hworker
  · cases hworker
    rfl
  · cases hworker

/-- A signal for the thread that arrives while the thread works is neither consumed nor held. A
signal that has been sent to the parent only is held by the child too. -/
theorem signal_lost_and_duplicated :
    books [.check 7, .take 7, .queueSignalToThread 7 .SIGUSR1 none, .act 7, .store 7] (.thread 7) =
      some (1, 0, 0) ∧
    books [.queueSignal 1 .SIGUSR1 none, .fork 7 2 8] (.process 1) = some (1, 0, 1) ∧
    books [.queueSignal 1 .SIGUSR1 none, .fork 7 2 8] (.process 2) = some (0, 0, 1) := by
  decide +kernel

end Seele.Signalling.Conservation
