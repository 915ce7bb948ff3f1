import Mathlib.Logic.Function.Basic
import Mathlib.Data.List.Basic

/-!
# The endpoints of `object/pipe.rs`

A pipe is a byte buffer with a capacity and the numbers of descriptor references to its two
endpoints. Every method takes the lock of one pipe once (`tee_to` that of two), so each definition
below is one atomic step: it gives the reply, the pollers it wakes and the pipes afterwards. One
round of the loops of `read` and `write` is an `Attempt`, which either answers the caller or says
which event to sleep for. `isEventReady` compares the buffer with thresholds of its own, and the
wakes are issued under other conditions. `wakes_iff` says exactly for which steps the two agree.
-/

namespace Seele.Polling

/-- `PollableEvent`. -/
inductive PollableEvent where
  | canBeRead
  | canBeWritten
  | priority
  | error
  | closed
  | readClosed
  | pipeWriteSpace
  | other (bits : UInt64)
deriving DecidableEq, Repr

end Seele.Polling

namespace Seele.Pipe

open Seele.Polling Function

/-! ## The state -/

/-- `PIPE_CAPACITY`. -/
def PIPE_CAPACITY : ℕ := 65536

/-- `PIPE_BUF`. -/
def PIPE_BUF : ℕ := 4096

/-- `PIPE_MAX_SIZE_LIMIT`. -/
def PIPE_MAX_SIZE_LIMIT : ℕ := 0x80000000

/-- `PipeState`. -/
structure PipeState where
  buffer : List UInt8
  capacity : ℕ
  readers : ℕ
  writers : ℕ
deriving DecidableEq, Repr
open PipeState

/-- `PipeEndpointKind`. -/
inductive PipeEndpointKind where
  | read
  | write
deriving DecidableEq, Repr

/-- `PipeEndpoint`: `inner` is the identity of the shared `PipeInner`. What a step reads of the
status flags is an argument of the step. -/
structure PipeEndpoint where
  inner : ℕ
  kind : PipeEndpointKind
deriving DecidableEq, Repr

/-- All pipes, by the identity of their `PipeInner`. -/
abbrev Pipes := ℕ → PipeState

/-- `capacity.saturating_sub(buffer.len())`. -/
def PipeState.available (s : PipeState) : ℕ := s.capacity - s.buffer.length

/-- `default_pipe_capacity`, for a creator with or without the privilege and a value of
`PROC_PIPE_MAX_SIZE`. -/
def defaultPipeCapacity (privileged : Bool) (procPipeMaxSize : ℕ) : ℕ :=
  if privileged then PIPE_CAPACITY else max (min PIPE_CAPACITY procPipeMaxSize) PIPE_BUF

/-- `PipeEndpoint::pair`: a new pipe, without references so far. -/
def pair (privileged : Bool) (procPipeMaxSize : ℕ) : PipeState where
  buffer := []
  capacity := defaultPipeCapacity privileged procPipeMaxSize
  readers := 0
  writers := 0

/-- `Pollable::is_event_ready`. -/
def isEventReady (s : PipeState) : PipeEndpointKind → PollableEvent → Bool
  | .read, .canBeRead => !s.buffer.isEmpty || s.writers == 0
  | .read, .closed => s.writers == 0
  | .read, .readClosed => s.writers == 0
  | .write, .canBeWritten => s.readers == 0 || decide (PIPE_BUF ≤ s.available)
  | .write, .pipeWriteSpace => s.readers == 0 || decide (s.buffer.length < s.capacity)
  | .write, .closed => s.readers == 0
  | _, _ => false

/-! ## The methods -/

/-- A call of `wake_pollers_for_object`. -/
structure Wake where
  object : PipeEndpoint
  event : PollableEvent
deriving DecidableEq, Repr

/-- `wake_readers`. -/
def wakeReaders (inner : ℕ) : List Wake := [⟨⟨inner, .read⟩, .canBeRead⟩]

/-- `wake_writers`. -/
def wakeWriters (inner : ℕ) : List Wake := [⟨⟨inner, .write⟩, .canBeWritten⟩]

/-- `wake_blocked_writers`. -/
def wakeBlockedWriters (inner : ℕ) : List Wake := [⟨⟨inner, .write⟩, .pipeWriteSpace⟩]

/-- The errors of the pipe methods, of `ObjectError` and `SyscallError`. -/
inductive PipeError where
  | invalidArguments
  | tryAgain
  | brokenPipe
  | deviceOrResourceBusy
  | permissionDenied
deriving DecidableEq, Repr

/-- One round of a loop that may have to wait. -/
inductive Attempt (α : Type) where
  | returned (result : Except PipeError α)
  | wait (event : PollableEvent)
deriving DecidableEq

/-- What a step answers, whom it wakes and the pipes it leaves. -/
structure Effect (α : Type) where
  reply : α
  wakes : List Wake
  pipes : Pipes

open Effect

/-- A step that changes nothing and wakes nobody. -/
def Effect.idle {α : Type} (reply : α) (ps : Pipes) : Effect α := ⟨reply, [], ps⟩

variable (self : PipeEndpoint)

/-- `clone_fd_reference`. -/
def cloneFdReference (ps : Pipes) : Effect Unit :=
  let state := ps self.inner
  match self.kind with
  | .read => ⟨(), [], Function.update ps self.inner { state with readers := state.readers + 1 }⟩
  | .write => ⟨(), [], Function.update ps self.inner { state with writers := state.writers + 1 }⟩

/-- `close_fd_reference`. -/
def closeFdReference (ps : Pipes) : Effect Unit :=
  let state := ps self.inner
  match self.kind with
  | .read =>
    let readers := state.readers - 1
    ⟨(), if readers = 0 then wakeWriters self.inner ++ wakeBlockedWriters self.inner else [],
      Function.update ps self.inner { state with readers := readers }⟩
  | .write =>
    let writers := state.writers - 1
    ⟨(), if writers = 0 then wakeReaders self.inner else [],
      Function.update ps self.inner { state with writers := writers }⟩

/-- One round of `read`, into a buffer of `len` bytes. The reply is what the round stores there. -/
def read (len : ℕ) (nonblocking : Bool) (ps : Pipes) :
    Effect (Attempt (List UInt8)) :=
  let state := ps self.inner
  if self.kind ≠ .read then .idle (.returned (.error .invalidArguments)) ps
  else if len = 0 then .idle (.returned (.ok [])) ps
  else if state.buffer ≠ [] then
    let wasFull := decide (state.capacity ≤ state.buffer.length)
    let readLen := min len state.buffer.length
    ⟨.returned (.ok (state.buffer.take readLen)),
      if wasFull then wakeWriters self.inner ++ wakeBlockedWriters self.inner else [],
      Function.update ps self.inner { state with buffer := state.buffer.drop readLen }⟩
  else if state.writers = 0 then .idle (.returned (.ok [])) ps
  else if nonblocking then .idle (.returned (.error .tryAgain)) ps
  else .idle (.wait .canBeRead) ps

/-- One round of `write`. -/
def write (buffer : List UInt8) (nonblocking : Bool) (ps : Pipes) :
    Effect (Attempt ℕ) :=
  let state := ps self.inner
  if self.kind ≠ .write then .idle (.returned (.error .invalidArguments)) ps
  else if buffer = [] then .idle (.returned (.ok 0)) ps
  else if state.readers = 0 then .idle (.returned (.error .brokenPipe)) ps
  else if 0 < state.available then
    let writeLen := min buffer.length state.available
    ⟨.returned (.ok writeLen), wakeReaders self.inner, Function.update ps self.inner
        { state with buffer := state.buffer ++ buffer.take writeLen }⟩
  else if nonblocking then .idle (.returned (.error .tryAgain)) ps
  else .idle (.wait .pipeWriteSpace) ps

/-- `tee_to`. -/
def teeTo (self output : PipeEndpoint) (len : ℕ) (ps : Pipes) : Effect (Except PipeError ℕ) :=
  let input := ps self.inner
  let outputState := ps output.inner
  let copyLen := min (min len input.buffer.length) outputState.available
  if self.kind ≠ .read ∨ output.kind ≠ .write then .idle (.error .invalidArguments) ps
  else if self.inner = output.inner then .idle (.error .invalidArguments) ps
  else if input.buffer = [] then .idle (.error .tryAgain) ps
  else if outputState.readers = 0 then .idle (.error .brokenPipe) ps
  else if outputState.available = 0 then .idle (.error .tryAgain) ps
  else if copyLen = 0 then .idle (.error .tryAgain) ps
  else
    ⟨.ok copyLen, wakeReaders output.inner, Function.update ps output.inner
        { outputState with buffer := outputState.buffer ++ input.buffer.take copyLen }⟩

/-- `set_capacity`, with the value of `PROC_PIPE_MAX_SIZE` it reads. -/
def setCapacity (capacity pipeMaxSize : ℕ) (ps : Pipes) :
    Effect (Except PipeError ℕ) :=
  let state := ps self.inner
  if PIPE_MAX_SIZE_LIMIT < capacity then .idle (.error .invalidArguments) ps
  else if capacity < state.buffer.length then .idle (.error .deviceOrResourceBusy) ps
  else if pipeMaxSize < capacity then .idle (.error .permissionDenied) ps
  else
    ⟨.ok (max capacity PIPE_BUF), [],
      Function.update ps self.inner { state with capacity := max capacity PIPE_BUF }⟩

/-! ## Steps -/

/-- One atomic step of some caller. -/
inductive PipeOp where
  | cloneFdReference (self : PipeEndpoint)
  | closeFdReference (self : PipeEndpoint)
  | read (self : PipeEndpoint) (len : ℕ) (nonblocking : Bool)
  | write (self : PipeEndpoint) (buffer : List UInt8) (nonblocking : Bool)
  | teeTo (self output : PipeEndpoint) (len : ℕ)
  | setCapacity (self : PipeEndpoint) (capacity pipeMaxSize : ℕ)
deriving DecidableEq

/-- What a step answers. -/
inductive Reply where
  | none
  | read (round : Attempt (List UInt8))
  | write (round : Attempt ℕ)
  | count (result : Except PipeError ℕ)

/-- The same step with its reply as a `Reply`. -/
def Effect.map {α β : Type} (f : α → β) (e : Effect α) : Effect β := ⟨f e.reply, e.wakes, e.pipes⟩

/-- The step that an operation takes. -/
def exec (op : PipeOp) (ps : Pipes) : Effect Reply :=
  match op with
  | .cloneFdReference self => (cloneFdReference self ps).map fun _ => .none
  | .closeFdReference self => (closeFdReference self ps).map fun _ => .none
  | .read self len nonblocking => (read self len nonblocking ps).map .read
  | .write self buffer nonblocking => (write self buffer nonblocking ps).map .write
  | .teeTo self output len => (teeTo self output len ps).map .count
  | .setCapacity self capacity pipeMaxSize =>
    (setCapacity self capacity pipeMaxSize ps).map .count

/-- The pipe that a step can change. -/
def PipeOp.target : PipeOp → ℕ
  | .cloneFdReference self => self.inner
  | .closeFdReference self => self.inner
  | .read self _ _ => self.inner
  | .write self _ _ => self.inner
  | .teeTo _ output _ => output.inner
  | .setCapacity self _ _ => self.inner

/-- The other pipes stay. -/
theorem exec_pipes_of_ne {op : PipeOp} {ps : Pipes} {id : ℕ} (h : id ≠ op.target) :
    (exec op ps).pipes id = ps id := by
  cases op <;> simp only [PipeOp.target] at h
  case cloneFdReference self =>
    simp only [exec, map, cloneFdReference]
    split <;> simp [update_of_ne h]
  case closeFdReference self =>
    simp only [exec, map, closeFdReference]
    split <;> simp [update_of_ne h]
  case read self len nonblocking =>
    simp only [exec, map, read, idle]
    split_ifs <;> simp [update_of_ne h]
  case write self buffer nonblocking =>
    simp only [exec, map, write, idle]
    split_ifs <;> simp [update_of_ne h]
  case teeTo self output len =>
    simp only [exec, map, teeTo, idle]
    split_ifs <;> simp [update_of_ne h]
  case setCapacity self capacity pipeMaxSize =>
    simp only [exec, map, setCapacity, idle]
    split_ifs <;> simp [update_of_ne h]

/-! ## Readiness and wakes -/

/-- Every event of the pipe's endpoints that turns ready between the two states is among the
wakes. -/
def Announces (id : ℕ) (s s' : PipeState) (wakes : List Wake) : Prop :=
  ∀ kind event, isEventReady s kind event = false → isEventReady s' kind event = true →
    ⟨⟨id, kind⟩, event⟩ ∈ wakes

/-- Nothing changes. -/
theorem Announces.refl (id : ℕ) (s : PipeState) (wakes : List Wake) : Announces id s s wakes := by
  intro kind event hbefore hafter
  rw [hbefore] at hafter
  exact absurd hafter (by decide)

/-- The events, one by one. -/
theorem announces_iff (id : ℕ) (s s' : PipeState) (wakes : List Wake) : Announces id s s' wakes ↔
      (s.buffer.length = 0 → s.writers ≠ 0 → s'.buffer.length ≠ 0 ∨ s'.writers = 0 →
        ⟨⟨id, .read⟩, .canBeRead⟩ ∈ wakes) ∧
      (s.writers ≠ 0 → s'.writers = 0 →
        ⟨⟨id, .read⟩, .closed⟩ ∈ wakes ∧ ⟨⟨id, .read⟩, .readClosed⟩ ∈ wakes) ∧
      (s.readers ≠ 0 → s.available < PIPE_BUF → s'.readers = 0 ∨ PIPE_BUF ≤ s'.available →
        ⟨⟨id, .write⟩, .canBeWritten⟩ ∈ wakes) ∧
      (s.readers ≠ 0 → s.capacity ≤ s.buffer.length →
        s'.readers = 0 ∨ s'.buffer.length < s'.capacity →
        ⟨⟨id, .write⟩, .pipeWriteSpace⟩ ∈ wakes) ∧
      (s.readers ≠ 0 → s'.readers = 0 → ⟨⟨id, .write⟩, .closed⟩ ∈ wakes) := by
  constructor
  · intro h
    refine ⟨fun h1 h2 h3 => h .read .canBeRead ?_ ?_,
      fun h1 h2 => ⟨h .read .closed (by simp [isEventReady, h1]) (by simp [isEventReady, h2]),
        h .read .readClosed (by simp [isEventReady, h1]) (by simp [isEventReady, h2])⟩,
      fun h1 h2 h3 => h .write .canBeWritten (by simp [isEventReady, h1, h2]) ?_,
      fun h1 h2 h3 => h .write .pipeWriteSpace (by simp [isEventReady, h1, h2]) ?_,
      fun h1 h2 => h .write .closed (by simp [isEventReady, h1]) (by simp [isEventReady, h2])⟩
    · simpa [isEventReady] using And.intro (List.length_eq_zero_iff.mp h1) h2
    · simpa [isEventReady] using h3
    · simpa [isEventReady] using h3
    · simpa [isEventReady] using h3
  rintro ⟨hread, hclosed, hwrite, hspace, hbroken⟩ kind event hbefore hafter
  cases kind <;> cases event <;> simp [isEventReady] at hbefore hafter
  case read.canBeRead =>
    grind
  case read.closed => exact (hclosed hbefore hafter).1
  case read.readClosed => exact (hclosed hbefore hafter).2
  case write.canBeWritten => exact hwrite hbefore.1 hbefore.2 hafter
  case write.closed => exact hbroken hbefore hafter
  case write.pipeWriteSpace => exact hspace hbefore.1 hbefore.2 hafter

/-- The steps that wake the pollers of every event they make ready. The last `close_fd_reference`
never does, as no method wakes for `Closed`. A `read` wakes writers only if the pipe was full, and
`set_capacity` wakes nobody. -/
def PipeOp.Announced (op : PipeOp) (ps : Pipes) : Prop :=
  match op with
  | .cloneFdReference _ => True
  | .closeFdReference ⟨inner, .read⟩ => (ps inner).readers ≠ 1
  | .closeFdReference ⟨inner, .write⟩ => (ps inner).writers ≠ 1
  | .read self len _ =>
    let state := ps self.inner
    self.kind = .read → state.readers ≠ 0 → state.buffer.length < state.capacity →
      PIPE_BUF ≤ state.available ∨ state.available + min len state.buffer.length < PIPE_BUF
  | .write _ _ _ => True
  | .teeTo _ _ _ => True
  | .setCapacity self capacity pipeMaxSize =>
    let state := ps self.inner
    capacity ≤ PIPE_MAX_SIZE_LIMIT → state.buffer.length ≤ capacity → capacity ≤ pipeMaxSize →
      state.readers ≠ 0 →
        (PIPE_BUF ≤ state.available ∨ max capacity PIPE_BUF < state.buffer.length + PIPE_BUF) ∧
        (state.buffer.length < state.capacity ∨ max capacity PIPE_BUF ≤ state.buffer.length)

variable (self : PipeEndpoint)

/-- When a close announces its events. -/
theorem closeFdReference_announces (ps : Pipes) :
    Announces self.inner (ps self.inner) ((closeFdReference self ps).pipes self.inner)
        (closeFdReference self ps).wakes ↔
      (PipeOp.closeFdReference self).Announced ps := by
  obtain ⟨inner, kind⟩ := self
  generalize hs : ps inner = s
  rw [announces_iff]
  cases kind with
  | read =>
    simp only [closeFdReference, PipeOp.Announced, hs, available]
    -- the last reader makes the write endpoint ready for three events and wakes it for two
    by_cases hlast : s.readers - 1 = 0
    · simp [wakeWriters, wakeBlockedWriters, -List.length_eq_zero_iff]
      omega
    · simp [-List.length_eq_zero_iff]
      omega
  | write =>
  simp only [closeFdReference, PipeOp.Announced, hs, available]
  by_cases hlast : s.writers - 1 = 0
  · simp [wakeReaders]
    omega
  · simp [-List.length_eq_zero_iff]
    omega

/-- A round of `read` announces everything unless it frees `PIPE_BUF` bytes of a pipe that was not
full. -/
theorem read_announces (len : ℕ) (nonblocking : Bool) (ps : Pipes) :
    Announces self.inner (ps self.inner) ((read self len nonblocking ps).pipes self.inner)
        (read self len nonblocking ps).wakes ↔
      (PipeOp.read self len nonblocking).Announced ps := by
  simp only [PipeOp.Announced]
  generalize hs : ps self.inner = s
  by_cases hread : self.kind = .read ∧ len ≠ 0 ∧ s.buffer ≠ []
  · obtain ⟨hkind, hlen, hbuffer⟩ := hread
    rw [announces_iff]
    by_cases hfull : s.capacity ≤ s.buffer.length
    · simp [read, hs, hkind, hlen, hbuffer, wakeWriters, wakeBlockedWriters]
      omega
    · simp [read, hs, hkind, hlen, hbuffer, available]
      omega
  have hsame : (read self len nonblocking ps).pipes = ps := by
    simp only [read]
    split_ifs <;> first | rfl | simp_all
  rw [hsame, hs]
  simp only [Announces.refl, true_iff]
  intro hkind hreaders hfree
  have hnone : min len s.buffer.length = 0 := by grind
  omega

/-- Added bytes are announced. -/
theorem append_announces {id : ℕ} {s : PipeState} (bytes : List UInt8) :
    Announces id s { s with buffer := s.buffer ++ bytes } (wakeReaders id) := by
  rw [announces_iff]
  simp [wakeReaders, available]
  omega

/-- `write` announces its events. -/
theorem write_announces (buffer : List UInt8) (nonblocking : Bool) (ps : Pipes) :
    Announces self.inner (ps self.inner) ((write self buffer nonblocking ps).pipes self.inner)
      (write self buffer nonblocking ps).wakes := by
  simp only [write]
  split_ifs
  any_goals exact .refl _ _ _
  simpa using append_announces _

/-- `tee_to` announces its events. -/
theorem teeTo_announces (self output : PipeEndpoint) (len : ℕ) (ps : Pipes) :
    Announces output.inner (ps output.inner) ((teeTo self output len ps).pipes output.inner)
      (teeTo self output len ps).wakes := by
  simp only [teeTo]
  split_ifs
  any_goals exact .refl _ _ _
  grind [append_announces]

/-- When `set_capacity` announces its events. -/
theorem setCapacity_announces (capacity pipeMaxSize : ℕ) (ps : Pipes) :
    Announces self.inner (ps self.inner)
        ((setCapacity self capacity pipeMaxSize ps).pipes self.inner)
        (setCapacity self capacity pipeMaxSize ps).wakes ↔
      (PipeOp.setCapacity self capacity pipeMaxSize).Announced ps := by
  simp only [PipeOp.Announced]
  generalize hs : ps self.inner = s
  by_cases hset : capacity ≤ PIPE_MAX_SIZE_LIMIT ∧ s.buffer.length ≤ capacity ∧
      capacity ≤ pipeMaxSize
  · obtain ⟨hlimit, hfits, hmax⟩ := hset
    rw [announces_iff]
    simp [setCapacity, hs, Nat.not_lt.mpr hlimit, Nat.not_lt.mpr hfits, Nat.not_lt.mpr hmax,
      available, -List.length_eq_zero_iff]
    omega
  have hsame : (setCapacity self capacity pipeMaxSize ps).pipes = ps := by
    simp only [setCapacity, hs]
    split_ifs <;> first | rfl | (exfalso; omega)
  grind [Announces.refl]

/-- `clone_fd_reference` announces its events. -/
theorem cloneFdReference_announces (ps : Pipes) :
    Announces self.inner (ps self.inner) ((cloneFdReference self ps).pipes self.inner)
      (cloneFdReference self ps).wakes := by
  rw [announces_iff]
  simp only [cloneFdReference]
  split <;> simp [available, -List.length_eq_zero_iff] <;> omega

/-- When an operation announces its events. -/
theorem target_announces_iff (op : PipeOp) (ps : Pipes) :
    Announces op.target (ps op.target) ((exec op ps).pipes op.target) (exec op ps).wakes ↔
      op.Announced ps := by
  cases op with
  | cloneFdReference self => exact iff_of_true (cloneFdReference_announces self ps) trivial
  | closeFdReference self => exact closeFdReference_announces self ps
  | read self len nonblocking => exact read_announces self len nonblocking ps
  | write self buffer nonblocking =>
    exact iff_of_true (write_announces self buffer nonblocking ps) trivial
  | teeTo self output len => exact iff_of_true (teeTo_announces self output len ps) trivial
  | setCapacity self capacity pipeMaxSize =>
    exact setCapacity_announces self capacity pipeMaxSize ps

/-- In every state, a step wakes the pollers of all endpoints and events that it turns from not
ready to ready, exactly if it is one of `PipeOp.Announced`. -/
theorem wakes_iff (op : PipeOp) (ps : Pipes) : (∀ (self : PipeEndpoint) (event : PollableEvent),
      isEventReady (ps self.inner) self.kind event = false →
      isEventReady ((exec op ps).pipes self.inner) self.kind event = true →
      ⟨self, event⟩ ∈ (exec op ps).wakes) ↔ op.Announced ps := by
  rw [← target_announces_iff]
  constructor
  · intro h kind event
    exact h ⟨op.target, kind⟩ event
  intro h self event hbefore hafter
  by_cases hself : self.inner = op.target
  · obtain ⟨inner, kind⟩ := self
    subst hself
    exact h kind event hbefore hafter
  · rw [exec_pipes_of_ne hself, hbefore] at hafter
    exact absurd hafter (by decide)

/-- The pipes after the first steps of a process that opens a pipe, shrinks it to `PIPE_BUF` bytes
and writes one byte. -/
def openedPipe : Pipes :=
  [PipeOp.cloneFdReference ⟨0, .read⟩, .cloneFdReference ⟨0, .write⟩,
    .setCapacity ⟨0, .read⟩ 4096 1048576, .write ⟨0, .write⟩ [7] false].foldl
    (fun ps op => (exec op ps).pipes) fun _ => pair true 1048576

/-- Reading that byte makes the pipe writable, and no poller of its write end is woken. -/
theorem read_leaves_writer_asleep : isEventReady (openedPipe 0) .write .canBeWritten = false ∧
    isEventReady ((exec (.read ⟨0, .read⟩ 1 false) openedPipe).pipes 0) .write .canBeWritten =
      true ∧
    (exec (.read ⟨0, .read⟩ 1 false) openedPipe).wakes = [] := by
  decide

end Seele.Pipe
