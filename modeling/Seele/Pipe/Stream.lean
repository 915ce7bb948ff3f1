import Mathlib.Data.List.TakeDrop
import Seele.Pipe.Endpoint

/-!
# A pipe as a byte stream

A `History` keeps, for every pipe, the blocks that `write` and `tee_to` calls had accepted, in that
order, and the bytes that `read` calls got. Whatever the order of the steps, what was read and what
is still buffered make up what was accepted (`History.Conserved`), and the buffer fits the capacity
(`History.Bounded`). A `write` is atomic if it adds its whole buffer as one block or nothing. The
code appends as much as there is room for: `run_stream` says that a `write` is atomic exactly if it
finds no reader, no room, or room for all of its bytes.
-/

namespace Seele.Pipe

open Effect PipeOp Function

/-! ## Histories -/

/-- The bytes that a step appends to its target: the first bytes of its buffer for `write`, of the
input pipe for `tee_to`, as many as the call reports. -/
def acceptedBytes (op : PipeOp) (ps : Pipes) : List UInt8 :=
  match op, (exec op ps).reply with
  | .write _ buffer _, .write (.returned (.ok writeLen)) => buffer.take writeLen
  | .teeTo self _ _, .count (.ok copyLen) => (ps self.inner).buffer.take copyLen
  | _, _ => []

/-- The bytes that a step hands to its caller. -/
def deliveredBytes (op : PipeOp) (ps : Pipes) : List UInt8 :=
  match (exec op ps).reply with
  | .read (.returned (.ok bytes)) => bytes
  | _ => []

/-- The pipes with what was accepted into each of them and what was read from it. -/
structure History where
  pipes : Pipes
  accepted : ℕ → List (List UInt8)
  delivered : ℕ → List UInt8

open History

/-- New pipes, each created with or without the privilege and under some maximal size. -/
def History.start (privileged : ℕ → Bool) (procPipeMaxSize : ℕ → ℕ) : History where
  pipes id := pair (privileged id) (procPipeMaxSize id)
  accepted _ := []
  delivered _ := []

/-- The history after one more step. -/
def History.step (h : History) (op : PipeOp) : History where
  pipes := (exec op h.pipes).pipes
  accepted :=
    let bytes := acceptedBytes op h.pipes
    if bytes = [] then h.accepted
    else Function.update h.accepted op.target (h.accepted op.target ++ [bytes])
  delivered :=
    Function.update h.delivered op.target (h.delivered op.target ++ deliveredBytes op h.pipes)

/-- The history after a list of steps. -/
def History.run (h : History) (ops : List PipeOp) : History := ops.foldl step h

/-- What a step keeps, a run keeps. -/
theorem History.run_invariant {I : History → Prop} (hstep : ∀ h op, I h → I (h.step op)) :
    ∀ (ops : List PipeOp) {h : History}, I h → I (h.run ops)
  | [], _, hI => hI
  | op :: ops, _, hI => run_invariant hstep ops (hstep _ op hI)

/-! ## Nothing is lost or reordered -/

/-- What was read and what is still buffered is what was accepted. -/
def History.Conserved (h : History) : Prop :=
  ∀ id, h.delivered id ++ (h.pipes id).buffer = (h.accepted id).flatten

/-- A step takes the bytes it delivers off the front of its target and puts those it accepts at the
back. -/
theorem exec_buffer (op : PipeOp) (ps : Pipes) : (ps op.target).buffer ++ acceptedBytes op ps =
      deliveredBytes op ps ++ ((exec op ps).pipes op.target).buffer := by
  cases op with
  | cloneFdReference self =>
    simp only [acceptedBytes, deliveredBytes, exec, map, cloneFdReference, target]
    split <;> simp
  | closeFdReference self =>
    simp only [acceptedBytes, deliveredBytes, exec, map, closeFdReference, target]
    split <;> simp
  | read self len nonblocking =>
    simp only [acceptedBytes, deliveredBytes, exec, map, read, idle, target]
    split_ifs <;> simp
  | write self buffer nonblocking =>
    simp only [acceptedBytes, deliveredBytes, exec, map, write, idle, target]
    split_ifs <;> simp
  | teeTo self output len =>
    simp only [acceptedBytes, deliveredBytes, exec, map, teeTo, idle, target]
    split_ifs <;> simp
  | setCapacity self capacity pipeMaxSize =>
    simp only [acceptedBytes, deliveredBytes, exec, map, setCapacity, idle, target]
    split_ifs <;> simp

/-- The bytes accepted by a step. -/
theorem History.step_accepted_flatten (h : History) (op : PipeOp) :
    ((h.step op).accepted op.target).flatten =
      (h.accepted op.target).flatten ++ acceptedBytes op h.pipes := by
  simp only [step]
  split_ifs with hbytes
  · simp [hbytes]
  · simp

/-- The other pipes stay. -/
theorem History.step_of_ne (h : History) {op : PipeOp} {id : ℕ} (hid : id ≠ op.target) :
    (h.step op).pipes id = h.pipes id ∧ (h.step op).accepted id = h.accepted id ∧
      (h.step op).delivered id = h.delivered id := by
  refine ⟨exec_pipes_of_ne hid, ?_, update_of_ne hid _ _⟩
  simp only [step]
  split_ifs
  · rfl
  · exact update_of_ne hid _ _

variable {h : History}

/-- A step loses no byte. -/
theorem History.Conserved.step (hc : h.Conserved) (op : PipeOp) :
    (h.step op).Conserved := by
  intro id
  by_cases hid : id = op.target
  · subst hid
    calc (h.step op).delivered op.target ++ ((h.step op).pipes op.target).buffer
        = h.delivered op.target ++ (deliveredBytes op h.pipes ++
            ((exec op h.pipes).pipes op.target).buffer) := by
          simp [History.step]
      _ = h.delivered op.target ++ (h.pipes op.target).buffer ++ acceptedBytes op h.pipes := by
          rw [← exec_buffer, List.append_assoc]
      _ = (h.accepted op.target).flatten ++ acceptedBytes op h.pipes := by rw [hc]
      _ = ((h.step op).accepted op.target).flatten := (h.step_accepted_flatten op).symm
  · obtain ⟨hpipe, haccepted, hdelivered⟩ := h.step_of_ne hid
    rw [hpipe, haccepted, hdelivered]
    exact hc id

/-! ## The capacity -/

/-- Every buffer fits the capacity of its pipe. -/
def History.Bounded (h : History) : Prop :=
  ∀ id, (h.pipes id).buffer.length ≤ (h.pipes id).capacity

/-- There is room for the bytes. -/
theorem length_append_le_capacity {s : PipeState} {bytes : List UInt8}
    (hfits : s.buffer.length ≤ s.capacity) (hroom : bytes.length ≤ s.available) :
    (s.buffer ++ bytes).length ≤ s.capacity := by
  grind [PipeState.available]

/-- An operation keeps within the capacity. -/
theorem exec_length_le_capacity (op : PipeOp) (ps : Pipes)
    (hfits : (ps op.target).buffer.length ≤ (ps op.target).capacity) :
    ((exec op ps).pipes op.target).buffer.length ≤ ((exec op ps).pipes op.target).capacity := by
  cases op with
  | cloneFdReference self =>
    simp only [exec, map, cloneFdReference, target] at hfits ⊢
    split <;> simpa using hfits
  | closeFdReference self =>
    simp only [exec, map, closeFdReference, target] at hfits ⊢
    split <;> simpa using hfits
  | read self len nonblocking =>
    simp only [exec, map, read, target] at hfits ⊢
    split_ifs
    any_goals exact hfits
    all_goals
      simp only [update_self, List.length_drop]
      omega
  | write self buffer nonblocking =>
    simp only [exec, map, write] at hfits ⊢
    split_ifs
    any_goals exact hfits
    grind [length_append_le_capacity]
  | teeTo self output len =>
    simp only [exec, map, teeTo] at hfits ⊢
    split_ifs
    any_goals exact hfits
    grind [length_append_le_capacity]
  | setCapacity self capacity pipeMaxSize =>
  simp only [exec, map, setCapacity, target] at hfits ⊢
  split_ifs
  any_goals exact hfits
  simp only [update_self]
  omega

/-- A step keeps within the capacity. -/
theorem History.Bounded.step (hb : h.Bounded) (op : PipeOp) :
    (h.step op).Bounded := by
  intro id
  by_cases hid : id = op.target
  · subst hid
    exact exec_length_le_capacity op h.pipes (hb op.target)
  · rw [(h.step_of_ne hid).1]
    exact hb id

/-! ## Atomic writes -/

/-- A `write` of this buffer does not have to cut it: nobody reads the pipe, it is full, or there is
room for the whole buffer. -/
def PipeState.TakesWhole (s : PipeState) (buffer : List UInt8) : Prop :=
  s.readers = 0 ∨ s.available = 0 ∨ buffer.length ≤ s.available

/-- What a write accepts. -/
theorem acceptedBytes_write (id : ℕ) (buffer : List UInt8) (nonblocking : Bool) (ps : Pipes) :
    acceptedBytes (.write ⟨id, .write⟩ buffer nonblocking) ps =
      if (ps id).readers = 0 then [] else buffer.take (ps id).available := by
  simp only [acceptedBytes, exec, map, write, idle]
  by_cases hreaders : (ps id).readers = 0
  · by_cases hbuffer : buffer = [] <;> simp [hreaders, hbuffer]
  by_cases hbuffer : buffer = []
  · simp [hbuffer]
  · by_cases havailable : 0 < (ps id).available
    · simp [hreaders, hbuffer, havailable, Nat.min_comm]
    · grind

/-- A round of `write` adds its whole buffer as a block or nothing exactly if it does not have to
cut it. -/
theorem History.step_write_iff (h : History) (id : ℕ) (buffer : List UInt8) (nonblocking : Bool) :
    ((h.step (.write ⟨id, .write⟩ buffer nonblocking)).accepted id = h.accepted id ∨
      (h.step (.write ⟨id, .write⟩ buffer nonblocking)).accepted id = h.accepted id ++ [buffer]) ↔
      (h.pipes id).TakesWhole buffer := by
  simp only [step, acceptedBytes_write, target, PipeState.TakesWhole]
  by_cases hreaders : (h.pipes id).readers = 0
  · simp [hreaders]
  by_cases hnone : buffer.take (h.pipes id).available = []
  · have hzero : (h.pipes id).available = 0 ∨ buffer = [] := by simpa using hnone
    grind
  have hpos : (h.pipes id).available ≠ 0 := by
    intro hzero
    simp [hzero] at hnone
  simp [hreaders, hnone, hpos]

/-- In every state that steps of any callers reach, what was read is a prefix of what was accepted,
the buffer fits the capacity, and a `write` adds all of its bytes as one block or none of them
exactly if it finds no reader, no room, or room for all of them. -/
theorem run_stream (privileged : ℕ → Bool) (procPipeMaxSize : ℕ → ℕ) (ops : List PipeOp) (id : ℕ) :
    let h := (start privileged procPipeMaxSize).run ops
    h.delivered id <+: (h.accepted id).flatten ∧
      (h.pipes id).buffer.length ≤ (h.pipes id).capacity ∧
      ∀ (buffer : List UInt8) (nonblocking : Bool),
        let h' := h.step (.write ⟨id, .write⟩ buffer nonblocking)
        (h'.accepted id = h.accepted id ∨ h'.accepted id = h.accepted id ++ [buffer]) ↔
          (h.pipes id).TakesWhole buffer := by
  have hconserved : ((start privileged procPipeMaxSize).run ops).Conserved :=
    run_invariant (fun _ op hc => hc.step op) ops fun _ => rfl
  have hbounded : ((start privileged procPipeMaxSize).run ops).Bounded :=
    run_invariant (fun _ op hb => hb.step op) ops fun _ => Nat.zero_le _
  refine ⟨⟨_, hconserved id⟩, hbounded id, fun buffer nonblocking => ?_⟩
  exact step_write_iff _ id buffer nonblocking

/-- The steps of a process that opens a pipe, shrinks it to `PIPE_BUF` bytes and writes one byte. -/
def openAndWrite : List PipeOp :=
  [.cloneFdReference ⟨0, .read⟩, .cloneFdReference ⟨0, .write⟩,
    .setCapacity ⟨0, .read⟩ 4096 1048576, .write ⟨0, .write⟩ [7] false]

/-- A `write` of `PIPE_BUF` zeros then appends 4095 of them. -/
theorem write_cut_short : let h := (start (fun _ => true) fun _ => 1048576).run openAndWrite
    (h.step (.write ⟨0, .write⟩ (.replicate 4096 0) false)).accepted 0 =
      [[7], List.replicate 4095 0] := by
  intro h
  have hbytes : acceptedBytes (.write ⟨0, .write⟩ (.replicate 4096 0) false) h.pipes =
      .replicate 4095 0 := by
    rw [acceptedBytes_write]
    have hreaders : (h.pipes 0).readers = 1 := by decide
    have havailable : (h.pipes 0).available = 4095 := by decide
    grind
  simp only [step, hbytes]
  rfl

end Seele.Pipe
