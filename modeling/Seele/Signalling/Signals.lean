import Mathlib.Data.List.Nodup

/-!
# Signals and sets of signals

`Signals` is a word with one bit for every signal. The lemmas below say which signals are in a set
after `insert` and `remove`, and that a set is determined by its signals.
-/

namespace Seele.Signalling

/-- `Signal`. The number of a signal is one more than its place here. -/
inductive Signal where
  | SIGHUP | SIGINT | SIGQUIT | SIGILL | SIGTRAP | SIGABRT | SIGBUS | SIGFPE
  | SIGKILL | SIGUSR1 | SIGSEGV | SIGUSR2 | SIGPIPE | SIGALRM | SIGTERM | SIGSTKFLT
  | SIGCHLD | SIGCONT | SIGSTOP | SIGTSTP | SIGTTIN | SIGTTOU | SIGURG | SIGXCPU
  | SIGXFSZ | SIGVTALRM | SIGPROF | SIGWINCH | SIGIO | SIGPWR | SIGSYS | SIGCANCEL
  | SIGSETXID | SIGRTMIN | SIGRTMIN_PLUS_1 | SIGRTMIN_PLUS_2
  | SIGRTMIN_PLUS_3 | SIGRTMIN_PLUS_4 | SIGRTMIN_PLUS_5 | SIGRTMIN_PLUS_6
  | SIGRTMIN_PLUS_7 | SIGRTMIN_PLUS_8 | SIGRTMIN_PLUS_9 | SIGRTMIN_PLUS_10
  | SIGRTMIN_PLUS_11 | SIGRTMIN_PLUS_12 | SIGRTMIN_PLUS_13 | SIGRTMIN_PLUS_14
  | SIGRTMIN_PLUS_15 | SIGRTMIN_PLUS_16 | SIGRTMIN_PLUS_17 | SIGRTMIN_PLUS_18
  | SIGRTMIN_PLUS_19 | SIGRTMIN_PLUS_20 | SIGRTMIN_PLUS_21 | SIGRTMIN_PLUS_22
  | SIGRTMIN_PLUS_23 | SIGRTMIN_PLUS_24 | SIGRTMIN_PLUS_25 | SIGRTMIN_PLUS_26
  | SIGRTMIN_PLUS_27 | SIGRTMIN_PLUS_28 | SIGRTMIN_PLUS_29 | SIGRTMIN_PLUS_30
deriving DecidableEq, Repr

/-- `SIGNAL_AMOUNT`. -/
def SIGNAL_AMOUNT : ℕ := 64

namespace Signal

variable (signal : Signal)

/-- `index`. -/
def index : ℕ := signal.ctorIdx

/-- The signal as a number. -/
def number : UInt64 := UInt64.ofNat (signal.index + 1)

/-- `iter`. -/
def iter : List Signal := (List.range SIGNAL_AMOUNT).map Signal.ofNat

/-- A signal is known by its index. -/
theorem ofNat_index : Signal.ofNat signal.index = signal :=
  Signal.ofNat_ctorIdx signal

/-- An index is in range. -/
theorem index_lt : signal.index < SIGNAL_AMOUNT := by
  cases signal <;> decide

/-- An index is that of a signal. -/
theorem index_ofNat : ∀ i < SIGNAL_AMOUNT, (Signal.ofNat i).index = i := by decide

/-- Signals have different indices. -/
theorem index_inj {signal signal' : Signal} (h : signal.index = signal'.index) :
    signal = signal' := by
  rw [← ofNat_index signal, h, ofNat_index]

/-- The iteration reaches every signal. -/
theorem mem_iter : signal ∈ iter :=
  List.mem_map.mpr ⟨signal.index, List.mem_range.mpr signal.index_lt, ofNat_index signal⟩

/-- The iteration reaches a signal once. -/
theorem nodup_iter : iter.Nodup := by
  refine .map_on (fun i hi j hj h => ?_) List.nodup_range
  grind [index_ofNat]

/-- `is_realtime`. -/
def isRealtime : Bool := SIGRTMIN.index ≤ signal.index

/-- `is_unblockable`. -/
def isUnblockable : Signal → Bool
  | SIGKILL | SIGSTOP => true
  | _ => false

end Signal

/-- `Signals`. -/
structure Signals where
  bits : BitVec 64
deriving DecidableEq, Repr

namespace Signals

/-- `empty`. -/
def empty : Signals := ⟨0⟩

/-- `From<Signal>`. -/
def ofSignal (signal : Signal) : Signals := ⟨BitVec.twoPow 64 signal.index⟩

instance : Coe Signal Signals := ⟨ofSignal⟩

/-- `contains`. -/
def contains (signals other : Signals) : Bool := signals.bits &&& other.bits == other.bits

/-- `is_empty`. -/
def isEmpty (signals : Signals) : Bool := signals.bits == 0

/-- `insert`. -/
def insert (signals other : Signals) : Signals := ⟨signals.bits ||| other.bits⟩

/-- `remove`. -/
def remove (signals other : Signals) : Signals := ⟨signals.bits &&& ~~~other.bits⟩

/-- A signal is a bit. -/
theorem contains_signal (signals : Signals) (signal : Signal) :
    signals.contains signal = signals.bits.getLsbD signal.index := by
  have hbit : ∀ i, (signals.bits &&& BitVec.twoPow 64 signal.index).getLsbD i =
      (signals.bits.getLsbD i && (BitVec.twoPow 64 signal.index).getLsbD i) :=
    fun i => BitVec.getLsbD_and
  have hlt : signal.index < 64 := signal.index_lt
  unfold contains ofSignal
  cases hmem : signals.bits.getLsbD signal.index with
  | true | false => grind

/-- The empty set has none. -/
@[simp] theorem contains_empty (signal : Signal) : empty.contains signal = false := by
  simp [contains_signal, empty]

variable (signals other : Signals) (signal : Signal)

/-- What an insertion adds. -/
@[simp] theorem contains_insert :
    (signals.insert other).contains signal =
      (signals.contains signal || other.contains signal) := by
  simp [contains_signal, insert]

/-- What a removal leaves. -/
@[simp] theorem contains_remove :
    (signals.remove other).contains signal =
      (signals.contains signal && !other.contains signal) := by
  have hlt : signal.index < 64 := signal.index_lt
  simp [contains_signal, remove, hlt]

/-- The set of one signal. -/
@[simp] theorem ofSignal_contains (signal signal' : Signal) :
    (ofSignal signal).contains signal' = decide (signal = signal') := by
  have hlt : signal.index < 64 := signal.index_lt
  rw [contains_signal, ofSignal, BitVec.getLsbD_twoPow]
  grind [Signal.index_inj]

/-- A set is known by its signals. -/
theorem ext_contains {signals signals' : Signals}
    (h : ∀ signal : Signal, signals.contains signal = signals'.contains signal) :
    signals = signals' := by
  refine congrArg Signals.mk (BitVec.eq_of_getLsbD_eq fun i hi => ?_)
  have hsignal := h (Signal.ofNat i)
  rwa [contains_signal, contains_signal, Signal.index_ofNat i hi] at hsignal

/-- The empty set. -/
theorem isEmpty_iff {signals : Signals} :
    signals.isEmpty = true ↔ ∀ signal : Signal, signals.contains signal = false := by
  constructor
  · intro h signal
    have hempty : signals = empty := by exact congrArg Signals.mk (beq_iff_eq.mp h)
    rw [hempty, contains_empty]
  intro h
  have hempty : signals = empty := ext_contains fun signal => by rw [h, contains_empty]
  rw [hempty]
  rfl

end Signals

end Seele.Signalling
