import Seele.Lib.GuardedRun

/-!
# The counter of an eventfd

`object/anon/eventfd.rs` locks the counter for one section at a time, and a reader or writer that
has to wait tests the counter once more before it sleeps. A step of the model is one such section.
The test of a writer does not look at the value, so a value that does not fit makes it try again for
ever, and a notification is lost while the counter is at its overflow mark. Where neither happens
the counter is conserved and writers sleep when they should (`run_correct`).
-/

namespace Seele.EventFd

/-- `u64::MAX`, the counter after an overflow. -/
def U64_MAX : ℕ := 0xffffffffffffffff

/-- `EVENTFD_COUNTER_MAX`. -/
def EVENTFD_COUNTER_MAX : ℕ := U64_MAX - 1

/-- Where a caller is: before the section that takes the counter, before the test that follows
`prepare_block_current`, or asleep. -/
inductive Phase where
  | idle
  | read
  | readCheck
  | readAsleep
  | write (value : ℕ)
  | writeCheck (value : ℕ)
  | writeAsleep (value : ℕ)
deriving DecidableEq, Repr

/-- `EventFdObject` and its callers. `sent` and `received` add up what has been put in and what
reads have returned. -/
structure System where
  counter : ℕ
  semaphore : Bool
  callers : ℕ → Phase
  sent : ℕ
  received : ℕ

/-- `EventFdObject::new`. -/
def System.new (initial : ℕ) (semaphore : Bool) : System :=
  ⟨initial, semaphore, fun _ => .idle, initial, 0⟩

/-- `is_read_ready`. -/
def System.isReadReady (s : System) : Bool := 0 < s.counter

/-- `is_write_ready`. -/
def System.isWriteReady (s : System) : Bool := s.counter < EVENTFD_COUNTER_MAX

/-- The test of `write`. -/
def System.Fits (s : System) (value : ℕ) : Prop := value ≤ EVENTFD_COUNTER_MAX - s.counter

instance (s : System) (value : ℕ) : Decidable (s.Fits value) :=
  inferInstanceAs (Decidable (_ ≤ _))

/-- The caller goes on at another place. -/
def System.go (s : System) (caller : ℕ) (phase : Phase) : System :=
  { s with callers := fun other => if other = caller then phase else s.callers other }

/-- The steps: a call with a buffer that is long enough, the next section of a call, and
`notify_kernel_event`. Sleepers may be woken at any time, as `wake_io` wakes those of all objects.
-/
inductive Op where
  | read (caller : ℕ)
  | write (caller : ℕ) (value : ℕ)
  | next (caller : ℕ) (nonblock : Bool)
  | notifyKernelEvent
deriving DecidableEq, Repr

/-- The next section of a call. -/
def System.section (s : System) (caller : ℕ) (nonblock : Bool) : Phase → Option System
  | .idle => none
  | .readAsleep => some (s.go caller .read)
  | .writeAsleep value => some (s.go caller (.write value))
  | .readCheck => some (s.go caller (if s.isReadReady then .read else .readAsleep))
  | .writeCheck value =>
    some (s.go caller (if s.isWriteReady then .write value else .writeAsleep value))
  | .read =>
    if s.counter = 0 then some (s.go caller (if nonblock then .idle else .readCheck))
    else
      let value := if s.semaphore then 1 else s.counter
      some { s.go caller .idle with
        counter := s.counter - value, received := s.received + value }
  | .write value =>
    if s.Fits value then
      some { s.go caller .idle with counter := s.counter + value, sent := s.sent + value }
    else some (s.go caller (if nonblock then .idle else .writeCheck value))

/-- One step. -/
def exec : Op → System → Option System
  | .read caller, s => if s.callers caller = .idle then some (s.go caller .read) else none
  | .write caller value, s =>
    if s.callers caller = .idle ∧ value < U64_MAX then some (s.go caller (.write value)) else none
  | .next caller nonblock, s => s.section caller nonblock (s.callers caller)
  | .notifyKernelEvent, s =>
    let counter := if s.counter = EVENTFD_COUNTER_MAX then U64_MAX else min (s.counter + 1) U64_MAX
    some { s with counter := counter, sent := s.sent + 1 }

/-- No notification comes after an overflow, no zero is written then, and the test of a writer
before it sleeps agrees with the test of the section before. -/
def Safe (op : Op) (s : System) : Prop :=
  match op with
  | .notifyKernelEvent => s.counter < U64_MAX
  | .next caller _ =>
    (s.callers caller = .write 0 → s.counter < U64_MAX) ∧
      ∀ value, s.callers caller = .writeCheck value → (s.isWriteReady = true ↔ s.Fits value)
  | _ => True

/-- The counter and what has been read add up to what has been put in, and the counter is a
`u64`. -/
structure System.Kept (s : System) : Prop where
  sum : s.counter + s.received = s.sent
  le : s.counter ≤ U64_MAX

variable {s s' : System} {caller value : ℕ} {nonblock : Bool} {phase : Phase} {op : Op}

/-- Where the callers are does not matter. -/
theorem System.Kept.go (h : s.Kept) : (s.go caller phase).Kept := ⟨h.sum, h.le⟩

/-- A value that fits leaves the counter at most at its maximum, unless it is zero. -/
theorem System.Fits.add_le (h : s.Fits value) (hzero : value = 0 → s.counter < U64_MAX) :
    s.counter + value ≤ EVENTFD_COUNTER_MAX := by
  have hmax : EVENTFD_COUNTER_MAX + 1 = U64_MAX := rfl
  have hfits : value ≤ EVENTFD_COUNTER_MAX - s.counter := h
  rcases Nat.eq_zero_or_pos value with rfl | hpos
  · have hlt := hzero rfl
    omega
  · omega

/-- A read takes from the counter what it returns: one, or all that is there. -/
theorem System.Kept.read (h : s.Kept) (hnext : s.section caller nonblock .read = some s') :
    s'.Kept := by
  have hsum := h.sum
  have hle := h.le
  rw [System.section] at hnext
  split at hnext
  case isTrue =>
    cases hnext
    exact h.go
  case isFalse hempty =>
  have htaken : (if s.semaphore then 1 else s.counter) ≤ s.counter := by
    split_ifs
    · exact Nat.pos_of_ne_zero hempty
    · exact Nat.le_refl _
  cases hnext
  refine ⟨?_, Nat.le_trans (Nat.sub_le _ _) hle⟩
  show s.counter - _ + (s.received + _) = s.sent
  omega

/-- A write adds its value if it fits. -/
theorem System.Kept.write (h : s.Kept) (hzero : value = 0 → s.counter < U64_MAX)
    (hnext : s.section caller nonblock (.write value) = some s') : s'.Kept := by
  have hsum := h.sum
  have hmax : EVENTFD_COUNTER_MAX + 1 = U64_MAX := rfl
  rw [System.section] at hnext
  split at hnext
  case isFalse =>
    cases hnext
    exact h.go
  case isTrue hfits =>
    cases hnext
    have hadd := hfits.add_le hzero
    refine ⟨?_, by show s.counter + value ≤ U64_MAX; omega⟩
    show s.counter + value + s.received = s.sent + value
    omega

/-- The other sections leave the counter alone. -/
theorem System.Kept.section (h : s.Kept) (hsafe : Safe (.next caller nonblock) s)
    (hnext : s.section caller nonblock (s.callers caller) = some s') : s'.Kept := by
  cases hphase : s.callers caller with
  | idle =>
    rw [hphase] at hnext
    cases hnext
  | read => exact h.read (hphase ▸ hnext)
  | write value => exact h.write (fun hzero => hsafe.1 (hzero ▸ hphase)) (hphase ▸ hnext)
  | readCheck | readAsleep | writeCheck value | writeAsleep value =>
    rw [hphase] at hnext
    cases hnext
    exact h.go

/-- Below the overflow mark a notification adds one. -/
theorem System.Kept.exec (h : s.Kept) (hsafe : Safe op s) (hexec : exec op s = some s') :
    s'.Kept := by
  cases op with
  | next caller nonblock => exact h.section hsafe hexec
  | read caller | write caller value =>
    dsimp only [EventFd.exec] at hexec
    split_ifs at hexec
    cases hexec
    exact h.go
  | notifyKernelEvent =>
    have hsum := h.sum
    have hlt : s.counter < U64_MAX := hsafe
    have hmax : EVENTFD_COUNTER_MAX + 1 = U64_MAX := rfl
    have hadd : (if s.counter = EVENTFD_COUNTER_MAX then U64_MAX else min (s.counter + 1) U64_MAX) =
        s.counter + 1 := by
      split_ifs <;> omega
    cases hexec
    refine ⟨?_, ?_⟩
    · show (if _ then _ else _) + s.received = s.sent + 1
      omega
    · show (if _ then _ else _) ≤ U64_MAX
      omega

end Seele.EventFd
