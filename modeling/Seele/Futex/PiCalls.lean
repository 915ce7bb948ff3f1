import Seele.Futex.Threads

/-!
# `FUTEX_LOCK_PI`, `FUTEX_TRYLOCK_PI` and `FUTEX_UNLOCK_PI` on one word

The word has the identifier of its owner, and a bit for "there are waiters". The calls read and
write it without any lock, so every access to it is a step of its own here, and so is every section
under the lock of the queue or of the thread manager. `PiPlace` says where in its call a thread is,
and between two steps any other thread may take its own.
-/

namespace Seele.Futex

/-! ## The word -/

/-- `FUTEX_WAITERS`. -/
def FUTEX_WAITERS : UInt32 := 0x80000000

/-- `FUTEX_OWNER_DIED`. -/
def FUTEX_OWNER_DIED : UInt32 := 0x40000000

/-- `FUTEX_TID_MASK`. -/
def FUTEX_TID_MASK : UInt32 := ~~~(FUTEX_WAITERS ||| FUTEX_OWNER_DIED)

/-- The owner in a value of the word. -/
def owner (value : UInt32) : UInt32 := value &&& FUTEX_TID_MASK

/-- `DEFAULT_PID_MAX`, the highest identifier that `next_linux_task_id` gives. -/
def DEFAULT_PID_MAX : ℕ := 4194304

variable (thread : ThreadID)

/-- An identifier that `next_linux_task_id` gives. -/
def IsTask : Prop := 1 ≤ thread ∧ thread ≤ DEFAULT_PID_MAX

instance (thread : ThreadID) : Decidable (IsTask thread) := inferInstanceAs (Decidable (_ ∧ _))

/-- The identifier of a thread as the word has it. -/
def tidOf : UInt32 := UInt32.ofNat thread

/-- `current_tid_u32`, and the same for the next owner in `futex_unlock_pi_impl`. -/
def tidU32 : Except SyscallError UInt32 :=
  if thread ≤ 0xffffffff then .ok (tidOf thread) else .error .invalidArguments

/-- The value with which a thread takes the word. -/
def takenValue (curValue : UInt32) : UInt32 :=
  tidOf thread ||| (curValue &&& FUTEX_OWNER_DIED)

/-- The value with which `futex_unlock_pi_impl` hands the word over. -/
def handedValue (nextTid : UInt32) (stillHasWaiters : Bool) : UInt32 :=
  nextTid ||| if stillHasWaiters then FUTEX_WAITERS else 0

/-- A mask goes over both words. -/
theorem or_and (a b c : UInt32) : (a ||| b) &&& c = (a &&& c) ||| (b &&& c) := by
  grind [UInt32.toNat_inj.mp, UInt32.toNat_and, UInt32.toNat_or]

variable {thread : ThreadID} {value : UInt32}

/-- The bit does not change the owner. -/
theorem owner_or_waiters : owner (value ||| FUTEX_WAITERS) = owner value := by
  unfold owner
  rw [or_and, show FUTEX_WAITERS &&& FUTEX_TID_MASK = 0 by decide, UInt32.or_zero]

variable (h : IsTask thread)

include h

/-- A task's number fits. -/
theorem toNat_tidOf : (tidOf thread).toNat = thread := by
  exact Nat.mod_eq_of_lt (Nat.lt_of_le_of_lt h.2 (by decide))

/-- A task's word has it as owner. -/
theorem owner_tidOf : owner (tidOf thread) = tidOf thread := by
  apply UInt32.toNat_inj.mp
  unfold owner
  rw [UInt32.toNat_and, toNat_tidOf h]
  exact Nat.and_two_pow_sub_one_of_lt_two_pow
    (Nat.lt_of_le_of_lt h.2 (show DEFAULT_PID_MAX < 2 ^ 30 by decide))

/-- Tasks have different words. -/
theorem tidOf_inj {other : ThreadID} (h' : IsTask other)
    (heq : tidOf thread = tidOf other) : thread = other := by
  grind [toNat_tidOf]

/-- A task's word is not zero. -/
theorem tidOf_ne_zero : tidOf thread ≠ 0 := by
  intro heq
  have hnat := congrArg UInt32.toNat heq
  rw [toNat_tidOf h] at hnat
  exact absurd hnat (Nat.ne_of_gt h.1)

/-- Who takes the lock is its owner. -/
theorem owner_takenValue {curValue : UInt32} :
    owner (takenValue thread curValue) = tidOf thread := by
  have hthread := owner_tidOf h
  unfold owner at hthread
  unfold owner takenValue
  rw [or_and, UInt32.and_assoc, show FUTEX_OWNER_DIED &&& FUTEX_TID_MASK = 0 by decide,
    UInt32.and_zero, UInt32.or_zero, hthread]

omit h

/-- Who gets the lock is its owner. -/
theorem owner_handedValue {next : ThreadID} (h : IsTask next) (stillHasWaiters : Bool) :
    owner (handedValue (tidOf next) stillHasWaiters) = tidOf next := by
  cases stillHasWaiters with
  | true => exact (owner_or_waiters).trans (owner_tidOf h)
  | false => exact (congrArg owner UInt32.or_zero).trans (owner_tidOf h)

/-- The bit is set. -/
theorem or_waiters_and : (value ||| FUTEX_WAITERS) &&& FUTEX_WAITERS ≠ 0 := by
  rw [or_and, UInt32.and_self]
  intro heq
  exact absurd (UInt32.or_eq_zero_iff.mp heq).2 (by decide)

/-! ## The calls -/

/-- A call of `FUTEX_LOCK_PI`: its deadline, and whether its caller was in the word when it made the
call. -/
structure LockCall where
  deadline : Option ℕ
  owned : Bool
  deriving DecidableEq, Repr

/-- The calls. -/
inductive PiCall where
  | lockPi
  | trylockPi
  | unlockPi
  deriving DecidableEq, Repr

/-- Where a thread is in its call. -/
inductive PiPlace where
  | idle
  /-- `futex_lock_pi_impl`, at the head of the loop. -/
  | lockRead (call : LockCall)
  /-- It has found no owner. -/
  | lockTake (call : LockCall) (curValue : UInt32)
  /-- At the second reading of the word. -/
  | lockReread (call : LockCall)
  /-- It has found an owner, and the bit not set. -/
  | lockMark (call : LockCall) (curValue : UInt32)
  /-- It is going to queue and to block. -/
  | lockQueue (call : LockCall)
  /-- It has queued. -/
  | lockSleep (call : LockCall)
  /-- `futex_trylock_pi_impl` has found no owner. -/
  | tryTake (curValue : UInt32)
  /-- The word is written, and the call returns. -/
  | took (call : PiCall)
  /-- `futex_unlock_pi_impl` has found its caller in the word. -/
  | unlockPop
  /-- It has taken the next owner out of the queue. -/
  | unlockCheck (next : ThreadID) (nextTid : UInt32)
  /-- It is going to write the word, and to wake the next owner. -/
  | unlockWrite (next : Option ThreadID) (newValue : UInt32)
  | unlockWake (next : ThreadID)
  /-- In the section of the thread manager. -/
  | waking
  deriving DecidableEq, Repr

/-- The call of a thread that tries to lock and has not got the word. -/
def PiPlace.lockCall : PiPlace → Option LockCall
  | .lockRead call | .lockTake call _ | .lockReread call | .lockMark call _ | .lockQueue call
  | .lockSleep call => some call
  | _ => none

/-- The kernel, the word at `key`, and where everybody is in a call. `holds` says who has been told
that it has the lock, and `handed` to whom the word has been handed over since it called. -/
structure PiSystem where
  threads : Threads
  key : FutexKey
  word : UInt32
  place : ThreadID → PiPlace
  holds : ThreadID → Bool
  handed : ThreadID → Bool

open PiSystem

variable (s : PiSystem)

/-- The system with a thread at another place. -/
def PiSystem.go (thread : ThreadID) (place : PiPlace) : PiSystem :=
  { s with place := Function.update s.place thread place }

/-- The steps of the system. -/
inductive PiMove where
  | thread (move : ThreadMove)
  | lockCall (thread : ThreadID) (deadline : Option ℕ)
  | lockRead (thread : ThreadID) (now : ℕ)
  | lockTake (thread : ThreadID)
  | lockReread (thread : ThreadID) (now : ℕ)
  | lockMark (thread : ThreadID)
  | lockQueue (thread : ThreadID)
  /-- The thread runs again after `finish_block_current`. -/
  | lockResume (thread : ThreadID) (now : ℕ)
  | tryRead (thread : ThreadID)
  | tryTake (thread : ThreadID)
  /-- A call that has written the word returns. -/
  | ret (thread : ThreadID)
  | unlockRead (thread : ThreadID)
  | unlockPop (thread : ThreadID)
  | unlockCheck (thread : ThreadID)
  | unlockWrite (thread : ThreadID)
  | enterManager (thread : ThreadID)
  | leaveManager

/-- A step leaves a system and returns from a call, or not. -/
structure PiEffect where
  system : PiSystem
  reply : Option (ThreadID × PiCall × Except SyscallError ℕ)

variable (thread : ThreadID)

/-- The step goes on in the call. -/
def PiSystem.goOn (place : PiPlace) : PiEffect :=
  ⟨s.go thread place, none⟩

/-- The step returns from the call. -/
def PiSystem.answer (call : PiCall) (result : Except SyscallError ℕ) : PiEffect :=
  ⟨s.go thread .idle, some (thread, call, result)⟩

/-- The first reading of the word in `futex_lock_pi_impl`. -/
def PiSystem.lockRead (call : LockCall) (now : ℕ) : PiEffect :=
  if owner s.word = tidOf thread then s.answer thread .lockPi (.error .resourceDeadlock)
  else if owner s.word = 0 then s.goOn thread (.lockTake call s.word)
  else if call.deadline.any (· ≤ now) then s.answer thread .lockPi (.error .timedOut)
  else s.goOn thread (.lockReread call)

/-- The second one. -/
def PiSystem.lockReread (call : LockCall) (now : ℕ) : PiEffect :=
  if owner s.word = 0 then s.goOn thread (.lockRead call)
  else if owner s.word = tidOf thread then s.answer thread .lockPi (.error .resourceDeadlock)
  else if call.deadline.any (· ≤ now) then s.answer thread .lockPi (.error .timedOut)
  else if s.word &&& FUTEX_WAITERS = 0 then s.goOn thread (.lockMark call s.word)
  else s.goOn thread (.lockQueue call)

/-- The reading in `futex_trylock_pi_impl`. -/
def PiSystem.tryRead : PiEffect :=
  if owner s.word = tidOf thread then s.answer thread .trylockPi (.error .resourceDeadlock)
  else if owner s.word ≠ 0 then s.answer thread .trylockPi (.error .tryAgain)
  else s.goOn thread (.tryTake s.word)

/-- `futex_unlock_pi_impl` takes the next owner out of the queue. -/
def PiSystem.unlockPop : PiEffect :=
  match s.threads.queue s.key with
  | none => s.goOn thread (.unlockWrite none 0)
  | some bucket =>
    let queue := dropEmpty
      (Function.update s.threads.queue s.key (some { bucket with waiters := bucket.waiters.tail }))
      s.key
    let s : PiSystem := { s with threads := { s.threads with queue := queue } }
    match bucket.waiters.head? with
    | none => s.goOn thread (.unlockWrite none 0)
    | some waiter =>
      match tidU32 waiter.thread with
      | .error e => s.answer thread .unlockPi (.error e)
      | .ok nextTid => s.goOn thread (.unlockCheck waiter.thread nextTid)

/-- `still_has_waiters` in `futex_unlock_pi_impl`. -/
def PiSystem.stillHasWaiters : Bool :=
  (s.threads.queue s.key).any fun bucket => !bucket.waiters.isEmpty

/-- `futex_unlock_pi_impl` writes the word. -/
def PiSystem.unlockWrite (next : Option ThreadID) (newValue : UInt32) : PiEffect :=
  let s : PiSystem :=
    { s with word := newValue, holds := Function.update s.holds thread false }
  match next with
  | none => s.answer thread .unlockPi (.ok 0)
  | some next =>
    goOn { s with handed := Function.update s.handed next true } thread (.unlockWake next)

/-- One step. It has no result where it cannot be taken. -/
def PiSystem.exec (move : PiMove) : Option PiEffect :=
  match move with
  | .thread move => (s.threads.exec move).map fun threads => ⟨{ s with threads }, none⟩
  | .lockCall thread deadline =>
    if (s.threads.state thread).executes = true ∧ s.place thread = .idle ∧ IsTask thread then
      some (goOn { s with handed := Function.update s.handed thread false } thread
        (.lockRead ⟨deadline, owner s.word = tidOf thread⟩))
    else none
  | .lockRead thread now =>
    match s.place thread with
    | .lockRead call => some (s.lockRead thread call now)
    | _ => none
  | .lockTake thread =>
    match s.place thread with
    | .lockTake _ curValue =>
      some (goOn { s with word := takenValue thread curValue } thread (.took .lockPi))
    | _ => none
  | .lockReread thread now =>
    match s.place thread with
    | .lockReread call => some (s.lockReread thread call now)
    | _ => none
  | .lockMark thread =>
    match s.place thread with
    | .lockMark call curValue =>
      some (goOn { s with word := curValue ||| FUTEX_WAITERS } thread (.lockQueue call))
    | _ => none
  | .lockQueue thread =>
    match s.place thread with
    | .lockQueue call =>
      if s.threads.manager = none then
        some (goOn
          { s with threads := s.threads.publish thread s.key 0xffffffff call.deadline } thread
          (.lockSleep call))
      else none
    | _ => none
  | .lockResume thread now =>
    match s.place thread with
    | .lockSleep call =>
      if (s.threads.state thread).executes = true then
        if call.deadline.any (· ≤ now) then some (s.answer thread .lockPi (.error .timedOut))
        else some (s.goOn thread (.lockRead call))
      else none
    | _ => none
  | .tryRead thread =>
    if (s.threads.state thread).executes = true ∧ s.place thread = .idle ∧ IsTask thread then
      some (s.tryRead thread)
    else none
  | .tryTake thread =>
    match s.place thread with
    | .tryTake curValue =>
      some (goOn { s with word := takenValue thread curValue } thread (.took .trylockPi))
    | _ => none
  | .ret thread =>
    match s.place thread with
    | .took call =>
      some (answer { s with holds := Function.update s.holds thread true } thread call (.ok 0))
    | _ => none
  | .unlockRead thread =>
    if (s.threads.state thread).executes = true ∧ s.place thread = .idle ∧ IsTask thread then
      if owner s.word ≠ tidOf thread then
        some (s.answer thread .unlockPi (.error .permissionDenied))
      else some (s.goOn thread .unlockPop)
    else none
  | .unlockPop thread =>
    match s.place thread with
    | .unlockPop => some (s.unlockPop thread)
    | _ => none
  | .unlockCheck thread =>
    match s.place thread with
    | .unlockCheck next nextTid =>
      some (s.goOn thread (.unlockWrite (some next) (handedValue nextTid s.stillHasWaiters)))
    | _ => none
  | .unlockWrite thread =>
    match s.place thread with
    | .unlockWrite next newValue => some (s.unlockWrite thread next newValue)
    | _ => none
  | .enterManager thread =>
    match s.place thread with
    | .unlockWake next =>
      if s.threads.manager = none then
        some (goOn { s with
            threads := { s.threads with manager := some ⟨some thread, .wake, none, [next]⟩ } }
          thread .waking)
      else none
    | _ => none
  | .leaveManager =>
    match s.threads.manager with
    | some ⟨owner, _, none, []⟩ =>
      let s : PiSystem := { s with threads := { s.threads with manager := none } }
      match owner with
      | none => some ⟨s, none⟩
      | some thread => some (s.answer thread .unlockPi (.ok 0))
    | _ => none

/-- The system after one step. -/
def PiSystem.next (move : PiMove) (s : PiSystem) : Option PiSystem :=
  (s.exec move).map PiEffect.system

end Seele.Futex
