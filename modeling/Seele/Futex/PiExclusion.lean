import Seele.Futex.PiCalls
import Seele.Lib.GuardedRun

/-!
# Who has a priority-inheritance futex

`PiSystem.Sound` holds between any two steps as long as no call acts on what is no longer true
(`PiSystem.Safe`). Then whoever has been told that it has the lock is in the word, so there is one
such thread at most, and the bit is set while threads are queued (`run_exclusion`).

What does not work even then is the hand-over. Unlocking writes the identifier of the first waiter
into the word and wakes it; the waiter goes back to the head of its loop, finds itself in the word,
and fails with `ResourceDeadlock` (`unlock_hands_over_deadlock`). A call to which nobody hands the
word over fails like that only if its caller was in the word from the start.
-/

namespace Seele.Futex

open Seele.Lib PiSystem Function FutexQueue

/-! ## The invariant -/

/-- A call that has taken the word or is about to give it back is of its owner, and one that waits
for it is not, unless it has been handed over. -/
def PiPlace.Ok (word : UInt32) (handed : Bool) (thread : ThreadID) : PiPlace → Prop
  | .idle | .unlockWake _ | .waking => True
  | .lockRead call | .lockTake call _ | .lockReread call | .lockMark call _ | .lockQueue call
  | .lockSleep call =>
    IsTask thread ∧ (call.owned = false → handed = false → owner word ≠ tidOf thread)
  | .tryTake _ => IsTask thread
  | .took _ | .unlockPop => IsTask thread ∧ owner word = tidOf thread
  | .unlockCheck next nextTid =>
    IsTask thread ∧ owner word = tidOf thread ∧ IsTask next ∧ nextTid = tidOf next
  | .unlockWrite none newValue => IsTask thread ∧ owner word = tidOf thread ∧ newValue = 0
  | .unlockWrite (some next) newValue =>
    IsTask thread ∧ owner word = tidOf thread ∧ IsTask next ∧ owner newValue = tidOf next

/-- What holds between two steps. -/
structure PiSystem.Sound (s : PiSystem) : Prop where
  tasks : ∀ waiter ∈ s.threads.queue.waiters s.key, IsTask waiter.thread
  waiters : s.threads.queue.waiters s.key ≠ [] → owner s.word ≠ 0 ∧ s.word &&& FUTEX_WAITERS ≠ 0
  holder : ∀ thread, s.holds thread = true → IsTask thread ∧ owner s.word = tidOf thread
  places : ∀ thread, (s.place thread).Ok s.word (s.handed thread) thread

/-- The condition on a step. -/
def PiSystem.Safe (move : PiMove) (s : PiSystem) : Prop :=
  match move with
  | .lockTake _ | .tryTake _ => owner s.word = 0
  | .lockMark thread => ∀ call curValue, s.place thread = .lockMark call curValue →
    owner s.word = owner curValue
  | .lockQueue _ => owner s.word ≠ 0 ∧ s.word &&& FUTEX_WAITERS ≠ 0
  | .unlockWrite thread => ∀ next newValue, s.place thread = .unlockWrite next newValue →
    s.threads.queue.waiters s.key ≠ [] → newValue &&& FUTEX_WAITERS ≠ 0
  | _ => True

variable {place : PiPlace} {thread : ThreadID} {word word' : UInt32} {handed : Bool}

/-- Only the owner in the word counts. -/
theorem PiPlace.Ok.congr (h : place.Ok word handed thread)
    (howner : owner word' = owner word) : place.Ok word' handed thread := by
  unfold PiPlace.Ok at h ⊢
  rw [howner]
  exact h

/-- The word gets another owner. A thread that was not the owner before and is not now keeps its
place, as does one that the word is handed over to. -/
theorem PiPlace.Ok.of_not_owner {handed' : Bool}
    (h : place.Ok word handed thread) (hbefore : IsTask thread → owner word ≠ tidOf thread)
    (hafter : IsTask thread → handed' = false → owner word' ≠ tidOf thread) :
    place.Ok word' handed' thread := by
  cases place with
  | idle => trivial
  | unlockWake => trivial
  | waking => trivial
  | lockRead | lockTake | lockReread | lockMark | lockQueue | lockSleep =>
    exact ⟨h.1, fun _ => hafter h.1⟩
  | tryTake => exact h
  | took | unlockPop => exact absurd h.2 (hbefore h.1)
  | unlockCheck => exact absurd h.2.1 (hbefore h.1)
  | unlockWrite next =>
    cases next with
    | none | some next => exact absurd h.2.1 (hbefore h.1)

/-- A caller that does not own the lock. -/
theorem PiPlace.Ok.owner_ne (h : place.Ok word handed thread)
    {call : LockCall} (hcall : place.lockCall = some call) (howned : call.owned = false)
    (hhanded : handed = false) : owner word ≠ tidOf thread := by
  cases place with
  | lockRead | lockTake | lockReread | lockMark | lockQueue | lockSleep =>
    cases hcall
    exact h.2 howned hhanded
  | idle | tryTake | took | unlockPop | unlockCheck | unlockWrite | unlockWake | waking =>
    cases hcall

variable {s : PiSystem} (hs : s.Sound)

include hs

/-- One thread at most holds the lock. -/
theorem PiSystem.Sound.holder_unique {other : ThreadID} (h : s.holds thread = true)
    (h' : s.holds other = true) : thread = other := by
  obtain ⟨htask, howner⟩ := hs.holder thread h
  obtain ⟨htask', howner'⟩ := hs.holder other h'
  exact tidOf_inj htask htask' (howner.symm.trans howner')

/-- A thread at its place. -/
theorem PiSystem.Sound.at (hplace : s.place thread = place) :
    place.Ok s.word (s.handed thread) thread :=
  hplace ▸ hs.places thread

/-- A thread moves on. -/
theorem PiSystem.Sound.go (hplace : place.Ok s.word (s.handed thread) thread) :
    (s.go thread place).Sound := by
  refine ⟨hs.tasks, hs.waiters, hs.holder, fun other => ?_⟩
  unfold PiSystem.go
  grind [hs.places]

/-- Waiters may go from the queue. -/
theorem PiSystem.Sound.threads {threads : Threads}
    (hqueue : ∀ waiter ∈ threads.queue.waiters s.key, waiter ∈ s.threads.queue.waiters s.key) :
    Sound { s with threads } := by
  refine ⟨fun waiter hwaiter => hs.tasks waiter (hqueue waiter hwaiter), fun hne => ?_, hs.holder,
    hs.places⟩
  obtain ⟨waiter, hwaiter⟩ := List.exists_mem_of_ne_nil _ hne
  grind [hs.waiters]

/-- A free lock is taken. -/
theorem PiSystem.Sound.take {call : PiCall} {value : UInt32} (htask : IsTask thread)
    (hfree : owner s.word = 0) (hvalue : owner value = tidOf thread) :
    (PiSystem.go { s with word := value } thread (.took call)).Sound := by
  have hnobody : ∀ other, IsTask other → owner s.word ≠ tidOf other := by grind [tidOf_ne_zero]
  refine ⟨hs.tasks, fun hne => absurd hfree (hs.waiters hne).1, ?_, fun other => ?_⟩
  · intro other hother
    obtain ⟨hother, howner⟩ := hs.holder other hother
    exact absurd howner (hnobody other hother)
  unfold PiSystem.go
  dsimp only
  rw [update_apply]
  split_ifs with heq
  · rw [heq]
    exact ⟨htask, hvalue⟩
  · refine (hs.places other).of_not_owner (hnobody other) fun hother _ howner => heq ?_
    grind [tidOf_inj]

/-- The unlocking thread writes the word. -/
theorem PiSystem.Sound.unlockWrite {next : Option ThreadID} {newValue : UInt32}
    (hplace : s.place thread = .unlockWrite next newValue)
    (hbit : s.threads.queue.waiters s.key ≠ [] → newValue &&& FUTEX_WAITERS ≠ 0) :
    (s.unlockWrite thread next newValue).system.Sound := by
  have hok := hs.at hplace
  have hmine : IsTask thread ∧ owner s.word = tidOf thread := by
    cases next with
    | none | some next => exact ⟨hok.1, hok.2.1⟩
  obtain ⟨htask, howner⟩ := hmine
  have hnobody : ∀ other, other ≠ thread → IsTask other → owner s.word ≠ tidOf other := by
    intro other hother htask' heq
    exact hother (tidOf_inj htask htask' (howner.symm.trans heq)).symm
  have hholds : ∀ other, update s.holds thread false other = true → False := by
    intro other h
    by_cases hother : other = thread
    · grind
    · rw [update_of_ne hother] at h
      obtain ⟨htask', howner'⟩ := hs.holder other h
      exact hnobody other hother htask' howner'
  cases next with
  | none =>
    obtain ⟨-, -, rfl⟩ := hok
    refine ⟨hs.tasks, fun hne => absurd (hbit hne) (by decide),
      fun other h => (hholds other h).elim, fun other => ?_⟩
    unfold PiSystem.unlockWrite PiSystem.answer PiSystem.go
    dsimp only
    rw [update_apply]
    split_ifs with hother
    · trivial
    · refine (hs.places other).of_not_owner (hnobody other hother) fun htask' _ => ?_
      exact (tidOf_ne_zero htask').symm
  | some next =>
  obtain ⟨-, -, hnext, hvalue⟩ := hok
  refine ⟨hs.tasks, fun hne => ⟨?_, hbit hne⟩, fun other h => (hholds other h).elim,
    fun other => ?_⟩
  · show owner newValue ≠ 0
    rw [hvalue]
    exact tidOf_ne_zero hnext
  unfold PiSystem.unlockWrite PiSystem.goOn PiSystem.go
  dsimp only
  rw [update_apply s.place]
  split_ifs with hother
  · trivial
  refine (hs.places other).of_not_owner (hnobody other hother) fun htask' hhanded heq => ?_
  obtain rfl := tidOf_inj hnext htask' (hvalue.symm.trans heq)
  rw [update_self] at hhanded
  cases hhanded

/-- A waiter is queued. -/
theorem PiSystem.Sound.publish {call : LockCall} (hplace : s.place thread = .lockQueue call)
    (hword : owner s.word ≠ 0 ∧ s.word &&& FUTEX_WAITERS ≠ 0) : (PiSystem.go
      { s with threads := s.threads.publish thread s.key 0xffffffff call.deadline } thread
      (.lockSleep call)).Sound := by
  have hok := hs.at hplace
  have hpublished : PiSystem.Sound
      { s with threads := s.threads.publish thread s.key 0xffffffff call.deadline } := by
    refine ⟨fun waiter hwaiter => ?_, fun _ => hword, hs.holder, hs.places⟩
    unfold Threads.publish queueWaiterInLockedQueue FutexBucket.pushWaiter at hwaiter
    rw [waiters_of_some (update_self ..), List.mem_append] at hwaiter
    rcases hwaiter with hold | hnew
    · apply hs.tasks waiter
      unfold FutexQueue.waiters
      cases hbucket : s.threads.queue s.key with
      | none | some bucket =>
        rw [hbucket] at hold
        exact hold
    · obtain rfl := List.mem_singleton.mp hnew
      exact hok.1
  exact hpublished.go hok

omit hs

/-- A step of the threads queues nobody here. -/
theorem Threads.waiters_exec {threads threads' : Threads} {move : ThreadMove}
    (h : threads.exec move = some threads') (key : FutexKey) :
    ∀ waiter ∈ threads'.queue.waiters key, waiter ∈ threads.queue.waiters key := by
  have hsame : threads'.queue = threads.queue ∨
      ∃ waitId, threads'.queue = removeFutexWaiter threads.queue waitId := by
    cases move <;> dsimp only [Threads.exec] at h
    case block thread block | dispatch thread =>
      split_ifs at h
      cases h
      exact .inl rfl
    case finishBlock thread =>
      grind [Threads.queue_finishBlock]
    case interrupt ending pending | readRecord =>
      grind
    case removeWaiter =>
      split at h
      · rename_i owner ending thread waitId pending hmanager
        cases h
        cases waitId with
        | none => exact .inl rfl
        | some waitId => exact .inr ⟨waitId, rfl⟩
      · cases h
    case finish =>
      grind [Threads.queue_finish]
  grind [waiters_removeFutexWaiter]

/-- What a call that returns says: one that locks succeeds only by writing the word first, and
`FUTEX_LOCK_PI` fails with `ResourceDeadlock` only where it finds its caller in the word. -/
def PiSystem.Replies (s : PiSystem) (word : UInt32) (thread : ThreadID) (call : PiCall)
    (result : Except SyscallError ℕ) : Prop :=
  (result = .ok 0 → call = .unlockPi ∨ s.place thread = .took call ∧ word = s.word) ∧
    (call = .lockPi → result = .error .resourceDeadlock →
      (∃ call, (s.place thread).lockCall = some call) ∧ owner s.word = tidOf thread)

/-- A step leaves a sound system, and what it returns is true. -/
structure PiSystem.Follows (s : PiSystem) (eff : PiEffect) : Prop where
  sound : eff.system.Sound
  reply : ∀ thread call result, eff.reply = some (thread, call, result) →
    s.Replies eff.system.word thread call result

section Follows

variable {t : PiSystem} (ht : t.Sound) {call : PiCall}

include ht

/-- The caller moves on. -/
theorem PiSystem.Follows.goOn (hplace : place.Ok t.word (t.handed thread) thread) :
    s.Follows (t.goOn thread place) :=
  ⟨ht.go hplace, nofun⟩

/-- The call is answered. -/
theorem PiSystem.Follows.answer {result : Except SyscallError ℕ}
    (h : s.Replies t.word thread call result) : s.Follows (t.answer thread call result) := by
  refine ⟨ht.go trivial, fun _ _ _ hreply => ?_⟩
  cases hreply
  exact h

/-- The call fails. -/
theorem PiSystem.Follows.fail {e : SyscallError} (h : call = .lockPi → e ≠ .resourceDeadlock) :
    s.Follows (t.answer thread call (.error e)) :=
  .answer ht ⟨nofun, fun hcall he => absurd (Except.error.inj he) (h hcall)⟩

/-- The lock has been released. -/
theorem PiSystem.Follows.unlocked : s.Follows (t.answer thread .unlockPi (.ok 0)) :=
  .answer ht ⟨fun _ => .inl rfl, nofun⟩

end Follows

/-- The next owner is chosen. -/
theorem PiSystem.Sound.unlockPop (hs : s.Sound) (hplace : s.place thread = .unlockPop) :
    s.Follows (s.unlockPop thread) := by
  have hok := hs.at hplace
  unfold PiSystem.unlockPop
  split
  · exact .goOn hs ⟨hok.1, hok.2, rfl⟩
  rename_i bucket hbucket
  rw [dropEmpty_update]
  have hmem : ∀ waiter ∈ FutexQueue.waiters (update s.threads.queue s.key
      (if bucket.waiters.tail.isEmpty then none
        else some { bucket with waiters := bucket.waiters.tail })) s.key,
      waiter ∈ s.threads.queue.waiters s.key := by
    grind [FutexQueue.waiters, List.mem_of_mem_tail]
  generalize update s.threads.queue s.key _ = queue at hmem
  have hrest : Sound { s with threads := { s.threads with queue := queue } } :=
    hs.threads hmem
  split
  · exact .goOn hrest ⟨hok.1, hok.2, rfl⟩
  rename_i waiter hhead
  have hwaiter : waiter ∈ s.threads.queue.waiters s.key := by
    rw [waiters_of_some hbucket]
    exact List.mem_of_mem_head? hhead
  split
  · exact .fail hrest fun hcall => by cases hcall
  rename_i nextTid htid
  refine .goOn hrest ⟨hok.1, hok.2, hs.tasks waiter hwaiter, ?_⟩
  unfold tidU32 at htid
  split_ifs at htid
  exact (Except.ok.inj htid).symm

/-- Every safe step keeps the word sound. -/
theorem PiSystem.Sound.exec (hs : s.Sound) {move : PiMove} {eff : PiEffect} (hsafe : s.Safe move)
    (h : s.exec move = some eff) : s.Follows eff := by
  cases move <;> dsimp only [PiSystem.exec] at h
  case thread move =>
    obtain ⟨threads, hthreads, rfl⟩ := Option.map_eq_some_iff.mp h
    exact ⟨hs.threads (Threads.waiters_exec hthreads s.key), nofun⟩
  case lockCall thread deadline =>
    split_ifs at h with hguard
    cases h
    have hidle : Sound { s with handed := update s.handed thread false } := by
      refine ⟨hs.tasks, hs.waiters, hs.holder, fun other => ?_⟩
      dsimp only
      rw [update_apply]
      split_ifs with hother
      · rw [hother, hguard.2.1]
        trivial
      · exact hs.places other
    exact .goOn hidle ⟨hguard.2.2, fun howned _ => of_decide_eq_false howned⟩
  case lockRead thread now =>
    split at h <;> cases h
    rename_i call hplace
    have hok := hs.at hplace
    unfold lockRead
    split_ifs with howner
    · exact .answer hs ⟨nofun, fun _ _ => ⟨⟨call, by rw [hplace]; rfl⟩, howner⟩⟩
    · exact .goOn hs hok
    · exact .fail hs fun _ => nofun
    · exact .goOn hs hok
  case lockTake thread =>
    split at h <;> cases h
    rename_i call curValue hplace
    have hok := hs.at hplace
    exact ⟨hs.take hok.1 hsafe (owner_takenValue hok.1), nofun⟩
  case lockReread thread now =>
    split at h <;> cases h
    rename_i call hplace
    have hok := hs.at hplace
    unfold lockReread
    split_ifs with hfree howner
    · exact .goOn hs hok
    · exact .answer hs ⟨nofun, fun _ _ => ⟨⟨call, by rw [hplace]; rfl⟩, howner⟩⟩
    · exact .fail hs fun _ => nofun
    · exact .goOn hs hok
    · exact .goOn hs hok
  case lockMark thread =>
    split at h <;> cases h
    rename_i call curValue hplace
    have hok := hs.at hplace
    have howner : owner (curValue ||| FUTEX_WAITERS) = owner s.word :=
      (owner_or_waiters).trans (hsafe call curValue hplace).symm
    have hmarked : Sound { s with word := curValue ||| FUTEX_WAITERS } := by
      refine ⟨hs.tasks, fun hne => ⟨?_, or_waiters_and⟩, fun other hother => ?_,
        fun other => (hs.places other).congr howner⟩
      · grind [hs.waiters]
      · grind [hs.holder]
    have hqueue : PiPlace.Ok s.word (s.handed thread) thread (.lockQueue call) := hok
    exact .goOn hmarked (hqueue.congr howner)
  case lockQueue thread =>
    split at h
    swap
    · cases h
    rename_i call hplace
    split_ifs at h
    cases h
    exact ⟨hs.publish hplace hsafe, nofun⟩
  case lockResume thread now =>
    split at h
    swap
    · cases h
    rename_i call hplace
    have hok := hs.at hplace
    split_ifs at h <;> cases h
    · exact .fail hs fun _ => nofun
    · exact .goOn hs hok
  case tryRead thread =>
    split_ifs at h with hguard
    cases h
    unfold tryRead
    split_ifs
    · exact .fail hs nofun
    · exact .fail hs nofun
    · exact .goOn hs hguard.2.2
  case tryTake thread =>
    split at h <;> cases h
    rename_i curValue hplace
    have hok := hs.at hplace
    exact ⟨hs.take hok hsafe (owner_takenValue hok), nofun⟩
  case ret thread =>
    split at h <;> cases h
    rename_i call hplace
    have hheld : Sound { s with holds := update s.holds thread true } := by
      refine ⟨hs.tasks, hs.waiters, fun other hother => ?_, hs.places⟩
      by_cases heq : other = thread
      · rw [heq]
        exact hs.at hplace
      · grind [hs.holder]
    exact .answer hheld ⟨fun _ => .inr ⟨hplace, rfl⟩, nofun⟩
  case unlockRead thread =>
    split_ifs at h with hguard howner <;> cases h
    · exact .fail hs nofun
    · exact .goOn hs ⟨hguard.2.2, not_not.mp howner⟩
  case unlockPop thread =>
    split at h <;> cases h
    rename_i hplace
    exact hs.unlockPop hplace
  case unlockCheck thread =>
    split at h <;> cases h
    rename_i next nextTid hplace
    obtain ⟨htask, howner, hnext, rfl⟩ := hs.at hplace
    exact .goOn hs ⟨htask, howner, hnext, owner_handedValue hnext _⟩
  case unlockWrite thread =>
    split at h <;> cases h
    rename_i next newValue hplace
    have hsound := hs.unlockWrite hplace (hsafe next newValue hplace)
    cases next with
    | none => exact ⟨hsound, fun _ _ _ hreply => by cases hreply; exact ⟨fun _ => .inl rfl, nofun⟩⟩
    | some next => exact ⟨hsound, nofun⟩
  case enterManager thread =>
    split at h
    swap
    · cases h
    rename_i next hplace
    split_ifs at h
    cases h
    have hentered : Sound { s with
          threads := { s.threads with manager := some ⟨some thread, .wake, none, [next]⟩ } } :=
      hs.threads fun _ hwaiter => hwaiter
    exact .goOn hentered trivial
  case leaveManager =>
    split at h
    swap
    · cases h
    have hleft : Sound { s with threads := { s.threads with manager := none } } :=
      hs.threads fun _ hwaiter => hwaiter
    split at h <;> cases h
    · exact ⟨hleft, nofun⟩
    · exact .unlocked hleft

/-! ## Runs -/

/-- The word is 0, nobody is queued and nobody is in a call. -/
structure PiSystem.Fresh (s : PiSystem) : Prop where
  word : s.word = 0
  queue : s.threads.queue s.key = none
  place : ∀ thread, s.place thread = .idle
  holds : ∀ thread, s.holds thread = false

/-- The word is sound at the start. -/
theorem PiSystem.Fresh.sound (hs : s.Fresh) : s.Sound := by
  have hwaiters : s.threads.queue.waiters s.key = [] := waiters_of_none hs.queue
  refine ⟨?_, fun hne => absurd hwaiters hne, ?_, ?_⟩
  · simp [hwaiters]
  · intro thread h
    rw [hs.holds] at h
    cases h
  · intro thread
    rw [hs.place]
    trivial

/-- In every run whose steps are safe: a call to lock that succeeds has its caller in the word; one
thread at most has the lock; `FUTEX_LOCK_PI` fails with `ResourceDeadlock` only if its caller was in
the word, unless the word has been handed over to it; and the bit is set while a thread is queued.
-/
theorem run_exclusion (s₀ : PiSystem) (hfresh : s₀.Fresh) (moves : List PiMove) (move : PiMove)
    (s : PiSystem) (eff : PiEffect) (hsafe : SafeRun next Safe (moves ++ [move]) s₀)
    (hrun : runOps next moves s₀ = some s) (hexec : s.exec move = some eff) :
    (∀ thread call, call ≠ .unlockPi → eff.reply = some (thread, call, .ok 0) →
      owner eff.system.word = tidOf thread) ∧
      (∀ thread other, eff.system.holds thread = true → eff.system.holds other = true →
        thread = other) ∧
      (∀ thread, eff.reply = some (thread, .lockPi, .error .resourceDeadlock) →
        s.handed thread = false →
          ∃ call, (s.place thread).lockCall = some call ∧ call.owned = true) ∧
      (eff.system.threads.queue.waiters eff.system.key ≠ [] →
        eff.system.word &&& FUTEX_WAITERS ≠ 0) := by
  obtain ⟨hsafe, hmove⟩ := SafeRun.split hsafe hrun
  have hs : s.Sound := by
    refine SafeRun.invariant (I := Sound) ?_ hsafe hfresh.sound hrun
    intro move s s' hsafe hnext hs
    obtain ⟨eff, hexec, rfl⟩ := Option.map_eq_some_iff.mp hnext
    exact (hs.exec hsafe hexec).sound
  obtain ⟨hs', hreplies⟩ := hs.exec hmove hexec
  refine ⟨?_, fun thread other => hs'.holder_unique, ?_, fun hne => (hs'.waiters hne).2⟩
  · intro thread call hcall hreply
    obtain ⟨hplace, hword⟩ := ((hreplies _ _ _ hreply).1 rfl).resolve_left hcall
    have hok := hs.at hplace
    rw [hword]
    exact hok.2
  intro thread hreply hhanded
  obtain ⟨⟨call, hcall⟩, howner⟩ := (hreplies _ _ _ hreply).2 rfl rfl
  refine ⟨call, hcall, ?_⟩
  by_contra howned
  exact (hs.places thread).owner_ne hcall (Bool.eq_false_iff.mpr howned) hhanded howner

/-- A word that is free, and every thread on a CPU. -/
def freeWord : PiSystem :=
  ⟨⟨fun _ => none, fun _ => .running, [], none⟩, .priv 7 0, 0, fun _ => .idle, fun _ => false,
    fun _ => false⟩

/-- Thread 1 has the lock, thread 2 waits for it, and thread 1 unlocks. -/
def handOver : List PiMove :=
  [.lockCall 1 none, .lockRead 1 0, .lockTake 1, .ret 1,
    .lockCall 2 none, .lockRead 2 0, .lockReread 2 0, .lockMark 2, .lockQueue 2,
    .thread (.finishBlock 2),
    .unlockRead 1, .unlockPop 1, .unlockCheck 1, .unlockWrite 1, .enterManager 1,
    .thread .readRecord, .thread .removeWaiter, .thread .finish, .leaveManager,
    .thread (.dispatch 2), .lockResume 2 0]

/-- No step of the hand-over acts on what is no longer true. -/
theorem handOver_safe : SafeRun next Safe (handOver ++ [.lockRead 2 0]) freeWord := by
  refine ⟨trivial, trivial, rfl, trivial, trivial, trivial, trivial, ?_, ⟨by decide, by decide⟩,
    trivial, trivial, trivial, trivial, ?_, trivial, trivial, trivial, trivial, trivial, trivial,
    trivial, trivial, trivial⟩
  · rintro call curValue ⟨⟩
    rfl
  · intro next newValue hplace hne
    exact absurd rfl hne

/-- Thread 1 is in the word when its call returns; the bit is set when thread 2 is queued; and when
the call of thread 2 fails, the word has been handed over to it. -/
theorem run_exclusion_handOver :
    (∃ s eff, runOps next (handOver.take 3) freeWord = some s ∧ s.exec (.ret 1) = some eff ∧
      eff.reply = some (1, .lockPi, .ok 0) ∧ owner eff.system.word = tidOf 1) ∧
    (∃ s eff, runOps next (handOver.take 8) freeWord = some s ∧
      s.exec (.lockQueue 2) = some eff ∧ eff.system.threads.queue.waiters eff.system.key ≠ [] ∧
      eff.system.word &&& FUTEX_WAITERS ≠ 0) ∧
    ∃ s eff, runOps next handOver freeWord = some s ∧ s.exec (.lockRead 2 0) = some eff ∧
      eff.reply = some (2, .lockPi, .error .resourceDeadlock) ∧ s.handed 2 = true := by
  have hfresh : freeWord.Fresh := ⟨rfl, rfl, fun _ => rfl, fun _ => rfl⟩
  refine ⟨⟨_, _, rfl, rfl, rfl, ?_⟩, ⟨_, _, rfl, rfl, nofun, ?_⟩, _, _, rfl, rfl, rfl, ?_⟩
  · have hsafe := handOver_safe.take 4
    exact (run_exclusion freeWord hfresh (handOver.take 3) (.ret 1) _ _ hsafe rfl rfl).1 1 .lockPi
      (by decide) rfl
  · have hsafe := handOver_safe.take 9
    exact (run_exclusion freeWord hfresh (handOver.take 8) (.lockQueue 2) _ _ hsafe rfl
      rfl).2.2.2 nofun
  · refine Bool.of_not_eq_false fun hhanded => ?_
    obtain ⟨call, hcall, howned⟩ := (run_exclusion freeWord hfresh handOver (.lockRead 2 0) _ _
      handOver_safe rfl rfl).2.2.1 2 rfl hhanded
    cases hcall
    cases howned

/-- Threads 1 and 2 both find the word free. -/
def lockBoth : List PiMove :=
  [.lockCall 1 none, .lockCall 2 none, .lockRead 1 0, .lockRead 2 0, .lockTake 1, .ret 1,
    .lockTake 2, .ret 2]

/-- The waiter to which the lock is handed over fails, though it was not in the word when it called.
And two threads that find the word free both get the lock. -/
theorem unlock_hands_over_deadlock : (∃ s eff, runOps next handOver freeWord = some s ∧
      s.place 2 = .lockRead ⟨none, false⟩ ∧ s.exec (.lockRead 2 0) = some eff ∧
      eff.reply = some (2, .lockPi, .error .resourceDeadlock)) ∧
      ∃ s, runOps next lockBoth freeWord = some s ∧ s.holds 1 = true ∧ s.holds 2 = true :=
  ⟨⟨_, _, rfl, rfl, rfl, rfl⟩, ⟨_, rfl, rfl, rfl⟩⟩

end Seele.Futex
