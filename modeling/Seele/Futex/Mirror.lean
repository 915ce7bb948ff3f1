import Seele.Futex.Calls
import Seele.Lib.GuardedRun

/-!
# The futex queue and the threads that wait

`FutexSystem.Mirror` is what holds between any two steps, as long as three things do not happen
(`FutexSystem.Safe`). Then a thread that waits at a futex is in the queue once, where its state
says, unless a wake that has taken it out is under way (`run_mirrors`).

One of the three is that an identifier is issued again while a thread that was taken out of the
queue still records it. The bucket is dropped when a wake has taken the only thread out of it, so
the next thread gets the identifier of the first one; and when the first thread is woken, the second
is removed from the queue (`wake_removes_other_waiter`).
-/

namespace Seele.Futex

open Seele.Lib FutexSystem List Threads FutexQueue Function

/-! ## The invariant -/

variable (s : FutexSystem)

/-- A requeue has moved the thread and has still to write this identifier. -/
def FutexSystem.Moving (thread : ThreadID) (waitId : FutexWaitId) : Prop :=
  ∃ caller, (thread, waitId) ∈ (s.place caller).moved

/-- Some call, or whoever holds the thread manager, is going to wake the thread. -/
def FutexSystem.InFlight (thread : ThreadID) : Prop :=
  (∃ caller, thread ∈ (s.place caller).toWake) ∨
    ∃ sect, s.threads.manager = some sect ∧
      (thread ∈ sect.pending ∨ ∃ phase, sect.current = some phase ∧ phase.thread = thread)

/-- The queue is in order, and it is what the threads record. -/
structure FutexSystem.Mirror (s : FutexSystem) : Prop where
  ordered : s.threads.queue.Ordered
  /-- Who is in the queue waits at a futex, and is where it says unless it has just been moved. -/
  entry : ∀ key, ∀ waiter ∈ s.threads.queue.waiters key, ∃ waitId,
    s.threads.recorded waiter.thread = some waitId ∧
      (waitId = ⟨key, waiter.id⟩ ∨ s.Moving waiter.thread ⟨key, waiter.id⟩)
  /-- A thread that has just been moved is where its identifier will say. -/
  moving : ∀ thread waitId, s.Moving thread waitId →
    ∃ waiter ∈ s.threads.queue.waiters waitId.key,
      waiter.id = waitId.waiterId ∧ waiter.thread = thread
  /-- Who waits and is not in the queue is being woken, and nobody else has its identifier. -/
  out : ∀ thread waitId, s.threads.recorded thread = some waitId → ¬s.threads.queue.Has thread →
    s.InFlight thread ∧ (s.threads.queue waitId.key ≠ none →
      waitId.waiterId < s.threads.queue.nextWaiterId waitId.key ∧
        ∀ waiter ∈ s.threads.queue.waiters waitId.key, waiter.id ≠ waitId.waiterId)
  /-- What has been read from the thread that is being woken is still true. -/
  found : ∀ sect thread waitId, s.threads.manager = some sect →
    sect.current = some (.found thread waitId) →
      waitId = s.threads.recorded thread ∧ ∀ waitId, ¬s.Moving thread waitId
  removed : ∀ sect thread, s.threads.manager = some sect →
    sect.current = some (.removed thread) → ¬s.threads.queue.Has thread

/-- The bucket can take so many waiters: it has identifiers for them, and if it has to be made, then
no thread that is out of the queue records one of its identifiers. -/
def FutexSystem.MayIssue (key : FutexKey) (count : ℕ) : Prop :=
  s.threads.queue.nextWaiterId key + count ≤ u64Max ∧
    (s.threads.queue key = none → ∀ thread waitId, s.threads.recorded thread = some waitId →
      waitId.key = key → s.threads.queue.Has thread)

/-- No thread in the bucket has still to get its identifier from a requeue. -/
def FutexSystem.Settled (key : FutexKey) : Prop :=
  ∀ waiter ∈ s.threads.queue.waiters key, ∀ waitId, ¬s.Moving waiter.thread waitId

/-- The condition on a step. -/
def FutexSystem.Safe (move : FutexMove) (s : FutexSystem) : Prop :=
  match move with
  | .wait _ key word value _ deadline now =>
    futexWaitCheck word value deadline now = .ok () → s.MayIssue key 1
  | .wake _ key _ _ _ => s.Settled key
  | .requeue _ source target word compare _ _ => futexRequeueCheck word compare = .ok () →
    source ≠ target ∧ s.Settled source ∧
      s.MayIssue target (s.threads.queue.waiters source).length ∧
      ∀ sect phase, s.threads.manager = some sect → sect.current = some phase →
        ∀ waiter ∈ s.threads.queue.waiters source, waiter.thread ≠ phase.thread
  | .thread .readRecord => ∀ sect, s.threads.manager = some sect →
    ∀ thread ∈ sect.pending.head?, ∀ waitId, ¬s.Moving thread waitId
  | _ => True

variable {s s' : FutexSystem} {thread : ThreadID} (hs : s.Mirror)

include hs

/-- Who is queued has a record. -/
theorem FutexSystem.Mirror.recorded_of_has (h : s.threads.queue.Has thread) :
    s.threads.recorded thread ≠ none := by
  obtain ⟨key, waiter, hwaiter, rfl⟩ := h
  grind [hs.entry]

variable {key : FutexKey} {waiter : FutexWaiter} {waitId : FutexWaitId}

/-- Where a thread that waits is: in the queue under the identifier it records, unless it has just
been moved. -/
theorem FutexSystem.Mirror.entry_of_recorded (hwaiter : waiter ∈ s.threads.queue.waiters key)
    (hrecorded : s.threads.recorded waiter.thread = some waitId)
    (hmoving : ∀ waitId, ¬s.Moving waiter.thread waitId) : waitId = ⟨key, waiter.id⟩ := by
  grind [hs.entry]

/-! ## Steps that leave the queue alone -/

/-- A step that leaves the queue. -/
theorem FutexSystem.Mirror.frame (hqueue : s'.threads.queue = s.threads.queue)
    (hrecorded : ∀ thread, s'.threads.recorded thread = s.threads.recorded thread ∨
      s'.threads.recorded thread = none ∧ ¬s.threads.queue.Has thread)
    (hmoving : ∀ thread waitId, s'.Moving thread waitId ↔ s.Moving thread waitId)
    (hflight : ∀ thread, s'.threads.recorded thread ≠ none → s.InFlight thread → s'.InFlight thread)
    (hcurrent : ∀ sect' phase, s'.threads.manager = some sect' → sect'.current = some phase →
      (∃ sect, s.threads.manager = some sect ∧ sect.current = some phase) ∧
          s'.threads.recorded phase.thread = s.threads.recorded phase.thread ∨
        phase = .found phase.thread (s'.threads.recorded phase.thread) ∧
          ∀ waitId, ¬s.Moving phase.thread waitId) :
    s'.Mirror := by
  constructor
  · rw [hqueue]
    exact hs.ordered
  · rw [hqueue]
    intro key waiter hwaiter
    obtain ⟨waitId, hold, hentry⟩ := hs.entry key waiter hwaiter
    have hsame := (hrecorded waiter.thread).resolve_right
      fun hgone => hgone.2 ⟨key, waiter, hwaiter, rfl⟩
    grind
  · grind [hs.moving]
  · rw [hqueue]
    grind [hs.out]
  · intro sect' thread waitId hmanager hphase
    rcases hcurrent sect' _ hmanager hphase with ⟨⟨sect, hsect, hold⟩, hsame⟩ | ⟨hphase, hstill⟩
    · obtain ⟨hread, hstill⟩ := hs.found sect thread waitId hsect hold
      exact ⟨hread.trans hsame.symm, fun waitId h => hstill waitId ((hmoving _ _).mp h)⟩
    · grind
  · grind [hs.removed]

/-- As `FutexSystem.Mirror.frame`, for a step that moves nobody in a call and keeps whoever holds
the thread manager. -/
theorem FutexSystem.Mirror.frame_threads (hplace : s'.place = s.place)
    (hqueue : s'.threads.queue = s.threads.queue)
    (hrecorded : ∀ thread, s'.threads.recorded thread = s.threads.recorded thread)
    (hmanager : s'.threads.manager = s.threads.manager) : s'.Mirror := by
  apply hs.frame hqueue fun thread => .inl (hrecorded thread)
  · simp [hplace, Moving]
  · simp [hplace, hmanager, InFlight]
  · grind

/-! ## Waiters leave the queue -/

variable {gone new : List FutexWaiter}

/-- A step that only removes waiters. -/
theorem FutexSystem.Mirror.removes (hremoves : Removes s.threads.queue s'.threads.queue key gone)
    (hstate : s'.threads.state = s.threads.state)
    (hmoving : ∀ thread waitId, s'.Moving thread waitId ↔ s.Moving thread waitId)
    (hflight : ∀ thread, s.InFlight thread → s'.InFlight thread)
    (hgone : ∀ waiter ∈ gone, s'.InFlight waiter.thread ∧ ∀ waitId, ¬s.Moving waiter.thread waitId)
    (hcurrent : ∀ sect' phase, s'.threads.manager = some sect' → sect'.current = some phase →
      (∃ sect, s.threads.manager = some sect ∧ sect.current = some phase) ∨
        phase = .removed phase.thread ∧ ¬s'.threads.queue.Has phase.thread) : s'.Mirror := by
  have hrecorded : ∀ thread, s'.threads.recorded thread = s.threads.recorded thread := by
    intro thread
    unfold recorded
    rw [hstate]
  constructor
  · exact hremoves.ordered hs.ordered
  · intro key' waiter hwaiter
    obtain ⟨waitId, hold, hentry⟩ := hs.entry key' waiter (hremoves.mem_iff.mpr (.inr hwaiter))
    grind
  · grind [hs.moving, hremoves.mem_iff.mp]
  · intro thread waitId hold hout
    rw [hrecorded] at hold
    by_cases hhas : s.threads.queue.Has thread
    · -- The thread is one of those that leave, so it has been where it says.
      obtain ⟨key', waiter, hwaiter, rfl⟩ := hhas
      rcases hremoves.mem_iff.mp hwaiter with ⟨rfl, hleft⟩ | hstay
      · obtain ⟨hfly, hstill⟩ := hgone waiter hleft
        obtain rfl := hs.entry_of_recorded hwaiter hold hstill
        refine ⟨hfly, fun hbucket => ⟨?_, fun waiter' h' => hremoves.id_ne hs.ordered hleft h'⟩⟩
        rw [(hremoves.next.resolve_left hbucket).2]
        exact hs.ordered.below key' waiter hwaiter
      · exact absurd ⟨key', waiter, hstay, rfl⟩ hout
    obtain ⟨hfly, hfree⟩ := hs.out thread waitId hold hhas
    refine ⟨hflight thread hfly, fun hbucket => ?_⟩
    by_cases hkey : waitId.key = key
    · grind [hremoves.next, hremoves.mem_iff.mpr]
    rw [hremoves.other waitId.key hkey] at hbucket
    rw [nextWaiterId_congr (hremoves.other waitId.key hkey),
      waiters_congr (hremoves.other waitId.key hkey)]
    exact hfree hbucket
  · grind [hs.found]
  intro sect' thread hmanager hphase
  rcases hcurrent sect' _ hmanager hphase with ⟨sect, hsect, hold⟩ | ⟨-, hout⟩
  · rintro ⟨key', waiter, hwaiter, hthread⟩
    exact hs.removed sect thread hsect hold
      ⟨key', waiter, hremoves.mem_iff.mpr (.inr hwaiter), hthread⟩
  · exact hout

omit hs

/-! ## Places -/

/-- The caller is at its new place. -/
theorem FutexSystem.place_go_self (s : FutexSystem) (caller : ThreadID) (place : Place) :
    (s.go caller place).place caller = place :=
  update_self ..

variable {caller : ThreadID}

/-- The others are where they were. -/
theorem FutexSystem.place_go_of_ne (s : FutexSystem) {other : ThreadID} (place : Place)
    (h : other ≠ caller) : (s.go caller place).place other = s.place other :=
  update_of_ne h ..

variable {place old : Place}

/-- Who is being moved after a step of the caller. -/
theorem FutexSystem.moving_go_iff : (s.go caller place).Moving thread waitId ↔
    (thread, waitId) ∈ place.moved ∨
      ∃ other ≠ caller, (thread, waitId) ∈ (s.place other).moved := by
  constructor
  · rintro ⟨other, hother⟩
    by_cases heq : other = caller
    · rw [heq, place_go_self] at hother
      exact .inl hother
    · rw [place_go_of_ne _ _ heq] at hother
      exact .inr ⟨other, heq, hother⟩
  · rintro (h | ⟨other, hne, hother⟩)
    · exact ⟨caller, by rwa [place_go_self]⟩
    · exact ⟨other, by rwa [place_go_of_ne _ _ hne]⟩

/-- Who is being moved, by this caller or another. -/
theorem FutexSystem.moving_iff (hplace : s.place caller = place) : s.Moving thread waitId ↔
    (thread, waitId) ∈ place.moved ∨
      ∃ other ≠ caller, (thread, waitId) ∈ (s.place other).moved := by
  have hsame : s.go caller place = s := by
    rw [← hplace]
    exact congrArg (FutexSystem.mk s.threads) (update_eq_self ..)
  rw [← moving_go_iff, hsame]

/-- A step that moves the same threads. -/
theorem FutexSystem.moving_go (hplace : s.place caller = old) (h : place.moved = old.moved)
    (thread : ThreadID) (waitId : FutexWaitId) :
    (s.go caller place).Moving thread waitId ↔ s.Moving thread waitId := by
  rw [moving_go_iff, moving_iff hplace, h]

/-- Going to another place leaves in flight who was, but for those that are no more at the place of
the caller. -/
theorem FutexSystem.inFlight_go (hplace : s.place caller = old)
    (h : thread ∈ old.toWake → thread ∈ place.toWake) (hfly : s.InFlight thread) :
    (s.go caller place).InFlight thread := by
  rcases hfly with ⟨other, hother⟩ | hmanager
  · refine .inl ⟨other, ?_⟩
    grind [s.place_go_self, s.place_go_of_ne]
  · exact .inr hmanager

/-- Two steps of one caller in a row. -/
theorem FutexSystem.go_setQueue_go (mid queue : FutexQueue) {between : Place} :
    (((s.setQueue mid).go caller between).setQueue queue).go caller place =
      (s.setQueue queue).go caller place := by
  simp [go, setQueue]

/-- Who is to be woken is in flight. -/
theorem FutexSystem.inFlight_of_toWake (h : thread ∈ place.toWake) :
    (s.go caller place).InFlight thread := by
  refine .inl ⟨caller, ?_⟩
  rw [place_go_self]
  exact h

/-! ## Waiters arrive -/

variable (hs : s.Mirror)

include hs

/-- A new waiter does not have the number of an old record. -/
theorem FutexSystem.Mirror.free_of_adds {mid : FutexQueue}
    (hadds : Adds s.threads.queue mid key new)
    (hissue : s.threads.queue key = none → ∀ thread waitId,
      s.threads.recorded thread = some waitId → waitId.key = key → s.threads.queue.Has thread)
    (hrecorded : s.threads.recorded thread = some waitId) (hout : ¬s.threads.queue.Has thread)
    (hbucket : mid waitId.key ≠ none) : waitId.waiterId < mid.nextWaiterId waitId.key ∧
      ∀ waiter ∈ mid.waiters waitId.key, waiter.id ≠ waitId.waiterId := by
  obtain ⟨-, hfree⟩ := hs.out thread waitId hrecorded hout
  by_cases hkey : waitId.key = key
  · have hthere : s.threads.queue waitId.key ≠ none := fun hnone =>
      hout (hissue (hkey ▸ hnone) thread waitId hrecorded hkey)
    obtain ⟨hbelow, hunused⟩ := hfree hthere
    rw [hkey] at hbelow
    have hnext := hadds.next
    refine ⟨by rw [hkey]; omega, fun waiter hwaiter => ?_⟩
    rcases hadds.mem_iff.mp hwaiter with ⟨-, hnew⟩ | hold
    · have habove := (hadds.id_bounds hnew).1
      omega
    · exact hunused waiter hold
  · grind [hadds.other, nextWaiterId_congr, waiters_congr]

/-- A waiter is queued and recorded. -/
theorem FutexSystem.Mirror.publish {bitset : UInt32} {deadline : Option ℕ}
    (hissue : s.MayIssue key 1) (hmanager : s.threads.manager = none)
    (hexecutes : (s.threads.state thread).executes = true) :
    Mirror { s with threads := s.threads.publish thread key bitset deadline } := by
  obtain ⟨hid, hadds⟩ := queueWaiter_spec s.threads.queue key thread bitset hissue.1
  have hnone : s.threads.recorded thread = none := State.waitId_of_executes hexecutes
  have hout : ¬s.threads.queue.Has thread := fun h => hs.recorded_of_has h hnone
  have hrecorded : ∀ other, (s.threads.publish thread key bitset deadline).recorded other =
        if other = thread then some ⟨key, s.threads.queue.nextWaiterId key⟩
        else s.threads.recorded other := by
    intro other
    rw [← hid]
    exact recorded_setState s.threads thread _ other
  have hqueue : (s.threads.publish thread key bitset deadline).queue =
      (queueWaiterInLockedQueue s.threads.queue key thread bitset).2 := rfl
  generalize (queueWaiterInLockedQueue s.threads.queue key thread bitset).2 = mid at hadds hqueue
  have hmanager' : (s.threads.publish thread key bitset deadline).manager = none := hmanager
  generalize s.threads.publish thread key bitset deadline = threads at *
  obtain rfl : threads.queue = mid := hqueue
  constructor
  · grind [hadds.ordered, hs.ordered]
  · intro key' waiter hwaiter
    rw [hrecorded]
    rcases hadds.mem_iff.mp hwaiter with ⟨rfl, hnew⟩ | hold
    · grind
    · rw [if_neg fun heq => hout ⟨key', waiter, hold, heq⟩]
      exact hs.entry key' waiter hold
  · intro other waitId h
    obtain ⟨waiter, hwaiter, hfound⟩ := hs.moving other waitId h
    exact ⟨waiter, hadds.mem_iff.mpr (.inr hwaiter), hfound⟩
  · intro other waitId hold hgone
    rw [hrecorded] at hold
    by_cases hother : other = thread
    · subst hother
      refine absurd ⟨key, _, hadds.mem_iff.mpr (.inl ⟨rfl, mem_singleton_self _⟩), rfl⟩ hgone
    rw [if_neg hother] at hold
    have hgone' : ¬s.threads.queue.Has other := by
      rintro ⟨key', waiter, hwaiter, heq⟩
      exact hgone ⟨key', waiter, hadds.mem_iff.mpr (.inr hwaiter), heq⟩
    refine ⟨?_, hs.free_of_adds hadds hissue.2 hold hgone'⟩
    rcases (hs.out other waitId hold hgone').1 with hplace | ⟨sect, hsect, -⟩
    · exact .inl hplace
    · rw [hmanager] at hsect
      cases hsect
  · grind
  · grind

variable {queue' : FutexQueue}

/-- Threads that a call has taken out arrive in another bucket: they have still to get their new
identifiers. -/
theorem FutexSystem.Mirror.restore
    {threads woken : List ThreadID} (hadds : Adds s.threads.queue queue' key new)
    (hissue : s.threads.queue key = none → ∀ thread waitId,
      s.threads.recorded thread = some waitId → waitId.key = key → s.threads.queue.Has thread)
    (hnodup : (new.map FutexWaiter.thread).Nodup)
    (hnew : ∀ waiter ∈ new, s.threads.recorded waiter.thread ≠ none ∧
      ¬s.threads.queue.Has waiter.thread) (hplace : s.place caller = .taken threads)
    (hthreads : ∀ thread ∈ threads, thread ∈ woken ∨ thread ∈ new.map FutexWaiter.thread)
    (hcurrent : ∀ sect phase, s.threads.manager = some sect → sect.current = some phase →
      phase.thread ∉ new.map FutexWaiter.thread) :
    Mirror ((s.setQueue queue').go caller
      (.requeued (new.map fun waiter => (waiter.thread, ⟨key, waiter.id⟩)) woken)) := by
  -- Who is being moved: those who were, and the new ones.
  have hmoving : ∀ thread waitId, Moving ((s.setQueue queue').go caller
      (.requeued (new.map fun waiter => (waiter.thread, ⟨key, waiter.id⟩)) woken)) thread waitId ↔
        (thread, waitId) ∈ new.map (fun waiter => (waiter.thread, ⟨key, waiter.id⟩)) ∨
          s.Moving thread waitId := by
    intro thread waitId
    simp only [moving_iff hplace, Place.moved, not_mem_nil, false_or]
    exact moving_go_iff
  constructor
  · exact hadds.ordered hs.ordered hnodup fun waiter hwaiter => (hnew waiter hwaiter).2
  · intro key' waiter hwaiter
    rcases hadds.mem_iff.mp hwaiter with ⟨rfl, hnewer⟩ | hold
    · obtain ⟨waitId, hwaits⟩ := Option.ne_none_iff_exists'.mp (hnew waiter hnewer).1
      exact ⟨waitId, hwaits, .inr ((hmoving _ _).mpr (.inl (mem_map_of_mem hnewer)))⟩
    · obtain ⟨waitId, hwaits, hwhere⟩ := hs.entry key' waiter hold
      exact ⟨waitId, hwaits, hwhere.imp_right fun h => (hmoving _ _).mpr (.inr h)⟩
  · intro thread waitId h
    rcases (hmoving _ _).mp h with hmem | hold
    · obtain ⟨waiter, hwaiter, heq⟩ := mem_map.mp hmem
      cases heq
      exact ⟨waiter, hadds.mem_iff.mpr (.inl ⟨rfl, hwaiter⟩), rfl, rfl⟩
    · obtain ⟨waiter, hwaiter, hfound⟩ := hs.moving thread waitId hold
      exact ⟨waiter, hadds.mem_iff.mpr (.inr hwaiter), hfound⟩
  · intro thread waitId hwaits hgone
    have hout : ¬s.threads.queue.Has thread := by
      rintro ⟨key', waiter, hwaiter, heq⟩
      exact hgone ⟨key', waiter, hadds.mem_iff.mpr (.inr hwaiter), heq⟩
    have hold : thread ∉ new.map FutexWaiter.thread := by
      intro hmem
      obtain ⟨waiter, hwaiter, heq⟩ := mem_map.mp hmem
      exact hgone ⟨key, waiter, hadds.mem_iff.mpr (.inl ⟨rfl, hwaiter⟩), heq⟩
    refine ⟨?_, hs.free_of_adds hadds hissue hwaits hout⟩
    exact inFlight_go (s := s.setQueue queue') hplace
      (fun h => (hthreads thread h).resolve_right hold) (hs.out thread waitId hwaits hout).1
  · intro sect thread waitId hsect hphase
    obtain ⟨hread, hstill⟩ := hs.found sect thread waitId hsect hphase
    refine ⟨hread, fun waitId h => ?_⟩
    rcases (hmoving _ _).mp h with hmem | hold
    · obtain ⟨waiter, hwaiter, heq⟩ := mem_map.mp hmem
      exact hcurrent sect _ hsect hphase (mem_map.mpr ⟨waiter, hwaiter, congrArg Prod.fst heq⟩)
    · exact hstill waitId hold
  intro sect thread hsect hphase
  rintro ⟨key', waiter, hwaiter, heq⟩
  rcases hadds.mem_iff.mp hwaiter with ⟨-, hnewer⟩ | hold
  · exact hcurrent sect _ hsect hphase (mem_map.mpr ⟨waiter, hnewer, heq⟩)
  · exact hs.removed sect thread hsect hphase ⟨key', waiter, hold, heq⟩

/-! ## The steps -/

/-- Waiters are taken to be woken. -/
theorem FutexSystem.Mirror.take (hplace : s.place caller = .idle) (hsettled : s.Settled key)
    (hremoves : Removes s.threads.queue queue' key gone) :
    Mirror ((s.setQueue queue').go caller (.taken (gone.map FutexWaiter.thread))) := by
  refine hs.removes hremoves rfl (moving_go (s := s.setQueue queue') hplace rfl)
    (fun thread => inFlight_go (s := s.setQueue queue') hplace nofun) ?_
    fun sect phase hsect hphase => .inl ⟨sect, hsect, hphase⟩
  intro waiter hwaiter
  exact ⟨inFlight_of_toWake (mem_map_of_mem hwaiter),
    hsettled waiter (hremoves.mem_iff.mpr (.inl ⟨rfl, hwaiter⟩))⟩

/-- The part of a requeue under the lock of the queue: it takes all its threads out of the first
bucket, and puts those it moves into the second. -/
theorem FutexSystem.Mirror.requeue {source target : FutexKey}
    {wakeCount requeueCount : ℕ} (hplace : s.place caller = .idle) (hne : source ≠ target)
    (hsettled : s.Settled source)
    (hissue : s.MayIssue target (s.threads.queue.waiters source).length)
    (hcurrent : ∀ sect phase, s.threads.manager = some sect → sect.current = some phase →
      ∀ waiter ∈ s.threads.queue.waiters source, waiter.thread ≠ phase.thread) :
    Mirror ((s.setQueue
      (requeueWaiters s.threads.queue source target wakeCount requeueCount).queue).go caller
      (.requeued (requeueWaiters s.threads.queue source target wakeCount requeueCount).movedIds
        (requeueWaiters s.threads.queue source target wakeCount requeueCount).woken)) := by
  obtain ⟨woken, moved, new, mid, hwoken, hids, hthreads, hremoves, hadds⟩ :=
    requeueWaiters_spec wakeCount hne hissue.1
  rw [hwoken, hids]
  generalize (requeueWaiters s.threads.queue source target wakeCount requeueCount).queue = queue'
    at *
  have htaken := hs.take hplace hsettled hremoves
  have hsource : ∀ waiter ∈ woken ++ moved, waiter ∈ s.threads.queue.waiters source :=
    fun waiter hwaiter => hremoves.mem_iff.mpr (.inl ⟨rfl, hwaiter⟩)
  have hmem : ∀ {thread}, thread ∈ new.map FutexWaiter.thread →
      ∃ waiter ∈ woken ++ moved, waiter.thread = thread := by
    grind
  rw [← go_setQueue_go mid queue']
  refine htaken.restore hadds ?_ ?_ ?_ (place_go_self ..) ?_ ?_
  · -- A thread that records an identifier of the target does not come from the source.
    intro hnone thread waitId hrecorded hkey
    have hbucket : s.threads.queue target = none :=
      (hremoves.other target hne.symm).symm.trans hnone
    obtain ⟨key', waiter, hwaiter, rfl⟩ := hissue.2 hbucket thread waitId hrecorded hkey
    rcases hremoves.mem_iff.mp hwaiter with ⟨rfl, hgone⟩ | hstay
    · have hwhere := hs.entry_of_recorded hwaiter hrecorded (hsettled waiter hwaiter)
      grind
    · exact ⟨key', waiter, hstay, rfl⟩
  · have hnodup := hs.ordered.threads source
    rw [(hremoves.perm.map FutexWaiter.thread).nodup_iff, map_append, map_append] at hnodup
    grind
  · intro waiter hwaiter
    obtain ⟨waiter', hwaiter', heq⟩ := hmem (mem_map_of_mem hwaiter)
    rw [← heq]
    refine ⟨?_, hremoves.not_has hs.ordered hwaiter'⟩
    exact hs.recorded_of_has ⟨source, waiter', hsource waiter' hwaiter', rfl⟩
  · simp [hthreads]
  · intro sect phase hsect hphase h
    obtain ⟨waiter, hwaiter, heq⟩ := hmem h
    exact hcurrent sect phase hsect hphase waiter (hsource waiter hwaiter) heq

/-- The record of a moved thread is updated. -/
theorem FutexSystem.Mirror.updateRecord {moved : List (ThreadID × FutexWaitId)}
    {woken : List ThreadID}
    (hplace : s.place caller = .requeued ((thread, waitId) :: moved) woken) :
    Mirror (go
      { s with threads := s.threads.setState thread ((s.threads.state thread).setWaitId waitId) }
      caller (.requeued moved woken)) := by
  have hmoved : s.Moving thread waitId :=
    ⟨caller, by rw [hplace]; exact mem_cons_self ..⟩
  obtain ⟨waiter, hwaiter, hid, hthread⟩ := hs.moving thread waitId hmoved
  have hhas : s.threads.queue.Has thread := ⟨waitId.key, waiter, hwaiter, hthread⟩
  generalize hs' : go
    { s with threads := s.threads.setState thread ((s.threads.state thread).setWaitId waitId) }
    caller (.requeued moved woken) = s'
  have hqueue : s'.threads.queue = s.threads.queue := by
    rw [← hs']
    rfl
  have hmanager : s'.threads.manager = s.threads.manager := by
    rw [← hs']
    rfl
  have hself : s'.threads.recorded thread = some waitId := by
    obtain ⟨old, hold⟩ := Option.ne_none_iff_exists'.mp (hs.recorded_of_has hhas)
    rw [← hs']
    refine (recorded_setState s.threads thread _ thread).trans ?_
    rw [if_pos rfl, State.waitId_setWaitId,
      show (s.threads.state thread).waitId = some old from hold]
    rfl
  have hothers : ∀ other, other ≠ thread →
      s'.threads.recorded other = s.threads.recorded other := by
    intro other hother
    rw [← hs']
    refine (recorded_setState s.threads thread _ other).trans ?_
    rw [if_neg hother]
  have hmoving : ∀ other waitId', s'.Moving other waitId' ↔ (other, waitId') ∈ moved ∨
      ∃ mover ≠ caller, (other, waitId') ∈ (s.place mover).moved := by
    intro other waitId'
    rw [← hs']
    exact moving_go_iff
  have hbefore : ∀ other waitId', s.Moving other waitId' ↔
      (other, waitId') = (thread, waitId) ∨ s'.Moving other waitId' := by
    intro other waitId'
    rw [hmoving, moving_iff hplace, Place.moved, mem_cons, or_assoc]
  have hflight : ∀ other, s.InFlight other → s'.InFlight other := by
    intro other h
    rw [← hs']
    exact inFlight_go (s := { s with threads := _ }) hplace id h
  constructor
  · rw [hqueue]
    exact hs.ordered
  · rw [hqueue]
    intro key waiter' hwaiter'
    by_cases heq : waiter'.thread = thread
    · -- This thread is in the queue once, where its new identifier says.
      obtain ⟨rfl, rfl⟩ := hs.ordered.unique hwaiter hwaiter' (hthread.trans heq.symm)
      refine ⟨waitId, by rw [heq]; exact hself, .inl ?_⟩
      rw [hid]
    · grind [hs.entry]
  · grind [hs.moving]
  · rw [hqueue]
    grind [hs.out]
  · grind [hs.found]
  · rw [hqueue, hmanager]
    exact hs.removed

/-- A step that forgets nobody. -/
theorem FutexSystem.Mirror.go (hplace : s.place caller = old) (hmoved : place.moved = old.moved)
    (htoWake : ∀ thread ∈ old.toWake, thread ∈ place.toWake) : (s.go caller place).Mirror := by
  refine hs.frame rfl (fun _ => .inl rfl) (moving_go hplace hmoved)
    (fun thread _ => inFlight_go hplace (htoWake thread)) ?_
  intro sect phase hsect hphase
  exact .inl ⟨⟨sect, hsect, hphase⟩, rfl⟩

/-- The waiter with the recorded number is the thread's. -/
theorem FutexSystem.Mirror.thread_of_id (hrecorded : s.threads.recorded thread = some waitId)
    (hmoving : ∀ waitId, ¬s.Moving thread waitId)
    (hwaiter : waiter ∈ s.threads.queue.waiters waitId.key) (hid : waiter.id = waitId.waiterId) :
    waiter.thread = thread := by
  by_cases hhas : s.threads.queue.Has thread
  · obtain ⟨key, waiter', hwaiter', rfl⟩ := hhas
    obtain rfl := hs.entry_of_recorded hwaiter' hrecorded hmoving
    rw [inj_on_of_nodup_map (hs.ordered.ids key) hwaiter hwaiter' hid]
  obtain ⟨-, hfree⟩ := hs.out thread waitId hrecorded hhas
  have hbucket : s.threads.queue waitId.key ≠ none := by grind [waiters_of_none]
  exact absurd hid ((hfree hbucket).2 waiter hwaiter)

/-- A woken thread's waiter is removed. -/
theorem FutexSystem.Mirror.removeWaiter {sect : Section}
    {waitId : Option FutexWaitId} (hmanager : s.threads.manager = some sect)
    (hcurrent : sect.current = some (.found thread waitId)) (hplace : s'.place = s.place)
    (hstate : s'.threads.state = s.threads.state)
    (hqueue : s'.threads.queue = removeRecorded s.threads.queue waitId)
    (hmanager' : s'.threads.manager = some { sect with current := some (.removed thread) }) :
    s'.Mirror := by
  obtain ⟨hread, hstill⟩ := hs.found sect thread waitId hmanager hcurrent
  have hmoving : ∀ other waitId, s'.Moving other waitId ↔ s.Moving other waitId := by
    simp [hplace, Moving]
  have hnow : s'.InFlight thread := .inr ⟨_, hmanager', .inr ⟨_, rfl, rfl⟩⟩
  have hflight : ∀ other, s.InFlight other → s'.InFlight other := by
    rintro other (hcall | ⟨sect', hsect', hother⟩)
    · exact .inl (by rw [hplace]; exact hcall)
    obtain rfl := Option.some.inj (hmanager.symm.trans hsect')
    rcases hother with hpending | ⟨phase, hphase, rfl⟩
    · exact .inr ⟨_, hmanager', .inl hpending⟩
    · obtain rfl := Option.some.inj (hcurrent.symm.trans hphase)
      exact hnow
  cases waitId with
  | none =>
    have hremoves : Removes s.threads.queue s'.threads.queue (.priv 0 0) [] := by
      rw [hqueue]
      exact .nothing _ _
    refine hs.removes hremoves hstate hmoving hflight nofun ?_
    intro sect' phase hsect' hphase
    obtain rfl := Option.some.inj (hmanager'.symm.trans hsect')
    cases hphase
    rw [hqueue]
    exact .inr ⟨rfl, fun h => hs.recorded_of_has h hread.symm⟩
  | some waitId =>
  have hremoves := removeFutexWaiter_spec s.threads.queue waitId
  rw [← show s'.threads.queue = removeFutexWaiter s.threads.queue waitId from hqueue] at hremoves
  refine hs.removes hremoves hstate hmoving hflight ?_ ?_
  · grind [hs.thread_of_id]
  intro sect' phase hsect' hphase
  obtain rfl := Option.some.inj (hmanager'.symm.trans hsect')
  cases hphase
  refine .inr ⟨rfl, ?_⟩
  rintro ⟨key, waiter, hwaiter, hthread⟩
  -- The thread has been where it says, and that waiter is gone.
  have hmem := hremoves.mem_iff.mpr (.inr hwaiter)
  obtain rfl : waitId = ⟨key, waiter.id⟩ := by
    apply hs.entry_of_recorded hmem
    · rw [hthread]
      exact hread.symm
    · rw [hthread]
      exact hstill
  have hgone : waiter ∈ (s.threads.queue.waiters key).filter fun waiter' =>
      waiter'.id == waiter.id := mem_filter.mpr ⟨hmem, beq_self_eq_true _⟩
  exact hremoves.not_has hs.ordered hgone ⟨key, waiter, hwaiter, rfl⟩

/-- A safe step of the threads keeps the mirror. -/
theorem FutexSystem.Mirror.exec_thread {move : ThreadMove} {threads : Threads}
    (hsafe : s.Safe (.thread move)) (h : s.threads.exec move = some threads) :
    Mirror { s with threads } := by
  cases move <;> dsimp only [Threads.exec] at h
  case block thread block =>
    split_ifs at h with hguard
    cases h
    refine hs.frame_threads rfl rfl (fun other => ?_) rfl
    refine (recorded_setState s.threads thread _ other).trans ?_
    split_ifs with hother
    · rw [hother]
      exact hguard.2.2.trans (State.waitId_of_executes hguard.2.1).symm
    · rfl
  case finishBlock thread =>
    grind [hs.frame_threads, queue_finishBlock, recorded_finishBlock, manager_finishBlock]
  case dispatch thread =>
    split_ifs at h with hguard
    cases h
    refine hs.frame_threads rfl rfl (fun other => ?_) rfl
    refine (recorded_setState _ thread _ other).trans ?_
    split_ifs with hother
    · rw [hother]
      unfold recorded
      rw [hguard.2]
      rfl
    · rfl
  case interrupt ending pending =>
    split_ifs at h with hguard
    cases h
    refine hs.frame rfl (fun _ => .inl rfl) (fun _ _ => .rfl) ?_ ?_
    · rintro thread - (hplace | ⟨sect, hsect, -⟩)
      · exact .inl hplace
      · rw [hguard] at hsect
        cases hsect
    · grind
  case readRecord =>
    split at h
    swap
    · cases h
    rename_i owner ending thread pending hmanager
    cases h
    refine hs.frame rfl (fun _ => .inl rfl) (fun _ _ => .rfl) ?_ ?_
    · rintro other - (hplace | ⟨sect, hsect, hother⟩)
      · exact .inl hplace
      obtain rfl := Option.some.inj (hmanager.symm.trans hsect)
      refine .inr ⟨_, rfl, ?_⟩
      rcases hother with hpending | ⟨phase, hphase, -⟩
      · rcases mem_cons.mp hpending with rfl | hpending
        · exact .inr ⟨_, rfl, rfl⟩
        · exact .inl hpending
      · cases hphase
    intro sect phase hsect hphase
    cases hsect
    cases hphase
    exact .inr ⟨rfl, hsafe _ hmanager thread rfl⟩
  case removeWaiter =>
    split at h
    swap
    · cases h
    grind [hs.removeWaiter]
  case finish =>
    split at h
    swap
    · cases h
    rename_i owner ending thread pending hmanager
    cases h
    have hrecorded := recorded_finish s.threads ending thread
    have hout := hs.removed _ thread hmanager rfl
    refine hs.frame (queue_finish _ _ _) ?_ (fun _ _ => .rfl) ?_ ?_
    · intro other
      by_cases hother : other = thread
      · subst hother
        exact .inr ⟨(hrecorded other).trans (if_pos rfl), hout⟩
      · exact .inl ((hrecorded other).trans (if_neg hother))
    · rintro other hwaits (hplace | ⟨sect, hsect, hother⟩)
      · exact .inl hplace
      obtain rfl := Option.some.inj (hmanager.symm.trans hsect)
      refine .inr ⟨_, rfl, .inl ?_⟩
      rcases hother with hpending | ⟨phase, hphase, rfl⟩
      · exact hpending
      · cases hphase
        exact absurd ((hrecorded _).trans (if_pos rfl)) hwaits
    · grind

/-- Every safe step keeps the mirror. -/
theorem FutexSystem.Mirror.exec {move : FutexMove} {eff : FutexEffect}
    (hsafe : s.Safe move) (h : s.exec move = some eff) : eff.system.Mirror := by
  cases move <;> dsimp only [FutexSystem.exec] at h
  case thread move =>
    obtain ⟨threads, hthreads, rfl⟩ := Option.map_eq_some_iff.mp h
    exact hs.exec_thread hsafe hthreads
  case wait thread key word value bitset deadline now =>
    split_ifs at h with hguard
    split at h
    · cases h
      exact hs
    · rename_i hcheck
      cases h
      exact (hs.publish (hsafe hcheck) hguard.1 hguard.2.1).go hguard.2.2 rfl nofun
  case waitReturn thread interrupted now =>
    split at h
    swap
    · cases h
    rename_i deadline hplace
    split_ifs at h
    cases h
    exact hs.go hplace rfl nofun
  case wake caller key word count wakeMask =>
    split_ifs at h with hguard
    split at h
    · cases h
      exact hs
    obtain ⟨taken, queue', htake, hremoves⟩ :=
      takeFutexWaiters_spec
    rw [htake] at h
    cases h
    exact hs.take hguard.2 hsafe hremoves
  case requeue caller source target word compare wakeCount requeueCount =>
    split_ifs at h with hguard
    split at h
    · cases h
      exact hs
    rename_i hcheck
    cases h
    obtain ⟨hne, hsettled, hissue, hcurrent⟩ := hsafe hcheck
    exact hs.requeue hguard.2 hne hsettled hissue hcurrent
  case updateRecord caller =>
    split at h
    swap
    · cases h
    grind [hs.updateRecord]
  case enterManager caller =>
    split_ifs at h with hmanager
    -- Both places from which the lock is taken have threads to wake and no identifier to write.
    have henter : ∀ {old : Place} {threads}, s.place caller = old → old.moved = [] →
        old.toWake = threads → FutexSystem.Mirror (.go { s with
            threads := { s.threads with manager := some ⟨some caller, .wake, none, threads⟩ } }
          caller (.waking threads.length)) := by
      intro old threads hplace hmoved htoWake
      refine hs.frame rfl (fun _ => .inl rfl) (FutexSystem.moving_go hplace hmoved.symm) ?_ ?_
      · rintro thread - (⟨other, hother⟩ | ⟨sect, hsect, -⟩)
        · by_cases heq : other = caller
          · subst heq
            exact .inr ⟨_, rfl, .inl (htoWake ▸ hplace ▸ hother)⟩
          · exact .inl ⟨other, by rw [FutexSystem.place_go_of_ne _ _ heq]; exact hother⟩
        · rw [hmanager] at hsect
          cases hsect
      · intro sect phase hsect hphase
        cases hsect
        cases hphase
    split at h
    · rename_i threads hplace
      cases h
      exact henter hplace rfl rfl
    · rename_i threads hplace
      cases h
      exact henter hplace rfl rfl
    · cases h
  case leaveManager =>
    split at h
    swap
    · cases h
    have hleave : FutexSystem.Mirror { s with threads := { s.threads with manager := none } } := by
      refine hs.frame rfl (fun _ => .inl rfl) (fun _ _ => .rfl) ?_ ?_
      · rintro thread - (hplace | ⟨sect, hsect, hthread⟩)
        · exact .inl hplace
        · grind
      · intro sect phase hsect
        cases hsect
    split at h
    · cases h
      exact hleave
    rename_i caller
    split at h
    swap
    · cases h
    rename_i woken hplace
    cases h
    exact hleave.go hplace rfl nofun

omit hs

/-! ## Runs -/

/-- Nobody waits at a futex, and nobody is in a call. -/
structure FutexSystem.Quiet (s : FutexSystem) : Prop where
  queue : ∀ key, s.threads.queue key = none
  recorded : ∀ thread, s.threads.recorded thread = none
  manager : s.threads.manager = none
  place : ∀ thread, s.place thread = .idle

/-- The mirror holds when nobody waits. -/
theorem FutexSystem.Quiet.mirror (hs : s.Quiet) : s.Mirror := by
  have hwaiters : ∀ key, s.threads.queue.waiters key = [] := fun key =>
    waiters_of_none (hs.queue key)
  constructor
  · constructor
    · intro key
      rw [hwaiters]
      exact nodup_nil
    · simp [hwaiters]
    · intro key
      rw [hwaiters]
      exact nodup_nil
    · simp [hwaiters]
  · simp [hwaiters]
  · rintro thread waitId ⟨caller, h⟩
    rw [hs.place] at h
    exact absurd h not_mem_nil
  · simp [hs.recorded]
  · simp [hs.manager]
  · simp [hs.manager]

/-- The thread is in the queue once, in the bucket and under the identifier of `waitId`. -/
def FutexSystem.Once (s : FutexSystem) (thread : ThreadID) (waitId : FutexWaitId) : Prop :=
  (∃ bitset, (s.threads.queue.waiters waitId.key).filter (fun waiter => waiter.thread = thread) =
      [⟨waitId.waiterId, thread, bitset⟩]) ∧
    ∀ key, key ≠ waitId.key → ∀ waiter ∈ s.threads.queue.waiters key, waiter.thread ≠ thread

/-- The thread has this waiter only. -/
theorem filter_thread_eq {waiters : List FutexWaiter}
    (hnodup : (waiters.map FutexWaiter.thread).Nodup) (hwaiter : waiter ∈ waiters) :
    waiters.filter (fun other => other.thread = waiter.thread) = [waiter] := by
  obtain ⟨before, after, rfl⟩ := append_of_mem hwaiter
  rw [map_append, map_cons, nodup_append'] at hnodup
  obtain ⟨-, hafter, hdisjoint⟩ := hnodup
  rw [filter_append, filter_cons_of_pos (by simp)]
  have hbefore : before.filter (fun other => other.thread = waiter.thread) = [] := by
    rw [filter_eq_nil_iff]
    intro other hother heq
    exact hdisjoint (mem_map_of_mem hother) (by rw [of_decide_eq_true heq]; exact mem_cons_self ..)
  have hafter : after.filter (fun other => other.thread = waiter.thread) = [] := by
    grind [filter_eq_nil_iff]
  rw [hbefore, hafter, nil_append]

/-- Who waits does so once, as recorded. -/
theorem FutexSystem.Mirror.once (hs : s.Mirror) (hwaiter : waiter ∈ s.threads.queue.waiters key) :
    s.Once waiter.thread ⟨key, waiter.id⟩ := by
  refine ⟨⟨waiter.bitset, filter_thread_eq (hs.ordered.threads key) hwaiter⟩, ?_⟩
  grind [hs.ordered.apart]

/-- In every run whose steps are safe, a thread that waits at a futex is in the queue once, where it
says or will say once a requeue is done, or it has been taken out to be woken. Nobody else is in the
queue, and waking a thread removes no other waiter. -/
theorem run_mirrors (s₀ : FutexSystem) (hquiet : s₀.Quiet) (moves : List FutexMove)
    (s : FutexSystem) (hsafe : SafeRun next Safe moves s₀) (hrun : runOps next moves s₀ = some s) :
    (∀ thread waitId, s.threads.recorded thread = some waitId →
      s.Once thread waitId ∨ (∃ newId, s.Moving thread newId ∧ s.Once thread newId) ∨
        ¬s.threads.queue.Has thread ∧ s.InFlight thread) ∧
      (∀ key, ∀ waiter ∈ s.threads.queue.waiters key, s.threads.recorded waiter.thread ≠ none) ∧
      ∀ sect thread waitId, s.threads.manager = some sect →
        sect.current = some (.found thread (some waitId)) → ∀ key,
          (removeFutexWaiter s.threads.queue waitId).waiters key =
            (s.threads.queue.waiters key).filter fun waiter => waiter.thread ≠ thread := by
  have hs : s.Mirror := by
    refine SafeRun.invariant (I := Mirror) ?_ hsafe hquiet.mirror hrun
    intro move s s' hsafe hnext hs
    obtain ⟨eff, hexec, rfl⟩ := Option.map_eq_some_iff.mp hnext
    exact hs.exec hsafe hexec
  refine ⟨?_, ?_, ?_⟩
  · intro thread waitId hrecorded
    by_cases hhas : s.threads.queue.Has thread
    · obtain ⟨key, waiter, hwaiter, rfl⟩ := hhas
      grind [hs.entry, hs.once]
    · exact .inr (.inr ⟨hhas, (hs.out thread waitId hrecorded hhas).1⟩)
  · intro key waiter hwaiter
    exact hs.recorded_of_has ⟨key, waiter, hwaiter, rfl⟩
  intro sect thread waitId hsect hphase key
  obtain ⟨hread, hstill⟩ := hs.found sect thread _ hsect hphase
  rw [waiters_removeFutexWaiter]
  apply filter_congr
  intro waiter hwaiter
  grind [hs.thread_of_id, hs.entry_of_recorded]

/-- Every thread on a CPU. -/
def allRunning : FutexSystem := ⟨⟨fun _ => none, fun _ => .running, [], none⟩, fun _ => .idle⟩

/-- Thread 1 waits, and thread 2 moves it to another word. -/
def moveOne : List FutexMove :=
  [.wait 1 (.priv 7 0) (.ok 0) 0 0xffffffff none 0, .thread (.finishBlock 1),
    .requeue 2 (.priv 7 0) (.priv 7 4) (.ok 0) none 0 1, .updateRecord 2]

/-- Thread 1 records the identifier that it has been given in the other bucket. -/
theorem run_mirrors_moveOne : ∃ s, runOps next moveOne allRunning = some s ∧
      s.threads.recorded 1 = some ⟨.priv 7 4, 0⟩ ∧
      (s.Once 1 ⟨.priv 7 4, 0⟩ ∨ (∃ newId, s.Moving 1 newId ∧ s.Once 1 newId) ∨
        ¬s.threads.queue.Has 1 ∧ s.InFlight 1) := by
  refine ⟨_, rfl, rfl, (run_mirrors allRunning ?_ moveOne _ ?_ rfl).1 1 _ rfl⟩
  · exact ⟨fun _ => rfl, fun _ => rfl, rfl, fun _ => rfl⟩
  refine ⟨fun _ => ⟨by decide, nofun⟩, trivial,
    fun _ => ⟨by decide, ?_, ⟨by decide, ?_⟩, nofun⟩, trivial, trivial⟩
  · rintro waiter - waitId ⟨caller, hmoved⟩
    by_cases hcaller : caller = 1
    · subst hcaller
      exact absurd hmoved not_mem_nil
    · rw [show place _ caller = .idle from update_of_ne hcaller ..] at hmoved
      exact absurd hmoved not_mem_nil
  intro _ thread waitId hrecorded hkey
  by_cases hthread : thread = 1
  · subst hthread
    cases hrecorded
    cases hkey
  dsimp only at hrecorded
  rw [recorded_finishBlock] at hrecorded
  have hbefore := (recorded_setState allRunning.threads 1 _ thread).symm.trans hrecorded
  rw [if_neg hthread] at hbefore
  cases hbefore

/-- Thread 1 waits, and thread 3 takes it out of the queue. Thread 2 gets the same identifier before
thread 3 wakes thread 1. -/
def wakeLate : List FutexMove :=
  [.wait 1 (.priv 7 0) (.ok 0) 0 0xffffffff none 0, .thread (.finishBlock 1),
    .wake 3 (.priv 7 0) (.ok 0) 1 none,
    .wait 2 (.priv 7 0) (.ok 0) 0 0xffffffff none 0, .thread (.finishBlock 2),
    .enterManager 3, .thread .readRecord, .thread .removeWaiter, .thread .finish, .leaveManager]

/-- Waking thread 1 has removed the waiter of thread 2, which nobody is going to wake. -/
theorem wake_removes_other_waiter : ∃ s, runOps next wakeLate allRunning = some s ∧
      s.threads.state 2 = .blocked (.futex none ⟨.priv 7 0, 0⟩) ∧
      s.threads.queue (.priv 7 0) = none ∧ s.threads.manager = none ∧
      s.place 3 = .idle :=
  ⟨_, rfl, rfl, rfl, rfl, rfl⟩

end Seele.Futex
