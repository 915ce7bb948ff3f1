import Seele.Scheduling.Wakes
import Seele.Lib.GuardedRun

/-!
# What a thread leaves behind when it exits

A thread that exits has the word at its `clear_child_tid` set to zero, and a waiter there is woken.
`mark_thread_exited` only notes this; the next `cleanup_exited_threads` does it, in the address
space that the process has by then. In between, `execve` may have given the process another one, and
the zero is written to the new image (`exit_reaches_new_image`).

The ghost `marks` has what was noted, in order, with the thread and the address space of that
moment, and `effects` what has been done. `exits_stay` says that the two agree as long as `execve`
is committed only when nothing is noted for its process, and a thread that has been marked does not
get another state. The first is what the source misses. The second fails where a thread is marked
while a CPU still executes it, and then announces that it will block.
-/

namespace Seele.Scheduling

open Futex (ThreadID FutexKey queueWaiterInLockedQueue)
open ThreadManager Function List

namespace ExitEffects

/-! ## Marking -/

/-- What the manager notes for a thread that it marks. -/
def noted (manager : ThreadManager) (threads : List ThreadID) : List ThreadID :=
  threads.filter fun t => (manager.thread t).clearChildTid != 0

/-- The entry for a thread in `pending_thread_exits`. -/
def entry (manager : ThreadManager) (thread : ThreadID) : PendingThreadExit :=
  ⟨(manager.thread thread).parent, (manager.thread thread).clearChildTid⟩

/-- The threads of a list have been marked, one after another, and nothing else has happened to what
is noted. -/
structure Marked (manager manager' : ThreadManager) (threads : List ThreadID) : Prop where
  zombies : manager'.zombies = manager.zombies ++ threads
  pending : manager'.pendingThreadExits =
    manager.pendingThreadExits ++ (noted manager threads).map (entry manager)
  nodup : threads.Nodup
  fresh : ∀ t ∈ threads, manager.state t ≠ .zombie
  zombie : ∀ t ∈ threads, manager'.state t = .zombie
  keeps : ∀ t, manager.state t = .zombie → manager'.state t = .zombie
  parent : ∀ t, (manager'.thread t).parent = (manager.thread t).parent
  tid : ∀ t ∉ threads, (manager'.thread t).clearChildTid = (manager.thread t).clearChildTid

namespace Marked

variable {manager manager' manager'' : ThreadManager} {threads threads' : List ThreadID}

/-- Nobody is marked. -/
theorem nothing (manager : ThreadManager) : Marked manager manager [] where
  zombies := by simp
  pending := by simp [noted]
  nodup := nodup_nil
  fresh t ht := by cases ht
  zombie t ht := by cases ht
  keeps _ := id
  parent _ := rfl
  tid _ _ := rfl

/-- Some are marked, and then others. -/
theorem trans (h : Marked manager manager' threads) (h' : Marked manager' manager'' threads') :
    Marked manager manager'' (threads ++ threads') := by
  have hapart : ∀ t ∈ threads', t ∉ threads := fun t ht' ht => h'.fresh t ht' (h.zombie t ht)
  have hnoted : noted manager' threads' = noted manager threads' := by
    refine filter_congr fun t ht => ?_
    rw [h.tid t (hapart t ht)]
  have hentries : (noted manager threads').map (entry manager') =
      (noted manager threads').map (entry manager) := by
    refine map_congr_left fun t ht => ?_
    rw [entry, entry, h.parent, h.tid t (hapart t (mem_filter.mp ht).1)]
  constructor
  · rw [h'.zombies, h.zombies, append_assoc]
  · rw [h'.pending, h.pending, hnoted, hentries, noted, noted, noted, filter_append,
      map_append, append_assoc]
  · grind [h.nodup, h'.nodup]
  · intro t ht
    obtain ht | ht := mem_append.mp ht
    · exact h.fresh t ht
    · exact fun hzombie => h'.fresh t ht (h.keeps t hzombie)
  · grind [h'.keeps, h.zombie, h'.zombie]
  · exact fun t ht => h'.keeps t (h.keeps t ht)
  · exact fun t => (h'.parent t).trans (h.parent t)
  · grind [h'.tid, h.tid]

end Marked

variable {manager : ThreadManager} {thread : ThreadID}

/-- One thread is marked. -/
theorem markThreadExited_marked (h : manager.state thread ≠ .zombie) :
    Marked manager (manager.markThreadExited thread) [thread] := by
  have hspares := manager.markThreadExited_spares thread
  have hthread : ∀ t ≠ thread, (manager.markThreadExited thread).thread t = manager.thread t := by
    intro t hne
    simp [markThreadExited, h, setState, removeReadyThread, setClearChildTid, update_of_ne hne]
  constructor
  · simp only [markThreadExited, if_neg h]
    rfl
  · by_cases htid : (manager.thread thread).clearChildTid = 0
    · simp [markThreadExited, h, htid, noted, setState, removeReadyThread, removeFromBlockedQueues,
        setClearChildTid]
    · simp [markThreadExited, h, htid, noted, entry, setState, removeReadyThread,
        removeFromBlockedQueues, setClearChildTid]
  · exact nodup_singleton thread
  · intro t ht
    rw [mem_singleton.mp ht]
    exact h
  · simp
  · grind [hspares.state]
  · intro t
    by_cases hne : t = thread
    · subst hne
      simp [markThreadExited, h, removeReadyThread, setClearChildTid]
    · rw [hthread t hne]
  · intro t ht
    rw [hthread t (by simpa using ht)]

/-- A state is set, and nobody is marked. -/
theorem setState_marked (h : manager.state thread ≠ .zombie) {state : State} :
    Marked manager (manager.setState thread state) [] where
  zombies := by simp [setState]
  pending := by simp [noted, setState]
  nodup := nodup_nil
  fresh t ht := by cases ht
  zombie t ht := by cases ht
  keeps t ht := by
    have hne : t ≠ thread := by
      rintro rfl
      exact h ht
    rw [state_setState_of_ne hne]
    exact ht
  parent t := by
    by_cases hne : t = thread
    · subst hne
      rw [thread_setState_self]
    · rw [thread_setState_of_ne hne]
  tid t _ := by
    by_cases hne : t = thread
    · subst hne
      rw [thread_setState_self]
    · rw [thread_setState_of_ne hne]

/-- A sibling is marked, or told to exit. -/
theorem exitSibling_marked : ∃ threads, Marked manager (manager.exitSibling thread).2 threads := by
  unfold exitSibling
  split
  case h_1 | h_3 => exact ⟨[], .nothing manager⟩
  case h_2 hstate => exact ⟨[], setState_marked (by simp [hstate])⟩
  all_goals
    rename_i hstate
    exact ⟨[thread], markThreadExited_marked (by simp [hstate])⟩

/-- What is done to the siblings marks some. -/
theorem exitList_marked {current : ThreadID} :
    ∀ (threads : List ThreadID) (exited : Bool × ThreadManager),
      ∃ marked, Marked exited.2 (threads.foldl (exitStep current) exited).2 marked
  | [], exited => ⟨[], .nothing exited.2⟩
  | thread :: threads, exited => by
    obtain ⟨marked, hrest⟩ := exitList_marked threads (exitStep current exited thread)
    have hfirst : ∃ marked, Marked exited.2 (exitStep current exited thread).2 marked := by
      unfold exitStep
      split
      case isTrue => exact ⟨[], .nothing exited.2⟩
      case isFalse => exact exitSibling_marked
    obtain ⟨first, hfirst⟩ := hfirst
    exact ⟨first ++ marked, hfirst.trans hrest⟩

variable {manager' : ThreadManager}

/-- A wake leaves the zombies. -/
theorem wake_keeps {woken : List ThreadID}
    (h : Woke manager manager' woken) {t : ThreadID} (ht : manager.state t = .zombie) :
    manager'.state t = .zombie := by
  rw [h.state, ht]
  split <;> rfl

/-! ## Address spaces and processes -/

/-- The memory of an address space: the pages that may be written, and the bytes. -/
structure AddrSpace where
  writable : ℕ → Bool
  bytes : ℕ → UInt8

/-- `write_bytes`: up to the first page that may not be written. -/
def AddrSpace.writeBytes : AddrSpace → ℕ → List UInt8 → AddrSpace
  | addrspace, _, [] => addrspace
  | addrspace, addr, byte :: rest =>
    if addrspace.writable (addr / 4096) then
      { addrspace with bytes := update addrspace.bytes addr byte }.writeBytes
        (addr + 1) rest
    else addrspace

/-- `clean` and `clean_for_exit`: nothing is mapped any more. -/
def AddrSpace.clean (addrspace : AddrSpace) : AddrSpace :=
  { addrspace with writable := fun _ => false }

/-- The parts of a `Process` that are read here. The address space is named by a number. -/
structure Process where
  addrspace : ℕ
  threads : List ThreadID
  parent : Option ProcessID
  borrowedAddrspaceFromParent : Bool

/-- How far a thread is in `execve`. -/
inductive ExecStage where
  | none
  /-- After `prepare_execve`, with the threads of the process. -/
  | prepared (threads : List ThreadID)
  /-- After `request_exec_siblings_to_exit`. -/
  | requested (threads : List ThreadID)
  /-- After `wait_for_exec_siblings_to_stop`. -/
  | stopped
  deriving DecidableEq, Repr

/-- What was noted for a thread when it was marked: its address space of that moment, and how many
address spaces there had been by then. -/
structure Mark where
  thread : ThreadID
  process : ProcessID
  clearChildTid : ℕ
  addrspace : ℕ
  addrspacesSoFar : ℕ
  deriving DecidableEq, Repr

/-- The zero has been written and a waiter woken, for an address in an address space. -/
structure Effect where
  process : ProcessID
  clearChildTid : ℕ
  addrspace : ℕ
  deriving DecidableEq, Repr

/-- The threads, the processes and the address spaces, of which the next one has the number
`nextAddrspace`; and what was noted and done so far. -/
structure System where
  manager : ThreadManager
  process : ProcessID → Process
  addrspace : ℕ → AddrSpace
  nextAddrspace : ℕ
  stage : ThreadID → ExecStage
  marks : List Mark
  effects : List Effect

open Seele.Scheduling.ExitEffects.System

namespace System

/-- The mark for a thread. -/
def mark (s : System) (thread : ThreadID) : Mark where
  thread := thread
  process := (s.manager.thread thread).parent
  clearChildTid := (s.manager.thread thread).clearChildTid
  addrspace := (s.process (s.manager.thread thread).parent).addrspace
  addrspacesSoFar := s.nextAddrspace

/-- The manager has done something. The threads that it has marked are at the end of `zombies`. -/
def withManager (s : System) (manager : ThreadManager) : System :=
  { s with
    manager
    marks := s.marks ++
      (noted s.manager (manager.zombies.drop s.manager.zombies.length)).map s.mark }

/-- One entry in `flush_pending_thread_exits`. -/
def applyExit (s : System) (pending : PendingThreadExit) : System :=
  let addrspace := (s.process pending.process).addrspace
  { s with
    addrspace := update s.addrspace addrspace
      ((s.addrspace addrspace).writeBytes pending.clearChildTid [0, 0, 0, 0])
    manager := s.manager.wakeFutex (.priv pending.process pending.clearChildTid) 1 none
    effects := s.effects ++ [⟨pending.process, pending.clearChildTid, addrspace⟩] }

/-- `flush_pending_thread_exits`. -/
def flushPendingThreadExits (s : System) : System :=
  s.manager.pendingThreadExits.foldl applyExit
    { s with manager := { s.manager with pendingThreadExits := [] } }

/-- One zombie in `cleanup_exited_threads`, with the processes that have lost their last thread. -/
def drainZombie (drained : List ProcessID × System) (thread : ThreadID) :
    List ProcessID × System :=
  let s := drained.2
  let parent := (s.manager.thread thread).parent
  let threads := (s.process parent).threads.filter (· != thread)
  (if threads.isEmpty then drained.1 ++ [parent] else drained.1, { s with
      manager := { s.manager with threads := s.manager.threads.filter (· != thread) }
      process := update s.process parent { s.process parent with threads } })

/-- The wakes for a process that has lost its last thread. -/
def wakeForDead (s : System) (process : ProcessID) : System :=
  { s with manager :=
    match (s.process process).parent with
    | some parent => s.manager.wakeForChildExit (s.process parent).threads
    | none => s.manager.wakeProcessExitWaiters }

/-- `cleanup_exited_threads`. -/
def cleanupExitedThreads (s : System) : System :=
  let flushed := s.flushPendingThreadExits
  let drained := flushed.manager.zombies.foldl drainZombie
    ([], { flushed with manager := { flushed.manager with zombies := [] } })
  drained.1.foldl wakeForDead drained.2

/-- `commit_execve`, by a thread. -/
def commitExecve (s : System) (thread : ThreadID) (next : AddrSpace) : System :=
  let pid := (s.manager.thread thread).parent
  let process := s.process pid
  let replaced := update s.process pid
    { process with addrspace := s.nextAddrspace, borrowedAddrspaceFromParent := false }
  let cleaned := update s.addrspace process.addrspace
    (s.addrspace process.addrspace).clean
  let given : (ProcessID → Process) × (ℕ → AddrSpace) :=
    if process.borrowedAddrspaceFromParent then
      match process.parent with
      -- The parent gets its address space back.
      | some parent =>
        (update replaced parent { replaced parent with addrspace := process.addrspace },
          s.addrspace)
      | none => (replaced, cleaned)
    else (replaced, cleaned)
  { s with
    manager := s.manager.setClearChildTid thread 0
    process := given.1
    addrspace := update given.2 s.nextAddrspace next
    nextAddrspace := s.nextAddrspace + 1
    stage := update s.stage thread .none }

end System

/-- The steps. -/
inductive Op where
  /-- `set_tid_address`. -/
  | setTidAddress (thread : ThreadID) (addr : ℕ)
  /-- `clone` of a thread, with `CLONE_CHILD_CLEARTID` if the address is not zero. -/
  | spawn (thread : ThreadID) (process : ProcessID) (clearChildTid : ℕ)
  /-- `fork`, with a copy of an address space. -/
  | fork (child : ProcessID) (parent : Option ProcessID) (copy : AddrSpace)
  /-- The scheduler gives a thread a state: dispatch, yield, stop, `finish_block_current`. -/
  | schedule (thread : ThreadID) (state : State)
  | block (thread : ThreadID) (block : BlockType)
  | futexWait (thread : ThreadID) (key : FutexKey) (bitset : UInt32) (deadline : Option ℕ)
  | wake (thread : ThreadID)
  | markExited (thread : ThreadID)
  | prepareExecve (thread : ThreadID)
  | requestSiblings (thread : ThreadID)
  | waitSiblings (thread : ThreadID)
  | commitExecve (thread : ThreadID) (next : AddrSpace)
  /-- `clean_for_exit`, when a process is terminated. -/
  | cleanForExit (process : ProcessID)
  | cleanup

/-- One step. -/
def exec (op : Op) (s : System) : Option System :=
  match op with
  | .setTidAddress thread addr =>
    some { s with manager := s.manager.setClearChildTid thread addr }
  | .spawn thread process clearChildTid =>
    -- The number of the thread is new.
    if thread ∉ s.manager.threads ∧ s.manager.state thread ≠ .zombie then
      let manager := { s.manager with
        thread := update s.manager.thread thread ⟨.ready, process, clearChildTid, true⟩
        threads := s.manager.threads ++ [thread] }
      some { s with
        manager := manager.pushReadyBalanced thread
        process := update s.process process
          { s.process process with threads := (s.process process).threads ++ [thread] } }
    else none
  | .fork child parent copy =>
    -- The process is new, so nothing has been noted for it.
    if s.manager.pendingThreadExits.all fun pending => pending.process != child then
      some { s with
        process := update s.process child ⟨s.nextAddrspace, [], parent, false⟩
        addrspace := update s.addrspace s.nextAddrspace copy
        nextAddrspace := s.nextAddrspace + 1 }
    else none
  | .schedule thread state =>
    if state = .zombie then none else some (s.withManager (s.manager.setState thread state))
  | .block thread block => some (s.withManager (s.manager.block thread block))
  | .futexWait thread key bitset deadline =>
    let queued := queueWaiterInLockedQueue s.manager.futexQueue key thread bitset
    some (s.withManager
      ({ s.manager with futexQueue := queued.2 }.block thread (.futex deadline queued.1)))
  | .wake thread => some (s.withManager (s.manager.wake thread))
  | .markExited thread => some (s.withManager (s.manager.markThreadExited thread))
  | .prepareExecve thread =>
    let threads := (s.process (s.manager.thread thread).parent).threads
    some { s with stage := update s.stage thread (.prepared threads) }
  | .requestSiblings thread =>
    match s.stage thread with
    | .prepared threads =>
      some { s.withManager (s.manager.exitThreadListExcept threads thread).2 with
        stage := update s.stage thread (.requested threads) }
    | _ => none
  | .waitSiblings thread =>
    match s.stage thread with
    | .requested threads =>
      let exited := s.manager.exitThreadListExcept threads thread
      some { s.withManager exited.2 with
        stage := update s.stage thread (if exited.1 then .stopped else .requested threads) }
    | _ => none
  | .commitExecve thread next =>
    match s.stage thread with
    | .stopped => some (s.commitExecve thread next)
    | _ => none
  | .cleanForExit process =>
    let addrspace := (s.process process).addrspace
    some { s with
      addrspace := update s.addrspace addrspace (s.addrspace addrspace).clean }
  | .cleanup => some s.cleanupExitedThreads

/-- Nothing is noted for a process. -/
def Settled (s : System) (process : ProcessID) : Prop :=
  ∀ pending ∈ s.manager.pendingThreadExits, pending.process ≠ process

instance (s : System) (process : ProcessID) : Decidable (Settled s process) :=
  inferInstanceAs (Decidable (∀ pending ∈ s.manager.pendingThreadExits, _))

/-- Nothing is noted for a process that gets another address space, and a thread that has been
marked does not get another state. -/
def Safe (op : Op) (s : System) : Prop :=
  match op with
  | .commitExecve thread _ =>
    let process := (s.manager.thread thread).parent
    Settled s process ∧ ((s.process process).borrowedAddrspaceFromParent →
      ∀ parent ∈ (s.process process).parent, Settled s parent)
  | .schedule thread _ | .block thread _ | .futexWait thread _ _ _ =>
    s.manager.state thread ≠ .zombie
  | _ => True

instance : ∀ op s, Decidable (Safe op s)
  | .commitExecve thread _, s =>
    inferInstanceAs (Decidable (Settled s (s.manager.thread thread).parent ∧
      ((s.process (s.manager.thread thread).parent).borrowedAddrspaceFromParent →
        ∀ parent ∈ (s.process (s.manager.thread thread).parent).parent, Settled s parent)))
  | .schedule thread _, s | .block thread _, s | .futexWait thread _ _ _, s =>
    inferInstanceAs (Decidable (s.manager.state thread ≠ .zombie))
  | .setTidAddress .., _ | .spawn .., _ | .fork .., _ | .wake _, _ | .markExited _, _
  | .prepareExecve _, _ | .requestSiblings _, _ | .waitSiblings _, _ | .cleanForExit _, _
  | .cleanup, _ => .isTrue trivial

/-! ## The invariant -/

/-- The entry for a mark in `pending_thread_exits`. -/
def Mark.entry (mark : Mark) : PendingThreadExit := ⟨mark.process, mark.clearChildTid⟩

/-- What a mark asks for: in the address space of the moment it was made. -/
def Mark.effect (mark : Mark) : Effect := ⟨mark.process, mark.clearChildTid, mark.addrspace⟩

/-- The first marks have had their effects, one by one. The others are noted, and their processes
still have the same address space. No thread is marked twice. -/
structure Inv (s : System) : Prop where
  split : ∃ done waiting, s.marks = done ++ waiting ∧ s.effects = done.map Mark.effect ∧
    s.manager.pendingThreadExits = waiting.map Mark.entry ∧
      ∀ mark ∈ waiting, (s.process mark.process).addrspace = mark.addrspace
  nodup : (s.marks.map Mark.thread).Nodup
  zombie : ∀ mark ∈ s.marks, s.manager.state mark.thread = .zombie
  older : ∀ mark ∈ s.marks, mark.addrspace < mark.addrspacesSoFar
  installed : ∀ process, (s.process process).addrspace < s.nextAddrspace

/-- Nothing is marked, noted or done, no process gets another address space, and no zombie comes
back. -/
structure Quiet (s s' : System) : Prop where
  marks : s'.marks = s.marks
  effects : s'.effects = s.effects
  pending : s'.manager.pendingThreadExits = s.manager.pendingThreadExits
  addrspace : ∀ process, (s'.process process).addrspace = (s.process process).addrspace
  next : s'.nextAddrspace = s.nextAddrspace
  keeps : ∀ t, s.manager.state t = .zombie → s'.manager.state t = .zombie

variable {s s' s'' : System}

/-- Nothing happens. -/
theorem Quiet.refl (s : System) : Quiet s s := ⟨rfl, rfl, rfl, fun _ => rfl, rfl, fun _ => id⟩

/-- One quiet step after another. -/
theorem Quiet.trans (h : Quiet s s') (h' : Quiet s' s'') : Quiet s s'' where
  marks := h'.marks.trans h.marks
  effects := h'.effects.trans h.effects
  pending := h'.pending.trans h.pending
  addrspace process := (h'.addrspace process).trans (h.addrspace process)
  next := h'.next.trans h.next
  keeps t ht := h'.keeps t (h.keeps t ht)

/-- A loop of quiet steps. -/
theorem Quiet.foldl {α : Type} {f : System → α → System} (hf : ∀ s a, Quiet s (f s a)) :
    ∀ (l : List α) (s : System), Quiet s (l.foldl f s)
  | [], s => .refl s
  | a :: l, s => (hf s a).trans (Quiet.foldl hf l (f s a))

/-- A quiet step keeps the invariant. -/
theorem Inv.quiet (h : Inv s) (hquiet : Quiet s s') : Inv s' where
  split := by
    obtain ⟨done, waiting, hmarks, heffects, hpending, hsame⟩ := h.split
    refine ⟨done, waiting, hquiet.marks.trans hmarks, hquiet.effects.trans heffects,
      hquiet.pending.trans hpending, fun mark hmark => ?_⟩
    rw [hquiet.addrspace]
    exact hsame mark hmark
  nodup := by
    rw [hquiet.marks]
    exact h.nodup
  zombie mark hmark := by
    rw [hquiet.marks] at hmark
    exact hquiet.keeps _ (h.zombie mark hmark)
  older mark hmark := by
    rw [hquiet.marks] at hmark
    exact h.older mark hmark
  installed process := by
    rw [hquiet.addrspace, hquiet.next]
    exact h.installed process

/-! ## Marking keeps it -/

/-- Marking keeps the invariant. -/
theorem Inv.withManager {threads : List ThreadID} (h : Inv s)
    (hmarked : Marked s.manager manager' threads) : Inv (s.withManager manager') := by
  have hdrop : manager'.zombies.drop s.manager.zombies.length = threads := by
    rw [hmarked.zombies, drop_left]
  have hmarks : (s.withManager manager').marks =
      s.marks ++ (noted s.manager threads).map s.mark := by
    rw [← hdrop]
    rfl
  have hnew : ∀ mark ∈ (noted s.manager threads).map s.mark, ∃ t ∈ threads, mark = s.mark t := by
    intro mark hmark
    obtain ⟨t, ht, rfl⟩ := mem_map.mp hmark
    exact ⟨t, (mem_filter.mp ht).1, rfl⟩
  constructor
  · obtain ⟨done, waiting, hsplit, heffects, hpending, hsame⟩ := h.split
    refine ⟨done, waiting ++ (noted s.manager threads).map s.mark, ?_, heffects, ?_, ?_⟩
    · rw [hmarks, hsplit, append_assoc]
    · show manager'.pendingThreadExits = _
      rw [hmarked.pending, hpending, map_append, map_map]
      rfl
    intro mark hmark
    obtain hmark | hmark := mem_append.mp hmark
    · exact hsame mark hmark
    · obtain ⟨t, -, rfl⟩ := hnew mark hmark
      rfl
  · rw [hmarks, map_append, map_map]
    refine nodup_append'.mpr ⟨h.nodup, ?_, ?_⟩
    · have hid : Mark.thread ∘ s.mark = id := rfl
      rw [hid, map_id]
      exact hmarked.nodup.filter _
    intro t hold hnow
    -- Who has been marked before is a zombie, and is not marked.
    obtain ⟨mark, hmark, rfl⟩ := mem_map.mp hold
    obtain ⟨t, ht, hthread⟩ := mem_map.mp hnow
    have hzombie := h.zombie mark hmark
    rw [← hthread] at hzombie
    exact hmarked.fresh t (mem_filter.mp ht).1 hzombie
  · intro mark hmark
    rw [hmarks] at hmark
    obtain hmark | hmark := mem_append.mp hmark
    · exact hmarked.keeps _ (h.zombie mark hmark)
    · obtain ⟨t, ht, rfl⟩ := hnew mark hmark
      exact hmarked.zombie t ht
  · intro mark hmark
    rw [hmarks] at hmark
    obtain hmark | hmark := mem_append.mp hmark
    · exact h.older mark hmark
    · obtain ⟨t, -, rfl⟩ := hnew mark hmark
      exact h.installed _
  · exact h.installed

/-- A manager without new marks keeps it. -/
theorem Inv.withManager_quiet (h : Inv s) (hzombies : manager'.zombies = s.manager.zombies)
    (hpending : manager'.pendingThreadExits = s.manager.pendingThreadExits)
    (hkeeps : ∀ t, s.manager.state t = .zombie → manager'.state t = .zombie) :
    Inv (s.withManager manager') := by
  refine h.quiet ⟨?_, rfl, hpending, fun _ => rfl, rfl, hkeeps⟩
  simp [System.withManager, hzombies, noted]

/-! ## Cleaning up keeps it -/

/-- What applying the noted exits does. -/
theorem foldl_applyExit {pending : List PendingThreadExit} (s : System) :
    (pending.foldl applyExit s).effects =
        s.effects ++ pending.map (fun e =>
          ⟨e.process, e.clearChildTid, (s.process e.process).addrspace⟩) ∧
      (pending.foldl applyExit s).marks = s.marks ∧
      (pending.foldl applyExit s).process = s.process ∧
      (pending.foldl applyExit s).nextAddrspace = s.nextAddrspace ∧
      (pending.foldl applyExit s).manager.pendingThreadExits = s.manager.pendingThreadExits ∧
      ∀ t, s.manager.state t = .zombie → (pending.foldl applyExit s).manager.state t = .zombie := by
  induction pending generalizing s with
  | nil => simp
  | cons first rest ih =>
  obtain ⟨heffects, hmarks, hprocess, hnext, hpending, hkeeps⟩ := ih (s.applyExit first)
  have hwoke := wakeFutex_woke s.manager (.priv first.process first.clearChildTid) 1 none
  rw [foldl_cons]
  refine ⟨?_, hmarks, hprocess, hnext, hpending.trans hwoke.pendingThreadExits, fun t ht => ?_⟩
  · rw [heffects]
    simp [applyExit]
  · exact hkeeps t (wake_keeps hwoke ht)

/-- Draining one zombie is quiet. -/
theorem drainZombie_quiet {drained : List ProcessID × System} :
    Quiet drained.2 (drainZombie drained thread).2 := by
  refine ⟨rfl, rfl, rfl, fun process => ?_, rfl, fun _ => id⟩
  simp only [drainZombie]
  grind

/-- Draining the zombies is quiet. -/
theorem foldl_drainZombie_quiet : ∀ (zombies : List ThreadID) (drained : List ProcessID × System),
      Quiet drained.2 (zombies.foldl drainZombie drained).2
  | [], drained => .refl drained.2
  | _ :: zombies, _ => (drainZombie_quiet).trans (foldl_drainZombie_quiet zombies _)

/-- Waking a parent is quiet. -/
theorem wakeForDead_quiet (s : System) (process : ProcessID) : Quiet s (s.wakeForDead process) := by
  have hwaiters : ∀ manager : ThreadManager,
      (manager.wakeProcessExitWaiters.pendingThreadExits = manager.pendingThreadExits) ∧
        ∀ t, manager.state t = .zombie → manager.wakeProcessExitWaiters.state t = .zombie :=
    fun manager =>
      ⟨(wakeRetain_woke).pendingThreadExits, fun _ ht => wake_keeps (wakeRetain_woke) ht⟩
  unfold wakeForDead
  split
  case h_1 parent hparent =>
    have hparents := wakeIf_woke State.sleeps (s.process parent).threads s.manager
    refine ⟨rfl, rfl, (hwaiters _).1.trans hparents.pendingThreadExits, fun _ => rfl, rfl,
      fun t ht => (hwaiters _).2 t (wake_keeps hparents ht)⟩
  case h_2 => exact ⟨rfl, rfl, (hwaiters _).1, fun _ => rfl, rfl, (hwaiters _).2⟩

/-- The flush keeps the invariant. -/
theorem Inv.flush (h : Inv s) : Inv s.flushPendingThreadExits := by
  obtain ⟨done, waiting, hsplit, heffects, hpending, hsame⟩ := h.split
  obtain ⟨heffects', hmarks', hprocess', hnext', hpending', hkeeps'⟩ :=
    foldl_applyExit { s with manager := { s.manager with pendingThreadExits := [] } }
  constructor
  · refine ⟨done ++ waiting, [], ?_, ?_, hpending', nofun⟩
    · rw [append_nil]
      exact hmarks'.trans hsplit
    · refine heffects'.trans ?_
      grind [map_congr_left, Mark.entry, Mark.effect]
  · exact hmarks' ▸ h.nodup
  · intro mark hmark
    exact hkeeps' _ (h.zombie mark (hmarks' ▸ hmark))
  · intro mark hmark
    exact h.older mark (hmarks' ▸ hmark)
  · intro process
    simp only [flushPendingThreadExits, hprocess', hnext']
    exact h.installed process

/-- The cleanup keeps the invariant. -/
theorem Inv.cleanup (h : Inv s) : Inv s.cleanupExitedThreads := by
  have hflushed := h.flush
  have hemptied : Quiet s.flushPendingThreadExits { s.flushPendingThreadExits with
        manager := { s.flushPendingThreadExits.manager with zombies := [] } } :=
    ⟨rfl, rfl, rfl, fun _ => rfl, rfl, fun _ => id⟩
  have hdrained := foldl_drainZombie_quiet s.flushPendingThreadExits.manager.zombies
    ([], { s.flushPendingThreadExits with
      manager := { s.flushPendingThreadExits.manager with zombies := [] } })
  exact hflushed.quiet ((hemptied.trans hdrained).trans (.foldl wakeForDead_quiet _ _))

/-! ## A new address space -/

/-- Spaces may change where nothing is noted. -/
theorem Inv.replace (h : Inv s) (hmarks : s'.marks = s.marks) (heffects : s'.effects = s.effects)
    (hpending : s'.manager.pendingThreadExits = s.manager.pendingThreadExits)
    (hstate : ∀ t, s'.manager.state t = s.manager.state t) (hsame : ∀ process, ¬ Settled s process →
      (s'.process process).addrspace = (s.process process).addrspace)
    (hinstalled : ∀ process, (s'.process process).addrspace < s'.nextAddrspace) : Inv s' where
  split := by
    obtain ⟨done, waiting, hsplit, hdone, hwaiting, hold⟩ := h.split
    refine ⟨done, waiting, hmarks.trans hsplit, heffects.trans hdone, hpending.trans hwaiting,
      fun mark hmark => ?_⟩
    have hnoted : ¬ Settled s mark.process := by
      intro hsettled
      refine hsettled mark.entry ?_ rfl
      rw [hwaiting]
      exact mem_map_of_mem hmark
    rw [hsame mark.process hnoted]
    exact hold mark hmark
  nodup := by
    rw [hmarks]
    exact h.nodup
  zombie mark hmark := by
    rw [hmarks] at hmark
    rw [hstate]
    exact h.zombie mark hmark
  older mark hmark := by
    rw [hmarks] at hmark
    exact h.older mark hmark
  installed := hinstalled

/-- No state changes. -/
theorem state_setClearChildTid (t : ThreadID) (addr : ℕ) :
    (manager.setClearChildTid thread addr).state t = manager.state t := by
  simp only [setClearChildTid, ThreadManager.state, update_apply]
  split
  case isTrue ht => rw [ht]
  case isFalse => rfl

variable {next : AddrSpace}

/-- What becomes of the address spaces of the processes in `commit_execve`: the process has the new
one, and the parent may have the old one. -/
theorem commitExecve_addrspace {process : ProcessID} :
    ((s.commitExecve thread next).process process).addrspace = (s.process process).addrspace ∨
      process = (s.manager.thread thread).parent ∧
        ((s.commitExecve thread next).process process).addrspace = s.nextAddrspace ∨
      (s.process (s.manager.thread thread).parent).borrowedAddrspaceFromParent ∧
        process ∈ (s.process (s.manager.thread thread).parent).parent ∧
        ((s.commitExecve thread next).process process).addrspace =
          (s.process (s.manager.thread thread).parent).addrspace := by
  have hreplaced : ∀ process, (update s.process (s.manager.thread thread).parent
        { s.process (s.manager.thread thread).parent with
          addrspace := s.nextAddrspace, borrowedAddrspaceFromParent := false } process).addrspace =
        if process = (s.manager.thread thread).parent then s.nextAddrspace
        else (s.process process).addrspace := by
    grind
  by_cases hown : process = (s.manager.thread thread).parent
  all_goals
    simp only [commitExecve]
    split
    case isTrue hborrowed =>
      split
      case h_1 parent hparent =>
        grind
      case h_2 => simp [hown]
    case isFalse => simp [hown]

/-- `execve` keeps the invariant. -/
theorem Inv.commitExecve (h : Inv s)
    (hsafe : Safe (.commitExecve thread next) s) : Inv (s.commitExecve thread next) := by
  obtain ⟨hown, hparent⟩ := hsafe
  refine h.replace rfl rfl rfl (fun t => state_setClearChildTid t 0) ?_ ?_
  · grind [commitExecve_addrspace]
  intro process
  obtain hsame | ⟨-, hnew⟩ | ⟨-, -, hold⟩ := commitExecve_addrspace
  · rw [hsame]
    exact Nat.lt_succ_of_lt (h.installed process)
  · rw [hnew]
    exact Nat.lt_succ_self _
  · rw [hold]
    exact Nat.lt_succ_of_lt (h.installed _)

/-! ## Every step -/

/-- Every safe step keeps the invariant. -/
theorem exec_inv {op : Op} (hsafe : Safe op s) (hexec : exec op s = some s') (h : Inv s) :
    Inv s' := by
  cases op with
  | setTidAddress thread addr =>
    cases hexec
    refine h.quiet ⟨rfl, rfl, rfl, fun _ => rfl, rfl, fun t ht => ?_⟩
    grind [state_setClearChildTid]
  | spawn thread process clearChildTid =>
    simp only [exec] at hexec
    split at hexec
    case isFalse => cases hexec
    case isTrue hnew =>
      cases hexec
      have hsame := (pushReadyBalanced_spec { s.manager with
          thread := update s.manager.thread thread ⟨.ready, process, clearChildTid, true⟩
          threads := s.manager.threads ++ [thread] } thread).1
      refine h.quiet ⟨rfl, rfl, hsame.pendingThreadExits, fun other => ?_, rfl, fun t ht => ?_⟩
      · grind
      · grind [hsame.state, ThreadManager.state]
  | fork child parent copy =>
    simp only [exec] at hexec
    split at hexec
    case isFalse => cases hexec
    case isTrue hnone =>
      cases hexec
      have hsettled : Settled s child := fun pending hpending => by
        simpa using all_eq_true.mp hnone pending hpending
      refine h.replace rfl rfl rfl (fun _ => rfl) (fun process hnoted => ?_) (fun process => ?_)
      · grind
      simp only [update_apply]
      split
      case isTrue => exact Nat.lt_succ_self _
      case isFalse => exact Nat.lt_succ_of_lt (h.installed process)
  | schedule thread state =>
    simp only [exec] at hexec
    split at hexec
    case isTrue => cases hexec
    case isFalse =>
      cases hexec
      exact h.withManager (setState_marked hsafe)
  | block thread block =>
    cases hexec
    exact h.withManager_quiet rfl rfl (setState_marked hsafe).keeps
  | futexWait thread key bitset deadline =>
    cases hexec
    exact h.withManager_quiet rfl rfl (setState_marked hsafe).keeps
  | wake thread =>
    cases hexec
    have hwoke := s.manager.wake_woke thread
    exact h.withManager_quiet hwoke.zombies hwoke.pendingThreadExits fun _ => wake_keeps hwoke
  | markExited thread =>
    cases hexec
    by_cases hzombie : s.manager.state thread = .zombie
    · rw [markThreadExited, if_pos hzombie]
      exact h.withManager (.nothing s.manager)
    · exact h.withManager (markThreadExited_marked hzombie)
  | prepareExecve thread | cleanForExit process =>
    cases hexec
    exact h.quiet ⟨rfl, rfl, rfl, fun _ => rfl, rfl, fun _ => id⟩
  | requestSiblings thread | waitSiblings thread =>
    simp only [exec] at hexec
    split at hexec
    case h_2 => cases hexec
    case h_1 threads hstage =>
      cases hexec
      obtain ⟨marked, hmarked⟩ := exitList_marked threads (true, s.manager)
      exact (h.withManager hmarked).quiet ⟨rfl, rfl, rfl, fun _ => rfl, rfl, fun _ => id⟩
  | commitExecve thread next =>
    simp only [exec] at hexec
    grind [h.commitExecve]
  | cleanup =>
    cases hexec
    exact h.cleanup

/-! ## Whole runs -/

/-- Nothing has been marked yet. -/
structure Initial (s : System) : Prop where
  marks : s.marks = []
  effects : s.effects = []
  pending : s.manager.pendingThreadExits = []
  installed : ∀ process, (s.process process).addrspace < s.nextAddrspace

/-- What has been done is, in order, what was asked for by the first marks, in the address space of
the moment they were made; the others are still noted. No thread has more than one mark, and no
address space of a mark was installed after it. -/
structure ExitsStay (s : System) : Prop where
  done : ∃ done waiting, s.marks = done ++ waiting ∧ s.effects = done.map Mark.effect ∧
    s.manager.pendingThreadExits = waiting.map Mark.entry
  once : (s.marks.map Mark.thread).Nodup
  older : ∀ mark ∈ s.marks, mark.addrspace < mark.addrspacesSoFar

/-- The invariant holds at the start. -/
theorem Inv.of_initial (h : Initial s) : Inv s where
  split := ⟨[], [], h.marks, h.effects, h.pending, nofun⟩
  nodup := by simp [h.marks]
  zombie mark hmark := by
    rw [h.marks] at hmark
    cases hmark
  older mark hmark := by
    rw [h.marks] at hmark
    cases hmark
  installed := h.installed

/-- What has been done for the threads that exited is what was noted for them, in order and in the
address space of that moment, and the rest is still to be done: in every run in which `execve` is
committed only when nothing is noted for the process, and threads that have been marked keep their
state. -/
theorem exits_stay {ops : List Op} (hinitial : Initial s) (hsafe : Lib.SafeRun exec Safe ops s)
    (hrun : Lib.runOps exec ops s = some s') : ExitsStay s' := by
  have h := hsafe.invariant (fun _ _ _ => exec_inv) (.of_initial hinitial) hrun
  obtain ⟨done, waiting, hmarks, heffects, hpending, -⟩ := h.split
  exact ⟨⟨done, waiting, hmarks, heffects, hpending⟩, h.nodup, h.older⟩

/-- Process 1 has two threads. The first one runs, and the second one asks for the word at 4096 to
be cleared. -/
def twoThreads (second : State) : System where
  manager :=
    { thread := fun t => if t = 2 then ⟨second, 1, 4096, false⟩ else ⟨.running, 1, 0, false⟩
      threads := [1, 2]
      readyQueues := [[]]
      nextReadyCpu := 0
      zombies := []
      pendingThreadExits := []
      blockedQueues := ⟨fun _ => [], []⟩
      futexQueue := fun _ => none }
  process := fun _ => ⟨0, [1, 2], none, false⟩
  addrspace := fun _ => ⟨fun _ => true, fun _ => 0⟩
  nextAddrspace := 1
  stage := fun _ => .none
  marks := []
  effects := []

/-- Nothing is noted, whatever the second thread does. -/
theorem twoThreads_initial (second : State) : Initial (twoThreads second) :=
  ⟨rfl, rfl, rfl, fun _ => Nat.zero_lt_one⟩

/-- The second thread sleeps. -/
def sleepingSibling : System := twoThreads (.blocked (.wakeRequired .io none))

/-- A CPU executes the second thread. -/
def runningSibling : System := twoThreads .running

/-- The image that the first thread installs has other bytes there. -/
def image : AddrSpace := ⟨fun _ => true, fun _ => 7⟩

/-- `execve` up to where the siblings are stopped. -/
def stopSiblings : List Op := [.prepareExecve 1, .requestSiblings 1, .waitSiblings 1]

/-- The zombies are cleaned up before the new image is installed. -/
theorem exits_stay_cleaned : ∃ s', Lib.runOps exec
      (stopSiblings ++ [.cleanup, .commitExecve 1 image, .cleanup]) sleepingSibling = some s' ∧
      s'.effects = [⟨1, 4096, 0⟩] ∧ (s'.addrspace 1).bytes 4096 = 7 ∧ ExitsStay s' := by
  refine ⟨_, rfl, rfl, rfl, ?_⟩
  refine exits_stay (twoThreads_initial _) ?_ (rfl : Lib.runOps exec
      (stopSiblings ++ [.cleanup, .commitExecve 1 image, .cleanup]) sleepingSibling = some _)
  decide

/-- The new image is installed first: the zero is written there, though the thread was marked in the
old one. And a thread that is marked while a CPU executes it, and blocks, is marked a second
time. -/
theorem exit_reaches_new_image : (Initial sleepingSibling ∧
    ∃ s', Lib.runOps exec (stopSiblings ++ [.commitExecve 1 image, .cleanup]) sleepingSibling =
        some s' ∧ s'.marks.map Mark.effect = [⟨1, 4096, 0⟩] ∧ s'.effects = [⟨1, 4096, 1⟩] ∧
        image.bytes 4096 = 7 ∧ (s'.addrspace 1).bytes 4096 = 0) ∧
      Initial runningSibling ∧ ∃ s', Lib.runOps exec
          [.markExited 2, .setTidAddress 2 4096, .block 2 (.wakeRequired .io none), .markExited 2,
            .cleanup] runningSibling = some s' ∧
        s'.marks.map Mark.thread = [2, 2] ∧ s'.effects = [⟨1, 4096, 0⟩, ⟨1, 4096, 0⟩] :=
  ⟨⟨twoThreads_initial _, ⟨_, rfl, rfl, rfl, rfl, rfl⟩⟩, twoThreads_initial _, ⟨_, rfl, rfl, rfl⟩⟩

end ExitEffects

end Seele.Scheduling
