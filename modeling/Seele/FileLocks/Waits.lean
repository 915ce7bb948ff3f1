import Mathlib.Data.List.AList
import Seele.Lib.Graph
import Seele.FileLocks.Exclusion

/-!
# Waiting for a lock

A blocking lock call of `object/file_locks.rs` goes through its critical sections one by one: it
tries the request against the lock table, it checks the chain of recorded waits, it records its own
wait, and it sleeps; woken, it tries again. Another owner may run between any two of them.
`LockSystem` is the state of all the owners: the lock table, the recorded waits, and for each owner
how far its call has come. `LockSystem.exec` runs one critical section of one owner.
-/

namespace Seele.FileLocks

open Seele.Lib

/-- `AdvisoryLockWait`. -/
structure AdvisoryLockWait where
  key : String
  lock : AdvisoryLock
  deriving DecidableEq

/-- `ADVISORY_LOCK_WAITS`. -/
abbrev LockWaits := AList fun _ : AdvisoryLockOwner => AdvisoryLockWait

/-- The owners that the body of `lock_wait_chain_reaches` pushes for one owner: the holders of the
entries that conflict with its recorded wait. -/
def waitTargets (table : LockTable) (waits : LockWaits) (owner : AdvisoryLockOwner) :
    List AdvisoryLockOwner :=
  match waits.lookup owner with
  | none => []
  | some wait => ((table wait.key).filter fun entry =>
      (findConflict [entry] wait.lock.owner (some wait.lock) wait.lock.api).isSome).map
        AdvisoryLock.owner

/-- `lock_wait_chain_reaches`. Every owner is expanded at most once, so that the pushes of the
owners that wait are enough fuel. -/
def lockWaitChainReaches (table : LockTable) (waits : LockWaits)
    (start target : AdvisoryLockOwner) : Bool :=
  dfsReaches (waitTargets table waits) target (pushes (waitTargets table waits) [] waits.keys + 2)
    [start] []

/-- How far the call of an owner has come. -/
inductive Pc where
  /-- No call runs; the last one returned `result`. -/
  | idle (result : Except SyscallError Unit)
  /-- At the head of the loop. -/
  | attempt (r : LockRequest) (blocking : Bool)
  /-- The request is granted, `clear_lock_wait` comes next. -/
  | granted
  /-- A blocking request met a conflict, `lock_wait_chain_reaches` comes next. -/
  | check (r : LockRequest) (lock conflict : AdvisoryLock)
  /-- The chain does not reach the owner, `set_lock_wait` comes next. -/
  | record (r : LockRequest) (lock : AdvisoryLock)
  /-- Asleep in `block_current_with_sig_check`. -/
  | blocked (r : LockRequest)
  /-- Woken by a signal, `clear_lock_wait` comes next. -/
  | interrupted
  /-- In `release_process_lock` or `release_ofd_lock`, after `clear_lock_wait`. -/
  | releasing (key : String)

/-- The lock table, the recorded waits, and the call of each owner. -/
structure LockSystem where
  table : LockTable
  waits : LockWaits
  pc : AdvisoryLockOwner → Pc

/-- No lock is held and no call runs. -/
def LockSystem.init : LockSystem := ⟨LockTable.empty, ∅, fun _ => .idle (.ok ())⟩

variable (s : LockSystem) (owner : AdvisoryLockOwner)

/-- The call of one owner goes on. -/
def LockSystem.setPc (pc : Pc) : LockSystem :=
  { s with pc := Function.update s.pc owner pc }

/-- `set_lock_wait`. -/
def LockSystem.setLockWait (key : String) (lock : AdvisoryLock) : LockSystem :=
  { s with waits := s.waits.insert owner ⟨key, lock⟩ }

/-- `clear_lock_wait`. -/
def LockSystem.clearLockWait : LockSystem :=
  { s with waits := s.waits.erase owner }

/-- One critical section of the call of `owner`. -/
def LockSystem.advance : Option LockSystem :=
  match s.pc owner with
  | .attempt r blocking =>
    match r.attempt s.table with
    | .inr table => some ({ s with table := table }.setPc owner .granted)
    | .inl conflict =>
      if blocking then
        match r.lock with
        | some lock => some (s.setPc owner (.check r lock conflict))
        | none => some (s.setPc owner (.blocked r))
      else some (s.setPc owner (.idle (.error .tryAgain)))
  | .granted => some ((s.clearLockWait owner).setPc owner (.idle (.ok ())))
  | .check r lock conflict =>
    if lockWaitChainReaches s.table s.waits conflict.owner owner then
      some (s.setPc owner (.idle (.error .resourceDeadlock)))
    else some (s.setPc owner (.record r lock))
  | .record r lock => some ((s.setLockWait owner r.key lock).setPc owner (.blocked r))
  | .interrupted => some ((s.clearLockWait owner).setPc owner (.idle (.error .interrupted)))
  | .releasing key =>
    some ({ s with table := releaseOwner s.table key owner }.setPc owner (.idle (.ok ())))
  | .idle _ => none
  | .blocked _ => none

/-- What can happen next. -/
inductive Action where
  /-- A call starts; `blocking` is `F_SETLKW` for `fcntl`, and no `LOCK_NB` for `flock`. -/
  | call (op : Op) (blocking : Bool)
  /-- A close starts: `clear_lock_wait`, with the release of the locks under `key` to come. -/
  | close (owner : AdvisoryLockOwner) (key : String)
  /-- The call of an owner runs its next critical section. -/
  | step (owner : AdvisoryLockOwner)
  /-- A sleeping call is woken. -/
  | wake (owner : AdvisoryLockOwner)
  /-- A sleeping call is interrupted by a signal. -/
  | interrupt (owner : AdvisoryLockOwner)

/-- One action; an owner starts a call only when it runs none. -/
def LockSystem.exec : Action → Option LockSystem
  | .call op blocking =>
    match op.request with
    | some r => match s.pc r.owner with
      | .idle _ => some (s.setPc r.owner (.attempt r blocking))
      | _ => none
    | none => none
  | .close owner key =>
    match s.pc owner with
    | .idle _ => some ((s.clearLockWait owner).setPc owner (.releasing key))
    | _ => none
  | .step owner => s.advance owner
  | .wake owner =>
    match s.pc owner with
    | .blocked r => some (s.setPc owner (.attempt r true))
    | _ => none
  | .interrupt owner =>
    match s.pc owner with
    | .blocked _ => some (s.setPc owner .interrupted)
    | _ => none

/-- A sequence of actions. -/
def LockSystem.run (actions : List Action) : Option LockSystem :=
  actions.foldlM LockSystem.exec s

/-- The waits-for relation: `a` has a recorded wait, and `b` holds a lock that conflicts with it. -/
def LockSystem.WaitsFor : AdvisoryLockOwner → AdvisoryLockOwner → Prop :=
  Edge (waitTargets s.table s.waits)

/-- Only an owner with a recorded wait has targets. -/
theorem mem_keys_of_waitTargets {table : LockTable} {waits : LockWaits} {owner : AdvisoryLockOwner}
    (h : waitTargets table waits owner ≠ []) : owner ∈ waits.keys := by
  by_contra hmem
  have hnone : waits.lookup owner = none := AList.lookup_eq_none.mpr hmem
  apply h
  unfold waitTargets
  rw [hnone]

/-- The search finds what can be reached. -/
theorem lockWaitChainReaches_iff (start target : AdvisoryLockOwner) :
    lockWaitChainReaches s.table s.waits start target = true ↔
      Relation.ReflTransGen s.WaitsFor start target :=
  dfsReaches_iff (fun _ => mem_keys_of_waitTargets) start

end Seele.FileLocks
