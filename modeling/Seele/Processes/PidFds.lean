import Seele.Lib.GuardedRun
import Mathlib.Data.Nat.Notation
import Mathlib.Logic.Function.Basic

/-!
# Pidfds

A pidfd holds a reference to its process and the number that the process had. Polling uses the
reference, signals and `waitid` use the number. A signal may also be sent through a descriptor of
`/proc/<pid>`, which has nothing but the number in its path. `run_same_process` says that all agree
in every run in which no process gets the number of a descriptor, as its id or as its id in its own
namespace. `Sound` carries this.
-/

namespace Seele.PidFds

open Lib Function

/-- A `Process`. An object is the number of the `Arc` that holds it. -/
structure Process where
  pid : ℕ
  parent : ℕ
  namespaceInode : ℕ
  parentInode : Option ℕ
  localPid : Option ℕ

/-- `pid_visible_from_namespace_inode`. -/
def Process.pidVisibleFrom (p : Process) (viewer : ℕ) : Option ℕ :=
  if p.namespaceInode = viewer then some (p.localPid.getD p.pid)
  else if some viewer = p.parentInode then some p.pid
  else none

/-- `PidFdObject`. -/
structure PidFdObject where
  pid : ℕ
  process : Option ℕ
  alive : Bool

/-- A descriptor of a path in `/proc`: a number, or `self`, which is `none`. `process` is the one
that it was opened for; the object itself has the path only. -/
structure ProcFd where
  name : Option ℕ
  process : Option ℕ

/-- The processes by object, whether they have exited and how many there were, the table by id, the
counter of ids and `proc_pid_max()`, the pidfds, and the descriptors of paths in `/proc`. -/
structure System where
  objects : ℕ → Process
  exited : ℕ → Bool
  created : ℕ
  processes : ℕ → Option ℕ
  lastId : ℕ
  pidMax : ℕ
  pidfds : List PidFdObject
  procFds : List ProcFd

open Seele.PidFds.System

namespace System

variable (s : System)

/-- `next_linux_task_id`. -/
def nextLinuxTaskId : ℕ := if s.lastId ≥ s.pidMax then 1 else s.lastId + 1

/-- The loop of `allocate_process_id`, with the counter that it leaves. -/
def allocateFrom : ℕ → System → ℕ × System
  | 0, s => (1, s)
  | tries + 1, s =>
    let t := { s with lastId := s.nextLinuxTaskId }
    if (s.processes t.lastId).isSome then allocateFrom tries t else (t.lastId, t)

/-- `allocate_process_id`. -/
def allocateProcessId : ℕ × System := allocateFrom s.pidMax s

/-- `PidFdObject::new`. -/
def newPidFd (pid : ℕ) : PidFdObject :=
  ⟨pid, s.processes pid, (s.processes pid).any fun object => !s.exited object⟩

/-- `check_wait_outcome` takes the process for one that `waitid` on the pidfd waits for. -/
def Matches (fd : PidFdObject) (caller viewer object : ℕ) : Prop :=
  (∃ pid, s.processes pid = some object) ∧
    (s.objects object).pidVisibleFrom viewer = some fd.pid ∧ (s.objects object).parent = caller

end System

/-- What happens to processes and pidfds. -/
inductive Step where
  | taskIds (count : ℕ)
  | fork (parent namespaceInode : ℕ) (parentInode localPid : Option ℕ)
  | exit (object : ℕ)
  | reap (object : ℕ)
  | openPidFd (pid : ℕ)
  | openProc (current : ℕ) (name : Option ℕ)

/-- One step. -/
def System.exec (step : Step) (s : System) : Option System :=
  match step with
  -- threads take ids, too
  | .taskIds count => some ((List.range count).foldl
      (fun s _ => { s with lastId := s.nextLinuxTaskId }) s)
  | .fork parent namespaceInode parentInode localPid =>
    let (pid, t) := s.allocateProcessId
    some { t with
      objects := update s.objects s.created
        ⟨pid, parent, namespaceInode, parentInode, localPid⟩
      exited := update s.exited s.created false
      created := s.created + 1
      processes := update s.processes pid (some s.created) }
  -- the pidfds of the number are marked: `wake_pidfd_for_process_with_manager`
  | .exit object =>
    if s.created ≤ object ∨ s.exited object then none
    else some { s with
      exited := update s.exited object true
      pidfds := s.pidfds.map fun fd =>
        { fd with alive := fd.alive && fd.pid ≠ (s.objects object).pid } }
  | .reap object =>
    if s.exited object ∧ s.processes (s.objects object).pid = some object then
      some { s with processes := update s.processes (s.objects object).pid none }
    else none
  | .openPidFd pid => some { s with pidfds := s.newPidFd pid :: s.pidfds }
  -- the directory of a number can be opened whether or not there is a process
  | .openProc current name => some { s with
      procFds := ⟨name, name.elim (some current) s.processes⟩ :: s.procFds }

/-- A new process gets an id that no process and no descriptor has. No process has the number of a
pidfd of another one as its id in its own namespace. -/
def Safe (step : Step) (s : System) : Prop :=
  match step with
  | .fork _ _ _ localPid => s.processes s.allocateProcessId.1 = none ∧
      (∀ fd ∈ s.pidfds, fd.pid ≠ s.allocateProcessId.1 ∧ localPid ≠ some fd.pid) ∧
      ∀ fd ∈ s.procFds, fd.name ≠ some s.allocateProcessId.1
  | .openPidFd pid => ∀ object < s.created, (s.objects object).localPid = some pid →
      s.processes (s.objects object).pid = some object → (s.objects object).pid = pid
  | _ => True

instance (step : Step) (s : System) : Decidable (Safe step s) := by
  unfold Safe
  cases step <;> infer_instance

/-- What holds in a run of safe steps. -/
structure System.Sound (s : System) : Prop where
  /-- The table leads from the id of a process to it. -/
  named : ∀ pid object, s.processes pid = some object →
    object < s.created ∧ (s.objects object).pid = pid
  /-- A process that has not exited is in the table. -/
  listed : ∀ object < s.created, s.exited object = false →
    s.processes (s.objects object).pid = some object
  /-- The table leads from the id of a pidfd to its process, if anywhere. -/
  same : ∀ fd ∈ s.pidfds, ∀ object, s.processes fd.pid = some object → fd.process = some object
  /-- No other process has the id of a pidfd in its own namespace. -/
  localPids : ∀ fd ∈ s.pidfds, ∀ pid object, s.processes pid = some object →
    (s.objects object).localPid = some fd.pid → pid = fd.pid
  sameProc : ∀ fd ∈ s.procFds, ∀ pid, fd.name = some pid → ∀ object,
    s.processes pid = some object → fd.process = some object
  known : ∀ fd ∈ s.pidfds, ∀ object ∈ fd.process, object < s.created
  /-- A pidfd is marked after its process has exited. -/
  marked : ∀ fd ∈ s.pidfds, fd.alive = false → ∀ object ∈ fd.process, s.exited object = true

variable {s s' : System}

/-- The allocation only moves the counter. -/
theorem System.allocateFrom_eq (tries : ℕ) (s : System) :
    ∃ last, (allocateFrom tries s).2 = { s with lastId := last } := by
  induction tries generalizing s with
  | zero => exact ⟨s.lastId, rfl⟩
  | succ tries ih =>
  unfold allocateFrom
  dsimp only
  split
  · exact ih _
  · exact ⟨_, rfl⟩

/-- Every safe step keeps the invariant. -/
theorem System.Sound.step {step : Step} (hsafe : Safe step s) (hstep : s.exec step = some s')
    (h : s.Sound) : s'.Sound := by
  obtain ⟨hnamed, hlisted, hsame, hlocal, hproc, hknown, hmarked⟩ := h
  cases step with
  | taskIds count =>
    cases hstep
    clear hsafe
    generalize List.range count = l
    induction l generalizing s with
    | nil => exact ⟨hnamed, hlisted, hsame, hlocal, hproc, hknown, hmarked⟩
    | cons a l ih => exact ih hnamed hlisted hsame hlocal hproc hknown hmarked
  | fork parent namespaceInode parentInode localPid =>
    obtain ⟨hfree, hfds, hprocs⟩ := hsafe
    obtain ⟨last, hlast⟩ := allocateFrom_eq s.pidMax s
    unfold exec at hstep
    rw [allocateProcessId] at hstep hfree hfds hprocs
    dsimp only at hstep
    rw [hlast] at hstep
    generalize (allocateFrom s.pidMax s).1 = pid at hstep hfree hfds hprocs
    cases hstep
    -- a process in the table has another id than the new one, and so has the process of a pidfd
    constructor <;> simp only [update_apply] <;> grind
  | exit object =>
    simp only [exec] at hstep
    split_ifs at hstep with hgone
    cases hstep
    -- the process is in the table, so a pidfd with its id, which is marked now, is one of it
    refine ⟨hnamed, ?_, ?_, ?_, hproc, ?_, ?_⟩ <;> simp only [update_apply] <;> grind
  | reap object =>
    simp only [exec] at hstep
    split_ifs at hstep with hreap
    cases hstep
    -- whoever has not exited has another id than the process that is reaped
    refine ⟨?_, ?_, ?_, ?_, ?_, hknown, hmarked⟩ <;> simp only [update_apply] <;> grind
  | openPidFd pid =>
    cases hstep
    refine ⟨hnamed, hlisted, ?_, ?_, hproc, ?_, ?_⟩ <;> simp only [List.forall_mem_cons]
    · exact ⟨fun object hobject => hobject, hsame⟩
    · refine ⟨fun other object hobject hnumber => ?_, hlocal⟩
      obtain ⟨hlt, rfl⟩ := hnamed other object hobject
      exact hsafe object hlt hnumber hobject
    · exact ⟨fun object hobject => (hnamed pid object hobject).1, hknown⟩
    · refine ⟨fun hdead object hobject => ?_, hmarked⟩
      simpa [newPidFd, show s.processes pid = some object from hobject] using hdead
  | openProc current name =>
    cases hstep
    refine ⟨hnamed, hlisted, hsame, hlocal, ?_, hknown, hmarked⟩
    simp only [List.forall_mem_cons]
    exact ⟨by rintro pid rfl object hobject; exact hobject, hproc⟩

/-- Process 1 after it was booted. -/
def boot (pidMax : ℕ) : System :=
  ⟨fun _ => ⟨1, 0, 0, none, none⟩, fun _ => false, 1, update (fun _ => none) 1 (some 0), 1,
    pidMax, [], []⟩

section Sound

variable (h : s.Sound)

include h

/-- A process that waits on a pidfd matches the process of the pidfd only. -/
theorem System.Sound.matches {fd : PidFdObject} (hfd : fd ∈ s.pidfds) {caller viewer object : ℕ}
    (hmatches : s.Matches fd caller viewer object) : fd.process = some object := by
  obtain ⟨⟨pid, hpid⟩, hvisible, -⟩ := hmatches
  obtain ⟨-, hown⟩ := h.named pid object hpid
  -- whoever looks sees it under its id, or under a local one that no pidfd has
  have hid : pid = fd.pid := by
    unfold Process.pidVisibleFrom at hvisible
    rw [hown] at hvisible
    split_ifs at hvisible
    · cases hlocal : (s.objects object).localPid with
      | none => simpa [hlocal] using hvisible
      | some n => exact h.localPids fd hfd pid object hpid (by simpa [hlocal] using hvisible)
    · exact Option.some.inj hvisible
  exact h.same fd hfd object (hid ▸ hpid)

end Sound

end Seele.PidFds
