import Mathlib.Logic.Function.Basic
import Seele.Ipc.Object
import Seele.Lib.GuardedRun

/-!
# System V semaphores

`ipc/sysv_sem.rs`. `semtimedop` looks in rounds whether its list of operations can be performed, and
blocks between them until a `wake_io`. `SemSystem` has the sets and the place of every caller in
that loop; a run is any list of rounds, calls of `semget` or `semctl`, and ends of waits.

`semctl` wakes the blocked callers whenever it changes values or removes a set, `semtimedop` never
does. So a list that becomes executable by another caller's operations stays asleep
(`semop_leaves_waiter_asleep`). `run_wakes` says when no wakeup is lost: no round performs a list
that raises a semaphore which a blocked list lowers, or lowers one which a blocked list waits to see
at zero.
-/

namespace Seele.Ipc.SysvSem

/-! ## Sets -/

/-- `SEMVMX`, the highest value of a semaphore. -/
def SEMVMX : ℕ := 32767

/-- `SEMMNI`, the most sets. -/
def SEMMNI : ℕ := 32000

/-- `SEMMSL`, the most semaphores of a set. -/
def SEMMSL : ℕ := 32000

/-- `SEMOPM`, the most operations of a list. -/
def SEMOPM : ℕ := 500

/-- `IPC_NOWAIT`. -/
def IPC_NOWAIT : UInt16 := 0o4000

/-- `LinuxSembuf`. -/
structure LinuxSembuf where
  semNum : ℕ
  semOp : Int
  semFlg : UInt16
  deriving DecidableEq, Repr

/-- `SysvSemSet`. -/
structure SysvSemSet where
  perm : LinuxIpcPerm
  values : List ℕ
  lastPid : Int
  otime : Int
  ctime : Int
  deriving DecidableEq, Repr

/-- `SysvSemState`. -/
structure SysvSemState where
  nextSemid : Int
  sets : Std.TreeMap Int SysvSemSet

open SysvSemState Option

/-- `SysvSemState::default`. -/
def SysvSemState.default : SysvSemState := ⟨0, ∅⟩

/-- `has_access`. -/
def hasAccess (set : SysvSemSet) (credentials : SysvCredentials) (write : Bool) : Bool :=
  set.perm.hasAccess credentials write

/-- The set of an identifier, for the caller. -/
def SysvSemState.find (state : SysvSemState) (credentials : SysvCredentials) (semid : Int) :
    Option SysvSemSet :=
  findObject SysvSemSet.perm state.sets credentials semid

/-- The state with a set changed in place. -/
def SysvSemState.put (state : SysvSemState) (semid : Int) (set : SysvSemSet) : SysvSemState :=
  { state with sets := state.sets.insert semid set }

/-- `ops_ready`: every operation is compared with the values before the first one. -/
def opsReady (set : SysvSemSet) : List LinuxSembuf → Except SyscallError Bool
  | [] => .ok true
  | op :: ops =>
    match set.values[op.semNum]? with
    | none => .error .fileTooLarge
    | some value =>
      if op.semOp < 0 then
        if value < op.semOp.natAbs then .ok false else opsReady set ops
      else if op.semOp = 0 ∧ value ≠ 0 then .ok false
      else opsReady set ops

/-- `apply_ops`. The operations before one that fails stay applied. -/
def applyOps (set : SysvSemSet) (ops : List LinuxSembuf) (pid now : Int) :
    Except SyscallError Unit × SysvSemSet :=
  match ops with
  | [] => (.ok (), { set with lastPid := pid, otime := now })
  | op :: ops =>
    match set.values[op.semNum]? with
    | none => (.error .fileTooLarge, set)
    | some value =>
      if op.semOp < 0 then
        if op.semOp.natAbs ≤ value then
          applyOps { set with values := set.values.set op.semNum (value - op.semOp.natAbs) }
            ops pid now
        else (.error .tryAgain, set)
      else if value + op.semOp.toNat ≤ SEMVMX then
        applyOps { set with values := set.values.set op.semNum (value + op.semOp.toNat) }
          ops pid now
      else (.error .rangeError, set)

/-! ## `semget` and `semctl` -/

/-- `semget`. -/
def semget (credentials : SysvCredentials) (key nsems : Int) (semflg : UInt32) (now : Int)
    (state : SysvSemState) : Outcome SysvSemState ℕ :=
  let create := semflg &&& IPC_CREAT != 0
  let exclusive := semflg &&& IPC_EXCL != 0
  if nsems < 0 ∨ (SEMMSL : Int) < nsems then .fail .invalidArguments state
  else
    match if key ≠ IPC_PRIVATE then findKey SysvSemSet.perm state.sets credentials key
      else none with
    | some (semid, set) =>
      if create && exclusive then .fail .fileAlreadyExists state
      else if nsems ≠ 0 ∧ set.values.length < nsems.toNat then .fail .invalidArguments state
      else if !hasAccess set credentials false then .fail .permissionDenied state
      else ⟨.returned (.ok semid.toNat), false, state⟩
    | none =>
      if !create ∧ key ≠ IPC_PRIVATE then .fail .fileNotFound state
      else if nsems = 0 then .fail .invalidArguments state
      else if SEMMNI ≤ state.sets.size then .fail .noSpaceLeft state
      else if state.nextSemid = 0x7fffffff then ⟨.panicked, false, state⟩
      else
        let semid := state.nextSemid + 1
        let set : SysvSemSet :=
          { perm := .new credentials key semflg
            values := List.replicate nsems.toNat 0
            lastPid := credentials.pid
            otime := 0
            ctime := now }
        ⟨.returned (.ok semid.toNat), false, { state.put semid set with nextSemid := semid }⟩

/-- The commands of `semctl`. -/
inductive SemctlCmd where
  | IPC_RMID
  | IPC_SET
  | IPC_STAT
  | SEM_STAT
  | IPC_INFO
  | SEM_INFO
  | GETPID
  | GETVAL
  | GETALL
  | GETNCNT
  | GETZCNT
  | SETVAL
  | SETALL
  | other
  deriving DecidableEq, Repr

/-- The last argument of `semctl`: a number, which may be the address of a record, of an array of
values, or of space that the call writes. -/
structure SemctlArg where
  value : ℕ
  ds : Option LinuxIpcPerm
  array : List ℕ
  writable : ℕ
  deriving DecidableEq, Repr

/-- The values that `SETALL` reads, or the first error it meets. -/
def SemctlArg.readValues (arg : SemctlArg) (len : ℕ) : Except SyscallError (List ℕ) :=
  if (arg.array.take len).any (SEMVMX < ·) then .error .rangeError
  else if arg.array.length < len then .error .badAddress
  else .ok (arg.array.take len)

/-- `semctl`. What `IPC_STAT`, `IPC_INFO` and `GETALL` store is left out. -/
def semctl (credentials : SysvCredentials) (semid semnum : Int) (cmd : SemctlCmd)
    (arg : SemctlArg) (now : Int) (state : SysvSemState) : Outcome SysvSemState Int :=
  if cmd = .IPC_INFO ∨ cmd = .SEM_INFO then
    if arg.value = 0 ∨ arg.writable = 0 then .fail .badAddress state
    else ⟨.returned (.ok (SEMMNI - 1)), false, state⟩
  else match state.find credentials semid with
    | none => .fail .invalidArguments state
    | some set =>
      match cmd with
      | .IPC_RMID =>
        if !set.perm.mayChange credentials then .fail .permissionDenied state
        else ⟨.returned (.ok 0), true, { state with sets := state.sets.erase semid }⟩
      | .IPC_STAT | .SEM_STAT =>
        if !hasAccess set credentials false then .fail .permissionDenied state
        else if arg.value = 0 ∨ arg.writable = 0 then .fail .badAddress state
        else ⟨.returned (.ok (if cmd = .SEM_STAT then semid else 0)), false, state⟩
      | .IPC_SET =>
        if arg.value = 0 then .fail .badAddress state
        else if !set.perm.mayChange credentials then .fail .permissionDenied state
        else match arg.ds with
          | none => .fail .badAddress state
          | some ds =>
            let perm := { set.perm with
              ownerUid := ds.ownerUid
              ownerGid := ds.ownerGid
              mode := ds.mode &&& IPC_MODE_MASK }
            ⟨.returned (.ok 0), false, state.put semid { set with perm := perm, ctime := now }⟩
      | .GETPID | .GETVAL | .GETNCNT | .GETZCNT =>
        if semnum < 0 then .fail .invalidArguments state
        else match set.values[semnum.toNat]? with
          | none => .fail .invalidArguments state
          | some value =>
            if !hasAccess set credentials false then .fail .permissionDenied state
            else
              let result : Int := match cmd with
                | .GETPID => set.lastPid
                | .GETVAL => value
                | _ => 0
              ⟨.returned (.ok result), false, state⟩
      | .GETALL =>
        if !hasAccess set credentials false then .fail .permissionDenied state
        else if arg.value = 0 ∨ arg.writable < set.values.length then .fail .badAddress state
        else ⟨.returned (.ok 0), false, state⟩
      | .SETVAL =>
        if semnum < 0 then .fail .invalidArguments state
        else if !hasAccess set credentials true then .fail .permissionDenied state
        else if SEMVMX < arg.value then .fail .rangeError state
        else if set.values.length ≤ semnum.toNat then .fail .invalidArguments state
        else
          ⟨.returned (.ok 0), true, state.put semid
            { set with values := set.values.set semnum.toNat arg.value, ctime := now }⟩
      | .SETALL =>
        if !hasAccess set credentials true then .fail .permissionDenied state
        else if arg.value = 0 then .fail .badAddress state
        else match arg.readValues set.values.length with
          | .error e => .fail e state
          | .ok values =>
            ⟨.returned (.ok 0), true, state.put semid { set with values := values, ctime := now }⟩
      | _ => .fail .invalidArguments state

/-! ## `semtimedop` -/

/-- The array of operations in user memory: the ones that can be read. -/
structure SembufArray where
  isNull : Bool
  readable : List LinuxSembuf
  deriving DecidableEq, Repr

/-- `read_ops`. -/
def readOps (ops : SembufArray) (nsops : ℕ) : Except SyscallError (List LinuxSembuf) :=
  if nsops = 0 ∨ SEMOPM < nsops then .error .invalidArguments
  else if ops.isNull then .error .badAddress
  else if ops.readable.length < nsops then .error .badAddress
  else .ok (ops.readable.take nsops)

/-- The timeout argument. -/
inductive Timespec where
  | null
  | fault
  | value (tvSec tvNsec : Int)
  deriving DecidableEq, Repr

/-- The highest time, `u64::MAX` nanoseconds. -/
def maxTime : ℕ := 0xffffffffffffffff

/-- `timeout_deadline`, at the given time since boot. -/
def timeoutDeadline (timeout : Timespec) (clock : ℕ) : Except SyscallError (Option ℕ) :=
  match timeout with
  | .null => .ok none
  | .fault => .error .badAddress
  | .value tvSec tvNsec =>
    if tvSec < 0 ∨ tvNsec < 0 ∨ 1000000000 ≤ tvNsec then .error .invalidArguments
    else
      let ns := min (min (tvSec.toNat * 1000000000) maxTime + tvNsec.toNat) maxTime
      .ok (some (min (clock + ns) maxTime))

/-- What a call of `semtimedop` keeps between its rounds. -/
structure Waiter where
  credentials : SysvCredentials
  semid : Int
  ops : List LinuxSembuf
  deadline : Option ℕ
  deriving DecidableEq, Repr

/-- The part of `semtimedop` before its loop. -/
def Waiter.begin (credentials : SysvCredentials) (semid : Int) (ops : SembufArray) (nsops : ℕ)
    (timeout : Timespec) (clock : ℕ) : Except SyscallError Waiter :=
  match readOps ops nsops with
  | .error e => .error e
  | .ok ops =>
    match timeoutDeadline timeout clock with
    | .error e => .error e
    | .ok deadline => .ok ⟨credentials, semid, ops, deadline⟩

/-- One round of the loop of `semtimedop`. -/
def Waiter.round (w : Waiter) (clock : ℕ) (now : Int) (state : SysvSemState) :
    Outcome SysvSemState ℕ :=
  match state.find w.credentials w.semid with
  | none => .fail .identifierRemoved state
  | some set =>
    if !hasAccess set w.credentials true then .fail .permissionDenied state
    else match opsReady set w.ops with
      | .error e => .fail e state
      | .ok true =>
        match applyOps set w.ops w.credentials.pid now with
        | (.ok (), set') => ⟨.returned (.ok 0), false, state.put w.semid set'⟩
        | (.error e, set') => .fail e (state.put w.semid set')
      | .ok false =>
        if w.ops.any fun op => op.semFlg &&& IPC_NOWAIT != 0 then .fail .tryAgain state
        else if w.deadline.any (· ≤ clock) then .fail .tryAgain state
        else ⟨.blocked, false, state⟩

/-! ## Runs -/

/-- Where a caller of `semtimedop` is: in no call, blocked between two rounds, or awake again and
before its next round. -/
inductive Phase where
  | idle
  | blocked (w : Waiter)
  | awake (w : Waiter)
  deriving DecidableEq

/-- The sets and the callers. -/
structure SemSystem where
  state : SysvSemState
  callers : ℕ → Phase

/-- No sets, and nobody in a call. -/
def SemSystem.start : SemSystem := ⟨default, fun _ => .idle⟩

/-- `wake_io`: every blocked caller tries again. -/
def wakeIo (callers : ℕ → Phase) : ℕ → Phase := fun caller =>
  match callers caller with
  | .blocked w => .awake w
  | phase => phase

/-- A step. `wake` is a `wake_io` from elsewhere or the end of the timeout, `interrupt` a signal. -/
inductive SemOp where
  | semget (credentials : SysvCredentials) (key nsems : Int) (semflg : UInt32) (now : Int)
  | semctl (credentials : SysvCredentials) (semid semnum : Int) (cmd : SemctlCmd) (arg : SemctlArg)
      (now : Int)
  | semtimedop (caller : ℕ) (credentials : SysvCredentials) (semid : Int) (ops : SembufArray)
      (nsops : ℕ) (timeout : Timespec) (clock : ℕ) (now : Int)
  | retry (caller clock : ℕ) (now : Int)
  | wake (caller : ℕ)
  | interrupt (caller : ℕ)

/-- What a step leaves, and whether it wakes the blocked callers. -/
structure Effect where
  wakesIo : Bool
  system : SemSystem

/-- A round, with the place it leaves its caller in. -/
def SemSystem.runRound (s : SemSystem) (caller : ℕ) (w : Waiter) (clock : ℕ) (now : Int) : Effect :=
  let out := w.round clock now s.state
  let phase : Phase := match out.reply with
    | .blocked => .blocked w
    | _ => .idle
  ⟨out.wakesIo, ⟨out.state, Function.update s.callers caller phase⟩⟩

/-- A call that never blocks. -/
def SemSystem.runCall {α : Type} (s : SemSystem) (out : Outcome SysvSemState α) : Option Effect :=
  out.next.map fun state =>
    ⟨out.wakesIo, ⟨state, if out.wakesIo then wakeIo s.callers else s.callers⟩⟩

/-- One step. A caller begins a call only if it is in none. -/
def act (op : SemOp) (s : SemSystem) : Option Effect :=
  match op with
  | .semget credentials key nsems semflg now =>
    s.runCall (semget credentials key nsems semflg now s.state)
  | .semctl credentials semid semnum cmd arg now =>
    s.runCall (semctl credentials semid semnum cmd arg now s.state)
  | .semtimedop caller credentials semid ops nsops timeout clock now =>
    match s.callers caller, Waiter.begin credentials semid ops nsops timeout clock with
    | .idle, .ok w => some (s.runRound caller w clock now)
    | _, _ => some ⟨false, s⟩
  | .retry caller clock now =>
    match s.callers caller with
    | .awake w => some (s.runRound caller w clock now)
    | _ => some ⟨false, s⟩
  | .wake caller =>
    match s.callers caller with
    | .blocked w => some ⟨false, { s with callers := Function.update s.callers caller (.awake w) }⟩
    | _ => some ⟨false, s⟩
  | .interrupt caller =>
    match s.callers caller with
    | .blocked _ => some ⟨false, { s with callers := Function.update s.callers caller .idle }⟩
    | _ => some ⟨false, s⟩

/-- The system after a step. -/
def exec (op : SemOp) (s : SemSystem) : Option SemSystem := (act op s).map Effect.system

/-! ## Which lists can become executable -/

/-- A list raises a semaphore that another one lowers, or lowers one that the other waits to see at
zero. -/
def Conflicts (ops ops' : List LinuxSembuf) : Prop :=
  ∃ op ∈ ops, ∃ op' ∈ ops', op.semNum = op'.semNum ∧
    ((0 < op.semOp ∧ op'.semOp < 0) ∨ (op.semOp < 0 ∧ op'.semOp = 0))

variable {set : SysvSemSet}

/-- When the operations are ready. -/
theorem opsReady_iff {ops : List LinuxSembuf} :
    opsReady set ops = .ok true ↔ ∀ op ∈ ops, ∃ value, set.values[op.semNum]? = some value ∧
      (op.semOp < 0 → op.semOp.natAbs ≤ value) ∧ (op.semOp = 0 → value = 0) := by
  induction ops with
  | nil => simp [opsReady]
  | cons op ops ih =>
  rw [List.forall_mem_cons, ← ih, opsReady]
  cases set.values[op.semNum]? with
  | none => simp
  | some value =>
    simp only [some.injEq]
    split_ifs with hneg hlow hzero
    all_goals grind

/-- The number of semaphores stays. -/
theorem length_applyOps (ops : List LinuxSembuf) (pid now : Int) :
    (applyOps set ops pid now).2.values.length = set.values.length := by
  induction ops generalizing set with
  | nil => rfl
  | cons op ops ih =>
    unfold applyOps
    grind

variable {n clock caller : ℕ}

/-- What each operation does, all do. -/
theorem applyOps_rel {R : ℕ → ℕ → Prop} (hrefl : ∀ v, R v v)
    (htrans : ∀ u v w, R u v → R v w → R u w) (set : SysvSemSet) (ops : List LinuxSembuf)
    (pid now : Int)
    (hops : ∀ op ∈ ops, op.semNum = n → ∀ v, (op.semOp < 0 → R v (v - op.semOp.natAbs)) ∧
      (0 ≤ op.semOp → R v (v + op.semOp.toNat))) :
    R (set.values.getD n 0) ((applyOps set ops pid now).2.values.getD n 0) := by
  induction ops generalizing set with
  | nil => exact hrefl _
  | cons op ops ih =>
  obtain ⟨hop, hops⟩ := List.forall_mem_cons.mp hops
  -- One operation, and then the others by the induction hypothesis.
  have hstep : ∀ value new, set.values[op.semNum]? = some value → (op.semNum = n → R value new) →
      R (set.values.getD n 0) ((set.values.set op.semNum new).getD n 0) := by
    grind
  unfold applyOps
  split
  · exact hrefl _
  rename_i value hvalue
  split_ifs with hneg
  · refine htrans _ _ _ (hstep value _ hvalue fun hn => (hop hn value).1 hneg) ?_
    exact ih { set with values := set.values.set op.semNum (value - op.semOp.natAbs) } hops
  · exact hrefl _
  · refine htrans _ _ _ (hstep value _ hvalue fun hn => (hop hn value).2 (Int.not_lt.mp hneg)) ?_
    exact ih { set with values := set.values.set op.semNum (value + op.semOp.toNat) } hops
  · exact hrefl _

/-- Without raises a value does not grow. -/
theorem applyOps_le (set : SysvSemSet) (ops : List LinuxSembuf) (pid now : Int)
    (h : ∀ op ∈ ops, op.semNum = n → op.semOp ≤ 0) :
    (applyOps set ops pid now).2.values.getD n 0 ≤ set.values.getD n 0 := by
  apply applyOps_rel (R := fun v v' => v' ≤ v) Nat.le_refl
    (fun _ _ _ huv hvw => Nat.le_trans hvw huv)
  intro op hmem hnum v
  have := h op hmem hnum
  omega

/-- Without lowering it does not shrink. -/
theorem le_applyOps (set : SysvSemSet) (ops : List LinuxSembuf) (pid now : Int)
    (h : ∀ op ∈ ops, op.semNum = n → 0 ≤ op.semOp) :
    set.values.getD n 0 ≤ (applyOps set ops pid now).2.values.getD n 0 := by
  apply applyOps_rel (R := fun v v' => v ≤ v') Nat.le_refl (fun _ _ _ => Nat.le_trans)
  intro op hmem hnum v
  have := h op hmem hnum
  omega

variable {now : Int}

/-- What was not in conflict was ready before. -/
theorem opsReady_of_applyOps {ops ops' : List LinuxSembuf} {pid : Int}
    (hconflict : ¬Conflicts ops ops') (h : opsReady (applyOps set ops pid now).2 ops' = .ok true) :
    opsReady set ops' = .ok true := by
  rw [opsReady_iff] at h ⊢
  intro op' hop'
  obtain ⟨value', hvalue', hneg, hzero⟩ := h op' hop'
  obtain ⟨hlt, -⟩ := List.getElem?_eq_some_iff.mp hvalue'
  rw [length_applyOps] at hlt
  refine ⟨set.values.getD op'.semNum 0, ?_, ?_, ?_⟩
  · grind
  · -- A semaphore that the list lowers was not raised.
    intro hop
    have hle := applyOps_le set ops pid now (n := op'.semNum) fun op hmem hnum => by
      by_contra hpos
      exact hconflict ⟨op, hmem, op', hop', hnum, Or.inl ⟨Int.not_le.mp hpos, hop⟩⟩
    grind
  -- A semaphore that the list wants at zero was not lowered.
  intro hop
  have hle := le_applyOps set ops pid now (n := op'.semNum) fun op hmem hnum => by
    by_contra hlow
    exact hconflict ⟨op, hmem, op', hop', hnum, Or.inr ⟨Int.not_le.mp hlow, hop⟩⟩
  rw [List.getD_eq_getElem?_getD (l := (applyOps set ops pid now).2.values), hvalue',
    getD_some, hzero hop] at hle
  exact Nat.le_zero.mp hle

/-! ## Wakeups -/

/-- If a round of `w` performs its list, then it has no conflict with a list that is blocked on the
set. -/
def SemSystem.Undisturbed (s : SemSystem) (w : Waiter) : Prop :=
  ∀ set, s.state.find w.credentials w.semid = some set → hasAccess set w.credentials true →
    opsReady set w.ops = .ok true →
    ∀ caller w', s.callers caller = .blocked w' → w'.semid = w.semid → ¬Conflicts w.ops w'.ops

/-- The condition on a step: a round of `semtimedop` that performs its list has no conflict with a
list that is blocked on the set. -/
def Safe (op : SemOp) (s : SemSystem) : Prop :=
  match op with
  | .semtimedop caller credentials semid ops nsops timeout clock _ =>
    s.callers caller = .idle → ∀ w, Waiter.begin credentials semid ops nsops timeout clock = .ok w →
      s.Undisturbed w
  | .retry caller _ _ => ∀ w, s.callers caller = .awake w → s.Undisturbed w
  | _ => True

/-- A step removes the set that a blocked caller waits for, or its list becomes executable. -/
def Concerns (s s' : SemSystem) (w : Waiter) : Prop :=
  ∃ set, s.state.find w.credentials w.semid = some set ∧
    (s'.state.find w.credentials w.semid = none ∨
      ∃ set', s'.state.find w.credentials w.semid = some set' ∧
        opsReady set w.ops ≠ .ok true ∧ opsReady set' w.ops = .ok true)

/-- The permissions stay. -/
theorem perm_applyOps (ops : List LinuxSembuf) (pid now : Int) :
    (applyOps set ops pid now).2.perm = set.perm := by
  induction ops generalizing set with
  | nil => rfl
  | cons op ops ih =>
    unfold applyOps
    grind

/-- Two records that the same callers can find. -/
def SameObject (perm perm' : LinuxIpcPerm) : Prop :=
  perm'.namespaceInode = perm.namespaceInode ∧ perm'.removed = perm.removed

variable {state : SysvSemState}

/-- The sets after a change of one. -/
theorem SysvSemState.find_put {semid : Int} {set' : SysvSemSet}
    (hset : state.sets[semid]? = some set) (hsame : SameObject set.perm set'.perm)
    (credentials : SysvCredentials) (id : Int) : (state.put semid set').find credentials id =
      if semid = id then (state.find credentials id).map fun _ => set'
      else state.find credentials id := by
  unfold find findObject put
  rw [getElem?_insert_object]
  split_ifs with hid
  · subst hid
    rw [hset]
    simp only [filter_some, hsame.1, hsame.2]
    split_ifs
    · rfl
    · rfl
  · rfl

/-- A round changes nothing, or applies the operations. -/
theorem Waiter.round_cases (w : Waiter) :
    (w.round clock now state).state = state ∨
      ∃ set, state.find w.credentials w.semid = some set ∧ hasAccess set w.credentials true ∧
        opsReady set w.ops = .ok true ∧
        (w.round clock now state).state =
          state.put w.semid (applyOps set w.ops w.credentials.pid now).2 := by
  unfold Waiter.round
  cases hfind : state.find w.credentials w.semid with
  | none => exact .inl rfl
  | some set =>
  dsimp only
  by_cases haccess : hasAccess set w.credentials true
  · rw [if_neg (by simp [haccess])]
    cases hready : opsReady set w.ops with
    | error e => exact .inl rfl
    | ok ready =>
    cases ready with
    | false =>
      split_ifs
      all_goals exact .inl rfl
    | true =>
    refine .inr ⟨set, rfl, haccess, hready, ?_⟩
    dsimp only
    split
    · rename_i set' heq
      rw [heq]
    · rename_i e set' heq
      rw [heq]
      rfl
  · rw [if_pos (by simp [haccess])]
    exact .inl rfl

variable {credentials : SysvCredentials}

/-- `semctl` leaves the sets alone, removes the set that it found, or changes it in place; it wakes
the blocked callers if it removes the set or changes its values. -/
theorem semctl_cases (semid semnum : Int) {cmd : SemctlCmd} {arg : SemctlArg} :
    let out := semctl credentials semid semnum cmd arg now state
    out.state = state ∨
      (out.wakesIo = true ∧ out.state = { state with sets := state.sets.erase semid }) ∨
      ∃ set set', state.find credentials semid = some set ∧ SameObject set.perm set'.perm ∧
        out.state = state.put semid set' ∧ (out.wakesIo = true ∨ set'.values = set.values) := by
  unfold semctl
  by_cases hinfo : cmd = .IPC_INFO ∨ cmd = .SEM_INFO
  · rw [if_pos hinfo]
    split_ifs
    all_goals exact .inl rfl
  rw [if_neg hinfo]
  cases hfind : state.find credentials semid with
  | none => exact .inl rfl
  | some set =>
  cases cmd with
  | IPC_RMID =>
    dsimp only
    split_ifs
    · exact .inl rfl
    · exact .inr (.inl ⟨rfl, rfl⟩)
  | IPC_SET =>
    dsimp only
    split_ifs
    · exact .inl rfl
    · exact .inl rfl
    cases arg.ds with
    | none => exact .inl rfl
    | some ds =>
      refine .inr (.inr ⟨set, _, rfl, ?_, rfl, ?_⟩)
      · exact ⟨rfl, rfl⟩
      · exact .inr rfl
  | SETVAL =>
    dsimp only
    split_ifs
    iterate 4 exact .inl rfl
    · refine .inr (.inr ⟨set, _, rfl, ?_, rfl, .inl rfl⟩)
      exact ⟨rfl, rfl⟩
  | SETALL =>
    dsimp only
    split_ifs
    · exact .inl rfl
    · exact .inl rfl
    cases arg.readValues set.values.length with
    | error e => exact .inl rfl
    | ok values =>
      refine .inr (.inr ⟨set, _, rfl, ?_, rfl, .inl rfl⟩)
      exact ⟨rfl, rfl⟩
  | GETPID | GETVAL | GETNCNT | GETZCNT =>
    dsimp only
    split_ifs
    · exact .inl rfl
    all_goals
      cases set.values[semnum.toNat]? with
      | none | some value => exact .inl rfl
  | IPC_STAT | SEM_STAT | GETALL =>
    dsimp only
    split_ifs
    all_goals exact .inl rfl
  | IPC_INFO | SEM_INFO | other => exact .inl rfl

/-- What `semget` does. -/
theorem semget_cases (key nsems : Int) {semflg : UInt32}
    : let out := semget credentials key nsems semflg now state
    out.state = state ∨ ∃ set, out.state =
        { state.put (state.nextSemid + 1) set with nextSemid := state.nextSemid + 1 } := by
  unfold semget
  by_cases hnsems : nsems < 0 ∨ (SEMMSL : Int) < nsems
  · rw [if_pos hnsems]
    exact .inl rfl
  rw [if_neg hnsems]
  split
  · split_ifs
    all_goals exact .inl rfl
  · split_ifs
    iterate 4 exact .inl rfl
    exact .inr ⟨_, rfl⟩

/-- What a step does to the sets. A set that changes in place makes no blocked list executable, or
the blocked callers are woken. -/
inductive SetsStep (s : SemSystem) (eff : Effect) : Prop where
  | same (hstate : eff.system.state = s.state)
  | created (set : SysvSemSet)
      (hstate : eff.system.state = { s.state.put (s.state.nextSemid + 1) set with
        nextSemid := s.state.nextSemid + 1 })
  | removed (semid : Int) (hwakes : eff.wakesIo = true)
      (hstate : eff.system.state = { s.state with sets := s.state.sets.erase semid })
  | changed (semid : Int) (set set' : SysvSemSet) (hset : s.state.sets[semid]? = some set)
      (hsame : SameObject set.perm set'.perm) (hstate : eff.system.state = s.state.put semid set')
      (hready : eff.wakesIo = true ∨ ∀ caller w, s.callers caller = .blocked w → w.semid = semid →
        opsReady set' w.ops = .ok true → opsReady set w.ops = .ok true)

open SetsStep

variable {s : SemSystem} {w : Waiter}

/-- What a round does to the sets. -/
theorem setsStep_runRound (hsafe : s.Undisturbed w) :
    SetsStep s (s.runRound caller w clock now) := by
  obtain hsame | ⟨set, hfind, haccess, hready, hstate⟩ := w.round_cases
  · exact same hsame
  refine changed w.semid set _ (getElem?_of_findObject hfind) ?_ hstate (.inr ?_)
  · rw [perm_applyOps]
    exact ⟨rfl, rfl⟩
  · intro caller' w' hblocked hid hnow
    exact opsReady_of_applyOps (hsafe set hfind haccess hready caller' w' hblocked hid) hnow

variable {eff : Effect}

/-- What a step does to the sets. -/
theorem setsStep_of_act {op : SemOp} (hsafe : Safe op s) (h : act op s = some eff) :
    SetsStep s eff := by
  cases op with
  | semget credentials key nsems semflg now =>
    obtain rfl := Outcome.of_next_map h
    obtain hsame | ⟨set, hstate⟩ := semget_cases key nsems
    · exact same hsame
    · exact created set hstate
  | semctl credentials semid semnum cmd arg now =>
    obtain rfl := Outcome.of_next_map h
    obtain hsame | ⟨hwakes, hstate⟩ | ⟨set, set', hfind, hsame, hstate, hwakes | hvalues⟩ :=
      semctl_cases semid semnum
    · exact same hsame
    · exact removed semid hwakes hstate
    · exact changed semid set set' (getElem?_of_findObject hfind) hsame hstate (.inl hwakes)
    · refine changed semid set set' (getElem?_of_findObject hfind) hsame hstate
        (.inr fun _ w _ _ hnow => ?_)
      grind [opsReady_iff]
  | semtimedop caller credentials semid ops nsops timeout clock now =>
    dsimp only [act] at h
    split at h
    · rename_i w hidle hbegin
      cases h
      exact setsStep_runRound (hsafe hidle w hbegin)
    · grind [same]
  | retry caller clock now =>
    dsimp only [act] at h
    split at h
    · rename_i w hawake
      cases h
      exact setsStep_runRound (hsafe w hawake)
    · grind [same]
  | wake caller | interrupt caller =>
  dsimp only [act] at h
  split at h
  all_goals
    cases h
    exact same rfl

/-- No set has an identifier that is still to be given out. -/
def SysvSemState.IdsUsed (state : SysvSemState) : Prop :=
  ∀ (id : Int) (set : SysvSemSet), state.sets[id]? = some set → id ≤ state.nextSemid

/-- A step keeps the ids used. -/
theorem SetsStep.idsUsed (h : SetsStep s eff) (hids : s.state.IdsUsed) :
    eff.system.state.IdsUsed := by
  intro id found hfound
  cases h with
  | same hstate =>
    rw [hstate] at hfound ⊢
    exact hids id found hfound
  | created set hstate =>
    rw [hstate] at hfound ⊢
    dsimp only [put] at hfound ⊢
    rw [getElem?_insert_object] at hfound
    split_ifs at hfound with hid
    · omega
    · have := hids id found hfound
      omega
  | removed semid hwakes hstate =>
    rw [hstate] at hfound ⊢
    rw [getElem?_erase_object] at hfound
    split_ifs at hfound
    exact hids id found hfound
  | changed semid set set' hset hsame hstate hready =>
  rw [hstate] at hfound ⊢
  dsimp only [put] at hfound ⊢
  rw [getElem?_insert_object] at hfound
  split_ifs at hfound with hid
  · rw [← hid]
    exact hids semid set hset
  · exact hids id found hfound

/-- Who is concerned is woken. -/
theorem SetsStep.wakes (h : SetsStep s eff) (hids : s.state.IdsUsed)
    (hblocked : s.callers caller = .blocked w) (hconcerns : Concerns s eff.system w) :
    eff.wakesIo = true := by
  obtain ⟨found, hfound, hafter⟩ := hconcerns
  have hlookup := getElem?_of_findObject hfound
  cases h with
  | same hstate => grind
  | created set hstate =>
    -- The new identifier is not that of the set waited for.
    have hne : s.state.nextSemid + 1 ≠ w.semid := by
      have := hids w.semid found hlookup
      omega
    have hsame : eff.system.state.find w.credentials w.semid =
        s.state.find w.credentials w.semid := by
      rw [hstate]
      unfold find findObject put
      rw [getElem?_insert_object, if_neg hne]
    grind
  | removed semid hwakes hstate => exact hwakes
  | changed semid set set' hset hsame hstate hready =>
  rw [hstate, find_put hset hsame, hfound] at hafter
  by_cases hid : semid = w.semid
  · subst hid
    grind
  · grind

/-- The run lemma: in a run whose steps meet the condition, the identifiers in use stay below the
next one. -/
theorem idsUsed_of_safeRun {ops : List SemOp} (hsafe : Lib.SafeRun exec Safe ops .start)
    (hrun : Lib.runOps exec ops .start = some s) : s.state.IdsUsed := by
  refine Lib.SafeRun.invariant (I := fun s => s.state.IdsUsed) ?_ hsafe ?_ hrun
  · intro op s s' hop hexec hids
    obtain ⟨eff, hact, rfl⟩ := map_eq_some_iff.mp hexec
    exact (setsStep_of_act hop hact).idsUsed hids
  · intro id set hset
    cases hset

/-- In every run in which no round of `semtimedop` performs a list that conflicts with one blocked
on the same set, every step wakes the blocked callers if it removes the set that one of them waits
for or makes its list executable. -/
theorem run_wakes (ops : List SemOp) (op : SemOp) (s : SemSystem) (eff : Effect)
    (hsafe : Lib.SafeRun exec Safe (ops ++ [op]) .start)
    (hrun : Lib.runOps exec ops .start = some s) (hact : act op s = some eff)
    (caller : ℕ) (w : Waiter) (hblocked : s.callers caller = .blocked w)
    (hconcerns : Concerns s eff.system w) : eff.wakesIo = true := by
  obtain ⟨hsafe, hop⟩ := Lib.SafeRun.split hsafe hrun
  exact (setsStep_of_act hop hact).wakes (idsUsed_of_safeRun hsafe hrun) hblocked hconcerns

/-- Root in namespace 1, as process 7. -/
def rootCaller : SysvCredentials := ⟨1, 7, 0, 0, []⟩

/-- A `semtimedop` with one operation on the first semaphore of set 1, without a timeout. -/
def semop (caller : ℕ) (semOp : Int) : SemOp :=
  .semtimedop caller rootCaller 1 ⟨false, [⟨0, semOp, 0⟩]⟩ 1 .null 0 0

/-- A set with one semaphore at zero, and caller 1 blocked until it can lower it. -/
def blockOne : List SemOp := [.semget rootCaller IPC_PRIVATE 1 0o600 0, semop 1 (-1)]

/-- `SETVAL` of that semaphore to one. -/
def setOne : SemOp := .semctl rootCaller 1 0 .SETVAL ⟨1, none, [], 0⟩ 0

/-- A run that blocks a caller and then sets the value that it waits for. -/
theorem run_wakes_setOne : ∃ s eff, Lib.runOps exec blockOne .start = some s ∧
      s.callers 1 = .blocked ⟨rootCaller, 1, [⟨0, -1, 0⟩], none⟩ ∧ act setOne s = some eff ∧
      eff.wakesIo = true := by
  refine ⟨_, _, rfl, rfl, rfl, run_wakes blockOne setOne _ _ ?_ rfl rfl 1 _ rfl ?_⟩
  · refine ⟨trivial, ⟨?_, ⟨trivial, trivial⟩⟩⟩
    rintro - w hw set hset - - caller w' hblocked
    cases hblocked
  · exact ⟨_, rfl, .inr ⟨_, rfl, by decide, rfl⟩⟩

/-- Caller 1 is blocked until it can lower the semaphore. Caller 2 raises it and wakes nobody. -/
theorem semop_leaves_waiter_asleep : ∃ s eff, Lib.runOps exec blockOne .start = some s ∧
      s.callers 1 = .blocked ⟨rootCaller, 1, [⟨0, -1, 0⟩], none⟩ ∧ act (semop 2 1) s = some eff ∧
      Concerns s eff.system ⟨rootCaller, 1, [⟨0, -1, 0⟩], none⟩ ∧
      eff.system.callers 1 = .blocked ⟨rootCaller, 1, [⟨0, -1, 0⟩], none⟩ ∧
      eff.wakesIo = false :=
  ⟨_, _, rfl, rfl, rfl, ⟨_, rfl, .inr ⟨_, rfl, by decide, rfl⟩⟩, rfl, rfl⟩

/-! ## Operations one after another -/

/-- The values after an operation that leaves a semaphore in its range. -/
def raise (values : List ℕ) (op : LinuxSembuf) : Option (List ℕ) :=
  match values[op.semNum]? with
  | none => none
  | some value =>
    if 0 ≤ value + op.semOp ∧ (op.semOp < 0 ∨ value + op.semOp ≤ SEMVMX) then
      some (values.set op.semNum (value + op.semOp).toNat)
    else none

/-- The same, if an operation that waits for zero sees zero. -/
def perform (values : List ℕ) (op : LinuxSembuf) : Option (List ℕ) :=
  if op.semOp = 0 ∧ values[op.semNum]? ≠ some 0 then none else raise values op

/-- A round succeeds if the operations can be performed one after another, with the values that they
give; any other round leaves the set as it was. -/
def Atomic (w : Waiter) (now : Int) (set : SysvSemSet) (out : Outcome SysvSemState ℕ) : Prop :=
  match w.ops.foldlM perform set.values with
  | some values => out.reply = .returned (.ok 0) ∧ out.state.sets[w.semid]? =
      some { set with values, lastPid := w.credentials.pid, otime := now }
  | none => out.reply ≠ .returned (.ok 0) ∧ out.state.sets[w.semid]? = some set

variable {ops : List LinuxSembuf} {op : LinuxSembuf} {values : List ℕ}

section Apply

variable (back : List LinuxSembuf) (pid now : Int)

/-- A raise that works is made. -/
theorem applyOps_cons_of_raise (h : raise set.values op = some values) :
    applyOps set (op :: back) pid now = applyOps { set with values } back pid now := by
  unfold raise at h
  rw [applyOps]
  cases hvalue : set.values[op.semNum]? with
  | none => simp [hvalue] at h
  | some value =>
  simp only [hvalue] at h ⊢
  split_ifs at h with hrange
  cases h
  by_cases hneg : op.semOp < 0
  · have hlow : op.semOp.natAbs ≤ value := by omega
    rw [if_pos hneg, if_pos hlow, show (value + op.semOp).toNat = value - op.semOp.natAbs by omega]
  · have hhigh : value + op.semOp.toNat ≤ SEMVMX := by omega
    rw [if_neg hneg, if_pos hhigh, show (value + op.semOp).toNat = value + op.semOp.toNat by omega]

/-- A raise that fails ends the loop. -/
theorem applyOps_cons_of_none (h : raise set.values op = none) :
    ∃ e, applyOps set (op :: back) pid now = (.error e, set) := by
  unfold raise at h
  rw [applyOps]
  cases hvalue : set.values[op.semNum]? with
  | none => exact ⟨_, rfl⟩
  | some value =>
  simp only [hvalue] at h ⊢
  split_ifs at h with hrange
  by_cases hneg : op.semOp < 0
  · rw [if_pos hneg, if_neg (by omega)]
    exact ⟨_, rfl⟩
  · rw [if_neg hneg, if_neg (by omega)]
    exact ⟨_, rfl⟩

/-- The operations of a list that stay in the range are applied, and the next ones to what they
give. -/
theorem applyOps_append (h : ops.foldlM raise set.values = some values) :
    applyOps set (ops ++ back) pid now = applyOps { set with values } back pid now := by
  induction ops generalizing set with
  | nil =>
    cases h
    rfl
  | cons op ops ih =>
  rw [List.foldlM_cons] at h
  obtain ⟨next, hnext, hrest⟩ := bind_eq_some_iff.mp h
  rw [List.cons_append, applyOps_cons_of_raise _ pid now hnext]
  exact ih hrest

end Apply

/-- The first raise that fails. -/
theorem exists_raise_none (h : ops.foldlM raise values = none) :
    ∃ front op back between, ops = front ++ op :: back ∧ front.foldlM raise values = some between ∧
      raise between op = none := by
  induction ops generalizing values with
  | nil => cases h
  | cons op ops ih =>
  cases hop : raise values op with
  | none => exact ⟨[], op, ops, values, rfl, rfl, hop⟩
  | some next =>
  rw [List.foldlM_cons, hop] at h
  obtain ⟨front, op', back, between, rfl, hfront, hnone⟩ := ih h
  refine ⟨op :: front, op', back, between, rfl, ?_, hnone⟩
  rw [List.foldlM_cons, hop]
  exact hfront

/-- What can be performed can be raised. -/
theorem raise_of_perform {after : List ℕ} (h : ops.foldlM perform values = some after) :
    ops.foldlM raise values = some after := by
  induction ops generalizing values with
  | nil => exact h
  | cons op ops ih =>
  rw [List.foldlM_cons] at h ⊢
  obtain ⟨next, hnext, hrest⟩ := bind_eq_some_iff.mp h
  unfold perform at hnext
  split_ifs at hnext
  rw [hnext]
  exact ih hrest

/-- When a round succeeds. -/
theorem round_spec (hfind : state.find w.credentials w.semid = some set)
    (haccess : hasAccess set w.credentials true = true) :
    ((w.round clock now state).reply = .returned (.ok 0) ↔
      opsReady set w.ops = .ok true ∧ (applyOps set w.ops w.credentials.pid now).1 = .ok ()) ∧
    (w.round clock now state).state.sets[w.semid]? = some (if opsReady set w.ops = .ok true then
      (applyOps set w.ops w.credentials.pid now).2 else set) := by
  have hlookup : state.sets[w.semid]? = some set := getElem?_of_findObject hfind
  unfold Waiter.round
  simp only [hfind, haccess, Bool.not_true, Bool.false_eq_true, if_false]
  cases hready : opsReady set w.ops with
  | error e => simp [Outcome.fail, hlookup]
  | ok ready =>
  cases ready with
  | false =>
    simp only [Except.ok.injEq, Bool.false_eq_true, if_false, false_and, iff_false]
    split_ifs <;> simp [Outcome.fail, hlookup]
  | true =>
    obtain ⟨result, set'⟩ := applyOps set w.ops w.credentials.pid now
    cases result <;> simp [Outcome.fail, put]

/-- The operation alone is no reason to wait at these values. -/
def Passes (values : List ℕ) (op : LinuxSembuf) : Prop :=
  ∃ value, values[op.semNum]? = some value ∧ (op.semOp < 0 → op.semOp.natAbs ≤ value) ∧
    (op.semOp = 0 → value = 0)

/-- A round is atomic exactly if the operations can be performed one after another just when each of
them passes at the first values; or if each passes, and those before the first one that leaves the
range change nothing together. -/
theorem round_atomic_iff (w : Waiter) (clock : ℕ) (now : Int) (state : SysvSemState)
    (set : SysvSemSet) (hfind : state.find w.credentials w.semid = some set)
    (haccess : hasAccess set w.credentials true = true) :
    Atomic w now set (w.round clock now state) ↔
      ((∀ op ∈ w.ops, Passes set.values op) ↔ (w.ops.foldlM perform set.values).isSome) ∨
      ((∀ op ∈ w.ops, Passes set.values op) ∧ ∃ front op back, w.ops = front ++ op :: back ∧
        front.foldlM raise set.values = some set.values ∧ raise set.values op = none) := by
  obtain ⟨hreply, hlookup⟩ := round_spec hfind haccess
  have hpasses : (∀ op ∈ w.ops, Passes set.values op) ↔ opsReady set w.ops = .ok true :=
    opsReady_iff.symm
  unfold Atomic
  rw [hpasses, hlookup]
  cases hseq : w.ops.foldlM perform set.values with
  | some after =>
    have happly := applyOps_append [] w.credentials.pid now (raise_of_perform hseq)
    rw [List.append_nil, applyOps] at happly
    by_cases hready : opsReady set w.ops = .ok true <;> simp [hreply, hready, happly]
  | none =>
  by_cases hready : opsReady set w.ops = .ok true
  swap
  · simp [hreply, hready]
  simp only [hreply, hready, if_true, true_and, ne_eq, some.injEq, isSome_none,
    Bool.false_eq_true, iff_false, not_true_eq_false, false_or]
  constructor
  · rintro ⟨hfails, hsame⟩
    cases hraise : w.ops.foldlM raise set.values with
    | some values =>
      have happly := applyOps_append [] w.credentials.pid now hraise
      rw [List.append_nil, applyOps] at happly
      rw [happly] at hfails
      exact absurd rfl hfails
    | none =>
    obtain ⟨front, op, back, between, hops, hfront, hnone⟩ := exists_raise_none hraise
    obtain ⟨e, herror⟩ : ∃ e, applyOps { set with values := between } (op :: back)
        w.credentials.pid now = (.error e, { set with values := between }) :=
      applyOps_cons_of_none back _ now hnone
    rw [hops, applyOps_append _ _ now hfront, herror] at hsame
    have hvalues : between = set.values := congrArg SysvSemSet.values hsame
    exact ⟨front, op, back, hops, hvalues ▸ hfront, hvalues ▸ hnone⟩
  rintro ⟨front, op, back, hops, hfront, hnone⟩
  obtain ⟨e, herror⟩ := applyOps_cons_of_none back w.credentials.pid now hnone
  have happly : applyOps set w.ops w.credentials.pid now = (.error e, set) := by
    rw [hops, applyOps_append _ _ now hfront]
    exact herror
  rw [happly]
  exact ⟨nofun, rfl⟩

/-- A semaphore at one is lowered, raised by two and lowered again. -/
theorem round_atomic_lowerRaise :
    ∃ s set, Lib.runOps exec [.semget rootCaller IPC_PRIVATE 1 0o600 0, setOne] .start = some s ∧
      s.state.sets[(1 : Int)]? = some set ∧ set.values = [1] ∧
      let w : Waiter := ⟨rootCaller, 1, [⟨0, -1, 0⟩, ⟨0, 2, 0⟩, ⟨0, -1, 0⟩], none⟩
      ((w.round 0 0 s.state).state.sets[(1 : Int)]?).map SysvSemSet.values = some [1] ∧
        Atomic w 0 set (w.round 0 0 s.state) := by
  refine ⟨_, _, rfl, rfl, rfl, rfl,
    (round_atomic_iff _ 0 0 _ _ rfl rfl).mpr (.inl (iff_of_true ?_ rfl))⟩
  intro op hop
  refine ⟨1, ?_⟩
  rcases List.mem_cons.mp hop with rfl | hop
  · exact ⟨rfl, by decide, by decide⟩
  rcases List.mem_cons.mp hop with rfl | hop
  · exact ⟨rfl, by decide, by decide⟩
  cases List.mem_singleton.mp hop
  exact ⟨rfl, by decide, by decide⟩

/-- Two operations lower a semaphore at one: each passes alone, the second fails, and the first is
not taken back. -/
theorem round_half_applied :
    ∃ s set, Lib.runOps exec [.semget rootCaller IPC_PRIVATE 1 0o600 0, setOne] .start = some s ∧
      s.state.sets[(1 : Int)]? = some set ∧ set.values = [1] ∧
      let w : Waiter := ⟨rootCaller, 1, [⟨0, -1, 0⟩, ⟨0, -1, 0⟩], none⟩
      (w.round 0 0 s.state).reply = .returned (.error .tryAgain) ∧
        ((w.round 0 0 s.state).state.sets[(1 : Int)]?).map SysvSemSet.values = some [0] ∧
        ¬ Atomic w 0 set (w.round 0 0 s.state) := by
  refine ⟨_, _, rfl, rfl, rfl, rfl, rfl, fun h => ?_⟩
  have hvalues : some [0] = some [1] := congrArg (Option.map SysvSemSet.values) h.2
  cases hvalues

end Seele.Ipc.SysvSem
