import Mathlib.Data.List.MinMax
import Mathlib.Data.List.Sort
import Mathlib.Data.Prod.Lex
import Mathlib.Logic.Function.Basic

/-!
# The advisory lock table of `object/file_locks.rs`

The table maps the key of a file to the list of its advisory locks. A lock belongs to one of two
interfaces (`fcntl` or `flock`), to a process or an open file description, and covers a range of
byte offsets that may be open-ended.

Offsets are `u64` in the source. They are natural numbers here, and `U64_MAX` stands where the
source's arithmetic meets the bound: `range_end_bound` of an open-ended range, and the checked
additions of `resolve_flock_range`. A key whose list is empty is removed from the source's map,
which is never iterated, so that a total function to lists carries the same information.
-/

namespace Seele.FileLocks

/-- `u64::MAX`. -/
def U64_MAX : ℕ := 0xffffffffffffffff

/-- The errors that the lock calls return. -/
inductive SyscallError where
  | badAddress
  | invalidArguments
  | tryAgain
  | resourceDeadlock
  | interrupted
  | other
  deriving DecidableEq, Repr

/-! ## Locks -/

/-- `AdvisoryLockType`. -/
inductive AdvisoryLockType where
  | read
  | write
  deriving DecidableEq, Repr

/-- `AdvisoryLockApi`. -/
inductive AdvisoryLockApi where
  | posix
  | flock
  deriving DecidableEq, Repr

/-- `AdvisoryLockOwner`. -/
inductive AdvisoryLockOwner where
  | process (pid : ℕ)
  | openFileDescription (ptr : ℕ)
  deriving DecidableEq, Repr

/-- `AdvisoryLockRange`: from `start` up to `stop`, exclusive, or open-ended. -/
structure AdvisoryLockRange where
  start : ℕ
  stop : Option ℕ
  deriving DecidableEq, Repr

/-- `AdvisoryLock`. -/
structure AdvisoryLock where
  api : AdvisoryLockApi
  owner : AdvisoryLockOwner
  lockType : AdvisoryLockType
  range : AdvisoryLockRange
  deriving DecidableEq, Repr

/-- `ParsedFlockRequest`: no type stands for an unlock. -/
structure ParsedFlockRequest where
  lockType : Option AdvisoryLockType
  range : AdvisoryLockRange
  deriving DecidableEq, Repr

/-- The lock table: the locks under each key. -/
abbrev LockTable := String → List AdvisoryLock

/-! ## Requests -/

/-- The fields of `LinuxFlock` that a request reads. -/
structure LinuxFlock where
  lockType : Int16
  whence : Int16
  start : Int64
  len : Int64

/-- What the lock calls ask an object for: its `lock_key`, its `ofd_owner`, its seek position and
its size. -/
structure LockObject where
  key : String
  ofdOwner : ℕ
  position : Except SyscallError ℕ
  size : Except SyscallError ℕ

/-- `u64::checked_add_signed`. -/
def checkedAddSigned (base : ℕ) (offset : ℤ) : Option ℕ :=
  if 0 ≤ base + offset ∧ base + offset ≤ U64_MAX then some (base + offset).toNat else none

variable (flock : LinuxFlock) (object : LockObject)

/-- The `base` of `resolve_flock_range`. -/
def flockBase : Except SyscallError ℕ :=
  if flock.whence = 0 then .ok 0
  else if flock.whence = 1 then object.position
  else if flock.whence = 2 then object.size
  else .error .invalidArguments

/-- The end of `resolve_flock_range`, from the start and the signed length. -/
def flockRangeFrom (start : ℕ) (len : ℤ) : Except SyscallError AdvisoryLockRange :=
  if 0 < len then
    if start + len.toNat ≤ U64_MAX then .ok ⟨start, some (start + len.toNat)⟩
    else .error .invalidArguments
  else if len = 0 then .ok ⟨start, none⟩
  else
    -- A negative length names the bytes before `start`.
    if len.natAbs ≤ start then .ok ⟨start - len.natAbs, some start⟩
    else .error .invalidArguments

/-- `resolve_flock_range`. -/
def resolveFlockRange :
    Except SyscallError AdvisoryLockRange := do
  let base ← flockBase flock object
  match checkedAddSigned base flock.start.toInt with
  | some start => flockRangeFrom start flock.len.toInt
  | none => .error .invalidArguments

/-- `parse_flock_request`. -/
def parseFlockRequest :
    Except SyscallError ParsedFlockRequest := do
  let range ← resolveFlockRange flock object
  if flock.lockType = 0 then return ⟨some .read, range⟩
  else if flock.lockType = 1 then return ⟨some .write, range⟩
  else if flock.lockType = 2 then return ⟨none, range⟩
  else throw .invalidArguments

/-- `parse_flock_operation`, on the bits of `operation`. -/
def parseFlockOperation (operation : BitVec 32) : Except SyscallError (Option AdvisoryLockType) :=
  let mode := operation &&& 0b1011
  let extra := operation &&& ~~~ 0b1111
  if extra ≠ 0 then .error .invalidArguments
  else if mode = 1 then .ok (some .read)
  else if mode = 2 then .ok (some .write)
  else if mode = 8 then .ok none
  else .error .invalidArguments

/-! ## Conflicts -/

/-- `range_end_bound`. -/
def rangeEndBound (range : AdvisoryLockRange) : ℕ := range.stop.getD U64_MAX

/-- `ranges_overlap`. -/
def rangesOverlap (left right : AdvisoryLockRange) : Bool :=
  left.start < rangeEndBound right && right.start < rangeEndBound left

/-- The filter of `find_conflict`: whether `entry` stands in the way of a request of `owner`. -/
def conflicts (entry : AdvisoryLock) (owner : AdvisoryLockOwner) (requested : AdvisoryLock)
    (api : AdvisoryLockApi) : Bool :=
  entry.api == api && entry.owner != owner && rangesOverlap entry.range requested.range &&
    !(requested.lockType == .read && entry.lockType == .read)

/-- `find_conflict`: the first of the conflicting entries with the least start and end. -/
def findConflict (entries : List AdvisoryLock) (owner : AdvisoryLockOwner)
    (requestedLock : Option AdvisoryLock) (api : AdvisoryLockApi) : Option AdvisoryLock :=
  match requestedLock with
  | none => none
  | some requested => (entries.filter fun entry => conflicts entry owner requested api).argmin
      fun entry => toLex (entry.range.start, rangeEndBound entry.range)

/-! ## Granting a POSIX lock -/

/-- `subtract_lock_range`. -/
def subtractLockRange (lock : AdvisoryLock) (remove : AdvisoryLockRange) : List AdvisoryLock :=
  if !rangesOverlap lock.range remove then [lock]
  else
    let left := if lock.range.start < remove.start then
      [{ lock with range := ⟨lock.range.start, some remove.start⟩ }] else []
    let right := match remove.stop with
      | none => []
      | some removeEnd =>
        if lock.range.stop.all fun stop => removeEnd < stop then
          [{ lock with range := ⟨removeEnd, lock.range.stop⟩ }] else []
    left ++ right

/-- `owner_sort_key`. -/
def AdvisoryLockOwner.ownerSortKey : AdvisoryLockOwner → ℕ × ℕ
  | .process pid => (0, pid)
  | .openFileDescription ptr => (1, ptr)

/-- `api as u8`. -/
def AdvisoryLockApi.toNat : AdvisoryLockApi → ℕ
  | .posix => 0
  | .flock => 1

/-- `lock_type as u8`. -/
def AdvisoryLockType.toNat : AdvisoryLockType → ℕ
  | .read => 0
  | .write => 1

/-- The key by which `merge_posix_locks` sorts, a tuple in lexicographic order. -/
def sortKey (entry : AdvisoryLock) : ℕ ×ₗ ℕ ×ₗ ℕ ×ₗ ℕ ×ₗ ℕ ×ₗ ℕ :=
  toLex (entry.api.toNat, toLex (entry.owner.ownerSortKey.1, toLex (entry.owner.ownerSortKey.2,
    toLex (entry.lockType.toNat, toLex (entry.range.start, rangeEndBound entry.range)))))

/-- The order of `merge_posix_locks`. -/
def SortLe (left right : AdvisoryLock) : Prop := sortKey left ≤ sortKey right

instance : DecidableRel SortLe := fun left right =>
  inferInstanceAs (Decidable (sortKey left ≤ sortKey right))

/-- `can_merge_posix_locks`. -/
def canMergePosixLocks (left right : AdvisoryLock) : Bool :=
  left.api == .posix && right.api == .posix && left.owner == right.owner &&
    left.lockType == right.lockType && right.range.start ≤ rangeEndBound left.range

/-- `merge_lock_ends`. -/
def mergeLockEnds : Option ℕ → Option ℕ → Option ℕ
  | some left, some right => some (max left right)
  | _, _ => none

/-- `last` after `entry` is merged into it. -/
def mergeInto (last entry : AdvisoryLock) : AdvisoryLock :=
  { last with range := ⟨last.range.start, mergeLockEnds last.range.stop entry.range.stop⟩ }

/-- The loop of `merge_posix_locks`, with the last merged lock in hand. -/
def mergeFrom (last : AdvisoryLock) : List AdvisoryLock → List AdvisoryLock
  | [] => [last]
  | entry :: entries =>
    if canMergePosixLocks last entry then
      mergeFrom (mergeInto last entry) entries
    else
      last :: mergeFrom entry entries

variable (entries : List AdvisoryLock)

/-- `merge_posix_locks`. The sort of the source is stable, as insertion sort is. -/
def mergePosixLocks : List AdvisoryLock :=
  match entries.insertionSort SortLe with
  | [] => []
  | entry :: entries => mergeFrom entry entries

/-- The loop of `apply_posix_lock`: the owner's POSIX locks lose the requested range. -/
def subtractOwned (owner : AdvisoryLockOwner) (range : AdvisoryLockRange) : List AdvisoryLock :=
  entries.flatMap fun entry =>
    if entry.api ≠ .posix ∨ entry.owner ≠ owner then [entry] else subtractLockRange entry range

/-- `apply_posix_lock`. -/
def applyPosixLock (owner : AdvisoryLockOwner) (request : ParsedFlockRequest) : List AdvisoryLock :=
  let updated := subtractOwned entries owner request.range
  mergePosixLocks (match request.lockType with
    | some lockType => updated ++ [⟨.posix, owner, lockType, request.range⟩]
    | none => updated)

/-! ## The critical sections -/

/-- A lock request after its arguments are parsed: which interface it comes from, its key, its owner
and what it asks for. -/
structure LockRequest where
  api : AdvisoryLockApi
  key : String
  owner : AdvisoryLockOwner
  request : ParsedFlockRequest
  deriving DecidableEq, Repr

/-- The `requested_lock` of `fcntl_set_lock` and the `requested_type` of `flock_lock`. -/
def LockRequest.lock (r : LockRequest) : Option AdvisoryLock :=
  r.request.lockType.map fun lockType => ⟨r.api, r.owner, lockType, r.request.range⟩

/-- The request of `fcntl_set_lock`, for the process `pid` or for the open file description. -/
def fcntlRequest (flock : LinuxFlock) (ofd : Bool) (pid : ℕ) :
    Except SyscallError LockRequest := do
  let requested ← parseFlockRequest flock object
  let owner := if ofd then .openFileDescription object.ofdOwner else .process pid
  return ⟨.posix, object.key, owner, requested⟩

/-- The request of `flock_lock`, which covers the whole file. -/
def flockRequest (operation : BitVec 32) :
    Except SyscallError LockRequest := do
  let requestedType ← parseFlockOperation operation
  return ⟨.flock, object.key, .openFileDescription object.ofdOwner, ⟨requestedType, ⟨0, none⟩⟩⟩

/-- What a granted request makes of the entries under its key. -/
def LockRequest.grant (r : LockRequest) (entries : List AdvisoryLock) : List AdvisoryLock :=
  match r.api with
  | .posix => applyPosixLock entries r.owner r.request
  | .flock =>
    let others := entries.filter fun entry => !(entry.api == .flock && entry.owner == r.owner)
    match r.lock with
    | some lock => others ++ [lock]
    | none => others

/-- The first critical section of the lock loops: the conflict that the request meets, or the table
after it is granted. -/
def LockRequest.attempt (r : LockRequest) (table : LockTable) : AdvisoryLock ⊕ LockTable :=
  match findConflict (table r.key) r.owner r.lock r.api with
  | some conflict => .inl conflict
  | none => .inr (Function.update table r.key (r.grant (table r.key)))

/-- The table part of `release_process_lock` and `release_ofd_lock`. -/
def releaseOwner (table : LockTable) (key : String) (owner : AdvisoryLockOwner) : LockTable :=
  Function.update table key ((table key).filter fun entry => entry.owner != owner)

end Seele.FileLocks
