import Mathlib.Data.List.Basic

/-!
# What the System V objects of `ipc/` share

`sysv_msg.rs` and `sysv_sem.rs` keep their objects in a map from identifiers to records, find them
by namespace, and guard them by the same owner, creator and mode. The records of both have these
fields in a `LinuxIpcPerm` here.

A call that cannot go on blocks until some `wake_io` and tries again. Every round of such a loop
takes the lock of its map once: it is an `Attempt`, and an `Outcome` says what it leaves behind.
-/

namespace Seele.Ipc

/-- The errors of `SyscallError` that these calls return. -/
inductive SyscallError where
  | badAddress
  | invalidArguments
  | permissionDenied
  | fileAlreadyExists
  | fileNotFound
  | fileTooLarge
  | noSpaceLeft
  | tryAgain
  | noMessage
  | rangeError
  | identifierRemoved
  deriving DecidableEq, Repr

/-- `SysvMsgCredentials` and `SysvSemCredentials`. -/
structure SysvCredentials where
  namespaceInode : ℕ
  pid : Int
  effectiveUid : UInt32
  effectiveGid : UInt32
  supplementaryGroups : List UInt32
  deriving DecidableEq, Repr

/-- The namespace, key, owner, creator and mode of an object. -/
structure LinuxIpcPerm where
  namespaceInode : ℕ
  key : Int
  ownerUid : UInt32
  ownerGid : UInt32
  creatorUid : UInt32
  creatorGid : UInt32
  mode : UInt32
  removed : Bool
  deriving DecidableEq, Repr

/-- `IPC_PRIVATE`. -/
def IPC_PRIVATE : Int := 0

/-- `IPC_CREAT`. -/
def IPC_CREAT : UInt32 := 0o1000

/-- `IPC_EXCL`. -/
def IPC_EXCL : UInt32 := 0o2000

/-- `IPC_MODE_MASK`. -/
def IPC_MODE_MASK : UInt32 := 0o777

/-- `has_access`. -/
def LinuxIpcPerm.hasAccess (perm : LinuxIpcPerm) (credentials : SysvCredentials) (write : Bool) :
    Bool :=
  if credentials.effectiveUid = 0 then true
  else
    let mask : UInt32 := if write then 0o4 ||| 0o2 else 0o4
    if credentials.effectiveUid = perm.ownerUid ∨ credentials.effectiveUid = perm.creatorUid then
      perm.mode &&& (mask <<< 6) == mask <<< 6
    else if credentials.effectiveGid = perm.ownerGid ∨ credentials.effectiveGid = perm.creatorGid ∨
        credentials.supplementaryGroups.any
          (fun gid => gid == perm.ownerGid || gid == perm.creatorGid) then
      perm.mode &&& (mask <<< 3) == mask <<< 3
    else perm.mode &&& mask == mask

/-- The test of `IPC_RMID` and `IPC_SET`: root, the owner or the creator. -/
def LinuxIpcPerm.mayChange (perm : LinuxIpcPerm) (credentials : SysvCredentials) : Bool :=
  credentials.effectiveUid == 0 || credentials.effectiveUid == perm.ownerUid ||
    credentials.effectiveUid == perm.creatorUid

/-- `get_mut(&id).filter(..)`: the object is in the caller's namespace and not removed. -/
def findObject {α : Type} (perm : α → LinuxIpcPerm) (objects : Std.TreeMap Int α)
    (credentials : SysvCredentials) (id : Int) : Option α :=
  (objects[id]?).filter fun object =>
    (perm object).namespaceInode == credentials.namespaceInode && !(perm object).removed

/-- The object that a `get` call finds by its key. -/
def findKey {α : Type} (perm : α → LinuxIpcPerm) (objects : Std.TreeMap Int α)
    (credentials : SysvCredentials) (key : Int) : Option (Int × α) :=
  objects.toList.find? fun (_, object) =>
    (perm object).namespaceInode == credentials.namespaceInode && (perm object).key == key &&
      !(perm object).removed

/-- The `LinuxIpcPerm` of a new object. -/
def LinuxIpcPerm.new (credentials : SysvCredentials) (key : Int) (flags : UInt32) :
    LinuxIpcPerm where
  namespaceInode := credentials.namespaceInode
  key := key
  ownerUid := credentials.effectiveUid
  ownerGid := credentials.effectiveGid
  creatorUid := credentials.effectiveUid
  creatorGid := credentials.effectiveGid
  mode := flags &&& IPC_MODE_MASK
  removed := false

/-- One round of a call that may have to wait. `panicked` is an arithmetic overflow, which stops the
kernel. -/
inductive Attempt (α : Type) where
  | returned (result : Except SyscallError α)
  | blocked
  | panicked

/-- What a round answers, whether it wakes the blocked callers by `wake_io`, and the state it
leaves. -/
structure Outcome (σ α : Type) where
  reply : Attempt α
  wakesIo : Bool
  state : σ

/-- A round that fails and changes nothing. -/
def Outcome.fail {σ α : Type} (e : SyscallError) (state : σ) : Outcome σ α :=
  ⟨.returned (.error e), false, state⟩

/-- The state that the next round finds: none after a panic. -/
def Outcome.next {σ α : Type} (out : Outcome σ α) : Option σ :=
  match out.reply with
  | .panicked => none
  | _ => some out.state

/-- The outcome in the next state. -/
theorem Outcome.of_next_map {σ α β : Type} {out : Outcome σ α} {f : σ → β} {b : β}
    (h : out.next.map f = some b) : f out.state = b := by
  grind [Outcome.next]

variable {α : Type} {perm : α → LinuxIpcPerm} {objects : Std.TreeMap Int α}
  {credentials : SysvCredentials} {id : Int} {object : α}

/-- What is found is there. -/
theorem getElem?_of_findObject (h : findObject perm objects credentials id = some object) :
    objects[id]? = some object :=
  (Option.filter_eq_some_iff.mp h).1

/-- The objects after one is stored. -/
theorem getElem?_insert_object (id' : Int) :
    (objects.insert id object)[id']? = if id = id' then some object else objects[id']? := by
  grind

/-- The objects after one is erased. -/
theorem getElem?_erase_object (id' : Int) :
    (objects.erase id)[id']? = if id = id' then none else objects[id']? := by
  grind

end Seele.Ipc
