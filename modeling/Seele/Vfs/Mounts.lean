import Mathlib.Data.List.Sort
import Mathlib.Data.List.InsertIdx
import Seele.Lib.Cmd
import Seele.Filesystem.RawNames

/-!
# The mount table of `filesystem/vfs.rs`

The table is one list of mounts. It is sorted by the length of the path of a mount and, for equal
lengths, by its number, both the greatest first (`sortMounts`), and the first mount in this order
whose path is at or above a given path is the one that path is in (`VFS.findMount`). So what is
visible where follows from the two keys alone.

A mount is identified by its number. The file systems are behind a type `φ`, whose equality is that
of the pointers to them. The counters are raised by checked additions: a number that does not fit
stops the kernel.
-/

namespace Seele.Vfs

open Seele.Lib Seele.Filesystem

/-! ## The state -/

/-- `u64::MAX`. -/
def U64_MAX : ℕ := 0xffffffffffffffff

/-- `MountPropagation`. -/
inductive MountPropagation where
  | privateMount
  | shared (id : ℕ)
  | slave (master : ℕ)
  | unbindable
deriving DecidableEq, Repr

/-- `Mount`. -/
structure Mount (φ : Type) where
  path : Path
  fs : φ
  sourcePath : Path
  flags : MountFlags
  propagation : MountPropagation
  deviceId : ℕ
  mountId : ℕ
  expirePending : Bool
deriving DecidableEq, Repr

/-- `VFS`. -/
structure VFS (φ : Type) where
  mounts : List (Mount φ)
  nextMountDeviceId : ℕ
  nextMountId : ℕ
  nextPeerGroupId : ℕ
deriving DecidableEq, Repr

/-- `VFS::new`. -/
def VFS.new {φ : Type} : VFS φ := ⟨[], 1, 1, 1⟩

variable {φ : Type}

/-- A command on the mount table. -/
abbrev VfsM (φ : Type) := Cmd FSError (VFS φ)

/-- A result that does not depend on the state. -/
def liftResult {α : Type} : FSResult α → VfsM φ α
  | .error e => Cmd.throw e
  | .ok a => return a

/-! ## The order of the table -/

/-- `as_string().len()`, in bytes. -/
def textLen (path : Path) : ℕ :=
  (nameBytes path.asString).length

/-- The order of `sort_mounts`: the longer path first, and then the greater number. -/
def SortLe (a b : Mount φ) : Prop :=
  textLen b.path < textLen a.path ∨ textLen b.path = textLen a.path ∧ b.mountId ≤ a.mountId

instance : DecidableRel (SortLe (φ := φ)) :=
  fun _ _ => inferInstanceAs (Decidable (_ ∨ _))

instance : Std.Total (SortLe (φ := φ)) :=
  ⟨fun a b => by unfold SortLe; omega⟩

instance : IsTrans (Mount φ) SortLe :=
  ⟨fun a b c => by unfold SortLe; omega⟩

/-- `sort_mounts`. -/
def sortMounts (v : VFS φ) : VFS φ :=
  { v with mounts := v.mounts.insertionSort SortLe }

/-! ## Looking a path up -/

/-- The loop of `find_mount`. -/
def findIn (path : Path) : List (Mount φ) → FSResult (Mount φ × Path)
  | [] => .error .notFound
  | mount :: mounts =>
    match path.stripPrefix mount.path with
    | some stripped => .ok (mount, joinMountSource mount.sourcePath stripped)
    | none => findIn path mounts

/-- `find_mount`. -/
def VFS.findMount (v : VFS φ) (path : Path) : FSResult (Mount φ × Path) :=
  findIn path v.mounts

/-! ## Adding mounts -/

/-- Taking the next number for a device. -/
def takeDeviceId : VfsM φ ℕ := do
  let id := (← Cmd.get).nextMountDeviceId
  if U64_MAX ≤ id then Cmd.panic
  Cmd.modify fun v => { v with nextMountDeviceId := id + 1 }
  return id

/-- Taking the next number for a mount. -/
def takeMountId : VfsM φ ℕ := do
  let id := (← Cmd.get).nextMountId
  if U64_MAX ≤ id then Cmd.panic
  Cmd.modify fun v => { v with nextMountId := id + 1 }
  return id

/-- `join_paths`. -/
def joinPaths (base suffix : Path) : Path :=
  (Path.new (suffix.normalize.names.foldl
    (fun text name => (if text.getLast? = some '/' then text else text ++ ['/']) ++ name)
    base.normalize.asString)).normalize

variable [DecidableEq φ]

/-- The device number of a mount: the one that other mounts of the file system have, or the next. -/
def deviceIdFor (fs : φ) : VfsM φ ℕ := do
  match (← Cmd.get).mounts.find? (fun mount => mount.fs = fs) with
  | some mount => return mount.deviceId
  | none => takeDeviceId

/-- `attach_mount_with_propagation`. -/
def attachMountWithPropagation (path : Path) (fs : φ) (sourcePath : Path) (flags : MountFlags)
    (propagation : MountPropagation) : VfsM φ Unit := do
  let deviceId ← deviceIdFor fs
  let mountId ← takeMountId
  Cmd.modify fun v => sortMounts { v with mounts := v.mounts ++
    [⟨path.normalize, fs, sourcePath.normalize, flags, propagation, deviceId, mountId, false⟩] }

/-- `attach_mount`. -/
def attachMount (path : Path) (fs : φ) (sourcePath : Path) (flags : MountFlags) : VfsM φ Unit :=
  attachMountWithPropagation path fs sourcePath flags .privateMount

/-- The round of the loop of `bind_mount` for one of the mounts that there were before. -/
def bindSubmount (source target : Path) (mount : Mount φ) : VfsM φ Unit :=
  if mount.path = source ∨ ¬ mount.path.startsWith source then return ()
  else
    match mount.path.stripPrefix source with
    | none => return ()
    | some suffix =>
      attachMountWithPropagation (joinPaths target suffix) mount.fs mount.sourcePath mount.flags
        mount.propagation

/-- `bind_mount`. -/
def bindMount (source target : Path) (recursive : Bool) : VfsM φ Unit := do
  let source := source.normalize
  let target := target.normalize
  let v ← Cmd.get
  let (sourceMount, sourceRelative) ← liftResult (v.findMount source)
  if sourceMount.propagation = .unbindable then Cmd.throw .invalidArguments
  attachMountWithPropagation target sourceMount.fs sourceRelative sourceMount.flags
    sourceMount.propagation
  if recursive then Cmd.each (bindSubmount source target) v.mounts

/-! ## Moving and removing mounts -/

omit [DecidableEq φ]

/-- `stack_mount_beneath`. Inserting behind the end of the table stops the kernel. -/
def stackMountBeneath (source target : Path) : VfsM φ Unit := do
  let source := source.normalize
  let target := target.normalize
  let mounts := (← Cmd.get).mounts
  match mounts.findIdx? (fun mount => mount.path = source),
      mounts.findIdx? (fun mount => mount.path = target) with
  | none, _ | some _, none => Cmd.throw .notFound
  | some sourceIndex, some targetIndex => do
    let sourceMount ← Cmd.orPanic mounts[sourceIndex]?
    let mounts := mounts.eraseIdx sourceIndex
    let targetIndex := if sourceIndex < targetIndex then targetIndex - 1 else targetIndex
    let mountId ← takeMountId
    if mounts.length < targetIndex + 1 then Cmd.panic
    let sourceMount := { sourceMount with path := target, mountId := mountId }
    Cmd.modify fun v =>
      sortMounts { v with mounts := mounts.insertIdx (targetIndex + 1) sourceMount }

/-- Where `move_mount_tree` puts a mount. -/
def movedPath (source target path : Path) : Path :=
  if path = source then target
  else
    match path.stripPrefix source with
    | none => path
    | some suffix => joinPaths target suffix

/-- The loop of `move_mount_tree` over the mounts. -/
def movedMounts (source target : Path) (mounts : List (Mount φ)) : List (Mount φ) :=
  mounts.map fun mount => { mount with path := movedPath source target mount.path }

/-- `move_mount_tree`. -/
def moveMountTree (source target : Path) : VfsM φ Unit := do
  let source := source.normalize
  let target := target.normalize
  if ¬ (← Cmd.get).mounts.any (fun mount => mount.path = source) then Cmd.throw .notFound
  Cmd.modify fun v => sortMounts { v with mounts := movedMounts source target v.mounts }

/-- The mounts that `retain` keeps in `remove_mounts_at`; `removedExact` says whether one at the
path has been removed. -/
def retainMounts (path : Path) (includeChildren : Bool) : Bool → List (Mount φ) → List (Mount φ)
  | _, [] => []
  | removedExact, mount :: mounts =>
    if mount.path.asString = path.asString then
      if includeChildren ∨ ¬ removedExact then retainMounts path includeChildren true mounts
      else mount :: retainMounts path includeChildren removedExact mounts
    else if includeChildren ∧ mount.path.startsWith path then
      retainMounts path includeChildren removedExact mounts
    else mount :: retainMounts path includeChildren removedExact mounts

/-- `remove_mounts_at`. -/
def removeMountsAt (path : Path) (includeChildren : Bool) : VfsM φ Unit := do
  let path := path.normalize
  if ¬ (← Cmd.get).mounts.any (fun mount => mount.path.asString = path.asString) then
    Cmd.throw .notFound
  Cmd.modify fun v => { v with mounts := retainMounts path includeChildren false v.mounts }

/-- `unmount`. -/
def unmount (path : Path) : VfsM φ Unit := do
  let path := path.normalize
  if (← Cmd.get).mounts.any (fun mount => mount.path ≠ path ∧ mount.path.startsWith path) then
    Cmd.throw .busy
  removeMountsAt path false

end Seele.Vfs
