import Seele.BlockDevice.Cache
import Seele.Filesystem.Path

/-!
# The path walk of `filesystem/resolve.rs`

`resolve_path_walk` goes through the names of a path from the root. At a symbolic link it puts the
target and the names that are left together to a new path and starts again from the root, at most
`MAX_SYMLINKS` times; that number bounds the recursion of `resolveFrom`. What is mounted where is
behind the trait `PathResolver`, which a `SnapshotResolver` implements over a list of mounts.

All paths that the walk forms are lists of names below the root. `rewriteSymlinkTarget_absolute`
says which names a link leads to, and `walk_invariant` is the rule by which every fact about the
paths that a walk goes through is proved.
-/

namespace Seele.Filesystem

open Seele.Filesystem.Path

open Seele.BlockDevice (BlockDeviceError)

/-! ## Results, nodes and flags -/

/-- `FSError`. -/
inductive FSError where
  | notFound
  | notADirectory
  | notAFile
  | notASymlink
  | alreadyExists
  | busy
  | directoryNotEmpty
  | noSpace
  | illegalSeek
  | invalidArguments
  | rangeError
  | accessDenied
  | permissionDenied
  | pathTooLong
  | execFormat
  | tooManySymlinks
  | readonly
  | operationNotSupported
  | other
  | storageDeviceError (error : BlockDeviceError)
deriving DecidableEq, Repr

/-- `FSResult`. -/
abbrev FSResult := Except FSError

/-- `FileLike`: a handle on a file, a directory or a symbolic link. A link comes with the answer of
`target()`. -/
inductive FileLike (ν : Type) where
  | file (node : ν)
  | directory (node : ν)
  | symlink (node : ν) (target : FSResult Path)
deriving Repr

/-- `MountFlags`. -/
structure MountFlags where
  bits : UInt64
deriving DecidableEq, Repr

namespace MountFlags

/-- `MountFlags::empty`. -/
def empty : MountFlags := ⟨0⟩

/-- `MS_NOSYMFOLLOW`. -/
def MS_NOSYMFOLLOW : MountFlags := ⟨256⟩

/-- `contains`. -/
def contains (flags flag : MountFlags) : Bool :=
  flags.bits &&& flag.bits == flag.bits

end MountFlags

/-! ## The walk -/

variable {ν : Type}

/-- `PathResolver`. -/
structure PathResolver (ν : Type) where
  resolveRoot : FSResult (FileLike ν)
  mountFlags : Path → FSResult MountFlags
  lookupChild : FileLike ν → Path → Name → FSResult (FileLike ν)

/-- `MAX_SYMLINKS`. -/
def MAX_SYMLINKS : ℕ := 40

/-- `VFS::rewrite_symlink_target`. -/
def rewriteSymlinkTarget (current target : Path) (remainder : List Name) : Path :=
  let target :=
    (if target.isAbsolute then target
      else (current.parent.getD (new ['/'])).joinPath target).normalize
  (remainder.foldl joinComponent target).normalize

/-- What `resolve_path_walk` does at a link that it follows. `restart` is the walk from the start
with one link fewer to follow, and is missing when no link may be followed any more. -/
def followSymlink (resolver : PathResolver ν)
    (restart : Option (Path → FSResult (FileLike ν × Path))) (nextPath : Path)
    (target : FSResult Path) (remainder : List Name) :
    FSResult (FileLike ν × Path) := do
  if (← resolver.mountFlags nextPath).contains .MS_NOSYMFOLLOW then throw .tooManySymlinks
  match restart with
  | none => throw .tooManySymlinks
  | some walk => walk (rewriteSymlinkTarget nextPath (← target) remainder)

/-- The loop of `resolve_path_walk` over the names that are left. Without a name left the walk is at
the root, since every other path returns with its last name. -/
def walkComponents (resolver : PathResolver ν) (followFinalSymlink hadTrailingSlash : Bool)
    (restart : Option (Path → FSResult (FileLike ν × Path))) :
    FileLike ν → Path → List Name → FSResult (FileLike ν × Path)
  | current, currentPath, [] => .ok (current, currentPath)
  | current, currentPath, component :: remainder => do
    let nextPath := currentPath.joinComponent component
    let next ← resolver.lookupChild current nextPath component
    match next with
    | .symlink _ target =>
      if remainder ≠ [] ∨ followFinalSymlink ∨ hadTrailingSlash then
        followSymlink resolver restart nextPath target remainder
      else return (next, nextPath)
    | .directory _ =>
      if remainder = [] then return (next, nextPath)
      else
        walkComponents resolver followFinalSymlink hadTrailingSlash restart next nextPath remainder
    | .file _ =>
      if remainder ≠ [] ∨ hadTrailingSlash then throw .notADirectory else return (next, nextPath)

/-- The loop `'restart` of `resolve_path_walk`, when `budget` more links may be followed. -/
def resolveFrom (resolver : PathResolver ν) (followFinalSymlink : Bool) :
    ℕ → Path → FSResult (FileLike ν × Path)
  | budget, path => do
    let hadTrailingSlash := path.asString.getLast? = some '/'
    let root ← resolver.resolveRoot
    walkComponents resolver followFinalSymlink hadTrailingSlash
      (match budget with
        | 0 => none
        | budget + 1 => some (resolveFrom resolver followFinalSymlink budget))
      root (new ['/']) path.normalize.names

/-- `resolve_path_walk`. -/
def resolvePathWalk (resolver : PathResolver ν) (path : Path) (followFinalSymlink : Bool) :
    FSResult (FileLike ν × Path) :=
  resolveFrom resolver followFinalSymlink MAX_SYMLINKS path.normalize

/-- The walk that is left after a link has been followed, if one may be followed. -/
def restartWalk (resolver : PathResolver ν) (followFinalSymlink : Bool) :
    ℕ → Option (Path → FSResult (FileLike ν × Path))
  | 0 => none
  | budget + 1 => some (resolveFrom resolver followFinalSymlink budget)

/-- First the root, then the walk. -/
theorem resolveFrom_eq (resolver : PathResolver ν) (followFinalSymlink : Bool) (budget : ℕ)
    (path : Path) : resolveFrom resolver followFinalSymlink budget path =
      resolver.resolveRoot >>= fun root =>
        walkComponents resolver followFinalSymlink (path.asString.getLast? = some '/')
          (restartWalk resolver followFinalSymlink budget) root (new ['/'])
          path.normalize.names := by
  cases budget <;> rfl

/-! ## Mounts -/

/-- The calls of mounted file systems that a walk makes, in one state of these file systems:
`lookup` of a file system and `get` of a directory. -/
structure FileSystems (φ ν : Type) where
  lookup : φ → Path → FSResult (FileLike ν)
  get : ν → Name → FSResult (FileLike ν)

/-- `MountSnapshot`. -/
structure MountSnapshot (φ : Type) where
  path : Path
  fs : φ
  sourcePath : Path
  flags : MountFlags
  deviceId : ℕ
  mountId : ℕ
deriving DecidableEq, Repr

variable {φ : Type}

/-- `join_mount_source`. -/
def joinMountSource (source suffix : Path) : Path :=
  source.joinPath suffix

/-- `find_mount_in_snapshots`: the first mount that the path is at or below, with the path in its
file system. -/
def findMountInSnapshots (path : Path) : List (MountSnapshot φ) → FSResult (MountSnapshot φ)
  | [] => .error .notFound
  | mount :: mounts =>
    match path.stripPrefix mount.path with
    | some stripped => .ok { mount with sourcePath := joinMountSource mount.sourcePath stripped }
    | none => findMountInSnapshots path mounts

variable (fss : FileSystems φ ν)

/-- `resolve_raw_with_mounts`. -/
def resolveRawWithMounts (path : Path) (mounts : List (MountSnapshot φ)) :
    FSResult (FileLike ν) := do
  let mount ← findMountInSnapshots path.normalize mounts
  fss.lookup mount.fs mount.sourcePath

/-- `SnapshotResolver`. A walk holds no link as its current node; there the source does not
return. -/
def snapshotResolver (mounts : List (MountSnapshot φ)) : PathResolver ν where
  resolveRoot := resolveRawWithMounts fss (new ['/']) mounts
  mountFlags path := do return (← findMountInSnapshots path mounts).flags
  lookupChild current nextPath component :=
    match current with
    | .directory node => do
      let mount ← findMountInSnapshots nextPath mounts
      if mount.path = nextPath then resolveRawWithMounts fss nextPath mounts
      else fss.get node component
    | .file _ => .error .notADirectory
    | .symlink _ _ => .error .other

/-- `resolve_with_mounts`. -/
def resolveWithMounts (path : Path) (followFinalSymlink : Bool)
    (mounts : List (MountSnapshot φ)) : FSResult (FileLike ν × Path) :=
  resolvePathWalk (snapshotResolver fss mounts) path followFinalSymlink

/-! ## The paths of a walk -/

/-- The names to which the target of a link leads that stands in the directory of the given
names. -/
def linkTarget (directory : List Name) (target : Path) : List Name :=
  if target.isAbsolute then resolve [] target.parts else resolve directory target.parts

/-- The names are joined one by one. -/
theorem foldl_joinComponent (names remainder : List Name) (slash : Bool) :
    remainder.foldl joinComponent (absolute names slash) =
      absolute (names ++ remainder) (slash && remainder.isEmpty) := by
  induction remainder generalizing names slash with
  | nil => simp
  | cons name remainder ih => simp [ih]

/-- The path that the walk goes on with at a link. The slash of the target is kept only if no name
is left. -/
theorem rewriteSymlinkTarget_absolute (directory : List Name) (name : Name) (slash : Bool)
    (target : Path) (remainder : List Name) :
    rewriteSymlinkTarget (absolute (directory ++ [name]) slash) target remainder =
      absolute (linkTarget directory target ++ remainder)
        (target.endsWithSlash && remainder.isEmpty) := by
  have htarget : (if target.isAbsolute then target
        else ((absolute (directory ++ [name]) slash).parent.getD (new ['/'])).joinPath
          target).normalize =
        absolute (linkTarget directory target) target.endsWithSlash := by
    unfold linkTarget
    grind [normalize_of_isAbsolute, parent_absolute_concat, joinPath_relative, normalize_absolute]
  unfold rewriteSymlinkTarget
  simp only [htarget]
  rw [foldl_joinComponent, normalize_absolute]

/-- The path of the root. -/
theorem new_root : new ['/'] = absolute [] false := rfl

/-- Both parts succeed. -/
theorem bind_eq_ok {α β ε : Type} {x : Except ε α} {f : α → Except ε β} {b : β} :
    x >>= f = .ok b ↔ ∃ a, x = .ok a ∧ f a = .ok b := by
  cases x with
  | error e =>
    refine ⟨fun h => ?_, ?_⟩
    · cases h
    · rintro ⟨a, ha, -⟩
      cases ha
  | ok a =>
  refine ⟨fun h => ⟨a, rfl, h⟩, ?_⟩
  rintro ⟨a', ha, hf⟩
  cases ha
  exact hf

section Invariant

variable {resolver : PathResolver ν} {I : List Name → Prop}

/-- A fact about the names that are still to be walked survives every link that the resolver has. -/
def LinksKeep (resolver : PathResolver ν) (I : List Name → Prop) : Prop :=
  ∀ current directory name node target remainder,
    resolver.lookupChild current (absolute (directory ++ [name]) false) name =
      .ok (.symlink node (.ok target)) →
    I (directory ++ name :: remainder) → I (linkTarget directory target ++ remainder)

/-- A walk that starts with the fact ends at a path that has it. -/
def WalkKeeps (I : List Name → Prop) (walk : Path → FSResult (FileLike ν × Path)) : Prop :=
  ∀ names slash entry path, I names → walk (absolute names slash) = .ok (entry, path) →
    ∃ final, path = absolute final false ∧ I final

variable {restart : Option (Path → FSResult (FileLike ν × Path))}

variable (hlinks : LinksKeep resolver I)

include hlinks

/-- A followed link keeps the invariant. -/
theorem followSymlink_keeps (hrestart : ∀ walk, restart = some walk → WalkKeeps I walk)
    {current : FileLike ν}
    {directory : List Name} {name : Name} {node : ν} {target : FSResult Path}
    {remainder : List Name} {entry : FileLike ν} {path : Path}
    (hlookup : resolver.lookupChild current (absolute (directory ++ [name]) false) name =
      .ok (.symlink node target)) (hI : I (directory ++ name :: remainder))
    (hrun : followSymlink resolver restart (absolute (directory ++ [name]) false) target
      remainder = .ok (entry, path)) :
    ∃ final, path = absolute final false ∧ I final := by
  obtain ⟨flags, -, hrun⟩ := bind_eq_ok.mp hrun
  split_ifs at hrun with hno
  · cases hrun
  cases restart with
  | none => cases hrun
  | some walk =>
    obtain ⟨t, rfl, hwalk⟩ := bind_eq_ok.mp hrun
    rw [rewriteSymlinkTarget_absolute] at hwalk
    exact hrestart walk rfl _ _ entry path (hlinks _ _ _ _ _ _ hlookup hI) hwalk

/-- The walk keeps the invariant. -/
theorem walkComponents_keeps (follow slash : Bool)
    (hrestart : ∀ walk, restart = some walk → WalkKeeps I walk) :
    ∀ (remainder : List Name) (current : FileLike ν) (directory : List Name) (entry : FileLike ν)
      (path : Path), I (directory ++ remainder) →
      walkComponents resolver follow slash restart current (absolute directory false)
        remainder = .ok (entry, path) →
      ∃ final, path = absolute final false ∧ I final := by
  intro remainder
  induction remainder with
  | nil =>
    intro current directory entry path hI hrun
    obtain ⟨rfl, rfl⟩ := Prod.mk.inj (Except.ok.inj hrun)
    exact ⟨directory, rfl, by simpa using hI⟩
  | cons name remainder ih =>
  intro current directory entry path hI hrun
  unfold walkComponents at hrun
  simp only [joinComponent_absolute] at hrun
  obtain ⟨next, hlookup, hrun⟩ := bind_eq_ok.mp hrun
  -- The walk ends here only if no name is left, and then the fact is about this very path.
  have hhere : remainder = [] → .ok (next, absolute (directory ++ [name]) false) =
      (.ok (entry, path) : FSResult (FileLike ν × Path)) →
      ∃ final, path = absolute final false ∧ I final := by
    grind
  cases next with
  | symlink node target =>
    dsimp only at hrun
    by_cases hfollow : remainder ≠ [] ∨ follow = true ∨ slash = true
    · grind [followSymlink_keeps]
    · rw [if_neg hfollow] at hrun
      exact hhere (not_not.mp fun h => hfollow (.inl h)) hrun
  | directory node =>
    by_cases hlast : remainder = []
    · rw [if_pos hlast] at hrun
      exact hhere hlast hrun
    · grind
  | file node =>
  by_cases hfail : remainder ≠ [] ∨ slash = true
  · rw [if_pos hfail] at hrun
    cases hrun
  · rw [if_neg hfail] at hrun
    exact hhere (not_not.mp fun h => hfail (.inl h)) hrun

/-- What a step keeps, the walk keeps. -/
theorem walk_invariant {follow : Bool} :
    ∀ (budget : ℕ) (path : Path) (entry : FileLike ν) (final : Path), I path.normalize.names →
      resolveFrom resolver follow budget path = .ok (entry, final) →
      ∃ names, final = absolute names false ∧ I names := by
  intro budget
  induction budget with
  | zero =>
    intro path entry final hI hrun
    obtain ⟨root, -, hrun⟩ := bind_eq_ok.mp hrun
    refine walkComponents_keeps hlinks follow _ ?_ _ root [] entry final hI hrun
    intro walk hwalk
    cases hwalk
  | succ budget ih =>
  intro path entry final hI hrun
  obtain ⟨root, -, hrun⟩ := bind_eq_ok.mp hrun
  refine walkComponents_keeps hlinks follow _ ?_ _ root [] entry final hI hrun
  intro walk hwalk names slash entry' path' hnames hrun'
  cases hwalk
  grind [normalize_absolute, absolute_names]

omit hlinks

end Invariant

end Seele.Filesystem
