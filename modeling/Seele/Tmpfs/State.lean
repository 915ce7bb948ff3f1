import Mathlib.Data.List.AList
import Seele.Lib.Cmd
import Seele.Filesystem.Resolve

/-!
# The state of `filesystem/tmpfs`

A `TmpfsState` keeps one tree four times: the texts of all paths with the inodes they name, the
inodes with their nodes, in every directory the names of its entries, and in every node the number
of its names. The operations update these one after another and return early on errors, so each of
them is a command that may fail after it has changed something (`Cmd`).

The paths that reach a file system come from `resolve_path_at` and are names below its root, without
`.`, `..` and a slash at the end: they are the values of `FsPath`. Counters are raised by checked
additions: a number that does not fit stops the kernel.
-/

namespace Seele.Tmpfs

open Seele.Lib Seele.Filesystem

/-! ## The state -/

/-- `ROOT_INODE`. -/
def ROOT_INODE : ℕ := 0x70000000

/-- `DEFAULT_DIR_MODE`. -/
def DEFAULT_DIR_MODE : UInt32 := 0o755

/-- `S_IFMT`. -/
def S_IFMT : UInt32 := 0o170000

/-- `usize::MAX` and `u64::MAX`. -/
def U64_MAX : ℕ := 0xffffffffffffffff

/-- `TmpNodeKind`. The entries of a directory are a set; the data of a file are left out. -/
inductive TmpNodeKind where
  | directory (children : List Name) (mode : UInt32)
  | file (mode : UInt32) (rdev : UInt64)
  | device (mode : UInt32) (rdev : UInt64)
  | symlink (target : List Char)
deriving DecidableEq, Repr

/-- `TmpNode`, without the times and the attributes, which the operations on the tree only set. -/
structure TmpNode where
  inode : ℕ
  uid : UInt32
  gid : UInt32
  linkCount : ℕ
  openCount : ℕ
  kind : TmpNodeKind
deriving DecidableEq, Repr

/-- `TmpfsState`, without the quotas. -/
structure TmpfsState where
  nextInode : ℕ
  paths : AList fun _ : List Char => ℕ
  nodes : AList fun _ : ℕ => TmpNode

/-- `TmpfsState::new`. -/
def TmpfsState.new : TmpfsState where
  nextInode := ROOT_INODE + 1
  paths := AList.singleton ['/'] ROOT_INODE
  nodes := AList.singleton ROOT_INODE ⟨ROOT_INODE, 0, 0, 1, 0, .directory [] DEFAULT_DIR_MODE⟩

/-- A command on the state of a tmpfs. -/
abbrev TmpfsM := Cmd FSError TmpfsState

/-! ## The maps -/

/-- `paths.insert`. -/
def insertPath (path : List Char) (inode : ℕ) : TmpfsM Unit := do
  let s ← Cmd.get
  if path ∈ s.paths ∨ s.paths.keys.length < U64_MAX then
    Cmd.modify fun s => { s with paths := s.paths.insert path inode }
  else Cmd.panic

/-- `paths.remove(..).ok_or(..)`. -/
def removePath (path : List Char) : TmpfsM ℕ := do
  let s ← Cmd.get
  match s.paths.lookup path with
  | none => Cmd.throw .notFound
  | some inode => do
    Cmd.modify fun s => { s with paths := s.paths.erase path }
    return inode

/-- `nodes.insert`, and a change of a node in place. -/
def setNode (inode : ℕ) (node : TmpNode) : TmpfsM Unit :=
  Cmd.modify fun s => { s with nodes := s.nodes.insert inode node }

/-- `normalize`. -/
def normalize (path : List Char) : List Char :=
  if path = [] ∨ path = ['/'] then ['/'] else (Path.new path).normalize.asString

/-- `child_path`. -/
def childPath (parent : List Char) (name : Name) : List Char :=
  if parent = ['/'] then '/' :: name else parent ++ '/' :: name

/-- `inode_for_path`. -/
def inodeForPath (path : List Char) : TmpfsM ℕ := do
  let s ← Cmd.get
  match s.paths.lookup path with
  | none => Cmd.throw .notFound
  | some inode => return inode

/-- `node_by_inode` and `node_by_inode_mut`. -/
def nodeByInode (inode : ℕ) : TmpfsM TmpNode := do
  let s ← Cmd.get
  match s.nodes.lookup inode with
  | none => Cmd.throw .notFound
  | some node => return node

/-- `node` and `node_mut`. -/
def node (path : List Char) : TmpfsM TmpNode := do
  nodeByInode (← inodeForPath path)

/-- `directory_children_mut`, to look at the entries. -/
def directoryChildren (path : List Char) : TmpfsM (List Name) := do
  match (← node path).kind with
  | .directory children _ => return children
  | .file _ _ | .device _ _ | .symlink _ => Cmd.throw .notADirectory

/-- `directory_children_mut`, to change the entries. -/
def updateChildren (path : List Char) (f : List Name → List Name) : TmpfsM Unit := do
  let inode ← inodeForPath path
  let node ← nodeByInode inode
  match node.kind with
  | .directory children mode => setNode inode { node with kind := .directory (f children) mode }
  | .file _ _ | .device _ _ | .symlink _ => Cmd.throw .notADirectory

/-! ## Creating and deleting -/

/-- The kind of a new node: a directory takes the set-group-ID bit over from its parent. -/
def inheritSetgid (parentSetgid : Bool) : TmpNodeKind → TmpNodeKind
  | .directory children mode =>
    .directory children (if parentSetgid then mode ||| 0o2000 else mode)
  | kind => kind

variable (owner : UInt32 × UInt32)

/-- `create_node`, by a process with the owner ids `owner`. -/
def createNode (parent : List Char) (name : Name) (kind : TmpNodeKind) :
    TmpfsM Unit := do
  let parent := normalize parent
  let child := childPath parent name
  if child ∈ (← Cmd.get).paths then Cmd.throw .alreadyExists
  let parentNode ← node parent
  match parentNode.kind with
  | .directory _ mode => do
    let parentSetgid := decide (mode &&& 0o2000 ≠ 0)
    let inode := (← Cmd.get).nextInode
    if U64_MAX ≤ inode then Cmd.panic
    Cmd.modify fun s => { s with nextInode := inode + 1 }
    let gid := if parentSetgid then parentNode.gid else owner.2
    insertPath child inode
    setNode inode ⟨inode, owner.1, gid, 1, 0, inheritSetgid parentSetgid kind⟩
    updateChildren parent (List.insert name)
  | .file _ _ | .device _ _ | .symlink _ => Cmd.throw .notADirectory

/-- `create_file`. -/
def createFile (parent : List Char) (name : Name) (mode : UInt32) (rdev : UInt64) : TmpfsM Unit :=
  createNode owner parent name
    (if mode &&& S_IFMT = 0o020000 ∨ mode &&& S_IFMT = 0o060000 then .device mode rdev
      else .file mode rdev)

/-- `create_directory`. -/
def createDirectory (parent : List Char) (name : Name) (mode : UInt32) :
    TmpfsM Unit :=
  createNode owner parent name (.directory [] (mode &&& 0o7777))

/-- `create_symlink`. -/
def createSymlink (parent : List Char) (name : Name) (target : List Char) : TmpfsM Unit :=
  createNode owner parent name (.symlink target)

/-- The part of `delete_node` that changes the state: the entry `name` is the path `child` of the
node. -/
def removeEntry (parent child : List Char) (name : Name) (inode : ℕ) (node : TmpNode) :
    TmpfsM Unit := do
  let removeNode := decide (node.linkCount = 1)
  if !removeNode then
    if node.linkCount = 0 then Cmd.throw .other
    setNode inode { node with linkCount := node.linkCount - 1 }
  Cmd.modify fun s => { s with paths := s.paths.erase child }
  updateChildren parent (List.erase · name)
  if removeNode then
    let node ← nodeByInode inode
    if node.openCount = 0 then
      Cmd.modify fun s => { s with nodes := s.nodes.erase inode }
    else setNode inode { node with linkCount := 0 }

/-- `delete_node`. -/
def deleteNode (parent : List Char) (name : Name) : TmpfsM Unit := do
  let parent := normalize parent
  let child := childPath parent name
  let inode ← inodeForPath child
  let node ← nodeByInode inode
  match node.kind with
  | .directory (_ :: _) _ => Cmd.throw .directoryNotEmpty
  | _ => removeEntry parent child name inode node

/-! ## Opening and closing -/

/-- `retain_inode`. -/
def retainInode (inode : ℕ) : TmpfsM Unit := do
  let node ← nodeByInode inode
  if U64_MAX ≤ node.openCount then Cmd.throw .other
  setNode inode { node with openCount := node.openCount + 1 }

/-- `release_inode`. -/
def releaseInode (inode : ℕ) : TmpfsM Unit := do
  let node ← nodeByInode inode
  if node.openCount = 0 then Cmd.throw .other
  setNode inode { node with openCount := node.openCount - 1 }
  if node.openCount - 1 = 0 ∧ node.linkCount = 0 then
    Cmd.modify fun s => { s with nodes := s.nodes.erase inode }

/-- The handles that `tmpfs_lookup_path` gives. -/
inductive TmpfsHandle where
  | directory (path : List Char)
  | file (path : List Char) (inode : ℕ)
  | device (inode : ℕ) (rdev : UInt64)
  | symlink (path : List Char)
deriving DecidableEq, Repr

/-- `tmpfs_lookup_path`. A handle on a file or a device keeps its inode open. -/
def tmpfsLookupPath (path : List Char) : TmpfsM TmpfsHandle := do
  let path := normalize path
  let found ← node path
  match found.kind with
  | .directory _ _ => return .directory path
  | .symlink _ => return .symlink path
  | .file _ _ | .device _ _ => do
    retainInode found.inode
    match (← nodeByInode found.inode).kind with
    | .device _ rdev => return .device found.inode rdev
    | .directory _ _ | .file _ _ | .symlink _ => return .file path found.inode

/-! ## Linking and renaming -/

/-- `split_path`. -/
def splitPath (path : List Char) : FSResult (List Char × Name) :=
  let path := normalize path
  if path = ['/'] then .error .accessDenied
  else
    match (Path.new path).parent, (Path.new path).fileName with
    | none, _ => .error .notFound
    | some _, none => .error .notFound
    | some parent, some name => .ok (parent.asString, name)

/-- A result that does not depend on the state. -/
def liftResult {α : Type} : FSResult α → TmpfsM α
  | .error e => Cmd.throw e
  | .ok a => return a

/-- `delete_path`. -/
def deletePath (path : List Char) : TmpfsM Unit := do
  let (parent, name) ← liftResult (splitPath path)
  deleteNode parent name

/-- The part of `link_inode` that changes the state. -/
def addLink (inode : ℕ) (newPath newParent : List Char) (newName : Name) : TmpfsM Unit := do
  insertPath newPath inode
  updateChildren newParent (List.insert newName)
  let node ← nodeByInode inode
  if U64_MAX ≤ node.linkCount then Cmd.throw .other
  setNode inode { node with linkCount := node.linkCount + 1 }

/-- `link_inode`. -/
def linkInode (inode : ℕ) (newPath : List Char) : TmpfsM Unit := do
  let newPath := normalize newPath
  if newPath = ['/'] then Cmd.throw .accessDenied
  if newPath ∈ (← Cmd.get).paths then Cmd.throw .alreadyExists
  match (← nodeByInode inode).kind with
  | .directory _ _ | .symlink _ => Cmd.throw .other
  | .file _ _ | .device _ _ => do
    let (newParent, newName) ← liftResult (splitPath newPath)
    let _ ← directoryChildren newParent
    addLink inode newPath newParent newName

/-- `link`. -/
def link (oldPath newPath : List Char) : TmpfsM Unit := do
  linkInode (← inodeForPath (normalize oldPath)) newPath

/-- `matches!(kind, Directory { .. })`. -/
def TmpNodeKind.isDirectory : TmpNodeKind → Bool
  | .directory _ _ => true
  | _ => false

/-- The loop of `rename` that takes the moved paths out of the map. -/
def takePaths (oldPath : List Char) : List (List Char) → TmpfsM (List (List Char × ℕ))
  | [] => return []
  | path :: rest => do
    if ¬ oldPath <+: path then Cmd.throw .other
    let inode ← removePath path
    let moved ← takePaths oldPath rest
    return (path.drop oldPath.length, inode) :: moved

/-- The path is the old one or below it. -/
def isMoved (oldPath path : List Char) : Bool :=
  path = oldPath ∨ oldPath ++ ['/'] <+: path

/-- The part of `rename` that deletes what is at the new path. -/
def clearTarget (sourceIsDir : Bool) (newPath : List Char) : TmpfsM Unit := do
  match ← (node newPath).attempt with
  | .error _ => pure ()
  | .ok target => do
    let targetIsDir := target.kind.isDirectory
    if sourceIsDir ∧ ¬ targetIsDir then Cmd.throw .notADirectory
    if ¬ sourceIsDir ∧ targetIsDir then Cmd.throw .notAFile
    deletePath newPath

/-- The part of `rename` that moves the old path, and all below it, to a free place. -/
def moveEntry (oldPath newPath oldParent newParent : List Char) (oldName newName : Name) :
    TmpfsM Unit := do
  let moved ← takePaths oldPath ((← Cmd.get).paths.keys.filter (isMoved oldPath))
  updateChildren oldParent (List.erase · oldName)
  updateChildren newParent (List.insert newName)
  Cmd.each (fun entry => insertPath (newPath ++ entry.1) entry.2) moved

/-- `rename`. -/
def rename (oldPath newPath : List Char) : TmpfsM Unit := do
  let oldPath := normalize oldPath
  let newPath := normalize newPath
  if oldPath = newPath then return ()
  if oldPath = ['/'] ∨ newPath = ['/'] then Cmd.throw .accessDenied
  let (oldParent, oldName) ← liftResult (splitPath oldPath)
  let (newParent, newName) ← liftResult (splitPath newPath)
  let sourceIsDir := (← node oldPath).kind.isDirectory
  if sourceIsDir ∧ oldPath ++ ['/'] <+: newPath then Cmd.throw .accessDenied
  let _ ← directoryChildren oldParent
  let _ ← directoryChildren newParent
  clearTarget sourceIsDir newPath
  moveEntry oldPath newPath oldParent newParent oldName newName

/-! ## The file system -/

/-- `absolute_tmp_path`. -/
def absoluteTmpPath (path : Path) : List Char :=
  let parts := path.normalize.names
  if parts = [] then ['/'] else '/' :: ['/'].intercalate parts

/-- A path as it reaches a file system: names below its root. -/
structure FsPath where
  names : List Name
  valid : ∀ name ∈ names, Path.ValidName name

/-- The `Path` of the names. -/
def FsPath.path (path : FsPath) : Path := Path.absolute path.names false

/-- The operations on a tmpfs: those of the file system, of a handle on a directory, which knows the
text of its path, and of a handle on a file, which knows its inode. -/
inductive TmpfsOp where
  | createFile (owner : UInt32 × UInt32) (directory : List Char)
      (name : { name : Name // Path.ValidName name }) (mode : UInt32) (rdev : UInt64)
  | createDirectory (owner : UInt32 × UInt32) (directory : List Char)
      (name : { name : Name // Path.ValidName name }) (mode : UInt32)
  | createSymlink (owner : UInt32 × UInt32) (directory : List Char)
      (name : { name : Name // Path.ValidName name }) (target : List Char)
  | delete (directory : List Char) (name : { name : Name // Path.ValidName name })
  | link (oldPath newPath : FsPath)
  | linkTo (inode : ℕ) (newPath : FsPath)
  | rename (oldPath newPath : FsPath)
  | lookup (path : FsPath)
  | get (directory : List Char) (name : { name : Name // Path.ValidName name })
  | close (inode : ℕ)

/-- An operation as a command. The handle that a lookup gives is not part of its effect. -/
def TmpfsOp.run : TmpfsOp → TmpfsM Unit
  | .createFile owner directory name mode rdev =>
    Tmpfs.createFile owner directory name.1 mode rdev
  | .createDirectory owner directory name mode =>
    Tmpfs.createDirectory owner directory name.1 mode
  | .createSymlink owner directory name target =>
    Tmpfs.createSymlink owner directory name.1 target
  | .delete directory name => deleteNode directory name.1
  | .link oldPath newPath =>
    Tmpfs.link (absoluteTmpPath oldPath.path) (absoluteTmpPath newPath.path)
  | .linkTo inode newPath => linkInode inode newPath.path.normalize.asString
  | .rename oldPath newPath =>
    Tmpfs.rename (absoluteTmpPath oldPath.path) (absoluteTmpPath newPath.path)
  | .lookup path => do
    let _ ← tmpfsLookupPath (absoluteTmpPath path.path)
  | .get directory name => do
    let _ ← tmpfsLookupPath (childPath directory name.1)
  | .close inode => releaseInode inode

end Seele.Tmpfs
