import Seele.Filesystem.Resolve

/-!
# What a changed root directory keeps in

A process with a root directory of its own names files through `resolve_path_at`, and the path that
this gives is walked from the root of the whole tree. `join_under_root`, for absolute paths, is
given the root directory and does not leave it. `push_path_str`, for paths relative to the current
directory, and `rewrite_symlink_target` are not given it: a `..` too many, or a link with an
absolute target, leads outside.

A process stays inside with every path exactly if its root directory is the root of the tree
(`stays_inside_iff`). Under any other root directory it stays inside with the paths whose `..` keep
to it, in a tree whose links keep to it.
-/

namespace Seele.Filesystem

open AbsolutePath List

variable {ν : Type}

/-! ## The system calls' paths -/

/-- The errors of `SyscallError` that the calls on paths give. -/
inductive SyscallError where
  | badAddress
  | pathTooLong
  | fileNotFound
  | notADirectory
  | badFileDescriptor
  | invalidArguments
deriving DecidableEq, Repr

/-- `AT_FDCWD`. -/
def AT_FDCWD : ℤ := -100

/-- The directories of an `fs_context`. -/
structure FsContext where
  rootDirectory : AbsolutePath
  currentDirectory : AbsolutePath
deriving DecidableEq, Repr

variable (fsContext : FsContext)

/-- `resolve_path_at`. `directoryOf` is the path of the directory that a descriptor is open on, or
why there is none. -/
def resolvePathAt (directoryOf : ℤ → Except SyscallError Path) (dirfd : ℤ)
    (pathStr : List Char) : Except SyscallError Path :=
  if pathStr = [] then .error .fileNotFound
  else if (Path.new pathStr).isAbsolute then
    .ok (joinUnderRoot fsContext.rootDirectory fsContext.currentDirectory
      (Path.new pathStr)).asNormal
  else if dirfd = AT_FDCWD then .ok (fsContext.currentDirectory.pushPathStr pathStr).asNormal
  else do
    let base := fromRootPath (← directoryOf dirfd)
    let base := joinUnderRoot base base (Path.new ['.'])
    return (base.pushPathStr pathStr).asNormal

/-! ## The properties -/

/-- Whatever a path string reaches has the root directory in front of its path. -/
def StaysInside (resolver : PathResolver ν) (pathStr : List Char) : Prop :=
  ∀ directoryOf start follow entry path,
    resolvePathAt fsContext directoryOf AT_FDCWD pathStr = .ok start →
    resolvePathWalk resolver start follow = .ok (entry, path) →
    path.startsWith fsContext.rootDirectory.asNormal = true

/-- The path string is absolute, or its `..` lead from the current directory to names below the root
directory. -/
def DotsStayInside (pathStr : List Char) : Prop :=
  (Path.new pathStr).isAbsolute = true ∨
    fsContext.rootDirectory.names <+:
      Path.resolve fsContext.currentDirectory.names (Path.new pathStr).parts

/-- No link stands on the way to the root directory, and the target of every link below it is below
it. -/
def LinksStayInside (resolver : PathResolver ν) (rootDirectory : AbsolutePath) : Prop :=
  ∀ current directory name node target,
    resolver.lookupChild current (Path.absolute (directory ++ [name]) false) name =
      .ok (.symlink node (.ok target)) →
    ¬ directory ++ [name] <+: rootDirectory.names ∧
      (rootDirectory.names <+: directory ++ [name] →
        rootDirectory.names <+: linkTarget directory target)

/-! ## The three joiners -/

variable {path : Path}

/-- A joined path stays below the root. -/
theorem joinUnderRoot_inside (root current : AbsolutePath)
    (hstart : root.names <+: if path.isAbsolute then root.names else current.names) :
    root.names <+: (joinUnderRoot root current path).names := by
  have hstep : ∀ (names : List Name) (part : PathPart), root.names <+: names →
      root.names <+: pushUnderRoot root names part := by
    intro names part hnames
    cases part with
    | normal component => exact hnames.trans (prefix_append names [component])
    | root | currentDir => exact hnames
    | parentDir =>
    unfold pushUnderRoot
    by_cases hlt : root.names.length < names.length
    · -- There is a name behind those of the root directory, and it is the last that goes.
      obtain ⟨rest, rfl⟩ := hnames
      grind
    · dsimp only
      rw [if_neg hlt]
      exact hnames
  have hfold : ∀ (parts : List PathPart) (names : List Name), root.names <+: names →
      root.names <+: parts.foldl (pushUnderRoot root) names := by
    intro parts
    induction parts with
    | nil => exact fun names hnames => hnames
    | cons part parts ih => exact fun names hnames => ih _ (hstep names part hnames)
  exact hfold path.parts _ hstart

/-- The start of a walk lies below the root. -/
theorem resolvePathAt_inside {fsContext : FsContext} {pathStr : List Char}
    (hdots : DotsStayInside fsContext pathStr) {directoryOf : ℤ → Except SyscallError Path}
    {start : Path} (hstart : resolvePathAt fsContext directoryOf AT_FDCWD pathStr = .ok start) :
    ∃ names, start = Path.absolute names false ∧ fsContext.rootDirectory.names <+: names := by
  unfold resolvePathAt at hstart
  by_cases hempty : pathStr = []
  · rw [if_pos hempty] at hstart
    cases hstart
  rw [if_neg hempty] at hstart
  by_cases habs : (Path.new pathStr).isAbsolute = true
  · rw [if_pos habs] at hstart
    cases hstart
    refine ⟨_, rfl, joinUnderRoot_inside _ _ ?_⟩
    rewrite [if_pos habs]
    exact prefix_refl _
  rw [if_neg habs, if_pos rfl] at hstart
  cases hstart
  refine ⟨_, rfl, ?_⟩
  unfold pushPathStr
  rw [if_neg habs]
  exact hdots.resolve_left habs

variable {resolver : PathResolver ν} {rootDirectory : AbsolutePath}

/-- Links that stay inside keep the walk there. -/
theorem LinksStayInside.keep (hlinks : LinksStayInside resolver rootDirectory) :
    LinksKeep resolver (rootDirectory.names <+: ·) := by
  intro current directory name node target remainder hlookup hinside
  obtain ⟨hnot, hkeep⟩ := hlinks current directory name node target hlookup
  have hinside' : rootDirectory.names <+: (directory ++ [name]) ++ remainder := by
    simpa using hinside
  have hordered := prefix_or_prefix_of_prefix hinside' (prefix_append _ _)
  grind

/-! ## The way out -/

/-- The text of `n + 1` times `..`. -/
def dots (n : ℕ) : List Char :=
  ['/'].intercalate (List.replicate (n + 1) ['.', '.'])

/-- The parts of a row of dots. -/
theorem new_dots (n : ℕ) : (Path.new (dots n)).parts = replicate (n + 1) .parentDir := by
  have hsplit : (dots n).splitOn '/' = replicate (n + 1) ['.', '.'] := by
    refine splitOn_intercalate '/' ?_ (by simp)
    intro l hl
    obtain rfl := eq_of_mem_replicate hl
    decide
  have hhead : (dots n).head? = some '.' := by
    cases n <;> rfl
  have hne : dots n ≠ [] := by
    intro h
    rw [h] at hhead
    cases hhead
  unfold Path.new
  rw [if_neg hne]
  unfold Path.parse
  rw [hhead, hsplit, if_neg (by decide), filterMap_replicate]
  rfl

/-- Enough dots lead to the real root. -/
theorem resolvePathAt_dots (directoryOf : ℤ → Except SyscallError Path) :
    resolvePathAt fsContext directoryOf AT_FDCWD (dots fsContext.currentDirectory.names.length) =
      .ok (Path.absolute [] false) := by
  have hparts := new_dots fsContext.currentDirectory.names.length
  have hrel : (Path.new (dots fsContext.currentDirectory.names.length)).isAbsolute = false := by
    unfold Path.isAbsolute
    rw [hparts]
    rfl
  have hne : dots fsContext.currentDirectory.names.length ≠ [] := by grind [Path.new, Path.parse]
  have hpush : fsContext.currentDirectory.pushPathStr
      (dots fsContext.currentDirectory.names.length) = root := by
    unfold pushPathStr
    rw [hrel, if_neg Bool.false_ne_true, hparts]
    exact congrArg mk (Path.resolve_parentDirs _ _ (Nat.le_succ _))
  unfold resolvePathAt
  rw [if_neg hne, hrel, if_neg Bool.false_ne_true, if_pos rfl, hpush]
  rfl

/-! ## The theorem -/

variable {follow : Bool}

/-- The walk stays below the root. -/
theorem resolvePathWalk_inside (hlinks : LinksStayInside resolver rootDirectory) {names : List Name}
    (hnames : rootDirectory.names <+: names) {entry : FileLike ν}
    (hwalk : resolvePathWalk resolver (Path.absolute names false) follow = .ok (entry, path)) :
    path.startsWith rootDirectory.asNormal = true := by
  unfold resolvePathWalk at hwalk
  grind [Path.normalize_absolute, Path.absolute_names, walk_invariant, hlinks.keep,
    asNormal_eq, Path.startsWith_absolute]

/-- The real root is found. -/
theorem resolvePathWalk_root {root : FileLike ν} (hroot : resolver.resolveRoot = .ok root) :
    resolvePathWalk resolver (Path.absolute [] false) follow =
      .ok (root, Path.absolute [] false) := by
  unfold resolvePathWalk
  rw [resolveFrom_eq, hroot]
  rfl

/-- In a tree with a root, a process stays inside its root directory with every path string exactly
if that is the root of the tree. Under any root directory it stays inside with a path string whose
`..` keep to the root directory, if the links do too. -/
theorem stays_inside_iff (fsContext : FsContext) (resolver : PathResolver ν) {root : FileLike ν}
    (hroot : resolver.resolveRoot = .ok root) :
    ((∀ pathStr, StaysInside fsContext resolver pathStr) ↔
        fsContext.rootDirectory = AbsolutePath.root) ∧
      ∀ pathStr, DotsStayInside fsContext pathStr →
        LinksStayInside resolver fsContext.rootDirectory →
        StaysInside fsContext resolver pathStr := by
  refine ⟨⟨?_, ?_⟩, ?_⟩
  · -- As many `..` as the current directory has names lead to the root of the tree.
    intro hall
    have hinside := hall _ (fun _ => .error .badFileDescriptor) _ true _ _
      (resolvePathAt_dots fsContext _) (resolvePathWalk_root hroot)
    rw [asNormal_eq, Path.startsWith_absolute, prefix_nil] at hinside
    exact congrArg mk hinside
  · -- The root of the tree is in front of every path.
    intro hctx pathStr directoryOf start follow entry path hstart hwalk
    have hany : LinksKeep resolver (fun _ => True) := fun _ _ _ _ _ _ _ _ => trivial
    obtain ⟨names, rfl, -⟩ := walk_invariant hany MAX_SYMLINKS _ entry path trivial hwalk
    rw [hctx, asNormal_eq, Path.startsWith_absolute]
    exact nil_prefix
  · intro pathStr hdots hlinks directoryOf start follow entry path hstart hwalk
    grind [resolvePathAt_inside, resolvePathWalk_inside]

/-- The name of the directory in the following tree. -/
def jail : Name := ['j', 'a', 'i', 'l']

/-- The name of the link in the following tree. -/
def link : Name := ['l', 'i', 'n', 'k']

/-- A tree with the directory `/jail` and in it a link with the given target. -/
def jailTree (target : Path) : FileSystems Unit (List Name) where
  lookup _ _ := .ok (.directory [])
  get directory name :=
    if directory = [] ∧ name = jail then .ok (.directory [jail])
    else if directory = [jail] ∧ name = link then .ok (.symlink [jail, link] (.ok target))
    else .error .notFound

/-- The walk in that tree. -/
def jailResolver (target : Path) : PathResolver (List Name) :=
  snapshotResolver (jailTree target) [⟨Path.new ['/'], (), Path.new ['/'], .empty, 1, 1⟩]

/-- A process whose root directory and current directory are `/jail`. -/
def jailContext : FsContext := ⟨⟨[jail]⟩, ⟨[jail]⟩⟩

/-- The process in `/jail` leaves it with `..`, and with `/link` through a link to `/`. -/
theorem dots_leave_jail : ¬ StaysInside jailContext (jailResolver (Path.new ['/'])) ['.', '.'] ∧
      ¬ StaysInside jailContext (jailResolver (Path.new ['/'])) ('/' :: link) := by
  constructor
  · intro h
    have hinside := h (fun _ => .error .badFileDescriptor) _ true (.directory []) _ rfl rfl
    revert hinside
    decide
  intro h
  have hinside := h (fun _ => .error .badFileDescriptor) _ true (.directory [])
    (.absolute [] false) rfl rfl
  revert hinside
  decide

/-- The links of this tree stay inside. -/
theorem jailTree_linksStayInside :
    LinksStayInside (jailResolver (Path.absolute [jail] false)) ⟨[jail]⟩ := by
  intro current directory name node target hlookup
  cases current with
  | file node' | symlink node' target' => cases hlookup
  | directory node' =>
  have hget : (jailTree (.absolute [jail] false)).get node' name =
      .ok (.symlink node (.ok target)) := by
    have hmount : findMountInSnapshots (.absolute (directory ++ [name]) false)
        [⟨Path.new ['/'], (), Path.new ['/'], .empty, 1, 1⟩] =
        .ok ⟨.new ['/'], (), .absolute (directory ++ [name]) false, .empty, 1, 1⟩ := by
      simp [new_root, Path.stripPrefix_absolute, findMountInSnapshots, joinMountSource]
    obtain ⟨mount, hfound, hlookup⟩ := bind_eq_ok.mp hlookup
    rw [hmount] at hfound
    cases hfound
    rwa [if_neg (by simp [new_root])] at hlookup
  unfold jailTree at hget
  dsimp only at hget
  by_cases hdir : node' = [] ∧ name = jail
  · rw [if_pos hdir] at hget
    cases hget
  rw [if_neg hdir] at hget
  by_cases hlink : node' = [jail] ∧ name = link
  · rw [if_pos hlink] at hget
    obtain ⟨-, rfl⟩ := hlink
    cases hget
    refine ⟨?_, fun _ => prefix_refl _⟩
    rintro ⟨rest, hrest⟩
    have hmem : link ∈ directory ++ [link] ++ rest := by simp
    rw [hrest] at hmem
    revert hmem
    decide
  · rw [if_neg hlink] at hget
    cases hget

/-- Through a link to `/jail` the process in `/jail` stays inside. -/
theorem stays_inside_jail :
    StaysInside jailContext (jailResolver (Path.absolute [jail] false)) ('/' :: link) :=
  (stays_inside_iff jailContext (jailResolver (.absolute [jail] false)) rfl).2 _
    (.inl (by decide)) jailTree_linksStayInside

end Seele.Filesystem
