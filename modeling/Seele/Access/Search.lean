import Seele.Access.Permissions

/-!
# Search permission on the way to a file

Before a path is resolved, `check_access_path_search_permissions` opens every proper prefix of it
and checks that the directory it leads to may be searched. `resolve_path_walk` starts again at the
root whenever it meets a link, with the target of the link in front of the names that are left. So
it also looks names up in the directories on the way of the targets, and nobody checks those
(`unsearchable_directory_passed`).

`searchedDirectories` lists the directories in which a walk looks a name up, and how many of the
names before it still come from targets. `opened_of_searched` compares the two traversals: if no
name from a target is left, the walk is in the directory that opening the prefix leads to.
`search_sound_iff` says that nothing else is missing.
-/

namespace Seele.Access

open Seele.Filesystem Path List

variable {ν : Type}

/-! ## The check -/

/-- A check that returns, fails, or stops the kernel. -/
abbrev Checked := ExceptT SyscallError Option

/-- The result of a call of the file system. -/
def liftFs {α : Type} : FSResult α → Checked α
  | .ok a => pure a
  | .error e => throw (.fs e)

/-- What a file says about itself, and what is left of opening it once the path has been resolved.
-/
structure OpenFiles (ν : Type) where
  info : FileLike ν → FSResult LinuxStat
  attach : FileLike ν → Path → FSResult Unit

/-- `stat` of an opened file. -/
def OpenFiles.stat (files : OpenFiles ν) (file : FileLike ν) : LinuxStat :=
  match files.info file with
  | .ok stat => stat
  | .error _ => ⟨0, 0, 0⟩

/-- `open_path`. -/
def openPath (resolver : PathResolver ν) (files : OpenFiles ν) (path : Path) :
    FSResult (FileLike ν) := do
  let (file, resolvedPath) ← resolvePathWalk resolver path.normalize true
  files.attach file resolvedPath
  return file

/-- The loop of `check_access_path_search_permissions`. -/
def checkPrefixes (resolver : PathResolver ν) (files : OpenFiles ν)
    (credentials : AccessCredentials) : Path → List Name → Checked Unit
  | _, [] => pure ()
  | front, component :: rest => do
    let front := front.joinComponent component
    let directory ← liftFs (openPath resolver files front)
    let _ ← liftFs (files.info directory)
    match directory with
    | .file _ | .symlink _ _ => throw .notADirectory
    | .directory _ => do
      checkAccessPermissionsForIds (files.stat directory) 1 credentials
      checkPrefixes resolver files credentials front rest

/-- `check_access_path_search_permissions`. -/
def checkAccessPathSearchPermissions (resolver : PathResolver ν) (files : OpenFiles ν) (path : Path)
    (credentials : AccessCredentials) : Checked Unit :=
  if credentials.uid = 0 then pure ()
  else if path.normalize.names = [] then pure ()
  else do
    let root ← liftFs (openPath resolver files (new ['/']))
    checkAccessPermissionsForIds (files.stat root) 1 credentials
    checkPrefixes resolver files credentials (new ['/']) path.normalize.names.dropLast

/-- The credentials allow to search the directory. -/
def CanSearch (files : OpenFiles ν) (credentials : AccessCredentials) (directory : FileLike ν) :
    Prop :=
  checkAccessPermissionsForIds (files.stat directory) 1 credentials = some (.ok ())

/-! ## The directories of a walk -/

/-- A directory in which a walk looks the first of the names that are left up. `inTarget` of these
names come from targets of links. -/
structure Searched (ν : Type) where
  directory : FileLike ν
  inTarget : ℕ
  left : List Name

/-- What `followSymlink` searches. -/
def searchSymlink (resolver : PathResolver ν) (restart : Option (ℕ → Path → List (Searched ν)))
    (inTarget : ℕ) (nextPath : Path) (target : FSResult Path) (remainder : List Name) :
    List (Searched ν) :=
  match resolver.mountFlags nextPath, restart, target with
  | .ok flags, some walk, .ok target =>
    if flags.contains .MS_NOSYMFOLLOW then []
    else walk ((rewriteSymlinkTarget nextPath target []).names.length + inTarget)
      (rewriteSymlinkTarget nextPath target remainder)
  | _, _, _ => []

/-- What `walkComponents` searches. -/
def searchComponents (resolver : PathResolver ν) (followFinalSymlink hadTrailingSlash : Bool)
    (restart : Option (ℕ → Path → List (Searched ν))) :
    ℕ → FileLike ν → Path → List Name → List (Searched ν)
  | _, _, _, [] => []
  | inTarget, current, currentPath, component :: remainder =>
    let nextPath := currentPath.joinComponent component
    ⟨current, inTarget, component :: remainder⟩ ::
      match resolver.lookupChild current nextPath component with
      | .error _ | .ok (.file _) => []
      | .ok (.symlink _ target) =>
        if remainder ≠ [] ∨ followFinalSymlink ∨ hadTrailingSlash then
          searchSymlink resolver restart (inTarget - 1) nextPath target remainder
        else []
      | .ok (.directory next) =>
        searchComponents resolver followFinalSymlink hadTrailingSlash restart (inTarget - 1)
          (.directory next) nextPath remainder

/-- What `resolveFrom` searches. -/
def searchFrom (resolver : PathResolver ν) (followFinalSymlink : Bool) :
    ℕ → ℕ → Path → List (Searched ν)
  | budget, inTarget, path =>
    match resolver.resolveRoot with
    | .error _ => []
    | .ok root =>
      searchComponents resolver followFinalSymlink (path.asString.getLast? = some '/')
        (match budget with
          | 0 => none
          | budget + 1 => some (searchFrom resolver followFinalSymlink budget))
        inTarget root (new ['/']) path.normalize.names

/-- The directories in which `resolve_path_walk` looks names up. -/
def searchedDirectories (resolver : PathResolver ν) (path : Path) (followFinalSymlink : Bool) :
    List (Searched ν) :=
  searchFrom resolver followFinalSymlink MAX_SYMLINKS 0 path.normalize

/-- The search that is left after a link has been followed. -/
def restartSearch (resolver : PathResolver ν) (followFinalSymlink : Bool) :
    ℕ → Option (ℕ → Path → List (Searched ν))
  | 0 => none
  | budget + 1 => some (searchFrom resolver followFinalSymlink budget)

variable {resolver : PathResolver ν}

/-- The search after the root is resolved. -/
theorem searchFrom_eq {root : FileLike ν} (hroot : resolver.resolveRoot = .ok root) (follow : Bool)
    (budget inTarget : ℕ) (path : Path) : searchFrom resolver follow budget inTarget path =
      searchComponents resolver follow (path.asString.getLast? = some '/')
        (restartSearch resolver follow budget) inTarget root (new ['/'])
        path.normalize.names := by
  cases budget <;> (unfold searchFrom; rw [hroot]; rfl)

/-! ## The walk meets no other directory

A resolver that refuses to look names up in all directories but those of the list leads to the same
result, so the list misses no directory of the walk. -/

/-- A resolver that looks names up only in directories with a property. -/
def guarded (allowed : FileLike ν → Bool) (resolver : PathResolver ν) : PathResolver ν :=
  { resolver with
    lookupChild := fun current nextPath component =>
      if allowed current then resolver.lookupChild current nextPath component
      else .error .accessDenied }

/-- The loop over the names looks nothing up outside of the listed directories. -/
theorem walkComponents_guarded {resolver : PathResolver ν} {allowed : FileLike ν → Bool}
    {follow slash : Bool} {walk walk' : Option (Path → FSResult (FileLike ν × Path))}
    {search : Option (ℕ → Path → List (Searched ν))}
    (hrestart : ∀ nextPath target remainder inTarget,
      (∀ entry ∈ searchSymlink resolver search inTarget nextPath target remainder,
        allowed entry.directory = true) →
      followSymlink resolver walk' nextPath target remainder =
        followSymlink resolver walk nextPath target remainder) :
    ∀ (names : List Name) (inTarget : ℕ) (current : FileLike ν) (currentPath : Path),
      (∀ entry ∈ searchComponents resolver follow slash search inTarget current currentPath names,
        allowed entry.directory = true) →
      walkComponents (guarded allowed resolver) follow slash walk' current currentPath names =
        walkComponents resolver follow slash walk current currentPath names := by
  intro names
  induction names with
  | nil => intro inTarget current currentPath _; rfl
  | cons name remainder ih =>
    intro inTarget current currentPath hall
    unfold searchComponents at hall
    dsimp only at hall
    have hhere : allowed current = true := hall _ List.mem_cons_self
    have hlater := fun entry hentry => hall entry (List.mem_cons_of_mem _ hentry)
    have hsame : (guarded allowed resolver).lookupChild current (currentPath.joinComponent name)
          name =
        resolver.lookupChild current (currentPath.joinComponent name) name := by
      unfold guarded
      exact if_pos hhere
    unfold walkComponents
    dsimp only
    rw [hsame]
    cases hlookup : resolver.lookupChild current (currentPath.joinComponent name) name with
    | error e => rfl
    | ok next =>
      rw [hlookup] at hlater
      cases next with
      | file node => rfl
      | symlink node target =>
        change (if remainder ≠ [] ∨ follow = true ∨ slash = true then
            followSymlink resolver walk' (currentPath.joinComponent name) target remainder
            else _) =
          if remainder ≠ [] ∨ follow = true ∨ slash = true then
            followSymlink resolver walk (currentPath.joinComponent name) target remainder
            else _
        by_cases hfollow : remainder ≠ [] ∨ follow = true ∨ slash = true
        · rw [if_pos hfollow, if_pos hfollow]
          dsimp only at hlater
          rw [if_pos hfollow] at hlater
          exact hrestart _ _ _ _ hlater
        · rw [if_neg hfollow, if_neg hfollow]
      | directory node =>
        change (if remainder = [] then _ else
            walkComponents (guarded allowed resolver) follow slash walk' _ _ remainder) =
          if remainder = [] then _ else walkComponents resolver follow slash walk _ _ remainder
        rw [ih _ _ _ hlater]

/-- The walk behind a link looks nothing up there, if that with one link less does not. -/
theorem followSymlink_guarded {resolver : PathResolver ν} {allowed : FileLike ν → Bool}
    {follow : Bool} {budget : ℕ}
    (hwalk : ∀ (inTarget : ℕ) (path : Path), (∀ entry ∈ searchFrom resolver follow budget inTarget
        path, allowed entry.directory = true) →
      resolveFrom (guarded allowed resolver) follow budget path =
        resolveFrom resolver follow budget path)
    {nextPath : Path} {target : FSResult Path} {remainder : List Name} {inTarget : ℕ}
    (hsearch : ∀ entry ∈ searchSymlink resolver (restartSearch resolver follow (budget + 1))
      inTarget nextPath target remainder, allowed entry.directory = true) :
    followSymlink resolver (restartWalk (guarded allowed resolver) follow (budget + 1)) nextPath
        target remainder =
      followSymlink resolver (restartWalk resolver follow (budget + 1)) nextPath target
        remainder := by
  unfold followSymlink
  cases hflags : resolver.mountFlags nextPath with
  | error e => rfl
  | ok flags =>
  cases target with
  | error e => rfl
  | ok target =>
  simp only [searchSymlink, restartSearch, hflags] at hsearch
  change (if _ then _ else _) = if _ then _ else _
  by_cases hno : flags.contains .MS_NOSYMFOLLOW = true
  · rw [if_pos hno, if_pos hno]
    rfl
  · rw [if_neg hno] at hsearch
    rw [if_neg hno, if_neg hno]
    exact hwalk _ _ hsearch

/-- The walk from the root looks nothing up outside of the listed directories. -/
theorem resolveFrom_guarded {resolver : PathResolver ν} {allowed : FileLike ν → Bool}
    {follow : Bool} (budget : ℕ) : ∀ (inTarget : ℕ) (path : Path),
      (∀ entry ∈ searchFrom resolver follow budget inTarget path,
        allowed entry.directory = true) →
      resolveFrom (guarded allowed resolver) follow budget path =
        resolveFrom resolver follow budget path := by
  -- The induction is on the links that may still be followed.
  induction budget using Nat.strong_induction_on with
  | _ budget ih =>
  intro inTarget path hall
  rw [resolveFrom_eq, resolveFrom_eq]
  change resolver.resolveRoot >>= _ = _
  cases hroot : resolver.resolveRoot with
  | error e => rfl
  | ok root =>
  rw [searchFrom_eq hroot] at hall
  refine walkComponents_guarded (fun nextPath target remainder inTarget hsearch => ?_) _ inTarget
    root _ hall
  cases budget with
  | zero => rfl
  | succ budget => exact followSymlink_guarded (ih budget (Nat.lt_succ_self budget)) hsearch

/-- Only the listed directories are searched: the walk is the same if all others are closed. -/
theorem resolvePathWalk_guarded {resolver : PathResolver ν} {allowed : FileLike ν → Bool}
    {path : Path} {follow : Bool}
    (hall : ∀ entry ∈ searchedDirectories resolver path follow, allowed entry.directory = true) :
    resolvePathWalk (guarded allowed resolver) path follow = resolvePathWalk resolver path follow :=
  resolveFrom_guarded MAX_SYMLINKS 0 path.normalize hall

/-! ## The two traversals -/

/-- The names before those that are left at a directory lead to it, and with them all the names that
come from targets have been walked. -/
def Opens (walk : Bool → List Name → FSResult (FileLike ν × Path)) (names : List Name)
    (inTarget : ℕ) (entry : Searched ν) : Prop :=
  ∃ front final, names = front ++ entry.left ∧ inTarget ≤ front.length ∧ entry.left ≠ [] ∧
    ∀ slash, walk slash front = .ok (entry.directory, final)

variable {follow : Bool} {entry : Searched ν}

/-- The loop over the names, cut off before the names that are left. At a link the cut stands behind
the names of the target, so it can be moved to the path with the link. -/
theorem opens_components {slash : Bool} {walk : Option (Path → FSResult (FileLike ν × Path))}
    {search : Option (ℕ → Path → List (Searched ν))} (hentry : entry.inTarget = 0)
    (hrestart : ∀ directory name target remainder inTarget, inTarget ≤ remainder.length →
      entry ∈ searchSymlink resolver search inTarget (absolute (directory ++ [name]) false)
        target remainder →
      Opens (fun _ front => followSymlink resolver walk (absolute (directory ++ [name]) false)
        target front) remainder inTarget entry) :
    ∀ (names : List Name) (inTarget : ℕ) (current : FileLike ν) (directory : List Name),
      inTarget ≤ names.length →
      entry ∈ searchComponents resolver follow slash search inTarget current
        (absolute directory false) names →
      Opens (fun slash front => walkComponents resolver true slash walk current
        (absolute directory false) front) names inTarget entry := by
  intro names
  induction names with
  | nil =>
    intro inTarget current directory _ hmem
    cases hmem
  | cons name remainder ih =>
  intro inTarget current directory hle hmem
  unfold searchComponents at hmem
  simp only [joinComponent_absolute] at hmem
  have hle' : inTarget - 1 ≤ remainder.length := by
    rw [length_cons] at hle
    omega
  rcases mem_cons.mp hmem with rfl | hmem
  · -- The directory the loop is in: nothing has been walked yet.
    exact ⟨[], absolute directory false, rfl, by simpa using hentry.le, by simp, fun _ => rfl⟩
  cases hlookup : resolver.lookupChild current (absolute (directory ++ [name]) false) name with
  | error e =>
    rw [hlookup] at hmem
    cases hmem
  | ok next =>
  rw [hlookup] at hmem
  cases next with
  | file node => cases hmem
  | symlink node target =>
    dsimp only at hmem
    split_ifs at hmem with hfollow
    · obtain ⟨front, final, hfront, hlen, hleft, hwalk⟩ :=
        hrestart directory name target remainder _ hle' hmem
      refine ⟨name :: front, final, by rw [hfront]; rfl, ?_, hleft, fun slash' => ?_⟩
      · rw [length_cons]
        omega
      · unfold walkComponents
        simp only [joinComponent_absolute, hlookup]
        exact (if_pos (.inr (.inl trivial))).trans (hwalk slash')
    · cases hmem
  | directory node =>
  obtain ⟨front, final, hfront, hlen, hleft, hwalk⟩ :=
    ih (inTarget - 1) (.directory node) (directory ++ [name]) hle' hmem
  refine ⟨name :: front, final, by rw [hfront]; rfl, ?_, hleft, fun slash' => ?_⟩
  · rw [length_cons]
    omega
  unfold walkComponents
  simp only [joinComponent_absolute, hlookup]
  cases front with
  | nil | cons name' front => exact hwalk slash'

variable {path : Path}

/-- The first directory is opened. -/
theorem opens_start {budget inTarget : ℕ}
    (hmem : entry ∈ searchFrom resolver follow budget inTarget path)
    (hloop : ∀ root, entry ∈ searchComponents resolver follow (path.asString.getLast? = some '/')
        (restartSearch resolver follow budget) inTarget root (absolute [] false)
        path.normalize.names →
      Opens (fun slash front => walkComponents resolver true slash
        (restartWalk resolver true budget) root (absolute [] false) front)
        path.normalize.names inTarget entry) :
    Opens (fun slash front => resolveFrom resolver true budget (absolute front slash))
      path.normalize.names inTarget entry := by
  cases hroot : resolver.resolveRoot with
  | error e =>
    unfold searchFrom at hmem
    rw [hroot] at hmem
    cases hmem
  | ok root =>
  rw [searchFrom_eq hroot] at hmem
  obtain ⟨front, final, hfront, hlen, hleft, hwalk⟩ := hloop root hmem
  refine ⟨front, final, hfront, hlen, hleft, fun slash => ?_⟩
  dsimp only
  rw [resolveFrom_eq, hroot, normalize_absolute, absolute_names]
  exact hwalk _

/-- A normalized path has the same names again. -/
theorem normalize_names_idem (path : Path) :
    path.normalize.normalize.names = path.normalize.names := by
  rw [names_normalize, names_normalize]
  cases habs : path.isAbsolute with
  | true =>
    rw [normalize_of_isAbsolute habs]
    exact resolve_names [] _
  | false => exact resolve_normalize habs []

/-- What is searched behind a link. -/
theorem opens_symlink {budget : ℕ}
    (hfrom : ∀ (inTarget : ℕ) (path : Path), inTarget ≤ path.normalize.names.length →
      entry ∈ searchFrom resolver follow budget inTarget path →
      Opens (fun slash front => resolveFrom resolver true budget (absolute front slash))
        path.normalize.names inTarget entry) (directory : List Name) (name : Name)
    (target : FSResult Path) (remainder : List Name) (inTarget : ℕ)
    (hle : inTarget ≤ remainder.length)
    (hmem : entry ∈ searchSymlink resolver (restartSearch resolver follow (budget + 1)) inTarget
      (absolute (directory ++ [name]) false) target remainder) :
    Opens (fun _ front => followSymlink resolver (restartWalk resolver true (budget + 1))
      (absolute (directory ++ [name]) false) target front) remainder inTarget entry := by
  unfold searchSymlink restartSearch at hmem
  cases hflags : resolver.mountFlags (absolute (directory ++ [name]) false) with
  | error e =>
    rw [hflags] at hmem
    cases hmem
  | ok flags =>
  cases target with
  | error e =>
    rw [hflags] at hmem
    cases hmem
  | ok target =>
  rw [hflags] at hmem
  dsimp only at hmem
  split_ifs at hmem with hno
  · cases hmem
  simp only [rewriteSymlinkTarget_absolute, append_nil, absolute_names] at hmem
  have hopens := hfrom _ _ (by simpa using hle) hmem
  rw [normalize_absolute, absolute_names] at hopens
  obtain ⟨front, final, hfront, hlen, hleft, hwalk⟩ := hopens
  -- All names of the target stand before the cut.
  obtain ⟨mid, rfl⟩ : linkTarget directory target <+: front :=
    prefix_of_prefix_length_le ⟨remainder, rfl⟩ ⟨entry.left, hfront.symm⟩ (by omega)
  rw [append_assoc] at hfront
  refine ⟨mid, final, append_cancel_left hfront, ?_, hleft, fun slash => ?_⟩
  · rw [length_append] at hlen
    omega
  have hrun : followSymlink resolver (restartWalk resolver true (budget + 1))
      (absolute (directory ++ [name]) false) (.ok target) mid =
      resolveFrom resolver true budget (rewriteSymlinkTarget
        (absolute (directory ++ [name]) false) target mid) := by
    unfold followSymlink
    rw [hflags]
    exact if_neg hno
  refine hrun.trans ?_
  rw [rewriteSymlinkTarget_absolute]
  exact hwalk _

/-- What is searched can be opened. -/
theorem opens_from (hentry : entry.inTarget = 0) : ∀ (budget inTarget : ℕ) (path : Path),
      inTarget ≤ path.normalize.names.length →
      entry ∈ searchFrom resolver follow budget inTarget path →
      Opens (fun slash front => resolveFrom resolver true budget (absolute front slash))
        path.normalize.names inTarget entry := by
  intro budget
  induction budget with
  | zero =>
    intro inTarget path hle hmem
    refine opens_start hmem fun root hmem => ?_
    refine opens_components hentry (fun _ _ target remainder _ _ hmem => ?_) _ _ root [] hle hmem
    unfold searchSymlink restartSearch at hmem
    split at hmem
    · contradiction
    · cases hmem
  | succ budget ih =>
    intro inTarget path hle hmem
    refine opens_start hmem fun root hmem => ?_
    exact opens_components hentry (opens_symlink ih) _ _ root [] hle hmem

/-- Without a name of a target left, the walk is in the directory that opening the names before
those that are left leads to. -/
theorem opened_of_searched (hmem : entry ∈ searchedDirectories resolver path follow)
    (hentry : entry.inTarget = 0) :
    ∃ front final, path.normalize.names = front ++ entry.left ∧ entry.left ≠ [] ∧
      resolvePathWalk resolver (absolute front false) true = .ok (entry.directory, final) := by
  have hopens := opens_from hentry MAX_SYMLINKS 0 path.normalize (Nat.zero_le _) hmem
  rw [normalize_names_idem] at hopens
  obtain ⟨front, final, hfront, -, hleft, hwalk⟩ := hopens
  refine ⟨front, final, hfront, hleft, ?_⟩
  unfold resolvePathWalk
  rw [normalize_absolute]
  exact hwalk false

/-! ## What the check accepts -/

/-- Both checks passed. -/
theorem checked_bind_eq_ok {α β : Type} {x : Checked α} {f : α → Checked β} {b : β} :
    (x >>= f) = (some (.ok b) : Option (Except SyscallError β)) ↔
      ∃ a, x = (some (.ok a) : Option (Except SyscallError α)) ∧
        f a = (some (.ok b) : Option (Except SyscallError β)) := by
  constructor
  · intro h
    match x, h with
    | some (.ok a), h => exact ⟨a, rfl, h⟩
  · rintro ⟨a, rfl, hf⟩
    exact hf

/-- A lifted call succeeds when the call does. -/
theorem liftFs_eq_ok {α : Type} {x : FSResult α} {a : α} :
    liftFs x = (some (.ok a) : Option (Except SyscallError α)) ↔ x = .ok a := by
  cases x with
  | ok a' =>
    refine ⟨fun h => ?_, fun h => ?_⟩
    · cases h
      rfl
    · cases h
      rfl
  | error e =>
    refine ⟨fun h => ?_, fun h => ?_⟩
    · cases h
    · cases h

variable {files : OpenFiles ν}

/-- Opening resolves the path. -/
theorem openPath_eq_ok {file : FileLike ν} (hopen : openPath resolver files path = .ok file) :
    ∃ final, resolvePathWalk resolver path.normalize true = .ok (file, final) := by
  obtain ⟨⟨file', final⟩, hwalk, hopen⟩ := bind_eq_ok.mp hopen
  obtain ⟨⟨⟩, -, hopen⟩ := bind_eq_ok.mp hopen
  cases hopen
  exact ⟨final, hwalk⟩

/-- The names lead to a directory that the credentials allow to search, if they lead anywhere. -/
def Checks (resolver : PathResolver ν) (files : OpenFiles ν) (credentials : AccessCredentials)
    (names : List Name) : Prop :=
  ∀ directory final,
    resolvePathWalk resolver (absolute names false) true = .ok (directory, final) →
    CanSearch files credentials directory

variable {credentials : AccessCredentials}

/-- A directory that opens is checked. -/
theorem checks_of_open {names : List Name} {directory : FileLike ν}
    (hopen : openPath resolver files (absolute names false) = .ok directory)
    (hcan : CanSearch files credentials directory) : Checks resolver files credentials names := by
  intro directory' final' hwalk'
  grind [openPath_eq_ok, normalize_absolute]

/-- Every directory on the way is checked. -/
theorem checks_of_checkPrefixes : ∀ (names front : List Name),
      checkPrefixes resolver files credentials (absolute front false) names =
        (some (.ok ()) : Option (Except SyscallError Unit)) →
      ∀ middle, middle <+: names → middle ≠ [] →
        Checks resolver files credentials (front ++ middle) := by
  intro names
  induction names with
  | nil => simp
  | cons name names ih =>
  intro front haccept middle hmiddle hne
  unfold checkPrefixes at haccept
  simp only [joinComponent_absolute] at haccept
  obtain ⟨directory, hopen, haccept⟩ := checked_bind_eq_ok.mp haccept
  obtain ⟨_, -, haccept⟩ := checked_bind_eq_ok.mp haccept
  cases directory with
  | file node | symlink node target => cases haccept
  | directory node =>
  obtain ⟨⟨⟩, hcan, haccept⟩ := checked_bind_eq_ok.mp haccept
  obtain ⟨name', middle', rfl⟩ := exists_cons_of_ne_nil hne
  obtain ⟨rfl, hmiddle'⟩ := cons_prefix_cons.mp hmiddle
  by_cases hmore : middle' = []
  · subst hmore
    exact checks_of_open (liftFs_eq_ok.mp hopen) hcan
  · grind

/-- An accepted path has been checked. -/
theorem checks_of_accepted (huid : credentials.uid ≠ 0)
    (haccept : checkAccessPathSearchPermissions resolver files path credentials =
      (some (.ok ()) : Option (Except SyscallError Unit))) {front left : List Name}
    (hnames : path.normalize.names = front ++ left) (hleft : left ≠ []) :
    Checks resolver files credentials front := by
  have hsome : path.normalize.names ≠ [] := by grind [append_ne_nil_of_right_ne_nil]
  unfold checkAccessPathSearchPermissions at haccept
  rw [if_neg huid, if_neg hsome] at haccept
  obtain ⟨root, hopen, haccept⟩ := checked_bind_eq_ok.mp haccept
  obtain ⟨⟨⟩, hcan, haccept⟩ := checked_bind_eq_ok.mp haccept
  by_cases hfront : front = []
  · subst hfront
    exact checks_of_open (liftFs_eq_ok.mp hopen) hcan
  · refine checks_of_checkPrefixes _ [] haccept front ?_ hfront
    grind

/-- A path that is accepted for a user leads only through directories that the user may search. -/
def SearchSound (resolver : PathResolver ν) (files : OpenFiles ν) (path : Path) (follow : Bool)
    (credentials : AccessCredentials) : Prop :=
  credentials.uid ≠ 0 →
    checkAccessPathSearchPermissions resolver files path credentials =
      (some (.ok ()) : Option (Except SyscallError Unit)) →
    ∀ entry ∈ searchedDirectories resolver path follow, CanSearch files credentials entry.directory

/-- The same for the directories in which names of targets of links are looked up. -/
def TargetsSearchable (resolver : PathResolver ν) (files : OpenFiles ν) (path : Path)
    (follow : Bool) (credentials : AccessCredentials) : Prop :=
  credentials.uid ≠ 0 →
    checkAccessPathSearchPermissions resolver files path credentials =
      (some (.ok ()) : Option (Except SyscallError Unit)) →
    ∀ entry ∈ searchedDirectories resolver path follow, 0 < entry.inTarget →
      CanSearch files credentials entry.directory

/-- Only the directories on the way of the targets of links can be missed by the check. -/
theorem search_sound_iff (resolver : PathResolver ν) (files : OpenFiles ν) (path : Path)
    (follow : Bool) (credentials : AccessCredentials) :
    SearchSound resolver files path follow credentials ↔
      TargetsSearchable resolver files path follow credentials := by
  constructor
  · intro hsound huid haccept entry hmem _
    exact hsound huid haccept entry hmem
  intro htargets huid haccept entry hmem
  by_cases hentry : entry.inTarget = 0
  · obtain ⟨front, final, hnames, hleft, hwalk⟩ := opened_of_searched hmem hentry
    exact checks_of_accepted huid haccept hnames hleft _ _ hwalk
  · exact htargets huid haccept entry hmem (Nat.pos_of_ne_zero hentry)

/-- A tree with a link `/l` to the directory `/s/d` and a file in it. -/
def linkedTree : PathResolver ℕ where
  resolveRoot := .ok (.directory 0)
  mountFlags _ := .ok .empty
  lookupChild current _ component :=
    match current with
    | .directory 0 =>
      if component = "l".toList then .ok (.symlink 4 (.ok (new "/s/d".toList)))
      else if component = "s".toList then .ok (.directory 1) else .error .notFound
    | .directory 1 => if component = "d".toList then .ok (.directory 2) else .error .notFound
    | .directory 2 => if component = "f".toList then .ok (.file 3) else .error .notFound
    | _ => .error .notADirectory

/-- Only the root may search `/s`. -/
def linkedFiles : OpenFiles ℕ where
  info
    | .directory 1 => .ok ⟨0o40700, 0, 0⟩
    | _ => .ok ⟨0o40755, 0, 0⟩
  attach _ _ := .ok ()

/-- The credentials of user 1000. -/
def userCredentials : AccessCredentials where
  uid := 1000
  gid := 1000
  supplementaryGroups := []
  namespaceUid := 1000
  namespaceGid := 1000
  namespaceSupplementaryGroups := []
  userNamespaceUidMap := none
  userNamespaceGidMap := none
  capabilityEffective := (0, 0)
  uid_eq := by decide
  gid_eq := by decide
  groups_eq := rfl

/-- The path through the link is accepted, and the walk goes on to look `d` up in `/s`, which the
user may not search. -/
theorem unsearchable_directory_passed : userCredentials.uid ≠ 0 ∧
    checkAccessPathSearchPermissions linkedTree linkedFiles (new "/l/f".toList)
      userCredentials = (some (.ok ()) : Option (Except SyscallError Unit)) ∧
    (⟨.directory 1, 1, ["d".toList, "f".toList]⟩ : Searched ℕ) ∈
      searchedDirectories linkedTree (new "/l/f".toList) true ∧
    checkAccessPermissionsForIds (linkedFiles.stat (.directory 1)) 1 userCredentials =
      some (.error .accessDenied) ∧
    ¬ SearchSound linkedTree linkedFiles (new "/l/f".toList) true userCredentials := by
  have hmem : (⟨.directory 1, 1, ["d".toList, "f".toList]⟩ : Searched ℕ) ∈
      searchedDirectories linkedTree (new "/l/f".toList) true := List.mem_of_getElem? (i := 2) rfl
  refine ⟨by decide, rfl, hmem, by decide +kernel, fun hsound => ?_⟩
  cases hsound (by decide) rfl _ hmem

end Seele.Access
