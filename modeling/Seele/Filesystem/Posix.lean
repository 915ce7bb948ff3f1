import Seele.Filesystem.Resolve

/-!
# The walk of `resolve_path` and the walk component by component

On one mount, over a finite tree of directories, files and links, the walk of
`filesystem/resolve.rs` is compared with the walk that goes through the parts of a path from left to
right: `..` is the parent of the directory reached so far, and a link is replaced by the parts of
its target in the directory where it stands (`posixResolve`).

The kernel takes `name/..` out of a path and out of the target of a link before it looks at the
tree, so the two walks differ where such a name is a link, a file or missing
(`dots_after_link_differ`). They agree if the paths are read in the same way, without `.` and
without `..` behind a name (`resolve_eq_posixResolve`). A slash at the end of the path is forgotten
when a link is followed, which the theorem leaves out.
-/

namespace Seele.Filesystem

open Seele.Filesystem.Path List

/-! ## The tree -/

/-- A finite tree of files, directories and links. The target of a link is a text. -/
inductive Tree where
  | file
  | directory (entries : List (Name × Tree))
  | symlink (target : List Char)

namespace Tree

/-- The entry of a directory with the given name. -/
def child : Tree → Name → Option Tree
  | .directory entries, name => (entries.find? (·.1 = name)).map (·.2)
  | .file, _ => none
  | .symlink _, _ => none

/-- The node at a list of names, without following links. -/
def get? : Tree → List Name → Option Tree
  | tree, [] => some tree
  | tree, name :: names => (tree.child name).bind (·.get? names)

variable (tree : Tree) (location : List Name)

/-- The handle on the node at a list of names. -/
def handle : FSResult (FileLike (List Name)) :=
  match tree.get? location with
  | none => .error .notFound
  | some .file => .ok (.file location)
  | some (.directory _) => .ok (.directory location)
  | some (.symlink target) => .ok (.symlink location (.ok (new target)))

/-- The file system of a tree. Its nodes are known by their location. -/
def fileSystem : FileSystems Unit (List Name) where
  lookup _ path := tree.handle path.names
  get directory name := tree.handle (directory ++ [name])

/-- There is a directory at the location. -/
def IsDirectory : Prop :=
  ∃ entries, tree.get? location = some (.directory entries)

/-- There is no link at any location on the way to the given one. -/
def NoLinkOn : Prop :=
  ∀ names, names <+: location → ∀ target, tree.get? names ≠ some (.symlink target)

/-- The text of no link in the tree ends in a slash. -/
def TargetsWithoutSlash : Prop :=
  ∀ location target, tree.get? location = some (.symlink target) →
    (new target).endsWithSlash = false

/-- A lookup in two parts. -/
theorem get?_append (front back : List Name) :
    tree.get? (front ++ back) = (tree.get? front).bind (·.get? back) := by
  induction front generalizing tree with
  | nil => rfl
  | cons name front ih =>
  simp only [cons_append, get?]
  cases tree.child name with
  | none => rfl
  | some next => exact ih next

variable {tree : Tree}

/-- What leads to a directory is one. -/
theorem IsDirectory.of_append {front back : List Name}
    (h : tree.IsDirectory (front ++ back)) : tree.IsDirectory front := by
  obtain ⟨entries, h⟩ := h
  rw [get?_append] at h
  cases hfront : tree.get? front with
  | none =>
    rw [hfront] at h
    cases h
  | some node =>
  rw [hfront] at h
  cases back with
  | nil => exact ⟨entries, by rw [hfront]; exact h⟩
  | cons name back =>
  -- Only a directory has an entry.
  cases node with
  | directory entries => exact ⟨entries, hfront⟩
  | file => cases h
  | symlink target => cases h

/-- What leads to a directory is one. -/
theorem IsDirectory.of_prefix {names location : List Name}
    (h : tree.IsDirectory location) (hnames : names <+: location) : tree.IsDirectory names := by
  obtain ⟨back, rfl⟩ := hnames
  exact h.of_append

/-- The handle of a directory. -/
theorem IsDirectory.handle_eq {location : List Name}
    (h : tree.IsDirectory location) : tree.handle location = .ok (.directory location) := by
  obtain ⟨entries, h⟩ := h
  unfold handle
  rw [h]

end Tree

/-! ## The walk part by part -/

section Reference

variable (tree : Tree) (read : List Char → Path) (follow nosymfollow : Bool)

/-- The walk from a directory through parts, of which the last must be a directory if a slash
follows it. `restart` is the walk with one link fewer to follow. -/
def posixComponents
    (restart : Option (List Name → List PathPart → Bool → FSResult (List Name))) (slash : Bool) :
    List Name → List PathPart → FSResult (List Name)
  | directory, [] => .ok directory
  | _, .root :: rest => posixComponents restart slash [] rest
  | directory, .currentDir :: rest => posixComponents restart slash directory rest
  | directory, .parentDir :: rest => posixComponents restart slash directory.dropLast rest
  | directory, .normal name :: rest =>
    match tree.get? (directory ++ [name]) with
    | none => .error .notFound
    | some .file =>
      if rest ≠ [] ∨ slash then .error .notADirectory else .ok (directory ++ [name])
    | some (.directory _) => posixComponents restart slash (directory ++ [name]) rest
    | some (.symlink target) =>
      if rest ≠ [] ∨ follow ∨ slash then
        if nosymfollow then .error .tooManySymlinks
        else
          match restart with
          | none => .error .tooManySymlinks
          | some walk =>
            walk directory ((read target).parts ++ rest)
              (slash || ((read target).endsWithSlash && rest.isEmpty))
      else .ok (directory ++ [name])

/-- The walk from a directory, when `budget` more links may be followed. -/
def posixFrom : ℕ → List Name → List PathPart → Bool → FSResult (List Name)
  | budget, directory, parts, slash =>
    posixComponents tree read follow nosymfollow
      (match budget with
        | 0 => none
        | budget + 1 => some (posixFrom budget))
      slash directory parts

/-- The walk of a text from the root. `read` is how texts are read as paths: `Path.new` for the walk
of a path as it is written. -/
def posixResolve (text : List Char) : FSResult (List Name) :=
  posixFrom tree read follow nosymfollow MAX_SYMLINKS [] (read text).parts (read text).endsWithSlash

end Reference

/-- A text read without `.` and without `..` behind a name. -/
def readLexically (text : List Char) : Path :=
  (new text).normalize

/-- The mount of a file system at the root. -/
def rootMount {φ : Type} (fs : φ) (flags : MountFlags) : MountSnapshot φ :=
  ⟨new ['/'], fs, new ['/'], flags, 1, 1⟩

/-- `resolve_path` of a text on one mount. -/
def resolveInTree (tree : Tree) (flags : MountFlags) (follow : Bool) (text : List Char) :
    FSResult (FileLike (List Name) × Path) :=
  resolveWithMounts tree.fileSystem (new text) follow [rootMount () flags]

/-- The node of a handle. -/
def FileLike.node {ν : Type} : FileLike ν → ν
  | .file node => node
  | .directory node => node
  | .symlink node _ => node

/-- The kernel's answer is the node of the reference, with its location as the path, or the same
error. -/
def Agrees (answer : FSResult (FileLike (List Name) × Path)) (reference : FSResult (List Name)) :
    Prop :=
  answer.map (fun entry => (entry.1.node, entry.2)) =
    reference.map fun location => (location, absolute location false)

/-- The slash at the end of a text is not forgotten on the way: there is none, here and in the
links, or there is no link on the way. -/
def SlashKept (tree : Tree) (slash : Bool) (location : List Name) : Prop :=
  slash = false ∧ tree.TargetsWithoutSlash ∨ tree.NoLinkOn location

/-! ## The resolver of one mount -/

section OneMount

variable (tree : Tree) (flags : MountFlags)

/-- The resolver of a tree at the root. -/
def treeResolver : PathResolver (List Name) :=
  snapshotResolver tree.fileSystem [rootMount () flags]

/-- The root mount is found. -/
theorem find_rootMount (names : List Name) (slash : Bool) :
    findMountInSnapshots (absolute names slash) [rootMount () flags] =
      .ok { rootMount () flags with sourcePath := absolute names slash } := by
  simp [new_root, stripPrefix_absolute, findMountInSnapshots, joinMountSource, rootMount]

/-- There is one set of flags. -/
theorem treeResolver_mountFlags (names : List Name) :
    (treeResolver tree flags).mountFlags (absolute names false) = .ok flags := by
  unfold treeResolver snapshotResolver
  dsimp only
  rw [find_rootMount]
  rfl

/-- A child is looked up in the tree. -/
theorem treeResolver_lookupChild (directory : List Name) (name : Name) :
    (treeResolver tree flags).lookupChild (.directory directory)
      (absolute (directory ++ [name]) false) name = tree.handle (directory ++ [name]) := by
  unfold treeResolver snapshotResolver
  dsimp only
  rw [find_rootMount]
  have hne : (rootMount () flags).path ≠ absolute (directory ++ [name]) false := by
    simp [rootMount, new_root]
  exact if_neg hne

/-- The root is its directory. -/
theorem treeResolver_resolveRoot (hroot : tree.IsDirectory []) :
    (treeResolver tree flags).resolveRoot = .ok (.directory []) := by
  exact hroot.handle_eq

variable {tree flags}

/-- A step into a directory. -/
theorem walkComponents_directory (follow slash : Bool)
    {restart : Option (Path → FSResult (FileLike (List Name) × Path))} {directory : List Name}
    {name : Name} (hdir : tree.IsDirectory (directory ++ [name])) (rest : List Name) :
    walkComponents (treeResolver tree flags) follow slash restart (.directory directory)
        (absolute directory false) (name :: rest) =
      walkComponents (treeResolver tree flags) follow slash restart
        (.directory (directory ++ [name])) (absolute (directory ++ [name]) false) rest := by
  rw [walkComponents]
  simp only [joinComponent_absolute]
  rw [treeResolver_lookupChild, hdir.handle_eq]
  cases rest with
  | nil => rfl
  | cons next rest => rfl

/-- Walking to a directory again. -/
theorem walkComponents_again (follow slash : Bool)
    (restart : Option (Path → FSResult (FileLike (List Name) × Path))) (front back rest : List Name)
    (hdir : tree.IsDirectory (front ++ back)) :
    walkComponents (treeResolver tree flags) follow slash restart (.directory front)
        (absolute front false) (back ++ rest) =
      walkComponents (treeResolver tree flags) follow slash restart
        (.directory (front ++ back)) (absolute (front ++ back) false) rest := by
  induction back generalizing front with
  | nil => rw [append_nil, nil_append]
  | cons name back ih =>
    have happend : front ++ name :: back = (front ++ [name]) ++ back := by simp
    rw [happend] at hdir ⊢
    grind [walkComponents_directory, hdir.of_append]

/-- Resolving to a directory again. -/
theorem resolveFrom_again (hroot : tree.IsDirectory []) (follow slash : Bool) (budget : ℕ)
    {directory rest : List Name} (hdir : tree.IsDirectory directory)
    (hvalid : ∀ name ∈ directory ++ rest, ValidName name) :
    resolveFrom (treeResolver tree flags) follow budget (absolute (directory ++ rest) slash) =
      walkComponents (treeResolver tree flags) follow slash
        (restartWalk (treeResolver tree flags) follow budget) (.directory directory)
    (absolute directory false) rest := by
  rw [resolveFrom_eq, treeResolver_resolveRoot tree flags hroot, normalize_absolute,
    absolute_names, new_root]
  rcases eq_nil_or_concat (directory ++ rest) with hnil | ⟨front, last, hlast⟩
  · -- At the root there is nothing to walk.
    obtain ⟨rfl, rfl⟩ := append_eq_nil_iff.mp hnil
    rfl
  rw [concat_eq_append] at hlast
  have hslash : decide ((absolute (directory ++ rest) slash).asString.getLast? =
      some '/') = slash := by
    have hparts : (absolute (directory ++ rest) slash).parts =
        (.root :: front.map .normal) ++ [.normal last] := by
      rw [hlast]
      simp [absolute]
    have hlastValid : ValidName last := hvalid last (by rw [hlast]; simp)
    rw [Bool.eq_iff_iff, decide_eq_true_iff]
    exact asString_getLast hparts hlastValid
  rw [hslash]
  have hagain : walkComponents (treeResolver tree flags) follow slash
      (restartWalk (treeResolver tree flags) follow budget) (.directory [])
      (absolute [] false) (directory ++ rest) = _ :=
    walkComponents_again follow slash _ [] directory rest hdir
  exact hagain

end OneMount

/-! ## The two walks agree -/

section Agreement

variable {tree : Tree} {flags : MountFlags} {follow : Bool}

variable {restart : Option (List Name → List PathPart → Bool → FSResult (List Name))}

variable {nosymfollow : Bool} {path : Path}

/-- The reference walk of a path in normal form goes up to a directory above and then through
names. -/
theorem posixComponents_normalize (follow slash : Bool)
    (directory : List Name) (rest : List PathPart) : ∃ base, base <+: directory ∧
      linkTarget directory path = base ++ resolve [] path.parts ∧
      posixComponents tree readLexically follow nosymfollow restart slash directory
          (path.normalize.parts ++ rest) =
        posixComponents tree readLexically follow nosymfollow restart slash base
          ((resolve [] path.parts).map .normal ++ rest) := by
  obtain ⟨front, hparts, ⟨habs, rfl⟩ | ⟨hrel, n, rfl⟩⟩ := path.normalize_parts
  · refine ⟨[], nil_prefix, ?_, ?_⟩
    · unfold linkTarget
      rw [if_pos habs, nil_append]
    · rw [hparts]
      rfl
  -- Every `..` goes to the parent, which is a directory with fewer names.
  have hup : ∀ (n : ℕ) (directory : List Name), ∃ base, base <+: directory ∧
      resolve directory (.replicate n .parentDir) = base ∧
      ∀ parts, posixComponents tree readLexically follow nosymfollow restart slash directory
          (.replicate n .parentDir ++ parts) =
        posixComponents tree readLexically follow nosymfollow restart slash base parts := by
    intro n
    induction n with
    | zero => exact fun directory => ⟨directory, prefix_refl _, rfl, fun parts => rfl⟩
    | succ n ih =>
      intro directory
      obtain ⟨base, hbase, hresolve, hwalk⟩ := ih directory.dropLast
      have hdrop : directory.dropLast <+: directory := dropLast_prefix directory
      exact ⟨base, hbase.trans hdrop, hresolve, hwalk⟩
  obtain ⟨base, hbase, hresolve, hwalk⟩ := hup n directory
  refine ⟨base, hbase, ?_, ?_⟩
  · unfold linkTarget
    rw [if_neg (by rw [hrel]; exact Bool.false_ne_true), ← resolve_normalize hrel, hparts,
      resolve_append, hresolve, resolve_names]
  · rw [hparts, append_assoc, hwalk]

/-- The walks with one link fewer agree: from a link in a directory, on the way that `location`
describes. -/
def RestartsAgree (tree : Tree) (restart : Option (Path → FSResult (FileLike (List Name) × Path)))
    (reference : Option (List Name → List PathPart → Bool → FSResult (List Name))) : Prop :=
  match restart, reference with
  | none, none => True
  | some walk, some walk' => tree.TargetsWithoutSlash → ∀ directory name target rest,
      tree.IsDirectory directory → tree.get? (directory ++ [name]) = some (.symlink target) →
      (∀ name ∈ directory ++ rest, ValidName name) →
      Agrees
        (walk (rewriteSymlinkTarget (absolute (directory ++ [name]) false) (new target) rest))
        (walk' directory ((readLexically target).parts ++ rest.map .normal) false)
  | _, _ => False

/-- The walk agrees with the reference. -/
theorem walkComponents_agrees {restart : Option (Path → FSResult (FileLike (List Name) × Path))}
    {reference : Option (List Name → List PathPart → Bool → FSResult (List Name))}
    (hrestart : RestartsAgree tree restart reference) (slash : Bool) :
    ∀ (rest directory : List Name), tree.IsDirectory directory →
      (∀ name ∈ directory ++ rest, ValidName name) →
      SlashKept tree slash (directory ++ rest) →
      Agrees (walkComponents (treeResolver tree flags) follow slash restart (.directory directory)
          (absolute directory false) rest)
        (posixComponents tree readLexically follow (flags.contains .MS_NOSYMFOLLOW) reference slash
          directory (rest.map .normal)) := by
  intro rest
  induction rest with
  | nil =>
    intro directory _ _ _
    rfl
  | cons name rest ih =>
  intro directory hdir hvalid hslash
  have happend : directory ++ name :: rest = (directory ++ [name]) ++ rest := by simp
  have hrest : ∀ {p : Prop}, rest.map PathPart.normal ≠ [] ∨ p ↔ rest ≠ [] ∨ p := by simp
  by_cases hnext : tree.IsDirectory (directory ++ [name])
  · obtain ⟨entries, hget⟩ := id hnext
    rw [walkComponents_directory follow slash hnext]
    simp only [map_cons, posixComponents]
    grind
  rw [walkComponents]
  simp only [joinComponent_absolute, map_cons, posixComponents]
  rw [treeResolver_lookupChild]
  unfold Tree.handle
  cases hget : tree.get? (directory ++ [name]) with
  | none => rfl
  | some node =>
  cases node with
  | directory entries => exact absurd ⟨entries, hget⟩ hnext
  | file =>
    by_cases hfail : rest ≠ [] ∨ slash = true
    · rw [if_pos (hrest.mpr hfail)]
      exact congrArg _ (if_pos hfail)
    · rw [if_neg (fun h => hfail (hrest.mp h))]
      exact congrArg _ (if_neg hfail)
  | symlink target =>
  dsimp only
  by_cases hfollow : rest ≠ [] ∨ follow = true ∨ slash = true
  · rw [if_pos (hrest.mpr hfollow)]
    refine (congrArg _ (if_pos hfollow)).trans ?_
    -- A link is followed, so there is no slash to forget.
    obtain ⟨rfl, htargets⟩ : slash = false ∧ tree.TargetsWithoutSlash := by
      refine hslash.resolve_right fun hno => hno (directory ++ [name]) ?_ target hget
      rw [happend]
      exact prefix_append _ rest
    have htarget : (readLexically target).endsWithSlash = false :=
      htargets _ target hget
    unfold followSymlink
    rw [treeResolver_mountFlags, htarget]
    cases hno : flags.contains .MS_NOSYMFOLLOW with
    | true =>
      simp only [bind, Except.bind, hno]
      rfl
    | false =>
    simp only [bind, Except.bind, hno]
    have hvalid' : ∀ name ∈ directory ++ rest, ValidName name := by grind
    cases restart with
    | none =>
      cases reference with
      | none => rfl
      | some walk' => exact hrestart.elim
    | some walk =>
    cases reference with
    | none => exact hrestart.elim
    | some walk' => exact hrestart htargets directory name target rest hdir hget hvalid'
  · rw [if_neg (fun h => hfollow (hrest.mp h))]
    exact congrArg _ (if_neg hfollow)

/-- The walk that is left to the reference after a link has been followed. -/
def posixRestart (tree : Tree) (follow nosymfollow : Bool) :
    ℕ → Option (List Name → List PathPart → Bool → FSResult (List Name))
  | 0 => none
  | budget + 1 => some (posixFrom tree readLexically follow nosymfollow budget)

/-- The reference with its budget. -/
theorem posixFrom_eq (tree : Tree) (follow : Bool) (budget : ℕ)
    (directory : List Name) (parts : List PathPart) (slash : Bool) :
    posixFrom tree readLexically follow nosymfollow budget directory parts slash =
      posixComponents tree readLexically follow nosymfollow
        (posixRestart tree follow nosymfollow budget) slash directory parts := by
  cases budget <;> rfl

/-- A link's target has valid names. -/
theorem linkTarget_valid {directory : List Name}
    (hdirectory : ∀ name ∈ directory, ValidName name) (text : List Char) :
    ∀ name ∈ linkTarget directory (new text), ValidName name := by
  have hparts : ∀ name, .normal name ∈ (new text).parts → ValidName name :=
    fun name hname => new_valid hname
  unfold linkTarget
  grind [resolve_valid]

/-- The restarts agree. -/
theorem restartsAgree (hroot : tree.IsDirectory []) (budget : ℕ) :
    RestartsAgree tree (restartWalk (treeResolver tree flags) follow budget)
      (posixRestart tree follow (flags.contains .MS_NOSYMFOLLOW) budget) := by
  induction budget with
  | zero => exact trivial
  | succ budget ih =>
  intro htargets directory name target rest hdir hget hvalid
  have hslash : (new target).endsWithSlash = false := htargets _ target hget
  rw [rewriteSymlinkTarget_absolute, hslash, Bool.false_and, posixFrom_eq]
  -- Both walks go on from the directory that the target's `..` lead up to.
  obtain ⟨base, hbase, hlink, hwalk⟩ := posixComponents_normalize follow false directory
    (rest.map .normal)
  have hvalid' : ∀ name ∈ linkTarget directory (new target) ++ rest, ValidName name := by
    intro name' hname'
    rcases mem_append.mp hname' with h | h
    · grind [linkTarget_valid]
    · exact hvalid name' (mem_append_right _ h)
  have hread : (readLexically target).parts = (new target).normalize.parts := rfl
  rw [hread, hwalk, ← map_append]
  rw [hlink, append_assoc] at hvalid' ⊢
  rw [resolveFrom_again hroot follow false budget (hdir.of_prefix hbase) hvalid']
  exact walkComponents_agrees ih false _ base (hdir.of_prefix hbase) hvalid' (.inl ⟨rfl, htargets⟩)

/-- The walk along the normalized path. -/
theorem resolveFrom_normalize (hroot : tree.IsDirectory []) (flags : MountFlags) (follow : Bool)
    (budget : ℕ) (hvalid : ∀ name ∈ resolve [] path.parts, ValidName name) :
    resolveFrom (treeResolver tree flags) follow budget path.normalize =
      walkComponents (treeResolver tree flags) follow path.endsWithSlash
        (restartWalk (treeResolver tree flags) follow budget) (.directory [])
        (absolute [] false) (resolve [] path.parts) := by
  obtain ⟨front, hparts, hfront⟩ := path.normalize_parts
  have hnames : path.normalize.normalize.names = resolve [] path.parts := by
    have htop : resolve [] front = [] := by
      rcases hfront with ⟨-, rfl⟩ | ⟨-, n, rfl⟩
      · rfl
      · exact resolve_parentDirs [] n (Nat.zero_le n)
    simp [names_normalize, hparts, resolve_append, htop]
  rw [resolveFrom_eq, treeResolver_resolveRoot tree flags hroot, hnames, new_root]
  rcases eq_nil_or_concat (resolve [] path.parts) with hnil | ⟨init, last, hlast⟩
  · rw [hnil]
    rfl
  rw [concat_eq_append] at hlast
  have hslash : decide (path.normalize.asString.getLast? = some '/') = path.endsWithSlash := by
    have hparts' : path.normalize.parts = (front ++ init.map .normal) ++ [.normal last] := by
      rw [hparts, hlast]
      simp
    have hlastValid : ValidName last := hvalid last (by rw [hlast]; simp)
    rw [Bool.eq_iff_iff, decide_eq_true_iff]
    exact asString_getLast hparts' hlastValid
  rw [hslash]
  rfl

variable {read read' : List Char → Path}

/-- Only the targets in the tree are read. -/
theorem posixComponents_congr {slash : Bool}
    (hread : ∀ location target, tree.get? location = some (.symlink target) →
      read target = read' target) :
    ∀ (parts : List PathPart) (directory : List Name),
      posixComponents tree read follow nosymfollow restart slash directory parts =
        posixComponents tree read' follow nosymfollow restart slash directory parts := by
  intro parts
  induction parts with
  | nil => exact fun directory => rfl
  | cons part rest ih =>
  intro directory
  cases part with
  | root => exact ih []
  | currentDir => exact ih directory
  | parentDir => exact ih directory.dropLast
  | normal name =>
    simp only [posixComponents]
    grind

/-- Only the targets in the tree are read. -/
theorem posixFrom_congr (hread : ∀ location target, tree.get? location = some (.symlink target) →
      read target = read' target) (budget : ℕ) :
    posixFrom tree read follow nosymfollow budget =
      posixFrom tree read' follow nosymfollow budget := by
  induction budget with
  | zero =>
    funext directory parts slash
    exact posixComponents_congr hread parts directory
  | succ budget ih =>
  funext directory parts slash
  refine (posixComponents_congr hread parts directory).trans ?_
  rw [ih]
  rfl

/-- A text without `.` and without `..` behind a name: it is read lexically as it is written. -/
def Plain (text : List Char) : Prop :=
  readLexically text = new text

instance (text : List Char) : Decidable (Plain text) :=
  inferInstanceAs (Decidable (readLexically text = new text))

/-- The targets of all links are plain. -/
def Tree.TargetsPlain (tree : Tree) : Prop :=
  ∀ location target, tree.get? location = some (.symlink target) → Plain target

/-- On plain texts both readings agree. -/
theorem posixResolve_plain {text : List Char} (htext : Plain text)
    (htree : tree.TargetsPlain) : posixResolve tree readLexically follow nosymfollow text =
      posixResolve tree new follow nosymfollow text := by
  unfold posixResolve
  rw [htext, posixFrom_congr htree]

/-- On one mount, `resolve_path` gives the node of the walk part by part, or its error, when this
walk reads the path and the targets of links without `.` and without `..` behind a name, and no
slash at the end is forgotten at a link. -/
theorem resolve_eq_posixResolve (tree : Tree) (hroot : tree.IsDirectory []) (flags : MountFlags)
    (follow : Bool) (text : List Char)
    (hslash : SlashKept tree (new text).endsWithSlash (resolve [] (new text).parts)) :
    Agrees (resolveInTree tree flags follow text)
        (posixResolve tree readLexically follow (flags.contains .MS_NOSYMFOLLOW) text) ∧
      (Plain text → tree.TargetsPlain → Agrees (resolveInTree tree flags follow text)
          (posixResolve tree new follow (flags.contains .MS_NOSYMFOLLOW) text)) := by
  have hvalid : ∀ name ∈ resolve [] (new text).parts, ValidName name :=
    resolve_valid (by simp) fun name hname => new_valid hname
  have hkernel := resolveFrom_normalize hroot flags follow MAX_SYMLINKS hvalid
  obtain ⟨base, hbase, -, hwalk⟩ := posixComponents_normalize follow (new text).endsWithSlash [] []
  obtain rfl := prefix_nil.mp hbase
  rw [append_nil, append_nil] at hwalk
  have hreference : posixResolve tree readLexically follow (flags.contains .MS_NOSYMFOLLOW) text =
      posixComponents tree readLexically follow (flags.contains .MS_NOSYMFOLLOW)
        (posixRestart tree follow (flags.contains .MS_NOSYMFOLLOW) MAX_SYMLINKS)
        (new text).endsWithSlash [] ((resolve [] (new text).parts).map .normal) :=
    (posixFrom_eq tree follow MAX_SYMLINKS [] _ _).trans hwalk
  have hagrees : Agrees (resolveInTree tree flags follow text)
      (posixResolve tree readLexically follow (flags.contains .MS_NOSYMFOLLOW) text) := by
    rw [hreference]
    refine (congrArg (Agrees · _) hkernel).mpr ?_
    exact walkComponents_agrees (restartsAgree hroot MAX_SYMLINKS) _ _ [] hroot hvalid hslash
  grind [posixResolve_plain]

end Agreement

/-! ## Where they differ -/

/-- The directory `a` with the directory `b` in it, and the link `l` to `a/b`. -/
def linkedTree : Tree :=
  .directory [(['a'], .directory [(['b'], .directory [])]), (['l'], .symlink ['a', '/', 'b'])]

/-- Through a link the two walks come to the same node. -/
theorem resolve_linkedTree : Agrees (resolveInTree linkedTree .empty true ['/', 'l'])
      (posixResolve linkedTree new true (MountFlags.empty.contains .MS_NOSYMFOLLOW)
        ['/', 'l']) := by
  have htargets : ∀ location target, linkedTree.get? location = some (.symlink target) →
      target = ['a', '/', 'b'] := by
    intro location target hget
    rcases location with _ | ⟨first, _ | ⟨second, _ | ⟨third, rest⟩⟩⟩ <;>
      simp only [linkedTree, Tree.get?, Tree.child, List.find?_cons] at hget <;>
      repeat' split at hget
    all_goals simp_all
    split at hget <;> simp_all
  refine (resolve_eq_posixResolve linkedTree ⟨_, rfl⟩ .empty true ['/', 'l']
    (.inl ⟨by decide, ?_⟩)).2 (by decide) ?_
  · intro location target hget
    rw [htargets location target hget]
    decide
  · intro location target hget
    rw [htargets location target hget]
    decide

/-- `/l/..` is the root for `resolve_path`, and the directory `a` for the walk part by part. -/
theorem dots_after_link_differ :
    ¬ Agrees (resolveInTree linkedTree .empty true ['/', 'l', '/', '.', '.'])
      (posixResolve linkedTree new true (MountFlags.empty.contains .MS_NOSYMFOLLOW)
        ['/', 'l', '/', '.', '.']) := by
  intro h
  cases h

end Seele.Filesystem
