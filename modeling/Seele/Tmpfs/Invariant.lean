import Mathlib.Logic.Relation
import Seele.Lib.GuardedRun
import Seele.Tmpfs.Rename

/-!
# The tree of a tmpfs over a whole run

`TreeInvariant` says in terms of the maps alone what the four descriptions have to do with each
other. It follows from `TmpfsState.WellFormed`, which the state of a new tmpfs has and every
operation keeps (`TmpfsOp.keeps`); so it holds after every sequence of operations, and an operation
that returns an error there has changed nothing (`run_keeps_tree`).
-/

namespace Seele.Tmpfs

open Seele.Lib Seele.Filesystem TmpfsState AList

/-! ## The invariant -/

/-- The path names a directory with these entries. -/
def TmpfsState.IsDirectoryAt (s : TmpfsState) (path : List Char) (d : ℕ) (children : List Name) :
    Prop :=
  s.paths.lookup path = some d ∧ ∃ nd mode, s.nodes.lookup d = some nd ∧
    nd.kind = .directory children mode

/-- The node is an entry of the directory. -/
def TmpfsState.IsEntry (s : TmpfsState) (d i : ℕ) : Prop :=
  ∃ path children name, s.IsDirectoryAt path d children ∧ name ∈ children ∧
    s.paths.lookup (childPath path name) = some i

/-- What the four descriptions of the tree have to do with each other. -/
structure TreeInvariant (s : TmpfsState) : Prop where
  /-- The root is a directory. -/
  root : ∃ d children, s.IsDirectoryAt ['/'] d children
  /-- Every entry of a directory has its path. -/
  listed : ∀ path d children name, s.IsDirectoryAt path d children → name ∈ children →
    childPath path name ∈ s.paths
  /-- Every other path is that of an entry of a directory. -/
  placed : ∀ path ∈ s.paths, path ≠ ['/'] → ∃ parent d children name,
    s.IsDirectoryAt parent d children ∧ name ∈ children ∧ path = childPath parent name
  /-- A directory has one path. -/
  once : ∀ path path' d children children', s.IsDirectoryAt path d children →
    s.IsDirectoryAt path' d children' → path = path'
  /-- The link count is the number of paths that name the inode. -/
  linkCount : ∀ inode nd, s.nodes.lookup inode = some nd → nd.linkCount = s.nameCount inode
  /-- Every named inode exists. -/
  named : ∀ path inode, s.paths.lookup path = some inode → inode ∈ s.nodes
  /-- Without a name an inode exists only while it is open. -/
  unlinked : ∀ inode nd, s.nodes.lookup inode = some nd → nd.linkCount = 0 → 0 < nd.openCount
  /-- No directory is below itself. -/
  acyclic : ∀ d, ¬ Relation.TransGen s.IsEntry d d

section Invariant

variable {s : TmpfsState} (hs : s.WellFormed)

include hs

variable {children : List Name}

/-- The names of a directory. -/
theorem TmpfsState.WellFormed.names_of_directory {path : List Char} {d : ℕ}
    (h : s.IsDirectoryAt path d children) :
    ∃ names, Path.ValidNames names ∧ path = Path.text names ∧ s.tree.locate names = some d ∧
      s.tree.entries d = some children := by
  obtain ⟨hpath, nd, mode, hnd, hkind⟩ := h
  grind [hs.names_of, entries_of_kind]

/-- What is located as one is a directory. -/
theorem TmpfsState.WellFormed.isDirectoryAt {names : List Name} {d : ℕ}
    (hloc : s.tree.locate names = some d) (hentries : s.tree.entries d = some children) :
    s.IsDirectoryAt (Path.text names) d children := by
  obtain ⟨-, hpath⟩ := valid_of_locate hloc
  obtain ⟨nd, hnd⟩ := hs.named _ d hpath
  rw [entries_of hnd] at hentries
  obtain ⟨mode, hkind⟩ := TmpNodeKind.entries_eq_some hentries
  exact ⟨hpath, nd, mode, hnd, hkind⟩

/-- What lies below a directory has more names. -/
theorem TmpfsState.WellFormed.below {d i : ℕ} (h : Relation.TransGen s.IsEntry d i) :
    ∃ names children suffix, s.tree.locate names = some d ∧ s.tree.entries d = some children ∧
      suffix ≠ [] ∧ s.tree.locate (names ++ suffix) = some i := by
  -- One entry, as one name behind those of the directory.
  have hentry : ∀ {d i}, s.IsEntry d i → ∃ names children name, s.tree.locate names = some d ∧
      s.tree.entries d = some children ∧ s.tree.locate (names ++ [name]) = some i := by
    rintro d i ⟨path, children, name, hdir, hname, hi⟩
    grind [hs.names_of_directory, hs.tree.listed, valid_of_locate, childPath_text]
  induction h with
  | single h => grind
  | tail _ h ih =>
  obtain ⟨names, children, suffix, hloc, hentries, -, he⟩ := ih
  obtain ⟨names', children', name, hloc', hentries', hi⟩ := hentry h
  obtain rfl := hs.tree.once hloc' he hentries'
  refine ⟨names, children, suffix ++ [name], hloc, hentries, by simp, ?_⟩
  rw [← List.append_assoc, hi]

/-- A well-formed state is a tree. -/
theorem TmpfsState.WellFormed.treeInvariant : TreeInvariant s := by
  constructor
  · obtain ⟨d, children, hloc, hentries⟩ := hs.tree.root
    exact ⟨d, children, hs.isDirectoryAt hloc hentries⟩
  · intro path d children name hdir hname
    obtain ⟨names, hnames, rfl, hloc, hentries⟩ := hs.names_of_directory hdir
    obtain ⟨i, hi⟩ := hs.tree.listed hloc hentries hname
    obtain ⟨-, hpath⟩ := valid_of_locate hi
    rw [childPath_text hnames, ← lookup_isSome, hpath]
    rfl
  · intro path hpath hroot
    obtain ⟨i, hi⟩ := Option.isSome_iff_exists.mp (lookup_isSome.mpr hpath)
    obtain ⟨names, hnames, rfl, hloc⟩ := hs.names_of hi
    rcases names.eq_nil_or_concat' with rfl | ⟨front, name, rfl⟩
    · exact absurd Path.text_nil hroot
    · obtain ⟨d, children, hd, hentries, hname⟩ := hs.tree.placed hloc
      refine ⟨Path.text front, d, children, name, hs.isDirectoryAt hd hentries, hname, ?_⟩
      rw [childPath_text (Path.validNames_concat.mp hnames).1]
  · grind [hs.names_of_directory, hs.tree.once]
  · exact hs.linkCount
  · grind [hs.named, lookup_isSome]
  · exact hs.unlinked
  intro d h
  obtain ⟨names, children, suffix, hloc, hentries, hne, hloc'⟩ := hs.below h
  have hplace := hs.tree.once hloc hloc' hentries
  exact hne (List.append_cancel_left ((List.append_nil names).trans hplace)).symm

end Invariant

/-! ## The operations and their runs -/

/-- There is the root's path only. -/
theorem new_paths_lookup (path : List Char) :
    new.paths.lookup path = if path = ['/'] then some ROOT_INODE else none := by
  unfold new
  rw [← insert_empty]
  grind [lookup_insert, lookup_insert_ne, lookup_empty]

/-- There is the root's node only. -/
theorem new_nodes_lookup {inode : ℕ} {nd : TmpNode}
    (h : new.nodes.lookup inode = some nd) : inode = ROOT_INODE ∧
      nd = ⟨ROOT_INODE, 0, 0, 1, 0, .directory [] DEFAULT_DIR_MODE⟩ := by
  unfold new at h
  dsimp only at h
  rw [← insert_empty] at h
  grind [lookup_insert, lookup_insert_ne, lookup_empty]

/-- There is the root only. -/
theorem new_tree_locate {names : List Name} {i : ℕ} (h : new.tree.locate names = some i) :
    names = [] ∧ i = ROOT_INODE := by
  obtain ⟨hvalid, hpath⟩ := valid_of_locate h
  grind [new_paths_lookup, Path.text_inj, Path.text_nil.symm]

/-- A new file system is well formed. -/
theorem wellFormed_new : new.WellFormed := by
  have hroot : new.tree.entries ROOT_INODE = some [] := rfl
  have hentries : ∀ {i es}, new.tree.entries i = some es → es = [] := by
    intro i es hes
    obtain ⟨nd, hnd, hes⟩ := Option.bind_eq_some_iff.mp hes
    grind [new_nodes_lookup]
  refine .of_nodes ?_ ?_ (Nat.le_of_ble_eq_true rfl) ?_ ?_
  · intro path hpath
    rw [← lookup_isSome, new_paths_lookup] at hpath
    by_cases h : path = ['/']
    · exact ⟨[], List.forall_mem_nil _, h⟩
    · rw [if_neg h] at hpath
      cases hpath
  · constructor
    · exact ⟨ROOT_INODE, [], rfl, hroot⟩
    · grind [new_tree_locate]
    · grind
    · grind [new_tree_locate]
    · grind
  · intro path inode hpath
    rw [new_paths_lookup] at hpath
    by_cases h : path = ['/']
    · rw [if_pos h] at hpath
      cases hpath
      exact ⟨_, rfl⟩
    · rw [if_neg h] at hpath
      cases hpath
  · intro inode nd hnd
    obtain ⟨rfl, rfl⟩ := new_nodes_lookup hnd
    exact ⟨rfl, rfl, by simp, Nat.lt_succ_self _, by decide⟩

/-- The result does not count. -/
theorem Keeps.discard {α : Type} {x : TmpfsM α} (h : Keeps x) : Keeps (x >>= fun _ => pure ()) := by
  intro s r s' hs hrun
  rcases Cmd.bind_eq_some.mp hrun with ⟨a, t, h1, h2⟩ | ⟨e, h1, rfl⟩
  · cases h2
    exact ⟨(h s _ _ hs h1).1, nofun⟩
  · obtain ⟨hs', he⟩ := h s _ s' hs h1
    exact ⟨hs', fun _ _ => he e rfl⟩

/-- `link` keeps it well formed. -/
theorem link_keeps {names : List Name} (oldPath : List Char) (hnames : Path.ValidNames names) :
    Keeps (link oldPath (Path.text names)) := by
  intro s r s' hs h
  obtain ⟨-, rfl⟩ | ⟨i, -, h2⟩ := (inodeForPath_finds _ s).bind_cases h
  · exact ⟨hs, fun _ _ => rfl⟩
  · exact linkInode_keeps hnames s r s' hs h2

/-- Every operation keeps it well formed. -/
theorem TmpfsOp.keeps (op : TmpfsOp) : Keeps op.run := by
  cases op with
  | createFile owner directory name mode rdev =>
    refine createNode_keeps name.2 (.inl ?_)
    split_ifs <;> rfl
  | createDirectory owner directory name mode => exact createNode_keeps name.2 (.inr rfl)
  | createSymlink owner directory name target => exact createNode_keeps name.2 (.inl rfl)
  | delete directory name => exact deleteNode_keeps name.2
  | link oldPath newPath =>
    rw [TmpfsOp.run, absoluteTmpPath_eq newPath]
    exact link_keeps _ newPath.valid
  | linkTo inode newPath =>
    rw [TmpfsOp.run, newPath.asString_eq]
    exact linkInode_keeps newPath.valid
  | rename oldPath newPath =>
    rw [TmpfsOp.run, absoluteTmpPath_eq, absoluteTmpPath_eq]
    exact rename_keeps oldPath.valid newPath.valid
  | lookup path | get directory name => exact (tmpfsLookupPath_keeps _).discard
  | close inode => exact releaseInode_keeps

/-- After every sequence of operations the four descriptions of the tree agree, and an operation
that returns an error leaves the whole state as it was. -/
theorem run_keeps_tree (ops : List TmpfsOp) (s : TmpfsState)
    (hrun : runOps (fun op => op.run.next) ops new = some s) :
    TreeInvariant s ∧ ∀ (op : TmpfsOp) e s', op.run s = some (.error e, s') → s' = s := by
  have hs : s.WellFormed := by
    refine runOps_invariant (I := TmpfsState.WellFormed) (fun op t t' hstep ht => ?_)
      wellFormed_new hrun
    obtain ⟨r, hr⟩ := Cmd.next_eq_some.mp hstep
    exact (op.keeps t r t' ht hr).1
  exact ⟨hs.treeInvariant, fun op e s' h => (op.keeps s _ s' hs h).2 e rfl⟩

/-- Two directories and a file are made, the file is opened and linked, and the one directory is
moved over the other. -/
def movedDirectory : List TmpfsOp :=
  [.createDirectory (0, 0) ['/'] ⟨['a'], by decide⟩ 0o755,
    .createDirectory (0, 0) ['/'] ⟨['b'], by decide⟩ 0o755,
    .createFile (0, 0) ['/', 'a'] ⟨['f'], by decide⟩ 0o644 0, .lookup ⟨[['a'], ['f']], by decide⟩,
    .link ⟨[['a'], ['f']], by decide⟩ ⟨[['g']], by decide⟩,
    .rename ⟨[['a']], by decide⟩ ⟨[['b']], by decide⟩, .delete ['/', 'b'] ⟨['f'], by decide⟩]

/-- The run of those operations does not stop. -/
theorem run_keeps_tree_movedDirectory :
    ∃ s, runOps (fun op => op.run.next) movedDirectory new = some s ∧ TreeInvariant s := by
  have hsome : (runOps (fun op => op.run.next) movedDirectory new).isSome = true := by
    decide +kernel
  obtain ⟨s, hs⟩ := Option.isSome_iff_exists.mp hsome
  exact ⟨s, hs, (run_keeps_tree movedDirectory s hs).1⟩

end Seele.Tmpfs
