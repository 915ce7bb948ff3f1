import Seele.Filesystem.Dirents
import Seele.Tmpfs.Invariant

/-!
# Creating a file and listing its directory

A name goes through three representations: the bytes that a process passes, the characters that a
tmpfs keeps, and the bytes in the records of a listing. The names of a tmpfs all come from
`path_from_raw` (`run_names`), so that every record fits and no name has a zero in it, and a process
that lists a directory finds each entry with the encoding of its name.

So a file that was created with some bytes is listed with exactly these bytes if and only if all of
them are below 0x80 (`listed_name_iff`), and distinct byte strings lead to distinct names.
-/

namespace Seele.Tmpfs

open Seele.Lib Seele.Filesystem TmpfsState List Cmd.Always Cmd

/-! ## The entries of a directory -/

/-- The type of an entry in `contents`. -/
def TmpNodeKind.contentType : TmpNodeKind → DirectoryContentType
  | .directory _ _ => .directory
  | .file _ _ | .device _ _ => .file
  | .symlink _ => .symlink

/-- The loop of `contents`. -/
def contentsOf (path : List Char) : List Name → TmpfsM (List DirectoryContentInfo)
  | [] => return []
  | child :: children => do
    let childNode ← node (childPath path child)
    let entries ← contentsOf path children
    return ⟨child, childNode.kind.contentType, childNode.inode⟩ :: entries

/-- `contents`. -/
def contents (path : List Char) : TmpfsM (List DirectoryContentInfo) := do
  contentsOf path (← directoryChildren path)

section Contents

variable {s : TmpfsState} {path : List Char} {children : List Name}

/-- The entries of the children. -/
theorem contentsOf_eq (hs : s.WellFormed) (h : ∀ child ∈ children, childPath path child ∈ s.paths) :
    ∃ infos, contentsOf path children s = some (.ok infos, s) ∧ infos.map (·.name) = children ∧
      ∀ info ∈ infos, s.paths.lookup (childPath path info.name) = some info.inode := by
  induction children with
  | nil => exact ⟨[], rfl, rfl, forall_mem_nil _⟩
  | cons child children ih =>
  obtain ⟨infos, hrun, hnames, hinodes⟩ := ih fun c hc => h c (mem_cons_of_mem _ hc)
  obtain ⟨i, hi⟩ := Option.isSome_iff_exists.mp (AList.lookup_isSome.mpr (h child mem_cons_self))
  obtain ⟨nd, hnd⟩ := hs.named _ i hi
  refine ⟨⟨child, nd.kind.contentType, nd.inode⟩ :: infos, ?_, ?_, ?_⟩
  · rw [contentsOf, bind_of_ok (node_of hi hnd), bind_of_ok hrun]
    rfl
  · rw [map_cons, hnames]
  · grind [hs.self]

/-- The contents of a directory are its children. -/
theorem contents_eq (hs : s.WellFormed) {d : ℕ} (h : s.IsDirectoryAt path d children) :
    ∃ infos, contents path s = some (.ok infos, s) ∧ infos.map (·.name) = children ∧
      ∀ info ∈ infos, s.paths.lookup (childPath path info.name) = some info.inode := by
  obtain ⟨infos, hrun, hrest⟩ := contentsOf_eq hs fun child hchild =>
    hs.treeInvariant.listed path d children child h hchild
  obtain ⟨hpath, nd, mode, hnd, hkind⟩ := h
  refine ⟨infos, ?_, hrest⟩
  have hchildren : directoryChildren path s = some (.ok children, s) := by
    unfold directoryChildren
    rw [bind_of_ok (node_of hpath hnd), hkind]
    rfl
  unfold contents
  rw [bind_of_ok hchildren, hrun]

end Contents

/-! ## Where the names come from -/

/-- The names that an operation may put into the tree. -/
def TmpfsOp.names : TmpfsOp → List Name
  | .createFile _ _ name _ _ | .createDirectory _ _ name _ | .createSymlink _ _ name _ => [name.1]
  | .link _ newPath | .linkTo _ newPath | .rename _ newPath => newPath.names
  | .delete _ _ | .lookup _ | .get _ _ | .close _ => []

/-- All names of the tree have a property. -/
def TmpfsState.AllNames (P : Name → Prop) (s : TmpfsState) : Prop :=
  ∀ names i, s.tree.locate names = some i → ∀ name ∈ names, P name

section Names

variable {s s' : TmpfsState} {P : Name → Prop} {names : List Name}

/-- A path of such names is added. -/
theorem TmpfsState.AllNames.insert (h : s.AllNames P) {i : ℕ} (hnames : ∀ name ∈ names, P name)
    (hpaths : s'.paths = s.paths.insert (Path.text names) i) (hvalid : Path.ValidNames names) :
    s'.AllNames P := by
  intro ms j hj
  obtain ⟨hms, hlookup⟩ := valid_of_locate hj
  by_cases heq : ms = names
  · rw [heq]
    exact hnames
  · have htext : Path.text ms ≠ Path.text names := fun h => heq (Path.text_inj hms hvalid h)
    rw [hpaths, AList.lookup_insert_ne htext] at hlookup
    exact h ms j ((locate_of hms).trans hlookup)

/-- Paths only go. -/
theorem TmpfsState.AllNames.mono (h : s.AllNames P)
    (hpaths : ∀ path i, s'.paths.lookup path = some i → s.paths.lookup path = some i) :
    s'.AllNames P := by
  intro ms j hj
  obtain ⟨hms, hlookup⟩ := valid_of_locate hj
  exact h ms j ((locate_of hms).trans (hpaths _ _ hlookup))

variable {name : Name}

/-- The names of a child's path. -/
theorem TmpfsState.AllNames.concat (h : s.AllNames P) {d : ℕ}
    (hvalid : Path.ValidNames names) (hd : s.paths.lookup (Path.text names) = some d)
    (hname : P name) : ∀ n ∈ names ++ [name], P n := by
  refine forall_mem_append.mpr ⟨?_, forall_mem_singleton.mpr hname⟩
  exact h names d ((locate_of hvalid).trans hd)

/-- A move to such names. -/
theorem TmpfsState.AllNames.moved (h : s.AllNames P) {os ns : List Name} {o n : Name} {dO dN : ℕ}
    (hmove : s.CanMove os ns o n dO dN) (hmoved : Moved os ns o n dO dN s s')
    (hnew : ∀ name ∈ ns ++ [n], P name) : s'.AllNames P := by
  intro ms j hj
  obtain ⟨hms, hlookup⟩ := valid_of_locate hj
  by_cases hB : ns ++ [n] <+: ms
  · obtain ⟨suffix, rfl⟩ := hB
    obtain ⟨-, hsuffix⟩ := Path.validNames_append.mp hms
    rw [hmoved.paths.came suffix hsuffix] at hlookup
    have hold : Path.ValidNames (os ++ [o] ++ suffix) :=
      Path.validNames_append.mpr ⟨hmove.validOld, hsuffix⟩
    refine forall_mem_append.mpr ⟨hnew, ?_⟩
    exact (forall_mem_append.mp (h _ j ((locate_of hold).trans hlookup))).2
  by_cases hA : os ++ [o] <+: ms
  · grind [hmoved.paths.left]
  · rw [hmoved.paths.others ms hms hA hB] at hlookup
    exact h ms j ((locate_of hms).trans hlookup)

variable {r : Except FSError Unit}

/-- Creation keeps the names so. -/
theorem createNode_names {owner : UInt32 × UInt32} {parent : List Char}
    {kind : TmpNodeKind} (hs : s.WellFormed) (h : s.AllNames P) (hvalid : Path.ValidName name)
    (hname : P name) (hrun : createNode owner parent name kind s = some (r, s')) :
    s'.AllNames P := by
  rcases createNode_spec hs hrun with ⟨-, rfl⟩ | ⟨d, dir, children, mode, gid, setgid, -,
    hd, -, -, -, -, -, rfl⟩
  · exact h
  obtain ⟨ns, hns, hparent, -⟩ := hs.names_of hd
  rw [hparent] at hd
  rw [hparent, childPath_text hns]
  exact h.insert (h.concat hns hd hname) rfl (Path.validNames_concat.mpr ⟨hns, hvalid⟩)

/-- Deletion keeps the names so. -/
theorem deleted_names {child : List Char} {i d : ℕ} {nd dir : TmpNode} (h : s.AllNames P) :
    (s.deleted child i nd d dir).AllNames P := by
  refine h.mono fun path j hj => ?_
  have hlookup : (s.paths.erase child).lookup path = some j := hj
  grind [AList.lookup_erase, AList.lookup_erase_ne]

/-- A link keeps the names so. -/
theorem linkInode_names {i : ℕ} (hs : s.WellFormed)
    (h : s.AllNames P) (hvalid : Path.ValidNames names) (hnames : ∀ name ∈ names, P name)
    (hrun : linkInode i (Path.text names) s = some (r, s')) : s'.AllNames P := by
  rcases linkInode_spec hs hvalid hrun with ⟨-, rfl⟩ | ⟨ns, name, d, dir, children, mode, nd, -,
    rfl, -, -, -, -, -, -, -, rfl⟩
  · exact h
  · exact h.insert hnames rfl hvalid

/-- A rename keeps the names so. -/
theorem rename_names {names' : List Name} (hs : s.WellFormed)
    (h : s.AllNames P) (hvalid : Path.ValidNames names) (hvalid' : Path.ValidNames names')
    (hnames' : ∀ name ∈ names', P name)
    (hrun : rename (Path.text names) (Path.text names') s = some (r, s')) : s'.AllNames P := by
  rcases rename_spec hs hvalid hvalid' hrun with ⟨-, rfl⟩ | ⟨-, -, rfl⟩ | ⟨os, o, ns, n, dO, dN,
    t, -, rfl, -, -, hgone, hcan, hmoved⟩
  · exact h
  · exact h
  have ht : t.AllNames P := by
    rcases hgone with ⟨-, rfl⟩ | ⟨dir, children, mode, i, nd, -, -, -, -, -, rfl⟩
    · exact h
    · exact deleted_names h
  exact ht.moved hcan hmoved hnames'

/-- The command leaves the paths alone. -/
def SamePaths (s s' : TmpfsState) : Prop :=
  s'.paths = s.paths

instance : Std.Refl SamePaths := ⟨fun _ => rfl⟩

instance : IsTrans TmpfsState SamePaths := ⟨fun _ _ _ h h' => Eq.trans h' h⟩

variable (i : ℕ)

/-- `node_by_inode` keeps the paths. -/
theorem nodeByInode_samePaths : Always SamePaths (nodeByInode i) :=
  fun _ r s' h => (nodeByInode_finds r s' h).1 ▸ rfl

/-- `set_node` keeps the paths. -/
theorem setNode_samePaths (nd : TmpNode) : Always SamePaths (setNode i nd) :=
  modify fun _ => rfl

/-- `retain_inode` keeps the paths. -/
theorem retainInode_samePaths : Always SamePaths (retainInode i) := by
  refine (nodeByInode_samePaths i).bind fun nd => ?_
  split_ifs
  · exact (Always.throw _).bind fun _ => setNode_samePaths i _
  · exact setNode_samePaths i _

/-- `release_inode` keeps the paths. -/
theorem releaseInode_samePaths : Always SamePaths (releaseInode i) := by
  refine (nodeByInode_samePaths i).bind fun nd => ?_
  have hrest : Always SamePaths (do
      setNode i { nd with openCount := nd.openCount - 1 }
      if nd.openCount - 1 = 0 ∧ nd.linkCount = 0 then
        modify fun s => { s with nodes := s.nodes.erase i }) := by
    refine (setNode_samePaths i _).bind fun _ => ?_
    split_ifs
    · exact modify fun _ => rfl
    · exact pure ()
  by_cases hclosed : nd.openCount = 0
  · rw [if_pos hclosed]
    exact (Always.throw _).bind fun _ => hrest
  · rw [if_neg hclosed]
    exact hrest

/-- A lookup keeps the paths. -/
theorem tmpfsLookupPath_samePaths (path : List Char) :
    Always SamePaths (tmpfsLookupPath path) := by
  have hnode : Always SamePaths (node (normalize path)) := fun s r s' h =>
    (node_finds r s' h).1 ▸ rfl
  refine hnode.bind fun found => ?_
  have hopen : ∀ k : TmpNode → TmpfsM TmpfsHandle, (∀ nd, Always SamePaths (k nd)) →
      Always SamePaths (retainInode found.inode >>= fun _ => nodeByInode found.inode >>= k) :=
    fun k hk => (retainInode_samePaths _).bind fun _ => (nodeByInode_samePaths _).bind hk
  cases found.kind with
  | directory entries mode | symlink target => exact pure _
  | file mode rdev | device mode rdev =>
    refine hopen _ fun nd => ?_
    cases nd.kind <;> exact pure _

/-- Every operation keeps the names so. -/
theorem TmpfsOp.allNames {op : TmpfsOp} (hs : s.WellFormed)
    (h : s.AllNames P) (hnames : ∀ name ∈ op.names, P name) (hrun : op.run s = some (r, s')) :
    s'.AllNames P := by
  have hsame : ∀ {α : Type} {x : TmpfsM α}, Always SamePaths x →
      (x >>= fun _ => pure ()) s = some (r, s') → s'.AllNames P := by
    intro α x hx hrun
    have hpaths : s'.paths = s.paths := (hx.bind fun _ => pure ()) s r s' hrun
    exact h.mono fun path i hi => by rwa [hpaths] at hi
  cases op with
  | createFile owner directory name mode rdev | createDirectory owner directory name mode
  | createSymlink owner directory name target =>
    exact createNode_names hs h name.2 (hnames _ mem_cons_self) hrun
  | delete directory name =>
    rcases deleteNode_spec hs name.2 hrun with ⟨-, rfl⟩ | ⟨ns, d, dir, children, mode, i,
      nd, -, -, -, -, -, -, -, -, -, rfl⟩
    · exact h
    · exact deleted_names h
  | link oldPath newPath =>
    rw [TmpfsOp.run, absoluteTmpPath_eq newPath] at hrun
    obtain ⟨-, rfl⟩ | ⟨i, -, h2⟩ := (inodeForPath_finds _ s).bind_cases hrun
    · exact h
    · exact linkInode_names hs h newPath.valid hnames h2
  | linkTo inode newPath =>
    rw [TmpfsOp.run, newPath.asString_eq] at hrun
    exact linkInode_names hs h newPath.valid hnames hrun
  | rename oldPath newPath =>
    rw [TmpfsOp.run, absoluteTmpPath_eq, absoluteTmpPath_eq] at hrun
    exact rename_names hs h oldPath.valid newPath.valid hnames hrun
  | lookup path | get directory name => exact hsame (tmpfsLookupPath_samePaths _) hrun
  | close inode =>
    have hpaths : s'.paths = s.paths := releaseInode_samePaths inode s r s' hrun
    exact h.mono fun path i hi => by rwa [hpaths] at hi

end Names

/-! ## What a listing shows -/

/-- The name is one that `path_from_raw` can give. -/
def RawName (name : Name) : Prop :=
  ∃ bytes, FileNameBytes bytes ∧ name = decode bytes

/-- A run keeps the names raw. -/
theorem run_names {ops : List TmpfsOp} (hops : ∀ op ∈ ops, ∀ name ∈ op.names, RawName name)
    {s s' : TmpfsState} (hs : s.WellFormed) (hnames : s.AllNames RawName)
    (hrun : runOps (fun op => op.run.next) ops s = some s') :
    s'.WellFormed ∧ s'.AllNames RawName := by
  induction ops generalizing s with
  | nil =>
    cases hrun
    exact ⟨hs, hnames⟩
  | cons op ops ih =>
  obtain ⟨t, hstep, hrest⟩ := Option.bind_eq_some_iff.mp hrun
  obtain ⟨r, hr⟩ := next_eq_some.mp hstep
  obtain ⟨hop, hops⟩ := forall_mem_cons.mp hops
  exact ih hops (op.keeps s r t hs hr).1 (op.allNames hs hnames hop hr) hrest

/-- A new file system has no names. -/
theorem allNames_new (P : Name → Prop) : new.AllNames P := by
  intro names i h
  rw [(new_tree_locate h).1]
  exact forall_mem_nil _

section Listing

variable {s : TmpfsState} {path : List Char}

/-- The entries of a directory can be listed. -/
theorem listable_of (hs : s.WellFormed) (hnames : s.AllNames RawName)
    (hnext : s.nextInode ≤ U64_MAX) {d : ℕ} {children : List Name}
    (hdir : s.IsDirectoryAt path d children) {info : DirectoryContentInfo}
    (hname : info.name ∈ children)
    (hinode : s.paths.lookup (childPath path info.name) = some info.inode) :
    Listable info ∧ info.inode ≠ 0 ∧ Path.ValidName info.name := by
  obtain ⟨names, hvalid, rfl, hloc, hentries⟩ := hs.names_of_directory hdir
  obtain ⟨i, hi⟩ := hs.tree.listed hloc hentries hname
  obtain ⟨hvalid', hlookup⟩ := valid_of_locate hi
  rw [childPath_text hvalid, hlookup] at hinode
  cases hinode
  obtain ⟨nd, hnd⟩ := hs.named _ _ hlookup
  obtain ⟨bytes, hbytes, hdecode⟩ := hnames _ _ hi info.name (by simp)
  have hfresh := hs.fresh _ nd hnd
  have hmax : U64_MAX < 256 ^ 8 := by decide
  refine ⟨⟨?_, ?_, by omega⟩, (hs.positive _ nd hnd).ne', (Path.validNames_concat.mp hvalid').2⟩
  · grind [length_nameBytes_decode, hbytes.length]
  · rw [hdecode]
    exact zero_notMem_nameBytes hbytes.nul

variable {infos : List DirectoryContentInfo}

/-- The dot entries come first. -/
theorem withDotEntries_eq (h : ∀ info ∈ infos, Path.ValidName info.name) :
    withDotEntries infos = ⟨['.'], .directory, 0⟩ :: ⟨['.', '.'], .directory, 0⟩ :: infos := by
  unfold withDotEntries
  have hdot : infos.any (·.name = ['.']) = false := by
    rw [any_eq_false]
    intro info hinfo
    simpa using (h info hinfo).2.2.1
  have hdots : infos.any (·.name = ['.', '.']) = false := by
    rw [any_eq_false]
    intro info hinfo
    simpa using (h info hinfo).2.2.2
  rw [hdot, hdots]
  rfl

/-- What is listed, as a set. -/
theorem mem_listed (h : ∀ info ∈ infos, info.inode ≠ 0)
    {offset inode : ℕ} {bytes : List UInt8} : (inode, bytes) ∈ listed infos offset ↔
      ∃ info ∈ infos, info.inode = inode ∧ nameBytes info.name = bytes := by
  induction infos generalizing offset with
  | nil => simp [listed]
  | cons info infos ih =>
  obtain ⟨hinfo, hinfos⟩ := forall_mem_cons.mp h
  rw [listed_cons, mem_cons, ih hinfos, direntInode, if_pos hinfo, exists_mem_cons_iff,
    Prod.mk.injEq]
  grind

/-- A directory is listed as it is. -/
theorem list_directory (hs : s.WellFormed) (hnames : s.AllNames RawName)
    (hnext : s.nextInode ≤ U64_MAX) {d : ℕ} {children : List Name}
    (hdir : s.IsDirectoryAt path d children) {layout : DirentLayout}
    (hlayout : layout = layout64 ∨ layout = layout32) {len : ℕ} (hlen : MAX_RECLEN ≤ len) :
    ∃ infos written, contents path s = some (.ok infos, s) ∧
      readDirectory (writeDirentsWith layout) (withDotEntries infos) len
        ((withDotEntries infos).length + 1) 0 = some (.ok written) ∧
      ∀ inode bytes, (inode, bytes) ∈
          (parseRecords layout.nameStart (withDotEntries infos).length written).drop 2 ↔
        ∃ name ∈ children, s.paths.lookup (childPath path name) = some inode ∧
          nameBytes name = bytes := by
  obtain ⟨infos, hcontents, hinfos, hinodes⟩ := contents_eq hs hdir
  have hlistable : ∀ info ∈ infos, Listable info ∧ info.inode ≠ 0 ∧ Path.ValidName info.name := by
    grind [listable_of]
  have hdots := withDotEntries_eq fun info hinfo => (hlistable info hinfo).2.2
  have hall : ∀ info ∈ withDotEntries infos, Listable info := by
    rw [hdots]
    refine forall_mem_cons.mpr ⟨⟨by decide, by decide, by decide⟩, ?_⟩
    refine forall_mem_cons.mpr ⟨⟨by decide, by decide, by decide⟩, ?_⟩
    exact fun info hinfo => (hlistable info hinfo).1
  have hfit : RecordsFit layout len (withDotEntries infos) := by
    rcases hlayout with rfl | rfl
    · exact recordsFit64 hlen hall
    · exact recordsFit32 hlen hall
  have hlen' : 24 ≤ len := Nat.le_trans (by decide) hlen
  obtain ⟨written, hread, hparse⟩ := readDirectory_eq hfit hlen'
  refine ⟨infos, written, hcontents, hread, fun inode bytes => ?_⟩
  have hdrop : (listed (withDotEntries infos) 0).drop 2 = listed infos 2 := by
    rw [hdots, listed_cons, listed_cons]
    rfl
  grind [mem_listed]

/-- The directory after a file was created in it: its entries, and the one that names the new
inode. -/
theorem created_directory (hs : s.WellFormed) {s' : TmpfsState} {owner : UInt32 × UInt32}
    {directory : List Char} {name : Name} {kind : TmpNodeKind} (hname : Path.ValidName name)
    (hcreate : createNode owner directory name kind s = some (.ok (), s')) :
    ∃ d children, s'.IsDirectoryAt (normalize directory) d children ∧ name ∈ children ∧
      s'.nextInode ≤ U64_MAX ∧
      ∀ n, Path.ValidName n →
        (s'.paths.lookup (childPath (normalize directory) n) = some s.nextInode ↔ n = name) := by
  rcases createNode_spec hs hcreate with ⟨⟨e, he⟩, -⟩ | ⟨d, dir, children, mode, gid, setgid, -, hd,
    hdir, hkind, hfree, -, hnext, rfl⟩
  · cases he
  have hne : normalize directory ≠ childPath (normalize directory) name := by
    intro heq
    rw [← heq, hd] at hfree
    cases hfree
  refine ⟨d, children.insert name, ⟨(AList.lookup_insert_ne hne).trans hd, _, mode,
    AList.lookup_insert _, rfl⟩, mem_insert_self, hnext, fun n hn => ?_⟩
  constructor
  · intro hlookup
    by_contra hother
    -- Another name is the path of an older node.
    have hpath : childPath (normalize directory) n ≠ childPath (normalize directory) name := by
      intro heq
      unfold childPath at heq
      grind [append_cancel_left]
    have hold : s.paths.lookup (childPath (normalize directory) n) = some s.nextInode :=
      (AList.lookup_insert_ne hpath).symm.trans hlookup
    obtain ⟨nd, hnd⟩ := hs.named _ _ hold
    exact absurd (hs.fresh _ nd hnd) (Nat.lt_irrefl _)
  · rintro rfl
    exact AList.lookup_insert _

end Listing

/-- A file that a process creates, in any tmpfs with names from `path_from_raw`, is listed by
`getdents` and `getdents64` with the bytes of its name if and only if all of them are below 0x80;
and no other bytes lead to this name. -/
theorem listed_name_iff {ops : List TmpfsOp} (hops : ∀ op ∈ ops, ∀ name ∈ op.names, RawName name)
    {s : TmpfsState} (hrun : runOps (fun op => op.run.next) ops new = some s)
    {bytes : List UInt8} (hbytes : FileNameBytes bytes) {fsContext : FsContext}
    {directoryOf : ℤ → Except SyscallError Path} {dirfd : ℤ} {base : List Name} {name : Name}
    (hbase : baseNames fsContext directoryOf dirfd = .ok base)
    (htarget : createTarget fsContext directoryOf dirfd (some (cString bytes)) =
      .ok (Path.absolute base false, name))
    {owner : UInt32 × UInt32} {directory : List Char} {mode : UInt32} {rdev : UInt64}
    {s' : TmpfsState} (hcreate : createFile owner directory name mode rdev s = some (.ok (), s')) :
    (∀ layout, layout = layout64 ∨ layout = layout32 → ∀ len, MAX_RECLEN ≤ len →
      ∃ infos written, contents (normalize directory) s' = some (.ok infos, s') ∧
        readDirectory (writeDirentsWith layout) (withDotEntries infos) len
          ((withDotEntries infos).length + 1) 0 = some (.ok written) ∧
        ((s.nextInode, bytes) ∈
            (parseRecords layout.nameStart (withDotEntries infos).length written).drop 2 ↔
          ∀ byte ∈ bytes, byte < 0x80)) ∧
      ∀ bytes', FileNameBytes bytes' → bytes' ≠ bytes → ∀ target,
        createTarget fsContext directoryOf dirfd (some (cString bytes')) = .ok target →
          target ≠ (Path.absolute base false, name) := by
  obtain ⟨rfl, hvalid⟩ := createTarget_in_base hbytes hbase htarget
  obtain ⟨hs, hnames⟩ := run_names hops wellFormed_new (allNames_new RawName) hrun
  have hnames' : s'.AllNames RawName :=
    createNode_names hs hnames hvalid ⟨bytes, hbytes, rfl⟩ hcreate
  have hs' : s'.WellFormed :=
    ((TmpfsOp.createFile owner directory ⟨_, hvalid⟩ mode rdev).keeps s _ s' hs hcreate).1
  obtain ⟨d, children, hdir, hmem, hnext, hinode⟩ := created_directory hs hvalid hcreate
  refine ⟨fun layout hlayout len hlen => ?_, fun bytes' hbytes' hne target htarget' => ?_⟩
  · obtain ⟨infos, written, hcontents, hread, hlisted⟩ :=
      list_directory hs' hnames' hnext hdir hlayout hlen
    refine ⟨infos, written, hcontents, hread, ?_⟩
    rw [hlisted, ← nameBytes_decode_eq_iff]
    constructor
    · rintro ⟨n, hn, hlookup, heq⟩
      obtain ⟨names, hdirValid, htext, hloc, hentries⟩ := hs'.names_of_directory hdir
      obtain ⟨i, hi⟩ := hs'.tree.listed hloc hentries hn
      have hnvalid := (Path.validNames_concat.mp (valid_of_locate hi).1).2
      rwa [(hinode n hnvalid).mp hlookup] at heq
    · grind
  · grind [createTarget_injective]

/-- What a process lists in the root directory of a new tmpfs after it has created a file there: the
names in the records of `getdents64`. -/
def namesAfterCreate (bytes : List UInt8) : Option (List (List UInt8)) :=
  match createTarget ⟨.root, .root⟩ (fun _ => .error .badFileDescriptor) AT_FDCWD
      (some (cString bytes)) with
  | .error _ => none
  | .ok (_, name) =>
    match (createFile (0, 0) ['/'] name 0o644 0 >>= fun _ => contents ['/']) new with
    | some (.ok infos, _) =>
      match readDirectory writeDirents64 (withDotEntries infos) MAX_RECLEN 4 0 with
      | some (.ok written) => some ((parseRecords 19 4 written).map Prod.snd)
      | _ => none
    | _ => none

/-- A file with the name `E9` is listed as `C3 A9`. -/
theorem name_e9_listed_as_c3a9 :
    namesAfterCreate [0xe9] = some [[0x2e], [0x2e, 0x2e], [0xc3, 0xa9]] := by
  decide +kernel

/-- A file with an ASCII name, in the root directory of a new tmpfs. -/
theorem listed_name_ascii : ∃ s', createFile (0, 0) ['/'] ['a'] 0o644 0 new =
      some (.ok (), s') ∧ ∃ infos written, contents ['/'] s' = some (.ok infos, s') ∧
        readDirectory writeDirents64 (withDotEntries infos) MAX_RECLEN
          ((withDotEntries infos).length + 1) 0 = some (.ok written) ∧
        (ROOT_INODE + 1, [0x61]) ∈
          (parseRecords 19 (withDotEntries infos).length written).drop 2 := by
  have hops : ∀ op ∈ ([] : List TmpfsOp), ∀ name ∈ op.names, RawName name := forall_mem_nil _
  have hrun : runOps (fun op : TmpfsOp => op.run.next) [] new = some new := rfl
  have hbytes : FileNameBytes [0x61] := ⟨by decide, by decide, by decide, by decide⟩
  have hbase : baseNames ⟨.root, .root⟩ (fun _ => .error .badFileDescriptor) AT_FDCWD = .ok [] :=
    rfl
  have htarget : createTarget ⟨.root, .root⟩ (fun _ => .error .badFileDescriptor) AT_FDCWD
      (some (cString [0x61])) = .ok (.absolute [] false, ['a']) := by decide
  obtain ⟨s', hcreate⟩ : ∃ s', createFile (0, 0) ['/'] ['a'] 0o644 0 new =
    some (.ok (), s') := ⟨_, rfl⟩
  obtain ⟨infos, written, hcontents, hread, hiff⟩ :=
    (listed_name_iff hops hrun hbytes hbase htarget hcreate).1 layout64 (.inl rfl) MAX_RECLEN
      (Nat.le_refl _)
  have hascii : ∀ byte ∈ [(0x61 : UInt8)], byte < 0x80 := forall_mem_singleton.mpr (by decide)
  exact ⟨s', hcreate, infos, written, hcontents, hread, hiff.mpr hascii⟩

end Seele.Tmpfs
