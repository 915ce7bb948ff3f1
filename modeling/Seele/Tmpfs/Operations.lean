import Seele.Tmpfs.Tree

/-!
# What the operations of a tmpfs do

An operation first looks at the state, and returns all its errors there. The changes come after that
and cannot fail in a well-formed state: the nodes and directories they look up again are there, and
a count of names is not above the number of paths, which a map can count. So each operation is
refused with the state as it was, or gives a state that is written down here; `createNode_spec`,
`deleteNode_spec` and `linkInode_spec` say so. That this state is well-formed again is the second
lemma about each operation.
-/

namespace Seele.Tmpfs

open Seele.Lib Seele.Filesystem TmpfsState AList Path Cmd List

/-! ## Creating -/

/-- The operation returns an error, and has changed nothing. -/
def Refused {α : Type} (s : TmpfsState) (r : Except FSError α) (s' : TmpfsState) : Prop :=
  (∃ e, r = .error e) ∧ s' = s

/-- An operation keeps the state well-formed, and changes nothing if it returns an error. -/
def Keeps {α : Type} (x : TmpfsM α) : Prop :=
  ∀ s r s', s.WellFormed → x s = some (r, s') → s'.WellFormed ∧ ∀ e, r = .error e → s' = s

section Operations

variable {s s' : TmpfsState} {r : Except FSError Unit}

/-- The state with a new node under a new name. -/
def TmpfsState.created (s : TmpfsState) (child : List Char) (new : TmpNode) (d : ℕ)
    (dir : TmpNode) : TmpfsState where
  nextInode := s.nextInode + 1
  paths := s.paths.insert child s.nextInode
  nodes := (s.nodes.insert s.nextInode new).insert d dir

variable {parent : List Char} {name : Name} {owner : UInt32 × UInt32} {kind : TmpNodeKind}

/-- What `create_node` does. -/
theorem createNode_spec (hs : s.WellFormed)
    (h : createNode owner parent name kind s = some (r, s')) :
    Refused s r s' ∨ ∃ d dir children mode gid setgid,
      r = .ok () ∧ s.paths.lookup (normalize parent) = some d ∧ s.nodes.lookup d = some dir ∧
      dir.kind = .directory children mode ∧
      s.paths.lookup (childPath (normalize parent) name) = none ∧
      s.paths.keys.length < U64_MAX ∧ s.nextInode < U64_MAX ∧
      s' = s.created (childPath (normalize parent) name)
        ⟨s.nextInode, owner.1, gid, 1, 0, inheritSetgid setgid kind⟩ d
        { dir with kind := .directory (children.insert name) mode } := by
  rcases check_eq_some h with ⟨-, rfl, rfl⟩ | ⟨hfree, h⟩
  · exact .inl ⟨⟨_, rfl⟩, rfl⟩
  obtain hrefused | ⟨dir, ⟨d, hd, hdir⟩, h2⟩ := (node_finds).bind_cases h
  · exact .inl hrefused
  cases hkind : dir.kind <;> rw [hkind] at h2
  case directory children mode =>
    dsimp only at h2
    rw [get_bind] at h2
    by_cases hfull : U64_MAX ≤ s.nextInode
    · rw [if_pos hfull] at h2
      cases h2
    rw [if_neg hfull, modify_bind] at h2
    obtain ⟨hroom, h3⟩ := insertPath_bind_eq_some h2
    rw [setNode_bind] at h3
    have hsize : s.paths.keys.length < U64_MAX := hroom.resolve_left hfree
    -- The directory is another node than the new one, and is found again.
    have hne : normalize parent ≠ childPath (normalize parent) name := by grind [lookup_isSome.mp]
    have hpath' : (s.paths.insert (childPath (normalize parent) name) s.nextInode).lookup
        (normalize parent) = some d := (lookup_insert_ne hne).trans hd
    have hnode' : ∀ new, (s.nodes.insert s.nextInode new).lookup d = some dir := fun _ =>
      (lookup_insert_ne (Nat.ne_of_lt (hs.fresh d dir hdir))).trans hdir
    rw [updateChildren_of hpath' (hnode' _) hkind] at h3
    cases h3
    exact .inr ⟨d, dir, children, mode, _, _, rfl, hd, hdir, hkind,
      lookup_eq_none.mpr hfree, hsize, Nat.lt_of_not_le hfull, rfl⟩
  case file mode rdev | device mode rdev | symlink target =>
    cases h2
    exact .inl ⟨⟨_, rfl⟩, rfl⟩

/-- The set-group-id bit is no entry. -/
theorem inheritSetgid_entries (setgid : Bool) (kind : TmpNodeKind) :
    (inheritSetgid setgid kind).entries = kind.entries := by
  cases kind <;> rfl

/-- `create_node` keeps it well formed. -/
theorem createNode_keeps
    (hname : ValidName name) (hkind : kind.entries = none ∨ kind.entries = some []) :
    Keeps (createNode owner parent name kind) := by
  intro s r s' hs h
  rcases createNode_spec hs h with ⟨he, rfl⟩ | ⟨d, dir, children, mode, gid, setgid, hr, hd, hdir,
    hdkind, hfree, hsize, -, rfl⟩
  · exact ⟨hs, fun _ _ => rfl⟩
  refine ⟨?_, fun e he => by rw [hr] at he; cases he⟩
  obtain ⟨ns, hns, hparent, -⟩ := hs.names_of hd
  have hvalid : ValidNames (ns ++ [name]) := validNames_concat.mpr ⟨hns, hname⟩
  rw [hparent] at hd
  rw [hparent, childPath_text hns] at hfree ⊢
  have hne : s.nextInode ≠ d := (Nat.ne_of_lt (hs.fresh d dir hdir)).symm
  have hunknown : s.nodes.lookup s.nextInode = none := by
    cases hnode : s.nodes.lookup s.nextInode with
    | none => rfl
    | some node => exact absurd (hs.fresh _ node hnode) (Nat.lt_irrefl _)
  have hunnamed : ∀ path, s.paths.lookup path ≠ some s.nextInode := by grind [hs.named]
  refine hs.add hvalid hd hdir hdkind hfree rfl (lookup_insert _)
    ((lookup_insert_ne hne).trans (lookup_insert _)) rfl ?_ ?_ ?_
    (Nat.le_succ _) (Nat.lt_succ_self _) (Nat.zero_lt_of_lt (hs.fresh d dir hdir)) hsize
  · -- No path names the new inode before.
    have hzero : s.nameCount s.nextInode = 0 := by
      rw [nameCount_eq_card, Finset.card_eq_zero, Finset.eq_empty_iff_forall_notMem]
      exact fun path hpath => hunnamed path (mem_namesOf.mp hpath)
    rw [hzero]
  · grind [inheritSetgid_entries, tree]
  · intro j hjd hji
    exact (lookup_insert_ne hjd).trans (lookup_insert_ne hji)

/-! ## Deleting -/

/-- The state without a name. -/
def TmpfsState.deleted (s : TmpfsState) (child : List Char) (i : ℕ) (nd : TmpNode) (d : ℕ)
    (dir : TmpNode) : TmpfsState where
  nextInode := s.nextInode
  paths := s.paths.erase child
  nodes :=
    if nd.linkCount = 1 then
      if nd.openCount = 0 then (s.nodes.insert d dir).erase i
      else (s.nodes.insert d dir).insert i { nd with linkCount := 0 }
    else (s.nodes.insert i { nd with linkCount := nd.linkCount - 1 }).insert d dir

variable {i d : ℕ}

/-- The parent after a deletion. -/
theorem TmpfsState.deleted_directory (s : TmpfsState) (child : List Char) (nd : TmpNode)
    (hid : i ≠ d) (dir : TmpNode) : (s.deleted child i nd d dir).nodes.lookup d = some dir := by
  grind [deleted, lookup_erase_ne, lookup_insert, lookup_insert_ne]

/-- The other nodes stay. -/
theorem TmpfsState.deleted_others (s : TmpfsState) (child : List Char) {j : ℕ} (nd : TmpNode)
    (hjd : j ≠ d) (hji : j ≠ i) (dir : TmpNode) :
    (s.deleted child i nd d dir).nodes.lookup j = s.nodes.lookup j := by
  grind [deleted, lookup_erase_ne, lookup_insert_ne]

variable {nd dir : TmpNode} {children : List Name} {mode : UInt32}

/-- An entry is removed. -/
theorem removeEntry_of {child : List Char} (hnd : s.nodes.lookup i = some nd)
    (hcount : 0 < nd.linkCount) (hne : parent ≠ child) (hid : i ≠ d)
    (hd : s.paths.lookup parent = some d) (hdir : s.nodes.lookup d = some dir)
    (hkind : dir.kind = .directory children mode) :
    removeEntry parent child name i nd s = some (.ok (), s.deleted child i nd d
      { dir with kind := .directory (children.erase name) mode }) := by
  have hd' : (s.paths.erase child).lookup parent = some d := (lookup_erase_ne hne).trans hd
  unfold removeEntry deleted
  by_cases hone : nd.linkCount = 1
  · -- The last name: the node is looked up again after the changes.
    have hnd' : ∀ found, (s.nodes.insert d found).lookup i = some nd := fun _ =>
      (lookup_insert_ne hid).trans hnd
    simp only [hone, decide_true, Bool.not_true, Bool.false_eq_true, if_false, if_true]
    have hupdate := updateChildren_of (s := { s with paths := s.paths.erase child }) hd' hdir hkind
      (.erase · name)
    rw [modify_bind, bind_of_ok hupdate, bind_of_ok (nodeByInode_of (hnd' _))]
    split_ifs with hopen
    · rfl
    · rfl
  have hzero : nd.linkCount ≠ 0 := Nat.ne_of_gt hcount
  have hdir' : ∀ found, (s.nodes.insert i found).lookup d = some dir := fun _ =>
    (lookup_insert_ne hid.symm).trans hdir
  simp only [hone, hzero, decide_false, Bool.not_false, if_false, if_true]
  have hupdate := updateChildren_of (s := { s with
    paths := s.paths.erase child
    nodes := s.nodes.insert i { nd with linkCount := nd.linkCount - 1 } }) hd' (hdir' _) hkind
    (.erase · name)
  rw [setNode_bind, modify_bind, bind_of_ok hupdate]
  rfl

/-- What `delete_node` does. -/
theorem deleteNode_spec (hs : s.WellFormed)
    (hname : ValidName name) (h : deleteNode parent name s = some (r, s')) :
    Refused s r s' ∨ ∃ ns d dir children mode i nd, r = .ok () ∧ ValidNames (ns ++ [name]) ∧
      normalize parent = text ns ∧
      s.paths.lookup (text (ns ++ [name])) = some i ∧ s.nodes.lookup i = some nd ∧
      (∀ entries, nd.kind.entries = some entries → entries = []) ∧
      s.paths.lookup (text ns) = some d ∧ s.nodes.lookup d = some dir ∧
      dir.kind = .directory children mode ∧
      s' = s.deleted (text (ns ++ [name])) i nd d
        { dir with kind := .directory (children.erase name) mode } := by
  obtain hrefused | ⟨i, hi, h2⟩ := (inodeForPath_finds _ s).bind_cases h
  · exact .inl hrefused
  obtain hrefused | ⟨nd, hnd, h4⟩ := (nodeByInode_finds).bind_cases h2
  · exact .inl hrefused
  -- The directory of the entry, by the tree.
  obtain ⟨ms, hms, hchild, hloc⟩ := hs.names_of hi
  obtain ⟨ns, rfl, hns, hparent⟩ := text_of_childPath (normalize_ne_nil) hname hms hchild
  obtain ⟨d, es, hd, hes, -⟩ := hs.tree.placed hloc
  obtain ⟨-, hd⟩ := valid_of_locate hd
  obtain ⟨dir, hdir⟩ := hs.named _ d hd
  rw [entries_of hdir] at hes
  obtain ⟨mode, hkind⟩ := TmpNodeKind.entries_eq_some hes
  rw [hchild] at hi h4
  rw [hparent] at h4
  have hcount : 0 < nd.linkCount := by
    rw [hs.linkCount i nd hnd, nameCount_eq_card, Finset.card_pos]
    exact ⟨_, mem_namesOf.mpr hi⟩
  have hne : text ns ≠ text (ns ++ [name]) := by
    intro heq
    have hlength := congrArg length (text_inj hns hms heq)
    simp at hlength
  -- What is deleted has no entries, or the operation has ended.
  have hleaf : (∃ entries, nd.kind.entries = some entries ∧ entries ≠ []) ∧ Refused s r s' ∨
      (∀ entries, nd.kind.entries = some entries → entries = []) ∧
        removeEntry (text ns) (text (ns ++ [name])) name i nd s = some (r, s') := by
    rcases nd with ⟨inode, uid, gid, linkCount, openCount, kind⟩
    cases kind with
    | directory entries mode =>
      cases entries with
      | nil => exact .inr ⟨fun entries he => (Option.some.inj he).symm, h4⟩
      | cons entry entries =>
        cases h4
        exact .inl ⟨⟨_, rfl, by simp⟩, ⟨_, rfl⟩, rfl⟩
    | file mode rdev | device mode rdev
    | symlink target => exact .inr ⟨fun _ he => (by cases he), h4⟩
  rcases hleaf with ⟨-, hrefused⟩ | ⟨hleaf, h5⟩
  · exact .inl hrefused
  have hid : i ≠ d := hs.leaf_ne hms hi hnd hleaf hd
  rw [removeEntry_of hnd hcount hne hid hd hdir hkind] at h5
  cases h5
  exact .inr ⟨ns, d, dir, es, mode, i, nd, rfl, hms, hparent, hi, hnd, hleaf, hd, hdir, hkind, rfl⟩

/-- A leaf may go. -/
theorem TmpfsState.WellFormed.deleted {ns : List Name} (hs : s.WellFormed)
    (hvalid : ValidNames (ns ++ [name]))
    (hi : s.paths.lookup (Path.text (ns ++ [name])) = some i) (hnd : s.nodes.lookup i = some nd)
    (hleaf : ∀ entries, nd.kind.entries = some entries → entries = [])
    (hd : s.paths.lookup (Path.text ns) = some d) (hdir : s.nodes.lookup d = some dir)
    (hkind : dir.kind = .directory children mode) : (s.deleted (Path.text (ns ++ [name])) i nd d
      { dir with kind := .directory (children.erase name) mode }).WellFormed := by
  have hid : i ≠ d := hs.leaf_ne hvalid hi hnd hleaf hd
  refine hs.remove hvalid hi hnd hleaf hd hdir hkind rfl (s.deleted_directory _ nd hid _) ?_
    (fun j hjd hji => s.deleted_others _ nd hjd hji _) rfl
  grind [deleted, lookup_erase, lookup_insert, lookup_insert_ne]

/-- `delete_node` keeps it well formed. -/
theorem deleteNode_keeps (hname : Path.ValidName name) : Keeps (deleteNode parent name) := by
  intro s r s' hs h
  rcases deleteNode_spec hs hname h with ⟨he, rfl⟩ | ⟨ns, d, dir, children, mode, i, nd, hr,
    hvalid, -, hi, hnd, hleaf, hd, hdir, hkind, rfl⟩
  · exact ⟨hs, fun _ _ => rfl⟩
  · grind [hs.deleted]

/-! ## Linking -/

/-- A node has at most all the names. -/
theorem TmpfsState.nameCount_le (s : TmpfsState) (i : ℕ) : s.nameCount i ≤ s.paths.keys.length :=
  length_filter_le _ _

/-- The state with one more name for a node. -/
def TmpfsState.linked (s : TmpfsState) (child : List Char) (i : ℕ) (nd : TmpNode) (d : ℕ)
    (dir : TmpNode) : TmpfsState where
  nextInode := s.nextInode
  paths := s.paths.insert child i
  nodes := (s.nodes.insert d dir).insert i { nd with linkCount := nd.linkCount + 1 }

/-- What adding a link does. -/
theorem addLink_spec {path : List Char} (hs : s.WellFormed) (hnd : s.nodes.lookup i = some nd)
    (hfree : s.paths.lookup path = none) (hid : i ≠ d) (hd : s.paths.lookup parent = some d)
    (hdir : s.nodes.lookup d = some dir) (hkind : dir.kind = .directory children mode)
    (h : addLink i path parent name s = some (r, s')) : r = .ok () ∧ s.paths.keys.length < U64_MAX ∧
      s' = s.linked path i nd d { dir with kind := .directory (children.insert name) mode } := by
  obtain ⟨hroom, h⟩ := insertPath_bind_eq_some h
  have hsize : s.paths.keys.length < U64_MAX := hroom.resolve_left (lookup_eq_none.mp hfree)
  have hne : parent ≠ path := by
    rintro rfl
    rw [hfree] at hd
    cases hd
  have hd' : (s.paths.insert path i).lookup parent = some d := (lookup_insert_ne hne).trans hd
  have hnd' : ∀ found, (s.nodes.insert d found).lookup i = some nd := fun _ =>
    (lookup_insert_ne hid).trans hnd
  have hupdate := updateChildren_of (s := { s with paths := s.paths.insert path i }) hd' hdir hkind
    (.insert name)
  -- A count of names is below the number of paths.
  have hcount : ¬ U64_MAX ≤ nd.linkCount := by
    have hle := s.nameCount_le i
    rw [← hs.linkCount i nd hnd] at hle
    omega
  rw [bind_of_ok hupdate, bind_of_ok (nodeByInode_of (hnd' _)), if_neg hcount] at h
  cases h
  exact ⟨rfl, hsize, rfl⟩

variable {names : List Name}

/-- What `link_inode` does. -/
theorem linkInode_spec (hs : s.WellFormed)
    (hvalid : ValidNames names) (h : linkInode i (text names) s = some (r, s')) :
    Refused s r s' ∨ ∃ ns name d dir children mode nd, r = .ok () ∧ names = ns ++ [name] ∧
      s.nodes.lookup i = some nd ∧ nd.kind.entries = none ∧
      s.paths.lookup (text (ns ++ [name])) = none ∧
      s.paths.lookup (text ns) = some d ∧ s.nodes.lookup d = some dir ∧
      dir.kind = .directory children mode ∧ s.paths.keys.length < U64_MAX ∧
      s' = s.linked (text (ns ++ [name])) i nd d
        { dir with kind := .directory (children.insert name) mode } := by
  unfold linkInode at h
  rw [normalize_text hvalid] at h
  rcases check_eq_some h with ⟨-, rfl, rfl⟩ | ⟨hroot, h⟩
  · exact .inl ⟨⟨_, rfl⟩, rfl⟩
  rcases check_eq_some h with ⟨-, rfl, rfl⟩ | ⟨hfree, h⟩
  · exact .inl ⟨⟨_, rfl⟩, rfl⟩
  obtain hrefused | ⟨nd, hnd, h2⟩ := (nodeByInode_finds).bind_cases h
  · exact .inl hrefused
  rcases eq_nil_or_concat names with rfl | ⟨ns, name, rfl⟩
  · exact absurd text_nil hroot
  rw [concat_eq_append] at hvalid hfree h2 ⊢
  have hsplit : liftResult (splitPath (text (ns ++ [name]))) s = some (.ok (text ns, name), s) := by
    rw [splitPath_text hvalid]
    rfl
  -- A directory and a symbolic link are refused.
  have hkinds : Refused s r s' ∨ nd.kind.entries = none ∧ (do
        let _ ← directoryChildren (text ns)
        addLink i (text (ns ++ [name])) (text ns) name) s = some (r, s') := by
    rcases nd with ⟨inode, uid, gid, linkCount, openCount, kind⟩
    cases kind with
    | directory entries mode | symlink target =>
      cases h2
      exact .inl ⟨⟨_, rfl⟩, rfl⟩
    | file mode rdev | device mode rdev => exact .inr ⟨rfl, (bind_of_ok hsplit).symm.trans h2⟩
  rcases hkinds with hrefused | ⟨hentries, h3⟩
  · exact .inl hrefused
  obtain hrefused | ⟨es, ⟨d, dir, mode, hd, hdir, hkind⟩, h5⟩ :=
    (directoryChildren_finds).bind_cases h3
  · exact .inl hrefused
  have hid : i ≠ d := by
    rintro rfl
    rw [hnd] at hdir
    cases hdir
    rw [hkind] at hentries
    cases hentries
  have hnone := lookup_eq_none.mpr hfree
  obtain ⟨hr, hsize, hs'⟩ := addLink_spec hs hnd hnone hid hd hdir hkind h5
  grind

/-- `link_inode` keeps it well formed. -/
theorem linkInode_keeps (hvalid : ValidNames names) :
    Keeps (linkInode i (text names)) := by
  intro s r s' hs h
  rcases linkInode_spec hs hvalid h with ⟨he, rfl⟩ | ⟨ns, name, d, dir, children, mode, nd, hr, rfl,
    hnd, hentries, hfree, hd, hdir, hkind, hsize, rfl⟩
  · exact ⟨hs, fun _ _ => rfl⟩
  refine ⟨?_, fun e he => by rw [hr] at he; cases he⟩
  have hid : i ≠ d := by
    rintro rfl
    rw [hnd] at hdir
    cases hdir
    rw [hkind] at hentries
    cases hentries
  refine hs.add hvalid hd hdir hkind hfree rfl
    ((lookup_insert_ne hid.symm).trans (lookup_insert _)) (lookup_insert _)
    (hs.self i nd hnd) ?_ (.inl ⟨(entries_of hnd).trans hentries, hentries⟩) ?_
    (Nat.le_refl _) (hs.fresh i nd hnd) (hs.positive i nd hnd) hsize
  · rw [← hs.linkCount i nd hnd]
  · intro j hjd hji
    exact (lookup_insert_ne hji).trans (lookup_insert_ne hjd)

/-! ## Opening and closing -/

/-- The number of handles may change. -/
theorem TmpfsState.WellFormed.reopened {count : ℕ} (hs : s.WellFormed)
    (hnd : s.nodes.lookup i = some nd) (hopen : nd.linkCount = 0 → 0 < count) :
    TmpfsState.WellFormed { s with nodes := s.nodes.insert i { nd with openCount := count } } := by
  -- All but the one count is as it was.
  have hcases : ∀ {j node}, (s.nodes.insert i { nd with openCount := count }).lookup j = some node →
      ∃ old, s.nodes.lookup j = some old ∧ node.inode = old.inode ∧ node.kind = old.kind ∧
        node.linkCount = old.linkCount ∧ (node.linkCount = 0 → 0 < node.openCount) := by
    intro j node hnode
    grind [lookup_insert, lookup_insert_ne, hs.unlinked]
  have htree : TmpfsState.tree { s with
      nodes := s.nodes.insert i { nd with openCount := count } } = s.tree := by
    grind [TmpfsState.tree, lookup_insert, lookup_insert_ne]
  refine .of_nodes hs.text (htree ▸ hs.tree) hs.size ?_ ?_
  · grind [lookup_insert, hs.named, lookup_insert_ne]
  intro j node hnode
  obtain ⟨old, hold, hinode, -, hcount, hunlinked⟩ := hcases hnode
  have hok := hs.nodeOk hold
  exact ⟨hinode.trans hok.self, hcount.trans hok.linkCount, hunlinked, hok.fresh, hok.positive⟩

/-- A node without links may go. -/
theorem TmpfsState.WellFormed.dropped (hs : s.WellFormed)
    (hnd : s.nodes.lookup i = some nd) (hcount : nd.linkCount = 0) (hpaths : s'.paths = s.paths)
    (hnext : s'.nextInode = s.nextInode) (hnone : s'.nodes.lookup i = none)
    (hothers : ∀ j, j ≠ i → s'.nodes.lookup j = s.nodes.lookup j) : s'.WellFormed := by
  have hold : ∀ {j node}, s'.nodes.lookup j = some node → s.nodes.lookup j = some node := by grind
  have hunnamed : ∀ {path j}, s.paths.lookup path = some j → j ≠ i := by
    rintro path j hpath rfl
    have hzero := hs.linkCount j nd hnd
    rw [hcount, nameCount_eq_card] at hzero
    have hmem := mem_namesOf.mpr hpath
    grind
  have hcounts : ∀ j, s'.nameCount j = s.nameCount j := by
    intro j
    unfold nameCount
    rw [hpaths]
  refine .of_nodes (hpaths ▸ hs.text) ?_ (hpaths ▸ hs.size) ?_ fun j node hnode => ?_
  · refine hs.tree.drop (fun ms => ?_) (fun {ms j} hj => ?_) (fun {j es} hes => ?_)
    · unfold TmpfsState.tree
      rw [hpaths]
    · grind [TmpfsState.tree]
    · grind [TmpfsState.tree]
  · grind [hs.named]
  · have hok := hs.nodeOk (hold hnode)
    exact { hok with linkCount := hok.linkCount.trans (hcounts j).symm, fresh := hnext ▸ hok.fresh }

/-- What `retain_inode` does. -/
theorem retainInode_spec (h : retainInode i s = some (r, s')) :
    Refused s r s' ∨ ∃ nd, r = .ok () ∧ s.nodes.lookup i = some nd ∧
      s' = { s with nodes := s.nodes.insert i { nd with openCount := nd.openCount + 1 } } := by
  obtain hrefused | ⟨nd, hnd, h2⟩ := (nodeByInode_finds).bind_cases h
  · exact .inl hrefused
  rcases check_eq_some h2 with ⟨-, rfl, rfl⟩ | ⟨-, h3⟩
  · exact .inl ⟨⟨_, rfl⟩, rfl⟩
  cases h3
  exact .inr ⟨nd, rfl, hnd, rfl⟩

/-- `release_inode` keeps it well formed. -/
theorem releaseInode_keeps : Keeps (releaseInode i) := by
  intro s r s' hs h
  obtain ⟨-, rfl⟩ | ⟨nd, hnd, h2⟩ := (nodeByInode_finds).bind_cases h
  · exact ⟨hs, fun _ _ => rfl⟩
  rcases check_eq_some h2 with ⟨-, rfl, rfl⟩ | ⟨hopen, h3⟩
  · exact ⟨hs, fun _ _ => rfl⟩
  split_ifs at h3 with hlast
  · cases h3
    grind [hs.dropped, lookup_erase, lookup_erase_ne, lookup_insert_ne]
  cases h3
  refine ⟨hs.reopened hnd fun hzero => ?_, fun e he => ?_⟩
  · grind
  · cases he

/-- A lookup keeps it well formed. -/
theorem tmpfsLookupPath_keeps (path : List Char) : Keeps (tmpfsLookupPath path) := by
  intro s r s' hs h
  obtain ⟨-, rfl⟩ | ⟨found, -, h2⟩ := (node_finds).bind_cases h
  · exact ⟨hs, fun _ _ => rfl⟩
  -- The handle is open before its node is looked at again, and that does not fail.
  have hhandle : ∀ (i : ℕ) (k : TmpNode → TmpfsM TmpfsHandle),
      (∀ nd, ∃ handle, k nd = pure handle) →
      (retainInode i >>= fun _ => nodeByInode i >>= k) s = some (r, s') →
      s'.WellFormed ∧ ∀ e, r = .error e → s' = s := by
    intro i k hk h
    rcases bind_eq_some.mp h with ⟨_, u, h3, h4⟩ | ⟨e, h3, rfl⟩
    · rcases retainInode_spec h3 with ⟨⟨e, he⟩, -⟩ | ⟨nd, -, hnd, rfl⟩
      · cases he
      rw [bind_of_ok (nodeByInode_of (lookup_insert _))] at h4
      obtain ⟨handle, hpure⟩ := hk { nd with openCount := nd.openCount + 1 }
      rw [hpure] at h4
      cases h4
      grind [hs.reopened]
    · rcases retainInode_spec h3 with ⟨-, rfl⟩ | ⟨nd, hr, -⟩
      · exact ⟨hs, fun _ _ => rfl⟩
      · cases hr
  cases hkind : found.kind <;> rw [hkind] at h2
  case directory entries mode | symlink target =>
    cases h2
    exact ⟨hs, fun _ _ => rfl⟩
  case file mode rdev | device mode rdev =>
    refine hhandle found.inode _ (fun nd => ?_) h2
    cases nd.kind <;> exact ⟨_, rfl⟩

end Operations

end Seele.Tmpfs
