import Mathlib.Data.Finset.Card
import Mathlib.Data.Finset.Image
import Seele.Lib.GuardedRun
import Seele.Lib.NameTree
import Seele.Tmpfs.State

/-!
# The tree of a tmpfs

`TmpfsState.tree` reads the map of paths and the lists of entries as a tree of names, so that the
changes an operation can make to it are those of `NameTree`; the texts are those of valid names,
which `Path.text_inj` takes apart again. `TmpfsState.WellFormed` says that the four descriptions are
those of one tree, and `WellFormed.add` and `WellFormed.remove` that a name more and a name less
keep it so, whatever else the operation does to its nodes.
-/

namespace Seele.Tmpfs

open Seele.Lib Seele.Filesystem TmpfsState Path AList Cmd.Finds Cmd

/-! ## What the state describes -/

/-- The entries of a directory. -/
def TmpNodeKind.entries : TmpNodeKind → Option (List Name)
  | .directory children _ => some children
  | _ => none

variable {children : List Name}

/-- Only a directory has entries. -/
theorem TmpNodeKind.entries_eq_some {kind : TmpNodeKind}
    (h : kind.entries = some children) : ∃ mode, kind = .directory children mode := by
  cases kind with
  | directory entries mode => exact ⟨mode, by rw [Option.some.inj h]⟩
  | file mode rdev => cases h
  | device mode rdev => cases h
  | symlink target => cases h

/-- The map of paths and the lists of entries as a tree of names. -/
def TmpfsState.tree (s : TmpfsState) : NameTree Name ℕ where
  locate names :=
    if ValidNames names then s.paths.lookup (text names) else none
  entries inode := (s.nodes.lookup inode).bind (·.kind.entries)

/-- The number of paths that name an inode. -/
def TmpfsState.nameCount (s : TmpfsState) (inode : ℕ) : ℕ :=
  (s.paths.keys.filter fun path => s.paths.lookup path = some inode).length

/-- The state is that of one tree. -/
structure TmpfsState.WellFormed (s : TmpfsState) : Prop where
  /-- Every path is the text of valid names. -/
  text : ∀ path ∈ s.paths, ∃ names, ValidNames names ∧ path = text names
  /-- The paths and the entries of directories describe one tree. -/
  tree : s.tree.Consistent
  /-- Every named inode exists. -/
  named : ∀ path inode, s.paths.lookup path = some inode → ∃ node, s.nodes.lookup inode = some node
  /-- A node knows its inode. -/
  self : ∀ inode node, s.nodes.lookup inode = some node → node.inode = inode
  /-- The link count is the number of names. -/
  linkCount : ∀ inode node, s.nodes.lookup inode = some node → node.linkCount = s.nameCount inode
  /-- Without a name a node is there only while it is open. -/
  unlinked : ∀ inode node, s.nodes.lookup inode = some node → node.linkCount = 0 →
    0 < node.openCount
  /-- The counter is above all inodes. -/
  fresh : ∀ inode node, s.nodes.lookup inode = some node → inode < s.nextInode
  /-- No inode is zero. -/
  positive : ∀ inode node, s.nodes.lookup inode = some node → 0 < inode
  /-- A map can count its entries. -/
  size : s.paths.keys.length ≤ U64_MAX

/-- What the state says of the node with a number. -/
structure TmpfsState.NodeOk (s : TmpfsState) (inode : ℕ) (node : TmpNode) : Prop where
  self : node.inode = inode
  linkCount : node.linkCount = s.nameCount inode
  unlinked : node.linkCount = 0 → 0 < node.openCount
  fresh : inode < s.nextInode
  positive : 0 < inode

variable {s : TmpfsState}

/-- Every node is in order. -/
theorem TmpfsState.WellFormed.nodeOk (hs : s.WellFormed) {inode : ℕ}
    {node : TmpNode} (h : s.nodes.lookup inode = some node) : s.NodeOk inode node :=
  ⟨hs.self _ _ h, hs.linkCount _ _ h, hs.unlinked _ _ h, hs.fresh _ _ h, hs.positive _ _ h⟩

/-- What the tree and the counts have to meet. -/
theorem TmpfsState.WellFormed.of_nodes
    (htext : ∀ path ∈ s.paths, ∃ names, ValidNames names ∧ path = Path.text names)
    (htree : s.tree.Consistent) (hsize : s.paths.keys.length ≤ U64_MAX)
    (hnamed : ∀ path inode, s.paths.lookup path = some inode →
      ∃ node, s.nodes.lookup inode = some node)
    (hnodes : ∀ inode node, s.nodes.lookup inode = some node → s.NodeOk inode node) :
    s.WellFormed :=
  ⟨htext, htree, hnamed, fun _ _ h => (hnodes _ _ h).self, fun _ _ h => (hnodes _ _ h).linkCount,
    fun _ _ h => (hnodes _ _ h).unlinked, fun _ _ h => (hnodes _ _ h).fresh,
    fun _ _ h => (hnodes _ _ h).positive, hsize⟩

/-! ## Counting names -/

section Sizes

variable {α : Type} {β : α → Type} [DecidableEq α] {a : α} {m : AList β}

/-- One name more. -/
theorem length_keys_insert (h : a ∉ m) (b : β a) :
    (m.insert a b).keys.length = m.keys.length + 1 := by
  rw [keys_insert, List.length_cons, List.erase_of_not_mem h]

/-- One name fewer. -/
theorem length_keys_erase (h : a ∈ m) : (m.erase a).keys.length + 1 = m.keys.length := by
  have hpos : 0 < m.keys.length := List.length_pos_of_mem h
  rw [keys_erase, List.length_erase_of_mem h]
  omega

end Sizes

section Counting

variable {paths paths' : AList fun _ : List Char => ℕ} {inode : ℕ}

/-- The paths that name an inode, as a set. -/
def namesOf (paths : AList fun _ : List Char => ℕ) (inode : ℕ) : Finset (List Char) :=
  (paths.keys.filter fun path => paths.lookup path = some inode).toFinset

variable {path : List Char}

/-- The names of a node. -/
theorem mem_namesOf : path ∈ namesOf paths inode ↔ paths.lookup path = some inode := by
  unfold namesOf
  grind [List.mem_toFinset, mem_keys, lookup_isSome]

/-- The names of a node are counted. -/
theorem TmpfsState.nameCount_eq_card (s : TmpfsState) :
    s.nameCount inode = (namesOf s.paths inode).card :=
  (List.toFinset_card_of_nodup (s.paths.keys_nodup.filter _)).symm

/-- A name is added. -/
theorem namesOf_insert (hnew : paths.lookup path = none) (i : ℕ) :
    namesOf (paths.insert path i) inode =
      if inode = i then insert path (namesOf paths inode) else namesOf paths inode := by
  grind [mem_namesOf, lookup_insert, lookup_insert_ne]

/-- A name is removed. -/
theorem namesOf_erase : namesOf (paths.erase path) inode = (namesOf paths inode).erase path := by
  ext k
  rw [mem_namesOf, Finset.mem_erase, mem_namesOf]
  by_cases hk : k = path
  · subst hk
    simp
  · rw [lookup_erase_ne hk]
    simp [hk]

end Counting

/-! ## Looking at the state -/

section Reading

variable {s s' : TmpfsState} {path : List Char} {inode : ℕ}

/-- A path that is there is found. -/
theorem inodeForPath_of (h : s.paths.lookup path = some inode) :
    inodeForPath path s = some (.ok inode, s) := by
  unfold inodeForPath
  rw [get_bind, h]
  rfl

/-- A node that is there is found. -/
theorem nodeByInode_of {node : TmpNode} (h : s.nodes.lookup inode = some node) :
    nodeByInode inode s = some (.ok node, s) := by
  unfold nodeByInode
  rw [get_bind, h]
  rfl

/-- A path is looked up without a change. -/
theorem inodeForPath_finds (path : List Char) (s : TmpfsState) :
    Finds s (inodeForPath path) fun inode => s.paths.lookup path = some inode := by
  refine get ?_
  cases hlookup : s.paths.lookup path with
  | none => exact throw
  | some inode => exact pure rfl

/-- A node is looked up without a change. -/
theorem nodeByInode_finds :
    Finds s (nodeByInode inode) fun node => s.nodes.lookup inode = some node := by
  refine get ?_
  cases hlookup : s.nodes.lookup inode with
  | none => exact throw
  | some node => exact pure rfl

/-- The node of a path is looked up without a change. -/
theorem node_finds : Finds s (node path) fun found =>
    ∃ inode, s.paths.lookup path = some inode ∧ s.nodes.lookup inode = some found :=
  (inodeForPath_finds path s).bind fun inode hinode =>
    (nodeByInode_finds).mono fun _ hfound => ⟨inode, hinode, hfound⟩

/-- The node of a path that is there. -/
theorem node_of {found : TmpNode} (hpath : s.paths.lookup path = some inode)
    (hnode : s.nodes.lookup inode = some found) : node path s = some (.ok found, s) := by
  unfold node
  rw [bind_of_ok (inodeForPath_of hpath), nodeByInode_of hnode]

/-- The entries of a directory are looked up. -/
theorem directoryChildren_finds :
    Finds s (directoryChildren path) fun children => ∃ inode found mode,
      s.paths.lookup path = some inode ∧ s.nodes.lookup inode = some found ∧
      found.kind = .directory children mode := by
  refine (node_finds).bind fun found hfound => ?_
  obtain ⟨inode, hpath, hnode⟩ := hfound
  cases hkind : found.kind with
  | directory children mode => exact pure ⟨inode, found, mode, hpath, hnode, hkind⟩
  | _ => exact throw

/-- The entries of a directory are changed. -/
theorem updateChildren_of {found : TmpNode} {mode : UInt32}
    (hpath : s.paths.lookup path = some inode) (hnode : s.nodes.lookup inode = some found)
    (hkind : found.kind = .directory children mode) (f : List Name → List Name) :
    updateChildren path f s = some (.ok (), { s with
      nodes := s.nodes.insert inode { found with kind := .directory (f children) mode } }) := by
  unfold updateChildren
  rw [bind_of_ok (inodeForPath_of hpath), bind_of_ok (nodeByInode_of hnode), hkind]
  rfl

/-- A path is added while there is room. -/
theorem insertPath_of (h : path ∈ s.paths ∨ s.paths.keys.length < U64_MAX) (i : ℕ) :
    insertPath path i s = some (.ok (), { s with paths := s.paths.insert path i }) := by
  unfold insertPath
  rw [get_bind, if_pos h]
  rfl

variable {α : Type} {f : Unit → TmpfsM α}

/-- Otherwise the kernel panics. -/
theorem insertPath_bind_eq_some {i : ℕ} {r : Except FSError α}
    (h : (insertPath path i >>= f) s = some (r, s')) :
    (path ∈ s.paths ∨ s.paths.keys.length < U64_MAX) ∧
      f () { s with paths := s.paths.insert path i } = some (r, s') := by
  by_cases hroom : path ∈ s.paths ∨ s.paths.keys.length < U64_MAX
  · rw [bind_of_ok (insertPath_of hroom i)] at h
    exact ⟨hroom, h⟩
  have hpanic : insertPath path i s = none := by
    unfold insertPath
    rw [get_bind, if_neg hroom]
    rfl
  rw [bind_of_none hpanic] at h
  cases h

/-- A node is set. -/
theorem setNode_bind {node : TmpNode} :
    (setNode inode node >>= f) s = f () { s with nodes := s.nodes.insert inode node } := rfl

end Reading

/-! ## The texts of the operations -/

section Texts

variable {names : List Name}

/-- A text of names is normalized already. -/
theorem normalize_text (hvalid : ValidNames names) : normalize (text names) = text names := by
  unfold normalize
  split_ifs with h
  · rcases h with h | h
    · -- A text of names is never empty.
      have hne : text names ≠ [] := by
        unfold text
        split_ifs with hnil
        · simp
        · rw [← slash_cons_intercalate hnil]
          simp
      exact absurd h hne
    · exact h.symm
  · rw [new_text hvalid, normalize_absolute, asString_absolute hvalid]

variable {name : Name}

/-- The path of a child. -/
theorem childPath_text (hvalid : ValidNames names) :
    childPath (text names) name = text (names ++ [name]) := by
  unfold childPath
  by_cases hnil : names = []
  · grind [text_nil, text_of_ne_nil]
  have hroot : text names ≠ ['/'] := by
    intro h
    exact hnil (text_inj hvalid (by simp) (h.trans text_nil.symm))
  rw [if_neg hroot, text_append hnil]
  simp

variable {path : List Char}

/-- A normalized path is not empty. -/
theorem normalize_ne_nil : normalize path ≠ [] := by
  have hlast : ∀ string : List Char, (if string = [] then ['/'] else string) ≠ [] := by grind
  unfold normalize
  split_ifs with h
  · simp
  · exact hlast _

/-- Both sides of the last slash. -/
theorem append_slash_inj {xs ys as bs : List Char} (has : '/' ∉ as) (hbs : '/' ∉ bs)
    (h : xs ++ '/' :: as = ys ++ '/' :: bs) : xs = ys ∧ as = bs := by
  rcases List.append_eq_append_iff.mp h with ⟨cs, rfl, hcs⟩ | ⟨cs, rfl, hcs⟩
  · cases cs with
    | nil => exact ⟨(List.append_nil xs).symm, (List.cons.inj hcs).2⟩
    | cons c cs =>
      rw [(List.cons.inj hcs).2] at has
      simp at has
  cases cs with
  | nil => exact ⟨List.append_nil ys, (List.cons.inj hcs).2.symm⟩
  | cons c cs =>
    rw [(List.cons.inj hcs).2] at hbs
    simp at hbs

/-- A child's path is that of its parent and its name. -/
theorem text_of_childPath {parent : List Char} (hparent : parent ≠ []) (hname : ValidName name)
    (hvalid : ValidNames names) (h : childPath parent name = text names) :
    ∃ front, names = front ++ [name] ∧ ValidNames front ∧ parent = text front := by
  rcases List.eq_nil_or_concat names with rfl | ⟨front, last, rfl⟩
  · -- The text of the root is shorter than that of an entry.
    rw [text_nil] at h
    unfold childPath at h
    have hne := hname.1
    split_ifs at h with hroot
    · exact absurd (List.cons.inj h).2 hne
    · have hlength := congrArg List.length h
      have hpos := List.length_pos_of_ne_nil hne
      grind
  rw [List.concat_eq_append] at h hvalid ⊢
  obtain ⟨hfront, hlast⟩ := validNames_concat.mp hvalid
  rw [← childPath_text hfront] at h
  -- The directory's text without the one slash of the root.
  have hshort : ∀ path n, childPath path n = (if path = ['/'] then [] else path) ++ '/' :: n := by
    intro path n
    unfold childPath
    split_ifs <;> rfl
  rw [hshort, hshort] at h
  obtain ⟨hdirs, rfl⟩ := append_slash_inj hname.2.1 hlast.2.1 h
  refine ⟨front, rfl, hfront, ?_⟩
  grind [normalize_text, normalize_ne_nil]

/-- The path inside the file system. -/
theorem absoluteTmpPath_eq (path : FsPath) : absoluteTmpPath path.path = text path.names := by
  unfold absoluteTmpPath FsPath.path
  simp only [normalize_absolute, absolute_names]
  split_ifs with hnil
  · rw [hnil]
    rfl
  · rw [slash_cons_intercalate hnil, text_of_ne_nil hnil]

/-- Its text. -/
theorem FsPath.asString_eq (path : FsPath) : path.path.normalize.asString = text path.names := by
  unfold FsPath.path
  rw [normalize_absolute, asString_absolute path.valid]

/-- A name is not the root. -/
theorem text_ne_root (hvalid : ValidNames (names ++ [name])) : text (names ++ [name]) ≠ ['/'] := by
  intro h
  have hnil := text_inj hvalid (by simp) (h.trans text_nil.symm)
  simp at hnil

/-- A path is split before its last name. -/
theorem splitPath_text (hvalid : ValidNames (names ++ [name])) :
    splitPath (text (names ++ [name])) = .ok (text names, name) := by
  unfold splitPath
  grind [normalize_text, text_ne_root, new_text, parent_absolute_concat,
    fileName_absolute, asString_absolute]

variable {s : TmpfsState} {inode : ℕ}

/-- The names of a path that is there. -/
theorem TmpfsState.WellFormed.names_of (hs : s.WellFormed)
    (hpath : s.paths.lookup path = some inode) :
    ∃ names, Path.ValidNames names ∧ path = Path.text names ∧ s.tree.locate names = some inode := by
  obtain ⟨names, hvalid, rfl⟩ := hs.text path (by rw [← lookup_isSome, hpath]; rfl)
  exact ⟨names, hvalid, rfl, (if_pos hvalid).trans hpath⟩

/-- A location is a lookup of the text. -/
theorem TmpfsState.locate_of (hvalid : ValidNames names) :
    s.tree.locate names = s.paths.lookup (text names) :=
  if_pos hvalid

/-- What is located has valid names. -/
theorem TmpfsState.valid_of_locate (h : s.tree.locate names = some inode) :
    ValidNames names ∧ s.paths.lookup (text names) = some inode := by
  by_cases hvalid : ValidNames names
  · grind [locate_of]
  · have hnone : s.tree.locate names = none := if_neg hvalid
    rw [hnone] at h
    cases h

/-- The entries of a node. -/
theorem TmpfsState.entries_of {found : TmpNode}
    (h : s.nodes.lookup inode = some found) : s.tree.entries inode = found.kind.entries := by
  unfold tree
  dsimp only
  rw [h]
  rfl

end Texts

/-! ## A name more, and a name less -/

section Changes

variable {s s' : TmpfsState} {ns : List Name} {n : Name} {d i : ℕ} {dir nd : TmpNode}
  {children : List Name} {mode : UInt32}

/-- Those of a directory. -/
theorem entries_of_kind (hdir : s.nodes.lookup d = some dir)
    (hkind : dir.kind = .directory children mode) : s.tree.entries d = some children := by
  rw [entries_of hdir, hkind]
  rfl

/-- A node is added under a new name. -/
theorem TmpfsState.WellFormed.add (hs : s.WellFormed) (hvalid : Path.ValidNames (ns ++ [n]))
    (hd : s.paths.lookup (Path.text ns) = some d) (hdir : s.nodes.lookup d = some dir)
    (hkind : dir.kind = .directory children mode)
    (hfree : s.paths.lookup (Path.text (ns ++ [n])) = none)
    (hpaths : s'.paths = s.paths.insert (Path.text (ns ++ [n])) i) (hdir' : s'.nodes.lookup d =
      some { dir with kind := .directory (children.insert n) mode })
    (hnd : s'.nodes.lookup i = some nd) (hself : nd.inode = i)
    (hcount : nd.linkCount = s.nameCount i + 1)
    (hleaf : s.tree.entries i = none ∧ nd.kind.entries = none ∨
      (∀ path, s.paths.lookup path ≠ some i) ∧ nd.kind.entries = some [])
    (hothers : ∀ j, j ≠ d → j ≠ i → s'.nodes.lookup j = s.nodes.lookup j)
    (hnext : s.nextInode ≤ s'.nextInode) (hi : i < s'.nextInode) (hpositive : 0 < i)
    (hsize : s.paths.keys.length < U64_MAX) : s'.WellFormed := by
  have hfront : Path.ValidNames ns := (Path.validNames_concat.mp hvalid).1
  have hlocd : s.tree.locate ns = some d := (locate_of hfront).trans hd
  -- Only the new path is looked up in another way.
  have hlookup : ∀ path, path ≠ Path.text (ns ++ [n]) →
      s'.paths.lookup path = s.paths.lookup path := by
    intro path hne
    rw [hpaths, lookup_insert_ne hne]
  have hlocs : ∀ ms, ms ≠ ns ++ [n] → s'.tree.locate ms = s.tree.locate ms := by
    intro ms hne
    by_cases hms : Path.ValidNames ms
    · grind [locate_of, Path.text_inj]
    · exact (if_neg hms).trans (if_neg hms).symm
  have hentries : ∀ j, j ≠ d → j ≠ i → s'.tree.entries j = s.tree.entries j := by
    grind [TmpfsState.tree]
  have hcounts : ∀ j, s'.nameCount j = s.nameCount j + if j = i then 1 else 0 := by
    grind [nameCount_eq_card, namesOf_insert, mem_namesOf]
  -- A node of the new state is the new one, the directory, or one that was there.
  have hcases : ∀ {j node}, s'.nodes.lookup j = some node →
      (j = i ∧ node = nd) ∨
    (j = d ∧ node = { dir with kind := .directory (children.insert n) mode }) ∨
        j ≠ i ∧ s.nodes.lookup j = some node := by
    intro j node hnode
    grind
  refine .of_nodes ?_ ?_ ?_ ?_ ?_
  · grind [mem_insert, hs.text]
  · have hlocNew : s'.tree.locate (ns ++ [n]) = some i := by
      rw [locate_of hvalid, hpaths, lookup_insert]
    have hnodeEntries : s'.tree.entries i = nd.kind.entries := entries_of hnd
    refine hs.tree.add hlocd (entries_of_kind hdir hkind)
      ((locate_of hvalid).trans hfree) hlocNew hlocs (entries_of_kind hdir' rfl) ?_
      hentries
    rcases hleaf with ⟨hnone, hnone'⟩ | ⟨hfresh, hempty⟩
    · exact .inl ⟨hnone, hnodeEntries.trans hnone'⟩
    · refine .inr ⟨fun ms hms => ?_, hnodeEntries.trans hempty⟩
      exact hfresh _ (valid_of_locate hms).2
  · grind [length_keys_insert, lookup_eq_none.mp]
  · intro path j hpath
    by_cases hne : path = Path.text (ns ++ [n])
    · grind [lookup_insert]
    · grind [hs.named]
  intro j node hnode
  rcases hcases hnode with ⟨rfl, rfl⟩ | ⟨rfl, rfl⟩ | ⟨hne, hold⟩
  · grind [NodeOk]
  · grind [NodeOk, hs.nodeOk hdir]
  · grind [NodeOk, hs.nodeOk hold]

variable (hs : s.WellFormed) (hvalid : ValidNames (ns ++ [n]))
  (hi : s.paths.lookup (Path.text (ns ++ [n])) = some i) (hnd : s.nodes.lookup i = some nd)
  (hleaf : ∀ entries, nd.kind.entries = some entries → entries = [])
  (hd : s.paths.lookup (Path.text ns) = some d)

include hs hvalid hi hnd hleaf hd

/-- A leaf is not the directory it is in. -/
theorem TmpfsState.WellFormed.leaf_ne : i ≠ d := by
  rintro rfl
  obtain ⟨e, es, he, hes, hmem⟩ := hs.tree.placed ((locate_of hvalid).trans hi)
  grind [locate_of, entries_of]

/-- A name is taken away from a node without entries, which goes with its last name unless it is
open. -/
theorem TmpfsState.WellFormed.remove (hdir : s.nodes.lookup d = some dir)
    (hkind : dir.kind = .directory children mode)
    (hpaths : s'.paths = s.paths.erase (Path.text (ns ++ [n])))
    (hdir' : s'.nodes.lookup d = some { dir with kind := .directory (children.erase n) mode })
    (hnd' : s'.nodes.lookup i = none ∧ nd.linkCount = 1 ∨
      s'.nodes.lookup i = some { nd with linkCount := nd.linkCount - 1 } ∧
        (nd.linkCount = 1 → 0 < nd.openCount))
    (hothers : ∀ j, j ≠ d → j ≠ i → s'.nodes.lookup j = s.nodes.lookup j)
    (hnext : s'.nextInode = s.nextInode) : s'.WellFormed := by
  have hfront : ValidNames ns := (validNames_concat.mp hvalid).1
  have hlocd : s.tree.locate ns = some d := (locate_of hfront).trans hd
  have hloci : s.tree.locate (ns ++ [n]) = some i := (locate_of hvalid).trans hi
  have hlookup : ∀ {path j}, s'.paths.lookup path = some j →
      path ≠ Path.text (ns ++ [n]) ∧ s.paths.lookup path = some j := by
    grind [lookup_erase, lookup_erase_ne]
  have hcard : 0 < nd.linkCount := by
    rw [hs.linkCount i nd hnd, nameCount_eq_card, Finset.card_pos]
    exact ⟨_, mem_namesOf.mpr hi⟩
  have hcounts : ∀ j, s'.nameCount j = s.nameCount j - if j = i then 1 else 0 := by
    grind [nameCount_eq_card, namesOf_erase, Finset.erase_eq_of_notMem, mem_namesOf]
  -- A node of the new state is the one with a name less, the directory, or one that was there.
  have hcases : ∀ {j node}, s'.nodes.lookup j = some node →
      (j = i ∧ node = { nd with linkCount := nd.linkCount - 1 } ∧
        (nd.linkCount = 1 → 0 < nd.openCount)) ∨
      (j = d ∧ node = { dir with kind := .directory (children.erase n) mode }) ∨
      j ≠ i ∧ s.nodes.lookup j = some node := by
    grind
  refine .of_nodes ?_ ?_ ?_ ?_ ?_
  · grind [mem_erase, hs.text]
  · have hlocNone : s'.tree.locate (ns ++ [n]) = none := by
      rw [locate_of hvalid, hpaths, lookup_erase]
    have hlocs : ∀ ms, ms ≠ ns ++ [n] → s'.tree.locate ms = s.tree.locate ms := by
      intro ms hne
      by_cases hms : ValidNames ms
      · have htext : Path.text ms ≠ Path.text (ns ++ [n]) :=
          fun heq => hne (text_inj hms hvalid heq)
        rw [locate_of hms, locate_of hms, hpaths, lookup_erase_ne htext]
      · exact (if_neg hms).trans (if_neg hms).symm
    refine hs.tree.remove hloci hlocd (entries_of_kind hdir hkind) ?_ hlocNone hlocs
      (entries_of_kind hdir' rfl) ?_
    · grind [entries_of]
    · grind [TmpfsState.tree]
  · grind [lookup_isSome, length_keys_erase, hs.size]
  · intro path j hpath
    obtain ⟨hne, hold⟩ := hlookup hpath
    obtain ⟨node, hnode⟩ := hs.named path j hold
    by_cases hji : j = i
    · subst hji
      rcases hnd' with ⟨-, hone⟩ | ⟨hsome, -⟩
      · -- The node goes with its last name, so it has no other one.
        have hcount := hs.linkCount j nd hnd
        rw [hone, nameCount_eq_card] at hcount
        obtain ⟨k, hk⟩ := Finset.card_eq_one.mp hcount.symm
        have hpathk := Finset.mem_singleton.mp (hk ▸ mem_namesOf.mpr hold)
        have hchildk := Finset.mem_singleton.mp (hk ▸ mem_namesOf.mpr hi)
        exact absurd (hpathk.trans hchildk.symm) hne
      · exact ⟨_, hsome⟩
    · grind
  intro j node hnode
  rcases hcases hnode with ⟨rfl, rfl, hopen⟩ | ⟨rfl, rfl⟩ | ⟨hne, hold⟩
  · grind [NodeOk, hs.nodeOk hnd]
  · grind [NodeOk, hs.nodeOk hdir]
  · grind [NodeOk, hs.nodeOk hold]

omit hs hvalid hi hnd hleaf hd

end Changes

end Seele.Tmpfs
