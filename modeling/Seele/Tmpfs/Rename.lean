import Seele.Tmpfs.Operations

/-!
# `rename` in a tmpfs

`rename` takes the old path, and all paths below it, out of the map, changes the entries of the two
directories, and puts the paths back with the new path in front. `takePaths_of` and `putPaths_of`
say what the two loops leave in the map, and that no count changes. For names the three equations of
`Moved` are what `NameTree.Consistent.move` asks for.

A target that exists is deleted first. It is a file, or a directory without entries, so that the old
path is not below it; and a directory is not moved below itself. The deletion is the last thing that
can be refused.
-/

namespace Seele.Tmpfs

open Seele.Lib Seele.Filesystem Path TmpfsState AList List TmpNodeKind NameTree Cmd

/-! ## The two loops -/

section Loops

/-- What the first loop leaves: the keys are gone, and the list has what was behind the old path in
each of them. -/
structure Taken (oldPath : List Char) (keys : List (List Char)) (moved : List (List Char × ℕ))
    (paths paths' : AList fun _ : List Char => ℕ) : Prop where
  entries : moved = keys.map fun k => (k.drop oldPath.length, (paths.lookup k).getD 0)
  lookup : ∀ k, paths'.lookup k = if k ∈ keys then none else paths.lookup k
  size : paths'.keys.length + moved.length = paths.keys.length
  count : ∀ j, (namesOf paths' j).card + moved.countP (·.2 = j) = (namesOf paths j).card

variable {s : TmpfsState}

/-- What the first loop takes out. -/
theorem takePaths_of {oldPath : List Char} {keys : List (List Char)}
    (hnodup : keys.Nodup) (hkeys : ∀ k ∈ keys, oldPath <+: k ∧ k ∈ s.paths) :
    ∃ moved paths', takePaths oldPath keys s = some (.ok moved, { s with paths := paths' }) ∧
      Taken oldPath keys moved s.paths paths' := by
  induction keys generalizing s with
  | nil => exact ⟨[], s.paths, rfl, by constructor <;> simp⟩
  | cons key keys ih =>
  obtain ⟨hfresh, hnodup⟩ := nodup_cons.mp hnodup
  obtain ⟨hfront, hmem⟩ := hkeys key mem_cons_self
  obtain ⟨i, hi⟩ := Option.isSome_iff_exists.mp (lookup_isSome.mpr hmem)
  -- The other keys are found where they were.
  have hne : ∀ {k}, k ∈ keys → k ≠ key := by
    rintro k hk rfl
    exact hfresh hk
  have hrest : ∀ k ∈ keys, oldPath <+: k ∧ k ∈ s.paths.erase key := by grind [mem_erase.mpr]
  obtain ⟨moved, paths', hrun, htaken⟩ := ih (s := { s with paths := s.paths.erase key }) hnodup
    hrest
  refine ⟨(key.drop oldPath.length, i) :: moved, paths', ?_, ?_⟩
  · have hremove : removePath key s = some (.ok i, { s with paths := s.paths.erase key }) := by
      unfold removePath
      rw [get_bind, hi]
      rfl
    rw [takePaths, if_neg (not_not.mpr hfront)]
    dsimp only
    rw [bind_of_ok hremove, bind_of_ok hrun]
    rfl
  constructor
  · grind [htaken.entries, map_congr_left, lookup_erase_ne]
  · grind [htaken.lookup, lookup_erase, lookup_erase_ne]
  · have hlength := length_keys_erase hmem
    have hsize := htaken.size
    grind
  intro j
  have hcount := htaken.count j
  rw [namesOf_erase] at hcount
  by_cases hij : i = j
  · grind [mem_namesOf.mpr]
  have hnot : key ∉ namesOf s.paths j := by
    rw [mem_namesOf, hi]
    exact fun heq => hij (Option.some.inj heq)
  grind [Finset.erase_eq_of_notMem]

/-- What the second loop leaves: the entries are there behind the new path. -/
structure Put (newPath : List Char) (moved : List (List Char × ℕ))
    (paths paths' : AList fun _ : List Char => ℕ) : Prop where
  came : ∀ e ∈ moved, paths'.lookup (newPath ++ e.1) = some e.2
  others : ∀ k, (∀ e ∈ moved, k ≠ newPath ++ e.1) → paths'.lookup k = paths.lookup k
  size : paths'.keys.length = paths.keys.length + moved.length
  count : ∀ j, (namesOf paths' j).card = (namesOf paths j).card + moved.countP (·.2 = j)

/-- What the second loop puts in. -/
theorem putPaths_of {newPath : List Char} {moved : List (List Char × ℕ)}
    (hnodup : (moved.map Prod.fst).Nodup) (hfree : ∀ e ∈ moved, newPath ++ e.1 ∉ s.paths)
    (hsize : s.paths.keys.length + moved.length ≤ U64_MAX) :
    ∃ paths', each (fun entry => insertPath (newPath ++ entry.1) entry.2) moved s =
        some (.ok (), { s with paths := paths' }) ∧ Put newPath moved s.paths paths' := by
  induction moved generalizing s with
  | nil => exact ⟨s.paths, rfl, by constructor <;> simp⟩
  | cons entry moved ih =>
  obtain ⟨hfresh, hnodup⟩ := nodup_cons.mp hnodup
  have hnew : newPath ++ entry.1 ∉ s.paths := hfree entry mem_cons_self
  have hne : ∀ {e}, e ∈ moved → newPath ++ e.1 ≠ newPath ++ entry.1 := by grind [append_cancel_left]
  have hroom : s.paths.keys.length < U64_MAX := by
    rw [length_cons] at hsize
    omega
  have hlength := length_keys_insert hnew entry.2
  obtain ⟨paths', hrun, hput⟩ := ih
    (s := { s with paths := s.paths.insert (newPath ++ entry.1) entry.2 }) hnodup
    (fun e he hmem => (mem_insert _).mp hmem |>.elim (hne he) (hfree e (mem_cons_of_mem _ he)))
    (by
      rw [length_cons] at hsize
      dsimp only
      omega)
  refine ⟨paths', ?_, ?_⟩
  · rw [each, bind_of_ok (insertPath_of (.inr hroom) entry.2), hrun]
  constructor
  · intro e he
    grind [hput.others, lookup_insert, hput.came]
  · grind [hput.others, lookup_insert_ne]
  · have hputSize := hput.size
    grind
  · intro j
    have hcount := hput.count j
    grind [namesOf_insert, lookup_eq_none.mpr, mem_namesOf]

end Loops

/-! ## The move -/

section Move

variable {s s' : TmpfsState} {os ns : List Name} {o n : Name} {dO dN : ℕ}

/-- What moves lies below the old path. -/
theorem isMoved_text {names names' : List Name} (hne : names ≠ [])
    (hvalid : ValidNames names) (hvalid' : ValidNames names') :
    isMoved (text names) (text names') = true ↔ names <+: names' := by
  unfold isMoved
  grind [text_inj, text_slash_prefix]

/-- The name `o` in the directory `os` can move to the name `n` in the directory `ns`. -/
structure TmpfsState.CanMove (s : TmpfsState) (os ns : List Name) (o n : Name) (dO dN : ℕ) :
    Prop where
  validOld : ValidNames (os ++ [o])
  validNew : ValidNames (ns ++ [n])
  /-- The old path is there. -/
  old : ∃ i, s.paths.lookup (text (os ++ [o])) = some i
  oldParent : s.paths.lookup (text os) = some dO
  newParent : s.paths.lookup (text ns) = some dN
  newDirectory : ∃ entries, s.tree.entries dN = some entries
  /-- The new path is free. -/
  free : s.paths.lookup (text (ns ++ [n])) = none
  /-- The new directory is not below the old path. -/
  outside : ¬ os ++ [o] <+: ns

variable (hs : s.WellFormed)

include hs

/-- The old parent is a directory. -/
theorem TmpfsState.CanMove.oldDirectory (hmove : s.CanMove os ns o n dO dN) :
    ∃ dir children mode, s.nodes.lookup dO = some dir ∧ dir.kind = .directory children mode := by
  obtain ⟨i, hi⟩ := hmove.old
  obtain ⟨d, es, hd, hes, -⟩ := hs.tree.placed ((locate_of hmove.validOld).trans hi)
  obtain ⟨-, hd⟩ := valid_of_locate hd
  rw [hmove.oldParent] at hd
  cases hd
  obtain ⟨dir, hdir⟩ := hs.named _ _ hmove.oldParent
  rw [entries_of hdir] at hes
  grind [entries_eq_some]

variable (hmove : s.CanMove os ns o n dO dN)

include hmove

/-- The new parent is a directory. -/
theorem TmpfsState.CanMove.newDirectory_kind :
    ∃ dir children mode, s.nodes.lookup dN = some dir ∧ dir.kind = .directory children mode := by
  obtain ⟨es, hes⟩ := hmove.newDirectory
  obtain ⟨dir, hdir⟩ := hs.named _ _ hmove.newParent
  rw [entries_of hdir] at hes
  grind [entries_eq_some]

/-- The entries of a directory are changed. -/
def TmpNodeKind.mapEntries (f : List Name → List Name) : TmpNodeKind → TmpNodeKind
  | .directory children mode => .directory (f children) mode
  | kind => kind

/-- What a move does to the paths. -/
structure MovedPaths (os ns : List Name) (o n : Name)
    (paths paths' : AList fun _ : List Char => ℕ) : Prop where
  text : ∀ k ∈ paths', ∃ names, ValidNames names ∧ k = text names
  came : ∀ suffix, ValidNames suffix →
    paths'.lookup (Path.text (ns ++ [n] ++ suffix)) = paths.lookup (Path.text (os ++ [o] ++ suffix))
  left : ∀ names, ValidNames names → os ++ [o] <+: names → ¬ ns ++ [n] <+: names →
    paths'.lookup (Path.text names) = none
  others : ∀ names, ValidNames names → ¬ os ++ [o] <+: names → ¬ ns ++ [n] <+: names →
    paths'.lookup (Path.text names) = paths.lookup (Path.text names)
  size : paths'.keys.length = paths.keys.length
  count : ∀ j, (namesOf paths' j).card = (namesOf paths j).card

/-- What a move does to the state. -/
structure Moved (os ns : List Name) (o n : Name) (dO dN : ℕ) (s s' : TmpfsState) : Prop where
  nextInode : s'.nextInode = s.nextInode
  nodes : ∀ j, s'.nodes.lookup j = (s.nodes.lookup j).map fun nd =>
    { nd with kind := nd.kind.mapEntries (movedEntries dO dN o n j) }
  paths : MovedPaths os ns o n s.paths s'.paths

omit hs hmove in
/-- The text behind a name. -/
theorem text_behind (front : List Name) (name : Name) (suffix : List Name) :
    text (front ++ [name] ++ suffix) = text (front ++ [name]) ++ suffix.flatMap ('/' :: ·) :=
  text_append (by simp)

omit hmove in
/-- What moves, by its names. -/
theorem TmpfsState.WellFormed.names_of_isMoved (hvalid : ValidNames (os ++ [o])) {k : List Char}
    (hk : k ∈ s.paths.keys.filter (isMoved (Path.text (os ++ [o])))) :
    ∃ suffix, Path.ValidNames suffix ∧ k = Path.text (os ++ [o] ++ suffix) ∧
      k.drop (Path.text (os ++ [o])).length = suffix.flatMap ('/' :: ·) := by
  obtain ⟨hmem, hmoved⟩ := mem_filter.mp hk
  obtain ⟨names, hnames, rfl⟩ := hs.text k hmem
  obtain ⟨suffix, rfl⟩ := (isMoved_text (by simp) hvalid hnames).mp hmoved
  grind [text_behind]

/-- Below the new path nothing is there. -/
theorem TmpfsState.CanMove.free_below {suffix : List Name} (hsuffix : ValidNames suffix) :
    s.paths.lookup (text (ns ++ [n] ++ suffix)) = none := by
  have hvalid : ValidNames (ns ++ [n] ++ suffix) :=
    validNames_append.mpr ⟨hmove.validNew, hsuffix⟩
  rw [← locate_of hvalid]
  refine hs.tree.none_below ?_ (prefix_append _ _)
  rw [locate_of hmove.validNew, hmove.free]

/-- The paths after both loops. -/
theorem movedPaths_of {moved : List (List Char × ℕ)} {paths₁ paths₂ : AList fun _ : List Char => ℕ}
    (htaken : Taken (text (os ++ [o]))
      (s.paths.keys.filter (isMoved (text (os ++ [o])))) moved s.paths paths₁)
    (hput : Put (text (ns ++ [n])) moved paths₁ paths₂) :
    MovedPaths os ns o n s.paths paths₂ := by
  -- The keys are the paths behind the old one.
  have hkey : ∀ {names}, ValidNames names → text names ∈ s.paths →
      (text names ∈ s.paths.keys.filter (isMoved (text (os ++ [o]))) ↔ os ++ [o] <+: names) := by
    intro names hnames hmem
    rw [mem_filter, isMoved_text (by simp) hmove.validOld hnames]
    exact ⟨fun h => h.2, fun h => ⟨hmem, h⟩⟩
  have hfirst : ∀ {names}, ValidNames names → os ++ [o] <+: names →
      paths₁.lookup (text names) = none := by
    intro names hnames hle
    rw [htaken.lookup]
    grind [lookup_eq_none.mpr]
  have hfirst' : ∀ {names}, ValidNames names → ¬ os ++ [o] <+: names →
      paths₁.lookup (text names) = s.paths.lookup (text names) := by
    intro names hnames hle
    rw [htaken.lookup, if_neg]
    intro hmem
    exact hle ((hkey hnames (mem_filter.mp hmem).1).mp hmem)
  -- The entries of the list are the names behind the old path, with their inodes.
  have hentry : ∀ {e}, e ∈ moved → ∃ suffix, ValidNames suffix ∧ e.1 = suffix.flatMap ('/' :: ·) ∧
      s.paths.lookup (text (os ++ [o] ++ suffix)) = some e.2 := by
    intro e he
    rw [htaken.entries] at he
    obtain ⟨k, hk, rfl⟩ := mem_map.mp he
    obtain ⟨suffix, hsuffix, rfl, hdrop⟩ := hs.names_of_isMoved hmove.validOld hk
    obtain ⟨i, hi⟩ := Option.isSome_iff_exists.mp (lookup_isSome.mpr (mem_filter.mp hk).1)
    exact ⟨suffix, hsuffix, hdrop, by rw [hi]; rfl⟩
  have hentry' : ∀ {suffix i}, ValidNames suffix →
      s.paths.lookup (text (os ++ [o] ++ suffix)) = some i →
      (suffix.flatMap ('/' :: ·), i) ∈ moved := by
    grind [hmove.validOld, lookup_isSome.mp, htaken.entries, text_behind]
  -- A path that does not go on from the new one is left alone by the second loop.
  have hsecond : ∀ {names}, ValidNames names → ¬ ns ++ [n] <+: names →
      paths₂.lookup (text names) = paths₁.lookup (text names) := by
    intro names hnames hle
    refine hput.others _ fun e he heq => ?_
    obtain ⟨suffix, hsuffix, hfst, -⟩ := hentry he
    rw [hfst, ← text_behind] at heq
    have hvalid : ValidNames (ns ++ [n] ++ suffix) :=
      validNames_append.mpr ⟨hmove.validNew, hsuffix⟩
    rw [text_inj hnames hvalid heq] at hle
    exact hle (prefix_append _ _)
  constructor
  · intro k hk
    by_cases hcame : ∃ e ∈ moved, k = text (ns ++ [n]) ++ e.1
    · obtain ⟨e, he, rfl⟩ := hcame
      obtain ⟨suffix, hsuffix, hfst, -⟩ := hentry he
      exact ⟨_, validNames_append.mpr ⟨hmove.validNew, hsuffix⟩, by rw [hfst, ← text_behind]⟩
    · refine hs.text k ?_
      rw [← lookup_isSome] at hk ⊢
      grind [hput.others, htaken.lookup]
  · intro suffix hsuffix
    cases hi : s.paths.lookup (text (os ++ [o] ++ suffix)) with
    | some i =>
      rw [text_behind]
      exact hput.came _ (hentry' hsuffix hi)
    | none =>
      -- Nothing has come here, and nothing was here.
      rw [hput.others, htaken.lookup, hmove.free_below hs hsuffix, ite_self]
      grind [text_behind, append_cancel_left]
  · grind
  · grind
  · rw [hput.size, htaken.size]
  · intro j
    rw [hput.count, htaken.count]

/-- What `move_entry` does. -/
theorem moveEntry_of :
    ∃ s', moveEntry (text (os ++ [o])) (text (ns ++ [n])) (text os) (text ns) o n
        s = some (.ok (), s') ∧ Moved os ns o n dO dN s s' := by
  obtain ⟨hos, -⟩ := validNames_concat.mp hmove.validOld
  obtain ⟨hns, -⟩ := validNames_concat.mp hmove.validNew
  have hkeys : ∀ k ∈ s.paths.keys.filter (isMoved (text (os ++ [o]))),
      text (os ++ [o]) <+: k ∧ k ∈ s.paths := by
    intro k hk
    obtain ⟨suffix, -, rfl, -⟩ := hs.names_of_isMoved hmove.validOld hk
    rw [text_behind]
    exact ⟨prefix_append _ _, text_behind os o suffix ▸ (mem_filter.mp hk).1⟩
  obtain ⟨moved, paths₁, htake, htaken⟩ := takePaths_of (s.paths.keys_nodup.filter _) hkeys
  -- The two directories are found as before.
  have hlookup : ∀ {names}, ValidNames names → ¬ os ++ [o] <+: names →
      paths₁.lookup (text names) = s.paths.lookup (text names) := by
    intro names hnames hle
    rw [htaken.lookup, if_neg]
    intro hmem
    exact hle ((isMoved_text (by simp) hmove.validOld hnames).mp (mem_filter.mp hmem).2)
  have hself : ¬ os ++ [o] <+: os := by
    intro hle
    have hlength := hle.length_le
    grind
  have hdO := (hlookup hos hself).trans hmove.oldParent
  have hdN := (hlookup hns hmove.outside).trans hmove.newParent
  obtain ⟨dirO, esO, modeO, hdirO, hkindO⟩ := hmove.oldDirectory hs
  obtain ⟨dirN, esN, modeN, hdirN, hkindN⟩ := hmove.newDirectory_kind hs
  have hupdateO := updateChildren_of (s := { s with paths := paths₁ }) hdO hdirO hkindO (.erase · o)
  -- The new directory may be the old one, whose entries have changed.
  obtain ⟨found, esN', hfound, hkindFound, hresult⟩ : ∃ found esN',
      (s.nodes.insert dO { dirO with kind := .directory (esO.erase o) modeO }).lookup dN =
        some found ∧ found.kind = .directory esN' modeN ∧
      some { found with kind := directory (esN'.insert n) modeN } =
        some { dirN with kind := dirN.kind.mapEntries (movedEntries dO dN o n dN) } := by
    unfold movedEntries
    by_cases hsame : dN = dO
    · subst hsame
      grind [lookup_insert, mapEntries]
    · grind [lookup_insert_ne, mapEntries]
  have hupdateN := updateChildren_of (s := { s with
    paths := paths₁
    nodes := s.nodes.insert dO { dirO with kind := .directory (esO.erase o) modeO } }) hdN hfound
    hkindFound (.insert n)
  -- The map can take the paths back, and their places are free.
  have hnodup : (moved.map Prod.fst).Nodup := by
    rw [htaken.entries, map_map]
    refine (s.paths.keys_nodup.filter _).map_on fun k hk k' hk' heq => ?_
    obtain ⟨suffix, -, rfl, hdrop⟩ := hs.names_of_isMoved hmove.validOld hk
    obtain ⟨suffix', -, rfl, hdrop'⟩ := hs.names_of_isMoved hmove.validOld hk'
    grind [text_behind]
  have hfree : ∀ e ∈ moved, text (ns ++ [n]) ++ e.1 ∉ paths₁ := by
    intro e he
    rw [htaken.entries] at he
    obtain ⟨k, hk, rfl⟩ := mem_map.mp he
    obtain ⟨suffix, hsuffix, -, hdrop⟩ := hs.names_of_isMoved hmove.validOld hk
    rw [hdrop, ← text_behind, ← lookup_eq_none, htaken.lookup,
      hmove.free_below hs hsuffix, ite_self]
  have hsize : paths₁.keys.length + moved.length ≤ U64_MAX := by
    rw [htaken.size]
    exact hs.size
  obtain ⟨paths₂, hput, hputPaths⟩ := putPaths_of (s := { s with
    paths := paths₁
    nodes := (s.nodes.insert dO { dirO with kind := .directory (esO.erase o) modeO }).insert dN
      { found with kind := .directory (esN'.insert n) modeN } }) hnodup hfree hsize
  refine ⟨_, .trans ?_ hput, rfl, fun j => ?_, movedPaths_of hs hmove htaken hputPaths⟩
  · unfold moveEntry
    grind [get_bind, bind_of_ok]
  dsimp only
  by_cases hjN : j = dN
  · grind [lookup_insert]
  rw [lookup_insert_ne hjN]
  by_cases hjO : j = dO
  · grind [lookup_insert, movedEntries, mapEntries]
  rw [lookup_insert_ne hjO]
  -- The entries of other directories are as they were.
  have hid : ∀ kind : TmpNodeKind, kind.mapEntries (movedEntries dO dN o n j) = kind := by
    intro kind
    cases kind <;> simp [mapEntries, movedEntries, hjN, hjO]
  simp only [hid]
  exact Option.map_id'.symm

variable (hmoved : Moved os ns o n dO dN s s')

include hmoved

omit hs hmove in
/-- A node stays, up to its entries. -/
theorem Moved.node_of {j : ℕ} {node : TmpNode}
    (hnode : s'.nodes.lookup j = some node) : ∃ old, s.nodes.lookup j = some old ∧
      node = { old with kind := old.kind.mapEntries (movedEntries dO dN o n j) } := by
  rw [hmoved.nodes] at hnode
  obtain ⟨old, hold, rfl⟩ := Option.map_eq_some_iff.mp hnode
  exact ⟨old, hold, rfl⟩

omit hs hmove in
/-- No inode is new. -/
theorem Moved.path_of {path : List Char} {j : ℕ}
    (hpath : s'.paths.lookup path = some j) : ∃ path', s.paths.lookup path' = some j := by
  obtain ⟨names, hnames, rfl⟩ := hmoved.paths.text path (lookup_isSome.mp (by rw [hpath]; rfl))
  by_cases hB : ns ++ [n] <+: names
  · obtain ⟨suffix, rfl⟩ := hB
    grind [hmoved.paths.came]
  · grind [hmoved.paths.left, hmoved.paths.others]

/-- The tree stays consistent. -/
theorem Moved.consistent : s'.tree.Consistent := by
  obtain ⟨hos, -⟩ := validNames_concat.mp hmove.validOld
  obtain ⟨hns, -⟩ := validNames_concat.mp hmove.validNew
  obtain ⟨i, hi⟩ := hmove.old
  obtain ⟨dirO, esO, modeO, hdirO, hkindO⟩ := hmove.oldDirectory hs
  obtain ⟨dirN, esN, modeN, hdirN, hkindN⟩ := hmove.newDirectory_kind hs
  -- Names that are not valid have no place before and after.
  have hinvalid : ∀ {t : TmpfsState} {names}, ¬ ValidNames names → t.tree.locate names = none :=
    fun h => if_neg h
  refine hs.tree.move ((locate_of hmove.validOld).trans hi)
    ((locate_of hos).trans hmove.oldParent) (entries_of_kind hdirO hkindO)
    ((locate_of hns).trans hmove.newParent) (entries_of_kind hdirN hkindN)
    ((locate_of hmove.validNew).trans hmove.free) hmove.outside ?_ ?_ ?_ ?_
  · intro suffix
    by_cases hsuffix : ValidNames suffix
    · grind [locate_of, hmove.validNew, hmove.validOld, hmoved.paths.came]
    · rw [hinvalid fun h => hsuffix (validNames_append.mp h).2,
        hinvalid fun h => hsuffix (validNames_append.mp h).2]
  · grind [locate_of, hmoved.paths.left]
  · intro names hA hB
    by_cases hnames : ValidNames names
    · grind [locate_of, hmoved.paths.others]
    · rw [hinvalid hnames, hinvalid hnames]
  intro j
  unfold tree
  dsimp only
  rw [hmoved.nodes]
  cases s.nodes.lookup j with
  | none => rfl
  | some nd =>
    rw [Option.map_some, Option.bind_some, Option.bind_some]
    cases nd.kind <;> rfl

omit hmove

/-- A move keeps it well formed. -/
theorem Moved.wellFormed (hmove : s.CanMove os ns o n dO dN) : s'.WellFormed := by
  refine .of_nodes hmoved.paths.text (hmoved.consistent hs hmove) ?_ ?_ ?_
  · rw [hmoved.paths.size]
    exact hs.size
  · grind [hmoved.path_of, hs.named, hmoved.nodes]
  intro j node hnode
  obtain ⟨old, hold, rfl⟩ := hmoved.node_of hnode
  have hok := hs.nodeOk hold
  have hcount : s'.nameCount j = s.nameCount j := by
    rw [nameCount_eq_card, hmoved.paths.count, ← nameCount_eq_card]
  exact ⟨hok.self, hok.linkCount.trans hcount.symm, hok.unlinked, hmoved.nextInode ▸ hok.fresh,
    hok.positive⟩

end Move

/-! ## The operation -/

section Rename

variable {s s' : TmpfsState} {os ns : List Name} {o n : Name} {dO dN : ℕ} {r : Except FSError Unit}

/-- What was at the new path is gone: there was nothing, or it has been deleted. -/
def TargetGone (ns : List Name) (n : Name) (dN : ℕ) (s s' : TmpfsState) : Prop :=
  (s.paths.lookup (text (ns ++ [n])) = none ∧ s' = s) ∨
    ∃ dir children mode i nd,
      s.paths.lookup (text (ns ++ [n])) = some i ∧ s.nodes.lookup i = some nd ∧
      (∀ entries, nd.kind.entries = some entries → entries = []) ∧
      s.nodes.lookup dN = some dir ∧ dir.kind = .directory children mode ∧
      s' = s.deleted (text (ns ++ [n])) i nd dN
        { dir with kind := .directory (children.erase n) mode }

variable (hs : s.WellFormed)

include hs

/-- What clearing the target does. -/
theorem clearTarget_spec {sourceIsDir : Bool}
    (hvalid : ValidNames (ns ++ [n])) (hdN : s.paths.lookup (text ns) = some dN)
    (h : clearTarget sourceIsDir (text (ns ++ [n])) s = some (r, s')) :
    Refused s r s' ∨ r = .ok () ∧ s'.WellFormed ∧ TargetGone ns n dN s s' := by
  obtain ⟨hns, hn⟩ := validNames_concat.mp hvalid
  rcases bind_eq_some.mp h with ⟨found, t, h1, h2⟩ | ⟨e, h1, -⟩
  swap
  · obtain ⟨out, -, hout⟩ := Option.map_eq_some_iff.mp h1
    cases (Prod.mk.inj hout).1
  obtain ⟨⟨out, u⟩, h3, hout⟩ := Option.map_eq_some_iff.mp h1
  obtain ⟨houtcome, rfl⟩ := Prod.mk.inj hout
  cases houtcome
  obtain ⟨rfl, hcases⟩ := node_finds _ _ h3
  dsimp only at h2
  cases hfound : out with
  | error e =>
    rw [hfound] at h2
    cases h2
    -- There is no target: its path would name a node.
    refine .inr ⟨rfl, hs, .inl ⟨?_, rfl⟩⟩
    cases hi : s'.paths.lookup (text (ns ++ [n])) with
    | none => rfl
    | some i =>
      obtain ⟨nd, hnd⟩ := hs.named _ i hi
      rw [node_of hi hnd, hfound] at h3
      cases h3
  | ok target =>
  rw [hfound] at h2
  rcases check_eq_some h2 with ⟨-, rfl, rfl⟩ | ⟨-, h2⟩
  · exact .inl ⟨⟨_, rfl⟩, rfl⟩
  rcases check_eq_some h2 with ⟨-, rfl, rfl⟩ | ⟨-, h2⟩
  · exact .inl ⟨⟨_, rfl⟩, rfl⟩
  have hdelete : deleteNode (text ns) n u = some (r, s') := by
    unfold deletePath at h2
    rw [splitPath_text hvalid] at h2
    exact h2
  rcases deleteNode_spec hs hn hdelete with hrefused | ⟨ms, d, dir, children, mode, i, nd, hr, hms,
    hparent, hi, hnd, hleaf, hd, hdir, hkind, hs'⟩
  · exact .inl hrefused
  -- The directory is the one of the new path.
  rw [normalize_text hns] at hparent
  obtain ⟨hms', -⟩ := validNames_concat.mp hms
  obtain rfl := text_inj hns hms' hparent
  rw [hdN] at hd
  cases hd
  refine .inr ⟨hr, ?_, .inr ⟨dir, children, mode, i, nd, hi, hnd, hleaf, hdir, hkind, hs'⟩⟩
  rw [hs']
  exact hs.deleted hvalid hi hnd hleaf hdN hdir hkind

variable {entries : List Name}

/-- After the target is cleared the entry can move. -/
theorem TargetGone.canMove {t : TmpfsState} {i : ℕ} (ht : t.WellFormed)
    (hgone : TargetGone ns n dN s t) (hold : ValidNames (os ++ [o])) (hnew : ValidNames (ns ++ [n]))
    (hne : os ++ [o] ≠ ns ++ [n]) (hi : s.paths.lookup (text (os ++ [o])) = some i)
    (hdO : s.paths.lookup (text os) = some dO) (hdN : s.paths.lookup (text ns) = some dN)
    (hentries : s.tree.entries dN = some entries) (houtside : ¬ os ++ [o] <+: ns) :
    t.CanMove os ns o n dO dN := by
  obtain ⟨hos, -⟩ := validNames_concat.mp hold
  obtain ⟨hns, -⟩ := validNames_concat.mp hnew
  rcases hgone with ⟨hfree, rfl⟩ | ⟨dir, children, mode, i', nd, hi', hnd, hleaf, hdir, hkind, rfl⟩
  · exact ⟨hold, hnew, ⟨i, hi⟩, hdO, hdN, ⟨_, hentries⟩, hfree, houtside⟩
  have hid : i' ≠ dN := hs.leaf_ne hnew hi' hnd hleaf hdN
  have hlookup : ∀ {names}, ValidNames names → names ≠ ns ++ [n] →
      (s.paths.erase (text (ns ++ [n]))).lookup (text names) = s.paths.lookup (text names) := by
    grind [lookup_erase_ne, text_inj]
  have hi₁ := (hlookup hold hne).trans hi
  -- The old path is still there, so its directory is no entry that has gone.
  obtain ⟨d, es, hd, -⟩ := ht.tree.placed ((locate_of hold).trans hi₁)
  obtain ⟨-, hd⟩ := valid_of_locate hd
  have hosne : os ≠ ns ++ [n] := by
    rintro rfl
    have hnone : (s.paths.erase (text (ns ++ [n]))).lookup (text (ns ++ [n])) = none :=
      lookup_erase _ _
    exact absurd (hnone.symm.trans hd) (by simp)
  have hnsne : ns ≠ ns ++ [n] := by simp
  refine ⟨hold, hnew, ⟨i, hi₁⟩, (hlookup hos hosne).trans hdO, (hlookup hns hnsne).trans hdN, ?_,
    lookup_erase _ _, houtside⟩
  have hdir' := s.deleted_directory (text (ns ++ [n])) nd hid
    { dir with kind := .directory (children.erase n) mode }
  exact ⟨_, entries_of_kind hdir' rfl⟩

variable {names names' : List Name}

/-- A source that leads to the target is a directory. -/
theorem TmpfsState.WellFormed.isDirectory_of_prefix {i d : ℕ}
    {source : TmpNode} (hnames : ValidNames names)
    (hnames' : Path.ValidNames names') (hi : s.paths.lookup (Path.text names) = some i)
    (hsource : s.nodes.lookup i = some source) (hle : names <+: names')
    (hd : s.paths.lookup (Path.text names') = some d) (hentries : s.tree.entries d = some entries) :
    source.kind.isDirectory = true := by
  have hloc := (locate_of hnames).trans hi
  have hloc' := (locate_of hnames').trans hd
  obtain ⟨es, hes⟩ : ∃ es, s.tree.entries i = some es := by
    obtain ⟨suffix, rfl⟩ := hle
    by_cases hnil : suffix = []
    · grind
    · grind [hs.tree.above]
  rw [entries_of hsource] at hes
  obtain ⟨mode, hkind⟩ := entries_eq_some hes
  rw [hkind]
  rfl

/-- What `rename` does. -/
theorem rename_spec (hnames : Path.ValidNames names) (hnames' : Path.ValidNames names')
    (h : rename (Path.text names) (Path.text names') s = some (r, s')) :
    Refused s r s' ∨ (names = names' ∧ r = .ok () ∧ s' = s) ∨
      ∃ os o ns n dO dN t, names = os ++ [o] ∧ names' = ns ++ [n] ∧ r = .ok () ∧ t.WellFormed ∧
        TargetGone ns n dN s t ∧ t.CanMove os ns o n dO dN ∧ Moved os ns o n dO dN t s' := by
  unfold rename at h
  rw [normalize_text hnames, normalize_text hnames'] at h
  by_cases hsame : Path.text names = Path.text names'
  · grind [pure_eq_some.mp, Path.text_inj]
  rw [if_neg hsame] at h
  rcases check_eq_some h with ⟨-, rfl, rfl⟩ | ⟨hroots, h⟩
  · exact .inl ⟨⟨_, rfl⟩, rfl⟩
  rcases names.eq_nil_or_concat' with rfl | ⟨os, o, rfl⟩
  · exact absurd (.inl Path.text_nil) hroots
  rcases names'.eq_nil_or_concat' with rfl | ⟨ns, n, rfl⟩
  · exact absurd (.inr Path.text_nil) hroots
  obtain ⟨hns, -⟩ := Path.validNames_concat.mp hnames'
  rw [splitPath_text hnames, splitPath_text hnames'] at h
  -- The source, and then the two directories.
  obtain hrefused | ⟨source, ⟨i, hi, hsource⟩, h2⟩ := (node_finds).bind_cases h
  · exact .inl hrefused
  rcases check_eq_some h2 with ⟨-, rfl, rfl⟩ | ⟨hbelow, h3⟩
  · exact .inl ⟨⟨_, rfl⟩, rfl⟩
  obtain hrefused | ⟨_, ⟨dO, dirO, modeO, hdO, hdirO, hkindO⟩, h5⟩ :=
    (directoryChildren_finds).bind_cases h3
  · exact .inl hrefused
  obtain hrefused | ⟨_, ⟨dN, dirN, modeN, hdN, hdirN, hkindN⟩, h7⟩ :=
    (directoryChildren_finds).bind_cases h5
  · exact .inl hrefused
  have houtside : ¬ os ++ [o] <+: ns := by
    intro hle
    have hdirectory := hs.isDirectory_of_prefix hnames hns hi hsource hle hdN
      (entries_of_kind hdirN hkindN)
    refine hbelow ⟨hdirectory, ?_⟩
    rw [Path.text_slash_prefix hnames (by simp) hnames']
    grind
  rcases bind_eq_some.mp h7 with ⟨_, u, h8, h9⟩ | ⟨e, h8, rfl⟩
  swap
  · rcases clearTarget_spec hs hnames' hdN h8 with ⟨-, rfl⟩ | ⟨hr, -⟩
    · exact .inl ⟨⟨e, rfl⟩, rfl⟩
    · cases hr
  rcases clearTarget_spec hs hnames' hdN h8 with ⟨⟨e, he⟩, -⟩ | ⟨-, hu, hgone⟩
  · cases he
  have hne : os ++ [o] ≠ ns ++ [n] := fun heq => hsame (by rw [heq])
  have hcan := hgone.canMove hs hu hnames hnames' hne hi hdO hdN (entries_of_kind hdirN hkindN)
    houtside
  grind [moveEntry_of]

omit hs

/-- `rename` keeps it well formed. -/
theorem rename_keeps {names names' : List Name} (hnames : ValidNames names)
    (hnames' : ValidNames names') : Keeps (rename (text names) (text names')) := by
  intro s r s' hs h
  rcases rename_spec hs hnames hnames' h with ⟨he, rfl⟩ | ⟨-, rfl, rfl⟩ | ⟨os, o, ns, n, dO, dN,
    t, -, -, rfl, ht, -, hcan, hmoved⟩
  · exact ⟨hs, fun _ _ => rfl⟩
  · exact ⟨hs, fun _ _ => rfl⟩
  · grind [hmoved.wellFormed]

end Rename

end Seele.Tmpfs
