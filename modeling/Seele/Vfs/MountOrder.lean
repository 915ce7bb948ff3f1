import Seele.Vfs.Mounts

/-!
# Paths and the order of the mount table

The paths that mounts are at are lists of names. For such paths the length of the text grows with
every name (`textLen_lt`), so of two mounts on the way to some path the deeper one sorts first, and
of two at the same path the younger one (`not_sortLe_iff`). This is all that the keys of
`sort_mounts` say about mounts that compete for a path.

The other half of the file says what the operations do to the table: `attachMount_spec`,
`bindSubmounts_spec`, `movedPath_absolute` and `retainMounts_eq`.
-/

namespace Seele.Vfs

open Seele.Lib Seele.Filesystem Path List Cmd Mount

variable {φ : Type}

/-! ## Plain paths -/

/-- The names that a path leads to. -/
def placeOf (path : Path) : List Name :=
  path.normalize.names

/-- The names of the path that a mount is at. -/
def Mount.place (mount : Mount φ) : List Name :=
  mount.path.names

/-- The place of an absolute path. -/
@[simp] theorem placeOf_absolute (names : List Name) (slash : Bool) :
    placeOf (.absolute names slash) = names := by
  rw [placeOf, normalize_absolute, absolute_names]

/-- An absolute path without a slash at the end, whose components are names. -/
structure PlainPath (path : Path) : Prop where
  isAbsolute : path.isAbsolute = true
  noSlash : path.endsWithSlash = false
  valid : ∀ name ∈ placeOf path, ValidName name

variable {path : Path}

/-- A plain path is normalized to its place. -/
theorem PlainPath.normalize_eq (h : PlainPath path) :
    path.normalize = .absolute (placeOf path) false := by
  rw [placeOf, names_normalize, normalize_of_isAbsolute h.isAbsolute, h.noSlash]

/-- The mount is at a path of names. -/
def Mount.Plain (mount : Mount φ) : Prop :=
  ValidNames mount.place ∧ mount.path = .absolute mount.place false

variable {mount : Mount φ} {names : List Name}

/-- A mount at valid names is plain. -/
theorem Mount.plain_of (hvalid : ValidNames names) (hpath : mount.path = .absolute names false) :
    mount.Plain ∧ mount.place = names := by
  grind [place, absolute_names, Plain]

/-- An absolute path is normalized to its place. -/
theorem normalize_absolutePath (habs : path.isAbsolute = true) :
    path.normalize = .absolute (placeOf path) path.endsWithSlash := by
  rw [placeOf, names_normalize, normalize_of_isAbsolute habs]

/-- What is left of a path below another. -/
theorem stripPrefix_eq (habs : path.isAbsolute = true) (names : List Name) :
    path.stripPrefix (.absolute names false) = if names <+: placeOf path then
        some (.absolute ((placeOf path).drop names.length) path.endsWithSlash)
      else none := by
  have hstrip : path.stripPrefix (.absolute names false) =
      (absolute (placeOf path) path.endsWithSlash).stripPrefix (.absolute names false) := by
    grind [stripPrefix, normalize_absolutePath, normalize_absolute]
  rw [hstrip, stripPrefix_absolute]

/-! ## The length of a text -/

/-- The bytes of two texts. -/
theorem nameBytes_append (text text' : List Char) :
    nameBytes (text ++ text') = nameBytes text ++ nameBytes text' :=
  flatMap_append

/-- A character has a byte at least. -/
theorem length_le_nameBytes (text : List Char) : text.length ≤ (nameBytes text).length := by
  induction text with
  | nil => exact Nat.le_refl _
  | cons c text ih =>
    have hcons : nameBytes (c :: text) = String.utf8EncodeChar c ++ nameBytes text := rfl
    have hpos := c.utf8Size_pos
    grind [String.length_utf8EncodeChar]

/-- A path below another has a longer text. -/
theorem textLen_lt {names' : List Name} (hvalid : ValidNames names')
    (hbelow : names <+: names') (hne : names ≠ names') :
    textLen (.absolute names false) < textLen (.absolute names' false) := by
  obtain ⟨rest, rfl⟩ := hbelow
  obtain ⟨hnames, hrest⟩ := validNames_append.mp hvalid
  have hrestne : rest ≠ [] := by
    rintro rfl
    exact hne (append_nil _).symm
  -- The names that are added begin with a slash, behind which there is a character.
  obtain ⟨name, rest, rfl⟩ := exists_cons_of_ne_nil hrestne
  have hname : 0 < name.length := length_pos_iff.mpr (hrest name mem_cons_self).1
  have htail : 2 ≤ (nameBytes ((name :: rest).flatMap ('/' :: ·))).length := by
    grind [length_le_nameBytes, length_cons]
  unfold textLen
  rw [asString_absolute hvalid, asString_absolute hnames]
  by_cases hnil : names = []
  · subst hnil
    exact Nat.lt_of_lt_of_le (by decide) htail
  · grind [text_append, nameBytes_append]

/-! ## Mounts that compete for a path -/

/-- One of the mounts is at or above the other, so that some path is below both. -/
def Overlap (a b : Mount φ) : Prop :=
  a.place <+: b.place ∨ b.place <+: a.place

variable {a b : Mount φ}

/-- Two mounts that cover one place overlap. -/
theorem overlap_of_covers (ha : a.place <+: names) (hb : b.place <+: names) :
    Overlap a b := by
  rcases Nat.le_total a.place.length b.place.length with hle | hle
  · exact .inl (prefix_of_prefix_length_le ha hb hle)
  · exact .inr (prefix_of_prefix_length_le hb ha hle)

/-- A mount does not sort behind one that it overlaps with exactly if it is at or below it, and
younger if both are at the same path. -/
theorem not_sortLe_iff (ha : a.Plain) (hb : b.Plain) (hoverlap : Overlap a b) :
    ¬ SortLe b a ↔ b.place <+: a.place ∧ (b.place = a.place → b.mountId < a.mountId) := by
  unfold SortLe
  rw [ha.2, hb.2]
  by_cases heq : b.place = a.place
  · simp [heq]
  by_cases hbelow : b.place <+: a.place
  · have hlt := textLen_lt ha.1 hbelow heq
    grind
  · have hlt := textLen_lt hb.1 (hoverlap.resolve_right hbelow) (.symm heq)
    grind

/-! ## Finding a mount -/

/-- What `find_mount` returns for the mount that it has found, if any. -/
def foundMount (path : Path) : Option (Mount φ) → FSResult (Mount φ × Path)
  | none => .error .notFound
  | some mount => .ok (mount, joinMountSource mount.sourcePath
      (.absolute ((placeOf path).drop mount.place.length) path.endsWithSlash))

variable {mounts : List (Mount φ)}

/-- The first mount that covers the place is found. -/
theorem findIn_eq (habs : path.isAbsolute = true)
    (hplain : ∀ mount ∈ mounts, mount.Plain) : findIn path mounts =
      foundMount path (mounts.find? fun mount => mount.place <+: placeOf path) := by
  induction mounts with
  | nil => rfl
  | cons mount mounts ih =>
  have hmount := hplain mount mem_cons_self
  have hstrip := stripPrefix_eq habs mount.place
  rw [← hmount.2] at hstrip
  unfold findIn
  by_cases hcovers : mount.place <+: placeOf path
  · rw [if_pos hcovers] at hstrip
    rw [hstrip, find?_cons, decide_eq_true hcovers]
    rfl
  · grind

/-! ## What the operations do -/

/-- A name is added to a text. -/
theorem text_concat {name : Name} (hvalid : ValidNames names) :
    (if (text names).getLast? = some '/' then text names
      else text names ++ ['/']) ++ name = text (names ++ [name]) := by
  rcases names.eq_nil_or_concat' with rfl | ⟨front, last, rfl⟩
  · simp [text_of_ne_nil]
  have hlast := (validNames_concat.mp hvalid).2
  have hparts : (absolute (front ++ [last]) false).parts =
      (.root :: front.map .normal) ++ [.normal last] := by simp [absolute]
  have hend := asString_getLast hparts hlast
  rw [asString_absolute hvalid, absolute_endsWithSlash] at hend
  grind [text_append]

/-- A path is joined to a base. -/
theorem joinPaths_absolute {base suffix : List Name} {slash : Bool} (hbase : ValidNames base)
    (hsuffix : ValidNames suffix) : joinPaths (.absolute base false) (.absolute suffix slash) =
      .absolute (base ++ suffix) false := by
  have hfold : ∀ (rest front : List Name), ValidNames front → ValidNames rest →
      rest.foldl (fun text name =>
        (if text.getLast? = some '/' then text else text ++ ['/']) ++ name) (text front) =
        text (front ++ rest) := by
    intro rest
    induction rest with
    | nil =>
      intro front _ _
      rw [append_nil]
      rfl
    | cons name rest ih =>
    intro front hfront hrest
    obtain ⟨hname, hrest⟩ := forall_mem_cons.mp hrest
    rw [foldl_cons, text_concat hfront,
      ih _ (validNames_concat.mpr ⟨hfront, hname⟩) hrest, append_assoc]
    rfl
  unfold joinPaths
  grind [normalize_absolute, absolute_names, asString_absolute, new_text]

variable {source target : List Name}

/-- A path moves with the tree it is in. -/
theorem movedPath_absolute (htarget : ValidNames target) (hnames : ValidNames names) :
    movedPath (.absolute source false) (.absolute target false) (.absolute names false) =
      if source <+: names then .absolute (target ++ names.drop source.length) false
      else .absolute names false := by
  unfold movedPath
  grind [absolute_inj.mp, stripPrefix_absolute, joinPaths_absolute]

/-- The first mount at the path goes. -/
theorem retainMounts_eq (mounts : List (Mount φ)) : retainMounts path false false mounts =
      mounts.eraseP fun mount => mount.path.asString = path.asString := by
  have hkept : ∀ mounts : List (Mount φ), retainMounts path false true mounts = mounts := by
    intro mounts
    induction mounts with
    | nil => rfl
    | cons mount mounts ih =>
      unfold retainMounts
      rw [ih]
      simp
  induction mounts with
  | nil => rfl
  | cons mount mounts ih => simp [hkept, eraseP_cons, ih, retainMounts]

variable {v v' : VFS φ} {r : FSResult Unit}

/-- What `move_mount_tree` does. -/
theorem moveMountTree_spec {source target : Path}
    (h : moveMountTree source target v = some (r, v')) :
    (∃ e, r = .error e ∧ v' = v) ∨ r = .ok () ∧ (∃ root ∈ v.mounts, root.path = source.normalize) ∧
      v'.nextMountId = v.nextMountId ∧ v'.mounts =
        (movedMounts source.normalize target.normalize v.mounts).insertionSort SortLe := by
  rcases check_eq_some h with ⟨-, rfl, rfl⟩ | ⟨hany, h⟩
  · exact .inl ⟨_, rfl, rfl⟩
  · cases h
    obtain ⟨root, hroot, hpath⟩ := any_eq_true.mp (not_not.mp hany)
    exact .inr ⟨rfl, ⟨root, hroot, of_decide_eq_true hpath⟩, rfl, rfl⟩

/-- What `unmount` does. -/
theorem unmount_spec (hpath : PlainPath path) (h : unmount path v = some (r, v')) :
    (∃ e, r = .error e ∧ v' = v) ∨ r = .ok () ∧ v'.nextMountId = v.nextMountId ∧
      v'.mounts = v.mounts.eraseP fun mount =>
        mount.path.asString = (absolute (placeOf path) false).asString := by
  unfold unmount at h
  rw [hpath.normalize_eq, get_bind] at h
  rcases check_eq_some h with ⟨-, rfl, rfl⟩ | ⟨-, h⟩
  · exact .inl ⟨_, rfl, rfl⟩
  unfold removeMountsAt at h
  dsimp only at h
  rw [normalize_absolute, get_bind] at h
  rcases check_eq_some h with ⟨-, rfl, rfl⟩ | ⟨-, h⟩
  · exact .inl ⟨_, rfl, rfl⟩
  grind [modify_eq_some.mp, retainMounts_eq]

/-- `stack_mount_beneath` needs both mounts. -/
theorem stackMountBeneath_spec {source target : Path}
    (hnone : (∀ mount ∈ v.mounts, mount.path ≠ source.normalize) ∨
      ∀ mount ∈ v.mounts, mount.path ≠ target.normalize)
    (h : stackMountBeneath source target v = some (r, v')) : ∃ e, r = .error e ∧ v' = v := by
  have hindex : ∀ path : Path, (∀ mount ∈ v.mounts, mount.path ≠ path) →
      v.mounts.findIdx? (fun mount => mount.path = path) = none := by
    simp
  unfold stackMountBeneath at h
  rw [get_bind] at h
  rcases hnone with hsource | htarget
  · rw [hindex _ hsource] at h
    cases h
    exact ⟨_, rfl, rfl⟩
  rw [hindex _ htarget] at h
  cases hsource : v.mounts.findIdx? (fun mount => mount.path = source.normalize) with
  | none | some index =>
    rw [hsource] at h
    cases h
    exact ⟨_, rfl, rfl⟩

/-- A mount takes the next number. -/
theorem takeMountId_spec {r : FSResult ℕ} (h : takeMountId v = some (r, v')) :
    r = .ok v.nextMountId ∧ v' = { v with nextMountId := v.nextMountId + 1 } := by
  unfold takeMountId at h
  rw [get_bind] at h
  split_ifs at h with hmax
  · cases h
  · cases h
    exact ⟨rfl, rfl⟩

variable [DecidableEq φ]

/-- The device of a file system has a number. -/
theorem deviceIdFor_spec {fs : φ} {r : FSResult ℕ} (h : deviceIdFor fs v = some (r, v')) :
    ∃ id, r = .ok id ∧ v'.mounts = v.mounts ∧ v'.nextMountId = v.nextMountId := by
  unfold deviceIdFor at h
  rw [get_bind] at h
  cases hfind : v.mounts.find? (fun mount => mount.fs = fs) with
  | some mount =>
    rw [hfind] at h
    cases h
    exact ⟨_, rfl, rfl, rfl⟩
  | none =>
  rw [hfind] at h
  unfold takeDeviceId at h
  dsimp only at h
  rw [get_bind] at h
  split_ifs at h with hmax
  · cases h
  · cases h
    exact ⟨_, rfl, rfl, rfl⟩

/-- What `attach_mount_with_propagation` does. -/
theorem attachMount_spec {fs : φ} {sourcePath : Path} {flags : MountFlags}
    {propagation : MountPropagation}
    (h : attachMountWithPropagation path fs sourcePath flags propagation v = some (r, v')) :
    r = .ok () ∧ v'.nextMountId = v.nextMountId + 1 ∧ ∃ deviceId,
      v'.mounts = (v.mounts ++ [mk path.normalize fs sourcePath.normalize flags propagation
        deviceId v.nextMountId false]).insertionSort SortLe := by
  rcases bind_eq_some.mp h with ⟨deviceId, t, hdevice, h⟩ | ⟨e, hdevice, -⟩
  · obtain ⟨-, -, hmounts, hnext⟩ := deviceIdFor_spec hdevice
    rcases bind_eq_some.mp h with ⟨mountId, u, hid, h⟩ | ⟨e, hid, -⟩
    · obtain ⟨hok, rfl⟩ := takeMountId_spec hid
      cases hok
      cases h
      refine ⟨rfl, congrArg (· + 1) hnext, deviceId, ?_⟩
      unfold sortMounts
      rw [hmounts, hnext]
    · cases (takeMountId_spec hid).1
  · obtain ⟨id, hok, -⟩ := deviceIdFor_spec hdevice
    cases hok

/-- The mount is strictly below the place. -/
def Mount.isBelow (source : List Name) (mount : Mount φ) : Bool :=
  source <+: mount.place ∧ mount.place ≠ source

omit [DecidableEq φ] in
/-- What is in the source and not below it is at it. -/
theorem Mount.eq_of_not_below (h : mount.isBelow source = false) (hfront : source <+: mount.place) :
    mount.place = source := by
  by_contra hne
  exact of_decide_eq_false h ⟨hfront, hne⟩

/-- What a recursive bind makes of a mount below its source. -/
structure Copied (source target : List Name) (low high : ℕ) (mount copy : Mount φ) : Prop where
  path : copy.path = .absolute (target ++ mount.place.drop source.length) false
  fs : copy.fs = mount.fs
  sourcePath : copy.sourcePath = mount.sourcePath.normalize
  flags : copy.flags = mount.flags
  propagation : copy.propagation = mount.propagation
  notPending : copy.expirePending = false
  low : low ≤ copy.mountId
  high : copy.mountId < high

omit [DecidableEq φ] in
/-- The range of numbers may be wider. -/
theorem Copied.widen {low high low' high' : ℕ} {copy : Mount φ}
    (h : Copied source target low high mount copy) (hlow : low' ≤ low) (hhigh : high ≤ high') :
    Copied source target low' high' mount copy :=
  { h with low := Nat.le_trans hlow h.low, high := Nat.lt_of_lt_of_le h.high hhigh }

/-- What is done for one mount. -/
theorem bindSubmount_spec (htarget : ValidNames target) (hplain : mount.Plain)
    (h : bindSubmount (.absolute source false) (.absolute target false) mount v = some (r, v')) :
    r = .ok () ∧ (mount.isBelow source = false ∧ v' = v ∨ mount.isBelow source = true ∧
        v'.nextMountId = v.nextMountId + 1 ∧ ∃ copy,
          Copied source target v.nextMountId v'.nextMountId mount copy ∧
          v'.mounts = (v.mounts ++ [copy]).insertionSort SortLe) := by
  unfold bindSubmount at h
  by_cases hbelow : mount.isBelow source = true
  · obtain ⟨hfront, hne⟩ := of_decide_eq_true hbelow
    have hskip : ¬ (mount.path = .absolute source false ∨
        ¬ mount.path.startsWith (.absolute source false) = true) := by
      rw [hplain.2, startsWith_absolute, not_or, not_not]
      grind [absolute_inj.mp]
    have hdrop : ValidNames (mount.place.drop source.length) :=
      fun name hname => hplain.1 name (mem_of_mem_drop hname)
    have hstrip : mount.path.stripPrefix (.absolute source false) =
        some (.absolute (mount.place.drop source.length) false) := by
      conv_lhs => rw [hplain.2]
      rw [stripPrefix_absolute, if_pos hfront]
    rw [if_neg hskip, hstrip] at h
    obtain ⟨hok, hnext, deviceId, hmounts⟩ := attachMount_spec h
    refine ⟨hok, .inr ⟨hbelow, hnext, _, ?_, hmounts⟩⟩
    refine ⟨?_, rfl, rfl, rfl, rfl, rfl, Nat.le_refl _, hnext ▸ Nat.lt_succ_self _⟩
    rw [joinPaths_absolute htarget hdrop, normalize_absolute]
  have hskip : mount.path = .absolute source false ∨
      ¬ mount.path.startsWith (.absolute source false) = true := by
    rw [hplain.2, startsWith_absolute]
    by_cases heq : mount.place = source
    · exact .inl (by rw [heq])
    · exact .inr fun hfront => hbelow (decide_eq_true ⟨hfront, heq⟩)
  grind [pure_eq_some.mp]

/-- What is done for all of them. -/
theorem bindSubmounts_spec (htarget : ValidNames target) :
    ∀ {mounts : List (Mount φ)}, (∀ mount ∈ mounts, mount.Plain) → ∀ {v v' : VFS φ}
      {r : FSResult Unit}, v.mounts.Pairwise SortLe →
      Cmd.each (bindSubmount (.absolute source false) (.absolute target false)) mounts v =
        some (r, v') →
      r = .ok () ∧ v.nextMountId ≤ v'.nextMountId ∧ v'.mounts.Pairwise SortLe ∧ ∃ added,
        List.Forall₂ (Copied source target v.nextMountId v'.nextMountId)
          (mounts.filter (isBelow source)) added ∧
        v'.mounts.Perm (v.mounts ++ added) := by
  intro mounts
  induction mounts with
  | nil =>
    intro _ v v' r hsorted h
    obtain ⟨hok, rfl⟩ := pure_eq_some.mp h
    exact ⟨hok, Nat.le_refl _, hsorted, [], .nil, by rw [append_nil]⟩
  | cons mount mounts ih =>
  intro hplain v v' r hsorted h
  obtain ⟨hmount, hrest⟩ := forall_mem_cons.mp hplain
  rcases bind_eq_some.mp h with ⟨⟨⟩, t, hone, hloop⟩ | ⟨e, hone, -⟩
  · obtain ⟨-, ⟨hbelow, rfl⟩ | ⟨hbelow, hnext, copy, hcopy, hmounts⟩⟩ :=
      bindSubmount_spec htarget hmount hone
    · grind
    have hsorted' : t.mounts.Pairwise SortLe := by
      rw [hmounts]
      exact pairwise_insertionSort SortLe _
    obtain ⟨hok, hle, hsorted'', added, hadded, hperm⟩ := ih hrest hsorted' hloop
    rw [filter_cons_of_pos hbelow]
    have hlow : v.nextMountId ≤ t.nextMountId := hnext ▸ Nat.le_succ _
    refine ⟨hok, Nat.le_trans hlow hle, hsorted'', copy :: added,
      .cons (hcopy.widen (Nat.le_refl _) hle) (hadded.imp fun _ _ h => h.widen hlow
        (Nat.le_refl _)), hperm.trans ?_⟩
    rw [hmounts, append_cons v.mounts copy added]
    exact (perm_insertionSort SortLe _).append_right added
  · cases (bindSubmount_spec htarget hmount hone).1

/-- `bind_mount` fails without an effect, or mounts what its source is in at the target, and behind
it copies of the mounts below the source if it is recursive. -/
theorem bindMount_spec {source target : Path} {recursive : Bool} (hsource : PlainPath source)
    (htarget : PlainPath target) (hplain : ∀ mount ∈ v.mounts, mount.Plain)
    (h : bindMount source target recursive v = some (r, v')) :
    (∃ e, r = .error e ∧ v' = v) ∨ r = .ok () ∧ ∃ mount deviceId added,
      v.mounts.find? (fun mount => mount.place <+: placeOf source) = some mount ∧
      v.nextMountId < v'.nextMountId ∧ v'.mounts.Pairwise SortLe ∧
      v'.mounts.Perm (v.mounts ++ mk (.absolute (placeOf target) false) mount.fs
        (joinMountSource mount.sourcePath
          (.absolute ((placeOf source).drop mount.place.length) false)).normalize
        mount.flags mount.propagation deviceId v.nextMountId false :: added) ∧
      List.Forall₂ (Copied (placeOf source) (placeOf target) v.nextMountId v'.nextMountId)
        (if recursive then v.mounts.filter (isBelow (placeOf source)) else []) added := by
  have habs : (absolute (placeOf source) false).isAbsolute = true := rfl
  unfold bindMount at h
  rw [hsource.normalize_eq, htarget.normalize_eq, get_bind, VFS.findMount,
    findIn_eq habs hplain, placeOf_absolute] at h
  cases hmount : v.mounts.find? (fun mount => mount.place <+: placeOf source) with
  | none =>
    rw [hmount] at h
    cases h
    exact .inl ⟨_, rfl, rfl⟩
  | some mount =>
  rw [hmount, foundMount, liftResult, pure_bind_run] at h
  rcases check_eq_some h with ⟨-, rfl, rfl⟩ | ⟨-, h⟩
  · exact .inl ⟨_, rfl, rfl⟩
  rcases bind_eq_some.mp h with ⟨⟨⟩, u, hattach, h⟩ | ⟨e, hattach, -⟩
  swap
  · cases (attachMount_spec hattach).1
  obtain ⟨-, hnext, deviceId, hmounts⟩ := attachMount_spec hattach
  rw [normalize_absolute, placeOf_absolute, absolute_endsWithSlash] at hmounts
  have hsorted : u.mounts.Pairwise SortLe := by grind [pairwise_insertionSort]
  cases recursive with
  | false =>
    cases h
    refine .inr ⟨rfl, mount, deviceId, [], rfl, hnext ▸ Nat.lt_succ_self _, hsorted, ?_, .nil⟩
    rw [hmounts]
    exact perm_insertionSort SortLe _
  | true =>
  obtain ⟨rfl, hle, hsorted', added, hadded, hperm⟩ :=
    bindSubmounts_spec htarget.valid hplain hsorted h
  have hlow : v.nextMountId < u.nextMountId := hnext ▸ Nat.lt_succ_self _
  refine .inr ⟨rfl, mount, deviceId, added, rfl, Nat.lt_of_lt_of_le hlow hle, hsorted', ?_,
    hadded.imp fun _ _ hcopy => hcopy.widen (Nat.le_of_lt hlow) (Nat.le_refl _)⟩
  grind [perm_insertionSort]

end Seele.Vfs
