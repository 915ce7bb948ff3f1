import Mathlib.Data.List.Basic

/-!
# The paths of `filesystem/path.rs` and `filesystem/absolute_path.rs`

A `Path` is a list of parts and the note whether its text ended in a slash. `normalize` and
`join_path` work on the parts alone: a `..` takes the name before it away, whatever that name stands
for in a directory, and at the root it does nothing (`pushPart`). An `AbsolutePath` is the list of
names below the root. `join_under_root` keeps a `..` from leaving the root it is given,
`push_path_str` is given no root and stops at the root of the whole tree only.

Nearly every path of the kernel is absolute, a `Path.absolute`, and what the operations do to it is
said in terms of its names: `resolve` is the whole effect of a list of parts on the names of a
directory.
-/

namespace Seele.Filesystem

open List

/-- A component of a path. Texts are lists of characters. -/
abbrev Name := List Char

/-- `PathPart`. -/
inductive PathPart where
  | currentDir
  | parentDir
  | root
  | normal (component : Name)
deriving DecidableEq, Repr

/-- `Path`. -/
structure Path where
  parts : List PathPart
  endsWithSlash : Bool
deriving DecidableEq, Repr

namespace Path

/-! ## Reading a path -/

/-- What `parse` makes of the text between two slashes. -/
def parseComponent (component : List Char) : Option PathPart :=
  if component = [] then none
  else if component = ['.'] then some .currentDir
  else if component = ['.', '.'] then some .parentDir
  else some (.normal component)

/-- `Path::parse`. -/
def parse (path : List Char) : List PathPart :=
  (if path.head? = some '/' then [.root] else []) ++ (path.splitOn '/').filterMap parseComponent

/-- `Path::new`. -/
def new (path : List Char) : Path :=
  if path = [] then ⟨parse ['/'], false⟩
  else ⟨parse path, decide (1 < path.length ∧ path.getLast? = some '/')⟩

variable (path : Path)

/-- `is_absolute`. -/
def isAbsolute : Bool :=
  path.parts.head? = some .root

/-! ## The operations on parts -/

/-- What `normalize` and `join_path` do with one part: `..` takes the last name away, does nothing
at the root of an absolute path, and is kept at the start of a relative one. -/
def pushPart (isAbsolute : Bool) (parts : List PathPart) : PathPart → List PathPart
  | .root | .currentDir => parts
  | .normal component => parts ++ [.normal component]
  | .parentDir =>
    match parts.getLast? with
    | some (.normal _) => parts.dropLast
    | some .root | none => if isAbsolute then parts else parts ++ [.parentDir]
    | some .currentDir | some .parentDir => parts ++ [.parentDir]

/-- `normalize`. -/
def normalize : Path where
  parts := path.parts.foldl (pushPart path.isAbsolute) (if path.isAbsolute then [.root] else [])
  endsWithSlash := path.endsWithSlash

/-- The name in a part, if it has one. -/
def nameOf : PathPart → Option Name
  | .normal component => some component
  | _ => none

/-- The names among the parts, which is `path_components` of `filesystem/resolve.rs`. -/
def names : List Name :=
  path.parts.filterMap nameOf

/-- `file_name`. -/
def fileName : Option Name :=
  path.normalize.names.getLast?

/-- The parts that are left after the loop of `parent` has popped the last name and everything
behind it. The parts are given last first. -/
def popName : List PathPart → List PathPart
  | [] => []
  | .normal _ :: rest => rest
  | _ :: rest => popName rest

/-- `parent`. -/
def parent : Option Path :=
  let normalized := path.normalize
  if normalized.parts = [.root] then none
  else
    let parts := (popName normalized.parts.reverse).reverse
    some ⟨if parts = [] ∧ normalized.isAbsolute then [.root] else parts, false⟩

/-- `join_component`. -/
def joinComponent (component : Name) : Path :=
  ⟨path.normalize.parts ++ [.normal component], false⟩

/-- `join_path`. -/
def joinPath (path suffix : Path) : Path where
  parts := suffix.normalize.parts.foldl (pushPart path.normalize.isAbsolute) path.normalize.parts
  endsWithSlash := suffix.normalize.endsWithSlash

/-- `starts_with`. -/
def startsWith (path ancestor : Path) : Bool :=
  ancestor.normalize.parts.isPrefixOf path.normalize.parts

/-- `strip_prefix`. -/
def stripPrefix (path ancestor : Path) : Option Path :=
  if path.normalize.startsWith ancestor.normalize then
    some ⟨.root :: path.normalize.parts.drop ancestor.normalize.parts.length,
      path.normalize.endsWithSlash⟩
  else none

/-- The text of a part in `as_string`; the root and an empty name have none. -/
def segment : PathPart → Option (List Char)
  | .root => none
  | .normal component => if component = [] then none else some component
  | .currentDir => some ['.']
  | .parentDir => some ['.', '.']

/-- `as_string`. -/
def asString : List Char :=
  let head := if PathPart.root ∈ path.parts then ['/'] else []
  let string := head ++ ['/'].intercalate (path.parts.filterMap segment)
  let string :=
    if path.endsWithSlash ∧ string.getLast? ≠ some '/' then string ++ ['/'] else string
  if string = [] then ['/'] else string

end Path

/-! ## Absolute paths -/

/-- `AbsolutePath`: the names below the root. -/
structure AbsolutePath where
  names : List Name
deriving DecidableEq, Repr
open AbsolutePath

namespace AbsolutePath

/-- `AbsolutePath::root`. -/
def root : AbsolutePath := ⟨[]⟩

/-- `as_normal`: the names behind `Path::default()`, which is the path of `"/"`. -/
def asNormal (path : AbsolutePath) : Path :=
  ⟨(Path.new ['/']).parts ++ path.names.map .normal, (Path.new ['/']).endsWithSlash⟩

/-- One part in `from_root_path`, and in `push_path_str` for a relative path. -/
def push (names : List Name) : PathPart → List Name
  | .normal component => names ++ [component]
  | .root | .currentDir => names
  | .parentDir => names.dropLast

/-- `from_root_path`. -/
def fromRootPath (path : Path) : AbsolutePath :=
  ⟨path.parts.foldl push []⟩

/-- One part in `join_under_root`: `..` does not go above the root. -/
def pushUnderRoot (root : AbsolutePath) (names : List Name) : PathPart → List Name
  | .normal component => names ++ [component]
  | .root | .currentDir => names
  | .parentDir => if root.names.length < names.length then names.dropLast else names

/-- `join_under_root`. -/
def joinUnderRoot (root current : AbsolutePath) (path : Path) : AbsolutePath :=
  ⟨path.parts.foldl (pushUnderRoot root) (if path.isAbsolute then root.names else current.names)⟩

/-- `push_path_str`. -/
def pushPathStr (path : AbsolutePath) (string : List Char) : AbsolutePath :=
  if (Path.new string).isAbsolute then fromRootPath (Path.new string)
  else ⟨(Path.new string).parts.foldl push path.names⟩

end AbsolutePath

/-! ## Paths as lists of names -/

namespace Path

/-- The path of a list of names below the root. -/
def absolute (names : List Name) (slash : Bool) : Path :=
  ⟨.root :: names.map .normal, slash⟩

/-- Where a list of parts leads from the directory with the given names, if `..` is taken as the
directory before it. -/
def resolve (directory : List Name) (parts : List PathPart) : List Name :=
  parts.foldl push directory

variable (names : List Name)

variable (slash : Bool)

/-- An absolute path starts at the root. -/
@[simp] theorem absolute_isAbsolute : (absolute names slash).isAbsolute = true := rfl

/-- An absolute path ends as it says. -/
@[simp] theorem absolute_endsWithSlash :
    (absolute names slash).endsWithSlash = slash := rfl

/-- Its names. -/
@[simp] theorem absolute_names : (absolute names slash).names = names := by
  induction names with
  | nil => rfl
  | cons name names ih => exact congrArg (name :: ·) ih

variable {names names' : List Name}

/-- An absolute path is its names and its end. -/
@[simp] theorem absolute_inj {slash slash' : Bool} :
    absolute names slash = absolute names' slash' ↔ names = names' ∧ slash = slash' := by
  constructor
  · intro h
    refine ⟨?_, congrArg endsWithSlash h⟩
    rw [← absolute_names names slash, h, absolute_names]
  · rintro ⟨rfl, rfl⟩
    rfl

/-- A part is pushed on an absolute path. -/
theorem pushPart_absolute (part : PathPart) : pushPart true (.root :: names.map .normal) part =
      .root :: (push names part).map .normal := by
  cases part with
  | currentDir => rfl
  | root => rfl
  | normal component => simp [pushPart, push]
  | parentDir =>
  -- The last part is a name exactly if there is one, and else it is the root.
  rcases eq_nil_or_concat names with rfl | ⟨front, name, rfl⟩
  · rfl
  · rw [concat_eq_append]
    unfold pushPart push
    grind

/-- Parts are pushed one after another. -/
theorem foldl_pushPart_absolute (names : List Name) {parts : List PathPart} :
    parts.foldl (pushPart true) (.root :: names.map .normal) =
      .root :: (resolve names parts).map .normal := by
  induction parts generalizing names with
  | nil => rfl
  | cons part parts ih =>
    rw [foldl_cons, pushPart_absolute, ih]
    rfl

variable {path : Path}

/-- An absolute path is normalized to its location. -/
theorem normalize_of_isAbsolute (habs : path.isAbsolute = true) :
    path.normalize = absolute (resolve [] path.parts) path.endsWithSlash := by
  unfold normalize absolute
  rw [habs, if_pos rfl]
  exact congrArg (mk · path.endsWithSlash) (foldl_pushPart_absolute [])

/-- Names lead down from a directory. -/
@[simp] theorem resolve_names (directory names : List Name) :
    resolve directory (names.map .normal) = directory ++ names := by
  induction names generalizing directory with
  | nil => simp [resolve]
  | cons name names ih =>
    have hstep : resolve directory ((name :: names).map .normal) =
        resolve (directory ++ [name]) (names.map .normal) := rfl
    rw [hstep, ih, append_assoc]
    rfl

variable (directory : List Name) (parts : List PathPart)

/-- The root does not move a walk. -/
@[simp] theorem resolve_root : resolve directory (.root :: parts) = resolve directory parts := rfl

/-- Names alone are normalized already. -/
@[simp] theorem normalize_absolute (names : List Name) (slash : Bool) :
    (absolute names slash).normalize = absolute names slash := by
  rw [normalize_of_isAbsolute (absolute_isAbsolute names slash)]
  simp [absolute]

/-- A walk in two stages. -/
theorem resolve_append (front back : List PathPart) :
    resolve directory (front ++ back) = resolve (resolve directory front) back :=
  foldl_append

/-- The last step of a walk. -/
theorem resolve_concat (part : PathPart) :
    resolve directory (parts ++ [part]) = push (resolve directory parts) part := by
  rw [resolve_append]
  rfl

/-- Enough `..` lead to the root. -/
theorem resolve_parentDirs (n : ℕ) (hn : directory.length ≤ n) :
    resolve directory (replicate n .parentDir) = [] := by
  induction n generalizing directory with
  | zero => exact length_eq_zero_iff.mp (Nat.le_zero.mp hn)
  | succ n ih =>
    refine ih directory.dropLast ?_
    rw [length_dropLast]
    omega

/-- The relative parts stand for the same walk. -/
theorem resolve_pushPart (part : PathPart) : resolve directory (pushPart false parts part) =
      push (resolve directory parts) part := by
  cases part with
  | currentDir => rfl
  | root => rfl
  | normal component => exact resolve_concat directory parts (.normal component)
  | parentDir =>
  rcases eq_nil_or_concat parts with rfl | ⟨front, last, rfl⟩
  · rfl
  rw [concat_eq_append]
  unfold pushPart
  rw [getLast?_concat, dropLast_concat]
  cases last with
  | normal component =>
    -- The name that `..` takes away is the one that the directory gets last.
    rw [resolve_concat]
    exact dropLast_concat.symm
  | root => exact resolve_concat directory (front ++ [.root]) .parentDir
  | currentDir => exact resolve_concat directory (front ++ [.currentDir]) .parentDir
  | parentDir => exact resolve_concat directory (front ++ [.parentDir]) .parentDir

/-- A relative path stands for the same walk when it is normalized. -/
theorem resolve_normalize (hrel : path.isAbsolute = false) (directory : List Name) :
    resolve directory path.normalize.parts = resolve directory path.parts := by
  have hfold : ∀ (acc parts : List PathPart), resolve directory (parts.foldl (pushPart false) acc) =
        resolve (resolve directory acc) parts := by
    intro acc parts
    induction parts generalizing acc with
    | nil => rfl
    | cons part parts ih =>
      rw [foldl_cons, ih, resolve_pushPart]
      rfl
  unfold normalize
  rw [hrel]
  exact hfold [] path.parts

/-- A component is joined to an absolute path. -/
@[simp] theorem joinComponent_absolute (names : List Name) (slash : Bool) (component : Name) :
    (absolute names slash).joinComponent component = absolute (names ++ [component]) false := by
  unfold joinComponent
  rw [normalize_absolute]
  simp [absolute]

/-- A relative path is joined to an absolute one. -/
theorem joinPath_relative (slash : Bool) {suffix : Path}
    (hrel : suffix.isAbsolute = false) : (absolute names slash).joinPath suffix =
      absolute (resolve names suffix.parts) suffix.endsWithSlash := by
  unfold joinPath
  rw [normalize_absolute, absolute_isAbsolute]
  refine congrArg (mk · suffix.endsWithSlash) ?_
  exact (foldl_pushPart_absolute names).trans (by rw [resolve_normalize hrel])

/-- An absolute path is joined like its names. -/
@[simp] theorem joinPath_absolute (names names' : List Name) (slash slash' : Bool) :
    (absolute names slash).joinPath (absolute names' slash') = absolute
    (names ++ names') slash' := by
  unfold joinPath
  rw [normalize_absolute, normalize_absolute, absolute_isAbsolute]
  refine congrArg (mk · slash') ?_
  refine (foldl_pushPart_absolute names).trans ?_
  simp [absolute]

/-- One absolute path starts with another if its names do. -/
@[simp] theorem startsWith_absolute (names names' : List Name) (slash slash' : Bool) :
    (absolute names slash).startsWith (absolute names' slash') = true ↔ names' <+: names := by
  unfold startsWith
  rw [normalize_absolute, normalize_absolute, isPrefixOf_iff_prefix]
  unfold absolute
  rw [cons_prefix_cons]
  constructor
  · rintro ⟨-, h⟩
    have hnames := h.filterMap nameOf
    simpa [Function.comp_def, nameOf] using hnames
  · intro h
    exact ⟨rfl, h.map _⟩

/-- What is left behind an absolute path. -/
theorem stripPrefix_absolute (slash slash' : Bool) :
    (absolute names slash).stripPrefix (absolute names' slash') =
      if names' <+: names then some (absolute (names.drop names'.length) slash) else none := by
  unfold stripPrefix
  rw [normalize_absolute, normalize_absolute]
  by_cases h : names' <+: names
  · rw [if_pos h, if_pos ((startsWith_absolute names names' slash slash').mpr h)]
    simp [absolute]
  · grind [startsWith_absolute]

/-- The last name. -/
@[simp] theorem fileName_absolute (names : List Name) (slash : Bool) :
    (absolute names slash).fileName = names.getLast? := by
  unfold fileName
  rw [normalize_absolute, absolute_names]

/-- The parent leaves the last name out. -/
@[simp] theorem parent_absolute_concat (names : List Name) (name : Name) (slash : Bool) :
    (absolute (names ++ [name]) slash).parent = some (absolute names false) := by
  have hparts : (absolute (names ++ [name]) slash).parts =
      (.root :: names.map .normal) ++ [.normal name] := by simp [absolute]
  have hpop : (popName (absolute (names ++ [name]) slash).parts.reverse).reverse =
      .root :: names.map .normal := by
    rw [hparts, reverse_append]
    exact reverse_reverse _
  unfold parent
  simp only [normalize_absolute]
  rw [if_neg (by rw [hparts]; simp), hpop]
  simp [absolute]

/-! ## Names that come from a text -/

/-- What `parse` can put in a name: it is not empty, has no slash and is neither `.` nor `..`. -/
def ValidName (name : Name) : Prop :=
  name ≠ [] ∧ '/' ∉ name ∧ name ≠ ['.'] ∧ name ≠ ['.', '.']

instance (name : Name) : Decidable (ValidName name) :=
  inferInstanceAs (Decidable (_ ∧ _))

/-- All names are valid. -/
abbrev ValidNames (names : List Name) : Prop :=
  ∀ name ∈ names, ValidName name

/-- Names are valid one by one. -/
theorem validNames_append : ValidNames (names ++ names') ↔ ValidNames names ∧ ValidNames names' :=
  forall_mem_append

variable {name : Name}

/-- The last name is one of them. -/
theorem validNames_concat : ValidNames (names ++ [name]) ↔ ValidNames names ∧ ValidName name := by
  grind

/-- The pieces have no slash. -/
theorem slash_notMem_splitOn {text : List Char} : ∀ piece ∈ text.splitOn '/', '/' ∉ piece := by
  induction text with
  | nil => simp
  | cons c text ih =>
  rw [splitOn_cons_eq_if_modifyHead]
  by_cases hc : (c == '/') = true
  · grind
  -- The character goes to the front of the first piece.
  rw [if_neg hc]
  have hne := splitOn_ne_nil '/' text
  cases hsplit : text.splitOn '/' with
  | nil => exact absurd hsplit hne
  | cons first rest =>
  rw [hsplit] at ih
  intro piece hpiece
  rcases mem_cons.mp hpiece with rfl | hpiece
  · intro hslash
    rcases mem_cons.mp hslash with rfl | hslash
    · exact hc rfl
    · exact ih first mem_cons_self hslash
  · exact ih piece (mem_cons_of_mem first hpiece)

/-- A text is parsed to valid names. -/
theorem parse_valid {text : List Char} (hname : .normal name ∈ parse text) : ValidName name := by
  rcases mem_append.mp hname with hroot | hname
  · split_ifs at hroot <;> simp at hroot
  obtain ⟨piece, hpiece, hparse⟩ := mem_filterMap.mp hname
  have hslash := slash_notMem_splitOn piece hpiece
  unfold parseComponent at hparse
  split_ifs at hparse with hempty hdot hdots
  · cases hparse
  · cases hparse
  obtain rfl := PathPart.normal.inj (Option.some.inj hparse)
  exact ⟨hempty, hslash, hdot, hdots⟩

/-- A new path has valid names. -/
theorem new_valid {text : List Char} (hname : .normal name ∈ (new text).parts) :
    ValidName name := by
  unfold new at hname
  split_ifs at hname <;> exact parse_valid hname

/-- A walk over valid names stays at valid names. -/
theorem resolve_valid {directory : List Name} {parts : List PathPart}
    (hdirectory : ∀ name ∈ directory, ValidName name)
    (hparts : ∀ name, .normal name ∈ parts → ValidName name) :
    ∀ name ∈ resolve directory parts, ValidName name := by
  induction parts generalizing directory with
  | nil => exact hdirectory
  | cons part parts ih =>
  have hrest : ∀ name, .normal name ∈ parts → ValidName name :=
    fun name hname => hparts name (mem_cons_of_mem part hname)
  have hpush : ∀ name ∈ push directory part, ValidName name := by
    intro name hname
    cases part with
    | root | currentDir => exact hdirectory name hname
    | parentDir => exact hdirectory name (dropLast_subset directory hname)
    | normal component =>
      rcases mem_append.mp hname with hname | hname
      · exact hdirectory name hname
      · grind
  exact ih hpush hrest

/-! ## The normal form -/

/-- A normalized path has the root or some `..` in front, and names behind. -/
theorem normalize_parts (path : Path) :
    ∃ front, path.normalize.parts = front ++ (resolve [] path.parts).map .normal ∧
      (path.isAbsolute = true ∧ front = [.root] ∨
        path.isAbsolute = false ∧ ∃ n, front = replicate n .parentDir) := by
  cases habs : path.isAbsolute with
  | true =>
    rw [normalize_of_isAbsolute habs]
    exact ⟨[.root], rfl, .inl ⟨rfl, rfl⟩⟩
  | false =>
  -- The `..` at the start pile up as long as there is no name, and no name comes before them.
  have hfold : ∀ (parts : List PathPart) (n : ℕ) (names : List Name),
      ∃ m, parts.foldl (pushPart false) (replicate n .parentDir ++ names.map .normal) =
        replicate m .parentDir ++ (resolve names parts).map .normal := by
    intro parts
    induction parts with
    | nil => exact fun n names => ⟨n, rfl⟩
    | cons part parts ih =>
    intro n names
    have hstep : ∃ m, pushPart false (replicate n .parentDir ++ names.map .normal) part =
        replicate m .parentDir ++ (push names part).map .normal := by
      cases part with
      | root | currentDir => exact ⟨n, rfl⟩
      | normal component => exact ⟨n, by simp [pushPart, push]⟩
      | parentDir =>
      rcases eq_nil_or_concat names with rfl | ⟨init, last, rfl⟩
      · refine ⟨n + 1, ?_⟩
        cases n with
        | zero => rfl
        | succ n => simp [pushPart, push, replicate_succ']
      · simp [pushPart, push]
    obtain ⟨m, hm⟩ := hstep
    obtain ⟨m', hm'⟩ := ih m (push names part)
    exact ⟨m', by rw [foldl_cons, hm, hm']; rfl⟩
  obtain ⟨m, hm⟩ := hfold path.parts 0 []
  refine ⟨replicate m .parentDir, ?_, .inr ⟨rfl, m, rfl⟩⟩
  unfold normalize
  rw [habs]
  exact hm

/-- A normalized path starts where the path does. -/
theorem normalize_isAbsolute (path : Path) : path.normalize.isAbsolute = path.isAbsolute := by
  obtain ⟨front, hparts, ⟨habs, rfl⟩ | ⟨hrel, n, rfl⟩⟩ := path.normalize_parts
  · rw [habs, isAbsolute, hparts]
    rfl
  rw [hrel, isAbsolute, hparts]
  cases n with
  | zero => cases resolve [] path.parts <;> rfl
  | succ n => rfl

/-- Its names are those of the location. -/
theorem names_normalize : path.normalize.names = resolve [] path.parts := by
  obtain ⟨front, hparts, hfront⟩ := path.normalize_parts
  have hnone : front.filterMap nameOf = [] := by
    rcases hfront with ⟨-, rfl⟩ | ⟨-, n, rfl⟩
    · rfl
    · exact filterMap_replicate_of_none rfl
  have hsome : ∀ names : List Name, (names.map .normal).filterMap nameOf = names := by
    intro names
    induction names with
    | nil => rfl
    | cons name names ih => exact congrArg (name :: ·) ih
  simp [hparts, hnone, hsome, names]

/-- The text ends with a slash if the path does. -/
theorem asString_getLast {front : List PathPart} (hparts : path.parts = front ++ [.normal name])
    (hname : ValidName name) : path.asString.getLast? = some '/' ↔ path.endsWithSlash = true := by
  obtain ⟨hne, hslash, -, -⟩ := hname
  have hsegments : path.parts.filterMap segment = front.filterMap segment ++ [name] := by
    rw [hparts, filterMap_append]
    simp [segment, hne]
  -- The joined segments end as the last of them.
  have hjoin : ∀ segments : List (List Char),
      (['/'].intercalate (segments ++ [name])).getLast? = name.getLast? := by
    intro segments
    induction segments with
    | nil => simp
    | cons segment segments ih =>
    have hcons : (segment :: segments) ++ [name] = segment :: (segments ++ [name]) := rfl
    rw [hcons, intercalate_cons_of_ne_nil (by simp), getLast?_append, ih]
    cases name with
    | nil => exact absurd rfl hne
    | cons c rest => rfl
  have hlast : ∀ head : List Char,
      (head ++ ['/'].intercalate (path.parts.filterMap segment)).getLast? = name.getLast? := by
    intro head
    rw [hsegments, getLast?_append, hjoin]
    cases name with
    | nil => exact absurd rfl hne
    | cons c rest => rfl
  unfold asString
  generalize hstring : (if PathPart.root ∈ path.parts then ['/'] else []) ++
    ['/'].intercalate (path.parts.filterMap segment) = string
  grind

/-! ## A text and back -/

/-- What `parse` can make of a component. -/
def ValidPart : PathPart → Prop
  | .root => False
  | .normal name => ValidName name
  | .currentDir | .parentDir => True

variable {body : List PathPart}

/-- The text of the parts is parsed back to them. -/
theorem segments_of (hbody : ∀ part ∈ body, ValidPart part) :
    (∀ piece ∈ body.filterMap segment, piece ≠ [] ∧ '/' ∉ piece) ∧
      (body.filterMap segment).filterMap parseComponent = body := by
  induction body with
  | nil => simp
  | cons part body ih =>
  obtain ⟨hpart, hrest⟩ := forall_mem_cons.mp hbody
  obtain ⟨hpieces, hparse⟩ := ih hrest
  obtain ⟨piece, hsegment, hback, hpiece⟩ : ∃ piece, segment part = some piece ∧
      parseComponent piece = some part ∧ piece ≠ [] ∧ '/' ∉ piece := by
    cases part with
    | root => exact hpart.elim
    | currentDir => exact ⟨['.'], rfl, rfl, by decide⟩
    | parentDir => exact ⟨['.', '.'], rfl, rfl, by decide⟩
    | normal name =>
      obtain ⟨hne, hslash, hdot, hdots⟩ := hpart
      exact ⟨name, if_neg hne, by simp [parseComponent, hne, hdot, hdots], hne, hslash⟩
  rw [filterMap_cons_some hsegment, filterMap_cons_some hback, hparse]
  exact ⟨forall_mem_cons.mpr ⟨hpiece, hpieces⟩, rfl⟩

/-- A slash in front is an empty piece. -/
theorem splitOn_slash_cons (text : List Char) :
    ('/' :: text).splitOn '/' = [] :: text.splitOn '/' := by
  rw [splitOn_cons_eq_if_modifyHead, if_pos (beq_self_eq_true _)]

/-- The text of a path is parsed back to it. -/
theorem new_asString (hbody : ∀ part ∈ body, ValidPart part) (hne : body ≠ [])
    (hparts : path.parts = (if path.isAbsolute then [.root] else []) ++ body) :
    new path.asString = path := by
  obtain ⟨hpieces, hparse⟩ := segments_of hbody
  have hsome : body.filterMap segment ≠ [] := by
    intro hnil
    rw [hnil] at hparse
    exact hne hparse.symm
  have hsegments : path.parts.filterMap segment = body.filterMap segment := by
    rw [hparts]
    cases path.isAbsolute <;> rfl
  have hroot : PathPart.root ∈ path.parts ↔ path.isAbsolute = true := by
    have hnot : PathPart.root ∉ body := fun hmem => hbody _ hmem
    rw [hparts]
    cases path.isAbsolute <;> simp [hnot]
  have hsplit := splitOn_intercalate '/' (fun piece hpiece => (hpieces piece hpiece).2) hsome
  have hempty : [] ∉ body.filterMap segment := fun hmem => (hpieces _ hmem).1 rfl
  unfold asString
  simp only [hsegments, hroot]
  generalize ['/'].intercalate (body.filterMap segment) = joined at hsplit ⊢
  rw [← hsplit] at hempty hparse
  -- A slash at an end of the joined pieces, or no text at all, would be an empty piece.
  obtain ⟨c, rest, hjoined⟩ : ∃ c rest, joined = c :: rest := by
    refine exists_cons_of_ne_nil ?_
    rintro rfl
    exact hempty (by simp)
  have hhead : c ≠ '/' := by
    rintro rfl
    exact hempty (by simp [hjoined, splitOn_slash_cons])
  generalize hstring : (if path.isAbsolute then ['/'] else []) ++ joined = string
  have hne : string ≠ [] := by simp [← hstring, hjoined]
  have hlast : string.getLast? ≠ some '/' := by
    rw [← hstring, getLast?_append_of_ne_nil _ (by simp [hjoined])]
    intro h
    obtain ⟨init, rfl⟩ := getLast?_eq_some_iff.mp h
    exact hempty (by simp [splitOn_append_cons_self])
  have hstringParts : parse string = path.parts := by
    rw [← hstring, hparts, parse]
    cases path.isAbsolute with
    | false =>
      refine (congrArg (_ ++ ·) hparse).trans ?_
      simp [hjoined, hhead]
    | true => simp [splitOn_slash_cons, hparse, parseComponent]
  have hback : parse (string ++ ['/']) = parse string := by
    simp [parse, splitOn_append_cons_self, head?_append_of_ne_nil _ hne, parseComponent]
  rw [if_neg (by split_ifs <;> simp [hne])]
  obtain ⟨parts, slash⟩ := path
  dsimp only at hstringParts
  unfold new
  cases slash with
  | false => simp [hne, hlast, hstringParts]
  | true => simp [hlast, hback, hstringParts, length_pos_iff.mpr hne]

/-! ## The text of an absolute path -/

/-- The text of a list of names below the root. -/
def text (names : List Name) : List Char :=
  if names = [] then ['/'] else names.flatMap ('/' :: ·)

/-- The text of the root. -/
@[simp] theorem text_nil : text [] = ['/'] := rfl

/-- Each name has a slash before it. -/
theorem text_of_ne_nil (h : names ≠ []) : text names = names.flatMap ('/' :: ·) := if_neg h

/-- The slashes between the names, and one in front. -/
theorem slash_cons_intercalate (h : names ≠ []) :
    '/' :: ['/'].intercalate names = names.flatMap ('/' :: ·) := by
  induction names with
  | nil => exact absurd rfl h
  | cons name names ih =>
  cases names with
  | nil => simp
  | cons next rest => grind [intercalate_cons_of_ne_nil]

/-- Names behind others. -/
theorem text_append (h : names ≠ []) :
    text (names ++ names') = text names ++ names'.flatMap ('/' :: ·) := by
  rw [text_of_ne_nil h, text_of_ne_nil (by simp [h]), flatMap_append]

variable (hvalid : ∀ name ∈ names, ValidName name)

include hvalid

/-- The text of an absolute path. -/
theorem asString_absolute : (absolute names false).asString = text names := by
  have hsegments : (absolute names false).parts.filterMap segment = names := by
    have hnames : ∀ names : List Name, (∀ name ∈ names, ValidName name) →
        (names.map PathPart.normal).filterMap segment = names := by
      intro names hvalid
      induction names with
      | nil => rfl
      | cons name names ih =>
      have hne : name ≠ [] := (hvalid name mem_cons_self).1
      have hrest := ih fun n hn => hvalid n (mem_cons_of_mem name hn)
      rw [map_cons, filterMap_cons]
      simp only [segment, if_neg hne, hrest]
    exact hnames names hvalid
  have hroot : PathPart.root ∈ (absolute names false).parts := mem_cons_self
  unfold asString
  rw [hsegments, if_pos hroot]
  by_cases hnil : names = []
  · subst hnil
    rfl
  · rw [text_of_ne_nil hnil, ← slash_cons_intercalate hnil]
    simp

/-- The text is split into the names. -/
theorem splitOn_flatMap (h : names ≠ []) :
    (names.flatMap ('/' :: ·)).splitOn '/' = [] :: names := by
  have hsplit := splitOn_intercalate '/' (fun name hname => (hvalid name hname).2.1) h
  rw [← slash_cons_intercalate h, splitOn_slash_cons, hsplit]

/-- A text is parsed back to the path. -/
theorem new_text : new (text names) = absolute names false := by
  by_cases hnil : names = []
  · subst hnil
    rfl
  · rw [← asString_absolute hvalid]
    exact new_asString (forall_mem_map.mpr hvalid) (by simpa using hnil) rfl

/-- Different names have different texts. -/
theorem text_inj (hvalid' : ∀ name ∈ names', ValidName name) (h : text names = text names') :
    names = names' := by
  grind [new_text, absolute_inj.mp]

/-- A text goes on with a slash exactly for what lies below. -/
theorem text_slash_prefix (hne : names ≠ []) (hvalid' : ∀ name ∈ names', ValidName name) :
    text names ++ ['/'] <+: text names' ↔ names <+: names' ∧ names ≠ names' := by
  constructor
  · rintro ⟨rest, hrest⟩
    have hne' : names' ≠ [] := by
      rintro rfl
      obtain ⟨name, names, rfl⟩ := exists_cons_of_ne_nil hne
      simp [text_of_ne_nil hne] at hrest
    -- Both sides split at their slashes.
    have hsplit : [] :: names ++ rest.splitOn '/' = [] :: names' := by
      grind [splitOn_flatMap, text_of_ne_nil, splitOn_append_cons_self]
    grind [append_right_eq_self.mp]
  rintro ⟨⟨rest, rfl⟩, hne'⟩
  cases rest with
  | nil => exact absurd (append_nil names).symm hne'
  | cons name rest =>
    rw [text_append hne]
    exact ⟨name ++ rest.flatMap ('/' :: ·), by simp⟩

omit hvalid

/-! ## The laws -/

/-- A second time changes nothing. -/
theorem normalize_normalize : path.normalize.normalize = path.normalize := by
  obtain ⟨front, hparts, ⟨habs, -⟩ | ⟨hrel, n, rfl⟩⟩ := path.normalize_parts
  · rw [normalize_of_isAbsolute habs, normalize_absolute]
  -- The `..` at the start are kept one by one, and the names behind them too.
  have hdots : ∀ n, (replicate n PathPart.parentDir).foldl (pushPart false) [] =
      replicate n .parentDir := by
    intro n
    induction n with
    | zero => rfl
    | succ n ih =>
    rw [replicate_succ', foldl_append, ih]
    cases n with
    | zero => rfl
    | succ n => simp [pushPart, replicate_succ']
  have hnames : ∀ (names : List Name) (front : List PathPart),
      (names.map .normal).foldl (pushPart false) front = front ++ names.map .normal := by
    intro names
    induction names with
    | nil => simp
    | cons name names ih => simp [pushPart, ih]
  have hfold : path.normalize.parts.foldl (pushPart false) [] = path.normalize.parts := by
    rw [hparts, foldl_append, hdots, hnames]
  have hrel' := path.normalize_isAbsolute.trans hrel
  rw [normalize, hrel']
  exact congrArg (mk · path.normalize.endsWithSlash) hfold

/-- Where a path leads from a directory. -/
def location (path : Path) (directory : List Name) : List Name :=
  resolve (if path.isAbsolute then [] else directory) path.parts

/-- The location stays. -/
theorem location_normalize (directory : List Name) :
    path.normalize.location directory = path.location directory := by
  unfold location
  rw [normalize_isAbsolute]
  cases habs : path.isAbsolute with
  | false => exact resolve_normalize habs directory
  | true =>
    rw [normalize_of_isAbsolute habs]
    simp [absolute]

/-- The text of a normal form is read back as the normal form, except if that is the root with a
slash at the end, or nothing at all: then the text is that of the root. -/
theorem new_normalize_iff (hvalid : ∀ name, .normal name ∈ path.parts → ValidName name) :
    new path.normalize.asString = path.normalize ↔
      if path.isAbsolute then path.endsWithSlash = true → path.location [] ≠ []
      else ∃ directory, path.location directory ≠ directory := by
  have hbody : ∀ n, ∀ part ∈ replicate n .parentDir ++ (resolve [] path.parts).map .normal,
      ValidPart part := by
    have hnames := resolve_valid (fun _ h => absurd h not_mem_nil) hvalid
    intro n part hpart
    rcases mem_append.mp hpart with hdots | hnormal
    · rw [eq_of_mem_replicate hdots]
      trivial
    · obtain ⟨name, hname, rfl⟩ := mem_map.mp hnormal
      exact hnames name hname
  obtain ⟨front, hparts, ⟨habs, rfl⟩ | ⟨hrel, n, rfl⟩⟩ := path.normalize_parts
  · rw [if_pos habs, location, if_pos habs]
    by_cases hnil : resolve [] path.parts = []
    · rw [normalize_of_isAbsolute habs, hnil]
      cases path.endsWithSlash <;> simp <;> decide
    · refine iff_of_true (new_asString (hbody 0) (by simpa) ?_) fun _ => hnil
      rw [hparts, normalize_isAbsolute, habs]
      rfl
  have hlocation : ∀ directory,
      path.location directory = resolve directory path.normalize.parts := by
    intro directory
    rw [location, hrel, resolve_normalize hrel]
    rfl
  simp only [hrel, hlocation]
  by_cases hnil : path.normalize.parts = []
  · refine iff_of_false (fun h => ?_) (by simp [hnil, resolve])
    have htext : path.normalize.asString = ['/'] := by
      rw [asString, hnil]
      cases path.normalize.endsWithSlash <;> rfl
    rw [htext] at h
    exact cons_ne_nil _ _ ((congrArg parts h).trans hnil)
  refine iff_of_true (new_asString (hbody n) (hparts ▸ hnil) ?_) ?_
  · rw [hparts, normalize_isAbsolute, hrel]
    rfl
  -- A name moves every directory, and a `..` one with a single name.
  rw [hparts] at hnil ⊢
  by_cases hnames : resolve [] path.parts = []
  · have hn : n ≠ 0 := by
      rintro rfl
      exact hnil (by simp [hnames])
    refine ⟨[['a']], ?_⟩
    rw [hnames, map_nil, append_nil, resolve_parentDirs [['a']] n (Nat.pos_of_ne_zero hn)]
    decide
  · refine ⟨[], ?_⟩
    rwa [resolve_append, resolve_parentDirs [] n (Nat.zero_le n), resolve_names, nil_append]

/-- What the operations on paths do to the paths of any two texts. -/
theorem path_algebra (s t : List Char) : (new s).normalize.normalize = (new s).normalize ∧
      (∀ directory, (new s).normalize.location directory = (new s).location directory) ∧
      ((new s).isAbsolute = true → (new t).isAbsolute = true →
        (new s).startsWith (new t) = true → ∃ rest, (new s).stripPrefix (new t) = some rest ∧
          ((new t).joinPath rest).parts = (new s).normalize.parts) ∧
      (new (new s).normalize.asString = (new s).normalize ↔
        if (new s).isAbsolute then (new s).endsWithSlash = true → (new s).location [] ≠ []
        else ∃ directory, (new s).location directory ≠ directory) := by
  refine ⟨normalize_normalize, location_normalize, fun hs ht hstarts => ?_,
    new_normalize_iff fun name => new_valid⟩
  have hstrip : (new s).stripPrefix (new t) = (new s).normalize.stripPrefix (new t).normalize := by
    simp only [normalize_normalize, stripPrefix]
  have hjoin : ∀ rest, (new t).joinPath rest = (new t).normalize.joinPath rest := by
    intro rest
    simp only [joinPath, normalize_normalize]
  have hbelow : (new s).normalize.startsWith (new t).normalize = true := by
    simpa only [startsWith, normalize_normalize] using hstarts
  simp only [hstrip, hjoin]
  rw [normalize_of_isAbsolute hs, normalize_of_isAbsolute ht] at hbelow ⊢
  have hnames := (startsWith_absolute _ _ _ _).mp hbelow
  refine ⟨_, (stripPrefix_absolute _ _).trans (if_pos hnames), ?_⟩
  obtain ⟨rest, hrest⟩ := hnames
  rw [joinPath_absolute, ← hrest, drop_left]

/-- A path that leads back has the text of the root. -/
theorem dots_become_root :
    new (new ['a', '/', '.', '.']).normalize.asString ≠ (new ['a', '/', '.', '.']).normalize ∧
      (new ['a', '/', '.', '.']).normalize.asString = ['/'] := by
  decide

end Path

/-- The path with these names. -/
@[simp] theorem AbsolutePath.asNormal_eq (path : AbsolutePath) :
    path.asNormal = Path.absolute path.names false := rfl

end Seele.Filesystem
