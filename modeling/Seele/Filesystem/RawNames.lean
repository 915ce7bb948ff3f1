import Seele.Filesystem.Containment

/-!
# Names as the system calls read and write them

`path_from_raw` makes a character of every byte, so a name is kept as the characters with the codes
of its bytes. On the way out a name is written as its UTF-8 encoding. The first is one-to-one
(`decode_injective`), so that two byte strings are two names; the composition gives the bytes back
exactly if all of them are below 0x80 (`nameBytes_decode_eq_iff`), since any other byte comes out as
two. `createTarget` is what the calls that create a file find out from the bytes.
-/

namespace Seele.Filesystem

open AbsolutePath List Seele.Filesystem.Path Char

/-! ## Reading a path -/

/-- `PATH_MAX` in `path_from_raw`. -/
def PATH_MAX : ℕ := 4096

/-- `NAME_MAX` in `path_from_raw`. -/
def NAME_MAX : ℕ := 255

/-- The loop of `path_from_raw`, with the number of indices left before `PATH_MAX`. -/
def readPath (memory : ℕ → Option UInt8) (left index componentLen : ℕ) (out : List Char) :
    Except SyscallError (List Char) :=
  match memory index with
  | none => .error .badAddress
  | some byte =>
    if byte = 0 then .ok out
    else
      match left with
      | 0 => .error .pathTooLong
      | left + 1 =>
        let componentLen := if byte = 0x2f then 0 else componentLen + 1
        if NAME_MAX < componentLen then .error .pathTooLong
        else readPath memory left (index + 1) componentLen (out ++ [Char.ofUInt8 byte])

/-- `path_from_raw`. The pointer is null, or gives what is mapped behind it. -/
def pathFromRaw : Option (ℕ → Option UInt8) → Except SyscallError (List Char)
  | none => .error .badAddress
  | some memory => readPath memory PATH_MAX 0 0 []

/-- The directory and the name that the calls that create a file find out: `path_from_raw`,
`resolve_path_at`, and the start of `create_file_with_metadata`. -/
def createTarget (fsContext : FsContext) (directoryOf : ℤ → Except SyscallError Path) (dirfd : ℤ)
    (pointer : Option (ℕ → Option UInt8)) : Except SyscallError (Path × Name) := do
  let pathStr ← pathFromRaw pointer
  let path ← resolvePathAt fsContext directoryOf dirfd pathStr
  let normalized := path.normalize
  if normalized.endsWithSlash then .error .notADirectory
  else
    match normalized.fileName, normalized.parent with
    | some name, some parent => .ok (parent, name)
    | none, _ | _, none => .error .fileNotFound

/-! ## Names and their bytes -/

variable (bytes : List UInt8)

/-- The characters that `path_from_raw` makes of bytes. -/
def decode : Name :=
  bytes.map Char.ofUInt8

/-- `name.as_bytes()`. -/
def nameBytes (name : Name) : List UInt8 :=
  name.flatMap String.utf8EncodeChar

/-- A byte string that can name a file. -/
structure FileNameBytes (bytes : List UInt8) : Prop where
  ne_nil : bytes ≠ []
  length : bytes.length ≤ NAME_MAX
  nul : 0 ∉ bytes
  slash : 0x2f ∉ bytes

/-- The bytes in the memory of the process, with the zero that ends them. -/
def cString : ℕ → Option UInt8 :=
  fun index => (bytes ++ [0])[index]?

/-- Bytes become different characters. -/
theorem ofUInt8_injective : Function.Injective ofUInt8 := by
  intro x y h
  have hval : x.toUInt32 = y.toUInt32 := congrArg val h
  grind [UInt8.toNat_toUInt32, UInt8.toNat_inj.mp]

/-- Names become different texts. -/
theorem decode_injective : Function.Injective decode :=
  map_injective_iff.mpr ofUInt8_injective

/-- The code of a byte's character. -/
theorem ofUInt8_toNat (byte : UInt8) : (ofUInt8 byte).val.toNat = byte.toNat :=
  UInt8.toNat_toUInt32 byte

variable {byte : UInt8}

/-- A low byte stays one byte. -/
theorem utf8EncodeChar_of_lt (h : byte < 0x80) :
    String.utf8EncodeChar (ofUInt8 byte) = [byte] := by
  have hlt : byte.toNat < 128 := UInt8.lt_iff_toNat_lt.mp h
  grind [String.utf8EncodeChar, ofUInt8_toNat, UInt8.ofNat_toNat]

/-- A high byte becomes two. -/
theorem utf8EncodeChar_of_le (h : ¬ byte < 0x80) :
    ∃ first second, String.utf8EncodeChar (ofUInt8 byte) = [first, second] ∧
      first ≠ 0 ∧ second ≠ 0 := by
  have hle : ¬ byte.toNat < 128 := fun hlt => h (UInt8.lt_iff_toNat_lt.mpr hlt)
  have hlt := byte.toNat_lt
  unfold String.utf8EncodeChar
  rw [ofUInt8_toNat, if_neg (by omega), if_pos (by omega)]
  refine ⟨_, _, rfl, ?_, ?_⟩
  · intro hzero
    have hnat := congrArg UInt8.toNat hzero
    grind [UInt8.toNat_ofNat']
  · intro hzero
    have hnat := congrArg UInt8.toNat hzero
    grind [UInt8.toNat_ofNat']

/-- A text takes up to twice the bytes. -/
theorem length_nameBytes_decode : bytes.length ≤ (nameBytes (decode bytes)).length ∧
      (nameBytes (decode bytes)).length ≤ 2 * bytes.length := by
  induction bytes with
  | nil => exact ⟨Nat.le_refl _, Nat.le_refl _⟩
  | cons byte bytes ih =>
  have hcons : nameBytes (decode (byte :: bytes)) =
      String.utf8EncodeChar (ofUInt8 byte) ++ nameBytes (decode bytes) := rfl
  by_cases h : byte < 0x80
  · grind [utf8EncodeChar_of_lt]
  · obtain ⟨first, second, hencode, -, -⟩ := utf8EncodeChar_of_le h
    grind

/-- Low bytes are kept as they are. -/
theorem nameBytes_decode_eq_iff :
    nameBytes (decode bytes) = bytes ↔ ∀ byte ∈ bytes, byte < 0x80 := by
  induction bytes with
  | nil => simp [nameBytes, decode]
  | cons byte bytes ih =>
  have hcons : nameBytes (decode (byte :: bytes)) =
      String.utf8EncodeChar (ofUInt8 byte) ++ nameBytes (decode bytes) := rfl
  by_cases h : byte < 0x80
  · grind [utf8EncodeChar_of_lt]
  -- One byte has become two, and the others have not become fewer.
  obtain ⟨first, second, hencode, -, -⟩ := utf8EncodeChar_of_le h
  have hlength := (length_nameBytes_decode bytes).1
  grind

/-- There is no zero byte. -/
theorem zero_notMem_nameBytes {bytes : List UInt8} (h : 0 ∉ bytes) :
    0 ∉ nameBytes (decode bytes) := by
  induction bytes with
  | nil => exact not_mem_nil
  | cons byte bytes ih =>
  have hcons : nameBytes (decode (byte :: bytes)) =
      String.utf8EncodeChar (ofUInt8 byte) ++ nameBytes (decode bytes) := rfl
  rw [mem_cons, not_or] at h
  rw [hcons, mem_append, not_or]
  refine ⟨?_, ih h.2⟩
  by_cases hlt : byte < 0x80
  · grind [utf8EncodeChar_of_lt]
  · obtain ⟨first, second, hencode, hfirst, hsecond⟩ := utf8EncodeChar_of_le hlt
    rw [hencode]
    simp [hfirst.symm, hsecond.symm]

/-! ## What the bytes of a name lead to -/

section Target

variable {bytes : List UInt8}

/-- What is read of a C string. -/
theorem readPath_of {memory : ℕ → Option UInt8} {rest : List UInt8} {left index componentLen : ℕ}
    {out : List Char} (hnul : 0 ∉ rest) (hslash : 0x2f ∉ rest) (hleft : rest.length ≤ left)
    (hlen : componentLen + rest.length ≤ NAME_MAX)
    (hmemory : ∀ k, memory (index + k) = (rest ++ [0])[k]? ) :
    readPath memory left index componentLen out = .ok (out ++ decode rest) := by
  induction rest generalizing left index componentLen out with
  | nil =>
    unfold readPath
    have hzero : memory index = some 0 := hmemory 0
    rw [hzero]
    simp [decode]
  | cons byte rest ih =>
  rw [mem_cons, not_or] at hnul hslash
  rw [length_cons] at hleft hlen
  obtain ⟨left, rfl⟩ := Nat.exists_eq_succ_of_ne_zero (by omega : left ≠ 0)
  have hbyte : memory index = some byte := hmemory 0
  have hrest : ∀ k, memory (index + 1 + k) = (rest ++ [0])[k]? := by
    intro k
    have hk := hmemory (k + 1)
    grind
  have hnext : readPath memory left (index + 1) (componentLen + 1) (out ++ [ofUInt8 byte]) =
      .ok (out ++ [ofUInt8 byte] ++ decode rest) :=
    ih hnul.2 hslash.2 (by omega) (by omega) hrest
  unfold readPath
  rw [hbyte]
  dsimp only
  rw [if_neg (Ne.symm hnul.1), if_neg (Ne.symm hslash.1), if_neg (by omega), hnext]
  simp [decode]

variable (h : FileNameBytes bytes)

include h

/-- The path read is the decoded name. -/
theorem pathFromRaw_cString :
    pathFromRaw (some (cString bytes)) = .ok (decode bytes) := by
  have hmax : NAME_MAX ≤ PATH_MAX := by decide
  have hlength := h.length
  refine readPath_of h.nul h.slash (by omega) (by omega) fun k => ?_
  rw [Nat.zero_add]
  rfl

/-- A decoded name has no slash. -/
theorem slash_notMem_decode : '/' ∉ decode bytes := by
  intro hmem
  obtain ⟨byte, hbyte, hchar⟩ := mem_map.mp hmem
  have heq : byte = 0x2f := ofUInt8_injective (hchar.trans (by decide))
  exact h.slash (heq ▸ hbyte)

/-- A decoded name is not empty. -/
theorem decode_ne_nil : decode bytes ≠ [] := by
  intro hnil
  exact h.ne_nil (map_eq_nil_iff.mp hnil)

omit h

/-- The one part of the path that the bytes of a name are. -/
def namePart (bytes : List UInt8) : PathPart :=
  if decode bytes = ['.'] then .currentDir
  else if decode bytes = ['.', '.'] then .parentDir
  else .normal (decode bytes)

/-- A name is not the root. -/
theorem namePart_ne_root (bytes : List UInt8) : namePart bytes ≠ .root := by
  unfold namePart
  split_ifs <;> exact nofun

/-- Names are different parts. -/
theorem namePart_injective : Function.Injective namePart := by
  intro bytes bytes' h
  refine decode_injective ?_
  unfold namePart at h
  grind

variable {base : List Name}

/-- Two parts that lead from a directory to the same names are the same, unless they lead to the
root. -/
theorem push_inj {part part' : PathPart} (hpart : part ≠ .root)
    (hpart' : part' ≠ .root) (h : push base part = push base part') :
    part = part' ∨ push base part = [] := by
  -- The number of names tells what kind of part it is.
  have hlength := congrArg length h
  have hnormal : ∀ name, (push base (.normal name)).length = base.length + 1 :=
    fun _ => length_append
  have hcurrent : (push base .currentDir).length = base.length := rfl
  have hparent : (push base .parentDir).length = base.length - 1 :=
    length_dropLast
  cases part with
  | root => exact absurd rfl hpart
  | currentDir =>
    cases part' with
    | root => exact absurd rfl hpart'
    | currentDir => exact .inl rfl
    | normal name =>
      have := hnormal name
      omega
    | parentDir => exact .inr (length_eq_zero_iff.mp (by omega))
  | normal name =>
    have hname := hnormal name
    cases part' with
    | root => exact absurd rfl hpart'
    | currentDir => omega
    | normal name' => exact .inl (congrArg PathPart.normal (cons.inj (append_cancel_left h)).1)
    | parentDir => omega
  | parentDir =>
  cases part' with
  | root => exact absurd rfl hpart'
  | currentDir => exact .inr (length_eq_zero_iff.mp (by omega))
  | normal name =>
    have := hnormal name
    omega
  | parentDir => exact .inl rfl

variable (h : FileNameBytes bytes)

include h

/-- A name is a path of one part. -/
theorem new_decode : new (decode bytes) = ⟨[namePart bytes], false⟩ := by
  have hslash := slash_notMem_decode h
  have hne := decode_ne_nil h
  have hhead : (decode bytes).head? ≠ some '/' :=
    fun hhead => hslash (mem_of_head? hhead)
  have hlast : ¬ (1 < (decode bytes).length ∧ (decode bytes).getLast? = some '/') :=
    fun hlast => hslash (mem_of_getLast? hlast.2)
  have hsplit : (decode bytes).splitOn '/' = [decode bytes] := by
    grind [splitOn_eq_splitOnP, splitOnP_eq_singleton]
  have hpart : parseComponent (decode bytes) = some (namePart bytes) := by
    unfold parseComponent namePart
    rw [if_neg hne]
    split_ifs <;> rfl
  grind [new, parse]

/-- The names of the directory that a relative path starts from. -/
def baseNames (fsContext : FsContext) (directoryOf : ℤ → Except SyscallError Path) (dirfd : ℤ) :
    Except SyscallError (List Name) :=
  if dirfd = AT_FDCWD then .ok fsContext.currentDirectory.names
  else (directoryOf dirfd).map fun path => (fromRootPath path).names

/-- Where the name is resolved. -/
theorem resolvePathAt_decode (fsContext : FsContext)
    (directoryOf : ℤ → Except SyscallError Path) (dirfd : ℤ) :
    resolvePathAt fsContext directoryOf dirfd (decode bytes) =
      (baseNames fsContext directoryOf dirfd).map fun names =>
        absolute (push names (namePart bytes)) false := by
  have hrelative : (new (decode bytes)).isAbsolute = false := by
    rw [new_decode h]
    unfold namePart isAbsolute
    split_ifs <;> rfl
  have hpush : ∀ base : AbsolutePath, (base.pushPathStr (decode bytes)).asNormal =
      absolute (push base.names (namePart bytes)) false := by
    intro base
    unfold pushPathStr
    rw [hrelative, new_decode h]
    rfl
  unfold resolvePathAt baseNames
  rw [if_neg (decode_ne_nil h), hrelative]
  by_cases hcwd : dirfd = AT_FDCWD
  · rw [if_pos hcwd, if_pos hcwd, hpush]
    rfl
  rw [if_neg hcwd, if_neg hcwd]
  cases directoryOf dirfd with
  | error e => rfl
  | ok path =>
    refine congrArg Except.ok ?_
    rw [hpush]
    rfl

variable {fsContext : FsContext} {directoryOf : ℤ → Except SyscallError Path} {dirfd : ℤ}

variable {name : Name}

/-- Where an entry is created. -/
theorem createTarget_eq_ok {parent : Path}
    (htarget : createTarget fsContext directoryOf dirfd (some (cString bytes)) =
      .ok (parent, name)) :
    ∃ base front, baseNames fsContext directoryOf dirfd = .ok base ∧
      push base (namePart bytes) = front ++ [name] ∧
      parent = absolute front false := by
  obtain ⟨pathStr, hpathStr, htarget⟩ := bind_eq_ok.mp htarget
  rw [pathFromRaw_cString h] at hpathStr
  cases hpathStr
  obtain ⟨path, hpath, hrest⟩ := bind_eq_ok.mp htarget
  rw [resolvePathAt_decode h] at hpath
  cases hbase : baseNames fsContext directoryOf dirfd with
  | error e =>
    rw [hbase] at hpath
    cases hpath
  | ok base =>
  rw [hbase] at hpath
  cases hpath
  dsimp only at hrest
  rw [normalize_absolute, absolute_endsWithSlash, fileName_absolute] at hrest
  rcases (push base (namePart bytes)).eq_nil_or_concat' with hnil | ⟨front, last, hlast⟩
  · -- The root has no name.
    rw [hnil] at hrest
    cases hrest
  · grind [parent_absolute_concat]

/-- In the base it has the decoded name. -/
theorem createTarget_in_base (hbase : baseNames fsContext directoryOf dirfd = .ok base)
    (htarget : createTarget fsContext directoryOf dirfd (some (cString bytes)) =
      .ok (absolute base false, name)) :
    name = decode bytes ∧ Path.ValidName name := by
  obtain ⟨base', front, hbase', hpush, hparent⟩ := createTarget_eq_ok h htarget
  rw [hbase] at hbase'
  cases hbase'
  obtain ⟨rfl, -⟩ := absolute_inj.mp hparent
  unfold namePart at hpush
  -- The two dots do not lead to a name behind the base.
  by_cases hdot : decode bytes = ['.']
  · rw [if_pos hdot] at hpush
    have hlength := congrArg length hpush
    simp [push] at hlength
  rw [if_neg hdot] at hpush
  split_ifs at hpush with hdots
  · have hlength := congrArg length hpush
    grind [push]
  · obtain rfl := cons.inj (append_cancel_left hpush) |>.1
    exact ⟨rfl, decode_ne_nil h, slash_notMem_decode h, hdot, hdots⟩

/-- Different names have different targets. -/
theorem createTarget_injective {bytes' : List UInt8}
    (h' : FileNameBytes bytes') (hne : bytes ≠ bytes') {target target' : Path × Name}
    (htarget : createTarget fsContext directoryOf dirfd (some (cString bytes)) = .ok target)
    (htarget' : createTarget fsContext directoryOf dirfd (some (cString bytes')) = .ok target') :
    target ≠ target' := by
  rintro rfl
  obtain ⟨base, front, hbase, hpush, hparent⟩ := createTarget_eq_ok h htarget
  obtain ⟨base', front', hbase', hpush', hparent'⟩ := createTarget_eq_ok h' htarget'
  rw [hbase] at hbase'
  cases hbase'
  obtain ⟨rfl, -⟩ := absolute_inj.mp (hparent.symm.trans hparent')
  rcases push_inj (namePart_ne_root bytes) (namePart_ne_root bytes') (hpush.trans hpush'.symm) with
    hparts | hnil
  · exact hne (namePart_injective hparts)
  · rw [hpush] at hnil
    simp at hnil

omit h

end Target

end Seele.Filesystem
