import Mathlib.Algebra.Ring.Nat
import Mathlib.Data.List.Nodup
import Seele.Filesystem.RawNames
import Seele.Lib.GuardedRun

/-!
# The records of `getdents` and `getdents64`

Both calls write the entries of a directory as records into the buffer of the process: the inode,
the index of the next entry, the length of the record in two bytes, and the name up to a zero. They
go on from the index that the open directory has, and stop at the first record that does not fit.

A process that calls until nothing is written, and follows the lengths of the records, reads every
entry with its name (`readDirectory_eq`), whatever the size of its buffer, as long as one record
fits. The proof needs of a record only what `IsRecord` says, so the two layouts share it.

The index is into a listing that every call makes anew. If the directory changes before the index
while it is read, entries are left out (`removal_skips_entry`); otherwise each is reported once
(`scan_complete`).
-/

namespace Seele.Filesystem

open List

/-! ## Numbers as bytes -/

/-- `to_ne_bytes` of a number with `count` bytes, on a little-endian machine. -/
def leBytes : ℕ → ℕ → List UInt8
  | 0, _ => []
  | count + 1, value => UInt8.ofNat value :: leBytes count (value / 256)

/-- The number that bytes stand for. -/
def leNat : List UInt8 → ℕ
  | [] => 0
  | byte :: bytes => byte.toNat + 256 * leNat bytes

/-- The number of bytes. -/
@[simp] theorem length_leBytes (count value : ℕ) : (leBytes count value).length = count := by
  induction count generalizing value with
  | zero => rfl
  | succ count ih => rw [leBytes, length_cons, ih]

/-- The bytes read back. -/
theorem leNat_leBytes {count value : ℕ} (h : value < 256 ^ count) :
    leNat (leBytes count value) = value := by
  induction count generalizing value with
  | zero => exact (Nat.lt_one_iff.mp h).symm
  | succ count ih =>
  have hrest : value / 256 < 256 ^ count := by grind
  rw [leBytes, leNat, ih hrest, UInt8.toNat_ofNat']
  exact Nat.mod_add_div value 256

/-! ## The records -/

/-- `DirectoryContentType`. -/
inductive DirectoryContentType where
  | directory
  | file
  | symlink
deriving DecidableEq, Repr

/-- `DirectoryContentInfo`, as far as a listing reads it. -/
structure DirectoryContentInfo where
  name : Name
  contentType : DirectoryContentType
  inode : ℕ
deriving DecidableEq, Repr

/-- The type byte of a record. -/
def DirectoryContentType.byte : DirectoryContentType → UInt8
  | .directory => 4
  | .file => 8
  | .symlink => 10

variable (info : DirectoryContentInfo) (offset : ℕ)

/-- `fallback_dirent_inode`. -/
def fallbackDirentInode : UInt64 :=
  let hash := (nameBytes info.name).foldl
    (fun hash byte => (hash ^^^ byte.toUInt64) * 0x100000001b3) 0xcbf29ce484222325
  let hash := hash ^^^ info.contentType.byte.toUInt64
  max (hash ^^^ UInt64.ofNat offset) 1

/-- The inode in a record. -/
def direntInode : ℕ :=
  if info.inode ≠ 0 then info.inode else (fallbackDirentInode info offset).toNat

/-- `directory_contents_with_dot_entries`. -/
def withDotEntries (contents : List DirectoryContentInfo) : List DirectoryContentInfo :=
  (if contents.any (·.name = ['.']) then [] else [⟨['.'], .directory, 0⟩]) ++
    (if contents.any (·.name = ['.', '.']) then [] else [⟨['.', '.'], .directory, 0⟩]) ++ contents

/-- The length of a record in `write_dirents64`, as a `u16`. -/
def reclen64 : ℕ :=
  (19 + (nameBytes info.name).length + 1 + 7) / 8 * 8 % 65536

/-- A record of `write_dirents64`. If its length has been cut off, writing the name into it stops
the kernel. -/
def dirent64 : Option (List UInt8) :=
  let name := nameBytes info.name
  let reclen := reclen64 info
  if reclen ≤ 19 + name.length then none
  else some (leBytes 8 (direntInode info offset) ++ leBytes 8 (offset + 1) ++ leBytes 2 reclen ++
    [info.contentType.byte] ++ name ++ List.replicate (reclen - (19 + name.length)) 0)

/-- The length of a record in `write_dirents`, as a `u16`. -/
def reclen : ℕ :=
  (20 + (nameBytes info.name).length + 7) / 8 * 8 % 65536

/-- A record of `write_dirents`: the type is its last byte. -/
def dirent : Option (List UInt8) :=
  let name := nameBytes info.name
  let reclen := reclen info
  if reclen ≤ 18 + name.length then none
  else some (leBytes 8 (direntInode info offset) ++ leBytes 8 (offset + 1) ++ leBytes 2 reclen ++
    name ++ List.replicate (reclen - (19 + name.length)) 0 ++ [info.contentType.byte])

/-! ## The calls -/

/-- What differs between the two calls: the length of a record, the record, and where the name
starts in it. -/
structure DirentLayout where
  reclen : DirectoryContentInfo → ℕ
  record : DirectoryContentInfo → ℕ → Option (List UInt8)
  nameStart : ℕ

/-- The loop of the two calls, over the entries from `offset` on. -/
def writeRecords (layout : DirentLayout) (len : ℕ) :
    List DirectoryContentInfo → ℕ → List UInt8 → Option (Except SyscallError (List UInt8 × ℕ))
  | [], offset, written => some (.ok (written, offset))
  | info :: rest, offset, written =>
    if len < written.length + layout.reclen info then
      if written.length = 0 then some (.error .invalidArguments) else some (.ok (written, offset))
    else
      match layout.record info offset with
      | none => none
      | some entry => writeRecords layout len rest (offset + 1) (written ++ entry)

/-- One call on a directory that is open at `directoryOffset`: what is written to the buffer of
length `len`, and the offset after it. -/
def writeDirentsWith (layout : DirentLayout) (contents : List DirectoryContentInfo)
    (directoryOffset len : ℕ) : Option (Except SyscallError (List UInt8 × ℕ)) :=
  let offset := min directoryOffset contents.length
  if contents.length ≤ offset then some (.ok ([], offset))
  else if len < 24 then some (.error .invalidArguments)
  else writeRecords layout len (contents.drop offset) offset []

/-- The layout of `write_dirents64`. -/
def layout64 : DirentLayout := ⟨reclen64, dirent64, 19⟩

/-- The layout of `write_dirents`. -/
def layout32 : DirentLayout := ⟨reclen, dirent, 18⟩

/-- `write_dirents64`. -/
def writeDirents64 := writeDirentsWith layout64

/-- `write_dirents`. -/
def writeDirents := writeDirentsWith layout32

/-! ## Reading a directory -/

/-- A process calls until nothing is written, at most `calls` times. -/
def readDirectory (write : List DirectoryContentInfo → ℕ → ℕ →
    Option (Except SyscallError (List UInt8 × ℕ))) (contents : List DirectoryContentInfo) (len :
    ℕ) :
    ℕ → ℕ → Option (Except SyscallError (List UInt8))
  | 0, _ => some (.ok [])
  | calls + 1, offset =>
    match write contents offset len with
    | none => none
    | some (.error e) => some (.error e)
    | some (.ok (written, offset)) =>
      if written = [] then some (.ok [])
      else
        match readDirectory write contents len calls offset with
        | none => none
        | some (.error e) => some (.error e)
        | some (.ok rest) => some (.ok (written ++ rest))

/-- The inodes and names in the records, by their lengths; `fuel` is at least their number. -/
def parseRecords (nameStart : ℕ) : ℕ → List UInt8 → List (ℕ × List UInt8)
  | 0, _ => []
  | fuel + 1, bytes =>
    if bytes = [] then []
    else
      let reclen := leNat ((bytes.drop 16).take 2)
      (leNat (bytes.take 8), ((bytes.take reclen).drop nameStart).takeWhile (· ≠ 0)) ::
        parseRecords nameStart fuel (bytes.drop reclen)

/-! ## What is read -/

/-- What a reader finds in a record. -/
structure IsRecord (nameStart inode : ℕ) (name entry : List UInt8) : Prop where
  inode : leNat (entry.take 8) = inode
  reclen : leNat ((entry.drop 16).take 2) = entry.length
  name : (entry.drop nameStart).takeWhile (· ≠ 0) = name
  long : 18 ≤ entry.length

section Reading

variable {layout : DirentLayout} {len : ℕ}

/-- The first record is read. -/
theorem parseRecords_append {nameStart inode fuel : ℕ} {name entry : List UInt8}
    (h : IsRecord nameStart inode name entry) (rest : List UInt8) :
    parseRecords nameStart (fuel + 1) (entry ++ rest) =
      (inode, name) :: parseRecords nameStart fuel rest := by
  have hlong := h.long
  have hne : entry ++ rest ≠ [] := by grind [append_eq_nil_iff.mp]
  rw [parseRecords, if_neg hne]
  grind [h.inode, h.reclen, h.name]

/-- What is written for each entry from an index on. -/
def listed (contents : List DirectoryContentInfo) (offset : ℕ) : List (ℕ × List UInt8) :=
  contents.mapIdx fun k info => (direntInode info (offset + k), nameBytes info.name)

/-- The first entry is listed. -/
theorem listed_cons (info : DirectoryContentInfo) (contents : List DirectoryContentInfo)
    (offset : ℕ) : listed (info :: contents) offset =
      (direntInode info offset, nameBytes info.name) :: listed contents (offset + 1) := by
  simp [Nat.add_comm, Nat.add_left_comm, listed]

/-- Every entry has a record that fits into the buffer. -/
def RecordsFit (layout : DirentLayout) (len : ℕ) (contents : List DirectoryContentInfo) : Prop :=
  ∀ info ∈ contents, layout.reclen info ≤ len ∧ ∀ offset, ∃ entry,
    layout.record info offset = some entry ∧ entry.length = layout.reclen info ∧
      IsRecord layout.nameStart (direntInode info offset) (nameBytes info.name) entry

variable {contents : List DirectoryContentInfo}

/-- What one call writes. -/
theorem writeRecords_spec
    (hfit : RecordsFit layout len contents) (offset : ℕ) (written : List UInt8) :
    ∃ k bytes, k ≤ contents.length ∧ (written = [] → contents ≠ [] → 0 < k ∧ bytes ≠ []) ∧
      writeRecords layout len contents offset written = some (.ok (written ++ bytes, offset + k)) ∧
      ∀ rest fuel, parseRecords layout.nameStart (k + fuel) (bytes ++ rest) =
        listed (contents.take k) offset ++ parseRecords layout.nameStart fuel rest := by
  induction contents generalizing offset written with
  | nil =>
    refine ⟨0, [], Nat.le_refl _, fun _ h => absurd rfl h, ?_, fun rest fuel => ?_⟩
    · rw [writeRecords, append_nil, Nat.add_zero]
    · rw [Nat.zero_add]
      rfl
  | cons info contents ih =>
  obtain ⟨hlen, hrecord⟩ := hfit info mem_cons_self
  have hrest : RecordsFit layout len contents := fun i hi => hfit i (mem_cons_of_mem _ hi)
  by_cases hfull : len < written.length + layout.reclen info
  · -- The buffer is full, and so it is not empty.
    have hwritten : written.length ≠ 0 := by omega
    refine ⟨0, [], Nat.zero_le _, fun hnil => ?_, ?_, fun rest fuel => ?_⟩
    · rw [hnil] at hwritten
      exact absurd rfl hwritten
    · rw [writeRecords, if_pos hfull, if_neg hwritten, append_nil, Nat.add_zero]
    · rw [Nat.zero_add]
      rfl
  obtain ⟨entry, hentry, -, his⟩ := hrecord offset
  obtain ⟨k, bytes, hk, -, hwrite, hparse⟩ := ih hrest (offset + 1) (written ++ entry)
  refine ⟨k + 1, entry ++ bytes, Nat.succ_le_succ hk, fun _ _ => ⟨Nat.succ_pos k, ?_⟩, ?_, ?_⟩
  · intro hnil
    have hlong := his.long
    grind
  · rw [writeRecords, if_neg hfull, hentry]
    simp [hwrite, Nat.add_right_comm, Nat.add_assoc]
  · grind [parseRecords_append, listed_cons]

/-- A listing in two parts. -/
theorem listed_append (front back : List DirectoryContentInfo) (offset : ℕ) :
    listed (front ++ back) offset = listed front offset ++ listed back (offset + front.length) := by
  unfold listed
  grind

/-- No records. -/
theorem parseRecords_nil (nameStart fuel : ℕ) : parseRecords nameStart fuel [] = [] := by
  cases fuel <;> rfl

/-- Reading on from an offset. -/
theorem readDirectory_from (hfit : RecordsFit layout len contents) (hlen : 24 ≤ len)
    (calls offset : ℕ) (hcalls : contents.length - offset < calls) :
    ∃ bytes, readDirectory (writeDirentsWith layout) contents len calls offset = some (.ok bytes) ∧
      ∀ fuel, contents.length - offset ≤ fuel →
        parseRecords layout.nameStart fuel bytes = listed (contents.drop offset) offset := by
  induction calls generalizing offset with
  | zero => exact absurd hcalls (Nat.not_lt_zero _)
  | succ calls ih =>
  by_cases hend : contents.length ≤ offset
  · refine ⟨[], ?_, fun fuel _ => ?_⟩
    · rw [readDirectory, writeDirentsWith, Nat.min_eq_right hend, if_pos (Nat.le_refl _)]
      rfl
    · rw [parseRecords_nil, drop_eq_nil_of_le hend]
      rfl
  have hdrop : contents.drop offset ≠ [] := by
    intro hnil
    exact hend (drop_eq_nil_iff.mp hnil)
  have hfit' : RecordsFit layout len (contents.drop offset) :=
    fun info hinfo => hfit info (mem_of_mem_drop hinfo)
  obtain ⟨k, bytes, hk, hsome, hwrite, hparse⟩ := writeRecords_spec hfit' offset []
  obtain ⟨hpos, hbytes⟩ := hsome rfl hdrop
  rw [length_drop] at hk
  obtain ⟨rest, hrest, hparseRest⟩ := ih (offset + k) (by omega)
  have hcall : writeDirentsWith layout contents offset len = some (.ok (bytes, offset + k)) := by
    unfold writeDirentsWith
    grind
  refine ⟨bytes ++ rest, ?_, fun fuel hfuel => ?_⟩
  · rw [readDirectory, hcall]
    dsimp only
    rw [if_neg hbytes, hrest]
  -- The records of this call, and then those of the later ones.
  obtain ⟨fuel, rfl⟩ := Nat.exists_eq_add_of_le (by omega : k ≤ fuel)
  have hsplit : contents.drop offset =
      (contents.drop offset).take k ++ contents.drop (offset + k) := by
    rw [← drop_drop, take_append_drop]
  grind [listed_append]

/-- Reading from the start. -/
theorem readDirectory_eq (hfit : RecordsFit layout len contents) (hlen : 24 ≤ len) :
    ∃ bytes, readDirectory (writeDirentsWith layout) contents len (contents.length + 1) 0 =
        some (.ok bytes) ∧
      parseRecords layout.nameStart contents.length bytes = listed contents 0 := by
  obtain ⟨bytes, hread, hparse⟩ := readDirectory_from hfit hlen (contents.length + 1) 0 (by omega)
  grind

end Reading

/-! ## The two layouts -/

section Layouts

variable {offset length len : ℕ}

/-- The fixed fields of a record. -/
theorem record_head {inode : ℕ} (hinode : inode < 256 ^ 8) (hlength : length < 256 ^ 2)
    {entry rest : List UInt8}
    (hentry : entry = leBytes 8 inode ++ leBytes 8 offset ++ leBytes 2 length ++ rest) :
    leNat (entry.take 8) = inode ∧ leNat ((entry.drop 16).take 2) = length ∧ 18 ≤ entry.length ∧
      entry.drop 18 = rest := by
  grind [length_leBytes, leNat_leBytes, drop_left']

/-- The name ends at the zero byte. -/
theorem takeWhile_name {name rest : List UInt8} (h : 0 ∉ name) {count : ℕ} (hcount : count ≠ 0) :
    (name ++ (List.replicate count 0 ++ rest)).takeWhile (· ≠ 0) = name := by
  obtain ⟨count, rfl⟩ := Nat.exists_eq_succ_of_ne_zero hcount
  grind [takeWhile_append_of_pos, takeWhile_cons_of_neg]

/-- A name with its padding is a record. -/
theorem isRecord_of (front back : List UInt8) (offset : ℕ) {inode count : ℕ}
    {name entry : List UInt8} (hinode : inode < 256 ^ 8) (hlength : length < 256 ^ 2)
    (hnul : 0 ∉ name) (hcount : count ≠ 0)
    (htotal : 18 + front.length + name.length + count + back.length = length)
    (hentry : entry = leBytes 8 inode ++ leBytes 8 offset ++ leBytes 2 length ++
      (front ++ (name ++ (List.replicate count 0 ++ back)))) :
    entry.length = length ∧ IsRecord (18 + front.length) inode name entry := by
  obtain ⟨hi, hr, hl, hd⟩ := record_head hinode hlength hentry
  have hsize : entry.length = length := by grind
  refine ⟨hsize, hi, hr.trans hsize.symm, ?_, hl⟩
  rw [← drop_drop, hd, drop_left, takeWhile_name hnul hcount]

/-- The entry has a name and an inode that a record can hold. -/
structure Listable (info : DirectoryContentInfo) : Prop where
  length : (nameBytes info.name).length ≤ 2 * NAME_MAX
  nul : 0 ∉ nameBytes info.name
  inode : info.inode < 256 ^ 8

/-- The longest record of a name with `NAME_MAX` bytes. -/
def MAX_RECLEN : ℕ := 536

/-- An inode fits in eight bytes. -/
theorem direntInode_lt {info : DirectoryContentInfo} (h : Listable info) :
    direntInode info offset < 256 ^ 8 := by
  unfold direntInode
  split_ifs with hinode
  · exact h.inode
  · exact (fallbackDirentInode info offset).toNat_lt

variable {contents : List DirectoryContentInfo}

variable (hlen : MAX_RECLEN ≤ len) (h : ∀ info ∈ contents, Listable info)

include hlen h

/-- The records of `getdents64` fit. -/
theorem recordsFit64 : RecordsFit layout64 len contents := by
  intro info hmem
  have hinfo := h info hmem
  have hlength := hinfo.length
  unfold NAME_MAX at hlength
  unfold MAX_RECLEN at hlen
  have hreclen : reclen64 info = (19 + (nameBytes info.name).length + 1 + 7) / 8 * 8 :=
    Nat.mod_eq_of_lt (by omega)
  have hfits : reclen64 info ≤ len := by omega
  refine ⟨hfits, fun offset => ?_⟩
  have hcut : ¬ reclen64 info ≤ 19 + (nameBytes info.name).length := by omega
  have hsmall : reclen64 info < 256 ^ 2 := by omega
  have hlayout : layout64.reclen info = reclen64 info := rfl
  have hpadding : reclen64 info - (19 + (nameBytes info.name).length) ≠ 0 := by omega
  rw [hlayout]
  refine ⟨_, if_neg hcut, isRecord_of [info.contentType.byte] [] (offset + 1) (direntInode_lt hinfo)
    hsmall hinfo.nul hpadding ?_ ?_⟩
  · rw [length_singleton, length_nil]
    omega
  · simp only [append_assoc, append_nil]

/-- The records of `getdents` fit. -/
theorem recordsFit32 : RecordsFit layout32 len contents := by
  intro info hmem
  have hinfo := h info hmem
  have hlength := hinfo.length
  unfold NAME_MAX at hlength
  unfold MAX_RECLEN at hlen
  have hreclen : reclen info = (20 + (nameBytes info.name).length + 7) / 8 * 8 :=
    Nat.mod_eq_of_lt (by omega)
  have hfits : reclen info ≤ len := by omega
  refine ⟨hfits, fun offset => ?_⟩
  have hcut : ¬ reclen info ≤ 18 + (nameBytes info.name).length := by omega
  have hsmall : reclen info < 256 ^ 2 := by omega
  have hlayout : layout32.reclen info = reclen info := rfl
  have hpadding : reclen info - (19 + (nameBytes info.name).length) ≠ 0 := by omega
  rw [hlayout]
  refine ⟨_, if_neg hcut, isRecord_of [] [info.contentType.byte] (offset + 1) (direntInode_lt hinfo)
    hsmall hinfo.nul hpadding ?_ ?_⟩
  · rw [length_singleton, length_nil]
    omega
  · simp only [append_assoc, nil_append]

omit hlen h

end Layouts

/-! ## Scans of a directory that changes -/

/-- The buffer of a process takes what is copied to it. -/
def Writable (writable : ℕ → ℕ → Bool) (len : ℕ) : Prop :=
  ∀ start length, start + length ≤ len → writable start length

/-- The loop of `write_dirents64` with its copies to the process, of which `writable` says whether
a range of the buffer takes them. What has been copied is given with an error too. -/
def copyRecords (writable : ℕ → ℕ → Bool) (len : ℕ) : List DirectoryContentInfo → ℕ → ℕ →
    Option (Except SyscallError Unit × List (DirectoryContentInfo × List UInt8))
  | [], _, _ => some (.ok (), [])
  | info :: rest, offset, bytesWritten =>
    if len < bytesWritten + reclen64 info then
      some (if bytesWritten = 0 then .error .invalidArguments else .ok (), [])
    else
      match dirent64 info offset with
      | none => none
      | some entry =>
        if writable bytesWritten entry.length then
          (copyRecords writable len rest (offset + 1) (bytesWritten + reclen64 info)).map
            fun out => (out.1, (info, entry) :: out.2)
        else some (.error .badAddress, [])

/-- A directory, the offset of the open file, and the entries that calls without an error have
reported. -/
structure Scan where
  contents : List DirectoryContentInfo
  directoryOffset : ℕ
  reported : List DirectoryContentInfo
deriving DecidableEq

/-- The contents change, or the process calls `getdents64`, with a buffer that is not null. -/
inductive ScanOp where
  | change (contents : List DirectoryContentInfo)
  | getdents64 (writable : ℕ → ℕ → Bool) (len : ℕ)

namespace Scan

variable (writable : ℕ → ℕ → Bool) (len : ℕ) (s : Scan)

/-- What a call lists. -/
def entries : List DirectoryContentInfo := withDotEntries s.contents

/-- `offset_entry`, as `directory_offset` gives it. -/
def offsetEntry : ℕ := min s.directoryOffset s.entries.length

/-- `write_dirents64`: its result, and the records it has copied. -/
def call : Option (Except SyscallError Unit × List (DirectoryContentInfo × List UInt8)) :=
  if s.entries.length ≤ s.offsetEntry then some (.ok (), [])
  else if len < 24 then some (.error .invalidArguments, [])
  else copyRecords writable len (s.entries.drop s.offsetEntry) s.offsetEntry 0

/-- One step. Every record that is copied advances the offset. -/
def exec : ScanOp → Scan → Option Scan
  | .change contents, s => some { s with contents }
  | .getdents64 writable len, s => (s.call writable len).map fun out =>
    { s with
      directoryOffset := s.offsetEntry + out.2.length
      reported := s.reported ++ if out.1.isOk then out.2.map Prod.fst else [] }

/-- The buffer can be written, and a change leaves the entries before the offset as they are. -/
def Steady : ScanOp → Scan → Prop
  | .change contents, s =>
    (withDotEntries contents).take s.directoryOffset = s.entries.take s.directoryOffset
  | .getdents64 writable len, _ => Writable writable len

end Scan

section Scans

variable {writable : ℕ → ℕ → Bool} {len : ℕ} {r : Except SyscallError Unit}
  {copied : List (DirectoryContentInfo × List UInt8)} {s s' : Scan}

/-- What a call copies of the entries it is to report: whole records of the first ones, as long as
they fit. One that fails has copied none, and one without records has none to report. -/
structure Copies (writable : ℕ → ℕ → Bool) (len bytesWritten : ℕ)
    (infos : List DirectoryContentInfo) (r : Except SyscallError Unit)
    (copied : List (DirectoryContentInfo × List UInt8)) : Prop where
  first : copied.map Prod.fst <+: infos
  whole : ∀ record ∈ copied, ∃ i, dirent64 record.1 i = some record.2
  fits : bytesWritten + (copied.flatMap Prod.snd).length ≤ len
  failed : Writable writable len → ∀ e, r = .error e → bytesWritten = 0 ∧ copied = []
  done : r = .ok () → copied = [] → bytesWritten = 0 → infos = []

/-- The length of a record. -/
theorem length_dirent64 {info : DirectoryContentInfo} {offset : ℕ} {entry : List UInt8}
    (h : dirent64 info offset = some entry) : entry.length = reclen64 info ∧ 0 < reclen64 info := by
  unfold dirent64 at h
  dsimp only at h
  split_ifs at h with hcut
  cases h
  simp only [length_append, length_leBytes, length_singleton, length_replicate]
  omega

/-- What the loop copies. -/
theorem copyRecords_spec {infos : List DirectoryContentInfo} {offset bytesWritten : ℕ}
    (hlen : bytesWritten ≤ len)
    (hrun : copyRecords writable len infos offset bytesWritten = some (r, copied)) :
    Copies writable len bytesWritten infos r copied := by
  induction infos generalizing offset bytesWritten r copied with
  | nil =>
    cases hrun
    exact ⟨⟨_, rfl⟩, nofun, hlen, nofun, fun _ _ _ => rfl⟩
  | cons info infos ih =>
  unfold copyRecords at hrun
  split_ifs at hrun with hfull hzero
  · cases hrun
    exact ⟨⟨_, rfl⟩, nofun, hlen, fun _ _ _ => ⟨hzero, rfl⟩, nofun⟩
  · cases hrun
    exact ⟨⟨_, rfl⟩, nofun, hlen, nofun, fun _ _ h => absurd h hzero⟩
  cases hentry : dirent64 info offset with
  | none => simp [hentry] at hrun
  | some entry =>
  obtain ⟨hlength, hpos⟩ := length_dirent64 hentry
  rw [hentry] at hrun
  dsimp only at hrun
  split_ifs at hrun with hwritable
  · obtain ⟨⟨r', rest⟩, hrest, hout⟩ := Option.map_eq_some_iff.mp hrun
    cases hout
    have h := ih (by omega) hrest
    refine ⟨?_, forall_mem_cons.mpr ⟨⟨offset, hentry⟩, h.whole⟩, ?_, fun hall e he => ?_, nofun⟩
    · simpa using h.first
    · have hfits := h.fits
      rw [flatMap_cons, length_append]
      dsimp only
      omega
    · -- A record before has been copied.
      have hnone := (h.failed hall e he).1
      omega
  · cases hrun
    refine ⟨⟨_, rfl⟩, nofun, hlen, fun hall => ?_, nofun⟩
    exact absurd (hall bytesWritten entry.length (by omega)) hwritable

/-- What has been reported is what the listing has before the offset. -/
structure Scan.Inv (s : Scan) : Prop where
  offset : s.directoryOffset ≤ s.entries.length
  reported : s.reported = s.entries.take s.directoryOffset

/-- What one call copies. -/
theorem Scan.Inv.call (h : s.Inv) (hrun : s.call writable len = some (r, copied)) :
    Copies writable len 0 (s.entries.drop s.directoryOffset) r copied := by
  unfold Scan.call Scan.offsetEntry at hrun
  rw [Nat.min_eq_left h.offset] at hrun
  split_ifs at hrun with hend hsmall
  · cases hrun
    rw [drop_eq_nil_of_le hend]
    exact ⟨⟨_, rfl⟩, nofun, Nat.zero_le _, nofun, fun _ _ _ => rfl⟩
  · cases hrun
    exact ⟨⟨_, rfl⟩, nofun, Nat.zero_le _, fun _ _ _ => ⟨rfl, rfl⟩, nofun⟩
  · exact copyRecords_spec (Nat.zero_le len) hrun

/-- A call keeps the invariant. -/
theorem Scan.Inv.exec {op : ScanOp} (h : s.Inv) (hsteady : Steady op s)
    (hrun : Scan.exec op s = some s') : s'.Inv := by
  cases op with
  | change contents =>
    cases hrun
    have htake : (withDotEntries contents).take s.directoryOffset =
        s.entries.take s.directoryOffset := hsteady
    have hlength := congrArg length htake
    rw [length_take, length_take, Nat.min_eq_left h.offset] at hlength
    exact ⟨hlength ▸ Nat.min_le_right _ _, h.reported.trans htake.symm⟩
  | getdents64 writable len =>
  obtain ⟨⟨r, copied⟩, hcall, rfl⟩ := Option.map_eq_some_iff.mp hrun
  have hcopies := h.call hcall
  have hoffset : s.offsetEntry = s.directoryOffset := Nat.min_eq_left h.offset
  have hlength := hcopies.first.length_le
  rw [length_map, length_drop] at hlength
  refine ⟨?_, ?_⟩
  · have hle := h.offset
    show s.offsetEntry + copied.length ≤ s.entries.length
    omega
  show s.reported ++ _ = s.entries.take (s.offsetEntry + copied.length)
  rw [hoffset, take_add, ← h.reported]
  cases r with
  | error e => simp [(hcopies.failed hsteady e rfl).2, Except.isOk, Except.toBool]
  | ok u =>
    have heq := prefix_iff_eq_take.mp hcopies.first
    rw [length_map] at heq
    exact congrArg (s.reported ++ ·) heq

/-- A scan in which the buffers can be written and nothing changes before the offset: every call
copies whole records that fit, and none if it fails, and when a call has nothing more to copy every
entry has been reported once. -/
theorem scan_complete {ops : List ScanOp} {contents : List DirectoryContentInfo}
    (hsafe : Lib.SafeRun Scan.exec Scan.Steady ops ⟨contents, 0, []⟩)
    (hrun : Lib.runOps Scan.exec ops ⟨contents, 0, []⟩ = some s) :
    ∀ writable len r copied, s.call writable len = some (r, copied) →
      Copies writable len 0 (s.entries.drop s.directoryOffset) r copied ∧
      (r = .ok () → copied = [] → (s.entries.map (·.name)).Nodup →
        ∀ info ∈ s.entries, (s.reported.map (·.name)).count info.name = 1) := by
  have hinv : s.Inv := by
    refine Lib.SafeRun.invariant (fun op t t' hop hstep ht => ht.exec hop hstep) hsafe ?_ hrun
    exact ⟨Nat.zero_le _, rfl⟩
  intro writable len r copied hcall
  have hcopies := hinv.call hcall
  refine ⟨hcopies, fun hok hnil hnodup info hinfo => ?_⟩
  rw [hinv.reported, take_of_length_le (drop_eq_nil_iff.mp (hcopies.done hok hnil rfl))]
  exact count_eq_one_of_mem hnodup (mem_map_of_mem hinfo)

end Scans

/-- A directory with two files. -/
def twoFiles : List DirectoryContentInfo := [⟨['a'], .file, 5⟩, ⟨['b'], .file, 6⟩]

/-- A file of two is reported once. -/
theorem scan_complete_twoFiles :
    ∃ s, Lib.runOps Scan.exec [.getdents64 (fun _ _ => true) 96] ⟨twoFiles, 0, []⟩ = some s ∧
      (s.reported.map (·.name)).count ['b'] = 1 := by
  refine ⟨⟨twoFiles, 4, withDotEntries twoFiles⟩, by decide +kernel, ?_⟩
  refine (@scan_complete _ [.getdents64 (fun _ _ => true) 96] twoFiles
    ⟨fun _ _ _ => rfl, by split <;> trivial⟩ (by decide +kernel) (fun _ _ => true) 24 _ _ rfl).2 rfl
    rfl (by decide) ⟨['b'], .file, 6⟩ (by decide)

/-- File `a` is removed after it has been reported: the next call copies nothing, and `b` has not
been reported. A call that fails at its second record has passed the first one over. -/
theorem removal_skips_entry :
    (∃ s, Lib.runOps Scan.exec [.getdents64 (fun _ _ => true) 72, .change (twoFiles.drop 1)]
        ⟨twoFiles, 0, []⟩ = some s ∧ s.reported.map (·.name) = [['.'], ['.', '.'], ['a']] ∧
      s.call (fun _ _ => true) 72 = some (.ok (), []) ∧ s.contents = [⟨['b'], .file, 6⟩]) ∧
    Lib.runOps Scan.exec [.getdents64 (fun start _ => start = 0) 72] ⟨twoFiles, 0, []⟩ =
      some ⟨twoFiles, 1, []⟩ := by
  refine ⟨⟨⟨twoFiles.drop 1, 3, (withDotEntries twoFiles).take 3⟩, ?_, ?_, rfl, rfl⟩, ?_⟩ <;>
    decide +kernel

end Seele.Filesystem
