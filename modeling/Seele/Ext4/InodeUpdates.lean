import Seele.Lib.Cmd
import Seele.Lib.GuardedRun
import Mathlib.Data.Int.Notation
import Mathlib.Data.Nat.Notation
import Mathlib.Tactic.SplitIfs

/-!
# Updates of an ext4 inode through several handles

Every handle on an ext4 inode holds a copy of it. An operation changes a copy in memory and stores
the whole of it, and it is either a copy that `refresh_inode` reads first or the one that the handle
holds. `applied` is the machine that has no handles, where an operation acts on the stored inode.
`run_applied` says that the handles make no difference in a run in which an operation that does not
read the inode goes through a handle whose copy is the stored inode.

What ext4plus does with an inode is a parameter, and it fails without effect.
-/

namespace Seele.Ext4

open Lib

/-- The errors of the file system; the last one stands for those of ext4plus. -/
inductive FSError where
  | notFound | alreadyExists | directoryNotEmpty | noSpace | invalidArguments | pathTooLong
  | operationNotSupported | other
  | ext4 (code : ℕ)
deriving DecidableEq, Repr

/-- An inode in memory. -/
structure Inode where
  size : ℕ
  blocks : List ℕ
  mode : ℕ
  uid : ℕ
  gid : ℕ
  links : ℕ
  atime : ℕ
  mtime : ℕ
  ctime : ℕ
  flags : ℕ
  xattrs : List (String × List UInt8)
deriving DecidableEq

/-- The calls of ext4plus. The first ones return the inode that they store, and the last ones
whether a store of the inode fails. -/
structure Ext4plus where
  writeAt : Inode → List UInt8 → ℕ → Except FSError (ℕ × Inode)
  truncate : Inode → ℕ → Except FSError Inode
  link : Inode → String → Except FSError Inode
  linked : Inode → Except FSError Inode
  symlink : Inode → String → String → Except FSError Inode
  unlink : Inode → String → Except FSError Inode
  /-- Whether an entry is a directory, and whether it is an empty one. -/
  getEntry : Inode → String → Except FSError (Bool × Bool)
  validName : String → Bool
  readAt : Inode → ℕ → ℕ → Except FSError ℕ
  write : Inode → Except FSError Unit
  xattr : Inode → String → Except FSError Unit

/-- The copy of the inode in memory that an operation works on, and the stored inode. -/
structure Buffer where
  inode : Inode
  stored : Inode

variable (lib : Ext4plus)

/-- A call of ext4plus returns or fails. -/
def call {α : Type} : Except FSError α → Cmd FSError Buffer α
  | .error e => Cmd.throw e
  | .ok a => pure a

/-- A change of the copy in memory. -/
def set (f : Inode → Inode) : Cmd FSError Buffer Unit :=
  Cmd.modify fun b => { b with inode := f b.inode }

/-- The copy in memory and the stored inode are replaced. -/
def put (inode : Inode) : Cmd FSError Buffer Unit := Cmd.modify fun _ => ⟨inode, inode⟩

/-- `Inode::write`. -/
def write : Cmd FSError Buffer Unit := do
  let b ← Cmd.get
  call (lib.write b.inode)
  put b.inode

/-- `file::write_at`. -/
def writeAt (bytes : List UInt8) (offset : ℕ) : Cmd FSError Buffer ℕ := do
  let b ← Cmd.get
  let (written, inode) ← call (lib.writeAt b.inode bytes offset)
  put inode
  return written

/-- `duration_from_parts`, in nanoseconds. -/
def durationFromParts (sec nsec : ℤ) : Except FSError ℕ :=
  if sec < 0 ∨ nsec < 0 ∨ 1000000000 ≤ nsec then .error .invalidArguments
  else .ok (sec.toNat * 1000000000 + nsec.toNat)

/-- `write_zero_range`. -/
def writeZeroRange (offset last : ℕ) : Cmd FSError Buffer Unit :=
  if _h : offset < last then do
    let written ← writeAt lib (List.replicate (min (last - offset) 4096) 0) offset
    if _hw : written = 0 then Cmd.throw .noSpace else writeZeroRange (offset + written) last
  else pure ()
termination_by last - offset

/-- An operation on an inode. The times are those that `FileTimes::now` returns, as durations. -/
inductive Op where
  | read (now offset len : ℕ)
  | write (now : ℕ) (buffer : List UInt8) (offset : ℕ)
  | truncate (length : ℕ)
  | allocate (mode offset len : ℕ)
  | linkTo
  | setLinuxFileAttributes (attributes : ℕ)
  | chmod (now mode : ℕ)
  | chown (now uid gid : ℕ)
  | setTimes (atime mtime ctime : ℤ × ℤ)
  | setXattr (name : String) (value : List UInt8) (create replace : Bool)
  | removeXattr (name : String)
  | create (name : String)
  | createSymlink (name target : String)
  | delete (name : String)
deriving DecidableEq

/-- What the operations do with the inode they have in memory. -/
def Op.body : Op → Cmd FSError Buffer Unit
  | read now offset len => do
    let b ← Cmd.get
    let _ ← call (lib.readAt b.inode offset len)
    set fun i => { i with atime := now }
    Ext4.write lib
  | write now buffer offset => do
    let written ← writeAt lib buffer offset
    if written = 0 then if buffer ≠ [] then Cmd.throw .noSpace else pure ()
    else do
      set fun i => { i with mtime := now, ctime := now }
      Ext4.write lib
  | truncate length => do
    let b ← Cmd.get
    -- the loop over the tail of the last granule has one turn
    if length < b.inode.size ∧ length % 4096 ≠ 0 then do
      let tailEnd := min b.inode.size ((length / 4096 + 1) * 4096)
      let _ ← writeAt lib (List.replicate (tailEnd - length) 0) length
    let b ← Cmd.get
    let inode ← call (lib.truncate b.inode length)
    put inode
  | allocate mode offset len => do
    if 0x10000000000000000 ≤ offset + len then Cmd.throw .other
    if mode &&& 2 ≠ 0 ∧ mode ≠ 3 then Cmd.throw .invalidArguments
    if mode = 3 ∨ mode &&& 0x78 ≠ 0 then Cmd.throw .operationNotSupported
    if mode = 0 ∧ (offset % 4096 ≠ 0 ∨ len % 4096 ≠ 0 ∨ 0x80000 < len) then
      Cmd.throw .operationNotSupported
    let b ← Cmd.get
    if mode &&& 1 = 0 ∧ b.inode.size < offset + len then
      writeZeroRange lib b.inode.size (offset + len)
  | linkTo => do
    let b ← Cmd.get
    let inode ← call (lib.linked b.inode)
    put inode
  | setLinuxFileAttributes attributes => do
    set fun i => { i with flags := (i.flags - (i.flags &&& 0x30)) ||| (attributes &&& 0x30) }
    Ext4.write lib
  | chmod now mode => do
    set fun i => { i with mode := (i.mode &&& 0o170000) ||| (mode &&& 0o7777), ctime := now }
    Ext4.write lib
  | chown now uid gid => do
    set fun i => { i with
      uid := if uid ≠ 0xffffffff then uid else i.uid
      gid := if gid ≠ 0xffffffff then gid else i.gid
      ctime := now }
    Ext4.write lib
  | setTimes atime mtime ctime => do
    let atime ← call (durationFromParts atime.1 atime.2)
    set fun i => { i with atime }
    let mtime ← call (durationFromParts mtime.1 mtime.2)
    set fun i => { i with mtime }
    let ctime ← call (durationFromParts ctime.1 ctime.2)
    set fun i => { i with ctime }
    Ext4.write lib
  | setXattr name value mustCreate mustReplace => do
    let b ← Cmd.get
    let found := (b.inode.xattrs.lookup name).isSome
    if mustCreate ∧ found then Cmd.throw .alreadyExists
    if mustReplace ∧ ¬ found then Cmd.throw .notFound
    call (lib.xattr b.inode name)
    put { b.inode with xattrs := (name, value) :: b.inode.xattrs.filter (·.1 ≠ name) }
  | removeXattr name => do
    let b ← Cmd.get
    call (lib.xattr b.inode name)
    put { b.inode with xattrs := b.inode.xattrs.filter (·.1 ≠ name) }
  | create name => do
    let b ← Cmd.get
    if lib.validName name then do
      let inode ← call (lib.link b.inode name)
      put inode
    else Cmd.panic
  | createSymlink name target => do
    let b ← Cmd.get
    if lib.validName name then do
      let inode ← call (lib.symlink b.inode name target)
      put inode
    else Cmd.throw .pathTooLong
  | delete name => do
    let b ← Cmd.get
    if lib.validName name then do
      let (isDir, empty) ← call (lib.getEntry b.inode name)
      if isDir ∧ ¬ empty then Cmd.throw .directoryNotEmpty
      let inode ← call (lib.unlink b.inode name)
      put inode
    else Cmd.throw .other

/-- What kind of handles an inode has. -/
inductive Kind where
  | file | directory | symlink
deriving DecidableEq

/-- The operations of the handles. -/
def Kind.offers : Kind → Op → Bool
  | .file, .create _ | .file, .createSymlink .. | .file, .delete _ => false
  | .file, _ => true
  | .directory, .read .. | .directory, .write .. | .directory, .truncate _ => false
  | .directory, .allocate .. | .directory, .linkTo | .directory, .setLinuxFileAttributes _ => false
  | .directory, _ => true
  | .symlink, .chown .. | .symlink, .setTimes .. | .symlink, .setXattr .. => true
  | .symlink, .removeXattr _ => true
  | .symlink, _ => false

/-- The operations that start with `refresh_inode`. The others work on the copy of the handle. -/
def Kind.refreshes : Kind → Op → Bool
  | .file, .removeXattr _ => false
  | .file, _ => true
  | .directory, .create _ | .directory, .createSymlink .. | .directory, .delete _ => true
  | _, _ => false

/-- The operations that change the copy of the handle in place, and so also if they fail. -/
def Kind.inPlace : Kind → Op → Bool
  | .symlink, _ | .file, .removeXattr _ => true
  | _, _ => false

/-- The operations that end with the copy they worked on in the handle. That of a directory is
left as it was by `create_symlink`, and by `delete` unless the entry is a directory. -/
def Kind.replaces (kind : Kind) (op : Op) (before : Inode) : Bool :=
  match kind, op with
  | .directory, .createSymlink .. => false
  | .directory, .delete name => lib.getEntry before name = .ok (true, true)
  | _, _ => true

/-- A stored inode, and the copies of it that its handles hold. -/
structure State where
  stored : Inode
  cached : ℕ → Inode

variable (kind : Kind)

/-- An operation through a handle. -/
def exec (step : ℕ × Op) (s : State) : Option State :=
  if kind.offers step.2 then
    let inode := if kind.refreshes step.2 then s.stored else s.cached step.1
    (step.2.body lib ⟨inode, s.stored⟩).map fun (result, b) =>
      let keep := kind.inPlace step.2 ∨ result matches .ok _ ∧ kind.replaces lib step.2 inode
      ⟨b.stored, if keep then fun h => if h = step.1 then b.inode else s.cached h else s.cached⟩
  else some s

/-- The operation on the stored inode itself. -/
def applied (op : Op) (stored : Inode) : Option Inode :=
  if kind.offers op then (op.body lib ⟨stored, stored⟩).map (·.2.stored) else some stored

/-- What a change of the metadata leaves alone. -/
def Op.frame : Op → Inode → Inode
  | read .., i => { i with atime := 0 }
  | setLinuxFileAttributes _, i => { i with flags := 0 }
  | chmod .., i => { i with mode := 0, ctime := 0 }
  | chown .., i => { i with uid := 0, gid := 0, ctime := 0 }
  | setTimes .., i => { i with atime := 0, mtime := 0, ctime := 0 }
  | setXattr .., i | removeXattr _, i => { i with xattrs := [] }
  -- the rest is up to ext4plus
  | _, _ => ⟨0, [], 0, 0, 0, 0, 0, 0, 0, 0, []⟩

/-- The operation reads the inode, or the handle has it as it is stored. -/
def UpToDate (step : ℕ × Op) (s : State) : Prop :=
  kind.refreshes step.2 ∨ s.cached step.1 = s.stored

instance (step : ℕ × Op) (s : State) : Decidable (UpToDate kind step s) :=
  inferInstanceAs (Decidable (_ ∨ _))

variable {lib kind}

/-- An up-to-date step is applied. -/
theorem applied_of_exec {step : ℕ × Op} {s s' : State} (hfresh : UpToDate kind step s)
    (h : exec lib kind step s = some s') : applied lib kind step.2 s.stored = some s'.stored := by
  unfold exec at h
  unfold applied
  by_cases hoffers : kind.offers step.2
  · rw [if_pos hoffers] at h ⊢
    have hinode : (if kind.refreshes step.2 then s.stored else s.cached step.1) = s.stored := by
      obtain hread | hsame := hfresh
      · rw [if_pos hread]
      · rw [hsame, ite_self]
    simp only [hinode] at h
    obtain ⟨b, hb, rfl⟩ := Option.map_eq_some_iff.mp h
    rw [hb]
    rfl
  · rw [if_neg hoffers] at h ⊢
    cases h
    rfl

variable {b b' : Buffer}

/-- The inode is stored, or nothing is. -/
theorem write_stored {r : Except FSError Unit}
    (h : write lib b = some (r, b')) : b'.stored = b.inode ∨ b'.stored = b.stored := by
  change (call (lib.write b.inode) >>= fun _ => put b.inode) b = _ at h
  cases hw : lib.write b.inode with
  | error e =>
    rw [hw] at h
    cases h
    exact .inr rfl
  | ok u =>
    rw [hw] at h
    cases h
    exact .inl rfl

/-- The call fails, or the rest goes on. -/
theorem call_bind {α β : Type} {x : Except FSError α} {f : α → Cmd FSError Buffer β}
    {r : Except FSError β} (h : (call x >>= f) b = some (r, b')) :
    (∃ a, x = .ok a ∧ f a b = some (r, b')) ∨ b' = b := by
  cases x with
  | error e =>
    cases h
    exact .inr rfl
  | ok a => exact .inl ⟨a, rfl, h⟩

/-- The other fields stay. -/
theorem frame_applied {op : Op} {i i' : Inode} (h : applied lib kind op i = some i') :
    op.frame i' = op.frame i := by
  unfold applied at h
  split_ifs at h
  swap
  · cases h
    rfl
  obtain ⟨⟨r, b⟩, hbody, rfl⟩ := Option.map_eq_some_iff.mp h
  cases op with
  | read now offset len =>
    obtain ⟨_, -, hrest⟩ | rfl := call_bind hbody
    · obtain hw | hw := write_stored hrest <;> simp only [hw, Op.frame]
    · rfl
  | setLinuxFileAttributes _ | chmod _ _ | chown _ _ _ =>
    obtain hw | hw := write_stored hbody <;> simp only [hw, Op.frame]
  | setTimes atime mtime ctime =>
    -- a time that is refused leaves the stored inode as it is
    obtain ⟨_, -, hbody⟩ | rfl := call_bind hbody
    · obtain ⟨_, -, hbody⟩ | rfl := call_bind hbody
      · obtain ⟨_, -, hbody⟩ | rfl := call_bind hbody
        · obtain hw | hw := write_stored hbody <;> simp only [hw, Op.frame]
        · rfl
      · rfl
    · rfl
  | setXattr name value create replace =>
    obtain ⟨-, -, rfl⟩ | ⟨-, hbody⟩ := Cmd.check_eq_some hbody
    · rfl
    obtain ⟨-, -, rfl⟩ | ⟨-, hbody⟩ := Cmd.check_eq_some hbody
    · rfl
    obtain ⟨_, -, hput⟩ | rfl := call_bind hbody
    · cases hput
      rfl
    · rfl
  | removeXattr name =>
    obtain ⟨_, -, hput⟩ | rfl := call_bind hbody
    · cases hput
      rfl
    · rfl
  | write | truncate | allocate | linkTo | create | createSymlink | delete => rfl

/-- In every run whose operations read the inode or go through a handle that is up to date, the
stored inode is what the operations make of it, as if there were no handles. An operation changes
what it is about and nothing else. -/
theorem run_applied (steps : List (ℕ × Op)) {s s' : State}
    (hfresh : SafeRun (exec lib kind) (UpToDate kind) steps s)
    (hrun : runOps (exec lib kind) steps s = some s') :
    runOps (applied lib kind) (steps.map Prod.snd) s.stored = some s'.stored ∧
      ∀ op i i', applied lib kind op i = some i' → op.frame i' = op.frame i := by
  refine ⟨?_, fun op i i' h => frame_applied h⟩
  induction steps generalizing s with
  | nil =>
    cases hrun
    rfl
  | cons step steps ih =>
  obtain ⟨t, ht, hrun⟩ := Option.bind_eq_some_iff.mp hrun
  obtain ⟨hstep, hrest⟩ := hfresh
  rw [ht] at hrest
  rw [List.map_cons, runOps, applied_of_exec hstep ht, Option.bind_some]
  exact ih hrest hrun

/-- ext4plus where nothing fails and a write only extends the file. -/
def plain : Ext4plus where
  writeAt i bytes offset :=
    .ok (bytes.length, { i with size := max i.size (offset + bytes.length) })
  truncate i length := .ok { i with size := length }
  link i _ := .ok i
  linked i := .ok { i with links := i.links + 1 }
  symlink i _ _ := .ok i
  unlink i _ := .ok i
  getEntry _ _ := .ok (false, false)
  validName _ := true
  readAt _ _ len := .ok len
  write _ := .ok ()
  xattr _ _ := .ok ()

/-- An empty file with an attribute. -/
def emptyFile : Inode := ⟨0, [], 0o100644, 0, 0, 1, 0, 0, 0, 0, [("user.a", [1])]⟩

/-- Two handles change one file. -/
theorem run_applied_two_handles : ∃ s',
    runOps (exec plain .file) [(0, .write 5 [1, 2, 3] 0), (1, .chmod 6 0o600)]
      ⟨emptyFile, fun _ => emptyFile⟩ = some s' ∧
    runOps (applied plain .file) [.write 5 [1, 2, 3] 0, .chmod 6 0o600] emptyFile =
      some s'.stored :=
  ⟨_, rfl, (run_applied [(0, .write 5 [1, 2, 3] 0), (1, .chmod 6 0o600)]
    (s := ⟨emptyFile, fun _ => emptyFile⟩) (by decide +kernel) rfl).1⟩

/-- One handle writes three bytes, and then another one, opened before, removes an attribute: the
size is back at zero. -/
theorem removeXattr_restores_size : ∃ s',
    runOps (exec plain .file) [(0, .write 5 [1, 2, 3] 0), (1, .removeXattr "user.a")]
      ⟨emptyFile, fun _ => emptyFile⟩ = some s' ∧ s'.stored.size = 0 ∧
    ∃ i, runOps (applied plain .file) [.write 5 [1, 2, 3] 0, .removeXattr "user.a"] emptyFile =
      some i ∧ i.size = 3 :=
  ⟨_, rfl, by decide +kernel, _, rfl, by decide +kernel⟩

end Seele.Ext4
