import Seele.Ext4.LookupMaps
import Mathlib.Logic.Function.Basic

/-!
# The lookup cache of ext4

`lookup_child` looks for a name in a cache before it looks into the directory. The cache is filled
by lookups and by the calls that create an entry, but also by operations on handles that are open:
these enter the inode under the name and the directory it was opened in. `Coherent` says that the
cache holds nothing that the directories do not. The calls on directories keep it, and so does an
operation on a handle whose name still stands for its inode; `run_found` is what this means for
`get`.

The directories are maps from names to inode numbers, and each call of ext4plus may fail.
-/

namespace Seele.Ext4

open Lib Function

/-- The names for which `DirEntryName::try_from` succeeds; it takes those that `Dir::init`
enters. -/
structure DirEntryNames where
  valid : String → Bool
  dot : valid "."
  dotdot : valid ".."

/-- The directories, and the inodes in use. -/
structure Disk where
  entries : Key → Option ℕ
  kinds : ℕ → Option Kind

variable (names : DirEntryNames) (d : Disk)

/-- `Dir::link`. -/
def Disk.link (k : Key) (inode : ℕ) : Disk :=
  { d with entries := update d.entries k (some inode) }

/-- There is a directory for the entry, which has a name that a directory can hold. -/
def Disk.Accepts (k : Key) : Prop := d.kinds k.1 = some .directory ∧ names.valid k.2

instance (k : Key) : Decidable (d.Accepts names k) := inferInstanceAs (Decidable (_ ∧ _))

/-- An inode that is not in use any more has no entries. -/
def Disk.free (inode : ℕ) : Disk :=
  ⟨fun k => if k.1 = inode then none else d.entries k, update d.kinds inode none⟩

/-- `Dir::unlink`, which frees an inode that has no other name. -/
def Disk.unlink (k : Key) (inode : ℕ) (last : Bool) : Disk :=
  let d := { d with entries := update d.entries k none }
  if last then d.free inode else d

/-- A new inode; a directory starts with the entries that `Dir::init` makes. -/
def Disk.allocate (inode parent : ℕ) (kind : Kind) : Disk :=
  let d := { d with kinds := update d.kinds inode (some kind) }
  if kind = .directory then (d.link (inode, ".") inode).link (inode, "..") parent else d

/-- A call of ext4plus that `rename` makes. -/
inductive Call where
  | link (k : Key) (inode : ℕ)
  | unlink (k : Key) (inode : ℕ) (last : Bool)

/-- What a call does to the directories. -/
def Call.apply : Call → Disk
  | link k inode => if d.Accepts names k then d.link k inode else d
  | unlink k inode last => d.unlink k inode last

/-- An open file, directory or symlink, with the name and the directory it was opened in. -/
structure Handle where
  key : Key
  inode : ℕ
  kind : Kind

/-- The file system. -/
structure Mount where
  disk : Disk
  cache : LookupCacheState ℕ
  handles : List Handle

/-- What an operation on a handle does to the cache. -/
inductive Effect where
  | insert | clear | keep
deriving DecidableEq

/-- The calls of `update_lookup_cache`, `lookup_cache_insert_raw` and `lookup_cache_clear`. Those
that change the entries of a directory are steps of their own. -/
def Kind.effect : Kind → Op → Effect
  | _, .setTimes .. | .file, .linkTo => .clear
  | .file, .removeXattr _ => .keep
  | .directory, .chmod .. | .directory, .chown .. => .insert
  | .directory, _ => .keep
  | .file, _ | .symlink, _ => .insert

/-- A step: a call on the directory with a number, or on a handle. `ok` says whether the calls of
ext4plus succeed, and `last` whether ext4plus finds no other name of the inode. -/
inductive Step where
  | get (k : Key)
  | create (k : Key) (inode : ℕ) (kind : Kind) (ok : Bool)
  | delete (k : Key) (ok last : Bool)
  | rename (calls : List Call)
  | link (k : Key) (inode : ℕ) (ok : Bool)
  | io (handle : ℕ) (op : Op) (ok : Bool)

/-- What `lookup_child` finds. -/
def Mount.found (m : Mount) (k : Key) : Option ℕ :=
  match m.cache.get k with
  | some inode => some inode
  | none => if names.valid k.2 then m.disk.entries k else none

/-- One step. -/
def Mount.exec (step : Step) (m : Mount) : Option Mount :=
  match step with
  | .get k =>
    match m.found names k with
    | none => some m
    | some inode => some { m with
        cache := if (m.cache.get k).isSome then m.cache else m.cache.insert k inode
        handles := m.handles ++ [⟨k, inode, (m.disk.kinds inode).getD .file⟩] }
  | .create k inode kind ok =>
    -- ext4plus hands out inodes that are not in use; `create` unwraps the name
    if m.disk.kinds inode ≠ none ∨ kind ≠ .symlink ∧ ¬ names.valid k.2 then none
    else if ok ∧ m.disk.Accepts names k then some { m with
      disk := (m.disk.allocate inode k.1 kind).link k inode
      cache := m.cache.insert k inode }
    else some m
  | .delete k ok last =>
    match m.disk.entries k with
    | none => some m
    | some inode =>
      if m.disk.kinds inode = some .directory then
        some (if ok then { m with disk := m.disk.unlink k inode true, cache := .clear } else m)
      else some { m with
        cache := m.cache.remove k
        disk := if ok then m.disk.unlink k inode last else m.disk }
  -- the calls that were reached before an error, if there is one
  | .rename calls => some { m with disk := calls.foldl (Call.apply names) m.disk, cache := .clear }
  | .link k inode ok =>
    some (if ok ∧ m.disk.Accepts names k then
      { m with disk := m.disk.link k inode, cache := .clear } else m)
  | .io handle op ok =>
    match m.handles[handle]? with
    | none => some m
    | some h =>
      if ok ∧ h.kind.offers op then
        match h.kind.effect op with
        | .insert => some { m with cache := m.cache.insert h.key h.inode }
        | .clear => some { m with cache := .clear }
        | .keep => some m
      else some m

/-- An operation that fills the cache goes through a handle whose name stands for its inode. -/
def Named (step : Step) (m : Mount) : Prop :=
  match step with
  | .io handle op ok => ∀ h ∈ m.handles[handle]?, ok → h.kind.offers op →
      h.kind.effect op = .insert → m.disk.entries h.key = some h.inode
  | _ => True

instance (step : Step) (m : Mount) : Decidable (Named step m) := by
  unfold Named
  cases step <;> infer_instance

/-- Entries are in directories and have names that directories can hold. -/
def Disk.WellFormed : Prop := ∀ k n, d.entries k = some n → d.Accepts names k

/-- The cache holds entries of the directories. -/
structure Mount.Coherent (m : Mount) : Prop where
  disk : m.disk.WellFormed names
  cache : ∀ k n, m.cache.get k = some n → m.disk.entries k = some n

variable {names} {d} {k : Key} {n : ℕ}

/-- An entry is added. -/
theorem Disk.WellFormed.link (h : d.WellFormed names) (hk : d.Accepts names k) :
    (d.link k n).WellFormed names := by
  intro j m (hj : update d.entries k (some n) j = some m)
  by_cases hjk : j = k
  · exact hjk ▸ hk
  · rw [update_of_ne hjk] at hj
    exact h j m hj

/-- An entry is removed. -/
theorem Disk.WellFormed.unlink (h : d.WellFormed names) (last : Bool) :
    (d.unlink k n last).WellFormed names := by
  intro j m hj
  have hold : ∀ {i}, update d.entries k none j = some i → d.entries j = some i := by
    intro i hi
    by_cases hjk : j = k
    · rw [hjk, update_self] at hi
      cases hi
    · rwa [update_of_ne hjk] at hi
  cases last with
  | false => exact h j m (hold hj)
  | true =>
  obtain ⟨hjn, hj⟩ : j.1 ≠ n ∧ update d.entries k none j = some m := by
    simpa [Disk.unlink, Disk.free] using hj
  obtain ⟨hdir, hname⟩ := h j m (hold hj)
  exact ⟨(update_of_ne hjn ..).trans hdir, hname⟩

/-- The other entries stay. -/
theorem Disk.unlink_of_ne {j : Key} (hjk : j ≠ k) (hj : j.1 ≠ n) (last : Bool) :
    (d.unlink k n last).entries j = d.entries j := by
  cases last with
  | false => exact update_of_ne hjk ..
  | true => exact (if_neg hj).trans (update_of_ne hjk ..)

/-- The calls keep the disk well formed. -/
theorem Disk.WellFormed.calls (h : d.WellFormed names) (calls : List Call) :
    (calls.foldl (Call.apply names) d).WellFormed names := by
  induction calls generalizing d with
  | nil => exact h
  | cons call calls ih =>
  refine ih ?_
  cases call with
  | link k n =>
    rw [Call.apply]
    split_ifs with hk
    · exact h.link hk
    · exact h
  | unlink k n last => exact h.unlink last

/-- An inode is allocated. -/
theorem Disk.allocate_spec (parent : ℕ) (kind : Kind) (h : d.WellFormed names)
    (hfree : d.kinds n = none) : (d.allocate n parent kind).WellFormed names ∧
      (∀ j m, d.entries j = some m → (d.allocate n parent kind).entries j = some m) ∧
      ∀ j, d.Accepts names j → (d.allocate n parent kind).Accepts names j := by
  have hother : ∀ j, d.Accepts names j → j.1 ≠ n := by
    rintro j ⟨hdir, -⟩ rfl
    rw [hfree] at hdir
    cases hdir
  have haccepts : ∀ j, d.Accepts names j →
      Disk.Accepts names { d with kinds := update d.kinds n (some kind) } j := fun j hj =>
    ⟨(update_of_ne (hother j hj) ..).trans hj.1, hj.2⟩
  unfold Disk.allocate
  simp only
  split_ifs with hkind
  · -- the entries that the directory starts with
    subst hkind
    refine ⟨.link (.link (fun j m hj => haccepts j (h j m hj)) ?_) ?_, fun j m hj => ?_, haccepts⟩
    · exact ⟨update_self .., names.dot⟩
    · exact ⟨update_self .., names.dotdot⟩
    · have hjn := hother j (h j m hj)
      simp only [Disk.link]
      rw [update_of_ne, update_of_ne, hj] <;> exact fun hjk => hjn (congrArg Prod.fst hjk)
  · exact ⟨fun j m hj => haccepts j (h j m hj), fun j m hj => hj, haccepts⟩

variable {m : Mount}

/-- The cache is cleared. -/
theorem Mount.Coherent.clear (h : d.WellFormed names) :
    Mount.Coherent names { m with disk := d, cache := .clear } :=
  ⟨h, nofun⟩

/-- An entry that is on the disk may be entered into the cache; nothing else in the cache can be
under its key. -/
theorem Mount.Coherent.insert (hd : d.WellFormed names) (hk : d.entries k = some n)
    (h : ∀ j i, j ≠ k → m.cache.get j = some i → d.entries j = some i) :
    Mount.Coherent names { m with disk := d, cache := m.cache.insert k n } := by
  refine ⟨hd, fun j i hj => ?_⟩
  have hj := (LookupCacheState.get_exec (.insert k n)).symm.trans hj
  dsimp only at hj
  split_ifs at hj with _ hkj
  · rw [← hkj, hk, hj]
  · exact h j i (Ne.symm hkj) hj

/-- One entry is taken from the cache. -/
theorem Mount.Coherent.remove (hd : d.WellFormed names)
    (h : ∀ j i, j ≠ k → m.cache.get j = some i → d.entries j = some i) :
    Mount.Coherent names { m with disk := d, cache := m.cache.remove k } := by
  refine ⟨hd, fun j i hj => ?_⟩
  have hj := Maps.get_remove.symm.trans hj
  split_ifs at hj with hkj
  exact h j i (Ne.symm hkj) hj

/-- What is found is what the disk has. -/
theorem Mount.Coherent.found (h : m.Coherent names) (k : Key) :
    m.found names k = m.disk.entries k := by
  unfold Mount.found
  cases hc : m.cache.get k with
  | some n => exact (h.cache k n hc).symm
  | none =>
  simp only
  split_ifs with hname
  · rfl
  · cases hk : m.disk.entries k with
    | none => rfl
    | some n => exact absurd (h.disk k n hk).2 hname

/-- A step keeps the cache coherent. -/
theorem Mount.Coherent.step {step : Step} {m' : Mount} (hnamed : Named step m)
    (hstep : m.exec names step = some m') (h : m.Coherent names) : m'.Coherent names := by
  cases step <;> simp only [exec] at hstep
  case get k =>
    simp only [h.found] at hstep
    cases hk : m.disk.entries k with
    | none =>
      rw [hk] at hstep
      cases hstep
      exact h
    | some n =>
    rw [hk] at hstep
    cases hstep
    split_ifs
    · exact ⟨h.disk, h.cache⟩
    · obtain ⟨hd, hc⟩ := Mount.Coherent.insert h.disk hk fun j i _ hj => h.cache j i hj
      exact ⟨hd, hc⟩
  case create k n kind ok =>
    split_ifs at hstep with hbad hok <;> cases hstep
    · obtain ⟨hd, hold, haccepts⟩ :=
        Disk.allocate_spec k.1 kind h.disk (not_not.mp (not_or.mp hbad).1)
      refine .insert (hd.link (haccepts k hok.2)) (update_self ..) fun j i hjk hj => ?_
      exact (update_of_ne hjk ..).trans (hold j i (h.cache j i hj))
    · exact h
  case delete k ok last =>
    split at hstep
    · cases hstep
      exact h
    split_ifs at hstep with hdir hok <;> cases hstep
    · exact .clear (h.disk.unlink true)
    · exact h
    · -- the entry leaves the cache before it leaves the directory
      refine .remove (h.disk.unlink last) fun j i hjk hj => ?_
      have hj := h.cache j i hj
      refine (Disk.unlink_of_ne hjk ?_ last).trans hj
      rintro rfl
      exact hdir (h.disk j i hj).1
    · exact .remove h.disk fun j i _ hj => h.cache j i hj
  case rename calls =>
    cases hstep
    exact .clear (h.disk.calls calls)
  case link k n ok =>
    cases hstep
    split_ifs with hok
    · exact .clear (h.disk.link hok.2)
    · exact h
  case io handle op ok =>
    split at hstep
    · cases hstep
      exact h
    rename_i g hg
    split_ifs at hstep with hok
    · split at hstep <;> cases hstep
      · exact .insert h.disk (hnamed g hg hok.1 hok.2 ‹_›) fun j i _ hj => h.cache j i hj
      · exact .clear h.disk
      · exact h
    · cases hstep
      exact h

/-- A file system that was just mounted. -/
structure Mount.Fresh (names : DirEntryNames) (m : Mount) : Prop where
  disk : m.disk.WellFormed names
  cache : m.cache = .clear
  handles : m.handles = []

/-- In every run in which the operations that fill the cache go through handles whose names stand
for their inodes, a lookup finds what the directory has, in every state. -/
theorem run_found {m m' : Mount} (hfresh : m.Fresh names) (steps : List Step)
    (hnamed : SafeRun (Mount.exec names) Named steps m)
    (hrun : runOps (Mount.exec names) steps m = some m') (k : Key) :
    m'.found names k = m'.disk.entries k := by
  have hinit : m.Coherent names := by
    refine ⟨hfresh.disk, fun j i hj => ?_⟩
    rw [hfresh.cache] at hj
    cases hj
  have hcoherent := SafeRun.invariant (I := Mount.Coherent names)
    (fun step t t' hstep hexec ht => ht.step hstep hexec) hnamed hinit hrun
  exact hcoherent.found k

/-- An empty root directory. -/
def emptyMount : Mount :=
  ⟨⟨fun _ => none, fun n => if n = 2 then some .directory else none⟩, .clear, []⟩

/-- The names that fit into an entry, without `/` and the zero character. -/
def plainNames : DirEntryNames where
  valid name := name ≠ "" ∧ name.utf8ByteSize ≤ 255 ∧ name.toList.all fun c => c ≠ '/' ∧ c ≠ '\x00'
  dot := by decide +kernel
  dotdot := by decide +kernel

/-- The empty mount is fresh. -/
theorem emptyMount_fresh : emptyMount.Fresh plainNames := ⟨nofun, rfl, rfl⟩

/-- A deleted file is not found. -/
theorem run_found_deleted : ∃ m',
    runOps (Mount.exec plainNames) [.create (2, "f") 11 .file true, .get (2, "f"),
      .io 0 (.read 5 0 1) true, .delete (2, "f") true true] emptyMount = some m' ∧
    m'.found plainNames (2, "f") = m'.disk.entries (2, "f") :=
  ⟨_, rfl, run_found emptyMount_fresh [.create (2, "f") 11 .file true, .get (2, "f"),
    .io 0 (.read 5 0 1) true, .delete (2, "f") true true] (by decide +kernel) rfl _⟩

/-- A file with two names is opened under one of them. That name is deleted and the file is read:
the name is found again. -/
theorem read_enters_deleted_name : ∃ m',
    runOps (Mount.exec plainNames) [.create (2, "f") 11 .file true, .link (2, "g") 11 true,
      .get (2, "f"), .delete (2, "f") true false, .io 0 (.read 5 0 1) true] emptyMount = some m' ∧
    m'.found plainNames (2, "f") = some 11 ∧ m'.disk.entries (2, "f") = none :=
  ⟨_, rfl, by decide +kernel⟩

end Seele.Ext4
