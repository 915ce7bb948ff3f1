import Seele.Lib.GuardedRun

/-!
# The seals of a memfd

Every call reads the seals, and then changes the file or the mappings. `memfd_add_seals` looks at
the processes one by one. Nothing checks `F_SEAL_FUTURE_WRITE` (`write_after_future_write`), and a
seal that comes between the check of a call and its effect does not stop it. `run_sealed` says that
the seals are respected in runs without either.
-/

namespace Seele.MemFd

open Lib List

/-- `MemFdSealFlags`. -/
structure MemFdSealFlags where
  sealed : Bool
  shrink : Bool
  grow : Bool
  write : Bool
  futureWrite : Bool
  deriving DecidableEq, Repr

/-- The union of two sets of seals. -/
def MemFdSealFlags.union (a b : MemFdSealFlags) : MemFdSealFlags :=
  ⟨a.sealed || b.sealed, a.shrink || b.shrink, a.grow || b.grow, a.write || b.write,
    a.futureWrite || b.futureWrite⟩

/-- `SparseFileData`: its length and its bytes. A page that is absent is zero. -/
structure SparseFileData where
  len : ℕ
  byte : ℕ → UInt8

/-- The calls that change the data: `write_data_at`, `truncate`, and `allocate` with its three modes
that are supported. -/
inductive Change where
  | write (offset : ℕ) (buffer : List UInt8)
  | truncate (length : ℕ)
  | allocate (keepSize : Bool) (offset len : ℕ)
  | punchHole (offset len : ℕ)

/-- The seals and the length allow the change. -/
def Change.Allowed (seals : MemFdSealFlags) (size : ℕ) : Change → Prop
  | write offset buffer =>
    offset + buffer.length < 0x10000000000000000 ∧
      ¬ (seals.write ∨ size < offset + buffer.length ∧ seals.grow)
  | truncate length => ¬ (length < size ∧ seals.shrink) ∧ ¬ (size < length ∧ seals.grow)
  | allocate keepSize offset len =>
    offset + len < 0x10000000000000000 ∧ ¬ (¬ keepSize ∧ size < offset + len ∧ seals.grow)
  | punchHole _ _ => ¬ seals.write

instance (seals : MemFdSealFlags) (size : ℕ) : ∀ c, Decidable (Change.Allowed seals size c)
  | .write .. => inferInstanceAs (Decidable (_ ∧ ¬ _))
  | .truncate .. => inferInstanceAs (Decidable (¬ _ ∧ ¬ _))
  | .allocate .. => inferInstanceAs (Decidable (_ ∧ ¬ _))
  | .punchHole .. => inferInstanceAs (Decidable (¬ _))

/-- The change is a write. -/
def Change.isWrite : Change → Bool
  | write .. => true
  | _ => false

/-- The seals allow the change, and none of them is for it without being looked at. -/
def Change.Respects (seals : MemFdSealFlags) (size : ℕ) (change : Change) : Prop :=
  change.Allowed seals size ∧ (seals.futureWrite → change.isWrite = false)

instance (seals : MemFdSealFlags) (size : ℕ) (change : Change) :
    Decidable (change.Respects seals size) :=
  inferInstanceAs (Decidable (_ ∧ _))

/-- `write_at`, `truncate`, `ensure_len` and `zero_range` of `SparseFileData`. -/
def Change.apply (data : SparseFileData) : Change → SparseFileData
  | write offset buffer =>
    ⟨if buffer = [] then data.len else max data.len (offset + buffer.length),
      fun i => if offset ≤ i ∧ i < offset + buffer.length then buffer.getD (i - offset) 0
        else data.byte i⟩
  | truncate length =>
    ⟨length, fun i => if length < data.len ∧ length ≤ i then 0 else data.byte i⟩
  | allocate keepSize offset len =>
    if keepSize then data else { data with len := max data.len (offset + len) }
  | punchHole offset len =>
    { data with byte := fun i => if offset ≤ i ∧ i < min (offset + len) data.len then 0
        else data.byte i }

/-- A page of a shared mapping: its process, and whether it can be written. -/
abbrev Mapping : Type := ℕ × Bool

/-- A memfd. A call that changes the data is past its check and holds the lock of the file, calls of
`Mmap` are past theirs, and `memfd_add_seals` still has to look at some processes. -/
structure System where
  seals : MemFdSealFlags
  allowSealing : Bool
  data : SparseFileData
  change : Option Change
  checked : List Mapping
  mappings : List Mapping
  mapped : ℕ → UInt8
  adding : Option (MemFdSealFlags × List ℕ)

open Seele.MemFd.System

/-- The steps between the locks. A store goes to the pages of the mappings; the way back to the file
is a write. `fdWritable` is `fd_writable`, and `processes` the table of processes. -/
inductive Step where
  | check (change : Change)
  | apply
  | mmap (pid : ℕ) (write fdWritable : Bool)
  | registerArea (index : ℕ)
  | mprotect (index : ℕ) (write fdWritable : Bool)
  | unmap (index : ℕ)
  | fork (parent child : ℕ)
  | store (pid offset : ℕ) (byte : UInt8)
  | addSeals (seals : MemFdSealFlags) (processes : List ℕ)
  | scan

/-- `fd_allows_shared_write`, if the mapping is to be written. -/
def System.allows (s : System) (write fdWritable : Bool) : Bool :=
  !write || fdWritable && !s.seals.write

/-- One step. There is none while another one holds a lock that it needs. -/
def System.exec (step : Step) (s : System) : Option System :=
  match step with
  | .check change =>
    if s.adding.isSome ∨ s.change.isSome then none
    else if change.Allowed s.seals s.data.len then some { s with change := some change }
    else some s
  | .apply => s.change.map fun change => { s with data := change.apply s.data, change := none }
  | .mmap pid write fdWritable =>
    if write ∧ s.adding.isSome then none
    else if s.allows write fdWritable then some { s with checked := (pid, write) :: s.checked }
    else some s
  | .registerArea index => s.checked[index]?.map fun mapping =>
    { s with checked := s.checked.eraseIdx index, mappings := mapping :: s.mappings }
  | .mprotect index write fdWritable =>
    if write ∧ s.adding.isSome then none
    else if s.allows write fdWritable then
      some { s with mappings := s.mappings.modify index fun mapping => (mapping.1, write) }
    else some s
  | .unmap index => some { s with mappings := s.mappings.eraseIdx index }
  | .fork parent child => some { s with mappings :=
      (s.mappings.filter (·.1 = parent)).map (fun mapping => (child, mapping.2)) ++ s.mappings }
  | .store pid offset byte =>
    if (pid, true) ∈ s.mappings then some { s with mapped := Function.update s.mapped offset byte }
    else none
  | .addSeals seals processes =>
    if s.adding.isSome then none
    else if s.allowSealing = false ∨ s.seals.sealed then some s
    else if seals.write then some { s with adding := some (seals, processes) }
    else some { s with seals := s.seals.union seals }
  | .scan =>
    match s.adding with
    | none => none
    | some (seals, []) => some { s with seals := s.seals.union seals, adding := none }
    | some (seals, pid :: pids) =>
      if (pid, true) ∈ s.mappings then some { s with adding := none }
      else some { s with adding := some (seals, pids) }

/-- What the checks let through is not a write or a mapping for writing after
`F_SEAL_FUTURE_WRITE`. Seals that are accepted allow the calls that are between their check and
their effect, and every process with a mapping for writing is in the table. A child that is forked
while the processes are looked at has no such mapping, or is still looked at. -/
def Safe (step : Step) (s : System) : Prop :=
  match step with
  | .check change =>
    change.Allowed s.seals s.data.len → change.Respects s.seals s.data.len
  | .mmap _ write fdWritable =>
    s.allows write fdWritable → write → s.seals.futureWrite = false
  | .mprotect index write fdWritable =>
    s.allows write fdWritable → write → s.mappings[index]?.all (·.2) ∨ s.seals.futureWrite = false
  | .addSeals seals processes => s.allowSealing → s.seals.sealed = false →
    s.change.all (·.Respects (s.seals.union seals) s.data.len) ∧
      (seals.write ∨ seals.futureWrite → ∀ mapping ∈ s.checked, mapping.2 = false) ∧
      (seals.write → ∀ mapping ∈ s.mappings, mapping.2 = true → mapping.1 ∈ processes)
  | .fork parent child =>
    (parent, true) ∈ s.mappings → s.adding.all fun adding => child ∈ adding.2
  | _ => True

instance : ∀ step s, Decidable (Safe step s)
  | .check _, _ | .mmap .., _ | .mprotect .., _ | .fork .., _ => inferInstanceAs (Decidable (_ → _))
  | .addSeals .., _ => inferInstanceAs (Decidable (_ → _ → _ ∧ (_ → _) ∧ (_ → _)))
  | .apply, _ | .registerArea _, _ | .unmap _, _ | .store .., _ | .scan, _ => .isTrue trivial

/-- What the seals promise of a step. -/
structure Respects (step : Step) (s s' : System) : Prop where
  union : s'.seals = s.seals.union s'.seals
  final : s.seals.sealed → s'.seals = s.seals
  write : s.seals.write → ∀ i < min s.data.len s'.data.len,
    s'.data.byte i = s.data.byte i ∧ s'.mapped i = s.mapped i
  shrink : s.seals.shrink → s.data.len ≤ s'.data.len
  grow : s.seals.grow → s'.data.len ≤ s.data.len
  noWrite : s.seals.futureWrite → ∀ offset buffer, s.change = some (.write offset buffer) →
    s'.data = s.data
  noMapping : s.seals.futureWrite → ∀ pid, (∀ parent, step ≠ .fork parent pid) →
    s'.mappings.count (pid, true) ≤ s.mappings.count (pid, true)

/-- What holds in all states of a run that is safe. -/
structure System.Sound (s : System) : Prop where
  change : ∀ change, s.change = some change → change.Respects s.seals s.data.len
  checked : s.seals.write ∨ s.seals.futureWrite ∨ s.adding.isSome →
    ∀ pid, (pid, true) ∉ s.checked
  mappings : s.seals.write → ∀ pid, (pid, true) ∉ s.mappings
  adding : ∀ seals pids, s.adding = some (seals, pids) → s.seals.sealed = false ∧
    (∀ change, s.change = some change → change.Respects (s.seals.union seals) s.data.len) ∧
    ∀ pid, (pid, true) ∈ s.mappings → pid ∈ pids

/-! ## The seals and the data -/

variable {s s' : System} {step : Step}

/-- Seals that are there already add nothing. -/
theorem MemFdSealFlags.union_self (seals : MemFdSealFlags) : seals.union seals = seals := by
  simp [MemFdSealFlags.union]

/-- Seals that have been added stay. -/
theorem MemFdSealFlags.union_union (a b : MemFdSealFlags) : a.union (a.union b) = a.union b := by
  simp [MemFdSealFlags.union]

/-- A change that the seals allow changes no byte inside the size, and does not make the file
shorter or longer, if there are seals against it. -/
theorem Change.Allowed.apply {change : Change} {seals : MemFdSealFlags} {data : SparseFileData}
    (h : change.Allowed seals data.len) : (seals.write → ∀ i < min data.len (change.apply data).len,
      (change.apply data).byte i = data.byte i) ∧
    (seals.shrink → data.len ≤ (change.apply data).len) ∧
    (seals.grow → (change.apply data).len ≤ data.len) := by
  cases change with
  | write offset buffer =>
    obtain ⟨-, hseals⟩ := h
    rw [not_or] at hseals
    refine ⟨fun hwrite => absurd hwrite hseals.1, fun _ => ?_, fun hgrow => ?_⟩
    · show data.len ≤ if buffer = [] then data.len else max data.len (offset + buffer.length)
      split <;> omega
    · -- A write behind the end needs a seal that is not there.
      have hfits : offset + buffer.length ≤ data.len :=
        Nat.not_lt.mp fun hlt => hseals.2 ⟨hlt, hgrow⟩
      show (if buffer = [] then data.len else max data.len (offset + buffer.length)) ≤ data.len
      split <;> omega
  | truncate length =>
    obtain ⟨hshorter, hlonger⟩ := h
    refine ⟨fun _ i hi => ?_, fun hshrink => ?_, fun hgrow => ?_⟩
    · have hlt : i < length := Nat.lt_of_lt_of_le hi (Nat.min_le_right _ _)
      exact if_neg fun hcut => Nat.not_le.mpr hlt hcut.2
    · exact Nat.not_lt.mp fun hlt => hshorter ⟨hlt, hshrink⟩
    · exact Nat.not_lt.mp fun hlt => hlonger ⟨hlt, hgrow⟩
  | allocate keepSize offset len =>
    obtain ⟨-, hseals⟩ := h
    cases keepSize with
    | true => exact ⟨fun _ _ _ => rfl, fun _ => Nat.le_refl _, fun _ => Nat.le_refl _⟩
    | false =>
      refine ⟨fun _ _ _ => rfl, fun _ => Nat.le_max_left _ _, fun hgrow => ?_⟩
      have hfits : offset + len ≤ data.len :=
        Nat.not_lt.mp fun hlt => hseals ⟨Bool.false_ne_true, hlt, hgrow⟩
      exact Nat.max_le.mpr ⟨Nat.le_refl _, hfits⟩
  | punchHole offset len =>
    exact ⟨fun hwrite => absurd hwrite h, fun _ => Nat.le_refl _, fun _ => Nat.le_refl _⟩

/-! ## The steps -/

/-- Neither the file nor the mapped pages change. The seals stay, or some are added to those of a
file that is not sealed, and no process gets a mapping for writing. -/
theorem Respects.quiet (hdata : s'.data = s.data) (hmapped : s'.mapped = s.mapped)
    (hseals : s'.seals = s.seals ∨ s.seals.sealed = false ∧ ∃ seals, s'.seals = s.seals.union seals)
    (hmappings : s.seals.futureWrite → ∀ pid, (∀ parent, step ≠ .fork parent pid) →
      s'.mappings.count (pid, true) ≤ s.mappings.count (pid, true)) : Respects step s s' where
  union := by
    rcases hseals with hseals | ⟨-, seals, hseals⟩
    · rw [hseals, MemFdSealFlags.union_self]
    · rw [hseals, MemFdSealFlags.union_union]
  final hsealed := by
    rcases hseals with hseals | ⟨hopen, -⟩
    · exact hseals
    · rw [hopen] at hsealed
      cases hsealed
  write _ i _ := by rw [hdata, hmapped]; exact ⟨rfl, rfl⟩
  shrink _ := Nat.le_of_eq (by rw [hdata])
  grow _ := Nat.le_of_eq (by rw [hdata])
  noWrite _ _ _ _ := hdata
  noMapping := hmappings

/-- Only what is between a check and an effect changes. -/
theorem Respects.of_eq (hdata : s'.data = s.data) (hmapped : s'.mapped = s.mapped)
    (hseals : s'.seals = s.seals) (hmappings : s'.mappings = s.mappings) : Respects step s s' :=
  .quiet hdata hmapped (.inl hseals) fun _ _ _ => hmappings ▸ Nat.le_refl _

/-- A step keeps the invariant and respects the seals. -/
structure Keeps (step : Step) (s s' : System) : Prop where
  sound : s'.Sound
  respects : Respects step s s'

/-- A refused call changes nothing. -/
theorem System.Sound.refused (h : s.Sound) : Keeps step s s :=
  ⟨h, .of_eq rfl rfl rfl rfl⟩

/-- The change is past its check. Nobody looks at the processes then. -/
theorem System.Sound.check {change : Change} (h : s.Sound) (hsafe : Safe (.check change) s)
    (hexec : s.exec (.check change) = some s') : Keeps (.check change) s s' := by
  simp only [exec] at hexec
  split_ifs at hexec with hlocked hallowed <;> cases hexec
  · refine ⟨⟨?_, h.checked, h.mappings, ?_⟩, .of_eq rfl rfl rfl rfl⟩
    · rintro _ ⟨⟩
      exact hsafe hallowed
    · intro seals pids hadding
      exact absurd (.inl (Option.isSome_of_eq_some hadding)) hlocked
  · exact h.refused

/-- What a change does was settled by its check. -/
theorem System.Sound.apply (h : s.Sound) (hexec : s.exec .apply = some s') : Keeps .apply s s' := by
  obtain ⟨change, hchange, rfl⟩ := Option.map_eq_some_iff.mp hexec
  obtain ⟨hallowed, hfuture⟩ := h.change change hchange
  obtain ⟨hbytes, hshrink, hgrow⟩ := hallowed.apply
  refine ⟨⟨nofun, h.checked, h.mappings, fun seals pids hadding => ?_⟩, ?_⟩
  · obtain ⟨hopen, -, hlisted⟩ := h.adding seals pids hadding
    exact ⟨hopen, nofun, hlisted⟩
  refine ⟨(MemFdSealFlags.union_self _).symm, fun _ => rfl, fun hwrite i hi => ?_, hshrink, hgrow,
    ?_, fun _ _ _ => Nat.le_refl _⟩
  · exact ⟨hbytes hwrite i hi, rfl⟩
  · intro hsealed offset buffer hbuffer
    cases hchange.symm.trans hbuffer
    cases hfuture hsealed

/-- The check of a mapping for writing looks at `F_SEAL_WRITE`. -/
theorem System.write_of_allows {fdWritable : Bool} (h : s.allows true fdWritable = true) :
    s.seals.write = false := by
  unfold allows at h
  simp only [Bool.not_true, Bool.false_or, Bool.and_eq_true, Bool.not_eq_true'] at h
  exact h.2

/-- A mapping for writing is past its check only if neither seal is set or being set. -/
theorem System.Sound.mmap {pid : ℕ} {write fdWritable : Bool} (h : s.Sound)
    (hsafe : Safe (.mmap pid write fdWritable) s)
    (hexec : s.exec (.mmap pid write fdWritable) = some s') :
    Keeps (.mmap pid write fdWritable) s s' := by
  simp only [exec] at hexec
  split_ifs at hexec with hlocked hallowed <;> cases hexec
  swap
  · exact h.refused
  refine ⟨⟨h.change, fun hseals other hmem => ?_, h.mappings, h.adding⟩, .of_eq rfl rfl rfl rfl⟩
  rcases List.mem_cons.mp hmem with heq | hmem
  · obtain ⟨rfl, rfl⟩ := Prod.mk.inj heq
    rcases hseals with hwrite | hfuture | hadding
    · exact Bool.false_ne_true ((write_of_allows hallowed).symm.trans hwrite)
    · exact Bool.false_ne_true ((hsafe hallowed rfl).symm.trans hfuture)
    · exact hlocked ⟨rfl, hadding⟩
  · exact h.checked hseals other hmem

/-- A mapping is made as it was checked. -/
theorem System.Sound.registerArea {index : ℕ} (h : s.Sound)
    (hexec : s.exec (.registerArea index) = some s') : Keeps (.registerArea index) s s' := by
  obtain ⟨mapping, hmapping, rfl⟩ := Option.map_eq_some_iff.mp hexec
  have hmem : mapping ∈ s.checked := mem_of_getElem? hmapping
  have hold : ∀ pid, (s.seals.write ∨ s.seals.futureWrite ∨ s.adding.isSome) →
      (pid, true) ∈ mapping :: s.mappings → (pid, true) ∈ s.mappings := by
    intro pid hseals hnew
    rcases List.mem_cons.mp hnew with heq | hnew
    · exact absurd (heq ▸ hmem) (h.checked hseals pid)
    · exact hnew
  refine ⟨⟨h.change, ?_, ?_, ?_⟩, .quiet rfl rfl (.inl rfl) fun hfuture pid _ => ?_⟩
  · exact fun hseals pid hchecked => h.checked hseals pid (mem_of_mem_eraseIdx hchecked)
  · exact fun hwrite pid hnew => h.mappings hwrite pid (hold pid (.inl hwrite) hnew)
  · intro seals pids hadding
    obtain ⟨hopen, hchange, hlisted⟩ := h.adding seals pids hadding
    have hsome : s.adding.isSome := Option.isSome_of_eq_some hadding
    exact ⟨hopen, hchange, fun pid hnew => hlisted pid (hold pid (.inr (.inr hsome)) hnew)⟩
  · have hne : mapping ≠ (pid, true) := fun heq =>
      h.checked (.inr (.inl hfuture)) pid (heq ▸ hmem)
    exact Nat.le_of_eq (count_cons_of_ne hne)

/-- A page that cannot be written, or could be before, does not add to those that can. -/
theorem count_modify {l : List Mapping} {index pid : ℕ} {write : Bool}
    (h : write → l[index]?.all (·.2)) :
    (l.modify index fun mapping => (mapping.1, write)).count (pid, true) ≤ l.count (pid, true) := by
  induction l generalizing index with
  | nil => simp
  | cons mapping l ih =>
    cases index with
    | zero => grind
    | succ index => grind

/-- `mprotect` makes a page one that can be written only if neither seal is set or being set. -/
theorem System.Sound.mprotect {index : ℕ} {write fdWritable : Bool} (h : s.Sound)
    (hsafe : Safe (.mprotect index write fdWritable) s)
    (hexec : s.exec (.mprotect index write fdWritable) = some s') :
    Keeps (.mprotect index write fdWritable) s s' := by
  simp only [exec] at hexec
  split_ifs at hexec with hlocked hallowed <;> cases hexec
  swap
  · exact h.refused
  have hkeeps : (write → s.mappings[index]?.all (·.2)) → ∀ pid,
      (pid, true) ∈ s.mappings.modify index (fun mapping => (mapping.1, write)) →
      (pid, true) ∈ s.mappings := fun hold pid hmem =>
    count_pos_iff.mp (Nat.lt_of_lt_of_le (count_pos_iff.mpr hmem) (count_modify hold))
  refine ⟨⟨h.change, h.checked, fun hwrite pid hmem => ?_, fun seals pids hadding => ?_⟩,
    .quiet rfl rfl (.inl rfl) fun hfuture pid _ => count_modify fun hnew => ?_⟩
  · refine h.mappings hwrite pid (hkeeps (fun hnew => ?_) pid hmem)
    rw [hnew] at hallowed
    exact absurd ((write_of_allows hallowed).symm.trans hwrite) Bool.false_ne_true
  · obtain ⟨hopen, hchange, hlisted⟩ := h.adding seals pids hadding
    refine ⟨hopen, hchange, fun pid hmem => hlisted pid (hkeeps (fun hnew => ?_) pid hmem)⟩
    exact absurd ⟨hnew, Option.isSome_of_eq_some hadding⟩ hlocked
  · refine (hsafe hallowed hnew).resolve_right fun hclear => ?_
    exact Bool.false_ne_true (hclear.symm.trans hfuture)

/-- A mapping goes. -/
theorem System.Sound.unmap {index : ℕ} (h : s.Sound) (hexec : s.exec (.unmap index) = some s') :
    Keeps (.unmap index) s s' := by
  cases hexec
  refine ⟨⟨h.change, h.checked, fun hwrite pid hmem => ?_, fun seals pids hadding => ?_⟩,
    .quiet rfl rfl (.inl rfl) fun _ pid _ => (eraseIdx_sublist ..).count_le _⟩
  · exact h.mappings hwrite pid (mem_of_mem_eraseIdx hmem)
  · obtain ⟨hopen, hchange, hlisted⟩ := h.adding seals pids hadding
    exact ⟨hopen, hchange, fun pid hmem => hlisted pid (mem_of_mem_eraseIdx hmem)⟩

/-- The child has the mappings of its parent, and nobody else gets any. -/
theorem System.Sound.fork {parent child : ℕ} (h : s.Sound) (hsafe : Safe (.fork parent child) s)
    (hexec : s.exec (.fork parent child) = some s') : Keeps (.fork parent child) s s' := by
  cases hexec
  have hmem : ∀ pid, (pid, true) ∈ (s.mappings.filter (·.1 = parent)).map
      (fun mapping => (child, mapping.2)) ++ s.mappings →
      pid = child ∧ (parent, true) ∈ s.mappings ∨ (pid, true) ∈ s.mappings := by grind
  refine ⟨⟨h.change, h.checked, fun hwrite pid hnew => ?_, fun seals pids hadding => ?_⟩,
    .quiet rfl rfl (.inl rfl) fun _ pid hother => ?_⟩
  · rcases hmem pid hnew with ⟨-, hparent⟩ | hold
    · exact h.mappings hwrite parent hparent
    · exact h.mappings hwrite pid hold
  · obtain ⟨hopen, hchange, hlisted⟩ := h.adding seals pids hadding
    refine ⟨hopen, hchange, fun pid hnew => ?_⟩
    rcases hmem pid hnew with ⟨rfl, hparent⟩ | hold
    · have hchild := hsafe hparent
      rw [hadding] at hchild
      exact of_decide_eq_true hchild
    · exact hlisted pid hold
  · have hne : pid ≠ child := fun heq => hother parent (heq ▸ rfl)
    refine Nat.le_of_eq ?_
    rw [count_append, count_eq_zero_of_not_mem (by grind), Nat.zero_add]

/-- A store needs a mapping for writing, and there is none with `F_SEAL_WRITE`. -/
theorem System.Sound.store {pid offset : ℕ} {byte : UInt8} (h : s.Sound)
    (hexec : s.exec (.store pid offset byte) = some s') : Keeps (.store pid offset byte) s s' := by
  simp only [exec] at hexec
  split_ifs at hexec with hmem
  cases hexec
  have hsame : Respects (.store pid offset byte) s s := .of_eq rfl rfl rfl rfl
  exact ⟨⟨h.change, h.checked, h.mappings, h.adding⟩, hsame.union, fun _ => rfl,
    fun hwrite => absurd hmem (h.mappings hwrite pid), hsame.shrink, hsame.grow, hsame.noWrite,
    hsame.noMapping⟩

/-- Seals are set at once, or their caller begins to look at the processes. -/
theorem System.Sound.addSeals {seals : MemFdSealFlags} {processes : List ℕ} (h : s.Sound)
    (hsafe : Safe (.addSeals seals processes) s)
    (hexec : s.exec (.addSeals seals processes) = some s') :
    Keeps (.addSeals seals processes) s s' := by
  simp only [exec] at hexec
  split_ifs at hexec with hlocked hrefused hwrite
  · cases hexec
    exact h.refused
  all_goals
    rw [not_or, Bool.not_eq_false, Bool.not_eq_true] at hrefused
    obtain ⟨hpending, hchecked, hlisted⟩ := hsafe hrefused.1 hrefused.2
    have hchange : ∀ change, s.change = some change →
        change.Respects (s.seals.union seals) s.data.len := by
      intro change hchange
      rw [hchange] at hpending
      exact of_decide_eq_true hpending
    cases hexec
  · refine ⟨⟨h.change, fun _ pid hmem => ?_, h.mappings, ?_⟩, .of_eq rfl rfl rfl rfl⟩
    · cases hchecked (.inl hwrite) _ hmem
    · rintro _ _ ⟨⟩
      exact ⟨hrefused.2, hchange, fun pid hmem => hlisted hwrite _ hmem rfl⟩
  · have hnone : s.adding = none := Option.not_isSome_iff_eq_none.mp hlocked
    have hunion : (s.seals.union seals).write = s.seals.write := by
      simp [MemFdSealFlags.union, hwrite]
    refine ⟨⟨hchange, fun hseals pid hmem => ?_, fun hsealed => ?_, ?_⟩,
      .quiet rfl rfl (.inr ⟨hrefused.2, seals, rfl⟩) fun _ _ _ => Nat.le_refl _⟩
    · by_cases hfuture : seals.futureWrite = true
      · cases hchecked (.inr hfuture) _ hmem
      · refine h.checked ?_ pid hmem
        simpa [MemFdSealFlags.union, hwrite, hfuture] using hseals
    · exact h.mappings (hunion ▸ hsealed)
    · intro _ _ hadding
      cases hnone.symm.trans hadding

/-- The seals are set when no process is left to be looked at: then none has a mapping for
writing. -/
theorem System.Sound.scan (h : s.Sound) (hexec : s.exec .scan = some s') : Keeps .scan s s' := by
  simp only [exec] at hexec
  split at hexec
  · cases hexec
  · rename_i seals hadding
    obtain ⟨hopen, hchange, hlisted⟩ := h.adding _ _ hadding
    have hsome : s.adding.isSome := Option.isSome_of_eq_some hadding
    cases hexec
    refine ⟨⟨hchange, fun _ => h.checked (.inr (.inr hsome)), fun _ pid hmem => ?_, nofun⟩,
      .quiet rfl rfl (.inr ⟨hopen, seals, rfl⟩) fun _ _ _ => Nat.le_refl _⟩
    cases hlisted pid hmem
  · rename_i seals pid pids hadding
    obtain ⟨hopen, hchange, hlisted⟩ := h.adding _ _ hadding
    have hsome : s.adding.isSome := Option.isSome_of_eq_some hadding
    split_ifs at hexec with hmem <;> cases hexec
    · exact ⟨⟨h.change, fun _ => h.checked (.inr (.inr hsome)), h.mappings, nofun⟩,
        .of_eq rfl rfl rfl rfl⟩
    · refine ⟨⟨h.change, fun _ => h.checked (.inr (.inr hsome)), h.mappings, ?_⟩,
        .of_eq rfl rfl rfl rfl⟩
      rintro _ _ ⟨⟩
      refine ⟨hopen, hchange, fun other hother => ?_⟩
      rcases List.mem_cons.mp (hlisted other hother) with rfl | hlater
      · exact absurd hother hmem
      · exact hlater

/-- Every safe step keeps the invariant and respects the seals. -/
theorem System.Sound.exec (h : s.Sound) (hsafe : Safe step s) (hexec : s.exec step = some s') :
    Keeps step s s' := by
  cases step with
  | check change => exact h.check hsafe hexec
  | apply => exact h.apply hexec
  | mmap pid write fdWritable => exact h.mmap hsafe hexec
  | registerArea index => exact h.registerArea hexec
  | mprotect index write fdWritable => exact h.mprotect hsafe hexec
  | unmap index => exact h.unmap hexec
  | fork parent child => exact h.fork hsafe hexec
  | store pid offset byte => exact h.store hexec
  | addSeals seals processes => exact h.addSeals hsafe hexec
  | scan => exact h.scan hexec

/-! ## Runs -/

/-- `create_memfd_object`. -/
def new (allowSealing : Bool) : System :=
  ⟨⟨!allowSealing, false, false, false, false⟩, allowSealing, ⟨0, fun _ => 0⟩, none, [], [],
    fun _ => 0, none⟩

end Seele.MemFd
