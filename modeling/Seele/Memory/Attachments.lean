import Seele.Memory.Locality

/-!
# Attaching and detaching SysV segments, lock by lock

The count of a segment is in the global table, under the lock of that table; the records of what is
attached are in the processes, each under the lock of its process. `shmat` and the detaching of
`shmdt` and of the end of a process take the first lock more than once while they hold the second,
and `fork` gives the child its records before it counts them. So these calls are taken apart here at
the lock of the table: a `ShmPlace` says where a process is in its call, and between two steps of
one process any other process may take its own. The second half of the file says what each part does
to the processes and to the table.
-/

namespace Seele.Memory

open Seele.Lib Cmd.NeverFails

variable {φ : Type}

/-! ## The parts of the calls -/

/-- The first part of `shmat`, under the lock of the table. -/
def shmatLookup (k : Kernel φ) (pid shmid : ℕ) (flags : ShmatFlags) :
    Except SyscallError SysvShmSegment :=
  if flags.unknown then .error .invalidArguments
  else match k.segments shmid with
    | none => .error .invalidArguments
    | some segment =>
      if segment.namespaceInode ≠ (k.process pid).ipcNamespace then .error .invalidArguments
      else if !segmentAllowsAccess segment (k.process pid) flags.rdonly then
        .error .permissionDenied
      else .ok segment

/-- One more record of a process. -/
def pushRecord (pid : ℕ) (mapping : ProcessShmMapping) : KernelM φ Unit :=
  Cmd.modify fun k => k.setProcess pid fun p =>
    { p with sysvShmMappings := p.sysvShmMappings ++ [mapping] }

/-- The last part of `shmat`, under the lock of the table. -/
def shmatCount (shmid : ℕ) : KernelM φ Unit := do
  let k ← Cmd.get
  match k.segments shmid with
  | none => Cmd.throw .invalidArguments
  | some _ => Cmd.modify fun k => k.setAttachCount shmid (· + 1)

/-- The part of `complete_detach` under the lock of the table. -/
def settleDetach (mapping : ProcessShmMapping) : KernelM φ Unit := do
  Cmd.modify fun k => k.setAttachCount mapping.shmid (· - 1)
  let k ← Cmd.get
  match k.segments mapping.shmid with
  | none => return ()
  | some segment =>
    if segment.markedForRemoval && decide (segment.attachCount = 0) then
      destroySegmentLocked mapping.shmid

/-- The records of a process are taken from it. -/
def setRecords (pid : ℕ) (mappings : List ProcessShmMapping) : KernelM φ Unit :=
  Cmd.modify fun k => k.setProcess pid fun p => { p with sysvShmMappings := mappings }

/-- The process is gone. -/
def reap (pid : ℕ) : KernelM φ Unit :=
  Cmd.modify fun k =>
    { k with
      pids := k.pids.filter fun other => decide (other ≠ pid)
      process := Function.update k.process pid Process.default }

section Files

variable [FileLayer φ]

/-- The middle part of `shmat`: the segment is mapped and recorded. -/
def shmatMap (pid shmid : ℕ) (segment : SysvShmSegment) (shmaddr : ℕ) (flags : ShmatFlags) :
    KernelM φ ℕ := do
  let requested ← Cmd.orPanic (virtAddr shmaddr)
  let addr ← attachAddr pid requested flags.rnd segment.size
  let pages := mappingPages segment.size
  let object ← sharedFramesNew segment.frames
  let area ← newArea addr pages (shmatPageFlags flags.rdonly) ⟨true, !flags.rdonly, false⟩
    (.shared object .empty) false
  registerArea pid area
  pushRecord pid ⟨shmid, addr, pages * 4096⟩
  return addr

end Files

/-! ## Runs -/

/-- Where a process is in a call that takes the lock of the table more than once. -/
inductive ShmPlace where
  | idle
  /-- `shmat` has found the segment. -/
  | found (shmid : ℕ) (segment : SysvShmSegment) (shmaddr : ℕ) (flags : ShmatFlags)
  /-- `shmat` has mapped and recorded it. -/
  | mapped (shmid addr : ℕ)
  /-- Records have been taken from the process, and the next one is to be unmapped. -/
  | detaching (pending : List ProcessShmMapping) (exits : Bool)
  /-- The first one is unmapped. -/
  | unmapped (mapping : ProcessShmMapping) (pending : List ProcessShmMapping) (exits : Bool)
  /-- A child with the records of its parent, before `inherit_forked_mappings`. -/
  | inheriting (mappings : List ProcessShmMapping)

/-- The kernel and the place of every process. `began` is the process as its `shmat` found it, which
no step reads. -/
structure ShmSystem (φ : Type) where
  kernel : Kernel φ
  place : ℕ → ShmPlace
  began : ℕ → Process

/-- Nobody is in a call. -/
def ShmSystem.start (k : Kernel φ) : ShmSystem φ :=
  ⟨k, fun _ => .idle, k.process⟩

/-- The steps. -/
inductive ShmMove where
  | shmget (pid : ℕ) (key : Int) (size : ℕ) (flags : ShmgetFlags)
  | shmatLookup (pid shmid shmaddr : ℕ) (flags : ShmatFlags)
  | shmatMap (pid : ℕ)
  | shmatCount (pid : ℕ)
  | shmdt (pid shmaddr : ℕ)
  | exit (pid : ℕ)
  | unmapNext (pid : ℕ)
  | settle (pid : ℕ)
  | shmctlRmid (pid shmid : ℕ)
  | fork (parent : ℕ) (shareVm : Bool)
  | inherit (child : ℕ)

/-- What a call returns at the end of the step, if it ends, and the system after it. -/
structure ShmEffect (φ : Type) where
  result : Option (Except SyscallError ℕ)
  system : ShmSystem φ

/-- A process goes to another place. -/
def ShmSystem.go (s : ShmSystem φ) (pid : ℕ) (place : ShmPlace) : ShmSystem φ :=
  { s with place := Function.update s.place pid place }

/-- The rest of a step after a command on the kernel. -/
def ShmSystem.after {α : Type} (s : ShmSystem φ) (x : KernelM φ α)
    (next : ShmSystem φ → Except SyscallError α → ShmEffect φ) : Option (ShmEffect φ) :=
  (x s.kernel).map fun out => next { s with kernel := out.2 } out.1

section Files

variable [FileLayer φ]

/-- One step. A process begins a call only if it is in none, and goes on with the one it is in. -/
def ShmSystem.exec (s : ShmSystem φ) (move : ShmMove) : Option (ShmEffect φ) :=
  match move with
  | .shmget pid key size flags =>
    match s.place pid with
    | .idle => s.after (shmget pid key size flags) fun s r => ⟨some r, s⟩
    | _ => some ⟨none, s⟩
  | .shmatLookup pid shmid shmaddr flags =>
    match s.place pid with
    | .idle =>
      if pid ∈ s.kernel.pids then
        match Memory.shmatLookup s.kernel pid shmid flags with
        | .error e => some ⟨some (.error e), s⟩
        | .ok segment =>
          some ⟨none, { s.go pid (.found shmid segment shmaddr flags) with
              began := Function.update s.began pid (s.kernel.process pid) }⟩
      else some ⟨none, s⟩
    | _ => some ⟨none, s⟩
  | .shmatMap pid =>
    match s.place pid with
    | .found shmid segment shmaddr flags =>
      s.after (Memory.shmatMap pid shmid segment shmaddr flags) fun s r =>
        match r with
        | .error e => ⟨some (.error e), s.go pid .idle⟩
        | .ok addr => ⟨none, s.go pid (.mapped shmid addr)⟩
    | _ => some ⟨none, s⟩
  | .shmatCount pid =>
    match s.place pid with
    | .mapped shmid addr =>
      s.after (Memory.shmatCount shmid) fun s r => ⟨some (r.map fun _ => addr), s.go pid .idle⟩
    | _ => some ⟨none, s⟩
  | .shmdt pid shmaddr =>
    match s.place pid, virtAddr shmaddr with
    | .idle, some addr =>
      if pid ∈ s.kernel.pids then
        let records := (s.kernel.process pid).sysvShmMappings
        match records.findIdx? fun mapping => decide (mapping.addr = addr) with
        | none => some ⟨some (.error .invalidArguments), s⟩
        | some index =>
          match records[index]? with
          | none => none
          | some mapping =>
            s.after (setRecords pid (records.eraseIdx index)) fun s _ =>
              ⟨none, s.go pid (.detaching [mapping] false)⟩
      else some ⟨none, s⟩
    | .idle, none => none
    | _, _ => some ⟨none, s⟩
  | .exit pid =>
    match s.place pid with
    | .idle =>
      if pid ∈ s.kernel.pids then
        s.after (setRecords pid []) fun s' _ =>
          ⟨none, s'.go pid (.detaching (s.kernel.process pid).sysvShmMappings true)⟩
      else some ⟨none, s⟩
    | _ => some ⟨none, s⟩
  | .unmapNext pid =>
    match s.place pid with
    | .detaching (mapping :: pending) exits =>
      s.after (unmap pid mapping.addr mapping.len) fun s _ =>
        ⟨none, s.go pid (.unmapped mapping pending exits)⟩
    | .detaching [] true =>
      s.after (do releaseUserMappings pid; reap pid) fun s _ => ⟨some (.ok 0), s.go pid .idle⟩
    | .detaching [] false => some ⟨some (.ok 0), s.go pid .idle⟩
    | _ => some ⟨none, s⟩
  | .settle pid =>
    match s.place pid with
    | .unmapped mapping pending exits =>
      s.after (settleDetach mapping) fun s _ => ⟨none, s.go pid (.detaching pending exits)⟩
    | _ => some ⟨none, s⟩
  | .shmctlRmid pid shmid =>
    if pid ∈ s.kernel.pids then
      s.after (Memory.shmctlRmid pid shmid) fun s r => ⟨some (r.map fun _ => 0), s⟩
    else some ⟨none, s⟩
  | .fork parent shareVm =>
    match s.place parent with
    | .idle =>
      if parent ∈ s.kernel.pids then
        let child := s.kernel.freshPid
        s.after (cloneWithVmSharing parent child shareVm) fun s' _ =>
          ⟨some (.ok child), s'.go child (.inheriting (s.kernel.process parent).sysvShmMappings)⟩
      else some ⟨none, s⟩
    | _ => some ⟨none, s⟩
  | .inherit child =>
    match s.place child with
    | .inheriting mappings =>
      s.after (inheritForkedMappings mappings) fun s _ => ⟨none, s.go child .idle⟩
    | _ => some ⟨none, s⟩

/-- The system after a step. -/
def ShmSystem.next (move : ShmMove) (s : ShmSystem φ) : Option (ShmSystem φ) :=
  (s.exec move).map ShmEffect.system

end Files

/-! ## What the parts do -/

/-- `drop_ref` does not fail. -/
theorem dropRef_neverFails (frame : ℕ) : Cmd.NeverFails (dropRef frame : KernelM φ Unit) := by
  intro k e k' h
  rw [dropRef_run] at h
  cases h

/-- Changing the areas does not fail. -/
theorem setAreas_neverFails {pid : ℕ} {edit : AreaMap → AreaMap} :
    Cmd.NeverFails (setAreas pid edit : KernelM φ Unit) := by
  refine get.bind fun k => (modify _).bind fun _ => ?_
  refine get.bind fun k' => each (fun frames => ?_) _
  exact each dropRef_neverFails _

/-- `map_existing_frame` does not fail. -/
theorem mapExistingFrame_neverFails (pid page frame : ℕ) (flags : PageTableFlags) :
    Cmd.NeverFails (mapExistingFrame pid page frame flags : KernelM φ Unit) := by
  refine bind ?_ fun _ => modify _
  intro k e k' h
  obtain ⟨-, hr, -⟩ := mapTo_eq_some h
  cases hr

/-- `SharedFrames::new` does not fail. -/
theorem sharedFramesNew_neverFails (frames : List ℕ) :
    Cmd.NeverFails (sharedFramesNew frames : KernelM φ SharedFrames) := by
  refine (each (fun _ => modify _) frames).bind fun _ => ?_
  exact get.bind fun k => (modify _).bind fun _ => .pure _

variable {pid : ℕ} {k k' : Kernel φ}

/-- A refused address changes nothing. -/
theorem attachAddr_error {requested len : ℕ} {rnd : Bool} {e : SyscallError}
    (h : attachAddr pid requested rnd len k = some (.error e, k')) : k' = k := by
  unfold attachAddr at h
  split_ifs at h
  · have hnever : Cmd.NeverFails (fetchAddUserMem pid (mappingPages len) : KernelM φ ℕ) :=
      get.bind fun k => (orPanic _).bind fun _ =>
        (modify _).bind fun _ => .pure _
    exact absurd h (hnever k e k')
  · cases (Cmd.pure_eq_some.mp h).1
  · exact (Cmd.throw_eq_some.mp h).2
  · cases (Cmd.pure_eq_some.mp h).1

section Files

variable [FileLayer φ]

/-- Registering a shared area does not fail. -/
theorem registerArea_shared_neverFails (pid : ℕ) {area : MemoryArea} {frames : SharedFrames}
    {flags : PageTableFlags} (hdata : area.data = .shared frames flags) :
    Cmd.NeverFails (registerArea pid area : KernelM φ Unit) := by
  refine (setAreas_neverFails).bind fun _ => ?_
  split
  · refine each (fun i => ?_) _
    unfold applyPage applyPageCluster
    rw [hdata]
    refine (orPanic _).bind fun pageOffset => ?_
    exact (orPanic _).bind fun frame => mapExistingFrame_neverFails pid _ frame _
  · exact pure ()

/-- The middle part of `shmat` fails without a change, or adds a record to a process that has
changed otherwise in its address space alone. -/
theorem shmatMap_cases {shmid shmaddr : ℕ} {segment : SysvShmSegment} {flags : ShmatFlags}
    {r : Except SyscallError ℕ} (h : shmatMap pid shmid segment shmaddr flags k = some (r, k')) :
    (∃ e, r = .error e ∧ k' = k) ∨ ∃ addr len k₁, r = .ok addr ∧ Confined {pid} k k₁ ∧
        k' = k₁.setProcess pid fun p =>
          { p with sysvShmMappings := p.sysvShmMappings ++ [⟨shmid, addr, len⟩] } := by
  obtain ⟨requested, -, h⟩ := Cmd.orPanic_bind_eq_some h
  rcases Cmd.bind_eq_some.mp h with ⟨addr, k₁, haddr, h⟩ | ⟨e, haddr, rfl⟩
  · right
    have hfirst := attachAddr_confined (Set.mem_singleton pid) _ _ _ k _ k₁ haddr
    -- Nothing after the choice of the address fails.
    rcases Cmd.bind_eq_some.mp h with ⟨object, k₂, hobject, h⟩ | ⟨e, hobject, -⟩
    · have hsecond : Confined {pid} k₁ k₂ := sharedFramesNew_confined _ k₁ _ k₂ hobject
      rcases Cmd.bind_eq_some.mp h with ⟨area, k₃, harea, h⟩ | ⟨e, harea, -⟩
      · have hthird : Confined {pid} k₂ k₃ := newArea_confined _ _ _ _ _ _ k₂ _ k₃ harea
        have hdata : area.data = .shared object .empty := by
          obtain ⟨end_, -, harea⟩ := Cmd.orPanic_bind_eq_some harea
          obtain ⟨hok, -⟩ := Cmd.pure_eq_some.mp harea
          rw [← Except.ok.inj hok.symm]
        rcases Cmd.bind_eq_some.mp h with ⟨_, k₄, hregister, h⟩ | ⟨e, hregister, -⟩
        · have hfourth := registerArea_confined (Set.mem_singleton pid) k₃ _ k₄ hregister
          cases h
          refine ⟨addr, _, k₄, rfl, ?_, rfl⟩
          exact trans_of _ hfirst (trans_of _ hsecond (trans_of _ hthird hfourth))
        · exact absurd hregister (registerArea_shared_neverFails pid hdata _ _ _)
      · exact absurd harea ((orPanic _).bind (fun _ => .pure _) _ _ _)
    · exact absurd hobject (sharedFramesNew_neverFails _ _ _ _)
  · exact .inl ⟨e, rfl, attachAddr_error haddr⟩

end Files

/-- The segments after a count changes. -/
theorem Kernel.setAttachCount_segments (k : Kernel φ) (shmid : ℕ) (f : ℕ → ℕ) (shmid' : ℕ) :
    (k.setAttachCount shmid f).segments shmid' =
      if shmid' = shmid then (k.segments shmid).map fun segment =>
        { segment with attachCount := f segment.attachCount }
      else k.segments shmid' := by
  unfold Kernel.setAttachCount
  cases hsegment : k.segments shmid with
  | none => grind
  | some segment =>
    show Function.update k.segments shmid _ shmid' = _
    rw [Function.update_apply]
    rfl

/-- The processes stay. -/
theorem Kernel.setAttachCount_process (k : Kernel φ) (shmid : ℕ) (f : ℕ → ℕ) :
    (k.setAttachCount shmid f).process = k.process ∧ (k.setAttachCount shmid f).pids = k.pids ∧
      (k.setAttachCount shmid f).nextShmid = k.nextShmid := by
  unfold Kernel.setAttachCount
  cases k.segments shmid with
  | none | some segment => exact ⟨rfl, rfl, rfl⟩

variable {shmid : ℕ} {r : Except SyscallError Unit}

/-- Only this segment goes. -/
theorem destroySegmentLocked_cases {segment : SysvShmSegment}
    (hsegment : k.segments shmid = some segment) (h : destroySegmentLocked shmid k = some (r, k')) :
    Confined ∅ (k.setSegment shmid none) k' := by
  unfold destroySegmentLocked at h
  rw [Cmd.get_bind, hsegment] at h
  exact Cmd.Always.each (fun frame _ => dropRef_confined frame) _ r k' h

/-- What counting an attachment does. -/
theorem shmatCount_cases (h : shmatCount shmid k = some (r, k')) :
    (k.segments shmid = none ∧ r = .error .invalidArguments ∧ k' = k) ∨
      ((k.segments shmid).isSome ∧ r = .ok () ∧ k' = k.setAttachCount shmid (· + 1)) := by
  unfold shmatCount at h
  rw [Cmd.get_bind] at h
  cases hsegment : k.segments shmid with
  | none =>
    rw [hsegment] at h
    grind [Cmd.throw_eq_some.mp]
  | some segment =>
    rw [hsegment] at h
    grind [Cmd.modify_eq_some.mp]

/-- What counting a detachment does. -/
theorem settleDetach_cases {mapping : ProcessShmMapping} {segment : SysvShmSegment}
    (hsegment : k.segments mapping.shmid = some segment)
    (h : settleDetach mapping k = some (r, k')) :
    ((segment.markedForRemoval = true → segment.attachCount - 1 ≠ 0) ∧
        k' = k.setAttachCount mapping.shmid (· - 1)) ∨
      (segment.markedForRemoval = true ∧ segment.attachCount - 1 = 0 ∧
        Confined ∅ ((k.setAttachCount mapping.shmid (· - 1)).setSegment mapping.shmid none)
          k') := by
  have hsegment' := k.setAttachCount_segments mapping.shmid (· - 1) mapping.shmid
  rw [if_pos rfl, hsegment, Option.map_some] at hsegment'
  unfold settleDetach at h
  rw [Cmd.modify_bind, Cmd.get_bind, hsegment'] at h
  dsimp only at h
  split_ifs at h with hlast
  · grind [destroySegmentLocked_cases]
  · simp only [Bool.and_eq_true] at hlast
    cases h
    grind

/-- What `IPC_RMID` does. -/
theorem shmctlRmid_cases (h : shmctlRmid pid shmid k = some (r, k')) :
    k' = k ∨ ∃ segment, k.segments shmid = some segment ∧ ((segment.attachCount ≠ 0 ∧
          k' = k.setSegment shmid (some { segment with markedForRemoval := true })) ∨
        (segment.attachCount = 0 ∧ Confined ∅ (k.setSegment shmid none) k')) := by
  unfold shmctlRmid at h
  rw [Cmd.get_bind] at h
  cases hsegment : k.segments shmid with
  | none =>
    rw [hsegment] at h
    exact Or.inl (Cmd.throw_eq_some.mp h).2
  | some segment =>
  rw [hsegment] at h
  dsimp only at h
  split_ifs at h with hnamespace huid hzero
  · exact Or.inl (Cmd.throw_eq_some.mp h).2
  · exact Or.inl (Cmd.throw_eq_some.mp h).2
  · refine .inr ⟨segment, rfl, .inr ⟨hzero, ?_⟩⟩
    have hmarked : (k.setSegment shmid
        (some { segment with markedForRemoval := true })).segments shmid =
        some { segment with markedForRemoval := true } := Function.update_self ..
    have hgone := destroySegmentLocked_cases hmarked h
    -- Marking a segment that is then destroyed makes no difference.
    have htwice : (k.setSegment shmid (some { segment with markedForRemoval := true })).setSegment
        shmid none = k.setSegment shmid none := by
      simp [Kernel.setSegment]
    rw [htwice] at hgone
    exact hgone
  · rw [Cmd.modify_bind] at h
    cases h
    exact .inr ⟨segment, rfl, .inl ⟨hzero, rfl⟩⟩

/-- What `shmget` does. -/
theorem shmget_cases {size : ℕ} {key : Int} {flags : ShmgetFlags} {r : Except SyscallError ℕ}
    (h : shmget pid key size flags k = some (r, k')) :
    Confined ∅ k k' ∨ ∃ (segment : SysvShmSegment) (k₁ : Kernel φ), segment.attachCount = 0 ∧
      segment.markedForRemoval = false ∧ Confined ∅ k k₁ ∧
      k' = { k₁.setSegment (k₁.nextShmid + 1) (some segment) with
        nextShmid := k₁.nextShmid + 1 } := by
  have hcreate : k' = k ∨ createSegment pid key size flags.mode k = some (r, k') := by
    unfold shmget at h
    rw [Cmd.get_bind] at h
    generalize (if key = 0 then none
      else k.findSegment (k.process pid).ipcNamespace key) = existing at h
    -- A segment is created in the last case only.
    split at h <;> rw [Cmd.ite_run, Cmd.ite_run] at h <;> split_ifs at h
    iterate 5
      · cases h
        exact .inl rfl
    exact .inr h
  rcases hcreate with rfl | h
  · exact .inl (refl _)
  have hframes : Cmd.Always (Confined ∅)
      (allocateSegmentFrames (mappingPages size) : KernelM φ (List ℕ)) :=
    allocateZeroedFrames_confined (fun frame => increaseRef_confined frame) _
  rcases Cmd.bind_eq_some.mp h with ⟨frames, k₁, hrun, h⟩ | ⟨e, hrun, -⟩
  · right
    cases h
    exact ⟨_, k₁, rfl, rfl, hframes k _ k₁ hrun, rfl⟩
  · exact .inl (hframes k _ k' hrun)

end Seele.Memory
