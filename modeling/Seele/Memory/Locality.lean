import Mathlib.Data.Set.Insert
import Seele.Memory.PageSteps
import Seele.Memory.Sharing

/-!
# What the commands of a process leave alone

The commands on the address space of a process change that process, the frames and the files. They
leave the other processes, the SysV segments and the records of attached segments as they are. This
is `Confined`, here for any set of processes, so that it covers `fork` as well. It is reflexive and
transitive, and so it is proved for a command from the commands that it is made of.
-/

namespace Seele.Memory

open Seele.Lib Cmd.Always Kernel

variable {φ : Type} {active : Set ℕ} {pid : ℕ}

/-- Of the processes only some have changed, none of them in its records of attached segments, and
the segments have not. -/
structure Confined (active : Set ℕ) (k k' : Kernel φ) : Prop where
  pids : k'.pids = k.pids
  nextShmid : k'.nextShmid = k.nextShmid
  segments : k'.segments = k.segments
  others : ∀ pid, pid ∉ active → k'.process pid = k.process pid
  records : ∀ pid, (k'.process pid).sysvShmMappings = (k.process pid).sysvShmMappings

open Confined

instance : Std.Refl (Confined (φ := φ) active) :=
  ⟨fun _ => ⟨rfl, rfl, rfl, fun _ _ => rfl, fun _ => rfl⟩⟩

instance : IsTrans (Kernel φ) (Confined active) :=
  ⟨fun _ _ _ h₁ h₂ =>
    { pids := h₂.pids.trans h₁.pids
      nextShmid := h₂.nextShmid.trans h₁.nextShmid
      segments := h₂.segments.trans h₁.segments
      others := fun pid hpid => (h₂.others pid hpid).trans (h₁.others pid hpid)
      records := fun pid => (h₂.records pid).trans (h₁.records pid) }⟩

/-- No process has changed. -/
theorem Confined.of_process_eq {k k' : Kernel φ} (hpids : k'.pids = k.pids)
    (hshmid : k'.nextShmid = k.nextShmid) (hsegments : k'.segments = k.segments)
    (hprocess : k'.process = k.process) : Confined active k k' where
  pids := hpids
  nextShmid := hshmid
  segments := hsegments
  others pid _ := by rw [hprocess]
  records pid := by rw [hprocess]

/-- One process changes, but not its records. -/
theorem Confined.setProcess (k : Kernel φ) (hpid : pid ∈ active) {f : Process → Process}
    (hf : (f (k.process pid)).sysvShmMappings = (k.process pid).sysvShmMappings) :
    Confined active k (k.setProcess pid f) where
  pids := rfl
  nextShmid := rfl
  segments := rfl
  others other hother := by
    have hne : other ≠ pid := fun heq => hother (heq ▸ hpid)
    exact Function.update_of_ne hne _ _
  records other := by
    unfold Kernel.setProcess
    by_cases heq : other = pid
    · grind
    · simp only [Function.update_of_ne heq]

/-! ## Frames -/

/-- A reference is counted. -/
theorem increaseRefBy_confined (frame amount : ℕ) :
    Cmd.Always (Confined active) (increaseRefBy frame amount : KernelM φ Unit) :=
  modify fun _ => of_process_eq rfl rfl rfl rfl

variable (frame : ℕ)

/-- A single reference is counted. -/
theorem increaseRef_confined : Cmd.Always (Confined active) (increaseRef frame : KernelM φ Unit) :=
  increaseRefBy_confined frame 1

/-- A frame is zeroed. -/
theorem zeroFrame_confined : Cmd.Always (Confined active) (zeroFrame frame : KernelM φ Unit) :=
  modify fun _ => of_process_eq rfl rfl rfl rfl

/-- Bytes are copied. -/
theorem copyInto_confined {source : ℕ → UInt8} {len : ℕ} :
    Cmd.Always (Confined active) (copyInto frame source len : KernelM φ Unit) :=
  modify fun _ => of_process_eq rfl rfl rfl rfl

/-- A frame is taken. -/
theorem allocateFrame_confined :
    Cmd.Always (Confined active) (allocateFrame : KernelM φ (Option ℕ)) := by
  intro k r k' hrun
  unfold allocateFrame at hrun
  grind [of_process_eq]

/-- A counted reference is dropped. -/
theorem Kernel.dropCounted_confined (k : Kernel φ) {frame count : ℕ} :
    Confined active k (k.dropCounted frame count) := by
  unfold dropCounted
  split_ifs
  · exact of_process_eq rfl rfl rfl rfl
  · exact of_process_eq rfl rfl rfl rfl

/-- A reference is dropped. -/
theorem dropRef_confined : Cmd.Always (Confined active) (dropRef frame : KernelM φ Unit) := by
  intro k r k' hrun
  rw [dropRef_run] at hrun
  cases hrun
  unfold Kernel.dropRef
  cases k.frameRefCount frame with
  | none => exact refl k
  | some count => exact k.dropCounted_confined

/-- A mapping's reference is dropped. -/
theorem Kernel.releaseRef_confined (k : Kernel φ) (frame : ℕ) :
    Confined active k (k.releaseRef frame) := by
  unfold releaseRef
  cases k.frameRefCount frame with
  | none => exact of_process_eq rfl rfl rfl rfl
  | some count => exact k.dropCounted_confined

/-- Zeroed frames are taken. -/
theorem allocateZeroedFrames_confined {track : ℕ → KernelM φ Unit}
    (htrack : ∀ frame, Cmd.Always (Confined active) (track frame)) (pages : ℕ) :
    Cmd.Always (Confined active) (allocateZeroedFrames track pages) := by
  induction pages with
  | zero => exact pure _
  | succ pages ih =>
  refine allocateFrame_confined.bind fun frame => ?_
  cases frame with
  | none => exact throw _
  | some frame =>
    refine (zeroFrame_confined frame).bind fun _ => (htrack frame).bind fun _ => ?_
    exact ih.bind fun _ => pure _

/-- An object is made. -/
theorem sharedFramesNew_confined (frames : List ℕ) :
    Cmd.Always (Confined active) (sharedFramesNew frames : KernelM φ SharedFrames) := by
  refine (each fun frame _ => increaseRef_confined frame).bind fun _ => ?_
  refine get_bind fun k r k' hrun => ?_
  cases hrun
  exact of_process_eq rfl rfl rfl rfl

/-! ## Pages -/

variable (hpid : pid ∈ active)

include hpid

/-- A page is mapped. -/
theorem mapTo_confined {page frame : ℕ} {flags : PageTableFlags} :
    Cmd.Always (Confined active) (mapTo pid page frame flags : KernelM φ Unit) := by
  intro k r k' hrun
  obtain ⟨-, -, rfl⟩ := mapTo_eq_some hrun
  exact setProcess k hpid rfl

/-- The flags of a page are set. -/
theorem updateFlags_confined {page : ℕ} (flags : PageTableFlags) :
    Cmd.Always (Confined active) (updateFlags pid page flags : KernelM φ Unit) := by
  refine get_bind fun k r k' hrun => ?_
  cases hpte : k.pte pid page with
  | none =>
    rw [hpte] at hrun
    cases hrun
    exact refl _
  | some pte =>
    rw [hpte] at hrun
    cases hrun
    exact setProcess k hpid rfl

/-- A page is unmapped. -/
theorem unmapAndRelease_confined {page : ℕ} :
    Cmd.Always (Confined active) (unmapAndRelease pid page : KernelM φ Unit) := by
  intro k r k' hrun
  rw [unmapAndRelease_run] at hrun
  cases hrun
  cases k.pte pid page with
  | none => exact refl k
  | some pte =>
    have hpage : Confined active k (k.setPte pid page none) := setProcess k hpid rfl
    exact trans_of (Confined active) hpage (releaseRef_confined _ _)

/-- A frame is mapped. -/
theorem mapExistingFrame_confined (page frame : ℕ) (flags : PageTableFlags) :
    Cmd.Always (Confined active) (mapExistingFrame pid page frame flags : KernelM φ Unit) :=
  (mapTo_confined hpid).bind fun _ => increaseRef_confined frame

variable {area : MemoryArea}

/-- A zeroed page is mapped. -/
theorem allocMapZeroedPage_confined {page : ℕ} {zeroPage : Bool} :
    Cmd.Always (Confined active) (allocMapZeroedPage pid page area zeroPage : KernelM φ ℕ) := by
  refine allocateFrame_confined.bind fun frame => (orPanic frame).bind fun frame => ?_
  refine (mapTo_confined hpid).bind fun _ => (increaseRef_confined frame).bind fun _ => ?_
  split
  · exact (zeroFrame_confined frame).bind fun _ => pure _
  · exact pure _

omit hpid in
/-- A page is cloned. -/
theorem clonePage_confined {parent child : ℕ} (hparent : parent ∈ active) (hchild : child ∈ active)
    {shareVm : Bool} {page : ℕ} : Cmd.Always (Confined active)
      (clonePage parent child area shareVm page : KernelM φ Unit) := by
  refine get_bind fun k => ?_
  cases k.pte parent page with
  | none => exact pure (R := Confined active) () k
  | some pte =>
  dsimp only
  split
  · have hcopy : ∀ flags amount, Cmd.Always (Confined active) (do
        mapTo child page pte.frame flags
        increaseRefBy pte.frame amount : KernelM φ Unit) := fun flags amount =>
      (mapTo_confined hchild).bind fun _ => increaseRefBy_confined _ amount
    split
    · exact ((updateFlags_confined hparent _).bind fun _ => hcopy _ _) k
    · exact hcopy _ _ k
  · exact pure (R := Confined active) () k

/-! ## Areas -/

omit hpid in
/-- Objects are dropped. -/
theorem dropSharedFrames_confined (areas : List MemoryArea) :
    Cmd.Always (Confined active) (dropSharedFrames areas : KernelM φ Unit) := by
  refine get_bind fun k r k' hrun => ?_
  refine each (fun frames _ => ?_) k r k' hrun
  exact each fun frame _ => dropRef_confined frame

/-- The areas are edited. -/
theorem setAreas_confined {edit : AreaMap → AreaMap} :
    Cmd.Always (Confined active) (setAreas pid edit : KernelM φ Unit) := by
  refine get_bind fun k => ?_
  refine (modify fun k => setProcess k hpid rfl).bind (fun _ => ?_) k
  exact dropSharedFrames_confined _

omit hpid in
/-- An area is made. -/
theorem newArea_confined (start pages : ℕ) (flags : PageTableFlags) (protection : Protection)
    (data : Data) (lazy : Bool) : Cmd.Always (Confined active)
      (newArea start pages flags protection data lazy : KernelM φ MemoryArea) :=
  (orPanic _).bind fun _ => pure _

/-- A range is reserved. -/
theorem fetchAddUserMem_confined (pages : ℕ) :
    Cmd.Always (Confined active) (fetchAddUserMem pid pages : KernelM φ ℕ) := by
  refine get_bind fun k => ?_
  refine (orPanic _).bind (fun placed => ?_) k
  refine (modify fun k => ?_).bind fun _ => pure _
  exact setProcess k hpid rfl

/-- The address of an attachment. -/
theorem attachAddr_confined (requested : ℕ) (rnd : Bool) (len : ℕ) :
    Cmd.Always (Confined active) (attachAddr pid requested rnd len : KernelM φ ℕ) := by
  unfold attachAddr
  grind [fetchAddUserMem_confined, Cmd.Always.pure, Cmd.Always.throw]

section Files

variable [FileLayer φ]

omit hpid in
/-- A file is read. -/
theorem readCluster_confined {file : FileLikeObject} {pageIndex : ℕ} :
    Cmd.Always (Confined active) (readCluster file pageIndex : KernelM φ (Option ClusterRead)) := by
  intro k r k' hrun
  cases hrun
  exact of_process_eq rfl rfl rfl rfl

omit hpid in
/-- A page of a shared file is loaded. -/
theorem getOrLoadSharedFileFrame_confined {file : FileLikeObject} {identity : MappingIdentity}
    (offset readLen : ℕ) : Cmd.Always (Confined active)
      (getOrLoadSharedFileFrame file identity offset readLen : KernelM φ (Option ℕ)) := by
  have hcache : ∀ frame : ℕ, Cmd.Always (Confined active) (do
      increaseRef frame
      .modify fun k => { k with
        sharedFilePageCache := Function.update k.sharedFilePageCache ⟨identity, offset⟩ frame }
      return some frame : KernelM φ (Option ℕ)) := by
    intro frame
    refine (increaseRef_confined frame).bind fun _ => ?_
    refine (modify fun k => ?_).bind fun _ => pure _
    exact of_process_eq rfl rfl rfl rfl
  have hload : Cmd.Always (Confined active)
      (loadSharedFileFrame file ⟨identity, offset⟩ readLen : KernelM φ (Option ℕ)) := by
    refine allocateFrame_confined.bind fun frame => (orPanic frame).bind fun frame => ?_
    refine (zeroFrame_confined frame).bind fun _ => ?_
    split
    · refine (readCluster_confined).bind fun cluster => ?_
      cases cluster with
      | none => exact pure _
      | some cluster => exact (copyInto_confined _).bind fun _ => hcache frame
    · exact hcache frame
  refine get_bind fun k => ?_
  cases k.sharedFilePageCache ⟨identity, offset⟩ with
  | none => exact hload k
  | some frame => exact pure (R := Confined active) (some frame) k

variable (page : ℕ)

/-- One of a private mapping is loaded. -/
theorem loadPrivateFilePage_confined (area : MemoryArea)
    (file : FileLikeObject) (fileOffset readLen : ℕ) : Cmd.Always (Confined active)
      (loadPrivateFilePage pid page area file fileOffset readLen : KernelM φ Unit) := by
  unfold loadPrivateFilePage copyCachedFilePage
  refine (allocMapZeroedPage_confined hpid).bind fun frame => ?_
  split
  · refine (readCluster_confined).bind fun cluster => ?_
    exact (orPanic cluster).bind fun cluster => copyInto_confined _
  · exact pure _

/-- One of any file mapping is loaded. -/
theorem loadFilePage_confined (file : FileLikeObject) {identity : MappingIdentity}
    (offset fileBytes : ℕ) (shared : Bool) :
    Cmd.Always (Confined active)
      (loadFilePage pid page area file identity offset fileBytes shared : KernelM φ Unit) := by
  refine get_bind fun k => ?_
  split
  · exact pure (R := Confined active) () k
  · refine (orPanic _).bind (fun pageOffset => ?_) k
    refine (orPanic _).bind fun fileOffset => ?_
    refine (getOrLoadSharedFileFrame_confined _ _).bind fun frame => ?_
    grind [mapExistingFrame_confined, loadPrivateFilePage_confined]

/-- A page is loaded. -/
theorem applyPage_confined :
    Cmd.Always (Confined active) (applyPage pid page area : KernelM φ Unit) := by
  unfold applyPage applyPageCluster
  split
  · exact (allocMapZeroedPage_confined hpid).bind fun _ => pure _
  · refine (orPanic _).bind fun identity => (orPanic _).bind fun pageOffset => ?_
    refine (each fun i _ => loadFilePage_confined hpid _ _ _ _ _).bind fun _ => ?_
    refine get_bind fun k => ?_
    split
    · exact panic k
    · exact pure (R := Confined active) () k
  · refine (orPanic _).bind fun pageOffset => ?_
    exact (orPanic _).bind fun frame => mapExistingFrame_confined hpid page frame _

/-- An area is registered. -/
theorem registerArea_confined :
    Cmd.Always (Confined active) (registerArea pid area : KernelM φ Unit) := by
  refine (setAreas_confined hpid).bind fun _ => ?_
  split
  · exact each fun i _ => applyPage_confined hpid _
  · exact pure _

omit hpid

/-- A range is written back. -/
theorem writeBackAreaRange_confined (start end_ : ℕ) :
    Cmd.Always (Confined active) (writeBackAreaRange pid area start end_ : KernelM φ Unit) := by
  intro k r k' hrun
  obtain ⟨files, rfl⟩ := writeBackAreaRange_onlyFiles k r k' hrun
  exact of_process_eq rfl rfl rfl rfl

/-- A range is unmapped. -/
theorem unmap_confined (hpid : pid ∈ active) (start len : ℕ) :
    Cmd.Always (Confined active) (unmap pid start len : KernelM φ Unit) := by
  have hflush :
      Cmd.Always (Confined active) (flushFileMappings pid start len : KernelM φ Unit) := by
    intro k r k' hrun
    obtain ⟨files, rfl⟩ := flushFileMappings_onlyFiles pid start len k r k' hrun
    exact of_process_eq rfl rfl rfl rfl
  have htry : Cmd.Always (Confined active) (tryUnmap pid start len : KernelM φ Unit) := by
    unfold tryUnmap
    split
    · refine hflush.bind fun _ => (orPanic _).bind fun end_ => ?_
      refine (each fun page _ => unmapAndRelease_confined hpid).bind fun _ => ?_
      exact setAreas_confined hpid
    · exact pure _
  exact htry.attempt.bind fun _ => pure _

/-- All pages are released. -/
theorem releaseUserMappings_confined (hpid : pid ∈ active) :
    Cmd.Always (Confined active) (releaseUserMappings pid : KernelM φ Unit) := by
  refine get_bind fun k => ?_
  refine (each fun area _ => ?_).bind (fun _ => setAreas_confined hpid) k
  refine (writeBackAreaRange_confined _ _).attempt.bind fun _ => ?_
  exact each fun page _ => unmapAndRelease_confined hpid

end Files

end Seele.Memory
