import Mathlib.Logic.Relation
import Seele.Memory.Kernel

/-!
# What happens to a page

The commands of `Seele.Memory.Kernel` that work on pages do so in a few steps that are complete in
themselves: a frame is taken from the allocator, mapped and counted; a page is unmapped and its
reference dropped; a page is copied. `PageStep` lists them with what holds when they are taken, and
each command has a lemma that says that it is a sequence of such steps. What is to be shown about
all commands is then shown about the steps.
-/

namespace Seele.Memory

open Seele.Lib Kernel Cmd Function

variable {φ : Type}

/-! ## Dropping a reference -/

variable (k : Kernel φ)

/-- The frame goes back to the allocator. -/
def Kernel.handBack (frame : ℕ) : Kernel φ :=
  { k with freeFrames := frame :: k.freeFrames }

/-- One counted reference to the frame less, and the frame is handed back if it was the last. -/
def Kernel.dropCounted (frame count : ℕ) : Kernel φ :=
  if count - 1 = 0 then (k.setRef frame none).handBack frame
  else k.setRef frame (some (count - 1))

/-- What `release_mapping_ref` and the hand-over to the allocator make of the kernel. -/
def Kernel.releaseRef (frame : ℕ) : Kernel φ :=
  match k.frameRefCount frame with
  | none => k.handBack frame
  | some count => k.dropCounted frame count

/-- What `decrease_ref` and the hand-over to the allocator make of the kernel. -/
def Kernel.dropRef (frame : ℕ) : Kernel φ :=
  match k.frameRefCount frame with
  | none => k
  | some count => k.dropCounted frame count

/-- A count that goes down to zero frees the frame. -/
theorem Kernel.countDown_handBack (frame count : ℕ) :
    (if (k.countDown frame count).1 = true then (k.countDown frame count).2.handBack frame
      else (k.countDown frame count).2) = k.dropCounted frame count := by
  grind [countDown, dropCounted]

variable {k : Kernel φ} {frame : ℕ}

/-- A frame is handed back if it was the last reference. -/
theorem handBackIf_run {x : KernelM φ Bool} {t : Kernel φ} {last : Bool}
    (h : x k = some (.ok last, t)) : (do if ← x then deallocateFrame frame) k =
      some (.ok (), if last = true then t.handBack frame else t) := by
  rw [bind_of_ok h, ite_run]
  cases last <;> rfl

/-- A reference is dropped. -/
theorem dropRef_run (frame : ℕ) (k : Kernel φ) :
    dropRef frame k = some (.ok (), k.dropRef frame) := by
  unfold dropRef Kernel.dropRef
  cases hcount : k.frameRefCount frame with
  | none =>
    have hrun : decreaseRef frame k = some (.ok false, k) := by simp only [decreaseRef, hcount]
    exact handBackIf_run hrun
  | some count =>
  have hrun : decreaseRef frame k =
      some (.ok (k.countDown frame count).1, (k.countDown frame count).2) := by
    simp only [decreaseRef, hcount]
  rw [handBackIf_run hrun, k.countDown_handBack]

/-- The reference of a mapping is dropped. -/
theorem releaseRef_run : (do if ← releaseMappingRef frame then deallocateFrame frame) k =
      some (.ok (), k.releaseRef frame) := by
  unfold releaseRef
  cases hcount : k.frameRefCount frame with
  | none =>
    have hrun : releaseMappingRef frame k = some (.ok true, k) := by
      simp only [releaseMappingRef, hcount]
    exact handBackIf_run hrun
  | some count =>
  have hrun : releaseMappingRef frame k =
      some (.ok (k.countDown frame count).1, (k.countDown frame count).2) := by
    simp only [releaseMappingRef, hcount]
  rw [handBackIf_run hrun, k.countDown_handBack]

/-! ## Single commands -/

variable {pid page : ℕ} {k' : Kernel φ} {r : Except SyscallError Unit} {flags : PageTableFlags}

/-- A page is mapped only if it was not. -/
theorem mapTo_eq_some (h : mapTo pid page frame flags k = some (r, k')) :
    k.pte pid page = none ∧ r = .ok () ∧ k' = k.setPte pid page (some ⟨frame, flags⟩) := by
  unfold mapTo at h
  rw [get_bind] at h
  cases hpte : k.pte pid page with
  | none => grind [modify_eq_some.mp]
  | some pte =>
    rw [hpte] at h
    exact absurd h (by simp [Cmd.panic, bind])

/-- The flags of a mapped page are set. -/
theorem updateFlags_run (pid page : ℕ) (flags : PageTableFlags) (k : Kernel φ) :
    updateFlags pid page flags k = some (.ok (), match k.pte pid page with
      | none => k
      | some pte => k.setPte pid page (some ⟨pte.frame, flags⟩)) := by
  unfold updateFlags
  rw [get_bind]
  cases k.pte pid page <;> rfl

/-- A page is unmapped and its frame released. -/
theorem unmapAndRelease_run (pid page : ℕ) (k : Kernel φ) :
    unmapAndRelease pid page k = some (.ok (), match k.pte pid page with
      | none => k
      | some pte => (k.setPte pid page none).releaseRef pte.frame) := by
  have hunmap : unmapPage pid page k = some (.ok ((k.pte pid page).map Pte.frame),
      match k.pte pid page with
      | none => k
      | some _ => k.setPte pid page none) := by
    unfold unmapPage
    rw [get_bind]
    cases k.pte pid page <;> rfl
  unfold unmapAndRelease
  rw [bind_of_ok hunmap]
  cases k.pte pid page with
  | none => rfl
  | some pte => exact releaseRef_run

/-- A free frame is taken, or the kernel panics. -/
theorem allocate_bind_eq_some {α : Type} {f : ℕ → KernelM φ α} {r : Except SyscallError α}
    (h : (do let frame ← orPanic (← allocateFrame); f frame) k = some (r, k')) :
    ∃ frame rest, k.freeFrames = frame :: rest ∧
      f frame { k with freeFrames := rest } = some (r, k') := by
  cases hfree : k.freeFrames with
  | nil =>
    have hrun : allocateFrame k = some (.ok none, k) := by simp only [allocateFrame, hfree]
    rw [bind_of_ok hrun] at h
    obtain ⟨_, habs, -⟩ := orPanic_bind_eq_some h
    exact absurd habs (by simp)
  | cons frame rest =>
  have hrun : allocateFrame k = some (.ok (some frame), { k with freeFrames := rest }) := by
    simp only [allocateFrame, hfree]
  rw [bind_of_ok hrun] at h
  obtain ⟨_, hframe, h⟩ := orPanic_bind_eq_some h
  grind

/-! ## Steps -/

/-- The page and the area have an address in common. -/
def MemoryArea.meetsPage (area : MemoryArea) (page : ℕ) : Prop :=
  area.start / 4096 ≤ page ∧ page * 4096 < area.end_

/-- The kernel after a frame is mapped and counted. -/
def Kernel.mapCounted (k : Kernel φ) (pid page frame : ℕ) (flags : PageTableFlags) : Kernel φ :=
  (k.setPte pid page (some ⟨frame, flags⟩)).setRef frame
    (some ((k.frameRefCount frame).getD 0 + 1))

/-- The kernel after a new frame is put into the shared file cache. -/
def Kernel.cacheFrame (k : Kernel φ) (key : FilePageCacheKey) (frame : ℕ) (rest : List ℕ) :
    Kernel φ :=
  { k with
    freeFrames := rest
    frameRefCount :=
      update k.frameRefCount frame (some ((k.frameRefCount frame).getD 0 + 1))
    sharedFilePageCache := update k.sharedFilePageCache key (some frame) }

/-- The flags `replace_cow_page` gives a page. -/
def PageTableFlags.uncow (flags : PageTableFlags) : PageTableFlags :=
  { flags with cow := false, writable := true }

/-- The area is backed by a file. -/
def Data.isFile : Data → Bool
  | .file .. => true
  | _ => false

/-- What a step does to the owners of frames. -/
inductive StepKind where
  /-- No frame loses an owner. -/
  | gain
  /-- A page takes its frame for itself. -/
  | take
  /-- A frame loses an owner. -/
  | drop
  /-- A frame is lost that has no owner. -/
  | leak

/-- What the commands that work on single pages do, one step at a time. A page is mapped only into
an area of its process that it meets, with the flags of the area. -/
inductive PageStep : StepKind → Kernel φ → Kernel φ → Prop where
  /-- Files are read or written. -/
  | files (k : Kernel φ) (files : φ) : PageStep .gain k { k with files }
  /-- Bytes of a frame are written. -/
  | ram (k : Kernel φ) (frame : ℕ) (bytes : ℕ → UInt8) : PageStep .gain k (k.setRam frame bytes)
  /-- A frame is taken from the allocator and forgotten. -/
  | leak (k : Kernel φ) (frame : ℕ) (rest : List ℕ) (hfree : k.freeFrames = frame :: rest) :
      PageStep .leak k { k with freeFrames := rest }
  /-- A new frame is mapped. -/
  | mapNew (k : Kernel φ) (pid page : ℕ) (area : MemoryArea) (frame : ℕ) (rest : List ℕ)
      (hfree : k.freeFrames = frame :: rest) (hpte : k.pte pid page = none)
      (hmem : area ∈ (k.process pid).areas.memoryAreas) (hmeets : area.meetsPage page) :
      PageStep .gain k (({ k with freeFrames := rest }).mapCounted pid page frame area.flags)
  /-- A frame of the shared file cache is mapped. -/
  | mapCached (k : Kernel φ) (pid page : ℕ) (area : MemoryArea) (key : FilePageCacheKey)
      (frame : ℕ) (hkey : k.sharedFilePageCache key = some frame)
      (hshared : area.data.isSharedMapping = true) (hpte : k.pte pid page = none)
      (hmem : area ∈ (k.process pid).areas.memoryAreas) (hmeets : area.meetsPage page) :
      PageStep .gain k (k.mapCounted pid page frame area.flags)
  /-- A frame of an area with shared frames is mapped. -/
  | mapShared (k : Kernel φ) (pid page : ℕ) (area : MemoryArea) (frames : SharedFrames)
      (flags : PageTableFlags) (index frame : ℕ) (hdata : area.data = .shared frames flags)
      (hframe : frames.frames[index]? = some frame) (hpte : k.pte pid page = none)
      (hmem : area ∈ (k.process pid).areas.memoryAreas) (hmeets : area.meetsPage page) :
      PageStep .gain k (k.mapCounted pid page frame (area.flags.union flags))
  /-- A new frame is put into the shared file cache. -/
  | loadCached (k : Kernel φ) (key : FilePageCacheKey) (frame : ℕ) (rest : List ℕ)
      (hfree : k.freeFrames = frame :: rest) (hkey : k.sharedFilePageCache key = none) :
      PageStep .gain k (k.cacheFrame key frame rest)
  /-- A page is unmapped and its reference dropped. -/
  | release (k : Kernel φ) (pid page : ℕ) (pte : Pte) (hpte : k.pte pid page = some pte) :
      PageStep .drop k ((k.setPte pid page none).releaseRef pte.frame)
  /-- A page is made writable because no one else has its frame. -/
  | cowTake (k : Kernel φ) (pid page : ℕ) (pte : Pte) (hpte : k.pte pid page = some pte)
      (hcount : k.frameRefCount pte.frame = none ∨ k.frameRefCount pte.frame = some 1) :
      PageStep .take k
        ((k.setRef pte.frame none).setPte pid page (some ⟨pte.frame, pte.flags.uncow⟩))
  /-- A page is moved to a new frame, and the reference to the old one dropped. -/
  | cowCopy (k : Kernel φ) (pid page : ℕ) (pte : Pte) (frame : ℕ) (rest : List ℕ)
      (hpte : k.pte pid page = some pte) (hcount : (k.frameRefCount pte.frame).isSome)
      (hfree : k.freeFrames = frame :: rest) :
      PageStep .drop k
        ((({ k with freeFrames := rest }).mapCounted pid page frame pte.flags.uncow).dropRef
          pte.frame)

open PageStep

/-- Any number of steps of certain kinds. -/
abbrev PageSteps (kinds : Set StepKind) : Kernel φ → Kernel φ → Prop :=
  Relation.ReflTransGen fun k k' => ∃ kind ∈ kinds, PageStep kind k k'

variable {kinds : Set StepKind} {kind : StepKind}

/-- A single step. -/
theorem PageStep.steps (h : PageStep kind k k') (hkind : kind ∈ kinds) : PageSteps kinds k k' :=
  .single ⟨kind, hkind, h⟩

/-- More kinds of steps are allowed. -/
theorem PageSteps.mono {kinds' : Set StepKind} (hsub : kinds ⊆ kinds') (h : PageSteps kinds k k') :
    PageSteps kinds' k k' :=
  Relation.ReflTransGen.mono (fun _ _ ⟨kind, hkind, hstep⟩ => ⟨kind, hsub hkind, hstep⟩) k k' h

/-- The areas stay where only other fields change. -/
@[simp]
theorem Kernel.setProcess_areas (k : Kernel φ) (pid pid' : ℕ) (f : Process → Process)
    (h : ∀ p, (f p).areas = p.areas) :
    ((k.setProcess pid f).process pid').areas = (k.process pid').areas := by
  unfold setProcess
  grind

/-- A page table entry is not an area. -/
@[simp]
theorem Kernel.setPte_areas (k : Kernel φ) (pid page pid' : ℕ) (pte : Option Pte) :
    ((k.setPte pid page pte).process pid').areas = (k.process pid').areas :=
  k.setProcess_areas pid pid' _ fun _ => rfl

/-- A dropped reference changes no process. -/
@[simp]
theorem Kernel.dropCounted_process (k : Kernel φ) (frame count : ℕ) :
    (k.dropCounted frame count).process = k.process := by
  unfold dropCounted
  split_ifs with h
  · rfl
  · rfl

/-- A released reference changes no process. -/
@[simp]
theorem Kernel.releaseRef_process (k : Kernel φ) (frame : ℕ) :
    (k.releaseRef frame).process = k.process := by
  unfold releaseRef
  cases k.frameRefCount frame with
  | none => rfl
  | some count => exact k.dropCounted_process frame count

/-- `drop_ref` changes no process. -/
@[simp]
theorem Kernel.dropRef_process (k : Kernel φ) (frame : ℕ) :
    (k.dropRef frame).process = k.process := by
  grind [dropRef, k.dropCounted_process]

/-- Only the page table changes. -/
theorem Kernel.setPte_process (k : Kernel φ) {pid' : ℕ} {pte : Option Pte} :
    ∃ table, (k.setPte pid page pte).process pid' = { k.process pid' with pageTable := table } := by
  by_cases hpid : pid' = pid
  · subst hpid
    exact ⟨_, update_self ..⟩
  · exact ⟨_, update_of_ne hpid ..⟩

/-- A step on a page changes a page table. -/
theorem PageStep.process (h : PageStep kind k k') (pid : ℕ) :
    ∃ table, k'.process pid = { k.process pid with pageTable := table } := by
  cases h with
  | files _ files | ram _ frame bytes | leak _ frame rest hfree => exact ⟨_, rfl⟩
  | mapNew _ pid' page area frame rest hfree hpte hmem hmeets
  | mapCached _ pid' page area key frame hkey hshared hpte hmem hmeets => exact k.setPte_process
  | mapShared _ pid' page area frames flags index frame hdata hframe hpte hmem hmeets =>
    exact k.setPte_process
  | loadCached _ key frame rest hfree hkey => exact ⟨_, rfl⟩
  | release _ pid' page pte hpte =>
    rw [releaseRef_process]
    exact k.setPte_process
  | cowTake _ pid' page pte hpte hcount => exact k.setPte_process
  | cowCopy _ pid' page pte frame rest hpte hcount hfree =>
    rw [dropRef_process]
    exact k.setPte_process

/-- Steps on pages change the page tables. -/
theorem PageSteps.process (h : PageSteps kinds k k') (pid : ℕ) :
    ∃ table, k'.process pid = { k.process pid with pageTable := table } := by
  induction h with
  | refl => exact ⟨_, rfl⟩
  | tail _ hstep ih =>
    obtain ⟨kind, -, hstep⟩ := hstep
    obtain ⟨table, htable⟩ := hstep.process pid
    grind

/-- Steps on pages leave the areas alone. -/
theorem PageSteps.areas (h : PageSteps kinds k k') (pid : ℕ) :
    (k'.process pid).areas = (k.process pid).areas := by
  obtain ⟨table, htable⟩ := h.process pid
  rw [htable]

/-- Steps taken while a process has a certain area. -/
def StepsWithin (kinds : Set StepKind) (pid : ℕ) (area : MemoryArea) (k k' : Kernel φ) : Prop :=
  area ∈ (k.process pid).areas.memoryAreas → PageSteps kinds k k'

instance (pid : ℕ) (area : MemoryArea) : Std.Refl (StepsWithin (φ := φ) kinds pid area) :=
  ⟨fun _ _ => .refl⟩

instance (pid : ℕ) (area : MemoryArea) : IsTrans (Kernel φ) (StepsWithin kinds pid area) :=
  ⟨fun _ _ _ h1 h2 hmem =>
    (h1 hmem).trans (h2 (by rw [(h1 hmem).areas pid]; exact hmem))⟩

variable {area : MemoryArea}

/-- The area does not matter to these steps. -/
theorem StepsWithin.of_steps {α : Type} {x : KernelM φ α} (h : Always (PageSteps kinds) x) :
    Always (StepsWithin kinds pid area) x :=
  fun k r k' hrun _ => h k r k' hrun

/-! ## Commands as steps -/

/-- A page is unmapped. -/
theorem unmapAndRelease_steps (hdrop : .drop ∈ kinds) (pid page : ℕ) :
    Always (PageSteps kinds) (unmapAndRelease pid page : KernelM φ Unit) := by
  intro k r k' hrun
  rw [unmapAndRelease_run] at hrun
  cases hrun
  cases hpte : k.pte pid page with
  | none => exact .refl
  | some pte => exact (release k pid page pte hpte).steps hdrop

variable (hgain : .gain ∈ kinds)

include hgain

/-- Bytes are copied into a frame. -/
theorem copyInto_steps (source : ℕ → UInt8) {len : ℕ} :
    Always (PageSteps kinds) (copyInto frame source len : KernelM φ Unit) :=
  Always.modify fun k => (PageStep.ram k frame _).steps hgain

/-- A frame is zeroed. -/
theorem zeroFrame_steps : Always (PageSteps kinds) (zeroFrame frame : KernelM φ Unit) :=
  Always.modify fun k => (PageStep.ram k frame _).steps hgain

/-- A page gets a zeroed frame. -/
theorem allocMapZeroedPage_steps (hmeets : area.meetsPage page)
    {zeroPage : Bool} : Always (StepsWithin kinds pid area)
      (allocMapZeroedPage pid page area zeroPage : KernelM φ ℕ) := by
  intro k r k' hrun hmem
  obtain ⟨frame, rest, hfree, hrun⟩ := allocate_bind_eq_some hrun
  rcases bind_eq_some.mp hrun with ⟨_, k1, hmap, hrun⟩ | ⟨e, hmap, -⟩
  · obtain ⟨hpte, -, rfl⟩ := mapTo_eq_some hmap
    -- The frame is mapped and counted; what follows only writes to it.
    have hstep := mapNew k pid page area frame rest hfree hpte hmem hmeets
    have hrest : Always (PageSteps kinds) (do
        if zeroPage then zeroFrame frame
        return frame : KernelM φ ℕ) := by
      cases zeroPage with
      | false => exact .pure frame
      | true => exact (zeroFrame_steps hgain).bind fun _ => .pure frame
    exact (hstep.steps hgain).trans (hrest _ _ _ hrun)
  · exact absurd (mapTo_eq_some hmap).2.1 (by simp)

omit hgain in
/-- A frame that is there is mapped and counted. -/
theorem mapExistingFrame_eq_some (h : mapExistingFrame pid page frame flags k = some (r, k')) :
    k.pte pid page = none ∧ k' = k.mapCounted pid page frame flags := by
  rcases bind_eq_some.mp h with ⟨_, k1, hmap, hcount⟩ | ⟨e, hmap, -⟩
  · obtain ⟨hpte, -, rfl⟩ := mapTo_eq_some hmap
    cases hcount
    exact ⟨hpte, rfl⟩
  · exact absurd (mapTo_eq_some hmap).2.1 (by simp)

omit hgain in
/-- The second entry counts. -/
theorem Kernel.setPte_setPte (k : Kernel φ) (pid page : ℕ) (a b : Option Pte) :
    (k.setPte pid page a).setPte pid page b = k.setPte pid page b := by
  simp [setPte, setProcess]

omit hgain in
/-- The entry that was set. -/
@[simp]
theorem Kernel.pte_setPte_self (k : Kernel φ) (pid page : ℕ) (pte : Option Pte) :
    (k.setPte pid page pte).pte pid page = pte := by
  simp [Kernel.setPte, Kernel.setProcess, Kernel.pte]

/-- A copy replaces the shared frame. -/
theorem cowCopy_steps (hdrop : .drop ∈ kinds) {pte : Pte}
    {source : ℕ → UInt8} (hpte : k.pte pid page = some pte)
    (hcount : (k.frameRefCount pte.frame).isSome) (h : (do
      let newFrame ← orPanic (← allocateFrame)
      let _ ← unmapPage pid page
      copyInto newFrame source 4096
      mapTo pid page newFrame pte.flags.uncow
      increaseRef newFrame
      dropRef pte.frame) k = some (r, k')) : PageSteps kinds k k' := by
  obtain ⟨frame, rest, hfree, h⟩ := allocate_bind_eq_some h
  have hunmap : unmapPage pid page ({ k with freeFrames := rest }) =
      some (.ok (some pte.frame), ({ k with freeFrames := rest }).setPte pid page none) := by
    have hpte' : ({ k with freeFrames := rest } : Kernel φ).pte pid page = some pte := hpte
    unfold unmapPage
    rw [get_bind, hpte']
    rfl
  rw [bind_of_ok hunmap, copyInto, modify_bind] at h
  generalize (fun i => if i < 4096 then source i else _) = bytes at h
  rcases bind_eq_some.mp h with ⟨_, k1, hmap, h⟩ | ⟨e, hmap, -⟩
  · obtain ⟨-, -, rfl⟩ := mapTo_eq_some hmap
    rw [increaseRef, increaseRefBy, modify_bind, dropRef_run] at h
    cases h
    -- Writing the new frame first and mapping it afterwards comes to the same.
    have hstep := cowCopy (k.setRam frame bytes) pid page pte frame rest hpte hcount hfree
    have hsame := ({ k.setRam frame bytes with freeFrames := rest }).setPte_setPte pid page none
      (some ⟨frame, pte.flags.uncow⟩)
    unfold mapCounted at hstep
    rw [← hsame] at hstep
    exact ((ram k frame bytes).steps hgain).trans (hstep.steps hdrop)
  · exact absurd (mapTo_eq_some hmap).2.1 (by simp)

/-- A write to a shared page takes it or copies it. -/
theorem replaceCowPage_steps (htake : .take ∈ kinds) (hdrop : .drop ∈ kinds) {addr : ℕ} :
    Always (PageSteps kinds) (replaceCowPage pid addr : KernelM φ Unit) := by
  intro k r k' hrun
  unfold replaceCowPage at hrun
  rw [get_bind] at hrun
  cases hpte : k.pte pid (addr / 4096) with
  | none =>
    rw [hpte] at hrun
    cases hrun
    exact .refl
  | some pte =>
  rw [hpte] at hrun
  by_cases hone : k.frameRefCount pte.frame = none ∨ k.frameRefCount pte.frame = some 1
  · have hrun₁ : takeExclusiveRef pte.frame k = some (.ok true, k.setRef pte.frame none) := by
      unfold takeExclusiveRef
      rcases hone with hnone | hsome
      · have hsame : k.setRef pte.frame none = k := by
          unfold setRef
          rw [← hnone, update_eq_self]
        simp only [hnone, hsame]
      · simp only [hsome, if_true]
    dsimp only at hrun
    rw [bind_of_ok hrun₁, if_pos rfl, updateFlags_run] at hrun
    have hpte' : (k.setRef pte.frame none).pte pid (addr / 4096) = some pte := hpte
    rw [hpte'] at hrun
    cases hrun
    exact (cowTake k pid (addr / 4096) pte hpte hone).steps htake
  obtain ⟨hnone, hne⟩ := not_or.mp hone
  obtain ⟨count, hcount⟩ := Option.ne_none_iff_exists'.mp hnone
  have hrun₁ : takeExclusiveRef pte.frame k = some (.ok false, k) := by
    have hne1 : count ≠ 1 := fun h => hne (by rw [hcount, h])
    simp only [takeExclusiveRef, hcount, if_neg hne1]
  dsimp only at hrun
  rw [bind_of_ok hrun₁, if_neg Bool.false_ne_true] at hrun
  exact cowCopy_steps hgain hdrop hpte (by rw [hcount]; rfl) hrun

section Files

variable [FileLayer φ]

/-- The files are read. -/
theorem readCluster_steps {file : FileLikeObject} (pageIndex : ℕ) :
    Always (PageSteps kinds) (readCluster file pageIndex : KernelM φ (Option ClusterRead)) := by
  intro k r k' hrun
  cases hrun
  exact (files k _).steps hgain

/-- What a page of a cluster holds: the bytes of the file, and zeros after them. -/
def clusterPage (cluster : ClusterRead) (offset readLen : ℕ) (i : ℕ) : UInt8 :=
  let clusterOffset := offset % (4096 * 16) / 4096 * 4096
  if i < min readLen (cluster.validLen - clusterOffset) then cluster.data (clusterOffset + i) else 0

variable {file : FileLikeObject}

omit hgain in
/-- A page of a shared file is loaded. -/
theorem loadSharedFileFrame_eq_some {key : FilePageCacheKey} {readLen : ℕ}
    {r : Except SyscallError (Option ℕ)}
    (h : loadSharedFileFrame file key readLen k = some (r, k')) :
    ∃ frame rest, k.freeFrames = frame :: rest ∧ ((readLen = 0 ∧ r = .ok (some frame) ∧
          k' = (k.setRam frame fun _ => 0).cacheFrame key frame rest) ∨
        (∃ files, FileLayer.readCluster k.files file (key.offset / 4096) = (none, files) ∧
          r = .ok none ∧ k' = { k.setRam frame (fun _ => 0) with files, freeFrames := rest }) ∨
        ∃ cluster files,
          FileLayer.readCluster k.files file (key.offset / 4096) = (some cluster, files) ∧
            r = .ok (some frame) ∧
            k' = (({ k with files }).setRam frame
              (clusterPage cluster key.offset readLen)).cacheFrame key frame rest) := by
  obtain ⟨frame, rest, hfree, h⟩ := allocate_bind_eq_some h
  refine ⟨frame, rest, hfree, ?_⟩
  rw [zeroFrame, modify_bind] at h
  by_cases hlen : readLen = 0
  · rw [if_neg (not_not.mpr hlen)] at h
    cases h
    exact .inl ⟨hlen, rfl, rfl⟩
  rw [if_pos hlen] at h
  obtain ⟨read, files, hread⟩ : ∃ read files,
      FileLayer.readCluster k.files file (key.offset / 4096) = (read, files) := ⟨_, _, rfl⟩
  have hrun : readCluster file (key.offset / 4096)
        (({ k with freeFrames := rest }).setRam frame fun _ => 0) =
      some (.ok read, { k.setRam frame (fun _ => 0) with files, freeFrames := rest }) := by
    simp [setRam, hread, readCluster]
  rw [bind_of_ok hrun] at h
  cases read with
  | none =>
    cases h
    exact .inr (.inl ⟨files, hread, rfl, rfl⟩)
  | some cluster =>
  cases h
  refine .inr (.inr ⟨cluster, files, hread, rfl, ?_⟩)
  -- The zeros under the copied bytes are those of the new frame.
  simp only [setRam, update_self, update_idem]
  rfl

variable {identity : MappingIdentity}

/-- A lookup of the shared file cache is a sequence of steps, and the frame it returns is the one of
its key. -/
theorem getOrLoadSharedFileFrame_steps (hleak : .leak ∈ kinds)
    {offset readLen : ℕ} {r : Except SyscallError (Option ℕ)}
    (h : getOrLoadSharedFileFrame file identity offset readLen k = some (r, k')) :
    PageSteps kinds k k' ∧
      ∀ frame, r = .ok (some frame) → k'.sharedFilePageCache ⟨identity, offset⟩ = some frame := by
  unfold getOrLoadSharedFileFrame at h
  rw [get_bind] at h
  cases hkey : k.sharedFilePageCache ⟨identity, offset⟩ with
  | some frame =>
    rw [hkey] at h
    cases h
    grind
  | none =>
  rw [hkey] at h
  obtain ⟨frame, rest, hfree, hcases⟩ := loadSharedFileFrame_eq_some h
  rcases hcases with ⟨-, rfl, rfl⟩ | ⟨files, -, rfl, rfl⟩ | ⟨cluster, files, -, rfl, rfl⟩
  · refine ⟨.head ⟨_, hgain, .ram k frame _⟩
      (.single ⟨_, hgain, .loadCached _ _ frame rest hfree hkey⟩), ?_⟩
    intro frame' hr
    rw [← Except.ok.inj hr]
    exact update_self ..
  · refine ⟨.head ⟨_, hgain, .ram k frame _⟩ (.head ⟨_, hgain, .files _ files⟩
      (.single ⟨_, hleak, .leak _ frame rest hfree⟩)), ?_⟩
    simp
  refine ⟨.head ⟨_, hgain, .files k files⟩ (.head ⟨_, hgain, .ram _ frame _⟩
    (.single ⟨_, hgain, .loadCached _ _ frame rest hfree hkey⟩)), ?_⟩
  intro frame' hr
  rw [← Except.ok.inj hr]
  exact update_self ..

/-- A page of a file is copied. -/
theorem copyCachedFilePage_steps {fileOffset : ℕ} (readLen : ℕ) : Always (PageSteps kinds)
      (copyCachedFilePage file fileOffset readLen frame : KernelM φ Unit) := by
  unfold copyCachedFilePage
  split_ifs with hlen
  · refine (readCluster_steps hgain _).bind fun read => ?_
    refine (Always.orPanic read).bind fun cluster => ?_
    exact copyInto_steps hgain _
  · exact .pure ()

/-- A page of a private mapping is loaded. -/
theorem loadPrivateFilePage_steps (hmeets : area.meetsPage page) (fileOffset readLen : ℕ) :
    Always (StepsWithin kinds pid area)
      (loadPrivateFilePage pid page area file fileOffset readLen : KernelM φ Unit) :=
  (allocMapZeroedPage_steps hgain hmeets).bind fun _ =>
    .of_steps (copyCachedFilePage_steps hgain readLen)

/-- A page of a file mapping is loaded. -/
theorem loadFilePage_steps (hleak : .leak ∈ kinds) (hmeets : area.meetsPage page)
    {offset fileBytes : ℕ} {shared : Bool} (hshared : area.data.isSharedMapping = shared) :
    Always (StepsWithin kinds pid area)
      (loadFilePage pid page area file identity offset fileBytes shared : KernelM φ Unit) := by
  intro k r k' hrun hmem
  unfold loadFilePage at hrun
  rw [get_bind] at hrun
  split_ifs at hrun with hsome
  · cases hrun
    exact .refl
  obtain ⟨pageOffset, -, hrun⟩ := orPanic_bind_eq_some hrun
  obtain ⟨fileOffset, -, hrun⟩ := orPanic_bind_eq_some hrun
  rcases bind_eq_some.mp hrun with ⟨sharedFrame, k1, hload, hrun⟩ | ⟨e, hload, -⟩
  · obtain ⟨hsteps, hcached⟩ := getOrLoadSharedFileFrame_steps hgain hleak hload
    have hmem1 : area ∈ (k1.process pid).areas.memoryAreas := by
      rw [hsteps.areas pid]
      exact hmem
    have hprivate : ∀ fileOffset readLen, Always (StepsWithin kinds pid area)
        (loadPrivateFilePage pid page area file fileOffset readLen : KernelM φ Unit) :=
      loadPrivateFilePage_steps hgain hmeets
    match shared, sharedFrame, hrun with
    | true, some frame, hrun =>
      obtain ⟨hpte, rfl⟩ := mapExistingFrame_eq_some hrun
      grind [mapCached]
    | true, none, hrun => exact hsteps.trans (hprivate _ _ k1 r k' hrun hmem1)
    | false, _, hrun => exact hsteps.trans (hprivate _ _ k1 r k' hrun hmem1)
  · exact (getOrLoadSharedFileFrame_steps hgain hleak hload).1

omit hgain

/-- The pages of a cluster lie in the area. -/
theorem add_pages_lt {p i start end_ : ℕ} (hle : start ≤ p)
    (hi : i < (end_ - start) / 4096 - (p - start) / 4096) : p + i * 4096 < end_ := by
  have hspan := Nat.div_mul_le_self (end_ - start) 4096
  have hpart := Nat.lt_div_mul_add (a := p - start) (b := 4096) (by decide)
  generalize (end_ - start) / 4096 = pages at *
  generalize (p - start) / 4096 = index at *
  omega

/-- A page of the cluster loop meets the area as the first one does: the loop stays below the number
of pages that are left. -/
theorem meetsPage_add {i clusterPages : ℕ} (hmeets : area.meetsPage page)
    (hle : area.start ≤ page * 4096)
    (hi : i < min clusterPages (area.pages - (page * 4096 - area.start) / 4096)) :
    area.meetsPage (page + i) := by
  refine ⟨Nat.le_add_right_of_le hmeets.1, ?_⟩
  rw [Nat.add_mul]
  exact add_pages_lt hle (Nat.lt_of_lt_of_le hi (Nat.min_le_right ..))

/-- A difference that does not panic. -/
theorem subU64_eq_some {a b n : ℕ} (h : subU64 a b = some n) : b ≤ a ∧ n = a - b := by
  unfold subU64 at h
  grind

/-- A cluster of pages is loaded. -/
theorem applyPageCluster_steps (hgain : .gain ∈ kinds)
    (hleak : area.data.isFile = true → .leak ∈ kinds) (hmeets : area.meetsPage page)
    {clusterPages : ℕ} :
    Cmd.Always (StepsWithin kinds pid area)
      (applyPageCluster pid page area clusterPages : KernelM φ Unit) := by
  cases hdata : area.data <;> simp only [applyPageCluster, hdata]
  case normal permissions =>
    exact (allocMapZeroedPage_steps hgain hmeets).bind fun _ => .pure ()
  case file offset fileBytes zeroFill file shared =>
    refine (Cmd.Always.orPanic _).bind fun identity => ?_
    intro k r k' hrun
    obtain ⟨pageOffset, hoffset, hrun⟩ := orPanic_bind_eq_some hrun
    obtain ⟨hle, rfl⟩ := subU64_eq_some hoffset
    refine (Cmd.Always.bind (R := StepsWithin kinds pid area) ?_ fun _ => ?_) k r k' hrun
    · refine .each fun i hi => ?_
      have hmeets' := meetsPage_add hmeets hle (List.mem_range.mp hi)
      have hfile : area.data.isFile = true := by rw [hdata]; rfl
      exact loadFilePage_steps hgain (hleak hfile) hmeets' (by rw [hdata]; rfl)
    refine .get_bind fun k r k' hrun => ?_
    cases hpte : (k.pte pid page).isNone with
    | true => simp [hpte, Cmd.panic] at hrun
    | false =>
      rw [hpte, if_neg Bool.false_ne_true] at hrun
      cases hrun
      exact refl _
  case shared frames flags =>
    intro k r k' hrun hmem
    obtain ⟨pageOffset, -, hrun⟩ := orPanic_bind_eq_some hrun
    obtain ⟨frame, hframe, hrun⟩ := orPanic_bind_eq_some hrun
    obtain ⟨hpte, rfl⟩ := mapExistingFrame_eq_some hrun
    grind [mapShared]

/-- Only the files have changed. -/
def OnlyFiles (k k' : Kernel φ) : Prop :=
  ∃ files, k' = { k with files }

omit [FileLayer φ] in
/-- Files are not memory. -/
theorem OnlyFiles.steps (h : OnlyFiles k k') (hgain : .gain ∈ kinds) : PageSteps kinds k k' := by
  obtain ⟨files, rfl⟩ := h
  exact (PageStep.files k files).steps hgain

instance : Std.Refl (OnlyFiles (φ := φ)) :=
  ⟨fun k => ⟨k.files, rfl⟩⟩

instance : IsTrans (Kernel φ) OnlyFiles :=
  ⟨by
    rintro k _ _ ⟨files, rfl⟩ ⟨files', rfl⟩
    exact ⟨files', rfl⟩⟩

/-- A range is written back to its file. -/
theorem writeBackAreaRange_onlyFiles {start end_ : ℕ} :
    Always OnlyFiles (writeBackAreaRange pid area start end_ : KernelM φ Unit) := by
  unfold writeBackAreaRange
  split
  · rename_i offset fileBytes zeroFill file hdata
    dsimp only
    split
    · exact .pure ()
    refine .get_bind fun k r k' hrun => ?_
    -- The cached pages of the file are dropped, then the chunks are written.
    rw [modify_bind] at hrun
    obtain ⟨writes, -, hrun⟩ := orPanic_bind_eq_some hrun
    cases hrun
    exact ⟨_, rfl⟩
  · exact .pure ()

/-- All files of a range are written back. -/
theorem flushFileMappings_onlyFiles (pid start len : ℕ) :
    Always OnlyFiles (flushFileMappings pid start len : KernelM φ Unit) := by
  unfold flushFileMappings
  split_ifs with hlen
  · refine (Always.orPanic _).bind fun end_ => ?_
    refine Always.get_bind fun k r k' hrun => ?_
    refine Always.each (fun area _ => ?_) k r k' hrun
    exact writeBackAreaRange_onlyFiles
  · exact .pure ()

end Files

end Seele.Memory
