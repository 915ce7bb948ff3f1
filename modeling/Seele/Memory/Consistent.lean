import Seele.Memory.Layout
import Seele.Memory.Owners
import Seele.Memory.Sharing

/-!
# Consistent states of the kernel

Between two calls the books are right for the `SharedFrames` objects that areas refer to, a process
that does not exist maps nothing, and ids that have not been given out are not in use. This is
`Kernel.Consistent`. Inside a call there may also be objects that no area refers to yet (`extra`).

Two relations between the states before and after a command are built on it. Both keep the state
consistent, and under both a frame that is owned or free was owned or free before. Under `Conserves`
a frame which was owned or free still is, so a frame that loses its last owner is handed back; under
`Retains` a frame which was owned is still owned.
-/

namespace Seele.Memory

open Seele.Lib Kernel MemoryArea List

variable {φ : Type} {kinds : Set StepKind} {kind : StepKind}

/-! ## What steps on pages leave alone -/

variable (k : Kernel φ)

/-- The part of the kernel that no step on a page changes. -/
def Kernel.registry :
    List ℕ × ℕ × ℕ × (ℕ → Option SysvShmSegment) × ℕ × ℕ × (ℕ → Option DumbBuffer) :=
  (k.pids, k.nextObject, k.nextShmid, k.segments, k.nextHandle, k.nextMapOffset, k.dumbBuffers)

/-- A dropped reference leaves the registry alone. -/
@[simp]
theorem Kernel.dropCounted_registry (frame count : ℕ) :
    (k.dropCounted frame count).registry = k.registry := by
  unfold dropCounted
  split_ifs with h
  · rfl
  · rfl

/-- A released reference leaves the registry alone. -/
@[simp]
theorem Kernel.releaseRef_registry (frame : ℕ) : (k.releaseRef frame).registry = k.registry := by
  unfold releaseRef
  cases k.frameRefCount frame with
  | none => rfl
  | some count => exact k.dropCounted_registry frame count

/-- `drop_ref` leaves the registry alone. -/
@[simp]
theorem Kernel.dropRef_registry (frame : ℕ) : (k.dropRef frame).registry = k.registry := by
  grind [dropRef, k.dropCounted_registry]

variable {k k' : Kernel φ}

/-- A step on a page leaves the registry alone. -/
theorem PageStep.registry (h : PageStep kind k k') : k'.registry = k.registry := by
  cases h with
  | release _ pid page pte hpte => exact releaseRef_registry ..
  | cowCopy _ pid page pte frame rest hpte hcount hfree => exact dropRef_registry ..
  | _ => rfl

/-- A process without areas and pages. -/
def Kernel.Absent (k : Kernel φ) (pid : ℕ) : Prop :=
  (k.process pid).areas.memoryAreas = [] ∧ ∀ page, k.pte pid page = none

variable {pid : ℕ} {pid' frame start end_ : ℕ}

/-- A process that does not exist has no page. -/
theorem Kernel.Absent.setPte (h : k.Absent pid) (hne : pid ≠ pid') (page : ℕ)
    (pte : Option Pte) : (k.setPte pid' page pte).Absent pid := by
  refine ⟨?_, fun page' => ?_⟩
  · rw [k.setPte_areas]
    exact h.1
  · rw [k.pte_setPte, if_neg fun heq => hne heq.1]
    exact h.2 page'

/-- A step on a page gives it no page. -/
theorem PageStep.absent (h : PageStep kind k k') (ha : k.Absent pid) : k'.Absent pid := by
  -- A step works on a process that has the area of the page, or the page itself.
  have hmem : ∀ {pid' : ℕ} {area : MemoryArea}, area ∈ (k.process pid').areas.memoryAreas →
      pid ≠ pid' := by
    rintro pid' area hmem rfl
    rw [ha.1] at hmem
    exact absurd hmem not_mem_nil
  have hpage : ∀ {pid' page : ℕ} {pte : Pte}, k.pte pid' page = some pte → pid ≠ pid' := by
    rintro pid' page pte hpte rfl
    rw [ha.2] at hpte
    exact absurd hpte (by simp)
  cases h with
  | files _ files | ram _ frame bytes | leak _ frame rest hfree
  | loadCached _ key frame rest hfree hkey => exact ha
  | mapNew _ pid' page area frame rest hfree hpte harea hmeets => exact ha.setPte (hmem harea) ..
  | mapCached _ pid' page area key frame hkey hshared hpte harea hmeets
  | mapShared _ pid' page area frames flags index frame hdata hframe hpte harea hmeets =>
    exact ha.setPte (hmem harea) ..
  | release _ pid' page pte hpte =>
    have h' := ha.setPte (hpage hpte) page none
    unfold Kernel.Absent Kernel.pte at h' ⊢
    rw [releaseRef_process]
    exact h'
  | cowTake _ pid' page pte hpte hcount => exact ha.setPte (hpage hpte) ..
  | cowCopy _ pid' page pte frame rest hpte hcount hfree =>
  have h' := ha.setPte (hpage hpte) page (some ⟨frame, pte.flags.uncow⟩)
  unfold Kernel.Absent Kernel.pte at h' ⊢
  rw [dropRef_process]
  exact h'

/-- Steps on pages leave the registry alone. -/
theorem PageSteps.registry (h : PageSteps kinds k k') : k'.registry = k.registry := by
  induction h with
  | refl => rfl
  | tail _ hstep ih =>
    obtain ⟨kind, -, hstep⟩ := hstep
    rw [hstep.registry, ih]

/-- Steps on pages make no process. -/
theorem PageSteps.absent (h : PageSteps kinds k k') (ha : k.Absent pid) : k'.Absent pid := by
  induction h with
  | refl => exact ha
  | tail _ hstep ih =>
    obtain ⟨kind, -, hstep⟩ := hstep
    exact hstep.absent ih

/-! ## Consistency -/

/-- A state between two calls, or inside one with objects that no area refers to yet. -/
structure Kernel.Consistent (k : Kernel φ) (extra : Set SharedFrames) : Prop where
  /-- The counts and the free list agree with the owners. -/
  books : k.Books (k.live ∪ extra) []
  /-- A process that does not exist maps nothing. -/
  absent : ∀ pid, pid ∉ k.pids → k.Absent pid
  /-- The next object is a new one. -/
  fresh : ∀ frames ∈ k.live ∪ extra, frames.object < k.nextObject
  /-- The next segment has a new id. -/
  segments : ∀ shmid, k.nextShmid < shmid → k.segments shmid = none
  /-- The next buffer has a new handle. -/
  buffers : ∀ handle, k.nextHandle ≤ handle → k.dumbBuffers handle = none

/-- The second state is consistent if the first is, and the same frames are owned or free. -/
def Conserves (extra extra' : Set SharedFrames) (k k' : Kernel φ) : Prop :=
  k.Consistent extra → k'.Consistent extra' ∧
    ∀ frame, k'.Tracks (k'.live ∪ extra') [] frame ↔ k.Tracks (k.live ∪ extra) [] frame

/-- The second state is consistent if the first is, a frame that was owned is owned, and one that is
owned or free was so before. -/
def Retains (k k' : Kernel φ) : Prop :=
  k.Consistent ∅ → k'.Consistent ∅ ∧
    (∀ frame, k'.Tracks k'.live [] frame → k.Tracks k.live [] frame) ∧
    ∀ frame, (k.owners k.live frame).Nonempty → (k'.owners k'.live frame).Nonempty

variable {extra extra' extra'' : Set SharedFrames}

/-- What the registry holds. -/
theorem Kernel.registry_fields (h : k'.registry = k.registry) :
    k'.pids = k.pids ∧ k'.nextObject = k.nextObject ∧ k'.nextShmid = k.nextShmid ∧
      k'.segments = k.segments ∧ k'.nextHandle = k.nextHandle ∧ k'.dumbBuffers = k.dumbBuffers := by
  grind [registry]

/-- A state is as consistent as one with the same registry and the same areas, if its books are
right. -/
theorem Kernel.Consistent.of_registry (hk : k.Consistent extra)
    (hregistry : k'.registry = k.registry) (hlive : k'.live ∪ extra' ⊆ k.live ∪ extra)
    (habsent : ∀ pid, pid ∉ k.pids → k'.Absent pid) (hbooks : k'.Books (k'.live ∪ extra') []) :
    k'.Consistent extra' := by
  obtain ⟨hpids, hobject, hshmid, hsegments, hhandle, hbuffers⟩ := registry_fields hregistry
  constructor
  · exact hbooks
  · grind
  · intro frames hframes
    rw [hobject]
    exact hk.fresh frames (hlive hframes)
  · rw [hshmid, hsegments]
    exact hk.segments
  · rw [hhandle, hbuffers]
    exact hk.buffers

variable (h : PageSteps kinds k k')

include h

/-- Steps on pages keep the kernel consistent. -/
theorem PageSteps.consistent (hk : k.Consistent extra) :
    k'.Consistent extra := by
  grind [hk.of_registry, h.registry, h.absent, hk.absent, h.live_eq, h.books, hk.books]

/-- No frame is lost by them without a leak. -/
theorem PageSteps.conserves (hkinds : .leak ∉ kinds) :
    Conserves extra extra k k' := by
  intro hk
  refine ⟨h.consistent hk, fun frame => ?_⟩
  rw [h.live_eq]
  exact (h.keeps hkinds Set.subset_union_left hk.books).2 frame

/-- Steps on pages release nothing without a drop. -/
theorem PageSteps.retains (hkinds : .drop ∉ kinds) : Retains k k' := by
  intro hk
  refine ⟨h.consistent hk, fun frame htracks => ?_, fun frame hne => ?_⟩
  · rw [h.live_eq] at htracks
    have hbooks := hk.books
    grind [Set.union_empty, h.tracks]
  · grind [h.live_eq, hne.mono, h.owners_subset]

omit h

/-! ## Objects that are created and dropped -/

variable {live : Set SharedFrames} {pending : List ℕ} {object : SharedFrames}

variable {live : Set SharedFrames}

/-- The owners when an object comes to life. -/
theorem Kernel.owners_insert (k : Kernel φ) :
    k.owners (insert object live) frame =
      k.owners live frame ∪ positionOwners (Owner.sharedFrames object) object.frames frame := by
  ext owner
  cases owner with
  | sharedFrames frames index =>
    simp only [mem_owners, Owns, Set.mem_union, positionOwners]
    grind
  | mapping pid page | segment shmid index | dumbBuffer handle index
  | cacheEntry key => simp [mem_owners, Owns, positionOwners]

/-- A new object owned nothing before. -/
theorem Kernel.disjoint_object (k : Kernel φ) (h : object ∉ live) : Disjoint (k.owners live frame)
      (positionOwners (Owner.sharedFrames object) object.frames frame) := by
  rw [Set.disjoint_left]
  rintro owner howner ⟨index, -, rfl⟩
  exact h howner.1

/-- The places of an object are different owners. -/
theorem sharedFrames_injective : Function.Injective (Owner.sharedFrames object) :=
  fun _ _ h => (Owner.sharedFrames.inj h).2

variable (k)

/-- Pending references become those of an object. -/
theorem Kernel.keeps_newObject (h : object ∉ live) :
    k.Keeps live (object.frames ++ pending) k (insert object live) pending := by
  intro hb
  refine ⟨.handOverAll (sharedFrames_injective) (fun f => k.owners_insert)
    (fun f => k.disjoint_object h) hb (fun _ => id), fun frame => ?_⟩
  exact tracked_positions (fun f => k.owners_insert) frame

/-- The references of an object become pending. -/
theorem Kernel.keeps_freeObject (h : object ∉ live) :
    k.Keeps (insert object live) pending k live (object.frames ++ pending) := by
  intro hb
  refine ⟨.takeBackAll (sharedFrames_injective) (fun f => k.owners_insert)
    (fun f => k.disjoint_object h) hb (fun _ => id) (fun _ => id), fun frame => ?_⟩
  exact (tracked_positions (fun f => k.owners_insert) frame).symm

/-- Pending references are dropped one by one. -/
theorem Kernel.keeps_dropAll (frames : List ℕ) :
    k.Keeps live (frames ++ pending) (frames.foldl dropRef k) live pending := by
  induction frames generalizing k with
  | nil => exact .refl k
  | cons frame frames ih => exact (k.keeps_dropRef).trans (ih (k.dropRef frame))

/-- Only counts and free frames change. -/
theorem Kernel.dropAll_fields (frames : List ℕ) :
    (frames.foldl dropRef k).process = k.process ∧
      (frames.foldl dropRef k).registry = k.registry := by
  induction frames generalizing k with
  | nil => exact ⟨rfl, rfl⟩
  | cons frame frames ih =>
    obtain ⟨hprocess, hregistry⟩ := ih (k.dropRef frame)
    exact ⟨hprocess.trans (k.dropRef_process frame), hregistry.trans (k.dropRef_registry frame)⟩

variable {k}

/-- `Drop` of one `SharedFrames` object. -/
def Kernel.dropObject (k : Kernel φ) (object : SharedFrames) : Kernel φ :=
  object.frames.foldl dropRef k

/-- Dropping objects changes neither. -/
theorem Kernel.dropObjects_fields (k : Kernel φ) (objects : List SharedFrames) :
    (objects.foldl dropObject k).process = k.process ∧
      (objects.foldl dropObject k).registry = k.registry := by
  induction objects generalizing k with
  | nil => exact ⟨rfl, rfl⟩
  | cons object objects ih =>
    obtain ⟨hprocess, hregistry⟩ := ih (k.dropObject object)
    obtain ⟨hprocess', hregistry'⟩ := k.dropAll_fields object.frames
    exact ⟨hprocess.trans hprocess', hregistry.trans hregistry'⟩

/-- Objects that nobody uses are dropped. -/
theorem Kernel.keeps_dropObjects (k : Kernel φ) {objects : List SharedFrames}
    (hnodup : objects.Nodup) (hnot : ∀ object ∈ objects, object ∉ live) :
    k.Keeps (live ∪ {object | object ∈ objects}) pending (objects.foldl dropObject k) live
      pending := by
  induction objects generalizing k with
  | nil =>
    have hnone : live ∪ {object | object ∈ ([] : List SharedFrames)} = live := by simp
    rw [hnone]
    exact .refl k
  | cons object objects ih =>
  obtain ⟨hhead, htail⟩ := nodup_cons.mp hnodup
  have hsplit : live ∪ {other | other ∈ object :: objects} =
      insert object (live ∪ {other | other ∈ objects}) := by
    grind
  have hfresh : object ∉ live ∪ {other | other ∈ objects} := by grind
  rw [hsplit]
  refine ((k.keeps_freeObject hfresh).trans (k.keeps_dropAll object.frames)).trans ?_
  exact ih (k.dropObject object) htail fun other hother =>
    hnot other (mem_cons_of_mem object hother)

/-! ## Edits of the areas of a process -/

/-- The kernel with edited areas of a process. -/
def Kernel.editAreas (k : Kernel φ) (pid : ℕ) (edit : AreaMap → AreaMap) : Kernel φ :=
  k.setProcess pid fun p => { p with areas := edit p.areas }

/-- The object an area refers to. -/
def MemoryArea.object? (area : MemoryArea) : Option SharedFrames :=
  match area.data with
  | .shared frames _ => some frames
  | _ => none

variable {area : MemoryArea}

/-- The object of an area. -/
theorem MemoryArea.object?_eq_some :
    area.object? = some object ↔ ∃ flags, area.data = .shared object flags := by
  unfold object?
  grind

/-- An object is alive if some area has it. -/
theorem Kernel.mem_live : object ∈ k.live ↔
      ∃ pid, ∃ area ∈ (k.process pid).areas.memoryAreas, area.object? = some object := by
  simp only [object?_eq_some]
  rfl

/-- The objects that `dropSharedFrames` drops. -/
def Kernel.deadObjects (k : Kernel φ) (areas : List MemoryArea) : List SharedFrames :=
  ((areas.filterMap object?).dedup).filter fun frames =>
    !(k.allAreas.map data).any fun data =>
      match data with
      | .shared other _ => decide (other = frames)
      | _ => false

variable {areas : List MemoryArea}

/-- An object is dead if no area has it any more. -/
theorem Kernel.mem_deadObjects (habsent : ∀ pid, pid ∉ k.pids → k.Absent pid)
    : object ∈ k.deadObjects areas ↔
      (∃ area ∈ areas, area.object? = some object) ∧ object ∉ k.live := by
  have hlive : ((k.allAreas.map data).any fun data =>
      match data with
      | .shared other _ => decide (other = object)
      | _ => false) = true ↔ object ∈ k.live := by
    rw [any_eq_true, mem_live]
    constructor
    · rintro ⟨data, hdata, heq⟩
      obtain ⟨area, harea, rfl⟩ := mem_map.mp hdata
      obtain ⟨pid, -, hmem⟩ := mem_flatMap.mp harea
      refine ⟨pid, area, hmem, ?_⟩
      unfold object?
      grind
    rintro ⟨pid, area, hmem, hobject⟩
    obtain ⟨flags, hdata⟩ := object?_eq_some.mp hobject
    -- A process with an area exists, so its areas are listed.
    have hpid : pid ∈ k.pids := by
      by_contra hnot
      rw [(habsent pid hnot).1] at hmem
      exact absurd hmem not_mem_nil
    refine ⟨area.data, mem_map.mpr ⟨area, mem_flatMap.mpr ⟨pid, hpid, hmem⟩, rfl⟩, ?_⟩
    rw [hdata]
    simp
  grind [deadObjects, mem_dedup]

/-- What an edit of the areas does. -/
theorem setAreas_run (edit : AreaMap → AreaMap) : setAreas pid edit k = some (.ok (),
      ((k.editAreas pid edit).deadObjects (k.process pid).areas.memoryAreas).foldl
        dropObject (k.editAreas pid edit)) := by
  refine Cmd.each_of_ok (g := dropObject) (fun object s => ?_) _ _
  exact Cmd.each_of_ok (fun frame s => dropRef_run frame s) object.frames s

/-- The other processes stay as they are. -/
@[simp]
theorem Kernel.editAreas_process_of_ne (k : Kernel φ) (hne : pid' ≠ pid)
    (edit : AreaMap → AreaMap) : (k.editAreas pid edit).process pid' = k.process pid' :=
  Function.update_of_ne hne ..

/-- The process whose areas are edited. -/
theorem Kernel.editAreas_process_self (k : Kernel φ) (edit : AreaMap → AreaMap) :
    (k.editAreas pid edit).process pid =
      { k.process pid with areas := edit (k.process pid).areas } :=
  Function.update_self ..

/-- Its areas are the edited ones. -/
@[simp]
theorem Kernel.editAreas_areas (k : Kernel φ) (pid : ℕ) (edit : AreaMap → AreaMap) :
    ((k.editAreas pid edit).process pid).areas = edit (k.process pid).areas := by
  rw [k.editAreas_process_self]

/-- The page tables stay. -/
@[simp]
theorem Kernel.editAreas_pte (k : Kernel φ) (pid : ℕ) (edit : AreaMap → AreaMap) :
    (k.editAreas pid edit).pte = k.pte := by
  funext pid' page
  unfold pte
  by_cases hpid : pid' = pid
  · subst hpid
    simp [editAreas, setProcess]
  · rw [k.editAreas_process_of_ne hpid]

/-- Other processes stay absent. -/
theorem Kernel.Absent.editAreas (h : k.Absent pid') (hne : pid' ≠ pid)
    (edit : AreaMap → AreaMap) : (k.editAreas pid edit).Absent pid' := by
  refine ⟨?_, fun page => ?_⟩
  · rw [k.editAreas_process_of_ne hne]
    exact h.1
  · rw [k.editAreas_pte]
    exact h.2 page

/-- The owners depend on these fields only. -/
theorem Kernel.owners_congr (hpte : k'.pte = k.pte) (hsegments : k'.segments = k.segments)
    (hbuffers : k'.dumbBuffers = k.dumbBuffers)
    (hcache : k'.sharedFilePageCache = k.sharedFilePageCache) : k'.owners live = k.owners live := by
  funext frame
  ext owner
  cases owner <;> simp only [mem_owners, Owns, hpte, hsegments, hbuffers, hcache]

variable {edit : AreaMap → AreaMap}

/-- What is alive after an edit. -/
theorem Kernel.live_editAreas
    (habsent : ∀ pid', pid' ∉ (k.editAreas pid edit).pids → (k.editAreas pid edit).Absent pid')
    (hnew : ∀ area ∈ (edit (k.process pid).areas).memoryAreas, ∀ object,
      area.object? = some object → object ∈ k.live ∪ extra)
    (hextra : ∀ object ∈ extra, ∃ area ∈ (edit (k.process pid).areas).memoryAreas,
      area.object? = some object) :
    k.live ∪ extra = (k.editAreas pid edit).live ∪
      {object | object ∈ (k.editAreas pid edit).deadObjects (k.process pid).areas.memoryAreas} := by
  have hedited : ∀ object, (∃ area ∈ (edit (k.process pid).areas).memoryAreas,
      area.object? = some object) → object ∈ (k.editAreas pid edit).live := by
    rintro object ⟨area, hmem, hobject⟩
    refine mem_live.mpr ⟨pid, area, ?_, hobject⟩
    rw [k.editAreas_areas]
    exact hmem
  ext object
  constructor
  · rintro (hlive | hobject)
    · by_cases hstill : object ∈ (k.editAreas pid edit).live
      · exact .inl hstill
      obtain ⟨pid', area, hmem, hobject⟩ := mem_live.mp hlive
      -- The area was one of the edited process, since it is gone.
      have hpid : pid' = pid := by
        by_contra hne
        refine hstill (mem_live.mpr ⟨pid', area, ?_, hobject⟩)
        rw [k.editAreas_process_of_ne hne]
        exact hmem
      grind [mem_deadObjects]
    · exact .inl (hedited object (hextra object hobject))
  · grind [mem_live.mp, k.editAreas_areas, k.editAreas_process_of_ne, mem_live.mpr, mem_deadObjects]

variable {r : Except SyscallError Unit}

/-- Only the areas and the frames change. -/
theorem setAreas_fields (hrun : setAreas pid edit k = some (r, k')) :
    k'.process = (k.editAreas pid edit).process ∧ k'.registry = k.registry := by
  rw [setAreas_run] at hrun
  cases hrun
  exact dropObjects_fields _ _

/-- An edit of the areas loses no frame. -/
theorem setAreas_conserves (hrun : setAreas pid edit k = some (r, k')) (hpid : pid ∈ k.pids)
    (hnew : ∀ area ∈ (edit (k.process pid).areas).memoryAreas, ∀ object,
      area.object? = some object → object ∈ k.live ∪ extra)
    (hextra : ∀ object ∈ extra, ∃ area ∈ (edit (k.process pid).areas).memoryAreas,
      area.object? = some object) : Conserves extra ∅ k k' := by
  intro hk
  obtain ⟨hprocess, hregistry⟩ := setAreas_fields hrun
  rw [setAreas_run] at hrun
  cases hrun
  -- First the edit, with the same objects alive as before.
  have habsent : ∀ pid', pid' ∉ k.pids → (k.editAreas pid edit).Absent pid' :=
    fun pid' hpid' => (hk.absent pid' hpid').editAreas (fun heq => hpid' (heq ▸ hpid)) edit
  have hlive := live_editAreas habsent hnew hextra
  have hedit : k.Keeps (k.live ∪ extra) [] (k.editAreas pid edit) (k.live ∪ extra) [] :=
    .of_eq (owners_congr (k.editAreas_pte pid edit) rfl rfl rfl) rfl rfl
  -- Then the objects that are left without an area.
  have hnodup : ((k.editAreas pid edit).deadObjects (k.process pid).areas.memoryAreas).Nodup :=
    .filter _ (nodup_dedup _)
  have hdrop : (k.editAreas pid edit).Keeps _ [] _ (k.editAreas pid edit).live [] :=
    (k.editAreas pid edit).keeps_dropObjects hnodup
      fun object hobject => ((mem_deadObjects habsent).mp hobject).2
  rw [← hlive] at hdrop
  generalize hfinal : ((k.editAreas pid edit).deadObjects _).foldl dropObject _ = k' at *
  have hlive' : k'.live ∪ ∅ = (k.editAreas pid edit).live := by
    unfold live
    rw [hprocess, Set.union_empty]
  obtain ⟨hbooks, htracks⟩ := (hedit.trans hdrop) hk.books
  rw [← hlive'] at hbooks htracks
  refine ⟨hk.of_registry hregistry ?_ (fun pid' hpid' => ?_) hbooks, htracks⟩
  · rw [hlive', hlive]
    exact Set.subset_union_left
  have h := habsent pid' hpid'
  unfold Absent pte at h ⊢
  rw [hprocess]
  exact h

/-! ## The objects of edited areas -/

/-- The left piece has the same object. -/
theorem MemoryArea.object?_leftPiece (area : MemoryArea) :
    (area.leftPiece start).object? = area.object? := by
  unfold object? leftPiece
  cases hdata : area.data <;> simp [Data.truncated]

/-- The right piece has the same object. -/
theorem MemoryArea.object?_rightPiece (area : MemoryArea) :
    (area.rightPiece end_).object? = area.object? := by
  unfold object? rightPiece
  cases hdata : area.data <;> simp [Data.advanced]

/-- The middle piece has the same object. -/
theorem MemoryArea.object?_middlePiece (start end_ : ℕ) :
    (area.middlePiece start end_).object? = area.object? := by
  unfold object? middlePiece
  cases hdata : area.data <;> simp [Data.advanced]

variable {piece : MemoryArea}

/-- What an unmapping leaves has the same object. -/
theorem object?_of_mem_unmapped
    (h : piece ∈ area.unmapped start end_) : piece.object? = area.object? := by
  by_cases hapart : area.apart start end_
  · grind [unmapped_of_apart]
  · rcases (mem_unmapped hapart).mp h with ⟨-, rfl⟩ | ⟨-, rfl⟩
    · exact area.object?_leftPiece
    · exact area.object?_rightPiece

/-- What a change leaves has the same object. -/
theorem object?_of_mem_recut
    {change : MemoryArea → MemoryArea} (hchange : ∀ a, (change a).object? = a.object?)
    (h : piece ∈ area.recut start end_ change) : piece.object? = area.object? := by
  by_cases hapart : area.apart start end_
  · grind [recut_of_apart]
  rcases (mem_recut hapart).mp h with ⟨-, rfl⟩ | rfl | ⟨-, rfl⟩
  · exact area.object?_leftPiece
  · rw [hchange, object?_middlePiece]
  · exact area.object?_rightPiece

/-- A change leaves some piece. -/
theorem exists_mem_recut (start end_ : ℕ) (change : MemoryArea → MemoryArea) :
    ∃ piece, piece ∈ area.recut start end_ change := by
  by_cases hapart : area.apart start end_
  · exact ⟨area, by rw [recut_of_apart hapart]; exact mem_singleton.mpr rfl⟩
  · exact ⟨_, (mem_recut hapart).mpr (.inr (.inl rfl))⟩

/-- The areas of two address spaces refer to the same objects. -/
def SameObjects (areas areas' : List MemoryArea) : Prop :=
  ∀ object, (∃ area ∈ areas', area.object? = some object) ↔
    ∃ area ∈ areas, area.object? = some object

/-- `mprotect` keeps the objects. -/
theorem AreaMap.updatePermissions_objects (s : AreaMap) (start end_ : ℕ) {protection : Protection} :
    SameObjects s.memoryAreas (s.updatePermissions start end_ protection).memoryAreas := by
  intro object
  unfold AreaMap.updatePermissions
  by_cases h : start ≥ end_
  · rw [if_pos h]
  rw [if_neg h]
  have hkeep : ∀ {area piece : MemoryArea}, piece ∈ area.reprotected start end_ protection →
      piece.object? = area.object? := by
    intro area piece hmem
    refine object?_of_mem_recut ?_ hmem
    exact fun _ => rfl
  constructor
  · grind
  rintro ⟨area, harea, hobject⟩
  obtain ⟨piece, hpiece⟩ := exists_mem_recut start end_ fun middle =>
    { middle with flags := protectionToPageFlags protection, protection }
  exact ⟨piece, mem_flatMap.mpr ⟨area, harea, hpiece⟩, by rw [hkeep hpiece, hobject]⟩

/-- A change of one area keeps them. -/
theorem sameObjects_set {index : ℕ} {area' : MemoryArea}
    (hget : areas[index]? = some area) (hsame : area'.object? = area.object?) :
    SameObjects areas (areas.set index area') := by
  intro object
  constructor
  · grind
  · rintro ⟨other, hmem, hobject⟩
    grind [mem_iff_getElem]

/-- A fault keeps them. -/
theorem AreaMap.faultArea_objects (s : AreaMap) {address : ℕ} :
    SameObjects s.memoryAreas (s.faultArea address).2.memoryAreas := by
  rcases s.faultArea_cases address with ⟨hareas, -⟩ | ⟨index, area, hget, -, hareas, -⟩
  · rw [hareas]
    exact fun _ => .rfl
  · rw [hareas]
    exact sameObjects_set hget rfl

/-- An edit that keeps the objects keeps them alive. -/
theorem Kernel.live_editAreas_same (k : Kernel φ)
    (hsame : SameObjects (k.process pid).areas.memoryAreas (edit (k.process pid).areas).memoryAreas)
    : (k.editAreas pid edit).live = k.live := by
  ext object
  rw [mem_live, mem_live]
  have hiff : ∀ pid', (∃ area ∈ ((k.editAreas pid edit).process pid').areas.memoryAreas,
      area.object? = some object) ↔
      ∃ area ∈ (k.process pid').areas.memoryAreas, area.object? = some object := by
    intro pid'
    by_cases hpid : pid' = pid
    · subst hpid
      rw [k.editAreas_areas]
      exact hsame object
    · rw [k.editAreas_process_of_ne hpid]
  exact exists_congr hiff

/-- An edit that keeps the objects loses no frame. -/
theorem Kernel.editAreas_conserves (k : Kernel φ) (hpid : pid ∈ k.pids)
    (hsame : SameObjects (k.process pid).areas.memoryAreas (edit (k.process pid).areas).memoryAreas)
    : Conserves extra extra k (k.editAreas pid edit) := by
  intro hk
  have hlive := k.live_editAreas_same hsame
  have howners : (k.editAreas pid edit).owners (k.live ∪ extra) = k.owners (k.live ∪ extra) :=
    owners_congr (k.editAreas_pte pid edit) rfl rfl rfl
  have hkeeps : k.Keeps (k.live ∪ extra) [] (k.editAreas pid edit) (k.live ∪ extra) [] :=
    .of_eq howners rfl rfl
  obtain ⟨hbooks, htracks⟩ := hkeeps hk.books
  rw [← hlive] at hbooks
  refine ⟨hk.of_registry rfl ?_ (fun pid' hpid' => ?_) hbooks, ?_⟩
  · rw [hlive]
  · exact (hk.absent pid' hpid').editAreas (fun heq => hpid' (heq ▸ hpid)) edit
  · rw [hlive]
    exact htracks

end Seele.Memory
