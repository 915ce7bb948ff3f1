import Seele.Memory.Contained

/-!
# What the memory commands do to the frames

For each command that changes mappings, what its runs are made of, and that they conserve or retain
the frames (`Conserves`, `Retains`). The argument is the same for all of them: the work on pages is
a sequence of steps, and an edit of the areas drops the objects that are left without an area.
-/

namespace Seele.Memory

open Seele.Lib Kernel Cmd List

variable {φ : Type} {kinds : Set StepKind} {extra : Set SharedFrames}

/-! ## Unmapping -/

/-- The kernel after one page is unmapped. -/
def Kernel.releasePage (pid : ℕ) (k : Kernel φ) (page : ℕ) : Kernel φ :=
  match k.pte pid page with
  | none => k
  | some pte => (k.setPte pid page none).releaseRef pte.frame

variable (k : Kernel φ)

/-- Releasing a reference unmaps nothing. -/
theorem Kernel.pte_releaseRef (frame : ℕ) : (k.releaseRef frame).pte = k.pte := by
  funext pid page
  unfold pte
  rw [releaseRef_process]

/-- One page is unmapped. -/
theorem Kernel.pte_releasePage (pid page pid' page' : ℕ) : (k.releasePage pid page).pte pid' page' =
      if pid' = pid ∧ page' = page then none else k.pte pid' page' := by
  unfold releasePage
  cases hpte : k.pte pid page with
  | none => grind
  | some pte => rw [pte_releaseRef, k.pte_setPte]

/-- The pages are unmapped. -/
theorem Kernel.pte_releasePages (pid : ℕ) (pages : List ℕ) (pid' page' : ℕ) :
    (pages.foldl (releasePage pid) k).pte pid' page' =
      if pid' = pid ∧ page' ∈ pages then none else k.pte pid' page' := by
  induction pages generalizing k with
  | nil => simp
  | cons page pages ih => grind [k.pte_releasePage]

/-- The loop unmaps the pages. -/
theorem eachUnmap_run {pid : ℕ} {pages : List ℕ} {k : Kernel φ} :
    each (unmapAndRelease pid) pages k = some (.ok (), pages.foldl (releasePage pid) k) :=
  each_of_ok (fun page s => unmapAndRelease_run pid page s) pages k

/-- The pages are dropped. -/
theorem releasePages_steps (pid : ℕ) (pages : List ℕ) (k : Kernel φ) :
    PageSteps {.drop} k (pages.foldl (releasePage pid) k) := by
  have halways := Always.each (l := pages) fun page _ =>
    unmapAndRelease_steps (φ := φ) (Set.mem_singleton StepKind.drop) pid page
  exact halways k _ _ (eachUnmap_run)

/-! ## Taking frames and making objects -/

/-- The kernel with one more reference to a frame. -/
def Kernel.addRef (frame : ℕ) : Kernel φ :=
  k.setRef frame (some ((k.frameRefCount frame).getD 0 + 1))

/-- The free frames and the memory pass through a loop. -/
theorem foldl_free_ram {g : Kernel φ → ℕ → Kernel φ} (hg : ∀ (k : Kernel φ) frame rest ram,
      g { k with freeFrames := rest, ram } frame = { g k frame with freeFrames := rest, ram })
    (frames : List ℕ) (k : Kernel φ) (rest : List ℕ) (ram : ℕ → ℕ → UInt8) :
    frames.foldl g { k with freeFrames := rest, ram } =
      { frames.foldl g k with freeFrames := rest, ram } := by
  induction frames generalizing k with
  | nil => rfl
  | cons frame frames ih => rw [foldl_cons, hg, ih, foldl_cons]

/-- The loop that takes frames returns the first free ones, or fails and leaves those it has taken
to themselves. -/
theorem allocateZeroedFrames_cases {track : ℕ → KernelM φ Unit} {g : Kernel φ → ℕ → Kernel φ}
    (htrack : ∀ frame k, track frame k = some (.ok (), g k frame))
    (hg : ∀ (k : Kernel φ) frame rest ram,
      g { k with freeFrames := rest, ram } frame = { g k frame with freeFrames := rest, ram })
    {pages : ℕ} {k k' : Kernel φ} {r : Except SyscallError (List ℕ)}
    (hrun : allocateZeroedFrames track pages k = some (r, k')) :
    ∃ frames rest ram, k.freeFrames = frames ++ rest ∧
      k' = { frames.foldl g k with freeFrames := rest, ram } ∧
        (r = .ok frames ∨ ∃ e, r = .error e) := by
  induction pages generalizing k k' r with
  | zero =>
    obtain ⟨rfl, rfl⟩ := pure_eq_some.mp hrun
    exact ⟨[], k'.freeFrames, k'.ram, rfl, rfl, .inl rfl⟩
  | succ pages ih =>
  unfold allocateZeroedFrames at hrun
  cases hfree : k.freeFrames with
  | nil =>
    have hnone : allocateFrame k = some (.ok none, k) := by simp only [allocateFrame, hfree]
    rw [bind_of_ok hnone] at hrun
    obtain ⟨rfl, rfl⟩ := throw_eq_some.mp hrun
    exact ⟨[], k'.freeFrames, k'.ram, by rw [hfree]; rfl, rfl, .inr ⟨_, rfl⟩⟩
  | cons frame free =>
  have hsome : allocateFrame k = some (.ok (some frame), { k with freeFrames := free }) := by
    simp only [allocateFrame, hfree]
  rw [bind_of_ok hsome] at hrun
  dsimp only at hrun
  rw [zeroFrame, modify_bind, bind_of_ok (htrack frame _)] at hrun
  have hstart : g (({ k with freeFrames := free }).setRam frame fun _ => 0) frame = { g k frame with
        freeFrames := free
        ram := Function.update k.ram frame fun _ => 0 } := hg k frame free _
  -- What the rest of the loop does starts from the counts after the first frame.
  have hrest : ∀ {r' : Except SyscallError (List ℕ)} {t : Kernel φ},
      allocateZeroedFrames track pages { g k frame with
          freeFrames := free
          ram := Function.update k.ram frame fun _ => 0 } = some (r', t) →
      ∃ frames rest ram, free = frames ++ rest ∧
        t = { (frame :: frames).foldl g k with freeFrames := rest, ram } ∧
          (r' = .ok frames ∨ ∃ e, r' = .error e) := by
    intro r' t hrun'
    obtain ⟨frames, rest, ram, hsplit, rfl, hr⟩ := ih hrun'
    refine ⟨frames, rest, ram, hsplit, ?_, hr⟩
    rw [foldl_free_ram hg, foldl_cons]
  rcases bind_eq_some.mp hrun with ⟨tail, t, htail, hrun⟩ | ⟨e, htail, rfl⟩
  · grind [pure_eq_some.mp]
  · grind

variable {live : Set SharedFrames} {pending : List ℕ} {k k' : Kernel φ}

/-- The order of the pending frames does not count. -/
theorem Kernel.Keeps.perm {live' : Set SharedFrames} {pending' pending'' : List ℕ}
    (h : k.Keeps live pending k' live' pending') (hperm : pending'.Perm pending'') :
    k.Keeps live pending k' live' pending'' := by
  intro hb
  obtain ⟨hbooks, htracks⟩ := h hb
  refine ⟨hbooks.perm hperm, fun frame => ?_⟩
  grind [Tracks, Tracked]

variable {frames : List ℕ} {ram : ℕ → ℕ → UInt8} {rest : List ℕ}

variable (k)

/-- Free frames are taken. -/
theorem Kernel.keeps_takeAll (hfree : k.freeFrames = frames ++ rest) :
    k.Keeps live pending { frames.foldl addRef k with freeFrames := rest, ram } live
      (frames ++ pending) := by
  induction frames generalizing k pending with
  | nil => exact .of_eq rfl rfl (by rw [hfree]; rfl)
  | cons frame frames ih =>
  let k₁ : Kernel φ := { k.addRef frame with freeFrames := frames ++ rest }
  have htake : k.Keeps live pending k₁ live (frame :: pending) := by
    intro hb
    unfold Books at hb
    rw [hfree] at hb
    refine ⟨.take hb, ?_⟩
    unfold Tracks
    rw [hfree]
    exact Tracked.change (.inr (.inl mem_cons_self)) (.inr (.inr mem_cons_self))
      (fun _ _ => rfl) (fun s hs => (mem_cons_iff_of_ne hs).symm)
      (fun s hs => mem_cons_iff_of_ne hs)
  have hrest : k₁.Keeps live (frame :: pending) _ live _ := ih k₁ rfl
  have hsame : ({ frames.foldl addRef k₁ with freeFrames := rest, ram } : Kernel φ) =
      { (frame :: frames).foldl addRef k with freeFrames := rest, ram } := by
    have hfold := foldl_free_ram (g := addRef) (fun _ _ _ _ => rfl) frames
      (k.addRef frame) (frames ++ rest) k.ram
    have hk₁ : k₁ = { k.addRef frame with freeFrames := frames ++ rest, ram := k.ram } := rfl
    rw [hk₁, hfold]
    rfl
  rw [hsame] at hrest
  exact (htake.trans hrest).perm perm_middle

/-- Owned frames are reserved. -/
theorem Kernel.keeps_reserveAll (howner : ∀ frame ∈ frames, ∃ owner ∈ k.owners live frame,
      ¬ owner.IsMapping ∧ ¬ owner.IsDumbBuffer) :
    k.Keeps live pending (frames.foldl addRef k) live (frames ++ pending) := by
  induction frames generalizing k pending with
  | nil => exact .refl k
  | cons frame frames ih =>
  obtain ⟨owner, hmem, hmapping, hdumb⟩ := howner frame mem_cons_self
  have hreserve : k.Keeps live pending (k.addRef frame) live (frame :: pending) := by
    intro hb
    refine ⟨.reserve hb hmem hmapping hdumb, ?_⟩
    exact Tracked.change (.inl ⟨owner, hmem⟩) (.inr (.inr mem_cons_self)) (fun _ _ => rfl)
      (fun _ _ => .rfl) (fun s hs => mem_cons_iff_of_ne hs)
  have hrest : (k.addRef frame).Keeps live (frame :: pending) _ live _ :=
    ih (k.addRef frame) fun other hother => howner other (mem_cons_of_mem frame hother)
  exact (hreserve.trans hrest).perm perm_middle

/-- The counts after the loop. -/
theorem Kernel.addRefs_eq : frames.foldl addRef k =
      { k with frameRefCount := (frames.foldl addRef k).frameRefCount } := by
  induction frames generalizing k with
  | nil => rfl
  | cons frame frames ih =>
    rw [foldl_cons, ih]
    rfl

variable {k}

/-- What `SharedFrames::new` does. -/
theorem sharedFramesNew_run : sharedFramesNew frames k = some (.ok ⟨k.nextObject, frames⟩,
      { frames.foldl addRef k with nextObject := k.nextObject + 1 }) := by
  have heach : each increaseRef frames k = some (.ok (), frames.foldl addRef k) :=
    each_of_ok (fun frame s => rfl) frames k
  unfold sharedFramesNew
  rw [bind_of_ok heach, get_bind, modify_bind, k.addRefs_eq]
  rfl

/-- A new object owns the reserved frames. -/
theorem Kernel.Consistent.newObject (hk : k.Consistent ∅)
    (hkeeps : k.Keeps k.live [] k' k.live frames) (hpids : k'.pids = k.pids)
    (hprocess : k'.process = k.process) (hobject : k'.nextObject = k.nextObject + 1)
    (hshmid : k'.nextShmid = k.nextShmid) (hsegments : k'.segments = k.segments)
    (hhandle : k'.nextHandle = k.nextHandle) (hbuffers : k'.dumbBuffers = k.dumbBuffers) :
    k'.Consistent {⟨k.nextObject, frames⟩} ∧
      ∀ frame, k'.Tracks (k'.live ∪ {⟨k.nextObject, frames⟩}) [] frame ↔
        k.Tracks k.live [] frame := by
  have hlive : k'.live = k.live := by
    unfold live
    rw [hprocess]
  have hfresh : (⟨k.nextObject, frames⟩ : SharedFrames) ∉ k.live := by
    intro hmem
    exact absurd (hk.fresh _ (.inl hmem)) (Nat.lt_irrefl _)
  have hbooks₀ : k.Books k.live [] := by
    have := hk.books
    rwa [Set.union_empty] at this
  have hnew : k'.Keeps k.live (frames ++ []) k' (insert ⟨k.nextObject, frames⟩ k.live) [] :=
    k'.keeps_newObject hfresh
  rw [append_nil] at hnew
  obtain ⟨hbooks, htracks⟩ := (hkeeps.trans hnew) hbooks₀
  rw [← Set.union_singleton] at hbooks htracks
  rw [hlive]
  refine ⟨⟨by rw [hlive]; exact hbooks, fun pid hpid => ?_, fun object hmem => ?_, ?_, ?_⟩, htracks⟩
  · have habsent := hk.absent pid (by rw [← hpids]; exact hpid)
    unfold Absent pte at habsent ⊢
    rw [hprocess]
    exact habsent
  · rw [hobject]
    rcases hmem with hmem | rfl
    · rw [hlive] at hmem
      exact Nat.lt_succ_of_lt (hk.fresh object (.inl hmem))
    · exact Nat.lt_succ_self _
  · rw [hshmid, hsegments]
    exact hk.segments
  · rw [hhandle, hbuffers]
    exact hk.buffers

section Files

variable [FileLayer φ] {pid start len : ℕ} {r : Except SyscallError Unit}

/-- A run of `try_unmap` ends before anything is unmapped, or it unmaps all pages of the range and
then cuts the range out of the areas. -/
theorem tryUnmap_cases (hrun : tryUnmap pid start len k = some (r, k')) : OnlyFiles k k' ∨
      ∃ k₁ end_, virtAddr (start + len) = some end_ ∧ len ≠ 0 ∧ OnlyFiles k k₁ ∧
        setAreas pid (fun areas => areas.unmapAreas start end_)
          ((pagesInclusive start (end_ - 1)).foldl (releasePage pid) k₁) = some (r, k') := by
  unfold tryUnmap at hrun
  split_ifs at hrun with hlen
  · have hflush := flushFileMappings_onlyFiles (φ := φ) pid start len
    rcases bind_eq_some.mp hrun with ⟨_, k₁, hrun₁, hrun⟩ | ⟨e, hrun₁, -⟩
    · obtain ⟨end_, hend, hrun⟩ := orPanic_bind_eq_some hrun
      rw [bind_of_ok (eachUnmap_run)] at hrun
      exact .inr ⟨k₁, end_, hend, hlen, hflush k _ k₁ hrun₁, hrun⟩
    · exact .inl (hflush k _ k' hrun₁)
  · obtain ⟨-, rfl⟩ := pure_eq_some.mp hrun
    exact .inl ⟨k'.files, rfl⟩

variable {area : MemoryArea} {object : SharedFrames} {s : AreaMap}

/-- Unmapping brings in no object. -/
theorem AreaMap.unmapAreas_objects {end_ : ℕ}
    (harea : area ∈ (s.unmapAreas start end_).memoryAreas) (hobject : area.object? = some object) :
    ∃ area ∈ s.memoryAreas, area.object? = some object := by
  obtain ⟨whole, hmem, hpiece⟩ := mem_flatMap.mp harea
  exact ⟨whole, hmem, by rw [← object?_of_mem_unmapped hpiece, hobject]⟩

/-- `try_unmap` keeps the balance. -/
theorem tryUnmap_balances (hstart : start % 4096 = 0) (hlen : len % 4096 = 0) :
    Always (Balances pid) (tryUnmap pid start len : KernelM φ Unit) := by
  intro k r k' hrun
  have hgain := Set.mem_singleton StepKind.gain
  rcases tryUnmap_cases hrun with hfiles | ⟨k₁, end_, hend, -, hfiles, hrun⟩
  · exact (hfiles.steps hgain).balances (by simp)
  have hflush : Balances pid k k₁ := (hfiles.steps hgain).balances (by simp)
  have hsteps := releasePages_steps pid (pagesInclusive start (end_ - 1)) k₁
  have hptes := k₁.pte_releasePages pid (pagesInclusive start (end_ - 1)) pid
  generalize (pagesInclusive start (end_ - 1)).foldl (releasePage pid) k₁ = k₂ at *
  refine trans_of (Balances pid) (trans_of _ hflush (hsteps.balances (by simp))) ?_
  have hend' : end_ % 4096 = 0 := by rw [eq_of_virtAddr hend, Nat.add_mod, hstart, hlen]
  refine setAreas_balances hrun (fun area harea object hobject => ?_)
    (fun hpaged => hpaged.unmapAreas hstart hend') (fun page hsome hcovers => ?_)
  · grind [AreaMap.unmapAreas_objects, mem_live.mpr]
  · -- A page of the range is not mapped any more.
    refine (hcovers.unmapAreas start end_).resolve_left fun hrange => ?_
    grind [mem_pagesInclusive]

/-- `unmap` keeps the balance. -/
theorem unmap_balances (hstart : start % 4096 = 0) (hlen : len % 4096 = 0) :
    Always (Balances pid) (unmap pid start len : KernelM φ Unit) :=
  (tryUnmap_balances hstart hlen).attempt.bind fun _ => .pure ()

/-! ## Registering -/

/-- Only the object of the new area comes in. -/
theorem AreaMap.registerArea_objects {new : MemoryArea}
    (harea : area ∈ (s.registerArea new).memoryAreas) (hobject : area.object? = some object) :
    new.object? = some object ∨ ∃ area ∈ s.memoryAreas, area.object? = some object := by
  rcases mem_insertArea.mp harea with rfl | hmem
  · exact .inl hobject
  · exact .inr (AreaMap.unmapAreas_objects hmem hobject)

/-- `apply_area` maps pages of the area. -/
theorem applyArea_steps (hgain : .gain ∈ kinds)
    (hleak : area.data.isFile = true → .leak ∈ kinds) (hwhole : area.WholePages) :
    Always (StepsWithin kinds pid area) (applyArea pid area : KernelM φ Unit) := by
  obtain ⟨hstart, -, -, -⟩ := hwhole
  refine .each fun i hi => ?_
  have hpages : i < (area.end_ - area.start) / 4096 := mem_range.mp hi
  have hmeets : area.meetsPage (area.start / 4096 + i) := by
    unfold MemoryArea.meetsPage
    omega
  exact applyPageCluster_steps hgain hleak hmeets

/-- A lazy area is only registered. -/
theorem registerArea_lazy (hlazy : area.lazy = true) : (registerArea pid area : KernelM φ Unit) =
      setAreas pid fun areas => areas.registerArea area := by
  funext k
  unfold registerArea
  rw [hlazy, setAreas_run, bind_of_ok (setAreas_run _)]
  rfl

/-- A lazy area without an object keeps the balance. -/
theorem registerArea_balances (hlazy : area.lazy = true)
    (hobject : area.object? = none) (hwhole : area.WholePages) :
    Always (Balances pid) (registerArea pid area : KernelM φ Unit) := by
  rw [registerArea_lazy hlazy]
  intro k r k' hrun
  refine setAreas_balances hrun (fun other hother object hsome => ?_)
    (fun hpaged => hpaged.registerArea hwhole) (fun page _ hcovers => hcovers.registerArea area)
  grind [AreaMap.registerArea_objects, mem_live.mpr]

/-- An area is registered with the only reference to an object that has just been made. If it is not
lazy, its pages are mapped at once. -/
theorem registerArea_newObject (hrun : registerArea pid area k = some (r, k')) (hpid : pid ∈ k.pids)
    (hobject : area.object? = some object) (hwhole : area.WholePages) (hk : k.Consistent {object})
    (hc : k.Contained) : pid ∈ k'.pids ∧ k'.WellFormed ∧
      ∀ frame, k'.Tracks k'.live [] frame ↔ k.Tracks (k.live ∪ {object}) [] frame := by
  rcases bind_eq_some.mp hrun with ⟨_, k₁, hset, hrun⟩ | ⟨e, hset, -⟩
  · have hconserves : Conserves {object} ∅ k k₁ := by
      refine setAreas_conserves hset hpid (fun other hother shared hshared => ?_) ?_
      · grind [AreaMap.registerArea_objects, mem_live.mpr]
      · rintro _ rfl
        exact ⟨area, mem_insertArea.mpr (.inl rfl), hobject⟩
    have hcontained : k₁.Contained :=
      setAreas_contained hset hc ((hc.paged pid).registerArea hwhole) fun page hsome =>
        (hc.inside pid page hsome).registerArea area
    obtain ⟨hprocess, hregistry⟩ := setAreas_fields hset
    have hpid₁ : pid ∈ k₁.pids := by
      rw [(registry_fields hregistry).1]
      exact hpid
    obtain ⟨hconsistent, htracks⟩ := hconserves hk
    rw [Set.union_empty] at htracks
    -- The pages are mapped into the area that is there now.
    have hsteps : PageSteps {.gain} k₁ k' := by
      cases hlazy : area.lazy with
      | true => grind [pure_eq_some.mp]
      | false =>
      simp only [hlazy] at hrun
      have hnotFile : area.data.isFile = true → StepKind.leak ∈ ({.gain} : Set StepKind) := by
        obtain ⟨flags, hdata⟩ := MemoryArea.object?_eq_some.mp hobject
        rw [hdata]
        exact fun h => absurd h Bool.false_ne_true
      refine applyArea_steps (Set.mem_singleton _) hnotFile hwhole k₁ r k' hrun ?_
      rw [hprocess, k.editAreas_areas]
      exact mem_insertArea.mpr (.inl rfl)
    have hbalances : Balances pid k₁ k' := hsteps.balances (by simp)
    obtain ⟨hpid', hk', htracks'⟩ := hbalances hpid₁ ⟨hconsistent, hcontained⟩
    grind
  · grind [setAreas_run]

/-- The kernel after frames have been counted for a new object, and perhaps taken. -/
def Kernel.withObject (k : Kernel φ) (counts : ℕ → Option ℕ) (free : List ℕ)
    (ram : ℕ → ℕ → UInt8) : Kernel φ :=
  { k with
    frameRefCount := counts
    freeFrames := free
    ram
    nextObject := k.nextObject + 1 }

/-- An object is made whose references have been counted, and an area registered that refers to
it. -/
theorem registerArea_counted {counts : ℕ → Option ℕ} {free : List ℕ}
    (hkeeps : k.WellFormed → k.Keeps k.live [] (k.withObject counts free ram) k.live frames)
    (hrun : registerArea pid area (k.withObject counts free ram) = some (r, k'))
    (hobject : area.object? = some ⟨k.nextObject, frames⟩) (hwhole : area.WholePages) :
    Balances pid k k' := by
  intro hpid hk
  obtain ⟨hconsistent, htracks⟩ :=
    hk.consistent.newObject (hkeeps hk) rfl rfl rfl rfl rfl rfl rfl
  have hcontained : (k.withObject counts free ram).Contained := hk.contained.of_process rfl rfl
  obtain ⟨hpid', hk', htracks'⟩ :=
    registerArea_newObject hrun hpid hobject hwhole hconsistent hcontained
  grind

variable {protection : Protection}

omit [FileLayer φ] in
/-- A new area is in range. -/
theorem newArea_eq_some {pages : ℕ} {flags : PageTableFlags}
    {data : Data} {lazy : Bool} {r : Except SyscallError MemoryArea}
    (hrun : newArea start pages flags protection data lazy k = some (r, k')) :
    k' = k ∧ virtAddr (start + pages * 4096) = some (start + pages * 4096) ∧
      r = .ok ⟨start, start + pages * 4096, flags, protection, data, lazy, false, false⟩ := by
  obtain ⟨end_, hend, hrun⟩ := orPanic_bind_eq_some hrun
  grind [pure_eq_some.mp, eq_of_virtAddr]

/-! ## Shared anonymous memory -/

omit [FileLayer φ] in
/-- Taken frames take nothing from the owners. -/
theorem Kernel.retains_take (k : Kernel φ) (hfree : k.freeFrames = frames ++ rest)
    : Retains k { k with freeFrames := rest, ram } := by
  intro hk
  have hbooks := hk.books
  unfold Books at hbooks
  rw [hfree] at hbooks
  refine ⟨⟨.forget hbooks (sublist_append_right ..), hk.absent, hk.fresh, hk.segments, hk.buffers⟩,
    ?_, fun _ h => h⟩
  rintro frame (hne | hmem | hmem)
  · exact .inl hne
  · exact .inr (.inl (by rw [hfree]; exact mem_append_right frames hmem))
  · exact .inr (.inr hmem)

omit [FileLayer φ] in
/-- The frames of a shared anonymous mapping. -/
theorem anonymousMappingData_shared {pages : ℕ} {r : Except SyscallError Data}
    (hrun : anonymousMappingData pages true protection k = some (r, k')) :
    (∃ frames rest ram, k.freeFrames = frames ++ rest ∧
        r = .ok (.shared ⟨k.nextObject, frames⟩ (protectionToPageFlags protection)) ∧
        k' = k.withObject (frames.foldl addRef k).frameRefCount rest ram) ∨
      ∃ e frames rest ram, r = .error e ∧ k.freeFrames = frames ++ rest ∧
        k' = { k with freeFrames := rest, ram } := by
  have hcases := @allocateZeroedFrames_cases φ (fun _ => pure ()) (fun k _ => k)
    (fun _ _ => rfl) (fun _ _ _ _ => rfl) pages
  have hfold : ∀ (frames : List ℕ), frames.foldl (fun k _ => k) k = k :=
    fun frames => foldl_fixed' (fun _ => rfl) frames
  rcases bind_eq_some.mp hrun with ⟨frames, k₁, halloc, hrun⟩ | ⟨e, halloc, rfl⟩
  · obtain ⟨frames', rest, ram, hfree, rfl, hr⟩ := hcases halloc
    obtain rfl : frames = frames' := by grind
    rw [hfold, bind_of_ok (sharedFramesNew_run)] at hrun
    cases hrun
    refine .inl ⟨frames, rest, ram, hfree, rfl, ?_⟩
    rw [foldl_free_ram fun _ _ _ _ => rfl, k.addRefs_eq]
    rfl
  · grind

end Files

end Seele.Memory
