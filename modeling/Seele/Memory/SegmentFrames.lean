import Seele.Memory.Faults

/-!
# The frames of segments and of dumb buffers

A segment holds one counted reference to each of its frames. They are counted when the segment is
made, and dropped when it is destroyed; a change of its attach count or of its mark does not touch
them. An attached segment has one more reference to every frame, through the object that `shmat`
makes, and that object goes with its area like any other.

A dumb buffer takes its frames from the allocator and never counts them. As long as nothing else
refers to them they stay where they are.
-/

namespace Seele.Memory

open Seele.Lib Kernel Cmd List Function Ledger

variable {φ : Type} {pid : ℕ} {live : Set SharedFrames} {pending : List ℕ}

/-! ## States with the same pages -/

/-- The processes have the same areas and the same pages. -/
structure SameMemory (k k' : Kernel φ) : Prop where
  pids : k'.pids = k.pids
  areas : ∀ pid, (k'.process pid).areas = (k.process pid).areas
  pte : k'.pte = k.pte
  nextObject : k'.nextObject = k.nextObject

variable {k k' : Kernel φ}

/-- With the same areas the same objects are alive. -/
theorem SameMemory.live_eq (h : SameMemory k k') : k'.live = k.live := by
  unfold live
  simp only [h.areas]

/-- The segments, the buffers and the records of attached segments are in order. -/
def Kernel.Tables (k : Kernel φ) : Prop :=
  (∀ shmid, k.nextShmid < shmid → k.segments shmid = none) ∧
    (∀ handle, k.nextHandle ≤ handle → k.dumbBuffers handle = none) ∧
    (∀ pid, ∀ mapping ∈ (k.process pid).sysvShmMappings,
      mapping.addr % 4096 = 0 ∧ mapping.len % 4096 = 0) ∧
    ∀ shmid segment, k.segments shmid = some segment → segment.size ≠ 0

/-- The tables of a kernel in order. -/
theorem Kernel.WellFormed.tables (hk : k.WellFormed) : k.Tables :=
  ⟨hk.consistent.segments, hk.consistent.buffers, hk.contained.attached, hk.contained.sized⟩

/-- A state with the same pages and right books is well formed, if its tables are in order. -/
theorem SameMemory.wellFormed (h : SameMemory k k') (hk : k.WellFormed)
    (hbooks : k'.Books k.live []) (htables : k'.Tables) : k'.WellFormed := by
  have hlive := h.live_eq
  obtain ⟨hsegments, hbuffers, hattached, hsized⟩ := htables
  refine ⟨⟨?_, fun pid hpid => ⟨?_, ?_⟩, fun frames hframes => ?_, hsegments, hbuffers⟩,
    ⟨fun pid => ?_, fun pid page hsome => ?_, hattached, hsized⟩⟩
  · rw [hlive, Set.union_empty]
    exact hbooks
  · rw [h.pids] at hpid
    rw [h.areas]
    exact (hk.consistent.absent pid hpid).1
  · rw [h.pids] at hpid
    rw [h.pte]
    exact (hk.consistent.absent pid hpid).2
  · rw [h.nextObject]
    rw [hlive] at hframes
    exact hk.consistent.fresh frames hframes
  · rw [h.areas]
    exact hk.contained.paged pid
  · rw [h.areas]
    rw [h.pte] at hsome
    exact hk.contained.inside pid page hsome

/-- Its books. -/
theorem Kernel.WellFormed.books (hk : k.WellFormed) : k.Books k.live [] := by
  have hbooks := hk.consistent.books
  rwa [Set.union_empty] at hbooks

/-- Books and tables are enough where memory stays. -/
theorem SameMemory.balances (h : SameMemory k k')
    (hkeeps : k.WellFormed → k.Keeps k.live [] k' k.live [])
    (htables : k.WellFormed → k'.Tables) : Balances pid k k' := by
  intro hpid hk
  obtain ⟨hbooks, htracks⟩ := hkeeps hk hk.books
  refine ⟨by rw [h.pids]; exact hpid, h.wellFormed hk hbooks (htables hk), ?_⟩
  rw [h.live_eq]
  exact htracks

/-! ## Segments as owners -/

variable (k)

/-- A lookup after a change of one segment. -/
theorem Kernel.setSegment_segments (shmid : ℕ) (segment : Option SysvShmSegment)
    (other : ℕ) : (k.setSegment shmid segment).segments other =
      if other = shmid then segment else k.segments other :=
  update_apply ..

variable {shmid : ℕ} {segment segment' : SysvShmSegment} {frame pid' size : ℕ}

/-- The owners when a segment is made. -/
theorem Kernel.owners_newSegment (hnone : k.segments shmid = none)
    : (k.setSegment shmid (some segment)).owners live frame =
      k.owners live frame ∪ positionOwners (Owner.segment shmid) segment.frames frame := by
  ext owner
  cases owner with
  | segment shmid' index =>
    by_cases hshmid : shmid' = shmid
    · subst hshmid
      simp [mem_owners, Owns, setSegment, positionOwners, hnone]
    · simp [mem_owners, Owns, setSegment, positionOwners, hshmid, Ne.symm hshmid]
  | mapping pid page => simp [mem_owners, Owns, positionOwners, setSegment, pte]
  | sharedFrames frames index => simp [mem_owners, Owns, positionOwners]
  | dumbBuffer handle index => simp [mem_owners, Owns, positionOwners, setSegment]
  | cacheEntry key => simp [mem_owners, Owns, positionOwners, setSegment]

variable {frames rest : List ℕ}

/-- A new segment owned nothing before. -/
theorem Kernel.disjoint_segment (hnone : k.segments shmid = none) :
    Disjoint (k.owners live frame) (positionOwners (Owner.segment shmid) frames frame) := by
  rw [Set.disjoint_left]
  rintro owner howner ⟨index, -, rfl⟩
  obtain ⟨segment, hsome, -⟩ := howner
  rw [hnone] at hsome
  exact absurd hsome (by simp)

variable {k}

/-- The places of a segment are different owners. -/
theorem segment_injective : Function.Injective (Owner.segment shmid) :=
  fun _ _ h => (Owner.segment.inj h).2

variable (k)

/-- Pending references become those of a segment. -/
theorem Kernel.keeps_newSegment (hnone : k.segments shmid = none) :
    k.Keeps live (segment.frames ++ pending) (k.setSegment shmid (some segment)) live pending := by
  intro hb
  refine ⟨handOverAll (segment_injective) (fun f => k.owners_newSegment hnone)
    (fun f => k.disjoint_segment hnone) hb (fun _ => id), fun frame => ?_⟩
  exact tracked_positions (fun f => k.owners_newSegment hnone) frame

variable {segment : SysvShmSegment}

/-- The references of a segment become pending. -/
theorem Kernel.keeps_removeSegment (hsome : k.segments shmid = some segment) :
    k.Keeps live pending (k.setSegment shmid none) live (segment.frames ++ pending) := by
  -- The segment put back into the state without it gives the state that we started from.
  have hnone : (k.setSegment shmid none).segments shmid = none := update_self ..
  have hback : (k.setSegment shmid none).setSegment shmid (some segment) = k := by
    unfold setSegment
    rw [update_idem, ← hsome, update_eq_self]
  have howners : ∀ f, k.owners live f = (k.setSegment shmid none).owners live f ∪
      positionOwners (.segment shmid) segment.frames f := by
    grind [owners_newSegment]
  intro hb
  refine ⟨takeBackAll (segment_injective) howners
    (fun f => disjoint_segment _ hnone) hb (fun _ => id) (fun _ => id), fun frame => ?_⟩
  exact (tracked_positions howners frame).symm

/-- A change that keeps the frames keeps the owners. -/
theorem Kernel.owners_setSegment (hsome : k.segments shmid = some segment)
    (hframes : segment'.frames = segment.frames) :
    (k.setSegment shmid (some segment')).owners live = k.owners live := by
  funext frame
  ext owner
  cases owner with
  | segment shmid' index =>
    by_cases hshmid : shmid' = shmid
    · subst hshmid
      simp [mem_owners, Owns, setSegment, hsome, hframes]
    · simp [mem_owners, Owns, setSegment, hshmid]
  | _ => rfl

/-! ## Segments that are made and destroyed -/

/-- A segment with the same frames keeps the books. -/
theorem Kernel.setSegment_balances (hsome : k.segments shmid = some segment)
    (hframes : segment'.frames = segment.frames) (hsize : segment'.size = segment.size) :
    Balances pid k (k.setSegment shmid (some segment')) := by
  have hsame : SameMemory k (k.setSegment shmid (some segment')) := ⟨rfl, fun _ => rfl, rfl, rfl⟩
  refine hsame.balances (fun _ => .of_eq (k.owners_setSegment hsome hframes) rfl rfl) fun hk => ?_
  obtain ⟨hsegments, hbuffers, hattached, hsized⟩ := hk.tables
  refine ⟨fun other hother => ?_, hbuffers, hattached, ?_⟩
  · have hnone := hsegments other hother
    grind [k.setSegment_segments]
  · grind [k.setSegment_segments]

/-- A change of a count keeps the books. -/
theorem Kernel.setAttachCount_balances {f : ℕ → ℕ} :
    Balances pid k (k.setAttachCount shmid f) := by
  unfold setAttachCount
  cases hsome : k.segments shmid with
  | none => exact refl k
  | some segment => exact k.setSegment_balances hsome rfl rfl

variable {k}

/-- A destroyed segment gives its frames back. -/
theorem destroySegmentLocked_balances :
    Always (Balances pid) (destroySegmentLocked shmid : KernelM φ Unit) := by
  intro k r k' hrun
  unfold destroySegmentLocked at hrun
  rw [get_bind] at hrun
  cases hsome : k.segments shmid with
  | none =>
    rw [hsome] at hrun
    cases hrun
    exact refl _
  | some segment =>
  rw [hsome] at hrun
  dsimp only at hrun
  have hdrop : ∀ frame (s : Kernel φ), dropRef frame s = some (.ok (), s.dropRef frame) :=
    fun frame s => dropRef_run frame s
  rw [modify_bind, each_of_ok hdrop] at hrun
  cases hrun
  obtain ⟨hprocess, hregistry⟩ := (k.setSegment shmid none).dropAll_fields segment.frames
  obtain ⟨hpids, hobject, hshmid, hsegments, hhandle, hbuffers⟩ := registry_fields hregistry
  have hremove : k.Keeps k.live [] (k.setSegment shmid none) k.live (segment.frames ++ []) :=
    k.keeps_removeSegment hsome
  have hkeeps := hremove.trans (keeps_dropAll _ segment.frames)
  generalize segment.frames.foldl Kernel.dropRef (k.setSegment shmid none) = k' at *
  have hsame : SameMemory k k' := by
    refine ⟨hpids, fun pid => by rw [hprocess]; rfl, ?_, hobject⟩
    unfold pte
    rw [hprocess]
    rfl
  refine hsame.balances (fun _ => hkeeps) fun hk => ?_
  unfold Tables
  rw [hshmid, hsegments, hhandle, hbuffers, hprocess]
  obtain ⟨hnext, hrest, hattached, hsized⟩ := hk.tables
  refine ⟨fun other hother => ?_, hrest, hattached, ?_⟩
  · have hnone := hnext other hother
    grind [k.setSegment_segments]
  · grind [k.setSegment_segments]

/-- Frames that have been taken from the allocator and counted. -/
def Kernel.takeFrames (k : Kernel φ) (frames rest : List ℕ) (ram : ℕ → ℕ → UInt8) : Kernel φ :=
  { frames.foldl addRef k with freeFrames := rest, ram }

variable {ram : ℕ → ℕ → UInt8}

/-- Which fields taking frames changes. -/
theorem Kernel.takeFrames_eq (k : Kernel φ) (rest : List ℕ) :
    ∃ counts, k.takeFrames frames rest ram =
      { k with frameRefCount := counts, freeFrames := rest, ram } := by
  refine ⟨(frames.foldl addRef k).frameRefCount, ?_⟩
  unfold takeFrames
  rw [k.addRefs_eq]

variable {pages : ℕ}

/-- Frames are taken one by one, up to a failure. -/
theorem allocateSegmentFrames_cases {r : Except SyscallError (List ℕ)}
    (hrun : allocateSegmentFrames pages k = some (r, k')) :
    ∃ frames rest ram, k.freeFrames = frames ++ rest ∧ k' = k.takeFrames frames rest ram ∧
      (r = .ok frames ∨ ∃ e, r = .error e) :=
  allocateZeroedFrames_cases (g := addRef) (fun _ _ => rfl) (fun _ _ _ _ => rfl) hrun

/-- What is taken is gained, or lost. -/
theorem Kernel.takeFrames_acquires (k : Kernel φ)
    (hfree : k.freeFrames = frames ++ rest) (ram : ℕ → ℕ → UInt8) :
    Acquires pid k (k.takeFrames frames rest ram) := by
  intro hpid hk
  have htake : k.Keeps k.live [] (k.takeFrames frames rest ram) k.live (frames ++ []) :=
    k.keeps_takeAll hfree
  rw [append_nil] at htake
  obtain ⟨hbooks, htracks⟩ := htake hk.books
  obtain ⟨counts, heq⟩ := k.takeFrames_eq rest
  have howners : (k.takeFrames frames rest ram).owners k.live = k.owners k.live := by
    rw [heq]
    exact owners_congr rfl rfl rfl rfl
  have hunowned : ∀ frame ∈ frames, (k.takeFrames frames rest ram).owners k.live frame = ∅ := by
    intro frame hframe
    have hmem : frame ∈ k.freeFrames := by
      rw [hfree]
      exact mem_append_left rest hframe
    rw [howners]
    exact (hk.books.unowned frame hmem).1
  have hsame : SameMemory k (k.takeFrames frames rest ram) := by
    rw [heq]
    exact ⟨rfl, fun _ => rfl, rfl, rfl⟩
  refine ⟨?_, hsame.wellFormed hk (abandon hbooks hunowned) ?_, ?_, ?_⟩
  · rw [heq]
    exact hpid
  · rw [heq]
    exact hk.tables
  · rw [hsame.live_eq]
    intro frame h
    refine (htracks frame).mp ?_
    rcases h with h | h | h
    · exact .inl h
    · exact .inr (.inl h)
    · exact absurd h not_mem_nil
  · rw [hsame.live_eq, howners]
    exact fun _ h => h

/-- A segment is made of frames that were free. -/
theorem Kernel.newSegment_balances (k : Kernel φ) (hfree : k.freeFrames = frames ++ rest)
    (hframes : segment.frames = frames) (hsize : segment.size ≠ 0) :
    Balances pid k { (k.takeFrames frames rest ram).setSegment (k.nextShmid + 1) (some segment) with
      nextShmid := k.nextShmid + 1 } := by
  subst hframes
  have htake : k.Keeps k.live [] (k.takeFrames segment.frames rest ram) k.live
      (segment.frames ++ []) := k.keeps_takeAll hfree
  obtain ⟨counts, heq⟩ := k.takeFrames_eq rest
  rw [heq] at htake ⊢
  let k₁ : Kernel φ := { k with frameRefCount := counts, freeFrames := rest, ram }
  have hsame : SameMemory k
      { k₁.setSegment (k.nextShmid + 1) (some segment) with nextShmid := k.nextShmid + 1 } :=
    ⟨rfl, fun _ => rfl, rfl, rfl⟩
  refine hsame.balances (fun hk => ?_) fun hk => ?_
  · exact htake.trans (k₁.keeps_newSegment (hk.consistent.segments _ (Nat.lt_succ_self _)))
  obtain ⟨hsegments, hbuffers, hattached, hsized⟩ := hk.tables
  refine ⟨?_, hbuffers, hattached, ?_⟩
  · grind [setSegment_segments]
  · grind [setSegment_segments]

variable {r : Except SyscallError ℕ}

/-- A segment is made, or frames are lost. -/
theorem createSegment_accounts {key : Int} {mode : ℕ} (hsize : size ≠ 0)
    (hrun : createSegment pid' key size mode k = some (r, k')) :
    Balances pid k k' ∨ Acquires pid k k' := by
  rcases bind_eq_some.mp hrun with ⟨frames', k₁, halloc, hrun⟩ | ⟨e, halloc, -⟩
  · obtain ⟨frames, rest, ram, hfree, rfl, hr⟩ := allocateSegmentFrames_cases halloc
    obtain rfl : frames' = frames := by grind
    left
    cases hrun
    obtain ⟨counts, heq⟩ := k.takeFrames_eq rest
    have hnext : (k.takeFrames frames' rest ram).nextShmid = k.nextShmid := by rw [heq]
    rw [hnext]
    exact k.newSegment_balances hfree rfl hsize
  · grind [allocateSegmentFrames_cases, k.takeFrames_acquires]

/-- `shmget` balances, or acquires. -/
theorem shmget_accounts {key : Int} {flags : ShmgetFlags}
    (hrun : shmget pid' key size flags k = some (r, k')) :
    Balances pid k k' ∨ Acquires pid k k' := by
  unfold shmget at hrun
  rw [get_bind] at hrun
  generalize (if key = 0 then none
    else k.findSegment (k.process pid').ipcNamespace key) = existing at hrun
  cases existing with
  | some found =>
    dsimp only at hrun
    left
    split_ifs at hrun
    all_goals
      cases hrun
      exact refl k
  | none =>
  dsimp only at hrun
  split_ifs at hrun with hexists hsize
  · cases hrun
    exact .inl (refl k)
  · cases hrun
    exact .inl (refl k)
  · exact createSegment_accounts hsize hrun

/-- `IPC_RMID` keeps the books. -/
theorem shmctlRmid_balances (pid' : ℕ) :
    Always (Balances pid) (shmctlRmid pid' shmid : KernelM φ Unit) := by
  intro k r k' hrun
  unfold shmctlRmid at hrun
  rw [get_bind] at hrun
  cases hsome : k.segments shmid with
  | none =>
    rw [hsome] at hrun
    cases hrun
    exact refl k
  | some segment =>
  rw [hsome] at hrun
  dsimp only at hrun
  have hmark : Balances pid k
      (k.setSegment shmid (some { segment with markedForRemoval := true })) :=
    k.setSegment_balances hsome rfl rfl
  split_ifs at hrun
  · cases hrun
    exact refl k
  · cases hrun
    exact refl k
  · rw [modify_bind] at hrun
    exact trans_of (Balances pid) hmark (destroySegmentLocked_balances _ r k' hrun)
  · rw [modify_bind] at hrun
    cases hrun
    exact hmark

/-! ## Attaching and detaching -/

/-- A change of the records keeps the books. -/
theorem Kernel.setRecords_balances (k : Kernel φ) (pid' : ℕ)
    (records : List ProcessShmMapping → List ProcessShmMapping)
    (hrecords : ∀ mapping ∈ records (k.process pid').sysvShmMappings,
      mapping ∈ (k.process pid').sysvShmMappings ∨
        (mapping.addr % 4096 = 0 ∧ mapping.len % 4096 = 0)) :
    Balances pid k (k.setProcess pid' fun p =>
      { p with sysvShmMappings := records p.sysvShmMappings }) := by
  let k' := k.setProcess pid' fun p => { p with sysvShmMappings := records p.sysvShmMappings }
  have hother : ∀ other, other ≠ pid' → k'.process other = k.process other :=
    fun other hne => update_of_ne hne ..
  have hself : k'.process pid' = { k.process pid' with
      sysvShmMappings := records (k.process pid').sysvShmMappings } := update_self ..
  have hareas : ∀ other, (k'.process other).areas = (k.process other).areas :=
    fun other => k.setProcess_areas pid' other _ fun _ => rfl
  have hpte : k'.pte = k.pte := by grind [pte]
  have hsame : SameMemory k k' := ⟨rfl, hareas, hpte, rfl⟩
  refine hsame.balances (fun _ => .of_eq (owners_congr hpte rfl rfl rfl) rfl rfl) fun hk => ?_
  obtain ⟨hsegments, hbuffers, hattached, hsized⟩ := hk.tables
  refine ⟨hsegments, hbuffers, ?_, hsized⟩
  grind

/-- A reserved range leaves the areas alone. -/
theorem AreaMap.fetchAddUserMem_eq_some {s s' : AreaMap} {mem : ℕ}
    (h : s.fetchAddUserMem pages = some (mem, s')) :
    mem = s.userMem ∧ s'.memoryAreas = s.memoryAreas ∧ (s.Paged → s'.Paged) := by
  obtain ⟨userMem, hnext, h⟩ := Option.bind_eq_some_iff.mp h
  cases h
  refine ⟨rfl, rfl, fun hpaged => ⟨hpaged.whole, ?_⟩⟩
  have hcursor := hpaged.cursor
  have heq := eq_of_virtAddr hnext
  show userMem % 4096 = 0
  omega

/-- Reserving keeps the books. -/
theorem fetchAddUserMem_cases (hrun : fetchAddUserMem pid pages k = some (r, k')) :
    r = .ok (k.process pid).areas.userMem ∧ k'.segments = k.segments ∧ Balances pid k k' := by
  obtain ⟨⟨mem, areas⟩, hfetch, hrun⟩ := orPanic_bind_eq_some hrun
  cases hrun
  obtain ⟨rfl, hareas, hpaged⟩ := AreaMap.fetchAddUserMem_eq_some hfetch
  have hedit : Balances pid k (k.editAreas pid fun _ => areas) := by
    refine k.editAreas_balances ?_ hpaged fun addr hcovers => ?_
    · rw [hareas]
      exact fun _ => .rfl
    · unfold AreaMap.Covers
      rw [hareas]
      exact hcovers
  exact ⟨rfl, rfl, hedit⟩

/-- Where `shmat` attaches a segment: at the cursor, or at the page of the address it is given. -/
def Kernel.attachAddress (k : Kernel φ) (pid requested : ℕ) : ℕ :=
  if requested = 0 then (k.process pid).areas.userMem else requested / 4096 * 4096

/-- The address of an attachment. -/
theorem attachAddr_cases {requested len : ℕ} {rnd : Bool}
    (hrun : attachAddr pid requested rnd len k = some (r, k')) : (∃ e, r = .error e ∧ k' = k) ∨
      (r = .ok (k.attachAddress pid requested) ∧ k'.segments = k.segments ∧ Balances pid k k') := by
  unfold attachAddr at hrun
  unfold attachAddress
  split_ifs at hrun ⊢ with hzero hrnd halign
  · exact .inr (fetchAddUserMem_cases hrun)
  · cases hrun
    exact .inr ⟨rfl, rfl, refl _⟩
  · cases hrun
    exact .inl ⟨_, rfl, rfl⟩
  cases hrun
  have heq : requested / 4096 * 4096 = requested := by omega
  rw [heq]
  exact .inr ⟨rfl, rfl, refl _⟩

/-- An attachment starts with a page. -/
theorem Kernel.attachAddress_aligned (hk : k.WellFormed) (requested : ℕ) :
    k.attachAddress pid requested % 4096 = 0 := by
  unfold attachAddress
  split_ifs
  · exact (hk.contained.paged pid).cursor
  · exact Nat.mul_mod_left ..

/-- A segment has a page. -/
theorem mappingPages_pos (h : size ≠ 0) : 0 < mappingPages size := by
  unfold mappingPages
  omega

/-! ## Dumb buffers -/

open private Nat.nextPowerOfTwo.go from Init.Data.Nat.Power2.Basic in
/-- The power of two is large enough. -/
theorem le_nextPowerOfTwo_go (n power : ℕ) (h : power > 0) :
    n ≤ Nat.nextPowerOfTwo.go n power h := by
  fun_induction Nat.nextPowerOfTwo.go n power h with
  | case1 power h hlt ih => exact ih
  | case2 power h hlt => exact Nat.le_of_not_lt hlt

/-- The number of pages is large enough. -/
theorem le_normalizedPages {count : ℕ} (h : normalizedPages pages = some count) :
    pages ≤ count := by
  unfold normalizedPages at h
  split_ifs at h
  cases h
  exact le_nextPowerOfTwo_go pages 1 Nat.one_pos

/-- A range of free frames is taken, or nothing. -/
theorem allocateContiguous_cases {start : ℕ} {r : Except SyscallError Bool}
    (hrun : allocateContiguous start pages k = some (r, k')) : (r = .ok false ∧ k' = k) ∨
      ∃ count, pages ≤ count ∧ r = .ok true ∧ (∀ frame ∈ range' start count, frame ∈ k.freeFrames) ∧
        k' = { k with
          freeFrames := k.freeFrames.filter fun frame => decide (frame ∉ range' start count) } := by
  unfold allocateContiguous at hrun
  rw [get_bind] at hrun
  cases hcount : normalizedPages pages with
  | none =>
    rw [hcount] at hrun
    exact .inl (pure_eq_some.mp hrun)
  | some count =>
  rw [hcount] at hrun
  dsimp only at hrun
  split_ifs at hrun with hall
  · rw [modify_bind] at hrun
    cases hrun
    refine .inr ⟨count, le_normalizedPages hcount, rfl, fun frame hframe => ?_, rfl⟩
    grind
  · exact .inl (pure_eq_some.mp hrun)

/-- The owners when a buffer is made. -/
theorem Kernel.owners_newBuffer (k k' : Kernel φ) {handle : ℕ} (hnone : k.dumbBuffers handle = none)
    {buffer : DumbBuffer} (hpte : k'.pte = k.pte) (hsegments : k'.segments = k.segments)
    (hcache : k'.sharedFilePageCache = k.sharedFilePageCache)
    (hbuffers : k'.dumbBuffers = update k.dumbBuffers handle (some buffer)) (frame : ℕ) :
    k'.owners live frame =
      k.owners live frame ∪ positionOwners (Owner.dumbBuffer handle) buffer.frames frame := by
  ext owner
  cases owner with
  | dumbBuffer handle' index =>
    by_cases hhandle : handle' = handle
    · subst hhandle
      simp [mem_owners, Owns, positionOwners, hnone, hbuffers]
    · simp [mem_owners, Owns, positionOwners, hhandle, Ne.symm hhandle, hbuffers]
  | mapping pid page => simp [mem_owners, Owns, positionOwners, hpte]
  | sharedFrames frames index => simp [mem_owners, Owns, positionOwners]
  | segment shmid index => simp [mem_owners, Owns, positionOwners, hsegments]
  | cacheEntry key => simp [mem_owners, Owns, positionOwners, hcache]

/-- Frames are zeroed. -/
theorem eachZero_run (k : Kernel φ) :
    ∃ ram, each zeroFrame frames k = some (.ok (), { k with ram }) := by
  induction frames generalizing k with
  | nil => exact ⟨k.ram, rfl⟩
  | cons frame frames ih =>
    obtain ⟨ram, hram⟩ := ih (k.setRam frame fun _ => 0)
    exact ⟨ram, hram⟩

/-- Frames that nobody gets are lost. -/
theorem Kernel.giveAway_acquires (hsame : SameMemory k k')
    (hfree : k'.freeFrames.Sublist k.freeFrames) (hcounts : k'.frameRefCount = k.frameRefCount)
    (hsegments : k'.segments = k.segments ∧ k'.nextShmid = k.nextShmid)
    (hcache : k'.sharedFilePageCache = k.sharedFilePageCache) (hattached : k'.process = k.process)
    (hnext : k.nextHandle ≤ k'.nextHandle)
    (hbuffers : k'.dumbBuffers = k.dumbBuffers ∨ ∃ buffer, k'.nextHandle = k.nextHandle + 1 ∧
      k'.dumbBuffers = update k.dumbBuffers k.nextHandle (some buffer) ∧
      ∀ frame ∈ buffer.frames, frame ∈ k.freeFrames ∧ frame ∉ k'.freeFrames) :
    Acquires pid k k' := by
  intro hpid hk
  have hforget : Ledger Owner.IsMapping Owner.IsDumbBuffer (k.owners k.live) k.frameRefCount
      k'.freeFrames [] := forget hk.books hfree
  -- The books are right, an owner stays one, and a new owner has a frame that was free.
  have hbooks : k'.Books k.live [] ∧ (∀ frame, k.owners k.live frame ⊆ k'.owners k.live frame) ∧
      ∀ frame, (k'.owners k.live frame).Nonempty →
        (k.owners k.live frame).Nonempty ∨ frame ∈ k.freeFrames := by
    unfold Books
    rw [hcounts]
    rcases hbuffers with hbuffers | ⟨buffer, -, hbuffers, hnew⟩
    · have howners : k'.owners k.live = k.owners k.live :=
        owners_congr hsame.pte hsegments.1 hbuffers hcache
      rw [howners]
      exact ⟨hforget, fun _ => subset_rfl, fun _ h => .inl h⟩
    have hnone := hk.consistent.buffers k.nextHandle le_rfl
    have howners : ∀ frame, k'.owners k.live frame = k.owners k.live frame ∪
        positionOwners (.dumbBuffer k.nextHandle) buffer.frames frame :=
      k.owners_newBuffer k' hnone hsame.pte hsegments.1 hcache hbuffers
    refine ⟨adoptAll howners hforget (fun _ => trivial)
      (fun frame hframe => hk.books.unowned frame (hnew frame hframe).1)
      (fun frame hframe => (hnew frame hframe).2), fun frame => ?_, fun frame hne => ?_⟩
    · rw [howners frame]
      exact Set.subset_union_left
    rw [howners frame] at hne
    obtain ⟨owner, howner | ⟨index, hindex, -⟩⟩ := hne
    · exact .inl ⟨owner, howner⟩
    · exact .inr (hnew frame (mem_of_getElem? hindex)).1
  obtain ⟨hbooks, hkept, hnew⟩ := hbooks
  refine ⟨by rw [hsame.pids]; exact hpid, hsame.wellFormed hk hbooks ?_, ?_, ?_⟩
  · obtain ⟨htables, hold, hrest⟩ := hk.tables
    unfold Tables
    rw [hsegments.1, hsegments.2, hattached]
    refine ⟨htables, fun handle hhandle => ?_, hrest⟩
    rcases hbuffers with hbuffers | ⟨buffer, hnext', hbuffers, -⟩
    · rw [hbuffers]
      exact hold handle (hnext.trans hhandle)
    · rw [hnext'] at hhandle
      rw [hbuffers, update_of_ne (by omega)]
      exact hold handle (by omega)
  · rw [hsame.live_eq]
    rintro frame (hne | hmem | hmem)
    · exact (hnew frame hne).imp id .inl
    · exact .inr (.inl (hfree.subset hmem))
    · exact .inr (.inr hmem)
  · rw [hsame.live_eq]
    exact fun frame hne => hne.mono (hkept frame)

/-- A buffer takes its frames. -/
theorem createDumbBuffer_acquires (width height bpp start : ℕ) :
    Always (Acquires pid) (createDumbBuffer width height bpp start : KernelM φ ℕ) := by
  intro k r k' hrun
  unfold createDumbBuffer at hrun
  dsimp only at hrun
  split_ifs at hrun
  · cases hrun
    exact refl k
  · cases hrun
    exact refl k
  generalize width * ((bpp + 7) / 8) * height = size at hrun
  generalize (size + 4095) / 4096 = pages at hrun
  rcases bind_eq_some.mp hrun with ⟨found, k₁, halloc, hrun⟩ | ⟨e, halloc, -⟩
  · rcases allocateContiguous_cases halloc with ⟨hr, rfl⟩ | ⟨count, hle, hr, hmem, rfl⟩
    · cases hr
      cases hrun
      exact refl _
    cases hr
    obtain ⟨ram, hram⟩ := eachZero_run { k with
      freeFrames := k.freeFrames.filter fun frame => decide (frame ∉ range' start count) }
    rw [if_pos rfl, bind_of_ok hram] at hrun
    have hframes : ∀ frame ∈ range' start pages, frame ∈ k.freeFrames ∧
        frame ∉ k.freeFrames.filter fun frame => decide (frame ∉ range' start count) := by
      grind
    unfold insertDumbBuffer at hrun
    rw [get_bind] at hrun
    split_ifs at hrun
    · cases hrun
      exact giveAway_acquires ⟨rfl, fun _ => rfl, rfl, rfl⟩ filter_sublist rfl
        ⟨rfl, rfl⟩ rfl rfl le_rfl (.inl rfl)
    · rw [modify_bind] at hrun
      cases hrun
      exact giveAway_acquires ⟨rfl, fun _ => rfl, rfl, rfl⟩ filter_sublist rfl
        ⟨rfl, rfl⟩ rfl rfl (Nat.le_succ _) (.inl rfl)
    rw [modify_bind, modify_bind] at hrun
    cases hrun
    exact giveAway_acquires ⟨rfl, fun _ => rfl, rfl, rfl⟩ filter_sublist rfl
      ⟨rfl, rfl⟩ rfl rfl (Nat.le_succ _) (.inr ⟨_, rfl, rfl, hframes⟩)
  · grind [allocateContiguous_cases]

section Files

variable [FileLayer φ]

omit [FileLayer φ] in
/-- A segment is an owner that is counted. -/
theorem Kernel.segment_mem_owners (hsome : k.segments shmid = some segment)
    (hframe : frame ∈ segment.frames) :
    ∃ owner ∈ k.owners live frame, ¬ owner.IsMapping ∧ ¬ owner.IsDumbBuffer := by
  obtain ⟨index, hindex⟩ := mem_iff_getElem?.mp hframe
  exact ⟨.segment shmid index, ⟨segment, hsome, hindex⟩, id, id⟩

/-- A segment is attached. -/
theorem attachSegment_balances {addr : ℕ} {rdonly : Bool} {r : Except SyscallError Unit}
    (hsome : k.segments shmid = some segment) (haddr : addr % 4096 = 0)
    (hend : addr + mappingPages segment.size * 4096 ≤ userMemEnd)
    (hrun : attachSegment pid shmid addr segment.frames (mappingPages segment.size) rdonly k =
      some (r, k')) : Balances pid k k' := by
  intro hpid hk
  unfold attachSegment at hrun
  rw [bind_of_ok (sharedFramesNew_run)] at hrun
  -- The new object has a reference to every frame, beside the one of the segment.
  have hreserve : k.Keeps k.live [] (segment.frames.foldl addRef k) k.live (segment.frames ++ []) :=
    k.keeps_reserveAll fun frame hframe => segment_mem_owners hsome hframe
  rw [append_nil] at hreserve
  rw [k.addRefs_eq] at hrun hreserve
  rcases bind_eq_some.mp hrun with ⟨area, k₁, hnew, hrun⟩ | ⟨e, hnew, -⟩
  · obtain ⟨rfl, -, hr⟩ := newArea_eq_some hnew
    cases hr
    have hpos := mappingPages_pos (hk.contained.sized shmid segment hsome)
    -- The area takes the object over; the record and the count do not touch the frames.
    have hregister : ∀ {r' : Except SyscallError Unit} {t : Kernel φ},
        registerArea pid ⟨addr, addr + mappingPages segment.size * 4096, shmatPageFlags rdonly,
          ⟨true, !rdonly, false⟩, .shared ⟨k.nextObject, segment.frames⟩ .empty, false, false,
          false⟩ (k.withObject (segment.frames.foldl addRef k).frameRefCount k.freeFrames
            k.ram) = some (r', t) → Balances pid k t := by
      intro r' t hrun'
      refine registerArea_counted (fun _ => hreserve) hrun' rfl ⟨haddr, ?_, ?_, hend⟩
      · dsimp only
        omega
      · dsimp only
        omega
    rcases bind_eq_some.mp hrun with ⟨_, k₂, hreg, hrun⟩ | ⟨e, hreg, -⟩
    · rw [modify_bind] at hrun
      cases hrun
      refine trans_of (Balances pid) (trans_of _ (hregister hreg) ?_)
        (setAttachCount_balances _) hpid hk
      refine k₂.setRecords_balances pid (· ++ [⟨shmid, addr, mappingPages segment.size * 4096⟩])
        fun mapping hmem => ?_
      grind
    · exact hregister hreg hpid hk
  · exact absurd (newArea_eq_some hnew).2.2 (by simp)

/-- The range that `shmat` attaches a segment at lies in user memory. -/
def Kernel.AttachFits (k : Kernel φ) (pid shmid shmaddr : ℕ) : Prop :=
  ∀ segment, k.segments shmid = some segment →
    k.attachAddress pid shmaddr + mappingPages segment.size * 4096 ≤ userMemEnd

instance (k : Kernel φ) (pid shmid shmaddr : ℕ) : Decidable (k.AttachFits pid shmid shmaddr) :=
  decidable_of_iff ((k.segments shmid).all (fun segment =>
      decide (k.attachAddress pid shmaddr + mappingPages segment.size * 4096 ≤ userMemEnd)) = true)
    (by
      unfold AttachFits
      simp [Option.all_eq_true])

variable {shmaddr : ℕ}

/-- `shmat` keeps the books. -/
theorem shmat_balances {flags : ShmatFlags} (hk : k.WellFormed)
    (hfits : k.AttachFits pid shmid shmaddr) (hrun : shmat pid shmid shmaddr flags k = some (r, k'))
    : Balances pid k k' := by
  unfold shmat at hrun
  split_ifs at hrun
  · cases hrun
    exact refl k
  rw [get_bind] at hrun
  cases hsome : k.segments shmid with
  | none =>
    rw [hsome] at hrun
    cases hrun
    exact refl k
  | some segment =>
  rw [hsome] at hrun
  dsimp only at hrun
  split_ifs at hrun
  · cases hrun
    exact refl k
  · cases hrun
    exact refl k
  obtain ⟨requested, haddr, hplaced⟩ := orPanic_bind_eq_some hrun
  obtain rfl := eq_of_virtAddr haddr
  rcases bind_eq_some.mp hplaced with ⟨addr, k₁, hplace, hrun⟩ | ⟨e, hplace, -⟩
  · rcases attachAddr_cases hplace with ⟨e, he, -⟩ | ⟨hr, hsegments, hbalances⟩
    · exact absurd he (by simp)
    cases hr
    have hsome₁ : k₁.segments shmid = some segment := by
      rw [hsegments]
      exact hsome
    have hattach : ∀ {r' : Except SyscallError Unit} {t : Kernel φ},
        attachSegment pid shmid (k.attachAddress pid requested) segment.frames
          (mappingPages segment.size) flags.rdonly k₁ = some (r', t) → Balances pid k₁ t :=
      fun hrun' => attachSegment_balances hsome₁ (attachAddress_aligned hk _)
        (hfits segment hsome) hrun'
    rcases bind_eq_some.mp hrun with ⟨_, k₂, hrun₂, hrun⟩ | ⟨e, hrun₂, -⟩
    · grind [pure_eq_some.mp, Balances]
    · exact trans_of (Balances pid) hbalances (hattach hrun₂)
  · rcases attachAddr_cases hplace with ⟨e, -, rfl⟩ | ⟨-, -, hbalances⟩
    · exact refl _
    · exact hbalances

/-- A segment is detached. -/
theorem completeDetach_balances {mapping : ProcessShmMapping} (haddr : mapping.addr % 4096 = 0)
    (hlen : mapping.len % 4096 = 0) :
    Always (Balances pid) (completeDetach pid mapping : KernelM φ Unit) := by
  refine (unmap_balances haddr hlen).bind fun _ => ?_
  refine (Always.modify fun k => k.setAttachCount_balances).bind fun _ => ?_
  refine Always.get_bind fun k r k' hrun => ?_
  cases hsome : k.segments mapping.shmid with
  | none =>
    rw [hsome] at hrun
    cases hrun
    exact refl _
  | some segment =>
  rw [hsome] at hrun
  dsimp only at hrun
  split_ifs at hrun
  · exact destroySegmentLocked_balances k r k' hrun
  · cases hrun
    exact refl _

variable {r : Except SyscallError Unit}

/-- `shmdt` keeps the books. -/
theorem shmdt_balances (hk : k.WellFormed)
    (hrun : shmdt pid shmaddr k = some (r, k')) : Balances pid k k' := by
  obtain ⟨addr, -, hrun⟩ := orPanic_bind_eq_some hrun
  rw [get_bind] at hrun
  generalize findIdx? _ (k.process pid).sysvShmMappings = found at hrun
  cases found with
  | none =>
    cases hrun
    exact refl k
  | some index =>
  obtain ⟨mapping, hmapping, hrun⟩ := orPanic_bind_eq_some hrun
  obtain ⟨haddr, hlen⟩ := hk.contained.attached pid mapping (mem_of_getElem? hmapping)
  refine trans_of (Balances pid) ?_ (completeDetach_balances haddr hlen _ r k' hrun)
  exact k.setRecords_balances pid (·.eraseIdx index) fun other hmem =>
    .inl (mem_of_mem_eraseIdx hmem)

/-- The exit of a process keeps the books. -/
theorem detachAllProcessMappings_balances (hk : k.WellFormed)
    (hrun : detachAllProcessMappings pid k = some (r, k')) : Balances pid k k' := by
  refine trans_of (Balances pid) ?_ (Always.each (fun mapping hmem => ?_) _ r k' hrun)
  · exact k.setRecords_balances pid (fun _ => []) fun mapping hmem =>
      absurd hmem not_mem_nil
  · grind [hk.contained.attached, completeDetach_balances]

end Files

end Seele.Memory
