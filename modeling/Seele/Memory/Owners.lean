import Seele.Lib.Ledger
import Seele.Memory.PageSteps

/-!
# Who owns a frame

A frame is owned by the pages that map it, by the `SharedFrames` objects, SysV segments and dumb
buffers that list it, and by its entry in the shared file cache. A frame without a reference count
belongs to one page, or to dumb buffers, which are never counted; every other owner is counted. So
`FRAME_REF_COUNT` and the free list of `FRAME_ALLOCATOR` are a `Ledger` of these owners
(`Kernel.Books`), and every step that a page can take is an entry in it (`PageStep.books`). Which
`SharedFrames` objects are alive is a parameter of the books.
-/

namespace Seele.Memory

open Seele.Lib Kernel Function PageSteps List Ledger

variable {φ : Type}

/-- What can own a frame. A position in a list of frames is an owner of its own. -/
inductive Owner where
  | mapping (pid page : ℕ)
  | sharedFrames (frames : SharedFrames) (index : ℕ)
  | segment (shmid index : ℕ)
  | dumbBuffer (handle index : ℕ)
  | cacheEntry (key : FilePageCacheKey)
deriving DecidableEq

/-- A page. It may own a frame without a count. -/
def Owner.IsMapping : Owner → Prop
  | .mapping .. => True
  | _ => False

/-- A dumb buffer. It is never counted. -/
def Owner.IsDumbBuffer : Owner → Prop
  | .dumbBuffer .. => True
  | _ => False

/-- The `SharedFrames` objects that some area refers to. -/
def Kernel.live (k : Kernel φ) : Set SharedFrames :=
  {frames | ∃ pid, ∃ area ∈ (k.process pid).areas.memoryAreas, ∃ flags,
    area.data = .shared frames flags}

/-- The owner owns the frame, with `live` the objects that are alive. -/
def Kernel.Owns (k : Kernel φ) (live : Set SharedFrames) (frame : ℕ) : Owner → Prop
  | .mapping pid page => ∃ pte, k.pte pid page = some pte ∧ pte.frame = frame
  | .sharedFrames frames index => frames ∈ live ∧ frames.frames[index]? = some frame
  | .segment shmid index =>
    ∃ segment, k.segments shmid = some segment ∧ segment.frames[index]? = some frame
  | .dumbBuffer handle index =>
    ∃ buffer, k.dumbBuffers handle = some buffer ∧ buffer.frames[index]? = some frame
  | .cacheEntry key => k.sharedFilePageCache key = some frame

/-- The owners of a frame. -/
def Kernel.owners (k : Kernel φ) (live : Set SharedFrames) (frame : ℕ) : Set Owner :=
  {owner | k.Owns live frame owner}

variable {k : Kernel φ} {frame : ℕ} {owner : Owner}

/-- The owners of a frame. -/
theorem Kernel.mem_owners {live : Set SharedFrames} :
    owner ∈ k.owners live frame ↔ k.Owns live frame owner :=
  .rfl

/-- The reference counts and the free list agree with the owners of all frames. -/
def Kernel.Books (k : Kernel φ) (live : Set SharedFrames) (pending : List ℕ) : Prop :=
  Ledger Owner.IsMapping Owner.IsDumbBuffer (k.owners live) k.frameRefCount k.freeFrames pending

variable {live : Set SharedFrames} {pending : List ℕ} {kinds : Set StepKind} {kind : StepKind}

/-! ## Owners after a change of a page -/

variable (k)

/-- An entry after a change of one. -/
theorem Kernel.pte_setPte (pid page pid' page' : ℕ) (pte : Option Pte) :
    (k.setPte pid page pte).pte pid' page' =
      if pid' = pid ∧ page' = page then pte else k.pte pid' page' := by
  unfold Kernel.setPte Kernel.setProcess Kernel.pte
  by_cases hpid : pid' = pid
  · subst hpid
    by_cases hpage : page' = page
    · simp [hpage]
    · simp [hpage]
  · simp [hpid]

/-- Who owns what after a change of an entry. -/
theorem Kernel.owns_setPte (pid page : ℕ) (pte : Option Pte) (owner : Owner) :
    (k.setPte pid page pte).Owns live frame owner ↔
      if owner = .mapping pid page then ∃ entry, pte = some entry ∧ entry.frame = frame
      else k.Owns live frame owner := by
  cases owner with
  | mapping pid' page' => grind [Owns, pte_setPte]
  | sharedFrames frames index => rfl
  | segment shmid index => rfl
  | dumbBuffer handle index => rfl
  | cacheEntry key => rfl

variable {pid page : ℕ}

/-- A mapping is a new owner. -/
theorem Kernel.owners_map (live : Set SharedFrames) (hpte : k.pte pid page = none)
    (pte : Pte) : (k.setPte pid page (some pte)).owners live =
      update (k.owners live) pte.frame (insert (.mapping pid page) (k.owners live pte.frame)) := by
  funext frame
  ext owner
  have howns : ¬ k.Owns live frame (.mapping pid page) := by
    rintro ⟨entry, hentry, -⟩
    rw [hpte] at hentry
    exact absurd hentry (by simp)
  grind [mem_owners, k.owns_setPte]

variable {pte : Pte}

/-- A mapping that is gone is no owner. -/
theorem Kernel.owners_unmap (live : Set SharedFrames)
    (hpte : k.pte pid page = some pte) : (k.setPte pid page none).owners live =
      update (k.owners live) pte.frame (k.owners live pte.frame \ {.mapping pid page}) := by
  funext frame
  ext owner
  rw [mem_owners, k.owns_setPte]
  by_cases howner : owner = .mapping pid page
  · subst howner
    by_cases hframe : frame = pte.frame
    · simp [hframe]
    have hother : ¬ k.Owns live frame (.mapping pid page) := by
      rintro ⟨entry, hentry, rfl⟩
      rw [hpte] at hentry
      exact hframe (by rw [Option.some.inj hentry])
    simp [hframe, mem_owners, hother]
  · grind [mem_owners]

/-- Flags do not matter. -/
theorem Kernel.owners_reflag (live : Set SharedFrames)
    (hpte : k.pte pid page = some pte) (flags : PageTableFlags) :
    (k.setPte pid page (some ⟨pte.frame, flags⟩)).owners live = k.owners live := by
  funext frame
  grind [mem_owners, k.owns_setPte, Owns]

variable {k}

/-- A mapped page owns its frame. -/
theorem Kernel.mapping_mem_owners (hpte : k.pte pid page = some pte) :
    .mapping pid page ∈ k.owners live pte.frame :=
  ⟨pte, hpte, rfl⟩

/-- A page that is not mapped owns nothing. -/
theorem Kernel.mapping_notMem_owners (hpte : k.pte pid page = none) :
    .mapping pid page ∉ k.owners live frame := by
  rintro ⟨pte, h, -⟩
  rw [hpte] at h
  exact absurd h (by simp)

/-! ## Owners after a change of the shared file cache -/

variable {key : FilePageCacheKey}

/-- A cached page is a new owner. -/
theorem Kernel.owners_cacheFrame (k : Kernel φ) (live : Set SharedFrames)
    (hkey : k.sharedFilePageCache key = none) (frame : ℕ) (rest : List ℕ) :
    (k.cacheFrame key frame rest).owners live =
      update (k.owners live) frame (insert (.cacheEntry key) (k.owners live frame)) := by
  have howns : ∀ g owner, (k.cacheFrame key frame rest).Owns live g owner ↔
      if owner = .cacheEntry key then g = frame else k.Owns live g owner := by
    intro g owner
    cases owner with
    | cacheEntry key' =>
      by_cases h : key' = key
      · subst h
        simp [Owns, cacheFrame, eq_comm]
      · simp [Owns, cacheFrame, h]
    | mapping pid page => simp [Owns, cacheFrame, pte]
    | sharedFrames frames index => simp [Owns]
    | segment shmid index | dumbBuffer handle index => simp [Owns, cacheFrame]
  funext g
  grind [mem_owners, Owns]

/-! ## The books under single changes -/

/-- The frame has an owner, or is free, or a reference to it is pending. -/
def Kernel.Tracks (k : Kernel φ) (live : Set SharedFrames) (pending : List ℕ) (frame : ℕ) : Prop :=
  Tracked (k.owners live) k.freeFrames pending frame

/-- The second state has right books if the first has, and keeps track of the same frames. -/
def Kernel.Keeps (k : Kernel φ) (live : Set SharedFrames) (pending : List ℕ) (k' : Kernel φ)
    (live' : Set SharedFrames) (pending' : List ℕ) : Prop :=
  k.Books live pending → k'.Books live' pending' ∧
    ∀ frame, k'.Tracks live' pending' frame ↔ k.Tracks live pending frame

/-- One step after another. -/
theorem Kernel.Keeps.trans {k₁ k₂ : Kernel φ} {live live₁ live₂ : Set SharedFrames}
    {pending pending₁ pending₂ : List ℕ} (h₁ : k.Keeps live pending k₁ live₁ pending₁)
    (h₂ : k₁.Keeps live₁ pending₁ k₂ live₂ pending₂) : k.Keeps live pending k₂ live₂ pending₂ := by
  intro hb
  obtain ⟨hb₁, ht₁⟩ := h₁ hb
  obtain ⟨hb₂, ht₂⟩ := h₂ hb₁
  grind

/-- No step at all. -/
theorem Kernel.Keeps.refl (k : Kernel φ) : k.Keeps live pending k live pending :=
  fun hb => ⟨hb, fun _ => .rfl⟩

variable {k' : Kernel φ}

/-- Owners, counts and free frames are all that matters. -/
theorem Kernel.Keeps.of_eq (howners : k'.owners live = k.owners live)
    (hcount : k'.frameRefCount = k.frameRefCount) (hfree : k'.freeFrames = k.freeFrames) :
    k.Keeps live pending k' live pending := by
  intro hb
  grind [Books, Tracks]

variable (k)

/-- What dropping a reference changes. -/
theorem Kernel.dropCounted_fields (count : ℕ) :
    (k.dropCounted frame count).owners live = k.owners live ∧
      (k.dropCounted frame count).frameRefCount =
        (dropOne k.frameRefCount k.freeFrames frame count).1 ∧
      (k.dropCounted frame count).freeFrames =
        (dropOne k.frameRefCount k.freeFrames frame count).2 := by
  unfold dropCounted dropOne
  split_ifs with h
  · exact ⟨rfl, rfl, rfl⟩
  · exact ⟨rfl, rfl, rfl⟩

variable {count : ℕ}

/-- A pending reference is dropped. -/
theorem Kernel.keeps_dropCounted (hcount : k.frameRefCount frame = some count) :
    k.Keeps live (frame :: pending) (k.dropCounted frame count) live pending := by
  intro hb
  grind [k.dropCounted_fields, Books, Tracks, Ledger.drop]

/-- The same, if it is counted. -/
theorem Kernel.keeps_dropRef :
    k.Keeps live (frame :: pending) (k.dropRef frame) live pending := by
  intro hb
  have hpos : 0 < (frame :: pending).count frame := count_pos_iff.mpr mem_cons_self
  obtain ⟨count, hcount⟩ := (hb.counts frame).counted_of_pending hpos
  unfold dropRef
  rw [hcount]
  exact k.keeps_dropCounted hcount hb

/-- A reference is pending when its page is unmapped. -/
theorem Kernel.keeps_unmap (hpte : k.pte pid page = some pte)
    (hcount : k.frameRefCount pte.frame = some count) :
    k.Keeps live pending (k.setPte pid page none) live (pte.frame :: pending) := by
  intro hb
  unfold Books Tracks
  rw [k.owners_unmap live hpte]
  have hmem : .mapping pid page ∈ k.owners live pte.frame := mapping_mem_owners hpte
  refine ⟨takeBack hb hmem hcount, ?_⟩
  exact Tracked.change (.inl ⟨_, hmem⟩) (.inr (.inr mem_cons_self))
    (fun s hs => update_of_ne hs ..) (fun _ _ => .rfl)
    (fun s hs => mem_cons_iff_of_ne hs)

/-- A page is unmapped and its frame released. -/
theorem Kernel.keeps_release (hpte : k.pte pid page = some pte) :
    k.Keeps live pending ((k.setPte pid page none).releaseRef pte.frame) live pending := by
  have hsame : (k.setPte pid page none).frameRefCount = k.frameRefCount := rfl
  unfold releaseRef
  rw [hsame]
  cases hcount : k.frameRefCount pte.frame with
  | some count => exact (k.keeps_unmap hpte hcount).trans (keeps_dropCounted _ hcount)
  | none =>
  -- The page was the only owner.
  intro hb
  have howners := k.owners_unmap live hpte
  have howners' : ((k.setPte pid page none).handBack pte.frame).owners live = _ := howners
  unfold Books Tracks
  rw [howners']
  have hmem : .mapping pid page ∈ k.owners live pte.frame := mapping_mem_owners hpte
  refine ⟨giveBack hb hmem id hcount, ?_⟩
  exact Tracked.change (.inl ⟨_, hmem⟩) (.inr (.inl mem_cons_self))
    (fun s hs => update_of_ne hs ..) (fun s hs => mem_cons_iff_of_ne hs)
    (fun _ _ => .rfl)

variable {rest : List ℕ}

/-- A free frame is mapped. -/
theorem Kernel.keeps_mapNew (hfree : k.freeFrames = frame :: rest)
    (hpte : k.pte pid page = none) (flags : PageTableFlags) :
    k.Keeps live pending (({ k with freeFrames := rest }).mapCounted pid page frame flags) live
      pending := by
  intro hb
  have howners := k.owners_map live hpte ⟨frame, flags⟩
  have howners' : (({ k with freeFrames := rest }).mapCounted pid page frame flags).owners live =
    _ := howners
  unfold Books at hb
  rw [hfree] at hb
  unfold Books Tracks
  rw [howners', hfree]
  refine ⟨first hb id, ?_⟩
  refine Tracked.change (.inr (.inl mem_cons_self)) (.inl ?_)
    (fun s hs => update_of_ne hs ..) (fun s hs => (mem_cons_iff_of_ne hs).symm)
    (fun _ _ => .rfl)
  rw [update_self]
  exact Set.insert_nonempty ..

/-- A frame with another owner is mapped. -/
theorem Kernel.keeps_mapCounted (howner : owner ∈ k.owners live frame)
    (hmapping : ¬ owner.IsMapping) (hdumb : ¬ owner.IsDumbBuffer) (hpte : k.pte pid page = none)
    {flags : PageTableFlags} :
    k.Keeps live pending (k.mapCounted pid page frame flags) live pending := by
  intro hb
  have howners := k.owners_map live hpte ⟨frame, flags⟩
  have howners' : (k.mapCounted pid page frame flags).owners live = _ := howners
  unfold Books Tracks
  rw [howners']
  refine ⟨another hb howner hmapping hdumb (mapping_notMem_owners hpte) id, ?_⟩
  refine Tracked.change (.inl ⟨_, howner⟩) (.inl ?_) (fun s hs => update_of_ne hs ..)
    (fun _ _ => .rfl) (fun _ _ => .rfl)
  rw [update_self]
  exact Set.insert_nonempty ..

/-- A free frame is cached. -/
theorem Kernel.keeps_cacheFrame (hfree : k.freeFrames = frame :: rest)
    (hkey : k.sharedFilePageCache key = none) :
    k.Keeps live pending (k.cacheFrame key frame rest) live pending := by
  intro hb
  unfold Books at hb
  rw [hfree] at hb
  unfold Books Tracks
  rw [k.owners_cacheFrame live hkey, hfree]
  refine ⟨first hb id, ?_⟩
  refine Tracked.change (.inr (.inl mem_cons_self)) (.inl ?_)
    (fun s hs => update_of_ne hs ..) (fun s hs => (mem_cons_iff_of_ne hs).symm)
    (fun _ _ => .rfl)
  rw [update_self]
  exact Set.insert_nonempty ..

/-- The only owner takes the frame. -/
theorem Kernel.keeps_cowTake (hpte : k.pte pid page = some pte)
    (hcount : k.frameRefCount pte.frame = none ∨ k.frameRefCount pte.frame = some 1)
    (flags : PageTableFlags) :
    k.Keeps live pending ((k.setRef pte.frame none).setPte pid page (some ⟨pte.frame, flags⟩)) live
      pending := by
  intro hb
  have howners := (k.setRef pte.frame none).owners_reflag live hpte flags
  unfold Books Tracks
  rw [howners]
  exact ⟨uncount hb (mapping_mem_owners hpte) trivial hcount, fun _ => .rfl⟩

/-- A copy replaces the frame. -/
theorem Kernel.keeps_cowCopy (hpte : k.pte pid page = some pte)
    (hcount : k.frameRefCount pte.frame = some count)
    (hfree : k.freeFrames = frame :: rest) (flags : PageTableFlags) : k.Keeps live pending
      ((({ k with freeFrames := rest }).mapCounted pid page frame flags).dropRef pte.frame) live
      pending := by
  -- The page is unmapped, mapped to the new frame, and then the old reference is dropped.
  have hunmap : k.Keeps live pending (k.setPte pid page none) live (pte.frame :: pending) :=
    k.keeps_unmap hpte hcount
  have hmap : (k.setPte pid page none).Keeps live (pte.frame :: pending) _ live _ :=
    (k.setPte pid page none).keeps_mapNew hfree (k.pte_setPte_self pid page none) flags
  have hsame : ({ k.setPte pid page none with freeFrames := rest }).mapCounted pid page frame
      flags = ({ k with freeFrames := rest }).mapCounted pid page frame flags := by
    have hset := ({ k with freeFrames := rest }).setPte_setPte pid page none (some ⟨frame, flags⟩)
    exact congrArg (fun s => s.setRef frame (some ((k.frameRefCount frame).getD 0 + 1))) hset
  rw [hsame] at hmap
  exact (hunmap.trans hmap).trans (keeps_dropRef _)

variable {k}

/-! ## The books under steps -/

/-- Every step but a leak keeps the books. -/
theorem PageStep.keeps (h : PageStep kind k k') (hkind : kind ≠ .leak) (hlive : k.live ⊆ live) :
    k.Keeps live pending k' live pending := by
  cases h with
  | files _ files | ram _ frame bytes => exact .of_eq rfl rfl rfl
  | leak _ frame rest hfree => exact absurd rfl hkind
  | mapNew _ pid page area frame rest hfree hpte hmem hmeets => exact k.keeps_mapNew hfree hpte _
  | mapCached _ pid page area key frame hkey hshared hpte hmem hmeets =>
    have howner : .cacheEntry key ∈ k.owners live frame := hkey
    exact k.keeps_mapCounted howner id id hpte
  | mapShared _ pid page area frames flags index frame hdata hframe hpte hmem hmeets =>
    have howner : .sharedFrames frames index ∈ k.owners live frame :=
      ⟨hlive ⟨pid, area, hmem, flags, hdata⟩, hframe⟩
    exact k.keeps_mapCounted howner id id hpte
  | loadCached _ key frame rest hfree hkey => exact k.keeps_cacheFrame hfree hkey
  | release _ pid page pte hpte => exact k.keeps_release hpte
  | cowTake _ pid page pte hpte hcount => exact k.keeps_cowTake hpte hcount _
  | cowCopy _ pid page pte frame rest hpte hcount hfree =>
    obtain ⟨count, hcount⟩ := Option.isSome_iff_exists.mp hcount
    exact k.keeps_cowCopy hpte hcount hfree _

/-- Every step on a page keeps the books. -/
theorem PageStep.books (h : PageStep kind k k') (hlive : k.live ⊆ live) (hb : k.Books live pending)
    : k'.Books live pending := by
  by_cases hkind : kind = .leak
  · subst hkind
    cases h with
    | leak _ frame rest hfree =>
      unfold Books at hb
      rw [hfree] at hb
      exact forget hb (sublist_cons_self ..)
  · exact (h.keeps hkind hlive hb).1

/-- A frame that is tracked was tracked before. -/
theorem PageStep.tracks (h : PageStep kind k k') (hlive : k.live ⊆ live) (hb : k.Books live pending)
    (htracks : k'.Tracks live pending frame) : k.Tracks live pending frame := by
  by_cases hkind : kind = .leak
  · subst hkind
    cases h with
    | leak _ other rest hfree =>
    rcases htracks with hne | hmem | hmem
    · exact .inl hne
    · exact .inr (.inl (by rw [hfree]; exact mem_cons_of_mem other hmem))
    · exact .inr (.inr hmem)
  · exact ((h.keeps hkind hlive hb).2 frame).mp htracks

/-- An owner is added. -/
theorem subset_update_insert (owners : ℕ → Set Owner) (frame g : ℕ) (owner : Owner) :
    owners g ⊆ update owners frame (insert owner (owners frame)) g := by
  grind

/-- Nobody loses a frame but by a drop. -/
theorem PageStep.owners_subset (h : PageStep kind k k') (hkind : kind ≠ .drop)
    (live : Set SharedFrames) (g : ℕ) : k.owners live g ⊆ k'.owners live g := by
  cases h with
  | files _ files | ram _ frame bytes | leak _ frame rest hfree => exact subset_rfl
  | mapNew _ pid page area frame rest hfree hpte hmem hmeets
  | mapCached _ pid page area key frame hkey hshared hpte hmem hmeets =>
    have howners := k.owners_map live hpte ⟨frame, area.flags⟩
    exact (subset_update_insert ..).trans (congrFun howners g).superset
  | mapShared _ pid page area frames flags index frame hdata hframe hpte hmem hmeets =>
    have howners := k.owners_map live hpte ⟨frame, area.flags.union flags⟩
    exact (subset_update_insert ..).trans (congrFun howners g).superset
  | loadCached _ key frame rest hfree hkey =>
    have howners := k.owners_cacheFrame live hkey frame rest
    exact (subset_update_insert ..).trans (congrFun howners g).superset
  | release _ pid page pte hpte
  | cowCopy _ pid page pte frame rest hpte hcount hfree => exact absurd rfl hkind
  | cowTake _ pid page pte hpte hcount =>
    have howners := (k.setRef pte.frame none).owners_reflag live hpte pte.flags.uncow
    exact (congrFun howners g).superset

variable (h : PageSteps kinds k k')

include h

/-- Steps on pages keep the objects alive. -/
theorem PageSteps.live_eq : k'.live = k.live := by
  unfold live
  simp only [h.areas]

/-- The books stay in order. -/
theorem PageSteps.books (hlive : k.live ⊆ live)
    (hb : k.Books live pending) : k'.Books live pending := by
  induction h with
  | refl => exact hb
  | tail hsteps hstep ih =>
    obtain ⟨kind, -, hstep⟩ := hstep
    exact hstep.books ((live_eq hsteps).subset.trans hlive) ih

/-- A frame that is tracked was tracked before. -/
theorem PageSteps.tracks (hlive : k.live ⊆ live)
    (hb : k.Books live pending) (frame : ℕ) (htracks : k'.Tracks live pending frame) :
    k.Tracks live pending frame := by
  induction h with
  | refl => exact htracks
  | tail hsteps hstep ih =>
    obtain ⟨kind, -, hstep⟩ := hstep
    have hlive' := (live_eq hsteps).subset.trans hlive
    exact ih (hstep.tracks hlive' (books hsteps hlive hb) htracks)

/-- Without a leak the books are kept. -/
theorem PageSteps.keeps (hkinds : .leak ∉ kinds) (hlive : k.live ⊆ live) :
    k.Keeps live pending k' live pending := by
  induction h with
  | refl => exact .refl k
  | tail hsteps hstep ih =>
    obtain ⟨kind, hkind, hstep⟩ := hstep
    have hne : kind ≠ .leak := fun heq => hkinds (heq ▸ hkind)
    exact ih.trans (hstep.keeps hne ((live_eq hsteps).subset.trans hlive))

/-- Without a drop nobody loses a frame. -/
theorem PageSteps.owners_subset (hkinds : .drop ∉ kinds)
    (live : Set SharedFrames) (frame : ℕ) : k.owners live frame ⊆ k'.owners live frame := by
  induction h with
  | refl => exact subset_rfl
  | tail _ hstep ih =>
    obtain ⟨kind, hkind, hstep⟩ := hstep
    exact ih.trans (hstep.owners_subset (fun heq => hkinds (heq ▸ hkind)) live frame)

omit h

end Seele.Memory
