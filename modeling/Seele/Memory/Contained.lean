import Seele.Memory.Consistent

/-!
# Mapped pages lie in areas

Every page that a process maps lies in one of its areas, and areas are made of whole pages of user
memory (`Kernel.Contained`). The source never checks this; it follows because a page is only mapped
for an area, because a range is unmapped before it is cut out of the areas, and because the ranges
that areas are made from and cut at are page aligned. It is what the end of a process relies on: the
pages of the areas are released, and then the page table is thrown away with whatever is left in it.
-/

namespace Seele.Memory

open Seele.Lib MemoryArea Kernel AreaMap

variable {φ : Type} {kinds : Set StepKind} {kind : StepKind}

/-! ## Whole pages -/

/-- The area is made of whole pages of user memory. -/
structure MemoryArea.WholePages (area : MemoryArea) : Prop where
  start : area.start % 4096 = 0
  end_ : area.end_ % 4096 = 0
  proper : area.start < area.end_
  user : area.end_ ≤ userMemEnd

instance (area : MemoryArea) : Decidable area.WholePages :=
  decidable_of_iff (area.start % 4096 = 0 ∧ area.end_ % 4096 = 0 ∧ area.start < area.end_ ∧
      area.end_ ≤ userMemEnd)
    ⟨fun ⟨h1, h2, h3, h4⟩ => ⟨h1, h2, h3, h4⟩, fun ⟨h1, h2, h3, h4⟩ => ⟨h1, h2, h3, h4⟩⟩

variable {area : MemoryArea} {addr : ℕ}

/-- The addresses of an area. -/
theorem MemoryArea.contains_iff :
    area.contains addr = true ↔ area.start ≤ addr ∧ addr < area.end_ := by
  simp [contains]

variable {page : ℕ}

/-- A page meets an area of pages at its start. -/
theorem MemoryArea.WholePages.meetsPage_iff (h : area.WholePages) :
    area.meetsPage page ↔ area.contains (page * 4096) = true := by
  obtain ⟨hstart, -, -, -⟩ := h
  rw [contains_iff]
  unfold meetsPage
  omega

/-- An address stays unless it is unmapped. -/
theorem contains_unmapped (h : area.contains addr = true) (start end_ : ℕ) :
    (start ≤ addr ∧ addr < end_) ∨
      ∃ piece ∈ area.unmapped start end_, piece.contains addr = true := by
  by_cases hapart : area.apart start end_
  · grind [unmapped_of_apart]
  simp only [mem_unmapped hapart]
  rw [contains_iff] at h
  rcases Nat.lt_or_ge addr start with hlt | hle
  · refine .inr ⟨area.leftPiece start, .inl ⟨by omega, rfl⟩, ?_⟩
    exact contains_iff.mpr ⟨h.1, hlt⟩
  rcases Nat.lt_or_ge addr end_ with hlt | hge
  · exact .inl ⟨hle, hlt⟩
  · refine .inr ⟨area.rightPiece end_, .inr ⟨by omega, rfl⟩, ?_⟩
    exact contains_iff.mpr ⟨hge, h.2⟩

variable {start end_ : ℕ} {piece : MemoryArea}

/-- The pieces are made of pages. -/
theorem wholePages_of_mem_unmapped (h : area.WholePages)
    (hstart : start % 4096 = 0) (hend : end_ % 4096 = 0) (hmem : piece ∈ area.unmapped start end_) :
    piece.WholePages := by
  obtain ⟨h1, h2, h3, h4⟩ := h
  by_cases hapart : area.apart start end_
  · rw [unmapped_of_apart hapart, List.mem_singleton] at hmem
    rw [hmem]
    exact ⟨h1, h2, h3, h4⟩
  have hmeets : max area.start start < min area.end_ end_ := Nat.lt_of_not_le hapart
  rcases (mem_unmapped hapart).mp hmem with ⟨hlt, rfl⟩ | ⟨hlt, rfl⟩
  · exact ⟨h1, hstart, hlt, show start ≤ userMemEnd by omega⟩
  · exact ⟨hend, h2, hlt, h4⟩

variable {change : MemoryArea → MemoryArea}

/-- A change leaves every address. -/
theorem contains_recut (h : area.contains addr = true) (start end_ : ℕ)
    (hchange : ∀ a, (change a).start = a.start ∧ (change a).end_ = a.end_) :
    ∃ piece ∈ area.recut start end_ change, piece.contains addr = true := by
  by_cases hapart : area.apart start end_
  · grind [recut_of_apart]
  simp only [mem_recut hapart]
  rw [contains_iff] at h
  rcases Nat.lt_or_ge addr start with hlt | hle
  · refine ⟨area.leftPiece start, .inl ⟨by omega, rfl⟩, ?_⟩
    exact contains_iff.mpr ⟨h.1, hlt⟩
  rcases Nat.lt_or_ge addr end_ with hlt | hge
  · refine ⟨_, .inr (.inl rfl), ?_⟩
    rw [contains_iff, (hchange _).1, (hchange _).2]
    exact ⟨Nat.max_le.mpr ⟨h.1, hle⟩, Nat.lt_min.mpr ⟨h.2, hlt⟩⟩
  · refine ⟨area.rightPiece end_, .inr (.inr ⟨by omega, rfl⟩), ?_⟩
    exact contains_iff.mpr ⟨hge, h.2⟩

/-- The pieces of a change are made of pages. -/
theorem wholePages_of_mem_recut (h : area.WholePages) (hstart : start % 4096 = 0)
    (hend : end_ % 4096 = 0) (hchange : ∀ a, (change a).start = a.start ∧ (change a).end_ = a.end_)
    (hmem : piece ∈ area.recut start end_ change) : piece.WholePages := by
  obtain ⟨h1, h2, h3, h4⟩ := h
  by_cases hapart : area.apart start end_
  · rw [recut_of_apart hapart, List.mem_singleton] at hmem
    rw [hmem]
    exact ⟨h1, h2, h3, h4⟩
  have hmeets : max area.start start < min area.end_ end_ := Nat.lt_of_not_le hapart
  rcases (mem_recut hapart).mp hmem with ⟨hlt, rfl⟩ | rfl | ⟨hlt, rfl⟩
  · exact ⟨h1, hstart, hlt, show start ≤ userMemEnd by omega⟩
  · constructor
    · rw [(hchange _).1]
      show max area.start start % 4096 = 0
      grind
    · rw [(hchange _).2]
      show min area.end_ end_ % 4096 = 0
      grind
    · rw [(hchange _).1, (hchange _).2]
      exact hmeets
    · rw [(hchange _).2]
      exact (Nat.min_le_left ..).trans h4
  · exact ⟨hend, h2, hlt, h4⟩

/-! ## Address spaces of whole pages -/

/-- The areas and the placement cursor of the address space are page aligned. -/
structure AreaMap.Paged (s : AreaMap) : Prop where
  whole : ∀ area ∈ s.memoryAreas, area.WholePages
  cursor : s.userMem % 4096 = 0

/-- The address is in an area. -/
def AreaMap.Covers (s : AreaMap) (addr : ℕ) : Prop :=
  ∃ area ∈ s.memoryAreas, area.contains addr = true

/-- There are no areas at first. -/
theorem AreaMap.Paged.default : default.Paged :=
  ⟨fun _ h => absurd h List.not_mem_nil, by decide⟩

variable {s : AreaMap}

/-- Pages are unmapped. -/
theorem AreaMap.Paged.unmapAreas (h : s.Paged) (hstart : start % 4096 = 0) (hend : end_ % 4096 = 0)
    : (s.unmapAreas start end_).Paged := by
  refine ⟨fun piece hpiece => ?_, h.cursor⟩
  obtain ⟨area, hmem, hpiece⟩ := List.mem_flatMap.mp hpiece
  exact wholePages_of_mem_unmapped (h.whole area hmem) hstart hend hpiece

/-- The other addresses stay. -/
theorem AreaMap.Covers.unmapAreas (h : s.Covers addr) (start end_ : ℕ) :
    (start ≤ addr ∧ addr < end_) ∨ (s.unmapAreas start end_).Covers addr := by
  obtain ⟨area, hmem, hcontains⟩ := h
  rcases contains_unmapped hcontains start end_ with hrange | ⟨piece, hpiece, hcontains⟩
  · exact .inl hrange
  · exact .inr ⟨piece, List.mem_flatMap.mpr ⟨area, hmem, hpiece⟩, hcontains⟩

/-- An area of pages is registered. -/
theorem AreaMap.Paged.registerArea (h : s.Paged) (harea : area.WholePages) :
    (s.registerArea area).Paged := by
  refine ⟨fun other hother => ?_, h.cursor⟩
  rcases mem_insertArea.mp hother with rfl | hmem
  · exact harea
  · exact (h.unmapAreas harea.start harea.end_).whole other hmem

/-- What was covered stays covered. -/
theorem AreaMap.Covers.registerArea (h : s.Covers addr) (area : MemoryArea) :
    (s.registerArea area).Covers addr := by
  rcases h.unmapAreas area.start area.end_ with hrange | ⟨other, hmem, hcontains⟩
  · exact ⟨area, mem_insertArea.mpr (.inl rfl), contains_iff.mpr hrange⟩
  · exact ⟨other, mem_insertArea.mpr (.inr hmem), hcontains⟩

/-- The permissions of pages change. -/
theorem AreaMap.Paged.updatePermissions (h : s.Paged) (hstart : start % 4096 = 0)
    (hend : end_ % 4096 = 0) (protection : Protection) :
    (s.updatePermissions start end_ protection).Paged := by
  unfold AreaMap.updatePermissions
  split_ifs with hempty
  · exact h
  refine ⟨fun piece hpiece => ?_, h.cursor⟩
  obtain ⟨area, hmem, hpiece⟩ := List.mem_flatMap.mp hpiece
  refine wholePages_of_mem_recut (h.whole area hmem) hstart hend ?_ hpiece
  exact fun _ => ⟨rfl, rfl⟩

/-- The addresses stay. -/
theorem AreaMap.Covers.updatePermissions (h : s.Covers addr) (start end_ : ℕ)
    (protection : Protection) : (s.updatePermissions start end_ protection).Covers addr := by
  unfold AreaMap.updatePermissions
  split_ifs with hempty
  · exact h
  obtain ⟨area, hmem, hcontains⟩ := h
  have hpieces : ∃ piece ∈ area.reprotected start end_ protection, piece.contains addr = true :=
    contains_recut hcontains start end_ fun _ => ⟨rfl, rfl⟩
  obtain ⟨piece, hpiece, hcontains⟩ := hpieces
  exact ⟨piece, List.mem_flatMap.mpr ⟨area, hmem, hpiece⟩, hcontains⟩

/-- A fault reserves nothing. -/
@[simp]
theorem AreaMap.faultArea_userMem (s : AreaMap) (address : ℕ) :
    (s.faultArea address).2.userMem = s.userMem := by
  have hmem := s.getArea_userMem address
  unfold faultArea
  generalize s.getArea address = found at hmem
  grind [growStack]

/-- A fault keeps areas of pages. -/
theorem AreaMap.Paged.faultArea (h : s.Paged) (address : ℕ) : (s.faultArea address).2.Paged := by
  refine ⟨?_, by rw [s.faultArea_userMem]; exact h.cursor⟩
  rcases s.faultArea_cases address with ⟨hareas, -⟩ | ⟨index, area, hget, hpage, hareas, -⟩
  · rw [hareas]
    exact h.whole
  rw [hareas]
  intro other hother
  rcases List.mem_or_eq_of_mem_set hother with hmem | rfl
  · exact h.whole other hmem
  obtain ⟨-, hend, hproper, huser⟩ := h.whole area (List.mem_of_getElem? hget)
  refine ⟨Nat.mul_mod_left .., hend, ?_, huser⟩
  show address / 4096 * 4096 < area.end_
  omega

/-- A fault keeps the addresses. -/
theorem AreaMap.Covers.faultArea (h : s.Covers addr) (address : ℕ) :
    (s.faultArea address).2.Covers addr := by
  unfold Covers
  rcases s.faultArea_cases address with ⟨hareas, -⟩ | ⟨index, area, hget, hpage, hareas, -⟩
  · rw [hareas]
    exact h
  rw [hareas]
  obtain ⟨other, hmem, hcontains⟩ := h
  obtain ⟨i, hi⟩ := List.mem_iff_getElem?.mp hmem
  by_cases hindex : index = i
  · subst hindex
    have hlt := (List.getElem?_eq_some_iff.mp hget).1
    refine ⟨_, List.mem_iff_getElem?.mpr ⟨index, List.getElem?_set_self hlt⟩, ?_⟩
    grind [contains_iff]
  · grind [List.mem_iff_getElem]

/-! ## What a step can do to an entry -/

/-- The flags with which a page is mapped into an area. -/
def MemoryArea.Gives (area : MemoryArea) (flags : PageTableFlags) : Prop :=
  flags = area.flags ∨
    ∃ frames shared, area.data = .shared frames shared ∧ flags = area.flags.union shared

variable {k : Kernel φ} {pid : ℕ}

/-- The entries after a change of one. -/
theorem Kernel.pte_of_setPte {pid' page' : ℕ} {new : Option Pte} {pte : Pte}
    (h : (k.setPte pid' page' new).pte pid page = some pte) :
    (pid = pid' ∧ page = page' ∧ new = some pte) ∨ k.pte pid page = some pte := by
  grind [k.pte_setPte]

variable {k' : Kernel φ}

/-- An entry after a step was there before, or the page has been mapped into an area, or it has been
made writable. -/
theorem PageStep.pte_cases (h : PageStep kind k k') {pte : Pte}
    (hpte' : k'.pte pid page = some pte) : k.pte pid page = some pte ∨
      (kind = .gain ∧ ∃ area ∈ (k.process pid).areas.memoryAreas,
        area.meetsPage page ∧ area.Gives pte.flags) ∨
      ((kind = .take ∨ kind = .drop) ∧
        ∃ old, k.pte pid page = some old ∧ pte.flags = old.flags.uncow) := by
  cases h with
  | files _ files | ram _ frame bytes | leak _ frame rest hfree => exact .inl hpte'
  | mapNew _ pid' page' area frame rest hfree hpte hmem hmeets
  | mapCached _ pid' page' area key frame hkey hshared hpte hmem hmeets =>
    rcases pte_of_setPte (k := k) hpte' with ⟨rfl, rfl, heq⟩ | hold
    · cases heq
      exact .inr (.inl ⟨rfl, area, hmem, hmeets, .inl rfl⟩)
    · exact .inl hold
  | mapShared _ pid' page' area frames flags index frame hdata hframe hpte hmem hmeets =>
    rcases pte_of_setPte (k := k) hpte' with ⟨rfl, rfl, heq⟩ | hold
    · cases heq
      exact .inr (.inl ⟨rfl, area, hmem, hmeets, .inr ⟨frames, flags, hdata, rfl⟩⟩)
    · exact .inl hold
  | loadCached _ key frame rest hfree hkey => exact .inl hpte'
  | release _ pid' page' old hpte => grind [pte, releaseRef_process, pte_of_setPte]
  | cowTake _ pid' page' old hpte hcount =>
    rcases pte_of_setPte (k := k.setRef old.frame none) hpte' with ⟨rfl, rfl, heq⟩ | hold
    · grind
    · exact .inl hold
  | cowCopy _ pid' page' old frame rest hpte hcount hfree =>
  unfold Kernel.pte at hpte'
  rw [dropRef_process] at hpte'
  rcases pte_of_setPte (k := k) hpte' with ⟨rfl, rfl, heq⟩ | hold
  · grind
  · exact .inl hold

/-! ## Kernels -/

/-- All areas are made of whole pages, every mapped page lies in an area, the ranges of the attached
segments are page aligned, and no segment is empty. -/
structure Kernel.Contained (k : Kernel φ) : Prop where
  paged : ∀ pid, (k.process pid).areas.Paged
  inside : ∀ pid page, (k.pte pid page).isSome → (k.process pid).areas.Covers (page * 4096)
  attached : ∀ pid, ∀ mapping ∈ (k.process pid).sysvShmMappings,
    mapping.addr % 4096 = 0 ∧ mapping.len % 4096 = 0
  sized : ∀ shmid segment, k.segments shmid = some segment → segment.size ≠ 0

/-- Only processes and segments matter. -/
theorem Kernel.Contained.of_process (h : k.Contained) (hprocess : k'.process = k.process)
    (hsegments : k'.segments = k.segments) : k'.Contained := by
  have hpte : k'.pte = k.pte := by
    unfold pte
    rw [hprocess]
  constructor
  · rw [hprocess]
    exact h.paged
  · rw [hprocess, hpte]
    exact h.inside
  · rw [hprocess]
    exact h.attached
  · rw [hsegments]
    exact h.sized

/-- A page inside an area is mapped. -/
theorem Kernel.Contained.setPte (hk : k.Contained) {pte : Option Pte}
    (hcovers : (k.process pid).areas.Covers (page * 4096)) : (k.setPte pid page pte).Contained := by
  constructor
  · intro pid'
    rw [k.setPte_areas]
    exact hk.paged pid'
  · grind [k.setPte_areas, k.pte_setPte, hk.inside]
  · intro pid'
    obtain ⟨table, htable⟩ := k.setPte_process
    rw [htable]
    exact hk.attached pid'
  · exact hk.sized

/-- A step on a page stays inside the areas. -/
theorem PageStep.contained (h : PageStep kind k k') (hk : k.Contained) : k'.Contained := by
  have hprocess := h.process
  constructor
  · intro pid
    obtain ⟨table, htable⟩ := hprocess pid
    rw [htable]
    exact hk.paged pid
  · intro pid page hsome
    obtain ⟨table, htable⟩ := hprocess pid
    rw [htable]
    obtain ⟨pte, hpte⟩ := Option.isSome_iff_exists.mp hsome
    rcases h.pte_cases hpte with hold | ⟨-, area, hmem, hmeets, -⟩ | ⟨-, old, hold, -⟩
    · exact hk.inside pid page (by rw [hold]; rfl)
    · exact ⟨area, hmem, (((hk.paged pid).whole area hmem).meetsPage_iff).mp hmeets⟩
    · exact hk.inside pid page (by rw [hold]; rfl)
  · intro pid
    obtain ⟨table, htable⟩ := hprocess pid
    rw [htable]
    exact hk.attached pid
  · rw [(registry_fields h.registry).2.2.2.1]
    exact hk.sized

/-- Steps on pages stay inside the areas. -/
theorem PageSteps.contained (h : PageSteps kinds k k') (hk : k.Contained) : k'.Contained := by
  induction h with
  | refl => exact hk
  | tail _ hstep ih =>
    obtain ⟨kind, -, hstep⟩ := hstep
    exact hstep.contained ih

variable {edit : AreaMap → AreaMap}

/-- The areas are edited around the mapped pages. -/
theorem Kernel.Contained.editAreas (hk : k.Contained) (hpaged : (edit (k.process pid).areas).Paged)
    (hcovers : ∀ page, (k.pte pid page).isSome → (edit (k.process pid).areas).Covers (page * 4096))
    : (k.editAreas pid edit).Contained := by
  constructor
  · grind [k.editAreas_areas, k.editAreas_process_of_ne, hk.paged]
  · intro pid' page hsome
    rw [k.editAreas_pte] at hsome
    grind [k.editAreas_areas, k.editAreas_process_of_ne, hk.inside]
  · grind [k.editAreas_process_self, hk.attached, k.editAreas_process_of_ne]
  · exact hk.sized

variable {r : Except SyscallError Unit}

/-- An edit stays around the mapped pages. -/
theorem setAreas_contained (hrun : setAreas pid edit k = some (r, k')) (hk : k.Contained)
    (hpaged : (edit (k.process pid).areas).Paged)
    (hcovers : ∀ page, (k.pte pid page).isSome → (edit (k.process pid).areas).Covers (page * 4096))
    : k'.Contained := by
  obtain ⟨hprocess, hregistry⟩ := setAreas_fields hrun
  exact (hk.editAreas hpaged hcovers).of_process hprocess (registry_fields hregistry).2.2.2.1

/-! ## Well-formed states -/

/-- A state between two calls. -/
structure Kernel.WellFormed (k : Kernel φ) : Prop where
  consistent : k.Consistent ∅
  contained : k.Contained

/-- The calls of a process lead from well-formed states to well-formed states, in which the same
frames are owned or free. -/
def Balances (pid : ℕ) (k k' : Kernel φ) : Prop :=
  pid ∈ k.pids → k.WellFormed →
    pid ∈ k'.pids ∧ k'.WellFormed ∧ ∀ frame, k'.Tracks k'.live [] frame ↔ k.Tracks k.live [] frame

/-- The calls of a process lead from well-formed states to well-formed states, in which what was
owned is owned, and what is owned or free was so before. -/
def Acquires (pid : ℕ) (k k' : Kernel φ) : Prop :=
  pid ∈ k.pids → k.WellFormed →
    pid ∈ k'.pids ∧ k'.WellFormed ∧
      (∀ frame, k'.Tracks k'.live [] frame → k.Tracks k.live [] frame) ∧
      ∀ frame, (k.owners k.live frame).Nonempty → (k'.owners k'.live frame).Nonempty

variable {pid : ℕ}

instance : Std.Refl (Balances (φ := φ) pid) :=
  ⟨fun _ hpid hk => ⟨hpid, hk, fun _ => Iff.rfl⟩⟩

instance : IsTrans (Kernel φ) (Balances pid) :=
  ⟨by
    intro k k₁ k₂ h₁ h₂ hpid hk
    obtain ⟨hpid₁, hk₁, ht₁⟩ := h₁ hpid hk
    obtain ⟨hpid₂, hk₂, ht₂⟩ := h₂ hpid₁ hk₁
    exact ⟨hpid₂, hk₂, fun frame => (ht₂ frame).trans (ht₁ frame)⟩⟩

instance : Std.Refl (Acquires (φ := φ) pid) :=
  ⟨fun _ hpid hk => ⟨hpid, hk, fun _ h => h, fun _ h => h⟩⟩

instance : IsTrans (Kernel φ) (Acquires pid) :=
  ⟨by
    intro k k₁ k₂ h₁ h₂ hpid hk
    obtain ⟨hpid₁, hk₁, hsub₁, hown₁⟩ := h₁ hpid hk
    obtain ⟨hpid₂, hk₂, hsub₂, hown₂⟩ := h₂ hpid₁ hk₁
    exact ⟨hpid₂, hk₂, fun frame h => hsub₁ frame (hsub₂ frame h),
      fun frame h => hown₂ frame (hown₁ frame h)⟩⟩

/-- The books and the areas are enough. -/
theorem Conserves.balances (h : Conserves ∅ ∅ k k') (hpids : k'.pids = k.pids)
    (hcontained : k.Contained → k'.Contained) : Balances pid k k' := by
  intro hpid hk
  obtain ⟨hconsistent, htracks⟩ := h hk.consistent
  simp only [Set.union_empty] at htracks
  exact ⟨by rw [hpids]; exact hpid, ⟨hconsistent, hcontained hk.contained⟩, htracks⟩

/-- The books are enough for what is gained. -/
theorem Retains.acquires (h : Retains k k') (hpids : k'.pids = k.pids)
    (hcontained : k.Contained → k'.Contained) : Acquires pid k k' := by
  intro hpid hk
  obtain ⟨hconsistent, hsub, hown⟩ := h hk.consistent
  exact ⟨by rw [hpids]; exact hpid, ⟨hconsistent, hcontained hk.contained⟩, hsub, hown⟩

/-- Steps without a leak. -/
theorem PageSteps.balances (h : PageSteps kinds k k') (hkinds : .leak ∉ kinds) :
    Balances pid k k' :=
  (h.conserves hkinds).balances (registry_fields h.registry).1 h.contained

/-- Steps without a drop. -/
theorem PageSteps.acquires (h : PageSteps kinds k k') (hkinds : .drop ∉ kinds) :
    Acquires pid k k' :=
  (h.retains hkinds).acquires (registry_fields h.registry).1 h.contained

/-- An edit that brings no new object. -/
theorem setAreas_balances (hrun : setAreas pid edit k = some (r, k'))
    (hobjects : ∀ area ∈ (edit (k.process pid).areas).memoryAreas, ∀ object,
      area.object? = some object → object ∈ k.live)
    (hpaged : (k.process pid).areas.Paged → (edit (k.process pid).areas).Paged)
    (hcovers : ∀ page, (k.pte pid page).isSome → (k.process pid).areas.Covers (page * 4096) →
      (edit (k.process pid).areas).Covers (page * 4096)) : Balances pid k k' := by
  intro hpid hk
  have hconserves : Conserves ∅ ∅ k k' :=
    setAreas_conserves hrun hpid (fun area harea object hobject =>
      .inl (hobjects area harea object hobject)) (fun _ h => absurd h (Set.notMem_empty _))
  refine hconserves.balances (registry_fields (setAreas_fields hrun).2).1 ?_ hpid hk
  intro hc
  grind [setAreas_contained, hc.paged, hc.inside]

section Edit

variable (k : Kernel φ)
  (hsame : SameObjects (k.process pid).areas.memoryAreas (edit (k.process pid).areas).memoryAreas)
  (hpaged : (k.process pid).areas.Paged → (edit (k.process pid).areas).Paged)
  (hcovers : ∀ addr, (k.process pid).areas.Covers addr → (edit (k.process pid).areas).Covers addr)

include hsame hpaged hcovers

/-- An edit of the areas of the process that refers to the same objects and covers what was
covered. -/
theorem Kernel.editAreas_balances : Balances pid k (k.editAreas pid edit) := by
  intro hpid hk
  refine (k.editAreas_conserves hpid hsame).balances rfl ?_ hpid hk
  intro hc
  grind [hc.editAreas, hc.paged, hc.inside]

/-- An edit that keeps the objects. -/
theorem Kernel.editAreas_acquires : Acquires pid k (k.editAreas pid edit) := by
  intro hpid hk
  obtain ⟨hpid', hk', htracks⟩ := k.editAreas_balances hsame hpaged hcovers hpid hk
  refine ⟨hpid', hk', fun frame => (htracks frame).mp, fun frame hne => ?_⟩
  have howners : (k.editAreas pid edit).owners k.live = k.owners k.live :=
    owners_congr (k.editAreas_pte pid edit) rfl rfl rfl
  rw [k.live_editAreas_same hsame, howners]
  exact hne

end Edit

end Seele.Memory
