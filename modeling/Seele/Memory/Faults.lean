import Seele.Memory.Commands

/-!
# Page faults, lookups and permissions

A fault, a copy from or to user memory and `populate_mapping` look an area up and then map pages of
it. The lookup may let a stack grow by one page; it changes no object and uncovers nothing. What
follows is a sequence of steps in the area that was found, and none of them drops a reference, so
all of it acquires frames (`Acquires`). The exception is a write to a page that is copied on write:
that drops the reference to the old frame, and loses none (`Balances`). A change of permissions
changes the flags of entries and nothing that counts.
-/

namespace Seele.Memory

open Seele.Lib AreaMap MemoryArea Cmd

variable {φ : Type} {pid : ℕ}

/-! ## Lookups -/

variable {s : AreaMap}

/-- A lookup keeps the areas paged. -/
theorem AreaMap.Paged.getArea (h : s.Paged) (addr : ℕ) : (s.getArea addr).2.Paged := by
  constructor
  · rw [s.getArea_memoryAreas]
    exact h.whole
  · rw [s.getArea_userMem]
    exact h.cursor

variable {area : MemoryArea}

/-- An area meets the pages in it. -/
theorem MemoryArea.meetsPage_of_contains {addr : ℕ}
    (h : area.contains addr = true) : area.meetsPage (addr / 4096) := by
  rw [contains_iff] at h
  unfold meetsPage
  omega

/-- The area found meets the page. -/
theorem AreaMap.faultArea_found (h : s.Paged) {address : ℕ}
    (hfound : (s.faultArea address).1 = some area) :
    area ∈ (s.faultArea address).2.memoryAreas ∧ area.meetsPage (address / 4096) := by
  rcases s.faultArea_cases address with ⟨hareas, hsound⟩ | ⟨index, old, hget, hpage, hareas, hgrown⟩
  · grind [meetsPage_of_contains]
  -- A stack has grown: the area that is returned starts with the page.
  rw [hgrown] at hfound
  cases hfound
  have hproper := (h.whole old (List.mem_of_getElem? hget)).proper
  constructor
  · grind [List.mem_iff_getElem]
  · show address / 4096 * 4096 / 4096 ≤ address / 4096 ∧ address / 4096 * 4096 < old.end_
    omega

/-- What `get_area` does. -/
theorem getArea_run (pid addr : ℕ) (k : Kernel φ) :
    getArea pid addr k = some (.ok ((k.process pid).areas.getArea addr).1,
      k.editAreas pid fun s => (s.getArea addr).2) :=
  rfl

/-- A lookup takes no frames. -/
theorem Kernel.getArea_acquires (k : Kernel φ) (pid addr : ℕ) :
    Acquires pid k (k.editAreas pid fun s => (s.getArea addr).2) := by
  refine k.editAreas_acquires ?_ (fun h => h.getArea addr) (fun other h => ?_)
  · rw [getArea_memoryAreas]
    exact fun _ => .rfl
  · unfold AreaMap.Covers
    rw [getArea_memoryAreas]
    exact h

/-- The search for a fault takes none. -/
theorem Kernel.faultArea_acquires (k : Kernel φ) (address : ℕ) :
    Acquires pid k (k.editAreas pid fun s => (s.faultArea address).2) :=
  k.editAreas_acquires ((k.process pid).areas.faultArea_objects)
    (fun h => h.faultArea address) (fun _ h => h.faultArea address)

section Files

variable [FileLayer φ]

/-! ## Faults -/

variable {k k' : Kernel φ} {page clusterPages start : ℕ}

/-- A cluster maps pages of the area. -/
theorem applyPageCluster_found {r : Except SyscallError Unit}
    (hrun : applyPageCluster pid page area clusterPages k = some (r, k'))
    (hmem : area ∈ (k.process pid).areas.memoryAreas) (hmeets : area.meetsPage page) :
    PageSteps {.gain, .leak} k k' :=
  applyPageCluster_steps (by simp) (fun _ => by simp) hmeets k r k' hrun hmem

variable {address : ℕ} {code : PageFaultErrorCode}

variable {r : Except SyscallError (Option Signal)}

/-- A fault maps pages of its area. -/
theorem faultIn_steps (hrun : faultIn pid address code k = some (r, k'))
    (hpaged : (k.process pid).areas.Paged) :
    PageSteps {.gain, .leak} (k.editAreas pid fun s => (s.faultArea address).2) k' := by
  have hfound : ∀ area, ((k.process pid).areas.faultArea address).1 = some area →
      area ∈ ((k.editAreas pid fun s => (s.faultArea address).2).process pid).areas.memoryAreas ∧
        area.meetsPage (address / 4096) := by
    grind [k.editAreas_areas, faultArea_found]
  have hedit : (k.editAreas pid fun s => (s.faultArea address).2) = k.setProcess pid fun p =>
      { p with areas := ((k.process pid).areas.faultArea address).2 } := rfl
  generalize (k.editAreas pid fun s => (s.faultArea address).2) = k₁ at hfound hedit ⊢
  unfold faultIn at hrun
  rw [get_bind] at hrun
  generalize (k.process pid).areas.faultArea address = lookup at hrun hfound hedit
  obtain ⟨found, areas⟩ := lookup
  dsimp only at hrun hfound hedit
  rw [modify_bind, ← hedit] at hrun
  cases found with
  | none =>
    cases hrun
    exact .refl
  | some area =>
  obtain ⟨hmem, hmeets⟩ := hfound area rfl
  dsimp only at hrun
  split_ifs at hrun
  · obtain ⟨beyond, -, hrun⟩ := orPanic_bind_eq_some hrun
    split_ifs at hrun
    · cases hrun
      exact .refl
    rcases bind_eq_some.mp hrun with ⟨_, k₂, happly, hrun⟩ | ⟨e, happly, -⟩
    · cases hrun
      exact applyPageCluster_found happly hmem hmeets
    · exact applyPageCluster_found happly hmem hmeets
  · cases hrun
    exact .refl

/-- The handler copies a page, or maps some. -/
theorem pagefaultHandler_steps (hrun : pagefaultHandler pid address code k = some (r, k'))
    (hpaged : (k.process pid).areas.Paged) : PageSteps {.gain, .take, .drop} k k' ∨
      PageSteps {.gain, .leak} (k.editAreas pid fun s => (s.faultArea address).2) k' := by
  unfold pagefaultHandler at hrun
  rw [get_bind, ite_run, ite_run] at hrun
  split_ifs at hrun
  · have hcow : Always (PageSteps {.gain, .take, .drop})
        (replaceCowPage pid address : KernelM φ Unit) :=
      replaceCowPage_steps (by simp) (by simp) (by simp)
    exact .inl ((hcow.bind fun _ => .pure none) k r k' hrun)
  · cases hrun
    exact .inl .refl
  · exact .inr (faultIn_steps hrun hpaged)

variable {r : Except SyscallError Bool}

/-- A cluster is mapped, then there is an answer. -/
theorem applyPageCluster_answer
    {answer : Kernel φ → KernelM φ Bool} (hanswer : ∀ k, ∃ b, answer k = pure b) (hrun : (do
      applyPageCluster pid page area clusterPages
      let k ← get
      answer k) k = some (r, k'))
    (hmem : area ∈ (k.process pid).areas.memoryAreas) (hmeets : area.meetsPage page) :
    PageSteps {.gain, .leak} k k' := by
  rcases bind_eq_some.mp hrun with ⟨_, k₂, happly, hrun⟩ | ⟨e, happly, -⟩
  · rw [get_bind] at hrun
    obtain ⟨b, hb⟩ := hanswer k₂
    rw [hb] at hrun
    cases hrun
    exact applyPageCluster_found happly hmem hmeets
  · exact applyPageCluster_found happly hmem hmeets

variable {addr : ℕ}

omit [FileLayer φ] in
/-- An area is looked up, then used. -/
theorem getArea_bind_steps {f : Option MemoryArea → KernelM φ Bool}
    (hrun : (getArea pid addr >>= f) k = some (r, k')) (hnone : f none = pure false)
    (hsome : ∀ (area : MemoryArea) (k₁ : Kernel φ), area ∈ (k₁.process pid).areas.memoryAreas →
      area.meetsPage (addr / 4096) → f (some area) k₁ = some (r, k') →
      PageSteps {.gain, .leak} k₁ k') :
    PageSteps {.gain, .leak} (k.editAreas pid fun s => (s.getArea addr).2) k' := by
  rw [bind_of_ok (getArea_run pid addr k)] at hrun
  cases hlookup : ((k.process pid).areas.getArea addr).1 with
  | none =>
    rw [hlookup, hnone] at hrun
    cases hrun
    exact .refl
  | some area =>
    grind [getArea_sound, meetsPage_of_contains, k.editAreas_areas, getArea_memoryAreas]

variable {len : ℕ}

/-- What a check before reading does. -/
theorem ensureUserPageReadable_steps
    (hrun : ensureUserPageReadable pid addr len k = some (r, k')) :
    k' = k ∨ PageSteps {.gain, .leak} (k.editAreas pid fun s => (s.getArea addr).2) k' := by
  obtain ⟨range, -, hrun⟩ := orPanic_bind_eq_some hrun
  cases range with
  | none => exact .inl (pure_eq_some.mp hrun).2
  | some range =>
  refine .inr (getArea_bind_steps hrun rfl fun area k₁ hmem hmeets hrun => ?_)
  dsimp only at hrun
  by_cases hreadable : (area.isUser && area.protection.read) = true
  · rw [if_pos hreadable, get_bind] at hrun
    cases hpte : k₁.pte pid (addr / 4096) with
    | some pte =>
      rw [hpte] at hrun
      cases hrun
      exact .refl
    | none =>
    rw [hpte] at hrun
    split_ifs at hrun with hlazy
    · refine applyPageCluster_answer (fun k => ?_) hrun hmem hmeets
      cases k.pte pid (addr / 4096) <;> exact ⟨_, rfl⟩
    · cases hrun
      exact .refl
  · rw [if_neg hreadable] at hrun
    cases hrun
    exact .refl

/-- The check of a page that is to be written: a copy on write, or a lookup and the pages of the
area, or nothing. -/
theorem ensureUserPageWritable_steps
    (hrun : ensureUserPageWritable pid addr len k = some (r, k')) :
    PageSteps {.gain, .take, .drop} k k' ∨
      PageSteps {.gain, .leak} (k.editAreas pid fun s => (s.getArea addr).2) k' := by
  obtain ⟨range, -, hrun⟩ := orPanic_bind_eq_some hrun
  cases range with
  | none =>
    cases hrun
    exact .inl .refl
  | some range =>
  dsimp only at hrun
  rw [get_bind] at hrun
  cases hpte : k.pte pid (addr / 4096) with
  | some pte =>
    left
    rw [hpte] at hrun
    dsimp only at hrun
    have hcow : Always (PageSteps {.gain, .take, .drop})
        (replaceCowPage pid addr : KernelM φ Unit) :=
      replaceCowPage_steps (by simp) (by simp) (by simp)
    split_ifs at hrun
    · exact (hcow.bind fun _ => .pure true) k r k' hrun
    · cases hrun
      exact .refl
    · cases hrun
      exact .refl
  | none =>
  rw [hpte] at hrun
  refine .inr (getArea_bind_steps hrun rfl fun area k₁ hmem hmeets hrun => ?_)
  dsimp only at hrun
  split_ifs at hrun with hlazy
  · refine applyPageCluster_answer (fun k => ?_) hrun hmem hmeets
    cases k.pte pid (addr / 4096) <;> exact ⟨_, rfl⟩
  · cases hrun
    exact .refl

/-! ## What they do to the frames -/

omit [FileLayer φ] in
/-- First a lookup, then pages. -/
theorem Acquires.lookup {k₁ : Kernel φ} (hlookup : Acquires pid k k₁)
    (hsteps : k.WellFormed → PageSteps {.gain, .leak} k₁ k') : Acquires pid k k' := by
  intro hpid hk
  have hloads : Acquires pid k₁ k' := (hsteps hk).acquires (by simp)
  exact trans_of (Acquires pid) hlookup hloads hpid hk

/-- The handler balances, or acquires. -/
theorem pagefaultHandler_accounts {r : Except SyscallError (Option Signal)} (hk : k.WellFormed)
    (hrun : pagefaultHandler pid address code k = some (r, k')) :
    Balances pid k k' ∨ Acquires pid k k' := by
  rcases pagefaultHandler_steps hrun (hk.contained.paged pid) with hsteps | hsteps
  · exact .inl (hsteps.balances (by simp))
  · exact .inr ((k.faultArea_acquires address).lookup fun _ => hsteps)

/-- A check before reading acquires. -/
theorem ensureUserPageReadable_acquires
    (hrun : ensureUserPageReadable pid addr len k = some (r, k')) : Acquires pid k k' := by
  rcases ensureUserPageReadable_steps hrun with rfl | hsteps
  · exact refl _
  · exact (k.getArea_acquires pid addr).lookup fun _ => hsteps

/-- A check before writing balances, or acquires. -/
theorem ensureUserPageWritable_accounts
    (hrun : ensureUserPageWritable pid addr len k = some (r, k')) :
    Balances pid k k' ∨ Acquires pid k k' := by
  rcases ensureUserPageWritable_steps hrun with hsteps | hsteps
  · exact .inl (hsteps.balances (by simp))
  · exact .inr ((k.getArea_acquires pid addr).lookup fun _ => hsteps)

/-- Populating a mapping acquires. -/
theorem populateMapping_acquires (pages : ℕ) :
    Always (Acquires pid) (populateMapping pid start pages : KernelM φ Unit) := by
  refine .each fun i _ => ?_
  refine (Always.orPanic _).bind fun address => ?_
  intro k r k' hrun hpid hk
  rw [bind_of_ok (getArea_run pid address k)] at hrun
  have hlookup := k.getArea_acquires pid address
  cases hfound : ((k.process pid).areas.getArea address).1 with
  | none =>
    rw [hfound] at hrun
    cases hrun
    exact hlookup hpid hk
  | some area =>
  rw [hfound] at hrun
  obtain ⟨hmem, hcontains⟩ := getArea_sound hfound
  refine hlookup.lookup (fun _ => ?_) hpid hk
  refine applyPageCluster_found hrun ?_ (meetsPage_of_contains hcontains)
  rw [k.editAreas_areas, getArea_memoryAreas]
  exact hmem

/-! ## Permissions -/

omit [FileLayer φ] in
/-- `update_flags` keeps the balance. -/
theorem updateFlags_balances {owner : ℕ} (page : ℕ) {flags : PageTableFlags} :
    Always (Balances pid) (updateFlags owner page flags : KernelM φ Unit) := by
  intro k r k' hrun hpid hk
  rw [updateFlags_run] at hrun
  cases hrun
  cases hpte : k.pte owner page with
  | none => exact ⟨hpid, hk, fun _ => .rfl⟩
  | some pte =>
  have hlive : (k.setPte owner page (some ⟨pte.frame, flags⟩)).live = k.live := by
    unfold Kernel.live
    simp only [Kernel.setPte_areas]
  have howners := k.owners_reflag k.live hpte flags
  have hkeeps : k.Keeps k.live [] (k.setPte owner page (some ⟨pte.frame, flags⟩)) k.live [] :=
    .of_eq howners rfl rfl
  have hbooks := hk.consistent.books
  rw [Set.union_empty] at hbooks
  obtain ⟨hbooks', htracks⟩ := hkeeps hbooks
  refine ⟨hpid, ⟨hk.consistent.of_registry rfl ?_ ?_ ?_, ?_⟩, ?_⟩
  · rw [hlive]
  · intro pid' hpid'
    have habsent := hk.consistent.absent pid' hpid'
    refine habsent.setPte (fun heq => ?_) page _
    have hnone := habsent.2 page
    rw [heq, hpte] at hnone
    exact absurd hnone (by simp)
  · rw [hlive, Set.union_empty]
    exact hbooks'
  · grind [hk.contained.setPte, hk.contained.inside]
  · rw [hlive]
    exact htracks

omit [FileLayer φ] in
/-- `update_permissions` keeps the balance. -/
theorem updatePermissions_balances {end_ : ℕ} (hstart : start % 4096 = 0)
    (hend : end_ % 4096 = 0) {protection : Protection} :
    Always (Balances pid) (updatePermissions pid start end_ protection : KernelM φ Unit) := by
  unfold updatePermissions
  split_ifs with hlt
  · refine .bind (.modify fun k => ?_) fun _ => ?_
    · have hedit : Balances pid k
          (k.editAreas pid fun s => s.updatePermissions start end_ protection) :=
        k.editAreas_balances (updatePermissions_objects _ start end_)
          (fun h => h.updatePermissions hstart hend protection)
          (fun _ h => h.updatePermissions start end_ protection)
      exact hedit
    · exact .each fun page _ => updateFlags_balances page
  · exact .pure ()

end Files

end Seele.Memory
