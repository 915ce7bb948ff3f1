import Seele.Memory.SegmentFrames

/-!
# Fork and exit

A fork makes a process with the areas of its parent, and then gives every page of the parent's areas
a second owner in the child; whether the page becomes copy on write makes no difference to the
counts. The invariant of the loop is that the state is well formed with the areas of the child as
they are (`ClonesInto`).

The end of a process detaches its segments and unmaps the pages of its areas. Every mapped page lies
in an area of whole pages in user memory, so nothing is left in the page table that goes with the
process.
-/

namespace Seele.Memory

open Seele.Lib Kernel Function MemoryArea Cmd List

variable {φ : Type} {pid : ℕ} {live : Set SharedFrames} {pending : List ℕ}

/-! ## Fork -/

/-- The flags of a page in both processes after a fork. -/
def cloneFlags (area : MemoryArea) (shareVm : Bool) (flags : PageTableFlags) : PageTableFlags :=
  if flags.writable && !area.data.isSharedMapping && !shareVm then asCowFlags flags else flags

/-- The kernel after a page of the parent has been shared with the child. -/
def Kernel.sharePage (k : Kernel φ) (parent child page : ℕ) (pte : Pte) (flags : PageTableFlags) :
    Kernel φ :=
  ((k.setPte parent page (some ⟨pte.frame, flags⟩)).setPte child page
    (some ⟨pte.frame, flags⟩)).setRef pte.frame
      (some ((k.frameRefCount pte.frame).getD 0 +
        if (k.frameRefCount pte.frame).isSome then 1 else 2))

variable {page : ℕ}

/-- The entry is as it was. -/
theorem Kernel.setPte_eq_self (k : Kernel φ) {pid : ℕ} {pte : Option Pte} (h : k.pte pid page = pte)
    : k.setPte pid page pte = k := by
  unfold setPte setProcess
  have htable : update (k.process pid).pageTable page pte = (k.process pid).pageTable := by
    rw [← h]
    exact update_eq_self ..
  simp [htable]

variable {parent child : ℕ} {k k' : Kernel φ} {r : Except SyscallError Unit} {area : MemoryArea}

variable {shareVm : Bool}

/-- The copy of one page: nothing, if the page is not mapped or not a page of user memory; and else
both processes have the page with the same frame and the same flags. -/
theorem clonePage_cases (hrun : clonePage parent child area shareVm page k = some (r, k')) :
    ((k.pte parent page = none ∨ 0xffff900000000000 ≤ page * 4096) ∧ k' = k) ∨
      ∃ pte, k.pte parent page = some pte ∧ k.pte child page = none ∧ parent ≠ child ∧
        k' = k.sharePage parent child page pte (cloneFlags area shareVm pte.flags) := by
  unfold clonePage at hrun
  rw [get_bind] at hrun
  cases hpte : k.pte parent page with
  | none =>
    rw [hpte] at hrun
    exact .inl ⟨.inl rfl, (pure_eq_some.mp hrun).2⟩
  | some pte =>
  rw [hpte] at hrun
  dsimp only at hrun
  by_cases huser : page * 4096 < 0xffff900000000000
  · right
    rw [if_pos huser] at hrun
    refine ⟨pte, rfl, ?_⟩
    -- The entry of the parent is rewritten first, if the page becomes copy on write.
    have hstart : ∃ flags, flags = cloneFlags area shareVm pte.flags ∧
        (mapTo child page pte.frame flags >>= fun _ => increaseRefBy pte.frame
          (if (k.frameRefCount pte.frame).isSome then 1 else 2))
          (k.setPte parent page (some ⟨pte.frame, flags⟩)) = some (r, k') := by
      refine ⟨_, rfl, ?_⟩
      unfold cloneFlags
      by_cases hcow : (pte.flags.writable && !area.data.isSharedMapping && !shareVm) = true
      · rw [if_pos hcow, if_pos hcow, bind_of_ok (updateFlags_run parent page _ k), hpte] at hrun
        rw [if_pos hcow]
        exact hrun
      · rw [if_neg hcow, if_neg hcow] at hrun
        rw [if_neg hcow, k.setPte_eq_self hpte]
        exact hrun
    obtain ⟨flags, rfl, hrun⟩ := hstart
    rcases bind_eq_some.mp hrun with ⟨_, k₁, hmap, hrun⟩ | ⟨e, hmap, -⟩
    · obtain ⟨hnone, -, rfl⟩ := mapTo_eq_some hmap
      cases hrun
      have hne : parent ≠ child := by grind [k.pte_setPte_self]
      rw [k.pte_setPte, if_neg fun h => hne h.1.symm] at hnone
      exact ⟨hnone, hne, rfl⟩
    · exact absurd (mapTo_eq_some hmap).2.1 (by simp)
  · rw [if_neg huser] at hrun
    exact .inl ⟨.inr (Nat.le_of_not_lt huser), (pure_eq_some.mp hrun).2⟩

/-- A frame is shared with the child. -/
theorem Kernel.keeps_share (k : Kernel φ) {pte : Pte} (hparent : k.pte parent page = some pte)
    (hchild : k.pte child page = none) {flags : PageTableFlags} :
    k.Keeps live pending ((k.setPte child page (some ⟨pte.frame, flags⟩)).setRef pte.frame
      (some ((k.frameRefCount pte.frame).getD 0 +
        if (k.frameRefCount pte.frame).isSome then 1 else 2))) live pending := by
  intro hb
  let k' := (k.setPte child page (some ⟨pte.frame, flags⟩)).setRef pte.frame
    (some ((k.frameRefCount pte.frame).getD 0 +
      if (k.frameRefCount pte.frame).isSome then 1 else 2))
  have howners : k'.owners live = update (k.owners live) pte.frame
      (insert (.mapping child page) (k.owners live pte.frame)) :=
    k.owners_map live hchild ⟨pte.frame, flags⟩
  have hmem : .mapping parent page ∈ k.owners live pte.frame := mapping_mem_owners hparent
  have hnew : .mapping child page ∉ k.owners live pte.frame := mapping_notMem_owners hchild
  have htracked : (k'.owners live pte.frame).Nonempty := by simp [howners]
  constructor
  · unfold Books
    rw [howners]
    exact .share hb hmem id hnew id
  · refine Tracked.change (.inl ⟨_, hmem⟩) (.inl htracked) (fun s hs => ?_) (fun _ _ => Iff.rfl)
      (fun _ _ => .rfl)
    rw [howners, update_of_ne hs]

/-- Sharing a page keeps the balance. -/
theorem Kernel.share_balances {pte : Pte} (hparent : k.pte parent page = some pte)
    (hchild : k.pte child page = none) (hcovers : (k.process child).areas.Covers (page * 4096))
    (flags : PageTableFlags) :
    Balances child k ((k.setPte child page (some ⟨pte.frame, flags⟩)).setRef pte.frame
      (some ((k.frameRefCount pte.frame).getD 0 +
        if (k.frameRefCount pte.frame).isSome then 1 else 2))) := by
  intro hpid hk
  obtain ⟨hbooks, htracks⟩ := k.keeps_share hparent hchild hk.books
  generalize hcount : (some ((k.frameRefCount pte.frame).getD 0 +
    if (k.frameRefCount pte.frame).isSome then 1 else 2)) = count at hbooks htracks ⊢
  have hlive : ((k.setPte child page (some ⟨pte.frame, flags⟩)).setRef pte.frame count).live =
      k.live := by
    simp [setRef, live]
  have hcontained : (k.setPte child page (some ⟨pte.frame, flags⟩)).Contained :=
    hk.contained.setPte hcovers
  refine ⟨hpid, ⟨hk.consistent.of_registry rfl ?_ ?_ ?_, hcontained.of_process rfl rfl⟩, ?_⟩
  · rw [hlive]
  · intro pid' hpid'
    exact (hk.consistent.absent pid' hpid').setPte (fun heq => hpid' (heq ▸ hpid)) page _
  · rw [hlive, Set.union_empty]
    exact hbooks
  · rw [hlive]
    exact htracks

/-- The areas of the child stay as they are, and the state well formed. -/
def ClonesInto (child : ℕ) (areas : List MemoryArea) (k k' : Kernel φ) : Prop :=
  (k.process child).areas.memoryAreas = areas →
    (k'.process child).areas.memoryAreas = areas ∧ Balances child k k'

instance (child : ℕ) (areas : List MemoryArea) : Std.Refl (ClonesInto (φ := φ) child areas) :=
  ⟨fun _ h => ⟨h, refl _⟩⟩

instance (child : ℕ) (areas : List MemoryArea) : IsTrans (Kernel φ) (ClonesInto child areas) :=
  ⟨by
    intro k k₁ k₂ h₁ h₂ hareas
    obtain ⟨hareas₁, hb₁⟩ := h₁ hareas
    obtain ⟨hareas₂, hb₂⟩ := h₂ hareas₁
    exact ⟨hareas₂, trans_of (Balances child) hb₁ hb₂⟩⟩

variable {areas : List MemoryArea}

/-- One page is cloned. -/
theorem clonePage_clonesInto (hmem : area ∈ areas)
    (hwhole : area.WholePages) (hpage : page ∈ pagesInclusive area.start (area.end_ - 1))
    (shareVm : Bool) : Always (ClonesInto child areas)
      (clonePage parent child area shareVm page : KernelM φ Unit) := by
  intro k r k' hrun hareas
  rcases clonePage_cases hrun with ⟨-, rfl⟩ | ⟨pte, hparent, hchild, hne, rfl⟩
  · exact ⟨hareas, refl _⟩
  generalize cloneFlags area shareVm pte.flags = flags
  have hsame : ∀ pid', ((k.setPte parent page (some ⟨pte.frame, flags⟩)).process pid').areas =
      (k.process pid').areas := fun pid' => k.setPte_areas parent page pid' _
  have hreflag : Balances child k (k.setPte parent page (some ⟨pte.frame, flags⟩)) := by
    have hrun := updateFlags_run parent page flags k
    rw [hparent] at hrun
    exact updateFlags_balances page k _ _ hrun
  have hcovers : ((k.setPte parent page (some ⟨pte.frame, flags⟩)).process child).areas.Covers
      (page * 4096) := by
    rw [hsame]
    refine ⟨area, by rw [hareas]; exact hmem, hwhole.meetsPage_iff.mp ?_⟩
    rw [mem_pagesInclusive] at hpage
    obtain ⟨hstart, hend, hproper, -⟩ := hwhole
    unfold meetsPage
    omega
  have hshare := share_balances
    (k.pte_setPte_self parent page _)
    (by rw [k.pte_setPte, if_neg fun h => hne h.1.symm]; exact hchild) hcovers flags
  refine ⟨?_, trans_of (Balances child) hreflag hshare⟩
  unfold sharePage setRef
  rw [setPte_areas, hsame]
  exact hareas

/-- The kernel with a new process that has the areas and the records of its parent, and no pages. -/
def Kernel.addChild (k : Kernel φ) (parent child : ℕ) : Kernel φ :=
  { k.setProcess child (fun _ =>
      { k.process parent with
        areas := { (k.process parent).areas with lastAreaIndex := none }
        pageTable := fun _ => none }) with
    pids := child :: k.pids }

variable (k)

/-- The child's process. -/
theorem Kernel.addChild_process_child : (k.addChild parent child).process child =
      { k.process parent with
        areas := { (k.process parent).areas with lastAreaIndex := none }
        pageTable := fun _ => none } :=
  update_self ..

/-- The other processes stay. -/
theorem Kernel.addChild_process_of_ne {pid : ℕ} (hne : pid ≠ child) :
    (k.addChild parent child).process pid = k.process pid :=
  update_of_ne hne ..

/-- A new child keeps the balance. -/
theorem Kernel.addChild_balances (hchild : child ∉ k.pids) :
    Balances parent k (k.addChild parent child) := by
  intro hpid hk
  have habsent := hk.consistent.absent child hchild
  have hpte : (k.addChild parent child).pte = k.pte := by
    funext pid page
    unfold pte
    by_cases hne : pid = child
    · subst hne
      rw [k.addChild_process_child]
      exact (habsent.2 page).symm
    · rw [k.addChild_process_of_ne hne]
  have hlive : (k.addChild parent child).live = k.live := by
    ext object
    rw [mem_live, mem_live]
    constructor
    · grind [k.addChild_process_child, k.addChild_process_of_ne]
    rintro ⟨pid, area, hmem, hobject⟩
    have hne : pid ≠ child := by
      rintro rfl
      rw [habsent.1] at hmem
      exact absurd hmem not_mem_nil
    exact ⟨pid, area, by rw [k.addChild_process_of_ne hne]; exact hmem, hobject⟩
  have hkeeps : k.Keeps k.live [] (k.addChild parent child) k.live [] :=
    .of_eq (owners_congr hpte rfl rfl rfl) rfl rfl
  obtain ⟨hbooks, htracks⟩ := hkeeps hk.books
  refine ⟨mem_cons_of_mem child hpid, ⟨⟨?_, ?_, ?_, hk.consistent.segments,
    hk.consistent.buffers⟩, ⟨?_, ?_, ?_, hk.contained.sized⟩⟩, ?_⟩
  · rw [hlive, Set.union_empty]
    exact hbooks
  · intro pid hnot
    have hne : pid ≠ child := fun heq => hnot (heq ▸ mem_cons_self)
    have hold := hk.consistent.absent pid fun hmem => hnot (mem_cons_of_mem child hmem)
    unfold Absent pte at hold ⊢
    rw [k.addChild_process_of_ne hne]
    exact hold
  · rw [hlive]
    exact hk.consistent.fresh
  · intro pid
    by_cases hne : pid = child
    · subst hne
      rw [k.addChild_process_child]
      exact ⟨(hk.contained.paged parent).whole, (hk.contained.paged parent).cursor⟩
    · rw [k.addChild_process_of_ne hne]
      exact hk.contained.paged pid
  · intro pid page hsome
    rw [hpte] at hsome
    have hne : pid ≠ child := by
      rintro rfl
      rw [habsent.2] at hsome
      exact absurd hsome (by simp)
    grind [k.addChild_process_of_ne, hk.contained.inside]
  · grind [k.addChild_process_child, hk.contained.attached, k.addChild_process_of_ne]
  · rw [hlive]
    exact htracks

variable {k}

/-- What cloning the pages does. -/
theorem cloneWithVmSharing_steps (hpaged : (k.process parent).areas.Paged)
    (hrun : cloneWithVmSharing parent child shareVm k = some (r, k')) :
    Balances child (k.addChild parent child) k' := by
  have hloop : Always (ClonesInto child (k.process parent).areas.memoryAreas)
      (each (fun area => each (clonePage parent child area shareVm)
        (pagesInclusive area.start (area.end_ - 1)))
        ((k.process parent).areas.memoryAreas.filter fun area => decide (area.pages ≠ 0)) :
        KernelM φ Unit) := by
    grind [Always.each, clonePage_clonesInto, hpaged.whole]
  refine (hloop (k.addChild parent child) r k' hrun ?_).2
  rw [k.addChild_process_child]

/-- `fork` keeps the frames tracked. -/
theorem fork_accounts {r : Except SyscallError ℕ} (hpid : parent ∈ k.pids)
    (hk : k.WellFormed) (hrun : fork parent shareVm k = some (r, k')) :
    k'.WellFormed ∧ ∀ frame, k'.Tracks k'.live [] frame ↔ k.Tracks k.live [] frame := by
  unfold fork at hrun
  rw [get_bind] at hrun
  obtain ⟨-, hk₁, htracks₁⟩ := k.addChild_balances k.freshPid_notMem hpid hk
  have hpid₁ : k.freshPid ∈ (k.addChild parent k.freshPid).pids := mem_cons_self
  have hpaged := hk.contained.paged parent
  have hclone : ∀ {r' : Except SyscallError Unit} {t : Kernel φ},
      cloneWithVmSharing parent k.freshPid shareVm k = some (r', t) →
        k.freshPid ∈ t.pids ∧ t.WellFormed ∧
          ∀ frame, t.Tracks t.live [] frame ↔ k.Tracks k.live [] frame := by
    intro r' t hrun'
    obtain ⟨hpid₂, hk₂, htracks₂⟩ := cloneWithVmSharing_steps hpaged hrun' hpid₁ hk₁
    grind
  rcases bind_eq_some.mp hrun with ⟨_, k₂, hrun₂, hrun⟩ | ⟨e, hrun₂, -⟩
  · obtain ⟨hpid₂, hk₂, htracks₂⟩ := hclone hrun₂
    have hinherit : Always (Balances k.freshPid) (do
        inheritForkedMappings (k.process parent).sysvShmMappings
        return k.freshPid : KernelM φ ℕ) := by
      refine .bind (.each fun mapping _ => ?_) fun _ => .pure _
      exact .modify fun k => k.setAttachCount_balances
    obtain ⟨-, hk', htracks'⟩ := hinherit k₂ r k' hrun hpid₂ hk₂
    grind
  · exact (hclone hrun₂).2

/-! ## Exit -/

section Files

variable [FileLayer φ]

/-- The pages that the end of a process releases for an area. -/
def MemoryArea.releasedPages (area : MemoryArea) : List ℕ :=
  List.range' (area.start / 4096) (area.end_ / 4096 - area.start / 4096)

/-- The pages of an area are released. -/
theorem MemoryArea.mem_releasedPages (h : area.WholePages)
    (hcontains : area.contains (page * 4096) = true) : page ∈ area.releasedPages := by
  obtain ⟨hstart, hend, -, -⟩ := h
  grind [contains_iff, releasedPages]

/-- What releasing one area does. -/
theorem releaseArea_run : ∀ {r : Except SyscallError Unit} {k' : Kernel φ}, (do
        let _ ← (writeBackAreaRange pid area area.start area.end_).attempt
        each (unmapAndRelease pid) area.releasedPages : KernelM φ Unit) k = some (r, k') →
      r = .ok () ∧ PageSteps {.gain, .drop} k k' ∧
        ∀ page, (k'.pte pid page).isSome → (k.pte pid page).isSome ∧ page ∉ area.releasedPages := by
  intro r k' hrun
  rcases bind_eq_some.mp hrun with ⟨out, k₁, hattempt, hrun⟩ | ⟨e, hattempt, -⟩
  · have hfiles : OnlyFiles k k₁ :=
      (writeBackAreaRange_onlyFiles).attempt k _ k₁ hattempt
    rw [eachUnmap_run] at hrun
    cases hrun
    have hsteps := releasePages_steps pid area.releasedPages k₁
    refine ⟨rfl, (hfiles.steps (by simp)).trans (hsteps.mono (by simp)), fun page hsome => ?_⟩
    rw [k₁.pte_releasePages] at hsome
    obtain ⟨files, rfl⟩ := hfiles
    split_ifs at hsome with hreleased
    · exact absurd hsome (by simp)
    · exact ⟨hsome, fun hmem => hreleased ⟨rfl, hmem⟩⟩
  · exact absurd hattempt (NeverFails.attempt _ k e k')

/-- What releasing all areas does. -/
theorem releaseAreas_run :
    ∀ (k : Kernel φ) {r : Except SyscallError Unit} {k' : Kernel φ}, (each (fun area => do
        let _ ← (writeBackAreaRange pid area area.start area.end_).attempt
        each (unmapAndRelease pid) area.releasedPages) areas : KernelM φ Unit) k = some (r, k') →
      r = .ok () ∧ PageSteps {.gain, .drop} k k' ∧ ∀ page, (k'.pte pid page).isSome →
          (k.pte pid page).isSome ∧ ∀ area ∈ areas, page ∉ area.releasedPages := by
  induction areas with
  | nil =>
    intro k r k' hrun
    cases hrun
    grind
  | cons area areas ih =>
  intro k r k' hrun
  rcases bind_eq_some.mp hrun with ⟨_, k₁, hrun₁, hrun⟩ | ⟨e, hrun₁, -⟩
  · obtain ⟨-, hsteps₁, hpages₁⟩ := releaseArea_run hrun₁
    obtain ⟨hr, hsteps, hpages⟩ := ih k₁ hrun
    refine ⟨hr, hsteps₁.trans hsteps, fun page hsome => ?_⟩
    grind
  · exact absurd (releaseArea_run hrun₁).1 (by simp)

/-- The address space is empty then. -/
theorem releaseUserMappings_balances (hk : k.WellFormed)
    (hrun : releaseUserMappings pid k = some (r, k')) :
    Balances pid k k' ∧ (k'.process pid).areas = AreaMap.default ∧
      ∀ page, k'.pte pid page = none := by
  unfold releaseUserMappings at hrun
  rw [get_bind] at hrun
  rcases bind_eq_some.mp hrun with ⟨_, k₁, hloop, hset⟩ | ⟨e, hloop, -⟩
  · obtain ⟨-, hsteps, hpages⟩ := releaseAreas_run k hloop
    -- A page that is still mapped would lie in an area, and all of them have been released.
    have hnone : ∀ page, k₁.pte pid page = none := by
      intro page
      by_contra hne
      have hsome : (k₁.pte pid page).isSome := Option.isSome_iff_ne_none.mpr hne
      obtain ⟨hsome₀, hreleased⟩ := hpages page hsome
      obtain ⟨area, hmem, hcontains⟩ := hk.contained.inside pid page hsome₀
      have hwhole := (hk.contained.paged pid).whole area hmem
      have huser : area.isUser = true := by
        unfold isUser
        have hlt : area.start < userMemEnd := Nat.lt_of_lt_of_le hwhole.proper hwhole.user
        simp [hlt, hwhole.user]
      exact hreleased area (mem_filter.mpr ⟨hmem, huser⟩) (mem_releasedPages hwhole hcontains)
    have hcut : Balances pid k₁ k' := by
      refine setAreas_balances hset ?_ (fun _ => .default) ?_
      · exact fun area harea => absurd harea not_mem_nil
      · grind
    obtain ⟨hprocess, -⟩ := setAreas_fields hset
    refine ⟨trans_of (Balances pid) (hsteps.balances (by simp)) hcut, ?_, fun page => ?_⟩
    · rw [hprocess, k₁.editAreas_areas]
    · unfold pte
      rw [hprocess, k₁.editAreas_process_self]
      exact hnone page
  · exact absurd (releaseAreas_run k hloop).1 (by simp)

omit [FileLayer φ] in
/-- An empty process is removed. -/
theorem Kernel.removeProcess_accounts (hk : k.WellFormed)
    (hareas : (k.process pid).areas = AreaMap.default) (hpages : ∀ page, k.pte pid page = none) :
    let k' : Kernel φ := { k with
      pids := k.pids.filter fun other => decide (other ≠ pid)
      process := update k.process pid Process.default }
    k'.WellFormed ∧ ∀ frame, k'.Tracks k'.live [] frame ↔ k.Tracks k.live [] frame := by
  intro k'
  have hself : k'.process pid = Process.default := update_self ..
  have hother : ∀ other, other ≠ pid → k'.process other = k.process other :=
    fun other hne => update_of_ne hne ..
  have hsameAreas : ∀ other, (k'.process other).areas = (k.process other).areas := by
    intro other
    by_cases hne : other = pid
    · rw [hne, hself, hareas]
      rfl
    · rw [hother other hne]
  have hpte : k'.pte = k.pte := by
    funext other page
    by_cases hne : other = pid
    · subst hne
      rw [hpages page]
      unfold pte
      rw [hself]
      rfl
    · unfold pte
      rw [hother other hne]
  have hlive : k'.live = k.live := by
    unfold live
    simp only [hsameAreas]
  have hkeeps : k.Keeps k.live [] k' k.live [] :=
    .of_eq (owners_congr hpte rfl rfl rfl) rfl rfl
  obtain ⟨hbooks, htracks⟩ := hkeeps hk.books
  refine ⟨⟨⟨?_, ?_, ?_, hk.consistent.segments, hk.consistent.buffers⟩, ⟨?_, ?_, ?_,
    hk.contained.sized⟩⟩, ?_⟩
  · rw [hlive, Set.union_empty]
    exact hbooks
  · intro other hnot
    unfold Absent
    rw [hsameAreas, hpte]
    by_cases hne : other = pid
    · rw [hne, hareas]
      exact ⟨rfl, hpages⟩
    · refine hk.consistent.absent other fun hmem => hnot ?_
      exact mem_filter.mpr ⟨hmem, decide_eq_true hne⟩
  · rw [hlive]
    exact hk.consistent.fresh
  · grind [hk.contained.paged]
  · intro other page hsome
    rw [hpte] at hsome
    grind [hk.contained.inside]
  · intro other mapping hmem
    by_cases hne : other = pid
    · rw [hne, hself] at hmem
      exact absurd hmem not_mem_nil
    · grind [hk.contained.attached]
  · rw [hlive]
    exact htracks

/-- `exit` keeps the frames tracked. -/
theorem exit_accounts (hpid : pid ∈ k.pids) (hk : k.WellFormed) (hrun : exit pid k = some (r, k')) :
    k'.WellFormed ∧ ∀ frame, k'.Tracks k'.live [] frame ↔ k.Tracks k.live [] frame := by
  rcases bind_eq_some.mp hrun with ⟨_, k₁, hdetach, hrun⟩ | ⟨e, hdetach, -⟩
  · obtain ⟨hpid₁, hk₁, htracks₁⟩ := detachAllProcessMappings_balances hk hdetach hpid hk
    rcases bind_eq_some.mp hrun with ⟨_, k₂, hrelease, hrun⟩ | ⟨e, hrelease, -⟩
    · obtain ⟨hbalances, hareas, hpages⟩ := releaseUserMappings_balances hk₁ hrelease
      obtain ⟨-, hk₂, htracks₂⟩ := hbalances hpid₁ hk₁
      grind [modify_eq_some.mp, removeProcess_accounts]
    · obtain ⟨hbalances, -, -⟩ := releaseUserMappings_balances hk₁ hrelease
      obtain ⟨-, hk₂, htracks₂⟩ := hbalances hpid₁ hk₁
      grind
  · exact (detachAllProcessMappings_balances hk hdetach hpid hk).2

end Files

end Seele.Memory
