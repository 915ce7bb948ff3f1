import Seele.Lib.GuardedRun
import Seele.Memory.Lifecycle

/-!
# Frames go back when their last owner goes

The operations that create or drop references to frames, in any order and by any processes, starting
from a machine on which nothing is mapped. A frame is owned by a page that maps it, by an object
with shared frames, by a SysV segment, by a dumb buffer, or by an entry of the shared file cache.
An operation should hand a frame to the allocator exactly if the frame had an owner before and has
none afterwards (`HandsBack`).

The kernel does so on every run without mappings of dumb buffers whose mappings stay inside user
memory (`run_hands_back`). It fails with a mapping of a dumb buffer: the buffer does not count its
frames, so that they go back to the allocator with the mapping while the buffer still has them.
-/

namespace Seele.Memory

open Seele.Lib Kernel Cmd

variable {φ : Type}

/-! ## Operations -/

/-- Where the pages of a mapping come from. -/
inductive MapSource where
  | anonymous (shared : Bool)
  | file (offset fileBytes : ℕ) (zeroFill : Bool) (file : FileLikeObject) (shared : Bool)

/-- The data of the area of a mapping. -/
def MapSource.data (source : MapSource) (pages : ℕ) (protection : Protection) : KernelM φ Data :=
  match source with
  | .anonymous shared => anonymousMappingData pages shared protection
  | .file offset fileBytes zeroFill object shared =>
    pure (.file offset fileBytes zeroFill object shared)

/-- The operations of a process on memory. The ranges of a mapping, of `munmap` and of `mprotect`
are given in pages: the calls refuse or round up any other. `Mremap` is left out: it can make an
area end inside a page, and `release_user_mappings` does not visit that page. -/
inductive FrameOp where
  /-- The part of `mmap` that registers the area. -/
  | map (pid page pages : ℕ) (protection : Protection) (source : MapSource)
      (locked growsDown : Bool)
  | populateMapping (pid page pages : ℕ)
  | pagefaultHandler (pid address : ℕ) (code : PageFaultErrorCode)
  | ensureUserPageReadable (pid addr len : ℕ)
  | ensureUserPageWritable (pid addr len : ℕ)
  | updatePermissions (pid page pages : ℕ) (protection : Protection)
  | tryUnmap (pid page pages : ℕ)
  | fork (pid : ℕ) (shareVm : Bool)
  | exit (pid : ℕ)
  | shmget (pid : ℕ) (key : Int) (size : ℕ) (flags : ShmgetFlags)
  | shmat (pid shmid shmaddr : ℕ) (flags : ShmatFlags)
  | shmdt (pid shmaddr : ℕ)
  | shmctlRmid (pid shmid : ℕ)
  | createDumbBuffer (pid width height bpp start : ℕ)
  | drmMap (pid offset pages : ℕ) (protection : Protection)

open FrameOp

/-- The process that asks for the operation. -/
def FrameOp.pid : FrameOp → ℕ
  | .map pid .. | .populateMapping pid .. | .pagefaultHandler pid .. => pid
  | .ensureUserPageReadable pid .. | .ensureUserPageWritable pid .. => pid
  | .updatePermissions pid .. | .tryUnmap pid .. | .fork pid .. | .exit pid => pid
  | .shmget pid .. | .shmat pid .. | .shmdt pid .. | .shmctlRmid pid .. => pid
  | .createDumbBuffer pid .. | .drmMap pid .. => pid

section Files

variable [FileLayer φ]

/-- The part of `mmap` that makes the data of a mapping and registers its area. A mapping without
pages is refused. -/
def mapPages (pid start pages : ℕ) (protection : Protection) (source : MapSource)
    (locked growsDown : Bool) : KernelM φ Unit := do
  if pages = 0 then
    Cmd.throw .invalidArguments
  else
    let data ← source.data pages protection
    let area ← newArea start pages (protectionToPageFlags protection) protection data true
    registerArea pid { area with locked, growsDown }

/-- The state after an operation of a process that exists, if it does not stop the machine. -/
def FrameOp.exec (op : FrameOp) (k : Kernel φ) : Option (Kernel φ) :=
  if op.pid ∉ k.pids then none
  else match op with
    | .map pid page pages protection source locked growsDown =>
      (mapPages pid (page * 4096) pages protection source locked growsDown).next k
    | .populateMapping pid page pages => (Memory.populateMapping pid (page * 4096) pages).next k
    | .pagefaultHandler pid address code => (Memory.pagefaultHandler pid address code).next k
    | .ensureUserPageReadable pid addr len => (Memory.ensureUserPageReadable pid addr len).next k
    | .ensureUserPageWritable pid addr len => (Memory.ensureUserPageWritable pid addr len).next k
    | .updatePermissions pid page pages protection =>
      (Memory.updatePermissions pid (page * 4096) ((page + pages) * 4096) protection).next k
    | .tryUnmap pid page pages => (Memory.tryUnmap pid (page * 4096) (pages * 4096)).next k
    | .fork pid shareVm => (Memory.fork pid shareVm).next k
    | .exit pid => (Memory.exit pid).next k
    | .shmget pid key size flags => (Memory.shmget pid key size flags).next k
    | .shmat pid shmid shmaddr flags => (Memory.shmat pid shmid shmaddr flags).next k
    | .shmdt pid shmaddr => (Memory.shmdt pid shmaddr).next k
    | .shmctlRmid pid shmid => (Memory.shmctlRmid pid shmid).next k
    | .createDumbBuffer _ width height bpp start =>
      (Memory.createDumbBuffer width height bpp start).next k
    | .drmMap pid offset pages protection => (Memory.drmMap pid offset pages protection).next k

end Files

/-- The condition on an operation: a mapping ends inside user memory, and no dumb buffer is
mapped. -/
def FrameOp.Safe (op : FrameOp) (k : Kernel φ) : Prop :=
  match op with
  | .map _ page pages .. => (page + pages) * 4096 ≤ userMemEnd
  | .shmat pid shmid shmaddr _ => k.AttachFits pid shmid shmaddr
  | .drmMap _ offset pages _ => (k.dumbBufferForMapping offset pages).isNone = true
  | _ => True

instance FrameOp.Safe.decidable (op : FrameOp) (k : Kernel φ) : Decidable (op.Safe k) :=
  match op with
  | .map _ page pages .. => inferInstanceAs (Decidable ((page + pages) * 4096 ≤ userMemEnd))
  | .shmat pid shmid shmaddr _ => inferInstanceAs (Decidable (k.AttachFits pid shmid shmaddr))
  | .drmMap _ offset pages _ =>
    inferInstanceAs (Decidable ((k.dumbBufferForMapping offset pages).isNone = true))
  | .populateMapping .. | .pagefaultHandler .. | .ensureUserPageReadable .. => .isTrue trivial
  | .ensureUserPageWritable .. | .updatePermissions .. | .tryUnmap .. => .isTrue trivial
  | .fork .. | .exit .. | .shmget .. | .shmdt .. | .shmctlRmid .. => .isTrue trivial
  | .createDumbBuffer .. => .isTrue trivial

/-- A machine with one process and nothing mapped. -/
def Kernel.boot (frames : List ℕ) (files : φ) : Kernel φ where
  pids := [1]
  process := fun _ => Process.default
  freeFrames := frames
  frameRefCount := fun _ => none
  ram := fun _ _ => 0
  sharedFilePageCache := fun _ => none
  nextObject := 0
  nextShmid := 0
  segments := fun _ => none
  nextHandle := 1
  nextMapOffset := 0x10000000
  dumbBuffers := fun _ => none
  files := files

/-! ## The property -/

/-- Something owns the frame. -/
def Kernel.Owned (k : Kernel φ) (frame : ℕ) : Prop :=
  (k.owners k.live frame).Nonempty

/-- From one state to the next, frames go back to the allocator as they lose their owners. -/
structure HandsBack (k k' : Kernel φ) : Prop where
  /-- A frame is handed back exactly if it had an owner and has none any more. -/
  exactly : ∀ frame, frame ∉ k.freeFrames →
    (frame ∈ k'.freeFrames ↔ k.Owned frame ∧ ¬ k'.Owned frame)
  /-- No frame is free that has an owner. -/
  unowned : ∀ frame ∈ k'.freeFrames, ¬ k'.Owned frame
  /-- No frame is free twice. -/
  once : k'.freeFrames.Nodup

variable {k : Kernel φ}

/-- A free frame has no owner. -/
theorem Kernel.WellFormed.not_owned (hk : k.WellFormed) {frame : ℕ} (hfree : frame ∈ k.freeFrames) :
    ¬ k.Owned frame := by
  grind [Owned, hk.books.unowned, Set.not_nonempty_empty]

variable {k' : Kernel φ}

/-- What has become free was owned. -/
theorem HandsBack.of_tracks (hk' : k'.WellFormed)
    (hold : ∀ frame, k'.Tracks k'.live [] frame → k.Tracks k.live [] frame)
    (hkept : ∀ frame, k.Owned frame → k'.Tracks k'.live [] frame) : HandsBack k k' := by
  refine ⟨fun frame hnot => ⟨fun hfree => ⟨?_, hk'.not_owned hfree⟩, ?_⟩,
    fun frame hfree => hk'.not_owned hfree, hk'.books.nodup⟩
  · -- A frame that is free now was owned, since it was not free.
    rcases hold frame (.inr (.inl hfree)) with howned | hfree | hmem
    · exact howned
    · exact absurd hfree hnot
    · exact absurd hmem List.not_mem_nil
  rintro ⟨howned, hnone⟩
  rcases hkept frame howned with howned' | hfree | hmem
  · exact absurd howned' hnone
  · exact hfree
  · exact absurd hmem List.not_mem_nil

/-- What an operation leaves: a well-formed state, reached by handing back what lost its last
owner. -/
def Settles (k k' : Kernel φ) : Prop :=
  k'.WellFormed ∧ HandsBack k k'

variable {pid : ℕ}

/-- A change that tracks the same frames. -/
theorem Settles.of_iff (hk' : k'.WellFormed)
    (htracks : ∀ frame, k'.Tracks k'.live [] frame ↔ k.Tracks k.live [] frame) : Settles k k' :=
  ⟨hk', .of_tracks hk' (fun frame => (htracks frame).mp)
    fun frame howned => (htracks frame).mpr (.inl howned)⟩

/-- A balanced change settles. -/
theorem Balances.settles (h : Balances pid k k') (hpid : pid ∈ k.pids) (hk : k.WellFormed) :
    Settles k k' := by
  obtain ⟨-, hk', htracks⟩ := h hpid hk
  exact .of_iff hk' htracks

/-- An acquiring change settles. -/
theorem Acquires.settles (h : Acquires pid k k') (hpid : pid ∈ k.pids) (hk : k.WellFormed) :
    Settles k k' := by
  obtain ⟨-, hk', hold, hkept⟩ := h hpid hk
  exact ⟨hk', .of_tracks hk' hold fun frame howned => .inl (hkept frame howned)⟩

/-- The state at boot is well formed. -/
theorem Kernel.boot_wellFormed {frames : List ℕ} (hframes : frames.Nodup) (files : φ) :
    (boot frames files).WellFormed := by
  have hlive : (boot frames files).live = ∅ := by
    ext object
    refine ⟨?_, fun h => absurd h (Set.notMem_empty _)⟩
    rintro ⟨pid, area, hmem, -⟩
    exact absurd hmem List.not_mem_nil
  have howners : ∀ frame, (boot frames files).owners ∅ frame = ∅ := by
    intro frame
    ext owner
    refine ⟨fun howner => ?_, fun h => absurd h (Set.notMem_empty _)⟩
    cases owner with
    | mapping pid page =>
      obtain ⟨pte, hpte, -⟩ := howner
      cases hpte
    | sharedFrames frames index => exact absurd howner.1 (Set.notMem_empty _)
    | segment shmid index =>
      obtain ⟨segment, hsegment, -⟩ := howner
      cases hsegment
    | dumbBuffer handle index =>
      obtain ⟨buffer, hbuffer, -⟩ := howner
      cases hbuffer
    | cacheEntry key => cases howner
  refine ⟨⟨?_, fun _ _ => ⟨rfl, fun _ => rfl⟩, ?_, fun _ _ => rfl, fun _ _ => rfl⟩,
    ⟨fun _ => .default, ?_, ?_, ?_⟩⟩
  · rw [hlive, Set.union_empty]
    refine ⟨fun frame => ?_, fun frame _ => ⟨howners frame, rfl⟩, hframes⟩
    rw [howners frame]
    exact .unowned
  · simp [hlive]
  · intro pid page hsome
    cases hsome
  · exact nofun
  · intro shmid segment hsegment
    cases hsegment

/-! ## New mappings -/

section Files

variable [FileLayer φ] {r : Except SyscallError Unit} {protection : Protection}

variable {locked growsDown : Bool} {start pages : ℕ}

/-- What mapping an area does. -/
theorem mapArea_eq_some {data : Data} (hstart : start % 4096 = 0)
    (hpages : pages ≠ 0) (hend : start + pages * 4096 ≤ userMemEnd) (hrun : (do
      let area ← newArea start pages (protectionToPageFlags protection) protection data true
      registerArea pid { area with locked, growsDown } : KernelM φ Unit) k = some (r, k')) :
    ∃ area : MemoryArea, registerArea pid area k = some (r, k') ∧ area.WholePages ∧
      area.data = data ∧ area.lazy = true := by
  rcases bind_eq_some.mp hrun with ⟨area, k₁, hnew, hrun⟩ | ⟨e, hnew, -⟩
  · obtain ⟨rfl, -, hr⟩ := newArea_eq_some hnew
    cases hr
    refine ⟨_, hrun, ⟨hstart, ?_, ?_, hend⟩, rfl, rfl⟩
    · grind
    · grind
  · exact absurd (newArea_eq_some hnew).2.2 (by simp)

/-- A mapping balances, or acquires. -/
theorem mapPages_accounts {source : MapSource} (hstart : start % 4096 = 0)
    (hend : start + pages * 4096 ≤ userMemEnd)
    (hrun : mapPages pid start pages protection source locked growsDown k = some (r, k')) :
    Balances pid k k' ∨ Acquires pid k k' := by
  unfold mapPages at hrun
  split_ifs at hrun with hpages
  · cases hrun
    exact .inl (refl k)
  -- The data of a private mapping refers to no object.
  have hprivate : ∀ {data : Data}, (∀ frames flags, data ≠ .shared frames flags) → (do
        let area ← newArea start pages (protectionToPageFlags protection) protection data true
        registerArea pid { area with locked, growsDown } : KernelM φ Unit) k = some (r, k') →
      Balances pid k k' := by
    intro data hdata hrun'
    obtain ⟨area, hregister, hwhole, rfl, hlazy⟩ := mapArea_eq_some hstart hpages hend hrun'
    refine registerArea_balances hlazy ?_ hwhole k r k' hregister
    cases hobject : area.object? with
    | none => rfl
    | some object =>
      obtain ⟨flags, hshared⟩ := MemoryArea.object?_eq_some.mp hobject
      exact absurd hshared (hdata object flags)
  cases source with
  | file offset fileBytes zeroFill object shared =>
    exact .inl (hprivate (fun _ _ h => by cases h) hrun)
  | anonymous shared =>
  cases shared with
  | false => exact .inl (hprivate (fun _ _ h => by cases h) hrun)
  | true =>
  rcases bind_eq_some.mp hrun with ⟨data, k₁, hdata, hrun⟩ | ⟨e, hdata, -⟩
  · rcases anonymousMappingData_shared hdata with
      ⟨frames, rest, ram, hfree, hr, rfl⟩ | ⟨e, frames, rest, ram, hr, -⟩
    · cases hr
      obtain ⟨area, hregister, hwhole, hshared, -⟩ :=
        mapArea_eq_some hstart hpages hend hrun
      have htake : k.Keeps k.live [] { frames.foldl addRef k with
          freeFrames := rest, ram } k.live (frames ++ []) := k.keeps_takeAll hfree
      rw [k.addRefs_eq, List.append_nil] at htake
      refine .inl (registerArea_counted (fun _ => htake) hregister ?_ hwhole)
      exact MemoryArea.object?_eq_some.mpr ⟨_, hshared⟩
    · exact absurd hr (by simp)
  rcases anonymousMappingData_shared hdata with
    ⟨frames, rest, ram, -, hr, -⟩ | ⟨e, frames, rest, ram, -, hfree, rfl⟩
  · exact absurd hr (by simp)
  · exact .inr ((k.retains_take hfree).acquires rfl fun hc => hc.of_process rfl rfl)

/-! ## Runs -/

/-- Every safe operation settles. -/
theorem FrameOp.exec_settles (op : FrameOp) (hsafe : op.Safe k) (hrun : op.exec k = some k')
    (hk : k.WellFormed) : Settles k k' := by
  unfold exec at hrun
  split_ifs at hrun with hpid
  -- What an operation is made of loses no frame, or drops nothing.
  have haccounts : Balances op.pid k k' ∨ Acquires op.pid k k' → Settles k k' := by
    rintro (h | h)
    · exact h.settles hpid hk
    · exact h.settles hpid hk
  cases op <;> simp only [next_eq_some] at hrun <;> obtain ⟨r, hrun⟩ := hrun
  case map pid page pages protection source locked growsDown =>
    have hend : page * 4096 + pages * 4096 ≤ userMemEnd := by
      rw [← Nat.add_mul]
      exact hsafe
    exact haccounts (mapPages_accounts (Nat.mul_mod_left ..) hend hrun)
  case populateMapping pid page pages =>
    exact haccounts (.inr (populateMapping_acquires pages k r k' hrun))
  case pagefaultHandler pid address code =>
    exact haccounts (pagefaultHandler_accounts hk hrun)
  case ensureUserPageReadable pid addr len =>
    exact haccounts (.inr (ensureUserPageReadable_acquires hrun))
  case ensureUserPageWritable pid addr len =>
    exact haccounts (ensureUserPageWritable_accounts hrun)
  case updatePermissions pid page pages protection =>
    exact haccounts (.inl (updatePermissions_balances (Nat.mul_mod_left ..) (Nat.mul_mod_left ..)
      k r k' hrun))
  case tryUnmap pid page pages =>
    exact haccounts (.inl (tryUnmap_balances (Nat.mul_mod_left ..) (Nat.mul_mod_left ..) k r k'
      hrun))
  case fork pid shareVm =>
    obtain ⟨hk', htracks⟩ := fork_accounts hpid hk hrun
    exact .of_iff hk' htracks
  case exit pid =>
    obtain ⟨hk', htracks⟩ := exit_accounts hpid hk hrun
    exact .of_iff hk' htracks
  case shmget pid key size flags =>
    exact haccounts (shmget_accounts hrun)
  case shmat pid shmid shmaddr flags =>
    exact haccounts (.inl (shmat_balances hk hsafe hrun))
  case shmdt pid shmaddr =>
    exact haccounts (.inl (shmdt_balances hk hrun))
  case shmctlRmid pid shmid =>
    exact haccounts (.inl (shmctlRmid_balances pid k r k' hrun))
  case createDumbBuffer pid width height bpp start =>
    exact haccounts (.inr (createDumbBuffer_acquires width height bpp start k r k' hrun))
  case drmMap pid offset pages protection =>
    -- There is no buffer at the offset, so the call fails.
    have hnone : k.dumbBufferForMapping offset pages = none := Option.isNone_iff_eq_none.mp hsafe
    unfold Memory.drmMap at hrun
    rw [get_bind, hnone] at hrun
    cases hrun
    exact .of_iff hk fun _ => .rfl

/-- A run whose operations meet the condition leads to a well-formed state. -/
theorem run_wellFormed {frames : List ℕ} (hframes : frames.Nodup) (files : φ) {ops : List FrameOp}
    {k : Kernel φ} (hsafe : SafeRun exec FrameOp.Safe ops (boot frames files))
    (hrun : runOps exec ops (boot frames files) = some k) : k.WellFormed := by
  refine SafeRun.invariant (I := WellFormed) ?_ hsafe (boot_wellFormed hframes files) hrun
  intro op s s' hsafe hstep hs
  exact (op.exec_settles hsafe hstep hs).1

/-- On every run whose operations meet the condition, and in every operation that follows, a frame
is handed to the allocator exactly if it loses its last owner. -/
theorem run_hands_back (frames : List ℕ) (hframes : frames.Nodup) (files : φ) (ops : List FrameOp)
    (op : FrameOp) (k k' : Kernel φ)
    (hsafe : SafeRun exec FrameOp.Safe (ops ++ [op]) (boot frames files))
    (hrun : runOps exec ops (boot frames files) = some k)
    (hop : op.exec k = some k') : HandsBack k k' := by
  obtain ⟨hsafeRun, hsafeOp⟩ := hsafe.split hrun
  have hk := run_wellFormed hframes files hsafeRun hrun
  exact (op.exec_settles hsafeOp hop hk).2

/-- On every run whose operations meet the condition, a frame that a page is mapped to has as many
references as owners, or no count and no other owner, and the page lies in an area. -/
theorem run_counts_owners (frames : List ℕ) (hframes : frames.Nodup) (files : φ)
    (ops : List FrameOp) (k : Kernel φ) (hsafe : SafeRun exec FrameOp.Safe ops (boot frames files))
    (hrun : runOps exec ops (boot frames files) = some k) (pid page : ℕ) (pte : Pte)
    (hpte : k.pte pid page = some pte) : (k.process pid).areas.Covers (page * 4096) ∧
      match k.frameRefCount pte.frame with
      | some n => (k.owners k.live pte.frame).encard = n
      | none => k.owners k.live pte.frame = {.mapping pid page} := by
  have hk := run_wellFormed hframes files hsafe hrun
  refine ⟨hk.contained.inside pid page (hpte ▸ rfl), ?_⟩
  have hcount := hk.consistent.books.counts pte.frame
  rw [Set.union_empty] at hcount
  have howner : .mapping pid page ∈ k.owners k.live pte.frame := mapping_mem_owners hpte
  split
  · rename_i n hn
    rw [hn] at hcount
    simpa using (hcount.count_eq (.inl ⟨_, howner⟩)).1
  · rename_i hnone
    rw [hnone] at hcount
    exact (hcount.eq_singleton howner nofun).1

end Files

/-- A process maps a page of private memory and writes to it. -/
def touchPage : List FrameOp :=
  [.map 1 16 1 ⟨true, true, false⟩ (.anonymous false) false false,
    .pagefaultHandler 1 0x10000 ⟨false, true, false⟩]

/-- The frame of the page goes back when the page is unmapped. -/
theorem run_hands_back_touchPage : ∃ k k' : Kernel Unit,
    runOps exec touchPage (boot [5] ()) = some k ∧
      (FrameOp.tryUnmap 1 16 1).exec k = some k' ∧ k.freeFrames = [] ∧ k'.freeFrames = [5] ∧
      HandsBack k k' :=
  ⟨_, _, rfl, rfl, rfl, rfl, run_hands_back [5] (by decide) () touchPage (.tryUnmap 1 16 1) _ _
    (by decide +kernel) rfl rfl⟩

/-- The page that was written to is counted twice after `fork`. -/
theorem run_counts_owners_forked : ∃ k : Kernel Unit,
    runOps exec (touchPage ++ [.fork 1 false]) (boot [5] ()) = some k ∧
      (k.owners k.live 5).encard = (2 : ℕ) :=
  ⟨_, rfl, (run_counts_owners [5] (by decide) () (touchPage ++ [.fork 1 false]) _
    (by decide +kernel) rfl 1 16 _ rfl).2⟩

/-! ## Mappings of dumb buffers -/

/-- A process makes a dumb buffer of one page and maps it. -/
def mapBuffer : List FrameOp :=
  [.createDumbBuffer 1 1 1 32 5, .drmMap 1 0x10000000 1 ⟨true, true, false⟩]

/-- When the mapping goes, the frame is handed to the allocator, and the buffer still has it. -/
theorem unmap_frees_buffer : ∃ k k' : Kernel Unit,
    runOps FrameOp.exec mapBuffer (boot [5] ()) = some k ∧
      (FrameOp.tryUnmap 1 0xc0000 1).exec k = some k' ∧ k.freeFrames = [] ∧
      k'.freeFrames = [5] ∧ (k'.dumbBuffers 1).map DumbBuffer.frames = some [5] ∧
      ¬ HandsBack k k' := by
  have hmapped : (runOps FrameOp.exec mapBuffer (boot [5] ())).map freeFrames =
      some [] := by decide +kernel
  have hunmapped : ((runOps FrameOp.exec mapBuffer (boot [5] ())).bind
      (FrameOp.tryUnmap 1 0xc0000 1).exec).map
        (fun k => (k.freeFrames, (k.dumbBuffers 1).map DumbBuffer.frames)) =
      some ([5], some [5]) := by decide +kernel
  obtain ⟨k, hk, htaken⟩ := Option.map_eq_some_iff.mp hmapped
  rw [hk] at hunmapped
  obtain ⟨k', hk', hafter⟩ := Option.map_eq_some_iff.mp hunmapped
  obtain ⟨hfree, hbuffer⟩ := Prod.mk.inj hafter
  refine ⟨k, k', hk, hk', htaken, hfree, hbuffer, fun h => ?_⟩
  -- The buffer owns the frame that is free.
  obtain ⟨buffer, hsome, hframes⟩ := Option.map_eq_some_iff.mp hbuffer
  have howned : k'.Owned 5 := ⟨.dumbBuffer 1 0, buffer, hsome, by rw [hframes]; rfl⟩
  grind [h.unowned]

end Seele.Memory
