import Mathlib.Algebra.BigOperators.Group.List.Basic
import Mathlib.Algebra.Ring.Nat
import Seele.Lib.GuardedRun
import Seele.Memory.Attachments

/-!
# Attach counts of SysV segments

`ShmSystem.Exact` is what holds between any two steps as long as no segment is destroyed under a
call that has found it and not yet counted: the count of a segment is the number of records, but for
those that calls under way have still to count or to settle. Each process has its part in the count
(`ShmSystem.held`), and a step changes the part of one process and the count with it
(`ShmSystem.Exact.step`).

If a segment is destroyed in that gap, then `shmat` fails with its mapping and its record in place
(`shmat_fails_attached`).
-/

namespace Seele.Memory

open Seele.Lib ShmSystem ShmPlace Kernel Function Cmd.NeverFails List Option

variable {φ : Type}

/-! ## Counting records -/

/-- The records of a list that are of one segment. -/
def countRecords (shmid : ℕ) (mappings : List ProcessShmMapping) : ℕ :=
  mappings.countP fun mapping => decide (mapping.shmid = shmid)

variable (place : ShmPlace)

/-- The records of a process that its call has still to add to the count. -/
def ShmPlace.uncounted (shmid : ℕ) : ℕ :=
  match place with
  | .mapped shmid' _ => if shmid' = shmid then 1 else 0
  | .inheriting mappings => countRecords shmid mappings
  | _ => 0

/-- The records taken from a process that its call has still to take off the count. -/
def ShmPlace.unsettled (shmid : ℕ) : ℕ :=
  match place with
  | .detaching pending _ => countRecords shmid pending
  | .unmapped mapping pending _ => countRecords shmid (mapping :: pending)
  | _ => 0

/-- The call has found the segment, or taken over a record of it, and will count it. -/
def ShmPlace.Awaits (shmid : ℕ) : Prop :=
  match place with
  | .found shmid' _ _ _ => shmid' = shmid
  | .mapped shmid' _ => shmid' = shmid
  | .inheriting mappings => 0 < countRecords shmid mappings
  | _ => False

/-- The process is coming to its end. -/
def ShmPlace.Exits : Prop :=
  match place with
  | .detaching _ exits => exits = true
  | .unmapped _ _ exits => exits = true
  | _ => False

variable (s : ShmSystem φ)

/-- The records of a process for a segment. -/
def ShmSystem.recorded (pid shmid : ℕ) : ℕ :=
  countRecords shmid (s.kernel.process pid).sysvShmMappings

/-- The part of a process in the count of a segment. -/
def ShmSystem.held (pid shmid : ℕ) : ℕ :=
  s.recorded pid shmid + (s.place pid).unsettled shmid - (s.place pid).uncounted shmid

/-- The sum over all processes. -/
def ShmSystem.total (f : ℕ → ℕ) : ℕ := (s.kernel.pids.map f).sum

/-- A process has a record of the segment, or is in a call for it. -/
def ShmSystem.Mentions (pid shmid : ℕ) : Prop :=
  0 < s.recorded pid shmid ∨ 0 < (s.place pid).unsettled shmid ∨ (s.place pid).Awaits shmid

/-- Some call has found the segment and has not counted it. -/
def ShmSystem.Awaited (shmid : ℕ) : Prop :=
  ∃ pid ∈ s.kernel.pids, (s.place pid).Awaits shmid

/-- What holds between any two steps, if no segment is destroyed under a call that awaits it. -/
structure ShmSystem.Exact (s : ShmSystem φ) : Prop where
  nodup : s.kernel.pids.Nodup
  idle : ∀ pid, pid ∉ s.kernel.pids → s.place pid = .idle
  /-- What is still to be counted is recorded. -/
  backed : ∀ pid shmid, (s.place pid).uncounted shmid ≤ s.recorded pid shmid
  /-- A process that comes to its end has no records. -/
  ended : ∀ pid, (s.place pid).Exits → (s.kernel.process pid).sysvShmMappings = []
  /-- The count of a segment is the sum of what the processes have in it. -/
  count : ∀ shmid segment, s.kernel.segments shmid = some segment →
    segment.attachCount = s.total fun pid => s.held pid shmid
  /-- A segment that is marked for removal is attached. -/
  marked : ∀ shmid segment, s.kernel.segments shmid = some segment →
    segment.markedForRemoval = true → 0 < segment.attachCount
  /-- A segment that a process has a record of, or is in a call for, is there. -/
  live : ∀ pid ∈ s.kernel.pids, ∀ shmid, s.Mentions pid shmid →
    (s.kernel.segments shmid).isSome
  /-- The next segment has a new id. -/
  fresh : ∀ shmid, s.kernel.nextShmid < shmid → s.kernel.segments shmid = none
  /-- A `shmat` that has not mapped the segment has changed nothing of its process. -/
  began : ∀ pid shmid segment shmaddr flags, s.place pid = .found shmid segment shmaddr flags →
    s.kernel.process pid = s.began pid

variable {a shmid parent : ℕ}

/-- Two sums that differ at one place. -/
theorem sum_map_of_ne {l l' : List ℕ} (hl : l.Nodup) (hl' : l'.Nodup) {f g : ℕ → ℕ}
    (hmem : ∀ b, b ≠ a → (b ∈ l' ↔ b ∈ l)) (h : ∀ b, b ≠ a → g b = f b) :
    (l'.map g).sum + (if a ∈ l then f a else 0) = (l.map f).sum + if a ∈ l' then g a else 0 := by
  have herase : ∀ (l : List ℕ) (f : ℕ → ℕ),
      (l.map f).sum = ((l.erase a).map f).sum + if a ∈ l then f a else 0 := by
    grind [sum_map_erase, erase_of_not_mem]
  have hperm : (l'.erase a).Perm (l.erase a) := by grind
  have hrest : (l'.erase a).map g = (l'.erase a).map f :=
    map_congr_left fun b hb => h b (hl'.mem_erase_iff.mp hb).1
  rw [herase l' g, herase l f, hrest, (hperm.map f).sum_eq]
  omega

/-- A sum is no less than its parts. -/
theorem le_sum_map {l : List ℕ} (ha : a ∈ l) (f : ℕ → ℕ) : f a ≤ (l.map f).sum := by
  have hf := sum_map_erase f ha
  omega

variable {place : ShmPlace}

/-- Nothing is uncounted unless a call awaits it. -/
theorem ShmPlace.uncounted_eq_zero (h : ¬place.Awaits shmid) :
    place.uncounted shmid = 0 := by
  cases place with
  | mapped shmid' addr => exact if_neg h
  | inheriting mappings => exact Nat.eq_zero_of_not_pos h
  | _ => rfl

/-- If nobody awaits a segment and the processes have no part in its count, then no process has
anything to do with it. -/
theorem ShmSystem.not_mentions {s : ShmSystem φ} (hawaited : ¬s.Awaited shmid)
    (htotal : (s.total fun pid => s.held pid shmid) = 0) :
    ∀ pid ∈ s.kernel.pids, ¬s.Mentions pid shmid := by
  intro pid hpid
  have hawaits : ¬(s.place pid).Awaits shmid := fun h => hawaited ⟨pid, hpid, h⟩
  have hheld := le_sum_map hpid fun pid => s.held pid shmid
  have huncounted := uncounted_eq_zero hawaits
  unfold total at htotal
  unfold held at hheld htotal
  rintro (hrecorded | hunsettled | h)
  · omega
  · omega
  · exact hawaits h

/-- The count of a segment. One that is not there has none. -/
def Kernel.attached (k : Kernel φ) (shmid : ℕ) : ℕ :=
  (k.segments shmid).elim 0 SysvShmSegment.attachCount

/-- The part of a process in the count of a segment, if there is such a process. -/
def ShmSystem.part (pid shmid : ℕ) : ℕ :=
  if pid ∈ s.kernel.pids then s.held pid shmid else 0

/-- Nothing has changed for the other processes that the counts depend on. -/
structure ShmSystem.SameBut (pid : ℕ) (s s' : ShmSystem φ) : Prop where
  nodup : s'.kernel.pids.Nodup
  mem : ∀ other, other ≠ pid → (other ∈ s'.kernel.pids ↔ other ∈ s.kernel.pids)
  recorded : ∀ other, other ≠ pid → ∀ shmid, s'.recorded other shmid = s.recorded other shmid
  place : ∀ other, other ≠ pid → s'.place other = s.place other
  /-- A process in a call stays as it is. -/
  process : ∀ other, other ≠ pid → s.place other ≠ .idle →
    s'.kernel.process other = s.kernel.process other ∧ s'.began other = s.began other

section Step

variable {s s' : ShmSystem φ} {pid : ℕ}

/-- The shares add up to the count. -/
theorem ShmSystem.Exact.total_eq (hs : s.Exact) (shmid : ℕ) :
    (s.total fun pid => s.held pid shmid) = s.kernel.attached shmid := by
  unfold attached
  cases hsegment : s.kernel.segments shmid with
  | some segment => exact (hs.count shmid segment hsegment).symm
  | none =>
  apply sum_eq_zero
  intro held hheld
  obtain ⟨pid, hpid, rfl⟩ := mem_map.mp hheld
  -- A process that had a part in it would know it.
  by_contra hpos
  have hmentions : s.Mentions pid shmid := by grind [held, Mentions]
  have hsome := hs.live pid hpid shmid hmentions
  rw [hsegment] at hsome
  cases hsome

/-- One process changes its share. -/
theorem ShmSystem.SameBut.total (h : SameBut pid s s') (hs : s.Exact) (shmid : ℕ) :
    (s'.total fun pid => s'.held pid shmid) + s.part pid shmid =
      (s.total fun pid => s.held pid shmid) + s'.part pid shmid := by
  refine sum_map_of_ne (f := fun pid => s.held pid shmid) (g := fun pid => s'.held pid shmid)
    hs.nodup h.nodup h.mem fun other hne => ?_
  grind [held, h.recorded, h.place]

/-- The invariant is kept by a step that changes one process, if the counts change with the part of
that process, and nobody awaits a segment that is destroyed. -/
theorem ShmSystem.Exact.step (hs : s.Exact) (pid : ℕ) {k' : Kernel φ}
    {began : ℕ → Process} {mappings : List ProcessShmMapping} (hnodup : k'.pids.Nodup)
    (hmem : ∀ other, other ≠ pid → (other ∈ k'.pids ↔ other ∈ s.kernel.pids))
    (hrecords : ∀ other, other ≠ pid →
      (k'.process other).sysvShmMappings = (s.kernel.process other).sysvShmMappings)
    (hothers : ∀ other, other ≠ pid → s.place other ≠ .idle →
      k'.process other = s.kernel.process other ∧ began other = s.began other)
    (hidle : pid ∉ k'.pids → place = .idle)
    (hmappings : (k'.process pid).sysvShmMappings = mappings)
    (hbacked : ∀ shmid, place.uncounted shmid ≤ countRecords shmid mappings)
    (hended : place.Exits → mappings = [])
    (hbegan : ∀ shmid segment shmaddr flags, place = .found shmid segment shmaddr flags →
      k'.process pid = began pid)
    (hlive : ∀ shmid, pid ∈ k'.pids → 0 < countRecords shmid mappings ∨
      0 < place.unsettled shmid ∨ place.Awaits shmid → (s.kernel.segments shmid).isSome)
    (hcount : ∀ shmid, k'.attached shmid + s.part pid shmid = s.kernel.attached shmid +
      if pid ∈ k'.pids then
        countRecords shmid mappings + place.unsettled shmid - place.uncounted shmid else 0)
    (hgone : ∀ shmid, s.kernel.segments shmid ≠ none → k'.segments shmid = none →
      ¬s.Awaited shmid ∧ ¬place.Awaits shmid)
    (hmarked : ∀ shmid segment, k'.segments shmid = some segment →
      segment.markedForRemoval = true → 0 < segment.attachCount)
    (hfresh : ∀ shmid, k'.nextShmid < shmid → k'.segments shmid = none) :
    Exact ⟨k', update s.place pid place, began⟩ := by
  generalize hs' : (⟨k', update s.place pid place, began⟩ : ShmSystem φ) = s'
  obtain rfl : k' = s'.kernel := by rw [← hs']
  obtain rfl : began = s'.began := by rw [← hs']
  obtain rfl : s'.place pid = place := by
    rw [← hs']
    exact update_self ..
  have h : SameBut pid s s' := by
    refine ⟨hnodup, hmem, fun other hne shmid => ?_, fun other hne => ?_, hothers⟩
    · rw [recorded, hrecords other hne]
      rfl
    · rw [← hs']
      exact update_of_ne hne _ _
  subst hmappings
  have htotal : ∀ shmid, (s'.total fun pid => s'.held pid shmid) = s'.kernel.attached shmid := by
    intro shmid
    have hparts : s'.kernel.attached shmid + s.part pid shmid =
        s.kernel.attached shmid + s'.part pid shmid := hcount shmid
    grind [h.total, hs.total_eq]
  refine ⟨hnodup, ?_, ?_, ?_, ?_, hmarked, ?_, hfresh, ?_⟩
  · grind [h.place, hs.idle, h.mem]
  · intro other shmid
    by_cases hne : other = pid
    · exact hne ▸ hbacked shmid
    · rw [h.place other hne, h.recorded other hne]
      exact hs.backed other shmid
  · intro other hexits
    by_cases hne : other = pid
    · exact hne ▸ hended (hne ▸ hexits)
    · rw [h.place other hne] at hexits
      have hbusy : s.place other ≠ .idle := fun hidle => by simp [hidle, Exits] at hexits
      grind [h.process, hs.ended]
  · intro shmid segment hsegment
    rw [htotal, attached, hsegment]
    rfl
  · intro other hother shmid hmentions
    -- The segment was there before, and it has not been destroyed.
    have hbefore : (s.kernel.segments shmid).isSome := by
      grind [Mentions, h.recorded, h.place, hs.live, h.mem, recorded]
    by_contra hnone
    rw [not_isSome_iff_eq_none] at hnone
    refine not_mentions ?_ ?_ other hother hmentions
    · rintro ⟨other, hother, hawaits⟩
      obtain ⟨hawaited, hself⟩ := hgone shmid (isSome_iff_ne_none.mp hbefore) hnone
      by_cases hne : other = pid
      · exact hself (hne ▸ hawaits)
      · rw [h.place other hne] at hawaits
        exact hawaited ⟨other, (hmem other hne).mp hother, hawaits⟩
    · rw [htotal, attached, hnone]
      rfl
  · grind [h.place, h.process, hs.began]

end Step

/-! ## The steps keep the counts exact -/

/-- The step destroys no segment that some call awaits: `IPC_RMID` of a segment that is not
attached, and the last detaching from one that is marked for removal. -/
def ShmSystem.Safe (move : ShmMove) (s : ShmSystem φ) : Prop :=
  match move with
  | .shmctlRmid _ shmid => ∀ segment, s.kernel.segments shmid = some segment →
    segment.attachCount = 0 → ¬s.Awaited shmid
  | .settle pid => ∀ mapping pending exits, s.place pid = .unmapped mapping pending exits →
    ∀ segment, s.kernel.segments mapping.shmid = some segment →
      segment.markedForRemoval = true → segment.attachCount ≤ 1 → ¬s.Awaited mapping.shmid
  | _ => True

variable {s : ShmSystem φ} {pid shmid : ℕ}

/-- One record more. -/
theorem countRecords_cons (shmid : ℕ) (mapping : ProcessShmMapping)
    (mappings : List ProcessShmMapping) : countRecords shmid (mapping :: mappings) =
      countRecords shmid mappings + if mapping.shmid = shmid then 1 else 0 := by
  simp [countP_cons, countRecords]

/-- There is none. -/
@[simp]
theorem countRecords_nil (shmid : ℕ) : countRecords shmid [] = 0 := rfl

/-- Records behind others. -/
theorem countRecords_append (shmid : ℕ) (mappings mappings' : List ProcessShmMapping) :
    countRecords shmid (mappings ++ mappings') =
      countRecords shmid mappings + countRecords shmid mappings' :=
  countP_append

variable {mappings : List ProcessShmMapping} {mapping : ProcessShmMapping}

/-- One record is taken out. -/
theorem countRecords_eraseIdx {index : ℕ} (h : mappings[index]? = some mapping) :
    countRecords shmid (mapping :: mappings.eraseIdx index) = countRecords shmid mappings := by
  obtain ⟨hlt, rfl⟩ := List.getElem?_eq_some_iff.mp h
  exact (getElem_cons_eraseIdx_perm hlt).countP_eq _

/-- A process in a call exists. -/
theorem ShmSystem.Exact.mem_pids (hs : s.Exact) (hplace : s.place pid = place)
    (h : place ≠ .idle) : pid ∈ s.kernel.pids := by
  by_contra hpid
  exact h (hplace ▸ hs.idle pid hpid)

variable {k' : Kernel φ}

section Move

variable (hs : s.Exact) (hpid : pid ∈ s.kernel.pids) {place : ShmPlace}
  (hpids : k'.pids = s.kernel.pids) (hnext : k'.nextShmid = s.kernel.nextShmid)
  (hothers : ∀ other, other ≠ pid → k'.process other = s.kernel.process other)
  (hmappings : (k'.process pid).sysvShmMappings = mappings)
  (hbacked : ∀ shmid, place.uncounted shmid ≤ countRecords shmid mappings)
  (hended : place.Exits → mappings = [])
  (hfound : ∀ shmid segment shmaddr flags, place ≠ .found shmid segment shmaddr flags)
  (hlive : ∀ shmid, 0 < countRecords shmid mappings ∨ 0 < place.unsettled shmid ∨
    place.Awaits shmid → s.Mentions pid shmid)

include hs hpid hpids hnext hothers hmappings hbacked hended hfound hlive

/-- A share and the count change together. -/
theorem ShmSystem.Exact.move
    (hcount : ∀ shmid, k'.attached shmid + s.held pid shmid = s.kernel.attached shmid +
      (countRecords shmid mappings + place.unsettled shmid - place.uncounted shmid))
    (hgone : ∀ shmid, s.kernel.segments shmid ≠ none → k'.segments shmid = none →
      ¬s.Awaited shmid ∧ ¬place.Awaits shmid)
    (hmarked : ∀ shmid segment, k'.segments shmid = some segment →
      segment.markedForRemoval = true → 0 < segment.attachCount)
    (hnew : ∀ shmid, s.kernel.segments shmid = none → k'.segments shmid = none) :
    Exact (go { s with kernel := k' } pid place) := by
  refine hs.step pid (hpids ▸ hs.nodup) (fun _ _ => by rw [hpids]) ?_ ?_ (fun h => ?_) hmappings
    hbacked hended (fun _ _ _ _ h => (hfound _ _ _ _ h).elim) ?_ ?_ hgone hmarked ?_
  · exact fun other hne => by rw [hothers other hne]
  · exact fun other hne _ => ⟨hothers other hne, rfl⟩
  · exact absurd (hpids ▸ hpid) h
  · exact fun shmid _ h => hs.live pid hpid shmid (hlive shmid h)
  · intro shmid
    rw [part, if_pos hpid, if_pos (hpids ▸ hpid)]
    exact hcount shmid
  · intro shmid hlt
    exact hnew shmid (hs.fresh shmid (hnext ▸ hlt))

/-- A step that changes no share and no count. -/
theorem ShmSystem.Exact.local_move (hsegments : k'.segments = s.kernel.segments)
    (hheld : ∀ shmid, countRecords shmid mappings + place.unsettled shmid - place.uncounted shmid =
      s.held pid shmid) :
    Exact (go { s with kernel := k' } pid place) := by
  refine hs.move hpid hpids hnext hothers hmappings hbacked hended hfound hlive ?_ ?_ ?_ ?_
  · intro shmid
    rw [hheld, attached, hsegments]
    rfl
  · grind
  · rw [hsegments]
    exact hs.marked
  · rw [hsegments]
    exact fun _ h => h

end Move

/-- A process without a call mentions what it has recorded. -/
theorem ShmSystem.mentions_of_idle (shmid : ℕ) (h : 0 < s.recorded pid shmid ∨
    0 < ShmPlace.idle.unsettled shmid ∨ ShmPlace.idle.Awaits shmid) : s.Mentions pid shmid := by
  obtain hpos | hpos | hpos := h
  · exact .inl hpos
  · exact absurd hpos (Nat.lt_irrefl 0)
  · exact hpos.elim

/-- A change of one segment alone. -/
theorem ShmSystem.Exact.table (hs : s.Exact) {after : Option SysvShmSegment}
    (hpids : k'.pids = s.kernel.pids) (hprocess : k'.process = s.kernel.process)
    (hsegments : k'.segments = update s.kernel.segments shmid after)
    (hcount : after.elim 0 SysvShmSegment.attachCount = s.kernel.attached shmid)
    (hmarked : ∀ segment, after = some segment → segment.markedForRemoval = true →
      0 < segment.attachCount)
    (hgone : s.kernel.segments shmid ≠ none → after = none → ¬s.Awaited shmid)
    (hnext : s.kernel.nextShmid ≤ k'.nextShmid) (hnew : after ≠ none → shmid ≤ k'.nextShmid) :
    Exact { s with kernel := k' } := by
  have hsegments' : ∀ shmid', k'.segments shmid' =
      if shmid' = shmid then after else s.kernel.segments shmid' :=
    fun _ => hsegments ▸ update_apply ..
  have hstep : Exact ⟨k', update s.place 0 (s.place 0), s.began⟩ := by
    refine hs.step 0 (hpids ▸ hs.nodup) (fun _ _ => by rw [hpids]) (fun _ _ => by rw [hprocess])
      (fun _ _ _ => ⟨by rw [hprocess], rfl⟩) (fun h => hs.idle 0 (hpids ▸ h)) (by rw [hprocess])
      (hs.backed 0) (hs.ended 0) (hprocess ▸ hs.began 0)
      (fun shmid h => hs.live 0 (hpids ▸ h) shmid) ?_ ?_ ?_ ?_
    · intro shmid'
      have hattached : k'.attached shmid' = s.kernel.attached shmid' := by grind [attached]
      rw [hattached, hpids]
      rfl
    · intro shmid' hsome hnone
      have hawaited : ¬s.Awaited shmid' := by grind
      refine ⟨hawaited, fun hawaits => hawaited ⟨0, ?_, hawaits⟩⟩
      by_contra hpid
      simp [hs.idle 0 hpid, Awaits] at hawaits
    · grind [hs.marked]
    · grind [hs.fresh]
  rwa [update_eq_self] at hstep

variable {k : Kernel φ} {segment : SysvShmSegment}

/-- No process changes. -/
theorem Confined.process (h : Confined ∅ k k') : k'.process = k.process :=
  funext fun other => h.others other (Set.notMem_empty other)

variable {flags : ShmatFlags}

/-- The segment is there when it is looked up. -/
theorem segments_of_shmatLookup
    (h : shmatLookup k pid shmid flags = .ok segment) : k.segments shmid = some segment := by
  unfold shmatLookup at h
  grind

/-- The segment is found. -/
theorem ShmSystem.Exact.lookup (hs : s.Exact) (hpid : pid ∈ s.kernel.pids)
    (hplace : s.place pid = .idle) (shmaddr : ℕ) (flags : ShmatFlags)
    (hsegment : s.kernel.segments shmid = some segment) :
    Exact { s.go pid (.found shmid segment shmaddr flags) with
      began := update s.began pid (s.kernel.process pid) } := by
  refine hs.step pid hs.nodup (fun _ _ => .rfl) (fun _ _ => rfl) (fun other hne _ => ?_)
    (fun h => absurd hpid h) rfl (fun _ => Nat.zero_le _) False.elim ?_ ?_ ?_ ?_ hs.marked hs.fresh
  · exact ⟨rfl, update_of_ne hne _ _⟩
  · simp [go]
  · rintro shmid' - (hpos | hpos | hpos)
    · exact hs.live pid hpid shmid' (.inl hpos)
    · simp [unsettled] at hpos
    · obtain rfl : shmid = shmid' := hpos
      rw [hsegment]
      rfl
  · intro shmid'
    simp only [part, held, hplace]
    rfl
  · exact fun shmid' hsome hnone => absurd hnone hsome

section Files

variable [FileLayer φ]

/-- A segment is mapped, or nothing has happened. -/
theorem ShmSystem.Exact.map (hs : s.Exact) {shmaddr : ℕ}
    (hplace : s.place pid = .found shmid segment shmaddr flags) {r : Except SyscallError ℕ}
    (h : shmatMap pid shmid segment shmaddr flags s.kernel = some (r, k')) :
    (∃ e, r = .error e ∧ k' = s.kernel ∧ (s.go pid .idle).Exact) ∨ ∃ addr, r = .ok addr ∧
        Exact (go { s with kernel := k' } pid (.mapped shmid addr)) := by
  have hpid := hs.mem_pids hplace nofun
  have hawaits : s.Mentions pid shmid := by simp [Mentions, hplace, Awaits]
  obtain ⟨e, rfl, rfl⟩ | ⟨addr, len, k₁, rfl, hconfined, rfl⟩ := shmatMap_cases h
  · refine .inl ⟨e, rfl, rfl, ?_⟩
    refine hs.local_move hpid rfl rfl (fun _ _ => rfl) rfl (fun _ => Nat.zero_le _)
      False.elim nofun mentions_of_idle rfl ?_
    intro shmid'
    rw [held, hplace]
    rfl
  refine .inr ⟨addr, rfl, ?_⟩
  have hone : ∀ shmid', countRecords shmid' [⟨shmid, addr, len⟩] =
      (mapped shmid addr).uncounted shmid' := by
    intro shmid'
    rw [countRecords_cons, countRecords_nil, Nat.zero_add]
    rfl
  have hrecords := hconfined.records pid
  refine hs.local_move hpid hconfined.pids hconfined.nextShmid ?_
    ((congrArg _ (update_self ..)).trans (congrArg (· ++ [⟨shmid, addr, len⟩]) hrecords))
    ?_ False.elim nofun ?_ hconfined.segments ?_
  · intro other hne
    simp only [setProcess, update_of_ne hne, hconfined.others other hne]
  · simp [countRecords_append, hone]
  · rintro shmid' (hpos | hpos | heq)
    · rw [countRecords_append, hone] at hpos
      by_cases heq : shmid = shmid'
      · exact heq ▸ hawaits
      · rw [uncounted, if_neg heq, Nat.add_zero] at hpos
        exact .inl hpos
    · exact absurd hpos (Nat.lt_irrefl 0)
    · exact (show shmid = shmid' from heq) ▸ hawaits
  · intro shmid'
    simp only [countRecords_append, hone, held, hplace, unsettled, Nat.add_zero, Nat.add_sub_cancel]
    rfl

end Files

/-- A count of attachments is changed. -/
theorem Kernel.setAttachCount_attached (k : Kernel φ)
    (h : k.segments shmid = some segment) (f : ℕ → ℕ) (shmid' : ℕ) :
    (k.setAttachCount shmid f).attached shmid' =
      if shmid' = shmid then f segment.attachCount else k.attached shmid' := by
  grind [attached, setAttachCount_segments]

/-- A change of a count keeps the segments. -/
theorem Kernel.setAttachCount_eq_none (k : Kernel φ) (f : ℕ → ℕ) (shmid' : ℕ) :
    (k.setAttachCount shmid f).segments shmid' = none ↔ k.segments shmid' = none := by
  grind [setAttachCount_segments, map_eq_none_iff]

/-- Segments that are marked for removal are attached after counting, if the one that is counted
is. -/
theorem ShmSystem.Exact.marked_setAttachCount (hs : s.Exact) {f : ℕ → ℕ}
    (hpos : ∀ segment, s.kernel.segments shmid = some segment → segment.markedForRemoval = true →
      0 < f segment.attachCount) :
    ∀ shmid' segment, (s.kernel.setAttachCount shmid f).segments shmid' = some segment →
      segment.markedForRemoval = true → 0 < segment.attachCount := by
  intro shmid' segment hsegment hmarked
  rw [setAttachCount_segments] at hsegment
  split_ifs at hsegment
  · obtain ⟨before, hbefore, rfl⟩ := map_eq_some_iff.mp hsegment
    exact hpos before hbefore hmarked
  · exact hs.marked shmid' segment hsegment hmarked

variable {r : Except SyscallError Unit}

/-- The attachment is counted. -/
theorem ShmSystem.Exact.countAttach (hs : s.Exact) {addr : ℕ}
    (hplace : s.place pid = .mapped shmid addr) (h : shmatCount shmid s.kernel = some (r, k')) :
    r = .ok () ∧ Exact (go { s with kernel := k' } pid .idle) := by
  have hpid := hs.mem_pids hplace nofun
  have hsome : (s.kernel.segments shmid).isSome :=
    hs.live pid hpid shmid (by simp [Mentions, hplace, Awaits])
  obtain ⟨segment, hsegment⟩ := isSome_iff_exists.mp hsome
  obtain ⟨hnone, -, -⟩ | ⟨-, rfl, rfl⟩ := shmatCount_cases h
  · simp [hnone] at hsome
  refine ⟨rfl, ?_⟩
  obtain ⟨hprocess, hpids, hnext⟩ := s.kernel.setAttachCount_process shmid (· + 1)
  refine hs.move hpid hpids hnext (fun other _ => by rw [hprocess]) (by rw [hprocess])
    (fun _ => Nat.zero_le _) False.elim nofun mentions_of_idle ?_ ?_
    (hs.marked_setAttachCount fun _ _ _ => Nat.succ_pos _)
    fun shmid' => (s.kernel.setAttachCount_eq_none _ shmid').mpr
  · intro shmid'
    have hbacked := hs.backed pid shmid'
    have hattached : s.kernel.attached shmid = segment.attachCount := by
      rw [attached, hsegment]
      rfl
    grind [s.kernel.setAttachCount_attached, held, recorded, unsettled, uncounted]
  · grind [s.kernel.setAttachCount_eq_none]

variable {pending : List ProcessShmMapping} {exits shareVm : Bool}

/-- Settling a detached record: the segment is there, and it is destroyed only if nobody awaits
it. -/
theorem ShmSystem.Exact.settle (hs : s.Exact)
    (hplace : s.place pid = .unmapped mapping pending exits)
    (hsafe : ∀ segment, s.kernel.segments mapping.shmid = some segment →
      segment.markedForRemoval = true → segment.attachCount ≤ 1 → ¬s.Awaited mapping.shmid)
    (h : settleDetach mapping s.kernel = some (r, k')) :
    Exact (go { s with kernel := k' } pid (.detaching pending exits)) := by
  have hpid := hs.mem_pids hplace nofun
  have hpart : ∀ shmid, s.held pid shmid = s.recorded pid shmid + countRecords shmid pending +
      if mapping.shmid = shmid then 1 else 0 := by
    grind [held, unsettled, uncounted, countRecords_cons]
  have hmentions : ∀ shmid, 0 < s.recorded pid shmid ∨ 0 < countRecords shmid pending ∨ False →
      s.Mentions pid shmid := by
    grind [Mentions, unsettled, countRecords_cons]
  have hsome : (s.kernel.segments mapping.shmid).isSome := by
    grind [hs.live, Mentions, unsettled, countRecords_cons]
  obtain ⟨segment, hsegment⟩ := isSome_iff_exists.mp hsome
  have hattached : s.kernel.attached mapping.shmid = segment.attachCount := by
    rw [attached, hsegment]
    rfl
  -- The record that is settled is in the count.
  have hpos : 0 < segment.attachCount := by grind [le_sum_map, hs.count, total]
  have hended : (detaching pending exits).Exits → (s.kernel.process pid).sysvShmMappings = [] := by
    intro hexits
    apply hs.ended pid
    rw [hplace]
    exact hexits
  obtain ⟨hprocess, hpids, hnext⟩ := s.kernel.setAttachCount_process mapping.shmid (· - 1)
  obtain ⟨hmarked, rfl⟩ | ⟨hmarked, hlast, hconfined⟩ := settleDetach_cases hsegment h
  · refine hs.move hpid hpids hnext (fun other _ => by rw [hprocess]) (by rw [hprocess])
      (fun _ => Nat.zero_le _) hended nofun hmentions ?_ ?_
      (hs.marked_setAttachCount ?_) fun shmid => (s.kernel.setAttachCount_eq_none _ shmid).mpr
    · grind [s.kernel.setAttachCount_attached, unsettled, uncounted, recorded]
    · grind [s.kernel.setAttachCount_eq_none]
    · grind
  have hsegments : ∀ shmid, k'.segments shmid =
      if shmid = mapping.shmid then none else s.kernel.segments shmid := by
    intro shmid
    rw [hconfined.segments, setSegment]
    grind [setAttachCount_segments]
  have hprocess' : k'.process = s.kernel.process := hconfined.process.trans hprocess
  refine hs.move hpid (hconfined.pids.trans hpids) (hconfined.nextShmid.trans hnext)
    (fun other _ => by rw [hprocess']) (by rw [hprocess']) (fun _ => Nat.zero_le _) hended
    nofun hmentions ?_ ?_ ?_ ?_
  · intro shmid
    rw [hpart, attached, hsegments]
    simp only [unsettled, uncounted, recorded]
    split_ifs
    all_goals grind [attached]
  · intro shmid hbefore hafter
    refine ⟨?_, id⟩
    grind
  · intro shmid segment' hsegment'
    rw [hsegments] at hsegment'
    split_ifs at hsegment'
    exact hs.marked shmid segment' hsegment'
  · grind

/-- `IPC_RMID`. -/
theorem ShmSystem.Exact.rmid (hs : s.Exact)
    (hsafe : ∀ segment, s.kernel.segments shmid = some segment → segment.attachCount = 0 →
      ¬s.Awaited shmid) (h : shmctlRmid pid shmid s.kernel = some (r, k')) :
    Exact { s with kernel := k' } := by
  obtain rfl | ⟨segment, hsegment, ⟨hcount, rfl⟩ | ⟨hcount, hconfined⟩⟩ := shmctlRmid_cases h
  · exact hs
  · have hknown : shmid ≤ s.kernel.nextShmid := by grind [hs.fresh]
    refine hs.table rfl rfl rfl ?_ ?_ nofun (Nat.le_refl _) fun _ => hknown
    · rw [attached, hsegment]
      rfl
    · rintro _ ⟨⟩ -
      exact Nat.pos_of_ne_zero hcount
  refine hs.table hconfined.pids hconfined.process hconfined.segments ?_ nofun
    (fun _ _ => hsafe segment hsegment hcount) hconfined.nextShmid.ge (absurd rfl)
  rw [attached, hsegment]
  exact hcount.symm

/-- Records are taken out to be detached. -/
theorem ShmSystem.Exact.detach (hs : s.Exact) (hpid : pid ∈ s.kernel.pids)
    (hplace : s.place pid = .idle) (hexits : exits = true → mappings = [])
    (hsplit : ∀ shmid, countRecords shmid mappings + countRecords shmid pending =
      s.recorded pid shmid) (h : setRecords pid mappings s.kernel = some (r, k')) :
    Exact (go { s with kernel := k' } pid (.detaching pending exits)) := by
  cases h
  refine hs.local_move hpid rfl rfl ?_ ?_ (fun _ => Nat.zero_le _) hexits nofun ?_ rfl ?_
  · exact fun other hne => update_of_ne hne _ _
  · simp only [setProcess, update_self]
  · intro shmid hpos
    have hsum := hsplit shmid
    simp only [unsettled, Awaits, or_false] at hpos
    left
    omega
  · simp [held, hplace, unsettled, uncounted, hsplit]

section Files

variable [FileLayer φ]

/-- The next one of them is unmapped. -/
theorem ShmSystem.Exact.unmapNext (hs : s.Exact)
    (hplace : s.place pid = .detaching (mapping :: pending) exits)
    (h : unmap pid mapping.addr mapping.len s.kernel = some (r, k')) :
    Exact (go { s with kernel := k' } pid (.unmapped mapping pending exits)) := by
  have hpid := hs.mem_pids hplace nofun
  have hconfined := unmap_confined (Set.mem_singleton pid) _ _ s.kernel r k' h
  refine hs.local_move hpid hconfined.pids hconfined.nextShmid hconfined.others
    (hconfined.records pid) (fun _ => Nat.zero_le _) ?_ nofun ?_
    hconfined.segments ?_
  · intro hexits
    apply hs.ended pid
    rw [hplace]
    exact hexits
  · intro shmid hpos
    rw [Mentions, hplace]
    exact hpos
  · intro shmid
    rw [held, hplace]
    rfl

/-- Pages are released without a failure. -/
theorem releaseUserMappings_neverFails :
    Cmd.NeverFails (releaseUserMappings pid : KernelM φ Unit) := by
  refine get.bind fun k =>
    bind (each (fun area => ?_) _)
    fun _ => setAreas_neverFails
  refine (attempt _).bind fun _ => each (fun page => ?_) _
  intro k e k' h
  rw [unmapAndRelease_run] at h
  cases h

/-- A process is reaped. -/
theorem ShmSystem.Exact.reap (hs : s.Exact) (hplace : s.place pid = .detaching [] true)
    (h : (releaseUserMappings pid >>= fun _ => Memory.reap pid) s.kernel = some (r, k')) :
    Exact (go { s with kernel := k' } pid .idle) := by
  rcases Cmd.bind_eq_some.mp h with ⟨_, k₁, hrelease, h⟩ | ⟨e, hrelease, -⟩
  swap
  · exact absurd hrelease (releaseUserMappings_neverFails _ _ _)
  have hconfined := releaseUserMappings_confined (Set.mem_singleton pid) s.kernel _ k₁ hrelease
  cases h
  -- The process has no part in the counts when it goes.
  have hzero : ∀ shmid, s.held pid shmid = 0 := by
    intro shmid
    have hended := hs.ended pid (by rw [hplace]; rfl)
    rw [held, recorded, hplace, hended]
    rfl
  have hothers : ∀ other, other ≠ pid →
      update k₁.process pid Process.default other = s.kernel.process other :=
    fun other hne => (update_of_ne hne _ _).trans (hconfined.others other hne)
  have hgone : ¬pid ∈ k₁.pids.filter fun other => decide (other ≠ pid) := by simp
  refine hs.step pid ?_ ?_ (fun other hne => by rw [← hothers other hne]) ?_ (fun _ => rfl) rfl
    (fun _ => Nat.zero_le _) False.elim nofun (fun _ h => absurd h hgone)
    ?_ ?_ (hconfined.segments ▸ hs.marked) ?_
  · exact (hconfined.pids.symm ▸ hs.nodup : k₁.pids.Nodup).filter _
  · intro other hne
    simp [hconfined.pids, hne]
  · exact fun other hne _ => ⟨hothers other hne, rfl⟩
  · intro shmid
    rw [if_neg hgone, part, hzero, ite_self, attached, attached, ← hconfined.segments]
  · exact fun shmid hsome hnone => absurd (hconfined.segments ▸ hnone) hsome
  · exact hconfined.nextShmid ▸ hconfined.segments ▸ hs.fresh

end Files

/-- The copy of a process has its records, and the other processes have not changed but for the
pages of the parent. -/
theorem cloneWithVmSharing_cases {child : ℕ}
    (h : cloneWithVmSharing parent child shareVm k = some (r, k')) :
    k'.pids = child :: k.pids ∧ k'.nextShmid = k.nextShmid ∧ k'.segments = k.segments ∧
      (k'.process child).sysvShmMappings = (k.process parent).sysvShmMappings ∧
      (∀ pid, pid ≠ child → (k'.process pid).sysvShmMappings = (k.process pid).sysvShmMappings) ∧
      ∀ pid, pid ≠ child → pid ≠ parent → k'.process pid = k.process pid := by
  have hparent : parent ∈ ({parent, child} : Set ℕ) := Set.mem_insert _ _
  have hchild' : child ∈ ({parent, child} : Set ℕ) := Set.mem_insert_of_mem _ rfl
  have hpages := Cmd.Always.each (R := Confined {parent, child}) (fun area _ =>
    .each fun page _ => clonePage_confined hparent hchild') _ r k' h
  refine ⟨hpages.pids, hpages.nextShmid, hpages.segments, ?_, ?_, ?_⟩
  · rw [hpages.records child]
    simp only [setProcess, update_self]
  · intro pid hne
    rw [hpages.records pid]
    simp only [setProcess, update_of_ne hne]
  · intro pid hne hne'
    rw [hpages.others pid (by simp [hne, hne'])]
    simp only [setProcess, update_of_ne hne]

/-- A process is forked. -/
theorem ShmSystem.Exact.fork (hs : s.Exact) (hparent : parent ∈ s.kernel.pids)
    (hplace : s.place parent = .idle)
    (h : cloneWithVmSharing parent s.kernel.freshPid shareVm s.kernel = some (r, k')) :
    Exact (go { s with kernel := k' } s.kernel.freshPid
      (.inheriting (s.kernel.process parent).sysvShmMappings)) := by
  have hfresh := s.kernel.freshPid_notMem
  generalize s.kernel.freshPid = child at h hfresh ⊢
  obtain ⟨hpids, hnext, hsegments, hchild, hrecords, hothers⟩ := cloneWithVmSharing_cases h
  refine hs.step child ?_ ?_ hrecords ?_ (fun h => ?_) hchild (fun _ => Nat.le_refl _) False.elim
    nofun ?_ ?_ (fun shmid hsome hnone => ?_) (hsegments ▸ hs.marked) ?_
  · grind [hs.nodup]
  · intro other hne
    simp [hpids, hne]
  · intro other hne hbusy
    have hne' : other ≠ parent := fun heq => hbusy (heq ▸ hplace)
    exact ⟨hothers other hne hne', rfl⟩
  · simp [hpids] at h
  · -- What the child has, its parent has.
    rintro shmid - hmentions
    apply hs.live parent hparent shmid
    obtain hpos | hpos | hpos := hmentions
    · exact .inl hpos
    · exact absurd hpos (Nat.lt_irrefl 0)
    · exact .inl hpos
  · grind [part, attached, unsettled, uncounted]
  · exact absurd (hsegments ▸ hnone) hsome
  · exact hnext ▸ hsegments ▸ hs.fresh

/-- The attachments that a child inherits are counted. -/
theorem inheritForkedMappings_cases (h : inheritForkedMappings mappings k = some (r, k')) :
    k'.process = k.process ∧ k'.pids = k.pids ∧ k'.nextShmid = k.nextShmid ∧
      ∀ shmid, k'.segments shmid = (k.segments shmid).map fun segment =>
        { segment with attachCount := segment.attachCount + countRecords shmid mappings } := by
  have hrun := Cmd.each_of_ok (ε := SyscallError)
    (f := fun mapping : ProcessShmMapping => .modify fun k : Kernel φ =>
      k.setAttachCount mapping.shmid (· + 1))
    (g := fun k mapping => k.setAttachCount mapping.shmid (· + 1)) (fun _ _ => rfl) mappings k
  obtain ⟨-, rfl⟩ := Prod.mk.inj (Option.some.inj (hrun.symm.trans h))
  clear h hrun
  induction mappings generalizing k with
  | nil => simp
  | cons mapping mappings ih =>
  obtain ⟨hprocess, hpids, hnext⟩ := k.setAttachCount_process mapping.shmid (· + 1)
  obtain ⟨ihprocess, ihpids, ihnext, ihsegments⟩ :=
    ih (k := k.setAttachCount mapping.shmid (· + 1))
  refine ⟨ihprocess.trans hprocess, ihpids.trans hpids, ihnext.trans hnext, fun shmid => ?_⟩
  rw [foldl_cons, ihsegments, setAttachCount_segments, countRecords_cons]
  split_ifs with heq heq' heq'
  · subst heq
    rw [Option.map_map]
    congr 1
    grind
  · exact absurd heq.symm heq'
  · exact absurd heq'.symm heq
  · rfl

/-- A child inherits them. -/
theorem ShmSystem.Exact.inherit (hs : s.Exact) (hplace : s.place pid = .inheriting mappings)
    (h : inheritForkedMappings mappings s.kernel = some (r, k')) :
    Exact (go { s with kernel := k' } pid .idle) := by
  have hpid := hs.mem_pids hplace nofun
  obtain ⟨hprocess, hpids, hnext, hsegments⟩ := inheritForkedMappings_cases h
  refine hs.move hpid hpids hnext (fun other _ => by rw [hprocess]) (by rw [hprocess])
    (fun _ => Nat.zero_le _) False.elim nofun mentions_of_idle ?_ ?_ ?_ ?_
  · intro shmid
    have hbacked := hs.backed pid shmid
    have hlive := hs.live pid hpid shmid
    rw [attached, hsegments, attached]
    simp only [held, Mentions, recorded, hplace, unsettled, uncounted] at hbacked hlive ⊢
    cases hsegment : s.kernel.segments shmid with
    | none => grind
    | some segment =>
      simp only [map_some, elim_some]
      omega
  · grind [map_eq_none_iff]
  · intro shmid segment' hsegment' hmarked
    rw [hsegments] at hsegment'
    obtain ⟨segment, hsegment, rfl⟩ := map_eq_some_iff.mp hsegment'
    exact Nat.lt_of_lt_of_le (hs.marked shmid segment hsegment hmarked) (Nat.le_add_right _ _)
  · intro shmid hnone
    rw [hsegments, hnone]
    rfl

/-- `shmget`. -/
theorem ShmSystem.Exact.shmget (hs : s.Exact) {key : Int} {size : ℕ} {flags : ShmgetFlags}
    {r : Except SyscallError ℕ} (h : Memory.shmget pid key size flags s.kernel = some (r, k')) :
    Exact { s with kernel := k' } := by
  obtain hconfined | ⟨segment, k₁, hcount, hmarked, hconfined, rfl⟩ := shmget_cases h
  · refine hs.table hconfined.pids hconfined.process ?_ rfl (hs.marked 0) (fun h h' => absurd h' h)
      hconfined.nextShmid.ge fun _ => Nat.zero_le _
    rw [update_eq_self, hconfined.segments]
  refine hs.table hconfined.pids hconfined.process (congrArg (update · _ _) hconfined.segments) ?_
    ?_ nofun (hconfined.nextShmid ▸ Nat.le_succ _) fun _ => Nat.le_refl _
  · rw [attached, hs.fresh _ (hconfined.nextShmid ▸ Nat.lt_succ_self _)]
    exact hcount
  · rintro _ ⟨⟩ hmarked'
    exact absurd hmarked' (hmarked ▸ Bool.false_ne_true)

/-! ## Runs -/

/-- The process of a step of `shmat`, and its state when the call began. -/
def ShmSystem.callBegan (s : ShmSystem φ) (move : ShmMove) : Option (ℕ × Process) :=
  match move with
  | .shmatLookup pid _ _ _ => some (pid, s.kernel.process pid)
  | .shmatMap pid | .shmatCount pid => some (pid, s.began pid)
  | _ => none

/-- A `shmat` that fails leaves its process as it found it. -/
def ShmSystem.FailsClean (s : ShmSystem φ) (move : ShmMove) (eff : ShmEffect φ) : Prop :=
  ∀ pid process e, s.callBegan move = some (pid, process) → eff.result = some (.error e) →
    eff.system.kernel.process pid = process

section Files

variable [FileLayer φ]

/-- Every safe step keeps the counts exact. -/
theorem ShmSystem.Exact.exec {move : ShmMove} {eff : ShmEffect φ} (hs : s.Exact)
    (hsafe : Safe move s) (h : s.exec move = some eff) :
    eff.system.Exact ∧ s.FailsClean move eff := by
  -- A process that is not at the place of the step does nothing.
  have hstay : some ⟨none, s⟩ = some eff → eff.system.Exact ∧ s.FailsClean move eff := by
    rintro ⟨⟩
    exact ⟨hs, nofun⟩
  -- The other steps but those of `shmat` have only the counts to care for.
  have hother : s.callBegan move = none → eff.system.Exact →
      eff.system.Exact ∧ s.FailsClean move eff := by
    intro hnone hexact
    refine ⟨hexact, fun _ _ _ hbegan => ?_⟩
    rw [hnone] at hbegan
    cases hbegan
  have hafter : ∀ {α : Type} {x : KernelM φ α} {f}, s.callBegan move = none →
      s.after x f = some eff → (∀ r k', x s.kernel = some (r, k') →
        (f { s with kernel := k' } r).system.Exact) → eff.system.Exact ∧ s.FailsClean move eff := by
    intro α x f hnone h hexact
    obtain ⟨⟨r, k'⟩, hrun, rfl⟩ := map_eq_some_iff.mp h
    exact hother hnone (hexact r k' hrun)
  cases move <;> simp only [ShmSystem.exec] at h
  case shmget pid key size flags =>
    split at h
    · exact hafter rfl h fun r k' => hs.shmget
    · exact hstay h
  case shmatLookup pid shmid shmaddr flags =>
    split at h
    case h_2 => exact hstay h
    case h_1 hplace =>
      split_ifs at h with hpid
      · split at h
        · cases h
          refine ⟨hs, fun pid' process e hbegan _ => ?_⟩
          cases hbegan
          rfl
        rename_i hlookup
        cases h
        refine ⟨hs.lookup hpid hplace shmaddr flags (segments_of_shmatLookup hlookup), ?_⟩
        exact nofun
      · exact hstay h
  case shmatMap pid =>
    split at h
    case h_2 => exact hstay h
    case h_1 shmid segment shmaddr flags hplace =>
      obtain ⟨⟨r, k'⟩, hrun, rfl⟩ := map_eq_some_iff.mp h
      obtain ⟨e, rfl, hkernel, hexact⟩ | ⟨addr, rfl, hexact⟩ := hs.map hplace hrun
      · obtain rfl : k' = s.kernel := hkernel
        refine ⟨hexact, fun pid' process e hbegan _ => ?_⟩
        cases hbegan
        exact hs.began _ _ _ _ _ hplace
      · exact ⟨hexact, nofun⟩
  case shmatCount pid =>
    split at h
    case h_2 => exact hstay h
    case h_1 shmid addr hplace =>
      obtain ⟨⟨r, k'⟩, hrun, rfl⟩ := map_eq_some_iff.mp h
      obtain ⟨rfl, hexact⟩ := hs.countAttach hplace hrun
      exact ⟨hexact, nofun⟩
  case shmdt pid shmaddr =>
    split at h
    case h_2 => cases h
    case h_3 => exact hstay h
    case h_1 addr hplace haddr =>
      split_ifs at h with hpid
      · split at h
        · cases h
          exact hother rfl hs
        split at h
        · cases h
        rename_i index hindex mapping hmapping
        refine hafter rfl h fun r k' => hs.detach hpid hplace nofun fun shmid => ?_
        unfold recorded
        rw [← countRecords_eraseIdx hmapping, countRecords_cons, countRecords_cons,
          countRecords_nil, Nat.zero_add]
      · exact hstay h
  case exit pid =>
    split at h
    case h_2 => exact hstay h
    case h_1 hplace =>
      split_ifs at h with hpid
      · exact hafter rfl h fun r k' =>
          hs.detach hpid hplace (fun _ => rfl) fun shmid => Nat.zero_add _
      · exact hstay h
  case unmapNext pid =>
    split at h
    case h_1 mapping pending exits hplace =>
      exact hafter rfl h fun r k' => hs.unmapNext hplace
    case h_2 hplace =>
      exact hafter rfl h fun r k' => hs.reap hplace
    case h_3 hplace =>
      cases h
      have hpid := hs.mem_pids hplace nofun
      refine hother rfl (hs.local_move hpid rfl rfl (fun _ _ => rfl) rfl
        (fun _ => Nat.zero_le _) False.elim nofun (fun shmid hpos => ?_) rfl (fun shmid => ?_))
      · rw [Mentions, hplace]
        exact hpos
      · rw [held, hplace]
        rfl
    case h_4 => exact hstay h
  case settle pid =>
    split at h
    case h_2 => exact hstay h
    case h_1 mapping pending exits hplace =>
      exact hafter rfl h fun r k' => hs.settle hplace (hsafe mapping pending exits hplace)
  case shmctlRmid pid shmid =>
    split_ifs at h
    · exact hafter rfl h fun r k' => hs.rmid hsafe
    · exact hstay h
  case fork parent shareVm =>
    split at h
    case h_2 => exact hstay h
    case h_1 hplace =>
      split_ifs at h with hpid
      · exact hafter rfl h fun r k' => hs.fork hpid hplace
      · exact hstay h
  case inherit child =>
    split at h
    case h_2 => exact hstay h
    case h_1 mappings hplace =>
      exact hafter rfl h fun r k' => hs.inherit hplace

/-- There are no segments, and no process has a record of one. -/
structure Kernel.Unattached (k : Kernel φ) : Prop where
  nodup : k.pids.Nodup
  segments : ∀ shmid, k.segments shmid = none
  records : ∀ pid, (k.process pid).sysvShmMappings = []

omit [FileLayer φ] in
/-- Nothing is attached at the start. -/
theorem Kernel.Unattached.exact (hk : k.Unattached) : (start k).Exact := by
  have hnone : ∀ shmid, (start k).kernel.segments shmid = none := hk.segments
  refine ⟨hk.nodup, fun _ _ => rfl, fun _ _ => Nat.zero_le _, fun _ h => h.elim, ?_, ?_, ?_,
    fun shmid _ => hnone shmid, nofun⟩
  · intro shmid segment hsegment
    simp [hnone] at hsegment
  · intro shmid segment hsegment
    simp [hnone] at hsegment
  rintro pid - shmid (hpos | hpos | hpos)
  · simp [recorded, start, hk.records] at hpos
  · exact absurd hpos (Nat.lt_irrefl 0)
  · exact hpos.elim

omit [FileLayer φ] in
/-- What is held is what is recorded or on its way. -/
theorem ShmSystem.Exact.total_held (hs : s.Exact) (shmid : ℕ) :
    (s.total fun pid => s.held pid shmid) + (s.total fun pid => (s.place pid).uncounted shmid) =
      (s.total fun pid => s.recorded pid shmid) +
        s.total fun pid => (s.place pid).unsettled shmid := by
  unfold total
  induction s.kernel.pids with
  | nil => rfl
  | cons pid pids ih =>
    have hbacked := hs.backed pid shmid
    grind [held]

omit [FileLayer φ] in
/-- Nothing is recorded of a segment that is gone. -/
theorem ShmSystem.Exact.total_recorded_eq_zero (hs : s.Exact)
    (hgone : s.kernel.segments shmid = none) : (s.total fun pid => s.recorded pid shmid) = 0 := by
  apply sum_eq_zero
  intro count hcount
  obtain ⟨pid, hpid, rfl⟩ := mem_map.mp hcount
  by_contra hpos
  have hsome := hs.live pid hpid shmid (Or.inl (Nat.pos_of_ne_zero hpos))
  rw [hgone] at hsome
  cases hsome

/-- In every run in which no segment is destroyed under a call that awaits it, the count of a
segment is the number of records of it, but for those that calls under way have still to count or to
settle; a segment that is marked for removal is attached, and one that is gone has no record. -/
theorem run_attachments (k : Kernel φ) (hk : k.Unattached) (moves : List ShmMove) (move : ShmMove)
    (s : ShmSystem φ) (eff : ShmEffect φ) (hsafe : SafeRun next Safe (moves ++ [move]) (start k))
    (hrun : runOps next moves (start k) = some s) (hexec : s.exec move = some eff) :
    (∀ shmid segment, s.kernel.segments shmid = some segment →
      segment.attachCount + (s.total fun pid => (s.place pid).uncounted shmid) =
          (s.total fun pid => s.recorded pid shmid) +
            s.total (fun pid => (s.place pid).unsettled shmid) ∧
        ((∀ pid, s.place pid = .idle) →
          segment.attachCount = s.total fun pid => s.recorded pid shmid) ∧
        (segment.markedForRemoval = true → 0 < segment.attachCount)) ∧
      (∀ shmid, s.kernel.segments shmid = none → (s.total fun pid => s.recorded pid shmid) = 0) ∧
      s.FailsClean move eff := by
  obtain ⟨hsafe, hmove⟩ := SafeRun.split hsafe hrun
  have hs : s.Exact := by
    refine SafeRun.invariant (I := Exact) ?_ hsafe hk.exact hrun
    intro move s s' hmove hnext hs
    obtain ⟨eff, hexec, rfl⟩ := map_eq_some_iff.mp hnext
    exact (hs.exec hmove hexec).1
  refine ⟨?_, fun shmid => hs.total_recorded_eq_zero, (hs.exec hmove hexec).2⟩
  intro shmid segment hsegment
  have hcount := hs.count shmid segment hsegment
  have htotal := hs.total_held shmid
  grind [hs.marked, unsettled, uncounted]

end Files

/-- Two processes of the superuser, with nothing mapped. -/
def twoProcesses : Kernel Unit where
  pids := [1, 2]
  process := fun _ => Process.default
  freeFrames := [10, 11]
  frameRefCount := fun _ => none
  ram := fun _ _ => 0
  sharedFilePageCache := fun _ => none
  nextObject := 0
  nextShmid := 0
  segments := fun _ => none
  nextHandle := 1
  nextMapOffset := 0
  dumbBuffers := fun _ => none
  files := ()

/-- Process 1 makes a segment and is in a `shmat` of it that has still to count. -/
def attachOne : List ShmMove :=
  [.shmget 1 0 1 ⟨true, false, 0o600⟩, .shmatLookup 1 1 0 ⟨false, false, false⟩, .shmatMap 1]

/-- A run with an attachment that is counted next. -/
theorem run_attachments_attachOne :
    ∃ s eff segment, runOps next attachOne (.start twoProcesses) = some s ∧
      s.exec (.shmatCount 1) = some eff ∧ s.kernel.segments 1 = some segment ∧
      segment.attachCount + (s.total fun pid => (s.place pid).uncounted 1) =
        (s.total fun pid => s.recorded pid 1) + s.total fun pid => (s.place pid).unsettled 1 := by
  refine ⟨_, _, _, rfl, rfl, rfl, ((run_attachments twoProcesses ?_ attachOne (.shmatCount 1) _ _
    ?_ rfl rfl).1 1 _ rfl).1⟩
  · exact ⟨by decide, fun _ => rfl, fun _ => rfl⟩
  · exact ⟨trivial, trivial, trivial, trivial, trivial⟩

/-- Process 2 removes the segment before process 1 has counted its attachment: `shmat` fails, with
the segment mapped and recorded. -/
theorem shmat_fails_attached :
    ∃ s eff, runOps next (attachOne ++ [.shmctlRmid 2 1]) (.start twoProcesses) = some s ∧
      s.exec (.shmatCount 1) = some eff ∧ eff.result = some (.error .invalidArguments) ∧
      (s.began 1).sysvShmMappings = [] ∧ (s.began 1).areas.memoryAreas = [] ∧
      ((eff.system.kernel.process 1).sysvShmMappings.map ProcessShmMapping.shmid) = [1] ∧
      (eff.system.kernel.process 1).areas.memoryAreas.length = 1 ∧
      eff.system.kernel.segments 1 = none :=
  ⟨_, _, rfl, rfl, rfl, rfl, rfl, rfl, rfl, rfl⟩

end Seele.Memory
