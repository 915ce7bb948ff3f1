import Seele.Lib.GuardedRun
import Seele.Memory.Backing

/-!
# The program break

`Brk` moves the break of a process and maps or unmaps the pages in between. A request below
`program_break_base` passes its checks, because the difference saturates: the break moves below the
base, and whatever is mapped there is unmapped. `run_brk_frame` says that `Brk` does not go beyond
the heap in a run without such requests.
-/

namespace Seele.Memory

open Lib Option

/-- The address has the same rights and stands for the same bytes in both areas, which may end
elsewhere. -/
def SameMapping (addr : ℕ) (a b : MemoryArea) : Prop :=
  a = { b with start := a.start, end_ := a.end_, data := a.data } ∧ SameBacking a b addr

/-- A mapping is the same as itself. -/
theorem sameMapping_refl (addr : ℕ) (area : Option MemoryArea) :
    Option.Rel (SameMapping addr) area area := by
  cases area with
  | none => exact .none
  | some area => exact .some ⟨rfl, rfl, fun _ _ => rfl⟩

/-- The fields of `Process` that `Brk` uses. The page table gives the frames of pages. -/
structure BrkProcess where
  areas : AreaMap
  pageTable : ℕ → Option ℕ
  programBreak : ℕ
  programBreakBase : ℕ
  rlimitDataCur : ℕ

open BrkProcess

/-- The end of the page, or the address if it is the start of one. -/
def roundUp (addr : ℕ) : ℕ := (addr + 4095) / 4096 * 4096

namespace BrkProcess

variable (p : BrkProcess)

/-- The first call sets the break up, `INITIAL_BRK_RESERVE` below the placement cursor. -/
def started : BrkProcess :=
  if p.programBreak = 0 then
    { p with
      programBreak := p.areas.userMem - 0x40000000
      programBreakBase := p.areas.userMem - 0x40000000 }
  else p

/-- The request passes the checks of `Brk`. -/
def Accepts (addr : ℕ) : Prop :=
  addr ≠ 0 ∧ addr + 4095 < 0x10000000000000000 ∧ roundUp addr < userMemEnd ∧
    roundUp addr - p.programBreakBase ≤ p.rlimitDataCur

instance (p : BrkProcess) (addr : ℕ) : Decidable (p.Accepts addr) :=
  inferInstanceAs (Decidable (_ ∧ _))

/-- `unmap`: the areas and the pages of the range, unless a file mapping in it cannot be flushed. -/
def unmap (start len : ℕ) (flushed : Bool) : Option BrkProcess := do
  let areas ← p.areas.tryUnmap start len flushed
  return { p with
    areas
    pageTable := fun page => if flushed ∧ page ∈ pagesInclusive start (start + len - 1) then none
      else p.pageTable page }

/-- The area that `Brk` registers between the two ends. -/
def heapArea (oldAligned newAligned : ℕ) : MemoryArea :=
  .new oldAligned ((newAligned - oldAligned) / 4096) (protectionToPageFlags ⟨true, true, false⟩)
    ⟨true, true, false⟩ (.normal ⟨none, false⟩) true

/-- The part of `Brk` that changes the areas. -/
def resize (oldAligned newAligned : ℕ) (flushed : Bool) : Option BrkProcess :=
  if oldAligned < newAligned then
    some { p with areas := p.areas.registerArea (heapArea oldAligned newAligned) }
  else if newAligned < oldAligned then p.unmap newAligned (oldAligned - newAligned) flushed
  else some p

/-- `Brk`: the address that it returns, and the process. -/
def brk (addr : ℕ) (flushed : Bool) (p : BrkProcess) : Option (ℕ × BrkProcess) :=
  let p := p.started
  if p.Accepts addr then do
    let p ← p.resize (roundUp p.programBreak) (roundUp addr) flushed
    return (addr, { p with
      areas := { p.areas with userMem := max p.areas.userMem (roundUp addr) }
      programBreak := addr })
  else some (p.programBreak, p)

/-- What `Brk` may do to a process: outside the heap, areas, pages and what addresses stand for
stay. A request that is refused changes nothing. -/
structure Frame (p : BrkProcess) (addr result : ℕ) (p' : BrkProcess) : Prop where
  areas : ∀ area ∈ p.areas.memoryAreas, area.end_ ≤ roundUp p.programBreakBase ∨
    max (roundUp p.programBreak) (roundUp p'.programBreak) ≤ area.start →
      area ∈ p'.areas.memoryAreas
  lookup : ∀ a, a < roundUp p.programBreakBase ∨
    max (roundUp p.programBreak) (roundUp p'.programBreak) ≤ a →
      Option.Rel (SameMapping a) (p'.areas.getArea a).1 (p.areas.getArea a).1
  pages : ∀ page, page * 4096 < roundUp p.programBreakBase ∨
    max (roundUp p.programBreak) (roundUp p'.programBreak) ≤ page * 4096 →
      p'.pageTable page = p.pageTable page
  base : p'.programBreakBase = p.programBreakBase ∧ p.programBreakBase ≤ p'.programBreak
  accepted : p.Accepts addr → result = addr ∧ p'.programBreak = addr
  refused : ¬ p.Accepts addr → result = p.programBreak ∧ p' = p

end BrkProcess

/-- A call of `Brk`, or any other change of the areas and the pages. -/
inductive BrkStep where
  | brk (addr : ℕ) (flushed : Bool)
  | other (areas : AreaMap) (pageTable : ℕ → Option ℕ)

/-- One step. -/
def BrkStep.exec (step : BrkStep) (p : BrkProcess) : Option BrkProcess :=
  match step with
  | brk addr flushed => (p.brk addr flushed).map Prod.snd
  | other areas pageTable => some { p with areas, pageTable }

/-- The pages between two breaks are cut out without a change to the rest of their areas. -/
def BrkProcess.Cuts (p : BrkProcess) (a b : ℕ) : Prop :=
  ∀ area ∈ p.areas.memoryAreas, area.apart (min a b) (max a b) ∨
    area.Fits ∧ CutOp.unmapAreas.Keeps area (min a b) (max a b)

/-- A request that passes the checks is not below the base, and nothing reaches over the end of the
pages that it maps or unmaps that a cut there changes. Areas do not overlap. -/
def BrkStep.Safe (step : BrkStep) (p : BrkProcess) : Prop :=
  match step with
  | brk addr _ => p.started.Accepts addr → p.started.programBreakBase ≤ addr ∧
      p.started.Cuts (roundUp p.started.programBreak) (roundUp addr)
  | other areas _ => AreasSeparated areas.memoryAreas

variable {p p' : BrkProcess} {addr result : ℕ} {flushed : Bool}

/-- Rounding is monotone. -/
theorem roundUp_mono {a b : ℕ} (h : a ≤ b) : roundUp a ≤ roundUp b := by
  unfold roundUp
  omega

/-- A rounded address is aligned. -/
theorem roundUp_aligned (a : ℕ) : roundUp a % 4096 = 0 := Nat.mul_mod_left ..

section Cut

open MemoryArea AreaMap CutOp

variable {s : AreaMap} {area : MemoryArea} {start end_ : ℕ}

/-- An area apart from the range stays. -/
theorem AreaMap.mem_unmapAreas (harea : area ∈ s.memoryAreas) (h : area.apart start end_) :
    area ∈ (s.unmapAreas start end_).memoryAreas := by
  refine List.mem_flatMap.mpr ⟨area, harea, ?_⟩
  rw [MemoryArea.unmapped_of_apart h]
  exact List.mem_singleton_self area

/-- An address outside the range that a cut leaves is in a piece of its area. -/
theorem MemoryArea.exists_unmapped (hin : area.contains addr = true)
    (hout : addr < start ∨ end_ ≤ addr) : ∃ piece ∈ area.unmapped start end_,
      piece.contains addr = true ∧
        piece = { area with start := piece.start, end_ := piece.end_, data := piece.data } := by
  by_cases hap : area.apart start end_
  · rw [unmapped_of_apart hap]
    exact ⟨area, List.mem_singleton_self area, hin, rfl⟩
  have hin := within_iff.mp hin
  have hlt : max area.start start < min area.end_ end_ := Nat.lt_of_not_le hap
  rcases hout with hbelow | habove
  · exact ⟨area.leftPiece start, (mem_unmapped hap).mpr (.inl ⟨by omega, rfl⟩),
      within_iff.mpr ⟨hin.1, hbelow⟩, rfl⟩
  · exact ⟨area.rightPiece end_, (mem_unmapped hap).mpr (.inr ⟨by omega, rfl⟩),
      within_iff.mpr ⟨habove, hin.2⟩, rfl⟩

/-- What an address outside the range stands for after a cut, and after a new area in the range. -/
theorem AreaMap.lookup_unmapAreas {t : AreaMap} (hs : AreasSeparated s.memoryAreas)
    (ht : AreasSeparated t.memoryAreas) (hstart : start % 4096 = 0) (hend : end_ % 4096 = 0)
    (hkeeps : ∀ area ∈ s.memoryAreas, area.apart start end_ ∨
      area.Fits ∧ CutOp.unmapAreas.Keeps area start end_)
    (hmem : ∀ area : MemoryArea, area.contains addr = true →
      (area ∈ t.memoryAreas ↔ area ∈ (s.unmapAreas start end_).memoryAreas))
    (hout : addr < start ∨ end_ ≤ addr) :
    Option.Rel (SameMapping addr) (t.getArea addr).1 (s.getArea addr).1 := by
  cases hfound : (s.getArea addr).1 with
  | some area =>
    obtain ⟨harea, hin⟩ := getArea_sound hfound
    obtain ⟨piece, hpiece, hin', heq⟩ := exists_unmapped hin hout
    rw [(getArea_eq_some_iff ht).mpr ⟨(hmem piece hin').mpr
      (List.mem_flatMap.mpr ⟨area, harea, hpiece⟩), hin'⟩]
    refine .some ⟨heq, ?_⟩
    rcases hkeeps area harea with hap | ⟨hfits, hkeep⟩
    · rw [unmapped_of_apart hap] at hpiece
      obtain rfl := List.mem_singleton.mp hpiece
      exact ⟨rfl, fun _ _ => rfl⟩
    · exact (pieces_sameBacking_iff hstart hend hfits).mpr hkeep piece hpiece addr hin'
  | none =>
  cases hpiece : (t.getArea addr).1 with
  | none => exact .none
  | some piece =>
    -- The address of a piece is an address of the area that it is cut from.
    obtain ⟨hmem', hin'⟩ := getArea_sound hpiece
    obtain ⟨area, harea, hpiece⟩ := List.mem_flatMap.mp ((hmem piece hin').mp hmem')
    have hinside := unmapped_inside hpiece
    have hin := within_iff.mp hin'
    rw [(getArea_eq_some_iff hs).mpr ⟨harea, within_iff.mpr ⟨by omega, by omega⟩⟩] at hfound
    cases hfound

end Cut

/-- Outside of a range a process keeps its areas, what addresses stand for, and its pages. -/
structure BrkProcess.KeepsOutside (p p' : BrkProcess) (low high : ℕ) : Prop where
  separated : AreasSeparated p'.areas.memoryAreas
  areas : ∀ area ∈ p.areas.memoryAreas, area.end_ ≤ low ∨ high ≤ area.start →
    area ∈ p'.areas.memoryAreas
  lookup : ∀ addr, addr < low ∨ high ≤ addr →
    Option.Rel (SameMapping addr) (p'.areas.getArea addr).1 (p.areas.getArea addr).1
  pages : ∀ page, page * 4096 < low ∨ high ≤ page * 4096 → p'.pageTable page = p.pageTable page
  base : p'.programBreakBase = p.programBreakBase

section Resize

variable {a b : ℕ} (hsep : AreasSeparated p.areas.memoryAreas) (ha : a % 4096 = 0)
  (hb : b % 4096 = 0) (hcuts : p.Cuts a b)

include hsep ha hb hcuts

/-- A new area between the two ends replaces what is there. -/
theorem BrkProcess.grow_keepsOutside (hlt : a < b) :
    p.KeepsOutside { p with areas := p.areas.registerArea (heapArea a b) } a b := by
  have hend : (heapArea a b).end_ = b := show a + (b - a) / 4096 * 4096 = b by omega
  have hstart : (heapArea a b).start = a := rfl
  generalize heapArea a b = heap at hend hstart ⊢
  unfold BrkProcess.Cuts at hcuts
  rw [Nat.min_eq_left (Nat.le_of_lt hlt), Nat.max_eq_right (Nat.le_of_lt hlt)] at hcuts
  subst hstart hend
  have hsep' := AreaMap.registerArea_separated hsep hlt
  refine ⟨hsep', fun area harea hout => ?_, fun addr hout => ?_, fun _ _ => rfl, rfl⟩
  · refine mem_insertArea.mpr (.inr (AreaMap.mem_unmapAreas harea ?_))
    unfold MemoryArea.apart
    omega
  · refine AreaMap.lookup_unmapAreas hsep hsep' ha hb hcuts
      (fun area hin => mem_insertArea.trans (or_iff_right ?_)) hout
    -- The new area has no address outside.
    rintro rfl
    have hin := within_iff.mp hin
    omega

/-- What is unmapped lies between the two ends. -/
theorem BrkProcess.unmap_keepsOutside (hlt : b < a)
    (hrun : p.unmap b (a - b) flushed = some p') : p.KeepsOutside p' b a := by
  obtain ⟨areas, hareas, hout⟩ := bind_eq_some_iff.mp hrun
  cases hout
  have hsep' := AreaMap.tryUnmap_separated hsep hareas
  unfold AreaMap.tryUnmap at hareas
  rw [if_neg (by omega)] at hareas
  obtain ⟨last, hlast, hout⟩ := bind_eq_some_iff.mp hareas
  cases hout
  have hend : last = a := (eq_of_virtAddr hlast).trans (by omega)
  subst hend
  unfold BrkProcess.Cuts at hcuts
  rw [Nat.min_eq_right (Nat.le_of_lt hlt), Nat.max_eq_left (Nat.le_of_lt hlt)] at hcuts
  refine ⟨hsep', fun area harea hout => ?_, fun addr hout => ?_,
    fun page hout => if_neg fun hmem => ?_, rfl⟩
  · split_ifs
    · refine AreaMap.mem_unmapAreas harea ?_
      show min area.end_ last ≤ max area.start b
      omega
    · exact harea
  · dsimp only at hsep' ⊢
    split_ifs at hsep' ⊢
    · exact AreaMap.lookup_unmapAreas hsep hsep' hb ha hcuts (fun _ _ => .rfl) hout
    · exact sameMapping_refl addr _
  · have hin := mem_pagesInclusive.mp hmem.2
    omega

/-- What `resize` changes lies between the two ends. -/
theorem BrkProcess.resize_keepsOutside (hrun : p.resize a b flushed = some p') :
    p.KeepsOutside p' (min a b) (max a b) := by
  unfold resize at hrun
  split_ifs at hrun with hgrow hshrink
  · cases hrun
    rw [Nat.min_eq_left (Nat.le_of_lt hgrow), Nat.max_eq_right (Nat.le_of_lt hgrow)]
    exact grow_keepsOutside hsep ha hb hcuts hgrow
  · rw [Nat.min_eq_right (Nat.le_of_lt hshrink), Nat.max_eq_left (Nat.le_of_lt hshrink)]
    exact unmap_keepsOutside hsep ha hb hcuts hshrink hrun
  · cases hrun
    exact ⟨hsep, fun _ harea _ => harea, fun addr _ => sameMapping_refl addr _, fun _ _ => rfl, rfl⟩

end Resize

/-- The invariant of a run: areas do not overlap, and the break is not below the base. -/
structure BrkProcess.Ok (p : BrkProcess) : Prop where
  separated : AreasSeparated p.areas.memoryAreas
  base : p.programBreak = 0 ∨ p.programBreakBase ≤ p.programBreak

/-- The start is in order. -/
theorem BrkProcess.Ok.started (h : p.Ok) : p.started.Ok := by
  unfold BrkProcess.started
  split_ifs with hzero
  · exact ⟨h.separated, .inr (Nat.le_refl _)⟩
  · exact h

/-- The break is not below its base. -/
theorem BrkProcess.started_base (h : p.Ok) :
    p.started.programBreakBase ≤ p.started.programBreak := by
  unfold BrkProcess.started
  split_ifs with hzero
  · exact Nat.le_refl _
  · exact h.base.resolve_left hzero

/-- A safe call keeps the invariant and stays in the heap. -/
theorem BrkProcess.brk_frame (hok : p.Ok) (hsafe : BrkStep.Safe (.brk addr flushed) p)
    (hrun : p.brk addr flushed = some (result, p')) :
    p'.Ok ∧ Frame p.started addr result p' := by
  have hbase := started_base hok
  have hsep := hok.started.separated
  unfold brk at hrun
  unfold BrkStep.Safe at hsafe
  dsimp only at hrun hsafe
  generalize p.started = p at hbase hsep hsafe hrun
  split_ifs at hrun with haccepts
  · obtain ⟨q, hq, hout⟩ := bind_eq_some_iff.mp hrun
    cases hout
    obtain ⟨hlow', hcuts⟩ := hsafe haccepts
    obtain ⟨hsep', hareas, hlookup, hpages, hkeeps⟩ :=
      resize_keepsOutside hsep (roundUp_aligned _) (roundUp_aligned _) hcuts hq
    have hlow := roundUp_mono hbase
    have hlow'' := roundUp_mono hlow'
    refine ⟨⟨hsep', .inr (hkeeps ▸ hlow')⟩, fun area harea hout => hareas area harea ?_,
      fun a hout => ?_, fun page hout => hpages page ?_, ⟨hkeeps, hlow'⟩, fun _ => ⟨rfl, rfl⟩,
      fun hrefused => absurd haccepts hrefused⟩
    · dsimp only at hout
      omega
    · -- A lookup does not read the cursor.
      have hfind := (AreaMap.getArea_eq_find?
        (s := { q.areas with userMem := max q.areas.userMem (roundUp addr) }) hsep' a).trans
        (AreaMap.getArea_eq_find? hsep' a).symm
      dsimp only at hout
      exact hfind ▸ hlookup a (by omega)
    · dsimp only at hout
      omega
  · cases hrun
    exact ⟨⟨hsep, .inr hbase⟩, fun _ harea _ => harea, fun a _ => sameMapping_refl a _,
      fun _ _ => rfl, ⟨rfl, hbase⟩, fun hacc => absurd hacc haccepts, fun _ => ⟨rfl, rfl⟩⟩

/-- In every run of a new process whose steps are safe, a call of `Brk` changes nothing outside the
heap, does not move the break below the base, and changes nothing at all if it is refused. The break
of a process that has not called it yet is the one that the first call sets up. -/
theorem run_brk_frame {first : BrkProcess} (hnew : first.programBreak = 0)
    (hsep : AreasSeparated first.areas.memoryAreas) (steps : List BrkStep)
    (hsafe : SafeRun BrkStep.exec BrkStep.Safe (steps ++ [.brk addr flushed]) first)
    (hrun : runOps BrkStep.exec steps first = some p)
    (hbrk : p.brk addr flushed = some (result, p')) : p.started.Frame addr result p' := by
  obtain ⟨hsteps, hlast⟩ := hsafe.split hrun
  have hok := SafeRun.invariant (I := BrkProcess.Ok) (fun step q q' hstep hexec hq => ?_) hsteps
    ⟨hsep, .inl hnew⟩ hrun
  · exact (brk_frame hok hlast hbrk).2
  cases step with
  | brk addr flushed =>
    obtain ⟨⟨result, q'⟩, hout, rfl⟩ := map_eq_some_iff.mp hexec
    exact (brk_frame hq hstep hout).1
  | other areas pageTable =>
    cases hexec
    exact ⟨hstep, hq.base⟩

/-- A process with a mapping right below the break that its first call sets up. -/
def newProcess : BrkProcess :=
  ⟨⟨[.new 0x7fff0000 16 .empty ⟨true, true, false⟩ (.normal ⟨none, false⟩) true], 0xc0000000, none⟩,
    fun _ => none, 0, 0, 0x10000⟩

/-- The break is moved up by a page. -/
theorem run_brk_frame_grown : ∃ result p', newProcess.brk 0x80001000 true = some (result, p') ∧
    newProcess.started.Frame 0x80001000 result p' := by
  have hreturns : (newProcess.brk 0x80001000 true).isSome = true := by decide +kernel
  obtain ⟨⟨result, p'⟩, hbrk⟩ := isSome_iff_exists.mp hreturns
  have hsafe : SafeRun BrkStep.exec BrkStep.Safe [.brk 0x80001000 true] newProcess := by
    refine ⟨fun _ => ⟨by decide +kernel, fun area harea => .inl ?_⟩, ?_⟩
    · obtain rfl := List.mem_singleton.mp harea
      decide +kernel
    · split <;> trivial
  exact ⟨result, p', hbrk, run_brk_frame rfl (separated_singleton (by decide)) [] hsafe rfl hbrk⟩

/-- A request below the base unmaps what is there. -/
theorem brk_below_base : (newProcess.brk 0x7fff8000 true).map (fun r => (r.1,
      r.2.programBreakBase, r.2.areas.memoryAreas.map fun area => (area.start, area.end_))) =
    some (0x7fff8000, 0x80000000, [(0x7fff0000, 0x7fff8000)]) := by
  decide +kernel

end Seele.Memory
