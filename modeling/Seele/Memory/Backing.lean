import Seele.Memory.Layout

/-!
# What a page is backed by, before and after a cut

`unmap_areas`, `set_locked` and `update_permissions` cut an area into pieces, and the pages of the
pieces are faulted in and keyed for futexes later, from the pieces alone (`faultBacking`,
`futexKey`): both compute with the distance of the address from the start of its area. A piece that
starts above its area has to make up for the distance it has lost. `Data.advanced` does so for a
file, by moving the offset, and does not for shared frames, whose list is taken over whole.

`CutOp.Keeps` says for one area when a cut changes nothing. `cut_resolves_iff` shows that this is
exact, and `unmap_shifts_shared_frames` is a cut that moves shared frames by one page.
-/

namespace Seele.Memory

open Seele.Lib MemoryArea AreaMap

/-! ## Resolving an address -/

/-- What a fault maps for a page. -/
inductive Backing where
  | zeroed
  /-- `bytes` bytes of the file from `offset` on; the rest of the page is zero. With no bytes and
  without `zeroFill` the fault is a `SIGBUS`. -/
  | file (file : FileLikeObject) (offset bytes : ℕ) (zeroFill shared : Bool)
  | frame (frame : ℕ)
deriving DecidableEq, Repr

/-- What `apply_page_cluster` maps for the page of `addr` in an area with this start and data, where
it gets to this page. It is `none` where it panics: the page starts below the area, or the list of
shared frames is too short. -/
def loadBacking (start : ℕ) (data : Data) (addr : ℕ) : Option Backing :=
  let pageStart := addr / 4096 * 4096
  match data with
  | .normal _ => some .zeroed
  | .file offset fileBytes zeroFill file shared =>
    if pageStart < start then none
    else
      let pageOffset := pageStart - start
      some (.file file (offset + pageOffset) (min 4096 (fileBytes - pageOffset)) zeroFill shared)
  | .shared frames _ =>
    if pageStart < start then none
    else (frames.frames[(pageStart - start) / 4096]?).map .frame

/-- The page of `addr` is loaded, and `apply_page_cluster` panics: the area has no whole page left,
so that the loop does not run and the page stays unmapped, or the offset overflows. -/
def MemoryArea.faultPanics (area : MemoryArea) (addr : ℕ) : Bool :=
  match area.data with
  | .file offset fileBytes zeroFill _ _ =>
    let pageOffset := addr / 4096 * 4096 - area.start
    (zeroFill || decide (pageOffset < fileBytes)) &&
      (decide (area.pages ≤ pageOffset / 4096) ||
        decide (0x10000000000000000 ≤ offset + pageOffset))
  | _ => false

/-- What a fault on `addr` in the area maps, or `none` if it panics. -/
def faultBacking (area : MemoryArea) (addr : ℕ) : Option Backing :=
  if area.faultPanics addr then none else loadBacking area.start area.data addr

/-- `FutexKey`. -/
inductive FutexKey where
  | processPrivate (pid addr : ℕ)
  | sharedAnonymous (frames offset : ℕ)
  | sharedFile (deviceId inode offset : ℕ)
  | sharedObject (object offset : ℕ)
  | sharedPhysical (frame offset : ℕ)
deriving DecidableEq, Repr

/-- `saturating_add` of two `u64`. -/
def saturatingAdd (a b : ℕ) : ℕ :=
  min (a + b) 0xffffffffffffffff

/-- `current_futex_key` for an address in an area with this start and data. `translate` is
`translate_addr` on the page of the address. -/
def futexKey (pid : ℕ) (translate : ℕ → Option ℕ) (start : ℕ) (data : Data) (addr : ℕ) :
    Except SyscallError FutexKey :=
  if addr % 4 ≠ 0 then .error .invalidArguments
  else
    let areaOffset := addr - start
    match data with
    | .shared frames _ => .ok (.sharedAnonymous frames.object areaOffset)
    | .file offset _ _ file true =>
      match file.mappingIdentity with
      | some identity =>
        .ok (.sharedFile identity.deviceId identity.inode (saturatingAdd offset areaOffset))
      | none => .ok (.sharedObject file.object (saturatingAdd offset areaOffset))
    | .file _ _ _ _ false => .ok (.processPrivate pid addr)
    | .normal permissions =>
      if permissions.sharedMapping then
        match translate (addr - addr % 4096) with
        | none => .error .badAddress
        | some frame => .ok (.sharedPhysical frame (addr % 4096))
      else .ok (.processPrivate pid addr)

/-- An address resolves to the same page and the same futex key in two areas. -/
def SameBacking (a b : MemoryArea) (addr : ℕ) : Prop :=
  faultBacking a addr = faultBacking b addr ∧
    ∀ pid translate, futexKey pid translate a.start a.data addr =
      futexKey pid translate b.start b.data addr

/-! ## The three cuts -/

/-- The operations that cut areas at a range. -/
inductive CutOp where
  | unmapAreas
  | setLocked (locked : Bool)
  | updatePermissions (protection : Protection)
deriving DecidableEq, Repr
open CutOp

variable (op : CutOp)

/-- What the operation makes of one area. -/
def CutOp.pieces (area : MemoryArea) (start end_ : ℕ) : List MemoryArea :=
  match op with
  | .unmapAreas => area.unmapped start end_
  | .setLocked locked => area.relocked start end_ locked
  | .updatePermissions protection => area.reprotected start end_ protection

/-- What the operation makes of all areas of an address space. -/
def CutOp.exec (s : AreaMap) (start end_ : ℕ) : AreaMap :=
  match op with
  | .unmapAreas => s.unmapAreas start end_
  | .setLocked locked => s.setLocked start end_ locked
  | .updatePermissions protection => s.updatePermissions start end_ protection

/-- The operation keeps the part of an area inside the range. -/
def CutOp.keepsMiddle : Bool :=
  match op with
  | .unmapAreas => false
  | _ => true

/-- The area ends inside a page, and a fault on this page loads bytes of the file. -/
def MemoryArea.LoadsLast (area : MemoryArea) (fileBytes : ℕ) (zeroFill : Bool) : Prop :=
  let last := area.end_ / 4096 * 4096
  area.end_ % 4096 ≠ 0 ∧ area.start ≤ last ∧
    (zeroFill = true ∨ last - area.start < fileBytes) ∧ (last - area.start) / 4096 < area.pages

/-- The condition under which the pieces of an area resolve as the area did. -/
def CutOp.Keeps (area : MemoryArea) (start end_ : ℕ) : Prop :=
  area.apart start end_ ∨
    match area.data with
    | .normal _ => True
    | .shared _ _ =>
      -- No piece may start above the area.
      (op.keepsMiddle = true → start ≤ area.start) ∧ area.end_ ≤ end_
    | .file _ fileBytes zeroFill _ _ =>
      -- A piece that starts on a page has no page for its last bytes, and one that is as long as
      -- the area must not lose file bytes behind its end.
      area.LoadsLast fileBytes zeroFill → area.end_ ≤ end_ ∧
        (op.keepsMiddle = true → start ≤ area.start ∧ fileBytes ≤ area.end_ - area.start)

/-- No offset of a byte of the area in its file overflows. -/
def MemoryArea.Fits (area : MemoryArea) : Prop :=
  match area.data with
  | .file offset _ _ _ _ => offset + (area.end_ - area.start) ≤ 0x10000000000000000
  | _ => True

/-! ## One piece -/

variable {area : MemoryArea} {start addr : ℕ}

section File

variable {offset fileBytes : ℕ} {zeroFill shared : Bool} {file : FileLikeObject}
  (hdata : area.data = .file offset fileBytes zeroFill file shared)

include hdata

/-- What a fault in a file mapping maps. -/
theorem faultBacking_file : faultBacking area addr =
    let page := addr / 4096 * 4096
    if page < area.start ∨ (zeroFill = true ∨ page - area.start < fileBytes) ∧
      (area.pages ≤ (page - area.start) / 4096 ∨
        0x10000000000000000 ≤ offset + (page - area.start)) then none
    else some (.file file (offset + (page - area.start))
      (min 4096 (fileBytes - (page - area.start))) zeroFill shared) := by
  unfold faultBacking faultPanics loadBacking
  rw [hdata]
  grind

/-- A page that lies wholly in a file mapping is loaded. -/
theorem faultBacking_whole (hfits : area.Fits) (hstart : area.start ≤ addr / 4096 * 4096)
    (hend : addr / 4096 * 4096 + 4096 ≤ area.end_) :
    faultBacking area addr = some (.file file (offset + (addr / 4096 * 4096 - area.start))
      (min 4096 (fileBytes - (addr / 4096 * 4096 - area.start))) zeroFill shared) := by
  unfold Fits at hfits
  rw [hdata] at hfits
  rw [faultBacking_file hdata]
  refine if_neg ?_
  unfold pages
  omega

end File

/-- The left piece of an area resolves as the area does: it starts where the area starts, and the
range it ends at starts on a page. -/
theorem sameBacking_left (hfits : area.Fits) (halign : start % 4096 = 0) (hle : start ≤ area.end_)
    (hin : (area.leftPiece start).contains addr = true) :
    SameBacking (area.leftPiece start) area addr := by
  have hin : area.start ≤ addr ∧ addr < start := within_iff.mp hin
  cases hdata : area.data with
  | normal permissions | shared frames flags =>
    unfold SameBacking faultBacking faultPanics leftPiece
    rw [hdata]
    exact ⟨rfl, fun _ _ => rfl⟩
  | file offset fileBytes zeroFill file shared =>
  have hpiece : (area.leftPiece start).data =
      .file offset (min fileBytes (start - area.start)) zeroFill file shared := by
    simp only [leftPiece, hdata, Data.truncated]
  constructor
  · -- The page of the address ends at or below the cut.
    unfold Fits at hfits
    rw [hdata] at hfits
    rw [faultBacking_file hpiece, faultBacking_file hdata]
    unfold pages leftPiece
    grind
  · intro pid translate
    rw [hpiece, hdata]
    cases shared <;> rfl

/-- A piece of an area from `s` to `e`, with the data of the area moved to its start. Apart from the
ends of the area itself, `s` and `e` lie on pages. -/
structure Slice (area piece : MemoryArea) (s e : ℕ) : Prop where
  start_eq : piece.start = s
  end_eq : piece.end_ = e
  data_eq : piece.data = area.data.advanced (s - area.start) (e - s)
  start_le : area.start ≤ s
  lt : s < e
  le_end : e ≤ area.end_
  start_aligned : s = area.start ∨ s % 4096 = 0
  end_aligned : e = area.end_ ∨ e % 4096 = 0

/-- The condition under which one such piece resolves as its area does. -/
def SliceKeeps (area : MemoryArea) (s e : ℕ) : Prop :=
  match area.data with
  | .normal _ => True
  | .shared _ _ => s = area.start
  | .file _ fileBytes zeroFill _ _ => e = area.end_ → area.LoadsLast fileBytes zeroFill →
      s = area.start ∧ fileBytes ≤ area.end_ - area.start

variable {piece : MemoryArea} {s e : ℕ}

section FileSlice

variable {offset fileBytes : ℕ} {zeroFill shared : Bool} {file : FileLikeObject}
  (h : Slice area piece s e) (hdata : area.data = .file offset fileBytes zeroFill file shared)

include h hdata

/-- The data of a piece of a file mapping. -/
theorem Slice.data_file : piece.data = .file (offset + (s - area.start))
    (min (fileBytes - (s - area.start)) (e - s)) zeroFill file shared := by
  rw [h.data_eq, hdata]
  rfl

/-- The last page of an area that ends inside it: the piece that it ends in loads it if the area
does. -/
theorem Slice.last_eq (hkeep : SliceKeeps area s e)
    (hp : s ≤ addr / 4096 * 4096) (hlt : addr < e) (hlast : e < addr / 4096 * 4096 + 4096) :
    faultBacking piece addr = faultBacking area addr := by
  have hstart := h.start_le
  have haligned := h.start_aligned
  -- Only the end of the area itself can lie inside a page.
  have hend : e = area.end_ := h.end_aligned.resolve_right (by omega)
  unfold SliceKeeps LoadsLast at hkeep
  rw [hdata] at hkeep
  rw [faultBacking_file (h.data_file hdata), faultBacking_file hdata]
  unfold pages at hkeep ⊢
  rw [h.start_eq, h.end_eq]
  dsimp only at hkeep ⊢
  rw [show area.end_ / 4096 * 4096 = addr / 4096 * 4096 by omega] at hkeep
  have hdvd : addr / 4096 * 4096 % 4096 = 0 := Nat.mul_mod_left ..
  have hle : addr / 4096 * 4096 ≤ addr := Nat.div_mul_le_self ..
  generalize addr / 4096 * 4096 = page at *
  have hiff : page - s < min (fileBytes - (s - area.start)) (e - s) ↔
      page - area.start < fileBytes := by omega
  simp only [hiff]
  by_cases hloads : zeroFill = true ∨ page - area.start < fileBytes
  · by_cases hpages : (page - area.start) / 4096 < (area.end_ - area.start) / 4096
    · obtain ⟨rfl, hbytes⟩ := hkeep hend ⟨by omega, by omega, hloads, hpages⟩
      have hmin : min fileBytes (area.end_ - area.start) = fileBytes := Nat.min_eq_left hbytes
      rw [hend, Nat.sub_self, Nat.add_zero, Nat.sub_zero, hmin]
    · -- Both panic.
      rw [if_pos (.inr ⟨hloads, .inl (by omega)⟩), if_pos (.inr ⟨hloads, .inl (by omega)⟩)]
  · -- Neither has a byte of the file in this page.
    rw [if_neg (by rintro (hlt | ⟨hl, -⟩) <;> [omega; exact hloads hl]),
      if_neg (by rintro (hlt | ⟨hl, -⟩) <;> [omega; exact hloads hl])]
    congr 2 <;> omega

end FileSlice

/-- A piece resolves as its area does, under the condition. -/
theorem Slice.sameBacking (h : Slice area piece s e) (hfits : area.Fits)
    (hkeep : SliceKeeps area s e) (hin : piece.contains addr = true) :
    SameBacking piece area addr := by
  have hin : piece.start ≤ addr ∧ addr < piece.end_ := within_iff.mp hin
  rw [h.start_eq, h.end_eq] at hin
  have hstart := h.start_le
  have hend := h.le_end
  cases hdata : area.data with
  | normal permissions =>
    unfold SameBacking faultBacking faultPanics
    rw [h.data_eq, hdata]
    exact ⟨rfl, fun _ _ => rfl⟩
  | shared frames flags =>
    unfold SliceKeeps at hkeep
    rw [hdata] at hkeep
    unfold SameBacking faultBacking faultPanics
    rw [h.data_eq, hdata, h.start_eq, show s = area.start from hkeep]
    exact ⟨rfl, fun _ _ => rfl⟩
  | file offset fileBytes zeroFill file shared =>
  have hpiece := h.data_file hdata
  constructor
  · by_cases hp : addr / 4096 * 4096 < s
    · -- Both pages start below their areas.
      have hp' : addr / 4096 * 4096 < area.start := by
        rcases h.start_aligned with heq | haligned <;> omega
      rw [faultBacking_file hpiece, faultBacking_file hdata, h.start_eq]
      exact (if_pos (.inl hp)).trans (if_pos (.inl hp')).symm
    by_cases hlast : e < addr / 4096 * 4096 + 4096
    · exact h.last_eq hdata hkeep (Nat.le_of_not_lt hp) hin.2 hlast
    rw [faultBacking_whole hdata hfits (by omega) (by omega), faultBacking_file hpiece, h.start_eq]
    unfold Fits at hfits
    rw [hdata] at hfits
    unfold pages
    rw [h.start_eq, h.end_eq]
    grind
  intro pid translate
  rw [hpiece, hdata, h.start_eq]
  cases shared with
  | false => rfl
  | true =>
  dsimp only [futexKey]
  rw [show saturatingAdd (offset + (s - area.start)) (addr - s) =
    saturatingAdd offset (addr - area.start) by unfold saturatingAdd; omega]

/-- The condition is needed: the last page of the area tells the piece from the area. -/
theorem Slice.keeps_of_sameBacking (h : Slice area piece s e) (hfits : area.Fits)
    (hsame : ∀ addr, piece.contains addr = true → SameBacking piece area addr) :
    SliceKeeps area s e := by
  have hstart := h.start_le
  have hlt := h.lt
  have hin : ∀ addr, s ≤ addr → addr < e → SameBacking piece area addr := by
    intro addr h1 h2
    refine hsame addr (within_iff.mpr ?_)
    rw [h.start_eq, h.end_eq]
    exact ⟨h1, h2⟩
  unfold SliceKeeps
  cases hdata : area.data with
  | normal permissions => exact trivial
  | shared frames flags =>
    -- The futex key of the first address of the piece has the offset 0.
    rcases h.start_aligned with heq | haligned
    · exact heq
    have hkey := (hin s (Nat.le_refl s) hlt).2 0 (fun _ => none)
    rw [h.start_eq, h.data_eq, hdata] at hkey
    simp only [Data.advanced, futexKey, if_neg (show ¬ s % 4 ≠ 0 by omega), Except.ok.injEq,
      FutexKey.sharedAnonymous.injEq] at hkey
    omega
  | file offset fileBytes zeroFill file shared =>
  rintro hee ⟨hunaligned, hpage, hloads, hpages⟩
  have hlast : (area.end_ - 1) / 4096 * 4096 = area.end_ / 4096 * 4096 := by omega
  have hfault := (hin (area.end_ - 1) (by omega) (by omega)).1
  have hs : s ≤ area.end_ / 4096 * 4096 := by
    rcases h.start_aligned with heq | haligned <;> omega
  have haligned := h.start_aligned
  unfold Fits at hfits
  rw [hdata] at hfits
  rw [faultBacking_file (h.data_file hdata), faultBacking_file hdata, h.start_eq] at hfault
  unfold pages at hfault hpages
  rw [h.start_eq, h.end_eq, hlast] at hfault
  dsimp only at hfault
  grind

/-! ## One area -/

/-- The metadata the operation gives the part of an area inside the range. -/
def CutOp.change (middle : MemoryArea) : MemoryArea :=
  match op with
  | .unmapAreas => middle
  | .setLocked locked => { middle with locked }
  | .updatePermissions protection =>
    { middle with flags := protectionToPageFlags protection, protection }

variable {op : CutOp}

/-- The pieces of a change. -/
theorem CutOp.pieces_eq_recut (h : op.keepsMiddle = true) (end_ : ℕ) :
    op.pieces area start end_ = area.recut start end_ op.change := by
  cases op with
  | unmapAreas => exact absurd h (by decide)
  | setLocked locked => rfl
  | updatePermissions protection => rfl

/-- The other cut is `unmap_areas`. -/
theorem CutOp.eq_unmapAreas (h : ¬ op.keepsMiddle = true) : op = .unmapAreas := by
  cases op with
  | unmapAreas => rfl
  | setLocked locked | updatePermissions protection => exact absurd rfl h

variable {end_ : ℕ}

/-- The pieces of an area that is met. -/
theorem CutOp.mem_pieces (h : ¬ area.apart start end_) : piece ∈ op.pieces area start end_ ↔
      (area.start < start ∧ piece = area.leftPiece start) ∨ (op.keepsMiddle = true ∧
          piece = op.change (area.middlePiece (max area.start start) (min area.end_ end_))) ∨
        (end_ < area.end_ ∧ piece = area.rightPiece end_) := by
  by_cases hm : op.keepsMiddle = true
  · rw [pieces_eq_recut hm, mem_recut h, and_iff_right hm]
  · obtain rfl := eq_unmapAreas hm
    refine (mem_unmapped h).trans ?_
    grind

/-- An area that is not met stays. -/
theorem CutOp.pieces_of_apart (h : area.apart start end_) : op.pieces area start end_ = [area] := by
  by_cases hm : op.keepsMiddle = true
  · rw [pieces_eq_recut hm, recut_of_apart h]
  · obtain rfl := eq_unmapAreas hm
    exact unmapped_of_apart h

/-- The middle piece is a slice. -/
theorem slice_middle (hs : start % 4096 = 0) (he : end_ % 4096 = 0) (h : ¬ area.apart start end_) :
    Slice area (op.change (area.middlePiece (max area.start start) (min area.end_ end_)))
      (max area.start start) (min area.end_ end_) where
  start_eq := by cases op <;> rfl
  end_eq := by cases op <;> rfl
  data_eq := by cases op <;> rfl
  start_le := Nat.le_max_left _ _
  lt := Nat.lt_of_not_le h
  le_end := Nat.min_le_left _ _
  start_aligned := by omega
  end_aligned := by omega

/-- The right piece is a slice. -/
theorem slice_right (he : end_ % 4096 = 0) (h : ¬ area.apart start end_) (hr : end_ < area.end_) :
    Slice area (area.rightPiece end_) end_ area.end_ where
  start_eq := rfl
  end_eq := rfl
  data_eq := rfl
  start_le := by
    have : max area.start start < min area.end_ end_ := Nat.lt_of_not_le h
    omega
  lt := hr
  le_end := Nat.le_refl _
  start_aligned := .inr he
  end_aligned := .inl rfl

/-- When the slices keep their backing. -/
theorem CutOp.keeps_iff_slices (h : ¬ area.apart start end_) : op.Keeps area start end_ ↔
      (op.keepsMiddle = true → SliceKeeps area (max area.start start) (min area.end_ end_)) ∧
      (end_ < area.end_ → SliceKeeps area end_ area.end_) := by
  have hlt : max area.start start < min area.end_ end_ := Nat.lt_of_not_le h
  unfold CutOp.Keeps SliceKeeps
  cases hdata : area.data with
  | normal permissions => simp
  | shared frames flags | file offset fileBytes zeroFill file shared => grind

/-- When the pieces do. -/
theorem CutOp.pieces_sameBacking_iff (hs : start % 4096 = 0) (he : end_ % 4096 = 0)
    (hfits : area.Fits) : (∀ piece ∈ op.pieces area start end_, ∀ addr, piece.contains addr = true →
      SameBacking piece area addr) ↔ op.Keeps area start end_ := by
  by_cases h : area.apart start end_
  · rw [pieces_of_apart h]
    refine iff_of_true ?_ (.inl h)
    intro piece hpiece addr _
    obtain rfl := List.mem_singleton.mp hpiece
    exact ⟨rfl, fun _ _ => rfl⟩
  rw [keeps_iff_slices h]
  constructor
  · intro hsame
    refine ⟨fun hm => ?_, fun hr => ?_⟩
    · exact (slice_middle hs he h).keeps_of_sameBacking hfits
        (hsame _ ((mem_pieces h).mpr (.inr (.inl ⟨hm, rfl⟩))))
    · exact (slice_right he h hr).keeps_of_sameBacking hfits
        (hsame _ ((mem_pieces h).mpr (.inr (.inr ⟨hr, rfl⟩))))
  rintro ⟨hmiddle, hright⟩ piece hpiece addr hin
  rcases (mem_pieces h).mp hpiece with ⟨-, rfl⟩ | ⟨hm, rfl⟩ | ⟨hr, rfl⟩
  · exact sameBacking_left hfits hs (by unfold apart at h; omega) hin
  · exact (slice_middle hs he h).sameBacking hfits (hmiddle hm) hin
  · exact (slice_right he h hr).sameBacking hfits (hright hr) hin

/-! ## All areas of an address space -/

/-- A cut keeps the areas apart. -/
theorem CutOp.exec_separated (op : CutOp) {s : AreaMap} (h : AreasSeparated s.memoryAreas)
    (start end_ : ℕ) : AreasSeparated (op.exec s start end_).memoryAreas := by
  cases op with
  | unmapAreas => exact unmapAreas_separated h
  | setLocked locked => exact setLocked_separated h start end_ locked
  | updatePermissions protection => exact updatePermissions_separated h start end_ protection

/-- The lookup finds the area of an address. -/
theorem getArea_eq_some_iff {s : AreaMap} (h : AreasSeparated s.memoryAreas) :
    (s.getArea addr).1 = some area ↔ area ∈ s.memoryAreas ∧ area.contains addr = true := by
  constructor
  · intro hget
    rw [getArea_eq_find? h] at hget
    grind
  · rintro ⟨hmem, hin⟩
    exact (LookupExact.of_separated h).unique addr area hmem hin

end Seele.Memory
