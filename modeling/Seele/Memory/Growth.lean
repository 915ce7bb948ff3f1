import Seele.Memory.Backing

/-!
# Growing a mapping of a file

`Mremap` makes a mapping longer in place, and counts the bytes of the file again, or it moves the
mapping and keeps the count that the area has. `growth_agrees_iff` says when a fault on a page finds
the same in both.
-/

namespace Seele.Memory

open MemoryArea

variable (area : MemoryArea)

/-- `remapped_area_data`. -/
def remappedAreaData (offset pages : ℕ) : Except SyscallError Data :=
  match area.data with
  | .normal permissions => .ok (.normal permissions)
  | .file fileOffset fileBytes zeroFill file shared =>
    .ok (.file (fileOffset + offset) (min (fileBytes - offset) (pages * 4096)) zeroFill file shared)
  | .shared .. => .error .invalidArguments

/-- The area that `Mremap` registers for a mapping that it moves, with `MREMAP_FIXED` or without. -/
def movedArea (areaOffset newStart newPages : ℕ) (fixed : Bool) :
    Except SyscallError MemoryArea :=
  (remappedAreaData area areaOffset newPages).map fun data =>
    { new newStart newPages area.flags area.protection data area.lazy with
      locked := area.locked
      growsDown := fixed && area.growsDown }

/-- What a page shows: nothing if the fault is a `SIGBUS`. The bytes behind those of the file are
zeros, whether the area says so or not. -/
def Backing.view : Backing → Option Backing
  | .file object offset bytes zeroFill shared =>
    if bytes = 0 ∧ zeroFill = false then none else some (.file object offset bytes true shared)
  | backing => some backing

/-- What the page with this index shows. -/
def MemoryArea.pageView (page : ℕ) : Option Backing :=
  (loadBacking area.start area.data (area.start + page * 4096)).bind Backing.view

variable {area : MemoryArea} {offset fileBytes page : ℕ} {zeroFill shared : Bool}
  {file : FileLikeObject}

/-- The pages of a file area. -/
theorem MemoryArea.pageView_file (hdata : area.data = .file offset fileBytes zeroFill file shared)
    (halign : area.start % 4096 = 0) : area.pageView page =
      Backing.view (.file file (offset + page * 4096)
        (min 4096 (fileBytes - page * 4096)) zeroFill shared) := by
  have hpage : (area.start + page * 4096) / 4096 * 4096 = area.start + page * 4096 := by omega
  unfold pageView loadBacking
  simp only [hdata, hpage, Nat.not_lt.mpr (Nat.le_add_right ..), if_false, Nat.add_sub_cancel_left,
    Option.bind_some]

/-- A page shows the same for two counts of bytes if both give it the same bytes and, where they
give none, neither is filled with zeros. -/
theorem view_eq_iff {bytes bytes' : ℕ} : Backing.view (.file file offset bytes false shared) =
      Backing.view (.file file offset bytes' zeroFill shared) ↔
    bytes = bytes' ∧ (zeroFill = true → bytes ≠ 0) := by
  unfold Backing.view
  cases zeroFill <;> grind

/-- Growing in place and moving give the same view of the file if the area counts the bytes that the
file has now, up to the new end, and no page that it fills with zeros lies behind them. -/
theorem growth_agrees_iff {newPages newStart newEnd : ℕ} {moved : MemoryArea} {fixed : Bool}
    (info : FileLikeObject → Option ℕ)
    (hdata : area.data = .file offset fileBytes zeroFill file shared)
    (halign : area.start % 4096 = 0) (hnew : newStart % 4096 = 0) (hpages : 0 < newPages)
    (hmoved : movedArea area 0 newStart newPages fixed = .ok moved) :
    (∀ page < newPages, (area.extended info newEnd newPages).pageView page = moved.pageView page) ↔
    min ((info file).getD 0 - offset) (newPages * 4096) = min fileBytes (newPages * 4096) ∧
      (zeroFill = true → (newPages - 1) * 4096 < fileBytes) := by
  have hplace : (area.extended info newEnd newPages).data =
      .file offset (min ((info file).getD 0 - offset) (newPages * 4096)) false file shared := by
    unfold extended mmapData
    rw [hdata]
    cases hsize : info file with
    | none | some size => simp [hsize]
  have hcopy : moved.start = newStart ∧ moved.data = .file offset
      (min fileBytes (newPages * 4096)) zeroFill file shared := by
    unfold movedArea remappedAreaData at hmoved
    rw [hdata] at hmoved
    cases hmoved
    exact ⟨rfl, rfl⟩
  simp only [pageView_file hplace halign,
    pageView_file hcopy.2 (hcopy.1 ▸ hnew), view_eq_iff]
  generalize (info file).getD 0 - offset = now
  constructor
  · intro h
    constructor
    · -- the page where the shorter count ends tells the counts apart
      by_contra hne
      have hpage := h (min now fileBytes / 4096) (by omega)
      omega
    intro hfill
    obtain ⟨hbytes, hsome⟩ := h (newPages - 1) (by omega)
    have hlast := hsome hfill
    omega
  rintro ⟨heq, hfill⟩ page hpage
  refine ⟨by rw [heq], fun hz => ?_⟩
  have hbytes := hfill hz
  omega

/-- A mapping of the first page of a file. -/
def firstPage : MemoryArea :=
  .new 0x10000 1 .empty ⟨true, false, false⟩ (.file 0 4096 false ⟨1, none⟩ false) true

/-- The file has one page: both show the same. -/
theorem growth_agrees_iff_short_file : ∃ moved,
    movedArea firstPage 0 0x20000 2 false = .ok moved ∧ ∀ page < 2,
      (firstPage.extended (fun _ => some 4096) 0x12000 2).pageView page = moved.pageView page :=
  ⟨_, rfl, (growth_agrees_iff (fun _ => some 4096) rfl rfl rfl (by decide) rfl).mpr (by decide)⟩

/-- The file has two pages. Grown in place, the mapping shows the second one; moved, it does not. -/
theorem moved_mapping_lacks_page : (firstPage.extended (fun _ => some 8192) 0x12000 2).pageView 1 =
      some (.file ⟨1, none⟩ 4096 4096 true false) ∧
    (movedArea firstPage 0 0x20000 2 false).toOption.bind (·.pageView 1) = none := by
  decide +kernel

end Seele.Memory
