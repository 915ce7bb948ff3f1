import Seele.Lib.GuardedRun
import Seele.Memory.AreaMap

/-!
# The areas stay sorted and disjoint

Every lookup of an address space is a binary search of `memory_areas`, so it finds the area of an
address only while the areas are sorted and disjoint, which is `Separated`. Each operation has one
lemma that says it keeps `Separated`.

Stack growth is the exception. It checks that no area starts *below* the faulting page and ends near
it, but an area that starts inside that page passes the check. Unmapping a range that does not end
on a page leaves such areas. `AreaOp.Safe` rules them out for the step that grows the stack; along
every run whose steps are safe the lookup is exact (`run_lookup_exact`), and
`growth_over_partial_page` is a run in which it is not.
-/

namespace Seele.Memory

open Seele.Lib AreaMap MemoryArea List Option

/-- The areas are not empty, and each ends at or before the start of the later ones. -/
abbrev AreasSeparated (areas : List MemoryArea) : Prop :=
  Separated start end_ areas

/-! ## Cutting -/

variable {area : MemoryArea} {start end_ : ℕ} {piece : MemoryArea}

/-- A piece lies in its area. -/
theorem unmapped_inside (h : piece ∈ area.unmapped start end_) :
    area.start ≤ piece.start ∧ piece.end_ ≤ area.end_ := by
  by_cases hap : area.apart start end_
  · grind [unmapped_of_apart]
  have hlt : max area.start start < min area.end_ end_ := Nat.lt_of_not_le hap
  rcases (mem_unmapped hap).mp h with ⟨hl, rfl⟩ | ⟨hr, rfl⟩
  · exact ⟨Nat.le_refl _, show start ≤ area.end_ by omega⟩
  · exact ⟨show area.start ≤ end_ by omega, Nat.le_refl _⟩

/-- A piece lies outside of the range. -/
theorem unmapped_outside (hproper : area.start < area.end_)
    (hrange : start < end_) (h : piece ∈ area.unmapped start end_) :
    piece.end_ ≤ start ∨ end_ ≤ piece.start := by
  by_cases hap : area.apart start end_
  · rw [unmapped_of_apart hap, mem_singleton] at h
    subst h
    have : min piece.end_ end_ ≤ max piece.start start := hap
    omega
  · rcases (mem_unmapped hap).mp h with ⟨-, rfl⟩ | ⟨-, rfl⟩
    · exact .inl (Nat.le_refl start)
    · exact .inr (Nat.le_refl end_)

/-- One area alone. -/
theorem separated_singleton (h : area.start < area.end_) : AreasSeparated [area] :=
  ⟨by simpa using h, pairwise_singleton _ _⟩

/-- The left piece, if there is one. -/
theorem separated_left :
    AreasSeparated (if area.start < start then [area.leftPiece start] else []) := by
  split_ifs with h
  · exact separated_singleton h
  · exact .nil

/-- The right piece, if there is one. -/
theorem separated_right :
    AreasSeparated (if end_ < area.end_ then [area.rightPiece end_] else []) := by
  split_ifs with h
  · exact separated_singleton h
  · exact .nil

/-- The pieces lie apart. -/
theorem separated_unmapped (hproper : area.start < area.end_) :
    AreasSeparated (area.unmapped start end_) := by
  by_cases hap : area.apart start end_
  · rw [unmapped_of_apart hap]
    exact separated_singleton hproper
  have hlt : max area.start start < min area.end_ end_ := Nat.lt_of_not_le hap
  unfold unmapped
  simp only [Nat.not_le.mpr hlt]
  refine .append separated_left separated_right ?_
  intro a ha b hb
  obtain ⟨-, ha⟩ := mem_ite_nil_right.mp ha
  obtain ⟨-, hb⟩ := mem_ite_nil_right.mp hb
  obtain rfl := mem_singleton.mp ha
  obtain rfl := mem_singleton.mp hb
  exact Nat.le_of_lt hlt

variable {change : MemoryArea → MemoryArea}

/-- A recut piece lies in its area. -/
theorem recut_inside (hstart : ∀ a, (change a).start = a.start)
    (hend : ∀ a, (change a).end_ = a.end_) (h : piece ∈ area.recut start end_ change) :
    area.start ≤ piece.start ∧ piece.end_ ≤ area.end_ := by
  by_cases hap : area.apart start end_
  · grind [recut_of_apart]
  have hlt : max area.start start < min area.end_ end_ := Nat.lt_of_not_le hap
  rcases (mem_recut hap).mp h with ⟨hl, rfl⟩ | rfl | ⟨hr, rfl⟩
  · exact ⟨Nat.le_refl _, show start ≤ area.end_ by omega⟩
  · rw [hstart, hend]
    exact ⟨Nat.le_max_left _ _, Nat.min_le_left _ _⟩
  · exact ⟨show area.start ≤ end_ by omega, Nat.le_refl _⟩

/-- Recut pieces lie apart. -/
theorem separated_recut (hproper : area.start < area.end_)
    (hstart : ∀ a, (change a).start = a.start)
    (hend : ∀ a, (change a).end_ = a.end_) : AreasSeparated (area.recut start end_ change) := by
  by_cases hap : area.apart start end_
  · rw [recut_of_apart hap]
    exact separated_singleton hproper
  have hlt : max area.start start < min area.end_ end_ := Nat.lt_of_not_le hap
  rw [recut_of_meets hap]
  generalize hm : change (area.middlePiece (max area.start start) (min area.end_ end_)) = middle
  have hms : middle.start = max area.start start := by rw [← hm, hstart]; rfl
  have hme : middle.end_ = min area.end_ end_ := by rw [← hm, hend]; rfl
  have hmiddle : AreasSeparated [middle] := separated_singleton (by omega)
  have hrest : AreasSeparated
      ([middle] ++ if end_ < area.end_ then [area.rightPiece end_] else []) := by
    refine hmiddle.append separated_right ?_
    intro a ha b hb
    obtain rfl := mem_singleton.mp ha
    obtain ⟨hr, hb⟩ := mem_ite_nil_right.mp hb
    obtain rfl := mem_singleton.mp hb
    show a.end_ ≤ end_
    omega
  refine separated_left.append hrest ?_
  intro a ha b hb
  obtain ⟨hl, ha⟩ := mem_ite_nil_right.mp ha
  obtain rfl := mem_singleton.mp ha
  show start ≤ b.start
  rcases mem_cons.mp hb with rfl | hb
  · omega
  obtain ⟨hr, hb⟩ := mem_ite_nil_right.mp hb
  obtain rfl := mem_singleton.mp hb
  show start ≤ end_
  omega

/-! ## The operations keep the areas separated -/

variable {s : AreaMap}

/-- `unmap_areas` keeps the areas apart. -/
theorem AreaMap.unmapAreas_separated (h : AreasSeparated s.memoryAreas) :
    AreasSeparated (s.unmapAreas start end_).memoryAreas :=
  h.flatMap (fun area harea => separated_unmapped (h.proper area harea))
    (fun _ _ _ hpiece => unmapped_inside hpiece)

variable {areas : List MemoryArea}

/-- Recutting keeps them apart. -/
theorem recut_separated (h : AreasSeparated areas)
    (hstart : ∀ a, (change a).start = a.start) (hend : ∀ a, (change a).end_ = a.end_) :
    AreasSeparated (areas.flatMap fun area => area.recut start end_ change) :=
  h.flatMap (fun area harea => separated_recut (h.proper area harea) hstart hend)
    (fun _ _ _ hpiece => recut_inside hstart hend hpiece)

variable (h : AreasSeparated s.memoryAreas)

include h

/-- `set_locked` keeps them apart. -/
theorem AreaMap.setLocked_separated (start end_ : ℕ)
    (locked : Bool) : AreasSeparated (s.setLocked start end_ locked).memoryAreas := by
  unfold setLocked
  split_ifs with hrange
  · exact h
  · exact recut_separated h (fun _ => rfl) (fun _ => rfl)

/-- `update_permissions` keeps them apart. -/
theorem AreaMap.updatePermissions_separated (start end_ : ℕ) (protection : Protection) :
    AreasSeparated (s.updatePermissions start end_ protection).memoryAreas := by
  unfold updatePermissions
  split_ifs with hrange
  · exact h
  · exact recut_separated h (fun _ => rfl) (fun _ => rfl)

/-- What stays lies outside of the range. -/
theorem AreaMap.unmapAreas_outside (hrange : start < end_) :
    ∀ a ∈ (s.unmapAreas start end_).memoryAreas, a.end_ ≤ start ∨ end_ ≤ a.start := by
  intro a ha
  obtain ⟨area, harea, hpiece⟩ := mem_flatMap.mp ha
  exact unmapped_outside (h.proper area harea) hrange hpiece

/-- A registered area lies apart from the rest. -/
theorem AreaMap.registerArea_separated
    (hproper : area.start < area.end_) : AreasSeparated (s.registerArea area).memoryAreas :=
  (unmapAreas_separated h).insert hproper (unmapAreas_outside h hproper)

variable {s' : AreaMap}

/-- `try_unmap` keeps the areas apart. -/
theorem AreaMap.tryUnmap_separated {len : ℕ}
    {flushed : Bool} (hrun : s.tryUnmap start len flushed = some s') :
    AreasSeparated s'.memoryAreas := by
  unfold tryUnmap at hrun
  by_cases hlen : len = 0
  · grind
  · rw [if_neg hlen] at hrun
    obtain ⟨end_, -, hrun⟩ := bind_eq_some_iff.mp hrun
    grind [unmapAreas_separated]

omit h

/-- A range is free if no area meets it. -/
theorem mappingOverlaps_eq_false :
    mappingOverlaps areas start end_ = false ↔ ∀ a ∈ areas, end_ ≤ a.start ∨ a.end_ ≤ start := by
  unfold mappingOverlaps
  grind

variable {i : ℕ}

/-- One area is replaced. -/
theorem modify_eq_set {f : MemoryArea → MemoryArea} (h : areas[i]? = some area) :
    areas.modify i f = areas.set i (f area) := by
  rw [modify_eq_set_getElem?, h]
  rfl

/-- The index found is that of an area. -/
theorem findIdx?_spec {p : MemoryArea → Bool} (h : areas.findIdx? p = some i) :
    ∃ area, areas[i]? = some area ∧ p area = true := by
  obtain ⟨hi, hp, -⟩ := findIdx?_eq_some_iff_getElem.mp h
  exact ⟨areas[i], getElem?_eq_getElem hi, hp⟩

/-- A valid address is kept as it is. -/
theorem eq_of_virtAddr {n m : ℕ} (h : virtAddr n = some m) : m = n := by
  unfold virtAddr at h
  split_ifs at h <;> exact (some.inj h).symm

variable {addr : ℕ}

variable {info : FileLikeObject → Option ℕ} {oldAddr oldPages newPages : ℕ}

/-- An extension in place, of an area that covers the pages it is asked to extend, keeps the areas
separated. -/
theorem AreaMap.extendInPlace_separated (h : AreasSeparated s.memoryAreas) {done : Bool}
    (hmem : area ∈ s.memoryAreas) (hstart : area.start = oldAddr)
    (hcovers : areaCoversRange area oldAddr oldPages = some true) (hgrow : oldPages < newPages)
    (hrun : s.extendInPlace info oldAddr oldPages newPages = some (done, s')) :
    AreasSeparated s'.memoryAreas := by
  obtain ⟨oldEnd, hold, hrun⟩ := bind_eq_some_iff.mp hrun
  obtain ⟨newEnd, hnew, hrun⟩ := bind_eq_some_iff.mp hrun
  obtain ⟨checked, hchecked, hrun⟩ := bind_eq_some_iff.mp hrun
  by_cases hfree : (checked.isOk && !mappingOverlaps s.memoryAreas oldEnd newEnd) = true
  swap
  · grind
  rw [if_pos hfree] at hrun
  cases hfind : s.memoryAreas.findIdx? fun existing => decide (existing.start = oldAddr) with
  | none => grind
  | some index =>
  simp only [hfind] at hrun
  cases hrun
  obtain ⟨found, hget, hfound⟩ := findIdx?_spec hfind
  rw [Bool.and_eq_true, Bool.not_eq_true', mappingOverlaps_eq_false] at hfree
  obtain ⟨hok, hfree⟩ := hfree
  have hold := eq_of_virtAddr hold
  have hnew := eq_of_virtAddr hnew
  have hfstart : found.start = oldAddr := of_decide_eq_true hfound
  -- The area found by its start is the one that covers the old pages: both contain `oldAddr`.
  have hsame : area = found := by
    obtain ⟨j, hj, rfl⟩ := getElem_of_mem hmem
    have hp := h.proper _ (getElem_mem hj)
    have hq := h.proper found (mem_of_getElem? hget)
    have hidx := h.index_unique (getElem?_eq_getElem hj) hget
      (within_iff.mpr ⟨Nat.le_of_eq hstart, by omega⟩)
      (within_iff.mpr ⟨Nat.le_of_eq hfstart, by omega⟩)
    grind
  subst hsame
  have hcov : oldEnd ≤ area.end_ := by
    unfold areaCoversRange at hcovers
    grind
  have hend : area.end_ ≤ oldEnd := by
    have := hfree area hmem
    omega
  rw [modify_eq_set hget]
  refine h.set hget (Nat.le_refl _) (show area.end_ ≤ newEnd by omega) ?_
  intro j other hj hother
  have hfreeOther := hfree other (mem_of_getElem? hother)
  rcases Nat.lt_or_gt_of_ne hj with hlt | hgt
  · exact .inl (show other.end_ ≤ area.start from h.le_of_lt hlt hother hget)
  · have := h.le_of_lt hgt hget hother
    have := h.proper other (mem_of_getElem? hother)
    exact .inr (show newEnd ≤ other.start by omega)

/-! ## Looking an area up -/

/-- A scan finds the one area of an address. -/
theorem find?_of_separated (h : AreasSeparated areas) (hget : areas[i]? = some area)
    (hin : area.contains addr = true) : areas.find? (·.contains addr) = some area := by
  cases hfind : areas.find? (·.contains addr) with
  | none => grind
  | some found =>
  have hfound := find?_some hfind
  obtain ⟨j, hj, hjget⟩ := getElem_of_mem (mem_of_find?_eq_some hfind)
  have hjget : areas[j]? = some found := by rw [← hjget]; exact getElem?_eq_getElem hj
  have hij : j = i := h.index_unique hjget hget hfound hin
  rw [hij, hget] at hjget
  exact hjget.symm

/-- The area returned contains the address. -/
theorem AreaMap.getArea_sound (h : (s.getArea addr).1 = some area) :
    area ∈ s.memoryAreas ∧ area.contains addr = true := by
  unfold getArea at h
  cases hcached : s.cachedArea addr with
  | some found => grind [cachedArea]
  | none =>
  rw [hcached] at h
  dsimp only at h
  cases hsearch : search start end_ s.memoryAreas addr 0
      s.memoryAreas.length s.memoryAreas.length with
  | none => simp [hsearch] at h
  | some mid =>
  obtain ⟨found, hget, hin⟩ := search_sound hsearch
  rw [hsearch] at h
  dsimp only at h
  rw [hget] at h
  cases h
  exact ⟨mem_of_getElem? hget, hin⟩

/-- The lookup returns what a scan finds. -/
theorem AreaMap.getArea_eq_find? (h : AreasSeparated s.memoryAreas) (addr : ℕ) :
    (s.getArea addr).1 = s.memoryAreas.find? (·.contains addr) := by
  unfold getArea
  cases hcached : s.cachedArea addr with
  | some area =>
    unfold cachedArea at hcached
    cases hlast : s.lastAreaIndex with
    | none => simp [hlast] at hcached
    | some index =>
      rw [hlast] at hcached
      obtain ⟨hget, hin⟩ := filter_eq_some_iff.mp hcached
      exact (find?_of_separated h hget hin).symm
  | none =>
  dsimp only
  cases hsearch : search start end_ s.memoryAreas addr 0
      s.memoryAreas.length s.memoryAreas.length with
  | some mid =>
    obtain ⟨area, hget, hin⟩ := search_sound hsearch
    dsimp only
    rw [hget, find?_of_separated h hget hin]
  | none =>
  rw [h.search_eq_findIdx?] at hsearch
  symm
  rw [find?_eq_none]
  intro area harea hin
  have hnone := findIdx?_eq_none_iff.mp hsearch area harea
  rw [show within start end_ addr area = area.contains addr from rfl, hin] at hnone
  exact absurd hnone (by decide)

/-- An extension in place keeps the areas apart. -/
theorem AreaMap.mremapExtend_separated (h : AreasSeparated s.memoryAreas)
    (hrun : s.mremapExtend info oldAddr oldPages newPages = some s') :
    AreasSeparated s'.memoryAreas := by
  have hareas := s.getArea_memoryAreas oldAddr
  have hlookup := getArea_eq_find? h oldAddr
  unfold mremapExtend at hrun
  generalize s.getArea oldAddr = found at hareas hlookup hrun
  obtain ⟨_ | area, t⟩ := found
  · grind
  obtain ⟨covers, hcovers, hrun⟩ := bind_eq_some_iff.mp hrun
  by_cases hguard : covers = true ∧ area.start = oldAddr ∧ oldPages < newPages
  · rw [if_pos hguard] at hrun
    obtain ⟨⟨done, u⟩, hextend, hrun⟩ := bind_eq_some_iff.mp hrun
    grind [extendInPlace_separated]
  · grind

/-! ## Stack growth -/

/-- If a stack grows into the faulting page, no area starts in that page. -/
def AreaMap.GrowthRoom (s : AreaMap) (faultPageStart : ℕ) : Prop :=
  (s.growStack faultPageStart).1.isSome → ∀ other ∈ s.memoryAreas,
    other.start < faultPageStart ∨ faultPageStart + 4096 ≤ other.start

instance (s : AreaMap) (faultPageStart : ℕ) : Decidable (s.GrowthRoom faultPageStart) := by
  unfold GrowthRoom
  infer_instance

/-- A stack that grows into a page in which no area starts meets no other area: the guard check has
looked at those that start below the page. -/
theorem AreaMap.growStack_separated (h : AreasSeparated s.memoryAreas) {page : ℕ}
    (hroom : s.GrowthRoom page) : AreasSeparated (s.growStack page).2.memoryAreas := by
  unfold GrowthRoom at hroom
  unfold growStack at hroom ⊢
  cases hfind : s.memoryAreas.findIdx? (growsInto page) with
  | none => exact h
  | some index =>
  obtain ⟨area, hget, hgrows⟩ := findIdx?_spec hfind
  rw [hfind] at hroom
  dsimp only at hroom ⊢
  split_ifs with hblocked
  · exact h
  rw [if_neg hblocked, modify_eq_set hget] at hroom
  have hlength : index < s.memoryAreas.length := (List.getElem?_eq_some_iff.mp hget).1
  have hroom := hroom (by rw [getElem?_set_self hlength]; rfl)
  unfold growsInto at hgrows
  simp only [Bool.and_eq_true, decide_eq_true_eq] at hgrows
  rw [Bool.not_eq_true] at hblocked
  rw [modify_eq_set hget]
  refine h.set hget (show page ≤ area.start by omega) (Nat.le_refl _) ?_
  intro j other hj hother
  have hproper := h.proper other (mem_of_getElem? hother)
  rcases Nat.lt_or_gt_of_ne hj with hlt | hgt
  · -- An earlier area starts below the page, so the guard check has looked at it.
    have hle := h.le_of_lt hlt hother hget
    have hstart := hroom other (mem_of_getElem? hother)
    have hfree := any_eq_false.mp hblocked (other, j) (mem_zipIdx_iff_getElem?.mpr hother)
    simp only [Bool.and_eq_true, decide_eq_true_eq] at hfree
    left
    show other.end_ ≤ page
    omega
  · exact .inr (show area.end_ ≤ other.start from h.le_of_lt hgt hget hother)

/-- Only the areas count. -/
theorem AreaMap.GrowthRoom.congr {t : AreaMap} {page : ℕ} (hroom : s.GrowthRoom page)
    (hareas : t.memoryAreas = s.memoryAreas) : t.GrowthRoom page := by
  have hgrown : (t.growStack page).1 = (s.growStack page).1 := by
    unfold growStack
    rw [hareas]
    cases s.memoryAreas.findIdx? (growsInto page) with
    | none => rfl
    | some index =>
      dsimp only
      split_ifs <;> rfl
  unfold GrowthRoom
  rw [hgrown, hareas]
  exact hroom

/-- A fault with room to grow keeps them apart. -/
theorem AreaMap.faultArea_separated (h : AreasSeparated s.memoryAreas) {address : ℕ}
    (hroom : s.memoryAreas.find? (·.contains address) = none → s.GrowthRoom (address / 4096 * 4096))
    : AreasSeparated (s.faultArea address).2.memoryAreas := by
  have hareas := s.getArea_memoryAreas address
  have hlookup := getArea_eq_find? h address
  unfold faultArea
  generalize s.getArea address = found at hareas hlookup
  obtain ⟨_ | area, t⟩ := found
  · exact growStack_separated (hareas ▸ h) ((hroom hlookup.symm).congr hareas)
  · exact hareas ▸ h

/-- A stack grows by one page, or nothing changes. -/
theorem AreaMap.growStack_cases (s : AreaMap) (page : ℕ) : s.growStack page = (none, s) ∨
      ∃ index area, s.memoryAreas[index]? = some area ∧ page + 4096 = area.start ∧
        (s.growStack page).2.memoryAreas = s.memoryAreas.set index { area with start := page } ∧
        (s.growStack page).1 = some { area with start := page } := by
  unfold growStack
  cases hfind : s.memoryAreas.findIdx? (growsInto page) with
  | none => exact .inl rfl
  | some index =>
    obtain ⟨area, hget, hgrows⟩ := findIdx?_spec hfind
    unfold growsInto at hgrows
    grind [modify_eq_set]

/-- What the lookup of a fault does to the areas and returns: nothing is changed and the area of the
address is returned, if there is one; or a stack has grown by the page of the address. -/
theorem AreaMap.faultArea_cases (s : AreaMap) (address : ℕ) :
    ((s.faultArea address).2.memoryAreas = s.memoryAreas ∧
        ∀ area, (s.faultArea address).1 = some area →
          area ∈ s.memoryAreas ∧ area.contains address = true) ∨
      ∃ index area, s.memoryAreas[index]? = some area ∧ address / 4096 * 4096 + 4096 = area.start ∧
        (s.faultArea address).2.memoryAreas =
          s.memoryAreas.set index { area with start := address / 4096 * 4096 } ∧
        (s.faultArea address).1 = some { area with start := address / 4096 * 4096 } := by
  have hareas := s.getArea_memoryAreas address
  have hsound : ∀ area, (s.getArea address).1 = some area →
      area ∈ s.memoryAreas ∧ area.contains address = true := fun _ => getArea_sound
  unfold faultArea
  generalize s.getArea address = found at hareas hsound
  obtain ⟨_ | area, s'⟩ := found
  · dsimp only at hareas ⊢
    grind [s'.growStack_cases]
  · exact .inl ⟨hareas, hsound⟩

/-! ## Runs -/

/-- The operations on the areas of an address space. -/
inductive AreaOp where
  /-- `get_area(addr)`, which moves the cached index. -/
  | getArea (addr : ℕ)
  | registerArea (area : MemoryArea)
  /-- `try_unmap(start, len)`; `flushed` says whether writing the shared files back succeeds. -/
  | tryUnmap (start len : ℕ) (flushed : Bool)
  | setLocked (start end_ : ℕ) (locked : Bool)
  | updatePermissions (start end_ : ℕ) (protection : Protection)
  /-- The part of `Mremap` that looks the old mapping up and extends it in place. -/
  | mremapExtend (info : FileLikeObject → Option ℕ) (oldAddr oldPages newPages : ℕ)
  /-- The lookup of a page fault that is not a protection violation. -/
  | fault (address : ℕ)

open AreaOp

/-- The areas after an operation; `none` if the kernel panics. -/
def AreaOp.exec (op : AreaOp) (s : AreaMap) : Option AreaMap :=
  match op with
  | .getArea addr => some (s.getArea addr).2
  | .registerArea area => some (s.registerArea area)
  | .tryUnmap start len flushed => s.tryUnmap start len flushed
  | .setLocked start end_ locked => some (s.setLocked start end_ locked)
  | .updatePermissions start end_ protection => some (s.updatePermissions start end_ protection)
  | .mremapExtend info oldAddr oldPages newPages =>
    s.mremapExtend info oldAddr oldPages newPages
  | .fault address => some (s.faultArea address).2

/-- The condition on an operation: a registered area is not empty, and when a stack grows no other
area starts in the page it grows into. -/
def AreaOp.Safe (op : AreaOp) (s : AreaMap) : Prop :=
  match op with
  | .registerArea area => area.start < area.end_
  | .fault address =>
    s.memoryAreas.find? (·.contains address) = none → s.GrowthRoom (address / 4096 * 4096)
  | _ => True

instance AreaOp.Safe.decidable (op : AreaOp) (s : AreaMap) : Decidable (op.Safe s) :=
  match op with
  | .registerArea area => inferInstanceAs (Decidable (area.start < area.end_))
  | .fault address => inferInstanceAs (Decidable (_ = none → s.GrowthRoom (address / 4096 * 4096)))
  | .getArea _ | .tryUnmap .. | .setLocked .. | .updatePermissions .. | .mremapExtend .. =>
    .isTrue trivial

/-- Every safe operation keeps them apart. -/
theorem AreaOp.exec_separated (op : AreaOp) (s s' : AreaMap) (hsafe : op.Safe s)
    (hrun : op.exec s = some s') (h : AreasSeparated s.memoryAreas) :
    AreasSeparated s'.memoryAreas := by
  cases op with
  | getArea addr =>
    cases hrun
    rw [s.getArea_memoryAreas]
    exact h
  | registerArea area =>
    cases hrun
    exact registerArea_separated h hsafe
  | tryUnmap start len flushed => exact tryUnmap_separated h hrun
  | setLocked start end_ locked =>
    cases hrun
    exact setLocked_separated h start end_ locked
  | updatePermissions start end_ protection =>
    cases hrun
    exact updatePermissions_separated h start end_ protection
  | mremapExtend info oldAddr oldPages newPages => exact mremapExtend_separated h hrun
  | fault address =>
    cases hrun
    exact faultArea_separated h hsafe

/-- The areas are sorted strictly by their starts and pairwise disjoint, and `get_area` returns what
a scan of all areas finds, which is the only area that contains the address. -/
structure LookupExact (s : AreaMap) : Prop where
  sorted : s.memoryAreas.Pairwise fun a b => a.start < b.start
  disjoint : s.memoryAreas.Pairwise fun a b => ∀ addr, ¬ (a.contains addr ∧ b.contains addr)
  getArea : ∀ addr, (s.getArea addr).1 = s.memoryAreas.find? (·.contains addr)
  unique : ∀ addr, ∀ a ∈ s.memoryAreas, a.contains addr → (s.getArea addr).1 = some a

/-- With the areas apart the lookup is exact. -/
theorem LookupExact.of_separated (h : AreasSeparated s.memoryAreas) : LookupExact s where
  sorted := by
    refine h.ordered.imp_of_mem fun {a b} ha _ hab => ?_
    exact Nat.lt_of_lt_of_le (h.proper a ha) hab
  disjoint := by
    refine h.ordered.imp fun {a b} hab addr hboth => ?_
    have ha := within_iff.mp hboth.1
    have hb := within_iff.mp hboth.2
    omega
  getArea := getArea_eq_find? h
  unique := by
    intro addr a ha hin
    obtain ⟨i, hi, hget⟩ := getElem_of_mem ha
    have hget : s.memoryAreas[i]? = some a := by rw [← hget]; exact getElem?_eq_getElem hi
    rw [getArea_eq_find? h, find?_of_separated h hget hin]

/-- In every state that a run of safe operations reaches from an empty address space, the areas are
sorted and disjoint and the lookup is exact. -/
theorem run_lookup_exact (ops : List AreaOp) (s : AreaMap)
    (hsafe : SafeRun exec AreaOp.Safe ops default)
    (hrun : runOps exec ops default = some s) : LookupExact s :=
  .of_separated
    (hsafe.invariant (I := fun s => AreasSeparated s.memoryAreas) exec_separated .nil hrun)

/-- A private anonymous area of `pages` pages that can be read and written. -/
def anonArea (start pages : ℕ) (growsDown : Bool) : MemoryArea :=
  { new start pages (protectionToPageFlags ⟨true, true, false⟩) ⟨true, true, false⟩
      (.normal ⟨none, false⟩) true with growsDown }

/-- A stack that grows, a mapping that is cut by an `munmap` and an `mprotect`, and an extension. -/
theorem run_lookup_exact_stack :
    let ops := [.registerArea (anonArea 0x500000 4 true), .registerArea (anonArea 0x100000 8 false),
      .fault 0x4ff123, .tryUnmap 0x102000 0x1000 true,
      .updatePermissions 0x104000 0x105000 ⟨true, false, false⟩, .getArea 0x104800,
      .mremapExtend (fun _ => none) 0x105000 3 5]
    ∃ s, runOps exec ops default = some s ∧ s.memoryAreas.map (fun a => (a.start, a.end_)) =
        [(0x100000, 0x102000), (0x103000, 0x104000), (0x104000, 0x105000), (0x105000, 0x10a000),
          (0x4ff000, 0x504000)] ∧
      LookupExact s := by
  intro ops
  obtain ⟨s, hs⟩ : ∃ s, runOps exec ops default = some s :=
    isSome_iff_exists.mp (by decide +kernel)
  have hareas : (runOps exec ops default).map
      (fun s => s.memoryAreas.map fun a => (a.start, a.end_)) =
        some [(0x100000, 0x102000), (0x103000, 0x104000), (0x104000, 0x105000),
          (0x105000, 0x10a000), (0x4ff000, 0x504000)] := by decide +kernel
  rw [hs] at hareas
  exact ⟨s, hs, some.inj hareas, run_lookup_exact ops s (by decide +kernel) hs⟩

/-- A mapping of one page is shrunk to its first 256 bytes, a stack is registered right above the
page, and the stack faults in the page. -/
def growthOps : List AreaOp :=
  [.registerArea (anonArea 0x100000 1 false), .tryUnmap 0x100100 0xf00 true,
    .registerArea (anonArea 0x101000 1 true), .fault 0x100800]

/-- The stack takes the whole page: both areas start at the same address and contain its first 256
bytes, and the lookup returns the stack there, while a scan finds the older mapping. -/
theorem growth_over_partial_page : ∃ s, runOps exec growthOps default = some s ∧
      s.memoryAreas.map (fun a => (a.start, a.end_)) =
        [(0x100000, 0x100100), (0x100000, 0x102000)] ∧
      (s.getArea 0x100000).1 ≠ s.memoryAreas.find? (·.contains 0x100000) := by
  have hareas : (runOps exec growthOps default).map
      (fun s => (s.memoryAreas.map (fun a => (a.start, a.end_)),
        decide ((s.getArea 0x100000).1 = s.memoryAreas.find? (·.contains 0x100000)))) =
        some ([(0x100000, 0x100100), (0x100000, 0x102000)], false) := by decide +kernel
  obtain ⟨s, hs, hpair⟩ := map_eq_some_iff.mp hareas
  grind

end Seele.Memory
