import Mathlib.Data.List.Pairwise
import Mathlib.Data.List.Basic
import Mathlib.Order.Basic

/-!
# Ordered lists of disjoint intervals

A list of records, each with a half-open interval `[lo a, hi a)`, is `Separated` if no interval is
empty and each one ends at or before the start of every later one. So a point decides on which side
of an interval the record that contains it can lie, which makes the binary search `search` agree
with a scan of the whole list (`search_eq_findIdx?`). The other lemmas say which edits keep a list
separated: cutting each record into pieces, inserting a record into a gap, and growing one in place.
-/

namespace Seele.Lib

open List

variable {α : Type} {lo hi : α → ℕ}

/-- The intervals of the list are not empty, and each ends before the later ones start. -/
structure Separated (lo hi : α → ℕ) (l : List α) : Prop where
  /-- No interval is empty. -/
  proper : ∀ a ∈ l, lo a < hi a
  /-- An earlier interval ends at or before the start of a later one. -/
  ordered : l.Pairwise fun a b => hi a ≤ lo b

/-- The point lies in the interval of the record. -/
def within (lo hi : α → ℕ) (x : ℕ) (a : α) : Bool :=
  decide (lo a ≤ x) && decide (x < hi a)

variable {x : ℕ} {a : α}

/-- The test is that of the bounds. -/
theorem within_iff : within lo hi x a = true ↔ lo a ≤ x ∧ x < hi a := by simp [within]

/-! ## Binary search -/

/-- The binary search for the record that contains `x` among the indices from `left` up to but not
including `right`. The last argument bounds the number of rounds. -/
def search (lo hi : α → ℕ) (l : List α) (x : ℕ) : ℕ → ℕ → ℕ → Option ℕ
  | _, _, 0 => none
  | left, right, fuel + 1 =>
    if left < right then
      let mid := left + (right - left) / 2
      match l[mid]? with
      | none => none
      | some a =>
        if x < lo a then search lo hi l x left mid fuel
        else if hi a ≤ x then search lo hi l x (mid + 1) right fuel
        else some mid
    else none

variable {l : List α} {i : ℕ} {fuel left right j : ℕ}

/-- Whatever the list, a record the search finds contains the point. -/
theorem search_sound (h : search lo hi l x left right fuel = some i) :
    ∃ a, l[i]? = some a ∧ within lo hi x a = true := by
  induction fuel generalizing left right with
  | zero => simp [search] at h
  | succ fuel ih =>
    unfold search at h
    grind [within_iff.mpr]

variable {b : α} (h : Separated lo hi l)

include h

/-- Of two records at different places, the earlier one ends before the later one starts. -/
theorem Separated.le_of_lt (hij : i < j) (ha : l[i]? = some a)
    (hb : l[j]? = some b) : hi a ≤ lo b := by
  grind [pairwise_iff_getElem.mp, h.ordered]

/-- At most one place of a separated list contains a point. -/
theorem Separated.index_unique (ha : l[i]? = some a)
    (hb : l[j]? = some b) (hxa : within lo hi x a = true) (hxb : within lo hi x b = true) :
    i = j := by
  have hxa := within_iff.mp hxa
  have hxb := within_iff.mp hxb
  rcases Nat.lt_trichotomy i j with hij | rfl | hij
  · have := h.le_of_lt hij ha hb
    omega
  · rfl
  · have := h.le_of_lt hij hb ha
    omega

/-- In a separated list the search finds a record that contains the point, if one lies in the range
it is given and it has a round for every index of the range. -/
theorem Separated.search_complete (hfuel : right - left ≤ fuel) (hright : right ≤ l.length)
    (hleft : left ≤ i) (hi' : i < right) (ha : l[i]? = some a) (hx : within lo hi x a = true) :
    search lo hi l x left right fuel = some i := by
  have hxa := within_iff.mp hx
  induction fuel generalizing left right with
  | zero => omega
  | succ fuel ih =>
  have hlt : left < right := by omega
  have hmid : left + (right - left) / 2 < l.length := by omega
  unfold search
  rw [if_pos hlt]
  simp only [getElem?_eq_getElem hmid]
  generalize hm : left + (right - left) / 2 = mid at hmid
  have hmidget : l[mid]? = some l[mid] := getElem?_eq_getElem hmid
  have hbound := h.proper l[mid] (getElem_mem hmid)
  -- The order of the list decides in which half the record lies.
  by_cases h1 : x < lo l[mid]
  · rw [if_pos h1]
    have hne : i < mid := by
      rcases Nat.lt_trichotomy i mid with hlt' | rfl | hgt
      · exact hlt'
      · grind
      · have := h.le_of_lt hgt hmidget ha
        omega
    exact ih (by omega) (by omega) hleft hne
  rw [if_neg h1]
  by_cases h2 : hi l[mid] ≤ x
  · rw [if_pos h2]
    have hne : mid < i := by
      rcases Nat.lt_trichotomy i mid with hlt' | rfl | hgt
      · have := h.le_of_lt hlt' ha hmidget
        omega
      · grind
      · exact hgt
    exact ih (by omega) hright hne hi'
  · grind [within_iff.mpr, h.index_unique]

/-- The binary search of a separated list finds what a scan from its start finds. -/
theorem Separated.search_eq_findIdx? :
    search lo hi l x 0 l.length l.length = l.findIdx? (within lo hi x) := by
  cases hf : l.findIdx? (within lo hi x) with
  | some i =>
    obtain ⟨hi', hx, -⟩ := findIdx?_eq_some_iff_getElem.mp hf
    exact h.search_complete (Nat.sub_le _ _) (Nat.le_refl _) (Nat.zero_le i) hi'
      (getElem?_eq_getElem hi') hx
  | none =>
  rw [Option.eq_none_iff_forall_ne_some]
  intro i hs
  obtain ⟨a, ha, hx⟩ := search_sound hs
  have hnone := findIdx?_eq_none_iff.mp hf a (mem_of_getElem? ha)
  rw [hx] at hnone
  exact absurd hnone (by decide)

omit h

/-! ## Edits that keep a list separated -/

/-- The empty list is separated. -/
theorem Separated.nil : Separated lo hi ([] : List α) :=
  ⟨by simp, .nil⟩

/-- Two lists one after the other are separated if each of them is, and the first ends before the
second starts. -/
theorem Separated.append {m : List α} (hl : Separated lo hi l) (hm : Separated lo hi m)
    (h : ∀ a ∈ l, ∀ b ∈ m, hi a ≤ lo b) : Separated lo hi (l ++ m) := by
  refine ⟨fun a ha => ?_, pairwise_append.mpr ⟨hl.ordered, hm.ordered, h⟩⟩
  rcases mem_append.mp ha with ha | ha
  · exact hl.proper a ha
  · exact hm.proper a ha

variable (h : Separated lo hi l)

include h

/-- Cutting every record into separated pieces that lie inside it keeps the list separated. -/
theorem Separated.flatMap {g : α → List α}
    (hg : ∀ a ∈ l, Separated lo hi (g a)) (hin : ∀ a ∈ l, ∀ b ∈ g a, lo a ≤ lo b ∧ hi b ≤ hi a) :
    Separated lo hi (l.flatMap g) := by
  induction l with
  | nil => exact .nil
  | cons a l ih =>
  have hrest : Separated lo hi l :=
    ⟨fun b hb => h.proper b (mem_cons_of_mem a hb), h.ordered.of_cons⟩
  refine (hg a mem_cons_self).append (ih hrest (fun b hb => hg b (mem_cons_of_mem a hb))
      (fun b hb => hin b (mem_cons_of_mem a hb))) ?_
  grind [rel_of_pairwise_cons, h.ordered]

/-- Inserting a record that is disjoint from all the others in front of the first one that does not
start below it. -/
theorem Separated.insert (hb : lo b < hi b)
    (hdisj : ∀ a ∈ l, hi a ≤ lo b ∨ hi b ≤ lo a) :
    Separated lo hi (l.takeWhile (fun a => decide (lo a < lo b)) ++
      b :: l.dropWhile (fun a => decide (lo a < lo b))) := by
  induction l with
  | nil => exact ⟨by simpa using hb, by simp⟩
  | cons a l ih =>
  have hrest : Separated lo hi l :=
    ⟨fun c hc => h.proper c (mem_cons_of_mem a hc), h.ordered.of_cons⟩
  have hdisj' : ∀ c ∈ l, hi c ≤ lo b ∨ hi b ≤ lo c :=
    fun c hc => hdisj c (mem_cons_of_mem a hc)
  have ha := h.proper a mem_cons_self
  by_cases hlt : lo a < lo b
  · rw [takeWhile_cons_of_pos (by simpa using hlt),
      dropWhile_cons_of_pos (by simpa using hlt), cons_append]
    have hih := ih hrest hdisj'
    refine ⟨?_, pairwise_cons.mpr ⟨?_, hih.ordered⟩⟩
    · intro c hc
      rcases mem_cons.mp hc with rfl | hc
      · exact ha
      · exact hih.proper c hc
    intro c hc
    rcases mem_append.mp hc with hc | hc
    · exact rel_of_pairwise_cons h.ordered (takeWhile_subset _ hc)
    · grind [rel_of_pairwise_cons, h.ordered, dropWhile_subset]
  rw [takeWhile_cons_of_neg (by simpa using hlt),
    dropWhile_cons_of_neg (by simpa using hlt), nil_append]
  refine ⟨?_, pairwise_cons.mpr ⟨?_, h.ordered⟩⟩
  · intro c hc
    rcases mem_cons.mp hc with rfl | hc
    · exact hb
    · exact h.proper c hc
  · grind [rel_of_pairwise_cons, h.ordered]

/-- Growing one record in place keeps the list separated if it grows into none of the others. -/
theorem Separated.set (ha : l[i]? = some a) (hlo : lo b ≤ lo a)
    (hhi : hi a ≤ hi b) (hdisj : ∀ j c, j ≠ i → l[j]? = some c → hi c ≤ lo b ∨ hi b ≤ lo c) :
    Separated lo hi (l.set i b) := by
  have hproper : lo a < hi a := h.proper a (mem_of_getElem? ha)
  refine ⟨?_, ?_⟩
  · intro c hc
    rcases mem_or_eq_of_mem_set hc with hc | rfl
    · exact h.proper c hc
    · omega
  rw [pairwise_iff_getElem]
  intro j k hj hk hjk
  rw [length_set] at hj hk
  have hjget := getElem?_eq_getElem hj
  have hkget := getElem?_eq_getElem hk
  have hjk' := h.le_of_lt hjk hjget hkget
  have hj' := h.proper l[j] (getElem_mem hj)
  have hk' := h.proper l[k] (getElem_mem hk)
  rw [getElem_set, getElem_set]
  by_cases hij : i = j
  · grind
  rw [if_neg hij]
  by_cases hik : i = k
  · grind
  · rw [if_neg hik]
    exact hjk'

omit h

end Seele.Lib
