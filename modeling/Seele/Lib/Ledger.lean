import Mathlib.Logic.Function.Basic
import Seele.Lib.RefCount

/-!
# The books of a pool of resources

A pool has free resources and resources in use, and a count for each of them as in
`Seele.Lib.RefCount`. `Ledger` says that the books are right: every count agrees with the owners,
and what is free has no owner, no count and no second entry among the free ones.

Each lemma is one entry in the books: a resource is taken, gets one more owner, loses one, goes
back. References that are counted but belong to no owner yet, or no longer, are `pending`; a list of
resources can be handed over or taken back as a whole (`positionOwners`).
-/

namespace Seele.Lib

open Function List Set

variable {O R : Type} [DecidableEq R] {implicit permanent : O → Prop} {o : O}

/-- Every count agrees with the owners and the pending references, and the free resources, each of
them listed once, have no owner and no count. -/
structure Ledger (implicit permanent : O → Prop) (owners : R → Set O) (count : R → Option ℕ)
    (free pending : List R) : Prop where
  counts : ∀ r, RefOk implicit permanent (owners r) (pending.count r) (count r)
  unowned : ∀ r ∈ free, owners r = ∅ ∧ count r = none
  nodup : free.Nodup

/-- The resource has an owner, or is free, or a reference to it is pending. -/
def Tracked (owners : R → Set O) (free pending : List R) (r : R) : Prop :=
  (owners r).Nonempty ∨ r ∈ free ∨ r ∈ pending

/-- The counts and the free resources after one counted reference less. -/
def dropOne (count : R → Option ℕ) (free : List R) (r : R) (n : ℕ) : (R → Option ℕ) × List R :=
  if n - 1 = 0 then (update count r none, r :: free) else (update count r (some (n - 1)), free)

variable {owners : R → Set O} {count : R → Option ℕ} {free pending : List R} {r : R}

variable {owners' : R → Set O} {free' pending' : List R}

omit [DecidableEq R] in
/-- A change of one resource that is tracked before and after leaves the same ones tracked. -/
theorem Tracked.change (h : Tracked owners free pending r) (h' : Tracked owners' free' pending' r)
    (howners : ∀ s, s ≠ r → owners' s = owners s) (hfree : ∀ s, s ≠ r → (s ∈ free' ↔ s ∈ free))
    (hpending : ∀ s, s ≠ r → (s ∈ pending' ↔ s ∈ pending)) (s : R) :
    Tracked owners' free' pending' s ↔ Tracked owners free pending s := by
  by_cases hs : s = r
  · rw [hs]
    exact iff_of_true h' h
  · grind [Tracked]

omit [DecidableEq R] in
/-- An entry added in front of a list is no change for the others. -/
theorem mem_cons_iff_of_ne {s : R} {l : List R} (hs : s ≠ r) : s ∈ r :: l ↔ s ∈ l :=
  ⟨fun hmem => (mem_cons.mp hmem).resolve_left hs, mem_cons_of_mem r⟩

variable (h : Ledger implicit permanent owners count free pending)

include h

/-- A free resource has no pending reference. -/
theorem Ledger.notMem_pending (hr : r ∈ free) : r ∉ pending := by
  have hcount := h.counts r
  rw [(h.unowned r hr).2] at hcount
  exact count_eq_zero.mp hcount.1

variable {n : ℕ}

/-- A resource with a count is not free. -/
theorem Ledger.notMem_of_count (hn : count r = some n) : r ∉ free := by
  intro hr
  rw [(h.unowned r hr).2] at hn
  exact absurd hn (by simp)

/-- A resource with an owner is not free. -/
theorem Ledger.notMem_of_owner (ho : o ∈ owners r) : r ∉ free := by grind [h.unowned]

variable {count' : R → Option ℕ}

/-- A change of one resource that is not free afterwards. -/
theorem Ledger.change
    (howners : ∀ s, s ≠ r → owners' s = owners s) (hcount : ∀ s, s ≠ r → count' s = count s)
    (hpending : ∀ s, s ≠ r → pending'.count s = pending.count s)
    (hr : RefOk implicit permanent (owners' r) (pending'.count r) (count' r))
    (hfree : ∀ s ∈ free', s ∈ free) (hnot : r ∉ free') (hnodup : free'.Nodup) :
    Ledger implicit permanent owners' count' free' pending' := by
  constructor
  · intro s
    by_cases hs : s = r
    · rw [hs]
      exact hr
    · grind [h.counts]
  · grind [h.unowned]
  · exact hnodup

/-- Resources are taken from the free ones and forgotten. -/
theorem Ledger.forget
    (hsub : free'.Sublist free) : Ledger implicit permanent owners count free' pending :=
  ⟨h.counts, fun s hs => h.unowned s (hsub.subset hs), h.nodup.sublist hsub⟩

/-- The order of the pending references does not matter. -/
theorem Ledger.perm
    (hperm : pending.Perm pending') : Ledger implicit permanent owners count free pending' :=
  ⟨fun r => by rw [← hperm.count_eq r]; exact h.counts r, h.unowned, h.nodup⟩

/-- Pending references to resources without an owner are given up: their counts stay as they are,
and no one will look at them again. -/
theorem Ledger.abandon
    (hempty : ∀ r ∈ pending, owners r = ∅) : Ledger implicit permanent owners count free [] := by
  refine ⟨fun r => ?_, h.unowned, h.nodup⟩
  by_cases hr : r ∈ pending
  · obtain ⟨n, hn⟩ := (h.counts r).counted_of_pending (count_pos_iff.mpr hr)
    rw [hn, hempty r hr]
    exact ⟨fun _ ho => absurd ho (notMem_empty _), .inr ⟨rfl, rfl⟩⟩
  · have hcount := h.counts r
    rw [count_eq_zero.mpr hr] at hcount
    exact hcount

omit h

/-- A resource is taken from the free ones and counted for an owner to come. -/
theorem Ledger.take (h : Ledger implicit permanent owners count (r :: free) pending) :
    Ledger implicit permanent owners (update count r (some ((count r).getD 0 + 1))) free
      (r :: pending) := by
  obtain ⟨hempty, hnone⟩ := h.unowned r mem_cons_self
  obtain ⟨hnot, hnodup⟩ := nodup_cons.mp h.nodup
  have hpend := count_eq_zero.mpr (h.notMem_pending mem_cons_self)
  refine (h.forget (sublist_cons_self r free)).change (r := r) (fun _ _ => rfl)
    (fun s hs => update_of_ne hs ..) (fun s hs => count_cons_of_ne hs.symm) ?_ (fun _ hs => hs) hnot
    hnodup
  grind [RefOk.reserve_first]

/-- A resource is taken from the free ones and handed to its first owner. -/
theorem Ledger.first (h : Ledger implicit permanent owners count (r :: free) pending)
    (hp : ¬ permanent o) : Ledger implicit permanent (update owners r (insert o (owners r)))
      (update count r (some ((count r).getD 0 + 1))) free pending := by
  obtain ⟨hempty, hnone⟩ := h.unowned r mem_cons_self
  obtain ⟨hnot, hnodup⟩ := nodup_cons.mp h.nodup
  have hpend := count_eq_zero.mpr (h.notMem_pending mem_cons_self)
  refine (h.forget (sublist_cons_self r free)).change (r := r) (fun s hs => update_of_ne hs ..)
    (fun s hs => update_of_ne hs ..) (fun _ _ => rfl) ?_ (fun _ hs => hs) hnot hnodup
  rw [update_self, update_self, hempty, hnone, hpend, LawfulSingleton.insert_empty_eq]
  exact .first hp

variable (h : Ledger implicit permanent owners count free pending)

include h

/-- One more reference to a resource that has a counted owner, for an owner to come. -/
theorem Ledger.reserve (ho : o ∈ owners r) (hi : ¬ implicit o) (hp : ¬ permanent o) :
    Ledger implicit permanent owners (update count r (some ((count r).getD 0 + 1))) free
      (r :: pending) := by
  obtain ⟨n, hn⟩ := (h.counts r).counted ho hi hp
  refine h.change (r := r) (fun _ _ => rfl) (fun s hs => update_of_ne hs ..)
    (fun s hs => count_cons_of_ne hs.symm) ?_ (fun _ hs => hs) (h.notMem_of_count hn) h.nodup
  have hr := h.counts r
  rw [hn] at hr
  rw [update_self, count_cons_self, hn]
  exact hr.reserve (.inl ⟨o, ho⟩)

/-- One more owner of a resource that has a counted owner. -/
theorem Ledger.another {o' : O}
    (ho : o ∈ owners r) (hi : ¬ implicit o) (hp : ¬ permanent o) (ho' : o' ∉ owners r)
    (hp' : ¬ permanent o') : Ledger implicit permanent (update owners r (insert o' (owners r)))
      (update count r (some ((count r).getD 0 + 1))) free pending := by
  obtain ⟨n, hn⟩ := (h.counts r).counted ho hi hp
  have hnot := h.notMem_of_count hn
  refine h.change (r := r) (fun s hs => update_of_ne hs ..) (fun s hs => update_of_ne hs ..)
    (fun _ _ => rfl) ?_ (fun _ hs => hs) hnot h.nodup
  have hr := h.counts r
  rw [hn] at hr
  rw [update_self, update_self, hn]
  exact hr.another ⟨o, ho⟩ ho' hp'

/-- A resource that has lost its last owner goes back to the free ones. -/
theorem Ledger.handBack
    (howners : ∀ s, s ≠ r → owners' s = owners s) (hcount : ∀ s, s ≠ r → count' s = count s)
    (hpending : ∀ s, s ≠ r → pending'.count s = pending.count s) (hempty : owners' r = ∅)
    (hnone : count' r = none) (hpend : pending'.count r = 0) (hnot : r ∉ free) :
    Ledger implicit permanent owners' count' (r :: free) pending' := by
  constructor
  · intro s
    by_cases hs : s = r
    · rw [hs, hempty, hnone, hpend]
      exact .unowned
    · grind [h.counts]
  · grind [h.unowned]
  · exact nodup_cons.mpr ⟨hnot, h.nodup⟩

omit h

/-- A pending reference is dropped. The resource is free afterwards if it was the last, and else it
still has an owner or a pending reference. -/
theorem Ledger.drop (h : Ledger implicit permanent owners count free (r :: pending))
    (hn : count r = some n) :
    Ledger implicit permanent owners (dropOne count free r n).1 (dropOne count free r n).2 pending ∧
      ∀ s, Tracked owners (dropOne count free r n).2 pending s ↔
        Tracked owners free (r :: pending) s := by
  have hr := h.counts r
  rw [hn, count_cons_self] at hr
  have hnot := h.notMem_of_count hn
  have hother : ∀ s, s ≠ r → pending.count s = (r :: pending).count s :=
    fun s hs => (count_cons_of_ne hs.symm).symm
  have htracked : Tracked owners free (r :: pending) r := .inr (.inr mem_cons_self)
  have hrest : ∀ s, s ≠ r → (s ∈ pending ↔ s ∈ r :: pending) :=
    fun s hs => (mem_cons_iff_of_ne hs).symm
  unfold dropOne
  by_cases hlast : n - 1 = 0
  · obtain ⟨hempty, hpend⟩ := hr.drop_last hlast
    rw [if_pos hlast]
    constructor
    · exact h.handBack (fun _ _ => rfl) (fun s hs => update_of_ne hs ..) hother hempty
        (update_self ..) hpend hnot
    · exact htracked.change (.inr (.inl mem_cons_self)) (fun _ _ => rfl)
        (fun s hs => mem_cons_iff_of_ne hs) hrest
  obtain ⟨hok, hleft⟩ := hr.drop hlast
  rw [if_neg hlast]
  constructor
  · refine h.change (r := r) (fun _ _ => rfl) (fun s hs => update_of_ne hs ..) hother ?_
      (fun _ hs => hs) hnot h.nodup
    grind
  refine htracked.change ?_ (fun _ _ => rfl) (fun _ _ => .rfl) hrest
  rcases hleft with hne | hpos
  · exact .inl hne
  · exact .inr (.inr (count_pos_iff.mp hpos))

variable (h : Ledger implicit permanent owners count free pending)

include h

/-- An owner gives up its counted reference. -/
theorem Ledger.takeBack (ho : o ∈ owners r) (hn : count r = some n) :
    Ledger implicit permanent (update owners r (owners r \ {o})) count free (r :: pending) := by
  have hr := h.counts r
  rw [hn] at hr
  have hnot := h.notMem_of_count hn
  refine h.change (r := r) (fun s hs => update_of_ne hs ..) (fun _ _ => rfl)
    (fun s hs => count_cons_of_ne hs.symm) ?_ (fun _ hs => hs) hnot h.nodup
  grind [hr.take_back]

/-- The only owner of a resource without a count gives it up, and the resource goes back. -/
theorem Ledger.giveBack (ho : o ∈ owners r) (hp : ¬ permanent o) (hn : count r = none) :
    Ledger implicit permanent (update owners r (owners r \ {o})) count (r :: free) pending := by
  have hr := h.counts r
  rw [hn] at hr
  obtain ⟨hsingle, hpend⟩ := hr.eq_singleton ho hp
  have hempty : owners r \ {o} = ∅ := by rw [hsingle, sdiff_self]
  have hnot := h.notMem_of_owner ho
  exact h.handBack (fun s hs => update_of_ne hs ..) (fun _ _ => rfl) (fun _ _ => rfl)
    (by rw [update_self, hempty]) hn hpend hnot

/-- The only owner of a resource, if it is of an implicit kind, may do without the count. -/
theorem Ledger.uncount (ho : o ∈ owners r)
    (hi : implicit o) (hone : count r = none ∨ count r = some 1) :
    Ledger implicit permanent owners (update count r none) free pending := by
  have hr := h.counts r
  have hnot := h.notMem_of_owner ho
  refine h.change (r := r) (fun _ _ => rfl) (fun s hs => update_of_ne hs ..) (fun _ _ => rfl) ?_
    (fun _ hs => hs) hnot h.nodup
  rw [update_self]
  rcases hone with hnone | hsome
  · rw [hnone] at hr
    exact hr
  · rw [hsome] at hr
    exact hr.uncount ho hi

/-- A resource with an owner gets a second one: a missing count stood for the first. -/
theorem Ledger.share {o' : O}
    (ho : o ∈ owners r) (hp : ¬ permanent o) (ho' : o' ∉ owners r) (hp' : ¬ permanent o') :
    Ledger implicit permanent (update owners r (insert o' (owners r)))
      (update count r (some ((count r).getD 0 + if (count r).isSome then 1 else 2))) free
      pending := by
  have hr := h.counts r
  have hnot := h.notMem_of_owner ho
  refine h.change (r := r) (fun s hs => update_of_ne hs ..) (fun s hs => update_of_ne hs ..)
    (fun _ _ => rfl) ?_ (fun _ hs => hs) hnot h.nodup
  rw [update_self, update_self]
  cases hn : count r with
  | none =>
    rw [hn] at hr
    exact hr.second ho hp ho' hp'
  | some n =>
    rw [hn] at hr
    exact hr.another ⟨o, ho⟩ ho' hp'

omit h

/-- The positions of a list at which a resource stands are as many as it occurs. -/
theorem encard_positions (l : List R) (r : R) : {i : ℕ | l[i]? = some r}.encard = l.count r := by
  induction l with
  | nil => simp
  | cons a l ih =>
  have hsplit : {i : ℕ | (a :: l)[i]? = some r} =
      {i : ℕ | i = 0 ∧ a = r} ∪ Nat.succ '' {i : ℕ | l[i]? = some r} := by
    ext i
    cases i with
    | zero => simp
    | succ i => simp
  have hdisjoint : Disjoint {i : ℕ | i = 0 ∧ a = r} (.succ '' {i : ℕ | l[i]? = some r}) := by
    simp [Set.disjoint_left]
  rw [hsplit, Set.encard_union_eq hdisjoint, Nat.succ_injective.encard_image, ih]
  by_cases ha : a = r
  · simp [ha, add_comm]
  · simp [ha]

/-- The owners that a list makes of its positions: position `i` owns the resource that stands
there. -/
def positionOwners (name : ℕ → O) (l : List R) (r : R) : Set O :=
  name '' {i : ℕ | l[i]? = some r}

section Positions

variable {name : ℕ → O} {l : List R} {owners' : R → Set O} (hname : name.Injective)
  (howners : ∀ r, owners' r = owners r ∪ positionOwners name l r)
  (hdisjoint : ∀ r, Disjoint (owners r) (positionOwners name l r))
include hname howners hdisjoint

/-- As many owners more as the resource occurs in the list. -/
theorem encard_add_positions (r : R) : (owners' r).encard = (owners r).encard + l.count r := by
  rw [howners r, encard_union_eq (hdisjoint r), positionOwners, hname.encard_image,
    encard_positions]

omit hname hdisjoint [DecidableEq R] in
/-- A resource that is not in the list keeps its owners. -/
theorem owners_of_notMem (hr : r ∉ l) : owners' r = owners r := by
  have hnone : {i : ℕ | l[i]? = some r} = ∅ := by grind
  rw [howners r, positionOwners, hnone, image_empty, union_empty]

omit hname hdisjoint [DecidableEq R] in
/-- References that belong to the positions of a list are tracked as pending ones are. -/
theorem tracked_positions (r : R) :
    Tracked owners' free pending r ↔ Tracked owners free (l ++ pending) r := by
  have hpositions : (positionOwners name l r).Nonempty ↔ r ∈ l := by
    unfold positionOwners
    rw [image_nonempty]
    exact mem_iff_getElem?.symm
  grind [Tracked, union_nonempty]

/-- The pending references of a list of resources are handed to the positions of the list. -/
theorem Ledger.handOverAll (h : Ledger implicit permanent owners count free (l ++ pending))
    (hp : ∀ i, ¬ permanent (name i)) : Ledger implicit permanent owners' count free pending := by
  refine ⟨fun r => ?_, fun r hr => ?_, h.nodup⟩
  · by_cases hr : r ∈ l
    · have hpos : 0 < (l ++ pending).count r :=
        count_pos_iff.mpr (mem_append_left pending hr)
      obtain ⟨n, hn⟩ := (h.counts r).counted_of_pending hpos
      have hok := h.counts r
      rw [hn] at hok ⊢
      refine hok.exchange (.inr hpos) ?_ ?_
      · intro o ho
        rw [howners r] at ho
        rcases ho with ho | ⟨i, -, rfl⟩
        · exact hok.1 o ho
        · exact hp i
      · rw [encard_add_positions hname howners hdisjoint r, count_append, Nat.cast_add, add_assoc]
    have hok := h.counts r
    rw [count_append, count_eq_zero.mpr hr, zero_add] at hok
    rw [owners_of_notMem howners hr]
    exact hok
  · have hnot := h.notMem_pending hr
    rw [owners_of_notMem howners fun hl => hnot (mem_append_left pending hl)]
    exact h.unowned r hr

/-- The positions of a list give their references up. -/
theorem Ledger.takeBackAll (h : Ledger implicit permanent owners' count free pending)
    (hi : ∀ i, ¬ implicit (name i)) (hp : ∀ i, ¬ permanent (name i)) :
    Ledger implicit permanent owners count free (l ++ pending) := by
  refine ⟨fun r => ?_, fun r hr => ?_, h.nodup⟩
  · by_cases hr : r ∈ l
    · obtain ⟨i, hget⟩ := mem_iff_getElem?.mp hr
      have ho : name i ∈ owners' r := by
        rw [howners r]
        exact .inr ⟨i, hget, rfl⟩
      obtain ⟨n, hn⟩ := (h.counts r).counted ho (hi i) (hp i)
      have hok := h.counts r
      rw [hn] at hok ⊢
      refine hok.exchange (.inl ⟨name i, ho⟩) ?_ ?_
      · intro o ho
        refine hok.1 o ?_
        rw [howners r]
        exact .inl ho
      · rw [encard_add_positions hname howners hdisjoint r, count_append, Nat.cast_add, add_assoc]
    · rw [count_append, count_eq_zero.mpr hr, zero_add, ← owners_of_notMem howners hr]
      exact h.counts r
  · grind [h.unowned]

omit hname hdisjoint in
/-- The positions of a list become permanent owners of resources that no one else has. They are not
counted. -/
theorem Ledger.adoptAll (h : Ledger implicit permanent owners count free pending)
    (hp : ∀ i, permanent (name i)) (hnew : ∀ r ∈ l, owners r = ∅ ∧ count r = none)
    (hfree : ∀ r ∈ l, r ∉ free) : Ledger implicit permanent owners' count free pending := by
  refine ⟨fun r => ?_, fun r hr => ?_, h.nodup⟩
  · by_cases hr : r ∈ l
    · obtain ⟨hempty, hnone⟩ := hnew r hr
      have hok := h.counts r
      rw [hnone] at hok ⊢
      refine ⟨hok.1, .inl fun o ho => ?_⟩
      rw [howners r, hempty, empty_union] at ho
      obtain ⟨i, -, rfl⟩ := ho
      exact hp i
    · rw [owners_of_notMem howners hr]
      exact h.counts r
  · rw [owners_of_notMem howners fun hl => hfree r hl hr]
    exact h.unowned r hr

end Positions

end Seele.Lib
