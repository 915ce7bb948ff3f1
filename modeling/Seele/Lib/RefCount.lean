import Mathlib.Data.Set.Card
import Mathlib.Data.List.Count
import Mathlib.Order.CompletePartialOrder

/-!
# Reference counts with an implicit single owner

A resource has a set of owners and a count that may be absent. A present count is the number of
owners, plus the number of references that are counted but have not been handed to an owner yet, or
have been taken from one (`pending`). An absent count stands for at most one owner, which must be of
an `implicit` kind, or for owners of a `permanent` kind, which are not counted at all. A resource
without owners may keep any count. `RefOk` is that invariant for one resource; the lemmas say what
each change of the owners must do to the count, and when the count tells that the last has gone.
-/

namespace Seele.Lib

open Set

variable {O : Type} {implicit permanent : O → Prop} {owners : Set O} {pending n : ℕ} {o : O}

/-- The count of a resource agrees with its owners. -/
def RefOk (implicit permanent : O → Prop) (owners : Set O) (pending : ℕ) : Option ℕ → Prop
  | some n =>
    (∀ o ∈ owners, ¬ permanent o) ∧
      ((owners.encard + pending = n ∧ 0 < n) ∨ (owners = ∅ ∧ pending = 0))
  | none =>
    pending = 0 ∧ ((∀ o ∈ owners, permanent o) ∨ ∃ o, implicit o ∧ owners = {o})

/-- A resource without owners and without a count. -/
theorem RefOk.unowned : RefOk implicit permanent ∅ 0 none :=
  ⟨rfl, .inl fun _ h => absurd h (notMem_empty _)⟩

/-- If there is an owner or a pending reference, a present count is exact. -/
theorem RefOk.count_eq (h : RefOk implicit permanent owners pending (some n))
    (hne : owners.Nonempty ∨ 0 < pending) : owners.encard + pending = n ∧ 0 < n := by
  rcases h.2 with hexact | ⟨rfl, rfl⟩
  · exact hexact
  · grind [Set.not_nonempty_empty]

/-- An absent count and an owner that is not permanent: it is the only one. -/
theorem RefOk.eq_singleton (h : RefOk implicit permanent owners pending none) (ho : o ∈ owners)
    (hp : ¬ permanent o) : owners = {o} ∧ pending = 0 := by
  obtain ⟨hpend, hall | ⟨o', -, rfl⟩⟩ := h
  · exact absurd (hall o ho) hp
  · grind

variable {c : Option ℕ}

/-- An owner that is neither of an implicit nor of a permanent kind is counted. -/
theorem RefOk.counted (h : RefOk implicit permanent owners pending c)
    (ho : o ∈ owners) (hi : ¬ implicit o) (hp : ¬ permanent o) : ∃ n, c = some n := by
  cases c with
  | some n => exact ⟨n, rfl⟩
  | none =>
    obtain ⟨-, hall | ⟨o', hi', rfl⟩⟩ := h
    · exact absurd (hall o ho) hp
    · grind

/-- A pending reference is counted. -/
theorem RefOk.counted_of_pending (h : RefOk implicit permanent owners pending c)
    (hpend : 0 < pending) : ∃ n, c = some n := by
  cases c with
  | some n => exact ⟨n, rfl⟩
  | none => exact absurd h.1 (Nat.pos_iff_ne_zero.mp hpend)

/-- The first owner of a resource without a count gets the count one. -/
theorem RefOk.first (hp : ¬ permanent o) : RefOk implicit permanent {o} 0 (some 1) := by
  refine ⟨?_, .inl ⟨by simp, Nat.one_pos⟩⟩
  grind

/-- A new reference to a counted resource, not handed to an owner yet. -/
theorem RefOk.reserve (h : RefOk implicit permanent owners pending (some n))
    (hne : owners.Nonempty ∨ 0 < pending) :
    RefOk implicit permanent owners (pending + 1) (some (n + 1)) := by
  obtain ⟨hcount, hpos⟩ := h.count_eq hne
  refine ⟨h.1, .inl ⟨?_, Nat.succ_pos n⟩⟩
  rw [Nat.cast_add, Nat.cast_add, ← add_assoc, hcount]

/-- The first reference to a resource without owners and without a count. -/
theorem RefOk.reserve_first : RefOk implicit permanent ∅ 1 (some 1) :=
  ⟨fun _ h => absurd h (notMem_empty _), .inl ⟨by simp, Nat.one_pos⟩⟩

/-- An owner of a counted resource gives its reference up. -/
theorem RefOk.take_back (h : RefOk implicit permanent owners pending (some n)) (ho : o ∈ owners) :
    RefOk implicit permanent (owners \ {o}) (pending + 1) (some n) := by
  obtain ⟨hcount, hpos⟩ := h.count_eq (.inl ⟨o, ho⟩)
  refine ⟨fun o' ho' => h.1 o' ho'.1, .inl ⟨?_, hpos⟩⟩
  grind [encard_sdiff_singleton_add_one, add_assoc, add_comm]

/-- Owners of a counted resource may be exchanged, as long as their number and the pending
references add up to the same. -/
theorem RefOk.exchange {owners' : Set O} {pending' : ℕ}
    (h : RefOk implicit permanent owners pending (some n)) (hne : owners.Nonempty ∨ 0 < pending)
    (hp : ∀ o ∈ owners', ¬ permanent o)
    (hsum : owners'.encard + pending' = owners.encard + pending) :
    RefOk implicit permanent owners' pending' (some n) := by
  obtain ⟨hcount, hpos⟩ := h.count_eq hne
  exact ⟨hp, .inl ⟨hsum.trans hcount, hpos⟩⟩

variable (h : RefOk implicit permanent owners (pending + 1) (some n))

include h

/-- A pending reference is handed to a new owner. -/
theorem RefOk.hand_over (ho : o ∉ owners) (hp : ¬ permanent o) :
    RefOk implicit permanent (insert o owners) pending (some n) := by
  obtain ⟨hcount, hpos⟩ := h.count_eq (.inr (Nat.succ_pos pending))
  refine ⟨?_, .inl ⟨?_, hpos⟩⟩
  · rintro o' (rfl | ho')
    · exact hp
    · exact h.1 o' ho'
  · grind [encard_insert_of_notMem, add_assoc, add_comm]

/-- The last reference is dropped: a count of one, with a pending reference, means that there is no
owner. -/
theorem RefOk.drop_last (hn : n - 1 = 0) : owners = ∅ ∧ pending = 0 := by
  obtain ⟨hcount, hpos⟩ := h.count_eq (.inr (Nat.succ_pos pending))
  have hone : n = 1 := by omega
  subst hone
  have hpending : pending = 0 := by
    by_contra hne
    have hle : ((pending + 1 : ℕ) : ℕ∞) ≤ (1 : ℕ) := by rw [← hcount]; exact le_add_self
    have := Nat.cast_le.mp hle
    omega
  subst hpending
  refine ⟨?_, rfl⟩
  rw [← encard_eq_zero]
  have hzero : owners.encard + 1 = 0 + 1 := by simpa using hcount
  exact ENat.add_left_injective_of_ne_top ENat.one_ne_top hzero

/-- A reference is dropped that is not the last. -/
theorem RefOk.drop (hn : n - 1 ≠ 0) :
    RefOk implicit permanent owners pending (some (n - 1)) ∧ (owners.Nonempty ∨ 0 < pending) := by
  obtain ⟨hcount, hpos⟩ := h.count_eq (.inr (Nat.succ_pos pending))
  have hsum : owners.encard + pending = (n - 1 : ℕ) := by
    have hn1 : n = n - 1 + 1 := by omega
    rw [hn1, Nat.cast_add, Nat.cast_add, ← add_assoc] at hcount
    exact ENat.add_left_injective_of_ne_top (ENat.natCast_ne_top 1) hcount
  refine ⟨⟨h.1, .inl ⟨hsum, by omega⟩⟩, ?_⟩
  by_contra hnone
  push Not at hnone
  obtain ⟨hempty, hp⟩ := hnone
  have hp0 : pending = 0 := by omega
  rw [hempty, encard_empty, hp0] at hsum
  have : (0 : ℕ) = n - 1 := by exact_mod_cast hsum
  omega

omit h

/-- A count of one and an owner: it is the only one. -/
theorem RefOk.exclusive (h : RefOk implicit permanent owners pending (some 1)) (ho : o ∈ owners) :
    owners = {o} ∧ pending = 0 := by
  have hback := h.take_back ho
  grind [hback.drop_last, insert_sdiff_self_of_mem]

/-- A count of one may be left out if its owner is of an implicit kind. -/
theorem RefOk.uncount (h : RefOk implicit permanent owners pending (some 1)) (ho : o ∈ owners)
    (hi : implicit o) : RefOk implicit permanent owners pending none := by
  obtain ⟨heq, hp⟩ := h.exclusive ho
  exact ⟨hp, .inr ⟨o, hi, heq⟩⟩

/-- A second owner next to one that was not counted: the count starts at two. -/
theorem RefOk.second {o' : O} (h : RefOk implicit permanent owners pending none) (ho : o ∈ owners)
    (hp : ¬ permanent o) (ho' : o' ∉ owners) (hp' : ¬ permanent o') :
    RefOk implicit permanent (insert o' owners) pending (some 2) := by
  obtain ⟨rfl, rfl⟩ := h.eq_singleton ho hp
  refine ⟨?_, .inl ⟨?_, Nat.two_pos⟩⟩
  · grind
  · rw [encard_insert_of_notMem ho', encard_singleton]
    rfl

/-- One more owner of a counted resource. -/
theorem RefOk.another (h : RefOk implicit permanent owners pending (some n)) (hne : owners.Nonempty)
    (ho : o ∉ owners) (hp : ¬ permanent o) :
    RefOk implicit permanent (insert o owners) pending (some (n + 1)) :=
  (h.reserve (.inl hne)).hand_over ho hp

end Seele.Lib
