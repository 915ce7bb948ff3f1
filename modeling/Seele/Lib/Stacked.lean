import Mathlib.Data.List.Sort

/-!
# A sorted table that answers like a stack of layers

Layers are put one on top of another, and the first layer that meets a condition is the answer to a
question. A program may keep the same layers in a table that is sorted by some key and take the
first one there. The two answers agree if of two layers that can both meet a condition the upper one
also sorts first (`Stacked.find?_eq`). `Stacked` is kept when layers are placed on top that sort
before everything they overlap, when the first layer of a kind is taken away in both, and when some
layers are changed and lifted to the top together.
-/

namespace Seele.Lib

open List

variable {α : Type} {r overlap : α → α → Prop}

/-- The table holds the layers in the order `r`, and no layer sorts behind one that it is above of
and overlaps with. -/
structure Stacked (r overlap : α → α → Prop) (layers table : List α) : Prop where
  perm : table.Perm layers
  sorted : table.Pairwise r
  above : layers.Pairwise fun a b => overlap a b → ¬ r b a

/-- Nothing is in an empty table. -/
theorem Stacked.nil : Stacked r overlap [] [] :=
  ⟨.refl _, .nil, .nil⟩

variable {p : α → Bool} {l : List α}

/-- The first layer that meets a condition stands in front of all others that do. -/
theorem split_of_find? {a : α} (h : l.find? p = some a) :
    ∃ front back, l = front ++ a :: back ∧ (∀ b ∈ front, p b = false) ∧ p a = true := by
  obtain ⟨ha, front, back, hl, hfront⟩ := find?_eq_some_iff_append.mp h
  grind

variable {layers table : List α} (h : Stacked r overlap layers table)

include h

/-- New layers on top, each of which sorts before what it overlaps below. -/
theorem Stacked.place {added new table' : List α}
    (hperm : table'.Perm (table ++ added)) (hsorted : table'.Pairwise r) (hnew : added.Perm new)
    (habove : new.Pairwise fun a b => overlap a b → ¬ r b a)
    (hold : ∀ a ∈ new, ∀ b ∈ layers, overlap a b → ¬ r b a) :
    Stacked r overlap (new ++ layers) table' :=
  ⟨(hperm.trans (h.perm.append hnew)).trans perm_append_comm, hsorted,
    pairwise_append.mpr ⟨habove, h.above, hold⟩⟩

variable (hp : ∀ a ∈ layers, ∀ b ∈ layers, p a = true → p b = true → overlap a b)

include hp

/-- The table and the layers have the same first element that meets a condition, if layers that meet
it overlap. -/
theorem Stacked.find?_eq : table.find? p = layers.find? p := by
  cases hlayers : layers.find? p with
  | none => grind [h.perm.mem_iff.mp]
  | some a =>
  obtain ⟨front, back, rfl, hfront, ha⟩ := split_of_find? hlayers
  have hmem : a ∈ front ++ a :: back := mem_append_right _ mem_cons_self
  cases htable : table.find? p with
  | none => exact absurd ha (find?_eq_none.mp htable a (h.perm.mem_iff.mpr hmem))
  | some c =>
  obtain ⟨front', back', rfl, hfront', hc⟩ := split_of_find? htable
  have hcmem : c ∈ front ++ a :: back :=
    h.perm.mem_iff.mp (mem_append_right _ mem_cons_self)
  congr 1
  by_contra hne
  -- `c` is not in front of `a` among the layers, so it is below it and must sort behind it ...
  have hback : c ∈ back := by grind
  have hnot : ¬ r c a :=
    (pairwise_cons.mp (pairwise_append.mp h.above).2.1).1 c hback (hp a hmem c hcmem ha hc)
  -- ... but `a` is not in front of `c` in the table.
  have hback' : a ∈ back' := by grind [h.perm.mem_iff.mpr]
  exact hnot ((pairwise_cons.mp (pairwise_append.mp h.sorted).2.1).1 a hback')

/-- The first layer of a kind is taken away, if layers of that kind overlap. -/
theorem Stacked.remove : Stacked r overlap (layers.eraseP p) (table.eraseP p) := by
  refine ⟨?_, h.sorted.sublist eraseP_sublist, h.above.sublist eraseP_sublist⟩
  have hfind := h.find?_eq hp
  cases hlayers : layers.find? p with
  | none => grind [eraseP_of_forall_not, h.perm]
  | some a =>
  rw [hlayers] at hfind
  obtain ⟨front, back, rfl, hfront, ha⟩ := split_of_find? hlayers
  obtain ⟨front', back', rfl, hfront', -⟩ := split_of_find? hfind
  have hnot : ∀ {l : List α}, (∀ b ∈ l, p b = false) → ∀ b ∈ l, ¬ p b = true := by simp
  rw [eraseP_append_right _ (hnot hfront), eraseP_append_right _ (hnot hfront'),
    eraseP_cons_of_pos ha, eraseP_cons_of_pos ha]
  exact ((perm_middle.symm.trans h.perm).trans perm_middle).cons_inv

omit hp

omit h

/-- Conditions that agree on a list have the same first element there to take away. -/
theorem eraseP_congr {q : α → Bool} (h : ∀ a ∈ l, p a = q a) : l.eraseP p = l.eraseP q := by
  induction l with
  | nil => rfl
  | cons a l ih => grind

/-- Some layers are changed and lifted to the top. Among themselves they overlap and sort as before,
and they sort before the others. -/
theorem Stacked.lift [DecidableRel r] [Std.Total r] [IsTrans α r]
    (h : Stacked r overlap layers table) (p : α → Bool) (f : α → α)
    (hmoved : ∀ a ∈ layers, ∀ b ∈ layers, p a = true → p b = true → overlap (f a) (f b) →
      (overlap a b → ¬ r b a) → ¬ r (f b) (f a))
    (hothers : ∀ a ∈ layers, ∀ b ∈ layers, p a = true → p b = false → overlap (f a) b →
      ¬ r b (f a)) :
    Stacked r overlap ((layers.filter p).map f ++ layers.filter (fun a => !p a))
      ((table.map fun a => if p a then f a else a).insertionSort r) := by
  refine ⟨(perm_insertionSort r _).trans ?_, pairwise_insertionSort r _,
    pairwise_append.mpr ⟨?_, ?_, ?_⟩⟩
  · have hsplit : ∀ l : List α, (l.map fun a => if p a then f a else a).Perm
        ((l.filter p).map f ++ l.filter fun a => !p a) := by
      intro l
      induction l with
      | nil => exact .refl _
      | cons a l ih =>
      cases hpa : p a with
      | true => simpa [hpa] using ih
      | false =>
        simp only [map_cons, hpa, filter_cons]
        exact (ih.cons a).trans perm_middle.symm
    exact (h.perm.map _).trans (hsplit layers)
  · rw [pairwise_map]
    refine (h.above.filter p).imp_of_mem fun {a b} ha hb hab hoverlap => ?_
    grind
  · exact h.above.filter _
  · grind

variable {β : Type} {R : α → β → Prop}

/-- Of two lists that correspond element by element, each element of the second belongs to one of
the first. -/
theorem exists_of_forall₂ {l' : List β} (h : List.Forall₂ R l l')
    {b : β} (hb : b ∈ l') : ∃ a ∈ l, R a b := by
  induction h with
  | nil => exact absurd hb not_mem_nil
  | cons hone _ ih => grind

/-- What holds between the elements of the first, in their order, goes over to the second. -/
theorem pairwise_of_forall₂ {S : α → α → Prop} {T : β → β → Prop}
    (hstep : ∀ a b a' b', R a a' → R b b' → S a b → T a' b') {l' : List β} (h : List.Forall₂ R l l')
    (hl : l.Pairwise S) : l'.Pairwise T := by
  induction h with
  | nil => exact .nil
  | cons hone hrest ih =>
  obtain ⟨hhead, htail⟩ := pairwise_cons.mp hl
  refine pairwise_cons.mpr ⟨fun b' hb' => ?_, ih htail⟩
  obtain ⟨b, hb, hbb'⟩ := exists_of_forall₂ hrest hb'
  exact hstep _ _ _ _ hone hbb' (hhead b hb)

end Seele.Lib
