import Mathlib.Data.List.Basic
import Mathlib.Data.List.Infix
import Mathlib.Data.List.Nodup

/-!
# Trees of names, kept twice

A tree of names is kept in two ways at once: a map from lists of names to nodes, and in every node
that is a directory the list of the names in it. `NameTree.Consistent` says that both describe the
same tree, and that a directory has one place only.

The changes are a new name in a directory (`Consistent.add`), a name taken out of a directory
(`Consistent.remove`), a name that moves with everything below it (`Consistent.move`), and nodes
without a place that go (`Consistent.drop`). Each is
given by the equations between the maps before and after, so that any representation of the two maps
will do.
-/

namespace Seele.Lib

open List

variable {ν ι : Type}

/-- The two maps. A node that is no directory has no list of entries. -/
structure NameTree (ν ι : Type) where
  locate : List ν → Option ι
  entries : ι → Option (List ν)

namespace NameTree

/-- The two maps describe one tree. -/
structure Consistent (t : NameTree ν ι) : Prop where
  /-- The root is a directory. -/
  root : ∃ i es, t.locate [] = some i ∧ t.entries i = some es
  /-- Whatever has a place below the root is an entry of the directory above. -/
  placed : ∀ {ns n i}, t.locate (ns ++ [n]) = some i →
    ∃ d es, t.locate ns = some d ∧ t.entries d = some es ∧ n ∈ es
  /-- Every entry of a directory has its place. -/
  listed : ∀ {ns d es n}, t.locate ns = some d → t.entries d = some es → n ∈ es →
    ∃ i, t.locate (ns ++ [n]) = some i
  /-- A directory has one place. -/
  once : ∀ {ns ms d es}, t.locate ns = some d → t.locate ms = some d → t.entries d = some es →
    ns = ms
  /-- No name is in a directory twice. -/
  nodup : ∀ {d es}, t.entries d = some es → es.Nodup

variable {t t' : NameTree ν ι} {ns : List ν} (h : t.Consistent)

include h

/-- What something stands in is a directory. -/
theorem Consistent.above :
    ∀ {suffix : List ν} {i : ι}, suffix ≠ [] → t.locate (ns ++ suffix) = some i →
      ∃ d es, t.locate ns = some d ∧ t.entries d = some es := by
  intro suffix
  induction suffix using reverseRecOn with
  | nil => exact fun hne => absurd rfl hne
  | append_singleton suffix n ih =>
  intro i _ hi
  rw [← append_assoc] at hi
  obtain ⟨d, es, hd, hes, -⟩ := h.placed hi
  by_cases hnil : suffix = []
  · grind
  · exact ih hnil hd

/-- Below a free place there is nothing. -/
theorem Consistent.none_below {ms : List ν} (hns : t.locate ns = none)
    (hms : ns <+: ms) : t.locate ms = none := by
  obtain ⟨suffix, rfl⟩ := hms
  by_cases hnil : suffix = []
  · rw [hnil, append_nil, hns]
  cases hloc : t.locate (ns ++ suffix) with
  | none => rfl
  | some i => grind [h.above]

/-- Nodes without a place may go. -/
theorem Consistent.drop (hlocs : ∀ ms, t'.locate ms = t.locate ms)
    (hplaced : ∀ {ms j}, t.locate ms = some j → t'.entries j = t.entries j)
    (hentries : ∀ {j es}, t'.entries j = some es → t.entries j = some es) : t'.Consistent := by
  constructor
  · grind [h.root]
  · grind [h.placed]
  · grind [h.listed]
  · grind [h.once]
  · intro d es hes
    exact h.nodup (hentries hes)

/-! ## A new name -/

variable {n : ν} {es : List ν} {d i dO dN j : ι}

/-- A node gets a new name in a directory: a node that is no directory, or a new empty directory. -/
theorem Consistent.add [BEq ν] [LawfulBEq ν]
    (hd : t.locate ns = some d) (hes : t.entries d = some es) (hfree : t.locate (ns ++ [n]) = none)
    (hloc : t'.locate (ns ++ [n]) = some i)
    (hlocs : ∀ ms, ms ≠ ns ++ [n] → t'.locate ms = t.locate ms)
    (hdir : t'.entries d = some (es.insert n)) (hnode : t.entries i = none ∧ t'.entries i = none ∨
      (∀ ms, t.locate ms ≠ some i) ∧ t'.entries i = some [])
    (hothers : ∀ j, j ≠ d → j ≠ i → t'.entries j = t.entries j) : t'.Consistent := by
  -- Only the new place and the directory differ.
  have hold : ∀ {ms j}, t.locate ms = some j → t'.locate ms = some j := by grind
  -- A directory of the old tree keeps its entries, and gets the name if it is the one.
  have hentries : ∀ {ms j fs}, t.locate ms = some j → t.entries j = some fs →
      j ≠ d → t'.entries j = some fs := by
    grind
  -- An entry of the new tree that is not the new name stems from the old tree.
  have hback : ∀ {ms j fs}, t'.locate ms = some j → t'.entries j = some fs →
      (ms = ns ++ [n] ∧ fs = []) ∨ t.locate ms = some j ∧
        (j = d ∧ fs = es.insert n ∨ j ≠ d ∧ t.entries j = some fs) := by
    intro ms j fs hj hfs
    by_cases hms : ms = ns ++ [n]
    · subst hms
      grind
    rw [hlocs ms hms] at hj
    refine .inr ⟨hj, ?_⟩
    by_cases hjd : j = d
    · grind
    · by_cases hji : j = i
      · grind
      · grind
  constructor
  · grind [h.root]
  · intro ms m j hj
    by_cases hms : ms ++ [m] = ns ++ [n]
    · grind [append_inj']
    · rw [hlocs _ hms] at hj
      grind [h.placed]
  · intro ms e fs m he hfs hm
    rcases hback he hfs with ⟨-, rfl⟩ | ⟨he, ⟨rfl, rfl⟩ | ⟨-, hfs⟩⟩
    · cases hm
    · grind [h.once, h.listed]
    · obtain ⟨j, hj⟩ := h.listed he hfs hm
      exact ⟨j, hold hj⟩
  · intro ms ms' e fs he he' hfs
    rcases hback he hfs with ⟨rfl, rfl⟩ | ⟨ht, hcase⟩
    · -- A new directory has no place but the new one.
      by_contra hne
      grind
    have hdirectory : ∃ gs, t.entries e = some gs := by
      rcases hcase with ⟨rfl, -⟩ | ⟨-, hfs⟩
      · exact ⟨es, hes⟩
      · exact ⟨fs, hfs⟩
    grind [h.once]
  intro e fs hfs
  by_cases hed : e = d
  · grind [Nodup.insert, h.nodup]
  · grind [h.nodup]

/-! ## A name taken out -/

/-- A name is taken out of its directory. Its node has no entries, and may be dropped. -/
theorem Consistent.remove [BEq ν] [LawfulBEq ν]
    (hi : t.locate (ns ++ [n]) = some i) (hd : t.locate ns = some d) (hes : t.entries d = some es)
    (hleaf : ∀ fs, t.entries i = some fs → fs = []) (hloc : t'.locate (ns ++ [n]) = none)
    (hlocs : ∀ ms, ms ≠ ns ++ [n] → t'.locate ms = t.locate ms)
    (hdir : t'.entries d = some (es.erase n))
    (hothers : ∀ j, j ≠ d → t'.entries j = t.entries j ∨ j = i ∧ t'.entries j = none) :
    t'.Consistent := by
  have hback : ∀ {ms j}, t'.locate ms = some j → t.locate ms = some j ∧ ms ≠ ns ++ [n] := by grind
  -- A directory with an entry is not the node that goes.
  constructor
  · obtain ⟨r, rs, hr, hrs⟩ := h.root
    have hrloc : t'.locate [] = some r := by rw [hlocs [] (by simp), hr]
    by_cases hrd : r = d
    · exact ⟨r, _, hrloc, hrd ▸ hdir⟩
    rcases hothers r hrd with heq | ⟨rfl, -⟩
    · exact ⟨r, rs, hrloc, by rw [heq, hrs]⟩
    · -- The root has another place than the name that goes.
      have hplace := h.once hr hi hrs
      simp at hplace
  · intro ms m j hj
    obtain ⟨hj, hne⟩ := hback hj
    obtain ⟨e, fs, he, hfs, hm⟩ := h.placed hj
    have hms : ms ≠ ns ++ [n] := by grind
    by_cases hed : e = d
    · subst hed
      grind [h.once]
    · grind
  · intro ms e fs m he hfs hm
    obtain ⟨he, -⟩ := hback he
    by_cases hed : e = d
    · subst hed
      obtain rfl := h.once he hd hes
      rw [hdir] at hfs
      cases hfs
      obtain ⟨hmn, hm⟩ := (h.nodup hes).mem_erase_iff.mp hm
      obtain ⟨j, hj⟩ := h.listed he hes hm
      exact ⟨j, by rw [hlocs _ (by simpa using hmn), hj]⟩
    · grind [h.listed, append_inj']
  · grind [h.once]
  · grind [h.nodup]

omit h

/-! ## A name that moves -/

/-- The entries of a directory after the name `o` has left the directory `dO` and the name `n` has
come to the directory `dN`. -/
def movedEntries [BEq ν] [DecidableEq ι] (dO dN : ι) (o n : ν) (j : ι) (es : List ν) :
    List ν :=
  let es := if j = dO then es.erase o else es
  if j = dN then es.insert n else es

variable {o m : ν}

variable [BEq ν] [LawfulBEq ν] [DecidableEq ι]

/-- A name that is not the one that leaves stays in its directory. -/
theorem mem_movedEntries_of_mem (hm : m ∈ es) (hne : j = dO → m ≠ o) :
    m ∈ movedEntries dO dN o n j es := by
  unfold movedEntries
  grind

/-- A name in a directory afterwards has come to it, or was there and has not left. -/
theorem mem_movedEntries (hnodup : es.Nodup) (hm : m ∈ movedEntries dO dN o n j es) :
    j = dN ∧ m = n ∨ m ∈ es ∧ (j = dO → m ≠ o) := by
  unfold movedEntries at hm
  grind

/-- A name moves to a free place outside of itself, with everything below it. -/
theorem Consistent.move (h : t.Consistent) {os : List ν}
    {esO esN : List ν} (hi : t.locate (os ++ [o]) = some i) (hdO : t.locate os = some dO)
    (hesO : t.entries dO = some esO) (hdN : t.locate ns = some dN) (hesN : t.entries dN = some esN)
    (hfree : t.locate (ns ++ [n]) = none) (houtside : ¬ os ++ [o] <+: ns)
    (hnew : ∀ suffix, t'.locate (ns ++ [n] ++ suffix) = t.locate (os ++ [o] ++ suffix))
    (hold : ∀ ms, os ++ [o] <+: ms → ¬ ns ++ [n] <+: ms → t'.locate ms = none)
    (hlocs : ∀ ms, ¬ os ++ [o] <+: ms → ¬ ns ++ [n] <+: ms → t'.locate ms = t.locate ms)
    (hentries : ∀ j, t'.entries j = (t.entries j).map (movedEntries dO dN o n j)) :
    t'.Consistent := by
  -- The old and the new place are not below each other.
  have hfreeBelow : ∀ {ms}, ns ++ [n] <+: ms → t.locate ms = none := h.none_below hfree
  -- What has a place afterwards came with the name, or is away from both places.
  have hback : ∀ {ms j}, t'.locate ms = some j →
      (∃ suffix, ms = ns ++ [n] ++ suffix ∧ t.locate (os ++ [o] ++ suffix) = some j) ∨
        ¬ os ++ [o] <+: ms ∧ ¬ ns ++ [n] <+: ms ∧ t.locate ms = some j := by
    intro ms j hj
    by_cases hB : ns ++ [n] <+: ms
    · obtain ⟨suffix, rfl⟩ := hB
      rw [hnew] at hj
      exact .inl ⟨suffix, rfl, hj⟩
    · grind
  have hbackEntries : ∀ {j fs}, t'.entries j = some fs →
      ∃ gs, t.entries j = some gs ∧ fs = movedEntries dO dN o n j gs := by
    grind [Option.map_eq_some_iff.mp]
  have hentriesOf : ∀ {j gs}, t.entries j = some gs →
      t'.entries j = some (movedEntries dO dN o n j gs) := by
    intro j gs hgs
    rw [hentries, hgs]
    rfl
  -- The directory that the name leaves is not below the name.
  have hdO_ne : ∀ {suffix e gs}, t.locate (os ++ [o] ++ suffix) = some e → t.entries e = some gs →
      e ≠ dO := by
    rintro suffix e gs he hgs rfl
    have hplace := h.once he hdO hgs
    have hlength := congrArg length hplace
    simp at hlength
  constructor
  · grind [h.root]
  · intro ms m j hj
    rcases hback hj with ⟨suffix, hms, hj⟩ | ⟨hA, hB, hj⟩
    · rcases eq_nil_or_concat suffix with rfl | ⟨init, last, rfl⟩
      · -- The name itself, in the directory that it has come to.
        rw [append_nil] at hms
        obtain ⟨rfl, hm⟩ := append_inj' hms rfl
        obtain rfl := cons.inj hm |>.1
        refine ⟨dN, _, ?_, hentriesOf hesN, ?_⟩
        · grind
        · simp [movedEntries]
      rw [concat_eq_append, ← append_assoc] at hms hj
      obtain ⟨rfl, hm⟩ := append_inj' hms rfl
      obtain rfl := cons.inj hm |>.1
      obtain ⟨e, gs, he, hgs, hm⟩ := h.placed hj
      refine ⟨e, _, by rw [hnew, he], hentriesOf hgs, mem_movedEntries_of_mem hm ?_⟩
      exact fun heq => absurd heq (hdO_ne he hgs)
    obtain ⟨e, gs, he, hgs, hm⟩ := h.placed hj
    have hA' : ¬ os ++ [o] <+: ms := fun hle => hA (hle.trans (prefix_append ms [m]))
    have hB' : ¬ ns ++ [n] <+: ms := fun hle => hB (hle.trans (prefix_append ms [m]))
    refine ⟨e, _, by rw [hlocs ms hA' hB', he], hentriesOf hgs, mem_movedEntries_of_mem hm ?_⟩
    grind [h.once]
  · intro ms e fs m he hfs hm
    obtain ⟨gs, hgs, rfl⟩ := hbackEntries hfs
    rcases hback he with ⟨suffix, rfl, hcame⟩ | ⟨hA, hB, he⟩
    · rcases mem_movedEntries (h.nodup hgs) hm with ⟨rfl, -⟩ | ⟨hm, -⟩
      · -- The directory that the name comes to is not below the name.
        have hplace := h.once hdN hcame hgs
        exact absurd ⟨suffix, hplace.symm⟩ houtside
      · obtain ⟨j, hj⟩ := h.listed hcame hgs hm
        grind
    rcases mem_movedEntries (h.nodup hgs) hm with ⟨rfl, rfl⟩ | ⟨hm, hne⟩
    · obtain rfl := h.once he hdN hgs
      have hmoved := hnew []
      grind
    obtain ⟨j, hj⟩ := h.listed he hgs hm
    refine ⟨j, ?_⟩
    rw [hlocs _ ?_ ?_, hj]
    · grind [prefix_concat_iff.mp, append_inj']
    · grind
  · intro ms ms' e fs he he' hfs
    obtain ⟨gs, hgs, -⟩ := hbackEntries hfs
    rcases hback he with ⟨suffix, rfl, hcame⟩ | ⟨hA, -, hstay⟩
    · rcases hback he' with ⟨suffix', rfl, hcame'⟩ | ⟨hA', -, hstay'⟩
      · rw [append_cancel_left (h.once hcame hcame' hgs)]
      · exact absurd ⟨suffix, h.once hcame hstay' hgs⟩ hA'
    · rcases hback he' with ⟨suffix', rfl, hcame'⟩ | ⟨-, -, hstay'⟩
      · exact absurd ⟨suffix', h.once hcame' hstay hgs⟩ hA
      · exact h.once hstay hstay' hgs
  intro e fs hfs
  obtain ⟨gs, hgs, rfl⟩ := hbackEntries hfs
  have hkept : (if e = dO then gs.erase o else gs).Nodup := by
    split_ifs with he
    · exact (h.nodup hgs).erase o
    · exact h.nodup hgs
  unfold movedEntries
  by_cases he : e = dN
  · rw [if_pos he]
    exact .insert hkept
  · rwa [if_neg he]

end NameTree

end Seele.Lib
