import Mathlib.Data.List.Perm.Basic
import Seele.Lib.GuardedRun
import Seele.Lib.Stacked
import Seele.Vfs.MountOrder

/-!
# The mount table and a stack of mounts

What mounts are visible where is usually explained with a stack: a mount that is placed on a path
covers all that was visible at and below it before, and taking it away again uncovers that.
`onStack` says this for each of the operations, over a list of layers with the topmost first.

The table can only agree with the stack as long as of two mounts on one path of the tree the upper
one is also the deeper or the younger one. The operations establish this if they meet
`MountOp.Safe`, and then the two answer alike at every path (`findMount_eq_select`). Otherwise they
need not (`mounts_differ_from_stack`): a mount placed above an older one does not cover it, and one
that is stacked beneath another one gets a new number and covers it. `Refines` is the relation
between a table and a stack.
-/

namespace Seele.Vfs

open Seele.Lib Seele.Filesystem List Mount Path

variable {φ : Type}

/-! ## The stack -/

/-- A layer of the stack: what is mounted, and where. -/
structure Layer (φ : Type) where
  place : List Name
  fs : φ
  sourcePath : Path
  flags : MountFlags
  propagation : MountPropagation
deriving DecidableEq, Repr

/-- The layer is at or above the place. -/
def Layer.covers (names : List Name) (layer : Layer φ) : Bool :=
  layer.place <+: names

/-- The layer is strictly below the place. -/
def Layer.isBelow (names : List Name) (layer : Layer φ) : Bool :=
  names <+: layer.place ∧ layer.place ≠ names

/-- The path in the file system of the layer. -/
def Layer.within (layer : Layer φ) (path : Path) : Path :=
  joinMountSource layer.sourcePath
    (.absolute ((placeOf path).drop layer.place.length) path.endsWithSlash)

/-- The topmost layer at or above a path, and the path in it. -/
def select (layers : List (Layer φ)) (path : Path) : FSResult (Layer φ × Path) :=
  match layers.find? (Layer.covers (placeOf path)) with
  | none => .error .notFound
  | some layer => .ok (layer, layer.within path)

/-- The layer, with one place at the front of its own replaced by another. -/
def Layer.relocate (source target : List Name) (layer : Layer φ) : Layer φ :=
  { layer with place := target ++ layer.place.drop source.length }

/-- A new mount of what the layer shows. -/
def Layer.copy (source target : List Name) (layer : Layer φ) : Layer φ :=
  { layer.relocate source target with sourcePath := layer.sourcePath.normalize }

/-- The layers below a place that can be seen there: a layer below the one that the place itself is
in is covered by it. -/
def visibleBelow (names : List Name) (layers : List (Layer φ)) : List (Layer φ) :=
  (layers.takeWhile fun layer => !layer.covers names).filter (Layer.isBelow names)

/-- The layer goes directly below the topmost one at the place. -/
def insertBeneath (names : List Name) (new : Layer φ) : List (Layer φ) → List (Layer φ)
  | [] => [new]
  | layer :: layers =>
    if layer.place = names then layer :: new :: layers
    else layer :: insertBeneath names new layers

/-- The operations on the mount table. -/
inductive MountOp (φ : Type) where
  | attach (path : Path) (fs : φ) (sourcePath : Path) (flags : MountFlags)
      (propagation : MountPropagation)
  | bind (source target : Path) (recursive : Bool)
  | moveTree (source target : Path)
  | stackBeneath (source target : Path)
  | unmount (path : Path)
deriving Repr
open MountOp

/-- A bind shows at its target what is visible at its source. -/
def bindLayers (source target : Path) (recursive : Bool) (layers : List (Layer φ)) :
    List (Layer φ) :=
  match layers.find? (Layer.covers (placeOf source)) with
  | none => layers
  | some layer =>
    (if recursive then
      (visibleBelow (placeOf source) layers).map (Layer.copy (placeOf source) (placeOf target))
    else []) ++
      { layer with place := placeOf target, sourcePath := (layer.within source).normalize } ::
        layers

/-- A tree that is moved goes to the top as it is. -/
def moveLayers (source target : List Name) (layers : List (Layer φ)) : List (Layer φ) :=
  (layers.filter fun layer => source <+: layer.place).map (Layer.relocate source target) ++
    layers.filter fun layer => !decide (source <+: layer.place)

/-- What an operation that succeeds does to the stack. -/
def MountOp.onStack : MountOp φ → List (Layer φ) → List (Layer φ)
  | .attach path fs sourcePath flags propagation, layers =>
    ⟨placeOf path, fs, sourcePath.normalize, flags, propagation⟩ :: layers
  | .bind source target recursive, layers => bindLayers source target recursive layers
  | .moveTree source target, layers => moveLayers (placeOf source) (placeOf target) layers
  | .stackBeneath source target, layers =>
    match layers.find? fun layer => layer.place = placeOf source with
    | none => layers
    | some layer =>
      insertBeneath (placeOf target) { layer with place := placeOf target }
        (layers.eraseP fun layer => layer.place = placeOf source)
  | .unmount path, layers => layers.eraseP fun layer => layer.place = placeOf path

/-- The operation on the table. -/
def MountOp.run [DecidableEq φ] : MountOp φ → VfsM φ Unit
  | .attach path fs sourcePath flags propagation =>
    attachMountWithPropagation path fs sourcePath flags propagation
  | .bind source target recursive => bindMount source target recursive
  | .moveTree source target => moveMountTree source target
  | .stackBeneath source target => stackMountBeneath source target
  | .unmount path => Vfs.unmount path

/-- One operation on the table and, if it succeeds there, on the stack. -/
def MountOp.step [DecidableEq φ] (op : MountOp φ) (s : VFS φ × List (Layer φ)) :
    Option (VFS φ × List (Layer φ)) :=
  match op.run s.1 with
  | none => none
  | some (.ok (), v) => some (v, op.onStack s.2)
  | some (.error _, v) => some (v, s.2)

/-! ## The condition -/

instance (path : Path) : Decidable (PlainPath path) :=
  decidable_of_iff (path.isAbsolute = true ∧ path.endsWithSlash = false ∧
      ∀ name ∈ placeOf path, ValidName name)
    ⟨fun ⟨h, h', h''⟩ => ⟨h, h', h''⟩, fun ⟨h, h', h''⟩ => ⟨h, h', h''⟩⟩

/-- When the table follows the stack. All paths are absolute and end without a slash. A mount is
placed where no other is below it, a recursive bind has at most one mount at every path below its
source, and a tree is moved where no mount is that does not move along, or only older ones. -/
def MountOp.Safe : MountOp φ → VFS φ → Prop
  | .attach path _ _ _ _, v =>
    PlainPath path ∧ ∀ mount ∈ v.mounts, mount.isBelow (placeOf path) = false
  | .bind source target recursive, v =>
    PlainPath source ∧ PlainPath target ∧
      (∀ mount ∈ v.mounts, mount.isBelow (placeOf target) = false) ∧
      (recursive = true →
        (v.mounts.filter (isBelow (placeOf source))).Pairwise fun a b => a.place ≠ b.place)
  | .moveTree source target, v =>
    PlainPath source ∧ PlainPath target ∧
      ∀ moved ∈ v.mounts, moved.place = placeOf source → ∀ mount ∈ v.mounts,
        ¬ placeOf source <+: mount.place → placeOf target <+: mount.place →
          mount.place = placeOf target ∧ mount.mountId < moved.mountId
  | .stackBeneath source target, v =>
    (∀ mount ∈ v.mounts, mount.path ≠ source.normalize) ∨
      ∀ mount ∈ v.mounts, mount.path ≠ target.normalize
  | .unmount path, _ => PlainPath path

instance (op : MountOp φ) (v : VFS φ) : Decidable (op.Safe v) := by
  cases op with
  | attach => exact inferInstanceAs (Decidable (_ ∧ _))
  | bind => exact inferInstanceAs (Decidable (_ ∧ _ ∧ _ ∧ _))
  | moveTree => exact inferInstanceAs (Decidable (_ ∧ _ ∧ _))
  | stackBeneath => exact inferInstanceAs (Decidable (_ ∨ _))
  | unmount => exact inferInstanceAs (Decidable (PlainPath _))

/-! ## The relation -/

/-- The layer of a mount. -/
def Mount.layer (mount : Mount φ) : Layer φ :=
  ⟨mount.place, mount.fs, mount.sourcePath, mount.flags, mount.propagation⟩

/-- The table holds the layers of the stack, in an order that agrees with theirs where it
matters. -/
structure Refines (v : VFS φ) (layers : List (Layer φ)) : Prop where
  stacked : ∃ order : List (Mount φ), order.map layer = layers ∧
    Stacked SortLe Overlap order v.mounts
  plain : ∀ mount ∈ v.mounts, mount.Plain
  fresh : ∀ mount ∈ v.mounts, mount.mountId < v.nextMountId

/-- Nothing is mounted at first. -/
theorem refines_new : Refines (VFS.new : VFS φ) [] :=
  ⟨⟨[], rfl, .nil⟩, forall_mem_nil _, forall_mem_nil _⟩

variable {v : VFS φ} {layers : List (Layer φ)}

/-- The layer that covers a place. -/
theorem Refines.find_covers (h : Refines v layers) (names : List Name) :
    layers.find? (Layer.covers names) =
      (v.mounts.find? fun mount => mount.place <+: names).map layer := by
  obtain ⟨order, rfl, hstacked⟩ := h.stacked
  rw [find?_map, hstacked.find?_eq]
  · rfl
  · grind [overlap_of_covers]

variable {path : Path}

/-- The mount found is the one on top. -/
theorem Refines.find (h : Refines v layers) (habs : path.isAbsolute = true) :
    (v.findMount path).map (fun found => (found.1.layer, found.2)) = select layers path := by
  unfold VFS.findMount select
  rw [findIn_eq habs h.plain, h.find_covers]
  cases v.mounts.find? (fun mount => mount.place <+: placeOf path) with
  | none => rfl
  | some mount => rfl

/-! ## Placing mounts -/

variable {v' : VFS φ}

/-- Mounts are put on top. -/
theorem Refines.place (h : Refines v layers) {added new : List (Mount φ)}
    (hperm : v'.mounts.Perm (v.mounts ++ added)) (hsorted : v'.mounts.Pairwise SortLe)
    (hadded : added.Perm new) (hnext : v.nextMountId ≤ v'.nextMountId)
    (hplain : ∀ mount ∈ new, mount.Plain)
    (hids : ∀ mount ∈ new, v.nextMountId ≤ mount.mountId ∧ mount.mountId < v'.nextMountId)
    (habove : new.Pairwise fun a b => Overlap a b → ¬ SortLe b a)
    (hbelow : ∀ a ∈ new, ∀ b ∈ v.mounts, b.isBelow a.place = false) :
    Refines v' (new.map layer ++ layers) := by
  obtain ⟨order, rfl, hstacked⟩ := h.stacked
  have hmem : ∀ mount, mount ∈ v'.mounts ↔ mount ∈ v.mounts ∨ mount ∈ new := by
    simp [hperm.mem_iff, hadded.mem_iff]
  refine ⟨⟨new ++ order, map_append, ?_⟩, ?_, ?_⟩
  · refine hstacked.place hperm hsorted hadded habove fun a ha b hb hoverlap => ?_
    have hb' := hstacked.perm.mem_iff.mpr hb
    refine (not_sortLe_iff (hplain a ha) (h.plain b hb') hoverlap).mpr ⟨?_, fun _ => ?_⟩
    · -- An older mount that is not strictly below the new one is at or above it.
      rcases hoverlap with hab | hba
      · grind [eq_of_not_below]
      · exact hba
    · exact Nat.lt_of_lt_of_le (h.fresh b hb') (hids a ha).1
  · grind [h.plain]
  intro mount hmount
  rcases (hmem mount).mp hmount with hold | hnew
  · exact Nat.lt_of_lt_of_le (h.fresh mount hold) hnext
  · exact (hids mount hnew).2

section

variable [DecidableEq φ] {r : FSResult Unit}

/-- A file system is attached. -/
theorem Refines.attach (h : Refines v layers) (hpath : PlainPath path)
    (hbelow : ∀ mount ∈ v.mounts, mount.isBelow (placeOf path) = false) {fs : φ} {sourcePath : Path}
    {flags : MountFlags} {propagation : MountPropagation}
    (hrun : attachMountWithPropagation path fs sourcePath flags propagation v = some (r, v')) :
    r = .ok () ∧
      Refines v' (⟨placeOf path, fs, sourcePath.normalize, flags, propagation⟩ :: layers) := by
  obtain ⟨hok, hnext, deviceId, hmounts⟩ := attachMount_spec hrun
  generalize hnew : Mount.mk path.normalize fs sourcePath.normalize flags propagation deviceId
    v.nextMountId false = new at hmounts
  have hpathEq : new.path = .absolute (placeOf path) false := by rw [← hnew, hpath.normalize_eq]
  obtain ⟨hplain, hplace⟩ := Mount.plain_of hpath.valid hpathEq
  have hid : new.mountId = v.nextMountId := by rw [← hnew]
  have hlayer : new.layer = ⟨placeOf path, fs, sourcePath.normalize, flags, propagation⟩ := by
    rw [Mount.layer, hplace, ← hnew]
  have hperm : v'.mounts.Perm (v.mounts ++ [new]) := by
    rw [hmounts]
    exact perm_insertionSort SortLe _
  have hsorted : v'.mounts.Pairwise SortLe := by
    rw [hmounts]
    exact pairwise_insertionSort SortLe _
  rw [← hlayer]
  refine ⟨hok, h.place hperm hsorted (.refl _) (hnext ▸ Nat.le_succ _)
    (forall_mem_singleton.mpr hplain) (forall_mem_singleton.mpr ?_)
    (pairwise_singleton _ _) (forall_mem_singleton.mpr ?_)⟩
  · simp [hid, hnext]
  · rw [hplace]
    exact hbelow

variable {source target : List Name} {low high : ℕ}

omit [DecidableEq φ] in
/-- The copies lie as the mounts do. -/
theorem copies_above (htarget : ValidNames target) {mounts copies : List (Mount φ)}
    (hplain : ∀ mount ∈ mounts, mount.Plain) (hbelow : ∀ mount ∈ mounts, source <+: mount.place)
    (hcopies : List.Forall₂ (Copied source target low high) mounts copies)
    (habove : mounts.Pairwise fun a b => Overlap a b → ¬ SortLe b a)
    (hne : mounts.Pairwise fun a b => a.place ≠ b.place) :
    copies.Pairwise fun a b => Overlap a b → ¬ SortLe b a := by
  refine pairwise_of_forall₂ ?_ hcopies (List.Pairwise.and_mem.mp (habove.and hne))
  rintro a b a' b' hcopy hcopy' ⟨ha, hb, hab, hplaces⟩ hoverlap
  obtain ⟨resta, hresta⟩ := hbelow a ha
  obtain ⟨restb, hrestb⟩ := hbelow b hb
  have hvalid : ∀ {mount : Mount φ} {rest : List Name}, mount ∈ mounts →
      source ++ rest = mount.place → ValidNames (target ++ rest) := by
    intro mount rest hmount hrest
    refine validNames_append.mpr ⟨htarget, ?_⟩
    exact (validNames_append.mp (hrest ▸ (hplain mount hmount).1)).2
  have hpatha := hcopy.path
  have hpathb := hcopy'.path
  rw [← hresta, drop_left] at hpatha
  rw [← hrestb, drop_left] at hpathb
  obtain ⟨hplaina, hplacea⟩ := plain_of (hvalid ha hresta) hpatha
  obtain ⟨hplainb, hplaceb⟩ := plain_of (hvalid hb hrestb) hpathb
  -- The copies overlap where the originals do.
  grind [Overlap, prefix_append_right_inj, not_sortLe_iff, append_right_inj]

omit [DecidableEq φ] in
/-- What is visible below a place. -/
theorem Refines.visibleBelow_eq {order : List (Mount φ)}
    (hstacked : Stacked SortLe Overlap order v.mounts) (hplain : ∀ mount ∈ v.mounts, mount.Plain)
    (names : List Name) : visibleBelow names (order.map layer) =
      (order.filter (isBelow names)).map layer := by
  have hplain' : ∀ mount ∈ order, mount.Plain :=
    fun mount hmount => hplain mount (hstacked.perm.mem_iff.mpr hmount)
  have habove := hstacked.above
  clear hstacked hplain
  unfold visibleBelow
  rw [takeWhile_map, filter_map]
  refine congrArg (map layer) ?_
  show (order.takeWhile fun mount => !decide (mount.place <+: names)).filter (isBelow names) = _
  -- Behind the first mount that covers the place, none is strictly below it.
  induction order with
  | nil => rfl
  | cons mount order ih =>
  obtain ⟨hhead, htail⟩ := pairwise_cons.mp habove
  obtain ⟨hmount, hrest⟩ := forall_mem_cons.mp hplain'
  by_cases hcovers : mount.place <+: names
  · rw [takeWhile_cons_of_neg (by simpa using hcovers), filter_nil]
    refine (filter_eq_nil_iff.mpr fun below hbelow hisBelow => ?_).symm
    obtain ⟨hfront, hne⟩ := of_decide_eq_true hisBelow
    rcases mem_cons.mp hbelow with rfl | hbelow
    · exact hne (hcovers.eq_of_length_le hfront.length_le)
    have hoverlap : Overlap mount below := .inl (hcovers.trans hfront)
    obtain ⟨hunder, -⟩ := (not_sortLe_iff hmount (hrest below hbelow) hoverlap).mp
      (hhead below hbelow hoverlap)
    exact hne ((hunder.trans hcovers).eq_of_length_le hfront.length_le)
  · rw [takeWhile_cons_of_pos (by simpa using hcovers)]
    grind

omit [DecidableEq φ] in
/-- The layers of the copies. -/
theorem map_layer_copied {mounts copies : List (Mount φ)}
    (hcopies : List.Forall₂ (Copied source target low high) mounts copies) :
    copies.map layer = (mounts.map layer).map (Layer.copy source target) := by
  induction hcopies with
  | nil => rfl
  | @cons mount copy mounts copies hone _ ih =>
    simp [place, hone.path, hone.fs, hone.sourcePath, hone.flags, hone.propagation, ih,
      layer, Layer.copy, Layer.relocate]

/-- A tree is bound. -/
theorem Refines.bind (h : Refines v layers) {source target : Path} {recursive : Bool}
    (hsource : PlainPath source) (htarget : PlainPath target)
    (hbelow : ∀ mount ∈ v.mounts, mount.isBelow (placeOf target) = false)
    (hsingle : recursive = true →
      (v.mounts.filter (Mount.isBelow (placeOf source))).Pairwise fun a b => a.place ≠ b.place)
    (hrun : bindMount source target recursive v = some (r, v')) :
    (∃ e, r = .error e ∧ v' = v) ∨
      r = .ok () ∧ Refines v' (bindLayers source target recursive layers) := by
  have hfind := h.find_covers (placeOf source)
  rcases bindMount_spec hsource htarget h.plain hrun with herror |
    ⟨hok, mount, deviceId, added, hmount, hnext, hsorted, hperm, hadded⟩
  · exact .inl herror
  refine .inr ⟨hok, ?_⟩
  generalize hrootEq : Mount.mk (.absolute (placeOf target) false) mount.fs
    (joinMountSource mount.sourcePath
      (.absolute ((placeOf source).drop mount.place.length) false)).normalize
    mount.flags mount.propagation deviceId v.nextMountId false = root at hperm
  have hrootPath : root.path = .absolute (placeOf target) false := by rw [← hrootEq]
  obtain ⟨hrootPlain, hrootPlace⟩ := Mount.plain_of htarget.valid hrootPath
  obtain ⟨order, rfl, hstacked⟩ := h.stacked
  -- The copies were made in the order of the table; their layers are in the order of the stack.
  generalize hpicked : (if recursive = true then order.filter (Mount.isBelow (placeOf source))
    else []) = picked
  have hpickedPerm : picked.Perm
      (if recursive = true then v.mounts.filter (Mount.isBelow (placeOf source)) else []) := by
    rw [← hpicked]
    cases recursive with
    | false => exact .refl _
    | true => exact (hstacked.perm.filter _).symm
  obtain ⟨copies, hcopies, hcopiesPerm⟩ := perm_comp_forall₂ hpickedPerm hadded
  have hpickedMem : ∀ mount ∈ picked, mount ∈ v.mounts ∧ mount.isBelow (placeOf source) = true := by
    grind
  have hcopyPlace : ∀ copy ∈ copies, copy.Plain ∧ placeOf target <+: copy.place ∧
      copy.place ≠ placeOf target ∧ v.nextMountId ≤ copy.mountId ∧
      copy.mountId < v'.nextMountId := by
    intro copy hcopy
    obtain ⟨original, horiginal, hcopied⟩ := exists_of_forall₂ hcopies hcopy
    obtain ⟨hmem, hisBelow⟩ := hpickedMem original horiginal
    obtain ⟨⟨rest, hrest⟩, hne⟩ := of_decide_eq_true hisBelow
    have hvalid := (h.plain original hmem).1
    grind [hcopied.path, Mount.plain_of, htarget.valid, hcopied.low, hcopied.high,
      append_right_eq_self.mp]
  have hlayers : bindLayers source target recursive (order.map Mount.layer) =
      (copies ++ [root]).map Mount.layer ++ order.map Mount.layer := by
    have hcopiesLayer := map_layer_copied hcopies
    have hrootLayer : root.layer = { mount.layer with
        place := placeOf target, sourcePath := (mount.layer.within source).normalize } := by
      grind [Mount.layer, Layer.within, hsource.noSlash]
    unfold bindLayers
    rw [hfind, hmount, Option.map_some, map_append, hcopiesLayer, map_singleton,
      hrootLayer, append_assoc, ← hpicked,
      Refines.visibleBelow_eq hstacked h.plain (placeOf source)]
    cases recursive <;> rfl
  rw [hlayers]
  have hnewPerm : (root :: added).Perm (copies ++ [root]) :=
    (hcopiesPerm.symm.cons root).trans (perm_append_singleton root copies).symm
  refine h.place hperm hsorted hnewPerm (Nat.le_of_lt hnext) ?_ ?_ ?_ ?_
  · grind
  · grind
  · refine pairwise_append.mpr ⟨?_, pairwise_singleton _ _, ?_⟩
    · refine copies_above htarget.valid (fun m hm => h.plain m (hpickedMem m hm).1)
        (fun m hm => (of_decide_eq_true (hpickedMem m hm).2).1) hcopies ?_ ?_
      · grind [hstacked.above.filter]
      · grind [hpickedPerm.pairwise_iff]
    · grind [not_sortLe_iff]
  intro a ha b hb
  have htargetFront : placeOf target <+: a.place := by grind
  refine decide_eq_false ?_
  grind [Mount.eq_of_not_below, htargetFront.eq_of_length_le]

end

/-! ## Moving and removing mounts -/

/-- A mount of the tree that is moved, at its new path. -/
def Mount.relocate (source target : List Name) (mount : Mount φ) : Mount φ :=
  { mount with path := .absolute (target ++ mount.place.drop source.length) false }

/-- Where a moved mount lies. -/
theorem Mount.relocate_place (source target : List Name) (mount : Mount φ) :
    (mount.relocate source target).place = target ++ mount.place.drop source.length := by
  rw [place, relocate, absolute_names]

variable {source target : List Name}

variable (htarget : ValidNames target)

include htarget

/-- A moved mount is plain. -/
theorem Mount.relocate_plain {mount : Mount φ}
    (hplain : mount.Plain) : (mount.relocate source target).Plain := by
  have hdrop : ValidNames (mount.place.drop source.length) :=
    fun name hname => hplain.1 name (mem_of_mem_drop hname)
  exact (plain_of (validNames_append.mpr ⟨htarget, hdrop⟩) rfl).1

/-- The mounts in the source move. -/
theorem movedMounts_eq {mounts : List (Mount φ)}
    (hplain : ∀ mount ∈ mounts, mount.Plain) :
    movedMounts (.absolute source false) (.absolute target false) mounts = mounts.map fun mount =>
        if decide (source <+: mount.place) then mount.relocate source target else mount := by
  refine map_congr_left fun mount hmount => ?_
  obtain ⟨hvalid, hpath⟩ := hplain mount hmount
  have hmoved : movedPath (.absolute source false) (.absolute target false)
      (.absolute mount.place false) = _ := movedPath_absolute htarget hvalid
  rw [← hpath] at hmoved
  rw [hmoved]
  by_cases hbelow : source <+: mount.place
  · rw [if_pos hbelow, if_pos (decide_eq_true hbelow)]
    rfl
  · rw [if_neg hbelow, if_neg (by simpa using hbelow)]

/-- Two mounts of the moved tree compete at the target where they did at the source, and sort in the
same way. -/
theorem relocate_above {a b : Mount φ} (ha : a.Plain)
    (hb : b.Plain) (hsourceA : source <+: a.place) (hsourceB : source <+: b.place)
    (hoverlap : Overlap (a.relocate source target) (b.relocate source target))
    (habove : Overlap a b → ¬ SortLe b a) :
    ¬ SortLe (b.relocate source target) (a.relocate source target) := by
  obtain ⟨restA, hrestA⟩ := hsourceA
  obtain ⟨restB, hrestB⟩ := hsourceB
  have hplaceA : (a.relocate source target).place = target ++ restA := by
    rw [relocate_place, ← hrestA, drop_left]
  have hplaceB : (b.relocate source target).place = target ++ restB := by
    rw [relocate_place, ← hrestB, drop_left]
  have hoverlap' : Overlap a b := by grind [Overlap, prefix_append_right_inj]
  have hsorts := (not_sortLe_iff ha hb hoverlap').mp (habove hoverlap')
  rw [← hrestA, ← hrestB, prefix_append_right_inj, append_right_inj] at hsorts
  rw [not_sortLe_iff (relocate_plain htarget ha) (relocate_plain htarget hb) hoverlap,
    hplaceA, hplaceB, prefix_append_right_inj, append_right_inj]
  exact hsorts

omit htarget

variable {r : FSResult Unit}

/-- A tree is moved. -/
theorem Refines.moveTree (h : Refines v layers) {source target : Path} (hsource : PlainPath source)
    (htarget : PlainPath target)
    (holder : ∀ moved ∈ v.mounts, moved.place = placeOf source → ∀ mount ∈ v.mounts,
      ¬ placeOf source <+: mount.place → placeOf target <+: mount.place →
        mount.place = placeOf target ∧ mount.mountId < moved.mountId)
    (hrun : moveMountTree source target v = some (r, v')) : (∃ e, r = .error e ∧ v' = v) ∨
      r = .ok () ∧ Refines v' (moveLayers (placeOf source) (placeOf target) layers) := by
  rcases moveMountTree_spec hrun with herror | ⟨hok, ⟨root, hroot, hrootPath⟩, hnext, hmounts⟩
  · exact .inl herror
  refine .inr ⟨hok, ?_⟩
  rw [hsource.normalize_eq] at hrootPath
  have hrootPlace : root.place = placeOf source := by rw [Mount.place, hrootPath, absolute_names]
  rw [hsource.normalize_eq, htarget.normalize_eq, movedMounts_eq htarget.valid h.plain] at hmounts
  obtain ⟨order, rfl, hstacked⟩ := h.stacked
  have hplain : ∀ mount ∈ order, mount.Plain :=
    fun mount hmount => h.plain mount (hstacked.perm.mem_iff.mpr hmount)
  have hmem : ∀ mount ∈ v'.mounts, ∃ old ∈ v.mounts,
      mount = old ∨ mount = old.relocate (placeOf source) (placeOf target) := by
    grind [mem_insertionSort]
  have hlifted : Stacked SortLe Overlap
      ((order.filter fun mount => placeOf source <+: mount.place).map
          (relocate (placeOf source) (placeOf target)) ++
        order.filter fun mount => !decide (placeOf source <+: mount.place)) v'.mounts := by
    rw [hmounts]
    refine hstacked.lift (fun mount => placeOf source <+: mount.place)
      (relocate (placeOf source) (placeOf target)) ?_ ?_
    · grind [relocate_above, htarget.valid]
    intro a ha b hb hsourceA hsourceB hoverlap
    have ha' := hstacked.perm.mem_iff.mpr ha
    have hb' := hstacked.perm.mem_iff.mpr hb
    have hnot := of_decide_eq_false hsourceB
    obtain ⟨rest, hrest⟩ := of_decide_eq_true hsourceA
    have hplace :
        (a.relocate (placeOf source) (placeOf target)).place = placeOf target ++ rest := by
      rw [relocate_place, ← hrest, drop_left]
    -- A mount that stays and is at or below the target is at the target, and older.
    have hstays : placeOf target <+: b.place → b.place = placeOf target :=
      fun hfront => (holder root hroot hrootPlace b hb' hnot hfront).1
    have hfrontOf : b.place <+: (a.relocate (placeOf source) (placeOf target)).place := by
      rcases hoverlap with hab | hba
      · grind
      · exact hba
    rw [not_sortLe_iff (relocate_plain htarget.valid (hplain a ha)) (hplain b hb) hoverlap]
    refine ⟨hfrontOf, fun heq => ?_⟩
    rw [hplace] at heq
    have hatTarget := hstays (heq ▸ prefix_append _ _)
    have hrestNil : rest = [] := append_right_eq_self.mp (heq.symm.trans hatTarget)
    have haPlace : a.place = placeOf source := by rw [← hrest, hrestNil, append_nil]
    exact (holder a ha' haPlace b hb' hnot (hatTarget ▸ prefix_refl _)).2
  refine ⟨⟨_, ?_, hlifted⟩, ?_, ?_⟩
  · unfold moveLayers
    rw [map_append, map_map, filter_map, filter_map, map_map]
    refine congrArg₂ (· ++ ·) (map_congr_left fun mount _ => ?_) rfl
    show (mount.relocate _ _).layer = mount.layer.relocate _ _
    rw [layer, relocate_place]
    rfl
  · grind [h.plain, relocate_plain, htarget.valid]
  intro mount hmount
  rw [hnext]
  obtain ⟨old, hold, rfl | rfl⟩ := hmem mount hmount
  · exact h.fresh _ hold
  · exact h.fresh old hold

/-- A mount is removed. -/
theorem Refines.unmount (h : Refines v layers) (hpath : PlainPath path)
    (hrun : Vfs.unmount path v = some (r, v')) : (∃ e, r = .error e ∧ v' = v) ∨
      r = .ok () ∧ Refines v' (layers.eraseP fun layer => layer.place = placeOf path) := by
  rcases unmount_spec hpath hrun with herror | ⟨hok, hnext, hmounts⟩
  · exact .inl herror
  refine .inr ⟨hok, ?_⟩
  obtain ⟨order, rfl, hstacked⟩ := h.stacked
  have herased : v'.mounts = v.mounts.eraseP fun mount => mount.place = placeOf path := by
    rw [hmounts]
    refine eraseP_congr fun mount hmount => ?_
    obtain ⟨hvalid, hmountPath⟩ := h.plain mount hmount
    grind [asString_absolute, hpath.valid, text_inj]
  have hmem : ∀ mount ∈ v'.mounts, mount ∈ v.mounts := by grind
  refine ⟨⟨order.eraseP fun mount => mount.place = placeOf path, ?_, ?_⟩,
    fun mount hmount => h.plain mount (hmem mount hmount),
    fun mount hmount => hnext ▸ h.fresh mount (hmem mount hmount)⟩
  · rw [eraseP_map]
    rfl
  rw [herased]
  refine hstacked.remove fun a _ b _ ha hb => ?_
  have hplaces : a.place = b.place := (of_decide_eq_true ha).trans (of_decide_eq_true hb).symm
  exact .inl (hplaces ▸ prefix_refl _)

/-! ## Runs -/

variable [DecidableEq φ] {op : MountOp φ}

/-- Every safe operation is one of the stack. -/
theorem MountOp.refines (h : Refines v layers) (hsafe : op.Safe v)
    (hrun : op.run v = some (r, v')) :
    (∃ e, r = .error e ∧ v' = v) ∨ r = .ok () ∧ Refines v' (op.onStack layers) := by
  cases op with
  | attach path fs sourcePath flags propagation => exact .inr (h.attach hsafe.1 hsafe.2 hrun)
  | bind source target recursive =>
    obtain ⟨hsource, htarget, hbelow, hsingle⟩ := hsafe
    exact h.bind hsource htarget hbelow hsingle hrun
  | moveTree source target =>
    obtain ⟨hsource, htarget, holder⟩ := hsafe
    exact h.moveTree hsource htarget holder hrun
  | stackBeneath source target => exact .inl (stackMountBeneath_spec hsafe hrun)
  | unmount path => exact h.unmount hsafe hrun

/-- A step keeps both in agreement. -/
theorem MountOp.step_refines {s s' : VFS φ × List (Layer φ)} (hsafe : op.Safe s.1)
    (hstep : op.step s = some s') (h : Refines s.1 s.2) : Refines s'.1 s'.2 := by
  unfold step at hstep
  cases hrun : op.run s.1 with
  | none =>
    rw [hrun] at hstep
    cases hstep
  | some out =>
  obtain ⟨r, v⟩ := out
  rw [hrun] at hstep
  rcases refines h hsafe hrun with ⟨e, rfl, rfl⟩ | ⟨rfl, hrefines⟩
  · cases hstep
    exact h
  · cases hstep
    exact hrefines

/-- After every run of safe operations, `find_mount` finds at every absolute path the mount that the
stack selects. -/
theorem findMount_eq_select {ops : List (MountOp φ)} {v : VFS φ} {layers : List (Layer φ)}
    (hsafe : SafeRun step (fun op s => op.Safe s.1) ops (VFS.new, []))
    (hrun : runOps step ops (VFS.new, []) = some (v, layers)) {path : Path}
    (habs : path.isAbsolute = true) :
    (v.findMount path).map (fun found => (found.1.layer, found.2)) = select layers path := by
  have h : Refines v layers :=
    SafeRun.invariant (I := fun s => Refines s.1 s.2)
      (fun op s s' hsafe hstep hs => step_refines hsafe hstep hs) hsafe refines_new hrun
  exact h.find habs

/-- File system 0 at the root, 1 on `/a/b`, and a copy of the tree at `/a` on `/c`; then the copy of
1 is taken away again. -/
def safeMounts : List (MountOp ℕ) :=
  [.attach (new ['/']) 0 (new ['/']) .empty .privateMount,
    .attach (new ['/', 'a', '/', 'b']) 1 (new ['/']) .empty .privateMount,
    .bind (new ['/', 'a']) (new ['/', 'c']) true, .unmount (new ['/', 'c', '/', 'b'])]

/-- The table and the stack after these operations. -/
def afterSafeMounts : VFS ℕ × List (Layer ℕ) :=
  (⟨[⟨.absolute [['a'], ['b']] false, 1, .absolute [] false, .empty, .privateMount, 2, 2, false⟩,
      ⟨.absolute [['c']] false, 0, .absolute [['a']] false, .empty, .privateMount, 1, 3, false⟩,
      ⟨.absolute [] false, 0, .absolute [] false, .empty, .privateMount, 1, 1, false⟩], 3, 5, 1⟩,
    [⟨[['c']], 0, .absolute [['a']] false, .empty, .privateMount⟩,
      ⟨[['a'], ['b']], 1, .absolute [] false, .empty, .privateMount⟩,
      ⟨[], 0, .absolute [] false, .empty, .privateMount⟩])

/-- After the copy has been taken away, the directory of file system 0 is found there again. -/
theorem findMount_eq_select_bind : (afterSafeMounts.1.findMount (new ['/', 'c', '/', 'b'])).map
        (fun found => (found.1.layer, found.2)) =
      .ok (⟨[['c']], 0, .absolute [['a']] false, .empty, .privateMount⟩,
        .absolute [['a'], ['b']] false) := by
  have hsafe : SafeRun step (fun op s => op.Safe s.1) safeMounts (.new, []) := by decide +kernel
  have hrun : runOps step safeMounts (.new, []) = some afterSafeMounts := by decide +kernel
  exact (findMount_eq_select hsafe hrun rfl).trans (by decide +kernel)

/-- File system 1 on `/a/b` and then file system 2 on `/a`, over a root. -/
def mountsAbove : List (MountOp ℕ) :=
  [.attach (new ['/']) 0 (new ['/']) .empty .privateMount,
    .attach (new ['/', 'a', '/', 'b']) 1 (new ['/']) .empty .privateMount,
    .attach (new ['/', 'a']) 2 (new ['/']) .empty .privateMount]

/-- File system 1 on `/a`, and file system 2, first on `/b`, beneath it. -/
def mountsBeneath : List (MountOp ℕ) :=
  [.attach (new ['/']) 0 (new ['/']) .empty .privateMount,
    .attach (new ['/', 'a']) 1 (new ['/']) .empty .privateMount,
    .attach (new ['/', 'b']) 2 (new ['/']) .empty .privateMount,
    .stackBeneath (new ['/', 'b']) (new ['/', 'a'])]

/-- The file systems that the table and the stack have at a path after a run, with the path in
them. -/
def foundAfter (ops : List (MountOp ℕ)) (text : List Char) :
    Option (FSResult (ℕ × Path) × FSResult (ℕ × Path)) :=
  (runOps step ops (VFS.new, [])).map fun s =>
    ((s.1.findMount (new text)).map fun found => (found.1.fs, found.2),
      (select s.2 (new text)).map fun found => (found.1.fs, found.2))

/-- A mount that is put beneath another one covers it, since its number is the greatest. And a mount
on `/a` does not cover the older one on `/a/b`. -/
theorem mounts_differ_from_stack : foundAfter mountsBeneath ['/', 'a'] =
        some (.ok (2, .absolute [] false), .ok (1, .absolute [] false)) ∧
      foundAfter mountsAbove ['/', 'a', '/', 'b'] =
        some (.ok (1, .absolute [] false), .ok (2, .absolute [['b']] false)) := by
  decide +kernel

end Seele.Vfs
