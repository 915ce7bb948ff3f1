import Seele.Ext4.InodeUpdates
import Mathlib.Data.List.Induction
import Mathlib.Data.List.Perm.Subperm

/-!
# The maps and the queue of the lookup cache

The cache has a map for each directory and a queue of the names that were entered. Removing a name
leaves it in the queue, so that a name that is entered again stands there twice, and the older place
is enough to evict it. `get_exec` says what each operation does to the value of each name, where
`evicted` are the names at the front of the queue that are too many, and `lookupCache_faithful` what
follows for a whole sequence of operations.
-/

namespace Seele.Ext4

/-- The inode number of a directory and a name in it. -/
abbrev Key := ℕ × String

variable {ι : Type}

/-- The map of each directory, from names to inodes. -/
abbrev Maps (ι : Type) := Std.TreeMap ℕ (Std.TreeMap String ι)

namespace Maps

variable (m : Maps ι) (k : Key)

/-- `LookupCacheState::get`. -/
def get : Option ι := m[k.1]?.bind (·[k.2]?)

/-- The inode is entered into the map of its directory. -/
def enter (inode : ι) : Maps ι := m.insert k.1 ((m.getD k.1 ∅).insert k.2 inode)

/-- `LookupCacheState::remove`. -/
def remove : Maps ι :=
  match m[k.1]? with
  | none => m
  | some children =>
    let children := children.erase k.2
    if children.isEmpty then m.erase k.1 else m.insert k.1 children

/-- No map of a directory is empty. -/
def NonEmpty : Prop := ∀ (parent : ℕ) children, m[parent]? = some children → ¬ children.isEmpty

variable {m k} {inode : ι}

/-- Entering a name gives it its value and changes no other name. -/
theorem get_enter {j : Key} :
    (m.enter k inode).get j = if k = j then some inode else m.get j := by
  unfold get enter
  simp only [Std.TreeMap.getElem?_insert, Std.TreeMap.getD_eq_getD_getElem?,
    Std.LawfulEqOrd.compare_eq_iff_eq]
  by_cases hp : k.1 = j.1
  · cases h : m[k.1]? <;> grind
  · grind

/-- Removing a name takes its value and changes no other name. -/
theorem get_remove {j : Key} : (m.remove k).get j = if k = j then none else m.get j := by
  unfold get remove
  cases h : m[k.1]? with
  | none => grind
  | some children =>
  dsimp only
  by_cases hempty : (children.erase k.2).isEmpty
  · have hchild := Std.TreeMap.isEmpty_iff_forall_not_mem.mp hempty j.2
    grind
  · grind

/-- Entering a name leaves no map empty. -/
theorem NonEmpty.enter (h : m.NonEmpty) : (m.enter k inode).NonEmpty := by
  unfold NonEmpty Maps.enter at *
  grind

/-- Removing a name leaves no map empty. -/
theorem NonEmpty.remove (h : m.NonEmpty) : (m.remove k).NonEmpty := by
  unfold NonEmpty Maps.remove at *
  grind

end Maps

/-- `LookupCacheState`. -/
structure LookupCacheState (ι : Type) where
  entries : Maps ι
  order : List Key

namespace LookupCacheState

/-- `MAX_LOOKUP_CACHE_ENTRIES`. -/
def maxEntries : ℕ := 16384

/-- `LookupCacheState::evict_to_limit`. -/
def evictToLimit (m : Maps ι) : List Key → LookupCacheState ι
  | [] => ⟨m, []⟩
  | k :: order =>
    if maxEntries < order.length + 1 then evictToLimit (m.remove k) order else ⟨m, k :: order⟩

variable (c : LookupCacheState ι) (k : Key)

/-- `LookupCacheState::get`. -/
def get : Option ι := c.entries.get k

/-- The queue after a name is entered. -/
def push : List Key := if (c.get k).isSome then c.order else c.order ++ [k]

/-- `LookupCacheState::insert`. -/
def insert (inode : ι) : LookupCacheState ι := evictToLimit (c.entries.enter k inode) (c.push k)

/-- `LookupCacheState::remove`. -/
def remove : LookupCacheState ι := { c with entries := c.entries.remove k }

/-- `LookupCacheState::clear`. -/
def clear : LookupCacheState ι := ⟨∅, []⟩

/-- An operation on the cache. -/
inductive Op (ι : Type) where
  | insert (k : Key) (inode : ι)
  | get (k : Key)
  | remove (k : Key)
  | clear

/-- One operation. -/
def exec : Op ι → LookupCacheState ι
  | .insert k inode => c.insert k inode
  | .get _ => c
  | .remove k => c.remove k
  | .clear => clear

/-- The operations one after another on an empty cache. -/
def run (ops : List (Op ι)) : LookupCacheState ι := ops.foldl exec clear

/-- The operation enters or removes the name. -/
def Op.Touches (op : Op ι) : Prop :=
  match op with
  | .insert j _ | .remove j => j = k
  | .get _ => False
  | .clear => True

/-- The names that an operation evicts: those at the front of the queue that are too many. -/
def evicted : Op ι → List Key
  | .insert k _ => (c.push k).take ((c.push k).length - maxEntries)
  | _ => []

/-- Names that have a value stand in the queue, which is not too long, and no map is empty. -/
structure Valid : Prop where
  queued : ∀ k, (c.get k).isSome → k ∈ c.order
  length_le : c.order.length ≤ maxEntries
  nonEmpty : c.entries.NonEmpty

variable {c k} {m : Maps ι} {order : List Key} {inode : ι}

/-- The names at the front of a queue that is too long lose their values. -/
theorem get_evictToLimit : (evictToLimit m order).get k =
    if k ∈ order.take (order.length - maxEntries) then none else m.get k := by
  induction order generalizing m with
  | nil => simp [evictToLimit, get]
  | cons j order ih =>
  rw [evictToLimit, List.length_cons]
  by_cases hlen : maxEntries < order.length + 1
  · rw [if_pos hlen, ih, Maps.get_remove, Nat.succ_sub (Nat.le_of_lt_succ hlen),
      List.take_succ_cons]
    rcases eq_or_ne k j with rfl | hj
    · simp
    · simp [hj, hj.symm]
  · simp [hlen, Nat.sub_eq_zero_of_le (Nat.le_of_not_lt hlen), get]

/-- An evicted name leaves the maps and the queue. -/
theorem valid_evictToLimit (hqueued : ∀ k, (m.get k).isSome → k ∈ order) (hm : m.NonEmpty) :
    (evictToLimit m order).Valid := by
  induction order generalizing m with
  | nil => exact ⟨hqueued, Nat.zero_le _, hm⟩
  | cons j order ih =>
  unfold evictToLimit
  split_ifs with hlen
  · refine ih (fun k hk => ?_) hm.remove
    rw [Maps.get_remove] at hk
    grind
  · exact ⟨hqueued, Nat.le_of_not_lt hlen, hm⟩

/-- Each operation keeps the cache valid. -/
theorem Valid.exec (h : c.Valid) (op : Op ι) : (c.exec op).Valid := by
  cases op with
  | insert k inode =>
    refine valid_evictToLimit (fun j hj => ?_) h.nonEmpty.enter
    rw [Maps.get_enter] at hj
    have := h.queued j
    unfold push
    grind [get]
  | get k => exact h
  | remove k =>
    refine ⟨fun j hj => h.queued j ?_, h.length_le, h.nonEmpty.remove⟩
    have hj : ((c.entries.remove k).get j).isSome := hj
    rw [Maps.get_remove] at hj
    grind [get]
  | clear => exact ⟨nofun, Nat.zero_le _, nofun⟩

/-- What an operation does to the value of a name. -/
theorem get_exec (op : Op ι) : (c.exec op).get k = if k ∈ c.evicted op then none else
    match op with
    | .insert j inode => if j = k then some inode else c.get k
    | .get _ => c.get k
    | .remove j => if j = k then none else c.get k
    | .clear => none := by
  cases op with
  | insert j inode =>
    show (evictToLimit _ _).get k = _
    rw [get_evictToLimit, Maps.get_enter]
    rfl
  | get j => rfl
  | remove j => exact Maps.get_remove
  | clear => rfl

/-- The cache after one more operation. -/
theorem run_concat (ops : List (Op ι)) (op : Op ι) : run (ops ++ [op]) = (run ops).exec op :=
  List.foldl_concat ..

/-- The cache is valid after every sequence of operations. -/
theorem run_valid (ops : List (Op ι)) : (run ops).Valid := by
  induction ops using List.reverseRecOn with
  | nil => exact ⟨nofun, Nat.zero_le _, nofun⟩
  | append_singleton ops op ih => exact run_concat ops op ▸ ih.exec op

/-- A name that has a value was inserted with it, and not touched since. -/
theorem inserted_of_get {ops : List (Op ι)} (h : (run ops).get k = some inode) :
    ∃ before after, ops = before ++ .insert k inode :: after ∧ ∀ op ∈ after, ¬ op.Touches k := by
  induction ops using List.reverseRecOn with
  | nil => cases h
  | append_singleton ops op ih =>
  rw [run_concat, get_exec] at h
  split_ifs at h
  have hold (htouch : ¬ op.Touches k) (hget : (run ops).get k = some inode) :
      ∃ before after, ops ++ [op] = before ++ .insert k inode :: after ∧
        ∀ op ∈ after, ¬ op.Touches k := by
    obtain ⟨before, after, rfl, hafter⟩ := ih hget
    exact ⟨before, after ++ [op], by simp, by grind⟩
  cases op with
  | insert j value =>
    dsimp only at h
    split_ifs at h with hj
    · cases hj
      cases h
      exact ⟨ops, [], rfl, nofun⟩
    · exact hold hj h
  | get j => exact hold id h
  | remove j =>
    dsimp only at h
    split_ifs at h with hj
    exact hold hj h
  | clear => cases h

/-- A name keeps the value it is inserted with until it is touched or evicted. -/
theorem get_of_inserted {before after : List (Op ι)} (hafter : ∀ op ∈ after, ¬ op.Touches k)
    (hkept : ∀ mid op rest, .insert k inode :: after = mid ++ op :: rest →
      k ∉ (run (before ++ mid)).evicted op) :
    (run (before ++ .insert k inode :: after)).get k = some inode := by
  induction after using List.reverseRecOn with
  | nil =>
    have := hkept [] (.insert k inode) [] rfl
    rw [List.append_nil] at this
    rw [run_concat, get_exec, if_neg this]
    exact if_pos rfl
  | append_singleton after op ih =>
  have hop := hafter op (by simp)
  rw [show before ++ .insert k inode :: (after ++ [op]) =
    (before ++ .insert k inode :: after) ++ [op] by simp, run_concat, get_exec,
    if_neg (hkept (.insert k inode :: after) op [] rfl)]
  have hold := ih (fun op hmem => hafter op (by simp [hmem])) fun mid op' rest heq =>
    hkept mid op' (rest ++ [op]) (by rw [← List.cons_append, heq]; simp)
  cases op with
  | insert j value | remove j => exact (if_neg hop).trans hold
  | get j => exact hold
  | clear => exact absurd trivial hop

/-- After every sequence of operations: a name that is cached stands in the queue, so that at most
16384 names are cached; no map of a directory is empty; a value that is found is the one that the
name was last inserted with, and the name was not removed and the cache not cleared since; and a
name that was inserted and neither touched since nor at the front of a queue that was too long is
found. -/
theorem lookupCache_faithful (ops : List (Op ι)) :
    let c := run ops
    (∀ k, (c.get k).isSome → k ∈ c.order) ∧
    (∀ keys : List Key, keys.Nodup → (∀ k ∈ keys, (c.get k).isSome) → keys.length ≤ 16384) ∧
    (∀ (parent : ℕ) children, c.entries[parent]? = some children → ¬ children.isEmpty) ∧
    (∀ k inode, c.get k = some inode → ∃ before after,
      ops = before ++ .insert k inode :: after ∧ ∀ op ∈ after, ¬ op.Touches k) ∧
    ∀ before after k inode, ops = before ++ .insert k inode :: after →
      (∀ op ∈ after, ¬ op.Touches k) →
      (∀ mid op rest, .insert k inode :: after = mid ++ op :: rest →
        k ∉ (run (before ++ mid)).evicted op) → c.get k = some inode := by
  have h := run_valid ops
  refine ⟨h.queued, fun keys hnodup hkeys => ?_, h.nonEmpty, fun k inode => inserted_of_get, ?_⟩
  · have hsub : keys ⊆ (run ops).order := fun k hk => h.queued k (hkeys k hk)
    exact Nat.le_trans (hnodup.subperm hsub).length_le h.length_le
  · rintro before after k inode rfl hafter hkept
    exact get_of_inserted hafter hkept

end LookupCacheState

end Seele.Ext4
