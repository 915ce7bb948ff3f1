import Seele.BlockDevice.Interleaving

/-!
# A sequence of operations on a device that fails

A sequence of operations is the run of a single caller (`Callers.lean`). It has no races, so that of
the condition on its steps two parts are left (`World.SafeAlone`): the device does not fail the
write-back of an evicted block, and a `read_blocks` does not fetch a block that is cached dirty. The
device may fail every other call. What was written then is what was acknowledged, but for the blocks
of a write in progress (`Place.Acknowledges`): a write that has begun to insert its blocks can only
fail in a write-back.
-/

namespace Seele.BlockDevice

open Seele.Lib Place World List

/-- The condition on a step of a single caller. -/
def World.SafeAlone (step : Step) (w : World) : Prop :=
  step.caller = 0 ∧
    match step.move, w.places 0 with
    | .advance faults, .writeBack _ _ _ _ => faults.head? ≠ some true
    | .advance _, .fetchRun start _ index _ readaheadEnd _ =>
      ∀ offset, index ≤ offset → offset < readaheadEnd →
        ∀ entry, w.device.state.entries[start + offset]? = some entry → entry.dirty = false
    | _, _ => True

/-- The acknowledged bytes are the last written ones, but for the blocks that a write in progress
has inserted. -/
def Place.Acknowledges (written acked : Disk) (p : Place) : Prop :=
  match p.writing with
  | some blocks => p.inserts ≠ [] ∧ ∃ done, blocks = done ++ p.inserts ∧
      written = done.foldl (fun acked block => acked.put block.1 block.2.data) acked
  | none => written = acked

/-- What holds of the run of a single caller. -/
structure World.Alone (w : World) : Prop where
  intact : w.Intact
  others : ∀ i, i ≠ 0 → w.places i = .idle
  missed : ∀ id, w.places 0 = .fetch id → w.device.state.entries[id]? = none
  acknowledges : (w.places 0).Acknowledges w.written w.acked

variable {w : World}

/-- Other callers have evicted nothing. -/
theorem World.Alone.evicted (h : w.Alone) (hnone : (w.places 0).evicted = none)
    (i id : ℕ) (entry : CacheEntry) : (w.places i).evicted ≠ some (id, entry) := by
  by_cases hi : i = 0
  · rw [hi, hnone]
    exact nofun
  · rw [h.others i hi]
    exact nofun

variable {step : Step}

/-- A step that is safe alone is safe. -/
theorem World.Alone.safe (h : w.Alone) (hsafe : w.SafeAlone step) :
    w.Safe step := by
  obtain ⟨c, move⟩ := step
  obtain ⟨hzero, hsafe⟩ := hsafe
  simp only at hzero
  subst hzero
  cases move with
  | call op => exact trivial
  | advance faults =>
  cases hc : w.places 0 with
  | fetch id =>
    simp only [Safe, hc]
    refine ⟨fun entry hentry => ?_, fun i => h.evicted (by rw [hc]; rfl) i id⟩
    rw [h.missed id hc] at hentry
    cases hentry
  | fetchRun start total index missEnd readaheadEnd buffer =>
    simp only [Safe, hc] at hsafe ⊢
    exact fun offset hlo hhi =>
      ⟨hsafe offset hlo hhi, fun i => h.evicted (by rw [hc]; rfl) i (start + offset)⟩
  | writeBack blockId entry inserts after =>
    simp only [Safe, hc] at hsafe ⊢
    exact hsafe
  | insert inserts after =>
    cases inserts with
    | nil => simp only [Safe, hc]
    | cons block inserts =>
    simp only [Safe, hc]
    intro hdirty i
    by_cases hi : i = 0
    · have hok := h.intact.at hc
      rw [hi, hc]
      refine not_inHand_insert (fun x hx => ?_) _ _
      rw [hok.kind x.1 x.2 hx, ← hok.kind block.1 block.2 mem_cons_self]
      exact hdirty
    · rw [h.others i hi]
      exact not_inHand_idle _ _
  | idle | readRound start total index buffer | ensureCapacity inserts after | flushRuns runs
  | markClean startBlock blockCount runs => simp only [Safe, hc]

/-- A request that begins has not changed anything. -/
theorem Op.begin_acknowledges (op : Op) (d : CachedBlockDevice) (a : Disk) :
    (op.begin d).Acknowledges a a := by
  cases op <;> simp only [Op.begin]
  case readSingleBlock id buffer =>
    split
    · rfl
    · split <;> rfl
  case readBlocks start buffer =>
    split_ifs <;> rfl
  case writeSingleBlock id buffer =>
    split_ifs
    · rfl
    · rfl
    · exact ⟨cons_ne_nil _ _, [], rfl, rfl⟩
  case writeBlocks start buffer =>
    split_ifs with hdvd hrange hnone
    any_goals rfl
    exact ⟨hnone, [], rfl, rfl⟩
  case flush => rfl

variable {d : CachedBlockDevice}

/-- An insertion is acknowledged when it is done. -/
theorem Place.Ok.insert_acknowledges {a acked : Disk}
    {inserts : List (ℕ × CacheEntry)} {after : After} (hok : (insert inserts after).Ok a d)
    (hack : (insert inserts after).Acknowledges a acked) (faults : List Bool) :
    ((insert inserts after).advance faults d).1.Acknowledges
      ((insert inserts after).writes a) ((insert inserts after).acks acked) := by
  cases after with
  | write blocks =>
    obtain ⟨hsome, done, hblocks, hwritten⟩ := hack
    cases inserts with
    | nil => exact absurd rfl hsome
    | cons block rest =>
    have hdirty : block.2.dirty = true := hok.kind block.1 block.2 mem_cons_self
    have hblocks' : blocks = (done ++ [block]) ++ rest := by
      rw [hblocks, append_assoc]
      rfl
    have hput : a.put block.1 block.2.data =
        (done ++ [block]).foldl (fun acked block => acked.put block.1 block.2.data) acked := by
      rw [foldl_append, ← hwritten]
      rfl
    cases rest with
    | nil =>
      rw [append_nil] at hblocks'
      simp only [writes, hdirty, hblocks']
      exact hput
    | cons block' rest =>
      simp only [writes, hdirty]
      exact ⟨cons_ne_nil _ _, done ++ [block], hblocks', hput⟩
  | readSingleBlock | readBlocks start total index buffer =>
  cases inserts with
  | nil => exact hack
  | cons block rest =>
    have hclean : block.2.dirty = false := hok.kind block.1 block.2 mem_cons_self
    simp only [writes, hclean]
    cases rest <;> exact hack

/-- Every step of the caller keeps what is acknowledged. -/
theorem World.Alone.advance_acknowledges (h : w.Alone) {faults : List Bool}
    (hsafe : w.SafeAlone ⟨0, .advance faults⟩) :
    ((w.advance 0 faults).places 0).Acknowledges (w.advance 0 faults).written
      (w.advance 0 faults).acked := by
  have hack := h.acknowledges
  simp only [advance]
  cases hc : w.places 0 with
  | idle | markClean startBlock blockCount runs =>
    rw [hc] at hack
    exact hack
  | fetch id | fetchRun start total index missEnd readaheadEnd buffer =>
    rw [hc] at hack
    simp only [Place.advance]
    split <;> exact hack
  | readRound start total index buffer =>
    rw [hc] at hack
    simp only [Place.advance]
    split
    · split <;> exact hack
    · exact hack
  | ensureCapacity inserts after =>
    rw [hc] at hack
    simp only [Place.advance]
    split
    · exact hack
    · split
      · exact hack
      · split <;> exact hack
  | writeBack blockId entry inserts after =>
    simp only [SafeAlone, hc] at hsafe
    obtain ⟨d, hcall⟩ := h.intact.writeBack_ok hc hsafe.2
    rw [hc] at hack
    simp only [Place.advance, hcall]
    exact hack
  | insert inserts after =>
    rw [hc] at hack
    exact (h.intact.at hc).insert_acknowledges hack faults
  | flushRuns runs =>
  rw [hc] at hack
  cases runs with
  | nil => exact hack
  | cons run runs =>
    simp only [Place.advance]
    split <;> exact hack

/-- A single block is fetched if it is not cached. -/
theorem Op.begin_eq_fetch {op : Op} {id : ℕ} (h : op.begin d = .fetch id) :
    d.state.entries[id]? = none := by
  cases op <;> simp only [Op.begin] at h
  case readSingleBlock id' buffer =>
    grind
  case readBlocks start buffer | writeSingleBlock id' buffer | writeBlocks start buffer =>
    split_ifs at h
  case flush => cases h

/-- A call does not go back to a fetch. -/
theorem Place.advance_ne_fetch (faults : List Bool) (p : Place) (d : CachedBlockDevice) (id : ℕ) :
    (p.advance faults d).1 ≠ .fetch id := by
  cases p <;> simp only [advance]
  case insert inserts after =>
    cases inserts with
    | nil => cases after <;> (intro h; cases h)
    | cons block rest =>
    dsimp only
    split
    · cases after <;> (intro h; cases h)
    · intro h
      cases h
  case flushRuns runs =>
    cases runs with
    | nil =>
      intro h
      cases h
    | cons run runs =>
      dsimp only
      split <;> (intro h; cases h)
  case ensureCapacity inserts after | readRound start total index buffer =>
    grind
  case fetch id' | fetchRun start total index missEnd readaheadEnd buffer
      | writeBack blockId entry inserts after =>
    split <;> (intro h; cases h)
  case idle | markClean startBlock blockCount runs =>
    intro h
    cases h

/-- Every safe step keeps the caller alone. -/
theorem World.Alone.exec {w' : World} (h : w.Alone) (hsafe : w.SafeAlone step)
    (hexec : w.exec step = some w') : w'.Alone := by
  have hintact := h.intact.exec (h.safe hsafe) hexec
  obtain ⟨c, move⟩ := step
  obtain rfl : c = 0 := hsafe.1
  rcases exec_cases hexec with ⟨op, -, hidle, rfl⟩ | ⟨faults, hmove, -, rfl⟩
  · refine ⟨hintact, fun i hi => ?_, fun id hid => ?_, ?_⟩
    · grind [h.others]
    · grind [Op.begin_eq_fetch]
    have hack := h.acknowledges
    simp only at hidle
    rw [hidle] at hack
    simp only [Function.update_self]
    rw [show w.written = w.acked from hack]
    exact op.begin_acknowledges w.device w.acked
  simp only at hmove
  subst hmove
  refine ⟨hintact, fun i hi => ?_, fun id hid => ?_, h.advance_acknowledges hsafe⟩
  · simp only [advance, Function.update_of_ne hi]
    exact h.others i hi
  · simp only [advance] at hid
    exact absurd hid (advance_ne_fetch faults _ _ id)

/-- Any sequence of operations on a device that may fail at any call, as long as it does not fail
the write-back of an evicted block and no `read_blocks` fetches a block that is cached dirty: after
each operation, every block reads back as it was last acknowledged, and it is cached dirty if the
inner device does not have these bytes. -/
theorem run_keeps_acknowledged (inner : Disk) (maxEntries : ℕ) (steps : List Step) (w : World)
    (hsafe : Lib.SafeRun exec SafeAlone steps (start inner maxEntries))
    (hrun : runOps exec steps (start inner maxEntries) = some w)
    (hidle : w.places 0 = .idle) (id : ℕ) : w.readsBack id = w.acked.blocks id ∧
      (w.device.inner.blocks id = w.acked.blocks id ∨
        ∃ entry, w.device.state.entries[id]? = some entry ∧ entry.dirty = true) := by
  have hstart : (start inner maxEntries).Alone :=
    ⟨intact_start, fun _ _ => rfl, nofun, rfl⟩
  have halone : w.Alone :=
    hsafe.invariant (fun _ _ _ hsafe hexec h => h.exec hsafe hexec) hstart hrun
  have hack := halone.acknowledges
  rw [hidle] at hack
  rw [← show w.written = w.acked from hack]
  unfold readsBack
  cases hentry : w.device.state.entries[id]? with
  | some entry =>
    obtain ⟨-, hdata, hclean⟩ := halone.intact.cached id entry hentry
    grind
  | none =>
    rcases halone.intact.uncached id hentry with hinner | ⟨i, entry, he⟩
    · exact ⟨hinner, .inl hinner⟩
    · exact absurd he (halone.evicted (by rw [hidle]; rfl) i id entry)

/-- Block 0 is written, and a read of block 1 fails. -/
theorem run_keeps_acknowledged_failed_read :
    let steps : List Step := [⟨0, .call (.writeSingleBlock 0 [7])⟩, ⟨0, .advance []⟩,
      ⟨0, .advance []⟩, ⟨0, .call (.readSingleBlock 1 [9])⟩, ⟨0, .advance [true]⟩]
    ∃ w, runOps exec steps (start twoBlocks 1) = some w ∧
      w.readsBack 0 = w.acked.blocks 0 ∧ w.acked.blocks 0 = [7] := by
  intro steps
  refine ⟨_, rfl, ?_, rfl⟩
  refine (run_keeps_acknowledged twoBlocks 1 steps _ ?_ rfl rfl 0).1
  exact ⟨⟨rfl, trivial⟩, ⟨rfl, trivial⟩, ⟨rfl, trivial⟩, ⟨rfl, trivial⟩, ⟨rfl, trivial⟩, trivial⟩

/-- On a cache of one block, block 0 is written and acknowledged; the write of block 1 evicts it,
and the device fails the write-back. -/
def failedEviction : List Step :=
  [⟨0, .call (.writeSingleBlock 0 [7])⟩, ⟨0, .advance []⟩, ⟨0, .advance []⟩,
    ⟨0, .call (.writeSingleBlock 1 [8])⟩, ⟨0, .advance []⟩, ⟨0, .advance [true]⟩]

/-- Block 0 then reads back as it was before the acknowledged write, and it is not in the cache. -/
theorem failed_eviction_loses_block : (runOps exec failedEviction (start twoBlocks 1)).map
      (fun w => (w.places 0, w.acked.blocks 0, w.readsBack 0, w.device.state.entries[0]?)) =
      some (.idle, [7], [0], none) := by
  decide

end Seele.BlockDevice
