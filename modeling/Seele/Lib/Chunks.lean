import Mathlib.Data.List.Basic
import Mathlib.Tactic.Linarith
import Mathlib.Tactic.Ring

/-!
# Buffers of equal blocks

A flat buffer holds blocks of `bs` elements one after the other. `blockAt bs i buf` is the `i`-th
block and `setBlock bs i buf data` copies `data` over it. Two buffers of `n` blocks are equal when
their blocks are (`ext_blockAt`), so a program that fills a buffer block by block is specified block
by block.
-/

namespace Seele.Lib

open List

variable {α : Type}

/-- The `i`-th block of `bs` elements of a buffer. -/
def blockAt (bs i : ℕ) (buf : List α) : List α := (buf.drop (i * bs)).take bs

/-- The buffer with `data` copied over its `i`-th block. -/
def setBlock (bs i : ℕ) (buf data : List α) : List α :=
  buf.take (i * bs) ++ data ++ buf.drop (i * bs + bs)

variable {bs i : ℕ} {buf : List α} {data : List α}

/-- Copying a block over another keeps the length of the buffer. -/
theorem length_setBlock (hd : data.length = bs) (hi : i * bs + bs ≤ buf.length) :
    (setBlock bs i buf data).length = buf.length := by
  simp only [setBlock, length_append, length_take, length_drop]
  omega

/-- A block inside a buffer has `bs` elements. -/
theorem length_blockAt (hi : i * bs + bs ≤ buf.length) : (blockAt bs i buf).length = bs := by
  simp only [blockAt, length_take, length_drop]
  omega

/-- The block just copied. -/
theorem blockAt_setBlock_self (hd : data.length = bs)
    (hi : i * bs + bs ≤ buf.length) : blockAt bs i (setBlock bs i buf data) = data := by
  unfold blockAt setBlock
  grind

/-- Different blocks do not overlap. -/
theorem block_disjoint {j : ℕ} (h : i ≠ j) : j * bs + bs ≤ i * bs ∨ i * bs + bs ≤ j * bs := by
  rcases Nat.lt_or_gt_of_ne h with h | h
  · right
    calc i * bs + bs = (i + 1) * bs := by ring
      _ ≤ j * bs := Nat.mul_le_mul_right bs h
  · left
    calc j * bs + bs = (j + 1) * bs := by ring
      _ ≤ i * bs := Nat.mul_le_mul_right bs h

/-- Copying over one block leaves the others. -/
theorem blockAt_setBlock_of_ne {j : ℕ} (hd : data.length = bs)
    (hi : i * bs + bs ≤ buf.length) (h : i ≠ j) :
    blockAt bs j (setBlock bs i buf data) = blockAt bs j buf := by
  have hdis := @block_disjoint bs i j h
  apply ext_getElem?
  intro k
  simp only [blockAt, setBlock, getElem?_take, getElem?_drop]
  grind

/-- Buffers of `n` blocks are equal when their blocks are. -/
theorem ext_blockAt {n : ℕ} {l l' : List α} (hb : 0 < bs) (hl : l.length = n * bs)
    (hl' : l'.length = n * bs) (h : ∀ i, i < n → blockAt bs i l = blockAt bs i l') : l = l' := by
  apply ext_getElem?
  intro k
  by_cases hk : k < n * bs
  · -- The element `k` is the element `k % bs` of the block `k / bs`.
    have hi : k / bs < n := Nat.div_lt_of_lt_mul (by rw [Nat.mul_comm]; exact hk)
    have hm : k % bs < bs := Nat.mod_lt _ hb
    have hsplit : k / bs * bs + k % bs = k := Nat.div_add_mod' k bs
    have := congrArg (fun b => b[k % bs]?) (h (k / bs) hi)
    simpa only [blockAt, getElem?_take, getElem?_drop, if_pos hm, hsplit] using this
  · grind

variable {β : Type} {f : β → List α} {l : List β} (hf : ∀ x ∈ l, (f x).length = bs)

include hf

/-- The length of a concatenation of blocks of `bs` elements. -/
theorem length_flatMap_blocks : (l.flatMap f).length = l.length * bs := by
  induction l with
  | nil => simp
  | cons x l ih => grind

/-- The `i`-th block of a concatenation of blocks of `bs` elements. -/
theorem blockAt_flatMap (hi : i < l.length) : blockAt bs i (l.flatMap f) = f l[i] := by
  induction l generalizing i with
  | nil => simp at hi
  | cons x l ih =>
  have hx := hf x mem_cons_self
  rw [flatMap_cons]
  cases i with
  | zero =>
    unfold blockAt
    grind
  | succ i =>
  have hskip : ((i + 1) * bs) = bs + i * bs := by ring
  unfold blockAt
  rw [hskip, ← drop_drop, drop_left' hx, getElem_cons_succ]
  exact ih (fun y hy => hf y (mem_cons_of_mem x hy)) (by simpa using hi)

omit hf

end Seele.Lib
