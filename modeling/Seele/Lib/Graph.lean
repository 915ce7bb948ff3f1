import Mathlib.Logic.Relation
import Mathlib.Data.List.Basic

/-!
# Reachability and cycles in a graph given by its successors

`dfsReaches` is the search that keeps a stack of nodes to visit and a list of the visited ones, and
stops when it takes the target off the stack. It runs on fuel, one unit for each node that it takes
off the stack; a node is expanded at most once, so the pushes of all the nodes that have successors
bound the fuel that is needed. With that much the search ends (`dfs_eq`) and decides reachability
(`dfsReaches_iff`). The
invariant of the search is `Explored`: the visited nodes are not the target, and their successors
are visited or on the stack.

The last section keeps a relation acyclic through two changes: one node gets new edges to nodes that
do not reach it (`acyclic_of_new_edges`), or new edges lead to a node without edges of its own
(`acyclic_of_sink`).
-/

namespace Seele.Lib

open List Relation

variable {α : Type}

/-- One step from a node to a successor. -/
def Edge (succ : α → List α) (a b : α) : Prop := b ∈ succ a

/-- The visited nodes are not the target, and their successors are visited or on the stack. -/
def Explored (succ : α → List α) (target : α) (stack visited : List α) : Prop :=
  ∀ a ∈ visited, a ≠ target ∧ ∀ b ∈ succ a, b ∈ visited ∨ b ∈ stack

variable {succ : α → List α} {target : α} {visited : List α}

/-- When nothing is left on the stack, no visited node reaches the target. -/
theorem not_reaches_of_explored (h : Explored succ target [] visited) {a : α} (ha : a ∈ visited) :
    ¬ ReflTransGen (Edge succ) a target := by
  intro hpath
  -- The visited nodes are closed under successors, so the target would be one of them.
  have hclosed : target ∈ visited := by
    induction hpath using ReflTransGen.head_induction_on with
    | refl => exact ha
    | head hstep _ ih =>
      rcases (h _ ha).2 _ hstep with hb | hb
      · exact ih hb
      · cases hb
  exact (h target hclosed).1 rfl

variable {stack : List α} {node : α}

variable (h : Explored succ target (node :: stack) visited)

include h

/-- A visited node leaves the stack; what pointed to it still does. -/
theorem Explored.skip (hnode : node ∈ visited) : Explored succ target stack visited := by
  intro a ha
  refine ⟨(h a ha).1, fun b hb => ?_⟩
  rcases (h a ha).2 b hb with hb | hb
  · exact .inl hb
  · grind

/-- A new node is visited and its successors go on the stack. -/
theorem Explored.expand (hnode : node ≠ target) :
    Explored succ target ((succ node).reverse ++ stack) (node :: visited) := by
  intro a ha
  rcases mem_cons.mp ha with rfl | ha
  · grind
  refine ⟨(h a ha).1, fun b hb => ?_⟩
  rcases (h a ha).2 b hb with hb | hb
  · exact .inl (mem_cons_of_mem node hb)
  · grind

omit h

variable [DecidableEq α]

/-- The search from the nodes on the stack for the target. -/
def dfsReaches (succ : α → List α) (target : α) : ℕ → List α → List α → Bool
  | 0, _, _ => false
  | _ + 1, [], _ => false
  | fuel + 1, node :: stack, visited =>
    if node = target then true
    else if node ∈ visited then dfsReaches succ target fuel stack visited
    else dfsReaches succ target fuel ((succ node).reverse ++ stack) (node :: visited)

/-- The same search, without a result as long as it runs. -/
def dfs (succ : α → List α) (target : α) : ℕ → List α → List α → Option Bool
  | 0, _, _ => none
  | _ + 1, [], _ => some false
  | fuel + 1, node :: stack, visited =>
    if node = target then some true
    else if node ∈ visited then dfs succ target fuel stack visited
    else dfs succ target fuel ((succ node).reverse ++ stack) (node :: visited)

/-- What the search can still push: the successors of the nodes that are not visited. -/
def pushes (succ : α → List α) (visited : List α) : List α → ℕ
  | [] => 0
  | a :: nodes => (if a ∈ visited then 0 else (succ a).length) + pushes succ visited nodes

variable {fuel : ℕ}

/-- A search that succeeds has found a path. -/
theorem reflTransGen_of_dfsReaches (h : dfsReaches succ target fuel stack visited = true)
    : ∃ a ∈ stack, ReflTransGen (Edge succ) a target := by
  induction fuel generalizing stack visited with
  | zero => cases h
  | succ fuel ih =>
  cases stack with
  | nil => cases h
  | cons node stack =>
  unfold dfsReaches at h
  split at h
  · next heq => exact ⟨node, mem_cons_self, heq ▸ .refl⟩
  split at h
  · grind
  obtain ⟨a, ha, hpath⟩ := ih h
  rcases mem_append.mp ha with ha | ha
  · exact ⟨node, mem_cons_self, .head (mem_reverse.mp ha) hpath⟩
  · exact ⟨a, mem_cons_of_mem node ha, hpath⟩

/-- Visiting a node leaves no more to push. -/
theorem pushes_cons_le (succ : α → List α) (node : α) (visited nodes : List α) :
    pushes succ (node :: visited) nodes ≤ pushes succ visited nodes := by
  induction nodes with
  | nil => exact Nat.le_refl _
  | cons a nodes ih =>
    unfold pushes
    grind

variable {nodes : List α}

/-- Visiting a node pays for the push of its successors. -/
theorem length_add_pushes_le (succ : α → List α) (hmem : node ∈ nodes) (hnew : node ∉ visited) :
    (succ node).length + pushes succ (node :: visited) nodes ≤ pushes succ visited nodes := by
  induction nodes with
  | nil => cases hmem
  | cons a nodes ih =>
  unfold pushes
  have hle := pushes_cons_le succ node visited nodes
  rcases mem_cons.mp hmem with rfl | hmem
  · rw [if_pos mem_cons_self, if_neg hnew]
    omega
  · grind

variable (hnodes : ∀ a, succ a ≠ [] → a ∈ nodes)

include hnodes

/-- The fuel for a node pays for the pushes of its successors. -/
theorem fuel_expand (hnew : node ∉ visited)
    (hfuel : stack.length + 1 + pushes succ visited nodes < fuel + 1) :
    ((succ node).reverse ++ stack).length + pushes succ (node :: visited) nodes < fuel := by
  rw [length_append, length_reverse]
  have hle := pushes_cons_le succ node visited nodes
  by_cases hnil : succ node = []
  · rw [hnil, length_nil]
    omega
  · have hpay := length_add_pushes_le succ (hnodes node hnil) hnew
    omega

variable (hfuel : stack.length + pushes succ visited nodes < fuel)

include hfuel

/-- A search on enough fuel ends. -/
theorem dfs_eq :
    dfs succ target fuel stack visited = some (dfsReaches succ target fuel stack visited) := by
  induction fuel generalizing stack visited with
  | zero => omega
  | succ fuel ih =>
  cases stack with
  | nil => rfl
  | cons node stack =>
  rw [length_cons] at hfuel
  unfold dfs dfsReaches
  split_ifs with htarget hvisited
  · rfl
  · exact ih (by omega)
  · exact ih (fuel_expand hnodes hvisited hfuel)

/-- A search that fails on enough fuel has no path from the stack or from a visited node. -/
theorem not_reaches_of_dfsReaches (hexplored : Explored succ target stack visited)
    (h : dfsReaches succ target fuel stack visited = false) :
    ∀ a, a ∈ stack ∨ a ∈ visited → ¬ ReflTransGen (Edge succ) a target := by
  induction fuel generalizing stack visited with
  | zero => omega
  | succ fuel ih =>
  cases stack with
  | nil => grind [not_reaches_of_explored]
  | cons node stack =>
  unfold dfsReaches at h
  rw [length_cons] at hfuel
  split at h
  · cases h
  next hne =>
  split at h
  · next hvisited =>
    intro a ha
    refine ih (by omega) (hexplored.skip hvisited) h a ?_
    grind
  next hnew =>
  intro a ha
  refine ih (fuel_expand hnodes hnew hfuel) (hexplored.expand hne) h a ?_
  grind

omit hfuel

/-- The search from one node decides reachability. -/
theorem dfsReaches_iff (start : α) :
    dfsReaches succ target (pushes succ [] nodes + 2) [start] [] = true ↔
      ReflTransGen (Edge succ) start target := by
  constructor
  · grind [reflTransGen_of_dfsReaches]
  intro hpath
  by_contra h
  rw [Bool.not_eq_true] at h
  refine not_reaches_of_dfsReaches hnodes ?_ ?_ h start (.inl mem_cons_self) hpath
  · rw [length_singleton]
    omega
  · intro a ha
    cases ha

omit hnodes

/-! ## Cycles -/

/-- No node reaches itself in one step or more. -/
def Acyclic {β : Type} (R : β → β → Prop) : Prop := ∀ a, ¬ TransGen R a a

variable {β : Type} {R R' : β → β → Prop}

/-- A relation with fewer edges has no more cycles. -/
theorem Acyclic.mono (h : Acyclic R) (hle : ∀ a b, R' a b → R a b) : Acyclic R' := by
  intro a ha
  exact h a (.mono hle a a ha)

variable {o : β}

/-- A path to `o` in a relation that differs only in the edges from `o` is one in the old
relation. -/
theorem reaches_of_new_edges (hother : ∀ a b, a ≠ o → R' a b → R a b)
    {b : β} (h : ReflTransGen R' b o) : ReflTransGen R b o := by
  induction h using ReflTransGen.head_induction_on with
  | refl => exact .refl
  | @head a c hstep _ ih =>
    by_cases ha : a = o
    · rw [ha]
    · exact .head (hother a c ha hstep) ih

/-- One node gets new edges, to nodes that do not reach it. -/
theorem acyclic_of_new_edges (h : Acyclic R)
    (hother : ∀ a b, a ≠ o → R' a b → R a b) (hnew : ∀ b, R' o b → ¬ ReflTransGen R b o) :
    Acyclic R' := by
  -- A cycle through `o` leaves it by a new edge and comes back to it.
  have hcycle : ¬ TransGen R' o o := by
    intro hoo
    obtain ⟨b, hob, hbo⟩ := TransGen.head'_iff.mp hoo
    exact hnew b hob (reaches_of_new_edges hother hbo)
  -- A path that never leaves `o` is an old one.
  have hpath : ∀ a b, TransGen R' a b → TransGen R a b ∨
      (ReflTransGen R' a o ∧ TransGen R' o b) := by
    intro a b hab
    induction hab using TransGen.head_induction_on with
    | @single a hstep => grind
    | @head a c hstep htail ih =>
    by_cases ha : a = o
    · rw [ha] at hstep ⊢
      exact .inr ⟨.refl, .head hstep htail⟩
    · rcases ih with hold | ⟨hco, hob⟩
      · exact .inl (.head (hother a c ha hstep) hold)
      · exact .inr ⟨.head hstep hco, hob⟩
  intro a haa
  rcases hpath a a haa with hold | ⟨hao, hoa⟩
  · exact h a hold
  · exact hcycle (hoa.trans_left hao)

/-- New edges lead to a node without edges of its own. -/
theorem acyclic_of_sink (h : Acyclic R)
    (hother : ∀ a b, b ≠ o → R' a b → R a b) (hsink : ∀ b, ¬ R' o b) : Acyclic R' := by
  have hpath : ∀ a b, b ≠ o → TransGen R' a b → TransGen R a b := by
    intro a b hb hab
    induction hab using TransGen.head_induction_on with
    | @single a hstep => exact .single (hother a b hb hstep)
    | @head a c hstep htail ih =>
    have hc : c ≠ o := by
      rintro rfl
      obtain ⟨d, hd, -⟩ := TransGen.head'_iff.mp htail
      exact hsink d hd
    exact .head (hother a c hc hstep) ih
  intro a haa
  have ha : a ≠ o := by
    rintro rfl
    obtain ⟨d, hd, -⟩ := TransGen.head'_iff.mp haa
    exact hsink d hd
  exact h a (hpath a a ha haa)

end Seele.Lib
