import Mathlib.Logic.Basic
import Mathlib.Data.List.Basic

/-!
# Pre- and postconditions for commands that keep their state on an error

`EStateM ε σ α` is a command that reads and writes a state `σ` and returns a value or an error,
where an error keeps the state it was raised in. `Ends P x Q E`: from a state that satisfies `P`, a
value and its state satisfy `Q`, and the state that an error leaves satisfies `E`. `Triple P x Q` is
total correctness: the command returns a value, without an error. It is `Ends` with an impossible
error, which is how the rules for loops are proved once for both (`triple_iff_ends`).
-/

namespace Seele.Lib

variable {ε σ α β : Type}

/-! ## Commands that may fail -/

/-- From every state that satisfies `P`, the command `x` returns a value and a state with `Q`, or
fails and leaves a state with `E`. -/
def Ends (P : σ → Prop) (x : EStateM ε σ α) (Q : α → σ → Prop) (E : σ → Prop) : Prop :=
  ∀ s, P s → match x.run s with
    | .ok a s' => Q a s'
    | .error _ s' => E s'

variable {P E : σ → Prop} {x : EStateM ε σ α} {Q' R : α → σ → Prop} {P' : σ → Prop}

/-- Strengthening the precondition and weakening the postconditions. -/
theorem Ends.conseq {Q : α → σ → Prop} {E' : σ → Prop} (h : Ends P x Q E)
    (hP : ∀ s, P' s → P s) (hQ : ∀ a s, Q a s → Q' a s) (hE : ∀ s, E s → E' s) :
    Ends P' x Q' E' := by
  intro s hs
  have hend := h s (hP s hs)
  grind

variable {Q : β → σ → Prop}

/-- Two commands in sequence, with the first one's postcondition as the second one's precondition.
The sequence fails when either of them does. -/
theorem Ends.bind {f : α → EStateM ε σ β} (hx : Ends P x R E)
    (hf : ∀ a, Ends (R a) (f a) Q E) : Ends P (x >>= f) Q E := by
  intro s hs
  have hend := hx s hs
  rw [EStateM.run_bind]
  cases hxs : x.run s with
  | ok a s' =>
    rw [hxs] at hend
    exact hf a s' hend
  | error e s' =>
    rw [hxs] at hend
    exact hend

variable {f : β → α → EStateM ε σ β}

/-- A loop over a list that threads an accumulator: an invariant on the elements done so far, the
accumulator and the state, that every iteration carries over one more element or fails with. -/
theorem Ends.foldlM (I : List α → β → σ → Prop) (l : List α)
    (step : ∀ done a rest b, l = done ++ a :: rest →
      Ends (I done b) (f b a) (fun b' => I (done ++ [a]) b') E) (b : β) :
    Ends (I [] b) (l.foldlM f b) (fun b' => I l b') E := by
  -- The induction is on what is left, with what is done kept in front of it.
  have key : ∀ rest done b, l = done ++ rest →
      Ends (I done b) (rest.foldlM f b) (fun b' => I l b') E := by
    intro rest
    induction rest with
    | nil =>
      intro done b hl
      rw [List.append_nil] at hl
      subst hl
      exact fun s hs => hs
    | cons a rest ih => grind [Ends.bind]
  exact key l [] b rfl

/-- A loop over a list without an accumulator is one whose accumulator is trivial. -/
theorem forM_list_eq_foldlM (f : α → EStateM ε σ PUnit) (l : List α) :
    forM l f = l.foldlM (fun _ a => f a) PUnit.unit := by
  induction l with
  | nil => rfl
  | cons a l ih => rw [List.forM_cons, List.foldlM_cons, ih]

/-- A loop over a list without an accumulator. -/
theorem Ends.forM_list {f : α → EStateM ε σ PUnit} (I : List α → σ → Prop) (l : List α)
    (step : ∀ done a rest, l = done ++ a :: rest → Ends (I done) (f a) (fun _ => I (done ++ [a])) E)
    : Ends (I []) (forM l f) (fun _ => I l) E := by
  rw [forM_list_eq_foldlM]
  exact .foldlM (fun done _ => I done) l (fun done a rest _ => step done a rest) PUnit.unit

/-! ## Commands that succeed -/

/-- From every state that satisfies `P`, the command `x` succeeds, and its value and its final
state satisfy `Q`. -/
def Triple (P : σ → Prop) (x : EStateM ε σ α) (Q : α → σ → Prop) : Prop :=
  ∀ s, P s → ∃ a s', x.run s = .ok a s' ∧ Q a s'

/-- Success is an ending whose error is impossible. -/
theorem triple_iff_ends {Q : α → σ → Prop} : Triple P x Q ↔ Ends P x Q fun _ => False := by
  refine forall_congr' fun s => imp_congr_right fun _ => ?_
  grind

/-- Strengthening the precondition and weakening the postcondition. -/
theorem Triple.conseq {Q : α → σ → Prop} (h : Triple P x Q)
    (hP : ∀ s, P' s → P s) (hQ : ∀ a s, Q a s → Q' a s) : Triple P' x Q' :=
  triple_iff_ends.mpr ((triple_iff_ends.mp h).conseq hP hQ fun _ h => h)

/-- A command that returns a value leaves the state as it is. -/
theorem Triple.pure {a : α} {Q : α → σ → Prop} (h : ∀ s, P s → Q a s) :
    Triple P (Pure.pure a : EStateM ε σ α) Q := by
  intro s hs
  exact ⟨a, s, rfl, h s hs⟩

/-- Two commands in sequence, with the first one's postcondition as the second one's
precondition. -/
theorem Triple.bind {f : α → EStateM ε σ β} (hx : Triple P x R)
    (hf : ∀ a, Triple (R a) (f a) Q) : Triple P (x >>= f) Q :=
  triple_iff_ends.mpr (.bind (triple_iff_ends.mp hx) fun a => triple_iff_ends.mp (hf a))

/-- A command that starts by reading the state: the rest may name the state it read. -/
theorem Triple.get_bind {f : σ → EStateM ε σ β} (hf : ∀ s, P s → Triple (· = s) (f s) Q) :
    Triple P (get >>= f) Q := by
  intro s hs
  obtain ⟨b, s', hfs, hq⟩ := hf s hs s rfl
  exact ⟨b, s', hfs, hq⟩

/-- Writing the state. -/
theorem Triple.set {Q : σ → Prop} (s : σ) (h : Q s) :
    Triple P (set s : EStateM ε σ PUnit) (fun _ => Q) := by
  intro _ _
  exact ⟨⟨⟩, s, rfl, h⟩

/-- A command that starts by writing the state. -/
theorem Triple.set_bind {s : σ} {f : PUnit → EStateM ε σ β} (hf : Triple (· = s) (f ⟨⟩) Q) :
    Triple P (MonadStateOf.set s >>= f) Q := by
  intro _ _
  obtain ⟨b, s', hfs, hq⟩ := hf s rfl
  exact ⟨b, s', hfs, hq⟩

/-- A loop over a list that threads an accumulator. -/
theorem Triple.foldlM (I : List α → β → σ → Prop) (l : List α)
    (step : ∀ done a rest b, l = done ++ a :: rest →
      Triple (I done b) (f b a) (fun b' => I (done ++ [a]) b')) (b : β) :
    Triple (I [] b) (l.foldlM f b) (fun b' => I l b') :=
  triple_iff_ends.mpr <| Ends.foldlM I l
    (fun done a rest b hl => triple_iff_ends.mp (step done a rest b hl)) b

/-- A loop over a list without an accumulator. -/
theorem Triple.forM_list {f : α → EStateM ε σ PUnit} (I : List α → σ → Prop) (l : List α)
    (step : ∀ done a rest, l = done ++ a :: rest →
      Triple (I done) (f a) (fun _ => I (done ++ [a]))) :
    Triple (I []) (forM l f) (fun _ => I l) :=
  triple_iff_ends.mpr <| Ends.forM_list I l
    fun done a rest hl => triple_iff_ends.mp (step done a rest hl)

end Seele.Lib
