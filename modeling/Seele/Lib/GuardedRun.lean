import Mathlib.Logic.Basic
import Mathlib.Data.List.Basic

/-!
# Runs whose steps meet a condition

A system takes steps `exec op s`, which may have no result: then the system has stopped and there is
no next state. `runOps` takes a list of steps one after another, and `SafeRun` says that each of
them meets the condition `Safe` in the state it starts from. An invariant that every safe step keeps
holds at the end of a safe run (`SafeRun.invariant`), and so a safe step that follows a safe run
starts from a state with the invariant (`SafeRun.split`).
-/

namespace Seele.Lib

variable {σ ο : Type} (exec : ο → σ → Option σ) (Safe : ο → σ → Prop)

/-- The state after a list of steps, if all of them have a result. -/
def runOps : List ο → σ → Option σ
  | [], s => some s
  | op :: ops, s => (exec op s).bind (runOps ops)

/-- Every step of the run meets the condition in the state it starts from. -/
def SafeRun : List ο → σ → Prop
  | [], _ => True
  | op :: ops, s => Safe op s ∧ (match exec op s with
    | none => True
    | some s' => SafeRun ops s')

/-- Whether a run is safe can be decided by running it. -/
instance SafeRun.decidable [h : ∀ op s, Decidable (Safe op s)] :
    ∀ ops s, Decidable (SafeRun exec Safe ops s)
  | [], _ => .isTrue trivial
  | op :: ops, s =>
    have : Decidable (match exec op s with
        | none => True
        | some s' => SafeRun exec Safe ops s') :=
      match exec op s with
      | none => .isTrue trivial
      | some s' => SafeRun.decidable ops s'
    inferInstanceAs (Decidable (Safe op s ∧ _))

variable {exec Safe} {I : σ → Prop}

/-- An invariant of every safe step holds at the end of a safe run. -/
theorem SafeRun.invariant (hstep : ∀ op s s', Safe op s → exec op s = some s' → I s → I s') :
    ∀ {ops : List ο} {s s' : σ}, SafeRun exec Safe ops s → I s → runOps exec ops s = some s' → I s'
  | [], s, s', _, hs, hrun => by
    cases hrun
    exact hs
  | op :: ops, s, s', hsafe, hs, hrun => by
    obtain ⟨t, ht, hrun⟩ := Option.bind_eq_some_iff.mp hrun
    obtain ⟨hop, hrest⟩ := hsafe
    rw [ht] at hrest
    exact SafeRun.invariant hstep hrest (hstep op s t hop ht hs) hrun

/-- Every run meets the condition that is always met. -/
theorem SafeRun.unguarded : ∀ (ops : List ο) (s : σ), SafeRun exec (fun _ _ => True) ops s
  | [], _ => trivial
  | op :: ops, s => by
    refine ⟨trivial, ?_⟩
    cases exec op s with
    | none => exact trivial
    | some t => exact SafeRun.unguarded ops t

/-- An invariant of every step holds at the end of a run. -/
theorem runOps_invariant (hstep : ∀ op s s', exec op s = some s' → I s → I s')
    {ops : List ο} {s s' : σ} (hs : I s) (hrun : runOps exec ops s = some s') : I s' :=
  SafeRun.invariant (fun op s s' _ => hstep op s s') (SafeRun.unguarded ops s) hs hrun

/-- A safe run followed by one more step, cut before that step. -/
theorem SafeRun.split {op : ο} :
    ∀ {ops : List ο} {s t : σ}, SafeRun exec Safe (ops ++ [op]) s → runOps exec ops s = some t →
      SafeRun exec Safe ops s ∧ Safe op t
  | [], s, t, hsafe, hrun => by
    cases hrun
    exact ⟨trivial, hsafe.1⟩
  | o :: ops, s, t, hsafe, hrun => by
    obtain ⟨u, hu, hrun⟩ := Option.bind_eq_some_iff.mp hrun
    obtain ⟨ho, hrest⟩ := hsafe
    rw [hu] at hrest
    obtain ⟨h1, h2⟩ := SafeRun.split hrest hrun
    refine ⟨⟨ho, ?_⟩, h2⟩
    rw [hu]
    exact h1

/-- The first steps of a safe run are a safe run. -/
theorem SafeRun.take : ∀ (n : ℕ) {ops : List ο} {s : σ}, SafeRun exec Safe ops s →
    SafeRun exec Safe (ops.take n) s
  | 0, _, _, _ => trivial
  | _ + 1, [], _, _ => trivial
  | n + 1, op :: ops, s, hsafe => by
    obtain ⟨hop, hrest⟩ := hsafe
    refine ⟨hop, ?_⟩
    cases hs : exec op s with
    | none => exact trivial
    | some t =>
      rw [hs] at hrest
      exact SafeRun.take n hrest

end Seele.Lib
