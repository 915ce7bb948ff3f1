import Mathlib.Logic.Basic
import Mathlib.Order.Defs.Unbundled

/-!
# Commands that can fail or stop

`Cmd ε σ α` is a command on a state `σ`. It returns a value or an error of type `ε`, and an error
keeps the state it was raised in; or it stops the machine for good, and then there is no next state.

`Cmd.Always R x` says that every result of the command `x` is related by `R` to the state it was
started in. For a reflexive and transitive `R` it follows from the same statement about the commands
that `x` is made of. `Cmd.NeverFails x` says that the command `x` returns no error.
-/

namespace Seele.Lib

/-- A command on the state `σ` with errors `ε`; `none` is the stopped machine. -/
def Cmd (ε σ α : Type) : Type :=
  σ → Option (Except ε α × σ)

namespace Cmd

variable {ε σ α β : Type}

instance : Monad (Cmd ε σ) where
  pure a := fun s => some (.ok a, s)
  bind x f := fun s =>
    match x s with
    | none => none
    | some (.error e, t) => some (.error e, t)
    | some (.ok a, t) => f a t

/-- The machine stops. -/
def panic : Cmd ε σ α :=
  fun _ => none

/-- The command ends with an error. -/
def throw (e : ε) : Cmd ε σ α :=
  fun s => some (.error e, s)

/-- The current state. -/
def get : Cmd ε σ σ :=
  fun s => some (.ok s, s)

/-- A change of the state. -/
def modify (f : σ → σ) : Cmd ε σ Unit :=
  fun s => some (.ok (), f s)

/-- The outcome of a command as a value: an error of it is not passed on. -/
def attempt (x : Cmd ε σ α) : Cmd ε σ (Except ε α) :=
  fun s => (x s).map fun r => (.ok r.1, r.2)

/-- The value of an option; the machine stops if there is none. -/
def orPanic : Option α → Cmd ε σ α
  | none => panic
  | some a => pure a

/-- A loop over a list. -/
def each (f : α → Cmd ε σ Unit) : List α → Cmd ε σ Unit
  | [] => pure ()
  | a :: l => do
    f a
    each f l

/-- The state after a command, whatever it returns. -/
def next (x : Cmd ε σ α) (s : σ) : Option σ :=
  (x s).map Prod.snd

/-! ## Inversion: what a result says about the parts of a command -/

variable {x : Cmd ε σ α} {s s' : σ}

/-- The state after a command. -/
theorem next_eq_some : x.next s = some s' ↔ ∃ r, x s = some (r, s') := by
  unfold next
  simp

variable {r : Except ε α} {t : σ}

/-- A command has one outcome. -/
theorem run_eq_some {v : Except ε α} (h : x s = some (v, t)) :
    x s = some (r, s') ↔ r = v ∧ s' = t := by
  rw [h, Option.some.injEq, Prod.mk.injEq, eq_comm, @eq_comm _ t]

variable {a : α}

/-- `pure` returns its value. -/
theorem pure_eq_some :
    (Pure.pure a : Cmd ε σ α) s = some (r, s') ↔ r = .ok a ∧ s' = s :=
  run_eq_some rfl

variable {e : ε}

/-- `throw` returns its error. -/
theorem throw_eq_some :
    (throw e : Cmd ε σ α) s = some (r, s') ↔ r = .error e ∧ s' = s :=
  run_eq_some rfl

/-- `modify` changes the state. -/
theorem modify_eq_some {f : σ → σ} {r : Except ε Unit} :
    (modify f : Cmd ε σ Unit) s = some (r, s') ↔ r = .ok () ∧ s' = f s :=
  run_eq_some rfl

variable {f : α → Cmd ε σ β}

/-- A sequence returns because its first part returned a value and the rest returned, or because its
first part returned an error. -/
theorem bind_eq_some {r : Except ε β} : (x >>= f) s = some (r, s') ↔
      (∃ a t, x s = some (.ok a, t) ∧ f a t = some (r, s')) ∨
        ∃ e, x s = some (.error e, s') ∧ r = .error e := by
  show (match x s with
    | none => none
    | some (.error e, t) => some (.error e, t)
    | some (.ok a, t) => f a t) = some (r, s') ↔ _
  grind

/-- In the state `s`, the command returns an error or a value with the property, and changes
nothing. -/
def Finds (s : σ) (x : Cmd ε σ α) (P : α → Prop) : Prop :=
  ∀ r s', x s = some (r, s') → s' = s ∧ ((∃ e, r = .error e) ∨ ∃ a, r = .ok a ∧ P a)

variable {P : α → Prop}

/-- A search fails, or the rest goes on from the same state. -/
theorem Finds.bind_cases {r : Except ε β} (hx : Finds s x P) (h : (x >>= f) s = some (r, s')) :
    (∃ e, r = .error e) ∧ s' = s ∨ ∃ a, P a ∧ f a s = some (r, s') := by
  rcases bind_eq_some.mp h with ⟨a, t, ha, hf⟩ | ⟨e, he, rfl⟩
  · obtain ⟨rfl, ⟨e, he⟩ | ⟨a', ha', hP⟩⟩ := hx _ _ ha
    · cases he
    · cases ha'
      exact .inr ⟨a, hP, hf⟩
  · exact .inl ⟨⟨e, rfl⟩, (hx _ _ he).1⟩

/-- The state is read first. -/
theorem Finds.get {g : σ → Cmd ε σ α} (h : Finds s (g s) P) :
    Finds s (get >>= g) P :=
  h

/-- An error finds nothing. -/
theorem Finds.throw : Finds s (throw e) P := by
  rintro r s' ⟨⟩
  exact ⟨rfl, .inl ⟨e, rfl⟩⟩

/-- A value is found. -/
theorem Finds.pure (h : P a) : Finds s (Pure.pure a : Cmd ε σ α) P := by
  rintro r s' ⟨⟩
  exact ⟨rfl, .inr ⟨a, rfl, h⟩⟩

/-- Less is said of what is found. -/
theorem Finds.mono {Q : α → Prop} (hx : Finds s x P) (h : ∀ a, P a → Q a) : Finds s x Q := by
  intro r s' hrun
  obtain ⟨hs, herror | ⟨a, hr, ha⟩⟩ := hx r s' hrun
  · exact ⟨hs, .inl herror⟩
  · exact ⟨hs, .inr ⟨a, hr, h a ha⟩⟩

/-- One search after another. -/
theorem Finds.bind {Q : β → Prop} (hx : Finds s x P)
    (hf : ∀ a, P a → Finds s (f a) Q) : Finds s (x >>= f) Q := by
  intro r s' h
  obtain ⟨herror, hs⟩ | ⟨a, ha, h⟩ := hx.bind_cases h
  · exact ⟨hs, .inl herror⟩
  · exact hf a ha r s' h

/-- A command that starts with a check fails with the error of the check, or goes on. -/
theorem check_eq_some {c : Prop} [Decidable c] {f : β → Cmd ε σ α}
    (h : (if c then throw e >>= f else x) s = some (r, s')) :
    (c ∧ r = .error e ∧ s' = s) ∨ ¬ c ∧ x s = some (r, s') := by
  by_cases hc : c
  · rw [if_pos hc] at h
    cases h
    exact .inl ⟨hc, rfl, rfl⟩
  · rw [if_neg hc] at h
    exact .inr ⟨hc, h⟩

/-! ## Running commands -/

/-- A sequence whose first part returns a value goes on with it. -/
theorem bind_of_ok (h : x s = some (.ok a, t)) : (x >>= f) s = f a t := by
  show (match x s with
    | none => none
    | some (.error e, t) => some (.error e, t)
    | some (.ok a, t) => f a t) = f a t
  rw [h]

/-- A value is passed on. -/
@[simp]
theorem pure_bind_run : ((Pure.pure a : Cmd ε σ α) >>= f) s = f a s := rfl

/-- A command that starts by reading the state goes on with it. -/
@[simp]
theorem get_bind {f : σ → Cmd ε σ β} : (get >>= f) s = f s s := rfl

/-- A command that starts by changing the state goes on with the changed one. -/
@[simp]
theorem modify_bind {g : σ → σ} {f : Unit → Cmd ε σ β} : (modify g >>= f) s = f () (g s) := rfl

/-- A choice between two commands is made before the state is looked at. -/
theorem ite_run {c : Prop} [Decidable c] {y : Cmd ε σ α} :
    (if c then x else y) s = if c then x s else y s := by
  grind

/-- A loop over commands that always return, as a fold of what they do. -/
theorem each_of_ok {f : α → Cmd ε σ Unit} {g : σ → α → σ}
    (h : ∀ a s, f a s = some (.ok (), g s a)) (l : List α) (s : σ) :
    each f l s = some (.ok (), l.foldl g s) := by
  induction l generalizing s with
  | nil => rfl
  | cons a l ih =>
    rw [each, bind_of_ok (h a s), ih]
    rfl

/-- A sequence whose first part stops the machine stops it. -/
theorem bind_of_none (h : x s = none) : (x >>= f) s = none := by
  show (match x s with
    | none => none
    | some (.error e, t) => some (.error e, t)
    | some (.ok a, t) => f a t) = none
  rw [h]

/-- A command that starts with the value of an option, in a run that returns. -/
theorem orPanic_bind_eq_some {o : Option α} {r : Except ε β}
    (h : (orPanic o >>= f) s = some (r, s')) : ∃ a, o = some a ∧ f a s = some (r, s') := by
  cases o with
  | none => exact absurd h (by simp [orPanic, panic, bind])
  | some a => exact ⟨a, rfl, h⟩

/-! ## Relations that every result satisfies -/

/-- Every result of the command is related to the state it started in. -/
def Always (R : σ → σ → Prop) (x : Cmd ε σ α) : Prop :=
  ∀ s r s', x s = some (r, s') → R s s'

variable {R : σ → σ → Prop}

/-- A value changes nothing. -/
theorem Always.pure [Std.Refl R] (a : α) : Always R (Pure.pure a : Cmd ε σ α) := by
  intro s r s' h
  obtain ⟨-, rfl⟩ := pure_eq_some.mp h
  exact refl _

/-- An error changes nothing. -/
theorem Always.throw [Std.Refl R] (e : ε) : Always R (throw e : Cmd ε σ α) := by
  intro s r s' h
  obtain ⟨-, rfl⟩ := throw_eq_some.mp h
  exact refl _

/-- A panic has no outcome. -/
theorem Always.panic : Always R (Cmd.panic : Cmd ε σ α) := by
  intro s r s' h
  exact absurd h (by simp [Cmd.panic])

/-- The change is one of the relation. -/
theorem Always.modify {f : σ → σ} (h : ∀ s, R s (f s)) :
    Always R (modify f : Cmd ε σ Unit) := by
  intro s r s' hrun
  obtain ⟨-, rfl⟩ := modify_eq_some.mp hrun
  exact h s

/-- One command after another. -/
theorem Always.bind [IsTrans σ R] (hx : Always R x) (hf : ∀ a, Always R (f a)) :
    Always R (x >>= f) := by
  intro s r s' h
  rcases bind_eq_some.mp h with ⟨a, t, h1, h2⟩ | ⟨e, h1, -⟩
  · exact trans_of R (hx s _ t h1) (hf a t r s' h2)
  · exact hx s _ s' h1

/-- After reading the state, the rest may use what was read. -/
theorem Always.get_bind {f : σ → Cmd ε σ β}
    (h : ∀ s r s', f s s = some (r, s') → R s s') : Always R (get >>= f) :=
  h

/-- The errors are caught. -/
theorem Always.attempt (h : Always R x) : Always R x.attempt := by
  intro s r s' hrun
  obtain ⟨out, hx, hout⟩ := Option.map_eq_some_iff.mp hrun
  obtain ⟨-, rfl⟩ := Prod.mk.inj hout
  exact h s out.1 out.2 hx

/-- A value, or a panic. -/
theorem Always.orPanic [Std.Refl R] (o : Option α) : Always R (orPanic o : Cmd ε σ α) := by
  cases o with
  | none => exact .panic
  | some a => exact .pure a

/-- A loop over a list keeps the relation if every iteration does. -/
theorem Always.each [Std.Refl R] [IsTrans σ R] {f : α → Cmd ε σ Unit} {l : List α}
    (h : ∀ a ∈ l, Always R (f a)) : Always R (each f l) := by
  induction l with
  | nil => exact .pure ()
  | cons a l ih =>
    have hrest := ih fun b hb => h b (List.mem_cons_of_mem a hb)
    exact (h a List.mem_cons_self).bind fun _ => hrest

/-! ## Commands without errors -/

/-- The command returns no error. -/
def NeverFails (x : Cmd ε σ α) : Prop :=
  ∀ s e s', x s ≠ some (.error e, s')

/-- A value is no error. -/
theorem NeverFails.pure (a : α) : NeverFails (Pure.pure a : Cmd ε σ α) := by
  intro s e s' h
  obtain ⟨hr, -⟩ := pure_eq_some.mp h
  cases hr

/-- A change is no error. -/
theorem NeverFails.modify (f : σ → σ) : NeverFails (modify f : Cmd ε σ Unit) := by
  intro s e s' h
  obtain ⟨hr, -⟩ := modify_eq_some.mp h
  cases hr

/-- One command after another. -/
theorem NeverFails.bind (hx : NeverFails x) (hf : ∀ a, NeverFails (f a)) :
    NeverFails (x >>= f) := by
  intro s e s' h
  rcases bind_eq_some.mp h with ⟨a, t, -, h2⟩ | ⟨e', h1, -⟩
  · exact hf a t e s' h2
  · exact hx s e' s' h1

/-- Reading is no error. -/
theorem NeverFails.get : NeverFails (get : Cmd ε σ σ) := by
  intro s e s' h
  cases Prod.mk.inj (Option.some.inj h) |>.1

/-- A panic is no error. -/
theorem NeverFails.orPanic (o : Option α) : NeverFails (Cmd.orPanic o : Cmd ε σ α) := by
  cases o with
  | none => exact fun s e s' h => absurd h (by simp [Cmd.orPanic, Cmd.panic])
  | some a => exact .pure a

/-- The errors are caught. -/
theorem NeverFails.attempt (x : Cmd ε σ α) : NeverFails x.attempt := by
  intro s e s' h
  obtain ⟨out, -, hout⟩ := Option.map_eq_some_iff.mp h
  cases (Prod.mk.inj hout).1

/-- A loop of such commands. -/
theorem NeverFails.each {f : α → Cmd ε σ Unit} (h : ∀ a, NeverFails (f a)) :
    ∀ l : List α, NeverFails (each f l)
  | [] => NeverFails.pure ()
  | a :: l => (h a).bind fun _ => NeverFails.each h l

end Cmd

end Seele.Lib
