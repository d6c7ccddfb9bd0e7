import Mathlib.Control.Basic

/-!
# Programs that change a state and may throw

A program of `ExceptT E (StateM S)` has an outcome and leaves a state behind in every state
it is started in, whether it throws or not. `ThrowsOnly` says which exceptions an outcome may
be; the rules below take it through the constructs of such programs.
-/

namespace OacTreeServer.Library

variable {E S A B : Type}

/-- The result or exception of a program in a state. -/
def outcome (program : ExceptT E (StateM S) A) (s : S) : Except E A := (program.run.run s).1

/-- The state behind a program. -/
def after (program : ExceptT E (StateM S) A) (s : S) : S := (program.run.run s).2

/-- An outcome that is a result or one of these exceptions. -/
def ThrowsOnly (allowed : E → Prop) (result : Except E A) : Prop :=
  ∀ e, result = .error e → allowed e

variable {allowed : E → Prop}

/-- A result is no exception. -/
@[simp] theorem throwsOnly_ok (a : A) : ThrowsOnly allowed (.ok a : Except E A) :=
  fun _ h ↦ nomatch h

/-- An exception has to be allowed. -/
@[simp] theorem throwsOnly_error (e : E) :
    ThrowsOnly allowed (.error e : Except E A) ↔ allowed e := by
  constructor
  · intro h
    exact h e rfl
  · intro h e' he'
    cases he'
    exact h

/-- A program that goes on with another one, with the state behind it. -/
theorem run_run_bind (program : ExceptT E (StateM S) A) (next : A → ExceptT E (StateM S) B)
    (s : S) :
    (program >>= next).run.run s =
      match outcome program s with
      | .ok a => (next a).run.run (after program s)
      | .error e => (.error e, after program s) := by
  unfold outcome after
  rw [ExceptT.run_bind, StateT.run_bind]
  cases program.run.run s with
  | mk result s' =>
    cases result <;> rfl

/-- A program that goes on with another one. -/
theorem outcome_bind (program : ExceptT E (StateM S) A) (next : A → ExceptT E (StateM S) B)
    (s : S) :
    outcome (program >>= next) s =
      match outcome program s with
      | .ok a => outcome (next a) (after program s)
      | .error e => .error e := by
  rw [outcome, run_run_bind]
  cases outcome program s <;> rfl

/-- A program with a handler for its exceptions. -/
theorem outcome_tryCatch (program : ExceptT E (StateM S) A)
    (handler : E → ExceptT E (StateM S) A) (s : S) :
    outcome (tryCatch program handler) s =
      match outcome program s with
      | .ok a => .ok a
      | .error e => outcome (handler e) (after program s) := by
  unfold outcome after
  rw [ExceptT.run_tryCatch, StateT.run_bind]
  cases h : program.run.run s with
  | mk result s' =>
    cases result <;> rfl

/-- A program that goes on with another one throws what either of them does. -/
theorem throwsOnly_bind (program : ExceptT E (StateM S) A) (next : A → ExceptT E (StateM S) B)
    (s : S) :
    ThrowsOnly allowed (outcome (program >>= next) s) ↔
      ThrowsOnly allowed (outcome program s) ∧
        ∀ a, outcome program s = .ok a →
          ThrowsOnly allowed (outcome (next a) (after program s)) := by
  rw [outcome_bind]
  cases outcome program s with
  | ok a =>
    constructor
    · intro h
      refine ⟨throwsOnly_ok a, fun b hb ↦ ?_⟩
      cases hb
      exact h
    · intro h
      exact h.2 a rfl
  | error e =>
    constructor
    · intro h
      exact ⟨(throwsOnly_error e).mpr ((throwsOnly_error e).mp h), nofun⟩
    · intro h
      exact (throwsOnly_error e).mpr ((throwsOnly_error e).mp h.1)

/-- A check that throws what is allowed before the rest of a program. -/
theorem throwsOnly_guard (c : Prop) [Decidable c] {e : E} (he : allowed e)
    (next : PUnit → ExceptT E (StateM S) A) (s : S) :
    ThrowsOnly allowed (outcome (if c then do
        let r ← throw e
        next r
      else next ⟨⟩) s) ↔ (¬ c → ThrowsOnly allowed (outcome (next ⟨⟩) s)) := by
  split
  · next hc =>
    constructor
    · intro _ hnot
      exact absurd hc hnot
    · intro _
      exact (throwsOnly_error e).mpr he
  · next hc =>
    constructor
    · intro hnext _
      exact hnext
    · intro hnext
      exact hnext hc

end OacTreeServer.Library
