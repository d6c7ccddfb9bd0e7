import OacTreeServer.Library.Outcome

/-!
# Programs whose calls are recorded

A program that calls other programs through an interface can be run with an interface that
writes each call down, with its answer. `Records` says that such a run is the run of the
program itself, and that the record only grows.
-/

namespace OacTreeServer.Library

variable {E S A B C : Type}

/-- The state behind a program that goes on with another one. -/
theorem after_bind (program : ExceptT E (StateM S) A) (next : A → ExceptT E (StateM S) B)
    (s : S) :
    after (program >>= next) s =
      match outcome program s with
      | .ok a => after (next a) (after program s)
      | .error _ => after program s := by
  rw [after, run_run_bind]
  cases outcome program s <;> rfl

/-- A program whose run is recorded as one call, described by what it answers. -/
def recordCall (program : ExceptT E (StateM S) A) (call : Except E A → C) :
    ExceptT E (StateM (S × List C)) A :=
  ExceptT.mk fun s ↦
    (outcome program s.1, after program s.1, s.2 ++ [call (outcome program s.1)])

/-- A recorded call answers what the program does. -/
@[simp] theorem outcome_recordCall (program : ExceptT E (StateM S) A) (call : Except E A → C)
    (s : S × List C) : outcome (recordCall program call) s = outcome program s.1 := rfl

/-- A recorded call changes the state as the program does, and is added to the record. -/
@[simp] theorem after_recordCall (program : ExceptT E (StateM S) A) (call : Except E A → C)
    (s : S × List C) :
    after (recordCall program call) s =
      (after program s.1, s.2 ++ [call (outcome program s.1)]) := rfl

/-- The second program is the first one with a record of its calls, which change the state as
`effect` says. -/
def Records (effect : S → C → S) (program : ExceptT E (StateM S) A)
    (recorded : ExceptT E (StateM (S × List C)) A) : Prop :=
  ∀ s calls, outcome recorded (s, calls) = outcome program s ∧
    ∃ made : List C, after recorded (s, calls) = (after program s, calls ++ made) ∧
      made.foldl effect s = after program s

variable {effect : S → C → S}

/-- A program that does nothing has nothing to record. -/
theorem records_pure (a : A) :
    Records effect (pure a : ExceptT E (StateM S) A) (pure a) :=
  fun _ calls ↦ ⟨rfl, [], congrArg (Prod.mk _) (List.append_nil calls).symm, rfl⟩

/-- A recorded call records the program. -/
theorem records_recordCall {program : ExceptT E (StateM S) A} {call : Except E A → C}
    (heffect : ∀ s answer, effect s (call answer) = after program s) :
    Records effect program (recordCall program call) := by
  intro s calls
  refine ⟨rfl, [call (outcome program s)], rfl, ?_⟩
  exact heffect s _

/-- The record of a program that goes on with another one. -/
theorem records_bind {program : ExceptT E (StateM S) A}
    {recorded : ExceptT E (StateM (S × List C)) A} {next : A → ExceptT E (StateM S) B}
    {recordedNext : A → ExceptT E (StateM (S × List C)) B}
    (h : Records effect program recorded)
    (hnext : ∀ a, Records effect (next a) (recordedNext a)) :
    Records effect (program >>= next) (recorded >>= recordedNext) := by
  intro s calls
  obtain ⟨hout, made, hafter, heffect⟩ := h s calls
  rw [outcome_bind, outcome_bind, after_bind, after_bind, hout, hafter]
  cases outcome program s with
  | error e => exact ⟨rfl, made, rfl, heffect⟩
  | ok a =>
    obtain ⟨hout', made', hafter', heffect'⟩ := hnext a (after program s) (calls ++ made)
    refine ⟨hout', made ++ made', ?_, ?_⟩
    · rw [← List.append_assoc]
      exact hafter'
    · rw [List.foldl_append, heffect]
      exact heffect'

/-- The calls that a program makes when it is started in a state. -/
def callsMade (recorded : ExceptT E (StateM (S × List C)) A) (s : S) : List C :=
  (after recorded (s, [])).2

/-- A recorded program has the outcome of the program. -/
theorem Records.outcome_eq {program : ExceptT E (StateM S) A}
    {recorded : ExceptT E (StateM (S × List C)) A} (h : Records effect program recorded) (s : S) :
    outcome recorded (s, []) = outcome program s :=
  (h s []).1

/-- The calls that were made account for the state behind the program. -/
theorem Records.foldl_callsMade {program : ExceptT E (StateM S) A}
    {recorded : ExceptT E (StateM (S × List C)) A} (h : Records effect program recorded) (s : S) :
    (callsMade recorded s).foldl effect s = after program s := by
  obtain ⟨-, made, hafter, heffect⟩ := h s []
  rw [callsMade, hafter]
  exact heffect

/-- Calls that change nothing leave the state as it was. -/
theorem foldl_effect_eq {calls : List C} {s : S}
    (h : ∀ call ∈ calls, effect s call = s) : calls.foldl effect s = s := by
  induction calls with
  | nil => rfl
  | cons call rest ih =>
    rw [List.foldl_cons, h call List.mem_cons_self]
    exact ih fun c hc ↦ h c (List.mem_cons_of_mem _ hc)

/-- A program that is started behind some calls ends with calls and an outcome of this kind,
whatever the called programs answer. -/
def EndsIn (ends : List C → Except E A → Prop) (recorded : ExceptT E (StateM (S × List C)) A)
    (calls : List C) : Prop :=
  ∀ s, ends (after recorded (s, calls)).2 (outcome recorded (s, calls))

/-- A program that returns ends with the calls that were made. -/
theorem endsIn_pure {ends : List C → Except E A → Prop} {calls : List C} {a : A}
    (h : ends calls (.ok a)) : EndsIn (S := S) ends (pure a) calls :=
  fun _ ↦ h

/-- A program that calls another one goes on with each answer, and ends with each exception. -/
theorem endsIn_recordCall_bind {ends : List C → Except E B → Prop}
    {program : ExceptT E (StateM S) A} {call : Except E A → C}
    {next : A → ExceptT E (StateM (S × List C)) B} {calls : List C}
    (herror : ∀ e, ends (calls ++ [call (.error e)]) (.error e))
    (hok : ∀ a, EndsIn ends (next a) (calls ++ [call (.ok a)])) :
    EndsIn ends (recordCall program call >>= next) calls := by
  intro s
  rw [outcome_bind, after_bind, outcome_recordCall, after_recordCall]
  cases outcome program s with
  | error e => exact herror e
  | ok a => exact hok a (after program s)

/-- Every call of a list is one that the calls before it allow. -/
def EveryCall (allowed : List C → C → Prop) (calls : List C) : Prop :=
  ∀ before call later, calls = before ++ call :: later → allowed before call

/-- Nothing is called in an empty list. -/
@[simp] theorem everyCall_nil (allowed : List C → C → Prop) : EveryCall allowed [] := by
  intro before call later h
  cases before <;> cases h

/-- The first call is allowed by none, and comes before each of the others. -/
@[simp] theorem everyCall_cons (allowed : List C → C → Prop) (call : C) (calls : List C) :
    EveryCall allowed (call :: calls) ↔
      allowed [] call ∧ EveryCall (fun before ↦ allowed (call :: before)) calls := by
  constructor
  · intro h
    refine ⟨h [] call calls rfl, fun before c later hcalls ↦ ?_⟩
    exact h (call :: before) c later (congrArg (List.cons call) hcalls)
  · rintro ⟨hfirst, hrest⟩ before c later hcalls
    cases before with
    | nil =>
      cases hcalls
      exact hfirst
    | cons b before =>
      cases hcalls
      exact hrest before c later rfl

end OacTreeServer.Library
