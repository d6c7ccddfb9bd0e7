import Mathlib.Logic.Function.Basic
import OacTreeServer.Library.CallTree
import OacTreeServer.Library.Machine

/-!
# Operations that take effect at one moment

Any number of callers use one object at the same time. An operation is a program whose calls
of the object are served one by one, in between those of other operations and of what else
happens to the object. `Linearizes` is a condition on a single program; when every program
meets it, each run has the history of a run in which every operation is one indivisible step
somewhere between its invocation and its return.
-/

namespace OacTreeServer.Library

/-- Operations on a shared state that are carried out in phases, and what else may happen to
the state. -/
structure Service (Op : Type) (Result : Op → Type) (Env S : Type) where
  Phase : Op → Type
  start : (op : Op) → Phase op
  /-- The next step of an operation, `none` when there is none. -/
  advance : (op : Op) → Phase op → S → Option (Phase op × S)
  /-- The result of an operation that has nothing left to do. -/
  result : (op : Op) → Phase op → Option (Result op)
  disturb : Env → S → Option S

/-- What an observer sees of the callers and of the surroundings. -/
inductive Event (Op : Type) (Result : Op → Type) (Env : Type) where
  | invoked (caller : Nat) (op : Op)
  | returned (caller : Nat) (op : Op) (result : Result op)
  | disturbed (e : Env)

/-- One step of a caller or of the surroundings. -/
inductive ServiceAction (Op Env : Type) where
  | invoke (caller : Nat) (op : Op)
  | advance (caller : Nat)
  | respond (caller : Nat)
  | disturb (e : Env)
  deriving DecidableEq, Repr

namespace Service

variable {Op : Type} {Result : Op → Type} {Env S : Type}

/-- The shared state, the operations in progress, and what was observed so far. -/
structure State (service : Service Op Result Env S) where
  shared : S
  calls : Nat → Option (Σ op, service.Phase op)
  history : List (Event Op Result Env)

/-- Nothing has been called. -/
def State.initial (service : Service Op Result Env S) (s : S) : service.State :=
  ⟨s, fun _ ↦ none, []⟩

/-- The callers of a service and its surroundings. -/
def machine (service : Service Op Result Env S) : Machine service.State (ServiceAction Op Env) where
  step s
    | .invoke caller op =>
      match s.calls caller with
      | some _ => none
      | none => some { s with
          calls := Function.update s.calls caller (some ⟨op, service.start op⟩)
          history := s.history ++ [.invoked caller op] }
    | .advance caller =>
      match s.calls caller with
      | none => none
      | some ⟨op, phase⟩ => (service.advance op phase s.shared).map fun r ↦ { s with
          shared := r.2
          calls := Function.update s.calls caller (some ⟨op, r.1⟩) }
    | .respond caller =>
      match s.calls caller with
      | none => none
      | some ⟨op, phase⟩ => (service.result op phase).map fun result ↦ { s with
          calls := Function.update s.calls caller none
          history := s.history ++ [.returned caller op result] }
    | .disturb e => (service.disturb e s.shared).map fun shared ↦ { s with
        shared
        history := s.history ++ [.disturbed e] }

/-- Everything that a step can do. -/
inductive Step (service : Service Op Result Env S) (s : service.State) :
    ServiceAction Op Env → service.State → Prop where
  | invoke {caller : Nat} {op : Op} : s.calls caller = none →
      Step service s (.invoke caller op) { s with
        calls := Function.update s.calls caller (some ⟨op, service.start op⟩)
        history := s.history ++ [.invoked caller op] }
  | advance {caller : Nat} {op : Op} {phase next : service.Phase op} {shared : S} :
      s.calls caller = some ⟨op, phase⟩ →
      service.advance op phase s.shared = some (next, shared) →
      Step service s (.advance caller) { s with
        shared
        calls := Function.update s.calls caller (some ⟨op, next⟩) }
  | respond {caller : Nat} {op : Op} {phase : service.Phase op} {result : Result op} :
      s.calls caller = some ⟨op, phase⟩ → service.result op phase = some result →
      Step service s (.respond caller) { s with
        calls := Function.update s.calls caller none
        history := s.history ++ [.returned caller op result] }
  | disturb {e : Env} {shared : S} : service.disturb e s.shared = some shared →
      Step service s (.disturb e) { s with
        shared
        history := s.history ++ [.disturbed e] }

/-- The computed steps are those above. -/
theorem machine_step_iff {service : Service Op Result Env S} {s t : service.State}
    {a : ServiceAction Op Env} : service.machine.step s a = some t ↔ Step service s a t := by
  constructor
  · intro h
    cases a with
    | invoke caller op =>
      simp only [machine] at h
      split at h
      · cases h
      · next hidle =>
        cases h
        exact .invoke hidle
    | advance caller =>
      simp only [machine] at h
      split at h
      · cases h
      · next op phase hcall =>
        obtain ⟨⟨next, shared⟩, hadvance, rfl⟩ := Option.map_eq_some_iff.mp h
        exact .advance hcall hadvance
    | respond caller =>
      simp only [machine] at h
      split at h
      · cases h
      · next op phase hcall =>
        obtain ⟨result, hresult, rfl⟩ := Option.map_eq_some_iff.mp h
        exact .respond hcall hresult
    | disturb e =>
      obtain ⟨shared, hdisturb, rfl⟩ := Option.map_eq_some_iff.mp h
      exact .disturb hdisturb
  · intro h
    cases h with
    | invoke hidle => simp only [machine, hidle]
    | advance hcall hadvance => simp only [machine, hcall, hadvance, Option.map_some]
    | respond hcall hresult => simp only [machine, hcall, hresult, Option.map_some]
    | disturb hdisturb => simp only [machine, hdisturb, Option.map_some]

end Service

section Atomicity

variable {Call : Type} {Answer : Call → Type} {Op : Type} {Result : Op → Type} {Env S : Type}

/-- How an object serves calls, and what else may happen to it. -/
structure SharedObject (Call : Type) (Answer : Call → Type) (Env S : Type) where
  /-- `none` when the call has no defined behaviour in a state. -/
  serve : (c : Call) → S → Option (Answer c × S)
  disturb : Env → S → Option S
  /-- Something else may happen while a program is about to make a call. -/
  Tolerates : Call → S → Env → Prop

namespace SharedObject

variable (o : SharedObject Call Answer Env S)
  (program : (op : Op) → CallTree Answer (Result op))

/-- The calls of each operation are served one by one. -/
def interleaved : Service Op Result Env S where
  Phase op := CallTree Answer (Result op)
  start := program
  advance _ phase s :=
    match phase with
    | .done _ => none
    | .call c next => (o.serve c s).map fun r ↦ (next r.1, r.2)
  result _ phase :=
    match phase with
    | .done result => some result
    | .call _ _ => none
  disturb := o.disturb

/-- Each operation is one indivisible step. -/
def atomic : Service Op Result Env S where
  Phase op := Option (Result op)
  start _ := none
  advance op phase s :=
    match phase with
    | some _ => none
    | none => (CallTree.runAlone o.serve (program op) s).map fun r ↦ (some r.1, r.2)
  result _ phase := phase
  disturb := o.disturb

/-- Nothing happens to the object that a program does not tolerate before its next call. -/
def Tolerated (s : (o.interleaved program).State) : ServiceAction Op Env → Prop
  | .disturb e => ∀ caller op c next, s.calls caller = some ⟨op, .call c next⟩ →
      o.Tolerates c s.shared e
  | _ => True

/-- A property of the object that is kept by the calls of all programs, and by everything that
is tolerated before a call. -/
structure Stable (c : Call) (holds : S → Prop) : Prop where
  serve : ∀ {s t d answer}, holds s → o.serve d s = some (answer, t) → holds t
  disturb : ∀ {s t e}, holds s → o.Tolerates c s e → o.disturb e s = some t → holds t

/-- Two properties that are kept are kept together. -/
theorem Stable.and {o : SharedObject Call Answer Env S} {c : Call} {holds holds' : S → Prop}
    (h : o.Stable c holds) (h' : o.Stable c holds') :
    o.Stable c fun s ↦ holds s ∧ holds' s :=
  ⟨fun hs hserve ↦ ⟨h.serve hs.1 hserve, h'.serve hs.2 hserve⟩,
    fun hs htol hdisturb ↦ ⟨h.disturb hs.1 htol hdisturb, h'.disturb hs.2 htol hdisturb⟩⟩

/-- What holds of every state is kept. -/
theorem stable_true (o : SharedObject Call Answer Env S) (c : Call) :
    o.Stable c fun _ ↦ True :=
  ⟨fun _ _ ↦ trivial, fun _ _ _ ↦ trivial⟩

variable {A : Type} (alone : S → Option (A × S))

/-- In every state with this property, what is left of a program has the effect of the whole
program: its calls are queries up to the last one, which it makes in a state in which the whole
program has the same result and leaves the same state behind. -/
def Linearizes : (S → Prop) → CallTree Answer A → Prop
  | _, .done a => ∀ s, alone s = some (a, s)
  | holds, .call c next => o.Stable c holds ∧ ∀ s, holds s →
      ∃ answer t, o.serve c s = some (answer, t) ∧
        ((∃ a, next answer = .done a ∧ alone s = some (a, t)) ∨
          (t = s ∧ ∃ holds', holds' s ∧ Linearizes holds' (next answer)))

/-- Every program meets the condition in the state in which it is started, whichever that is. -/
def Linearizable : Prop :=
  ∀ op s, ∃ holds, holds s ∧
    o.Linearizes (CallTree.runAlone o.serve (program op)) holds (program op)

/-- How the same call stands when its operation is carried out call by call and when it is one
step: the step is still to come, or it has been taken and only its result is left. -/
inductive CallFollows (s : S) :
    Option (Σ op, CallTree Answer (Result op)) → Option (Σ op, Option (Result op)) → Prop where
  | idle : CallFollows s none none
  | pending {op : Op} {phase : CallTree Answer (Result op)} {holds : S → Prop} :
      holds s → o.Linearizes (CallTree.runAlone o.serve (program op)) holds phase →
      CallFollows s (some ⟨op, phase⟩) (some ⟨op, none⟩)
  | committed {op : Op} (result : Result op) :
      CallFollows s (some ⟨op, .done result⟩) (some ⟨op, some result⟩)

/-- The object and the history are the same, and every call stands in the same way. -/
structure Simulates (c : (o.interleaved program).State) (a : (o.atomic program).State) : Prop where
  shared : a.shared = c.shared
  history : a.history = c.history
  calls : ∀ caller, CallFollows o program c.shared (c.calls caller) (a.calls caller)

variable {o program}

/-- A program without calls that has the result of its operation. -/
private theorem callFollows_done {s : S} {op : Op} {result : Result op}
    (h : ∀ s, CallTree.runAlone o.serve (program op) s = some (result, s)) :
    CallFollows o program s (some ⟨op, .done result⟩) (some ⟨op, none⟩) :=
  have hlin (holds : S → Prop) :
      o.Linearizes (CallTree.runAlone o.serve (program op)) holds (.done result) := h
  .pending trivial (hlin fun _ ↦ True)

/-- No call in progress is none in either way. -/
private theorem CallFollows.of_none {s : S} {abstract : Option (Σ op, Option (Result op))}
    (h : CallFollows o program s none abstract) : abstract = none := by
  generalize hnone : (none : Option (Σ op, CallTree Answer (Result op))) = concrete at h
  cases h with
  | idle => rfl
  | pending hs hlin => cases hnone
  | committed result => cases hnone

/-- An operation that has calls to make has not taken its step. -/
private theorem CallFollows.of_call {s : S} {op : Op} {c : Call}
    {next : Answer c → CallTree Answer (Result op)} {abstract : Option (Σ op, Option (Result op))}
    (h : CallFollows o program s (some ⟨op, .call c next⟩) abstract) :
    abstract = some ⟨op, none⟩ ∧ ∃ holds, holds s ∧
      o.Linearizes (CallTree.runAlone o.serve (program op)) holds (.call c next) := by
  cases h with
  | pending hs hlin => exact ⟨rfl, _, hs, hlin⟩

/-- An operation with a result has taken its step, or takes it without an effect. -/
private theorem CallFollows.of_done {s : S} {op : Op} {result : Result op}
    {abstract : Option (Σ op, Option (Result op))}
    (h : CallFollows o program s (some ⟨op, .done result⟩) abstract) :
    abstract = some ⟨op, some result⟩ ∨ abstract = some ⟨op, none⟩ ∧
      CallTree.runAlone o.serve (program op) s = some (result, s) := by
  cases h with
  | pending hs hlin => exact .inr ⟨rfl, hlin s⟩
  | committed result => exact .inl rfl

/-- A call of one program does not change how the call of another one stands. -/
private theorem CallFollows.serve {s t : S} {d : Call} {answer : Answer d}
    {concrete : Option (Σ op, CallTree Answer (Result op))}
    {abstract : Option (Σ op, Option (Result op))}
    (h : CallFollows o program s concrete abstract) (hserve : o.serve d s = some (answer, t)) :
    CallFollows o program t concrete abstract := by
  cases h with
  | idle => exact .idle
  | @pending op phase holds hs hlin =>
    cases phase with
    | done a => exact callFollows_done hlin
    | call c next => exact .pending (hlin.1.serve hs hserve) hlin
  | committed result => exact .committed result

/-- Nor does anything else that its next call tolerates. -/
private theorem CallFollows.disturb {s t : S} {e : Env}
    {concrete : Option (Σ op, CallTree Answer (Result op))}
    {abstract : Option (Σ op, Option (Result op))}
    (h : CallFollows o program s concrete abstract)
    (htolerated : ∀ op c next, concrete = some ⟨op, .call c next⟩ → o.Tolerates c s e)
    (hdisturb : o.disturb e s = some t) : CallFollows o program t concrete abstract := by
  cases h with
  | idle => exact .idle
  | @pending op phase holds hs hlin =>
    cases phase with
    | done a => exact callFollows_done hlin
    | call c next =>
      exact .pending (hlin.1.disturb hs (htolerated op c next rfl) hdisturb) hlin
  | committed result => exact .committed result

/-- Before anything is called nothing has happened in either way. -/
private theorem Simulates.initial (s : S) :
    Simulates o program (.initial (o.interleaved program) s) (.initial (o.atomic program) s) :=
  ⟨rfl, rfl, fun _ ↦ .idle⟩

/-- The call of one caller stands as it does, and so do all others. -/
private theorem callFollows_update {s : S}
    {concrete : Nat → Option (Σ op, CallTree Answer (Result op))}
    {abstract : Nat → Option (Σ op, Option (Result op))} {caller : Nat}
    {x : Option (Σ op, CallTree Answer (Result op))}
    (hothers : ∀ other, other ≠ caller →
      CallFollows o program s (concrete other) (abstract other))
    (hcaller : CallFollows o program s x (abstract caller)) (other : Nat) :
    CallFollows o program s (Function.update concrete caller x other) (abstract other) := by
  by_cases h : other = caller
  · subst h
    rwa [Function.update_self]
  · rw [Function.update_of_ne h]
    exact hothers other h

/-- The call of one caller goes on in both ways, and all others stand as they do. -/
private theorem callFollows_update_both {s : S}
    {concrete : Nat → Option (Σ op, CallTree Answer (Result op))}
    {abstract : Nat → Option (Σ op, Option (Result op))} {caller : Nat}
    {x : Option (Σ op, CallTree Answer (Result op))} {y : Option (Σ op, Option (Result op))}
    (hothers : ∀ other, CallFollows o program s (concrete other) (abstract other))
    (hcaller : CallFollows o program s x y) (other : Nat) :
    CallFollows o program s (Function.update concrete caller x other)
      (Function.update abstract caller y other) := by
  apply callFollows_update
  · intro other h
    rw [Function.update_of_ne h]
    exact hothers other
  · rwa [Function.update_self]

section Step

variable {c : (o.interleaved program).State} {a : (o.atomic program).State}

/-- An operation that is invoked is still to take its step. -/
private theorem Simulates.invoke (h : Simulates o program c a) {caller : Nat} {op : Op}
    (hidle : c.calls caller = none) {holds : S → Prop} (hs : holds c.shared)
    (hlin : o.Linearizes (CallTree.runAlone o.serve (program op)) holds (program op)) :
    ∃ b, (o.atomic program).machine.step a (.invoke caller op) = some b ∧
      Simulates o program { c with
        calls := Function.update c.calls caller (some ⟨op, program op⟩)
        history := c.history ++ [.invoked caller op] } b := by
  have hcall := h.calls caller
  rw [hidle] at hcall
  refine ⟨_, Service.machine_step_iff.mpr (.invoke hcall.of_none), h.shared, ?_, ?_⟩
  · rw [h.history]
  · exact callFollows_update_both h.calls (.pending hs hlin)

/-- A call of an operation is its step, or leaves the step to a later call. -/
private theorem Simulates.advance (h : Simulates o program c a) {caller : Nat} {op : Op}
    {d : Call} {next : Answer d → CallTree Answer (Result op)}
    (hcaller : c.calls caller = some ⟨op, .call d next⟩) {answer : Answer d} {t : S}
    (hserve : o.serve d c.shared = some (answer, t)) :
    ∃ actions b, (o.atomic program).machine.run a actions = some b ∧
      Simulates o program { c with
        shared := t
        calls := Function.update c.calls caller (some ⟨op, next answer⟩) } b := by
  have hcall := h.calls caller
  rw [hcaller] at hcall
  obtain ⟨habstract, holds, hs, -, hlin⟩ := hcall.of_call
  obtain ⟨answer', t', hserve', hcommits⟩ := hlin c.shared hs
  rw [hserve] at hserve'
  cases hserve'
  cases hcommits with
  | inl hcommit =>
    obtain ⟨result, hnext, halone⟩ := hcommit
    have hadvance : (o.atomic program).advance op none a.shared = some (some result, t) := by
      simp only [atomic, h.shared, halone, Option.map_some]
    refine ⟨[.advance caller], _, Machine.run_singleton _
      (Service.machine_step_iff.mpr (.advance habstract hadvance)), rfl, h.history, ?_⟩
    rw [hnext]
    exact callFollows_update_both (fun other ↦ (h.calls other).serve hserve) (.committed result)
  | inr hquery =>
    obtain ⟨rfl, holds', hs', hlin'⟩ := hquery
    refine ⟨[], a, rfl, h.shared, h.history,
      callFollows_update (fun other _ ↦ h.calls other) ?_⟩
    rw [habstract]
    exact .pending hs' hlin'

/-- The result of an operation is that of its step. -/
private theorem Simulates.respond (h : Simulates o program c a) {caller : Nat} {op : Op}
    {result : Result op} (hcaller : c.calls caller = some ⟨op, .done result⟩) :
    ∃ actions b, (o.atomic program).machine.run a actions = some b ∧
      Simulates o program { c with
        calls := Function.update c.calls caller none
        history := c.history ++ [.returned caller op result] } b := by
  have hcall := h.calls caller
  rw [hcaller] at hcall
  have hafter : Simulates o program { c with
      calls := Function.update c.calls caller none
      history := c.history ++ [.returned caller op result] } { a with
      calls := Function.update a.calls caller none
      history := a.history ++ [.returned caller op result] } :=
    ⟨h.shared, by rw [h.history], callFollows_update_both h.calls .idle⟩
  cases hcall.of_done with
  | inl hcommitted =>
    exact ⟨[.respond caller], _, Machine.run_singleton _
      (Service.machine_step_iff.mpr (.respond hcommitted rfl)), hafter⟩
  | inr hpending =>
    obtain ⟨hpending, halone⟩ := hpending
    have hadvance : (o.atomic program).advance op none a.shared =
        some (some result, a.shared) := by
      simp only [atomic, h.shared, halone, Option.map_some]
    refine ⟨[.advance caller] ++ [.respond caller], _, Machine.run_concat _
      (Machine.run_singleton _ (Service.machine_step_iff.mpr (.advance hpending hadvance)))
      (Service.machine_step_iff.mpr (.respond (Function.update_self ..) rfl)), ?_⟩
    rw [Function.update_idem]
    exact hafter

/-- What else happens to the object happens in both ways. -/
private theorem Simulates.disturb (h : Simulates o program c a) {e : Env} {t : S}
    (htolerated : o.Tolerated program c (.disturb e)) (hdisturb : o.disturb e c.shared = some t) :
    ∃ b, (o.atomic program).machine.step a (.disturb e) = some b ∧
      Simulates o program { c with shared := t, history := c.history ++ [.disturbed e] } b := by
  refine ⟨_, Service.machine_step_iff.mpr (.disturb (h.shared ▸ hdisturb)), rfl, ?_, ?_⟩
  · rw [h.history]
  · exact fun other ↦ (h.calls other).disturb
      (fun op d next hcall ↦ htolerated other op d next hcall) hdisturb

end Step

/-- Every step of the callers is no step, one step or two steps of the indivisible
operations. -/
private theorem Simulates.step (hops : o.Linearizable program)
    {c d : (o.interleaved program).State} {a : (o.atomic program).State}
    {action : ServiceAction Op Env} (h : Simulates o program c a)
    (htolerated : o.Tolerated program c action)
    (hstep : (o.interleaved program).machine.step c action = some d) :
    ∃ actions b, (o.atomic program).machine.run a actions = some b ∧ Simulates o program d b := by
  have hone {action : ServiceAction Op Env}
      (hb : ∃ b, (o.atomic program).machine.step a action = some b ∧ Simulates o program d b) :
      ∃ actions b, (o.atomic program).machine.run a actions = some b ∧
        Simulates o program d b := by
    obtain ⟨b, hb, hsim⟩ := hb
    exact ⟨[action], b, Machine.run_singleton _ hb, hsim⟩
  cases Service.machine_step_iff.mp hstep with
  | @invoke caller op hidle =>
    obtain ⟨holds, hs, hlin⟩ := hops op c.shared
    exact hone (h.invoke hidle hs hlin)
  | @advance caller op phase next shared hcall hadvance =>
    cases phase with
    | done a => cases hadvance
    | call e rest =>
      obtain ⟨⟨answer, t⟩, hserve, heq⟩ := Option.map_eq_some_iff.mp hadvance
      cases heq
      exact h.advance hcall hserve
  | @respond caller op phase result hcall hresult =>
    cases phase with
    | done a =>
      cases hresult
      exact h.respond hcall
    | call e rest => cases hresult
  | disturb hdisturb => exact hone (h.disturb htolerated hdisturb)

/-- Every run of the callers in which only what is tolerated happens has the history of a run in
which every operation is one indivisible step, and leaves the object in the same state. -/
theorem interleaved_atomic (hops : o.Linearizable program) {s : S}
    {actions : List (ServiceAction Op Env)} {c : (o.interleaved program).State}
    (htolerated : (o.interleaved program).machine.EveryStep (o.Tolerated program)
      (.initial _ s) actions)
    (hrun : (o.interleaved program).machine.run (.initial _ s) actions = some c) :
    ∃ actions a, (o.atomic program).machine.run (.initial _ s) actions = some a ∧
      Simulates o program c a :=
  Machine.run_simulation (fun h htol hstep ↦ h.step hops htol hstep) (.initial s) htolerated hrun

/-- In such a run no program ever makes a call without a defined behaviour. -/
theorem interleaved_serves (hops : o.Linearizable program) {s : S}
    {actions : List (ServiceAction Op Env)} {c : (o.interleaved program).State}
    (htolerated : (o.interleaved program).machine.EveryStep (o.Tolerated program)
      (.initial _ s) actions)
    (hrun : (o.interleaved program).machine.run (.initial _ s) actions = some c)
    {caller : Nat} {op : Op} {d : Call} {next : Answer d → CallTree Answer (Result op)}
    (hcall : c.calls caller = some ⟨op, .call d next⟩) : (o.serve d c.shared).isSome := by
  obtain ⟨-, a, -, hsim⟩ := interleaved_atomic hops htolerated hrun
  have hfollows := hsim.calls caller
  rw [hcall] at hfollows
  obtain ⟨-, holds, hs, -, hlin⟩ := hfollows.of_call
  obtain ⟨answer, t, hserve, -⟩ := hlin c.shared hs
  rw [hserve]
  rfl

end SharedObject
end Atomicity
end OacTreeServer.Library
