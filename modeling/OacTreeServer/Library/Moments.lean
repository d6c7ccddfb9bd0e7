import OacTreeServer.Library.Atomicity

/-!
# The moment of an operation

When every program meets the condition of `Linearizes`, every result that is returned in a run
belongs to a moment of this run: between the invocation of the operation and its return there is
a state in which the whole program, carried out without interruption, has this result and leaves
the state behind that the run goes on with.
-/

namespace OacTreeServer.Library

/-- Who has done something, unless it was the surroundings. -/
def Event.caller {Op : Type} {Result : Op → Type} {Env : Type} : Event Op Result Env → Option Nat
  | .invoked caller _ => some caller
  | .returned caller _ _ => some caller
  | .disturbed _ => none

namespace Service

variable {Op : Type} {Result : Op → Type} {Env S : Type}

/-- A caller has invoked an operation, and has done nothing since. -/
def Awaits (history : List (Event Op Result Env)) (caller : Nat) (op : Op) : Prop :=
  ∃ before since, history = before ++ .invoked caller op :: since ∧
    ∀ event ∈ since, event.caller ≠ some caller

/-- Two states of a run with at most one step of a caller between them, while the caller awaits
the result of an operation: it has invoked the operation before, and does nothing else up to the
end of the history. -/
structure Moment (service : Service Op Result Env S) (s : S)
    (actions : List (ServiceAction Op Env)) (history : List (Event Op Result Env)) (caller : Nat)
    (op : Op) (now next : service.State) : Prop where
  path : ∃ first step last, actions = first ++ (step ++ last) ∧
    service.machine.run (.initial service s) first = some now ∧
    service.machine.run now step = some next ∧ (step = [] ∨ step = [.advance caller])
  during : ∃ before since later, now.history = before ++ .invoked caller op :: since ∧
    history = now.history ++ later ∧ ∀ event ∈ since ++ later, event.caller ≠ some caller

/-- An invocation is awaited. -/
theorem awaits_invoked (history : List (Event Op Result Env)) (caller : Nat) (op : Op) :
    Awaits (history ++ [.invoked caller op]) caller op :=
  ⟨history, [], rfl, nofun⟩

/-- What others do does not end the wait. -/
theorem Awaits.append {history more : List (Event Op Result Env)} {caller : Nat} {op : Op}
    (h : Awaits history caller op) (hmore : ∀ event ∈ more, event.caller ≠ some caller) :
    Awaits (history ++ more) caller op := by
  obtain ⟨before, since, rfl, hsince⟩ := h
  refine ⟨before, since ++ more, by simp, fun event hevent ↦ ?_⟩
  exact (List.mem_append.mp hevent).elim (hsince event) (hmore event)

variable {service : Service Op Result Env S} {s : S} {actions : List (ServiceAction Op Env)}
  {history : List (Event Op Result Env)} {caller : Nat} {op : Op} {now next : service.State}

/-- A moment stays one when the run goes on without its caller. -/
theorem Moment.append (h : service.Moment s actions history caller op now next)
    (later : List (ServiceAction Op Env)) {more : List (Event Op Result Env)}
    (hmore : ∀ event ∈ more, event.caller ≠ some caller) :
    service.Moment s (actions ++ later) (history ++ more) caller op now next where
  path := by
    obtain ⟨first, step, last, rfl, hpath⟩ := h.path
    exact ⟨first, step, last ++ later, by simp, hpath⟩
  during := by
    obtain ⟨before, since, after, hnow, rfl, hothers⟩ := h.during
    refine ⟨before, since, after ++ more, hnow, by simp, fun event hevent ↦ ?_⟩
    rw [← List.append_assoc] at hevent
    exact (List.mem_append.mp hevent).elim (hothers event) (hmore event)

/-- A moment lies in the run. -/
theorem Moment.reached (h : service.Moment s actions history caller op now next) :
    ∃ first last, actions = first ++ last ∧
      service.machine.run (.initial service s) first = some now := by
  obtain ⟨first, step, last, heq, hrun, -⟩ := h.path
  exact ⟨first, step ++ last, heq, hrun⟩

/-- A step of the caller is a moment if it awaits the result. -/
theorem moment_step {c d : service.State}
    (hrun : service.machine.run (.initial service s) actions = some c)
    (hstep : service.machine.step c (.advance caller) = some d)
    (hawaits : Awaits c.history caller op) :
    service.Moment s (actions ++ [.advance caller]) c.history caller op c d where
  path := ⟨actions, [.advance caller], [], by simp, hrun, Machine.run_singleton _ hstep, .inr rfl⟩
  during := by
    obtain ⟨before, since, hhistory, hothers⟩ := hawaits
    exact ⟨before, since, [], hhistory, (List.append_nil _).symm, by simpa using hothers⟩

/-- So is any state without a step. -/
theorem moment_state {c : service.State}
    (hrun : service.machine.run (.initial service s) actions = some c)
    (hawaits : Awaits c.history caller op) :
    service.Moment s actions c.history caller op c c where
  path := ⟨actions, [], [], by simp, hrun, rfl, .inl rfl⟩
  during := by
    obtain ⟨before, since, hhistory, hothers⟩ := hawaits
    exact ⟨before, since, [], hhistory, (List.append_nil _).symm, by simpa using hothers⟩

end Service

namespace SharedObject

variable {Call : Type} {Answer : Call → Type} {Op : Type} {Result : Op → Type} {Env S : Type}
  (o : SharedObject Call Answer Env S) (program : (op : Op) → CallTree Answer (Result op))

/-- At some moment of a run the whole program of an operation has this result and this effect. -/
def TakesEffect (s : S) (actions : List (ServiceAction Op Env))
    (history : List (Event Op Result Env)) (caller : Nat) (op : Op) (result : Result op) : Prop :=
  ∃ now next, (o.interleaved program).Moment s actions history caller op now next ∧
    CallTree.runAlone o.serve (program op) now.shared = some (result, next.shared)

/-- What is left of the program of an operation takes effect later. -/
def Pending (shared : S) (op : Op) (phase : CallTree Answer (Result op)) : Prop :=
  ∃ holds : S → Prop, holds shared ∧
    o.Linearizes (CallTree.runAlone o.serve (program op)) holds phase

/-- The operation of a caller is still to take effect, or it has and only its result is left. -/
structure InProgress (s : S) (actions : List (ServiceAction Op Env))
    (history : List (Event Op Result Env)) (shared : S) (caller : Nat) (op : Op)
    (phase : CallTree Answer (Result op)) : Prop where
  awaits : Service.Awaits history caller op
  effect : o.Pending program shared op phase ∨
    ∃ result, phase = .done result ∧ o.TakesEffect program s actions history caller op result

/-- Every operation of a run is in progress in this sense, and every result belongs to a moment
before its return. -/
structure Traced (s : S) (actions : List (ServiceAction Op Env))
    (c : (o.interleaved program).State) : Prop where
  run : (o.interleaved program).machine.run (.initial _ s) actions = some c
  calls : ∀ caller op phase, c.calls caller = some ⟨op, phase⟩ →
    o.InProgress program s actions c.history c.shared caller op phase
  returned : ∀ before caller op result after,
    c.history = before ++ .returned caller op result :: after →
    o.TakesEffect program s actions before caller op result

variable {o program} {s shared shared' : S} {actions : List (ServiceAction Op Env)}
  {history before : List (Event Op Result Env)} {caller : Nat} {op : Op}
  {phase : CallTree Answer (Result op)} {result : Result op}

/-- What has taken effect has done so when the run goes on. -/
private theorem TakesEffect.append (h : o.TakesEffect program s actions history caller op result)
    (later : List (ServiceAction Op Env)) {more : List (Event Op Result Env)}
    (hmore : ∀ event ∈ more, event.caller ≠ some caller) :
    o.TakesEffect program s (actions ++ later) (history ++ more) caller op result := by
  obtain ⟨now, next, hmoment, heffect⟩ := h
  exact ⟨now, next, hmoment.append later hmore, heffect⟩

/-- A program without calls takes effect in every state. -/
private theorem pending_done (shared : S)
    (h : ∀ s, CallTree.runAlone o.serve (program op) s = some (result, s)) :
    o.Pending program shared op (.done result) :=
  have hlin (holds : S → Prop) :
      o.Linearizes (CallTree.runAlone o.serve (program op)) holds (.done result) := h
  ⟨fun _ ↦ True, trivial, hlin _⟩

/-- A call of another program leaves an effect pending. -/
private theorem Pending.serve (h : o.Pending program shared op phase) {d : Call}
    {answer : Answer d} (hserve : o.serve d shared = some (answer, shared')) :
    o.Pending program shared' op phase := by
  obtain ⟨holds, hs, hlin⟩ := h
  cases phase with
  | done a => exact pending_done shared' hlin
  | call d' next => exact ⟨holds, hlin.1.serve hs hserve, hlin⟩

/-- So does what else may happen before the next call. -/
private theorem Pending.disturb (h : o.Pending program shared op phase) {e : Env}
    (htolerated : ∀ d next, phase = .call d next → o.Tolerates d shared e)
    (hdisturb : o.disturb e shared = some shared') : o.Pending program shared' op phase := by
  obtain ⟨holds, hs, hlin⟩ := h
  cases phase with
  | done a => exact pending_done shared' hlin
  | call d next => exact ⟨holds, hlin.1.disturb hs (htolerated d next rfl) hdisturb, hlin⟩

/-- A step of another caller or of the surroundings leaves an operation in progress. -/
private theorem InProgress.append
    (h : o.InProgress program s actions history shared caller op phase)
    (hpending : o.Pending program shared op phase → o.Pending program shared' op phase)
    (later : List (ServiceAction Op Env)) {more : List (Event Op Result Env)}
    (hmore : ∀ event ∈ more, event.caller ≠ some caller) :
    o.InProgress program s (actions ++ later) (history ++ more) shared' caller op phase where
  awaits := h.awaits.append hmore
  effect := h.effect.imp hpending fun ⟨result, hphase, heffect⟩ ↦
    ⟨result, hphase, heffect.append later hmore⟩

/-- The call of one caller is in progress, and those of all others are still in progress. -/
private theorem inProgress_update {calls : Nat → Option (Σ op, CallTree Answer (Result op))}
    (h : ∀ other op phase, calls other = some ⟨op, phase⟩ →
      o.InProgress program s actions history shared other op phase)
    (hpending : ∀ other op phase, calls other = some ⟨op, phase⟩ →
      o.Pending program shared op phase → o.Pending program shared' op phase)
    (later : List (ServiceAction Op Env)) {more : List (Event Op Result Env)}
    (hmore : ∀ event ∈ more, ∀ other ≠ caller, event.caller ≠ some other)
    {x : Option (Σ op, CallTree Answer (Result op))}
    (hx : ∀ op phase, x = some ⟨op, phase⟩ →
      o.InProgress program s (actions ++ later) (history ++ more) shared' caller op phase)
    (other : Nat) (op : Op) (phase : CallTree Answer (Result op))
    (hother : Function.update calls caller x other = some ⟨op, phase⟩) :
    o.InProgress program s (actions ++ later) (history ++ more) shared' other op phase := by
  by_cases hcaller : other = caller
  · subst hcaller
    rw [Function.update_self] at hother
    exact hx op phase hother
  · rw [Function.update_of_ne hcaller] at hother
    exact (h other op phase hother).append (hpending other op phase hother) later
      fun event hevent ↦ hmore event hevent other hcaller

/-- A return in a history with one more event is this event, or it was there before. -/
private theorem returned_cases {event : Event Op Result Env}
    {after : List (Event Op Result Env)}
    (h : history ++ [event] = before ++ .returned caller op result :: after) :
    history = before ∧ event = .returned caller op result ∨
      ∃ rest, history = before ++ .returned caller op result :: rest := by
  rcases List.eq_nil_or_concat after with rfl | ⟨rest, last, rfl⟩
  · obtain ⟨hbefore, hlast⟩ := List.append_inj' h rfl
    exact .inl ⟨hbefore, (List.cons.inj hlast).1⟩
  · rw [List.concat_eq_append, ← List.cons_append, ← List.append_assoc] at h
    exact .inr ⟨rest, (List.append_inj' h rfl).1⟩

/-- The results so far still belong to their moments when the run goes on. -/
private theorem Traced.returned_append {c : (o.interleaved program).State}
    (h : o.Traced program s actions c) (later : List (ServiceAction Op Env))
    {after : List (Event Op Result Env)}
    (hreturned : c.history = before ++ .returned caller op result :: after) :
    o.TakesEffect program s (actions ++ later) before caller op result := by
  rw [← List.append_nil before]
  exact (h.returned before caller op result after hreturned).append later nofun

section Steps

variable {c d : (o.interleaved program).State}

/-- Nothing has been called at first. -/
private theorem traced_initial (s : S) :
    o.Traced program s [] (.initial (o.interleaved program) s) :=
  ⟨rfl, nofun, by simp [Service.State.initial]⟩

/-- An operation that is invoked is in progress. -/
private theorem Traced.invoke (hops : o.Linearizable program) (h : o.Traced program s actions c)
    (hidle : c.calls caller = none)
    (hd : (o.interleaved program).machine.step c (.invoke caller op) = some d) :
    o.Traced program s (actions ++ [.invoke caller op]) d := by
  have hrun := Machine.run_concat _ h.run hd
  obtain rfl := Option.some.inj (hd.symm.trans (Service.machine_step_iff.mpr (.invoke hidle)))
  refine ⟨hrun, inProgress_update h.calls (fun _ _ _ _ ↦ id) _ ?_ ?_, ?_⟩
  · intro event hevent other hother heq
    rw [List.mem_singleton.mp hevent] at heq
    exact hother (Option.some.inj heq).symm
  · intro op' phase hphase
    cases hphase
    exact ⟨Service.awaits_invoked c.history caller op, .inl (hops op c.shared)⟩
  · intro before other op' result after hreturned
    rcases returned_cases hreturned with ⟨-, hevent⟩ | ⟨rest, hrest⟩
    · cases hevent
    · exact h.returned_append _ hrest

/-- A call of an operation is its effect, or leaves it to a later call. -/
private theorem Traced.advance (h : o.Traced program s actions c) {e : Call}
    {next : Answer e → CallTree Answer (Result op)}
    (hcall : c.calls caller = some ⟨op, .call e next⟩) {answer : Answer e}
    (hserve : o.serve e c.shared = some (answer, shared'))
    (hd : (o.interleaved program).machine.step c (.advance caller) = some d) :
    o.Traced program s (actions ++ [.advance caller]) d := by
  have hrun := Machine.run_concat _ h.run hd
  have hadvance : (o.interleaved program).advance op (.call e next) c.shared =
      some (next answer, shared') := congrArg (Option.map _) hserve
  have heq := Option.some.inj
    (hd.symm.trans (Service.machine_step_iff.mpr (.advance hcall hadvance)))
  obtain ⟨hawaits, heffect⟩ := h.calls caller op _ hcall
  have hinProgress : o.InProgress program s (actions ++ [.advance caller]) (c.history ++ [])
      shared' caller op (next answer) := by
    rw [List.append_nil]
    refine ⟨hawaits, ?_⟩
    rcases heffect with ⟨holds, hs, -, hlin⟩ | ⟨result, hdone, -⟩
    · obtain ⟨answer', t, hserve', hcommits⟩ := hlin c.shared hs
      rw [hserve] at hserve'
      cases hserve'
      cases hcommits with
      | inl hcommit =>
        obtain ⟨result, hnext, halone⟩ := hcommit
        refine .inr ⟨result, hnext, c, d, Service.moment_step h.run hd hawaits, ?_⟩
        rw [heq]
        exact halone
      | inr hquery =>
        obtain ⟨rfl, holds', hs', hlin'⟩ := hquery
        exact .inl ⟨holds', hs', hlin'⟩
    · cases hdone
  subst heq
  refine ⟨hrun, fun other op' phase hother ↦ ?_, ?_⟩
  · have hcalls : o.InProgress program s (actions ++ [.advance caller]) (c.history ++ []) shared'
        other op' phase := by
      refine inProgress_update h.calls (fun _ _ _ _ hpending ↦ hpending.serve hserve) _
        (by rintro _ ⟨⟩) ?_ other op' phase hother
      intro op' phase hphase
      cases hphase
      exact hinProgress
    rwa [List.append_nil] at hcalls
  · exact fun before other op' result after hreturned ↦ h.returned_append _ hreturned

/-- A result that is returned belongs to a moment before. -/
private theorem Traced.respond (h : o.Traced program s actions c)
    (hcall : c.calls caller = some ⟨op, .done result⟩)
    (hd : (o.interleaved program).machine.step c (.respond caller) = some d) :
    o.Traced program s (actions ++ [.respond caller]) d := by
  have hrun := Machine.run_concat _ h.run hd
  obtain rfl := Option.some.inj
    (hd.symm.trans (Service.machine_step_iff.mpr (.respond hcall rfl)))
  have htakes : o.TakesEffect program s actions c.history caller op result := by
    obtain ⟨hawaits, heffect⟩ := h.calls caller op _ hcall
    rcases heffect with ⟨holds, hs, hlin⟩ | ⟨result', hdone, htakes⟩
    · exact ⟨c, c, Service.moment_state h.run hawaits, hlin c.shared⟩
    · cases hdone
      exact htakes
  refine ⟨hrun, inProgress_update h.calls (fun _ _ _ _ ↦ id) _ ?_ nofun, ?_⟩
  · intro event hevent other hother heq
    rw [List.mem_singleton.mp hevent] at heq
    exact hother (Option.some.inj heq).symm
  · intro before other op' result' after hreturned
    rcases returned_cases hreturned with ⟨rfl, hevent⟩ | ⟨rest, hrest⟩
    · cases hevent
      rw [← List.append_nil c.history]
      exact htakes.append [.respond caller] nofun
    · exact h.returned_append _ hrest

/-- What else happens to the object leaves all operations in progress. -/
private theorem Traced.disturb (h : o.Traced program s actions c) {e : Env}
    (htolerated : o.Tolerated program c (.disturb e))
    (hdisturb : o.disturb e c.shared = some shared')
    (hd : (o.interleaved program).machine.step c (.disturb e) = some d) :
    o.Traced program s (actions ++ [.disturb e]) d := by
  have hrun := Machine.run_concat _ h.run hd
  obtain rfl := Option.some.inj
    (hd.symm.trans (Service.machine_step_iff.mpr (.disturb hdisturb)))
  refine ⟨hrun, fun other op phase hother ↦ ?_, ?_⟩
  · refine (h.calls other op phase hother).append (fun hpending ↦ ?_) _ ?_
    · exact hpending.disturb (fun d next hphase ↦ htolerated other op d next (hphase ▸ hother))
        hdisturb
    · intro event hevent
      rw [List.mem_singleton.mp hevent]
      nofun
  · intro before other op result after hreturned
    rcases returned_cases hreturned with ⟨-, hevent⟩ | ⟨rest, hrest⟩
    · cases hevent
    · exact h.returned_append _ hrest

end Steps

/-- In every run in which only what is tolerated happens, every result belongs to a moment between
the invocation of its operation and its return. -/
theorem takesEffect_of_returned (hops : o.Linearizable program) {c : (o.interleaved program).State}
    (htolerated : (o.interleaved program).machine.EveryStep (o.Tolerated program)
      (.initial _ s) actions)
    (hrun : (o.interleaved program).machine.run (.initial _ s) actions = some c)
    {after : List (Event Op Result Env)}
    (hreturned : c.history = before ++ .returned caller op result :: after) :
    o.TakesEffect program s actions before caller op result := by
  have htraced : o.Traced program s actions c := by
    refine @Machine.run_history_invariant_of_everyStep _ _ _ _ (o.Traced program s) ?_ _ _ _
      (traced_initial s) htolerated hrun
    intro actions c action d h htol hd
    cases Service.machine_step_iff.mp hd with
    | invoke hidle => exact h.invoke hops hidle hd
    | @advance caller op phase next shared hcall hadvance =>
      cases phase with
      | done a => cases hadvance
      | call e rest =>
        obtain ⟨⟨answer, t⟩, hserve, heq⟩ := Option.map_eq_some_iff.mp hadvance
        cases heq
        exact h.advance hcall hserve hd
    | @respond caller op phase result hcall hresult =>
      cases phase with
      | done a => exact h.respond hcall hd
      | call e rest => cases hresult
    | disturb hdisturb => exact h.disturb htol hdisturb hd
  exact htraced.returned before caller op result after hreturned

end SharedObject
end OacTreeServer.Library
