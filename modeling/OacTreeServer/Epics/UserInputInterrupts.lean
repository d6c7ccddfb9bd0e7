import OacTreeServer.Epics.UserInputInvariant

/-!
# Interrupts of requests for user input

An interrupt may come before its input method (`i_anyvalue_manager.h:81`). The code keeps
it only when its request is the current one of the server, and the initiation of a request
clears the flag (`base/input_request_server.cpp:47`, `base/input_request_server.cpp:94`),
so an interrupt that comes before the initiation is lost; every other interrupt ends the
wait.
-/

namespace OacTreeServer.Epics
open OacTreeServer.External OacTreeServer.Input OacTreeServer.Library OacTreeServer.Protocol

section Interrupts

variable {V : Type} [AnyValue V] [OacTree V] [Base64VariableCodec V]
  {manager : FreshManager V} {acts : List (UserInputAction V)} {s t : UserInputState V}

/-- No waiting call is left blocking on a request that was interrupted. -/
def NoInterruptLost (s : UserInputState V) : Prop :=
  ∀ id call pvServer, s.calls id = some call → call.stage = .waitForReply pvServer →
    .interrupt call.server id ∈ s.history →
    ∃ inputServer, s.manager.findInputServer call.server = some inputServer ∧
      inputServer.waitPredicate id = true

/-- The request was interrupted before. -/
def wasInterrupted (server : String) (id : UInt64) (history : List (RequestEvent V)) : Bool :=
  history.any fun
    | .interrupt name i => name = server && i = id
    | _ => false

/-- The call initiates its request in its next step. -/
def InputStage.initiates : InputStage V → Bool
  | .initNewRequest _ => true
  | _ => false

/-- The step does not initiate a request that was interrupted already. -/
def InitiatesUninterrupted (s : UserInputState V) : UserInputAction V → Prop
  | .advance id => ∀ call ∈ s.calls id, call.stage.initiates = true →
      wasInterrupted call.server id s.history = false
  | _ => True

instance (s : UserInputState V) (a : UserInputAction V) : Decidable (InitiatesUninterrupted s a) :=
  match a with
  | .advance id => inferInstanceAs (Decidable (∀ call ∈ s.calls id, _ → _))
  | .getUserInput .. => isTrue trivial
  | .setClientReply .. => isTrue trivial
  | .interrupt .. => isTrue trivial
  | .applyInterrupt .. => isTrue trivial
  | .addAnyValues .. => isTrue trivial
  | .addInputServer .. => isTrue trivial
  | .updateAnyValue .. => isTrue trivial

omit [AnyValue V] [OacTree V] [Base64VariableCodec V] in
/-- A request was interrupted before when the history has an interrupt of it. -/
theorem wasInterrupted_iff {server : String} {id : UInt64} {history : List (RequestEvent V)} :
    wasInterrupted server id history = true ↔ .interrupt server id ∈ history := by
  rw [wasInterrupted, List.any_eq_true]
  constructor
  · rintro ⟨e, he, hmatch⟩
    split at hmatch
    · next name i =>
      obtain ⟨rfl, rfl⟩ := by simpa using hmatch
      exact he
    · cases hmatch
  · intro h
    exact ⟨_, h, by simp⟩

/-- Every interrupt of an initiated request came after the initiation. -/
def InterruptsAfterInit (history : List (RequestEvent V)) : Prop :=
  ∀ server id, .initNewRequest server id ∈ history → .interrupt server id ∈ history →
    Before history (.initNewRequest server id) (.interrupt server id)

/-- The history grows by at most one event, and by an initiation only when a call takes
that step. -/
theorem history_step {a : UserInputAction V} (hstep : UserInputStep s a t) :
    t.history = s.history ∨ ∃ e, t.history = s.history ++ [e] ∧
      ∀ server id, e = .initNewRequest server id → a = .advance id ∧
        ∃ call pvServer, s.calls id = some call ∧ call.server = server ∧
          call.stage = .initNewRequest pvServer := by
  cases hstep with
  | @advance id call effect hc hcall =>
    obtain ⟨server, request, stage⟩ := call
    simp only at hcall
    generalize s.userInputMtx = mtx at hcall
    cases hcall with
    | @initNewRequest _ pvServer inputServer hs =>
      refine .inr ⟨_, rfl, ?_⟩
      intro name i he
      cases he
      exact ⟨rfl, _, pvServer, hc, rfl, rfl⟩
    | waitForReply => exact .inr ⟨_, rfl, nofun⟩
    | _ => exact .inl (apply_history rfl)
  | setClientReply hs => exact .inr ⟨_, rfl, nofun⟩
  | interruptUnknown hs => exact .inr ⟨_, rfl, nofun⟩
  | applyInterrupt hm hs => exact .inr ⟨_, rfl, nofun⟩
  | _ => exact .inl rfl

/-- A step that initiates no interrupted request keeps the order. -/
theorem InterruptsAfterInit.step {a : UserInputAction V}
    (h : InterruptsAfterInit s.history) (ha : InitiatesUninterrupted s a)
    (hstep : UserInputStep s a t) : InterruptsAfterInit t.history := by
  rcases history_step hstep with heq | ⟨e, heq, hinit⟩
  · rw [heq]
    exact h
  · rw [heq]
    intro server id hi hint
    rcases List.mem_append.mp hi with hi | hi
    · rcases List.mem_append.mp hint with hint | hint
      · exact (h server id hi hint).append _
      · rw [← List.mem_singleton.mp hint]
        exact Before.concat hi _
    · -- the initiation is the new event, so it was not interrupted before
      have he := (List.mem_singleton.mp hi).symm
      obtain ⟨rfl, call, pvServer, hc, rfl, hs⟩ := hinit server id he
      rcases List.mem_append.mp hint with hint | hint
      · have hnot := ha call hc (by rw [hs]; rfl)
        rw [wasInterrupted_iff.mpr hint] at hnot
        cases hnot
      · rw [he] at hint
        cases List.mem_singleton.mp hint

/-- In that order every interrupt of a waiting call ends its wait. -/
theorem UserInputInv.noInterruptLost {registered : String → Prop}
    (h : UserInputInv registered s) (ho : InterruptsAfterInit s.history) :
    NoInterruptLost s := by
  intro id call pvServer hc hs hint
  obtain ⟨hid, hinv⟩ := h.call hc
  rw [hs] at hinv
  obtain ⟨-, ⟨inputServer, hfind, rfl⟩, -⟩ := hinv
  have hserver := h.requests.server hfind
  have hflag := (hserver.interrupted hid).mpr (ho call.server _ (hserver.armed hid) hint)
  exact ⟨inputServer, hfind, by simp [InputRequestServer.waitPredicate, hflag]⟩

/-- A call that initiates an interrupted request is left blocking two steps later. -/
theorem UserInputInv.interruptLost [LawfulOacTree V] {registered : String → Prop}
    (h : UserInputInv registered s) {id : UInt64} {call : InputCall V} {pvServer : Nat}
    {updateVal : V} (hc : s.calls id = some call) (hs : call.stage = .initNewRequest pvServer)
    (hint : .interrupt call.server id ∈ s.history)
    (he : base64EncodeAnyValue (encodeInputRequest id call.request) = .ok updateVal) :
    ∃ t, userInputMachine.run s [.advance id, .advance id] = some t ∧ ¬ NoInterruptLost t := by
  obtain ⟨hid, hinv⟩ := h.call hc
  obtain ⟨server, request, stage⟩ := call
  simp only at hs hint he hinv
  subst hs
  obtain ⟨inputServer, hfind⟩ := Option.isSome_iff_exists.mp hinv.2.2
  let armed : CallEffect V :=
    ⟨s.manager.setInputServer server (inputServer.initNewRequest id), s.userInputMtx,
      .publish pvServer, [.initNewRequest server id], []⟩
  let published : CallEffect V :=
    ⟨armed.manager.pushUpdate pvServer (getInputRequestPVName server) updateVal,
      s.userInputMtx, .waitForReply pvServer, [],
      [(getInputRequestPVName server, encodeInputRequest id request)]⟩
  let r := s.apply id ⟨server, request, .initNewRequest pvServer⟩ armed
  have hr : userInputMachine.step s (.advance id) = some r := by
    simp [userInputMachine, hc, InputCall.advance, hfind, r, armed]
  have ht : userInputMachine.step r (.advance id) =
      some (r.apply id ⟨server, request, .publish pvServer⟩ published) := by
    simp [userInputMachine, InputCall.advance, EPICSAnyValueManager.updateServer_eq, he,
      Except.map, published, armed, r, UserInputState.apply]
  refine ⟨_, Machine.run_cons_eq_some _ |>.mpr ⟨r, hr, Machine.run_cons_eq_some _ |>.mpr
    ⟨_, ht, rfl⟩⟩, ?_⟩
  intro hlost
  obtain ⟨found, hfound, hwait⟩ := hlost id _ pvServer apply_calls rfl (by
    simp [UserInputState.apply, r, hint])
  have hnew : found = inputServer.initNewRequest id := by
    simpa [UserInputState.apply, r, armed, published, eq_comm] using hfound
  rw [hnew] at hwait
  simp [InputRequestServer.waitPredicate, InputRequestServer.initNewRequest,
    isValid_kInvalidUserInputReply] at hwait

/-- No interrupt is lost in the runs whose steps initiate no request that was interrupted
already; and from every reachable state with a call that is about to do so, and whose
request can be encoded, two steps of that call lead to a state in which the interrupt is
lost. -/
theorem interrupts_not_lost [LawfulOacTree V] (manager : FreshManager V) :
    (∀ acts s, userInputMachine.run (.start manager) acts = some s →
      userInputMachine.EveryStep InitiatesUninterrupted (.start manager) acts →
      NoInterruptLost s) ∧
    (∀ acts s id call pvServer updateVal, userInputMachine.run (.start manager) acts = some s →
      s.calls id = some call → call.stage = .initNewRequest pvServer →
      .interrupt call.server id ∈ s.history →
      base64EncodeAnyValue (encodeInputRequest id call.request) = .ok updateVal →
      ∃ t, userInputMachine.run s [.advance id, .advance id] = some t ∧
        ¬ NoInterruptLost t) := by
  constructor
  · intro acts s h hsteps
    have hstep : ∀ {s : UserInputState V} {a t}, InterruptsAfterInit s.history →
        InitiatesUninterrupted s a → userInputMachine.step s a = some t →
        InterruptsAfterInit t.history := by
      intro s a t hs ha ht
      exact hs.step ha (userInputStep_of_step ht)
    have hstart : InterruptsAfterInit (UserInputState.start manager).history := by
      intro server id hi
      cases hi
    have horder := Machine.run_invariant_of_everyStep hstep hstart hsteps h
    exact (userInputInv_run h).noInterruptLost horder
  · intro acts s id call pvServer updateVal h hc hs hint he
    exact (userInputInv_run h).interruptLost hc hs hint he

end Interrupts

/-- An interrupt that comes before its input method: the call is left blocking on a request
that was interrupted. -/
theorem interrupt_before_getUserInput_lost :
    ∃ s, userInputMachine.run (.start TwoCalls.manager) [.interrupt "S" 1,
        .applyInterrupt "S" 1, .getUserInput 1 "S" TwoCalls.request, .advance 1, .advance 1,
        .advance 1, .advance 1, .advance 1] = some s ∧
      s.calls 1 = some ⟨"S", TwoCalls.request, .waitForReply 0⟩ ∧
      .interrupt "S" 1 ∈ s.history ∧ ¬ NoInterruptLost s := by
  obtain ⟨s, hs⟩ : ∃ s, userInputMachine.run (.start TwoCalls.manager) [.interrupt "S" 1,
      .applyInterrupt "S" 1, .getUserInput 1 "S" TwoCalls.request, .advance 1, .advance 1,
      .advance 1, .advance 1, .advance 1] = some s :=
    Option.isSome_iff_exists.mp (by rfl)
  have hcall : s.calls 1 = some ⟨"S", TwoCalls.request, .waitForReply 0⟩ :=
    userInputMachine.observe_run (fun s ↦ s.calls 1) hs (by rfl)
  have hhistory : s.history = [.interrupt "S" 1, .initNewRequest "S" 1] :=
    userInputMachine.observe_run (fun s ↦ s.history) hs (by rfl)
  have hwait : (s.manager.findInputServer "S").map (fun server ↦ server.waitPredicate 1) =
      some false :=
    userInputMachine.observe_run
      (fun s ↦ (s.manager.findInputServer "S").map fun server ↦ server.waitPredicate 1) hs
      (by rfl)
  have hmem : .interrupt "S" 1 ∈ s.history := by simp [hhistory]
  refine ⟨s, hs, hcall, hmem, ?_⟩
  intro hlost
  obtain ⟨inputServer, hfind, htrue⟩ := hlost 1 _ 0 hcall rfl hmem
  rw [hfind, Option.map_some, htrue] at hwait
  cases hwait

/-- A run whose only interrupt comes after the initiation, and the wait that it ends. -/
theorem interrupts_not_lost_one_call :
    ∃ s, userInputMachine.run (.start TwoCalls.manager) [.getUserInput 1 "S" TwoCalls.request,
        .advance 1, .advance 1, .advance 1, .advance 1, .advance 1, .interrupt "S" 1,
        .applyInterrupt "S" 1] = some s ∧ NoInterruptLost s := by
  obtain ⟨s, hs⟩ : ∃ s, userInputMachine.run (.start TwoCalls.manager)
      [.getUserInput 1 "S" TwoCalls.request, .advance 1, .advance 1, .advance 1, .advance 1,
        .advance 1, .interrupt "S" 1, .applyInterrupt "S" 1] = some s :=
    Option.isSome_iff_exists.mp (by rfl)
  exact ⟨s, hs, (interrupts_not_lost TwoCalls.manager).1 _ s hs (by decide +kernel)⟩
end OacTreeServer.Epics
