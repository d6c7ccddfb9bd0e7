import OacTreeServer.Epics.AnyValueManager
import OacTreeServer.Library.Machine

/-!
# User input as a concurrent system

Threads that call `GetUserInput` and `Interrupt` of one manager, remote clients that
reply, and threads that add values and update them
(`epics/epics_anyvalue_manager.cpp:47`). Every section under a lock is one step. A call
of `GetUserInput` is identified by its request id and goes through the stages below;
whatever it has to do in one stage is a function of the manager and of the holder of
`m_user_input_mtx`.
-/

namespace OacTreeServer.Epics
open OacTreeServer.External OacTreeServer.Input OacTreeServer.Library OacTreeServer.Protocol

/-- What a call of `GetUserInput` does next; `epics_anyvalue_manager.cpp:92`. The PV server
that it has found is given by its position. -/
inductive InputStage (V : Type) where
  /-- Locks `m_user_input_mtx`. -/
  | queued
  | findInputServer
  | findServer (found : Bool)
  | initNewRequest (pvServer : Nat)
  /-- Publishes the request. -/
  | publish (pvServer : Nat)
  | waitForReply (pvServer : Nat)
  /-- Publishes that there is no request. -/
  | withdraw (pvServer : Nat) (result : Bool × UserInputReply V)
  /-- Unlocks `m_user_input_mtx` and returns, or passes an exception on. -/
  | release (outcome : Except Exception (UserInputReply V))
  | done (outcome : Except Exception (UserInputReply V))

/-- The arguments of a call of `GetUserInput` and where it stands. -/
structure InputCall (V : Type) where
  server : String
  request : UserInputRequest V
  stage : InputStage V

/-- What one step of a call does. -/
structure CallEffect (V : Type) where
  manager : EPICSAnyValueManager V
  userInputMtx : Option UInt64
  stage : InputStage V
  events : List (RequestEvent V)
  pushes : List (String × V)

/-- The state of the system. -/
structure UserInputState (V : Type) where
  manager : EPICSAnyValueManager V
  /-- The call that holds `m_user_input_mtx`. -/
  userInputMtx : Option UInt64
  calls : UInt64 → Option (InputCall V)
  /-- Calls of `Interrupt` that have found their input server. -/
  interrupts : List (String × UInt64)
  /-- The sections of the request servers so far. -/
  history : List (RequestEvent V)
  /-- The updates pushed to the queues of the PV servers so far. -/
  pushed : List (String × V)

/-- The steps that threads and remote clients can take. -/
inductive UserInputAction (V : Type) where
  /-- A thread enters `GetUserInput`. -/
  | getUserInput (id : UInt64) (server : String) (request : UserInputRequest V)
  /-- A call of `GetUserInput` takes its next step. -/
  | advance (id : UInt64)
  /-- A client's message reaches the input server. -/
  | setClientReply (server : String) (id : UInt64) (reply : UserInputReply V)
  /-- A thread enters `Interrupt` and looks the input server up. -/
  | interrupt (server : String) (id : UInt64)
  /-- A call of `Interrupt` reaches the input server. -/
  | applyInterrupt (server : String) (id : UInt64)
  | addAnyValues (nameValueSet : NameAnyValueSet V)
  /-- The first section of `AddInputHandler`. -/
  | addInputServer (server : String)
  | updateAnyValue (name : String) (value : V)

variable {V : Type} [AnyValue V] [OacTree V] [Base64VariableCodec V]

/-- The next step of a call of `GetUserInput`, or `none` when it is blocked or over;
`epics_anyvalue_manager.cpp:92`. -/
def InputCall.advance (call : InputCall V) (id : UInt64) (manager : EPICSAnyValueManager V)
    (userInputMtx : Option UInt64) : Option (CallEffect V) :=
  let inputRequestName := getInputRequestPVName call.server
  match call.stage with
  | .queued =>
    if userInputMtx = none then some ⟨manager, some id, .findInputServer, [], []⟩ else none
  | .findInputServer =>
    some ⟨manager, userInputMtx, .findServer (manager.findInputServer call.server).isSome, [], []⟩
  | .findServer found =>
    match found, manager.findServer inputRequestName with
    | true, some pvServer => some ⟨manager, userInputMtx, .initNewRequest pvServer, [], []⟩
    | _, _ =>
      some ⟨manager, userInputMtx, .release (.ok OacTree.kInvalidUserInputReply), [], []⟩
  | .initNewRequest pvServer =>
    (manager.findInputServer call.server).map fun server ↦
      ⟨manager.setInputServer call.server (server.initNewRequest id), userInputMtx,
        .publish pvServer, [.initNewRequest call.server id], []⟩
  | .publish pvServer =>
    let inputRequest := encodeInputRequest id call.request
    match manager.updateServer pvServer inputRequestName inputRequest with
    | .ok updated => some ⟨updated, userInputMtx, .waitForReply pvServer, [],
        [(inputRequestName, inputRequest)]⟩
    | .error e => some ⟨manager, userInputMtx, .release (.error e), [], []⟩
  | .waitForReply pvServer =>
    (manager.findInputServer call.server).bind fun server ↦
      (server.waitForReply id).map fun result ↦
        ⟨manager, userInputMtx, .withdraw pvServer result, [.waitForReply call.server id], []⟩
  | .withdraw pvServer (retrieved, value) =>
    match manager.updateServer pvServer inputRequestName (kInputRequestAnyValue V) with
    | .ok updated => some ⟨updated, userInputMtx,
        .release (.ok (if retrieved then value else OacTree.kInvalidUserInputReply)), [],
        [(inputRequestName, kInputRequestAnyValue V)]⟩
    | .error e => some ⟨manager, userInputMtx, .release (.error e), [], []⟩
  | .release outcome => some ⟨manager, none, .done outcome, [], []⟩
  | .done _ => none

/-- The state after the step of a call. -/
def UserInputState.apply (s : UserInputState V) (id : UInt64) (call : InputCall V)
    (effect : CallEffect V) : UserInputState V :=
  { s with
    manager := effect.manager
    userInputMtx := effect.userInputMtx
    calls := Function.update s.calls id (some { call with stage := effect.stage })
    history := s.history ++ effect.events
    pushed := s.pushed ++ effect.pushes }

/-- The system of all callers of one manager. Request ids are not zero and are not used
twice. -/
def userInputMachine : Machine (UserInputState V) (UserInputAction V) where
  step s
    | .getUserInput id server request =>
      if id ≠ 0 ∧ (s.calls id).isNone then
        some { s with calls := Function.update s.calls id (some ⟨server, request, .queued⟩) }
      else
        none
    | .advance id =>
      (s.calls id).bind fun call ↦
        (call.advance id s.manager s.userInputMtx).map fun effect ↦ s.apply id call effect
    | .setClientReply server id reply =>
      (s.manager.findInputServer server).map fun inputServer ↦
        { s with
          manager := s.manager.setInputServer server (inputServer.setClientReply id reply).2
          history := s.history ++
            [.setClientReply server id reply (inputServer.setClientReply id reply).1] }
    | .interrupt server id =>
      match s.manager.findInputServer server with
      | none => some { s with history := s.history ++ [.interrupt server id] }
      | some _ => some { s with interrupts := s.interrupts ++ [(server, id)] }
    | .applyInterrupt server id =>
      if (server, id) ∈ s.interrupts then
        (s.manager.findInputServer server).map fun inputServer ↦
          { s with
            manager := s.manager.setInputServer server (inputServer.interrupt id)
            interrupts := s.interrupts.erase (server, id)
            history := s.history ++ [.interrupt server id] }
      else
        none
    | .addAnyValues nameValueSet =>
      some { s with manager := (s.manager.addAnyValues nameValueSet).2 }
    | .addInputServer server => some { s with manager := (s.manager.addInputServer server).2 }
    | .updateAnyValue name value =>
      match s.manager.updateAnyValue name value with
      | .ok (true, updated) =>
        some { s with manager := updated, pushed := s.pushed ++ [(name, value)] }
      | _ => some s

/-- Everything that a step of a call can do, with the values that the code has at hand. -/
inductive CallStep (id : UInt64) (server : String) (request : UserInputRequest V)
    (manager : EPICSAnyValueManager V) :
    Option UInt64 → InputStage V → CallEffect V → Prop where
  | acquire : CallStep id server request manager none .queued
      ⟨manager, some id, .findInputServer, [], []⟩
  | findInputServer {mtx} : CallStep id server request manager mtx .findInputServer
      ⟨manager, mtx, .findServer (manager.findInputServer server).isSome, [], []⟩
  | findServer {mtx pvServer} :
      manager.findServer (getInputRequestPVName server) = some pvServer →
      CallStep id server request manager mtx (.findServer true)
        ⟨manager, mtx, .initNewRequest pvServer, [], []⟩
  /-- One of the two servers is missing. -/
  | unregistered {mtx found} :
      (found = true → manager.findServer (getInputRequestPVName server) = none) →
      CallStep id server request manager mtx (.findServer found)
        ⟨manager, mtx, .release (.ok OacTree.kInvalidUserInputReply), [], []⟩
  | initNewRequest {mtx pvServer inputServer} :
      manager.findInputServer server = some inputServer →
      CallStep id server request manager mtx (.initNewRequest pvServer)
        ⟨manager.setInputServer server (inputServer.initNewRequest id), mtx, .publish pvServer,
          [.initNewRequest server id], []⟩
  | publish {mtx pvServer updateVal} :
      base64EncodeAnyValue (encodeInputRequest id request) = .ok updateVal →
      CallStep id server request manager mtx (.publish pvServer)
        ⟨manager.pushUpdate pvServer (getInputRequestPVName server) updateVal, mtx,
          .waitForReply pvServer, [],
          [(getInputRequestPVName server, encodeInputRequest id request)]⟩
  | publishFailed {mtx pvServer e} :
      base64EncodeAnyValue (encodeInputRequest id request) = .error e →
      CallStep id server request manager mtx (.publish pvServer)
        ⟨manager, mtx, .release (.error e), [], []⟩
  | waitForReply {mtx pvServer inputServer result} :
      manager.findInputServer server = some inputServer →
      inputServer.waitForReply id = some result →
      CallStep id server request manager mtx (.waitForReply pvServer)
        ⟨manager, mtx, .withdraw pvServer result, [.waitForReply server id], []⟩
  | withdraw {mtx pvServer result updateVal} :
      base64EncodeAnyValue (kInputRequestAnyValue V) = .ok updateVal →
      CallStep id server request manager mtx (.withdraw pvServer result)
        ⟨manager.pushUpdate pvServer (getInputRequestPVName server) updateVal, mtx,
          .release (.ok (if result.1 then result.2 else OacTree.kInvalidUserInputReply)), [],
          [(getInputRequestPVName server, kInputRequestAnyValue V)]⟩
  | withdrawFailed {mtx pvServer result e} :
      base64EncodeAnyValue (kInputRequestAnyValue V) = .error e →
      CallStep id server request manager mtx (.withdraw pvServer result)
        ⟨manager, mtx, .release (.error e), [], []⟩
  | release {mtx outcome} : CallStep id server request manager mtx (.release outcome)
      ⟨manager, none, .done outcome, [], []⟩

/-- The computed step of a call is one of those above. -/
theorem callStep_of_advance {call : InputCall V} {id : UInt64} {manager : EPICSAnyValueManager V}
    {mtx : Option UInt64} {effect : CallEffect V}
    (h : call.advance id manager mtx = some effect) :
    CallStep id call.server call.request manager mtx call.stage effect := by
  obtain ⟨server, request, stage⟩ := call
  unfold InputCall.advance at h
  cases stage with
  | queued =>
    simp only at h
    split at h
    · next hm =>
      cases h
      subst hm
      exact .acquire
    · cases h
  | findInputServer =>
    cases h
    exact .findInputServer
  | findServer found =>
    simp only at h
    split at h
    · next pvServer hpv =>
      cases h
      exact .findServer hpv
    · next hnone =>
      cases h
      refine .unregistered fun hf ↦ ?_
      cases hpv : manager.findServer (getInputRequestPVName server) with
      | none => rfl
      | some pvServer => exact absurd hpv (hnone pvServer hf)
  | initNewRequest pvServer =>
    obtain ⟨inputServer, hs, rfl⟩ := Option.map_eq_some_iff.mp h
    exact .initNewRequest hs
  | publish pvServer =>
    simp only [EPICSAnyValueManager.updateServer_eq] at h
    cases he : base64EncodeAnyValue (encodeInputRequest id request) with
    | ok updateVal =>
      simp only [he, Except.map] at h
      cases h
      exact .publish he
    | error e =>
      simp only [he, Except.map] at h
      cases h
      exact .publishFailed he
  | waitForReply pvServer =>
    obtain ⟨inputServer, hs, h⟩ := Option.bind_eq_some_iff.mp h
    obtain ⟨result, hr, rfl⟩ := Option.map_eq_some_iff.mp h
    exact .waitForReply hs hr
  | withdraw pvServer result =>
    simp only [EPICSAnyValueManager.updateServer_eq] at h
    cases he : base64EncodeAnyValue (kInputRequestAnyValue V) with
    | ok updateVal =>
      simp only [he, Except.map] at h
      cases h
      exact .withdraw he
    | error e =>
      simp only [he, Except.map] at h
      cases h
      exact .withdrawFailed he
  | release outcome =>
    cases h
    exact .release
  | done outcome => cases h

/-- Everything that a step of the system can do. -/
inductive UserInputStep : UserInputState V → UserInputAction V → UserInputState V → Prop where
  | getUserInput {s id server request} : id ≠ 0 → s.calls id = none →
      UserInputStep s (.getUserInput id server request)
        { s with calls := Function.update s.calls id (some ⟨server, request, .queued⟩) }
  | advance {s : UserInputState V} {id call effect} : s.calls id = some call →
      CallStep id call.server call.request s.manager s.userInputMtx call.stage effect →
      UserInputStep s (.advance id) (s.apply id call effect)
  | setClientReply {s server id reply inputServer} :
      s.manager.findInputServer server = some inputServer →
      UserInputStep s (.setClientReply server id reply)
        { s with
          manager := s.manager.setInputServer server (inputServer.setClientReply id reply).2
          history := s.history ++
            [.setClientReply server id reply (inputServer.setClientReply id reply).1] }
  | interruptUnknown {s server id} : s.manager.findInputServer server = none →
      UserInputStep s (.interrupt server id)
        { s with history := s.history ++ [.interrupt server id] }
  | interrupt {s server id} : (s.manager.findInputServer server).isSome →
      UserInputStep s (.interrupt server id)
        { s with interrupts := s.interrupts ++ [(server, id)] }
  | applyInterrupt {s server id inputServer} : (server, id) ∈ s.interrupts →
      s.manager.findInputServer server = some inputServer →
      UserInputStep s (.applyInterrupt server id)
        { s with
          manager := s.manager.setInputServer server (inputServer.interrupt id)
          interrupts := s.interrupts.erase (server, id)
          history := s.history ++ [.interrupt server id] }
  | addAnyValues {s nameValueSet} : UserInputStep s (.addAnyValues nameValueSet)
      { s with manager := (s.manager.addAnyValues nameValueSet).2 }
  | addInputServer {s server} : s.manager.findInputServer server = none →
      UserInputStep s (.addInputServer server)
        { s with manager := s.manager.setInputServer server .new }
  | updateAnyValue {s name value i updateVal} : UserInputStep s (.updateAnyValue name value)
      { s with
        manager := s.manager.pushUpdate i name updateVal
        pushed := s.pushed ++ [(name, value)] }
  /-- Refused additions and updates change nothing. -/
  | refused {s a} : UserInputStep s a s

/-- The computed step of the system is one of those above. -/
theorem userInputStep_of_step {s t : UserInputState V} {a : UserInputAction V}
    (h : userInputMachine.step s a = some t) : UserInputStep s a t := by
  cases a with
  | getUserInput id server request =>
    simp only [userInputMachine] at h
    split at h
    · next hc =>
      cases h
      exact .getUserInput hc.1 (Option.isNone_iff_eq_none.mp hc.2)
    · cases h
  | advance id =>
    obtain ⟨call, hc, h⟩ := Option.bind_eq_some_iff.mp h
    obtain ⟨effect, he, rfl⟩ := Option.map_eq_some_iff.mp h
    exact .advance hc (callStep_of_advance he)
  | setClientReply server id reply =>
    obtain ⟨inputServer, hs, rfl⟩ := Option.map_eq_some_iff.mp h
    exact .setClientReply hs
  | interrupt server id =>
    simp only [userInputMachine] at h
    split at h
    · next hs =>
      cases h
      exact .interruptUnknown hs
    · next inputServer hs =>
      cases h
      exact .interrupt (by rw [hs]; rfl)
  | applyInterrupt server id =>
    simp only [userInputMachine] at h
    split at h
    · next hm =>
      obtain ⟨inputServer, hs, rfl⟩ := Option.map_eq_some_iff.mp h
      exact .applyInterrupt hm hs
    · cases h
  | addAnyValues nameValueSet =>
    cases h
    exact .addAnyValues
  | addInputServer server =>
    simp only [userInputMachine, Option.some.injEq] at h
    subst h
    unfold EPICSAnyValueManager.addInputServer
    split
    · exact .refused
    · next hs => exact .addInputServer hs
  | updateAnyValue name value =>
    simp only [userInputMachine, EPICSAnyValueManager.updateAnyValue] at h
    cases hf : s.manager.findServer name with
    | none =>
      simp only [hf, Option.some.injEq] at h
      subst h
      exact .refused
    | some i =>
      cases he : base64EncodeAnyValue value with
      | error e =>
        simp only [hf, EPICSAnyValueManager.updateServer_eq, he, Except.map, bind, Except.bind,
          Option.some.injEq] at h
        subst h
        exact .refused
      | ok updateVal =>
        simp only [hf, EPICSAnyValueManager.updateServer_eq, he, Except.map, bind, Except.bind,
          pure, Except.pure, Option.some.injEq] at h
        subst h
        exact .updateAnyValue

end OacTreeServer.Epics
