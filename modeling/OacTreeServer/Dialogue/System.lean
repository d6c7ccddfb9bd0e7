import OacTreeServer.Epics.IoClient
import OacTreeServer.Epics.UpdateThread
import OacTreeServer.Epics.UserInputInvariant

/-!
# The dialogue with the users

A call of `GetUserInput` publishes its request, the thread of an `EPICSServer` shows it, clients
that monitor the request variable ask their users, and the replies come back through the protocol
of the input server. All of these are here at once, with everything that may happen in between:
calls are queued and interrupted, connections come and go, requests are missed, and replies are
late, lost or received again.
-/

namespace OacTreeServer.Dialogue
open OacTreeServer.Client OacTreeServer.Epics OacTreeServer.External OacTreeServer.Input
  OacTreeServer.Library OacTreeServer.Protocol

/-- What is said between a procedure and the users. -/
inductive DialogueEvent (V : Type) where
  /-- A thread enters `GetUserInput`. -/
  | called (id : UInt64) (server : String) (request : UserInputRequest V)
  /-- A client asks its user. -/
  | asked (client : Nat) (id : UInt64) (request : UserInputRequest V)
  /-- The user of a client has replied. -/
  | answered (client : Nat) (id : UInt64) (reply : UserInputReply V)
  /-- `GetUserInput` returns or throws. -/
  | returned (id : UInt64) (outcome : Except Exception (UserInputReply V))

/-- A client with one input handler, and its monitor of the request variable;
`epics_io_client.cpp:107`. -/
structure InputClient (C V : Type) where
  io : IoClientState V
  requestPv : C

/-- The calls of one manager, the threads of its servers and the clients. -/
structure DialogueState (S C V : Type) where
  input : UserInputState V
  threads : Nat → UpdateThread S V
  clients : Nat → InputClient C V
  log : List (DialogueEvent V)

/-- What may happen. -/
inductive DialogueAction (V : Type) where
  /-- A thread of the server, except that replies come from the clients. -/
  | server (a : UserInputAction V)
  /-- The thread of an `EPICSServer` goes on. -/
  | advance (i : Nat)
  | connect (client : Nat)
  | disconnect (client : Nat)
  | coalesce (client position : Nat)
  /-- The callback of the monitor is called, in a thread of its own if it asks the user. -/
  | deliver (client handler : Nat)
  /-- A thread of a client, except that values come from the monitor. -/
  | client (client : Nat) (a : IoClientAction V)
  /-- A reply that a client has sent reaches its input server, possibly not for the first time. -/
  | receive (client message : Nat)

section Definitions

variable {S C V : Type} [PvAccessClientPV C Nat V]

/-- A client of an input server. -/
def InputClient.new (inputServerName : String) : InputClient C V :=
  ⟨.start inputServerName, PvAccessClientPV.new (getInputRequestPVName inputServerName)⟩

/-- What is heard of a thread of the server. -/
def serverEvents (input : UserInputState V) : UserInputAction V → List (DialogueEvent V)
  | .getUserInput id server request => [.called id server request]
  | .advance id =>
    match input.calls id with
    | some ⟨_, _, .done outcome⟩ => [.returned id outcome]
    | _ => []
  | _ => []

/-- What is heard of a thread of a client. -/
def clientEvents [AnyValue V] [OacTree V] (client : Nat) (io : IoClientState V) :
    IoClientAction V → List (DialogueEvent V)
  | .handleUserInput _ reqAv =>
    match requestOf reqAv with
    | .ok (some (id, inputRequest)) => [.asked client id inputRequest]
    | _ => []
  | .getUserInputReturns handler reply =>
    match io.handlers handler with
    | some ⟨id, .running⟩ => [.answered client id reply]
    | _ => []
  | _ => []

namespace DialogueState

/-- A manager without values and clients that are not connected. -/
def start [OacTree V] [PvAccessServer S V] (servers : Nat → String) : DialogueState S C V where
  input := .start .new
  threads _ := ⟨.starting, PvAccessServer.new⟩
  clients c := .new (servers c)
  log := []

/-- The callers of the manager have changed. -/
def setInput (s : DialogueState S C V) (input : UserInputState V)
    (events : List (DialogueEvent V)) : DialogueState S C V :=
  { s with
    input
    log := s.log ++ events }

/-- A client has changed. -/
def setClient (s : DialogueState S C V) (c : Nat) (client : InputClient C V)
    (events : List (DialogueEvent V)) : DialogueState S C V :=
  { s with
    clients := Function.update s.clients c client
    log := s.log ++ events }

/-- The monitor of a client has changed. -/
def setPv (s : DialogueState S C V) (c : Nat) (requestPv : C) : DialogueState S C V :=
  s.setClient c { s.clients c with requestPv } []

/-- A client that has done something is heard of. -/
def setIo [AnyValue V] [OacTree V] (s : DialogueState S C V) (c : Nat) (a : IoClientAction V)
    (client : InputClient C V) : DialogueState S C V :=
  s.setClient c client (clientEvents c (s.clients c).io a)

/-- A server with its thread, as the update loop sees them. -/
def threadState (s : DialogueState S C V) (i : Nat) (epicsServer : EPICSServer V) :
    UpdateLoopState S V :=
  ⟨epicsServer.updateQueue, (s.threads i).loop, (s.threads i).pvServer, [], []⟩

/-- What a step of a thread leaves, with the values that were set on their way to the clients. -/
def afterThread (s : DialogueState S C V) (i : Nat) (t : UpdateLoopState S V) :
    DialogueState S C V :=
  { s with
    input := { s.input with manager := s.input.manager.setQueue i t.updateQueue }
    threads := Function.update s.threads i ⟨t.loop, t.server⟩
    clients := fun c ↦ { s.clients c with
      requestPv := PvAccessClientPV.postAll i t.applied (s.clients c).requestPv } }

variable [Base64VariableCodec V]

/-- The thread of a server goes on. -/
def advance [PvAccessServer S V] (s : DialogueState S C V) (i : Nat) :
    Option (DialogueState S C V) :=
  match s.input.manager.servers[i]? with
  | none => none
  | some epicsServer =>
    (Epics.advance epicsServer.nameValueSet (s.threadState i epicsServer)).map (s.afterThread i)

/-- A monitor that is not connected finds the server of the request variable. -/
def connect [PvAccessServer S V] (s : DialogueState S C V) (c : Nat) :
    Option (DialogueState S C V) :=
  let pv := (s.clients c).requestPv
  match s.input.manager.findServer (PvAccessClientPV.channel pv) with
  | none => none
  | some i =>
    if PvAccessClientPV.source pv = none ∧ isRunning (s.threads i).loop = true then
      (PvAccessServer.served (s.threads i).pvServer (PvAccessClientPV.channel pv)).map fun value ↦
        s.setPv c (PvAccessClientPV.connect pv i value)
    else
      none

variable [AnyValue V] [OacTree V]

/-- The callback of the monitor of a client is called with the next value;
`epics_io_client.cpp:121`. -/
def deliver (s : DialogueState S C V) (c handler : Nat) : Option (DialogueState S C V) :=
  (PvAccessClientPV.deliver (s.clients c).requestPv).bind fun r ↦
    match base64DecodeAnyValue r.1 with
    | (false, _) => some (s.setPv c r.2)
    | (true, reqAv) =>
      (ioClientMachine.step (s.clients c).io (.handleUserInput handler reqAv)).map fun io ↦
        s.setIo c (.handleUserInput handler reqAv) ⟨io, r.2⟩

/-- The input server of a client handles a reply that this has sent;
`input_protocol_server.cpp:69`. -/
def receive [SupProtocol V] (s : DialogueState S C V) (c message : Nat) :
    Option (DialogueState S C V) :=
  let io := (s.clients c).io
  (startedReplies io.delegator.history)[message]?.bind fun info ↦
    (s.input.manager.findInputServer io.inputServerName).bind fun inputServer ↦
      match InputProtocolClient.setClientReply inputProtocolServer info.id info.reply
        inputServer with
      | .error _ => none
      | .ok (accepted, inputServer) => some (s.setInput
          { s.input with
            manager := s.input.manager.setInputServer io.inputServerName inputServer
            history := s.input.history ++
              [.setClientReply io.inputServerName info.id info.reply accepted] } [])

/-- A thread of the server goes on. -/
def server (s : DialogueState S C V) : UserInputAction V → Option (DialogueState S C V)
  | .setClientReply _ _ _ => none
  | a => (userInputMachine.step s.input a).map fun input ↦ s.setInput input (serverEvents input a)

/-- A thread of a client goes on. -/
def client (s : DialogueState S C V) (c : Nat) : IoClientAction V → Option (DialogueState S C V)
  | .handleUserInput _ _ => none
  | a => (ioClientMachine.step (s.clients c).io a).map fun io ↦
      s.setIo c a { s.clients c with io }

end DialogueState

/-- The whole dialogue. -/
def dialogueMachine [AnyValue V] [OacTree V] [Base64VariableCodec V] [SupProtocol V]
    [PvAccessServer S V] : Machine (DialogueState S C V) (DialogueAction V) where
  step s
    | .server a => s.server a
    | .advance i => s.advance i
    | .connect c => s.connect c
    | .disconnect c => some (s.setPv c (PvAccessClientPV.disconnect (s.clients c).requestPv))
    | .coalesce c position =>
      (PvAccessClientPV.coalesce (s.clients c).requestPv position).map (s.setPv c)
    | .deliver c handler => s.deliver c handler
    | .client c a => s.client c a
    | .receive c message => s.receive c message

end Definitions

end OacTreeServer.Dialogue
