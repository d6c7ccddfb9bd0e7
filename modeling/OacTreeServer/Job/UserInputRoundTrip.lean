import OacTreeServer.Client.AnyValueManager
import OacTreeServer.External.Reference
import OacTreeServer.Input.InputProtocol
import OacTreeServer.Input.Requests

/-!
# User input from the job to the consumer and back

`ServerJobInfoIO` asks for user input through its manager (`base/server_job_info_io.cpp:96`).
Here one request is followed all the way: it is published, decoded by the client, answered
by the consumer, and the reply comes back through the protocol to the waiting call. No one
interrupts it and no other client replies.
-/

namespace OacTreeServer.Job
open OacTreeServer.Client OacTreeServer.External OacTreeServer.Input OacTreeServer.Protocol

section Definitions

variable {V : Type} [AnyValue V] [OacTree V] {m : Type → Type} [Monad m]

/-- `GetUserValue`, with the `GetUserInput` of its manager: whether it succeeds, and the value
of the caller behind it; `server_job_info_io.cpp:96`. -/
def ServerJobInfoIo.getUserValue (io : ServerJobInfoIo)
    (getUserInput : String → UInt64 → UserInputRequest V → m (UserInputReply V)) (id : UInt64)
    (value : V) (description : String) : m (Bool × V) := do
  let inputRequest := OacTree.createUserValueRequest value description
  let inputServerName := getInputServerName io.jobPrefix
  let response ← getUserInput inputServerName id inputRequest
  match OacTree.parseUserValueReply response with
  | none => return (false, value)
  | some reply =>
    match AnyValue.tryAssign value reply with
    | none => return (false, value)
    | some assigned => return (true, assigned)

/-- `GetUserChoice`, with the `GetUserInput` of its manager; `server_job_info_io.cpp:115`. -/
def ServerJobInfoIo.getUserChoice (io : ServerJobInfoIo)
    (getUserInput : String → UInt64 → UserInputRequest V → m (UserInputReply V)) (id : UInt64)
    (options : List String) (metadata : V) : m Int32 := do
  let inputRequest := OacTree.createUserChoiceRequest options metadata
  let inputServerName := getInputServerName io.jobPrefix
  let response ← getUserInput inputServerName id inputRequest
  match OacTree.parseUserChoiceReply response with
  | none => return -1
  | some reply => return reply

end Definitions

/-- The request server of a job and the client that listens to the job. -/
structure InputLoop (V IS : Type) where
  requestServer : InputRequestServer V
  client : ClientAnyValueManager V IS

/-- Steps of the loop change it, may throw, and may block for good, which is `none`. -/
abbrev InputLoopM (V IS : Type) := StateT (InputLoop V IS) (ExceptT Exception Option)

section Loop

variable {V IS : Type} [AnyValue V] [OacTree V] [Base64VariableCodec V] [SupProtocol V]

/-- The client handles a published request; `epics_io_client.cpp:152`. -/
def handleUserInput (answers : JobInfoAnswers V) (inputServerName : String) (reqAv : V) :
    InputLoopM V IS Unit := fun loop ↦ do
  let (success, id, inputRequest) ← ExceptT.mk (some (decodeInputRequest reqAv))
  if !success || inputRequest.requestType = OacTree.kInvalid V then
    return ((), loop)
  let (reply, client) := loop.client.getUserInput answers inputServerName id inputRequest
  let (_, requestServer) ← ExceptT.mk (some
    (InputProtocolClient.setClientReply inputProtocolServer id reply loop.requestServer))
  return ((), { loop with requestServer, client })

/-- `GetUserInput` of the manager, served by the client; `epics_anyvalue_manager.cpp:92`. -/
def serveUserInput (answers : JobInfoAnswers V) (inputServerName : String) (id : UInt64)
    (request : UserInputRequest V) : InputLoopM V IS (UserInputReply V) := do
  modify fun loop ↦ { loop with requestServer := loop.requestServer.initNewRequest id }
  handleUserInput answers inputServerName (encodeInputRequest id request)
  fun loop ↦ ExceptT.mk <|
    (loop.requestServer.waitForReply id).map fun (retrieved, value) ↦
      .ok (if retrieved then value else OacTree.kInvalidUserInputReply, loop)

/-- What asking the consumer directly means: its value is assigned when it agrees. -/
def assignUserValue (answers : JobInfoAnswers V) (id : UInt64) (value : V)
    (description : String) : Bool × V :=
  match answers.getUserValue id value description with
  | (true, reply) =>
    match AnyValue.tryAssign value reply with
    | some assigned => (true, assigned)
    | none => (false, value)
  | (false, _) => (false, value)

end Loop

section RoundTrip

variable {V IS : Type} [AnyValue V] [LawfulAnyValue V] [OacTree V] [LawfulOacTree V]
  [LawfulUserInput V] [Base64VariableCodec V] [LawfulBase64VariableCodec V]
  [TotalBase64VariableCodec V] [SupProtocol V] [LawfulSupProtocol V]

omit [LawfulOacTree V] [LawfulUserInput V] in
/-- The client answers a published request that has a valid type. -/
private theorem handleUserInput_encode (loop : InputLoop V IS) {answers : JobInfoAnswers V}
    {inputServerName : String} {id : UInt64} {request : UserInputRequest V}
    {reply : UserInputReply V} {client : ClientAnyValueManager V IS}
    (hrequest : request.requestType ≠ OacTree.kInvalid V)
    (hanswer : loop.client.getUserInput answers inputServerName id request = (reply, client)) :
    handleUserInput answers inputServerName (encodeInputRequest id request) loop =
      some (.ok ((), ⟨(loop.requestServer.setClientReply id reply).2, client⟩)) := by
  unfold handleUserInput
  rw [decodeInputRequest_encode]
  simp [bind, ExceptT.bind, ExceptT.mk, ExceptT.bindCont, pure, ExceptT.pure, hrequest, hanswer,
    setClientReply_inputProtocolServer]

omit [LawfulUserInput V] in
/-- A valid reply of the client to a request reaches the call that waits for it. -/
private theorem serveUserInput_of_reply {answers : JobInfoAnswers V} {inputServerName : String}
    {id : UInt64} (hid : id ≠ 0) {request : UserInputRequest V} {reply : UserInputReply V}
    {loop : InputLoop V IS} {client : ClientAnyValueManager V IS}
    (hrequest : request.requestType ≠ OacTree.kInvalid V)
    (hreply : reply.requestType ≠ OacTree.kInvalid V)
    (hanswer : loop.client.getUserInput answers inputServerName id request = (reply, client)) :
    serveUserInput answers inputServerName id request loop =
      some (.ok (reply, ⟨⟨id, reply, false⟩, client⟩)) := by
  have hvalid : isValid reply = true := by simpa [isValid] using hreply
  have hset : (loop.requestServer.initNewRequest id).setClientReply id reply =
      (true, ⟨id, reply, false⟩) := by
    simp [InputRequestServer.setClientReply, InputRequestServer.initNewRequest, hid, hvalid,
      isValid_kInvalidUserInputReply]
  have hhandle := handleUserInput_encode
    { loop with requestServer := loop.requestServer.initNewRequest id } hrequest hanswer
  have hwait : (⟨id, reply, false⟩ : InputRequestServer V).waitForReply id =
      some (true, reply) := by
    simp [InputRequestServer.waitForReply, InputRequestServer.waitPredicate, hid, hvalid]
  rw [hset] at hhandle
  change Option.bind (handleUserInput answers inputServerName (encodeInputRequest id request)
    { loop with requestServer := loop.requestServer.initNewRequest id }) _ = _
  rw [hhandle]
  simp [ExceptT.bindCont, ExceptT.mk, hwait]

/-- Asking for a value over the network is asking the consumer. -/
private theorem getUserValue_serve (answers : JobInfoAnswers V) (io : ServerJobInfoIo)
    {id : UInt64} (hid : id ≠ 0) (loop : InputLoop V IS) (value : V) (description : String) :
    ∃ requestServer : InputRequestServer V,
      io.getUserValue (serveUserInput answers) id value description loop =
        some (.ok (assignUserValue answers id value description,
          ⟨requestServer, loop.client.receive [.getUserValue id value description]⟩)) := by
  let reply := OacTree.createUserValueReply (answers.getUserValue id value description).1
    (answers.getUserValue id value description).2
  have hanswer : loop.client.getUserInput answers (getInputServerName io.jobPrefix) id
      (OacTree.createUserValueRequest value description) =
        (reply, loop.client.receive [.getUserValue id value description]) := by
    rw [ClientAnyValueManager.getUserInput,
      if_pos (LawfulUserInput.requestType_createUserValueRequest value description),
      LawfulUserInput.parseUserValueRequest_create]
  have hserve := serveUserInput_of_reply hid (by
    rw [LawfulUserInput.requestType_createUserValueRequest]
    exact LawfulUserInput.kUserValue_ne_kInvalid) (by
    rw [LawfulUserInput.requestType_createUserValueReply]
    exact LawfulUserInput.kUserValue_ne_kInvalid) hanswer
  refine ⟨⟨id, reply, false⟩, ?_⟩
  change Option.bind (serveUserInput answers (getInputServerName io.jobPrefix) id
    (OacTree.createUserValueRequest value description) loop) _ = _
  rw [hserve, Option.bind_some]
  simp only [ExceptT.bindCont]
  rw [LawfulUserInput.parseUserValueReply_create, assignUserValue]
  cases hagree : answers.getUserValue id value description with
  | mk result answer =>
    cases result with
    | false => rfl
    | true =>
      cases hassign : AnyValue.tryAssign value answer with
      | none =>
        simp only [if_true, hassign]
        rfl
      | some assigned =>
        simp only [if_true, hassign]
        rfl

/-- Asking for a choice over the network is asking the consumer. -/
private theorem getUserChoice_serve (answers : JobInfoAnswers V) (io : ServerJobInfoIo)
    {id : UInt64} (hid : id ≠ 0) (loop : InputLoop V IS) (options : List String) (metadata : V) :
    ∃ requestServer : InputRequestServer V,
      io.getUserChoice (serveUserInput answers) id options metadata loop =
        some (.ok (answers.getUserChoice id options metadata,
          ⟨requestServer, loop.client.receive [.getUserChoice id options metadata]⟩)) := by
  let reply : UserInputReply V :=
    OacTree.createUserChoiceReply true (answers.getUserChoice id options metadata)
  have htype := LawfulUserInput.requestType_createUserChoiceRequest options metadata
  have hanswer : loop.client.getUserInput answers (getInputServerName io.jobPrefix) id
      (OacTree.createUserChoiceRequest options metadata) =
        (reply, loop.client.receive [.getUserChoice id options metadata]) := by
    rw [ClientAnyValueManager.getUserInput, if_neg, if_pos htype,
      LawfulUserInput.parseUserChoiceRequest_create]
    rw [htype]
    exact LawfulUserInput.kUserChoice_ne_kUserValue
  have hserve := serveUserInput_of_reply hid (by
    rw [htype]
    exact LawfulUserInput.kUserChoice_ne_kInvalid) (by
    rw [LawfulUserInput.requestType_createUserChoiceReply]
    exact LawfulUserInput.kUserChoice_ne_kInvalid) hanswer
  refine ⟨⟨id, reply, false⟩, ?_⟩
  change Option.bind (serveUserInput answers (getInputServerName io.jobPrefix) id
    (OacTree.createUserChoiceRequest options metadata) loop) _ = _
  rw [hserve, Option.bind_some]
  simp only [ExceptT.bindCont]
  rw [LawfulUserInput.parseUserChoiceReply_create]
  rfl

/-- Asking for user input over the network is asking the consumer: it is called once, with the
id and the data of the job, and the job gets its answer. A choice is returned as it is, a
value is assigned when the consumer agrees and the assignment succeeds. -/
theorem user_input_round_trip (answers : JobInfoAnswers V) (io : ServerJobInfoIo) (id : UInt64)
    (hid : id ≠ 0) (loop : InputLoop V IS) :
    (∀ value description, ∃ requestServer : InputRequestServer V,
      io.getUserValue (serveUserInput answers) id value description loop =
        some (.ok (assignUserValue answers id value description,
          ⟨requestServer, loop.client.receive [.getUserValue id value description]⟩))) ∧
    ∀ options metadata, ∃ requestServer : InputRequestServer V,
      io.getUserChoice (serveUserInput answers) id options metadata loop =
        some (.ok (answers.getUserChoice id options metadata,
          ⟨requestServer, loop.client.receive [.getUserChoice id options metadata]⟩)) := by
  constructor
  · intro value description
    exact getUserValue_serve answers io hid loop value description
  · intro options metadata
    exact getUserChoice_serve answers io hid loop options metadata

end RoundTrip

/-- A consumer that answers `5` and chooses `-3`. -/
private def sampleAnswers : JobInfoAnswers DtoValue where
  getUserValue _ _ _ := (true, .uint32 5)
  getUserChoice _ _ _ := -3

/-- An accepted value is assigned, and a negative choice comes back as it is. -/
theorem user_input_round_trip_negative_choice :
    (∃ requestServer : InputRequestServer DtoValue,
      (⟨"S:PROC-0:", 1, .new, .new, .new⟩ : ServerJobInfoIo).getUserValue
        (serveUserInput sampleAnswers) 7 (.uint32 0) "speed"
        (⟨.new, .new⟩ : InputLoop DtoValue (Bool × UInt32)) =
          some (.ok ((true, .uint32 5),
            ⟨requestServer, ⟨∅, [.getUserValue 7 (.uint32 0) "speed"]⟩⟩))) ∧
    ∃ requestServer : InputRequestServer DtoValue,
      (⟨"S:PROC-0:", 1, .new, .new, .new⟩ : ServerJobInfoIo).getUserChoice
        (serveUserInput sampleAnswers) 7 ["left", "right"] .empty
        (⟨.new, .new⟩ : InputLoop DtoValue (Bool × UInt32)) =
          some (.ok (-3,
            ⟨requestServer, ⟨∅, [.getUserChoice 7 ["left", "right"] .empty]⟩⟩)) := by
  have htrip := user_input_round_trip sampleAnswers ⟨"S:PROC-0:", 1, .new, .new, .new⟩ 7
    (by decide) (⟨.new, .new⟩ : InputLoop DtoValue (Bool × UInt32))
  exact ⟨htrip.1 (.uint32 0) "speed", htrip.2 ["left", "right"] .empty⟩

end OacTreeServer.Job
