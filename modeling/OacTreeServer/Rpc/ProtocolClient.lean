import OacTreeServer.Rpc.ProtocolServers

/-!
# The job manager at the client

`AutomationProtocolClient` is a job manager that asks an info and a control protocol
(`base/automation_protocol_client.cpp:46`). What a method makes of an answer is a function
of the answer alone, whatever the protocols are.
-/

namespace OacTreeServer.Rpc
open OacTreeServer.External OacTreeServer.Protocol

namespace AutomationProtocolClient

section Answers

variable {V JobInfo : Type} [AnyValue V] [SupProtocol V] [JobInfoCodec V JobInfo]

/-- The exception of a method with a text for it. -/
def invalidOperation (method text : String) : Exception :=
  .invalidOperation ("AutomationProtocolClient::" ++ method ++ "(): " ++ text)

/-- The output of an answer that is a success, else the exception of the method;
`automation_protocol_client.cpp:51`. -/
def checkedOutput (method : String) (answer : ProtocolResult × V) : Except Exception V :=
  if answer.1 ≠ SupProtocol.success V then
    .error (invalidOperation method
      ("protocol did not return success: " ++ automationServerResultToString V answer.1))
  else
    .ok answer.2

/-- What `GetServerPrefix` makes of an answer; `automation_protocol_client.cpp:51`. -/
def serverPrefixOf (answer : ProtocolResult × V) : Except Exception String := do
  let output ← checkedOutput "GetServerPrefix" answer
  match SupProtocol.functionProtocolExtractString output kServerPrefixFieldName with
  | none =>
    throw (invalidOperation "GetServerPrefix" "could not extract server prefix from server reply")
  | some result => return result

/-- What `GetNumberOfJobs` makes of an answer; `automation_protocol_client.cpp:72`. -/
def numberOfJobsOf (answer : ProtocolResult × V) : Except Exception UInt32 := do
  let output ← checkedOutput "GetNumberOfJobs" answer
  match SupProtocol.functionProtocolExtract output kNumberOfJobsFieldName with
  | none =>
    throw (invalidOperation "GetNumberOfJobs" "could not extract number of jobs from server reply")
  | some result =>
    if !AnyValue.hasType result .unsignedInteger64 then
      throw (invalidOperation "GetNumberOfJobs"
        "could not extract number of jobs from server reply")
    AnyValue.asUInt32 result

/-- What `GetJobInfo` makes of an answer: the `catch` is for the exceptions of the server's own
library; `automation_protocol_client.cpp:96`. -/
def jobInfoOf (answer : ProtocolResult × V) : Except Exception JobInfo := do
  let output ← checkedOutput "GetJobInfo" answer
  match SupProtocol.functionProtocolExtract output kJobInfoFieldName with
  | none => throw (invalidOperation "GetJobInfo" "could not extract job info from server reply")
  | some jobInfoAv =>
    match JobInfoCodec.toJobInfo jobInfoAv with
    | .ok jobInfo => return jobInfo
    | .error (.invalidOperation _) =>
      throw (invalidOperation "GetJobInfo" "could not convert received AnyValue to JobInfo")
    | .error e => throw e

/-- What `EditBreakpoint` makes of an answer; `automation_protocol_client.cpp:133`. -/
def editBreakpointOf (answer : ProtocolResult × V) : Except Exception Unit := do
  let _ ← checkedOutput "EditBreakpoint" answer

/-- What `SendJobCommand` makes of an answer; `automation_protocol_client.cpp:151`. -/
def sendJobCommandOf (answer : ProtocolResult × V) : Except Exception Unit := do
  let _ ← checkedOutput "SendJobCommand" answer

/-- The exception of a method when the protocol answers with an error. -/
def protocolError (V : Type) [SupProtocol V] (method : String) (result : ProtocolResult) :
    Exception :=
  invalidOperation method
    ("protocol did not return success: " ++ automationServerResultToString V result)

omit [AnyValue V] [JobInfoCodec V JobInfo] in
/-- The output of a success is looked at. -/
theorem checkedOutput_success (method : String) (output : V) :
    checkedOutput method (SupProtocol.success V, output) = .ok output :=
  if_neg (not_not.mpr rfl)

omit [AnyValue V] [JobInfoCodec V JobInfo] in
/-- An error ends the method with its exception. -/
theorem checkedOutput_error {result : ProtocolResult} (h : result ≠ SupProtocol.success V)
    (method : String) (output : V) :
    checkedOutput method (result, output) = .error (protocolError V method result) :=
  if_pos h

end Answers

section Methods

variable {m : Type → Type} [Monad m] {V JobInfo : Type} [AnyValue V] [SupProtocol V]
  [JobInfoCodec V JobInfo]

/-- The packet of `GetJobInfo`; `automation_protocol_client.cpp:91`. -/
def getJobInfoInput (V : Type) [AnyValue V] [SupProtocol V] (jobIdx : UInt32) : V :=
  let input := SupProtocol.functionProtocolInput kGetJobInfoFunctionName
  let jobIdxAv := AnyValue.ofUInt64 jobIdx.toUInt64
  SupProtocol.functionProtocolPack input kJobIndexFieldName jobIdxAv

/-- The packet of `EditBreakpoint`; `automation_protocol_client.cpp:125`. -/
def editBreakpointInput (V : Type) [AnyValue V] [SupProtocol V] (jobIdx instrIdx : UInt32)
    (breakpointActive : Bool) : V :=
  let input := SupProtocol.functionProtocolInput kEditBreakpointCommandFunctionName
  let jobIdxAv := AnyValue.ofUInt64 jobIdx.toUInt64
  let input := SupProtocol.functionProtocolPack input kJobIndexFieldName jobIdxAv
  let instrIdxAv := AnyValue.ofUInt64 instrIdx.toUInt64
  let input := SupProtocol.functionProtocolPack input kInstructionIndexFieldName instrIdxAv
  SupProtocol.functionProtocolPack input kBreakpointActiveFieldName
    (AnyValue.ofBoolean breakpointActive)

/-- The packet of `SendJobCommand`; `automation_protocol_client.cpp:143`. -/
def sendJobCommandInput (V : Type) [AnyValue V] [SupProtocol V] (jobIdx : UInt32)
    (command : JobCommand) : V :=
  let input := SupProtocol.functionProtocolInput kSendJobCommandFunctionName
  let jobIdxAv := AnyValue.ofUInt64 jobIdx.toUInt64
  let input := SupProtocol.functionProtocolPack input kJobIndexFieldName jobIdxAv
  let commandAv := AnyValue.ofUInt32 command.code
  SupProtocol.functionProtocolPack input kJobCommandFieldName commandAv

/-- `GetServerPrefix`; `automation_protocol_client.cpp:46`. -/
def getServerPrefix (infoProtocol : Protocol m V) : ExceptT Exception m String := do
  let answer ← infoProtocol.invoke
    (SupProtocol.functionProtocolInput kGetServerPrefixFunctionName) AnyValue.empty
  serverPrefixOf answer

/-- `GetNumberOfJobs`; `automation_protocol_client.cpp:67`. -/
def getNumberOfJobs (infoProtocol : Protocol m V) : ExceptT Exception m UInt32 := do
  let answer ← infoProtocol.invoke
    (SupProtocol.functionProtocolInput kGetNumberOfJobsFunctionName) AnyValue.empty
  numberOfJobsOf answer

/-- `GetJobInfo`; `automation_protocol_client.cpp:89`. -/
def getJobInfo (infoProtocol : Protocol m V) (jobIdx : UInt32) : ExceptT Exception m JobInfo := do
  let answer ← infoProtocol.invoke (getJobInfoInput V jobIdx) AnyValue.empty
  jobInfoOf answer

/-- `EditBreakpoint`; `automation_protocol_client.cpp:122`. -/
def editBreakpoint (controlProtocol : Protocol m V) (jobIdx instrIdx : UInt32)
    (breakpointActive : Bool) : ExceptT Exception m Unit := do
  let answer ← controlProtocol.invoke (editBreakpointInput V jobIdx instrIdx breakpointActive)
    AnyValue.empty
  editBreakpointOf answer

/-- `SendJobCommand`; `automation_protocol_client.cpp:141`. -/
def sendJobCommand (controlProtocol : Protocol m V) (jobIdx : UInt32) (command : JobCommand) :
    ExceptT Exception m Unit := do
  let answer ← controlProtocol.invoke (sendJobCommandInput V jobIdx command) AnyValue.empty
  sendJobCommandOf answer

end Methods

section Runs

variable {m : Type → Type} [Monad m] [LawfulMonad m] {V : Type}

/-- A program that first has an effect of `m`, which does not throw. -/
theorem run_liftM_bind {α β : Type} (x : m α) (f : α → ExceptT Exception m β) :
    (do let a ← x; f a : ExceptT Exception m β).run = x >>= fun a ↦ (f a).run := by
  rw [ExceptT.run_bind]
  change (Except.ok <$> x) >>= _ = _
  rw [bind_map_left]

/-- A method that looks at one answer of a protocol. -/
theorem run_answer {α : Type} (invoke : m (ProtocolResult × V))
    (f : ProtocolResult × V → Except Exception α) :
    (do let answer ← invoke; f answer : ExceptT Exception m α).run = f <$> invoke := by
  rw [run_liftM_bind, map_eq_pure_bind]
  rfl

end Runs

end AutomationProtocolClient

/-- `AutomationProtocolClient`, as the job manager that it implements;
`automation_protocol_client.cpp:38`. -/
def automationProtocolClient {m : Type → Type} [Monad m] {V JobInfo : Type} [AnyValue V]
    [SupProtocol V] [JobInfoCodec V JobInfo] (infoProtocol controlProtocol : Protocol m V) :
    IJobManager (ExceptT Exception m) JobInfo where
  getServerPrefix := AutomationProtocolClient.getServerPrefix infoProtocol
  getNumberOfJobs := AutomationProtocolClient.getNumberOfJobs infoProtocol
  getJobInfo := AutomationProtocolClient.getJobInfo infoProtocol
  editBreakpoint := AutomationProtocolClient.editBreakpoint controlProtocol
  sendJobCommand := AutomationProtocolClient.sendJobCommand controlProtocol

end OacTreeServer.Rpc
