import OacTreeServer.External.OacTree
import OacTreeServer.Protocol.Results

/-!
# The protocol servers of a job manager

`InfoProtocolServer` and `ControlProtocolServer` offer a job manager through function
protocols (`base/info_protocol_server.cpp:38`, `base/control_protocol_server.cpp:41`). The
effects of the job manager are those of an arbitrary monad, so a handler is a program that
says which of its methods it calls, and in which order.
-/

namespace OacTreeServer.Rpc
open OacTreeServer.External OacTreeServer.Protocol

/-- `IJobManager`; `i_job_manager.h:41`. -/
structure IJobManager (m : Type → Type) (JobInfo : Type) where
  getServerPrefix : m String
  getNumberOfJobs : m UInt32
  getJobInfo : UInt32 → m JobInfo
  editBreakpoint : UInt32 → UInt32 → Bool → m Unit
  sendJobCommand : UInt32 → JobCommand → m Unit

variable {m : Type → Type} [Monad m] {V JobInfo : Type} [AnyValue V] [SupProtocol V]
  [AnyValueConversion V] [JobInfoCodec V JobInfo]

/-- The end of a handler that has a result: the output is assigned to if possible;
`info_protocol_server.cpp:79`. -/
def assignOutput (output tempOut : V) : ProtocolResult × V :=
  match AnyValueConversion.tryAssignIfEmptyOrConvert output tempOut with
  | none => (SupProtocol.serverProtocolEncodingError V, output)
  | some output => (SupProtocol.success V, output)

namespace InfoProtocolServer

/-- `GetServerPrefix`; `info_protocol_server.cpp:72`. -/
def getServerPrefix (jobManager : IJobManager m JobInfo) (_input output : V) :
    m (ProtocolResult × V) := do
  let serverPrefix ← jobManager.getServerPrefix
  return assignOutput output (SupProtocol.functionProtocolPack AnyValue.empty
    kServerPrefixFieldName (AnyValue.ofString serverPrefix))

/-- `GetNumberOfJobs`; `info_protocol_server.cpp:86`. -/
def getNumberOfJobs (jobManager : IJobManager m JobInfo) (_input output : V) :
    m (ProtocolResult × V) := do
  let nJobs ← jobManager.getNumberOfJobs
  return assignOutput output (SupProtocol.functionProtocolPack AnyValue.empty
    kNumberOfJobsFieldName (AnyValue.ofUInt64 nJobs.toUInt64))

/-- `GetJobInfo`; `info_protocol_server.cpp:100`. -/
def getJobInfo (jobManager : IJobManager m JobInfo) (input output : V) :
    m (ProtocolResult × V) := do
  let nJobs ← jobManager.getNumberOfJobs
  match extractJobIndex input nJobs with
  | .error result => return (result, output)
  | .ok idx =>
    let jobInfo ← jobManager.getJobInfo idx
    return assignOutput output (SupProtocol.functionProtocolPack AnyValue.empty
      kJobInfoFieldName (JobInfoCodec.toAnyValue jobInfo))

/-- `FunctionMap`; `info_protocol_server.cpp:62`. -/
def functionMap (jobManager : IJobManager m JobInfo) :
    List (String × (V → V → m (ProtocolResult × V))) :=
  [(kGetServerPrefixFunctionName, getServerPrefix jobManager),
    (kGetNumberOfJobsFunctionName, getNumberOfJobs jobManager),
    (kGetJobInfoFunctionName, getJobInfo jobManager)]

end InfoProtocolServer

/-- `InfoProtocolServer`, as the protocol that it implements; `info_protocol_server.cpp:44`. -/
def infoProtocolServer (jobManager : IJobManager m JobInfo) : Protocol m V where
  invoke input output :=
    SupProtocol.callFunctionProtocol (InfoProtocolServer.functionMap jobManager) input output
      (notSupported V)

namespace ControlProtocolServer

/-- `ExtractJobCommand`; `control_protocol_server.cpp:128`. -/
def extractJobCommand (input : V) : Except ProtocolResult JobCommand :=
  match SupProtocol.functionProtocolExtract input kJobCommandFieldName with
  | none => .error (SupProtocol.serverProtocolDecodingError V)
  | some commandAv =>
    match AnyValueConversion.tryAsUInt32 commandAv with
    | none => .error (SupProtocol.serverProtocolDecodingError V)
    | some commandInt =>
      if commandInt ≥ (JobInfoCodec.kTerminate V).code then .error (unknownJobCommand V)
      else .ok ⟨commandInt⟩

/-- `EditBreakpoint`; `control_protocol_server.cpp:75`. -/
def editBreakpoint (jobManager : IJobManager m JobInfo) (input output : V) :
    m (ProtocolResult × V) := do
  let nJobs ← jobManager.getNumberOfJobs
  match extractJobIndex input nJobs with
  | .error result => return (result, output)
  | .ok jobIdx =>
    let jobInfo ← jobManager.getJobInfo jobIdx
    match extractInstructionIndex input (JobInfoCodec.getNumberOfInstructions V jobInfo) with
    | .error result => return (result, output)
    | .ok instrIdx =>
      match SupProtocol.functionProtocolExtractBoolean input kBreakpointActiveFieldName with
      | none => return (SupProtocol.serverProtocolDecodingError V, output)
      | some breakpointActive =>
        jobManager.editBreakpoint jobIdx instrIdx breakpointActive
        return (SupProtocol.success V, output)

/-- `SendJobCommand`; `control_protocol_server.cpp:101`. -/
def sendJobCommand (jobManager : IJobManager m JobInfo) (input output : V) :
    m (ProtocolResult × V) := do
  let nJobs ← jobManager.getNumberOfJobs
  match extractJobIndex input nJobs with
  | .error result => return (result, output)
  | .ok idx =>
    match extractJobCommand input with
    | .error result => return (result, output)
    | .ok command =>
      jobManager.sendJobCommand idx command
      return (SupProtocol.success V, output)

/-- `FunctionMap`; `control_protocol_server.cpp:66`. -/
def functionMap (jobManager : IJobManager m JobInfo) :
    List (String × (V → V → m (ProtocolResult × V))) :=
  [(kEditBreakpointCommandFunctionName, editBreakpoint jobManager),
    (kSendJobCommandFunctionName, sendJobCommand jobManager)]

end ControlProtocolServer

/-- `ControlProtocolServer`, as the protocol that it implements;
`control_protocol_server.cpp:47`. -/
def controlProtocolServer (jobManager : IJobManager m JobInfo) : Protocol m V where
  invoke input output :=
    SupProtocol.callFunctionProtocol (ControlProtocolServer.functionMap jobManager) input output
      (notSupported V)

end OacTreeServer.Rpc
