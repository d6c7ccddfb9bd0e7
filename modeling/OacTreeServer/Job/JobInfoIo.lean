import OacTreeServer.Protocol.AnyValueIo

/-!
# Reports about a job

A job reports through `IJobInfoIO` of oac-tree. On the side of the server this is
`ServerJobInfoIO` (`base/server_job_info_io.cpp:40`): it encodes each report and updates
the value that is published for it. The result of an update is discarded.
-/

namespace OacTreeServer.Job
open OacTreeServer.External OacTreeServer.Protocol

/-- The calls of `IJobInfoIO` that report a change of the job. -/
inductive JobUpdate (V IS : Type) where
  | instructionStateUpdated (instrIdx : UInt32) (state : IS)
  | breakpointInstructionUpdated (instrIdx : UInt32)
  | variableUpdated (varIdx : UInt32) (value : V) (connected : Bool)
  | jobStateUpdated (state : JobState)
  | putValue (value : V) (description : String)
  | message (message : String)
  | log (severity : Int32) (message : String)
  | procedureTicked
  deriving DecidableEq, Repr

/-- All calls of `IJobInfoIO`, as the object behind it receives them. -/
inductive JobInfoCall (V IS : Type) where
  | initNumberOfInstructions (nInstr : UInt32)
  | update (u : JobUpdate V IS)
  | getUserValue (id : UInt64) (value : V) (description : String)
  | getUserChoice (id : UInt64) (options : List String) (metadata : V)
  | interrupt (id : UInt64)
  deriving DecidableEq, Repr

/-- `ServerJobInfoIO`, without its reference to the manager; `server_job_info_io.h:39`. -/
structure ServerJobInfoIo where
  jobPrefix : String
  nVars : UInt32
  logIdxGen : IndexGenerator
  msgIdxGen : IndexGenerator
  outValIdxGen : IndexGenerator
  deriving DecidableEq, Repr

namespace ServerJobInfoIo

section Definitions

variable {V IS M : Type} [AnyValue V] [OacTree V] [InstructionStateCodec V IS]
  [IAnyValueManager M V]

/-- Construction registers the job; `server_job_info_io.cpp:40`. -/
def new (jobPrefix : String) (nVars : UInt32) (manager : M) :
    Except Exception (ServerJobInfoIo × M) := do
  let manager ← initializeJobAndVariables manager jobPrefix nVars
  return (⟨jobPrefix, nVars, .new, .new, .new⟩, manager)

/-- `InitNumberOfInstructions`; `server_job_info_io.cpp:54`. -/
def initNumberOfInstructions (io : ServerJobInfoIo) (manager : M) (nInstr : UInt32) :
    Except Exception M :=
  initializeInstructions manager io.jobPrefix nInstr

/-- `InstructionStateUpdated`; `server_job_info_io.cpp:59`. -/
def instructionStateUpdated (io : ServerJobInfoIo) (manager : M) (instrIdx : UInt32)
    (state : IS) : Except Exception M := do
  let instrValName := getInstructionPVName io.jobPrefix instrIdx
  let instrStateAv : V := InstructionStateCodec.toAnyValue state
  let (_, manager) ← IAnyValueManager.updateAnyValue manager instrValName instrStateAv
  return manager

/-- `BreakpointInstructionUpdated`; `server_job_info_io.cpp:66`. -/
def breakpointInstructionUpdated (io : ServerJobInfoIo) (manager : M) (instrIdx : UInt32) :
    Except Exception M := do
  let breakpointInstrName := getBreakpointInstructionPVName io.jobPrefix
  let breakpointInstrAv : V := getBreakpointInstructionValue instrIdx
  let (_, manager) ← IAnyValueManager.updateAnyValue manager breakpointInstrName breakpointInstrAv
  return manager

/-- `VariableUpdated`; `server_job_info_io.cpp:73`. -/
def variableUpdated (io : ServerJobInfoIo) (manager : M) (varIdx : UInt32) (value : V)
    (connected : Bool) : Except Exception M := do
  let varValName := getVariablePVName io.jobPrefix varIdx
  let varInfo := encodeVariableState value connected
  let (_, manager) ← IAnyValueManager.updateAnyValue manager varValName varInfo
  return manager

/-- `JobStateUpdated`; `server_job_info_io.cpp:81`. -/
def jobStateUpdated (io : ServerJobInfoIo) (manager : M) (state : JobState) :
    Except Exception M := do
  let jobStateName := getJobStatePVName io.jobPrefix
  let jobStateValue : V := getJobStateValue state
  let (_, manager) ← IAnyValueManager.updateAnyValue manager jobStateName jobStateValue
  return manager

/-- `PutValue`; `server_job_info_io.cpp:88`. -/
def putValue (io : ServerJobInfoIo) (manager : M) (value : V) (description : String) :
    Except Exception (ServerJobInfoIo × M) := do
  let (idx, outValIdxGen) := io.outValIdxGen.newIndex
  let outValName := getOutputValueEntryName io.jobPrefix
  let outVal := encodeOutputValueEntry ⟨idx, description, value⟩
  let (_, manager) ← IAnyValueManager.updateAnyValue manager outValName outVal
  return ({ io with outValIdxGen }, manager)

/-- `Message`; `server_job_info_io.cpp:135`. -/
def message (io : ServerJobInfoIo) (manager : M) (message : String) :
    Except Exception (ServerJobInfoIo × M) := do
  let (idx, msgIdxGen) := io.msgIdxGen.newIndex
  let msgValName := getMessageEntryName io.jobPrefix
  let msgVal : V := encodeMessageEntry ⟨idx, message⟩
  let (_, manager) ← IAnyValueManager.updateAnyValue manager msgValName msgVal
  return ({ io with msgIdxGen }, manager)

/-- `Log`; `server_job_info_io.cpp:143`. -/
def log (io : ServerJobInfoIo) (manager : M) (severity : Int32) (message : String) :
    Except Exception (ServerJobInfoIo × M) := do
  let (idx, logIdxGen) := io.logIdxGen.newIndex
  let logValName := getLogEntryName io.jobPrefix
  let logVal : V := encodeLogEntry ⟨idx, severity, message⟩
  let (_, manager) ← IAnyValueManager.updateAnyValue manager logValName logVal
  return ({ io with logIdxGen }, manager)

/-- One report to a job's `ServerJobInfoIO`. Ticks are not forwarded;
`server_job_info_io.cpp:152`. -/
def perform (io : ServerJobInfoIo) (manager : M) :
    JobUpdate V IS → Except Exception (ServerJobInfoIo × M)
  | .instructionStateUpdated instrIdx state => do
    return (io, ← io.instructionStateUpdated manager instrIdx state)
  | .breakpointInstructionUpdated instrIdx => do
    return (io, ← io.breakpointInstructionUpdated manager instrIdx)
  | .variableUpdated varIdx value connected => do
    return (io, ← io.variableUpdated manager varIdx value connected)
  | .jobStateUpdated state => do return (io, ← io.jobStateUpdated manager state)
  | .putValue value description => io.putValue manager value description
  | .message message => io.message manager message
  | .log severity message => io.log manager severity message
  | .procedureTicked => .ok (io, manager)

/-- Reports one after the other. -/
def performAll (io : ServerJobInfoIo) (manager : M) :
    List (JobUpdate V IS) → Except Exception (ServerJobInfoIo × M)
  | [] => .ok (io, manager)
  | u :: us => do
    let (io, manager) ← io.perform manager u
    io.performAll manager us

/-- The channel that a report updates, and the value that it publishes there. -/
def publication (io : ServerJobInfoIo) : JobUpdate V IS → Option (ChannelKind × V)
  | .instructionStateUpdated instrIdx state =>
    some (.instructionState instrIdx, InstructionStateCodec.toAnyValue state)
  | .breakpointInstructionUpdated instrIdx =>
    some (.breakpointInstruction, getBreakpointInstructionValue instrIdx)
  | .variableUpdated varIdx value connected =>
    some (.variableState varIdx, encodeVariableState value connected)
  | .jobStateUpdated state => some (.jobState, getJobStateValue state)
  | .putValue value description =>
    some (.outputValueEntry,
      encodeOutputValueEntry ⟨io.outValIdxGen.newIndex.1, description, value⟩)
  | .message message =>
    some (.messageEntry, encodeMessageEntry ⟨io.msgIdxGen.newIndex.1, message⟩)
  | .log severity message =>
    some (.logEntry, encodeLogEntry ⟨io.logIdxGen.newIndex.1, severity, message⟩)
  | .procedureTicked => none

/-- The generators behind a report. -/
def afterUpdate (io : ServerJobInfoIo) : JobUpdate V IS → ServerJobInfoIo
  | .putValue _ _ => { io with outValIdxGen := io.outValIdxGen.newIndex.2 }
  | .message _ => { io with msgIdxGen := io.msgIdxGen.newIndex.2 }
  | .log _ _ => { io with logIdxGen := io.logIdxGen.newIndex.2 }
  | _ => io

end Definitions

variable {V IS M : Type} [AnyValue V] [OacTree V] [InstructionStateCodec V IS]
  [IAnyValueManager M V]

omit [InstructionStateCodec V IS] in
/-- Construction keeps the prefix of the job and its number of variables. -/
theorem new_eq {jobPrefix : String} {nVars : UInt32} {manager manager' : M}
    {io : ServerJobInfoIo} (h : new jobPrefix nVars manager = .ok (io, manager')) :
    io = ⟨jobPrefix, nVars, .new, .new, .new⟩ := by
  unfold new at h
  cases hinit : initializeJobAndVariables manager jobPrefix nVars with
  | error e =>
    rw [hinit] at h
    cases h
  | ok m =>
    rw [hinit] at h
    cases h
    rfl

omit [AnyValue V] [OacTree V] [InstructionStateCodec V IS] [IAnyValueManager M V] in
/-- An update whose result is discarded, next to generators that the report has advanced. -/
private theorem bind_discard (updated : Except Exception (Bool × M)) (io : ServerJobInfoIo) :
    (updated >>= fun r ↦ pure (io, r.2)) = updated.map fun r ↦ (io, r.2) := by
  cases updated <;> rfl

omit [AnyValue V] [OacTree V] [InstructionStateCodec V IS] [IAnyValueManager M V] in
/-- An update whose result is discarded, by a report that needs no generator. -/
private theorem bind_discard_bind (updated : Except Exception (Bool × M)) (io : ServerJobInfoIo) :
    ((updated >>= fun r ↦ pure r.2) >>= fun manager ↦ pure (io, manager)) =
      updated.map fun r ↦ (io, r.2) := by
  cases updated <;> rfl

/-- A report is one update of its channel, or none. -/
theorem perform_eq (io : ServerJobInfoIo) (manager : M) (u : JobUpdate V IS) :
    io.perform manager u =
      match io.publication u with
      | none => .ok (io.afterUpdate u, manager)
      | some (kind, value) =>
        (IAnyValueManager.updateAnyValue manager (channelName io.jobPrefix kind) value).map
          fun r ↦ (io.afterUpdate u, r.2) := by
  cases u with
  | procedureTicked => rfl
  | instructionStateUpdated instrIdx state => exact bind_discard_bind _ io
  | breakpointInstructionUpdated instrIdx => exact bind_discard_bind _ io
  | variableUpdated varIdx value connected => exact bind_discard_bind _ io
  | jobStateUpdated state => exact bind_discard_bind _ io
  | putValue value description => exact bind_discard _ _
  | message message => exact bind_discard _ _
  | log severity message => exact bind_discard _ _

omit [AnyValue V] [OacTree V] [InstructionStateCodec V IS] in
/-- A report does not change the prefix of the job. -/
@[simp] theorem jobPrefix_afterUpdate (io : ServerJobInfoIo) (u : JobUpdate V IS) :
    (io.afterUpdate u).jobPrefix = io.jobPrefix := by
  cases u <;> rfl

omit [AnyValue V] [OacTree V] [InstructionStateCodec V IS] in
/-- A report does not change the number of variables of the job. -/
@[simp] theorem nVars_afterUpdate (io : ServerJobInfoIo) (u : JobUpdate V IS) :
    (io.afterUpdate u).nVars = io.nVars := by
  cases u <;> rfl

end ServerJobInfoIo
end OacTreeServer.Job
