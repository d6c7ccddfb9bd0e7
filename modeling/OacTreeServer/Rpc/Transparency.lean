import OacTreeServer.External.Reference
import OacTreeServer.Rpc.ProtocolClient

/-!
# A job manager behind the protocols

A client whose protocols are the servers of a job manager is that job manager, up to checks
of the indices and of the command: each of its methods is the program that calls the method
of the job manager once, after a check that it makes itself when it fails.
-/

namespace OacTreeServer.Rpc
open OacTreeServer.External OacTreeServer.Protocol

namespace AutomationProtocolClient

section Answers

variable {V JobInfo : Type} [AnyValue V] [SupProtocol V] [LawfulSupProtocol V]

/-- The answer with a server prefix. -/
private theorem serverPrefixOf_packed (s : String) :
    serverPrefixOf (SupProtocol.success V, SupProtocol.functionProtocolPack (AnyValue.empty : V)
      kServerPrefixFieldName (AnyValue.ofString s)) = .ok s := by
  have hextract : SupProtocol.functionProtocolExtract (SupProtocol.functionProtocolPack
      AnyValue.empty kServerPrefixFieldName (AnyValue.ofString s : V)) _ = _ :=
    extract_packed_output (by decide) _
  have hstring := LawfulSupProtocol.extractString_of_extract _ kServerPrefixFieldName s hextract
  simp only [serverPrefixOf, checkedOutput_success, bind, Except.bind, hstring]
  rfl

/-- The answer with a number of jobs: it crosses the wire as a 64-bit number. -/
private theorem numberOfJobsOf_packed [LawfulAnyValue V] [AnyValueConversion V]
    [LawfulAnyValueConversion V] (n : UInt32) :
    numberOfJobsOf (SupProtocol.success V, SupProtocol.functionProtocolPack (AnyValue.empty : V)
      kNumberOfJobsFieldName (AnyValue.ofUInt64 n.toUInt64)) = .ok n := by
  have hextract : SupProtocol.functionProtocolExtract (SupProtocol.functionProtocolPack
      AnyValue.empty kNumberOfJobsFieldName (AnyValue.ofUInt64 n.toUInt64 : V)) _ = _ :=
    extract_packed_output (by decide) _
  simp only [numberOfJobsOf, checkedOutput_success, bind, Except.bind, hextract,
    LawfulAnyValue.hasType_ofUInt64]
  exact asUInt32_ofUInt64 n

/-- The answer with job information. -/
private theorem jobInfoOf_packed [JobInfoCodec V JobInfo] [LawfulJobInfoCodec V]
    (jobInfo : JobInfo) :
    jobInfoOf (SupProtocol.success V, SupProtocol.functionProtocolPack (AnyValue.empty : V)
      kJobInfoFieldName (JobInfoCodec.toAnyValue jobInfo)) = .ok jobInfo := by
  have hextract : SupProtocol.functionProtocolExtract (SupProtocol.functionProtocolPack
      AnyValue.empty kJobInfoFieldName (JobInfoCodec.toAnyValue jobInfo : V)) _ = _ :=
    extract_packed_output (by decide) _
  simp only [jobInfoOf, checkedOutput_success, bind, Except.bind, hextract,
    LawfulJobInfoCodec.toJobInfo_toAnyValue]
  rfl

end Answers

section Runs

variable {m : Type → Type} [Monad m] [LawfulMonad m] {V JobInfo : Type}

variable [AnyValue V] [LawfulAnyValue V] [SupProtocol V] [LawfulSupProtocol V]
  [AnyValueConversion V] [LawfulAnyValueConversion V] [JobInfoCodec V JobInfo]

omit [LawfulMonad m] [LawfulAnyValue V] [LawfulSupProtocol V] in
/-- The output of a handler that has a result is that result. -/
private theorem assignOutput_empty (tempOut : V) :
    assignOutput AnyValue.empty tempOut = (SupProtocol.success V, tempOut) := by
  rw [assignOutput, LawfulAnyValueConversion.tryAssignIfEmptyOrConvert_empty]

omit [LawfulAnyValue V] in
/-- `GetServerPrefix` over the protocol. -/
theorem getServerPrefix_server (jobManager : IJobManager m JobInfo) :
    getServerPrefix (infoProtocolServer jobManager : Protocol m V) =
      liftM jobManager.getServerPrefix := by
  have hname : SupProtocol.functionName
      (SupProtocol.functionProtocolInput kGetServerPrefixFunctionName : V) = _ :=
    functionName_packed kGetServerPrefixFunctionName [] [] rfl (by decide)
  apply ExceptT.ext
  rw [getServerPrefix, run_answer]
  simp only [infoProtocolServer]
  rw [LawfulSupProtocol.callFunctionProtocol_of_lookup hname rfl,
    InfoProtocolServer.getServerPrefix]
  simp only [map_bind, map_pure, assignOutput_empty, serverPrefixOf_packed]
  exact (map_eq_pure_bind ..).symm

/-- `GetNumberOfJobs` over the protocol. -/
theorem getNumberOfJobs_server (jobManager : IJobManager m JobInfo) :
    getNumberOfJobs (infoProtocolServer jobManager : Protocol m V) =
      liftM jobManager.getNumberOfJobs := by
  have hname : SupProtocol.functionName
      (SupProtocol.functionProtocolInput kGetNumberOfJobsFunctionName : V) = _ :=
    functionName_packed kGetNumberOfJobsFunctionName [] [] rfl (by decide)
  apply ExceptT.ext
  rw [getNumberOfJobs, run_answer]
  simp only [infoProtocolServer]
  rw [LawfulSupProtocol.callFunctionProtocol_of_lookup hname rfl,
    InfoProtocolServer.getNumberOfJobs]
  simp only [map_bind, map_pure, assignOutput_empty, numberOfJobsOf_packed]
  exact (map_eq_pure_bind ..).symm

/-- `GetJobInfo` over the protocol. -/
theorem getJobInfo_server [LawfulJobInfoCodec V] (jobManager : IJobManager m JobInfo)
    (jobIdx : UInt32) :
    getJobInfo (infoProtocolServer jobManager : Protocol m V) jobIdx = (do
      let nJobs ← jobManager.getNumberOfJobs
      if jobIdx < nJobs then
        jobManager.getJobInfo jobIdx
      else
        throw (protocolError V "GetJobInfo" (unknownJob V))) := by
  have hname : SupProtocol.functionName (getJobInfoInput V jobIdx) = _ :=
    functionName_packed kGetJobInfoFunctionName
      [(kJobIndexFieldName, AnyValue.ofUInt64 jobIdx.toUInt64)] [kJobIndexFieldName] rfl
      (by decide)
  have hjob : SupProtocol.functionProtocolExtract (getJobInfoInput V jobIdx) _ = _ :=
    extract_packed kGetJobInfoFunctionName
      [(kJobIndexFieldName, AnyValue.ofUInt64 jobIdx.toUInt64)] [kJobIndexFieldName] rfl
      (by decide) (List.mem_singleton_self _)
  have hunknown : unknownJob V ≠ SupProtocol.success V :=
    LawfulSupProtocol.specificApplicationError_ne 1 (by decide)
  apply ExceptT.ext
  rw [getJobInfo, run_answer]
  simp only [infoProtocolServer]
  rw [LawfulSupProtocol.callFunctionProtocol_of_lookup hname rfl,
    InfoProtocolServer.getJobInfo]
  simp only [extractJobIndex, extractIndex_eq hjob, map_bind, assignOutput_empty]
  rw [run_liftM_bind]
  apply bind_congr
  intro nJobs
  by_cases hjobIdx : jobIdx < nJobs
  · simp only [if_pos hjobIdx, map_bind, map_pure, jobInfoOf_packed]
    exact (map_eq_pure_bind ..).symm
  · simp only [if_neg hjobIdx, map_pure, jobInfoOf, checkedOutput_error hunknown]
    rfl

/-- `EditBreakpoint` over the protocol. -/
theorem editBreakpoint_server (jobManager : IJobManager m JobInfo) (jobIdx instrIdx : UInt32)
    (breakpointActive : Bool) :
    editBreakpoint (controlProtocolServer jobManager : Protocol m V) jobIdx instrIdx
        breakpointActive = (do
      let nJobs ← jobManager.getNumberOfJobs
      if jobIdx < nJobs then
        let jobInfo ← jobManager.getJobInfo jobIdx
        if instrIdx < JobInfoCodec.getNumberOfInstructions V jobInfo then
          jobManager.editBreakpoint jobIdx instrIdx breakpointActive
        else
          throw (protocolError V "EditBreakpoint" (unknownInstruction V))
      else
        throw (protocolError V "EditBreakpoint" (unknownJob V))) := by
  let fields : List (String × V) := [(kJobIndexFieldName, AnyValue.ofUInt64 jobIdx.toUInt64),
    (kInstructionIndexFieldName, AnyValue.ofUInt64 instrIdx.toUInt64),
    (kBreakpointActiveFieldName, AnyValue.ofBoolean breakpointActive)]
  let names := [kJobIndexFieldName, kInstructionIndexFieldName, kBreakpointActiveFieldName]
  have hok : names.Nodup ∧ names ⊆ packedFieldNames := by decide
  have hname : SupProtocol.functionName
      (editBreakpointInput V jobIdx instrIdx breakpointActive) = _ :=
    functionName_packed kEditBreakpointCommandFunctionName fields names rfl hok
  have hextract : ∀ {name : String} {w : V}, (name, w) ∈ fields →
      SupProtocol.functionProtocolExtract
        (editBreakpointInput V jobIdx instrIdx breakpointActive) name = some w :=
    fun hm ↦ extract_packed kEditBreakpointCommandFunctionName fields names rfl hok hm
  have hjob := hextract List.mem_cons_self
  have hinstr := hextract (List.mem_cons_of_mem _ List.mem_cons_self)
  have hactive := LawfulSupProtocol.extractBoolean_of_extract _ _ _
    (hextract (List.mem_cons_of_mem _ (List.mem_cons_of_mem _ List.mem_cons_self)))
  have hunknownJob : unknownJob V ≠ SupProtocol.success V :=
    LawfulSupProtocol.specificApplicationError_ne 1 (by decide)
  have hunknownInstruction : unknownInstruction V ≠ SupProtocol.success V :=
    LawfulSupProtocol.specificApplicationError_ne 2 (by decide)
  apply ExceptT.ext
  rw [editBreakpoint, run_answer]
  simp only [controlProtocolServer]
  rw [LawfulSupProtocol.callFunctionProtocol_of_lookup hname rfl,
    ControlProtocolServer.editBreakpoint]
  simp only [extractJobIndex, extractIndex_eq hjob, map_bind]
  rw [run_liftM_bind]
  apply bind_congr
  intro nJobs
  by_cases hjobIdx : jobIdx < nJobs
  · simp only [if_pos hjobIdx, map_bind]
    rw [run_liftM_bind]
    apply bind_congr
    intro jobInfo
    simp only [extractInstructionIndex, extractIndex_eq hinstr]
    by_cases hinstrIdx : instrIdx < JobInfoCodec.getNumberOfInstructions V jobInfo
    · simp only [if_pos hinstrIdx, hactive, map_bind, map_pure, editBreakpointOf,
        checkedOutput_success]
      exact (map_eq_pure_bind ..).symm
    · simp only [if_neg hinstrIdx, map_pure, editBreakpointOf,
        checkedOutput_error hunknownInstruction]
      rfl
  · simp only [if_neg hjobIdx, map_pure, editBreakpointOf, checkedOutput_error hunknownJob]
    rfl

/-- `SendJobCommand` over the protocol. -/
theorem sendJobCommand_server (jobManager : IJobManager m JobInfo) (jobIdx : UInt32)
    (command : JobCommand) :
    sendJobCommand (controlProtocolServer jobManager : Protocol m V) jobIdx command = (do
      let nJobs ← jobManager.getNumberOfJobs
      if jobIdx < nJobs then
        if command.code < (JobInfoCodec.kTerminate V).code then
          jobManager.sendJobCommand jobIdx command
        else
          throw (protocolError V "SendJobCommand" (unknownJobCommand V))
      else
        throw (protocolError V "SendJobCommand" (unknownJob V))) := by
  let fields : List (String × V) := [(kJobIndexFieldName, AnyValue.ofUInt64 jobIdx.toUInt64),
    (kJobCommandFieldName, AnyValue.ofUInt32 command.code)]
  let names := [kJobIndexFieldName, kJobCommandFieldName]
  have hok : names.Nodup ∧ names ⊆ packedFieldNames := by decide
  have hname : SupProtocol.functionName (sendJobCommandInput V jobIdx command) = _ :=
    functionName_packed kSendJobCommandFunctionName fields names rfl hok
  have hextract : ∀ {name : String} {w : V}, (name, w) ∈ fields →
      SupProtocol.functionProtocolExtract (sendJobCommandInput V jobIdx command) name = some w :=
    fun hm ↦ extract_packed kSendJobCommandFunctionName fields names rfl hok hm
  have hjob := hextract List.mem_cons_self
  have hcommand := hextract (List.mem_cons_of_mem _ List.mem_cons_self)
  have hcode : AnyValueConversion.tryAsUInt32 (AnyValue.ofUInt32 command.code : V) =
      some command.code := by
    rw [LawfulAnyValueConversion.tryAsUInt32_eq, LawfulAnyValue.asUInt32_ofUInt32]
    rfl
  have hunknownJob : unknownJob V ≠ SupProtocol.success V :=
    LawfulSupProtocol.specificApplicationError_ne 1 (by decide)
  have hunknownCommand : unknownJobCommand V ≠ SupProtocol.success V :=
    LawfulSupProtocol.specificApplicationError_ne 3 (by decide)
  apply ExceptT.ext
  rw [sendJobCommand, run_answer]
  simp only [controlProtocolServer]
  rw [LawfulSupProtocol.callFunctionProtocol_of_lookup hname rfl,
    ControlProtocolServer.sendJobCommand]
  simp only [extractJobIndex, extractIndex_eq hjob, map_bind]
  rw [run_liftM_bind]
  apply bind_congr
  intro nJobs
  by_cases hjobIdx : jobIdx < nJobs
  · simp only [if_pos hjobIdx, ControlProtocolServer.extractJobCommand, hcommand, hcode]
    by_cases hvalid : command.code < (JobInfoCodec.kTerminate V).code
    · simp only [if_pos hvalid, if_neg (UInt32.not_le.mpr hvalid), ge_iff_le, map_bind, map_pure,
        sendJobCommandOf, checkedOutput_success]
      exact (map_eq_pure_bind ..).symm
    · simp only [if_neg hvalid, if_pos (UInt32.not_lt.mp hvalid), ge_iff_le, map_pure,
        sendJobCommandOf, checkedOutput_error hunknownCommand]
      rfl
  · simp only [if_neg hjobIdx, map_pure, sendJobCommandOf, checkedOutput_error hunknownJob]
    rfl

end Runs

end AutomationProtocolClient

section Transparency

open AutomationProtocolClient

variable {m : Type → Type} [Monad m] [LawfulMonad m] {V JobInfo : Type} [AnyValue V]
  [LawfulAnyValue V] [SupProtocol V] [LawfulSupProtocol V] [AnyValueConversion V]
  [LawfulAnyValueConversion V] [JobInfoCodec V JobInfo] [LawfulJobInfoCodec V]

variable (V) in
/-- The client of the two servers of a job manager. -/
def clientOf (jobManager : IJobManager m JobInfo) : IJobManager (ExceptT Exception m) JobInfo :=
  automationProtocolClient (infoProtocolServer jobManager : Protocol m V)
    (controlProtocolServer jobManager)

/-- The protocols are transparent, whatever the effects of the job manager are: every method of
the client is the method of the job manager, called once, if the indices are in range and the
command is one of the commands, and else an exception without a further call. -/
theorem rpc_transparent (jobManager : IJobManager m JobInfo) :
    (clientOf V jobManager).getServerPrefix = jobManager.getServerPrefix ∧
    (clientOf V jobManager).getNumberOfJobs = jobManager.getNumberOfJobs ∧
    (∀ jobIdx, (clientOf V jobManager).getJobInfo jobIdx = (do
      let nJobs ← jobManager.getNumberOfJobs
      if jobIdx < nJobs then
        jobManager.getJobInfo jobIdx
      else
        throw (protocolError V "GetJobInfo" (unknownJob V)))) ∧
    (∀ jobIdx instrIdx breakpointActive,
      (clientOf V jobManager).editBreakpoint jobIdx instrIdx breakpointActive = (do
        let nJobs ← jobManager.getNumberOfJobs
        if jobIdx < nJobs then
          let jobInfo ← jobManager.getJobInfo jobIdx
          if instrIdx < JobInfoCodec.getNumberOfInstructions V jobInfo then
            jobManager.editBreakpoint jobIdx instrIdx breakpointActive
          else
            throw (protocolError V "EditBreakpoint" (unknownInstruction V))
        else
          throw (protocolError V "EditBreakpoint" (unknownJob V)))) ∧
    ∀ jobIdx command, (clientOf V jobManager).sendJobCommand jobIdx command = (do
      let nJobs ← jobManager.getNumberOfJobs
      if jobIdx < nJobs then
        if command.code < (JobInfoCodec.kTerminate V).code then
          jobManager.sendJobCommand jobIdx command
        else
          throw (protocolError V "SendJobCommand" (unknownJobCommand V))
      else
        throw (protocolError V "SendJobCommand" (unknownJob V))) :=
  ⟨getServerPrefix_server jobManager, getNumberOfJobs_server jobManager,
    getJobInfo_server jobManager, editBreakpoint_server jobManager,
    sendJobCommand_server jobManager⟩

/-- A job manager of two jobs that records the commands that it receives. -/
private def recordingManager : IJobManager (StateM (List (UInt32 × JobCommand))) SampleJobInfo where
  getServerPrefix := pure "S"
  getNumberOfJobs := pure 2
  getJobInfo _ := pure ⟨1, 3⟩
  editBreakpoint _ _ _ := pure ()
  sendJobCommand jobIdx command := modify (· ++ [(jobIdx, command)])

/-- A command for the second job is received once, and one for a third job is refused. -/
theorem rpc_transparent_two_jobs :
    ((clientOf DtoValue recordingManager).sendJobCommand 1 ⟨4⟩).run.run [] =
      (.ok (), [(1, ⟨4⟩)]) ∧
    ((clientOf DtoValue recordingManager).sendJobCommand 2 ⟨4⟩).run.run [] =
      (.error (protocolError DtoValue "SendJobCommand" (unknownJob DtoValue)), []) := by
  obtain ⟨-, -, -, -, hsend⟩ := rpc_transparent (V := DtoValue) recordingManager
  constructor
  · rw [hsend]
    rfl
  · rw [hsend]
    rfl

end Transparency

end OacTreeServer.Rpc
