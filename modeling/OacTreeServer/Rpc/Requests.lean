import OacTreeServer.External.Reference
import OacTreeServer.Library.Recording
import OacTreeServer.Rpc.ProtocolServers

/-!
# Requests that reach a job

The handlers that take an index from the packet of a request check it before they call the
job manager with it. They are run with a job manager that records its calls: each call is one
that the answers to the calls before it allow, whatever the packet holds.
-/

namespace OacTreeServer.Rpc
open OacTreeServer.External OacTreeServer.Library OacTreeServer.Protocol

/-- A call of a method of a job manager, with its answer or exception. -/
inductive JobManagerCall (E JobInfo : Type) where
  | getServerPrefix (answer : Except E String)
  | getNumberOfJobs (answer : Except E UInt32)
  | getJobInfo (jobIdx : UInt32) (answer : Except E JobInfo)
  | editBreakpoint (jobIdx instrIdx : UInt32) (breakpointActive : Bool) (answer : Except E Unit)
  | sendJobCommand (jobIdx : UInt32) (command : JobCommand) (answer : Except E Unit)

/-- The handlers that take the index of a job from their input. -/
inductive JobRequest where
  | editBreakpoint
  | sendJobCommand
  | getJobInfo
  deriving DecidableEq

/-- The handler of a request. -/
def JobRequest.handler {m : Type → Type} [Monad m] {V JobInfo : Type} [AnyValue V]
    [SupProtocol V] [AnyValueConversion V] [JobInfoCodec V JobInfo] :
    JobRequest → IJobManager m JobInfo → V → V → m (ProtocolResult × V)
  | .editBreakpoint => ControlProtocolServer.editBreakpoint
  | .sendJobCommand => ControlProtocolServer.sendJobCommand
  | .getJobInfo => InfoProtocolServer.getJobInfo

variable {E S JobInfo : Type}

namespace JobManagerCall

/-- The methods that are not `const`; `i_job_manager.h:82`. -/
def changesState : JobManagerCall E JobInfo → Bool
  | .editBreakpoint .. | .sendJobCommand .. => true
  | .getServerPrefix _ | .getNumberOfJobs _ | .getJobInfo .. => false

/-- The method that changes the state on behalf of a request. -/
def isMadeBy (request : JobRequest) : JobManagerCall E JobInfo → Bool
  | .editBreakpoint .. => request == .editBreakpoint
  | .sendJobCommand .. => request == .sendJobCommand
  | .getServerPrefix _ | .getNumberOfJobs _ | .getJobInfo .. => true

/-- The exception of a call that did not return. -/
def thrown : JobManagerCall E JobInfo → Option E
  | .getServerPrefix (.error e) | .getNumberOfJobs (.error e) | .getJobInfo _ (.error e)
  | .editBreakpoint _ _ _ (.error e) | .sendJobCommand _ _ (.error e) => some e
  | _ => none

/-- What a call does to the state of a job manager. -/
def effect (jobManager : IJobManager (ExceptT E (StateM S)) JobInfo) (s : S) :
    JobManagerCall E JobInfo → S
  | .getServerPrefix _ => after jobManager.getServerPrefix s
  | .getNumberOfJobs _ => after jobManager.getNumberOfJobs s
  | .getJobInfo jobIdx _ => after (jobManager.getJobInfo jobIdx) s
  | .editBreakpoint jobIdx instrIdx breakpointActive _ =>
    after (jobManager.editBreakpoint jobIdx instrIdx breakpointActive) s
  | .sendJobCommand jobIdx command _ => after (jobManager.sendJobCommand jobIdx command) s

/-- An answer to an earlier call says that there is a job of this index. -/
def KnownJob (before : List (JobManagerCall E JobInfo)) (jobIdx : UInt32) : Prop :=
  ∃ nJobs, .getNumberOfJobs (.ok nJobs) ∈ before ∧ jobIdx < nJobs

/-- The calls before it allow a call: its indices are in range, and its command is a command. -/
def Allowed (V : Type) [JobInfoCodec V JobInfo] (before : List (JobManagerCall E JobInfo)) :
    JobManagerCall E JobInfo → Prop
  | .getServerPrefix _ | .getNumberOfJobs _ => True
  | .getJobInfo jobIdx _ => KnownJob before jobIdx
  | .editBreakpoint jobIdx instrIdx _ _ => KnownJob before jobIdx ∧
      ∃ jobInfo, .getJobInfo jobIdx (.ok jobInfo) ∈ before ∧
        instrIdx < JobInfoCodec.getNumberOfInstructions V jobInfo
  | .sendJobCommand jobIdx command _ => KnownJob before jobIdx ∧
      command.code < (JobInfoCodec.kTerminate V).code

end JobManagerCall

/-- A job manager that records its calls. -/
def recorded (jobManager : IJobManager (ExceptT E (StateM S)) JobInfo) :
    IJobManager (ExceptT E (StateM (S × List (JobManagerCall E JobInfo)))) JobInfo where
  getServerPrefix := recordCall jobManager.getServerPrefix .getServerPrefix
  getNumberOfJobs := recordCall jobManager.getNumberOfJobs .getNumberOfJobs
  getJobInfo jobIdx := recordCall (jobManager.getJobInfo jobIdx) (.getJobInfo jobIdx)
  editBreakpoint jobIdx instrIdx breakpointActive :=
    recordCall (jobManager.editBreakpoint jobIdx instrIdx breakpointActive)
      (.editBreakpoint jobIdx instrIdx breakpointActive)
  sendJobCommand jobIdx command :=
    recordCall (jobManager.sendJobCommand jobIdx command) (.sendJobCommand jobIdx command)

/-- The methods that are `const` leave the state of the job manager as it is;
`i_job_manager.h:58`. -/
structure ConstQueries (jobManager : IJobManager (ExceptT E (StateM S)) JobInfo) : Prop where
  getServerPrefix : ∀ s, after jobManager.getServerPrefix s = s
  getNumberOfJobs : ∀ s, after jobManager.getNumberOfJobs s = s
  getJobInfo : ∀ jobIdx s, after (jobManager.getJobInfo jobIdx) s = s

/-- A call that is `const` leaves the state as it is. -/
private theorem effect_of_const {jobManager : IJobManager (ExceptT E (StateM S)) JobInfo}
    (hconst : ConstQueries jobManager) (s : S) {call : JobManagerCall E JobInfo}
    (hcall : call.changesState = false) : call.effect jobManager s = s := by
  cases call with
  | getServerPrefix answer => exact hconst.getServerPrefix s
  | getNumberOfJobs answer => exact hconst.getNumberOfJobs s
  | getJobInfo jobIdx answer => exact hconst.getJobInfo jobIdx s
  | editBreakpoint jobIdx instrIdx breakpointActive answer => cases hcall
  | sendJobCommand jobIdx command answer => cases hcall

section Handlers

variable {V : Type} [AnyValue V] [SupProtocol V] [AnyValueConversion V] [JobInfoCodec V JobInfo]

/-- The calls that the handler of a request makes from a state. -/
def callsOf (request : JobRequest) (jobManager : IJobManager (ExceptT E (StateM S)) JobInfo)
    (input output : V) (s : S) : List (JobManagerCall E JobInfo) :=
  callsMade (request.handler (recorded jobManager) input output) s

/-- A handler with the job manager that records is the handler, with a record of its calls. -/
theorem records_handler (request : JobRequest)
    (jobManager : IJobManager (ExceptT E (StateM S)) JobInfo) (input output : V) :
    Records (JobManagerCall.effect jobManager) (request.handler jobManager input output)
      (request.handler (recorded jobManager) input output) := by
  have hnumber : Records (JobManagerCall.effect jobManager) jobManager.getNumberOfJobs
      (recorded jobManager).getNumberOfJobs := records_recordCall fun _ _ ↦ rfl
  have hinfo : ∀ jobIdx, Records (JobManagerCall.effect jobManager)
      (jobManager.getJobInfo jobIdx) ((recorded jobManager).getJobInfo jobIdx) :=
    fun _ ↦ records_recordCall fun _ _ ↦ rfl
  cases request with
  | editBreakpoint =>
    refine records_bind hnumber fun nJobs ↦ ?_
    cases extractJobIndex input nJobs with
    | error result => exact records_pure _
    | ok jobIdx =>
      refine records_bind (hinfo jobIdx) fun jobInfo ↦ ?_
      cases extractInstructionIndex input (JobInfoCodec.getNumberOfInstructions V jobInfo) with
      | error result => exact records_pure _
      | ok instrIdx =>
        simp only
        cases SupProtocol.functionProtocolExtractBoolean input kBreakpointActiveFieldName with
        | none => exact records_pure _
        | some breakpointActive =>
          exact records_bind (records_recordCall fun _ _ ↦ rfl) fun _ ↦ records_pure _
  | sendJobCommand =>
    refine records_bind hnumber fun nJobs ↦ ?_
    cases extractJobIndex input nJobs with
    | error result => exact records_pure _
    | ok jobIdx =>
      simp only
      cases ControlProtocolServer.extractJobCommand input with
      | error result => exact records_pure _
      | ok command =>
        exact records_bind (records_recordCall fun _ _ ↦ rfl) fun _ ↦ records_pure _
  | getJobInfo =>
    refine records_bind hnumber fun nJobs ↦ ?_
    cases extractJobIndex input nJobs with
    | error result => exact records_pure _
    | ok jobIdx => exact records_bind (hinfo jobIdx) fun _ ↦ records_pure _

/-- The runs of the handlers: the calls that are made and how the handler ends. -/
inductive RequestRun (input output : V) :
    JobRequest → List (JobManagerCall E JobInfo) → Except E (ProtocolResult × V) → Prop
  | noNumberOfJobs (request : JobRequest) (e : E) :
      RequestRun input output request [.getNumberOfJobs (.error e)] (.error e)
  | refusedJob (request : JobRequest) {nJobs : UInt32} {result : ProtocolResult} :
      extractJobIndex input nJobs = .error result →
      RequestRun input output request [.getNumberOfJobs (.ok nJobs)] (.ok (result, output))
  | noJobInfo {request : JobRequest} {nJobs jobIdx : UInt32} (e : E) :
      request ≠ .sendJobCommand → extractJobIndex input nJobs = .ok jobIdx →
      RequestRun input output request
        [.getNumberOfJobs (.ok nJobs), .getJobInfo jobIdx (.error e)] (.error e)
  | refusedInstruction {nJobs jobIdx : UInt32} {jobInfo : JobInfo} {result : ProtocolResult} :
      extractJobIndex input nJobs = .ok jobIdx →
      extractInstructionIndex input (JobInfoCodec.getNumberOfInstructions V jobInfo) =
        .error result →
      RequestRun input output .editBreakpoint
        [.getNumberOfJobs (.ok nJobs), .getJobInfo jobIdx (.ok jobInfo)] (.ok (result, output))
  | refusedBreakpoint {nJobs jobIdx : UInt32} (jobInfo : JobInfo) :
      extractJobIndex input nJobs = .ok jobIdx →
      RequestRun input output .editBreakpoint
        [.getNumberOfJobs (.ok nJobs), .getJobInfo jobIdx (.ok jobInfo)]
        (.ok (SupProtocol.serverProtocolDecodingError V, output))
  | editBreakpoint {nJobs jobIdx instrIdx : UInt32} {jobInfo : JobInfo} (breakpointActive : Bool)
      (answer : Except E Unit) :
      extractJobIndex input nJobs = .ok jobIdx →
      extractInstructionIndex input (JobInfoCodec.getNumberOfInstructions V jobInfo) =
        .ok instrIdx →
      RequestRun input output .editBreakpoint
        [.getNumberOfJobs (.ok nJobs), .getJobInfo jobIdx (.ok jobInfo),
          .editBreakpoint jobIdx instrIdx breakpointActive answer]
        (answer.map fun _ ↦ (SupProtocol.success V, output))
  | refusedCommand {nJobs jobIdx : UInt32} {result : ProtocolResult} :
      extractJobIndex input nJobs = .ok jobIdx →
      ControlProtocolServer.extractJobCommand input = .error result →
      RequestRun input output .sendJobCommand [.getNumberOfJobs (.ok nJobs)]
        (.ok (result, output))
  | sendJobCommand {nJobs jobIdx : UInt32} {command : JobCommand} (answer : Except E Unit) :
      extractJobIndex input nJobs = .ok jobIdx →
      ControlProtocolServer.extractJobCommand input = .ok command →
      RequestRun input output .sendJobCommand
        [.getNumberOfJobs (.ok nJobs), .sendJobCommand jobIdx command answer]
        (answer.map fun _ ↦ (SupProtocol.success V, output))
  | answered {nJobs jobIdx : UInt32} (jobInfo : JobInfo) :
      extractJobIndex input nJobs = .ok jobIdx →
      RequestRun input output .getJobInfo
        [.getNumberOfJobs (.ok nJobs), .getJobInfo jobIdx (.ok jobInfo)]
        (.ok (assignOutput output (SupProtocol.functionProtocolPack AnyValue.empty
          kJobInfoFieldName (JobInfoCodec.toAnyValue jobInfo))))

omit [AnyValue V] [JobInfoCodec V JobInfo] in
/-- An index that is extracted is in range. -/
private theorem extractIndex_lt {fieldName : String} {unknown : ProtocolResult} {input : V}
    {n idx : UInt32} (h : extractIndex fieldName unknown input n = .ok idx) : idx < n := by
  unfold extractIndex at h
  split at h
  · cases h
  · split at h
    · cases h
    · split at h
      · cases h
      · next hidx =>
        cases h
        exact UInt32.not_le.mp hidx

/-- A refusal to extract an index is no success. -/
private theorem extractIndex_error_ne [LawfulSupProtocol V] {fieldName : String}
    {unknown : ProtocolResult} (hunknown : unknown ≠ SupProtocol.success V) {input : V}
    {n : UInt32} {result : ProtocolResult}
    (h : extractIndex fieldName unknown input n = .error result) :
    result ≠ SupProtocol.success V := by
  unfold extractIndex at h
  split at h
  · cases h
    exact LawfulSupProtocol.serverProtocolDecodingError_ne
  · split at h
    · cases h
      exact LawfulSupProtocol.serverProtocolDecodingError_ne
    · split at h
      · cases h
        exact hunknown
      · cases h

omit [AnyValue V] in
/-- A command that is extracted is below `kTerminate`. -/
private theorem extractJobCommand_lt {input : V} {command : JobCommand}
    (h : ControlProtocolServer.extractJobCommand input = .ok command) :
    command.code < (JobInfoCodec.kTerminate V).code := by
  unfold ControlProtocolServer.extractJobCommand at h
  split at h
  · cases h
  · split at h
    · cases h
    · split at h
      · cases h
      · next hcommand =>
        cases h
        exact UInt32.not_le.mp hcommand

/-- A refusal to extract a command is no success. -/
private theorem extractJobCommand_error_ne [LawfulSupProtocol V] {input : V}
    {result : ProtocolResult}
    (h : ControlProtocolServer.extractJobCommand input = .error result) :
    result ≠ SupProtocol.success V := by
  unfold ControlProtocolServer.extractJobCommand at h
  split at h
  · cases h
    exact LawfulSupProtocol.serverProtocolDecodingError_ne
  · split at h
    · cases h
      exact LawfulSupProtocol.serverProtocolDecodingError_ne
    · split at h
      · cases h
        exact LawfulSupProtocol.specificApplicationError_ne 3 (by decide)
      · cases h

/-- Each handler runs as described, whatever the job manager answers. -/
theorem requestRun (request : JobRequest)
    (jobManager : IJobManager (ExceptT E (StateM S)) JobInfo) (input output : V) (s : S) :
    RequestRun input output request (callsOf request jobManager input output s)
      (outcome (request.handler (recorded jobManager) input output) (s, [])) := by
  suffices h : EndsIn (RequestRun input output request)
      (request.handler (recorded jobManager) input output) [] from h s
  cases request with
  | editBreakpoint =>
    refine endsIn_recordCall_bind (.noNumberOfJobs _) fun nJobs ↦ ?_
    cases hjob : extractJobIndex input nJobs with
    | error result => exact endsIn_pure (.refusedJob _ hjob)
    | ok jobIdx =>
      refine endsIn_recordCall_bind (fun e ↦ .noJobInfo e (by decide) hjob) fun jobInfo ↦ ?_
      cases hinstr : extractInstructionIndex input
          (JobInfoCodec.getNumberOfInstructions V jobInfo) with
      | error result => exact endsIn_pure (.refusedInstruction hjob hinstr)
      | ok instrIdx =>
        cases SupProtocol.functionProtocolExtractBoolean input kBreakpointActiveFieldName with
        | none => exact endsIn_pure (.refusedBreakpoint jobInfo hjob)
        | some breakpointActive =>
          exact endsIn_recordCall_bind
            (fun e ↦ .editBreakpoint breakpointActive (.error e) hjob hinstr)
            fun _ ↦ endsIn_pure (.editBreakpoint breakpointActive (.ok ()) hjob hinstr)
  | sendJobCommand =>
    refine endsIn_recordCall_bind (.noNumberOfJobs _) fun nJobs ↦ ?_
    cases hjob : extractJobIndex input nJobs with
    | error result => exact endsIn_pure (.refusedJob _ hjob)
    | ok jobIdx =>
      cases hcommand : ControlProtocolServer.extractJobCommand input with
      | error result => exact endsIn_pure (.refusedCommand hjob hcommand)
      | ok command =>
        exact endsIn_recordCall_bind (fun e ↦ .sendJobCommand (.error e) hjob hcommand)
          fun _ ↦ endsIn_pure (.sendJobCommand (.ok ()) hjob hcommand)
  | getJobInfo =>
    refine endsIn_recordCall_bind (.noNumberOfJobs _) fun nJobs ↦ ?_
    cases hjob : extractJobIndex input nJobs with
    | error result => exact endsIn_pure (.refusedJob _ hjob)
    | ok jobIdx =>
      exact endsIn_recordCall_bind (fun e ↦ .noJobInfo e (by decide) hjob)
        fun jobInfo ↦ endsIn_pure (.answered jobInfo hjob)

/-- Every call of a run is allowed by the calls before it. -/
theorem RequestRun.everyCall {input output : V} {request : JobRequest}
    {calls : List (JobManagerCall E JobInfo)} {result : Except E (ProtocolResult × V)}
    (h : RequestRun input output request calls result) :
    EveryCall (JobManagerCall.Allowed V) calls := by
  cases h with
  | noNumberOfJobs request e => simp [JobManagerCall.Allowed]
  | refusedJob request hjob => simp [JobManagerCall.Allowed]
  | noJobInfo e hrequest hjob =>
    simp [JobManagerCall.Allowed, JobManagerCall.KnownJob, extractIndex_lt hjob]
  | refusedInstruction hjob hinstr =>
    simp [JobManagerCall.Allowed, JobManagerCall.KnownJob, extractIndex_lt hjob]
  | refusedBreakpoint jobInfo hjob =>
    simp [JobManagerCall.Allowed, JobManagerCall.KnownJob, extractIndex_lt hjob]
  | editBreakpoint breakpointActive answer hjob hinstr =>
    simp [JobManagerCall.Allowed, JobManagerCall.KnownJob, extractIndex_lt hjob,
      extractIndex_lt hinstr]
  | refusedCommand hjob hcommand => simp [JobManagerCall.Allowed]
  | sendJobCommand answer hjob hcommand =>
    simp [JobManagerCall.Allowed, JobManagerCall.KnownJob, extractIndex_lt hjob,
      extractJobCommand_lt hcommand]
  | answered jobInfo hjob =>
    simp [JobManagerCall.Allowed, JobManagerCall.KnownJob, extractIndex_lt hjob]

/-- What a handler has done when it answers with a success: it made its call, or it assigned
the job information to the output. -/
def Served (output out : V) (calls : List (JobManagerCall E JobInfo)) : JobRequest → Prop
  | .editBreakpoint => out = output ∧
      ∃ jobIdx instrIdx breakpointActive,
        .editBreakpoint jobIdx instrIdx breakpointActive (.ok ()) ∈ calls
  | .sendJobCommand => out = output ∧
      ∃ jobIdx command, .sendJobCommand jobIdx command (.ok ()) ∈ calls
  | .getJobInfo => ∃ jobIdx jobInfo, .getJobInfo jobIdx (.ok jobInfo) ∈ calls ∧
      AnyValueConversion.tryAssignIfEmptyOrConvert output (SupProtocol.functionProtocolPack
        AnyValue.empty kJobInfoFieldName (JobInfoCodec.toAnyValue jobInfo)) = some out

/-- At most one call of a run changes the state of the job manager, and it is the one that the
request is for. -/
theorem RequestRun.changes {input output : V} {request : JobRequest}
    {calls : List (JobManagerCall E JobInfo)} {result : Except E (ProtocolResult × V)}
    (h : RequestRun input output request calls result) :
    calls.countP JobManagerCall.changesState ≤ 1 ∧
      ∀ call ∈ calls, call.isMadeBy request = true := by
  cases h <;> simp [List.countP_cons, JobManagerCall.changesState, JobManagerCall.isMadeBy]

/-- A run that throws was thrown at by the job manager. -/
theorem RequestRun.thrown {input output : V} {request : JobRequest}
    {calls : List (JobManagerCall E JobInfo)} {e : E}
    (h : RequestRun input output request calls (.error e)) :
    ∃ call ∈ calls, call.thrown = some e := by
  generalize hresult : Except.error e = result at h
  cases h with
  | noNumberOfJobs request e' =>
    cases hresult
    exact ⟨_, List.mem_singleton_self _, rfl⟩
  | noJobInfo e' hrequest hjob =>
    cases hresult
    exact ⟨_, List.mem_cons_of_mem _ (List.mem_singleton_self _), rfl⟩
  | editBreakpoint breakpointActive answer hjob hinstr =>
    cases answer with
    | ok _ => cases hresult
    | error e' =>
      cases hresult
      exact ⟨_, List.mem_cons_of_mem _ (List.mem_cons_of_mem _ (List.mem_singleton_self _)), rfl⟩
  | sendJobCommand answer hjob hcommand =>
    cases answer with
    | ok _ => cases hresult
    | error e' =>
      cases hresult
      exact ⟨_, List.mem_cons_of_mem _ (List.mem_singleton_self _), rfl⟩
  | refusedJob request hjob => cases hresult
  | refusedInstruction hjob hinstr => cases hresult
  | refusedBreakpoint jobInfo hjob => cases hresult
  | refusedCommand hjob hcommand => cases hresult
  | answered jobInfo hjob => cases hresult

/-- A run that refuses the request has neither served it nor changed anything. -/
private theorem answers_of_refused {output : V} {request : JobRequest}
    {calls : List (JobManagerCall E JobInfo)} {result : ProtocolResult}
    (hresult : result ≠ SupProtocol.success V)
    (hcalls : ∀ call ∈ calls, call.changesState = false)
    (hinfo : request = .getJobInfo → ∀ jobIdx answer, .getJobInfo jobIdx answer ∉ calls) :
    (result = SupProtocol.success V ↔ Served output output calls request) ∧
      (result ≠ SupProtocol.success V →
        output = output ∧ ∀ call ∈ calls, call.changesState = false) := by
  refine ⟨iff_of_false hresult fun hserved ↦ ?_, fun _ ↦ ⟨rfl, hcalls⟩⟩
  cases request with
  | editBreakpoint =>
    obtain ⟨-, jobIdx, instrIdx, breakpointActive, hmem⟩ := hserved
    exact Bool.noConfusion (hcalls _ hmem)
  | sendJobCommand =>
    obtain ⟨-, jobIdx, command, hmem⟩ := hserved
    exact Bool.noConfusion (hcalls _ hmem)
  | getJobInfo =>
    obtain ⟨jobIdx, jobInfo, hmem, -⟩ := hserved
    exact hinfo rfl jobIdx _ hmem

/-- A run that answers has a success for an answer exactly when it served the request, and
otherwise has changed nothing. -/
theorem RequestRun.answers [LawfulSupProtocol V] {input output : V} {request : JobRequest}
    {calls : List (JobManagerCall E JobInfo)} {result : ProtocolResult} {out : V}
    (h : RequestRun input output request calls (.ok (result, out))) :
    (result = SupProtocol.success V ↔ Served output out calls request) ∧
      (result ≠ SupProtocol.success V →
        out = output ∧ ∀ call ∈ calls, call.changesState = false) := by
  generalize hresult : Except.ok (result, out) = ended at h
  cases h with
  | noNumberOfJobs request e => cases hresult
  | noJobInfo e hrequest hjob => cases hresult
  | refusedJob request hjob =>
    cases hresult
    have hne := extractIndex_error_ne
      (LawfulSupProtocol.specificApplicationError_ne 1 (by decide)) hjob
    exact answers_of_refused hne (by simp [JobManagerCall.changesState]) (by simp)
  | refusedInstruction hjob hinstr =>
    cases hresult
    have hne := extractIndex_error_ne
      (LawfulSupProtocol.specificApplicationError_ne 2 (by decide)) hinstr
    exact answers_of_refused hne (by simp [JobManagerCall.changesState]) (by simp)
  | refusedBreakpoint jobInfo hjob =>
    cases hresult
    exact answers_of_refused LawfulSupProtocol.serverProtocolDecodingError_ne
      (by simp [JobManagerCall.changesState]) (by simp)
  | refusedCommand hjob hcommand =>
    cases hresult
    exact answers_of_refused (extractJobCommand_error_ne hcommand)
      (by simp [JobManagerCall.changesState]) (by simp)
  | @editBreakpoint nJobs jobIdx instrIdx jobInfo breakpointActive answer hjob hinstr =>
    cases answer with
    | error e => cases hresult
    | ok _ =>
      cases hresult
      refine ⟨iff_of_true rfl ⟨rfl, jobIdx, instrIdx, breakpointActive, ?_⟩, fun h ↦ absurd rfl h⟩
      exact List.mem_cons_of_mem _ (List.mem_cons_of_mem _ (List.mem_singleton_self _))
  | @sendJobCommand nJobs jobIdx command answer hjob hcommand =>
    cases answer with
    | error e => cases hresult
    | ok _ =>
      cases hresult
      refine ⟨iff_of_true rfl ⟨rfl, jobIdx, command, ?_⟩, fun h ↦ absurd rfl h⟩
      exact List.mem_cons_of_mem _ (List.mem_singleton_self _)
  | @answered nJobs jobIdx jobInfo hjob =>
    unfold assignOutput at hresult
    split at hresult
    · next hassign =>
      cases hresult
      refine ⟨iff_of_false LawfulSupProtocol.serverProtocolEncodingError_ne ?_,
        fun _ ↦ ⟨rfl, by simp [JobManagerCall.changesState]⟩⟩
      rintro ⟨jobIdx', jobInfo', hmem, hassigned⟩
      simp only [List.mem_cons, reduceCtorEq, List.not_mem_nil, or_false, false_or] at hmem
      cases hmem
      rw [hassign] at hassigned
      cases hassigned
    · next assigned hassign =>
      cases hresult
      refine ⟨iff_of_true rfl ⟨jobIdx, jobInfo, ?_, hassign⟩, fun h ↦ absurd rfl h⟩
      exact List.mem_cons_of_mem _ (List.mem_singleton_self _)

/-- No malformed request reaches a job, whatever the packet of the request and the output hold,
whatever the job manager answers and in whichever state it is. The handler only makes calls
that the answers to its earlier calls allow, and at most one call that changes the state, the
one that the request is for. It answers with a success exactly when it has made that call, or
assigned the job information to the output; with another answer the output and the job manager
are as before. Only an exception of the job manager ends it without an answer. -/
theorem malformed_requests_refused [LawfulSupProtocol V] (request : JobRequest)
    (jobManager : IJobManager (ExceptT E (StateM S)) JobInfo) (input output : V) (s : S) :
    EveryCall (JobManagerCall.Allowed V) (callsOf request jobManager input output s) ∧
    (callsOf request jobManager input output s).countP JobManagerCall.changesState ≤ 1 ∧
    (∀ call ∈ callsOf request jobManager input output s, call.isMadeBy request = true) ∧
    (∀ result out, outcome (request.handler jobManager input output) s = .ok (result, out) →
      (result = SupProtocol.success V ↔
        Served output out (callsOf request jobManager input output s) request) ∧
      (result ≠ SupProtocol.success V → out = output ∧
        (∀ call ∈ callsOf request jobManager input output s, call.changesState = false) ∧
        (ConstQueries jobManager → after (request.handler jobManager input output) s = s))) ∧
    ∀ e, outcome (request.handler jobManager input output) s = .error e →
      ∃ call ∈ callsOf request jobManager input output s, call.thrown = some e := by
  have hrecords := records_handler request jobManager input output
  have hrun := requestRun request jobManager input output s
  rw [hrecords.outcome_eq] at hrun
  refine ⟨hrun.everyCall, hrun.changes.1, hrun.changes.2, fun result out houtcome ↦ ?_,
    fun e houtcome ↦ ?_⟩
  · rw [houtcome] at hrun
    refine ⟨hrun.answers.1, fun hresult ↦ ?_⟩
    obtain ⟨hout, hcalls⟩ := hrun.answers.2 hresult
    refine ⟨hout, hcalls, fun hconst ↦ ?_⟩
    rw [← hrecords.foldl_callsMade s]
    exact foldl_effect_eq fun call hcall ↦ effect_of_const hconst s (hcalls call hcall)
  · rw [houtcome] at hrun
    exact hrun.thrown

/-- A job manager of two jobs that keeps the commands that it receives. -/
private def commandKeeper :
    IJobManager (ExceptT Exception (StateM (List (UInt32 × JobCommand)))) SampleJobInfo where
  getServerPrefix := pure "S"
  getNumberOfJobs := pure 2
  getJobInfo _ := pure ⟨1, 3⟩
  editBreakpoint _ _ _ := pure ()
  sendJobCommand jobIdx command := modify (· ++ [(jobIdx, command)])

/-- A packet with the index of a job and the number of a command. -/
private def commandPacket (jobIdx : UInt64) (command : DtoValue) : DtoValue :=
  .struct "" [("function", .string "SendJobCommand"), ("job_index", .uint64 jobIdx),
    ("command", command)]

/-- A command for the second job is received; a command for a third job, an index of more than
32 bits and a command that is no number are refused, and the job manager stays as it is. -/
theorem malformed_requests_refused_two_jobs :
    outcome (JobRequest.sendJobCommand.handler commandKeeper (commandPacket 1 (.uint32 4)) .empty)
      [] = .ok (SupProtocol.success DtoValue, .empty) ∧
    Served (V := DtoValue) .empty .empty (callsOf .sendJobCommand commandKeeper
      (commandPacket 1 (.uint32 4)) .empty []) .sendJobCommand ∧
    ∀ packet ∈ [commandPacket 2 (.uint32 4), commandPacket 4294967297 (.uint32 4),
        commandPacket 1 (.string "kStart")],
      after (JobRequest.sendJobCommand.handler commandKeeper packet .empty) [] = [] := by
  have hconst : ConstQueries commandKeeper := ⟨fun _ ↦ rfl, fun _ ↦ rfl, fun _ _ ↦ rfl⟩
  have h := fun packet ↦ (malformed_requests_refused .sendJobCommand commandKeeper packet
    (.empty : DtoValue) []).2.2.2.1
  refine ⟨rfl, (h _ _ _ rfl).1.mp rfl, fun packet hpacket ↦ ?_⟩
  simp only [List.mem_cons, List.not_mem_nil, or_false] at hpacket
  rcases hpacket with rfl | rfl | rfl
  · exact ((h _ _ _ rfl).2 (by decide)).2.2 hconst
  · exact ((h _ _ _ rfl).2 (by decide)).2.2 hconst
  · exact ((h _ _ _ rfl).2 (by decide)).2.2 hconst

end Handlers

end OacTreeServer.Rpc
