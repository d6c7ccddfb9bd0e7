import OacTreeServer.Rpc.ClientJob
import OacTreeServer.Rpc.Transparency
import OacTreeServer.Server.JobControl

/-!
# Remote control of the jobs

A user interface operates a job through `ClientJob` (`base/client_job.cpp:79`), which sends
the operation through an `AutomationClientStack` to the protocol servers of an
`AutomationServer`. Any number of user interfaces may do so at the same time, while jobs are
added and run. Each remote call is carried out by several calls of the jobs, under separate
locks; nevertheless it takes effect as a whole.
-/

namespace OacTreeServer.Rpc
open OacTreeServer.Cpp OacTreeServer.External OacTreeServer.Library OacTreeServer.Protocol
  OacTreeServer.Server

/-- `AutomationClientStack`: a client of two protocols, neither of which may be missing;
`automation_client_stack.cpp:48`. -/
def automationClientStack {m : Type → Type} [Monad m] {V JobInfo : Type} [AnyValue V]
    [SupProtocol V] [JobInfoCodec V JobInfo]
    (infoProtocol controlProtocol : Option (Protocol m V)) :
    Except Exception (IJobManager (ExceptT Exception m) JobInfo) :=
  match infoProtocol, controlProtocol with
  | some infoProtocol, some controlProtocol =>
    .ok (automationProtocolClient infoProtocol controlProtocol)
  | _, _ => .error (.invalidOperation
      "AutomationClientStack ctor: trying to construct a client stack with an empty protocol")

namespace ClientJob

variable {m : Type → Type} {JobInfo Io : Type} [JobCommands]

/-- The operations of `ClientJob`; `client_job.cpp:79`. -/
def operate (jobManager : IJobManager m JobInfo) (job : ClientJob Io JobInfo) :
    JobOperation → m Unit
  | .setBreakpoint instrIdx => jobManager.editBreakpoint job.jobIdx instrIdx true
  | .removeBreakpoint instrIdx => jobManager.editBreakpoint job.jobIdx instrIdx false
  | .start => jobManager.sendJobCommand job.jobIdx JobCommands.kStart
  | .step => jobManager.sendJobCommand job.jobIdx JobCommands.kStep
  | .pause => jobManager.sendJobCommand job.jobIdx JobCommands.kPause
  | .reset => jobManager.sendJobCommand job.jobIdx JobCommands.kReset
  | .halt => jobManager.sendJobCommand job.jobIdx JobCommands.kHalt

end ClientJob

/-- The calls of a remote job manager. -/
inductive RemoteCall where
  | getServerPrefix
  | getNumberOfJobs
  | getJobInfo (jobIdx : UInt32)
  | editBreakpoint (jobIdx instrIdx : UInt32) (breakpointActive : Bool)
  | sendJobCommand (jobIdx : UInt32) (command : JobCommand)
  deriving DecidableEq, Repr

/-- What a call returns. -/
abbrev RemoteCall.Value (JobInfo : Type) : RemoteCall → Type
  | .getServerPrefix => String
  | .getNumberOfJobs => UInt32
  | .getJobInfo _ => JobInfo
  | .editBreakpoint _ _ _ => Unit
  | .sendJobCommand _ _ => Unit

/-- The method of a job manager that a call is about. -/
def RemoteCall.method {m : Type → Type} {JobInfo : Type} (jobManager : IJobManager m JobInfo) :
    (call : RemoteCall) → m (call.Value JobInfo)
  | .getServerPrefix => jobManager.getServerPrefix
  | .getNumberOfJobs => jobManager.getNumberOfJobs
  | .getJobInfo jobIdx => jobManager.getJobInfo jobIdx
  | .editBreakpoint jobIdx instrIdx breakpointActive =>
    jobManager.editBreakpoint jobIdx instrIdx breakpointActive
  | .sendJobCommand jobIdx command => jobManager.sendJobCommand jobIdx command

/-- How a remote call ends: with an exception of the server behind the protocols, or else at the
client, with an exception there or a result. -/
abbrev RemoteResult (JobInfo : Type) (call : RemoteCall) : Type :=
  Except Exception (Except Exception (call.Value JobInfo))

section Programs

variable (V : Type) {JobInfo : Type} [AnyValue V] [SupProtocol V] [AnyValueConversion V]
  [JobInfoCodec V JobInfo] [JobCommands] (serverPrefix : String)

/-- A remote call, as the calls of the jobs that it leads to. -/
def remoteCall (call : RemoteCall) :
    CallTree (JobsAnswer JobInfo) (RemoteResult JobInfo call) :=
  (call.method (clientOf V (jobManager serverPrefix))).run.run

end Programs

section Trees

variable {JobInfo A : Type}

/-- The lookup of a job and what follows; what is left without the job is an exception. -/
def lookupTree (jobIdx : UInt32) (lost : Exception → A)
    (next : StdReference → CallTree (JobsAnswer JobInfo) A) : CallTree (JobsAnswer JobInfo) A :=
  .call (.getJob jobIdx) fun
    | .error e => .done (lost e)
    | .ok job => next job

/-- The lookup of a job and of its information, and what follows. -/
def getInfoTree (jobIdx : UInt32) (lost : Exception → A)
    (next : JobInfo → CallTree (JobsAnswer JobInfo) A) : CallTree (JobsAnswer JobInfo) A :=
  lookupTree jobIdx lost fun job ↦ .call (.getInfo job) next

/-- The lookup of a job and one operation of it. -/
def operateTree (jobIdx : UInt32) (op : JobOperation) (lost : Exception → A)
    (end' : Except Exception Unit → A) : CallTree (JobsAnswer JobInfo) A :=
  lookupTree jobIdx lost fun job ↦ .call (.operate job op) fun answer ↦ .done (end' answer)

/-- A check of the index of a job before the rest of a call. -/
def checkTree (jobIdx : UInt32) (refusal : Exception)
    (next : CallTree (JobsAnswer JobInfo) (Except Exception (Except Exception A))) :
    CallTree (JobsAnswer JobInfo) (Except Exception (Except Exception A)) :=
  .call .size fun nJobs ↦
    if jobIdx < UInt32.ofNat nJobs then next else .done (.ok (.error refusal))

/-- The check of an index, as the client makes it. -/
private theorem run_check (jobIdx : UInt32) (refusal : Exception)
    (next : ExceptT Exception (JobsProgram JobInfo) A) :
    (do
      let nJobs ← (AutomationServer.getNumberOfJobs : JobsProgram JobInfo UInt32)
      if jobIdx < nJobs then
        next
      else
        throw refusal : ExceptT Exception (JobsProgram JobInfo) A).run.run =
    checkTree jobIdx refusal next.run.run := rfl

/-- The information about a job and what follows. -/
private theorem run_getJobInfo (jobIdx : UInt32)
    (next : JobInfo → ExceptT Exception (JobsProgram JobInfo) A) :
    (do
      let jobInfo ← (AutomationServer.getJobInfo jobIdx : JobsProgram JobInfo JobInfo)
      next jobInfo : ExceptT Exception (JobsProgram JobInfo) A).run.run =
    getInfoTree jobIdx .error fun info ↦ (next info).run.run := by
  change CallTree.call _ _ = _
  congr
  funext r
  cases r <;> rfl

/-- What is left of a call at the client when the server has ended it. -/
private theorem run_liftM (x : JobsProgram JobInfo A) :
    (liftM x : ExceptT Exception (JobsProgram JobInfo) A).run.run =
      (do
        let r ← x.run
        return r.map Except.ok) := by
  refine bind_congr (m := CallTree (JobsAnswer JobInfo)) (x := x.run) fun r ↦ ?_
  cases r <;> rfl

/-- A condition for a call of the server. -/
private theorem run_ite (c : Prop) [Decidable c] (x : JobsProgram JobInfo A)
    (refusal : Exception) :
    (if c then liftM x else throw refusal : ExceptT Exception (JobsProgram JobInfo) A).run.run =
      if c then (do
        let r ← x.run
        return r.map Except.ok)
      else .done (.ok (.error refusal)) := by
  split
  · exact run_liftM x
  · rfl

/-- A job is looked up and operated. -/
private theorem run_operateJob (jobIdx : UInt32) (op : JobOperation) :
    (do
      let job ← AutomationServer.lookupJob jobIdx
      AutomationServer.operateJob job op : JobsProgram JobInfo Unit).run =
    operateTree jobIdx op .error id := by
  change CallTree.call _ _ = CallTree.call _ _
  congr
  funext r
  cases r <;> rfl

/-- A breakpoint is edited. -/
private theorem run_editBreakpoint (jobIdx instrIdx : UInt32) (breakpointActive : Bool) :
    (AutomationServer.editBreakpoint jobIdx instrIdx breakpointActive :
      JobsProgram JobInfo Unit).run =
    operateTree jobIdx (if breakpointActive then .setBreakpoint instrIdx
      else .removeBreakpoint instrIdx) .error id := by
  cases breakpointActive
  · exact run_operateJob jobIdx (.removeBreakpoint instrIdx)
  · exact run_operateJob jobIdx (.setBreakpoint instrIdx)

/-- A command is sent. -/
private theorem run_sendJobCommand [JobCommands] (jobIdx : UInt32) {command : JobCommand}
    {op : JobOperation} (h : AutomationServer.commandOperation command = some op) :
    (AutomationServer.sendJobCommand jobIdx command : JobsProgram JobInfo Unit).run =
      operateTree jobIdx op .error id := by
  rw [← run_operateJob, AutomationServer.sendJobCommand, h]

/-- The result of an operation on its way to the client. -/
private theorem operateTree_bind (jobIdx : UInt32) (op : JobOperation) :
    (do
      let r ← (operateTree jobIdx op .error id : CallTree (JobsAnswer JobInfo) _)
      return r.map Except.ok) =
    (operateTree jobIdx op .error (Except.map Except.ok) :
      CallTree (JobsAnswer JobInfo) (Except Exception (Except Exception Unit))) := by
  change CallTree.call _ _ = CallTree.call _ _
  congr
  funext r
  cases r <;> rfl

end Trees

section Forms

open AutomationProtocolClient

variable {V JobInfo : Type} [AnyValue V] [LawfulAnyValue V] [SupProtocol V] [LawfulSupProtocol V]
  [AnyValueConversion V] [LawfulAnyValueConversion V] [JobInfoCodec V JobInfo] [JobCommands]
  {serverPrefix : String}

omit [LawfulAnyValue V] in
/-- The calls of `GetServerPrefix`: the prefix is constant. -/
theorem remoteCall_getServerPrefix :
    (remoteCall V serverPrefix .getServerPrefix : CallTree (JobsAnswer JobInfo) _) =
      .done (.ok (.ok serverPrefix)) := by
  change (getServerPrefix (infoProtocolServer (jobManager serverPrefix) :
    Protocol (JobsProgram JobInfo) V)).run.run = _
  rw [getServerPrefix_server]
  rfl

/-- The calls of `GetNumberOfJobs`. -/
theorem remoteCall_getNumberOfJobs :
    (remoteCall V serverPrefix .getNumberOfJobs : CallTree (JobsAnswer JobInfo) _) =
      .call .size fun nJobs ↦ .done (.ok (.ok (UInt32.ofNat nJobs))) := by
  change (getNumberOfJobs (infoProtocolServer (jobManager serverPrefix) :
    Protocol (JobsProgram JobInfo) V)).run.run = _
  rw [getNumberOfJobs_server]
  rfl

/-- The calls of `GetJobInfo`. -/
theorem remoteCall_getJobInfo [LawfulJobInfoCodec V] (jobIdx : UInt32) :
    (remoteCall V serverPrefix (.getJobInfo jobIdx) : CallTree (JobsAnswer JobInfo) _) =
      checkTree jobIdx (protocolError V "GetJobInfo" (unknownJob V))
        (getInfoTree jobIdx .error fun info ↦ .done (.ok (.ok info))) := by
  change (getJobInfo (infoProtocolServer (jobManager serverPrefix) :
    Protocol (JobsProgram JobInfo) V) jobIdx).run.run = _
  rw [getJobInfo_server]
  refine (run_check ..).trans (congrArg _ ((run_liftM _).trans ?_))
  change CallTree.call _ _ = CallTree.call _ _
  congr
  funext r
  cases r <;> rfl

/-- The calls of `EditBreakpoint`. -/
theorem remoteCall_editBreakpoint (jobIdx instrIdx : UInt32) (breakpointActive : Bool) :
    (remoteCall V serverPrefix (.editBreakpoint jobIdx instrIdx breakpointActive) :
      CallTree (JobsAnswer JobInfo) _) =
      checkTree jobIdx (protocolError V "EditBreakpoint" (unknownJob V))
        (getInfoTree jobIdx .error fun info ↦
          if instrIdx < JobInfoCodec.getNumberOfInstructions V info then
            operateTree jobIdx (if breakpointActive then .setBreakpoint instrIdx
              else .removeBreakpoint instrIdx) .error (Except.map Except.ok)
          else
            .done (.ok (.error (protocolError V "EditBreakpoint" (unknownInstruction V))))) := by
  change (editBreakpoint (controlProtocolServer (jobManager serverPrefix) :
    Protocol (JobsProgram JobInfo) V) jobIdx instrIdx breakpointActive).run.run = _
  rw [editBreakpoint_server]
  refine (run_check ..).trans (congrArg _ ((run_getJobInfo jobIdx _).trans ?_))
  congr
  funext info
  rw [← operateTree_bind, ← run_editBreakpoint]
  exact run_ite _ (AutomationServer.editBreakpoint jobIdx instrIdx breakpointActive) _

/-- The calls of `SendJobCommand` with one of the commands. -/
theorem remoteCall_sendJobCommand (jobIdx : UInt32) {command : JobCommand}
    {op : JobOperation} (hop : AutomationServer.commandOperation command = some op)
    (hcode : command.code < (JobInfoCodec.kTerminate V).code) :
    (remoteCall V serverPrefix (.sendJobCommand jobIdx command) :
      CallTree (JobsAnswer JobInfo) _) =
      checkTree jobIdx (protocolError V "SendJobCommand" (unknownJob V))
        (operateTree jobIdx op .error (Except.map Except.ok)) := by
  change (sendJobCommand (controlProtocolServer (jobManager serverPrefix) :
    Protocol (JobsProgram JobInfo) V) jobIdx command).run.run = _
  rw [sendJobCommand_server]
  refine (run_check ..).trans (congrArg _ ?_)
  rw [if_pos hcode, ← operateTree_bind, ← run_sendJobCommand jobIdx hop, ← run_liftM]
  rfl

/-- The calls of `SendJobCommand` with another number. -/
theorem remoteCall_sendJobCommand_unknown (jobIdx : UInt32) {command : JobCommand}
    (hcode : ¬ command.code < (JobInfoCodec.kTerminate V).code) :
    (remoteCall V serverPrefix (.sendJobCommand jobIdx command) :
      CallTree (JobsAnswer JobInfo) _) =
      checkTree jobIdx (protocolError V "SendJobCommand" (unknownJob V))
        (.done (.ok (.error (protocolError V "SendJobCommand" (unknownJobCommand V))))) := by
  change (sendJobCommand (controlProtocolServer (jobManager serverPrefix) :
    Protocol (JobsProgram JobInfo) V) jobIdx command).run.run = _
  rw [sendJobCommand_server]
  refine (run_check ..).trans (congrArg _ ?_)
  rw [if_neg hcode]
  rfl

end Forms

end OacTreeServer.Rpc
