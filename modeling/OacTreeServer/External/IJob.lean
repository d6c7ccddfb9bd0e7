import OacTreeServer.External.OacTree

/-!
# Jobs of oac-tree

`sup::oac_tree::IJob` is what both a local job and the client of a remote job implement. The
server holds a list of `LocalJob`s; what such a job does when it is operated is left open, as
is everything that it does on its own while its procedure runs.
-/

namespace OacTreeServer.External

/-- `sup::oac_tree::IJob`, as a `LocalJob` implements it: an operation may throw, and may change
the job in any case. -/
class IJob (J : Type) (JobInfo Activity : outParam Type) where
  getInfo : J → JobInfo
  setBreakpoint : J → UInt32 → Except Exception Unit × J
  removeBreakpoint : J → UInt32 → Except Exception Unit × J
  start : J → Except Exception Unit × J
  step : J → Except Exception Unit × J
  pause : J → Except Exception Unit × J
  reset : J → Except Exception Unit × J
  halt : J → Except Exception Unit × J
  /-- What the job does on its own. -/
  proceed : J → Activity → J

/-- The operations of `IJob` that are not `const`. -/
inductive JobOperation where
  | setBreakpoint (instrIdx : UInt32)
  | removeBreakpoint (instrIdx : UInt32)
  | start
  | step
  | pause
  | reset
  | halt
  deriving DecidableEq, Repr

/-- An operation of a local job. -/
def JobOperation.run {J JobInfo Activity : Type} [IJob J JobInfo Activity] :
    JobOperation → J → Except Exception Unit × J
  | .setBreakpoint instrIdx, job => IJob.setBreakpoint job instrIdx
  | .removeBreakpoint instrIdx, job => IJob.removeBreakpoint job instrIdx
  | .start, job => IJob.start job
  | .step, job => IJob.step job
  | .pause, job => IJob.pause job
  | .reset, job => IJob.reset job
  | .halt, job => IJob.halt job

/-- The information about a job is static: it describes the procedure that the job was
constructed from. -/
class LawfulIJob (J : Type) {JobInfo Activity : outParam Type}
    [IJob J JobInfo Activity] : Prop where
  getInfo_run : ∀ (op : JobOperation) (job : J),
    IJob.getInfo (op.run job).2 = IJob.getInfo job
  getInfo_proceed : ∀ (job : J) (activity : Activity),
    IJob.getInfo (IJob.proceed job activity) = IJob.getInfo job

/-- The enumerators of `sup::oac_tree::JobCommand` in front of `kTerminate`. -/
class JobCommands where
  kStart : JobCommand
  kStep : JobCommand
  kPause : JobCommand
  kReset : JobCommand
  kHalt : JobCommand

/-- The enumerators are distinct, and those in front of `kTerminate`. -/
class LawfulJobCommands (V : Type) {JobInfo : outParam Type} [JobInfoCodec V JobInfo]
    [JobCommands] : Prop where
  nodup : [JobCommands.kStart, JobCommands.kStep, JobCommands.kPause, JobCommands.kReset,
    JobCommands.kHalt].Nodup
  lt_kTerminate_iff : ∀ command : JobCommand,
    command.code < (JobInfoCodec.kTerminate V).code ↔
      command ∈ [JobCommands.kStart, JobCommands.kStep, JobCommands.kPause, JobCommands.kReset,
        JobCommands.kHalt]

end OacTreeServer.External
