import OacTreeServer.Library.Moments
import OacTreeServer.Rpc.IndivisibleCalls

/-!
# What remote callers can rely on

Any number of callers operate the jobs of a server through the protocols, while jobs are added
and go on by themselves. The only assumption about the order of all this concerns `AddJob`: it
must not move the jobs while a call refers to one of them. The results are about every such run.
-/

namespace OacTreeServer.Rpc
open OacTreeServer.Cpp OacTreeServer.External OacTreeServer.Library OacTreeServer.Protocol
  OacTreeServer.Server

/-- The commands that `ClientJob` sends stand for the operations that it is about. -/
private theorem commandOperation_commands (V : Type) {JobInfo : Type} [JobInfoCodec V JobInfo]
    [JobCommands] [LawfulJobCommands V] :
    AutomationServer.commandOperation JobCommands.kStart = some .start ∧
    AutomationServer.commandOperation JobCommands.kStep = some .step ∧
    AutomationServer.commandOperation JobCommands.kPause = some .pause ∧
    AutomationServer.commandOperation JobCommands.kReset = some .reset ∧
    AutomationServer.commandOperation JobCommands.kHalt = some .halt := by
  have hnodup := LawfulJobCommands.nodup (V := V)
  simp only [List.nodup_cons, List.mem_cons, List.not_mem_nil, or_false, not_or] at hnodup
  obtain ⟨⟨h01, h02, h03, h04⟩, ⟨h12, h13, h14⟩, ⟨h23, h24⟩, h34, -⟩ := hnodup
  refine ⟨if_pos rfl, ?_, ?_, ?_, ?_⟩
  · rw [AutomationServer.commandOperation, if_neg (Ne.symm h01), if_pos rfl]
  · rw [AutomationServer.commandOperation, if_neg (Ne.symm h02), if_neg (Ne.symm h12),
      if_pos rfl]
  · rw [AutomationServer.commandOperation, if_neg (Ne.symm h03), if_neg (Ne.symm h13),
      if_neg (Ne.symm h23), if_pos rfl]
  · rw [AutomationServer.commandOperation, if_neg (Ne.symm h04), if_neg (Ne.symm h14),
      if_neg (Ne.symm h24), if_neg (Ne.symm h34), if_pos rfl]

section Reached

variable {J JobInfo Activity : Type} [IJob J JobInfo Activity] (growth : Nat → Nat)

variable (J) in
/-- The jobs of a server, the calls of its remote callers and what they have observed. -/
abbrev CallersState (V : Type) [AnyValue V] [SupProtocol V] [AnyValueConversion V]
    [JobInfoCodec V JobInfo] [JobCommands] (serverPrefix : String) : Type :=
  (interleavedCalls V serverPrefix growth : Service _ _ (JobsEvent J Activity) _).State

/-- A run from these jobs to this state in which `AddJob` neither takes the 32-bit number of jobs
back to zero during a call nor moves the jobs while a call refers to one of them. -/
structure RunsTo {V : Type} [AnyValue V] [SupProtocol V] [AnyValueConversion V]
    [JobInfoCodec V JobInfo] [JobCommands] {serverPrefix : String} (jobs : StdVector J)
    (actions : List (ServiceAction RemoteCall (JobsEvent J Activity)))
    (c : CallersState J growth V serverPrefix) : Prop where
  tolerated : (interleavedCalls V serverPrefix growth).machine.EveryStep
    ((sharedJobs growth).Tolerated (remoteCall V serverPrefix)) (.initial _ jobs) actions
  run : (interleavedCalls V serverPrefix growth).machine.run (.initial _ jobs) actions = some c

/-- A run leads from these jobs to this state in which `AddJob` neither takes the 32-bit number
of jobs back to zero during a call nor moves the jobs while a call refers to one of them. -/
def Reached {V : Type} [AnyValue V] [SupProtocol V] [AnyValueConversion V]
    [JobInfoCodec V JobInfo] [JobCommands] {serverPrefix : String} (jobs : StdVector J)
    (c : CallersState J growth V serverPrefix) : Prop :=
  ∃ actions,
    (interleavedCalls V serverPrefix growth).machine.EveryStep
      ((sharedJobs growth).Tolerated (remoteCall V serverPrefix)) (.initial _ jobs) actions ∧
    (interleavedCalls V serverPrefix growth).machine.run (.initial _ jobs) actions = some c

variable {growth}

/-- A run reaches the state that it leads to. -/
theorem RunsTo.reached {V : Type} [AnyValue V] [SupProtocol V] [AnyValueConversion V]
    [JobInfoCodec V JobInfo] [JobCommands] {serverPrefix : String} {jobs : StdVector J}
    {actions : List (ServiceAction RemoteCall (JobsEvent J Activity))}
    {c : CallersState J growth V serverPrefix} (h : RunsTo growth jobs actions c) :
    Reached growth jobs c :=
  ⟨actions, h.tolerated, h.run⟩

end Reached

section Samples

/-- Two jobs, the second of which is running, with room for one more. -/
private def twoJobs : StdVector SampleJob :=
  ⟨[⟨⟨1, 3⟩, [], false⟩, ⟨⟨0, 2⟩, [], true⟩], 3, 0, by decide⟩

/-- A job that is added later. -/
private def thirdJob : SampleJob := ⟨⟨0, 0⟩, [], false⟩

/-- One caller sets a breakpoint of the first job while another one resets the second job, which
does not allow it, and a third job is added. -/
private def twoCallers : List (ServiceAction RemoteCall (JobsEvent SampleJob Unit)) :=
  [.invoke 0 (.editBreakpoint 0 1 true), .advance 0, .invoke 1 (.sendJobCommand 1 ⟨3⟩),
    .advance 0, .advance 1, .advance 0, .advance 1, .disturb (.addJob thirdJob), .advance 0,
    .advance 1, .respond 1, .advance 0, .respond 0]

/-- The callers of two jobs. -/
private abbrev sampleCalls : Service RemoteCall (RemoteResult SampleJobInfo)
    (JobsEvent SampleJob Unit) (StdVector SampleJob) :=
  interleavedCalls DtoValue "S" id

end Samples

section Operations

open AutomationProtocolClient

variable {V J JobInfo Activity Io : Type} [AnyValue V] [LawfulAnyValue V] [SupProtocol V]
  [LawfulSupProtocol V] [AnyValueConversion V] [LawfulAnyValueConversion V]
  [JobInfoCodec V JobInfo] [LawfulJobInfoCodec V] [IJob J JobInfo Activity] {serverPrefix : String}

/-- The method of the protocols that carries an operation of a job. -/
def methodOf : JobOperation → String
  | .setBreakpoint _ | .removeBreakpoint _ => "EditBreakpoint"
  | _ => "SendJobCommand"

variable (V) in
/-- The instruction that an operation is about is one that the job has. -/
def InstructionKnown (info : JobInfo) : JobOperation → Prop
  | .setBreakpoint instrIdx | .removeBreakpoint instrIdx =>
    instrIdx < JobInfoCodec.getNumberOfInstructions V info
  | _ => True

instance (info : JobInfo) (op : JobOperation) : Decidable (InstructionKnown V info op) :=
  match op with
  | .setBreakpoint _ | .removeBreakpoint _ => inferInstanceAs (Decidable (_ < _))
  | .start | .step | .pause | .reset | .halt => inferInstanceAs (Decidable True)

/-- Operating a remote job through a client stack of the two servers is operating the local job of
the same index: the operation is carried out once, on that job alone, and gives what it gives
there. It is refused without an effect when the server does not have the job, or the job does not
have the instruction. -/
theorem clientJob_operate [JobCommands] [LawfulJobCommands V]
    {stack : IJobManager (ExceptT Exception (JobsProgram JobInfo)) JobInfo}
    (hstack : automationClientStack
      (some (infoProtocolServer (jobManager serverPrefix) : Protocol (JobsProgram JobInfo) V))
      (some (controlProtocolServer (jobManager serverPrefix))) = .ok stack)
    (job : ClientJob Io JobInfo) (op : JobOperation) (jobs : StdVector J) :
    CallTree.runAlone serveJobs (job.operate stack op).run.run jobs = some
      (match knownJob jobs job.jobIdx with
      | none => (.ok (.error (protocolError V (methodOf op) (unknownJob V))), jobs)
      | some localJob =>
        if InstructionKnown V (IJob.getInfo localJob) op then
          operated jobs job.jobIdx localJob op
        else
          (.ok (.error (protocolError V (methodOf op) (unknownInstruction V))), jobs)) := by
  obtain ⟨hstart, hstep, hpause, hreset, hhalt⟩ := commandOperation_commands V
  cases hstack
  cases op with
  | setBreakpoint instrIdx =>
    exact runAlone_remoteCall (.editBreakpoint job.jobIdx instrIdx true) jobs
  | removeBreakpoint instrIdx =>
    exact runAlone_remoteCall (.editBreakpoint job.jobIdx instrIdx false) jobs
  | start =>
    refine (runAlone_remoteCall (.sendJobCommand job.jobIdx JobCommands.kStart) jobs).trans ?_
    rw [RemoteCall.effect, hstart]
    rfl
  | step =>
    refine (runAlone_remoteCall (.sendJobCommand job.jobIdx JobCommands.kStep) jobs).trans ?_
    rw [RemoteCall.effect, hstep]
    rfl
  | pause =>
    refine (runAlone_remoteCall (.sendJobCommand job.jobIdx JobCommands.kPause) jobs).trans ?_
    rw [RemoteCall.effect, hpause]
    rfl
  | reset =>
    refine (runAlone_remoteCall (.sendJobCommand job.jobIdx JobCommands.kReset) jobs).trans ?_
    rw [RemoteCall.effect, hreset]
    rfl
  | halt =>
    refine (runAlone_remoteCall (.sendJobCommand job.jobIdx JobCommands.kHalt) jobs).trans ?_
    rw [RemoteCall.effect, hhalt]
    rfl

/-- The second job is reset from afar, which gives its exception and changes nothing. -/
theorem clientJob_operate_two_jobs :
    CallTree.runAlone serveJobs (ClientJob.operate (clientOf DtoValue (jobManager "S"))
      (⟨1, (), ⟨0, 2⟩⟩ : ClientJob Unit SampleJobInfo) .reset).run.run twoJobs =
        some (.error .oacTree, twoJobs) := by
  refine (clientJob_operate rfl _ .reset twoJobs).trans ?_
  rfl

end Operations

section Room

variable {V J JobInfo Activity : Type} [AnyValue V] [SupProtocol V] [AnyValueConversion V]
  [JobInfoCodec V JobInfo] [IJob J JobInfo Activity] {growth : Nat → Nat} {serverPrefix : String}

/-- Neither the number of jobs nor the capacity of their vector decreases. -/
private theorem grows_of_step [JobCommands] {c d : CallersState J growth V serverPrefix}
    {a : ServiceAction RemoteCall (JobsEvent J Activity)}
    (h : (interleavedCalls V serverPrefix growth).machine.step c a = some d) :
    c.shared.size ≤ d.shared.size ∧ c.shared.capacity ≤ d.shared.capacity := by
  cases Service.machine_step_iff.mp h with
  | invoke hidle => exact ⟨Nat.le_refl _, Nat.le_refl _⟩
  | @advance caller call phase next jobs' hcall hadvance =>
    cases phase with
    | done result => cases hadvance
    | call d rest =>
      obtain ⟨⟨answer, t⟩, hserve, heq⟩ := Option.map_eq_some_iff.mp hadvance
      cases heq
      rcases serveJobs_cases hserve with rfl | ⟨position, job, op, -, rfl⟩
      · exact ⟨Nat.le_refl _, Nat.le_refl _⟩
      · exact ⟨Nat.le_of_eq (StdVector.size_set ..).symm, Nat.le_refl _⟩
  | respond hcall hresult => exact ⟨Nat.le_refl _, Nat.le_refl _⟩
  | disturb hdisturb =>
    rcases disturbJobs_cases hdisturb with ⟨job, rfl, rfl⟩ | ⟨position, job, activity, -, rfl⟩
    · refine ⟨?_, StdVector.capacity_le_emplaceBack ..⟩
      exact Nat.le_trans (Nat.le_succ _) (Nat.le_of_eq (StdVector.size_emplaceBack ..).symm)
    · exact ⟨Nat.le_of_eq (StdVector.size_set ..).symm, Nat.le_refl _⟩

/-- Neither decreases in a run. -/
private theorem grows_of_run [JobCommands] {c d : CallersState J growth V serverPrefix}
    {actions : List (ServiceAction RemoteCall (JobsEvent J Activity))}
    (h : (interleavedCalls V serverPrefix growth).machine.run c actions = some d) :
    c.shared.size ≤ d.shared.size ∧ c.shared.capacity ≤ d.shared.capacity :=
  Machine.run_relation (R := fun c d ↦ c.shared.size ≤ d.shared.size ∧
      c.shared.capacity ≤ d.shared.capacity) (fun _ ↦ ⟨Nat.le_refl _, Nat.le_refl _⟩)
    (fun h h' ↦ ⟨h.1.trans h'.1, h.2.trans h'.2⟩) grows_of_step h

/-- A step of the callers keeps the information about every job. -/
private theorem hasInfo_of_step [LawfulIJob J] [JobCommands]
    {c d : CallersState J growth V serverPrefix}
    {a : ServiceAction RemoteCall (JobsEvent J Activity)} {jobIdx : UInt32} {info : JobInfo}
    (hinfo : HasInfo jobIdx info c.shared)
    (h : (interleavedCalls V serverPrefix growth).machine.step c a = some d) :
    HasInfo jobIdx info d.shared := by
  cases Service.machine_step_iff.mp h with
  | invoke hidle => exact hinfo
  | @advance caller call phase next jobs' hcall hadvance =>
    cases phase with
    | done result => cases hadvance
    | call e rest =>
      obtain ⟨⟨answer, t⟩, hserve, heq⟩ := Option.map_eq_some_iff.mp hadvance
      cases heq
      rcases serveJobs_cases hserve with rfl | ⟨position, job, op, hjob, rfl⟩
      · exact hinfo
      · exact hinfo.set hjob (LawfulIJob.getInfo_run op job)
  | respond hcall hresult => exact hinfo
  | disturb hdisturb =>
    rcases disturbJobs_cases hdisturb with ⟨job, rfl, rfl⟩ | ⟨position, job, activity, hjob, rfl⟩
    · exact hinfo.emplaceBack job
    · exact hinfo.set hjob (LawfulIJob.getInfo_proceed job activity)

/-- When the vector has room for all jobs from the start, they are never moved. -/
theorem runsTo_of_capacity [JobCommands] {jobs : StdVector J}
    (hlimit : jobs.capacity < UInt32.size)
    {c : CallersState J growth V serverPrefix}
    {actions : List (ServiceAction RemoteCall (JobsEvent J Activity))}
    (hrun : (interleavedCalls V serverPrefix growth).machine.run (.initial _ jobs) actions =
      some c) (hroom : c.shared.size ≤ jobs.capacity) : RunsTo growth jobs actions c := by
  refine ⟨Machine.everyStep_of_forall_prefix ?_, hrun⟩
  rintro before action later r rfl hbefore
  rw [Machine.run_append, hbefore, Option.bind_some] at hrun
  obtain ⟨t, ht, hlater⟩ := (Machine.run_cons_eq_some _).mp hrun
  cases action with
  | invoke caller call => trivial
  | advance caller => trivial
  | respond caller => trivial
  | disturb e =>
    intro caller call d next hcall
    cases e with
    | proceed position activity => trivial
    | addJob job =>
      cases ht
      have hsize : (r.shared.emplaceBack growth job).size ≤ c.shared.size :=
        (grows_of_run hlater).1
      have hcapacity : jobs.capacity ≤ r.shared.capacity := (grows_of_run hbefore).2
      rw [StdVector.size_emplaceBack] at hsize
      have hwrap : UInt32.ofNat (r.shared.size + 1) ≠ 0 := by
        intro hzero
        have hmod := congrArg UInt32.toNat hzero
        rw [UInt32.toNat_ofNat_of_lt' (by omega)] at hmod
        cases hmod
      have hfits : r.shared.size < r.shared.capacity := by omega
      refine ⟨hwrap, ?_⟩
      cases d with
      | size => trivial
      | getJob jobIdx => trivial
      | getInfo ref => exact hfits
      | operate ref op => exact hfits

/-- The run of the two callers comes to its end, with an exception for the second one. -/
private theorem twoCallers_run :
    ∃ (c : CallersState SampleJob id DtoValue "S") (before after : List _),
      RunsTo id twoJobs twoCallers c ∧ c.shared.size = 3 ∧
      c.history = before ++ .returned 1 (.sendJobCommand 1 ⟨3⟩) (.error .oacTree) :: after := by
  have hsome : (sampleCalls.machine.run (.initial _ twoJobs) twoCallers).isSome := by rfl
  obtain ⟨c, hc⟩ := Option.isSome_iff_exists.mp hsome
  have hsize : c.shared.size = 3 :=
    sampleCalls.machine.observe_run (fun c ↦ c.shared.size) hc (by rfl)
  have hfourth := sampleCalls.machine.observe_run (fun c ↦ c.history[3]?) hc (by rfl)
  obtain ⟨before, after, hhistory⟩ := List.append_of_mem (List.mem_of_getElem? hfourth)
  exact ⟨c, before, after, runsTo_of_capacity (by decide) hc (Nat.le_of_eq hsize), hsize, hhistory⟩

end Room

section Runs

variable {V J JobInfo Activity : Type} [AnyValue V] [LawfulAnyValue V] [SupProtocol V]
  [LawfulSupProtocol V] [AnyValueConversion V] [LawfulAnyValueConversion V]
  [JobInfoCodec V JobInfo] [LawfulJobInfoCodec V] [IJob J JobInfo Activity] [LawfulIJob J]
  {growth : Nat → Nat} {serverPrefix : String} {jobs : StdVector J}

/-- A run of the callers is simulated by indivisible calls. -/
private theorem exists_indivisible [JobCommands] [LawfulJobCommands V]
    {c : CallersState J growth V serverPrefix} (hreached : Reached growth jobs c) :
    ∃ steps a, (indivisibleCalls V serverPrefix growth).machine.run (.initial _ jobs) steps =
      some a ∧ a.shared = c.shared ∧ a.history = c.history := by
  obtain ⟨actions, htolerated, hrun⟩ := hreached
  obtain ⟨steps, a, hsteps, hsim⟩ :=
    SharedObject.interleaved_atomic remoteCalls_linearizable htolerated hrun
  rw [indivisibleCalls_eq]
  exact ⟨steps, a, hsteps, hsim.shared, hsim.history⟩

/-- What a call has returned is its effect at a moment before its return. -/
private theorem exists_effect [JobCommands] [LawfulJobCommands V]
    {actions : List (ServiceAction RemoteCall (JobsEvent J Activity))}
    {c : CallersState J growth V serverPrefix} (hrun : RunsTo growth jobs actions c)
    {before after : List (Event RemoteCall (RemoteResult JobInfo) (JobsEvent J Activity))}
    {caller : Nat} {call : RemoteCall} {result : RemoteResult JobInfo call}
    (hreturned : c.history = before ++ .returned caller call result :: after) :
    ∃ now next, (interleavedCalls V serverPrefix growth).Moment jobs actions before caller call
      now next ∧ call.effect V serverPrefix now.shared = (result, next.shared) := by
  obtain ⟨now, next, hmoment, halone⟩ := SharedObject.takesEffect_of_returned
    remoteCalls_linearizable hrun.tolerated hrun.run hreturned
  have heffect := (runAlone_remoteCall call now.shared).symm.trans halone
  exact ⟨now, next, hmoment, Option.some.inj heffect⟩

/-- As long as `AddJob` neither takes the 32-bit number of jobs back to zero during a call nor
moves the jobs while a call refers to one of them, no call of the jobs is without a defined
behaviour, and the callers cannot tell the run from one in which every remote call is one step,
which leaves the same jobs behind. -/
theorem remote_calls_indivisible [JobCommands] [LawfulJobCommands V]
    {c : CallersState J growth V serverPrefix} (hreached : Reached growth jobs c) :
    (∀ caller call d next, c.calls caller = some ⟨call, .call d next⟩ →
      (serveJobs d c.shared).isSome) ∧
    ∃ steps a, (indivisibleCalls V serverPrefix growth).machine.run (.initial _ jobs) steps =
      some a ∧ a.shared = c.shared ∧ a.history = c.history := by
  refine ⟨fun caller call d next hcall ↦ ?_, exists_indivisible hreached⟩
  obtain ⟨actions, htolerated, hrun⟩ := hreached
  exact SharedObject.interleaved_serves remoteCalls_linearizable htolerated hrun hcall

/-- Both calls can be taken for single steps. -/
theorem remote_calls_indivisible_two_callers :
    ∃ c, sampleCalls.machine.run (.initial _ twoJobs) twoCallers = some c ∧
      ∃ steps a, (indivisibleCalls DtoValue "S" id).machine.run (.initial _ twoJobs) steps =
        some a ∧ a.shared = c.shared ∧ a.history = c.history := by
  obtain ⟨c, -, -, hrun, -⟩ := twoCallers_run
  exact ⟨c, hrun.run, (remote_calls_indivisible hrun.reached).2⟩

/-- The exceptions of the server itself, for an index or a command that it does not know, never
reach a caller: an exception behind the protocols is one that the job of the call threw when it
was operated, at a moment between the call and its return. -/
theorem remote_exceptions [JobCommands] [LawfulJobCommands V]
    {actions : List (ServiceAction RemoteCall (JobsEvent J Activity))}
    {c : CallersState J growth V serverPrefix} (hrun : RunsTo growth jobs actions c)
    {before after : List (Event RemoteCall (RemoteResult JobInfo) (JobsEvent J Activity))}
    {caller : Nat} {call : RemoteCall} {e : Exception}
    (hreturned : c.history = before ++ .returned caller call (.error e) :: after) :
    ∃ now next, (interleavedCalls V serverPrefix growth).Moment jobs actions before caller call
        now next ∧
      ∃ jobIdx op job, call.operation = some (jobIdx, op) ∧
        now.shared.elements[jobIdx.toNat]? = some job ∧ (op.run job).1 = .error e ∧
        next.shared = now.shared.set jobIdx.toNat (op.run job).2 := by
  obtain ⟨now, next, hmoment, heffect⟩ := exists_effect hrun hreturned
  exact ⟨now, next, hmoment, effect_error heffect⟩

/-- The exception is that of a reset of the second job. -/
theorem remote_exceptions_two_callers :
    ∃ (c : sampleCalls.State) (before after : List _),
      sampleCalls.machine.run (.initial _ twoJobs) twoCallers = some c ∧
      c.history = before ++ .returned 1 (.sendJobCommand 1 ⟨3⟩) (.error .oacTree) :: after ∧
      ∃ now next, sampleCalls.Moment twoJobs twoCallers before 1 (.sendJobCommand 1 ⟨3⟩) now next ∧
        ∃ job, now.shared.elements[1]? = some job ∧
          (JobOperation.reset.run job).1 = .error .oacTree := by
  obtain ⟨c, before, after, hrun, -, hreturned⟩ := twoCallers_run
  obtain ⟨now, next, hmoment, jobIdx, op, job, hop, hjob, herror, -⟩ :=
    remote_exceptions hrun hreturned
  cases hop
  exact ⟨c, before, after, hrun.run, hreturned, now, next, hmoment, job, hjob, herror⟩

/-- The limit of all this: while a caller refers to a job, another job can be added without
making the pending call undefined exactly when the vector of the jobs has capacity left. -/
theorem addJob_during_call [JobCommands] [LawfulJobCommands V]
    {c : CallersState J growth V serverPrefix} (hreached : Reached growth jobs c)
    {caller : Nat} {call : RemoteCall} {d : JobsCall} {r : StdReference}
    {next : JobsAnswer JobInfo d → CallTree (JobsAnswer JobInfo) (RemoteResult JobInfo call)}
    (hcall : c.calls caller = some ⟨call, .call d next⟩)
    (hd : d = .getInfo r ∨ ∃ op, d = .operate r op) (job : J) :
    (serveJobs d (c.shared.emplaceBack growth job)).isSome ↔
      c.shared.size < c.shared.capacity := by
  obtain ⟨actions, htolerated, hrun⟩ := hreached
  have hserves := SharedObject.interleaved_serves remoteCalls_linearizable htolerated hrun hcall
  have hvalid : c.shared.Valid r := (serveJobs_isSome_iff hd).mp hserves
  rw [serveJobs_isSome_iff hd, StdVector.valid_emplaceBack_iff hvalid]

/-- The reference through which a caller is about to call a job. -/
private def pendingReference {JobInfo : Type} :
    Option (Σ call, CallTree (JobsAnswer JobInfo) (RemoteResult JobInfo call)) →
      Option StdReference
  | some ⟨_, .call (.getInfo r) _⟩ => some r
  | some ⟨_, .call (.operate r _) _⟩ => some r
  | _ => none

/-- A caller with such a reference is about to call a job. -/
private theorem exists_of_pendingReference {JobInfo : Type}
    {x : Option (Σ call, CallTree (JobsAnswer JobInfo) (RemoteResult JobInfo call))}
    {r : StdReference} (h : pendingReference x = some r) :
    ∃ call d, ∃ next : JobsAnswer JobInfo d → CallTree (JobsAnswer JobInfo) _,
      x = some ⟨call, .call d next⟩ ∧ (d = .getInfo r ∨ ∃ op, d = .operate r op) := by
  unfold pendingReference at h
  split at h
  · cases h
    exact ⟨_, _, _, rfl, .inl rfl⟩
  · cases h
    exact ⟨_, _, _, rfl, .inr ⟨_, rfl⟩⟩
  · cases h

/-- The same jobs, without room for another one. -/
private def twoJobsFull : StdVector SampleJob :=
  ⟨[⟨⟨1, 3⟩, [], false⟩, ⟨⟨0, 2⟩, [], true⟩], 2, 0, by decide⟩

/-- A third job is added in between the lookup of the first job and the query of its
information: the query goes to where the job was before. -/
theorem addJob_during_call_full :
    ∃ c call d, ∃ next : JobsAnswer SampleJobInfo d → CallTree (JobsAnswer SampleJobInfo) _,
      sampleCalls.machine.run (.initial _ twoJobsFull)
        [.invoke 0 (.getJobInfo 0), .advance 0, .advance 0] = some c ∧
      c.calls 0 = some ⟨call, .call d next⟩ ∧
      ¬ (serveJobs d (c.shared.emplaceBack id thirdJob)).isSome := by
  have hsome : (sampleCalls.machine.run (.initial _ twoJobsFull)
    [.invoke 0 (.getJobInfo 0), .advance 0, .advance 0]).isSome := by rfl
  obtain ⟨c, hc⟩ := Option.isSome_iff_exists.mp hsome
  have hpending : pendingReference (c.calls 0) = some ⟨0, 0⟩ :=
    sampleCalls.machine.observe_run (fun c ↦ pendingReference (c.calls 0)) hc (by rfl)
  have hsize : c.shared.size = 2 :=
    sampleCalls.machine.observe_run (fun c ↦ c.shared.size) hc (by rfl)
  have hcapacity : c.shared.capacity = 2 :=
    sampleCalls.machine.observe_run (fun c ↦ c.shared.capacity) hc (by rfl)
  obtain ⟨call, d, next, hcall, hd⟩ := exists_of_pendingReference hpending
  refine ⟨c, call, d, next, hc, hcall, ?_⟩
  have hreached := (runsTo_of_capacity (by decide) hc (Nat.le_of_eq hsize)).reached
  rw [addJob_during_call hreached hcall hd thirdJob, hsize, hcapacity]
  decide

end Runs

end OacTreeServer.Rpc
