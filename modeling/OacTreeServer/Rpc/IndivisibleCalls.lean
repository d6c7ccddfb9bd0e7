import OacTreeServer.Rpc.RemoteJobs

/-!
# Remote calls as single steps

However the calls of the jobs that make up the remote calls of many callers interleave with each
other, with `AddJob` and with the jobs themselves, the callers see the answers and the server is
left with the jobs of a run in which every remote call is one step. What that step does says
nothing about protocols: the call is refused without an effect, or it is the operation of a job.
-/

namespace OacTreeServer.Rpc
open OacTreeServer.Cpp OacTreeServer.External OacTreeServer.Library OacTreeServer.Protocol
  OacTreeServer.Server

section Effects

open AutomationProtocolClient

variable {J JobInfo Activity : Type} [IJob J JobInfo Activity]

/-- The job of this index, if the server says that it has one. -/
def knownJob (jobs : StdVector J) (jobIdx : UInt32) : Option J :=
  if HasJob jobIdx jobs then jobs.elements[jobIdx.toNat]? else none

/-- What the operation of a job gives: its exception, or else a result for the client. -/
def answerOf (job : J) (op : JobOperation) : Except Exception (Except Exception Unit) :=
  (op.run job).1.map Except.ok

/-- The operation of a job of the server. -/
def operated (jobs : StdVector J) (jobIdx : UInt32) (job : J) (op : JobOperation) :
    Except Exception (Except Exception Unit) × StdVector J :=
  (answerOf job op, jobs.set jobIdx.toNat (op.run job).2)

variable (V : Type) [AnyValue V] [SupProtocol V] [JobInfoCodec V JobInfo] [JobCommands]
  (serverPrefix : String)

/-- What a remote call is for, without the protocols that carry it. -/
def RemoteCall.effect (jobs : StdVector J) :
    (call : RemoteCall) → RemoteResult JobInfo call × StdVector J
  | .getServerPrefix => (.ok (.ok serverPrefix), jobs)
  | .getNumberOfJobs => (.ok (.ok (UInt32.ofNat jobs.size)), jobs)
  | .getJobInfo jobIdx =>
    match knownJob jobs jobIdx with
    | none => (.ok (.error (protocolError V "GetJobInfo" (unknownJob V))), jobs)
    | some job => (.ok (.ok (IJob.getInfo job)), jobs)
  | .editBreakpoint jobIdx instrIdx breakpointActive =>
    match knownJob jobs jobIdx with
    | none => (.ok (.error (protocolError V "EditBreakpoint" (unknownJob V))), jobs)
    | some job =>
      if instrIdx < JobInfoCodec.getNumberOfInstructions V (IJob.getInfo job) then
        operated jobs jobIdx job
          (if breakpointActive then .setBreakpoint instrIdx else .removeBreakpoint instrIdx)
      else
        (.ok (.error (protocolError V "EditBreakpoint" (unknownInstruction V))), jobs)
  | .sendJobCommand jobIdx command =>
    match knownJob jobs jobIdx with
    | none => (.ok (.error (protocolError V "SendJobCommand" (unknownJob V))), jobs)
    | some job =>
      match AutomationServer.commandOperation command with
      | none => (.ok (.error (protocolError V "SendJobCommand" (unknownJobCommand V))), jobs)
      | some op => operated jobs jobIdx job op

/-- The operation that a call asks for, with the index of the job. -/
def RemoteCall.operation : RemoteCall → Option (UInt32 × JobOperation)
  | .editBreakpoint jobIdx instrIdx breakpointActive => some (jobIdx,
      if breakpointActive then .setBreakpoint instrIdx else .removeBreakpoint instrIdx)
  | .sendJobCommand jobIdx command =>
    (AutomationServer.commandOperation command).map (Prod.mk jobIdx)
  | _ => none

/-- The answer to a call and the jobs behind it, when this is the job of this index: what the job
is, the refusal of an instruction or a command that it does not have, or else the operation of
the job. -/
def RemoteCall.Expects (jobIdx : UInt32) (job : J) (jobs : StdVector J) :
    (call : RemoteCall) → RemoteResult JobInfo call × StdVector J → Prop
  | .getServerPrefix, answer => answer = (.ok (.ok serverPrefix), jobs)
  | .getNumberOfJobs, answer => ∃ nJobs, answer = (.ok (.ok nJobs), jobs) ∧ jobIdx < nJobs
  | .getJobInfo requested, answer => requested = jobIdx →
    answer = (.ok (.ok (IJob.getInfo job)), jobs)
  | .editBreakpoint requested instrIdx breakpointActive, answer => requested = jobIdx →
    answer = if instrIdx < JobInfoCodec.getNumberOfInstructions V (IJob.getInfo job) then
        operated jobs jobIdx job
          (if breakpointActive then .setBreakpoint instrIdx else .removeBreakpoint instrIdx)
      else
        (.ok (.error (protocolError V "EditBreakpoint" (unknownInstruction V))), jobs)
  | .sendJobCommand requested command, answer => requested = jobIdx →
    answer = match AutomationServer.commandOperation command with
      | some op => operated jobs jobIdx job op
      | none => (.ok (.error (protocolError V "SendJobCommand" (unknownJobCommand V))), jobs)

/-- The remote calls of any number of callers, each of them one step. -/
def indivisibleCalls (growth : Nat → Nat) :
    Service RemoteCall (RemoteResult JobInfo) (JobsEvent J Activity) (StdVector J) where
  Phase call := Option (RemoteResult JobInfo call)
  start _ := none
  advance call phase jobs :=
    match phase with
    | some _ => none
    | none =>
      let (result, jobs') := call.effect V serverPrefix jobs
      some (some result, jobs')
  result _ phase := phase
  disturb := disturbJobs growth

/-- The remote calls of any number of callers, as they are carried out by the server. -/
abbrev interleavedCalls [AnyValueConversion V] (growth : Nat → Nat) :
    Service RemoteCall (RemoteResult JobInfo) (JobsEvent J Activity) (StdVector J) :=
  (sharedJobs growth).interleaved (remoteCall V serverPrefix)

end Effects

section Alone

variable {J JobInfo Activity A : Type} [IJob J JobInfo Activity] {jobs : StdVector J}
  {jobIdx : UInt32}

/-- A job that the server says it has. -/
private theorem knownJob_of_hasJob
    (h : HasJob jobIdx jobs) : ∃ job, jobs.elements[jobIdx.toNat]? = some job ∧
      knownJob jobs jobIdx = some job := by
  refine ⟨_, List.getElem?_eq_getElem h.lt_size, ?_⟩
  rw [knownJob, if_pos h]
  exact List.getElem?_eq_getElem h.lt_size

/-- A job that it does not have. -/
private theorem knownJob_of_not_hasJob
    (h : ¬ HasJob jobIdx jobs) : knownJob jobs jobIdx = none := if_neg h

/-- A known job is one of the jobs. -/
private theorem getElem?_of_knownJob {job : J}
    (h : knownJob jobs jobIdx = some job) : jobs.elements[jobIdx.toNat]? = some job := by
  unfold knownJob at h
  split at h
  · exact h
  · cases h

/-- A checked call without interruption. -/
private theorem runAlone_checkTree (refusal : Exception)
    (next : CallTree (JobsAnswer JobInfo) (Except Exception (Except Exception A))) :
    CallTree.runAlone serveJobs (checkTree jobIdx refusal next) jobs =
      if HasJob jobIdx jobs then CallTree.runAlone serveJobs next jobs
      else some (.ok (.error refusal), jobs) := by
  change CallTree.runAlone serveJobs (if HasJob jobIdx jobs then _ else _) jobs = _
  by_cases h : HasJob jobIdx jobs
  · rw [if_pos h, if_pos h]
  · rw [if_neg h, if_neg h]
    rfl

/-- The lookup of a job without interruption. -/
private theorem runAlone_lookupTree (h : HasJob jobIdx jobs) (lost : Exception → A)
    (next : StdReference → CallTree (JobsAnswer JobInfo) A) :
    CallTree.runAlone serveJobs (lookupTree jobIdx lost next) jobs =
      CallTree.runAlone serveJobs (next (jobs.reference jobIdx.toNat)) jobs := by
  have hserve : serveJobs (.getJob jobIdx) jobs =
      some ((.ok (jobs.reference jobIdx.toNat), jobs) :
        JobsAnswer JobInfo (.getJob jobIdx) × StdVector J) := by
    rw [serveJobs, getJob_of_hasJob h]
  exact CallTree.runAlone_call hserve

/-- The information about a job without interruption. -/
private theorem runAlone_getInfo {r : StdReference} {job : J} (h : jobs.deref r = some job)
    (next : JobInfo → CallTree (JobsAnswer JobInfo) A) :
    CallTree.runAlone serveJobs (.call (.getInfo r) next) jobs =
      CallTree.runAlone serveJobs (next (IJob.getInfo job)) jobs :=
  CallTree.runAlone_call (serveJobs_getInfo h)

/-- One operation of a job without interruption. -/
private theorem runAlone_operate {r : StdReference} {job : J} (h : jobs.deref r = some job)
    (op : JobOperation) (end' : Except Exception Unit → A) :
    CallTree.runAlone serveJobs
        (.call (.operate r op) fun answer ↦ .done (end' answer) :
          CallTree (JobsAnswer JobInfo) A) jobs =
      some (end' (op.run job).1, jobs.set r.position (op.run job).2) :=
  CallTree.runAlone_call (serveJobs_operate h op)

/-- The lookup of a job and of its information without interruption. -/
private theorem runAlone_getInfoTree (h : HasJob jobIdx jobs) {info : JobInfo}
    (hinfo : HasInfo jobIdx info jobs) (lost : Exception → A)
    (next : JobInfo → CallTree (JobsAnswer JobInfo) A) :
    CallTree.runAlone serveJobs (getInfoTree jobIdx lost next) jobs =
      CallTree.runAlone serveJobs (next info) jobs := by
  obtain ⟨job, hjob, rfl⟩ := Option.map_eq_some_iff.mp hinfo
  rw [getInfoTree, runAlone_lookupTree h]
  apply runAlone_getInfo
  rw [StdVector.deref_of_valid (StdVector.valid_reference h.lt_size)]
  exact hjob

/-- The check of an index and the information about the job without interruption. -/
private theorem runAlone_checked_getInfoTree (h : HasJob jobIdx jobs) {info : JobInfo}
    (hinfo : HasInfo jobIdx info jobs) (refusal : Exception)
    (next : JobInfo → CallTree (JobsAnswer JobInfo) (Except Exception (Except Exception A))) :
    CallTree.runAlone serveJobs
        (checkTree jobIdx refusal (getInfoTree jobIdx .error next)) jobs =
      CallTree.runAlone serveJobs (next info) jobs :=
  (runAlone_checkTree refusal _).trans
    ((if_pos h).trans (runAlone_getInfoTree h hinfo .error next))

/-- The lookup of a job and one operation of it without interruption. -/
private theorem runAlone_operateTree (h : HasJob jobIdx jobs) {job : J}
    (hjob : jobs.elements[jobIdx.toNat]? = some job) (op : JobOperation) (lost : Exception → A)
    (end' : Except Exception Unit → A) :
    CallTree.runAlone serveJobs (operateTree jobIdx op lost end' :
        CallTree (JobsAnswer JobInfo) A) jobs =
      some (end' (op.run job).1, jobs.set jobIdx.toNat (op.run job).2) := by
  rw [operateTree, runAlone_lookupTree h]
  apply runAlone_operate
  rw [StdVector.deref_of_valid (StdVector.valid_reference h.lt_size)]
  exact hjob

end Alone

section Answers

variable {V J JobInfo Activity : Type} [SupProtocol V] [JobInfoCodec V JobInfo] [JobCommands]
  [IJob J JobInfo Activity] {serverPrefix : String}

/-- An exception of the server is one of the job that was operated. -/
theorem effect_error {call : RemoteCall} {jobs after : StdVector J} {e : Exception}
    (h : call.effect V serverPrefix jobs = (.error e, after)) :
    ∃ jobIdx op job, call.operation = some (jobIdx, op) ∧
      jobs.elements[jobIdx.toNat]? = some job ∧ (op.run job).1 = .error e ∧
      after = jobs.set jobIdx.toNat (op.run job).2 := by
  have hoperated {jobIdx : UInt32} {job : J} {op : JobOperation}
      (h : operated jobs jobIdx job op = (.error e, after)) :
      (op.run job).1 = .error e ∧ after = jobs.set jobIdx.toNat (op.run job).2 := by
    obtain ⟨hanswer, hafter⟩ := Prod.mk.inj h
    refine ⟨?_, hafter.symm⟩
    unfold answerOf at hanswer
    cases hrun : (op.run job).1 with
    | error e' =>
      rw [hrun] at hanswer
      cases hanswer
      rfl
    | ok u =>
      rw [hrun] at hanswer
      cases hanswer
  cases call with
  | getServerPrefix => cases h
  | getNumberOfJobs => cases h
  | getJobInfo jobIdx =>
    rw [RemoteCall.effect] at h
    split at h <;> cases h
  | editBreakpoint jobIdx instrIdx breakpointActive =>
    rw [RemoteCall.effect] at h
    split at h
    · cases h
    · next job hknown =>
      split at h
      · exact ⟨_, _, job, rfl, getElem?_of_knownJob hknown, hoperated h⟩
      · cases h
  | sendJobCommand jobIdx command =>
    rw [RemoteCall.effect] at h
    split at h
    · cases h
    · next job hknown =>
      split at h
      · cases h
      · next op hop =>
        refine ⟨jobIdx, op, job, ?_, getElem?_of_knownJob hknown, hoperated h⟩
        rw [RemoteCall.operation, hop]
        rfl

/-- What a call answers about a known job. -/
theorem effect_expects {jobIdx : UInt32} {job : J} {jobs : StdVector J}
    (hjob : HasJob jobIdx jobs) (helement : jobs.elements[jobIdx.toNat]? = some job)
    (call : RemoteCall) :
    call.Expects V serverPrefix jobIdx job jobs (call.effect V serverPrefix jobs) := by
  have hknown : knownJob jobs jobIdx = some job := (if_pos hjob).trans helement
  cases call with
  | getServerPrefix => rfl
  | getNumberOfJobs => exact ⟨_, rfl, hjob⟩
  | getJobInfo requested =>
    rintro rfl
    rw [RemoteCall.effect, hknown]
  | editBreakpoint requested instrIdx breakpointActive =>
    rintro rfl
    rw [RemoteCall.effect, hknown]
  | sendJobCommand requested command =>
    rintro rfl
    rw [RemoteCall.effect, hknown]
    cases AutomationServer.commandOperation command with
    | none => rfl
    | some op => rfl

end Answers

section Linearizes

variable {J JobInfo Activity A : Type} [IJob J JobInfo Activity] {growth : Nat → Nat}
  {jobIdx : UInt32} {alone : StdVector J → Option (A × StdVector J)}
  {holds : StdVector J → Prop}

/-- A reference to a job that the server has. -/
private theorem valid_reference_of_hasJob {jobs : StdVector J} (h : HasJob jobIdx jobs) :
    jobs.Valid (jobs.reference jobIdx.toNat) :=
  StdVector.valid_reference h.lt_size

/-- Behind the lookup of a job there is a valid reference to it. -/
private theorem linearizes_lookupTree {lost : Exception → A}
    {next : StdReference → CallTree (JobsAnswer JobInfo) A}
    (hstable : ∀ c, (sharedJobs growth).Stable c holds)
    (hjob : ∀ jobs, holds jobs → HasJob jobIdx jobs)
    (hnext : ∀ r : StdReference, r.position = jobIdx.toNat →
      (sharedJobs growth).Linearizes alone (fun jobs ↦ holds jobs ∧ jobs.Valid r) (next r)) :
    (sharedJobs growth).Linearizes alone holds (lookupTree jobIdx lost next) := by
  refine ⟨hstable _, fun jobs hholds ↦ ⟨getJob jobs jobIdx, jobs, rfl, .inr ⟨rfl, ?_⟩⟩⟩
  refine ⟨fun jobs' ↦ holds jobs' ∧ jobs'.Valid (jobs.reference jobIdx.toNat),
    ⟨hholds, valid_reference_of_hasJob (hjob jobs hholds)⟩, ?_⟩
  rw [getJob_of_hasJob (hjob jobs hholds)]
  exact hnext _ rfl

/-- A valid reference is the one that a lookup returns now. -/
private theorem eq_reference {jobs : StdVector J} {r : StdReference} (h : jobs.Valid r)
    (hposition : r.position = jobIdx.toNat) : r = jobs.reference jobIdx.toNat := by
  rw [StdVector.reference, ← hposition, ← h.1]

/-- A lookup and an operation of a job take effect with the operation. -/
private theorem linearizes_operateTree {op : JobOperation} {lost : Exception → A}
    {end' : Except Exception Unit → A} (hstable : ∀ c, (sharedJobs growth).Stable c holds)
    (hjob : ∀ jobs, holds jobs → HasJob jobIdx jobs)
    (halone : ∀ jobs, holds jobs → alone jobs =
      CallTree.runAlone serveJobs (operateTree jobIdx op lost end') jobs) :
    (sharedJobs growth).Linearizes alone holds (operateTree jobIdx op lost end') := by
  refine linearizes_lookupTree hstable hjob fun r hposition ↦ ?_
  refine ⟨(hstable _).and (stable_valid (.inr ⟨op, rfl⟩)), fun jobs hholds ↦ ?_⟩
  obtain ⟨job, hderef⟩ := Option.isSome_iff_exists.mp (StdVector.deref_isSome.mpr hholds.2)
  refine ⟨(op.run job).1, jobs.set r.position (op.run job).2, serveJobs_operate hderef op,
    .inl ⟨_, rfl, ?_⟩⟩
  rw [halone jobs hholds.1, operateTree, runAlone_lookupTree (hjob jobs hholds.1),
    ← eq_reference hholds.2 hposition]
  exact runAlone_operate hderef op end'

/-- A lookup and a query of a job are queries. -/
private theorem linearizes_getInfoTree [LawfulIJob J] {lost : Exception → A}
    {next : JobInfo → CallTree (JobsAnswer JobInfo) A}
    (hstable : ∀ c, (sharedJobs growth).Stable c holds)
    (hjob : ∀ jobs, holds jobs → HasJob jobIdx jobs)
    (hnext : ∀ info, (∃ a, next info = .done a ∧
        ∀ jobs, holds jobs → HasInfo jobIdx info jobs → alone jobs = some (a, jobs)) ∨
      (sharedJobs growth).Linearizes alone
        (fun jobs ↦ holds jobs ∧ HasInfo jobIdx info jobs) (next info)) :
    (sharedJobs growth).Linearizes alone holds (getInfoTree jobIdx lost next) := by
  refine linearizes_lookupTree hstable hjob fun r hposition ↦ ?_
  refine ⟨(hstable _).and (stable_valid (.inl rfl)), fun jobs hholds ↦ ?_⟩
  obtain ⟨job, hderef⟩ := Option.isSome_iff_exists.mp (StdVector.deref_isSome.mpr hholds.2)
  have hinfo : HasInfo jobIdx (IJob.getInfo job) jobs := by
    rw [StdVector.deref_of_valid hholds.2, hposition] at hderef
    rw [HasInfo, hderef, Option.map_some]
  refine ⟨IJob.getInfo job, jobs, serveJobs_getInfo hderef, ?_⟩
  cases hnext (IJob.getInfo job) with
  | inl hdone =>
    obtain ⟨a, hdone, halone⟩ := hdone
    exact .inl ⟨a, hdone, halone jobs hholds.1 hinfo⟩
  | inr hlin => exact .inr ⟨rfl, _, ⟨hholds.1, hinfo⟩, hlin⟩

end Linearizes

section CheckLinearizes

variable {J JobInfo Activity A : Type} [IJob J JobInfo Activity] {growth : Nat → Nat}
  {jobIdx : UInt32}
  {alone : StdVector J → Option (Except Exception (Except Exception A) × StdVector J)}

/-- The check of an index is a query, or refuses the call. -/
private theorem linearizes_checkTree {refusal : Exception}
    {next : CallTree (JobsAnswer JobInfo) (Except Exception (Except Exception A))}
    (hrefused : ∀ jobs, ¬ HasJob jobIdx jobs → alone jobs = some (.ok (.error refusal), jobs))
    (hnext : (∃ a, next = .done a ∧
        ∀ jobs, HasJob jobIdx jobs → alone jobs = some (a, jobs)) ∨
      (sharedJobs growth).Linearizes alone (HasJob jobIdx) next) :
    (sharedJobs growth).Linearizes alone (fun _ ↦ True) (checkTree jobIdx refusal next) := by
  refine ⟨SharedObject.stable_true _ _, fun jobs _ ↦ ⟨jobs.size, jobs, rfl, ?_⟩⟩
  change (∃ a, (if HasJob jobIdx jobs then next else .done _) = .done a ∧ _) ∨
    _ ∧ ∃ holds', _ ∧ (sharedJobs growth).Linearizes alone holds'
      (if HasJob jobIdx jobs then next else .done _)
  by_cases hjob : HasJob jobIdx jobs
  · rw [if_pos hjob]
    cases hnext with
    | inl hdone =>
      obtain ⟨a, hdone, halone⟩ := hdone
      exact .inl ⟨a, hdone, halone jobs hjob⟩
    | inr hlin => exact .inr ⟨rfl, _, hjob, hlin⟩
  · rw [if_neg hjob]
    exact .inl ⟨_, rfl, hrefused jobs hjob⟩

end CheckLinearizes

section Atomicity

open AutomationProtocolClient

variable {V J JobInfo Activity : Type} [AnyValue V] [LawfulAnyValue V] [SupProtocol V]
  [LawfulSupProtocol V] [AnyValueConversion V] [LawfulAnyValueConversion V]
  [JobInfoCodec V JobInfo] [LawfulJobInfoCodec V] [JobCommands] [LawfulJobCommands V]
  [IJob J JobInfo Activity] [LawfulIJob J] {growth : Nat → Nat} {serverPrefix : String}

omit [AnyValue V] [LawfulAnyValue V] [SupProtocol V] [LawfulSupProtocol V]
  [AnyValueConversion V] [LawfulAnyValueConversion V] [LawfulJobInfoCodec V] in
/-- Every command in front of `kTerminate` stands for an operation. -/
private theorem commandOperation_of_lt {command : JobCommand}
    (h : command.code < (JobInfoCodec.kTerminate V).code) :
    ∃ op, AutomationServer.commandOperation command = some op := by
  have hmem := (LawfulJobCommands.lt_kTerminate_iff command).mp h
  simp only [List.mem_cons, List.not_mem_nil, or_false] at hmem
  rw [← Option.isSome_iff_exists]
  unfold AutomationServer.commandOperation
  split_ifs <;> simp_all

omit [AnyValue V] [LawfulAnyValue V] [SupProtocol V] [LawfulSupProtocol V]
  [AnyValueConversion V] [LawfulAnyValueConversion V] [LawfulJobInfoCodec V] in
/-- No other number does. -/
private theorem commandOperation_of_not_lt {command : JobCommand}
    (h : ¬ command.code < (JobInfoCodec.kTerminate V).code) :
    AutomationServer.commandOperation command = none := by
  have hmem := (not_congr (LawfulJobCommands.lt_kTerminate_iff command)).mp h
  simp only [List.mem_cons, List.not_mem_nil, or_false, not_or] at hmem
  obtain ⟨hstart, hstep, hpause, hreset, hhalt⟩ := hmem
  rw [AutomationServer.commandOperation, if_neg hstart, if_neg hstep, if_neg hpause,
    if_neg hreset, if_neg hhalt]

omit [LawfulIJob J] in
/-- A remote call without interruption is what it is for. -/
theorem runAlone_remoteCall (call : RemoteCall) (jobs : StdVector J) :
    CallTree.runAlone serveJobs (remoteCall V serverPrefix call) jobs =
      some (call.effect V serverPrefix jobs) := by
  cases call with
  | getServerPrefix =>
    rw [remoteCall_getServerPrefix]
    rfl
  | getNumberOfJobs =>
    rw [remoteCall_getNumberOfJobs]
    rfl
  | getJobInfo jobIdx =>
    rw [remoteCall_getJobInfo, RemoteCall.effect]
    by_cases h : HasJob jobIdx jobs
    · obtain ⟨job, hjob, hknown⟩ := knownJob_of_hasJob h
      have hinfo : HasInfo jobIdx (IJob.getInfo job) jobs := congrArg (Option.map _) hjob
      rw [hknown]
      exact runAlone_checked_getInfoTree h hinfo ..
    · rw [knownJob_of_not_hasJob h]
      exact (runAlone_checkTree ..).trans (if_neg h)
  | editBreakpoint jobIdx instrIdx breakpointActive =>
    rw [remoteCall_editBreakpoint, RemoteCall.effect]
    by_cases h : HasJob jobIdx jobs
    · obtain ⟨job, hjob, hknown⟩ := knownJob_of_hasJob h
      have hinfo : HasInfo jobIdx (IJob.getInfo job) jobs := congrArg (Option.map _) hjob
      rw [hknown]
      refine (runAlone_checked_getInfoTree h hinfo ..).trans ?_
      simp only
      by_cases hinstr :
          instrIdx < JobInfoCodec.getNumberOfInstructions V (IJob.getInfo job)
      · rw [if_pos hinstr, if_pos hinstr]
        exact runAlone_operateTree h hjob ..
      · rw [if_neg hinstr, if_neg hinstr]
        rfl
    · rw [knownJob_of_not_hasJob h]
      exact (runAlone_checkTree ..).trans (if_neg h)
  | sendJobCommand jobIdx command =>
    rw [RemoteCall.effect]
    by_cases hcode : command.code < (JobInfoCodec.kTerminate V).code
    · obtain ⟨op, hop⟩ := commandOperation_of_lt hcode
      rw [remoteCall_sendJobCommand jobIdx hop hcode, hop]
      by_cases h : HasJob jobIdx jobs
      · obtain ⟨job, hjob, hknown⟩ := knownJob_of_hasJob h
        rw [hknown]
        exact (runAlone_checkTree ..).trans ((if_pos h).trans (runAlone_operateTree h hjob ..))
      · rw [knownJob_of_not_hasJob h]
        exact (runAlone_checkTree ..).trans (if_neg h)
    · rw [remoteCall_sendJobCommand_unknown jobIdx hcode, commandOperation_of_not_lt hcode]
      by_cases h : HasJob jobIdx jobs
      · obtain ⟨job, hjob, hknown⟩ := knownJob_of_hasJob h
        rw [hknown]
        exact (runAlone_checkTree ..).trans (if_pos h)
      · rw [knownJob_of_not_hasJob h]
        exact (runAlone_checkTree ..).trans (if_neg h)

/-- Every remote call takes effect as a whole, with its last call of the jobs. -/
theorem remoteCalls_linearizable :
    (sharedJobs growth : SharedObject JobsCall (JobsAnswer JobInfo) (JobsEvent J Activity)
      (StdVector J)).Linearizable (remoteCall V serverPrefix) := by
  intro call jobs
  refine ⟨fun _ ↦ True, trivial, ?_⟩
  cases call with
  | getServerPrefix =>
    rw [remoteCall_getServerPrefix]
    intro jobs
    rfl
  | getNumberOfJobs =>
    rw [remoteCall_getNumberOfJobs]
    exact ⟨SharedObject.stable_true _ _, fun jobs _ ↦ ⟨jobs.size, jobs, rfl, .inl ⟨_, rfl, rfl⟩⟩⟩
  | getJobInfo jobIdx =>
    rw [remoteCall_getJobInfo]
    refine linearizes_checkTree (fun jobs h ↦ ?_) (.inr ?_)
    · exact (runAlone_checkTree ..).trans (if_neg h)
    · refine linearizes_getInfoTree (fun c ↦ stable_hasJob c jobIdx) (fun _ h ↦ h) fun info ↦
        .inl ⟨_, rfl, fun jobs h hinfo ↦ ?_⟩
      exact runAlone_checked_getInfoTree h hinfo ..
  | editBreakpoint jobIdx instrIdx breakpointActive =>
    rw [remoteCall_editBreakpoint]
    refine linearizes_checkTree (fun jobs h ↦ ?_) (.inr ?_)
    · exact (runAlone_checkTree ..).trans (if_neg h)
    · refine linearizes_getInfoTree (fun c ↦ stable_hasJob c jobIdx) (fun _ h ↦ h) fun info ↦ ?_
      by_cases hinstr : instrIdx < JobInfoCodec.getNumberOfInstructions V info
      · rw [if_pos hinstr]
        refine .inr (linearizes_operateTree
          (fun c ↦ (stable_hasJob c jobIdx).and (stable_hasInfo c jobIdx info))
          (fun _ h ↦ h.1) fun jobs h ↦ ?_)
        refine (runAlone_checked_getInfoTree h.1 h.2 ..).trans ?_
        rw [if_pos hinstr]
      · rw [if_neg hinstr]
        refine .inl ⟨_, rfl, fun jobs h hinfo ↦ ?_⟩
        refine (runAlone_checked_getInfoTree h hinfo ..).trans ?_
        rw [if_neg hinstr]
        rfl
  | sendJobCommand jobIdx command =>
    by_cases hcode : command.code < (JobInfoCodec.kTerminate V).code
    · obtain ⟨op, hop⟩ := commandOperation_of_lt hcode
      rw [remoteCall_sendJobCommand jobIdx hop hcode]
      refine linearizes_checkTree (fun jobs h ↦ ?_) (.inr ?_)
      · exact (runAlone_checkTree ..).trans (if_neg h)
      · exact linearizes_operateTree (fun c ↦ stable_hasJob c jobIdx) (fun _ h ↦ h)
          fun jobs h ↦ (runAlone_checkTree ..).trans (if_pos h)
    · rw [remoteCall_sendJobCommand_unknown jobIdx hcode]
      refine linearizes_checkTree (fun jobs h ↦ ?_) (.inl ⟨_, rfl, fun jobs h ↦ ?_⟩)
      · exact (runAlone_checkTree ..).trans (if_neg h)
      · exact (runAlone_checkTree ..).trans (if_pos h)

omit [LawfulIJob J] in
/-- A step of an indivisible call is the call without interruption. -/
theorem indivisibleCalls_eq :
    (indivisibleCalls V serverPrefix growth : Service _ _ (JobsEvent J Activity) _) =
      (sharedJobs growth).atomic (remoteCall V serverPrefix) := by
  unfold indivisibleCalls SharedObject.atomic
  congr
  funext call phase jobs
  cases phase with
  | some result => rfl
  | none =>
    change _ = (CallTree.runAlone serveJobs (remoteCall V serverPrefix call) jobs).map _
    rw [runAlone_remoteCall]
    rfl

end Atomicity

end OacTreeServer.Rpc
