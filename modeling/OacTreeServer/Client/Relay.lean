import OacTreeServer.Client.AnyValueManager
import OacTreeServer.External.Reference

/-!
# Relay of the reports about a job

A `ServerJobInfoIO` directly over a `ClientAnyValueManager`, as in
`test/unit/job_info_io_server_client_tests.cpp`: what is reported on the side of the
server is received by the consumer on the side of the client. Lost are the reports whose
index is out of range, the ticks, and the states of variables without a value.
-/

namespace OacTreeServer.Client
open OacTreeServer.External OacTreeServer.Job OacTreeServer.Protocol

variable {V IS : Type}

/-- The connected flags that are reported for a variable. -/
def connectedFlags (varIdx : UInt32) (us : List (JobUpdate V IS)) : List Bool :=
  us.filterMap fun
    | .variableUpdated i _ connected => if i = varIdx then some connected else none
    | _ => none

/-- The flags of a concatenation. -/
private theorem connectedFlags_append (varIdx : UInt32) (us vs : List (JobUpdate V IS)) :
    connectedFlags varIdx (us ++ vs) = connectedFlags varIdx us ++ connectedFlags varIdx vs :=
  List.filterMap_append

/-- Without reports about variables there are no flags. -/
private theorem connectedFlags_eq_nil {varIdx : UInt32} {us : List (JobUpdate V IS)}
    (h : ∀ value connected, JobUpdate.variableUpdated varIdx value connected ∉ us) :
    connectedFlags varIdx us = [] := by
  unfold connectedFlags
  rw [List.filterMap_eq_nil_iff]
  intro u hu
  cases u with
  | variableUpdated i value connected =>
    have hi : i ≠ varIdx := by
      rintro rfl
      exact h value connected hu
    simp [hi]
  | _ => rfl

variable [AnyValue V]

/-- The report is not about a variable without a value. -/
def carriesValue : JobUpdate V IS → Bool
  | .variableUpdated _ value _ => !AnyValue.isEmptyValue value
  | _ => true

/-- The reports that reach the client of a job with that many variables and instructions. -/
def isRelayed (nVars nInstr : UInt32) : JobUpdate V IS → Bool
  | .instructionStateUpdated instrIdx _ => instrIdx < nInstr
  | .variableUpdated varIdx value _ => varIdx < nVars && !AnyValue.isEmptyValue value
  | .procedureTicked => false
  | _ => true

/-- The states of a variable of the job are relayed if they have a value. -/
private theorem connectedFlags_isRelayed {nVars nInstr varIdx : UInt32} (hi : varIdx < nVars)
    (us : List (JobUpdate V IS)) :
    connectedFlags varIdx (us.filter (isRelayed nVars nInstr)) =
      connectedFlags varIdx (us.filter carriesValue) := by
  unfold connectedFlags
  rw [List.filterMap_filter, List.filterMap_filter]
  congr 1
  funext u
  cases u with
  | variableUpdated i value connected =>
    by_cases hvar : i = varIdx
    · subst hvar
      simp [isRelayed, carriesValue, hi]
    · simp [hvar]
  | _ => simp

variable [OacTree V] [InstructionStateCodec V IS]

/-- The manager knows the values of one job and nothing else. -/
def HoldsJob (pre : String) (nVars nInstr : UInt32) (manager : ClientAnyValueManager V IS) :
    Prop :=
  ∀ name, manager.cbMap[name]? =
    if name ∈ (jobKinds nVars nInstr).map (channelName pre) then
      some (createCallback (parseValueName name))
    else
      none

/-- A `ServerJobInfoIO` is constructed over a new client and told the number of
instructions. -/
def serveClient (pre : String) (nVars nInstr : UInt32) :
    Except Exception (ServerJobInfoIo × ClientAnyValueManager V IS) := do
  let (io, manager) ← ServerJobInfoIo.new pre nVars .new
  let manager ← io.initNumberOfInstructions manager nInstr
  return (io, manager)

variable {pre : String} {nVars nInstr : UInt32} {manager : ClientAnyValueManager V IS}

/-- A call of the consumer keeps the values that the manager knows. -/
theorem HoldsJob.receive (h : HoldsJob pre nVars nInstr manager)
    (calls : List (JobInfoCall V IS)) : HoldsJob pre nVars nInstr (manager.receive calls) := h

/-- A report is relayed if its channel is one of the job and it carries a value. -/
theorem isRelayed_publication {io : ServerJobInfoIo} {u : JobUpdate V IS}
    {kind : ChannelKind} {value : V} (h : io.publication u = some (kind, value)) :
    isRelayed nVars nInstr u = (decide (kind ∈ jobKinds nVars nInstr) && carriesValue u) := by
  cases u with
  | procedureTicked => cases h
  | _ =>
    cases h
    simp [isRelayed, carriesValue, mem_jobKinds]

/-- Only the value of a variable stands for a report about it. -/
theorem decodedUpdate_variable {info : ValueNameInfo} {anyvalue value : V} {varIdx : UInt32}
    {connected : Bool}
    (h : decodedUpdate info anyvalue = some (.variableUpdated varIdx value connected)) :
    info = ⟨.kVariable, varIdx⟩ ∧ decodedVariable anyvalue = some (value, connected) := by
  obtain ⟨valType, idx⟩ := info
  cases valType with
  | kVariable =>
    obtain ⟨r, hr, heq⟩ := Option.map_eq_some_iff.mp h
    cases heq
    exact ⟨rfl, hr⟩
  | kUnknown => cases h
  | _ =>
    obtain ⟨r, -, heq⟩ := Option.map_eq_some_iff.mp h
    cases heq

variable [LawfulAnyValue V]

/-- An update of a value of the job calls the consumer with what the value stands for; any
other update of a channel of the job does nothing. -/
theorem HoldsJob.updateAnyValue (h : HoldsJob pre nVars nInstr manager) (hp : pre ≠ "")
    (kind : ChannelKind) (value : V) :
    manager.updateAnyValue (channelName pre kind) value =
      .ok (if kind ∈ jobKinds nVars nInstr then
        (true, manager.receive ((decodedUpdate kind.valueNameInfo value).toList.map .update))
      else (false, manager)) := by
  by_cases hk : kind ∈ jobKinds nVars nInstr
  · rw [if_pos hk]
    apply ClientAnyValueManager.updateAnyValue_of_some
    rw [h, if_pos (channelName_mem_map.mpr hk), parseValueName_channelName hp]
  · rw [if_neg hk]
    apply ClientAnyValueManager.updateAnyValue_of_none
    rw [h, if_neg (channelName_mem_map.not.mpr hk)]

/-- Registration of a job at a new client makes the client know its values. The consumer
receives the reports that the initial values stand for. -/
theorem serveClient_ok (pre : String) (nVars nInstr : UInt32) :
    ∃ manager : ClientAnyValueManager V IS,
      serveClient pre nVars nInstr = .ok (⟨pre, nVars, .new, .new, .new⟩, manager) ∧
      HoldsJob pre nVars nInstr manager ∧
      receivedUpdates manager.received =
        initialUpdates (getInitialValueSet pre nVars : NameAnyValueSet V) ++
          initialUpdates (getInstructionValueSet pre nInstr : NameAnyValueSet V) := by
  -- the values of the job itself
  have hnodup : ((getInitialValueSet pre nVars : NameAnyValueSet V).map Prod.fst).Nodup := by
    rw [getInitialValueSet_names]
    exact nodup_channelNames (nodup_initialKinds nVars)
  obtain ⟨m₀, hadd₀, hmap₀, hreceived₀⟩ : ∃ m₀ : ClientAnyValueManager V IS, _ :=
    ClientAnyValueManager.addAnyValues_fresh hnodup
      (show ∀ name ∈ _, ClientAnyValueManager.new.cbMap[name]? = none by
        simp [ClientAnyValueManager.new])
  rw [getInitialValueSet_names] at hmap₀
  -- the values of its instructions
  have hnodup' : ((getInstructionValueSet pre nInstr : NameAnyValueSet V).map Prod.fst).Nodup := by
    rw [getInstructionValueSet_names]
    exact nodup_channelNames (nodup_instructionKinds nInstr)
  have hnew : ∀ name ∈ (getInstructionValueSet pre nInstr : NameAnyValueSet V).map Prod.fst,
      m₀.cbMap[name]? = none := by
    intro name hname
    rw [getInstructionValueSet_names] at hname
    obtain ⟨kind, hkind, rfl⟩ := List.mem_map.mp hname
    rw [hmap₀, if_neg (channelName_mem_map.not.mpr (notMem_initialKinds hkind))]
    simp [ClientAnyValueManager.new]
  obtain ⟨m₁, hadd₁, hmap₁, hreceived₁⟩ :=
    ClientAnyValueManager.addAnyValues_fresh hnodup' hnew
  rw [getInstructionValueSet_names] at hmap₁
  refine ⟨m₁, ?_, ?_, ?_⟩
  · have hjob : initializeJobAndVariables (.new : ClientAnyValueManager V IS) pre nVars = .ok m₀ :=
      initializeJobAndVariables_ok hadd₀ rfl
    have hinstr : initializeInstructions m₀ pre nInstr = .ok m₁ :=
      initializeInstructions_ok hadd₁
    unfold serveClient ServerJobInfoIo.new
    rw [hjob]
    change (initializeInstructions m₀ pre nInstr >>= _) = _
    rw [hinstr]
    rfl
  · intro name
    rw [hmap₁, hmap₀, jobKinds, List.map_append]
    by_cases hinstr : name ∈ (instructionKinds nInstr).map (channelName pre)
    · simp [hinstr]
    · simp [hinstr, ClientAnyValueManager.new]
  · rw [hreceived₁, hreceived₀]
    rfl

/-- No initial value of a job stands for a report about a variable. -/
private theorem initialUpdates_variable (hp : pre ≠ "") {varIdx : UInt32} {value : V}
    {connected : Bool} :
    JobUpdate.variableUpdated varIdx value connected ∉
      (initialUpdates (getInitialValueSet pre nVars : NameAnyValueSet V) : List (JobUpdate V IS)) ∧
    JobUpdate.variableUpdated varIdx value connected ∉
      (initialUpdates (getInstructionValueSet pre nInstr : NameAnyValueSet V) :
        List (JobUpdate V IS)) := by
  have hinfo (kind : ChannelKind) (anyvalue : V)
      (h : .variableUpdated varIdx value connected ∈ (decodedUpdate
        (parseValueName (channelName pre kind)) anyvalue : Option (JobUpdate V IS)).toList) :
      kind.valueNameInfo.valType = .kVariable ∧
        decodedVariable anyvalue = some (value, connected) := by
    rw [Option.mem_toList, parseValueName_channelName hp] at h
    obtain ⟨hkind, hvalue⟩ := decodedUpdate_variable h
    exact ⟨congrArg ValueNameInfo.valType hkind, hvalue⟩
  constructor
  · intro h
    obtain ⟨⟨name, anyvalue⟩, hentry, h⟩ := List.mem_flatMap.mp h
    simp only [getInitialValueSet, List.mem_append, List.mem_cons, List.not_mem_nil, or_false,
      Prod.mk.injEq, List.mem_map] at hentry
    rcases hentry with (⟨rfl, rfl⟩ | ⟨rfl, rfl⟩ | ⟨rfl, rfl⟩ | ⟨rfl, rfl⟩ | ⟨rfl, rfl⟩) |
      ⟨i, -, rfl, rfl⟩
    · cases (hinfo .jobState _ h).1
    · cases (hinfo .breakpointInstruction _ h).1
    · cases (hinfo .logEntry _ h).1
    · cases (hinfo .messageEntry _ h).1
    · cases (hinfo .outputValueEntry _ h).1
    · have hvalue := (hinfo (.variableState i) _ h).2
      rw [decodedVariable_kVariableAnyValue] at hvalue
      cases hvalue
  · intro h
    obtain ⟨⟨name, anyvalue⟩, hentry, h⟩ := List.mem_flatMap.mp h
    obtain ⟨i, -, hentry⟩ := List.mem_map.mp hentry
    cases hentry
    cases (hinfo (.instructionState i) _ h).1

/-- A client that was just registered has received no report about any variable. -/
private theorem connectedFlags_initial (hp : pre ≠ "") (varIdx : UInt32) :
    connectedFlags varIdx
      ((initialUpdates (getInitialValueSet pre nVars : NameAnyValueSet V) ++
        initialUpdates (getInstructionValueSet pre nInstr : NameAnyValueSet V)) :
        List (JobUpdate V IS)) = [] := by
  apply connectedFlags_eq_nil
  intro value connected
  rw [List.mem_append, not_or]
  exact initialUpdates_variable hp

variable [LawfulOacTree V] [LawfulInstructionStateCodec V]

/-- What is published for a report stands for this report, unless the value of a variable
is empty. -/
theorem decodedUpdate_publication {io : ServerJobInfoIo} {u : JobUpdate V IS}
    {kind : ChannelKind} {value : V} (h : io.publication u = some (kind, value)) :
    decodedUpdate kind.valueNameInfo value = if carriesValue u then some u else none := by
  cases u with
  | instructionStateUpdated instrIdx state =>
    cases h
    change (InstructionStateCodec.toInstructionState
      (InstructionStateCodec.toAnyValue state : V)).toOption.map _ = _
    rw [LawfulInstructionStateCodec.toInstructionState_toAnyValue]
    rfl
  | breakpointInstructionUpdated instrIdx =>
    cases h
    change (flagged (decodeBreakpointInstructionIndex
      (getBreakpointInstructionValue instrIdx : V))).map _ = _
    rw [decodeBreakpointInstructionIndex_get]
    rfl
  | variableUpdated varIdx v connected =>
    cases h
    change ((decodeVariableState (encodeVariableState v connected)).toOption.filter _).map _ = _
    rw [decodeVariableState_encode]
    cases hempty : AnyValue.isEmptyValue v <;>
      simp [carriesValue, hempty, Except.toOption, Option.filter, ChannelKind.valueNameInfo]
  | jobStateUpdated state =>
    cases h
    change (decodedJobState (getJobStateValue state : V)).map _ = _
    rw [decodedJobState_get]
    rfl
  | putValue v description =>
    cases h
    change (flagged (decodeOutputValueEntry (encodeOutputValueEntry _))).map _ = _
    rw [decodeOutputValueEntry_encode]
    rfl
  | message message =>
    cases h
    change (flagged (decodeMessageEntry (encodeMessageEntry _ : V))).map _ = _
    rw [decodeMessageEntry_encode]
    rfl
  | log severity message =>
    cases h
    change (flagged (decodeLogEntry (encodeLogEntry _ : V))).map _ = _
    rw [decodeLogEntry_encode]
    rfl
  | procedureTicked => cases h

/-- One report to the server is received by the consumer of the client, if it is relayed. -/
theorem HoldsJob.perform {io : ServerJobInfoIo} (hp : pre ≠ "") (hio : io.jobPrefix = pre)
    (h : HoldsJob pre nVars nInstr manager) (u : JobUpdate V IS) :
    io.perform manager u = .ok (io.afterUpdate u,
      manager.receive (([u].filter (isRelayed nVars nInstr)).map .update)) := by
  rw [ServerJobInfoIo.perform_eq, hio]
  cases hpub : io.publication u with
  | none =>
    have hticked : isRelayed nVars nInstr u = false := by
      cases u <;> first | rfl | cases hpub
    simp [hticked]
  | some publication =>
    obtain ⟨kind, value⟩ := publication
    change Except.map _ (manager.updateAnyValue (channelName pre kind) value) = _
    rw [h.updateAnyValue hp, decodedUpdate_publication hpub, List.filter_singleton,
      isRelayed_publication hpub]
    by_cases hkind : kind ∈ jobKinds nVars nInstr
    · cases carriesValue u <;> simp [Except.map, hkind]
    · simp [Except.map, hkind]

/-- All reports to the server are relayed in their order. -/
theorem HoldsJob.performAll {io : ServerJobInfoIo} (hp : pre ≠ "") (hio : io.jobPrefix = pre)
    (h : HoldsJob pre nVars nInstr manager) (us : List (JobUpdate V IS)) :
    ∃ io', io.performAll manager us =
      .ok (io', manager.receive ((us.filter (isRelayed nVars nInstr)).map .update)) := by
  induction us generalizing io manager with
  | nil => exact ⟨io, by simp [ServerJobInfoIo.performAll]⟩
  | cons u us ih =>
    have hnext : (io.afterUpdate u).jobPrefix = pre := by
      rw [ServerJobInfoIo.jobPrefix_afterUpdate, hio]
    obtain ⟨io', hrun⟩ := ih hnext
      (h.receive (([u].filter (isRelayed nVars nInstr)).map .update))
    refine ⟨io', ?_⟩
    rw [ServerJobInfoIo.performAll, h.perform hp hio]
    refine hrun.trans ?_
    rw [ClientAnyValueManager.receive_receive, ← List.map_append, ← List.filter_append]
    rfl

/-- Every report that is relayed is received exactly once, as it was made and in order, and
nothing else is received: the reports about instructions and variables with an index in
range and with a value, and all reports without an index. -/
theorem job_updates_relayed (hp : pre ≠ "") (nVars nInstr : UInt32) (us : List (JobUpdate V IS)) :
    ∃ (io io' : ServerJobInfoIo) (manager manager' : ClientAnyValueManager V IS),
      serveClient pre nVars nInstr = .ok (io, manager) ∧
      io.performAll manager us = .ok (io', manager') ∧
      manager'.received =
        manager.received ++ (us.filter (isRelayed nVars nInstr)).map .update := by
  obtain ⟨manager, hserve, hholds, -⟩ : ∃ manager : ClientAnyValueManager V IS, _ :=
    serveClient_ok pre nVars nInstr
  have hio : (⟨pre, nVars, .new, .new, .new⟩ : ServerJobInfoIo).jobPrefix = pre := rfl
  obtain ⟨io', hrun⟩ := hholds.performAll hp hio us
  exact ⟨_, io', manager, _, hserve, hrun, rfl⟩

/-- A mixed sequence of reports: an instruction out of range and a variable without a value
are not received, all others are. -/
theorem job_updates_relayed_mixed :
    ∃ (io io' : ServerJobInfoIo)
      (manager manager' : ClientAnyValueManager DtoValue (Bool × UInt32)),
      serveClient "JOB:" 2 1 = .ok (io, manager) ∧
      io.performAll manager [.variableUpdated 1 (.uint32 5) false,
        .instructionStateUpdated 1 (true, 3), .log 2 "started", .variableUpdated 0 .empty true,
        .instructionStateUpdated 0 (false, 1)] = .ok (io', manager') ∧
      manager'.received = manager.received ++ [.update (.variableUpdated 1 (.uint32 5) false),
        .update (.log 2 "started"), .update (.instructionStateUpdated 0 (false, 1))] :=
  job_updates_relayed (by decide) 2 1 _

/-- The connected flag of a variable that the client has seen last is that of the last
report with a value. -/
theorem last_connected_flag (hp : pre ≠ "") {varIdx : UInt32} (hi : varIdx < nVars)
    (nInstr : UInt32) (us : List (JobUpdate V IS)) :
    ∃ (io io' : ServerJobInfoIo) (manager manager' : ClientAnyValueManager V IS),
      serveClient pre nVars nInstr = .ok (io, manager) ∧
      io.performAll manager us = .ok (io', manager') ∧
      (connectedFlags varIdx (receivedUpdates manager'.received)).getLast? =
        (connectedFlags varIdx (us.filter carriesValue)).getLast? := by
  obtain ⟨manager, hserve, hholds, hreceived⟩ : ∃ manager : ClientAnyValueManager V IS, _ :=
    serveClient_ok pre nVars nInstr
  have hio : (⟨pre, nVars, .new, .new, .new⟩ : ServerJobInfoIo).jobPrefix = pre := rfl
  obtain ⟨io', hrun⟩ := hholds.performAll hp hio us
  refine ⟨_, io', manager, _, hserve, hrun, ?_⟩
  rw [ClientAnyValueManager.received_receive, receivedUpdates_append, hreceived,
    connectedFlags_append, connectedFlags_initial hp, List.nil_append, receivedUpdates_map,
    connectedFlags_isRelayed hi]

/-- A variable that changes its value and is then disconnected with it: the client sees the
disconnection. -/
theorem last_connected_flag_with_value :
    ∃ (io io' : ServerJobInfoIo)
      (manager manager' : ClientAnyValueManager DtoValue (Bool × UInt32)),
      serveClient "JOB:" 1 0 = .ok (io, manager) ∧
      io.performAll manager [.variableUpdated 0 (.uint32 5) true,
        .variableUpdated 0 (.uint32 5) false] = .ok (io', manager') ∧
      (connectedFlags 0 (receivedUpdates manager'.received)).getLast? = some false :=
  last_connected_flag (by decide) (by decide) 0 _

/-- A disconnection that is reported with the empty value is hidden from the client: it
still sees the variable connected. -/
theorem disconnection_without_value_hidden :
    ∃ (io io' : ServerJobInfoIo)
      (manager manager' : ClientAnyValueManager DtoValue (Bool × UInt32)),
      serveClient "JOB:" 1 0 = .ok (io, manager) ∧
      io.performAll manager [.variableUpdated 0 (.uint32 5) true,
        .variableUpdated 0 .empty false] = .ok (io', manager') ∧
      (connectedFlags 0 (receivedUpdates manager'.received)).getLast? = some true := by
  obtain ⟨manager, hserve, hholds, -⟩ :
      ∃ manager : ClientAnyValueManager DtoValue (Bool × UInt32), _ := serveClient_ok "JOB:" 1 0
  have hio : (⟨"JOB:", 1, .new, .new, .new⟩ : ServerJobInfoIo).jobPrefix = "JOB:" := rfl
  obtain ⟨io', hrun⟩ := hholds.performAll (by decide) hio
    [.variableUpdated 0 (.uint32 5) true, .variableUpdated 0 .empty false]
  refine ⟨_, io', manager, _, hserve, hrun, ?_⟩
  rw [ClientAnyValueManager.received_receive, receivedUpdates_append, receivedUpdates_map,
    connectedFlags_append, List.getLast?_append]
  rfl

end OacTreeServer.Client
