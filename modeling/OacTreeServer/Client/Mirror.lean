import OacTreeServer.Client.Relay
import OacTreeServer.Library.LastWrite

/-!
# What a client shows of a job

The channels of a job are monitored one by one, so updates of different channels may
arrive in any order, and an update may be lost behind a later one of the same channel.
What a client shows is the last state of each entity that its consumer has received; it
depends on neither.
-/

namespace OacTreeServer.Client
open OacTreeServer.External OacTreeServer.Job OacTreeServer.Library OacTreeServer.Protocol

section Definitions

variable {V IS : Type}

/-- What is shown of a job: the last state of each entity, if there was any. -/
@[ext] structure Mirror (V IS : Type) where
  jobState : Option JobState
  breakpointInstruction : Option UInt32
  instructionState : UInt32 → Option IS
  variableState : UInt32 → Option (V × Bool)

/-- The job state in a report. -/
def reportedJobState : JobUpdate V IS → Option JobState
  | .jobStateUpdated state => some state
  | _ => none

/-- The breakpoint instruction in a report. -/
def reportedBreakpointInstruction : JobUpdate V IS → Option UInt32
  | .breakpointInstructionUpdated instrIdx => some instrIdx
  | _ => none

/-- The state of one instruction in a report. -/
def reportedInstructionState (index : UInt32) : JobUpdate V IS → Option IS
  | .instructionStateUpdated instrIdx state => if instrIdx = index then some state else none
  | _ => none

/-- The value of one variable in a report, and whether it is connected. -/
def reportedVariableState (index : UInt32) : JobUpdate V IS → Option (V × Bool)
  | .variableUpdated varIdx value connected =>
    if varIdx = index then some (value, connected) else none
  | _ => none

/-- The last state among the calls that a consumer has received. -/
def lastReported {S : Type} (read : JobUpdate V IS → Option S)
    (received : List (JobInfoCall V IS)) : Option S :=
  ((receivedUpdates received).filterMap read).getLast?

/-- What is shown after the calls that a consumer has received. -/
def mirror (received : List (JobInfoCall V IS)) : Mirror V IS where
  jobState := lastReported reportedJobState received
  breakpointInstruction := lastReported reportedBreakpointInstruction received
  instructionState i := lastReported (reportedInstructionState i) received
  variableState i := lastReported (reportedVariableState i) received

variable [AnyValue V] [OacTree V] [InstructionStateCodec V IS]

/-- What should be shown after updates of the values of a job: for each entity the decoding
of the last update on its own name that decodes, else what was shown before. -/
def Mirror.after (pre : String) (nVars nInstr : UInt32) (before : Mirror V IS)
    (updates : List (String × V)) : Mirror V IS where
  jobState :=
    (lastAccepted decodedJobState (getJobStatePVName pre) updates).or before.jobState
  breakpointInstruction :=
    (lastAccepted decodedBreakpointInstruction (getBreakpointInstructionPVName pre) updates).or
      before.breakpointInstruction
  instructionState i := if i < nInstr then
    (lastAccepted decodedInstructionState (getInstructionPVName pre i) updates).or
      (before.instructionState i) else before.instructionState i
  variableState i := if i < nVars then
    (lastAccepted decodedVariable (getVariablePVName pre i) updates).or
      (before.variableState i) else before.variableState i

/-- An update of a name decodes. -/
def Decodes (name : String) (anyvalue : V) : Prop :=
  (decodedUpdate (parseValueName name) anyvalue : Option (JobUpdate V IS)).isSome

/-- Updates one after the other. -/
def updateAll (manager : ClientAnyValueManager V IS) :
    List (String × V) → Except Exception (ClientAnyValueManager V IS)
  | [] => .ok manager
  | (name, value) :: updates => do
    let (_, manager) ← manager.updateAnyValue name value
    updateAll manager updates

/-- The reports that an update leads to at the client of a job. -/
def reportsOf (pre : String) (nVars nInstr : UInt32) (w : String × V) : List (JobUpdate V IS) :=
  if w.1 ∈ (jobKinds nVars nInstr).map (channelName pre) then
    (decodedUpdate (parseValueName w.1) w.2).toList
  else
    []

end Definitions

variable {V IS : Type} [AnyValue V] [OacTree V] [InstructionStateCodec V IS]
  {pre : String} {nVars nInstr : UInt32} {manager : ClientAnyValueManager V IS}

section Readers

variable (kind : ChannelKind) (v : V)

/-- Only the value of the job state is read as one. -/
private theorem bind_reportedJobState :
    (decodedUpdate kind.valueNameInfo v).bind reportedJobState =
      if kind = .jobState then decodedJobState v else none := by
  cases kind <;>
    simp [decodedUpdate, ChannelKind.valueNameInfo, unknownName, Option.bind_map,
      Function.comp_def, reportedJobState]

/-- Only the value of the breakpoint instruction is read as one. -/
private theorem bind_reportedBreakpointInstruction :
    (decodedUpdate kind.valueNameInfo v).bind reportedBreakpointInstruction =
      if kind = .breakpointInstruction then decodedBreakpointInstruction v else none := by
  cases kind <;>
    simp [decodedUpdate, ChannelKind.valueNameInfo, unknownName, Option.bind_map,
      Function.comp_def, reportedBreakpointInstruction]

/-- Only the value of an instruction is read as its state. -/
private theorem bind_reportedInstructionState (index : UInt32) :
    (decodedUpdate kind.valueNameInfo v).bind (reportedInstructionState index) =
      if kind = .instructionState index then decodedInstructionState v else none := by
  cases kind with
  | instructionState i =>
    by_cases hi : i = index <;>
      simp [decodedUpdate, ChannelKind.valueNameInfo, Option.bind_map, Function.comp_def,
        reportedInstructionState, hi]
  | _ =>
    simp [decodedUpdate, ChannelKind.valueNameInfo, unknownName, Option.bind_map,
      Function.comp_def, reportedInstructionState]

/-- Only the value of a variable is read as its state. -/
private theorem bind_reportedVariableState (index : UInt32) :
    (decodedUpdate kind.valueNameInfo v).bind (reportedVariableState index) =
      if kind = .variableState index then decodedVariable v else none := by
  cases kind with
  | variableState i =>
    by_cases hi : i = index <;>
      simp [decodedUpdate, ChannelKind.valueNameInfo, Option.bind_map, Function.comp_def,
        reportedVariableState, hi]
  | _ =>
    simp [decodedUpdate, ChannelKind.valueNameInfo, unknownName, Option.bind_map,
      Function.comp_def, reportedVariableState]

end Readers

/-- What is read from the reports is what the values of one channel decode to. -/
private theorem filterMap_reportsOf {S : Type} {read : JobUpdate V IS → Option S}
    {decode : V → Option S} {channel : ChannelKind} (hp : pre ≠ "")
    (hread : ∀ kind v, (decodedUpdate kind.valueNameInfo v).bind read =
      if kind = channel then decode v else none) (updates : List (String × V)) :
    (updates.flatMap (reportsOf pre nVars nInstr)).filterMap read =
      if channel ∈ jobKinds nVars nInstr then
        (writesTo (channelName pre channel) updates).filterMap decode
      else [] := by
  induction updates with
  | nil => split <;> rfl
  | cons w updates ih =>
    rw [List.flatMap_cons, List.filterMap_append, ih, writesTo_cons, List.filterMap_append]
    by_cases hknown : w.1 ∈ (jobKinds nVars nInstr).map (channelName pre)
    · obtain ⟨kind, hkind, hname⟩ := List.mem_map.mp hknown
      have hfilter (o : Option (JobUpdate V IS)) :
          o.toList.filterMap read = (o.bind read).toList := by
        cases o with
        | none => rfl
        | some u => cases h : read u <;> simp [h]
      rw [reportsOf, if_pos hknown, ← hname, parseValueName_channelName hp, hfilter, hread]
      by_cases hc : kind = channel
      · subst hc
        rw [if_pos rfl, if_pos hkind, if_pos rfl, if_pos hkind]
        cases h : decode w.2 <;> simp [h]
      · rw [if_neg hc, if_neg (channelName_inj.not.mpr hc)]
        rfl
    · have hne : channel ∈ jobKinds nVars nInstr → w.1 ≠ channelName pre channel := by
        rintro hc hw
        rw [hw] at hknown
        exact hknown (channelName_mem_map.mpr hc)
      rw [reportsOf, if_neg hknown]
      split
      · next hc =>
        rw [if_neg (hne hc)]
        rfl
      · rfl

/-- What is shown after updates, entity by entity. -/
private theorem lastReported_updateAll {S : Type} {read : JobUpdate V IS → Option S}
    {decode : V → Option S} {channel : ChannelKind} (hp : pre ≠ "")
    (hread : ∀ kind v, (decodedUpdate kind.valueNameInfo v).bind read =
      if kind = channel then decode v else none) (updates : List (String × V)) :
    lastReported read (manager.receive
      ((updates.flatMap (reportsOf pre nVars nInstr)).map .update)).received =
      if channel ∈ jobKinds nVars nInstr then
        (lastAccepted decode (channelName pre channel) updates).or
          (lastReported read manager.received)
      else lastReported read manager.received := by
  unfold lastReported lastAccepted
  rw [ClientAnyValueManager.received_receive, receivedUpdates_append, receivedUpdates_map,
    List.filterMap_append, List.getLast?_append, filterMap_reportsOf hp hread]
  split <;> rfl

variable [LawfulAnyValue V]

/-- One update at the client of a job leads to its reports. -/
theorem HoldsJob.updateAnyValue_reportsOf (h : HoldsJob pre nVars nInstr manager) (name : String)
    (value : V) :
    ∃ known, manager.updateAnyValue name value =
      .ok (known, manager.receive ((reportsOf pre nVars nInstr (name, value)).map .update)) := by
  by_cases hknown : name ∈ (jobKinds nVars nInstr).map (channelName pre)
  · refine ⟨true, ?_⟩
    rw [reportsOf, if_pos hknown]
    apply ClientAnyValueManager.updateAnyValue_of_some
    rw [h, if_pos hknown]
  · refine ⟨false, ?_⟩
    rw [reportsOf, if_neg hknown, List.map_nil, ClientAnyValueManager.receive_nil]
    apply ClientAnyValueManager.updateAnyValue_of_none
    rw [h, if_neg hknown]

/-- All updates at the client of a job lead to their reports, in order. -/
theorem HoldsJob.updateAll (h : HoldsJob pre nVars nInstr manager) (updates : List (String × V)) :
    updateAll manager updates =
      .ok (manager.receive ((updates.flatMap (reportsOf pre nVars nInstr)).map .update)) := by
  induction updates generalizing manager with
  | nil => simp [Client.updateAll]
  | cons w updates ih =>
    obtain ⟨name, value⟩ := w
    obtain ⟨known, hstep⟩ := h.updateAnyValue_reportsOf name value
    rw [Client.updateAll, hstep]
    refine (ih (h.receive _)).trans ?_
    rw [ClientAnyValueManager.receive_receive, List.flatMap_cons, List.map_append]

/-- After updates the client shows for each entity what its own last update decodes to. -/
theorem HoldsJob.mirror_updateAll (hp : pre ≠ "") (h : HoldsJob pre nVars nInstr manager)
    (updates : List (String × V)) :
    (Client.updateAll manager updates).map (fun m ↦ mirror m.received) =
      .ok ((mirror manager.received).after pre nVars nInstr updates) := by
  rw [h.updateAll]
  change Except.ok _ = _
  congr 1
  ext1
  · refine (lastReported_updateAll hp bind_reportedJobState updates).trans ?_
    rw [if_pos (mem_jobKinds.mpr trivial)]
    rfl
  · refine (lastReported_updateAll hp bind_reportedBreakpointInstruction updates).trans ?_
    rw [if_pos (mem_jobKinds.mpr trivial)]
    rfl
  · funext i
    refine (lastReported_updateAll hp (fun k v ↦ bind_reportedInstructionState k v i)
      updates).trans ?_
    simp only [mem_jobKinds]
    rfl
  · funext i
    refine (lastReported_updateAll hp (fun k v ↦ bind_reportedVariableState k v i)
      updates).trans ?_
    simp only [mem_jobKinds]
    rfl

omit [LawfulAnyValue V] in
/-- What is shown after updates depends on the updates of each single name only. -/
private theorem after_of_writesTo {before : Mirror V IS} {updates others : List (String × V)}
    (h : ∀ name, writesTo name others = writesTo name updates) :
    before.after pre nVars nInstr others = before.after pre nVars nInstr updates := by
  unfold Mirror.after lastAccepted
  simp only [h]

omit [LawfulAnyValue V] in
/-- What is shown after updates does not change when updates are dropped that a later one
of the same name makes up for. -/
private theorem after_of_coalesced (hp : pre ≠ "") {before : Mirror V IS}
    {updates others : List (String × V)}
    (h : Coalesced (Decodes (V := V)) updates others) :
    before.after pre nVars nInstr others = before.after pre nVars nInstr updates := by
  have hdecodes (kind : ChannelKind) (u : V) (hu : Decodes (channelName pre kind) u) :
      (decodedUpdate kind.valueNameInfo u : Option (JobUpdate V IS)).isSome := by
    rw [← parseValueName_channelName hp]
    exact hu
  have hjob : ∀ u : V, Decodes (getJobStatePVName pre) u → (decodedJobState u).isSome := by
    intro u hu
    simpa [decodedUpdate, ChannelKind.valueNameInfo] using hdecodes .jobState u hu
  have hbreakpoint : ∀ u : V, Decodes (getBreakpointInstructionPVName pre) u →
      (decodedBreakpointInstruction u).isSome := by
    intro u hu
    simpa [decodedUpdate, ChannelKind.valueNameInfo] using hdecodes .breakpointInstruction u hu
  have hinstr (i : UInt32) : ∀ u : V, Decodes (getInstructionPVName pre i) u →
      (decodedInstructionState u).isSome := by
    intro u hu
    simpa [decodedUpdate, ChannelKind.valueNameInfo] using hdecodes (.instructionState i) u hu
  have hvar (i : UInt32) : ∀ u : V, Decodes (getVariablePVName pre i) u →
      (decodedVariable u).isSome := by
    intro u hu
    simpa [decodedUpdate, ChannelKind.valueNameInfo] using hdecodes (.variableState i) u hu
  unfold Mirror.after
  rw [h.lastAccepted_eq hjob, h.lastAccepted_eq hbreakpoint]
  simp only [h.lastAccepted_eq (hinstr _), h.lastAccepted_eq (hvar _)]

/-- What a client shows of a job after updates with arbitrary values is for each entity what
the last update on its own name that decodes was decoded to, else what was shown before.
Hence it does not depend on the order of updates on different names, nor on updates that
are dropped before one of the same name that decodes. -/
theorem mirror_order_independent (hp : pre ≠ "") (h : HoldsJob pre nVars nInstr manager)
    (updates : List (String × V)) :
    (updateAll manager updates).map (fun m ↦ mirror m.received) =
        .ok ((mirror manager.received).after pre nVars nInstr updates) ∧
      (∀ others, (∀ name, writesTo name others = writesTo name updates) →
        (updateAll manager others).map (fun m ↦ mirror m.received) =
          (updateAll manager updates).map (fun m ↦ mirror m.received)) ∧
      ∀ others, Coalesced Decodes updates others →
        (updateAll manager others).map (fun m ↦ mirror m.received) =
          (updateAll manager updates).map (fun m ↦ mirror m.received) := by
  refine ⟨h.mirror_updateAll hp updates, ?_, ?_⟩
  · intro others hothers
    rw [h.mirror_updateAll hp, h.mirror_updateAll hp, after_of_writesTo hothers]
  · intro others hothers
    rw [h.mirror_updateAll hp, h.mirror_updateAll hp, after_of_coalesced hp hothers]

/-- Three updates, the last one malformed: the client shows what the first two decode to, in
whatever order they arrive. -/
theorem mirror_order_independent_malformed :
    ∃ (io : ServerJobInfoIo) (manager : ClientAnyValueManager DtoValue (Bool × UInt32))
      (shown : Mirror DtoValue (Bool × UInt32)),
      serveClient "JOB:" 1 0 = .ok (io, manager) ∧
      (updateAll manager [("JOB:STATE", getJobStateValue ⟨2⟩),
        ("JOB:VAR-0", encodeVariableState (.uint32 7) true),
        ("JOB:STATE", .string "malformed")]).map (fun m ↦ mirror m.received) = .ok shown ∧
      (updateAll manager [("JOB:VAR-0", encodeVariableState (.uint32 7) true),
        ("JOB:STATE", getJobStateValue ⟨2⟩),
        ("JOB:STATE", .string "malformed")]).map (fun m ↦ mirror m.received) = .ok shown ∧
      shown.jobState = some ⟨2⟩ ∧ shown.variableState 0 = some (.uint32 7, true) := by
  obtain ⟨manager, hserve, hholds, -⟩ :
      ∃ manager : ClientAnyValueManager DtoValue (Bool × UInt32), _ := serveClient_ok "JOB:" 1 0
  obtain ⟨hshown, horder, -⟩ := mirror_order_independent (by decide) hholds
    [("JOB:STATE", getJobStateValue ⟨2⟩), ("JOB:VAR-0", encodeVariableState (.uint32 7) true),
      ("JOB:STATE", .string "malformed")]
  refine ⟨_, manager, _, hserve, hshown, (horder _ ?_).trans hshown, rfl, rfl⟩
  intro name
  by_cases hvar : name = "JOB:VAR-0"
  · subst hvar
    rfl
  · simp [writesTo_cons, Ne.symm hvar]

/-- A variable state without a value decodes, but the client does not show it. -/
theorem variable_without_value_not_shown :
    ∃ (io : ServerJobInfoIo) (manager manager' : ClientAnyValueManager DtoValue (Bool × UInt32)),
      serveClient "JOB:" 1 0 = .ok (io, manager) ∧
      updateAll manager [("JOB:VAR-0", encodeVariableState .empty true)] = .ok manager' ∧
      decodeVariableState (encodeVariableState .empty true : DtoValue) = .ok (.empty, true) ∧
      (mirror manager'.received).variableState 0 = none := by
  obtain ⟨manager, hserve, hholds, hreceived⟩ :
      ∃ manager : ClientAnyValueManager DtoValue (Bool × UInt32), _ := serveClient_ok "JOB:" 1 0
  refine ⟨_, manager, _, hserve, hholds.updateAll _, rfl, ?_⟩
  change lastReported (reportedVariableState 0) _ = none
  unfold lastReported
  rw [ClientAnyValueManager.received_receive, receivedUpdates_append, receivedUpdates_map,
    hreceived, ← Option.isNone_iff_eq_none]
  decide +kernel

end OacTreeServer.Client
