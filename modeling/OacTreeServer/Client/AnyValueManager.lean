import OacTreeServer.Cpp.StdMap
import OacTreeServer.Job.JobInfoIo
import OacTreeServer.Protocol.ParseValueName

/-!
# The manager of the values on the side of the client

`ClientAnyValueManager` (`base/client_anyvalue_manager.cpp:54`) parses the name of each
value that is added, registers the handler of that kind of value and calls the handler
with every update. A handler decodes the value and calls the consumer `IJobInfoIO`; the
consumer is modelled by the calls that it has received.
-/

namespace OacTreeServer.Client
open OacTreeServer.Cpp OacTreeServer.External OacTreeServer.Job OacTreeServer.Protocol

/-- `AnyValueCallback`: the calls of the consumer that a value leads to;
`client_anyvalue_manager.h:45`. -/
abbrev AnyValueCallback (V IS : Type) := V → Except Exception (List (JobInfoCall V IS))

/-- `ClientAnyValueManager` with what its consumer has received;
`client_anyvalue_manager.h:42`. -/
structure ClientAnyValueManager (V IS : Type) where
  cbMap : NameMap (AnyValueCallback V IS)
  received : List (JobInfoCall V IS)

section Handlers

variable {V IS : Type} [AnyValue V] [OacTree V]

/-- `UpdateJobState`; `client_anyvalue_manager.cpp:191`. -/
def updateJobState (anyvalue : V) : Except Exception (List (JobInfoCall V IS)) := do
  if !AnyValue.validateMemberType anyvalue kJobStateField .unsignedInteger32 then
    return []
  let member ← AnyValue.member anyvalue kJobStateField
  let jobStateInt ← AnyValue.asUInt32 member
  return [.update (.jobStateUpdated ⟨jobStateInt⟩)]

/-- `UpdateInstructionState`, which ignores exceptions; `client_anyvalue_manager.cpp:203`. -/
def updateInstructionState [InstructionStateCodec V IS] (instrIdx : UInt32) (anyvalue : V) :
    Except Exception (List (JobInfoCall V IS)) :=
  match InstructionStateCodec.toInstructionState anyvalue with
  | .ok instrState => .ok [.update (.instructionStateUpdated instrIdx instrState)]
  | .error _ => .ok []

/-- `UpdateVariableState`; `client_anyvalue_manager.cpp:218`. -/
def updateVariableState (varIdx : UInt32) (anyvalue : V) :
    Except Exception (List (JobInfoCall V IS)) := do
  let (value, state) ← decodeVariableState anyvalue
  if AnyValue.isEmptyValue value then
    return []
  return [.update (.variableUpdated varIdx value state)]

/-- `UpdateLogEntry`; `client_anyvalue_manager.cpp:229`. -/
def updateLogEntry (anyvalue : V) : Except Exception (List (JobInfoCall V IS)) := do
  let (valid, logEntry) ← decodeLogEntry anyvalue
  if valid then
    return [.update (.log logEntry.severity logEntry.message)]
  return []

/-- `UpdateMessageEntry`; `client_anyvalue_manager.cpp:238`. -/
def updateMessageEntry (anyvalue : V) : Except Exception (List (JobInfoCall V IS)) := do
  let (valid, msgEntry) ← decodeMessageEntry anyvalue
  if valid then
    return [.update (.message msgEntry.message)]
  return []

/-- `UpdateOutputValueEntry`; `client_anyvalue_manager.cpp:247`. -/
def updateOutputValueEntry (anyvalue : V) : Except Exception (List (JobInfoCall V IS)) := do
  let (decoded, outputEntry) ← decodeOutputValueEntry anyvalue
  if decoded then
    return [.update (.putValue outputEntry.value outputEntry.description)]
  return []

/-- `UpdateBreakpointInstruction`; `client_anyvalue_manager.cpp:256`. -/
def updateBreakpointInstruction (anyvalue : V) : Except Exception (List (JobInfoCall V IS)) := do
  let (valid, instrIdx) ← decodeBreakpointInstructionIndex anyvalue
  if valid then
    return [.update (.breakpointInstructionUpdated instrIdx)]
  return []

/-- `CreateCallback`; `client_anyvalue_manager.cpp:143`. -/
def createCallback [InstructionStateCodec V IS] (valueNameInfo : ValueNameInfo) :
    AnyValueCallback V IS :=
  match valueNameInfo.valType with
  | .kJobStatus => updateJobState
  | .kInstruction => updateInstructionState valueNameInfo.idx
  | .kVariable => updateVariableState valueNameInfo.idx
  | .kLogEntry => updateLogEntry
  | .kMessageEntry => updateMessageEntry
  | .kOutputValueEntry => updateOutputValueEntry
  | .kBreakpointInstruction => updateBreakpointInstruction
  | .kUnknown => fun _ ↦ .ok []

/-- The job state that a value encodes. -/
def decodedJobState (anyvalue : V) : Option JobState :=
  if AnyValue.validateMemberType anyvalue kJobStateField .unsignedInteger32 then
    (AnyValue.member anyvalue kJobStateField >>= AnyValue.asUInt32).toOption.map JobState.mk
  else
    none

/-- The state of a variable that a value encodes; one with the empty value is none. -/
def decodedVariable (anyvalue : V) : Option (V × Bool) :=
  (decodeVariableState anyvalue).toOption.filter fun r ↦ !AnyValue.isEmptyValue r.1

/-- The value of a job state stands for it. -/
theorem decodedJobState_get [LawfulAnyValue V] (state : JobState) :
    decodedJobState (getJobStateValue state : V) = some state := by
  have h := hasMember_getJobStateValue (V := V) state
  unfold decodedJobState
  rw [if_pos (h.validate (LawfulAnyValue.hasType_ofUInt32 _)), h.member]
  simp [bind, Except.bind, LawfulAnyValue.asUInt32_ofUInt32, Except.toOption]

omit [OacTree V] in
/-- No report about a variable stands for its initial value. -/
theorem decodedVariable_kVariableAnyValue [LawfulAnyValue V] :
    decodedVariable (kVariableAnyValue V) = none := by
  have hempty : AnyValue.isEmptyValue (AnyValue.empty : V) = true :=
    (LawfulAnyValue.isEmptyValue_iff _).mpr rfl
  unfold decodedVariable
  rw [decodeVariableState_kVariableAnyValue]
  simp [Except.toOption, Option.filter, hempty]

/-- The result of a decoder that signals success by a flag. -/
def flagged {α : Type} (r : Except Exception (Bool × α)) : Option α :=
  (r.toOption.filter Prod.fst).map Prod.snd

/-- The breakpoint instruction that a value encodes. -/
def decodedBreakpointInstruction (anyvalue : V) : Option UInt32 :=
  flagged (decodeBreakpointInstructionIndex anyvalue)

/-- The state of an instruction that a value encodes. -/
def decodedInstructionState [InstructionStateCodec V IS] (anyvalue : V) : Option IS :=
  (InstructionStateCodec.toInstructionState anyvalue).toOption

/-- The report that a value stands for, if it decodes. -/
def decodedUpdate [InstructionStateCodec V IS] (valueNameInfo : ValueNameInfo) (anyvalue : V) :
    Option (JobUpdate V IS) :=
  match valueNameInfo.valType with
  | .kJobStatus => (decodedJobState anyvalue).map .jobStateUpdated
  | .kInstruction =>
    (decodedInstructionState anyvalue).map (.instructionStateUpdated valueNameInfo.idx)
  | .kVariable =>
    (decodedVariable anyvalue).map fun r ↦ .variableUpdated valueNameInfo.idx r.1 r.2
  | .kLogEntry =>
    (flagged (decodeLogEntry anyvalue)).map fun entry ↦ .log entry.severity entry.message
  | .kMessageEntry =>
    (flagged (decodeMessageEntry anyvalue)).map fun entry ↦ .message entry.message
  | .kOutputValueEntry => (flagged (decodeOutputValueEntry anyvalue)).map
      fun entry ↦ .putValue entry.value entry.description
  | .kBreakpointInstruction =>
    (decodedBreakpointInstruction anyvalue).map .breakpointInstructionUpdated
  | .kUnknown => none

/-- The reports that the values of a set stand for. -/
def initialUpdates [InstructionStateCodec V IS] (nameValueSet : NameAnyValueSet V) :
    List (JobUpdate V IS) :=
  nameValueSet.flatMap fun entry ↦ (decodedUpdate (parseValueName entry.1) entry.2).toList

omit [AnyValue V] [OacTree V] in
/-- A handler behind a decoder with a flag. -/
private theorem handler_eq {α : Type} {r : Except Exception (Bool × α)}
    (hr : ∃ a, r = .ok a) (f : α → JobUpdate V IS) :
    (do
      let (valid, entry) ← r
      if valid then
        return [JobInfoCall.update (f entry)]
      return []) = Except.ok (((flagged r).map f).toList.map JobInfoCall.update) := by
  obtain ⟨⟨valid, entry⟩, rfl⟩ := hr
  cases valid <;> rfl

/-- A handler calls the consumer with the report that the value stands for. It never throws. -/
theorem createCallback_eq [LawfulAnyValue V] [InstructionStateCodec V IS] (info : ValueNameInfo)
    (v : V) :
    createCallback info v = .ok ((decodedUpdate info v).toList.map JobInfoCall.update) := by
  unfold createCallback decodedUpdate
  cases info.valType with
  | kUnknown => rfl
  | kJobStatus =>
    dsimp only
    unfold updateJobState decodedJobState
    cases hvalid : AnyValue.validateMemberType v kJobStateField .unsignedInteger32 with
    | false => rfl
    | true =>
      obtain ⟨w, hw, ht⟩ := member_of_validateMemberType hvalid
      obtain ⟨n, hn⟩ := LawfulAnyValue.asUInt32_of_hasType w ht
      simp [hw, hn, bind, Except.bind, pure, Except.pure, Except.toOption]
  | kInstruction =>
    dsimp only
    unfold updateInstructionState decodedInstructionState
    cases InstructionStateCodec.toInstructionState v <;> rfl
  | kVariable =>
    dsimp only
    unfold updateVariableState decodedVariable
    obtain ⟨⟨value, state⟩, hr⟩ := decodeVariableState_ok v
    rw [hr]
    cases hempty : AnyValue.isEmptyValue value <;>
      simp [hempty, bind, Except.bind, pure, Except.pure, Except.toOption, Option.filter]
  | kLogEntry =>
    exact handler_eq (decodeLogEntry_ok v) fun entry ↦ .log entry.severity entry.message
  | kMessageEntry => exact handler_eq (decodeMessageEntry_ok v) fun entry ↦ .message entry.message
  | kOutputValueEntry =>
    exact handler_eq (decodeOutputValueEntry_ok v) fun entry ↦
      .putValue entry.value entry.description
  | kBreakpointInstruction =>
    exact handler_eq (decodeBreakpointInstructionIndex_ok v) .breakpointInstructionUpdated

end Handlers

/-- The reports among the calls that a consumer has received. -/
def receivedUpdates {V IS : Type} (calls : List (JobInfoCall V IS)) : List (JobUpdate V IS) :=
  calls.filterMap fun
    | .update u => some u
    | _ => none

/-- The reports in a concatenation of calls. -/
theorem receivedUpdates_append {V IS : Type} (calls more : List (JobInfoCall V IS)) :
    receivedUpdates (calls ++ more) = receivedUpdates calls ++ receivedUpdates more :=
  List.filterMap_append

/-- The reports among calls that are all reports. -/
@[simp] theorem receivedUpdates_map {V IS : Type} (us : List (JobUpdate V IS)) :
    receivedUpdates (us.map JobInfoCall.update) = us := by
  simp [receivedUpdates]

/-- The answers of a consumer that is asked for user input. -/
structure JobInfoAnswers (V : Type) where
  getUserValue : UInt64 → V → String → Bool × V
  getUserChoice : UInt64 → List String → V → Int32

namespace ClientAnyValueManager

variable {V IS : Type}

/-- Construction; `client_anyvalue_manager.cpp:54`. -/
def new : ClientAnyValueManager V IS := ⟨∅, []⟩

/-- The consumer is called. -/
def receive (manager : ClientAnyValueManager V IS) (calls : List (JobInfoCall V IS)) :
    ClientAnyValueManager V IS :=
  { manager with received := manager.received ++ calls }

/-- Assignment to the map of callbacks. -/
def setCallback (manager : ClientAnyValueManager V IS) (name : String)
    (cb : AnyValueCallback V IS) : ClientAnyValueManager V IS :=
  { manager with cbMap := manager.cbMap.insert name cb }

section Definitions

variable [AnyValue V] [OacTree V] [InstructionStateCodec V IS]

/-- The loop of `AddAnyValues`: `none` when a name was known already, else the number of
instructions; `client_anyvalue_manager.cpp:64`. -/
def addEach (manager : ClientAnyValueManager V IS) (nInstr : UInt32) :
    NameAnyValueSet V → Except Exception (Option UInt32 × ClientAnyValueManager V IS)
  | [] => .ok (some nInstr, manager)
  | (name, value) :: rest =>
    match manager.cbMap[name]? with
    | some _ => .ok (none, manager)
    | none => do
      let valueNameInfo := parseValueName name
      let nInstr := if valueNameInfo.valType = .kInstruction then nInstr + 1 else nInstr
      let cb := createCallback valueNameInfo
      let calls ← cb value
      ((manager.receive calls).setCallback name cb).addEach nInstr rest

/-- `AddAnyValues`; `client_anyvalue_manager.cpp:61`. -/
def addAnyValues (manager : ClientAnyValueManager V IS) (nameValueSet : NameAnyValueSet V) :
    Except Exception (Bool × ClientAnyValueManager V IS) := do
  match ← manager.addEach 0 nameValueSet with
  | (none, manager) => return (false, manager)
  | (some nInstr, manager) =>
    if 0 < nInstr then
      return (true, manager.receive [.initNumberOfInstructions nInstr])
    return (true, manager)

/-- `AddInputHandler`; `client_anyvalue_manager.cpp:86`. -/
def addInputHandler (manager : ClientAnyValueManager V IS) (_inputServerName : String) :
    Bool × ClientAnyValueManager V IS :=
  (true, manager)

/-- `UpdateAnyValue`; `client_anyvalue_manager.cpp:92`. -/
def updateAnyValue (manager : ClientAnyValueManager V IS) (name : String) (value : V) :
    Except Exception (Bool × ClientAnyValueManager V IS) :=
  match manager.cbMap[name]? with
  | none => .ok (false, manager)
  | some cb => do
    let calls ← cb value
    return (true, manager.receive calls)

/-- `GetUserInput`; `client_anyvalue_manager.cpp:103`. -/
def getUserInput (manager : ClientAnyValueManager V IS) (answers : JobInfoAnswers V)
    (_inputServerName : String) (id : UInt64) (request : UserInputRequest V) :
    UserInputReply V × ClientAnyValueManager V IS :=
  if request.requestType = OacTree.kUserValue V then
    match OacTree.parseUserValueRequest request with
    | some (value, description) =>
      let (result, reply) := answers.getUserValue id value description
      (OacTree.createUserValueReply result reply,
        manager.receive [.getUserValue id value description])
    | none => (OacTree.kInvalidUserInputReply, manager)
  else if request.requestType = OacTree.kUserChoice V then
    match OacTree.parseUserChoiceRequest request with
    | some (options, metadata) =>
      (OacTree.createUserChoiceReply true (answers.getUserChoice id options metadata),
        manager.receive [.getUserChoice id options metadata])
    | none => (OacTree.kInvalidUserInputReply, manager)
  else
    (OacTree.kInvalidUserInputReply, manager)

/-- `Interrupt`; `client_anyvalue_manager.cpp:137`. -/
def interrupt (manager : ClientAnyValueManager V IS) (_inputServerName : String) (id : UInt64) :
    ClientAnyValueManager V IS :=
  manager.receive [.interrupt id]

instance : IAnyValueManager (ClientAnyValueManager V IS) V where
  addAnyValues := addAnyValues
  addInputHandler manager inputServerName := .ok (manager.addInputHandler inputServerName)
  updateAnyValue := updateAnyValue

end Definitions

/-- The consumer receives calls in the order in which they are made. -/
@[simp] theorem receive_receive (manager : ClientAnyValueManager V IS)
    (calls more : List (JobInfoCall V IS)) :
    (manager.receive calls).receive more = manager.receive (calls ++ more) := by
  simp [receive, List.append_assoc]

/-- No call changes nothing. -/
@[simp] theorem receive_nil (manager : ClientAnyValueManager V IS) :
    manager.receive [] = manager := by
  simp [receive]

/-- A call of the consumer does not change the callbacks. -/
@[simp] theorem cbMap_receive (manager : ClientAnyValueManager V IS)
    (calls : List (JobInfoCall V IS)) : (manager.receive calls).cbMap = manager.cbMap := rfl

/-- The consumer has received the new calls last. -/
@[simp] theorem received_receive (manager : ClientAnyValueManager V IS)
    (calls : List (JobInfoCall V IS)) :
    (manager.receive calls).received = manager.received ++ calls := rfl

/-- Assignment of a callback does not call the consumer. -/
@[simp] theorem received_setCallback (manager : ClientAnyValueManager V IS) (name : String)
    (cb : AnyValueCallback V IS) : (manager.setCallback name cb).received = manager.received := rfl

/-- Assignment of a callback is seen under its name only. -/
theorem getElem?_cbMap_setCallback (manager : ClientAnyValueManager V IS) (name other : String)
    (cb : AnyValueCallback V IS) :
    (manager.setCallback name cb).cbMap[other]? =
      if name = other then some cb else manager.cbMap[other]? :=
  NameMap.getElem?_insert manager.cbMap name other cb

variable [AnyValue V] [LawfulAnyValue V] [OacTree V] [InstructionStateCodec V IS]

/-- The loop over distinct, unknown names registers the callback of each of them and calls
it with the initial value. -/
theorem addEach_fresh {nameValueSet : NameAnyValueSet V}
    {manager : ClientAnyValueManager V IS} (nInstr : UInt32)
    (hnodup : (nameValueSet.map Prod.fst).Nodup)
    (hnew : ∀ name ∈ nameValueSet.map Prod.fst, manager.cbMap[name]? = none) :
    ∃ (n : UInt32) (manager' : ClientAnyValueManager V IS),
      manager.addEach nInstr nameValueSet = .ok (some n, manager') ∧
      (∀ name, manager'.cbMap[name]? = if name ∈ nameValueSet.map Prod.fst then
        some (createCallback (parseValueName name)) else manager.cbMap[name]?) ∧
      manager'.received = manager.received ++ (initialUpdates nameValueSet).map .update := by
  induction nameValueSet generalizing manager nInstr with
  | nil => exact ⟨nInstr, manager, rfl, by simp, by simp [initialUpdates]⟩
  | cons entry rest ih =>
    obtain ⟨name, value⟩ := entry
    rw [List.map_cons, List.nodup_cons] at hnodup
    have hname : manager.cbMap[name]? = none := hnew name List.mem_cons_self
    -- the loop goes on behind the assignment to the name of this entry
    have hadd : ∀ calls : List (JobInfoCall V IS), ∀ other ∈ rest.map Prod.fst,
        ((manager.receive calls).setCallback name
          (createCallback (parseValueName name))).cbMap[other]? = none := by
      intro calls other ho
      rw [getElem?_cbMap_setCallback, if_neg]
      · exact hnew other (List.mem_cons_of_mem _ ho)
      · rintro rfl
        exact hnodup.1 ho
    obtain ⟨n, manager', hrun, hmap, hreceived⟩ := ih
      (if (parseValueName name).valType = .kInstruction then nInstr + 1 else nInstr)
      hnodup.2 (hadd _)
    refine ⟨n, manager', ?_, ?_, ?_⟩
    · rw [addEach, hname]
      dsimp only
      rw [createCallback_eq]
      exact hrun
    · intro other
      rw [hmap, getElem?_cbMap_setCallback, cbMap_receive]
      by_cases ho : name = other
      · subst ho
        simp
      · rw [if_neg ho]
        simp only [List.map_cons, List.mem_cons, Ne.symm ho, false_or]
    · rw [hreceived, received_setCallback, received_receive]
      simp [initialUpdates]

/-- A set of distinct, unknown names is added, with the callback of each of them. The
consumer receives the reports that the values stand for, and then possibly the number of
instructions. -/
theorem addAnyValues_fresh {nameValueSet : NameAnyValueSet V}
    {manager : ClientAnyValueManager V IS} (hnodup : (nameValueSet.map Prod.fst).Nodup)
    (hnew : ∀ name ∈ nameValueSet.map Prod.fst, manager.cbMap[name]? = none) :
    ∃ manager' : ClientAnyValueManager V IS,
      manager.addAnyValues nameValueSet = .ok (true, manager') ∧
      (∀ name, manager'.cbMap[name]? = if name ∈ nameValueSet.map Prod.fst then
        some (createCallback (parseValueName name)) else manager.cbMap[name]?) ∧
      receivedUpdates manager'.received =
        receivedUpdates manager.received ++ initialUpdates nameValueSet := by
  obtain ⟨n, manager', hrun, hmap, hreceived⟩ := addEach_fresh 0 hnodup hnew
  unfold addAnyValues
  rw [hrun]
  by_cases hn : 0 < n
  · refine ⟨manager'.receive [.initNumberOfInstructions n], ?_, hmap, ?_⟩
    · simp [bind, Except.bind, pure, Except.pure, hn]
    · rw [received_receive, hreceived]
      simp [receivedUpdates]
  · refine ⟨manager', ?_, hmap, ?_⟩
    · simp [bind, Except.bind, pure, Except.pure, hn]
    · rw [hreceived]
      simp [receivedUpdates]

/-- The loop never throws. -/
private theorem addEach_ok (nameValueSet : NameAnyValueSet V)
    (manager : ClientAnyValueManager V IS) (nInstr : UInt32) :
    ∃ result, manager.addEach nInstr nameValueSet = .ok result := by
  induction nameValueSet generalizing manager nInstr with
  | nil => exact ⟨_, rfl⟩
  | cons entry rest ih =>
    rw [addEach]
    cases manager.cbMap[entry.1]? with
    | some cb => exact ⟨_, rfl⟩
    | none =>
      dsimp only
      rw [createCallback_eq]
      exact ih _ _

/-- `AddAnyValues` never throws, whatever values it is given. -/
theorem addAnyValues_ok (manager : ClientAnyValueManager V IS)
    (nameValueSet : NameAnyValueSet V) :
    ∃ (added : Bool) (manager' : ClientAnyValueManager V IS),
      manager.addAnyValues nameValueSet = .ok (added, manager') := by
  unfold addAnyValues
  obtain ⟨⟨result, manager'⟩, hrun⟩ := addEach_ok nameValueSet manager 0
  rw [hrun]
  cases result with
  | none => exact ⟨_, _, rfl⟩
  | some nInstr =>
    by_cases hn : 0 < nInstr
    · exact ⟨_, _, if_pos hn⟩
    · exact ⟨_, _, if_neg hn⟩

/-- An update of a known value calls the consumer with what the value stands for. -/
theorem updateAnyValue_of_some {manager : ClientAnyValueManager V IS} {name : String}
    {info : ValueNameInfo} (h : manager.cbMap[name]? = some (createCallback info)) (value : V) :
    manager.updateAnyValue name value =
      .ok (true, manager.receive ((decodedUpdate info value).toList.map .update)) := by
  rw [updateAnyValue, h]
  dsimp only
  rw [createCallback_eq]
  rfl

omit [LawfulAnyValue V] [OacTree V] [AnyValue V] [InstructionStateCodec V IS] in
/-- An update of an unknown value does nothing. -/
theorem updateAnyValue_of_none {manager : ClientAnyValueManager V IS} {name : String}
    (h : manager.cbMap[name]? = none) (value : V) :
    manager.updateAnyValue name value = .ok (false, manager) := by
  rw [updateAnyValue, h]

end ClientAnyValueManager
end OacTreeServer.Client
