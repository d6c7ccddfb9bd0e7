import OacTreeServer.Client.Relay
import OacTreeServer.External.PvAccessClient
import OacTreeServer.Input.InputProtocol

/-!
# Monitors of the values of a job

`EPICSIOClient` adds values to the manager of a client and then monitors each of them
(`epics/epics_io_client.cpp:93`): the callback of a monitor decodes what it receives and updates
the value at the manager. The monitor of the input requests, whose callback asks the user, is
not one of these.
-/

namespace OacTreeServer.Epics
open OacTreeServer.Client OacTreeServer.External OacTreeServer.Input OacTreeServer.Job
open OacTreeServer.Protocol

/-- `EPICSIOClientImpl` with the manager that it refers to, without its input client;
`epics_io_client.cpp:45`. -/
structure EPICSIOClient (C V IS : Type) where
  avMgr : ClientAnyValueManager V IS
  clientPvs : List C

namespace EPICSIOClient

section Definitions

variable {C Source V IS : Type} [PvAccessClientPV C Source V] [AnyValue V] [OacTree V]
  [InstructionStateCodec V IS]

/-- Construction; `epics_io_client.cpp:84`. -/
def new : EPICSIOClient C V IS := ⟨.new, []⟩

/-- `AddMonitorPV`; `epics_io_client.cpp:137`. -/
def addMonitorPv (client : EPICSIOClient C V IS) (channel : String) :
    EPICSIOClient C V IS :=
  { client with clientPvs := client.clientPvs ++ [PvAccessClientPV.new channel] }

/-- `AddAnyValues`; `epics_io_client.cpp:93`. -/
def addAnyValues (client : EPICSIOClient C V IS) (monitorSet : NameAnyValueSet V) :
    Except Exception (Bool × EPICSIOClient C V IS) := do
  let (added, avMgr) ← client.avMgr.addAnyValues monitorSet
  let client := { client with avMgr }
  if !added then
    return (false, client)
  return (true, (getNames monitorSet).foldl addMonitorPv client)

/-- The part of `AddInputHandler` that concerns the manager; `epics_io_client.cpp:107`. -/
def addInputHandler (client : EPICSIOClient C V IS) (inputServerName : String) :
    Bool × EPICSIOClient C V IS :=
  let (added, avMgr) := client.avMgr.addInputHandler inputServerName
  (added, { client with avMgr })

/-- The update that the callback of a monitor makes. -/
def updateAnyValue (client : EPICSIOClient C V IS) (name : String) (value : V) :
    Except Exception (Bool × EPICSIOClient C V IS) := do
  let (updated, avMgr) ← client.avMgr.updateAnyValue name value
  return (updated, { client with avMgr })

instance : IAnyValueManager (EPICSIOClient C V IS) V where
  addAnyValues := addAnyValues
  addInputHandler client inputServerName := .ok (client.addInputHandler inputServerName)
  updateAnyValue := updateAnyValue

/-- The callback of the monitor of a channel, when it is connected;
`epics_io_client.cpp:140`. -/
def onValue [Base64VariableCodec V] (client : EPICSIOClient C V IS) (channel : String)
    (value : V) : Except Exception (EPICSIOClient C V IS) :=
  match base64DecodeAnyValue value with
  | (true, anyvalue) => do
    let (_, client) ← client.updateAnyValue channel anyvalue
    return client
  | (false, _) => .ok client

/-- The report that a value which is delivered for a channel stands for. -/
def decodedReport [Base64VariableCodec V] (kind : ChannelKind) (value : V) :
    Option (JobUpdate V IS) :=
  match base64DecodeAnyValue value with
  | (true, anyvalue) => decodedUpdate kind.valueNameInfo anyvalue
  | (false, _) => none

/-- What the construction of a `ClientJob` does with its `EPICSIOClient`;
`client_job.cpp:163`. -/
def monitorJob (pre : String) (nVars nInstr : UInt32) :
    Except Exception (EPICSIOClient C V IS) := do
  let client ← initializeJobAndVariables new pre nVars
  initializeInstructions client pre nInstr

end Definitions

variable {C Source V IS : Type} [PvAccessClientPV C Source V] [AnyValue V] [OacTree V]
  [InstructionStateCodec V IS]

omit [OacTree V] [InstructionStateCodec V IS] in
/-- The callback of a monitor does not touch the monitors. -/
theorem clientPvs_onValue [Base64VariableCodec V] {client client' : EPICSIOClient C V IS}
    {channel : String} {value : V} (h : client.onValue channel value = .ok client') :
    client'.clientPvs = client.clientPvs := by
  unfold onValue at h
  split at h
  · next anyvalue _ =>
    cases hupdate : client.avMgr.updateAnyValue channel anyvalue with
    | error e =>
      simp only [updateAnyValue, hupdate] at h
      cases h
    | ok updated =>
      simp only [updateAnyValue, hupdate] at h
      cases h
      rfl
  · cases h
    rfl

omit [AnyValue V] [OacTree V] [InstructionStateCodec V IS] in
/-- One monitor is added for each name. -/
private theorem foldl_addMonitorPv (names : List String) (client : EPICSIOClient C V IS) :
    names.foldl addMonitorPv client =
      { client with clientPvs := client.clientPvs ++ names.map PvAccessClientPV.new } := by
  induction names generalizing client with
  | nil => simp
  | cons name names ih =>
    rw [List.foldl_cons, ih, addMonitorPv, List.append_assoc]
    rfl

variable [LawfulAnyValue V]

/-- A set of distinct, unknown names is added and monitored. -/
theorem addAnyValues_fresh (client : EPICSIOClient C V IS) {monitorSet : NameAnyValueSet V}
    (hnodup : (monitorSet.map Prod.fst).Nodup)
    (hnew : ∀ name ∈ monitorSet.map Prod.fst, client.avMgr.cbMap[name]? = none) :
    ∃ avMgr : ClientAnyValueManager V IS,
      client.addAnyValues monitorSet =
        .ok (true, ⟨avMgr,
          client.clientPvs ++ (monitorSet.map Prod.fst).map PvAccessClientPV.new⟩) ∧
      (∀ name, avMgr.cbMap[name]? = if name ∈ monitorSet.map Prod.fst then
        some (createCallback (parseValueName name)) else client.avMgr.cbMap[name]?) ∧
      receivedUpdates avMgr.received =
        receivedUpdates client.avMgr.received ++ initialUpdates monitorSet := by
  obtain ⟨avMgr, hadd, hmap, hreceived⟩ :=
    ClientAnyValueManager.addAnyValues_fresh hnodup hnew
  refine ⟨avMgr, ?_, hmap, hreceived⟩
  unfold addAnyValues
  rw [hadd]
  change Except.ok (true, (getNames monitorSet).foldl addMonitorPv _) = _
  rw [foldl_addMonitorPv, getNames, hnodup.dedup]

/-- A client that was made for a job knows the values of the job and monitors each of them. -/
theorem monitorJob_ok (pre : String) (nVars nInstr : UInt32) :
    ∃ avMgr : ClientAnyValueManager V IS,
      monitorJob pre nVars nInstr = .ok (⟨avMgr, (jobKinds nVars nInstr).map
        fun kind ↦ PvAccessClientPV.new (channelName pre kind)⟩ : EPICSIOClient C V IS) ∧
      HoldsJob pre nVars nInstr avMgr ∧
      receivedUpdates avMgr.received =
        initialUpdates (getInitialValueSet pre nVars : NameAnyValueSet V) ++
          initialUpdates (getInstructionValueSet pre nInstr : NameAnyValueSet V) := by
  have hnodup : ((getInitialValueSet pre nVars : NameAnyValueSet V).map Prod.fst).Nodup := by
    rw [getInitialValueSet_names]
    exact nodup_channelNames (nodup_initialKinds nVars)
  obtain ⟨m₀, hadd₀, hmap₀, hreceived₀⟩ : ∃ m₀ : ClientAnyValueManager V IS, _ :=
    (new : EPICSIOClient C V IS).addAnyValues_fresh hnodup
      (show ∀ name ∈ _, ClientAnyValueManager.new.cbMap[name]? = none by
        simp [ClientAnyValueManager.new])
  rw [getInitialValueSet_names] at hadd₀ hmap₀
  have hnodup' : ((getInstructionValueSet pre nInstr : NameAnyValueSet V).map Prod.fst).Nodup := by
    rw [getInstructionValueSet_names]
    exact nodup_channelNames (nodup_instructionKinds nInstr)
  have hnew : ∀ name ∈ (getInstructionValueSet pre nInstr : NameAnyValueSet V).map Prod.fst,
      m₀.cbMap[name]? = none := by
    intro name hname
    rw [getInstructionValueSet_names] at hname
    obtain ⟨kind, hkind, rfl⟩ := List.mem_map.mp hname
    rw [hmap₀, if_neg (channelName_mem_map.not.mpr (notMem_initialKinds hkind))]
    simp [new, ClientAnyValueManager.new]
  obtain ⟨m₁, hadd₁, hmap₁, hreceived₁⟩ := EPICSIOClient.addAnyValues_fresh
    (⟨m₀, ((initialKinds nVars).map (channelName pre)).map PvAccessClientPV.new⟩ :
      EPICSIOClient C V IS) hnodup' hnew
  rw [getInstructionValueSet_names] at hadd₁ hmap₁
  refine ⟨m₁, ?_, fun name ↦ ?_, ?_⟩
  · have hjob : initializeJobAndVariables (new : EPICSIOClient C V IS) pre nVars =
        .ok ⟨m₀, ((initialKinds nVars).map (channelName pre)).map PvAccessClientPV.new⟩ :=
      initializeJobAndVariables_ok hadd₀ rfl
    have hinstr := @initializeInstructions_ok V _ (EPICSIOClient C V IS) _ _ _ pre nInstr _
      hadd₁
    unfold monitorJob
    rw [hjob]
    refine hinstr.trans ?_
    rw [← List.map_append, ← List.map_append, List.map_map]
    rfl
  · rw [hmap₁, hmap₀, jobKinds, List.map_append]
    by_cases hinstr : name ∈ (instructionKinds nInstr).map (channelName pre)
    · simp [hinstr]
    · simp [hinstr, new, ClientAnyValueManager.new]
  · rw [hreceived₁, hreceived₀]
    rfl

variable [Base64VariableCodec V]

/-- The callback of a channel of the job calls the consumer with what the value stands for. -/
theorem onValue_channel (client : EPICSIOClient C V IS) {pre : String}
    {nVars nInstr : UInt32} (h : HoldsJob pre nVars nInstr client.avMgr)
    (hp : pre ≠ "") {kind : ChannelKind} (hkind : kind ∈ jobKinds nVars nInstr) (value : V) :
    client.onValue (channelName pre kind) value =
      .ok ⟨client.avMgr.receive ((decodedReport kind value).toList.map .update),
        client.clientPvs⟩ := by
  unfold onValue decodedReport
  split
  · simp only [updateAnyValue, h.updateAnyValue hp, if_pos hkind]
    rfl
  · rw [Option.toList_none, List.map_nil, ClientAnyValueManager.receive_nil]

end EPICSIOClient
end OacTreeServer.Epics
