import OacTreeServer.Library.Decimal

/-!
# Network names

The names under which a server publishes the values of its jobs, from
`src/lib/sup/oac-tree-server/oac_tree_protocol.h:42` and
`src/lib/sup/oac-tree-server/base/oac_tree_protocol.cpp:104`. A name is a bare
concatenation; the last colon and the last dash of a job prefix are what allows it to
be taken apart again.
-/

namespace OacTreeServer.Protocol
open OacTreeServer.Library

/-- Control server identifier; `oac_tree_protocol.h:43`. -/
def kControlServerId : String := "CONTROL:"

/-- Instruction identifier; `oac_tree_protocol.h:46`. -/
def kInstructionId : String := "INSTR-"

/-- Breakpoint instruction identifier; `oac_tree_protocol.h:49`. -/
def kBreakpointInstructionId : String := "BP-INSTR"

/-- Variable identifier; `oac_tree_protocol.h:52`. -/
def kVariableId : String := "VAR-"

/-- User input server identifier; `oac_tree_protocol.h:65`. -/
def kInputServerName : String := "INPUT"

/-- User input request identifier; `oac_tree_protocol.h:66`. -/
def kInputRequestName : String := "-REQ"

/-- Log entry identifier; `oac_tree_protocol.h:80`. -/
def kLogEntryId : String := "LOG"

/-- Message entry identifier; `oac_tree_protocol.h:91`. -/
def kMessageEntryId : String := "MSG"

/-- Output value entry identifier; `oac_tree_protocol.h:101`. -/
def kOutputValueEntryId : String := "OUT"

/-- Job state identifier; `oac_tree_protocol.h:112`. -/
def kJobStateId : String := "STATE"

/-- Name of the control server; `oac_tree_protocol.cpp:104`. -/
def getControlServerName (serverName : String) : String := serverName ++ kControlServerId

/-- Job specific prefix; `oac_tree_protocol.cpp:130`. -/
def createJobPrefix (serverPrefix : String) (idx : UInt32) : String :=
  serverPrefix ++ ":PROC-" ++ idx.toNat.repr ++ ":"

/-- Name of an instruction; `oac_tree_protocol.cpp:135`. -/
def getInstructionPVName (pre : String) (index : UInt32) : String :=
  pre ++ kInstructionId ++ index.toNat.repr

/-- Name of the current breakpoint instruction; `oac_tree_protocol.cpp:140`. -/
def getBreakpointInstructionPVName (pre : String) : String := pre ++ kBreakpointInstructionId

/-- Name of a variable; `oac_tree_protocol.cpp:145`. -/
def getVariablePVName (pre : String) (index : UInt32) : String :=
  pre ++ kVariableId ++ index.toNat.repr

/-- Name of the server for user input; `oac_tree_protocol.cpp:150`. -/
def getInputServerName (pre : String) : String := pre ++ kInputServerName

/-- Name of the PV that publishes input requests; `oac_tree_protocol.cpp:155`. -/
def getInputRequestPVName (serverName : String) : String := serverName ++ kInputRequestName

/-- Different servers have different PVs for their requests. -/
theorem getInputRequestPVName_inj {serverName other : String}
    (h : getInputRequestPVName serverName = getInputRequestPVName other) : serverName = other := by
  unfold getInputRequestPVName at h
  rw [← String.toList_inj, String.toList_append, String.toList_append] at h
  exact String.toList_inj.mp (List.append_cancel_right h)

/-- Name of the log entries; `oac_tree_protocol.cpp:160`. -/
def getLogEntryName (pre : String) : String := pre ++ kLogEntryId

/-- Name of the message entries; `oac_tree_protocol.cpp:165`. -/
def getMessageEntryName (pre : String) : String := pre ++ kMessageEntryId

/-- Name of the output value entries; `oac_tree_protocol.cpp:170`. -/
def getOutputValueEntryName (pre : String) : String := pre ++ kOutputValueEntryId

/-- Name of the job state; `oac_tree_protocol.cpp:175`. -/
def getJobStatePVName (pre : String) : String := pre ++ kJobStateId

/-- What a published name of a job stands for. -/
inductive ChannelKind where
  | jobState
  | logEntry
  | messageEntry
  | outputValueEntry
  | breakpointInstruction
  | instructionState (index : UInt32)
  | variableState (index : UInt32)
  | inputServer
  | inputRequest
  deriving DecidableEq, Repr

/-- The name of a channel of the job with a given prefix. -/
def channelName (pre : String) : ChannelKind → String
  | .jobState => getJobStatePVName pre
  | .logEntry => getLogEntryName pre
  | .messageEntry => getMessageEntryName pre
  | .outputValueEntry => getOutputValueEntryName pre
  | .breakpointInstruction => getBreakpointInstructionPVName pre
  | .instructionState index => getInstructionPVName pre index
  | .variableState index => getVariablePVName pre index
  | .inputServer => getInputServerName pre
  | .inputRequest => getInputRequestPVName (getInputServerName pre)

/-- The name that a server publishes for a channel of one of its jobs. -/
def publishedName (serverPrefix : String) (idx : UInt32) (kind : ChannelKind) : String :=
  channelName (createJobPrefix serverPrefix idx) kind

/-- What a channel name appends to the job prefix. -/
def ChannelKind.suffix : ChannelKind → String
  | .jobState => "STATE"
  | .logEntry => "LOG"
  | .messageEntry => "MSG"
  | .outputValueEntry => "OUT"
  | .breakpointInstruction => "BP-INSTR"
  | .instructionState index => "INSTR-" ++ index.toNat.repr
  | .variableState index => "VAR-" ++ index.toNat.repr
  | .inputServer => "INPUT"
  | .inputRequest => "INPUT-REQ"

/-- Every channel name is the job prefix followed by its suffix. -/
theorem channelName_eq (pre : String) (kind : ChannelKind) :
    channelName pre kind = pre ++ kind.suffix := by
  cases kind with
  | instructionState index => exact String.append_assoc
  | variableState index => exact String.append_assoc
  | inputRequest => exact String.append_assoc
  | _ => rfl

/-- The suffix determines the kind of a channel and its index. -/
theorem suffix_inj {k l : ChannelKind} : k.suffix = l.suffix ↔ k = l := by
  refine ⟨fun h ↦ ?_, congrArg _⟩
  have hl := congrArg String.toList h
  cases k <;> cases l <;>
    simp [ChannelKind.suffix, String.toList_append, toDigits_inj, UInt32.toNat_inj] at hl <;>
    simp [hl]

/-- A suffix contains no colon. -/
theorem colon_notMem_suffix (k : ChannelKind) : ':' ∉ k.suffix.toList := by
  cases k <;> simp [ChannelKind.suffix, String.toList_append, notMem_toDigits]

/-- Within one job the name determines the kind of a channel and its index. -/
theorem channelName_inj {pre : String} {k l : ChannelKind} :
    channelName pre k = channelName pre l ↔ k = l := by
  rw [channelName_eq, channelName_eq, String.append_right_inj, suffix_inj]

/-- A job prefix determines the server prefix and the job index. -/
theorem createJobPrefix_inj {S T : String} {i j : UInt32} :
    createJobPrefix S i = createJobPrefix T j ↔ S = T ∧ i = j := by
  refine ⟨fun h ↦ ?_, by rintro ⟨rfl, rfl⟩; rfl⟩
  unfold createJobPrefix at h
  rw [String.append_left_inj] at h
  -- The dash is the last one, since only digits follow it.
  have hdash (P : String) (n : Nat) : P ++ ":PROC-" ++ n.repr =
      (P ++ ":PROC") ++ String.singleton '-' ++ n.repr := by
    rw [← String.toList_inj]
    simp [String.toList_append]
  rw [hdash, hdash, string_append_sep_inj (by simp [notMem_toDigits]) (by simp [notMem_toDigits]),
    String.append_left_inj, repr_inj, UInt32.toNat_inj] at h
  exact h

/-- A published name determines the server prefix, the job index, the kind of the
channel and its index. -/
theorem publishedName_inj {S T : String} {i j : UInt32} {k l : ChannelKind} :
    publishedName S i k = publishedName T j l ↔ S = T ∧ i = j ∧ k = l := by
  refine ⟨fun h ↦ ?_, by rintro ⟨rfl, rfl, rfl⟩; rfl⟩
  unfold publishedName at h
  rw [channelName_eq, channelName_eq] at h
  -- The colon that ends the job prefix is the last one, since no suffix contains any.
  have hcolon (P : String) (n : UInt32) (s : String) : createJobPrefix P n ++ s =
      (P ++ ":PROC-" ++ n.toNat.repr) ++ String.singleton ':' ++ s := by
    rw [createJobPrefix, ← String.toList_inj]
    simp [String.toList_append]
  rw [hcolon, hcolon,
    string_append_sep_inj (colon_notMem_suffix k) (colon_notMem_suffix l), suffix_inj] at h
  have hprefix : createJobPrefix S i = createJobPrefix T j := by
    unfold createJobPrefix
    rw [h.1]
  exact ⟨(createJobPrefix_inj.mp hprefix).1, (createJobPrefix_inj.mp hprefix).2, h.2⟩

/-- No published name is the server prefix or the name of the control server of the
same server. -/
theorem publishedName_ne_server (S : String) (i : UInt32) (k : ChannelKind) :
    publishedName S i k ≠ S ∧ publishedName S i k ≠ getControlServerName S := by
  unfold publishedName getControlServerName
  rw [channelName_eq, createJobPrefix]
  constructor
  · intro h
    have hl := congrArg (fun s ↦ s.toList.length) h
    simp only [String.length_toList, String.length_append] at hl
    have hp : ":PROC-".length = 6 := by decide
    omega
  · intro h
    have hl := congrArg String.toList h
    simp [String.toList_append, kControlServerId] at hl

/-- The network names are unique across servers, jobs, kinds and indices, and none of
them is taken by the servers that answer queries and commands. -/
theorem network_names_unique :
    Function.Injective (fun n : String × UInt32 × ChannelKind ↦ publishedName n.1 n.2.1 n.2.2) ∧
      ∀ (S : String) (i : UInt32) (k : ChannelKind),
        publishedName S i k ≠ S ∧ publishedName S i k ≠ getControlServerName S := by
  refine ⟨?_, publishedName_ne_server⟩
  rintro ⟨S, i, k⟩ ⟨T, j, l⟩ h
  obtain ⟨rfl, rfl, rfl⟩ := publishedName_inj.mp h
  rfl

end OacTreeServer.Protocol
