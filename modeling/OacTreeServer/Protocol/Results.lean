import OacTreeServer.External.SupProtocol

/-!
# Function protocols of the server

Names of functions and fields, result codes, and the checked access to indices that the
handlers of the protocols share, from `oac_tree_protocol.h:118` and
`base/oac_tree_protocol.cpp:86`.
-/

namespace OacTreeServer.Protocol
open OacTreeServer.External

/-- The function that reports the prefix of a server; `oac_tree_protocol.h:127`. -/
def kGetServerPrefixFunctionName : String := "GetServerPrefix"

/-- The function that reports how many jobs a server has; `oac_tree_protocol.h:128`. -/
def kGetNumberOfJobsFunctionName : String := "GetNumberOfJobs"

/-- The function that reports the information of a job; `oac_tree_protocol.h:129`. -/
def kGetJobInfoFunctionName : String := "GetJobInfo"

/-- The function that sets or removes a breakpoint; `oac_tree_protocol.h:130`. -/
def kEditBreakpointCommandFunctionName : String := "EditBreakpoint"

/-- The function that sends a command to a job; `oac_tree_protocol.h:131`. -/
def kSendJobCommandFunctionName : String := "SendJobCommand"

/-- The field for the prefix of a server; `oac_tree_protocol.h:134`. -/
def kServerPrefixFieldName : String := "server_prefix"

/-- The field for the number of jobs; `oac_tree_protocol.h:135`. -/
def kNumberOfJobsFieldName : String := "number_of_jobs"

/-- The field for the index of a job; `oac_tree_protocol.h:136`. -/
def kJobIndexFieldName : String := "job_index"

/-- The field for the information of a job; `oac_tree_protocol.h:137`. -/
def kJobInfoFieldName : String := "job_info"

/-- The field for the index of an instruction; `oac_tree_protocol.h:138`. -/
def kInstructionIndexFieldName : String := "instruction_index"

/-- The field that tells whether a breakpoint is set or removed; `oac_tree_protocol.h:139`. -/
def kBreakpointActiveFieldName : String := "breakpoint_active"

/-- The field for the number of a command; `oac_tree_protocol.h:140`. -/
def kJobCommandFieldName : String := "command"

/-- The function of an input server that takes a reply; `oac_tree_protocol.h:147`. -/
def kSetReplyFunctionName : String := "SetReply"

/-- The field for an encoded reply; `oac_tree_protocol.h:150`. -/
def kUserReplyValueFieldName : String := "value"

section Definitions

variable (V : Type) [SupProtocol V]

/-- `NotSupported`; `oac_tree_protocol.cpp:98`. -/
def notSupported : ProtocolResult := ⟨SupProtocol.specificApplicationErrorStart V + 0⟩

/-- `UnknownJob`; `oac_tree_protocol.cpp:99`. -/
def unknownJob : ProtocolResult := ⟨SupProtocol.specificApplicationErrorStart V + 1⟩

/-- `UnknownInstruction`; `oac_tree_protocol.cpp:100`. -/
def unknownInstruction : ProtocolResult := ⟨SupProtocol.specificApplicationErrorStart V + 2⟩

/-- `UnknownJobCommand`; `oac_tree_protocol.cpp:101`. -/
def unknownJobCommand : ProtocolResult := ⟨SupProtocol.specificApplicationErrorStart V + 3⟩

/-- `ClientReplyRefused`; `oac_tree_protocol.cpp:102`. -/
def clientReplyRefused : ProtocolResult := ⟨SupProtocol.specificApplicationErrorStart V + 4⟩

/-- `AutomationServerResultToString`; `oac_tree_protocol.cpp:109`. -/
def automationServerResultToString (result : ProtocolResult) : String :=
  if result.value < SupProtocol.genericApplicationErrorStart V then
    SupProtocol.protocolResultToString V result
  else
    match [((notSupported V).value, "NotSupported"), ((unknownJob V).value, "UnknownJob"),
        ((unknownInstruction V).value, "UnknownInstruction"),
        ((unknownJobCommand V).value, "UnknownJobCommand"),
        ((clientReplyRefused V).value, "ClientReplyRefused")].lookup result.value with
    | some text => text
    | none =>
      "Unknown ProtocolResult for SUP automation interface: " ++ result.value.toNat.repr

variable {V} [AnyValueConversion V]

/-- The shared body of `ExtractJobIndex` and `ExtractInstructionIndex`: the index in a field
of a packet when it is below `n`, else the result to answer with. -/
def extractIndex (fieldName : String) (unknown : ProtocolResult) (input : V) (n : UInt32) :
    Except ProtocolResult UInt32 :=
  match SupProtocol.functionProtocolExtract input fieldName with
  | none => .error (SupProtocol.serverProtocolDecodingError V)
  | some idxAv =>
    match AnyValueConversion.tryAsUInt32 idxAv with
    | none => .error (SupProtocol.serverProtocolDecodingError V)
    | some idx => if idx ≥ n then .error unknown else .ok idx

/-- `ExtractJobIndex`; `oac_tree_protocol.cpp:272`. -/
def extractJobIndex (input : V) (nJobs : UInt32) : Except ProtocolResult UInt32 :=
  extractIndex kJobIndexFieldName (unknownJob V) input nJobs

/-- `ExtractInstructionIndex`; `oac_tree_protocol.cpp:291`. -/
def extractInstructionIndex (input : V) (nInstr : UInt32) : Except ProtocolResult UInt32 :=
  extractIndex kInstructionIndexFieldName (unknownInstruction V) input nInstr

end Definitions

section Laws

variable {V : Type} [AnyValue V] [LawfulAnyValue V] [AnyValueConversion V]
  [LawfulAnyValueConversion V]

/-- A 32-bit number survives the way over a 64-bit field. -/
theorem asUInt32_ofUInt64 (n : UInt32) :
    AnyValue.asUInt32 (AnyValue.ofUInt64 n.toUInt64 : V) = .ok n := by
  have hfits : n.toUInt64.toNat < 2 ^ 32 := by
    rw [UInt32.toNat_toUInt64]
    exact n.toNat_lt
  rw [LawfulAnyValueConversion.asUInt32_of_lt _ n.toUInt64 (LawfulAnyValue.hasType_ofUInt64 _)
    (LawfulAnyValue.asUInt64_ofUInt64 _) hfits, UInt32.toUInt32_toUInt64]

/-- The checked conversion succeeds as well. -/
theorem tryAsUInt32_ofUInt64 (n : UInt32) :
    AnyValueConversion.tryAsUInt32 (AnyValue.ofUInt64 n.toUInt64 : V) = some n := by
  rw [LawfulAnyValueConversion.tryAsUInt32_eq, asUInt32_ofUInt64]
  rfl

/-- An index that was packed as a 64-bit number is extracted when it is in range. -/
theorem extractIndex_eq [SupProtocol V] {fieldName : String} {unknown : ProtocolResult}
    {input : V} {idx : UInt32} (h : SupProtocol.functionProtocolExtract input fieldName =
      some (AnyValue.ofUInt64 idx.toUInt64)) (n : UInt32) :
    extractIndex fieldName unknown input n = if idx < n then .ok idx else .error unknown := by
  simp only [extractIndex, h, tryAsUInt32_ofUInt64]
  by_cases hidx : idx < n
  · rw [if_pos hidx, if_neg (by simpa using hidx)]
  · rw [if_neg hidx, if_pos (by simpa using hidx)]

end Laws

end OacTreeServer.Protocol
