import OacTreeServer.External.OacTree
import OacTreeServer.Protocol.Names

/-!
# Encoded values of a job

Codecs of the job state, the breakpoint instruction, the state of a variable and the
requests for user input, from `base/oac_tree_protocol.cpp:53` and
`base/input_request_helper.cpp:43`. A decoder returns its failure result in band, so its
value in `Except` also says that none of its accesses throws.
-/

namespace OacTreeServer.Protocol
open OacTreeServer.External

/-- The type name of the state of a variable; `oac_tree_protocol.h:53`. -/
def kVariableType : String := "sup::variableType/v1.0"

/-- The field for the value of a variable; `oac_tree_protocol.h:55`. -/
def kVariableValueField : String := "var_value"

/-- The field that tells whether a variable is connected; `oac_tree_protocol.h:56`. -/
def kVariableConnectedField : String := "var_connected"

/-- The type name of a request for user input; `oac_tree_protocol.h:67`. -/
def kInputRequestType : String := "sup::inputRequestType/v1.0"

/-- The field for the id of a request; `oac_tree_protocol.h:69`. -/
def kInputRequestIndexField : String := "idx"

/-- The field for the type of a request; `oac_tree_protocol.h:70`. -/
def kInputRequestTypeField : String := "request_type"

/-- The field for what the user is told; `oac_tree_protocol.h:71`. -/
def kInputRequestMetadataField : String := "metadata"

/-- The field for what the user may change or choose from; `oac_tree_protocol.h:72`. -/
def kInputRequestInputValueField : String := "input_value"

/-- The type name of a job state; `oac_tree_protocol.h:114`. -/
def kJobStateType : String := "sup::jobState/v1.0"

/-- The field for the number of a job state; `oac_tree_protocol.h:115`. -/
def kJobStateField : String := "state"

/-- `Base64EncodeAnyValue`; `oac_tree_protocol.cpp:310`. -/
def base64EncodeAnyValue {V : Type} [Base64VariableCodec V] (value : V) : Except Exception V :=
  match Base64VariableCodec.encode value with
  | (true, base64value) => .ok base64value
  | (false, _) =>
    .error (.invalidOperation "Base64EncodeAnyValue(): could not base64 encode an AnyValue")

section Definitions

variable (V : Type) [AnyValue V]

/-- Basic variable value; `oac_tree_protocol.cpp:53`. -/
def kVariableAnyValue : V :=
  AnyValue.struct [(kVariableValueField, AnyValue.empty),
    (kVariableConnectedField, AnyValue.ofBoolean false)] kVariableType

/-- Basic input request, published when no request is pending; `oac_tree_protocol.cpp:58`. -/
def kInputRequestAnyValue : V :=
  AnyValue.struct [(kInputRequestIndexField, AnyValue.ofUInt64 0),
    (kInputRequestTypeField, AnyValue.ofUInt32 0),
    (kInputRequestMetadataField, AnyValue.empty),
    (kInputRequestInputValueField, AnyValue.empty)] kInputRequestType

/-- Basic job state; `oac_tree_protocol.cpp:82`. -/
def kJobStateAnyValue [OacTree V] : V :=
  AnyValue.struct [(kJobStateField, AnyValue.ofUInt32 (OacTree.kInitial V).code)] kJobStateType

variable {V}

/-- `GetJobStateValue`; `oac_tree_protocol.cpp:180`. -/
def getJobStateValue [OacTree V] (state : JobState) : V :=
  AnyValue.setMember (kJobStateAnyValue V) kJobStateField (AnyValue.ofUInt32 state.code)

/-- `GetBreakpointInstructionValue`; `oac_tree_protocol.cpp:187`. -/
def getBreakpointInstructionValue [OacTree V] (instrIdx : UInt32) : V :=
  AnyValue.struct [(OacTree.kIndexField V, AnyValue.ofUInt32 instrIdx)] ""

/-- `DecodeBreakpointInstructionIndex`; `oac_tree_protocol.cpp:195`. -/
def decodeBreakpointInstructionIndex [OacTree V] (v : V) : Except Exception (Bool × UInt32) := do
  if !AnyValue.hasField v (OacTree.kIndexField V) then
    return (false, 0)
  let indexAv ← AnyValue.member v (OacTree.kIndexField V)
  if !AnyValue.hasType indexAv .unsignedInteger32 then
    return (false, 0)
  return (true, ← AnyValue.asUInt32 indexAv)

/-- `EncodeVariableState`; `oac_tree_protocol.cpp:210`. -/
def encodeVariableState (value : V) (connected : Bool) : V :=
  AnyValue.struct [(kVariableValueField, value),
    (kVariableConnectedField, AnyValue.ofBoolean connected)] ""

/-- `ValidateVariableAnyValue`; `oac_tree_protocol.cpp:338`. -/
def validateVariableAnyValue (payload : V) : Bool :=
  AnyValue.hasField payload kVariableValueField &&
    AnyValue.validateMemberType payload kVariableConnectedField .boolean

/-- `DecodeVariableState`; the empty value with `false` signals a failure;
`oac_tree_protocol.cpp:219`. -/
def decodeVariableState (encoded : V) : Except Exception (V × Bool) := do
  if validateVariableAnyValue encoded then
    let value ← AnyValue.member encoded kVariableValueField
    let connected ← AnyValue.member encoded kVariableConnectedField
    return (value, ← AnyValue.asBoolean connected)
  return (AnyValue.empty, false)

/-- `EncodeInputRequest`; `input_request_helper.cpp:43`. -/
def encodeInputRequest (id : UInt64) (inputRequest : UserInputRequest V) : V :=
  AnyValue.struct [(kInputRequestIndexField, AnyValue.ofUInt64 id),
    (kInputRequestTypeField, AnyValue.ofUInt32 inputRequest.requestType.code),
    (kInputRequestMetadataField, inputRequest.metaData),
    (kInputRequestInputValueField, inputRequest.inputValue)] ""

end Definitions

variable {V : Type} [AnyValue V] [LawfulAnyValue V]

/-- The value of a job state holds its number. -/
theorem hasMember_getJobStateValue [OacTree V] (state : JobState) :
    HasMember (getJobStateValue state : V) kJobStateField (AnyValue.ofUInt32 state.code) := by
  have h : HasMember (kJobStateAnyValue V) kJobStateField
      (AnyValue.ofUInt32 (OacTree.kInitial V).code) :=
    HasMember.struct [kJobStateField] rfl (by decide) (by decide) (by simp)
  exact HasMember.setMember_self h.hasField (by decide) _

/-- Decoding a breakpoint instruction index gives it back. -/
theorem decodeBreakpointInstructionIndex_get [OacTree V] [LawfulOacTree V] (i : UInt32) :
    decodeBreakpointInstructionIndex (getBreakpointInstructionValue i : V) = .ok (true, i) := by
  have h : HasMember (getBreakpointInstructionValue i : V) (OacTree.kIndexField V)
      (AnyValue.ofUInt32 i) :=
    HasMember.struct [OacTree.kIndexField V] rfl (by simp)
      (by simp [LawfulOacTree.kIndexField_plain]) (by simp)
  unfold decodeBreakpointInstructionIndex
  rw [h.hasField, h.member]
  simp [LawfulAnyValue.hasType_ofUInt32, LawfulAnyValue.asUInt32_ofUInt32, bind, Except.bind,
    pure, Except.pure]

/-- Decoding a breakpoint instruction index does not throw. -/
theorem decodeBreakpointInstructionIndex_ok [OacTree V] (v : V) :
    ∃ r, decodeBreakpointInstructionIndex v = .ok r := by
  unfold decodeBreakpointInstructionIndex
  cases hf : AnyValue.hasField v (OacTree.kIndexField V) with
  | false => exact ⟨_, rfl⟩
  | true =>
    obtain ⟨w, hw⟩ := LawfulAnyValue.member_of_hasField v _ hf
    rw [hw]
    cases ht : AnyValue.hasType w .unsignedInteger32 with
    | false => exact ⟨(false, 0), by simp [bind, Except.bind, pure, Except.pure, ht]⟩
    | true =>
      obtain ⟨n, hn⟩ := LawfulAnyValue.asUInt32_of_hasType w ht
      exact ⟨(true, n), by simp [bind, Except.bind, pure, Except.pure, ht, hn]⟩

/-- A struct with the members of a variable is decoded to them, whatever its type name. -/
private theorem decodeVariableState_struct (value : V) (connected : Bool) (typeName : String) :
    decodeVariableState (AnyValue.struct [(kVariableValueField, value),
      (kVariableConnectedField, AnyValue.ofBoolean connected)] typeName) =
      .ok (value, connected) := by
  let encoded : V := AnyValue.struct [(kVariableValueField, value),
    (kVariableConnectedField, AnyValue.ofBoolean connected)] typeName
  have hv : HasMember encoded kVariableValueField value :=
    HasMember.struct [kVariableValueField, kVariableConnectedField] rfl (by decide) (by decide)
      (by simp)
  have hc : HasMember encoded kVariableConnectedField (AnyValue.ofBoolean connected) :=
    HasMember.struct [kVariableValueField, kVariableConnectedField] rfl (by decide) (by decide)
      (by simp)
  have hvalid : validateVariableAnyValue encoded = true := by
    rw [validateVariableAnyValue, hv.hasField,
      hc.validate (LawfulAnyValue.hasType_ofBoolean connected)]
    rfl
  unfold decodeVariableState
  rw [hvalid, hv.member, hc.member]
  simp [LawfulAnyValue.asBoolean_ofBoolean, bind, Except.bind, pure, Except.pure]

/-- Decoding the state of a variable gives it back, also when its value is empty. -/
theorem decodeVariableState_encode (value : V) (connected : Bool) :
    decodeVariableState (encodeVariableState value connected) = .ok (value, connected) :=
  decodeVariableState_struct value connected ""

/-- A variable starts without a value and disconnected. -/
theorem decodeVariableState_kVariableAnyValue :
    decodeVariableState (kVariableAnyValue V) = .ok (AnyValue.empty, false) :=
  decodeVariableState_struct AnyValue.empty false kVariableType

/-- Decoding the state of a variable does not throw. -/
theorem decodeVariableState_ok (v : V) : ∃ r, decodeVariableState v = .ok r := by
  unfold decodeVariableState
  cases hvalid : validateVariableAnyValue v with
  | false => exact ⟨_, rfl⟩
  | true =>
    unfold validateVariableAnyValue at hvalid
    rw [Bool.and_eq_true] at hvalid
    obtain ⟨value, hv⟩ := LawfulAnyValue.member_of_hasField v _ hvalid.1
    obtain ⟨w, hw, ht⟩ := member_of_validateMemberType hvalid.2
    obtain ⟨c, hc⟩ := LawfulAnyValue.asBoolean_of_hasType w ht
    exact ⟨(value, c), by simp [hv, hw, hc, bind, Except.bind, pure, Except.pure]⟩

/-- A published request shows its id. -/
theorem hasMember_encodeInputRequest (id : UInt64) (inputRequest : UserInputRequest V) :
    HasMember (encodeInputRequest id inputRequest) kInputRequestIndexField
      (AnyValue.ofUInt64 id) :=
  HasMember.struct [kInputRequestIndexField, kInputRequestTypeField,
    kInputRequestMetadataField, kInputRequestInputValueField] rfl (by decide) (by decide)
    (by simp)

/-- Published requests with the same value have the same id. -/
theorem encodeInputRequest_id_inj {id other : UInt64} {inputRequest request : UserInputRequest V}
    (h : encodeInputRequest id inputRequest = encodeInputRequest other request) : id = other := by
  have hid := hasMember_encodeInputRequest id inputRequest
  rw [h] at hid
  exact ofUInt64_inj (hid.unique (hasMember_encodeInputRequest other request))

/-- A published request is not the value that stands for no request. -/
theorem encodeInputRequest_ne_kInputRequestAnyValue {id : UInt64} (hid : id ≠ 0)
    (inputRequest : UserInputRequest V) :
    encodeInputRequest id inputRequest ≠ kInputRequestAnyValue V := by
  intro h
  have hzero : HasMember (kInputRequestAnyValue V) kInputRequestIndexField
      (AnyValue.ofUInt64 0) :=
    HasMember.struct [kInputRequestIndexField, kInputRequestTypeField,
      kInputRequestMetadataField, kInputRequestInputValueField] rfl (by decide) (by decide)
      (by simp)
  have hidx := hasMember_encodeInputRequest id inputRequest
  rw [h] at hidx
  exact hid (ofUInt64_inj (hidx.unique hzero))

end OacTreeServer.Protocol
