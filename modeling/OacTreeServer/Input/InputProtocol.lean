import OacTreeServer.External.SupProtocol
import OacTreeServer.Input.RequestServer
import OacTreeServer.Protocol.Results
import OacTreeServer.Protocol.Values

/-!
# The protocol that carries replies

A client decodes the published request (`base/input_request_helper.cpp:56`), encodes its
reply (`base/input_reply_helper.cpp:45`) and sends it through a function protocol
(`base/input_protocol_client.cpp:42`). The server decodes it and offers it to the request
server (`base/input_protocol_server.cpp:69`).
-/

namespace OacTreeServer.Input
open OacTreeServer.External OacTreeServer.Protocol

/-- The field for the id of the request that is answered; `oac_tree_protocol.h:74`. -/
def kInputReplyIndexField : String := "idx"

/-- The field for the type of a reply; `oac_tree_protocol.h:75`. -/
def kInputReplyTypeField : String := "Reply_type"

/-- The field that tells whether the user has answered; `oac_tree_protocol.h:76`. -/
def kInputReplyResultField : String := "result"

/-- The field for the answer itself; `oac_tree_protocol.h:77`. -/
def kInputReplyPayloadField : String := "payload"

section Definitions

variable {V : Type} [AnyValue V]

/-- `Base64DecodeAnyValue`; `oac_tree_protocol.cpp:321`. -/
def base64DecodeAnyValue [Base64VariableCodec V] (value : V) : Bool × V :=
  match Base64VariableCodec.decode value with
  | (true, anyvalue) => (true, anyvalue)
  | (false, _) => (false, AnyValue.empty)

/-- `ValidateInputRequestPayload`; `input_request_helper.cpp:80`. -/
def validateInputRequestPayload (payload : V) : Bool :=
  AnyValue.validateMemberType payload kInputRequestIndexField .unsignedInteger64 &&
    AnyValue.validateMemberType payload kInputRequestTypeField .unsignedInteger32 &&
    AnyValue.hasField payload kInputRequestMetadataField &&
    AnyValue.hasField payload kInputRequestInputValueField

/-- `DecodeInputRequest`; `input_request_helper.cpp:56`. -/
def decodeInputRequest [OacTree V] (encoded : V) :
    Except Exception (Bool × UInt64 × UserInputRequest V) := do
  if !validateInputRequestPayload encoded then
    return (false, 0, OacTree.kInvalidUserInputRequest)
  let reqIdx ← AnyValue.member encoded kInputRequestIndexField
  let reqIdx ← AnyValue.asUInt64 reqIdx
  let requestType ← AnyValue.member encoded kInputRequestTypeField
  let requestType ← AnyValue.asUInt32 requestType
  let metaData ← AnyValue.member encoded kInputRequestMetadataField
  let inputValue ← AnyValue.member encoded kInputRequestInputValueField
  return (true, reqIdx, ⟨⟨requestType⟩, metaData, inputValue⟩)

/-- The value that `EncodeInputReply` encodes; `input_reply_helper.cpp:47`. -/
def inputReplyPayload (id : UInt64) (inputReply : UserInputReply V) : V :=
  AnyValue.struct [(kInputReplyIndexField, AnyValue.ofUInt64 id),
    (kInputReplyTypeField, AnyValue.ofUInt32 inputReply.requestType.code),
    (kInputReplyResultField, AnyValue.ofBoolean inputReply.result),
    (kInputReplyPayloadField, inputReply.payload)] ""

/-- `EncodeInputReply`; `input_reply_helper.cpp:45`. -/
def encodeInputReply [Base64VariableCodec V] (id : UInt64) (inputReply : UserInputReply V) :
    Except Exception V :=
  base64EncodeAnyValue (inputReplyPayload id inputReply)

/-- `ValidateInputReplyPayload`; `input_reply_helper.cpp:87`. -/
def validateInputReplyPayload (payload : V) : Bool :=
  AnyValue.validateMemberType payload kInputReplyIndexField .unsignedInteger64 &&
    AnyValue.validateMemberType payload kInputReplyTypeField .unsignedInteger32 &&
    AnyValue.validateMemberType payload kInputReplyResultField .boolean &&
    AnyValue.hasField payload kInputReplyPayloadField

/-- `DecodeInputReply`; `input_reply_helper.cpp:59`. -/
def decodeInputReply [OacTree V] [Base64VariableCodec V] (encoded : V) :
    Except Exception (Bool × UInt64 × UserInputReply V) := do
  let (decoded, payload) := base64DecodeAnyValue encoded
  if !decoded then
    return (false, 0, OacTree.kInvalidUserInputReply)
  if !validateInputReplyPayload payload then
    return (false, 0, OacTree.kInvalidUserInputReply)
  let reqIdx ← AnyValue.member payload kInputReplyIndexField
  let reqIdx ← AnyValue.asUInt64 reqIdx
  let requestType ← AnyValue.member payload kInputReplyTypeField
  let requestType ← AnyValue.asUInt32 requestType
  let result ← AnyValue.member payload kInputReplyResultField
  let result ← AnyValue.asBoolean result
  let replyPayload ← AnyValue.member payload kInputReplyPayloadField
  return (true, reqIdx, ⟨⟨requestType⟩, result, replyPayload⟩)

end Definitions

section Protocol

variable {V : Type} [AnyValue V] [OacTree V] [Base64VariableCodec V] [SupProtocol V]

/-- The handlers of `InputProtocolServer` change the request server and may throw. -/
abbrev InputServerM (V : Type) := StateT (InputRequestServer V) (Except Exception)

/-- `InputProtocolServer::SetClientReply`; `input_protocol_server.cpp:69`. -/
def InputProtocolServer.setClientReply (input output : V) :
    InputServerM V (ProtocolResult × V) := do
  match SupProtocol.functionProtocolExtract input kUserReplyValueFieldName with
  | none => return (SupProtocol.serverProtocolDecodingError V, output)
  | some userReplyAv =>
    let (decoded, id, userReply) ← decodeInputReply userReplyAv
    if !decoded then
      return (SupProtocol.serverProtocolDecodingError V, output)
    let requestServer ← get
    let (result, requestServer) := requestServer.setClientReply id userReply
    set requestServer
    if !result then
      return (clientReplyRefused V, output)
    return (SupProtocol.success V, output)

/-- `InputProtocolServer::FunctionMap`; `input_protocol_server.cpp:61`. -/
def InputProtocolServer.functionMap :
    List (String × (V → V → InputServerM V (ProtocolResult × V))) :=
  [(kSetReplyFunctionName, InputProtocolServer.setClientReply)]

/-- `InputProtocolServer`, as the protocol that it implements; `input_protocol_server.cpp:43`. -/
def inputProtocolServer : Protocol (InputServerM V) V where
  invoke input output :=
    SupProtocol.callFunctionProtocol InputProtocolServer.functionMap input output (notSupported V)

/-- `InputProtocolClient::SetClientReply`; `input_protocol_client.cpp:42`. -/
def InputProtocolClient.setClientReply (protocol : Protocol (InputServerM V) V) (id : UInt64)
    (reply : UserInputReply V) : InputServerM V Bool := do
  let input := SupProtocol.functionProtocolInput kSetReplyFunctionName
  let encoded ← encodeInputReply id reply
  let input := SupProtocol.functionProtocolPack input kUserReplyValueFieldName encoded
  let (result, _) ← protocol.invoke input AnyValue.empty
  return result = SupProtocol.success V

end Protocol

section RoundTrip

variable {V : Type} [AnyValue V] [LawfulAnyValue V] [OacTree V]

/-- A published request is decoded to what it was made from, whatever its type. -/
theorem decodeInputRequest_encode (id : UInt64) (inputRequest : UserInputRequest V) :
    decodeInputRequest (encodeInputRequest id inputRequest) = .ok (true, id, inputRequest) := by
  have hmember : ∀ {name : String} {w : V},
      (name, w) ∈ [(kInputRequestIndexField, AnyValue.ofUInt64 id),
        (kInputRequestTypeField, AnyValue.ofUInt32 inputRequest.requestType.code),
        (kInputRequestMetadataField, inputRequest.metaData),
        (kInputRequestInputValueField, inputRequest.inputValue)] →
      HasMember (encodeInputRequest id inputRequest) name w :=
    HasMember.struct [kInputRequestIndexField, kInputRequestTypeField,
      kInputRequestMetadataField, kInputRequestInputValueField] rfl (by decide) (by decide)
  have hindex : HasMember (encodeInputRequest id inputRequest) kInputRequestIndexField
      (AnyValue.ofUInt64 id) := hmember (by simp)
  have htype : HasMember (encodeInputRequest id inputRequest) kInputRequestTypeField
      (AnyValue.ofUInt32 inputRequest.requestType.code) := hmember (by simp)
  have hmeta : HasMember (encodeInputRequest id inputRequest) kInputRequestMetadataField
      inputRequest.metaData := hmember (by simp)
  have hinput : HasMember (encodeInputRequest id inputRequest) kInputRequestInputValueField
      inputRequest.inputValue := hmember (by simp)
  have hvalid : validateInputRequestPayload (encodeInputRequest id inputRequest) = true := by
    rw [validateInputRequestPayload, hindex.validate (LawfulAnyValue.hasType_ofUInt64 _),
      htype.validate (LawfulAnyValue.hasType_ofUInt32 _), hmeta.hasField, hinput.hasField]
    rfl
  unfold decodeInputRequest
  rw [hvalid, hindex.member, htype.member, hmeta.member, hinput.member]
  simp [bind, Except.bind, pure, Except.pure, LawfulAnyValue.asUInt64_ofUInt64,
    LawfulAnyValue.asUInt32_ofUInt32]

variable [Base64VariableCodec V] [LawfulBase64VariableCodec V]

omit [LawfulAnyValue V] [OacTree V] in
/-- What was encoded is decoded. -/
theorem base64DecodeAnyValue_of_encode {value encoded : V}
    (h : base64EncodeAnyValue value = .ok encoded) :
    base64DecodeAnyValue encoded = (true, value) := by
  unfold base64EncodeAnyValue at h
  split at h
  · next base64value hencode =>
    cases h
    rw [base64DecodeAnyValue, LawfulBase64VariableCodec.decode_encode value encoded hencode]
  · cases h

/-- An encoded reply is decoded to what it was made from, whatever its type and result. -/
theorem decodeInputReply_encode {id : UInt64} {inputReply : UserInputReply V} {encoded : V}
    (h : encodeInputReply id inputReply = .ok encoded) :
    decodeInputReply encoded = .ok (true, id, inputReply) := by
  have hmember : ∀ {name : String} {w : V},
      (name, w) ∈ [(kInputReplyIndexField, AnyValue.ofUInt64 id),
        (kInputReplyTypeField, AnyValue.ofUInt32 inputReply.requestType.code),
        (kInputReplyResultField, AnyValue.ofBoolean inputReply.result),
        (kInputReplyPayloadField, inputReply.payload)] →
      HasMember (inputReplyPayload id inputReply) name w :=
    HasMember.struct [kInputReplyIndexField, kInputReplyTypeField, kInputReplyResultField,
      kInputReplyPayloadField] rfl (by decide) (by decide)
  have hindex : HasMember (inputReplyPayload id inputReply) kInputReplyIndexField
      (AnyValue.ofUInt64 id) := hmember (by simp)
  have htype : HasMember (inputReplyPayload id inputReply) kInputReplyTypeField
      (AnyValue.ofUInt32 inputReply.requestType.code) := hmember (by simp)
  have hresult : HasMember (inputReplyPayload id inputReply) kInputReplyResultField
      (AnyValue.ofBoolean inputReply.result) := hmember (by simp)
  have hpayload : HasMember (inputReplyPayload id inputReply) kInputReplyPayloadField
      inputReply.payload := hmember (by simp)
  have hvalid : validateInputReplyPayload (inputReplyPayload id inputReply) = true := by
    rw [validateInputReplyPayload, hindex.validate (LawfulAnyValue.hasType_ofUInt64 _),
      htype.validate (LawfulAnyValue.hasType_ofUInt32 _),
      hresult.validate (LawfulAnyValue.hasType_ofBoolean _), hpayload.hasField]
    rfl
  have hdecoded := base64DecodeAnyValue_of_encode h
  unfold decodeInputReply
  rw [hdecoded]
  simp only [hvalid, hindex.member, htype.member, hresult.member, hpayload.member]
  simp [bind, Except.bind, pure, Except.pure, LawfulAnyValue.asUInt64_ofUInt64,
    LawfulAnyValue.asUInt32_ofUInt32, LawfulAnyValue.asBoolean_ofBoolean]

omit [AnyValue V] [LawfulAnyValue V] [OacTree V] [LawfulBase64VariableCodec V] in
/-- A codec that encodes every value does not let the encoding throw. -/
theorem base64EncodeAnyValue_ok [TotalBase64VariableCodec V] (value : V) :
    ∃ encoded, base64EncodeAnyValue value = .ok encoded := by
  obtain ⟨encoded, hencode⟩ := TotalBase64VariableCodec.encode_succeeds value
  exact ⟨encoded, by rw [base64EncodeAnyValue, hencode]⟩

variable [SupProtocol V]

omit [LawfulAnyValue V] [LawfulBase64VariableCodec V] in
/-- The handler offers the reply in its packet to the request server and answers whether it was
accepted. -/
theorem setClientReply_of_decoded {input encoded : V} {id : UInt64}
    {reply : UserInputReply V}
    (hextract : SupProtocol.functionProtocolExtract input kUserReplyValueFieldName = some encoded)
    (hdecode : decodeInputReply encoded = .ok (true, id, reply)) (output : V)
    (requestServer : InputRequestServer V) :
    InputProtocolServer.setClientReply input output requestServer =
      .ok ((if (requestServer.setClientReply id reply).1 then SupProtocol.success V
        else clientReplyRefused V, output), (requestServer.setClientReply id reply).2) := by
  simp only [InputProtocolServer.setClientReply, hextract, hdecode]
  change (if !(requestServer.setClientReply id reply).1 then
      pure (clientReplyRefused V, output)
    else pure (SupProtocol.success V, output) : InputServerM V (ProtocolResult × V))
      (requestServer.setClientReply id reply).2 = _
  cases (requestServer.setClientReply id reply).1 with
  | false => rfl
  | true => rfl

variable [LawfulSupProtocol V] [TotalBase64VariableCodec V]

/-- A reply that is sent through the protocol is offered to the request server, and the client
learns whether it was accepted. -/
theorem setClientReply_inputProtocolServer (id : UInt64) (reply : UserInputReply V)
    (requestServer : InputRequestServer V) :
    InputProtocolClient.setClientReply inputProtocolServer id reply requestServer =
      .ok (requestServer.setClientReply id reply) := by
  obtain ⟨encoded, hencode⟩ := base64EncodeAnyValue_ok (inputReplyPayload id reply)
  have hname := functionName_packed kSetReplyFunctionName [(kUserReplyValueFieldName, encoded)]
    [kUserReplyValueFieldName] rfl (by decide)
  have hextract := extract_packed kSetReplyFunctionName [(kUserReplyValueFieldName, encoded)]
    [kUserReplyValueFieldName] rfl (by decide) (List.mem_singleton_self _)
  have hinvoke := setClientReply_of_decoded hextract (decodeInputReply_encode hencode)
    AnyValue.empty requestServer
  have hcall : inputProtocolServer.invoke (SupProtocol.functionProtocolPack
      (SupProtocol.functionProtocolInput kSetReplyFunctionName) kUserReplyValueFieldName encoded)
      AnyValue.empty requestServer = _ :=
    (congrFun (LawfulSupProtocol.callFunctionProtocol_of_lookup hname rfl AnyValue.empty
      (notSupported V)) requestServer).trans hinvoke
  rw [InputProtocolClient.setClientReply, encodeInputReply, hencode]
  change (inputProtocolServer.invoke _ _ requestServer >>= _ : Except Exception _) = _
  rw [hcall]
  -- the client takes the success for an acceptance, and no other result
  have hresult (accepted : Bool) :
      decide ((if accepted then SupProtocol.success V else clientReplyRefused V) =
        SupProtocol.success V) = accepted := by
    cases accepted with
    | false => exact decide_eq_false (LawfulSupProtocol.specificApplicationError_ne 4 (by decide))
    | true => exact decide_eq_true rfl
  change Except.ok (decide ((if (requestServer.setClientReply id reply).1 then _ else _) = _),
    (requestServer.setClientReply id reply).2) = _
  rw [hresult]

end RoundTrip

end OacTreeServer.Input
