import OacTreeServer.External.Reference
import OacTreeServer.Input.InputProtocol
import OacTreeServer.Protocol.Entries

/-!
# The shapes of encoded values

Every decoder asks for the fields of one shape: a list of names, some with a type that the
field must have (`base/output_entry_helper.cpp:37`, `base/input_request_helper.cpp:80`,
`base/input_reply_helper.cpp:87`, `base/oac_tree_protocol.cpp:338`). It reads a value of that
shape field by field, and answers every other value with its failure result.
-/

namespace OacTreeServer.Input
open OacTreeServer.External OacTreeServer.Protocol

/-- A required field: its name, and its type if that is fixed. -/
structure FieldSpec where
  name : String
  type : Option ScalarType

section Shapes

variable {V : Type} [AnyValue V]

/-- The value has the field, with exactly the type that is asked for. -/
def FieldSpec.Holds (v : V) (field : FieldSpec) : Prop :=
  ∃ w, HasMember v field.name w ∧ ∀ type, field.type = some type → AnyValue.hasType w type = true

/-- The value has all fields of a shape. -/
def HasShape (shape : List FieldSpec) (v : V) : Prop := ∀ field ∈ shape, field.Holds v

/-- The value converts to the content of a field. -/
def ReadsField {A : Type} (v : V) (name : String) (convert : V → Except Exception A) (a : A) :
    Prop :=
  ∃ w, HasMember v name w ∧ convert w = .ok a

/-- What an encoder and its decoder owe each other. A decoded value is `wrap` of what was
encoded; a value that is acceptable is read as `reads` tells, and every other value has the
failure for a result. Neither of them throws. -/
structure WireCodec {A R : Type} (encode : A → Except Exception V)
    (decode : V → Except Exception R) (wrap : A → R) (acceptable : V → Prop)
    (reads : V → R → Prop) (failure : R) : Prop where
  decode_encode : ∀ a, ∃ encoded, encode a = .ok encoded ∧ decode encoded = .ok (wrap a)
  decode_acceptable : ∀ v, acceptable v → ∃ r, decode v = .ok r ∧ reads v r
  decode_failure : ∀ v, ¬ acceptable v → decode v = .ok failure

/-- A shape of no fields is one of every value. -/
@[simp] theorem hasShape_nil (v : V) : HasShape [] v := fun _ h ↦ nomatch h

/-- A value has each field of a shape. -/
@[simp] theorem hasShape_cons (field : FieldSpec) (shape : List FieldSpec) (v : V) :
    HasShape (field :: shape) v ↔ field.Holds v ∧ HasShape shape v :=
  List.forall_mem_cons

/-- `ValidateMemberType` asks for a field of a fixed type. -/
theorem validateMemberType_iff [LawfulAnyValue V] (v : V) (name : String) (type : ScalarType) :
    AnyValue.validateMemberType v name type = true ↔ FieldSpec.Holds v ⟨name, some type⟩ := by
  constructor
  · intro h
    obtain ⟨hfield, w, hw, ht⟩ := (LawfulAnyValue.validateMemberType_iff v name type).mp h
    refine ⟨w, ⟨hfield, hw⟩, ?_⟩
    rintro _ ⟨⟩
    exact ht
  · rintro ⟨w, hw, ht⟩
    exact hw.validate (ht type rfl)

/-- A program that reads a field goes on with its content. -/
private theorem ReadsField.bind_eq {A R : Type} {v : V} {name : String}
    {convert : V → Except Exception A} {a : A} (h : ReadsField v name convert a)
    (next : A → Except Exception R) :
    (AnyValue.member v name >>= fun w ↦ convert w >>= next) = next a := by
  obtain ⟨w, hw, ha⟩ := h
  rw [hw.member]
  change convert w >>= next = next a
  rw [ha]
  rfl

/-- A field of any type is read as it is. -/
private theorem member_bind_eq {R : Type} {v w : V} {name : String} (h : HasMember v name w)
    (next : V → Except Exception R) : (AnyValue.member v name >>= next) = next w := by
  rw [h.member]
  rfl

variable [LawfulAnyValue V]

/-- `HasField` asks for a field of any type. -/
theorem hasField_iff (v : V) (name : String) :
    AnyValue.hasField v name = true ↔ FieldSpec.Holds v ⟨name, none⟩ := by
  constructor
  · intro h
    obtain ⟨w, hw⟩ := LawfulAnyValue.member_of_hasField v name h
    exact ⟨w, ⟨h, hw⟩, nofun⟩
  · rintro ⟨w, hw, -⟩
    exact hw.hasField

omit [LawfulAnyValue V] in
/-- A field of a fixed type is read when its conversion is total on values of that type. -/
private theorem readsField_of_holds {A : Type} {v : V} {name : String} {type : ScalarType}
    {convert : V → Except Exception A}
    (hconvert : ∀ w, AnyValue.hasType w type = true → ∃ a, convert w = .ok a)
    (h : FieldSpec.Holds v ⟨name, some type⟩) : ∃ a, ReadsField v name convert a := by
  obtain ⟨w, hw, ht⟩ := h
  obtain ⟨a, ha⟩ := hconvert w (ht type rfl)
  exact ⟨a, w, hw, ha⟩

end Shapes

section Specifications

variable (V : Type) [OacTree V]

/-- The fields of an encoded log entry; `oac_tree_protocol.cpp:65`. -/
def logEntryShape : List FieldSpec :=
  [⟨OacTree.kIndexField V, some .unsignedInteger64⟩, ⟨kSeverityField, some .signedInteger32⟩,
    ⟨kMessageField, some .string⟩]

/-- The fields of an encoded message; `oac_tree_protocol.cpp:71`. -/
def messageEntryShape : List FieldSpec :=
  [⟨OacTree.kIndexField V, some .unsignedInteger64⟩, ⟨kMessageField, some .string⟩]

/-- The fields of an encoded output value; `oac_tree_protocol.cpp:76`. -/
def outputValueEntryShape : List FieldSpec :=
  [⟨OacTree.kIndexField V, some .unsignedInteger64⟩, ⟨kDescriptionField, some .string⟩,
    ⟨kValueField, none⟩]

/-- The fields of an encoded request; `oac_tree_protocol.cpp:58`. -/
def inputRequestShape : List FieldSpec :=
  [⟨kInputRequestIndexField, some .unsignedInteger64⟩,
    ⟨kInputRequestTypeField, some .unsignedInteger32⟩, ⟨kInputRequestMetadataField, none⟩,
    ⟨kInputRequestInputValueField, none⟩]

/-- The fields of a reply, before it is encoded in base64; `input_reply_helper.cpp:49`. -/
def inputReplyShape : List FieldSpec :=
  [⟨kInputReplyIndexField, some .unsignedInteger64⟩,
    ⟨kInputReplyTypeField, some .unsignedInteger32⟩, ⟨kInputReplyResultField, some .boolean⟩,
    ⟨kInputReplyPayloadField, none⟩]

/-- The fields of the state of a variable; `oac_tree_protocol.cpp:53`. -/
def variableShape : List FieldSpec :=
  [⟨kVariableValueField, none⟩, ⟨kVariableConnectedField, some .boolean⟩]

/-- The field of a breakpoint instruction; `oac_tree_protocol.cpp:187`. -/
def breakpointInstructionShape : List FieldSpec :=
  [⟨OacTree.kIndexField V, some .unsignedInteger32⟩]

end Specifications

section Contents

variable {V : Type} [AnyValue V]

/-- What a decoded log entry tells about the value. -/
def ReadsLogEntry [OacTree V] (v : V) (r : Bool × LogEntry) : Prop :=
  r.1 = true ∧ ReadsField v (OacTree.kIndexField V) AnyValue.asUInt64 r.2.index ∧
    ReadsField v kSeverityField AnyValue.asInt32 r.2.severity ∧
    ReadsField v kMessageField AnyValue.asString r.2.message

/-- What a decoded message entry tells about the value. -/
def ReadsMessageEntry [OacTree V] (v : V) (r : Bool × MessageEntry) : Prop :=
  r.1 = true ∧ ReadsField v (OacTree.kIndexField V) AnyValue.asUInt64 r.2.index ∧
    ReadsField v kMessageField AnyValue.asString r.2.message

/-- What a decoded output value tells about the value. -/
def ReadsOutputValueEntry [OacTree V] (v : V) (r : Bool × OutputValueEntry V) : Prop :=
  r.1 = true ∧ ReadsField v (OacTree.kIndexField V) AnyValue.asUInt64 r.2.index ∧
    ReadsField v kDescriptionField AnyValue.asString r.2.description ∧
    HasMember v kValueField r.2.value

/-- What a decoded request tells about the value. -/
def ReadsInputRequest (v : V) (r : Bool × UInt64 × UserInputRequest V) : Prop :=
  r.1 = true ∧ ReadsField v kInputRequestIndexField AnyValue.asUInt64 r.2.1 ∧
    ReadsField v kInputRequestTypeField AnyValue.asUInt32 r.2.2.requestType.code ∧
    HasMember v kInputRequestMetadataField r.2.2.metaData ∧
    HasMember v kInputRequestInputValueField r.2.2.inputValue

/-- The value is the Base64 encoding of one with the shape of a reply. -/
def IsEncodedReply [Base64VariableCodec V] (v : V) : Prop :=
  (base64DecodeAnyValue v).1 = true ∧ HasShape inputReplyShape (base64DecodeAnyValue v).2

/-- What a decoded reply tells about the value behind the Base64 encoding. -/
def ReadsInputReply [Base64VariableCodec V] (v : V) (r : Bool × UInt64 × UserInputReply V) :
    Prop :=
  r.1 = true ∧
    ReadsField (base64DecodeAnyValue v).2 kInputReplyIndexField AnyValue.asUInt64 r.2.1 ∧
    ReadsField (base64DecodeAnyValue v).2 kInputReplyTypeField AnyValue.asUInt32
      r.2.2.requestType.code ∧
    ReadsField (base64DecodeAnyValue v).2 kInputReplyResultField AnyValue.asBoolean
      r.2.2.result ∧
    HasMember (base64DecodeAnyValue v).2 kInputReplyPayloadField r.2.2.payload

/-- What the decoded state of a variable tells about the value. -/
def ReadsVariableState (v : V) (r : V × Bool) : Prop :=
  HasMember v kVariableValueField r.1 ∧
    ReadsField v kVariableConnectedField AnyValue.asBoolean r.2

/-- What a decoded breakpoint instruction tells about the value. -/
def ReadsBreakpointInstruction [OacTree V] (v : V) (r : Bool × UInt32) : Prop :=
  r.1 = true ∧ ReadsField v (OacTree.kIndexField V) AnyValue.asUInt32 r.2

end Contents

section Validators

variable {V : Type} [AnyValue V] [LawfulAnyValue V]

/-- `ValidateLogEntryAnyValue` asks for the shape of a log entry. -/
theorem validateLogEntryAnyValue_iff [OacTree V] (v : V) :
    validateLogEntryAnyValue v = true ↔ HasShape (logEntryShape V) v := by
  simp [validateLogEntryAnyValue, logEntryShape, validateMemberType_iff, and_assoc]

/-- `ValidateMessageEntryAnyValue` asks for the shape of a message entry. -/
theorem validateMessageEntryAnyValue_iff [OacTree V] (v : V) :
    validateMessageEntryAnyValue v = true ↔ HasShape (messageEntryShape V) v := by
  simp [validateMessageEntryAnyValue, messageEntryShape, validateMemberType_iff]

/-- `ValidateOutputValueEntryAnyValue` asks for the shape of an output value. -/
theorem validateOutputValueEntryAnyValue_iff [OacTree V] (v : V) :
    validateOutputValueEntryAnyValue v = true ↔ HasShape (outputValueEntryShape V) v := by
  simp [validateOutputValueEntryAnyValue, outputValueEntryShape, validateMemberType_iff,
    hasField_iff, and_assoc]

/-- `ValidateInputRequestPayload` asks for the shape of a request. -/
theorem validateInputRequestPayload_iff (v : V) :
    validateInputRequestPayload v = true ↔ HasShape inputRequestShape v := by
  simp [validateInputRequestPayload, inputRequestShape, validateMemberType_iff, hasField_iff,
    and_assoc]

/-- `ValidateInputReplyPayload` asks for the shape of a reply. -/
theorem validateInputReplyPayload_iff (v : V) :
    validateInputReplyPayload v = true ↔ HasShape inputReplyShape v := by
  simp [validateInputReplyPayload, inputReplyShape, validateMemberType_iff, hasField_iff,
    and_assoc]

/-- `ValidateVariableAnyValue` asks for the shape of a variable. -/
theorem validateVariableAnyValue_iff (v : V) :
    validateVariableAnyValue v = true ↔ HasShape variableShape v := by
  simp [validateVariableAnyValue, variableShape, validateMemberType_iff, hasField_iff]

end Validators

section Codecs

variable {V : Type} [AnyValue V] [LawfulAnyValue V]

/-- The codec of log entries. -/
theorem logEntry_codec [OacTree V] [LawfulOacTree V] :
    WireCodec (fun e ↦ .ok (encodeLogEntry e : V)) decodeLogEntry (fun e ↦ (true, e))
      (HasShape (logEntryShape V)) ReadsLogEntry (false, ⟨0, 0, ""⟩) where
  decode_encode e := ⟨_, rfl, decodeLogEntry_encode e⟩
  decode_acceptable v hshape := by
    have hvalid := (validateLogEntryAnyValue_iff v).mpr hshape
    simp only [logEntryShape, hasShape_cons] at hshape
    obtain ⟨hindex, hseverity, hmessage, -⟩ := hshape
    obtain ⟨index, hindex⟩ := readsField_of_holds LawfulAnyValue.asUInt64_of_hasType hindex
    obtain ⟨severity, hseverity⟩ := readsField_of_holds LawfulAnyValue.asInt32_of_hasType hseverity
    obtain ⟨message, hmessage⟩ := readsField_of_holds LawfulAnyValue.asString_of_hasType hmessage
    refine ⟨(true, ⟨index, severity, message⟩), ?_, rfl, hindex, hseverity, hmessage⟩
    rw [decodeLogEntry, hvalid]
    exact ((hindex.bind_eq _).trans (hseverity.bind_eq _)).trans (hmessage.bind_eq _)
  decode_failure v hshape := by
    rw [← validateLogEntryAnyValue_iff, Bool.not_eq_true] at hshape
    rw [decodeLogEntry, hshape]
    rfl

/-- The codec of message entries. -/
theorem messageEntry_codec [OacTree V] [LawfulOacTree V] :
    WireCodec (fun e ↦ .ok (encodeMessageEntry e : V)) decodeMessageEntry (fun e ↦ (true, e))
      (HasShape (messageEntryShape V)) ReadsMessageEntry (false, ⟨0, ""⟩) where
  decode_encode e := ⟨_, rfl, decodeMessageEntry_encode e⟩
  decode_acceptable v hshape := by
    have hvalid := (validateMessageEntryAnyValue_iff v).mpr hshape
    simp only [messageEntryShape, hasShape_cons] at hshape
    obtain ⟨hindex, hmessage, -⟩ := hshape
    obtain ⟨index, hindex⟩ := readsField_of_holds LawfulAnyValue.asUInt64_of_hasType hindex
    obtain ⟨message, hmessage⟩ := readsField_of_holds LawfulAnyValue.asString_of_hasType hmessage
    refine ⟨(true, ⟨index, message⟩), ?_, rfl, hindex, hmessage⟩
    rw [decodeMessageEntry, hvalid]
    exact (hindex.bind_eq _).trans (hmessage.bind_eq _)
  decode_failure v hshape := by
    rw [← validateMessageEntryAnyValue_iff, Bool.not_eq_true] at hshape
    rw [decodeMessageEntry, hshape]
    rfl

/-- The codec of output values. -/
theorem outputValueEntry_codec [OacTree V] [LawfulOacTree V] :
    WireCodec (fun e : OutputValueEntry V ↦ .ok (encodeOutputValueEntry e)) decodeOutputValueEntry
      (fun e ↦ (true, e)) (HasShape (outputValueEntryShape V)) ReadsOutputValueEntry
      (false, ⟨0, "", AnyValue.empty⟩) where
  decode_encode e := ⟨_, rfl, decodeOutputValueEntry_encode e⟩
  decode_acceptable v hshape := by
    have hvalid := (validateOutputValueEntryAnyValue_iff v).mpr hshape
    simp only [outputValueEntryShape, hasShape_cons] at hshape
    obtain ⟨hindex, hdescription, ⟨value, hvalue, -⟩, -⟩ := hshape
    obtain ⟨index, hindex⟩ := readsField_of_holds LawfulAnyValue.asUInt64_of_hasType hindex
    obtain ⟨description, hdescription⟩ :=
      readsField_of_holds LawfulAnyValue.asString_of_hasType hdescription
    refine ⟨(true, ⟨index, description, value⟩), ?_, rfl, hindex, hdescription, hvalue⟩
    rw [decodeOutputValueEntry, hvalid]
    exact ((hindex.bind_eq _).trans (hdescription.bind_eq _)).trans (member_bind_eq hvalue _)
  decode_failure v hshape := by
    rw [← validateOutputValueEntryAnyValue_iff, Bool.not_eq_true] at hshape
    rw [decodeOutputValueEntry, hshape]
    rfl

/-- The codec of requests. -/
theorem inputRequest_codec [OacTree V] :
    WireCodec (fun r : UInt64 × UserInputRequest V ↦ .ok (encodeInputRequest r.1 r.2))
      decodeInputRequest (fun r ↦ (true, r)) (HasShape inputRequestShape) ReadsInputRequest
      (false, 0, OacTree.kInvalidUserInputRequest) where
  decode_encode r := ⟨_, rfl, decodeInputRequest_encode r.1 r.2⟩
  decode_acceptable v hshape := by
    have hvalid := (validateInputRequestPayload_iff v).mpr hshape
    simp only [inputRequestShape, hasShape_cons] at hshape
    obtain ⟨hindex, htype, ⟨metaData, hmeta, -⟩, ⟨inputValue, hinput, -⟩, -⟩ := hshape
    obtain ⟨index, hindex⟩ := readsField_of_holds LawfulAnyValue.asUInt64_of_hasType hindex
    obtain ⟨code, htype⟩ := readsField_of_holds LawfulAnyValue.asUInt32_of_hasType htype
    refine ⟨(true, index, ⟨⟨code⟩, metaData, inputValue⟩), ?_, rfl, hindex, htype, hmeta, hinput⟩
    rw [decodeInputRequest, hvalid]
    exact (((hindex.bind_eq _).trans (htype.bind_eq _)).trans (member_bind_eq hmeta _)).trans
      (member_bind_eq hinput _)
  decode_failure v hshape := by
    rw [← validateInputRequestPayload_iff, Bool.not_eq_true] at hshape
    rw [decodeInputRequest, hshape]
    rfl

/-- An encoded reply is read field by field. -/
theorem decodeInputReply_of_encoded [OacTree V] [Base64VariableCodec V] {v : V}
    (h : IsEncodedReply v) : ∃ r, decodeInputReply v = .ok r ∧ ReadsInputReply v r := by
  obtain ⟨hdecoded, hshape⟩ := h
  unfold decodeInputReply ReadsInputReply
  generalize base64DecodeAnyValue v = decoded at hdecoded hshape ⊢
  obtain ⟨flag, payload⟩ := decoded
  cases hdecoded
  have hvalid : validateInputReplyPayload payload = true :=
    (validateInputReplyPayload_iff payload).mpr hshape
  simp only [inputReplyShape, hasShape_cons] at hshape
  obtain ⟨hindex, htype, hresult, ⟨replyPayload, hpayload, -⟩, -⟩ := hshape
  obtain ⟨index, hindex⟩ := readsField_of_holds LawfulAnyValue.asUInt64_of_hasType hindex
  obtain ⟨code, htype⟩ := readsField_of_holds LawfulAnyValue.asUInt32_of_hasType htype
  obtain ⟨result, hresult⟩ := readsField_of_holds LawfulAnyValue.asBoolean_of_hasType hresult
  refine ⟨(true, index, ⟨⟨code⟩, result, replyPayload⟩), ?_, rfl, hindex, htype, hresult,
    hpayload⟩
  dsimp only
  rw [hvalid]
  exact (((hindex.bind_eq _).trans (htype.bind_eq _)).trans (hresult.bind_eq _)).trans
    (member_bind_eq hpayload _)

/-- A value that is no encoded reply has the failure for a result. -/
theorem decodeInputReply_of_not_encoded [OacTree V] [Base64VariableCodec V] {v : V}
    (h : ¬ IsEncodedReply v) :
    decodeInputReply v = .ok (false, 0, OacTree.kInvalidUserInputReply) := by
  unfold IsEncodedReply at h
  unfold decodeInputReply
  generalize base64DecodeAnyValue v = decoded at h ⊢
  obtain ⟨flag, payload⟩ := decoded
  cases flag with
  | false => rfl
  | true =>
    have hvalid : validateInputReplyPayload payload = false := by
      rw [← Bool.not_eq_true, validateInputReplyPayload_iff]
      exact fun hshape ↦ h ⟨rfl, hshape⟩
    dsimp only
    rw [hvalid]
    rfl

/-- Decoding a reply does not throw. -/
theorem decodeInputReply_ok [OacTree V] [Base64VariableCodec V] (v : V) :
    ∃ r, decodeInputReply v = .ok r := by
  by_cases h : IsEncodedReply v
  · obtain ⟨r, hr, -⟩ := decodeInputReply_of_encoded h
    exact ⟨r, hr⟩
  · exact ⟨_, decodeInputReply_of_not_encoded h⟩

/-- The codec of replies. -/
theorem inputReply_codec [OacTree V] [Base64VariableCodec V] [LawfulBase64VariableCodec V]
    [TotalBase64VariableCodec V] :
    WireCodec (fun r : UInt64 × UserInputReply V ↦ encodeInputReply r.1 r.2) decodeInputReply
      (fun r ↦ (true, r)) IsEncodedReply ReadsInputReply
      (false, 0, OacTree.kInvalidUserInputReply) where
  decode_encode r := by
    obtain ⟨encoded, hencode⟩ := base64EncodeAnyValue_ok (inputReplyPayload r.1 r.2)
    exact ⟨encoded, hencode, decodeInputReply_encode hencode⟩
  decode_acceptable _ hacceptable := decodeInputReply_of_encoded hacceptable
  decode_failure _ hacceptable := decodeInputReply_of_not_encoded hacceptable

/-- The codec of the state of a variable. -/
theorem variableState_codec :
    WireCodec (fun s : V × Bool ↦ .ok (encodeVariableState s.1 s.2)) decodeVariableState id
      (HasShape variableShape) ReadsVariableState (AnyValue.empty, false) where
  decode_encode s := ⟨_, rfl, decodeVariableState_encode s.1 s.2⟩
  decode_acceptable v hshape := by
    have hvalid := (validateVariableAnyValue_iff v).mpr hshape
    simp only [variableShape, hasShape_cons] at hshape
    obtain ⟨⟨value, hvalue, -⟩, hconnected, -⟩ := hshape
    obtain ⟨connected, hconnected⟩ :=
      readsField_of_holds LawfulAnyValue.asBoolean_of_hasType hconnected
    refine ⟨(value, connected), ?_, hvalue, hconnected⟩
    rw [decodeVariableState, hvalid]
    exact (member_bind_eq hvalue _).trans (hconnected.bind_eq _)
  decode_failure v hshape := by
    rw [← validateVariableAnyValue_iff, Bool.not_eq_true] at hshape
    rw [decodeVariableState, hshape]
    rfl

/-- The codec of the breakpoint instruction. -/
theorem breakpointInstruction_codec [OacTree V] [LawfulOacTree V] :
    WireCodec (fun i ↦ .ok (getBreakpointInstructionValue i : V)) decodeBreakpointInstructionIndex
      (fun i ↦ (true, i)) (HasShape (breakpointInstructionShape V)) ReadsBreakpointInstruction
      (false, 0) where
  decode_encode i := ⟨_, rfl, decodeBreakpointInstructionIndex_get i⟩
  decode_acceptable v hshape := by
    simp only [breakpointInstructionShape, hasShape_cons] at hshape
    obtain ⟨w, hw, ht⟩ := hshape.1
    have htype : AnyValue.hasType w .unsignedInteger32 = true := ht _ rfl
    obtain ⟨i, hi⟩ := LawfulAnyValue.asUInt32_of_hasType w htype
    refine ⟨(true, i), ?_, rfl, w, hw, hi⟩
    rw [decodeBreakpointInstructionIndex, hw.hasField]
    refine (member_bind_eq hw _).trans ?_
    rw [htype]
    change AnyValue.asUInt32 w >>= _ = _
    rw [hi]
    rfl
  decode_failure v hshape := by
    simp only [breakpointInstructionShape, hasShape_cons, hasShape_nil, and_true] at hshape
    unfold decodeBreakpointInstructionIndex
    cases hfield : AnyValue.hasField v (OacTree.kIndexField V) with
    | false => rfl
    | true =>
      obtain ⟨w, hw⟩ := LawfulAnyValue.member_of_hasField v _ hfield
      have htype : AnyValue.hasType w .unsignedInteger32 = false := by
        rw [← Bool.not_eq_true]
        intro ht
        refine hshape ⟨w, ⟨hfield, hw⟩, ?_⟩
        rintro _ ⟨⟩
        exact ht
      refine (member_bind_eq ⟨hfield, hw⟩ _).trans ?_
      rw [htype]
      rfl

/-- The encoders and decoders of the wire are inverse to each other and reject every wrong
shape, whatever the value is: a value of the shape that a decoder asks for is read field by
field, every other value has the failure for a result, and neither encoding nor decoding
throws. -/
theorem wire_codecs_inverse [OacTree V] [LawfulOacTree V] [Base64VariableCodec V]
    [LawfulBase64VariableCodec V] [TotalBase64VariableCodec V] :
    WireCodec (fun e ↦ .ok (encodeLogEntry e : V)) decodeLogEntry (fun e ↦ (true, e))
      (HasShape (logEntryShape V)) ReadsLogEntry (false, ⟨0, 0, ""⟩) ∧
    WireCodec (fun e ↦ .ok (encodeMessageEntry e : V)) decodeMessageEntry (fun e ↦ (true, e))
      (HasShape (messageEntryShape V)) ReadsMessageEntry (false, ⟨0, ""⟩) ∧
    WireCodec (fun e : OutputValueEntry V ↦ .ok (encodeOutputValueEntry e))
      decodeOutputValueEntry (fun e ↦ (true, e)) (HasShape (outputValueEntryShape V))
      ReadsOutputValueEntry (false, ⟨0, "", AnyValue.empty⟩) ∧
    WireCodec (fun r : UInt64 × UserInputRequest V ↦ .ok (encodeInputRequest r.1 r.2))
      decodeInputRequest (fun r ↦ (true, r)) (HasShape inputRequestShape) ReadsInputRequest
      (false, 0, OacTree.kInvalidUserInputRequest) ∧
    WireCodec (fun r : UInt64 × UserInputReply V ↦ encodeInputReply r.1 r.2) decodeInputReply
      (fun r ↦ (true, r)) IsEncodedReply ReadsInputReply
      (false, 0, OacTree.kInvalidUserInputReply) ∧
    WireCodec (fun s : V × Bool ↦ .ok (encodeVariableState s.1 s.2)) decodeVariableState id
      (HasShape variableShape) ReadsVariableState (AnyValue.empty, false) ∧
    WireCodec (fun i ↦ .ok (getBreakpointInstructionValue i : V))
      decodeBreakpointInstructionIndex (fun i ↦ (true, i))
      (HasShape (breakpointInstructionShape V)) ReadsBreakpointInstruction (false, 0) :=
  ⟨logEntry_codec, messageEntry_codec, outputValueEntry_codec, inputRequest_codec,
    inputReply_codec, variableState_codec, breakpointInstruction_codec⟩

/-- A log entry is decoded to itself; a message entry whose index is no 64-bit number and an
array for a reply are rejected. -/
theorem wire_codecs_inverse_samples :
    decodeLogEntry (encodeLogEntry ⟨3, 6, "done"⟩ : DtoValue) = .ok (true, ⟨3, 6, "done"⟩) ∧
    decodeMessageEntry (DtoValue.struct "" [("index", .uint32 3), ("message", .string "done")]) =
      .ok (false, ⟨0, ""⟩) ∧
    decodeInputReply (DtoValue.array [.uint64 1]) =
      .ok (false, 0, OacTree.kInvalidUserInputReply) := by
  obtain ⟨hlog, hmessage, -, -, hreply, -⟩ := wire_codecs_inverse (V := DtoValue)
  refine ⟨?_, hmessage.decode_failure _ ?_, hreply.decode_failure _ ?_⟩
  · obtain ⟨encoded, hencoded, hdecoded⟩ := hlog.decode_encode ⟨3, 6, "done"⟩
    cases hencoded
    exact hdecoded
  · rw [← validateMessageEntryAnyValue_iff]
    decide
  · exact fun hencoded ↦ Bool.false_ne_true hencoded.1

end Codecs

end OacTreeServer.Input
