import OacTreeServer.Input.WireCodecs

/-!
# Replies of an unknown type

The type of a reply travels as a 32-bit number that is cast to an enumeration
(`base/input_reply_helper.cpp:78`), and the request server only tells the enumerator for
invalid replies from the others (`base/input_request_server.cpp:113`). A packet with another
number fills the slot of a pending request.
-/

namespace OacTreeServer.Input
open OacTreeServer.External OacTreeServer.Protocol

variable {V : Type} [AnyValue V] [OacTree V] [Base64VariableCodec V] [SupProtocol V]

/-- The packet of a call carries this reply to a request. -/
def CarriesReply (input : V) (id : UInt64) (reply : UserInputReply V) : Prop :=
  ∃ encoded, SupProtocol.functionProtocolExtract input kUserReplyValueFieldName = some encoded ∧
    decodeInputReply encoded = .ok (true, id, reply)

variable (V) in
/-- The type is an enumerator for a request. -/
def IsRequestType (type : InputRequestType) : Prop :=
  type = OacTree.kUserValue V ∨ type = OacTree.kUserChoice V

/-- A call only uses up the pending request for a reply to it of a known type. A reply of
another type is refused and leaves the request server as it is, so that what would have been
accepted before it is accepted behind it. -/
structure KeepsRequest (requestServer : InputRequestServer V) (input output : V) : Prop where
  accepted : ∀ {result out requestServer'},
    InputProtocolServer.setClientReply input output requestServer =
      .ok ((result, out), requestServer') →
    result = SupProtocol.success V ∨ requestServer'.reply ≠ requestServer.reply →
    ∃ id reply, CarriesReply input id reply ∧ id ≠ 0 ∧ id = requestServer.requestId ∧
      IsRequestType V reply.requestType
  refused : ∀ {id reply}, CarriesReply input id reply → ¬ IsRequestType V reply.requestType →
    InputProtocolServer.setClientReply input output requestServer =
      .ok ((clientReplyRefused V, output), requestServer)
  later : ∀ {id reply}, CarriesReply input id reply → ¬ IsRequestType V reply.requestType →
    ∀ {answer requestServer'}, InputProtocolServer.setClientReply input output requestServer =
      .ok (answer, requestServer') →
    ∀ laterInput laterOutput, (∃ out behind,
      InputProtocolServer.setClientReply laterInput laterOutput requestServer =
        .ok ((SupProtocol.success V, out), behind)) →
    ∃ out behind, InputProtocolServer.setClientReply laterInput laterOutput requestServer' =
      .ok ((SupProtocol.success V, out), behind)

/-- A packet with a reply of an unknown type that is not the one for invalid replies, to a
request that is pending and still has its slot free. -/
def FillsWithGarbage (requestServer : InputRequestServer V) (input : V) : Prop :=
  ∃ id reply, CarriesReply input id reply ∧ id ≠ 0 ∧ id = requestServer.requestId ∧
    isValid requestServer.reply = false ∧ isValid reply = true ∧
    ¬ IsRequestType V reply.requestType

/-- A packet carries one reply. -/
theorem CarriesReply.unique {input : V} {id id' : UInt64} {reply reply' : UserInputReply V}
    (h : CarriesReply input id reply) (h' : CarriesReply input id' reply') :
    id = id' ∧ reply = reply' := by
  obtain ⟨encoded, hextract, hdecode⟩ := h
  obtain ⟨encoded', hextract', hdecode'⟩ := h'
  rw [hextract] at hextract'
  cases hextract'
  rw [hdecode] at hdecode'
  cases hdecode'
  exact ⟨rfl, rfl⟩

/-- A packet with a reply is answered by what the request server does with the reply. -/
theorem CarriesReply.setClientReply {input : V} {id : UInt64} {reply : UserInputReply V}
    (h : CarriesReply input id reply) (output : V) (requestServer : InputRequestServer V) :
    InputProtocolServer.setClientReply input output requestServer =
      .ok ((if (requestServer.setClientReply id reply).1 then SupProtocol.success V
        else clientReplyRefused V, output), (requestServer.setClientReply id reply).2) := by
  obtain ⟨encoded, hextract, hdecode⟩ := h
  exact setClientReply_of_decoded hextract hdecode output requestServer

/-- A packet without a reply is answered by an error. -/
theorem setClientReply_of_no_reply [LawfulAnyValue V] {input : V}
    (h : ∀ id reply, ¬ CarriesReply input id reply) (output : V)
    (requestServer : InputRequestServer V) :
    InputProtocolServer.setClientReply input output requestServer =
      .ok ((SupProtocol.serverProtocolDecodingError V, output), requestServer) := by
  unfold InputProtocolServer.setClientReply
  cases hextract : SupProtocol.functionProtocolExtract input kUserReplyValueFieldName with
  | none => rfl
  | some encoded =>
    obtain ⟨⟨decoded, id, reply⟩, hdecode⟩ := decodeInputReply_ok encoded
    cases decoded with
    | true => exact absurd ⟨encoded, hextract, hdecode⟩ (h id reply)
    | false =>
      simp only [hdecode]
      rfl

/-- A call that is refused, and without effect, keeps the pending request. -/
private theorem keepsRequest_of_refused {requestServer : InputRequestServer V} {input output : V}
    {result : ProtocolResult} (hresult : result ≠ SupProtocol.success V)
    (hrun : InputProtocolServer.setClientReply input output requestServer =
      .ok ((result, output), requestServer))
    (hcode : ∀ id reply, CarriesReply input id reply → result = clientReplyRefused V) :
    KeepsRequest requestServer input output where
  accepted hcall hused := by
    rw [hrun] at hcall
    cases hcall
    cases hused with
    | inl hsuccess => exact absurd hsuccess hresult
    | inr hfilled => exact absurd rfl hfilled
  refused hcarries _ := by rw [hrun, hcode _ _ hcarries]
  later _ _ _ _ hcall _ _ hlater := by
    rw [hrun] at hcall
    cases hcall
    exact hlater

variable [LawfulSupProtocol V]

omit [Base64VariableCodec V] [OacTree V] in
/-- A refusal is no success. -/
private theorem clientReplyRefused_ne : clientReplyRefused V ≠ SupProtocol.success V :=
  LawfulSupProtocol.specificApplicationError_ne 4 (by decide)

/-- In every state of the request server, for every packet and every output: a call does not
use up the pending request without carrying a reply to it of a known type, exactly when it does
not carry a reply of an unknown type to a request that is still to be answered. -/
theorem garbage_reply_refused_iff [LawfulAnyValue V] (requestServer : InputRequestServer V)
    (input output : V) :
    KeepsRequest requestServer input output ↔ ¬ FillsWithGarbage requestServer input := by
  constructor
  · rintro hkeeps ⟨id, reply, hcarries, hid, hpending, hfree, hvalid, htype⟩
    have haccepted : (requestServer.setClientReply id reply).1 = true :=
      InputRequestServer.setClientReply_fst.mpr ⟨hid, hvalid, hpending, hfree⟩
    have hrun := hcarries.setClientReply output requestServer
    rw [haccepted, if_pos rfl] at hrun
    obtain ⟨id', reply', hcarries', -, -, hknown⟩ := hkeeps.accepted hrun (.inl rfl)
    rw [(hcarries.unique hcarries').2] at htype
    exact htype hknown
  · intro hgarbage
    by_cases hcarries : ∃ id reply, CarriesReply input id reply
    · obtain ⟨id, reply, hcarries⟩ := hcarries
      have hrun := hcarries.setClientReply output requestServer
      cases haccepted : (requestServer.setClientReply id reply).1 with
      | false =>
        rw [haccepted, InputRequestServer.setClientReply_of_refused haccepted] at hrun
        exact keepsRequest_of_refused clientReplyRefused_ne hrun fun _ _ _ ↦ rfl
      | true =>
        obtain ⟨hid, hvalid, hpending, hfree⟩ := InputRequestServer.setClientReply_fst.mp haccepted
        have htype : IsRequestType V reply.requestType := by
          by_contra hunknown
          exact hgarbage ⟨id, reply, hcarries, hid, hpending, hfree, hvalid, hunknown⟩
        refine ⟨fun _ _ ↦ ⟨id, reply, hcarries, hid, hpending, htype⟩, ?_, ?_⟩
        · intro id' reply' hcarries' hunknown
          rw [(hcarries.unique hcarries').2] at htype
          exact absurd htype hunknown
        · intro id' reply' hcarries' hunknown
          rw [(hcarries.unique hcarries').2] at htype
          exact absurd htype hunknown
    · have hnone : ∀ id reply, ¬ CarriesReply input id reply :=
        fun id reply h ↦ hcarries ⟨id, reply, h⟩
      exact keepsRequest_of_refused LawfulSupProtocol.serverProtocolDecodingError_ne
        (setClientReply_of_no_reply hnone output requestServer)
        fun id reply h ↦ absurd h (hnone id reply)

/-- The packet of a call with a reply of this type to the fifth request. -/
private def replyPacket (type : UInt32) : DtoValue :=
  .struct "" [("function", .string "SetReply"), ("value", .struct "" [
    ("encoding", .string "base64"), ("value", .struct "" [("idx", .uint64 5),
      ("Reply_type", .uint32 type), ("result", .boolean true), ("payload", .int32 1)])])]

/-- A reply of a known type keeps the request for itself. -/
theorem garbage_reply_refused_choice :
    KeepsRequest (InputRequestServer.new.initNewRequest 5) (replyPacket 2) .empty := by
  rw [garbage_reply_refused_iff]
  rintro ⟨id, reply, hcarries, -, -, -, -, hunknown⟩
  have hchoice : CarriesReply (replyPacket 2) 5 ⟨⟨2⟩, true, .int32 1⟩ := ⟨_, rfl, rfl⟩
  rw [(hcarries.unique hchoice).2] at hunknown
  exact hunknown (.inr rfl)

/-- A reply of the unknown type 7 is answered with a success and fills the slot of the fifth
request, so that the reply of a user is refused afterwards. -/
theorem garbage_reply_uses_up_request :
    ¬ KeepsRequest (InputRequestServer.new.initNewRequest 5) (replyPacket 7) .empty ∧
    InputProtocolServer.setClientReply (replyPacket 7) .empty
        (InputRequestServer.new.initNewRequest 5) =
      .ok ((SupProtocol.success DtoValue, .empty), ⟨5, ⟨⟨7⟩, true, .int32 1⟩, false⟩) ∧
    InputProtocolServer.setClientReply (replyPacket 2) .empty
        ⟨5, ⟨⟨7⟩, true, .int32 1⟩, false⟩ =
      .ok ((clientReplyRefused DtoValue, .empty), ⟨5, ⟨⟨7⟩, true, .int32 1⟩, false⟩) := by
  have hgarbage : CarriesReply (replyPacket 7) 5 ⟨⟨7⟩, true, .int32 1⟩ := ⟨_, rfl, rfl⟩
  refine ⟨fun hkeeps ↦ ?_, rfl, rfl⟩
  obtain ⟨id, reply, hcarries, -, -, hknown⟩ := hkeeps.accepted rfl (.inl rfl)
  rw [(hcarries.unique hgarbage).2] at hknown
  rcases hknown with h | h
  · exact absurd h (by decide)
  · exact absurd h (by decide)

end OacTreeServer.Input
