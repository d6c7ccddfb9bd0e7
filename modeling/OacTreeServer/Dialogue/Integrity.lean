import OacTreeServer.Dialogue.Conversation
import OacTreeServer.Dialogue.Requests
import OacTreeServer.Input.WireCodecs

/-!
# The integrity of the dialogue

A user is asked exactly what a procedure asks, and a procedure is answered exactly what a user
has replied to its question: no question and no reply is made up, mixed up or given to another
call, whatever is lost, late or received again in between.
-/

namespace OacTreeServer.Dialogue
open OacTreeServer.Client OacTreeServer.Epics OacTreeServer.External OacTreeServer.Input
  OacTreeServer.Library OacTreeServer.Protocol

section Requests

variable {V : Type} [AnyValue V] [LawfulAnyValue V] [OacTree V]

/-- A published request is one for the user unless it has no valid type. -/
theorem requestOf_encode (id : UInt64) (request : UserInputRequest V) :
    requestOf (encodeInputRequest id request) =
      .ok (if request.requestType = OacTree.kInvalid V then none else some (id, request)) := by
  unfold requestOf
  rw [decodeInputRequest_encode]
  change (if (!true || decide (request.requestType = OacTree.kInvalid V)) = true then
    pure none else pure (some (id, request)) : Except Exception _) = _
  split <;> simp_all [pure, Except.pure]

/-- The value that is published when no request is pending asks nobody:
`InputRequestType::kInvalid` is zero. -/
theorem requestOf_kInputRequestAnyValue (hzero : (OacTree.kInvalid V).code = 0) :
    requestOf (kInputRequestAnyValue V) = .ok none := by
  have hmember : ∀ {name : String} {w : V},
      (name, w) ∈ [(kInputRequestIndexField, AnyValue.ofUInt64 0),
        (kInputRequestTypeField, AnyValue.ofUInt32 0), (kInputRequestMetadataField, AnyValue.empty),
        (kInputRequestInputValueField, AnyValue.empty)] →
      HasMember (kInputRequestAnyValue V) name w :=
    HasMember.struct [kInputRequestIndexField, kInputRequestTypeField,
      kInputRequestMetadataField, kInputRequestInputValueField] rfl (by decide) (by decide)
  have hindex : HasMember (kInputRequestAnyValue V) kInputRequestIndexField
      (AnyValue.ofUInt64 0) := hmember (by simp)
  have htype : HasMember (kInputRequestAnyValue V) kInputRequestTypeField
      (AnyValue.ofUInt32 0) := hmember (by simp)
  have hmeta : HasMember (kInputRequestAnyValue V) kInputRequestMetadataField AnyValue.empty :=
    hmember (by simp)
  have hinput : HasMember (kInputRequestAnyValue V) kInputRequestInputValueField AnyValue.empty :=
    hmember (by simp)
  have hshape : HasShape inputRequestShape (kInputRequestAnyValue V) := by
    simp only [inputRequestShape, hasShape_cons, hasShape_nil, and_true]
    refine ⟨⟨_, hindex, ?_⟩, ⟨_, htype, ?_⟩, ⟨_, hmeta, ?_⟩, ⟨_, hinput, ?_⟩⟩
    · rintro _ ⟨⟩
      exact LawfulAnyValue.hasType_ofUInt64 _
    · rintro _ ⟨⟩
      exact LawfulAnyValue.hasType_ofUInt32 _
    · rintro _ ⟨⟩
    · rintro _ ⟨⟩
  obtain ⟨⟨success, id, request⟩, hdecode, -, -, hreads, -⟩ :=
    inputRequest_codec.decode_acceptable _ hshape
  obtain ⟨w, hw, hcode⟩ := hreads
  rw [hw.unique htype, LawfulAnyValue.asUInt32_ofUInt32] at hcode
  have hinvalid : request.requestType = OacTree.kInvalid V :=
    congrArg InputRequestType.mk ((Except.ok.inj hcode).symm.trans hzero.symm)
  unfold requestOf
  rw [hdecode]
  change (if (!success || decide (request.requestType = OacTree.kInvalid V)) = true then
    pure none else pure (some (id, request)) : Except Exception _) = _
  rw [hinvalid]
  simp [pure, Except.pure]

end Requests

section Invariant

variable {S C V : Type} [PvAccessClientPV C Nat V] [AnyValue V] [OacTree V]
  [Base64VariableCodec V] [PvAccessServer S V]

/-- Everything that is known about the dialogue on one input server. -/
structure DialogueInv (servers : Nat → String) (server : String) (s : DialogueState S C V) :
    Prop where
  conversation : ConversationInv servers s
  requests : RequestsInv servers server s
  asked : ∀ c id request, servers c = server → .asked c id request ∈ s.log →
    Before s.log (.called id server request) (.asked c id request)

variable {servers : Nat → String} {server : String} {s t : DialogueState S C V}

/-- Events that ask nothing. -/
private theorem DialogueInv.quiet (h : DialogueInv servers server s)
    (hconversation : ConversationInv servers t) (hrequests : RequestsInv servers server t)
    {events : List (DialogueEvent V)} (hlog : t.log = s.log ++ events)
    (hquiet : ∀ c id request, .asked c id request ∉ events) : DialogueInv servers server t where
  conversation := hconversation
  requests := hrequests
  asked c id request hc hmem := by
    rw [hlog] at hmem ⊢
    cases List.mem_append.mp hmem with
    | inl hold => exact (h.asked c id request hc hold).append events
    | inr hnew => exact absurd hnew (hquiet c id request)

/-- A user is asked what was called before. -/
private theorem DialogueInv.ask (h : DialogueInv servers server s)
    (hconversation : ConversationInv servers t) (hrequests : RequestsInv servers server t)
    {c : Nat} {events : List (DialogueEvent V)} (hlog : t.log = s.log ++ events)
    (hasked : ∀ c' id request, .asked c' id request ∈ events → events = [.asked c id request] ∧
      c' = c ∧ (servers c = server → callers s.input id = some (server, request))) :
    DialogueInv servers server t where
  conversation := hconversation
  requests := hrequests
  asked c' id request hc hmem := by
    rw [hlog] at hmem ⊢
    cases List.mem_append.mp hmem with
    | inl hold => exact (h.asked c' id request hc hold).append events
    | inr hnew =>
      obtain ⟨hevents, rfl, hcaller⟩ := hasked c' id request hnew
      rw [hevents]
      exact Before.concat ((h.conversation.called id server request).mp (hcaller hc)) _

omit [AnyValue V] [OacTree V] [Base64VariableCodec V] [PvAccessServer S V] in
/-- A thread of the server asks no user. -/
private theorem asked_notMem_serverEvents (input : UserInputState V) (a : UserInputAction V)
    (c : Nat) (id : UInt64) (request : UserInputRequest V) :
    .asked c id request ∉ serverEvents input a := by
  cases a with
  | advance other =>
    simp only [serverEvents]
    split <;> simp
  | _ => simp [serverEvents]

variable [LawfulAnyValue V] [LawfulOacTree V] [LawfulBase64VariableCodec V]
  [TotalBase64VariableCodec V] [LawfulPvAccessServer S] [LawfulPvAccessClientPV C] [SupProtocol V]
  [LawfulSupProtocol V]

omit [SupProtocol V] [LawfulSupProtocol V] in
/-- Every step that keeps the requests keeps the invariant. -/
theorem DialogueInv.step (h : DialogueInv servers server s)
    (hzero : (OacTree.kInvalid V).code = 0) {a : DialogueAction V} (ha : Keeps server a)
    (hstep : DialogueStep s a t) : DialogueInv servers server t := by
  have hconversation := h.conversation.step hstep
  have hinv := h.conversation.input
  have hnil : s.log = s.log ++ [] := (List.append_nil _).symm
  cases hstep with
  | server hserver hinput =>
    exact h.quiet hconversation
      (h.requests.setInput hinv ha (userInputStep_of_step hinput) _) rfl
      (asked_notMem_serverEvents _ _)
  | advance hserver hadvance =>
    exact h.quiet hconversation (h.requests.afterThread hserver hadvance) hnil nofun
  | connect hfind hrunning hvalue =>
    exact h.quiet hconversation (h.requests.connect hfind hrunning hvalue) rfl nofun
  | disconnect => exact h.quiet hconversation h.requests.disconnect rfl nofun
  | coalesce hpv => exact h.quiet hconversation (h.requests.coalesce hpv) rfl nofun
  | ignore hpv => exact h.quiet hconversation (h.requests.deliver hpv) rfl nofun
  | @deliver c handler value pv reqAv io hpv hdecode hio =>
    refine h.ask hconversation (h.requests.deliver hpv) (c := c) rfl fun c' id request hmem ↦ ?_
    simp only [clientEvents] at hmem ⊢
    split at hmem
    · next id' request' hrequest =>
      cases List.mem_singleton.mp hmem
      refine ⟨rfl, rfl, fun hc ↦ ?_⟩
      obtain ⟨other, hother, hvalue⟩ := h.requests.delivered hc hpv
      rw [hdecode] at hother
      cases hother
      -- the value that says that there is no request asks nobody
      rcases hvalue with rfl | ⟨i, call, hcall, rfl, rfl⟩
      · rw [requestOf_kInputRequestAnyValue hzero] at hrequest
        cases hrequest
      · rw [requestOf_encode] at hrequest
        split at hrequest
        · cases hrequest
        · cases hrequest
          exact callers_of_call hcall
    · cases hmem
  | @client c a io hclient hio =>
    refine h.quiet hconversation (h.requests.setSame rfl) rfl fun c' id request hmem ↦ ?_
    cases a with
    | handleUserInput => exact absurd rfl (hclient _ _)
    | getUserInputReturns handler reply =>
      simp only [clientEvents] at hmem
      split at hmem <;> simp at hmem
    | _ => cases hmem
  | @receive c message info input hinfo hinput =>
    have hreply : KeepsRequests server (.setClientReply (s.clients c).io.inputServerName info.id
        info.reply : UserInputAction V) := trivial
    exact h.quiet hconversation
      (h.requests.setInput hinv hreply (userInputStep_of_step hinput) _) rfl nofun

omit [LawfulAnyValue V] [LawfulBase64VariableCodec V] [TotalBase64VariableCodec V]
  [LawfulPvAccessServer S] [SupProtocol V] [LawfulSupProtocol V] in
/-- Nothing has happened at first. -/
theorem dialogueInv_start (servers : Nat → String) (server : String) :
    DialogueInv servers server (.start servers : DialogueState S C V) where
  conversation := conversationInv_start servers
  requests :=
    { writes := requestWrites_start _ server
      channel := fun _ ↦ LawfulPvAccessClientPV.channel_new _
      fresh := fun _ _ ↦ rfl
      noExit := fun _ ↦ nofun
      failed := fun _ _ ↦ nofun
      nodup := nofun
      initial := nofun
      served := fun _ hfind ↦ by simp [EPICSAnyValueManager.findServer, FreshManager.new,
        EPICSAnyValueManager.new, UserInputState.start, DialogueState.start] at hfind
      unserved := fun _ ↦ ⟨rfl, fun _ _ ↦
        ⟨LawfulPvAccessClientPV.source_new _, LawfulPvAccessClientPV.inFlight_new _⟩⟩ }
  asked := nofun

/-- The invariant holds in every state of every run that keeps the requests. -/
theorem dialogueInv_run (hzero : (OacTree.kInvalid V).code = 0) {acts : List (DialogueAction V)}
    (hkeeps : ∀ a ∈ acts, Keeps server a)
    (hrun : dialogueMachine.run (.start servers) acts = some s) : DialogueInv servers server s :=
  Machine.run_invariant_of_everyStep
    (fun h ha hstep ↦ h.step hzero ha (dialogueStep_of_step hstep))
    (dialogueInv_start servers server) (Machine.everyStep_of_forall_mem _ hkeeps) hrun

end Invariant

section Sample

/-- The states of a dialogue with sample servers and clients. -/
abbrev SampleDialogue : Type := DialogueState PvTable (PvMonitor Nat DtoValue) DtoValue

/-- Two clients ask their users for the number that a call needs. The reply of the second one is
received, the connection of the first one is lost, and its reply comes too late. -/
def twoClients : List (DialogueAction DtoValue) :=
  [.server (.addInputServer "S"),
    .server (.addAnyValues [("S-REQ", kInputRequestAnyValue DtoValue)]), .advance 0, .connect 0,
    .server (.getUserInput 1 "S" TwoCalls.request), .server (.advance 1), .server (.advance 1),
    .server (.advance 1), .server (.advance 1), .server (.advance 1), .advance 0, .advance 0,
    .advance 0, .connect 1, .deliver 0 0, .deliver 0 0, .deliver 1 0,
    .client 1 (.getUserInputReturns 0 TwoCalls.reply), .client 1 (.queueReply 0),
    .client 1 .advance, .client 1 .advance, .client 1 .advance, .receive 1 0,
    .server (.advance 1), .server (.advance 1), .disconnect 0, .server (.advance 1),
    .client 0 (.getUserInputReturns 0 ⟨⟨1⟩, true, .uint32 7⟩), .client 0 (.queueReply 0),
    .client 0 .advance, .client 0 .advance, .client 0 .advance, .receive 0 0]

/-- What is seen of the sample run. -/
private theorem twoClients_ok : ∃ s : SampleDialogue,
    dialogueMachine.run (.start fun _ ↦ "S") twoClients = some s ∧
      s.input.calls 1 = some ⟨"S", TwoCalls.request, .done (.ok TwoCalls.reply)⟩ ∧
      s.log = [.called 1 "S" TwoCalls.request, .asked 0 1 TwoCalls.request,
        .asked 1 1 TwoCalls.request, .answered 1 1 TwoCalls.reply,
        .returned 1 (.ok TwoCalls.reply), .answered 0 1 ⟨⟨1⟩, true, .uint32 7⟩] := by
  obtain ⟨s, hrun⟩ : ∃ s : SampleDialogue,
      dialogueMachine.run (.start fun _ ↦ "S") twoClients = some s :=
    Option.isSome_iff_exists.mp (by rfl)
  exact ⟨s, hrun, dialogueMachine.observe_run (fun s ↦ s.input.calls 1) hrun (by rfl),
    dialogueMachine.observe_run (fun s ↦ s.log) hrun (by rfl)⟩

/-- Nothing else writes to the request variable. -/
private theorem twoClients_keeps : ∀ a ∈ twoClients, Keeps "S" a := by
  simp [twoClients, Keeps, KeepsRequests]

end Sample

end OacTreeServer.Dialogue
