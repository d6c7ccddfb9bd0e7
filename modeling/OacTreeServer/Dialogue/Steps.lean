import OacTreeServer.Dialogue.System

/-!
# The steps of the dialogue

Everything that a step can do, as steps of the parts. A reply that is received through the
protocol is one that the request server of its input server is offered.
-/

namespace OacTreeServer.Dialogue
open OacTreeServer.Client OacTreeServer.Epics OacTreeServer.External OacTreeServer.Input
  OacTreeServer.Library OacTreeServer.Protocol

variable {S C V : Type} [PvAccessClientPV C Nat V] [AnyValue V] [OacTree V]
  [Base64VariableCodec V] [PvAccessServer S V]

/-- Everything that a step of the dialogue can do. -/
inductive DialogueStep (s : DialogueState S C V) :
    DialogueAction V → DialogueState S C V → Prop where
  | server {a input} : (∀ server id reply, a ≠ .setClientReply server id reply) →
      userInputMachine.step s.input a = some input →
      DialogueStep s (.server a) (s.setInput input (serverEvents input a))
  | advance {i epicsServer t} : s.input.manager.servers[i]? = some epicsServer →
      Epics.advance epicsServer.nameValueSet (s.threadState i epicsServer) = some t →
      DialogueStep s (.advance i) (s.afterThread i t)
  | connect {c i value} :
      s.input.manager.findServer (PvAccessClientPV.channel (s.clients c).requestPv) = some i →
      isRunning (s.threads i).loop = true →
      PvAccessServer.served (s.threads i).pvServer
        (PvAccessClientPV.channel (s.clients c).requestPv) = some value →
      DialogueStep s (.connect c)
        (s.setPv c (PvAccessClientPV.connect (s.clients c).requestPv i value))
  | disconnect {c} : DialogueStep s (.disconnect c)
      (s.setPv c (PvAccessClientPV.disconnect (s.clients c).requestPv))
  | coalesce {c position pv} :
      PvAccessClientPV.coalesce (s.clients c).requestPv position = some pv →
      DialogueStep s (.coalesce c position) (s.setPv c pv)
  /-- A value that cannot be decoded is ignored. -/
  | ignore {c handler value pv} :
      PvAccessClientPV.deliver (s.clients c).requestPv = some (value, pv) →
      DialogueStep s (.deliver c handler) (s.setPv c pv)
  | deliver {c handler value pv reqAv io} :
      PvAccessClientPV.deliver (s.clients c).requestPv = some (value, pv) →
      base64DecodeAnyValue value = (true, reqAv) →
      ioClientMachine.step (s.clients c).io (.handleUserInput handler reqAv) = some io →
      DialogueStep s (.deliver c handler) (s.setIo c (.handleUserInput handler reqAv) ⟨io, pv⟩)
  | client {c a io} : (∀ handler reqAv, a ≠ .handleUserInput handler reqAv) →
      ioClientMachine.step (s.clients c).io a = some io →
      DialogueStep s (.client c a) (s.setIo c a { s.clients c with io })
  | receive {c message info input} :
      (startedReplies (s.clients c).io.delegator.history)[message]? = some info →
      userInputMachine.step s.input (.setClientReply (s.clients c).io.inputServerName info.id
        info.reply) = some input →
      DialogueStep s (.receive c message) (s.setInput input [])

variable [LawfulAnyValue V] [LawfulBase64VariableCodec V] [TotalBase64VariableCodec V]
  [SupProtocol V] [LawfulSupProtocol V]

omit [PvAccessClientPV C Nat V] [PvAccessServer S V] in
/-- The request server of an input server is offered what a client has sent to it. -/
theorem receive_eq (s : DialogueState S C V) (c message : Nat) :
    s.receive c message =
      (startedReplies (s.clients c).io.delegator.history)[message]?.bind fun info ↦
        (userInputMachine.step s.input (.setClientReply (s.clients c).io.inputServerName info.id
          info.reply)).map fun input ↦ s.setInput input [] := by
  unfold DialogueState.receive
  simp only [userInputMachine, setClientReply_inputProtocolServer]
  cases (startedReplies (s.clients c).io.delegator.history)[message]? with
  | none => rfl
  | some info =>
    cases s.input.manager.findInputServer (s.clients c).io.inputServerName with
    | none => rfl
    | some inputServer => rfl

/-- The computed steps of the dialogue are those above. -/
theorem dialogueStep_of_step {s t : DialogueState S C V} {a : DialogueAction V}
    (h : dialogueMachine.step s a = some t) : DialogueStep s a t := by
  cases a with
  | server a =>
    change s.server a = some t at h
    have hstep (ha : ∀ server id reply, a ≠ .setClientReply server id reply) :
        (userInputMachine.step s.input a).map (fun input ↦
          s.setInput input (serverEvents input a)) = some t := by
      cases a with
      | setClientReply => exact absurd rfl (ha _ _ _)
      | _ => exact h
    have ha : ∀ server id reply, a ≠ .setClientReply server id reply := by
      rintro server id reply rfl
      cases h
    obtain ⟨input, hinput, rfl⟩ := Option.map_eq_some_iff.mp (hstep ha)
    exact .server ha hinput
  | advance i =>
    simp only [dialogueMachine, DialogueState.advance] at h
    split at h
    · cases h
    · next epicsServer hserver =>
      obtain ⟨u, hu, rfl⟩ := Option.map_eq_some_iff.mp h
      exact .advance hserver hu
  | connect c =>
    simp only [dialogueMachine, DialogueState.connect] at h
    split at h
    · cases h
    · next i hfind =>
      split at h
      · next hready =>
        obtain ⟨value, hvalue, rfl⟩ := Option.map_eq_some_iff.mp h
        exact .connect hfind hready.2 hvalue
      · cases h
  | disconnect c =>
    cases h
    exact .disconnect
  | coalesce c position =>
    obtain ⟨pv, hpv, rfl⟩ := Option.map_eq_some_iff.mp h
    exact .coalesce hpv
  | deliver c handler =>
    obtain ⟨⟨value, pv⟩, hpv, h⟩ := Option.bind_eq_some_iff.mp h
    split at h
    · cases h
      exact .ignore hpv
    · next reqAv hdecode =>
      obtain ⟨io, hio, rfl⟩ := Option.map_eq_some_iff.mp h
      exact .deliver hpv hdecode hio
  | client c a =>
    change s.client c a = some t at h
    have hstep (ha : ∀ handler reqAv, a ≠ .handleUserInput handler reqAv) :
        (ioClientMachine.step (s.clients c).io a).map (fun io ↦
          s.setIo c a { s.clients c with io }) = some t := by
      cases a with
      | handleUserInput => exact absurd rfl (ha _ _)
      | _ => exact h
    have ha : ∀ handler reqAv, a ≠ .handleUserInput handler reqAv := by
      rintro handler reqAv rfl
      cases h
    obtain ⟨io, hio, rfl⟩ := Option.map_eq_some_iff.mp (hstep ha)
    exact .client ha hio
  | receive c message =>
    change s.receive c message = some t at h
    rw [receive_eq] at h
    obtain ⟨info, hinfo, h⟩ := Option.bind_eq_some_iff.mp h
    obtain ⟨input, hinput, rfl⟩ := Option.map_eq_some_iff.mp h
    exact .receive hinfo hinput

end OacTreeServer.Dialogue
