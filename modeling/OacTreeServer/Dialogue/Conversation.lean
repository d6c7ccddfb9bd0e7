import OacTreeServer.Dialogue.Steps
import OacTreeServer.Epics.UserInputReplies

/-!
# Who said what before

A client sends on only what its user has replied, to a request that the user was asked before; an
input server is given only replies of its own clients; and what a call returns is a reply that
its server was given. The invariant keeps, for every place where a reply can be, the event of the
log that it comes from.
-/

namespace OacTreeServer.Dialogue
open OacTreeServer.Client OacTreeServer.Epics OacTreeServer.External OacTreeServer.Input
  OacTreeServer.Library OacTreeServer.Protocol

section Callers

variable {V : Type}

/-- The servers and requests of the calls so far. -/
def callers (s : UserInputState V) (id : UInt64) : Option (String × UserInputRequest V) :=
  (s.calls id).map fun call ↦ (call.server, call.request)

/-- A call is one of the callers. -/
theorem callers_of_call {s : UserInputState V} {id : UInt64} {call : InputCall V}
    (h : s.calls id = some call) : callers s id = some (call.server, call.request) := by
  rw [callers, h]
  rfl

variable [AnyValue V] [OacTree V] [Base64VariableCodec V] {s t : UserInputState V}

omit [AnyValue V] [OacTree V] [Base64VariableCodec V] in
/-- A call that goes on keeps its server and its request. -/
private theorem callers_apply {id : UInt64} {call : InputCall V} {effect : CallEffect V}
    (hc : s.calls id = some call) : callers (s.apply id call effect) = callers s := by
  funext other
  unfold callers
  by_cases hother : other = id
  · subst hother
    rw [apply_calls, hc]
    rfl
  · exact congrArg _ (Function.update_of_ne hother ..)

/-- Only a thread that enters `GetUserInput` is a new caller. -/
theorem callers_step {a : UserInputAction V} (h : userInputMachine.step s a = some t) :
    callers t = match a with
      | .getUserInput id server request =>
        Function.update (callers s) id (some (server, request))
      | _ => callers s := by
  cases a with
  | getUserInput id server request =>
    simp only [userInputMachine] at h
    split at h
    · cases h
      funext other
      unfold callers
      by_cases hother : other = id
      · subst hother
        simp
      · simp [hother]
    · cases h
  | advance id =>
    cases userInputStep_of_step h with
    | advance hc _ => exact callers_apply hc
    | refused => rfl
  | _ => cases userInputStep_of_step h <;> rfl

/-- Only a call that goes on comes to its end. -/
theorem calls_step {a : UserInputAction V} (h : userInputMachine.step s a = some t) {id : UInt64}
    {call : InputCall V} {outcome : Except Exception (UserInputReply V)}
    (hc : t.calls id = some call) (hdone : call.stage = .done outcome) :
    s.calls id = some call ∨ a = .advance id := by
  cases userInputStep_of_step h with
  | @getUserInput other server request =>
    simp only [Function.update_apply] at hc
    split at hc
    · cases hc
      cases hdone
    · exact .inl hc
  | @advance other _ _ _ _ =>
    by_cases hother : id = other
    · exact .inr (hother ▸ rfl)
    · exact .inl ((Function.update_of_ne hother ..).symm.trans hc)
  | _ => exact .inl hc

/-- Only a reply that is received is in the history. -/
theorem received_step {a : UserInputAction V} (h : userInputMachine.step s a = some t)
    {server : String} {id : UInt64} {reply : UserInputReply V} {accepted : Bool}
    (hmem : .setClientReply server id reply accepted ∈ t.history) :
    .setClientReply server id reply accepted ∈ s.history ∨ a = .setClientReply server id reply := by
  cases userInputStep_of_step h with
  | @advance other call effect hc hcall =>
    rcases call with ⟨name, request, stage⟩
    simp only [UserInputState.apply] at hmem
    generalize s.userInputMtx = mtx at hcall
    cases hcall with
    | _ => simpa using hmem
  | setClientReply hs =>
    cases List.mem_append.mp hmem with
    | inl hold => exact .inl hold
    | inr hnew =>
      cases List.mem_singleton.mp hnew
      exact .inr rfl
  | interruptUnknown | applyInterrupt => simpa using hmem
  | _ => exact .inl hmem

/-- What a call knows does not depend on the queues. -/
theorem userInputInv_manager {registered : String → Prop} (h : UserInputInv registered s)
    {manager : EPICSAnyValueManager V}
    (hfind : manager.findServer = s.manager.findServer)
    (hinput : manager.findInputServer = s.manager.findInputServer) :
    UserInputInv registered { s with manager := manager } := by
  have hframe (id : UInt64) : Frame s { s with manager := manager } id := by
    refine ⟨Iff.rfl, ⟨[], (List.append_nil _).symm, by simp⟩, fun server ↦ ?_, fun server _ ↦ ?_⟩
    · rw [hinput]
      exact fun h ↦ h
    · unfold Armed
      rw [hinput]
      exact fun h ↦ h
  constructor
  · rw [UserInputState.requests, hinput]
    exact h.requests
  · intro server hserver
    unfold Registered
    rw [hinput, hfind]
    exact h.servers server hserver
  · exact fun hc ↦ ⟨(h.call hc).1, (h.call hc).2.frame (hframe _)⟩
  · exact h.uncalled

end Callers

section Clients

variable {V : Type}

/-- What a client knows of its user is in the log. -/
structure ClientLogged (c : Nat) (io : IoClientState V) (log : List (DialogueEvent V)) :
    Prop where
  inv : IoClientInv io
  running : ∀ handler id, io.handlers handler = some ⟨id, .running⟩ →
    ∃ request, .asked c id request ∈ log
  replied : ∀ handler id reply, io.handlers handler = some ⟨id, .returned reply⟩ →
    .answered c id reply ∈ log
  queued : ∀ info ∈ queuedReplies io.delegator.history, .answered c info.id info.reply ∈ log

variable {c : Nat} {io io' : IoClientState V} {log log' : List (DialogueEvent V)}

/-- The log may grow. -/
theorem ClientLogged.mono (h : ClientLogged c io log) (hsub : log ⊆ log') :
    ClientLogged c io log' where
  inv := h.inv
  running handler id hrunning := by
    obtain ⟨request, hmem⟩ := h.running handler id hrunning
    exact ⟨request, hsub hmem⟩
  replied handler id reply hreplied := hsub (h.replied handler id reply hreplied)
  queued info hinfo := hsub (h.queued info hinfo)

/-- A reply with which the client calls its input server is one of its user. -/
theorem ClientLogged.started (h : ClientLogged c io log) {info : ReplyInfo V}
    (hinfo : info ∈ startedReplies io.delegator.history) :
    .answered c info.id info.reply ∈ log :=
  h.queued info (h.inv.consistent.delivery.taken_sublist.subset (List.mem_append_left _ hinfo))

variable [AnyValue V] [OacTree V]

/-- What a client does is in the log. -/
theorem ClientLogged.step (h : ClientLogged c io log) {a : IoClientAction V}
    (hstep : ioClientMachine.step io a = some io') :
    ClientLogged c io' (log ++ clientEvents c io a) := by
  have hold := h.mono (List.subset_append_left log (clientEvents c io a))
  have hinv := h.inv.step (ioClientStep_of_step hstep)
  -- the handlers of another thread stay as they are
  have hother {handler other : Nat} {entry : InputHandler V} {entry' : Option (InputHandler V)}
      (hentry : Function.update io.handlers handler (some entry) other = entry') :
      other = handler ∧ some entry = entry' ∨ io.handlers other = entry' := by
    rw [Function.update_apply] at hentry
    split at hentry
    · next heq => exact .inl ⟨heq, hentry⟩
    · exact .inr hentry
  cases ioClientStep_of_step hstep with
  | @cancel handler reqAv delegator _ hd =>
    refine ⟨hinv, hold.running, hold.replied, ?_⟩
    change ∀ info ∈ queuedReplies delegator.history, _
    rw [queuedReplies_of_step (a := .interruptAll) nofun hd]
    exact hold.queued
  | @request handler reqAv id inputRequest hrequest hfresh =>
    refine ⟨hinv, fun other id' hrunning ↦ ?_, fun other id' reply hreplied ↦ ?_, hold.queued⟩
    · cases hother hrunning with
      | inl hnew =>
        cases hnew.2
        refine ⟨inputRequest, List.mem_append_right _ ?_⟩
        rw [clientEvents, hrequest]
        exact List.mem_singleton_self _
      | inr hbefore => exact hold.running other id' hbefore
    · cases hother hreplied with
      | inl hnew => cases hnew.2
      | inr hbefore => exact hold.replied other id' reply hbefore
  | @getUserInputReturns handler id reply hrunning =>
    refine ⟨hinv, fun other id' hrunning' ↦ ?_, fun other id' reply' hreplied ↦ ?_, hold.queued⟩
    · cases hother hrunning' with
      | inl hnew => cases hnew.2
      | inr hbefore => exact hold.running other id' hbefore
    · cases hother hreplied with
      | inl hnew =>
        cases hnew.2
        refine List.mem_append_right _ ?_
        rw [clientEvents, hrunning]
        exact List.mem_singleton_self _
      | inr hbefore => exact hold.replied other id' reply' hbefore
  | @queueReply handler id reply delegator hreturned hd =>
    refine ⟨hinv, fun other id' hrunning' ↦ ?_, fun other id' reply' hreplied ↦ ?_, ?_⟩
    · cases hother hrunning' with
      | inl hnew => cases hnew.2
      | inr hbefore => exact hold.running other id' hbefore
    · cases hother hreplied with
      | inl hnew => cases hnew.2
      | inr hbefore => exact hold.replied other id' reply' hbefore
    · change ∀ info ∈ queuedReplies delegator.history, _
      cases delegatorStep_of_step hd with
      | queueReply hmtx =>
        rw [queuedReplies_append]
        intro info hinfo
        cases List.mem_append.mp hinfo with
        | inl hbefore => exact hold.queued info hbefore
        | inr hnew =>
          cases List.mem_singleton.mp hnew
          exact hold.replied handler id reply hreturned
  | @delegator _ b delegator hb hd =>
    refine ⟨hinv, hold.running, hold.replied, ?_⟩
    change ∀ info ∈ queuedReplies delegator.history, _
    rw [queuedReplies_of_step hb hd]
    exact hold.queued

/-- No client changes its input server. -/
theorem inputServerName_ioStep {a : IoClientAction V}
    (hstep : ioClientMachine.step io a = some io') : io'.inputServerName = io.inputServerName := by
  cases ioClientStep_of_step hstep <;> rfl

end Clients

section Log

variable {V : Type} [OacTree V]

/-- What may be said, after what was said in the log by these callers. -/
def MayBeSaid (servers : Nat → String) (calls : UInt64 → Option (String × UserInputRequest V))
    (log : List (DialogueEvent V)) : DialogueEvent V → Prop
  | .answered c id _ => ∃ request, .asked c id request ∈ log
  | .returned id (.ok reply) => isValid reply = true → ∃ c request,
      calls id = some (servers c, request) ∧ .answered c id reply ∈ log
  | _ => True

/-- Replies go back to questions, and results of calls to replies. -/
structure RepliesLogged (servers : Nat → String)
    (calls : UInt64 → Option (String × UserInputRequest V)) (log : List (DialogueEvent V)) :
    Prop where
  answered : ∀ c id reply, .answered c id reply ∈ log →
    ∃ request, Before log (.asked c id request) (.answered c id reply)
  returned : ∀ id reply, .returned id (.ok reply) ∈ log → isValid reply = true →
    ∃ c request, calls id = some (servers c, request) ∧
      Before log (.answered c id reply) (.returned id (.ok reply))

variable {servers : Nat → String} {calls calls' : UInt64 → Option (String × UserInputRequest V)}
  {log : List (DialogueEvent V)}

/-- One more event that may be said. -/
theorem RepliesLogged.concat (h : RepliesLogged servers calls log)
    (hcalls : ∀ id caller, calls id = some caller → calls' id = some caller)
    {e : DialogueEvent V} (he : MayBeSaid servers calls' log e) :
    RepliesLogged servers calls' (log ++ [e]) where
  answered c id reply hmem := by
    cases List.mem_append.mp hmem with
    | inl hold =>
      obtain ⟨request, hbefore⟩ := h.answered c id reply hold
      exact ⟨request, hbefore.append _⟩
    | inr hnew =>
      rw [List.mem_singleton] at hnew
      subst hnew
      obtain ⟨request, hasked⟩ := he
      exact ⟨request, Before.concat hasked _⟩
  returned id reply hmem hvalid := by
    cases List.mem_append.mp hmem with
    | inl hold =>
      obtain ⟨c, request, hcaller, hbefore⟩ := h.returned id reply hold hvalid
      exact ⟨c, request, hcalls id _ hcaller, hbefore.append _⟩
    | inr hnew =>
      rw [List.mem_singleton] at hnew
      subst hnew
      obtain ⟨c, request, hcaller, hanswered⟩ := he hvalid
      exact ⟨c, request, hcaller, Before.concat hanswered _⟩

/-- At most one event that may be said. -/
theorem RepliesLogged.append (h : RepliesLogged servers calls log)
    (hcalls : ∀ id caller, calls id = some caller → calls' id = some caller)
    {events : List (DialogueEvent V)} (hlength : events.length ≤ 1)
    (hevents : ∀ e ∈ events, MayBeSaid servers calls' log e) :
    RepliesLogged servers calls' (log ++ events) := by
  match events, hlength with
  | [], _ =>
    rw [List.append_nil]
    refine ⟨h.answered, fun id reply hmem hvalid ↦ ?_⟩
    obtain ⟨c, request, hcaller, hbefore⟩ := h.returned id reply hmem hvalid
    exact ⟨c, request, hcalls id _ hcaller, hbefore⟩
  | [e], _ => exact h.concat hcalls (hevents e (List.mem_singleton_self e))

end Log

section Invariant

variable {S C V : Type} [AnyValue V] [OacTree V] [Base64VariableCodec V]

/-- The callers, what the clients and the input servers know, and what was said. -/
structure ConversationInv (servers : Nat → String) (s : DialogueState S C V) : Prop where
  input : UserInputInv (Registered (FreshManager.new (V := V)).val) s.input
  name : ∀ c, (s.clients c).io.inputServerName = servers c
  client : ∀ c, ClientLogged c (s.clients c).io s.log
  received : ∀ server id reply accepted,
    .setClientReply server id reply accepted ∈ s.input.history →
    ∃ c, servers c = server ∧ .answered c id reply ∈ s.log
  called : ∀ id server request, callers s.input id = some (server, request) ↔
    .called id server request ∈ s.log
  finished : ∀ id call outcome, s.input.calls id = some call → call.stage = .done outcome →
    .returned id outcome ∈ s.log
  replies : RepliesLogged servers (callers s.input) s.log

variable {servers : Nat → String} {s : DialogueState S C V} {c : Nat}

/-- A step of the monitors or the threads says nothing. -/
theorem ConversationInv.frame (h : ConversationInv servers s) {t : DialogueState S C V}
    (hinput : UserInputInv (Registered (FreshManager.new (V := V)).val) t.input)
    (hcalls : t.input.calls = s.input.calls) (hhistory : t.input.history = s.input.history)
    (hio : ∀ c, (t.clients c).io = (s.clients c).io) (hlog : t.log = s.log) :
    ConversationInv servers t where
  input := hinput
  name c := by rw [hio]; exact h.name c
  client c := by rw [hio, hlog]; exact h.client c
  received := by rw [hhistory, hlog]; exact h.received
  called := by unfold callers; rw [hcalls, hlog]; exact h.called
  finished := by rw [hcalls, hlog]; exact h.finished
  replies := by unfold callers; rw [hcalls, hlog]; exact h.replies

/-- A monitor that does something says nothing. -/
theorem ConversationInv.setPv (h : ConversationInv servers s) (requestPv : C) :
    ConversationInv servers (s.setPv c requestPv) := by
  refine h.frame h.input rfl rfl (fun other ↦ ?_) (List.append_nil _)
  unfold DialogueState.setPv DialogueState.setClient
  by_cases hother : other = c
  · subst hother
    simp
  · simp [hother]

/-- A thread of a client says what it has to. -/
theorem ConversationInv.setIo (h : ConversationInv servers s) {a : IoClientAction V}
    {client : InputClient C V} (hstep : ioClientMachine.step (s.clients c).io a = some client.io) :
    ConversationInv servers (s.setIo c a client) := by
  have hclient (other : Nat) : ((s.setIo c a client).clients other).io =
      if other = c then client.io else (s.clients other).io := by
    unfold DialogueState.setIo DialogueState.setClient
    by_cases hother : other = c <;> simp [hother]
  have hsub := List.subset_append_left s.log (clientEvents c (s.clients c).io a)
  constructor
  · exact h.input
  · intro other
    rw [hclient]
    split
    · next heq => rw [inputServerName_ioStep hstep, heq, h.name]
    · exact h.name other
  · intro other
    rw [hclient]
    split
    · next heq => rw [heq]; exact (h.client c).step hstep
    · exact (h.client other).mono hsub
  · intro server id reply accepted hmem
    obtain ⟨other, hother, hanswered⟩ := h.received server id reply accepted hmem
    exact ⟨other, hother, hsub hanswered⟩
  · intro id server request
    refine (h.called id server request).trans ⟨fun hmem ↦ hsub hmem, fun hmem ↦ ?_⟩
    refine (List.mem_append.mp hmem).resolve_right fun hnew ↦ ?_
    cases a with
    | handleUserInput handler reqAv =>
      simp only [clientEvents] at hnew
      split at hnew <;> simp at hnew
    | getUserInputReturns handler reply =>
      simp only [clientEvents] at hnew
      split at hnew <;> simp at hnew
    | _ => cases hnew
  · exact fun id call outcome hc hdone ↦ hsub (h.finished id call outcome hc hdone)
  · refine h.replies.append (fun _ _ ↦ id) ?_ ?_
    · cases a with
      | handleUserInput | getUserInputReturns => rw [clientEvents]; split <;> simp
      | _ => exact Nat.zero_le _
    · cases a with
      | handleUserInput handler reqAv =>
        simp only [clientEvents]
        split
        · exact fun e he ↦ List.mem_singleton.mp he ▸ trivial
        · nofun
      | getUserInputReturns handler reply =>
        simp only [clientEvents]
        split
        · next id hrunning =>
          intro e he
          rw [List.mem_singleton.mp he]
          exact (h.client c).running handler id hrunning
        · nofun
      | _ => nofun

/-- A step of the callers that is no reply keeps what the clients and the input servers know. -/
private theorem ConversationInv.setInput [LawfulOacTree V] (h : ConversationInv servers s)
    {a : UserInputAction V} (ha : ∀ server id reply, a ≠ .setClientReply server id reply)
    {input : UserInputState V} (hstep : userInputMachine.step s.input a = some input)
    {events : List (DialogueEvent V)} (hlength : events.length ≤ 1)
    (hcalls : ∀ id caller, callers s.input id = some caller → callers input id = some caller)
    (hevents : ∀ e ∈ events, MayBeSaid servers (callers input) s.log e)
    (hcalled : ∀ id server request, callers input id = some (server, request) ↔
      callers s.input id = some (server, request) ∨ .called id server request ∈ events)
    (hfinished : ∀ id call outcome, a = .advance id → input.calls id = some call →
      call.stage = .done outcome → .returned id outcome ∈ events) :
    ConversationInv servers (s.setInput input events) where
  input := h.input.step (userInputStep_of_step hstep)
  name := h.name
  client other := (h.client other).mono (List.subset_append_left _ _)
  received server id reply accepted hmem := by
    obtain ⟨other, hother, hanswered⟩ := h.received server id reply accepted
      ((received_step hstep hmem).resolve_right (ha server id reply))
    exact ⟨other, hother, List.mem_append_left _ hanswered⟩
  called id server request := by
    change callers input id = _ ↔ _ ∈ s.log ++ events
    rw [hcalled, h.called, List.mem_append]
  finished id call outcome hc hdone := by
    refine List.mem_append.mpr ?_
    cases calls_step hstep hc hdone with
    | inl hold => exact .inl (h.finished id call outcome hold hdone)
    | inr hnew => exact .inr (hfinished id call outcome hnew hc hdone)
  replies := h.replies.append hcalls hlength hevents

/-- A thread of the server says what it has to. -/
theorem ConversationInv.server [LawfulOacTree V] (h : ConversationInv servers s)
    {a : UserInputAction V} (ha : ∀ server id reply, a ≠ .setClientReply server id reply)
    {input : UserInputState V} (hstep : userInputMachine.step s.input a = some input) :
    ConversationInv servers (s.setInput input (serverEvents input a)) := by
  have hcallers := callers_step hstep
  have hinv := h.input.step (userInputStep_of_step hstep)
  cases a with
  | getUserInput id server request =>
    have hnew : s.input.calls id = none := by
      simp only [userInputMachine] at hstep
      split at hstep
      · next hc => exact Option.isNone_iff_eq_none.mp hc.2
      · cases hstep
    have hnone : callers s.input id = none := by
      rw [callers, hnew]
      rfl
    simp only at hcallers
    refine h.setInput ha hstep (Nat.le_refl 1) ?_ ?_ ?_ ?_
    · intro other caller hother
      have hne : other ≠ id := by
        rintro rfl
        rw [hnone] at hother
        cases hother
      rwa [hcallers, Function.update_of_ne hne]
    · exact fun e he ↦ List.mem_singleton.mp he ▸ trivial
    · intro other server' request'
      rw [hcallers, serverEvents, List.mem_singleton]
      by_cases hne : other = id
      · subst hne
        rw [Function.update_self, hnone]
        simp [eq_comm]
      · rw [Function.update_of_ne hne]
        simp [hne]
    · intro other call outcome hadvance
      cases hadvance
  | advance id =>
    simp only at hcallers
    have hsame : ∀ other caller, callers s.input other = some caller →
        callers input other = some caller := by
      rw [hcallers]
      exact fun _ _ ↦ fun h ↦ h
    rw [serverEvents]
    split
    · next server request outcome hcall =>
      refine h.setInput ha hstep (Nat.le_refl 1) hsame ?_ ?_ ?_
      · intro e he
        rw [List.mem_singleton.mp he]
        cases outcome with
        | error => trivial
        | ok reply =>
          intro hvalid
          have hcaller := callers_of_call hcall
          cases hinv.outcome hcall rfl with
          | replied _ hbefore _ =>
            obtain ⟨c, hc, hanswered⟩ := h.received server id reply true
              ((received_step hstep hbefore.snd_mem).resolve_right (ha server id reply))
            exact ⟨c, request, hc ▸ hcaller, hanswered⟩
          | interrupted | unregistered =>
            rw [isValid_kInvalidUserInputReply] at hvalid
            cases hvalid
      · intro other server' request'
        rw [hcallers]
        simp
      · intro other call outcome' hadvance hc hdone
        cases hadvance
        obtain rfl := Option.some.inj (hcall.symm.trans hc)
        cases hdone
        exact List.mem_singleton_self _
    · next hnone =>
      refine h.setInput ha hstep (Nat.zero_le _) hsame ?_ ?_ ?_
      · intro e he
        cases he
      · rw [hcallers]
        simp
      · intro other call outcome hadvance hc hdone
        cases hadvance
        rcases call with ⟨server, request, stage⟩
        cases hdone
        exact absurd hc (hnone server request outcome)
  | setClientReply server id reply => exact absurd rfl (ha server id reply)
  | _ =>
    simp only at hcallers
    refine h.setInput ha hstep (Nat.zero_le _) (by rw [hcallers]; exact fun _ _ h ↦ h) ?_ ?_ ?_
    · intro e he
      cases he
    · rw [hcallers]
      simp [serverEvents]
    · intro id call outcome hadvance
      cases hadvance

/-- A reply that is received is one that a client of the input server has sent. -/
theorem ConversationInv.receive [LawfulOacTree V] (h : ConversationInv servers s)
    {info : ReplyInfo V} (hinfo : info ∈ startedReplies (s.clients c).io.delegator.history)
    {input : UserInputState V}
    (hstep : userInputMachine.step s.input (.setClientReply (s.clients c).io.inputServerName
      info.id info.reply) = some input) :
    ConversationInv servers (s.setInput input []) := by
  have hcallers := callers_step hstep
  simp only at hcallers
  have hlog : (s.setInput input []).log = s.log := List.append_nil _
  constructor
  · exact h.input.step (userInputStep_of_step hstep)
  · exact h.name
  · rw [hlog]
    exact h.client
  · intro server id reply accepted hmem
    rw [hlog]
    cases received_step hstep hmem with
    | inl hold => exact h.received server id reply accepted hold
    | inr hnew =>
      cases hnew
      exact ⟨c, (h.name c).symm, (h.client c).started hinfo⟩
  · intro id server request
    rw [hlog]
    exact (congrFun hcallers id).symm ▸ h.called id server request
  · intro id call outcome hc hdone
    rw [hlog]
    exact h.finished id call outcome ((calls_step hstep hc hdone).resolve_right nofun) hdone
  · rw [hlog]
    change RepliesLogged servers (callers input) s.log
    rw [hcallers]
    exact h.replies

variable [PvAccessClientPV C Nat V] [PvAccessServer S V]

/-- Every step keeps the invariant. -/
theorem ConversationInv.step [LawfulOacTree V] (h : ConversationInv servers s)
    {a : DialogueAction V} {t : DialogueState S C V} (hstep : DialogueStep s a t) :
    ConversationInv servers t := by
  cases hstep with
  | server ha hinput => exact h.server ha hinput
  | @advance i epicsServer u _ _ =>
    exact h.frame (userInputInv_manager h.input rfl rfl) rfl rfl (fun _ ↦ rfl) rfl
  | connect | disconnect | coalesce | ignore => exact h.setPv _
  | deliver _ _ hio => exact h.setIo hio
  | client _ hio => exact h.setIo hio
  | receive hinfo hinput => exact h.receive (List.mem_of_getElem? hinfo) hinput

omit [Base64VariableCodec V] in
/-- Nothing has been said at first. -/
theorem conversationInv_start [Base64VariableCodec V] [LawfulOacTree V] (servers : Nat → String) :
    ConversationInv servers (.start servers : DialogueState S C V) where
  input := userInputInv_start _
  name _ := rfl
  client _ := ⟨ioClientInv_start _, nofun, nofun, nofun⟩
  received := nofun
  called _ _ _ := ⟨nofun, nofun⟩
  finished := nofun
  replies := ⟨nofun, nofun⟩

end Invariant

end OacTreeServer.Dialogue
