import OacTreeServer.Epics.UserInputInvariant

/-!
# Replies to requests for user input

What `GetUserInput` returns goes back to the one reply that was accepted for its own id
on its own server, or to an interrupt of it; and an accepted reply is what the call
returns, unless the request was interrupted before the call woke up, which takes precedence
(`base/input_request_server.cpp:87`). A server accepts one reply to the request that it has
initiated last, also when its call is over.
-/

namespace OacTreeServer.Epics
open OacTreeServer.External OacTreeServer.Input OacTreeServer.Library OacTreeServer.Protocol

/-- The request of the call has been initiated. -/
def InputStage.started {V : Type} : InputStage V → Bool
  | .queued | .findInputServer | .findServer _ | .initNewRequest _ => false
  | _ => true

section Replies

variable {V : Type} [AnyValue V] [OacTree V] [Base64VariableCodec V]
  {manager : FreshManager V} {acts : List (UserInputAction V)} {s : UserInputState V}

/-- A call that has returned has one of the reasons for its outcome. -/
theorem UserInputInv.outcome {registered : String → Prop} (h : UserInputInv registered s)
    {id : UInt64} {call : InputCall V} {outcome : Except Exception (UserInputReply V)}
    (hc : s.calls id = some call) (hdone : call.stage = .done outcome) :
    OutcomeOk registered s.history id call.server call.request outcome := by
  have hinv := (h.call hc).2
  rw [hdone] at hinv
  exact hinv.2

/-- Integrity of user input: at most one reply to an id is ever accepted; a valid reply
that a call returns is the one accepted on its server after its request was initiated; and
on a registered server the invalid reply is returned only after an interrupt of the
initiated request. -/
theorem user_input_integrity [LawfulOacTree V]
    (h : userInputMachine.run (.start manager) acts = some s) :
    (∀ id, (acceptedReplies id s.history).length ≤ 1) ∧
    (∀ id call reply, s.calls id = some call → call.stage = .done (.ok reply) →
      isValid reply = true →
      Before s.history (.initNewRequest call.server id)
        (.setClientReply call.server id reply true) ∧
      ∀ other r, .setClientReply other id r true ∈ s.history → other = call.server ∧ r = reply) ∧
    (∀ id call, s.calls id = some call → Registered manager.val call.server →
      call.stage = .done (.ok OacTree.kInvalidUserInputReply) →
      Before s.history (.initNewRequest call.server id) (.interrupt call.server id)) := by
  have hinv := userInputInv_run h
  refine ⟨hinv.requests.accepted_once, ?_, ?_⟩
  · intro id call reply hc hdone hvalid
    have hb : Before s.history (.initNewRequest call.server id)
        (.setClientReply call.server id reply true) := by
      cases hinv.outcome hc hdone with
      | replied hv hb => exact hb
      | interrupted hi => rw [isValid_kInvalidUserInputReply] at hvalid; cases hvalid
      | unregistered hr hn => rw [isValid_kInvalidUserInputReply] at hvalid; cases hvalid
    exact ⟨hb, fun other r hm ↦ hinv.requests.accepted_unique hb.snd_mem hm⟩
  · intro id call hc hr hdone
    generalize hreply : (OacTree.kInvalidUserInputReply : UserInputReply V) = reply at hdone
    cases hinv.outcome hc hdone with
    | replied hv hb => rw [← hreply, isValid_kInvalidUserInputReply] at hv; cases hv
    | interrupted hi => exact hi.before
    | unregistered hnr hn => exact absurd hr hnr

end Replies

/-- The integrity of both calls of a run: one is answered, the other interrupted. -/
theorem user_input_integrity_two_calls :
    ∃ s, userInputMachine.run (.start TwoCalls.manager) TwoCalls.acts = some s ∧
      Before s.history (.initNewRequest "S" 1) (.setClientReply "S" 1 TwoCalls.reply true) ∧
      Before s.history (.initNewRequest "S" 2) (.interrupt "S" 2) := by
  obtain ⟨s, hs⟩ : ∃ s, userInputMachine.run (.start TwoCalls.manager) TwoCalls.acts = some s :=
    Option.isSome_iff_exists.mp (by rfl)
  have hone : s.calls 1 = some ⟨"S", TwoCalls.request, .done (.ok TwoCalls.reply)⟩ :=
    userInputMachine.observe_run (fun s ↦ s.calls 1) hs (by rfl)
  have htwo : s.calls 2 =
      some ⟨"S", TwoCalls.request, .done (.ok OacTree.kInvalidUserInputReply)⟩ :=
    userInputMachine.observe_run (fun s ↦ s.calls 2) hs (by rfl)
  have hregistered : Registered TwoCalls.manager.val "S" := ⟨by rfl, by rfl⟩
  obtain ⟨-, hreply, hinterrupt⟩ := user_input_integrity hs
  exact ⟨s, hs, (hreply 1 _ TwoCalls.reply hone rfl rfl).1, hinterrupt 2 _ htwo hregistered rfl⟩

section Agreement

variable {V : Type} [AnyValue V] [OacTree V] [Base64VariableCodec V]
  {manager : FreshManager V} {acts : List (UserInputAction V)} {s : UserInputState V}

/-- A request that was initiated has a call, on that server, behind its initiation. -/
theorem UserInputInv.call_of_started {registered : String → Prop}
    (h : UserInputInv registered s) {id : UInt64} {server : String}
    (hm : .initNewRequest server id ∈ s.history) :
    ∃ call, s.calls id = some call ∧ call.server = server ∧ call.stage.started = true := by
  cases hc : s.calls id with
  | none => exact absurd hm ((h.uncalled hc).2 server)
  | some call =>
    obtain ⟨hid, hinv⟩ := h.call hc
    refine ⟨call, rfl, ?_⟩
    have harmed : ∀ {name}, Armed s.manager name id → .initNewRequest name id ∈ s.history := by
      rintro name ⟨inputServer, hs, rfl⟩
      exact (h.requests.server hs).armed hid
    have houtcome : ∀ {outcome}, OutcomeOk registered s.history id call.server call.request
        outcome → .initNewRequest call.server id ∈ s.history := by
      intro outcome ho
      cases ho with
      | replied hv hb => exact hb.fst_mem
      | interrupted hi => exact hi.before.fst_mem
      | unregistered hr hn => exact absurd hm (hn server)
      | failed hi he => exact hi
    obtain ⟨name, request, stage⟩ := call
    cases stage with
    | queued => exact absurd hm (hinv.2 server)
    | findInputServer => exact absurd hm (hinv.2 server)
    | findServer found => exact absurd hm (hinv.2.1 server)
    | initNewRequest pvServer => exact absurd hm (hinv.2.1 server)
    | publish pvServer => exact ⟨h.requests.init_unique (harmed hinv.2.1) hm, rfl⟩
    | waitForReply pvServer => exact ⟨h.requests.init_unique (harmed hinv.2.1) hm, rfl⟩
    | withdraw pvServer result => exact ⟨h.requests.init_unique (harmed hinv.2.1) hm, rfl⟩
    | release outcome => exact ⟨h.requests.init_unique (houtcome hinv.2) hm, rfl⟩
    | done outcome => exact ⟨h.requests.init_unique (houtcome hinv.2) hm, rfl⟩

/-- A reply is the outcome of the call, or an exception of the encoder prevents it. -/
def ReplyOutcome (id : UInt64) (request : UserInputRequest V) (reply : UserInputReply V)
    (outcome : Except Exception (UserInputReply V)) : Prop :=
  outcome = .ok reply ∨ ∃ e, outcome = .error e ∧
    (base64EncodeAnyValue (encodeInputRequest id request) = .error e ∨
      base64EncodeAnyValue (kInputRequestAnyValue V) = .error e)

/-- Steps of the call alone lead to its end with the given outcome. -/
def Finishes (s : UserInputState V) (id : UInt64) (call : InputCall V)
    (outcome : Except Exception (UserInputReply V)) : Prop :=
  ∃ n t, userInputMachine.run s (List.replicate n (.advance id)) = some t ∧
    t.calls id = some { call with stage := .done outcome }

/-- A call that can finish after its next step can finish. -/
theorem Finishes.advance {id : UInt64} {server : String} {request : UserInputRequest V}
    {stage : InputStage V} {effect : CallEffect V}
    {outcome : Except Exception (UserInputReply V)}
    (hc : s.calls id = some ⟨server, request, stage⟩)
    (he : InputCall.advance ⟨server, request, stage⟩ id s.manager s.userInputMtx = some effect)
    (hf : Finishes (s.apply id ⟨server, request, stage⟩ effect) id
      ⟨server, request, effect.stage⟩ outcome) :
    Finishes s id ⟨server, request, stage⟩ outcome := by
  obtain ⟨n, t, hrun, ht⟩ := hf
  refine ⟨n + 1, t, ?_, ht⟩
  rw [List.replicate_succ, Machine.run_cons_eq_some]
  refine ⟨_, ?_, hrun⟩
  simp [userInputMachine, hc, he]

/-- A call that only has to unlock the mutex finishes. -/
theorem finishes_release {id : UInt64} {server : String} {request : UserInputRequest V}
    {outcome : Except Exception (UserInputReply V)}
    (hc : s.calls id = some ⟨server, request, .release outcome⟩) :
    Finishes s id ⟨server, request, .release outcome⟩ outcome :=
  .advance hc rfl ⟨0, _, rfl, apply_calls⟩

/-- A call that has a reply finishes with it, unless the withdrawal cannot be encoded. -/
theorem finishes_withdraw {id : UInt64} {server : String} {request : UserInputRequest V}
    {pvServer : Nat} {reply : UserInputReply V}
    (hc : s.calls id = some ⟨server, request, .withdraw pvServer (true, reply)⟩) :
    ∃ outcome, Finishes s id ⟨server, request, .withdraw pvServer (true, reply)⟩ outcome ∧
      ReplyOutcome id request reply outcome := by
  cases he : base64EncodeAnyValue (kInputRequestAnyValue V) with
  | ok updateVal =>
    let effect : CallEffect V :=
      ⟨s.manager.pushUpdate pvServer (getInputRequestPVName server) updateVal, s.userInputMtx,
        .release (.ok reply), [], [(getInputRequestPVName server, kInputRequestAnyValue V)]⟩
    have hadv : InputCall.advance ⟨server, request, .withdraw pvServer (true, reply)⟩ id
        s.manager s.userInputMtx = some effect := by
      simp [InputCall.advance, EPICSAnyValueManager.updateServer_eq, he, Except.map, effect]
    exact ⟨.ok reply, .advance hc hadv (finishes_release apply_calls), .inl rfl⟩
  | error e =>
    let effect : CallEffect V := ⟨s.manager, s.userInputMtx, .release (.error e), [], []⟩
    have hadv : InputCall.advance ⟨server, request, .withdraw pvServer (true, reply)⟩ id
        s.manager s.userInputMtx = some effect := by
      simp [InputCall.advance, EPICSAnyValueManager.updateServer_eq, he, Except.map, effect]
    exact ⟨.error e, .advance hc hadv (finishes_release apply_calls), .inr ⟨e, rfl, .inr he⟩⟩

/-- A waiting call whose reply has arrived without an interrupt finishes with it. -/
theorem finishes_waitForReply {id : UInt64} {server : String} {request : UserInputRequest V}
    {pvServer : Nat} {inputServer : InputRequestServer V} (hid : id ≠ 0)
    (hc : s.calls id = some ⟨server, request, .waitForReply pvServer⟩)
    (hs : s.manager.findInputServer server = some inputServer)
    (harmed : inputServer.requestId = id) (hv : isValid inputServer.reply = true)
    (hi : inputServer.interrupted = false) :
    ∃ outcome, Finishes s id ⟨server, request, .waitForReply pvServer⟩ outcome ∧
      ReplyOutcome id request inputServer.reply outcome := by
  have hw : inputServer.waitForReply id = some (true, inputServer.reply) :=
    (InputRequestServer.waitForReply_eq_some hid).mpr (.inr ⟨hi, hv, harmed.symm, rfl⟩)
  let effect : CallEffect V :=
    ⟨s.manager, s.userInputMtx, .withdraw pvServer (true, inputServer.reply),
      [.waitForReply server id], []⟩
  have hadv : InputCall.advance ⟨server, request, .waitForReply pvServer⟩ id
      s.manager s.userInputMtx = some effect := by
    simp [InputCall.advance, hs, hw, effect]
  obtain ⟨outcome, hf, ho⟩ := finishes_withdraw (s := s.apply id
    ⟨server, request, .waitForReply pvServer⟩ effect) apply_calls
  exact ⟨outcome, .advance hc hadv hf, ho⟩

/-- A call that has to publish its request and whose reply has arrived already finishes
with it. -/
theorem finishes_publish {id : UInt64} {server : String} {request : UserInputRequest V}
    {pvServer : Nat} {inputServer : InputRequestServer V} (hid : id ≠ 0)
    (hc : s.calls id = some ⟨server, request, .publish pvServer⟩)
    (hs : s.manager.findInputServer server = some inputServer)
    (harmed : inputServer.requestId = id) (hv : isValid inputServer.reply = true)
    (hi : inputServer.interrupted = false) :
    ∃ outcome, Finishes s id ⟨server, request, .publish pvServer⟩ outcome ∧
      ReplyOutcome id request inputServer.reply outcome := by
  cases he : base64EncodeAnyValue (encodeInputRequest id request) with
  | ok updateVal =>
    let effect : CallEffect V :=
      ⟨s.manager.pushUpdate pvServer (getInputRequestPVName server) updateVal, s.userInputMtx,
        .waitForReply pvServer, [],
        [(getInputRequestPVName server, encodeInputRequest id request)]⟩
    have hadv : InputCall.advance ⟨server, request, .publish pvServer⟩ id
        s.manager s.userInputMtx = some effect := by
      simp [InputCall.advance, EPICSAnyValueManager.updateServer_eq, he, Except.map, effect]
    obtain ⟨outcome, hf, ho⟩ := finishes_waitForReply (s := s.apply id
      ⟨server, request, .publish pvServer⟩ effect) hid apply_calls hs harmed hv hi
    exact ⟨outcome, .advance hc hadv hf, ho⟩
  | error e =>
    let effect : CallEffect V := ⟨s.manager, s.userInputMtx, .release (.error e), [], []⟩
    have hadv : InputCall.advance ⟨server, request, .publish pvServer⟩ id
        s.manager s.userInputMtx = some effect := by
      simp [InputCall.advance, EPICSAnyValueManager.updateServer_eq, he, Except.map, effect]
    exact ⟨.error e, .advance hc hadv (finishes_release apply_calls), .inr ⟨e, rfl, .inl he⟩⟩

/-- The outcome of a call whose request was answered: the reply, or the invalid reply after an
interrupt before the call woke up. -/
theorem UserInputInv.replyOutcome {registered : String → Prop} (h : UserInputInv registered s)
    {id : UInt64} {server : String} {request : UserInputRequest V} {reply : UserInputReply V}
    {outcome : Except Exception (UserInputReply V)}
    (ho : OutcomeOk registered s.history id server request outcome)
    (hm : .setClientReply server id reply true ∈ s.history) :
    (¬ InterruptedInTime s.history server id → ReplyOutcome id request reply outcome) ∧
      (InterruptedInTime s.history server id →
        ReplyOutcome id request OacTree.kInvalidUserInputReply outcome) := by
  cases ho with
  | replied hv hb hwoken =>
    refine ⟨fun _ ↦ .inl ?_, fun hi ↦ absurd hi hwoken.uninterrupted⟩
    rw [(h.requests.accepted_unique hm hb.snd_mem).2]
  | interrupted hi => exact ⟨fun hnot ↦ absurd hi hnot, fun _ ↦ .inl rfl⟩
  | unregistered hr hn => exact absurd (h.requests.accepted hm).2.1.fst_mem (hn server)
  | failed hinit he => exact ⟨fun _ ↦ .inr ⟨_, rfl, he⟩, fun _ ↦ .inr ⟨_, rfl, he⟩⟩

/-- The current request of a server that was answered and neither interrupted nor woken up has
its reply in the slot. -/
theorem UserInputInv.slot {registered : String → Prop} (h : UserInputInv registered s)
    {id : UInt64} {server : String} {reply : UserInputReply V}
    (harmed : Armed s.manager server id) (hasleep : NotWoken s.history id)
    (hm : .setClientReply server id reply true ∈ s.history)
    (hi : ¬ InterruptedInTime s.history server id) :
    ∃ inputServer, s.manager.findInputServer server = some inputServer ∧
      inputServer.requestId = id ∧ inputServer.reply = reply ∧
      inputServer.interrupted = false := by
  obtain ⟨inputServer, hs, hid⟩ := harmed
  obtain ⟨hv, hb, t, ht, hslot⟩ := h.requests.accepted hm
  have hne := h.requests.init_ne_zero hb.fst_mem
  have hst : t = inputServer := Option.some.inj (ht.symm.trans hs)
  subst hst hid
  refine ⟨t, hs, rfl, hslot rfl, ?_⟩
  rw [← Bool.not_eq_true, (h.requests.server hs).interrupted hne]
  exact fun hbefore ↦ hi (hbefore.inTime (hasleep server))

/-- An answered request that was not interrupted in time can always be finished with the
reply. -/
theorem UserInputInv.finishes {registered : String → Prop} (h : UserInputInv registered s)
    {id : UInt64} {call : InputCall V} {reply : UserInputReply V}
    (hc : s.calls id = some call) (hstarted : call.stage.started = true)
    (hm : .setClientReply call.server id reply true ∈ s.history)
    (hi : ¬ InterruptedInTime s.history call.server id) :
    ∃ outcome, Finishes s id call outcome ∧ ReplyOutcome id call.request reply outcome := by
  obtain ⟨hid, hinv⟩ := h.call hc
  have hv := (h.requests.accepted hm).1
  obtain ⟨server, request, stage⟩ := call
  cases stage with
  | queued => cases hstarted
  | findInputServer => cases hstarted
  | findServer found => cases hstarted
  | initNewRequest pvServer => cases hstarted
  | publish pvServer =>
    obtain ⟨inputServer, hs, harmed, rfl, hint⟩ := h.slot hinv.2.1 hinv.2.2 hm hi
    exact finishes_publish hid hc hs harmed hv hint
  | waitForReply pvServer =>
    obtain ⟨inputServer, hs, harmed, rfl, hint⟩ := h.slot hinv.2.1 hinv.2.2 hm hi
    exact finishes_waitForReply hid hc hs harmed hv hint
  | withdraw pvServer result =>
    cases hinv.2.2 with
    | replied hr hb =>
      obtain ⟨-, rfl⟩ := h.requests.accepted_unique hm hb.snd_mem
      exact finishes_withdraw hc
    | interrupted hb => exact absurd hb hi
  | release outcome =>
    exact ⟨outcome, finishes_release hc, (h.replyOutcome hinv.2 hm).1 hi⟩
  | done outcome => exact ⟨outcome, ⟨0, s, rfl, hc⟩, (h.replyOutcome hinv.2 hm).1 hi⟩

/-- A server accepts a valid reply to the request that it has initiated last, unless another
reply to it was accepted before. -/
theorem UserInputInv.accepts_iff {registered : String → Prop} (h : UserInputInv registered s)
    {name : String} {inputServer : InputRequestServer V}
    (hs : s.manager.findInputServer name = some inputServer) (id : UInt64)
    (reply : UserInputReply V) :
    (inputServer.setClientReply id reply).1 = true ↔
      isValid reply = true ∧ .initNewRequest name id ∈ s.history ∧
        (∀ other, ¬ Before s.history (.initNewRequest name id) (.initNewRequest name other)) ∧
        ∀ other r, .setClientReply other id r true ∉ s.history := by
  have hserver := h.requests.server hs
  rw [InputRequestServer.setClientReply_fst]
  constructor
  · rintro ⟨hid, hv, rfl, hempty⟩
    have hinit := hserver.armed hid
    refine ⟨hv, hinit, (hserver.latest hinit).mp rfl, fun other r hm ↦ ?_⟩
    have hnone := h.requests.acceptedReplies_eq_nil hs hid hempty
    have hmem : .setClientReply other inputServer.requestId r true ∈
        acceptedReplies inputServer.requestId s.history := by
      simp [acceptedReplies, hm]
    exact List.not_mem_nil (hnone ▸ hmem)
  · rintro ⟨hv, hinit, hlast, hnone⟩
    obtain rfl := (hserver.latest hinit).mpr hlast
    refine ⟨h.requests.init_ne_zero hinit, hv, rfl, Bool.eq_false_iff.mpr fun hfull ↦ ?_⟩
    exact hnone name _ (hserver.reply hfull).2.snd_mem

/-- Agreement about an accepted reply: its call has returned the reply or can still go on to
return it, unless the request was interrupted before the call woke up, and then it returns the
invalid reply; only an exception of the encoder can prevent either. After a call has returned
a reply every further reply to its request is refused, and so are the replies to every request
but the last one that the server has initiated. -/
theorem accepted_reply_agreement [LawfulOacTree V]
    (h : userInputMachine.run (.start manager) acts = some s) :
    (∀ server id reply, .setClientReply server id reply true ∈ s.history →
      ∃ call, s.calls id = some call ∧ call.server = server ∧
        (¬ InterruptedInTime s.history server id →
          (∀ outcome, call.stage = .done outcome → ReplyOutcome id call.request reply outcome) ∧
          ∃ outcome, Finishes s id call outcome ∧
            ReplyOutcome id call.request reply outcome) ∧
        (InterruptedInTime s.history server id → ∀ outcome, call.stage = .done outcome →
          ReplyOutcome id call.request OacTree.kInvalidUserInputReply outcome)) ∧
    (∀ id call reply, s.calls id = some call → call.stage = .done (.ok reply) →
      isValid reply = true → ∀ name inputServer r,
      s.manager.findInputServer name = some inputServer →
        (inputServer.setClientReply id r).1 = false) ∧
    (∀ name inputServer id r, s.manager.findInputServer name = some inputServer →
      ((inputServer.setClientReply id r).1 = true ↔
        isValid r = true ∧ .initNewRequest name id ∈ s.history ∧
          (∀ other, ¬ Before s.history (.initNewRequest name id) (.initNewRequest name other)) ∧
          ∀ other reply, .setClientReply other id reply true ∉ s.history)) := by
  have hinv := userInputInv_run h
  refine ⟨?_, ?_, fun name inputServer id r hs ↦ hinv.accepts_iff hs id r⟩
  · intro server id reply hm
    obtain ⟨call, hc, rfl, hstarted⟩ :=
      hinv.call_of_started (hinv.requests.accepted hm).2.1.fst_mem
    refine ⟨call, hc, rfl, fun hi ↦ ⟨?_, hinv.finishes hc hstarted hm hi⟩, ?_⟩
    · intro outcome hdone
      exact (hinv.replyOutcome (hinv.outcome hc hdone) hm).1 hi
    · intro hi outcome hdone
      exact (hinv.replyOutcome (hinv.outcome hc hdone) hm).2 hi
  · intro id call reply hc hdone hvalid name inputServer r hs
    rw [← Bool.not_eq_true, hinv.accepts_iff hs id r]
    rintro ⟨-, -, -, hnone⟩
    cases hinv.outcome hc hdone with
    | replied hv hb => exact hnone _ _ hb.snd_mem
    | interrupted hi => rw [isValid_kInvalidUserInputReply] at hvalid; cases hvalid
    | unregistered hr hn => rw [isValid_kInvalidUserInputReply] at hvalid; cases hvalid

end Agreement

/-- A call that is interrupted behind its wake-up returns the accepted reply, and no other reply
to its request is accepted. -/
theorem accepted_reply_agreement_late_interrupt :
    ∃ s, userInputMachine.run (.start TwoCalls.manager) [.getUserInput 1 "S" TwoCalls.request,
        .advance 1, .advance 1, .advance 1, .advance 1, .advance 1,
        .setClientReply "S" 1 TwoCalls.reply, .advance 1, .interrupt "S" 1,
        .applyInterrupt "S" 1, .advance 1, .advance 1] = some s ∧
      Before s.history (.initNewRequest "S" 1) (.interrupt "S" 1) ∧
      s.calls 1 = some ⟨"S", TwoCalls.request, .done (.ok TwoCalls.reply)⟩ ∧
      ReplyOutcome 1 TwoCalls.request TwoCalls.reply (.ok TwoCalls.reply) ∧
      ∃ inputServer, s.manager.findInputServer "S" = some inputServer ∧
        (inputServer.setClientReply 1 TwoCalls.reply).1 = false := by
  obtain ⟨s, hs⟩ : ∃ s, userInputMachine.run (.start TwoCalls.manager)
      [.getUserInput 1 "S" TwoCalls.request, .advance 1, .advance 1, .advance 1, .advance 1,
        .advance 1, .setClientReply "S" 1 TwoCalls.reply, .advance 1, .interrupt "S" 1,
        .applyInterrupt "S" 1, .advance 1, .advance 1] = some s :=
    Option.isSome_iff_exists.mp (by rfl)
  have hone : s.calls 1 = some ⟨"S", TwoCalls.request, .done (.ok TwoCalls.reply)⟩ :=
    userInputMachine.observe_run (fun s ↦ s.calls 1) hs (by rfl)
  have hhistory : s.history = [.initNewRequest "S" 1,
      .setClientReply "S" 1 TwoCalls.reply true, .waitForReply "S" 1] ++ [.interrupt "S" 1] :=
    userInputMachine.observe_run (fun s ↦ s.history) hs (by rfl)
  obtain ⟨inputServer, hfind⟩ : ∃ inputServer, s.manager.findInputServer "S" = some inputServer :=
    Option.isSome_iff_exists.mp
      (userInputMachine.observe_run (fun s ↦ (s.manager.findInputServer "S").isSome) hs (by rfl))
  have hm : .setClientReply "S" 1 TwoCalls.reply true ∈ s.history := by simp [hhistory]
  have hlate : ¬ InterruptedInTime s.history "S" 1 := by
    rw [hhistory]
    intro htime
    have := (InTime.of_append htime (by simp)).before.snd_mem
    simp at this
  obtain ⟨hagree, hrefused, -⟩ := accepted_reply_agreement hs
  obtain ⟨call, hc, -, hreturned, -⟩ := hagree "S" 1 TwoCalls.reply hm
  obtain rfl := Option.some.inj (hone.symm.trans hc)
  refine ⟨s, hs, ?_, hone, (hreturned hlate).1 _ rfl, inputServer, hfind, ?_⟩
  · rw [hhistory]
    exact Before.concat (by simp) _
  · exact hrefused 1 _ TwoCalls.reply hone rfl rfl "S" inputServer TwoCalls.reply hfind

/-- A reply that arrives between an interrupt and the wake-up of the call is accepted, and
the call returns the invalid reply. -/
theorem accepted_reply_discarded :
    ∃ s, userInputMachine.run (.start TwoCalls.manager) [.getUserInput 1 "S" TwoCalls.request,
        .advance 1, .advance 1, .advance 1, .advance 1, .advance 1, .interrupt "S" 1,
        .applyInterrupt "S" 1, .setClientReply "S" 1 TwoCalls.reply, .advance 1, .advance 1,
        .advance 1] = some s ∧
      .setClientReply "S" 1 TwoCalls.reply true ∈ s.history ∧
      s.calls 1 =
        some ⟨"S", TwoCalls.request, .done (.ok OacTree.kInvalidUserInputReply)⟩ ∧
      OacTree.kInvalidUserInputReply ≠ TwoCalls.reply := by
  obtain ⟨s, hs⟩ : ∃ s, userInputMachine.run (.start TwoCalls.manager)
      [.getUserInput 1 "S" TwoCalls.request, .advance 1, .advance 1, .advance 1, .advance 1,
        .advance 1, .interrupt "S" 1, .applyInterrupt "S" 1,
        .setClientReply "S" 1 TwoCalls.reply, .advance 1, .advance 1, .advance 1] = some s :=
    Option.isSome_iff_exists.mp (by rfl)
  have hhistory : s.history = [.initNewRequest "S" 1, .interrupt "S" 1,
      .setClientReply "S" 1 TwoCalls.reply true, .waitForReply "S" 1] :=
    userInputMachine.observe_run (fun s ↦ s.history) hs (by rfl)
  refine ⟨s, hs, by simp [hhistory], ?_, ?_⟩
  · exact userInputMachine.observe_run (fun s ↦ s.calls 1) hs (by rfl)
  · intro h
    exact absurd (congrArg UserInputReply.result h) (by decide)

end OacTreeServer.Epics
