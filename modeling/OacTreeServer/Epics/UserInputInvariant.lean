import OacTreeServer.Epics.UserInput
import OacTreeServer.External.Reference

/-!
# What holds in every state of the user input system

Each call of `GetUserInput` knows, at each stage, whether it holds `m_user_input_mtx`,
whether its request was initiated, and what its result goes back to. The steps of other
threads keep what a call knows, because only the holder of the mutex initiates requests.
With it every step of the system is a step of the account of all requests, or leaves
that account alone.
-/

namespace OacTreeServer.Epics
open OacTreeServer.External OacTreeServer.Input OacTreeServer.Library OacTreeServer.Protocol

section Invariant

variable {V : Type}

/-- The input servers of the system and their history. -/
def UserInputState.requests (s : UserInputState V) : Requests V :=
  { server := s.manager.findInputServer, history := s.history }

/-- No request with this id was initiated so far. -/
def NotStarted (history : List (RequestEvent V)) (id : UInt64) : Prop :=
  ∀ name, .initNewRequest name id ∉ history

/-- No call that waits for a reply with this id has woken up so far. -/
def NotWoken (history : List (RequestEvent V)) (id : UInt64) : Prop :=
  ∀ name, .waitForReply name id ∉ history

/-- The request was interrupted before its call has woken up. -/
def InterruptedInTime (history : List (RequestEvent V)) (server : String) (id : UInt64) : Prop :=
  InTime history (.initNewRequest server id) (.interrupt server id) (.waitForReply server id)

/-- The call has woken up, and its request had not been interrupted before. -/
structure WokenUninterrupted (history : List (RequestEvent V)) (server : String) (id : UInt64) :
    Prop where
  woken : .waitForReply server id ∈ history
  uninterrupted : ¬ InterruptedInTime history server id

/-- Later interrupts do not matter to a call that has woken up. -/
theorem WokenUninterrupted.mono {history later : List (RequestEvent V)} {server : String}
    {id : UInt64} (h : WokenUninterrupted history server id) (hp : history <+: later) :
    WokenUninterrupted later server id := by
  obtain ⟨more, rfl⟩ := hp
  exact ⟨List.mem_append_left more h.woken, fun ht ↦ h.uninterrupted (InTime.of_append ht h.woken)⟩

/-- The request is the current one of the server. -/
def Armed (manager : EPICSAnyValueManager V) (server : String) (id : UInt64) : Prop :=
  ∃ inputServer, manager.findInputServer server = some inputServer ∧ inputServer.requestId = id

/-- Both servers behind an input handler can be found. -/
def Registered (manager : EPICSAnyValueManager V) (server : String) : Prop :=
  (manager.findInputServer server).isSome ∧
    (manager.findServer (getInputRequestPVName server)).isSome

/-- A current request stays current while its server initiates no other one. -/
theorem Armed.setInputServer {manager : EPICSAnyValueManager V} {name server : String}
    {id : UInt64} {inputServer : InputRequestServer V}
    (hkeep : ∀ old, manager.findInputServer name = some old →
      inputServer.requestId = old.requestId)
    (h : Armed manager server id) : Armed (manager.setInputServer name inputServer) server id := by
  obtain ⟨old, hold, hid⟩ := h
  unfold Armed
  rw [EPICSAnyValueManager.findInputServer_setInputServer]
  by_cases hn : server = name
  · subst hn
    exact ⟨inputServer, Function.update_self .., (hkeep old hold).trans hid⟩
  · exact ⟨old, (Function.update_of_ne hn ..).trans hold, hid⟩

/-- Assignment of an input server loses none. -/
theorem findInputServer_isSome_setInputServer {manager : EPICSAnyValueManager V}
    {name server : String} {inputServer : InputRequestServer V}
    (h : (manager.findInputServer server).isSome) :
    ((manager.setInputServer name inputServer).findInputServer server).isSome := by
  rw [EPICSAnyValueManager.findInputServer_setInputServer, Function.update_apply]
  split
  · rfl
  · exact h

/-- Registered servers stay registered when an input server is assigned. -/
theorem Registered.setInputServer {manager : EPICSAnyValueManager V} {name server : String}
    {inputServer : InputRequestServer V} (h : Registered manager server) :
    Registered (manager.setInputServer name inputServer) server :=
  ⟨findInputServer_isSome_setInputServer h.1, h.2⟩

/-- The history has grown by events that neither begin the request nor end its wait. -/
def GrowsBeside (id : UInt64) (history later : List (RequestEvent V)) : Prop :=
  ∃ events, later = history ++ events ∧
    ∀ name, .initNewRequest name id ∉ events ∧ .waitForReply name id ∉ events

/-- A history may stay as it is. -/
private theorem growsBeside_refl (id : UInt64) (history : List (RequestEvent V)) :
    GrowsBeside id history history :=
  ⟨[], (List.append_nil _).symm, by simp⟩

/-- Events of other requests. -/
private theorem growsBeside_append {id : UInt64} {history events : List (RequestEvent V)}
    (he : ∀ name, .initNewRequest name id ∉ events ∧ .waitForReply name id ∉ events) :
    GrowsBeside id history (history ++ events) :=
  ⟨events, rfl, he⟩

/-- A step that goes through no section of a request server adds nothing to the history. -/
theorem apply_history {s : UserInputState V} {id : UInt64} {call : InputCall V}
    {effect : CallEffect V} (h : effect.events = []) :
    (s.apply id call effect).history = s.history := by
  rw [UserInputState.apply, h, List.append_nil]

/-- The call that has taken a step is at its next stage. -/
theorem apply_calls {s : UserInputState V} {id : UInt64} {call : InputCall V}
    {effect : CallEffect V} :
    (s.apply id call effect).calls id = some { call with stage := effect.stage } :=
  Function.update_self ..

/-- The steps of the environment, as a call sees them. -/
structure Frame (s t : UserInputState V) (id : UInt64) : Prop where
  mtx : t.userInputMtx = some id ↔ s.userInputMtx = some id
  history : GrowsBeside id s.history t.history
  found : ∀ server, (s.manager.findInputServer server).isSome →
    (t.manager.findInputServer server).isSome
  armed : ∀ server, s.userInputMtx = some id → Armed s.manager server id →
    Armed t.manager server id

section Histories

variable {s t : UserInputState V} {id : UInt64}

/-- The environment forgets nothing. -/
theorem Frame.isPrefix (hf : Frame s t id) : s.history <+: t.history := by
  obtain ⟨events, heq, -⟩ := hf.history
  exact ⟨events, heq.symm⟩

/-- The environment does not begin the request. -/
theorem Frame.notStarted (hf : Frame s t id) (h : NotStarted s.history id) :
    NotStarted t.history id := by
  obtain ⟨events, heq, hevents⟩ := hf.history
  intro name hm
  rw [heq] at hm
  exact (List.mem_append.mp hm).elim (h name) (hevents name).1

/-- The environment does not end the wait. -/
theorem Frame.notWoken (hf : Frame s t id) (h : NotWoken s.history id) :
    NotWoken t.history id := by
  obtain ⟨events, heq, hevents⟩ := hf.history
  intro name hm
  rw [heq] at hm
  exact (List.mem_append.mp hm).elim (h name) (hevents name).2

end Histories

variable [AnyValue V] [OacTree V] [Base64VariableCodec V]

/-- What `WaitForReply` returned goes back to an accepted reply or to an interrupt before its
end. -/
inductive ResultOk (history : List (RequestEvent V)) (id : UInt64) (server : String) :
    Bool × UserInputReply V → Prop where
  | replied {reply} : isValid reply = true →
      Before history (.initNewRequest server id) (.setClientReply server id reply true) →
      WokenUninterrupted history server id →
      ResultOk history id server (true, reply)
  | interrupted {reply} : InterruptedInTime history server id →
      ResultOk history id server (false, reply)

/-- What `GetUserInput` returned or threw has one of four reasons. -/
inductive OutcomeOk (registered : String → Prop) (history : List (RequestEvent V)) (id : UInt64)
    (server : String) (request : UserInputRequest V) :
    Except Exception (UserInputReply V) → Prop where
  | replied {reply} : isValid reply = true →
      Before history (.initNewRequest server id) (.setClientReply server id reply true) →
      WokenUninterrupted history server id →
      OutcomeOk registered history id server request (.ok reply)
  | interrupted : InterruptedInTime history server id →
      OutcomeOk registered history id server request (.ok OacTree.kInvalidUserInputReply)
  | unregistered : ¬ registered server → NotStarted history id →
      OutcomeOk registered history id server request (.ok OacTree.kInvalidUserInputReply)
  /-- One of the two published values could not be encoded. -/
  | failed {e} : .initNewRequest server id ∈ history →
      base64EncodeAnyValue (encodeInputRequest id request) = .error e ∨
        base64EncodeAnyValue (kInputRequestAnyValue V) = .error e →
      OutcomeOk registered history id server request (.error e)

/-- What a call knows at each stage. -/
def StageInv (registered : String → Prop) (s : UserInputState V) (id : UInt64) (server : String)
    (request : UserInputRequest V) : InputStage V → Prop
  | .queued => s.userInputMtx ≠ some id ∧ NotStarted s.history id
  | .findInputServer => s.userInputMtx = some id ∧ NotStarted s.history id
  | .findServer found => s.userInputMtx = some id ∧ NotStarted s.history id ∧
      (found = true → (s.manager.findInputServer server).isSome) ∧
      (registered server → found = true)
  | .initNewRequest _ => s.userInputMtx = some id ∧ NotStarted s.history id ∧
      (s.manager.findInputServer server).isSome
  | .publish _ => s.userInputMtx = some id ∧ Armed s.manager server id ∧ NotWoken s.history id
  | .waitForReply _ => s.userInputMtx = some id ∧ Armed s.manager server id ∧
      NotWoken s.history id
  | .withdraw _ result => s.userInputMtx = some id ∧ Armed s.manager server id ∧
      ResultOk s.history id server result
  | .release outcome => s.userInputMtx = some id ∧
      OutcomeOk registered s.history id server request outcome
  | .done outcome => s.userInputMtx ≠ some id ∧
      OutcomeOk registered s.history id server request outcome

/-- The invariant of the system, for a set of servers that are registered from the start. -/
structure UserInputInv (registered : String → Prop) (s : UserInputState V) : Prop where
  requests : RequestsInv s.requests
  servers : ∀ server, registered server → Registered s.manager server
  call : ∀ {id call}, s.calls id = some call →
    id ≠ 0 ∧ StageInv registered s id call.server call.request call.stage
  uncalled : ∀ {id}, s.calls id = none → s.userInputMtx ≠ some id ∧ NotStarted s.history id

omit [AnyValue V] [Base64VariableCodec V] in
/-- The reason of a result stays. -/
theorem ResultOk.mono {h l : List (RequestEvent V)} (hp : h <+: l) {id : UInt64}
    {server : String} {result : Bool × UserInputReply V} (hr : ResultOk h id server result) :
    ResultOk l id server result := by
  cases hr with
  | replied hv hb hwoken => exact .replied hv (hb.mono hp) (hwoken.mono hp)
  | interrupted hb => exact .interrupted (hb.mono hp)

variable {registered : String → Prop} {s t : UserInputState V} {id : UInt64} {server : String}
  {request : UserInputRequest V}

/-- The reason of an outcome stays. -/
theorem OutcomeOk.frame (hf : Frame s t id) {outcome : Except Exception (UserInputReply V)}
    (ho : OutcomeOk registered s.history id server request outcome) :
    OutcomeOk registered t.history id server request outcome := by
  cases ho with
  | replied hv hb hwoken =>
    exact .replied hv (hb.mono hf.isPrefix) (hwoken.mono hf.isPrefix)
  | interrupted hb => exact .interrupted (hb.mono hf.isPrefix)
  | unregistered hr hn => exact .unregistered hr (hf.notStarted hn)
  | failed hi he => exact .failed (hf.isPrefix.subset hi) he

/-- A call keeps what it knows when others take steps. -/
theorem StageInv.frame (hf : Frame s t id) {stage : InputStage V}
    (h : StageInv registered s id server request stage) :
    StageInv registered t id server request stage := by
  cases stage with
  | queued => exact ⟨fun ht ↦ h.1 (hf.mtx.mp ht), hf.notStarted h.2⟩
  | findInputServer => exact ⟨hf.mtx.mpr h.1, hf.notStarted h.2⟩
  | findServer found =>
    exact ⟨hf.mtx.mpr h.1, hf.notStarted h.2.1, fun ht ↦ hf.found server (h.2.2.1 ht), h.2.2.2⟩
  | initNewRequest pvServer =>
    exact ⟨hf.mtx.mpr h.1, hf.notStarted h.2.1, hf.found server h.2.2⟩
  | publish pvServer =>
    exact ⟨hf.mtx.mpr h.1, hf.armed server h.1 h.2.1, hf.notWoken h.2.2⟩
  | waitForReply pvServer =>
    exact ⟨hf.mtx.mpr h.1, hf.armed server h.1 h.2.1, hf.notWoken h.2.2⟩
  | withdraw pvServer result =>
    exact ⟨hf.mtx.mpr h.1, hf.armed server h.1 h.2.1, h.2.2.mono hf.isPrefix⟩
  | release outcome => exact ⟨hf.mtx.mpr h.1, h.2.frame hf⟩
  | done outcome => exact ⟨fun ht ↦ h.1 (hf.mtx.mp ht), h.2.frame hf⟩

/-- The step of one call is a step of the environment for another. -/
private theorem frame_apply {other : UInt64} {call : InputCall V} {effect : CallEffect V}
    (hne : other ≠ id) (hinv : StageInv registered s id call.server call.request call.stage)
    (hstep : CallStep id call.server call.request s.manager s.userInputMtx call.stage effect) :
    Frame s (s.apply id call effect) other := by
  obtain ⟨server, request, stage⟩ := call
  have hsome : some id ≠ some other := fun h ↦ hne (Option.some.inj h).symm
  -- a holder of the mutex is not the other call
  have hmtx : s.userInputMtx = some id → ¬ s.userInputMtx = some other := by
    intro h h'
    exact hsome (h.symm.trans h')
  generalize hm : s.userInputMtx = mtx at hstep hmtx
  cases hstep with
  | acquire =>
    exact ⟨by simp [UserInputState.apply, hm, hsome], growsBeside_append (by simp),
      fun _ h ↦ h, fun _ _ h ↦ h⟩
  | initNewRequest hs =>
    refine ⟨by simp [UserInputState.apply, hm], growsBeside_append ?_,
      fun _ h ↦ findInputServer_isSome_setInputServer h, ?_⟩
    · intro name
      simp [hne]
    · intro name hother
      rw [hm] at hother
      exact absurd hother (hmtx (hm ▸ hinv.1))
  | release =>
    have hid : mtx = some id := hm ▸ hinv.1
    exact ⟨by simp [UserInputState.apply, hm, hid, hsome], growsBeside_append (by simp),
      fun _ h ↦ h, fun _ _ h ↦ h⟩
  | _ =>
    -- the other steps change neither the mutex nor an input server
    exact ⟨by simp [UserInputState.apply, hm], growsBeside_append (by simp [hne]),
      fun _ h ↦ h, fun _ _ h ↦ h⟩

/-- A call that has taken its step knows what it has to know at the next stage. -/
private theorem stageInv_apply {call : InputCall V} {effect : CallEffect V}
    (h : UserInputInv registered s) (hid : id ≠ 0)
    (hinv : StageInv registered s id call.server call.request call.stage)
    (hstep : CallStep id call.server call.request s.manager s.userInputMtx call.stage effect) :
    StageInv registered (s.apply id call effect) id call.server call.request effect.stage := by
  obtain ⟨server, request, stage⟩ := call
  simp only at hinv hstep ⊢
  generalize hm : s.userInputMtx = mtx at hstep
  cases hstep with
  | acquire => exact ⟨rfl, by rw [apply_history rfl]; exact hinv.2⟩
  | findInputServer =>
    refine ⟨hm ▸ hinv.1, by rw [apply_history rfl]; exact hinv.2, fun hf ↦ hf, fun hr ↦ ?_⟩
    exact (h.servers server hr).1
  | findServer hpv =>
    exact ⟨hm ▸ hinv.1, by rw [apply_history rfl]; exact hinv.2.1, hinv.2.2.1 rfl⟩
  | unregistered hpv =>
    refine ⟨hm ▸ hinv.1, .unregistered (fun hr ↦ ?_) (by rw [apply_history rfl]; exact hinv.2.1)⟩
    have hsome := (h.servers server hr).2
    rw [hpv (hinv.2.2.2 hr)] at hsome
    cases hsome
  | @initNewRequest _ _ inputServer hs =>
    refine ⟨hm ▸ hinv.1, ⟨inputServer.initNewRequest id, ?_, rfl⟩, fun name hwoken ↦ ?_⟩
    · simp only [UserInputState.apply, EPICSAnyValueManager.findInputServer_setInputServer]
      exact Function.update_self ..
    · -- a request that begins was not waited for
      have hold : .waitForReply name id ∈ s.history := by
        simpa [UserInputState.apply] using hwoken
      exact hinv.2.1 name (h.requests.waited hold)
  | publish he =>
    refine ⟨hm ▸ hinv.1, hinv.2.1, ?_⟩
    rw [apply_history rfl]
    exact hinv.2.2
  | publishFailed he =>
    obtain ⟨hmtx, ⟨inputServer, hs, harmed⟩, -⟩ := hinv
    subst harmed
    have hstarted := (h.requests.server hs).armed hid
    exact ⟨hm ▸ hmtx, .failed (by rw [apply_history rfl]; exact hstarted) (.inl he)⟩
  | @waitForReply _ pvServer inputServer result hs hr =>
    obtain ⟨hmtx, ⟨armed, ha, harmed⟩, hasleep⟩ := hinv
    rw [hs] at ha
    cases ha
    subst harmed
    have hserver := h.requests.server hs
    have hmore := List.prefix_append s.history [.waitForReply server inputServer.requestId]
    refine ⟨hm ▸ hmtx, ⟨inputServer, hs, rfl⟩, ?_⟩
    rcases (InputRequestServer.waitForReply_eq_some hid).mp hr with
      ⟨hi, rfl⟩ | ⟨hi, hv, -, rfl⟩
    · have htime := ((hserver.interrupted hid).mp hi).inTime (hasleep server)
      exact .interrupted (htime.mono hmore)
    · refine .replied hv ((hserver.reply hv).2.mono hmore) ⟨?_, fun htime ↦ ?_⟩
      · exact List.mem_append_right _ (List.mem_singleton_self _)
      · -- the event that is new is no interrupt
        have hold := (Before.concat_iff.mp htime.before).resolve_right (by simp)
        rw [(hserver.interrupted hid).mpr hold] at hi
        cases hi
  | withdraw he =>
    refine ⟨hm ▸ hinv.1, ?_⟩
    rw [apply_history rfl]
    cases hinv.2.2 with
    | replied hv hb hwoken => exact .replied hv hb hwoken
    | interrupted hb => exact .interrupted hb
  | withdrawFailed he =>
    obtain ⟨hmtx, ⟨inputServer, hs, harmed⟩, -⟩ := hinv
    subst harmed
    have hstarted := (h.requests.server hs).armed hid
    exact ⟨hm ▸ hmtx, .failed (by rw [apply_history rfl]; exact hstarted) (.inr he)⟩
  | release =>
    exact ⟨by simp [UserInputState.apply], by rw [apply_history rfl]; exact hinv.2⟩

/-- Every step of the system is a step of the account of all requests, or leaves that
account alone. -/
theorem requests_step (h : UserInputInv registered s) {a : UserInputAction V}
    (hstep : UserInputStep s a t) :
    t.requests = s.requests ∨ RequestStep s.requests t.requests := by
  cases hstep with
  | getUserInput => exact .inl rfl
  | @advance id call effect hc hcall =>
    obtain ⟨hid, hinv⟩ := h.call hc
    obtain ⟨server, request, stage⟩ := call
    simp only at hinv hcall
    generalize hm : s.userInputMtx = mtx at hcall
    cases hcall with
    | @initNewRequest _ pvServer inputServer hs =>
      right
      have := RequestStep.initNewRequest (q := s.requests) hs hid hinv.2.1
      simpa [UserInputState.requests, UserInputState.apply, Requests.record] using this
    | waitForReply =>
      obtain ⟨-, ⟨armed, ha, rfl⟩, -⟩ := hinv
      exact .inr (.waitForReply (q := s.requests) ((h.requests.server ha).armed hid))
    | _ =>
      left
      simp [UserInputState.requests, UserInputState.apply]
  | @setClientReply server id reply inputServer hs =>
    right
    have hr : RequestStep s.requests (s.requests.record server
        (inputServer.setClientReply id reply).2
        (.setClientReply server id reply (inputServer.setClientReply id reply).1)) :=
      .setClientReply hs
    simpa [UserInputState.requests, Requests.record] using hr
  | @interruptUnknown server id hs => exact .inr (.interruptUnknown (q := s.requests) hs)
  | interrupt => exact .inl rfl
  | @applyInterrupt server id inputServer hm hs =>
    right
    have hr : RequestStep s.requests (s.requests.record server (inputServer.interrupt id)
        (.interrupt server id)) := .interrupt hs
    simpa [UserInputState.requests, Requests.record] using hr
  | addAnyValues =>
    left
    simp [UserInputState.requests, EPICSAnyValueManager.addAnyValues]
  | addInputServer hs =>
    right
    have := RequestStep.register (q := s.requests) hs
    simpa [UserInputState.requests] using this
  | updateAnyValue => exact .inl rfl
  | refused => exact .inl rfl

/-- For one id, a step of the system is the step of its call, or a step of the environment
that may begin its call. -/
theorem step_cases (h : UserInputInv registered s) {a : UserInputAction V}
    (hstep : UserInputStep s a t) (id : UInt64) :
    (∃ call effect, s.calls id = some call ∧
      CallStep id call.server call.request s.manager s.userInputMtx call.stage effect ∧
      t = s.apply id call effect) ∨
    Frame s t id ∧ (t.calls id = s.calls id ∨
      s.calls id = none ∧ id ≠ 0 ∧
        ∃ server request, t.calls id = some ⟨server, request, .queued⟩) := by
  cases hstep with
  | @getUserInput other server request hid hnone =>
    refine .inr ⟨⟨Iff.rfl, growsBeside_refl _ _, fun _ h ↦ h, fun _ _ h ↦ h⟩, ?_⟩
    by_cases ho : id = other
    · subst ho
      exact .inr ⟨hnone, hid, server, request, Function.update_self ..⟩
    · exact .inl (Function.update_of_ne ho ..)
  | @advance other call effect hc hcall =>
    by_cases ho : id = other
    · subst ho
      exact .inl ⟨call, effect, hc, hcall, rfl⟩
    · exact .inr ⟨frame_apply ho (h.call hc).2 hcall, .inl (Function.update_of_ne ho ..)⟩
  | @setClientReply server i reply inputServer hs =>
    refine .inr ⟨⟨Iff.rfl, growsBeside_append (by simp),
      fun _ ↦ findInputServer_isSome_setInputServer, fun _ _ ↦ Armed.setInputServer ?_⟩, .inl rfl⟩
    intro old hold
    rw [hs] at hold
    cases hold
    simp
  | interruptUnknown hs =>
    exact .inr ⟨⟨Iff.rfl, growsBeside_append (by simp), fun _ h ↦ h,
      fun _ _ h ↦ h⟩, .inl rfl⟩
  | interrupt hs =>
    exact .inr ⟨⟨Iff.rfl, growsBeside_refl _ _, fun _ h ↦ h, fun _ _ h ↦ h⟩, .inl rfl⟩
  | @applyInterrupt server i inputServer hm hs =>
    refine .inr ⟨⟨Iff.rfl, growsBeside_append (by simp),
      fun _ ↦ findInputServer_isSome_setInputServer, fun _ _ ↦ Armed.setInputServer ?_⟩, .inl rfl⟩
    intro old hold
    rw [hs] at hold
    cases hold
    simp
  | @addAnyValues nameValueSet =>
    have hfind := EPICSAnyValueManager.findInputServer_addAnyValuesImpl s.manager nameValueSet
    refine .inr ⟨⟨Iff.rfl, growsBeside_refl _ _, fun server hserver ↦ ?_,
      fun server _ harmed ↦ ?_⟩, .inl rfl⟩
    · exact (congrFun hfind server).symm ▸ hserver
    · obtain ⟨inputServer, hs, hid⟩ := harmed
      exact ⟨inputServer, (congrFun hfind server).trans hs, hid⟩
  | addInputServer hs =>
    refine .inr ⟨⟨Iff.rfl, growsBeside_refl _ _,
      fun _ ↦ findInputServer_isSome_setInputServer, fun _ _ ↦ Armed.setInputServer ?_⟩, .inl rfl⟩
    intro old hold
    rw [hs] at hold
    cases hold
  | updateAnyValue =>
    exact .inr ⟨⟨Iff.rfl, growsBeside_refl _ _, fun _ h ↦ h, fun _ _ h ↦ h⟩, .inl rfl⟩
  | refused =>
    exact .inr ⟨⟨Iff.rfl, growsBeside_refl _ _, fun _ h ↦ h, fun _ _ h ↦ h⟩, .inl rfl⟩

/-- No step takes a server away. -/
theorem Registered.step {a : UserInputAction V} (hstep : UserInputStep s a t)
    (hr : Registered s.manager server) : Registered t.manager server := by
  cases hstep with
  | @advance id call effect hc hcall =>
    obtain ⟨name, request, stage⟩ := call
    simp only at hcall
    generalize s.userInputMtx = mtx at hcall
    cases hcall with
    | initNewRequest => exact hr.setInputServer
    | _ => exact hr
  | setClientReply => exact hr.setInputServer
  | applyInterrupt => exact hr.setInputServer
  | addInputServer => exact hr.setInputServer
  | @addAnyValues nameValueSet =>
    obtain ⟨i, hi⟩ := Option.isSome_iff_exists.mp hr.2
    refine ⟨?_, ?_⟩
    · have hfind := EPICSAnyValueManager.findInputServer_addAnyValuesImpl s.manager nameValueSet
      exact (congrFun hfind server).symm ▸ hr.1
    · have := EPICSAnyValueManager.findServer_addAnyValuesImpl hi nameValueSet
      exact Option.isSome_of_eq_some this
  | _ => exact hr

/-- Every step keeps the invariant. -/
theorem UserInputInv.step [LawfulOacTree V] (h : UserInputInv registered s)
    {a : UserInputAction V} (hstep : UserInputStep s a t) : UserInputInv registered t where
  requests := by
    rcases requests_step h hstep with heq | hr
    · rw [heq]
      exact h.requests
    · exact h.requests.step hr
  servers server hserver := (h.servers server hserver).step hstep
  call {id call} hc := by
    rcases step_cases h hstep id with ⟨before, effect, hb, hcall, rfl⟩ | ⟨hf, hkeep | hnew⟩
    · have hc : call = { before with stage := effect.stage } := by
        simpa [UserInputState.apply, eq_comm] using hc
      subst hc
      obtain ⟨hid, hinv⟩ := h.call hb
      exact ⟨hid, stageInv_apply h hid hinv hcall⟩
    · rw [hkeep] at hc
      exact ⟨(h.call hc).1, (h.call hc).2.frame hf⟩
    · obtain ⟨hnone, hid, server, request, hqueued⟩ := hnew
      rw [hqueued] at hc
      cases hc
      obtain ⟨hmtx, hn⟩ := h.uncalled hnone
      exact ⟨hid, fun ht ↦ hmtx (hf.mtx.mp ht), hf.notStarted hn⟩
  uncalled {id} hnone := by
    rcases step_cases h hstep id with ⟨before, effect, hb, hcall, rfl⟩ | ⟨hf, hkeep | hnew⟩
    · simp [UserInputState.apply] at hnone
    · rw [hkeep] at hnone
      obtain ⟨hmtx, hn⟩ := h.uncalled hnone
      exact ⟨fun ht ↦ hmtx (hf.mtx.mp ht), hf.notStarted hn⟩
    · obtain ⟨-, -, server, request, hqueued⟩ := hnew
      rw [hqueued] at hnone
      cases hnone

/-- A manager whose input servers have not had a request yet. -/
abbrev FreshManager (V : Type) [OacTree V] : Type :=
  { manager : EPICSAnyValueManager V //
    ∀ name server, manager.findInputServer name = some server → server = .new }

namespace FreshManager

/-- A new manager. -/
def new : FreshManager V := ⟨.new, by simp [EPICSAnyValueManager.findInputServer,
  EPICSAnyValueManager.new]⟩

/-- Adding values initiates no request. -/
def addAnyValues (manager : FreshManager V) (nameValueSet : NameAnyValueSet V) : FreshManager V :=
  ⟨(manager.val.addAnyValues nameValueSet).2, by
    rw [EPICSAnyValueManager.addAnyValues,
      EPICSAnyValueManager.findInputServer_addAnyValuesImpl]
    exact manager.property⟩

/-- Adding an input handler initiates no request. -/
def addInputHandler (manager : FreshManager V) (name : String) : FreshManager V :=
  ⟨(manager.val.addInputHandler name).2, by
    unfold EPICSAnyValueManager.addInputHandler EPICSAnyValueManager.addInputServer
    cases hn : manager.val.nameInputServerMap[name]? with
    | some server => exact manager.property
    | none =>
      intro other server hs
      simp only [EPICSAnyValueManager.findInputServer_addAnyValuesImpl,
        EPICSAnyValueManager.findInputServer_setInputServer, Function.update_apply] at hs
      split at hs
      · exact (Option.some.inj hs).symm
      · exact manager.property other server hs⟩

end FreshManager

/-- The system before the first call. -/
def UserInputState.start (manager : FreshManager V) : UserInputState V :=
  { manager := manager.val, userInputMtx := none, calls := fun _ ↦ none, interrupts := []
    history := [], pushed := [] }

variable [LawfulOacTree V]

/-- The system starts with the invariant. -/
theorem userInputInv_start (manager : FreshManager V) :
    UserInputInv (Registered manager.val) (UserInputState.start manager) where
  requests :=
    { server := by
        intro name server hs
        rw [manager.property name server hs]
        exact .new nofun
      init_ne_zero := nofun
      init_registered := nofun
      init_unique := nofun
      accepted := nofun
      accepted_once := fun _ ↦ Nat.zero_le _
      waited := nofun }
  servers _ hr := hr
  call hc := by cases hc
  uncalled _ := ⟨nofun, nofun⟩

/-- The invariant holds in every state of every run. -/
theorem userInputInv_run {manager : FreshManager V} {acts : List (UserInputAction V)}
    {s : UserInputState V} (h : userInputMachine.run (.start manager) acts = some s) :
    UserInputInv (Registered manager.val) s :=
  Machine.run_invariant (fun hs ht ↦ hs.step (userInputStep_of_step ht))
    (userInputInv_start manager) h

end Invariant

namespace TwoCalls

/-- A manager with one input handler. -/
def manager : FreshManager DtoValue := FreshManager.new.addInputHandler "S"

/-- A request for a number. -/
def request : UserInputRequest DtoValue := ⟨⟨1⟩, .string "speed", .uint32 0⟩

/-- A reply with a number. -/
def reply : UserInputReply DtoValue := ⟨⟨1⟩, true, .uint32 42⟩

/-- Two calls on one server: a reply to the second request comes too early, the first
request is answered twice, and the second one is interrupted. -/
def acts : List (UserInputAction DtoValue) := [.getUserInput 1 "S" request,
  .getUserInput 2 "S" request, .advance 1, .advance 1, .advance 1, .advance 1, .advance 1,
  .setClientReply "S" 2 reply, .setClientReply "S" 1 reply, .setClientReply "S" 1 reply,
  .advance 1, .advance 1, .advance 1, .advance 2, .advance 2, .advance 2, .advance 2,
  .advance 2, .interrupt "S" 2, .applyInterrupt "S" 2, .advance 2, .advance 2, .advance 2]

end TwoCalls

end OacTreeServer.Epics
