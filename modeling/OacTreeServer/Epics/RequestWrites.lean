import OacTreeServer.Epics.UserInputChannels
import OacTreeServer.Input.InputProtocol

/-!
# What is written to a request variable

A call of `GetUserInput` uses the `EPICSServer` that it has found for its request variable
throughout (`epics/epics_anyvalue_manager.cpp:98`). When nothing else writes to the variable, the
values pushed to it are requests of calls and withdrawals, and the last one shows the request
that is out, or that there is none. Input servers may be added at any time.
-/

namespace OacTreeServer.Epics
open OacTreeServer.External OacTreeServer.Input OacTreeServer.Library OacTreeServer.Protocol

section Definitions

variable {V : Type}

variable [AnyValue V] [OacTree V]

/-- Only `GetUserInput` writes to the request variable of a server, which is added without a
request. -/
def KeepsRequests (server : String) : UserInputAction V → Prop
  | .updateAnyValue name _ => name ≠ getInputRequestPVName server
  | .addAnyValues nameValueSet => ∀ value,
      (getInputRequestPVName server, value) ∈ nameValueSet → value = kInputRequestAnyValue V
  | _ => True

variable [Base64VariableCodec V]

/-- What a step does to the queues, as far as one request variable is concerned. -/
inductive QueueEffect (server : String) (s t : UserInputState V) : Prop where
  | same : t.manager.servers = s.manager.servers → t.manager.findServer = s.manager.findServer →
      t.pushed = s.pushed → QueueEffect server s t
  | grow (nameValueSet : NameAnyValueSet V) :
      t.manager = (s.manager.addAnyValues nameValueSet).2 → t.pushed = s.pushed →
      (∀ value, (getInputRequestPVName server, value) ∈ nameValueSet →
        value = kInputRequestAnyValue V) →
      QueueEffect server s t
  | push (i : Nat) (name : String) (value encoded : V) :
      t.manager = s.manager.pushUpdate i name encoded → t.pushed = s.pushed ++ [(name, value)] →
      (name = getInputRequestPVName server →
        s.manager.findServer name = some i ∧ base64EncodeAnyValue value = .ok encoded) →
      QueueEffect server s t

omit [Base64VariableCodec V] in
/-- The calls know their `EPICSServer`, and what is pushed to a request variable comes from them,
last of all from the one that holds the mutex. -/
structure RequestWrites (server : String) (s : UserInputState V) : Prop where
  found : CallsFound s
  written : ∀ v ∈ s.requestWrites server, v = kInputRequestAnyValue V ∨
    ∃ id call, s.calls id = some call ∧ call.server = server ∧
      v = encodeInputRequest id call.request
  shown : (kInputRequestAnyValue V :: s.requestWrites server).getLast? =
    (kInputRequestAnyValue V :: s.published server).getLast?

end Definitions

variable {V : Type} [AnyValue V] [OacTree V] [Base64VariableCodec V] {server : String}
  {registered : String → Prop} {s t : UserInputState V}

/-- What a step does to the queues. -/
theorem RequestWrites.queueEffect (h : RequestWrites server s) {a : UserInputAction V}
    (ha : KeepsRequests server a) (hstep : UserInputStep s a t) : QueueEffect server s t := by
  cases hstep with
  | @advance id call effect hc hcall =>
    rcases call with ⟨name, request, stage⟩
    have hfound := h.found id _ hc
    have hnone : s.pushed ++ [] = s.pushed := List.append_nil _
    simp only at hcall hfound
    generalize s.userInputMtx = mtx at hcall
    cases hcall with
    | @publish _ pvServer updateVal hencode =>
      exact .push pvServer _ _ updateVal rfl rfl fun _ ↦ ⟨hfound pvServer rfl, hencode⟩
    | @withdraw _ pvServer _ updateVal hencode =>
      exact .push pvServer _ _ updateVal rfl rfl fun _ ↦ ⟨hfound pvServer rfl, hencode⟩
    | _ => exact .same rfl rfl hnone
  | addAnyValues => exact .grow _ rfl rfl ha
  | @updateAnyValue name value i updateVal =>
    exact .push i name value updateVal rfl rfl fun hname ↦ absurd hname ha
  | _ => exact .same rfl rfl rfl

omit [OacTree V] [Base64VariableCodec V] in
/-- A step that leaves the mutex, the calls and what was pushed to the variable. -/
private theorem RequestWrites.frame (h : RequestWrites server s)
    (hmtx : t.userInputMtx = s.userInputMtx) (hcalls : t.calls = s.calls)
    (hwrites : t.requestWrites server = s.requestWrites server) (hfound : CallsFound t) :
    RequestWrites server t where
  found := hfound
  written := by
    rw [hwrites, hcalls]
    exact h.written
  shown := by
    have hpublished : t.published server = s.published server := by
      rw [UserInputState.published, hmtx, hcalls]
      rfl
    rw [hwrites, hpublished]
    exact h.shown

omit [OacTree V] [Base64VariableCodec V] in
/-- What was pushed does not depend on the queues. -/
theorem RequestWrites.manager (h : RequestWrites server s) {manager : EPICSAnyValueManager V}
    (hfind : manager.findServer = s.manager.findServer) :
    RequestWrites server { s with manager := manager } :=
  h.frame rfl rfl rfl fun id call hc i hi ↦ (congrFun hfind _).trans (h.found id call hc i hi)

/-- A new call has found no server and published nothing. -/
private theorem RequestWrites.enter (h : RequestWrites server s)
    (hinv : UserInputInv registered s) {id : UInt64} {name : String}
    {request : UserInputRequest V} (hnone : s.calls id = none)
    (hfound : CallsFound { s with
      calls := Function.update s.calls id (some ⟨name, request, .queued⟩) }) :
    RequestWrites server { s with
      calls := Function.update s.calls id (some ⟨name, request, .queued⟩) } where
  found := hfound
  written v hv := by
    cases h.written v hv with
    | inl hk => exact .inl hk
    | inr hrequest =>
      obtain ⟨i, call, hcall, hrest⟩ := hrequest
      have hi : i ≠ id := by
        rintro rfl
        rw [hnone] at hcall
        cases hcall
      exact .inr ⟨i, call, by simp only [Function.update_of_ne hi, hcall], hrest⟩
  shown := by
    have hpublished : UserInputState.published { s with
        calls := Function.update s.calls id (some ⟨name, request, .queued⟩) } server =
        s.published server := by
      unfold UserInputState.published
      cases hmtx : s.userInputMtx with
      | none => rfl
      | some i =>
        have hi : i ≠ id := by
          rintro rfl
          exact (hinv.uncalled hnone).1 hmtx
        simp only [Function.update_of_ne hi]
    rw [hpublished]
    exact h.shown

omit [OacTree V] [Base64VariableCodec V] in
/-- The step of a call pushes its own request, or that there is none. -/
private theorem requestWrites_apply (h : RequestWrites server s) {id : UInt64}
    {call : InputCall V} {effect : CallEffect V} (hc : s.calls id = some call)
    (hfound : CallsFound (s.apply id call effect))
    (hwritten : ∀ v ∈ writesTo (getInputRequestPVName server) effect.pushes,
      v = kInputRequestAnyValue V ∨
        call.server = server ∧ v = encodeInputRequest id call.request)
    (hshown : (kInputRequestAnyValue V :: (s.requestWrites server ++
        writesTo (getInputRequestPVName server) effect.pushes)).getLast? =
      (kInputRequestAnyValue V :: (s.apply id call effect).published server).getLast?) :
    RequestWrites server (s.apply id call effect) where
  found := hfound
  written v hv := by
    have hpush : (s.apply id call effect).requestWrites server =
        s.requestWrites server ++ writesTo (getInputRequestPVName server) effect.pushes :=
      writesTo_append ..
    rw [hpush] at hv
    cases List.mem_append.mp hv with
    | inl hold =>
      cases h.written v hold with
      | inl hk => exact .inl hk
      | inr hrequest =>
        obtain ⟨i, c, hcall, hserver, hvalue⟩ := hrequest
        by_cases hi : i = id
        · subst hi
          obtain rfl := Option.some.inj (hc.symm.trans hcall)
          exact .inr ⟨i, _, apply_calls, hserver, hvalue⟩
        · exact .inr ⟨i, c, (Function.update_of_ne hi ..).trans hcall, hserver, hvalue⟩
    | inr hnew =>
      cases hwritten v hnew with
      | inl hk => exact .inl hk
      | inr hown => exact .inr ⟨id, _, apply_calls, hown.1, hown.2⟩
  shown := by
    have hpush : (s.apply id call effect).requestWrites server =
        s.requestWrites server ++ writesTo (getInputRequestPVName server) effect.pushes :=
      writesTo_append ..
    rw [hpush]
    exact hshown

/-- The step of a call keeps what is known about the writes. -/
private theorem RequestWrites.advance [TotalBase64VariableCodec V] (h : RequestWrites server s)
    (hinv : UserInputInv registered s) {id : UInt64} {call : InputCall V} {effect : CallEffect V}
    (hc : s.calls id = some call)
    (hstep : CallStep id call.server call.request s.manager s.userInputMtx call.stage effect) :
    RequestWrites server (s.apply id call effect) := by
  have hfound := h.found.step (.advance hc hstep)
  rcases call with ⟨name, request, stage⟩
  have hstage := (hinv.call hc).2
  have hshown := h.shown
  simp only at hstep hstage
  have hafter : ∀ {effect : CallEffect V}, effect.userInputMtx = some id →
      (s.apply id ⟨name, request, stage⟩ effect).published server =
        if name = server then InputCall.published ⟨name, request, effect.stage⟩ id else [] :=
    fun hm ↦ published_of_holder hm apply_calls
  have hbefore : s.userInputMtx = some id → s.published server =
      if name = server then InputCall.published ⟨name, request, stage⟩ id else [] :=
    fun hm ↦ published_of_holder hm hc
  have hother : name ≠ server → getInputRequestPVName name ≠ getInputRequestPVName server :=
    fun hne heq ↦ hne (getInputRequestPVName_inj heq)
  generalize hm : s.userInputMtx = mtx at hstep
  cases hstep with
  | acquire =>
    refine requestWrites_apply h hc hfound (by rintro _ ⟨⟩) ?_
    rw [hafter rfl]
    simpa [UserInputState.published, hm, InputCall.published, writesTo] using hshown
  | findInputServer | findServer | unregistered | initNewRequest | publishFailed | waitForReply =>
    refine requestWrites_apply h hc hfound (by rintro _ ⟨⟩) ?_
    rw [hafter (hm.symm.trans hstage.1)]
    rw [hbefore hstage.1] at hshown
    simpa [InputCall.published, writesTo] using hshown
  | publish hencode =>
    by_cases hn : name = server
    · refine requestWrites_apply h hc hfound ?_ ?_
      · simp [hn, writesTo]
      · rw [hafter (hm.symm.trans hstage.1)]
        simp [hn, InputCall.published, writesTo, List.getLast?_cons]
    · refine requestWrites_apply h hc hfound ?_ ?_
      · simp [hother hn, writesTo]
      · rw [hafter (hm.symm.trans hstage.1)]
        rw [hbefore hstage.1] at hshown
        simpa [hn, hother hn, writesTo] using hshown
  | withdraw hencode =>
    by_cases hn : name = server
    · refine requestWrites_apply h hc hfound ?_ ?_
      · simp [hn, writesTo]
      · rw [hafter (hm.symm.trans hstage.1)]
        simp [hn, InputCall.published, writesTo, List.getLast?_cons]
    · refine requestWrites_apply h hc hfound ?_ ?_
      · simp [hother hn, writesTo]
      · rw [hafter (hm.symm.trans hstage.1)]
        rw [hbefore hstage.1] at hshown
        simpa [hn, hother hn, writesTo] using hshown
  | withdrawFailed hencode =>
    obtain ⟨encoded, hok⟩ := base64EncodeAnyValue_ok (kInputRequestAnyValue V)
    rw [hencode] at hok
    cases hok
  | release =>
    refine requestWrites_apply h hc hfound (by rintro _ ⟨⟩) ?_
    rw [hbefore hstage.1] at hshown
    simpa [UserInputState.published, UserInputState.apply, InputCall.published, writesTo]
      using hshown

/-- Every step that keeps the requests keeps what is known about the writes. -/
theorem RequestWrites.step [TotalBase64VariableCodec V] (h : RequestWrites server s)
    (hinv : UserInputInv registered s) {a : UserInputAction V} (ha : KeepsRequests server a)
    (hstep : UserInputStep s a t) : RequestWrites server t := by
  have hfound := h.found.step hstep
  cases hstep with
  | getUserInput hid hnone => exact h.enter hinv hnone hfound
  | advance hc hcall => exact h.advance hinv hc hcall
  | @updateAnyValue name value i updateVal =>
    refine h.frame rfl rfl ?_ hfound
    unfold UserInputState.requestWrites
    rw [writesTo_append]
    simp [writesTo, show name ≠ getInputRequestPVName server from ha]
  | _ => exact h.frame rfl rfl rfl hfound

omit [Base64VariableCodec V] in
/-- Nothing is written at first. -/
theorem requestWrites_start (manager : FreshManager V) (server : String) :
    RequestWrites server (UserInputState.start manager) where
  found _ _ hc := by cases hc
  written := nofun
  shown := rfl

/-- A call whose request is out is the one that has published. -/
theorem UserInputInv.published_eq (h : UserInputInv registered s) {id : UInt64}
    {call : InputCall V} (hcall : s.calls id = some call) (hserver : call.server = server)
    (hout : call.published id ≠ []) :
    s.published server = [encodeInputRequest id call.request] := by
  have hstage := (h.call hcall).2
  rcases call with ⟨name, request, stage⟩
  cases stage with
  | waitForReply pvServer => rw [published_of_holder hstage.1 hcall, if_pos hserver]; rfl
  | withdraw pvServer result => rw [published_of_holder hstage.1 hcall, if_pos hserver]; rfl
  | _ => exact absurd rfl hout

end OacTreeServer.Epics
