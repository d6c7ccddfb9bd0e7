import OacTreeServer.Epics.ServerQueues
import OacTreeServer.Epics.UserInputInvariant

/-!
# The PVs that publish requests for user input

`GetUserInput` publishes its request behind the initiation and withdraws it on every exit
path (`epics/epics_anyvalue_manager.cpp:104`). The values pushed to a request PV are
therefore requests and withdrawals in turn, and a request is out only while its call holds
`m_user_input_mtx`. All of them are queued, in this order, at the `EPICSServer` of the PV.
-/

namespace OacTreeServer.Epics
open OacTreeServer.External OacTreeServer.Input OacTreeServer.Library OacTreeServer.Protocol

section Channels

variable {V : Type} [AnyValue V] [OacTree V] [Base64VariableCodec V]
  {manager : FreshManager V} {acts : List (UserInputAction V)} {s t : UserInputState V}
  {registered : String → Prop} {server : String}

/-- The `EPICSServer` that a call has found. -/
def InputStage.pvServer : InputStage V → Option Nat
  | .initNewRequest pvServer | .publish pvServer | .waitForReply pvServer => some pvServer
  | .withdraw pvServer _ => some pvServer
  | _ => none

/-- Every call uses the `EPICSServer` of its request PV throughout;
`epics_anyvalue_manager.cpp:98`. -/
def CallsFound (s : UserInputState V) : Prop :=
  ∀ id call, s.calls id = some call → ∀ i, call.stage.pvServer = some i →
    s.manager.findServer (getInputRequestPVName call.server) = some i

/-- What a call has published and not yet withdrawn. -/
def InputCall.published (call : InputCall V) (id : UInt64) : List V :=
  match call.stage with
  | .waitForReply _ => [encodeInputRequest id call.request]
  | .withdraw _ _ => [encodeInputRequest id call.request]
  | _ => []

/-- What is published on the request PV of a server, by the holder of the mutex. -/
def UserInputState.published (s : UserInputState V) (server : String) : List V :=
  match s.userInputMtx with
  | none => []
  | some id =>
    match s.calls id with
    | none => []
    | some call => if call.server = server then call.published id else []

/-- The values pushed to the request PV of a server. -/
def UserInputState.requestWrites (s : UserInputState V) (server : String) : List V :=
  writesTo (getInputRequestPVName server) s.pushed

/-- The values that complete requests leave on their PV. -/
def requestPairs (served : List (UInt64 × UserInputRequest V)) : List V :=
  served.flatMap fun r ↦ [encodeInputRequest r.1 r.2, kInputRequestAnyValue V]

/-- The call is on its way out. -/
def InputStage.leaving : InputStage V → Bool
  | .release _ => true
  | .done _ => true
  | _ => false

/-- Requests can be encoded, and only `GetUserInput` writes the request PVs. -/
def KeepsChannels (registered : String → Prop) : UserInputAction V → Prop
  | .getUserInput id _ request =>
    ∃ updateVal, base64EncodeAnyValue (encodeInputRequest id request) = .ok updateVal
  | .updateAnyValue name _ => ∀ server, registered server → name ≠ getInputRequestPVName server
  | _ => True

/-- The values pushed to the request PV of a server are queued at its `EPICSServer`, behind those
that were there before. -/
structure RequestsQueued (initial : List V) (s : UserInputState V) (server : String) : Prop where
  calls : CallsFound s
  found : (s.manager.findServer (getInputRequestPVName server)).isSome
  queued : ∃ queued, s.manager.queuedFor (getInputRequestPVName server) = initial ++ queued ∧
    (s.requestWrites server).map base64EncodeAnyValue = queued.map .ok

/-- The request PV of a server shows the complete requests of its calls, in turn with
their withdrawals, and then the request that is out. -/
structure ChannelInv (s : UserInputState V) (server : String) : Prop where
  encodes : ∀ {id call}, s.calls id = some call →
    ∃ updateVal, base64EncodeAnyValue (encodeInputRequest id call.request) = .ok updateVal
  writes : ∃ served, s.requestWrites server = requestPairs served ++ s.published server ∧
    (∀ r ∈ served, ∃ call, s.calls r.1 = some call ∧ call.server = server ∧
      call.request = r.2) ∧
    ∀ id call, s.calls id = some call → call.server = server → call.stage.leaving = true →
      (id, call.request) ∈ served

/-- No step takes the `EPICSServer` of a PV away. -/
theorem findServer_step {a : UserInputAction V} (h : UserInputStep s a t) {name : String}
    {i : Nat} (hfind : s.manager.findServer name = some i) :
    t.manager.findServer name = some i := by
  cases h with
  | @advance id call effect hc hcall =>
    rcases call with ⟨server, request, stage⟩
    simp only at hcall
    generalize s.userInputMtx = mtx at hcall
    cases hcall with
    | _ => exact hfind
  | addAnyValues => exact EPICSAnyValueManager.findServer_addAnyValuesImpl hfind _
  | _ => exact hfind

/-- A call keeps the `EPICSServer` that it has found. -/
theorem CallsFound.step (h : CallsFound s) {a : UserInputAction V}
    (hstep : UserInputStep s a t) : CallsFound t := by
  intro id call hcall i hi
  have hold {call : InputCall V} (hc : s.calls id = some call)
      (hi : call.stage.pvServer = some i) :
      t.manager.findServer (getInputRequestPVName call.server) = some i :=
    findServer_step hstep (h id call hc i hi)
  cases hstep with
  | @getUserInput other server request =>
    simp only [Function.update_apply] at hcall
    split at hcall
    · cases hcall
      cases hi
    · exact hold hcall hi
  | @advance other before effect hc hstep =>
    by_cases hother : id = other
    · subst hother
      rw [apply_calls] at hcall
      cases hcall
      rcases before with ⟨server, request, stage⟩
      simp only at hstep hi
      generalize s.userInputMtx = mtx at hstep
      cases hstep with
      | findServer hpv =>
        cases hi
        exact hpv
      | initNewRequest | publish | waitForReply => exact (hold hc hi :)
      | _ => cases hi
    · exact hold ((Function.update_of_ne hother ..).symm.trans hcall) hi
  | _ => exact hold hcall hi

/-- A step that keeps the channels queues what it pushes to a registered PV. -/
theorem RequestsQueued.step {initial : List V} (h : RequestsQueued initial s server)
    (hr : registered server) {a : UserInputAction V} (ha : KeepsChannels registered a)
    (hstep : UserInputStep s a t) : RequestsQueued initial t server := by
  obtain ⟨i, hi⟩ := Option.isSome_iff_exists.mp h.found
  obtain ⟨queued, hqueued, hwrites⟩ := h.queued
  -- the PV gets nothing
  have hsame (hrequests : t.requestWrites server = s.requestWrites server)
      (hqueue : t.manager.queuedFor (getInputRequestPVName server) =
        s.manager.queuedFor (getInputRequestPVName server)) : RequestsQueued initial t server := by
    refine ⟨h.calls.step hstep, Option.isSome_of_eq_some (findServer_step hstep hi), queued, ?_⟩
    rw [hrequests, hqueue]
    exact ⟨hqueued, hwrites⟩
  -- a call pushes a value to the PV of its server
  have hpush {id : UInt64} {call : InputCall V} {effect : CallEffect V} {pvServer : Nat}
      {value encoded : V} (hc : s.calls id = some call) (hpv : call.stage.pvServer = some pvServer)
      (hencode : base64EncodeAnyValue value = .ok encoded)
      (ht : t = s.apply id call effect)
      (hmanager : effect.manager =
        s.manager.pushUpdate pvServer (getInputRequestPVName call.server) encoded)
      (hpushes : effect.pushes = [(getInputRequestPVName call.server, value)]) :
      RequestsQueued initial t server := by
    have hrequests : t.requestWrites server = s.requestWrites server ++
        writesTo (getInputRequestPVName server) effect.pushes := by
      rw [ht]
      exact writesTo_append ..
    have hqueue : t.manager.queuedFor (getInputRequestPVName server) =
        (s.manager.pushUpdate pvServer (getInputRequestPVName call.server)
          encoded).queuedFor (getInputRequestPVName server) := by
      rw [ht, ← hmanager]
      rfl
    rw [hpushes, writesTo_cons] at hrequests
    by_cases hserver : call.server = server
    · have hfound := h.calls id call hc pvServer hpv
      rw [hserver] at hfound hrequests hqueue
      refine ⟨h.calls.step hstep, Option.isSome_of_eq_some (findServer_step hstep hi),
        queued ++ [encoded], ?_, ?_⟩
      · rw [hqueue, EPICSAnyValueManager.queuedFor_pushUpdate_self hfound, hqueued,
          List.append_assoc]
      · rw [hrequests, if_pos rfl, List.map_append, List.map_append, hwrites]
        simp [writesTo, hencode]
    · have hne : getInputRequestPVName call.server ≠ getInputRequestPVName server :=
        fun heq ↦ hserver (getInputRequestPVName_inj heq)
      refine hsame ?_ ?_
      · rw [hrequests, if_neg hne]
        exact List.append_nil _
      · rw [hqueue, EPICSAnyValueManager.queuedFor_pushUpdate_of_ne hne]
  cases hstep with
  | @advance id call effect hc hcall =>
    rcases call with ⟨name, request, stage⟩
    simp only at hcall
    generalize hm : s.userInputMtx = mtx at hcall
    cases hcall with
    | publish hencode => exact hpush hc rfl hencode rfl rfl rfl
    | withdraw hencode => exact hpush hc rfl hencode rfl rfl rfl
    | _ => exact hsame (congrArg (writesTo _) (List.append_nil _)) rfl
  | addAnyValues =>
    exact hsame rfl (EPICSAnyValueManager.queuedFor_of_grows (.addAnyValuesImpl _ _) h.found)
  | @updateAnyValue name value j updateVal =>
    have hne : name ≠ getInputRequestPVName server := ha server hr
    refine hsame ?_ (EPICSAnyValueManager.queuedFor_pushUpdate_of_ne hne j updateVal)
    unfold UserInputState.requestWrites
    rw [writesTo_append]
    simp [writesTo, hne]
  | _ => exact hsame rfl rfl

omit [OacTree V] [Base64VariableCodec V] in
/-- The holder of the mutex is the one that has published. -/
theorem published_of_holder {id : UInt64} {call : InputCall V} (hm : s.userInputMtx = some id)
    (hc : s.calls id = some call) :
    s.published server = if call.server = server then call.published id else [] := by
  simp [UserInputState.published, hm, hc]

omit [OacTree V] in
/-- A step that leaves the mutex, the calls and the PV alone. -/
theorem ChannelInv.frame (h : ChannelInv s server) (hm : t.userInputMtx = s.userInputMtx)
    (hc : t.calls = s.calls) (hw : t.requestWrites server = s.requestWrites server) :
    ChannelInv t server where
  encodes {id call} hcall := h.encodes (by rwa [← hc])
  writes := by
    have hp : t.published server = s.published server := by
      rw [UserInputState.published, hm, hc]
      rfl
    rw [hw, hp, hc]
    exact h.writes

/-- A new call has published nothing. -/
theorem ChannelInv.enter (h : ChannelInv s server) (hinv : UserInputInv registered s)
    {id : UInt64} {name : String} {request : UserInputRequest V} (hnone : s.calls id = none)
    (he : ∃ updateVal, base64EncodeAnyValue (encodeInputRequest id request) = .ok updateVal) :
    ChannelInv { s with
      calls := Function.update s.calls id (some ⟨name, request, .queued⟩) } server where
  encodes {i call} hcall := by
    by_cases hi : i = id
    · subst hi
      simp only [Function.update_self] at hcall
      cases hcall
      exact he
    · simp only [Function.update_of_ne hi] at hcall
      exact h.encodes hcall
  writes := by
    obtain ⟨served, hw, hserved, hleaving⟩ := h.writes
    have hold : ∀ i, s.userInputMtx = some i → i ≠ id := by
      rintro i hm rfl
      exact (hinv.uncalled hnone).1 hm
    refine ⟨served, ?_, ?_, ?_⟩
    · have hp : UserInputState.published { s with
          calls := Function.update s.calls id (some ⟨name, request, .queued⟩) } server =
          s.published server := by
        unfold UserInputState.published
        cases hm : s.userInputMtx with
        | none => rfl
        | some i => simp only [Function.update_of_ne (hold i hm)]
      rw [hp]
      exact hw
    · intro r hr
      obtain ⟨call, hcall, hrest⟩ := hserved r hr
      have hi : r.1 ≠ id := by
        intro hi
        rw [hi, hnone] at hcall
        cases hcall
      exact ⟨call, by simp only [Function.update_of_ne hi, hcall], hrest⟩
    · intro i call hcall
      by_cases hi : i = id
      · subst hi
        simp only [Function.update_self] at hcall
        cases hcall
        intro _ hl
        cases hl
      · simp only [Function.update_of_ne hi] at hcall
        exact hleaving i call hcall

omit [OacTree V] in
/-- The step of a call completes the requests in `added`, at most its own. -/
private theorem channelInv_apply (h : ChannelInv s server) {id : UInt64} {call : InputCall V}
    {effect : CallEffect V} (hc : s.calls id = some call)
    (added : List (UInt64 × UserInputRequest V))
    (hw : s.published server ++ writesTo (getInputRequestPVName server) effect.pushes =
      requestPairs added ++ (s.apply id call effect).published server)
    (hadded : ∀ r ∈ added, r = (id, call.request) ∧ call.server = server)
    (hleave : call.server = server → effect.stage.leaving = true →
      call.stage.leaving = true ∨ (id, call.request) ∈ added) :
    ChannelInv (s.apply id call effect) server where
  encodes {i c} hcall := by
    by_cases hi : i = id
    · subst hi
      rw [apply_calls] at hcall
      cases hcall
      have henc := h.encodes hc
      exact henc
    · exact h.encodes ((Function.update_of_ne hi ..).symm.trans hcall)
  writes := by
    obtain ⟨served, hserved, hfrom, hleaving⟩ := h.writes
    refine ⟨served ++ added, ?_, ?_, ?_⟩
    · have hpush : (s.apply id call effect).requestWrites server =
          s.requestWrites server ++ writesTo (getInputRequestPVName server) effect.pushes :=
        writesTo_append ..
      rw [hpush, hserved, List.append_assoc, hw, requestPairs, requestPairs, requestPairs,
        List.flatMap_append, List.append_assoc]
    · intro r hr
      by_cases hi : r.1 = id
      · refine ⟨_, by rw [hi]; exact apply_calls, ?_⟩
        rcases List.mem_append.mp hr with hr | hr
        · obtain ⟨c, hcall, hrest⟩ := hfrom r hr
          rw [hi, hc] at hcall
          cases hcall
          exact hrest
        · obtain ⟨rfl, hs⟩ := hadded r hr
          exact ⟨hs, rfl⟩
      · rcases List.mem_append.mp hr with hr | hr
        · obtain ⟨c, hcall, hrest⟩ := hfrom r hr
          exact ⟨c, (Function.update_of_ne hi ..).trans hcall, hrest⟩
        · exact absurd (congrArg Prod.fst (hadded r hr).1) hi
    · intro i c hcall hs hl
      by_cases hi : i = id
      · subst hi
        rw [apply_calls] at hcall
        cases hcall
        rcases hleave hs hl with hl | ha
        · exact List.mem_append_left _ (hleaving i call hc hs hl)
        · exact List.mem_append_right _ ha
      · have hcall : s.calls i = some c := (Function.update_of_ne hi ..).symm.trans hcall
        exact List.mem_append_left _ (hleaving i c hcall hs hl)

/-- The step of a call keeps its channel in order. -/
theorem ChannelInv.advance (h : ChannelInv s server) (hinv : UserInputInv registered s)
    (hr : registered server)
    (hk : ∃ updateVal, base64EncodeAnyValue (kInputRequestAnyValue V) = .ok updateVal)
    {id : UInt64} {call : InputCall V} {effect : CallEffect V} (hc : s.calls id = some call)
    (hstep : CallStep id call.server call.request s.manager s.userInputMtx call.stage effect) :
    ChannelInv (s.apply id call effect) server := by
  obtain ⟨name, request, stage⟩ := call
  have hstage := (hinv.call hc).2
  have henc := h.encodes hc
  simp only at hstep hstage henc
  have hafter : ∀ {effect : CallEffect V}, effect.userInputMtx = some id →
      (s.apply id ⟨name, request, stage⟩ effect).published server =
        if name = server then InputCall.published ⟨name, request, effect.stage⟩ id else [] :=
    fun hm ↦ published_of_holder hm apply_calls
  have hbefore : s.userInputMtx = some id → s.published server =
      if name = server then InputCall.published ⟨name, request, stage⟩ id else [] :=
    fun hm ↦ published_of_holder hm hc
  generalize hm : s.userInputMtx = mtx at hstep
  cases hstep with
  | acquire =>
    refine channelInv_apply h hc [] ?_ (by simp) (by simp [InputStage.leaving])
    rw [hafter rfl]
    simp [UserInputState.published, hm, requestPairs, InputCall.published, writesTo]
  | findInputServer =>
    refine channelInv_apply h hc [] ?_ (by simp) (by simp [InputStage.leaving])
    rw [hbefore hstage.1, hafter (hm.symm.trans hstage.1)]
    simp [requestPairs, InputCall.published, writesTo]
  | findServer hpv =>
    refine channelInv_apply h hc [] ?_ (by simp) (by simp [InputStage.leaving])
    rw [hbefore hstage.1, hafter (hm.symm.trans hstage.1)]
    simp [requestPairs, InputCall.published, writesTo]
  | unregistered hpv =>
    refine channelInv_apply h hc [] ?_ (by simp) ?_
    · rw [hbefore hstage.1, hafter (hm.symm.trans hstage.1)]
      simp [requestPairs, InputCall.published, writesTo]
    · -- both servers of a registered name are found
      rintro rfl -
      have hsome := (hinv.servers _ hr).2
      rw [hpv (hstage.2.2.2 hr)] at hsome
      cases hsome
  | initNewRequest hs =>
    refine channelInv_apply h hc [] ?_ (by simp) (by simp [InputStage.leaving])
    rw [hbefore hstage.1, hafter (hm.symm.trans hstage.1)]
    simp [requestPairs, InputCall.published, writesTo]
  | publish he =>
    refine channelInv_apply h hc [] ?_ (by simp) (by simp [InputStage.leaving])
    rw [hbefore hstage.1, hafter (hm.symm.trans hstage.1)]
    by_cases hn : name = server
    · simp [hn, requestPairs, InputCall.published, writesTo]
    · have hne : getInputRequestPVName name ≠ getInputRequestPVName server :=
        fun heq ↦ hn (getInputRequestPVName_inj heq)
      simp [hn, hne, requestPairs, writesTo]
  | publishFailed he =>
    obtain ⟨updateVal, hok⟩ := henc
    rw [he] at hok
    cases hok
  | waitForReply hs hw =>
    refine channelInv_apply h hc [] ?_ (by simp) (by simp [InputStage.leaving])
    rw [hbefore hstage.1, hafter (hm.symm.trans hstage.1)]
    simp [requestPairs, InputCall.published, writesTo]
  | withdraw he =>
    by_cases hn : name = server
    · refine channelInv_apply h hc [(id, request)] ?_ (by simp [hn]) (by simp)
      rw [hbefore hstage.1, hafter (hm.symm.trans hstage.1)]
      simp [hn, requestPairs, InputCall.published, writesTo]
    · refine channelInv_apply h hc [] ?_ (by simp) (fun hs ↦ absurd hs hn)
      have hne : getInputRequestPVName name ≠ getInputRequestPVName server :=
        fun heq ↦ hn (getInputRequestPVName_inj heq)
      rw [hbefore hstage.1, hafter (hm.symm.trans hstage.1)]
      simp [hn, hne, requestPairs, writesTo]
  | withdrawFailed he =>
    obtain ⟨updateVal, hok⟩ := hk
    rw [he] at hok
    cases hok
  | release =>
    refine channelInv_apply h hc [] ?_ (by simp) (by simp [InputStage.leaving])
    rw [hbefore hstage.1]
    simp [UserInputState.published, UserInputState.apply, requestPairs, InputCall.published,
      writesTo]

/-- Every step that keeps the channels keeps a registered channel in order. -/
theorem ChannelInv.step (h : ChannelInv s server) (hinv : UserInputInv registered s)
    (hr : registered server)
    (hk : ∃ updateVal, base64EncodeAnyValue (kInputRequestAnyValue V) = .ok updateVal)
    {a : UserInputAction V} (ha : KeepsChannels registered a) (hstep : UserInputStep s a t) :
    ChannelInv t server := by
  cases hstep with
  | getUserInput hid hnone => exact h.enter hinv hnone ha
  | advance hc hcall => exact h.advance hinv hr hk hc hcall
  | @updateAnyValue name value i updateVal =>
    refine h.frame rfl rfl ?_
    have hne := ha server hr
    unfold UserInputState.requestWrites
    rw [writesTo_append]
    simp [writesTo, hne]
  | _ => exact h.frame rfl rfl rfl

/-- The invariants of a run that keeps the channels. -/
theorem channelInv_run [LawfulOacTree V]
    (hk : ∃ updateVal, base64EncodeAnyValue (kInputRequestAnyValue V) = .ok updateVal)
    (ha : ∀ a ∈ acts, KeepsChannels (Registered manager.val) a)
    (h : userInputMachine.run (.start manager) acts = some s)
    (hr : Registered manager.val server) : ChannelInv s server := by
  have hstep : ∀ {s : UserInputState V} {a t},
      UserInputInv (Registered manager.val) s ∧ ChannelInv s server →
      KeepsChannels (Registered manager.val) a → userInputMachine.step s a = some t →
      UserInputInv (Registered manager.val) t ∧ ChannelInv t server := by
    intro s a t hs ha ht
    have ht := userInputStep_of_step ht
    exact ⟨hs.1.step ht, hs.2.step hs.1 hr hk ha ht⟩
  have hstart : ChannelInv (UserInputState.start manager) server :=
    ⟨nofun, [], rfl, nofun, nofun⟩
  exact (Machine.run_invariant_of_everyStep hstep ⟨userInputInv_start manager, hstart⟩
    (Machine.everyStep_of_forall_mem _ ha) h).2

/-- In every run that keeps the channels, all that is pushed to a registered PV is queued. -/
theorem requestsQueued_run (ha : ∀ a ∈ acts, KeepsChannels (Registered manager.val) a)
    (h : userInputMachine.run (.start manager) acts = some s)
    (hr : Registered manager.val server) :
    RequestsQueued (manager.val.queuedFor (getInputRequestPVName server)) s server := by
  have hstart : RequestsQueued (manager.val.queuedFor (getInputRequestPVName server))
      (UserInputState.start manager) server := by
    refine ⟨fun id call hc ↦ ?_, hr.2, [], (List.append_nil _).symm, rfl⟩
    cases hc
  have hstep : ∀ {s : UserInputState V} {a t},
      RequestsQueued (manager.val.queuedFor (getInputRequestPVName server)) s server →
      KeepsChannels (Registered manager.val) a → userInputMachine.step s a = some t →
      RequestsQueued (manager.val.queuedFor (getInputRequestPVName server)) t server :=
    fun hs ha ht ↦ hs.step hr ha (userInputStep_of_step ht)
  exact Machine.run_invariant_of_everyStep hstep hstart (Machine.everyStep_of_forall_mem _ ha) h

omit [OacTree V] [Base64VariableCodec V] in
/-- Behind complete requests the PV shows that there is no request. -/
theorem getLast?_requestPairs (served : List (UInt64 × UserInputRequest V)) :
    (requestPairs served).getLast? =
      if served = [] then none else some (kInputRequestAnyValue V) := by
  rcases List.eq_nil_or_concat served with rfl | ⟨l, r, rfl⟩
  · rfl
  · simp [requestPairs]

omit [OacTree V] in
/-- The last value of a request PV, from the complete requests and the one that is out. -/
theorem ChannelInv.lastWrite_cases (h : ChannelInv s server) :
    (s.published server = [] →
      lastWrite (getInputRequestPVName server) s.pushed = none ∨
      lastWrite (getInputRequestPVName server) s.pushed = some (kInputRequestAnyValue V)) ∧
    (∀ v, s.published server = [v] →
      lastWrite (getInputRequestPVName server) s.pushed = some v) := by
  obtain ⟨served, hw, -, -⟩ := h.writes
  have hlast : lastWrite (getInputRequestPVName server) s.pushed =
      (requestPairs served ++ s.published server).getLast? := congrArg List.getLast? hw
  constructor
  · intro hp
    rw [hlast, hp, List.append_nil, getLast?_requestPairs]
    split
    · exact .inl rfl
    · exact .inr rfl
  · intro v hp
    rw [hlast, hp, List.getLast?_concat]

omit [OacTree V] [Base64VariableCodec V] in
/-- What is out is the request of the call that holds the mutex. -/
theorem published_cases (s : UserInputState V) (server : String) :
    s.published server = [] ∨ ∃ id call, s.userInputMtx = some id ∧ s.calls id = some call ∧
      call.server = server ∧ call.published id ≠ [] ∧
      s.published server = [encodeInputRequest id call.request] := by
  unfold UserInputState.published
  cases s.userInputMtx with
  | none => exact .inl rfl
  | some id =>
    cases hc : s.calls id with
    | none => exact .inl (by simp [hc])
    | some call =>
      by_cases hs : call.server = server
      · have hp : call.published id = [] ∨
            call.published id = [encodeInputRequest id call.request] := by
          unfold InputCall.published
          split
          · exact .inr rfl
          · exact .inr rfl
          · exact .inl rfl
        rcases hp with hp | hp
        · exact .inl (by simp [hc, hs, hp])
        · exact .inr ⟨id, call, rfl, hc, hs, by simp [hp], by simp [hc, hs, hp]⟩
      · exact .inl (by simp [hc, hs])

/-- A call whose request is out is the current one of its server. -/
theorem UserInputInv.armed_of_published (h : UserInputInv registered s) {id : UInt64}
    {call : InputCall V} (hc : s.calls id = some call) (hp : call.published id ≠ []) :
    id ≠ 0 ∧ Armed s.manager call.server id ∧ call.stage.leaving = false := by
  obtain ⟨hid, hinv⟩ := h.call hc
  obtain ⟨name, request, stage⟩ := call
  cases stage with
  | waitForReply pvServer => exact ⟨hid, hinv.2.1, rfl⟩
  | withdraw pvServer result => exact ⟨hid, hinv.2.1, rfl⟩
  | _ => exact absurd rfl hp

omit [OacTree V] in
/-- A PV that shows a request shows the one of the holder of the mutex. -/
theorem ChannelInv.holder_of_lastWrite [LawfulAnyValue V] (h : ChannelInv s server) {id : UInt64}
    {request : UserInputRequest V} (hid : id ≠ 0)
    (hw : lastWrite (getInputRequestPVName server) s.pushed =
      some (encodeInputRequest id request)) :
    ∃ call, s.userInputMtx = some id ∧ s.calls id = some call ∧ call.server = server ∧
      call.published id ≠ [] := by
  rcases published_cases s server with hp | ⟨holder, call, hm, hc, hs, hne, hp⟩
  · rcases h.lastWrite_cases.1 hp with hnone | hk
    · rw [hnone] at hw
      cases hw
    · rw [hk] at hw
      exact absurd (Option.some.inj hw).symm (encodeInputRequest_ne_kInputRequestAnyValue hid _)
  · rw [h.lastWrite_cases.2 _ hp] at hw
    obtain rfl := encodeInputRequest_id_inj (Option.some.inj hw)
    exact ⟨call, hm, hc, hs, hne⟩

/-- The current request of a server refuses a valid reply only when it has one. -/
theorem UserInputInv.accepted_of_refused (h : UserInputInv registered s)
    {inputServer : InputRequestServer V} {reply : UserInputReply V}
    (hs : s.manager.findInputServer server = some inputServer)
    (hid : inputServer.requestId ≠ 0) (hv : isValid reply = true)
    (hrefused : (inputServer.setClientReply inputServer.requestId reply).1 = false) :
    ∃ r, .setClientReply server inputServer.requestId r true ∈ s.history := by
  have hfull : isValid inputServer.reply = true := by
    by_contra hempty
    have := InputRequestServer.setClientReply_fst.mpr
      ⟨hid, hv, rfl, Bool.eq_false_iff.mpr hempty⟩
    rw [hrefused] at this
    cases this
  exact ⟨inputServer.reply, ((h.requests.server hs).reply hfull).2.snd_mem⟩

/-- The discipline of the request PVs of registered servers: the values pushed to each of
them are what the update queue of its `EPICSServer` has received, and they are requests of
calls and withdrawals in turn; at most one of them shows a request; a
server whose PV shows a request has it as its current one, and refuses a valid reply to it
only when another one was accepted; and when a call has returned its PV shows that there is
no request, until another call publishes one. -/
theorem request_channels_disciplined [LawfulAnyValue V] [LawfulOacTree V]
    (hk : ∃ updateVal, base64EncodeAnyValue (kInputRequestAnyValue V) = .ok updateVal)
    (ha : ∀ a ∈ acts, KeepsChannels (Registered manager.val) a)
    (h : userInputMachine.run (.start manager) acts = some s) :
    (∀ server, Registered manager.val server → ∃ queued,
      s.manager.queuedFor (getInputRequestPVName server) =
        manager.val.queuedFor (getInputRequestPVName server) ++ queued ∧
      (s.requestWrites server).map base64EncodeAnyValue = queued.map .ok) ∧
    (∀ server, Registered manager.val server → ∃ served pending,
      s.requestWrites server = requestPairs served ++ pending ∧
      (∀ r ∈ served, ∃ call, s.calls r.1 = some call ∧ call.server = server ∧
        call.request = r.2) ∧
      (pending = [] ∨ ∃ id call, s.calls id = some call ∧ call.server = server ∧
        pending = [encodeInputRequest id call.request])) ∧
    (∀ server other id i request r, Registered manager.val server →
      Registered manager.val other → id ≠ 0 → i ≠ 0 →
      lastWrite (getInputRequestPVName server) s.pushed = some (encodeInputRequest id request) →
      lastWrite (getInputRequestPVName other) s.pushed = some (encodeInputRequest i r) →
      server = other) ∧
    (∀ server id request, Registered manager.val server → id ≠ 0 →
      lastWrite (getInputRequestPVName server) s.pushed = some (encodeInputRequest id request) →
      ∃ inputServer, s.manager.findInputServer server = some inputServer ∧
        inputServer.requestId = id ∧
        ∀ reply, isValid reply = true → (inputServer.setClientReply id reply).1 = false →
          ∃ r, .setClientReply server id r true ∈ s.history) ∧
    (∀ id call outcome, s.calls id = some call → Registered manager.val call.server →
      call.stage = .done outcome →
      lastWrite (getInputRequestPVName call.server) s.pushed = some (kInputRequestAnyValue V) ∨
      ∃ other next, other ≠ id ∧ s.userInputMtx = some other ∧ s.calls other = some next ∧
        next.server = call.server ∧
        lastWrite (getInputRequestPVName call.server) s.pushed =
          some (encodeInputRequest other next.request)) := by
  have hinv := userInputInv_run h
  have hchannel := fun server (hr : Registered manager.val server) ↦ channelInv_run hk ha h hr
  refine ⟨fun server hr ↦ (requestsQueued_run ha h hr).queued, ?_, ?_, ?_, ?_⟩
  · intro server hr
    obtain ⟨served, hw, hserved, -⟩ := (hchannel server hr).writes
    refine ⟨served, s.published server, hw, hserved, ?_⟩
    rcases published_cases s server with hp | ⟨id, call, -, hc, hs, -, hp⟩
    · exact .inl hp
    · exact .inr ⟨id, call, hc, hs, hp⟩
  · intro server other id i request r hr hother hid hi hw hv
    obtain ⟨call, hm, hc, rfl, -⟩ := (hchannel server hr).holder_of_lastWrite hid hw
    obtain ⟨next, hm', hc', rfl, -⟩ := (hchannel other hother).holder_of_lastWrite hi hv
    obtain rfl := Option.some.inj (hm.symm.trans hm')
    obtain rfl := Option.some.inj (hc.symm.trans hc')
    rfl
  · intro server id request hr hid hw
    obtain ⟨call, hm, hc, rfl, hp⟩ := (hchannel server hr).holder_of_lastWrite hid hw
    obtain ⟨-, ⟨inputServer, hs, rfl⟩, -⟩ := hinv.armed_of_published hc hp
    exact ⟨inputServer, hs, rfl, fun reply hv ↦ hinv.accepted_of_refused hs hid hv⟩
  · intro id call outcome hc hr hdone
    have hch := hchannel call.server hr
    rcases published_cases s call.server with hp | ⟨other, next, hm, hn, hs, -, hp⟩
    · left
      obtain ⟨served, hw, -, hleaving⟩ := hch.writes
      have hmem := hleaving id call hc rfl (by rw [hdone]; rfl)
      have hne : served ≠ [] := List.ne_nil_of_mem hmem
      have hlast : lastWrite (getInputRequestPVName call.server) s.pushed =
          (requestPairs served ++ s.published call.server).getLast? := congrArg List.getLast? hw
      rw [hlast, hp, List.append_nil, getLast?_requestPairs, if_neg hne]
    · right
      have hfree := (hinv.call hc).2
      rw [hdone] at hfree
      have hne : other ≠ id := by
        rintro rfl
        exact hfree.1 hm
      exact ⟨other, next, hne, hm, hn, hs, hch.lastWrite_cases.2 _ hp⟩

end Channels

/-- While the first of two calls on one server waits, its request is what its PV has received,
and its server has it as the current request. -/
theorem request_channels_disciplined_two_calls :
    ∃ s, userInputMachine.run (.start TwoCalls.manager) (TwoCalls.acts.take 9) = some s ∧
      (∃ encoded, s.manager.queuedFor "S-REQ" = [encoded] ∧
        base64EncodeAnyValue (encodeInputRequest 1 TwoCalls.request) = .ok encoded) ∧
      lastWrite "S-REQ" s.pushed = some (encodeInputRequest 1 TwoCalls.request) ∧
      ∃ inputServer, s.manager.findInputServer "S" = some inputServer ∧
        inputServer.requestId = 1 := by
  obtain ⟨s, hs⟩ : ∃ s, userInputMachine.run (.start TwoCalls.manager) (TwoCalls.acts.take 9) =
      some s := Option.isSome_iff_exists.mp (by rfl)
  have hw : lastWrite "S-REQ" s.pushed = some (encodeInputRequest 1 TwoCalls.request) :=
    userInputMachine.observe_run (fun s ↦ lastWrite "S-REQ" s.pushed) hs (by rfl)
  have hwrites : s.requestWrites "S" = [encodeInputRequest 1 TwoCalls.request] :=
    userInputMachine.observe_run (fun s ↦ s.requestWrites "S") hs (by rfl)
  have ha : ∀ a ∈ TwoCalls.acts.take 9, KeepsChannels (Registered TwoCalls.manager.val) a := by
    simp [TwoCalls.acts, KeepsChannels, base64EncodeAnyValue, Base64VariableCodec.encode]
  have hk : ∃ updateVal, base64EncodeAnyValue (kInputRequestAnyValue DtoValue) = .ok updateVal :=
    ⟨_, rfl⟩
  have hregistered : Registered TwoCalls.manager.val "S" := ⟨by rfl, by rfl⟩
  obtain ⟨hqueue, -, -, harmed, -⟩ := request_channels_disciplined hk ha hs
  obtain ⟨queued, hqueued, hencoded⟩ := hqueue "S" hregistered
  rw [hwrites] at hencoded
  obtain ⟨encoded, rfl, hencode⟩ := List.map_eq_singleton_iff.mp hencoded.symm
  obtain ⟨inputServer, hfind, hid, -⟩ := harmed "S" 1 TwoCalls.request hregistered (by decide) hw
  exact ⟨s, hs, ⟨encoded, hqueued, hencode.symm⟩, hw, inputServer, hfind, hid⟩

end OacTreeServer.Epics
