import OacTreeServer.Epics.InputHandlers

/-!
# The way of replies with several input handlers

All callbacks of `EPICSIOClientImpl` share the input client and the delegator of the handler that
was added last (`epics/epics_io_client.cpp:114`). Replies go back to the input server that asked as
long as nothing is to be sent or to be queued for an older one when they are replaced.
-/

namespace OacTreeServer.Epics
open OacTreeServer.Client OacTreeServer.External OacTreeServer.Input OacTreeServer.Library
open OacTreeServer.Protocol

variable {V : Type}

namespace BoundDelegator

/-- The delegator is consistent, and it has been given replies of its own input server only. -/
structure Good (d : BoundDelegator V) : Prop where
  consistent : d.state.Consistent
  length_origins : d.origins.length = (queuedReplies d.state.history).length
  origins_eq : ∀ name ∈ d.origins, name = d.inputServerName

/-- A delegator has been given no replies at first. -/
theorem good_new (name : String) : (new name : BoundDelegator V).Good where
  consistent := DelegatorState.consistent_new
  length_origins := rfl
  origins_eq := nofun

/-- Replies that were queued are to requests of the input server of the delegator. -/
theorem Good.origin_eq {d : BoundDelegator V} (hd : d.Good) {info : ReplyInfo V}
    (hinfo : info ∈ queuedReplies d.state.history) : d.origin info = some d.inputServerName := by
  have hlt : info.number < d.origins.length := by
    rw [hd.length_origins]
    exact hd.consistent.numbers info hinfo
  rw [origin, List.getElem?_eq_getElem hlt, hd.origins_eq _ (List.getElem_mem hlt)]

/-- The reply that is popped is one of them. -/
theorem Good.origin_of_unrecorded {d : BoundDelegator V} (hd : d.Good) {info : ReplyInfo V}
    (hinfo : d.state.worker.unrecorded = some info) : d.origin info = some d.inputServerName :=
  hd.origin_eq (hd.consistent.delivery.taken_sublist.subset
    (hd.consistent.unrecorded_mem info hinfo))

/-- A step that queues nothing keeps a delegator good. -/
theorem Good.step {d moved : BoundDelegator V} {a : DelegatorAction V} (hd : d.Good)
    (ha : ∀ id reply, a ≠ .queueReply id reply) (h : d.step a = some moved) : moved.Good := by
  obtain ⟨state, hstep, rfl⟩ := Option.map_eq_some_iff.mp h
  refine ⟨hd.consistent.step hstep, ?_, hd.origins_eq⟩
  change d.origins.length = (queuedReplies state.history).length
  rw [queuedReplies_of_step ha hstep]
  exact hd.length_origins

/-- A reply to a request of its own input server keeps a delegator good. -/
theorem Good.queueReply {d queued : BoundDelegator V} (hd : d.Good) {name : String}
    (hname : name = d.inputServerName) {id : UInt64} {reply : UserInputReply V}
    (h : d.queueReply name id reply = some queued) : queued.Good := by
  obtain ⟨state, hstep, rfl⟩ := Option.map_eq_some_iff.mp h
  change delegatorMachine.step d.state (.queueReply id reply) = some state at hstep
  obtain ⟨info, -, hqueued⟩ := queuedReplies_of_queueReply hstep
  refine ⟨hd.consistent.step hstep, ?_, ?_⟩
  · change (d.origins ++ [name]).length = (queuedReplies state.history).length
    rw [hqueued, List.length_append, List.length_append, hd.length_origins]
    rfl
  · intro other hother
    cases List.mem_append.mp hother with
    | inl hold => exact hd.origins_eq other hold
    | inr hnew => exact (List.mem_singleton.mp hnew).trans hname

/-- No step changes the input server of a delegator. -/
theorem inputServerName_step {d moved : BoundDelegator V} {a : DelegatorAction V}
    (h : d.step a = some moved) : moved.inputServerName = d.inputServerName := by
  obtain ⟨state, -, rfl⟩ := Option.map_eq_some_iff.mp h
  rfl

/-- Nor does a reply that is queued. -/
theorem inputServerName_queueReply {d queued : BoundDelegator V} {name : String} {id : UInt64}
    {reply : UserInputReply V} (h : d.queueReply name id reply = some queued) :
    queued.inputServerName = d.inputServerName := by
  obtain ⟨state, -, rfl⟩ := Option.map_eq_some_iff.mp h
  rfl

/-- A delegator stays quiet when nothing is queued. -/
theorem Quiet.step {d moved : BoundDelegator V} {a : DelegatorAction V} (hd : d.Quiet)
    (ha : ∀ id reply, a ≠ .queueReply id reply) (h : d.step a = some moved) : moved.Quiet := by
  rcases d with ⟨name, state, origins⟩
  obtain ⟨hqueue, hunsent, hsending⟩ := hd
  obtain ⟨state, hstep, rfl⟩ := Option.map_eq_some_iff.mp h
  dsimp only [sending] at hqueue hunsent hsending
  cases delegatorStep_of_step hstep with
  | queueReply => exact absurd rfl (ha _ _)
  | interruptActive | interruptNone => exact ⟨rfl, hunsent, hsending⟩
  | interruptDone | halt => exact ⟨hqueue, hunsent, hsending⟩
  | wake | noReply | record | exit | again => exact ⟨hqueue, rfl, rfl⟩
  | pop _ hpop =>
    rw [hqueue] at hpop
    cases hpop
  | startReply hworker =>
    rw [hworker] at hunsent
    cases hunsent
  | endReply hworker =>
    rw [hworker] at hsending
    cases hsending

/-- The worker passes a reply to the client of its input server, unless that is destroyed and
the delegator is not quiet. -/
theorem Good.proper_sendEvents {d : BoundDelegator V} (hd : d.Good) {inputClient : Option String}
    (hclient : inputClient = some d.inputServerName ∨ d.Quiet) :
    ∀ e ∈ d.sendEvents inputClient, e.Proper := by
  intro e he
  unfold sendEvents at he
  split at he
  · next info hworker =>
    rw [List.mem_singleton] at he
    subst he
    refine ⟨d.inputServerName, ?_, hd.origin_of_unrecorded ?_⟩
    · cases hclient with
      | inl hclient => simp [hclient, Option.filter]
      | inr hquiet =>
        have hunsent := hquiet.2.1
        rw [hworker] at hunsent
        cases hunsent
    · rw [hworker]
      rfl
  · cases he

/-- A cancel concerns the replies of one input server, if that is the one of the delegator or
there are none. -/
theorem Good.proper_cancelEvent {d : BoundDelegator V} (hd : d.Good) {name : String}
    (hname : name = d.inputServerName ∨ (d.state.replyQueue = [] ∧ d.state.activeId = 0)) :
    (d.cancelEvent name).Proper := by
  cases hname with
  | inl hname =>
    rw [hname]
    constructor
    · intro origin horigin
      obtain ⟨info, hinfo, rfl⟩ := List.mem_map.mp horigin
      exact hd.origin_eq (hd.consistent.delivery.waiting_subset hinfo)
    · intro p hp
      split at hp
      · next hactive =>
        -- an active id is the one of a reply that is popped and not recorded
        rw [hd.consistent.activeId_eq] at hactive
        cases hunrecorded : d.state.worker.unrecorded with
        | none =>
          rw [hunrecorded] at hactive
          exact absurd rfl hactive
        | some info =>
          rw [hunrecorded, Option.bind_some, hd.origin_of_unrecorded hunrecorded] at hp
          exact (Option.some.inj hp).symm
      · cases hp
  | inr hnone =>
    rw [cancelEvent, hnone.1, hnone.2]
    exact ⟨nofun, nofun⟩

end BoundDelegator

/-- While replies are handled in time, they go back to the input server that asked: every
delegator is good, and the one that all callbacks share is that of the last handler, or quiet
while the next one is added. -/
structure HandlersInv (s : HandlersState V) : Prop where
  good : ∀ d, s.replyDelegator = some d → d.Good
  replaced : ∀ d, s.replaced = some d → d.Good ∧ d.Quiet
  client : ∀ name stage, s.adding = some (name, stage) → s.inputClient = some name
  added : s.adding = none → ∀ d, s.replyDelegator = some d →
    d.inputServerName ∈ s.clientPvs ∧ s.inputClient = some d.inputServerName
  clientReplaced : ∀ name, s.adding = some (name, .clientReplaced) →
    ∀ d, s.replyDelegator = some d → d.inputServerName ≠ name ∧ d.Quiet
  delegatorReplaced : ∀ name, s.adding = some (name, .delegatorReplaced) →
    ∀ d, s.replyDelegator = some d → d.inputServerName = name
  proper : ∀ e ∈ s.history, e.Proper

namespace HandlersInv

/-- Nothing has happened at first. -/
theorem new : HandlersInv (.new : HandlersState V) :=
  ⟨nofun, nofun, nofun, nofun, nofun, nofun, nofun⟩

/-- The client that the shared delegator is bound to is there, or the delegator is quiet. -/
theorem client_or_quiet {s : HandlersState V} (hs : HandlersInv s) {d : BoundDelegator V}
    (hd : s.replyDelegator = some d) : s.inputClient = some d.inputServerName ∨ d.Quiet := by
  cases hadding : s.adding with
  | none => exact .inl (hs.added hadding d hd).2
  | some p =>
    rcases p with ⟨name, stage⟩
    cases stage with
    | clientReplaced => exact .inr (hs.clientReplaced name hadding d hd).2
    | delegatorReplaced =>
      rw [hs.client name _ hadding, hs.delegatorReplaced name hadding d hd]
      exact .inl rfl

/-- At the end of `AddInputHandler` the shared delegator is that of the new handler. -/
private theorem added_of_delegatorReplaced {s : HandlersState V} (hs : HandlersInv s)
    {name : String} (hadding : s.adding = some (name, .delegatorReplaced)) {d : BoundDelegator V}
    (hd : s.replyDelegator = some d) :
    d.inputServerName ∈ s.clientPvs ++ [name] ∧ s.inputClient = some d.inputServerName := by
  rw [hs.delegatorReplaced name hadding d hd]
  exact ⟨List.mem_append_right _ (List.mem_singleton_self name), hs.client name _ hadding⟩

/-- The shared delegator has taken a step. -/
private theorem setShared {s : HandlersState V} (hs : HandlersInv s) {d moved : BoundDelegator V}
    (hd : s.replyDelegator = some d) (hname : moved.inputServerName = d.inputServerName)
    (hgood : moved.Good)
    (hquiet : (∃ name, s.adding = some (name, .clientReplaced)) → moved.Quiet)
    {handlers : Nat → Option (ServerInputHandler V)} {calls : List (AnyValueManagerCall V)}
    {events : List (HandlersEvent V)} (hevents : ∀ e ∈ events, e.Proper) :
    HandlersInv { s with
      replyDelegator := some moved
      handlers := handlers
      managerCalls := calls
      history := s.history ++ events } where
  good := by
    rintro _ ⟨⟩
    exact hgood
  replaced := hs.replaced
  client := hs.client
  added := by
    rintro hadding _ ⟨⟩
    rw [hname]
    exact hs.added hadding d hd
  clientReplaced := by
    rintro name hadding _ ⟨⟩
    rw [hname]
    exact ⟨(hs.clientReplaced name hadding d hd).1, hquiet ⟨name, hadding⟩⟩
  delegatorReplaced := by
    rintro name hadding _ ⟨⟩
    rw [hname]
    exact hs.delegatorReplaced name hadding d hd
  proper := List.forall_mem_append.mpr ⟨hs.proper, hevents⟩

/-- A delegator that queues nothing takes a step. -/
private theorem setDelegator {s : HandlersState V} (hs : HandlersInv s) {replaced : Bool}
    {a : DelegatorAction V} (ha : ∀ id reply, a ≠ .queueReply id reply)
    {d moved : BoundDelegator V} (hd : s.delegator replaced = some d)
    (hstep : d.step a = some moved) {events : List (HandlersEvent V)}
    (hevents : events = [] ∨ events = d.sendEvents s.inputClient) :
    HandlersInv { s.setDelegator replaced moved with history := s.history ++ events } := by
  have hproper : d.Good → (s.inputClient = some d.inputServerName ∨ d.Quiet) →
      ∀ e ∈ events, e.Proper := by
    intro hgood hclient
    cases hevents with
    | inl hnil =>
      rw [hnil]
      nofun
    | inr hsend =>
      rw [hsend]
      exact hgood.proper_sendEvents hclient
  cases replaced with
  | false =>
    have hgood := hs.good d hd
    refine hs.setShared hd (BoundDelegator.inputServerName_step hstep) (hgood.step ha hstep) ?_
      (hproper hgood (hs.client_or_quiet hd))
    rintro ⟨name, hadding⟩
    exact (hs.clientReplaced name hadding d hd).2.step ha hstep
  | true =>
    obtain ⟨hgood, hquiet⟩ := hs.replaced d hd
    refine ⟨hs.good, ?_, hs.client, hs.added, hs.clientReplaced, hs.delegatorReplaced,
      List.forall_mem_append.mpr ⟨hs.proper, hproper hgood (.inr hquiet)⟩⟩
    rintro _ ⟨⟩
    exact ⟨hgood.step ha hstep, hquiet.step ha hstep⟩

/-- A step of a reply that is handled in time keeps the invariant. -/
theorem step [AnyValue V] [OacTree V] {s t : HandlersState V} {a : HandlersAction V}
    (hs : HandlersInv s) (ha : HandledInTime s a) (h : HandlersStep s a t) : HandlersInv t := by
  cases h with
  | @addInputHandler name hadding hname =>
    refine ⟨hs.good, hs.replaced, ?_, nofun, ?_, nofun, List.forall_mem_append.mpr ⟨hs.proper, ?_⟩⟩
    · rintro _ _ ⟨⟩
      rfl
    · rintro _ ⟨⟩ d hd
      refine ⟨?_, ha d hd⟩
      rintro rfl
      exact hname (hs.added hadding d hd).1
    · rw [List.forall_mem_singleton]
      cases hd : s.replyDelegator with
      | none => rfl
      | some d => exact (ha d hd).2.2
  | @replaceDelegator name hadding =>
    refine ⟨?_, ?_, ?_, nofun, nofun, ?_, hs.proper⟩
    · rintro _ ⟨⟩
      exact BoundDelegator.good_new name
    · exact fun d hd ↦ ⟨hs.good d hd, (hs.clientReplaced name hadding d hd).2⟩
    · rintro _ _ ⟨⟩
      exact hs.client name _ hadding
    · rintro _ ⟨⟩ _ ⟨⟩
      rfl
  | joinNone hadding =>
    exact ⟨hs.good, hs.replaced, nofun, fun _ d hd ↦ hs.added_of_delegatorReplaced hadding hd,
      nofun, nofun, hs.proper⟩
  | @join name d hadding hreplaced =>
    refine ⟨hs.good, nofun, nofun, fun _ d hd ↦ hs.added_of_delegatorReplaced hadding hd,
      nofun, nofun, List.forall_mem_append.mpr ⟨hs.proper, ?_⟩⟩
    rw [List.forall_mem_singleton]
    exact (hs.replaced d hreplaced).2.1
  | @cancel handler name reqAv d interrupted hmonitored hrequest hd hstep =>
    have hgood := hs.good d hd
    have hinterrupt : ∀ id (reply : UserInputReply V),
        DelegatorAction.interruptAll ≠ .queueReply id reply := nofun
    refine hs.setShared hd (BoundDelegator.inputServerName_step hstep)
      (hgood.step hinterrupt hstep) ?_ ?_
    · rintro ⟨name, hadding⟩
      exact (hs.clientReplaced name hadding d hd).2.step hinterrupt hstep
    · rw [List.forall_mem_singleton]
      exact hgood.proper_cancelEvent (ha hrequest d hd)
  | request | getUserInputReturns =>
    exact ⟨hs.good, hs.replaced, hs.client, hs.added, hs.clientReplaced, hs.delegatorReplaced,
      hs.proper⟩
  | @queueReply handler name id reply d queued hreturned hd hqueue =>
    obtain ⟨hname, hclient⟩ := ha _ hreturned d hd
    have hserver := BoundDelegator.inputServerName_queueReply hqueue
    have hadded : (∃ other, s.adding = some (other, .clientReplaced)) → queued.Quiet := by
      rintro ⟨other, hadding⟩
      -- the client of the delegator is not the one that has just been created
      rw [hs.client other _ hadding] at hclient
      exact absurd (Option.some.inj hclient).symm (hs.clientReplaced other hadding d hd).1
    have hset := @setShared _ _ hs _ _ hd hserver ((hs.good d hd).queueReply hname hqueue) hadded
      (Function.update s.handlers handler (some ⟨name, ⟨id, .done⟩⟩)) s.managerCalls [] nofun
    rw [List.append_nil] at hset
    exact hset
  | delegator hb hd hstep hevents =>
    exact hs.setDelegator (ne_queueReply_of_ofDelegator hb) hd hstep hevents

end HandlersInv

/-- Only one input server has a handler. -/
structure OnlyServer (name : String) (s : HandlersState V) : Prop where
  replyDelegator : ∀ d, s.replyDelegator = some d → d.inputServerName = name
  handlers : ∀ handler h, s.handlers handler = some h → h.inputServerName = name
  clientPvs : ∀ other ∈ s.clientPvs, other = name
  adding : ∀ other stage, s.adding = some (other, stage) → other = name

namespace OnlyServer

variable {name : String}

/-- A call of `HandleUserInput` of the only input server goes on. -/
private theorem setHandler {s : HandlersState V} (hs : OnlyServer name s) (handler : Nat)
    (call : InputHandler V) : ∀ other h,
      Function.update s.handlers handler (some ⟨name, call⟩) other = some h →
      h.inputServerName = name := by
  intro other h hh
  by_cases heq : other = handler
  · rw [heq, Function.update_self] at hh
    cases hh
    rfl
  · rw [Function.update_of_ne heq] at hh
    exact hs.handlers other h hh

/-- Steps that add no other handler keep the only input server. -/
theorem step [AnyValue V] [OacTree V] {s t : HandlersState V} {a : HandlersAction V}
    (hs : OnlyServer name s) (ha : ∀ other, a = .addInputHandler other → other = name)
    (h : HandlersStep s a t) : OnlyServer name t := by
  cases h with
  | addInputHandler =>
    refine ⟨hs.replyDelegator, hs.handlers, hs.clientPvs, ?_⟩
    rintro _ _ ⟨⟩
    exact ha _ rfl
  | replaceDelegator hadding =>
    have hname := hs.adding _ _ hadding
    refine ⟨?_, hs.handlers, hs.clientPvs, ?_⟩
    · rintro _ ⟨⟩
      exact hname
    · rintro _ _ ⟨⟩
      exact hname
  | joinNone hadding | join hadding =>
    refine ⟨hs.replyDelegator, hs.handlers, ?_, nofun⟩
    intro other hother
    cases List.mem_append.mp hother with
    | inl hold => exact hs.clientPvs other hold
    | inr hnew => exact (List.mem_singleton.mp hnew).trans (hs.adding _ _ hadding)
  | cancel hmonitored hrequest hd hstep =>
    refine ⟨?_, hs.handlers, hs.clientPvs, hs.adding⟩
    rintro _ ⟨⟩
    exact (BoundDelegator.inputServerName_step hstep).trans (hs.replyDelegator _ hd)
  | @request handler other reqAv id inputRequest hmonitored =>
    rw [hs.clientPvs other hmonitored]
    exact ⟨hs.replyDelegator, hs.setHandler handler _, hs.clientPvs, hs.adding⟩
  | @getUserInputReturns handler other id reply hrunning =>
    have hother : other = name := hs.handlers handler _ hrunning
    rw [hother]
    exact ⟨hs.replyDelegator, hs.setHandler handler _, hs.clientPvs, hs.adding⟩
  | @queueReply handler other id reply d queued hreturned hd hqueue =>
    have hother : other = name := hs.handlers handler _ hreturned
    rw [hother]
    refine ⟨?_, hs.setHandler handler _, hs.clientPvs, hs.adding⟩
    rintro _ ⟨⟩
    exact (BoundDelegator.inputServerName_queueReply hqueue).trans (hs.replyDelegator d hd)
  | @delegator replaced _ _ d moved _ _ hd hstep =>
    cases replaced with
    | true => exact ⟨hs.replyDelegator, hs.handlers, hs.clientPvs, hs.adding⟩
    | false =>
      refine ⟨?_, hs.handlers, hs.clientPvs, hs.adding⟩
      rintro _ ⟨⟩
      exact (BoundDelegator.inputServerName_step hstep).trans (hs.replyDelegator d hd)

/-- With one input server, everything that can happen is handled in time. -/
theorem handledInTime [AnyValue V] [OacTree V] {s t : HandlersState V} {a : HandlersAction V}
    (hs : OnlyServer name s) (hinv : HandlersInv s)
    (ha : ∀ other, a = .addInputHandler other → other = name) (h : HandlersStep s a t) :
    HandledInTime s a := by
  cases h with
  | addInputHandler hadding hfresh =>
    intro d hd
    have hmonitored := (hinv.added hadding d hd).1
    rw [hs.replyDelegator d hd, ← ha _ rfl] at hmonitored
    exact absurd hmonitored hfresh
  | cancel hmonitored =>
    intro _ d hd
    exact .inl ((hs.clientPvs _ hmonitored).trans (hs.replyDelegator d hd).symm)
  | request hmonitored hsome =>
    intro hnone
    cases hnone.symm.trans hsome
  | queueReply =>
    intro h hh d hd
    refine ⟨(hs.handlers _ h hh).trans (hs.replyDelegator d hd).symm, ?_⟩
    cases hadding : s.adding with
    | none => exact (hinv.added hadding d hd).2
    | some p =>
      rw [hinv.client p.1 p.2 hadding, hs.adding p.1 p.2 hadding, hs.replyDelegator d hd]
  | delegator hb => cases a <;> trivial
  | _ => trivial

/-- A client with one input server needs no care: whatever happens, replies go back to it. -/
theorem proper_of_run [AnyValue V] [OacTree V] {actions : List (HandlersAction V)}
    (hactions : ∀ other, .addInputHandler other ∈ actions → other = name) {s : HandlersState V}
    (hrun : handlersMachine.run .new actions = some s) : ∀ e ∈ s.history, e.Proper := by
  have hsteps : handlersMachine.EveryStep
      (fun _ a ↦ ∀ other, a = .addInputHandler other → other = name) .new actions :=
    Machine.everyStep_of_forall_mem _ fun a ha other heq ↦ hactions other (heq ▸ ha)
  have hinv : HandlersInv s ∧ OnlyServer name s := by
    refine @Machine.run_invariant_of_everyStep _ _ _ _ (fun s ↦ HandlersInv s ∧ OnlyServer name s)
      (fun hs ha h ↦ ?_) _ _ _ ⟨HandlersInv.new, nofun, nofun, nofun, nofun⟩ hsteps hrun
    have hstep := handlersStep_of_step h
    exact ⟨hs.1.step (hs.2.handledInTime hs.1 ha hstep) hstep, hs.2.step ha hstep⟩
  exact hinv.1.proper

end OnlyServer

/-- Replies go back to the input server that asked in every run in which handlers are added, input
servers cancel and replies are queued in time: no reply is sent through the client of another
input server or one that is destroyed, cancels drop and interrupt replies of their own input
server only, and no reply is left behind. -/
theorem replies_reach_their_server [AnyValue V] [OacTree V] {actions : List (HandlersAction V)}
    {s : HandlersState V} (hsteps : handlersMachine.EveryStep HandledInTime .new actions)
    (hrun : handlersMachine.run .new actions = some s) : ∀ e ∈ s.history, e.Proper := by
  have hinv : HandlersInv s :=
    Machine.run_invariant_of_everyStep
      (fun hs ha h ↦ hs.step ha (handlersStep_of_step h)) HandlersInv.new hsteps hrun
  exact hinv.proper

private def sideRequest : UserInputRequest DtoValue := ⟨⟨2⟩, .empty, .array [.string "left"]⟩

private def sideReply : UserInputReply DtoValue := ⟨⟨2⟩, true, .int32 0⟩

/-- `AddInputHandler` while there is no delegator. -/
private def addFirst (name : String) : List (HandlersAction DtoValue) :=
  [.addInputHandler name, .replaceDelegator, .join]

/-- `AddInputHandler` while there is a delegator whose worker waits. -/
private def addNext (name : String) : List (HandlersAction DtoValue) :=
  [.addInputHandler name, .replaceDelegator, .halt, .advance true, .advance true, .advance true,
    .join]

/-- A request of an input server, up to the call that queues its reply. -/
private def queueReplyTo (handler : Nat) (name : String) : List (HandlersAction DtoValue) :=
  [.handleUserInput handler name (encodeInputRequest 1 sideRequest),
    .getUserInputReturns handler sideReply, .queueReply handler]

/-- The worker wakes up and calls `m_reply_func`. -/
private def send : List (HandlersAction DtoValue) :=
  [.advance false, .advance false, .advance false]

/-- Two input servers with one request each, the second one added behind the reply to the
first. -/
private def inTurn : List (HandlersAction DtoValue) :=
  addFirst "S" ++ queueReplyTo 0 "S" ++ send ++ send ++ addNext "T" ++ queueReplyTo 1 "T" ++ send

/-- A request of the first of two input servers. -/
private def crossedReply : List (HandlersAction DtoValue) :=
  addFirst "S" ++ addNext "T" ++ queueReplyTo 0 "S" ++ send

/-- A request of the second of two input servers and a cancel of the first one. -/
private def crossedCancel : List (HandlersAction DtoValue) :=
  addFirst "S" ++ addNext "T" ++ queueReplyTo 0 "T" ++
    [.handleUserInput 1 "S" (kInputRequestAnyValue DtoValue)]

/-- When the second handler is added behind the reply to the first request, both replies go back
to the input server that asked. -/
theorem replies_reach_their_server_in_turn :
    ∃ s : HandlersState DtoValue,
      handlersMachine.run .new inTurn = some s ∧ ∀ e ∈ s.history, e.Proper := by
  have hrun : (handlersMachine.run .new inTurn).isSome = true := by rfl
  obtain ⟨s, hs⟩ := Option.isSome_iff_exists.mp hrun
  exact ⟨s, hs, replies_reach_their_server (by decide +kernel) hs⟩

/-- With two input servers, a reply to the first one is sent through the client of the second one,
and a cancel of the first one drops a reply to the second one. -/
theorem reply_sent_to_other_server :
    (∃ (s : HandlersState DtoValue) (info : ReplyInfo DtoValue),
      handlersMachine.run .new crossedReply = some s ∧
      .sendReply (some "T") (some "S") info ∈ s.history ∧ ¬ ∀ e ∈ s.history, e.Proper) ∧
    ∃ s : HandlersState DtoValue,
      handlersMachine.run .new crossedCancel = some s ∧
      .cancel "S" [some "T"] none ∈ s.history ∧ ¬ ∀ e ∈ s.history, e.Proper := by
  constructor
  · have hrun : (handlersMachine.run .new crossedReply).isSome = true := by rfl
    obtain ⟨s, hs⟩ := Option.isSome_iff_exists.mp hrun
    have hmem : .sendReply (some "T") (some "S") ⟨0, 1, sideReply⟩ ∈ s.history :=
      List.mem_of_getLast? (handlersMachine.observe_run (fun s ↦ s.history.getLast?) hs (by rfl))
    refine ⟨s, _, hs, hmem, fun hall ↦ ?_⟩
    obtain ⟨name, hclient, horigin⟩ := hall _ hmem
    cases hclient
    exact absurd horigin (by decide)
  · have hrun : (handlersMachine.run .new crossedCancel).isSome = true := by rfl
    obtain ⟨s, hs⟩ := Option.isSome_iff_exists.mp hrun
    have hmem : .cancel "S" [some "T"] none ∈ s.history :=
      List.mem_of_getLast? (handlersMachine.observe_run (fun s ↦ s.history.getLast?) hs (by rfl))
    refine ⟨s, hs, hmem, fun hall ↦ ?_⟩
    exact absurd ((hall _ hmem).1 _ (List.mem_singleton_self _)) (by decide)

end OacTreeServer.Epics
