import Mathlib.Logic.Function.Basic
import OacTreeServer.Client.ReplyDelegator
import OacTreeServer.External.Reference
import OacTreeServer.Input.InputProtocol

/-!
# User input at the client

`EPICSIOClientImpl` handles a published request in the thread that notifies it
(`epics/epics_io_client.cpp:152`): it waits for the user in `GetUserInput` and then queues
the reply. A value that is no request cancels, which is `InterruptAll` of the delegator. The
delegator knows the id of a reply that is being sent, and of no other request.
-/

namespace OacTreeServer.Epics
open OacTreeServer.Client OacTreeServer.External OacTreeServer.Input OacTreeServer.Library
open OacTreeServer.Protocol

/-- A call of a member function of the `IAnyValueManager` at the client. -/
inductive AnyValueManagerCall (V : Type) where
  | getUserInput (inputServerName : String) (id : UInt64) (request : UserInputRequest V)
  | interrupt (inputServerName : String) (id : UInt64)

/-- Where a thread is in `HandleUserInput` of a request; `epics_io_client.cpp:152`. -/
inductive HandlerStage (V : Type) where
  /-- In `GetUserInput`. -/
  | running
  /-- Behind `GetUserInput`, with its reply. -/
  | returned (reply : UserInputReply V)
  /-- Behind `QueueReply`. -/
  | done

/-- A call of `HandleUserInput` with a request. -/
structure InputHandler (V : Type) where
  id : UInt64
  stage : HandlerStage V

/-- `EPICSIOClientImpl` with the name of its input server, its delegator, the calls of
`HandleUserInput` that had a request, and the calls of its manager. -/
structure IoClientState (V : Type) where
  inputServerName : String
  delegator : DelegatorState V
  handlers : Nat → Option (InputHandler V)
  managerCalls : List (AnyValueManagerCall V)

/-- One step of some thread. -/
inductive IoClientAction (V : Type) where
  /-- A published value is handled, by a new thread when it is a request. -/
  | handleUserInput (handler : Nat) (reqAv : V)
  | getUserInputReturns (handler : Nat) (reply : UserInputReply V)
  | queueReply (handler : Nat)
  /-- `Interrupt` returns to `InterruptAll`. -/
  | interruptDone
  | halt
  /-- The worker of the delegator goes on. -/
  | advance

section Definitions

variable {V : Type}

/-- The calls that `m_interrupt_func` makes for the last event of the delegator: it is bound to
`Interrupt` of the manager; `epics_io_client.cpp:116`. -/
def interruptCalls (inputServerName : String) (history : List (DelegatorEvent V)) :
    List (AnyValueManagerCall V) :=
  match history.getLast? with
  | some (.interruptAll _ (some id)) => [.interrupt inputServerName id]
  | _ => []

namespace IoClientState

/-- Construction, with one input handler added. -/
def start (inputServerName : String) : IoClientState V := ⟨inputServerName, .new, fun _ ↦ none, []⟩

/-- Change the entry of a thread. -/
def setHandler (s : IoClientState V) (handler : Nat) (h : InputHandler V) : IoClientState V :=
  { s with handlers := Function.update s.handlers handler (some h) }

/-- `HandleUserInput` of a value that is no request; `epics_io_client.cpp:161`. -/
def cancel (s : IoClientState V) : Option (IoClientState V) :=
  s.delegator.interruptAll.map fun delegator ↦
    { s with
      delegator
      managerCalls := s.managerCalls ++ interruptCalls s.inputServerName delegator.history }

/-- `HandleUserInput` of a request, up to the call of `GetUserInput`;
`epics_io_client.cpp:164`. -/
def request (s : IoClientState V) (handler : Nat) (id : UInt64)
    (inputRequest : UserInputRequest V) : Option (IoClientState V) :=
  match s.handlers handler with
  | some _ => none
  | none =>
    some (setHandler
      { s with
        managerCalls := s.managerCalls ++ [.getUserInput s.inputServerName id inputRequest] }
      handler ⟨id, .running⟩)

/-- `HandleUserInput` behind `GetUserInput`; `epics_io_client.cpp:165`. -/
def queueReply (s : IoClientState V) (handler : Nat) : Option (IoClientState V) :=
  match s.handlers handler with
  | some ⟨id, .returned reply⟩ =>
    (s.delegator.queueReply id reply).map fun delegator ↦
      setHandler { s with delegator } handler ⟨id, .done⟩
  | _ => none

end IoClientState

variable [AnyValue V] [OacTree V]

/-- Whether a published value does not decode to a request or has no valid type, with the id
and the request otherwise; `epics_io_client.cpp:155`. -/
def requestOf (reqAv : V) : Except Exception (Option (UInt64 × UserInputRequest V)) := do
  let (success, id, inputRequest) ← decodeInputRequest reqAv
  if !success || inputRequest.requestType = OacTree.kInvalid V then
    return none
  return some (id, inputRequest)

/-- The client with all threads that call it. -/
def ioClientMachine : Machine (IoClientState V) (IoClientAction V) where
  step s
    | .handleUserInput handler reqAv =>
      match requestOf reqAv with
      | .error _ => none
      | .ok none => s.cancel
      | .ok (some (id, inputRequest)) => s.request handler id inputRequest
    | .getUserInputReturns handler reply =>
      match s.handlers handler with
      | some ⟨id, .running⟩ => some (s.setHandler handler ⟨id, .returned reply⟩)
      | _ => none
    | .queueReply handler => s.queueReply handler
    | .interruptDone =>
      (delegatorMachine.step s.delegator .interruptDone).map fun delegator ↦ { s with delegator }
    | .halt => s.delegator.haltWorker.map fun delegator ↦ { s with delegator }
    | .advance => s.delegator.advance.map fun delegator ↦ { s with delegator }

/-- An action that handles a cancel notification. -/
def IsCancel : IoClientAction V → Prop
  | .handleUserInput _ reqAv => requestOf reqAv = .ok none
  | _ => False

end Definitions

variable {V : Type}

/-- A call of `GetUserInput` for this id is running. -/
def Pending (s : IoClientState V) (id : UInt64) : Prop :=
  ∃ handler, s.handlers handler = some ⟨id, .running⟩

/-- Between two states `Interrupt` is called for this id. -/
def Interrupts (s t : IoClientState V) (id : UInt64) : Prop :=
  ∃ calls, t.managerCalls = s.managerCalls ++ calls ∧ .interrupt s.inputServerName id ∈ calls

/-- The reply to an earlier request with this id, which is not zero, is popped by the worker and
not recorded as sent. -/
def SendsReplyTo (s : IoClientState V) (id : UInt64) : Prop :=
  id ≠ 0 ∧ (∃ handler, s.handlers handler = some ⟨id, .done⟩) ∧
    ∃ info, s.delegator.worker.unrecorded = some info ∧ info.id = id

/-- Everything that a step of the client can do. -/
inductive IoClientStep [AnyValue V] [OacTree V] (s : IoClientState V) :
    IoClientAction V → IoClientState V → Prop where
  | cancel {handler reqAv delegator} : requestOf reqAv = .ok none →
      delegatorMachine.step s.delegator .interruptAll = some delegator →
      IoClientStep s (.handleUserInput handler reqAv)
        { s with
          delegator := delegator
          managerCalls := s.managerCalls ++ interruptCalls s.inputServerName delegator.history }
  | request {handler reqAv id inputRequest} :
      requestOf reqAv = .ok (some (id, inputRequest)) → s.handlers handler = none →
      IoClientStep s (.handleUserInput handler reqAv) (IoClientState.setHandler
        { s with
          managerCalls := s.managerCalls ++ [.getUserInput s.inputServerName id inputRequest] }
        handler ⟨id, .running⟩)
  | getUserInputReturns {handler id reply} : s.handlers handler = some ⟨id, .running⟩ →
      IoClientStep s (.getUserInputReturns handler reply)
        (s.setHandler handler ⟨id, .returned reply⟩)
  | queueReply {handler id reply delegator} : s.handlers handler = some ⟨id, .returned reply⟩ →
      delegatorMachine.step s.delegator (.queueReply id reply) = some delegator →
      IoClientStep s (.queueReply handler)
        (IoClientState.setHandler { s with delegator := delegator } handler ⟨id, .done⟩)
  /-- The other steps are those of the delegator. -/
  | delegator {a b delegator} : (∀ id reply, b ≠ .queueReply id reply) →
      delegatorMachine.step s.delegator b = some delegator →
      IoClientStep s a { s with delegator := delegator }

section Steps

variable [AnyValue V] [OacTree V]

/-- Handling a cancel notification is an `InterruptAll` of the delegator. -/
theorem step_of_isCancel {a : IoClientAction V} (ha : IsCancel a) (s : IoClientState V) :
    ioClientMachine.step s a = s.cancel := by
  cases a with
  | handleUserInput handler reqAv =>
    simp only [ioClientMachine]
    rw [show requestOf reqAv = .ok none from ha]
  | _ => exact absurd ha id

/-- The computed steps of the client are those above. -/
theorem ioClientStep_of_step {s t : IoClientState V} {a : IoClientAction V}
    (h : ioClientMachine.step s a = some t) : IoClientStep s a t := by
  cases a with
  | handleUserInput handler reqAv =>
    simp only [ioClientMachine] at h
    split at h
    · cases h
    · next hnone =>
      obtain ⟨delegator, hd, rfl⟩ := Option.map_eq_some_iff.mp h
      exact .cancel hnone hd
    · next id inputRequest hsome =>
      rw [IoClientState.request] at h
      split at h
      · cases h
      · next hfresh =>
        cases h
        exact .request hsome hfresh
  | getUserInputReturns handler reply =>
    simp only [ioClientMachine] at h
    split at h
    · next hrunning =>
      cases h
      exact .getUserInputReturns hrunning
    · cases h
  | queueReply handler =>
    simp only [ioClientMachine, IoClientState.queueReply] at h
    split at h
    · next hreturned =>
      obtain ⟨delegator, hd, rfl⟩ := Option.map_eq_some_iff.mp h
      exact .queueReply hreturned hd
    · cases h
  | interruptDone =>
    obtain ⟨delegator, hd, rfl⟩ := Option.map_eq_some_iff.mp h
    exact .delegator (b := .interruptDone) nofun hd
  | halt =>
    obtain ⟨delegator, hd, rfl⟩ := Option.map_eq_some_iff.mp h
    exact .delegator (b := .halt) nofun hd
  | advance =>
    obtain ⟨delegator, hd, rfl⟩ := Option.map_eq_some_iff.mp h
    exact .delegator (b := .advance) nofun hd

end Steps

/-- The delegator is consistent, and it has been given replies of calls that are over. -/
structure IoClientInv (s : IoClientState V) : Prop where
  consistent : s.delegator.Consistent
  answered : ∀ info ∈ queuedReplies s.delegator.history,
    ∃ handler, s.handlers handler = some ⟨info.id, .done⟩

/-- A client has given no replies at first. -/
theorem ioClientInv_start (inputServerName : String) :
    IoClientInv (.start inputServerName : IoClientState V) :=
  ⟨DelegatorState.consistent_new, nofun⟩

/-- A call that is over stays so when another one goes on. -/
private theorem done_setHandler {s : IoClientState V} {handler : Nat} {h : InputHandler V}
    {id : UInt64} (hdone : ∃ other, s.handlers other = some ⟨id, .done⟩)
    (hnot : ∀ id, s.handlers handler ≠ some ⟨id, .done⟩) :
    ∃ other, (s.setHandler handler h).handlers other = some ⟨id, .done⟩ := by
  obtain ⟨other, hother⟩ := hdone
  refine ⟨other, ?_⟩
  have hne : other ≠ handler := by
    rintro rfl
    exact hnot id hother
  rw [IoClientState.setHandler]
  exact (Function.update_of_ne hne ..).trans hother

/-- A section of the delegator that is not `QueueReply` queues no reply. -/
theorem queuedReplies_of_step {d d' : DelegatorState V} {a : DelegatorAction V}
    (ha : ∀ id reply, a ≠ .queueReply id reply) (h : delegatorMachine.step d a = some d') :
    queuedReplies d'.history = queuedReplies d.history := by
  cases delegatorStep_of_step h with
  | queueReply => exact absurd rfl (ha _ _)
  | _ => first | rfl | simp [queuedReplies]

/-- The section of `QueueReply` queues the reply of the call. -/
theorem queuedReplies_of_queueReply {d d' : DelegatorState V} {id : UInt64}
    {reply : UserInputReply V} (h : delegatorMachine.step d (.queueReply id reply) = some d') :
    ∃ info, info.id = id ∧ queuedReplies d'.history = queuedReplies d.history ++ [info] := by
  cases delegatorStep_of_step h with
  | queueReply hmtx =>
    exact ⟨⟨(queuedReplies d.history).length, id, reply⟩, rfl, queuedReplies_append _ _⟩

/-- Every step keeps the invariant of the client. -/
theorem IoClientInv.step [AnyValue V] [OacTree V] {s t : IoClientState V} {a : IoClientAction V}
    (hs : IoClientInv s) (h : IoClientStep s a t) : IoClientInv t := by
  cases h with
  | @cancel _ _ delegator _ hd =>
    refine ⟨hs.consistent.step hd, ?_⟩
    change ∀ info ∈ queuedReplies delegator.history, _
    rw [queuedReplies_of_step (a := .interruptAll) nofun hd]
    exact hs.answered
  | request hrequest hfresh =>
    refine ⟨hs.consistent, fun info hinfo ↦ ?_⟩
    exact @done_setHandler _ { s with managerCalls := _ } _ _ _ (hs.answered info hinfo)
      fun _ hdone ↦ nomatch hfresh.symm.trans hdone
  | getUserInputReturns hrunning =>
    refine ⟨hs.consistent, fun info hinfo ↦ done_setHandler (hs.answered info hinfo) ?_⟩
    intro _ hdone
    cases hrunning.symm.trans hdone
  | @queueReply handler id reply delegator hreturned hd =>
    obtain ⟨info, hid, hqueued⟩ := queuedReplies_of_queueReply hd
    refine ⟨hs.consistent.step hd, ?_⟩
    change ∀ old ∈ queuedReplies delegator.history, _
    rw [hqueued]
    intro old hold
    cases List.mem_append.mp hold with
    | inl hold =>
      refine @done_setHandler _ { s with delegator := delegator } _ _ _ (hs.answered old hold) ?_
      intro _ hdone
      cases hreturned.symm.trans hdone
    | inr hold =>
      refine ⟨handler, ?_⟩
      rw [List.mem_singleton.mp hold, hid]
      exact Function.update_self ..
  | @delegator _ _ delegator ha hd =>
    refine ⟨hs.consistent.step hd, ?_⟩
    change ∀ info ∈ queuedReplies delegator.history, _
    rw [queuedReplies_of_step ha hd]
    exact hs.answered

/-- A cancel notification interrupts exactly the id to which a reply is being sent. -/
private theorem IoClientInv.interrupts_iff {s t : IoClientState V} (hs : IoClientInv s)
    (h : s.cancel = some t) (id : UInt64) : Interrupts s t id ↔ SendsReplyTo s id := by
  obtain ⟨delegator, hd, rfl⟩ := Option.map_eq_some_iff.mp h
  have hhistory := hs.consistent.history_interruptAll hd
  have hcalls : interruptCalls s.inputServerName delegator.history =
      match (s.delegator.worker.unrecorded.map (·.id)).filter (· ≠ 0) with
      | some id => [.interrupt s.inputServerName id]
      | none => [] := by
    rw [interruptCalls, hhistory, List.getLast?_concat]
    cases (s.delegator.worker.unrecorded.map (·.id)).filter (· ≠ 0) with
    | none => rfl
    | some id => rfl
  have hinterrupts : Interrupts s
      { s with
        delegator := delegator
        managerCalls := s.managerCalls ++ interruptCalls s.inputServerName delegator.history } id ↔
      .interrupt s.inputServerName id ∈ interruptCalls s.inputServerName delegator.history := by
    constructor
    · rintro ⟨calls, heq, hmem⟩
      rwa [List.append_cancel_left heq]
    · exact fun hmem ↦ ⟨_, rfl, hmem⟩
  rw [hinterrupts, hcalls]
  cases hunrecorded : s.delegator.worker.unrecorded with
  | none =>
    constructor
    · nofun
    · rintro ⟨-, -, info, hinfo, -⟩
      cases hunrecorded.symm.trans hinfo
  | some info =>
    by_cases hzero : info.id = 0
    · simp only [Option.map_some, hzero, Option.filter, ne_eq, not_true, decide_false]
      constructor
      · nofun
      · rintro ⟨hid, -, other, hother, rfl⟩
        cases hunrecorded.symm.trans hother
        exact absurd hzero hid
    · simp only [Option.map_some, hzero, Option.filter, ne_eq, not_false_eq_true, decide_true,
        if_true, List.mem_singleton, AnyValueManagerCall.interrupt.injEq, true_and]
      have hqueued : info ∈ queuedReplies s.delegator.history :=
        hs.consistent.delivery.taken_sublist.subset
          (hs.consistent.unrecorded_mem info hunrecorded)
      constructor
      · rintro rfl
        exact ⟨hzero, hs.answered info hqueued, info, hunrecorded, rfl⟩
      · rintro ⟨-, -, other, hother, rfl⟩
        cases hunrecorded.symm.trans hother
        rfl

/-- No id has been requested twice. -/
def RequestedOnce (handlers : Nat → Option (InputHandler V)) : Prop :=
  ∀ i j id stage other, handlers i = some ⟨id, stage⟩ → handlers j = some ⟨id, other⟩ → i = j

/-- A change of one thread that keeps ids apart. -/
private theorem RequestedOnce.update {handlers : Nat → Option (InputHandler V)}
    (hs : RequestedOnce handlers) {handler : Nat} {h : InputHandler V}
    (hnew : ∀ i stage, handlers i = some ⟨h.id, stage⟩ → i = handler) :
    RequestedOnce (Function.update handlers handler (some h)) := by
  intro i j id stage other hi hj
  by_cases hih : i = handler <;> by_cases hjh : j = handler
  · exact hih.trans hjh.symm
  · rw [hih, Function.update_self] at hi
    rw [Function.update_of_ne hjh] at hj
    cases hi
    exact absurd (hnew j other hj) hjh
  · rw [Function.update_of_ne hih] at hi
    rw [hjh, Function.update_self] at hj
    cases hj
    exact absurd (hnew i stage hi) hih
  · rw [Function.update_of_ne hih] at hi
    rw [Function.update_of_ne hjh] at hj
    exact hs i j id stage other hi hj

/-- When no id is requested twice, a call for an id to which a reply is being sent is over. -/
private theorem RequestedOnce.not_pending {s : IoClientState V} (hs : RequestedOnce s.handlers)
    {id : UInt64} (hsends : SendsReplyTo s id) : ¬ Pending s id := by
  rintro ⟨handler, hrunning⟩
  obtain ⟨-, ⟨other, hdone⟩, -⟩ := hsends
  cases hs _ _ _ _ _ hrunning hdone
  cases hrunning.symm.trans hdone

/-- Every run keeps the invariant of the client. -/
theorem ioClientInv_of_run [AnyValue V] [OacTree V] {inputServerName : String}
    {actions : List (IoClientAction V)} {s : IoClientState V}
    (hs : ioClientMachine.run (.start inputServerName) actions = some s) : IoClientInv s :=
  Machine.run_invariant (fun hs h ↦ hs.step (ioClientStep_of_step h))
    (ioClientInv_start inputServerName) hs

section Cancellation

variable [AnyValue V] [OacTree V]

/-- A handled cancel notification interrupts the calls of `GetUserInput` that are running, and
does not interrupt other calls only while one of them is left. -/
def CancelsPending (s : IoClientState V) (a : IoClientAction V) : Prop :=
  ∀ t, ioClientMachine.step s a = some t → IsCancel a →
    (∀ id, Pending s id → Interrupts s t id) ∧
      ¬ ((∃ id, Interrupts s t id) ∧ (∀ id, Interrupts s t id → ¬ Pending s id) ∧
        ∃ id, Pending s id ∧ ¬ Interrupts s t id)

/-- A cancel notification is handled only while calls of `GetUserInput` for ids that satisfy `P`
are running. -/
def CancelsOnly (P : IoClientState V → UInt64 → Prop) (s : IoClientState V)
    (a : IoClientAction V) : Prop :=
  ∀ t, ioClientMachine.step s a = some t → IsCancel a → ∀ id, Pending s id → P s id

/-- A request is handled only if its id was not requested before. -/
def RequestsNew (s : IoClientState V) (a : IoClientAction V) : Prop :=
  ∀ handler reqAv id inputRequest, a = .handleUserInput handler reqAv →
    requestOf reqAv = .ok (some (id, inputRequest)) →
    ∀ other stage, s.handlers other ≠ some ⟨id, stage⟩

/-- What a cancel notification interrupts decides whether it does what it should. -/
private theorem IoClientInv.cancelsPending_iff {s : IoClientState V} (hs : IoClientInv s)
    (a : IoClientAction V) : CancelsPending s a ↔ CancelsOnly SendsReplyTo s a := by
  constructor
  · intro h t ht ha id hpending
    have hcancel := ht
    rw [step_of_isCancel ha] at hcancel
    exact (hs.interrupts_iff hcancel id).mp ((h t ht ha).1 id hpending)
  · intro h t ht ha
    have hcancel := ht
    rw [step_of_isCancel ha] at hcancel
    have hall : ∀ id, Pending s id → Interrupts s t id :=
      fun id hpending ↦ (hs.interrupts_iff hcancel id).mpr (h t ht ha id hpending)
    refine ⟨hall, ?_⟩
    rintro ⟨-, -, id, hpending, hnot⟩
    exact hnot (hall id hpending)

/-- New requests keep ids apart. -/
private theorem RequestedOnce.step {s t : IoClientState V} {a : IoClientAction V}
    (hs : RequestedOnce s.handlers) (ha : RequestsNew s a) (h : IoClientStep s a t) :
    RequestedOnce t.handlers := by
  cases h with
  | cancel => exact hs
  | request hrequest hfresh =>
    exact hs.update fun i stage hi ↦ absurd hi (ha _ _ _ _ rfl hrequest i stage)
  | getUserInputReturns hrunning => exact hs.update fun i stage hi ↦ hs _ _ _ _ _ hi hrunning
  | queueReply hreturned _ => exact hs.update fun i stage hi ↦ hs _ _ _ _ _ hi hreturned
  | delegator => exact hs

/-- In a run, cancel notifications interrupt what is pending exactly if each is handled while no
call of `GetUserInput` is running, except for an id that was requested before and the reply
to which is being sent. When no id is requested twice, no call may be running at all. -/
theorem cancel_interrupts_pending_iff (inputServerName : String)
    (actions : List (IoClientAction V)) :
    (ioClientMachine.EveryStep CancelsPending (.start inputServerName) actions ↔
      ioClientMachine.EveryStep (CancelsOnly SendsReplyTo) (.start inputServerName) actions) ∧
    (ioClientMachine.EveryStep RequestsNew (.start inputServerName) actions →
      (ioClientMachine.EveryStep CancelsPending (.start inputServerName) actions ↔
        ioClientMachine.EveryStep (CancelsOnly fun _ _ ↦ False) (.start inputServerName)
          actions)) := by
  constructor
  · exact Machine.everyStep_congr (R := fun _ _ ↦ True)
      (fun hs _ h ↦ hs.step (ioClientStep_of_step h)) (fun hs _ ↦ hs.cancelsPending_iff _)
      (ioClientInv_start inputServerName) (Machine.everyStep_of_forall_mem _ fun _ _ ↦ trivial)
  · refine @Machine.everyStep_congr _ _ ioClientMachine _ _ _
      (fun s ↦ IoClientInv s ∧ RequestedOnce s.handlers)
      (fun hs hR h ↦ ⟨hs.1.step (ioClientStep_of_step h),
        hs.2.step hR (ioClientStep_of_step h)⟩) ?_ _ _ ⟨ioClientInv_start inputServerName, nofun⟩
    intro s a hs _
    rw [hs.1.cancelsPending_iff]
    constructor
    · exact fun h t ht ha id hpending ↦ hs.2.not_pending (h t ht ha id hpending) hpending
    · exact fun h t ht ha id hpending ↦ (h t ht ha id hpending).elim

end Cancellation

private def choiceRequest : UserInputRequest DtoValue := ⟨⟨2⟩, .empty, .array [.string "left"]⟩

private def choiceReply : UserInputReply DtoValue := ⟨⟨2⟩, true, .int32 0⟩

/-- A first request up to the call that sends its reply, and then a second one. -/
private def twoRequests : List (IoClientAction DtoValue) :=
  [.handleUserInput 0 (encodeInputRequest 1 choiceRequest), .getUserInputReturns 0 choiceReply,
    .queueReply 0, .advance, .advance, .advance,
    .handleUserInput 1 (encodeInputRequest 2 choiceRequest)]

/-- A cancel notification interrupts the first request, whose input is over, and leaves the
second one, which waits for its user. -/
theorem cancel_leaves_pending_input :
    ∃ s t, ioClientMachine.run (.start "S") twoRequests = some s ∧
      IsCancel (.handleUserInput 2 (kInputRequestAnyValue DtoValue)) ∧
      ioClientMachine.step s (.handleUserInput 2 (kInputRequestAnyValue DtoValue)) = some t ∧
      Pending s 2 ∧ ¬ Interrupts s t 2 ∧ Interrupts s t 1 ∧ ¬ Pending s 1 := by
  obtain ⟨s, hs⟩ : ∃ s, ioClientMachine.run (.start "S") twoRequests = some s :=
    Option.isSome_iff_exists.mp (by rfl)
  have hinv := ioClientInv_of_run hs
  have hcancel : IsCancel (.handleUserInput 2 (kInputRequestAnyValue DtoValue)) := by rfl
  obtain ⟨t, ht⟩ := Option.isSome_iff_exists.mp
    (ioClientMachine.observe_run (fun s ↦ s.cancel.isSome) hs (by rfl))
  have hfirst : s.handlers 0 = some ⟨1, .done⟩ :=
    ioClientMachine.observe_run (fun s ↦ s.handlers 0) hs (by rfl)
  have hsecond : s.handlers 1 = some ⟨2, .running⟩ :=
    ioClientMachine.observe_run (fun s ↦ s.handlers 1) hs (by rfl)
  have hworker : s.delegator.worker.unrecorded = some ⟨0, 1, choiceReply⟩ :=
    ioClientMachine.observe_run (fun s ↦ s.delegator.worker.unrecorded) hs (by rfl)
  have hlater : ∀ handler, s.handlers (handler + 2) = none :=
    fun handler ↦ ioClientMachine.observe_run (fun s ↦ s.handlers (handler + 2)) hs (by rfl)
  have hstep : ioClientMachine.step s (.handleUserInput 2 (kInputRequestAnyValue DtoValue)) =
      some t := by
    rw [step_of_isCancel hcancel]
    exact ht
  refine ⟨s, t, hs, hcancel, hstep, ⟨1, hsecond⟩, ?_, ?_, ?_⟩
  · rw [hinv.interrupts_iff ht]
    rintro ⟨-, -, info, hinfo, hid⟩
    cases hworker.symm.trans hinfo
    exact absurd hid (by decide)
  · rw [hinv.interrupts_iff ht]
    exact ⟨by decide, ⟨0, hfirst⟩, ⟨0, 1, choiceReply⟩, hworker, rfl⟩
  · rintro ⟨handler, hhandler⟩
    match handler with
    | 0 => cases hfirst.symm.trans hhandler
    | 1 => cases hsecond.symm.trans hhandler
    | handler + 2 => cases (hlater handler).symm.trans hhandler

end OacTreeServer.Epics
