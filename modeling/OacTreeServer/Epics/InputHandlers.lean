import OacTreeServer.Epics.IoClient

/-!
# Several input handlers of one client

Each `AddInputHandler` of `EPICSIOClientImpl` (`epics/epics_io_client.cpp:107`) monitors the
request variable of one more input server, with a callback of its own, but it replaces the input
client and the delegator that all callbacks share. The replaced client is destroyed before the
new delegator is there, and the destructor of the replaced delegator halts and joins its worker.
The input servers have distinct names, and the manager accepts all of them.
-/

namespace OacTreeServer.Epics
open OacTreeServer.Client OacTreeServer.External OacTreeServer.Input OacTreeServer.Library
open OacTreeServer.Protocol

/-- A `ClientReplyDelegator` with the input server that its functions are bound to
(`epics_io_client.cpp:115`) and, for each reply that it has queued, the input server of the
request. -/
structure BoundDelegator (V : Type) where
  inputServerName : String
  state : DelegatorState V
  origins : List String

/-- A call of `HandleUserInput` with a request of this input server. -/
structure ServerInputHandler (V : Type) where
  inputServerName : String
  call : InputHandler V

/-- Where a call of `AddInputHandler` is; `epics_io_client.cpp:107`. -/
inductive AddingStage where
  /-- Behind the assignment to `m_input_client`. -/
  | clientReplaced
  /-- In the assignment to `m_reply_delegator`, in the destructor of the replaced one. -/
  | delegatorReplaced

/-- What has happened to the replies. -/
inductive HandlersEvent (V : Type) where
  /-- `m_input_client` is replaced, while the replaced one is sending this reply. -/
  | replaceClient (sending : Option (ReplyInfo V))
  /-- `m_reply_func` is called: the input server of the client that it is bound to, unless that
  is destroyed, and the input server of the request. -/
  | sendReply (client origin : Option String) (info : ReplyInfo V)
  /-- A cancel of an input server: the input servers of the replies that are dropped, and the
  name with which `Interrupt` is called and the input server of the reply it is called for. -/
  | cancel (inputServerName : String) (dropped : List (Option String))
      (interrupted : Option (String × Option String))
  /-- A replaced delegator ends with these replies. -/
  | destroyDelegator (left : List (ReplyInfo V))

/-- `EPICSIOClientImpl` with the replaced delegator while that is destroyed, the call of
`AddInputHandler` that is running, the calls of `HandleUserInput` that had a request and the calls
of its manager; `epics_io_client.cpp:42`. -/
structure HandlersState (V : Type) where
  inputClient : Option String
  replyDelegator : Option (BoundDelegator V)
  replaced : Option (BoundDelegator V)
  adding : Option (String × AddingStage)
  clientPvs : List String
  handlers : Nat → Option (ServerInputHandler V)
  managerCalls : List (AnyValueManagerCall V)
  history : List (HandlersEvent V)

/-- One step of some thread. A call of a member function of the delegator reads
`m_reply_delegator` in the step in which it locks the mutex. -/
inductive HandlersAction (V : Type) where
  /-- `AddInputHandler` is called and replaces the input client. -/
  | addInputHandler (inputServerName : String)
  /-- `m_reply_delegator` is assigned. -/
  | replaceDelegator
  /-- `Halt` of the replaced delegator. -/
  | halt
  /-- The worker of the replaced delegator is joined and the request variable is monitored. -/
  | join
  /-- A value of the request variable of an input server is handled, by a new thread when it is a
  request. -/
  | handleUserInput (handler : Nat) (inputServerName : String) (reqAv : V)
  | getUserInputReturns (handler : Nat) (reply : UserInputReply V)
  | queueReply (handler : Nat)
  /-- `Interrupt` returns to `InterruptAll`. -/
  | interruptDone (replaced : Bool)
  /-- The worker of a delegator goes on. -/
  | advance (replaced : Bool)

section Definitions

variable {V : Type}

namespace BoundDelegator

/-- Construction; `epics_io_client.cpp:118`. -/
def new (inputServerName : String) : BoundDelegator V := ⟨inputServerName, .new, []⟩

/-- The input server of the request to which this is the reply. -/
def origin (d : BoundDelegator V) (info : ReplyInfo V) : Option String := d.origins[info.number]?

/-- A step of the delegator that queues nothing. -/
def step (d : BoundDelegator V) (a : DelegatorAction V) : Option (BoundDelegator V) :=
  (delegatorMachine.step d.state a).map fun state ↦ { d with state }

/-- `QueueReply` for a request of this input server. -/
def queueReply (d : BoundDelegator V) (inputServerName : String) (id : UInt64)
    (reply : UserInputReply V) : Option (BoundDelegator V) :=
  (d.state.queueReply id reply).map fun state ↦
    { d with state, origins := d.origins ++ [inputServerName] }

/-- The reply with which `m_reply_func` is running. -/
def sending (d : BoundDelegator V) : Option (ReplyInfo V) :=
  match d.state.worker with
  | .replying info => some info
  | _ => none

/-- The call of `m_reply_func` that the worker makes next. Clients have distinct names, so the one
that it is bound to is destroyed when the one in `m_input_client` has another name. -/
def sendEvents (d : BoundDelegator V) (inputClient : Option String) : List (HandlersEvent V) :=
  match d.state.worker with
  | .popped info =>
    [.sendReply (inputClient.filter (· = d.inputServerName)) (d.origin info) info]
  | _ => []

/-- What `InterruptAll` does when this input server cancels. -/
def cancelEvent (d : BoundDelegator V) (inputServerName : String) : HandlersEvent V :=
  .cancel inputServerName (d.state.replyQueue.map d.origin)
    (if d.state.activeId ≠ 0 then
      some (d.inputServerName, d.state.worker.unrecorded.bind d.origin)
    else
      none)

/-- No reply is queued, and none is popped or being sent. -/
def Quiet (d : BoundDelegator V) : Prop :=
  d.state.replyQueue = [] ∧ d.state.worker.unsent = [] ∧ d.sending = none

end BoundDelegator

/-- The step of one of the delegators that is made without the client. -/
def HandlersAction.ofDelegator : HandlersAction V → Option (Bool × DelegatorAction V)
  | .halt => some (true, .halt)
  | .interruptDone replaced => some (replaced, .interruptDone)
  | .advance replaced => some (replaced, .advance)
  | _ => none

namespace HandlersState

/-- Construction; `epics_io_client.cpp:86`. -/
def new : HandlersState V := ⟨none, none, none, none, [], fun _ ↦ none, [], []⟩

/-- Change the entry of a thread. -/
def setHandler (s : HandlersState V) (handler : Nat) (h : ServerInputHandler V) :
    HandlersState V :=
  { s with handlers := Function.update s.handlers handler (some h) }

/-- The delegator that is being destroyed, or the one in `m_reply_delegator`. -/
def delegator (s : HandlersState V) (replaced : Bool) : Option (BoundDelegator V) :=
  if replaced then s.replaced else s.replyDelegator

/-- Change one of the two delegators. -/
def setDelegator (s : HandlersState V) (replaced : Bool) (d : BoundDelegator V) :
    HandlersState V :=
  if replaced then { s with replaced := some d } else { s with replyDelegator := some d }

/-- `AddInputHandler` with a new name, up to the assignment to `m_input_client`;
`epics_io_client.cpp:114`. -/
def addInputHandler (s : HandlersState V) (inputServerName : String) :
    Option (HandlersState V) :=
  match s.adding with
  | some _ => none
  | none =>
    if inputServerName ∈ s.clientPvs then
      none
    else
      some { s with
        inputClient := some inputServerName
        adding := some (inputServerName, .clientReplaced)
        history := s.history ++ [.replaceClient (s.replyDelegator.bind (·.sending))] }

/-- The new delegator is assigned; `epics_io_client.cpp:118`. -/
def replaceDelegator (s : HandlersState V) : Option (HandlersState V) :=
  match s.adding with
  | some (inputServerName, .clientReplaced) =>
    some { s with
      replyDelegator := some (.new inputServerName)
      replaced := s.replyDelegator
      adding := some (inputServerName, .delegatorReplaced) }
  | _ => none

/-- `AddInputHandler` behind the destructor of the replaced delegator;
`epics_io_client.cpp:119`. -/
def join (s : HandlersState V) : Option (HandlersState V) :=
  match s.adding, s.replaced with
  | some (inputServerName, .delegatorReplaced), none =>
    some { s with adding := none, clientPvs := s.clientPvs ++ [inputServerName] }
  | some (inputServerName, .delegatorReplaced), some d =>
    match d.state.worker with
    | .exited =>
      some { s with
        replaced := none
        adding := none
        clientPvs := s.clientPvs ++ [inputServerName]
        history := s.history ++ [.destroyDelegator d.state.replyQueue] }
    | _ => none
  | _, _ => none

/-- `HandleUserInput` of a value that is no request; `epics_io_client.cpp:161`. -/
def cancel (s : HandlersState V) (inputServerName : String) : Option (HandlersState V) :=
  s.replyDelegator.bind fun d ↦
    (d.step .interruptAll).map fun interrupted ↦
      { s with
        replyDelegator := some interrupted
        managerCalls :=
          s.managerCalls ++ interruptCalls d.inputServerName interrupted.state.history
        history := s.history ++ [d.cancelEvent inputServerName] }

/-- `HandleUserInput` of a request, up to the call of `GetUserInput`;
`epics_io_client.cpp:164`. -/
def request (s : HandlersState V) (handler : Nat) (inputServerName : String) (id : UInt64)
    (inputRequest : UserInputRequest V) : Option (HandlersState V) :=
  match s.handlers handler with
  | some _ => none
  | none =>
    some (setHandler
      { s with
        managerCalls := s.managerCalls ++ [.getUserInput inputServerName id inputRequest] }
      handler ⟨inputServerName, ⟨id, .running⟩⟩)

/-- `HandleUserInput` behind `GetUserInput`; `epics_io_client.cpp:165`. -/
def queueReply (s : HandlersState V) (handler : Nat) : Option (HandlersState V) :=
  match s.handlers handler with
  | some ⟨inputServerName, ⟨id, .returned reply⟩⟩ =>
    s.replyDelegator.bind fun d ↦
      (d.queueReply inputServerName id reply).map fun queued ↦
        setHandler { s with replyDelegator := some queued } handler
          ⟨inputServerName, ⟨id, .done⟩⟩
  | _ => none

/-- A step of one of the delegators that is not `InterruptAll`. -/
def stepDelegator (s : HandlersState V) (replaced : Bool) (a : DelegatorAction V)
    (events : BoundDelegator V → List (HandlersEvent V)) : Option (HandlersState V) :=
  (s.delegator replaced).bind fun d ↦
    (d.step a).map fun moved ↦
      { s.setDelegator replaced moved with history := s.history ++ events d }

end HandlersState

variable [AnyValue V] [OacTree V]

/-- The client with all threads that call it. -/
def handlersMachine : Machine (HandlersState V) (HandlersAction V) where
  step s
    | .addInputHandler inputServerName => s.addInputHandler inputServerName
    | .replaceDelegator => s.replaceDelegator
    | .halt => s.stepDelegator true .halt fun _ ↦ []
    | .join => s.join
    | .handleUserInput handler inputServerName reqAv =>
      if inputServerName ∈ s.clientPvs then
        match requestOf reqAv with
        | .error _ => none
        | .ok none => s.cancel inputServerName
        | .ok (some (id, inputRequest)) => s.request handler inputServerName id inputRequest
      else
        none
    | .getUserInputReturns handler reply =>
      match s.handlers handler with
      | some ⟨inputServerName, ⟨id, .running⟩⟩ =>
        some (s.setHandler handler ⟨inputServerName, ⟨id, .returned reply⟩⟩)
      | _ => none
    | .queueReply handler => s.queueReply handler
    | .interruptDone replaced => s.stepDelegator replaced .interruptDone fun _ ↦ []
    | .advance replaced => s.stepDelegator replaced .advance (·.sendEvents s.inputClient)

/-- Replies go back to the input server that asked: no client is destroyed while it sends a reply,
a reply is sent through the client of its input server, a cancel drops and interrupts replies of
its input server only, and no reply is left when a delegator ends. -/
def HandlersEvent.Proper : HandlersEvent V → Prop
  | .replaceClient sending => sending = none
  | .sendReply client origin _ => ∃ name, client = some name ∧ origin = some name
  | .cancel name dropped interrupted =>
    (∀ origin ∈ dropped, origin = some name) ∧ ∀ p ∈ interrupted, p = (name, some name)
  | .destroyDelegator left => left = []

/-- A handler is added only while no reply is to be sent, a reply is queued only while the
delegator and the input client are those of its input server, and an input server cancels only
while the delegator is its own or has nothing to drop or to interrupt. -/
def HandledInTime (s : HandlersState V) : HandlersAction V → Prop
  | .addInputHandler _ => ∀ d ∈ s.replyDelegator, d.Quiet
  | .handleUserInput _ inputServerName reqAv =>
    requestOf reqAv = .ok none → ∀ d ∈ s.replyDelegator,
      inputServerName = d.inputServerName ∨ (d.state.replyQueue = [] ∧ d.state.activeId = 0)
  | .queueReply handler => ∀ h ∈ s.handlers handler, ∀ d ∈ s.replyDelegator,
      h.inputServerName = d.inputServerName ∧ s.inputClient = some d.inputServerName
  | _ => True

/-- Whether a value cancels can be computed. -/
instance decidableCancels (reqAv : V) : Decidable (requestOf reqAv = .ok none) :=
  match requestOf reqAv with
  | .ok none => isTrue rfl
  | .ok (some _) => isFalse nofun
  | .error _ => isFalse nofun

omit [AnyValue V] [OacTree V] in
/-- Whether a delegator is quiet can be computed. -/
instance decidableQuiet (d : BoundDelegator V) : Decidable d.Quiet :=
  inferInstanceAs (Decidable (_ ∧ _ ∧ _))

/-- Whether a step is in time can be computed. -/
instance decidableHandledInTime (s : HandlersState V) :
    (a : HandlersAction V) → Decidable (HandledInTime s a)
  | .addInputHandler _ => inferInstanceAs (Decidable (∀ d ∈ s.replyDelegator, d.Quiet))
  | .handleUserInput _ inputServerName reqAv =>
    inferInstanceAs (Decidable (requestOf reqAv = .ok none → ∀ d ∈ s.replyDelegator,
      inputServerName = d.inputServerName ∨ (d.state.replyQueue = [] ∧ d.state.activeId = 0)))
  | .queueReply handler =>
    inferInstanceAs (Decidable (∀ h ∈ s.handlers handler, ∀ d ∈ s.replyDelegator,
      h.inputServerName = d.inputServerName ∧ s.inputClient = some d.inputServerName))
  | .replaceDelegator | .halt | .join | .getUserInputReturns _ _ | .interruptDone _
  | .advance _ => isTrue trivial

end Definitions

variable {V : Type}

/-- Everything that a step of the client can do. -/
inductive HandlersStep [AnyValue V] [OacTree V] (s : HandlersState V) :
    HandlersAction V → HandlersState V → Prop where
  | addInputHandler {name} : s.adding = none → name ∉ s.clientPvs →
      HandlersStep s (.addInputHandler name)
        { s with
          inputClient := some name
          adding := some (name, .clientReplaced)
          history := s.history ++ [.replaceClient (s.replyDelegator.bind (·.sending))] }
  | replaceDelegator {name} : s.adding = some (name, .clientReplaced) →
      HandlersStep s .replaceDelegator
        { s with
          replyDelegator := some (.new name)
          replaced := s.replyDelegator
          adding := some (name, .delegatorReplaced) }
  | joinNone {name} : s.adding = some (name, .delegatorReplaced) → s.replaced = none →
      HandlersStep s .join { s with adding := none, clientPvs := s.clientPvs ++ [name] }
  | join {name d} : s.adding = some (name, .delegatorReplaced) → s.replaced = some d →
      HandlersStep s .join
        { s with
          replaced := none
          adding := none
          clientPvs := s.clientPvs ++ [name]
          history := s.history ++ [.destroyDelegator d.state.replyQueue] }
  | cancel {handler name reqAv d interrupted} : name ∈ s.clientPvs →
      requestOf reqAv = .ok none → s.replyDelegator = some d →
      d.step .interruptAll = some interrupted →
      HandlersStep s (.handleUserInput handler name reqAv)
        { s with
          replyDelegator := some interrupted
          managerCalls :=
            s.managerCalls ++ interruptCalls d.inputServerName interrupted.state.history
          history := s.history ++ [d.cancelEvent name] }
  | request {handler name reqAv id inputRequest} : name ∈ s.clientPvs →
      requestOf reqAv = .ok (some (id, inputRequest)) → s.handlers handler = none →
      HandlersStep s (.handleUserInput handler name reqAv) (HandlersState.setHandler
        { s with managerCalls := s.managerCalls ++ [.getUserInput name id inputRequest] }
        handler ⟨name, ⟨id, .running⟩⟩)
  | getUserInputReturns {handler name id reply} :
      s.handlers handler = some ⟨name, ⟨id, .running⟩⟩ →
      HandlersStep s (.getUserInputReturns handler reply)
        (s.setHandler handler ⟨name, ⟨id, .returned reply⟩⟩)
  | queueReply {handler name id reply d queued} :
      s.handlers handler = some ⟨name, ⟨id, .returned reply⟩⟩ → s.replyDelegator = some d →
      d.queueReply name id reply = some queued →
      HandlersStep s (.queueReply handler) (HandlersState.setHandler
        { s with replyDelegator := some queued } handler ⟨name, ⟨id, .done⟩⟩)
  /-- The other steps are those of a delegator. -/
  | delegator {replaced a b d moved events} : a.ofDelegator = some (replaced, b) →
      s.delegator replaced = some d → d.step b = some moved →
      (events = [] ∨ events = d.sendEvents s.inputClient) →
      HandlersStep s a { s.setDelegator replaced moved with history := s.history ++ events }

section Steps

variable [AnyValue V] [OacTree V]

omit [AnyValue V] [OacTree V] in
/-- A delegator queues nothing without the client. -/
theorem ne_queueReply_of_ofDelegator {a : HandlersAction V} {replaced : Bool}
    {b : DelegatorAction V} (h : a.ofDelegator = some (replaced, b)) (id : UInt64)
    (reply : UserInputReply V) : b ≠ .queueReply id reply := by
  rintro rfl
  cases a <;> cases h

omit [AnyValue V] [OacTree V] in
/-- A step of a delegator is one of its machine. -/
private theorem stepDelegator_eq_some {s t : HandlersState V} {replaced : Bool}
    {a : DelegatorAction V} {events : BoundDelegator V → List (HandlersEvent V)}
    (h : s.stepDelegator replaced a events = some t) :
    ∃ d moved, s.delegator replaced = some d ∧ d.step a = some moved ∧
      t = { s.setDelegator replaced moved with history := s.history ++ events d } := by
  obtain ⟨d, hd, hmap⟩ := Option.bind_eq_some_iff.mp h
  obtain ⟨moved, hmoved, rfl⟩ := Option.map_eq_some_iff.mp hmap
  exact ⟨d, moved, hd, hmoved, rfl⟩

/-- The computed steps of the client are those above. -/
theorem handlersStep_of_step {s t : HandlersState V} {a : HandlersAction V}
    (h : handlersMachine.step s a = some t) : HandlersStep s a t := by
  cases a with
  | addInputHandler name =>
    simp only [handlersMachine, HandlersState.addInputHandler] at h
    split at h
    · cases h
    · next hadding =>
      split at h
      · cases h
      · next hname =>
        cases h
        exact .addInputHandler hadding hname
  | replaceDelegator =>
    simp only [handlersMachine, HandlersState.replaceDelegator] at h
    split at h
    · next hadding =>
      cases h
      exact .replaceDelegator hadding
    · cases h
  | halt =>
    obtain ⟨d, moved, hd, hmoved, rfl⟩ := stepDelegator_eq_some h
    exact .delegator rfl hd hmoved (.inl rfl)
  | join =>
    simp only [handlersMachine, HandlersState.join] at h
    split at h
    · next hadding hreplaced =>
      cases h
      exact .joinNone hadding hreplaced
    · next hadding hreplaced =>
      split at h
      · cases h
        exact .join hadding hreplaced
      · cases h
    · cases h
  | handleUserInput handler name reqAv =>
    simp only [handlersMachine] at h
    split at h
    · next hmonitored =>
      split at h
      · cases h
      · next hnone =>
        obtain ⟨d, hd, hmap⟩ := Option.bind_eq_some_iff.mp h
        obtain ⟨interrupted, hstep, rfl⟩ := Option.map_eq_some_iff.mp hmap
        exact .cancel hmonitored hnone hd hstep
      · next id inputRequest hsome =>
        rw [HandlersState.request] at h
        split at h
        · cases h
        · next hfresh =>
          cases h
          exact .request hmonitored hsome hfresh
    · cases h
  | getUserInputReturns handler reply =>
    simp only [handlersMachine] at h
    split at h
    · next hrunning =>
      cases h
      exact .getUserInputReturns hrunning
    · cases h
  | queueReply handler =>
    simp only [handlersMachine, HandlersState.queueReply] at h
    split at h
    · next hreturned =>
      obtain ⟨d, hd, hmap⟩ := Option.bind_eq_some_iff.mp h
      obtain ⟨queued, hstep, rfl⟩ := Option.map_eq_some_iff.mp hmap
      exact .queueReply hreturned hd hstep
    · cases h
  | interruptDone replaced =>
    obtain ⟨d, moved, hd, hmoved, rfl⟩ := stepDelegator_eq_some h
    exact .delegator rfl hd hmoved (.inl rfl)
  | advance replaced =>
    obtain ⟨d, moved, hd, hmoved, rfl⟩ := stepDelegator_eq_some h
    exact .delegator rfl hd hmoved (.inr rfl)

/-- The step that a client with several handlers takes for the one with this input server. The
delegator is halted only when it is replaced. -/
def IoClientAction.ofServer (inputServerName : String) :
    IoClientAction V → Option (HandlersAction V)
  | .handleUserInput handler reqAv => some (.handleUserInput handler inputServerName reqAv)
  | .getUserInputReturns handler reply => some (.getUserInputReturns handler reply)
  | .queueReply handler => some (.queueReply handler)
  | .interruptDone => some (.interruptDone false)
  | .halt => none
  | .advance => some (.advance false)

/-- The client with one handler is what the client with several handlers is while no other one is
added. -/
structure OneHandler (s : IoClientState V) (t : HandlersState V) : Prop where
  clientPvs : s.inputServerName ∈ t.clientPvs
  replyDelegator : ∃ origins, t.replyDelegator = some ⟨s.inputServerName, s.delegator, origins⟩
  handlers : ∀ handler,
    t.handlers handler = (s.handlers handler).map (ServerInputHandler.mk s.inputServerName)
  managerCalls : t.managerCalls = s.managerCalls

namespace OneHandler

omit [AnyValue V] [OacTree V] in
/-- A call of `HandleUserInput` goes on in both clients. -/
private theorem handlers_update {s : IoClientState V} {t : HandlersState V} (h : OneHandler s t)
    (handler : Nat) (call : InputHandler V) (other : Nat) :
    Function.update t.handlers handler (some ⟨s.inputServerName, call⟩) other =
      (Function.update s.handlers handler (some call) other).map
        (ServerInputHandler.mk s.inputServerName) := by
  by_cases heq : other = handler
  · rw [heq, Function.update_self, Function.update_self]
    rfl
  · rw [Function.update_of_ne heq, Function.update_of_ne heq, h.handlers]

omit [AnyValue V] [OacTree V] in
/-- A section of the delegator is a step of both clients. -/
private theorem stepDelegator {s : IoClientState V} {t : HandlersState V} (h : OneHandler s t)
    {a : DelegatorAction V} {delegator : DelegatorState V}
    (hstep : delegatorMachine.step s.delegator a = some delegator)
    (events : BoundDelegator V → List (HandlersEvent V)) :
    ∃ t', t.stepDelegator false a events = some t' ∧
      OneHandler { s with delegator := delegator } t' := by
  rcases h.replyDelegator with ⟨origins, hd⟩
  have hslot : t.delegator false = some ⟨s.inputServerName, s.delegator, origins⟩ := hd
  unfold HandlersState.stepDelegator BoundDelegator.step
  rw [hslot, Option.bind_some, hstep]
  exact ⟨_, rfl, h.clientPvs, ⟨origins, rfl⟩, h.handlers, h.managerCalls⟩

/-- With one handler, the client with several handlers takes the steps of the one with one. -/
theorem step {s s' : IoClientState V} {t : HandlersState V} (h : OneHandler s t)
    {a : IoClientAction V} {b : HandlersAction V} (hb : a.ofServer s.inputServerName = some b)
    (hstep : ioClientMachine.step s a = some s') :
    ∃ t', handlersMachine.step t b = some t' ∧ OneHandler s' t' := by
  rcases h.replyDelegator with ⟨origins, hd⟩
  cases a with
  | handleUserInput handler reqAv =>
    cases hb
    simp only [handlersMachine, if_pos h.clientPvs]
    simp only [ioClientMachine] at hstep
    cases hrequest : requestOf reqAv with
    | error e =>
      rw [hrequest] at hstep
      cases hstep
    | ok result =>
      rw [hrequest] at hstep
      cases result with
      | none =>
        rcases Option.map_eq_some_iff.mp hstep with ⟨delegator, hdelegator, rfl⟩
        have hinterrupt : delegatorMachine.step s.delegator .interruptAll = some delegator :=
          hdelegator
        dsimp only
        rw [HandlersState.cancel, hd, Option.bind_some, BoundDelegator.step, hinterrupt]
        refine ⟨_, rfl, h.clientPvs, ⟨origins, rfl⟩, h.handlers, ?_⟩
        dsimp only
        rw [h.managerCalls]
      | some p =>
        dsimp only at hstep ⊢
        unfold IoClientState.request at hstep
        unfold HandlersState.request
        rw [h.handlers handler]
        cases hhandler : s.handlers handler with
        | some call =>
          rw [hhandler] at hstep
          cases hstep
        | none =>
          rw [hhandler] at hstep
          cases hstep
          refine ⟨_, rfl, h.clientPvs, ⟨origins, hd⟩, h.handlers_update handler _, ?_⟩
          change t.managerCalls ++ _ = s.managerCalls ++ _
          rw [h.managerCalls]
  | getUserInputReturns handler reply =>
    cases hb
    simp only [ioClientMachine] at hstep
    simp only [handlersMachine, h.handlers handler]
    split at hstep
    · next id hrunning =>
      cases hstep
      rw [hrunning]
      exact ⟨_, rfl, h.clientPvs, ⟨origins, hd⟩, h.handlers_update handler _, h.managerCalls⟩
    · cases hstep
  | queueReply handler =>
    cases hb
    simp only [ioClientMachine, IoClientState.queueReply] at hstep
    simp only [handlersMachine, HandlersState.queueReply, h.handlers handler]
    split at hstep
    · next id reply hreturned =>
      rcases Option.map_eq_some_iff.mp hstep with ⟨delegator, hdelegator, rfl⟩
      rw [hreturned]
      dsimp only [Option.map_some]
      rw [hd, Option.bind_some, BoundDelegator.queueReply, hdelegator]
      exact ⟨_, rfl, h.clientPvs, ⟨_, rfl⟩, h.handlers_update handler _, h.managerCalls⟩
    · cases hstep
  | interruptDone =>
    cases hb
    rcases Option.map_eq_some_iff.mp hstep with ⟨delegator, hdelegator, rfl⟩
    exact h.stepDelegator hdelegator _
  | halt => cases hb
  | advance =>
    cases hb
    rcases Option.map_eq_some_iff.mp hstep with ⟨delegator, hdelegator, rfl⟩
    have hadvance : delegatorMachine.step s.delegator .advance = some delegator := hdelegator
    exact h.stepDelegator hadvance _

/-- So it does in runs in which the client is not destroyed. -/
theorem run {s s' : IoClientState V} {t : HandlersState V} (h : OneHandler s t)
    {actions : List (IoClientAction V)} (hhalt : .halt ∉ actions)
    (hrun : ioClientMachine.run s actions = some s') :
    ∃ t', handlersMachine.run t
        (actions.filterMap (IoClientAction.ofServer s.inputServerName)) = some t' ∧
      OneHandler s' t' := by
  induction actions generalizing s t with
  | nil =>
    cases hrun
    exact ⟨t, rfl, h⟩
  | cons a actions ih =>
    rcases ioClientMachine.run_cons_eq_some.mp hrun with ⟨r, hstep, hrest⟩
    rw [List.mem_cons, not_or] at hhalt
    have hname : r.inputServerName = s.inputServerName := by
      cases ioClientStep_of_step hstep <;> rfl
    cases hb : a.ofServer s.inputServerName with
    | none =>
      cases a with
      | halt => exact absurd rfl hhalt.1
      | _ => cases hb
    | some b =>
      rcases h.step hb hstep with ⟨t₁, ht₁, h₁⟩
      rcases ih h₁ hhalt.2 hrest with ⟨t', ht', h'⟩
      refine ⟨t', ?_, h'⟩
      rw [List.filterMap_cons, hb, ← hname]
      exact handlersMachine.run_cons_eq_some.mpr ⟨t₁, ht₁, ht'⟩

end OneHandler

/-- A run of the client with one handler is one of the client with several handlers, to which
the only one is added first. -/
theorem run_of_ioClient {inputServerName : String} {actions : List (IoClientAction V)}
    (hhalt : .halt ∉ actions) {s : IoClientState V}
    (hrun : ioClientMachine.run (.start inputServerName) actions = some s) :
    ∃ t, handlersMachine.run .new
        ([.addInputHandler inputServerName, .replaceDelegator, .join] ++
          actions.filterMap (IoClientAction.ofServer inputServerName)) = some t ∧
      OneHandler s t := by
  have hstart : ∃ t : HandlersState V, handlersMachine.run .new
      [.addInputHandler inputServerName, .replaceDelegator, .join] = some t ∧
        OneHandler (.start inputServerName) t :=
    ⟨_, rfl, List.mem_singleton_self inputServerName, ⟨[], rfl⟩, fun _ ↦ rfl, rfl⟩
  rcases hstart with ⟨t, ht, h⟩
  rcases h.run hhalt hrun with ⟨t', ht', h'⟩
  refine ⟨t', ?_, h'⟩
  rw [Machine.run_append, ht, Option.bind_some]
  exact ht'

end Steps

end OacTreeServer.Epics
