import Mathlib.Logic.Function.Basic
import OacTreeServer.Input.RequestServer
import OacTreeServer.Library.History

/-!
# Requests on several servers and their history

What is to be known about replies and interrupts when every request has an id of its
own: a legible account of all request servers beside the history of the locked sections
that they went through. The manager's concurrent implementation takes these steps only,
so the invariant below holds in each of its runs.
-/

namespace OacTreeServer.Input
open OacTreeServer.External OacTreeServer.Library

/-- One section under the lock of a request server, with the server's name. -/
inductive RequestEvent (V : Type) where
  | initNewRequest (name : String) (id : UInt64)
  | setClientReply (name : String) (id : UInt64) (reply : UserInputReply V) (accepted : Bool)
  | interrupt (name : String) (id : UInt64)
  /-- The section in which `WaitForReply` returns. -/
  | waitForReply (name : String) (id : UInt64)
  deriving DecidableEq, Repr

/-- The request servers by name and the history of their sections. -/
structure Requests (V : Type) where
  server : String → Option (InputRequestServer V)
  history : List (RequestEvent V)

/-- One section changes one server and is recorded. -/
def Requests.record {V : Type} (q : Requests V) (name : String) (server : InputRequestServer V)
    (event : RequestEvent V) : Requests V :=
  { server := Function.update q.server name (some server), history := q.history ++ [event] }

/-- The server that went through a section. -/
theorem Requests.record_self {V : Type} (q : Requests V) (name : String)
    (server : InputRequestServer V) (event : RequestEvent V) :
    (q.record name server event).server name = some server := Function.update_self ..

/-- A section of one server does not change another. -/
theorem Requests.record_of_ne {V : Type} (q : Requests V) {name other : String}
    (hn : other ≠ name) (server : InputRequestServer V) (event : RequestEvent V) :
    (q.record name server event).server other = q.server other := Function.update_of_ne hn ..

/-- The sections that the servers can go through when no id is used twice. -/
inductive RequestStep {V : Type} [OacTree V] : Requests V → Requests V → Prop where
  /-- A server is registered under a new name. -/
  | register {q name} : q.server name = none →
      RequestStep q { q with server := Function.update q.server name (some .new) }
  | initNewRequest {q name server id} : q.server name = some server → id ≠ 0 →
      (∀ other, .initNewRequest other id ∉ q.history) →
      RequestStep q (q.record name (server.initNewRequest id) (.initNewRequest name id))
  | setClientReply {q name server id reply} : q.server name = some server →
      RequestStep q (q.record name (server.setClientReply id reply).2
        (.setClientReply name id reply (server.setClientReply id reply).1))
  | interrupt {q name server id} : q.server name = some server →
      RequestStep q (q.record name (server.interrupt id) (.interrupt name id))
  /-- An interrupt under a name that is not registered has no effect. -/
  | interruptUnknown {q name id} : q.server name = none →
      RequestStep q { q with history := q.history ++ [.interrupt name id] }
  | waitForReply {q name id} : .initNewRequest name id ∈ q.history →
      RequestStep q { q with history := q.history ++ [.waitForReply name id] }

variable {V : Type} [OacTree V]

/-- What the three members of one server say about the history. -/
structure ServerInv (history : List (RequestEvent V)) (name : String)
    (server : InputRequestServer V) : Prop where
  /-- The current request was initiated. -/
  armed : server.requestId ≠ 0 → .initNewRequest name server.requestId ∈ history
  /-- The current request is the one that was initiated last. -/
  latest : ∀ {id}, .initNewRequest name id ∈ history → (server.requestId = id ↔
    ∀ other, ¬ Before history (.initNewRequest name id) (.initNewRequest name other))
  /-- The slot holds a reply that was accepted for the current request. -/
  reply : isValid server.reply = true → server.requestId ≠ 0 ∧
    Before history (.initNewRequest name server.requestId)
      (.setClientReply name server.requestId server.reply true)
  /-- The flag is set exactly when the current request was interrupted. -/
  interrupted : server.requestId ≠ 0 → (server.interrupted = true ↔
    Before history (.initNewRequest name server.requestId) (.interrupt name server.requestId))

/-- The accepted replies to one request. -/
def acceptedReplies (id : UInt64) (history : List (RequestEvent V)) : List (RequestEvent V) :=
  history.filter fun
    | .setClientReply _ other _ true => other = id
    | _ => false

/-- What the history says about the servers, and what it can contain. -/
structure RequestsInv (q : Requests V) : Prop where
  server : ∀ {name server}, q.server name = some server → ServerInv q.history name server
  init_ne_zero : ∀ {name id}, .initNewRequest name id ∈ q.history → id ≠ 0
  init_registered : ∀ {name id}, .initNewRequest name id ∈ q.history → (q.server name).isSome
  /-- An id is used for one request on one server. -/
  init_unique : ∀ {name other id}, .initNewRequest name id ∈ q.history →
    .initNewRequest other id ∈ q.history → name = other
  /-- An accepted reply is valid, was sent after the request began, and stays in the slot
  as long as the request is the current one. -/
  accepted : ∀ {name id reply}, .setClientReply name id reply true ∈ q.history →
    isValid reply = true ∧
    Before q.history (.initNewRequest name id) (.setClientReply name id reply true) ∧
    ∃ server, q.server name = some server ∧ (server.requestId = id → server.reply = reply)
  accepted_once : ∀ id, (acceptedReplies id q.history).length ≤ 1
  /-- Only an initiated request is waited for. -/
  waited : ∀ {name id}, .waitForReply name id ∈ q.history → .initNewRequest name id ∈ q.history

/-- Events of other servers do not matter to a server. -/
theorem ServerInv.concat {history : List (RequestEvent V)} {name : String}
    {server : InputRequestServer V} (h : ServerInv history name server)
    {event : RequestEvent V} (hi : ∀ id, event ≠ .initNewRequest name id)
    (he : ∀ id, event ≠ .interrupt name id) : ServerInv (history ++ [event]) name server where
  armed hid := List.mem_append_left _ (h.armed hid)
  latest {id} hm := by
    have hold : .initNewRequest name id ∈ history :=
      (List.mem_append.mp hm).resolve_right fun hnew ↦ hi id (List.mem_singleton.mp hnew).symm
    rw [h.latest hold]
    refine forall_congr' fun other ↦ not_congr ?_
    rw [Before.concat_iff]
    exact ⟨.inl, fun hb ↦ hb.resolve_right fun hnew ↦ hi other hnew.2.symm⟩
  reply hv := ⟨(h.reply hv).1, (h.reply hv).2.append _⟩
  interrupted hid := by
    rw [h.interrupted hid, Before.concat_iff]
    exact ⟨.inl, fun hb ↦ hb.resolve_right fun hi ↦ he _ hi.2.symm⟩

/-- A new server has no request. -/
theorem ServerInv.new [LawfulOacTree V] {history : List (RequestEvent V)} {name : String}
    (hnew : ∀ id, .initNewRequest name id ∉ history) :
    ServerInv history name (InputRequestServer.new : InputRequestServer V) where
  armed hid := absurd rfl hid
  latest {id} hm := absurd hm (hnew id)
  reply hv := by
    simp [InputRequestServer.new, isValid, LawfulOacTree.requestType_kInvalidUserInputReply] at hv
  interrupted hid := absurd rfl hid

/-- The invalid reply leaves the slot empty. -/
theorem isValid_kInvalidUserInputReply [LawfulOacTree V] :
    isValid (OacTree.kInvalidUserInputReply : UserInputReply V) = false := by
  simp [isValid, LawfulOacTree.requestType_kInvalidUserInputReply]

/-- A new request starts with an empty slot and without an interrupt. -/
theorem ServerInv.initNewRequest [LawfulOacTree V] {history : List (RequestEvent V)}
    {name : String} {id : UInt64} (hfresh : .initNewRequest name id ∉ history)
    (server : InputRequestServer V) :
    ServerInv (history ++ [.initNewRequest name id]) name (server.initNewRequest id) where
  armed _ := List.mem_append_right _ (List.mem_singleton_self _)
  latest {other} hm := by
    cases List.mem_append.mp hm with
    | inl hold =>
      have hne : id ≠ other := by
        rintro rfl
        exact hfresh hold
      refine iff_of_false hne fun hlast ↦ ?_
      exact hlast id (Before.concat hold _)
    | inr hnew =>
      cases List.mem_singleton.mp hnew
      refine iff_of_true rfl fun later hb ↦ ?_
      rcases Before.concat_iff.mp hb with hb | ⟨hold, -⟩
      · exact hfresh hb.fst_mem
      · exact hfresh hold
  reply hv := by
    rw [InputRequestServer.initNewRequest, isValid_kInvalidUserInputReply] at hv
    cases hv
  interrupted _ := by
    simp only [InputRequestServer.initNewRequest, Before.concat_iff, Bool.false_eq_true,
      reduceCtorEq, and_false, or_false, false_iff]
    exact fun hb ↦ hfresh hb.fst_mem

/-- A reply is refused, or it fills the slot of the current request. -/
theorem ServerInv.setClientReply {history : List (RequestEvent V)} {name : String}
    {server : InputRequestServer V} (h : ServerInv history name server) (id : UInt64)
    (reply : UserInputReply V) :
    ServerInv (history ++ [.setClientReply name id reply (server.setClientReply id reply).1])
      name (server.setClientReply id reply).2 := by
  cases ha : (server.setClientReply id reply).1 with
  | false =>
    rw [InputRequestServer.setClientReply_of_refused ha]
    exact h.concat nofun nofun
  | true =>
    obtain ⟨hid, -, rfl, -⟩ := InputRequestServer.setClientReply_fst.mp ha
    rw [InputRequestServer.setClientReply_of_accepted ha]
    have hc : ServerInv (history ++ [.setClientReply name server.requestId reply true]) name
        server := h.concat nofun nofun
    exact ⟨hc.armed, hc.latest, fun _ ↦ ⟨hid, Before.concat (h.armed hid) _⟩, hc.interrupted⟩

/-- An interrupt sets the flag of its own request only. -/
theorem ServerInv.interrupt {history : List (RequestEvent V)} {name : String}
    {server : InputRequestServer V} (h : ServerInv history name server) (id : UInt64) :
    ServerInv (history ++ [.interrupt name id]) name (server.interrupt id) where
  armed hid := by
    rw [InputRequestServer.interrupt_requestId] at hid ⊢
    exact List.mem_append_left _ (h.armed hid)
  latest {other} hm := by
    have hold : .initNewRequest name other ∈ history := by simpa using hm
    rw [InputRequestServer.interrupt_requestId, h.latest hold]
    simp [Before.concat_iff]
  reply hv := by
    rw [InputRequestServer.interrupt_reply] at hv ⊢
    rw [InputRequestServer.interrupt_requestId]
    exact ⟨(h.reply hv).1, (h.reply hv).2.append _⟩
  interrupted hid := by
    rw [InputRequestServer.interrupt_requestId] at hid ⊢
    rw [InputRequestServer.interrupt_interrupted, h.interrupted hid, Before.concat_iff]
    simp [h.armed hid]

/-- A section of one server keeps what holds of every server. -/
private theorem server_record {q : Requests V} (h : RequestsInv q) {name : String}
    {server : InputRequestServer V} {event : RequestEvent V}
    (hown : ServerInv (q.history ++ [event]) name server)
    (hi : ∀ other, other ≠ name → ∀ id, event ≠ .initNewRequest other id)
    (he : ∀ other, other ≠ name → ∀ id, event ≠ .interrupt other id)
    {other : String} {t : InputRequestServer V}
    (ht : (q.record name server event).server other = some t) :
    ServerInv (q.record name server event).history other t := by
  by_cases hn : other = name
  · subst hn
    rw [Requests.record_self] at ht
    cases ht
    exact hown
  · rw [Requests.record_of_ne q hn] at ht
    exact (h.server ht).concat (hi other hn) (he other hn)

/-- Events other than accepted replies leave the accepted replies as they are. -/
private theorem accepted_record {q : Requests V} (h : RequestsInv q) {name : String}
    {server next : InputRequestServer V} {event : RequestEvent V}
    (hs : q.server name = some server)
    (hkeep : ∀ id reply, .setClientReply name id reply true ∈ q.history →
      (server.requestId = id → server.reply = reply) → next.requestId = id → next.reply = reply)
    {other : String} {id : UInt64} {reply : UserInputReply V}
    (hm : .setClientReply other id reply true ∈ q.history) :
    isValid reply = true ∧
    Before (q.record name next event).history (.initNewRequest other id)
      (.setClientReply other id reply true) ∧
    ∃ t, (q.record name next event).server other = some t ∧
      (t.requestId = id → t.reply = reply) := by
  obtain ⟨hv, hb, t, ht, hslot⟩ := h.accepted hm
  refine ⟨hv, hb.append _, ?_⟩
  by_cases hn : other = name
  · subst hn
    rw [hs] at ht
    cases ht
    exact ⟨next, q.record_self .., hkeep id reply hm hslot⟩
  · exact ⟨t, by rw [q.record_of_ne hn, ht], hslot⟩

/-- Events other than accepted replies add none. -/
private theorem acceptedReplies_concat {q : Requests V} (h : RequestsInv q)
    {event : RequestEvent V} (he : ∀ name id reply, event ≠ .setClientReply name id reply true)
    (id : UInt64) : (acceptedReplies id (q.history ++ [event])).length ≤ 1 := by
  have hnone : acceptedReplies id [event] = [] := by
    cases event with
    | setClientReply name other reply accepted =>
      cases accepted with
      | false => rfl
      | true => exact absurd rfl (he name other reply)
    | initNewRequest => rfl
    | interrupt => rfl
    | waitForReply => rfl
  have := h.accepted_once id
  unfold acceptedReplies at this hnone ⊢
  rwa [List.filter_append, hnone, List.append_nil]

omit [OacTree V] in
/-- Only the initiation of a request adds its event. -/
private theorem init_mem_record {q : Requests V} {name : String}
    {server : InputRequestServer V} {event : RequestEvent V}
    (he : ∀ name id, event ≠ .initNewRequest name id) {other : String} {id : UInt64}
    (hm : .initNewRequest other id ∈ (q.record name server event).history) :
    .initNewRequest other id ∈ q.history := by
  rcases List.mem_append.mp hm with hm | hm
  · exact hm
  · exact absurd (List.mem_singleton.mp hm).symm (he other id)

/-- A request is initiated on a server that there is. -/
private theorem registered_record {q : Requests V} (h : RequestsInv q) {name : String}
    {server : InputRequestServer V} {event : RequestEvent V}
    (he : ∀ other id, event = .initNewRequest other id → other = name) {other : String}
    {id : UInt64} (hm : .initNewRequest other id ∈ (q.record name server event).history) :
    ((q.record name server event).server other).isSome := by
  by_cases hn : other = name
  · rw [hn, Requests.record_self]
    rfl
  · rw [Requests.record_of_ne q hn]
    refine h.init_registered ((List.mem_append.mp hm).resolve_right fun hnew ↦ ?_)
    exact hn (he other id (List.mem_singleton.mp hnew).symm)

/-- Only `WaitForReply` adds its event. -/
private theorem waited_record {q : Requests V} (h : RequestsInv q) {name : String}
    {server : InputRequestServer V} {event : RequestEvent V}
    (he : ∀ name id, event ≠ .waitForReply name id) {other : String} {id : UInt64}
    (hm : .waitForReply other id ∈ (q.record name server event).history) :
    .initNewRequest other id ∈ (q.record name server event).history := by
  refine List.mem_append_left _ (h.waited ((List.mem_append.mp hm).resolve_right fun hnew ↦ ?_))
  exact he other id (List.mem_singleton.mp hnew).symm

/-- A new name keeps the invariant. -/
private theorem inv_register [LawfulOacTree V] {q : Requests V} (h : RequestsInv q) {name : String}
    (hn : q.server name = none) :
    RequestsInv { q with server := Function.update q.server name (some .new) } where
  server {other t} ht := by
    have ht : Function.update q.server name (some .new) other = some t := ht
    by_cases ho : other = name
    · subst ho
      rw [Function.update_self] at ht
      cases ht
      refine .new fun id hm ↦ ?_
      have hsome := h.init_registered hm
      rw [hn] at hsome
      cases hsome
    · rw [Function.update_of_ne ho] at ht
      exact h.server ht
  init_ne_zero := h.init_ne_zero
  init_registered {other id} hm := by
    change (Function.update q.server name (some .new) other).isSome
    rw [Function.update_apply]
    split
    · rfl
    · exact h.init_registered hm
  init_unique := h.init_unique
  accepted {other id reply} hm := by
    obtain ⟨hv, hb, t, ht, hslot⟩ := h.accepted hm
    have ho : other ≠ name := by
      rintro rfl
      rw [hn] at ht
      cases ht
    exact ⟨hv, hb, t, (Function.update_of_ne ho ..).trans ht, hslot⟩
  accepted_once := h.accepted_once
  waited := h.waited

/-- A new request keeps the invariant: its id is fresh. -/
private theorem inv_initNewRequest [LawfulOacTree V] {q : Requests V} (h : RequestsInv q)
    {name : String} {server : InputRequestServer V} {id : UInt64} (hs : q.server name = some server)
    (hid : id ≠ 0) (hfresh : ∀ other, .initNewRequest other id ∉ q.history) :
    RequestsInv (q.record name (server.initNewRequest id) (.initNewRequest name id)) where
  server ht := by
    refine server_record h (.initNewRequest (hfresh name) server) ?_ nofun ht
    intro other ho i he
    cases he
    exact ho rfl
  init_ne_zero {other i} hm := by
    rcases List.mem_append.mp hm with hm | hm
    · exact h.init_ne_zero hm
    · cases List.mem_singleton.mp hm
      exact hid
  init_registered hm := registered_record h (fun _ _ he ↦ by cases he; rfl) hm
  init_unique {other another i} hm hm' := by
    rcases List.mem_append.mp hm with hm | hm
    · rcases List.mem_append.mp hm' with hm' | hm'
      · exact h.init_unique hm hm'
      · cases List.mem_singleton.mp hm'
        exact absurd hm (hfresh other)
    · cases List.mem_singleton.mp hm
      rcases List.mem_append.mp hm' with hm' | hm'
      · exact absurd hm' (hfresh another)
      · cases List.mem_singleton.mp hm'
        rfl
  accepted {other i reply} hm := by
    have hm : .setClientReply other i reply true ∈ q.history := by simpa [Requests.record] using hm
    refine accepted_record h hs ?_ hm
    -- an id with an accepted reply was initiated before, so it is not the new one
    intro j r hj _ hji
    have hji : id = j := hji
    subst hji
    exact absurd (h.accepted hj).2.1.fst_mem (hfresh name)
  accepted_once i := acceptedReplies_concat h (by simp) i
  waited hm := waited_record h (by simp) hm

/-- A refused reply keeps the invariant. -/
private theorem inv_refused {q : Requests V} (h : RequestsInv q) {name : String}
    {server : InputRequestServer V} {id : UInt64} {reply : UserInputReply V}
    (hs : q.server name = some server) :
    RequestsInv (q.record name server (.setClientReply name id reply false)) where
  server ht := by
    have hown : ServerInv (q.history ++ [.setClientReply name id reply false]) name server :=
      (h.server hs).concat (by simp) (by simp)
    exact server_record h hown (by simp) (by simp) ht
  init_ne_zero hm := h.init_ne_zero (init_mem_record (by simp) hm)
  init_registered hm := registered_record h (by simp) hm
  init_unique hm hm' := h.init_unique (init_mem_record (by simp) hm) (init_mem_record (by simp) hm')
  accepted hm := by
    have hm := by simpa [Requests.record] using hm
    exact accepted_record h hs (fun _ _ _ hslot ↦ hslot) hm
  accepted_once i := acceptedReplies_concat h (by simp) i
  waited hm := waited_record h (by simp) hm

/-- The slot of the current request is empty only as long as no reply was accepted. -/
theorem RequestsInv.acceptedReplies_eq_nil {q : Requests V} (h : RequestsInv q) {name : String}
    {server : InputRequestServer V} (hs : q.server name = some server)
    (hid : server.requestId ≠ 0) (hv : isValid server.reply = false) :
    acceptedReplies server.requestId q.history = [] := by
  rw [acceptedReplies, List.filter_eq_nil_iff]
  intro event hm he
  cases event with
  | initNewRequest => cases he
  | interrupt => cases he
  | waitForReply => cases he
  | setClientReply other i reply accepted =>
    cases accepted with
    | false => cases he
    | true =>
      obtain rfl := of_decide_eq_true he
      obtain ⟨hvalid, hb, t, ht, hslot⟩ := h.accepted hm
      obtain rfl := h.init_unique hb.fst_mem ((h.server hs).armed hid)
      rw [hs] at ht
      cases ht
      rw [hslot rfl, hvalid] at hv
      cases hv

/-- An accepted reply keeps the invariant: it is the first for the current request. -/
private theorem inv_accepted {q : Requests V} (h : RequestsInv q) {name : String}
    {server : InputRequestServer V} {reply : UserInputReply V}
    (hs : q.server name = some server) (hid : server.requestId ≠ 0)
    (hreply : isValid reply = true) (hv : isValid server.reply = false)
    (hown : ServerInv (q.history ++ [.setClientReply name server.requestId reply true]) name
      { server with reply := reply }) :
    RequestsInv (q.record name { server with reply := reply }
      (.setClientReply name server.requestId reply true)) where
  server ht := server_record h hown nofun nofun ht
  init_ne_zero hm := h.init_ne_zero (init_mem_record (by simp) hm)
  init_registered hm := registered_record h (by simp) hm
  init_unique hm hm' := h.init_unique (init_mem_record (by simp) hm) (init_mem_record (by simp) hm')
  accepted {other i r} hm := by
    have hnone := h.acceptedReplies_eq_nil hs hid hv
    rcases List.mem_append.mp hm with hm | hm
    · refine accepted_record h hs ?_ hm
      -- the current request has no accepted reply yet
      intro j s hj _ hji
      have hji : server.requestId = j := hji
      subst hji
      have : .setClientReply name server.requestId s true ∈
          acceptedReplies server.requestId q.history := by
        simp [acceptedReplies, hj]
      rw [hnone] at this
      cases this
    · cases List.mem_singleton.mp hm
      exact ⟨hreply, Before.concat ((h.server hs).armed hid) _, _, q.record_self .., fun _ ↦ rfl⟩
  accepted_once i := by
    by_cases hi : server.requestId = i
    · subst hi
      have hnone := h.acceptedReplies_eq_nil hs hid hv
      unfold acceptedReplies at hnone ⊢
      rw [Requests.record, List.filter_append, hnone]
      simp
    · have := h.accepted_once i
      unfold acceptedReplies at this ⊢
      rw [Requests.record, List.filter_append]
      simpa [hi] using this
  waited hm := waited_record h (by simp) hm

/-- An interrupt keeps the invariant. -/
private theorem inv_interrupt {q : Requests V} (h : RequestsInv q) {name : String}
    {server : InputRequestServer V} {id : UInt64} (hs : q.server name = some server) :
    RequestsInv (q.record name (server.interrupt id) (.interrupt name id)) where
  server ht := by
    refine server_record h ((h.server hs).interrupt id) nofun ?_ ht
    intro other ho i he
    cases he
    exact ho rfl
  init_ne_zero hm := h.init_ne_zero (init_mem_record (by simp) hm)
  init_registered hm := registered_record h (by simp) hm
  init_unique hm hm' := h.init_unique (init_mem_record (by simp) hm) (init_mem_record (by simp) hm')
  accepted {other i r} hm := by
    have hm : .setClientReply other i r true ∈ q.history := by simpa [Requests.record] using hm
    refine accepted_record h hs ?_ hm
    intro j s _ hslot hj
    rw [InputRequestServer.interrupt_requestId] at hj
    rw [InputRequestServer.interrupt_reply]
    exact hslot hj
  accepted_once i := acceptedReplies_concat h (by simp) i
  waited hm := waited_record h (by simp) hm

/-- An event without an effect on any server keeps the invariant: an interrupt under an unknown
name, or the end of a wait. -/
private theorem inv_event {q : Requests V} (h : RequestsInv q) {event : RequestEvent V}
    (hinit : ∀ name id, event ≠ .initNewRequest name id)
    (hreply : ∀ name id reply, event ≠ .setClientReply name id reply true)
    (hinterrupt : ∀ name id, (q.server name).isSome → event ≠ .interrupt name id)
    (hwait : ∀ name id, event = .waitForReply name id → .initNewRequest name id ∈ q.history) :
    RequestsInv { q with history := q.history ++ [event] } := by
  have hold {other : RequestEvent V} (hm : other ∈ q.history ++ [event]) (hne : event ≠ other) :
      other ∈ q.history :=
    (List.mem_append.mp hm).resolve_right fun hnew ↦ hne (List.mem_singleton.mp hnew).symm
  constructor
  · intro other t ht
    exact (h.server ht).concat (hinit other)
      fun id ↦ hinterrupt other id (Option.isSome_of_eq_some ht)
  · exact fun hm ↦ h.init_ne_zero (hold hm (hinit _ _))
  · exact fun hm ↦ h.init_registered (hold hm (hinit _ _))
  · exact fun hm hm' ↦ h.init_unique (hold hm (hinit _ _)) (hold hm' (hinit _ _))
  · intro other i r hm
    obtain ⟨hv, hb, ht⟩ := h.accepted (hold hm (hreply _ _ _))
    exact ⟨hv, hb.append _, ht⟩
  · exact acceptedReplies_concat h hreply
  · intro name id hm
    refine List.mem_append_left _ ?_
    cases List.mem_append.mp hm with
    | inl hbefore => exact h.waited hbefore
    | inr hnew => exact hwait name id (List.mem_singleton.mp hnew).symm

/-- Every section keeps the invariant. -/
theorem RequestsInv.step [LawfulOacTree V] {q r : Requests V} (h : RequestsInv q)
    (hstep : RequestStep q r) :
    RequestsInv r := by
  cases hstep with
  | register hn => exact inv_register h hn
  | initNewRequest hs hid hfresh => exact inv_initNewRequest h hs hid hfresh
  | @setClientReply name server id reply hs =>
    cases ha : (server.setClientReply id reply).1 with
    | false =>
      rw [InputRequestServer.setClientReply_of_refused ha]
      exact inv_refused h hs
    | true =>
      have hown := (h.server hs).setClientReply id reply
      obtain ⟨hid, hreply, rfl, hv⟩ := InputRequestServer.setClientReply_fst.mp ha
      rw [ha, InputRequestServer.setClientReply_of_accepted ha] at hown
      rw [InputRequestServer.setClientReply_of_accepted ha]
      exact inv_accepted h hs hid hreply hv hown
  | interrupt hs => exact inv_interrupt h hs
  | @interruptUnknown name id hn =>
    refine inv_event h nofun nofun (fun other i hsome he ↦ ?_) nofun
    cases he
    rw [hn] at hsome
    cases hsome
  | @waitForReply name id hm =>
    refine inv_event h nofun nofun nofun fun other i he ↦ ?_
    cases he
    exact hm

/-- At most one reply to a request is accepted, and on one server. -/
theorem RequestsInv.accepted_unique {q : Requests V} (h : RequestsInv q) {name other : String}
    {id : UInt64} {reply r : UserInputReply V}
    (hm : .setClientReply name id reply true ∈ q.history)
    (hm' : .setClientReply other id r true ∈ q.history) : other = name ∧ r = reply := by
  have hlen := h.accepted_once id
  have ha : .setClientReply name id reply true ∈ acceptedReplies id q.history := by
    simp [acceptedReplies, hm]
  have hb : .setClientReply other id r true ∈ acceptedReplies id q.history := by
    simp [acceptedReplies, hm']
  generalize acceptedReplies id q.history = l at hlen ha hb
  match l, hlen with
  | [e], _ =>
    cases List.mem_singleton.mp ha
    cases List.mem_singleton.mp hb
    exact ⟨rfl, rfl⟩

end OacTreeServer.Input
