import OacTreeServer.External.Reference
import OacTreeServer.Library.Delivery
import OacTreeServer.Library.History
import OacTreeServer.Library.Machine

/-!
# The thread that sends replies

`ClientReplyDelegator` (`base/client_reply_delegator.cpp:32`) queues the replies of a user
and passes them on in a thread of its own, so that the caller is not blocked by the network.
The worker holds `m_mtx` while it pops a reply and while it records that it has been sent,
but not in between. A section under the mutex that makes no call is one step.
-/

namespace OacTreeServer.Client
open OacTreeServer.External OacTreeServer.Library

/-- `ReplyInfo`, with its number in the order in which replies are queued;
`client_reply_delegator.h:67`. -/
structure ReplyInfo (V : Type) where
  number : Nat
  id : UInt64
  reply : UserInputReply V

/-- Who holds `m_mtx` between two steps. -/
inductive MutexOwner where
  | worker
  /-- A call of `InterruptAll` that is in `m_interrupt_func`. -/
  | interruptAll
  deriving DecidableEq

/-- Where the worker is in `HandleClientReply`; `client_reply_delegator.cpp:72`. -/
inductive WorkerStage (V : Type) where
  /-- In `m_cv.wait`, until it can lock and its predicate holds. -/
  | waiting
  /-- Behind `m_cv.wait`, with the mutex locked. -/
  | awake
  /-- Has popped a reply and unlocked the mutex. -/
  | popped (info : ReplyInfo V)
  /-- In `m_reply_func`. -/
  | replying (info : ReplyInfo V)
  /-- Behind `m_reply_func`, at `lk.lock()`. -/
  | replied (info : ReplyInfo V)
  /-- At the test of `m_halt`, with the mutex locked. -/
  | processed
  /-- Behind the loop. -/
  | exited

/-- What has happened to a delegator. -/
inductive DelegatorEvent (V : Type) where
  | queueReply (info : ReplyInfo V)
  /-- `m_reply_func` is called. -/
  | startReply (info : ReplyInfo V)
  /-- The replies that `InterruptAll` has dropped, and the id for which it calls
  `m_interrupt_func`, if any. -/
  | interruptAll (cleared : List (ReplyInfo V)) (interrupted : Option UInt64)
  | halt
  /-- The worker ends, with the replies that are left. -/
  | exit (left : List (ReplyInfo V))

/-- `ClientReplyDelegator` with its worker; `client_reply_delegator.h:46`. -/
structure DelegatorState (V : Type) where
  mtx : Option MutexOwner
  activeId : UInt64
  halt : Bool
  replyQueue : List (ReplyInfo V)
  worker : WorkerStage V
  history : List (DelegatorEvent V)

/-- One step of some thread. -/
inductive DelegatorAction (V : Type) where
  | queueReply (id : UInt64) (reply : UserInputReply V)
  | interruptAll
  /-- `m_interrupt_func` returns to `InterruptAll`. -/
  | interruptDone
  | halt
  /-- The worker goes on. -/
  | advance

variable {V : Type}

/-- The replies that were queued, in order. -/
def queuedReplies (history : List (DelegatorEvent V)) : List (ReplyInfo V) :=
  history.filterMap fun
    | .queueReply info => some info
    | _ => none

/-- The replies with which `m_reply_func` was called, in order. -/
def startedReplies (history : List (DelegatorEvent V)) : List (ReplyInfo V) :=
  history.filterMap fun
    | .startReply info => some info
    | _ => none

/-- The replies that were still in the queue at some `InterruptAll`. -/
def clearedReplies (history : List (DelegatorEvent V)) : List (ReplyInfo V) :=
  history.flatMap fun
    | .interruptAll cleared _ => cleared
    | _ => []

/-- The replies that were in the queue when the worker ended, some `Halt` before. -/
def LeftAtExit (history : List (DelegatorEvent V)) (info : ReplyInfo V) : Prop :=
  ∃ before left after,
    history = before ++ .exit left :: after ∧ .halt ∈ before ∧ info ∈ left

/-- The replies that were queued when the worker had ended already. -/
def QueuedAfterExit (history : List (DelegatorEvent V)) (info : ReplyInfo V) : Prop :=
  ∃ before left after,
    history = before ++ .exit left :: after ∧ info ∈ queuedReplies after

namespace WorkerStage

/-- The reply that is popped and with which `m_reply_func` is not called yet. -/
def unsent : WorkerStage V → List (ReplyInfo V)
  | .popped info => [info]
  | _ => []

/-- The reply that is popped and whose completion is not recorded yet. -/
def unrecorded : WorkerStage V → Option (ReplyInfo V)
  | .popped info | .replying info | .replied info => some info
  | _ => none

/-- Whether the worker holds the mutex. -/
def Locked : WorkerStage V → Prop
  | .awake | .processed => True
  | _ => False

/-- How often the worker can call `m_reply_func` before it tests `m_halt`. -/
def startsLeft : WorkerStage V → Nat
  | .waiting | .awake | .popped _ => 1
  | _ => 0

end WorkerStage

namespace DelegatorState

/-- Construction; `client_reply_delegator.cpp:32`. -/
def new : DelegatorState V := ⟨none, 0, false, [], .waiting, []⟩

/-- `QueueReply`; `client_reply_delegator.cpp:49`. -/
def queueReply (s : DelegatorState V) (id : UInt64) (reply : UserInputReply V) :
    Option (DelegatorState V) :=
  if s.mtx = none then
    let info := ⟨(queuedReplies s.history).length, id, reply⟩
    some { s with
      replyQueue := s.replyQueue ++ [info]
      history := s.history ++ [.queueReply info] }
  else
    none

/-- `InterruptAll`, up to the call of `m_interrupt_func` if it makes one;
`client_reply_delegator.cpp:58`. -/
def interruptAll (s : DelegatorState V) : Option (DelegatorState V) :=
  if s.mtx = none then
    if s.activeId ≠ 0 then
      some { s with
        mtx := some .interruptAll
        replyQueue := []
        history := s.history ++ [.interruptAll s.replyQueue (some s.activeId)] }
    else
      some { s with
        replyQueue := []
        history := s.history ++ [.interruptAll s.replyQueue none] }
  else
    none

/-- `Halt`; `client_reply_delegator.cpp:98`. -/
def haltWorker (s : DelegatorState V) : Option (DelegatorState V) :=
  if s.mtx = none then some { s with halt := true, history := s.history ++ [.halt] } else none

/-- The next step of `HandleClientReply`, or `none` while it is blocked or when it has
returned; `client_reply_delegator.cpp:72`. -/
def advance (s : DelegatorState V) : Option (DelegatorState V) :=
  match s.worker with
  | .waiting =>
    if s.mtx = none ∧ (!s.replyQueue.isEmpty || s.halt) then
      some { s with mtx := some .worker, worker := .awake }
    else
      none
  | .awake =>
    match s.replyQueue with
    | [] => some { s with worker := .processed }
    | info :: rest =>
      some { s with replyQueue := rest, activeId := info.id, mtx := none, worker := .popped info }
  | .popped info =>
    some { s with worker := .replying info, history := s.history ++ [.startReply info] }
  | .replying info => some { s with worker := .replied info }
  | .replied _ =>
    if s.mtx = none then
      some { s with mtx := some .worker, activeId := 0, worker := .processed }
    else
      none
  | .processed =>
    if s.halt then
      some { s with
        mtx := none
        worker := .exited
        history := s.history ++ [.exit s.replyQueue] }
    else
      some { s with mtx := none, worker := .waiting }
  | .exited => none

end DelegatorState

/-- The delegator with all of its callers. -/
def delegatorMachine : Machine (DelegatorState V) (DelegatorAction V) where
  step s
    | .queueReply id reply => s.queueReply id reply
    | .interruptAll => s.interruptAll
    | .interruptDone => if s.mtx = some .interruptAll then some { s with mtx := none } else none
    | .halt => s.haltWorker
    | .advance => s.advance

/-- Everything that a step of the delegator can do. -/
inductive DelegatorStep (s : DelegatorState V) : DelegatorAction V → DelegatorState V → Prop where
  | queueReply {id reply} : s.mtx = none →
      DelegatorStep s (.queueReply id reply)
        { s with
          replyQueue := s.replyQueue ++ [⟨(queuedReplies s.history).length, id, reply⟩]
          history := s.history ++ [.queueReply ⟨(queuedReplies s.history).length, id, reply⟩] }
  | interruptActive : s.mtx = none → s.activeId ≠ 0 →
      DelegatorStep s .interruptAll
        { s with
          mtx := some .interruptAll
          replyQueue := []
          history := s.history ++ [.interruptAll s.replyQueue (some s.activeId)] }
  | interruptNone : s.mtx = none → s.activeId = 0 →
      DelegatorStep s .interruptAll
        { s with
          replyQueue := []
          history := s.history ++ [.interruptAll s.replyQueue none] }
  | interruptDone : s.mtx = some .interruptAll →
      DelegatorStep s .interruptDone { s with mtx := none }
  | halt : s.mtx = none →
      DelegatorStep s .halt { s with halt := true, history := s.history ++ [.halt] }
  | wake : s.worker = .waiting → s.mtx = none → (s.replyQueue ≠ [] ∨ s.halt = true) →
      DelegatorStep s .advance { s with mtx := some .worker, worker := .awake }
  | noReply : s.worker = .awake → s.replyQueue = [] →
      DelegatorStep s .advance { s with worker := .processed }
  | pop {info rest} : s.worker = .awake → s.replyQueue = info :: rest →
      DelegatorStep s .advance
        { s with replyQueue := rest, activeId := info.id, mtx := none, worker := .popped info }
  | startReply {info} : s.worker = .popped info →
      DelegatorStep s .advance
        { s with worker := .replying info, history := s.history ++ [.startReply info] }
  | endReply {info} : s.worker = .replying info →
      DelegatorStep s .advance { s with worker := .replied info }
  | record {info} : s.worker = .replied info → s.mtx = none →
      DelegatorStep s .advance
        { s with mtx := some .worker, activeId := 0, worker := .processed }
  | exit : s.worker = .processed → s.halt = true →
      DelegatorStep s .advance
        { s with
          mtx := none
          worker := .exited
          history := s.history ++ [.exit s.replyQueue] }
  | again : s.worker = .processed → s.halt = false →
      DelegatorStep s .advance { s with mtx := none, worker := .waiting }

/-- The computed steps of the delegator are those above. -/
theorem delegatorStep_of_step {s t : DelegatorState V} {a : DelegatorAction V}
    (h : delegatorMachine.step s a = some t) : DelegatorStep s a t := by
  cases a with
  | queueReply id reply =>
    simp only [delegatorMachine, DelegatorState.queueReply] at h
    split at h
    · next hmtx =>
      cases h
      exact .queueReply hmtx
    · cases h
  | interruptAll =>
    simp only [delegatorMachine, DelegatorState.interruptAll] at h
    split at h
    · next hmtx =>
      split at h
      · next hactive =>
        cases h
        exact .interruptActive hmtx hactive
      · next hactive =>
        cases h
        exact .interruptNone hmtx (not_not.mp hactive)
    · cases h
  | interruptDone =>
    simp only [delegatorMachine] at h
    split at h
    · next hmtx =>
      cases h
      exact .interruptDone hmtx
    · cases h
  | halt =>
    simp only [delegatorMachine, DelegatorState.haltWorker] at h
    split at h
    · next hmtx =>
      cases h
      exact .halt hmtx
    · cases h
  | advance =>
    simp only [delegatorMachine, DelegatorState.advance] at h
    cases hworker : s.worker with
    | waiting =>
      simp only [hworker] at h
      split at h
      · next hpred =>
        cases h
        refine .wake hworker hpred.1 ?_
        simpa [List.isEmpty_iff] using hpred.2
      · cases h
    | awake =>
      simp only [hworker] at h
      split at h
      · next hqueue =>
        cases h
        exact .noReply hworker hqueue
      · next info rest hqueue =>
        cases h
        exact .pop hworker hqueue
    | popped info =>
      rw [hworker] at h
      cases h
      exact .startReply hworker
    | replying info =>
      rw [hworker] at h
      cases h
      exact .endReply hworker
    | replied info =>
      simp only [hworker] at h
      split at h
      · next hmtx =>
        cases h
        exact .record hworker hmtx
      · cases h
    | processed =>
      simp only [hworker] at h
      split at h
      · next hhalt =>
        cases h
        exact .exit hworker hhalt
      · next hhalt =>
        cases h
        exact .again hworker (Bool.eq_false_iff.mpr hhalt)
    | exited =>
      rw [hworker] at h
      cases h

@[simp] theorem queuedReplies_append (h l : List (DelegatorEvent V)) :
    queuedReplies (h ++ l) = queuedReplies h ++ queuedReplies l :=
  List.filterMap_append

@[simp] theorem startedReplies_append (h l : List (DelegatorEvent V)) :
    startedReplies (h ++ l) = startedReplies h ++ startedReplies l :=
  List.filterMap_append

/-- What was left when the worker ended stays so. -/
theorem LeftAtExit.append {h : List (DelegatorEvent V)} {info : ReplyInfo V}
    (hleft : LeftAtExit h info) (l : List (DelegatorEvent V)) : LeftAtExit (h ++ l) info := by
  obtain ⟨before, left, after, hsplit, hhalt, hinfo⟩ := hleft
  refine ⟨before, left, after ++ l, ?_, hhalt, hinfo⟩
  rw [hsplit, List.append_assoc, List.cons_append]

/-- What was queued after the worker had ended stays so. -/
theorem QueuedAfterExit.append {h : List (DelegatorEvent V)} {info : ReplyInfo V}
    (hlate : QueuedAfterExit h info) (l : List (DelegatorEvent V)) :
    QueuedAfterExit (h ++ l) info := by
  obtain ⟨before, left, after, hsplit, hinfo⟩ := hlate
  refine ⟨before, left, after ++ l, ?_, ?_⟩
  · rw [hsplit, List.append_assoc, List.cons_append]
  · rw [queuedReplies_append]
    exact List.mem_append_left _ hinfo

namespace DelegatorState

/-- The replies that are popped, in order. -/
def popped (s : DelegatorState V) : List (ReplyInfo V) :=
  startedReplies s.history ++ s.worker.unsent

/-- Who holds the mutex, which id is active, what has become of the queued replies, and what
can happen after a `Halt`. -/
structure Consistent (s : DelegatorState V) : Prop where
  locked : s.mtx = some .worker ↔ s.worker.Locked
  activeId_eq : s.activeId = (s.worker.unrecorded.map (·.id)).getD 0
  unrecorded_mem : ∀ info, s.worker.unrecorded = some info → info ∈ s.popped
  numbers : ∀ info ∈ queuedReplies s.history, info.number < (queuedReplies s.history).length
  delivery : Delivery (queuedReplies s.history) s.popped (clearedReplies s.history) s.replyQueue
  halt_iff : s.halt = true ↔ .halt ∈ s.history
  afterHalt : ∀ before after, s.history = before ++ .halt :: after →
    (startedReplies after).length + s.worker.startsLeft ≤ 1
  exit_mem : s.worker = .exited → ∃ left, .exit left ∈ s.history
  exited : s.worker = .exited →
    ∀ info ∈ s.replyQueue, LeftAtExit s.history info ∨ QueuedAfterExit s.history info

/-- A delegator is consistent at first. -/
theorem consistent_new : (new : DelegatorState V).Consistent where
  locked := by simp [new, WorkerStage.Locked]
  activeId_eq := rfl
  unrecorded_mem := nofun
  numbers := nofun
  delivery := Delivery.nil
  halt_iff := by simp [new]
  afterHalt before after h := by simp [new] at h
  exit_mem := nofun
  exited := nofun

private theorem startsLeft_le_one (w : WorkerStage V) : w.startsLeft ≤ 1 := by
  unfold WorkerStage.startsLeft
  split <;> omega

/-- One more event keeps the bound on what is started after a `Halt`, when it uses up what
it starts. -/
private theorem afterHalt_concat {h : List (DelegatorEvent V)} {left : Nat}
    (hbound : ∀ before after, h = before ++ .halt :: after →
      (startedReplies after).length + left ≤ 1)
    (e : DelegatorEvent V) {w : WorkerStage V}
    (hleft : (startedReplies [e]).length + w.startsLeft ≤ left) (before after)
    (heq : h ++ [e] = before ++ .halt :: after) :
    (startedReplies after).length + w.startsLeft ≤ 1 := by
  cases concat_eq_split heq with
  | inl hearlier =>
    obtain ⟨rest, rfl, hh⟩ := hearlier
    have hrest := hbound before rest hh
    rw [startedReplies_append, List.length_append]
    omega
  | inr hlast =>
    rw [hlast.1]
    simpa [startedReplies] using startsLeft_le_one w

/-- A worker that has ended has done so before what happens next. -/
private theorem exit_mem_append {worker : WorkerStage V} {h : List (DelegatorEvent V)}
    (hexit : worker = .exited → ∃ left, .exit left ∈ h) (l : List (DelegatorEvent V))
    (hworker : worker = .exited) : ∃ left, .exit left ∈ h ++ l := by
  obtain ⟨left, hleft⟩ := hexit hworker
  exact ⟨left, List.mem_append_left l hleft⟩

/-- What has become of the replies that are left when the worker has ended does not change. -/
private theorem exited_append {h : List (DelegatorEvent V)} {queue : List (ReplyInfo V)}
    (hqueue : ∀ info ∈ queue, LeftAtExit h info ∨ QueuedAfterExit h info)
    (l : List (DelegatorEvent V)) :
    ∀ info ∈ queue, LeftAtExit (h ++ l) info ∨ QueuedAfterExit (h ++ l) info :=
  fun info hinfo ↦ (hqueue info hinfo).imp (·.append l) (·.append l)

/-- Queueing a reply keeps a delegator consistent. -/
private theorem Consistent.queueReply {s : DelegatorState V} (hs : s.Consistent)
    (info : ReplyInfo V) (hnumber : info.number = (queuedReplies s.history).length) :
    Consistent { s with
      replyQueue := s.replyQueue ++ [info]
      history := s.history ++ [.queueReply info] } where
  locked := hs.locked
  activeId_eq := hs.activeId_eq
  unrecorded_mem := by simpa [popped, startedReplies] using hs.unrecorded_mem
  numbers := by
    intro old hold
    rw [queuedReplies_append, List.mem_append] at hold
    rw [queuedReplies_append, List.length_append]
    cases hold with
    | inl hold =>
      have hlt := hs.numbers old hold
      omega
    | inr hold =>
      rw [List.mem_singleton.mp hold, hnumber]
      exact Nat.lt_add_one _
  delivery := by
    have hfresh : info ∉ queuedReplies s.history :=
      fun hmem ↦ Nat.lt_irrefl _ (hnumber ▸ hs.numbers info hmem)
    simpa [popped, queuedReplies, startedReplies, clearedReplies] using
      hs.delivery.enqueue hfresh
  halt_iff := by simpa using hs.halt_iff
  afterHalt := afterHalt_concat hs.afterHalt _ (by simp [startedReplies])
  exit_mem := exit_mem_append hs.exit_mem _
  exited := by
    intro hworker old hold
    cases List.mem_append.mp hold with
    | inl hold => exact exited_append (hs.exited hworker) _ old hold
    | inr hold =>
      obtain ⟨left, hleft⟩ := hs.exit_mem hworker
      obtain ⟨before, after, hsplit⟩ := List.append_of_mem hleft
      refine .inr ⟨before, left, after ++ [.queueReply info], ?_, ?_⟩
      · rw [hsplit, List.append_assoc, List.cons_append]
      · rw [List.mem_singleton.mp hold, queuedReplies_append]
        exact List.mem_append_right _ (List.mem_singleton_self info)

/-- Dropping the replies that wait keeps a delegator consistent, whoever holds the mutex
then. -/
private theorem Consistent.interrupt {s : DelegatorState V} (hs : s.Consistent)
    (hfree : s.mtx = none) (mtx : Option MutexOwner) (hmtx : mtx ≠ some .worker)
    (interrupted : Option UInt64) :
    Consistent { s with
      mtx := mtx
      replyQueue := []
      history := s.history ++ [.interruptAll s.replyQueue interrupted] } where
  locked := by
    have hunlocked : ¬ s.worker.Locked := by
      rw [← hs.locked, hfree]
      nofun
    exact ⟨fun h ↦ absurd h hmtx, fun h ↦ absurd h hunlocked⟩
  activeId_eq := hs.activeId_eq
  unrecorded_mem := by simpa [popped, startedReplies] using hs.unrecorded_mem
  numbers := by simpa [queuedReplies] using hs.numbers
  delivery := by
    simpa [popped, queuedReplies, startedReplies, clearedReplies] using hs.delivery.drop
  halt_iff := by simpa using hs.halt_iff
  afterHalt := afterHalt_concat hs.afterHalt _ (by simp [startedReplies])
  exit_mem := exit_mem_append hs.exit_mem _
  exited := nofun

/-- Halting keeps a delegator consistent. -/
private theorem Consistent.haltWorker {s : DelegatorState V} (hs : s.Consistent) :
    Consistent { s with halt := true, history := s.history ++ [.halt] } where
  locked := hs.locked
  activeId_eq := hs.activeId_eq
  unrecorded_mem := by simpa [popped, startedReplies] using hs.unrecorded_mem
  numbers := by simpa [queuedReplies] using hs.numbers
  delivery := by
    simpa [popped, queuedReplies, startedReplies, clearedReplies] using hs.delivery
  halt_iff := by simp
  afterHalt := afterHalt_concat hs.afterHalt _ (by simp [startedReplies])
  exit_mem := exit_mem_append hs.exit_mem _
  exited := fun hworker ↦ exited_append (hs.exited hworker) _

/-- A silent step of the worker keeps a delegator consistent. -/
private theorem Consistent.go {s : DelegatorState V} (hs : s.Consistent)
    {mtx : Option MutexOwner} {activeId : UInt64} {replyQueue : List (ReplyInfo V)}
    {worker : WorkerStage V} (hlocked : mtx = some .worker ↔ worker.Locked)
    (hactive : activeId = (worker.unrecorded.map (·.id)).getD 0)
    (hmem : ∀ info, worker.unrecorded = some info →
      info ∈ startedReplies s.history ++ worker.unsent)
    (hdelivery : Delivery (queuedReplies s.history)
      (startedReplies s.history ++ worker.unsent) (clearedReplies s.history) replyQueue)
    (hleft : s.halt = true → worker.startsLeft ≤ s.worker.startsLeft)
    (hrunning : worker ≠ .exited) :
    Consistent { s with
      mtx := mtx, activeId := activeId, replyQueue := replyQueue, worker := worker } where
  locked := hlocked
  activeId_eq := hactive
  unrecorded_mem := hmem
  numbers := hs.numbers
  delivery := hdelivery
  halt_iff := hs.halt_iff
  afterHalt := by
    intro before after hsplit
    have hhalt : s.halt = true := by
      rw [hs.halt_iff]
      exact hsplit ▸ List.mem_append_right _ List.mem_cons_self
    have hbound := hs.afterHalt before after hsplit
    have hle := hleft hhalt
    change _ + worker.startsLeft ≤ 1
    omega
  exit_mem := fun hworker ↦ absurd hworker hrunning
  exited := fun hworker ↦ absurd hworker hrunning

/-- Calling `m_reply_func` keeps a delegator consistent. -/
private theorem Consistent.startReply {s : DelegatorState V} (hs : s.Consistent)
    {info : ReplyInfo V} (hworker : s.worker = .popped info) :
    Consistent { s with
      worker := .replying info, history := s.history ++ [.startReply info] } where
  locked := by simpa [hworker, WorkerStage.Locked] using hs.locked
  activeId_eq := by simpa [hworker, WorkerStage.unrecorded] using hs.activeId_eq
  unrecorded_mem := by simp [popped, startedReplies, WorkerStage.unrecorded]
  numbers := by simpa [queuedReplies] using hs.numbers
  delivery := by
    simpa [popped, queuedReplies, startedReplies, clearedReplies, hworker, WorkerStage.unsent]
      using hs.delivery
  halt_iff := by simpa using hs.halt_iff
  afterHalt := afterHalt_concat hs.afterHalt _ (by rw [hworker]; exact Nat.le_refl 1)
  exit_mem := nofun
  exited := nofun

/-- The end of the worker keeps a delegator consistent. -/
private theorem Consistent.exit {s : DelegatorState V} (hs : s.Consistent)
    (hworker : s.worker = .processed) (hhalt : s.halt = true) :
    Consistent { s with
      mtx := none, worker := .exited, history := s.history ++ [.exit s.replyQueue] } where
  locked := by simp [WorkerStage.Locked]
  activeId_eq := by simpa [hworker, WorkerStage.unrecorded] using hs.activeId_eq
  unrecorded_mem := nofun
  numbers := by simpa [queuedReplies] using hs.numbers
  delivery := by
    simpa [popped, queuedReplies, startedReplies, clearedReplies, hworker, WorkerStage.unsent]
      using hs.delivery
  halt_iff := by simpa using hs.halt_iff
  afterHalt := afterHalt_concat hs.afterHalt _ (Nat.zero_le _)
  exit_mem _ := ⟨s.replyQueue, by simp⟩
  exited _ info hinfo :=
    .inl ⟨s.history, s.replyQueue, [], rfl, hs.halt_iff.mp hhalt, hinfo⟩

/-- Every step keeps a delegator consistent. -/
theorem Consistent.step {s t : DelegatorState V} {a : DelegatorAction V} (hs : s.Consistent)
    (h : delegatorMachine.step s a = some t) : t.Consistent := by
  have hdelivery := hs.delivery
  have hactive := hs.activeId_eq
  have hmem := hs.unrecorded_mem
  rw [DelegatorState.popped] at hdelivery hmem
  cases delegatorStep_of_step h with
  | queueReply hmtx => exact hs.queueReply _ rfl
  | interruptActive hmtx _ => exact hs.interrupt hmtx (some .interruptAll) (by decide) _
  | interruptNone hmtx _ =>
    have hint := hs.interrupt hmtx none nofun none
    rw [← hmtx] at hint
    exact hint
  | interruptDone hmtx =>
    have hunlocked : ¬ s.worker.Locked := by
      rw [← hs.locked, hmtx]
      decide
    exact ⟨⟨nofun, fun h ↦ absurd h hunlocked⟩, hactive, hmem, hs.numbers, hs.delivery,
      hs.halt_iff, hs.afterHalt, hs.exit_mem, hs.exited⟩
  | halt hmtx => exact hs.haltWorker
  | wake hworker hmtx hpred =>
    rw [hworker] at hdelivery hactive
    exact hs.go (by simp [WorkerStage.Locked]) hactive nofun hdelivery
      (fun _ ↦ by rw [hworker]; exact Nat.le_refl 1) nofun
  | noReply hworker hqueue =>
    have hlocked := hs.locked
    rw [hworker] at hdelivery hactive hlocked
    exact hs.go hlocked hactive nofun hdelivery (fun _ ↦ Nat.zero_le _) nofun
  | @pop info rest hworker hqueue =>
    rw [hworker, hqueue] at hdelivery
    simp only [WorkerStage.unsent, List.append_nil] at hdelivery
    exact hs.go (by simp [WorkerStage.Locked]) rfl
      (by simp [WorkerStage.unrecorded, WorkerStage.unsent]) hdelivery.take
      (fun _ ↦ by rw [hworker]; exact Nat.le_refl 1) nofun
  | startReply hworker => exact hs.startReply hworker
  | endReply hworker =>
    have hlocked := hs.locked
    rw [hworker] at hdelivery hactive hlocked hmem
    exact hs.go hlocked hactive hmem hdelivery (fun _ ↦ Nat.zero_le _) nofun
  | record hworker hmtx =>
    rw [hworker] at hdelivery
    exact hs.go (by simp [WorkerStage.Locked]) rfl nofun hdelivery (fun _ ↦ Nat.zero_le _) nofun
  | exit hworker hhalt => exact hs.exit hworker hhalt
  | again hworker hhalt =>
    rw [hworker] at hdelivery hactive
    exact hs.go (by simp [WorkerStage.Locked]) hactive nofun hdelivery
      (fun h ↦ absurd h (Bool.eq_false_iff.mp hhalt)) nofun

/-- Every run keeps a delegator consistent. -/
theorem consistent_of_run {actions : List (DelegatorAction V)} {s : DelegatorState V}
    (hs : delegatorMachine.run .new actions = some s) : s.Consistent :=
  Machine.run_invariant (fun hs h ↦ hs.step h) consistent_new hs

/-- `InterruptAll` drops what is in the queue and interrupts the reply that is popped and not
recorded yet, if that has an id. -/
theorem Consistent.history_interruptAll {s t : DelegatorState V} (hs : s.Consistent)
    (h : delegatorMachine.step s .interruptAll = some t) :
    t.history = s.history ++
      [.interruptAll s.replyQueue ((s.worker.unrecorded.map (·.id)).filter (· ≠ 0))] := by
  have hactive := hs.activeId_eq
  have hinterrupted : (s.worker.unrecorded.map (·.id)).filter (· ≠ 0) =
      if s.activeId ≠ 0 then some s.activeId else none := by
    rw [hactive]
    cases s.worker.unrecorded with
    | none => simp
    | some info => simp [Option.filter]
  rw [hinterrupted]
  cases delegatorStep_of_step h with
  | interruptActive _ hne => rw [if_pos hne]
  | interruptNone _ heq => rw [if_neg (not_not.mpr heq)]

/-- A worker that has not ended goes on unless `InterruptAll` holds the mutex or it waits
and there is nothing to do. -/
theorem Consistent.progress {s : DelegatorState V} (hs : s.Consistent)
    (hrunning : s.worker ≠ .exited) :
    (delegatorMachine.step s .advance).isSome ∨ s.mtx = some .interruptAll ∨
      (s.worker = .waiting ∧ s.replyQueue = [] ∧ s.halt = false) := by
  have hlocked := hs.locked
  have hother : ∀ {w}, s.worker = w → ¬ w.Locked → s.mtx ≠ none → s.mtx = some .interruptAll := by
    intro w hw hunlocked hheld
    cases hmtx : s.mtx with
    | none => exact absurd hmtx hheld
    | some owner =>
      cases owner with
      | worker => exact absurd (hlocked.mp hmtx) (hw ▸ hunlocked)
      | interruptAll => rfl
  simp only [delegatorMachine, advance]
  cases hworker : s.worker with
  | waiting =>
    by_cases hmtx : s.mtx = none
    · cases hqueue : s.replyQueue with
      | nil =>
        cases hhalt : s.halt with
        | true => simp [hmtx]
        | false => simp
      | cons info rest => simp [hmtx]
    · exact .inr (.inl (hother hworker id hmtx))
  | awake =>
    cases hqueue : s.replyQueue with
    | nil => exact .inl rfl
    | cons info rest => exact .inl rfl
  | popped info => exact .inl rfl
  | replying info => exact .inl rfl
  | replied info =>
    by_cases hmtx : s.mtx = none
    · exact .inl (by rw [if_pos hmtx]; rfl)
    · exact .inr (.inl (hother hworker id hmtx))
  | processed =>
    cases hhalt : s.halt with
    | true => exact .inl rfl
    | false => exact .inl rfl
  | exited => exact absurd hworker hrunning

end DelegatorState

/-- Replies are passed in the order in which they were queued, each at most once. A reply that
is not passed was dropped by some `InterruptAll`, which means that it never is passed, or was
left in the queue when the worker ended after a `Halt`, or came later than that, or will
still be passed. `InterruptAll` interrupts the reply that is popped and not recorded, if that
has an id. After a `Halt` at most one reply is passed, and the worker holds no lock while it
passes one. -/
theorem delegator_delivers_in_order {actions : List (DelegatorAction V)} {s : DelegatorState V}
    (hs : delegatorMachine.run .new actions = some s) :
    ((startedReplies s.history).Sublist (queuedReplies s.history) ∧
      (queuedReplies s.history).Nodup) ∧
    (∀ info ∈ queuedReplies s.history, info ∉ startedReplies s.history →
      info ∈ clearedReplies s.history ∨ LeftAtExit s.history info ∨
        QueuedAfterExit s.history info ∨
        (s.worker ≠ .exited ∧ (info ∈ s.worker.unsent ∨ info ∈ s.replyQueue))) ∧
    (∀ info ∈ clearedReplies s.history, info ∉ startedReplies s.history) ∧
    (∀ t, delegatorMachine.step s .interruptAll = some t →
      t.history = s.history ++
        [.interruptAll s.replyQueue ((s.worker.unrecorded.map (·.id)).filter (· ≠ 0))]) ∧
    (∀ before after, s.history = before ++ .halt :: after →
      (startedReplies after).length ≤ 1) ∧
    (∀ info, s.worker = .replying info → s.mtx ≠ some .worker) ∧
    (s.worker ≠ .exited →
      (delegatorMachine.step s .advance).isSome ∨ s.mtx = some .interruptAll ∨
        (s.worker = .waiting ∧ s.replyQueue = [] ∧ s.halt = false)) := by
  have hc := DelegatorState.consistent_of_run hs
  have hsub : (startedReplies s.history).Sublist s.popped := List.sublist_append_left _ _
  refine ⟨⟨hsub.trans hc.delivery.taken_sublist, hc.delivery.nodup⟩, ?_, ?_,
    fun t h ↦ hc.history_interruptAll h, ?_, ?_, hc.progress⟩
  · intro info hqueued hnot
    cases hc.delivery.mem_cases hqueued with
    | inl hpopped =>
      have hunsent := (List.mem_append.mp hpopped).resolve_left hnot
      refine .inr (.inr (.inr ⟨fun hexited ↦ ?_, .inl hunsent⟩))
      rw [hexited] at hunsent
      exact List.not_mem_nil hunsent
    | inr hrest =>
      cases hrest with
      | inl hcleared => exact .inl hcleared
      | inr hwaiting =>
        by_cases hexited : s.worker = .exited
        · have hleft := hc.exited hexited info hwaiting
          exact .inr (hleft.imp_right .inl)
        · exact .inr (.inr (.inr ⟨hexited, .inr hwaiting⟩))
  · exact fun info hcleared hstarted ↦ hc.delivery.not_taken hcleared (hsub.subset hstarted)
  · intro before after hsplit
    have hbound := hc.afterHalt before after hsplit
    omega
  · intro info hworker hmtx
    have hlocked := hc.locked.mp hmtx
    rw [hworker] at hlocked
    exact hlocked

private theorem not_leftAtExit {history : List (DelegatorEvent V)}
    (hempty : ∀ left, .exit left ∈ history → left = []) (info : ReplyInfo V) :
    ¬ LeftAtExit history info := by
  rintro ⟨before, left, after, hsplit, -, hinfo⟩
  have hleft : left = [] := by
    apply hempty
    rw [hsplit]
    exact List.mem_append_right _ List.mem_cons_self
  rw [hleft] at hinfo
  exact List.not_mem_nil hinfo

private def choice : UserInputReply Unit := ⟨⟨2⟩, true, ()⟩

/-- Of three replies the second is dropped while the first is sent, and the third comes when
the worker has ended. -/
theorem delegator_delivers_in_order_three :
    ∃ s, delegatorMachine.run .new [.queueReply 1 choice, .queueReply 2 choice, .advance,
        .advance, .advance, .interruptAll, .interruptDone, .advance, .halt, .advance, .advance,
        .queueReply 3 choice] = some s ∧
      startedReplies s.history = [⟨0, 1, choice⟩] ∧
      clearedReplies s.history = [⟨1, 2, choice⟩] ∧
      QueuedAfterExit s.history ⟨2, 3, choice⟩ := by
  obtain ⟨s, hs⟩ : ∃ s, delegatorMachine.run .new [.queueReply 1 choice, .queueReply 2 choice,
      .advance, .advance, .advance, .interruptAll, .interruptDone, .advance, .halt, .advance,
      .advance, .queueReply 3 choice] = some s := Option.isSome_iff_exists.mp (by rfl)
  have hhistory : s.history = [.queueReply ⟨0, 1, choice⟩, .queueReply ⟨1, 2, choice⟩,
      .startReply ⟨0, 1, choice⟩, .interruptAll [⟨1, 2, choice⟩] (some 1), .halt, .exit [],
      .queueReply ⟨2, 3, choice⟩] :=
    delegatorMachine.observe_run (fun s ↦ s.history) hs (by rfl)
  have hqueued : queuedReplies s.history = [⟨0, 1, choice⟩, ⟨1, 2, choice⟩, ⟨2, 3, choice⟩] := by
    rw [hhistory]
    rfl
  have hstarted : startedReplies s.history = [⟨0, 1, choice⟩] := by
    rw [hhistory]
    rfl
  have hcleared : clearedReplies s.history = [⟨1, 2, choice⟩] := by
    rw [hhistory]
    rfl
  have hexited : s.worker = .exited :=
    delegatorMachine.observe_run (fun s ↦ s.worker) hs (by rfl)
  have hleft := not_leftAtExit (by simp [hhistory] : ∀ left, .exit left ∈ s.history → left = [])
    ⟨2, 3, choice⟩
  have hlast := (delegator_delivers_in_order hs).2.1 ⟨2, 3, choice⟩ (by simp [hqueued])
    (by simp [hstarted])
  refine ⟨s, hs, hstarted, hcleared, ?_⟩
  simpa [hcleared, hexited, hleft] using hlast

/-- A reply that is queued when the worker has ended is not passed although no `InterruptAll`
runs and it was not in the queue at the end of the worker, and `InterruptAll` holds the mutex
while a reply is passed. -/
theorem delegator_drops_late_reply :
    (∃ s, delegatorMachine.run .new [.halt, .advance, .advance, .advance,
        .queueReply 1 choice] = some s ∧
      queuedReplies s.history = [⟨0, 1, choice⟩] ∧ startedReplies s.history = [] ∧
      clearedReplies s.history = [] ∧ s.worker = .exited ∧
      ∀ info, ¬ LeftAtExit s.history info) ∧
    ∃ s, delegatorMachine.run .new [.queueReply 1 choice, .advance, .advance, .advance,
        .interruptAll] = some s ∧
      s.worker = .replying ⟨0, 1, choice⟩ ∧ s.mtx ≠ none := by
  constructor
  · obtain ⟨s, hs⟩ : ∃ s, delegatorMachine.run .new [.halt, .advance, .advance, .advance,
        .queueReply 1 choice] = some s := Option.isSome_iff_exists.mp (by rfl)
    have hhistory : s.history = [.halt, .exit [], .queueReply ⟨0, 1, choice⟩] :=
      delegatorMachine.observe_run (fun s ↦ s.history) hs (by rfl)
    refine ⟨s, hs, by rw [hhistory]; rfl, by rw [hhistory]; rfl, by rw [hhistory]; rfl,
      delegatorMachine.observe_run (fun s ↦ s.worker) hs (by rfl), ?_⟩
    exact not_leftAtExit (by simp [hhistory])
  · obtain ⟨s, hs⟩ : ∃ s, delegatorMachine.run .new [.queueReply 1 choice, .advance, .advance,
        .advance, .interruptAll] = some s := Option.isSome_iff_exists.mp (by rfl)
    refine ⟨s, hs, delegatorMachine.observe_run (fun s ↦ s.worker) hs (by rfl), ?_⟩
    have hmtx : s.mtx = some .interruptAll :=
      delegatorMachine.observe_run (fun s ↦ s.mtx) hs (by rfl)
    rw [hmtx]
    nofun

end OacTreeServer.Client
