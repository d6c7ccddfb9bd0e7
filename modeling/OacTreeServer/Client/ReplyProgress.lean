import OacTreeServer.Client.ReplyDelegator
import OacTreeServer.Library.Progress

/-!
# Replies can always be sent

As long as a delegator is not halted, a new reply can be queued, and a reply that waits can be
sent (`base/client_reply_delegator.cpp:49`): it is enough that calls return to the delegator and
that its worker goes on.
-/

namespace OacTreeServer.Client
open OacTreeServer.External OacTreeServer.Library

section Definitions

variable {V : Type}

/-- A call returns to the delegator, or the worker goes on. -/
def DelegatorAction.GoesOn : DelegatorAction V → Prop
  | .interruptDone | .advance => True
  | _ => False

/-- How far the worker is from taking the next reply. -/
def WorkerStage.rank : WorkerStage V → Nat
  | .popped _ => 7
  | .replying _ => 6
  | .replied _ => 5
  | .processed => 4
  | .waiting => 3
  | .awake => 2
  | .exited => 0

namespace DelegatorState

/-- How far a delegator is from having sent what it has. -/
def rank (s : DelegatorState V) : Nat :=
  2 * (8 * s.replyQueue.length + s.worker.rank) + if s.mtx = some .interruptAll then 1 else 0

/-- A delegator that is not halted. -/
structure Active (s : DelegatorState V) : Prop where
  consistent : s.Consistent
  halt : s.halt = false
  worker : s.worker ≠ .exited

/-- A reply has been queued and not dropped. -/
def Keeps (info : ReplyInfo V) (s : DelegatorState V) : Prop :=
  info ∈ startedReplies s.history ∨ info ∈ s.worker.unsent ∨ info ∈ s.replyQueue

end DelegatorState

end Definitions

namespace DelegatorState

variable {V : Type} {s t : DelegatorState V} {info : ReplyInfo V}

/-- A worker ends only when it is halted. -/
theorem halt_of_exited {a : DelegatorAction V} (hs : s.worker = .exited → s.halt = true)
    (h : delegatorMachine.step s a = some t) (ht : t.worker = .exited) : t.halt = true := by
  cases delegatorStep_of_step h with
  | queueReply | interruptActive | interruptNone | interruptDone => exact hs ht
  | halt => rfl
  | exit _ hhalt => exact hhalt
  | _ => cases ht

/-- A delegator stays active when it goes on. -/
theorem Active.step (hs : s.Active) {a : DelegatorAction V} (ha : a.GoesOn)
    (h : delegatorMachine.step s a = some t) : t.Active := by
  refine ⟨hs.consistent.step h, ?_, ?_⟩
  · cases delegatorStep_of_step h with
    | queueReply | interruptActive | interruptNone | halt => exact ha.elim
    | _ => exact hs.halt
  · cases delegatorStep_of_step h with
    | queueReply | interruptActive | interruptNone | halt => exact ha.elim
    | interruptDone => exact hs.worker
    | exit _ hhalt =>
      rw [hs.halt] at hhalt
      cases hhalt
    | _ => nofun

/-- The mutex is not held by the worker while this does not lock it. -/
private theorem Active.mtx_ne (hs : s.Active) (hunlocked : ¬ s.worker.Locked) :
    s.mtx ≠ some .worker :=
  fun hmtx ↦ hunlocked (hs.consistent.locked.mp hmtx)

/-- A mutex that nobody holds. -/
private theorem mtx_eq_none (hworker : s.mtx ≠ some .worker)
    (hinterrupt : s.mtx ≠ some .interruptAll) : s.mtx = none := by
  cases hmtx : s.mtx with
  | none => rfl
  | some owner =>
    cases owner with
    | worker => exact absurd hmtx hworker
    | interruptAll => exact absurd hmtx hinterrupt

/-- A reply that is kept and not sent yet can get further. -/
private theorem Active.exists_step (hs : s.Active) (hkeeps : Keeps info s)
    (hmissing : info ∉ startedReplies s.history) :
    ∃ a t, a.GoesOn ∧ delegatorMachine.step s a = some t ∧ Keeps info t ∧ t.rank < s.rank := by
  by_cases hinterrupt : s.mtx = some .interruptAll
  · refine ⟨.interruptDone, { s with mtx := none }, trivial, ?_, hkeeps, ?_⟩
    · simp [delegatorMachine, hinterrupt]
    · simp [rank, hinterrupt]
  · have hnotStarted := hkeeps.resolve_left hmissing
    have hfree := fun hunlocked ↦ mtx_eq_none (hs.mtx_ne hunlocked) hinterrupt
    refine ⟨.advance, ?_⟩
    cases hworker : s.worker with
    | waiting =>
      have hmtx := hfree (hworker ▸ id)
      have hinfo : info ∈ s.replyQueue := by simpa [hworker, WorkerStage.unsent] using hnotStarted
      have hqueue : s.replyQueue ≠ [] := List.ne_nil_of_mem hinfo
      refine ⟨{ s with mtx := some .worker, worker := .awake }, trivial, ?_, .inr (.inr hinfo), ?_⟩
      · simp [delegatorMachine, advance, hworker, hmtx, hqueue]
      · simp [rank, WorkerStage.rank, hworker, hmtx]
    | awake =>
      have hinfo : info ∈ s.replyQueue := by simpa [hworker, WorkerStage.unsent] using hnotStarted
      cases hqueue : s.replyQueue with
      | nil =>
        rw [hqueue] at hinfo
        cases hinfo
      | cons next rest =>
        refine ⟨{ s with
          replyQueue := rest
          activeId := next.id
          mtx := none
          worker := .popped next }, trivial, ?_, .inr ?_, ?_⟩
        · simp [delegatorMachine, advance, hworker, hqueue]
        · rw [hqueue] at hinfo
          simpa [WorkerStage.unsent] using hinfo
        · simp only [rank, WorkerStage.rank, hworker, hqueue, List.length_cons, reduceCtorEq,
            if_false]
          omega
    | popped next =>
      refine ⟨{ s with worker := .replying next, history := s.history ++ [.startReply next] },
        trivial, ?_, ?_, ?_⟩
      · simp [delegatorMachine, advance, hworker]
      · cases hnotStarted with
        | inl hunsent =>
          rw [hworker] at hunsent
          left
          rw [startedReplies_append]
          exact List.mem_append_right _ hunsent
        | inr hqueue => exact .inr (.inr hqueue)
      · simp [rank, WorkerStage.rank, hworker]
    | replying next =>
      refine ⟨{ s with worker := .replied next }, trivial, ?_, ?_, ?_⟩
      · simp [delegatorMachine, advance, hworker]
      · simpa [Keeps, hworker, WorkerStage.unsent] using hkeeps
      · simp [rank, WorkerStage.rank, hworker]
    | replied next =>
      have hmtx := hfree (hworker ▸ id)
      refine ⟨{ s with mtx := some .worker, activeId := 0, worker := .processed }, trivial, ?_,
        ?_, ?_⟩
      · simp [delegatorMachine, advance, hworker, hmtx]
      · simpa [Keeps, hworker, WorkerStage.unsent] using hkeeps
      · simp [rank, WorkerStage.rank, hworker, hmtx]
    | processed =>
      refine ⟨{ s with mtx := none, worker := .waiting }, trivial, ?_, ?_, ?_⟩
      · simp [delegatorMachine, advance, hworker, hs.halt]
      · simpa [Keeps, hworker, WorkerStage.unsent] using hkeeps
      · simp [rank, WorkerStage.rank, hworker, hinterrupt]
    | exited => exact absurd hworker hs.worker

/-- A reply that is kept can be sent. -/
theorem Active.exists_started (hs : s.Active) (hkeeps : Keeps info s) :
    ∃ t, delegatorMachine.CanReach DelegatorAction.GoesOn s t ∧ t.Active ∧
      info ∈ startedReplies t.history := by
  obtain ⟨t, hreach, ⟨ht, -⟩, hstarted⟩ := Machine.CanReach.of_rank
    (m := (delegatorMachine : Machine (DelegatorState V) _))
    (fun s ↦ s.Active ∧ Keeps info s) (fun s ↦ info ∈ startedReplies s.history) rank
    (fun s hs hmissing ↦ by
      obtain ⟨a, t, ha, hstep, hkept, hrank⟩ := hs.1.exists_step hs.2 hmissing
      exact ⟨t, .single ha hstep, ⟨hs.1.step ha hstep, hkept⟩, hrank⟩) ⟨hs, hkeeps⟩
  exact ⟨t, hreach, ht, hstarted⟩

/-- Somebody who needs the mutex can have it. -/
private theorem Active.exists_unlocked (hs : s.Active) :
    ∃ t, delegatorMachine.CanReach DelegatorAction.GoesOn s t ∧ t.Active ∧ t.mtx = none := by
  have hstep {r t : DelegatorState V} {a : DelegatorAction V} (hr : r.Active) (ha : a.GoesOn)
      (h : delegatorMachine.step r a = some t) :
      delegatorMachine.CanReach DelegatorAction.GoesOn r t ∧ t.Active :=
    ⟨.single ha h, hr.step ha h⟩
  -- behind the test of the halt flag the worker waits
  have hprocessed {r : DelegatorState V} (hr : r.Active) (hworker : r.worker = .processed) :
      ∃ t, delegatorMachine.CanReach DelegatorAction.GoesOn r t ∧ t.Active ∧ t.mtx = none := by
    obtain ⟨hreach, ht⟩ := hstep (t := { r with mtx := none, worker := .waiting }) hr
      (a := .advance) trivial (by simp [delegatorMachine, advance, hworker, hr.halt])
    exact ⟨_, hreach, ht, rfl⟩
  cases hmtx : s.mtx with
  | none => exact ⟨s, .refl _ _ s, hs, hmtx⟩
  | some owner =>
    cases owner with
    | interruptAll =>
      obtain ⟨hreach, ht⟩ := hstep (t := { s with mtx := none }) hs (a := .interruptDone) trivial
        (by simp [delegatorMachine, hmtx])
      exact ⟨_, hreach, ht, rfl⟩
    | worker =>
      have hlocked := hs.consistent.locked.mp hmtx
      cases hworker : s.worker with
      | awake =>
        cases hqueue : s.replyQueue with
        | nil =>
          obtain ⟨hreach, ht⟩ := hstep (t := { s with worker := .processed }) hs (a := .advance)
            trivial (by simp [delegatorMachine, advance, hworker, hqueue])
          obtain ⟨t, hreach', hdone⟩ := hprocessed ht rfl
          exact ⟨t, hreach.trans hreach', hdone⟩
        | cons next rest =>
          obtain ⟨hreach, ht⟩ := hstep (t := { s with
            replyQueue := rest
            activeId := next.id
            mtx := none
            worker := .popped next }) hs (a := .advance) trivial
            (by simp [delegatorMachine, advance, hworker, hqueue])
          exact ⟨_, hreach, ht, rfl⟩
      | processed => exact hprocessed hs hworker
      | _ =>
        rw [hworker] at hlocked
        exact hlocked.elim

/-- A new reply can be queued. -/
theorem Active.exists_queued (hs : s.Active) (id : UInt64) (reply : UserInputReply V) :
    ∃ r t info, delegatorMachine.CanReach DelegatorAction.GoesOn s r ∧
      delegatorMachine.step r (.queueReply id reply) = some t ∧ t.Active ∧
      t.history = r.history ++ [.queueReply info] ∧ info.id = id ∧ info.reply = reply ∧
      Keeps info t := by
  obtain ⟨r, hreach, hr, hmtx⟩ := hs.exists_unlocked
  let info : ReplyInfo V := ⟨(queuedReplies r.history).length, id, reply⟩
  have hstep : delegatorMachine.step r (.queueReply id reply) = some { r with
      replyQueue := r.replyQueue ++ [info]
      history := r.history ++ [.queueReply info] } := if_pos hmtx
  refine ⟨r, _, info, hreach, hstep, ⟨hr.consistent.step hstep, hr.halt, hr.worker⟩, rfl, rfl,
    rfl, .inr (.inr ?_)⟩
  exact List.mem_append_right _ (List.mem_singleton_self info)

/-- A delegator that was never halted is active, whatever has happened to it. -/
private theorem active_of_run {actions : List (DelegatorAction V)} (hhalt : .halt ∉ actions)
    (hrun : delegatorMachine.run .new actions = some s) : s.Active := by
  have hinv : s.halt = false ∧ (s.worker = .exited → s.halt = true) := by
    refine @Machine.run_invariant_of_everyStep _ _ delegatorMachine (fun _ a ↦ a ≠ .halt)
      (fun s ↦ s.halt = false ∧ (s.worker = .exited → s.halt = true)) ?_ _ _ _ ⟨rfl, by rintro ⟨⟩⟩
      (Machine.everyStep_of_forall_mem _ fun a ha heq ↦ hhalt (heq ▸ ha)) hrun
    intro s a t hs ha h
    refine ⟨?_, halt_of_exited hs.2 h⟩
    cases delegatorStep_of_step h with
    | halt => exact absurd rfl ha
    | _ => exact hs.1
  refine ⟨consistent_of_run hrun, hinv.1, fun hexited ↦ ?_⟩
  rw [hinv.2 hexited] at hinv
  exact Bool.noConfusion hinv.1

/-- A queued reply that was not dropped is still kept. -/
private theorem Consistent.keeps (hs : s.Consistent) (hqueued : info ∈ queuedReplies s.history)
    (hcleared : info ∉ clearedReplies s.history) : Keeps info s := by
  rcases hs.delivery.mem_cases hqueued with hpopped | hdropped | hwaiting
  · exact (List.mem_append.mp hpopped).imp_right .inl
  · exact absurd hdropped hcleared
  · exact .inr (.inr hwaiting)

end DelegatorState

/-- A delegator that was never halted does not get stuck: it is enough that calls return to it
and that its worker goes on. Then every queued reply that no `InterruptAll` has dropped is
passed, and a new reply can be queued and passed. -/
theorem replies_can_be_sent {V : Type} {actions : List (DelegatorAction V)}
    {s : DelegatorState V} (hhalt : .halt ∉ actions)
    (hrun : delegatorMachine.run .new actions = some s) :
    (∀ info ∈ queuedReplies s.history, info ∉ clearedReplies s.history →
      ∃ t, delegatorMachine.CanReach DelegatorAction.GoesOn s t ∧
        info ∈ startedReplies t.history) ∧
    ∀ id reply, ∃ r t u info,
      delegatorMachine.CanReach DelegatorAction.GoesOn s r ∧
      delegatorMachine.step r (.queueReply id reply) = some t ∧
      t.history = r.history ++ [.queueReply info] ∧ info.id = id ∧ info.reply = reply ∧
      delegatorMachine.CanReach DelegatorAction.GoesOn t u ∧ info ∈ startedReplies u.history := by
  have hactive := DelegatorState.active_of_run hhalt hrun
  constructor
  · intro info hqueued hcleared
    obtain ⟨t, hreach, -, hstarted⟩ :=
      hactive.exists_started (hactive.consistent.keeps hqueued hcleared)
    exact ⟨t, hreach, hstarted⟩
  · intro id reply
    obtain ⟨r, t, info, hreach, hstep, ht, hhistory, hid, hreply, hkeeps⟩ :=
      hactive.exists_queued id reply
    obtain ⟨u, hsent, -, hstarted⟩ := ht.exists_started hkeeps
    exact ⟨r, t, u, info, hreach, hstep, hhistory, hid, hreply, hsent, hstarted⟩

private def sampleReply : UserInputReply Unit := ⟨⟨1⟩, true, ()⟩

/-- While `InterruptAll` holds the mutex and has dropped a second reply, a third one can be
queued and passed. -/
theorem replies_can_be_sent_interrupted :
    ∃ s, delegatorMachine.run .new [.queueReply 1 sampleReply, .queueReply 2 sampleReply, .advance,
        .advance, .interruptAll] = some s ∧ s.mtx = some .interruptAll ∧
      (∃ t, delegatorMachine.CanReach DelegatorAction.GoesOn s t ∧
        ⟨0, 1, sampleReply⟩ ∈ startedReplies t.history) ∧
      ∃ r t u info, delegatorMachine.CanReach DelegatorAction.GoesOn s r ∧
        delegatorMachine.step r (.queueReply 3 sampleReply) = some t ∧
        t.history = r.history ++ [.queueReply info] ∧ info.id = 3 ∧ info.reply = sampleReply ∧
        delegatorMachine.CanReach DelegatorAction.GoesOn t u ∧
        info ∈ startedReplies u.history := by
  obtain ⟨s, hs⟩ : ∃ s, delegatorMachine.run .new [.queueReply 1 sampleReply,
      .queueReply 2 sampleReply, .advance, .advance, .interruptAll] = some s :=
    Option.isSome_iff_exists.mp (by rfl)
  have hhistory : s.history = [.queueReply ⟨0, 1, sampleReply⟩, .queueReply ⟨1, 2, sampleReply⟩,
      .interruptAll [⟨1, 2, sampleReply⟩] (some 1)] :=
    delegatorMachine.observe_run (fun s ↦ s.history) hs (by rfl)
  have hmtx : s.mtx = some .interruptAll :=
    delegatorMachine.observe_run (fun s ↦ s.mtx) hs (by rfl)
  obtain ⟨hkept, hnew⟩ := replies_can_be_sent (by simp) hs
  refine ⟨s, hs, hmtx, hkept ⟨0, 1, sampleReply⟩ ?_ ?_, hnew 3 sampleReply⟩
  · simp [hhistory, queuedReplies]
  · simp [hhistory, clearedReplies]

end OacTreeServer.Client
