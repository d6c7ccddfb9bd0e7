import OacTreeServer.External.PvAccessServer
import OacTreeServer.Library.LastWrite
import OacTreeServer.Library.Machine
import OacTreeServer.Protocol.AnyValueIo

/-!
# The update queue of an EPICS server

Producers push updates under a lock; the update loop of `EPICSServer` waits for a
non-empty queue, swaps the whole queue out and applies the batch, stopping at the first
exit command (`epics/anyvalue_update_queue.cpp:38`, `epics/epics_server.cpp:34`). Each
section under the lock and each call of the update function is one step of the machine.
-/

namespace OacTreeServer.Epics
open OacTreeServer.External OacTreeServer.Library OacTreeServer.Protocol

/-- A command in the queue; `anyvalue_update_command.cpp:31`. -/
inductive AnyValueUpdateCommand (V : Type) where
  | valueUpdate (channel : String) (value : V)
  | exitCommand
  deriving DecidableEq, Repr

/-- The threadsafe queue, without its lock; `anyvalue_update_queue.h:44`. -/
structure AnyValueUpdateQueue (V : Type) where
  valueUpdates : List (AnyValueUpdateCommand V)
  deriving Repr

namespace AnyValueUpdateQueue

variable {V : Type}

/-- A new queue; `anyvalue_update_queue.cpp:29`. -/
def new : AnyValueUpdateQueue V := ⟨[]⟩

/-- `Push`; `anyvalue_update_queue.cpp:38`. -/
def push (q : AnyValueUpdateQueue V) (channel : String) (value : V) : AnyValueUpdateQueue V :=
  ⟨q.valueUpdates ++ [.valueUpdate channel value]⟩

/-- `PushExit`; `anyvalue_update_queue.cpp:47`. -/
def pushExit (q : AnyValueUpdateQueue V) : AnyValueUpdateQueue V :=
  ⟨q.valueUpdates ++ [.exitCommand]⟩

/-- The predicate on which `WaitForNonEmpty` blocks; `anyvalue_update_queue.cpp:56`. -/
def nonEmpty (q : AnyValueUpdateQueue V) : Bool := !q.valueUpdates.isEmpty

/-- `PopCommands`: the whole queue is swapped out; `anyvalue_update_queue.cpp:65`. -/
def popCommands (q : AnyValueUpdateQueue V) :
    List (AnyValueUpdateCommand V) × AnyValueUpdateQueue V :=
  (q.valueUpdates, new)

end AnyValueUpdateQueue

/-- `ProcessCommandQueue` with the effect of the update function on a state: whether an
exit command was met, what is left of the batch and the new state;
`anyvalue_update_queue.cpp:75`. -/
def processCommandQueue {V S : Type} (func : S → String → V → S) :
    List (AnyValueUpdateCommand V) → S → Bool × List (AnyValueUpdateCommand V) × S
  | [], s => (false, [], s)
  | .exitCommand :: queue, s => (true, queue, s)
  | .valueUpdate channel value :: queue, s =>
    processCommandQueue func queue (func s channel value)

/-- Where the thread that runs `EPICSServer::UpdateLoop` is. -/
inductive UpdateLoop (V : Type) where
  /-- Before the variables are added and the server is started. -/
  | starting
  /-- At `WaitForNonEmpty`. -/
  | waiting
  /-- At `PopCommands`. -/
  | popping
  /-- In `ProcessCommandQueue` with what is left of the batch. -/
  | processing (queue : List (AnyValueUpdateCommand V))
  /-- Behind the loop, with what was left of the last batch. -/
  | finished (queue : List (AnyValueUpdateCommand V))
  /-- The thread was ended by an exception while it added the variables. -/
  | failed (exception : Exception)

/-- An `EPICSServer` with the thread of its update loop. `pushed` records the commands in
the order in which the lock was taken, `applied` the calls of the update function. -/
structure UpdateLoopState (S V : Type) where
  updateQueue : AnyValueUpdateQueue V
  loop : UpdateLoop V
  server : S
  pushed : List (AnyValueUpdateCommand V)
  applied : List (String × V)

/-- One step of some thread. -/
inductive UpdateLoopAction (V : Type) where
  | push (channel : String) (value : V)
  | pushExit
  /-- The thread of the update loop goes on. -/
  | advance

section Machine

variable {S V : Type} [Base64VariableCodec V] [PvAccessServer S V]

/-- The variables that the update loop serves before it is started;
`epics_server.cpp:54`. -/
def serveVariables (s : S) : NameAnyValueSet V → Except Exception S
  | [] => .ok s
  | (name, value) :: rest => do
    let encoded ← base64EncodeAnyValue value
    serveVariables (PvAccessServer.addVariable s name encoded) rest

/-- The next step of `EPICSServer::UpdateLoop`; `epics_server.cpp:52`. -/
def advance (nameValueSet : NameAnyValueSet V) (s : UpdateLoopState S V) :
    Option (UpdateLoopState S V) :=
  match s.loop with
  | .starting =>
    match serveVariables PvAccessServer.new nameValueSet with
    | .ok server => some { s with loop := .waiting, server := server }
    | .error e => some { s with loop := .failed e }
  | .waiting => if s.updateQueue.nonEmpty then some { s with loop := .popping } else none
  | .popping =>
    let (queue, rest) := s.updateQueue.popCommands
    some { s with loop := .processing queue, updateQueue := rest }
  | .processing [] => some { s with loop := .waiting }
  | .processing (.exitCommand :: queue) => some { s with loop := .finished queue }
  | .processing (.valueUpdate channel value :: queue) =>
    some { s with
      loop := .processing queue
      server := PvAccessServer.setValue s.server channel value
      applied := s.applied ++ [(channel, value)] }
  | .finished _ => none
  | .failed _ => none

/-- The producers and the update loop of a server for a set of variables. -/
def updateLoopMachine (nameValueSet : NameAnyValueSet V) :
    Machine (UpdateLoopState S V) (UpdateLoopAction V) where
  step s
    | .push channel value => some { s with
        updateQueue := s.updateQueue.push channel value
        pushed := s.pushed ++ [.valueUpdate channel value] }
    | .pushExit => some { s with
        updateQueue := s.updateQueue.pushExit
        pushed := s.pushed ++ [.exitCommand] }
    | .advance => advance nameValueSet s

/-- A server right after its construction; `epics_server.cpp:34`. -/
def UpdateLoopState.new : UpdateLoopState S V :=
  { updateQueue := .new, loop := .starting, server := PvAccessServer.new, pushed := []
    applied := [] }

end Machine

/-- The updates that come before the first exit command. -/
def updatesBeforeExit {V : Type} : List (AnyValueUpdateCommand V) → List (String × V)
  | [] => []
  | .exitCommand :: _ => []
  | .valueUpdate channel value :: rest => (channel, value) :: updatesBeforeExit rest

/-- The commands that carry a list of updates. -/
def updateCommands {V : Type} (ws : List (String × V)) : List (AnyValueUpdateCommand V) :=
  ws.map fun w ↦ .valueUpdate w.1 w.2

/-- Updates in front of other commands come before the first exit command. -/
theorem updatesBeforeExit_append {V : Type} (ws : List (String × V))
    (rest : List (AnyValueUpdateCommand V)) :
    updatesBeforeExit (updateCommands ws ++ rest) = ws ++ updatesBeforeExit rest := by
  induction ws with
  | nil => rfl
  | cons w ws ih =>
    simp only [updateCommands, List.map_cons, List.cons_append, updatesBeforeExit]
    rw [← ih]
    rfl

section Delivery

variable {S V : Type} [Base64VariableCodec V] [PvAccessServer S V]
  {nameValueSet : NameAnyValueSet V}

/-- What was popped but not applied yet, in front of what is still in the queue. -/
def UpdateLoop.pending : UpdateLoop V → List (AnyValueUpdateCommand V)
  | .processing queue => queue
  | .finished queue => .exitCommand :: queue
  | _ => []

/-- The pushes in lock order are those applied, those in the private batch and those in
the shared queue; and the served variables are the initial ones with the applied updates. -/
structure Delivered (nameValueSet : NameAnyValueSet V) (s : UpdateLoopState S V) : Prop where
  pushed_eq : s.pushed =
    updateCommands s.applied ++ (s.loop.pending ++ s.updateQueue.valueUpdates)
  starting_applied : s.loop = .starting → s.applied = []
  server_eq : s.loop ≠ .starting → (∀ e, s.loop ≠ .failed e) →
    ∃ server, serveVariables PvAccessServer.new nameValueSet = .ok server ∧
      s.server = s.applied.foldl (fun r w ↦ PvAccessServer.setValue r w.1 w.2) server

/-- A new server has nothing pushed and nothing applied. -/
theorem delivered_new : Delivered nameValueSet (UpdateLoopState.new : UpdateLoopState S V) :=
  ⟨rfl, fun _ ↦ rfl, fun h ↦ absurd rfl h⟩

/-- A step of the update loop moves commands from the queue to the batch and from the
batch to the update function, and loses none. -/
theorem delivered_advance {s t : UpdateLoopState S V} (hs : Delivered nameValueSet s)
    (h : advance nameValueSet s = some t) : Delivered nameValueSet t := by
  obtain ⟨hpushed, hstart, hserver⟩ := hs
  unfold advance at h
  split at h
  · next hl =>
    have happlied := hstart hl
    rw [hl] at hpushed
    split at h
    · next server hok =>
      obtain rfl := Option.some.inj h
      exact ⟨hpushed, fun _ ↦ happlied, fun _ _ ↦ ⟨server, hok, by rw [happlied]; rfl⟩⟩
    · next e he =>
      obtain rfl := Option.some.inj h
      exact ⟨hpushed, fun _ ↦ happlied, fun _ hf ↦ absurd rfl (hf e)⟩
  · next hl =>
    rw [hl] at hpushed hserver
    split at h
    · obtain rfl := Option.some.inj h
      exact ⟨hpushed, nofun, fun _ _ ↦ hserver nofun nofun⟩
    · cases h
  · next hl =>
    rw [hl] at hpushed hserver
    obtain rfl := Option.some.inj h
    refine ⟨?_, nofun, fun _ _ ↦ hserver nofun nofun⟩
    simpa [UpdateLoop.pending, AnyValueUpdateQueue.popCommands, AnyValueUpdateQueue.new]
      using hpushed
  · next hl =>
    rw [hl] at hpushed hserver
    obtain rfl := Option.some.inj h
    exact ⟨hpushed, nofun, fun _ _ ↦ hserver nofun nofun⟩
  · next queue hl =>
    rw [hl] at hpushed hserver
    obtain rfl := Option.some.inj h
    exact ⟨hpushed, nofun, fun _ _ ↦ hserver nofun nofun⟩
  · next channel value queue hl =>
    rw [hl] at hpushed hserver
    obtain rfl := Option.some.inj h
    refine ⟨?_, nofun, fun _ _ ↦ ?_⟩
    · simpa [UpdateLoop.pending, updateCommands] using hpushed
    · obtain ⟨server, hok, heq⟩ := hserver nofun nofun
      exact ⟨server, hok, by rw [List.foldl_append, ← heq]; rfl⟩
  · cases h
  · cases h

/-- Every step keeps the account of the pushed commands. -/
theorem delivered_step {s t : UpdateLoopState S V} {a : UpdateLoopAction V}
    (hs : Delivered nameValueSet s) (h : (updateLoopMachine nameValueSet).step s a = some t) :
    Delivered nameValueSet t := by
  cases a with
  | push channel value =>
    obtain rfl := Option.some.inj h
    exact ⟨by simp [hs.pushed_eq, AnyValueUpdateQueue.push], hs.starting_applied, hs.server_eq⟩
  | pushExit =>
    obtain rfl := Option.some.inj h
    exact ⟨by simp [hs.pushed_eq, AnyValueUpdateQueue.pushExit], hs.starting_applied,
      hs.server_eq⟩
  | advance => exact delivered_advance hs h

/-- The account of the pushed commands holds in every state of every run. -/
theorem delivered_run {s : UpdateLoopState S V} {acts : List (UpdateLoopAction V)}
    (h : (updateLoopMachine nameValueSet).run .new acts = some s) : Delivered nameValueSet s :=
  Machine.run_invariant delivered_step delivered_new h

/-- What was applied is a prefix of the updates pushed before the first exit command. -/
theorem Delivered.applied_isPrefix {s : UpdateLoopState S V} (h : Delivered nameValueSet s) :
    s.applied <+: updatesBeforeExit s.pushed := by
  rw [h.pushed_eq, updatesBeforeExit_append]
  exact List.prefix_append _ _

/-- Behind the loop exactly the updates before the first exit command were applied. -/
theorem Delivered.applied_finished {s : UpdateLoopState S V} (h : Delivered nameValueSet s)
    {queue : List (AnyValueUpdateCommand V)} (hf : s.loop = .finished queue) :
    s.applied = updatesBeforeExit s.pushed := by
  rw [h.pushed_eq, updatesBeforeExit_append, hf]
  simp [UpdateLoop.pending, updatesBeforeExit]

/-- A whole batch processed command by command does what `ProcessCommandQueue` does. -/
theorem run_processing (nameValueSet : NameAnyValueSet V)
    (queue : List (AnyValueUpdateCommand V)) (s : UpdateLoopState S V)
    (hs : s.loop = .processing queue) :
    ∃ n t, (updateLoopMachine nameValueSet).run s (List.replicate n .advance) = some t ∧
      t.server = (processCommandQueue PvAccessServer.setValue queue s.server).2.2 ∧
      t.loop = (match processCommandQueue PvAccessServer.setValue queue s.server with
        | (true, rest, _) => .finished rest
        | (false, _, _) => .waiting) := by
  induction queue generalizing s with
  | nil => exact ⟨1, { s with loop := .waiting }, by
      simp [Machine.run, updateLoopMachine, advance, hs], rfl, rfl⟩
  | cons command queue ih =>
    cases command with
    | exitCommand => exact ⟨1, { s with loop := .finished queue }, by
        simp [Machine.run, updateLoopMachine, advance, hs], rfl, rfl⟩
    | valueUpdate channel value =>
      let next : UpdateLoopState S V := { s with
        loop := .processing queue
        server := PvAccessServer.setValue s.server channel value
        applied := s.applied ++ [(channel, value)] }
      obtain ⟨n, t, hrun, hserver, hloop⟩ := ih next rfl
      refine ⟨n + 1, t, ?_, hserver, hloop⟩
      rw [List.replicate_succ, Machine.run_cons_eq_some]
      exact ⟨next, by simp [updateLoopMachine, advance, hs, next], hrun⟩

variable [LawfulPvAccessServer S]

/-- Adding variables keeps what is served already, and each of them is served with its
encoded initial value. -/
theorem serveVariables_served {s server : S} (h : serveVariables s nameValueSet = .ok server)
    (hn : (nameValueSet.map Prod.fst).Nodup)
    (hfresh : ∀ c ∈ nameValueSet.map Prod.fst, PvAccessServer.served s c = none) :
    (∀ c ∉ nameValueSet.map Prod.fst,
      PvAccessServer.served server c = PvAccessServer.served s c) ∧
    ∀ c v, (c, v) ∈ nameValueSet → ∃ encoded, base64EncodeAnyValue v = .ok encoded ∧
      PvAccessServer.served server c = some encoded := by
  induction nameValueSet generalizing s with
  | nil =>
    cases h
    exact ⟨fun _ _ ↦ rfl, nofun⟩
  | cons nv rest ih =>
    obtain ⟨name, value⟩ := nv
    rw [List.map_cons, List.nodup_cons] at hn
    obtain ⟨hname, hrest⟩ := hn
    unfold serveVariables at h
    cases he : base64EncodeAnyValue value with
    | error e =>
      rw [he] at h
      cases h
    | ok encoded =>
      rw [he] at h
      have hadd := LawfulPvAccessServer.served_addVariable s name encoded
      have hfree := hfresh name (by simp)
      obtain ⟨hother, hmem⟩ := ih h hrest (by
        intro c hc
        rw [hadd c hfree, if_neg (by rintro rfl; exact hname hc)]
        exact hfresh c (List.mem_cons_of_mem _ hc))
      constructor
      · intro c hc
        simp only [List.map_cons, List.mem_cons, not_or] at hc
        rw [hother c hc.2, hadd c hfree, if_neg (Ne.symm hc.1)]
      · intro c v hcv
        rcases List.mem_cons.mp hcv with heq | hcv
        · obtain ⟨rfl, rfl⟩ := Prod.mk.inj heq
          exact ⟨encoded, he, by rw [hother c hname, hadd c hfree, if_pos rfl]⟩
        · exact hmem c v hcv

/-- A server that has just started serves each of its variables with the encoded initial
value. -/
theorem served_of_start {server : S}
    (h : serveVariables PvAccessServer.new nameValueSet = .ok server)
    (hn : (nameValueSet.map Prod.fst).Nodup) {c : String} {v : V} (hc : (c, v) ∈ nameValueSet) :
    ∃ encoded, base64EncodeAnyValue v = .ok encoded ∧
      PvAccessServer.served server c = some encoded :=
  (serveVariables_served h hn fun c _ ↦ LawfulPvAccessServer.served_new c).2 c v hc

omit [Base64VariableCodec V] in
/-- Setting values one after the other leaves the last one set on a served channel, or
the value that it had. -/
theorem served_foldl_setValue (ws : List (String × V)) (s : S) {c : String} {v : V}
    (hc : PvAccessServer.served s c = some v) :
    PvAccessServer.served (ws.foldl (fun r w ↦ PvAccessServer.setValue r w.1 w.2) s) c =
      some ((lastWrite c ws).getD v) := by
  have hset := fun (r : S) k w l (hr : (PvAccessServer.served r c).isSome) (hl : l = c) ↦
    LawfulPvAccessServer.served_setValue r k w l (by rw [hl]; exact hr)
  have h := foldl_get (V := V) PvAccessServer.served PvAccessServer.setValue
    (fun r ↦ (PvAccessServer.served r c).isSome) (· = c)
    (fun r k w hr ↦ by
      rw [hset r k w c hr rfl]
      split <;> simp [hr])
    hset ws s (by simp [hc]) c rfl
  rw [h, hc]
  cases lastWrite c ws <;> rfl

/-- The values served at the end, from the initial ones and the updates pushed. -/
theorem Delivered.served_finished {s : UpdateLoopState S V} (h : Delivered nameValueSet s)
    (hn : (nameValueSet.map Prod.fst).Nodup) {queue : List (AnyValueUpdateCommand V)}
    (hf : s.loop = .finished queue) {c : String} {v : V} (hc : (c, v) ∈ nameValueSet) :
    ∃ initial, base64EncodeAnyValue v = .ok initial ∧
      PvAccessServer.served s.server c =
        some ((lastWrite c (updatesBeforeExit s.pushed)).getD initial) := by
  obtain ⟨server, hserve, heq⟩ := h.server_eq (by rw [hf]; nofun) (by rw [hf]; nofun)
  obtain ⟨initial, henc, hinit⟩ := served_of_start hserve hn hc
  refine ⟨initial, henc, ?_⟩
  rw [heq, served_foldl_setValue s.applied server hinit, h.applied_finished hf]

/-- No update is lost, duplicated or reordered on its way to the served variables: at
every moment the updates applied are a prefix of those pushed before the first exit
command; when the loop has ended they are all of them, and each variable is served with
the last value pushed for it before the exit command, or with its initial value. -/
theorem update_loop_delivers {s : UpdateLoopState S V} {acts : List (UpdateLoopAction V)}
    (h : (updateLoopMachine nameValueSet).run .new acts = some s) :
    s.applied <+: updatesBeforeExit s.pushed ∧
    ∀ queue, s.loop = .finished queue →
      s.applied = updatesBeforeExit s.pushed ∧
      ((nameValueSet.map Prod.fst).Nodup → ∀ c v, (c, v) ∈ nameValueSet →
        ∃ initial, base64EncodeAnyValue v = .ok initial ∧
          PvAccessServer.served s.server c =
            some ((lastWrite c (updatesBeforeExit s.pushed)).getD initial)) :=
  have hd := delivered_run h
  ⟨hd.applied_isPrefix, fun _ hf ↦
    ⟨hd.applied_finished hf, fun hn _ _ hc ↦ hd.served_finished hn hf hc⟩⟩

end Delivery

/-- Two producers around an exit command: the first two updates are applied, in two
batches, and the one behind the exit command is not. -/
theorem update_loop_delivers_two_batches :
    let one : DtoValue := .uint32 1
    let two : DtoValue := .uint32 2
    let acts : List (UpdateLoopAction DtoValue) := [.advance, .push "A" one, .advance, .advance,
      .push "A" two, .advance, .pushExit, .advance, .push "A" one, .advance, .advance, .advance,
      .advance]
    ∃ s : UpdateLoopState PvTable DtoValue,
      (updateLoopMachine [("A", .empty)]).run .new acts = some s ∧
      s.loop = .finished [.valueUpdate "A" one] ∧
      s.applied = [("A", one), ("A", two)] ∧
      PvAccessServer.served s.server "A" = some two := by
  intro one two acts
  obtain ⟨s, hs⟩ : ∃ s : UpdateLoopState PvTable DtoValue,
      (updateLoopMachine [("A", .empty)]).run .new acts = some s := ⟨_, rfl⟩
  have hloop : s.loop = .finished [.valueUpdate "A" one] := by
    cases hs
    rfl
  have hpushed : updatesBeforeExit s.pushed = [("A", one), ("A", two)] := by
    cases hs
    rfl
  obtain ⟨-, hend⟩ := update_loop_delivers hs
  obtain ⟨happlied, hserved⟩ := hend _ hloop
  obtain ⟨initial, -, hA⟩ := hserved (by simp) "A" .empty (by simp)
  refine ⟨s, hs, hloop, happlied.trans hpushed, ?_⟩
  rw [hA, hpushed]
  rfl

end OacTreeServer.Epics
