import OacTreeServer.Epics.ServerQueues

/-!
# Calls of the manager that interleave

Any number of threads call `AddAnyValues`, `AddInputHandler` and `UpdateAnyValue` of one
manager (`epics/epics_anyvalue_manager.cpp:47`) while the update loops of its servers take
their queues. Every section under a lock is one step, so a call of `AddInputHandler` takes
two and an update that finds its server takes one to look it up and one to push.
-/

namespace OacTreeServer.Epics
open OacTreeServer.External OacTreeServer.Input OacTreeServer.Library OacTreeServer.Protocol

/-- A call of one of the three operations. -/
inductive ManagerCall (V : Type) where
  | addAnyValues (nameValueSet : NameAnyValueSet V)
  | addInputHandler (inputServerName : String)
  | updateAnyValue (name : String) (value : V)

/-- What a call does next. -/
inductive CallStage where
  /-- Locks the maps for the first time. -/
  | entered
  /-- `AddInputHandler` locks the maps again, to add the PV of the requests. -/
  | addInputRequest
  /-- `UpdateAnyValue` has found a server and pushes to its queue. -/
  | pushUpdate (server : Nat)
  /-- Has returned, or has passed an exception on. -/
  | done (outcome : Except Exception Bool)

/-- An update as it was pushed to the queue of a server, and the call that did it. -/
structure PushedUpdate (V : Type) where
  caller : Nat
  server : Nat
  name : String
  updateVal : V

/-- The state of the manager and of its callers. -/
structure ManagerState (V : Type) where
  manager : EPICSAnyValueManager V
  /-- `m_input_servers`: the name of each server, and the call that created it in place of
  its address. -/
  inputServers : List (Nat × String)
  calls : Nat → Option (ManagerCall V × CallStage)
  /-- The updates pushed so far. -/
  pushed : List (PushedUpdate V)

/-- One step of some thread. -/
inductive ManagerAction (V : Type) where
  /-- A thread enters a call. -/
  | enter (caller : Nat) (call : ManagerCall V)
  /-- A call runs its next section. -/
  | advance (caller : Nat)
  /-- The update loop of a server takes its queue. -/
  | popCommands (server : Nat)

namespace ManagerState

variable {V : Type}

/-- No call has been made. -/
def start : ManagerState V := ⟨.new, [], fun _ ↦ none, []⟩

/-- A call is at a new stage. -/
def setCall (s : ManagerState V) (caller : Nat) (call : ManagerCall V) (stage : CallStage) :
    ManagerState V :=
  { s with calls := Function.update s.calls caller (some (call, stage)) }

/-- The call is at its new stage, and other calls stay where they are. -/
theorem calls_setCall (s : ManagerState V) (caller other : Nat) (call : ManagerCall V)
    (stage : CallStage) : (s.setCall caller call stage).calls other =
      if other = caller then some (call, stage) else s.calls other :=
  Function.update_apply ..

/-- The call is at its new stage. -/
@[simp] theorem calls_setCall_self (s : ManagerState V) (caller : Nat) (call : ManagerCall V)
    (stage : CallStage) : (s.setCall caller call stage).calls caller = some (call, stage) := by
  rw [calls_setCall, if_pos rfl]

/-- The updates that a call has pushed. -/
def pushesOf (s : ManagerState V) (caller : Nat) : List (PushedUpdate V) :=
  s.pushed.filter (·.caller = caller)

/-- The commands that were pushed to the queue of a server. -/
def commandsOf (s : ManagerState V) (server : Nat) : List (AnyValueUpdateCommand V) :=
  (s.pushed.filter (·.server = server)).map fun p ↦ .valueUpdate p.name p.updateVal

variable [AnyValue V] [OacTree V] [Base64VariableCodec V]

/-- The next section of a call, and the stage behind it. -/
def section? (s : ManagerState V) (caller : Nat) :
    ManagerCall V → CallStage → Option (ManagerState V × CallStage)
  | .addAnyValues nameValueSet, .entered =>
    let (added, manager) := s.manager.addAnyValues nameValueSet
    some ({ s with manager := manager }, .done (.ok added))
  | .addInputHandler inputServerName, .entered =>
    match s.manager.addInputServer inputServerName with
    | (false, manager) => some ({ s with manager := manager }, .done (.ok false))
    | (true, manager) =>
      some ({ s with
        manager := manager
        inputServers := s.inputServers ++ [(caller, inputServerName)] }, .addInputRequest)
  | .addInputHandler inputServerName, .addInputRequest =>
    let (added, manager) := s.manager.addAnyValuesImpl
      [(getInputRequestPVName inputServerName, kInputRequestAnyValue V)]
    some ({ s with manager := manager }, .done (.ok added))
  | .updateAnyValue name _, .entered =>
    match s.manager.findServer name with
    | none => some (s, .done (.ok false))
    | some server => some (s, .pushUpdate server)
  | .updateAnyValue name value, .pushUpdate server =>
    match base64EncodeAnyValue value with
    | .ok updateVal =>
      some ({ s with
        manager := s.manager.pushUpdate server name updateVal
        pushed := s.pushed ++ [⟨caller, server, name, updateVal⟩] }, .done (.ok true))
    | .error e => some (s, .done (.error e))
  | _, _ => none

end ManagerState

variable {V : Type} [AnyValue V] [OacTree V] [Base64VariableCodec V]

/-- The system of all callers of one manager. -/
def managerMachine : Machine (ManagerState V) (ManagerAction V) where
  step s
    | .enter caller call =>
      if (s.calls caller).isNone then some (s.setCall caller call .entered) else none
    | .advance caller =>
      (s.calls caller).bind fun (call, stage) ↦
        (s.section? caller call stage).map fun (t, next) ↦ t.setCall caller call next
    | .popCommands server => some { s with manager := s.manager.popCommands server }

/-- Everything that a section of a call can do to the state, and the stage behind it. -/
inductive Section (s : ManagerState V) (caller : Nat) :
    ManagerCall V → CallStage → ManagerState V → CallStage → Prop where
  | added {nameValueSet} : (nameValueSet.map Prod.fst).Nodup →
      (∀ name ∈ nameValueSet.map Prod.fst, s.manager.findServer name = none) →
      Section s caller (.addAnyValues nameValueSet) .entered
        { s with manager := (s.manager.addAnyValues nameValueSet).2 } (.done (.ok true))
  | notAdded {nameValueSet} : ¬ ((nameValueSet.map Prod.fst).Nodup ∧
      ∀ name ∈ nameValueSet.map Prod.fst, s.manager.findServer name = none) →
      Section s caller (.addAnyValues nameValueSet) .entered s (.done (.ok false))
  | handlerPresent {inputServerName} : s.manager.findInputServer inputServerName ≠ none →
      Section s caller (.addInputHandler inputServerName) .entered s (.done (.ok false))
  | inputServer {inputServerName} : s.manager.findInputServer inputServerName = none →
      Section s caller (.addInputHandler inputServerName) .entered
        { s with
          manager := s.manager.setInputServer inputServerName .new
          inputServers := s.inputServers ++ [(caller, inputServerName)] } .addInputRequest
  | requestAdded {inputServerName} :
      s.manager.findServer (getInputRequestPVName inputServerName) = none →
      Section s caller (.addInputHandler inputServerName) .addInputRequest
        { s with manager := (s.manager.addAnyValuesImpl
          [(getInputRequestPVName inputServerName, kInputRequestAnyValue V)]).2 }
        (.done (.ok true))
  | requestRefused {inputServerName} :
      s.manager.findServer (getInputRequestPVName inputServerName) ≠ none →
      Section s caller (.addInputHandler inputServerName) .addInputRequest s (.done (.ok false))
  | unknown {name value} : s.manager.findServer name = none →
      Section s caller (.updateAnyValue name value) .entered s (.done (.ok false))
  | found {name value server} : s.manager.findServer name = some server →
      Section s caller (.updateAnyValue name value) .entered s (.pushUpdate server)
  | pushed {name value server updateVal} : base64EncodeAnyValue value = .ok updateVal →
      Section s caller (.updateAnyValue name value) (.pushUpdate server)
        { s with
          manager := s.manager.pushUpdate server name updateVal
          pushed := s.pushed ++ [⟨caller, server, name, updateVal⟩] } (.done (.ok true))
  | notEncoded {name value server e} : base64EncodeAnyValue value = .error e →
      Section s caller (.updateAnyValue name value) (.pushUpdate server) s (.done (.error e))

/-- The computed section of a call is one of those above. -/
theorem section_of_eq_some {s t : ManagerState V} {caller : Nat} {call : ManagerCall V}
    {stage next : CallStage} (h : s.section? caller call stage = some (t, next)) :
    Section s caller call stage t next := by
  cases call with
  | addAnyValues nameValueSet =>
    cases stage with
    | entered =>
      simp only [ManagerState.section?, Option.some.injEq, Prod.mk.injEq] at h
      rcases h with ⟨rfl, rfl⟩
      by_cases hfresh : (nameValueSet.map Prod.fst).Nodup ∧
          ∀ name ∈ nameValueSet.map Prod.fst, s.manager.findServer name = none
      · have hadded : (s.manager.addAnyValues nameValueSet).1 = true :=
          (EPICSAnyValueManager.addAnyValuesImpl_fresh hfresh.1 hfresh.2).1
        rw [hadded]
        exact .added hfresh.1 hfresh.2
      · rw [EPICSAnyValueManager.addAnyValues,
          EPICSAnyValueManager.addAnyValuesImpl_invalid hfresh]
        exact .notAdded hfresh
    | _ => cases h
  | addInputHandler inputServerName =>
    cases stage with
    | entered =>
      simp only [ManagerState.section?, EPICSAnyValueManager.addInputServer] at h
      cases hserver : s.manager.nameInputServerMap[inputServerName]? with
      | none =>
        rw [hserver] at h
        cases h
        exact .inputServer hserver
      | some inputServer =>
        rw [hserver] at h
        cases h
        exact .handlerPresent (by rw [EPICSAnyValueManager.findInputServer, hserver]; simp)
    | addInputRequest =>
      simp only [ManagerState.section?, Option.some.injEq, Prod.mk.injEq] at h
      rcases h with ⟨rfl, rfl⟩
      by_cases hnew : s.manager.findServer (getInputRequestPVName inputServerName) = none
      · have hadded : (s.manager.addAnyValuesImpl
            [(getInputRequestPVName inputServerName, kInputRequestAnyValue V)]).1 = true :=
          (EPICSAnyValueManager.addAnyValuesImpl_fresh (by simp) (by simpa using hnew)).1
        rw [hadded]
        exact .requestAdded hnew
      · rw [EPICSAnyValueManager.addAnyValuesImpl_refused (by simp) hnew]
        exact .requestRefused hnew
    | _ => cases h
  | updateAnyValue name value =>
    cases stage with
    | entered =>
      simp only [ManagerState.section?] at h
      cases hfind : s.manager.findServer name with
      | none =>
        rw [hfind] at h
        cases h
        exact .unknown hfind
      | some server =>
        rw [hfind] at h
        cases h
        exact .found hfind
    | pushUpdate server =>
      simp only [ManagerState.section?] at h
      cases hencode : base64EncodeAnyValue value with
      | ok updateVal =>
        rw [hencode] at h
        cases h
        exact .pushed hencode
      | error e =>
        rw [hencode] at h
        cases h
        exact .notEncoded hencode
    | _ => cases h

/-- Every section is computed. -/
theorem Section.eq_some {s t : ManagerState V} {caller : Nat} {call : ManagerCall V}
    {stage next : CallStage} (h : Section s caller call stage t next) :
    s.section? caller call stage = some (t, next) := by
  cases h with
  | added hnodup hnew =>
    have hadded := (EPICSAnyValueManager.addAnyValuesImpl_fresh hnodup hnew).1
    simp only [ManagerState.section?, EPICSAnyValueManager.addAnyValues, hadded]
  | notAdded hfresh =>
    simp only [ManagerState.section?, EPICSAnyValueManager.addAnyValues,
      EPICSAnyValueManager.addAnyValuesImpl_invalid hfresh]
  | @handlerPresent inputServerName hserver =>
    cases hs : s.manager.nameInputServerMap[inputServerName]? with
    | none => exact absurd hs hserver
    | some inputServer => simp only [ManagerState.section?, EPICSAnyValueManager.addInputServer, hs]
  | inputServer hserver =>
    rw [EPICSAnyValueManager.findInputServer] at hserver
    simp only [ManagerState.section?, EPICSAnyValueManager.addInputServer, hserver]
  | @requestAdded inputServerName hnew =>
    have hadded : (s.manager.addAnyValuesImpl
        [(getInputRequestPVName inputServerName, kInputRequestAnyValue V)]).1 = true :=
      (EPICSAnyValueManager.addAnyValuesImpl_fresh (by simp) (by simpa using hnew)).1
    simp only [ManagerState.section?, hadded]
  | @requestRefused inputServerName hknown =>
    have hrefused : s.manager.addAnyValuesImpl
        [(getInputRequestPVName inputServerName, kInputRequestAnyValue V)] = (false, s.manager) :=
      EPICSAnyValueManager.addAnyValuesImpl_refused (by simp) hknown
    simp only [ManagerState.section?, hrefused]
  | unknown hfind => simp only [ManagerState.section?, hfind]
  | found hfind => simp only [ManagerState.section?, hfind]
  | pushed hencode => simp only [ManagerState.section?, hencode]
  | notEncoded hencode => simp only [ManagerState.section?, hencode]

/-- Everything that a step of the system can do. -/
inductive ManagerStep (s : ManagerState V) : ManagerAction V → ManagerState V → Prop where
  | enter {caller call} : s.calls caller = none →
      ManagerStep s (.enter caller call) (s.setCall caller call .entered)
  | advance {caller call stage t next} : s.calls caller = some (call, stage) →
      Section s caller call stage t next →
      ManagerStep s (.advance caller) (t.setCall caller call next)
  | popCommands {server} :
      ManagerStep s (.popCommands server) { s with manager := s.manager.popCommands server }

/-- The computed steps of the system are those above. -/
theorem managerStep_iff {s t : ManagerState V} {a : ManagerAction V} :
    managerMachine.step s a = some t ↔ ManagerStep s a t := by
  constructor
  · intro h
    cases a with
    | enter caller call =>
      simp only [managerMachine] at h
      split at h
      · next hnone =>
        cases h
        exact .enter (Option.isNone_iff_eq_none.mp hnone)
      · cases h
    | advance caller =>
      rcases Option.bind_eq_some_iff.mp h with ⟨⟨call, stage⟩, hcall, h⟩
      rcases Option.map_eq_some_iff.mp h with ⟨⟨r, next⟩, hsection, rfl⟩
      exact .advance hcall (section_of_eq_some hsection)
    | popCommands server =>
      cases h
      exact .popCommands
  · intro h
    cases h with
    | enter hnone => simp [managerMachine, hnone]
    | advance hcall hsection => simp [managerMachine, hcall, hsection.eq_some]
    | popCommands => rfl

/-- A section does not touch the table of the calls. -/
theorem Section.calls_eq {s t : ManagerState V} {caller : Nat} {call : ManagerCall V}
    {stage next : CallStage} (h : Section s caller call stage t next) : t.calls = s.calls := by
  cases h <;> rfl

/-- A name that is found stays under its server. -/
theorem Section.findServer_mono {s t : ManagerState V} {caller : Nat} {call : ManagerCall V}
    {stage next : CallStage} (h : Section s caller call stage t next) {name : String} {i : Nat}
    (hfind : s.manager.findServer name = some i) : t.manager.findServer name = some i := by
  cases h with
  | added _ _ => exact EPICSAnyValueManager.findServer_addAnyValuesImpl hfind _
  | requestAdded _ => exact EPICSAnyValueManager.findServer_addAnyValuesImpl hfind _
  | _ => exact hfind

/-- A section pushes updates of its own call only. -/
theorem Section.pushesOf_of_ne {s t : ManagerState V} {caller other : Nat} {call : ManagerCall V}
    {stage next : CallStage} (h : Section s caller call stage t next) (hne : other ≠ caller) :
    t.pushesOf other = s.pushesOf other := by
  cases h with
  | pushed _ => simp [ManagerState.pushesOf, List.filter_append, Ne.symm hne]
  | _ => rfl

/-- What an update that has returned, or has thrown, did to the queues. -/
def UpdateDone (s : ManagerState V) (caller : Nat) (name : String) (value : V) :
    Except Exception Bool → Prop
  | .ok true => ∃ server updateVal, s.manager.findServer name = some server ∧
      base64EncodeAnyValue value = .ok updateVal ∧
      s.pushesOf caller = [⟨caller, server, name, updateVal⟩]
  | .ok false => s.pushesOf caller = []
  | .error e => s.manager.findServer name ≠ none ∧ base64EncodeAnyValue value = .error e ∧
      s.pushesOf caller = []

/-- What holds of a call at its stage. -/
def CallInv (s : ManagerState V) (caller : Nat) : Option (ManagerCall V × CallStage) → Prop
  | some (.updateAnyValue name _, .pushUpdate server) =>
    s.manager.findServer name = some server ∧ s.pushesOf caller = []
  | some (.updateAnyValue name value, .done outcome) => UpdateDone s caller name value outcome
  | _ => s.pushesOf caller = []

/-- What holds in every state that is reached. -/
structure ManagerInv (s : ManagerState V) : Prop where
  calls : ∀ caller, CallInv s caller (s.calls caller)
  /-- A queue ends in what was pushed to it and not yet taken. -/
  queues : ∀ i server, s.manager.servers[i]? = some server →
    server.updateQueue.valueUpdates <:+ s.commandsOf i

omit [AnyValue V] [OacTree V] in
/-- Sections of other calls keep what holds of a call. -/
private theorem CallInv.frame {s t : ManagerState V} {caller : Nat}
    {entry : Option (ManagerCall V × CallStage)} (h : CallInv s caller entry)
    (hfind : ∀ name i, s.manager.findServer name = some i → t.manager.findServer name = some i)
    (hpushes : t.pushesOf caller = s.pushesOf caller) : CallInv t caller entry := by
  unfold CallInv at h ⊢
  split
  · exact ⟨hfind _ _ h.1, hpushes.trans h.2⟩
  · next name value outcome =>
    simp only at h
    unfold UpdateDone at h ⊢
    split
    · rcases h with ⟨server, updateVal, hserver, hencode, hown⟩
      exact ⟨server, updateVal, hfind _ _ hserver, hencode, hpushes.trans hown⟩
    · exact hpushes.trans h
    · refine ⟨?_, h.2.1, hpushes.trans h.2.2⟩
      cases hserver : s.manager.findServer name with
      | none => exact absurd hserver h.1
      | some i => simp [hfind _ _ hserver]
  · next hpush hdone =>
    split at h
    · exact absurd rfl (hpush _ _ _)
    · exact absurd rfl (hdone _ _ _)
    · exact hpushes.trans h

/-- A section pushes to the end of one queue what it records. -/
private theorem Section.queues {s t : ManagerState V} {caller : Nat} {call : ManagerCall V}
    {stage next : CallStage} (h : Section s caller call stage t next)
    (hqueues : ∀ i server, s.manager.servers[i]? = some server →
      server.updateQueue.valueUpdates <:+ s.commandsOf i) (i : Nat) (server : EPICSServer V)
    (hserver : t.manager.servers[i]? = some server) :
    server.updateQueue.valueUpdates <:+ t.commandsOf i := by
  have hgrows : ∀ {manager : EPICSAnyValueManager V}, Grows s.manager manager →
      manager.servers[i]? = some server →
      server.updateQueue.valueUpdates <:+ s.commandsOf i := by
    intro manager h hi
    cases hold : s.manager.servers[i]? with
    | some old =>
      obtain rfl := Option.some.inj ((h.getElem? hold).symm.trans hi)
      exact hqueues i old hold
    | none =>
      rw [h.queue_of_new hold hi]
      exact List.nil_suffix
  cases h with
  | added _ _ => exact hgrows (.addAnyValuesImpl _ _) hserver
  | requestAdded _ => exact hgrows (.addAnyValuesImpl _ _) hserver
  | inputServer _ => exact hqueues i server hserver
  | @pushed name value target updateVal _ =>
    by_cases hi : target = i
    · subst hi
      rw [EPICSAnyValueManager.servers_pushUpdate_self] at hserver
      rcases Option.map_eq_some_iff.mp hserver with ⟨old, hold, rfl⟩
      rcases hqueues target old hold with ⟨taken, htaken⟩
      refine ⟨taken, ?_⟩
      simp only [ManagerState.commandsOf] at htaken
      simp [ManagerState.commandsOf, List.filter_append, ← htaken, AnyValueUpdateQueue.push]
    · rw [EPICSAnyValueManager.servers_pushUpdate_of_ne _ hi] at hserver
      simpa [ManagerState.commandsOf, List.filter_append, hi] using hqueues i server hserver
  | _ => exact hqueues i server hserver

/-- A call's own section establishes what holds at its next stage. -/
private theorem Section.callInv {s t : ManagerState V} {caller : Nat} {call : ManagerCall V}
    {stage next : CallStage} (h : Section s caller call stage t next)
    (hcall : CallInv s caller (some (call, stage))) : CallInv t caller (some (call, next)) := by
  cases h with
  | pushed hencode =>
    refine ⟨_, _, hcall.1, hencode, ?_⟩
    have hnone : s.pushed.filter (·.caller = caller) = [] := hcall.2
    simp [ManagerState.pushesOf, List.filter_append, hnone]
  | notEncoded hencode => exact ⟨by rw [hcall.1]; simp, hencode, hcall.2⟩
  | found hfind => exact ⟨hfind, hcall⟩
  | _ => exact hcall

/-- Every step keeps what holds of the calls. -/
theorem callInv_step {s t : ManagerState V} {a : ManagerAction V}
    (hcalls : ∀ caller, CallInv s caller (s.calls caller)) (h : ManagerStep s a t) (other : Nat) :
    CallInv t other (t.calls other) := by
  cases h with
  | @enter caller call hnone =>
    change CallInv s other ((s.setCall caller call .entered).calls other)
    rw [ManagerState.calls_setCall]
    split
    · next heq =>
      have hold := hcalls caller
      rw [hnone] at hold
      subst heq
      cases call <;> exact hold
    · exact (hcalls other).frame (fun _ _ h ↦ h) rfl
  | @advance caller call stage r next hcall hsection =>
    change CallInv r other ((r.setCall caller call next).calls other)
    rw [ManagerState.calls_setCall, hsection.calls_eq]
    split
    · next heq =>
      have hold := hcalls caller
      rw [hcall] at hold
      subst heq
      exact hsection.callInv hold
    · next hne =>
      exact (hcalls other).frame (fun _ _ h ↦ hsection.findServer_mono h)
        (hsection.pushesOf_of_ne hne)
  | popCommands => exact (hcalls other).frame (fun _ _ h ↦ h) rfl

/-- Every step keeps the invariant. -/
private theorem ManagerInv.step {s t : ManagerState V} {a : ManagerAction V} (hinv : ManagerInv s)
    (h : ManagerStep s a t) : ManagerInv t := by
  refine ⟨callInv_step hinv.calls h, ?_⟩
  cases h with
  | enter => exact hinv.queues
  | advance _ hsection => exact hsection.queues hinv.queues
  | @popCommands i =>
    intro j server hserver
    by_cases hij : i = j
    · subst hij
      rw [EPICSAnyValueManager.popCommands, List.getElem?_modify_eq] at hserver
      rcases Option.map_eq_some_iff.mp hserver with ⟨old, _, rfl⟩
      exact List.nil_suffix
    · rw [EPICSAnyValueManager.popCommands, List.getElem?_modify_ne _ _ hij] at hserver
      exact hinv.queues j server hserver

/-- A section puts what it pushes to a server behind what waits there. -/
private theorem Section.waitingAt {s t : ManagerState V} {caller : Nat} {call : ManagerCall V}
    {stage next : CallStage} (h : Section s caller call stage t next)
    (hcall : CallInv s caller (some (call, stage))) (i : Nat) :
    ∃ new, t.commandsOf i = s.commandsOf i ++ new ∧
      t.manager.waitingAt i = s.manager.waitingAt i ++ new := by
  have hsame : ∀ {manager : EPICSAnyValueManager V} {inputServers : List (Nat × String)},
      manager.waitingAt i = s.manager.waitingAt i →
      ∃ new, ManagerState.commandsOf { s with
          manager := manager
          inputServers := inputServers } i = s.commandsOf i ++ new ∧
        manager.waitingAt i = s.manager.waitingAt i ++ new :=
    fun hwaiting ↦ ⟨[], (List.append_nil _).symm, hwaiting.trans (List.append_nil _).symm⟩
  cases h with
  | added => exact hsame (EPICSAnyValueManager.waitingAt_of_grows (.addAnyValuesImpl _ _) i)
  | requestAdded => exact hsame (EPICSAnyValueManager.waitingAt_of_grows (.addAnyValuesImpl _ _) i)
  | inputServer => exact hsame rfl
  | @pushed name value server updateVal hencode =>
    have hlt := lt_of_findServer hcall.1
    refine ⟨if i = server ∧ server < s.manager.servers.length then
      [.valueUpdate name updateVal] else [], ?_, ?_⟩
    · by_cases hi : i = server
      · simp [ManagerState.commandsOf, List.filter_append, hi, hlt]
      · simp [ManagerState.commandsOf, List.filter_append, hi, Ne.symm hi]
    · exact EPICSAnyValueManager.waitingAt_pushUpdate s.manager server name updateVal i
  | _ => exact ⟨[], (List.append_nil _).symm, (List.append_nil _).symm⟩

/-- A step that does not take the queue of a server puts what it pushes to that server behind
what waits there. -/
theorem waitingAt_step {s t : ManagerState V} {a : ManagerAction V}
    (hcalls : ∀ caller, CallInv s caller (s.calls caller)) (h : ManagerStep s a t) {i : Nat}
    (ha : a ≠ .popCommands i) :
    ∃ new, t.commandsOf i = s.commandsOf i ++ new ∧
      t.manager.waitingAt i = s.manager.waitingAt i ++ new := by
  cases h with
  | enter => exact ⟨[], (List.append_nil _).symm, (List.append_nil _).symm⟩
  | @advance caller call stage r next hcall hsection =>
    have hinv := hcalls caller
    rw [hcall] at hinv
    exact hsection.waitingAt hinv i
  | @popCommands server =>
    have hne : server ≠ i := fun heq ↦ ha (heq ▸ rfl)
    refine ⟨[], (List.append_nil _).symm, ?_⟩
    rw [List.append_nil]
    apply EPICSAnyValueManager.waitingAt_congr
    rw [EPICSAnyValueManager.popCommands, List.getElem?_modify_ne _ _ hne]

/-- The invariant holds in every state that is reached. -/
theorem managerInv_run {s : ManagerState V} {as : List (ManagerAction V)}
    (h : managerMachine.run .start as = some s) : ManagerInv s := by
  apply managerMachine.run_invariant (fun hinv hstep ↦ hinv.step (managerStep_iff.mp hstep)) _ h
  exact ⟨fun _ ↦ rfl, by simp [ManagerState.start, EPICSAnyValueManager.new]⟩

/-- The map and the list of servers say the same of every name. -/
structure Represents (manager : EPICSAnyValueManager V) : Prop where
  /-- A name points to a server of the list that has it. -/
  found : ∀ name i, manager.nameServerMap[name]? = some i →
    ∃ server : EPICSServer V, manager.servers[i]? = some server ∧ name ∈ server.names
  /-- Every name of a server is mapped to that very server. -/
  mapped : ∀ i (server : EPICSServer V), manager.servers[i]? = some server →
    ∀ name ∈ server.names, manager.nameServerMap[name]? = some i
  /-- Two servers have no name in common. -/
  disjoint : ∀ (i j : Nat) (server other : EPICSServer V), i ≠ j →
    manager.servers[i]? = some server → manager.servers[j]? = some other →
    server.names.Disjoint other.names

/-- `AddAnyValues` accepts exactly the sets of distinct names that are not registered, and
changes nothing when it refuses. -/
def AddsAllOrNothing (s : ManagerState V) : Prop :=
  ∀ caller nameValueSet, s.calls caller = some (.addAnyValues nameValueSet, .entered) →
    ∃ t added, managerMachine.step s (.advance caller) = some t ∧
      t.calls = Function.update s.calls caller
        (some (.addAnyValues nameValueSet, .done (.ok added))) ∧
      (added = true ↔ (nameValueSet.map Prod.fst).Nodup ∧
        ∀ name ∈ nameValueSet.map Prod.fst, s.manager.findServer name = none) ∧
      (added = true → t.manager.valueSets = s.manager.valueSets ++ [nameValueSet]) ∧
      (added = false → t.manager = s.manager ∧ t.inputServers = s.inputServers)

/-- `UpdateAnyValue` returns false for a name that is not registered when it is looked up,
and changes nothing. -/
def UpdateLooksUp (s : ManagerState V) : Prop :=
  ∀ caller name value, s.calls caller = some (.updateAnyValue name value, .entered) →
    managerMachine.step s (.advance caller) =
      some (s.setCall caller (.updateAnyValue name value)
        (match s.manager.findServer name with
        | none => .done (.ok false)
        | some server => .pushUpdate server))

/-- With a name that was registered, `UpdateAnyValue` appends one update to the queue of the
one server of that name and returns true, unless the value cannot be encoded. -/
def UpdatePushesOnce (s : ManagerState V) : Prop :=
  ∀ caller name value i, s.calls caller = some (.updateAnyValue name value, .pushUpdate i) →
    s.manager.findServer name = some i ∧
    ∃ t, managerMachine.step s (.advance caller) = some t ∧
      match base64EncodeAnyValue value with
      | .error e => t = s.setCall caller (.updateAnyValue name value) (.done (.error e))
      | .ok updateVal =>
        t.calls = Function.update s.calls caller
          (some (.updateAnyValue name value, .done (.ok true))) ∧
        (∃ server, s.manager.servers[i]? = some server ∧ t.manager.servers[i]? =
          some { server with updateQueue := server.updateQueue.push name updateVal }) ∧
        (∀ j, j ≠ i → t.manager.servers[j]? = s.manager.servers[j]?) ∧
        t.manager.nameServerMap = s.manager.nameServerMap ∧
        t.manager.nameInputServerMap = s.manager.nameInputServerMap ∧
        t.inputServers = s.inputServers

omit [AnyValue V] [OacTree V] [Base64VariableCodec V] in
/-- Every manager represents its names in both containers. -/
theorem represents (manager : EPICSAnyValueManager V) : Represents manager where
  found name i h := (manager.nameServerMap_iff name i).mp h
  mapped i server hserver name hname :=
    (manager.nameServerMap_iff name i).mpr ⟨server, hserver, hname⟩
  disjoint i j server other hne hserver hother := by
    intro name hname hname'
    have hi := (manager.nameServerMap_iff name i).mpr ⟨server, hserver, hname⟩
    have hj := (manager.nameServerMap_iff name j).mpr ⟨other, hother, hname'⟩
    rw [hi, Option.some.injEq] at hj
    exact hne hj

/-- The section of `AddAnyValues`. -/
private theorem addsAllOrNothing (s : ManagerState V) : AddsAllOrNothing s := by
  intro caller nameValueSet hcall
  by_cases hfresh : (nameValueSet.map Prod.fst).Nodup ∧
      ∀ name ∈ nameValueSet.map Prod.fst, s.manager.findServer name = none
  · refine ⟨_, true, managerStep_iff.mpr (.advance hcall (.added hfresh.1 hfresh.2)), rfl, ?_,
      fun _ ↦ ?_, nofun⟩
    · simpa using hfresh
    · exact (EPICSAnyValueManager.addAnyValuesImpl_fresh hfresh.1 hfresh.2).2
  · refine ⟨_, false, managerStep_iff.mpr (.advance hcall (.notAdded hfresh)), rfl, ?_, nofun,
      fun _ ↦ ⟨rfl, rfl⟩⟩
    simpa using hfresh

/-- The first section of `UpdateAnyValue`. -/
private theorem updateLooksUp (s : ManagerState V) : UpdateLooksUp s := by
  intro caller name value hcall
  apply managerStep_iff.mpr
  cases hfind : s.manager.findServer name with
  | none => exact .advance hcall (.unknown hfind)
  | some server => exact .advance hcall (.found hfind)

/-- The second section of `UpdateAnyValue`. -/
private theorem updatePushesOnce {s : ManagerState V} (hinv : ManagerInv s) :
    UpdatePushesOnce s := by
  intro caller name value i hcall
  have hat := hinv.calls caller
  rw [hcall] at hat
  have hfind : s.manager.findServer name = some i := hat.1
  refine ⟨hfind, ?_⟩
  cases hencode : base64EncodeAnyValue value with
  | error e => exact ⟨_, managerStep_iff.mpr (.advance hcall (.notEncoded hencode)), rfl⟩
  | ok updateVal =>
    rcases (represents s.manager).found name i hfind with ⟨server, hserver, _⟩
    refine ⟨_, managerStep_iff.mpr (.advance hcall (.pushed hencode)), rfl, ⟨server, hserver, ?_⟩,
      fun j hj ↦ ?_, rfl, rfl, rfl⟩
    · change (s.manager.pushUpdate i name updateVal).servers[i]? = _
      rw [EPICSAnyValueManager.servers_pushUpdate_self, hserver]
      rfl
    · exact EPICSAnyValueManager.servers_pushUpdate_of_ne _ (Ne.symm hj) _ _

/-- In every state that interleaved calls can reach, the map and the list of servers
represent the same names; sets of values are added as a whole or not at all; and an update
reaches the queue of the one server of its name, exactly once, if there is one. What the
calls have pushed so far is what the queues hold and what was taken from them. -/
theorem manager_represents_names {s : ManagerState V} {as : List (ManagerAction V)}
    (hrun : managerMachine.run .start as = some s) :
    Represents s.manager ∧ AddsAllOrNothing s ∧ UpdateLooksUp s ∧ UpdatePushesOnce s ∧
      (∀ caller name value outcome,
        s.calls caller = some (.updateAnyValue name value, .done outcome) →
          UpdateDone s caller name value outcome) ∧
      ∀ i server, s.manager.servers[i]? = some server →
        server.updateQueue.valueUpdates <:+ s.commandsOf i := by
  have hinv := managerInv_run hrun
  refine ⟨represents s.manager, addsAllOrNothing s, updateLooksUp s, updatePushesOnce hinv, ?_,
    hinv.queues⟩
  intro caller name value outcome hcall
  have hdone := hinv.calls caller
  rw [hcall] at hdone
  exact hdone

/-- A set of values, an update and an input handler whose sections interleave. -/
theorem manager_represents_names_interleaved :
    ∃ s : ManagerState DtoValue, managerMachine.run .start
        [.enter 0 (.addAnyValues [("v", .empty)]), .enter 1 (.updateAnyValue "v" (.boolean true)),
          .enter 2 (.addInputHandler "S"), .advance 2, .advance 0, .advance 1, .advance 2,
          .advance 1] = some s ∧
      Represents s.manager ∧ UpdateDone s 1 "v" (.boolean true) (.ok true) := by
  obtain ⟨s, hs⟩ : ∃ s : ManagerState DtoValue, managerMachine.run .start
      [.enter 0 (.addAnyValues [("v", .empty)]), .enter 1 (.updateAnyValue "v" (.boolean true)),
        .enter 2 (.addInputHandler "S"), .advance 2, .advance 0, .advance 1, .advance 2,
        .advance 1] = some s :=
    Option.isSome_iff_exists.mp (by rfl)
  have hcall : s.calls 1 = some (.updateAnyValue "v" (.boolean true), .done (.ok true)) :=
    managerMachine.observe_run (fun s ↦ s.calls 1) hs (by rfl)
  have hnames := manager_represents_names hs
  exact ⟨s, hs, hnames.1, hnames.2.2.2.2.1 1 "v" (.boolean true) (.ok true) hcall⟩

end OacTreeServer.Epics
