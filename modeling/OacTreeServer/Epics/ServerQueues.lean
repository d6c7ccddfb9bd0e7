import OacTreeServer.Epics.AnyValueManager
import OacTreeServer.Epics.UpdateThread

/-!
# The queues of the servers of a manager

`EPICSAnyValueManager` only adds servers, with empty queues, and pushes updates to the queues
(`epics/epics_anyvalue_manager.cpp:127`). What a server has still to process is what is left of
the batch of its thread, and its queue.
-/

namespace OacTreeServer.Epics
open OacTreeServer.External OacTreeServer.Library OacTreeServer.Protocol

variable {S V : Type}

/-- Only servers that there are are found. -/
theorem lt_of_findServer {manager : EPICSAnyValueManager V} {channel : String} {i : Nat}
    (h : manager.findServer channel = some i) : i < manager.servers.length := by
  obtain ⟨server, hserver, -⟩ := (manager.nameServerMap_iff channel i).mp h
  exact (List.getElem?_eq_some_iff.mp hserver).1

/-- The server at which a channel is found has a value for it. -/
theorem exists_value_of_findServer {manager : EPICSAnyValueManager V} {channel : String} {i : Nat}
    (h : manager.findServer channel = some i) {epicsServer : EPICSServer V}
    (hserver : manager.servers[i]? = some epicsServer) :
    ∃ value, (channel, value) ∈ epicsServer.nameValueSet := by
  obtain ⟨found, hfound, hname⟩ := (manager.nameServerMap_iff channel i).mp h
  obtain rfl := Option.some.inj (hserver.symm.trans hfound)
  obtain ⟨⟨name, value⟩, hmem, rfl⟩ := List.mem_map.mp hname
  exact ⟨value, hmem⟩

/-- The second manager has the servers of the first one, and others with empty queues. -/
def Grows (manager manager' : EPICSAnyValueManager V) : Prop :=
  ∃ servers, manager'.servers = manager.servers ++ servers ∧
    ∀ server ∈ servers, server.updateQueue = .new

namespace Grows

variable {manager manager' manager'' : EPICSAnyValueManager V}

/-- No server is added. -/
theorem of_eq (h : manager'.servers = manager.servers) : Grows manager manager' :=
  ⟨[], by rw [h, List.append_nil], nofun⟩

/-- Servers are added twice. -/
theorem trans (h : Grows manager manager') (h' : Grows manager' manager'') :
    Grows manager manager'' := by
  obtain ⟨servers, hservers, hnew⟩ := h
  obtain ⟨more, hmore, hnew'⟩ := h'
  refine ⟨servers ++ more, by rw [hmore, hservers, List.append_assoc], fun server hserver ↦ ?_⟩
  exact (List.mem_append.mp hserver).elim (hnew server) (hnew' server)

/-- A server that there was is still there. -/
theorem getElem? (h : Grows manager manager') {i : Nat} {server : EPICSServer V}
    (hi : manager.servers[i]? = some server) : manager'.servers[i]? = some server := by
  obtain ⟨servers, hservers, -⟩ := h
  rw [hservers, List.getElem?_append_left (List.getElem?_eq_some_iff.mp hi).1, hi]

/-- A server that is not there was not there. -/
theorem getElem?_eq_none (h : Grows manager manager') {i : Nat}
    (hi : manager'.servers[i]? = none) : manager.servers[i]? = none := by
  cases hserver : manager.servers[i]? with
  | none => rfl
  | some server =>
    rw [h.getElem? hserver] at hi
    cases hi

/-- Every other server is new. -/
theorem queue_of_new (h : Grows manager manager') {i : Nat} {server : EPICSServer V}
    (hnone : manager.servers[i]? = none) (hi : manager'.servers[i]? = some server) :
    server.updateQueue = .new := by
  obtain ⟨servers, hservers, hnew⟩ := h
  rw [hservers, List.getElem?_append_right (List.getElem?_eq_none_iff.mp hnone)] at hi
  exact hnew server (List.mem_of_getElem? hi)

/-- A channel that was found is found at the same server. -/
theorem findServer (h : Grows manager manager') {channel : String} {i : Nat}
    (hi : manager.findServer channel = some i) : manager'.findServer channel = some i := by
  obtain ⟨server, hserver, hname⟩ := (manager.nameServerMap_iff channel i).mp hi
  exact (manager'.nameServerMap_iff channel i).mpr ⟨server, h.getElem? hserver, hname⟩

/-- A channel that is found at a server that there was was found there. -/
theorem findServer_of_lt (h : Grows manager manager') {channel : String} {i : Nat}
    (hi : manager'.findServer channel = some i) (hlt : i < manager.servers.length) :
    manager.findServer channel = some i := by
  obtain ⟨server, hserver, hname⟩ := (manager'.nameServerMap_iff channel i).mp hi
  obtain ⟨servers, hservers, -⟩ := h
  rw [hservers, List.getElem?_append_left hlt] at hserver
  exact (manager.nameServerMap_iff channel i).mpr ⟨server, hserver, hname⟩

/-- A channel that is not found was not found. -/
theorem findServer_eq_none (h : Grows manager manager') {channel : String}
    (hnone : manager'.findServer channel = none) : manager.findServer channel = none := by
  cases hold : manager.findServer channel with
  | none => rfl
  | some i =>
    rw [h.findServer hold] at hnone
    cases hnone

/-- A channel that is found at a server that there was not was not found. -/
theorem findServer_eq_none_of_le (h : Grows manager manager') {channel : String} {i : Nat}
    (hi : manager'.findServer channel = some i) (hle : manager.servers.length ≤ i) :
    manager.findServer channel = none := by
  cases hold : manager.findServer channel with
  | none => rfl
  | some j =>
    rw [h.findServer hold] at hi
    obtain rfl := Option.some.inj hi
    exact absurd (lt_of_findServer hold) (Nat.not_lt.mpr hle)

/-- Values are added. -/
theorem addAnyValuesImpl (manager : EPICSAnyValueManager V) (nameValueSet : NameAnyValueSet V) :
    Grows manager (manager.addAnyValuesImpl nameValueSet).2 := by
  unfold EPICSAnyValueManager.addAnyValuesImpl
  split
  · refine ⟨[⟨nameValueSet, .new⟩], rfl, fun server hserver ↦ ?_⟩
    rw [List.mem_singleton.mp hserver]
  · exact of_eq rfl

end Grows

/-- The commands that wait in the queue of a server. -/
def EPICSAnyValueManager.waitingAt (manager : EPICSAnyValueManager V) (i : Nat) :
    List (AnyValueUpdateCommand V) :=
  match manager.servers[i]? with
  | none => []
  | some epicsServer => epicsServer.updateQueue.valueUpdates

/-- The values that wait for a channel in the queue of its server. -/
def EPICSAnyValueManager.queuedFor (manager : EPICSAnyValueManager V) (channel : String) :
    List V :=
  match (manager.findServer channel).bind fun i ↦ manager.servers[i]? with
  | none => []
  | some epicsServer => writesTo channel (updatesIn epicsServer.updateQueue.valueUpdates)

namespace EPICSAnyValueManager

variable {manager manager' : EPICSAnyValueManager V} {channel : String} {i : Nat}

/-- What waits at a server is in its queue. -/
theorem waitingAt_eq {epicsServer : EPICSServer V}
    (h : manager.servers[i]? = some epicsServer) :
    manager.waitingAt i = epicsServer.updateQueue.valueUpdates := by
  rw [waitingAt, h]

/-- Nothing waits at a server that is not there. -/
theorem waitingAt_eq_nil (h : manager.servers[i]? = none) : manager.waitingAt i = [] := by
  rw [waitingAt, h]

/-- What waits at a server depends on that server only. -/
theorem waitingAt_congr (h : manager'.servers[i]? = manager.servers[i]?) :
    manager'.waitingAt i = manager.waitingAt i := by
  rw [waitingAt, waitingAt, h]

/-- Nothing waits at new servers. -/
theorem waitingAt_of_grows (h : Grows manager manager') (i : Nat) :
    manager'.waitingAt i = manager.waitingAt i := by
  cases hserver : manager.servers[i]? with
  | some epicsServer => exact waitingAt_congr ((h.getElem? hserver).trans hserver.symm)
  | none =>
    rw [waitingAt_eq_nil hserver]
    cases hnew : manager'.servers[i]? with
    | none => exact waitingAt_eq_nil hnew
    | some epicsServer =>
      rw [waitingAt_eq hnew, h.queue_of_new hserver hnew]
      rfl

/-- A push goes behind what waits at its server. -/
theorem waitingAt_pushUpdate (manager : EPICSAnyValueManager V) (i : Nat) (channel : String)
    (value : V) (j : Nat) :
    (manager.pushUpdate i channel value).waitingAt j = manager.waitingAt j ++
      if j = i ∧ i < manager.servers.length then [.valueUpdate channel value] else [] := by
  by_cases hj : j = i
  · subst hj
    unfold waitingAt
    rw [servers_pushUpdate_self]
    cases hserver : manager.servers[j]? with
    | none =>
      have hlt := List.getElem?_eq_none_iff.mp hserver
      rw [if_neg fun h ↦ Nat.not_le.mpr h.2 hlt]
      rfl
    | some epicsServer =>
      rw [if_pos ⟨rfl, (List.getElem?_eq_some_iff.mp hserver).1⟩]
      rfl
  · rw [if_neg fun h ↦ hj h.1, List.append_nil]
    exact waitingAt_congr (servers_pushUpdate_of_ne manager (Ne.symm hj) channel value)

/-- The queue of a channel that is found at a server. -/
theorem queuedFor_eq {epicsServer : EPICSServer V} (hfind : manager.findServer channel = some i)
    (hserver : manager.servers[i]? = some epicsServer) :
    manager.queuedFor channel =
      writesTo channel (updatesIn epicsServer.updateQueue.valueUpdates) := by
  rw [queuedFor, hfind, Option.bind_some, hserver]

/-- The server of a channel that is found. -/
theorem getElem?_of_findServer (hfind : manager.findServer channel = some i) :
    ∃ epicsServer, manager.servers[i]? = some epicsServer := by
  obtain ⟨server, hserver, -⟩ := (manager.nameServerMap_iff channel i).mp hfind
  exact ⟨server, hserver⟩

/-- New servers do not change the queue of a channel that there was. -/
theorem queuedFor_of_grows (h : Grows manager manager')
    (hfind : (manager.findServer channel).isSome) :
    manager'.queuedFor channel = manager.queuedFor channel := by
  obtain ⟨i, hi⟩ := Option.isSome_iff_exists.mp hfind
  obtain ⟨epicsServer, hserver⟩ := getElem?_of_findServer hi
  rw [queuedFor_eq hi hserver, queuedFor_eq (h.findServer hi) (h.getElem? hserver)]

/-- A value that is pushed to a channel waits behind the others. -/
theorem queuedFor_pushUpdate_self (hfind : manager.findServer channel = some i) (value : V) :
    (manager.pushUpdate i channel value).queuedFor channel =
      manager.queuedFor channel ++ [value] := by
  obtain ⟨epicsServer, hserver⟩ := getElem?_of_findServer hfind
  have hpushed : (manager.pushUpdate i channel value).servers[i]? =
      some { epicsServer with updateQueue := epicsServer.updateQueue.push channel value } := by
    rw [servers_pushUpdate_self, hserver]
    rfl
  have hsame : (manager.pushUpdate i channel value).findServer channel = some i := hfind
  rw [queuedFor_eq hfind hserver, queuedFor_eq hsame hpushed, AnyValueUpdateQueue.push,
    updatesIn_append, writesTo_append]
  simp [updatesIn, writesTo]

/-- A value that is pushed to another channel does not matter. -/
theorem queuedFor_pushUpdate_of_ne {other : String} (hne : other ≠ channel) (j : Nat)
    (value : V) :
    (manager.pushUpdate j other value).queuedFor channel = manager.queuedFor channel := by
  have hsame : (manager.pushUpdate j other value).findServer channel =
      manager.findServer channel := rfl
  rw [queuedFor, queuedFor, hsame]
  cases hfind : manager.findServer channel with
  | none => rfl
  | some i =>
    rw [Option.bind_some, Option.bind_some]
    by_cases hj : j = i
    · subst hj
      rw [servers_pushUpdate_self]
      cases manager.servers[j]? with
      | none => rfl
      | some epicsServer =>
        simp only [Option.map_some, AnyValueUpdateQueue.push, updatesIn_append, writesTo_append]
        simp [updatesIn, writesTo, hne]
    · rw [servers_pushUpdate_of_ne _ hj]

end EPICSAnyValueManager

/-- The commands that a server has still to process: the rest of its batch and its queue. -/
def commandsIn (manager : EPICSAnyValueManager V) (threads : Nat → UpdateThread S V) (i : Nat) :
    List (AnyValueUpdateCommand V) :=
  (threads i).loop.pending ++ manager.waitingAt i

variable {manager manager' : EPICSAnyValueManager V} {threads : Nat → UpdateThread S V}

/-- New servers have nothing to process. -/
theorem Grows.commandsIn (h : Grows manager manager') (threads : Nat → UpdateThread S V)
    (i : Nat) : commandsIn manager' threads i = commandsIn manager threads i := by
  rw [Epics.commandsIn, Epics.commandsIn, EPICSAnyValueManager.waitingAt_of_grows h]

/-- A push goes behind the commands of its server. -/
theorem commandsIn_pushUpdate (manager : EPICSAnyValueManager V)
    (threads : Nat → UpdateThread S V) (i : Nat) (channel : String) (value : V) (j : Nat) :
    commandsIn (manager.pushUpdate i channel value) threads j = commandsIn manager threads j ++
      if j = i ∧ i < manager.servers.length then [.valueUpdate channel value] else [] := by
  rw [commandsIn, commandsIn, EPICSAnyValueManager.waitingAt_pushUpdate, List.append_assoc]

/-- A push leaves the servers that there are. -/
theorem getElem?_pushUpdate_eq_none {i j : Nat} {channel : String} {value : V} :
    (manager.pushUpdate i channel value).servers[j]? = none ↔ manager.servers[j]? = none := by
  rw [EPICSAnyValueManager.pushUpdate, List.getElem?_eq_none_iff, List.length_modify,
    List.getElem?_eq_none_iff]

/-- A queue that is replaced leaves the values of the servers. -/
theorem valueSets_setQueue (manager : EPICSAnyValueManager V) (i : Nat)
    (queue : AnyValueUpdateQueue V) : (manager.setQueue i queue).valueSets = manager.valueSets := by
  apply List.ext_getElem?
  intro j
  rw [EPICSAnyValueManager.valueSets, EPICSAnyValueManager.valueSets,
    EPICSAnyValueManager.setQueue, List.getElem?_map, List.getElem?_map, List.getElem?_modify]
  cases manager.servers[j]? with
  | none => rfl
  | some epicsServer => by_cases hj : i = j <;> simp [hj]

/-- A queue that is replaced leaves the servers that there are. -/
theorem getElem?_setQueue_eq_none {i j : Nat} {queue : AnyValueUpdateQueue V} :
    (manager.setQueue i queue).servers[j]? = none ↔ manager.servers[j]? = none := by
  rw [EPICSAnyValueManager.setQueue, List.getElem?_eq_none_iff, List.length_modify,
    List.getElem?_eq_none_iff]

/-- A thread that has gone on has its own commands left, and leaves the others theirs. -/
theorem commandsIn_setQueue {i : Nat} {epicsServer : EPICSServer V}
    (hserver : manager.servers[i]? = some epicsServer) (t : UpdateLoopState S V) (j : Nat) :
    commandsIn (manager.setQueue i t.updateQueue)
        (Function.update threads i ⟨t.loop, t.server⟩) j =
      if j = i then remaining t else commandsIn manager threads j := by
  unfold commandsIn EPICSAnyValueManager.waitingAt
  rw [EPICSAnyValueManager.setQueue, List.getElem?_modify]
  by_cases hj : j = i
  · subst hj
    simp [hserver, remaining]
  · simp [hj, Ne.symm hj]

end OacTreeServer.Epics
