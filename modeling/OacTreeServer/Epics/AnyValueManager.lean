import OacTreeServer.Cpp.StdMap
import OacTreeServer.Epics.UpdateQueue
import OacTreeServer.Input.Requests

/-!
# The manager of the published values

`EPICSAnyValueManager` (`epics/epics_anyvalue_manager.cpp:35`) creates one `EPICSServer`
for each set of values that it is given and one `EPICSInputServer` for each input
handler. A server is identified by its position in the list of servers, as the code
identifies it by its address; no server is ever removed. The well-formedness field says
that the map of names knows exactly the values of these servers, each under one server.
-/

namespace OacTreeServer.Epics
open OacTreeServer.Cpp OacTreeServer.External OacTreeServer.Input OacTreeServer.Protocol

/-- `EPICSServer`: the variables that it was created for and its queue;
`epics_server.h:64`. -/
structure EPICSServer (V : Type) where
  nameValueSet : NameAnyValueSet V
  updateQueue : AnyValueUpdateQueue V

/-- The names of the variables of a server. -/
def EPICSServer.names {V : Type} (server : EPICSServer V) : List String :=
  server.nameValueSet.map Prod.fst

/-- The members of the manager; `epics_anyvalue_manager.h:63`. -/
structure EPICSAnyValueManager (V : Type) where
  nameServerMap : NameMap Nat
  servers : List (EPICSServer V)
  nameInputServerMap : NameMap (InputRequestServer V)
  /-- The map knows exactly the variables of the servers. -/
  nameServerMap_iff : ∀ name i, nameServerMap[name]? = some i ↔
    ∃ server : EPICSServer V, servers[i]? = some server ∧ name ∈ server.names

namespace EPICSAnyValueManager

variable {V : Type}

/-- Construction; `epics_anyvalue_manager.cpp:35`. -/
def new : EPICSAnyValueManager V where
  nameServerMap := ∅
  servers := []
  nameInputServerMap := ∅
  nameServerMap_iff := by simp

/-- `ValidateNameValueSet`; `epics_anyvalue_manager.cpp:144`. -/
def validateNameValueSet (manager : EPICSAnyValueManager V) (nameValueSet : NameAnyValueSet V) :
    Bool :=
  if (getNames nameValueSet).length ≠ nameValueSet.length then
    false
  else
    (getNames nameValueSet).all fun name ↦ manager.nameServerMap[name]?.isNone

/-- Valid sets are those of distinct, unknown names. -/
theorem validateNameValueSet_iff (manager : EPICSAnyValueManager V)
    (nameValueSet : NameAnyValueSet V) :
    manager.validateNameValueSet nameValueSet = true ↔
      (nameValueSet.map Prod.fst).Nodup ∧
      ∀ name ∈ nameValueSet.map Prod.fst, manager.nameServerMap[name]? = none := by
  have hlen : (getNames nameValueSet).length = nameValueSet.length ↔
      (nameValueSet.map Prod.fst).Nodup := by
    have hmap : (nameValueSet.map Prod.fst).length = nameValueSet.length := List.length_map _
    rw [getNames, ← hmap]
    constructor
    · intro h
      rw [← List.dedup_eq_self]
      exact (List.dedup_sublist _).eq_of_length h
    · intro h
      rw [h.dedup]
  unfold validateNameValueSet
  split
  · next h =>
    have hdup : ¬ (nameValueSet.map Prod.fst).Nodup := fun hn ↦ h (hlen.mpr hn)
    simp [hdup]
  · next h => simp [hlen.mp (not_not.mp h), getNames]

/-- A new server knows its own names, all of which were unknown. -/
private theorem nameServerMap_add (manager : EPICSAnyValueManager V)
    (nameValueSet : NameAnyValueSet V)
    (hnew : ∀ name ∈ nameValueSet.map Prod.fst, manager.nameServerMap[name]? = none)
    (name : String) (i : Nat) :
    ((getNames nameValueSet).foldl (fun m name ↦ m.insert name manager.servers.length)
      manager.nameServerMap)[name]? = some i ↔
    ∃ server, (manager.servers ++ [⟨nameValueSet, .new⟩])[i]? = some server ∧
      name ∈ server.names := by
  rw [NameMap.getElem?_foldl_insert, getNames]
  simp only [List.mem_dedup]
  by_cases hi : i < manager.servers.length
  · rw [List.getElem?_append_left hi, ← manager.nameServerMap_iff]
    by_cases hn : name ∈ nameValueSet.map Prod.fst
    · rw [if_pos hn, hnew name hn]
      simp only [Option.some.injEq, reduceCtorEq, iff_false]
      omega
    · rw [if_neg hn]
  · have hold : manager.nameServerMap[name]? ≠ some i := by
      rw [Ne, manager.nameServerMap_iff, List.getElem?_eq_none (Nat.not_lt.mp hi)]
      simp
    rw [List.getElem?_append_right (Nat.not_lt.mp hi)]
    by_cases he : i = manager.servers.length
    · subst he
      by_cases hn : name ∈ nameValueSet.map Prod.fst
      · rw [if_pos hn]
        simpa [EPICSServer.names] using hn
      · rw [if_neg hn]
        simpa [EPICSServer.names, hold] using hn
    · have : i - manager.servers.length ≠ 0 := by omega
      rw [List.getElem?_eq_none (by simp; omega)]
      by_cases hn : name ∈ nameValueSet.map Prod.fst
      · simp [hn, Ne.symm he]
      · simp [hn, hold]

/-- `AddAnyValuesImpl`; `epics_anyvalue_manager.cpp:127`. -/
def addAnyValuesImpl (manager : EPICSAnyValueManager V) (nameValueSet : NameAnyValueSet V) :
    Bool × EPICSAnyValueManager V :=
  if h : manager.validateNameValueSet nameValueSet = true then
    (true, { manager with
      nameServerMap := (getNames nameValueSet).foldl
        (fun m name ↦ m.insert name manager.servers.length) manager.nameServerMap
      servers := manager.servers ++ [⟨nameValueSet, .new⟩]
      nameServerMap_iff := nameServerMap_add manager nameValueSet
        ((validateNameValueSet_iff manager nameValueSet).mp h).2 })
  else
    (false, manager)

/-- `AddAnyValues`, under the lock of the maps; `epics_anyvalue_manager.cpp:47`. -/
def addAnyValues (manager : EPICSAnyValueManager V) (nameValueSet : NameAnyValueSet V) :
    Bool × EPICSAnyValueManager V :=
  manager.addAnyValuesImpl nameValueSet

/-- Assignment to the map of input servers. -/
def setInputServer (manager : EPICSAnyValueManager V) (name : String)
    (server : InputRequestServer V) : EPICSAnyValueManager V :=
  { manager with nameInputServerMap := manager.nameInputServerMap.insert name server }

/-- The first section of `AddInputHandler`; `epics_anyvalue_manager.cpp:56`. -/
def addInputServer [OacTree V] (manager : EPICSAnyValueManager V) (inputServerName : String) :
    Bool × EPICSAnyValueManager V :=
  match manager.nameInputServerMap[inputServerName]? with
  | some _ => (false, manager)
  | none => (true, manager.setInputServer inputServerName .new)

/-- `AddInputHandler`: two sections under the lock of the maps;
`epics_anyvalue_manager.cpp:54`. -/
def addInputHandler [AnyValue V] [OacTree V] (manager : EPICSAnyValueManager V)
    (inputServerName : String) : Bool × EPICSAnyValueManager V :=
  match manager.addInputServer inputServerName with
  | (false, manager) => (false, manager)
  | (true, manager) =>
    manager.addAnyValuesImpl [(getInputRequestPVName inputServerName, kInputRequestAnyValue V)]

/-- `FindServer`; `epics_anyvalue_manager.cpp:162`. -/
def findServer (manager : EPICSAnyValueManager V) (name : String) : Option Nat :=
  manager.nameServerMap[name]?

/-- `FindInputServer`; `epics_anyvalue_manager.cpp:173`. -/
def findInputServer (manager : EPICSAnyValueManager V) (serverName : String) :
    Option (InputRequestServer V) :=
  manager.nameInputServerMap[serverName]?

/-- A change of one server that keeps its names does not touch the map. -/
theorem nameServerMap_modify (manager : EPICSAnyValueManager V)
    {f : EPICSServer V → EPICSServer V} (hf : ∀ server, (f server).names = server.names) (i : Nat)
    (name : String) (j : Nat) :
    manager.nameServerMap[name]? = some j ↔
      ∃ server, (manager.servers.modify i f)[j]? = some server ∧ name ∈ server.names := by
  rw [manager.nameServerMap_iff, List.getElem?_modify]
  by_cases hij : i = j
  · cases manager.servers[j]? <;> simp [hij, hf]
  · simp [hij]

/-- A push to the queue of one server. -/
def pushUpdate (manager : EPICSAnyValueManager V) (i : Nat) (name : String) (updateVal : V) :
    EPICSAnyValueManager V :=
  { manager with
    servers := manager.servers.modify i fun server ↦
      { server with updateQueue := server.updateQueue.push name updateVal }
    nameServerMap_iff := by
      apply manager.nameServerMap_modify
      intro server
      rfl }

/-- The update loop of one server takes its queue; `epics_server.cpp:68`. -/
def popCommands (manager : EPICSAnyValueManager V) (i : Nat) : EPICSAnyValueManager V :=
  { manager with
    servers := manager.servers.modify i fun server ↦
      { server with updateQueue := server.updateQueue.popCommands.2 }
    nameServerMap_iff := by
      apply manager.nameServerMap_modify
      intro server
      rfl }

/-- The queue of one server is replaced. -/
def setQueue (manager : EPICSAnyValueManager V) (i : Nat) (queue : AnyValueUpdateQueue V) :
    EPICSAnyValueManager V :=
  { manager with
    servers := manager.servers.modify i fun server ↦ { server with updateQueue := queue }
    nameServerMap_iff := by
      apply manager.nameServerMap_modify
      intro server
      rfl }

/-- The queue of a server behind a push to it. -/
theorem servers_pushUpdate_self (manager : EPICSAnyValueManager V) (i : Nat) (name : String)
    (updateVal : V) :
    (manager.pushUpdate i name updateVal).servers[i]? = manager.servers[i]?.map fun server ↦
      { server with updateQueue := server.updateQueue.push name updateVal } := by
  rw [pushUpdate, List.getElem?_modify_eq]
  rfl

/-- A push does not touch the other servers. -/
theorem servers_pushUpdate_of_ne (manager : EPICSAnyValueManager V) {i j : Nat} (h : i ≠ j)
    (name : String) (updateVal : V) :
    (manager.pushUpdate i name updateVal).servers[j]? = manager.servers[j]? := by
  rw [pushUpdate, List.getElem?_modify_ne _ _ h]

/-- `EPICSServer::UpdateAnyValue` of one server; `epics_server.cpp:46`. -/
def updateServer [Base64VariableCodec V] (manager : EPICSAnyValueManager V) (i : Nat)
    (name : String) (value : V) : Except Exception (EPICSAnyValueManager V) := do
  let updateVal ← base64EncodeAnyValue value
  return manager.pushUpdate i name updateVal

/-- `UpdateAnyValue`; `epics_anyvalue_manager.cpp:80`. -/
def updateAnyValue [Base64VariableCodec V] (manager : EPICSAnyValueManager V) (name : String)
    (value : V) : Except Exception (Bool × EPICSAnyValueManager V) :=
  match manager.findServer name with
  | none => .ok (false, manager)
  | some i => do
    let manager ← manager.updateServer i name value
    return (true, manager)

instance [AnyValue V] [OacTree V] [Base64VariableCodec V] :
    IAnyValueManager (EPICSAnyValueManager V) V where
  addAnyValues manager nameValueSet := .ok (manager.addAnyValues nameValueSet)
  addInputHandler manager inputServerName := .ok (manager.addInputHandler inputServerName)
  updateAnyValue := updateAnyValue

/-- An update of one server fails with the encoder, or is pushed. -/
theorem updateServer_eq [Base64VariableCodec V] (manager : EPICSAnyValueManager V) (i : Nat)
    (name : String) (value : V) :
    manager.updateServer i name value =
      (base64EncodeAnyValue value).map fun updateVal ↦ manager.pushUpdate i name updateVal := by
  unfold updateServer
  cases base64EncodeAnyValue value <;> rfl

/-- Adding values finds every server that was found before. -/
theorem findServer_addAnyValuesImpl {manager : EPICSAnyValueManager V} {name : String} {i : Nat}
    (h : manager.findServer name = some i) (nameValueSet : NameAnyValueSet V) :
    (manager.addAnyValuesImpl nameValueSet).2.findServer name = some i := by
  unfold addAnyValuesImpl
  split
  · next hv =>
    have hnew := ((validateNameValueSet_iff manager nameValueSet).mp hv).2
    rw [findServer, NameMap.getElem?_foldl_insert, if_neg, ← findServer, h]
    intro hm
    rw [findServer, hnew name (List.mem_dedup.mp hm)] at h
    cases h
  · exact h

/-- Adding values does not change the input servers. -/
@[simp] theorem findInputServer_addAnyValuesImpl (manager : EPICSAnyValueManager V)
    (nameValueSet : NameAnyValueSet V) :
    (manager.addAnyValuesImpl nameValueSet).2.findInputServer = manager.findInputServer := by
  unfold addAnyValuesImpl
  split <;> rfl

/-- Assignment of an input server is seen under its name only. -/
@[simp] theorem findInputServer_setInputServer (manager : EPICSAnyValueManager V) (name : String)
    (server : InputRequestServer V) :
    (manager.setInputServer name server).findInputServer =
      Function.update manager.findInputServer name (some server) := by
  ext other
  rw [findInputServer, setInputServer, NameMap.getElem?_insert, Function.update_apply]
  simp only [eq_comm, findInputServer]

/-- Assignment of an input server does not change the names of the values. -/
@[simp] theorem findServer_setInputServer (manager : EPICSAnyValueManager V) (name : String)
    (server : InputRequestServer V) :
    (manager.setInputServer name server).findServer = manager.findServer := rfl

/-- Pushing an update does not change the input servers. -/
@[simp] theorem findInputServer_pushUpdate (manager : EPICSAnyValueManager V) (i : Nat)
    (name : String) (updateVal : V) :
    (manager.pushUpdate i name updateVal).findInputServer = manager.findInputServer := rfl

/-- The sets of values that the servers were created for. -/
def valueSets (manager : EPICSAnyValueManager V) : List (NameAnyValueSet V) :=
  manager.servers.map EPICSServer.nameValueSet

/-- The server that is found for a name is the one that was created for it. -/
theorem findServer_eq_some_iff {manager : EPICSAnyValueManager V} {name : String} {i : Nat} :
    manager.findServer name = some i ↔
      ∃ nameValueSet, manager.valueSets[i]? = some nameValueSet ∧
        name ∈ nameValueSet.map Prod.fst := by
  rw [findServer, manager.nameServerMap_iff, valueSets, List.getElem?_map]
  cases manager.servers[i]? <;> simp [EPICSServer.names]

/-- No server is found for a name that none was created for. -/
theorem findServer_eq_none_iff {manager : EPICSAnyValueManager V} {name : String} :
    manager.findServer name = none ↔
      ∀ nameValueSet ∈ manager.valueSets, name ∉ nameValueSet.map Prod.fst := by
  constructor
  · intro h nameValueSet hset hname
    obtain ⟨i, hi⟩ := List.mem_iff_getElem?.mp hset
    have hfound := findServer_eq_some_iff.mpr ⟨nameValueSet, hi, hname⟩
    rw [h] at hfound
    cases hfound
  · intro h
    rw [Option.eq_none_iff_forall_ne_some]
    intro i hi
    obtain ⟨nameValueSet, hset, hname⟩ := findServer_eq_some_iff.mp hi
    exact h nameValueSet (List.mem_of_getElem? hset) hname

/-- A set of distinct, unknown names is added, and a server created for it. -/
theorem addAnyValuesImpl_fresh {manager : EPICSAnyValueManager V}
    {nameValueSet : NameAnyValueSet V} (hnodup : (nameValueSet.map Prod.fst).Nodup)
    (hnew : ∀ name ∈ nameValueSet.map Prod.fst, manager.findServer name = none) :
    (manager.addAnyValuesImpl nameValueSet).1 = true ∧
      (manager.addAnyValuesImpl nameValueSet).2.valueSets =
        manager.valueSets ++ [nameValueSet] := by
  have hvalid : manager.validateNameValueSet nameValueSet = true :=
    (validateNameValueSet_iff manager nameValueSet).mpr ⟨hnodup, hnew⟩
  unfold addAnyValuesImpl
  rw [dif_pos hvalid]
  exact ⟨rfl, by simp [valueSets]⟩

/-- Any other set is refused, and nothing changes. -/
theorem addAnyValuesImpl_invalid {manager : EPICSAnyValueManager V}
    {nameValueSet : NameAnyValueSet V} (h : ¬ ((nameValueSet.map Prod.fst).Nodup ∧
      ∀ name ∈ nameValueSet.map Prod.fst, manager.findServer name = none)) :
    manager.addAnyValuesImpl nameValueSet = (false, manager) := by
  unfold addAnyValuesImpl
  rw [dif_neg]
  intro hvalid
  exact h ((validateNameValueSet_iff manager nameValueSet).mp hvalid)

/-- A set with a known name is refused. -/
theorem addAnyValuesImpl_refused {manager : EPICSAnyValueManager V}
    {nameValueSet : NameAnyValueSet V} {name : String} (hname : name ∈ nameValueSet.map Prod.fst)
    (hfound : manager.findServer name ≠ none) :
    manager.addAnyValuesImpl nameValueSet = (false, manager) := by
  apply addAnyValuesImpl_invalid
  intro h
  exact hfound (h.2 name hname)

/-- An input handler with unknown names is added, with a server for its requests. -/
theorem addInputHandler_fresh [AnyValue V] [OacTree V] {manager : EPICSAnyValueManager V}
    {inputServerName : String} (hserver : manager.findInputServer inputServerName = none)
    (hnew : manager.findServer (getInputRequestPVName inputServerName) = none) :
    (manager.addInputHandler inputServerName).1 = true ∧
      (manager.addInputHandler inputServerName).2.valueSets = manager.valueSets ++
        [[(getInputRequestPVName inputServerName, kInputRequestAnyValue V)]] ∧
      (manager.addInputHandler inputServerName).2.findInputServer =
        Function.update manager.findInputServer inputServerName (some .new) := by
  have hadd : manager.addInputServer inputServerName =
      (true, manager.setInputServer inputServerName .new) := by
    unfold addInputServer
    rw [← findInputServer, hserver]
  unfold addInputHandler
  rw [hadd]
  have hfresh : ((manager.setInputServer inputServerName .new).addAnyValuesImpl
      [(getInputRequestPVName inputServerName, kInputRequestAnyValue V)]).1 = true ∧ _ :=
    addAnyValuesImpl_fresh (by simp) (by simpa using hnew)
  refine ⟨hfresh.1, hfresh.2, ?_⟩
  rw [findInputServer_addAnyValuesImpl, findInputServer_setInputServer]

/-- Pushing an update does not change the sets of values. -/
@[simp] theorem valueSets_pushUpdate (manager : EPICSAnyValueManager V) (i : Nat)
    (name : String) (updateVal : V) :
    (manager.pushUpdate i name updateVal).valueSets = manager.valueSets := by
  unfold valueSets pushUpdate
  apply List.ext_getElem?
  intro j
  rw [List.getElem?_map, List.getElem?_map, List.getElem?_modify]
  by_cases hij : i = j
  · cases manager.servers[j]? <;> simp [hij]
  · simp [hij]

/-- An update of a known name is accepted and pushed to its server, unless its value cannot
be encoded. -/
theorem updateAnyValue_of_findServer [Base64VariableCodec V] {manager : EPICSAnyValueManager V}
    {name : String} {i : Nat} (h : manager.findServer name = some i) (value : V) :
    manager.updateAnyValue name value = (base64EncodeAnyValue value).map
      fun updateVal ↦ (true, manager.pushUpdate i name updateVal) := by
  unfold updateAnyValue
  rw [h]
  dsimp only
  rw [updateServer_eq]
  cases base64EncodeAnyValue value <;> rfl

/-- Updates of a name are accepted: the encoded value is put behind what waits in the queue of
one server, and nothing else changes. If there is no encoded value, that exception is thrown. -/
def QueuesAt [Base64VariableCodec V] (manager : EPICSAnyValueManager V) (i : Nat)
    (name : String) : Prop :=
  ∀ value, match base64EncodeAnyValue value with
    | .error e => manager.updateAnyValue name value = .error e
    | .ok updateVal => ∃ manager' server,
        manager.updateAnyValue name value = .ok (true, manager') ∧
        manager.servers[i]? = some server ∧
        manager'.servers[i]? = some { server with
          updateQueue := ⟨server.updateQueue.valueUpdates ++ [.valueUpdate name updateVal]⟩ } ∧
        (∀ j, j ≠ i → manager'.servers[j]? = manager.servers[j]?) ∧
        manager'.nameServerMap = manager.nameServerMap ∧
        manager'.nameInputServerMap = manager.nameInputServerMap

/-- Updates of a known name are queued at its server. -/
theorem queuesAt_of_findServer [Base64VariableCodec V] {manager : EPICSAnyValueManager V}
    {name : String} {i : Nat} (h : manager.findServer name = some i) :
    manager.QueuesAt i name := by
  intro value
  have hupdate := updateAnyValue_of_findServer h value
  cases hencode : base64EncodeAnyValue value with
  | error e =>
    rw [hencode] at hupdate
    exact hupdate
  | ok updateVal =>
    rw [hencode] at hupdate
    obtain ⟨server, hserver, -⟩ := (manager.nameServerMap_iff name i).mp h
    refine ⟨_, server, hupdate, hserver, ?_, fun j hj ↦ ?_, rfl, rfl⟩
    · rw [servers_pushUpdate_self, hserver]
      rfl
    · exact servers_pushUpdate_of_ne manager (Ne.symm hj) name updateVal

/-- Updates are queued under known names only. -/
theorem QueuesAt.findServer_ne_none [AnyValue V] [Base64VariableCodec V]
    {manager : EPICSAnyValueManager V} {i : Nat} {name : String} (h : manager.QueuesAt i name) :
    manager.findServer name ≠ none := by
  intro hunknown
  have hrefused : ∀ value, manager.updateAnyValue name value = .ok (false, manager) := by
    intro value
    rw [updateAnyValue, hunknown]
  have hempty := h AnyValue.empty
  split at hempty
  · rw [hrefused] at hempty
    cases hempty
  · obtain ⟨manager', server, hupdate, -⟩ := hempty
    rw [hrefused] at hupdate
    cases hupdate

/-- An update changes nothing but a queue. -/
theorem updateAnyValue_frame [Base64VariableCodec V] {manager manager' : EPICSAnyValueManager V}
    {name : String} {value : V} {updated : Bool}
    (h : manager.updateAnyValue name value = .ok (updated, manager')) :
    manager'.valueSets = manager.valueSets ∧
      manager'.findInputServer = manager.findInputServer := by
  cases hfind : manager.findServer name with
  | none =>
    unfold updateAnyValue at h
    rw [hfind] at h
    cases h
    exact ⟨rfl, rfl⟩
  | some i =>
    rw [updateAnyValue_of_findServer hfind] at h
    cases hencode : base64EncodeAnyValue value with
    | error e =>
      rw [hencode] at h
      cases h
    | ok updateVal =>
      rw [hencode] at h
      cases h
      exact ⟨valueSets_pushUpdate _ _ _ _, rfl⟩

end EPICSAnyValueManager
end OacTreeServer.Epics
