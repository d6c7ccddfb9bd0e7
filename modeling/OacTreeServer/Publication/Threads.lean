import OacTreeServer.Publication.Channels

/-!
# The threads of the servers

A step of a thread sets the values of its own server only, and sends them to the monitors that are
connected to it, which follow the channels of the server.
-/

namespace OacTreeServer.Publication
open OacTreeServer.Client OacTreeServer.Epics OacTreeServer.External OacTreeServer.Job
  OacTreeServer.Library OacTreeServer.Protocol OacTreeServer.Server

variable {n : Nat} {S C V IS : Type} [PvAccessClientPV C (Fin (n + 1) × Nat) V]
  {s s' : SystemState n S C V IS} {c c' : Fin (n + 1)} {i i' : Nat} {epicsServer : EPICSServer V}
  {t : UpdateLoopState S V}

section After

/-- Only one queue of one manager is replaced. -/
theorem manager_afterThread (c' : Fin (n + 1)) : (s.afterThread c i t).manager c' =
    if c' = c then (s.manager c).setQueue i t.updateQueue else s.manager c' := by
  unfold SystemState.manager SystemState.afterThread SystemState.setQueue
  by_cases hc : c' = c
  · subst hc
    simp [SystemState.manager]
  · simp [hc]

/-- Every channel keeps its server. -/
theorem serves_afterThread {channel : String} :
    (s.afterThread c i t).Serves c' i' channel ↔ s.Serves c' i' channel := by
  unfold SystemState.Serves
  rw [manager_afterThread]
  split
  · next hc => rw [hc]; rfl
  · rfl

/-- Every server keeps its values. -/
theorem valueSets_afterThread (c' : Fin (n + 1)) :
    ((s.afterThread c i t).manager c').valueSets = (s.manager c').valueSets := by
  rw [manager_afterThread]
  split
  · next hc => rw [hc, valueSets_setQueue]
  · rfl

/-- The other threads stay where they are. -/
theorem threads_afterThread (c' : Fin (n + 1)) (i' : Nat) : (s.afterThread c i t).threads c' i' =
    if c' = c ∧ i' = i then ⟨t.loop, t.server⟩ else s.threads c' i' := by
  unfold SystemState.afterThread
  by_cases hc : c' = c
  · subst hc
    by_cases hi : i' = i <;> simp [hi]
  · simp [hc]

omit [PvAccessClientPV C (Fin (n + 1) × Nat) V] in
/-- What the server of the thread had to process. -/
theorem commandsOf_eq (hserver : (s.manager c).servers[i]? = some epicsServer) :
    s.commandsOf c i = remaining (s.threadState c i epicsServer) := by
  rw [SystemState.commandsOf, commandsIn, EPICSAnyValueManager.waitingAt_eq hserver]
  rfl

/-- What it has to process now, and the others as before. -/
theorem commandsOf_afterThread (hserver : (s.manager c).servers[i]? = some epicsServer)
    (c' : Fin (n + 1)) (i' : Nat) : (s.afterThread c i t).commandsOf c' i' =
      if c' = c ∧ i' = i then remaining t else s.commandsOf c' i' := by
  rw [SystemState.commandsOf, manager_afterThread]
  by_cases hc : c' = c
  · subst hc
    have hthreads : (s.afterThread c' i t).threads c' =
        Function.update (s.threads c') i ⟨t.loop, t.server⟩ := Function.update_self ..
    rw [if_pos rfl, hthreads, commandsIn_setQueue hserver]
    simp [SystemState.commandsOf]
  · have hthreads : (s.afterThread c i t).threads c' = s.threads c' := Function.update_of_ne hc ..
    rw [if_neg hc, hthreads, if_neg fun hboth ↦ hc hboth.1]
    rfl

/-- The monitors of a channel that is not posted stay as they are. -/
theorem untouched_afterThread [LawfulPvAccessClientPV C] {channel : String}
    (h : channel ∉ t.applied.map Prod.fst) :
    Untouched s (s.afterThread c i t) channel where
  published := rfl
  delivered := rfl
  monitors pv hpv hchannel := by
    obtain ⟨pv₀, hpv₀, rfl⟩ := List.mem_map.mp hpv
    rw [PvAccessClientPV.channel_postAll] at hchannel
    rwa [PvAccessClientPV.postAll_of_notMem _ (hchannel ▸ h)]

end After

variable [Base64VariableCodec V] [PvAccessServer S V] {channel : String} {history : List V}

omit [Base64VariableCodec V] [PvAccessServer S V] in
/-- What is still to be set for the channels of the server, and of the others as before. -/
private theorem waitingFor_afterThread
    (hserver : (s.manager c).servers[i]? = some epicsServer) :
    (s.afterThread c i t).waitingFor c' i' channel =
      if c' = c ∧ i' = i then writesTo channel (updatesIn (remaining t))
      else s.waitingFor c' i' channel := by
  rw [SystemState.waitingFor, commandsOf_afterThread hserver]
  split <;> rfl

/-- A server whose thread does nothing about a channel is not touched as far as it is concerned. -/
private theorem untouchedAt_afterThread (hserver : (s.manager c).servers[i]? = some epicsServer)
    (hboth : c' = c ∧ i' = i → isRunning t.loop = isRunning (s.threads c i).loop ∧
      PvAccessServer.served t.server channel =
        PvAccessServer.served (s.threads c i).pvServer channel ∧
      writesTo channel (updatesIn (remaining t)) = s.waitingFor c i channel) :
    UntouchedAt s (s.afterThread c i t) c' i' channel := by
  have hinitial (encoded : V) (h : InitialValue (s.manager c') i' channel encoded) :
      InitialValue ((s.afterThread c i t).manager c') i' channel encoded := by
    rwa [InitialValue, valueSets_afterThread]
  by_cases hsame : c' = c ∧ i' = i
  · obtain ⟨hrunning, hvalue, hwaiting⟩ := hboth hsame
    obtain ⟨rfl, rfl⟩ := hsame
    refine ⟨?_, ?_, hinitial, ?_⟩
    · rw [threads_afterThread, if_pos ⟨rfl, rfl⟩]
      exact hrunning
    · rw [threads_afterThread, if_pos ⟨rfl, rfl⟩]
      exact hvalue
    · rw [waitingFor_afterThread hserver, if_pos ⟨rfl, rfl⟩]
      exact hwaiting
  · refine ⟨?_, ?_, hinitial, ?_⟩
    · rw [threads_afterThread, if_neg hsame]
    · rw [threads_afterThread, if_neg hsame]
    · rw [waitingFor_afterThread hserver, if_neg hsame]

variable [LawfulPvAccessServer S]

omit [PvAccessClientPV C (Fin (n + 1) × Nat) V] in
/-- A thread that starts serves a channel of its server with the initial value. -/
private theorem exists_initialValue (hserver : (s.manager c).servers[i]? = some epicsServer)
    (hnodup : epicsServer.names.Nodup) (hserves : s.Serves c i channel) {server : S}
    (hserve : serveVariables PvAccessServer.new epicsServer.nameValueSet = .ok server) :
    ∃ encoded, InitialValue (s.manager c) i channel encoded ∧
      PvAccessServer.served server channel = some encoded := by
  obtain ⟨value, hmem⟩ := exists_value_of_findServer hserves hserver
  obtain ⟨encoded, hencoded, hvalue⟩ := served_of_start hserve hnodup hmem
  refine ⟨encoded, ⟨epicsServer.nameValueSet, value, ?_, hmem, hencoded⟩, hvalue⟩
  rw [EPICSAnyValueManager.valueSets, List.getElem?_map, hserver]
  rfl

variable [LawfulPvAccessClientPV C]

/-- A step of a thread keeps what holds of the channels of its server. -/
private theorem ChannelInv.afterThread (hinv : ChannelInv s c i channel history)
    (hserver : (s.manager c).servers[i]? = some epicsServer) (hnodup : epicsServer.names.Nodup)
    (hserves : s.Serves c i channel)
    (heffect : LoopEffect epicsServer.nameValueSet (s.threadState c i epicsServer) t) :
    ∃ history', ChannelInv (s.afterThread c i t) c i channel history' := by
  have hthread := threads_afterThread (s := s) (t := t) (c := c) (i := i) c i
  rw [if_pos ⟨rfl, rfl⟩] at hthread
  have hbefore : s.waitingFor c i channel = waitingIn channel (s.threadState c i epicsServer) := by
    rw [SystemState.waitingFor, commandsOf_eq hserver]
    rfl
  have hold := hinv.thread
  rw [hbefore] at hold
  obtain ⟨more, hhistory, hrunning, hidle⟩ := hold.advance heffect rfl
    fun _ ↦ exists_initialValue hserver hnodup hserves
  refine ⟨history ++ more, ?_, ?_⟩
  · rw [hthread, waitingFor_afterThread hserver, if_pos ⟨rfl, rfl⟩]
    refine hhistory.same rfl rfl fun encoded hinitial ↦ ?_
    rwa [InitialValue, valueSets_afterThread]
  · intro pv hpv hchannel
    obtain ⟨pv₀, hpv₀, rfl⟩ := List.mem_map.mp hpv
    rw [PvAccessClientPV.channel_postAll] at hchannel
    subst hchannel
    rw [hthread]
    exact (hinv.watched pv₀ hpv₀ rfl).advance hrunning hidle

omit [LawfulPvAccessServer S] [LawfulPvAccessClientPV C] in
/-- A step of a thread: the thread of one server goes on. -/
theorem advance_eq_some (h : s.advance c i = some s') : ∃ epicsServer t,
    (s.manager c).servers[i]? = some epicsServer ∧
    Epics.advance epicsServer.nameValueSet (s.threadState c i epicsServer) = some t ∧
    s' = s.afterThread c i t := by
  unfold SystemState.advance at h
  split at h
  · cases h
  · next epicsServer hserver =>
    obtain ⟨t, hstep, rfl⟩ := Option.map_eq_some_iff.mp h
    exact ⟨epicsServer, t, hserver, hstep, rfl⟩

/-- A step of a thread keeps the invariant. -/
theorem ChannelsInv.afterThread (h : ChannelsInv s) (hone : OneServer s)
    (hserver : (s.manager c).servers[i]? = some epicsServer) (hnodup : epicsServer.names.Nodup)
    (hadvance : Epics.advance epicsServer.nameValueSet (s.threadState c i epicsServer) = some t) :
    ChannelsInv (s.afterThread c i t) := by
  have hbefore := commandsOf_eq hserver
  have heffect := loopEffect hadvance (hbefore ▸ h.noExit c i)
  -- no command is added, and what is set was a command of the server
  have hremaining : ∀ command ∈ remaining t, command ∈ s.commandsOf c i := by
    rw [hbefore]
    exact heffect.remaining_subset
  have hmem (c' : Fin (n + 1)) (i' : Nat) (command : AnyValueUpdateCommand V)
      (hcommand : command ∈ (s.afterThread c i t).commandsOf c' i') :
      command ∈ s.commandsOf c' i' := by
    rw [commandsOf_afterThread hserver] at hcommand
    split at hcommand
    · next hboth =>
      obtain ⟨rfl, rfl⟩ := hboth
      exact hremaining command hcommand
    · exact hcommand
  have happlied : ∀ channel ∈ t.applied.map Prod.fst, s.Serves c i channel := by
    cases heffect with
    | quiet _ _ _ hnone => rw [hnone]; nofun
    | started _ _ _ _ hnone => rw [hnone]; nofun
    | applied channel value _ _ _ hnext hsingle =>
      rw [hsingle]
      intro channel' hchannel
      cases List.mem_singleton.mp hchannel
      refine h.owned c i channel value ?_
      rw [hbefore, hnext]
      exact List.mem_cons_self
  constructor
  · intro c' i' hnone
    have hempty : (s.manager c').servers[i']? = none := by
      rw [manager_afterThread] at hnone
      split at hnone
      · next hc => exact hc ▸ getElem?_setQueue_eq_none.mp hnone
      · exact hnone
    rw [threads_afterThread, if_neg, h.thread c' i' hempty]
    rintro ⟨rfl, rfl⟩
    rw [hserver] at hempty
    cases hempty
  · exact fun c' i' hexit ↦ h.noExit c' i' (hmem c' i' _ hexit)
  · intro c' i' e hfailed
    rw [threads_afterThread] at hfailed
    split at hfailed
    · exact ⟨_, serveVariables_of_failed hadvance hfailed⟩
    · exact h.failed c' i' e hfailed
  · intro c' i' channel value hcommand
    rw [serves_afterThread]
    exact h.owned c' i' channel value (hmem c' i' _ hcommand)
  · intro c' i' channel hi
    rw [serves_afterThread] at hi
    obtain ⟨history, hinv⟩ := h.served c' i' channel hi
    by_cases hboth : c' = c ∧ i' = i
    · obtain ⟨rfl, rfl⟩ := hboth
      exact hinv.afterThread hserver hnodup hi heffect
    · refine ⟨history, hinv.untouched (untouched_afterThread fun hchannel ↦ ?_)
        (untouchedAt_afterThread hserver fun hsame ↦ absurd hsame hboth)⟩
      exact hboth (hone hi (happlied channel hchannel))
  · intro channel hnone
    have hunserved : Unserved s channel :=
      h.unserved channel fun c' i' hi ↦ hnone c' i' (serves_afterThread.mpr hi)
    refine hunserved.untouched (untouched_afterThread fun hchannel ↦ ?_)
    exact hnone c i (serves_afterThread.mpr (happlied channel hchannel))
  · have hchannels : (s.afterThread c i t).client.clientPvs.map PvAccessClientPV.channel =
        s.client.clientPvs.map PvAccessClientPV.channel := by
      change (s.client.clientPvs.map _).map _ = _
      rw [List.map_map]
      exact List.map_congr_left fun pv _ ↦ PvAccessClientPV.channel_postAll _ _ _
    rw [hchannels]
    exact h.monitors

end OacTreeServer.Publication
