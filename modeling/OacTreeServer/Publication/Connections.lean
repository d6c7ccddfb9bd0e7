import OacTreeServer.Publication.Threads

/-!
# The monitors of the client

A monitor connects, is disconnected, misses values and delivers them. None of this concerns the
other monitors, since no two of them have the same channel.
-/

namespace OacTreeServer.Publication
open OacTreeServer.Client OacTreeServer.Epics OacTreeServer.External OacTreeServer.Job
  OacTreeServer.Library OacTreeServer.Protocol OacTreeServer.Server

variable {n : Nat} {S C V IS : Type} [PvAccessClientPV C (Fin (n + 1) × Nat) V]
  {s s' : SystemState n S C V IS} {monitor : Nat} {pv pv' : C}

/-- One monitor of the client did something, and nothing else. -/
structure OnlyMonitor (s s' : SystemState n S C V IS) (monitor : Nat) (pv pv' : C) : Prop where
  server : s'.server = s.server
  threads : s'.threads = s.threads
  published : s'.published = s.published
  before : s.client.clientPvs[monitor]? = some pv
  after : s'.client.clientPvs = s.client.clientPvs.set monitor pv'
  channel : PvAccessClientPV.channel pv' = PvAccessClientPV.channel pv
  others : ∀ channel ≠ PvAccessClientPV.channel pv, s'.deliveredFor channel = s.deliveredFor channel

/-- A monitor behind the change is the one that changed, or it has another channel. -/
private theorem OnlyMonitor.cases (h : OnlyMonitor s s' monitor pv pv')
    (hnodup : (s.client.clientPvs.map PvAccessClientPV.channel).Nodup)
    {other : C} (hother : other ∈ s'.client.clientPvs) :
    other = pv' ∨ other ∈ s.client.clientPvs ∧
      PvAccessClientPV.channel other ≠ PvAccessClientPV.channel pv := by
  rw [h.after] at hother
  obtain ⟨j, hj⟩ := List.mem_iff_getElem?.mp hother
  rw [List.getElem?_set] at hj
  split at hj
  · split at hj
    · exact .inl (Option.some.inj hj).symm
    · cases hj
  · next hne =>
    refine .inr ⟨List.mem_of_getElem? hj, fun hchannel ↦ hne ?_⟩
    have hpos : (s.client.clientPvs.map PvAccessClientPV.channel)[monitor]? =
        (s.client.clientPvs.map PvAccessClientPV.channel)[j]? := by
      rw [List.getElem?_map, List.getElem?_map, h.before, hj]
      exact congrArg some hchannel.symm
    refine (List.getElem?_inj ?_ hnodup).mp hpos
    rw [List.length_map]
    exact (List.getElem?_eq_some_iff.mp h.before).1

/-- Every monitor keeps its channel. -/
theorem OnlyMonitor.channels (h : OnlyMonitor s s' monitor pv pv') :
    s'.client.clientPvs.map PvAccessClientPV.channel =
      s.client.clientPvs.map PvAccessClientPV.channel := by
  obtain ⟨hlt, hpv⟩ := List.getElem?_eq_some_iff.mp h.before
  rw [h.after, List.map_set, h.channel, ← hpv, ← List.map_set, List.set_getElem_self]

variable [Base64VariableCodec V] [PvAccessServer S V]

/-- What a monitor does keeps the invariant if the monitor follows its channel afterwards. -/
theorem ChannelsInv.onlyMonitor (h : ChannelsInv s) (honly : OnlyMonitor s s' monitor pv pv')
    (hserved : ∀ c i history, s.Serves c i (PvAccessClientPV.channel pv) →
      ChannelInv s c i (PvAccessClientPV.channel pv) history →
      Watches pv' (c, i) (isRunning (s.threads c i).loop) history
        (s'.deliveredFor (PvAccessClientPV.channel pv)))
    (hunserved : (∀ c i, ¬ s.Serves c i (PvAccessClientPV.channel pv)) →
      Unserved s (PvAccessClientPV.channel pv) →
      s'.deliveredFor (PvAccessClientPV.channel pv) = [] ∧
        PvAccessClientPV.source pv' = none ∧ PvAccessClientPV.inFlight pv' = []) :
    ChannelsInv s' := by
  have hcases {other : C}
      (hother : other ∈ s'.client.clientPvs) := honly.cases h.monitors hother
  have hmanager (c : Fin (n + 1)) : s'.manager c = s.manager c := by
    rw [SystemState.manager, honly.server]
    rfl
  have hcommands (c : Fin (n + 1)) (i : Nat) : s'.commandsOf c i = s.commandsOf c i := by
    rw [SystemState.commandsOf, SystemState.commandsOf, honly.threads, hmanager]
  have hserves (c : Fin (n + 1)) (i : Nat) (channel : String) :
      s'.Serves c i channel ↔ s.Serves c i channel := by
    rw [SystemState.Serves, SystemState.Serves, hmanager]
  have huntouched {channel : String} (hchannel : channel ≠ PvAccessClientPV.channel pv) :
      Untouched s s' channel := by
    refine ⟨?_, honly.others channel hchannel, fun other hother heq ↦ ?_⟩
    · rw [SystemState.publishedFor, honly.published]
      rfl
    · refine (hcases hother).elim (fun hsame ↦ absurd heq ?_) And.left
      rw [hsame, honly.channel]
      exact Ne.symm hchannel
  -- only the monitor itself has its channel
  have hself {other : C}
      (hother : other ∈ s'.client.clientPvs)
      (heq : PvAccessClientPV.channel other = PvAccessClientPV.channel pv) : other = pv' :=
    (hcases hother).elim id fun hold ↦ absurd heq hold.2
  constructor
  · intro c i hnone
    rw [honly.threads]
    exact h.thread c i (hmanager c ▸ hnone)
  · intro c i
    rw [hcommands]
    exact h.noExit c i
  · rw [honly.threads]
    exact h.failed
  · intro c i channel value hmem
    rw [hcommands] at hmem
    exact (hserves c i channel).mpr (h.owned c i channel value hmem)
  · intro c i channel hi
    rw [hserves] at hi
    obtain ⟨history, hinv⟩ := h.served c i channel hi
    refine ⟨history, ?_⟩
    have hwaiting : s'.waitingFor c i channel = s.waitingFor c i channel := by
      rw [SystemState.waitingFor, hcommands, SystemState.waitingFor]
    by_cases hchannel : channel = PvAccessClientPV.channel pv
    · subst hchannel
      constructor
      · rw [honly.threads, hwaiting, SystemState.publishedFor, honly.published, hmanager]
        exact hinv.thread
      · intro other hother heq
        rw [hself hother heq, honly.threads]
        exact hserved c i history hi hinv
    · refine hinv.untouched (huntouched hchannel) ⟨?_, ?_, ?_, hwaiting⟩
      · rw [honly.threads]
      · rw [honly.threads]
      · rw [hmanager]
        exact fun _ ↦ id
  · intro channel hnone
    have hnone' (c : Fin (n + 1)) (i : Nat) : ¬ s.Serves c i channel :=
      fun hi ↦ hnone c i ((hserves c i channel).mpr hi)
    have hold := h.unserved channel hnone'
    by_cases hchannel : channel = PvAccessClientPV.channel pv
    · subst hchannel
      obtain ⟨hdelivered, hsource, hflight⟩ := hunserved hnone' hold
      refine ⟨?_, hdelivered, fun other hother heq ↦ ?_⟩
      · rw [SystemState.publishedFor, honly.published]
        exact hold.published
      · rw [hself hother heq]
        exact ⟨hsource, hflight⟩
    · exact hold.untouched (huntouched hchannel)
  · rw [honly.channels]
    exact h.monitors

section Steps

omit [Base64VariableCodec V] [PvAccessServer S V] in
/-- A change of one monitor and of nothing else. -/
theorem onlyMonitor_setMonitor (hpv : s.client.clientPvs[monitor]? = some pv)
    (hchannel : PvAccessClientPV.channel pv' = PvAccessClientPV.channel pv) :
    OnlyMonitor s { s with client := s.setMonitor monitor pv' } monitor pv pv' :=
  ⟨rfl, rfl, rfl, hpv, rfl, hchannel, fun _ _ ↦ rfl⟩

omit [Base64VariableCodec V] in
/-- A connection: the server has the variable and sends its value. -/
theorem connect_eq_some {c : Fin (n + 1)} {i : Nat} (h : s.connect monitor c i = some s') :
    ∃ pv value, s.client.clientPvs[monitor]? = some pv ∧
      s.Serves c i (PvAccessClientPV.channel pv) ∧ isRunning (s.threads c i).loop = true ∧
      PvAccessServer.served (s.threads c i).pvServer (PvAccessClientPV.channel pv) = some value ∧
      s' = { s with
        client := s.setMonitor monitor (PvAccessClientPV.connect pv (c, i) value) } := by
  unfold SystemState.connect at h
  split at h
  · cases h
  · next pv hpv =>
    split at h
    · next hfound =>
      obtain ⟨value, hvalue, rfl⟩ := Option.map_eq_some_iff.mp h
      exact ⟨pv, value, hpv, hfound.2.1, hfound.2.2, hvalue, rfl⟩
    · cases h

variable [LawfulPvAccessClientPV C]

/-- A connection keeps the invariant. -/
theorem ChannelsInv.connect {c : Fin (n + 1)} {i : Nat} {value : V} (h : ChannelsInv s)
    (hone : OneServer s) (hpv : s.client.clientPvs[monitor]? = some pv)
    (hserves : s.Serves c i (PvAccessClientPV.channel pv))
    (hrunning : isRunning (s.threads c i).loop = true)
    (hvalue : PvAccessServer.served (s.threads c i).pvServer (PvAccessClientPV.channel pv) =
      some value) :
    ChannelsInv
      { s with client := s.setMonitor monitor (PvAccessClientPV.connect pv (c, i) value) } := by
  have hchannel := LawfulPvAccessClientPV.channel_connect pv (c, i) value
  refine h.onlyMonitor (onlyMonitor_setMonitor hpv hchannel) ?_ ?_
  · intro c' i' history hserves' hinv
    obtain ⟨rfl, rfl⟩ := hone hserves hserves'
    obtain ⟨-, -, -, -, hserved⟩ := hinv.thread.running hrunning
    apply (hinv.watched pv (List.mem_of_getElem? hpv) rfl).connect _ hrunning
    rw [← hserved, hvalue]
  · exact fun hnone _ ↦ absurd hserves (hnone c i)

/-- A lost connection keeps the invariant. -/
theorem ChannelsInv.disconnect (h : ChannelsInv s)
    (hpv : s.client.clientPvs[monitor]? = some pv) :
    ChannelsInv { s with client := s.setMonitor monitor (PvAccessClientPV.disconnect pv) } := by
  have hchannel := LawfulPvAccessClientPV.channel_disconnect pv
  refine h.onlyMonitor (onlyMonitor_setMonitor hpv hchannel) ?_ ?_
  · exact fun c i history _ hinv ↦
      (hinv.watched pv (List.mem_of_getElem? hpv) rfl).disconnect
  · intro _ hunserved
    have hflight := (hunserved.monitors pv (List.mem_of_getElem? hpv) rfl).2
    have hlost := LawfulPvAccessClientPV.inFlight_disconnect pv
    rw [hflight, List.sublist_nil] at hlost
    exact ⟨hunserved.delivered, LawfulPvAccessClientPV.source_disconnect pv, hlost⟩

/-- An overwritten value keeps the invariant. -/
theorem ChannelsInv.coalesce {position : Nat} (h : ChannelsInv s)
    (hpv : s.client.clientPvs[monitor]? = some pv)
    (hcoalesce : PvAccessClientPV.coalesce pv position = some pv') :
    ChannelsInv { s with client := s.setMonitor monitor pv' } := by
  obtain ⟨hchannel, hsource⟩ := LawfulPvAccessClientPV.coalesce_same _ _ _ hcoalesce
  refine h.onlyMonitor (onlyMonitor_setMonitor hpv hchannel) ?_ ?_
  · exact fun c i history _ hinv ↦
      (hinv.watched pv (List.mem_of_getElem? hpv) rfl).coalesce hcoalesce
  · intro _ hunserved
    obtain ⟨hnone, hflight⟩ := hunserved.monitors pv (List.mem_of_getElem? hpv) rfl
    have hfewer := (LawfulPvAccessClientPV.inFlight_coalesce _ _ _ hcoalesce).1
    rw [hflight, List.sublist_nil] at hfewer
    exact ⟨hunserved.delivered, hsource.trans hnone, hfewer⟩

variable [AnyValue V] [OacTree V] [InstructionStateCodec V IS]

omit [PvAccessServer S V] [OacTree V] [InstructionStateCodec V IS] [LawfulPvAccessClientPV C] in
/-- A delivery: the value that was first on its way and what the callback does. -/
theorem deliver_eq_some_iff : s.deliver monitor = some s' ↔ ∃ pv value pv' client,
    s.client.clientPvs[monitor]? = some pv ∧ PvAccessClientPV.deliver pv = some (value, pv') ∧
    (s.setMonitor monitor pv').onValue (PvAccessClientPV.channel pv) value = .ok client ∧
    s' = { s with
      client
      delivered := s.delivered ++ [(PvAccessClientPV.channel pv, value)] } := by
  unfold SystemState.deliver
  constructor
  · intro h
    obtain ⟨pv, hpv, hrest⟩ := Option.bind_eq_some_iff.mp h
    obtain ⟨⟨value, pv'⟩, hdeliver, hcallback⟩ := Option.bind_eq_some_iff.mp hrest
    split at hcallback
    · cases hcallback
    · next client hclient =>
      exact ⟨pv, value, pv', client, hpv, hdeliver, hclient, (Option.some.inj hcallback).symm⟩
  · rintro ⟨pv, value, pv', client, hpv, hdeliver, hclient, rfl⟩
    simp only [hpv, hdeliver, Option.bind_some, hclient]

omit [PvAccessClientPV C (Fin (n + 1) × Nat) V] [LawfulPvAccessClientPV C] [AnyValue V] [OacTree V]
  [InstructionStateCodec V IS] [Base64VariableCodec V] [PvAccessServer S V] in
/-- What was delivered for a channel, after another delivery. -/
private theorem deliveredFor_concat (channel other : String) (value : V) :
    writesTo channel (s.delivered ++ [(other, value)]) =
      s.deliveredFor channel ++ if other = channel then [value] else [] := by
  rw [writesTo_append, writesTo_cons]
  exact congrArg _ (List.append_nil _)

variable {value : V} {client : EPICSIOClient C V IS}
  (hpv : s.client.clientPvs[monitor]? = some pv)
  (hdeliver : PvAccessClientPV.deliver pv = some (value, pv'))
  (hclient : (s.setMonitor monitor pv').onValue (PvAccessClientPV.channel pv) value = .ok client)
include hpv hdeliver hclient

omit [PvAccessServer S V] [OacTree V] [InstructionStateCodec V IS] in
/-- A delivery concerns one monitor. -/
theorem onlyMonitor_deliver : OnlyMonitor s { s with
    client
    delivered := s.delivered ++ [(PvAccessClientPV.channel pv, value)] } monitor pv pv' := by
  refine ⟨rfl, rfl, rfl, hpv, EPICSIOClient.clientPvs_onValue hclient,
    (LawfulPvAccessClientPV.deliver_same _ _ _ hdeliver).1, fun channel hother ↦ ?_⟩
  rw [SystemState.deliveredFor, deliveredFor_concat, if_neg (Ne.symm hother), List.append_nil]

omit [OacTree V] [InstructionStateCodec V IS] in
/-- A delivery keeps the invariant. -/
theorem ChannelsInv.deliver (h : ChannelsInv s) :
    ChannelsInv { s with
      client
      delivered := s.delivered ++ [(PvAccessClientPV.channel pv, value)] } := by
  refine h.onlyMonitor (onlyMonitor_deliver hpv hdeliver hclient) ?_ ?_
  · intro c i history _ hinv
    rw [SystemState.deliveredFor, deliveredFor_concat, if_pos rfl]
    exact (hinv.watched pv (List.mem_of_getElem? hpv) rfl).deliver hdeliver
  · intro _ hunserved
    -- nothing was on its way
    have hflight := (hunserved.monitors pv (List.mem_of_getElem? hpv) rfl).2
    rw [PvAccessClientPV.deliver_eq_none hflight] at hdeliver
    cases hdeliver

end Steps

end OacTreeServer.Publication
