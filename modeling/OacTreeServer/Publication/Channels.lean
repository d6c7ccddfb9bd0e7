import OacTreeServer.Publication.Managers

/-!
# The way of a value through the system

The values that a channel has had are the initial one and those that were published for it, up to
the ones that still wait in the queue or the batch of its server. Every monitor of the channel
follows this history. The invariant says so for every channel that is served, and that nothing
has happened to any other channel.
-/

namespace OacTreeServer.Publication
open OacTreeServer.Client OacTreeServer.Epics OacTreeServer.External OacTreeServer.Job
  OacTreeServer.Library OacTreeServer.Protocol OacTreeServer.Server

section Definitions

variable {n : Nat} {S C V IS : Type} [PvAccessClientPV C (Fin (n + 1) × Nat) V]

/-- The published values with their channels. -/
def writes (published : List (PublishedReport V IS)) : List (String × V) :=
  published.map fun report ↦ (report.channel, report.value)

namespace SystemState

/-- The commands that a server has still to process: the rest of its batch and its queue. -/
def commandsOf (s : SystemState n S C V IS) (c : Fin (n + 1)) (i : Nat) :
    List (AnyValueUpdateCommand V) :=
  commandsIn (s.manager c) (s.threads c) i

/-- The values that are still to be set for a channel. -/
def waitingFor (s : SystemState n S C V IS) (c : Fin (n + 1)) (i : Nat) (channel : String) :
    List V :=
  writesTo channel (updatesIn (s.commandsOf c i))

/-- The values that were published for a channel. -/
def publishedFor (s : SystemState n S C V IS) (channel : String) : List V :=
  writesTo channel (writes s.published)

/-- The values that the monitor of a channel has delivered. -/
def deliveredFor (s : SystemState n S C V IS) (channel : String) : List V :=
  writesTo channel s.delivered

/-- The server at a position is the one of the channel. -/
def Serves (s : SystemState n S C V IS) (c : Fin (n + 1)) (i : Nat) (channel : String) : Prop :=
  (s.manager c).findServer channel = some i

end SystemState

/-- The encoded value that the channel of a server has at first. -/
def InitialValue [Base64VariableCodec V] (manager : EPICSAnyValueManager V) (i : Nat)
    (channel : String) (encoded : V) : Prop :=
  ∃ nameValueSet value, manager.valueSets[i]? = some nameValueSet ∧
    (channel, value) ∈ nameValueSet ∧ base64EncodeAnyValue value = .ok encoded

/-- A channel with its server, and the values that it has had. -/
structure ChannelInv [Base64VariableCodec V] [PvAccessServer S V] (s : SystemState n S C V IS)
    (c : Fin (n + 1)) (i : Nat) (channel : String) (history : List V) : Prop where
  thread : ChannelHistory channel (InitialValue (s.manager c) i channel) (s.threads c i)
    (s.waitingFor c i channel) (s.publishedFor channel) history
  watched : ∀ pv ∈ s.client.clientPvs, PvAccessClientPV.channel pv = channel →
    Watches pv (c, i) (isRunning (s.threads c i).loop) history (s.deliveredFor channel)

/-- Nothing has happened to a channel without a server. -/
structure Unserved (s : SystemState n S C V IS) (channel : String) : Prop where
  published : s.publishedFor channel = []
  delivered : s.deliveredFor channel = []
  monitors : ∀ pv ∈ s.client.clientPvs, PvAccessClientPV.channel pv = channel →
    PvAccessClientPV.source pv = none ∧ PvAccessClientPV.inFlight pv = []

/-- The threads and the monitors of all channels are consistent with what was published. -/
structure ChannelsInv [Base64VariableCodec V] [PvAccessServer S V] (s : SystemState n S C V IS) :
    Prop where
  /-- The thread of a server that is still to be created. -/
  thread : ∀ c i, (s.manager c).servers[i]? = none → s.threads c i = ⟨.starting, PvAccessServer.new⟩
  noExit : ∀ c i, .exitCommand ∉ s.commandsOf c i
  /-- A thread fails with the encoder only. -/
  failed : ∀ c i e, (s.threads c i).loop = .failed e → ∃ nameValueSet : NameAnyValueSet V,
    serveVariables (PvAccessServer.new : S) nameValueSet = .error e
  owned : ∀ c i channel value, .valueUpdate channel value ∈ s.commandsOf c i →
    s.Serves c i channel
  served : ∀ c i channel, s.Serves c i channel → ∃ history, ChannelInv s c i channel history
  unserved : ∀ channel, (∀ c i, ¬ s.Serves c i channel) → Unserved s channel
  monitors : (s.client.clientPvs.map PvAccessClientPV.channel).Nodup

/-- Every channel has one server at most. -/
def OneServer (s : SystemState n S C V IS) : Prop :=
  ∀ ⦃channel c c' i i'⦄, s.Serves c i channel → s.Serves c' i' channel → c = c' ∧ i = i'

/-- A change leaves the monitor of a channel and what it is to receive as they were. -/
structure Untouched (s s' : SystemState n S C V IS) (channel : String) : Prop where
  published : s'.publishedFor channel = s.publishedFor channel
  delivered : s'.deliveredFor channel = s.deliveredFor channel
  monitors : ∀ pv ∈ s'.client.clientPvs, PvAccessClientPV.channel pv = channel →
    pv ∈ s.client.clientPvs

/-- A change leaves the server of a channel as it was, as far as the channel is concerned. -/
structure UntouchedAt [Base64VariableCodec V] [PvAccessServer S V] (s s' : SystemState n S C V IS)
    (c : Fin (n + 1)) (i : Nat) (channel : String) : Prop where
  running : isRunning (s'.threads c i).loop = isRunning (s.threads c i).loop
  value : PvAccessServer.served (s'.threads c i).pvServer channel =
    PvAccessServer.served (s.threads c i).pvServer channel
  initial : ∀ encoded, InitialValue (s.manager c) i channel encoded →
    InitialValue (s'.manager c) i channel encoded
  waiting : s'.waitingFor c i channel = s.waitingFor c i channel

/-- Neither the threads nor the client did anything. -/
structure OnlyJobs (s s' : SystemState n S C V IS) : Prop where
  threads : s'.threads = s.threads
  monitors : s'.client.clientPvs = s.client.clientPvs
  delivered : s'.delivered = s.delivered

end Definitions

section Updates

variable {V IS : Type}

/-- The values of a server stay there. -/
theorem InitialValue.grows [Base64VariableCodec V] {manager manager' : EPICSAnyValueManager V}
    {i : Nat} {channel : String} {encoded : V} (h : InitialValue manager i channel encoded)
    (hgrows : Grows manager manager') : InitialValue manager' i channel encoded := by
  obtain ⟨nameValueSet, value, hset, hmem, hencoded⟩ := h
  refine ⟨nameValueSet, value, ?_, hmem, hencoded⟩
  rw [EPICSAnyValueManager.valueSets, List.getElem?_map, Option.map_eq_some_iff] at hset ⊢
  obtain ⟨epicsServer, hserver, hvalues⟩ := hset
  exact ⟨epicsServer, hgrows.getElem? hserver, hvalues⟩

/-- The values of more reports. -/
theorem writes_append (published more : List (PublishedReport V IS)) :
    writes (published ++ more) = writes published ++ writes more :=
  List.map_append

end Updates

variable {n : Nat} {S C V IS : Type} [PvAccessClientPV C (Fin (n + 1) × Nat) V]
  {s s' : SystemState n S C V IS} {c : Fin (n + 1)} {i : Nat} {channel : String} {history : List V}

/-- A channel without a server stays as it is when it is not touched. -/
theorem Unserved.untouched (h : Unserved s channel) (hsame : Untouched s s' channel) :
    Unserved s' channel where
  published := hsame.published.trans h.published
  delivered := hsame.delivered.trans h.delivered
  monitors pv hpv hchannel := h.monitors pv (hsame.monitors pv hpv hchannel) hchannel

variable [Base64VariableCodec V] [PvAccessServer S V]

/-- A channel with a server stays as it is when neither it nor its server is touched. -/
theorem ChannelInv.untouched (h : ChannelInv s c i channel history)
    (hsame : Untouched s s' channel) (hserver : UntouchedAt s s' c i channel) :
    ChannelInv s' c i channel history where
  thread := by
    rw [hserver.waiting, hsame.published]
    exact h.thread.same hserver.running hserver.value hserver.initial
  watched pv hpv hchannel := by
    rw [hsame.delivered, hserver.running]
    exact h.watched pv (hsame.monitors pv hpv hchannel) hchannel

section Jobs

omit [Base64VariableCodec V] [PvAccessServer S V] in
/-- A step of the jobs that publishes nothing for a channel does not touch it. -/
private theorem OnlyJobs.untouched (h : OnlyJobs s s')
    (hpublished : s'.publishedFor channel = s.publishedFor channel) :
    Untouched s s' channel where
  published := hpublished
  delivered := congrArg (writesTo channel) h.delivered
  monitors _ hpv _ := h.monitors ▸ hpv

/-- A server that is found at a position where there was none is new, and so is its channel. -/
private theorem ChannelsInv.newServer (h : ChannelsInv s) (hjobs : OnlyJobs s s')
    (hunserved : Unserved s channel) (hnone : (s.manager c).servers[i]? = none)
    (hwaiting : s'.waitingFor c i channel = s.waitingFor c i channel)
    (hsame : Untouched s s' channel) : ChannelInv s' c i channel [] := by
  have hthread : s'.threads c i = ⟨.starting, PvAccessServer.new⟩ := by
    rw [hjobs.threads]
    exact h.thread c i hnone
  have hcommands : s.commandsOf c i = [] := by
    rw [SystemState.commandsOf, commandsIn, EPICSAnyValueManager.waitingAt_eq_nil hnone,
      h.thread c i hnone]
    rfl
  have hnew := hunserved.untouched hsame
  constructor
  · rw [hwaiting, SystemState.waitingFor, hcommands, hnew.published, hthread]
    exact channelHistory_of_idle rfl []
  · intro pv hpv hchannel
    obtain ⟨hsource, hflight⟩ := hnew.monitors pv hpv hchannel
    rw [hnew.delivered]
    exact ⟨PvAccessClientPV.follows_of_unconnected hsource hflight [], .inl hsource⟩

/-- Servers are added with their values. -/
theorem ChannelsInv.grow (h : ChannelsInv s) (hone : OneServer s') (hjobs : OnlyJobs s s')
    (hgrows : ∀ c, Grows (s.manager c) (s'.manager c))
    (hpublished : s'.published = s.published) : ChannelsInv s' := by
  have hserves (c : Fin (n + 1)) (i : Nat) (channel : String) (hi : s.Serves c i channel) :
      s'.Serves c i channel := (hgrows c).findServer hi
  have hcommands (c : Fin (n + 1)) (i : Nat) : s'.commandsOf c i = s.commandsOf c i := by
    rw [SystemState.commandsOf, hjobs.threads]
    exact (hgrows c).commandsIn (s.threads c) i
  have hsame (channel : String) : Untouched s s' channel :=
    hjobs.untouched (by rw [SystemState.publishedFor, hpublished, SystemState.publishedFor])
  constructor
  · intro c i hnone
    rw [hjobs.threads]
    exact h.thread c i ((hgrows c).getElem?_eq_none hnone)
  · intro c i
    rw [hcommands]
    exact h.noExit c i
  · rw [hjobs.threads]
    exact h.failed
  · intro c i channel value hmem
    rw [hcommands] at hmem
    exact hserves c i channel (h.owned c i channel value hmem)
  · intro c i channel hi
    have hwaiting : s'.waitingFor c i channel = s.waitingFor c i channel := by
      rw [SystemState.waitingFor, hcommands, SystemState.waitingFor]
    by_cases hlt : i < (s.manager c).servers.length
    · obtain ⟨history, hinv⟩ := h.served c i channel ((hgrows c).findServer_of_lt hi hlt)
      refine ⟨history, hinv.untouched (hsame channel) ⟨?_, ?_, ?_, hwaiting⟩⟩
      · rw [hjobs.threads]
      · rw [hjobs.threads]
      · exact fun encoded hinitial ↦ hinitial.grows (hgrows c)
    · refine ⟨[], h.newServer hjobs (h.unserved channel fun c' i' hi' ↦ ?_)
        (List.getElem?_eq_none (Nat.not_lt.mp hlt)) hwaiting (hsame channel)⟩
      -- the server would have been there before
      obtain ⟨rfl, rfl⟩ := hone hi (hserves c' i' channel hi')
      exact hlt (lt_of_findServer hi')
  · intro channel hnone
    exact (h.unserved channel fun c i hi ↦ hnone c i (hserves c i channel hi)).untouched
      (hsame channel)
  · rw [hjobs.monitors]
    exact h.monitors

omit [PvAccessClientPV C (Fin (n + 1) × Nat) V] [Base64VariableCodec V] [PvAccessServer S V] in
/-- A push goes behind the commands of its server. -/
private theorem commandsOf_push (hthreads : s'.threads = s.threads) {value : V}
    (hserves : s.Serves c i channel)
    (hmanager : ∀ c', s'.manager c' = if c' = c then (s.manager c').pushUpdate i channel value
      else s.manager c') (c' : Fin (n + 1)) (i' : Nat) :
    s'.commandsOf c' i' = s.commandsOf c' i' ++
      if c' = c ∧ i' = i then [.valueUpdate channel value] else [] := by
  rw [SystemState.commandsOf, hthreads, hmanager, SystemState.commandsOf]
  by_cases hc : c' = c
  · subst hc
    rw [if_pos rfl, commandsIn_pushUpdate]
    simp [lt_of_findServer hserves]
  · rw [if_neg hc, if_neg (fun hboth ↦ hc hboth.1), List.append_nil]

/-- A value is published for a channel, and queued at its server. -/
theorem ChannelsInv.push (h : ChannelsInv s) (hone : OneServer s) (hjobs : OnlyJobs s s')
    {value : V} (hserves : s.Serves c i channel)
    (hmanager : ∀ c', s'.manager c' = if c' = c then (s.manager c').pushUpdate i channel value
      else s.manager c')
    (hpublished : writes s'.published = writes s.published ++ [(channel, value)]) :
    ChannelsInv s' := by
  have hcommands := commandsOf_push hjobs.threads hserves hmanager
  have hfind (c' : Fin (n + 1)) (i' : Nat) (channel' : String) :
      s'.Serves c' i' channel' ↔ s.Serves c' i' channel' := by
    unfold SystemState.Serves
    rw [hmanager]
    split <;> rfl
  have hinitial (c' : Fin (n + 1)) (i' : Nat) (channel' : String) (encoded : V)
      (hvalue : InitialValue (s.manager c') i' channel' encoded) :
      InitialValue (s'.manager c') i' channel' encoded := by
    rw [hmanager]
    split
    · rwa [InitialValue, EPICSAnyValueManager.valueSets_pushUpdate]
    · exact hvalue
  have hfor (channel' : String) : s'.publishedFor channel' =
      s.publishedFor channel' ++ if channel = channel' then [value] else [] := by
    rw [SystemState.publishedFor, hpublished, writesTo_append, writesTo_cons]
    exact congrArg _ (List.append_nil _)
  constructor
  · intro c' i' hnone
    rw [hjobs.threads]
    refine h.thread c' i' ?_
    rw [hmanager] at hnone
    split at hnone
    · exact getElem?_pushUpdate_eq_none.mp hnone
    · exact hnone
  · intro c' i'
    rw [hcommands]
    have := h.noExit c' i'
    split <;> simp [this]
  · rw [hjobs.threads]
    exact h.failed
  · intro c' i' channel' value' hmem
    rw [hcommands] at hmem
    rw [hfind]
    rcases List.mem_append.mp hmem with hold | hnew
    · exact h.owned c' i' channel' value' hold
    · split at hnew
      · next hboth =>
        obtain ⟨rfl, rfl⟩ := hboth
        cases List.mem_singleton.mp hnew
        exact hserves
      · cases hnew
  · intro c' i' channel' hi
    rw [hfind] at hi
    obtain ⟨history, hinv⟩ := h.served c' i' channel' hi
    refine ⟨history, ?_⟩
    by_cases hchannel : channel = channel'
    · subst hchannel
      obtain ⟨rfl, rfl⟩ := hone hserves hi
      have hwaiting : s'.waitingFor c i channel = s.waitingFor c i channel ++ [value] := by
        rw [SystemState.waitingFor, hcommands, if_pos ⟨rfl, rfl⟩, updatesIn_append,
          writesTo_append, updatesIn_cons, writesTo_cons, if_pos rfl]
        rfl
      have hmore := hfor channel
      rw [if_pos rfl] at hmore
      constructor
      · rw [hjobs.threads, hwaiting, hmore]
        exact (hinv.thread.same rfl rfl (hinitial c i channel)).push [value]
      · rw [hjobs.monitors, hjobs.threads, SystemState.deliveredFor, hjobs.delivered]
        exact hinv.watched
    · refine hinv.untouched (hjobs.untouched ?_) ⟨?_, ?_, hinitial c' i' channel', ?_⟩
      · rw [hfor, if_neg hchannel, List.append_nil]
      · rw [hjobs.threads]
      · rw [hjobs.threads]
      · rw [SystemState.waitingFor, hcommands, updatesIn_append, writesTo_append]
        split
        · rw [updatesIn_cons, writesTo_cons, if_neg hchannel]
          exact List.append_nil _
        · exact List.append_nil _
  · intro channel' hnone
    have hchannel : channel ≠ channel' := by
      rintro rfl
      exact hnone c i ((hfind c i channel).mpr hserves)
    refine (h.unserved channel' fun c' i' hi ↦
      hnone c' i' ((hfind c' i' channel').mpr hi)).untouched (hjobs.untouched ?_)
    rw [hfor, if_neg hchannel, List.append_nil]
  · rw [hjobs.monitors]
    exact h.monitors

end Jobs

end OacTreeServer.Publication
