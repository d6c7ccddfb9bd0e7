import OacTreeServer.Publication.Connections
import OacTreeServer.Publication.Reports

/-!
# What the client of a job receives

Over all runs of the system: the consumer of a client receives, of each kind of report, samples
of what its job has published, starting with the initial report.
-/

namespace OacTreeServer.Publication
open OacTreeServer.Client OacTreeServer.Epics OacTreeServer.External OacTreeServer.Job
  OacTreeServer.Library OacTreeServer.Protocol OacTreeServer.Server

variable {n : Nat} {P S C V IS : Type} [PvAccessClientPV C (Fin (n + 1) × Nat) V] [AnyValue V]
  [OacTree V] [InstructionStateCodec V IS] [Base64VariableCodec V] [PvAccessServer S V]
  {serverPrefix : String} {job : Nat} {nVars nInstr : UInt32} {s s' : SystemState n S C V IS}

/-- Nothing is left to be done: every update is set, and every monitor is connected and has
delivered what was sent to it. -/
structure SystemState.Settled (s : SystemState n S C V IS) : Prop where
  threads : ∀ c i, s.commandsOf c i = []
  monitors : ∀ pv ∈ s.client.clientPvs, (PvAccessClientPV.source pv).isSome ∧
    PvAccessClientPV.inFlight pv = []

/-- What holds in every run of the system with a client of a job. -/
structure SystemInv (serverPrefix : String) (job : Nat) (nVars nInstr : UInt32)
    (s : SystemState n S C V IS) : Prop where
  registered : AllRegistered s.server
  serverPrefix_eq : s.server.serverPrefix = serverPrefix
  channels : ChannelsInv s
  genuine : ∀ report ∈ s.published,
    Genuine serverPrefix report ∧ report.job < s.server.jobs.length
  holds : HoldsJob (createJobPrefix serverPrefix (UInt32.ofNat job)) nVars nInstr s.client.avMgr
  monitored : s.client.clientPvs.map PvAccessClientPV.channel =
    (jobKinds nVars nInstr).map (publishedName serverPrefix (UInt32.ofNat job))
  received : ∀ kind ∈ jobKinds nVars nInstr, receivedOn kind s.client.avMgr.received =
    (initialReport (V := V) kind :: (s.deliveredFor (publishedName serverPrefix (UInt32.ofNat job)
      kind)).map (EPICSIOClient.decodedReport kind)).reduceOption

/-- A run with a client starts with the construction of the client. -/
theorem runWithClient_eq_some [Procedure P] {acts : List (SystemAction n P V IS)} :
    runWithClient serverPrefix job nVars nInstr acts = some s ↔
      ∃ client : EPICSIOClient C V IS,
      EPICSIOClient.monitorJob (createJobPrefix serverPrefix (UInt32.ofNat job)) nVars nInstr =
        .ok client ∧
      systemMachine.run (SystemState.start serverPrefix client) acts = some s := by
  unfold runWithClient
  split
  · next hclient => simp [hclient]
  · next hclient => simp [hclient]

/-- A run with a client goes on. -/
theorem runWithClient_append [Procedure P] {acts more : List (SystemAction n P V IS)}
    (hrun : runWithClient serverPrefix job nVars nInstr acts = some s)
    (hmore : systemMachine.run s more = some s') :
    runWithClient serverPrefix job nVars nInstr (acts ++ more) = some s' := by
  obtain ⟨client, hclient, hstart⟩ := runWithClient_eq_some.mp hrun
  refine runWithClient_eq_some.mpr ⟨client, hclient, ?_⟩
  rw [Machine.run_append, hstart]
  exact hmore

namespace SystemInv

/-- Every channel has one server at most. -/
theorem oneServer (h : SystemInv serverPrefix job nVars nInstr s)
    (hjobs : s.server.jobs.length ≤ 2 ^ 32) : OneServer s :=
  fun _ _ _ _ _ hserves hserves' ↦ serves_unique h.registered hjobs hserves hserves'

/-- A step of the jobs keeps the invariant. -/
private theorem ofServer (h : SystemInv serverPrefix job nVars nInstr s)
    {server : AutomationServer n (Recorded (EPICSAnyValueManager V))}
    {more : List (PublishedReport V IS)} (hregistered : AllRegistered server)
    (hserverPre : server.serverPrefix = s.server.serverPrefix)
    (hlength : s.server.jobs.length ≤ server.jobs.length)
    (hchannels : ChannelsInv { s with
      server
      published := s.published ++ more })
    (hmore : ∀ report ∈ more, Genuine serverPrefix report ∧ report.job < server.jobs.length) :
    SystemInv serverPrefix job nVars nInstr { s with
      server
      published := s.published ++ more } where
  registered := hregistered
  serverPrefix_eq := hserverPre.trans h.serverPrefix_eq
  channels := hchannels
  genuine report hreport := by
    rcases List.mem_append.mp hreport with hold | hnew
    · obtain ⟨hgenuine, hjob⟩ := h.genuine report hold
      exact ⟨hgenuine, hjob.trans_le hlength⟩
    · exact hmore report hnew
  holds := h.holds
  monitored := h.monitored
  received := h.received

/-- A job is added. -/
private theorem addJob [Procedure P] (h : SystemInv serverPrefix job nVars nInstr s) {proc : P}
    {server : AutomationServer n (Recorded (EPICSAnyValueManager V))}
    (hadd : s.server.addJob proc = (none, server)) (hjobs : server.jobs.length ≤ 2 ^ 32) :
    SystemInv serverPrefix job nVars nInstr { s with
      server
      published := s.published ++ [] } := by
  obtain ⟨io, r, hnew, hlength, hchange⟩ :=
    AutomationServer.addJob_changes h.registered.aligned hadd
  have hregistered := h.registered.addJob (by omega) hadd
  refine h.ofServer hregistered hchange.serverPrefix (by omega) ?_ nofun
  refine h.channels.grow ?_ ⟨rfl, rfl, rfl⟩ (grows_of_changes hchange (grows_new hnew))
    (List.append_nil _)
  exact fun _ _ _ _ _ ↦ serves_unique hregistered hjobs

/-- A job announces its number of instructions. -/
private theorem initNumberOfInstructions (h : SystemInv serverPrefix job nVars nInstr s)
    {j : Nat} {count : UInt32}
    {server : AutomationServer n (Recorded (EPICSAnyValueManager V))}
    (hinit : s.server.initNumberOfInstructions j count = some server)
    (hjobs : server.jobs.length ≤ 2 ^ 32) :
    SystemInv serverPrefix job nVars nInstr { s with
      server
      published := s.published ++ [] } := by
  obtain ⟨c, io, r, -, hperform, hlength, hchange⟩ :=
    AutomationServer.initNumberOfInstructions_changes h.registered.aligned hinit
  have hregistered := h.registered.initNumberOfInstructions (by omega) hinit
  refine h.ofServer hregistered hchange.serverPrefix (by omega) ?_ nofun
  refine h.channels.grow ?_ ⟨rfl, rfl, rfl⟩
    (grows_of_changes hchange (grows_initNumberOfInstructions hperform)) (List.append_nil _)
  exact fun _ _ _ _ _ ↦ serves_unique hregistered hjobs

/-- A job reports a change. -/
private theorem report [LawfulAnyValue V] [LawfulOacTree V] [LawfulInstructionStateCodec V]
    [LawfulBase64VariableCodec V] (h : SystemInv serverPrefix job nVars nInstr s) {j : Nat}
    {u : JobUpdate V IS} {server : AutomationServer n (Recorded (EPICSAnyValueManager V))}
    (hreport : s.server.report j u = some server) (hjobs : server.jobs.length ≤ 2 ^ 32) :
    SystemInv serverPrefix job nVars nInstr { s with
      server
      published := s.published ++ publishedBy s.server j u } := by
  obtain ⟨c, io, count, io', r, -, -, hlength, hchange⟩ :=
    AutomationServer.report_changes h.registered.aligned hreport
  have hregistered := h.registered.report hreport
  refine h.ofServer hregistered hchange.serverPrefix (by omega) ?_ ?_
  · cases reportEffect h.registered.aligned hreport with
    | unpublished hnone hsame =>
      refine h.channels.grow (fun _ _ _ _ _ ↦ serves_unique hregistered hjobs) ⟨rfl, rfl, rfl⟩
        (fun c ↦ .of_eq (congrArg EPICSAnyValueManager.servers (hsame c))) ?_
      rw [hnone, List.append_nil]
    | pushed _ _ _ hserves hone hmanager =>
      refine h.channels.push (h.oneServer (by omega)) ⟨rfl, rfl, rfl⟩ hserves hmanager ?_
      rw [hone, writes_append]
      rfl
  · intro report hmem
    rw [hlength, ← h.serverPrefix_eq]
    exact genuine_publishedBy h.registered hmem

/-- A monitor does something other than a delivery. -/
private theorem ofMonitor (h : SystemInv serverPrefix job nVars nInstr s) {monitor : Nat}
    {pv pv' : C} (hpv : s.client.clientPvs[monitor]? = some pv)
    (hchannel : PvAccessClientPV.channel pv' = PvAccessClientPV.channel pv)
    (hchannels : ChannelsInv { s with client := s.setMonitor monitor pv' }) :
    SystemInv serverPrefix job nVars nInstr { s with client := s.setMonitor monitor pv' } where
  registered := h.registered
  serverPrefix_eq := h.serverPrefix_eq
  channels := hchannels
  genuine := h.genuine
  holds := h.holds
  monitored := (onlyMonitor_setMonitor hpv hchannel).channels.trans h.monitored
  received := h.received

section Monitors

variable [LawfulBase64VariableCodec V]

/-- Every channel of the job has a monitor, which follows the values that the channel has had: none
yet, or the initial one and those that were published. -/
private theorem exists_monitor (h : SystemInv serverPrefix job nVars nInstr s)
    (hjob : job < 2 ^ 32) (hjobs : s.server.jobs.length ≤ 2 ^ 32) {kind : ChannelKind}
    (hkind : kind ∈ jobKinds nVars nInstr) :
    ∃ pv ∈ s.client.clientPvs, ∃ c i history,
      PvAccessClientPV.Follows pv history
        (s.deliveredFor (publishedName serverPrefix (UInt32.ofNat job) kind)) ∧
      (history = [] ∧ PvAccessClientPV.source pv = none ∨
        (history ++ s.waitingFor c i (publishedName serverPrefix (UInt32.ofNat job) kind)).map
            (EPICSIOClient.decodedReport kind) =
          initialReport (V := V) kind :: (reportsOn s.published job kind).map shownReport) := by
  obtain ⟨pv, hpv, hchannel⟩ : ∃ pv ∈ s.client.clientPvs,
      PvAccessClientPV.channel pv = publishedName serverPrefix (UInt32.ofNat job) kind := by
    rw [← List.mem_map, h.monitored]
    exact List.mem_map_of_mem hkind
  have hpublished := decoded_writesTo (fun report hreport ↦ (h.genuine report hreport).1) hjob
    (fun report hreport ↦ (h.genuine report hreport).2.trans_le hjobs) kind
  refine ⟨pv, hpv, ?_⟩
  rw [← hchannel] at hpublished ⊢
  by_cases hserved : ∃ c i, s.Serves c i (PvAccessClientPV.channel pv)
  · obtain ⟨c, i, hserves⟩ := hserved
    obtain ⟨history, hinv⟩ := h.channels.served c i (PvAccessClientPV.channel pv) hserves
    have hwatched := hinv.watched pv hpv rfl
    refine ⟨c, i, history, hwatched.follows, ?_⟩
    cases hrunning : isRunning (s.threads c i).loop with
    | false =>
      refine .inl ⟨(hinv.thread.idle hrunning).1, hwatched.source.resolve_right fun hsource ↦ ?_⟩
      rw [hrunning] at hsource
      cases hsource.2
    | true =>
      obtain ⟨initial, hinitial, hhistory, -⟩ := hinv.thread.running hrunning
      rw [hchannel, ← h.serverPrefix_eq] at hinitial
      refine .inr ?_
      rw [hhistory, List.map_cons, decodedReport_initial h.registered hinitial]
      exact congrArg _ hpublished
  · push Not at hserved
    have hunserved := h.channels.unserved (PvAccessClientPV.channel pv) hserved
    obtain ⟨hsource, hflight⟩ := hunserved.monitors pv hpv rfl
    rw [hunserved.delivered]
    exact ⟨0, 0, [], PvAccessClientPV.follows_of_unconnected hsource hflight [],
      .inl ⟨rfl, hsource⟩⟩

/-- What was delivered for a channel of the job are samples of what was published for it. -/
private theorem sampled (h : SystemInv serverPrefix job nVars nInstr s) (hjob : job < 2 ^ 32)
    (hjobs : s.server.jobs.length ≤ 2 ^ 32) {kind : ChannelKind}
    (hkind : kind ∈ jobKinds nVars nInstr) :
    Sampled (initialReport (V := V) kind :: (reportsOn s.published job kind).map shownReport)
      ((s.deliveredFor (publishedName serverPrefix (UInt32.ofNat job) kind)).map
        (EPICSIOClient.decodedReport kind)) := by
  obtain ⟨pv, -, c, i, history, hfollows, hhistory⟩ := h.exists_monitor hjob hjobs hkind
  have hdelivered := hfollows.sampled.sublist (List.sublist_append_left _ _)
  rcases hhistory with ⟨rfl, -⟩ | hhistory
  · rw [hdelivered.eq_nil]
    exact Sampled.nothing _
  · rw [← hhistory, List.map_append]
    exact (hdelivered.map _).append _

/-- When nothing is left to be done, what was published last was delivered last. -/
theorem getLast?_delivered (h : SystemInv serverPrefix job nVars nInstr s)
    (hjob : job < 2 ^ 32) (hjobs : s.server.jobs.length ≤ 2 ^ 32) (hsettled : s.Settled)
    {kind : ChannelKind} (hkind : kind ∈ jobKinds nVars nInstr) :
    ((s.deliveredFor (publishedName serverPrefix (UInt32.ofNat job) kind)).map
      (EPICSIOClient.decodedReport kind)).getLast? =
        (initialReport (V := V) kind ::
          (reportsOn s.published job kind).map shownReport).getLast? := by
  obtain ⟨pv, hpv, c, i, history, hfollows, hhistory⟩ := h.exists_monitor hjob hjobs hkind
  obtain ⟨hsource, hflight⟩ := hsettled.monitors pv hpv
  rcases hhistory with ⟨-, hnone⟩ | hhistory
  · rw [hnone] at hsource
    cases hsource
  · have hlast := hfollows.current hsource
    rw [hflight, List.append_nil] at hlast
    have hwaiting (channel : String) : s.waitingFor c i channel = [] := by
      rw [SystemState.waitingFor, hsettled.threads]
      rfl
    rw [← hhistory, hwaiting, List.append_nil, List.getLast?_map, List.getLast?_map, hlast]

end Monitors

variable [LawfulPvAccessClientPV C]

/-- The thread of a server goes on. -/
private theorem advance [LawfulPvAccessServer S] (h : SystemInv serverPrefix job nVars nInstr s)
    (hjobs : s.server.jobs.length ≤ 2 ^ 32) {c : Fin (n + 1)} {i : Nat}
    {epicsServer : EPICSServer V} {t : UpdateLoopState S V}
    (hserver : (s.manager c).servers[i]? = some epicsServer)
    (hstep : Epics.advance epicsServer.nameValueSet (s.threadState c i epicsServer) = some t) :
    SystemInv serverPrefix job nVars nInstr (s.afterThread c i t) := by
  constructor
  · refine registered_of_sameValues h.registered (fun c' ↦ ?_) valueSets_afterThread fun c' ↦ ?_
    · by_cases hc : c' = c
      · subst hc
        simp
      · simp [hc]
    · change ((s.afterThread c i t).manager c').findInputServer = _
      rw [manager_afterThread]
      split
      · next hc => rw [hc]; rfl
      · rfl
  · exact h.serverPrefix_eq
  · exact h.channels.afterThread (h.oneServer hjobs) hserver (nodup_names h.registered hserver)
      hstep
  · exact h.genuine
  · exact h.holds
  · rw [← h.monitored]
    change (s.client.clientPvs.map _).map _ = _
    rw [List.map_map]
    exact List.map_congr_left fun pv _ ↦ PvAccessClientPV.channel_postAll _ _ _
  · exact h.received

/-- A value is delivered to the consumer. -/
private theorem deliver [LawfulAnyValue V] (h : SystemInv serverPrefix job nVars nInstr s)
    {monitor : Nat} (hdeliver : s.deliver monitor = some s') :
    SystemInv serverPrefix job nVars nInstr s' := by
  obtain ⟨pv, value, pv', client, hpv, hvalue, hclient, rfl⟩ := deliver_eq_some_iff.mp hdeliver
  -- the channel is one of the job
  obtain ⟨kind, hkind, hchannel⟩ : ∃ kind ∈ jobKinds nVars nInstr,
      publishedName serverPrefix (UInt32.ofNat job) kind = PvAccessClientPV.channel pv := by
    rw [← List.mem_map, ← h.monitored]
    exact List.mem_map_of_mem (List.mem_of_getElem? hpv)
  have hcallback := EPICSIOClient.onValue_channel (s.setMonitor monitor pv') h.holds
    (createJobPrefix_ne_empty serverPrefix (UInt32.ofNat job)) hkind value
  have hchannels := ChannelsInv.deliver hpv hvalue hclient h.channels
  change EPICSIOClient.onValue _ (publishedName serverPrefix (UInt32.ofNat job) kind) _ = _
    at hcallback
  rw [hchannel, hclient] at hcallback
  cases hcallback
  refine ⟨h.registered, h.serverPrefix_eq, hchannels, h.genuine, h.holds.receive _, ?_, ?_⟩
  · have hsame := (LawfulPvAccessClientPV.deliver_same _ _ _ hvalue).1
    exact (onlyMonitor_setMonitor hpv hsame).channels.trans h.monitored
  · intro kind' hkind'
    have hfor : writesTo (publishedName serverPrefix (UInt32.ofNat job) kind')
        (s.delivered ++ [(PvAccessClientPV.channel pv, value)]) =
        s.deliveredFor (publishedName serverPrefix (UInt32.ofNat job) kind') ++
          if kind = kind' then [value] else [] := by
      rw [writesTo_append, writesTo_cons, ← hchannel]
      simp only [publishedName_inj, true_and]
      exact congrArg _ (List.append_nil _)
    change receivedOn kind' (s.client.avMgr.received ++ _) =
      (_ :: (writesTo _ (s.delivered ++ [(PvAccessClientPV.channel pv, value)])).map _).reduceOption
    rw [receivedOn_append, h.received kind' hkind', receivedOn_decodedReport, hfor,
      List.map_append, ← List.cons_append, List.reduceOption_append]
    congr 1
    split
    · next heq =>
      rw [heq]
      cases hreport : (EPICSIOClient.decodedReport kind' value : Option (JobUpdate V IS)) <;>
        simp [hreport]
    · rfl

/-- Nothing has happened at first. -/
private theorem start [LawfulAnyValue V]
    {client : EPICSIOClient C V IS}
    (hclient : EPICSIOClient.monitorJob (createJobPrefix serverPrefix (UInt32.ofNat job)) nVars
      nInstr = .ok client) :
    SystemInv serverPrefix job nVars nInstr
      (SystemState.start serverPrefix client : SystemState n S C V IS) := by
  obtain ⟨avMgr, hmonitor, hholds, hreceived⟩ := @EPICSIOClient.monitorJob_ok
    C (Fin (n + 1) × Nat) V IS _ _ _ _ _ (createJobPrefix serverPrefix (UInt32.ofNat job)) nVars
    nInstr
  rw [hclient] at hmonitor
  cases hmonitor
  have hchannels : ((jobKinds nVars nInstr).map fun kind ↦ (PvAccessClientPV.new (channelName
      (createJobPrefix serverPrefix (UInt32.ofNat job)) kind) : C)).map PvAccessClientPV.channel =
      (jobKinds nVars nInstr).map (publishedName serverPrefix (UInt32.ofNat job)) := by
    rw [List.map_map]
    exact List.map_congr_left fun kind _ ↦ LawfulPvAccessClientPV.channel_new _
  refine ⟨AllRegistered.new serverPrefix, rfl, ?_, nofun, hholds, hchannels, ?_⟩
  · constructor
    · exact fun _ _ _ ↦ rfl
    · exact fun _ _ ↦ nofun
    · exact fun _ _ _ ↦ nofun
    · exact fun _ _ _ _ ↦ nofun
    · intro c i channel hserves
      cases lt_of_findServer hserves
    · intro channel _
      refine ⟨rfl, rfl, fun pv hpv _ ↦ ?_⟩
      obtain ⟨kind, -, rfl⟩ := List.mem_map.mp hpv
      exact ⟨LawfulPvAccessClientPV.source_new _, LawfulPvAccessClientPV.inFlight_new _⟩
    · exact (congrArg List.Nodup hchannels).mpr (nodup_channelNames (nodup_jobKinds nVars nInstr))
  · intro kind hkind
    have hfirst := receivedOn_initial (createJobPrefix_ne_empty serverPrefix (UInt32.ofNat job))
      nVars nInstr hreceived hkind
    refine hfirst.trans ?_
    cases (initialReport (V := V) kind : Option (JobUpdate V IS)) <;>
      simp [SystemState.deliveredFor, SystemState.start, writesTo]

variable [Procedure P] [LawfulAnyValue V] [LawfulOacTree V] [LawfulInstructionStateCodec V]
  [LawfulBase64VariableCodec V] [LawfulPvAccessServer S] {a : SystemAction n P V IS}
  {acts : List (SystemAction n P V IS)}

/-- Every step keeps the invariant, as long as the index of every job fits into 32 bits. -/
theorem step (h : SystemInv serverPrefix job nVars nInstr s)
    (hstep : systemMachine.step s a = some s') (hjobs : s'.server.jobs.length ≤ 2 ^ 32) :
    SystemInv serverPrefix job nVars nInstr s' := by
  cases a with
  | server a =>
    obtain ⟨server, hserver, rfl⟩ := Option.map_eq_some_iff.mp hstep
    rcases AutomationServer.machine_step_cases hserver with
      ⟨proc, rfl, hadd⟩ | ⟨j, count, rfl, hinit⟩ | ⟨j, u, rfl, hreport⟩
    · exact h.addJob hadd hjobs
    · exact h.initNumberOfInstructions hinit hjobs
    · exact h.report hreport hjobs
  | advance c i =>
    obtain ⟨epicsServer, t, hserver, hadvance, rfl⟩ := advance_eq_some hstep
    exact h.advance hjobs hserver hadvance
  | connect monitor c i =>
    obtain ⟨pv, value, hpv, hserves, hrunning, hvalue, rfl⟩ := connect_eq_some hstep
    exact h.ofMonitor hpv (LawfulPvAccessClientPV.channel_connect _ _ _)
      (h.channels.connect (h.oneServer hjobs) hpv hserves hrunning hvalue)
  | disconnect monitor =>
    obtain ⟨pv, hpv, rfl⟩ := Option.map_eq_some_iff.mp hstep
    exact h.ofMonitor hpv (LawfulPvAccessClientPV.channel_disconnect _) (h.channels.disconnect hpv)
  | coalesce monitor position =>
    obtain ⟨pv, hpv, hrest⟩ := Option.bind_eq_some_iff.mp hstep
    obtain ⟨pv', hcoalesce, rfl⟩ := Option.map_eq_some_iff.mp hrest
    exact h.ofMonitor hpv (LawfulPvAccessClientPV.coalesce_same _ _ _ hcoalesce).1
      (h.channels.coalesce hpv hcoalesce)
  | deliver monitor => exact h.deliver hstep

omit [LawfulAnyValue V] [LawfulOacTree V] [LawfulInstructionStateCodec V]
  [LawfulBase64VariableCodec V] [LawfulPvAccessServer S] [LawfulPvAccessClientPV C] in
/-- No job is removed. -/
private theorem jobs_step (h : s.server.Aligned) (hstep : systemMachine.step s a = some s') :
    s'.server.Aligned ∧ s.server.jobs.length ≤ s'.server.jobs.length := by
  cases a with
  | server a =>
    obtain ⟨server, hserver, rfl⟩ := Option.map_eq_some_iff.mp hstep
    rcases AutomationServer.machine_step_cases hserver with
      ⟨proc, rfl, hadd⟩ | ⟨j, count, rfl, hinit⟩ | ⟨j, u, rfl, hreport⟩
    · obtain ⟨_, _, -, hlength, hchange⟩ := AutomationServer.addJob_changes h hadd
      exact ⟨hchange.aligned, by simp only [hlength]; omega⟩
    · obtain ⟨_, _, _, -, -, hlength, hchange⟩ :=
        AutomationServer.initNumberOfInstructions_changes h hinit
      exact ⟨hchange.aligned, hlength.ge⟩
    · obtain ⟨_, _, _, _, _, -, -, hlength, hchange⟩ := AutomationServer.report_changes h hreport
      exact ⟨hchange.aligned, hlength.ge⟩
  | advance c i =>
    obtain ⟨epicsServer, t, -, -, rfl⟩ := advance_eq_some hstep
    exact ⟨⟨h.length, h.position⟩, Nat.le_refl _⟩
  | connect monitor c i =>
    obtain ⟨pv, value, -, -, -, -, rfl⟩ := connect_eq_some hstep
    exact ⟨h, Nat.le_refl _⟩
  | disconnect monitor =>
    obtain ⟨pv, -, rfl⟩ := Option.map_eq_some_iff.mp hstep
    exact ⟨h, Nat.le_refl _⟩
  | coalesce monitor position =>
    obtain ⟨pv, -, hrest⟩ := Option.bind_eq_some_iff.mp hstep
    obtain ⟨pv', -, rfl⟩ := Option.map_eq_some_iff.mp hrest
    exact ⟨h, Nat.le_refl _⟩
  | deliver monitor =>
    obtain ⟨pv, value, pv', client, -, -, -, rfl⟩ := deliver_eq_some_iff.mp hstep
    exact ⟨h, Nat.le_refl _⟩

/-- The invariant holds at the end of every run with at most 2^32 jobs. -/
theorem run (hrun : runWithClient serverPrefix job nVars nInstr acts = some s)
    (hjobs : s.server.jobs.length ≤ 2 ^ 32) : SystemInv serverPrefix job nVars nInstr s := by
  obtain ⟨client, hclient, hrun⟩ := runWithClient_eq_some.mp hrun
  have hinv : s.server.Aligned ∧
      (s.server.jobs.length ≤ 2 ^ 32 → SystemInv serverPrefix job nVars nInstr s) := by
    refine @Machine.run_invariant _ _ systemMachine (fun s : SystemState n S C V IS ↦
      s.server.Aligned ∧ (s.server.jobs.length ≤ 2 ^ 32 →
        SystemInv serverPrefix job nVars nInstr s)) (fun hs hstep ↦ ?_) _ _ _
      ⟨AutomationServer.aligned_new _ _, fun _ ↦ start hclient⟩ hrun
    obtain ⟨haligned, hlength⟩ := jobs_step hs.1 hstep
    exact ⟨haligned, fun hjobs' ↦ (hs.2 (hlength.trans hjobs')).step hstep hjobs'⟩
  exact hinv.2 hjobs

end SystemInv

section Results

variable [Procedure P] [LawfulAnyValue V] [LawfulOacTree V] [LawfulInstructionStateCodec V]
  [LawfulBase64VariableCodec V] [LawfulPvAccessServer S] [LawfulPvAccessClientPV C]
  {acts : List (SystemAction n P V IS)}

/-- What the client of a job receives of a kind of report are samples of what this job has
published, after the initial report: nothing that another job has published or that none has,
and no report after a later one. A report about a variable without a value is not seen. -/
theorem publication_sampled
    (hrun : runWithClient serverPrefix job nVars nInstr acts = some s)
    (hjob : job < 2 ^ 32) (hjobs : s.server.jobs.length ≤ 2 ^ 32) {kind : ChannelKind}
    (hkind : kind ∈ jobKinds nVars nInstr) :
    ∃ samples, Sampled (initialReport (V := V) kind ::
        (reportsOn s.published job kind).map shownReport) samples ∧
      receivedOn kind s.client.avMgr.received = samples.reduceOption := by
  have hinv := SystemInv.run hrun hjobs
  exact ⟨_, (hinv.sampled hjob hjobs hkind).cons_head, hinv.received kind hkind⟩

end Results

/-- The states of a server with one manager, and of a client. -/
abbrev SampleState : Type :=
  SystemState 0 PvTable (PvMonitor (Fin 1 × Nat) DtoValue) DtoValue (Bool × UInt32)

/-- Two jobs with one server; the client of the first one misses one of its reports. -/
def twoReportingJobs : List (SystemAction 0 (List String) DtoValue (Bool × UInt32)) :=
  [.server (.addJob ["x"]), .server (.addJob []), .server (.initNumberOfInstructions 0 0),
    .advance 0 0, .connect 0 0 0, .server (.report 0 (.jobStateUpdated ⟨1⟩)),
    .server (.report 1 (.jobStateUpdated ⟨2⟩)), .server (.report 0 (.jobStateUpdated ⟨3⟩)),
    .advance 0 0, .advance 0 0, .advance 0 0, .advance 0 0, .coalesce 0 1, .deliver 0, .deliver 0]

/-- The initial state is received twice, the first report is overwritten, and the report of the
other job is not received. -/
theorem publication_sampled_two_jobs :
    ∃ s : SampleState,
      runWithClient "S" 0 1 0 twoReportingJobs = some s ∧
      (∃ samples, Sampled (initialReport (V := DtoValue) .jobState ::
          (reportsOn s.published 0 .jobState).map shownReport) samples ∧
        receivedOn .jobState s.client.avMgr.received = samples.reduceOption) ∧
      receivedOn .jobState s.client.avMgr.received =
        [.jobStateUpdated ⟨0⟩, .jobStateUpdated ⟨0⟩, .jobStateUpdated ⟨3⟩] := by
  obtain ⟨s, hrun⟩ := Option.isSome_iff_exists.mp
    (show (runWithClient "S" 0 1 0 twoReportingJobs :
      Option (SampleState)).isSome = true by rfl)
  have hobserved : (runWithClient "S" 0 1 0 twoReportingJobs :
      Option (SampleState)).map (fun s ↦
        (s.server.jobs.length, receivedOn .jobState s.client.avMgr.received)) =
      some (2, [.jobStateUpdated ⟨0⟩, .jobStateUpdated ⟨0⟩, .jobStateUpdated ⟨3⟩]) := by rfl
  rw [hrun] at hobserved
  obtain ⟨hlength, hreceived⟩ := Prod.mk.inj (Option.some.inj hobserved)
  refine ⟨s, hrun, publication_sampled hrun (by decide) ?_ (by decide), hreceived⟩
  rw [hlength]
  decide

end OacTreeServer.Publication
