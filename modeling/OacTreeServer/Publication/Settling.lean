import OacTreeServer.Input.InputProtocol
import OacTreeServer.Library.Progress
import OacTreeServer.Publication.Delivery

/-!
# Catching up

Whatever has happened so far, the threads can apply what is queued, and the monitors of a client
can connect and deliver what they are sent, until nothing is left to be done. No job has to
report anything for this, and the client has then received what was published last.
-/

namespace OacTreeServer.Publication
open OacTreeServer.Client OacTreeServer.Epics OacTreeServer.External OacTreeServer.Input
  OacTreeServer.Job OacTreeServer.Library OacTreeServer.Protocol OacTreeServer.Server

/-- Neither a job nor the network does anything but what it has to. -/
def SystemAction.CatchesUp {n : Nat} {P V IS : Type} : SystemAction n P V IS → Prop
  | .advance _ _ => True
  | .connect _ _ _ => True
  | .deliver _ => True
  | _ => False

section Ranks

variable {C Source V : Type} [PvAccessClientPV C Source V]

/-- What a client has still to do: its connection sends it another value. -/
def pvRank (pv : C) : Nat :=
  (PvAccessClientPV.inFlight pv).length + if PvAccessClientPV.source pv = none then 2 else 0

variable [LawfulPvAccessClientPV C] {pv pv' : C}

/-- A client that connects has less to do, although a value is sent to it. -/
private theorem pvRank_connect (hsource : PvAccessClientPV.source pv = none) (source : Source)
    (value : V) : pvRank (PvAccessClientPV.connect pv source value) < pvRank pv := by
  obtain ⟨kept, hkept, hsent⟩ := LawfulPvAccessClientPV.inFlight_connect pv source value
  have hlength := hkept.length_le
  rw [pvRank, pvRank, hsent, LawfulPvAccessClientPV.source_connect, if_neg nofun, if_pos hsource,
    List.length_append, List.length_singleton]
  omega

/-- A client that delivers a value has less to do. -/
private theorem pvRank_deliver {value : V}
    (hdeliver : PvAccessClientPV.deliver pv = some (value, pv')) : pvRank pv' < pvRank pv := by
  rw [pvRank, pvRank, (LawfulPvAccessClientPV.deliver_same _ _ _ hdeliver).2,
    LawfulPvAccessClientPV.inFlight_deliver _ _ _ hdeliver, List.length_cons]
  omega

end Ranks

section Definitions

variable {n : Nat} {S C V IS : Type} [PvAccessClientPV C (Fin (n + 1) × Nat) V]

/-- A server has nothing to do. -/
def AtRest (server : Fin (n + 1) × Nat) (s : SystemState n S C V IS) : Prop :=
  ∀ epicsServer, (s.manager server.1).servers[server.2]? = some epicsServer →
    (s.threads server.1 server.2).loop = .waiting ∧ epicsServer.updateQueue.valueUpdates = []

/-- What a server has still to do. -/
def serverRank (c : Fin (n + 1)) (i : Nat) (s : SystemState n S C V IS) : Nat :=
  match (s.manager c).servers[i]? with
  | none => 0
  | some epicsServer =>
    threadRank (s.threads c i).loop epicsServer.updateQueue.valueUpdates.length

/-- A monitor is connected and has delivered everything. -/
def UpToDate (monitor : Nat) (s : SystemState n S C V IS) : Prop :=
  ∀ pv, s.client.clientPvs[monitor]? = some pv →
    (PvAccessClientPV.source pv).isSome ∧ PvAccessClientPV.inFlight pv = []

/-- What a monitor has still to do. -/
def monitorRank (monitor : Nat) (s : SystemState n S C V IS) : Nat :=
  match s.client.clientPvs[monitor]? with
  | none => 0
  | some pv => pvRank pv

/-- What stays as it is while the system catches up. -/
structure CatchingUp [AnyValue V] [OacTree V] [InstructionStateCodec V IS] [Base64VariableCodec V]
    [PvAccessServer S V] (serverPrefix : String) (job : Nat) (nVars nInstr : UInt32)
    (s₀ s : SystemState n S C V IS) : Prop where
  inv : SystemInv serverPrefix job nVars nInstr s
  jobs : s.server.jobs = s₀.server.jobs
  published : s.published = s₀.published
  serves : ∀ c i channel, s.Serves c i channel ↔ s₀.Serves c i channel
  length : ∀ c, (s.manager c).servers.length = (s₀.manager c).servers.length

end Definitions

section Others

variable {n : Nat} {S C V IS : Type} [PvAccessClientPV C (Fin (n + 1) × Nat) V]
  {s : SystemState n S C V IS} {c : Fin (n + 1)} {i : Nat} {epicsServer : EPICSServer V}
  {u : UpdateLoopState S V}

/-- The servers behind a step of a thread. -/
private theorem servers_afterThread (hserver : (s.manager c).servers[i]? = some epicsServer)
    (c' : Fin (n + 1)) (i' : Nat) :
    ((s.afterThread c i u).manager c').servers[i']? = if c' = c ∧ i' = i then
      some { epicsServer with updateQueue := u.updateQueue } else (s.manager c').servers[i']? := by
  rw [manager_afterThread]
  by_cases hc : c' = c
  · subst hc
    rw [if_pos rfl, EPICSAnyValueManager.setQueue, List.getElem?_modify]
    by_cases hi : i' = i
    · subst hi
      simp [hserver]
    · simp [hi, Ne.symm hi]
  · simp [hc]

/-- A step of a thread leaves the other servers at rest. -/
private theorem AtRest.afterThread {other : Fin (n + 1) × Nat} (h : AtRest other s)
    (hserver : (s.manager c).servers[i]? = some epicsServer) (hother : other ≠ (c, i)) :
    AtRest other (s.afterThread c i u) := by
  have hne : ¬ (other.1 = c ∧ other.2 = i) := fun hboth ↦ hother (Prod.ext hboth.1 hboth.2)
  intro es hes
  rw [servers_afterThread hserver, if_neg hne] at hes
  rw [threads_afterThread, if_neg hne]
  exact h es hes

variable {t : SystemState n S C V IS} {monitor : Nat} {pv pv' : C}

/-- What one monitor does leaves the others as they are. -/
private theorem UpToDate.onlyMonitor {other : Nat} (h : UpToDate other s)
    (honly : OnlyMonitor s t monitor pv pv') (hother : other ≠ monitor) : UpToDate other t := by
  intro pv₁ hpv₁
  rw [honly.after, List.getElem?_set_ne (Ne.symm hother)] at hpv₁
  exact h pv₁ hpv₁

/-- What one monitor does leaves every server at rest. -/
private theorem AtRest.onlyMonitor {server : Fin (n + 1) × Nat} (h : AtRest server s)
    (honly : OnlyMonitor s t monitor pv pv') : AtRest server t := by
  unfold AtRest SystemState.manager
  rw [honly.server, honly.threads]
  exact h

/-- What a monitor has still to do afterwards. -/
private theorem OnlyMonitor.monitorRank (h : OnlyMonitor s t monitor pv pv') :
    monitorRank monitor t = pvRank pv' := by
  rw [Publication.monitorRank, h.after,
    List.getElem?_set_self (List.getElem?_eq_some_iff.mp h.before).1]

end Others

variable {n : Nat} {P S C V IS : Type} [PvAccessClientPV C (Fin (n + 1) × Nat) V] [AnyValue V]
  [OacTree V] [InstructionStateCodec V IS] [Base64VariableCodec V] [PvAccessServer S V]
  [Procedure P] [LawfulAnyValue V] [LawfulOacTree V] [LawfulInstructionStateCodec V]
  [LawfulBase64VariableCodec V] [LawfulPvAccessServer S] [LawfulPvAccessClientPV C]
  {serverPrefix : String} {job : Nat} {nVars nInstr : UInt32} {s₀ s t : SystemState n S C V IS}

section Servers

/-- A step of a thread is part of catching up. -/
private theorem CatchingUp.afterThread (h : CatchingUp serverPrefix job nVars nInstr s₀ s)
    (hjobs : s₀.server.jobs.length ≤ 2 ^ 32) {c : Fin (n + 1)} {i : Nat}
    {u : UpdateLoopState S V}
    (hstep : systemMachine.step s (.advance c i : SystemAction n P V IS) =
      some (s.afterThread c i u)) :
    CatchingUp serverPrefix job nVars nInstr s₀ (s.afterThread c i u) where
  inv := h.inv.step hstep (h.jobs ▸ hjobs)
  jobs := h.jobs
  published := h.published
  serves c' i' channel := serves_afterThread.trans (h.serves c' i' channel)
  length c' := by
    rw [← h.length c']
    have hlength := congrArg List.length (valueSets_afterThread (s := s) (t := u) (c := c)
      (i := i) c')
    rwa [EPICSAnyValueManager.valueSets, EPICSAnyValueManager.valueSets, List.length_map,
      List.length_map] at hlength

variable [TotalBase64VariableCodec V]

/-- A server that has something to do can go on, and has less to do afterwards. -/
private theorem CatchingUp.exists_step (h : CatchingUp serverPrefix job nVars nInstr s₀ s)
    (hjobs : s₀.server.jobs.length ≤ 2 ^ 32) {c : Fin (n + 1)} {i : Nat}
    (hbusy : ¬ AtRest (c, i) s) :
    ∃ epicsServer u, (s.manager c).servers[i]? = some epicsServer ∧
      (systemMachine : Machine _ (SystemAction n P V IS)).CanReach SystemAction.CatchesUp s
        (s.afterThread c i u) ∧
      CatchingUp serverPrefix job nVars nInstr s₀ (s.afterThread c i u) ∧
      threadRank u.loop u.updateQueue.valueUpdates.length <
        threadRank (s.threads c i).loop epicsServer.updateQueue.valueUpdates.length := by
  unfold AtRest at hbusy
  push Not at hbusy
  obtain ⟨epicsServer, hserver, hrest⟩ := hbusy
  have hfailed (e : Exception) : (s.threads c i).loop ≠ .failed e := by
    intro hloop
    obtain ⟨nameValueSet, herror⟩ := h.inv.channels.failed c i e hloop
    obtain ⟨server, hserve⟩ := serveVariables_ok nameValueSet (PvAccessServer.new : S)
    rw [herror] at hserve
    cases hserve
  obtain ⟨u, hadvance, hrank⟩ := exists_advance epicsServer.nameValueSet
    (t := s.threadState c i epicsServer) (commandsOf_eq hserver ▸ h.inv.channels.noExit c i)
    hfailed fun hboth ↦ hrest hboth.1 hboth.2
  have hstep : systemMachine.step s (.advance c i : SystemAction n P V IS) =
      some (s.afterThread c i u) := by
    change s.advance c i = _
    unfold SystemState.advance
    rw [hserver]
    exact congrArg (Option.map _) hadvance
  exact ⟨epicsServer, u, hserver, .single (a := .advance c i) trivial hstep,
    h.afterThread hjobs hstep, hrank⟩

/-- Every server comes to rest without disturbing another one. -/
private theorem exists_atRest (hjobs : s₀.server.jobs.length ≤ 2 ^ 32)
    (server : Fin (n + 1) × Nat) (s : SystemState n S C V IS)
    (h : CatchingUp serverPrefix job nVars nInstr s₀ s) :
    ∃ t, (systemMachine : Machine _ (SystemAction n P V IS)).CanReach
        SystemAction.CatchesUp s t ∧
      CatchingUp serverPrefix job nVars nInstr s₀ t ∧ AtRest server t ∧
      ∀ other, AtRest other s → AtRest other t := by
  obtain ⟨c, i⟩ := server
  by_cases hdone : AtRest (c, i) s
  · exact ⟨s, .refl _ _ s, h, hdone, fun _ ↦ id⟩
  · obtain ⟨t, hreach, ⟨ht, hothers⟩, hrest⟩ := Machine.CanReach.of_rank
      (m := (systemMachine : Machine _ (SystemAction n P V IS)))
      (fun r ↦ CatchingUp serverPrefix job nVars nInstr s₀ r ∧
        ∀ other ≠ (c, i), AtRest other s → AtRest other r) (AtRest (c, i)) (serverRank c i)
      (fun r hr hbusy ↦ by
        obtain ⟨epicsServer, u, hserver, hstep, hafter, hrank⟩ :=
          hr.1.exists_step (P := P) hjobs hbusy
        refine ⟨_, hstep, ⟨hafter, fun other hne hother ↦ ?_⟩, ?_⟩
        · exact (hr.2 other hne hother).afterThread hserver hne
        · rw [serverRank, serverRank, servers_afterThread hserver, if_pos ⟨rfl, rfl⟩, hserver,
            threads_afterThread, if_pos ⟨rfl, rfl⟩]
          exact hrank) ⟨h, fun _ _ ↦ id⟩
    refine ⟨t, hreach, ht, hrest, fun other hother ↦ ?_⟩
    by_cases hsame : other = (c, i)
    · exact hsame ▸ hrest
    · exact hothers other hsame hother

end Servers

section Clients

variable {monitor : Nat} {pv pv' : C}

omit [LawfulAnyValue V] [LawfulOacTree V] [LawfulInstructionStateCodec V]
  [LawfulBase64VariableCodec V] [LawfulPvAccessServer S] [LawfulPvAccessClientPV C] in
/-- What one monitor does is part of catching up. -/
private theorem CatchingUp.onlyMonitor (h : CatchingUp serverPrefix job nVars nInstr s₀ s)
    (honly : OnlyMonitor s t monitor pv pv') (hinv : SystemInv serverPrefix job nVars nInstr t) :
    CatchingUp serverPrefix job nVars nInstr s₀ t where
  inv := hinv
  jobs := (congrArg _ honly.server).trans h.jobs
  published := honly.published.trans h.published
  serves c i channel := by
    rw [← h.serves, SystemState.Serves, SystemState.Serves, SystemState.manager, honly.server]
    rfl
  length c := by
    rw [← h.length, SystemState.manager, honly.server]
    rfl

/-- A monitor of a job whose values are all served can go on, and has less to do afterwards. -/
private theorem CatchingUp.exists_monitor (h : CatchingUp serverPrefix job nVars nInstr s₀ s)
    (hjobs : s₀.server.jobs.length ≤ 2 ^ 32)
    (hserved : ∀ kind ∈ jobKinds nVars nInstr, ∃ c i,
      s₀.Serves c i (publishedName serverPrefix (UInt32.ofNat job) kind))
    (hrest : ∀ server, AtRest server s) (hbusy : ¬ UpToDate monitor s) :
    ∃ t pv pv', (systemMachine : Machine _ (SystemAction n P V IS)).CanReach
        SystemAction.CatchesUp s t ∧
      CatchingUp serverPrefix job nVars nInstr s₀ t ∧ OnlyMonitor s t monitor pv pv' ∧
      monitorRank monitor t < monitorRank monitor s := by
  unfold UpToDate at hbusy
  push Not at hbusy
  obtain ⟨pv, hpv, hbusy⟩ := hbusy
  obtain ⟨kind, hkind, hchannel⟩ : ∃ kind ∈ jobKinds nVars nInstr,
      publishedName serverPrefix (UInt32.ofNat job) kind = PvAccessClientPV.channel pv := by
    rw [← List.mem_map, ← h.inv.monitored]
    exact List.mem_map_of_mem (List.mem_of_getElem? hpv)
  cases hsource : PvAccessClientPV.source pv with
  | none =>
    -- the server of the channel runs, and has a value for it
    obtain ⟨c, i, hserves⟩ := hserved kind hkind
    rw [← h.serves, hchannel] at hserves
    obtain ⟨epicsServer, hserver, -⟩ :=
      ((s.manager c).nameServerMap_iff (PvAccessClientPV.channel pv) i).mp hserves
    have hrunning : isRunning (s.threads c i).loop = true := by
      rw [(hrest (c, i) epicsServer hserver).1]
      rfl
    obtain ⟨history, hinv⟩ := h.inv.channels.served c i (PvAccessClientPV.channel pv) hserves
    obtain ⟨-, -, -, hsome, -⟩ := hinv.thread.running hrunning
    obtain ⟨value, hvalue⟩ := Option.isSome_iff_exists.mp hsome
    have hstep : systemMachine.step s (.connect monitor c i : SystemAction n P V IS) =
        some { s with
          client := s.setMonitor monitor (PvAccessClientPV.connect pv (c, i) value) } := by
      change s.connect monitor c i = _
      unfold SystemState.connect
      simp only [hpv]
      rw [if_pos ⟨hsource, hserves, hrunning⟩, hvalue]
      rfl
    have honly : OnlyMonitor s _ monitor pv (PvAccessClientPV.connect pv (c, i) value) :=
      onlyMonitor_setMonitor hpv (LawfulPvAccessClientPV.channel_connect pv (c, i) value)
    refine ⟨_, pv, _, .single (a := .connect monitor c i) trivial hstep,
      h.onlyMonitor honly (h.inv.step hstep (h.jobs ▸ hjobs)), honly, ?_⟩
    rw [honly.monitorRank, monitorRank, hpv]
    exact pvRank_connect hsource (c, i) value
  | some source =>
    have hflight := hbusy (by rw [hsource]; rfl)
    obtain ⟨⟨value, pv'⟩, hdeliver⟩ :=
      Option.isSome_iff_exists.mp (LawfulPvAccessClientPV.deliver_isSome pv hflight)
    have hcallback := EPICSIOClient.onValue_channel (s.setMonitor monitor pv') h.inv.holds
      (createJobPrefix_ne_empty serverPrefix (UInt32.ofNat job)) hkind value
    change EPICSIOClient.onValue _ (publishedName serverPrefix (UInt32.ofNat job) kind) _ = _
      at hcallback
    rw [hchannel] at hcallback
    have hstep : systemMachine.step s (.deliver monitor : SystemAction n P V IS) = some _ :=
      deliver_eq_some_iff.mpr ⟨pv, value, pv', _, hpv, hdeliver, hcallback, rfl⟩
    have honly : OnlyMonitor s _ monitor pv pv' := onlyMonitor_deliver hpv hdeliver hcallback
    refine ⟨_, pv, _, .single (a := .deliver monitor) trivial hstep,
      h.onlyMonitor honly (h.inv.step hstep (h.jobs ▸ hjobs)), honly, ?_⟩
    rw [honly.monitorRank, monitorRank, hpv]
    exact pvRank_deliver hdeliver

/-- Every monitor of the job comes up to date without disturbing another one. -/
private theorem exists_upToDate (hjobs : s₀.server.jobs.length ≤ 2 ^ 32)
    (hserved : ∀ kind ∈ jobKinds nVars nInstr, ∃ c i,
      s₀.Serves c i (publishedName serverPrefix (UInt32.ofNat job) kind))
    (monitor : Nat) (s : SystemState n S C V IS)
    (h : CatchingUp serverPrefix job nVars nInstr s₀ s ∧ ∀ server, AtRest server s) :
    ∃ t, (systemMachine : Machine _ (SystemAction n P V IS)).CanReach
        SystemAction.CatchesUp s t ∧
      (CatchingUp serverPrefix job nVars nInstr s₀ t ∧ ∀ server, AtRest server t) ∧
      UpToDate monitor t ∧ ∀ other, UpToDate other s → UpToDate other t := by
  by_cases hdone : UpToDate monitor s
  · exact ⟨s, .refl _ _ s, h, hdone, fun _ ↦ id⟩
  · obtain ⟨t, hreach, ⟨ht, hothers⟩, hfinal⟩ := Machine.CanReach.of_rank
      (m := (systemMachine : Machine _ (SystemAction n P V IS)))
      (fun r ↦ (CatchingUp serverPrefix job nVars nInstr s₀ r ∧ ∀ server, AtRest server r) ∧
        ∀ other ≠ monitor, UpToDate other s → UpToDate other r)
      (UpToDate monitor) (monitorRank monitor)
      (fun r hr hbusy ↦ by
        obtain ⟨r', pv, pv', hstep, hafter, honly, hrank⟩ :=
          hr.1.1.exists_monitor (P := P) hjobs hserved hr.1.2 hbusy
        refine ⟨r', hstep, ⟨⟨hafter, fun server ↦ (hr.1.2 server).onlyMonitor honly⟩,
          fun other hne hother ↦ ?_⟩, hrank⟩
        exact (hr.2 other hne hother).onlyMonitor honly hne) ⟨h, fun _ _ ↦ id⟩
    refine ⟨t, hreach, ht, hfinal, fun other hother ↦ ?_⟩
    by_cases hsame : other = monitor
    · exact hsame ▸ hfinal
    · exact hothers other hsame hother

end Clients

omit [PvAccessClientPV C (Fin (n + 1) × Nat) V] [Base64VariableCodec V] [PvAccessServer S V]
  [InstructionStateCodec V IS] [LawfulAnyValue V] [LawfulOacTree V]
  [LawfulInstructionStateCodec V] [LawfulBase64VariableCodec V] [LawfulPvAccessServer S]
  [LawfulPvAccessClientPV C] in
/-- Every value of a job that has announced its instructions has a server. -/
private theorem exists_serves {s : SystemState n S C V IS} (h : AllRegistered s.server)
    {d : AutomationServer.JobData n} (hd : s.server.jobData job = some d)
    (hvars : d.io.nVars = nVars) (hinstr : d.nInstr = some nInstr) {kind : ChannelKind}
    (hkind : kind ∈ jobKinds nVars nInstr) :
    ∃ c i, s.Serves c i (publishedName s.server.serverPrefix (UInt32.ofNat job) kind) := by
  obtain ⟨nameValueSet, hset, hname⟩ : ∃ nameValueSet : NameAnyValueSet V,
      nameValueSet ∈ jobSets d.io d.nInstr ∧
        channelName d.io.jobPrefix kind ∈ nameValueSet.map Prod.fst := by
    rcases List.mem_append.mp hkind with hinitial | hinstrs
    · refine ⟨getInitialValueSet d.io.jobPrefix d.io.nVars, by simp [jobSets], ?_⟩
      rw [getInitialValueSet_names, hvars]
      exact channelName_mem_map.mpr hinitial
    · refine ⟨getInstructionValueSet d.io.jobPrefix nInstr, by simp [jobSets, hinstr], ?_⟩
      rw [getInstructionValueSet_names]
      exact channelName_mem_map.mpr hinstrs
  obtain ⟨i, hi⟩ := List.mem_iff_getElem?.mp
    ((h.sets d.manager nameValueSet).mpr ⟨job, d, hd, rfl, hset⟩)
  rw [(h.job job d hd).2] at hname
  exact ⟨d.manager, i, EPICSAnyValueManager.findServer_eq_some_iff.mpr ⟨nameValueSet, hi, hname⟩⟩

variable [TotalBase64VariableCodec V] {acts : List (SystemAction n P V IS)}

/-- The threads can go on and the monitors connect and deliver until nothing is left to be done. -/
theorem SystemInv.exists_settled (hinv : SystemInv serverPrefix job nVars nInstr s)
    (hjobs : s.server.jobs.length ≤ 2 ^ 32) {d : AutomationServer.JobData n}
    (hd : s.server.jobData job = some d) (hvars : d.io.nVars = nVars)
    (hinstr : d.nInstr = some nInstr) :
    ∃ (more : List (SystemAction n P V IS)) (t : SystemState n S C V IS),
      (∀ a ∈ more, a.CatchesUp) ∧ systemMachine.run s more = some t ∧ t.Settled ∧
      t.published = s.published ∧ t.server.jobs = s.server.jobs := by
  have hserved : ∀ kind ∈ jobKinds nVars nInstr, ∃ c i,
      s.Serves c i (publishedName serverPrefix (UInt32.ofNat job) kind) := by
    rw [← hinv.serverPrefix_eq]
    exact fun kind ↦ exists_serves hinv.registered hd hvars hinstr
  -- first the servers
  let servers : List (Fin (n + 1) × Nat) := (List.finRange (n + 1)).flatMap fun c ↦
    (List.range (s.manager c).servers.length).map (Prod.mk c)
  obtain ⟨r, hreach, hr, hrest⟩ := Machine.CanReach.of_each
    (m := (systemMachine : Machine _ (SystemAction n P V IS)))
    (CatchingUp serverPrefix job nVars nInstr s) AtRest (exists_atRest hjobs) servers
    ⟨hinv, rfl, rfl, fun _ _ _ ↦ Iff.rfl, fun _ ↦ rfl⟩
  have hallRest (server : Fin (n + 1) × Nat) : AtRest server r := by
    intro epicsServer hserver
    refine hrest server ?_ epicsServer hserver
    have hlt := (List.getElem?_eq_some_iff.mp hserver).1
    rw [hr.length] at hlt
    exact List.mem_flatMap.mpr ⟨server.1, List.mem_finRange _,
      List.mem_map.mpr ⟨server.2, List.mem_range.mpr hlt, rfl⟩⟩
  -- then the monitors
  obtain ⟨t, hreach', ⟨ht, htrest⟩, hdate⟩ := Machine.CanReach.of_each
    (m := (systemMachine : Machine _ (SystemAction n P V IS)))
    (fun t ↦ CatchingUp serverPrefix job nVars nInstr s t ∧ ∀ server, AtRest server t) UpToDate
    (exists_upToDate hjobs hserved) (List.range r.client.clientPvs.length) ⟨hr, hallRest⟩
  obtain ⟨more, hallowed, hmore⟩ := hreach.trans hreach'
  refine ⟨more, t, hallowed, hmore, ⟨?_, ?_⟩, ht.published, ht.jobs⟩
  · intro c i
    unfold SystemState.commandsOf commandsIn
    cases hserver : (t.manager c).servers[i]? with
    | none =>
      rw [ht.inv.channels.thread c i hserver, EPICSAnyValueManager.waitingAt_eq_nil hserver]
      rfl
    | some epicsServer =>
      obtain ⟨hloop, hqueue⟩ := htrest (c, i) epicsServer hserver
      rw [EPICSAnyValueManager.waitingAt_eq hserver, hloop, hqueue]
      rfl
  · intro pv hpv
    obtain ⟨monitor, hmonitor⟩ := List.mem_iff_getElem?.mp hpv
    refine hdate monitor (List.mem_range.mpr ?_) pv hmonitor
    have hlength : t.client.clientPvs.length = r.client.clientPvs.length := by
      have := congrArg List.length (ht.inv.monitored.trans hr.inv.monitored.symm)
      rwa [List.length_map, List.length_map] at this
    rw [← hlength]
    exact (List.getElem?_eq_some_iff.mp hmonitor).1

/-- Whatever has happened, the client of a job can still catch up without another report. -/
theorem publication_settles
    (hrun : runWithClient serverPrefix job nVars nInstr acts = some s)
    (hjobs : s.server.jobs.length ≤ 2 ^ 32) {d : AutomationServer.JobData n}
    (hd : s.server.jobData job = some d) (hvars : d.io.nVars = nVars)
    (hinstr : d.nInstr = some nInstr) :
    ∃ (more : List (SystemAction n P V IS)) (t : SystemState n S C V IS),
      (∀ a ∈ more, a.CatchesUp) ∧
      runWithClient serverPrefix job nVars nInstr (acts ++ more) = some t ∧
      t.Settled ∧ t.published = s.published := by
  obtain ⟨more, t, hallowed, hmore, hsettled, hpublished, -⟩ :=
    (SystemInv.run hrun hjobs).exists_settled (P := P) hjobs hd hvars hinstr
  exact ⟨more, t, hallowed, runWithClient_append hrun hmore, hsettled, hpublished⟩

omit [TotalBase64VariableCodec V] in
/-- When nothing is left to be done, the last report of a kind that the client has received is the
last one that its job has published, or the initial one, unless this one cannot be seen. -/
theorem publication_converges
    (hrun : runWithClient serverPrefix job nVars nInstr acts = some s)
    (hjob : job < 2 ^ 32) (hjobs : s.server.jobs.length ≤ 2 ^ 32) (hsettled : s.Settled)
    {kind : ChannelKind} (hkind : kind ∈ jobKinds nVars nInstr) {u : JobUpdate V IS}
    (hlast : (initialReport (V := V) kind ::
      (reportsOn s.published job kind).map shownReport).getLast? = some (some u)) :
    (receivedOn kind s.client.avMgr.received).getLast? = some u := by
  have hinv := SystemInv.run hrun hjobs
  rw [← hinv.getLast?_delivered hjob hjobs hsettled hkind] at hlast
  obtain ⟨before, hbefore⟩ := List.getLast?_eq_some_iff.mp hlast
  rw [hinv.received kind hkind, hbefore, ← List.cons_append, List.reduceOption_append]
  exact List.getLast?_concat

section Sample

/-- What is seen of the sample run: the jobs, the data of the first one and what it has
published. -/
private theorem twoReportingJobs_ok : ∃ s : SampleState,
    runWithClient "S" 0 1 0 twoReportingJobs = some s ∧ s.server.jobs.length = 2 ∧
      (∃ d, s.server.jobData 0 = some d ∧ d.io.nVars = 1 ∧ d.nInstr = some 0) ∧
      reportsOn s.published 0 .jobState = [.jobStateUpdated ⟨1⟩, .jobStateUpdated ⟨3⟩] := by
  obtain ⟨s, hrun⟩ := Option.isSome_iff_exists.mp
    (show (runWithClient "S" 0 1 0 twoReportingJobs :
      Option (SampleState)).isSome = true by rfl)
  have hobserved : (runWithClient "S" 0 1 0 twoReportingJobs :
      Option (SampleState)).map (fun s ↦
        (s.server.jobs.length, (s.server.jobData 0).map fun d ↦ (d.io.nVars, d.nInstr),
          reportsOn s.published 0 .jobState)) =
      some (2, some (1, some 0), [.jobStateUpdated ⟨1⟩, .jobStateUpdated ⟨3⟩]) := by rfl
  rw [hrun] at hobserved
  obtain ⟨hlength, hrest⟩ := Prod.mk.inj (Option.some.inj hobserved)
  obtain ⟨hdata, hreports⟩ := Prod.mk.inj hrest
  obtain ⟨d, hd, hboth⟩ := Option.map_eq_some_iff.mp hdata
  obtain ⟨hvars, hinstr⟩ := Prod.mk.inj hboth
  exact ⟨s, hrun, hlength, ⟨d, hd, hvars, hinstr⟩, hreports⟩

/-- The client that has missed a report catches up. -/
theorem publication_settles_two_jobs :
    ∃ (more : List (SystemAction 0 (List String) DtoValue (Bool × UInt32)))
      (s t : SampleState), (∀ a ∈ more, a.CatchesUp) ∧
      runWithClient "S" 0 1 0 twoReportingJobs = some s ∧
      runWithClient "S" 0 1 0 (twoReportingJobs ++ more) = some t ∧ t.Settled ∧
      t.published = s.published := by
  obtain ⟨s, hrun, hlength, ⟨d, hd, hvars, hinstr⟩, -⟩ := twoReportingJobs_ok
  obtain ⟨more, t, hallowed, hmore, hsettled, hpublished⟩ :=
    publication_settles hrun (by rw [hlength]; decide) hd hvars hinstr
  exact ⟨more, s, t, hallowed, hrun, hmore, hsettled, hpublished⟩

/-- The client that has missed a report has received the last one when it has caught up. -/
theorem publication_converges_two_jobs :
    ∃ (more : List (SystemAction 0 (List String) DtoValue (Bool × UInt32)))
      (t : SampleState),
      runWithClient "S" 0 1 0 (twoReportingJobs ++ more) = some t ∧ t.Settled ∧
      (receivedOn .jobState t.client.avMgr.received).getLast? = some (.jobStateUpdated ⟨3⟩) := by
  obtain ⟨s, hrun, hlength, ⟨d, hd, hvars, hinstr⟩, hreports⟩ := twoReportingJobs_ok
  have hjobs : s.server.jobs.length ≤ 2 ^ 32 := by
    rw [hlength]
    decide
  obtain ⟨more, t, -, hmore, hsettled, hpublished, hsame⟩ :=
    (SystemInv.run hrun hjobs).exists_settled (P := List String) hjobs hd hvars hinstr
  have hrun' := runWithClient_append hrun hmore
  refine ⟨more, t, hrun', hsettled, ?_⟩
  refine publication_converges hrun' (by decide) (hsame ▸ hjobs) hsettled (by decide) ?_
  rw [hpublished, hreports]
  rfl

end Sample

end OacTreeServer.Publication
