import OacTreeServer.Server.AutomationServer

/-!
# Registration of the values of all jobs

The results of `AddAnyValues` and `AddInputHandler` are discarded when a job is
registered. Since published names are unique, no registration fails, whatever jobs share
a manager: the managers serve exactly the sets of values of the jobs. This ends with the
job whose index does not fit into 32 bits any more.
-/

namespace OacTreeServer.Server
open OacTreeServer.Epics OacTreeServer.External OacTreeServer.Job OacTreeServer.Library
  OacTreeServer.Protocol

variable {V : Type} [AnyValue V] [OacTree V]

/-- The sets of values that are registered for a job. -/
def jobSets (io : ServerJobInfoIo) (nInstr : Option UInt32) : List (NameAnyValueSet V) :=
  [getInitialValueSet io.jobPrefix io.nVars,
    [(getInputRequestPVName (getInputServerName io.jobPrefix), kInputRequestAnyValue V)]] ++
  (nInstr.map (getInstructionValueSet io.jobPrefix)).toList

/-- The set of the instructions comes last. -/
private theorem jobSets_some (io : ServerJobInfoIo) (nInstr : UInt32) :
    (jobSets io (some nInstr) : List (NameAnyValueSet V)) =
      jobSets io none ++ [getInstructionValueSet io.jobPrefix nInstr] := by
  simp [jobSets]

/-- Every name in a set of a job is that of a channel of the job. -/
theorem channel_of_mem_jobSets {io : ServerJobInfoIo} {nInstr : Option UInt32}
    {nameValueSet : NameAnyValueSet V} (hset : nameValueSet ∈ jobSets io nInstr) {name : String}
    (hname : name ∈ nameValueSet.map Prod.fst) :
    ∃ kind, name = channelName io.jobPrefix kind ∧
      (kind = .inputRequest ∨ kind ∈ jobKinds io.nVars (nInstr.getD 0)) := by
  simp only [jobSets, List.mem_append, List.mem_cons, List.not_mem_nil, or_false,
    Option.mem_toList, Option.map_eq_some_iff] at hset
  rcases hset with (rfl | rfl) | ⟨count, rfl, rfl⟩
  · rw [getInitialValueSet_names] at hname
    obtain ⟨kind, hkind, rfl⟩ := List.mem_map.mp hname
    exact ⟨kind, rfl, .inr (List.mem_append_left _ hkind)⟩
  · rw [List.map_cons, List.map_nil, List.mem_singleton] at hname
    exact ⟨.inputRequest, hname, .inl rfl⟩
  · rw [getInstructionValueSet_names] at hname
    obtain ⟨kind, hkind, rfl⟩ := List.mem_map.mp hname
    exact ⟨kind, rfl, .inr (List.mem_append_right _ hkind)⟩

/-- The state of the job is among the initial values. -/
private theorem getJobStatePVName_mem (pre : String) (nVars : UInt32) :
    getJobStatePVName pre ∈ (getInitialValueSet pre nVars : NameAnyValueSet V).map Prod.fst := by
  rw [getInitialValueSet_names]
  exact channelName_mem_map.mpr (show .jobState ∈ initialKinds nVars by simp [initialKinds])

variable {n : Nat} {server server' : AutomationServer n (Recorded (EPICSAnyValueManager V))}

/-- All calls that register values succeeded, and each manager serves exactly the sets of
the jobs that refer to it. -/
structure AllRegistered (server : AutomationServer n (Recorded (EPICSAnyValueManager V))) :
    Prop where
  aligned : server.Aligned
  job : ∀ j d, server.jobData j = some d →
    d.manager = managerIndex n (UInt32.ofNat j) ∧
      d.io.jobPrefix = createJobPrefix server.serverPrefix (UInt32.ofNat j)
  results : ∀ c, ∀ added ∈ (server.avMgrRegistry c).results, added = true
  sets : ∀ c nameValueSet, nameValueSet ∈ (server.avMgrRegistry c).manager.valueSets ↔
    ∃ j d, server.jobData j = some d ∧ d.manager = c ∧ nameValueSet ∈ jobSets d.io d.nInstr
  inputServers : ∀ c name, (server.avMgrRegistry c).manager.findInputServer name ≠ none →
    ∃ j d, server.jobData j = some d ∧ d.manager = c ∧ name = getInputServerName d.io.jobPrefix

namespace AllRegistered

/-- Nothing is registered at first. -/
theorem new (serverPrefix : String) :
    AllRegistered (AutomationServer.new serverPrefix
      fun _ : Fin (n + 1) ↦ (⟨.new, []⟩ : Recorded (EPICSAnyValueManager V))) := by
  have hnone (j : Nat) : (AutomationServer.new serverPrefix
      fun _ : Fin (n + 1) ↦ (⟨.new, []⟩ : Recorded (EPICSAnyValueManager V))).jobData j =
        none := rfl
  constructor
  · exact AutomationServer.aligned_new _ _
  · intro j d h
    rw [hnone] at h
    cases h
  · intro c added h
    cases h
  · intro c nameValueSet
    constructor
    · intro h
      cases h
    · rintro ⟨j, d, h, -⟩
      rw [hnone] at h
      cases h
  · intro c name h
    exact absurd (by simp [AutomationServer.new, EPICSAnyValueManager.new,
      EPICSAnyValueManager.findInputServer]) h

/-- A name that is served is that of a channel of the job that it was built for. -/
theorem owner (h : AllRegistered server) (hjobs : server.jobs.length ≤ 2 ^ 32) {j : Nat}
    (hj : j < 2 ^ 32) {c : Fin (n + 1)} {i : Nat} {kind : ChannelKind}
    (hfind : (server.avMgrRegistry c).manager.findServer
      (channelName (createJobPrefix server.serverPrefix (UInt32.ofNat j)) kind) = some i) :
    ∃ d nameValueSet, server.jobData j = some d ∧ d.manager = c ∧
      (server.avMgrRegistry c).manager.valueSets[i]? = some nameValueSet ∧
      nameValueSet ∈ jobSets d.io d.nInstr ∧
      (kind = .inputRequest ∨ kind ∈ jobKinds d.io.nVars (d.nInstr.getD 0)) := by
  obtain ⟨nameValueSet, hset, hname⟩ := EPICSAnyValueManager.findServer_eq_some_iff.mp hfind
  obtain ⟨j', d, hd, hc, hmem⟩ := (h.sets c nameValueSet).mp (List.mem_of_getElem? hset)
  obtain ⟨kind', hkind', hchannel⟩ := channel_of_mem_jobSets hmem hname
  have hj' : j' < 2 ^ 32 := by
    have := (h.aligned.jobData_isSome j').mp (by simp [hd])
    omega
  rw [(h.job j' d hd).2] at hkind'
  obtain ⟨-, hindex, rfl⟩ := publishedName_inj.mp hkind'
  rw [← (jobIdx_inj hj hj').mp hindex] at hd
  exact ⟨d, nameValueSet, hd, hc, hset, hmem, hchannel⟩

/-- A change of one job that adds the sets of the job to its manager. -/
theorem of_changes (h : AllRegistered server) {job : Nat} {d : AutomationServer.JobData n}
    {r : Recorded (EPICSAnyValueManager V)} (hchange : server.Changes server' job d r)
    (hjob : d.manager = managerIndex n (UInt32.ofNat job) ∧
      d.io.jobPrefix = createJobPrefix server.serverPrefix (UInt32.ofNat job))
    (hbefore : ∀ d₀, server.jobData job = some d₀ → d₀.manager = d.manager ∧
      d₀.io.jobPrefix = d.io.jobPrefix ∧
      ∀ nameValueSet : NameAnyValueSet V, nameValueSet ∈ jobSets d₀.io d₀.nInstr →
        nameValueSet ∈ jobSets d.io d.nInstr)
    (hresults : ∀ added ∈ r.results,
      added ∈ (server.avMgrRegistry d.manager).results ∨ added = true)
    (hsets : ∀ nameValueSet, nameValueSet ∈ r.manager.valueSets ↔
      nameValueSet ∈ (server.avMgrRegistry d.manager).manager.valueSets ∨
        nameValueSet ∈ jobSets d.io d.nInstr)
    (hinput : ∀ name, r.manager.findInputServer name ≠ none →
      (server.avMgrRegistry d.manager).manager.findInputServer name ≠ none ∨
        name = getInputServerName d.io.jobPrefix) :
    AllRegistered server' := by
  constructor
  · exact hchange.aligned
  · intro j d' hd'
    rw [hchange.serverPrefix]
    by_cases hj : j = job
    · subst hj
      rw [hchange.jobData_self] at hd'
      cases hd'
      exact hjob
    · rw [hchange.jobData_of_ne hj] at hd'
      exact h.job j d' hd'
  · intro c added hadded
    by_cases hc : c = d.manager
    · subst hc
      rw [hchange.avMgrRegistry_self] at hadded
      rcases hresults added hadded with hold | hnew
      · exact h.results _ added hold
      · exact hnew
    · rw [hchange.avMgrRegistry_of_ne hc] at hadded
      exact h.results c added hadded
  · intro c nameValueSet
    -- what a job had before it still has
    have hold (hserved : nameValueSet ∈ (server.avMgrRegistry c).manager.valueSets) :
        ∃ j d', server'.jobData j = some d' ∧ d'.manager = c ∧
          nameValueSet ∈ jobSets d'.io d'.nInstr := by
      apply hchange.exists_jobData _ ((h.sets c nameValueSet).mp hserved)
      rintro d₀ hd₀ ⟨hc, hmem⟩
      obtain ⟨hmanager, -, hsub⟩ := hbefore d₀ hd₀
      exact ⟨hmanager ▸ hc, hsub _ hmem⟩
    constructor
    · intro hmem
      by_cases hc : c = d.manager
      · subst hc
        rw [hchange.avMgrRegistry_self, hsets] at hmem
        rcases hmem with hmem | hmem
        · exact hold hmem
        · exact ⟨job, d, hchange.jobData_self, rfl, hmem⟩
      · rw [hchange.avMgrRegistry_of_ne hc] at hmem
        exact hold hmem
    · rintro ⟨j, d', hd', rfl, hmem⟩
      by_cases hj : j = job
      · subst hj
        rw [hchange.jobData_self] at hd'
        cases hd'
        rw [hchange.avMgrRegistry_self, hsets]
        exact .inr hmem
      · rw [hchange.jobData_of_ne hj] at hd'
        have hserved := (h.sets d'.manager nameValueSet).mpr ⟨j, d', hd', rfl, hmem⟩
        by_cases hc : d'.manager = d.manager
        · rw [hc] at hserved ⊢
          rw [hchange.avMgrRegistry_self, hsets]
          exact .inl hserved
        · rwa [hchange.avMgrRegistry_of_ne hc]
  · intro c name hname
    have hold (hfound : (server.avMgrRegistry c).manager.findInputServer name ≠ none) :
        ∃ j d', server'.jobData j = some d' ∧ d'.manager = c ∧
          name = getInputServerName d'.io.jobPrefix := by
      apply hchange.exists_jobData _ (h.inputServers c name hfound)
      rintro d₀ hd₀ ⟨hc, hn⟩
      obtain ⟨hmanager, hpre, -⟩ := hbefore d₀ hd₀
      exact ⟨hmanager ▸ hc, hpre ▸ hn⟩
    by_cases hc : c = d.manager
    · subst hc
      rw [hchange.avMgrRegistry_self] at hname
      rcases hinput name hname with hfound | hn
      · exact hold hfound
      · exact ⟨job, d, hchange.jobData_self, rfl, hn⟩
    · rw [hchange.avMgrRegistry_of_ne hc] at hname
      exact hold hname

end AllRegistered

variable [Base64VariableCodec V]

/-- Construction makes two calls of the manager, whose results are kept. -/
theorem new_recorded_eq {pre : String} {nVars : UInt32} {r : Recorded (EPICSAnyValueManager V)}
    {m₀ m₁ : EPICSAnyValueManager V} {added handled : Bool}
    (hadd : r.manager.addAnyValues (getInitialValueSet pre nVars) = (added, m₀))
    (hhandle : m₀.addInputHandler (getInputServerName pre) = (handled, m₁)) :
    ServerJobInfoIo.new pre nVars r =
      .ok (⟨pre, nVars, .new, .new, .new⟩, ⟨m₁, r.results ++ [added, handled]⟩) := by
  have hadded : IAnyValueManager.addAnyValues r (getInitialValueSet pre nVars) =
      .ok (added, (⟨m₀, r.results ++ [added]⟩ : Recorded (EPICSAnyValueManager V))) :=
    Recorded.addAnyValues_ok (congrArg Except.ok hadd)
  have hhandled : IAnyValueManager.addInputHandler
      (⟨m₀, r.results ++ [added]⟩ : Recorded (EPICSAnyValueManager V)) (getInputServerName pre) =
      .ok (handled, ⟨m₁, r.results ++ [added] ++ [handled]⟩) :=
    Recorded.addInputHandler_ok (congrArg Except.ok hhandle)
  unfold ServerJobInfoIo.new
  rw [initializeJobAndVariables_ok hadded hhandled, List.append_assoc]
  rfl

/-- Registration at a manager that knows no name of the job. -/
theorem new_recorded {pre : String} (nVars : UInt32) {r : Recorded (EPICSAnyValueManager V)}
    (hfresh : ∀ kind, r.manager.findServer (channelName pre kind) = none)
    (hinput : r.manager.findInputServer (getInputServerName pre) = none) :
    ∃ r', ServerJobInfoIo.new pre nVars r = .ok (⟨pre, nVars, .new, .new, .new⟩, r') ∧
      r'.results = r.results ++ [true, true] ∧
      r'.manager.valueSets = r.manager.valueSets ++
        jobSets ⟨pre, nVars, .new, .new, .new⟩ none ∧
      ∀ name, name ≠ getInputServerName pre →
        r'.manager.findInputServer name = r.manager.findInputServer name := by
  -- the initial values
  have hadd : (r.manager.addAnyValues (getInitialValueSet pre nVars)).1 = true ∧
      (r.manager.addAnyValues (getInitialValueSet pre nVars)).2.valueSets =
        r.manager.valueSets ++ [getInitialValueSet pre nVars] := by
    apply EPICSAnyValueManager.addAnyValuesImpl_fresh
    · rw [getInitialValueSet_names]
      exact nodup_channelNames (nodup_initialKinds nVars)
    · intro name hname
      rw [getInitialValueSet_names] at hname
      obtain ⟨kind, -, rfl⟩ := List.mem_map.mp hname
      exact hfresh kind
  have hservers : (r.manager.addAnyValues (getInitialValueSet pre nVars)).2.findInputServer =
      r.manager.findInputServer := EPICSAnyValueManager.findInputServer_addAnyValuesImpl _ _
  generalize hm : r.manager.addAnyValues (getInitialValueSet pre nVars) = added at hadd hservers
  obtain ⟨ok, m₀⟩ := added
  obtain ⟨rfl, hsets⟩ := hadd
  -- the input handler
  have hrequest : m₀.findServer (getInputRequestPVName (getInputServerName pre)) = none := by
    rw [EPICSAnyValueManager.findServer_eq_none_iff, hsets]
    intro nameValueSet hset hname
    rcases List.mem_append.mp hset with hold | hnew
    · exact EPICSAnyValueManager.findServer_eq_none_iff.mp (hfresh .inputRequest) _ hold hname
    · rw [List.mem_singleton.mp hnew, getInitialValueSet_names] at hname
      have : ChannelKind.inputRequest ∈ initialKinds nVars := channelName_mem_map.mp hname
      simp [initialKinds] at this
  have hhandler := EPICSAnyValueManager.addInputHandler_fresh
    (show m₀.findInputServer (getInputServerName pre) = none by rw [hservers, hinput]) hrequest
  generalize hm' : m₀.addInputHandler (getInputServerName pre) = handled at hhandler
  obtain ⟨ok, m₁⟩ := handled
  obtain ⟨rfl, hsets', hservers'⟩ := hhandler
  refine ⟨_, new_recorded_eq hm hm', rfl, ?_, ?_⟩
  · rw [hsets', hsets]
    simp [jobSets]
  · intro name hname
    rw [hservers', Function.update_of_ne hname, hservers]

/-- Registration at a manager that knows a name of the job already is refused. -/
theorem new_recorded_refused {pre : String} {nVars : UInt32}
    {r r' : Recorded (EPICSAnyValueManager V)} {io : ServerJobInfoIo}
    (hfound : r.manager.findServer (getJobStatePVName pre) ≠ none)
    (hnew : ServerJobInfoIo.new pre nVars r = .ok (io, r')) : false ∈ r'.results := by
  have hadd : r.manager.addAnyValues (getInitialValueSet pre nVars) = (false, r.manager) :=
    EPICSAnyValueManager.addAnyValuesImpl_refused (getJobStatePVName_mem pre nVars) hfound
  rw [new_recorded_eq hadd Prod.mk.eta.symm] at hnew
  cases hnew
  simp

/-- No call of `AddJob` throws, unless the construction of the `LocalJob` does. -/
theorem addJob_returns {P : Type} [Procedure P] {n : Nat}
    (server : AutomationServer n (Recorded (EPICSAnyValueManager V))) {proc : P}
    (hproc : Procedure.localJob proc = .ok ()) :
    ∃ server', server.addJob proc = (none, server') := by
  unfold AutomationServer.addJob
  dsimp only
  rw [new_recorded_eq Prod.mk.eta.symm Prod.mk.eta.symm, hproc]
  exact ⟨_, rfl⟩

/-- Registration of the instructions at a manager that knows none of them. -/
theorem initNumberOfInstructions_recorded {io : ServerJobInfoIo} {nInstr : UInt32}
    {r : Recorded (EPICSAnyValueManager V)}
    (hfresh : ∀ kind ∈ instructionKinds nInstr,
      r.manager.findServer (channelName io.jobPrefix kind) = none) :
    ∃ r', io.initNumberOfInstructions r nInstr = .ok r' ∧ r'.results = r.results ++ [true] ∧
      r'.manager.valueSets =
        r.manager.valueSets ++ [getInstructionValueSet io.jobPrefix nInstr] ∧
      r'.manager.findInputServer = r.manager.findInputServer := by
  have hadd : (r.manager.addAnyValues (getInstructionValueSet io.jobPrefix nInstr)).1 = true ∧
      (r.manager.addAnyValues (getInstructionValueSet io.jobPrefix nInstr)).2.valueSets =
        r.manager.valueSets ++ [getInstructionValueSet io.jobPrefix nInstr] := by
    apply EPICSAnyValueManager.addAnyValuesImpl_fresh
    · rw [getInstructionValueSet_names]
      exact nodup_channelNames (nodup_instructionKinds nInstr)
    · intro name hname
      rw [getInstructionValueSet_names] at hname
      obtain ⟨kind, hkind, rfl⟩ := List.mem_map.mp hname
      exact hfresh kind hkind
  have hservers :
      (r.manager.addAnyValues (getInstructionValueSet io.jobPrefix nInstr)).2.findInputServer =
        r.manager.findInputServer := EPICSAnyValueManager.findInputServer_addAnyValuesImpl _ _
  generalize hm : r.manager.addAnyValues (getInstructionValueSet io.jobPrefix nInstr) = added
    at hadd hservers
  obtain ⟨ok, m⟩ := added
  obtain ⟨rfl, hsets⟩ := hadd
  have hadded : IAnyValueManager.addAnyValues r (getInstructionValueSet io.jobPrefix nInstr) =
      .ok (true, (⟨m, r.results ++ [true]⟩ : Recorded (EPICSAnyValueManager V))) :=
    Recorded.addAnyValues_ok (congrArg Except.ok hm)
  exact ⟨_, initializeInstructions_ok hadded, rfl, hsets, hservers⟩

/-- A report changes neither what a manager serves nor what a job refers to. -/
theorem perform_recorded {IS : Type} [InstructionStateCodec V IS] {io io' : ServerJobInfoIo}
    {u : JobUpdate V IS} {r r' : Recorded (EPICSAnyValueManager V)}
    (h : io.perform r u = .ok (io', r')) :
    io'.jobPrefix = io.jobPrefix ∧ io'.nVars = io.nVars ∧ r'.results = r.results ∧
      r'.manager.valueSets = r.manager.valueSets ∧
      r'.manager.findInputServer = r.manager.findInputServer := by
  rw [ServerJobInfoIo.perform_eq] at h
  cases hpub : io.publication u with
  | none =>
    rw [hpub] at h
    cases h
    simp
  | some publication =>
    obtain ⟨kind, value⟩ := publication
    simp only [hpub, Recorded.updateAnyValue_eq] at h
    cases hupdate : IAnyValueManager.updateAnyValue r.manager (channelName io.jobPrefix kind)
      value with
    | error e =>
      rw [hupdate] at h
      cases h
    | ok updated =>
      rw [hupdate] at h
      cases h
      have hframe := EPICSAnyValueManager.updateAnyValue_frame hupdate
      simp [hframe.1, hframe.2]

namespace AllRegistered

/-- A job with a new index is registered completely. -/
theorem addJob {P : Type} [Procedure P] (h : AllRegistered server) {proc : P}
    (hjobs : server.jobs.length < 2 ^ 32) (hadd : server.addJob proc = (none, server')) :
    AllRegistered server' := by
  obtain ⟨io, r, hnew, -, hchange⟩ := AutomationServer.addJob_changes h.aligned hadd
  have hnone : server.jobData server.jobs.length = none := by
    rw [← Option.isNone_iff_eq_none, ← Option.not_isSome, Bool.not_eq_true', Bool.eq_false_iff,
      Ne, h.aligned.jobData_isSome]
    omega
  -- no name of the new job is known yet
  have hfresh (c : Fin (n + 1)) (kind : ChannelKind) :
      (server.avMgrRegistry c).manager.findServer (channelName (createJobPrefix
        server.serverPrefix (UInt32.ofNat server.jobs.length)) kind) = none := by
    rw [Option.eq_none_iff_forall_ne_some]
    intro i hi
    obtain ⟨d, -, hd, -⟩ := h.owner (by omega) hjobs hi
    rw [hnone] at hd
    cases hd
  have hinput (c : Fin (n + 1)) : (server.avMgrRegistry c).manager.findInputServer
      (getInputServerName (createJobPrefix server.serverPrefix
        (UInt32.ofNat server.jobs.length))) = none := by
    by_contra hfound
    obtain ⟨j, d, hd, -, hname⟩ := h.inputServers c _ hfound
    have hj : j < server.jobs.length := (h.aligned.jobData_isSome j).mp (by simp [hd])
    rw [(h.job j d hd).2] at hname
    have hindex : UInt32.ofNat server.jobs.length = UInt32.ofNat j :=
      (publishedName_inj (k := .inputServer) (l := .inputServer).mp hname).2.1
    have := (jobIdx_inj hjobs (by omega)).mp hindex
    omega
  obtain ⟨r', hnew', hresults, hsets, hinputs⟩ :=
    new_recorded (getNumberOfVariables proc) (hfresh _) (hinput _)
  rw [hnew] at hnew'
  cases hnew'
  refine h.of_changes hchange ⟨rfl, rfl⟩ ?_ ?_ ?_ ?_
  · intro d₀ hd₀
    rw [hnone] at hd₀
    cases hd₀
  · intro added hadded
    rw [hresults] at hadded
    simpa using hadded
  · intro nameValueSet
    rw [hsets, List.mem_append]
  · intro name hname
    by_cases hn : name = getInputServerName (createJobPrefix server.serverPrefix
        (UInt32.ofNat server.jobs.length))
    · exact .inr hn
    · exact .inl (by rwa [← hinputs name hn])

/-- A job with the index of another job is not registered. -/
theorem addJob_refused {P : Type} [Procedure P] (h : AllRegistered server) {proc : P} {j : Nat}
    {d : AutomationServer.JobData n} (hd : server.jobData j = some d)
    (hindex : UInt32.ofNat server.jobs.length = UInt32.ofNat j)
    (hadd : server.addJob proc = (none, server')) :
    false ∈ (server'.avMgrRegistry d.manager).results := by
  obtain ⟨io, r, hnew, -, hchange⟩ := AutomationServer.addJob_changes h.aligned hadd
  obtain ⟨hmanager, hpre⟩ := h.job j d hd
  rw [hindex, ← hmanager, ← hpre] at hnew
  have hserved : getInitialValueSet d.io.jobPrefix d.io.nVars ∈
      (server.avMgrRegistry d.manager).manager.valueSets := by
    refine (h.sets d.manager _).mpr ⟨j, d, hd, rfl, ?_⟩
    simp [jobSets]
  have hregistry := hchange.avMgrRegistry_self
  dsimp only at hregistry
  rw [hindex, ← hmanager] at hregistry
  rw [hregistry]
  apply new_recorded_refused _ hnew
  rw [Ne, EPICSAnyValueManager.findServer_eq_none_iff]
  intro hunknown
  exact hunknown _ hserved (getJobStatePVName_mem d.io.jobPrefix d.io.nVars)

/-- The instructions of a job are registered completely. -/
theorem initNumberOfInstructions (h : AllRegistered server)
    (hjobs : server.jobs.length ≤ 2 ^ 32) {job : Nat} {nInstr : UInt32}
    (hinit : server.initNumberOfInstructions job nInstr = some server') :
    AllRegistered server' := by
  obtain ⟨c, io, r, hdata, hr, -, hchange⟩ :=
    AutomationServer.initNumberOfInstructions_changes h.aligned hinit
  have hjob := h.job job _ hdata
  have hlt : job < server.jobs.length := (h.aligned.jobData_isSome job).mp (by simp [hdata])
  have hfresh : ∀ kind ∈ instructionKinds nInstr,
      (server.avMgrRegistry c).manager.findServer (channelName io.jobPrefix kind) = none := by
    intro kind hkind
    rw [Option.eq_none_iff_forall_ne_some]
    intro i hi
    rw [hjob.2] at hi
    obtain ⟨d, -, hd, -, -, -, hchannel⟩ := h.owner hjobs (by omega) hi
    rw [hdata] at hd
    cases hd
    obtain ⟨index, -, rfl⟩ := List.mem_map.mp hkind
    simp [mem_jobKinds] at hchannel
  obtain ⟨r', hr', hresults, hsets, hinputs⟩ := initNumberOfInstructions_recorded hfresh
  rw [hr] at hr'
  cases hr'
  refine h.of_changes hchange hjob ?_ ?_ ?_ ?_
  · intro d₀ hd₀
    rw [hdata] at hd₀
    cases hd₀
    refine ⟨rfl, rfl, ?_⟩
    intro nameValueSet hmem
    rw [jobSets_some]
    exact List.mem_append_left _ hmem
  · intro added hadded
    rw [hresults] at hadded
    simpa using hadded
  · intro nameValueSet
    rw [hsets, List.mem_append, List.mem_singleton]
    rw [jobSets_some, List.mem_append, List.mem_singleton]
    constructor
    · rintro (hmem | hmem)
      · exact .inl hmem
      · exact .inr (.inr hmem)
    · rintro (hmem | hmem | hmem)
      · exact .inl hmem
      · exact .inl ((h.sets c nameValueSet).mpr ⟨job, _, hdata, rfl, hmem⟩)
      · exact .inr hmem
  · intro name hname
    exact .inl (by rwa [← hinputs])

/-- A report keeps everything registered. -/
theorem report {IS : Type} [InstructionStateCodec V IS] (h : AllRegistered server) {job : Nat}
    {u : JobUpdate V IS} (hreport : server.report job u = some server') :
    AllRegistered server' := by
  obtain ⟨c, io, nInstr, io', r, hdata, hperform, -, hchange⟩ :=
    AutomationServer.report_changes h.aligned hreport
  have hjob := h.job job _ hdata
  obtain ⟨hpre, hvars, hresults, hsets, hinputs⟩ := perform_recorded hperform
  have hjobSets : (jobSets io' nInstr : List (NameAnyValueSet V)) = jobSets io nInstr := by
    rw [jobSets, jobSets, hpre, hvars]
  refine h.of_changes hchange ⟨hjob.1, hpre.trans hjob.2⟩ ?_ ?_ ?_ ?_
  · intro d₀ hd₀
    rw [hdata] at hd₀
    cases hd₀
    refine ⟨rfl, hpre.symm, ?_⟩
    intro nameValueSet hmem
    rwa [hjobSets]
  · intro added hadded
    rw [hresults] at hadded
    exact .inl hadded
  · intro nameValueSet
    rw [hsets, hjobSets]
    constructor
    · exact .inl
    · rintro (hmem | hmem)
      · exact hmem
      · exact (h.sets c nameValueSet).mpr ⟨job, _, hdata, rfl, hmem⟩
  · intro name hname
    exact .inl (by rwa [← hinputs])

end AllRegistered

end OacTreeServer.Server
