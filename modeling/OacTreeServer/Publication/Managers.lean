import OacTreeServer.Epics.ServerQueues
import OacTreeServer.Publication.System

/-!
# The managers in a run of the system

A step of the jobs adds servers with empty queues behind those that there are, or pushes one
update to the server of one channel. A channel has one server only.
-/

namespace OacTreeServer.Publication
open OacTreeServer.Epics OacTreeServer.External OacTreeServer.Job OacTreeServer.Library
  OacTreeServer.Protocol OacTreeServer.Server

variable {V : Type}

section Growth

variable [AnyValue V] [OacTree V]

/-- An input handler is added. -/
theorem grows_addInputHandler (manager : EPICSAnyValueManager V) (inputServerName : String) :
    Grows manager (manager.addInputHandler inputServerName).2 := by
  unfold EPICSAnyValueManager.addInputHandler EPICSAnyValueManager.addInputServer
  cases manager.nameInputServerMap[inputServerName]? with
  | some server => exact .of_eq rfl
  | none => exact .addAnyValuesImpl (manager.setInputServer inputServerName .new) _

variable [Base64VariableCodec V] {r r' : Recorded (EPICSAnyValueManager V)}

/-- A `ServerJobInfoIO` is constructed. -/
theorem grows_new {pre : String} {nVars : UInt32} {io : ServerJobInfoIo}
    (h : ServerJobInfoIo.new pre nVars r = .ok (io, r')) : Grows r.manager r'.manager := by
  rw [new_recorded_eq Prod.mk.eta.symm Prod.mk.eta.symm] at h
  cases h
  exact (Grows.addAnyValuesImpl _ _).trans (grows_addInputHandler _ _)

/-- The number of instructions is announced. -/
theorem grows_initNumberOfInstructions {io : ServerJobInfoIo} {nInstr : UInt32}
    (h : io.initNumberOfInstructions r nInstr = .ok r') : Grows r.manager r'.manager := by
  have hadd : IAnyValueManager.addAnyValues r (getInstructionValueSet io.jobPrefix nInstr) =
      .ok ((r.manager.addAnyValues (getInstructionValueSet io.jobPrefix nInstr)).1,
        (⟨_, r.results ++ [_]⟩ : Recorded (EPICSAnyValueManager V))) :=
    Recorded.addAnyValues_ok rfl
  unfold ServerJobInfoIo.initNumberOfInstructions at h
  rw [initializeInstructions_ok hadd] at h
  cases h
  exact .addAnyValuesImpl _ _

end Growth

/-- The names in a set of a job are distinct. -/
theorem nodup_names_of_mem_jobSets [AnyValue V] [OacTree V] {io : ServerJobInfoIo}
    {nInstr : Option UInt32} {nameValueSet : NameAnyValueSet V}
    (h : nameValueSet ∈ jobSets io nInstr) : (nameValueSet.map Prod.fst).Nodup := by
  simp only [jobSets, List.mem_append, List.mem_cons, List.not_mem_nil, or_false,
    Option.mem_toList, Option.map_eq_some_iff] at h
  rcases h with (rfl | rfl) | ⟨count, -, rfl⟩
  · rw [getInitialValueSet_names]
    exact nodup_channelNames (nodup_initialKinds _)
  · exact List.nodup_singleton _
  · rw [getInstructionValueSet_names]
    exact nodup_channelNames (nodup_instructionKinds _)

section Jobs

variable [AnyValue V] [OacTree V] [Base64VariableCodec V] {n : Nat}
  {server server' : AutomationServer n (Recorded (EPICSAnyValueManager V))}

omit [Base64VariableCodec V] in
/-- A channel has one server only. -/
theorem serves_unique (h : AllRegistered server) (hjobs : server.jobs.length ≤ 2 ^ 32)
    {channel : String} {c c' : Fin (n + 1)} {i i' : Nat}
    (hfind : (server.avMgrRegistry c).manager.findServer channel = some i)
    (hfind' : (server.avMgrRegistry c').manager.findServer channel = some i') :
    c = c' ∧ i = i' := by
  obtain ⟨nameValueSet, hset, hname⟩ := EPICSAnyValueManager.findServer_eq_some_iff.mp hfind
  obtain ⟨j, d, hd, rfl, hmem⟩ := (h.sets c nameValueSet).mp (List.mem_of_getElem? hset)
  obtain ⟨kind, rfl, -⟩ := channel_of_mem_jobSets hmem hname
  rw [(h.job j d hd).2] at hfind hfind'
  have hj : j < server.jobs.length := (h.aligned.jobData_isSome j).mp (by simp [hd])
  obtain ⟨d', -, hd', rfl, -⟩ := h.owner hjobs (by omega) hfind'
  rw [hd] at hd'
  cases hd'
  refine ⟨rfl, ?_⟩
  rw [hfind] at hfind'
  exact Option.some.inj hfind'

omit [Base64VariableCodec V] in
/-- The names of the variables of a server are distinct. -/
theorem nodup_names (h : AllRegistered server) {c : Fin (n + 1)} {i : Nat}
    {epicsServer : EPICSServer V}
    (hserver : (server.avMgrRegistry c).manager.servers[i]? = some epicsServer) :
    epicsServer.names.Nodup := by
  have hset : epicsServer.nameValueSet ∈ (server.avMgrRegistry c).manager.valueSets :=
    List.mem_map_of_mem (List.mem_of_getElem? hserver)
  obtain ⟨j, d, -, -, hmem⟩ := (h.sets c _).mp hset
  exact nodup_names_of_mem_jobSets hmem

omit [AnyValue V] [OacTree V] [Base64VariableCodec V] in
/-- A change of one job that adds servers to its manager. -/
theorem grows_of_changes {job : Nat} {d : AutomationServer.JobData n}
    {r : Recorded (EPICSAnyValueManager V)} (hchange : server.Changes server' job d r)
    (hgrows : Grows (server.avMgrRegistry d.manager).manager r.manager) (c : Fin (n + 1)) :
    Grows (server.avMgrRegistry c).manager (server'.avMgrRegistry c).manager := by
  by_cases hc : c = d.manager
  · rw [hc, hchange.avMgrRegistry_self]
    exact hgrows
  · rw [hchange.avMgrRegistry_of_ne hc]
    exact .of_eq rfl

omit [Base64VariableCodec V] in
/-- Managers that serve the same values have them registered. -/
theorem registered_of_sameValues (h : AllRegistered server)
    {registry : AnyValueManagerRegistry n (Recorded (EPICSAnyValueManager V))}
    (hresults : ∀ c, (registry c).results = (server.avMgrRegistry c).results)
    (hsets : ∀ c, (registry c).manager.valueSets = (server.avMgrRegistry c).manager.valueSets)
    (hinput : ∀ c, (registry c).manager.findInputServer =
      (server.avMgrRegistry c).manager.findInputServer) :
    AllRegistered { server with avMgrRegistry := registry } where
  aligned := ⟨h.aligned.length, h.aligned.position⟩
  job := h.job
  results c added hadded := h.results c added (hresults c ▸ hadded)
  sets c nameValueSet := by
    rw [hsets c]
    exact h.sets c nameValueSet
  inputServers c name hname := h.inputServers c name (by rwa [hinput c] at hname)

variable {IS : Type} [InstructionStateCodec V IS] {job : Nat} {u : JobUpdate V IS}

/-- What a report does to the managers: nothing, or a push of what is published. -/
inductive ReportEffect (server server' : AutomationServer n (Recorded (EPICSAnyValueManager V)))
    (job : Nat) (u : JobUpdate V IS) : Prop where
  | unpublished : publishedBy server job u = [] →
      (∀ c, (server'.avMgrRegistry c).manager = (server.avMgrRegistry c).manager) →
      ReportEffect server server' job u
  | pushed {d : AutomationServer.JobData n} {kind : ChannelKind} {value encoded : V} {i : Nat} :
      server.jobData job = some d → d.io.publication u = some (kind, value) →
      base64EncodeAnyValue value = .ok encoded →
      (server.avMgrRegistry d.manager).manager.findServer (channelName d.io.jobPrefix kind) =
        some i →
      publishedBy server job u = [⟨job, channelName d.io.jobPrefix kind, encoded, u⟩] →
      (∀ c, (server'.avMgrRegistry c).manager = if c = d.manager then
        (server.avMgrRegistry c).manager.pushUpdate i (channelName d.io.jobPrefix kind) encoded
        else (server.avMgrRegistry c).manager) →
      ReportEffect server server' job u

omit [AnyValue V] [OacTree V] [Base64VariableCodec V] in
/-- A manager that is replaced by one with the same values. -/
private theorem manager_of_changes {d : AutomationServer.JobData n}
    {r : Recorded (EPICSAnyValueManager V)} (hchange : server.Changes server' job d r)
    (hsame : r.manager = (server.avMgrRegistry d.manager).manager) (c : Fin (n + 1)) :
    (server'.avMgrRegistry c).manager = (server.avMgrRegistry c).manager := by
  by_cases hc : c = d.manager
  · rw [hc, hchange.avMgrRegistry_self, hsame]
  · rw [hchange.avMgrRegistry_of_ne hc]

/-- Every report has one of these effects. -/
theorem reportEffect (h : server.Aligned) (hreport : server.report job u = some server') :
    ReportEffect server server' job u := by
  obtain ⟨c, io, nInstr, io', r, hdata, hperform, -, hchange⟩ :=
    AutomationServer.report_changes h hreport
  rw [ServerJobInfoIo.perform_eq] at hperform
  cases hpublication : io.publication u with
  | none =>
    rw [hpublication] at hperform
    cases hperform
    refine .unpublished ?_ (manager_of_changes hchange rfl)
    simp only [publishedBy, hdata, hpublication]
  | some publication =>
    obtain ⟨kind, value⟩ := publication
    rw [hpublication] at hperform
    simp only [Recorded.updateAnyValue_eq] at hperform
    cases hfind : (server.avMgrRegistry c).manager.findServer (channelName io.jobPrefix kind) with
    | none =>
      have hupdate : IAnyValueManager.updateAnyValue (server.avMgrRegistry c).manager
          (channelName io.jobPrefix kind) value =
            .ok (false, (server.avMgrRegistry c).manager) := by
        change EPICSAnyValueManager.updateAnyValue _ _ _ = _
        rw [EPICSAnyValueManager.updateAnyValue, hfind]
      rw [hupdate] at hperform
      cases hperform
      refine .unpublished ?_ (manager_of_changes hchange rfl)
      simp only [publishedBy, hdata, hpublication, hfind]
    | some i =>
      have hupdate : IAnyValueManager.updateAnyValue (server.avMgrRegistry c).manager
          (channelName io.jobPrefix kind) value = _ :=
        EPICSAnyValueManager.updateAnyValue_of_findServer hfind value
      cases hencode : base64EncodeAnyValue value with
      | error e =>
        rw [hupdate, hencode] at hperform
        cases hperform
      | ok encoded =>
        rw [hupdate, hencode] at hperform
        cases hperform
        refine .pushed hdata hpublication hencode hfind ?_ fun c' ↦ ?_
        · simp only [publishedBy, hdata, hpublication, hfind, hencode]
        · by_cases hc : c' = c
          · rw [if_pos hc, hc]
            exact congrArg Recorded.manager hchange.avMgrRegistry_self
          · rw [if_neg hc, hchange.avMgrRegistry_of_ne hc]

end Jobs

end OacTreeServer.Publication
