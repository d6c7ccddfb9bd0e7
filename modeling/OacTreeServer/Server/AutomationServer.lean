import OacTreeServer.Epics.AnyValueManager
import OacTreeServer.Job.JobInfoIo

/-!
# The automation server

`AutomationServer` (`base/automation_server.cpp:38`) gives each job that is added a
`ServerJobInfoIO` over one of the managers of a registry, chosen by the index of the job.
A job announces its number of instructions once and then reports about itself at any
time; all of this may happen in any order between jobs.
-/

namespace OacTreeServer.Server
open OacTreeServer.Epics OacTreeServer.External OacTreeServer.Job OacTreeServer.Library
  OacTreeServer.Protocol

/-- The managers of an `EPICSAnyValueManagerRegistry`, at least one;
`epics_anyvalue_manager_registry.cpp:32`. -/
abbrev AnyValueManagerRegistry (n : Nat) (M : Type) := Fin (n + 1) → M

/-- The position of the manager that `GetAnyValueManager` returns;
`epics_anyvalue_manager_registry.cpp:44`. -/
def managerIndex (n : Nat) (idx : UInt32) : Fin (n + 1) := Fin.ofNat (n + 1) idx.toNat

/-- What the server sees of a `LocalJob`: the position of its `ServerJobInfoIO`, and the
number of instructions once it has announced them. -/
structure LocalJob where
  jobInfoIo : Nat
  nInstr : Option UInt32
  deriving DecidableEq, Repr

/-- `AutomationServer`, with the manager that each `ServerJobInfoIO` refers to;
`automation_server.h:48`. -/
structure AutomationServer (n : Nat) (M : Type) where
  serverPrefix : String
  avMgrRegistry : AnyValueManagerRegistry n M
  jobInfoIos : List (Fin (n + 1) × ServerJobInfoIo)
  jobs : List LocalJob

/-- `GetNumberOfVariables`; `automation_server.cpp:141`. -/
def getNumberOfVariables {P : Type} [Procedure P] (proc : P) : UInt32 :=
  UInt32.ofNat (Procedure.variableNames proc).length

/-- A manager that keeps the results of the calls that add values and input handlers. -/
structure Recorded (M : Type) where
  manager : M
  results : List Bool

instance {M V : Type} [IAnyValueManager M V] : IAnyValueManager (Recorded M) V where
  addAnyValues r nameValueSet := do
    let (added, manager) ← IAnyValueManager.addAnyValues r.manager nameValueSet
    return (added, ⟨manager, r.results ++ [added]⟩)
  addInputHandler r inputServerName := do
    let (added, manager) ← IAnyValueManager.addInputHandler r.manager inputServerName
    return (added, ⟨manager, r.results ++ [added]⟩)
  updateAnyValue r name value := do
    let (updated, manager) ← IAnyValueManager.updateAnyValue r.manager name value
    return (updated, ⟨manager, r.results⟩)

section Recorded

variable {M V : Type} [IAnyValueManager M V] {r : Recorded M} {m : M}

/-- The result of adding values is kept. -/
theorem Recorded.addAnyValues_ok {nameValueSet : NameAnyValueSet V} {added : Bool}
    (h : IAnyValueManager.addAnyValues r.manager nameValueSet = .ok (added, m)) :
    IAnyValueManager.addAnyValues r nameValueSet = .ok (added, ⟨m, r.results ++ [added]⟩) := by
  change (IAnyValueManager.addAnyValues r.manager nameValueSet >>= _) = _
  rw [h]
  rfl

/-- The result of adding an input handler is kept. -/
theorem Recorded.addInputHandler_ok {inputServerName : String} {added : Bool}
    (h : IAnyValueManager.addInputHandler r.manager inputServerName = .ok (added, m)) :
    IAnyValueManager.addInputHandler r inputServerName =
      .ok (added, ⟨m, r.results ++ [added]⟩) := by
  change (IAnyValueManager.addInputHandler r.manager inputServerName >>= _) = _
  rw [h]
  rfl

/-- The result of an update is not kept. -/
theorem Recorded.updateAnyValue_eq (r : Recorded M) (name : String) (value : V) :
    IAnyValueManager.updateAnyValue r name value =
      (IAnyValueManager.updateAnyValue r.manager name value).map
        fun u ↦ (u.1, (⟨u.2, r.results⟩ : Recorded M)) := by
  change (IAnyValueManager.updateAnyValue r.manager name value >>= _) = _
  cases IAnyValueManager.updateAnyValue r.manager name value <;> rfl

end Recorded

/-- What may happen to a server: a job is added, a job announces its number of instructions,
or a job reports about itself. -/
inductive AutomationAction (P V IS : Type) where
  | addJob (proc : P)
  | initNumberOfInstructions (job : Nat) (nInstr : UInt32)
  | report (job : Nat) (u : JobUpdate V IS)

/-- The procedures that are added, in order. -/
def addedJobs {P V IS : Type} (acts : List (AutomationAction P V IS)) : List P :=
  acts.filterMap fun
    | .addJob proc => some proc
    | _ => none

/-- The first 2^32 jobs have different indices. -/
theorem jobIdx_inj {i j : Nat} (hi : i < 2 ^ 32) (hj : j < 2 ^ 32) :
    UInt32.ofNat i = UInt32.ofNat j ↔ i = j := by
  constructor
  · intro h
    have htoNat := congrArg UInt32.toNat h
    rwa [UInt32.toNat_ofNat_of_lt' hi, UInt32.toNat_ofNat_of_lt' hj] at htoNat
  · exact congrArg UInt32.ofNat

namespace AutomationServer

variable {n : Nat} {P V IS M : Type} [AnyValue V] [OacTree V] [InstructionStateCodec V IS]
  [IAnyValueManager M V] [Procedure P]

/-- Construction; `automation_server.cpp:38`. -/
def new (serverPrefix : String) (avMgrRegistry : AnyValueManagerRegistry n M) :
    AutomationServer n M :=
  ⟨serverPrefix, avMgrRegistry, [], []⟩

/-- `AddJob`, with the exception that it ends with, if any; `automation_server.cpp:49`. -/
def addJob (server : AutomationServer n M) (proc : P) :
    Option Exception × AutomationServer n M :=
  let idx := UInt32.ofNat server.jobs.length
  let jobPrefix := createJobPrefix server.serverPrefix idx
  let nVars := getNumberOfVariables proc
  let i := managerIndex n idx
  match ServerJobInfoIo.new jobPrefix nVars (server.avMgrRegistry i) with
  | .error e => (some e, server)
  | .ok (io, manager) =>
    let server := { server with
      avMgrRegistry := Function.update server.avMgrRegistry i manager
      jobInfoIos := server.jobInfoIos ++ [(i, io)] }
    match Procedure.localJob proc with
    | .error e => (some e, server)
    | .ok _ =>
      (none, { server with jobs := server.jobs ++ [⟨server.jobInfoIos.length - 1, none⟩] })

/-- What a job refers to: its manager, its `ServerJobInfoIO` and the number of instructions
that it has announced. -/
structure JobData (n : Nat) where
  manager : Fin (n + 1)
  io : ServerJobInfoIo
  nInstr : Option UInt32

/-- What the job with a given index refers to. -/
def jobData (server : AutomationServer n M) (job : Nat) : Option (JobData n) := do
  let localJob ← server.jobs[job]?
  let (i, io) ← server.jobInfoIos[localJob.jobInfoIo]?
  return ⟨i, io, localJob.nInstr⟩

/-- A job calls `InitNumberOfInstructions`, which it does once. -/
def initNumberOfInstructions (server : AutomationServer n M) (job : Nat) (nInstr : UInt32) :
    Option (AutomationServer n M) :=
  match server.jobData job with
  | some ⟨i, io, none⟩ =>
    match io.initNumberOfInstructions (server.avMgrRegistry i) nInstr with
    | .error _ => none
    | .ok manager => some { server with
        avMgrRegistry := Function.update server.avMgrRegistry i manager
        jobs := server.jobs.modify job fun localJob ↦ { localJob with nInstr := some nInstr } }
  | _ => none

/-- A job reports a change. -/
def report (server : AutomationServer n M) (job : Nat) (u : JobUpdate V IS) :
    Option (AutomationServer n M) :=
  match server.jobs[job]?, server.jobData job with
  | some localJob, some ⟨i, io, _⟩ =>
    match io.perform (server.avMgrRegistry i) u with
    | .error _ => none
    | .ok (io, manager) => some { server with
        avMgrRegistry := Function.update server.avMgrRegistry i manager
        jobInfoIos := server.jobInfoIos.set localJob.jobInfoIo (i, io) }
  | _, _ => none

/-- The server as a machine. Calls that throw are not enabled. -/
def machine : Machine (AutomationServer n M) (AutomationAction P V IS) where
  step server
    | .addJob proc =>
      match server.addJob proc with
      | (none, server) => some server
      | (some _, _) => none
    | .initNumberOfInstructions job nInstr => server.initNumberOfInstructions job nInstr
    | .report job u => server.report job u

/-- Each job refers to the `ServerJobInfoIO` at its own position. -/
structure Aligned (server : AutomationServer n M) : Prop where
  length : server.jobInfoIos.length = server.jobs.length
  position : ∀ (j : Nat) (localJob : LocalJob),
    server.jobs[j]? = some localJob → localJob.jobInfoIo = j

/-- One job is added or changed, together with its manager. -/
structure Changes (server server' : AutomationServer n M) (job : Nat) (d : JobData n)
    (manager : M) : Prop where
  serverPrefix : server'.serverPrefix = server.serverPrefix
  avMgrRegistry : server'.avMgrRegistry = Function.update server.avMgrRegistry d.manager manager
  jobData : ∀ j, server'.jobData j = if j = job then some d else server.jobData j
  aligned : server'.Aligned

end AutomationServer

namespace AutomationServer

variable {n : Nat} {P V IS M : Type} {server server' : AutomationServer n M}

/-- A server has no jobs at first. -/
theorem aligned_new (serverPrefix : String) (avMgrRegistry : AnyValueManagerRegistry n M) :
    (new serverPrefix avMgrRegistry).Aligned := by
  constructor
  · rfl
  · intro j localJob h
    cases h

/-- What a job of an aligned server refers to stands at its own position. -/
theorem Aligned.jobData_eq (h : server.Aligned) (j : Nat) :
    server.jobData j = (server.jobs[j]?).bind fun localJob ↦
      (server.jobInfoIos[j]?).map fun r ↦ ⟨r.1, r.2, localJob.nInstr⟩ := by
  unfold jobData
  cases hj : server.jobs[j]? with
  | none => rfl
  | some localJob =>
    change (server.jobInfoIos[localJob.jobInfoIo]? >>= _) = _
    rw [h.position j localJob hj]
    cases server.jobInfoIos[j]? <;> rfl

/-- Every job below the number of jobs refers to something, and no other. -/
theorem Aligned.jobData_isSome (h : server.Aligned) (j : Nat) :
    (server.jobData j).isSome ↔ j < server.jobs.length := by
  rw [h.jobData_eq]
  by_cases hj : j < server.jobs.length
  · have hj' : j < server.jobInfoIos.length := by
      rw [h.length]
      exact hj
    simp [hj, hj']
  · simp [hj]

/-- A new job refers to the `ServerJobInfoIO` that was created last. -/
private theorem Aligned.concat (h : server.Aligned) (avMgrRegistry : AnyValueManagerRegistry n M)
    (r : Fin (n + 1) × ServerJobInfoIo) :
    Aligned { server with
      avMgrRegistry
      jobInfoIos := server.jobInfoIos ++ [r]
      jobs := server.jobs ++ [⟨(server.jobInfoIos ++ [r]).length - 1, none⟩] } := by
  constructor
  · simp [h.length]
  · intro j localJob hj
    rw [List.getElem?_append] at hj
    split at hj
    · exact h.position j localJob hj
    · next hge =>
      obtain ⟨hzero, heq⟩ := List.getElem?_eq_some_iff.mp hj
      simp only [List.length_singleton, Nat.lt_one_iff] at hzero
      simp only [hzero, List.getElem_cons_zero] at heq
      rw [← heq]
      have := h.length
      simp
      omega

section Changes

variable {job : Nat} {d : JobData n} {manager : M}

/-- The job that changes refers to the new data. -/
theorem Changes.jobData_self (h : server.Changes server' job d manager) :
    server'.jobData job = some d := by
  rw [h.jobData, if_pos rfl]

/-- The other jobs do not change. -/
theorem Changes.jobData_of_ne (h : server.Changes server' job d manager) {j : Nat}
    (hj : j ≠ job) : server'.jobData j = server.jobData j := by
  rw [h.jobData, if_neg hj]

/-- The manager of the job that changes. -/
theorem Changes.avMgrRegistry_self (h : server.Changes server' job d manager) :
    server'.avMgrRegistry d.manager = manager := by
  rw [h.avMgrRegistry, Function.update_self]

/-- The other managers do not change. -/
theorem Changes.avMgrRegistry_of_ne (h : server.Changes server' job d manager)
    {c : Fin (n + 1)} (hc : c ≠ d.manager) :
    server'.avMgrRegistry c = server.avMgrRegistry c := by
  rw [h.avMgrRegistry, Function.update_of_ne hc]

/-- A property that the change keeps still holds of some job. -/
theorem Changes.exists_jobData (h : server.Changes server' job d manager)
    {Q : JobData n → Prop} (hkeep : ∀ d₀, server.jobData job = some d₀ → Q d₀ → Q d)
    (hold : ∃ j d', server.jobData j = some d' ∧ Q d') :
    ∃ j d', server'.jobData j = some d' ∧ Q d' := by
  obtain ⟨j, d', hd', hq⟩ := hold
  by_cases hj : j = job
  · subst hj
    exact ⟨j, d, h.jobData_self, hkeep d' hd' hq⟩
  · exact ⟨j, d', by rwa [h.jobData_of_ne hj], hq⟩

end Changes

variable [AnyValue V] [OacTree V] [InstructionStateCodec V IS] [IAnyValueManager M V]
  [Procedure P]

/-- A call of `AddJob` that returns adds a job behind the others. -/
theorem addJob_changes (h : server.Aligned) {proc : P}
    (hadd : server.addJob proc = (none, server')) :
    ∃ io manager, ServerJobInfoIo.new
        (createJobPrefix server.serverPrefix (UInt32.ofNat server.jobs.length))
        (getNumberOfVariables proc)
        (server.avMgrRegistry (managerIndex n (UInt32.ofNat server.jobs.length))) =
          .ok (io, manager) ∧
      server'.jobs.length = server.jobs.length + 1 ∧
      server.Changes server' server.jobs.length
        ⟨managerIndex n (UInt32.ofNat server.jobs.length), io, none⟩ manager := by
  unfold addJob at hadd
  dsimp only at hadd
  split at hadd
  · cases hadd
  · next io manager hnew =>
    split at hadd
    · cases hadd
    · cases hadd
      have haligned := h.concat (Function.update server.avMgrRegistry
        (managerIndex n (UInt32.ofNat server.jobs.length)) manager)
        (managerIndex n (UInt32.ofNat server.jobs.length), io)
      refine ⟨io, manager, hnew, by simp, rfl, rfl, ?_, haligned⟩
      intro j
      rw [haligned.jobData_eq, h.jobData_eq]
      rcases Nat.lt_trichotomy j server.jobs.length with hj | rfl | hj
      · have hj' : j < server.jobInfoIos.length := by
          rw [h.length]
          exact hj
        rw [if_neg (by omega), List.getElem?_append_left hj, List.getElem?_append_left hj']
      · simp [h.length.symm]
      · have hnone : server.jobs[j]? = none := List.getElem?_eq_none (by omega)
        have hlast : ∀ localJob : LocalJob, (server.jobs ++ [localJob])[j]? = none := by
          intro localJob
          exact List.getElem?_eq_none (by simp; omega)
        rw [if_neg (by omega), hnone, hlast]
        rfl

omit [AnyValue V] in
/-- A job that announces its number of instructions. -/
theorem initNumberOfInstructions_changes (h : server.Aligned) {job : Nat} {nInstr : UInt32}
    (hinit : server.initNumberOfInstructions job nInstr = some server') :
    ∃ i io manager, server.jobData job = some ⟨i, io, none⟩ ∧
      io.initNumberOfInstructions (server.avMgrRegistry i) nInstr = .ok manager ∧
      server'.jobs.length = server.jobs.length ∧
      server.Changes server' job ⟨i, io, some nInstr⟩ manager := by
  unfold initNumberOfInstructions at hinit
  split at hinit
  · next i io hdata =>
    split at hinit
    · cases hinit
    · next manager hmanager =>
      cases hinit
      have haligned : Aligned { server with
          avMgrRegistry := Function.update server.avMgrRegistry i manager
          jobs := server.jobs.modify job fun localJob ↦
            { localJob with nInstr := some nInstr } } := by
        constructor
        · simpa using h.length
        · intro j localJob hj
          rw [List.getElem?_modify, Option.map_eq_map, Option.map_eq_some_iff] at hj
          obtain ⟨old, hold, rfl⟩ := hj
          split
          · exact h.position j old hold
          · exact h.position j old hold
      refine ⟨i, io, manager, hdata, hmanager, by simp, rfl, rfl, ?_, haligned⟩
      intro j
      rw [h.jobData_eq] at hdata
      rw [haligned.jobData_eq, h.jobData_eq]
      by_cases hj : j = job
      · subst hj
        rw [if_pos rfl, List.getElem?_modify]
        cases hold : server.jobs[j]? with
        | none => simp [hold] at hdata
        | some old =>
          cases hio : server.jobInfoIos[j]? with
          | none => simp [hold, hio] at hdata
          | some r =>
            simp only [hold, hio, Option.bind_some, Option.map_some, Option.some.injEq,
              JobData.mk.injEq] at hdata
            simp [hdata.1, hdata.2.1]
      · rw [if_neg hj, List.getElem?_modify]
        simp [Ne.symm hj]
  · cases hinit

/-- A job that reports a change. -/
theorem report_changes (h : server.Aligned) {job : Nat} {u : JobUpdate V IS}
    (hreport : server.report job u = some server') :
    ∃ i io nInstr io' manager, server.jobData job = some ⟨i, io, nInstr⟩ ∧
      io.perform (server.avMgrRegistry i) u = .ok (io', manager) ∧
      server'.jobs.length = server.jobs.length ∧
      server.Changes server' job ⟨i, io', nInstr⟩ manager := by
  unfold report at hreport
  split at hreport
  · next localJob i io nInstr hjob hdata =>
    split at hreport
    · cases hreport
    · next io' manager hperform =>
      cases hreport
      have hposition : localJob.jobInfoIo = job := h.position job localJob hjob
      have haligned : Aligned { server with
          avMgrRegistry := Function.update server.avMgrRegistry i manager
          jobInfoIos := server.jobInfoIos.set localJob.jobInfoIo (i, io') } := by
        constructor
        · simpa using h.length
        · exact h.position
      refine ⟨i, io, nInstr, io', manager, hdata, hperform, rfl, rfl, rfl, ?_, haligned⟩
      intro j
      rw [h.jobData_eq, hjob] at hdata
      rw [haligned.jobData_eq, h.jobData_eq, hposition, List.getElem?_set]
      by_cases hj : j = job
      · subst hj
        cases hio : server.jobInfoIos[j]? with
        | none => simp [hio] at hdata
        | some r =>
          have hlt : j < server.jobInfoIos.length := (List.getElem?_eq_some_iff.mp hio).1
          simp only [hio, Option.bind_some, Option.map_some, Option.some.injEq,
            JobData.mk.injEq] at hdata
          simp [hjob, hlt, hdata.2.2]
      · rw [if_neg hj, if_neg (Ne.symm hj)]
  · cases hreport

/-- A call of `AddJob` that returns is a step of the machine. -/
theorem machine_step_addJob {proc : P} (hadd : server.addJob proc = (none, server')) :
    machine.step server (.addJob proc : AutomationAction P V IS) = some server' := by
  simp only [machine, hadd]

/-- What the steps of the machine do. -/
theorem machine_step_cases {a : AutomationAction P V IS}
    (hstep : machine.step server a = some server') :
    (∃ proc, a = .addJob proc ∧ server.addJob proc = (none, server')) ∨
    (∃ job nInstr, a = .initNumberOfInstructions job nInstr ∧
      server.initNumberOfInstructions job nInstr = some server') ∨
    ∃ job u, a = .report job u ∧ server.report job u = some server' := by
  cases a with
  | addJob proc =>
    refine .inl ⟨proc, rfl, ?_⟩
    simp only [machine] at hstep
    split at hstep
    · next added hadd =>
      cases hstep
      exact hadd
    · cases hstep
  | initNumberOfInstructions job nInstr => exact .inr (.inl ⟨job, nInstr, rfl, hstep⟩)
  | report job u => exact .inr (.inr ⟨job, u, rfl, hstep⟩)

end AutomationServer
end OacTreeServer.Server
