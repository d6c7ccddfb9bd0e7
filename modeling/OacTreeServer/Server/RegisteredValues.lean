import OacTreeServer.External.Reference
import OacTreeServer.Server.Registration

/-!
# The values of all jobs are served

Over whole runs: no registration of a job fails, and every value of every job is served
by exactly one `EPICSServer`. The index of a job is a 32-bit number, so this is limited
to 2^32 jobs; the next one gets the names of the first.
-/

namespace OacTreeServer.Server
open OacTreeServer.Epics OacTreeServer.External OacTreeServer.Job OacTreeServer.Library
  OacTreeServer.Protocol

variable {V : Type} [AnyValue V] [OacTree V] [Base64VariableCodec V]
  {n : Nat} {server server' : AutomationServer n (Recorded (EPICSAnyValueManager V))}

/-- The `EPICSServer` at a position of a manager was created for a set of values. -/
def ServedBy (server : AutomationServer n (Recorded (EPICSAnyValueManager V)))
    (c : Fin (n + 1)) (i : Nat) (nameValueSet : NameAnyValueSet V) : Prop :=
  (server.avMgrRegistry c).manager.valueSets[i]? = some nameValueSet

variable {P IS : Type} [Procedure P] [InstructionStateCodec V IS]

/-- What holds after a schedule: everything is registered, and the jobs are those that were
added, with the numbers of instructions that they have announced. -/
structure RegistrationInv (serverPrefix : String) (acts : List (AutomationAction P V IS))
    (server : AutomationServer n (Recorded (EPICSAnyValueManager V))) : Prop where
  registered : AllRegistered server
  serverPrefix_eq : server.serverPrefix = serverPrefix
  length_jobs : server.jobs.length = (addedJobs acts).length
  added : ∀ j proc, (addedJobs acts)[j]? = some proc →
    ∃ d, server.jobData j = some d ∧ d.io.nVars = getNumberOfVariables proc
  announced : ∀ j nInstr, .initNumberOfInstructions j nInstr ∈ acts →
    ∃ d, server.jobData j = some d ∧ d.nInstr = some nInstr

namespace RegistrationInv

variable {serverPrefix : String} {acts : List (AutomationAction P V IS)}

omit [Base64VariableCodec V] [InstructionStateCodec V IS] in
/-- A new server has no jobs. -/
theorem new (serverPrefix : String) :
    RegistrationInv serverPrefix ([] : List (AutomationAction P V IS))
      (AutomationServer.new serverPrefix
        fun _ : Fin (n + 1) ↦ (⟨.new, []⟩ : Recorded (EPICSAnyValueManager V))) := by
  constructor
  · exact AllRegistered.new serverPrefix
  · rfl
  · rfl
  · intro j proc h
    cases h
  · intro j nInstr h
    cases h

omit [InstructionStateCodec V IS] in
/-- Another job is added. -/
private theorem addJob (h : RegistrationInv serverPrefix acts server) {proc : P}
    (hjobs : server.jobs.length < 2 ^ 32) (hadd : server.addJob proc = (none, server')) :
    RegistrationInv serverPrefix (acts ++ [.addJob proc]) server' := by
  obtain ⟨io, r, hnew, hlength, hchange⟩ :=
    AutomationServer.addJob_changes h.registered.aligned hadd
  have hadded : addedJobs (acts ++ [.addJob proc]) = addedJobs acts ++ [proc] := by
    simp [addedJobs]
  -- the jobs that there were are still there
  have hold {j : Nat} {d : AutomationServer.JobData n} (hd : server.jobData j = some d) :
      server'.jobData j = some d := by
    have hj := (h.registered.aligned.jobData_isSome j).mp (by simp [hd])
    rw [hchange.jobData_of_ne (by omega), hd]
  constructor
  · exact h.registered.addJob hjobs hadd
  · rw [hchange.serverPrefix, h.serverPrefix_eq]
  · rw [hlength, hadded, h.length_jobs, List.length_append, List.length_singleton]
  · intro j proc' hproc
    rw [hadded, List.getElem?_append] at hproc
    split at hproc
    · obtain ⟨d, hd, hvars⟩ := h.added j proc' hproc
      exact ⟨d, hold hd, hvars⟩
    · next hge =>
      have hj : j = server.jobs.length := by
        have hlt := (List.getElem?_eq_some_iff.mp hproc).1
        have := h.length_jobs
        simp only [List.length_singleton] at hlt
        omega
      subst hj
      rw [h.length_jobs, Nat.sub_self] at hproc
      cases hproc
      refine ⟨_, hchange.jobData_self, ?_⟩
      rw [ServerJobInfoIo.new_eq hnew]
  · intro j nInstr hmem
    have hmem' : .initNumberOfInstructions j nInstr ∈ acts := by simpa using hmem
    obtain ⟨d, hd, hcount⟩ := h.announced j nInstr hmem'
    exact ⟨d, hold hd, hcount⟩

omit [InstructionStateCodec V IS] in
/-- A job announces its number of instructions. -/
private theorem initNumberOfInstructions (h : RegistrationInv serverPrefix acts server)
    (hjobs : server.jobs.length ≤ 2 ^ 32) {job : Nat} {nInstr : UInt32}
    (hinit : server.initNumberOfInstructions job nInstr = some server') :
    RegistrationInv serverPrefix (acts ++ [.initNumberOfInstructions job nInstr]) server' := by
  obtain ⟨c, io, r, hdata, -, hlength, hchange⟩ :=
    AutomationServer.initNumberOfInstructions_changes h.registered.aligned hinit
  have hadded : addedJobs (acts ++ [.initNumberOfInstructions job nInstr]) = addedJobs acts := by
    simp [addedJobs]
  constructor
  · exact h.registered.initNumberOfInstructions hjobs hinit
  · rw [hchange.serverPrefix, h.serverPrefix_eq]
  · rw [hlength, hadded, h.length_jobs]
  · intro j proc hproc
    rw [hadded] at hproc
    obtain ⟨d, hd, hvars⟩ := h.added j proc hproc
    by_cases hj : j = job
    · subst hj
      rw [hdata] at hd
      cases hd
      exact ⟨_, hchange.jobData_self, hvars⟩
    · exact ⟨d, by rw [hchange.jobData_of_ne hj, hd], hvars⟩
  · intro j count hmem
    by_cases hj : j = job
    · subst hj
      rcases List.mem_append.mp hmem with hold | hnew
      · -- a job announces only once
        obtain ⟨d, hd, hcount⟩ := h.announced j count hold
        rw [hdata] at hd
        cases hd
        cases hcount
      · cases List.mem_singleton.mp hnew
        exact ⟨_, hchange.jobData_self, rfl⟩
    · have hold : .initNumberOfInstructions j count ∈ acts := by
        simpa [hj] using hmem
      obtain ⟨d, hd, hcount⟩ := h.announced j count hold
      exact ⟨d, by rw [hchange.jobData_of_ne hj, hd], hcount⟩

/-- A job reports a change. -/
private theorem report (h : RegistrationInv serverPrefix acts server) {job : Nat}
    {u : JobUpdate V IS} (hreport : server.report job u = some server') :
    RegistrationInv serverPrefix (acts ++ [.report job u]) server' := by
  obtain ⟨c, io, nInstr, io', r, hdata, hperform, hlength, hchange⟩ :=
    AutomationServer.report_changes h.registered.aligned hreport
  have hadded : addedJobs (acts ++ [.report job u]) = addedJobs acts := by
    simp [addedJobs]
  constructor
  · exact h.registered.report hreport
  · rw [hchange.serverPrefix, h.serverPrefix_eq]
  · rw [hlength, hadded, h.length_jobs]
  · intro j proc hproc
    rw [hadded] at hproc
    obtain ⟨d, hd, hvars⟩ := h.added j proc hproc
    by_cases hj : j = job
    · subst hj
      rw [hdata] at hd
      cases hd
      exact ⟨_, hchange.jobData_self, (perform_recorded hperform).2.1.trans hvars⟩
    · exact ⟨d, by rw [hchange.jobData_of_ne hj, hd], hvars⟩
  · intro j count hmem
    have hold : .initNumberOfInstructions j count ∈ acts := by simpa using hmem
    obtain ⟨d, hd, hcount⟩ := h.announced j count hold
    by_cases hj : j = job
    · subst hj
      rw [hdata] at hd
      cases hd
      exact ⟨_, hchange.jobData_self, hcount⟩
    · exact ⟨d, by rw [hchange.jobData_of_ne hj, hd], hcount⟩

/-- Every step keeps the invariant, as long as the index of every job fits into 32 bits. -/
theorem step (h : (addedJobs acts).length ≤ 2 ^ 32 → RegistrationInv serverPrefix acts server)
    {a : AutomationAction P V IS} (hstep : AutomationServer.machine.step server a = some server')
    (hjobs : (addedJobs (acts ++ [a])).length ≤ 2 ^ 32) :
    RegistrationInv serverPrefix (acts ++ [a]) server' := by
  have hsplit : addedJobs (acts ++ [a]) = addedJobs acts ++ addedJobs [a] :=
    List.filterMap_append
  rw [hsplit, List.length_append] at hjobs
  have hinv := h (by omega)
  have hlength := hinv.length_jobs
  rcases AutomationServer.machine_step_cases hstep with
    ⟨proc, rfl, hadd⟩ | ⟨job, nInstr, rfl, hinit⟩ | ⟨job, u, rfl, hreport⟩
  · have hone : (addedJobs [(.addJob proc : AutomationAction P V IS)]).length = 1 := rfl
    exact hinv.addJob (by omega) hadd
  · exact hinv.initNumberOfInstructions (by omega) hinit
  · exact hinv.report hreport

/-- The invariant holds at the end of every run that adds at most 2^32 jobs. -/
theorem run (hjobs : (addedJobs acts).length ≤ 2 ^ 32)
    (hrun : AutomationServer.machine.run (AutomationServer.new serverPrefix
      fun _ : Fin (n + 1) ↦ (⟨.new, []⟩ : Recorded (EPICSAnyValueManager V))) acts =
        some server) :
    RegistrationInv serverPrefix acts server := by
  have hrule := @Machine.run_history_invariant _ (AutomationAction P V IS)
    AutomationServer.machine fun acts (server : AutomationServer n _) ↦
      (addedJobs acts).length ≤ 2 ^ 32 → RegistrationInv serverPrefix acts server
  apply hrule (fun h hstep ↦ step h hstep) (fun _ ↦ new serverPrefix) hrun hjobs

omit [InstructionStateCodec V IS] in
/-- A value of a job is served by one server only, and updates of it are queued there. -/
theorem served (h : RegistrationInv serverPrefix acts server)
    (hjobs : (addedJobs acts).length ≤ 2 ^ 32) {j : Nat} {d : AutomationServer.JobData n}
    (hd : server.jobData j = some d) {nameValueSet : NameAnyValueSet V}
    (hset : nameValueSet ∈ jobSets d.io d.nInstr) {kind : ChannelKind}
    (hname : publishedName serverPrefix (UInt32.ofNat j) kind ∈ nameValueSet.map Prod.fst) :
    ∃ i, ServedBy server (managerIndex n (UInt32.ofNat j)) i nameValueSet ∧
      (∀ c i' nameValueSet', ServedBy server c i' nameValueSet' →
        publishedName serverPrefix (UInt32.ofNat j) kind ∈ nameValueSet'.map Prod.fst →
        c = managerIndex n (UInt32.ofNat j) ∧ i' = i) ∧
      (server.avMgrRegistry (managerIndex n (UInt32.ofNat j))).manager.QueuesAt i
        (publishedName serverPrefix (UInt32.ofNat j) kind) := by
  obtain ⟨hmanager, hpre⟩ := h.registered.job j d hd
  have hj : j < server.jobs.length := (h.registered.aligned.jobData_isSome j).mp (by simp [hd])
  have hlength := h.length_jobs
  obtain ⟨i, hi⟩ := List.mem_iff_getElem?.mp
    ((h.registered.sets (managerIndex n (UInt32.ofNat j)) nameValueSet).mpr
      ⟨j, d, hd, hmanager, hset⟩)
  have hfind : (server.avMgrRegistry (managerIndex n (UInt32.ofNat j))).manager.findServer
      (publishedName serverPrefix (UInt32.ofNat j) kind) = some i :=
    EPICSAnyValueManager.findServer_eq_some_iff.mpr ⟨nameValueSet, hi, hname⟩
  refine ⟨i, hi, ?_, EPICSAnyValueManager.queuesAt_of_findServer hfind⟩
  intro c i' nameValueSet' hserved hname'
  have hfind' : (server.avMgrRegistry c).manager.findServer
      (channelName (createJobPrefix server.serverPrefix (UInt32.ofNat j)) kind) = some i' := by
    rw [h.serverPrefix_eq]
    exact EPICSAnyValueManager.findServer_eq_some_iff.mpr ⟨nameValueSet', hserved, hname'⟩
  obtain ⟨d', -, hd', hc, -⟩ := h.registered.owner (by omega) (by omega) hfind'
  rw [hd] at hd'
  cases hd'
  rw [hmanager] at hc
  subst hc
  rw [h.serverPrefix_eq] at hfind'
  have hsame := hfind.symm.trans hfind'
  cases hsame
  exact ⟨rfl, rfl⟩

end RegistrationInv

/-- With at most 2^32 jobs no registration of values or of an input handler fails, whichever
jobs share a manager. Every value of every job is then served by exactly one server, one of
those that were created for this job, and updates of it are accepted and queued there unless
the value cannot be encoded. -/
theorem job_values_registered {serverPrefix : String} {acts : List (AutomationAction P V IS)}
    (hjobs : (addedJobs acts).length ≤ 2 ^ 32)
    (hrun : AutomationServer.machine.run (AutomationServer.new serverPrefix
      fun _ : Fin (n + 1) ↦ (⟨.new, []⟩ : Recorded (EPICSAnyValueManager V))) acts =
        some server) :
    (∀ c, ∀ added ∈ (server.avMgrRegistry c).results, added = true) ∧
    ∀ j proc nameValueSet kind, (addedJobs acts)[j]? = some proc →
      (nameValueSet = getInitialValueSet (createJobPrefix serverPrefix (UInt32.ofNat j))
          (getNumberOfVariables proc) ∧ kind ∈ initialKinds (getNumberOfVariables proc) ∨
        ∃ nInstr, .initNumberOfInstructions j nInstr ∈ acts ∧
          nameValueSet = getInstructionValueSet
            (createJobPrefix serverPrefix (UInt32.ofNat j)) nInstr ∧
          kind ∈ instructionKinds nInstr) →
      ∃ i, ServedBy server (managerIndex n (UInt32.ofNat j)) i nameValueSet ∧
        (∀ c i' nameValueSet', ServedBy server c i' nameValueSet' →
          publishedName serverPrefix (UInt32.ofNat j) kind ∈ nameValueSet'.map Prod.fst →
          c = managerIndex n (UInt32.ofNat j) ∧ i' = i) ∧
        (server.avMgrRegistry (managerIndex n (UInt32.ofNat j))).manager.QueuesAt i
          (publishedName serverPrefix (UInt32.ofNat j) kind) := by
  have h := RegistrationInv.run hjobs hrun
  refine ⟨h.registered.results, ?_⟩
  intro j proc nameValueSet kind hproc hset
  rcases hset with ⟨rfl, hkind⟩ | ⟨nInstr, hmem, rfl, hkind⟩
  · obtain ⟨d, hd, hvars⟩ := h.added j proc hproc
    have hpre := (h.registered.job j d hd).2
    rw [h.serverPrefix_eq] at hpre
    apply h.served hjobs hd
    · rw [← hpre, ← hvars]
      simp [jobSets]
    · rw [getInitialValueSet_names]
      exact List.mem_map_of_mem hkind
  · obtain ⟨d, hd, hcount⟩ := h.announced j nInstr hmem
    have hpre := (h.registered.job j d hd).2
    rw [h.serverPrefix_eq] at hpre
    apply h.served hjobs hd
    · rw [← hpre, hcount]
      simp [jobSets]
    · rw [getInstructionValueSet_names]
      exact List.mem_map_of_mem hkind

/-- Two jobs at one manager; the second variable of the first job is served once, and updates of
it are queued there. -/
theorem job_values_registered_two_jobs :
    ∃ server, AutomationServer.machine.run (AutomationServer.new "S"
        fun _ : Fin (0 + 1) ↦ (⟨.new, []⟩ : Recorded (EPICSAnyValueManager DtoValue)))
        ([.addJob ["x", "y"], .addJob [], .initNumberOfInstructions 0 1] :
          List (AutomationAction (List String) DtoValue (Bool × UInt32))) = some server ∧
      (∀ added ∈ (server.avMgrRegistry 0).results, added = true) ∧
      ∃ i, ServedBy server 0 i (getInitialValueSet (createJobPrefix "S" 0) 2) ∧
        (∀ c i' nameValueSet', ServedBy server c i' nameValueSet' →
          publishedName "S" 0 (.variableState 1) ∈ nameValueSet'.map Prod.fst →
          c = 0 ∧ i' = i) ∧
        (server.avMgrRegistry 0).manager.QueuesAt i (publishedName "S" 0 (.variableState 1)) := by
  obtain ⟨server, hrun⟩ := Option.isSome_iff_exists.mp
    (show (AutomationServer.machine.run (AutomationServer.new "S"
        fun _ : Fin (0 + 1) ↦ (⟨.new, []⟩ : Recorded (EPICSAnyValueManager DtoValue)))
        ([.addJob ["x", "y"], .addJob [], .initNumberOfInstructions 0 1] :
          List (AutomationAction (List String) DtoValue (Bool × UInt32)))).isSome = true by
      decide +kernel)
  obtain ⟨hresults, hserved⟩ := job_values_registered (by decide) hrun
  obtain ⟨i, hset, honly, hqueues⟩ := hserved 0 ["x", "y"] _ (.variableState 1) rfl
    (.inl ⟨rfl, by decide⟩)
  exact ⟨server, hrun, hresults 0, i, hset, honly, hqueues⟩

section IndexWraps

variable {proc : P}

/-- Jobs can be added for ever. -/
private theorem run_addJob_replicate (hproc : Procedure.localJob proc = .ok ()) (k : Nat)
    (server : AutomationServer n (Recorded (EPICSAnyValueManager V))) :
    ∃ server', AutomationServer.machine.run server
      (List.replicate k (.addJob proc : AutomationAction P V IS)) = some server' := by
  induction k generalizing server with
  | zero => exact ⟨server, rfl⟩
  | succ k ih =>
    obtain ⟨next, hadd⟩ := addJob_returns server hproc
    obtain ⟨server', hrun⟩ := ih next
    refine ⟨server', ?_⟩
    rw [List.replicate_succ, Machine.run_cons_eq_some]
    exact ⟨next, AutomationServer.machine_step_addJob hadd, hrun⟩

/-- The job after the first 2^32 has the index of the first job, and is not registered. -/
private theorem run_addJob_wraps (IS : Type) [InstructionStateCodec V IS] (serverPrefix : String)
    (hproc : Procedure.localJob proc = .ok ()) {k : Nat} (hk : k = 2 ^ 32) :
    ∃ server, AutomationServer.machine.run (AutomationServer.new serverPrefix
        fun _ : Fin (n + 1) ↦ (⟨.new, []⟩ : Recorded (EPICSAnyValueManager V)))
        (List.replicate (k + 1) (.addJob proc : AutomationAction P V IS)) = some server ∧
      false ∈ (server.avMgrRegistry (managerIndex n 0)).results := by
  obtain ⟨server, hrun⟩ : ∃ server, AutomationServer.machine.run (AutomationServer.new serverPrefix
      fun _ : Fin (n + 1) ↦ (⟨.new, []⟩ : Recorded (EPICSAnyValueManager V)))
      (List.replicate k (.addJob proc : AutomationAction P V IS)) = some server :=
    run_addJob_replicate hproc k _
  have hlength : (addedJobs (List.replicate k (.addJob proc : AutomationAction P V IS))).length =
      k := by
    simp [addedJobs]
  have hinv := RegistrationInv.run (by omega) hrun
  have hjobs := hinv.length_jobs
  obtain ⟨d, hd⟩ := Option.isSome_iff_exists.mp
    ((hinv.registered.aligned.jobData_isSome 0).mpr (by omega))
  obtain ⟨server', hadd⟩ := addJob_returns server hproc
  have hindex : UInt32.ofNat server.jobs.length = UInt32.ofNat 0 := by
    rw [hjobs, hlength, hk]
    rfl
  have hrefused := hinv.registered.addJob_refused hd hindex hadd
  rw [(hinv.registered.job 0 d hd).1] at hrefused
  refine ⟨server', ?_, hrefused⟩
  rw [List.replicate_succ']
  exact Machine.run_concat _ hrun (AutomationServer.machine_step_addJob hadd)

end IndexWraps

/-- With 2^32 + 1 jobs the registration of the last one fails. -/
theorem job_index_wraps :
    ∃ server, AutomationServer.machine.run (AutomationServer.new "S"
        fun _ : Fin (0 + 1) ↦ (⟨.new, []⟩ : Recorded (EPICSAnyValueManager DtoValue)))
        (List.replicate (2 ^ 32 + 1) (.addJob [] :
          AutomationAction (List String) DtoValue (Bool × UInt32))) = some server ∧
      false ∈ (server.avMgrRegistry 0).results :=
  run_addJob_wraps (Bool × UInt32) "S" rfl rfl

end OacTreeServer.Server
