import OacTreeServer.Cpp.StdVector
import OacTreeServer.External.IJob
import OacTreeServer.Library.Atomicity
import OacTreeServer.Rpc.ProtocolServers

/-!
# Control of the jobs of a server

`AutomationServer` is also a job manager (`base/automation_server.cpp:63`): it looks up a job
under its lock and then operates it without the lock, through a reference into the vector of
its jobs. Each section under the lock and each operation of a job is one call here, so that
they can interleave with those of other threads, with `AddJob` and with what the jobs do on
their own.
-/

namespace OacTreeServer.Server
open OacTreeServer.Cpp OacTreeServer.External OacTreeServer.Library OacTreeServer.Rpc

/-- What the methods of the server do with its jobs. -/
inductive JobsCall where
  /-- `m_jobs.size()`, under the lock. -/
  | size
  /-- `GetJob`, under the lock. -/
  | getJob (jobIdx : UInt32)
  /-- `GetInfo` of a job. -/
  | getInfo (job : StdReference)
  /-- Another operation of a job. -/
  | operate (job : StdReference) (op : JobOperation)
  deriving DecidableEq, Repr

/-- What these calls return. -/
abbrev JobsAnswer (JobInfo : Type) : JobsCall → Type
  | .size => Nat
  | .getJob _ => Except Exception StdReference
  | .getInfo _ => JobInfo
  | .operate _ _ => Except Exception Unit

/-- What else may happen to the jobs. -/
inductive JobsEvent (J Activity : Type) where
  | addJob (job : J)
  | proceed (jobIdx : Nat) (activity : Activity)

section Jobs

variable {J JobInfo Activity : Type} [IJob J JobInfo Activity]

/-- The section of `GetJob` under the lock; `automation_server.cpp:131`. -/
def getJob (jobs : StdVector J) (jobIdx : UInt32) : Except Exception StdReference :=
  if jobIdx.toNat ≥ jobs.size then
    .error (.invalidOperation ("AutomationServer::GetJob(): index out of bounds; requesting" ++
      jobIdx.toNat.repr ++ " out of " ++ jobs.size.repr ++ " jobs"))
  else
    .ok (jobs.reference jobIdx.toNat)

/-- A call, which has no defined behaviour when it goes through a reference that is not valid. -/
def serveJobs : (c : JobsCall) → StdVector J → Option (JobsAnswer JobInfo c × StdVector J)
  | .size, jobs => some (jobs.size, jobs)
  | .getJob jobIdx, jobs => some (getJob jobs jobIdx, jobs)
  | .getInfo r, jobs => (jobs.deref r).map fun job ↦ (IJob.getInfo job, jobs)
  | .operate r op, jobs => (jobs.deref r).map fun job ↦
      ((op.run job).1, jobs.set r.position (op.run job).2)

/-- `AddJob` at the end of the vector, and the activity of a job; `automation_server.cpp:58`. -/
def disturbJobs (growth : Nat → Nat) : JobsEvent J Activity → StdVector J → Option (StdVector J)
  | .addJob job, jobs => some (jobs.emplaceBack growth job)
  | .proceed jobIdx activity, jobs => (jobs.elements[jobIdx]?).map fun job ↦
      jobs.set jobIdx (IJob.proceed job activity)

/-- A job may be added as long as this does not take the 32-bit number of jobs back to zero,
and does not move the jobs while a thread holds a reference to one of them. -/
def JobsTolerate (c : JobsCall) (jobs : StdVector J) : JobsEvent J Activity → Prop
  | .addJob _ => UInt32.ofNat (jobs.size + 1) ≠ 0 ∧
      match c with
      | .getInfo _ | .operate _ _ => jobs.size < jobs.capacity
      | _ => True
  | .proceed _ _ => True

/-- The jobs of a server, as an object that is shared by the threads that call its methods. -/
def sharedJobs (growth : Nat → Nat) :
    SharedObject JobsCall (JobsAnswer JobInfo) (JobsEvent J Activity) (StdVector J) where
  serve := serveJobs
  disturb := disturbJobs growth
  Tolerates := JobsTolerate

end Jobs

/-- A program of the methods: calls, and possibly an exception. -/
abbrev JobsProgram (JobInfo : Type) := ExceptT Exception (CallTree (JobsAnswer JobInfo))

namespace AutomationServer

variable {JobInfo : Type}

/-- A call whose answer is a result. -/
def performCall (c : JobsCall) : JobsProgram JobInfo (JobsAnswer JobInfo c) :=
  ExceptT.lift (CallTree.perform c)

/-- `GetJob`; `automation_server.cpp:131`. -/
def lookupJob (jobIdx : UInt32) : JobsProgram JobInfo StdReference :=
  ExceptT.mk (CallTree.perform (JobsCall.getJob jobIdx))

/-- An operation of a job, which may throw. -/
def operateJob (job : StdReference) (op : JobOperation) : JobsProgram JobInfo Unit :=
  ExceptT.mk (CallTree.perform (JobsCall.operate job op))

/-- `GetNumberOfJobs`; `automation_server.cpp:68`. -/
def getNumberOfJobs : JobsProgram JobInfo UInt32 := do
  let nJobs ← performCall .size
  return UInt32.ofNat nJobs

/-- `GetJobInfo`; `automation_server.cpp:75`. -/
def getJobInfo (jobIdx : UInt32) : JobsProgram JobInfo JobInfo := do
  let job ← lookupJob jobIdx
  performCall (.getInfo job)

/-- `EditBreakpoint`; `automation_server.cpp:81`. -/
def editBreakpoint (jobIdx instrIdx : UInt32) (breakpointActive : Bool) :
    JobsProgram JobInfo Unit := do
  let job ← lookupJob jobIdx
  if breakpointActive then
    operateJob job (.setBreakpoint instrIdx)
  else
    operateJob job (.removeBreakpoint instrIdx)

/-- The operation that the `switch` of `SendJobCommand` chooses; `automation_server.cpp:98`. -/
def commandOperation [JobCommands] (command : JobCommand) : Option JobOperation :=
  if command = JobCommands.kStart then some .start
  else if command = JobCommands.kStep then some .step
  else if command = JobCommands.kPause then some .pause
  else if command = JobCommands.kReset then some .reset
  else if command = JobCommands.kHalt then some .halt
  else none

/-- `SendJobCommand`; `automation_server.cpp:94`. -/
def sendJobCommand [JobCommands] (jobIdx : UInt32) (command : JobCommand) :
    JobsProgram JobInfo Unit := do
  let job ← lookupJob jobIdx
  match commandOperation command with
  | some op => operateJob job op
  | none => throw (.invalidOperation
      ("AutomationServer::GetJobInfo(): unknown command enumerator [" ++
        command.code.toInt32.toInt.repr ++ "]"))

end AutomationServer

/-- `AutomationServer`, as the job manager that it implements; `automation_server.h:48`. -/
def jobManager {JobInfo : Type} [JobCommands] (serverPrefix : String) :
    IJobManager (JobsProgram JobInfo) JobInfo where
  getServerPrefix := pure serverPrefix
  getNumberOfJobs := AutomationServer.getNumberOfJobs
  getJobInfo := AutomationServer.getJobInfo
  editBreakpoint := AutomationServer.editBreakpoint
  sendJobCommand := AutomationServer.sendJobCommand

section Stability

variable {J JobInfo Activity : Type} [IJob J JobInfo Activity] {growth : Nat → Nat}

/-- The server says that it has a job of this index. -/
def HasJob (jobIdx : UInt32) (jobs : StdVector J) : Prop := jobIdx < UInt32.ofNat jobs.size

instance (jobIdx : UInt32) (jobs : StdVector J) : Decidable (HasJob jobIdx jobs) :=
  inferInstanceAs (Decidable (_ < _))

/-- The information about the job of this index. -/
def HasInfo (jobIdx : UInt32) (jobInfo : JobInfo) (jobs : StdVector J) : Prop :=
  (jobs.elements[jobIdx.toNat]?).map IJob.getInfo = some jobInfo

/-- A job that the server says it has is one of its jobs. -/
theorem HasJob.lt_size {jobIdx : UInt32} {jobs : StdVector J} (h : HasJob jobIdx jobs) :
    jobIdx.toNat < jobs.size := by
  have hlt : jobIdx.toNat < (UInt32.ofNat jobs.size).toNat := UInt32.lt_iff_toNat_lt.mp h
  have hle : (UInt32.ofNat jobs.size).toNat ≤ jobs.size := by
    rw [UInt32.toNat_ofNat']
    exact Nat.mod_le _ _
  omega

/-- `GetJob` finds a job that the server says it has. -/
theorem getJob_of_hasJob {jobIdx : UInt32} {jobs : StdVector J} (h : HasJob jobIdx jobs) :
    getJob jobs jobIdx = .ok (jobs.reference jobIdx.toNat) := by
  rw [getJob, if_neg (Nat.not_le.mpr h.lt_size)]

/-- A query through a valid reference. -/
theorem serveJobs_getInfo {r : StdReference} {jobs : StdVector J} {job : J}
    (h : jobs.deref r = some job) :
    serveJobs (.getInfo r) jobs = some (IJob.getInfo job, jobs) := by
  simp only [serveJobs, h, Option.map_some]

/-- An operation through a valid reference. -/
theorem serveJobs_operate {r : StdReference} {jobs : StdVector J} {job : J}
    (h : jobs.deref r = some job) (op : JobOperation) :
    serveJobs (.operate r op) jobs =
      some ((op.run job).1, jobs.set r.position (op.run job).2) := by
  simp only [serveJobs, h, Option.map_some]

/-- A call replaces at most one job, by a job that was operated. -/
theorem serveJobs_cases {c : JobsCall} {jobs jobs' : StdVector J} {answer : JobsAnswer JobInfo c}
    (h : serveJobs c jobs = some (answer, jobs')) :
    jobs' = jobs ∨ ∃ position job, ∃ op : JobOperation, jobs.elements[position]? = some job ∧
      jobs' = jobs.set position (op.run job).2 := by
  cases c with
  | size =>
    cases h
    exact .inl rfl
  | getJob jobIdx =>
    cases h
    exact .inl rfl
  | getInfo r =>
    obtain ⟨job, -, heq⟩ := Option.map_eq_some_iff.mp h
    cases heq
    exact .inl rfl
  | operate r op =>
    obtain ⟨job, hderef, heq⟩ := Option.map_eq_some_iff.mp h
    cases heq
    have hvalid : jobs.Valid r := StdVector.deref_isSome.mp (by rw [hderef]; rfl)
    rw [StdVector.deref_of_valid hvalid] at hderef
    exact .inr ⟨r.position, job, op, hderef, rfl⟩

/-- Another job is added, or one job goes on. -/
theorem disturbJobs_cases {e : JobsEvent J Activity} {jobs jobs' : StdVector J}
    (h : disturbJobs growth e jobs = some jobs') :
    (∃ job, e = .addJob job ∧ jobs' = jobs.emplaceBack growth job) ∨
      ∃ position job activity, jobs.elements[position]? = some job ∧
        jobs' = jobs.set position (IJob.proceed job activity) := by
  cases e with
  | addJob job =>
    cases h
    exact .inl ⟨job, rfl, rfl⟩
  | proceed position activity =>
    obtain ⟨job, hjob, heq⟩ := Option.map_eq_some_iff.mp h
    exact .inr ⟨position, job, activity, hjob, heq.symm⟩

/-- The 32-bit number of jobs grows with each job that does not take it back to zero. -/
private theorem ofNat_lt_succ {n : Nat} (h : UInt32.ofNat (n + 1) ≠ 0) :
    UInt32.ofNat n < UInt32.ofNat (n + 1) := by
  have hne : (n + 1) % 2 ^ 32 ≠ 0 := by
    intro hzero
    apply h
    apply UInt32.toNat_inj.mp
    rw [UInt32.toNat_ofNat']
    exact hzero
  rw [UInt32.lt_iff_toNat_lt, UInt32.toNat_ofNat', UInt32.toNat_ofNat']
  omega

/-- A job does not lose its index. -/
theorem stable_hasJob (c : JobsCall) (jobIdx : UInt32) :
    (sharedJobs growth).Stable c (HasJob (J := J) jobIdx) where
  serve := by
    intro jobs jobs' d answer h hserve
    rcases serveJobs_cases hserve with rfl | ⟨position, job, op, -, rfl⟩
    · exact h
    · unfold HasJob
      rwa [StdVector.size_set]
  disturb := by
    intro jobs jobs' e h htolerates hdisturb
    rcases disturbJobs_cases hdisturb with ⟨job, rfl, rfl⟩ | ⟨position, job, activity, -, rfl⟩
    · unfold HasJob
      rw [StdVector.size_emplaceBack]
      exact UInt32.lt_trans h (ofNat_lt_succ htolerates.1)
    · unfold HasJob
      rwa [StdVector.size_set]

/-- A replacement by a job with the same information keeps all information. -/
theorem HasInfo.set {jobIdx : UInt32} {jobInfo : JobInfo} {jobs : StdVector J}
    (h : HasInfo jobIdx jobInfo jobs) {position : Nat} {old job : J}
    (hold : jobs.elements[position]? = some old) (hsame : IJob.getInfo job = IJob.getInfo old) :
    HasInfo jobIdx jobInfo (jobs.set position job) := by
  unfold HasInfo at h ⊢
  rw [StdVector.getElem?_elements_set hold]
  split
  · next hposition =>
    rw [hposition, hold] at h
    rw [Option.map_some, hsame]
    exact h
  · exact h

/-- Another job does not change the information about the jobs before it. -/
theorem HasInfo.emplaceBack {jobIdx : UInt32} {jobInfo : JobInfo} {jobs : StdVector J}
    (h : HasInfo jobIdx jobInfo jobs) (job : J) :
    HasInfo jobIdx jobInfo (jobs.emplaceBack growth job) := by
  obtain ⟨old, hold, hinfo⟩ := Option.map_eq_some_iff.mp h
  unfold HasInfo
  rw [StdVector.getElem?_elements_emplaceBack hold, Option.map_some, hinfo]

/-- The server says that it has a job when there is one, up to the limits of the index type. -/
theorem HasInfo.hasJob {jobIdx : UInt32} {jobInfo : JobInfo} {jobs : StdVector J}
    (h : HasInfo jobIdx jobInfo jobs) (hsize : jobs.size < UInt32.size) : HasJob jobIdx jobs := by
  obtain ⟨job, hjob, -⟩ := Option.map_eq_some_iff.mp h
  have hlt : jobIdx.toNat < jobs.size := (List.getElem?_eq_some_iff.mp hjob).1
  unfold HasJob
  rwa [UInt32.lt_iff_toNat_lt, UInt32.toNat_ofNat', Nat.mod_eq_of_lt hsize]

/-- A call through a reference has a defined behaviour exactly when the reference is valid. -/
theorem serveJobs_isSome_iff {c : JobsCall} {r : StdReference} {jobs : StdVector J}
    (hc : c = .getInfo r ∨ ∃ op, c = .operate r op) :
    (serveJobs c jobs).isSome ↔ jobs.Valid r := by
  rw [← StdVector.deref_isSome]
  rcases hc with rfl | ⟨op, rfl⟩
  · simp only [serveJobs, Option.isSome_map]
  · simp only [serveJobs, Option.isSome_map]

/-- The information about a job does not change. -/
theorem stable_hasInfo [LawfulIJob J] (c : JobsCall) (jobIdx : UInt32) (jobInfo : JobInfo) :
    (sharedJobs growth).Stable c (HasInfo (J := J) jobIdx jobInfo) where
  serve := by
    intro jobs jobs' d answer h hserve
    rcases serveJobs_cases hserve with rfl | ⟨position, job, op, hjob, rfl⟩
    · exact h
    · exact h.set hjob (LawfulIJob.getInfo_run op job)
  disturb := by
    intro jobs jobs' e h _ hdisturb
    rcases disturbJobs_cases hdisturb with ⟨job, rfl, rfl⟩ | ⟨position, job, activity, hjob, rfl⟩
    · exact h.emplaceBack job
    · exact h.set hjob (LawfulIJob.getInfo_proceed job activity)

/-- A reference that is about to be used stays valid. -/
theorem stable_valid {c : JobsCall} {r : StdReference}
    (hc : c = .getInfo r ∨ ∃ op, c = .operate r op) :
    (sharedJobs growth).Stable c (fun jobs : StdVector J ↦ jobs.Valid r) where
  serve := by
    intro jobs jobs' d answer h hserve
    rcases serveJobs_cases hserve with rfl | ⟨position, job, op, -, rfl⟩
    · exact h
    · rwa [StdVector.valid_set]
  disturb := by
    intro jobs jobs' e h htolerates hdisturb
    rcases disturbJobs_cases hdisturb with ⟨job, rfl, rfl⟩ | ⟨position, job, activity, -, rfl⟩
    · rw [StdVector.valid_emplaceBack_iff h]
      rcases hc with rfl | ⟨op, rfl⟩
      · exact htolerates.2
      · exact htolerates.2
    · rwa [StdVector.valid_set]

end Stability

end OacTreeServer.Server
