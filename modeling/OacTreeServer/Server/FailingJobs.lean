import OacTreeServer.External.Reference
import OacTreeServer.Protocol.AcceptedNames
import OacTreeServer.Server.AutomationServer

/-!
# Jobs that cannot be constructed

`AddJob` (`base/automation_server.cpp:49`) creates the `ServerJobInfoIO` of a job, which
registers its names, before it constructs the `LocalJob`. When that construction throws,
the `ServerJobInfoIO` and the names stay, and the next job gets the same index. Its own
registration is then refused, so it has the variables of the procedure that failed.
-/

namespace OacTreeServer.Server
open OacTreeServer.Cpp OacTreeServer.Epics OacTreeServer.External OacTreeServer.Job
  OacTreeServer.Library OacTreeServer.Protocol

/-- A call of `AddJob`: the index for the job, its procedure and the exception that the call
has ended with, if any. -/
structure AddJobCall (P : Type) where
  idx : Nat
  proc : P
  exception : Option Exception

/-- A server with the calls of `AddJob` so far. -/
structure FailingState (n : Nat) (V P : Type) where
  server : AutomationServer n (EPICSAnyValueManager V)
  calls : List (AddJobCall P)

namespace FailingState

variable {n : Nat} {V P IS : Type}

/-- A new server over new managers. -/
def start (serverPrefix : String) : FailingState n V P :=
  ⟨.new serverPrefix fun _ ↦ .new, []⟩

/-- The first call of `AddJob` for an index. -/
def firstCall (s : FailingState n V P) (j : Nat) : Option (AddJobCall P) :=
  s.calls.find? fun call ↦ call.idx = j

/-- The manager of an index serves a channel of the job with that index. -/
def Serves (s : FailingState n V P) (c : Fin (n + 1)) (j : Nat) (kind : ChannelKind) : Prop :=
  (s.server.avMgrRegistry c).findServer
    (publishedName s.server.serverPrefix (UInt32.ofNat j) kind) ≠ none

variable [AnyValue V] [OacTree V] [Base64VariableCodec V] [InstructionStateCodec V IS]
  [Procedure P]

/-- The server as a machine in which calls of `AddJob` may throw. -/
def machine : Machine (FailingState n V P) (AutomationAction P V IS) where
  step s
    | .addJob proc =>
      let (exception, server) := s.server.addJob proc
      some ⟨server, s.calls ++ [⟨s.server.jobs.length, proc, exception⟩]⟩
    | .initNumberOfInstructions job nInstr =>
      (s.server.initNumberOfInstructions job nInstr).map fun server ↦ ⟨server, s.calls⟩
    | .report job u => (s.server.report job u).map fun server ↦ ⟨server, s.calls⟩

end FailingState

section Names

variable {V : Type}

/-- Which names are known after an addition: those of the set too, if it can be added. -/
private theorem findServer_addAnyValuesImpl_iff (manager : EPICSAnyValueManager V)
    (nameValueSet : NameAnyValueSet V) (name : String) :
    (manager.addAnyValuesImpl nameValueSet).2.findServer name ≠ none ↔
      manager.findServer name ≠ none ∨
        ((nameValueSet.map Prod.fst).Nodup ∧
          ∀ other ∈ nameValueSet.map Prod.fst, manager.findServer other = none) ∧
        name ∈ nameValueSet.map Prod.fst := by
  by_cases hfresh : (nameValueSet.map Prod.fst).Nodup ∧
      ∀ other ∈ nameValueSet.map Prod.fst, manager.findServer other = none
  · have hnames : name ∈ getNames nameValueSet ↔ name ∈ nameValueSet.map Prod.fst :=
      List.mem_dedup
    unfold EPICSAnyValueManager.addAnyValuesImpl
    rw [dif_pos ((EPICSAnyValueManager.validateNameValueSet_iff manager nameValueSet).mpr hfresh),
      EPICSAnyValueManager.findServer, NameMap.getElem?_foldl_insert]
    by_cases hname : name ∈ nameValueSet.map Prod.fst
    · rw [if_pos (hnames.mpr hname)]
      exact ⟨fun _ ↦ Or.inr ⟨hfresh, hname⟩, fun _ ↦ Option.some_ne_none _⟩
    · rw [if_neg (fun h ↦ hname (hnames.mp h))]
      exact ⟨Or.inl, fun h ↦ h.elim id fun h ↦ absurd h.2 hname⟩
  · rw [EPICSAnyValueManager.addAnyValuesImpl_invalid hfresh]
    exact ⟨Or.inl, fun h ↦ h.elim id fun h ↦ absurd h.1 hfresh⟩

/-- Which values are known after a set of values of one job has been added. -/
private theorem findServer_addKinds {serverPrefix : String} {i j : UInt32}
    {manager : EPICSAnyValueManager V} {nameValueSet : NameAnyValueSet V}
    {kinds : List ChannelKind} {kind : ChannelKind} (hnodup : kinds.Nodup)
    (hset : nameValueSet.map Prod.fst = kinds.map (channelName (createJobPrefix serverPrefix i))) :
    (manager.addAnyValuesImpl nameValueSet).2.findServer (publishedName serverPrefix j kind) ≠
        none ↔
      manager.findServer (publishedName serverPrefix j kind) ≠ none ∨
        (∀ other ∈ kinds, manager.findServer (publishedName serverPrefix i other) = none) ∧
        j = i ∧ kind ∈ kinds := by
  have hname : publishedName serverPrefix j kind ∈
      kinds.map (channelName (createJobPrefix serverPrefix i)) ↔ j = i ∧ kind ∈ kinds := by
    rw [List.mem_map]
    constructor
    · rintro ⟨other, hother, heq⟩
      have hsame := publishedName_inj.mp (show publishedName serverPrefix i other = _ from heq)
      exact ⟨hsame.2.1.symm, hsame.2.2 ▸ hother⟩
    · rintro ⟨rfl, hmem⟩
      exact ⟨kind, hmem, rfl⟩
  rw [findServer_addAnyValuesImpl_iff, hset, hname, and_iff_right (nodup_channelNames hnodup)]
  simp only [List.forall_mem_map, publishedName]

/-- An input handler adds the name of its requests at most. -/
private theorem findServer_addInputHandler [AnyValue V] [OacTree V]
    (manager : EPICSAnyValueManager V) {inputServerName name : String}
    (hne : name ≠ getInputRequestPVName inputServerName) :
    (manager.addInputHandler inputServerName).2.findServer name ≠ none ↔
      manager.findServer name ≠ none := by
  unfold EPICSAnyValueManager.addInputHandler EPICSAnyValueManager.addInputServer
  cases manager.nameInputServerMap[inputServerName]? with
  | some inputServer => rfl
  | none =>
    dsimp only
    rw [findServer_addAnyValuesImpl_iff, EPICSAnyValueManager.findServer_setInputServer]
    simp [hne]

variable [AnyValue V] [OacTree V] [Base64VariableCodec V]

/-- A `ServerJobInfoIO` can always be created over these managers. -/
private theorem new_epics_eq (pre : String) (nVars : UInt32) (manager : EPICSAnyValueManager V) :
    ServerJobInfoIo.new pre nVars manager =
      .ok (⟨pre, nVars, .new, .new, .new⟩,
        ((manager.addAnyValues (getInitialValueSet pre nVars)).2.addInputHandler
          (getInputServerName pre)).2) := by
  have hinit : ∀ {m₀ m₁ : EPICSAnyValueManager V} {added handled : Bool},
      manager.addAnyValues (getInitialValueSet pre nVars) = (added, m₀) →
      m₀.addInputHandler (getInputServerName pre) = (handled, m₁) →
      initializeJobAndVariables manager pre nVars = .ok m₁ := by
    intro m₀ m₁ added handled hadd hhandle
    exact initializeJobAndVariables_ok (congrArg Except.ok hadd) (congrArg Except.ok hhandle)
  unfold ServerJobInfoIo.new
  rw [hinit Prod.mk.eta.symm Prod.mk.eta.symm]
  rfl

/-- Which values are known after the creation of a `ServerJobInfoIO`: those of its job too,
unless one of them was known before. -/
private theorem findServer_new_epics {serverPrefix : String} {i j : UInt32} {nVars : UInt32}
    {manager manager' : EPICSAnyValueManager V} {io : ServerJobInfoIo} {kind : ChannelKind}
    (hkind : kind.isValue = true)
    (hnew : ServerJobInfoIo.new (createJobPrefix serverPrefix i) nVars manager =
      .ok (io, manager')) :
    manager'.findServer (publishedName serverPrefix j kind) ≠ none ↔
      manager.findServer (publishedName serverPrefix j kind) ≠ none ∨
        (∀ other ∈ initialKinds nVars,
          manager.findServer (publishedName serverPrefix i other) = none) ∧
        j = i ∧ kind ∈ initialKinds nVars := by
  rw [new_epics_eq] at hnew
  cases hnew
  have hne : publishedName serverPrefix j kind ≠
      getInputRequestPVName (getInputServerName (createJobPrefix serverPrefix i)) := by
    intro heq
    have hsame := (publishedName_inj (l := .inputRequest)).mp heq
    rw [hsame.2.2] at hkind
    cases hkind
  rw [findServer_addInputHandler _ hne]
  exact findServer_addKinds (nodup_initialKinds nVars) (getInitialValueSet_names _ _)

/-- Which values are known after a job has announced its instructions. -/
private theorem findServer_initNumberOfInstructions {serverPrefix : String} {i j : UInt32}
    {nInstr : UInt32} {manager manager' : EPICSAnyValueManager V} {io : ServerJobInfoIo}
    {kind : ChannelKind} (hpre : io.jobPrefix = createJobPrefix serverPrefix i)
    (hinit : io.initNumberOfInstructions manager nInstr = .ok manager') :
    manager'.findServer (publishedName serverPrefix j kind) ≠ none ↔
      manager.findServer (publishedName serverPrefix j kind) ≠ none ∨
        (∀ other ∈ instructionKinds nInstr,
          manager.findServer (publishedName serverPrefix i other) = none) ∧
        j = i ∧ kind ∈ instructionKinds nInstr := by
  have hmanager : manager' =
      (manager.addAnyValuesImpl (getInstructionValueSet io.jobPrefix nInstr)).2 := by
    have hadd : ∀ {m₀ : EPICSAnyValueManager V} {added : Bool},
        manager.addAnyValues (getInstructionValueSet io.jobPrefix nInstr) = (added, m₀) →
        initializeInstructions manager io.jobPrefix nInstr = .ok m₀ := by
      intro m₀ added hadd
      exact initializeInstructions_ok (congrArg Except.ok hadd)
    rw [ServerJobInfoIo.initNumberOfInstructions, hadd Prod.mk.eta.symm] at hinit
    cases hinit
    rfl
  rw [hmanager, hpre]
  exact findServer_addKinds (nodup_instructionKinds nInstr) (getInstructionValueSet_names _ _)

end Names

namespace FailingState

variable {n : Nat} {V P IS : Type} [AnyValue V] [OacTree V] [Base64VariableCodec V]
  [InstructionStateCodec V IS] [Procedure P]

/-- A channel of a job is served: an initial one, by the first call for the index of the job,
or one of an instruction, once the job has announced them. -/
def IsServed (s : FailingState n V P) (j : Nat) (kind : ChannelKind) : Prop :=
  (∃ call, s.firstCall j = some call ∧ kind ∈ initialKinds (getNumberOfVariables call.proc)) ∨
  ∃ localJob nInstr, s.server.jobs[j]? = some localJob ∧ localJob.nInstr = some nInstr ∧
    kind ∈ instructionKinds nInstr

/-- What holds as long as the index of every call fits into 32 bits. -/
structure FailingInv (s : FailingState n V P) : Prop where
  calls_le : ∀ call ∈ s.calls, call.idx ≤ s.server.jobs.length
  jobs : ∀ j localJob, s.server.jobs[j]? = some localJob →
    ∃ io, s.server.jobInfoIos[localJob.jobInfoIo]? = some (managerIndex n (UInt32.ofNat j), io) ∧
      io.jobPrefix = createJobPrefix s.server.serverPrefix (UInt32.ofNat j)
  added : ∀ j < s.server.jobs.length, ∃ call ∈ s.calls, call.idx = j
  serves : ∀ c j kind, j < 2 ^ 32 → kind.isValue = true →
    (s.Serves c j kind ↔ c = managerIndex n (UInt32.ofNat j) ∧ s.IsServed j kind)

omit [AnyValue V] [OacTree V] [Base64VariableCodec V] in
/-- Nothing is served at first. -/
private theorem failingInv_start (serverPrefix : String) :
    FailingInv (.start serverPrefix : FailingState n V P) := by
  refine ⟨nofun, nofun, nofun, fun c j kind _ _ ↦ ?_⟩
  have hnone : ¬ (.start serverPrefix : FailingState n V P).Serves c j kind := by
    simp [Serves, start, AutomationServer.new, EPICSAnyValueManager.new,
      EPICSAnyValueManager.findServer]
  have hnot : ¬ (.start serverPrefix : FailingState n V P).IsServed j kind := by
    rintro (⟨call, hcall, _⟩ | ⟨localJob, nInstr, hjob, _⟩)
    · cases hcall
    · cases hjob
  exact ⟨fun h ↦ absurd h hnone, fun h ↦ absurd h.2 hnot⟩

/-- The server behind a call of `AddJob`, and whether a job was added. -/
private theorem addJob_cases {server server' : AutomationServer n (EPICSAnyValueManager V)}
    {proc : P} {exception : Option Exception} (h : server.addJob proc = (exception, server')) :
    ∃ io manager, ServerJobInfoIo.new
        (createJobPrefix server.serverPrefix (UInt32.ofNat server.jobs.length))
        (getNumberOfVariables proc)
        (server.avMgrRegistry (managerIndex n (UInt32.ofNat server.jobs.length))) =
          .ok (io, manager) ∧
      io.jobPrefix = createJobPrefix server.serverPrefix (UInt32.ofNat server.jobs.length) ∧
      server'.serverPrefix = server.serverPrefix ∧
      server'.avMgrRegistry = Function.update server.avMgrRegistry
        (managerIndex n (UInt32.ofNat server.jobs.length)) manager ∧
      server'.jobInfoIos = server.jobInfoIos ++
        [(managerIndex n (UInt32.ofNat server.jobs.length), io)] ∧
      (exception = none ∧ Procedure.localJob proc = .ok () ∧
          server'.jobs = server.jobs ++ [⟨server.jobInfoIos.length, none⟩] ∨
        exception ≠ none ∧ Procedure.localJob proc ≠ .ok () ∧ server'.jobs = server.jobs) := by
  unfold AutomationServer.addJob at h
  dsimp only at h
  rw [new_epics_eq] at h
  refine ⟨_, _, new_epics_eq _ _ _, rfl, ?_⟩
  cases hlocal : Procedure.localJob proc with
  | error e =>
    rw [hlocal] at h
    cases h
    exact ⟨rfl, rfl, rfl, Or.inr ⟨Option.some_ne_none _, nofun, rfl⟩⟩
  | ok _ =>
    rw [hlocal] at h
    cases h
    exact ⟨rfl, rfl, rfl, Or.inl ⟨rfl, rfl, by simp⟩⟩

omit [AnyValue V] [OacTree V] [Base64VariableCodec V] [Procedure P] in
/-- The first call for an index, when one more is made. -/
private theorem firstCall_append (s : FailingState n V P)
    (server : AutomationServer n (EPICSAnyValueManager V)) (call : AddJobCall P) (j : Nat) :
    firstCall ⟨server, s.calls ++ [call]⟩ j =
      (s.firstCall j).or (if call.idx = j then some call else none) := by
  simp only [firstCall, List.find?_append, List.find?_singleton, decide_eq_true_eq]

/-- A call of `AddJob` announces no instructions. -/
private theorem announced_addJob {jobs jobs' : List LocalJob} {k : Nat}
    (h : jobs' = jobs ++ [⟨k, none⟩] ∨ jobs' = jobs) (j : Nat) (localJob : LocalJob)
    (nInstr : UInt32) :
    jobs'[j]? = some localJob ∧ localJob.nInstr = some nInstr ↔
      jobs[j]? = some localJob ∧ localJob.nInstr = some nInstr := by
  rcases h with rfl | rfl
  · rw [List.getElem?_append]
    split
    · rfl
    · next hge =>
      rw [List.getElem?_eq_none (Nat.not_lt.mp hge)]
      constructor
      · rintro ⟨hnew, hcount⟩
        have hmem := List.mem_of_getElem? hnew
        rw [List.mem_singleton] at hmem
        rw [hmem] at hcount
        cases hcount
      · rintro ⟨hnone, _⟩
        cases hnone
  · rfl

omit [AnyValue V] [OacTree V] [Base64VariableCodec V] in
/-- The initial values of an index are unknown as long as no call for it was made. -/
private theorem FailingInv.unknown_iff {s : FailingState n V P} (hinv : FailingInv s) {j : Nat}
    (hj : j < 2 ^ 32) (nVars : UInt32) :
    (∀ kind ∈ initialKinds nVars,
      (s.server.avMgrRegistry (managerIndex n (UInt32.ofNat j))).findServer
        (publishedName s.server.serverPrefix (UInt32.ofNat j) kind) = none) ↔
      s.firstCall j = none := by
  constructor
  · intro hunknown
    by_contra hcalled
    obtain ⟨call, hcall⟩ := Option.ne_none_iff_exists'.mp hcalled
    have hserved : s.Serves (managerIndex n (UInt32.ofNat j)) j .jobState :=
      (hinv.serves _ _ .jobState hj rfl).mpr ⟨rfl, Or.inl ⟨call, hcall, by simp [initialKinds]⟩⟩
    exact hserved (hunknown .jobState (by simp [initialKinds]))
  · intro hcalled kind hmem
    by_contra hserved
    have hvalue : kind.isValue = true := by
      cases kind <;> simp_all [initialKinds, ChannelKind.isValue]
    rcases ((hinv.serves _ _ kind hj hvalue).mp hserved).2 with
      ⟨call, hcall, _⟩ | ⟨localJob, nInstr, _, _, hinstr⟩
    · rw [hcalled] at hcall
      cases hcall
    · exact notMem_initialKinds hinstr hmem

omit [AnyValue V] [OacTree V] [Base64VariableCodec V] in
/-- The first call for an index is the one whose variables are served. -/
private theorem isServed_addJob {s : FailingState n V P}
    {server' : AutomationServer n (EPICSAnyValueManager V)} {call : AddJobCall P}
    (hannounced : ∀ (j : Nat) (localJob : LocalJob) nInstr, server'.jobs[j]? = some localJob ∧
      localJob.nInstr = some nInstr ↔ s.server.jobs[j]? = some localJob ∧
        localJob.nInstr = some nInstr) (j : Nat) (kind : ChannelKind) :
    IsServed ⟨server', s.calls ++ [call]⟩ j kind ↔ s.IsServed j kind ∨
      s.firstCall call.idx = none ∧ j = call.idx ∧
        kind ∈ initialKinds (getNumberOfVariables call.proc) := by
  unfold IsServed
  rw [firstCall_append]
  simp only [← and_assoc, hannounced]
  by_cases hj : call.idx = j
  · subst hj
    cases s.firstCall call.idx <;> simp [or_comm]
  · simp [hj, Ne.symm hj]

omit [AnyValue V] [OacTree V] [Base64VariableCodec V] in
/-- Every job still refers to a `ServerJobInfoIO` with its own prefix. -/
private theorem FailingInv.jobs_addJob {s : FailingState n V P} (hinv : FailingInv s)
    {server' : AutomationServer n (EPICSAnyValueManager V)} {io : ServerJobInfoIo}
    (hio : io.jobPrefix =
      createJobPrefix s.server.serverPrefix (UInt32.ofNat s.server.jobs.length))
    (hserver : server'.serverPrefix = s.server.serverPrefix)
    (hios : server'.jobInfoIos = s.server.jobInfoIos ++
      [(managerIndex n (UInt32.ofNat s.server.jobs.length), io)])
    (hjobs : server'.jobs = s.server.jobs ++ [⟨s.server.jobInfoIos.length, none⟩] ∨
      server'.jobs = s.server.jobs) (j : Nat) (localJob : LocalJob)
    (hj : server'.jobs[j]? = some localJob) :
    ∃ io, server'.jobInfoIos[localJob.jobInfoIo]? = some (managerIndex n (UInt32.ofNat j), io) ∧
      io.jobPrefix = createJobPrefix server'.serverPrefix (UInt32.ofNat j) := by
  rw [hserver]
  have hold : s.server.jobs[j]? = some localJob →
      ∃ io, server'.jobInfoIos[localJob.jobInfoIo]? =
          some (managerIndex n (UInt32.ofNat j), io) ∧
        io.jobPrefix = createJobPrefix s.server.serverPrefix (UInt32.ofNat j) := by
    intro hj
    rcases hinv.jobs j localJob hj with ⟨old, hold, hpre⟩
    refine ⟨old, ?_, hpre⟩
    rw [hios, List.getElem?_append_left (List.getElem?_eq_some_iff.mp hold).1, hold]
  rcases hjobs with hjobs | hjobs
  · rw [hjobs, List.getElem?_append] at hj
    split at hj
    · exact hold hj
    · next hge =>
      have hlt := (List.getElem?_eq_some_iff.mp hj).1
      have hmem := List.mem_of_getElem? hj
      rw [List.length_singleton] at hlt
      have hlast : j = s.server.jobs.length := by omega
      rw [List.mem_singleton] at hmem
      subst hlast hmem
      exact ⟨io, by simp [hios], hio⟩
  · exact hold (hjobs ▸ hj)

/-- A call of `AddJob` keeps the invariant, whether it throws or not. -/
private theorem FailingInv.addJob {s : FailingState n V P} (hinv : FailingInv s)
    (hjobs : s.server.jobs.length < 2 ^ 32)
    {server' : AutomationServer n (EPICSAnyValueManager V)} {proc : P}
    {exception : Option Exception} (h : s.server.addJob proc = (exception, server')) :
    FailingInv (⟨server', s.calls ++ [⟨s.server.jobs.length, proc, exception⟩]⟩ :
      FailingState n V P) := by
  obtain ⟨io, manager, hnew, hio, hserver, hregistry, hios, hadded⟩ := addJob_cases h
  have hjobs' : server'.jobs = s.server.jobs ++ [⟨s.server.jobInfoIos.length, none⟩] ∨
      server'.jobs = s.server.jobs := hadded.imp (fun h ↦ h.2.2) (fun h ↦ h.2.2)
  have hlength : s.server.jobs.length ≤ server'.jobs.length ∧
      server'.jobs.length ≤ s.server.jobs.length + 1 := by
    rcases hjobs' with hjobs' | hjobs' <;> simp [hjobs']
  refine ⟨?_, hinv.jobs_addJob hio hserver hios hjobs', ?_, ?_⟩
  · intro call hcall
    cases List.mem_append.mp hcall with
    | inl hold => exact (hinv.calls_le call hold).trans hlength.1
    | inr hnew =>
      rw [List.mem_singleton.mp hnew]
      exact hlength.1
  · intro j hj
    by_cases hlt : j < s.server.jobs.length
    · rcases hinv.added j hlt with ⟨call, hcall, hidx⟩
      exact ⟨call, List.mem_append_left _ hcall, hidx⟩
    · refine ⟨_, List.mem_append_right _ (List.mem_singleton_self _), ?_⟩
      change j < server'.jobs.length at hj
      dsimp only
      omega
  · intro c j kind hj hkind
    have hold := hinv.serves c j kind hj hkind
    rw [isServed_addJob (announced_addJob hjobs')]
    unfold Serves at hold ⊢
    dsimp only
    rw [hserver, hregistry, Function.update_apply]
    split
    · next hc =>
      rw [findServer_new_epics hkind hnew, hinv.unknown_iff hjobs, jobIdx_inj hj hjobs, ← hc, hold]
      constructor
      · rintro (h | ⟨hnone, rfl, hmem⟩)
        · exact ⟨h.1, Or.inl h.2⟩
        · exact ⟨hc, Or.inr ⟨hnone, rfl, hmem⟩⟩
      · rintro ⟨hc', h | h⟩
        · exact Or.inl ⟨hc', h⟩
        · exact Or.inr h
    · next hc =>
      rw [hold]
      constructor
      · exact fun h ↦ ⟨h.1, Or.inl h.2⟩
      · rintro ⟨hc', h | ⟨_, rfl, _⟩⟩
        · exact ⟨hc', h⟩
        · exact absurd hc' hc

omit [AnyValue V] [OacTree V] [Base64VariableCodec V] in
/-- What a job refers to. -/
private theorem jobData_eq_some {server : AutomationServer n (EPICSAnyValueManager V)} {job : Nat}
    {d : AutomationServer.JobData n} (h : server.jobData job = some d) :
    ∃ localJob, server.jobs[job]? = some localJob ∧
      server.jobInfoIos[localJob.jobInfoIo]? = some (d.manager, d.io) ∧
      localJob.nInstr = d.nInstr := by
  unfold AutomationServer.jobData at h
  rcases Option.bind_eq_some_iff.mp h with ⟨localJob, hjob, h⟩
  rcases Option.bind_eq_some_iff.mp h with ⟨r, hr, h⟩
  cases h
  exact ⟨localJob, hjob, hr, rfl⟩

omit [AnyValue V] [OacTree V] [Base64VariableCodec V] in
/-- Every job has an index that fits into 32 bits, if that of every call does. -/
private theorem FailingInv.job_lt {s : FailingState n V P} (hinv : FailingInv s)
    (hfits : ∀ call ∈ s.calls, call.idx < 2 ^ 32) {j : Nat} {localJob : LocalJob}
    (hj : s.server.jobs[j]? = some localJob) : j < 2 ^ 32 := by
  rcases hinv.added j (List.getElem?_eq_some_iff.mp hj).1 with ⟨call, hcall, hidx⟩
  rw [← hidx]
  exact hfits call hcall

omit [AnyValue V] [OacTree V] [Base64VariableCodec V] in
/-- No instruction is known of a job that has not announced them. -/
private theorem FailingInv.instructions_unknown {s : FailingState n V P} (hinv : FailingInv s)
    {job : Nat} (hlt : job < 2 ^ 32) {localJob : LocalJob}
    (hjob : s.server.jobs[job]? = some localJob) (hnone : localJob.nInstr = none)
    (c : Fin (n + 1)) (nInstr : UInt32) : ∀ kind ∈ instructionKinds nInstr,
      (s.server.avMgrRegistry c).findServer
        (publishedName s.server.serverPrefix (UInt32.ofNat job) kind) = none := by
  intro kind hmem
  by_contra hserved
  have hvalue : kind.isValue = true := by
    rcases List.mem_map.mp hmem with ⟨index, _, rfl⟩
    rfl
  rcases ((hinv.serves c job kind hlt hvalue).mp hserved).2 with
    ⟨call, _, hinitial⟩ | ⟨other, count, hother, hcount, _⟩
  · exact notMem_initialKinds hmem hinitial
  · rw [hjob] at hother
    cases hother
    rw [hnone] at hcount
    cases hcount

omit [AnyValue V] [OacTree V] [Base64VariableCodec V] in
/-- The announced instructions of a job are served. -/
private theorem isServed_modify {s : FailingState n V P} {job : Nat} {localJob : LocalJob}
    (hjob : s.server.jobs[job]? = some localJob) (hnone : localJob.nInstr = none)
    (nInstr : UInt32) {server' : AutomationServer n (EPICSAnyValueManager V)}
    (hjobs : server'.jobs = s.server.jobs.modify job fun localJob ↦
      { localJob with nInstr := some nInstr }) (j : Nat) (kind : ChannelKind) :
    IsServed (⟨server', s.calls⟩ : FailingState n V P) j kind ↔
      s.IsServed j kind ∨ j = job ∧ kind ∈ instructionKinds nInstr := by
  unfold IsServed
  rw [or_assoc]
  apply or_congr Iff.rfl
  dsimp only
  rw [hjobs, List.getElem?_modify]
  by_cases hj : job = j
  · subst hj
    simp [hjob, hnone]
  · simp [hj, Ne.symm hj]

/-- The announcement of the instructions of a job keeps the invariant. -/
private theorem FailingInv.initNumberOfInstructions {s : FailingState n V P}
    (hinv : FailingInv s) (hfits : ∀ call ∈ s.calls, call.idx < 2 ^ 32) {job : Nat}
    {nInstr : UInt32} {server' : AutomationServer n (EPICSAnyValueManager V)}
    (h : s.server.initNumberOfInstructions job nInstr = some server') :
    FailingInv (⟨server', s.calls⟩ : FailingState n V P) := by
  unfold AutomationServer.initNumberOfInstructions at h
  split at h
  · next i io hdata =>
    rcases jobData_eq_some hdata with ⟨localJob, hjob, hio, hnone⟩
    rcases hinv.jobs job localJob hjob with ⟨io₀, hio₀, hpre⟩
    have hsame := Prod.mk.inj (Option.some.inj (hio.symm.trans hio₀))
    rw [← hsame.2] at hpre
    have hlt := hinv.job_lt hfits hjob
    split at h
    · cases h
    · next manager hmanager =>
      cases h
      refine ⟨?_, ?_, ?_, ?_⟩
      · simpa using hinv.calls_le
      · intro j localJob' hj
        dsimp only at hj
        rw [List.getElem?_modify, Option.map_eq_map, Option.map_eq_some_iff] at hj
        rcases hj with ⟨old, hold, rfl⟩
        rcases hinv.jobs j old hold with ⟨io', hio', hpre'⟩
        refine ⟨io', ?_, hpre'⟩
        split
        · exact hio'
        · exact hio'
      · simpa using hinv.added
      · intro c j kind hj hkind
        have hold := hinv.serves c j kind hj hkind
        rw [isServed_modify hjob hnone nInstr rfl]
        unfold Serves at hold ⊢
        dsimp only
        rw [Function.update_apply]
        split
        · next hc =>
          rw [findServer_initNumberOfInstructions hpre hmanager, jobIdx_inj hj hlt, ← hc, hold]
          constructor
          · rintro (h | ⟨_, rfl, hmem⟩)
            · exact ⟨h.1, Or.inl h.2⟩
            · exact ⟨hc.trans hsame.1, Or.inr ⟨rfl, hmem⟩⟩
          · rintro ⟨hc', h | h⟩
            · exact Or.inl ⟨hc', h⟩
            · exact Or.inr ⟨hinv.instructions_unknown hlt hjob hnone c nInstr, h⟩
        · next hc =>
          rw [hold]
          constructor
          · exact fun h ↦ ⟨h.1, Or.inl h.2⟩
          · rintro ⟨hc', h | ⟨rfl, _⟩⟩
            · exact ⟨hc', h⟩
            · exact absurd (hc'.trans hsame.1.symm) hc
  · cases h

/-- A report changes neither which names are known nor the prefix of the job. -/
private theorem perform_frame {io io' : ServerJobInfoIo} {u : JobUpdate V IS}
    {manager manager' : EPICSAnyValueManager V}
    (h : io.perform manager u = .ok (io', manager')) :
    io'.jobPrefix = io.jobPrefix ∧
      ∀ name, manager'.findServer name ≠ none ↔ manager.findServer name ≠ none := by
  rw [ServerJobInfoIo.perform_eq] at h
  cases hpub : io.publication u with
  | none =>
    rw [hpub] at h
    cases h
    exact ⟨ServerJobInfoIo.jobPrefix_afterUpdate io u, fun _ ↦ Iff.rfl⟩
  | some publication =>
    rcases publication with ⟨kind, value⟩
    rw [hpub] at h
    dsimp only at h
    cases hupdate : IAnyValueManager.updateAnyValue manager (channelName io.jobPrefix kind)
      value with
    | error e =>
      rw [hupdate] at h
      cases h
    | ok updated =>
      rw [hupdate] at h
      cases h
      refine ⟨ServerJobInfoIo.jobPrefix_afterUpdate io u, fun name ↦ ?_⟩
      rw [Ne, EPICSAnyValueManager.findServer_eq_none_iff,
        (EPICSAnyValueManager.updateAnyValue_frame hupdate).1, Ne,
        EPICSAnyValueManager.findServer_eq_none_iff]

/-- A report of a job keeps the invariant. -/
private theorem FailingInv.report {s : FailingState n V P} (hinv : FailingInv s) {job : Nat}
    {u : JobUpdate V IS} {server' : AutomationServer n (EPICSAnyValueManager V)}
    (h : s.server.report job u = some server') :
    FailingInv (⟨server', s.calls⟩ : FailingState n V P) := by
  unfold AutomationServer.report at h
  split at h
  · next localJob i io nInstr hjob hdata =>
    rcases jobData_eq_some hdata with ⟨same, hsame, hio, _⟩
    rw [hjob] at hsame
    cases hsame
    split at h
    · cases h
    · next io' manager hperform =>
      cases h
      have hframe := perform_frame hperform
      refine ⟨hinv.calls_le, ?_, hinv.added, ?_⟩
      · intro j other hj
        rcases hinv.jobs j other hj with ⟨old, hold, hpre⟩
        dsimp only
        rw [List.getElem?_set]
        split
        · next hposition =>
          -- both jobs refer to the `ServerJobInfoIO` that has changed
          rw [← hposition, hio] at hold
          cases hold
          refine ⟨io', ?_, hframe.1.trans hpre⟩
          rw [if_pos (List.getElem?_eq_some_iff.mp hio).1]
          rfl
        · exact ⟨old, hold, hpre⟩
      · intro c j kind hj hkind
        have hold := hinv.serves c j kind hj hkind
        have hserved : IsServed (⟨{ s.server with
            avMgrRegistry := Function.update s.server.avMgrRegistry i manager
            jobInfoIos := s.server.jobInfoIos.set localJob.jobInfoIo (i, io') }, s.calls⟩ :
              FailingState n V P) j kind ↔ s.IsServed j kind := Iff.rfl
        rw [hserved, ← hold]
        unfold Serves
        dsimp only
        rw [Function.update_apply]
        split
        · next hc => rw [hframe.2, hc]
        · rfl
  · cases h

/-- Everything that a step of the machine can do. -/
private theorem failingStep_cases {s t : FailingState n V P} {a : AutomationAction P V IS}
    (hstep : machine.step s a = some t) :
    (∃ proc exception server', a = .addJob proc ∧ s.server.addJob proc = (exception, server') ∧
      t = ⟨server', s.calls ++ [⟨s.server.jobs.length, proc, exception⟩]⟩) ∨
    (∃ job nInstr server', a = .initNumberOfInstructions job nInstr ∧
      s.server.initNumberOfInstructions job nInstr = some server' ∧ t = ⟨server', s.calls⟩) ∨
    ∃ job u server', a = .report job u ∧ s.server.report job u = some server' ∧
      t = ⟨server', s.calls⟩ := by
  cases a with
  | addJob proc =>
    cases hadd : s.server.addJob proc with
    | mk exception server' =>
    simp only [machine, hadd, Option.some.injEq] at hstep
    exact .inl ⟨proc, exception, server', rfl, hadd, hstep.symm⟩
  | initNumberOfInstructions job nInstr =>
    rcases Option.map_eq_some_iff.mp hstep with ⟨server', hserver', rfl⟩
    exact .inr (.inl ⟨job, nInstr, server', rfl, hserver', rfl⟩)
  | report job u =>
    rcases Option.map_eq_some_iff.mp hstep with ⟨server', hserver', rfl⟩
    exact .inr (.inr ⟨job, u, server', rfl, hserver', rfl⟩)

/-- Every step keeps the invariant, as long as the index of every call fits into 32 bits. -/
private theorem FailingInv.step {s t : FailingState n V P} {a : AutomationAction P V IS}
    (hinv : (∀ call ∈ s.calls, call.idx < 2 ^ 32) → FailingInv s)
    (hstep : machine.step s a = some t) (hfits : ∀ call ∈ t.calls, call.idx < 2 ^ 32) :
    FailingInv t := by
  rcases failingStep_cases hstep with ⟨proc, exception, server', rfl, hadd, rfl⟩ |
    ⟨job, nInstr, server', rfl, hserver', rfl⟩ | ⟨job, u, server', rfl, hserver', rfl⟩
  · have hfitsOld : ∀ call ∈ s.calls, call.idx < 2 ^ 32 :=
      fun call hcall ↦ hfits call (List.mem_append_left _ hcall)
    have hjobs : s.server.jobs.length < 2 ^ 32 :=
      hfits _ (List.mem_append_right _ (List.mem_singleton_self _))
    exact (hinv hfitsOld).addJob hjobs hadd
  · exact (hinv hfits).initNumberOfInstructions hfits hserver'
  · exact (hinv hfits).report hserver'

/-- The invariant holds in every state that is reached before an index wraps around. -/
private theorem failingInv_run {serverPrefix : String} {s : FailingState n V P}
    {acts : List (AutomationAction P V IS)}
    (hrun : machine.run (.start serverPrefix) acts = some s)
    (hfits : ∀ call ∈ s.calls, call.idx < 2 ^ 32) : FailingInv s := by
  have hall := @Machine.run_invariant _ (AutomationAction P V IS) machine
    (fun s : FailingState n V P ↦ (∀ call ∈ s.calls, call.idx < 2 ^ 32) → FailingInv s)
    (fun hinv hstep hfits ↦ FailingInv.step hinv hstep hfits)
    _ _ _ (fun _ ↦ failingInv_start serverPrefix) hrun
  exact hall hfits

/-- The calls of a run are those of its schedule, and they throw when the construction of the
`LocalJob` does. -/
private theorem calls_run {serverPrefix : String} {s : FailingState n V P}
    {acts : List (AutomationAction P V IS)}
    (hrun : machine.run (.start serverPrefix) acts = some s) :
    s.calls.map AddJobCall.proc = addedJobs acts ∧
      ∀ call ∈ s.calls, call.exception = none ↔ Procedure.localJob call.proc = .ok () := by
  refine @Machine.run_history_invariant _ (AutomationAction P V IS) machine
    (fun acts (s : FailingState n V P) ↦ s.calls.map AddJobCall.proc = addedJobs acts ∧
      ∀ call ∈ s.calls, call.exception = none ↔ Procedure.localJob call.proc = .ok ())
    ?_ (.start serverPrefix) _ _ ⟨rfl, nofun⟩ hrun
  intro acts r a t hinv hstep
  have hsplit : addedJobs (acts ++ [a]) = addedJobs acts ++ addedJobs [a] :=
    List.filterMap_append
  rw [hsplit]
  rcases failingStep_cases hstep with ⟨proc, exception, server', rfl, hadd, rfl⟩ |
    ⟨job, nInstr, server', rfl, -, rfl⟩ | ⟨job, u, server', rfl, -, rfl⟩
  · refine ⟨by simp [hinv.1, addedJobs], fun call hcall ↦ ?_⟩
    rcases List.mem_append.mp hcall with hold | hnew
    · exact hinv.2 call hold
    · rw [List.mem_singleton.mp hnew]
      obtain ⟨_, _, _, _, _, _, _, hadded⟩ := addJob_cases hadd
      rcases hadded with ⟨hnone, hlocal, _⟩ | ⟨hthrows, hlocal, _⟩
      · exact ⟨fun _ ↦ hlocal, fun _ ↦ hnone⟩
      · exact ⟨fun h ↦ absurd h hthrows, fun h ↦ absurd h hlocal⟩
  · exact ⟨by simp [hinv.1, addedJobs], hinv.2⟩
  · exact ⟨by simp [hinv.1, addedJobs], hinv.2⟩

/-- A call of `AddJob` that throws changes neither the number of jobs, nor the number of
`ServerJobInfoIO` objects, nor the names that the managers know. -/
def LeavesServer (s : FailingState n V P) (a : AutomationAction P V IS) : Prop :=
  ∀ proc e server', a = .addJob proc → s.server.addJob proc = (some e, server') →
    server'.jobs.length = s.server.jobs.length ∧
      server'.jobInfoIos.length = s.server.jobInfoIos.length ∧
      ∀ c name, (server'.avMgrRegistry c).findServer name ≠ none ↔
        (s.server.avMgrRegistry c).findServer name ≠ none

/-- Updates of a channel of a job are accepted, and queued at one server of its manager. -/
def Accepts (s : FailingState n V P) (j : Nat) (kind : ChannelKind) : Prop :=
  ∃ i, (s.server.avMgrRegistry (managerIndex n (UInt32.ofNat j))).QueuesAt i
    (publishedName s.server.serverPrefix (UInt32.ofNat j) kind)

/-- Updates of all values of the job that a call has added are accepted: those without an
index, its variables and the instructions that it has announced. -/
def JobComplete (s : FailingState n V P) (call : AddJobCall P) : Prop :=
  ∀ kind ∈ jobKinds (getNumberOfVariables call.proc)
      ((s.server.jobs[call.idx]?.bind LocalJob.nInstr).getD 0), s.Accepts call.idx kind

/-- The jobs that are added after a call that has thrown are complete. -/
def LaterJobsComplete (s : FailingState n V P) : Prop :=
  ∀ before threw after, s.calls = before ++ threw :: after → threw.exception ≠ none →
    ∀ call ∈ after, call.exception = none → s.JobComplete call

omit [OacTree V] [Procedure P] in
/-- Updates are accepted of exactly the names that are known. -/
private theorem accepts_iff (s : FailingState n V P) (j : Nat) (kind : ChannelKind) :
    s.Accepts j kind ↔ s.Serves (managerIndex n (UInt32.ofNat j)) j kind := by
  constructor
  · rintro ⟨i, hqueues⟩
    exact hqueues.findServer_ne_none
  · intro hserves
    obtain ⟨i, hi⟩ := Option.ne_none_iff_exists'.mp hserves
    exact ⟨i, EPICSAnyValueManager.queuesAt_of_findServer hi⟩

omit [OacTree V] in
/-- A job has all of its values exactly when the first call for its index had as many
variables. -/
private theorem FailingInv.jobComplete_iff {s : FailingState n V P} (hinv : FailingInv s)
    {call : AddJobCall P} (hfits : call.idx < 2 ^ 32) {first : AddJobCall P}
    (hfirst : s.firstCall call.idx = some first) :
    s.JobComplete call ↔ getNumberOfVariables call.proc ≤ getNumberOfVariables first.proc := by
  have hserves : ∀ kind, kind.isValue = true → (s.Accepts call.idx kind ↔
      s.IsServed call.idx kind) := by
    intro kind hkind
    rw [accepts_iff, hinv.serves _ _ kind hfits hkind]
    exact and_iff_right rfl
  constructor
  · intro hcomplete
    by_contra hlt
    rw [UInt32.not_le] at hlt
    -- the first variable beyond those of the first call
    have haccepts := hcomplete (.variableState (getNumberOfVariables first.proc))
      (mem_jobKinds.mpr hlt)
    rcases (hserves _ rfl).mp haccepts with
      ⟨call', hcall', hmem⟩ | ⟨localJob, nInstr, _, _, hmem⟩
    · rw [hfirst] at hcall'
      cases hcall'
      simp [initialKinds] at hmem
    · rcases List.mem_map.mp hmem with ⟨index, _, hindex⟩
      cases hindex
  · intro hle kind hkind
    have hvalue : kind.isValue = true := by
      rw [mem_jobKinds] at hkind
      cases kind <;> simp_all [ChannelKind.isValue]
    rw [hserves kind hvalue]
    rcases List.mem_append.mp hkind with hinitial | hinstr
    · refine Or.inl ⟨first, hfirst, ?_⟩
      have hmem : kind ∈ jobKinds (getNumberOfVariables call.proc) 0 :=
        List.mem_append_left _ hinitial
      have hmem' : kind ∈ jobKinds (getNumberOfVariables first.proc) 0 := by
        rw [mem_jobKinds] at hmem ⊢
        cases kind with
        | variableState index => exact UInt32.lt_of_lt_of_le hmem hle
        | _ => exact hmem
      rcases List.mem_append.mp hmem' with hmem' | hmem'
      · exact hmem'
      · exact absurd hinitial (notMem_initialKinds hmem')
    · -- only a job that has announced its instructions has any
      cases hjob : s.server.jobs[call.idx]? with
      | none => simp [hjob, instructionKinds, loopIndices] at hinstr
      | some localJob =>
        cases hcount : localJob.nInstr with
        | none => simp [hjob, hcount, instructionKinds, loopIndices] at hinstr
        | some nInstr =>
          refine Or.inr ⟨localJob, nInstr, hjob, hcount, ?_⟩
          simpa [hjob, hcount] using hinstr

/-- A call that throws adds a `ServerJobInfoIO`: where none is left behind, no call threw. -/
private theorem exception_eq_none_of_leaves {serverPrefix : String} {s : FailingState n V P}
    {acts : List (AutomationAction P V IS)}
    (hleaves : machine.EveryStep LeavesServer (.start serverPrefix : FailingState n V P) acts)
    (hrun : machine.run (.start serverPrefix) acts = some s) :
    ∀ call ∈ s.calls, call.exception = none := by
  refine @Machine.run_invariant_of_everyStep _ (AutomationAction P V IS) machine LeavesServer
    (fun s : FailingState n V P ↦ ∀ call ∈ s.calls, call.exception = none)
    ?_ (.start serverPrefix) _ _ nofun hleaves hrun
  intro r a t hinv hleave hstep
  rcases failingStep_cases hstep with ⟨proc, exception, server', rfl, hadd, rfl⟩ |
    ⟨job, nInstr, server', rfl, -, rfl⟩ | ⟨job, u, server', rfl, -, rfl⟩
  · intro call hcall
    cases List.mem_append.mp hcall with
    | inl hold => exact hinv call hold
    | inr hnew =>
      rw [List.mem_singleton.mp hnew]
      cases exception with
      | none => rfl
      | some e =>
        have hlength := (hleave proc e server' rfl hadd).2.1
        obtain ⟨_, _, _, _, _, _, hios, _⟩ := addJob_cases hadd
        rw [hios, List.length_append, List.length_singleton] at hlength
        omega
  · exact hinv
  · exact hinv

/-- Where every procedure can be started, no call throws and leaves anything behind. -/
private theorem leavesServer_of_returns {serverPrefix : String}
    {acts : List (AutomationAction P V IS)}
    (hreturns : ∀ proc ∈ addedJobs acts, Procedure.localJob proc = .ok ()) :
    machine.EveryStep LeavesServer (.start serverPrefix : FailingState n V P) acts := by
  apply Machine.everyStep_of_forall_prefix
  intro bs a cs r hacts _ proc e server' ha hadd
  subst ha
  have hmem : proc ∈ addedJobs acts := by simp [hacts, addedJobs]
  obtain ⟨_, _, _, _, _, _, _, hadded⟩ := addJob_cases hadd
  rcases hadded with ⟨hnone, _⟩ | ⟨_, hlocal, _⟩
  · cases hnone
  · exact absurd (hreturns proc hmem) hlocal

/-- Calls of `AddJob` that throw leave the server as it was, and the jobs added later
complete, exactly when no call throws: the `ServerJobInfoIO` of a call that throws stays. The
jobs that suffer are those with more variables than the first procedure that was tried for
their index. -/
theorem failing_addJob_leaves_server_iff {serverPrefix : String} {s : FailingState n V P}
    {acts : List (AutomationAction P V IS)}
    (hrun : machine.run (.start serverPrefix) acts = some s) :
    (machine.EveryStep LeavesServer (.start serverPrefix : FailingState n V P) acts ∧
        s.LaterJobsComplete ↔
      ∀ proc ∈ addedJobs acts, Procedure.localJob proc = .ok ()) ∧
    ((∀ call ∈ s.calls, call.idx < 2 ^ 32) →
      ∀ call ∈ s.calls, call.exception = none → ∃ first, s.firstCall call.idx = some first ∧
        (s.JobComplete call ↔
          getNumberOfVariables call.proc ≤ getNumberOfVariables first.proc)) := by
  obtain ⟨hprocs, hexceptions⟩ := calls_run hrun
  refine ⟨⟨?_, ?_⟩, ?_⟩
  · rintro ⟨hleaves, _⟩ proc hproc
    have hnone := exception_eq_none_of_leaves hleaves hrun
    rw [← hprocs] at hproc
    rcases List.mem_map.mp hproc with ⟨call, hcall, rfl⟩
    exact (hexceptions call hcall).mp (hnone call hcall)
  · intro hreturns
    constructor
    · exact leavesServer_of_returns hreturns
    · intro before threw after hcalls hthrew
      have hmem : threw ∈ s.calls := by simp [hcalls]
      have hproc : threw.proc ∈ addedJobs acts := by
        rw [← hprocs]
        exact List.mem_map_of_mem hmem
      exact absurd ((hexceptions threw hmem).mpr (hreturns _ hproc)) hthrew
  · intro hfits call hcall _
    have hinv := failingInv_run hrun hfits
    have hsome : (s.firstCall call.idx).isSome = true := by
      rw [firstCall, List.find?_isSome]
      exact ⟨call, hcall, by simp⟩
    rcases Option.isSome_iff_exists.mp hsome with ⟨first, hfirst⟩
    exact ⟨first, hfirst, hinv.jobComplete_iff (hfits call hcall) hfirst⟩

/-- Two jobs that can be constructed; and a procedure that fails, followed by one with fewer
variables, which gets all of its values from the `ServerJobInfoIO` that was left behind. -/
theorem failing_addJob_leaves_server_two_jobs :
    (∃ s : FailingState 0 DtoValue SetupProcedure, machine.run (.start "S")
        ([.addJob ⟨["x"], .ok ()⟩, .addJob ⟨[], .ok ()⟩] :
          List (AutomationAction SetupProcedure DtoValue (Bool × UInt32))) = some s ∧
      machine.EveryStep LeavesServer (.start "S" : FailingState 0 DtoValue SetupProcedure)
        ([.addJob ⟨["x"], .ok ()⟩, .addJob ⟨[], .ok ()⟩] :
          List (AutomationAction SetupProcedure DtoValue (Bool × UInt32))) ∧
      s.LaterJobsComplete) ∧
    ∃ s : FailingState 0 DtoValue SetupProcedure, machine.run (.start "S")
        ([.addJob ⟨["x", "y"], .error .oacTree⟩, .addJob ⟨["x"], .ok ()⟩] :
          List (AutomationAction SetupProcedure DtoValue (Bool × UInt32))) = some s ∧
      s.calls = [⟨0, ⟨["x", "y"], .error .oacTree⟩, some .oacTree⟩, ⟨0, ⟨["x"], .ok ()⟩, none⟩] ∧
      s.JobComplete ⟨0, ⟨["x"], .ok ()⟩, none⟩ := by
  constructor
  · obtain ⟨s, hs⟩ : ∃ s : FailingState 0 DtoValue SetupProcedure, machine.run (.start "S")
        ([.addJob ⟨["x"], .ok ()⟩, .addJob ⟨[], .ok ()⟩] :
          List (AutomationAction SetupProcedure DtoValue (Bool × UInt32))) = some s :=
      ⟨_, rfl⟩
    refine ⟨s, hs, (failing_addJob_leaves_server_iff hs).1.mpr ?_⟩
    intro proc hproc
    simp only [addedJobs, List.filterMap_cons, List.filterMap_nil, List.mem_cons,
      List.not_mem_nil, or_false] at hproc
    rcases hproc with rfl | rfl <;> rfl
  · obtain ⟨s, hs⟩ : ∃ s : FailingState 0 DtoValue SetupProcedure, machine.run (.start "S")
        ([.addJob ⟨["x", "y"], .error .oacTree⟩, .addJob ⟨["x"], .ok ()⟩] :
          List (AutomationAction SetupProcedure DtoValue (Bool × UInt32))) = some s :=
      ⟨_, rfl⟩
    have hcalls : s.calls = [⟨0, ⟨["x", "y"], .error .oacTree⟩, some .oacTree⟩,
        ⟨0, ⟨["x"], .ok ()⟩, none⟩] :=
      machine.observe_run (fun s ↦ s.calls) hs (by rfl)
    have hfits : ∀ call ∈ s.calls, call.idx < 2 ^ 32 := by simp [hcalls]
    obtain ⟨first, hfirst, hcomplete⟩ := (failing_addJob_leaves_server_iff hs).2 hfits
      ⟨0, ⟨["x"], .ok ()⟩, none⟩ (by simp [hcalls]) rfl
    have htried : s.firstCall 0 = some ⟨0, ⟨["x", "y"], .error .oacTree⟩, some .oacTree⟩ := by
      rw [firstCall, hcalls]
      rfl
    obtain rfl := Option.some.inj (htried.symm.trans hfirst)
    exact ⟨s, hs, hcalls, hcomplete.mpr (by decide)⟩

/-- A procedure that fails, and then one with a variable: there are two `ServerJobInfoIO`
objects for one job, and updates of its variable are refused. -/
theorem failing_addJob_spoils_next_job :
    ∃ s : FailingState 0 DtoValue SetupProcedure, machine.run (.start "S")
        ([.addJob ⟨[], .error .oacTree⟩, .addJob ⟨["x"], .ok ()⟩] :
          List (AutomationAction SetupProcedure DtoValue (Bool × UInt32))) = some s ∧
      s.server.jobs.length = 1 ∧ s.server.jobInfoIos.length = 2 ∧
      ¬ s.Serves 0 0 (.variableState 0) ∧ ¬ s.LaterJobsComplete ∧
      ¬ machine.EveryStep LeavesServer (.start "S" : FailingState 0 DtoValue SetupProcedure)
        ([.addJob ⟨[], .error .oacTree⟩, .addJob ⟨["x"], .ok ()⟩] :
          List (AutomationAction SetupProcedure DtoValue (Bool × UInt32))) := by
  obtain ⟨s, hs⟩ : ∃ s : FailingState 0 DtoValue SetupProcedure, machine.run (.start "S")
      ([.addJob ⟨[], .error .oacTree⟩, .addJob ⟨["x"], .ok ()⟩] :
        List (AutomationAction SetupProcedure DtoValue (Bool × UInt32))) = some s :=
    ⟨_, rfl⟩
  have hjobs : s.server.jobs.length = 1 :=
    machine.observe_run (fun s ↦ s.server.jobs.length) hs (by rfl)
  have hios : s.server.jobInfoIos.length = 2 :=
    machine.observe_run (fun s ↦ s.server.jobInfoIos.length) hs (by rfl)
  have hcalls : s.calls = [⟨0, ⟨[], .error .oacTree⟩, some .oacTree⟩,
      ⟨0, ⟨["x"], .ok ()⟩, none⟩] :=
    machine.observe_run (fun s ↦ s.calls) hs (by rfl)
  have hserver : s.server.serverPrefix = "S" :=
    machine.observe_run (fun s ↦ s.server.serverPrefix) hs (by rfl)
  have hfind : (s.server.avMgrRegistry 0).findServer "S:PROC-0:VAR-0" = none :=
    machine.observe_run (fun s ↦ (s.server.avMgrRegistry 0).findServer "S:PROC-0:VAR-0") hs
      (by decide +kernel)
  have hunknown : ¬ s.Serves 0 0 (.variableState 0) := by
    intro hserves
    rw [Serves, hserver] at hserves
    exact hserves hfind
  refine ⟨s, hs, hjobs, hios, hunknown, ?_, ?_⟩
  · intro hlater
    have hcomplete := hlater [] _ _ hcalls nofun _ (List.mem_singleton_self _) rfl
    have hvars : 0 < getNumberOfVariables (⟨["x"], .ok ()⟩ : SetupProcedure) := by decide
    have haccepts := hcomplete (.variableState 0) (mem_jobKinds.mpr hvars)
    exact hunknown ((accepts_iff s 0 _).mp haccepts)
  · rintro ⟨hleaves, _⟩
    have hlength := (hleaves _ _ _ rfl rfl).2.1
    cases hlength

end FailingState
end OacTreeServer.Server
