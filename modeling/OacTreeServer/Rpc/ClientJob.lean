import OacTreeServer.Client.AnyValueManager
import OacTreeServer.External.Reference
import OacTreeServer.Library.Outcome
import OacTreeServer.Rpc.ProtocolClient

/-!
# Jobs at the client, and what their calls can throw

`CreateClientJob` (`base/client_job.cpp:135`) asks a job manager for the data of a job and
returns an empty pointer when that throws an exception of the server's own library. Behind
it, `AutomationProtocolClient` is to turn every malformed answer into such an exception; two
conversions escape it.
-/

namespace OacTreeServer.Rpc
open OacTreeServer.External OacTreeServer.Library OacTreeServer.Protocol

/-- `ClientJobImpl`, without the references to its job manager and its consumer;
`client_job.cpp:33`. -/
structure ClientJob (Io JobInfo : Type) where
  jobIdx : UInt32
  anyvalueIo : Io
  jobInfo : JobInfo

section Definitions

variable {m : Type → Type} [Monad m] {V JobInfo Io : Type} [AnyValue V] [OacTree V]
  [JobInfoCodec V JobInfo] [IAnyValueManager Io V]

/-- The constructor of `ClientJobImpl`, with the object that the factory has made;
`client_job.cpp:151`. -/
def newClientJob (jobManager : IJobManager (ExceptT Exception m) JobInfo) (jobIdx : UInt32)
    (anyvalueIo : Io) : ExceptT Exception m (ClientJob Io JobInfo) := do
  let nJobs ← jobManager.getNumberOfJobs
  if jobIdx ≥ nJobs then
    throw (.invalidOperation ("ClientJob ctor: trying to create job with index [" ++
      jobIdx.toNat.repr ++ "] out of [" ++ nJobs.toNat.repr ++ "] jobs"))
  let serverPrefix ← jobManager.getServerPrefix
  let jobPrefix := createJobPrefix serverPrefix jobIdx
  let jobInfo ← jobManager.getJobInfo jobIdx
  let anyvalueIo ← initializeJobAndVariables anyvalueIo jobPrefix
    (JobInfoCodec.getNumberOfVariables V jobInfo)
  let anyvalueIo ← initializeInstructions anyvalueIo jobPrefix
    (JobInfoCodec.getNumberOfInstructions V jobInfo)
  return ⟨jobIdx, anyvalueIo, jobInfo⟩

/-- `CreateClientJob`; the `catch` is for the exceptions of the server's own library;
`client_job.cpp:135`. -/
def createClientJob (jobManager : IJobManager (ExceptT Exception m) JobInfo) (jobIdx : UInt32)
    (anyvalueIo : Io) : ExceptT Exception m (Option (ClientJob Io JobInfo)) := do
  try
    some <$> newClientJob jobManager jobIdx anyvalueIo
  catch
    | .invalidOperation _ => pure none
    | e => throw e

end Definitions

/-- The outcome of a call that throws `InvalidOperationException` or nothing. -/
def ThrowsInvalidOperation {α : Type} (outcome : Except Exception α) : Prop :=
  ThrowsOnly (fun e ↦ ∃ message, e = .invalidOperation message) outcome

/-- What is returned is no exception. -/
private theorem throwsInvalidOperation_ok {α : Type} (a : α) :
    ThrowsInvalidOperation (.ok a : Except Exception α) :=
  throwsOnly_ok a

/-- The right exception may be thrown. -/
private theorem throwsInvalidOperation_invalidOperation {α : Type} (message : String) :
    ThrowsInvalidOperation (.error (.invalidOperation message) : Except Exception α) :=
  (throwsOnly_error _).mpr ⟨message, rfl⟩

/-- No other exception may be thrown. -/
private theorem not_throwsInvalidOperation {α : Type} {e : Exception}
    (he : ∀ message, e ≠ .invalidOperation message) :
    ¬ ThrowsInvalidOperation (.error e : Except Exception α) := by
  intro h
  obtain ⟨message, heq⟩ := (throwsOnly_error e).mp h
  exact he message heq

section Conditions

variable {V JobInfo : Type} [AnyValue V] [SupProtocol V] [JobInfoCodec V JobInfo]

/-- An answer that is a success with this 64-bit number of jobs. -/
def AnswersNumberOfJobs (answer : ProtocolResult × V) (n : UInt64) : Prop :=
  answer.1 = SupProtocol.success V ∧ ∃ v,
    SupProtocol.functionProtocolExtract answer.2 kNumberOfJobsFieldName = some v ∧
    AnyValue.hasType v .unsignedInteger64 = true ∧ AnyValue.asUInt64 v = .ok n

/-- An answer that is a success with this server prefix. -/
def AnswersServerPrefix (answer : ProtocolResult × V) (serverPrefix : String) : Prop :=
  answer.1 = SupProtocol.success V ∧
    SupProtocol.functionProtocolExtractString answer.2 kServerPrefixFieldName = some serverPrefix

/-- The number of jobs in an answer, if any, fits into 32 bits. -/
def NumberFits (answer : ProtocolResult × V) : Prop :=
  ∀ n, AnswersNumberOfJobs answer n → n.toNat < UInt32.size

/-- The job information in an answer, if any, is well formed. -/
def JobInfoWellFormed (answer : ProtocolResult × V) : Prop :=
  answer.1 = SupProtocol.success V → ∀ v,
    SupProtocol.functionProtocolExtract answer.2 kJobInfoFieldName = some v →
    ∃ jobInfo : JobInfo, JobInfoCodec.toJobInfo v = .ok jobInfo

/-- The answers of a protocol to the calls of `CreateClientJob`, as far as they are made, are
well formed. -/
def ClientJobAnswersWellFormed {S : Type} (infoProtocol : Protocol (StateM S) V)
    (jobIdx : UInt32) (s : S) : Prop :=
  let call (input : V) := (infoProtocol.invoke input AnyValue.empty).run
  let number := call (SupProtocol.functionProtocolInput kGetNumberOfJobsFunctionName) s
  NumberFits number.1 ∧ ∀ n, AnswersNumberOfJobs number.1 n → jobIdx.toNat < n.toNat →
    let serverPrefix :=
      call (SupProtocol.functionProtocolInput kGetServerPrefixFunctionName) number.2
    ∀ text, AnswersServerPrefix serverPrefix.1 text →
      JobInfoWellFormed (call (AutomationProtocolClient.getJobInfoInput V jobIdx)
        serverPrefix.2).1

end Conditions

namespace AutomationProtocolClient

section Answers

variable {V JobInfo : Type} [AnyValue V] [SupProtocol V] [JobInfoCodec V JobInfo]

omit [AnyValue V] [JobInfoCodec V JobInfo] in
/-- An answer that is no success makes every method throw the right exception. -/
private theorem checkedOutput_cases (method : String) (answer : ProtocolResult × V) :
    (answer.1 = SupProtocol.success V ∧ checkedOutput method answer = .ok answer.2) ∨
      (answer.1 ≠ SupProtocol.success V ∧
        ∃ message, checkedOutput method answer = .error (.invalidOperation message)) := by
  by_cases hsuccess : answer.1 = SupProtocol.success V
  · exact .inl ⟨hsuccess, if_neg (not_not.mpr hsuccess)⟩
  · exact .inr ⟨hsuccess, _, if_pos hsuccess⟩

omit [AnyValue V] [JobInfoCodec V JobInfo] in
/-- `GetServerPrefix` returns the prefix in an answer, or throws the right exception. -/
private theorem serverPrefixOf_cases (answer : ProtocolResult × V) :
    (∃ serverPrefix, AnswersServerPrefix answer serverPrefix ∧
      serverPrefixOf answer = .ok serverPrefix) ∨
    ((∀ serverPrefix, ¬ AnswersServerPrefix answer serverPrefix) ∧
      ∃ message, serverPrefixOf answer = .error (.invalidOperation message)) := by
  rw [serverPrefixOf]
  cases checkedOutput_cases "GetServerPrefix" answer with
  | inl hok =>
    rw [hok.2]
    simp only [bind, Except.bind]
    cases hextract : SupProtocol.functionProtocolExtractString answer.2 kServerPrefixFieldName with
    | none =>
      refine .inr ⟨fun serverPrefix h ↦ ?_, _, rfl⟩
      cases hextract.symm.trans h.2
    | some result => exact .inl ⟨result, ⟨hok.1, hextract⟩, rfl⟩
  | inr he =>
    obtain ⟨hne, message, he⟩ := he
    rw [he]
    exact .inr ⟨fun serverPrefix h ↦ hne h.1, message, rfl⟩

/-- `GetNumberOfJobs` converts the number in an answer, or throws the right exception. -/
private theorem numberOfJobsOf_cases [LawfulAnyValue V] [AnyValueConversion V]
    [LawfulAnyValueConversion V] (answer : ProtocolResult × V) :
    (∃ n, AnswersNumberOfJobs answer n ∧
      numberOfJobsOf answer = if n.toNat < UInt32.size then .ok n.toUInt32 else .error .dto) ∨
    ((∀ n, ¬ AnswersNumberOfJobs answer n) ∧
      ∃ message, numberOfJobsOf answer = .error (.invalidOperation message)) := by
  rw [numberOfJobsOf]
  cases checkedOutput_cases "GetNumberOfJobs" answer with
  | inl hok =>
    rw [hok.2]
    simp only [bind, Except.bind]
    cases hextract : SupProtocol.functionProtocolExtract answer.2 kNumberOfJobsFieldName with
    | none =>
      refine .inr ⟨fun n h ↦ ?_, _, rfl⟩
      obtain ⟨-, v, hv, -⟩ := h
      cases hextract.symm.trans hv
    | some v =>
      cases htype : AnyValue.hasType v .unsignedInteger64 with
      | false =>
        refine .inr ⟨fun n h ↦ ?_, _, by simp only [htype]; rfl⟩
        obtain ⟨-, w, hw, hwtype, -⟩ := h
        cases hextract.symm.trans hw
        rw [htype] at hwtype
        cases hwtype
      | true =>
        obtain ⟨n, hn⟩ := LawfulAnyValue.asUInt64_of_hasType v htype
        refine .inl ⟨n, ⟨hok.1, v, hextract, htype, hn⟩, ?_⟩
        simp only [htype]
        by_cases hfits : n.toNat < UInt32.size
        · rw [if_pos hfits]
          exact LawfulAnyValueConversion.asUInt32_of_lt v n htype hn hfits
        · rw [if_neg hfits]
          exact LawfulAnyValueConversion.asUInt32_of_le v n htype hn (Nat.not_lt.mp hfits)
  | inr he =>
    obtain ⟨hne, message, he⟩ := he
    rw [he]
    exact .inr ⟨fun n h ↦ hne h.1, message, rfl⟩

omit [JobInfoCodec V JobInfo] in
/-- An answer has one number of jobs. -/
private theorem answersNumberOfJobs_unique {answer : ProtocolResult × V} {n k : UInt64}
    (hn : AnswersNumberOfJobs answer n) (hk : AnswersNumberOfJobs answer k) : n = k := by
  obtain ⟨-, v, hv, -, hvn⟩ := hn
  obtain ⟨-, w, hw, -, hwk⟩ := hk
  cases hv.symm.trans hw
  cases hvn.symm.trans hwk
  rfl

/-- `GetNumberOfJobs` throws something else exactly on numbers that do not fit. -/
private theorem throwsInvalidOperation_numberOfJobsOf [LawfulAnyValue V] [AnyValueConversion V]
    [LawfulAnyValueConversion V] (answer : ProtocolResult × V) :
    ThrowsInvalidOperation (numberOfJobsOf answer) ↔ NumberFits answer := by
  cases numberOfJobsOf_cases answer with
  | inl hanswer =>
    obtain ⟨n, hn, heq⟩ := hanswer
    rw [heq]
    by_cases hfits : n.toNat < UInt32.size
    · rw [if_pos hfits]
      constructor
      · intro _ k hk
        rw [← answersNumberOfJobs_unique hn hk]
        exact hfits
      · intro _
        exact throwsInvalidOperation_ok _
    · rw [if_neg hfits]
      constructor
      · intro h
        exact absurd h (not_throwsInvalidOperation nofun)
      · intro h
        exact absurd (h n hn) hfits
  | inr hnone =>
    obtain ⟨hno, message, heq⟩ := hnone
    rw [heq]
    constructor
    · intro _ n hn
      exact absurd hn (hno n)
    · intro _
      exact throwsInvalidOperation_invalidOperation message

/-- Numbers that fit are returned. -/
private theorem numberOfJobsOf_eq_ok [LawfulAnyValue V] [AnyValueConversion V]
    [LawfulAnyValueConversion V] {answer : ProtocolResult × V} (hfits : NumberFits answer)
    (nJobs : UInt32) :
    numberOfJobsOf answer = .ok nJobs ↔
      ∃ n, AnswersNumberOfJobs answer n ∧ n.toUInt32 = nJobs := by
  cases numberOfJobsOf_cases answer with
  | inl hanswer =>
    obtain ⟨n, hn, heq⟩ := hanswer
    rw [heq, if_pos (hfits n hn)]
    constructor
    · intro h
      cases h
      exact ⟨n, hn, rfl⟩
    · intro h
      obtain ⟨k, hk, rfl⟩ := h
      rw [answersNumberOfJobs_unique hn hk]
  | inr hnone =>
    obtain ⟨hno, message, heq⟩ := hnone
    rw [heq]
    constructor
    · intro h
      cases h
    · intro h
      obtain ⟨n, hn, -⟩ := h
      exact absurd hn (hno n)

omit [AnyValue V] [JobInfoCodec V JobInfo] in
/-- `GetServerPrefix` throws nothing else. -/
private theorem throwsInvalidOperation_serverPrefixOf (answer : ProtocolResult × V) :
    ThrowsInvalidOperation (serverPrefixOf answer) := by
  cases serverPrefixOf_cases answer with
  | inl hanswer =>
    obtain ⟨serverPrefix, -, heq⟩ := hanswer
    rw [heq]
    exact throwsInvalidOperation_ok serverPrefix
  | inr hnone =>
    obtain ⟨-, message, heq⟩ := hnone
    rw [heq]
    exact throwsInvalidOperation_invalidOperation message

omit [AnyValue V] [JobInfoCodec V JobInfo] in
/-- The prefix in an answer is returned. -/
private theorem serverPrefixOf_eq_ok (answer : ProtocolResult × V) (serverPrefix : String) :
    serverPrefixOf answer = .ok serverPrefix ↔ AnswersServerPrefix answer serverPrefix := by
  cases serverPrefixOf_cases answer with
  | inl hanswer =>
    obtain ⟨text, htext, heq⟩ := hanswer
    rw [heq]
    constructor
    · intro h
      cases h
      exact htext
    · intro h
      cases htext.2.symm.trans h.2
      rfl
  | inr hnone =>
    obtain ⟨hno, message, heq⟩ := hnone
    rw [heq]
    constructor
    · intro h
      cases h
    · intro h
      exact absurd h (hno serverPrefix)

omit [AnyValue V] in
/-- `GetJobInfo` throws something else exactly on malformed job information. -/
private theorem throwsInvalidOperation_jobInfoOf [LawfulJobInfoCodec V]
    (answer : ProtocolResult × V) :
    ThrowsInvalidOperation (jobInfoOf answer : Except Exception JobInfo) ↔
      JobInfoWellFormed answer := by
  rw [jobInfoOf]
  cases checkedOutput_cases "GetJobInfo" answer with
  | inl hok =>
    rw [hok.2]
    simp only [bind, Except.bind]
    cases hextract : SupProtocol.functionProtocolExtract answer.2 kJobInfoFieldName with
    | none =>
      constructor
      · intro _ _ v hv
        cases hextract.symm.trans hv
      · intro _
        exact throwsInvalidOperation_invalidOperation _
    | some v =>
      cases hparse : (JobInfoCodec.toJobInfo v : Except Exception JobInfo) with
      | ok jobInfo =>
        constructor
        · intro _ _ w hw
          cases hextract.symm.trans hw
          exact ⟨jobInfo, hparse⟩
        · intro _
          simp only [hparse]
          exact throwsInvalidOperation_ok jobInfo
      | error e =>
        have hkind := LawfulJobInfoCodec.toJobInfo_error v e hparse
        subst hkind
        constructor
        · intro h
          simp only [hparse] at h
          exact absurd h (not_throwsInvalidOperation nofun)
        · intro h
          obtain ⟨jobInfo, hjobInfo⟩ := h hok.1 v hextract
          cases hparse.symm.trans hjobInfo
  | inr he =>
    obtain ⟨hne, message, he⟩ := he
    rw [he]
    constructor
    · intro _ hsuccess
      exact absurd hsuccess hne
    · intro _
      exact throwsInvalidOperation_invalidOperation message

omit [AnyValue V] [JobInfoCodec V JobInfo] in
/-- `EditBreakpoint` and `SendJobCommand` only look at the result. -/
private theorem throwsInvalidOperation_checkedOutput (method : String)
    (answer : ProtocolResult × V) :
    ThrowsInvalidOperation (do let _ ← checkedOutput method answer : Except Exception Unit) := by
  cases checkedOutput_cases method answer with
  | inl hok =>
    rw [hok.2]
    exact throwsInvalidOperation_ok ()
  | inr herror =>
    obtain ⟨-, message, herror⟩ := herror
    rw [herror]
    exact throwsInvalidOperation_invalidOperation message

end Answers

end AutomationProtocolClient

section Calls

variable {S α β V : Type}

/-- The outcome of a method that looks at one answer. -/
private theorem outcome_answer (invoke : StateM S (ProtocolResult × V))
    (f : ProtocolResult × V → Except Exception α) (s : S) :
    outcome (do let answer ← invoke; f answer : ExceptT Exception (StateM S) α) s =
      f (invoke.run s).1 := by
  rw [outcome, AutomationProtocolClient.run_answer]
  rfl

/-- A method that looks at one answer, before other calls. -/
private theorem throwsInvalidOperation_answer_bind (invoke : StateM S (ProtocolResult × V))
    (f : ProtocolResult × V → Except Exception α) (next : α → ExceptT Exception (StateM S) β)
    (s : S) :
    ThrowsInvalidOperation (outcome ((do let answer ← invoke; f answer :
        ExceptT Exception (StateM S) α) >>= next) s) ↔
      ThrowsInvalidOperation (f (invoke.run s).1) ∧
        ∀ a, f (invoke.run s).1 = .ok a →
          ThrowsInvalidOperation (outcome (next a) (invoke.run s).2) := by
  have hafter : after (do let answer ← invoke; f answer : ExceptT Exception (StateM S) α) s =
      (invoke.run s).2 := by
    rw [after, AutomationProtocolClient.run_answer]
    rfl
  rw [ThrowsInvalidOperation, throwsOnly_bind, outcome_answer, hafter]
  rfl

end Calls

section Construction

variable {S V JobInfo Io : Type} [AnyValue V] [OacTree V] [JobInfoCodec V JobInfo]
  [IAnyValueManager Io V]

/-- The part of the constructor behind the calls of the job manager. -/
private theorem throwsInvalidOperation_initialize
    (hadd : ∀ (io : Io) (set : NameAnyValueSet V), ∃ added io',
      IAnyValueManager.addAnyValues io set = .ok (added, io'))
    (hhandle : ∀ (io : Io) (name : String), ∃ handled io',
      IAnyValueManager.addInputHandler (V := V) io name = .ok (handled, io'))
    (jobIdx : UInt32) (io : Io) (jobPrefix : String) (jobInfo : JobInfo) (s : S) :
    ThrowsInvalidOperation (outcome (do
      let io ← initializeJobAndVariables io jobPrefix
        (JobInfoCodec.getNumberOfVariables V jobInfo)
      let io ← initializeInstructions io jobPrefix
        (JobInfoCodec.getNumberOfInstructions V jobInfo)
      return ⟨jobIdx, io, jobInfo⟩ : ExceptT Exception (StateM S) (ClientJob Io JobInfo)) s) := by
  obtain ⟨added, io₁, hadded⟩ := hadd io
    (getInitialValueSet jobPrefix (JobInfoCodec.getNumberOfVariables V jobInfo))
  obtain ⟨handled, io₂, hhandled⟩ := hhandle io₁ (getInputServerName jobPrefix)
  obtain ⟨added', io₃, hadded'⟩ := hadd io₂
    (getInstructionValueSet jobPrefix (JobInfoCodec.getNumberOfInstructions V jobInfo))
  rw [initializeJobAndVariables_ok hadded hhandled, outcome_bind]
  change ThrowsInvalidOperation (outcome (do
    let io ← initializeInstructions io₂ jobPrefix _
    return (⟨jobIdx, io, jobInfo⟩ : ClientJob Io JobInfo)) s)
  rw [initializeInstructions_ok hadded']
  exact throwsInvalidOperation_ok _

/-- `CreateClientJob` returns exactly when the constructor throws nothing else. -/
private theorem createClientJob_returns_iff
    (jobManager : IJobManager (ExceptT Exception (StateM S)) JobInfo) (jobIdx : UInt32) (io : Io)
    (s : S) :
    (∃ result, outcome (createClientJob jobManager jobIdx io) s = .ok result ∧
        (result.isSome ↔ ∃ job, outcome (newClientJob jobManager jobIdx io) s = .ok job)) ↔
      ThrowsInvalidOperation (outcome (newClientJob jobManager jobIdx io) s) := by
  rw [createClientJob, outcome_tryCatch, map_eq_pure_bind, outcome_bind]
  cases outcome (newClientJob jobManager jobIdx io) s with
  | ok job =>
    constructor
    · intro _
      exact throwsInvalidOperation_ok job
    · intro _
      exact ⟨some job, rfl, ⟨fun _ ↦ ⟨job, rfl⟩, fun _ ↦ rfl⟩⟩
  | error e =>
    constructor
    · intro h
      obtain ⟨result, hresult, -⟩ := h
      cases e with
      | invalidOperation message => exact throwsInvalidOperation_invalidOperation message
      | _ => cases hresult
    · intro h
      obtain ⟨message, hmessage⟩ := (throwsOnly_error e).mp h
      subst hmessage
      refine ⟨none, rfl, ?_⟩
      constructor
      · intro hsome
        cases hsome
      · intro hjob
        obtain ⟨job, hjob⟩ := hjob
        cases hjob

end Construction

section Composed

variable {S V JobInfo Io : Type} [AnyValue V] [OacTree V] [SupProtocol V] [JobInfoCodec V JobInfo]
  [IAnyValueManager Io V]

/-- Over the client of two protocols, the constructor throws nothing else exactly when the answers
to its calls are well formed. -/
private theorem throwsInvalidOperation_newClientJob [LawfulAnyValue V] [AnyValueConversion V]
    [LawfulAnyValueConversion V] [LawfulJobInfoCodec V]
    (hadd : ∀ (io : Io) (set : NameAnyValueSet V), ∃ added io',
      IAnyValueManager.addAnyValues io set = .ok (added, io'))
    (hhandle : ∀ (io : Io) (name : String), ∃ handled io',
      IAnyValueManager.addInputHandler (V := V) io name = .ok (handled, io'))
    (infoProtocol controlProtocol : Protocol (StateM S) V) (jobIdx : UInt32) (io : Io) (s : S) :
    ThrowsInvalidOperation (outcome (newClientJob
        (automationProtocolClient infoProtocol controlProtocol) jobIdx io) s) ↔
      ClientJobAnswersWellFormed infoProtocol jobIdx s := by
  rw [newClientJob]
  change ThrowsInvalidOperation
    (outcome (AutomationProtocolClient.getNumberOfJobs infoProtocol >>= _) s) ↔ _
  rw [AutomationProtocolClient.getNumberOfJobs, throwsInvalidOperation_answer_bind,
    AutomationProtocolClient.throwsInvalidOperation_numberOfJobsOf]
  apply and_congr_right
  intro hfits
  simp only [AutomationProtocolClient.numberOfJobsOf_eq_ok hfits, forall_exists_index, and_imp,
    forall_apply_eq_imp_iff₂]
  apply forall_congr'
  intro n
  apply imp_congr_right
  intro hn
  have hindex : ¬ jobIdx ≥ n.toUInt32 ↔ jobIdx.toNat < n.toNat := by
    rw [ge_iff_le, UInt32.not_le, UInt32.lt_iff_toNat_lt, UInt64.toNat_toUInt32,
      Nat.mod_eq_of_lt (hfits n hn)]
  rw [ThrowsInvalidOperation, throwsOnly_guard _ ⟨_, rfl⟩, hindex]
  apply imp_congr_right
  intro _
  change ThrowsInvalidOperation
    (outcome (AutomationProtocolClient.getServerPrefix infoProtocol >>= _) _) ↔ _
  rw [AutomationProtocolClient.getServerPrefix, throwsInvalidOperation_answer_bind,
    and_iff_right (AutomationProtocolClient.throwsInvalidOperation_serverPrefixOf _)]
  simp only [AutomationProtocolClient.serverPrefixOf_eq_ok]
  apply forall_congr'
  intro text
  apply imp_congr_right
  intro _
  change ThrowsInvalidOperation
    (outcome (AutomationProtocolClient.getJobInfo infoProtocol jobIdx >>= _) _) ↔ _
  rw [AutomationProtocolClient.getJobInfo, throwsInvalidOperation_answer_bind,
    AutomationProtocolClient.throwsInvalidOperation_jobInfoOf, and_iff_left]
  intro jobInfo _
  exact throwsInvalidOperation_initialize hadd hhandle jobIdx io _ jobInfo _

/-- The client throws nothing but `InvalidOperationException` exactly on answers with a number of
jobs that fits into 32 bits and with well-formed job information; `CreateClientJob`, whose factory
and consumer do not throw, returns exactly then. -/
theorem client_throws_invalidOperation_iff [LawfulAnyValue V] [AnyValueConversion V]
    [LawfulAnyValueConversion V] [LawfulJobInfoCodec V]
    (hadd : ∀ (io : Io) (set : NameAnyValueSet V), ∃ added io',
      IAnyValueManager.addAnyValues io set = .ok (added, io'))
    (hhandle : ∀ (io : Io) (name : String), ∃ handled io',
      IAnyValueManager.addInputHandler (V := V) io name = .ok (handled, io'))
    (infoProtocol controlProtocol : Protocol (StateM S) V) (s : S) :
    let client := automationProtocolClient infoProtocol controlProtocol
    let answer (input : V) := ((infoProtocol.invoke input AnyValue.empty).run s).1
    ThrowsInvalidOperation (outcome client.getServerPrefix s) ∧
    (∀ jobIdx instrIdx active,
      ThrowsInvalidOperation (outcome (client.editBreakpoint jobIdx instrIdx active) s)) ∧
    (∀ jobIdx command,
      ThrowsInvalidOperation (outcome (client.sendJobCommand jobIdx command) s)) ∧
    (ThrowsInvalidOperation (outcome client.getNumberOfJobs s) ↔
      NumberFits (answer (SupProtocol.functionProtocolInput kGetNumberOfJobsFunctionName))) ∧
    (∀ jobIdx, ThrowsInvalidOperation (outcome (client.getJobInfo jobIdx) s) ↔
      JobInfoWellFormed (answer (AutomationProtocolClient.getJobInfoInput V jobIdx))) ∧
    ∀ jobIdx (io : Io),
      (∃ result, outcome (createClientJob client jobIdx io) s = .ok result ∧
          (result.isSome ↔ ∃ job, outcome (newClientJob client jobIdx io) s = .ok job)) ↔
        ClientJobAnswersWellFormed infoProtocol jobIdx s := by
  refine ⟨?_, fun jobIdx instrIdx active ↦ ?_, fun jobIdx command ↦ ?_, ?_, fun jobIdx ↦ ?_,
    fun jobIdx io ↦ ?_⟩
  · change ThrowsInvalidOperation (outcome (AutomationProtocolClient.getServerPrefix _) s)
    rw [AutomationProtocolClient.getServerPrefix, outcome_answer]
    exact AutomationProtocolClient.throwsInvalidOperation_serverPrefixOf _
  · change ThrowsInvalidOperation (outcome (AutomationProtocolClient.editBreakpoint ..) s)
    rw [AutomationProtocolClient.editBreakpoint, outcome_answer]
    exact AutomationProtocolClient.throwsInvalidOperation_checkedOutput "EditBreakpoint" _
  · change ThrowsInvalidOperation (outcome (AutomationProtocolClient.sendJobCommand ..) s)
    rw [AutomationProtocolClient.sendJobCommand, outcome_answer]
    exact AutomationProtocolClient.throwsInvalidOperation_checkedOutput "SendJobCommand" _
  · change ThrowsInvalidOperation (outcome (AutomationProtocolClient.getNumberOfJobs _) s) ↔ _
    rw [AutomationProtocolClient.getNumberOfJobs, outcome_answer]
    exact AutomationProtocolClient.throwsInvalidOperation_numberOfJobsOf _
  · change ThrowsInvalidOperation (outcome (AutomationProtocolClient.getJobInfo ..) s) ↔ _
    rw [AutomationProtocolClient.getJobInfo, outcome_answer]
    exact AutomationProtocolClient.throwsInvalidOperation_jobInfoOf _
  · rw [createClientJob_returns_iff]
    exact throwsInvalidOperation_newClientJob hadd hhandle infoProtocol controlProtocol jobIdx io s

end Composed

/-- A protocol that answers every call with a number of jobs, the prefix `S` and this job
information. -/
private def answering (nJobs : UInt64) (jobInfo : DtoValue) : Protocol (StateM Unit) DtoValue :=
  ⟨fun _ _ ↦ pure (SupProtocol.success DtoValue, .struct "" [("number_of_jobs", .uint64 nJobs),
    ("server_prefix", .string "S"), ("job_info", jobInfo)])⟩

/-- The client of this protocol. -/
private def clientOfAnswers (nJobs : UInt64) (jobInfo : DtoValue) :
    IJobManager (ExceptT Exception (StateM Unit)) SampleJobInfo :=
  automationProtocolClient (answering nJobs jobInfo) (answering nJobs jobInfo)

/-- The manager of the values of a new job, which never throws. -/
private abbrev SampleIo := Client.ClientAnyValueManager DtoValue (Bool × UInt32)

/-- A number of jobs from `2 ^ 32` on, or malformed job information, ends `CreateClientJob` with an
exception that it does not catch. -/
theorem client_throws_other_exceptions :
    outcome (clientOfAnswers 4294967296 .empty).getNumberOfJobs () = .error .dto ∧
    outcome (createClientJob (clientOfAnswers 4294967296 .empty) 0
      (Client.ClientAnyValueManager.new : SampleIo)) () = .error .dto ∧
    outcome ((clientOfAnswers 1 .empty).getJobInfo 0) () = .error .oacTree ∧
    outcome (createClientJob (clientOfAnswers 1 .empty) 0
      (Client.ClientAnyValueManager.new : SampleIo)) () = .error .oacTree :=
  ⟨rfl, rfl, rfl, rfl⟩

/-- The job information of a job of one variable and two instructions. -/
private def sampleJobInfoValue : DtoValue :=
  .struct "" [("n_vars", .uint32 1), ("n_instr", .uint32 2)]

/-- With one job and well-formed information about it, no call throws anything else. -/
theorem client_throws_invalidOperation_one_job :
    ThrowsInvalidOperation (outcome (clientOfAnswers 1 sampleJobInfoValue).getNumberOfJobs ()) ∧
    ThrowsInvalidOperation (outcome ((clientOfAnswers 1 sampleJobInfoValue).getJobInfo 0) ()) ∧
    ∃ result, outcome (createClientJob (clientOfAnswers 1 sampleJobInfoValue) 0
      (Client.ClientAnyValueManager.new : SampleIo)) () = .ok result := by
  have hnumber (input : DtoValue) : NumberFits
      (((answering 1 sampleJobInfoValue).invoke input AnyValue.empty).run ()).1 := by
    intro n hn
    obtain ⟨-, v, hv, -, hvn⟩ := hn
    cases hv
    cases hvn
    decide
  have hinfo (input : DtoValue) : JobInfoWellFormed
      (((answering 1 sampleJobInfoValue).invoke input AnyValue.empty).run ()).1 := by
    intro _ v hv
    cases hv
    exact ⟨⟨1, 2⟩, rfl⟩
  obtain ⟨-, -, -, hgetNumber, hgetInfo, hcreate⟩ :=
    client_throws_invalidOperation_iff (fun (manager : SampleIo) set ↦ manager.addAnyValues_ok set)
      (fun manager _ ↦ ⟨true, manager, rfl⟩) (answering 1 sampleJobInfoValue)
      (answering 1 sampleJobInfoValue) ()
  obtain ⟨result, hresult, -⟩ := (hcreate 0 Client.ClientAnyValueManager.new).mpr
    ⟨hnumber _, fun _ _ _ _ _ ↦ hinfo _⟩
  exact ⟨hgetNumber.mpr (hnumber _), (hgetInfo 0).mpr (hinfo _), result, hresult⟩

end OacTreeServer.Rpc
