import OacTreeServer.Publication.Channels

/-!
# What the published values stand for

Every value that is published stands for the report that it was published for, unless the report
is about a variable without a value, and its channel is that of the job and the kind of the
report. The values that the channels have at first stand for initial reports.
-/

namespace OacTreeServer.Publication
open OacTreeServer.Client OacTreeServer.Epics OacTreeServer.External OacTreeServer.Input
  OacTreeServer.Job OacTreeServer.Library OacTreeServer.Protocol OacTreeServer.Server

section Definitions

variable {V IS : Type}

/-- The kind of channel that a report is published on. -/
def reportKind : JobUpdate V IS → Option ChannelKind
  | .instructionStateUpdated instrIdx _ => some (.instructionState instrIdx)
  | .breakpointInstructionUpdated _ => some .breakpointInstruction
  | .variableUpdated varIdx _ _ => some (.variableState varIdx)
  | .jobStateUpdated _ => some .jobState
  | .putValue _ _ => some .outputValueEntry
  | .message _ => some .messageEntry
  | .log _ _ => some .logEntry
  | .procedureTicked => none

/-- The reports of a job that were published on a kind of channel. -/
def reportsOn (published : List (PublishedReport V IS)) (job : Nat) (kind : ChannelKind) :
    List (JobUpdate V IS) :=
  published.filterMap fun report ↦
    if report.job = job ∧ reportKind report.update = some kind then some report.update else none

/-- The reports of a kind that the consumer of a client has received. -/
def receivedOn (kind : ChannelKind) (calls : List (JobInfoCall V IS)) : List (JobUpdate V IS) :=
  (receivedUpdates calls).filter fun u ↦ reportKind u = some kind

variable [AnyValue V]

/-- What can be seen of a report. -/
def shownReport (u : JobUpdate V IS) : Option (JobUpdate V IS) :=
  if carriesValue u then some u else none

variable [OacTree V]

/-- The value that a channel of a job has at first; `i_anyvalue_io.cpp:49`. -/
def initialValue : ChannelKind → V
  | .jobState => getJobStateValue (OacTree.kInitial V)
  | .breakpointInstruction => getBreakpointInstructionValue (OacTree.kInvalidInstructionIndex V)
  | .logEntry => kLogEntryAnyValue V
  | .messageEntry => kMessageEntryAnyValue V
  | .outputValueEntry => kOutputValueEntryAnyValue V
  | .variableState _ => kVariableAnyValue V
  | .instructionState _ => OacTree.kInstructionStateAnyValue
  | .inputServer => kInputRequestAnyValue V
  | .inputRequest => kInputRequestAnyValue V

/-- What can be seen of a channel of a job at first. -/
def initialReport [InstructionStateCodec V IS] (kind : ChannelKind) : Option (JobUpdate V IS) :=
  decodedUpdate kind.valueNameInfo (initialValue kind)

/-- A published value with the report it stands for. -/
def Genuine [InstructionStateCodec V IS] [Base64VariableCodec V] (serverPrefix : String)
    (report : PublishedReport V IS) : Prop :=
  ∃ kind, reportKind report.update = some kind ∧
    report.channel = publishedName serverPrefix (UInt32.ofNat report.job) kind ∧
    EPICSIOClient.decodedReport kind report.value = shownReport report.update

end Definitions

/-- The prefix of a job is not empty. -/
theorem createJobPrefix_ne_empty (serverPrefix : String) (idx : UInt32) :
    createJobPrefix serverPrefix idx ≠ "" := by
  unfold createJobPrefix
  simp

section Kinds

variable {V IS : Type} [AnyValue V] [OacTree V] [InstructionStateCodec V IS]

/-- A report is published on its kind of channel. -/
theorem reportKind_publication {io : ServerJobInfoIo} {u : JobUpdate V IS} {kind : ChannelKind}
    {value : V} (h : io.publication u = some (kind, value)) : reportKind u = some kind := by
  cases u with
  | procedureTicked => cases h
  | _ =>
    cases h
    rfl

/-- A value stands for a report of the kind of its channel. -/
theorem reportKind_decoded {kind : ChannelKind} {anyvalue : V} {u : JobUpdate V IS}
    (h : decodedUpdate kind.valueNameInfo anyvalue = some u) : reportKind u = some kind := by
  cases kind with
  | inputServer => cases h
  | inputRequest => cases h
  | _ =>
    obtain ⟨r, -, rfl⟩ := Option.map_eq_some_iff.mp h
    rfl

omit [AnyValue V] [OacTree V] [InstructionStateCodec V IS] in
/-- The reports of a kind among more calls. -/
theorem receivedOn_append (kind : ChannelKind) (calls more : List (JobInfoCall V IS)) :
    receivedOn kind (calls ++ more) = receivedOn kind calls ++ receivedOn kind more := by
  rw [receivedOn, receivedUpdates_append, List.filter_append]
  rfl

/-- A delivered value is a report of the kind of its channel only. -/
theorem receivedOn_decodedReport [Base64VariableCodec V] (kind kind' : ChannelKind) (value : V) :
    receivedOn kind' ((EPICSIOClient.decodedReport kind value :
      Option (JobUpdate V IS)).toList.map .update) =
      if kind = kind' then (EPICSIOClient.decodedReport kind value).toList else [] := by
  rw [receivedOn, receivedUpdates_map]
  cases hreport : (EPICSIOClient.decodedReport kind value : Option (JobUpdate V IS)) with
  | none => split <;> rfl
  | some u =>
    have hkind : reportKind u = some kind := by
      unfold EPICSIOClient.decodedReport at hreport
      split at hreport
      · exact reportKind_decoded hreport
      · cases hreport
    split
    · next heq => simp [hkind, heq]
    · next hne => simp [hkind, hne]

end Kinds

/-- No channel of a job is there twice. -/
theorem nodup_jobKinds (nVars nInstr : UInt32) : (jobKinds nVars nInstr).Nodup :=
  (nodup_initialKinds nVars).append (nodup_instructionKinds nInstr)
    fun _ hmem hinstr ↦ notMem_initialKinds hinstr hmem

section Initial

variable {V IS : Type} [AnyValue V] [OacTree V]

/-- The initial values of a job are those of its channels. -/
private theorem getInitialValueSet_eq (pre : String) (nVars : UInt32) :
    (getInitialValueSet pre nVars : NameAnyValueSet V) =
      (initialKinds nVars).map fun kind ↦ (channelName pre kind, initialValue kind) := by
  simp [getInitialValueSet, initialKinds, channelName, initialValue]

/-- The values of the instructions of a job are those of its channels. -/
private theorem getInstructionValueSet_eq (pre : String) (nInstr : UInt32) :
    (getInstructionValueSet pre nInstr : NameAnyValueSet V) =
      (instructionKinds nInstr).map fun kind ↦ (channelName pre kind, initialValue kind) := by
  simp [getInstructionValueSet, instructionKinds, channelName, initialValue]

/-- Every value in a set of a job is that of its channel. -/
theorem initialValue_of_mem {io : ServerJobInfoIo} {nInstr : Option UInt32}
    {nameValueSet : NameAnyValueSet V} (hset : nameValueSet ∈ jobSets io nInstr)
    {kind : ChannelKind} {value : V}
    (hmem : (channelName io.jobPrefix kind, value) ∈ nameValueSet) :
    value = initialValue kind := by
  have hmap (kinds : List ChannelKind) (h : (channelName io.jobPrefix kind, value) ∈
      kinds.map fun kind ↦ (channelName io.jobPrefix kind, (initialValue kind : V))) :
      value = initialValue kind := by
    obtain ⟨kind', -, heq⟩ := List.mem_map.mp h
    obtain ⟨hname, rfl⟩ := Prod.mk.inj heq
    rw [channelName_inj.mp hname]
  simp only [jobSets, List.mem_append, List.mem_cons, List.not_mem_nil, or_false,
    Option.mem_toList, Option.map_eq_some_iff] at hset
  rcases hset with (rfl | rfl) | ⟨count, -, rfl⟩
  · rw [getInitialValueSet_eq] at hmem
    exact hmap _ hmem
  · exact hmap [.inputRequest] hmem
  · rw [getInstructionValueSet_eq] at hmem
    exact hmap _ hmem

variable [InstructionStateCodec V IS]

/-- The initial reports among those of one kind. -/
private theorem filter_initialReport {kinds : List ChannelKind} (hnodup : kinds.Nodup)
    (kind : ChannelKind) :
    ((kinds.filterMap (initialReport (V := V) : _ → Option (JobUpdate V IS))).filter
      fun u ↦ reportKind u = some kind) =
      if kind ∈ kinds then (initialReport (V := V) kind).toList else [] := by
  induction kinds with
  | nil => rfl
  | cons kind' kinds ih =>
    rw [List.nodup_cons] at hnodup
    have hhead : ((initialReport (V := V) kind' : Option (JobUpdate V IS)).toList.filter
        fun u ↦ reportKind u = some kind) =
        if kind' = kind then (initialReport (V := V) kind).toList else [] := by
      cases hreport : (initialReport (V := V) kind' : Option (JobUpdate V IS)) with
      | none =>
        split
        · next heq => rw [← heq, hreport]; rfl
        · rfl
      | some u =>
        have hkind := reportKind_decoded hreport
        split
        · next heq => rw [← heq, hreport]; simp [hkind]
        · next hne => simp [hkind, hne]
    rw [List.filterMap_eq_flatMap_toList, List.flatMap_cons, List.filter_append, hhead,
      ← List.filterMap_eq_flatMap_toList, ih hnodup.2]
    by_cases heq : kind' = kind
    · subst heq
      rw [if_pos rfl, if_neg hnodup.1, List.append_nil, if_pos List.mem_cons_self]
    · rw [if_neg heq, List.nil_append]
      simp only [List.mem_cons, Ne.symm heq, false_or]

/-- A new client of a job has received the initial report of each kind. -/
theorem receivedOn_initial {pre : String} (hp : pre ≠ "") (nVars nInstr : UInt32)
    {calls : List (JobInfoCall V IS)}
    (hcalls : receivedUpdates calls =
      initialUpdates (getInitialValueSet pre nVars : NameAnyValueSet V) ++
        initialUpdates (getInstructionValueSet pre nInstr : NameAnyValueSet V))
    {kind : ChannelKind} (hkind : kind ∈ jobKinds nVars nInstr) :
    receivedOn kind calls = (initialReport (V := V) kind).toList := by
  have hupdates (kinds : List ChannelKind) :
      initialUpdates (kinds.map fun kind ↦ (channelName pre kind, (initialValue kind : V))) =
        kinds.filterMap (initialReport (V := V) : _ → Option (JobUpdate V IS)) := by
    rw [initialUpdates, List.flatMap_map, List.filterMap_eq_flatMap_toList]
    refine List.flatMap_congr fun kind _ ↦ ?_
    rw [parseValueName_channelName hp]
    rfl
  rw [receivedOn, hcalls, getInitialValueSet_eq, getInstructionValueSet_eq, hupdates, hupdates,
    ← List.filterMap_append, ← jobKinds,
    filter_initialReport (nodup_jobKinds nVars nInstr), if_pos hkind]

end Initial

section Published

variable {V IS : Type} [AnyValue V] [OacTree V] [InstructionStateCodec V IS] [Base64VariableCodec V]
  {serverPrefix : String} {published : List (PublishedReport V IS)}

/-- The values that were published on a channel of a job stand for the reports of the job of this
kind. -/
theorem decoded_writesTo (hgenuine : ∀ report ∈ published, Genuine serverPrefix report)
    {job : Nat} (hjob : job < 2 ^ 32) (hjobs : ∀ report ∈ published, report.job < 2 ^ 32)
    (kind : ChannelKind) :
    (writesTo (publishedName serverPrefix (UInt32.ofNat job) kind) (writes published)).map
        (EPICSIOClient.decodedReport kind) =
      (reportsOn published job kind).map shownReport := by
  induction published with
  | nil => rfl
  | cons report published ih =>
    obtain ⟨hhead, htail⟩ := List.forall_mem_cons.mp hgenuine
    obtain ⟨hheadJob, htailJobs⟩ := List.forall_mem_cons.mp hjobs
    obtain ⟨kind', hkind', hchannel, hdecoded⟩ := hhead
    have hsame : report.channel = publishedName serverPrefix (UInt32.ofNat job) kind ↔
        report.job = job ∧ reportKind report.update = some kind := by
      rw [hchannel, publishedName_inj, jobIdx_inj hheadJob hjob, hkind', Option.some.injEq]
      exact ⟨And.right, fun h ↦ ⟨rfl, h⟩⟩
    rw [writes, List.map_cons, writesTo_cons, List.map_append, ← writes, ih htail htailJobs]
    conv => rhs; rw [reportsOn, List.filterMap_cons, ← reportsOn]
    by_cases hreport : report.job = job ∧ reportKind report.update = some kind
    · rw [if_pos (hsame.mpr hreport), if_pos hreport]
      rw [hreport.2] at hkind'
      cases hkind'
      simp only
      rw [List.map_cons, List.map_cons, hdecoded]
      rfl
    · rw [if_neg (fun h ↦ hreport (hsame.mp h)), if_neg hreport]
      rfl

variable [LawfulBase64VariableCodec V]

/-- A value that was encoded stands for the same report as before. -/
private theorem decodedReport_encode {kind : ChannelKind} {value encoded : V}
    (h : base64EncodeAnyValue value = .ok encoded) :
    (EPICSIOClient.decodedReport kind encoded : Option (JobUpdate V IS)) =
      decodedUpdate kind.valueNameInfo value := by
  rw [EPICSIOClient.decodedReport, base64DecodeAnyValue_of_encode h]

/-- The value that a channel of a job has at first stands for the initial report of its kind. -/
theorem decodedReport_initial {n : Nat}
    {server : AutomationServer n (Recorded (EPICSAnyValueManager V))} (h : AllRegistered server)
    {job : Nat} {kind : ChannelKind} {c : Fin (n + 1)} {i : Nat} {encoded : V}
    (hinitial : InitialValue (server.avMgrRegistry c).manager i
      (publishedName server.serverPrefix (UInt32.ofNat job) kind) encoded) :
    (EPICSIOClient.decodedReport kind encoded : Option (JobUpdate V IS)) =
      initialReport (V := V) kind := by
  obtain ⟨nameValueSet, value, hset, hmem, hencoded⟩ := hinitial
  obtain ⟨j, d, hd, -, hjobSet⟩ := (h.sets c nameValueSet).mp (List.mem_of_getElem? hset)
  have hname := List.mem_map_of_mem (f := Prod.fst) hmem
  obtain ⟨kind', hkind', -⟩ := channel_of_mem_jobSets hjobSet hname
  have hj : j < server.jobs.length := (h.aligned.jobData_isSome j).mp (by simp [hd])
  have hpre := (h.job j d hd).2
  change publishedName _ _ _ = _ at hkind'
  rw [hpre] at hkind'
  obtain ⟨-, hindex, rfl⟩ := publishedName_inj.mp hkind'
  have hvalue : value = initialValue kind := by
    refine initialValue_of_mem hjobSet ?_
    rw [hpre, ← hindex]
    exact hmem
  rw [decodedReport_encode hencoded, hvalue]
  rfl

variable [LawfulAnyValue V] [LawfulOacTree V] [LawfulInstructionStateCodec V]

/-- What is published for a report is genuine. -/
theorem genuine_publishedBy {n : Nat}
    {server : AutomationServer n (Recorded (EPICSAnyValueManager V))} (h : AllRegistered server)
    {job : Nat} {u : JobUpdate V IS} {report : PublishedReport V IS}
    (hreport : report ∈ publishedBy server job u) :
    Genuine server.serverPrefix report ∧ report.job < server.jobs.length := by
  unfold publishedBy at hreport
  split at hreport
  · cases hreport
  · next d hd =>
    split at hreport
    · cases hreport
    · next kind value hpublication =>
      simp only at hreport
      split at hreport
      · next hfind hencoded =>
        rw [List.mem_singleton.mp hreport]
        refine ⟨⟨kind, reportKind_publication hpublication, ?_, ?_⟩, ?_⟩
        · rw [(h.job job d hd).2]
          rfl
        · rw [decodedReport_encode hencoded, decodedUpdate_publication hpublication]
          rfl
        · exact (h.aligned.jobData_isSome job).mp (by simp [hd])
      · cases hreport

end Published

end OacTreeServer.Publication
