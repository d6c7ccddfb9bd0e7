import OacTreeServer.Epics.ManagerSections
import OacTreeServer.External.Reference
import OacTreeServer.Job.JobInfoIo
import OacTreeServer.Library.Tickets

/-!
# The order of the output entries of a job

Any number of threads report through one `ServerJobInfoIO`. `Log`, `Message` and `PutValue`
draw an index under the lock of a generator (`base/server_job_info_io.cpp:137`) and then
update the value of their channel, under the locks of the manager and of a queue. Nothing
holds the two together, so that a call can overtake another one in between.
-/

namespace OacTreeServer.Job
open OacTreeServer.Epics OacTreeServer.External OacTreeServer.Library OacTreeServer.Protocol

/-- The kinds of entries that carry an index. -/
inductive OutputKind where
  | logEntry
  | messageEntry
  | outputValueEntry
  deriving DecidableEq, Repr

/-- The channel of the entries of a kind. -/
def OutputKind.channel : OutputKind → ChannelKind
  | .logEntry => .logEntry
  | .messageEntry => .messageEntry
  | .outputValueEntry => .outputValueEntry

/-- The entry that a report makes, if it makes one. -/
def JobUpdate.output? {V IS : Type} : JobUpdate V IS → Option OutputKind
  | .putValue _ _ => some .outputValueEntry
  | .message _ => some .messageEntry
  | .log _ _ => some .logEntry
  | _ => none

/-- The generator of the indices of a kind. -/
def ServerJobInfoIo.idxGen (io : ServerJobInfoIo) : OutputKind → IndexGenerator
  | .logEntry => io.logIdxGen
  | .messageEntry => io.msgIdxGen
  | .outputValueEntry => io.outValIdxGen

/-- A value is the entry of a kind with this index. -/
def IsOutputEntry {V : Type} [AnyValue V] [OacTree V] (value : V) (index : UInt64) :
    OutputKind → Prop
  | .logEntry => ∃ severity message, value = encodeLogEntry ⟨index, severity, message⟩
  | .messageEntry => ∃ message, value = encodeMessageEntry ⟨index, message⟩
  | .outputValueEntry => ∃ description entry,
      value = encodeOutputValueEntry ⟨index, description, entry⟩

/-- The state of one `ServerJobInfoIO`, its manager and the calls of both. -/
structure ReportState (V : Type) where
  manager : ManagerState V
  io : ServerJobInfoIo
  /-- The index that a call has drawn for its entry. -/
  drawn : Nat → Option (OutputKind × UInt64)

/-- One step of some thread. -/
inductive ReportAction (V IS : Type) where
  /-- A thread reports: it draws an index, if the report needs one, and calls
  `UpdateAnyValue`. -/
  | report (caller : Nat) (u : JobUpdate V IS)
  /-- A step of the manager, on behalf of a report or of somebody else. -/
  | manager (a : ManagerAction V)

namespace ReportState

variable {V : Type}

/-- A new `ServerJobInfoIO` in front of any manager. -/
def start (manager : EPICSAnyValueManager V) (jobPrefix : String) (nVars : UInt32) :
    ReportState V :=
  ⟨{ ManagerState.start with manager := manager }, ⟨jobPrefix, nVars, .new, .new, .new⟩,
    fun _ ↦ none⟩

/-- The name of the channel of a kind. -/
def outputName (s : ReportState V) (kind : OutputKind) : String :=
  channelName s.io.jobPrefix kind.channel

/-- The manager's other users do not publish entries of this job. -/
def isForeign (s : ReportState V) : ManagerAction V → Bool
  | .enter _ (.updateAnyValue name _) =>
    name ≠ s.outputName .logEntry && name ≠ s.outputName .messageEntry &&
      name ≠ s.outputName .outputValueEntry
  | _ => true

/-- The indices of the entries of a kind, in the order in which they were pushed. -/
def publishedIndices (s : ReportState V) (kind : OutputKind) : List Nat :=
  (s.manager.pushed.filter (·.name = s.outputName kind)).filterMap fun p ↦
    (s.drawn p.caller).map fun drawn ↦ drawn.2.toNat

/-- A call has drawn an index for its entry, and goes on to update the channel of its kind. -/
def draw {IS : Type} (s : ReportState V) (caller : Nat) (u : JobUpdate V IS) (kind : OutputKind)
    (value : V) : ReportState V where
  manager := s.manager.setCall caller (.updateAnyValue (s.outputName kind) value) .entered
  io := s.io.afterUpdate u
  drawn := Function.update s.drawn caller (some (kind, (s.io.idxGen kind).newIndex.1))

/-- A call has pushed its update. -/
def hasPushed (s : ReportState V) (caller : Nat) : Prop :=
  ∃ p ∈ s.manager.pushed, p.caller = caller

end ReportState

section Machine

variable {V IS : Type} [AnyValue V] [OacTree V] [Base64VariableCodec V]
  [InstructionStateCodec V IS]

/-- The system of all threads that report through one `ServerJobInfoIO`. -/
def reportMachine : Machine (ReportState V) (ReportAction V IS) where
  step s
    | .report caller u =>
      (s.io.publication u).bind fun (kind, value) ↦
        (managerMachine.step s.manager
          (.enter caller (.updateAnyValue (channelName s.io.jobPrefix kind) value))).map
          fun manager ↦
            { manager := manager
              io := s.io.afterUpdate u
              drawn := match u.output? with
                | none => s.drawn
                | some kind =>
                  Function.update s.drawn caller (some (kind, (s.io.idxGen kind).newIndex.1)) }
    | .manager a =>
      if s.isForeign a then
        (managerMachine.step s.manager a).map fun manager ↦ { s with manager := manager }
      else none

/-- Everything that a step can do. -/
inductive ReportStep (s : ReportState V) : ReportAction V IS → ReportState V → Prop where
  | report {caller : Nat} {u : JobUpdate V IS} {kind : ChannelKind} {value : V} :
      s.io.publication u = some (kind, value) → s.manager.calls caller = none →
      u.output? = none → ReportStep s (.report caller u)
        { manager := s.manager.setCall caller
            (.updateAnyValue (channelName s.io.jobPrefix kind) value) .entered
          io := s.io.afterUpdate u
          drawn := s.drawn }
  | draw {caller : Nat} {u : JobUpdate V IS} {kind : OutputKind} {value : V} :
      s.io.publication u = some (kind.channel, value) → s.manager.calls caller = none →
      u.output? = some kind → IsOutputEntry value (s.io.idxGen kind).newIndex.1 kind →
      ReportStep s (.report caller u) (s.draw caller u kind value)
  | manager {a : ManagerAction V} {t : ManagerState V} : s.isForeign a = true →
      ManagerStep s.manager a t → ReportStep s (.manager a) { s with manager := t }

omit [Base64VariableCodec V] in
/-- A report of an entry publishes the entry with the index that it draws. -/
private theorem publication_of_output {io : ServerJobInfoIo} {u : JobUpdate V IS}
    {output : OutputKind} (h : u.output? = some output) {kind : ChannelKind} {value : V}
    (hpublication : io.publication u = some (kind, value)) :
    kind = output.channel ∧ IsOutputEntry value (io.idxGen output).newIndex.1 output := by
  cases u with
  | putValue entry description =>
    cases h
    cases hpublication
    exact ⟨rfl, description, entry, rfl⟩
  | message message =>
    cases h
    cases hpublication
    exact ⟨rfl, message, rfl⟩
  | log severity message =>
    cases h
    cases hpublication
    exact ⟨rfl, severity, message, rfl⟩
  | _ => cases h

/-- The computed steps are those above. -/
theorem reportStep_of_step {s t : ReportState V} {a : ReportAction V IS}
    (h : reportMachine.step s a = some t) : ReportStep s a t := by
  cases a with
  | report caller u =>
    obtain ⟨⟨kind, value⟩, hpublication, h⟩ := Option.bind_eq_some_iff.mp h
    obtain ⟨m, hm, rfl⟩ := Option.map_eq_some_iff.mp h
    cases managerStep_iff.mp hm with
    | enter hnone =>
      cases houtput : u.output? with
      | none => exact .report hpublication hnone houtput
      | some output =>
        obtain ⟨rfl, hentry⟩ := publication_of_output houtput hpublication
        exact .draw hpublication hnone houtput hentry
  | manager a =>
    simp only [reportMachine] at h
    split at h
    · next hforeign =>
      obtain ⟨m, hm, rfl⟩ := Option.map_eq_some_iff.mp h
      exact .manager hforeign (managerStep_iff.mp hm)
    · cases h

end Machine

section Generators

variable {V IS : Type}

/-- The name of a channel determines the kind of its entries. -/
theorem ReportState.outputName_inj (s : ReportState V) {kind other : OutputKind} :
    s.outputName kind = s.outputName other ↔ kind = other := by
  unfold outputName
  rw [channelName_inj]
  cases kind <;> cases other <;> simp [OutputKind.channel]

/-- An index is the one behind the last, as long as they do not wrap around. -/
theorem toNat_newIndex {generator : IndexGenerator}
    (h : generator.lastIdx.toNat + 1 < UInt64.size) :
    generator.newIndex.1.toNat = generator.lastIdx.toNat + 1 := by
  have hsum : (generator.lastIdx + 1).toNat = generator.lastIdx.toNat + 1 := by
    rw [UInt64.toNat_add]
    exact Nat.mod_eq_of_lt h
  unfold IndexGenerator.newIndex
  dsimp only
  split
  · next hzero =>
    rw [hzero] at hsum
    exact absurd hsum.symm (Nat.succ_ne_zero _)
  · exact hsum

/-- Only the generator of its entry is advanced by a report. -/
theorem idxGen_afterUpdate (io : ServerJobInfoIo) (u : JobUpdate V IS) (kind : OutputKind) :
    (io.afterUpdate u).idxGen kind =
      if u.output? = some kind then (io.idxGen kind).newIndex.2 else io.idxGen kind := by
  cases u <;> cases kind <;> rfl

variable (s : ReportState V) (caller other : Nat) (u : JobUpdate V IS) (kind output : OutputKind)
  (value : V)

/-- The index that was drawn is that of the call. -/
theorem ReportState.drawn_draw : (s.draw caller u kind value).drawn other =
    if other = caller then some (kind, (s.io.idxGen kind).newIndex.1) else s.drawn other :=
  Function.update_apply ..

/-- The call enters its update, and other calls stay where they are. -/
theorem ReportState.calls_draw : (s.draw caller u kind value).manager.calls other =
    if other = caller then some (.updateAnyValue (s.outputName kind) value, .entered)
    else s.manager.calls other :=
  ManagerState.calls_setCall ..

/-- The channels keep their names. -/
@[simp] theorem ReportState.outputName_draw :
    (s.draw caller u kind value).outputName output = s.outputName output := by
  unfold outputName
  exact congrArg (channelName · output.channel) (ServerJobInfoIo.jobPrefix_afterUpdate s.io u)

/-- The generator of the entry is advanced. -/
theorem ReportState.idxGen_draw (h : u.output? = some kind) :
    ((s.draw caller u kind value).io.idxGen output) =
      if kind = output then (s.io.idxGen kind).newIndex.2 else s.io.idxGen output := by
  refine (idxGen_afterUpdate s.io u output).trans ?_
  rw [h]
  by_cases heq : kind = output
  · rw [heq, if_pos rfl, if_pos rfl]
  · rw [if_neg heq, if_neg fun hsome ↦ heq (Option.some.inj hsome)]

end Generators

section Invariant

variable {V IS : Type} [AnyValue V] [OacTree V] [Base64VariableCodec V]

/-- What holds in every state that is reached before an index wraps around. -/
structure ReportInv (s : ReportState V) : Prop where
  /-- A call that has drawn an index updates the channel of its entry. -/
  call : ∀ {caller kind index}, s.drawn caller = some (kind, index) →
    ∃ value stage, s.manager.calls caller =
      some (.updateAnyValue (s.outputName kind) value, stage) ∧ IsOutputEntry value index kind
  /-- Nobody else does. -/
  drawn : ∀ {caller kind value stage},
    s.manager.calls caller = some (.updateAnyValue (s.outputName kind) value, stage) →
    ∃ index, s.drawn caller = some (kind, index)
  pushed : ∀ p ∈ s.manager.pushed, ∃ value,
    s.manager.calls p.caller = some (.updateAnyValue p.name value, .done (.ok true)) ∧
      base64EncodeAnyValue value = .ok p.updateVal
  /-- The indices of a kind that were drawn are those up to the last. -/
  indices : ∀ kind n, (∃ caller index, s.drawn caller = some (kind, index) ∧ index.toNat = n) ↔
    1 ≤ n ∧ n ≤ (s.io.idxGen kind).lastIdx.toNat
  unique : ∀ {caller other kind index}, s.drawn caller = some (kind, index) →
    s.drawn other = some (kind, index) → caller = other

omit [AnyValue V] [OacTree V] [Base64VariableCodec V] in
/-- A call updates one name. -/
private theorem updateAnyValue_name {name other : String} {value value' : V}
    {stage stage' : CallStage}
    (h : some (ManagerCall.updateAnyValue name value, stage) =
      some (.updateAnyValue other value', stage')) : name = other := by
  injection h with h
  injection h with h
  injection h

/-- Nothing has been reported. -/
theorem reportInv_start (manager : EPICSAnyValueManager V) (jobPrefix : String)
    (nVars : UInt32) : ReportInv (ReportState.start manager jobPrefix nVars) where
  call h := nomatch h
  drawn h := nomatch h
  pushed _ h := nomatch h
  indices kind n := by
    have hlast :
        ((ReportState.start manager jobPrefix nVars).io.idxGen kind).lastIdx.toNat = 0 := by
      cases kind <;> rfl
    rw [hlast]
    constructor
    · rintro ⟨caller, index, h, -⟩
      cases h
    · intro h
      omega
  unique h := nomatch h

/-- The index of a kind that a report draws is new. -/
private theorem ReportInv.fresh {s : ReportState V} (hinv : ReportInv s) {kind : OutputKind}
    (hfew : (s.io.idxGen kind).lastIdx.toNat + 1 < UInt64.size) (caller : Nat) :
    s.drawn caller ≠ some (kind, (s.io.idxGen kind).newIndex.1) := by
  intro h
  have hle := ((hinv.indices kind _).mp ⟨caller, _, h, rfl⟩).2
  rw [toNat_newIndex hfew] at hle
  omega

/-- A section of a call pushes nothing, or the update of the call. -/
private theorem pushed_of_section {s t : ManagerState V} {caller : Nat} {call : ManagerCall V}
    {stage next : CallStage} (h : Section s caller call stage t next) :
    t.pushed = s.pushed ∨ ∃ name value server updateVal, call = .updateAnyValue name value ∧
      stage = .pushUpdate server ∧ base64EncodeAnyValue value = .ok updateVal ∧
      next = .done (.ok true) ∧ t.pushed = s.pushed ++ [⟨caller, server, name, updateVal⟩] := by
  cases h with
  | pushed hencode => exact .inr ⟨_, _, _, _, rfl, rfl, hencode, rfl, rfl⟩
  | _ => exact .inl rfl

/-- A call that has pushed its update has no further section. -/
private theorem ReportInv.not_pushed_of_section {s : ReportState V} (hinv : ReportInv s)
    {caller : Nat} {call : ManagerCall V} {stage next : CallStage} {t : ManagerState V}
    (hcall : s.manager.calls caller = some (call, stage))
    (h : Section s.manager caller call stage t next) : ¬ s.hasPushed caller := by
  rintro ⟨p, hp, rfl⟩
  obtain ⟨value, hdone, -⟩ := hinv.pushed p hp
  rw [hcall] at hdone
  cases hdone
  cases h

/-- A step of the manager that nobody else takes for an entry keeps the invariant. -/
private theorem ReportInv.manager {s : ReportState V} (hinv : ReportInv s) {a : ManagerAction V}
    {t : ManagerState V} (hforeign : s.isForeign a = true) (h : ManagerStep s.manager a t) :
    ReportInv { s with manager := t } := by
  cases h with
  | @enter caller call hnone =>
    have hother : ∀ {other entry}, s.manager.calls other = some entry →
        (s.manager.setCall caller call .entered).calls other = some entry := by
      intro other entry hentry
      rw [ManagerState.calls_setCall, if_neg, hentry]
      rintro rfl
      rw [hnone] at hentry
      cases hentry
    refine ⟨fun hdrawn ↦ ?_, fun {other kind value stage} hcall ↦ ?_, fun p hp ↦ ?_, hinv.indices,
      hinv.unique⟩
    · obtain ⟨value, stage, hcall, hentry⟩ := hinv.call hdrawn
      exact ⟨value, stage, hother hcall, hentry⟩
    · change (s.manager.setCall caller call .entered).calls other =
        some (.updateAnyValue (s.outputName kind) value, stage) at hcall
      rw [ManagerState.calls_setCall] at hcall
      split at hcall
      · cases hcall
        cases kind <;> simp [ReportState.isForeign, ReportState.outputName] at hforeign
      · exact hinv.drawn hcall
    · obtain ⟨value, hcall, hencode⟩ := hinv.pushed p hp
      exact ⟨value, hother hcall, hencode⟩
  | @advance caller call stage r next hcall hsection =>
    have hcalls : ∀ other, (r.setCall caller call next).calls other =
        if other = caller then some (call, next) else s.manager.calls other := by
      intro other
      rw [ManagerState.calls_setCall, hsection.calls_eq]
    refine ⟨fun {other kind index} hdrawn ↦ ?_, fun {other kind value next'} hupdate ↦ ?_,
      fun p hp ↦ ?_, hinv.indices, hinv.unique⟩
    · obtain ⟨value, stage', hupdate, hentry⟩ := hinv.call hdrawn
      by_cases hother : other = caller
      · subst hother
        rw [hcall] at hupdate
        cases hupdate
        exact ⟨value, next, (hcalls other).trans (if_pos rfl), hentry⟩
      · exact ⟨value, stage', ((hcalls other).trans (if_neg hother)).trans hupdate, hentry⟩
    · change (r.setCall caller call next).calls other =
        some (.updateAnyValue (s.outputName kind) value, next') at hupdate
      rw [hcalls] at hupdate
      split at hupdate
      · next hother =>
        subst hother
        cases hupdate
        exact hinv.drawn hcall
      · exact hinv.drawn hupdate
    · have hold : ∀ q ∈ s.manager.pushed, ∃ value,
          (r.setCall caller call next).calls q.caller =
            some (.updateAnyValue q.name value, .done (.ok true)) ∧
          base64EncodeAnyValue value = .ok q.updateVal := by
        intro q hq
        obtain ⟨value, hdone, hencode⟩ := hinv.pushed q hq
        refine ⟨value, ((hcalls q.caller).trans (if_neg ?_)).trans hdone, hencode⟩
        intro hcaller
        exact hinv.not_pushed_of_section hcall hsection ⟨q, hq, hcaller⟩
      change p ∈ r.pushed at hp
      rcases pushed_of_section hsection with
        heq | ⟨name, value, server, updateVal, rfl, -, hencode, rfl, heq⟩
      · rw [heq] at hp
        exact hold p hp
      · rw [heq, List.mem_append, List.mem_singleton] at hp
        rcases hp with hp | rfl
        · exact hold p hp
        · exact ⟨value, (hcalls caller).trans (if_pos rfl), hencode⟩
  | popCommands => exact ⟨hinv.call, hinv.drawn, hinv.pushed, hinv.indices, hinv.unique⟩

/-- The invariant is about the prefix of the job and its generators only. -/
private theorem ReportInv.io_congr {s : ReportState V} (hinv : ReportInv s) {io : ServerJobInfoIo}
    (hjob : io.jobPrefix = s.io.jobPrefix) (hgen : ∀ kind, io.idxGen kind = s.io.idxGen kind) :
    ReportInv { s with io := io } := by
  have hname : ∀ kind, ({ s with io := io } : ReportState V).outputName kind = s.outputName kind :=
    fun kind ↦ congrArg (channelName · kind.channel) hjob
  refine ⟨fun hdrawn ↦ ?_, fun {_ kind _ _} hcall ↦ ?_, hinv.pushed, fun kind n ↦ ?_, hinv.unique⟩
  · rw [hname]
    exact hinv.call hdrawn
  · rw [hname] at hcall
    exact hinv.drawn hcall
  · rw [hgen]
    exact hinv.indices kind n

omit [Base64VariableCodec V] in
/-- A report that makes no entry is nothing to the channels of the entries. -/
private theorem isForeign_of_report [InstructionStateCodec V IS] {s : ReportState V}
    {u : JobUpdate V IS} (houtput : u.output? = none) {kind : ChannelKind} {value : V}
    (hpublication : s.io.publication u = some (kind, value)) (caller : Nat) :
    s.isForeign (.enter caller (.updateAnyValue (channelName s.io.jobPrefix kind) value)) =
      true := by
  have hkind : ∀ output : OutputKind, kind ≠ output.channel := by
    intro output
    cases u <;> cases houtput <;> cases hpublication <;> cases output <;> nofun
  simp [ReportState.isForeign, ReportState.outputName, channelName_inj, hkind]

/-- A call that draws an index has drawn none before. -/
private theorem ReportInv.drawn_eq_none {s : ReportState V} (hinv : ReportInv s) {caller : Nat}
    (hnone : s.manager.calls caller = none) : s.drawn caller = none := by
  cases hdrawn : s.drawn caller with
  | none => rfl
  | some drawn =>
    obtain ⟨value, stage, hcall, -⟩ := hinv.call hdrawn
    rw [hnone] at hcall
    cases hcall

/-- The indices that were drawn are those up to the last one, also behind a new one. -/
private theorem ReportInv.indices_draw {s : ReportState V} (hinv : ReportInv s) {caller : Nat}
    {u : JobUpdate V IS} {kind : OutputKind} (value : V)
    (hnone : s.manager.calls caller = none) (houtput : u.output? = some kind)
    (hfew : (s.io.idxGen kind).lastIdx.toNat + 1 < UInt64.size) (output : OutputKind) (n : Nat) :
    (∃ other index, (s.draw caller u kind value).drawn other = some (output, index) ∧
      index.toNat = n) ↔
      1 ≤ n ∧ n ≤ ((s.draw caller u kind value).io.idxGen output).lastIdx.toNat := by
  have hundrawn := hinv.drawn_eq_none hnone
  simp only [ReportState.drawn_draw]
  rw [s.idxGen_draw caller u kind output value houtput]
  by_cases hkind : kind = output
  · subst hkind
    rw [if_pos rfl]
    change _ ↔ 1 ≤ n ∧ n ≤ (s.io.idxGen kind).newIndex.1.toNat
    rw [toNat_newIndex hfew]
    constructor
    · rintro ⟨other, index, hdrawn, rfl⟩
      split at hdrawn
      · cases hdrawn
        rw [toNat_newIndex hfew]
        omega
      · have hold := (hinv.indices kind _).mp ⟨other, index, hdrawn, rfl⟩
        omega
    · rintro ⟨hpos, hle⟩
      by_cases hnew : n = (s.io.idxGen kind).lastIdx.toNat + 1
      · exact ⟨caller, _, if_pos rfl, by rw [toNat_newIndex hfew, hnew]⟩
      · obtain ⟨other, index, hdrawn, hn⟩ := (hinv.indices kind n).mpr ⟨hpos, by omega⟩
        refine ⟨other, index, (if_neg ?_).trans hdrawn, hn⟩
        rintro rfl
        rw [hundrawn] at hdrawn
        cases hdrawn
  · rw [if_neg hkind, ← hinv.indices output n]
    apply exists_congr
    intro other
    apply exists_congr
    intro index
    split
    · next heq =>
      rw [heq, hundrawn]
      simp [hkind]
    · exact Iff.rfl

/-- A call that draws an index keeps the invariant, unless the index wraps around. -/
private theorem ReportInv.draw {s : ReportState V} (hinv : ReportInv s) {caller : Nat}
    {u : JobUpdate V IS} {kind : OutputKind} {value : V}
    (hnone : s.manager.calls caller = none) (houtput : u.output? = some kind)
    (hentry : IsOutputEntry value (s.io.idxGen kind).newIndex.1 kind)
    (hfew : (s.io.idxGen kind).lastIdx.toNat + 1 < UInt64.size) :
    ReportInv (s.draw caller u kind value) := by
  refine ⟨fun {other output index} hdrawn ↦ ?_, fun {other output value' stage} hcall ↦ ?_,
    fun p hp ↦ ?_, hinv.indices_draw value hnone houtput hfew,
    fun {one other output index} hone hother ↦ ?_⟩
  · rw [ReportState.drawn_draw] at hdrawn
    rw [ReportState.calls_draw, ReportState.outputName_draw]
    split at hdrawn
    · next heq =>
      cases hdrawn
      exact ⟨value, .entered, if_pos heq, hentry⟩
    · next hne =>
      rw [if_neg hne]
      exact hinv.call hdrawn
  · rw [ReportState.calls_draw, ReportState.outputName_draw] at hcall
    rw [ReportState.drawn_draw]
    split at hcall
    · next heq =>
      rw [if_pos heq, s.outputName_inj.mp (updateAnyValue_name hcall)]
      exact ⟨_, rfl⟩
    · next hne =>
      rw [if_neg hne]
      exact hinv.drawn hcall
  · obtain ⟨value', hcall, hencode⟩ := hinv.pushed p hp
    refine ⟨value', ?_, hencode⟩
    rw [ReportState.calls_draw, if_neg, hcall]
    intro heq
    rw [heq, hnone] at hcall
    cases hcall
  · rw [ReportState.drawn_draw] at hone hother
    split at hone
    · next hc =>
      split at hother
      · next hc' => rw [hc, hc']
      · cases hone
        exact absurd hother (hinv.fresh hfew other)
    · split at hother
      · cases hother
        exact absurd hone (hinv.fresh hfew one)
      · exact hinv.unique hone hother

/-- Every step keeps the invariant until an index wraps around. -/
theorem ReportInv.step [InstructionStateCodec V IS] {s t : ReportState V} {a : ReportAction V IS}
    (hinv : ReportInv s) (h : ReportStep s a t)
    (hfew : ∀ caller u kind, a = .report caller u → u.output? = some kind →
      (s.io.idxGen kind).lastIdx.toNat + 1 < UInt64.size) : ReportInv t := by
  cases h with
  | manager hforeign hstep => exact hinv.manager hforeign hstep
  | @report caller u kind value hpublication hnone houtput =>
    refine (hinv.manager (isForeign_of_report houtput hpublication caller) (.enter hnone)).io_congr
      (ServerJobInfoIo.jobPrefix_afterUpdate s.io u) fun output ↦ ?_
    rw [idxGen_afterUpdate, houtput, if_neg nofun]
  | @draw caller u kind value hpublication hnone houtput hentry =>
    exact hinv.draw hnone houtput hentry (hfew caller u kind rfl houtput)

end Invariant

section Order

variable {V IS : Type} [AnyValue V] [OacTree V] [Base64VariableCodec V]

/-- The next section of a call pushes its update. -/
def ReportState.pushes (s : ReportState V) (caller : Nat) : Prop :=
  ∃ name value server updateVal,
    s.manager.calls caller = some (.updateAnyValue name value, .pushUpdate server) ∧
      base64EncodeAnyValue value = .ok updateVal

/-- A call that pushes its entry overtakes no other call: the entries of its kind with smaller
indices have been pushed. -/
def InTurn (s : ReportState V) : ReportAction V IS → Prop
  | .manager (.advance caller) => s.pushes caller →
      ∀ kind index, s.drawn caller = some (kind, index) →
        ∀ other earlier, s.drawn other = some (kind, earlier) → earlier < index →
          s.hasPushed other
  | _ => True

omit [AnyValue V] [OacTree V] [Base64VariableCodec V] in
/-- The entries that are pushed to each channel have consecutive indices from 1 on, so that the
last of them is the one with the largest index. -/
def PublishedInOrder (s : ReportState V) : Prop :=
  ∀ kind, Consecutive (s.publishedIndices kind) ∧
    ∀ n, (s.publishedIndices kind).getLast? = some n → ∀ m ∈ s.publishedIndices kind, m ≤ n

omit [AnyValue V] [OacTree V] [Base64VariableCodec V] in
/-- The last index is the largest when the indices are consecutive. -/
theorem publishedInOrder_iff {s : ReportState V} :
    PublishedInOrder s ↔ ∀ kind, Consecutive (s.publishedIndices kind) := by
  constructor
  · intro h kind
    exact (h kind).1
  · intro h kind
    exact ⟨h kind, fun _ hlast ↦ (h kind).le_of_getLast? hlast⟩

/-- What was pushed to the channel of a kind is an entry of that kind. -/
theorem ReportInv.drawn_of_pushed {s : ReportState V} (hinv : ReportInv s) {p : PushedUpdate V}
    (hp : p ∈ s.manager.pushed) {kind : OutputKind} (hname : p.name = s.outputName kind) :
    ∃ index value, s.drawn p.caller = some (kind, index) ∧ IsOutputEntry value index kind ∧
      base64EncodeAnyValue value = .ok p.updateVal := by
  obtain ⟨value, hcall, hencode⟩ := hinv.pushed p hp
  rw [hname] at hcall
  obtain ⟨index, hdrawn⟩ := hinv.drawn hcall
  obtain ⟨value', stage, hcall', hentry⟩ := hinv.call hdrawn
  rw [hcall] at hcall'
  cases hcall'
  exact ⟨index, value, hdrawn, hentry, hencode⟩

/-- The published indices are those of the calls that have pushed their entry. -/
theorem ReportInv.mem_publishedIndices {s : ReportState V} (hinv : ReportInv s)
    {kind : OutputKind} {n : Nat} :
    n ∈ s.publishedIndices kind ↔
      ∃ caller index, s.drawn caller = some (kind, index) ∧ index.toNat = n ∧
        s.hasPushed caller := by
  unfold ReportState.publishedIndices
  rw [List.mem_filterMap]
  constructor
  · rintro ⟨p, hp, hn⟩
    rw [List.mem_filter, decide_eq_true_iff] at hp
    obtain ⟨index, value, hdrawn, -, -⟩ := hinv.drawn_of_pushed hp.1 hp.2
    rw [hdrawn] at hn
    exact ⟨p.caller, index, hdrawn, Option.some.inj hn, p, hp.1, rfl⟩
  · rintro ⟨_, index, hdrawn, rfl, p, hp, rfl⟩
    refine ⟨p, List.mem_filter.mpr ⟨hp, ?_⟩, by rw [hdrawn]; rfl⟩
    obtain ⟨value, stage, hcall, -⟩ := hinv.call hdrawn
    obtain ⟨value', hcall', -⟩ := hinv.pushed p hp
    rw [hcall] at hcall'
    exact decide_eq_true (updateAnyValue_name hcall').symm

omit [AnyValue V] [OacTree V] [Base64VariableCodec V] in
/-- A further push is the last entry of its channel. -/
private theorem publishedIndices_concat {s : ReportState V} {t : ManagerState V}
    {p : PushedUpdate V} (h : t.pushed = s.manager.pushed ++ [p]) (kind : OutputKind) :
    ({ s with manager := t } : ReportState V).publishedIndices kind =
      s.publishedIndices kind ++ if p.name = s.outputName kind then
        ((s.drawn p.caller).map fun drawn ↦ drawn.2.toNat).toList else [] := by
  change (t.pushed.filter fun q ↦ decide (q.name = s.outputName kind)).filterMap
    (fun q ↦ (s.drawn q.caller).map fun drawn ↦ drawn.2.toNat) = _
  rw [h, List.filter_append, List.filterMap_append]
  congr 1
  by_cases hname : p.name = s.outputName kind
  · cases hdrawn : s.drawn p.caller <;> simp [hname, hdrawn]
  · simp [hname]

variable [InstructionStateCodec V IS]

/-- A step either pushes the entry of a call, or nothing to the channels of the entries. -/
private theorem ReportInv.publishedIndices_step {s t : ReportState V} {a : ReportAction V IS}
    (hinv : ReportInv s) (h : ReportStep s a t) :
    (∃ caller kind index, a = .manager (.advance caller) ∧ s.pushes caller ∧
      s.drawn caller = some (kind, index) ∧ ∀ output, t.publishedIndices output =
        s.publishedIndices output ++ if kind = output then [index.toNat] else []) ∨
    (∀ output, t.publishedIndices output = s.publishedIndices output) ∧
      ∀ caller, a = .manager (.advance caller) → s.pushes caller → s.drawn caller = none := by
  cases h with
  | report hpublication hnone houtput =>
    refine .inr ⟨fun output ↦ ?_, nofun⟩
    unfold ReportState.publishedIndices ReportState.outputName
    rw [ServerJobInfoIo.jobPrefix_afterUpdate]
    rfl
  | @draw caller u kind value hpublication hnone houtput hentry =>
    refine .inr ⟨fun output ↦ ?_, nofun⟩
    unfold ReportState.publishedIndices
    rw [ReportState.outputName_draw]
    apply List.filterMap_congr
    intro p hp
    obtain ⟨value', hcall, -⟩ := hinv.pushed p (List.mem_of_mem_filter hp)
    rw [ReportState.drawn_draw, if_neg]
    intro heq
    rw [heq, hnone] at hcall
    cases hcall
  | @manager a t hforeign hstep =>
    cases hstep with
    | enter hnone => exact .inr ⟨fun _ ↦ rfl, nofun⟩
    | popCommands => exact .inr ⟨fun _ ↦ rfl, nofun⟩
    | @advance caller call stage r next hcall hsection =>
      by_cases hpushes : s.pushes caller
      · obtain ⟨name, value, server, updateVal, hupdate, hencode⟩ := hpushes
        rw [hcall] at hupdate
        cases hupdate
        obtain ⟨p, hcaller, hname, hpushed⟩ : ∃ p : PushedUpdate V, p.caller = caller ∧
            p.name = name ∧ r.pushed = s.manager.pushed ++ [p] := by
          cases hsection with
          | pushed _ => exact ⟨_, rfl, rfl, rfl⟩
          | notEncoded herror =>
            rw [hencode] at herror
            cases herror
        have hconcat := publishedIndices_concat
          (t := r.setCall caller (.updateAnyValue name value) next) hpushed
        cases hdrawn : s.drawn caller with
        | none =>
          refine .inr ⟨fun output ↦ (hconcat output).trans ?_, ?_⟩
          · simp [hcaller, hdrawn]
          · rintro _ ⟨⟩ -
            exact hdrawn
        | some drawn =>
          obtain ⟨kind, index⟩ := drawn
          obtain ⟨value', stage, hcall', -⟩ := hinv.call hdrawn
          rw [hcall] at hcall'
          have hkind : name = s.outputName kind := updateAnyValue_name hcall'
          refine .inl ⟨caller, kind, index, rfl, ⟨_, _, _, _, hcall, hencode⟩, hdrawn,
            fun output ↦ (hconcat output).trans ?_⟩
          rw [hcaller, hname, hdrawn, hkind]
          simp [s.outputName_inj]
      · refine .inr ⟨fun output ↦ ?_, ?_⟩
        · have hpushed : r.pushed = s.manager.pushed := by
            rcases pushed_of_section hsection with
              heq | ⟨name, value, server, updateVal, rfl, rfl, hencode, -, -⟩
            · exact heq
            · exact absurd ⟨name, value, server, updateVal, hcall, hencode⟩ hpushes
          exact congrArg (fun pushed : List (PushedUpdate V) ↦
            (pushed.filter (·.name = s.outputName output)).filterMap fun p ↦
              (s.drawn p.caller).map fun drawn ↦ drawn.2.toNat) hpushed
        · rintro _ ⟨⟩ h
          exact absurd h hpushes

omit [InstructionStateCodec V IS] in
/-- A push is the next one of its channel exactly when all calls with smaller indices have
pushed their entries. -/
private theorem ReportInv.next_iff {s : ReportState V} (hinv : ReportInv s) {caller : Nat}
    {kind : OutputKind} {index : UInt64} (hpushes : s.pushes caller)
    (hdrawn : s.drawn caller = some (kind, index))
    (horder : Consecutive (s.publishedIndices kind)) :
    index.toNat = (s.publishedIndices kind).length + 1 ↔
      ∀ other earlier, s.drawn other = some (kind, earlier) → earlier < index →
        s.hasPushed other := by
  have hmem : ∀ n, n ∈ s.publishedIndices kind ↔ 1 ≤ n ∧ n ≤ (s.publishedIndices kind).length :=
    fun _ ↦ horder.mem_iff
  constructor
  · intro hnext other earlier hother hlt
    have hpos := ((hinv.indices kind _).mp ⟨other, earlier, hother, rfl⟩).1
    have hlt' := UInt64.lt_iff_toNat_lt.mp hlt
    have hpublished := (hmem earlier.toNat).mpr ⟨hpos, by omega⟩
    obtain ⟨other', earlier', hother', hsame, hpushed⟩ := hinv.mem_publishedIndices.mp hpublished
    rw [UInt64.toNat_inj.mp hsame] at hother'
    rw [hinv.unique hother hother']
    exact hpushed
  · intro hall
    obtain ⟨hpos, hlast⟩ := (hinv.indices kind _).mp ⟨caller, index, hdrawn, rfl⟩
    have hnew : index.toNat ∉ s.publishedIndices kind := by
      intro hpublished
      obtain ⟨other, index', hother, hsame, p, hp, hcaller⟩ :=
        hinv.mem_publishedIndices.mp hpublished
      rw [UInt64.toNat_inj.mp hsame] at hother
      obtain ⟨value, hdone, -⟩ := hinv.pushed p hp
      obtain ⟨name, value', server, updateVal, hcall, -⟩ := hpushes
      rw [hcaller, hinv.unique hother hdrawn, hcall] at hdone
      cases hdone
    rw [hmem] at hnew
    by_contra hnext
    -- the index behind the published ones was drawn, and is not published
    obtain ⟨other, earlier, hother, hn⟩ :=
      (hinv.indices kind ((s.publishedIndices kind).length + 1)).mpr ⟨by omega, by omega⟩
    have hlt : earlier < index := UInt64.lt_iff_toNat_lt.mpr (by omega)
    have hpublished := hinv.mem_publishedIndices.mpr
      ⟨other, earlier, hother, hn, hall other earlier hother hlt⟩
    rw [hmem] at hpublished
    omega

/-- A step from entries in order keeps them in order exactly when it overtakes no call. -/
theorem ReportInv.publishedInOrder_step {s t : ReportState V} {a : ReportAction V IS}
    (hinv : ReportInv s) (h : ReportStep s a t) (horder : PublishedInOrder s) :
    PublishedInOrder t ↔ InTurn s a := by
  rw [publishedInOrder_iff] at horder ⊢
  rcases hinv.publishedIndices_step h with
    ⟨caller, kind, index, rfl, hpushes, hdrawn, hpublished⟩ | ⟨hpublished, hnone⟩
  · have hnext := hinv.next_iff hpushes hdrawn (horder kind)
    constructor
    · intro hall _ kind' index' hdrawn'
      rw [hdrawn] at hdrawn'
      cases hdrawn'
      have hkind := hall kind
      rw [hpublished, if_pos rfl, (horder kind).concat_iff] at hkind
      exact hnext.mp hkind
    · intro hturn output
      rw [hpublished]
      split
      · next heq =>
        subst heq
        rw [(horder kind).concat_iff]
        exact hnext.mpr (hturn hpushes kind index hdrawn)
      · rw [List.append_nil]
        exact horder output
  · constructor
    · intro _
      cases a with
      | report caller u => trivial
      | manager a =>
        cases a with
        | advance caller =>
          intro hpushes kind index hdrawn
          rw [hnone caller rfl hpushes] at hdrawn
          cases hdrawn
        | _ => trivial
    · intro _ output
      rw [hpublished]
      exact horder output

/-- Entries that are out of order stay so. -/
theorem PublishedInOrder.of_step {s t : ReportState V} {a : ReportAction V IS}
    (hinv : ReportInv s) (h : ReportStep s a t) (horder : PublishedInOrder t) :
    PublishedInOrder s := by
  rw [publishedInOrder_iff] at horder ⊢
  intro kind
  rcases hinv.publishedIndices_step h with ⟨caller, kind', index, -, -, -, heq⟩ | ⟨heq, -⟩
  · have hkind := horder kind
    rw [heq] at hkind
    exact hkind.of_append
  · rw [← heq]
    exact horder kind

omit [AnyValue V] [OacTree V] [Base64VariableCodec V] [InstructionStateCodec V IS] in
/-- How many entries of a kind the threads report. -/
def entryCount (kind : OutputKind) (as : List (ReportAction V IS)) : Nat :=
  as.countP fun
    | .report _ u => u.output? = some kind
    | .manager _ => false

/-- No index wraps around when these reports are made. -/
def FewEntries (s : ReportState V) (as : List (ReportAction V IS)) : Prop :=
  ∀ kind, (s.io.idxGen kind).lastIdx.toNat + entryCount kind as < UInt64.size - 1

omit [AnyValue V] [OacTree V] [Base64VariableCodec V] [InstructionStateCodec V IS] in
/-- The next index does not wrap around. -/
private theorem FewEntries.head {s : ReportState V} {a : ReportAction V IS}
    {as : List (ReportAction V IS)} (h : FewEntries s (a :: as)) (caller : Nat)
    (u : JobUpdate V IS) (kind : OutputKind) (ha : a = .report caller u)
    (houtput : u.output? = some kind) :
    (s.io.idxGen kind).lastIdx.toNat + 1 < UInt64.size := by
  subst ha
  have hkind := h kind
  simp only [entryCount, List.countP_cons, houtput, decide_true, if_pos] at hkind
  omega

/-- Nor do the indices behind it. -/
private theorem FewEntries.tail {s t : ReportState V} {a : ReportAction V IS}
    {as : List (ReportAction V IS)} (h : FewEntries s (a :: as)) (hstep : ReportStep s a t) :
    FewEntries t as := by
  intro kind
  have hkind := h kind
  cases hstep with
  | manager _ _ => simpa [entryCount] using hkind
  | @report caller u _ value hpublication hnone houtput =>
    change ((s.io.afterUpdate u).idxGen kind).lastIdx.toNat + _ < _
    rw [idxGen_afterUpdate, houtput, if_neg nofun]
    simpa [entryCount, houtput] using hkind
  | @draw caller u output value hpublication hnone houtput hentry =>
    have hfew := h.head caller u output rfl houtput
    rw [s.idxGen_draw caller u output kind value houtput]
    split
    · next heq =>
      subst heq
      change (s.io.idxGen output).newIndex.1.toNat + _ < _
      rw [toNat_newIndex hfew]
      simp only [entryCount, List.countP_cons, houtput, decide_true, if_pos] at hkind ⊢
      omega
    · next hne =>
      simpa [entryCount, houtput, hne] using hkind

/-- The invariant holds at the end of a run without a wrapped index, and entries that are in
order there were in order from the start. -/
theorem reportInv_run {s t : ReportState V} {as : List (ReportAction V IS)} (hinv : ReportInv s)
    (hfew : FewEntries s as) (hrun : reportMachine.run s as = some t) :
    ReportInv t ∧ (PublishedInOrder t → PublishedInOrder s) := by
  induction as generalizing s with
  | nil =>
    cases hrun
    exact ⟨hinv, id⟩
  | cons a as ih =>
    obtain ⟨r, hr, ht⟩ := reportMachine.run_cons_eq_some.mp hrun
    have hstep := reportStep_of_step hr
    obtain ⟨hinv', horder⟩ := ih (hinv.step hstep hfew.head) (hfew.tail hstep) ht
    exact ⟨hinv', fun h ↦ (horder h).of_step hinv hstep⟩

/-- A run from entries in order keeps them in order exactly when none of its steps overtakes a
call. -/
theorem publishedInOrder_run {s t : ReportState V} {as : List (ReportAction V IS)}
    (hinv : ReportInv s) (hfew : FewEntries s as) (horder : PublishedInOrder s)
    (hrun : reportMachine.run s as = some t) :
    PublishedInOrder t ↔ reportMachine.EveryStep InTurn s as := by
  induction as generalizing s with
  | nil =>
    cases hrun
    exact iff_of_true horder trivial
  | cons a as ih =>
    obtain ⟨r, hr, ht⟩ := reportMachine.run_cons_eq_some.mp hrun
    have hstep := reportStep_of_step hr
    have hinv' := hinv.step hstep hfew.head
    have hturn := hinv.publishedInOrder_step hstep horder
    constructor
    · intro h
      have horder' := (reportInv_run hinv' (hfew.tail hstep) ht).2 h
      refine ⟨hturn.mp horder', fun r' hr' ↦ ?_⟩
      rw [hr] at hr'
      cases hr'
      exact (ih hinv' (hfew.tail hstep) horder' ht).mp h
    · rintro ⟨hfirst, hrest⟩
      exact (ih hinv' (hfew.tail hstep) (hturn.mpr hfirst) ht).mpr (hrest r hr)

/-- What holds of the calls of the manager. -/
def CallsInv (s : ReportState V) : Prop :=
  ∀ caller, CallInv s.manager caller (s.manager.calls caller)

/-- A step is one of the manager. -/
private theorem ReportStep.managerStep {s t : ReportState V} {a : ReportAction V IS}
    (h : ReportStep s a t) : ∃ b, ManagerStep s.manager b t.manager ∧
      ∀ i, b = .popCommands i → a = .manager (.popCommands i) := by
  cases h with
  | report _ hnone => exact ⟨_, .enter hnone, nofun⟩
  | draw _ hnone => exact ⟨_, .enter hnone, nofun⟩
  | manager _ hstep => exact ⟨_, hstep, fun i hi ↦ congrArg _ hi⟩

/-- What holds of the calls of the manager holds in every state that is reached. -/
private theorem callsInv_run {manager : EPICSAnyValueManager V} {jobPrefix : String}
    {nVars : UInt32} {s : ReportState V} {as : List (ReportAction V IS)}
    (hrun : reportMachine.run (.start manager jobPrefix nVars) as = some s) : CallsInv s := by
  refine @Machine.run_invariant _ _ reportMachine CallsInv (fun hs h ↦ ?_) _ _ _ ?_ hrun
  · obtain ⟨b, hb, -⟩ := (reportStep_of_step h).managerStep
    exact callInv_step hs hb
  · intro caller
    exact (rfl : (ReportState.start manager jobPrefix nVars).manager.pushesOf caller = [])

/-- A run that does not take the queue of a server puts what it pushes to that server behind what
waits there. -/
private theorem waitingAt_run {s t : ReportState V} {as : List (ReportAction V IS)}
    (hs : CallsInv s) (hrun : reportMachine.run s as = some t) {i : Nat}
    (hpop : (.manager (.popCommands i) : ReportAction V IS) ∉ as) :
    ∃ new, t.manager.commandsOf i = s.manager.commandsOf i ++ new ∧
      t.manager.manager.waitingAt i = s.manager.manager.waitingAt i ++ new := by
  induction as generalizing s with
  | nil =>
    cases hrun
    exact ⟨[], (List.append_nil _).symm, (List.append_nil _).symm⟩
  | cons a as ih =>
    obtain ⟨r, hr, ht⟩ := reportMachine.run_cons_eq_some.mp hrun
    rw [List.mem_cons, not_or] at hpop
    obtain ⟨b, hb, hsame⟩ := (reportStep_of_step hr).managerStep
    obtain ⟨first, hcommands, hwaiting⟩ :=
      waitingAt_step hs hb fun hi ↦ hpop.1 (hsame i hi).symm
    obtain ⟨later, hcommands', hwaiting'⟩ := ih (callInv_step hs hb) ht hpop.2
    refine ⟨first ++ later, ?_, ?_⟩
    · rw [hcommands', hcommands, List.append_assoc]
    · rw [hwaiting', hwaiting, List.append_assoc]

omit [InstructionStateCodec V IS] in
/-- What was pushed was pushed to the server of its name. -/
private theorem ReportInv.findServer_of_pushed {s : ReportState V} (hinv : ReportInv s)
    (hcalls : CallsInv s) {p : PushedUpdate V} (hp : p ∈ s.manager.pushed) :
    s.manager.manager.findServer p.name = some p.server := by
  obtain ⟨value, hdone, -⟩ := hinv.pushed p hp
  have hcall := hcalls p.caller
  rw [hdone] at hcall
  obtain ⟨server, updateVal, hfind, -, hpushes⟩ := hcall
  have hown : p ∈ s.manager.pushesOf p.caller := List.mem_filter.mpr ⟨hp, by simp⟩
  rw [hpushes, List.mem_singleton] at hown
  rw [hown]
  exact hfind

/-- In every run of any number of threads that report through one `ServerJobInfoIO`, with fewer
than 2^64 - 1 entries of each kind: what is pushed to a server, and nothing else, is put into its
queue, in this order, and until the queue is taken it stays there; what is pushed to the channel
of a kind goes to the server of the channel, and consists of the encoded entries with the drawn
indices; and the indices are consecutive from 1, so that the last entry has the largest one,
exactly when no call pushes its entry before a call of the same kind that has drawn a smaller
index. -/
theorem entries_published_in_order_iff (manager : EPICSAnyValueManager V) (jobPrefix : String)
    (nVars : UInt32) {t : ReportState V} {as : List (ReportAction V IS)}
    (hfew : ∀ kind, entryCount kind as < UInt64.size - 1)
    (hrun : reportMachine.run (.start manager jobPrefix nVars) as = some t) :
    (∀ before after s i, as = before ++ after →
      reportMachine.run (.start manager jobPrefix nVars) before = some s →
      (.manager (.popCommands i) : ReportAction V IS) ∉ after →
      ∃ new, t.manager.commandsOf i = s.manager.commandsOf i ++ new ∧
        t.manager.manager.waitingAt i = s.manager.manager.waitingAt i ++ new) ∧
    (∀ p ∈ t.manager.pushed, t.manager.manager.findServer p.name = some p.server ∧
      ∀ kind, p.name = t.outputName kind →
        ∃ index value, t.drawn p.caller = some (kind, index) ∧ IsOutputEntry value index kind ∧
          base64EncodeAnyValue value = .ok p.updateVal) ∧
    (PublishedInOrder t ↔
      reportMachine.EveryStep InTurn (.start manager jobPrefix nVars) as) := by
  have hinv := reportInv_start manager jobPrefix nVars
  have hstart : FewEntries (.start manager jobPrefix nVars) as := by
    intro kind
    cases kind
    · exact (Nat.zero_add _).trans_lt (hfew .logEntry)
    · exact (Nat.zero_add _).trans_lt (hfew .messageEntry)
    · exact (Nat.zero_add _).trans_lt (hfew .outputValueEntry)
  have horder : PublishedInOrder (.start manager jobPrefix nVars) :=
    publishedInOrder_iff.mpr fun _ ↦ consecutive_nil
  refine ⟨?_, fun p hp ↦ ⟨?_, fun kind hname ↦ ?_⟩,
    publishedInOrder_run hinv hstart horder hrun⟩
  · rintro before after s i rfl hs hpop
    rw [Machine.run_append, hs, Option.bind_some] at hrun
    exact waitingAt_run (callsInv_run hs) hrun hpop
  · exact (reportInv_run hinv hstart hrun).1.findServer_of_pushed (callsInv_run hrun) hp
  · exact (reportInv_run hinv hstart hrun).1.drawn_of_pushed hp hname

end Order

section Examples

/-- A manager with the channel of the log entries of one job. -/
private def logManager : EPICSAnyValueManager DtoValue :=
  (EPICSAnyValueManager.new.addAnyValues [(getLogEntryName "J", kLogEntryAnyValue DtoValue)]).2

/-- Two threads that log, up to the push of their entries. -/
private def twoLogs : List (ReportAction DtoValue (Bool × UInt32)) :=
  [.report 0 (.log 6 "first"), .report 1 (.log 6 "second"), .manager (.advance 0),
    .manager (.advance 1)]

/-- The thread that has drawn the first index pushes first, and the queue holds what both have
pushed. -/
theorem entries_published_in_order_two_logs :
    ∃ t, reportMachine.run (.start logManager "J" 0)
        (twoLogs ++ [.manager (.advance 0), .manager (.advance 1)]) = some t ∧
      t.publishedIndices .logEntry = [1, 2] ∧
      t.manager.manager.waitingAt 0 = t.manager.commandsOf 0 ∧
      reportMachine.EveryStep InTurn (.start logManager "J" 0)
        (twoLogs ++ [.manager (.advance 0), .manager (.advance 1)]) := by
  obtain ⟨t, ht⟩ : ∃ t, reportMachine.run (.start logManager "J" 0)
      (twoLogs ++ [.manager (.advance 0), .manager (.advance 1)]) = some t :=
    Option.isSome_iff_exists.mp (by rfl)
  have hlog : t.publishedIndices .logEntry = [1, 2] :=
    reportMachine.observe_run (·.publishedIndices .logEntry) ht (by rfl)
  have hmessage : t.publishedIndices .messageEntry = [] :=
    reportMachine.observe_run (·.publishedIndices .messageEntry) ht (by rfl)
  have hvalue : t.publishedIndices .outputValueEntry = [] :=
    reportMachine.observe_run (·.publishedIndices .outputValueEntry) ht (by rfl)
  have hfew : ∀ kind, entryCount kind (twoLogs ++ [.manager (.advance 0), .manager (.advance 1)]) <
      UInt64.size - 1 := by
    intro kind
    cases kind <;> decide
  obtain ⟨hqueue, -, horder⟩ := entries_published_in_order_iff logManager "J" 0 hfew ht
  obtain ⟨new, hcommands, hwaiting⟩ := hqueue [] _ _ 0 rfl rfl (by simp)
  have hempty : logManager.waitingAt 0 = [] := by rfl
  refine ⟨t, ht, hlog, hwaiting.trans ((congrArg (· ++ new) hempty).trans hcommands.symm),
    horder.mp ?_⟩
  rw [publishedInOrder_iff]
  intro kind
  cases kind with
  | logEntry =>
    rw [hlog]
    rfl
  | messageEntry =>
    rw [hmessage]
    rfl
  | outputValueEntry =>
    rw [hvalue]
    rfl

/-- The thread that has drawn the second index overtakes the other one, and the last entry of
the log is the first. -/
theorem overtaking_log_out_of_order :
    ∃ t, reportMachine.run (.start logManager "J" 0)
        (twoLogs ++ [.manager (.advance 1), .manager (.advance 0)]) = some t ∧
      t.publishedIndices .logEntry = [2, 1] ∧ ¬ PublishedInOrder t := by
  obtain ⟨t, ht⟩ : ∃ t, reportMachine.run (.start logManager "J" 0)
      (twoLogs ++ [.manager (.advance 1), .manager (.advance 0)]) = some t :=
    Option.isSome_iff_exists.mp (by rfl)
  have hlog : t.publishedIndices .logEntry = [2, 1] :=
    reportMachine.observe_run (·.publishedIndices .logEntry) ht (by rfl)
  refine ⟨t, ht, hlog, fun horder ↦ ?_⟩
  have hlast := (horder .logEntry).2
  rw [hlog] at hlast
  exact absurd (hlast 1 rfl 2 (by decide)) (by decide)

end Examples

end OacTreeServer.Job
