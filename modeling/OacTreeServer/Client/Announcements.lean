import OacTreeServer.Client.FailedAddition
import OacTreeServer.Library.Announcement
import OacTreeServer.Library.Machine

/-!
# The announcement of the instructions

`ClientAnyValueManager::AddAnyValues` (`base/client_anyvalue_manager.cpp:61`) counts the
instructions while it calls back with their initial values and announces their number to the
consumer behind its loop. The calls of a consumer are listed here with the call of the manager
that makes each of them.
-/

namespace OacTreeServer.Client
open OacTreeServer.Cpp OacTreeServer.External OacTreeServer.Job OacTreeServer.Library
open OacTreeServer.Protocol

/-- A call that gives the manager values. -/
inductive ManagerCall (V : Type) where
  | addAnyValues (nameValueSet : NameAnyValueSet V)
  | updateAnyValue (name : String) (value : V)

/-- The number of names of instructions in a set. -/
def countInstructions {V : Type} (nameValueSet : NameAnyValueSet V) : Nat :=
  nameValueSet.countP fun entry ↦ (parseValueName entry.1).valType = .kInstruction

/-- A manager with the calls that its consumer has received, each behind the call of the manager
that has made it, and the sets for which `AddAnyValues` has returned true. -/
structure ClientSession (V IS : Type) where
  manager : ClientAnyValueManager V IS
  trace : List (ManagerCall V × JobInfoCall V IS)
  added : List (NameAnyValueSet V)

section Definitions

variable {V IS : Type}

namespace ManagerCall

/-- The manager is called. -/
def perform [AnyValue V] [OacTree V] [InstructionStateCodec V IS]
    (manager : ClientAnyValueManager V IS) :
    ManagerCall V → Except Exception (Bool × ClientAnyValueManager V IS)
  | .addAnyValues nameValueSet => manager.addAnyValues nameValueSet
  | .updateAnyValue name value => manager.updateAnyValue name value

/-- The set that a call has added, given its result. -/
def addedSets : ManagerCall V → Bool → List (NameAnyValueSet V)
  | .addAnyValues nameValueSet, true => [nameValueSet]
  | _, _ => []

/-- A call passes a value to the callback of its name: the name is registered already, or it and
the names in front of it in the set that is added are distinct and new. -/
def Passes (manager : ClientAnyValueManager V IS) (entry : String × V) : ManagerCall V → Prop
  | .addAnyValues nameValueSet =>
    ∃ front, front <+: nameValueSet ∧ manager.Addable front ∧ entry ∈ front
  | .updateAnyValue name value => manager.cbMap[name]? ≠ none ∧ entry = (name, value)

/-- A call adds a set with this name. -/
def Names (name : String) : ManagerCall V → Prop
  | .addAnyValues nameValueSet => name ∈ nameValueSet.map Prod.fst
  | .updateAnyValue _ _ => False

/-- A call adds no instruction. -/
def WithoutInstructions : ManagerCall V → Prop
  | .addAnyValues nameValueSet => countInstructions nameValueSet = 0
  | .updateAnyValue _ _ => True

end ManagerCall

/-- At the beginning. -/
def ClientSession.new : ClientSession V IS := ⟨.new, [], []⟩

/-- The manager with the calls that it receives. -/
def sessionMachine [AnyValue V] [OacTree V] [InstructionStateCodec V IS] :
    Machine (ClientSession V IS) (ManagerCall V) where
  step s call :=
    match call.perform s.manager with
    | .error _ => none
    | .ok (result, manager) =>
      some
        { manager
          trace := s.trace ++ (manager.received.drop s.manager.received.length).map (call, ·)
          added := s.added ++ call.addedSets result }

/-- A call of the consumer that reports the state of an instruction. -/
def ReportsInstruction (call : ManagerCall V × JobInfoCall V IS) : Prop :=
  ∃ instrIdx state, call.2 = .update (.instructionStateUpdated instrIdx state)

/-- A call announces more instructions than the index that the other call reports, and as many
as the names of instructions in the set that the manager was called with. -/
def AnnouncesInstruction (announcement report : ManagerCall V × JobInfoCall V IS) : Prop :=
  ∃ nameValueSet nInstr,
    announcement = (.addAnyValues nameValueSet, .initNumberOfInstructions nInstr) ∧
    nInstr.toNat = countInstructions nameValueSet ∧
    ∃ instrIdx state, report.2 = .update (.instructionStateUpdated instrIdx state) ∧
      instrIdx < nInstr

/-- Each state of an instruction is received behind the announcement of the instruction. -/
def InstructionsAnnounced (trace : List (ManagerCall V × JobInfoCall V IS)) : Prop :=
  Announced AnnouncesInstruction ReportsInstruction trace

/-- Each state of an instruction that a call passes to its callback, and that can be decoded,
belongs to an instruction that a set added before has enough names for. -/
def PassesAnnounced [InstructionStateCodec V IS] (s : ClientSession V IS) (call : ManagerCall V) :
    Prop :=
  ∀ entry instrIdx, call.Passes s.manager entry →
    parseValueName entry.1 = ⟨.kInstruction, instrIdx⟩ →
    (decodedInstructionState entry.2).isSome = true →
    ∃ nameValueSet ∈ s.added, instrIdx.toNat < countInstructions nameValueSet ∧
      countInstructions nameValueSet < UInt32.size

end Definitions

/-- The number that `AddAnyValues` announces when it has added a set. -/
def ManagerCall.announcement {V IS : Type} : ManagerCall V → Bool → List (JobInfoCall V IS)
  | .addAnyValues nameValueSet, true =>
    let nInstr := UInt32.ofNat (countInstructions nameValueSet)
    if 0 < nInstr then [.initNumberOfInstructions nInstr] else []
  | _, _ => []

namespace ClientAnyValueManager

variable {V IS : Type} [AnyValue V] [LawfulAnyValue V] [OacTree V] [InstructionStateCodec V IS]

/-- The callback of each registered name is the one for its kind of value. -/
def CallbacksOfNames (manager : ClientAnyValueManager V IS) : Prop :=
  ∀ name cb, manager.cbMap[name]? = some cb → cb = createCallback (parseValueName name)

omit [LawfulAnyValue V] in
/-- Registration of the callbacks of some names keeps them those of their names. -/
private theorem CallbacksOfNames.of_map {manager manager' : ClientAnyValueManager V IS}
    (hmanager : manager.CallbacksOfNames) {names : List String}
    (hmap : ∀ name, manager'.cbMap[name]? = if name ∈ names then
      some (createCallback (parseValueName name)) else manager.cbMap[name]?) :
    manager'.CallbacksOfNames := by
  intro name cb hcb
  rw [hmap] at hcb
  split at hcb
  · exact (Option.some.inj hcb).symm
  · exact hmanager name cb hcb

omit [LawfulAnyValue V] in
/-- Registration of names of a set registers no other name. -/
private theorem names_of_map {manager manager' : ClientAnyValueManager V IS}
    {names : List String} {call : ManagerCall V}
    (hmap : ∀ name, manager'.cbMap[name]? = if name ∈ names then
      some (createCallback (parseValueName name)) else manager.cbMap[name]?)
    (hnames : ∀ name ∈ names, call.Names name) (name : String)
    (h : manager'.cbMap[name]? ≠ none) : manager.cbMap[name]? ≠ none ∨ call.Names name := by
  rw [hmap] at h
  split at h
  · next hmem => exact .inr (hnames name hmem)
  · exact .inl h

/-- A loop that ends without a clash has counted the instructions of its set. -/
private theorem addEach_count {nameValueSet : NameAnyValueSet V}
    {manager manager' : ClientAnyValueManager V IS} {nInstr n : UInt32}
    (h : manager.addEach nInstr nameValueSet = .ok (some n, manager')) :
    n = nInstr + UInt32.ofNat (countInstructions nameValueSet) := by
  induction nameValueSet generalizing manager nInstr with
  | nil =>
    cases h
    simp [countInstructions]
  | cons entry rest ih =>
    rw [addEach] at h
    cases hcb : manager.cbMap[entry.1]? with
    | some cb =>
      rw [hcb] at h
      cases h
    | none =>
      rw [hcb] at h
      dsimp only at h
      rw [createCallback_eq] at h
      rw [ih h, countInstructions, countInstructions, List.countP_cons]
      split
      · next hkind =>
        rw [if_pos (by simpa using hkind), UInt32.ofNat_add, UInt32.add_assoc,
          UInt32.add_comm (UInt32.ofNat _)]
        rfl
      · next hkind => rw [if_neg (by simpa using hkind), Nat.add_zero]

/-- A set of distinct, new names is added with the announcement behind the reports. -/
private theorem addAnyValues_of_addable {nameValueSet : NameAnyValueSet V}
    {manager : ClientAnyValueManager V IS} (hadd : manager.Addable nameValueSet) :
    ∃ manager' : ClientAnyValueManager V IS,
      manager.addAnyValues nameValueSet = .ok (true, manager') ∧
      (∀ name, manager'.cbMap[name]? = if name ∈ nameValueSet.map Prod.fst then
        some (createCallback (parseValueName name)) else manager.cbMap[name]?) ∧
      manager'.received = manager.received ++ ((initialUpdates nameValueSet).map .update ++
        (ManagerCall.addAnyValues nameValueSet).announcement true) := by
  obtain ⟨n, added, hrun, hmap, hreceived⟩ := addEach_fresh 0 hadd.1 hadd.2
  have hn : n = UInt32.ofNat (countInstructions nameValueSet) := by
    rw [addEach_count hrun, UInt32.zero_add]
  unfold addAnyValues
  rw [hrun]
  by_cases hpos : 0 < n
  · refine ⟨added.receive [.initNumberOfInstructions n], ?_, hmap, ?_⟩
    · simp [bind, Except.bind, pure, Except.pure, hpos]
    · rw [received_receive, hreceived, List.append_assoc]
      simp only [ManagerCall.announcement, ← hn, if_pos hpos]
  · refine ⟨added, ?_, hmap, ?_⟩
    · simp [bind, Except.bind, pure, Except.pure, hpos]
    · rw [hreceived]
      simp only [ManagerCall.announcement, ← hn, if_neg hpos, List.append_nil]

omit [AnyValue V] [LawfulAnyValue V] [OacTree V] [InstructionStateCodec V IS] in
/-- The names of a set in front of others are distinct and new with them. -/
private theorem Addable.of_prefix {manager : ClientAnyValueManager V IS}
    {front nameValueSet : NameAnyValueSet V} (hadd : manager.Addable nameValueSet)
    (hfront : front <+: nameValueSet) : manager.Addable front := by
  have hsub : List.Sublist (front.map Prod.fst) (nameValueSet.map Prod.fst) :=
    hfront.sublist.map Prod.fst
  exact ⟨hsub.nodup hadd.1, fun name hname ↦ hadd.2 name (hsub.subset hname)⟩

omit [AnyValue V] [LawfulAnyValue V] [OacTree V] [InstructionStateCodec V IS] in
/-- An addition that stops at a name that is known by then passes what stands in front of it. -/
private theorem passes_clash_iff {manager : ClientAnyValueManager V IS}
    {front : NameAnyValueSet V} {name : String} (hfront : manager.Addable front)
    (hclash : manager.cbMap[name]? = none → name ∈ front.map Prod.fst) (value : V)
    (rest : NameAnyValueSet V) (entry : String × V) :
    (ManagerCall.addAnyValues (front ++ (name, value) :: rest)).Passes manager entry ↔
      entry ∈ front := by
  have hstop : ¬ manager.Addable (front ++ [(name, value)]) := by
    intro hadd
    have hnew : manager.cbMap[name]? = none := hadd.2 name (by simp)
    have hnodup := hadd.1
    rw [List.map_append, List.nodup_append] at hnodup
    exact hnodup.2.2 name (hclash hnew) name (by simp) rfl
  constructor
  · rintro ⟨other, hother, hadd, hmem⟩
    rw [List.append_cons] at hother
    cases List.prefix_or_prefix_of_prefix hother (List.prefix_append _ rest) with
    | inl hle =>
      cases List.prefix_concat_iff.mp hle with
      | inl heq => exact absurd (heq ▸ hadd) hstop
      | inr hle => exact hle.subset hmem
    | inr hle => exact absurd (hadd.of_prefix hle) hstop
  · exact fun hmem ↦ ⟨front, List.prefix_append _ _, hfront, hmem⟩

/-- A call passes some entries to their callbacks, and the consumer receives the reports that
they stand for and then the announcement. -/
private theorem perform_eq {manager : ClientAnyValueManager V IS}
    (hmanager : manager.CallbacksOfNames) (call : ManagerCall V) :
    ∃ (result : Bool) (manager' : ClientAnyValueManager V IS) (entries : NameAnyValueSet V),
      call.perform manager = .ok (result, manager') ∧ manager'.CallbacksOfNames ∧
      (∀ name, manager'.cbMap[name]? ≠ none →
        manager.cbMap[name]? ≠ none ∨ call.Names name) ∧
      (∀ entry, call.Passes manager entry ↔ entry ∈ entries) ∧
      manager'.received = manager.received ++
        ((initialUpdates entries).map .update ++ call.announcement result) := by
  cases call with
  | addAnyValues nameValueSet =>
    by_cases hadd : manager.Addable nameValueSet
    · obtain ⟨manager', hrun, hmap, hreceived⟩ := addAnyValues_of_addable hadd
      refine ⟨true, manager', nameValueSet, hrun, hmanager.of_map hmap,
        names_of_map hmap fun _ h ↦ h, ?_, hreceived⟩
      intro entry
      constructor
      · rintro ⟨front, hfront, -, hmem⟩
        exact hfront.subset hmem
      · exact fun hmem ↦ ⟨nameValueSet, List.prefix_rfl, hadd, hmem⟩
    · rcases exists_first_clash hadd with ⟨front, name, value, rest, rfl, hfront, hclash⟩
      obtain ⟨manager', hrun, hmap, hreceived⟩ := addAnyValues_clash hfront hclash value rest
      refine ⟨false, manager', front, hrun, hmanager.of_map hmap, names_of_map hmap ?_,
        passes_clash_iff hfront hclash value rest, ?_⟩
      · intro other hother
        rw [ManagerCall.Names, List.map_append]
        exact List.mem_append_left _ hother
      rw [hreceived]
      simp [ManagerCall.announcement]
  | updateAnyValue name value =>
    cases hcb : manager.cbMap[name]? with
    | none =>
      refine ⟨false, manager, [], updateAnyValue_of_none hcb value, hmanager,
        fun _ h ↦ .inl h, ?_, ?_⟩
      · intro entry
        simp [ManagerCall.Passes, hcb]
      · simp [initialUpdates, ManagerCall.announcement]
    | some cb =>
      have hname := hcb
      rw [hmanager name cb hcb] at hname
      refine ⟨true, _, [(name, value)], updateAnyValue_of_some hname value, hmanager,
        fun _ h ↦ .inl h, ?_, ?_⟩
      · intro entry
        simp [ManagerCall.Passes, hcb]
      · simp [initialUpdates, ManagerCall.announcement]

end ClientAnyValueManager

section Runs

variable {V IS : Type} [AnyValue V] [OacTree V] [InstructionStateCodec V IS]

omit [AnyValue V] [OacTree V] in
/-- A value that stands for the state of an instruction is named after it. -/
private theorem decodedUpdate_eq_instruction_iff [AnyValue V] [OacTree V] {info : ValueNameInfo}
    {value : V} {instrIdx : UInt32} {state : IS} :
    decodedUpdate info value = some (.instructionStateUpdated instrIdx state) ↔
      info = ⟨.kInstruction, instrIdx⟩ ∧ decodedInstructionState value = some state := by
  rcases info with ⟨kind, idx⟩
  cases kind <;> simp [decodedUpdate]
  constructor
  · rintro ⟨h, rfl⟩
    exact ⟨rfl, h⟩
  · rintro ⟨rfl, h⟩
    exact ⟨h, rfl⟩

/-- What the states of a run have in common. -/
structure SessionInv (s : ClientSession V IS) : Prop where
  callbacks : s.manager.CallbacksOfNames
  trace_received : s.trace.map Prod.snd = s.manager.received
  announced_iff : ∀ call nInstr, (call, .initNumberOfInstructions nInstr) ∈ s.trace ↔
    ∃ nameValueSet ∈ s.added, call = .addAnyValues nameValueSet ∧
      nInstr = UInt32.ofNat (countInstructions nameValueSet) ∧ 0 < nInstr

omit [OacTree V] in
/-- Nothing has been received at first. -/
theorem sessionInv_new [OacTree V] : SessionInv (.new : ClientSession V IS) where
  callbacks := fun name cb hcb ↦ by simp [ClientSession.new, ClientAnyValueManager.new] at hcb
  trace_received := rfl
  announced_iff := by simp [ClientSession.new]

omit [AnyValue V] [OacTree V] [InstructionStateCodec V IS] in
/-- A set is added by the call of `AddAnyValues` for it. -/
private theorem mem_addedSets_iff {call : ManagerCall V} {result : Bool}
    {nameValueSet : NameAnyValueSet V} :
    nameValueSet ∈ call.addedSets result ↔
      call = .addAnyValues nameValueSet ∧ result = true := by
  cases call with
  | updateAnyValue name value => simp [ManagerCall.addedSets]
  | addAnyValues other => cases result <;> simp [ManagerCall.addedSets, eq_comm]

omit [AnyValue V] [OacTree V] [InstructionStateCodec V IS] in
/-- A call that has added a set announces the number of its instructions. -/
private theorem mem_announcement_iff {call : ManagerCall V} {result : Bool} {nInstr : UInt32} :
    (.initNumberOfInstructions nInstr : JobInfoCall V IS) ∈ call.announcement result ↔
      ∃ nameValueSet ∈ call.addedSets result,
        nInstr = UInt32.ofNat (countInstructions nameValueSet) ∧ 0 < nInstr := by
  cases call with
  | updateAnyValue name value => simp [ManagerCall.announcement, ManagerCall.addedSets]
  | addAnyValues nameValueSet =>
    cases result with
    | false => simp [ManagerCall.announcement, ManagerCall.addedSets]
    | true =>
      simp only [ManagerCall.announcement, ManagerCall.addedSets, List.mem_singleton,
        exists_eq_left]
      split
      · next hpos =>
        rw [List.mem_singleton, JobInfoCall.initNumberOfInstructions.injEq]
        constructor
        · rintro rfl
          exact ⟨rfl, hpos⟩
        · exact fun h ↦ h.1
      · next hpos =>
        constructor
        · nofun
        · rintro ⟨rfl, hn⟩
          exact absurd hn hpos

variable [LawfulAnyValue V]

/-- What a call of the manager adds to the calls of the consumer. -/
private theorem SessionInv.step {s : ClientSession V IS} (hs : SessionInv s)
    (call : ManagerCall V) :
    ∃ (t : ClientSession V IS) (result : Bool) (entries : NameAnyValueSet V),
      sessionMachine.step s call = some t ∧ SessionInv t ∧
      (∀ name, t.manager.cbMap[name]? ≠ none →
        s.manager.cbMap[name]? ≠ none ∨ call.Names name) ∧
      t.added = s.added ++ call.addedSets result ∧
      (∀ entry, call.Passes s.manager entry ↔ entry ∈ entries) ∧
      t.trace = s.trace ++ (initialUpdates entries).map (fun u ↦ (call, .update u)) ++
        (call.announcement result).map (call, ·) := by
  obtain ⟨result, manager', entries, hrun, hcallbacks, hnames, hentries, hreceived⟩ :=
    ClientAnyValueManager.perform_eq hs.callbacks call
  have hnew : manager'.received.drop s.manager.received.length =
      (initialUpdates entries).map .update ++ call.announcement result := by
    rw [hreceived, List.drop_left]
  refine ⟨⟨manager', s.trace ++ (manager'.received.drop s.manager.received.length).map (call, ·),
    s.added ++ call.addedSets result⟩, result, entries, ?_, ⟨hcallbacks, ?_, ?_⟩, hnames, rfl,
    hentries, ?_⟩
  · simp only [sessionMachine, hrun]
  · rw [hnew, hreceived, List.map_append, hs.trace_received, List.map_map]
    simp [Function.comp_def]
  · intro other nInstr
    have hmem : (other, JobInfoCall.initNumberOfInstructions nInstr) ∈
        ((initialUpdates entries).map JobInfoCall.update ++ call.announcement result).map
          (call, ·) ↔
        other = call ∧
          (.initNumberOfInstructions nInstr : JobInfoCall V IS) ∈ call.announcement result := by
      simp [eq_comm, and_comm]
    rw [hnew, List.mem_append, hs.announced_iff, hmem, mem_announcement_iff]
    constructor
    · rintro (⟨nameValueSet, hset, h⟩ | ⟨rfl, nameValueSet, hset, h⟩)
      · exact ⟨nameValueSet, List.mem_append_left _ hset, h⟩
      · exact ⟨nameValueSet, List.mem_append_right _ hset, (mem_addedSets_iff.mp hset).1, h⟩
    · rintro ⟨nameValueSet, hset, hother, h⟩
      cases List.mem_append.mp hset with
      | inl hset => exact .inl ⟨nameValueSet, hset, hother, h⟩
      | inr hset =>
        exact .inr ⟨hother.trans (mem_addedSets_iff.mp hset).1.symm, nameValueSet, hset, h⟩
  · rw [hnew, List.map_append, List.map_map, List.append_assoc]
    rfl

omit [AnyValue V] [OacTree V] [LawfulAnyValue V] [InstructionStateCodec V IS] in
/-- A trace announces an instruction if a set with enough names of instructions was added. -/
private theorem exists_announcement_iff [AnyValue V] [OacTree V] [InstructionStateCodec V IS]
    {s : ClientSession V IS} (hs : SessionInv s) (call : ManagerCall V) (instrIdx : UInt32)
    (state : IS) :
    (∃ a ∈ s.trace, AnnouncesInstruction a
        (call, .update (.instructionStateUpdated instrIdx state))) ↔
      ∃ nameValueSet ∈ s.added, instrIdx.toNat < countInstructions nameValueSet ∧
        countInstructions nameValueSet < UInt32.size := by
  constructor
  · rintro ⟨_, hmem, nameValueSet, nInstr, rfl, hcount, idx, st, heq, hlt⟩
    cases heq
    obtain ⟨other, hadded, hcall, -, -⟩ := (hs.announced_iff _ _).mp hmem
    cases hcall
    rw [UInt32.lt_iff_toNat_lt, hcount] at hlt
    refine ⟨nameValueSet, hadded, hlt, ?_⟩
    rw [← hcount]
    exact nInstr.toNat_lt_size
  · rintro ⟨nameValueSet, hadded, hlt, hsize⟩
    have hcount : (UInt32.ofNat (countInstructions nameValueSet)).toNat =
        countInstructions nameValueSet := UInt32.toNat_ofNat_of_lt' hsize
    have hidx : instrIdx < UInt32.ofNat (countInstructions nameValueSet) := by
      rw [UInt32.lt_iff_toNat_lt, hcount]
      exact hlt
    have hpos : 0 < UInt32.ofNat (countInstructions nameValueSet) := by
      rw [UInt32.lt_iff_toNat_lt, hcount]
      exact Nat.zero_lt_of_lt hlt
    exact ⟨_, (hs.announced_iff _ _).mpr ⟨nameValueSet, hadded, rfl, rfl, hpos⟩,
      nameValueSet, _, rfl, hcount, instrIdx, state, rfl, hidx⟩

omit [AnyValue V] [OacTree V] [LawfulAnyValue V] [InstructionStateCodec V IS] in
/-- An announcement reports nothing. -/
private theorem update_notMem_announcement (call : ManagerCall V) (result : Bool)
    (u : JobUpdate V IS) : .update u ∉ call.announcement result := by
  unfold ManagerCall.announcement
  split
  · dsimp only
    split <;> simp
  · simp

omit [LawfulAnyValue V] in
/-- The entries of a set report the state of an instruction when one is named after it and
decodes. -/
private theorem instruction_mem_initialUpdates {entries : NameAnyValueSet V}
    {instrIdx : UInt32} {state : IS} :
    .instructionStateUpdated instrIdx state ∈ initialUpdates entries ↔
      ∃ entry ∈ entries, parseValueName entry.1 = ⟨.kInstruction, instrIdx⟩ ∧
        decodedInstructionState entry.2 = some state := by
  simp only [initialUpdates, List.mem_flatMap, Option.mem_toList,
    decodedUpdate_eq_instruction_iff]

/-- A call keeps the instructions announced if those that it reports are announced before. -/
private theorem SessionInv.step_announced_iff {s t : ClientSession V IS} (hs : SessionInv s)
    {call : ManagerCall V} (h : sessionMachine.step s call = some t) :
    InstructionsAnnounced t.trace ↔ InstructionsAnnounced s.trace ∧ PassesAnnounced s call := by
  obtain ⟨t', result, entries, hstep, -, -, -, hentries, htrace⟩ := hs.step call
  cases h.symm.trans hstep
  have hlast : ∀ e : ManagerCall V × JobInfoCall V IS,
      e ∈ (call.announcement result).map (call, ·) → ¬ ReportsInstruction e := by
    rintro _ hmem ⟨idx, state, heq⟩
    obtain ⟨c, hc, rfl⟩ := List.mem_map.mp hmem
    cases heq
    exact update_notMem_announcement call result _ hc
  have hfirst : ∀ a : ManagerCall V × JobInfoCall V IS,
      a ∈ (initialUpdates entries).map (fun u ↦ (call, .update u)) →
        ∀ e, ¬ AnnouncesInstruction a e := by
    rintro _ hmem e ⟨_, _, heq, -⟩
    obtain ⟨u, -, rfl⟩ := List.mem_map.mp hmem
    cases heq
  unfold InstructionsAnnounced
  rw [htrace, announced_append fun _ _ e he hneeds ↦ absurd hneeds (hlast e he),
    announced_append fun a ha e _ _ ↦ hfirst a ha e,
    and_iff_left fun e he hneeds ↦ absurd hneeds (hlast e he)]
  apply and_congr_right
  intro _
  constructor
  · intro hall entry instrIdx hpasses hname hdecoded
    obtain ⟨state, hstate⟩ := Option.isSome_iff_exists.mp hdecoded
    have hmem := instruction_mem_initialUpdates.mpr
      ⟨entry, (hentries entry).mp hpasses, hname, hstate⟩
    exact (exists_announcement_iff hs call instrIdx state).mp
      (hall _ (List.mem_map_of_mem hmem) ⟨instrIdx, state, rfl⟩)
  · rintro hpasses _ hmem ⟨instrIdx, state, heq⟩
    obtain ⟨u, hu, rfl⟩ := List.mem_map.mp hmem
    cases heq
    obtain ⟨entry, hentry, hname, hstate⟩ := instruction_mem_initialUpdates.mp hu
    exact (exists_announcement_iff hs call instrIdx state).mpr
      (hpasses entry instrIdx ((hentries entry).mpr hentry) hname (by rw [hstate]; rfl))

/-- From a state on, calls keep the instructions announced if each of them reports what is
announced before. No call throws. -/
private theorem SessionInv.run_announced_iff {s : ClientSession V IS} (hs : SessionInv s)
    (calls : List (ManagerCall V)) :
    ∃ t, sessionMachine.run s calls = some t ∧ SessionInv t ∧
      (InstructionsAnnounced t.trace ↔ InstructionsAnnounced s.trace ∧
        sessionMachine.EveryStep PassesAnnounced s calls) := by
  induction calls generalizing s with
  | nil => exact ⟨s, rfl, hs, by simp [Machine.EveryStep]⟩
  | cons call calls ih =>
    obtain ⟨r, _, _, hstep, hr, -⟩ := hs.step call
    obtain ⟨t, hrun, ht, hiff⟩ := ih hr
    refine ⟨t, sessionMachine.run_cons_eq_some.mpr ⟨r, hstep, hrun⟩, ht, ?_⟩
    rw [hiff, hs.step_announced_iff hstep, and_assoc]
    apply and_congr_right
    intro _
    constructor
    · rintro ⟨hpasses, hrest⟩
      refine ⟨hpasses, fun r' hr' ↦ ?_⟩
      cases hstep.symm.trans hr'
      exact hrest
    · exact fun h ↦ ⟨h.1, h.2 r hstep⟩

/-- No instruction has been registered. -/
structure NoInstructions (s : ClientSession V IS) : Prop where
  added : ∀ nameValueSet ∈ s.added, countInstructions nameValueSet = 0
  unknown : ∀ name, (parseValueName name).valType = .kInstruction →
    s.manager.cbMap[name]? = none

omit [AnyValue V] [LawfulAnyValue V] [OacTree V] [InstructionStateCodec V IS] in
/-- The names of a set without instructions are not names of instructions. -/
private theorem ne_kInstruction_of_count {nameValueSet : NameAnyValueSet V}
    (h : countInstructions nameValueSet = 0) {name : String}
    (hname : name ∈ nameValueSet.map Prod.fst) :
    (parseValueName name).valType ≠ .kInstruction := by
  obtain ⟨entry, hentry, rfl⟩ := List.mem_map.mp hname
  simpa using List.countP_eq_zero.mp h entry hentry

/-- Calls without instructions register none. -/
private theorem noInstructions_of_run {calls : List (ManagerCall V)} {s : ClientSession V IS}
    (hcalls : ∀ call ∈ calls, call.WithoutInstructions)
    (hrun : sessionMachine.run .new calls = some s) : SessionInv s ∧ NoInstructions s := by
  have hsteps : sessionMachine.EveryStep (fun _ call ↦ call.WithoutInstructions)
      (.new : ClientSession V IS) calls := Machine.everyStep_of_forall_mem _ hcalls
  refine @Machine.run_invariant_of_everyStep _ _ _ _ (fun s ↦ SessionInv s ∧ NoInstructions s)
    ?_ _ _ _ ⟨sessionInv_new, ?_⟩ hsteps hrun
  · rintro s call t ⟨hs, hnone⟩ hcall hstep
    obtain ⟨t', result, _, hstep', ht, hnames, hadded, -⟩ := hs.step call
    cases hstep.symm.trans hstep'
    refine ⟨ht, ?_, ?_⟩
    · intro nameValueSet hset
      rw [hadded] at hset
      cases List.mem_append.mp hset with
      | inl hold => exact hnone.added nameValueSet hold
      | inr hnew =>
        rw [(mem_addedSets_iff.mp hnew).1] at hcall
        exact hcall
    · intro name hkind
      by_contra hname
      cases hnames name hname with
      | inl hold => exact hold (hnone.unknown name hkind)
      | inr hnew =>
        cases call with
        | updateAnyValue => exact hnew
        | addAnyValues nameValueSet =>
          exact ne_kInstruction_of_count hcall hnew hkind
  · exact ⟨by simp [ClientSession.new],
      fun name _ ↦ by simp [ClientSession.new, ClientAnyValueManager.new]⟩

/-- The first set of instructions is never announced before its states: when the initial value
of an instruction decodes, the addition of the instructions of a job to a manager that has no
instruction yet reports a state that nothing has announced. -/
theorem first_instructions_not_announced {pre : String} (hp : pre ≠ "") {nInstr : UInt32}
    (hn : 0 < nInstr)
    (hinitial : (decodedInstructionState (OacTree.kInstructionStateAnyValue : V)).isSome = true)
    {before : List (ManagerCall V)}
    (hbefore : ∀ call ∈ before, call.WithoutInstructions)
    (after : List (ManagerCall V)) {s : ClientSession V IS}
    (hrun : sessionMachine.run .new
      (before ++ .addAnyValues (getInstructionValueSet pre nInstr) :: after) = some s) :
    ¬ InstructionsAnnounced s.trace := by
  rw [Machine.run_append] at hrun
  obtain ⟨r, hr, hrest⟩ := Option.bind_eq_some_iff.mp hrun
  have ⟨hinv, hnone⟩ := noInstructions_of_run hbefore hr
  obtain ⟨t, ht, -, hiff⟩ :=
    hinv.run_announced_iff (.addAnyValues (getInstructionValueSet pre nInstr) :: after)
  cases hrest.symm.trans ht
  rw [hiff]
  rintro ⟨-, hpasses, -⟩
  have hname : parseValueName (getInstructionPVName pre 0) = ⟨.kInstruction, 0⟩ :=
    parseValueName_channelName hp (.instructionState 0)
  have hadd : r.manager.Addable (getInstructionValueSet pre nInstr) := by
    constructor
    · rw [getInstructionValueSet_names]
      exact nodup_channelNames (nodup_instructionKinds nInstr)
    · rw [getInstructionValueSet_names]
      intro name hmem
      obtain ⟨kind, hkind, rfl⟩ := List.mem_map.mp hmem
      obtain ⟨i, -, rfl⟩ := List.mem_map.mp hkind
      apply hnone.unknown
      rw [parseValueName_channelName hp]
      rfl
  have hentry : (getInstructionPVName pre 0, OacTree.kInstructionStateAnyValue) ∈
      (getInstructionValueSet pre nInstr : NameAnyValueSet V) :=
    List.mem_map.mpr ⟨0, mem_loopIndices.mpr hn, rfl⟩
  obtain ⟨nameValueSet, hadded, hlt, -⟩ :=
    hpasses _ 0 ⟨_, List.prefix_rfl, hadd, hentry⟩ hname hinitial
  rw [hnone.added nameValueSet hadded] at hlt
  exact absurd hlt (Nat.not_lt_zero _)

/-- Whatever values a manager is given, its consumer receives the state of an instruction only
behind an announcement of more instructions, as many as were registered, exactly when each call
that passes such a state to a callback comes behind the addition of a set with enough names. -/
theorem instructions_announced_iff (calls : List (ManagerCall V)) :
    ∃ s : ClientSession V IS, sessionMachine.run .new calls = some s ∧
      s.trace.map Prod.snd = s.manager.received ∧
      (InstructionsAnnounced s.trace ↔ sessionMachine.EveryStep PassesAnnounced .new calls) := by
  have hnew : SessionInv (.new : ClientSession V IS) := sessionInv_new
  obtain ⟨s, hrun, hs, hiff⟩ := hnew.run_announced_iff calls
  refine ⟨s, hrun, hs.trace_received, ?_⟩
  rw [hiff]
  exact and_iff_right announced_nil

end Runs

/-- An instruction whose value is no state is announced in front of the states of others. -/
theorem instructions_announced_behind_other_set :
    ∃ s : ClientSession DtoValue (Bool × UInt32),
      sessionMachine.run .new [.addAnyValues [(getInstructionPVName "K" 0, .empty)],
        .addAnyValues (getInstructionValueSet "J" 1)] = some s ∧
      InstructionsAnnounced s.trace := by
  obtain ⟨s, hrun, -, hiff⟩ := @instructions_announced_iff DtoValue (Bool × UInt32) _ _ _ _
    [.addAnyValues [(getInstructionPVName "K" 0, .empty)],
      .addAnyValues (getInstructionValueSet "J" 1)]
  refine ⟨s, hrun, hiff.mpr ⟨?_, fun t ht ↦ ⟨?_, fun _ _ ↦ trivial⟩⟩⟩
  · rintro entry instrIdx ⟨front, hfront, -, hmem⟩ - hdecoded
    rw [List.mem_singleton.mp (hfront.subset hmem)] at hdecoded
    cases hdecoded
  · rintro entry instrIdx ⟨front, hfront, -, hmem⟩ hname -
    rw [List.mem_singleton.mp (hfront.subset hmem)] at hname
    have hadded : t.added = [[(getInstructionPVName "K" 0, .empty)]] := by
      cases ht
      rfl
    have hidx : instrIdx = 0 := (congrArg ValueNameInfo.idx hname).symm.trans rfl
    rw [hadded, hidx]
    exact ⟨_, List.mem_singleton_self _, by decide, by decide⟩

/-- A manager that is given the only instruction of a job: the consumer receives the state of the
instruction and then the announcement. -/
theorem instruction_state_before_announcement :
    ∃ s : ClientSession DtoValue (Bool × UInt32),
      sessionMachine.run .new [.addAnyValues (getInstructionValueSet "J" 1)] = some s ∧
      s.manager.received = [.update (.instructionStateUpdated 0 (false, 0)),
        .initNumberOfInstructions 1] ∧
      ¬ InstructionsAnnounced s.trace := by
  refine ⟨_, rfl, rfl, fun h ↦ ?_⟩
  obtain ⟨a, hmem, -⟩ := h [] _ _ rfl ⟨0, (false, 0), rfl⟩
  cases hmem

end OacTreeServer.Client
