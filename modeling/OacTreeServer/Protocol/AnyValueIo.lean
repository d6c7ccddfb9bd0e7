import Mathlib.Data.List.Nodup
import OacTreeServer.Protocol.Entries

/-!
# The values that are published for a job

`IAnyValueManager` is what a job publishes its values through: the EPICS servers on the
side of the server, the callbacks of the user interface on the side of the client. The
two sets of values that a job is registered with come from `base/i_anyvalue_io.cpp:49`
and are added by `base/anyvalue_io_helper.cpp:32`, which discards all results.
-/

namespace OacTreeServer.Protocol
open OacTreeServer.External

/-- A list of names with values; `i_anyvalue_io.h:43`. -/
abbrev NameAnyValueSet (V : Type) := List (String × V)

/-- `GetNames`; `i_anyvalue_io.cpp:38`. The order of the set is not observed. -/
def getNames {V : Type} (nameValueSet : NameAnyValueSet V) : List String :=
  (nameValueSet.map Prod.fst).dedup

/-- `IAnyValueManager`, without its user input: an operation may throw, else it returns
its result and the manager behind it; `i_anyvalue_manager.h:48`. -/
class IAnyValueManager (M : Type) (V : outParam Type) where
  addAnyValues : M → NameAnyValueSet V → Except Exception (Bool × M)
  addInputHandler : M → String → Except Exception (Bool × M)
  updateAnyValue : M → String → V → Except Exception (Bool × M)

/-- The values of the index of a loop that counts from zero to below `n`. -/
def loopIndices (n : UInt32) : List UInt32 := (List.range n.toNat).map UInt32.ofNat

/-- No value of the index of a loop wraps around. -/
private theorem toNat_loopIndex {n : UInt32} {k : Nat} (hk : k < n.toNat) :
    (UInt32.ofNat k).toNat = k :=
  UInt32.toNat_ofNat_of_lt' (hk.trans n.toNat_lt_size)

/-- The index of a loop takes every value below its bound. -/
@[simp] theorem mem_loopIndices {n i : UInt32} : i ∈ loopIndices n ↔ i < n := by
  rw [loopIndices, List.mem_map, UInt32.lt_iff_toNat_lt]
  constructor
  · rintro ⟨k, hk, rfl⟩
    rw [List.mem_range] at hk
    rw [toNat_loopIndex hk]
    exact hk
  · intro hi
    exact ⟨i.toNat, List.mem_range.mpr hi, UInt32.ofNat_toNat⟩

/-- The index of a loop takes no value twice. -/
theorem nodup_loopIndices (n : UInt32) : (loopIndices n).Nodup := by
  apply List.Nodup.map_on _ List.nodup_range
  intro i hi j hj hij
  rw [List.mem_range] at hi hj
  rw [← toNat_loopIndex hi, ← toNat_loopIndex hj, hij]

section Definitions

variable {V : Type} [AnyValue V] [OacTree V]

/-- `GetInitialValueSet`; `i_anyvalue_io.cpp:49`. -/
def getInitialValueSet (pre : String) (nVars : UInt32) : NameAnyValueSet V :=
  [(getJobStatePVName pre, getJobStateValue (OacTree.kInitial V)),
    (getBreakpointInstructionPVName pre,
      getBreakpointInstructionValue (OacTree.kInvalidInstructionIndex V)),
    (getLogEntryName pre, kLogEntryAnyValue V),
    (getMessageEntryName pre, kMessageEntryAnyValue V),
    (getOutputValueEntryName pre, kOutputValueEntryAnyValue V)] ++
  (loopIndices nVars).map fun varIdx ↦ (getVariablePVName pre varIdx, kVariableAnyValue V)

/-- `GetInstructionValueSet`; `i_anyvalue_io.cpp:73`. -/
def getInstructionValueSet (pre : String) (nInstr : UInt32) : NameAnyValueSet V :=
  (loopIndices nInstr).map fun instrIdx ↦
    (getInstructionPVName pre instrIdx, OacTree.kInstructionStateAnyValue)

variable {M : Type} [IAnyValueManager M V]

/-- `InitializeJobAndVariables`; `anyvalue_io_helper.cpp:32`. -/
def initializeJobAndVariables (manager : M) (pre : String) (nVars : UInt32) :
    Except Exception M := do
  let (_, manager) ← IAnyValueManager.addAnyValues manager (getInitialValueSet pre nVars)
  let (_, manager) ← IAnyValueManager.addInputHandler manager (getInputServerName pre)
  return manager

/-- `InitializeInstructions`; `anyvalue_io_helper.cpp:41`. -/
def initializeInstructions (manager : M) (pre : String) (nInstr : UInt32) :
    Except Exception M := do
  let (_, manager) ← IAnyValueManager.addAnyValues manager (getInstructionValueSet pre nInstr)
  return manager

/-- Registration of a job makes two calls of the manager, whatever they return. -/
theorem initializeJobAndVariables_ok {manager m₀ m₁ : M} {pre : String} {nVars : UInt32}
    {added handled : Bool}
    (hadd : IAnyValueManager.addAnyValues manager (getInitialValueSet pre nVars) = .ok (added, m₀))
    (hhandle : IAnyValueManager.addInputHandler m₀ (getInputServerName pre) = .ok (handled, m₁)) :
    initializeJobAndVariables manager pre nVars = .ok m₁ := by
  unfold initializeJobAndVariables
  rw [hadd]
  change (IAnyValueManager.addInputHandler m₀ (getInputServerName pre) >>= _) = _
  rw [hhandle]
  rfl

omit [AnyValue V] in
/-- Registration of the instructions makes one call of the manager, whatever it returns. -/
theorem initializeInstructions_ok {manager m₀ : M} {pre : String} {nInstr : UInt32}
    {added : Bool}
    (hadd : IAnyValueManager.addAnyValues manager (getInstructionValueSet pre nInstr) =
      .ok (added, m₀)) :
    initializeInstructions manager pre nInstr = .ok m₀ := by
  unfold initializeInstructions
  rw [hadd]
  rfl

end Definitions

/-- The channels of the initial values of a job. -/
def initialKinds (nVars : UInt32) : List ChannelKind :=
  [.jobState, .breakpointInstruction, .logEntry, .messageEntry, .outputValueEntry] ++
    (loopIndices nVars).map .variableState

/-- The channels of the instructions of a job. -/
def instructionKinds (nInstr : UInt32) : List ChannelKind :=
  (loopIndices nInstr).map .instructionState

/-- The initial values are named after their channels. -/
theorem getInitialValueSet_names {V : Type} [AnyValue V] [OacTree V] (pre : String)
    (nVars : UInt32) :
    (getInitialValueSet pre nVars : NameAnyValueSet V).map Prod.fst =
      (initialKinds nVars).map (channelName pre) := by
  simp [getInitialValueSet, initialKinds, channelName]

/-- The values of the instructions are named after their channels. -/
theorem getInstructionValueSet_names {V : Type} [OacTree V] (pre : String) (nInstr : UInt32) :
    (getInstructionValueSet pre nInstr : NameAnyValueSet V).map Prod.fst =
      (instructionKinds nInstr).map (channelName pre) := by
  simp [getInstructionValueSet, instructionKinds, channelName]

/-- No channel is among the initial ones twice. -/
theorem nodup_initialKinds (nVars : UInt32) : (initialKinds nVars).Nodup := by
  have hvars : ((loopIndices nVars).map ChannelKind.variableState).Nodup := by
    apply (nodup_loopIndices nVars).map
    intro i j h
    injection h
  simp [initialKinds, hvars]

/-- No channel is among those of the instructions twice. -/
theorem nodup_instructionKinds (nInstr : UInt32) : (instructionKinds nInstr).Nodup := by
  apply (nodup_loopIndices nInstr).map
  intro i j h
  injection h

/-- The channels of the values of a job. -/
def jobKinds (nVars nInstr : UInt32) : List ChannelKind :=
  initialKinds nVars ++ instructionKinds nInstr

/-- The values of a job are those without an index and those with an index in range. -/
theorem mem_jobKinds {nVars nInstr : UInt32} {kind : ChannelKind} :
    kind ∈ jobKinds nVars nInstr ↔
      match kind with
      | .instructionState index => index < nInstr
      | .variableState index => index < nVars
      | .inputServer | .inputRequest => False
      | _ => True := by
  cases kind <;> simp [jobKinds, initialKinds, instructionKinds]

/-- The channels of the instructions are not initial ones. -/
theorem notMem_initialKinds {nVars nInstr : UInt32} {kind : ChannelKind}
    (h : kind ∈ instructionKinds nInstr) : kind ∉ initialKinds nVars := by
  obtain ⟨i, -, rfl⟩ := List.mem_map.mp h
  simp [initialKinds]

/-- The name of a channel is among those of some channels only if the channel is. -/
theorem channelName_mem_map {pre : String} {kinds : List ChannelKind} {kind : ChannelKind} :
    channelName pre kind ∈ kinds.map (channelName pre) ↔ kind ∈ kinds := by
  apply List.mem_map_of_injective
  intro k l hkl
  exact channelName_inj.mp hkl

/-- Distinct channels of a job have distinct names. -/
theorem nodup_channelNames {pre : String} {kinds : List ChannelKind} (h : kinds.Nodup) :
    (kinds.map (channelName pre)).Nodup := by
  apply h.map
  intro k l hkl
  exact channelName_inj.mp hkl

end OacTreeServer.Protocol
