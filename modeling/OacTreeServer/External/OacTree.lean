import OacTreeServer.External.AnyValue

/-!
# What the server takes from the oac-tree library

Job states and input request types are C++ enumerations that the server casts to and
from 32-bit numbers; they are modelled by that number, and the enumerators that the
server names are parameters. Instruction states are opaque: the server only converts
them to and from `AnyValue`.
-/

namespace OacTreeServer.External

/-- `sup::oac_tree::JobState`; every 32-bit number can be cast to it. -/
structure JobState where
  code : UInt32
  deriving DecidableEq, Repr

/-- `sup::oac_tree::InputRequestType`; every 32-bit number can be cast to it. -/
structure InputRequestType where
  code : UInt32
  deriving DecidableEq, Repr

/-- `sup::oac_tree::JobCommand`; every 32-bit number can be cast to it. -/
structure JobCommand where
  code : UInt32
  deriving DecidableEq, Repr

/-- `sup::oac_tree::UserInputRequest`. -/
structure UserInputRequest (V : Type) where
  requestType : InputRequestType
  metaData : V
  inputValue : V
  deriving DecidableEq, Repr

/-- `sup::oac_tree::UserInputReply`. -/
structure UserInputReply (V : Type) where
  requestType : InputRequestType
  result : Bool
  payload : V
  deriving DecidableEq, Repr

/-- Constants and helper functions of oac-tree that the server uses. -/
class OacTree (V : Type) where
  /-- `InputRequestType::kInvalid`. -/
  kInvalid : InputRequestType
  /-- `InputRequestType::kUserValue`. -/
  kUserValue : InputRequestType
  /-- `InputRequestType::kUserChoice`. -/
  kUserChoice : InputRequestType
  kInvalidUserInputRequest : UserInputRequest V
  kInvalidUserInputReply : UserInputReply V
  /-- `JobState::kInitial`. -/
  kInitial : JobState
  kInvalidInstructionIndex : UInt32
  /-- `Constants::kIndexField`. -/
  kIndexField : String
  /-- `Constants::kInstructionStateAnyValue`. -/
  kInstructionStateAnyValue : V
  createUserValueRequest : V → String → UserInputRequest V
  /-- `none` when the request does not parse. -/
  parseUserValueRequest : UserInputRequest V → Option (V × String)
  createUserChoiceRequest : List String → V → UserInputRequest V
  parseUserChoiceRequest : UserInputRequest V → Option (List String × V)
  createUserValueReply : Bool → V → UserInputReply V
  parseUserValueReply : UserInputReply V → Option V
  createUserChoiceReply : Bool → Int32 → UserInputReply V
  parseUserChoiceReply : UserInputReply V → Option Int32

/-- What the server relies on about the constants of oac-tree. -/
class LawfulOacTree (V : Type) [OacTree V] : Prop where
  /-- The invalid reply has the invalid request type. -/
  requestType_kInvalidUserInputReply :
    (OacTree.kInvalidUserInputReply (V := V)).requestType = OacTree.kInvalid V
  /-- The index field can be told apart from the other fields of the output entries. -/
  kIndexField_plain : isPlainName (OacTree.kIndexField V) = true
  kIndexField_notMem :
    OacTree.kIndexField V ∉ ["severity", "message", "description", "value"]

/-- What the server relies on about the helper functions for user input: a parser gives back
what its creator was given, and a reply with a negative result does not parse. -/
class LawfulUserInput (V : Type) [OacTree V] : Prop where
  kUserValue_ne_kInvalid : OacTree.kUserValue V ≠ OacTree.kInvalid V
  kUserChoice_ne_kInvalid : OacTree.kUserChoice V ≠ OacTree.kInvalid V
  kUserChoice_ne_kUserValue : OacTree.kUserChoice V ≠ OacTree.kUserValue V
  requestType_createUserValueRequest : ∀ (v : V) description,
    (OacTree.createUserValueRequest v description).requestType = OacTree.kUserValue V
  requestType_createUserChoiceRequest : ∀ options (metadata : V),
    (OacTree.createUserChoiceRequest options metadata).requestType = OacTree.kUserChoice V
  requestType_createUserValueReply : ∀ result (v : V),
    (OacTree.createUserValueReply result v).requestType = OacTree.kUserValue V
  requestType_createUserChoiceReply : ∀ result choice,
    (OacTree.createUserChoiceReply result choice : UserInputReply V).requestType =
      OacTree.kUserChoice V
  parseUserValueRequest_create : ∀ (v : V) description,
    OacTree.parseUserValueRequest (OacTree.createUserValueRequest v description) =
      some (v, description)
  parseUserChoiceRequest_create : ∀ options (metadata : V),
    OacTree.parseUserChoiceRequest (OacTree.createUserChoiceRequest options metadata) =
      some (options, metadata)
  parseUserValueReply_create : ∀ result (v : V),
    OacTree.parseUserValueReply (OacTree.createUserValueReply result v) =
      if result then some v else none
  parseUserChoiceReply_create : ∀ choice,
    OacTree.parseUserChoiceReply (OacTree.createUserChoiceReply true choice : UserInputReply V) =
      some choice

/-- `ToAnyValue` and `ToInstructionState`, which throws on a malformed value. -/
class InstructionStateCodec (V : Type) (InstructionState : outParam Type) where
  toAnyValue : InstructionState → V
  toInstructionState : V → Except Exception InstructionState

/-- The two conversions of instruction states are inverse. -/
class LawfulInstructionStateCodec (V : Type) {InstructionState : outParam Type}
    [InstructionStateCodec V InstructionState] : Prop where
  toInstructionState_toAnyValue : ∀ s : InstructionState,
    InstructionStateCodec.toInstructionState (InstructionStateCodec.toAnyValue s : V) = .ok s

/-- `JobInfo` with its `ToAnyValue` and `ToJobInfo`, which throws on a malformed value, and the
enumerator behind the last command. -/
class JobInfoCodec (V : Type) (JobInfo : outParam Type) where
  getNumberOfVariables : JobInfo → UInt32
  getNumberOfInstructions : JobInfo → UInt32
  toAnyValue : JobInfo → V
  toJobInfo : V → Except Exception JobInfo
  /-- `JobCommand::kTerminate`. -/
  kTerminate : JobCommand

/-- The two conversions of job information are inverse, and a malformed value raises an exception
of oac-tree. -/
class LawfulJobInfoCodec (V : Type) {JobInfo : outParam Type} [JobInfoCodec V JobInfo] : Prop where
  toJobInfo_toAnyValue : ∀ jobInfo : JobInfo,
    JobInfoCodec.toJobInfo (JobInfoCodec.toAnyValue jobInfo : V) = .ok jobInfo
  toJobInfo_error : ∀ (v : V) (e : Exception),
    (JobInfoCodec.toJobInfo v : Except Exception JobInfo) = .error e → e = .oacTree

/-- `sup::oac_tree::Procedure`: the names of its variables, and the construction of a
`LocalJob` from it, which may throw. -/
class Procedure (P : Type) where
  variableNames : P → List String
  localJob : P → Except Exception Unit

end OacTreeServer.External
