import OacTreeServer.External.IJob
import OacTreeServer.External.OacTree
import OacTreeServer.External.SupProtocol

/-!
# A reference implementation of the libraries underneath

A small value type with exactly the behaviour that the server relies on. It lets the
model be run on concrete inputs and shows that the assumptions about the libraries can
be met together. No general statement about the server depends on it.
-/

namespace OacTreeServer.External

/-- Scalars, arrays and structs. -/
inductive DtoValue where
  | empty
  | boolean (b : Bool)
  | uint32 (n : UInt32)
  | uint64 (n : UInt64)
  | int32 (n : Int32)
  | string (s : String)
  | array (elements : List DtoValue)
  | struct (typeName : String) (members : List (String × DtoValue))

namespace DtoValue

/-- The scalar type of a value, if it is a scalar. -/
def scalarType : DtoValue → Option ScalarType
  | .boolean _ => some .boolean
  | .uint32 _ => some .unsignedInteger32
  | .uint64 _ => some .unsignedInteger64
  | .int32 _ => some .signedInteger32
  | .string _ => some .string
  | _ => none

/-- The first member with a given name. -/
def findMember (name : String) : List (String × DtoValue) → Option DtoValue
  | [] => none
  | (n, v) :: rest => if n = name then some v else findMember name rest

/-- Replace the value of every member with a given name. -/
def assignMember (name : String) (w : DtoValue) (members : List (String × DtoValue)) :
    List (String × DtoValue) :=
  members.map fun m ↦ if m.1 = name then (name, w) else m

/-- The member of a value, if it is a struct that has one of that name. -/
def getMember (v : DtoValue) (name : String) : Option DtoValue :=
  match v with
  | .struct _ members => findMember name members
  | _ => none

/-- A struct of distinct names has each of its members. -/
theorem findMember_of_mem {members : List (String × DtoValue)} {name : String} {w : DtoValue}
    (hn : (members.map Prod.fst).Nodup) (hm : (name, w) ∈ members) :
    findMember name members = some w := by
  induction members with
  | nil => cases hm
  | cons m rest ih =>
    obtain ⟨n, v⟩ := m
    rw [List.map_cons, List.nodup_cons] at hn
    rcases List.mem_cons.mp hm with he | hm
    · obtain ⟨rfl, rfl⟩ := Prod.mk.inj he
      simp [findMember]
    · have hne : n ≠ name := by
        rintro rfl
        exact hn.1 (List.mem_map.mpr ⟨(n, w), hm, rfl⟩)
      rw [findMember, if_neg hne, ih hn.2 hm]

/-- Assignment replaces the member of that name and keeps the others. -/
theorem findMember_assignMember (members : List (String × DtoValue)) (name other : String)
    (w : DtoValue) :
    findMember other (assignMember name w members) =
      if name = other then (findMember other members).map fun _ ↦ w
      else findMember other members := by
  induction members with
  | nil => simp [findMember, assignMember]
  | cons m rest ih =>
    obtain ⟨n, v⟩ := m
    simp only [assignMember, List.map_cons, findMember] at ih ⊢
    by_cases hn : n = name
    · subst hn
      by_cases ho : n = other
      · simp [ho]
      · simp_all
    · by_cases ho : n = other
      · subst ho
        simp [hn, Ne.symm hn]
      · simp_all

end DtoValue

instance : AnyValue DtoValue where
  empty := .empty
  isEmptyValue v := match v with
    | .empty => true
    | _ => false
  ofBoolean := .boolean
  ofUInt32 := .uint32
  ofUInt64 := .uint64
  ofInt32 := .int32
  ofString := .string
  struct members typeName := .struct typeName members
  hasType v type := v.scalarType == some type
  hasField v name := (v.getMember name).isSome
  member v name := match v.getMember name with
    | some w => .ok w
    | none => .error .dto
  setMember v name w := match v with
    | .struct typeName members => .struct typeName (DtoValue.assignMember name w members)
    | v => v
  asBoolean v := match v with
    | .boolean b => .ok b
    | _ => .error .dto
  asUInt32 v := match v with
    | .uint32 n => .ok n
    | .uint64 n => if n.toNat < UInt32.size then .ok n.toUInt32 else .error .dto
    | _ => .error .dto
  asUInt64 v := match v with
    | .uint64 n => .ok n
    | _ => .error .dto
  asInt32 v := match v with
    | .int32 n => .ok n
    | _ => .error .dto
  asString v := match v with
    | .string s => .ok s
    | _ => .error .dto
  tryAssign target v := match target with
    | .empty => some v
    | target => if target.scalarType.isSome && target.scalarType == v.scalarType then some v
      else none
  validateMemberType v name type := match v.getMember name with
    | some w => w.scalarType == some type
    | none => false

instance : LawfulAnyValue DtoValue where
  isEmptyValue_iff v := by cases v <;> simp [AnyValue.isEmptyValue, AnyValue.empty]
  hasType_ofBoolean _ := rfl
  hasType_ofUInt32 _ := rfl
  hasType_ofUInt64 _ := rfl
  hasType_ofInt32 _ := rfl
  hasType_ofString _ := rfl
  asBoolean_ofBoolean _ := rfl
  asUInt32_ofUInt32 _ := rfl
  asUInt64_ofUInt64 _ := rfl
  asInt32_ofInt32 _ := rfl
  asString_ofString _ := rfl
  asBoolean_of_hasType v h := by
    cases v <;> simp_all [AnyValue.hasType, DtoValue.scalarType, AnyValue.asBoolean]
  asUInt32_of_hasType v h := by
    cases v <;> simp_all [AnyValue.hasType, DtoValue.scalarType, AnyValue.asUInt32]
  asUInt64_of_hasType v h := by
    cases v <;> simp_all [AnyValue.hasType, DtoValue.scalarType, AnyValue.asUInt64]
  asInt32_of_hasType v h := by
    cases v <;> simp_all [AnyValue.hasType, DtoValue.scalarType, AnyValue.asInt32]
  asString_of_hasType v h := by
    cases v <;> simp_all [AnyValue.hasType, DtoValue.scalarType, AnyValue.asString]
  member_of_hasField v name h := by
    obtain ⟨w, hw⟩ := Option.isSome_iff_exists.mp h
    exact ⟨w, by simp [AnyValue.member, hw]⟩
  member_struct members typeName name w hn _ hm := by
    have h := DtoValue.findMember_of_mem hn hm
    simp [AnyValue.hasField, AnyValue.member, AnyValue.struct, DtoValue.getMember, h]
  hasField_setMember v name w other _ _ h := by
    cases v with
    | struct typeName members =>
      simp only [AnyValue.hasField, AnyValue.setMember, DtoValue.getMember,
        DtoValue.findMember_assignMember]
      split <;> simp
    | _ => rfl
  member_setMember v name w other _ _ h := by
    cases v with
    | struct typeName members =>
      simp only [AnyValue.hasField, DtoValue.getMember] at h
      obtain ⟨u, hu⟩ := Option.isSome_iff_exists.mp h
      simp only [AnyValue.member, AnyValue.setMember, DtoValue.getMember,
        DtoValue.findMember_assignMember]
      by_cases he : name = other
      · subst he
        simp [hu]
      · simp [he]
    | _ => simp [AnyValue.hasField, DtoValue.getMember] at h
  validateMemberType_iff v name type := by
    simp only [AnyValue.validateMemberType, AnyValue.hasField, AnyValue.member, AnyValue.hasType]
    cases v.getMember name <;> simp

instance : AnyValueConversion DtoValue where
  tryAsUInt32 v := (AnyValue.asUInt32 v).toOption
  tryAssignIfEmptyOrConvert target v := match target with
    | .empty => some v
    | target => AnyValue.tryAssign target v

instance : LawfulAnyValueConversion DtoValue where
  asUInt32_of_lt v n _ hn h := by
    cases v <;> simp_all [AnyValue.asUInt64, AnyValue.asUInt32]
  asUInt32_of_le v n _ hn h := by
    cases v <;> simp_all [AnyValue.asUInt64, AnyValue.asUInt32]
  tryAsUInt32_eq _ := rfl
  tryAssignIfEmptyOrConvert_empty _ := rfl

/-- A packet is a struct with the name of the function as its first member. -/
instance : SupProtocol DtoValue where
  success := ⟨0⟩
  serverProtocolDecodingError := ⟨4⟩
  serverProtocolEncodingError := ⟨3⟩
  genericApplicationErrorStart := 1024
  specificApplicationErrorStart := 2048
  protocolResultToString result := toString result.value.toNat
  functionField := "function"
  functionProtocolInput name := .struct "" [("function", .string name)]
  functionName v := match v.getMember "function" with
    | some (.string name) => some name
    | _ => none
  functionProtocolPack packet name v := match packet with
    | .empty => .struct "" [(name, v)]
    | .struct typeName members => .struct typeName (members ++ [(name, v)])
    | packet => packet
  functionProtocolExtract := DtoValue.getMember
  functionProtocolExtractString packet name := match packet.getMember name with
    | some (.string s) => some s
    | _ => none
  functionProtocolExtractBoolean packet name := match packet.getMember name with
    | some (.boolean b) => some b
    | _ => none
  callFunctionProtocol functionMap input output failure := match input.getMember "function" with
    | some (.string name) => match functionMap.lookup name with
      | some function => function input output
      | none => pure (failure, output)
    | _ => pure (failure, output)

/-- Fields are packed behind the members of a struct. -/
private theorem packFields_struct (typeName : String) (members fields : List (String × DtoValue)) :
    packFields (.struct typeName members) fields = .struct typeName (members ++ fields) := by
  induction fields generalizing members with
  | nil => rw [List.append_nil]; rfl
  | cons field rest ih =>
    have hpack := ih (members ++ [field])
    rw [List.append_assoc, List.singleton_append] at hpack
    exact hpack

instance : LawfulSupProtocol DtoValue where
  serverProtocolDecodingError_ne := by decide
  serverProtocolEncodingError_ne := by decide
  specificApplicationError_ne code h heq := by
    have hzero : (2048 : UInt32) + code = 0 := congrArg ProtocolResult.value heq
    have hlt : code.toNat < 5 := h
    have hsum := congrArg UInt32.toNat hzero
    rw [UInt32.toNat_add] at hsum
    simp at hsum
    omega
  functionField_notMem := by decide
  functionName_packFields name fields _ _ := by
    simp only [SupProtocol.functionName, SupProtocol.functionProtocolInput, packFields_struct,
      DtoValue.getMember]
    rfl
  extract_packFields packet fields name w hpacket hnodup hfresh hm := by
    cases hpacket with
    | inl hempty =>
      subst hempty
      cases fields with
      | nil => cases hm
      | cons field rest =>
        have hpack : packFields (AnyValue.empty : DtoValue) (field :: rest) =
            .struct "" (field :: rest) := packFields_struct "" [field] rest
        rw [hpack]
        exact DtoValue.findMember_of_mem hnodup hm
    | inr hinput =>
      obtain ⟨f, rfl⟩ := hinput
      have hpack : packFields (SupProtocol.functionProtocolInput f : DtoValue) fields =
          .struct "" (("function", .string f) :: fields) := packFields_struct "" _ fields
      rw [hpack]
      refine DtoValue.findMember_of_mem ?_ (List.mem_cons_of_mem _ hm)
      rw [List.map_cons, List.nodup_cons]
      exact ⟨hfresh, hnodup⟩
  extractString_of_extract packet name s h := by
    simp only [SupProtocol.functionProtocolExtract] at h
    simp [SupProtocol.functionProtocolExtractString, h, AnyValue.ofString]
  extractBoolean_of_extract packet name b h := by
    simp only [SupProtocol.functionProtocolExtract] at h
    simp [SupProtocol.functionProtocolExtractBoolean, h, AnyValue.ofBoolean]
  callFunctionProtocol_of_lookup hname hlookup _ _ := by
    simp only [SupProtocol.functionName] at hname
    split at hname
    · next hmember =>
      obtain rfl := Option.some.inj hname
      simp only [SupProtocol.callFunctionProtocol, hmember, hlookup]
    · cases hname

/-- The encoded value is kept beside the name of the encoding. -/
instance : Base64VariableCodec DtoValue where
  encode v := (true, .struct "" [("encoding", .string "base64"), ("value", v)])
  decode v := match v with
    | .struct "" [("encoding", .string "base64"), ("value", w)] => (true, w)
    | _ => (false, .empty)

instance : LawfulBase64VariableCodec DtoValue where
  decode_encode v w h := by
    obtain ⟨-, rfl⟩ := Prod.mk.inj h
    rfl

instance : TotalBase64VariableCodec DtoValue where
  encode_succeeds _ := ⟨_, rfl⟩

/-- The strings among the elements of an array. -/
private def stringsOf : List DtoValue → List String
  | [] => []
  | .string s :: rest => s :: stringsOf rest
  | _ :: rest => stringsOf rest

private theorem stringsOf_map (strings : List String) :
    stringsOf (strings.map .string) = strings := by
  induction strings with
  | nil => rfl
  | cons s rest ih => rw [List.map_cons, stringsOf, ih]

instance : OacTree DtoValue where
  kInvalid := ⟨0⟩
  kUserValue := ⟨1⟩
  kUserChoice := ⟨2⟩
  kInvalidUserInputRequest := ⟨⟨0⟩, .empty, .empty⟩
  kInvalidUserInputReply := ⟨⟨0⟩, false, .empty⟩
  kInitial := ⟨0⟩
  kInvalidInstructionIndex := 0xffffffff
  kIndexField := "index"
  kInstructionStateAnyValue :=
    .struct "" [("breakpoint", .boolean false), ("execution_status", .uint32 0)]
  createUserValueRequest v description := ⟨⟨1⟩, .string description, v⟩
  parseUserValueRequest
    | ⟨⟨1⟩, .string description, v⟩ => some (v, description)
    | _ => none
  createUserChoiceRequest options metadata := ⟨⟨2⟩, metadata, .array (options.map .string)⟩
  parseUserChoiceRequest
    | ⟨⟨2⟩, metadata, .array options⟩ => some (stringsOf options, metadata)
    | _ => none
  createUserValueReply result v := ⟨⟨1⟩, result, v⟩
  parseUserValueReply
    | ⟨⟨1⟩, true, v⟩ => some v
    | _ => none
  createUserChoiceReply result choice := ⟨⟨2⟩, result, .int32 choice⟩
  parseUserChoiceReply
    | ⟨⟨2⟩, true, .int32 choice⟩ => some choice
    | _ => none

instance : LawfulOacTree DtoValue where
  requestType_kInvalidUserInputReply := rfl
  kIndexField_plain := by decide
  kIndexField_notMem := by decide

instance : LawfulUserInput DtoValue where
  kUserValue_ne_kInvalid := by decide
  kUserChoice_ne_kInvalid := by decide
  kUserChoice_ne_kUserValue := by decide
  requestType_createUserValueRequest _ _ := rfl
  requestType_createUserChoiceRequest _ _ := rfl
  requestType_createUserValueReply _ _ := rfl
  requestType_createUserChoiceReply _ _ := rfl
  parseUserValueRequest_create _ _ := rfl
  parseUserChoiceRequest_create options metadata := by
    have hparse : (OacTree.parseUserChoiceRequest
        (OacTree.createUserChoiceRequest options metadata) : Option (List String × DtoValue)) =
        some (stringsOf (options.map .string), metadata) := rfl
    rw [hparse, stringsOf_map]
  parseUserValueReply_create result v := by cases result <;> rfl
  parseUserChoiceReply_create _ := rfl

/-- A procedure is the list of the names of its variables. -/
instance : Procedure (List String) where
  variableNames := id
  localJob _ := .ok ()

/-- A procedure whose `LocalJob` may fail to be constructed. -/
structure SetupProcedure where
  variableNames : List String
  setup : Except Exception Unit

instance : Procedure SetupProcedure where
  variableNames := SetupProcedure.variableNames
  localJob := SetupProcedure.setup

/-- A breakpoint flag and the number of an execution status. -/
instance : InstructionStateCodec DtoValue (Bool × UInt32) where
  toAnyValue s := .struct "" [("breakpoint", .boolean s.1), ("execution_status", .uint32 s.2)]
  toInstructionState v := match v with
    | .struct "" [("breakpoint", .boolean b), ("execution_status", .uint32 n)] => .ok (b, n)
    | _ => .error .oacTree

instance : LawfulInstructionStateCodec DtoValue where
  toInstructionState_toAnyValue _ := rfl

/-- Job information that consists of the numbers of variables and of instructions. -/
structure SampleJobInfo where
  numberOfVariables : UInt32
  numberOfInstructions : UInt32
  deriving DecidableEq, Repr

instance : JobInfoCodec DtoValue SampleJobInfo where
  getNumberOfVariables := SampleJobInfo.numberOfVariables
  getNumberOfInstructions := SampleJobInfo.numberOfInstructions
  toAnyValue info := .struct "" [("n_vars", .uint32 info.numberOfVariables),
    ("n_instr", .uint32 info.numberOfInstructions)]
  toJobInfo v := match v with
    | .struct "" [("n_vars", .uint32 m), ("n_instr", .uint32 n)] => .ok ⟨m, n⟩
    | _ => .error .oacTree
  kTerminate := ⟨5⟩

instance : LawfulJobInfoCodec DtoValue where
  toJobInfo_toAnyValue _ := rfl
  toJobInfo_error v e h := by
    simp only [JobInfoCodec.toJobInfo] at h
    split at h
    · cases h
    · cases h
      rfl

/-- The commands in the order of the enumeration. -/
instance : JobCommands where
  kStart := ⟨0⟩
  kStep := ⟨1⟩
  kPause := ⟨2⟩
  kReset := ⟨3⟩
  kHalt := ⟨4⟩

instance : LawfulJobCommands DtoValue where
  nodup := by decide
  lt_kTerminate_iff command := by
    obtain ⟨code⟩ := command
    simp only [JobInfoCodec.kTerminate, JobCommands.kStart, JobCommands.kStep,
      JobCommands.kPause, JobCommands.kReset, JobCommands.kHalt, List.mem_cons,
      JobCommand.mk.injEq, List.not_mem_nil, or_false, UInt32.lt_iff_toNat_lt,
      ← UInt32.toNat_inj]
    change code.toNat < 5 ↔ code.toNat = 0 ∨ code.toNat = 1 ∨ code.toNat = 2 ∨ code.toNat = 3 ∨
      code.toNat = 4
    omega

/-- A job that is running or not, and cannot be reset while it is running. -/
structure SampleJob where
  info : SampleJobInfo
  breakpoints : List UInt32
  running : Bool
  deriving DecidableEq, Repr

/-- All that a sample job does on its own is to come to its end. -/
instance : IJob SampleJob SampleJobInfo Unit where
  getInfo := SampleJob.info
  setBreakpoint job instrIdx := (.ok (), { job with breakpoints := instrIdx :: job.breakpoints })
  removeBreakpoint job instrIdx :=
    (.ok (), { job with breakpoints := job.breakpoints.erase instrIdx })
  start job := (.ok (), { job with running := true })
  step job := (.ok (), job)
  pause job := (.ok (), { job with running := false })
  reset job := if job.running then (.error .oacTree, job) else (.ok (), job)
  halt job := (.ok (), { job with running := false })
  proceed job _ := { job with running := false }

instance : LawfulIJob SampleJob where
  getInfo_run op job := by
    cases op with
    | reset =>
      simp only [JobOperation.run, IJob.reset]
      split <;> rfl
    | _ => rfl
  getInfo_proceed _ _ := rfl

end OacTreeServer.External
