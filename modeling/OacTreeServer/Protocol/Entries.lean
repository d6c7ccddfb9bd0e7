import OacTreeServer.Protocol.Values

/-!
# Output entries of a job

Codecs of log entries, message entries and output values, from
`base/output_entry_helper.cpp:37`, and the generator of their indices
(`base/index_generator.cpp:43`). An encoder assigns to the members of a constant, and a
decoder checks the type of every member before it reads any.
-/

namespace OacTreeServer.Protocol
open OacTreeServer.External

/-- The type name of a log entry; `oac_tree_protocol.h:81`. -/
def kLogEntryType : String := "sup::logEntryType/v1.0"

/-- The field for the severity of a log entry; `oac_tree_protocol.h:84`. -/
def kSeverityField : String := "severity"

/-- The field for the text of a log entry or of a message; `oac_tree_protocol.h:85`. -/
def kMessageField : String := "message"

/-- The type name of a message; `oac_tree_protocol.h:92`. -/
def kMessageEntryType : String := "sup::messageEntryType/v1.0"

/-- The type name of an output value; `oac_tree_protocol.h:102`. -/
def kOutputValueEntryType : String := "sup::outputValueEntryType/v1.0"

/-- The field for the description of an output value; `oac_tree_protocol.h:105`. -/
def kDescriptionField : String := "description"

/-- The field for the output value itself; `oac_tree_protocol.h:106`. -/
def kValueField : String := "value"

/-- A log entry with its index; `output_entry_types.h:35`. -/
structure LogEntry where
  index : UInt64
  severity : Int32
  message : String
  deriving DecidableEq, Repr

/-- A message with its index; `output_entry_types.h:45`. -/
structure MessageEntry where
  index : UInt64
  message : String
  deriving DecidableEq, Repr

/-- An output value with its index; `output_entry_types.h:54`. -/
structure OutputValueEntry (V : Type) where
  index : UInt64
  description : String
  value : V
  deriving DecidableEq, Repr

/-- Generator of consecutive non-zero indices, without its lock; `index_generator.h:40`. -/
structure IndexGenerator where
  lastIdx : UInt64
  deriving DecidableEq, Repr

/-- A new generator; `index_generator.cpp:30`. -/
def IndexGenerator.new : IndexGenerator := ⟨0⟩

/-- `NewIndex`; the index wraps around to one; `index_generator.cpp:43`. -/
def IndexGenerator.newIndex (generator : IndexGenerator) : UInt64 × IndexGenerator :=
  let idx := if generator.lastIdx + 1 = 0 then generator.lastIdx + 1 + 1 else generator.lastIdx + 1
  (idx, ⟨idx⟩)

/-- An index is never zero. -/
theorem IndexGenerator.newIndex_ne_zero (generator : IndexGenerator) :
    generator.newIndex.1 ≠ 0 := by
  unfold newIndex
  dsimp only
  split
  · next h =>
    rw [h]
    decide
  · next h => exact h

section Definitions

variable (V : Type) [AnyValue V] [OacTree V]

/-- Basic log entry; `oac_tree_protocol.cpp:65`. -/
def kLogEntryAnyValue : V :=
  AnyValue.struct [(OacTree.kIndexField V, AnyValue.ofUInt64 0),
    (kSeverityField, AnyValue.ofInt32 0),
    (kMessageField, AnyValue.ofString "")] kLogEntryType

/-- Basic message entry; `oac_tree_protocol.cpp:71`. -/
def kMessageEntryAnyValue : V :=
  AnyValue.struct [(OacTree.kIndexField V, AnyValue.ofUInt64 0),
    (kMessageField, AnyValue.ofString "")] kMessageEntryType

/-- Basic output value entry; `oac_tree_protocol.cpp:76`. -/
def kOutputValueEntryAnyValue : V :=
  AnyValue.struct [(OacTree.kIndexField V, AnyValue.ofUInt64 0),
    (kDescriptionField, AnyValue.ofString ""),
    (kValueField, AnyValue.empty)] kOutputValueEntryType

variable {V}

/-- `ValidateLogEntryAnyValue`; `output_entry_helper.cpp:37`. -/
def validateLogEntryAnyValue (v : V) : Bool :=
  AnyValue.validateMemberType v (OacTree.kIndexField V) .unsignedInteger64 &&
    AnyValue.validateMemberType v kSeverityField .signedInteger32 &&
    AnyValue.validateMemberType v kMessageField .string

/-- `EncodeLogEntry`; `output_entry_helper.cpp:54`. -/
def encodeLogEntry (logEntry : LogEntry) : V :=
  let result := kLogEntryAnyValue V
  let result := AnyValue.setMember result (OacTree.kIndexField V) (AnyValue.ofUInt64 logEntry.index)
  let result := AnyValue.setMember result kSeverityField (AnyValue.ofInt32 logEntry.severity)
  AnyValue.setMember result kMessageField (AnyValue.ofString logEntry.message)

/-- `DecodeLogEntry`; `output_entry_helper.cpp:63`. -/
def decodeLogEntry (v : V) : Except Exception (Bool × LogEntry) := do
  if !validateLogEntryAnyValue v then
    return (false, ⟨0, 0, ""⟩)
  let index ← AnyValue.member v (OacTree.kIndexField V)
  let index ← AnyValue.asUInt64 index
  let severity ← AnyValue.member v kSeverityField
  let severity ← AnyValue.asInt32 severity
  let message ← AnyValue.member v kMessageField
  let message ← AnyValue.asString message
  return (true, ⟨index, severity, message⟩)

/-- `ValidateMessageEntryAnyValue`; `output_entry_helper.cpp:76`. -/
def validateMessageEntryAnyValue (v : V) : Bool :=
  AnyValue.validateMemberType v (OacTree.kIndexField V) .unsignedInteger64 &&
    AnyValue.validateMemberType v kMessageField .string

/-- `EncodeMessageEntry`; `output_entry_helper.cpp:89`. -/
def encodeMessageEntry (msgEntry : MessageEntry) : V :=
  let result := kMessageEntryAnyValue V
  let result := AnyValue.setMember result (OacTree.kIndexField V) (AnyValue.ofUInt64 msgEntry.index)
  AnyValue.setMember result kMessageField (AnyValue.ofString msgEntry.message)

/-- `DecodeMessageEntry`; `output_entry_helper.cpp:98`. -/
def decodeMessageEntry (v : V) : Except Exception (Bool × MessageEntry) := do
  if !validateMessageEntryAnyValue v then
    return (false, ⟨0, ""⟩)
  let index ← AnyValue.member v (OacTree.kIndexField V)
  let index ← AnyValue.asUInt64 index
  let message ← AnyValue.member v kMessageField
  let message ← AnyValue.asString message
  return (true, ⟨index, message⟩)

/-- `ValidateOutputValueEntryAnyValue`; `output_entry_helper.cpp:110`. -/
def validateOutputValueEntryAnyValue (v : V) : Bool :=
  AnyValue.validateMemberType v (OacTree.kIndexField V) .unsignedInteger64 &&
    AnyValue.validateMemberType v kDescriptionField .string &&
    AnyValue.hasField v kValueField

/-- `EncodeOutputValueEntry`; `output_entry_helper.cpp:127`. -/
def encodeOutputValueEntry (outputEntry : OutputValueEntry V) : V :=
  let result := kOutputValueEntryAnyValue V
  let result :=
    AnyValue.setMember result (OacTree.kIndexField V) (AnyValue.ofUInt64 outputEntry.index)
  let result :=
    AnyValue.setMember result kDescriptionField (AnyValue.ofString outputEntry.description)
  AnyValue.setMember result kValueField outputEntry.value

/-- `DecodeOutputValueEntry`; `output_entry_helper.cpp:136`. -/
def decodeOutputValueEntry (v : V) : Except Exception (Bool × OutputValueEntry V) := do
  if validateOutputValueEntryAnyValue v then
    let index ← AnyValue.member v (OacTree.kIndexField V)
    let index ← AnyValue.asUInt64 index
    let description ← AnyValue.member v kDescriptionField
    let description ← AnyValue.asString description
    let value ← AnyValue.member v kValueField
    return (true, ⟨index, description, value⟩)
  return (false, ⟨0, "", AnyValue.empty⟩)

end Definitions

variable {V : Type} [AnyValue V] [LawfulAnyValue V]

/-- A struct with plain, distinct members, all of which are then assigned to, holds the
assigned values. -/
private theorem hasMember_assigned {members assignments : List (String × V)}
    {typeName name : String} {w : V} (names : List String) (hmembers : members.map Prod.fst = names)
    (hassigned : assignments.map Prod.fst = names)
    (hnames : names.Nodup ∧ names.all isPlainName = true) (hm : (name, w) ∈ assignments) :
    HasMember (assignments.foldl (fun v a ↦ AnyValue.setMember v a.1 a.2)
      (AnyValue.struct members typeName)) name w := by
  subst hmembers
  rw [← hassigned] at hnames
  apply HasMember.of_mem_assignments hnames.1 hnames.2 _ hm
  intro a ha
  have hmem : a.1 ∈ members.map Prod.fst := by
    rw [← hassigned]
    exact List.mem_map_of_mem ha
  obtain ⟨b, hb, hab⟩ := List.mem_map.mp hmem
  rw [hassigned] at hnames
  have hfield : HasMember (AnyValue.struct members typeName) b.1 b.2 :=
    HasMember.struct _ rfl hnames.1 hnames.2 hb
  rw [← hab]
  exact hfield.hasField

variable [OacTree V]

omit [AnyValue V] [LawfulAnyValue V] in
/-- The members of an entry are plain and have distinct names. -/
private theorem entry_names [LawfulOacTree V] {fields : List String}
    (h : fields.Sublist [kSeverityField, kMessageField, kDescriptionField, kValueField]) :
    (OacTree.kIndexField V :: fields).Nodup ∧
      (OacTree.kIndexField V :: fields).all isPlainName = true := by
  constructor
  · rw [List.nodup_cons]
    constructor
    · intro hm
      exact LawfulOacTree.kIndexField_notMem (h.subset hm)
    · exact List.Nodup.sublist h (by decide)
  · rw [List.all_cons, LawfulOacTree.kIndexField_plain, Bool.true_and, List.all_eq_true]
    intro field hf
    have hplain : ∀ field ∈ [kSeverityField, kMessageField, kDescriptionField, kValueField],
        isPlainName field = true := by decide
    exact hplain field (h.subset hf)

section RoundTrip

variable [LawfulOacTree V]

/-- Decoding a log entry gives it back. -/
theorem decodeLogEntry_encode (logEntry : LogEntry) :
    decodeLogEntry (encodeLogEntry logEntry : V) = .ok (true, logEntry) := by
  have hmember : ∀ {name : String} {w : V},
      (name, w) ∈ [(OacTree.kIndexField V, AnyValue.ofUInt64 logEntry.index),
        (kSeverityField, AnyValue.ofInt32 logEntry.severity),
        (kMessageField, AnyValue.ofString logEntry.message)] →
      HasMember (encodeLogEntry logEntry : V) name w :=
    hasMember_assigned [OacTree.kIndexField V, kSeverityField, kMessageField] rfl rfl
      (entry_names (by decide))
  have hindex := hmember List.mem_cons_self
  have hseverity := hmember (List.mem_cons_of_mem _ List.mem_cons_self)
  have hmessage := hmember (List.mem_cons_of_mem _ (List.mem_cons_of_mem _ List.mem_cons_self))
  have hvalid : validateLogEntryAnyValue (encodeLogEntry logEntry : V) = true := by
    rw [validateLogEntryAnyValue, hindex.validate (LawfulAnyValue.hasType_ofUInt64 _),
      hseverity.validate (LawfulAnyValue.hasType_ofInt32 _),
      hmessage.validate (LawfulAnyValue.hasType_ofString _)]
    rfl
  unfold decodeLogEntry
  rw [hvalid, hindex.member, hseverity.member, hmessage.member]
  simp [bind, Except.bind, pure, Except.pure, LawfulAnyValue.asUInt64_ofUInt64,
    LawfulAnyValue.asInt32_ofInt32, LawfulAnyValue.asString_ofString]

/-- Decoding a message entry gives it back. -/
theorem decodeMessageEntry_encode (msgEntry : MessageEntry) :
    decodeMessageEntry (encodeMessageEntry msgEntry : V) = .ok (true, msgEntry) := by
  have hmember : ∀ {name : String} {w : V},
      (name, w) ∈ [(OacTree.kIndexField V, AnyValue.ofUInt64 msgEntry.index),
        (kMessageField, AnyValue.ofString msgEntry.message)] →
      HasMember (encodeMessageEntry msgEntry : V) name w :=
    hasMember_assigned [OacTree.kIndexField V, kMessageField] rfl rfl (entry_names (by decide))
  have hindex := hmember List.mem_cons_self
  have hmessage := hmember (List.mem_cons_of_mem _ List.mem_cons_self)
  have hvalid : validateMessageEntryAnyValue (encodeMessageEntry msgEntry : V) = true := by
    rw [validateMessageEntryAnyValue, hindex.validate (LawfulAnyValue.hasType_ofUInt64 _),
      hmessage.validate (LawfulAnyValue.hasType_ofString _)]
    rfl
  unfold decodeMessageEntry
  rw [hvalid, hindex.member, hmessage.member]
  simp [bind, Except.bind, pure, Except.pure, LawfulAnyValue.asUInt64_ofUInt64,
    LawfulAnyValue.asString_ofString]

/-- Decoding an output value entry gives it back, also when its value is empty. -/
theorem decodeOutputValueEntry_encode (outputEntry : OutputValueEntry V) :
    decodeOutputValueEntry (encodeOutputValueEntry outputEntry) = .ok (true, outputEntry) := by
  have hmember : ∀ {name : String} {w : V},
      (name, w) ∈ [(OacTree.kIndexField V, AnyValue.ofUInt64 outputEntry.index),
        (kDescriptionField, AnyValue.ofString outputEntry.description),
        (kValueField, outputEntry.value)] →
      HasMember (encodeOutputValueEntry outputEntry) name w :=
    hasMember_assigned [OacTree.kIndexField V, kDescriptionField, kValueField] rfl rfl
      (entry_names (by decide))
  have hindex := hmember List.mem_cons_self
  have hdescription := hmember (List.mem_cons_of_mem _ List.mem_cons_self)
  have hvalue := hmember (List.mem_cons_of_mem _ (List.mem_cons_of_mem _ List.mem_cons_self))
  have hvalid : validateOutputValueEntryAnyValue (encodeOutputValueEntry outputEntry) = true := by
    rw [validateOutputValueEntryAnyValue, hindex.validate (LawfulAnyValue.hasType_ofUInt64 _),
      hdescription.validate (LawfulAnyValue.hasType_ofString _), hvalue.hasField]
    rfl
  unfold decodeOutputValueEntry
  rw [hvalid, hindex.member, hdescription.member, hvalue.member]
  simp [bind, Except.bind, pure, Except.pure, LawfulAnyValue.asUInt64_ofUInt64,
    LawfulAnyValue.asString_ofString]

end RoundTrip

/-- Decoding a log entry does not throw. -/
theorem decodeLogEntry_ok (v : V) : ∃ r, decodeLogEntry v = .ok r := by
  unfold decodeLogEntry
  cases hvalid : validateLogEntryAnyValue v with
  | false => exact ⟨_, rfl⟩
  | true =>
    simp only [validateLogEntryAnyValue, Bool.and_eq_true] at hvalid
    obtain ⟨⟨hindex, hseverity⟩, hmessage⟩ := hvalid
    obtain ⟨w, hw, hwt⟩ := member_of_validateMemberType hindex
    obtain ⟨index, hindex⟩ := LawfulAnyValue.asUInt64_of_hasType w hwt
    obtain ⟨x, hx, hxt⟩ := member_of_validateMemberType hseverity
    obtain ⟨severity, hseverity⟩ := LawfulAnyValue.asInt32_of_hasType x hxt
    obtain ⟨y, hy, hyt⟩ := member_of_validateMemberType hmessage
    obtain ⟨message, hmessage⟩ := LawfulAnyValue.asString_of_hasType y hyt
    exact ⟨(true, ⟨index, severity, message⟩), by
      simp [bind, Except.bind, pure, Except.pure, hw, hindex, hx, hseverity, hy, hmessage]⟩

/-- Decoding a message entry does not throw. -/
theorem decodeMessageEntry_ok (v : V) : ∃ r, decodeMessageEntry v = .ok r := by
  unfold decodeMessageEntry
  cases hvalid : validateMessageEntryAnyValue v with
  | false => exact ⟨_, rfl⟩
  | true =>
    simp only [validateMessageEntryAnyValue, Bool.and_eq_true] at hvalid
    obtain ⟨w, hw, hwt⟩ := member_of_validateMemberType hvalid.1
    obtain ⟨index, hindex⟩ := LawfulAnyValue.asUInt64_of_hasType w hwt
    obtain ⟨y, hy, hyt⟩ := member_of_validateMemberType hvalid.2
    obtain ⟨message, hmessage⟩ := LawfulAnyValue.asString_of_hasType y hyt
    exact ⟨(true, ⟨index, message⟩), by
      simp [bind, Except.bind, pure, Except.pure, hw, hindex, hy, hmessage]⟩

/-- Decoding an output value entry does not throw. -/
theorem decodeOutputValueEntry_ok (v : V) : ∃ r, decodeOutputValueEntry v = .ok r := by
  unfold decodeOutputValueEntry
  cases hvalid : validateOutputValueEntryAnyValue v with
  | false => exact ⟨_, rfl⟩
  | true =>
    simp only [validateOutputValueEntryAnyValue, Bool.and_eq_true] at hvalid
    obtain ⟨⟨hindex, hdescription⟩, hvalue⟩ := hvalid
    obtain ⟨w, hw, hwt⟩ := member_of_validateMemberType hindex
    obtain ⟨index, hindex⟩ := LawfulAnyValue.asUInt64_of_hasType w hwt
    obtain ⟨x, hx, hxt⟩ := member_of_validateMemberType hdescription
    obtain ⟨description, hdescription⟩ := LawfulAnyValue.asString_of_hasType x hxt
    obtain ⟨value, hvalue⟩ := LawfulAnyValue.member_of_hasField v kValueField hvalue
    exact ⟨(true, ⟨index, description, value⟩), by
      simp [bind, Except.bind, pure, Except.pure, hw, hindex, hx, hdescription, hvalue]⟩

end OacTreeServer.Protocol
