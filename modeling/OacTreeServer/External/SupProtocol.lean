import OacTreeServer.External.AnyValue

/-!
# What the server takes from the sup-protocol library

A function protocol sends the name of a function and its arguments in one `AnyValue`, the
packet, and receives a result code and an output. How packets are built and read is left
open; what the server relies on is that a packet gives back what was packed.
-/

namespace OacTreeServer.External

/-- `sup::protocol::ProtocolResult`; `GetValue` is its number. -/
structure ProtocolResult where
  value : UInt32
  deriving DecidableEq, Repr

/-- Conversions of `sup::dto::AnyValue` that report a failure instead of throwing. -/
class AnyValueConversion (V : Type) where
  /-- `As(value)` into a 32-bit number. -/
  tryAsUInt32 : V → Option UInt32
  /-- `TryAssignIfEmptyOrConvert`: the assigned target, or `none` when it fails. -/
  tryAssignIfEmptyOrConvert : V → V → Option V

/-- What the server relies on about conversions to 32-bit numbers. -/
class LawfulAnyValueConversion (V : Type) [AnyValue V] [AnyValueConversion V] : Prop where
  /-- A 64-bit number is converted exactly when it fits. -/
  asUInt32_of_lt : ∀ (v : V) (n : UInt64), AnyValue.hasType v .unsignedInteger64 = true →
    AnyValue.asUInt64 v = .ok n → n.toNat < UInt32.size → AnyValue.asUInt32 v = .ok n.toUInt32
  asUInt32_of_le : ∀ (v : V) (n : UInt64), AnyValue.hasType v .unsignedInteger64 = true →
    AnyValue.asUInt64 v = .ok n → UInt32.size ≤ n.toNat → AnyValue.asUInt32 v = .error .dto
  /-- Both conversions succeed on the same values. -/
  tryAsUInt32_eq : ∀ v : V, AnyValueConversion.tryAsUInt32 v = (AnyValue.asUInt32 v).toOption
  /-- Everything can be assigned to an empty value. -/
  tryAssignIfEmptyOrConvert_empty : ∀ v : V,
    AnyValueConversion.tryAssignIfEmptyOrConvert AnyValue.empty v = some v

/-- The result codes, the packets and the dispatch of sup-protocol. -/
class SupProtocol (V : Type) where
  success : ProtocolResult
  serverProtocolDecodingError : ProtocolResult
  serverProtocolEncodingError : ProtocolResult
  /-- `GENERIC_APPLICATION_ERROR_START`. -/
  genericApplicationErrorStart : UInt32
  /-- `SPECIFIC_APPLICATION_ERROR_START`. -/
  specificApplicationErrorStart : UInt32
  protocolResultToString : ProtocolResult → String
  /-- The field of a packet that holds the name of the function. -/
  functionField : String
  functionProtocolInput : String → V
  /-- The name of the function that a packet asks for. -/
  functionName : V → Option String
  functionProtocolPack : V → String → V → V
  /-- `FunctionProtocolExtract`, into an `AnyValue`, a string or a Boolean. -/
  functionProtocolExtract : V → String → Option V
  functionProtocolExtractString : V → String → Option String
  functionProtocolExtractBoolean : V → String → Option Bool
  /-- `CallFunctionProtocol`: a map of functions, the packet, the output and the result for a
  packet whose function is not in the map. -/
  callFunctionProtocol : {m : Type → Type} → [Monad m] →
    List (String × (V → V → m (ProtocolResult × V))) → V → V → ProtocolResult →
    m (ProtocolResult × V)

/-- A packet to which fields are packed one after the other. -/
def packFields {V : Type} [SupProtocol V] (packet : V) (fields : List (String × V)) : V :=
  fields.foldl (fun packet field ↦ SupProtocol.functionProtocolPack packet field.1 field.2) packet

/-- The names of all fields that the server packs. -/
def packedFieldNames : List String :=
  ["server_prefix", "number_of_jobs", "job_index", "job_info", "instruction_index",
    "breakpoint_active", "command", "value"]

/-- What the server relies on about sup-protocol. -/
class LawfulSupProtocol (V : Type) [AnyValue V] [SupProtocol V] : Prop where
  /-- Errors of the library are not the success. -/
  serverProtocolDecodingError_ne :
    SupProtocol.serverProtocolDecodingError V ≠ SupProtocol.success V
  serverProtocolEncodingError_ne :
    SupProtocol.serverProtocolEncodingError V ≠ SupProtocol.success V
  /-- Nor are the first of the codes that are left to applications. -/
  specificApplicationError_ne : ∀ code : UInt32, code < 5 →
    (⟨SupProtocol.specificApplicationErrorStart V + code⟩ : ProtocolResult) ≠
      SupProtocol.success V
  /-- The name of the function has a field of its own. -/
  functionField_notMem : SupProtocol.functionField V ∉ packedFieldNames
  /-- A packet keeps the name of its function. -/
  functionName_packFields : ∀ (name : String) (fields : List (String × V)),
    (fields.map Prod.fst).Nodup → SupProtocol.functionField V ∉ fields.map Prod.fst →
    SupProtocol.functionName (packFields (SupProtocol.functionProtocolInput name) fields) =
      some name
  /-- What was packed into the packet of a function, or into an empty output, is extracted. -/
  extract_packFields : ∀ (packet : V) (fields : List (String × V)) (name : String) (w : V),
    (packet = AnyValue.empty ∨ ∃ f, packet = SupProtocol.functionProtocolInput f) →
    (fields.map Prod.fst).Nodup → SupProtocol.functionField V ∉ fields.map Prod.fst →
    (name, w) ∈ fields →
    SupProtocol.functionProtocolExtract (packFields packet fields) name = some w
  /-- A field is extracted as a string or a Boolean when it holds one. -/
  extractString_of_extract : ∀ (packet : V) (name s : String),
    SupProtocol.functionProtocolExtract packet name = some (AnyValue.ofString s) →
    SupProtocol.functionProtocolExtractString packet name = some s
  extractBoolean_of_extract : ∀ (packet : V) (name : String) (b : Bool),
    SupProtocol.functionProtocolExtract packet name = some (AnyValue.ofBoolean b) →
    SupProtocol.functionProtocolExtractBoolean packet name = some b
  /-- A packet is given to the function of the map that it names. -/
  callFunctionProtocol_of_lookup : ∀ {m : Type → Type} [Monad m]
    {functionMap : List (String × (V → V → m (ProtocolResult × V)))} {input : V}
    {name : String} {function : V → V → m (ProtocolResult × V)},
    SupProtocol.functionName input = some name → functionMap.lookup name = some function →
    ∀ (output : V) (failure : ProtocolResult),
      SupProtocol.callFunctionProtocol functionMap input output failure = function input output

/-- `sup::protocol::Protocol`: `Invoke` with an input and an output that it assigns to. -/
structure Protocol (m : Type → Type) (V : Type) where
  invoke : V → V → m (ProtocolResult × V)

section Packets

variable {V : Type} [AnyValue V] [SupProtocol V] [LawfulSupProtocol V]

/-- A packet with distinct fields of the server keeps the name of its function. -/
theorem functionName_packed (name : String) (fields : List (String × V)) (names : List String)
    (hnames : fields.map Prod.fst = names) (hok : names.Nodup ∧ names ⊆ packedFieldNames) :
    SupProtocol.functionName (packFields (SupProtocol.functionProtocolInput name) fields) =
      some name := by
  subst hnames
  exact LawfulSupProtocol.functionName_packFields name fields hok.1
    fun hmem ↦ LawfulSupProtocol.functionField_notMem (hok.2 hmem)

/-- Each of several distinct fields of the server is extracted from the packet of a call. -/
theorem extract_packed (f : String) (fields : List (String × V)) (names : List String)
    {name : String} {w : V} (hnames : fields.map Prod.fst = names)
    (hok : names.Nodup ∧ names ⊆ packedFieldNames) (hm : (name, w) ∈ fields) :
    SupProtocol.functionProtocolExtract
      (packFields (SupProtocol.functionProtocolInput f) fields) name = some w := by
  subst hnames
  exact LawfulSupProtocol.extract_packFields _ fields name w (.inr ⟨f, rfl⟩) hok.1
    (fun hmem ↦ LawfulSupProtocol.functionField_notMem (hok.2 hmem)) hm

/-- The only field of an output is extracted from it. -/
theorem extract_packed_output {name : String} (hname : name ∈ packedFieldNames) (w : V) :
    SupProtocol.functionProtocolExtract
      (SupProtocol.functionProtocolPack AnyValue.empty name w) name = some w := by
  refine LawfulSupProtocol.extract_packFields _ [(name, w)] name w (.inl rfl) (by simp) ?_
    (List.mem_singleton_self _)
  intro hmem
  have hfield : SupProtocol.functionField V = name := List.mem_singleton.mp hmem
  rw [← hfield] at hname
  exact LawfulSupProtocol.functionField_notMem hname

end Packets

end OacTreeServer.External
