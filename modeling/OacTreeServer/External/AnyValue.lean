import Mathlib.Data.List.Basic

/-!
# The value type and the codec of the libraries underneath

`sup::dto::AnyValue` and `sup::protocol::Base64VariableCodec` are not part of the
repository. They enter as type classes with the operations that the server calls, and
what the server relies on is stated separately by the `Lawful` classes, so that every
theorem shows which of it it needs.
-/

namespace OacTreeServer.External

/-- The kinds of C++ exceptions that the server throws, or that reach it from the
libraries that it calls. -/
inductive Exception where
  /-- `sup::oac_tree_server::InvalidOperationException` with its message. -/
  | invalidOperation (message : String)
  /-- An exception of the sup-dto library. -/
  | dto
  /-- An exception of the oac-tree library. -/
  | oacTree
  deriving DecidableEq, Repr

/-- The scalar type codes that the server compares against. -/
inductive ScalarType where
  | boolean
  | unsignedInteger32
  | unsignedInteger64
  | signedInteger32
  | string
  deriving DecidableEq, Repr

/-- The operations of `sup::dto::AnyValue` that the server uses. Field access and
conversions may throw. -/
class AnyValue (V : Type) where
  /-- The empty value `AnyValue{}`. -/
  empty : V
  /-- `IsEmptyValue`. -/
  isEmptyValue : V → Bool
  ofBoolean : Bool → V
  ofUInt32 : UInt32 → V
  ofUInt64 : UInt64 → V
  ofInt32 : Int32 → V
  ofString : String → V
  /-- A struct from its members and its type name. -/
  struct : List (String × V) → String → V
  /-- `GetType() == type` for a scalar type. -/
  hasType : V → ScalarType → Bool
  hasField : V → String → Bool
  /-- `operator[]` on a constant value. -/
  member : V → String → Except Exception V
  /-- Assignment to a member: `value[field] = other`. -/
  setMember : V → String → V → V
  asBoolean : V → Except Exception Bool
  asUInt32 : V → Except Exception UInt32
  asUInt64 : V → Except Exception UInt64
  asInt32 : V → Except Exception Int32
  asString : V → Except Exception String
  /-- `TryAssign`: the assigned target, or `none` when it fails and leaves it as it was. -/
  tryAssign : V → V → Option V
  /-- `sup::oac_tree::utils::ValidateMemberType`. -/
  validateMemberType : V → String → ScalarType → Bool

/-- A name that selects a direct member; dots and brackets would select nested ones. -/
def isPlainName (name : String) : Bool := name.toList.all fun c ↦ c ≠ '.' && c ≠ '['

/-- What the server relies on about `AnyValue`. -/
class LawfulAnyValue (V : Type) [AnyValue V] : Prop where
  /-- `IsEmptyValue` recognises exactly the empty value. -/
  isEmptyValue_iff : ∀ v : V, AnyValue.isEmptyValue v = true ↔ v = AnyValue.empty
  /-- A value built from a C++ scalar has the corresponding type. -/
  hasType_ofBoolean : ∀ b, AnyValue.hasType (AnyValue.ofBoolean b : V) .boolean = true
  hasType_ofUInt32 : ∀ n, AnyValue.hasType (AnyValue.ofUInt32 n : V) .unsignedInteger32 = true
  hasType_ofUInt64 : ∀ n, AnyValue.hasType (AnyValue.ofUInt64 n : V) .unsignedInteger64 = true
  hasType_ofInt32 : ∀ n, AnyValue.hasType (AnyValue.ofInt32 n : V) .signedInteger32 = true
  hasType_ofString : ∀ s, AnyValue.hasType (AnyValue.ofString s : V) .string = true
  /-- Converting a scalar back gives the C++ value it was built from. -/
  asBoolean_ofBoolean : ∀ b, AnyValue.asBoolean (AnyValue.ofBoolean b : V) = .ok b
  asUInt32_ofUInt32 : ∀ n, AnyValue.asUInt32 (AnyValue.ofUInt32 n : V) = .ok n
  asUInt64_ofUInt64 : ∀ n, AnyValue.asUInt64 (AnyValue.ofUInt64 n : V) = .ok n
  asInt32_ofInt32 : ∀ n, AnyValue.asInt32 (AnyValue.ofInt32 n : V) = .ok n
  asString_ofString : ∀ s, AnyValue.asString (AnyValue.ofString s : V) = .ok s
  /-- Converting a value of the right type does not throw. -/
  asBoolean_of_hasType : ∀ v : V, AnyValue.hasType v .boolean = true →
    ∃ b, AnyValue.asBoolean v = .ok b
  asUInt32_of_hasType : ∀ v : V, AnyValue.hasType v .unsignedInteger32 = true →
    ∃ n, AnyValue.asUInt32 v = .ok n
  asUInt64_of_hasType : ∀ v : V, AnyValue.hasType v .unsignedInteger64 = true →
    ∃ n, AnyValue.asUInt64 v = .ok n
  asInt32_of_hasType : ∀ v : V, AnyValue.hasType v .signedInteger32 = true →
    ∃ n, AnyValue.asInt32 v = .ok n
  asString_of_hasType : ∀ v : V, AnyValue.hasType v .string = true →
    ∃ s, AnyValue.asString v = .ok s
  /-- Access to a field that is present does not throw. -/
  member_of_hasField : ∀ (v : V) name, AnyValue.hasField v name = true →
    ∃ w, AnyValue.member v name = .ok w
  /-- A struct has the members it was built from. -/
  member_struct : ∀ (members : List (String × V)) typeName name w,
    (members.map Prod.fst).Nodup → (members.map Prod.fst).all isPlainName = true →
    (name, w) ∈ members →
    AnyValue.hasField (AnyValue.struct members typeName) name = true ∧
      AnyValue.member (AnyValue.struct members typeName) name = .ok w
  /-- Assignment to a member stores the value and changes no other member. -/
  hasField_setMember : ∀ (v : V) name w other, isPlainName name = true → isPlainName other = true →
    AnyValue.hasField v name = true →
    AnyValue.hasField (AnyValue.setMember v name w) other = AnyValue.hasField v other
  member_setMember : ∀ (v : V) name w other, isPlainName name = true → isPlainName other = true →
    AnyValue.hasField v name = true →
    AnyValue.member (AnyValue.setMember v name w) other =
      if name = other then .ok w else AnyValue.member v other
  /-- A member is validated when it is present with exactly the type that is asked for. -/
  validateMemberType_iff : ∀ (v : V) name type,
    AnyValue.validateMemberType v name type = true ↔
      AnyValue.hasField v name = true ∧
        ∃ w, AnyValue.member v name = .ok w ∧ AnyValue.hasType w type = true

/-- The field `name` is present and holds `w`. -/
structure HasMember {V : Type} [AnyValue V] (v : V) (name : String) (w : V) : Prop where
  hasField : AnyValue.hasField v name = true
  member : AnyValue.member v name = .ok w

section HasMember

variable {V : Type} [AnyValue V] [LawfulAnyValue V] {v w u : V} {name other : String}

/-- A struct holds every member that it was built from. -/
theorem HasMember.struct {members : List (String × V)} {typeName : String} (names : List String)
    (hnames : members.map Prod.fst = names) (hnodup : names.Nodup)
    (hplain : names.all isPlainName = true) (hm : (name, w) ∈ members) :
    HasMember (AnyValue.struct members typeName) name w := by
  subst hnames
  obtain ⟨hf, hw⟩ := LawfulAnyValue.member_struct members typeName name w hnodup hplain hm
  exact ⟨hf, hw⟩

/-- A member that was assigned to holds the assigned value. -/
theorem HasMember.setMember_self (h : AnyValue.hasField v name = true)
    (hp : isPlainName name = true) (w : V) :
    HasMember (AnyValue.setMember v name w) name w := by
  constructor
  · rw [LawfulAnyValue.hasField_setMember v name w name hp hp h, h]
  · rw [LawfulAnyValue.member_setMember v name w name hp hp h, if_pos rfl]

/-- Assignment to one member keeps the others. -/
theorem HasMember.setMember_other (h : HasMember v name w)
    (ho : AnyValue.hasField v other = true) (hp : isPlainName name = true)
    (hq : isPlainName other = true) (hne : other ≠ name) (u : V) :
    HasMember (AnyValue.setMember v other u) name w := by
  constructor
  · rw [LawfulAnyValue.hasField_setMember v other u name hq hp ho, h.hasField]
  · rw [LawfulAnyValue.member_setMember v other u name hq hp ho, if_neg hne, h.member]

/-- Assignment to other members one after the other keeps a member. -/
private theorem HasMember.foldl_setMember_other {assignments : List (String × V)}
    (h : HasMember v name w) (hn : isPlainName name = true)
    (hplain : (assignments.map Prod.fst).all isPlainName = true)
    (hfields : ∀ a ∈ assignments, AnyValue.hasField v a.1 = true)
    (hne : name ∉ assignments.map Prod.fst) :
    HasMember (assignments.foldl (fun v a ↦ AnyValue.setMember v a.1 a.2) v) name w := by
  induction assignments generalizing v with
  | nil => exact h
  | cons a rest ih =>
    simp only [List.map_cons, List.all_cons, Bool.and_eq_true] at hplain
    simp only [List.map_cons, List.mem_cons, not_or] at hne
    have ha := hfields a List.mem_cons_self
    apply ih
    · exact h.setMember_other ha hn hplain.1 (Ne.symm hne.1) a.2
    · exact hplain.2
    · intro b hb
      have hb' : isPlainName b.1 = true :=
        List.all_eq_true.mp hplain.2 b.1 (List.mem_map_of_mem hb)
      rw [LawfulAnyValue.hasField_setMember v a.1 a.2 b.1 hplain.1 hb' ha]
      exact hfields b (List.mem_cons_of_mem a hb)
    · exact hne.2

/-- After assignments to distinct members, each of them holds the value assigned to it. -/
theorem HasMember.of_mem_assignments {assignments : List (String × V)}
    (hnodup : (assignments.map Prod.fst).Nodup)
    (hplain : (assignments.map Prod.fst).all isPlainName = true)
    (hfields : ∀ a ∈ assignments, AnyValue.hasField v a.1 = true)
    (hm : (name, w) ∈ assignments) :
    HasMember (assignments.foldl (fun v a ↦ AnyValue.setMember v a.1 a.2) v) name w := by
  induction assignments generalizing v with
  | nil => cases hm
  | cons a rest ih =>
    simp only [List.map_cons, List.all_cons, Bool.and_eq_true] at hplain
    rw [List.map_cons, List.nodup_cons] at hnodup
    have ha := hfields a List.mem_cons_self
    have hrest : ∀ b ∈ rest, AnyValue.hasField (AnyValue.setMember v a.1 a.2) b.1 = true := by
      intro b hb
      have hb' : isPlainName b.1 = true :=
        List.all_eq_true.mp hplain.2 b.1 (List.mem_map_of_mem hb)
      rw [LawfulAnyValue.hasField_setMember v a.1 a.2 b.1 hplain.1 hb' ha]
      exact hfields b (List.mem_cons_of_mem a hb)
    rcases List.mem_cons.mp hm with rfl | hm
    · have hset : HasMember (AnyValue.setMember v name w) name w :=
        HasMember.setMember_self ha hplain.1 w
      exact hset.foldl_setMember_other hplain.1 hplain.2 hrest hnodup.1
    · exact ih hnodup.2 hplain.2 hrest hm

omit [LawfulAnyValue V] in
/-- A field holds one value. -/
theorem HasMember.unique (h : HasMember v name w) (hu : HasMember v name u) : w = u := by
  have := h.member.symm.trans hu.member
  injection this

end HasMember

/-- Different numbers are different values. -/
theorem ofUInt64_inj {V : Type} [AnyValue V] [LawfulAnyValue V] {m n : UInt64}
    (h : (AnyValue.ofUInt64 m : V) = AnyValue.ofUInt64 n) : m = n := by
  have hm := LawfulAnyValue.asUInt64_ofUInt64 (V := V) m
  rw [h, LawfulAnyValue.asUInt64_ofUInt64] at hm
  injection hm with hm
  exact hm.symm

/-- A validated member can be accessed and has the type that was asked for. -/
theorem member_of_validateMemberType {V : Type} [AnyValue V] [LawfulAnyValue V] {v : V}
    {name : String} {type : ScalarType} (h : AnyValue.validateMemberType v name type = true) :
    ∃ w, AnyValue.member v name = .ok w ∧ AnyValue.hasType w type = true :=
  ((LawfulAnyValue.validateMemberType_iff v name type).mp h).2

/-- A member that is present with the right type is validated. -/
theorem HasMember.validate {V : Type} [AnyValue V] [LawfulAnyValue V] {v w : V} {name : String}
    {type : ScalarType} (h : HasMember v name w) (ht : AnyValue.hasType w type = true) :
    AnyValue.validateMemberType v name type = true :=
  (LawfulAnyValue.validateMemberType_iff v name type).mpr ⟨h.hasField, w, h.member, ht⟩

/-- `sup::protocol::Base64VariableCodec`: a success flag and the value. -/
class Base64VariableCodec (V : Type) where
  encode : V → Bool × V
  decode : V → Bool × V

/-- What the server relies on about the codec. -/
class LawfulBase64VariableCodec (V : Type) [Base64VariableCodec V] : Prop where
  /-- A successfully encoded value is decoded back to itself. -/
  decode_encode : ∀ v w : V, Base64VariableCodec.encode v = (true, w) →
    Base64VariableCodec.decode w = (true, v)

/-- The codec encodes every value. -/
class TotalBase64VariableCodec (V : Type) [Base64VariableCodec V] : Prop where
  encode_succeeds : ∀ v : V, ∃ w, Base64VariableCodec.encode v = (true, w)

end OacTreeServer.External
