import OacTreeServer.Protocol.ParseValueName

/-!
# The names that are accepted

`ParseValueName` (`base/oac_tree_protocol.cpp:228`) recognises nothing but the names that
the server builds. What it accepts has a known ending, or an index that prints back as
it was read, and something in front of either.
-/

namespace OacTreeServer.Protocol
open OacTreeServer.Cpp OacTreeServer.Library

/-- The channels that carry a value; those of the input server do not. -/
def ChannelKind.isValue : ChannelKind → Bool
  | .inputServer => false
  | .inputRequest => false
  | _ => true

/-- `name` is built from a prefix by one of the functions in `oac_tree_protocol.cpp:135-178`
that name a value. -/
structure IsValueName (name pre : String) (kind : ChannelKind) : Prop where
  pre_ne : pre ≠ ""
  isValue : kind.isValue = true
  eq_channelName : name = channelName pre kind

/-- Every kind of value is a known one. -/
theorem valType_ne_kUnknown {kind : ChannelKind} (h : kind.isValue = true) :
    kind.valueNameInfo.valType ≠ .kUnknown := by
  cases kind <;> simp [ChannelKind.isValue, ChannelKind.valueNameInfo] at h ⊢

/-- Type and index determine the kind of value. -/
theorem valueNameInfo_inj {kind other : ChannelKind} (h : kind.isValue = true)
    (h' : other.isValue = true) (heq : kind.valueNameInfo = other.valueNameInfo) :
    kind = other := by
  cases kind <;> cases other <;>
    simp [ChannelKind.isValue, ChannelKind.valueNameInfo] at h h' heq ⊢
  · exact heq
  · exact heq

/-- A string that ends in another one, and is not that one, has something in front. -/
private theorem exists_front_of_endsWith {str subStr : String} (h : endsWith str subStr = true)
    (hlen : str.length ≠ subStr.length) : ∃ pre, pre ≠ "" ∧ str = pre ++ subStr := by
  obtain ⟨front, hfront⟩ := (endsWith_iff str subStr).mp h
  have hstr : str = String.ofList front ++ subStr := by
    rw [← String.toList_inj, String.toList_append, String.toList_ofList, hfront]
  refine ⟨String.ofList front, ?_, hstr⟩
  intro hnil
  rw [hnil, String.empty_append] at hstr
  exact hlen (congrArg String.length hstr)

/-- A string is cut into the part before a position and the rest. -/
private theorem substrTo_append_substrFrom (str : String) (pos : Nat) :
    substrTo str pos ++ substrFrom str pos = str := by
  rw [← String.toList_inj, String.toList_append, substrTo, substrFrom, String.toList_ofList,
    String.toList_ofList, List.take_append_drop]

/-- An index that is parsed prints back as it was read. -/
theorem eq_repr_of_parseIndex {idxStr : String} {i : UInt32} (h : parseIndex idxStr = some i) :
    idxStr = i.toNat.repr := by
  unfold parseIndex at h
  split at h
  · cases h
  · next result _ =>
    split at h
    · cases h
    · next hrepr =>
      split at h
      · cases h
      · next hrange =>
        cases h
        rw [UInt32.toNat_ofNat_of_lt' (by
          change result < 2 ^ 32
          omega)]
        exact (not_not.mp hrepr).symm

/-- An ending that is found has something in front, or nothing is recognised. -/
private theorem parseEnding_sound {valName : String} {info : ValueNameInfo}
    {endings : List (String × ValueNameType)} (h : parseEnding valName endings = some info) :
    info = unknownName ∨
      ∃ ending ∈ endings.map Prod.fst, ∃ pre, pre ≠ "" ∧ valName = pre ++ ending := by
  induction endings with
  | nil => cases h
  | cons entry rest ih =>
    obtain ⟨ending, endingType⟩ := entry
    rw [parseEnding] at h
    split at h
    · next hends =>
      split at h
      · cases h
        exact Or.inl rfl
      · next hlen =>
        exact Or.inr ⟨ending, by simp, exists_front_of_endsWith hends hlen⟩
    · cases ih h with
      | inl hunknown => exact Or.inl hunknown
      | inr hfound =>
        obtain ⟨found, hmem, hpre⟩ := hfound
        exact Or.inr ⟨found, List.mem_cons_of_mem _ hmem, hpre⟩

/-- Every ending is the suffix of a kind of value. -/
private theorem exists_kind_of_ending {ending : String}
    (h : ending ∈ nameEndings.map Prod.fst) :
    ∃ kind : ChannelKind, kind.isValue = true ∧ kind.suffix = ending := by
  simp only [nameEndings, List.map_cons, List.map_nil, List.mem_cons, List.not_mem_nil,
    or_false] at h
  rcases h with rfl | rfl | rfl | rfl | rfl
  · exact ⟨.jobState, rfl, rfl⟩
  · exact ⟨.logEntry, rfl, rfl⟩
  · exact ⟨.messageEntry, rfl, rfl⟩
  · exact ⟨.outputValueEntry, rfl, rfl⟩
  · exact ⟨.breakpointInstruction, rfl, rfl⟩

/-- An index behind an identifier is one of a value. -/
private theorem isValueName_of_split {valName identifier : String} {pos : Nat} {idx : UInt32}
    {kind : ChannelKind} (hidx : parseIndex (substrFrom valName (pos + 1)) = some idx)
    (hends : (endsWith (substrTo valName (pos + 1)) identifier &&
      (substrTo valName (pos + 1)).length != identifier.length) = true)
    (hkind : kind.isValue = true) (hsuffix : kind.suffix = identifier ++ idx.toNat.repr) :
    ∃ pre, IsValueName valName pre kind := by
  rw [Bool.and_eq_true, bne_iff_ne] at hends
  obtain ⟨pre, hpre, hremainder⟩ := exists_front_of_endsWith hends.1 hends.2
  refine ⟨pre, hpre, hkind, ?_⟩
  rw [channelName_eq, hsuffix, ← String.append_assoc, ← hremainder, ← eq_repr_of_parseIndex hidx,
    substrTo_append_substrFrom]

/-- A name that is not built by the server is not recognised. -/
theorem parseValueName_sound (valName : String) :
    parseValueName valName = unknownName ∨ ∃ pre kind, IsValueName valName pre kind := by
  unfold parseValueName
  split
  · next info hinfo =>
    cases parseEnding_sound hinfo with
    | inl hunknown => exact Or.inl hunknown
    | inr hfound =>
      obtain ⟨ending, hmem, pre, hpre, hname⟩ := hfound
      obtain ⟨kind, hkind, hsuffix⟩ := exists_kind_of_ending hmem
      exact Or.inr ⟨pre, kind, hpre, hkind, by rw [channelName_eq, hsuffix, hname]⟩
  · split
    · exact Or.inl rfl
    · next pos _ =>
      split
      · exact Or.inl rfl
      · next idx hidx =>
        dsimp only
        split
        · next hinstr =>
          have hname : ∃ pre, IsValueName valName pre (.instructionState idx) :=
            isValueName_of_split hidx hinstr rfl rfl
          obtain ⟨pre, hname⟩ := hname
          exact Or.inr ⟨pre, _, hname⟩
        · split
          · next hvar =>
            have hname : ∃ pre, IsValueName valName pre (.variableState idx) :=
              isValueName_of_split hidx hvar rfl rfl
            obtain ⟨pre, hname⟩ := hname
            exact Or.inr ⟨pre, _, hname⟩
          · exact Or.inl rfl

/-- What is built by the server is recognised as what it is. -/
theorem IsValueName.parse {name pre : String} {kind : ChannelKind}
    (h : IsValueName name pre kind) : parseValueName name = kind.valueNameInfo := by
  rw [h.eq_channelName]
  exact parseValueName_channelName h.pre_ne kind

/-- A name of a value is built from one prefix and for one kind only. -/
theorem IsValueName.unique {name pre pre' : String} {kind kind' : ChannelKind}
    (h : IsValueName name pre kind) (h' : IsValueName name pre' kind') :
    pre' = pre ∧ kind' = kind := by
  have hkind : kind' = kind := by
    apply valueNameInfo_inj h'.isValue h.isValue
    rw [← h.parse, ← h'.parse]
  subst hkind
  have hname := h'.eq_channelName.symm.trans h.eq_channelName
  rw [channelName_eq, channelName_eq, String.append_left_inj] at hname
  exact ⟨hname, rfl⟩

/-- Exactly the names that the server publishes are accepted, each as the one kind and index
it is built from; every other string is `(kUnknown, 0)`. -/
theorem parseValueName_accepts_published (name : String) :
    ((parseValueName name).valType ≠ .kUnknown ↔ ∃ pre kind, IsValueName name pre kind) ∧
      (∀ pre kind, IsValueName name pre kind →
        parseValueName name = kind.valueNameInfo ∧
          ∀ pre' kind', IsValueName name pre' kind' → pre' = pre ∧ kind' = kind) ∧
      ((¬ ∃ pre kind, IsValueName name pre kind) → parseValueName name = ⟨.kUnknown, 0⟩) := by
  refine ⟨⟨?_, ?_⟩, ?_, ?_⟩
  · intro hknown
    cases parseValueName_sound name with
    | inl hunknown => exact absurd (by rw [hunknown]; rfl) hknown
    | inr hname => exact hname
  · rintro ⟨pre, kind, hname⟩
    rw [hname.parse]
    exact valType_ne_kUnknown hname.isValue
  · intro pre kind hname
    exact ⟨hname.parse, fun _ _ hother ↦ hname.unique hother⟩
  · intro hnone
    cases parseValueName_sound name with
    | inl hunknown => exact hunknown
    | inr hname => exact absurd hname hnone

/-- What `std::stoul` reads leniently, or is out of range, is not accepted. -/
example : ["job:INSTR-07", "job:INSTR-+7", "job:INSTR- 7", "job:VAR-7x", "job:VAR-4294967296",
    "VAR-7"].map parseValueName = List.replicate 6 unknownName := by
  decide +kernel

end OacTreeServer.Protocol
