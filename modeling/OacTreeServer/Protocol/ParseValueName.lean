import Mathlib.Data.List.Infix
import OacTreeServer.Cpp.StdString
import OacTreeServer.Protocol.Names

/-!
# Parsing the name of a value

`ParseValueName` (`base/oac_tree_protocol.cpp:228`) recognises fixed endings first and
then splits at the last dash. It finds the kind and the index of every name that the
server builds, whatever the job prefix in front contains, as long as there is one.
-/

namespace OacTreeServer.Protocol
open OacTreeServer.Cpp OacTreeServer.Library

/-- What a published name stands for; `oac_tree_protocol.h:152`. -/
inductive ValueNameType where
  | kUnknown
  | kInstruction
  | kVariable
  | kLogEntry
  | kMessageEntry
  | kOutputValueEntry
  | kJobStatus
  | kBreakpointInstruction
  deriving DecidableEq, Repr

/-- What is read off a published name: the kind of value, and its index if it has one;
`oac_tree_protocol.h:164`. -/
structure ValueNameInfo where
  valType : ValueNameType
  idx : UInt32
  deriving DecidableEq, Repr

/-- `EndsWith`; `oac_tree_protocol.cpp:352`. -/
def endsWith (str subStr : String) : Bool :=
  match rfind str subStr with
  | some pos => pos + subStr.length == str.length
  | none => false

/-- `ParseIndex`; `oac_tree_protocol.cpp:358`. -/
def parseIndex (idxStr : String) : Option UInt32 :=
  match stoul idxStr with
  | none => none
  | some result =>
    if result.repr ≠ idxStr then none
    else if 0xffffffff < result then none
    else some (UInt32.ofNat result)

/-- The endings of names without an index; `oac_tree_protocol.cpp:230`. -/
def nameEndings : List (String × ValueNameType) :=
  [(kJobStateId, .kJobStatus),
    (kLogEntryId, .kLogEntry),
    (kMessageEntryId, .kMessageEntry),
    (kOutputValueEntryId, .kOutputValueEntry),
    (kBreakpointInstructionId, .kBreakpointInstruction)]

/-- The result for a name that is not recognised. -/
def unknownName : ValueNameInfo := ⟨.kUnknown, 0⟩

/-- The loop over the endings; `oac_tree_protocol.cpp:238`. -/
def parseEnding (valName : String) : List (String × ValueNameType) → Option ValueNameInfo
  | [] => none
  | (ending, endingType) :: rest =>
    if endsWith valName ending then
      if valName.length = ending.length then some unknownName else some ⟨endingType, 0⟩
    else
      parseEnding valName rest

/-- `ParseValueName`; `oac_tree_protocol.cpp:228`. -/
def parseValueName (valName : String) : ValueNameInfo :=
  match parseEnding valName nameEndings with
  | some info => info
  | none =>
    match findLastOf valName '-' with
    | none => unknownName
    | some pos =>
      match parseIndex (substrFrom valName (pos + 1)) with
      | none => unknownName
      | some idx =>
        let remainder := substrTo valName (pos + 1)
        if endsWith remainder kInstructionId && remainder.length != kInstructionId.length then
          ⟨.kInstruction, idx⟩
        else if endsWith remainder kVariableId && remainder.length != kVariableId.length then
          ⟨.kVariable, idx⟩
        else
          unknownName

/-- What is found at the end of a string is a suffix of it, and conversely. -/
theorem endsWith_iff (str subStr : String) :
    endsWith str subStr = true ↔ subStr.toList <:+ str.toList := by
  have hlen : ∀ s : String, s.toList.length = s.length := fun s ↦ String.length_toList
  constructor
  · intro h
    unfold endsWith at h
    split at h
    · next pos hpos =>
      have hpre := (of_findLastBelow hpos).2
      rw [List.isPrefixOf_iff_prefix] at hpre
      have hsize : subStr.toList.length = (str.toList.drop pos).length := by
        have := beq_iff_eq.mp h
        rw [List.length_drop, hlen, hlen]
        omega
      rw [hpre.eq_of_length hsize]
      exact List.drop_suffix pos _
    · cases h
  · rintro ⟨front, hfront⟩
    have hsize : str.length = front.length + subStr.length := by
      rw [← hlen, ← hfront, List.length_append, hlen]
    have hpos : rfind str subStr = some front.length := by
      apply findLastBelow_eq_some
      · omega
      · rw [← hfront, List.drop_left]
        simp
      · -- further to the right there is not enough room
        intro j hj hlt
        rw [Bool.eq_false_iff, Ne, List.isPrefixOf_iff_prefix]
        intro hpre
        have := hpre.length_le
        rw [List.length_drop, hlen, hlen] at this
        omega
    simp [endsWith, hpos, hsize]

/-- A string that ends in `suf` does not end in anything that `suf` cannot overlap with. -/
theorem endsWith_append_eq_false {pre suf subStr : String}
    (h : ¬ subStr.toList <:+ suf.toList) (h' : ¬ suf.toList <:+ subStr.toList) :
    endsWith (pre ++ suf) subStr = false := by
  rw [Bool.eq_false_iff, Ne, endsWith_iff, String.toList_append]
  intro hsub
  rcases List.suffix_or_suffix_of_suffix hsub (List.suffix_append pre.toList suf.toList) with
    hs | hs
  · exact h hs
  · exact h' hs

/-- A string that ends in a numeral does not end in anything without digits. -/
theorem endsWith_append_repr_eq_false {pre subStr : String} {n : Nat}
    (hne : subStr.toList ≠ []) (h : subStr.toList.any Char.isDigit = false) :
    endsWith (pre ++ n.repr) subStr = false := by
  apply endsWith_append_eq_false
  · intro hs
    obtain ⟨c, cs, hcs⟩ := List.exists_cons_of_ne_nil hne
    have hc : c ∈ subStr.toList := by simp [hcs]
    exact List.any_eq_false.mp h c hc (isDigit_of_mem_repr (hs.subset hc))
  · intro hs
    obtain ⟨c, cs, hcs⟩ := List.exists_cons_of_ne_nil (toList_repr_ne_nil n)
    have hc : c ∈ n.repr.toList := by simp [hcs]
    exact List.any_eq_false.mp h c (hs.subset hc) (isDigit_of_mem_repr hc)

/-- A string ends in what was appended to it. -/
theorem endsWith_append_self (pre suf : String) : endsWith (pre ++ suf) suf = true := by
  rw [endsWith_iff, String.toList_append]
  exact List.suffix_append _ _

/-- Something in front of a string makes it longer. -/
private theorem length_append_ne {pre : String} (hp : pre ≠ "") (suf : String) :
    (pre ++ suf).length ≠ suf.length := by
  have hlen : pre.length ≠ 0 := by
    rw [← String.length_toList, Ne, List.length_eq_zero_iff]
    intro hnil
    exact hp (String.toList_inj.mp hnil)
  rw [String.length_append]
  omega

/-- Parsing a printed index gives it back. -/
theorem parseIndex_repr (i : UInt32) : parseIndex i.toNat.repr = some i := by
  have hi := i.toNat_lt
  have hstoul : stoul i.toNat.repr = some i.toNat := stoul_repr (by
    rw [unsignedLongRange]
    omega)
  unfold parseIndex
  rw [hstoul]
  simp only [ne_eq, not_true_eq_false, if_false]
  rw [if_neg (by omega), UInt32.ofNat_toNat]

/-- Only printed indices are parsed. -/
theorem repr_of_parseIndex {idxStr : String} {i : UInt32} (h : parseIndex idxStr = some i) :
    ∃ n : Nat, idxStr = n.repr := by
  unfold parseIndex at h
  split at h
  · cases h
  · next result hr =>
    split at h
    · cases h
    · next hne => exact ⟨result, (not_not.mp hne).symm⟩

/-- The kind and the index that a name stands for. Names of the input server are not those
of values. -/
def ChannelKind.valueNameInfo : ChannelKind → ValueNameInfo
  | .jobState => ⟨.kJobStatus, 0⟩
  | .logEntry => ⟨.kLogEntry, 0⟩
  | .messageEntry => ⟨.kMessageEntry, 0⟩
  | .outputValueEntry => ⟨.kOutputValueEntry, 0⟩
  | .breakpointInstruction => ⟨.kBreakpointInstruction, 0⟩
  | .instructionState index => ⟨.kInstruction, index⟩
  | .variableState index => ⟨.kVariable, index⟩
  | .inputServer => unknownName
  | .inputRequest => unknownName

/-- The name of an indexed value is recognised behind the endings. -/
private theorem parseEnding_repr (pre : String) (n : Nat) :
    parseEnding (pre ++ n.repr) nameEndings = none := by
  simp only [parseEnding, nameEndings]
  rw [endsWith_append_repr_eq_false (by decide) (by decide),
    endsWith_append_repr_eq_false (by decide) (by decide),
    endsWith_append_repr_eq_false (by decide) (by decide),
    endsWith_append_repr_eq_false (by decide) (by decide),
    endsWith_append_repr_eq_false (by decide) (by decide)]
  rfl

/-- An indexed name is split at its last dash. -/
private theorem parseValueName_repr (pre : String) (i : UInt32) :
    parseValueName (pre ++ String.singleton '-' ++ i.toNat.repr) =
      if endsWith (pre ++ String.singleton '-') kInstructionId &&
          (pre ++ String.singleton '-').length != kInstructionId.length then
        ⟨.kInstruction, i⟩
      else if endsWith (pre ++ String.singleton '-') kVariableId &&
          (pre ++ String.singleton '-').length != kVariableId.length then
        ⟨.kVariable, i⟩
      else
        unknownName := by
  have hdash : '-' ∉ i.toNat.repr.toList := by
    rw [Nat.toList_repr]
    exact notMem_toDigits (by decide)
  unfold parseValueName
  rw [parseEnding_repr, findLastOf_append_singleton _ _ _ hdash]
  simp only [substrFrom_append_singleton, substrTo_append_singleton, parseIndex_repr]

/-- A name that ends in neither a known ending nor a numeral is not recognised. -/
private theorem parseValueName_unknown {pre suf : String}
    (hending : parseEnding (pre ++ suf) nameEndings = none) (hne : suf.toList ≠ [])
    (hdigit : suf.toList.any Char.isDigit = false) :
    parseValueName (pre ++ suf) = unknownName := by
  unfold parseValueName
  rw [hending]
  split
  · next info h => cases h
  · split
    · rfl
    · next pos hpos =>
      split
      · rfl
      · next idx hidx =>
        -- the parsed part would be a numeral at the end of the name
        obtain ⟨n, hn⟩ := repr_of_parseIndex hidx
        have hsuffix : n.repr.toList <:+ (pre ++ suf).toList := by
          rw [← hn, substrFrom, String.toList_ofList]
          exact List.drop_suffix _ _
        obtain ⟨front, hfront⟩ := hsuffix
        have hstr : pre ++ suf = String.ofList front ++ n.repr := by
          rw [← String.toList_inj, ← hfront]
          simp [String.toList_append]
        have hfalse : endsWith (String.ofList front ++ n.repr) suf = false :=
          endsWith_append_repr_eq_false hne hdigit
        rw [← hstr, endsWith_append_self] at hfalse
        cases hfalse

/-- An ending that the name does not have is skipped. -/
private theorem parseEnding_skip {valName ending : String} {t : ValueNameType}
    {rest : List (String × ValueNameType)} (h : endsWith valName ending = false) :
    parseEnding valName ((ending, t) :: rest) = parseEnding valName rest := by
  rw [parseEnding, h, if_neg Bool.false_ne_true]

/-- A name that has none of the endings is not recognised by them. -/
private theorem parseEnding_none {pre suf : String} {endings : List (String × ValueNameType)}
    (h : ∀ ending ∈ endings, ¬ ending.1.toList <:+ suf.toList ∧
      ¬ suf.toList <:+ ending.1.toList) :
    parseEnding (pre ++ suf) endings = none := by
  induction endings with
  | nil => rfl
  | cons ending endings ih =>
    rw [List.forall_mem_cons] at h
    rw [parseEnding_skip (endsWith_append_eq_false h.1.1 h.1.2)]
    exact ih h.2

/-- The ending of the name determines its kind. -/
private theorem parseEnding_hit {pre : String} (hp : pre ≠ "") {suf : String} (t : ValueNameType)
    (front rest : List (String × ValueNameType))
    (h : ∀ ending ∈ front, ¬ ending.1.toList <:+ suf.toList ∧
      ¬ suf.toList <:+ ending.1.toList) :
    parseEnding (pre ++ suf) (front ++ (suf, t) :: rest) = some ⟨t, 0⟩ := by
  induction front with
  | nil =>
    rw [List.nil_append, parseEnding, if_pos (endsWith_append_self pre suf),
      if_neg (length_append_ne hp suf)]
  | cons ending front ih =>
    rw [List.forall_mem_cons] at h
    rw [List.cons_append, parseEnding_skip (endsWith_append_eq_false h.1.1 h.1.2)]
    exact ih h.2

/-- A name with a known ending is recognised. -/
private theorem parseValueName_of_ending {valName : String} {info : ValueNameInfo}
    (h : parseEnding valName nameEndings = some info) : parseValueName valName = info := by
  rw [parseValueName, h]

/-- An identifier that ends in a dash, in front of a numeral. -/
private theorem append_dash (pre id r : String) :
    pre ++ (id ++ String.singleton '-') ++ r = (pre ++ id) ++ String.singleton '-' ++ r := by
  rw [← String.toList_inj]
  simp [String.toList_append]

/-- Parsing recognises every name that the server builds for a job. -/
theorem parseValueName_channelName {pre : String} (hp : pre ≠ "") (kind : ChannelKind) :
    parseValueName (channelName pre kind) = kind.valueNameInfo := by
  cases kind with
  | jobState =>
    apply parseValueName_of_ending
    exact parseEnding_hit hp _ [] (nameEndings.drop 1) nofun
  | logEntry =>
    apply parseValueName_of_ending
    exact parseEnding_hit hp _ (nameEndings.take 1) (nameEndings.drop 2) (by decide)
  | messageEntry =>
    apply parseValueName_of_ending
    exact parseEnding_hit hp _ (nameEndings.take 2) (nameEndings.drop 3) (by decide)
  | outputValueEntry =>
    apply parseValueName_of_ending
    exact parseEnding_hit hp _ (nameEndings.take 3) (nameEndings.drop 4) (by decide)
  | breakpointInstruction =>
    apply parseValueName_of_ending
    exact parseEnding_hit hp _ (nameEndings.take 4) [] (by decide)
  | instructionState i =>
    have hid : pre ++ "INSTR" ++ String.singleton '-' = pre ++ kInstructionId :=
      String.append_assoc
    change parseValueName (pre ++ ("INSTR" ++ String.singleton '-') ++ i.toNat.repr) = _
    rw [append_dash, parseValueName_repr, hid, endsWith_append_self, Bool.true_and, bne_iff_ne.mpr
      (length_append_ne hp kInstructionId), if_pos rfl]
    rfl
  | variableState i =>
    have hid : pre ++ "VAR" ++ String.singleton '-' = pre ++ kVariableId := String.append_assoc
    change parseValueName (pre ++ ("VAR" ++ String.singleton '-') ++ i.toNat.repr) = _
    have hinstruction : endsWith (pre ++ kVariableId) kInstructionId = false :=
      endsWith_append_eq_false (by decide) (by decide)
    rw [append_dash, parseValueName_repr, hid, hinstruction, Bool.false_and,
      if_neg Bool.false_ne_true, endsWith_append_self, Bool.true_and,
      bne_iff_ne.mpr (length_append_ne hp kVariableId), if_pos rfl]
    rfl
  | inputServer =>
    exact parseValueName_unknown (parseEnding_none (by decide)) (by decide) (by decide)
  | inputRequest =>
    rw [channelName_eq]
    exact parseValueName_unknown (parseEnding_none (by decide)) (by decide) (by decide)

end OacTreeServer.Protocol
