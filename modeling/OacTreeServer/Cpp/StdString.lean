import Mathlib.Data.List.TakeWhile
import OacTreeServer.Library.Decimal

/-!
# The parts of the C++ string library that the server uses

A `std::string` is modelled by a `String` whose characters stand for its bytes.
Positions are counted from zero and `none` stands for `npos`, or for the exception
that `std::stoul` throws. `std::to_string` of an unsigned number is `Nat.repr`.
-/

namespace OacTreeServer.Cpp

/-- The greatest number below `n` with a property. -/
def findLastBelow (n : Nat) (p : Nat → Bool) : Option Nat :=
  (List.range n).reverse.find? p

/-- The greatest such number is found if there is one. -/
theorem findLastBelow_eq_some {n k : Nat} {p : Nat → Bool} (hk : k < n) (hp : p k = true)
    (hlast : ∀ j, k < j → j < n → p j = false) : findLastBelow n p = some k := by
  induction n with
  | zero => omega
  | succ n ih =>
    unfold findLastBelow at ih ⊢
    rw [List.range_succ, List.reverse_append, List.reverse_singleton, List.singleton_append,
      List.find?_cons]
    by_cases hkn : k = n
    · subst hkn
      rw [hp]
    · rw [hlast n (by omega) (by omega)]
      exact ih (by omega) (fun j hj hn ↦ hlast j hj (by omega))

/-- What is found lies below the bound and has the property. -/
theorem of_findLastBelow {n k : Nat} {p : Nat → Bool} (h : findLastBelow n p = some k) :
    k < n ∧ p k = true := by
  refine ⟨?_, List.find?_some h⟩
  simpa using List.mem_of_find?_eq_some h

/-- `std::string::rfind`: the start of the last occurrence of `sub`. -/
def rfind (str sub : String) : Option Nat :=
  findLastBelow (str.length + 1) fun pos ↦ sub.toList.isPrefixOf (str.toList.drop pos)

/-- `std::string::find_last_of` with a single character. -/
def findLastOf (str : String) (c : Char) : Option Nat :=
  findLastBelow str.length fun pos ↦ str.toList[pos]? == some c

/-- `std::string::substr(pos)`. -/
def substrFrom (str : String) (pos : Nat) : String := String.ofList (str.toList.drop pos)

/-- `std::string::substr(0, count)`. -/
def substrTo (str : String) (count : Nat) : String := String.ofList (str.toList.take count)

/-- `isspace` in the C locale, which `std::stoul` skips first. -/
def isSpace (c : Char) : Bool :=
  c = ' ' || c = '\t' || c = '\n' || c = '\x0b' || c = '\x0c' || c = '\r'

/-- One past the greatest value of `unsigned long`, taken to be 64 bits wide. -/
def unsignedLongRange : Nat := 0x10000000000000000

/-- `std::stoul` in base ten: leading blanks and one sign are skipped, digits are read as
far as they go, and a value in range is negated modulo `2 ^ 64` after a minus sign.
`none` is `std::invalid_argument` (no digit) or `std::out_of_range`. -/
def stoul (str : String) : Option Nat :=
  let rest := str.toList.dropWhile isSpace
  let (negative, rest) := match rest with
    | '-' :: tail => (true, tail)
    | '+' :: tail => (false, tail)
    | _ => (false, rest)
  let digits := rest.takeWhile Char.isDigit
  if digits = [] then none
  else
    let value := Nat.ofDigitChars 10 digits 0
    if unsignedLongRange ≤ value then none
    else some (if negative then (unsignedLongRange - value) % unsignedLongRange else value)

/-- Splitting at the last separator finds its position. -/
theorem findLastOf_append_singleton (a r : String) (c : Char) (hr : c ∉ r.toList) :
    findLastOf (a ++ String.singleton c ++ r) c = some a.length := by
  apply findLastBelow_eq_some
  · simp only [String.length_append, String.length_singleton]
    omega
  · have ha : a.length = a.toList.length := String.length_toList.symm
    simp [String.toList_append, ha]
  · intro j hj hlt
    have hge : a.toList.length < j := by rwa [String.length_toList]
    simp only [String.toList_append, String.toList_singleton, List.append_assoc,
      List.singleton_append, beq_eq_false_iff_ne, ne_eq]
    rw [List.getElem?_append_right (by omega), List.getElem?_cons,
      if_neg (by omega)]
    intro h
    exact hr (List.mem_of_getElem? h)

/-- The part behind the last separator. -/
theorem substrFrom_append_singleton (a r : String) (c : Char) :
    substrFrom (a ++ String.singleton c ++ r) (a.length + 1) = r := by
  rw [substrFrom, ← String.toList_inj, String.toList_ofList]
  simp only [String.toList_append, String.toList_singleton]
  rw [List.drop_left' (by simp [String.length_toList])]

/-- The part up to and including the last separator. -/
theorem substrTo_append_singleton (a r : String) (c : Char) :
    substrTo (a ++ String.singleton c ++ r) (a.length + 1) = a ++ String.singleton c := by
  rw [substrTo, ← String.toList_inj, String.toList_ofList]
  simp only [String.toList_append, String.toList_singleton]
  rw [List.take_left' (by simp [String.length_toList])]

/-- A digit is neither a blank nor a sign. -/
private theorem digit_plain {c : Char} (h : c.isDigit) :
    isSpace c = false ∧ c ≠ '-' ∧ c ≠ '+' := by
  have hr : 48 ≤ c.val.toNat ∧ c.val.toNat ≤ 57 := by
    simpa [Char.isDigit, UInt32.le_iff_toNat_le] using h
  have hne (d : Char) (hd : d.val.toNat < 48) : c ≠ d := by
    rintro rfl
    omega
  refine ⟨?_, hne _ (by decide), hne _ (by decide)⟩
  simp only [isSpace, Bool.or_eq_false_iff, decide_eq_false_iff_not]
  exact ⟨⟨⟨⟨⟨hne _ (by decide), hne _ (by decide)⟩, hne _ (by decide)⟩, hne _ (by decide)⟩,
    hne _ (by decide)⟩, hne _ (by decide)⟩

/-- Reading a printed number gives it back, as long as it fits an `unsigned long`. -/
theorem stoul_repr {n : Nat} (hn : n < unsignedLongRange) : stoul n.repr = some n := by
  have hall : ∀ c ∈ n.repr.toList, c.isDigit = true := fun c hc ↦ Library.isDigit_of_mem_repr hc
  obtain ⟨c, cs, hcs⟩ := List.exists_cons_of_ne_nil (Library.toList_repr_ne_nil n)
  have hc := digit_plain (hall c (by rw [hcs]; simp))
  have hdrop : n.repr.toList.dropWhile isSpace = c :: cs := by
    rw [hcs, List.dropWhile_cons_of_neg (by simp [hc.1])]
  have hsign : (match c :: cs with
      | '-' :: tail => (true, tail)
      | '+' :: tail => (false, tail)
      | _ => (false, c :: cs)) = (false, c :: cs) := by
    split
    · next heq => exact absurd (List.cons.inj heq).1 hc.2.1
    · next heq => exact absurd (List.cons.inj heq).1 hc.2.2
    · rfl
  have htake : (c :: cs).takeWhile Char.isDigit = n.repr.toList := by
    rw [← hcs]
    exact List.takeWhile_eq_self_iff.mpr hall
  have hvalue : Nat.ofDigitChars 10 n.repr.toList 0 = n := by
    rw [Nat.toList_repr, Nat.ofDigitChars_ten_toDigits]
  unfold stoul
  rw [hdrop]
  simp only [hsign, htake, hvalue]
  rw [if_neg (Library.toList_repr_ne_nil n), if_neg (by omega)]
  rfl

end OacTreeServer.Cpp
