import Mathlib

/-!
# Maps from names

`std::map` with strings as keys, as far as the server uses it: lookup, and assignment to
a key. The order of the keys is not observed.
-/

namespace OacTreeServer.Cpp

/-- `std::map` from names. -/
abbrev NameMap (α : Type) := Std.ExtTreeMap String α

namespace NameMap

variable {α : Type}

/-- Assignment to a name is seen under that name only. -/
theorem getElem?_insert (m : NameMap α) (name other : String) (a : α) :
    (m.insert name a)[other]? = if name = other then some a else m[other]? := by
  simp [Std.ExtTreeMap.getElem?_insert]

/-- Assignment of one value to several names. -/
theorem getElem?_foldl_insert (names : List String) (m : NameMap α) (a : α)
    (other : String) :
    (names.foldl (fun m name ↦ m.insert name a) m)[other]? =
      if other ∈ names then some a else m[other]? := by
  induction names generalizing m with
  | nil => simp
  | cons name names ih =>
    rw [List.foldl_cons, ih, getElem?_insert]
    by_cases hn : other ∈ names
    · simp [hn]
    · by_cases ho : name = other
      · simp [ho]
      · simp [hn, ho, Ne.symm ho]

end NameMap
end OacTreeServer.Cpp
