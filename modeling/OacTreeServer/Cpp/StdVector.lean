import Mathlib.Data.List.Basic

/-!
# `std::vector` and references to its elements

Elements are only ever added at the end. Adding one to a vector that has no capacity left
moves all of them to a new storage, and every reference into the old storage becomes invalid.
By how much the capacity grows is left open.
-/

namespace OacTreeServer.Cpp

/-- A vector, with the identity of the storage that its elements are in. -/
structure StdVector (A : Type) where
  elements : List A
  capacity : Nat
  storage : Nat
  length_le : elements.length ≤ capacity

/-- A reference to an element: where the element was when the reference was taken. -/
structure StdReference where
  storage : Nat
  position : Nat
  deriving DecidableEq, Repr

namespace StdVector

variable {A : Type}

/-- A vector without elements. -/
def empty : StdVector A := ⟨[], 0, 0, Nat.le_refl 0⟩

/-- `size`. -/
def size (v : StdVector A) : Nat := v.elements.length

/-- `operator[]`, as a reference. -/
def reference (v : StdVector A) (position : Nat) : StdReference := ⟨v.storage, position⟩

/-- The reference refers to an element of the vector. -/
def Valid (v : StdVector A) (r : StdReference) : Prop :=
  r.storage = v.storage ∧ r.position < v.size

instance (v : StdVector A) (r : StdReference) : Decidable (v.Valid r) :=
  inferInstanceAs (Decidable (_ ∧ _))

/-- The element that a reference refers to; `none` when the reference is not valid. -/
def deref (v : StdVector A) (r : StdReference) : Option A :=
  if r.storage = v.storage then v.elements[r.position]? else none

/-- The element at a position is replaced. -/
def set (v : StdVector A) (position : Nat) (a : A) : StdVector A :=
  { v with
    elements := v.elements.set position a
    length_le := by
      rw [List.length_set]
      exact v.length_le }

/-- `emplace_back`, with a capacity that grows beyond the size when there is none left. -/
def emplaceBack (growth : Nat → Nat) (v : StdVector A) (a : A) : StdVector A :=
  if h : v.size < v.capacity then
    { v with
      elements := v.elements ++ [a]
      length_le := by
        rw [List.length_append]
        exact h }
  else
    { elements := v.elements ++ [a]
      capacity := v.size + 1 + growth v.capacity
      storage := v.storage + 1
      length_le := by
        rw [List.length_append]
        exact Nat.le_add_right _ _ }

/-- A valid reference refers to the element at its position. -/
theorem deref_of_valid {v : StdVector A} {r : StdReference} (h : v.Valid r) :
    v.deref r = v.elements[r.position]? := by
  rw [deref, if_pos h.1]

/-- Exactly the valid references refer to an element. -/
theorem deref_isSome {v : StdVector A} {r : StdReference} : (v.deref r).isSome ↔ v.Valid r := by
  unfold deref Valid size
  split
  · next h => simp [h]
  · next h => simp [h]

/-- A reference that was just taken is valid. -/
theorem valid_reference {v : StdVector A} {position : Nat} (h : position < v.size) :
    v.Valid (v.reference position) :=
  ⟨rfl, h⟩

/-- Replacing an element does not change the number of elements. -/
@[simp] theorem size_set (v : StdVector A) (position : Nat) (a : A) :
    (v.set position a).size = v.size :=
  List.length_set

/-- Nor which references are valid. -/
@[simp] theorem valid_set {v : StdVector A} {position : Nat} {a : A} {r : StdReference} :
    (v.set position a).Valid r ↔ v.Valid r := by
  unfold Valid
  rw [size_set]
  rfl

/-- The elements behind a replacement. -/
theorem getElem?_elements_set {v : StdVector A} {position : Nat} {old : A}
    (h : v.elements[position]? = some old) (a : A) (i : Nat) :
    (v.set position a).elements[i]? = if i = position then some a else v.elements[i]? := by
  have hlt : position < v.elements.length := (List.getElem?_eq_some_iff.mp h).1
  change (v.elements.set position a)[i]? = _
  rw [List.getElem?_set]
  by_cases hi : i = position
  · rw [if_pos hi.symm, if_pos hi, if_pos (by omega)]
  · rw [if_neg (Ne.symm hi), if_neg hi]

variable {growth : Nat → Nat}

/-- A new element stands behind the others. -/
@[simp] theorem elements_emplaceBack (v : StdVector A) (a : A) :
    (v.emplaceBack growth a).elements = v.elements ++ [a] := by
  unfold emplaceBack
  split <;> rfl

/-- There is one more element. -/
@[simp] theorem size_emplaceBack (v : StdVector A) (a : A) :
    (v.emplaceBack growth a).size = v.size + 1 := by
  unfold size
  rw [elements_emplaceBack, List.length_append, List.length_singleton]

/-- The capacity does not decrease. -/
theorem capacity_le_emplaceBack (v : StdVector A) (a : A) :
    v.capacity ≤ (v.emplaceBack growth a).capacity := by
  unfold emplaceBack
  split
  · exact Nat.le_refl _
  · next hfull =>
    change v.capacity ≤ v.size + 1 + growth v.capacity
    omega

/-- Elements that were there stay where they are. -/
theorem getElem?_elements_emplaceBack {v : StdVector A} {i : Nat} {old : A}
    (h : v.elements[i]? = some old) (a : A) :
    (v.emplaceBack growth a).elements[i]? = some old := by
  rw [elements_emplaceBack, List.getElem?_append_left (List.getElem?_eq_some_iff.mp h).1, h]

/-- A reference stays valid exactly when the vector has capacity left. -/
theorem valid_emplaceBack_iff {v : StdVector A} {r : StdReference} (h : v.Valid r) (a : A) :
    (v.emplaceBack growth a).Valid r ↔ v.size < v.capacity := by
  have hlt : r.position < v.size + 1 := Nat.lt_succ_of_lt h.2
  unfold Valid
  rw [size_emplaceBack]
  unfold emplaceBack
  split
  · next hcapacity => simp [h.1, hlt, hcapacity]
  · next hfull =>
    have hmoved : r.storage ≠ v.storage + 1 := by
      rw [h.1]
      omega
    simp [hmoved, hfull]

end StdVector
end OacTreeServer.Cpp
