import Mathlib.Data.List.Infix

/-!
# Decimal numerals and separators in strings

Names that are built by plain concatenation can be taken apart again at a separator
that does not occur in the part behind it. Decimal numerals contain digits only, so
every other character separates them from what comes before.
-/

namespace OacTreeServer.Library

/-- The last occurrence of a separator splits a list in one way only. -/
theorem append_cons_inj_of_notMem {α : Type} {c : α} {l₁ l₂ r₁ r₂ : List α}
    (h₁ : c ∉ r₁) (h₂ : c ∉ r₂) :
    l₁ ++ c :: r₁ = l₂ ++ c :: r₂ ↔ l₁ = l₂ ∧ r₁ = r₂ := by
  constructor
  · intro h
    rcases List.append_eq_append_iff.mp h with ⟨as, hl, hr⟩ | ⟨as, hl, hr⟩
    · rcases as with _ | ⟨a, as⟩
      · rw [List.append_nil] at hl
        exact ⟨hl.symm, (List.cons.inj hr).2⟩
      · simp only [List.cons_append, List.cons.injEq] at hr
        exact absurd (hr.2 ▸ by simp) h₁
    · rcases as with _ | ⟨a, as⟩
      · rw [List.append_nil] at hl
        exact ⟨hl, (List.cons.inj hr).2.symm⟩
      · simp only [List.cons_append, List.cons.injEq] at hr
        exact absurd (hr.2 ▸ by simp) h₂
  · rintro ⟨rfl, rfl⟩
    rfl

/-- The last occurrence of a separator splits a string in one way only. -/
theorem string_append_sep_inj {c : Char} {a b r s : String}
    (hr : c ∉ r.toList) (hs : c ∉ s.toList) :
    a ++ String.singleton c ++ r = b ++ String.singleton c ++ s ↔ a = b ∧ r = s := by
  rw [← String.toList_inj, ← String.toList_inj, ← String.toList_inj]
  simpa [String.toList_append] using append_cons_inj_of_notMem hr hs

/-- Every character of a decimal numeral is a digit. -/
theorem isDigit_of_mem_repr {n : Nat} {c : Char} (h : c ∈ n.repr.toList) : c.isDigit := by
  rw [Nat.toList_repr] at h
  exact Nat.isDigit_of_mem_toDigits (by decide) (by decide) h

/-- A character that is no digit does not occur in a decimal numeral. -/
theorem notMem_toDigits {n : Nat} {c : Char} (hc : c.isDigit = false) :
    c ∉ Nat.toDigits 10 n := by
  intro h
  rw [Nat.isDigit_of_mem_toDigits (by decide) (by decide) h] at hc
  cases hc

/-- Decimal digits determine their number. -/
theorem toDigits_inj {m n : Nat} : Nat.toDigits 10 m = Nat.toDigits 10 n ↔ m = n := by
  constructor
  · intro h
    have hv := congrArg (Nat.ofDigitChars 10 · 0) h
    simpa only [Nat.ofDigitChars_ten_toDigits] using hv
  · exact congrArg (Nat.toDigits 10)

/-- A decimal numeral determines its number. -/
theorem repr_inj {m n : Nat} : m.repr = n.repr ↔ m = n := by
  rw [← String.toList_inj, Nat.toList_repr, Nat.toList_repr, toDigits_inj]

/-- A decimal numeral is not empty. -/
theorem toList_repr_ne_nil (n : Nat) : n.repr.toList ≠ [] := by
  rw [Nat.toList_repr]
  exact Nat.toDigits_ne_nil

end OacTreeServer.Library
