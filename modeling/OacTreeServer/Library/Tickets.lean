import Mathlib.Data.List.Basic
import Mathlib.Data.List.Range

/-!
# Tickets that are served in order

Whoever draws a ticket gets the number behind the last one that was drawn. Tickets are served
in order when the numbers served so far are those from 1 on, which a further one continues
exactly when it is next.
-/

namespace OacTreeServer.Library

/-- The numbers from 1 on, one after the other. -/
def Consecutive (numbers : List Nat) : Prop := numbers = List.range' 1 numbers.length

/-- No number has been served. -/
theorem consecutive_nil : Consecutive [] := rfl

/-- The numbers from 1 on are those up to their count. -/
theorem Consecutive.mem_iff {numbers : List Nat} (h : Consecutive numbers) {n : Nat} :
    n ∈ numbers ↔ 1 ≤ n ∧ n ≤ numbers.length := by
  rw [h, List.mem_range'_1, List.length_range']
  omega

/-- One more number continues the others when it is next. -/
theorem Consecutive.concat_iff {numbers : List Nat} (h : Consecutive numbers) (n : Nat) :
    Consecutive (numbers ++ [n]) ↔ n = numbers.length + 1 := by
  unfold Consecutive at h ⊢
  rw [List.length_append, List.length_singleton, List.range'_concat, ← h, Nat.one_mul,
    Nat.add_comm 1]
  constructor
  · intro heq
    exact List.singleton_inj.mp (List.append_cancel_left heq)
  · intro heq
    rw [heq]

/-- What was served before others was served in order, too. -/
theorem Consecutive.of_append {numbers later : List Nat} (h : Consecutive (numbers ++ later)) :
    Consecutive numbers := by
  unfold Consecutive at h ⊢
  rw [List.length_append, ← List.range'_append_1] at h
  exact List.append_inj_left h (List.length_range' ..).symm

/-- The last number is the largest. -/
theorem Consecutive.le_of_getLast? {numbers : List Nat} (h : Consecutive numbers) {n : Nat}
    (hlast : numbers.getLast? = some n) : ∀ m ∈ numbers, m ≤ n := by
  have hn : n = numbers.length := by
    cases hnumbers : numbers.length with
    | zero =>
      rw [List.length_eq_zero_iff.mp hnumbers] at hlast
      cases hlast
    | succ len =>
      unfold Consecutive at h
      rw [hnumbers, List.range'_concat] at h
      rw [h, List.getLast?_concat] at hlast
      cases hlast
      omega
  intro m hm
  rw [hn]
  exact (h.mem_iff.mp hm).2

end OacTreeServer.Library
