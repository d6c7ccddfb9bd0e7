import Mathlib.Data.List.Nodup
import Mathlib.Data.List.Sublists

/-!
# Delivery from a queue

Distinct items enter a queue at its end, are taken from its front, and at times all that
wait are dropped. `Delivery` relates the four lists that describe such a queue; the three
operations keep it, and it says that what is taken is taken in order and at most once, and
that what is dropped is never taken.
-/

namespace OacTreeServer.Library

universe u

variable {Item : Type u}

/-- All items in `queued` are distinct and, in this order, the `taken` ones among the
`dropped` ones, followed by those `waiting`. -/
structure Delivery (queued taken dropped waiting : List Item) : Prop where
  nodup : queued.Nodup
  split : ∃ gone, queued = gone ++ waiting ∧ taken.Sublist gone ∧
    (∀ x ∈ gone, x ∈ taken ∨ x ∈ dropped) ∧ ∀ x ∈ dropped, x ∈ gone ∧ x ∉ taken

namespace Delivery

variable {queued taken dropped waiting : List Item}

/-- Nothing has happened. -/
theorem nil : Delivery ([] : List Item) [] [] [] :=
  ⟨List.nodup_nil, [], rfl, List.Sublist.refl [], nofun, nofun⟩

/-- A new item waits at the end. -/
theorem enqueue (d : Delivery queued taken dropped waiting) {x : Item} (hx : x ∉ queued) :
    Delivery (queued ++ [x]) taken dropped (waiting ++ [x]) := by
  obtain ⟨gone, hsplit, hrest⟩ := d.split
  refine ⟨?_, gone, ?_, hrest⟩
  · rw [← List.concat_eq_append]
    exact d.nodup.concat hx
  · rw [hsplit, List.append_assoc]

/-- The first of the waiting items is taken. -/
theorem take {x : Item} (d : Delivery queued taken dropped (x :: waiting)) :
    Delivery queued (taken ++ [x]) dropped waiting := by
  obtain ⟨gone, hsplit, hsub, hgone, hdropped⟩ := d.split
  have hfresh : x ∉ gone := by
    have hnodup := d.nodup
    rw [hsplit] at hnodup
    exact fun hx ↦ List.disjoint_of_nodup_append hnodup hx List.mem_cons_self
  refine ⟨d.nodup, gone ++ [x], ?_, hsub.append_right [x], ?_, ?_⟩
  · rw [hsplit, List.append_assoc, List.singleton_append]
  · intro y hy
    cases List.mem_append.mp hy with
    | inl hy => exact (hgone y hy).imp_left (List.mem_append_left _)
    | inr hy => exact .inl (List.mem_append_right _ hy)
  · intro y hy
    obtain ⟨hygone, hytaken⟩ := hdropped y hy
    refine ⟨List.mem_append_left _ hygone, ?_⟩
    rw [List.mem_append, List.mem_singleton, not_or]
    refine ⟨hytaken, ?_⟩
    rintro rfl
    exact hfresh hygone

/-- All waiting items are dropped. -/
theorem drop (d : Delivery queued taken dropped waiting) :
    Delivery queued taken (dropped ++ waiting) [] := by
  obtain ⟨gone, hsplit, hsub, hgone, hdropped⟩ := d.split
  refine ⟨d.nodup, gone ++ waiting, ?_, hsub.trans (List.sublist_append_left _ _), ?_, ?_⟩
  · rw [hsplit, List.append_nil]
  · intro y hy
    cases List.mem_append.mp hy with
    | inl hy => exact (hgone y hy).imp_right (List.mem_append_left _)
    | inr hy => exact .inr (List.mem_append_right _ hy)
  · intro y hy
    cases List.mem_append.mp hy with
    | inl hy => exact ⟨List.mem_append_left _ (hdropped y hy).1, (hdropped y hy).2⟩
    | inr hy =>
      refine ⟨List.mem_append_right _ hy, fun hytaken ↦ ?_⟩
      have hnodup := d.nodup
      rw [hsplit] at hnodup
      exact List.disjoint_of_nodup_append hnodup (hsub.subset hytaken) hy

/-- Items are taken in the order in which they were queued. -/
theorem taken_sublist (d : Delivery queued taken dropped waiting) : taken.Sublist queued := by
  obtain ⟨gone, hsplit, hsub, -⟩ := d.split
  rw [hsplit]
  exact hsub.trans (List.sublist_append_left _ _)

/-- What waits has been queued. -/
theorem waiting_subset (d : Delivery queued taken dropped waiting) {x : Item}
    (hx : x ∈ waiting) : x ∈ queued := by
  obtain ⟨gone, hsplit, -⟩ := d.split
  rw [hsplit]
  exact List.mem_append_right gone hx

/-- No dropped item is taken. -/
theorem not_taken (d : Delivery queued taken dropped waiting) {x : Item} (hx : x ∈ dropped) :
    x ∉ taken := by
  obtain ⟨gone, -, -, -, hdropped⟩ := d.split
  exact (hdropped x hx).2

/-- A queued item is taken, dropped or waiting. -/
theorem mem_cases (d : Delivery queued taken dropped waiting) {x : Item} (hx : x ∈ queued) :
    x ∈ taken ∨ x ∈ dropped ∨ x ∈ waiting := by
  obtain ⟨gone, hsplit, -, hgone, -⟩ := d.split
  rw [hsplit] at hx
  cases List.mem_append.mp hx with
  | inl hx => exact (hgone x hx).imp_right .inl
  | inr hx => exact .inr (.inr hx)

end Delivery
end OacTreeServer.Library
