import Mathlib.Data.List.Basic
import Mathlib.Data.List.Induction

/-!
# Samples of a history

An observer of a value that changes sees some of the values that it has had, each one possibly
again and again, but none after a later one. `Sampled` relates the history of a value to what
such an observer has seen.
-/

namespace OacTreeServer.Library

universe u v

variable {A : Type u} {B : Type v}

/-- The samples were taken one after the other, each of them from the end of the history at its
time. -/
inductive Sampled : List A → List A → Prop where
  | nil : Sampled [] []
  | grow {history samples : List A} (a : A) (h : Sampled history samples) :
      Sampled (history ++ [a]) samples
  | read {history samples : List A} {a : A} (h : Sampled (history ++ [a]) samples) :
      Sampled (history ++ [a]) (samples ++ [a])

namespace Sampled

variable {history samples : List A}

/-- Nothing may have been seen of any history. -/
theorem nothing (history : List A) : Sampled history [] := by
  induction history using List.reverseRecOn with
  | nil => exact .nil
  | append_singleton history a ih => exact ih.grow a

/-- The history may go on. -/
theorem append (h : Sampled history samples) (later : List A) :
    Sampled (history ++ later) samples := by
  induction later using List.reverseRecOn with
  | nil => rwa [List.append_nil]
  | append_singleton later a ih =>
    rw [← List.append_assoc]
    exact ih.grow a

/-- The present value may be seen. -/
theorem read_last (h : Sampled history samples) {a : A} (ha : history.getLast? = some a) :
    Sampled history (samples ++ [a]) := by
  obtain ⟨before, rfl⟩ := List.getLast?_eq_some_iff.mp ha
  exact h.read

/-- Some of the samples may be missed. -/
theorem sublist (h : Sampled history samples) {fewer : List A} (hsub : fewer.Sublist samples) :
    Sampled history fewer := by
  induction h generalizing fewer with
  | nil =>
    rw [List.sublist_nil.mp hsub]
    exact .nil
  | grow a h ih => exact (ih hsub).grow a
  | read h ih =>
    obtain ⟨front, last, rfl, hfront, hlast⟩ := List.sublist_append_iff.mp hsub
    rcases List.sublist_singleton.mp hlast with rfl | rfl
    · rw [List.append_nil]
      exact ih hfront
    · exact (ih hfront).read

/-- Nothing can be seen of an empty history. -/
theorem eq_nil (h : Sampled ([] : List A) samples) : samples = [] := by
  generalize hempty : ([] : List A) = history at h
  induction h with
  | nil => rfl
  | grow a h ih => simp at hempty
  | read h ih => simp at hempty

/-- The first value may have been seen before everything else. -/
theorem cons_head {first : A} (h : Sampled (first :: history) samples) :
    Sampled (first :: history) (first :: samples) := by
  generalize hwhole : first :: history = whole at h
  induction h generalizing history with
  | nil => cases hwhole
  | @grow before samples a h ih =>
    cases before with
    | nil =>
      cases hwhole
      rw [h.eq_nil]
      exact (show Sampled ([] ++ [first]) [] from Sampled.nil.grow first).read
    | cons b before =>
      obtain ⟨rfl, rfl⟩ := List.cons.inj hwhole
      exact (ih rfl).grow a
  | read h ih => exact (ih hwhole).read

/-- Every sample is a value of the history. -/
theorem mem (h : Sampled history samples) {a : A} (ha : a ∈ samples) : a ∈ history := by
  induction h with
  | nil => exact ha
  | grow b h ih => exact List.mem_append_left _ (ih ha)
  | read h ih =>
    cases List.mem_append.mp ha with
    | inl hbefore => exact ih hbefore
    | inr hlast => exact List.mem_append_right _ hlast

/-- Samples that are looked at in some way are samples of the history that is looked at in this
way. -/
theorem map (h : Sampled history samples) (f : A → B) :
    Sampled (history.map f) (samples.map f) := by
  induction h with
  | nil => exact .nil
  | grow a h ih =>
    rw [List.map_append]
    exact ih.grow (f a)
  | @read history samples a h ih =>
    rw [List.map_append] at ih ⊢
    rw [List.map_append]
    exact ih.read

end Sampled
end OacTreeServer.Library
