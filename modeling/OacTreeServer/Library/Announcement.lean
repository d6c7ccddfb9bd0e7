import OacTreeServer.Library.History

/-!
# Events that are announced

Some events of a history must be announced by an earlier one. A history that grows at its end
stays announced exactly when the announcements of what is new stand in it already.
-/

namespace OacTreeServer.Library

universe u

variable {Event : Type u} {announces : Event → Event → Prop} {needs : Event → Prop}

variable (announces needs) in
/-- In the history `h` every event that needs it stands behind an announcement. -/
def Announced (h : List Event) : Prop :=
  ∀ before e after, h = before ++ e :: after → needs e → ∃ a ∈ before, announces a e

/-- Nothing has happened. -/
theorem announced_nil : Announced announces needs [] := by
  intro before e after heq
  simp at heq

/-- One more event must be announced by those before it. -/
theorem announced_concat {h : List Event} {e : Event} :
    Announced announces needs (h ++ [e]) ↔
      Announced announces needs h ∧ (needs e → ∃ a ∈ h, announces a e) := by
  constructor
  · intro hall
    refine ⟨fun before b after heq hb ↦ ?_, hall h e [] rfl⟩
    exact hall before b (after ++ [e]) (by rw [heq, List.append_assoc, List.cons_append]) hb
  · rintro ⟨hold, hnew⟩ before b after heq hb
    rcases concat_eq_split heq with ⟨rest, -, hh⟩ | ⟨rfl, rfl⟩
    · exact hold before b rest hh hb
    · have hbefore : h = before := (List.append_inj' heq rfl).1
      rw [← hbefore]
      exact hnew hb

/-- Events that do not announce each other must be announced by those before them. -/
theorem announced_append {h l : List Event}
    (hnone : ∀ a ∈ l, ∀ e ∈ l, needs e → ¬ announces a e) :
    Announced announces needs (h ++ l) ↔
      Announced announces needs h ∧ ∀ e ∈ l, needs e → ∃ a ∈ h, announces a e := by
  induction l using List.reverseRecOn with
  | nil => simp
  | append_singleton l e ih =>
    have hl : ∀ a ∈ l, ∀ b ∈ l, needs b → ¬ announces a b := fun a ha b hb ↦
      hnone a (List.mem_append_left _ ha) b (List.mem_append_left _ hb)
    rw [← List.append_assoc, announced_concat, ih hl]
    have he : needs e → ((∃ a ∈ h ++ l, announces a e) ↔ ∃ a ∈ h, announces a e) := by
      intro hneeds
      constructor
      · rintro ⟨a, ha, hann⟩
        cases List.mem_append.mp ha with
        | inl hold => exact ⟨a, hold, hann⟩
        | inr hnew =>
          exact absurd hann (hnone a (List.mem_append_left _ hnew) e (by simp) hneeds)
      · rintro ⟨a, ha, hann⟩
        exact ⟨a, List.mem_append_left _ ha, hann⟩
    constructor
    · rintro ⟨⟨hh, hold⟩, hnew⟩
      refine ⟨hh, fun b hb hneeds ↦ ?_⟩
      rw [List.mem_append, List.mem_singleton] at hb
      rcases hb with hb | rfl
      · exact hold b hb hneeds
      · exact (he hneeds).mp (hnew hneeds)
    · rintro ⟨hh, hall⟩
      refine ⟨⟨hh, fun b hb ↦ hall b (List.mem_append_left _ hb)⟩, fun hneeds ↦ ?_⟩
      exact (he hneeds).mpr (hall e (by simp) hneeds)

end OacTreeServer.Library
