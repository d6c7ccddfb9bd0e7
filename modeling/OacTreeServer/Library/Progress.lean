import OacTreeServer.Library.Machine

/-!
# Goals that a schedule reaches

`CanReach` restricts the actions of a schedule. A goal is reached when every state that misses it
has an allowed step to a state of lower rank, and a finite number of goals when each of them can
be reached without giving up another one.
-/

namespace OacTreeServer.Library.Machine

universe u v w

variable {State : Type u} {Action : Type v} {m : Machine State Action} {allowed : Action → Prop}
  {s t r : State}

/-- Some schedule of allowed actions leads from one state to the other. -/
def CanReach (m : Machine State Action) (allowed : Action → Prop) (s t : State) : Prop :=
  ∃ acts, (∀ a ∈ acts, allowed a) ∧ m.run s acts = some t

namespace CanReach

/-- Every state is reached from itself. -/
theorem refl (m : Machine State Action) (allowed : Action → Prop) (s : State) :
    m.CanReach allowed s s :=
  ⟨[], nofun, rfl⟩

/-- Schedules are joined. -/
theorem trans (h : m.CanReach allowed s t) (h' : m.CanReach allowed t r) :
    m.CanReach allowed s r := by
  obtain ⟨acts, hallowed, hrun⟩ := h
  obtain ⟨more, hallowed', hrun'⟩ := h'
  refine ⟨acts ++ more, fun a ha ↦ ?_, ?_⟩
  · exact (List.mem_append.mp ha).elim (hallowed a) (hallowed' a)
  · rw [run_append, hrun, Option.bind_some, hrun']

/-- One allowed action is a schedule. -/
theorem single {a : Action} (hallowed : allowed a) (hstep : m.step s a = some t) :
    m.CanReach allowed s t :=
  ⟨[a], fun _ ha ↦ List.mem_singleton.mp ha ▸ hallowed, run_singleton m hstep⟩

/-- A goal is reached by steps of falling rank. -/
theorem of_rank (Inv Goal : State → Prop) (rank : State → Nat)
    (hstep : ∀ s, Inv s → ¬ Goal s → ∃ t, m.CanReach allowed s t ∧ Inv t ∧ rank t < rank s)
    (hs : Inv s) : ∃ t, m.CanReach allowed s t ∧ Inv t ∧ Goal t := by
  induction hrank : rank s using Nat.strongRecOn generalizing s with
  | ind k ih =>
    by_cases hgoal : Goal s
    · exact ⟨s, .refl m allowed s, hs, hgoal⟩
    · obtain ⟨t, hreach, ht, hlt⟩ := hstep s hs hgoal
      obtain ⟨r, hreach', hr⟩ := ih (rank t) (hrank ▸ hlt) ht rfl
      exact ⟨r, hreach.trans hreach', hr⟩

/-- Goals that can be reached one by one, each without giving up another one, are reached
together. -/
theorem of_each {Index : Type w} (Inv : State → Prop) (Done : Index → State → Prop)
    (hone : ∀ x s, Inv s → ∃ t, m.CanReach allowed s t ∧ Inv t ∧ Done x t ∧
      ∀ y, Done y s → Done y t)
    (goals : List Index) (hs : Inv s) :
    ∃ t, m.CanReach allowed s t ∧ Inv t ∧ ∀ x ∈ goals, Done x t := by
  induction goals generalizing s with
  | nil => exact ⟨s, .refl m allowed s, hs, nofun⟩
  | cons x goals ih =>
    obtain ⟨t, hreach, ht, hdone⟩ := ih hs
    obtain ⟨r, hreach', hr, hx, hkeep⟩ := hone x t ht
    refine ⟨r, hreach.trans hreach', hr, List.forall_mem_cons.mpr ⟨hx, fun y hy ↦ ?_⟩⟩
    exact hkeep y (hdone y hy)

end CanReach
end OacTreeServer.Library.Machine
