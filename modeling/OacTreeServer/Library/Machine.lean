import Mathlib.Data.List.Basic

/-!
# Executable transition systems

A machine has one partial step for each action, so a schedule of actions is an
interleaving and every run is a value that can be computed. The rules below carry a
property of one step to whole runs: `run_invariant` for properties of states and
`run_relation` for properties that compare the state before and after a run.
-/

namespace OacTreeServer.Library

universe u v

/-- One partial step for each action; `none` means that the action is not enabled. -/
structure Machine (State : Type u) (Action : Type v) where
  step : State → Action → Option State

namespace Machine

variable {State : Type u} {Action : Type v} (m : Machine State Action)

/-- Run a schedule, stopping at the first action that is not enabled. -/
def run (s : State) : List Action → Option State
  | [] => some s
  | a :: as => (m.step s a).bind fun t ↦ run t as

/-- A schedule takes its first step and goes on from there. -/
theorem run_cons_eq_some {s t : State} {a : Action} {as : List Action} :
    m.run s (a :: as) = some t ↔ ∃ r, m.step s a = some r ∧ m.run r as = some t := by
  simp [run, Option.bind_eq_some_iff]

/-- Schedules compose. -/
theorem run_append (s : State) (as bs : List Action) :
    m.run s (as ++ bs) = (m.run s as).bind fun t ↦ m.run t bs := by
  induction as generalizing s with
  | nil => rfl
  | cons a as ih =>
    simp only [List.cons_append, run]
    cases m.step s a with
    | none => rfl
    | some r => simpa using ih r

/-- A run extended by one enabled action. -/
theorem run_concat {s r t : State} {as : List Action} {a : Action}
    (hr : m.run s as = some r) (ht : m.step r a = some t) :
    m.run s (as ++ [a]) = some t := by
  rw [run_append, hr, Option.bind_some, run, ht]
  rfl

/-- A schedule of one enabled action. -/
theorem run_singleton {s t : State} {a : Action} (h : m.step s a = some t) :
    m.run s [a] = some t :=
  run_concat m (show m.run s [] = some s from rfl) h

/-- What is observed at the end of a schedule that was computed. -/
theorem observe_run {Observation : Type*} (f : State → Observation) {s t : State}
    {as : List Action} {o : Observation} (h : m.run s as = some t)
    (ho : (m.run s as).map f = some o) : f t = o := by
  rw [h] at ho
  exact Option.some.inj ho

variable {m}

/-- A reflexive, transitive relation kept by every step relates both ends of a run. -/
theorem run_relation {R : State → State → Prop} (hrefl : ∀ s, R s s)
    (htrans : ∀ {s r t}, R s r → R r t → R s t)
    (hstep : ∀ {s a t}, m.step s a = some t → R s t)
    {s t : State} {as : List Action} (h : m.run s as = some t) : R s t := by
  induction as generalizing s with
  | nil =>
    cases h
    exact hrefl _
  | cons a as ih =>
    obtain ⟨r, hr, ht⟩ := m.run_cons_eq_some.mp h
    exact htrans (hstep hr) (ih ht)

/-- A property kept by every step holds at the end of every run that starts in it. -/
theorem run_invariant {Inv : State → Prop}
    (hstep : ∀ {s a t}, Inv s → m.step s a = some t → Inv t)
    {s t : State} {as : List Action} (hs : Inv s) (h : m.run s as = some t) : Inv t :=
  run_relation (R := fun s t ↦ Inv s → Inv t) (fun _ h ↦ h) (fun f g h ↦ g (f h))
    (fun ht h ↦ hstep h ht) h hs

variable (m) in
/-- Every step of a schedule is taken in a state in which `P` allows it. -/
def EveryStep (P : State → Action → Prop) (s : State) : List Action → Prop
  | [] => True
  | a :: as => P s a ∧ ∀ t, m.step s a = some t → EveryStep P t as

/-- Steps that are allowed in every state. -/
theorem everyStep_of_forall_mem {P : Action → Prop} (s : State) {as : List Action}
    (h : ∀ a ∈ as, P a) : m.EveryStep (fun _ a ↦ P a) s as := by
  induction as generalizing s with
  | nil => trivial
  | cons a as ih =>
    exact ⟨h a List.mem_cons_self, fun t _ ↦ ih t fun b hb ↦ h b (List.mem_cons_of_mem _ hb)⟩

/-- Whether the steps of a schedule are allowed can be computed with the schedule. -/
instance decidableEveryStep (P : State → Action → Prop) [∀ s a, Decidable (P s a)] :
    (s : State) → (as : List Action) → Decidable (m.EveryStep P s as)
  | _, [] => isTrue trivial
  | s, a :: as =>
    have : Decidable (∀ t, m.step s a = some t → m.EveryStep P t as) :=
      match m.step s a with
      | none => isTrue nofun
      | some t => @decidable_of_iff _ _ (by simp) (decidableEveryStep P t as)
    inferInstanceAs (Decidable (_ ∧ _))

/-- A property of the schedule so far and the state that the allowed steps keep holds at the
end of every run of allowed steps. -/
theorem run_history_invariant_of_everyStep {P : State → Action → Prop}
    {Inv : List Action → State → Prop}
    (hstep : ∀ {h s a t}, Inv h s → P s a → m.step s a = some t → Inv (h ++ [a]) t)
    {s t : State} {as : List Action} (hs : Inv [] s) (hP : m.EveryStep P s as)
    (hrun : m.run s as = some t) : Inv as t := by
  have hall : ∀ (as h : List Action) (s : State), Inv h s → m.EveryStep P s as →
      m.run s as = some t → Inv (h ++ as) t := by
    intro as
    induction as with
    | nil =>
      intro h s hs _ hrun
      cases hrun
      simpa using hs
    | cons a as ih =>
      intro h s hs hP hrun
      obtain ⟨r, hr, ht⟩ := m.run_cons_eq_some.mp hrun
      simpa using ih (h ++ [a]) r (hstep hs hP.1 hr) (hP.2 r hr) ht
  simpa using hall as [] s hs hP hrun

/-- A property of the schedule so far and the state that every step keeps holds at the end of
every run. -/
theorem run_history_invariant {Inv : List Action → State → Prop}
    (hstep : ∀ {h s a t}, Inv h s → m.step s a = some t → Inv (h ++ [a]) t)
    {s t : State} {as : List Action} (hs : Inv [] s) (hrun : m.run s as = some t) : Inv as t :=
  run_history_invariant_of_everyStep (P := fun _ _ ↦ True) (fun hs _ ht ↦ hstep hs ht) hs
    (everyStep_of_forall_mem s fun _ _ ↦ trivial) hrun

/-- A property kept by the allowed steps holds at the end of every run of allowed steps. -/
theorem run_invariant_of_everyStep {P : State → Action → Prop} {Inv : State → Prop}
    (hstep : ∀ {s a t}, Inv s → P s a → m.step s a = some t → Inv t)
    {s t : State} {as : List Action} (hs : Inv s) (hP : m.EveryStep P s as)
    (h : m.run s as = some t) : Inv t :=
  @run_history_invariant_of_everyStep _ _ m P (fun _ s ↦ Inv s)
    (fun hs hP ht ↦ hstep hs hP ht) _ _ _ hs hP h

/-- Every run of allowed steps is matched by a run of another machine, when each allowed step
between related states is matched by one. -/
theorem run_simulation {State' : Type*} {Action' : Type*} {n : Machine State' Action'}
    {P : State → Action → Prop} {R : State → State' → Prop}
    (hstep : ∀ {s a t s'}, R s s' → P s a → m.step s a = some t →
      ∃ bs t', n.run s' bs = some t' ∧ R t t')
    {s t : State} {s' : State'} {as : List Action} (hs : R s s') (hP : m.EveryStep P s as)
    (h : m.run s as = some t) : ∃ bs t', n.run s' bs = some t' ∧ R t t' := by
  induction as generalizing s s' with
  | nil =>
    cases h
    exact ⟨[], s', rfl, hs⟩
  | cons a as ih =>
    obtain ⟨r, hr, ht⟩ := m.run_cons_eq_some.mp h
    obtain ⟨bs, r', hr', hrel⟩ := hstep hs hP.1 hr
    obtain ⟨cs, t', ht', hend⟩ := ih hrel (hP.2 r hr) ht
    refine ⟨bs ++ cs, t', ?_, hend⟩
    rw [run_append, hr', Option.bind_some, ht']

/-- Two ways to allow steps agree on a schedule when they agree in all states that satisfy an
invariant of the steps taken. -/
theorem everyStep_congr {P Q R : State → Action → Prop} {Inv : State → Prop}
    (hstep : ∀ {s a t}, Inv s → R s a → m.step s a = some t → Inv t)
    (h : ∀ {s a}, Inv s → R s a → (P s a ↔ Q s a)) {s : State} {as : List Action} (hs : Inv s)
    (hR : m.EveryStep R s as) : m.EveryStep P s as ↔ m.EveryStep Q s as := by
  induction as generalizing s with
  | nil => exact Iff.rfl
  | cons a as ih =>
    have hrest : ∀ t, m.step s a = some t → (m.EveryStep P t as ↔ m.EveryStep Q t as) :=
      fun t ht ↦ ih (hstep hs hR.1 ht) (hR.2 t ht)
    exact and_congr (h hs hR.1) (forall_congr' fun t ↦ forall_congr' fun ht ↦ hrest t ht)

/-- Every step is allowed when each is, in the state that the schedule before it leads to. -/
theorem everyStep_of_forall_prefix {P : State → Action → Prop} {s : State} {as : List Action}
    (h : ∀ bs a cs r, as = bs ++ a :: cs → m.run s bs = some r → P r a) :
    m.EveryStep P s as := by
  induction as generalizing s with
  | nil => trivial
  | cons a as ih =>
    refine ⟨h [] a as s rfl rfl, fun t ht ↦ ih ?_⟩
    intro bs b cs r has hr
    refine h (a :: bs) b cs r (by rw [has, List.cons_append]) ?_
    rw [run, ht, Option.bind_some, hr]

end Machine
end OacTreeServer.Library
