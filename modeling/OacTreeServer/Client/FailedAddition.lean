import OacTreeServer.Client.AnyValueManager
import OacTreeServer.External.Reference

/-!
# An addition of values that fails

`ClientAnyValueManager::AddAnyValues` (`base/client_anyvalue_manager.cpp:61`) registers one
entry after the other and stops at the first name that is registered. The entries in front
of it stay registered, and their initial values have been passed to the consumer.
-/

namespace OacTreeServer.Client
open OacTreeServer.Cpp OacTreeServer.External OacTreeServer.Job OacTreeServer.Protocol

namespace ClientAnyValueManager

variable {V IS : Type}

/-- The names of a set are pairwise distinct and not registered. -/
def Addable (manager : ClientAnyValueManager V IS) (nameValueSet : NameAnyValueSet V) : Prop :=
  (nameValueSet.map Prod.fst).Nodup ∧
    ∀ name ∈ nameValueSet.map Prod.fst, manager.cbMap[name]? = none

/-- The first name of a set is registered. -/
def FirstNameKnown (manager : ClientAnyValueManager V IS) (nameValueSet : NameAnyValueSet V) :
    Prop :=
  ∃ name ∈ (nameValueSet.map Prod.fst).head?, manager.cbMap[name]? ≠ none

/-- A set that cannot be added begins with one that can, up to a name that is registered by
then. -/
theorem exists_first_clash {manager : ClientAnyValueManager V IS}
    {nameValueSet : NameAnyValueSet V} (h : ¬ manager.Addable nameValueSet) :
    ∃ front name value rest, nameValueSet = front ++ (name, value) :: rest ∧
      manager.Addable front ∧ (manager.cbMap[name]? = none → name ∈ front.map Prod.fst) := by
  induction nameValueSet using List.reverseRecOn with
  | nil => exact absurd ⟨List.nodup_nil, nofun⟩ h
  | append_singleton front entry ih =>
    rcases entry with ⟨name, value⟩
    by_cases hfront : manager.Addable front
    · refine ⟨front, name, value, [], rfl, hfront, fun hnew ↦ ?_⟩
      by_contra hname
      apply h
      constructor
      · rw [List.map_append, List.nodup_append]
        refine ⟨hfront.1, List.nodup_singleton name, ?_⟩
        intro a ha b hb heq
        rw [List.map_singleton, List.mem_singleton] at hb
        subst heq hb
        exact hname ha
      · intro other hother
        rw [List.map_append, List.mem_append, List.map_singleton, List.mem_singleton] at hother
        cases hother with
        | inl hold => exact hfront.2 other hold
        | inr heq => rw [heq, hnew]
    · rcases ih hfront with ⟨before, clash, old, rest, hsplit, hbefore, hclash⟩
      exact ⟨before, clash, old, rest ++ [(name, value)], by simp [hsplit], hbefore, hclash⟩

variable [AnyValue V] [OacTree V] [InstructionStateCodec V IS]

/-- The loop over a concatenation goes on with the rest when no name clashed before. -/
theorem addEach_append (manager : ClientAnyValueManager V IS) (nInstr : UInt32)
    (front rest : NameAnyValueSet V) :
    manager.addEach nInstr (front ++ rest) =
      match manager.addEach nInstr front with
      | .error e => .error e
      | .ok (none, stopped) => .ok (none, stopped)
      | .ok (some n, added) => added.addEach n rest := by
  induction front generalizing manager nInstr with
  | nil => rfl
  | cons entry front ih =>
    rcases entry with ⟨name, value⟩
    rw [List.cons_append, addEach, addEach]
    cases manager.cbMap[name]? with
    | some cb => rfl
    | none =>
      dsimp only
      cases createCallback (parseValueName name) value with
      | error e => rfl
      | ok calls => exact ih _ _

/-- A set whose name clashes is not added, but what stands in front of that name is. -/
theorem addAnyValues_clash [LawfulAnyValue V] {manager : ClientAnyValueManager V IS}
    {front : NameAnyValueSet V} {name : String} (hfront : manager.Addable front)
    (hclash : manager.cbMap[name]? = none → name ∈ front.map Prod.fst) (value : V)
    (rest : NameAnyValueSet V) :
    ∃ manager' : ClientAnyValueManager V IS,
      manager.addAnyValues (front ++ (name, value) :: rest) = .ok (false, manager') ∧
      (∀ other, manager'.cbMap[other]? = if other ∈ front.map Prod.fst then
        some (createCallback (parseValueName other)) else manager.cbMap[other]?) ∧
      manager'.received = manager.received ++ (initialUpdates front).map .update := by
  obtain ⟨n, added, hrun, hmap, hreceived⟩ := addEach_fresh 0 hfront.1 hfront.2
  refine ⟨added, ?_, hmap, hreceived⟩
  have hname : ∃ cb, added.cbMap[name]? = some cb := by
    rw [hmap]
    split
    · exact ⟨_, rfl⟩
    · next hnot =>
      cases hcb : manager.cbMap[name]? with
      | none => exact absurd (hclash hcb) hnot
      | some cb => exact ⟨cb, rfl⟩
  rcases hname with ⟨cb, hcb⟩
  unfold addAnyValues
  rw [addEach_append, hrun]
  dsimp only
  rw [addEach, hcb]
  rfl

/-- When the addition of a set returns false, the callbacks are unchanged and the consumer has
received no call. -/
def FailureAddsNothing (manager : ClientAnyValueManager V IS)
    (nameValueSet : NameAnyValueSet V) : Prop :=
  ∀ manager', manager.addAnyValues nameValueSet = .ok (false, manager') → manager' = manager

/-- An addition that returns false adds nothing exactly when it does so at once: the first
name is registered, or else the names are distinct and unknown, and it returns true. -/
theorem failed_addAnyValues_adds_nothing_iff [LawfulAnyValue V]
    (manager : ClientAnyValueManager V IS) (nameValueSet : NameAnyValueSet V) :
    manager.FailureAddsNothing nameValueSet ↔
      manager.Addable nameValueSet ∨ manager.FirstNameKnown nameValueSet := by
  by_cases hadd : manager.Addable nameValueSet
  · obtain ⟨added, hadded, _⟩ := addAnyValues_fresh hadd.1 hadd.2
    refine ⟨fun _ ↦ Or.inl hadd, fun _ manager' hfail ↦ ?_⟩
    rw [hadded] at hfail
    cases hfail
  · rcases exists_first_clash hadd with ⟨front, name, value, rest, rfl, hfront, hclash⟩
    obtain ⟨stopped, hrun, hmap, _⟩ := addAnyValues_clash hfront hclash value rest
    cases front with
    | nil =>
      -- the clash is at the first name
      have hknown : manager.cbMap[name]? ≠ none := fun hnone ↦ absurd (hclash hnone) (by simp)
      refine ⟨fun _ ↦ Or.inr ⟨name, rfl, hknown⟩, fun _ manager' hfail ↦ ?_⟩
      cases hcb : manager.cbMap[name]? with
      | none => exact absurd hcb hknown
      | some cb =>
        simp only [List.nil_append, addAnyValues, addEach, hcb] at hfail
        cases hfail
        rfl
    | cons entry front =>
      have hfirst : manager.cbMap[entry.1]? = none := hfront.2 entry.1 List.mem_cons_self
      constructor
      · intro h
        -- the first entry has been registered
        have hstopped := hmap entry.1
        rw [h stopped hrun, hfirst, List.map_cons, if_pos List.mem_cons_self] at hstopped
        cases hstopped
      · intro h
        rcases h with h | ⟨other, hother, hknown⟩
        · exact absurd h hadd
        · cases hother
          exact absurd hfirst hknown

/-- The job state is registered already: a set that starts with it is refused, and its second
entry is not added. -/
theorem failed_addAnyValues_adds_nothing_single :
    ∃ manager : ClientAnyValueManager DtoValue (Bool × UInt32),
      new.addAnyValues [("J:STATE", getJobStateValue ⟨0⟩)] = .ok (true, manager) ∧
      manager.FailureAddsNothing
        [("J:STATE", getJobStateValue ⟨1⟩), ("J:VAR-0", kVariableAnyValue DtoValue)] ∧
      manager.addAnyValues
        [("J:STATE", getJobStateValue ⟨1⟩), ("J:VAR-0", kVariableAnyValue DtoValue)] =
          .ok (false, manager) := by
  obtain ⟨manager, hmanager⟩ : ∃ manager : ClientAnyValueManager DtoValue (Bool × UInt32),
      new.addAnyValues [("J:STATE", getJobStateValue ⟨0⟩)] = .ok (true, manager) := ⟨_, rfl⟩
  have hknown : manager.cbMap["J:STATE"]? ≠ none := by
    cases hmanager
    decide
  have hnothing : manager.FailureAddsNothing
      [("J:STATE", getJobStateValue ⟨1⟩), ("J:VAR-0", kVariableAnyValue DtoValue)] :=
    (failed_addAnyValues_adds_nothing_iff _ _).mpr (.inr ⟨"J:STATE", rfl, hknown⟩)
  obtain ⟨manager', hfails⟩ : ∃ manager', manager.addAnyValues
      [("J:STATE", getJobStateValue ⟨1⟩), ("J:VAR-0", kVariableAnyValue DtoValue)] =
        .ok (false, manager') := by
    cases hmanager
    exact ⟨_, rfl⟩
  have hsame : manager' = manager := hnothing manager' hfails
  exact ⟨manager, hmanager, hnothing, hsame ▸ hfails⟩

/-- A set with the same name twice: the addition returns false, and the first entry has been
registered and passed to the consumer. -/
theorem failed_addAnyValues_adds_first_entry :
    ∃ manager' : ClientAnyValueManager DtoValue (Bool × UInt32),
      new.addAnyValues [("J:STATE", getJobStateValue ⟨0⟩), ("J:STATE", getJobStateValue ⟨0⟩)] =
        .ok (false, manager') ∧
      manager'.received = [.update (.jobStateUpdated ⟨0⟩)] ∧
      (manager'.cbMap["J:STATE"]?).isSome = true ∧
      ¬ (new : ClientAnyValueManager DtoValue (Bool × UInt32)).FailureAddsNothing
        [("J:STATE", getJobStateValue ⟨0⟩), ("J:STATE", getJobStateValue ⟨0⟩)] := by
  refine ⟨_, rfl, rfl, rfl, fun h ↦ ?_⟩
  have hreceived := congrArg ClientAnyValueManager.received (h _ rfl)
  cases hreceived

end ClientAnyValueManager
end OacTreeServer.Client
