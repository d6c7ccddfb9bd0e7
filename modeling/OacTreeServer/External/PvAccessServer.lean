import OacTreeServer.External.Reference

/-!
# The EPICS server that serves the variables

`sup::epics::PvAccessServer` serves variables over the network. Of its behaviour only
the value that it serves for each of them matters here.
-/

namespace OacTreeServer.External

/-- The operations of `sup::epics::PvAccessServer` that the update loop uses, and the
value that it serves for a channel. -/
class PvAccessServer (S : Type) (V : outParam Type) where
  new : S
  addVariable : S → String → V → S
  setValue : S → String → V → S
  served : S → String → Option V

/-- What the update loop relies on about `PvAccessServer`. -/
class LawfulPvAccessServer (S : Type) {V : outParam Type} [PvAccessServer S V] : Prop where
  served_new : ∀ c, PvAccessServer.served (PvAccessServer.new : S) c = none
  /-- A new variable is served with its initial value. -/
  served_addVariable : ∀ (s : S) c v d, PvAccessServer.served s c = none →
    PvAccessServer.served (PvAccessServer.addVariable s c v) d =
      if c = d then some v else PvAccessServer.served s d
  /-- Setting a variable that is served replaces its value and no other. -/
  served_setValue : ∀ (s : S) c v d, (PvAccessServer.served s d).isSome →
    PvAccessServer.served (PvAccessServer.setValue s c v) d =
      if c = d then some v else PvAccessServer.served s d

/-- A reference server: the table of the served values. -/
structure PvTable where
  value : String → Option DtoValue

instance : PvAccessServer PvTable DtoValue where
  new := ⟨fun _ ↦ none⟩
  addVariable s c v := ⟨fun d ↦ if c = d then some v else s.value d⟩
  setValue s c v := ⟨fun d ↦ if c = d then (s.value d).map fun _ ↦ v else s.value d⟩
  served s c := s.value c

instance : LawfulPvAccessServer PvTable where
  served_new _ := rfl
  served_addVariable _ _ _ _ _ := rfl
  served_setValue s c v d h := by
    obtain ⟨w, hw⟩ := Option.isSome_iff_exists.mp h
    simp only [PvAccessServer.served] at hw
    simp [PvAccessServer.served, PvAccessServer.setValue, hw]

end OacTreeServer.External
