import OacTreeServer.Library.LastWrite
import OacTreeServer.Library.Sampling

/-!
# The EPICS clients that monitor the variables

`sup::epics::PvAccessClientPV` calls its callback with the value that a variable has when it
connects to the server of the variable, and then with every later value in turn. A value that
waits to be delivered may be overwritten by a later one, and a connection may be lost. What
matters here is how the values that reach the callback are related to those that the variable
has had.
-/

namespace OacTreeServer.External
open OacTreeServer.Library

/-- `sup::epics::PvAccessClientPV`: its construction, what happens to it, the server that it is
connected to and the values on their way to its callback. -/
class PvAccessClientPV (C : Type) (Source V : outParam Type) where
  new : String → C
  channel : C → String
  source : C → Option Source
  inFlight : C → List V
  /-- A connection to a server whose variable has a value. -/
  connect : C → Source → V → C
  disconnect : C → C
  /-- A server sets one of its variables. -/
  post : C → Source → String → V → C
  /-- The value at a position is overwritten by a later one. -/
  coalesce : C → Nat → Option C
  /-- The callback is called with the next value. -/
  deliver : C → Option (V × C)

/-- What the client of the server relies on about `PvAccessClientPV`. -/
class LawfulPvAccessClientPV (C : Type) {Source V : outParam Type}
    [PvAccessClientPV C Source V] : Prop where
  channel_new : ∀ name, PvAccessClientPV.channel (PvAccessClientPV.new name : C) = name
  source_new : ∀ name, PvAccessClientPV.source (PvAccessClientPV.new name : C) = none
  inFlight_new : ∀ name, PvAccessClientPV.inFlight (PvAccessClientPV.new name : C) = []
  channel_connect : ∀ (pv : C) source value,
    PvAccessClientPV.channel (PvAccessClientPV.connect pv source value) =
      PvAccessClientPV.channel pv
  source_connect : ∀ (pv : C) source value,
    PvAccessClientPV.source (PvAccessClientPV.connect pv source value) = some source
  /-- The value that the variable has is sent to the client. -/
  inFlight_connect : ∀ (pv : C) source value, ∃ kept,
    kept.Sublist (PvAccessClientPV.inFlight pv) ∧
      PvAccessClientPV.inFlight (PvAccessClientPV.connect pv source value) = kept ++ [value]
  channel_disconnect : ∀ pv : C,
    PvAccessClientPV.channel (PvAccessClientPV.disconnect pv) = PvAccessClientPV.channel pv
  source_disconnect : ∀ pv : C, PvAccessClientPV.source (PvAccessClientPV.disconnect pv) = none
  /-- What is on its way may be lost. -/
  inFlight_disconnect : ∀ pv : C, (PvAccessClientPV.inFlight
    (PvAccessClientPV.disconnect pv)).Sublist (PvAccessClientPV.inFlight pv)
  channel_post : ∀ (pv : C) source name value,
    PvAccessClientPV.channel (PvAccessClientPV.post pv source name value) =
      PvAccessClientPV.channel pv
  source_post : ∀ (pv : C) source name value,
    PvAccessClientPV.source (PvAccessClientPV.post pv source name value) =
      PvAccessClientPV.source pv
  /-- A new value is sent to the clients that are connected to its variable. -/
  inFlight_post : ∀ (pv : C) source value, PvAccessClientPV.source pv = some source →
    ∃ kept, kept.Sublist (PvAccessClientPV.inFlight pv) ∧
      PvAccessClientPV.inFlight
        (PvAccessClientPV.post pv source (PvAccessClientPV.channel pv) value) = kept ++ [value]
  /-- The values of other servers and of other variables are not sent to the client. -/
  post_other : ∀ (pv : C) source name value,
    PvAccessClientPV.source pv ≠ some source ∨ PvAccessClientPV.channel pv ≠ name →
      PvAccessClientPV.post pv source name value = pv
  coalesce_same : ∀ (pv pv' : C) position, PvAccessClientPV.coalesce pv position = some pv' →
    PvAccessClientPV.channel pv' = PvAccessClientPV.channel pv ∧
      PvAccessClientPV.source pv' = PvAccessClientPV.source pv
  /-- The last value on its way is never the one that is overwritten. -/
  inFlight_coalesce : ∀ (pv pv' : C) position,
    PvAccessClientPV.coalesce pv position = some pv' →
      (PvAccessClientPV.inFlight pv').Sublist (PvAccessClientPV.inFlight pv) ∧
        (PvAccessClientPV.inFlight pv').getLast? = (PvAccessClientPV.inFlight pv).getLast?
  deliver_same : ∀ (pv pv' : C) value, PvAccessClientPV.deliver pv = some (value, pv') →
    PvAccessClientPV.channel pv' = PvAccessClientPV.channel pv ∧
      PvAccessClientPV.source pv' = PvAccessClientPV.source pv
  /-- The values reach the callback in the order in which they were sent. -/
  inFlight_deliver : ∀ (pv pv' : C) value, PvAccessClientPV.deliver pv = some (value, pv') →
    PvAccessClientPV.inFlight pv = value :: PvAccessClientPV.inFlight pv'
  /-- A value on its way can reach the callback. -/
  deliver_isSome : ∀ pv : C, PvAccessClientPV.inFlight pv ≠ [] →
    (PvAccessClientPV.deliver pv).isSome

namespace PvAccessClientPV

section Definitions

variable {C Source V : Type} [PvAccessClientPV C Source V]

/-- A server sets its variables one after the other. -/
def postAll (source : Source) (values : List (String × V)) (pv : C) : C :=
  values.foldl (fun pv w ↦ post pv source w.1 w.2) pv

/-- What has been delivered and what is on its way are samples of the history of the variable, up
to its present value while there is a connection. -/
structure Follows (pv : C) (history delivered : List V) : Prop where
  sampled : Sampled history (delivered ++ inFlight pv)
  current : (source pv).isSome → (delivered ++ inFlight pv).getLast? = history.getLast?

end Definitions

variable {C Source V : Type} [PvAccessClientPV C Source V] {pv pv' : C}
  {history delivered : List V}

/-- A client that is not connected follows every history. -/
theorem follows_of_unconnected (hsource : source pv = none) (hflight : inFlight pv = [])
    (history : List V) : Follows pv history [] := by
  refine ⟨?_, ?_⟩
  · rw [hflight]
    exact Sampled.nothing history
  · rw [hsource]
    nofun

/-- A client that is not connected misses a new value. -/
theorem Follows.unconnected (h : Follows pv history delivered) (hsource : source pv = none)
    (value : V) : Follows pv (history ++ [value]) delivered := by
  refine ⟨h.sampled.append [value], ?_⟩
  rw [hsource]
  nofun

/-- A client to which the present value is sent follows the variable. -/
private theorem Follows.sent (h : Follows pv history delivered) {value : V}
    (hvalue : history.getLast? = some value)
    (hflight : ∃ kept, kept.Sublist (inFlight pv) ∧ inFlight pv' = kept ++ [value]) :
    Follows pv' history delivered := by
  obtain ⟨kept, hkept, hsent⟩ := hflight
  refine ⟨?_, fun _ ↦ ?_⟩
  · rw [hsent, ← List.append_assoc]
    exact (h.sampled.sublist ((List.Sublist.refl delivered).append hkept)).read_last hvalue
  · rw [hsent, ← List.append_assoc, List.getLast?_concat, hvalue]

variable [LawfulPvAccessClientPV C]

/-- A client that connects follows the variable. -/
theorem Follows.connect (h : Follows pv history delivered) (source : Source) {value : V}
    (hvalue : history.getLast? = some value) :
    Follows (PvAccessClientPV.connect pv source value) history delivered :=
  h.sent hvalue (LawfulPvAccessClientPV.inFlight_connect pv source value)

/-- A client that is disconnected has followed the variable. -/
theorem Follows.disconnect (h : Follows pv history delivered) :
    Follows (PvAccessClientPV.disconnect pv) history delivered where
  sampled := h.sampled.sublist
    ((List.Sublist.refl delivered).append (LawfulPvAccessClientPV.inFlight_disconnect pv))
  current hsource := by
    rw [LawfulPvAccessClientPV.source_disconnect] at hsource
    cases hsource

/-- A client of the variable follows it to a new value. -/
theorem Follows.post (h : Follows pv history delivered) {source : Source}
    (hsource : PvAccessClientPV.source pv = none ∨ PvAccessClientPV.source pv = some source)
    (value : V) :
    Follows (PvAccessClientPV.post pv source (channel pv) value) (history ++ [value])
      delivered := by
  cases hsource with
  | inl hnone =>
    have hother : PvAccessClientPV.source pv ≠ some source := by
      rw [hnone]
      nofun
    rw [LawfulPvAccessClientPV.post_other _ _ _ _ (.inl hother)]
    exact h.unconnected hnone value
  | inr hsome =>
    obtain ⟨kept, hkept, hsent⟩ := LawfulPvAccessClientPV.inFlight_post pv source value hsome
    have hbefore := h.sampled.sublist ((List.Sublist.refl delivered).append hkept)
    refine ⟨?_, fun _ ↦ ?_⟩
    · rw [hsent, ← List.append_assoc]
      exact (hbefore.grow value).read
    · rw [hsent, ← List.append_assoc, List.getLast?_concat, List.getLast?_concat]

/-- Overwritten values are not missed for long. -/
theorem Follows.coalesce (h : Follows pv history delivered) {position : Nat}
    (hcoalesce : PvAccessClientPV.coalesce pv position = some pv') :
    Follows pv' history delivered := by
  obtain ⟨hfewer, hlast⟩ := LawfulPvAccessClientPV.inFlight_coalesce pv pv' position hcoalesce
  refine ⟨h.sampled.sublist ((List.Sublist.refl delivered).append hfewer), fun hsource ↦ ?_⟩
  rw [(LawfulPvAccessClientPV.coalesce_same pv pv' position hcoalesce).2] at hsource
  rw [← h.current hsource, List.getLast?_append, List.getLast?_append, hlast]

/-- A value that is delivered was on its way. -/
theorem Follows.deliver (h : Follows pv history delivered) {value : V}
    (hdeliver : PvAccessClientPV.deliver pv = some (value, pv')) :
    Follows pv' history (delivered ++ [value]) := by
  have happend : delivered ++ [value] ++ inFlight pv' = delivered ++ inFlight pv := by
    rw [LawfulPvAccessClientPV.inFlight_deliver pv pv' value hdeliver, List.append_assoc]
    rfl
  refine ⟨?_, fun hsource ↦ ?_⟩
  · rw [happend]
    exact h.sampled
  · rw [(LawfulPvAccessClientPV.deliver_same pv pv' value hdeliver).2] at hsource
    rw [happend]
    exact h.current hsource

/-- Nothing is delivered when nothing is on its way. -/
theorem deliver_eq_none (hflight : inFlight pv = []) : deliver pv = none := by
  cases hdeliver : deliver pv with
  | none => rfl
  | some r =>
    have hnext := LawfulPvAccessClientPV.inFlight_deliver pv r.2 r.1 hdeliver
    rw [hflight] at hnext
    cases hnext

/-- Values that are sent do not change what a client is for. -/
@[simp] theorem channel_postAll (source : Source) (values : List (String × V)) (pv : C) :
    channel (postAll source values pv) = channel pv := by
  induction values generalizing pv with
  | nil => rfl
  | cons w values ih => exact (ih _).trans (LawfulPvAccessClientPV.channel_post pv source w.1 w.2)

/-- Values that are sent do not change the connection. -/
@[simp] theorem source_postAll (source : Source) (values : List (String × V)) (pv : C) :
    PvAccessClientPV.source (postAll source values pv) = PvAccessClientPV.source pv := by
  induction values generalizing pv with
  | nil => rfl
  | cons w values ih => exact (ih _).trans (LawfulPvAccessClientPV.source_post pv source w.1 w.2)

/-- A client of a variable follows it through all its new values. -/
theorem Follows.postAll (h : Follows pv history delivered) {source : Source}
    (hsource : PvAccessClientPV.source pv = none ∨ PvAccessClientPV.source pv = some source)
    (values : List (String × V)) :
    Follows (PvAccessClientPV.postAll source values pv)
      (history ++ writesTo (channel pv) values) delivered := by
  induction values generalizing pv history with
  | nil =>
    rw [writesTo, List.filterMap_nil, List.append_nil]
    exact h
  | cons w values ih =>
    have hpost : Follows (PvAccessClientPV.post pv source w.1 w.2)
        (history ++ if w.1 = channel pv then [w.2] else []) delivered := by
      by_cases hw : w.1 = channel pv
      · rw [if_pos hw, hw]
        exact h.post hsource w.2
      · rw [if_neg hw, List.append_nil,
          LawfulPvAccessClientPV.post_other _ _ _ _ (.inr (Ne.symm hw))]
        exact h
    have hsame := LawfulPvAccessClientPV.source_post pv source w.1 w.2
    rw [writesTo_cons, ← List.append_assoc,
      ← LawfulPvAccessClientPV.channel_post pv source w.1 w.2]
    rw [← LawfulPvAccessClientPV.channel_post pv source w.1 w.2] at hpost
    exact ih hpost (hsame ▸ hsource)

/-- Values of other variables are not sent to the client. -/
theorem postAll_of_notMem (source : Source) {values : List (String × V)}
    (h : channel pv ∉ values.map Prod.fst) : postAll source values pv = pv := by
  induction values with
  | nil => rfl
  | cons w values ih =>
    rw [List.map_cons, List.mem_cons, not_or] at h
    rw [postAll, List.foldl_cons, LawfulPvAccessClientPV.post_other _ _ _ _ (.inr h.1)]
    exact ih h.2

/-- A server that the client is not connected to sends it nothing. -/
theorem postAll_of_source_ne {source : Source}
    (h : PvAccessClientPV.source pv ≠ some source) (values : List (String × V)) :
    postAll source values pv = pv := by
  induction values with
  | nil => rfl
  | cons w values ih =>
    rw [postAll, List.foldl_cons, LawfulPvAccessClientPV.post_other _ _ _ _ (.inl h)]
    exact ih

end PvAccessClientPV

/-- A reference client: a value waits until it is delivered or overwritten, or the connection is
lost. -/
structure PvMonitor (Source V : Type) where
  channel : String
  source : Option Source
  inFlight : List V
  deriving Repr

instance {Source V : Type} [DecidableEq Source] :
    PvAccessClientPV (PvMonitor Source V) Source V where
  new channel := ⟨channel, none, []⟩
  channel := PvMonitor.channel
  source := PvMonitor.source
  inFlight := PvMonitor.inFlight
  connect pv source value := ⟨pv.channel, some source, [value]⟩
  disconnect pv := ⟨pv.channel, none, []⟩
  post pv source channel value :=
    if pv.source = some source ∧ pv.channel = channel then
      { pv with inFlight := pv.inFlight ++ [value] }
    else
      pv
  coalesce pv position :=
    if position + 1 < pv.inFlight.length then
      some { pv with inFlight := pv.inFlight.eraseIdx position }
    else
      none
  deliver pv :=
    match pv.inFlight with
    | [] => none
    | value :: rest => some (value, { pv with inFlight := rest })

/-- The last value stays when an earlier one is taken out. -/
private theorem getLast?_eraseIdx {A : Type} {l : List A} {position : Nat}
    (h : position + 1 < l.length) : (l.eraseIdx position).getLast? = l.getLast? := by
  rw [List.eraseIdx_eq_take_drop_succ, List.getLast?_append, List.getLast?_drop,
    if_neg (Nat.not_le.mpr h)]
  cases hlast : l.getLast? with
  | none =>
    rw [List.getLast?_eq_none_iff.mp hlast] at h
    cases h
  | some value => rfl

instance {Source V : Type} [DecidableEq Source] :
    LawfulPvAccessClientPV (PvMonitor Source V) where
  channel_new _ := rfl
  source_new _ := rfl
  inFlight_new _ := rfl
  channel_connect _ _ _ := rfl
  source_connect _ _ _ := rfl
  inFlight_connect _ _ _ := ⟨[], List.nil_sublist _, rfl⟩
  channel_disconnect _ := rfl
  source_disconnect _ := rfl
  inFlight_disconnect _ := List.nil_sublist _
  channel_post pv source name value := by
    simp only [PvAccessClientPV.post, PvAccessClientPV.channel]
    split <;> rfl
  source_post pv source name value := by
    simp only [PvAccessClientPV.post, PvAccessClientPV.source]
    split <;> rfl
  inFlight_post pv source value h := by
    refine ⟨pv.inFlight, List.Sublist.refl _, ?_⟩
    simp only [PvAccessClientPV.source] at h
    simp only [PvAccessClientPV.post, PvAccessClientPV.channel, PvAccessClientPV.inFlight]
    rw [if_pos ⟨h, trivial⟩]
  post_other pv source name value h := by
    simp only [PvAccessClientPV.source, PvAccessClientPV.channel] at h
    simp only [PvAccessClientPV.post]
    rw [if_neg fun hsent ↦ h.elim (fun hne ↦ hne hsent.1) fun hne ↦ hne hsent.2]
  coalesce_same pv pv' position h := by
    simp only [PvAccessClientPV.coalesce] at h
    split at h
    · cases h
      exact ⟨rfl, rfl⟩
    · cases h
  inFlight_coalesce pv pv' position h := by
    simp only [PvAccessClientPV.coalesce] at h
    split at h
    · next hlater =>
      cases h
      exact ⟨List.eraseIdx_sublist _ _, getLast?_eraseIdx hlater⟩
    · cases h
  deliver_same pv pv' value h := by
    simp only [PvAccessClientPV.deliver] at h
    split at h
    · cases h
    · cases h
      exact ⟨rfl, rfl⟩
  inFlight_deliver pv pv' value h := by
    simp only [PvAccessClientPV.deliver] at h
    split at h
    · cases h
    · next hflight =>
      cases h
      exact hflight
  deliver_isSome pv h := by
    simp only [PvAccessClientPV.inFlight] at h
    simp only [PvAccessClientPV.deliver]
    split
    · next hflight => exact absurd hflight h
    · rfl

end OacTreeServer.External
