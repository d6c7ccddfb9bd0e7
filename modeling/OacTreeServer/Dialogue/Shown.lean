import OacTreeServer.Dialogue.Integrity

/-!
# The request that is shown

When the thread behind a request variable has nothing left to do, the variable shows the request
of the call that waits for its user, or that there is none.
-/

namespace OacTreeServer.Dialogue
open OacTreeServer.Client OacTreeServer.Epics OacTreeServer.External OacTreeServer.Input
  OacTreeServer.Library OacTreeServer.Protocol

variable {S C V : Type} [PvAccessClientPV C Nat V] [AnyValue V] [Base64VariableCodec V]
  [PvAccessServer S V] {servers : Nat → String} {server : String} {s : DialogueState S C V}
  {i : Nat}

/-- A thread with nothing left to do shows what was pushed last. -/
theorem RequestsInv.shown (h : RequestsInv servers server s)
    (hfind : s.input.manager.findServer (getInputRequestPVName server) = some i)
    (hrunning : isRunning (s.threads i).loop = true)
    (hrest : commandsIn s.input.manager s.threads i = []) :
    ∃ encoded reqAv,
      PvAccessServer.served (s.threads i).pvServer (getInputRequestPVName server) =
        some encoded ∧ base64DecodeAnyValue encoded = (true, reqAv) ∧
      (kInputRequestAnyValue V :: s.input.requestWrites server).getLast? = some reqAv := by
  obtain ⟨queued, history, hvariable⟩ := h.served i hfind
  have hthread := hvariable.thread
  rw [hrest] at hthread
  obtain ⟨value, hvalue, hserved⟩ := hthread.served hrunning
  have hdecoded : (value :: queued).map base64DecodeAnyValue =
      (kInputRequestAnyValue V :: s.input.requestWrites server).map (Prod.mk true) := by
    rw [List.map_cons, List.map_cons, hvalue, hvariable.decoded]
  have hlast := congrArg List.getLast? hdecoded
  rw [List.getLast?_map, List.getLast?_map, ← hserved] at hlast
  cases hencoded : PvAccessServer.served (s.threads i).pvServer (getInputRequestPVName server) with
  | none =>
    rw [hencoded] at hserved
    cases List.getLast?_eq_none_iff.mp hserved.symm
  | some encoded =>
    rw [hencoded] at hlast
    obtain ⟨reqAv, hreqAv, heq⟩ := Option.map_eq_some_iff.mp hlast.symm
    exact ⟨encoded, reqAv, rfl, heq.symm, hreqAv⟩

/-- The last value on its way to a client that is connected is the one that is shown. -/
theorem RequestsInv.inFlight (h : RequestsInv servers server s)
    (hfind : s.input.manager.findServer (getInputRequestPVName server) = some i)
    (hrunning : isRunning (s.threads i).loop = true) {c : Nat} (hc : servers c = server)
    (hsource : (PvAccessClientPV.source (s.clients c).requestPv).isSome) {value : V}
    (hvalue : (PvAccessClientPV.inFlight (s.clients c).requestPv).getLast? = some value) :
    PvAccessServer.served (s.threads i).pvServer (getInputRequestPVName server) = some value := by
  obtain ⟨queued, history, hvariable⟩ := h.served i hfind
  obtain ⟨delivered, hwatches⟩ := hvariable.watched c hc
  obtain ⟨-, -, -, -, hserved⟩ := hvariable.thread.running hrunning
  have hcurrent := hwatches.follows.current hsource
  rw [List.getLast?_append, hvalue, Option.some_or] at hcurrent
  rw [hserved, ← hcurrent]

variable [OacTree V] [LawfulAnyValue V] [LawfulOacTree V] [LawfulBase64VariableCodec V]
  [TotalBase64VariableCodec V] [LawfulPvAccessServer S] [LawfulPvAccessClientPV C] [SupProtocol V]
  [LawfulSupProtocol V]

end OacTreeServer.Dialogue
