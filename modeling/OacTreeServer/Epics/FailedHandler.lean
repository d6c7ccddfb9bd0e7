import OacTreeServer.Epics.ManagerSections

/-!
# A call of `AddInputHandler` that fails

`AddInputHandler` (`epics/epics_anyvalue_manager.cpp:54`) adds the input server in its first
section and the PV of the requests in its second one. It fails without a trace when an input
server of that name is there already. When the name of the request PV is taken by then, it
fails in the second section and its input server stays behind.
-/

namespace OacTreeServer.Epics
open OacTreeServer.External OacTreeServer.Input OacTreeServer.Library OacTreeServer.Protocol

variable {V : Type}

/-- The call that takes a step, if it is one of a call. -/
def ManagerAction.caller? : ManagerAction V → Option Nat
  | .enter caller _ => some caller
  | .advance caller => some caller
  | .popCommands _ => none

/-- The steps of a schedule that are left when one call is not made. -/
def without (caller : Nat) (as : List (ManagerAction V)) : List (ManagerAction V) :=
  as.filter fun a ↦ a.caller? ≠ some caller

/-- The same state without one of the calls. -/
def ManagerState.forget (s : ManagerState V) (caller : Nat) : ManagerState V :=
  { s with calls := Function.update s.calls caller none }

variable [AnyValue V] [OacTree V] [Base64VariableCodec V]

/-- A call of `AddInputHandler` that has returned false leaves the maps, the servers and their
queues as they are when that call is not made. -/
def LeavesNoTrace (caller : Nat) (as : List (ManagerAction V)) (s : ManagerState V) : Prop :=
  ∀ inputServerName, s.calls caller = some (.addInputHandler inputServerName, .done (.ok false)) →
    ∃ t, managerMachine.run .start (without caller as) = some t ∧ t.manager = s.manager ∧
      t.inputServers = s.inputServers

/-- A call of `AddInputHandler` that has returned false has created no input server. -/
def CreatesNoServer (caller : Nat) (s : ManagerState V) : Prop :=
  ∀ inputServerName, s.calls caller = some (.addInputHandler inputServerName, .done (.ok false)) →
    (caller, inputServerName) ∉ s.inputServers

/-- When a call of `AddInputHandler` is about to run its second section, the name of the
request PV is not registered. -/
def RequestNameFree (caller : Nat) (s : ManagerState V) (a : ManagerAction V) : Prop :=
  ∀ inputServerName, a.caller? = some caller →
    s.calls caller = some (.addInputHandler inputServerName, .addInputRequest) →
    s.manager.findServer (getInputRequestPVName inputServerName) = none

/-- The input servers and the calls that have created them. -/
structure HandlerInv (s : ManagerState V) : Prop where
  /-- What `GetUserInput` finds is what has been created. -/
  found : ∀ name, s.manager.findInputServer name ≠ none ↔ ∃ caller, (caller, name) ∈ s.inputServers
  creating : ∀ caller name, s.calls caller = some (.addInputHandler name, .addInputRequest) →
    (caller, name) ∈ s.inputServers
  creator : ∀ caller name, (caller, name) ∈ s.inputServers → s.calls caller ≠ none

/-- Which input servers are found after a section. -/
private theorem Section.findInputServer_iff {s t : ManagerState V} {caller : Nat}
    {call : ManagerCall V} {stage next : CallStage} (h : Section s caller call stage t next)
    (hfound : ∀ name, s.manager.findInputServer name ≠ none ↔
      ∃ creator, (creator, name) ∈ s.inputServers) (name : String) :
    t.manager.findInputServer name ≠ none ↔ ∃ creator, (creator, name) ∈ t.inputServers := by
  cases h with
  | added _ _ =>
    rw [EPICSAnyValueManager.addAnyValues, EPICSAnyValueManager.findInputServer_addAnyValuesImpl]
    exact hfound name
  | requestAdded _ =>
    rw [EPICSAnyValueManager.findInputServer_addAnyValuesImpl]
    exact hfound name
  | @inputServer other _ =>
    rw [EPICSAnyValueManager.findInputServer_setInputServer, Function.update_apply]
    by_cases hname : name = other
    · simp [hname]
    · rw [if_neg hname, hfound name]
      simp [hname]
  | _ => exact hfound name

/-- A section adds at most an input server of its own call. -/
private theorem Section.inputServers {s t : ManagerState V} {caller : Nat} {call : ManagerCall V}
    {stage next : CallStage} (h : Section s caller call stage t next) {creator : Nat}
    {name : String} (hmem : (creator, name) ∈ t.inputServers) :
    (creator, name) ∈ s.inputServers ∨ creator = caller := by
  cases h with
  | inputServer _ =>
    rw [List.mem_append, List.mem_singleton] at hmem
    cases hmem with
    | inl hold => exact Or.inl hold
    | inr hnew => exact Or.inr (congrArg Prod.fst hnew)
  | _ => exact Or.inl hmem

/-- Input servers are never removed. -/
private theorem Section.inputServers_mono {s t : ManagerState V} {caller : Nat}
    {call : ManagerCall V} {stage next : CallStage} (h : Section s caller call stage t next)
    {entry : Nat × String} (hmem : entry ∈ s.inputServers) : entry ∈ t.inputServers := by
  cases h with
  | inputServer _ => exact List.mem_append_left _ hmem
  | _ => exact hmem

/-- Every step keeps the invariant. -/
private theorem HandlerInv.step {s t : ManagerState V} {a : ManagerAction V} (hinv : HandlerInv s)
    (h : ManagerStep s a t) : HandlerInv t := by
  cases h with
  | @enter caller call hnone =>
    refine ⟨hinv.found, fun other name hcall ↦ ?_, fun other name hmem ↦ ?_⟩
    · rw [ManagerState.calls_setCall] at hcall
      split at hcall
      · cases hcall
      · exact hinv.creating other name hcall
    · rw [ManagerState.calls_setCall]
      split
      · simp
      · exact hinv.creator other name hmem
  | @advance caller call stage r next hcall hsection =>
    refine ⟨hsection.findInputServer_iff hinv.found, fun other name hother ↦ ?_,
      fun other name hmem ↦ ?_⟩
    · rw [ManagerState.calls_setCall, hsection.calls_eq] at hother
      split at hother
      · next heq =>
        subst heq
        cases hother
        cases hsection with
        | inputServer _ => exact List.mem_append_right _ (List.mem_singleton_self _)
      · exact hsection.inputServers_mono (hinv.creating other name hother)
    · rw [ManagerState.calls_setCall, hsection.calls_eq]
      split
      · simp
      · next hne =>
        cases hsection.inputServers hmem with
        | inl hold => exact hinv.creator other name hold
        | inr heq => exact absurd heq hne
  | popCommands => exact ⟨hinv.found, hinv.creating, hinv.creator⟩

/-- The invariant holds in every state that is reached. -/
private theorem handlerInv_run {s : ManagerState V} {as : List (ManagerAction V)}
    (h : managerMachine.run .start as = some s) : HandlerInv s := by
  apply managerMachine.run_invariant (fun hinv hstep ↦ hinv.step (managerStep_iff.mp hstep)) _ h
  refine ⟨fun name ↦ ?_, nofun, nofun⟩
  simp [ManagerState.start, EPICSAnyValueManager.new, EPICSAnyValueManager.findInputServer]

/-- What a section does, it does without any other call. -/
private theorem Section.forget {s t : ManagerState V} {caller : Nat} {call : ManagerCall V}
    {stage next : CallStage} (h : Section s caller call stage t next) (other : Nat) :
    Section (s.forget other) caller call stage (t.forget other) next := by
  cases h with
  | added hnodup hnew => exact .added hnodup hnew
  | notAdded hfresh => exact .notAdded hfresh
  | handlerPresent hserver => exact .handlerPresent hserver
  | inputServer hserver => exact .inputServer hserver
  | requestAdded hnew => exact .requestAdded hnew
  | requestRefused hknown => exact .requestRefused hknown
  | unknown hfind => exact .unknown hfind
  | found hfind => exact .found hfind
  | pushed hencode => exact .pushed hencode
  | notEncoded hencode => exact .notEncoded hencode

/-- Steps of other calls are the same without a call. -/
private theorem ManagerStep.forget {s t : ManagerState V} {a : ManagerAction V} {other : Nat}
    (h : ManagerStep s a t) (hne : a.caller? ≠ some other) :
    ManagerStep (s.forget other) a (t.forget other) := by
  have hsame : ∀ {caller : Nat}, some caller ≠ some other →
      (s.forget other).calls caller = s.calls caller := by
    intro caller hcaller
    exact Function.update_of_ne (fun heq ↦ hcaller (congrArg some heq)) _ _
  have hset : ∀ {r : ManagerState V} {caller : Nat} {call stage}, some caller ≠ some other →
      (r.setCall caller call stage).forget other = (r.forget other).setCall caller call stage := by
    intro r caller call stage hcaller
    have hcomm := Function.update_comm (fun heq ↦ hcaller (congrArg some heq))
      (some (call, stage)) none r.calls
    simp only [ManagerState.setCall, ManagerState.forget, hcomm]
  cases h with
  | enter hnone =>
    rw [hset hne]
    exact .enter ((hsame hne).trans hnone)
  | advance hcall hsection =>
    rw [hset hne]
    exact .advance ((hsame hne).trans hcall) (hsection.forget other)
  | popCommands => exact .popCommands

/-- Steps of other calls do not change the stage of a call. -/
private theorem ManagerStep.calls_of_ne {s t : ManagerState V} {a : ManagerAction V} {other : Nat}
    (h : ManagerStep s a t) (hne : a.caller? ≠ some other) : t.calls other = s.calls other := by
  cases h with
  | enter hnone => exact Function.update_of_ne (fun heq ↦ hne (congrArg some heq.symm)) _ _
  | advance hcall hsection =>
    rw [← hsection.calls_eq]
    exact Function.update_of_ne (fun heq ↦ hne (congrArg some heq.symm)) _ _
  | popCommands => rfl

/-- Stages of a call at which it has not changed the maps, and never will. -/
private def Traceless : Option (ManagerCall V × CallStage) → Prop
  | none => True
  | some (_, .entered) => True
  | some (.addInputHandler _, .done (.ok false)) => True
  | _ => False

/-- The steps of a call that fails at its first check can be left out. -/
private theorem run_without {caller : Nat} {s : ManagerState V} {as : List (ManagerAction V)}
    (hfree : managerMachine.EveryStep (RequestNameFree caller) .start as)
    (hrun : managerMachine.run .start as = some s) :
    Traceless (s.calls caller) →
      managerMachine.run .start (without caller as) = some (s.forget caller) := by
  refine @Machine.run_history_invariant_of_everyStep _ _ managerMachine (RequestNameFree caller)
    (fun bs r ↦ Traceless (r.calls caller) →
      managerMachine.run .start (without caller bs) = some (r.forget caller))
    ?_ .start s as ?_ hfree hrun
  · intro bs r a t ih hstepFree hstep htraceless
    have hstep := managerStep_iff.mp hstep
    by_cases hcaller : a.caller? = some caller
    · -- the call is still where it has changed nothing
      have hdrop : without caller (bs ++ [a]) = without caller bs := by
        simp [without, List.filter_append, hcaller]
      have hback : Traceless (r.calls caller) ∧ t.forget caller = r.forget caller := by
        cases hstep with
        | enter hnone =>
          cases hcaller
          rw [hnone]
          exact ⟨trivial, by simp [ManagerState.forget, ManagerState.setCall]⟩
        | @advance _ call stage u next hcall hsection =>
          cases hcaller
          rw [ManagerState.calls_setCall_self] at htraceless
          rw [hcall]
          cases hsection with
          | handlerPresent _ =>
            exact ⟨trivial, by simp [ManagerState.forget, ManagerState.setCall]⟩
          | requestRefused hknown => exact absurd (hstepFree _ rfl hcall) hknown
          | _ => exact absurd htraceless id
        | popCommands => cases hcaller
      rw [hdrop, hback.2]
      exact ih hback.1
    · have hkeep : without caller (bs ++ [a]) = without caller bs ++ [a] := by
        simp [without, List.filter_append, hcaller]
      rw [hstep.calls_of_ne hcaller] at htraceless
      rw [hkeep]
      exact managerMachine.run_concat (ih htraceless)
        (managerStep_iff.mpr (hstep.forget hcaller))
  · intro _
    have hstart : ManagerState.forget (.start : ManagerState V) caller = .start := by
      simp [ManagerState.forget, ManagerState.start]
    rw [hstart]
    rfl

/-- A call that is not made has created no input server. -/
private theorem notMem_of_without {caller : Nat} {s : ManagerState V}
    {as : List (ManagerAction V)}
    (hrun : managerMachine.run .start (without caller as) = some s) (name : String) :
    (caller, name) ∉ s.inputServers := by
  have hothers : ∀ a ∈ without caller as, a.caller? ≠ some caller := by
    intro a ha
    simpa using (List.mem_filter.mp ha).2
  have hcalls : s.calls caller = none := by
    have hstep : ∀ {r : ManagerState V} {a t}, r.calls caller = none →
        a.caller? ≠ some caller → managerMachine.step r a = some t → t.calls caller = none := by
      intro r a t hnone hne hstep
      exact ((managerStep_iff.mp hstep).calls_of_ne hne).trans hnone
    exact Machine.run_invariant_of_everyStep hstep rfl
      (Machine.everyStep_of_forall_mem _ hothers) hrun
  intro hmem
  exact (handlerInv_run hrun).creator caller name hmem hcalls

/-- What a finished call was and what was created stays. -/
private theorem ManagerStep.persists {s t : ManagerState V} {a : ManagerAction V}
    (h : ManagerStep s a t) :
    (∀ caller call outcome, s.calls caller = some (call, .done outcome) →
      t.calls caller = some (call, .done outcome)) ∧
    ∀ entry ∈ s.inputServers, entry ∈ t.inputServers := by
  cases h with
  | @enter other otherCall hnone =>
    refine ⟨fun caller call outcome hcall ↦ ?_, fun _ hmem ↦ hmem⟩
    have hne : caller ≠ other := by
      intro heq
      rw [heq, hnone] at hcall
      cases hcall
    exact (Function.update_of_ne hne _ _).trans hcall
  | @advance other otherCall stage r next hother hsection =>
    refine ⟨fun caller call outcome hcall ↦ ?_, fun _ hmem ↦ hsection.inputServers_mono hmem⟩
    have hne : caller ≠ other := by
      intro heq
      rw [heq, hother] at hcall
      cases hcall
      cases hsection
    exact (Function.update_of_ne hne _ _).trans (by rw [hsection.calls_eq, hcall])
  | popCommands => exact ⟨fun _ _ _ hcall ↦ hcall, fun _ hmem ↦ hmem⟩

/-- A second section that finds the name taken fails, and its input server stays. -/
private theorem requestNameFree_of_createsNoServer {caller : Nat} {s : ManagerState V}
    {as : List (ManagerAction V)} (hrun : managerMachine.run .start as = some s)
    (h : CreatesNoServer caller s) :
    managerMachine.EveryStep (RequestNameFree caller) .start as := by
  apply Machine.everyStep_of_forall_prefix
  intro bs a cs r has hr name hcaller hcall
  by_contra hknown
  cases a with
  | enter other call =>
    -- a call that is under way is not entered again
    cases hcaller
    rw [has, Machine.run_append, hr, Option.bind_some, Machine.run_cons_eq_some] at hrun
    rcases hrun with ⟨t, ht, _⟩
    cases managerStep_iff.mp ht with
    | enter hnone =>
      rw [hcall] at hnone
      cases hnone
  | advance other =>
    cases hcaller
    have hstep := managerStep_iff.mpr (.advance hcall (.requestRefused hknown))
    rw [has, Machine.run_append, hr, Option.bind_some, Machine.run_cons_eq_some, hstep] at hrun
    rcases hrun with ⟨t, ht, hrest⟩
    cases ht
    have hpersists := Machine.run_relation
      (R := fun s t : ManagerState V ↦
        (∀ caller call outcome, s.calls caller = some (call, .done outcome) →
          t.calls caller = some (call, .done outcome)) ∧
        ∀ entry ∈ s.inputServers, entry ∈ t.inputServers)
      (fun _ ↦ ⟨fun _ _ _ h ↦ h, fun _ h ↦ h⟩)
      (fun h h' ↦ ⟨fun _ _ _ hc ↦ h'.1 _ _ _ (h.1 _ _ _ hc), fun _ hm ↦ h'.2 _ (h.2 _ hm)⟩)
      (fun hstep ↦ (managerStep_iff.mp hstep).persists) hrest
    have hdone := hpersists.1 caller (.addInputHandler name) (.ok false)
      (Function.update_self _ _ _)
    exact h name hdone (hpersists.2 _ ((handlerInv_run hr).creating caller name hcall))
  | popCommands server => cases hcaller

/-- A failed call of `AddInputHandler` leaves no trace, and no input server of its own behind
that `GetUserInput` could reach, exactly when the name of its request PV was not registered
when its second section ran. -/
theorem failed_handler_leaves_no_trace_iff {s : ManagerState V} {as : List (ManagerAction V)}
    (hrun : managerMachine.run .start as = some s) :
    (∀ caller, LeavesNoTrace caller as s ↔
      managerMachine.EveryStep (RequestNameFree caller) .start as) ∧
    (∀ caller, CreatesNoServer caller s ↔
      managerMachine.EveryStep (RequestNameFree caller) .start as) ∧
    ∀ name, s.manager.findInputServer name ≠ none ↔
      ∃ caller, (caller, name) ∈ s.inputServers := by
  have htrace : ∀ caller, managerMachine.EveryStep (RequestNameFree caller) .start as →
      LeavesNoTrace caller as s := by
    intro caller hfree name hcall
    refine ⟨_, run_without hfree hrun ?_, rfl, rfl⟩
    rw [hcall]
    trivial
  have hserver : ∀ caller, LeavesNoTrace caller as s → CreatesNoServer caller s := by
    intro caller htrace name hcall
    rcases htrace name hcall with ⟨t, ht, _, hservers⟩
    rw [← hservers]
    exact notMem_of_without ht name
  have hfree : ∀ caller, CreatesNoServer caller s →
      managerMachine.EveryStep (RequestNameFree caller) .start as :=
    fun caller ↦ requestNameFree_of_createsNoServer hrun
  refine ⟨fun caller ↦ ⟨fun h ↦ hfree caller (hserver caller h), htrace caller⟩,
    fun caller ↦ ⟨hfree caller, fun h ↦ hserver caller (htrace caller h)⟩,
    (handlerInv_run hrun).found⟩

/-- A second call for the same input server fails at its first check. -/
theorem failed_handler_leaves_no_trace_same_server :
    ∃ s : ManagerState DtoValue, managerMachine.run .start
        [.enter 0 (.addInputHandler "S"), .advance 0, .enter 1 (.addInputHandler "S"),
          .advance 1, .advance 0] = some s ∧
      s.calls 1 = some (.addInputHandler "S", .done (.ok false)) ∧
      LeavesNoTrace 1 [.enter 0 (.addInputHandler "S"), .advance 0,
        .enter 1 (.addInputHandler "S"), .advance 1, .advance 0] s := by
  obtain ⟨s, hs⟩ : ∃ s : ManagerState DtoValue, managerMachine.run .start
      [.enter 0 (.addInputHandler "S"), .advance 0, .enter 1 (.addInputHandler "S"),
        .advance 1, .advance 0] = some s :=
    Option.isSome_iff_exists.mp (by rfl)
  have hcall : s.calls 1 = some (.addInputHandler "S", .done (.ok false)) :=
    managerMachine.observe_run (fun s ↦ s.calls 1) hs (by rfl)
  have hservers : s.inputServers = [(0, "S")] :=
    managerMachine.observe_run (fun s ↦ s.inputServers) hs (by rfl)
  have hiff := failed_handler_leaves_no_trace_iff hs
  have hnone : CreatesNoServer 1 s := by
    intro name _
    simp [hservers]
  exact ⟨s, hs, hcall, (hiff.1 1).mpr ((hiff.2.1 1).mp hnone)⟩

/-- A value with the name of the request PV makes `AddInputHandler` fail, and an input server
that `GetUserInput` finds stays behind. -/
theorem failed_handler_leaves_input_server :
    ∃ s : ManagerState DtoValue, managerMachine.run .start
        [.enter 0 (.addAnyValues [("S-REQ", .empty)]), .advance 0,
          .enter 1 (.addInputHandler "S"), .advance 1, .advance 1] = some s ∧
      s.calls 1 = some (.addInputHandler "S", .done (.ok false)) ∧
      s.manager.findInputServer "S" = some .new ∧
      ¬ LeavesNoTrace 1 [.enter 0 (.addAnyValues [("S-REQ", .empty)]), .advance 0,
        .enter 1 (.addInputHandler "S"), .advance 1, .advance 1] s := by
  obtain ⟨s, hs⟩ : ∃ s : ManagerState DtoValue, managerMachine.run .start
      [.enter 0 (.addAnyValues [("S-REQ", .empty)]), .advance 0,
        .enter 1 (.addInputHandler "S"), .advance 1, .advance 1] = some s :=
    Option.isSome_iff_exists.mp (by rfl)
  have hcall : s.calls 1 = some (.addInputHandler "S", .done (.ok false)) :=
    managerMachine.observe_run (fun s ↦ s.calls 1) hs (by rfl)
  have hfound : s.manager.findInputServer "S" = some .new :=
    managerMachine.observe_run (fun s ↦ s.manager.findInputServer "S") hs (by rfl)
  have hservers : s.inputServers = [(1, "S")] :=
    managerMachine.observe_run (fun s ↦ s.inputServers) hs (by rfl)
  refine ⟨s, hs, hcall, hfound, fun htrace ↦ ?_⟩
  rcases htrace "S" hcall with ⟨t, ht, _, hsame⟩
  -- without the call there is no input server
  have hnone : t.inputServers = [] :=
    managerMachine.observe_run (fun t ↦ t.inputServers) ht (by rfl)
  rw [hnone, hservers] at hsame
  cases hsame

end OacTreeServer.Epics
