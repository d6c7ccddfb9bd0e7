import OacTreeServer.Epics.UpdateQueue
import OacTreeServer.External.PvAccessClient
import OacTreeServer.Input.InputProtocol

/-!
# The thread of an EPICS server

A step of the thread of an `EPICSServer` does one of three things: it goes on without any effect
on a variable, it starts to serve the variables of its server, or it sets the value of one of
them (`epics/epics_server.cpp:52`). So the values that a channel has had are its initial one and
those that were queued for it, up to the ones that still wait, and the monitors of the channel
follow this history. A thread that has something to do can always go on.
-/

namespace OacTreeServer.Epics
open OacTreeServer.External OacTreeServer.Input OacTreeServer.Library OacTreeServer.Protocol

/-- The thread of an `EPICSServer`, with the `PvAccessServer` that it owns;
`epics_server.cpp:52`. -/
structure UpdateThread (S V : Type) where
  loop : UpdateLoop V
  pvServer : S

/-- The thread has started its `PvAccessServer`, and still has it. -/
def isRunning {V : Type} : UpdateLoop V → Bool
  | .waiting => true
  | .popping => true
  | .processing _ => true
  | _ => false

/-- The updates among the commands. -/
def updatesIn {V : Type} (commands : List (AnyValueUpdateCommand V)) : List (String × V) :=
  commands.filterMap fun
    | .valueUpdate channel value => some (channel, value)
    | .exitCommand => none

/-- What a thread has still to do, for a queue of some length. -/
def threadRank {V : Type} (loop : UpdateLoop V) (queued : Nat) : Nat :=
  match loop with
  | .starting => 6 * queued + 1
  | .waiting => 6 * queued
  | .popping => 3 * queued + 2
  | .processing batch => batch.length + 1 + 6 * queued
  | .finished _ => 0
  | .failed _ => 0

/-- The updates among more commands. -/
theorem updatesIn_append {V : Type} (commands more : List (AnyValueUpdateCommand V)) :
    updatesIn (commands ++ more) = updatesIn commands ++ updatesIn more :=
  List.filterMap_append

/-- The updates, one command at a time. -/
theorem updatesIn_cons {V : Type} (channel : String) (value : V)
    (commands : List (AnyValueUpdateCommand V)) :
    updatesIn (.valueUpdate channel value :: commands) = (channel, value) :: updatesIn commands :=
  rfl

section Definitions

variable {S V : Type}

/-- What a thread has still to process. -/
def remaining (t : UpdateLoopState S V) : List (AnyValueUpdateCommand V) :=
  t.loop.pending ++ t.updateQueue.valueUpdates

/-- The values that a thread has still to set for a channel. -/
def waitingIn (channel : String) (t : UpdateLoopState S V) : List V :=
  writesTo channel (updatesIn (remaining t))

variable [Base64VariableCodec V] [PvAccessServer S V]

/-- What a step of a thread does, from one state of it to the next. -/
inductive LoopEffect (nameValueSet : NameAnyValueSet V) (t u : UpdateLoopState S V) : Prop where
  | quiet : isRunning u.loop = isRunning t.loop → u.server = t.server →
      remaining u = remaining t → u.applied = t.applied → LoopEffect nameValueSet t u
  | started : isRunning t.loop = false → isRunning u.loop = true →
      serveVariables PvAccessServer.new nameValueSet = .ok u.server →
      remaining u = remaining t → u.applied = t.applied → LoopEffect nameValueSet t u
  | applied (channel : String) (value : V) : isRunning t.loop = true → isRunning u.loop = true →
      u.server = PvAccessServer.setValue t.server channel value →
      remaining t = .valueUpdate channel value :: remaining u →
      u.applied = t.applied ++ [(channel, value)] → LoopEffect nameValueSet t u

omit [Base64VariableCodec V] in
/-- What a channel of a server shows: nothing before the thread runs, and then its initial value
and those that were queued for it, in order, up to the ones that wait. -/
structure ChannelHistory (channel : String) (initial : V → Prop) (thread : UpdateThread S V)
    (waiting queued history : List V) : Prop where
  idle : isRunning thread.loop = false → history = [] ∧ waiting = queued
  running : isRunning thread.loop = true → ∃ value, initial value ∧
    history ++ waiting = value :: queued ∧
    (PvAccessServer.served thread.pvServer channel).isSome ∧
    PvAccessServer.served thread.pvServer channel = history.getLast?

end Definitions

/-- A monitor follows a channel of a server, and is connected only while the thread runs. -/
structure Watches {C Source V : Type} [PvAccessClientPV C Source V] (pv : C) (source : Source)
    (running : Bool) (history delivered : List V) : Prop where
  follows : PvAccessClientPV.Follows pv history delivered
  source : PvAccessClientPV.source pv = none ∨
    PvAccessClientPV.source pv = some source ∧ running = true

section Steps

variable {S V : Type} [Base64VariableCodec V] [PvAccessServer S V]
  {nameValueSet : NameAnyValueSet V} {t u : UpdateLoopState S V}

/-- Every step of a thread that does not stop has one of these effects. -/
theorem loopEffect (h : advance nameValueSet t = some u) (hexit : .exitCommand ∉ remaining t) :
    LoopEffect nameValueSet t u := by
  unfold advance at h
  unfold remaining at hexit
  split at h
  · next hloop =>
    split at h
    · next server hserve =>
      cases h
      exact .started (by rw [hloop]; rfl) rfl hserve (by rw [remaining, remaining, hloop]; rfl) rfl
    · cases h
      exact .quiet (by rw [hloop]; rfl) rfl (by rw [remaining, remaining, hloop]; rfl) rfl
  · next hloop =>
    split at h
    · cases h
      exact .quiet (by rw [hloop]; rfl) rfl (by rw [remaining, remaining, hloop]; rfl) rfl
    · cases h
  · next hloop =>
    cases h
    refine .quiet (by rw [hloop]; rfl) rfl ?_ rfl
    rw [remaining, remaining, hloop]
    exact List.append_nil _
  · next hloop =>
    cases h
    exact .quiet (by rw [hloop]; rfl) rfl (by rw [remaining, remaining, hloop]; rfl) rfl
  · next queue hloop =>
    rw [hloop] at hexit
    exact absurd (List.mem_append_left _ List.mem_cons_self) hexit
  · next channel value queue hloop =>
    cases h
    exact .applied channel value (by rw [hloop]; rfl) rfl rfl
      (by rw [remaining, remaining, hloop]; rfl) rfl
  · cases h
  · cases h

/-- A step of a thread leaves it with commands that it had before. -/
theorem LoopEffect.remaining_subset (h : LoopEffect nameValueSet t u) :
    remaining u ⊆ remaining t := by
  cases h with
  | quiet _ _ hsame => rw [hsame]; exact List.Subset.refl _
  | started _ _ _ hsame => rw [hsame]; exact List.Subset.refl _
  | applied _ _ _ _ _ hnext => rw [hnext]; exact List.subset_cons_self _ _

/-- A thread fails when a variable cannot be encoded. -/
theorem serveVariables_of_failed (h : advance nameValueSet t = some u) {e : Exception}
    (hfailed : u.loop = .failed e) :
    serveVariables (PvAccessServer.new : S) nameValueSet = .error e := by
  unfold advance at h
  split at h
  · split at h
    · cases h
      cases hfailed
    · next hserve =>
      cases h
      cases hfailed
      exact hserve
  · split at h
    · cases h
      cases hfailed
    · cases h
  all_goals
    cases h
  all_goals cases hfailed

/-- Every set of variables can be served. -/
theorem serveVariables_ok [TotalBase64VariableCodec V] (nameValueSet : NameAnyValueSet V)
    (s : S) : ∃ server, serveVariables s nameValueSet = .ok server := by
  induction nameValueSet generalizing s with
  | nil => exact ⟨s, rfl⟩
  | cons nv rest ih =>
    obtain ⟨name, value⟩ := nv
    obtain ⟨encoded, hencoded⟩ := base64EncodeAnyValue_ok value
    obtain ⟨server, hserver⟩ := ih (PvAccessServer.addVariable s name encoded)
    refine ⟨server, ?_⟩
    rw [serveVariables, hencoded]
    exact hserver

/-- A thread that is not at rest can go on, and has less to do afterwards. -/
theorem exists_advance [TotalBase64VariableCodec V] (nameValueSet : NameAnyValueSet V)
    (hexit : .exitCommand ∉ remaining t) (hfailed : ∀ e, t.loop ≠ .failed e)
    (hrest : ¬ (t.loop = .waiting ∧ t.updateQueue.valueUpdates = [])) :
    ∃ u, advance nameValueSet t = some u ∧
      threadRank u.loop u.updateQueue.valueUpdates.length <
        threadRank t.loop t.updateQueue.valueUpdates.length := by
  unfold remaining at hexit
  unfold advance
  cases hloop : t.loop with
  | starting =>
    obtain ⟨server, hserver⟩ := serveVariables_ok nameValueSet (PvAccessServer.new : S)
    simp only [hserver]
    exact ⟨_, rfl, Nat.lt_succ_self _⟩
  | waiting =>
    have hqueue : t.updateQueue.valueUpdates ≠ [] := fun hnil ↦ hrest ⟨hloop, hnil⟩
    have hlength := List.length_pos_iff.mpr hqueue
    have hnonEmpty : t.updateQueue.nonEmpty = true := by
      simp [AnyValueUpdateQueue.nonEmpty, hqueue]
    simp only [hnonEmpty, if_true]
    refine ⟨_, rfl, ?_⟩
    simp only [threadRank]
    omega
  | popping =>
    refine ⟨_, rfl, ?_⟩
    simp only [threadRank, AnyValueUpdateQueue.new, List.length_nil]
    omega
  | processing queue =>
    cases queue with
    | nil =>
      refine ⟨_, rfl, ?_⟩
      simp only [threadRank]
      omega
    | cons command queue =>
      cases command with
      | exitCommand =>
        rw [hloop] at hexit
        exact absurd (List.mem_append_left _ List.mem_cons_self) hexit
      | valueUpdate channel value =>
        refine ⟨_, rfl, ?_⟩
        simp only [threadRank, List.length_cons]
        omega
  | finished queue =>
    rw [hloop] at hexit
    exact absurd (List.mem_append_left _ List.mem_cons_self) hexit
  | failed e => exact absurd hloop (hfailed e)

end Steps

section Histories

variable {Source S V : Type} [PvAccessServer S V] {channel : String} {initial : V → Prop}
  {thread : UpdateThread S V} {waiting queued history delivered : List V}

/-- A server that is new has shown nothing. -/
theorem channelHistory_of_idle (hidle : isRunning thread.loop = false) (queued : List V) :
    ChannelHistory channel initial thread queued queued [] where
  idle _ := ⟨rfl, rfl⟩
  running hrunning := by
    rw [hidle] at hrunning
    cases hrunning

/-- A value that is queued waits behind the others. -/
theorem ChannelHistory.push (h : ChannelHistory channel initial thread waiting queued history)
    (values : List V) :
    ChannelHistory channel initial thread (waiting ++ values) (queued ++ values) history where
  idle hidle := by
    obtain ⟨hnone, hsame⟩ := h.idle hidle
    rw [hsame]
    exact ⟨hnone, rfl⟩
  running hrunning := by
    obtain ⟨value, hvalue, hhistory, hserved⟩ := h.running hrunning
    refine ⟨value, hvalue, ?_, hserved⟩
    rw [← List.append_assoc, hhistory, List.cons_append]

/-- A channel whose server shows the same has the same history. -/
theorem ChannelHistory.same (h : ChannelHistory channel initial thread waiting queued history)
    {initial' : V → Prop} {thread' : UpdateThread S V}
    (hrunning : isRunning thread'.loop = isRunning thread.loop)
    (hserved : PvAccessServer.served thread'.pvServer channel =
      PvAccessServer.served thread.pvServer channel)
    (hinitial : ∀ value, initial value → initial' value) :
    ChannelHistory channel initial' thread' waiting queued history where
  idle hidle := h.idle (hrunning ▸ hidle)
  running hrun := by
    obtain ⟨value, hvalue, hhistory, hshown⟩ := h.running (hrunning ▸ hrun)
    rw [hserved]
    exact ⟨value, hinitial value hvalue, hhistory, hshown⟩

/-- Every value that the channel has had is the initial one or was queued for it. -/
theorem ChannelHistory.mem (h : ChannelHistory channel initial thread waiting queued history)
    {value : V} (hvalue : value ∈ history) : initial value ∨ value ∈ queued := by
  cases hrunning : isRunning thread.loop with
  | false =>
    rw [(h.idle hrunning).1] at hvalue
    cases hvalue
  | true =>
    obtain ⟨first, hfirst, hhistory, -⟩ := h.running hrunning
    have hmem := List.mem_append_left waiting hvalue
    rw [hhistory] at hmem
    cases List.mem_cons.mp hmem with
    | inl heq => exact .inl (heq ▸ hfirst)
    | inr hlater => exact .inr hlater

/-- A thread with nothing to set for the channel serves what was queued last, or the initial
value. -/
theorem ChannelHistory.served (h : ChannelHistory channel initial thread [] queued history)
    (hrunning : isRunning thread.loop = true) : ∃ value, initial value ∧
      PvAccessServer.served thread.pvServer channel = (value :: queued).getLast? := by
  obtain ⟨value, hvalue, hhistory, -, hserved⟩ := h.running hrunning
  rw [List.append_nil] at hhistory
  exact ⟨value, hvalue, hhistory ▸ hserved⟩

section Monitors

variable {C : Type} [PvAccessClientPV C Source V] [LawfulPvAccessClientPV C] {pv pv' : C}
  {source : Source} {running : Bool} {value : V}

/-- A monitor that connects to the running server follows the channel. -/
theorem Watches.connect (h : Watches pv source running history delivered)
    (hvalue : history.getLast? = some value) (hrunning : running = true) :
    Watches (PvAccessClientPV.connect pv source value) source running history delivered :=
  ⟨h.follows.connect source hvalue,
    .inr ⟨LawfulPvAccessClientPV.source_connect pv source value, hrunning⟩⟩

/-- A monitor that loses its connection has followed the channel. -/
theorem Watches.disconnect (h : Watches pv source running history delivered) :
    Watches (PvAccessClientPV.disconnect pv) source running history delivered :=
  ⟨h.follows.disconnect, .inl (LawfulPvAccessClientPV.source_disconnect pv)⟩

/-- A monitor that misses a value still follows the channel. -/
theorem Watches.coalesce (h : Watches pv source running history delivered) {position : Nat}
    (hcoalesce : PvAccessClientPV.coalesce pv position = some pv') :
    Watches pv' source running history delivered := by
  refine ⟨h.follows.coalesce hcoalesce, ?_⟩
  rw [(LawfulPvAccessClientPV.coalesce_same _ _ _ hcoalesce).2]
  exact h.source

/-- A monitor that delivers a value follows the channel. -/
theorem Watches.deliver (h : Watches pv source running history delivered)
    (hdeliver : PvAccessClientPV.deliver pv = some (value, pv')) :
    Watches pv' source running history (delivered ++ [value]) := by
  refine ⟨h.follows.deliver hdeliver, ?_⟩
  rw [(LawfulPvAccessClientPV.deliver_same _ _ _ hdeliver).2]
  exact h.source

end Monitors

variable [Base64VariableCodec V] [LawfulPvAccessServer S] {nameValueSet : NameAnyValueSet V}
  {t u : UpdateLoopState S V}

/-- A step of the thread adds to the history of a channel what it sends to the monitors, except
that a thread which starts sends nothing. -/
theorem ChannelHistory.advance
    (h : ChannelHistory channel initial ⟨t.loop, t.server⟩ (waitingIn channel t) queued history)
    (heffect : LoopEffect nameValueSet t u) (hempty : t.applied = [])
    (hinitial : ∀ server : S, serveVariables PvAccessServer.new nameValueSet = .ok server →
      ∃ value, initial value ∧ PvAccessServer.served server channel = some value) :
    ∃ more, ChannelHistory channel initial ⟨u.loop, u.server⟩ (waitingIn channel u) queued
        (history ++ more) ∧
      (isRunning t.loop = true → isRunning u.loop = true ∧ writesTo channel u.applied = more) ∧
      (isRunning t.loop = false → u.applied = [] ∧ more.length ≤ 1) := by
  cases heffect with
  | quiet hsame hserver hremaining hnone =>
    have hwaiting : waitingIn channel u = waitingIn channel t := by
      rw [waitingIn, hremaining, waitingIn]
    refine ⟨[], ?_, ?_, ?_⟩
    · rw [List.append_nil, hwaiting, hserver]
      refine ⟨fun hidle ↦ h.idle ?_, fun hrunning ↦ h.running ?_⟩
      · exact hsame ▸ hidle
      · exact hsame ▸ hrunning
    · intro hrunning
      rw [hsame, hnone, hempty]
      exact ⟨hrunning, rfl⟩
    · intro _
      exact ⟨hnone.trans hempty, Nat.zero_le _⟩
  | started hbefore hafter hserve hremaining hnone =>
    obtain ⟨value, hvalue, hserved⟩ := hinitial u.server hserve
    obtain ⟨rfl, hqueued⟩ := h.idle hbefore
    refine ⟨[value], ⟨?_, ?_⟩, ?_, ?_⟩
    · intro hidle
      rw [hafter] at hidle
      cases hidle
    · intro _
      refine ⟨value, hvalue, ?_, ?_, hserved⟩
      · rw [waitingIn, hremaining, ← waitingIn, hqueued]
        rfl
      · exact Option.isSome_of_eq_some hserved
    · intro hrunning
      rw [hbefore] at hrunning
      cases hrunning
    · intro _
      exact ⟨hnone.trans hempty, Nat.le_refl _⟩
  | applied name value hbefore hafter hset hnext hone =>
    obtain ⟨first, hfirst, hhistory, hsome, hserved⟩ := h.running hbefore
    have hsent : writesTo channel u.applied = if name = channel then [value] else [] := by
      rw [hone, hempty, List.nil_append, writesTo_cons]
      exact List.append_nil _
    have hwaiting : waitingIn channel t =
        (if name = channel then [value] else []) ++ waitingIn channel u := by
      rw [waitingIn, hnext, updatesIn_cons, writesTo_cons]
      rfl
    have hnow := LawfulPvAccessServer.served_setValue t.server name value channel hsome
    refine ⟨if name = channel then [value] else [], ⟨?_, ?_⟩, fun _ ↦ ⟨hafter, hsent⟩, ?_⟩
    · intro hidle
      rw [hafter] at hidle
      cases hidle
    · intro _
      refine ⟨first, hfirst, ?_, ?_, ?_⟩
      · rw [List.append_assoc, ← hwaiting]
        exact hhistory
      · rw [hset, hnow]
        split
        · rfl
        · exact hsome
      · rw [hset, hnow]
        split
        · rw [List.getLast?_concat]
        · rw [List.append_nil]
          exact hserved
    · intro hidle
      rw [hbefore] at hidle
      cases hidle

omit [PvAccessServer S V] [Base64VariableCodec V] [LawfulPvAccessServer S] in
/-- What another server sets does not reach the monitors of the channel. -/
theorem Watches.postAll_of_ne {C : Type} [PvAccessClientPV C Source V]
    [LawfulPvAccessClientPV C] {pv : C} {source other : Source} {running : Bool}
    (h : Watches pv source running history delivered) (hne : other ≠ source)
    (values : List (String × V)) :
    Watches (PvAccessClientPV.postAll other values pv) source running history delivered := by
  have hsource : PvAccessClientPV.source pv ≠ some other := by
    rcases h.source with hnone | ⟨hsome, -⟩
    · rw [hnone]
      exact (Option.some_ne_none other).symm
    · rw [hsome]
      exact fun heq ↦ hne (Option.some.inj heq).symm
  rw [PvAccessClientPV.postAll_of_source_ne hsource]
  exact h

omit [PvAccessServer S V] [Base64VariableCodec V] [LawfulPvAccessServer S] in
/-- The monitors of the channel follow what the thread adds to the history. -/
theorem Watches.advance {C : Type} [PvAccessClientPV C Source V] [LawfulPvAccessClientPV C]
    {pv : C} {source : Source} (h : Watches pv source (isRunning t.loop) history delivered)
    {more : List V}
    (hrunning : isRunning t.loop = true →
      isRunning u.loop = true ∧ writesTo (PvAccessClientPV.channel pv) u.applied = more)
    (hidle : isRunning t.loop = false → u.applied = [] ∧ more.length ≤ 1) :
    Watches (PvAccessClientPV.postAll source u.applied pv) source (isRunning u.loop)
      (history ++ more) delivered := by
  cases hloop : isRunning t.loop with
  | true =>
    obtain ⟨hafter, hsent⟩ := hrunning hloop
    rw [hafter, ← hsent]
    have hsource := h.source.imp_right And.left
    refine ⟨h.follows.postAll hsource u.applied, ?_⟩
    rw [PvAccessClientPV.source_postAll]
    exact hsource.imp_right fun heq ↦ ⟨heq, rfl⟩
  | false =>
    obtain ⟨hnone, hlength⟩ := hidle hloop
    have hsource : PvAccessClientPV.source pv = none := by
      apply h.source.resolve_right
      rw [hloop]
      simp
    rw [hnone]
    refine ⟨?_, .inl hsource⟩
    match more, hlength with
    | [], _ =>
      rw [List.append_nil]
      exact h.follows
    | [value], _ => exact h.follows.unconnected hsource value

end Histories

end OacTreeServer.Epics
