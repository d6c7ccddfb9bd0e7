import OacTreeServer.Dialogue.Steps
import OacTreeServer.Epics.RequestWrites
import OacTreeServer.Epics.ServerQueues

/-!
# The way of a request to the clients

The values that the request variable of an input server has had are that there is no request,
and what the calls of `GetUserInput` pushed, up to what still waits in the queue or the batch of
its `EPICSServer`; and the monitors of its clients follow this history. The invariant is about
the variable of one server, whose actions keep its requests, and about all threads.
-/

namespace OacTreeServer.Dialogue
open OacTreeServer.Client OacTreeServer.Epics OacTreeServer.External OacTreeServer.Input
  OacTreeServer.Library OacTreeServer.Protocol

section Definitions

variable {S C V : Type} [PvAccessClientPV C Nat V] [AnyValue V] [OacTree V]

/-- Nothing else writes to the request variable of a server. -/
def Keeps (server : String) : DialogueAction V → Prop
  | .server a => KeepsRequests server a
  | _ => True

variable [Base64VariableCodec V] [PvAccessServer S V]

/-- The request variable of a server at its `EPICSServer`, with the encoded values that were
queued for it, and those that it has had. -/
structure RequestVariable (servers : Nat → String) (server : String) (s : DialogueState S C V)
    (i : Nat) (queued history : List V) : Prop where
  decoded : queued.map base64DecodeAnyValue = (s.input.requestWrites server).map (Prod.mk true)
  thread : ChannelHistory (getInputRequestPVName server)
    (fun encoded ↦ base64DecodeAnyValue encoded = (true, kInputRequestAnyValue V)) (s.threads i)
    (writesTo (getInputRequestPVName server)
      (updatesIn (commandsIn s.input.manager s.threads i))) queued history
  watched : ∀ c, servers c = server → ∃ delivered,
    Watches (s.clients c).requestPv i (isRunning (s.threads i).loop) history delivered

/-- The threads can go on, and the request variable of a server shows what was pushed to it. -/
structure RequestsInv (servers : Nat → String) (server : String) (s : DialogueState S C V) :
    Prop where
  writes : RequestWrites server s.input
  channel : ∀ c,
    PvAccessClientPV.channel (s.clients c).requestPv = getInputRequestPVName (servers c)
  /-- The thread of a server that is still to be created. -/
  fresh : ∀ i, s.input.manager.servers[i]? = none → s.threads i = ⟨.starting, PvAccessServer.new⟩
  noExit : ∀ i, .exitCommand ∉ commandsIn s.input.manager s.threads i
  failed : ∀ i e, (s.threads i).loop ≠ .failed e
  nodup : ∀ nameValueSet ∈ s.input.manager.valueSets, (nameValueSet.map Prod.fst).Nodup
  initial : ∀ nameValueSet ∈ s.input.manager.valueSets, ∀ value,
    (getInputRequestPVName server, value) ∈ nameValueSet → value = kInputRequestAnyValue V
  served : ∀ i, s.input.manager.findServer (getInputRequestPVName server) = some i →
    ∃ queued history, RequestVariable servers server s i queued history
  unserved : s.input.manager.findServer (getInputRequestPVName server) = none →
    s.input.requestWrites server = [] ∧ ∀ c, servers c = server →
      PvAccessClientPV.source (s.clients c).requestPv = none ∧
        PvAccessClientPV.inFlight (s.clients c).requestPv = []

end Definitions

variable {S C V : Type} [PvAccessClientPV C Nat V] [AnyValue V] [OacTree V]
  [Base64VariableCodec V] [LawfulBase64VariableCodec V] [PvAccessServer S V]
  {servers : Nat → String} {server : String} {s : DialogueState S C V}

section Callers

omit [OacTree V] [LawfulBase64VariableCodec V] in
/-- Servers are added. -/
private theorem RequestsInv.grow (h : RequestsInv servers server s) {input : UserInputState V}
    {events : List (DialogueEvent V)} (hwrites : RequestWrites server input)
    (hpushed : input.pushed = s.input.pushed) (hgrows : Grows s.input.manager input.manager)
    (hnodup : ∀ nameValueSet ∈ input.manager.valueSets, (nameValueSet.map Prod.fst).Nodup)
    (hinitial : ∀ nameValueSet ∈ input.manager.valueSets, ∀ value,
      (getInputRequestPVName server, value) ∈ nameValueSet → value = kInputRequestAnyValue V) :
    RequestsInv servers server (s.setInput input events) := by
  have hcommands := hgrows.commandsIn s.threads
  have hsame : input.requestWrites server = s.input.requestWrites server := by
    rw [UserInputState.requestWrites, hpushed]
    rfl
  refine ⟨hwrites, h.channel, fun i hnone ↦ h.fresh i (hgrows.getElem?_eq_none hnone), ?_,
    h.failed, hnodup, hinitial, ?_, ?_⟩
  · intro i
    change _ ∉ commandsIn input.manager s.threads i
    rw [hcommands]
    exact h.noExit i
  · intro i hfind
    change input.manager.findServer _ = some i at hfind
    by_cases hlt : i < s.input.manager.servers.length
    · obtain ⟨queued, history, hvariable⟩ := h.served i (hgrows.findServer_of_lt hfind hlt)
      refine ⟨queued, history, ?_, ?_, hvariable.watched⟩
      · exact hsame ▸ hvariable.decoded
      · change ChannelHistory _ _ (s.threads i)
          (writesTo _ (updatesIn (commandsIn input.manager s.threads i))) _ _
        rw [hcommands]
        exact hvariable.thread
    · -- the variable is new
      have hnone : s.input.manager.servers[i]? = none :=
        List.getElem?_eq_none (Nat.not_lt.mp hlt)
      obtain ⟨hempty, hclients⟩ :=
        h.unserved (hgrows.findServer_eq_none_of_le hfind (Nat.not_lt.mp hlt))
      have hthread := h.fresh i hnone
      refine ⟨[], [], ?_, ?_, fun c hc ↦ ⟨[], ?_⟩⟩
      · change _ = (input.requestWrites server).map _
        rw [hsame, hempty]
        rfl
      · change ChannelHistory _ _ (s.threads i)
          (writesTo _ (updatesIn (commandsIn input.manager s.threads i))) _ _
        rw [hcommands, commandsIn, EPICSAnyValueManager.waitingAt_eq_nil hnone, hthread]
        exact channelHistory_of_idle rfl []
      · obtain ⟨hsource, hflight⟩ := hclients c hc
        exact ⟨PvAccessClientPV.follows_of_unconnected hsource hflight [], .inl hsource⟩
  · intro hnone
    obtain ⟨hempty, hclients⟩ := h.unserved (hgrows.findServer_eq_none hnone)
    exact ⟨hsame.trans hempty, hclients⟩

omit [OacTree V] in
/-- A value is pushed, to the request variable or to another one. -/
private theorem RequestsInv.push (h : RequestsInv servers server s) {input : UserInputState V}
    {events : List (DialogueEvent V)} (hwrites : RequestWrites server input) {i : Nat}
    {name : String} {value encoded : V}
    (hmanager : input.manager = s.input.manager.pushUpdate i name encoded)
    (hpushed : input.pushed = s.input.pushed ++ [(name, value)])
    (hown : name = getInputRequestPVName server → s.input.manager.findServer name = some i ∧
      base64EncodeAnyValue value = .ok encoded) :
    RequestsInv servers server (s.setInput input events) := by
  have hcommands := commandsIn_pushUpdate s.input.manager s.threads i name encoded
  rw [← hmanager] at hcommands
  have hfind : input.manager.findServer = s.input.manager.findServer := by
    rw [hmanager]
    rfl
  have hsets : input.manager.valueSets = s.input.manager.valueSets := by
    rw [hmanager, EPICSAnyValueManager.valueSets_pushUpdate]
  have hsame : input.requestWrites server = s.input.requestWrites server ++
      if name = getInputRequestPVName server then [value] else [] := by
    rw [UserInputState.requestWrites, hpushed, writesTo_append, writesTo_cons]
    exact congrArg _ (List.append_nil _)
  refine ⟨hwrites, h.channel, fun j hnone ↦ h.fresh j ?_, ?_, h.failed, hsets ▸ h.nodup,
    hsets ▸ h.initial, ?_, ?_⟩
  · change input.manager.servers[j]? = none at hnone
    rw [hmanager] at hnone
    exact getElem?_pushUpdate_eq_none.mp hnone
  · intro j
    change _ ∉ commandsIn input.manager s.threads j
    rw [hcommands]
    have := h.noExit j
    split <;> simp [this]
  · intro j hj
    change input.manager.findServer _ = some j at hj
    rw [hfind] at hj
    obtain ⟨queued, history, hvariable⟩ := h.served j hj
    have hthread := hvariable.thread
    have hdecoded := hvariable.decoded
    by_cases hname : name = getInputRequestPVName server
    · obtain ⟨hi, hencode⟩ := hown hname
      rw [hname, hj] at hi
      obtain rfl := Option.some.inj hi
      refine ⟨queued ++ [encoded], history, ?_, ?_, hvariable.watched⟩
      · change _ = (input.requestWrites server).map _
        rw [hsame, if_pos hname, List.map_append, List.map_append, hdecoded, List.map_singleton,
          base64DecodeAnyValue_of_encode hencode]
        rfl
      · change ChannelHistory _ _ (s.threads j)
          (writesTo _ (updatesIn (commandsIn input.manager s.threads j))) _ _
        rw [hcommands, if_pos ⟨rfl, lt_of_findServer hj⟩, updatesIn_append, writesTo_append,
          updatesIn_cons, writesTo_cons, if_pos hname]
        exact hthread.push [encoded]
    · refine ⟨queued, history, ?_, ?_, hvariable.watched⟩
      · change _ = (input.requestWrites server).map _
        rw [hsame, if_neg hname, List.append_nil]
        exact hdecoded
      · change ChannelHistory _ _ (s.threads j)
          (writesTo _ (updatesIn (commandsIn input.manager s.threads j))) _ _
        rw [hcommands, updatesIn_append, writesTo_append]
        split
        · rw [updatesIn_cons, writesTo_cons, if_neg hname]
          exact (List.append_nil _).symm ▸ hthread
        · exact (List.append_nil _).symm ▸ hthread
  · intro hnone
    change input.manager.findServer _ = none at hnone
    rw [hfind] at hnone
    have hname : name ≠ getInputRequestPVName server := by
      intro hname
      have hi := (hown hname).1
      rw [hname, hnone] at hi
      cases hi
    refine ⟨?_, (h.unserved hnone).2⟩
    change input.requestWrites server = []
    rw [hsame, if_neg hname, List.append_nil]
    exact (h.unserved hnone).1

omit [AnyValue V] [OacTree V] [Base64VariableCodec V] in
/-- The names of a set that a manager has accepted are distinct. -/
private theorem mem_valueSets_addAnyValues {manager : EPICSAnyValueManager V}
    {nameValueSet added : NameAnyValueSet V}
    (h : nameValueSet ∈ (manager.addAnyValues added).2.valueSets) :
    nameValueSet ∈ manager.valueSets ∨
      nameValueSet = added ∧ (added.map Prod.fst).Nodup := by
  unfold EPICSAnyValueManager.addAnyValues EPICSAnyValueManager.addAnyValuesImpl at h
  split at h
  · next hvalid =>
    rw [EPICSAnyValueManager.valueSets, List.map_append] at h
    refine (List.mem_append.mp h).imp id fun hnew ↦ ?_
    exact ⟨List.mem_singleton.mp hnew, ((manager.validateNameValueSet_iff added).mp hvalid).1⟩
  · exact .inl h

/-- A step of the callers that keeps the requests. -/
theorem RequestsInv.setInput [TotalBase64VariableCodec V] (h : RequestsInv servers server s)
    {registered : String → Prop} (hinv : UserInputInv registered s.input) {a : UserInputAction V}
    (ha : KeepsRequests server a) {input : UserInputState V}
    (hstep : UserInputStep s.input a input) (events : List (DialogueEvent V)) :
    RequestsInv servers server (s.setInput input events) := by
  have hwrites := h.writes.step hinv ha hstep
  cases h.writes.queueEffect ha hstep with
  | same hservers hfind hpushed =>
    have hsets : input.manager.valueSets = s.input.manager.valueSets := by
      rw [EPICSAnyValueManager.valueSets, hservers]
      rfl
    exact h.grow hwrites hpushed (.of_eq hservers) (hsets ▸ h.nodup) (hsets ▸ h.initial)
  | grow nameValueSet hmanager hpushed hrequest =>
    refine h.grow hwrites hpushed (hmanager ▸ .addAnyValuesImpl _ _) ?_ ?_
    · rw [hmanager]
      intro names hmem
      cases mem_valueSets_addAnyValues hmem with
      | inl hold => exact h.nodup names hold
      | inr hnew => exact hnew.1 ▸ hnew.2
    · rw [hmanager]
      intro names hmem
      cases mem_valueSets_addAnyValues hmem with
      | inl hold => exact h.initial names hold
      | inr hnew => exact hnew.1 ▸ hrequest
  | push i name value encoded hmanager hpushed hown => exact h.push hwrites hmanager hpushed hown

end Callers

section Threads

variable [TotalBase64VariableCodec V] [LawfulPvAccessServer S] {i : Nat}
  {epicsServer : EPICSServer V} {t : UpdateLoopState S V}

omit [OacTree V] [TotalBase64VariableCodec V] in
/-- A thread that starts serves the request variable of its server without a request. -/
private theorem RequestsInv.exists_initial (h : RequestsInv servers server s)
    (hserver : s.input.manager.servers[i]? = some epicsServer)
    (hfind : s.input.manager.findServer (getInputRequestPVName server) = some i) {served : S}
    (hserve : serveVariables PvAccessServer.new epicsServer.nameValueSet = .ok served) :
    ∃ encoded, base64DecodeAnyValue encoded = (true, kInputRequestAnyValue V) ∧
      PvAccessServer.served served (getInputRequestPVName server) = some encoded := by
  obtain ⟨value, hmem⟩ := exists_value_of_findServer hfind hserver
  have hset : epicsServer.nameValueSet ∈ s.input.manager.valueSets :=
    List.mem_map_of_mem (List.mem_of_getElem? hserver)
  obtain ⟨encoded, hencode, hvalue⟩ := served_of_start hserve (h.nodup _ hset) hmem
  rw [h.initial _ hset value hmem] at hencode
  exact ⟨encoded, base64DecodeAnyValue_of_encode hencode, hvalue⟩

variable [LawfulPvAccessClientPV C]

omit [OacTree V] in
/-- A step of a thread keeps the request variable and its monitors together. -/
theorem RequestsInv.afterThread (h : RequestsInv servers server s)
    (hserver : s.input.manager.servers[i]? = some epicsServer)
    (hadvance : Epics.advance epicsServer.nameValueSet (s.threadState i epicsServer) = some t) :
    RequestsInv servers server (s.afterThread i t) := by
  have hbefore : commandsIn s.input.manager s.threads i =
      remaining (s.threadState i epicsServer) := by
    rw [commandsIn, EPICSAnyValueManager.waitingAt_eq hserver]
    rfl
  have heffect := loopEffect hadvance (hbefore ▸ h.noExit i)
  have hcommands (j : Nat) : commandsIn (s.afterThread i t).input.manager
      (s.afterThread i t).threads j =
        if j = i then remaining t else commandsIn s.input.manager s.threads j :=
    commandsIn_setQueue hserver t j
  have hthread (j : Nat) : (s.afterThread i t).threads j =
      if j = i then ⟨t.loop, t.server⟩ else s.threads j := Function.update_apply ..
  have hsets : (s.input.manager.setQueue i t.updateQueue).valueSets =
      s.input.manager.valueSets := valueSets_setQueue _ _ _
  refine ⟨h.writes.manager rfl, fun c ↦ ?_, fun j hnone ↦ ?_, fun j ↦ ?_, fun j e ↦ ?_,
    hsets ▸ h.nodup, hsets ▸ h.initial, fun j hfind ↦ ?_, fun hnone ↦ ⟨?_, fun c hc ↦ ?_⟩⟩
  · exact (PvAccessClientPV.channel_postAll _ _ _).trans (h.channel c)
  · have hold := getElem?_setQueue_eq_none.mp hnone
    have hj : j ≠ i := by
      rintro rfl
      rw [hserver] at hold
      cases hold
    rw [hthread, if_neg hj]
    exact h.fresh j hold
  · rw [hcommands]
    split
    · exact fun hexit ↦ h.noExit i (hbefore ▸ heffect.remaining_subset hexit)
    · exact h.noExit j
  · rw [hthread]
    split
    · intro hfailed
      obtain ⟨served, hserve⟩ := serveVariables_ok epicsServer.nameValueSet (PvAccessServer.new : S)
      rw [serveVariables_of_failed hadvance hfailed] at hserve
      cases hserve
    · exact h.failed j e
  · obtain ⟨queued, history, hvariable⟩ := h.served j hfind
    by_cases hj : j = i
    · subst hj
      have hold := hvariable.thread
      rw [hbefore] at hold
      obtain ⟨more, hhistory, hrunning, hidle⟩ := hold.advance heffect rfl
        fun _ ↦ h.exists_initial hserver hfind
      refine ⟨queued, history ++ more, hvariable.decoded, ?_, fun c hc ↦ ?_⟩
      · rw [hcommands, if_pos rfl, hthread, if_pos rfl]
        exact hhistory
      · obtain ⟨delivered, hwatches⟩ := hvariable.watched c hc
        refine ⟨delivered, ?_⟩
        rw [hthread, if_pos rfl]
        refine hwatches.advance ?_ hidle
        rw [h.channel c, hc]
        exact hrunning
    · refine ⟨queued, history, hvariable.decoded, ?_, fun c hc ↦ ?_⟩
      · rw [hcommands, if_neg hj, hthread, if_neg hj]
        exact hvariable.thread
      · obtain ⟨delivered, hwatches⟩ := hvariable.watched c hc
        refine ⟨delivered, ?_⟩
        rw [hthread, if_neg hj]
        exact hwatches.postAll_of_ne (Ne.symm hj) t.applied
  · exact (h.unserved hnone).1
  · obtain ⟨hsource, hflight⟩ := (h.unserved hnone).2 c hc
    change PvAccessClientPV.source (PvAccessClientPV.postAll i t.applied _) = none ∧
      PvAccessClientPV.inFlight (PvAccessClientPV.postAll i t.applied _) = []
    have hne : PvAccessClientPV.source (s.clients c).requestPv ≠ some i := by
      rw [hsource]
      exact (Option.some_ne_none i).symm
    rw [PvAccessClientPV.postAll_of_source_ne hne]
    exact ⟨hsource, hflight⟩

end Threads

section Monitors

variable {c : Nat} {client : InputClient C V} {events : List (DialogueEvent V)}

omit [OacTree V] [LawfulBase64VariableCodec V] in
/-- A client changes, and its monitor still follows the request variable. -/
theorem RequestsInv.setClient (h : RequestsInv servers server s)
    (hchannel : PvAccessClientPV.channel client.requestPv =
      PvAccessClientPV.channel (s.clients c).requestPv)
    (hwatches : servers c = server → ∀ i queued history delivered,
      s.input.manager.findServer (getInputRequestPVName server) = some i →
      RequestVariable servers server s i queued history →
      Watches (s.clients c).requestPv i (isRunning (s.threads i).loop) history delivered →
      ∃ more, Watches client.requestPv i (isRunning (s.threads i).loop) history more)
    (hnone : servers c = server → PvAccessClientPV.inFlight (s.clients c).requestPv = [] →
      PvAccessClientPV.source (s.clients c).requestPv = none →
      s.input.manager.findServer (getInputRequestPVName server) = none →
      PvAccessClientPV.source client.requestPv = none ∧
        PvAccessClientPV.inFlight client.requestPv = []) :
    RequestsInv servers server (s.setClient c client events) := by
  have hclient (other : Nat) : (s.setClient c client events).clients other =
      if other = c then client else s.clients other := Function.update_apply ..
  refine ⟨h.writes, fun other ↦ ?_, h.fresh, h.noExit, h.failed, h.nodup, h.initial,
    fun i hfind ↦ ?_, fun hfind ↦ ⟨(h.unserved hfind).1, fun other hother ↦ ?_⟩⟩
  · rw [hclient]
    split
    · next heq => rw [hchannel, heq, h.channel]
    · exact h.channel other
  · obtain ⟨queued, history, hvariable⟩ := h.served i hfind
    refine ⟨queued, history, hvariable.decoded, hvariable.thread, fun other hother ↦ ?_⟩
    rw [hclient]
    split
    · next heq =>
      subst heq
      obtain ⟨delivered, hold⟩ := hvariable.watched other hother
      exact hwatches hother i queued history delivered hfind hvariable hold
    · exact hvariable.watched other hother
  · obtain ⟨hsource, hflight⟩ := (h.unserved hfind).2 other hother
    rw [hclient]
    split
    · next heq =>
      subst heq
      exact hnone hother hflight hsource hfind
    · exact ⟨hsource, hflight⟩

omit [OacTree V] [LawfulBase64VariableCodec V] in
/-- A client that only changes inside. -/
theorem RequestsInv.setSame (h : RequestsInv servers server s)
    (hsame : client.requestPv = (s.clients c).requestPv) :
    RequestsInv servers server (s.setClient c client events) := by
  refine h.setClient (by rw [hsame]) (fun _ i _ _ delivered _ _ hwatches ↦ ?_) ?_
  · rw [hsame]
    exact ⟨delivered, hwatches⟩
  · rw [hsame]
    exact fun _ hflight hsource _ ↦ ⟨hsource, hflight⟩

variable [LawfulPvAccessClientPV C]

omit [OacTree V] [LawfulBase64VariableCodec V] in
/-- A monitor connects to the running server of its variable. -/
theorem RequestsInv.connect (h : RequestsInv servers server s) {i : Nat} {value : V}
    (hfind : s.input.manager.findServer (PvAccessClientPV.channel (s.clients c).requestPv) = some i)
    (hrunning : isRunning (s.threads i).loop = true)
    (hvalue : PvAccessServer.served (s.threads i).pvServer
      (PvAccessClientPV.channel (s.clients c).requestPv) = some value) :
    RequestsInv servers server
      (s.setPv c (PvAccessClientPV.connect (s.clients c).requestPv i value)) := by
  have hchannel := LawfulPvAccessClientPV.channel_connect (s.clients c).requestPv i value
  rw [h.channel] at hfind hvalue
  refine h.setClient hchannel
    (fun hc j _ history delivered hj hvariable hwatches ↦ ⟨delivered, ?_⟩) ?_
  · rw [hc] at hfind hvalue
    rw [hfind] at hj
    obtain rfl := Option.some.inj hj
    obtain ⟨-, -, -, -, hserved⟩ := hvariable.thread.running hrunning
    exact hwatches.connect (hserved ▸ hvalue) hrunning
  · intro hc _ _ hnone
    rw [hc, hnone] at hfind
    cases hfind

omit [OacTree V] [LawfulBase64VariableCodec V] in
/-- A monitor loses its connection. -/
theorem RequestsInv.disconnect (h : RequestsInv servers server s) :
    RequestsInv servers server
      (s.setPv c (PvAccessClientPV.disconnect (s.clients c).requestPv)) := by
  refine h.setClient (LawfulPvAccessClientPV.channel_disconnect _)
    (fun _ _ _ _ delivered _ _ hwatches ↦ ⟨delivered, hwatches.disconnect⟩)
    fun _ hflight _ _ ↦ ⟨LawfulPvAccessClientPV.source_disconnect _, ?_⟩
  have hlost := LawfulPvAccessClientPV.inFlight_disconnect (s.clients c).requestPv
  rwa [hflight, List.sublist_nil] at hlost

omit [OacTree V] [LawfulBase64VariableCodec V] in
/-- A value on its way to a client is overwritten by the next one. -/
theorem RequestsInv.coalesce (h : RequestsInv servers server s) {position : Nat}
    {pv : C} (hpv : PvAccessClientPV.coalesce (s.clients c).requestPv position = some pv) :
    RequestsInv servers server (s.setPv c pv) := by
  refine h.setClient (LawfulPvAccessClientPV.coalesce_same _ _ _ hpv).1
    (fun _ _ _ _ delivered _ _ hwatches ↦ ⟨delivered, hwatches.coalesce hpv⟩)
    fun _ hflight hsource _ ↦ ?_
  have hfewer := (LawfulPvAccessClientPV.inFlight_coalesce _ _ _ hpv).1
  rw [hflight, List.sublist_nil] at hfewer
  exact ⟨(LawfulPvAccessClientPV.coalesce_same _ _ _ hpv).2.trans hsource, hfewer⟩

omit [OacTree V] [LawfulBase64VariableCodec V] in
/-- A value reaches the callback of a client. -/
theorem RequestsInv.deliver (h : RequestsInv servers server s) {value : V}
    (hpv : PvAccessClientPV.deliver (s.clients c).requestPv = some (value, client.requestPv)) :
    RequestsInv servers server (s.setClient c client events) := by
  refine h.setClient (LawfulPvAccessClientPV.deliver_same _ _ _ hpv).1
    (fun _ _ _ _ delivered _ _ hwatches ↦ ⟨delivered ++ [value], hwatches.deliver hpv⟩)
    fun _ hflight _ _ ↦ ?_
  rw [PvAccessClientPV.deliver_eq_none hflight] at hpv
  cases hpv

omit [OacTree V] [LawfulBase64VariableCodec V] in
/-- What reaches a client is that there is no request, or the request of a call. -/
theorem RequestsInv.delivered (h : RequestsInv servers server s) (hc : servers c = server)
    {value : V} {pv : C}
    (hpv : PvAccessClientPV.deliver (s.clients c).requestPv = some (value, pv)) :
    ∃ reqAv, base64DecodeAnyValue value = (true, reqAv) ∧ (reqAv = kInputRequestAnyValue V ∨
      ∃ id call, s.input.calls id = some call ∧ call.server = server ∧
        reqAv = encodeInputRequest id call.request) := by
  have hflight : value ∈ PvAccessClientPV.inFlight (s.clients c).requestPv := by
    rw [LawfulPvAccessClientPV.inFlight_deliver _ _ _ hpv]
    exact List.mem_cons_self
  cases hfind : s.input.manager.findServer (getInputRequestPVName server) with
  | none =>
    rw [((h.unserved hfind).2 c hc).2] at hflight
    cases hflight
  | some i =>
    obtain ⟨queued, history, hvariable⟩ := h.served i hfind
    obtain ⟨delivered, hwatches⟩ := hvariable.watched c hc
    have hmem := hwatches.follows.sampled.mem (List.mem_append_right _ hflight)
    cases hvariable.thread.mem hmem with
    | inl hinitial => exact ⟨_, hinitial, .inl rfl⟩
    | inr hqueued =>
      have hdecoded := List.mem_map_of_mem hqueued (f := base64DecodeAnyValue)
      rw [hvariable.decoded] at hdecoded
      obtain ⟨reqAv, hreqAv, heq⟩ := List.mem_map.mp hdecoded
      exact ⟨reqAv, heq.symm, h.writes.written reqAv hreqAv⟩

end Monitors

end OacTreeServer.Dialogue
