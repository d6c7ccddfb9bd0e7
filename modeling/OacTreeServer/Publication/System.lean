import OacTreeServer.Epics.Monitors
import OacTreeServer.Epics.UpdateThread
import OacTreeServer.Server.RegisteredValues

/-!
# From the jobs to a client

The jobs of a server report through the managers of their values; every `EPICSServer` has a
thread that applies the updates of its queue to a `PvAccessServer`; a client monitors the values
of one job. All of these are here at once, with everything that may happen in between: jobs are
added and report, threads go on, connections come and go, and values are delivered or overwritten
on their way.
-/

namespace OacTreeServer.Publication
open OacTreeServer.Epics OacTreeServer.External OacTreeServer.Job OacTreeServer.Library
  OacTreeServer.Protocol OacTreeServer.Server

/-- A report that was published: the job, the encoded value and the channel it was queued for. -/
structure PublishedReport (V IS : Type) where
  job : Nat
  channel : String
  value : V
  update : JobUpdate V IS

/-- A server with its jobs, the threads of its managers and a client. `published` and `delivered`
record what was queued and what reached the callbacks of the client. -/
structure SystemState (n : Nat) (S C V IS : Type) where
  server : AutomationServer n (Recorded (EPICSAnyValueManager V))
  threads : Fin (n + 1) → Nat → UpdateThread S V
  client : EPICSIOClient C V IS
  published : List (PublishedReport V IS)
  delivered : List (String × V)

/-- What may happen. Monitors and servers are given by their positions. -/
inductive SystemAction (n : Nat) (P V IS : Type) where
  /-- A job is added or reports. -/
  | server (a : AutomationAction P V IS)
  /-- The thread of an `EPICSServer` goes on. -/
  | advance (c : Fin (n + 1)) (i : Nat)
  /-- A monitor of the client connects to the server of its variable. -/
  | connect (monitor : Nat) (c : Fin (n + 1)) (i : Nat)
  | disconnect (monitor : Nat)
  | coalesce (monitor position : Nat)
  | deliver (monitor : Nat)

section Definitions

variable {n : Nat} {P S C V IS : Type} [PvAccessClientPV C (Fin (n + 1) × Nat) V] [AnyValue V]
  [OacTree V] [InstructionStateCodec V IS] [Base64VariableCodec V]

/-- What is queued for a report. -/
def publishedBy (server : AutomationServer n (Recorded (EPICSAnyValueManager V))) (job : Nat)
    (u : JobUpdate V IS) : List (PublishedReport V IS) :=
  match server.jobData job with
  | none => []
  | some d =>
    match d.io.publication u with
    | none => []
    | some (kind, value) =>
      let channel := channelName d.io.jobPrefix kind
      match (server.avMgrRegistry d.manager).manager.findServer channel,
        base64EncodeAnyValue value with
      | some _, .ok encoded => [⟨job, channel, encoded, u⟩]
      | _, _ => []

namespace SystemState

/-- A server without jobs and a client. -/
def start [PvAccessServer S V] (serverPrefix : String)
    (client : EPICSIOClient C V IS) : SystemState n S C V IS where
  server := .new serverPrefix fun _ ↦ ⟨.new, []⟩
  threads _ _ := ⟨.starting, PvAccessServer.new⟩
  client
  published := []
  delivered := []

/-- The manager of the values at a position of the registry. -/
def manager (s : SystemState n S C V IS) (c : Fin (n + 1)) : EPICSAnyValueManager V :=
  (s.server.avMgrRegistry c).manager

/-- The queue of a server is replaced. -/
def setQueue (s : SystemState n S C V IS) (c : Fin (n + 1)) (i : Nat)
    (queue : AnyValueUpdateQueue V) :
    AutomationServer n (Recorded (EPICSAnyValueManager V)) :=
  { s.server with
    avMgrRegistry := Function.update s.server.avMgrRegistry c
      ⟨(s.manager c).setQueue i queue, (s.server.avMgrRegistry c).results⟩ }

/-- A server sends the values that it has set to the monitors that are connected to it. -/
def postAll (client : EPICSIOClient C V IS) (source : Fin (n + 1) × Nat)
    (values : List (String × V)) : EPICSIOClient C V IS :=
  { client with clientPvs := client.clientPvs.map (PvAccessClientPV.postAll source values) }

/-- A server with its thread, as the update loop sees them. -/
def threadState (s : SystemState n S C V IS) (c : Fin (n + 1)) (i : Nat)
    (epicsServer : EPICSServer V) : UpdateLoopState S V :=
  ⟨epicsServer.updateQueue, (s.threads c i).loop, (s.threads c i).pvServer, [], []⟩

/-- What a step of a thread leaves, with the values that were set on their way to the monitors. -/
def afterThread (s : SystemState n S C V IS) (c : Fin (n + 1)) (i : Nat)
    (t : UpdateLoopState S V) : SystemState n S C V IS :=
  { s with
    server := s.setQueue c i t.updateQueue
    threads := Function.update s.threads c (Function.update (s.threads c) i ⟨t.loop, t.server⟩)
    client := postAll s.client (c, i) t.applied }

/-- The thread of a server goes on. -/
def advance [PvAccessServer S V] (s : SystemState n S C V IS) (c : Fin (n + 1)) (i : Nat) :
    Option (SystemState n S C V IS) :=
  match (s.manager c).servers[i]? with
  | none => none
  | some epicsServer =>
    (Epics.advance epicsServer.nameValueSet (s.threadState c i epicsServer)).map (s.afterThread c i)

/-- A monitor is replaced. -/
def setMonitor (s : SystemState n S C V IS) (monitor : Nat) (pv : C) : EPICSIOClient C V IS :=
  { s.client with clientPvs := s.client.clientPvs.set monitor pv }

/-- A monitor that is not connected finds the server of its variable. -/
def connect [PvAccessServer S V] (s : SystemState n S C V IS) (monitor : Nat) (c : Fin (n + 1))
    (i : Nat) : Option (SystemState n S C V IS) :=
  match s.client.clientPvs[monitor]? with
  | none => none
  | some pv =>
    if PvAccessClientPV.source pv = none ∧
        (s.manager c).findServer (PvAccessClientPV.channel pv) = some i ∧
        isRunning (s.threads c i).loop = true then
      let served := PvAccessServer.served (s.threads c i).pvServer (PvAccessClientPV.channel pv)
      served.map fun value ↦ { s with
        client := s.setMonitor monitor (PvAccessClientPV.connect pv (c, i) value) }
    else
      none

/-- A monitor loses its connection. -/
def disconnect (s : SystemState n S C V IS) (monitor : Nat) : Option (SystemState n S C V IS) :=
  (s.client.clientPvs[monitor]?).map fun pv ↦ { s with
    client := s.setMonitor monitor (PvAccessClientPV.disconnect pv) }

/-- A value on its way to a monitor is overwritten by the next one. -/
def coalesce (s : SystemState n S C V IS) (monitor position : Nat) :
    Option (SystemState n S C V IS) :=
  (s.client.clientPvs[monitor]?).bind fun pv ↦
    (PvAccessClientPV.coalesce pv position).map fun pv' ↦ { s with
      client := s.setMonitor monitor pv' }

/-- The callback of a monitor is called with the next value; `epics_io_client.cpp:140`. -/
def deliver (s : SystemState n S C V IS) (monitor : Nat) : Option (SystemState n S C V IS) :=
  (s.client.clientPvs[monitor]?).bind fun pv ↦ (PvAccessClientPV.deliver pv).bind fun r ↦
    match (s.setMonitor monitor r.2).onValue (PvAccessClientPV.channel pv) r.1 with
    | .error _ => none
    | .ok client => some { s with
        client
        delivered := s.delivered ++ [(PvAccessClientPV.channel pv, r.1)] }

end SystemState

/-- The whole system. -/
def systemMachine [PvAccessServer S V] [Procedure P] :
    Machine (SystemState n S C V IS) (SystemAction n P V IS) where
  step s
    | .server a => (AutomationServer.machine.step s.server a).map fun server ↦ { s with
        server
        published := s.published ++
          match a with
          | .report job u => publishedBy s.server job u
          | _ => [] }
    | .advance c i => s.advance c i
    | .connect monitor c i => s.connect monitor c i
    | .disconnect monitor => s.disconnect monitor
    | .coalesce monitor position => s.coalesce monitor position
    | .deliver monitor => s.deliver monitor

/-- A run of the system with a client of the job that has an index, whatever this job is. -/
def runWithClient [PvAccessServer S V] [Procedure P] (serverPrefix : String) (job : Nat)
    (nVars nInstr : UInt32) (acts : List (SystemAction n P V IS)) :
    Option (SystemState n S C V IS) :=
  match EPICSIOClient.monitorJob (createJobPrefix serverPrefix (UInt32.ofNat job)) nVars nInstr with
  | .error _ => none
  | .ok client => systemMachine.run (.start serverPrefix client) acts

end Definitions

end OacTreeServer.Publication
