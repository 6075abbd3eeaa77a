import VehicleLink.Config.Engine
import VehicleLink.Health.Monitor
import VehicleLink.Parameters
import VehicleLink.Vehicle.State

namespace VehicleLink

inductive Receiver
  | ready
  /-- Takes frames only when asked to; until then they are held. -/
  | slow
  | gone
  deriving DecidableEq, Repr

structure Transmission where
  time : Nat
  /-- How many attempts to send came before. -/
  attempt : Nat
  message : Outgoing
  target : Target
  frame : List UInt8
  deriving DecidableEq

structure Outbound where
  receiver : Receiver
  /-- Oldest first. -/
  held : List (List UInt8)
  /-- All that was put on the link, newest first. -/
  sent : List Transmission
  /-- Attempts to send, failed ones included. -/
  attempts : Nat
  deriving DecidableEq

structure Subscriber where
  /-- Oldest first. -/
  pending : List (List UInt8)
  lost : Nat
  deriving DecidableEq

structure Override where
  channels : Channels
  /-- Zero keeps the override until it is released. -/
  timeout : Nat
  since : Nat
  deriving DecidableEq

/-- A round of requests for the parameters that were missing when it began, asleep until
`wake`. -/
structure Pass where
  target : Target
  rest : List UInt16
  wake : Nat
  deriving DecidableEq

structure Handler where
  /-- Absent once the handler has stopped. -/
  timer : Option Timer
  pass : Option Pass
  deriving DecidableEq

inductive Errand
  | verify (name : String) (value : Single)
  | fetch (index : UInt16) (attempts : Nat)
  | await (attempts delay : Nat)
  deriving DecidableEq

structure Job where
  id : Nat
  wake : Nat
  errand : Errand
  deriving DecidableEq

structure Reader where
  buffer : List UInt8
  ended : Bool
  closed : Bool
  deriving DecidableEq

inductive Result
  | command (outcome : Outcome)
  | set (result : Except ParamError Unit)
  | value (result : Except ParamError Single)
  | synced (complete : Bool)
  | read (result : Except WireError Unit)

structure Completion where
  id : Nat
  time : Nat
  result : Result

structure Engine where
  registry : Registry
  config : EngineConfig
  now : Nat
  vehicle : Vehicle
  params : Parameters
  queue : Queue
  monitor : Monitor
  /-- Health events that are not applied yet, oldest first. -/
  events : List HealthEvent
  /-- Oldest first. -/
  syslog : List LogEntry
  channels : Option Override
  overrideTimer : Option Timer
  handler : Handler
  outbound : Outbound
  subscribers : List Subscriber
  jobs : List Job
  readers : Assoc Nat Reader
  /-- Newest first. -/
  finished : List Completion
  nextId : Nat
  cancelled : Bool

namespace Engine

def outboundCapacity : Nat := 256

def rawCapacity : Nat := 256

def syslogCapacity : Nat := 200

def heartbeatKind? (r : Registry) : Option UInt8 := (r.named? "HEARTBEAT").map Definition.id

def kindsOf (r : Registry) (s : Subsystem) : List UInt8 :=
  s.messages.filterMap fun name => (r.named? name).map Definition.id

def subsystemOf? (r : Registry) (kind : UInt8) : Option Subsystem :=
  Subsystem.all.find? fun s => kind ∈ kindsOf r s

def watch (r : Registry) (c : EngineConfig) : Monitor :=
  let heartbeat := (heartbeatKind? r).toList.map (·, c.heartbeatTimeout.toNat)
  let telemetry := Subsystem.all.flatMap fun s =>
    (kindsOf r s).map (·, c.telemetryTimeout.toNat)
  (heartbeat ++ telemetry).foldl (fun m e => m.track e.1 e.2 0) .empty

def start (r : Registry) (c : EngineConfig) (receiver : Receiver) : Engine :=
  { registry := r
    config := c
    now := 0
    vehicle := .start
    params := .empty
    queue := .empty c.commandRetries.toNat
    monitor := watch r c
    events := []
    syslog := []
    channels := none
    overrideTimer := Timer.start? c.overrideResend.toNat 0
    handler := ⟨Timer.start? c.tick.toNat 0, none⟩
    outbound := ⟨receiver, [], [], 0⟩
    subscribers := []
    jobs := []
    readers := .empty
    finished := []
    nextId := 0
    cancelled := false }

def target (e : Engine) : Target := e.vehicle.telemetry.target

def finish (e : Engine) (id : Nat) (result : Result) : Engine :=
  { e with finished := ⟨id, e.now, result⟩ :: e.finished }

def sender (e : Engine) : Sender :=
  ⟨UInt8.ofNat e.outbound.attempts, e.config.system, e.config.component⟩

def frame (e : Engine) (m : Outgoing) (target : Target) : Except WireError (List UInt8) := do
  Codec.encode e.registry (← Codec.packNamed e.registry m.name (m.fields target) e.sender)

def Outbound.offer (o : Outbound) (t : Transmission) : Except WireError Outbound :=
  match o.receiver with
  | .gone => .error .closed
  | .ready => .ok { o with sent := t :: o.sent }
  | .slow =>
    if o.held.length < outboundCapacity then
      .ok { o with held := o.held ++ [t.frame], sent := t :: o.sent }
    else .error .busy

/-- Sends a message.  The sequence number is spent whether or not this succeeds. -/
def sendTo (e : Engine) (target : Target) (m : Outgoing) : Engine × Except WireError Unit :=
  let counted := { e.outbound with attempts := e.outbound.attempts + 1 }
  match e.frame m target with
  | .error cause => ({ e with outbound := counted }, .error cause)
  | .ok frame =>
    match Outbound.offer counted ⟨e.now, e.outbound.attempts, m, target, frame⟩ with
    | .error cause => ({ e with outbound := counted }, .error cause)
    | .ok outbound => ({ e with outbound }, .ok ())

def send (e : Engine) (m : Outgoing) : Engine × Except WireError Unit := e.sendTo e.target m

end Engine

end VehicleLink
