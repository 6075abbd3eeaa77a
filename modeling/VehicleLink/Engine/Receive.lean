import VehicleLink.Engine.Basic

namespace VehicleLink

/-- The newest `Engine.rawCapacity` frames are kept. -/
def Subscriber.offer (s : Subscriber) (raw : List UInt8) : Subscriber :=
  if s.pending.length < Engine.rawCapacity then { s with pending := s.pending ++ [raw] }
  else { s with pending := s.pending.drop 1 ++ [raw], lost := s.lost + 1 }

namespace Engine

def log (e : Engine) (entry : LogEntry) : Engine :=
  let kept := if e.syslog.length < syslogCapacity then e.syslog else e.syslog.drop 1
  { e with syslog := kept ++ [entry] }

def see (e : Engine) (kind : UInt8) : Engine :=
  let (monitor, events) := e.monitor.update kind e.now
  { e with monitor, events := e.events ++ events }

def act (e : Engine) : Incoming → Engine
  | .heartbeat _ _ => e
  | .acknowledgement opcode status => { e with queue := (e.queue.acknowledge opcode status).1 }
  | .capabilities bits => { e with vehicle.capabilities := some bits }
  | .parameter p => { e with params := (e.params.begin p.count).record p.index p.name p.value }
  | .log entry => e.log entry
  | .other => e

def handleFrame (e : Engine) (f : Frame) : Engine :=
  let e := { e with subscribers := e.subscribers.map (·.offer f.raw) }
  match Codec.unpack e.registry f.packet with
  | .ok m => (e.see m.kind).act (.ofMessage m)
  | .error _ => e

def receive (e : Engine) (item : Item) : Engine :=
  let e := { e with vehicle.telemetry := e.vehicle.telemetry.receive e.registry item }
  match item with
  | .ok f => e.handleFrame f
  | .error _ => e

def receiveAll (e : Engine) (items : List Item) : Engine := items.foldl receive e

/-- Takes in a datagram; the count is that of its valid frames. -/
def datagram (e : Engine) (bytes : List UInt8) : Engine × Nat :=
  let items := (Stream.drain e.registry true bytes).1
  (e.receiveAll items, items.countP Except.isOk)

def subsystemHealth (e : Engine) (s : Subsystem) : Health :=
  .aggregate ((kindsOf e.registry s).filterMap e.monitor.health?)

/-- Without heartbeats the vehicle counts as offline, and its parameters may change unseen. -/
def applyHealth (e : Engine) (event : HealthEvent) : Engine :=
  if heartbeatKind? e.registry = some event.kind then
    match event.health with
    | .up => { e with vehicle.link := .up }
    | .down => { e with vehicle := e.vehicle.loseLink, params := .empty }
    | .unknown => e
  else
    match subsystemOf? e.registry event.kind with
    | some s =>
      { e with vehicle.subsystems := e.vehicle.subsystems.insert s (e.subsystemHealth s) }
    | none => e

def applyNext (e : Engine) : Engine :=
  match e.events with
  | event :: events => { e with events }.applyHealth event
  | [] => e

def applyEvents (e : Engine) : Engine :=
  if e.cancelled then e else e.events.foldl (fun e _ => e.applyNext) e

end Engine

end VehicleLink
