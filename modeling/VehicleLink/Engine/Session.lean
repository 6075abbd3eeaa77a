import VehicleLink.Engine.Clock

namespace VehicleLink.Engine

/-- A `watched` command gets an identifier, under which its outcome is reported. -/
inductive Request
  | advance (ms : Nat)
  | datagram (bytes : List UInt8)
  | submit (opcode : UInt16) (arguments : Arguments) (watched : Bool)
  | setMode (mode : Option FlightMode) (arm : Option Bool) (watched : Bool)
  | setHome (latitude longitude altitude : Single) (relative watched : Bool)
  | engageOverride (channels : Channels) (timeout : Nat)
  | releaseOverride
  | setParam (name : String) (value : Single)
  | fetchParam (index : UInt16)
  | awaitParams (attempts delay : Nat)
  | refresh
  | clearLast
  | takeLog
  | subscribe
  | takeRaw (subscriber : Nat)
  | openReader
  | chunk (reader : Nat) (bytes : List UInt8)
  | failRead (reader : Nat) (reason : String)
  | closeReader (reader : Nat)
  | closeOutbound
  | drainOutbound
  | shutdown

inductive Answer
  | nothing
  | count (n : Nat)
  | submitted (id : Option Nat) (opcode : UInt16)
  | begun (id : Nat)
  | sent (result : Except WireError Unit)
  | entries (log : List LogEntry)
  | subscriber (index : Nat)
  | frames (lost : Nat) (frames : List (List UInt8))
  | delivered (result : Option Bool)

def submit (e : Engine) (opcode : UInt16) (arguments : Arguments) (watched : Bool) :
    Engine × Answer :=
  if watched then
    ({ e with queue := e.queue.push opcode arguments (some e.nextId), nextId := e.nextId + 1 },
      .submitted (some e.nextId) opcode)
  else
    ({ e with queue := e.queue.push opcode arguments none }, .submitted none opcode)

/-- Without a mode or an arm state the present one is kept. -/
def setMode (e : Engine) (mode : Option FlightMode) (arm : Option Bool) (watched : Bool) :
    Engine × Answer :=
  let t := e.vehicle.telemetry
  e.submit Opcode.setMode (Arguments.setMode (mode.or t.mode) (arm.getD t.armed)) watched

def takeRaw (e : Engine) (index : Nat) : Engine × Answer :=
  match e.subscribers[index]? with
  | some s => ({ e with subscribers := e.subscribers.set index ⟨[], 0⟩ }, .frames s.lost s.pending)
  | none => (e, .nothing)

def begin (e : Engine) (errand : Engine → Nat → Engine) : Engine × Answer :=
  (errand { e with nextId := e.nextId + 1 } e.nextId, .begun e.nextId)

def perform (e : Engine) : Request → Engine × Answer
  | .advance ms => (e.advance ms, .nothing)
  | .datagram bytes =>
    let (e, n) := e.datagram bytes
    (e, .count n)
  | .submit opcode arguments watched => e.submit opcode arguments watched
  | .setMode mode arm watched => e.setMode mode arm watched
  | .setHome latitude longitude altitude relative watched =>
    e.submit Opcode.setHome (Arguments.setHome latitude longitude altitude relative) watched
  | .engageOverride channels timeout =>
    let (e, result) := e.engageOverride channels timeout
    (e, .sent result)
  | .releaseOverride => (e.releaseOverride, .sent (.ok ()))
  | .setParam name value => e.begin fun e id => e.setParam id name value
  | .fetchParam index =>
    e.begin fun e id => e.fetchParam id index e.config.paramReadAttempts.toNat
  | .awaitParams attempts delay => e.begin fun e id => e.awaitParams id delay attempts
  | .refresh => (e.refresh, .nothing)
  | .clearLast => ({ e with queue := e.queue.clearLast }, .nothing)
  | .takeLog => ({ e with syslog := [] }, .entries e.syslog)
  | .subscribe =>
    ({ e with subscribers := e.subscribers ++ [⟨[], 0⟩] }, .subscriber e.subscribers.length)
  | .takeRaw index => e.takeRaw index
  | .openReader => e.begin openReader
  | .chunk id bytes =>
    let (e, result) := e.chunk id bytes
    (e, .delivered result)
  | .failRead id reason =>
    let (e, result) := e.failRead id reason
    (e, .delivered result)
  | .closeReader id =>
    let (e, wasOpen) := e.closeReader id
    (e, .delivered (some wasOpen))
  | .closeOutbound => ({ e with outbound.receiver := .gone, outbound.held := [] }, .nothing)
  | .drainOutbound => ({ e with outbound.held := [] }, .frames 0 e.outbound.held)
  | .shutdown => (e.shutdown, .nothing)

def handle (e : Engine) (request : Request) : Engine × Answer :=
  let (e, answer) := e.perform request
  (e.settle, answer)

def launch (r : Registry) (c : EngineConfig) (receiver : Receiver) : Engine :=
  (start r c receiver).settle

def run (e : Engine) (requests : List Request) : Engine :=
  requests.foldl (fun e request => (e.handle request).1) e

end VehicleLink.Engine
