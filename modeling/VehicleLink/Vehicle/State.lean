import VehicleLink.Health.Watchdog
import VehicleLink.Stream
import VehicleLink.Vehicle.Incoming
import VehicleLink.Vehicle.Outgoing
import VehicleLink.Vehicle.Subsystem

namespace VehicleLink

/-- What the vehicle itself has said.  None of it is forgotten when the link is lost. -/
structure Telemetry where
  /-- The sender of the first frame. -/
  identity : Option Target
  armed : Bool
  mode : Option FlightMode
  /-- The latest message of each name. -/
  messages : Assoc String Message
  /-- The latest packet of each kind that is not registered. -/
  unknown : Assoc UInt8 Packet
  deriving DecidableEq

namespace Telemetry

def empty : Telemetry := ⟨none, false, none, .empty, .empty⟩

def identify (t : Telemetry) (p : Packet) : Telemetry :=
  if t.identity.isSome then t
  else { t with identity := some ⟨p.header.system, p.header.component⟩ }

def note (t : Telemetry) (m : Message) : Telemetry :=
  let t := { t with messages := t.messages.insert m.name m }
  match Incoming.ofMessage m with
  | .heartbeat armed mode => { t with armed, mode }
  | _ => t

/-- Takes in one item of the stream; only a frame that unpacks says more than who sent it. -/
def receive (t : Telemetry) (r : Registry) : Item → Telemetry
  | .ok frame =>
    let t := t.identify frame.packet
    match Codec.unpack r frame.packet with
    | .ok m => t.note m
    | .error _ => t
  | .error (.unknownKind p) => { t with unknown := t.unknown.insert p.kind p }
  | .error _ => t

/-- Where to send; zeros address everyone. -/
def target (t : Telemetry) : Target := t.identity.getD ⟨0, 0⟩

end Telemetry

inductive Phase
  | offline
  | awaitingCapabilities
  | syncingParameters
  | ready
  deriving DecidableEq, Repr

structure Vehicle where
  telemetry : Telemetry
  phase : Phase
  link : Health
  subsystems : Assoc Subsystem Health
  capabilities : Option UInt64
  deriving DecidableEq

namespace Vehicle

def start : Vehicle :=
  ⟨.empty, .offline, .unknown, .ofList (Subsystem.all.map (·, .unknown)), none⟩

def loseLink (v : Vehicle) : Vehicle :=
  { v with phase := .offline, link := .down, capabilities := none }

/-- The phase that follows the present one, if its condition holds; `synced` says whether the
parameters are complete. -/
def nextPhase (v : Vehicle) (synced : Bool) : Phase :=
  match v.phase with
  | .offline => if v.link = .up then .awaitingCapabilities else .offline
  | .awaitingCapabilities =>
    if v.capabilities.isSome then .syncingParameters else .awaitingCapabilities
  | .syncingParameters => if synced then .ready else .syncingParameters
  | .ready => .ready

def advanceOnce (v : Vehicle) (synced : Bool) : Vehicle := { v with phase := v.nextPhase synced }

def advance (v : Vehicle) (synced : Bool) : Vehicle :=
  ((v.advanceOnce synced).advanceOnce synced).advanceOnce synced

end Vehicle

end VehicleLink
