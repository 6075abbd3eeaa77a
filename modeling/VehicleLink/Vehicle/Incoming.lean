import VehicleLink.Command.Status
import VehicleLink.Message
import VehicleLink.Vehicle.Mode

namespace VehicleLink

structure ParamReport where
  name : String
  value : Single
  count : UInt16
  index : UInt16
  deriving DecidableEq

structure LogEntry where
  severity : UInt8
  text : String
  deriving DecidableEq, Repr

inductive Incoming
  | heartbeat (armed : Bool) (mode : Option FlightMode)
  | acknowledgement (opcode : UInt16) (status : AckStatus)
  | capabilities (bits : UInt64)
  | parameter (report : ParamReport)
  | log (entry : LogEntry)
  | other
  deriving DecidableEq

namespace Incoming

def ofHeartbeat (m : Message) : Incoming :=
  let base := ((m.natural? "base_mode").getD 0).toUInt8
  let word := ((m.natural? "custom_mode").getD 0).toUInt32
  .heartbeat (base &&& ModeFlag.armed ≠ 0) (FlightMode.ofWord? word)

def ofAcknowledgement? (m : Message) : Option Incoming := do
  return .acknowledgement (← m.word? "command") (.ofResultCode (← m.byte? "result"))

def ofParameter? (m : Message) : Option Incoming := do
  return .parameter {
    name := ← m.text? "param_id"
    value := (← m.double? "param_value").toSingle
    count := ← m.word? "param_count"
    index := ← m.word? "param_index" }

def ofLog? (m : Message) : Option Incoming := do
  return .log ⟨← m.byte? "severity", ← m.text? "text"⟩

/-- A message that lacks a field it should have, or holds a value out of range, says
nothing. -/
def ofMessage (m : Message) : Incoming :=
  match m.name with
  | "HEARTBEAT" => ofHeartbeat m
  | "COMMAND_ACK" => (ofAcknowledgement? m).getD .other
  | "AUTOPILOT_VERSION" => .capabilities ((m.natural? "capabilities").getD 0)
  | "PARAM_VALUE" => (ofParameter? m).getD .other
  | "STATUSTEXT" => (ofLog? m).getD .other
  | _ => .other

end Incoming

end VehicleLink
