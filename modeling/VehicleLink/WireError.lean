import VehicleLink.Packet
import VehicleLink.Value

namespace VehicleLink

inductive WireError
  | checksum (expected actual : UInt16)
  | truncated (needed available : Nat)
  | badStart (byte : UInt8)
  | unknownKind (packet : Packet)
  | underrun (kind : UInt8) (needed available : Nat)
  | unknownName (name : String)
  | unregistered (kind : UInt8)
  | unsuitable (key : String) (value : Value)
  | oversized (length : Nat)
  | closed
  | busy
  | unreadable (reason : String)
  deriving DecidableEq

namespace WireError

def hex (width n : Nat) : String :=
  let ds := Nat.toDigits 16 n
  "0x" ++ String.ofList (List.replicate (width - ds.length) '0' ++ ds)

def message : WireError → String
  | .checksum expected actual =>
    "Checksum mismatch: expected " ++ hex 4 expected.toNat ++ ", got " ++ hex 4 actual.toNat
  | .truncated needed available =>
    "Truncated packet: need " ++ toString needed ++ " bytes, have " ++ toString available
  | .badStart byte => "Invalid start byte " ++ hex 2 byte.toNat
  | .unknownKind packet => "Unknown message kind " ++ toString packet.kind
  | .underrun kind needed available =>
    "Payload underrun for kind " ++ toString kind ++ ": need " ++ toString needed
      ++ " bytes, have " ++ toString available
  | .unknownName name => "Unknown message name: " ++ name
  | .unregistered kind => "Unknown message name: kind " ++ toString kind
  | .unsuitable key value => "Field " ++ key ++ " cannot hold " ++ value.debug
  | .oversized length => "Field payload cannot hold " ++ toString length ++ " bytes"
  | .closed => "Outbound link closed"
  | .busy => "Outbound link busy"
  | .unreadable reason => "I/O error: " ++ reason

end WireError

end VehicleLink
