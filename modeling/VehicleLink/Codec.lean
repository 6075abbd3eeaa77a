import VehicleLink.Message
import VehicleLink.Schema.Registry
import VehicleLink.WireError

/-! Frames to packets to messages, and back.  A registry supplies the checksum seed of every
kind and the layout of its payload. -/

namespace VehicleLink

structure Sender where
  sequence : UInt8
  system : UInt8
  component : UInt8
  deriving DecidableEq, Repr

namespace Slot

def decode (s : Slot) (bytes : List UInt8) : Value :=
  match s with
  | .number _ t => t.decode bytes
  | .text _ _ => .text bytes

/-- A missing number is zero; text is cut or filled up with zero bytes. -/
def encode (s : Slot) (value : Option Value) : Except WireError (List UInt8) :=
  match s, value with
  | .text _ n, none => .ok (List.replicate n 0)
  | .text _ n, some (.text bytes) => .ok (bytes.take n ++ List.replicate (n - bytes.length) 0)
  | .text key _, some v => .error (.unsuitable key v)
  | .number key t, value =>
    let v := value.getD (.zero (.number t))
    match t.encode? v with
    | some bytes => .ok bytes
    | none => .error (.unsuitable key v)

end Slot

namespace Codec

def checkSeed (r : Registry) (p : Packet) : Except WireError Packet :=
  match r.seed? p.kind with
  | none => .error (.unknownKind p)
  | some seed =>
    let expected := Checksum.ofBody p.body seed
    if expected = p.checksum then .ok p else .error (.checksum expected p.checksum)

/-- The packet framed at the start of `data`; bytes behind its end are not looked at.  A
packet of an unregistered kind comes back in the error, unchecked. -/
def decode (r : Registry) (data : List UInt8) : Except WireError Packet :=
  match data with
  | start :: length :: sequence :: system :: component :: kind :: rest@(_ :: _ :: _) =>
    if start ≠ startByte then .error (.badStart start)
    else
      let n := length.toNat
      if rest.length < n + checksumLength then
        .error (.truncated (headerLength + n + checksumLength) data.length)
      else
        checkSeed r
          { header := ⟨length, sequence, system, component, kind⟩
            payload := rest.take n
            checksum :=
              UInt16.ofNat (LittleEndian.decode ((rest.drop n).take checksumLength)) }
  | _ => .error (.truncated leastFrameLength data.length)

def unpackSlots : List Slot → List UInt8 → Fields → Fields
  | [], _, fields => fields
  | s :: slots, bytes, fields =>
    unpackSlots slots (bytes.drop s.size) (fields.insert s.key (s.decode (bytes.take s.size)))

def unpack (r : Registry) (p : Packet) : Except WireError Message :=
  match r.get? p.kind with
  | none => .error (.unknownKind p)
  | some d =>
    if p.payload.length < d.payloadLength then
      .error (.underrun d.id d.payloadLength p.payload.length)
    else .ok ⟨d.id, d.name, unpackSlots d.slots p.payload .empty⟩

def packSlots (fields : Fields) : List Slot → Except WireError (List UInt8)
  | [] => .ok []
  | s :: slots => return (← s.encode (fields.get? s.key)) ++ (← packSlots fields slots)

def stamp (d : Definition) (sender : Sender) (payload : List UInt8) : Packet :=
  let p : Packet :=
    { header :=
        ⟨UInt8.ofNat payload.length, sender.sequence, sender.system, sender.component, d.id⟩
      payload
      checksum := 0 }
  { p with checksum := Checksum.ofBody p.body d.seed }

def pack (r : Registry) (kind : UInt8) (fields : Fields) (sender : Sender) :
    Except WireError Packet :=
  match r.get? kind with
  | none => .error (.unregistered kind)
  | some d => return stamp d sender (← packSlots fields d.slots)

def packNamed (r : Registry) (name : String) (fields : Fields) (sender : Sender) :
    Except WireError Packet :=
  match r.named? name with
  | none => .error (.unknownName name)
  | some d => pack r d.id fields sender

/-- The frame of a packet, with its length byte and checksum computed afresh. -/
def encode (r : Registry) (p : Packet) : Except WireError (List UInt8) :=
  match r.seed? p.kind with
  | none => .error (.unknownKind p)
  | some seed =>
    if p.payload.length < 256 then
      let p := { p with header.length := UInt8.ofNat p.payload.length }
      .ok { p with checksum := Checksum.ofBody p.body seed }.bytes
    else .error (.oversized p.payload.length)

end Codec

end VehicleLink
