import VehicleLink.Checksum
import VehicleLink.LittleEndian

namespace VehicleLink

def startByte : UInt8 := 0xFE

def headerLength : Nat := 6

def checksumLength : Nat := 2

def leastFrameLength : Nat := headerLength + checksumLength

structure Header where
  length : UInt8
  sequence : UInt8
  system : UInt8
  component : UInt8
  kind : UInt8
  deriving DecidableEq, Repr

structure Packet where
  header : Header
  payload : List UInt8
  checksum : UInt16
  deriving DecidableEq, Repr

namespace Packet

def kind (p : Packet) : UInt8 := p.header.kind

def body (p : Packet) : List UInt8 :=
  p.header.length :: p.header.sequence :: p.header.system :: p.header.component ::
    p.header.kind :: p.payload

/-- The frame of a packet, with its length byte and checksum as they are. -/
def bytes (p : Packet) : List UInt8 :=
  startByte :: (p.body ++ LittleEndian.encode checksumLength p.checksum.toNat)

def size (p : Packet) : Nat := headerLength + p.payload.length + checksumLength

@[simp] theorem length_bytes (p : Packet) : p.bytes.length = p.size := by
  simp [bytes, body, size, headerLength, checksumLength]
  omega

end Packet

end VehicleLink
