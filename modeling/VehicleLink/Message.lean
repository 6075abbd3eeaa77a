import VehicleLink.Assoc
import VehicleLink.Value

namespace VehicleLink

abbrev Fields := Assoc String Value

structure Message where
  kind : UInt8
  name : String
  fields : Fields
  deriving DecidableEq

namespace Message

def get? (m : Message) (key : String) : Option Value := m.fields.get? key

def double? (m : Message) (key : String) : Option Double := (m.get? key).bind Value.toDouble?

def natural? (m : Message) (key : String) : Option UInt64 := (m.get? key).bind Value.toNatural?

def byte? (m : Message) (key : String) : Option UInt8 := do
  let n ← m.natural? key
  if n.toNat < UInt8.size then some n.toUInt8 else none

def word? (m : Message) (key : String) : Option UInt16 := do
  let n ← m.natural? key
  if n.toNat < UInt16.size then some n.toUInt16 else none

def text? (m : Message) (key : String) : Option String := (m.get? key).bind Value.trimmed?

end Message

end VehicleLink
