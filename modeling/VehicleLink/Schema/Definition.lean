import VehicleLink.Checksum
import VehicleLink.Schema.Layout
import VehicleLink.Text.Utf8

namespace VehicleLink

structure Definition where
  id : UInt8
  name : String
  declared : List Field
  seed : UInt8
  deriving DecidableEq, Repr

namespace Definition

def absorbWord (c : Checksum) (word : String) : Checksum :=
  (c.absorb (Utf8.encode word)).absorbByte 32

def absorbField (c : Checksum) (f : Field) : Checksum :=
  let c := absorbWord (absorbWord c f.primitive.dialectName) f.name
  match f.arrayLength with
  | some n => c.absorbByte n
  | none => c

def deriveSeed (name : String) (wire : List Field) : UInt8 :=
  let c := wire.foldl absorbField (absorbWord Checksum.start name)
  c.value.toUInt8 ^^^ (c.value >>> 8).toUInt8

def make (id : UInt8) (name : String) (declared : List Field) (seed : Option UInt8) : Definition :=
  ⟨id, name, declared, seed.getD (deriveSeed name (Layout.order declared))⟩

def wire (d : Definition) : List Field := Layout.order d.declared

def payloadLength (d : Definition) : Nat := Layout.size d.wire

def slots (d : Definition) : List Slot := Layout.slots d.wire

def keys (d : Definition) : List String := d.slots.map Slot.key

def field? (d : Definition) (name : String) : Option Field :=
  d.declared.find? (·.name == name)

end Definition

end VehicleLink
