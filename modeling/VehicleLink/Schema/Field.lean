import VehicleLink.Schema.Primitive
import VehicleLink.Text.Blank
import VehicleLink.Text.Numeral

namespace VehicleLink

structure FieldType where
  primitive : Primitive
  arrayLength : Option UInt8
  deriving DecidableEq, Repr

namespace FieldType

/-- A type name, or a type name followed by a length from 1 to 255 in square brackets.
Blanks may surround each part. -/
def parse? (text : String) : Option FieldType :=
  let cs := Blank.trim text.toList
  match cs.dropWhile (· ≠ '[') with
  | [] => return ⟨← Primitive.ofDialectName? (String.ofList cs), none⟩
  | _ :: rest => do
    guard (rest.getLast? = some ']')
    let length ← Numeral.byte? (Blank.trim rest.dropLast)
    guard (length ≠ 0)
    let name := String.ofList (Blank.trim (cs.takeWhile (· ≠ '[')))
    return ⟨← Primitive.ofDialectName? name, some length⟩

end FieldType

structure Field extends FieldType where
  name : String
  deriving DecidableEq, Repr

inductive Slot
  | number (key : String) (type : Numeric)
  | text (key : String) (length : Nat)
  deriving DecidableEq, Repr

def Slot.key : Slot → String
  | .number key _ => key
  | .text key _ => key

def Slot.size : Slot → Nat
  | .number _ t => t.size
  | .text _ n => n

namespace Field

def scalar (name : String) (p : Primitive) : Field := ⟨⟨p, none⟩, name⟩

def array (name : String) (p : Primitive) (length : UInt8) : Field := ⟨⟨p, some length⟩, name⟩

def count (f : Field) : Nat := (f.arrayLength.map UInt8.toNat).getD 1

/-- Repeated fields unpack into numbered keys; an array of one element is read as a scalar. -/
def isRepeated (f : Field) : Bool := 1 < f.count

def wireSize (f : Field) : Nat := f.primitive.size * f.count

def slots (f : Field) : List Slot :=
  match f.primitive with
  | .char => [.text f.name f.count]
  | .number t =>
    if f.isRepeated then (List.range f.count).map fun i => .number (f.name ++ toString i) t
    else [.number f.name t]

end Field

end VehicleLink
