import VehicleLink.LittleEndian
import VehicleLink.Number.Notation
import VehicleLink.Schema.Primitive
import VehicleLink.Text.Utf8

namespace VehicleLink

structure Integer where
  type : IntType
  value : Int
  inRange : type.Holds value
  deriving DecidableEq

inductive Value
  | int (n : Integer)
  | single (x : Single)
  | double (x : Double)
  | text (bytes : List UInt8)
  deriving DecidableEq

namespace IntType

def name : IntType → String
  | .u8 => "U8"
  | .i8 => "I8"
  | .u16 => "U16"
  | .i16 => "I16"
  | .u32 => "U32"
  | .i32 => "I32"
  | .u64 => "U64"
  | .i64 => "I64"

def read (t : IntType) (word : Nat) : Integer := ⟨t, t.ofWord word, t.holds_ofWord word⟩

def zero (t : IntType) : Integer := ⟨t, 0, t.holds_zero⟩

end IntType

namespace Value

def u8 (n : UInt8) : Value := .int (IntType.u8.read n.toNat)

def u16 (n : UInt16) : Value := .int (IntType.u16.read n.toNat)

def i16 (word : UInt16) : Value := .int (IntType.i16.read word.toNat)

def ofString (s : String) : Value := .text (Utf8.encode s)

def zero : Primitive → Value
  | .number (.int t) => .int t.zero
  | .number .single => .single .zero
  | .number .double => .double .zero
  | .char => .text []

def toDouble? : Value → Option Double
  | .int n => some (.ofInt n.value)
  | .single x => some x.toDouble
  | .double x => some x
  | .text _ => none

/-- The widest integers have 128 bits; what lies beyond counts as the last of them. -/
def clamp (n : Int) : Int :=
  max (-0x80000000000000000000000000000000) (min n 0x7FFFFFFFFFFFFFFFFFFFFFFFFFFFFFFF)

def toInt? : Value → Option Int
  | .int n => some n.value
  | .single x => x.truncate.map clamp
  | .double x => x.truncate.map clamp
  | .text _ => none

def toNatural? (v : Value) : Option UInt64 := do
  let n ← v.toInt?
  if IntType.u64.Holds n then some (UInt64.ofNat n.toNat) else none

def bytes? : Value → Option (List UInt8)
  | .text bytes => some bytes
  | _ => none

def trimmed? (v : Value) : Option String :=
  v.bytes?.map fun bytes => Utf8.decodeLossy (bytes.takeWhile (· ≠ 0))

def debug : Value → String
  | .int n => n.type.name ++ "(" ++ toString n.value ++ ")"
  | .single x => "F32(" ++ x.debug ++ ")"
  | .double x => "F64(" ++ x.debug ++ ")"
  | .text bytes => "Text([" ++ ", ".intercalate (bytes.map toString) ++ "])"

end Value

namespace Numeric

def decode (t : Numeric) (bytes : List UInt8) : Value :=
  let word := LittleEndian.decode bytes
  match t with
  | .int t => .int (t.read word)
  | .single => .single ⟨UInt32.ofNat word⟩
  | .double => .double ⟨UInt64.ofNat word⟩

def encode? (t : Numeric) (v : Value) : Option (List UInt8) :=
  match t with
  | .int t => do
    let n ← v.toInt?
    if t.Holds n then some (LittleEndian.encode t.size (t.toWord n)) else none
  | .single =>
    match v with
    | .single x => some (LittleEndian.encode 4 x.bits.toNat)
    | v => v.toDouble?.map fun x => LittleEndian.encode 4 x.toSingle.bits.toNat
  | .double => v.toDouble?.map fun x => LittleEndian.encode 8 x.bits.toNat

end Numeric

end VehicleLink
