namespace VehicleLink

inductive IntType
  | u8 | i8 | u16 | i16 | u32 | i32 | u64 | i64
  deriving DecidableEq, Repr

namespace IntType

def size : IntType → Nat
  | .u8 | .i8 => 1
  | .u16 | .i16 => 2
  | .u32 | .i32 => 4
  | .u64 | .i64 => 8

def isSigned : IntType → Bool
  | .u8 | .u16 | .u32 | .u64 => false
  | .i8 | .i16 | .i32 | .i64 => true

def modulus : IntType → Nat
  | .u8 | .i8 => UInt8.size
  | .u16 | .i16 => UInt16.size
  | .u32 | .i32 => UInt32.size
  | .u64 | .i64 => UInt64.size

def least (t : IntType) : Int := if t.isSigned then -(t.modulus / 2) else 0

def greatest (t : IntType) : Int :=
  if t.isSigned then t.modulus / 2 - 1 else t.modulus - 1

def Holds (t : IntType) (n : Int) : Prop := t.least ≤ n ∧ n ≤ t.greatest

instance (t : IntType) (n : Int) : Decidable (t.Holds n) :=
  inferInstanceAs (Decidable (_ ∧ _))

def ofWord (t : IntType) (word : Nat) : Int :=
  if t.isSigned then (word : Int).bmod t.modulus else (word : Int) % t.modulus

def toWord (t : IntType) (n : Int) : Nat := (n % t.modulus).toNat

theorem holds_zero (t : IntType) : t.Holds 0 := by cases t <;> decide

theorem holds_ofWord (t : IntType) (word : Nat) : t.Holds (t.ofWord word) := by
  cases t <;>
    simp only [Holds, least, greatest, ofWord, isSigned, modulus, Int.bmod_def] <;>
    simp <;> omega

end IntType

inductive Numeric
  | int (t : IntType)
  | single
  | double
  deriving DecidableEq, Repr

def Numeric.size : Numeric → Nat
  | .int t => t.size
  | .single => 4
  | .double => 8

inductive Primitive
  | number (t : Numeric)
  | char
  deriving DecidableEq, Repr

namespace Primitive

@[match_pattern] abbrev u8 : Primitive := .number (.int .u8)

@[match_pattern] abbrev i8 : Primitive := .number (.int .i8)

@[match_pattern] abbrev u16 : Primitive := .number (.int .u16)

@[match_pattern] abbrev i16 : Primitive := .number (.int .i16)

@[match_pattern] abbrev u32 : Primitive := .number (.int .u32)

@[match_pattern] abbrev i32 : Primitive := .number (.int .i32)

@[match_pattern] abbrev u64 : Primitive := .number (.int .u64)

@[match_pattern] abbrev i64 : Primitive := .number (.int .i64)

@[match_pattern] abbrev single : Primitive := .number .single

@[match_pattern] abbrev double : Primitive := .number .double

def size : Primitive → Nat
  | .number t => t.size
  | .char => 1

def dialectName : Primitive → String
  | .u8 => "uint8_t"
  | .i8 => "int8_t"
  | .u16 => "uint16_t"
  | .i16 => "int16_t"
  | .u32 => "uint32_t"
  | .i32 => "int32_t"
  | .u64 => "uint64_t"
  | .i64 => "int64_t"
  | .single => "float"
  | .double => "double"
  | .char => "char"

/-- The version byte has a type name of its own and is otherwise a plain byte. -/
def ofDialectName? : String → Option Primitive
  | "uint8_t" | "uint8_t_mavlink_version" => some .u8
  | "int8_t" => some .i8
  | "uint16_t" => some .u16
  | "int16_t" => some .i16
  | "uint32_t" => some .u32
  | "int32_t" => some .i32
  | "uint64_t" => some .u64
  | "int64_t" => some .i64
  | "float" => some .single
  | "double" => some .double
  | "char" => some .char
  | _ => none

@[simp] theorem ofDialectName?_dialectName (p : Primitive) :
    ofDialectName? p.dialectName = some p := by
  rcases p with (_ | _ | _) | _
  case number.int t => cases t <;> rfl
  all_goals rfl

end Primitive

end VehicleLink
