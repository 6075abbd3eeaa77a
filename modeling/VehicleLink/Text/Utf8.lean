namespace VehicleLink.Utf8

def encode (text : String) : List UInt8 := text.toList.flatMap String.utf8EncodeChar

/-- A character under way: how many bytes it still needs, the range the next one must lie
in, and the bits read so far. -/
structure Partial where
  owed : Nat
  low : Nat
  high : Nat
  bits : Nat
  deriving DecidableEq

inductive Lead
  | whole (c : Char)
  | opens (p : Partial)
  | invalid
  deriving DecidableEq

/-- What a byte between characters begins.  The narrower ranges keep out overlong forms,
surrogates, and code points past the last one. -/
def lead (b : Nat) : Lead :=
  if b < 0x80 then .whole (Char.ofNat b)
  else if b < 0xC2 then .invalid
  else if b < 0xE0 then .opens ⟨1, 0x80, 0xBF, b % 32⟩
  else if b = 0xE0 then .opens ⟨2, 0xA0, 0xBF, 0⟩
  else if b = 0xED then .opens ⟨2, 0x80, 0x9F, 13⟩
  else if b < 0xF0 then .opens ⟨2, 0x80, 0xBF, b % 16⟩
  else if b = 0xF0 then .opens ⟨3, 0x90, 0xBF, 0⟩
  else if b < 0xF4 then .opens ⟨3, 0x80, 0xBF, b % 8⟩
  else if b = 0xF4 then .opens ⟨3, 0x80, 0x8F, 4⟩
  else .invalid

/-- The characters of a byte string, `none` for each gap; the state is the character under
way, if any. -/
def scanFrom : Option Partial → List UInt8 → List (Option Char)
  | none, [] => []
  | some _, [] => [none]
  | none, b :: bytes =>
    match lead b.toNat with
    | .whole c => some c :: scanFrom none bytes
    | .opens p => scanFrom (some p) bytes
    | .invalid => none :: scanFrom none bytes
  | some p, b :: bytes =>
    if p.low ≤ b.toNat ∧ b.toNat ≤ p.high then
      let bits := p.bits * 64 + b.toNat % 64
      if p.owed ≤ 1 then some (Char.ofNat bits) :: scanFrom none bytes
      else scanFrom (some ⟨p.owed - 1, 0x80, 0xBF, bits⟩) bytes
    else
      match lead b.toNat with
      | .whole c => none :: some c :: scanFrom none bytes
      | .opens p => none :: scanFrom (some p) bytes
      | .invalid => none :: none :: scanFrom none bytes

def scan (bytes : List UInt8) : List (Option Char) := scanFrom none bytes

def decodeLossy (bytes : List UInt8) : String :=
  String.ofList ((scan bytes).map (·.getD '\uFFFD'))

def decode? (bytes : List UInt8) : Option String :=
  ((scan bytes).mapM id).map String.ofList

end VehicleLink.Utf8
