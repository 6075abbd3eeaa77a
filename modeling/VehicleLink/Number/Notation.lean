import VehicleLink.Number.Shortest

/-! Two written forms of floating-point numbers, both with the shortest digits that read
back: `plain` never has an exponent, `debug` always shows a fraction or an exponent. -/

namespace VehicleLink.Notation

def significant (n : Nat) : List Char :=
  ((Nat.toDigits 10 n).reverse.dropWhile (· == '0')).reverse

structure Placed where
  digits : List Char
  point : Int
  deriving DecidableEq

def place (d : Shortest.Decimal) : Placed :=
  ⟨significant d.digits, ((Nat.toDigits 10 d.digits).length : Int) + d.exponent⟩

def Placed.plain (p : Placed) : String :=
  let n := p.digits.length
  if p.point ≤ 0 then
    String.ofList ("0.".toList ++ List.replicate (-p.point).toNat '0' ++ p.digits)
  else if p.point.toNat < n then
    String.ofList (p.digits.take p.point.toNat ++ '.' :: p.digits.drop p.point.toNat)
  else String.ofList (p.digits ++ List.replicate (p.point.toNat - n) '0')

def Placed.scientific (p : Placed) : String :=
  let mantissa := match p.digits with
    | [] => []
    | [d] => [d]
    | d :: rest => d :: '.' :: rest
  String.ofList mantissa ++ "e" ++ toString (p.point - 1)

/-- Numbers of `10^16` and more and numbers below `10^-4` get an exponent, all others at
least one digit after the point. -/
def Placed.debug (p : Placed) : String :=
  if p.point ≤ -4 ∨ 17 ≤ p.point then p.scientific
  else if p.digits.length ≤ p.point then p.plain ++ ".0"
  else p.plain

def written (f : Format) (zero : String) (form : Placed → String) (word : Nat) : String :=
  match f.decode word with
  | .nan _ _ => "NaN"
  | .infinite negative => if negative then "-inf" else "inf"
  | .finite negative n =>
    let body := if n = 0 then zero else form (place (Shortest.ofWord f (word % f.signWord)))
    if negative then "-" ++ body else body

end VehicleLink.Notation

namespace VehicleLink

namespace Single

def plain (x : Single) : String :=
  Notation.written .single "0" Notation.Placed.plain x.bits.toNat

def debug (x : Single) : String :=
  Notation.written .single "0.0" Notation.Placed.debug x.bits.toNat

end Single

namespace Double

def debug (x : Double) : String :=
  Notation.written .double "0.0" Notation.Placed.debug x.bits.toNat

end Double

end VehicleLink
