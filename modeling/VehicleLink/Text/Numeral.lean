namespace VehicleLink.Numeral

def isDigit (c : Char) : Bool := '0' ≤ c && c ≤ '9'

def digit (c : Char) : Nat := c.toNat - '0'.toNat

def value (ds : List Char) : Nat := ds.foldl (fun n c => 10 * n + digit c) 0

def digits? (cs : List Char) : Option Nat :=
  if cs ≠ [] ∧ cs.all isDigit then some (value cs) else none

def unsigned? : List Char → Option Nat
  | '+' :: cs => digits? cs
  | cs => digits? cs

def byte? (cs : List Char) : Option UInt8 := do
  let n ← unsigned? cs
  if n < 256 then some (UInt8.ofNat n) else none

end VehicleLink.Numeral
