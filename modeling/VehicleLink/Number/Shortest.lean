import VehicleLink.Number.Binary

namespace VehicleLink.Shortest

structure Decimal where
  digits : Nat
  exponent : Int
  deriving DecidableEq, Repr

/-- A positive number with the interval of reals that round to it, all over one
denominator. -/
structure Target where
  value : Nat
  low : Nat
  high : Nat
  denominator : Nat
  closed : Bool
  deriving DecidableEq

/-- The interval reaches half-way to both neighbours; the lower neighbour of a power of two
is at half the distance of the upper one.  Its ends round to the number itself when the
significand is even. -/
def Target.ofWord (f : Format) (word : Nat) : Target :=
  let e := f.exponent word
  let m := f.fraction word
  let step := 1 <<< (e - 1)
  let n := if e = 0 then m else (f.fractions + m) * step
  let below := if m = 0 ∧ 1 < e then step else 2 * step
  ⟨4 * n, 4 * n - below, 4 * n + 2 * step, 4 <<< f.scale, m % 2 == 0⟩

def Target.shift (t : Target) (k : Int) : Target :=
  let up := Nat.pow 10 k.toNat
  { t with
    value := t.value * up
    low := t.low * up
    high := t.high * up
    denominator := t.denominator * Nat.pow 10 (-k).toNat }

def Target.contains (t : Target) (n : Nat) : Bool :=
  let n := n * t.denominator
  if t.closed then t.low ≤ n && n ≤ t.high else t.low < n && n < t.high

/-- The whole number that reads back, if one of the two around the value does: the nearer
of them, and the upper one when both are as near. -/
def Target.whole? (t : Target) : Option Nat :=
  let n := t.value / t.denominator
  let r := t.value % t.denominator
  match t.contains n, t.contains (n + 1) with
  | true, true => some (if 2 * r < t.denominator then n else n + 1)
  | true, false => some n
  | false, true => some (n + 1)
  | false, false => none

def Target.magnitude (t : Target) : Int :=
  let pad := t.denominator.log2 + 1
  ((Nat.toDigits 10 (t.value * Nat.pow 10 pad / t.denominator)).length : Int) - pad

def search (t : Target) (magnitude : Int) : Nat → Nat → Decimal
  | _, 0 => ⟨0, 0⟩
  | count, fuel + 1 =>
    let k := magnitude - (count : Int)
    match (t.shift (-k)).whole? with
    | some n => ⟨n, k⟩
    | none => search t magnitude (count + 1) fuel

def ofWord (f : Format) (word : Nat) : Decimal :=
  let t := Target.ofWord f word
  search t t.magnitude 1 17

end VehicleLink.Shortest
