/-! Binary floating point by its words.  A finite number is a sign and a whole multiple of
the smallest positive number of its format, so all arithmetic here is on naturals. -/

namespace VehicleLink

/-- An interchange format: significand bits (the leading one included) and exponent bits. -/
structure Format where
  precision : Nat
  exponentBits : Nat
  deriving DecidableEq, Repr

inductive Datum
  | finite (negative : Bool) (magnitude : Nat)
  | infinite (negative : Bool)
  | nan (negative : Bool) (payload : Nat)
  deriving DecidableEq, Repr

namespace Format

def single : Format := ⟨24, 8⟩

def double : Format := ⟨53, 11⟩

def fractions (f : Format) : Nat := 1 <<< (f.precision - 1)

def topExponent (f : Format) : Nat := 1 <<< f.exponentBits - 1

/-- The word of positive infinity, which also tells the exponent field from the sign bit. -/
def infinityWord (f : Format) : Nat := f.topExponent * f.fractions

def signWord (f : Format) : Nat := f.fractions <<< f.exponentBits

/-- The smallest positive number is two to minus this. -/
def scale (f : Format) : Nat := 1 <<< (f.exponentBits - 1) - 3 + f.precision

def sign (f : Format) (word : Nat) : Bool := f.signWord ≤ word

def exponent (f : Format) (word : Nat) : Nat := word % f.signWord / f.fractions

def fraction (f : Format) (word : Nat) : Nat := word % f.fractions

def decode (f : Format) (word : Nat) : Datum :=
  let e := f.exponent word
  let m := f.fraction word
  if e = f.topExponent then
    if m = 0 then .infinite (f.sign word) else .nan (f.sign word) m
  else if e = 0 then .finite (f.sign word) m
  else .finite (f.sign word) ((f.fractions + m) <<< (e - 1))

def signed (f : Format) (negative : Bool) (word : Nat) : Nat :=
  if negative then f.signWord + word else word

def roundDiv (n d : Nat) : Nat :=
  let q := n / d
  let r := 2 * (n % d)
  if r < d then q else if r = d then q + q % 2 else q + 1

/-- The word nearest to `n` units of two to minus `below`, where a unit is the smallest
positive number; past the largest finite word it is infinity.  The exponent field and the
significand add up in one sum, so a significand that rounds up to a power of two carries
into the exponent. -/
def roundMagnitude (f : Format) (n below : Nat) : Nat :=
  let whole := n >>> below
  let e := if whole < 1 <<< f.precision then 0 else whole.log2 + 1 - f.precision
  min (e * f.fractions + roundDiv n (1 <<< (below + e))) f.infinityWord

def nanWord (f : Format) (payload : Nat) : Nat :=
  f.infinityWord + (payload % f.fractions ||| f.fractions / 2)

/-- A number of one format as a word of another: nearest, infinities kept, the leading bits
of a not-a-number's payload kept. -/
def convert (source target : Format) (word : Nat) : Nat :=
  match source.decode word with
  | .finite negative n =>
    target.signed negative
      (target.roundMagnitude (n <<< (target.scale - source.scale)) (source.scale - target.scale))
  | .infinite negative => target.signed negative target.infinityWord
  | .nan negative payload =>
    target.signed negative
      (target.nanWord
        (payload <<< (target.precision - source.precision) >>> (source.precision - target.precision)))

def ofInt (f : Format) (n : Int) : Nat :=
  f.signed (n < 0) (f.roundMagnitude (n.natAbs <<< f.scale) 0)

def truncate (f : Format) (word : Nat) : Option Int :=
  match f.decode word with
  | .finite negative n =>
    let whole : Int := ↑(n >>> f.scale)
    some (if negative then -whole else whole)
  | _ => none

end Format

structure Single where
  bits : UInt32
  deriving DecidableEq, Repr

structure Double where
  bits : UInt64
  deriving DecidableEq, Repr

namespace Single

def zero : Single := ⟨0⟩

def one : Single := ⟨0x3F800000⟩

def datum (x : Single) : Datum := Format.single.decode x.bits.toNat

def toDouble (x : Single) : Double :=
  ⟨UInt64.ofNat (Format.single.convert .double x.bits.toNat)⟩

def truncate (x : Single) : Option Int := Format.single.truncate x.bits.toNat

def ofInt (n : Int) : Single := ⟨UInt32.ofNat (Format.single.ofInt n)⟩

def ofNat (n : Nat) : Single := ofInt n

/-- Equality of the numbers: zeros of either sign are equal, a not-a-number equals nothing. -/
def same (x y : Single) : Bool :=
  match x.datum, y.datum with
  | .finite s m, .finite t n => m == n && (s == t || m == 0)
  | .infinite s, .infinite t => s == t
  | _, _ => false

end Single

namespace Double

def zero : Double := ⟨0⟩

def datum (x : Double) : Datum := Format.double.decode x.bits.toNat

def toSingle (x : Double) : Single :=
  ⟨UInt32.ofNat (Format.double.convert .single x.bits.toNat)⟩

def truncate (x : Double) : Option Int := Format.double.truncate x.bits.toNat

def ofInt (n : Int) : Double := ⟨UInt64.ofNat (Format.double.ofInt n)⟩

end Double

end VehicleLink
