namespace VehicleLink

structure Checksum where
  value : UInt16
  deriving DecidableEq, Repr

namespace Checksum

def start : Checksum := ⟨0xFFFF⟩

def absorbByte (c : Checksum) (b : UInt8) : Checksum :=
  let t := b ^^^ c.value.toUInt8
  let t := (t ^^^ (t <<< 4)).toUInt16
  ⟨(c.value >>> 8) ^^^ (t <<< 8) ^^^ (t <<< 3) ^^^ (t >>> 4)⟩

def absorb (c : Checksum) (bytes : List UInt8) : Checksum := bytes.foldl absorbByte c

@[simp] theorem absorb_nil (c : Checksum) : c.absorb [] = c := rfl

@[simp] theorem absorb_cons (c : Checksum) (b : UInt8) (bytes : List UInt8) :
    c.absorb (b :: bytes) = (c.absorbByte b).absorb bytes := rfl

theorem absorb_append (c : Checksum) (xs ys : List UInt8) :
    c.absorb (xs ++ ys) = (c.absorb xs).absorb ys :=
  List.foldl_append

def ofBody (body : List UInt8) (seed : UInt8) : UInt16 :=
  ((start.absorb body).absorbByte seed).value

end Checksum

end VehicleLink
