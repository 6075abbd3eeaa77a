import VehicleLink.Proofs.Checksum

/-! The running checksum as a cyclic redundancy check.  Mixing bytes comes to the same as shifting
their bits through a register with a polynomial, and it does not matter in which pieces the bytes
are handed over. -/

namespace VehicleLink

structure Crc where
  polynomial : BitVec 16
  initial : BitVec 16
  /-- The low end of a byte goes in first, and the register is read backwards. -/
  reflected : Bool
  final : BitVec 16

namespace Crc

/-- The register moves up by one place.  The polynomial is added if the bit that leaves at the top
differs from the bit of the message. -/
def shift (a : Crc) (register : BitVec 16) (bit : Bool) : BitVec 16 :=
  (register <<< 1) ^^^ if register.msb ^^ bit then a.polynomial else 0

def bits (a : Crc) (b : UInt8) : List Bool :=
  let lowFirst := (List.range 8).map b.toBitVec.getLsbD
  if a.reflected then lowFirst else lowFirst.reverse

def ofBytes (a : Crc) (bytes : List UInt8) : BitVec 16 :=
  let register := (bytes.flatMap a.bits).foldl a.shift a.initial
  (if a.reflected then register.reverse else register) ^^^ a.final

def mcrf4xx : Crc := ⟨0x1021, 0xFFFF, true, 0⟩

end Crc

inductive Feed
  | byte (b : UInt8)
  | chunk (bytes : List UInt8)

def Feed.bytes : Feed → List UInt8
  | byte b => [b]
  | chunk bytes => bytes

namespace Checksum

def feed (c : Checksum) : Feed → Checksum
  | .byte b => c.absorbByte b
  | .chunk bytes => c.absorb bytes

def feedAll (c : Checksum) (feeds : List Feed) : Checksum := feeds.foldl feed c

theorem feedAll_eq_absorb (c : Checksum) (feeds : List Feed) :
    c.feedAll feeds = c.absorb (feeds.flatMap Feed.bytes) := by
  induction feeds generalizing c with
  | nil => rfl
  | cons f feeds ih =>
    have first : c.feed f = c.absorb f.bytes := by cases f <;> rfl
    rw [List.flatMap_cons, absorb_append, ← first, ← ih]
    rfl

def bitwise (bytes : List UInt8) : UInt16 :=
  bytes.foldl (fun x b => divide^[8] (x ^^^ b.toUInt16)) 0xFFFF

def takeBit (x : UInt16) (bit : Bool) : UInt16 := divide (x ^^^ bit.toUInt16)

section Mirror

theorem reverse_xor (x y : BitVec 16) : (x ^^^ y).reverse = x.reverse ^^^ y.reverse := by
  refine BitVec.eq_of_getLsbD_eq fun i _ => ?_
  simp only [BitVec.getLsbD_reverse, BitVec.getLsbD_xor, BitVec.getMsbD_xor]

theorem reverse_shiftLeft_one (x : BitVec 16) : (x <<< 1).reverse = x.reverse >>> 1 := by
  refine BitVec.eq_of_getLsbD_eq fun i _ => ?_
  simp [BitVec.getLsbD_reverse, BitVec.getMsbD_shiftLeft, Nat.add_comm]

theorem lowBit_eq (x : UInt16) : x &&& 1 = (x.toBitVec.getLsbD 0).toUInt16 := by
  apply UInt16.eq_of_toBitVec_eq
  rw [UInt16.toBitVec_and]
  refine BitVec.and_one_eq_setWidth_ofBool_getLsbD.trans ?_
  cases x.toBitVec.getLsbD 0 <;> rfl

theorem takeBit_eq (x : UInt16) (bit : Bool) :
    takeBit x bit = (x >>> 1) ^^^ if x.toBitVec.getLsbD 0 ^^ bit then 0x8408 else 0 := by
  rw [takeBit, divide_xor, divide, lowBit_eq, UInt16.xor_assoc]
  cases x.toBitVec.getLsbD 0 <;> cases bit <;> rfl

theorem reverse_shift (register : BitVec 16) (bit : Bool) :
    (Crc.mcrf4xx.shift register bit).reverse = (takeBit ⟨register.reverse⟩ bit).toBitVec := by
  have bottom : register.reverse.getLsbD 0 = register.msb := BitVec.getLsbD_reverse
  have mirrored (b : Bool) : (if b then Crc.mcrf4xx.polynomial else 0).reverse =
      (if b then 0x8408 else 0 : UInt16).toBitVec := by
    cases b <;> decide +kernel
  rw [Crc.shift, reverse_xor, reverse_shiftLeft_one, mirrored, takeBit_eq, bottom]
  rfl

theorem reverse_foldl_shift (register : BitVec 16) (bits : List Bool) :
    (bits.foldl Crc.mcrf4xx.shift register).reverse =
      (bits.foldl takeBit ⟨register.reverse⟩).toBitVec := by
  induction bits generalizing register with
  | nil => rfl
  | cons bit bits ih =>
    rw [List.foldl_cons, ih, reverse_shift]
    rfl

end Mirror

section Bytes

theorem foldl_takeBit (x : UInt16) (bits : List Bool) :
    bits.foldl takeBit x = divide^[bits.length] x ^^^ bits.foldl takeBit 0 := by
  induction bits generalizing x with
  | nil => exact UInt16.xor_zero.symm
  | cons bit bits ih =>
    have first : takeBit x bit = divide x ^^^ takeBit 0 bit := by
      rw [takeBit, takeBit, UInt16.zero_xor, divide_xor]
    rw [List.foldl_cons, List.foldl_cons, ih, ih (takeBit 0 bit), first, iterate_divide_xor,
      List.length_cons, Function.iterate_succ_apply, UInt16.xor_assoc]

theorem foldl_bits_zero : ∀ b, (Crc.mcrf4xx.bits b).foldl takeBit 0 = divide^[8] b.toUInt16 :=
  forall_byte (by decide +kernel)

theorem foldl_bits (x : UInt16) (b : UInt8) :
    (Crc.mcrf4xx.bits b).foldl takeBit x = divide^[8] (x ^^^ b.toUInt16) := by
  have eight : (Crc.mcrf4xx.bits b).length = 8 := rfl
  rw [foldl_takeBit, eight, foldl_bits_zero, iterate_divide_xor]

theorem foldl_flatMap_bits (x : UInt16) (bytes : List UInt8) :
    (bytes.flatMap Crc.mcrf4xx.bits).foldl takeBit x =
      bytes.foldl (fun x b => divide^[8] (x ^^^ b.toUInt16)) x := by
  simp only [List.foldl_flatMap, foldl_bits]

theorem ofBytes_mcrf4xx (bytes : List UInt8) :
    Crc.mcrf4xx.ofBytes bytes = (bitwise bytes).toBitVec := by
  have initial : (⟨Crc.mcrf4xx.initial.reverse⟩ : UInt16) = 0xFFFF := by decide +kernel
  rw [Crc.ofBytes, bitwise, ← foldl_flatMap_bits, ← initial, ← reverse_foldl_shift]
  exact BitVec.xor_zero

end Bytes

theorem value_absorb_start (bytes : List UInt8) : (start.absorb bytes).value = bitwise bytes :=
  value_absorb_eq_divide start bytes

/-- In whatever pieces bytes are fed to a running checksum, it is that of all of them mixed in one
after another.  This is the check with the mirrored polynomial, taken bit by bit, and the one that
catalogues list under the polynomial itself.  A frame's checksum is that of its body with the seed
behind it. -/
theorem value_feedAll (feeds : List Feed) :
    let bytes := feeds.flatMap Feed.bytes
    (start.feedAll feeds).value = (start.absorb bytes).value
      ∧ (start.feedAll feeds).value = bitwise bytes
      ∧ (start.feedAll feeds).value.toBitVec = Crc.mcrf4xx.ofBytes bytes
      ∧ ∀ body seed, ofBody body seed = (start.feedAll [.chunk body, .byte seed]).value
        ∧ ofBody body seed = (start.absorb (body ++ [seed])).value := by
  intro bytes
  have fed : (start.feedAll feeds).value = (start.absorb bytes).value :=
    congrArg value (feedAll_eq_absorb start feeds)
  have checked := fed.trans (value_absorb_start bytes)
  refine ⟨fed, checked, ?_, fun body seed => ⟨rfl, ?_⟩⟩
  · rw [checked, ofBytes_mcrf4xx]
  · rw [absorb_append]
    rfl

example : Crc.mcrf4xx.ofBytes [49, 50, 51, 52, 53, 54, 55, 56, 57] = 0x6F91 := by decide +kernel

end Checksum

end VehicleLink
