import Mathlib.Algebra.Order.Ring.Int
import VehicleLink.LittleEndian
import VehicleLink.Value

namespace VehicleLink

namespace LittleEndian

theorem decode_lt (bytes : List UInt8) : decode bytes < 256 ^ bytes.length := by
  induction bytes with
  | nil => simp [decode]
  | cons b bytes ih =>
    have := b.toNat_lt
    simp only [decode, List.length_cons, Nat.pow_succ]
    omega

theorem decode_encode (width n : Nat) : decode (encode width n) = n % 256 ^ width := by
  induction width generalizing n with
  | zero => simp [encode, decode, Nat.mod_one]
  | succ width ih =>
    have byte : (UInt8.ofNat n).toNat = n % 256 := by simp
    rw [encode, decode, ih, byte, Nat.pow_succ, Nat.mul_comm (256 ^ width) 256, Nat.mod_mul]

theorem encode_decode (bytes : List UInt8) : encode bytes.length (decode bytes) = bytes := by
  induction bytes with
  | nil => rfl
  | cons b bytes ih =>
    have hb := b.toNat_lt
    have hd : (b.toNat + 256 * decode bytes) / 256 = decode bytes := by omega
    simp only [List.length_cons, encode, decode, hd, ih]
    congr 1
    apply UInt8.toNat_inj.mp
    simp only [UInt8.toNat_ofNat']
    omega

end LittleEndian

namespace IntType

variable {t : IntType} {n : Int}

theorem modulus_eq (t : IntType) : t.modulus = 256 ^ t.size := by
  cases t <;> rfl

theorem toWord_lt (t : IntType) (n : Int) : t.toWord n < t.modulus := by
  have positive : (0 : Int) < t.modulus := by cases t <;> decide
  have := Int.emod_lt_of_pos n positive
  rw [toWord]
  omega

theorem ofWord_toWord (h : t.Holds n) : t.ofWord (t.toWord n) = n := by
  cases t <;>
    simp only [Holds, least, greatest, ofWord, toWord, isSigned, modulus, Int.bmod_def] at h ⊢ <;>
    simp at h ⊢ <;> omega

theorem Holds.bounded (h : t.Holds n) : -2 ^ 127 < n ∧ n < 2 ^ 127 - 1 := by
  cases t <;> simp only [Holds, least, greatest, isSigned, modulus] at h <;>
    simp at h <;> omega

end IntType

theorem Numeric.decode_int {t : IntType} {n : Int} (h : t.Holds n) :
    (Numeric.int t).decode (LittleEndian.encode t.size (t.toWord n)) = .int ⟨t, n, h⟩ := by
  have bound : t.toWord n < 256 ^ t.size := t.modulus_eq ▸ t.toWord_lt n
  rw [decode, LittleEndian.decode_encode, Nat.mod_eq_of_lt bound]
  simp [IntType.read, IntType.ofWord_toWord h]

theorem Numeric.decode_single (x : Single) :
    Numeric.single.decode (LittleEndian.encode 4 x.bits.toNat) = .single x := by
  have bound : x.bits.toNat < 256 ^ 4 := x.bits.toNat_lt
  rw [decode, LittleEndian.decode_encode, Nat.mod_eq_of_lt bound, UInt32.ofNat_toNat]

theorem Numeric.decode_double (x : Double) :
    Numeric.double.decode (LittleEndian.encode 8 x.bits.toNat) = .double x := by
  have bound : x.bits.toNat < 256 ^ 8 := x.bits.toNat_lt
  rw [decode, LittleEndian.decode_encode, Nat.mod_eq_of_lt bound, UInt64.ofNat_toNat]

theorem Numeric.length_of_encode? {t : Numeric} {v : Value} {bytes : List UInt8}
    (h : t.encode? v = some bytes) : bytes.length = t.size := by
  cases t with
  | int t =>
    simp only [encode?, bind, Option.bind_eq_some_iff] at h
    obtain ⟨n, -, h⟩ := h
    split at h
    · cases h
      exact LittleEndian.length_encode _ _
    · cases h
  | single =>
    simp only [encode?] at h
    split at h
    · cases h
      rfl
    · obtain ⟨x, -, rfl⟩ := Option.map_eq_some_iff.mp h
      rfl
  | double =>
    obtain ⟨x, -, rfl⟩ := Option.map_eq_some_iff.mp h
    rfl

end VehicleLink
