import Mathlib.Logic.Function.Iterate
import VehicleLink.Checksum

/-! The running checksum is the remainder of a polynomial division, taken a byte at a time.  A
byte step loses nothing of the state, and two steps lose nothing of their bytes, so a checksum
tells byte strings apart that differ in two adjacent places only. -/

namespace VehicleLink

/-- Byte strings of one length that differ at two adjacent places at most, the first of which
is `k`. -/
structure Near (k : Nat) (xs ys : List UInt8) : Prop where
  length : xs.length = ys.length
  places : ∀ i, xs[i]? ≠ ys[i]? → i = k ∨ i = k + 1

theorem Near.head {k : Nat} {x y : UInt8} {xs ys : List UInt8}
    (h : Near (k + 1) (x :: xs) (y :: ys)) : x = y := by
  by_contra differ
  have := h.places 0 (by simpa using differ)
  omega

theorem Near.tail {k : Nat} {x y : UInt8} {xs ys : List UInt8}
    (h : Near k (x :: xs) (y :: ys)) : Near (k - 1) xs ys where
  length := Nat.succ.inj h.length
  places i differ := by
    have := h.places (i + 1) (by simpa using differ)
    omega

theorem Near.left {k : Nat} {xs ys xs' ys' : List UInt8} (h : Near k (xs ++ xs') (ys ++ ys'))
    (length : xs.length = ys.length) : Near k xs ys where
  length := length
  places i differ := by
    by_cases inside : i < xs.length
    · refine h.places i ?_
      rwa [List.getElem?_append_left inside, List.getElem?_append_left (length ▸ inside)]
    · rw [List.getElem?_eq_none (by omega), List.getElem?_eq_none (by omega)] at differ
      exact absurd rfl differ

theorem Near.behind {x x' y y' : UInt8} {xs ys : List UInt8}
    (h : Near 0 (x :: x' :: xs) (y :: y' :: ys)) : xs = ys := by
  refine List.ext_getElem? fun i => ?_
  by_contra differ
  have := h.places (i + 2) (by simpa using differ)
  omega

namespace Checksum

def low (c : Checksum) : UInt8 := c.value.toUInt8

def high (c : Checksum) : UInt8 := (c.value >>> 8).toUInt8

def spread (b : UInt8) : UInt16 :=
  let t := (b ^^^ (b <<< 4)).toUInt16
  (t <<< 8) ^^^ (t <<< 3) ^^^ (t >>> 4)

def gather (b : UInt8) : UInt8 :=
  let t := b ^^^ (b >>> 5)
  t ^^^ (t <<< 4)

theorem forall_byte {P : UInt8 → Prop} (h : ∀ n < 256, P (.ofNat n)) (b : UInt8) : P b :=
  UInt8.ofNat_toNat (x := b) ▸ h b.toNat b.toNat_lt

theorem gather_spread : ∀ b, gather (spread b >>> 8).toUInt8 = b :=
  forall_byte (by decide +kernel)

section Halves

variable {c c' : Checksum}

theorem value_eq (c : Checksum) : c.value = (c.high.toUInt16 <<< 8) ^^^ c.low.toUInt16 := by
  have halves : c.value.toBitVec =
      (((c.value.toBitVec >>> 8).setWidth 8).setWidth 16 <<< 8) ^^^
        (c.value.toBitVec.setWidth 8).setWidth 16 := by
    refine BitVec.eq_of_getLsbD_eq fun i bound => ?_
    by_cases isLow : i < 8
    · simp [bound, isLow]
    · obtain ⟨j, rfl⟩ := Nat.exists_eq_add_of_le (Nat.le_of_not_lt isLow)
      have inHigh : j < 8 := by omega
      simp [bound, inHigh]
  exact UInt16.eq_of_toBitVec_eq halves

theorem shiftRight_value (c : Checksum) : c.value >>> 8 = c.high.toUInt16 := by
  apply UInt16.toNat_inj.mp
  have := c.value.toNat_lt
  simp only [high, UInt16.toNat_shiftRight, UInt8.toNat_toUInt16, UInt16.toNat_toUInt8]
  simp [Nat.shiftRight_eq_div_pow]
  omega

theorem eq_of_halves (low : c.low = c'.low) (high : c.high = c'.high) : c = c' := by
  have same : c.value = c'.value := by rw [value_eq, value_eq, low, high]
  exact congrArg Checksum.mk same

end Halves

theorem value_absorbByte (c : Checksum) (b : UInt8) :
    (c.absorbByte b).value = c.high.toUInt16 ^^^ spread (b ^^^ c.low) := by
  simp only [absorbByte, spread, low, ← shiftRight_value, UInt16.xor_assoc]

section Division

/-- One bit of a division by the polynomial, the least significant bit first. -/
def divide (x : UInt16) : UInt16 := (x >>> 1) ^^^ ((x &&& 1) * 0x8408)

theorem lowBit_xor (x y : UInt16) : (x ^^^ y) &&& 1 = (x &&& 1) ^^^ (y &&& 1) := by
  apply UInt16.eq_of_toBitVec_eq
  simp only [UInt16.toBitVec_and, UInt16.toBitVec_xor]
  ext i bound
  simp only [BitVec.getElem_and, BitVec.getElem_xor, Bool.and_xor_distrib_right]

theorem lowBit_cases (x : UInt16) : x &&& 1 = 0 ∨ x &&& 1 = 1 := by
  have bit := Nat.mod_two_eq_zero_or_one x.toNat
  simp only [← UInt16.toNat_inj, UInt16.toNat_and, UInt16.toNat_one, Nat.and_one_is_mod]
  exact bit

theorem divide_xor (x y : UInt16) : divide (x ^^^ y) = divide x ^^^ divide y := by
  have product :
      ((x &&& 1) ^^^ (y &&& 1)) * 0x8408 = (x &&& 1) * 0x8408 ^^^ (y &&& 1) * 0x8408 := by
    obtain hx | hx := lowBit_cases x <;> obtain hy | hy := lowBit_cases y <;> rw [hx, hy] <;> rfl
  simp only [divide, UInt16.shiftRight_xor, lowBit_xor, product]
  ac_rfl

theorem iterate_divide_xor (n : Nat) (x y : UInt16) :
    divide^[n] (x ^^^ y) = divide^[n] x ^^^ divide^[n] y := by
  induction n generalizing x y with
  | zero => rfl
  | succ n ih => rw [Function.iterate_succ_apply, divide_xor, ih]; rfl

theorem divide_low : ∀ b : UInt8, divide^[8] b.toUInt16 = spread b :=
  forall_byte (by decide +kernel)

theorem divide_high : ∀ b : UInt8, divide^[8] (b.toUInt16 <<< 8) = b.toUInt16 :=
  forall_byte (by decide +kernel)

theorem value_absorbByte_eq_divide (c : Checksum) (b : UInt8) :
    (c.absorbByte b).value = divide^[8] (c.value ^^^ b.toUInt16) := by
  have mixed : c.value ^^^ b.toUInt16 = (c.high.toUInt16 <<< 8) ^^^ (b ^^^ c.low).toUInt16 := by
    rw [value_eq, UInt8.toUInt16_xor]
    ac_rfl
  rw [mixed, iterate_divide_xor, divide_high, divide_low, value_absorbByte]

theorem value_absorb_eq_divide (c : Checksum) (bytes : List UInt8) :
    (c.absorb bytes).value = bytes.foldl (fun x b => divide^[8] (x ^^^ b.toUInt16)) c.value := by
  induction bytes generalizing c with
  | nil => rfl
  | cons b bytes ih => rw [absorb_cons, ih, value_absorbByte_eq_divide, List.foldl_cons]

end Division

section Injectivity

variable {c c' : Checksum} {a a' b b' seed : UInt8} {xs ys : List UInt8}

theorem high_absorbByte (c : Checksum) (b : UInt8) :
    (c.absorbByte b).high = (spread (b ^^^ c.low) >>> 8).toUInt8 := by
  have gone : ∀ b : UInt8, b.toUInt16 >>> 8 = 0 := forall_byte (by decide +kernel)
  rw [high, value_absorbByte, UInt16.shiftRight_xor, gone, UInt16.zero_xor]

theorem mixed_of_high (h : (c.absorbByte b).high = (c'.absorbByte b').high) :
    b ^^^ c.low = b' ^^^ c'.low := by
  rw [high_absorbByte, high_absorbByte] at h
  rw [← gather_spread (b ^^^ c.low), h, gather_spread]

theorem halves_of_absorbByte (h : c.absorbByte b = c'.absorbByte b') :
    b ^^^ c.low = b' ^^^ c'.low ∧ c.high = c'.high := by
  have mixed := mixed_of_high (congrArg high h)
  refine ⟨mixed, ?_⟩
  have values := congrArg value h
  rw [value_absorbByte, value_absorbByte, mixed, UInt16.xor_left_inj] at values
  simpa using congrArg UInt16.toUInt8 values

theorem state_of_absorbByte (h : c.absorbByte b = c'.absorbByte b) : c = c' := by
  obtain ⟨mixed, high⟩ := halves_of_absorbByte h
  exact eq_of_halves ((UInt8.xor_right_inj _).mp mixed) high

theorem byte_of_absorbByte (h : c.absorbByte b = c.absorbByte b') : b = b' :=
  (UInt8.xor_left_inj _).mp (halves_of_absorbByte h).1

theorem pair_of_absorb (h : (c.absorbByte a).absorbByte b = (c.absorbByte a').absorbByte b') :
    a = a' ∧ b = b' := by
  -- The high half of the state in between tells the first byte.
  have first : a = a' := (UInt8.xor_left_inj _).mp (mixed_of_high (halves_of_absorbByte h).2)
  subst first
  exact ⟨rfl, byte_of_absorbByte h⟩

theorem state_of_absorb (h : c.absorb xs = c'.absorb xs) : c = c' := by
  induction xs generalizing c c' with
  | nil => exact h
  | cons b bytes ih => exact state_of_absorbByte (ih h)

theorem eq_of_absorb {k : Nat} (near : Near k xs ys) (h : c.absorb xs = c.absorb ys) :
    xs = ys := by
  induction xs generalizing c k ys with
  | nil => exact (List.length_eq_zero_iff.mp near.length.symm).symm
  | cons x xs ih =>
    cases ys with
    | nil => cases near.length
    | cons y ys =>
      cases k with
      | succ k =>
        obtain rfl := near.head
        rw [ih near.tail h]
      | zero =>
        match xs, ys, near.length with
        | [], [], _ =>
          simp only [absorb_cons, absorb_nil] at h
          rw [byte_of_absorbByte h]
        | x' :: xs, y' :: ys, _ =>
          obtain rfl := near.behind
          simp only [absorb_cons] at h
          obtain ⟨rfl, rfl⟩ := pair_of_absorb (state_of_absorb h)
          rfl

/-- The checksum of a body tells it from those that differ in two adjacent places only. -/
theorem eq_of_ofBody {k : Nat} (near : Near k xs ys) (h : ofBody xs seed = ofBody ys seed) :
    xs = ys :=
  eq_of_absorb near (state_of_absorbByte (congrArg Checksum.mk h))

end Injectivity

end Checksum

end VehicleLink
