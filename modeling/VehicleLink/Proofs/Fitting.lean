import Mathlib.Data.Rat.Floor
import VehicleLink.Proofs.Payload

namespace VehicleLink

def towardZero (x : ℚ) : Int := if 0 ≤ x then ⌊x⌋ else ⌈x⌉

theorem towardZero_intCast (n : Int) : towardZero n = n := by
  rw [towardZero, Int.floor_intCast, Int.ceil_intCast, ite_self]

theorem towardZero_natCast_div (n d : Nat) : towardZero (n / d) = (n / d : Nat) := by
  rw [towardZero, if_pos (by positivity), Rat.floor_natCast_div_natCast, Int.natCast_div]

theorem towardZero_neg (x : ℚ) : towardZero (-x) = -towardZero x := by
  rw [towardZero, towardZero, Int.floor_neg, Int.ceil_neg]
  rcases lt_trichotomy x 0 with below | rfl | above
  · rw [if_pos (neg_nonneg.mpr below.le), if_neg below.not_ge]
  · simp
  · rw [if_neg (neg_neg_of_pos above).not_ge, if_pos above.le]

def Datum.number? (f : Format) : Datum → Option ℚ
  | .finite negative magnitude =>
    let x : ℚ := magnitude / (2 ^ f.scale : Nat)
    some (if negative then -x else x)
  | _ => none

theorem Format.truncate_eq (f : Format) (word : Nat) :
    f.truncate word = ((f.decode word).number? f).map towardZero := by
  rw [truncate]
  rcases f.decode word with ⟨negative, magnitude⟩ | _ | _
  · dsimp only [Datum.number?, Option.map_some]
    rw [Nat.shiftRight_eq_div_pow]
    cases negative with
    | false => exact congrArg some (towardZero_natCast_div magnitude _).symm
    | true => rw [if_pos rfl, if_pos rfl, towardZero_neg, towardZero_natCast_div]
  · rfl
  · rfl

namespace Value

/-- The number that a value is; texts, infinities and not-a-numbers are none. -/
def number? : Value → Option ℚ
  | .int n => some n.value
  | .single x => x.datum.number? .single
  | .double x => x.datum.number? .double
  | .text _ => none

theorem whole?_eq (v : Value) : v.whole? = v.number?.map towardZero := by
  cases v with
  | int n => rw [whole?, number?, Option.map_some, towardZero_intCast]
  | single x => exact Format.truncate_eq _ _
  | double x => exact Format.truncate_eq _ _
  | text => rfl

theorem toInt?_of_whole? {v : Value} {n : Int} {t : IntType} (h : v.whole? = some n)
    (holds : t.Holds n) : v.toInt? = some n := by
  have unclamped : clamp n = n := by
    have := holds.bounded
    rw [clamp]
    omega
  cases v with
  | int => exact h
  | single x | double x => exact Option.map_eq_some_iff.mpr ⟨n, h, unclamped⟩
  | text => cases h

theorem exists_toInt?_iff {v : Value} {t : IntType} :
    (∃ n ∈ v.toInt?, t.Holds n) ↔ ∃ x ∈ v.number?, t.Holds (towardZero x) := by
  constructor
  · rintro ⟨n, read, holds⟩
    have isWhole := whole?_of_toInt? read holds
    rw [whole?_eq] at isWhole
    obtain ⟨x, isNumber, rfl⟩ := Option.map_eq_some_iff.mp isWhole
    exact ⟨x, isNumber, holds⟩
  · rintro ⟨x, isNumber, holds⟩
    have isWhole : v.whole? = some (towardZero x) := by
      rw [whole?_eq]
      exact Option.map_eq_some_iff.mpr ⟨x, isNumber, rfl⟩
    exact ⟨_, toInt?_of_whole? isWhole holds, holds⟩

end Value

def Primitive.CanHold : Primitive → Value → Prop
  | .number (.int t), v => ∃ x ∈ v.number?, t.Holds (towardZero x)
  | .number _, v => ∀ bytes, v ≠ .text bytes
  | .char, v => ∃ bytes, v = .text bytes

theorem Primitive.canHold_zero (p : Primitive) : p.CanHold (.zero p) := by
  rcases p with (t | _ | _) | _
  · refine ⟨0, rfl, ?_⟩
    rw [← Int.cast_zero, towardZero_intCast]
    exact t.holds_zero
  · simp [CanHold, Value.zero]
  · simp [CanHold, Value.zero]
  · exact ⟨[], rfl⟩

theorem Numeric.isSome_encode?_iff {t : Numeric} {v : Value} :
    (t.encode? v).isSome ↔ (Primitive.number t).CanHold v := by
  cases t with
  | int t =>
    rw [Primitive.CanHold, ← Value.exists_toInt?_iff, encode?]
    cases v.toInt? with
    | none => simp
    | some n => simp [apply_ite Option.isSome]
  | single => cases v <;> simp [Primitive.CanHold, encode?, Value.toDouble?]
  | double => cases v <;> simp [Primitive.CanHold, encode?, Value.toDouble?]

theorem Field.encode_slot_cases (f : Field) (key : String) (given : Option Value) :
    ((∀ v ∈ given, f.primitive.CanHold v) ∧ ∃ bytes, (f.slot key).encode given = .ok bytes)
      ∨ ∃ v, given = some v ∧ ¬ f.primitive.CanHold v
        ∧ (f.slot key).encode given = .error (.unsuitable key v) := by
  cases isNumber : f.primitive with
  | number t =>
    rw [slot, isNumber]
    dsimp only [Slot.encode]
    cases written : t.encode? (given.getD (.zero (.number t))) with
    | some bytes =>
      refine .inl ⟨?_, bytes, rfl⟩
      rintro v ⟨⟩
      exact Numeric.isSome_encode?_iff.mp (Option.isSome_of_eq_some written)
    | none =>
      have refused : ¬ (Primitive.number t).CanHold (given.getD (.zero (.number t))) := by
        rw [← Numeric.isSome_encode?_iff, written]
        exact Bool.false_ne_true
      cases given with
      | none => exact absurd (Primitive.canHold_zero _) refused
      | some v => exact .inr ⟨v, rfl, refused, rfl⟩
  | char =>
    rw [slot, isNumber]
    rcases given with _ | n | x | x | bytes
    · exact .inl ⟨by simp, _, rfl⟩
    iterate 3
      refine .inr ⟨_, rfl, ?_, rfl⟩
      rintro ⟨_, ⟨⟩⟩
    refine .inl ⟨?_, _, rfl⟩
    rintro _ ⟨⟩
    exact ⟨bytes, rfl⟩

section Slot

variable {f : Field} {key : String} {given : Option Value}

theorem Field.exists_encode_slot (fits : ∀ v ∈ given, f.primitive.CanHold v) :
    ∃ bytes, (f.slot key).encode given = .ok bytes := by
  rcases f.encode_slot_cases key given with ⟨-, encoded⟩ | ⟨v, isGiven, misfit, -⟩
  · exact encoded
  · exact absurd (fits v isGiven) misfit

theorem Field.encode_slot_of_misfit {v : Value} (isGiven : given = some v)
    (misfit : ¬ f.primitive.CanHold v) :
    (f.slot key).encode given = .error (.unsuitable key v) := by
  rcases f.encode_slot_cases key given with ⟨fits, -⟩ | ⟨w, isGiven', -, refused⟩
  · exact absurd (fits v isGiven) misfit
  · obtain rfl : v = w := Option.some.inj (isGiven.symm.trans isGiven')
    exact refused

end Slot

end VehicleLink
