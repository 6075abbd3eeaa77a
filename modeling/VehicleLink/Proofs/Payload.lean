import VehicleLink.Codec
import VehicleLink.Proofs.Schema
import VehicleLink.Proofs.Words

namespace VehicleLink

namespace Value

def whole? : Value → Option Int
  | .int n => some n.value
  | .single x => x.truncate
  | .double x => x.truncate
  | .text _ => none

theorem eq_of_clamp {n m : Int} {t : IntType} (h : t.Holds m) (eq : clamp n = m) : n = m := by
  have := h.bounded
  rw [clamp] at eq
  omega

theorem whole?_of_toInt? {v : Value} {n : Int} {t : IntType} (h : v.toInt? = some n)
    (holds : t.Holds n) : v.whole? = some n := by
  cases v with
  | int => exact h
  | single x | double x =>
    obtain ⟨m, truncated, clamped⟩ := Option.map_eq_some_iff.mp h
    rw [whole?, truncated, eq_of_clamp holds clamped]
  | text => cases h

end Value

namespace Primitive

def isOwnWidth : Primitive → Value → Bool
  | .single, .single _ | .double, .double _ => true
  | .single, _ | .double, _ => false
  | _, _ => true

/-- What a field of `count` elements holds under a key for the value it was given there. -/
def Delivers (p : Primitive) (count : Nat) (given : Option Value) (v : Value) : Prop :=
  match p with
  | .number (.int t) =>
    ∃ n : Integer, v = .int n ∧ n.type = t ∧ (given.getD (.zero p)).whole? = some n.value
  | .single | .double => v = given.getD (.zero p)
  | .char =>
    ∃ bytes, given.getD (.zero p) = .text bytes ∧ v = .text ((bytes.take count).rightpad count 0)

theorem isOwnWidth_getD {p : Primitive} {given : Option Value}
    (own : ∀ v ∈ given, p.isOwnWidth v) : p.isOwnWidth (given.getD (.zero p)) = true := by
  cases given with
  | none => rcases p with (_ | _ | _) | _ <;> rfl
  | some v => exact own v rfl

theorem eq_single_of_isOwnWidth {v : Value} (own : single.isOwnWidth v = true) :
    ∃ x, v = .single x := by
  cases v with
  | single x => exact ⟨x, rfl⟩
  | int | double | text => cases own

theorem eq_double_of_isOwnWidth {v : Value} (own : double.isOwnWidth v = true) :
    ∃ x, v = .double x := by
  cases v with
  | double x => exact ⟨x, rfl⟩
  | int | single | text => cases own

end Primitive

theorem Numeric.delivers_of_encode? {t : Numeric} {given : Option Value} {bytes : List UInt8}
    (own : ∀ v ∈ given, (Primitive.number t).isOwnWidth v)
    (h : t.encode? (given.getD (.zero (.number t))) = some bytes) :
    (Primitive.number t).Delivers 1 given (t.decode bytes) := by
  cases t with
  | int t =>
    simp only [encode?, bind, Option.bind_eq_some_iff] at h
    obtain ⟨n, read, h⟩ := h
    split at h
    · next holds =>
      cases h
      exact ⟨⟨t, n, holds⟩, decode_int holds, rfl, Value.whole?_of_toInt? read holds⟩
    · cases h
  | single =>
    obtain ⟨x, supplied⟩ := Primitive.eq_single_of_isOwnWidth (Primitive.isOwnWidth_getD own)
    rw [supplied] at h
    cases h
    exact (decode_single x).trans supplied.symm
  | double =>
    obtain ⟨x, supplied⟩ := Primitive.eq_double_of_isOwnWidth (Primitive.isOwnWidth_getD own)
    rw [supplied] at h
    cases h
    exact (decode_double x).trans supplied.symm

namespace Slot

variable {s : Slot} {given : Option Value} {bytes : List UInt8}

theorem encode_number {key : String} {t : Numeric} (h : (number key t).encode given = .ok bytes) :
    t.encode? (given.getD (.zero (.number t))) = some bytes := by
  simp only [encode] at h
  split at h
  · next written =>
    cases h
    exact written
  · cases h

theorem encode_text {key : String} {n : Nat} (h : (text key n).encode given = .ok bytes) :
    ∃ whole, given.getD (.zero .char) = .text whole ∧ bytes = (whole.take n).rightpad n 0 := by
  cases given with
  | none =>
    cases h
    exact ⟨[], rfl, by simp [List.rightpad]⟩
  | some v =>
    cases v with
    | text whole =>
      cases h
      refine ⟨whole, rfl, ?_⟩
      rw [List.rightpad, List.length_take]
      congr 2
      omega
    | int | single | double => cases h

theorem length_of_encode (h : s.encode given = .ok bytes) : bytes.length = s.size := by
  cases s with
  | number key t => exact Numeric.length_of_encode? (encode_number h)
  | text key n =>
    obtain ⟨whole, -, rfl⟩ := encode_text h
    simp only [List.rightpad, List.length_append, List.length_take, List.length_replicate, size]
    omega

end Slot

theorem Field.delivers_of_encode {f : Field} {key : String} {given : Option Value}
    {bytes : List UInt8} (own : ∀ v ∈ given, f.primitive.isOwnWidth v)
    (h : (f.slot key).encode given = .ok bytes) :
    f.primitive.Delivers f.count given ((f.slot key).decode bytes) := by
  cases isNumber : f.primitive with
  | number t =>
    rw [slot, isNumber] at h ⊢
    rw [isNumber] at own
    have delivered := Numeric.delivers_of_encode? own (Slot.encode_number h)
    cases t <;> exact delivered
  | char =>
    rw [slot, isNumber] at h ⊢
    obtain ⟨whole, supplied, rfl⟩ := Slot.encode_text h
    exact ⟨whole, supplied, rfl⟩

theorem Assoc.keys_insert {κ ν : Type} [DecidableEq κ] {m : Assoc κ ν} {key : κ}
    (fresh : key ∉ m.keys) (v : ν) : (m.insert key v).keys = m.keys ++ [key] := by
  obtain ⟨entries⟩ := m
  induction entries with
  | nil => rfl
  | cons e rest ih =>
    obtain ⟨other, later⟩ := List.ne_and_not_mem_of_not_mem_cons fresh
    have tail := ih later
    simp only [keys, insert, put, if_neg (Ne.symm other), List.map_cons, List.cons_append] at tail ⊢
    rw [tail]

namespace Codec

variable {fields : Fields} {slots : List Slot} {payload : List UInt8}

theorem packSlots_cons {s : Slot} (h : packSlots fields (s :: slots) = .ok payload) :
    ∃ piece rest, s.encode (fields.get? s.key) = .ok piece ∧ packSlots fields slots = .ok rest
      ∧ payload = piece ++ rest := by
  obtain ⟨piece, first, h⟩ := ok_of_bind h
  obtain ⟨rest, others, h⟩ := ok_of_bind h
  cases h
  exact ⟨piece, rest, first, others, rfl⟩

theorem length_of_packSlots (h : packSlots fields slots = .ok payload) :
    payload.length = (slots.map Slot.size).sum := by
  induction slots generalizing payload with
  | nil =>
    cases h
    rfl
  | cons s slots ih =>
    obtain ⟨piece, rest, first, others, rfl⟩ := packSlots_cons h
    rw [List.length_append, Slot.length_of_encode first, ih others, List.map_cons, List.sum_cons]

theorem get?_unpackSlots_of_notMem {key : String} (h : key ∉ slots.map Slot.key)
    (bytes : List UInt8) (m : Fields) : (unpackSlots slots bytes m).get? key = m.get? key := by
  induction slots generalizing bytes m with
  | nil => rfl
  | cons s slots ih =>
    obtain ⟨other, later⟩ := List.ne_and_not_mem_of_not_mem_cons h
    rw [unpackSlots, ih later, Assoc.get?_insert, if_neg (Ne.symm other)]

theorem keys_unpackSlots {m : Fields} (distinct : (m.keys ++ slots.map Slot.key).Nodup)
    (bytes : List UInt8) : (unpackSlots slots bytes m).keys = m.keys ++ slots.map Slot.key := by
  induction slots generalizing bytes m with
  | nil => exact (List.append_nil _).symm
  | cons s slots ih =>
    rw [List.map_cons, ← List.singleton_append, ← List.append_assoc] at distinct
    rw [List.map_cons, List.append_cons]
    have fresh : s.key ∉ m.keys := fun old =>
      (List.nodup_append.mp (List.nodup_append.mp distinct).1).2.2 _ old _ (by simp) rfl
    rw [← Assoc.keys_insert fresh (s.decode (bytes.take s.size))] at distinct ⊢
    exact ih distinct _

theorem get?_unpackSlots_of_packSlots (h : packSlots fields slots = .ok payload)
    (distinct : (slots.map Slot.key).Nodup) (m : Fields) {s : Slot} (isSlot : s ∈ slots) :
    ∃ piece, s.encode (fields.get? s.key) = .ok piece
      ∧ (unpackSlots slots payload m).get? s.key = some (s.decode piece) := by
  induction slots generalizing payload m with
  | nil => cases isSlot
  | cons first slots ih =>
    obtain ⟨piece, rest, written, others, rfl⟩ := packSlots_cons h
    obtain ⟨fresh, distinct⟩ := List.nodup_cons.mp distinct
    have length := Slot.length_of_encode written
    rw [unpackSlots, List.take_left' length, List.drop_left' length]
    rcases List.mem_cons.mp isSlot with rfl | isLater
    · exact ⟨piece, written, by rw [get?_unpackSlots_of_notMem fresh, Assoc.get?_insert_self]⟩
    · exact ih others distinct _ isLater

end Codec

end VehicleLink
