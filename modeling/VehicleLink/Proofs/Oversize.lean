import VehicleLink.Proofs.Decoding
import VehicleLink.Proofs.Packing

namespace VehicleLink.Codec

variable {r : Registry} {kind : UInt8} {fields : Fields} {sender : Sender} {p : Packet}
  {d : Definition} {payload : List UInt8}

theorem get?_of_pack (packed : pack r kind fields sender = .ok p) : ∃ d, r.get? kind = some d := by
  cases known : r.get? kind with
  | none => cases (pack_of_unregistered known).symm.trans packed
  | some d => exact ⟨d, rfl⟩

theorem encode_of_oversized {seed : UInt8} (registered : r.seed? p.kind = some seed)
    (long : 255 < p.payload.length) : encode r p = .error (.oversized p.payload.length) := by
  rw [encode, registered]
  exact if_neg (Nat.not_lt.mpr long)

theorem encode_stamp_of_oversized (known : r.get? kind = some d) (sender : Sender)
    (long : 255 < payload.length) :
    encode r (stamp d sender payload) = .error (.oversized payload.length) := by
  obtain ⟨seed, registered, -⟩ := sealed_stamp known sender payload
  exact encode_of_oversized registered long

/-- A packed packet is as long as its layout, of which the length byte tells the remainder by 256.
So it tells the length, the packet is encoded to its own bytes and these are decoded to it exactly
if the layout is no longer than 255 bytes; otherwise encoding fails. -/
theorem sized_iff_of_pack (counted : ∀ d ∈ r.definitions, ∀ f ∈ d.declared, f.arrayLength ≠ some 0)
    (packed : pack r kind fields sender = .ok p) :
    ∃ d, r.get? kind = some d ∧ p.payload.length = d.payloadLength
      ∧ p.header.length.toNat = d.payloadLength % 256
      ∧ (p.Sized ↔ d.payloadLength ≤ 255)
      ∧ (encode r p = .ok p.bytes ↔ d.payloadLength ≤ 255)
      ∧ (decode r p.bytes = .ok p ↔ d.payloadLength ≤ 255)
      ∧ (255 < d.payloadLength → encode r p = .error (.oversized d.payloadLength)) := by
  obtain ⟨d, known⟩ := get?_of_pack packed
  obtain ⟨payload, written, rfl⟩ := stamp_of_pack known packed
  have length : payload.length = d.payloadLength :=
    (length_of_packSlots written).trans
      (Definition.sum_size_slots (counted d (Registry.mem_of_get? known)))
  refine ⟨d, known, length, ?_⟩
  rw [← length]
  refine ⟨length_stamp d sender payload, sized_stamp_iff, ⟨fun encoded => ?_, ?_⟩,
    ⟨fun decoded => ?_, ?_⟩, encode_stamp_of_oversized known sender⟩
  · by_contra long
    cases encoded.symm.trans (encode_stamp_of_oversized known sender (Nat.lt_of_not_le long))
  · exact fun short => encode_of_sound (sound_stamp known short)
  · exact sized_stamp_iff.mp (decode_eq_ok_iff.mp decoded).1.isSized
  · exact fun short => decode_of_sound (sound_stamp known short)

def brimful : Definition := .make 1 "BRIMFUL" [.array "text" .char 255] none

def overfull : Definition := .make 2 "OVERFULL" [.array "text" .char 255, .scalar "end" .u8] none

theorem sized_of_brimful :
    ∃ r p, Registry.empty.insert brimful = .ok r ∧ pack r 1 .empty ⟨0, 1, 1⟩ = .ok p
      ∧ p.payload.length = 255 ∧ p.Sized ∧ encode r p = .ok p.bytes ∧ decode r p.bytes = .ok p := by
  let r : Registry := ⟨[brimful], by decide⟩
  have packed : pack r 1 .empty ⟨0, 1, 1⟩ =
      .ok (stamp brimful ⟨0, 1, 1⟩ (List.replicate 255 0)) := by
    decide +kernel
  obtain ⟨d, known, length, -, sized, encodes, decodes, -⟩ := sized_iff_of_pack (by decide) packed
  have same : d = brimful := Option.some.inj (known.symm.trans (by decide +kernel))
  subst same
  have short : brimful.payloadLength ≤ 255 := by decide
  exact ⟨r, _, rfl, packed, length, sized.mpr short, encodes.mpr short, decodes.mpr short⟩

/-- Nothing refuses the kind when it is registered, and its packets claim an empty payload. -/
theorem misstated_of_overfull :
    ∃ r p, Registry.empty.insert overfull = .ok r
      ∧ (∀ f ∈ overfull.declared, f.arrayLength ≠ some 0)
      ∧ pack r 2 .empty ⟨0, 1, 1⟩ = .ok p ∧ p.payload.length = 256 ∧ p.header.length.toNat = 0
      ∧ ¬ p.Sized ∧ encode r p = .error (.oversized 256) := by
  let r : Registry := ⟨[overfull], by decide⟩
  have packed : pack r 2 .empty ⟨0, 1, 1⟩ =
      .ok (stamp overfull ⟨0, 1, 1⟩ (List.replicate 256 0)) := by
    decide +kernel
  exact ⟨r, _, rfl, by decide, packed, by decide +kernel, by decide +kernel, by decide +kernel,
    by decide +kernel⟩

end VehicleLink.Codec
