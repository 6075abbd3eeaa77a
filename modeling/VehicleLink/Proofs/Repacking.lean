import VehicleLink.Proofs.RoundTrip

namespace VehicleLink

theorem IntType.toWord_ofWord {t : IntType} {word : Nat} (h : word < t.modulus) :
    t.toWord (t.ofWord word) = word := by
  have same : t.ofWord word % t.modulus = (word : Int) % t.modulus := by
    rw [ofWord]
    split
    · exact Int.bmod_emod
    · exact Int.emod_emod _ _
  rw [toWord, same, ← Int.natCast_emod, Int.toNat_natCast, Nat.mod_eq_of_lt h]

namespace Numeric

variable {t : Numeric} {bytes : List UInt8}

theorem encode?_decode_int {t : IntType} (h : bytes.length = t.size) :
    (Numeric.int t).encode? ((Numeric.int t).decode bytes) = some bytes := by
  have bound : LittleEndian.decode bytes < t.modulus := by
    rw [t.modulus_eq, ← h]
    exact LittleEndian.decode_lt bytes
  have holds := t.holds_ofWord (LittleEndian.decode bytes)
  simp only [decode, encode?, IntType.read, Value.toInt?, bind, Option.bind_some, if_pos holds]
  rw [IntType.toWord_ofWord bound, ← h, LittleEndian.encode_decode]

theorem encode?_decode (h : bytes.length = t.size) : t.encode? (t.decode bytes) = some bytes := by
  have bound := LittleEndian.decode_lt bytes
  cases t with
  | int t => exact encode?_decode_int h
  | single =>
    have length : bytes.length = 4 := h
    rw [length] at bound
    simp only [decode, encode?]
    rw [UInt32.toNat_ofNat_of_lt' bound, ← length, LittleEndian.encode_decode]
  | double =>
    have length : bytes.length = 8 := h
    rw [length] at bound
    simp only [decode, encode?, Value.toDouble?, Option.map_some]
    rw [UInt64.toNat_ofNat_of_lt' bound, ← length, LittleEndian.encode_decode]

end Numeric

theorem Slot.encode_decode {s : Slot} {bytes : List UInt8} (h : bytes.length = s.size) :
    s.encode (some (s.decode bytes)) = .ok bytes := by
  cases s with
  | number key t =>
    have written : t.encode? (t.decode bytes) = some bytes := Numeric.encode?_decode h
    simp only [encode, decode, Option.getD_some, written]
  | text key n =>
    have length : bytes.length = n := h
    simp [encode, decode, ← length]

namespace Codec

theorem packSlots_unpackSlots {slots : List Slot} (distinct : (slots.map Slot.key).Nodup)
    (payload : List UInt8) (m : Fields) (long : (slots.map Slot.size).sum ≤ payload.length) :
    packSlots (unpackSlots slots payload m) slots =
      .ok (payload.take (slots.map Slot.size).sum) := by
  induction slots generalizing payload m with
  | nil => rfl
  | cons s slots ih =>
    obtain ⟨fresh, distinct⟩ := List.nodup_cons.mp distinct
    rw [List.map_cons, List.sum_cons] at long ⊢
    have first : (payload.take s.size).length = s.size := by
      rw [List.length_take]
      omega
    have others : (slots.map Slot.size).sum ≤ (payload.drop s.size).length := by
      rw [List.length_drop]
      omega
    rw [unpackSlots, packSlots, get?_unpackSlots_of_notMem fresh, Assoc.get?_insert_self,
      Slot.encode_decode first, ih distinct _ _ others, List.take_add]
    rfl

variable {r : Registry} {d : Definition} {p : Packet}

/-- Packing the fields of a message under a loaded dialect gives back the payload they were read
from, as far as the layout goes. -/
theorem pack_of_unpack {text : String} (loaded : Dialect.load text = .ok r)
    (known : r.get? p.kind = some d) (distinct : (d.declared.flatMap Field.keys).Nodup)
    (long : d.payloadLength ≤ p.payload.length) (sender : Sender) :
    ∃ m q, unpack r p = .ok m ∧ pack r p.kind m.fields sender = .ok q
      ∧ q.payload = p.payload.take d.payloadLength := by
  have wellFormed := Dialect.wellFormed_of_load loaded d (Registry.mem_of_get? known)
  have length := wellFormed.sum_size_slots
  have written : packSlots (unpackSlots d.slots p.payload .empty) d.slots =
      .ok (p.payload.take d.payloadLength) := by
    rw [← length] at long ⊢
    exact packSlots_unpackSlots (d.keys_perm.nodup_iff.mpr distinct) _ _ long
  have unpacked : unpack r p = .ok ⟨d.id, d.name, unpackSlots d.slots p.payload .empty⟩ := by
    rw [unpack, known]
    exact if_neg (Nat.not_lt.mpr long)
  refine ⟨_, stamp d sender (p.payload.take d.payloadLength), unpacked, ?_, rfl⟩
  simp only [pack, known, written]
  rfl

def garbled : Packet :=
  ⟨⟨12, 0, 1, 1, 7⟩, [1, 0, 128, 127, 255, 255, 0, 128, 255, 254, 128, 9], 0⟩

theorem pack_of_unpack_garbled :
    ∃ r m q, Dialect.load echoes = .ok r ∧ r.get? garbled.kind = some echo
      ∧ unpack r garbled = .ok m ∧ pack r garbled.kind m.fields ⟨5, 255, 190⟩ = .ok q
      ∧ q.payload = garbled.payload.take echo.payloadLength := by
  have known : (⟨[echo], by decide⟩ : Registry).get? garbled.kind = some echo := by decide
  obtain ⟨m, q, unpacked, packed, same⟩ :=
    pack_of_unpack load_echoes known (by decide) (by decide) ⟨5, 255, 190⟩
  exact ⟨_, m, q, load_echoes, known, unpacked, packed, same⟩

end Codec

end VehicleLink
