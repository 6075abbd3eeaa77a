import VehicleLink.Proofs.Repacking

namespace VehicleLink.Codec

def slice? (data : List UInt8) (start stop : Nat) : Option (List UInt8) :=
  if start ≤ stop ∧ stop ≤ data.length then some (data.extract start stop) else none

/-- Reads one slot after another from an offset on, each as a slice of the payload.  The result says
where the last one ends. -/
def readSlots? (payload : List UInt8) : List Slot → Nat → Fields → Option (Nat × Fields)
  | [], offset, fields => some (offset, fields)
  | s :: slots, offset, fields => do
    let bytes ← slice? payload offset (offset + s.size)
    readSlots? payload slots (offset + s.size) (fields.insert s.key (s.decode bytes))

section Slots

variable {payload : List UInt8} {slots : List Slot} {offset : Nat}

theorem slice?_of_le {start stop : Nat} (ordered : start ≤ stop) (within : stop ≤ payload.length) :
    slice? payload start stop = some (payload.extract start stop) :=
  if_pos ⟨ordered, within⟩

theorem readSlots?_eq_some (fields : Fields)
    (long : offset + (slots.map Slot.size).sum ≤ payload.length) :
    readSlots? payload slots offset fields =
      some (offset + (slots.map Slot.size).sum,
        unpackSlots slots (payload.drop offset) fields) := by
  induction slots generalizing offset fields with
  | nil => rfl
  | cons s slots ih =>
    rw [List.map_cons, List.sum_cons, ← Nat.add_assoc] at long ⊢
    have within : offset + s.size ≤ payload.length := Nat.le_of_add_right_le long
    rw [readSlots?, slice?_of_le (Nat.le_add_right _ _) within, Option.bind_eq_bind,
      Option.bind_some, ih _ long, unpackSlots, List.drop_drop, List.extract_eq_take_drop,
      Nat.add_sub_cancel_left]

theorem readSlots?_eq_none (fields : Fields) (within : offset ≤ payload.length)
    (short : payload.length < offset + (slots.map Slot.size).sum) :
    readSlots? payload slots offset fields = none := by
  induction slots generalizing offset fields with
  | nil => exact absurd short (Nat.not_lt.mpr within)
  | cons s slots ih =>
    rw [List.map_cons, List.sum_cons, ← Nat.add_assoc] at short
    rw [readSlots?]
    by_cases fits : offset + s.size ≤ payload.length
    · rw [slice?_of_le (Nat.le_add_right _ _) fits]
      exact ih _ fits short
    · rw [slice?, if_neg fun both => fits both.2]
      rfl

theorem unpackSlots_take {n : Nat} (enough : (slots.map Slot.size).sum ≤ n)
    (bytes : List UInt8) (fields : Fields) :
    unpackSlots slots (bytes.take n) fields = unpackSlots slots bytes fields := by
  induction slots generalizing n bytes fields with
  | nil => rfl
  | cons s slots ih =>
    rw [List.map_cons, List.sum_cons] at enough
    rw [unpackSlots, unpackSlots, List.take_take, Nat.min_eq_left (by omega), List.drop_take,
      ih (by omega)]

end Slots

variable {r : Registry} {d : Definition} {p : Packet}

theorem unpack_of_short (known : r.get? p.kind = some d)
    (short : p.payload.length < d.payloadLength) :
    unpack r p = .error (.underrun p.kind d.payloadLength p.payload.length) := by
  rw [unpack, known, ← Registry.id_of_get? known]
  exact if_pos short

theorem unpack_of_unregistered (unknown : r.get? p.kind = none) :
    unpack r p = .error (.unknownKind p) := by
  rw [unpack, unknown]

theorem unpack_congr (wellFormed : d.WellFormed) (known : r.get? p.kind = some d)
    (long : d.payloadLength ≤ p.payload.length) {q : Packet} (kind : q.kind = p.kind)
    (same : q.payload.take d.payloadLength = p.payload.take d.payloadLength) :
    unpack r q = unpack r p := by
  have long' : d.payloadLength ≤ q.payload.length := by
    have lengths := congrArg List.length same
    rw [List.length_take, List.length_take] at lengths
    omega
  have enough := Nat.le_of_eq wellFormed.sum_size_slots
  rw [unpack_of_get? known long, unpack_of_get? (kind ▸ known) long',
    ← unpackSlots_take enough p.payload, ← unpackSlots_take enough q.payload, same]

/-- Under a loaded dialect unpacking fails if the kind is not registered or the payload is shorter
than its layout, and never otherwise.  Every slice is then within the payload, the last one ends
where the layout does, and no byte behind that has a part in the message. -/
theorem unpack_within_payload {text : String} (loaded : Dialect.load text = .ok r) (p : Packet) :
    (unpack r p = .error (.unknownKind p) ↔ r.get? p.kind = none)
      ∧ ∀ d, r.get? p.kind = some d →
        (unpack r p = .error (.underrun p.kind d.payloadLength p.payload.length) ↔
          p.payload.length < d.payloadLength)
        ∧ ((∃ m, unpack r p = .ok m) ↔ d.payloadLength ≤ p.payload.length)
        ∧ ((readSlots? p.payload d.slots 0 .empty).isSome ↔ d.payloadLength ≤ p.payload.length)
        ∧ ∀ m, unpack r p = .ok m → m.kind = p.kind ∧ m.name = d.name
          ∧ readSlots? p.payload d.slots 0 .empty = some (d.payloadLength, m.fields)
          ∧ ∀ q : Packet, q.kind = p.kind →
            q.payload.take d.payloadLength = p.payload.take d.payloadLength →
            unpack r q = .ok m := by
  cases known : r.get? p.kind with
  | none => exact ⟨iff_of_true (unpack_of_unregistered known) rfl, nofun⟩
  | some d =>
    have wellFormed := Dialect.wellFormed_of_load loaded d (Registry.mem_of_get? known)
    have length : 0 + (d.slots.map Slot.size).sum = d.payloadLength :=
      (Nat.zero_add _).trans wellFormed.sum_size_slots
    obtain short | long := Nat.lt_or_ge p.payload.length d.payloadLength
    · have failed := unpack_of_short known short
      have unread : readSlots? p.payload d.slots 0 .empty = none :=
        readSlots?_eq_none .empty (Nat.zero_le _) (length ▸ short)
      rw [failed]
      refine ⟨iff_of_false nofun nofun, ?_⟩
      rintro _ ⟨⟩
      exact ⟨iff_of_true rfl short, iff_of_false nofun (Nat.not_le.mpr short),
        iff_of_false (by simp [unread]) (Nat.not_le.mpr short), nofun⟩
    · have unpacked := unpack_of_get? known long
      have within : 0 + (d.slots.map Slot.size).sum ≤ p.payload.length := length ▸ long
      have read := readSlots?_eq_some .empty within
      rw [length, List.drop_zero] at read
      rw [unpacked]
      refine ⟨iff_of_false nofun nofun, ?_⟩
      rintro _ ⟨⟩
      refine ⟨iff_of_false nofun (Nat.not_lt.mpr long), iff_of_true ⟨_, rfl⟩ long,
        iff_of_true (by simp [read]) long, ?_⟩
      rintro m ⟨⟩
      exact ⟨Registry.id_of_get? known, rfl, read, fun q kind same =>
        (unpack_congr wellFormed known long kind same).trans unpacked⟩

theorem unpack_within_garbled :
    ∃ r m, Dialect.load echoes = .ok r ∧ r.get? garbled.kind = some echo
      ∧ unpack r garbled = .ok m
      ∧ readSlots? garbled.payload echo.slots 0 .empty = some (11, m.fields)
      ∧ unpack r ⟨⟨0, 9, 9, 9, 7⟩, garbled.payload.take 11 ++ [1, 2, 3], 5⟩ = .ok m := by
  have known : (⟨[echo], by decide⟩ : Registry).get? garbled.kind = some echo := by decide
  obtain ⟨-, -, succeeds, -, within⟩ := (unpack_within_payload load_echoes garbled).imp_right
    fun kinds => kinds echo known
  obtain ⟨m, unpacked⟩ := succeeds.mpr (by decide)
  obtain ⟨-, -, read, only⟩ := within m unpacked
  exact ⟨_, m, load_echoes, known, unpacked, read, only _ rfl (by decide)⟩

end VehicleLink.Codec
