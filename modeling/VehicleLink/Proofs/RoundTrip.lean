import VehicleLink.Proofs.Dialect
import VehicleLink.Proofs.Frame
import VehicleLink.Proofs.Payload

namespace VehicleLink

structure Message.Delivers (m : Message) (d : Definition) (given : Fields) : Prop where
  kind : m.kind = d.id
  name : m.name = d.name
  keys : m.fields.keys = d.wire.flatMap Field.keys
  values : ∀ f ∈ d.declared, ∀ key ∈ f.keys,
    ∃ v, m.get? key = some v ∧ f.primitive.Delivers f.count (given.get? key) v

namespace Codec

variable {r : Registry} {d : Definition} {kind : UInt8} {fields : Fields} {sender : Sender}
  {payload : List UInt8} {p : Packet}

theorem encode_of_sound (h : p.Sound r) : encode r p = .ok p.bytes := by
  obtain ⟨isSized, seed, registered, checksum⟩ := h
  have short : p.payload.length < 256 := isSized ▸ p.header.length.toNat_lt
  have length : UInt8.ofNat p.payload.length = p.header.length := by
    rw [← show p.header.length.toNat = _ from isSized, UInt8.ofNat_toNat]
  rw [encode, registered]
  simp only [if_pos short, length]
  rw [← checksum]

theorem decode_of_sound (h : p.Sound r) : decode r p.bytes = .ok p :=
  (decode_bytes r h.isSized).trans (checkSeed_of_sealed h.isSealed)

theorem stamp_of_pack (known : r.get? kind = some d) (h : pack r kind fields sender = .ok p) :
    ∃ payload, packSlots fields d.slots = .ok payload ∧ p = stamp d sender payload := by
  simp only [pack, known] at h
  obtain ⟨payload, written, h⟩ := ok_of_bind h
  cases h
  exact ⟨payload, written, rfl⟩

theorem length_stamp (d : Definition) (sender : Sender) (payload : List UInt8) :
    (stamp d sender payload).header.length.toNat = payload.length % 256 :=
  UInt8.toNat_ofNat'

theorem sized_stamp_iff : (stamp d sender payload).Sized ↔ payload.length ≤ 255 := by
  have length := length_stamp d sender payload
  have whole : (stamp d sender payload).payload = payload := rfl
  rw [Packet.Sized, length, whole]
  omega

theorem sealed_stamp (known : r.get? kind = some d) (sender : Sender) (payload : List UInt8) :
    (stamp d sender payload).Sealed r := by
  refine ⟨d.seed, ?_, rfl⟩
  rw [← Registry.id_of_get? known] at known
  exact Registry.seed?_of_get? known

theorem sound_stamp (known : r.get? kind = some d) (short : payload.length ≤ 255) :
    (stamp d sender payload).Sound r where
  isSized := sized_stamp_iff.mpr short
  isSealed := sealed_stamp known sender payload

theorem unpack_of_get? (known : r.get? p.kind = some d)
    (long : d.payloadLength ≤ p.payload.length) :
    unpack r p = .ok ⟨d.id, d.name, unpackSlots d.slots p.payload .empty⟩ := by
  rw [unpack, known]
  exact if_neg (Nat.not_lt.mpr long)

theorem unpack_stamp (known : r.get? kind = some d) (long : d.payloadLength ≤ payload.length) :
    unpack r (stamp d sender payload) =
      .ok ⟨d.id, d.name, unpackSlots d.slots payload .empty⟩ := by
  rw [← Registry.id_of_get? known] at known
  exact unpack_of_get? known long

theorem delivers_unpackSlots (distinct : d.keys.Nodup)
    (own : ∀ f ∈ d.declared, ∀ key ∈ f.keys, ∀ v ∈ fields.get? key, f.primitive.isOwnWidth v)
    (h : packSlots fields d.slots = .ok payload) :
    Message.Delivers ⟨d.id, d.name, unpackSlots d.slots payload .empty⟩ d fields where
  kind := rfl
  name := rfl
  keys := by
    rw [← d.keys_eq]
    exact keys_unpackSlots (m := .empty) distinct payload
  values f declared key isKey := by
    have isSlot : f.slot key ∈ d.slots := d.slot_mem_slots declared isKey
    obtain ⟨piece, written, read⟩ := get?_unpackSlots_of_packSlots h distinct .empty isSlot
    rw [f.key_slot] at written read
    exact ⟨_, read, Field.delivers_of_encode (own f declared key isKey) written⟩

theorem sound_of_pack (wellFormed : d.WellFormed) (known : r.get? kind = some d)
    (packed : pack r kind fields sender = .ok p) :
    p.payload.length = d.payloadLength ∧ p.Sound r := by
  obtain ⟨payload, written, rfl⟩ := stamp_of_pack known packed
  have length : payload.length = d.payloadLength :=
    (length_of_packSlots written).trans wellFormed.sum_size_slots
  exact ⟨length, sound_stamp known (length ▸ wellFormed.short)⟩

theorem delivers_of_pack (wellFormed : d.WellFormed) (known : r.get? kind = some d)
    (distinct : (d.declared.flatMap Field.keys).Nodup)
    (own : ∀ f ∈ d.declared, ∀ key ∈ f.keys, ∀ v ∈ fields.get? key, f.primitive.isOwnWidth v)
    (packed : pack r kind fields sender = .ok p) :
    ∃ m, unpack r p = .ok m ∧ m.Delivers d fields := by
  have length := (sound_of_pack wellFormed known packed).1
  obtain ⟨payload, written, rfl⟩ := stamp_of_pack known packed
  exact ⟨_, unpack_stamp known (Nat.le_of_eq length.symm),
    delivers_unpackSlots (d.keys_perm.nodup_iff.mpr distinct) own written⟩

/-- What is packed under a loaded dialect has the length of its kind, is a frame that decodes to
the packet, and unpacks to the values it was packed from. -/
theorem round_trip {text : String} (loaded : Dialect.load text = .ok r)
    (known : r.get? kind = some d) (distinct : (d.declared.flatMap Field.keys).Nodup)
    (own : ∀ f ∈ d.declared, ∀ key ∈ f.keys, ∀ v ∈ fields.get? key, f.primitive.isOwnWidth v)
    (packed : pack r kind fields sender = .ok p) :
    p.payload.length = d.payloadLength ∧ p.header.length.toNat = d.payloadLength
      ∧ encode r p = .ok p.bytes ∧ decode r p.bytes = .ok p
      ∧ ∃ m, unpack r p = .ok m ∧ m.Delivers d fields := by
  have wellFormed := Dialect.wellFormed_of_load loaded d (Registry.mem_of_get? known)
  obtain ⟨length, isSound⟩ := sound_of_pack wellFormed known packed
  exact ⟨length, isSound.isSized.trans length, encode_of_sound isSound, decode_of_sound isSound,
    delivers_of_pack wellFormed known distinct own packed⟩

def echoes : String :=
  "<message id='7' name='ECHO' crc_extra='42'><field type='char[3]' name='tag'/>" ++
    "<field type='uint16_t[2]' name='n'/><field type='float' name='x'/></message>"

def echo : Definition :=
  ⟨7, "ECHO", [.array "tag" .char 3, .array "n" .u16 2, .scalar "x" .single], 42⟩

def echoed : Fields := ⟨[("tag", .text [104, 105]), ("n1", .single ⟨0x40300000⟩)]⟩

theorem load_echoes : Dialect.load echoes = .ok ⟨[echo], by decide⟩ := by
  have read : (Dialect.load echoes).toOption = some ⟨[echo], by decide⟩ := by decide +kernel
  cases loaded : Dialect.load echoes with
  | error e =>
    rw [loaded] at read
    cases read
  | ok r =>
    rw [loaded] at read
    cases read
    rfl

theorem round_trip_echo :
    ∃ r p, Dialect.load echoes = .ok r ∧ r.get? 7 = some echo
      ∧ pack r 7 echoed ⟨0, 1, 1⟩ = .ok p
      ∧ p.payload.length = echo.payloadLength ∧ p.header.length.toNat = echo.payloadLength
      ∧ encode r p = .ok p.bytes ∧ decode r p.bytes = .ok p
      ∧ ∃ m, unpack r p = .ok m ∧ m.Delivers echo echoed :=
  have known : (⟨[echo], by decide⟩ : Registry).get? 7 = some echo := by decide
  have packed : pack ⟨[echo], by decide⟩ 7 echoed ⟨0, 1, 1⟩ =
      .ok (stamp echo ⟨0, 1, 1⟩ [0, 0, 0, 0, 0, 0, 2, 0, 104, 105, 0]) := by rfl
  ⟨_, _, load_echoes, known, packed,
    round_trip load_echoes known (by decide) (by decide) packed⟩

end Codec

end VehicleLink
