import VehicleLink.Codec
import VehicleLink.Proofs.Words

/-! Frames as a grammar.  A frame is the bytes of a packet whose length byte is right, and
decoding reads exactly those. -/

namespace VehicleLink

namespace Packet

def Sized (p : Packet) : Prop := p.header.length.toNat = p.payload.length

instance (p : Packet) : Decidable p.Sized := inferInstanceAs (Decidable (_ = _))

def Sealed (r : Registry) (p : Packet) : Prop :=
  ∃ seed, r.seed? p.kind = some seed ∧ p.checksum = Checksum.ofBody p.body seed

structure Sound (r : Registry) (p : Packet) : Prop where
  isSized : p.Sized
  isSealed : p.Sealed r

theorem bytes_append (p : Packet) (rest : List UInt8) :
    p.bytes ++ rest = startByte :: p.header.length :: p.header.sequence :: p.header.system ::
      p.header.component :: p.header.kind ::
        (p.payload ++ (LittleEndian.encode checksumLength p.checksum.toNat ++ rest)) := by
  simp [bytes, body]

theorem bytes_ne_nil (p : Packet) : p.bytes ≠ [] := List.cons_ne_nil _ _

theorem size_pos (p : Packet) : 0 < p.size := by
  simp only [size, headerLength]
  omega

theorem checksum_of_encode (c : UInt16) :
    UInt16.ofNat (LittleEndian.decode (LittleEndian.encode checksumLength c.toNat)) = c := by
  have bound : c.toNat < 256 ^ checksumLength := c.toNat_lt
  rw [LittleEndian.decode_encode, Nat.mod_eq_of_lt bound, UInt16.ofNat_toNat]

theorem encode_checksum {bytes : List UInt8} (h : bytes.length = checksumLength) :
    LittleEndian.encode checksumLength (UInt16.ofNat (LittleEndian.decode bytes)).toNat = bytes := by
  have bound := LittleEndian.decode_lt bytes
  rw [h] at bound
  rw [UInt16.toNat_ofNat_of_lt' bound, ← h, LittleEndian.encode_decode]

theorem eq_of_bytes_append {p q : Packet} (hp : p.Sized) (hq : q.Sized)
    {rest rest' : List UInt8} (h : p.bytes ++ rest = q.bytes ++ rest') : p = q ∧ rest = rest' := by
  obtain ⟨⟨len, seq, sys, comp, kind⟩, payload, checksum⟩ := p
  obtain ⟨⟨len', seq', sys', comp', kind'⟩, payload', checksum'⟩ := q
  simp only [bytes_append, List.cons.injEq, true_and] at h
  obtain ⟨rfl, rfl, rfl, rfl, rfl, h⟩ := h
  obtain ⟨rfl, tails⟩ := List.append_inj h (hp.symm.trans hq)
  obtain ⟨encoded, rfl⟩ := List.append_inj tails (by simp)
  have same : checksum = checksum' := by
    rw [← checksum_of_encode checksum, encoded, checksum_of_encode]
  exact ⟨by rw [same], rfl⟩

theorem exists_bytes_append {length : UInt8} {bytes : List UInt8}
    (h : headerLength + length.toNat + checksumLength ≤ bytes.length + 2) :
    ∃ p : Packet, ∃ rest, p.Sized ∧ p.header.length = length ∧
      startByte :: length :: bytes = p.bytes ++ rest := by
  simp only [headerLength, checksumLength] at h
  obtain _ | ⟨seq, _ | ⟨sys, _ | ⟨comp, _ | ⟨kind, tail⟩⟩⟩⟩ := bytes
  iterate 4 simp only [List.length_cons, List.length_nil] at h; omega
  simp only [List.length_cons] at h
  refine ⟨⟨⟨length, seq, sys, comp, kind⟩, tail.take length.toNat,
    UInt16.ofNat (LittleEndian.decode ((tail.drop length.toNat).take checksumLength))⟩,
    (tail.drop length.toNat).drop checksumLength, ?_, rfl, ?_⟩
  · simp only [Sized, List.length_take]
    omega
  · rw [bytes_append, encode_checksum (by simp [checksumLength]; omega)]
    simp only [List.take_append_drop]

end Packet

namespace Codec

variable {r : Registry} {p : Packet}

theorem checkSeed_of_sealed (h : p.Sealed r) : checkSeed r p = .ok p := by
  obtain ⟨seed, registered, checksum⟩ := h
  simp [checkSeed, registered, checksum]

theorem checkSeed_of_unregistered (h : r.seed? p.kind = none) :
    checkSeed r p = .error (.unknownKind p) := by
  simp [checkSeed, h]

theorem checkSeed_cases (r : Registry) (p : Packet) :
    p.Sealed r ∨ r.seed? p.kind = none ∨
      ∃ expected actual, checkSeed r p = .error (.checksum expected actual) := by
  cases registered : r.seed? p.kind with
  | none => exact .inr (.inl rfl)
  | some seed =>
    by_cases checksum : p.checksum = Checksum.ofBody p.body seed
    · exact .inl ⟨seed, registered, checksum⟩
    · refine .inr (.inr ⟨Checksum.ofBody p.body seed, p.checksum, ?_⟩)
      simp [checkSeed, registered, Ne.symm checksum]

theorem decode_bytes_append (r : Registry) (h : p.Sized) (rest : List UInt8) :
    decode r (p.bytes ++ rest) = checkSeed r p := by
  obtain ⟨a, b, tail, split⟩ : ∃ a b tail,
      p.payload ++ (LittleEndian.encode checksumLength p.checksum.toNat ++ rest) = a :: b :: tail := by
    match eq : p.payload ++ (LittleEndian.encode checksumLength p.checksum.toNat ++ rest) with
    | a :: b :: tail => exact ⟨a, b, tail, rfl⟩
    | [] | [_] =>
      have := congrArg List.length eq
      simp only [List.length_append, LittleEndian.length_encode, checksumLength, List.length_cons,
        List.length_nil] at this
      omega
  have long : ¬ (a :: b :: tail).length < p.header.length.toNat + checksumLength := by
    rw [← split, h]
    simp
  rw [Packet.bytes_append, split, decode]
  simp only [ne_eq, not_true_eq_false, if_false, if_neg long]
  congr 1
  obtain ⟨header, payload, checksum⟩ := p
  simp only [Packet.Sized] at h
  rw [← split, h]
  simp only [List.take_left, List.drop_left, Packet.mk.injEq, true_and]
  rw [List.take_left' (by simp), Packet.checksum_of_encode]

theorem decode_bytes (r : Registry) (h : p.Sized) : decode r p.bytes = checkSeed r p := by
  rw [← decode_bytes_append r h [], List.append_nil]

end Codec

end VehicleLink
