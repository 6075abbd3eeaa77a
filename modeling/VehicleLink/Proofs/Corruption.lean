import VehicleLink.Proofs.Checksum
import VehicleLink.Proofs.Decoding

namespace VehicleLink

namespace Packet

inductive Part
  | sender
  | payload
  | checksum

def Part.Covers (p : Packet) (i : Nat) : Part → Prop
  | sender => 2 ≤ i ∧ i < 5
  | payload => headerLength ≤ i ∧ i < headerLength + p.payload.length
  | checksum => headerLength + p.payload.length ≤ i ∧ i < p.size

instance (p : Packet) (i : Nat) : (part : Part) → Decidable (part.Covers p i)
  | .sender => inferInstanceAs (Decidable (_ ∧ _))
  | .payload => inferInstanceAs (Decidable (_ ∧ _))
  | .checksum => inferInstanceAs (Decidable (_ ∧ _))

/-- Bytes that begin with the frame of a packet, and what has become of them: one part of the
frame has changed, in one byte or in two that stand side by side. -/
structure Corrupts (p : Packet) (part : Part) (data data' : List UInt8) : Prop where
  differs : data' ≠ data
  near : ∃ k, Near k data' data
  within : ∀ i, data'[i]? ≠ data[i]? → part.Covers p i

variable {r : Registry} {p q : Packet} {part : Part} {data rest rest' : List UInt8} {i : Nat}

theorem bytes_append_eq (p : Packet) (rest : List UInt8) :
    p.bytes ++ rest =
      startByte :: (p.body ++ (LittleEndian.encode checksumLength p.checksum.toNat ++ rest)) := by
  simp [bytes]

theorem length_body (p : Packet) : p.body.length = 5 + p.payload.length := by
  simp only [body, List.length_cons]
  omega

theorem length_body_congr (length : q.payload.length = p.payload.length) :
    q.body.length = p.body.length := by
  rw [length_body, length_body, length]

section Places

theorem getElem?_body (rest : List UInt8) (inside : i < p.body.length) :
    (p.bytes ++ rest)[i + 1]? = p.body[i]? := by
  rw [bytes_append_eq, List.getElem?_cons_succ, List.getElem?_append_left inside]

theorem getElem?_checksum (rest : List UInt8) (inside : i < checksumLength) :
    (p.bytes ++ rest)[headerLength + p.payload.length + i]? =
      (LittleEndian.encode checksumLength p.checksum.toNat)[i]? := by
  have place : headerLength + p.payload.length + i = p.body.length + i + 1 := by
    simp only [length_body, headerLength]
    omega
  rw [place, bytes_append_eq, List.getElem?_cons_succ,
    List.getElem?_append_right (Nat.le_add_right _ _), Nat.add_sub_cancel_left,
    List.getElem?_append_left (by rwa [LittleEndian.length_encode])]

theorem getElem?_behind (rest : List UInt8) (i : Nat) : (p.bytes ++ rest)[p.size + i]? = rest[i]? := by
  rw [← length_bytes, List.getElem?_append_right (Nat.le_add_right _ _), Nat.add_sub_cancel_left]

end Places

theorem eq_of_body (body : p.body = q.body) (checksum : p.checksum = q.checksum) : p = q := by
  obtain ⟨⟨_, _, _, _, _⟩, _, _⟩ := p
  obtain ⟨⟨_, _, _, _, _⟩, _, _⟩ := q
  cases body
  cases checksum
  rfl

namespace Corrupts

theorem same (h : p.Corrupts part data rest) (outside : ¬ part.Covers p i) :
    rest[i]? = data[i]? := by
  by_contra differ
  exact outside (h.within i differ)

theorem exists_bytes (h : p.Corrupts part (p.bytes ++ rest) data) (sized : p.Sized) :
    ∃ q : Packet, ∃ rest', data = q.bytes ++ rest' ∧ q.Sized
      ∧ q.payload.length = p.payload.length ∧ q.kind = p.kind := by
  have outside {i : Nat} (fixed : i < 2 ∨ i = 5) : ¬ part.Covers p i := by
    cases part <;> simp only [Part.Covers, headerLength] <;> omega
  have start : data[0]? = some startByte := h.same (outside (.inl (by decide)))
  have length : data[1]? = some p.header.length := h.same (outside (.inl (by decide)))
  have kind : data[5]? = some p.kind := h.same (outside (.inr rfl))
  obtain ⟨_, near⟩ := h.near
  obtain _ | ⟨b, _ | ⟨b', tail⟩⟩ := data
  · cases start
  · cases length
  · cases start
    cases length
    have whole : headerLength + p.header.length.toNat + checksumLength ≤ tail.length + 2 := by
      have long := near.length
      rw [List.length_append, length_bytes, size] at long
      rw [sized]
      exact Nat.le.intro long.symm
    obtain ⟨q, rest', sized', length', same⟩ := exists_bytes_append whole
    rw [same] at kind ⊢
    refine ⟨q, rest', rfl, sized', ?_, Option.some.inj kind⟩
    rw [← sized', length', sized]

variable (h : p.Corrupts part (p.bytes ++ rest) (q.bytes ++ rest'))
  (length : q.payload.length = p.payload.length)

include h length

theorem body_eq_or_checksum_eq : q.body = p.body ∨ q.checksum = p.checksum := by
  by_cases later : part = .checksum
  · refine .inl (List.ext_getElem (length_body_congr length) fun i inside' inside => ?_)
    have outside : ¬ part.Covers p (i + 1) := by
      rw [length_body] at inside
      simp only [later, Part.Covers, headerLength]
      omega
    have same := h.same outside
    rw [getElem?_body rest inside, getElem?_body rest' inside'] at same
    simpa [inside, inside'] using same
  · have encoded : LittleEndian.encode checksumLength q.checksum.toNat =
        LittleEndian.encode checksumLength p.checksum.toNat := by
      refine List.ext_getElem (by simp) fun i inside' inside => ?_
      have outside : ¬ part.Covers p (headerLength + p.payload.length + i) := by
        cases part with
        | checksum => exact absurd rfl later
        | sender | payload =>
          simp only [Part.Covers, headerLength]
          omega
      have same := h.same outside
      rw [LittleEndian.length_encode] at inside
      rw [getElem?_checksum rest inside, ← length, getElem?_checksum rest' inside] at same
      simpa [inside] using same
    exact .inr (by rw [← checksum_of_encode q.checksum, encoded, checksum_of_encode])

theorem rest_eq : rest' = rest := by
  refine List.ext_getElem? fun i => ?_
  have outside : ¬ part.Covers p (p.size + i) := by
    cases part <;> simp only [Part.Covers, size, headerLength] <;> omega
  have sizes : q.size = p.size := by rw [size, length, size]
  have same := h.same outside
  rwa [getElem?_behind, ← sizes, getElem?_behind] at same

theorem near_body : ∃ k, Near k q.body p.body := by
  obtain ⟨k, near⟩ := h.near
  rw [bytes_append_eq, bytes_append_eq] at near
  exact ⟨_, near.tail.left (length_body_congr length)⟩

theorem not_sealed (kind : q.kind = p.kind) (isSealed : p.Sealed r) : ¬ q.Sealed r := by
  rintro ⟨seed', registered', checksum'⟩
  obtain ⟨seed, registered, checksum⟩ := isSealed
  obtain rfl : seed' = seed := by
    rw [kind, registered] at registered'
    exact (Option.some.inj registered').symm
  have body : q.body = p.body := by
    obtain body | same := h.body_eq_or_checksum_eq length
    · exact body
    · obtain ⟨k, near⟩ := h.near_body length
      rw [checksum, checksum'] at same
      exact Checksum.eq_of_ofBody near same
  have whole : q = p := eq_of_body body (by rw [checksum, checksum', body])
  exact h.differs (by rw [whole, h.rest_eq length])

end Corrupts

end Packet

namespace Codec

variable {r : Registry} {p : Packet} {part : Packet.Part} {data data' : List UInt8}

/-- A frame fails its checksum if its sender, its payload or its checksum has changed in one byte
or in two adjacent ones. -/
theorem decode_of_corrupts (accepted : decode r data = .ok p) (h : p.Corrupts part data data') :
    ∃ expected actual, decode r data' = .error (.checksum expected actual) := by
  obtain ⟨isSound, rest, rfl⟩ := decode_eq_ok_iff.mp accepted
  obtain ⟨q, rest', rfl, sized, length, kind⟩ := h.exists_bytes isSound.isSized
  rw [decode_bytes_append r sized]
  obtain isSealed | unknown | failed := checkSeed_cases r q
  · exact absurd isSealed (h.not_sealed length kind isSound.isSealed)
  · obtain ⟨seed, registered, -⟩ := isSound.isSealed
    rw [kind, registered] at unknown
    cases unknown
  · exact failed

theorem decode_of_corrupts_echo :
    let r : Registry := ⟨[echo], by decide⟩
    let p := stamp echo ⟨0, 1, 1⟩ (List.replicate 11 0)
    let data' := (p.bytes.set 8 255).set 9 1
    decode r p.bytes = .ok p ∧ p.Corrupts .payload p.bytes data'
      ∧ ∃ expected actual, decode r data' = .error (.checksum expected actual) := by
  intro r p data'
  have accepted : decode r p.bytes = .ok p := by decide +kernel
  have changed (i : Nat) (differ : data'[i]? ≠ p.bytes[i]?) : i = 8 ∨ i = 9 := by
    by_contra other
    obtain ⟨first, second⟩ := not_or.mp other
    exact differ (by
      rw [List.getElem?_set_ne (Ne.symm second), List.getElem?_set_ne (Ne.symm first)])
  have corrupts : p.Corrupts .payload p.bytes data' := by
    refine ⟨by decide +kernel, ⟨8, by simp [data'], changed⟩, fun i differ => ?_⟩
    obtain rfl | rfl := changed i differ <;> decide
  exact ⟨accepted, corrupts, decode_of_corrupts accepted corrupts⟩

end Codec

end VehicleLink
