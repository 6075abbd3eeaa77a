import VehicleLink.Proofs.RoundTrip
import VehicleLink.Proofs.Stream.Chunks
import VehicleLink.Proofs.Stream.Resync

namespace VehicleLink.Stream

def Passes (r : Registry) (p : Packet) (rest : List UInt8) : Prop :=
  p.Sized ∧ (p.Sealed r ∨ r.seed? p.kind = none ∧ aligned rest = true)

variable {r : Registry} {ended : Bool} {p q : Packet} {packets : List Packet}
  {bytes rest : List UInt8}

theorem drain_passes (h : Passes r p rest) :
    drain r ended (p.bytes ++ rest) =
      (report r p :: (drain r ended rest).1, (drain r ended rest).2) := by
  obtain ⟨sized, isSealed | ⟨unknown, next⟩⟩ := h
  · rw [report_of_sound ⟨sized, isSealed⟩, drain_sound ⟨sized, isSealed⟩]
  · rw [report_of_unregistered unknown, drain_unregistered sized unknown next]

theorem drain_startByte
    (h : ∀ q rest, startByte :: bytes = q.bytes ++ rest → ¬ Passes r q rest) :
    drain r true (startByte :: bytes) = drain r true bytes
      ∨ ∃ expected actual, drain r true (startByte :: bytes) =
        (.error (.checksum expected actual) :: (drain r true bytes).1, (drain r true bytes).2) := by
  by_cases whole : ∃ q : Packet, q.Sized ∧ q.bytes <+: startByte :: bytes
  · obtain ⟨q, sized, rest, same⟩ := whole
    have failed := h q rest same.symm
    have tail : bytes = q.bytes.tail ++ rest := (List.cons.inj same).2.symm
    rw [← same, tail]
    obtain isSealed | unknown | ⟨expected, actual, mismatch⟩ := Codec.checkSeed_cases r q
    · exact absurd ⟨sized, .inl isSealed⟩ failed
    · refine .inl (drain_unaligned sized unknown fun next => ?_)
      exact failed ⟨sized, .inr ⟨unknown, next⟩⟩
    · exact .inr ⟨expected, actual, drain_unsealed sized mismatch rest⟩
  · exact .inl (drain_cut fun q sized isPrefix => whole ⟨q, sized, isPrefix⟩)

theorem drain_frames (h : ∀ p ∈ packets, p.Sound r) :
    drain r ended (packets.flatMap Packet.bytes) =
      (packets.map fun p => .ok ⟨p, p.bytes⟩, []) := by
  induction packets with
  | nil => exact drain_nil
  | cons p packets ih =>
    obtain ⟨isSound, later⟩ := List.forall_mem_cons.mp h
    rw [List.flatMap_cons, drain_sound isSound, ih later, List.map_cons]

/-- The length of a frame that begins with the stray byte is the start byte of the first frame,
and its kind the component that sent that one. -/
theorem size_and_kind_of_stray (sized : q.Sized)
    (same : startByte :: (p.bytes ++ bytes) = q.bytes ++ rest) :
    q.size = 262 ∧ q.kind = p.header.component := by
  rw [Packet.bytes_append, Packet.bytes_append] at same
  simp only [List.cons.injEq, true_and] at same
  obtain ⟨length, -, -, -, kind, -⟩ := same
  refine ⟨?_, kind.symm⟩
  rw [Packet.size, ← sized, ← length]
  rfl

theorem exists_stray (p : Packet) (bytes : List UInt8)
    (long : 261 ≤ (p.bytes ++ bytes).length) :
    ∃ q : Packet, ∃ rest, q.Sized ∧ startByte :: (p.bytes ++ bytes) = q.bytes ++ rest
      ∧ q.size = 262 ∧ q.kind = p.header.component := by
  have whole : headerLength + startByte.toNat + checksumLength ≤
      (p.bytes ++ bytes).tail.length + 2 := by
    rw [List.length_tail]
    change 262 ≤ _
    omega
  obtain ⟨q, rest, sized, -, same⟩ := Packet.exists_bytes_append whole
  exact ⟨q, rest, sized, same, size_and_kind_of_stray sized same⟩

/-- Every frame behind a stray start byte is found, behind a failed checksum at most, unless the
stray byte begins what passes for a frame; then decoding goes on behind that. -/
theorem drain_stray (h : ∀ q ∈ p :: packets, q.Sound r) :
    let stream := startByte :: (p :: packets).flatMap Packet.bytes
    ((∀ q rest, stream = q.bytes ++ rest → ¬ Passes r q rest) →
        ∃ errors, drain r true stream =
            (errors ++ (p :: packets).map fun q => .ok ⟨q, q.bytes⟩, [])
          ∧ (errors = [] ∨ ∃ expected actual, errors = [.error (.checksum expected actual)]))
      ∧ ∀ q rest, stream = q.bytes ++ rest → Passes r q rest →
        q.size = 262 ∧ q.kind = p.header.component
          ∧ drain r true stream = (report r q :: (drain r true rest).1, []) := by
  intro stream
  constructor
  · intro stray
    obtain skipped | ⟨expected, actual, failed⟩ := drain_startByte stray
    · exact ⟨[], by rw [skipped, drain_frames h]; rfl, .inl rfl⟩
    · refine ⟨_, ?_, .inr ⟨expected, actual, rfl⟩⟩
      rw [failed, drain_frames h]
      rfl
  · intro q rest same passes
    have seen : startByte :: (p.bytes ++ packets.flatMap Packet.bytes) = q.bytes ++ rest := same
    obtain ⟨size, kind⟩ := size_and_kind_of_stray passes.1 seen
    exact ⟨size, kind, by rw [same, drain_passes passes, kept_drain_ended]⟩

def beacon : Packet := Codec.stamp Codec.echo ⟨0, 1, 200⟩ (List.replicate 11 0)

theorem drain_stray_beacons :
    let r : Registry := ⟨[Codec.echo], by decide⟩
    let stream := startByte :: (List.replicate 20 beacon).flatMap Packet.bytes
    (∀ p ∈ List.replicate 20 beacon, p.Sound r)
      ∧ (∀ q rest, stream = q.bytes ++ rest → ¬ Passes r q rest)
      ∧ ∃ errors, drain r true stream =
          (errors ++ (List.replicate 20 beacon).map fun p => .ok ⟨p, p.bytes⟩, []) := by
  intro r stream
  have sound : ∀ p ∈ beacon :: List.replicate 19 beacon, p.Sound r := by
    intro p isBeacon
    change p ∈ List.replicate 20 beacon at isBeacon
    rw [List.eq_of_mem_replicate isBeacon]
    exact ⟨by decide, 42, by decide, by decide⟩
  have stray : ∀ q rest, stream = q.bytes ++ rest → ¬ Passes r q rest := by
    rintro q rest same ⟨sized, isSealed | ⟨-, next⟩⟩
    · have refused : (Codec.decode r stream).isOk = false := by decide +kernel
      rw [same, Codec.decode_bytes_append r sized, Codec.checkSeed_of_sealed isSealed] at refused
      cases refused
    · have seen : startByte :: (beacon.bytes ++ (List.replicate 19 beacon).flatMap Packet.bytes) =
          q.bytes ++ rest := same
      obtain ⟨size, -⟩ := size_and_kind_of_stray sized seen
      have noNext : aligned (stream.drop 262) = false := by decide +kernel
      rw [same, ← size, ← Packet.length_bytes, List.drop_left, next] at noNext
      cases noNext
  obtain ⟨errors, found, -⟩ := (drain_stray sound).1 stray
  exact ⟨sound, stray, errors, found⟩

theorem drain_stray_pings :
    ∃ q, drain pings true (startByte :: (List.replicate 29 ping).flatMap Packet.bytes) =
      ([.error (.unknownKind q)], []) := by
  let stream := startByte :: (ping.bytes ++ (List.replicate 28 ping).flatMap Packet.bytes)
  obtain ⟨q, rest, sized, same, size, kind⟩ :=
    exists_stray ping ((List.replicate 28 ping).flatMap Packet.bytes) (by decide +kernel)
  have length : (q.bytes ++ rest).length = 262 := by
    rw [← same]
    decide +kernel
  obtain rfl : rest = [] := by
    rw [List.length_append, Packet.length_bytes, size] at length
    exact List.length_eq_zero_iff.mp (Nat.add_left_cancel length)
  have unknown : pings.seed? q.kind = none := by rw [kind]; rfl
  refine ⟨q, ?_⟩
  change drain pings true stream = _
  rw [show stream = _ from same, drain_unregistered sized unknown rfl, drain_nil]

def decoy : Packet :=
  let body := [254, 255, 0, 1, 7, 7] ++ List.replicate 253 0
  let checksum := Checksum.ofBody body 42
  Codec.stamp Codec.echo ⟨0, 1, 7⟩
    (List.replicate 253 0 ++ LittleEndian.encode checksumLength checksum.toNat)

theorem drain_stray_decoy :
    let r : Registry := ⟨[Codec.echo], by decide⟩
    ∃ q, q ≠ decoy ∧ drain r true (startByte :: decoy.bytes) = ([.ok ⟨q, q.bytes⟩], []) := by
  intro r
  let stream := startByte :: decoy.bytes
  obtain ⟨q, rest, sized, same, size, -⟩ :=
    exists_stray decoy [] (by decide +kernel)
  rw [List.append_nil] at same
  have isSealed : q.Sealed r := by
    have accepted : (Codec.decode r stream).isOk = true := by decide +kernel
    rw [show stream = _ from same, Codec.decode_bytes_append r sized] at accepted
    obtain isSealed | unknown | ⟨_, _, failed⟩ := Codec.checkSeed_cases r q
    · exact isSealed
    · rw [Codec.checkSeed_of_unregistered unknown] at accepted
      cases accepted
    · rw [failed] at accepted
      cases accepted
  have left : rest = [50, 113] := by
    have dropped : stream.drop 262 = [50, 113] := by decide +kernel
    rwa [show stream = _ from same, ← size, ← Packet.length_bytes, List.drop_left] at dropped
  refine ⟨q, fun isDecoy => ?_, ?_⟩
  · rw [isDecoy] at size
    exact absurd size (by decide +kernel)
  · rw [same, drain_sound ⟨sized, isSealed⟩, left, drain_of_noise (by decide)]

/-- One start byte too many can cost all frames, though each of them is sound. -/
theorem lost_behind_stray :
    let r : Registry := ⟨[Codec.echo], by decide⟩
    ((∀ p ∈ List.replicate 29 ping, p.Sound pings)
        ∧ ∃ q, drain pings true (startByte :: (List.replicate 29 ping).flatMap Packet.bytes) =
          ([.error (.unknownKind q)], []))
      ∧ decoy.Sound r
      ∧ ∃ q, q ≠ decoy ∧ drain r true (startByte :: decoy.bytes) = ([.ok ⟨q, q.bytes⟩], []) := by
  intro r
  have sound : ∀ p ∈ List.replicate 29 ping, p.Sound pings := fun p isPing =>
    List.eq_of_mem_replicate isPing ▸ ping_sound
  have decoySound : decoy.Sound r := ⟨by decide +kernel, 42, by decide, by decide +kernel⟩
  exact ⟨⟨sound, drain_stray_pings⟩, decoySound, drain_stray_decoy⟩

end VehicleLink.Stream
