import VehicleLink.Proofs.Stream.Scan

namespace VehicleLink.Stream

def report (r : Registry) (p : Packet) : Item :=
  if (r.seed? p.kind).isSome then .ok ⟨p, p.bytes⟩ else .error (.unknownKind p)

/-- The packets of a stream, apart from bytes that start nothing.  Behind a frame of an
unregistered kind there is no such byte: the next frame follows it, or the stream ends. -/
inductive Carries (r : Registry) : List UInt8 → List Packet → Prop
  | nil : Carries r [] []
  | noise {b bytes packets} : b ≠ startByte → Carries r bytes packets →
      Carries r (b :: bytes) packets
  | sound {p : Packet} {rest packets} : p.Sound r → Carries r rest packets →
      Carries r (p.bytes ++ rest) (p :: packets)
  | unregistered {p : Packet} {rest packets} : p.Sized → r.seed? p.kind = none →
      (∀ b ∈ rest.head?, b = startByte) → Carries r rest packets →
      Carries r (p.bytes ++ rest) (p :: packets)

def deliver (r : Registry) (kept : List UInt8) : List (List UInt8) → List Item × List UInt8
  | [] => ([], kept)
  | chunk :: chunks =>
    let (items, kept) := drain r false (kept ++ chunk)
    let (later, kept) := deliver r kept chunks
    (items ++ later, kept)

variable {r : Registry} {p : Packet} {packets : List Packet}

theorem report_of_sound (h : p.Sound r) : report r p = .ok ⟨p, p.bytes⟩ := by
  obtain ⟨-, seed, registered, -⟩ := h
  simp [report, registered]

theorem report_of_unregistered (h : r.seed? p.kind = none) :
    report r p = .error (.unknownKind p) := by
  simp [report, h]

theorem aligned_iff {rest : List UInt8} :
    aligned rest = true ↔ ∀ b ∈ rest.head?, b = startByte := by
  cases rest <;> simp [aligned]

theorem aligned_of_append {front later : List UInt8}
    (h : ∀ b ∈ (front ++ later).head?, b = startByte) : aligned front = true := by
  rw [aligned_iff]
  intro b first
  exact h b (by simp [Option.mem_def.mp first])

theorem drain_short {front more : List UInt8} (sized : p.Sized) (h : p.bytes = front ++ more)
    (lacking : more ≠ []) : drain r false front = ([], front) := by
  cases front with
  | nil => exact drain_nil
  | cons b front =>
    obtain rfl : b = startByte := (List.cons.inj h).1.symm
    have cut : Cut (startByte :: front) := by
      rintro q isSized ⟨rest, eq⟩
      rw [← eq, List.append_assoc, ← List.append_nil p.bytes] at h
      obtain ⟨-, empty⟩ := Packet.eq_of_bytes_append sized isSized h
      exact lacking (List.append_eq_nil_iff.mp empty.symm).2
    exact drain_waits cut

theorem whole_or_short {rest front later : List UInt8} (sized : p.Sized)
    (h : p.bytes ++ rest = front ++ later) :
    (∃ mid, front = p.bytes ++ mid ∧ rest = mid ++ later) ∨
      drain r false front = ([], front) := by
  obtain ⟨mid, whole⟩ | ⟨more, part, -⟩ := List.append_eq_append_iff.mp h
  · exact .inl ⟨mid, whole⟩
  · by_cases lacking : more = []
    · subst lacking
      rw [List.append_nil] at part
      subst part
      exact .inl ⟨[], (List.append_nil _).symm, List.append_cancel_left h⟩
    · exact .inr (drain_short sized part lacking)

theorem Carries.drain_eq {stream : List UInt8} (h : Carries r stream packets) :
    drain r false stream = (packets.map (report r), []) := by
  induction h with
  | nil => exact drain_nil
  | noise start _ ih => rw [drain_noise start, ih]
  | sound isSound _ ih => rw [drain_sound isSound, ih, List.map_cons, report_of_sound isSound]
  | unregistered sized unknown next _ ih =>
    rw [drain_unregistered sized unknown (aligned_iff.mpr next), ih, List.map_cons,
      report_of_unregistered unknown]

theorem Carries.drain_front {stream : List UInt8} (h : Carries r stream packets)
    {front later : List UInt8} (eq : stream = front ++ later) :
    ∃ before after, packets = before ++ after ∧
      (drain r false front).1 = before.map (report r) ∧
      Carries r ((drain r false front).2 ++ later) after := by
  induction h generalizing front with
  | nil =>
    obtain ⟨rfl, rfl⟩ := List.append_eq_nil_iff.mp eq.symm
    exact ⟨[], [], rfl, by simp, by simpa using Carries.nil⟩
  | @noise b bytes packets start carried ih =>
    cases front with
    | nil =>
      subst eq
      exact ⟨[], packets, rfl, by simp, by simpa using carried.noise start⟩
    | cons b' front =>
      obtain ⟨rfl, tail⟩ := List.cons.inj eq
      rw [drain_noise start]
      exact ih tail
  | @sound p rest packets isSound carried ih =>
    obtain ⟨mid, rfl, tail⟩ | short := whole_or_short (r := r) isSound.isSized eq
    · obtain ⟨before, after, rfl, items, kept⟩ := ih tail
      refine ⟨p :: before, after, rfl, ?_, ?_⟩
      · rw [drain_sound isSound, items, List.map_cons, report_of_sound isSound]
      · rw [drain_sound isSound]
        exact kept
    · rw [short]
      exact ⟨[], p :: packets, rfl, rfl, eq ▸ carried.sound isSound⟩
  | @unregistered p rest packets sized unknown next carried ih =>
    obtain ⟨mid, rfl, tail⟩ | short := whole_or_short (r := r) sized eq
    · obtain ⟨before, after, rfl, items, kept⟩ := ih tail
      have arrived : aligned mid = true := aligned_of_append (tail ▸ next)
      refine ⟨p :: before, after, rfl, ?_, ?_⟩
      · rw [drain_unregistered sized unknown arrived, items, List.map_cons,
          report_of_unregistered unknown]
      · rw [drain_unregistered sized unknown arrived]
        exact kept
    · rw [short]
      exact ⟨[], p :: packets, rfl, rfl, eq ▸ carried.unregistered sized unknown next⟩

theorem Carries.deliver_cons {chunks : List (List UInt8)} {kept chunk : List UInt8}
    (h : Carries r (kept ++ chunk ++ chunks.flatten) packets) :
    deliver r kept (chunk :: chunks) = (packets.map (report r), []) := by
  induction chunks generalizing kept chunk packets with
  | nil =>
    rw [List.flatten_nil, List.append_nil] at h
    simp [deliver, h.drain_eq]
  | cons next chunks ih =>
    obtain ⟨before, after, rfl, items, carried⟩ := h.drain_front rfl
    rw [List.flatten_cons, ← List.append_assoc] at carried
    change (_ ++ (deliver r _ (next :: chunks)).1, (deliver r _ (next :: chunks)).2) = _
    rw [ih carried, items, List.map_append]

/-- Frames are found in full whatever the pieces are that a stream arrives in. -/
theorem deliver_of_carries {chunks : List (List UInt8)} (h : Carries r chunks.flatten packets) :
    deliver r [] chunks = (packets.map (report r), []) := by
  cases chunks with
  | nil => exact h.drain_eq ▸ drain_nil.symm
  | cons chunk chunks => exact Carries.deliver_cons h

def pings : Registry := ⟨[⟨7, "PING", [.scalar "tag" .u8], 0x2A⟩], by decide⟩

def ping : Packet := Codec.stamp ⟨7, "PING", [.scalar "tag" .u8], 0x2A⟩ ⟨0, 1, 1⟩ [startByte]

def stranger : Packet := ⟨⟨0, 0, 1, 1, 200⟩, [], 0⟩

theorem ping_sound : ping.Sound pings := ⟨by decide, 0x2A, by decide, by decide⟩

/-- The pieces end inside a header, inside a checksum and inside a frame of an unknown kind. -/
theorem deliver_pings :
    Carries pings
        [0 :: ping.bytes.take 3, ping.bytes.drop 3 ++ stranger.bytes.take 7,
          stranger.bytes.drop 7 ++ ping.bytes ++ [1]].flatten [ping, stranger, ping]
      ∧ deliver pings []
          [0 :: ping.bytes.take 3, ping.bytes.drop 3 ++ stranger.bytes.take 7,
            stranger.bytes.drop 7 ++ ping.bytes ++ [1]]
        = ([ping, stranger, ping].map (report pings), []) := by
  have tail : Carries pings (ping.bytes ++ [1]) [ping] :=
    .sound ping_sound (.noise (by decide) .nil)
  have carried : Carries pings
      (0 :: (ping.bytes ++ (stranger.bytes ++ (ping.bytes ++ [1])))) [ping, stranger, ping] := by
    refine .noise (by decide) (.sound ping_sound (.unregistered (by decide) (by decide) ?_ tail))
    rintro b ⟨⟩
    rfl
  exact ⟨carried, deliver_of_carries carried⟩

end VehicleLink.Stream
