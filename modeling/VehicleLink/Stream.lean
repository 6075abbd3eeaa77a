import VehicleLink.Codec

/-! Frames out of a byte stream.  Bytes before a start byte are dropped; a frame that fails
its checksum costs one byte and the search goes on behind it; a frame of an unregistered kind
counts only if another frame, or the end of the buffer, follows it directly. -/

namespace VehicleLink

structure Frame where
  packet : Packet
  raw : List UInt8
  deriving DecidableEq, Repr

abbrev Item := Except WireError Frame

namespace Stream

inductive Attempt
  | wait
  | skip
  | yield (item : Item) (rest : List UInt8)

/-- Whether a buffer ends here or goes on with a start byte. -/
def aligned : List UInt8 → Bool
  | [] => true
  | b :: _ => b == startByte

/-- The outcome for a complete stretch `raw`, which `rest` follows; `later` is the buffer
without its start byte. -/
def judge (result : Except WireError Packet) (raw rest later : List UInt8) : Attempt :=
  match result with
  | .ok packet => .yield (.ok ⟨packet, raw⟩) rest
  | .error (.unknownKind packet) =>
    if aligned rest then .yield (.error (.unknownKind packet)) rest else .skip
  | .error e => .yield (.error e) later

def attempt (r : Registry) : List UInt8 → Attempt
  | start :: length :: bytes =>
    let buffer := start :: length :: bytes
    let total := headerLength + length.toNat + checksumLength
    if buffer.length < total then .wait
    else
      let raw := buffer.take total
      judge (Codec.decode r raw) raw (buffer.drop total) (length :: bytes)
  | _ => .wait

/-- The next item and the bytes kept for later.  When the stream has ended, a frame that is
cut short is given up and its start byte skipped. -/
def scan (r : Registry) (ended : Bool) : List UInt8 → Option Item × List UInt8
  | [] => (none, [])
  | b :: bytes =>
    if b = startByte then
      match attempt r (b :: bytes) with
      | .wait => if ended then scan r ended bytes else (none, b :: bytes)
      | .skip => scan r ended bytes
      | .yield item rest => (some item, rest)
    else scan r ended bytes

theorem eq_or_eq_of_judge {result : Except WireError Packet} {raw rest later kept : List UInt8}
    {item : Item} (h : judge result raw rest later = .yield item kept) :
    kept = rest ∨ kept = later := by
  unfold judge at h
  split at h
  · cases h; exact .inl rfl
  · split at h <;> cases h
    exact .inl rfl
  · cases h; exact .inr rfl

theorem length_lt_of_attempt {r : Registry} {buffer rest : List UInt8} {item : Item}
    (h : attempt r buffer = .yield item rest) : rest.length < buffer.length := by
  unfold attempt at h
  split at h
  · dsimp only at h
    split at h
    · cases h
    · rcases eq_or_eq_of_judge h with rfl | rfl
      · simp only [List.length_drop, List.length_cons, headerLength, checksumLength]
        omega
      · simp
  · cases h

theorem length_lt_of_scan {r : Registry} {ended : Bool} {buffer rest : List UInt8} {item : Item}
    (h : scan r ended buffer = (some item, rest)) : rest.length < buffer.length := by
  induction buffer with
  | nil => cases h
  | cons b bytes ih =>
    simp only [scan] at h
    split at h
    · split at h
      · split at h
        · exact Nat.lt_succ_of_lt (ih h)
        · cases h
      · exact Nat.lt_succ_of_lt (ih h)
      next hy =>
        cases h
        exact length_lt_of_attempt hy
    · exact Nat.lt_succ_of_lt (ih h)

def drain (r : Registry) (ended : Bool) (buffer : List UInt8) : List Item × List UInt8 :=
  match h : scan r ended buffer with
  | (none, rest) => ([], rest)
  | (some item, rest) =>
    have : rest.length < buffer.length := length_lt_of_scan h
    let (items, kept) := drain r ended rest
    (item :: items, kept)
termination_by buffer.length

end Stream

end VehicleLink
