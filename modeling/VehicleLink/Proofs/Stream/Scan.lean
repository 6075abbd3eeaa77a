import VehicleLink.Proofs.Frame
import VehicleLink.Stream

namespace VehicleLink.Stream

def Cut (buffer : List UInt8) : Prop := ∀ p : Packet, p.Sized → ¬ p.bytes <+: buffer

/-- Induction along a buffer, by what it begins with. -/
@[elab_as_elim] theorem buffer_induction (r : Registry) {motive : List UInt8 → Prop}
    (empty : motive [])
    (noise : ∀ b bytes, b ≠ startByte → motive bytes → motive (b :: bytes))
    (cut : ∀ bytes, Cut (startByte :: bytes) → motive bytes → motive (startByte :: bytes))
    (sound : ∀ (p : Packet) rest, p.Sound r → motive rest → motive (p.bytes ++ rest))
    (unregistered : ∀ (p : Packet) rest, p.Sized → r.seed? p.kind = none → motive rest →
      motive (p.bytes.tail ++ rest) → motive (p.bytes ++ rest))
    (unsealed : ∀ (p : Packet) rest expected actual, p.Sized →
      Codec.checkSeed r p = .error (.checksum expected actual) →
      motive (p.bytes.tail ++ rest) → motive (p.bytes ++ rest))
    (buffer : List UInt8) : motive buffer := by
  induction length : buffer.length using Nat.strongRecOn generalizing buffer with
  | _ n ih =>
    subst length
    by_cases whole : ∃ p : Packet, p.Sized ∧ p.bytes <+: buffer
    · obtain ⟨p, sized, rest, rfl⟩ := whole
      have behind : motive rest := ih _ (by simpa using p.size_pos) rest rfl
      have inside : motive (p.bytes.tail ++ rest) := ih _ (Nat.lt_succ_self _) _ rfl
      obtain isSealed | unknown | ⟨expected, actual, failed⟩ := Codec.checkSeed_cases r p
      · exact sound p rest ⟨sized, isSealed⟩ behind
      · exact unregistered p rest sized unknown behind inside
      · exact unsealed p rest expected actual sized failed inside
    · cases buffer with
      | nil => exact empty
      | cons b bytes =>
        have later : motive bytes := ih _ (Nat.lt_succ_self _) bytes rfl
        by_cases start : b = startByte
        · subst start
          exact cut bytes (fun p sized h => whole ⟨p, sized, h⟩) later
        · exact noise b bytes start later

variable {r : Registry} {ended : Bool} {p : Packet} {bytes rest : List UInt8}

theorem bytes_append_eq_cons (p : Packet) (rest : List UInt8) :
    p.bytes ++ rest = startByte :: (p.bytes.tail ++ rest) := rfl

theorem attempt_bytes_append (r : Registry) (h : p.Sized) (rest : List UInt8) :
    attempt r (p.bytes ++ rest) =
      judge (Codec.checkSeed r p) p.bytes rest (p.bytes.tail ++ rest) := by
  have total : headerLength + p.header.length.toNat + checksumLength = p.bytes.length := by
    rw [h, Packet.length_bytes, Packet.size]
  have long : ¬ (p.bytes ++ rest).length < p.bytes.length := by simp
  change (let total := headerLength + p.header.length.toNat + checksumLength
    if (p.bytes ++ rest).length < total then Attempt.wait
    else judge (Codec.decode r ((p.bytes ++ rest).take total)) ((p.bytes ++ rest).take total)
      ((p.bytes ++ rest).drop total) (p.bytes.tail ++ rest)) = _
  simp only [total, if_neg long, List.take_left, List.drop_left, Codec.decode_bytes r h]

theorem attempt_of_cut (h : Cut (startByte :: bytes)) : attempt r (startByte :: bytes) = .wait := by
  cases bytes with
  | nil => rfl
  | cons length bytes =>
    rw [attempt]
    refine if_pos (Nat.lt_of_not_le fun whole => ?_)
    obtain ⟨p, rest, sized, -, eq⟩ := Packet.exists_bytes_append whole
    exact h p sized ⟨rest, eq.symm⟩

theorem scan_noise {b : UInt8} (h : b ≠ startByte) :
    scan r ended (b :: bytes) = scan r ended bytes := by
  rw [scan, if_neg h]

theorem scan_cut (h : Cut (startByte :: bytes)) :
    scan r ended (startByte :: bytes) =
      if ended then scan r ended bytes else (none, startByte :: bytes) := by
  rw [scan, if_pos rfl, attempt_of_cut h]

theorem scan_bytes_append (h : p.Sized) (rest : List UInt8) :
    scan r ended (p.bytes ++ rest) =
      match judge (Codec.checkSeed r p) p.bytes rest (p.bytes.tail ++ rest) with
      | .wait => if ended then scan r ended (p.bytes.tail ++ rest) else (none, p.bytes ++ rest)
      | .skip => scan r ended (p.bytes.tail ++ rest)
      | .yield item kept => (some item, kept) := by
  rw [← attempt_bytes_append r h, bytes_append_eq_cons, scan]
  exact if_pos rfl

theorem scan_sound (h : p.Sound r) (rest : List UInt8) :
    scan r ended (p.bytes ++ rest) = (some (.ok ⟨p, p.bytes⟩), rest) := by
  rw [scan_bytes_append h.isSized, Codec.checkSeed_of_sealed h.isSealed]
  rfl

theorem scan_unregistered (sized : p.Sized) (h : r.seed? p.kind = none) (rest : List UInt8) :
    scan r ended (p.bytes ++ rest) =
      if aligned rest then (some (.error (.unknownKind p)), rest)
      else scan r ended (p.bytes.tail ++ rest) := by
  rw [scan_bytes_append sized, Codec.checkSeed_of_unregistered h]
  by_cases next : aligned rest <;> simp [judge, next]

theorem scan_unsealed {expected actual : UInt16} (sized : p.Sized)
    (h : Codec.checkSeed r p = .error (.checksum expected actual)) (rest : List UInt8) :
    scan r ended (p.bytes ++ rest) =
      (some (.error (.checksum expected actual)), p.bytes.tail ++ rest) := by
  rw [scan_bytes_append sized, h]
  rfl

theorem drain_of_none {buffer kept : List UInt8} (h : scan r ended buffer = (none, kept)) :
    drain r ended buffer = ([], kept) := by
  rw [drain]
  split
  next eq => rw [h] at eq; cases eq; rfl
  next eq => rw [h] at eq; cases eq

theorem drain_of_some {buffer rest : List UInt8} {item : Item}
    (h : scan r ended buffer = (some item, rest)) :
    drain r ended buffer = (item :: (drain r ended rest).1, (drain r ended rest).2) := by
  rw [drain]
  split
  next eq => rw [h] at eq; cases eq
  next eq => rw [h] at eq; cases eq; rfl

theorem drain_congr {x y : List UInt8} (h : scan r ended x = scan r ended y) :
    drain r ended x = drain r ended y := by
  match eq : scan r ended y with
  | (none, kept) => rw [drain_of_none eq, drain_of_none (h.trans eq)]
  | (some item, rest) => rw [drain_of_some eq, drain_of_some (h.trans eq)]

@[simp] theorem drain_nil : drain r ended [] = ([], []) := drain_of_none rfl

theorem drain_noise {b : UInt8} (h : b ≠ startByte) :
    drain r ended (b :: bytes) = drain r ended bytes := drain_congr (scan_noise h)

theorem drain_of_noise (h : startByte ∉ bytes) : drain r ended bytes = ([], []) := by
  induction bytes with
  | nil => exact drain_nil
  | cons b bytes ih =>
    have start : b ≠ startByte := (List.ne_of_not_mem_cons h).symm
    rw [drain_noise start, ih (List.not_mem_of_not_mem_cons h)]

theorem drain_sound (h : p.Sound r) (rest : List UInt8) :
    drain r ended (p.bytes ++ rest) =
      (.ok ⟨p, p.bytes⟩ :: (drain r ended rest).1, (drain r ended rest).2) :=
  drain_of_some (scan_sound h rest)

theorem drain_cut (h : Cut (startByte :: bytes)) :
    drain r true (startByte :: bytes) = drain r true bytes :=
  drain_congr (scan_cut h)

theorem drain_waits (h : Cut (startByte :: bytes)) :
    drain r false (startByte :: bytes) = ([], startByte :: bytes) :=
  drain_of_none (scan_cut h)

theorem drain_unregistered (sized : p.Sized) (h : r.seed? p.kind = none)
    (next : aligned rest = true) :
    drain r ended (p.bytes ++ rest) =
      (.error (.unknownKind p) :: (drain r ended rest).1, (drain r ended rest).2) :=
  drain_of_some (by rw [scan_unregistered sized h, if_pos next])

theorem drain_unaligned (sized : p.Sized) (h : r.seed? p.kind = none)
    (next : ¬ aligned rest = true) :
    drain r ended (p.bytes ++ rest) = drain r ended (p.bytes.tail ++ rest) :=
  drain_congr (by rw [scan_unregistered sized h, if_neg next])

theorem drain_unsealed {expected actual : UInt16} (sized : p.Sized)
    (h : Codec.checkSeed r p = .error (.checksum expected actual)) (rest : List UInt8) :
    drain r ended (p.bytes ++ rest) =
      (.error (.checksum expected actual) :: (drain r ended (p.bytes.tail ++ rest)).1,
        (drain r ended (p.bytes.tail ++ rest)).2) :=
  drain_of_some (scan_unsealed sized h rest)

end VehicleLink.Stream
