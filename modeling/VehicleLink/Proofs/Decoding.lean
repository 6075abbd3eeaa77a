import VehicleLink.Proofs.RoundTrip

namespace VehicleLink.Codec

inductive Front : List UInt8 → Prop
  | short {data} : data.length < leastFrameLength → Front data
  | noise {start rest} : start ≠ startByte → leastFrameLength ≤ (start :: rest).length →
    Front (start :: rest)
  | cut {length rest} : leastFrameLength ≤ (startByte :: length :: rest).length →
    (startByte :: length :: rest).length < headerLength + length.toNat + checksumLength →
    Front (startByte :: length :: rest)
  | whole {p : Packet} (rest) : p.Sized → Front (p.bytes ++ rest)

theorem front (data : List UInt8) : Front data := by
  by_cases least : data.length < leastFrameLength
  · exact .short least
  · obtain _ | ⟨start, _ | ⟨length, rest⟩⟩ := data
    · exact absurd (by decide) least
    · exact absurd (Nat.succ_lt_succ (by decide)) least
    · have long := Nat.le_of_not_lt least
      by_cases starts : start = startByte
      · subst starts
        by_cases isCut :
            (startByte :: length :: rest).length < headerLength + length.toNat + checksumLength
        · exact .cut long isCut
        · have whole : headerLength + length.toNat + checksumLength ≤ rest.length + 2 :=
            Nat.le_of_not_lt isCut
          obtain ⟨p, behind, sized, -, same⟩ := Packet.exists_bytes_append whole
          rw [same]
          exact .whole behind sized
      · exact .noise starts long

section Equations

variable (r : Registry) {data rest : List UInt8} {start length : UInt8}

theorem decode_short (h : data.length < leastFrameLength) :
    decode r data = .error (.truncated leastFrameLength data.length) := by
  rw [decode]
  intro _ _ _ _ _ _ _ _ _ same
  rw [same] at h
  simp only [List.length_cons, leastFrameLength, headerLength, checksumLength] at h
  omega

theorem exists_of_least (h : leastFrameLength ≤ data.length) :
    ∃ start length sequence system component kind a b rest,
      data = start :: length :: sequence :: system :: component :: kind :: a :: b :: rest := by
  simp only [leastFrameLength, headerLength, checksumLength] at h
  obtain _ | ⟨start, _ | ⟨length, _ | ⟨sequence, _ | ⟨system, _ | ⟨component,
    _ | ⟨kind, _ | ⟨a, _ | ⟨b, rest⟩⟩⟩⟩⟩⟩⟩⟩ := data
  iterate 8 simp only [List.length_cons, List.length_nil] at h; omega
  exact ⟨_, _, _, _, _, _, _, _, _, rfl⟩

theorem decode_noise (h : start ≠ startByte) (long : leastFrameLength ≤ (start :: rest).length) :
    decode r (start :: rest) = .error (.badStart start) := by
  obtain ⟨_, _, _, _, _, _, _, _, _, same⟩ := exists_of_least long
  cases same
  exact if_pos h

theorem decode_cut (long : leastFrameLength ≤ (startByte :: length :: rest).length)
    (h : (startByte :: length :: rest).length < headerLength + length.toNat + checksumLength) :
    decode r (startByte :: length :: rest) =
      .error (.truncated (headerLength + length.toNat + checksumLength)
        (startByte :: length :: rest).length) := by
  obtain ⟨_, _, _, _, _, _, _, _, _, same⟩ := exists_of_least long
  cases same
  rw [decode]
  simp only [ne_eq, not_true_eq_false, if_false]
  refine if_pos ?_
  simp only [List.length_cons, headerLength, checksumLength] at h ⊢
  omega

end Equations

variable {r : Registry} {data : List UInt8}

theorem decode_eq_ok_iff {p : Packet} :
    decode r data = .ok p ↔ p.Sound r ∧ p.bytes <+: data := by
  constructor
  · intro accepted
    cases front data with
    | short few =>
      rw [decode_short r few] at accepted
      cases accepted
    | noise other long =>
      rw [decode_noise r other long] at accepted
      cases accepted
    | cut long isCut =>
      rw [decode_cut r long isCut] at accepted
      cases accepted
    | @whole q rest sized =>
      rw [decode_bytes_append r sized] at accepted
      obtain isSealed | unknown | ⟨_, _, failed⟩ := checkSeed_cases r q
      · rw [checkSeed_of_sealed isSealed] at accepted
        cases accepted
        exact ⟨⟨sized, isSealed⟩, List.prefix_append _ _⟩
      · rw [checkSeed_of_unregistered unknown] at accepted
        cases accepted
      · rw [failed] at accepted
        cases accepted
  · rintro ⟨isSound, rest, rfl⟩
    rw [decode_bytes_append r isSound.isSized, checkSeed_of_sealed isSound.isSealed]

theorem checkSeed_ne_truncated (r : Registry) (p : Packet) (needed available : Nat) :
    checkSeed r p ≠ .error (.truncated needed available) := by
  intro same
  obtain isSealed | unknown | ⟨_, _, failed⟩ := checkSeed_cases r p
  · cases (checkSeed_of_sealed isSealed).symm.trans same
  · cases (checkSeed_of_unregistered unknown).symm.trans same
  · cases failed.symm.trans same

theorem decode_append
    (h : ∀ needed available, decode r data ≠ .error (.truncated needed available))
    (more : List UInt8) : decode r (data ++ more) = decode r data := by
  cases front data with
  | short few => exact absurd (decode_short r few) (h _ _)
  | noise other long =>
    have longer := Nat.le_trans long (List.sublist_append_left _ more).length_le
    rw [decode_noise r other long]
    exact decode_noise r other longer
  | cut long isCut => exact absurd (decode_cut r long isCut) (h _ _)
  | whole rest sized =>
    rw [List.append_assoc, decode_bytes_append r sized, decode_bytes_append r sized]

theorem decode_truncated {needed available : Nat}
    (h : decode r data = .error (.truncated needed available)) :
    available = data.length ∧ data.length < needed ∧ needed ≤ 263
      ∧ ∀ more, (data ++ more).length < needed →
        decode r (data ++ more) = .error (.truncated needed (data ++ more).length) := by
  cases front data with
  | short few =>
    cases (decode_short r few).symm.trans h
    exact ⟨rfl, few, by decide, fun more still => decode_short r still⟩
  | noise other long => cases (decode_noise r other long).symm.trans h
  | @cut length rest long isCut =>
    cases (decode_cut r long isCut).symm.trans h
    refine ⟨rfl, isCut, ?_, fun more still => ?_⟩
    · have := length.toNat_lt
      simp only [headerLength, checksumLength]
      omega
    · have longer := Nat.le_trans long (List.sublist_append_left _ more).length_le
      exact decode_cut r longer still
  | @whole p rest sized =>
    rw [decode_bytes_append r sized] at h
    exact absurd h (checkSeed_ne_truncated r p _ _)

/-- Decoding accepts exactly the frames of sound packets, whatever follows them, and encoding
gives the frame back.  Any verdict but a truncation is final; a truncation stands until there are
as many bytes as it names. -/
theorem decode_frame_grammar (r : Registry) (data : List UInt8) :
    (∀ p, decode r data = .ok p ↔ p.Sound r ∧ p.bytes <+: data)
      ∧ (∀ p, decode r data = .ok p → encode r p = .ok p.bytes)
      ∧ ((∀ needed available, decode r data ≠ .error (.truncated needed available)) →
        ∀ more, decode r (data ++ more) = decode r data)
      ∧ ∀ needed available, decode r data = .error (.truncated needed available) →
        available = data.length ∧ data.length < needed ∧ needed ≤ 263
          ∧ ∀ more, (data ++ more).length < needed →
            decode r (data ++ more) = .error (.truncated needed (data ++ more).length) := by
  refine ⟨fun p => decode_eq_ok_iff, fun p accepted => ?_, decode_append,
    fun _ _ => decode_truncated⟩
  obtain ⟨isSound, -⟩ := decode_eq_ok_iff.mp accepted
  exact encode_of_sound isSound

theorem decode_frame_grammar_echo :
    let r : Registry := ⟨[echo], by decide⟩
    let p := stamp echo ⟨0, 1, 1⟩ (List.replicate 11 0)
    let cut := p.bytes.take 18
    (decode r p.bytes = .ok p ∧ encode r p = .ok p.bytes
        ∧ ∀ more, decode r (p.bytes ++ more) = .ok p)
      ∧ decode r cut = .error (.truncated 19 18)
      ∧ ∀ more, (cut ++ more).length < 19 →
        decode r (cut ++ more) = .error (.truncated 19 (cut ++ more).length) := by
  intro r p cut
  have whole : decode r p.bytes = .ok p := by decide +kernel
  have truncated : decode r cut = .error (.truncated 19 18) := by decide +kernel
  obtain ⟨-, encodes, final, -⟩ := decode_frame_grammar r p.bytes
  obtain ⟨-, -, -, stands⟩ := decode_frame_grammar r cut
  refine ⟨⟨whole, encodes p whole, fun more => ?_⟩, truncated, (stands 19 18 truncated).2.2.2⟩
  rw [final (by simp [whole]) more, whole]

end VehicleLink.Codec
