import VehicleLink.Proofs.Stream.Scan

/-! Resynchronisation at the end of a stream.  Out of any bytes, whatever was lost or added,
every sound frame is found that does not begin inside an earlier find. -/

namespace VehicleLink.Stream

def framed : Item → Bool
  | .ok _ | .error (.unknownKind _) => true
  | .error _ => false

structure Place where
  item : Item
  start : Nat
  stop : Nat

namespace Place

def shift (n : Nat) (x : Place) : Place := { x with start := n + x.start, stop := n + x.stop }

def Fits (r : Registry) (s : List UInt8) (x : Place) : Prop :=
  match x.item with
  | .ok f => f.raw = s.extract x.start x.stop ∧ Codec.decode r f.raw = .ok f.packet
  | .error (.unknownKind p) => p.bytes = s.extract x.start x.stop
  | .error _ => False

/-- A sound frame that begins at `i` was either found there or begins inside the stretch. -/
def Explains (x : Place) (i : Nat) : Prop :=
  (x.start = i ∧ x.item.isOk = true) ∨ (x.start < i ∧ i < x.stop)

theorem extract_append_shift (front s : List UInt8) (start stop : Nat) :
    (front ++ s).extract (front.length + start) (front.length + stop) = s.extract start stop := by
  simp only [List.extract_eq_take_drop, List.drop_length_add_append, Nat.add_sub_add_left]

theorem Fits.shift {r : Registry} {s : List UInt8} {x : Place} (h : x.Fits r s)
    (front : List UInt8) : (x.shift front.length).Fits r (front ++ s) := by
  obtain ⟨item, start, stop⟩ := x
  simp only [Fits, Place.shift, extract_append_shift] at h ⊢
  exact h

theorem Explains.shift {x : Place} {i : Nat} (h : x.Explains i) (n : Nat) :
    (x.shift n).Explains (n + i) := by
  obtain ⟨rfl, isOk⟩ | ⟨lower, upper⟩ := h
  · exact .inl ⟨rfl, isOk⟩
  · exact .inr ⟨Nat.add_lt_add_left lower n, Nat.add_lt_add_left upper n⟩

end Place

def FrameAt (r : Registry) (s : List UInt8) (i : Nat) : Prop :=
  ∃ p : Packet, p.Sound r ∧ p.bytes <+: s.drop i

/-- Disjoint stretches of a stream in order, such that no sound frame is lost. -/
structure Located (r : Registry) (s : List UInt8) (places : List Place) : Prop where
  ordered : places.Pairwise fun x y => x.stop ≤ y.start
  within : ∀ x ∈ places, x.start < x.stop ∧ x.stop ≤ s.length
  fits : ∀ x ∈ places, x.Fits r s
  complete : ∀ i, FrameAt r s i → ∃ x ∈ places, x.Explains i

structure Resynced (r : Registry) (s : List UInt8) (items : List Item) : Prop where
  classified : ∀ item ∈ items,
    framed item = true ∨ ∃ expected actual, item = .error (.checksum expected actual)
  located : ∃ places : List Place,
    places.map Place.item = items.filter framed ∧ Located r s places

variable {r : Registry} {s : List UInt8} {places : List Place} {items : List Item}

theorem frameAt_append (front : List UInt8) (i : Nat) :
    FrameAt r (front ++ s) (front.length + i) ↔ FrameAt r s i := by
  simp only [FrameAt, List.drop_length_add_append]

theorem Located.append (h : Located r s places) (front : List UInt8) (first : List Place)
    (ordered : first.Pairwise fun x y => x.stop ≤ y.start)
    (within : ∀ x ∈ first, x.start < x.stop ∧ x.stop ≤ front.length)
    (fits : ∀ x ∈ first, x.Fits r (front ++ s))
    (complete : ∀ i, i < front.length → FrameAt r (front ++ s) i → ∃ x ∈ first, x.Explains i) :
    Located r (front ++ s) (first ++ places.map (·.shift front.length)) where
  ordered := by
    refine List.pairwise_append.mpr ⟨ordered, List.pairwise_map.mpr (h.ordered.imp ?_), ?_⟩
    · intro x y before
      exact Nat.add_le_add_left before _
    · intro x isFirst y isLater
      obtain ⟨y, -, rfl⟩ := List.mem_map.mp isLater
      exact Nat.le_trans (within x isFirst).2 (Nat.le_add_right _ _)
  within x isPlace := by
    rw [List.length_append]
    obtain isFirst | isLater := List.mem_append.mp isPlace
    · obtain ⟨nonempty, inside⟩ := within x isFirst
      exact ⟨nonempty, Nat.le_trans inside (Nat.le_add_right _ _)⟩
    · obtain ⟨x, mem, rfl⟩ := List.mem_map.mp isLater
      obtain ⟨nonempty, inside⟩ := h.within x mem
      exact ⟨Nat.add_lt_add_left nonempty _, Nat.add_le_add_left inside _⟩
  fits x isPlace := by
    obtain isFirst | isLater := List.mem_append.mp isPlace
    · exact fits x isFirst
    · obtain ⟨x, mem, rfl⟩ := List.mem_map.mp isLater
      exact (h.fits x mem).shift front
  complete i found := by
    by_cases inFront : i < front.length
    · obtain ⟨x, mem, explains⟩ := complete i inFront found
      exact ⟨x, List.mem_append_left _ mem, explains⟩
    · obtain ⟨j, rfl⟩ := Nat.exists_eq_add_of_le (Nat.le_of_not_lt inFront)
      obtain ⟨x, mem, explains⟩ := h.complete j ((frameAt_append front j).mp found)
      exact ⟨_, List.mem_append_right _ (List.mem_map_of_mem mem), explains.shift _⟩

theorem Located.skip (h : Located r s places) {b : UInt8} (none : ¬ FrameAt r (b :: s) 0) :
    Located r (b :: s) (places.map (·.shift 1)) := by
  refine h.append [b] [] .nil (by simp) (by simp) ?_
  intro i first found
  obtain rfl : i = 0 := Nat.lt_one_iff.mp first
  exact absurd found none

theorem Located.frame (h : Located r s places) {p : Packet} {item : Item}
    (fits : Place.Fits r (p.bytes ++ s) ⟨item, 0, p.bytes.length⟩)
    (first : FrameAt r (p.bytes ++ s) 0 → item.isOk = true) :
    Located r (p.bytes ++ s)
      (⟨item, 0, p.bytes.length⟩ :: places.map (·.shift p.bytes.length)) := by
  have nonempty : 0 < p.bytes.length := List.length_pos_iff.mpr p.bytes_ne_nil
  refine h.append p.bytes [_] (List.pairwise_singleton _ _) ?_ ?_ ?_
  · simpa using nonempty
  · simpa using fits
  · intro i inside found
    refine ⟨_, List.mem_singleton_self _, ?_⟩
    cases i with
    | zero => exact .inl ⟨rfl, first found⟩
    | succ i => exact .inr ⟨Nat.succ_pos i, inside⟩

theorem Resynced.skip (h : Resynced r s items) {b : UInt8} (none : ¬ FrameAt r (b :: s) 0) :
    Resynced r (b :: s) items := by
  obtain ⟨places, eq, located⟩ := h.located
  exact ⟨h.classified, _, by simpa [Function.comp_def, Place.shift] using eq, located.skip none⟩

theorem Resynced.unsealed (h : Resynced r s items) {b : UInt8} (none : ¬ FrameAt r (b :: s) 0)
    (expected actual : UInt16) :
    Resynced r (b :: s) (.error (.checksum expected actual) :: items) := by
  have skipped := h.skip none
  refine ⟨?_, by simpa [framed] using skipped.located⟩
  intro item mem
  obtain rfl | later := List.mem_cons.mp mem
  · exact .inr ⟨expected, actual, rfl⟩
  · exact h.classified item later

theorem Resynced.frame (h : Resynced r s items) {p : Packet} {item : Item}
    (isFramed : framed item = true)
    (fits : Place.Fits r (p.bytes ++ s) ⟨item, 0, p.bytes.length⟩)
    (first : FrameAt r (p.bytes ++ s) 0 → item.isOk = true) :
    Resynced r (p.bytes ++ s) (item :: items) := by
  obtain ⟨places, eq, located⟩ := h.located
  refine ⟨?_, _, ?_, located.frame fits first⟩
  · intro item' mem
    obtain rfl | later := List.mem_cons.mp mem
    · exact .inl isFramed
    · exact h.classified item' later
  · simpa [isFramed, Function.comp_def, Place.shift] using eq

theorem not_frameAt_noise {b : UInt8} (h : b ≠ startByte) : ¬ FrameAt r (b :: s) 0 := by
  rintro ⟨p, -, rest, eq⟩
  exact h (List.cons.inj eq).1.symm

theorem not_frameAt_cut (h : Cut s) : ¬ FrameAt r s 0 := by
  rintro ⟨p, sound, isPrefix⟩
  exact h p sound.isSized isPrefix

theorem not_frameAt_unsealed {p : Packet} {rest : List UInt8} (sized : p.Sized)
    (h : ¬ p.Sealed r) : ¬ FrameAt r (p.bytes ++ rest) 0 := by
  rintro ⟨q, sound, rest', eq⟩
  obtain ⟨rfl, -⟩ := Packet.eq_of_bytes_append sound.isSized sized eq
  exact h sound.isSealed

theorem extract_frame (p : Packet) (rest : List UInt8) :
    p.bytes = (p.bytes ++ rest).extract 0 p.bytes.length := by
  simp

theorem kept_drain_ended (r : Registry) (s : List UInt8) : (drain r true s).2 = [] := by
  induction s using buffer_induction r with
  | empty => rw [drain_nil]
  | noise b bytes start ih => rw [drain_noise start, ih]
  | cut bytes cut ih => rw [drain_cut cut, ih]
  | sound p rest sound ih => rw [drain_sound sound, ih]
  | unregistered p rest sized unknown behind inside =>
    by_cases next : aligned rest = true
    · rw [drain_unregistered sized unknown next, behind]
    · rw [drain_unaligned sized unknown next, inside]
  | unsealed p rest expected actual sized failed ih => rw [drain_unsealed sized failed, ih]

theorem resynced_drain (r : Registry) (s : List UInt8) : Resynced r s (drain r true s).1 := by
  induction s using buffer_induction r with
  | empty =>
    rw [drain_nil]
    refine ⟨by simp, [], rfl, .nil, by simp, by simp, ?_⟩
    rintro i ⟨p, -, isPrefix⟩
    exact absurd (by simpa using isPrefix) p.bytes_ne_nil
  | noise b bytes start ih =>
    rw [drain_noise start]
    exact ih.skip (not_frameAt_noise start)
  | cut bytes cut ih =>
    rw [drain_cut cut]
    exact ih.skip (not_frameAt_cut cut)
  | sound p rest sound ih =>
    rw [drain_sound sound]
    refine ih.frame rfl ⟨extract_frame p rest, ?_⟩ fun _ => rfl
    rw [Codec.decode_bytes r sound.isSized, Codec.checkSeed_of_sealed sound.isSealed]
  | unregistered p rest sized unknown behind inside =>
    have none : ¬ FrameAt r (p.bytes ++ rest) 0 := not_frameAt_unsealed sized fun isSealed => by
      obtain ⟨seed, registered, -⟩ := isSealed
      rw [unknown] at registered
      cases registered
    by_cases next : aligned rest = true
    · rw [drain_unregistered sized unknown next]
      exact behind.frame rfl (extract_frame p rest) fun found => absurd found none
    · rw [drain_unaligned sized unknown next]
      exact inside.skip none
  | unsealed p rest expected actual sized failed ih =>
    have none : ¬ FrameAt r (p.bytes ++ rest) 0 := not_frameAt_unsealed sized fun isSealed => by
      rw [Codec.checkSeed_of_sealed isSealed] at failed
      cases failed
    rw [drain_unsealed sized failed]
    exact ih.unsealed none expected actual

/-- Taking items out of the bytes left at the end of a stream uses them up, and every sound
frame among them is found, unless it begins inside one that is. -/
theorem drain_ended (r : Registry) (s : List UInt8) :
    (drain r true s).2 = [] ∧ Resynced r s (drain r true s).1 :=
  ⟨kept_drain_ended r s, resynced_drain r s⟩

end VehicleLink.Stream
