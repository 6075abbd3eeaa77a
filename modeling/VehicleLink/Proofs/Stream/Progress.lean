import VehicleLink.Proofs.Stream.Chunks

namespace VehicleLink.Stream

inductive Turn
  | over (item : Option Item) (kept : List UInt8)
  | again (left : List UInt8)

def turn (r : Registry) (buffer : List UInt8) : Turn :=
  match buffer.dropWhile (· ≠ startByte) with
  | [] => .over none []
  | b :: bytes =>
    match attempt r (b :: bytes) with
    | .wait => .over none (b :: bytes)
    | .skip => .again bytes
    | .yield item rest => .over (some item) rest

def search (r : Registry) : Nat → List UInt8 → Option (Option Item × List UInt8)
  | 0, _ => none
  | turns + 1, buffer =>
    match turn r buffer with
    | .over item kept => some (item, kept)
    | .again left => search r turns left

/-- Nothing, or a start byte without all the bytes that its length byte tells of, if it has one. -/
inductive Held : List UInt8 → Prop
  | nothing : Held []
  | start : Held [startByte]
  | frame {length : UInt8} {rest : List UInt8} :
    (startByte :: length :: rest).length < leastFrameLength + length.toNat →
    Held (startByte :: length :: rest)

inductive Finding : Item → Prop
  | frame (f : Frame) : Finding (.ok f)
  | unregistered (p : Packet) : Finding (.error (.unknownKind p))
  | unsealed (expected actual : UInt16) : Finding (.error (.checksum expected actual))

variable {r : Registry} {ended : Bool} {buffer bytes kept : List UInt8}

theorem scan_dropWhile (buffer : List UInt8) :
    scan r ended (buffer.dropWhile (· ≠ startByte)) = scan r ended buffer := by
  induction buffer with
  | nil => rfl
  | cons b bytes ih =>
    by_cases start : b = startByte
    · rw [List.dropWhile_cons_of_neg (by simp [start])]
    · rw [List.dropWhile_cons_of_pos (by simp [start]), ih, scan_noise start]

/-- A turn that does not end the search uses up a start byte. -/
theorem search_eq_scan {turns : Nat} (enough : buffer.count startByte < turns) :
    search r turns buffer = some (scan r false buffer) := by
  induction turns generalizing buffer with
  | zero => exact absurd enough (Nat.not_lt_zero _)
  | succ turns ih =>
    rw [search, turn, ← scan_dropWhile buffer]
    have suffix : buffer.dropWhile (· ≠ startByte) <:+ buffer := List.dropWhile_suffix _
    cases next : buffer.dropWhile (· ≠ startByte) with
    | nil => rfl
    | cons b bytes =>
      have start : b = startByte := by
        have stops := List.head?_dropWhile_not (· ≠ startByte) buffer
        rw [next] at stops
        simpa using stops
      rw [next, start] at suffix
      have fewer : bytes.count startByte < turns := by
        have within := suffix.sublist.count_le startByte
        rw [List.count_cons_self] at within
        omega
      rw [start, scan, if_pos rfl]
      dsimp only
      cases attempt r (startByte :: bytes) with
      | wait => rfl
      | skip => exact ih fewer
      | yield item rest => rfl

namespace Held

theorem of_cut (h : Cut (startByte :: bytes)) : Held (startByte :: bytes) := by
  cases bytes with
  | nil => exact .start
  | cons length rest =>
    refine .frame (Nat.lt_of_not_le fun whole => ?_)
    have enough : headerLength + length.toNat + checksumLength ≤ rest.length + 2 := by
      simp only [leastFrameLength, List.length_cons] at whole
      omega
    obtain ⟨p, behind, sized, -, same⟩ := Packet.exists_bytes_append enough
    exact h p sized ⟨behind, same.symm⟩

theorem length_le (h : Held kept) : kept.length ≤ 262 := by
  cases h with
  | nothing => exact Nat.zero_le _
  | start => decide
  | @frame length rest short =>
    have byte := length.toNat_lt
    simp only [leastFrameLength, headerLength, checksumLength] at short
    omega

theorem scan_eq (h : Held kept) : scan r false kept = (none, kept) := by
  cases h with
  | nothing => rfl
  | start => rfl
  | @frame length rest short =>
    have waits : attempt r (startByte :: length :: rest) = .wait := by
      refine if_pos (Nat.lt_of_lt_of_le short ?_)
      simp only [leastFrameLength]
      omega
    rw [scan, if_pos rfl, waits]
    rfl

end Held

theorem scan_leaves (r : Registry) (buffer : List UInt8) :
    (scan r false buffer).2 <:+ buffer
      ∧ match scan r false buffer with
        | (some item, _) => Finding item
        | (none, kept) => Held kept := by
  induction buffer using buffer_induction r with
  | empty => exact ⟨List.suffix_refl _, .nothing⟩
  | noise b bytes start ih =>
    rw [scan_noise start]
    exact ⟨ih.1.trans (List.suffix_cons b bytes), ih.2⟩
  | cut bytes cut _ =>
    rw [scan_cut cut]
    exact ⟨List.suffix_refl _, .of_cut cut⟩
  | sound p rest sound _ =>
    rw [scan_sound sound]
    exact ⟨List.suffix_append _ _, .frame _⟩
  | unregistered p rest sized unknown _ inside =>
    rw [scan_unregistered sized unknown]
    split
    · exact ⟨List.suffix_append _ _, .unregistered p⟩
    · exact ⟨inside.1.trans (List.suffix_cons startByte _), inside.2⟩
  | unsealed p rest expected actual sized failed _ =>
    rw [scan_unsealed sized failed]
    exact ⟨List.suffix_cons startByte _, .unsealed expected actual⟩

theorem held_of_scan (h : scan r false buffer = (none, kept)) : Held kept := by
  have leaves := (scan_leaves r buffer).2
  rwa [h] at leaves

theorem held_drain (r : Registry) (buffer : List UInt8) : Held (drain r false buffer).2 := by
  induction length : buffer.length using Nat.strongRecOn generalizing buffer with
  | _ n ih =>
    rcases found : scan r false buffer with ⟨_ | item, kept⟩
    · rw [drain_of_none found]
      exact held_of_scan found
    · rw [drain_of_some found]
      exact ih _ (length ▸ length_lt_of_scan found) kept rfl

theorem held_deliver (held : Held kept) (pieces : List (List UInt8)) :
    Held (deliver r kept pieces).2 := by
  induction pieces generalizing kept with
  | nil => exact held
  | cons piece pieces ih => exact ih (held_drain r (kept ++ piece))

/-- A search is over after one turn more than there are start bytes.  It leaves an end of the
buffer: if it finds an item, a shorter one than before; if it finds none, less than one frame,
in which nothing is found before more bytes come.  So no more than that is ever held back. -/
theorem scan_progress (r : Registry) (buffer : List UInt8) :
    search r (buffer.count startByte + 1) buffer = some (scan r false buffer)
      ∧ (scan r false buffer).2 <:+ buffer
      ∧ (match scan r false buffer with
        | (some item, kept) => kept.length < buffer.length ∧ Finding item
        | (none, kept) => Held kept ∧ kept.length ≤ 262 ∧ scan r false kept = (none, kept))
      ∧ ∀ pieces, (deliver r [] pieces).2.length ≤ 262 := by
  obtain ⟨isSuffix, leaves⟩ := scan_leaves r buffer
  refine ⟨search_eq_scan (Nat.lt_succ_self _), isSuffix, ?_, fun pieces =>
    (held_deliver .nothing pieces).length_le⟩
  rcases found : scan r false buffer with ⟨_ | item, kept⟩
  · have held := held_of_scan found
    exact ⟨held, held.length_le, held.scan_eq⟩
  · rw [found] at leaves
    exact ⟨length_lt_of_scan found, leaves⟩

end VehicleLink.Stream
