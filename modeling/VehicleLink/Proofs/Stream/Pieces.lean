import VehicleLink.Proofs.Stream.Chunks

/-! Streams of registered kinds only.  Nothing that is decided about the front of such a stream
depends on what arrives later, so it makes no difference what pieces it arrives in, garbage and
all. -/

namespace VehicleLink.Stream

/-- The kind that follows a start byte, if it is there, is registered. -/
def Familiar (r : Registry) (s : List UInt8) : Prop :=
  ∀ i, s[i]? = some startByte → ∀ kind ∈ s[i + 5]?, (r.seed? kind).isSome

variable {r : Registry} {p : Packet} {s front later rest : List UInt8}

namespace Familiar

theorem behind (h : Familiar r (front ++ s)) : Familiar r s := by
  have shift (i : Nat) : (front ++ s)[front.length + i]? = s[i]? := by
    rw [List.getElem?_append_right (Nat.le_add_right _ _), Nat.add_sub_cancel_left]
  intro i start kind isKind
  refine h (front.length + i) ((shift i).trans start) kind ?_
  rwa [Nat.add_assoc, shift]

theorem before (h : Familiar r (front ++ later)) : Familiar r front := by
  intro i start kind isKind
  have inside {j : Nat} {b : UInt8} (isThere : front[j]? = some b) :
      (front ++ later)[j]? = some b := by
    obtain ⟨bound, -⟩ := List.getElem?_eq_some_iff.mp isThere
    rw [List.getElem?_append_left bound, isThere]
  exact h i (inside start) kind (inside isKind)

theorem of_suffix (h : Familiar r front) (suffix : s <:+ front) : Familiar r s := by
  obtain ⟨_, rfl⟩ := suffix
  exact h.behind

theorem registered (h : Familiar r (p.bytes ++ rest)) : r.seed? p.kind ≠ none := by
  have known := h 0 rfl p.kind rfl
  exact Option.isSome_iff_ne_none.mp known

end Familiar

theorem suffix_drain (r : Registry) (s : List UInt8) : (drain r false s).2 <:+ s := by
  induction s using buffer_induction r with
  | empty => simp only [drain_nil, List.suffix_refl]
  | noise b bytes start ih =>
    rw [drain_noise start]
    exact ih.trans (List.suffix_cons b bytes)
  | cut bytes cut ih => simp only [drain_waits cut, List.suffix_refl]
  | sound p rest sound ih =>
    rw [drain_sound sound]
    exact ih.trans (List.suffix_append _ _)
  | unregistered p rest sized unknown behind inside =>
    by_cases next : aligned rest = true
    · rw [drain_unregistered sized unknown next]
      exact behind.trans (List.suffix_append _ _)
    · rw [drain_unaligned sized unknown next]
      exact inside.trans (List.suffix_cons _ _)
  | unsealed p rest expected actual sized failed ih =>
    rw [drain_unsealed sized failed]
    exact ih.trans (List.suffix_cons _ _)

theorem drain_append (h : Familiar r (front ++ later)) :
    drain r false (front ++ later) =
      ((drain r false front).1 ++ (drain r false ((drain r false front).2 ++ later)).1,
        (drain r false ((drain r false front).2 ++ later)).2) := by
  induction front using buffer_induction r with
  | empty => rw [drain_nil]; rfl
  | noise b bytes start ih =>
    rw [List.cons_append, drain_noise start, drain_noise start]
    exact ih (h.of_suffix (List.suffix_cons _ _))
  | cut bytes cut ih => rw [drain_waits cut]; rfl
  | sound p rest sound ih =>
    rw [List.append_assoc] at h ⊢
    rw [drain_sound sound, drain_sound sound, ih h.behind]
    rfl
  | unregistered p rest sized unknown behind inside =>
    rw [List.append_assoc] at h
    exact absurd unknown h.registered
  | unsealed p rest expected actual sized failed ih =>
    rw [List.append_assoc] at h ⊢
    have tail : Familiar r (p.bytes.tail ++ rest ++ later) := by
      rw [List.append_assoc]
      exact h.of_suffix (List.suffix_cons _ _)
    rw [drain_unsealed sized failed, drain_unsealed sized failed, ← List.append_assoc, ih tail]
    rfl

theorem drain_kept (h : Familiar r s) :
    drain r false (drain r false s).2 = ([], (drain r false s).2) := by
  have whole : Familiar r (s ++ []) := by rwa [List.append_nil]
  have again := drain_append whole
  simp only [List.append_nil, Prod.ext_iff] at again
  obtain ⟨items, kept⟩ := again
  exact Prod.ext (List.append_right_eq_self.mp items.symm) kept.symm

theorem deliver_eq {kept : List UInt8} {chunks : List (List UInt8)}
    (settled : drain r false kept = ([], kept)) (h : Familiar r (kept ++ chunks.flatten)) :
    deliver r kept chunks = drain r false (kept ++ chunks.flatten) := by
  induction chunks generalizing kept with
  | nil => rw [List.flatten_nil, List.append_nil, settled]; rfl
  | cons chunk chunks ih =>
    rw [List.flatten_cons, ← List.append_assoc] at h ⊢
    obtain ⟨used, split⟩ := suffix_drain r (kept ++ chunk)
    have remaining : Familiar r ((drain r false (kept ++ chunk)).2 ++ chunks.flatten) := by
      rw [← split, List.append_assoc] at h
      exact h.behind
    have front : Familiar r (kept ++ chunk) := h.before
    change (_ ++ (deliver r _ chunks).1, (deliver r _ chunks).2) = _
    rw [ih (drain_kept front) remaining, drain_append h]

theorem isOk_or_checksum (h : Familiar r s) (item : Item) (isItem : item ∈ (drain r false s).1) :
    item.isOk = true ∨ ∃ expected actual, item = .error (.checksum expected actual) := by
  induction s using buffer_induction r with
  | empty =>
    rw [drain_nil] at isItem
    cases isItem
  | noise b bytes start ih =>
    rw [drain_noise start] at isItem
    exact ih (h.of_suffix (List.suffix_cons _ _)) isItem
  | cut bytes cut ih =>
    rw [drain_waits cut] at isItem
    cases isItem
  | sound p rest sound ih =>
    rw [drain_sound sound] at isItem
    obtain rfl | later := List.mem_cons.mp isItem
    · exact .inl rfl
    · exact ih h.behind later
  | unregistered p rest sized unknown behind inside => exact absurd unknown h.registered
  | unsealed p rest expected actual sized failed ih =>
    rw [drain_unsealed sized failed] at isItem
    obtain rfl | later := List.mem_cons.mp isItem
    · exact .inr ⟨expected, actual, rfl⟩
    · exact ih (h.of_suffix (List.suffix_cons _ _)) later

/-- The pieces that a stream of registered kinds arrives in make no difference, neither to the
frames and failed checksums in it nor to the bytes that are left over. -/
theorem deliver_of_familiar {chunks : List (List UInt8)} (h : Familiar r s)
    (pieces : chunks.flatten = s) :
    deliver r [] chunks = drain r false s
      ∧ ∀ item ∈ (drain r false s).1,
        item.isOk = true ∨ ∃ expected actual, item = .error (.checksum expected actual) := by
  subst pieces
  exact ⟨deliver_eq drain_nil h, isOk_or_checksum h⟩

def battered : List UInt8 := ping.bytes ++ [0, 0, 7] ++ ping.bytes.set 8 0

theorem deliver_battered :
    Familiar pings battered
      ∧ [battered.take 4, (battered.drop 4).take 12, battered.drop 16].flatten = battered
      ∧ deliver pings [] [battered.take 4, (battered.drop 4).take 12, battered.drop 16] =
        drain pings false battered := by
  have bounded : ∀ i < battered.length, battered[i]? = some startByte →
      ∀ kind ∈ battered[i + 5]?, (pings.seed? kind).isSome := by decide +kernel
  have known : Familiar pings battered := by
    intro i start
    obtain ⟨inside, -⟩ := List.getElem?_eq_some_iff.mp start
    exact bounded i inside start
  have pieces : [battered.take 4, (battered.drop 4).take 12, battered.drop 16].flatten =
      battered := by decide +kernel
  exact ⟨known, pieces, (deliver_of_familiar known pieces).1⟩

end VehicleLink.Stream
