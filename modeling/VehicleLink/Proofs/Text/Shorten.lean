import VehicleLink.Proofs.Text.Utf8

namespace VehicleLink.Utf8

/-- The characters that fit into so many bytes, and a replacement character for the next one if
only a part of it does. -/
def shorten : Nat → List Char → List Char
  | _, [] => []
  | n, c :: cs =>
    if c.utf8Size ≤ n then c :: shorten (n - c.utf8Size) cs
    else if n = 0 then [] else ['\uFFFD']

section Tails

variable {k n j low high bits : Nat}

theorem length_tails (k n : Nat) : (tails k n).length = k := by
  induction k with
  | zero => rfl
  | succ k ih => rw [tails, List.length_cons, ih]

theorem le_of_mem_tails {b : UInt8} (h : b ∈ tails k n) : 0x80 ≤ b.toNat := by
  induction k with
  | zero => cases h
  | succ k ih =>
    rcases List.mem_cons.mp h with rfl | later
    · rw [toNat_tail]
      exact Nat.le_add_left _ _
    · exact ih later

theorem scanFrom_take_tails (few : j ≤ k)
    (inside : low ≤ n / 64 ^ k % 64 + 0x80 ∧ n / 64 ^ k % 64 + 0x80 ≤ high) :
    scanFrom (some ⟨k + 1, low, high, bits⟩) ((tails (k + 1) n).take j) = [none] := by
  induction j generalizing k low high bits with
  | zero => rfl
  | succ j ih =>
    obtain _ | k := k
    · exact absurd few (Nat.not_succ_le_zero j)
    · have small : n / 64 ^ k % 64 < 64 := Nat.mod_lt _ (by decide)
      rw [tails, List.take_succ_cons, scanFrom, toNat_tail, if_pos inside]
      dsimp only
      rw [if_neg (by omega)]
      exact ih (Nat.le_of_succ_le_succ few) ⟨by omega, by omega⟩

end Tails

section Character

variable {c : Char} {n : Nat}

theorem scanFrom_take_char (some : 0 < n) (few : n < c.utf8Size) :
    scanFrom none ((String.utf8EncodeChar c).take n) = [none] := by
  rw [← String.length_utf8EncodeChar] at few
  by_cases ascii : c.toNat ≤ 0x7F
  · obtain ⟨b, encoded, -⟩ := exists_byte_of_ascii ascii
    rw [encoded, List.length_singleton] at few
    omega
  · obtain ⟨k, low, high, b, encoded, opens, inside⟩ := exists_lead c (by omega)
    obtain ⟨j, rfl⟩ := Nat.exists_eq_succ_of_ne_zero some.ne'
    rw [encoded, List.length_cons, length_tails] at few
    rw [encoded, List.take_succ_cons, scanFrom, opens]
    exact scanFrom_take_tails (by omega) inside

theorem ne_zero_of_mem (h : c ≠ '\x00') {b : UInt8} (isByte : b ∈ String.utf8EncodeChar c) :
    b ≠ 0 := by
  rintro rfl
  by_cases ascii : c.toNat ≤ 0x7F
  · obtain ⟨b, encoded, value⟩ := exists_byte_of_ascii ascii
    rw [encoded, List.mem_singleton] at isByte
    rw [← isByte] at value
    exact h (Char.ext (UInt32.toNat_inj.mp value.symm))
  · obtain ⟨k, low, high, b, encoded, opens, -⟩ := exists_lead c (by omega)
    rw [encoded] at isByte
    rcases List.mem_cons.mp isByte with rfl | isTail
    · cases opens
    · exact absurd (le_of_mem_tails isTail) (by decide)

end Character

variable {cs : List Char} {n : Nat}

theorem decodeLossy_take (cs : List Char) (n : Nat) :
    decodeLossy ((cs.flatMap String.utf8EncodeChar).take n) = String.ofList (shorten n cs) := by
  rw [decodeLossy, scan]
  congr 1
  induction cs generalizing n with
  | nil => rw [List.flatMap_nil, List.take_nil]; rfl
  | cons c cs ih =>
    rw [List.flatMap_cons, List.take_append, String.length_utf8EncodeChar, shorten]
    split
    · next fits =>
      rw [List.take_of_length_le (by rwa [String.length_utf8EncodeChar]), scanFrom_char,
        List.map_cons, ih, Option.getD_some]
    · next cut =>
      have nothing : n - c.utf8Size = 0 := by omega
      rw [nothing, List.take_zero, List.append_nil]
      split
      · next none =>
        rw [none, List.take_zero]
        rfl
      · next some =>
        rw [scanFrom_take_char (Nat.pos_of_ne_zero some) (Nat.lt_of_not_le cut)]
        rfl

theorem shorten_eq_self (fits : (cs.flatMap String.utf8EncodeChar).length ≤ n) :
    shorten n cs = cs := by
  induction cs generalizing n with
  | nil => rfl
  | cons c cs ih =>
    rw [List.flatMap_cons, List.length_append, String.length_utf8EncodeChar] at fits
    rw [shorten, if_pos (by omega), ih (by omega)]

theorem exists_shorten_eq (n : Nat) (cs : List Char) :
    ∃ shown, shown <+: cs ∧ (shorten n cs = shown ∨ shorten n cs = shown ++ ['\uFFFD']) := by
  induction cs generalizing n with
  | nil => exact ⟨[], List.prefix_refl _, .inl rfl⟩
  | cons c cs ih =>
    rw [shorten]
    split
    · obtain ⟨shown, isPrefix, same⟩ := ih (n - c.utf8Size)
      refine ⟨c :: shown, (List.prefix_cons_inj c).mpr isPrefix, ?_⟩
      exact same.imp (congrArg (c :: ·)) (congrArg (c :: ·))
    · split
      · exact ⟨[], List.nil_prefix, .inl rfl⟩
      · exact ⟨[], List.nil_prefix, .inr rfl⟩

theorem takeWhile_encode (cs : List Char) :
    (cs.flatMap String.utf8EncodeChar).takeWhile (· ≠ 0) =
      (cs.takeWhile (· ≠ '\x00')).flatMap String.utf8EncodeChar := by
  induction cs with
  | nil => rfl
  | cons c cs ih =>
    rw [List.flatMap_cons]
    by_cases zero : c = '\x00'
    · rw [zero]
      rfl
    · have whole : ∀ b ∈ String.utf8EncodeChar c, decide (b ≠ 0) = true :=
        fun b isByte => decide_eq_true (ne_zero_of_mem zero isByte)
      rw [List.takeWhile_append_of_pos whole, ih, List.takeWhile_cons_of_pos (by simp [zero]),
        List.flatMap_cons]

end VehicleLink.Utf8
