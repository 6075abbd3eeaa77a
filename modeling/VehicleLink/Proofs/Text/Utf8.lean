import Mathlib.Data.UInt
import VehicleLink.Text.Utf8

namespace VehicleLink.Utf8

variable {bytes : List UInt8} {k n : Nat}

def tails : Nat → Nat → List UInt8
  | 0, _ => []
  | k + 1, n => .ofNat (n / 64 ^ k % 64 + 0x80) :: tails k n

theorem toNat_tail (n : Nat) : (UInt8.ofNat (n % 64 + 0x80)).toNat = n % 64 + 0x80 := by
  have small : n % 64 < 64 := Nat.mod_lt n (by decide)
  exact UInt8.toNat_ofNat_of_lt' (by simp only [UInt8.size]; omega)

theorem scanFrom_tails {low high : Nat}
    (inside : low ≤ n / 64 ^ k % 64 + 0x80 ∧ n / 64 ^ k % 64 + 0x80 ≤ high) :
    scanFrom (some ⟨k + 1, low, high, n / 64 ^ (k + 1)⟩) (tails (k + 1) n ++ bytes) =
      some (Char.ofNat n) :: scanFrom none bytes := by
  induction k generalizing low high with
  | zero =>
    have bits : n / 64 * 64 + (n + 0x80) % 64 = n := by omega
    rw [tails, List.cons_append, scanFrom, toNat_tail, if_pos inside]
    simp [tails, bits]
  | succ k ih =>
    have small : n / 64 ^ k % 64 < 64 := Nat.mod_lt _ (by decide)
    have bits : n / 64 ^ (k + 2) * 64 + (n / 64 ^ (k + 1) % 64 + 0x80) % 64 = n / 64 ^ (k + 1) := by
      rw [Nat.pow_succ 64 (k + 1), ← Nat.div_div_eq_div_mul]
      omega
    rw [tails, List.cons_append, scanFrom, toNat_tail, if_pos inside]
    simp only [bits]
    rw [if_neg (by omega)]
    exact ih ⟨by omega, by omega⟩

theorem lead_of_two (long : 0x7F < n) (short : n ≤ 0x7FF) :
    lead (n / 64 % 32 + 0xC0) = .opens ⟨1, 0x80, 0xBF, n / 64⟩ := by
  rw [lead, if_neg (by omega), if_neg (by omega), if_pos (by omega)]
  congr 2
  omega

/-- The range of the second byte keeps out overlong forms and surrogates. -/
theorem exists_lead_of_three (long : 0x7FF < n) (short : n ≤ 0xFFFF)
    (valid : n < 0xD800 ∨ 0xDFFF < n) :
    ∃ low high, lead (n / 4096 % 16 + 0xE0) = .opens ⟨2, low, high, n / 4096⟩ ∧
      low ≤ n / 64 % 64 + 0x80 ∧ n / 64 % 64 + 0x80 ≤ high := by
  rw [lead, if_neg (by omega), if_neg (by omega), if_neg (by omega)]
  split
  · exact ⟨0xA0, 0xBF, by congr 2; omega, by omega, by omega⟩
  split
  · exact ⟨0x80, 0x9F, by congr 2; omega, by omega, by omega⟩
  · rw [if_pos (by omega)]
    exact ⟨0x80, 0xBF, by congr 2; omega, by omega, by omega⟩

theorem exists_lead_of_four (long : 0xFFFF < n) (valid : n < 0x110000) :
    ∃ low high, lead (n / 262144 % 8 + 0xF0) = .opens ⟨3, low, high, n / 262144⟩ ∧
      low ≤ n / 4096 % 64 + 0x80 ∧ n / 4096 % 64 + 0x80 ≤ high := by
  rw [lead, if_neg (by omega), if_neg (by omega), if_neg (by omega), if_neg (by omega),
    if_neg (by omega), if_neg (by omega)]
  split
  · exact ⟨0x90, 0xBF, by congr 2; omega, by omega, by omega⟩
  split
  · exact ⟨0x80, 0xBF, by congr 2; omega, by omega, by omega⟩
  · rw [if_pos (by omega)]
    exact ⟨0x80, 0x8F, by congr 2; omega, by omega, by omega⟩

theorem exists_lead (c : Char) (h : 0x7F < c.toNat) :
    ∃ k low high b, String.utf8EncodeChar c = b :: tails (k + 1) c.toNat ∧
      lead b.toNat = .opens ⟨k + 1, low, high, c.toNat / 64 ^ (k + 1)⟩ ∧
      low ≤ c.toNat / 64 ^ k % 64 + 0x80 ∧ c.toNat / 64 ^ k % 64 + 0x80 ≤ high := by
  have valid : c.toNat < 0xD800 ∨ 0xDFFF < c.toNat ∧ c.toNat < 0x110000 := c.valid
  have byte {m : Nat} (small : m < 256) : (UInt8.ofNat m).toNat = m :=
    UInt8.toNat_ofNat_of_lt' small
  have value : c.val.toNat = c.toNat := rfl
  simp only [String.utf8EncodeChar, value]
  rw [if_neg (by omega)]
  generalize c.toNat = n at *
  split
  · refine ⟨0, 0x80, 0xBF, .ofNat (n / 64 % 32 + 0xC0), by simp [tails], ?_, by omega, by omega⟩
    rw [byte (by omega)]
    exact lead_of_two (by omega) (by omega)
  split
  · obtain ⟨low, high, opens, inside⟩ :=
      exists_lead_of_three (n := n) (by omega) (by omega) (by omega)
    refine ⟨1, low, high, .ofNat (n / 4096 % 16 + 0xE0), by simp [tails], ?_, inside⟩
    rwa [byte (by omega)]
  · obtain ⟨low, high, opens, inside⟩ := exists_lead_of_four (n := n) (by omega) (by omega)
    refine ⟨2, low, high, .ofNat (n / 262144 % 8 + 0xF0), by simp [tails], ?_, inside⟩
    rwa [byte (by omega)]

theorem exists_byte_of_ascii {c : Char} (h : c.toNat ≤ 0x7F) :
    ∃ b, String.utf8EncodeChar c = [b] ∧ b.toNat = c.toNat :=
  ⟨.ofNat c.toNat, if_pos h, UInt8.toNat_ofNat_of_lt' (by simp only [UInt8.size]; omega)⟩

theorem scanFrom_char (c : Char) :
    scanFrom none (String.utf8EncodeChar c ++ bytes) = some c :: scanFrom none bytes := by
  by_cases h : c.toNat ≤ 0x7F
  · obtain ⟨b, encoded, byte⟩ := exists_byte_of_ascii h
    rw [encoded, List.singleton_append, scanFrom, byte, lead, if_pos (by omega)]
    simp only [Char.ofNat_toNat]
  · obtain ⟨k, low, high, b, encoded, opens, inside⟩ := exists_lead c (by omega)
    rw [encoded, List.cons_append, scanFrom, opens]
    simp only [scanFrom_tails inside, Char.ofNat_toNat]

theorem scan_encode (text : String) : scan (encode text) = text.toList.map some := by
  rw [scan, encode]
  induction text.toList with
  | nil => rfl
  | cons c cs ih => rw [List.flatMap_cons, scanFrom_char, ih, List.map_cons]

theorem decode?_encode (text : String) : decode? (encode text) = some text := by
  have whole : text.toList.mapM some = some text.toList := by
    simpa using List.mapM_pure (m := Option) (l := text.toList) (f := id)
  simp [decode?, scan_encode, whole]

end VehicleLink.Utf8
