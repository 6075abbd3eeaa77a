import VehicleLink.Proofs.Json.Grammar

namespace VehicleLink.Json

variable {cs ds rest : List Char}

theorem exists_gap (cs : List Char) : ∃ a : Gap, cs = a ++ skip cs :=
  ⟨⟨cs.takeWhile isBlank, fun _ => List.mem_takeWhile_imp⟩, List.takeWhile_append_dropWhile.symm⟩

section Numbers

theorem exists_of_digits (h : digits cs = some (ds, rest)) :
    ∃ d : Digits, ds = d ∧ cs = d ++ rest := by
  rw [digits.eq_def] at h
  split at h <;> cases h
  next nonempty =>
  exact ⟨⟨cs.takeWhile isDigit, nonempty, fun _ => List.mem_takeWhile_imp⟩, rfl,
    List.takeWhile_append_dropWhile.symm⟩

theorem digitChar_of_isDigit {c : Char} (h : isDigit c) :
    c.toNat - 48 < 10 ∧ Nat.digitChar (c.toNat - 48) = c := by
  have range : 48 ≤ c.toNat ∧ c.toNat ≤ 57 := by
    simpa [isDigit, Char.le_def, UInt32.le_iff_toNat_le] using h
  refine ⟨by omega, Char.toNat_inj.mp ?_⟩
  rw [Nat.toNat_digitChar_of_lt_ten (by omega)]
  omega

theorem naturalOf_concat (ds : List Char) (c : Char) :
    naturalOf (ds ++ [c]) = 10 * naturalOf ds + (c.toNat - 48) := by
  rw [naturalOf, List.foldl_append]
  rfl

theorem toDigits_naturalOf (nonempty : ds ≠ []) (inside : ∀ c ∈ ds, isDigit c)
    (lead : ds.head? ≠ some '0') : Nat.toDigits 10 (naturalOf ds) = ds := by
  induction ds using List.reverseRecOn with
  | nil => contradiction
  | append_singleton ds c ih =>
    obtain ⟨small, digit⟩ := digitChar_of_isDigit (inside c (by simp))
    rw [naturalOf_concat]
    by_cases single : ds = []
    · subst single
      rw [naturalOf, List.foldl_nil, Nat.mul_zero, Nat.zero_add, Nat.toDigits_of_lt_base small,
        digit]
      rfl
    · have front := ih single (fun d isMember => inside d (List.mem_append_left _ isMember))
        (by rwa [List.head?_append_of_ne_nil _ single] at lead)
      have positive : 0 < naturalOf ds := Nat.pos_of_ne_zero fun zero =>
        lead (by rw [← front, zero]; rfl)
      rw [← Nat.toDigits_append_toDigits (by decide) positive small, front,
        Nat.toDigits_of_lt_base small, digit]

theorem exists_of_whole (h : whole cs = some (ds, rest)) :
    ∃ n, ds = Nat.toDigits 10 n ∧ cs = ds ++ rest := by
  rw [whole.eq_def] at h
  split at h
  · cases h
    exact ⟨0, rfl, rfl⟩
  · next unlike =>
    obtain ⟨⟨ds, nonempty, inside⟩, rfl, rfl⟩ := exists_of_digits h
    refine ⟨naturalOf ds, (toDigits_naturalOf nonempty inside fun lead => ?_).symm, rfl⟩
    obtain ⟨tail, rfl⟩ := List.head?_eq_some_iff.mp lead
    exact unlike _ rfl

theorem exists_of_fraction {given : Bool} (h : fraction cs = some (given, rest)) :
    ∃ f, Fraction f ∧ given = !f.isEmpty ∧ cs = f ++ rest := by
  rw [fraction.eq_def] at h
  split at h
  · next cs =>
    simp only [bind, Option.bind_eq_some_iff] at h
    obtain ⟨⟨ds, rest⟩, digits, ⟨⟩⟩ := h
    obtain ⟨d, rfl, rfl⟩ := exists_of_digits digits
    exact ⟨_, .given d, rfl, rfl⟩
  · cases h
    exact ⟨[], .absent, rfl, rfl⟩

theorem exists_of_power {given : Bool} (h : power cs = some (given, rest)) :
    ∃ p, Power p ∧ given = !p.isEmpty ∧ cs = p ++ rest := by
  rw [power.eq_def] at h
  split at h
  · next e cs =>
    split at h
    · next he =>
      split at h
      · next s cs =>
        simp only [bind, Option.bind_eq_some_iff] at h
        obtain ⟨⟨ds, rest⟩, digits, ⟨⟩⟩ := h
        obtain ⟨d, rfl, same⟩ := exists_of_digits digits
        split at same
        · next hs => exact ⟨_, .signed e s he hs d, rfl, by rw [same]; rfl⟩
        · exact ⟨_, .bare e he d, rfl, by rw [same]; rfl⟩
      · cases h
    · cases h
      exact ⟨[], .absent, rfl, rfl⟩
  · cases h
    exact ⟨[], .absent, rfl, rfl⟩

theorem exists_of_unsigned {negative : Bool} {v : Json}
    (h : unsigned negative cs = some (v, rest)) :
    ∃ n f p, Fraction f ∧ Power p ∧ cs = Nat.toDigits 10 n ++ (f ++ (p ++ rest)) ∧
      v = .number (if !negative && f.isEmpty && p.isEmpty then some n else none) := by
  simp only [unsigned, bind, Option.bind_eq_some_iff] at h
  obtain ⟨⟨ds, _⟩, whole, ⟨_, _⟩, fraction, ⟨_, _⟩, power, ⟨⟩⟩ := h
  obtain ⟨n, rfl, rfl⟩ := exists_of_whole whole
  obtain ⟨f, hf, rfl, rfl⟩ := exists_of_fraction fraction
  obtain ⟨p, hp, rfl, rfl⟩ := exists_of_power power
  exact ⟨n, f, p, hf, hp, rfl, by simp [naturalOf_toDigits]⟩

theorem exists_of_numeral {v : Json} (h : numeral cs = some (v, rest)) :
    ∃ n ds, Numeral n ds ∧ v = .number n ∧ cs = ds ++ rest := by
  rw [numeral.eq_def] at h
  split at h
  · obtain ⟨n, f, p, hf, hp, rfl, rfl⟩ := exists_of_unsigned h
    exact ⟨none, _, .negative n hf hp, rfl, by simp⟩
  · obtain ⟨n, f, p, hf, hp, rfl, rfl⟩ := exists_of_unsigned h
    by_cases bare : f = [] ∧ p = []
    · obtain ⟨rfl, rfl⟩ := bare
      exact ⟨some n, _, .natural n, rfl, rfl⟩
    · exact ⟨none, _, .real n hf hp bare, by simpa using bare, by simp⟩

end Numbers

section Texts

theorem exists_of_pieces {ps : List Piece} (h : pieces cs = some (ps, rest)) :
    ∃ inner, Spells ps inner ∧ cs = inner ++ '"' :: rest := by
  fun_induction pieces cs generalizing ps with
  | case1 => cases h
  | case2 rest =>
    cases h
    exact ⟨[], .done, rfl⟩
  | case3 a b c d cs ih =>
    simp only [bind, Option.bind_eq_some_iff] at h
    obtain ⟨_, ha, _, hb, _, hc, _, hd, ⟨ps, rest⟩, later, ⟨⟩⟩ := h
    obtain ⟨inner, spells, rfl⟩ := ih later
    exact ⟨_, .hex a b c d ha hb hc hd spells, rfl⟩
  | case4 e cs _ ih =>
    simp only [bind, Option.bind_eq_some_iff] at h
    obtain ⟨c, short, ⟨ps, rest⟩, later, ⟨⟩⟩ := h
    obtain ⟨inner, spells, rfl⟩ := ih later
    exact ⟨_, .short c e short spells, rfl⟩
  | case5 => cases h
  | case6 c cs unquoted _ _ plain ih =>
    simp only [bind, Option.bind_eq_some_iff] at h
    obtain ⟨⟨ps, rest⟩, later, ⟨⟩⟩ := h
    obtain ⟨inner, spells, rfl⟩ := ih later
    obtain ⟨printed, free⟩ := not_or.mp plain
    exact ⟨_, .plain c ⟨Nat.le_of_not_lt printed, unquoted, free⟩ spells, rfl⟩

theorem exists_of_stringBody {text : Option String} (h : stringBody cs = some (text, rest)) :
    ∃ ks, Quotes text ks ∧ '"' :: cs = ks ++ rest := by
  simp only [stringBody, bind, Option.bind_eq_some_iff] at h
  obtain ⟨⟨ps, _⟩, pieces, ⟨⟩⟩ := h
  obtain ⟨inner, spells, rfl⟩ := exists_of_pieces pieces
  exact ⟨_, ⟨ps, inner, spells, rfl, rfl⟩, by simp⟩

end Texts

theorem exists_of_scalar {v : Json} (h : scalar cs = some (v, rest)) :
    ∃ ds, Writes (.value v) ds ∧ cs = ds ++ rest := by
  rw [scalar.eq_def] at h
  split at h
  · cases h
    exact ⟨_, .null, rfl⟩
  · cases h
    exact ⟨_, .true, rfl⟩
  · cases h
    exact ⟨_, .false, rfl⟩
  · simp only [bind, Option.bind_eq_some_iff] at h
    obtain ⟨⟨text, _⟩, body, ⟨⟩⟩ := h
    obtain ⟨ks, quotes, same⟩ := exists_of_stringBody body
    exact ⟨ks, .string quotes, same⟩
  · obtain ⟨n, ds, numeral, rfl, rfl⟩ := exists_of_numeral h
    exact ⟨ds, .number numeral, rfl⟩

structure Derives (fuel : Nat) : Prop where
  value : ∀ {cs v rest}, value fuel cs = some (v, rest) →
    ∃ (a : Gap) (ds : List Char), Writes (.value v) ds ∧ cs = a ++ (ds ++ rest)
  elements : ∀ {cs items rest}, elements fuel cs = some (items, rest) →
    ∃ ds, Writes (.elements items) ds ∧ cs = ds ++ ']' :: rest
  members : ∀ {cs entries rest}, members fuel cs = some (entries, rest) →
    ∃ ds, Writes (.members entries) ds ∧ cs = ds ++ '}' :: rest

/-- An element is a value with blanks on both sides; those behind it are what the reader skips
next. -/
theorem Derives.element {fuel : Nat} (h : Derives fuel) {v : Json} {c : Char}
    (reads : Json.value fuel cs = some (v, ds)) (next : skip ds = c :: rest) :
    ∃ ds', Writes (.element v) ds' ∧ cs = ds' ++ c :: rest := by
  obtain ⟨a, ds', writes, rfl⟩ := h.value reads
  obtain ⟨b, behind⟩ := exists_gap ds
  exact ⟨_, .element a b writes, by rw [behind, next]; simp⟩

theorem exists_of_value {fuel : Nat} (ih : Derives fuel) {v : Json}
    (h : value (fuel + 1) cs = some (v, rest)) :
    ∃ (a : Gap) (ds : List Char), Writes (.value v) ds ∧ cs = a ++ (ds ++ rest) := by
  obtain ⟨a, front⟩ := exists_gap cs
  rw [value] at h
  refine ⟨a, ?_⟩
  split at h
  · next inner opened =>
    obtain ⟨b, inside⟩ := exists_gap inner
    split at h
    · next closed =>
      cases h
      exact ⟨_, .emptyArray b, by rw [front, opened, inside, closed]; simp⟩
    · simp only [bind, Option.bind_eq_some_iff] at h
      obtain ⟨⟨items, rest⟩, later, ⟨⟩⟩ := h
      rw [elements_skip] at later
      obtain ⟨ds, writes, rfl⟩ := ih.elements later
      exact ⟨_, .array writes, by rw [front, opened]; simp⟩
  · next inner opened =>
    obtain ⟨b, inside⟩ := exists_gap inner
    split at h
    · next closed =>
      cases h
      exact ⟨_, .emptyObject b, by rw [front, opened, inside, closed]; simp⟩
    · simp only [bind, Option.bind_eq_some_iff] at h
      obtain ⟨⟨entries, rest⟩, later, ⟨⟩⟩ := h
      rw [members_skip] at later
      obtain ⟨ds, writes, rfl⟩ := ih.members later
      exact ⟨_, .object writes, by rw [front, opened]; simp⟩
  · obtain ⟨ds, writes, same⟩ := exists_of_scalar h
    exact ⟨ds, writes, by rw [front, same]⟩

theorem exists_of_elements {fuel : Nat} (ih : Derives fuel) {items : List Json}
    (h : elements (fuel + 1) cs = some (items, rest)) :
    ∃ ds, Writes (.elements items) ds ∧ cs = ds ++ ']' :: rest := by
  rw [elements] at h
  simp only [bind, Option.bind_eq_some_iff] at h
  obtain ⟨⟨v, behind⟩, reads, h⟩ := h
  dsimp only at h
  split at h
  · next comma =>
    simp only [Option.bind_eq_some_iff] at h
    obtain ⟨⟨items, rest⟩, later, ⟨⟩⟩ := h
    obtain ⟨ds, writes, rfl⟩ := ih.element reads comma
    obtain ⟨ds', writes', rfl⟩ := ih.elements later
    exact ⟨_, .elements writes writes', by simp⟩
  · next closed =>
    cases h
    obtain ⟨ds, writes, rfl⟩ := ih.element reads closed
    exact ⟨_, .lastElement writes, rfl⟩
  · cases h

theorem exists_of_members {fuel : Nat} (ih : Derives fuel)
    {entries : List (Option String × Json)} (h : members (fuel + 1) cs = some (entries, rest)) :
    ∃ ds, Writes (.members entries) ds ∧ cs = ds ++ '}' :: rest := by
  obtain ⟨a, front⟩ := exists_gap cs
  rw [members] at h
  split at h
  · next inner opened =>
    simp only [bind, Option.bind_eq_some_iff] at h
    obtain ⟨⟨key, named⟩, body, h⟩ := h
    obtain ⟨ks, quotes, same⟩ := exists_of_stringBody body
    obtain ⟨b, apart⟩ := exists_gap named
    dsimp only at h
    split at h
    · next colon =>
      simp only [Option.bind_eq_some_iff] at h
      obtain ⟨⟨v, behind⟩, reads, h⟩ := h
      dsimp only at h
      split at h
      · next comma =>
        simp only [Option.bind_eq_some_iff] at h
        obtain ⟨⟨entries, rest⟩, later, ⟨⟩⟩ := h
        obtain ⟨ds, writes, rfl⟩ := ih.element reads comma
        obtain ⟨ds', writes', rfl⟩ := ih.members later
        exact ⟨_, .members a b quotes writes writes',
          by rw [front, opened, same, apart, colon]; simp⟩
      · next closed =>
        cases h
        obtain ⟨ds, writes, rfl⟩ := ih.element reads closed
        exact ⟨_, .lastMember a b quotes writes, by rw [front, opened, same, apart, colon]; simp⟩
      · cases h
    · cases h
  · cases h

theorem derives (fuel : Nat) : Derives fuel := by
  induction fuel with
  | zero => exact ⟨nofun, nofun, nofun⟩
  | succ fuel ih => exact ⟨exists_of_value ih, exists_of_elements ih, exists_of_members ih⟩

/-- A text reads if and only if it is of the grammar, and as what it is there. -/
theorem ofString?_eq_some_iff {text : String} {v : Json} :
    ofString? text = some v ↔ Writes (.element v) text.toList := by
  refine ⟨fun h => ?_, ofString?_eq_some⟩
  rw [ofString?, ofChars?] at h
  split at h
  · next v' rest reads =>
    obtain ⟨blank, ⟨⟩⟩ := Option.ite_none_right_eq_some.mp h
    obtain ⟨a, ds, writes, front⟩ := (derives _).value reads
    obtain ⟨b, behind⟩ := exists_gap rest
    rw [blank, List.append_nil] at behind
    rw [front, behind]
    exact .element a b writes
  · cases h

end VehicleLink.Json
