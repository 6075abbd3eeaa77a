import VehicleLink.Proofs.Dialect.Tags
import VehicleLink.Schema.Field

namespace VehicleLink

def isWordChar (c : Char) : Bool :=
  Numeral.isDigit c || ('A' ≤ c && c ≤ 'Z') || ('a' ≤ c && c ≤ 'z') || c == '_'

theorem isDigit_of_mem_toDigits {n : Nat} {c : Char} (h : c ∈ Nat.toDigits 10 n) :
    Numeral.isDigit c := by
  have isDigit := Nat.isDigit_of_mem_toDigits (by decide) (by decide) h
  simpa [Char.isDigit, Numeral.isDigit, Char.le_def] using isDigit

theorem isWordChar_of_mem_toDigits {n : Nat} {c : Char} (h : c ∈ Nat.toDigits 10 n) :
    isWordChar c := by
  simp [isWordChar, isDigit_of_mem_toDigits h]

abbrev Word := {s : String // s.toList.all isWordChar}

theorem Word.forall (w : Word) : ∀ c ∈ w.1.toList, isWordChar c := List.all_eq_true.mp w.2

def Primitive.word (p : Primitive) : Word := ⟨p.dialectName, by
  rcases p with (t | _ | _) | _
  case number.int => cases t <;> decide
  all_goals decide⟩

theorem Numeral.byte?_toDigits (n : UInt8) : Numeral.byte? (Nat.toDigits 10 n.toNat) = some n := by
  have value : Numeral.value (Nat.toDigits 10 n.toNat) = n.toNat :=
    Nat.ofDigitChars_toDigits (by decide) (by decide)
  have digits : Numeral.digits? (Nat.toDigits 10 n.toNat) = some n.toNat := by
    have valid := List.all_eq_true.mpr fun c => isDigit_of_mem_toDigits (n := n.toNat) (c := c)
    rw [Numeral.digits?, if_pos ⟨Nat.toDigits_ne_nil, valid⟩, value]
  have unsigned : Numeral.unsigned? (Nat.toDigits 10 n.toNat) = some n.toNat := by
    rw [Numeral.unsigned?]
    · exact digits
    · intro ds same
      exact absurd (isDigit_of_mem_toDigits (same ▸ List.mem_cons_self : '+' ∈ _)) (by decide)
  simp [Numeral.byte?, unsigned, n.toNat_lt]

theorem Blank.trim_eq_self {cs : List Char} (h : ∀ c ∈ cs, isBlank c = false) : trim cs = cs := by
  have start : trimStart cs = cs := Markup.dropWhile_eq_self_of_forall h
  have finish : cs.reverse.dropWhile isBlank = cs.reverse :=
    Markup.dropWhile_eq_self_of_forall (by simpa using h)
  rw [trim, start, trimEnd, finish, List.reverse_reverse]

theorem isBlank_eq_false_of_isWordChar {c : Char} (h : isWordChar c) :
    Blank.isBlank c = false := by
  have range : ((48 ≤ c.toNat ∧ c.toNat ≤ 57 ∨ 65 ≤ c.toNat ∧ c.toNat ≤ 90) ∨
      97 ≤ c.toNat ∧ c.toNat ≤ 122) ∨ c.toNat = 95 := by
    have range := h
    simp only [isWordChar, Numeral.isDigit, Bool.or_eq_true, Bool.and_eq_true, decide_eq_true_eq,
      beq_iff_eq, Char.le_def, UInt32.le_iff_toNat_le, ← Char.toNat_inj] at range
    exact range
  simp only [Blank.isBlank, Bool.or_eq_false_iff, Bool.and_eq_false_iff, decide_eq_false_iff_not,
    beq_eq_false_iff_ne]
  omega

theorem Blank.trim_digits (n : Nat) : Blank.trim (Nat.toDigits 10 n) = Nat.toDigits 10 n :=
  Blank.trim_eq_self fun _ isMember =>
    isBlank_eq_false_of_isWordChar (isWordChar_of_mem_toDigits isMember)

theorem Blank.trim_word (w : Word) : Blank.trim w.1.toList = w.1.toList :=
  Blank.trim_eq_self fun c isMember => isBlank_eq_false_of_isWordChar (w.forall c isMember)

namespace FieldType

def render (t : FieldType) : List Char :=
  t.primitive.word.1.toList ++
    match t.arrayLength with
    | none => []
    | some n => '[' :: (Nat.toDigits 10 n.toNat ++ [']'])

theorem forall_render (t : FieldType) :
    ∀ c ∈ t.render, isWordChar c ∨ c = '[' ∨ c = ']' := by
  intro c isMember
  rcases List.mem_append.mp isMember with isName | isLength
  · exact .inl (t.primitive.word.forall c isName)
  · cases length : t.arrayLength with
    | none => simp [length] at isLength
    | some n =>
      simp only [length, List.mem_cons, List.mem_append, List.not_mem_nil, or_false] at isLength
      rcases isLength with opens | isDigit | closes
      · exact .inr (.inl opens)
      · exact .inl (isWordChar_of_mem_toDigits isDigit)
      · exact .inr (.inr closes)

theorem trim_render (t : FieldType) : Blank.trim t.render = t.render :=
  Blank.trim_eq_self fun c isMember => by
    rcases t.forall_render c isMember with isWord | rfl | rfl
    · exact isBlank_eq_false_of_isWordChar isWord
    all_goals rfl

theorem parse?_render (t : FieldType) (counted : t.arrayLength ≠ some 0) :
    parse? (String.ofList t.render) = some t := by
  have tight := t.trim_render
  have plain : ∀ c ∈ t.primitive.word.1.toList, decide (c ≠ '[') = true := fun c isMember =>
    decide_eq_true fun same => absurd (same ▸ t.primitive.word.forall c isMember) (by decide)
  have known : Primitive.ofDialectName? t.primitive.word.1 = some t.primitive :=
    Primitive.ofDialectName?_dialectName t.primitive
  obtain ⟨primitive, arrayLength⟩ := t
  cases arrayLength with
  | none =>
    have whole : render ⟨primitive, none⟩ = primitive.word.1.toList := List.append_nil _
    have unbracketed : primitive.word.1.toList.dropWhile (· ≠ '[') = [] :=
      List.dropWhile_eq_nil_iff.mpr plain
    rw [whole] at tight
    simp only [parse?, String.toList_ofList, whole, tight, unbracketed]
    simp [known]
  | some n =>
    have behind : (render ⟨primitive, some n⟩).dropWhile (· ≠ '[')
        = '[' :: (Nat.toDigits 10 n.toNat ++ [']']) :=
      Markup.dropWhile_append_of_head plain (by simp)
    have before : (render ⟨primitive, some n⟩).takeWhile (· ≠ '[') = primitive.word.1.toList :=
      Markup.takeWhile_append_of_head plain (by simp)
    have nonzero : n ≠ 0 := fun zero => counted (congrArg some zero)
    rw [parse?]
    split
    · next unbracketed =>
      rw [String.toList_ofList, tight, behind] at unbracketed
      cases unbracketed
    · next bracketed =>
      rw [String.toList_ofList, tight, behind] at bracketed
      cases bracketed
      refine Option.bind_eq_some_iff.mpr ⟨(), if_pos List.getLast?_concat, ?_⟩
      refine Option.bind_eq_some_iff.mpr ⟨n, ?_, ?_⟩
      · rw [List.dropLast_concat, Blank.trim_digits, Numeral.byte?_toDigits]
      refine Option.bind_eq_some_iff.mpr ⟨(), if_pos nonzero, ?_⟩
      refine Option.bind_eq_some_iff.mpr ⟨primitive, ?_, rfl⟩
      rw [String.toList_ofList, tight, before, Blank.trim_word, String.ofList_toList]
      exact known

end FieldType

end VehicleLink
