import VehicleLink.Proofs.Dialect
import VehicleLink.Proofs.Dialect.Types

namespace VehicleLink

variable {cs : List Char}

namespace Numeral

def Spells (cs : List Char) (n : Nat) : Prop :=
  ∃ ds, (cs = ds ∨ cs = '+' :: ds) ∧ ds ≠ [] ∧ (∀ c ∈ ds, isDigit c) ∧ value ds = n

theorem digits?_eq_some_iff {n : Nat} :
    digits? cs = some n ↔ cs ≠ [] ∧ (∀ c ∈ cs, isDigit c) ∧ value cs = n := by
  simp only [digits?, Option.ite_none_right_eq_some, Option.some.injEq, List.all_eq_true, and_assoc]

theorem unsigned?_eq_some_iff {n : Nat} : unsigned? cs = some n ↔ Spells cs n := by
  rw [unsigned?.eq_def]
  split
  · next ds =>
    rw [digits?_eq_some_iff]
    constructor
    · exact fun digits => ⟨ds, .inr rfl, digits⟩
    · rintro ⟨ds', rfl | same, digits⟩
      · exact absurd (digits.2.1 '+' List.mem_cons_self) (by decide)
      · cases same
        exact digits
  · next unlike =>
    rw [digits?_eq_some_iff]
    constructor
    · exact fun digits => ⟨cs, .inl rfl, digits⟩
    · rintro ⟨ds, rfl | rfl, digits⟩
      · exact digits
      · exact absurd rfl (unlike ds)

theorem byte?_eq_some_iff {b : UInt8} : byte? cs = some b ↔ Spells cs b.toNat := by
  simp only [byte?, bind, Option.bind_eq_some_iff, Option.ite_none_right_eq_some, Option.some.injEq,
    ← unsigned?_eq_some_iff]
  constructor
  · rintro ⟨n, spelled, short, rfl⟩
    rwa [UInt8.toNat_ofNat_of_lt' short]
  · exact fun spelled => ⟨b.toNat, spelled, b.toNat_lt, UInt8.ofNat_toNat⟩

theorem isBlank_eq_false_of_isDigit {c : Char} (h : isDigit c) : Blank.isBlank c = false :=
  isBlank_eq_false_of_isWordChar (by simp [isWordChar, h])

theorem Spells.tight {n : Nat} (h : Spells cs n) :
    cs ≠ [] ∧ ∀ c ∈ cs, Blank.isBlank c = false := by
  obtain ⟨ds, rfl | rfl, nonempty, digits, -⟩ := h
  · exact ⟨nonempty, fun c isMember => isBlank_eq_false_of_isDigit (digits c isMember)⟩
  · refine ⟨List.cons_ne_nil _ _, List.forall_mem_cons.mpr ⟨rfl, fun c isMember => ?_⟩⟩
    exact isBlank_eq_false_of_isDigit (digits c isMember)

end Numeral

namespace Blank

abbrev Gap := {cs : List Char // ∀ c ∈ cs, isBlank c}

theorem trim_between (a b : Gap) (nonempty : cs ≠ []) (tight : ∀ c ∈ cs, isBlank c = false) :
    trim (a ++ (cs ++ b)) = cs := by
  have first : ∀ c ∈ (cs ++ b.1).head?, isBlank c = false := by
    rw [List.head?_append_of_ne_nil _ nonempty]
    exact fun c isHead => tight c (List.mem_of_head? isHead)
  have last : ∀ c ∈ cs.reverse.head?, isBlank c = false := by
    simpa using fun c isLast => tight c (List.mem_of_getLast? isLast)
  have start : trimStart (a ++ (cs ++ b)) = cs ++ b := Markup.dropWhile_append_of_head a.2 first
  have finish : (b.1.reverse ++ cs.reverse).dropWhile isBlank = cs.reverse :=
    Markup.dropWhile_append_of_head (by simpa using b.2) last
  rw [trim, start, trimEnd, List.reverse_append, finish, List.reverse_reverse]

theorem exists_trimStart_eq (cs : List Char) : ∃ gap : Gap, trimStart cs = trim cs ++ gap := by
  refine ⟨⟨((trimStart cs).reverse.takeWhile isBlank).reverse, fun c isMember =>
    List.mem_takeWhile_imp (List.mem_reverse.mp isMember)⟩, ?_⟩
  rw [trim, trimEnd, ← List.reverse_append, List.takeWhile_append_dropWhile, List.reverse_reverse]

theorem exists_eq_between_trim (cs : List Char) : ∃ a b : Gap, cs = a ++ (trim cs ++ b) := by
  obtain ⟨b, behind⟩ := exists_trimStart_eq cs
  refine ⟨⟨cs.takeWhile isBlank, fun c => List.mem_takeWhile_imp⟩, b, ?_⟩
  rw [← behind, trimStart, List.takeWhile_append_dropWhile]

theorem isBlank_head_trim {c : Char} (h : (trim cs).head? = some c) : isBlank c = false := by
  obtain ⟨b, behind⟩ := exists_trimStart_eq cs
  have first : (cs.dropWhile isBlank).head? = some c := by
    rw [← trimStart, behind, List.head?_append, h, Option.some_or]
  simpa only [first] using List.head?_dropWhile_not isBlank cs

end Blank

namespace Primitive

inductive Named : Primitive → String → Prop
  | canonical (p : Primitive) : Named p p.dialectName
  | version : Named .u8 "uint8_t_mavlink_version"

theorem ofDialectName?_eq_some_iff {p : Primitive} {name : String} :
    ofDialectName? name = some p ↔ Named p name := by
  constructor
  · intro h
    rw [ofDialectName?.eq_def] at h
    split at h <;> cases h
    case h_2 => exact .version
    all_goals exact .canonical _
  · rintro (_ | _)
    · exact ofDialectName?_dialectName p
    · rfl

theorem Named.forall_isWordChar {p : Primitive} {name : String} (h : Named p name) :
    ∀ c ∈ name.toList, isWordChar c := by
  cases h with
  | canonical => exact p.word.forall
  | version => exact List.all_eq_true.mp (by decide)

theorem Named.ne_nil {p : Primitive} {name : String} (h : Named p name) : name.toList ≠ [] := by
  cases h with
  | canonical =>
    rcases p with (t | _ | _) | _
    case number.int => cases t <;> decide
    all_goals decide
  | version => decide

end Primitive

namespace FieldType

open Blank

inductive Spells : List Char → FieldType → Prop
  | scalar {p : Primitive} {name : String} (named : p.Named name) : Spells name.toList ⟨p, none⟩
  | array {p : Primitive} {name : String} (named : p.Named name) (a b c : Gap)
      {number : List Char} {n : Nat} (spelled : Numeral.Spells number n) (least : 1 ≤ n)
      (most : n ≤ 255) :
      Spells (name.toList ++ (a ++ '[' :: (b ++ (number ++ c) ++ [']']))) ⟨p, some (.ofNat n)⟩

theorem exists_name_of_trim {before rest : List Char} (trimmed : trim cs = before ++ rest) :
    ∃ gap : Gap, before = trim before ++ gap := by
  obtain ⟨⟨blanks, blank⟩, gap, between⟩ := exists_eq_between_trim before
  cases blanks with
  | nil => exact ⟨gap, between⟩
  | cons c blanks =>
    have first : (trim cs).head? = some c := by
      rw [trimmed, between]
      rfl
    exact absurd (blank c List.mem_cons_self) (by simp [isBlank_head_trim first])

section

variable {text : String} {front inner : List Char}

theorem split_at_bracket (plain : ∀ c ∈ front, c ≠ '[') (rest : List Char) :
    (front ++ '[' :: rest).takeWhile (· ≠ '[') = front
      ∧ (front ++ '[' :: rest).dropWhile (· ≠ '[') = '[' :: rest := by
  have plain : ∀ c ∈ front, decide (c ≠ '[') = true := fun c isMember =>
    decide_eq_true (plain c isMember)
  exact ⟨Markup.takeWhile_append_of_head plain (by simp),
    Markup.dropWhile_append_of_head plain (by simp)⟩

theorem parse?_bracketed (plain : ∀ c ∈ front, c ≠ '[')
    (trimmed : trim text.toList = front ++ '[' :: (inner ++ [']'])) {t : FieldType} :
    parse? text = some t ↔
      ∃ p length, Primitive.ofDialectName? (String.ofList (trim front)) = some p
        ∧ Numeral.byte? (trim inner) = some length ∧ length ≠ 0 ∧ t = ⟨p, some length⟩ := by
  obtain ⟨before, behind⟩ := split_at_bracket plain (inner ++ [']'])
  simp only [parse?, trimmed, before, behind, List.getLast?_concat, List.dropLast_concat]
  constructor
  · intro h
    obtain ⟨_, -, h⟩ := Option.bind_eq_some_iff.mp h
    obtain ⟨length, counted, h⟩ := Option.bind_eq_some_iff.mp h
    obtain ⟨_, nonzero, h⟩ := Option.bind_eq_some_iff.mp h
    obtain ⟨p, known, h⟩ := Option.bind_eq_some_iff.mp h
    cases h
    exact ⟨p, length, known, counted, by simpa using nonzero, rfl⟩
  · rintro ⟨p, length, known, counted, nonzero, rfl⟩
    simp [known, counted, nonzero, guard]

end

theorem spells_of_parse? {text : String} {t : FieldType} (h : parse? text = some t) :
    Spells (trim text.toList) t := by
  have parts := List.takeWhile_append_dropWhile (p := (· ≠ '[')) (l := trim text.toList)
  have read := h
  rw [parse?] at read
  dsimp only at read
  split at read
  · obtain ⟨p, known, read⟩ := Option.bind_eq_some_iff.mp read
    cases read
    simpa using Spells.scalar (Primitive.ofDialectName?_eq_some_iff.mp known)
  · next bracket rest behind =>
    have opens : bracket = '[' := by
      have first := List.head?_dropWhile_not (· ≠ '[') (trim text.toList)
      rw [behind] at first
      simpa using first
    obtain ⟨_, closed, -⟩ := Option.bind_eq_some_iff.mp read
    obtain ⟨inner, rfl⟩ : ∃ inner, rest = inner ++ [']'] :=
      List.getLast?_eq_some_iff.mp (by simpa using closed)
    have plain : ∀ c ∈ (trim text.toList).takeWhile (· ≠ '['), c ≠ '[' := fun c isMember => by
      simpa using List.mem_takeWhile_imp isMember
    rw [behind, opens] at parts
    obtain ⟨p, length, known, counted, nonzero, rfl⟩ := (parse?_bracketed plain parts.symm).mp h
    obtain ⟨a, front⟩ := exists_name_of_trim parts.symm
    obtain ⟨b, c, within⟩ := exists_eq_between_trim inner
    have positive : 1 ≤ length.toNat :=
      Nat.one_le_iff_ne_zero.mpr fun zero => nonzero (UInt8.toNat_inj.mp zero)
    have spelled := Spells.array (Primitive.ofDialectName?_eq_some_iff.mp known) a b c
      (Numeral.byte?_eq_some_iff.mp counted) positive (Nat.le_of_lt_succ length.toNat_lt)
    rwa [String.toList_ofList, UInt8.ofNat_toNat, ← within, ← List.append_assoc, ← front,
      parts] at spelled

theorem parse?_of_spells {text : String} {t : FieldType} (h : Spells (trim text.toList) t) :
    parse? text = some t := by
  generalize trimmed : trim text.toList = cs at h
  cases h with
  | @scalar p name named =>
    have plain : ∀ c ∈ name.toList, decide (c ≠ '[') = true := fun c isMember =>
      decide_eq_true fun same => absurd (same ▸ named.forall_isWordChar c isMember) (by decide)
    have unbracketed : name.toList.dropWhile (· ≠ '[') = [] := List.dropWhile_eq_nil_iff.mpr plain
    simp only [parse?, trimmed, unbracketed]
    simp [Primitive.ofDialectName?_eq_some_iff.mpr named]
  | @array p name named a b c number n spelled least most =>
    have plain : ∀ d ∈ name.toList ++ a.1, d ≠ '[' := by
      rintro d isMember rfl
      rcases List.mem_append.mp isMember with inName | inGap
      · exact absurd (named.forall_isWordChar _ inName) (by decide)
      · exact absurd (a.2 _ inGap) (by decide)
    have short : (UInt8.ofNat n).toNat = n := UInt8.toNat_ofNat_of_lt' (Nat.lt_succ_of_le most)
    have name_tight := fun d isMember =>
      isBlank_eq_false_of_isWordChar (named.forall_isWordChar d isMember)
    have front : trim (name.toList ++ a) = name.toList :=
      trim_between ⟨[], List.forall_mem_nil _⟩ a named.ne_nil name_tight
    have inner : trim (b ++ (number ++ c)) = number :=
      trim_between b c spelled.tight.1 spelled.tight.2
    rw [← List.append_assoc] at trimmed
    refine (parse?_bracketed plain trimmed).mpr ⟨p, .ofNat n, ?_, ?_, ?_, rfl⟩
    · rw [front, String.ofList_toList]
      exact Primitive.ofDialectName?_eq_some_iff.mpr named
    · rw [inner, Numeral.byte?_eq_some_iff, short]
      exact spelled
    · intro zero
      rw [← short, zero] at least
      exact absurd least (by decide)

/-- A text reads as a type if and only if the text without the blanks around it spells that type.
Any other text is refused.  What reads reads the same when it is written back. -/
theorem parse?_grammar (text : String) :
    (∀ t, parse? text = some t ↔ Spells (trim text.toList) t)
      ∧ (parse? text = none ↔ ¬ ∃ t, Spells (trim text.toList) t)
      ∧ (parse? text).bind (fun t => parse? (String.ofList t.render)) = parse? text := by
  have reads : ∀ t, parse? text = some t ↔ Spells (trim text.toList) t := fun t =>
    ⟨spells_of_parse?, parse?_of_spells⟩
  refine ⟨reads, ?_, ?_⟩
  · simp only [← reads, ← Option.isSome_iff_exists, Option.not_isSome_iff_eq_none]
  · cases read : parse? text with
    | none => rfl
    | some t => rw [Option.bind_some, parse?_render t (arrayLength_of_parse? read)]

end FieldType

end VehicleLink
