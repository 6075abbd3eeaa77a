import Mathlib.Data.List.DropRight
import VehicleLink.Json.Reader
import VehicleLink.Proofs.Dialect.Types

namespace VehicleLink.Json

abbrev Gap := {cs : List Char // ∀ c ∈ cs, isBlank c}

abbrev Digits := {cs : List Char // cs ≠ [] ∧ ∀ c ∈ cs, isDigit c}

inductive Fraction : List Char → Prop
  | absent : Fraction []
  | given (ds : Digits) : Fraction ('.' :: ds)

inductive Power : List Char → Prop
  | absent : Power []
  | bare (e : Char) (he : e = 'e' ∨ e = 'E') (ds : Digits) : Power (e :: ds)
  | signed (e s : Char) (he : e = 'e' ∨ e = 'E') (hs : s = '+' ∨ s = '-') (ds : Digits) :
    Power (e :: s :: ds)

/-- A number.  Naturals are kept, if they have neither sign nor fraction nor exponent. -/
inductive Numeral : Option Nat → List Char → Prop
  | natural (n : Nat) : Numeral (some n) (Nat.toDigits 10 n)
  | real (n : Nat) : Fraction cs → Power ds → ¬(cs = [] ∧ ds = []) →
    Numeral none (Nat.toDigits 10 n ++ (cs ++ ds))
  | negative (n : Nat) : Fraction cs → Power ds →
    Numeral none ('-' :: (Nat.toDigits 10 n ++ (cs ++ ds)))

inductive Spells : List Piece → List Char → Prop
  | done : Spells [] []
  | plain (c : Char) (h : 32 ≤ c.toNat ∧ c ≠ '"' ∧ c ≠ '\\') :
    Spells ps cs → Spells (.char c :: ps) (c :: cs)
  | short (c e : Char) (h : shortEscape? e = some c) :
    Spells ps cs → Spells (.char c :: ps) ('\\' :: e :: cs)
  | hex (a b c d : Char) (ha : hexDigit? a = some i) (hb : hexDigit? b = some j)
      (hc : hexDigit? c = some k) (hd : hexDigit? d = some l) :
    Spells ps cs → Spells (.unit (((i * 16 + j) * 16 + k) * 16 + l) :: ps)
      ('\\' :: 'u' :: a :: b :: c :: d :: cs)

/-- A text in quotes.  There is none if it escapes surrogates that are not paired. -/
def Quotes (text : Option String) (cs : List Char) : Prop :=
  ∃ ps inner, Spells ps inner ∧ text = (textOf ps).map String.ofList ∧ cs = '"' :: (inner ++ ['"'])

/-- What a stretch of a document stands for.  Elements have blanks around them, values have none. -/
inductive Form
  | value (v : Json)
  | element (v : Json)
  | elements (items : List Json)
  | members (entries : List (Option String × Json))

inductive Writes : Form → List Char → Prop
  | null : Writes (.value .null) ['n', 'u', 'l', 'l']
  | true : Writes (.value (.bool true)) ['t', 'r', 'u', 'e']
  | false : Writes (.value (.bool false)) ['f', 'a', 'l', 's', 'e']
  | number : Numeral n cs → Writes (.value (.number n)) cs
  | string : Quotes text cs → Writes (.value (.string text)) cs
  | emptyArray (a : Gap) : Writes (.value (.array [])) ('[' :: (a ++ [']']))
  | array : Writes (.elements items) cs → Writes (.value (.array items)) ('[' :: (cs ++ [']']))
  | emptyObject (a : Gap) : Writes (.value (.object [])) ('{' :: (a ++ ['}']))
  | object : Writes (.members entries) cs →
    Writes (.value (.object entries)) ('{' :: (cs ++ ['}']))
  | element (a b : Gap) : Writes (.value v) cs → Writes (.element v) (a ++ (cs ++ b))
  | lastElement : Writes (.element v) cs → Writes (.elements [v]) cs
  | elements : Writes (.element v) cs → Writes (.elements items) ds →
    Writes (.elements (v :: items)) (cs ++ ',' :: ds)
  | lastMember (a b : Gap) : Quotes key ks → Writes (.element v) cs →
    Writes (.members [(key, v)]) (a ++ (ks ++ (b ++ ':' :: cs)))
  | members (a b : Gap) : Quotes key ks → Writes (.element v) cs → Writes (.members entries) ds →
    Writes (.members ((key, v) :: entries)) (a ++ (ks ++ (b ++ ':' :: (cs ++ ',' :: ds))))

variable {cs ds rest : List Char} {n : Nat}

section Numbers

def Ends (rest : List Char) : Prop :=
  ∀ c ∈ rest.head?, isDigit c = false ∧ c ≠ '.' ∧ c ≠ 'e' ∧ c ≠ 'E'

theorem digits_append (ds : Digits) (apart : ∀ c ∈ rest.head?, isDigit c = false) :
    digits (ds ++ rest) = some (ds.1, rest) := by
  obtain ⟨ds, nonempty, inside⟩ := ds
  rw [digits, Markup.takeWhile_append_of_head inside apart,
    Markup.dropWhile_append_of_head inside apart]
  cases ds with
  | nil => contradiction
  | cons => rfl

theorem head_toDigits_ne_zero (h : 0 < n) : (Nat.toDigits 10 n).head? ≠ some '0' := by
  induction n using Nat.strongRecOn with
  | ind n ih =>
    rcases Nat.lt_or_ge n 10 with small | large
    · have digit : ∀ n < 10, 0 < n → [n.digitChar].head? ≠ some '0' := by decide
      rw [Nat.toDigits_of_lt_base small]
      exact digit n small h
    · rw [Nat.toDigits_of_base_le (by decide) large,
        List.head?_append_of_ne_nil _ Nat.toDigits_ne_nil]
      exact ih (n / 10) (Nat.div_lt_self h (by decide)) (Nat.div_pos large (by decide))

theorem whole_toDigits (n : Nat) (apart : ∀ c ∈ rest.head?, isDigit c = false) :
    whole (Nat.toDigits 10 n ++ rest) = some (Nat.toDigits 10 n, rest) := by
  rcases Nat.eq_zero_or_pos n with rfl | positive
  · rfl
  · rw [whole]
    · exact digits_append ⟨_, Nat.toDigits_ne_nil, fun _ => isDigit_of_mem_toDigits⟩ apart
    · intro ds same
      apply head_toDigits_ne_zero positive
      rw [← List.head?_append_of_ne_nil _ Nat.toDigits_ne_nil, same, List.head?_cons]

theorem fraction_append (h : Fraction cs)
    (apart : ∀ c ∈ rest.head?, isDigit c = false ∧ c ≠ '.') :
    fraction (cs ++ rest) = some (!cs.isEmpty, rest) := by
  cases h with
  | absent =>
    rw [List.nil_append, fraction]
    · rfl
    · rintro ds rfl
      exact (apart '.' rfl).2 rfl
  | given ds =>
    rw [List.cons_append, fraction, digits_append ds fun c isHead => (apart c isHead).1]
    rfl

theorem power_append (h : Power cs) (ends : Ends rest) :
    power (cs ++ rest) = some (!cs.isEmpty, rest) := by
  have apart := fun c isHead => (ends c isHead).1
  cases h with
  | absent =>
    cases rest with
    | nil => rfl
    | cons c rest =>
      rw [List.nil_append, power.eq_def]
      exact if_neg (not_or.mpr (ends c rfl).2.2)
  | bare e he ds =>
    obtain ⟨ds, nonempty, inside⟩ := ds
    cases ds with
    | nil => contradiction
    | cons d ds =>
      have unsigned : ¬(d = '+' ∨ d = '-') := by
        have isDigit := inside d List.mem_cons_self
        rintro (rfl | rfl) <;> exact absurd isDigit (by decide)
      rw [List.cons_append, List.cons_append, power, if_pos he]
      simp only [if_neg unsigned]
      exact (digits_append ⟨d :: ds, nonempty, inside⟩ apart) ▸ rfl
  | signed e s he hs ds =>
    rw [List.cons_append, List.cons_append, power, if_pos he]
    simp only [if_pos hs, digits_append ds apart]
    rfl

theorem Power.apart (h : Power cs) (ends : Ends rest) :
    ∀ c ∈ (cs ++ rest).head?, isDigit c = false ∧ c ≠ '.' := by
  cases h with
  | absent => exact fun c isHead => ⟨(ends c isHead).1, (ends c isHead).2.1⟩
  | bare e he ds | signed e s he hs ds =>
    rintro c ⟨⟩
    rcases he with rfl | rfl <;> decide

theorem Fraction.apart (h : Fraction cs) (behind : ∀ c ∈ rest.head?, isDigit c = false) :
    ∀ c ∈ (cs ++ rest).head?, isDigit c = false := by
  cases h with
  | absent => exact behind
  | given ds =>
    rintro c ⟨⟩
    decide

theorem naturalOf_toDigits (n : Nat) : naturalOf (Nat.toDigits 10 n) = n :=
  Nat.ofDigitChars_toDigits (by decide) (by decide)

theorem unsigned_append (negative : Bool) (n : Nat) (hf : Fraction cs) (hp : Power ds)
    (ends : Ends rest) :
    unsigned negative (Nat.toDigits 10 n ++ (cs ++ (ds ++ rest))) =
      some (.number (if !negative && cs.isEmpty && ds.isEmpty then some n else none), rest) := by
  have apart := hp.apart ends
  rw [unsigned, whole_toDigits n (hf.apart fun c isHead => (apart c isHead).1)]
  simp only [bind, Option.bind_some, fraction_append hf apart, power_append hp ends,
    naturalOf_toDigits, Bool.not_not]
  rfl

theorem exists_toDigits_eq (n : Nat) : ∃ c cs, Nat.toDigits 10 n = c :: cs ∧ isDigit c := by
  cases equal : Nat.toDigits 10 n with
  | nil => exact absurd equal Nat.toDigits_ne_nil
  | cons c cs => exact ⟨c, cs, rfl, isDigit_of_mem_toDigits (equal ▸ List.mem_cons_self)⟩

theorem Numeral.exists_cons {n : Option Nat} (h : Numeral n cs) :
    ∃ c cs', cs = c :: cs' ∧ (c = '-' ∨ isDigit c) := by
  cases h with
  | negative => exact ⟨'-', _, rfl, .inl rfl⟩
  | natural n =>
    obtain ⟨c, cs', equal, digit⟩ := exists_toDigits_eq n
    exact ⟨c, cs', equal, .inr digit⟩
  | real n =>
    obtain ⟨c, cs', equal, digit⟩ := exists_toDigits_eq n
    exact ⟨c, _, by rw [equal, List.cons_append], .inr digit⟩

theorem numeral_toDigits (n : Nat) :
    numeral (Nat.toDigits 10 n ++ rest) = unsigned false (Nat.toDigits 10 n ++ rest) := by
  obtain ⟨c, cs, equal, digit⟩ := exists_toDigits_eq n
  rw [equal, List.cons_append, numeral]
  rintro _ ⟨⟩
  exact absurd digit (by decide)

theorem numeral_append {n : Option Nat} (h : Numeral n cs) (ends : Ends rest) :
    numeral (cs ++ rest) = some (.number n, rest) := by
  cases h with
  | natural n =>
    rw [numeral_toDigits]
    exact unsigned_append false n .absent .absent ends
  | real n hf hp given =>
    rw [List.append_assoc, List.append_assoc, numeral_toDigits, unsigned_append false n hf hp ends,
      if_neg (by simpa using given)]
  | negative n hf hp =>
    rw [List.cons_append, numeral, List.append_assoc, List.append_assoc,
      unsigned_append true n hf hp ends]
    rfl

end Numbers

section Texts

theorem pieces_append {ps : List Piece} (h : Spells ps cs) :
    pieces (cs ++ '"' :: rest) = some (ps, rest) := by
  induction h with
  | done => rfl
  | plain c h _ ih =>
    rw [List.cons_append, pieces, if_neg (by simp [h]), ih]
    · rfl
    all_goals simp [h]
  | short c e h _ ih =>
    rw [List.cons_append, List.cons_append, pieces, h, ih]
    · rfl
    · rintro a b c d rest rfl
      cases h
  | hex a b c d ha hb hc hd _ ih =>
    simp only [List.cons_append, pieces, ha, hb, hc, hd, ih]
    rfl

theorem Quotes.exists_cons {text : Option String} (h : Quotes text cs) :
    ∃ inner, cs = '"' :: inner ∧ ∀ rest, stringBody (inner ++ rest) = some (text, rest) := by
  obtain ⟨ps, inner, spells, rfl, rfl⟩ := h
  refine ⟨inner ++ ['"'], rfl, fun rest => ?_⟩
  rw [stringBody, List.append_assoc, List.singleton_append, pieces_append spells]
  rfl

end Texts

section Documents

variable {fuel : Nat} {c : Char} {v : Json} {key : Option String} {ks : List Char}
  {items : List Json} {entries : List (Option String × Json)} {a b d : Gap}

theorem isBlank_iff : isBlank c ↔ c = ' ' ∨ c = '\n' ∨ c = '\t' ∨ c = '\r' := by
  simp [isBlank, or_assoc]

theorem skip_gap (a : Gap) (rest : List Char) : skip (a ++ rest) = skip rest :=
  List.dropWhile_append_of_pos a.2

theorem skip_cons (h : isBlank c = false) : skip (c :: cs) = c :: cs :=
  List.dropWhile_cons_of_neg (by simp [h])

theorem skip_skip (cs : List Char) : skip (skip cs) = skip cs := by
  rw [skip, skip, List.dropWhile_idempotent]

theorem value_skip (fuel : Nat) (cs : List Char) : value fuel (skip cs) = value fuel cs := by
  cases fuel with
  | zero => rw [value, value]
  | succ fuel => rw [value, value, skip_skip]

theorem elements_skip (fuel : Nat) (cs : List Char) :
    elements fuel (skip cs) = elements fuel cs := by
  cases fuel with
  | zero => rw [elements, elements]
  | succ fuel => rw [elements, elements, value_skip]

theorem members_skip (fuel : Nat) (cs : List Char) : members fuel (skip cs) = members fuel cs := by
  cases fuel with
  | zero => rw [members, members]
  | succ fuel => rw [members, members, skip_skip]

theorem elements_close (fuel : Nat) (cs : List Char) : elements fuel (']' :: cs) = none := by
  rcases fuel with _ | _ | fuel <;> rfl

theorem members_close (fuel : Nat) (cs : List Char) : members fuel ('}' :: cs) = none := by
  cases fuel <;> rfl

theorem value_bracket (fuel : Nat) (a : Gap) (cs : List Char) :
    value (fuel + 1) (a ++ '[' :: cs) =
      match skip cs with
      | ']' :: cs => some (.array [], cs)
      | cs => do
        let (items, cs) ← elements fuel cs
        return (.array items, cs) := by
  rw [value, skip_gap, skip_cons (by decide)]
  rfl

theorem value_brace (fuel : Nat) (a : Gap) (cs : List Char) :
    value (fuel + 1) (a ++ '{' :: cs) =
      match skip cs with
      | '}' :: cs => some (.object [], cs)
      | cs => do
        let (entries, cs) ← members fuel cs
        return (.object entries, cs) := by
  rw [value, skip_gap, skip_cons (by decide)]
  rfl

theorem value_of_elements (h : elements fuel cs = some (items, rest)) (a : Gap) :
    value (fuel + 1) (a ++ '[' :: cs) = some (.array items, rest) := by
  rw [← elements_skip] at h
  rw [value_bracket]
  split
  · next closed =>
    rw [closed, elements_close] at h
    cases h
  · rw [h]
    rfl

theorem value_of_members (h : members fuel cs = some (entries, rest)) (a : Gap) :
    value (fuel + 1) (a ++ '{' :: cs) = some (.object entries, rest) := by
  rw [← members_skip] at h
  rw [value_brace]
  split
  · next closed =>
    rw [closed, members_close] at h
    cases h
  · rw [h]
    rfl

theorem elements_last (h : value fuel cs = some (v, a ++ ']' :: rest)) :
    elements (fuel + 1) cs = some ([v], rest) := by
  rw [elements, h]
  simp only [bind, Option.bind_some, skip_gap]
  rfl

theorem elements_next (h : value fuel cs = some (v, a ++ ',' :: ds))
    (hs : elements fuel ds = some (items, rest)) :
    elements (fuel + 1) cs = some (v :: items, rest) := by
  rw [elements, h]
  simp only [bind, Option.bind_some, skip_gap]
  change Option.bind (elements fuel ds) _ = _
  rw [hs]
  rfl

theorem members_key (hk : Quotes key ks) :
    members (fuel + 1) (a ++ (ks ++ (b ++ ':' :: cs))) = (do
      let (v, rest) ← value fuel cs
      match skip rest with
      | ',' :: rest =>
        let (entries, rest) ← members fuel rest
        return ((key, v) :: entries, rest)
      | '}' :: rest => return ([(key, v)], rest)
      | _ => none) := by
  obtain ⟨inner, rfl, reads⟩ := hk.exists_cons
  rw [members, skip_gap, List.cons_append, skip_cons (by decide)]
  simp only [reads, bind, Option.bind_some, skip_gap]
  rfl

theorem members_last (hk : Quotes key ks) (h : value fuel cs = some (v, d ++ '}' :: rest)) :
    members (fuel + 1) (a ++ (ks ++ (b ++ ':' :: cs))) = some ([(key, v)], rest) := by
  rw [members_key hk, h]
  simp only [bind, Option.bind_some, skip_gap]
  rfl

theorem members_next (hk : Quotes key ks) (h : value fuel cs = some (v, d ++ ',' :: ds))
    (hs : members fuel ds = some (entries, rest)) :
    members (fuel + 1) (a ++ (ks ++ (b ++ ':' :: cs))) = some ((key, v) :: entries, rest) := by
  rw [members_key hk, h]
  simp only [bind, Option.bind_some, skip_gap]
  change Option.bind (members fuel ds) _ = _
  rw [hs]
  rfl

abbrev IsScalar (c : Char) : Prop := isBlank c = false ∧ c ≠ '[' ∧ c ≠ '{'

theorem value_scalar (h : IsScalar c) (fuel : Nat) (a : Gap) :
    value (fuel + 1) (a ++ c :: cs) = scalar (c :: cs) := by
  rw [value, skip_gap, skip_cons h.1]
  split
  · next same => cases same; exact absurd rfl h.2.1
  · next same => cases same; exact absurd rfl h.2.2
  · rfl

theorem isScalar_of_start (h : c = '-' ∨ isDigit c) : IsScalar c := by
  refine ⟨?_, ?_, ?_⟩
  · rw [← Bool.not_eq_true, isBlank_iff]
    rintro (rfl | rfl | rfl | rfl) <;> exact absurd h (by decide)
  all_goals
    rintro rfl
    exact absurd h (by decide)

theorem scalar_of_start (h : c = '-' ∨ isDigit c) : scalar (c :: cs) = numeral (c :: cs) := by
  rw [scalar.eq_def]
  split
  case h_5 => rfl
  all_goals
    next same => cases same; exact absurd h (by decide)

def Closes (rest : List Char) : Prop := ∀ c ∈ rest.head?, c = ',' ∨ c = ']' ∨ c = '}'

theorem closes_cons (h : c = ',' ∨ c = ']' ∨ c = '}') : Closes (c :: rest) := by
  rintro _ ⟨⟩
  exact h

theorem Closes.ends (h : Closes rest) (a : Gap) : Ends (a ++ rest) := by
  obtain ⟨_ | ⟨d, gap⟩, blank⟩ := a
  · intro c isHead
    rcases h c isHead with rfl | rfl | rfl <;> decide
  · rintro c ⟨⟩
    rcases isBlank_iff.mp (blank d List.mem_cons_self) with rfl | rfl | rfl | rfl <;> decide

/-- How a written form reads under a bound its length does not exceed, when nothing behind it
continues it. -/
def Reads : Form → List Char → Prop
  | .value v, cs => ∀ fuel rest, Ends rest → cs.length ≤ fuel →
    ∀ a : Gap, value fuel (a ++ (cs ++ rest)) = some (v, rest)
  | .element v, cs => ∀ fuel rest, Closes rest → cs.length ≤ fuel →
    ∃ b : Gap, value fuel (cs ++ rest) = some (v, b ++ rest)
  | .elements items, cs => ∀ fuel rest, cs.length < fuel →
    elements fuel (cs ++ ']' :: rest) = some (items, rest)
  | .members entries, cs => ∀ fuel rest, cs.length < fuel →
    members fuel (cs ++ '}' :: rest) = some (entries, rest)

theorem reads_scalar (start : IsScalar c)
    (h : ∀ rest, Ends rest → scalar (c :: (cs ++ rest)) = some (v, rest)) :
    Reads (.value v) (c :: cs) := by
  rintro (_ | fuel) rest ends enough a
  · cases enough
  rw [List.cons_append, value_scalar start, h rest ends]

theorem Writes.reads {form : Form} (h : Writes form cs) : Reads form cs := by
  induction h with
  | null | true | false => exact reads_scalar (by decide) fun _ _ => rfl
  | number h =>
    obtain ⟨c, cs', rfl, start⟩ := h.exists_cons
    refine reads_scalar (isScalar_of_start start) fun rest ends => ?_
    rw [scalar_of_start start]
    exact numeral_append h ends
  | string h =>
    obtain ⟨inner, rfl, reads⟩ := h.exists_cons
    refine reads_scalar (by decide) fun rest _ => ?_
    rw [scalar, reads]
    rfl
  | emptyArray a =>
    rintro (_ | fuel) rest - enough b
    · cases enough
    rw [List.cons_append, value_bracket, List.append_assoc, skip_gap]
    rfl
  | array _ ih =>
    rintro (_ | fuel) rest - enough a
    · cases enough
    rw [List.cons_append, List.append_assoc]
    simp only [List.length_cons, List.length_append] at enough
    exact value_of_elements (ih fuel rest (by omega)) a
  | emptyObject a =>
    rintro (_ | fuel) rest - enough b
    · cases enough
    rw [List.cons_append, value_brace, List.append_assoc, skip_gap]
    rfl
  | object _ ih =>
    rintro (_ | fuel) rest - enough a
    · cases enough
    rw [List.cons_append, List.append_assoc]
    simp only [List.length_cons, List.length_append] at enough
    exact value_of_members (ih fuel rest (by omega)) a
  | element a b _ ih =>
    intro fuel rest closes enough
    simp only [List.length_append] at enough
    refine ⟨b, ?_⟩
    rw [List.append_assoc, List.append_assoc]
    exact ih fuel (b ++ rest) (closes.ends b) (by omega) a
  | lastElement _ ih =>
    rintro (_ | fuel) rest enough
    · cases enough
    obtain ⟨b, reads⟩ := ih fuel (']' :: rest) (closes_cons (by decide)) (by omega)
    exact elements_last reads
  | @elements _ cs _ ds _ _ ihv ihs =>
    rintro (_ | fuel) rest enough
    · cases enough
    simp only [List.length_append, List.length_cons] at enough
    obtain ⟨b, reads⟩ := ihv fuel (',' :: (ds ++ ']' :: rest)) (closes_cons (by decide)) (by omega)
    rw [List.append_assoc, List.cons_append]
    exact elements_next reads (ihs fuel rest (by omega))
  | lastMember a b hk _ ih =>
    rintro (_ | fuel) rest enough
    · cases enough
    simp only [List.length_append, List.length_cons] at enough
    obtain ⟨c, reads⟩ := ih fuel ('}' :: rest) (closes_cons (by decide)) (by omega)
    simp only [List.append_assoc, List.cons_append]
    exact members_last hk reads
  | @members _ _ _ cs _ ds a b hk _ _ ihv ihs =>
    rintro (_ | fuel) rest enough
    · cases enough
    simp only [List.length_append, List.length_cons] at enough
    obtain ⟨c, reads⟩ := ihv fuel (',' :: (ds ++ '}' :: rest)) (closes_cons (by decide)) (by omega)
    simp only [List.append_assoc, List.cons_append]
    exact members_next hk reads (ihs fuel rest (by omega))

theorem ofString?_eq_some {text : String} (h : Writes (.element v) text.toList) :
    ofString? text = some v := by
  obtain ⟨b, reads⟩ := h.reads (text.toList.length + 1) [] nofun (by omega)
  rw [List.append_nil] at reads
  rw [ofString?, ofChars?, reads]
  exact if_pos (skip_gap b [])

end Documents

end VehicleLink.Json
