/-! Markup documents as the sequence of their tags.  Text, comments, character data sections,
processing instructions and document type declarations are passed over. -/

namespace VehicleLink.Markup

/-- A tag by its name; `rest` is what stands behind the name, attributes as written. -/
inductive Tag
  | start (name rest : List Char)
  | single (name rest : List Char)
  | finish (name : List Char)
  deriving DecidableEq, Repr

def isSpace (c : Char) : Bool := c == ' ' || c == '\t' || c == '\r' || c == '\n'

def isQuote (c : Char) : Bool := c == '"' || c == '\''

def after? (mark : List Char) : List Char → Option (List Char)
  | [] => none
  | c :: cs => if mark.isPrefixOf (c :: cs) then some ((c :: cs).drop mark.length) else after? mark cs

/-- Splits at the first `>` that is not inside quotes. -/
def splitTag : Option Char → List Char → Option (List Char × List Char)
  | _, [] => none
  | some q, c :: cs => do
    let (content, rest) ← splitTag (if c = q then none else some q) cs
    return (c :: content, rest)
  | none, c :: cs =>
    if c = '>' then some ([], cs)
    else do
      let (content, rest) ← splitTag (if isQuote c then some c else none) cs
      return (c :: content, rest)

/-- Splits at the `>` that closes as many `<` as were opened before it. -/
def splitDeclaration : Nat → List Char → Option (List Char × List Char)
  | _, [] => none
  | depth, c :: cs =>
    match c, depth with
    | '>', 0 => some ([], cs)
    | _, _ => do
      let depth := if c = '<' then depth + 1 else if c = '>' then depth - 1 else depth
      let (content, rest) ← splitDeclaration depth cs
      return (c :: content, rest)

def upTo (cs : List Char) : List Char := cs.takeWhile fun c => !isSpace c

def past (cs : List Char) : List Char := cs.dropWhile fun c => !isSpace c

def Tag.ofContent (content : List Char) : Tag :=
  match content with
  | '/' :: name =>
    let trimmed := (name.reverse.dropWhile isSpace).reverse
    .finish (if trimmed = [] then name else trimmed)
  | _ =>
    if content.getLast? = some '/' then .single (upTo content.dropLast) (past content.dropLast)
    else .start (upTo content) (past content)

inductive Piece
  | broken
  | skipped (rest : List Char)
  | tag (t : Tag) (rest : List Char)

def Piece.ofOption : Option (List Char) → Piece
  | some rest => .skipped rest
  | none => .broken

def declaration (cs : List Char) : Piece :=
  match splitDeclaration 0 cs with
  | some (content, rest) =>
    if (content.take 7).map Char.toUpper = "DOCTYPE".toList ∧ !(content.drop 7).all isSpace then
      .skipped rest
    else .broken
  | none => .broken

def piece : List Char → Piece
  | [] => .broken
  | '?' :: '>' :: _ => .broken
  | '?' :: cs => .ofOption (after? ['?', '>'] cs)
  | '!' :: '-' :: '-' :: cs => .ofOption (after? ['-', '-', '>'] cs)
  | '!' :: '[' :: 'C' :: 'D' :: 'A' :: 'T' :: 'A' :: '[' :: cs => .ofOption (after? [']', ']', '>'] cs)
  | '!' :: cs => declaration cs
  | cs =>
    match splitTag none cs with
    | some (content, rest) => .tag (.ofContent content) rest
    | none => .broken

def Piece.rest : Piece → List Char
  | .broken => []
  | .skipped rest => rest
  | .tag _ rest => rest

theorem length_le_of_after? {mark cs rest : List Char} (h : after? mark cs = some rest) :
    rest.length ≤ cs.length := by
  induction cs with
  | nil => cases h
  | cons c cs ih =>
    simp only [after?] at h
    split at h
    · cases h
      simp
    · exact Nat.le_succ_of_le (ih h)

theorem length_le_of_splitTag {quote : Option Char} {cs content rest : List Char}
    (h : splitTag quote cs = some (content, rest)) : rest.length ≤ cs.length := by
  induction cs generalizing quote content with
  | nil => cases quote <;> cases h
  | cons c cs ih =>
    cases quote with
    | some q =>
      simp only [splitTag, bind, Option.bind_eq_some_iff] at h
      obtain ⟨⟨content', rest'⟩, hs, h⟩ := h
      cases h
      exact Nat.le_succ_of_le (ih hs)
    | none =>
      simp only [splitTag] at h
      split at h
      · cases h
        simp
      · simp only [bind, Option.bind_eq_some_iff] at h
        obtain ⟨⟨content', rest'⟩, hs, h⟩ := h
        cases h
        exact Nat.le_succ_of_le (ih hs)

theorem length_le_of_splitDeclaration {depth : Nat} {cs content rest : List Char}
    (h : splitDeclaration depth cs = some (content, rest)) : rest.length ≤ cs.length := by
  induction cs generalizing depth content with
  | nil => cases h
  | cons c cs ih =>
    unfold splitDeclaration at h
    split at h
    · cases h
      simp
    · simp only [bind, Option.bind_eq_some_iff] at h
      obtain ⟨⟨content', rest'⟩, hs, h⟩ := h
      cases h
      exact Nat.le_succ_of_le (ih hs)

theorem length_rest_ofOption_le {mark cs : List Char} :
    (Piece.ofOption (after? mark cs)).rest.length ≤ cs.length := by
  cases h : after? mark cs with
  | none => simp [Piece.ofOption, Piece.rest]
  | some rest => exact length_le_of_after? h

theorem length_rest_declaration_le (cs : List Char) :
    (declaration cs).rest.length ≤ cs.length := by
  unfold declaration
  split
  next h =>
    split
    · exact length_le_of_splitDeclaration h
    · simp [Piece.rest]
  · simp [Piece.rest]

theorem length_rest_piece_le (cs : List Char) : (piece cs).rest.length ≤ cs.length := by
  unfold piece
  split
  · simp [Piece.rest]
  · simp [Piece.rest]
  · exact Nat.le_succ_of_le length_rest_ofOption_le
  · exact Nat.le_trans length_rest_ofOption_le (by simp; omega)
  · exact Nat.le_trans length_rest_ofOption_le (by simp; omega)
  · exact Nat.le_trans (length_rest_declaration_le _) (by simp)
  · split
    next h => exact length_le_of_splitTag h
    · simp [Piece.rest]

/-- The tags of a document, and whether its markup is sound to the end.  Unsound markup hides
whatever follows it. -/
def tags (cs : List Char) : List Tag × Bool :=
  match h : cs.dropWhile (· ≠ '<') with
  | [] => ([], true)
  | _ :: inner =>
    have hle : inner.length < cs.length := by
      have := (List.dropWhile_suffix (l := cs) (· ≠ '<')).length_le
      rw [h] at this
      exact this
    match hp : piece inner with
    | .broken => ([], false)
    | .skipped rest =>
      have : rest.length < cs.length := by
        have := length_rest_piece_le inner
        rw [hp] at this
        exact Nat.lt_of_le_of_lt this hle
      tags rest
    | .tag t rest =>
      have : rest.length < cs.length := by
        have := length_rest_piece_le inner
        rw [hp] at this
        exact Nat.lt_of_le_of_lt this hle
      let (ts, sound) := tags rest
      (t :: ts, sound)
termination_by cs.length

theorem length_dropWhile_le (p : Char → Bool) (cs : List Char) :
    (cs.dropWhile p).length ≤ cs.length :=
  (List.dropWhile_suffix p).length_le

def isKey (c : Char) : Bool := c != '=' && !isSpace c

/-- What stands at the front of a tag's attributes.  A key without a value and a repeated key
are `passed` over; a key whose value is not quoted is only `named`. -/
inductive Attribute
  | ends
  | passed (rest : List Char)
  | named (key rest : List Char)
  | found (key value rest : List Char)

def attributeValue (key behind : List Char) : Attribute :=
  match behind.dropWhile isSpace with
  | [] => .ends
  | q :: text =>
    if isQuote q then
      match text.dropWhile (· ≠ q) with
      | [] => .ends
      | _ :: next => .found key (text.takeWhile (· ≠ q)) next
    else .named key (past text)

def nextAttribute (seen : List (List Char)) (cs : List Char) : Attribute :=
  match cs.dropWhile isSpace with
  | [] => .ends
  | c :: rest =>
    let key := c :: rest.takeWhile isKey
    match (rest.dropWhile isKey).dropWhile isSpace with
    | '=' :: behind => if key ∈ seen then .passed (past behind) else attributeValue key behind
    | next => .passed next

def Attribute.rest : Attribute → Option (List Char)
  | .ends => none
  | .passed rest | .named _ rest | .found _ _ rest => some rest

theorem length_le_of_attributeValue {key behind rest : List Char}
    (h : (attributeValue key behind).rest = some rest) : rest.length ≤ behind.length := by
  have hb := length_dropWhile_le isSpace behind
  unfold attributeValue at h
  split at h
  · cases h
  next q text hq =>
    rw [hq] at hb
    simp only [List.length_cons] at hb
    split at h
    · have ht := length_dropWhile_le (· ≠ q) text
      split at h
      · cases h
      next hn =>
        rw [hn] at ht
        cases h
        simp only [List.length_cons] at ht
        omega
    · have ht := length_dropWhile_le (fun c => !isSpace c) text
      cases h
      exact Nat.le_trans ht (by omega)

theorem length_lt_of_nextAttribute {seen : List (List Char)} {cs rest : List Char}
    (h : (nextAttribute seen cs).rest = some rest) : rest.length < cs.length := by
  have hc := length_dropWhile_le isSpace cs
  unfold nextAttribute at h
  split at h
  · cases h
  next c tail hcs =>
    rw [hcs] at hc
    have hk := length_dropWhile_le isKey tail
    have hs := length_dropWhile_le isSpace (tail.dropWhile isKey)
    simp only [List.length_cons] at hc
    dsimp only at h
    split at h
    next behind hb =>
      rw [hb] at hs
      simp only [List.length_cons] at hs
      split at h
      · have hp := length_dropWhile_le (fun c => !isSpace c) behind
        cases h
        exact Nat.lt_of_le_of_lt hp (by omega)
      · have := length_le_of_attributeValue h
        omega
    · cases h
      omega

/-- The attributes behind a tag's name: keys with quoted values, taken as they are written.
An unclosed quote ends the list. -/
def attributesFrom (seen : List (List Char)) (cs : List Char) : List (List Char × List Char) :=
  match h : nextAttribute seen cs with
  | .ends => []
  | .passed rest =>
    have : rest.length < cs.length := length_lt_of_nextAttribute (by rw [h]; rfl)
    attributesFrom seen rest
  | .named key rest =>
    have : rest.length < cs.length := length_lt_of_nextAttribute (by rw [h]; rfl)
    attributesFrom (key :: seen) rest
  | .found key value rest =>
    have : rest.length < cs.length := length_lt_of_nextAttribute (by rw [h]; rfl)
    (key, value) :: attributesFrom (key :: seen) rest
termination_by cs.length

def attributes (rest : List Char) : List (String × String) :=
  (attributesFrom [] rest).map fun a => (String.ofList a.1, String.ofList a.2)

end VehicleLink.Markup
