import VehicleLink.Proofs.Dialect.Attributes

namespace VehicleLink.Markup

/-- What may stand between the angle brackets of a tag: `>` only in quotes, and every quote
closed. -/
inductive Quoted : List Char → Prop
  | nil : Quoted []
  | char {c : Char} {cs : List Char} (within : c ≠ '>') (bare : isQuote c = false)
      (rest : Quoted cs) : Quoted (c :: cs)
  | quote {quote : Char} {value cs : List Char} (opens : isQuote quote) (inside : quote ∉ value)
      (rest : Quoted cs) : Quoted (quote :: (value ++ [quote]) ++ cs)

inductive Paired : List Char → Prop
  | nil : Paired []
  | char {c : Char} {cs : List Char} (opens : c ≠ '<') (closes : c ≠ '>') (rest : Paired cs) :
      Paired (c :: cs)
  | brackets {cs cs' : List Char} (inner : Paired cs) (rest : Paired cs') :
      Paired ('<' :: (cs ++ '>' :: cs'))

variable {cs cs' : List Char} {ts : List Tag} {c : Char} {depth : Nat}

theorem Quoted.balanced (h : Quoted cs) : Balanced cs := by
  induction h with
  | nil => exact .nil
  | char within bare _ ih => exact (Balanced.single within bare).append ih
  | quote opens inside _ ih => exact (Balanced.quoted opens inside).append ih

theorem Quoted.append (h : Quoted cs) (h' : Quoted cs') : Quoted (cs ++ cs') := by
  induction h with
  | nil => exact h'
  | char within bare _ ih => exact .char within bare ih
  | quote opens inside _ ih =>
    rw [List.append_assoc]
    exact .quote opens inside ih

theorem Quoted.of_forall (h : ∀ c ∈ cs, c ≠ '>' ∧ isQuote c = false) : Quoted cs := by
  induction cs with
  | nil => exact .nil
  | cons c cs ih =>
    obtain ⟨⟨within, bare⟩, others⟩ := List.forall_mem_cons.mp h
    exact .char within bare (ih others)

theorem IsName.quoted (h : IsName cs) : Quoted cs := Quoted.of_forall fun c isMember => by
  have tight := fun mark isMark => h.forall_ne mark isMark c isMember
  exact ⟨tight '>' rfl, by simp [isQuote, tight '"' rfl, tight '\'' rfl]⟩

theorem Space.quoted (s : Space) : Quoted s.1 := Quoted.of_forall fun c isMember =>
  ne_end_and_isQuote_eq_false_of_isSpace (s.forall c isMember)

theorem AttributeList.quoted_render (l : AttributeList) : Quoted l.render := by
  obtain ⟨assignments, blanks⟩ := l
  simp only [AttributeList.render]
  refine Quoted.append ?_ blanks.quoted
  induction assignments with
  | nil => exact .nil
  | cons a assignments ih =>
    have key : Quoted a.key := .of_forall fun c isMember => (a.isKey.forall c isMember).2
    have value : Quoted a.quoted := by
      simpa [Assignment.quoted] using Quoted.quote a.isQuote a.inside .nil
    have sign : Quoted ('=' :: (a.right ++ a.quoted)) :=
      .char (by decide) rfl (a.right.quoted.append value)
    rw [List.flatMap_cons]
    exact (a.indent.quoted.append (key.append (a.left.quoted.append sign))).append ih

theorem splitDeclaration_cons (h : c ≠ '>' ∨ depth ≠ 0) :
    splitDeclaration depth (c :: cs) =
      (splitDeclaration (if c = '<' then depth + 1 else if c = '>' then depth - 1 else depth)
        cs).map fun r => (c :: r.1, r.2) := by
  rw [splitDeclaration]
  · generalize (if c = '<' then depth + 1 else if c = '>' then depth - 1 else depth) = depth'
    cases splitDeclaration depth' cs <;> rfl
  · exact fun same zero => h.elim (· same) (· zero)

theorem Paired.splitDeclaration_append (h : Paired cs) (depth : Nat) (rest : List Char) :
    splitDeclaration depth (cs ++ rest) =
      (splitDeclaration depth rest).map fun r => (cs ++ r.1, r.2) := by
  induction h generalizing depth rest with
  | nil => simp
  | char opens closes _ ih =>
    rw [List.cons_append, splitDeclaration_cons (.inl closes), if_neg opens, if_neg closes, ih,
      Option.map_map]
    rfl
  | brackets _ _ ih ih' =>
    rw [List.cons_append, splitDeclaration_cons (.inl (by decide)), if_pos rfl, List.append_assoc,
      ih, List.cons_append, splitDeclaration_cons (.inr (Nat.succ_ne_zero _)), if_neg (by decide),
      if_pos rfl, Nat.succ_sub_one, ih', Option.map_map, Option.map_map, Option.map_map]
    simp [Function.comp_def]

/-- Sound markup with its tags in order.  Comments, instructions, character data and the
declaration of the document type have none. -/
inductive Writes : List Char → List Tag → Prop
  | nil : Writes [] []
  | append {cs cs' : List Char} {ts ts' : List Tag} (front : Writes cs ts) (back : Writes cs' ts') :
      Writes (cs ++ cs') (ts ++ ts')
  | text {cs : List Char} (plain : '<' ∉ cs) : Writes cs []
  | comment {cs : List Char} (closed : ¬ ['-', '-', '>'] <:+: cs) :
      Writes ('<' :: '!' :: '-' :: '-' :: (cs ++ ['-', '-', '>'])) []
  | instruction {c : Char} {cs : List Char} (target : c ≠ '>')
      (closed : ¬ ['?', '>'] <:+: c :: cs) : Writes ('<' :: '?' :: c :: (cs ++ ['?', '>'])) []
  | data {cs : List Char} (closed : ¬ [']', ']', '>'] <:+: cs) :
      Writes ('<' :: '!' :: '[' :: 'C' :: 'D' :: 'A' :: 'T' :: 'A' :: '[' ::
        (cs ++ [']', ']', '>'])) []
  | doctype {cs : List Char} (paired : Paired cs) (named : ¬ cs.all isSpace) :
      Writes ('<' :: '!' :: 'D' :: 'O' :: 'C' :: 'T' :: 'Y' :: 'P' :: 'E' :: (cs ++ ['>'])) []
  | tag {c : Char} {cs : List Char} (question : c ≠ '?') (bang : c ≠ '!')
      (quoted : Quoted (c :: cs)) : Writes ('<' :: c :: (cs ++ ['>'])) [Tag.ofContent (c :: cs)]

namespace Reads

theorem instruction (target : c ≠ '>') (closed : ¬ ['?', '>'] <:+: c :: cs) :
    Reads ('<' :: '?' :: c :: (cs ++ ['?', '>'])) [] := fun rest => by
  refine tags_of_skipped ?_
  have skipped : after? ['?', '>'] (c :: (cs ++ '?' :: '>' :: rest)) = some rest :=
    after?_mark (by decide) closed rest
  simp [piece, target, skipped, Piece.ofOption]

theorem data (closed : ¬ [']', ']', '>'] <:+: cs) :
    Reads ('<' :: '!' :: '[' :: 'C' :: 'D' :: 'A' :: 'T' :: 'A' :: '[' ::
      (cs ++ [']', ']', '>'])) [] := fun rest => by
  refine tags_of_skipped ?_
  have skipped : after? [']', ']', '>'] (cs ++ ']' :: ']' :: '>' :: rest) = some rest :=
    after?_mark (by decide) closed rest
  simp [piece, skipped, Piece.ofOption]

theorem doctype (paired : Paired cs) (named : ¬ cs.all isSpace) :
    Reads ('<' :: '!' :: 'D' :: 'O' :: 'C' :: 'T' :: 'Y' :: 'P' :: 'E' :: (cs ++ ['>'])) [] :=
  fun rest => by
  refine tags_of_skipped ?_
  let body := 'D' :: 'O' :: 'C' :: 'T' :: 'Y' :: 'P' :: 'E' :: cs
  have paired : Paired body := by
    iterate 7 refine .char (by decide) (by decide) ?_
    exact paired
  have split : splitDeclaration 0 (body ++ '>' :: rest) = some (body, rest) := by
    rw [paired.splitDeclaration_append]
    simp [splitDeclaration]
  have skipped : declaration (body ++ '>' :: rest) = .skipped rest := by
    rw [declaration, split]
    exact if_pos ⟨rfl, by simpa [body] using named⟩
  simpa [piece, body] using skipped

end Reads

theorem Writes.reads (h : Writes cs ts) : Reads cs ts := by
  induction h with
  | nil => exact .nil
  | append _ _ ih ih' => exact ih.append ih'
  | text plain => exact .plain plain
  | comment closed => exact .comment closed
  | instruction target closed => exact .instruction target closed
  | data closed => exact .data closed
  | doctype paired named => exact .doctype paired named
  | tag question bang quoted => exact .tag question bang quoted.balanced

end VehicleLink.Markup
