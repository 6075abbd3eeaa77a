import VehicleLink.Proofs.Dialect.Tags

namespace VehicleLink.Markup

abbrev Space := {cs : List Char // cs.all isSpace}

def Space.none : Space := ⟨[], rfl⟩

def IsKey (key : List Char) : Prop :=
  key ≠ [] ∧ key.all fun c => isKey c && c != '>' && !isQuote c

instance (key : List Char) : Decidable (IsKey key) := inferInstanceAs (Decidable (_ ∧ _))

structure Assignment where
  key : List Char
  value : List Char
  quote : Char
  indent : Space
  left : Space
  right : Space
  isKey : IsKey key
  isQuote : isQuote quote
  inside : quote ∉ value
  indented : indent.1 ≠ []

namespace Assignment

def plain (key value : List Char) (isKey : IsKey key) (inside : '"' ∉ value) : Assignment :=
  ⟨key, value, '"', ⟨[' '], rfl⟩, .none, .none, isKey, rfl, inside, nofun⟩

def quoted (a : Assignment) : List Char := a.quote :: (a.value ++ [a.quote])

def render (a : Assignment) : List Char :=
  a.indent ++ (a.key ++ (a.left ++ '=' :: (a.right ++ a.quoted)))

def pair (a : Assignment) : List Char × List Char := (a.key, a.value)

end Assignment

structure AttributeList where
  assignments : List Assignment
  blanks : Space

def AttributeList.bare : AttributeList := ⟨[], .none⟩

def AttributeList.render (l : AttributeList) : List Char :=
  l.assignments.flatMap Assignment.render ++ l.blanks

theorem ne_end_and_isQuote_eq_false_of_isSpace {c : Char} (h : isSpace c) :
    c ≠ '>' ∧ isQuote c = false := by
  simp only [isSpace, Bool.or_eq_true, beq_iff_eq] at h
  rcases h with ((rfl | rfl) | rfl) | rfl <;> decide

theorem Space.forall (s : Space) : ∀ c ∈ s.1, isSpace c := List.all_eq_true.mp s.2

theorem Space.balanced (s : Space) : Balanced s.1 :=
  Balanced.of_forall fun c isMember =>
    ne_end_and_isQuote_eq_false_of_isSpace (s.forall c isMember)

theorem Space.follows (s : Space) : Follows s.1 where
  balanced := s.balanced
  apart c isHead := s.forall c (List.mem_of_head? isHead)
  last slash := absurd (s.forall '/' (List.mem_of_getLast? slash)) (by decide)

theorem IsKey.forall {key : List Char} (h : IsKey key) :
    ∀ c ∈ key, Markup.isKey c ∧ c ≠ '>' ∧ isQuote c = false := by
  simpa [and_assoc] using h.2

theorem Assignment.follows (a : Assignment) : Follows a.render where
  balanced := by
    have key : Balanced a.key := Balanced.of_forall fun c isMember => (a.isKey.forall c isMember).2
    have sign : Balanced ['='] := Balanced.single (by decide) rfl
    exact a.indent.balanced.append <| key.append <| a.left.balanced.append <| sign.append <|
      a.right.balanced.append <| Balanced.quoted a.isQuote a.inside
  apart c isHead := by
    obtain ⟨d, cs, same⟩ := List.exists_cons_of_ne_nil a.indented
    have spaced := a.indent.forall d (same ▸ List.mem_cons_self)
    rw [render, same] at isHead
    cases isHead
    exact spaced
  last slash := by
    have quote : a.render.getLast? = some a.quote := by
      simp [render, quoted, List.getLast?_cons, List.getLast?_append]
    have isQuote := a.isQuote
    rw [Option.some.inj (quote.symm.trans slash)] at isQuote
    exact absurd isQuote (by decide)

theorem AttributeList.follows (l : AttributeList) : Follows l.render :=
  (Follows.flatMap Assignment.follows l.assignments).append l.blanks.follows

theorem attributesFrom_eq (seen : List (List Char)) (cs : List Char) :
    attributesFrom seen cs =
      match nextAttribute seen cs with
      | .ends => []
      | .passed rest => attributesFrom seen rest
      | .named key rest => attributesFrom (key :: seen) rest
      | .found key value rest => (key, value) :: attributesFrom (key :: seen) rest := by
  rw [attributesFrom]
  split
  · next ends => simp only [ends]
  · next passed => simp only [passed]
  · next named => simp only [named]
  · next found => simp only [found]

variable {seen : List (List Char)} {rest : List Char}

theorem attributeValue_assignment (a : Assignment) :
    attributeValue a.key (a.right ++ (a.quoted ++ rest)) = .found a.key a.value rest := by
  have tight : isSpace a.quote = false := by
    have isQuote := a.isQuote
    simp only [Markup.isQuote, Bool.or_eq_true, beq_iff_eq] at isQuote
    rcases isQuote with same | same <;> rw [same] <;> rfl
  have inside : ∀ c ∈ a.value, decide (c ≠ a.quote) = true := fun c isMember =>
    decide_eq_true fun same => a.inside (same ▸ isMember)
  have opened : (a.right.1 ++ (a.quoted ++ rest)).dropWhile isSpace = a.quoted ++ rest :=
    dropWhile_append_of_head a.right.forall (by simpa [Assignment.quoted] using tight)
  have closed : (a.value ++ a.quote :: rest).dropWhile (· ≠ a.quote) = a.quote :: rest :=
    dropWhile_append_of_head inside (by simp)
  have within : (a.value ++ a.quote :: rest).takeWhile (· ≠ a.quote) = a.value :=
    takeWhile_append_of_head inside (by simp)
  have shape : a.quoted ++ rest = a.quote :: (a.value ++ a.quote :: rest) := by
    simp [Assignment.quoted]
  simp only [attributeValue, opened.trans shape, a.isQuote, if_true, closed, within]

theorem nextAttribute_assignment (a : Assignment) (fresh : a.key ∉ seen) :
    nextAttribute seen (a.render ++ rest) = .found a.key a.value rest := by
  obtain ⟨c, cs, key⟩ := List.exists_cons_of_ne_nil a.isKey.1
  have bare : ∀ d ∈ c :: cs, isKey d := fun d isMember => (a.isKey.forall d (key ▸ isMember)).1
  obtain ⟨first, bare⟩ := List.forall_mem_cons.mp bare
  let behind := a.right ++ (a.quoted ++ rest)
  -- The reader takes the attribute in stretches: the indent, the key, the blanks up to the sign.
  have begun : (a.render ++ rest).dropWhile isSpace
      = c :: (cs ++ (a.left ++ '=' :: behind)) := by
    have shape : a.render ++ rest = a.indent ++ (c :: (cs ++ (a.left ++ '=' :: behind))) := by
      simp [Assignment.render, key, behind]
    rw [shape]
    refine dropWhile_append_of_head a.indent.forall fun d isHead => ?_
    cases isHead
    have tight : c ≠ '=' ∧ isSpace c = false := by simpa [isKey] using first
    exact tight.2
  have apart : ∀ d ∈ (a.left ++ '=' :: behind).head?, isKey d = false := by
    intro d isHead
    rw [List.head?_append] at isHead
    rcases Option.or_eq_some_iff.mp isHead with isHead | ⟨-, isHead⟩
    · simp [isKey, a.left.forall d (List.mem_of_head? isHead)]
    · cases isHead
      rfl
  have ended : (cs ++ (a.left ++ '=' :: behind)).dropWhile isKey = a.left ++ '=' :: behind :=
    dropWhile_append_of_head bare apart
  have within : (cs ++ (a.left ++ '=' :: behind)).takeWhile isKey = cs :=
    takeWhile_append_of_head bare apart
  have signed : (a.left ++ '=' :: behind).dropWhile isSpace = '=' :: behind :=
    dropWhile_append_of_head a.left.forall (by simp [isSpace])
  simp only [nextAttribute, begun, ended, within, signed, ← key, if_neg fresh]
  exact attributeValue_assignment a

theorem attributesFrom_render (l : AttributeList) (fresh : ∀ a ∈ l.assignments, a.key ∉ seen)
    (distinct : (l.assignments.map Assignment.key).Nodup) :
    attributesFrom seen l.render = l.assignments.map Assignment.pair := by
  obtain ⟨assignments, blanks⟩ := l
  simp only [AttributeList.render] at fresh distinct ⊢
  induction assignments generalizing seen with
  | nil =>
    have ends : nextAttribute seen blanks = .ends := by
      rw [nextAttribute, List.dropWhile_eq_nil_iff.mpr blanks.forall]
    rw [attributesFrom_eq, List.flatMap_nil, List.nil_append, ends]
    rfl
  | cons a assignments ih =>
    obtain ⟨new, fresh⟩ := List.forall_mem_cons.mp fresh
    obtain ⟨unlike, distinct⟩ := List.nodup_cons.mp distinct
    rw [attributesFrom_eq, List.flatMap_cons, List.append_assoc, nextAttribute_assignment a new,
      List.map_cons]
    refine congrArg _ (ih (fun b isMember => ?_) distinct)
    refine List.not_mem_cons_of_ne_of_not_mem ?_ (fresh b isMember)
    exact fun same => unlike (same ▸ List.mem_map_of_mem isMember)

theorem attributes_render (l : AttributeList)
    (distinct : (l.assignments.map Assignment.key).Nodup) :
    attributes l.render =
      l.assignments.map fun a => (String.ofList a.key, String.ofList a.value) := by
  rw [attributes, attributesFrom_render l (fun _ _ => List.not_mem_nil) distinct, List.map_map]
  rfl

end VehicleLink.Markup
