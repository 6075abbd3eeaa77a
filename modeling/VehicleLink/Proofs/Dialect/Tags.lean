import Mathlib.Data.List.TakeWhile
import VehicleLink.Dialect.Markup

/-! How written markup reads.  Each piece of a document gives its own tags, whatever follows it,
so a document gives the tags of its pieces one after another. -/

namespace VehicleLink.Markup

variable {cs cs' rest name behind value mark : List Char} {ts ts' : List Tag} {c quote : Char}

section

variable {p : Char → Bool} (inside : ∀ c ∈ cs, p c) (apart : ∀ c ∈ rest.head?, p c = false)
include inside apart

theorem takeWhile_append_of_head : (cs ++ rest).takeWhile p = cs := by
  rw [List.takeWhile_append_of_pos inside]
  cases rest with
  | nil => simp
  | cons c rest => simp [apart c rfl]

theorem dropWhile_append_of_head : (cs ++ rest).dropWhile p = rest := by
  rw [List.dropWhile_append_of_pos inside]
  cases rest with
  | nil => rfl
  | cons c rest => simp [apart c rfl]

end

theorem dropWhile_eq_self_of_forall {p : Char → Bool} (h : ∀ c ∈ cs, p c = false) :
    cs.dropWhile p = cs :=
  @dropWhile_append_of_head [] cs p nofun fun c isHead => h c (List.mem_of_head? isHead)

/-- The recursion without the bounds that let it end. -/
theorem tags_eq (cs : List Char) :
    tags cs =
      match cs.dropWhile (· ≠ '<') with
      | [] => ([], true)
      | _ :: inner =>
        match piece inner with
        | .broken => ([], false)
        | .skipped rest => tags rest
        | .tag t rest => (t :: (tags rest).1, (tags rest).2) := by
  rw [tags]
  split
  · next none => simp only [none]
  · next _ inner opened =>
    simp only [opened]
    split
    · next broken => simp only [broken]
    · next skipped => simp only [skipped]
    · next tag => simp only [tag]

theorem tags_nil : tags [] = ([], true) := tags_eq []

theorem tags_of_skipped (h : piece cs = .skipped rest) : tags ('<' :: cs) = tags rest := by
  rw [tags_eq, List.dropWhile_cons_of_neg (by simp)]
  simp only [h]

theorem tags_of_tag {t : Tag} (h : piece cs = .tag t rest) :
    tags ('<' :: cs) = (t :: (tags rest).1, (tags rest).2) := by
  rw [tags_eq, List.dropWhile_cons_of_neg (by simp)]
  simp only [h]

theorem tags_append_of_plain (plain : '<' ∉ cs) : tags (cs ++ rest) = tags rest := by
  have same : (cs ++ rest).dropWhile (· ≠ '<') = rest.dropWhile (· ≠ '<') :=
    List.dropWhile_append_of_pos fun c isMember => decide_eq_true fun same =>
      plain (same ▸ isMember)
  rw [tags_eq, same, ← tags_eq]

/-- No end of the mark is also a beginning of it, so that two marks cannot overlap. -/
def Unbordered (mark : List Char) : Prop :=
  mark ≠ [] ∧ ∀ k < mark.length, 0 < k → mark.drop k ≠ mark.take (mark.length - k)

instance (mark : List Char) : Decidable (Unbordered mark) := inferInstanceAs (Decidable (_ ∧ _))

theorem after?_mark (unbordered : Unbordered mark) (closed : ¬ mark <:+: cs) (rest : List Char) :
    after? mark (cs ++ (mark ++ rest)) = some rest := by
  induction cs with
  | nil =>
    obtain ⟨c, mark', rfl⟩ := List.exists_cons_of_ne_nil unbordered.1
    have here : (c :: mark').isPrefixOf (c :: (mark' ++ rest)) := by
      simp [List.isPrefixOf_iff_prefix]
    rw [List.nil_append, List.cons_append, after?, if_pos here]
    simp
  | cons c cs ih =>
    have notHere : ¬ mark.isPrefixOf (c :: (cs ++ (mark ++ rest))) := by
      rw [List.isPrefixOf_iff_prefix, ← List.cons_append]
      intro here
      have beyond : (c :: cs).length < mark.length := Nat.lt_of_not_le fun fits =>
        closed (List.prefix_of_prefix_length_le here (List.prefix_append _ _) fits).isInfix
      -- A mark that began here would end in its own beginning.
      refine unbordered.2 (c :: cs).length beyond (Nat.succ_pos _) ?_
      calc mark.drop (c :: cs).length
          = (((c :: cs) ++ (mark ++ rest)).take mark.length).drop (c :: cs).length :=
            congrArg _ (List.prefix_iff_eq_take.mp here)
        _ = (mark ++ rest).take (mark.length - (c :: cs).length) := by
            rw [List.drop_take, List.drop_left]
        _ = mark.take (mark.length - (c :: cs).length) :=
            List.take_append_of_le_length (Nat.sub_le _ _)
    rw [List.cons_append, after?, if_neg notHere]
    exact ih fun inside => closed (inside.trans (List.suffix_cons c cs).isInfix)

def Balanced (cs : List Char) : Prop :=
  ∀ rest, splitTag none (cs ++ rest) = (splitTag none rest).map fun r => (cs ++ r.1, r.2)

namespace Balanced

theorem nil : Balanced [] := fun rest => by simp

theorem append (h : Balanced cs) (h' : Balanced cs') : Balanced (cs ++ cs') := fun rest => by
  rw [List.append_assoc, h, h', Option.map_map]
  simp [Function.comp_def, List.append_assoc]

theorem single (within : c ≠ '>') (bare : isQuote c = false) : Balanced [c] := fun rest => by
  rw [List.singleton_append, splitTag, if_neg within, if_neg (by simp [bare])]
  cases splitTag none rest <;> rfl

theorem of_forall (h : ∀ c ∈ cs, c ≠ '>' ∧ isQuote c = false) : Balanced cs := by
  induction cs with
  | nil => exact nil
  | cons c cs ih =>
    obtain ⟨⟨within, bare⟩, others⟩ := List.forall_mem_cons.mp h
    exact (single within bare).append (ih others)

theorem quoted (opens : isQuote quote) (inside : quote ∉ value) :
    Balanced (quote :: (value ++ [quote])) := fun rest => by
  -- Between the quotes nothing but the quote itself means anything.
  have closes : splitTag (some quote) (value ++ quote :: rest)
      = (splitTag none rest).map fun r => (value ++ quote :: r.1, r.2) := by
    induction value with
    | nil =>
      rw [List.nil_append, splitTag, if_pos rfl]
      cases splitTag none rest <;> rfl
    | cons c value ih =>
      obtain ⟨other, inside⟩ := List.ne_and_not_mem_of_not_mem_cons inside
      rw [List.cons_append, splitTag, if_neg other.symm, ih inside]
      cases splitTag none rest <;> rfl
  have within : quote ≠ '>' := by
    rintro rfl
    simp [isQuote] at opens
  rw [List.cons_append, splitTag, if_neg within, if_pos opens, List.append_assoc,
    List.singleton_append, closes]
  cases splitTag none rest <;> simp

end Balanced

/-- Whatever follows, it is read as these tags and then goes on with what follows. -/
def Reads (cs : List Char) (ts : List Tag) : Prop :=
  ∀ rest, tags (cs ++ rest) = (ts ++ (tags rest).1, (tags rest).2)

namespace Reads

theorem nil : Reads [] [] := fun _ => rfl

theorem append (h : Reads cs ts) (h' : Reads cs' ts') : Reads (cs ++ cs') (ts ++ ts') :=
  fun rest => by rw [List.append_assoc, h, h', List.append_assoc]

theorem flatMap {α : Type} {render : α → List Char} {tagsOf : α → List Tag}
    (h : ∀ a, Reads (render a) (tagsOf a)) (list : List α) :
    Reads (list.flatMap render) (list.flatMap tagsOf) := by
  induction list with
  | nil => exact nil
  | cons a list ih => exact (h a).append ih

theorem tags_eq (h : Reads cs ts) : tags cs = (ts, true) := by
  simpa [tags_nil] using h []

theorem plain (h : '<' ∉ cs) : Reads cs [] := fun _ => tags_append_of_plain h

theorem comment (closed : ¬ ['-', '-', '>'] <:+: cs) :
    Reads ('<' :: '!' :: '-' :: '-' :: (cs ++ ['-', '-', '>'])) [] := fun rest => by
  refine tags_of_skipped ?_
  have skipped : after? ['-', '-', '>'] (cs ++ '-' :: '-' :: '>' :: rest) = some rest :=
    after?_mark (by decide) closed rest
  simp [piece, skipped, Piece.ofOption]

end Reads

def IsName (name : List Char) : Prop := name ≠ [] ∧ name.all Char.isAlpha

instance : Decidable (IsName name) := inferInstanceAs (Decidable (_ ∧ _))

namespace IsName

variable (named : IsName name)
include named

theorem forall_ne (mark : Char) (h : mark.isAlpha = false) : ∀ c ∈ name, c ≠ mark := by
  rintro _ isMember rfl
  simp [List.all_eq_true.mp named.2 _ isMember] at h

theorem forall_not_isSpace : ∀ c ∈ name, isSpace c = false := fun c isMember => by
  have tight := fun mark h => named.forall_ne mark h c isMember
  simp [isSpace, tight ' ' rfl, tight '\t' rfl, tight '\r' rfl, tight '\n' rfl]

theorem balanced : Balanced name := Balanced.of_forall fun c isMember => by
  have tight := fun mark h => named.forall_ne mark h c isMember
  exact ⟨tight '>' rfl, by simp [isQuote, tight '"' rfl, tight '\'' rfl]⟩

end IsName

structure Follows (behind : List Char) : Prop where
  balanced : Balanced behind
  apart : ∀ c ∈ behind.head?, isSpace c
  last : behind.getLast? ≠ some '/'

theorem getLast?_append_ne {last : Char} (h : cs.getLast? ≠ some last)
    (h' : cs'.getLast? ≠ some last) : (cs ++ cs').getLast? ≠ some last := by
  rw [List.getLast?_append]
  intro same
  rcases Option.or_eq_some_iff.mp same with same | ⟨-, same⟩
  · exact h' same
  · exact h same

namespace Follows

theorem nil : Follows [] := ⟨.nil, nofun, nofun⟩

theorem append (h : Follows cs) (h' : Follows cs') : Follows (cs ++ cs') where
  balanced := h.balanced.append h'.balanced
  apart c isHead := by
    rw [List.head?_append] at isHead
    rcases Option.or_eq_some_iff.mp isHead with isHead | ⟨-, isHead⟩
    · exact h.apart c isHead
    · exact h'.apart c isHead
  last := getLast?_append_ne h.last h'.last

theorem flatMap {α : Type} {render : α → List Char} (h : ∀ a, Follows (render a))
    (list : List α) : Follows (list.flatMap render) := by
  induction list with
  | nil => exact nil
  | cons a list ih => exact (h a).append ih

end Follows

theorem Tag.ofContent_cons (h : c ≠ '/') :
    Tag.ofContent (c :: cs) =
      if (c :: cs).getLast? = some '/' then
        .single (upTo (c :: cs).dropLast) (past (c :: cs).dropLast)
      else .start (upTo (c :: cs)) (past (c :: cs)) := by
  rw [ofContent]
  simp [h]

section

variable (named : IsName name)
include named

theorem upTo_append (apart : ∀ c ∈ behind.head?, isSpace c) : upTo (name ++ behind) = name :=
  takeWhile_append_of_head (by simpa using named.forall_not_isSpace) (by simpa using apart)

theorem past_append (apart : ∀ c ∈ behind.head?, isSpace c) : past (name ++ behind) = behind :=
  dropWhile_append_of_head (by simpa using named.forall_not_isSpace) (by simpa using apart)

theorem Tag.ofContent_start (follows : Follows behind) :
    Tag.ofContent (name ++ behind) = .start name behind := by
  have last : (name ++ behind).getLast? ≠ some '/' := getLast?_append_ne
    (fun slash => named.forall_ne _ rfl _ (List.mem_of_getLast? slash) rfl) follows.last
  obtain ⟨c, cs, rfl⟩ := List.exists_cons_of_ne_nil named.1
  rw [List.cons_append] at last ⊢
  rw [Tag.ofContent_cons (named.forall_ne _ rfl c List.mem_cons_self), if_neg last,
    ← List.cons_append, upTo_append named follows.apart, past_append named follows.apart]

theorem Tag.ofContent_single (follows : Follows behind) :
    Tag.ofContent (name ++ behind ++ ['/']) = .single name behind := by
  obtain ⟨c, cs, rfl⟩ := List.exists_cons_of_ne_nil named.1
  rw [List.append_assoc, List.cons_append,
    Tag.ofContent_cons (named.forall_ne _ rfl c List.mem_cons_self), ← List.cons_append,
    ← List.append_assoc, if_pos List.getLast?_concat, List.dropLast_concat,
    upTo_append named follows.apart, past_append named follows.apart]

theorem Tag.ofContent_finish : Tag.ofContent ('/' :: name) = .finish name := by
  have tight : (name.reverse.dropWhile isSpace).reverse = name := by
    rw [dropWhile_eq_self_of_forall (by simpa using named.forall_not_isSpace), List.reverse_reverse]
  simp only [ofContent, tight, ite_self]

end

theorem piece_of_balanced (question : c ≠ '?') (bang : c ≠ '!') (h : Balanced (c :: cs))
    (rest : List Char) :
    piece (c :: (cs ++ '>' :: rest)) = .tag (Tag.ofContent (c :: cs)) rest := by
  have split : splitTag none (c :: (cs ++ '>' :: rest)) = some (c :: cs, rest) := by
    rw [← List.cons_append, h]
    simp [splitTag]
  rw [piece]
  · rw [split]
  all_goals simp_all

namespace Reads

theorem tag (question : c ≠ '?') (bang : c ≠ '!') (h : Balanced (c :: cs)) :
    Reads ('<' :: c :: (cs ++ ['>'])) [Tag.ofContent (c :: cs)] := fun rest => by
  have read := tags_of_tag (piece_of_balanced question bang h rest)
  simpa using read

variable (named : IsName name)
include named

theorem start (follows : Follows behind) :
    Reads ('<' :: (name ++ behind ++ ['>'])) [.start name behind] := by
  have balanced := named.balanced.append follows.balanced
  rw [← Tag.ofContent_start named follows]
  obtain ⟨c, cs, rfl⟩ := List.exists_cons_of_ne_nil named.1
  exact tag (named.forall_ne _ rfl c List.mem_cons_self)
    (named.forall_ne _ rfl c List.mem_cons_self) balanced

theorem single (follows : Follows behind) :
    Reads ('<' :: (name ++ behind ++ ['/', '>'])) [.single name behind] := by
  have balanced := (named.balanced.append follows.balanced).append
    (Balanced.single (c := '/') (by decide) rfl)
  rw [← Tag.ofContent_single named follows]
  obtain ⟨c, cs, rfl⟩ := List.exists_cons_of_ne_nil named.1
  have read := tag (named.forall_ne _ rfl c List.mem_cons_self)
    (named.forall_ne _ rfl c List.mem_cons_self) balanced
  simpa using read

theorem finish : Reads ('<' :: '/' :: (name ++ ['>'])) [.finish name] := by
  have balanced := (Balanced.single (c := '/') (by decide) rfl).append named.balanced
  rw [← Tag.ofContent_finish named]
  exact tag (by decide) (by decide) balanced

end Reads

end VehicleLink.Markup
