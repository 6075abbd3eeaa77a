import VehicleLink.Proofs.Dialect.Inversion
import VehicleLink.Proofs.Dialect.Marks
import VehicleLink.Proofs.Dialect.Markup

/-! Elements without content, written as one tag or as two.  A field reads the same either way.
A mark for extensions counts only as one tag: written as two it is passed over, and the fields it
should hide are read. -/

namespace VehicleLink

namespace Markup

namespace Writes

variable {name cs : List Char}

theorem ofContent (named : IsName name) (quoted : Quoted (name ++ cs)) :
    Writes ('<' :: (name ++ cs ++ ['>'])) [Tag.ofContent (name ++ cs)] := by
  obtain ⟨c, name, rfl⟩ := List.exists_cons_of_ne_nil named.1
  exact .tag (named.forall_ne _ rfl c List.mem_cons_self)
    (named.forall_ne _ rfl c List.mem_cons_self) quoted

theorem token : ∀ t : Token, Writes t.render t.tags
  | .filler (.text _ plain) => .text plain
  | .filler (.comment _ closed) => .comment closed
  | .start name l => by
    rw [Token.tags, ← Tag.ofContent_start name.2 l.follows]
    exact ofContent name.2 (name.2.quoted.append l.quoted_render)
  | .single name l => by
    have slash : Quoted ['/'] := .char (by decide) rfl .nil
    have content := ofContent name.2 (name.2.quoted.append (l.quoted_render.append slash))
    rw [← List.append_assoc, Tag.ofContent_single name.2 l.follows] at content
    simpa [Token.render, Token.tags] using content
  | .finish name => by
    rw [Token.tags, ← Tag.ofContent_finish name.2]
    exact .tag (by decide) (by decide) (.char (by decide) rfl name.2.quoted)

theorem tokens (list : List Token) :
    Writes (list.flatMap Token.render) (list.flatMap Token.tags) := by
  induction list with
  | nil => exact .nil
  | cons t list ih => exact (token t).append ih

end Writes

def oneTag (name : Name) (l : AttributeList) : List Token := [.single name l]

def twoTags (name : Name) (l : AttributeList) : List Token := [.start name l, .finish name]

structure Surroundings where
  before : List Char
  behind : List Char
  earlier : List Tag
  later : List Tag
  writesBefore : Writes before earlier
  writesBehind : Writes behind later

def Surroundings.ofTokens (front back : List Token) : Surroundings :=
  ⟨_, _, _, _, .tokens front, .tokens back⟩

def Surroundings.text (s : Surroundings) (element : List Token) : String :=
  String.ofList (s.before ++ (element.flatMap Token.render ++ s.behind))

def Surroundings.Closed (s : Surroundings) : Prop :=
  ∃ inner rest, s.later = inner ++ .finish "message".toList :: rest
    ∧ ∀ t ∈ inner, t.isMessage = false

end Markup

namespace Dialect

open Markup

namespace Progress

theorem readTokens_twoTags_field (p : Progress) (l : AttributeList) :
    p.readTokens (twoTags fieldName l) = p.readTokens (oneTag fieldName l) :=
  (readTokens_field ⟨l, some []⟩).trans (readTokens_field ⟨l, none⟩).symm

theorem readTokens_oneTag_extensions (p : Progress) (l : AttributeList) :
    p.readTokens (oneTag extensionsName l) = .ok p.marked := by
  have other : "extensions".toList ≠ "field".toList := mt String.toList_inj.mp (by decide)
  rw [oneTag, readTokens_single, val_extensionsName]
  simp only [read, if_neg other, if_true]
  rfl

theorem readTokens_twoTags_extensions (p : Progress) (l : AttributeList) :
    p.readTokens (twoTags extensionsName l) = .ok p := by
  have noMessage : "extensions".toList ≠ "message".toList := mt String.toList_inj.mp (by decide)
  have noField : "extensions".toList ≠ "field".toList := mt String.toList_inj.mp (by decide)
  have opens : p.read (.start "extensions".toList l.render) =
      .ok { p with opened := "extensions".toList :: p.opened } := by
    simp only [read, if_neg noField, if_neg noMessage]
  have closes : read { p with opened := "extensions".toList :: p.opened }
      (.finish "extensions".toList) = .ok p := by
    simp only [read, ne_eq, not_true, if_false, if_neg noMessage]
  rw [twoTags, readTokens_start, val_extensionsName, opens]
  exact (readTokens_finish extensionsName).trans (congrArg (· >>= _) closes)

end Progress

theorem definitions_of_reads {cs : List Char} {ts : List Tag} (h : Reads cs ts) :
    definitions (String.ofList cs) = Progress.start.outcome ts := by
  simp only [definitions, String.toList_ofList, h.tags_eq, Progress.outcome]
  cases ts.foldlM Progress.read .start <;> rfl

def Collecting (s : Surroundings) : Prop :=
  ∃ p, s.earlier.foldlM Progress.read .start = .ok p ∧ p.Collects

theorem definitions_text_eq (s : Surroundings) (element : List Token) :
    definitions (s.text element) =
      s.earlier.foldlM Progress.read .start >>= fun p =>
        p.readTokens element >>= (·.outcome s.later) := by
  have reads := s.writesBefore.reads.append
    ((Reads.flatMap Token.reads element).append s.writesBehind.reads)
  rw [Surroundings.text, definitions_of_reads reads, Progress.outcome_append]
  simp only [Progress.outcome_append, Progress.readTokens]

/-- A field element may be written as one tag or as two.  A mark for extensions that is written as
two tags might as well not be there: this makes no difference exactly if no fields would have been
hidden. -/
theorem definitions_twoTags (s : Surroundings) (l : AttributeList) :
    definitions (s.text (twoTags fieldName l)) = definitions (s.text (oneTag fieldName l))
      ∧ definitions (s.text (twoTags extensionsName l)) = definitions (s.text [])
      ∧ (¬ (Collecting s ∧ hiddenFields s.later ≠ []) →
        definitions (s.text (twoTags extensionsName l)) =
          definitions (s.text (oneTag extensionsName l)))
      ∧ ∀ list, definitions (s.text (oneTag extensionsName l)) = .ok list → s.Closed →
        Collecting s → hiddenFields s.later ≠ [] →
          definitions (s.text (twoTags extensionsName l)) ≠ .ok list := by
  simp only [definitions_text_eq]
  cases earlier : s.earlier.foldlM Progress.read .start with
  | error e => exact ⟨rfl, rfl, fun _ => rfl, nofun⟩
  | ok p =>
    have unmarked : (p.readTokens (twoTags extensionsName l) >>= (·.outcome s.later)) =
        p.outcome s.later := by
      rw [Progress.readTokens_twoTags_extensions]
      rfl
    have marked : (p.readTokens (oneTag extensionsName l) >>= (·.outcome s.later)) =
        p.marked.outcome s.later := by
      rw [Progress.readTokens_oneTag_extensions]
      rfl
    have collects : p.Collects → Collecting s := fun collects => ⟨p, earlier, collects⟩
    refine ⟨?_, unmarked, fun needless => ?_, fun list loads closed collecting hides loads' => ?_⟩
    · exact congrArg (· >>= (·.outcome s.later)) (p.readTokens_twoTags_field l)
    · refine unmarked.trans (Eq.trans ?_ marked.symm)
      by_cases collecting : p.Collects
      · have none : hiddenFields s.later = [] :=
          of_not_not fun hides => needless ⟨collects collecting, hides⟩
        exact (Progress.outcome_marked none).symm
      · rw [Progress.marked_eq_self collecting]
    · obtain ⟨inner, rest, later, inside⟩ := closed
      obtain ⟨p', earlier', d, isDraft, within⟩ := collecting
      obtain rfl := Except.ok.inj (earlier.symm.trans earlier')
      rw [later] at hides unmarked marked
      rw [hiddenFields_append inside] at hides
      have loaded := marked.symm.trans (later ▸ loads)
      have loaded' := unmarked.symm.trans (later ▸ loads')
      exact hides (Progress.hiddenFields_eq_nil_of_outcome isDraft within inside loaded' loaded)

def extended (mark : String) : String :=
  "<message id='7' name='REPORT' crc_extra='9'><field type='uint16_t' name='value'/>" ++ mark ++
    "<field type='uint8_t' name='quality'/></message>"

theorem definitions_extended_differ :
    definitions (extended "<extensions/>") = .ok [⟨7, "REPORT", [.scalar "value" .u16], 9⟩]
      ∧ definitions (extended "<extensions></extensions>") =
        .ok [⟨7, "REPORT", [.scalar "value" .u16, .scalar "quality" .u8], 9⟩] := by
  decide +kernel

def reading : FieldDeclaration := ⟨⟨.u16, none⟩, ⟨"value", by decide⟩, none, by decide⟩

def report : MessageElement := ⟨7, ⟨"REPORT", by decide⟩, some 9, [], [(reading, [])], none⟩

def inReport (left : List Token) : Surroundings :=
  .ofTokens (.start messageName report.attributes :: reading.element.tokens)
    (left ++ [.finish messageName])

theorem definitions_twoTags_inReport :
    definitions ((inReport []).text (twoTags extensionsName .bare)) =
        definitions ((inReport []).text (oneTag extensionsName .bare))
      ∧ definitions ((inReport reading.element.tokens).text (oneTag extensionsName .bare)) =
        .ok [⟨7, "REPORT", [.scalar "value" .u16], 9⟩]
      ∧ definitions ((inReport reading.element.tokens).text (twoTags extensionsName .bare)) ≠
        .ok [⟨7, "REPORT", [.scalar "value" .u16], 9⟩] := by
  have none : hiddenFields (inReport []).later = [] := by decide
  have hides : hiddenFields (inReport reading.element.tokens).later ≠ [] := by decide
  have closed : (inReport reading.element.tokens).Closed :=
    ⟨reading.element.tokens.flatMap Token.tags, [], rfl, by decide⟩
  have collecting : Collecting (inReport reading.element.tokens) :=
    ⟨⟨["message".toList], some (report.draft [reading.field]), []⟩, by decide +kernel, _, rfl, rfl⟩
  have loads : definitions ((inReport reading.element.tokens).text
      (oneTag extensionsName .bare)) = .ok [⟨7, "REPORT", [.scalar "value" .u16], 9⟩] := by
    decide +kernel
  refine ⟨?_, loads, ?_⟩
  · exact (definitions_twoTags (inReport []) .bare).2.2.1 fun needed => needed.2 none
  · exact (definitions_twoTags (inReport reading.element.tokens) .bare).2.2.2 _ loads closed
      collecting hides

end Dialect

end VehicleLink
