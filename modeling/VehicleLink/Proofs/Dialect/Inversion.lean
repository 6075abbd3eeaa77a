import VehicleLink.Proofs.Dialect.Document

namespace VehicleLink

namespace Dialect

open Markup

theorem byte_digits (key : String) (n : UInt8) :
    byte key (String.ofList (Nat.toDigits 10 n.toNat)) = .ok n := by
  simp only [byte, String.toList_ofList, Blank.trim_digits, Numeral.byte?_toDigits]

theorem Draft.addField_element (d : Draft) (f : FieldDeclaration) :
    d.addField (attributes f.element.attributes.render) =
      .ok { d with fields := d.fields ++ [f.field] } := by
  have distinct : ["type".toList, "name".toList].Nodup := by decide
  have listed : attributes f.element.attributes.render =
      [("type", String.ofList f.type.render), ("name", f.name.1)] := by
    rw [attributes_render f.element.attributes distinct]
    simp [FieldDeclaration.element, Assignment.plain]
  have name : require (attributes f.element.attributes.render) "field" "name" = .ok f.name.1 := by
    rw [listed]
    simp [require, List.lookup_cons]
  have type : require (attributes f.element.attributes.render) "field" "type" =
      .ok (String.ofList f.type.render) := by
    rw [listed]
    simp [require]
  simp only [addField, name, type, bind, Except.bind, FieldType.parse?_render f.type f.counted]
  rfl

def MessageElement.draft (m : MessageElement) (fields : List Field) : Draft :=
  ⟨m.id, m.name.1, m.seed, fields, false⟩

theorem startDraft_element (m : MessageElement) :
    startDraft (attributes m.attributes.render) = .ok (m.draft []) := by
  have distinct : (m.attributes.assignments.map Assignment.key).Nodup := by
    have bare : ["id".toList, "name".toList].Nodup := by decide
    have seeded : ["id".toList, "name".toList, "crc_extra".toList].Nodup := by decide
    rw [MessageElement.attributes]
    cases m.seed with
    | none => exact bare
    | some _ => exact seeded
  have listed : attributes m.attributes.render =
      ("id", String.ofList (Nat.toDigits 10 m.id.toNat)) :: ("name", m.name.1) ::
        m.seed.toList.map fun n => ("crc_extra", String.ofList (Nat.toDigits 10 n.toNat)) := by
    rw [attributes_render _ distinct]
    simp [MessageElement.attributes, Assignment.plain]
  have name : require (attributes m.attributes.render) "message" "name" = .ok m.name.1 := by
    rw [listed]
    simp [require, List.lookup_cons]
  have id : require (attributes m.attributes.render) "message" "id" =
      .ok (String.ofList (Nat.toDigits 10 m.id.toNat)) := by
    rw [listed]
    simp [require]
  have seed : ((attributes m.attributes.render).lookup "crc_extra").mapM (byte "crc_extra") =
      .ok m.seed := by
    rw [listed]
    cases m.seed with
    | none => rfl
    | some n =>
      simp [List.lookup_cons, byte_digits]
  simp only [startDraft, name, id, seed, bind, Except.bind, byte_digits]
  rfl

theorem Draft.finish_element (m : MessageElement) (extended : Bool) :
    Draft.finish { m.draft m.declared with extended } =
      if m.definition.payloadLength ≤ 255 then .ok m.definition
      else .error (.payloadTooLarge m.definition.name m.definition.payloadLength) := rfl

namespace Progress

def readTokens (p : Progress) (tokens : List Token) : Except DialectError Progress :=
  (tokens.flatMap Token.tags).foldlM read p

variable {p p' : Progress} {tokens tokens' : List Token} {opened : List (List Char)} {d : Draft}
  {definitions : List Definition}

theorem readTokens_append :
    p.readTokens (tokens ++ tokens') = p.readTokens tokens >>= (·.readTokens tokens') := by
  simp only [readTokens, List.flatMap_append, List.foldlM_append]

theorem readTokens_append_of_ok (read : p.readTokens tokens = .ok p') :
    p.readTokens (tokens ++ tokens') = p'.readTokens tokens' := by
  rw [readTokens_append, read]
  rfl

theorem readTokens_gap (g : Gap) : p.readTokens g.tokens = .ok p := by
  have silent : g.tokens.flatMap Token.tags = [] := by
    simp [Gap.tokens, Token.tags]
  rw [readTokens, silent]
  rfl

theorem readField_then_finish (rest : List Char) :
    ({ p with opened := "field".toList :: p.opened }.readField rest >>=
      (·.read (.finish "field".toList))) = p.readField rest := by
  obtain ⟨opened, _ | d, definitions⟩ := p
  · rfl
  · cases extended : d.extended with
    | true =>
      simp only [readField, extended, if_true]
      rfl
    | false =>
      simp only [readField, extended]
      cases d.addField (attributes rest) <;> rfl

theorem readTokens_start (name : Name) (l : AttributeList) :
    p.readTokens (.start name l :: tokens) =
      p.read (.start name.1 l.render) >>= (·.readTokens tokens) := rfl

theorem readTokens_single (name : Name) (l : AttributeList) :
    p.readTokens (.single name l :: tokens) =
      p.read (.single name.1 l.render) >>= (·.readTokens tokens) := rfl

theorem readTokens_finish (name : Name) :
    p.readTokens (.finish name :: tokens) = p.read (.finish name.1) >>= (·.readTokens tokens) :=
  rfl

theorem readTokens_field (e : FieldElement) :
    p.readTokens e.tokens = p.readField e.attributes.render := by
  have other : "field".toList ≠ "message".toList := mt String.toList_inj.mp (by decide)
  rw [FieldElement.tokens]
  cases e.description with
  | none =>
    have lone : p.read (.single fieldName.1 e.attributes.render) =
        p.readField e.attributes.render := by simp only [val_fieldName, read, if_true]
    simp only [readTokens_single, lone]
    exact bind_pure _
  | some gap =>
    have opens : p.read (.start fieldName.1 e.attributes.render) =
        { p with opened := "field".toList :: p.opened }.readField e.attributes.render := by
      simp only [val_fieldName, read, if_neg other, if_true]
    have closes (q : Progress) :
        q.readTokens (gap.tokens ++ [.finish fieldName]) = q.read (.finish "field".toList) := by
      rw [readTokens_append_of_ok (readTokens_gap gap), readTokens_finish]
      exact bind_pure _
    simp only [readTokens_start, opens, closes]
    exact readField_then_finish _

theorem readTokens_declared (f : FieldDeclaration) (within : d.extended = false) :
    readTokens ⟨opened, some d, definitions⟩ f.element.tokens =
      .ok ⟨opened, some { d with fields := d.fields ++ [f.field] }, definitions⟩ := by
  rw [readTokens_field]
  simp only [readField, within, Draft.addField_element]
  rfl

theorem readTokens_ignored (e : FieldElement) (extended : d.extended = true) :
    readTokens ⟨opened, some d, definitions⟩ e.tokens = .ok ⟨opened, some d, definitions⟩ := by
  rw [readTokens_field]
  simp only [readField, extended, if_true]

theorem readTokens_fields (fields : List (FieldDeclaration × Gap)) (within : d.extended = false) :
    readTokens ⟨opened, some d, definitions⟩
        (fields.flatMap fun f => f.1.element.tokens ++ f.2.tokens) =
      .ok ⟨opened, some { d with fields := d.fields ++ fields.map fun f => f.1.field },
        definitions⟩ := by
  induction fields generalizing d with
  | nil =>
    rw [List.map_nil, List.append_nil]
    rfl
  | cons f fields ih =>
    rw [List.flatMap_cons, List.append_assoc,
      readTokens_append_of_ok (readTokens_declared f.1 within),
      readTokens_append_of_ok (readTokens_gap f.2),
      @ih { d with fields := d.fields ++ [f.1.field] } within]
    simp

theorem readTokens_ignored_fields (fields : List (FieldElement × Gap))
    (extended : d.extended = true) :
    readTokens ⟨opened, some d, definitions⟩
        (fields.flatMap fun f => f.1.tokens ++ f.2.tokens) =
      .ok ⟨opened, some d, definitions⟩ := by
  induction fields with
  | nil => rfl
  | cons f fields ih =>
    rw [List.flatMap_cons, List.append_assoc,
      readTokens_append_of_ok (readTokens_ignored f.1 extended),
      readTokens_append_of_ok (readTokens_gap f.2), ih]

theorem readTokens_extensions (m : MessageElement) (opened : List (List Char)) (d : Draft)
    (definitions : List Definition) :
    ∃ extended, readTokens ⟨opened, some d, definitions⟩ m.extensionTokens =
      .ok ⟨opened, some { d with extended }, definitions⟩ := by
  rw [MessageElement.extensionTokens]
  cases m.extensions with
  | none => exact ⟨d.extended, rfl⟩
  | some extensions =>
    obtain ⟨gap, fields⟩ := extensions
    have other : "extensions".toList ≠ "field".toList := mt String.toList_inj.mp (by decide)
    have marked (rest : List Char) :
        read ⟨opened, some d, definitions⟩ (.single "extensions".toList rest) =
          .ok ⟨opened, some { d with extended := true }, definitions⟩ := by
      simp only [read, if_neg other, if_true, Option.map_some]
    refine ⟨true, ?_⟩
    rw [readTokens_single, val_extensionsName, marked]
    exact (readTokens_append_of_ok (readTokens_gap gap)).trans
      (readTokens_ignored_fields fields rfl)

theorem readTokens_message (m : MessageElement) :
    p.readTokens m.tokens =
      if m.definition.payloadLength ≤ 255 then
        .ok ⟨p.opened, none, p.definitions ++ [m.definition]⟩
      else .error (.payloadTooLarge m.definition.name m.definition.payloadLength) := by
  have opens : p.read (.start "message".toList m.attributes.render) =
      .ok ⟨"message".toList :: p.opened, some (m.draft []), p.definitions⟩ := by
    simp only [read, if_true, startDraft_element]
    rfl
  have declared : readTokens ⟨"message".toList :: p.opened, some (m.draft []), p.definitions⟩
      m.fieldTokens =
        .ok ⟨"message".toList :: p.opened, some (m.draft m.declared), p.definitions⟩ :=
    readTokens_fields m.fields rfl
  obtain ⟨extended, ignored⟩ := readTokens_extensions m ("message".toList :: p.opened)
    (m.draft m.declared) p.definitions
  have closes : read ⟨"message".toList :: p.opened, some { m.draft m.declared with extended },
        p.definitions⟩ (.finish "message".toList) =
      if m.definition.payloadLength ≤ 255 then
        .ok ⟨p.opened, none, p.definitions ++ [m.definition]⟩
      else .error (.payloadTooLarge m.definition.name m.definition.payloadLength) := by
    simp only [read, ne_eq, not_true, if_false, if_true, finishMessage, Draft.finish_element]
    split <;> rfl
  rw [MessageElement.tokens, readTokens_start, val_messageName, opens, ← closes, List.append_assoc,
    List.append_assoc]
  refine (readTokens_append_of_ok (readTokens_gap m.opening)).trans ?_
  rw [readTokens_append_of_ok declared, readTokens_append_of_ok ignored, readTokens_finish]
  exact bind_pure _

theorem readTokens_messages (messages : List (MessageElement × Gap)) :
    readTokens ⟨opened, none, definitions⟩ (messages.flatMap fun m => m.1.tokens ++ m.2.tokens) =
      match (messages.map fun m => m.1.definition).find? (255 < ·.payloadLength) with
      | some d => .error (.payloadTooLarge d.name d.payloadLength)
      | none => .ok ⟨opened, none, definitions ++ messages.map fun m => m.1.definition⟩ := by
  induction messages generalizing definitions with
  | nil =>
    rw [List.map_nil, List.append_nil]
    rfl
  | cons m messages ih =>
    rw [List.flatMap_cons, List.append_assoc, readTokens_append, readTokens_message, List.map_cons]
    by_cases fits : m.1.definition.payloadLength ≤ 255
    · rw [if_pos fits, List.find?_cons_of_neg (by simpa using fits)]
      refine (readTokens_append_of_ok (readTokens_gap m.2)).trans (ih.trans ?_)
      rw [List.append_assoc, List.singleton_append]
    · rw [if_neg fits, List.find?_cons_of_pos (by simpa using fits)]
      rfl

section

variable {name : Name} (around : name = rootName ∨ name = groupName)
include around

theorem unread_around : name.1 ≠ "message".toList ∧ name.1 ≠ "field".toList := by
  rcases around with rfl | rfl
  · rw [val_rootName]
    exact ⟨mt String.toList_inj.mp (by decide), mt String.toList_inj.mp (by decide)⟩
  · rw [val_groupName]
    exact ⟨mt String.toList_inj.mp (by decide), mt String.toList_inj.mp (by decide)⟩

theorem readTokens_opening (l : AttributeList) :
    p.readTokens (.start name l :: tokens) =
      { p with opened := name.1 :: p.opened }.readTokens tokens := by
  obtain ⟨noMessage, noField⟩ := unread_around around
  rw [readTokens_start]
  simp only [read, if_neg noMessage, if_neg noField]
  rfl

theorem readTokens_closing :
    readTokens ⟨name.1 :: opened, none, definitions⟩ (.finish name :: tokens) =
      readTokens ⟨opened, none, definitions⟩ tokens := by
  obtain ⟨noMessage, -⟩ := unread_around around
  rw [readTokens_finish]
  simp only [read, ne_eq, not_true, if_false, if_neg noMessage]
  rfl

end

theorem readTokens_document (doc : Document) :
    start.readTokens doc.tokens =
      match doc.definitions.find? (255 < ·.payloadLength) with
      | some d => .error (.payloadTooLarge d.name d.payloadLength)
      | none => .ok ⟨[], none, doc.definitions⟩ := by
  have read : readTokens ⟨[groupName.1, rootName.1], none, []⟩ doc.messageTokens =
      match doc.definitions.find? (255 < ·.payloadLength) with
      | some d => .error (.payloadTooLarge d.name d.payloadLength)
      | none => .ok ⟨[groupName.1, rootName.1], none, doc.definitions⟩ :=
    readTokens_messages doc.messages
  have closes (definitions : List Definition) :
      readTokens ⟨[groupName.1, rootName.1], none, definitions⟩ (.finish groupName ::
        (doc.closing.tokens ++ .finish rootName :: doc.epilogue.tokens)) =
        .ok ⟨[], none, definitions⟩ := by
    rw [readTokens_closing (.inr rfl), readTokens_append_of_ok (readTokens_gap doc.closing),
      readTokens_closing (.inl rfl), readTokens_gap]
  rw [Document.tokens, readTokens_append_of_ok (readTokens_gap doc.prologue),
    readTokens_opening (.inl rfl), readTokens_append_of_ok (readTokens_gap doc.opening),
    readTokens_opening (.inr rfl), List.append_assoc,
    readTokens_append_of_ok (readTokens_gap doc.inner), readTokens_append]
  refine (congrArg (· >>= _) read).trans ?_
  cases doc.definitions.find? (255 < ·.payloadLength) with
  | some d => rfl
  | none => exact closes doc.definitions

end Progress

/-- A document reads as the messages it declares, unless the payload of one is too long: then
the first such one is reported. -/
theorem definitions_text (doc : Document) :
    Dialect.definitions doc.text =
      match doc.definitions.find? (255 < ·.payloadLength) with
      | some d => .error (.payloadTooLarge d.name d.payloadLength)
      | none => .ok doc.definitions := by
  have sound : tags doc.text.toList = (doc.tokens.flatMap Token.tags, true) := by
    rw [Document.text, String.toList_ofList, tags_render]
  have read := Progress.readTokens_document doc
  rw [Progress.readTokens] at read
  simp only [Dialect.definitions, sound, read]
  cases doc.definitions.find? (255 < ·.payloadLength) <;> rfl

end Dialect

end VehicleLink
