import VehicleLink.Dialect.Reader
import VehicleLink.Proofs.Dialect.Attributes
import VehicleLink.Proofs.Dialect.Types

namespace VehicleLink

namespace Markup

abbrev Name := {name : List Char // IsName name}

inductive Filler
  | text (cs : List Char) (plain : '<' ∉ cs)
  | comment (body : List Char) (closed : ¬ ['-', '-', '>'] <:+: body)

abbrev Gap := List Filler

inductive Token
  | filler (f : Filler)
  | start (name : Name) (attributes : AttributeList)
  | single (name : Name) (attributes : AttributeList)
  | finish (name : Name)

def Filler.render : Filler → List Char
  | .text cs _ => cs
  | .comment body _ => '<' :: '!' :: '-' :: '-' :: (body ++ ['-', '-', '>'])

namespace Token

def render : Token → List Char
  | .filler f => f.render
  | .start name attributes => '<' :: (name.1 ++ attributes.render ++ ['>'])
  | .single name attributes => '<' :: (name.1 ++ attributes.render ++ ['/', '>'])
  | .finish name => '<' :: '/' :: (name.1 ++ ['>'])

def tags : Token → List Tag
  | .filler _ => []
  | .start name attributes => [.start name.1 attributes.render]
  | .single name attributes => [.single name.1 attributes.render]
  | .finish name => [.finish name.1]

theorem reads : ∀ t : Token, Reads t.render t.tags
  | .filler (.text _ plain) => .plain plain
  | .filler (.comment _ closed) => .comment closed
  | .start name attributes => .start name.2 attributes.follows
  | .single name attributes => .single name.2 attributes.follows
  | .finish name => .finish name.2

end Token

theorem tags_render (tokens : List Token) :
    tags (tokens.flatMap Token.render) = (tokens.flatMap Token.tags, true) :=
  (Reads.flatMap Token.reads tokens).tags_eq

def Gap.tokens (g : Gap) : List Token := g.map Token.filler

end Markup

namespace Dialect

open Markup

theorem bare_word (w : Word) : '"' ∉ w.1.toList := fun isMember =>
  absurd (w.forall _ isMember) (by decide)

theorem bare_digits (n : Nat) : '"' ∉ Nat.toDigits 10 n := fun isMember =>
  absurd (isWordChar_of_mem_toDigits isMember) (by decide)

theorem bare_type (t : FieldType) : '"' ∉ t.render := fun isMember =>
  absurd (t.forall_render _ isMember) (by decide)

def fieldName : Name := ⟨"field".toList, by decide⟩

@[simp] theorem val_fieldName : fieldName.1 = "field".toList := rfl

def extensionsName : Name := ⟨"extensions".toList, by decide⟩

@[simp] theorem val_extensionsName : extensionsName.1 = "extensions".toList := rfl

def messageName : Name := ⟨"message".toList, by decide⟩

@[simp] theorem val_messageName : messageName.1 = "message".toList := rfl

def groupName : Name := ⟨"messages".toList, by decide⟩

@[simp] theorem val_groupName : groupName.1 = "messages".toList := rfl

def rootName : Name := ⟨"mavlink".toList, by decide⟩

@[simp] theorem val_rootName : rootName.1 = "mavlink".toList := rfl

structure FieldElement where
  attributes : AttributeList
  description : Option Gap

def FieldElement.tokens (e : FieldElement) : List Token :=
  match e.description with
  | none => [.single fieldName e.attributes]
  | some gap => .start fieldName e.attributes :: (gap.tokens ++ [.finish fieldName])

structure FieldDeclaration where
  type : FieldType
  name : Word
  description : Option Gap
  counted : type.arrayLength ≠ some 0

namespace FieldDeclaration

def field (f : FieldDeclaration) : Field := ⟨f.type, f.name.1⟩

def element (f : FieldDeclaration) : FieldElement :=
  ⟨⟨[.plain "type".toList f.type.render (by decide) (bare_type f.type),
    .plain "name".toList f.name.1.toList (by decide) (bare_word f.name)], .none⟩, f.description⟩

end FieldDeclaration

/-- A message with its fields, each with what stands behind it, and the fields behind the
mark for extensions if there is one. -/
structure MessageElement where
  id : UInt8
  name : Word
  seed : Option UInt8
  opening : Gap
  fields : List (FieldDeclaration × Gap)
  extensions : Option (Gap × List (FieldElement × Gap))

namespace MessageElement

def declared (m : MessageElement) : List Field := m.fields.map fun f => f.1.field

def definition (m : MessageElement) : Definition :=
  Definition.make m.id m.name.1 m.declared m.seed

def attributes (m : MessageElement) : AttributeList :=
  ⟨.plain "id".toList (Nat.toDigits 10 m.id.toNat) (by decide) (bare_digits _) ::
    .plain "name".toList m.name.1.toList (by decide) (bare_word m.name) ::
    m.seed.toList.map fun seed =>
      .plain "crc_extra".toList (Nat.toDigits 10 seed.toNat) (by decide) (bare_digits _),
    .none⟩

def fieldTokens (m : MessageElement) : List Token :=
  m.fields.flatMap fun f => f.1.element.tokens ++ f.2.tokens

def extensionTokens (m : MessageElement) : List Token :=
  match m.extensions with
  | none => []
  | some (gap, fields) =>
    .single extensionsName .bare ::
      (gap.tokens ++ fields.flatMap fun f => f.1.tokens ++ f.2.tokens)

def tokens (m : MessageElement) : List Token :=
  .start messageName m.attributes ::
    (m.opening.tokens ++ m.fieldTokens ++ m.extensionTokens ++ [.finish messageName])

end MessageElement

structure Document where
  messages : List (MessageElement × Gap)
  prologue : Gap
  opening : Gap
  inner : Gap
  closing : Gap
  epilogue : Gap

namespace Document

def messageTokens (d : Document) : List Token :=
  d.messages.flatMap fun m => m.1.tokens ++ m.2.tokens

def tokens (d : Document) : List Token :=
  d.prologue.tokens ++ .start rootName .bare :: (d.opening.tokens ++ .start groupName .bare ::
    (d.inner.tokens ++ d.messageTokens ++ .finish groupName :: (d.closing.tokens ++
      .finish rootName :: d.epilogue.tokens)))

def text (d : Document) : String := String.ofList (d.tokens.flatMap Token.render)

def definitions (d : Document) : List Definition := d.messages.map fun m => m.1.definition

end Document

example :
    let count : FieldDeclaration :=
      ⟨⟨.u8, some 4⟩, ⟨"count", by decide⟩, some [.text ['n'] (by decide)], by decide⟩
    let beat : MessageElement := ⟨7, ⟨"BEAT", by decide⟩, some 3, [], [(count, [])], none⟩
    Document.text ⟨[(beat, [])], [.comment ['1'] (by decide)], [], [], [], []⟩ =
      "<!--1--><mavlink><messages><message id=\"7\" name=\"BEAT\" crc_extra=\"3\">" ++
        "<field type=\"uint8_t[4]\" name=\"count\">n</field></message></messages></mavlink>" := by
  decide +kernel

end Dialect

end VehicleLink
