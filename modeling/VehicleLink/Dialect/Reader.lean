import VehicleLink.Dialect.Markup
import VehicleLink.Schema.Registry

/-! Message definitions out of a dialect document.  Only `message` elements, the `field`s in
them and the `extensions` mark are looked at: fields behind the mark are not part of the
frames and are left out. -/

namespace VehicleLink.Dialect

structure Draft where
  id : UInt8
  name : String
  seed : Option UInt8
  fields : List Field
  extended : Bool
  deriving DecidableEq

structure Progress where
  opened : List (List Char)
  draft : Option Draft
  definitions : List Definition
  deriving DecidableEq

abbrev Attributes := List (String × String)

def require (attributes : Attributes) (element key : String) : Except DialectError String :=
  match attributes.lookup key with
  | some value => .ok value
  | none => .error (.missingAttribute element key)

def byte (key value : String) : Except DialectError UInt8 :=
  match Numeral.byte? (Blank.trim value.toList) with
  | some b => .ok b
  | none => .error (.invalidAttribute key value)

def startDraft (attributes : Attributes) : Except DialectError Draft := do
  let name ← require attributes "message" "name"
  let id ← byte "id" (← require attributes "message" "id")
  let seed ← (attributes.lookup "crc_extra").mapM (byte "crc_extra")
  return ⟨id, name, seed, [], false⟩

def Draft.addField (d : Draft) (attributes : Attributes) : Except DialectError Draft := do
  let name ← require attributes "field" "name"
  let type ← require attributes "field" "type"
  match FieldType.parse? type with
  | some parsed => return { d with fields := d.fields ++ [⟨parsed, name⟩] }
  | none => .error (.unknownType d.name name type)

def Draft.finish (d : Draft) : Except DialectError Definition :=
  let definition := Definition.make d.id d.name d.fields d.seed
  if definition.payloadLength ≤ 255 then .ok definition
  else .error (.payloadTooLarge d.name definition.payloadLength)

namespace Progress

def start : Progress := ⟨[], none, []⟩

def readField (p : Progress) (rest : List Char) : Except DialectError Progress :=
  match p.draft with
  | some d =>
    if d.extended then .ok p
    else return { p with draft := some (← d.addField (Markup.attributes rest)) }
  | none => .ok p

def finishMessage (p : Progress) : Except DialectError Progress :=
  match p.draft with
  | some d => return { p with draft := none, definitions := p.definitions ++ [← d.finish] }
  | none => .ok p

def read (p : Progress) : Markup.Tag → Except DialectError Progress
  | .start name rest =>
    let p := { p with opened := name :: p.opened }
    if name = "message".toList then
      return { p with draft := some (← startDraft (Markup.attributes rest)) }
    else if name = "field".toList then p.readField rest
    else .ok p
  | .single name rest =>
    if name = "field".toList then p.readField rest
    else if name = "extensions".toList then
      .ok { p with draft := p.draft.map fun d => { d with extended := true } }
    else .ok p
  | .finish name =>
    match p.opened with
    | [] => .error .malformed
    | top :: opened =>
      if top ≠ name then .error .malformed
      else
        let p := { p with opened }
        if name = "message".toList then p.finishMessage else .ok p

end Progress

/-- The definitions of a document in order.  Elements left open at its end are no error. -/
def definitions (text : String) : Except DialectError (List Definition) := do
  let (tags, sound) := Markup.tags text.toList
  let p ← tags.foldlM Progress.read .start
  if sound then return p.definitions else .error .malformed

def load (text : String) : Except DialectError Registry := do
  Registry.ofList (← definitions text)

def loadBytes (bytes : List UInt8) : Except DialectError Registry :=
  match Utf8.decode? bytes with
  | some text => load text
  | none => .error (.unreadable "stream did not contain valid UTF-8")

end VehicleLink.Dialect
