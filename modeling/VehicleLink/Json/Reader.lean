import VehicleLink.Json.Quoted

namespace VehicleLink

/-- A JSON value.  Of numbers it keeps the plain naturals, those without sign, fraction and
exponent; of strings the text, unless they escape surrogates that are not paired. -/
inductive Json
  | null
  | bool (b : Bool)
  | number (natural : Option Nat)
  | string (text : Option String)
  | array (items : List Json)
  | object (members : List (Option String × Json))

namespace Json

def isBlank (c : Char) : Bool := c == ' ' || c == '\n' || c == '\t' || c == '\r'

def skip (cs : List Char) : List Char := cs.dropWhile isBlank

def isDigit (c : Char) : Bool := '0' ≤ c && c ≤ '9'

def naturalOf (ds : List Char) : Nat := ds.foldl (fun n c => 10 * n + (c.toNat - 48)) 0

def digits (cs : List Char) : Option (List Char × List Char) :=
  match cs.takeWhile isDigit with
  | [] => none
  | ds => some (ds, cs.dropWhile isDigit)

def whole : List Char → Option (List Char × List Char)
  | '0' :: cs => some (['0'], cs)
  | cs => digits cs

def fraction : List Char → Option (Bool × List Char)
  | '.' :: cs => return (true, (← digits cs).2)
  | cs => some (false, cs)

def power : List Char → Option (Bool × List Char)
  | e :: cs =>
    if e = 'e' ∨ e = 'E' then
      match cs with
      | s :: cs => return (true, (← digits (if s = '+' ∨ s = '-' then cs else s :: cs)).2)
      | [] => none
    else some (false, e :: cs)
  | [] => some (false, [])

def unsigned (negative : Bool) (cs : List Char) : Option (Json × List Char) := do
  let (ds, cs) ← whole cs
  let (hasFraction, cs) ← fraction cs
  let (hasPower, cs) ← power cs
  let plain := !negative && !hasFraction && !hasPower
  return (.number (if plain then some (naturalOf ds) else none), cs)

def numeral : List Char → Option (Json × List Char)
  | '-' :: cs => unsigned true cs
  | cs => unsigned false cs

def stringBody (cs : List Char) : Option (Option String × List Char) := do
  let (ps, cs) ← pieces cs
  return ((textOf ps).map String.ofList, cs)

def scalar (cs : List Char) : Option (Json × List Char) :=
  match cs with
  | 'n' :: 'u' :: 'l' :: 'l' :: cs => some (.null, cs)
  | 't' :: 'r' :: 'u' :: 'e' :: cs => some (.bool true, cs)
  | 'f' :: 'a' :: 'l' :: 's' :: 'e' :: cs => some (.bool false, cs)
  | '"' :: cs => do
    let (text, cs) ← stringBody cs
    return (.string text, cs)
  | cs => numeral cs

mutual

/-- The value at the front of a text, blanks before it passed over.  The first argument
bounds the nesting and the number of elements; the length of the text is always enough. -/
def value : Nat → List Char → Option (Json × List Char)
  | 0, _ => none
  | fuel + 1, cs =>
    match skip cs with
    | '[' :: cs =>
      match skip cs with
      | ']' :: cs => some (.array [], cs)
      | cs => do
        let (items, cs) ← elements fuel cs
        return (.array items, cs)
    | '{' :: cs =>
      match skip cs with
      | '}' :: cs => some (.object [], cs)
      | cs => do
        let (entries, cs) ← members fuel cs
        return (.object entries, cs)
    | cs => scalar cs

def elements : Nat → List Char → Option (List Json × List Char)
  | 0, _ => none
  | fuel + 1, cs => do
    let (item, cs) ← value fuel cs
    match skip cs with
    | ',' :: cs =>
      let (items, cs) ← elements fuel cs
      return (item :: items, cs)
    | ']' :: cs => return ([item], cs)
    | _ => none

def members : Nat → List Char → Option (List (Option String × Json) × List Char)
  | 0, _ => none
  | fuel + 1, cs => do
    match skip cs with
    | '"' :: cs =>
      let (key, cs) ← stringBody cs
      match skip cs with
      | ':' :: cs =>
        let (item, cs) ← value fuel cs
        match skip cs with
        | ',' :: cs =>
          let (entries, cs) ← members fuel cs
          return ((key, item) :: entries, cs)
        | '}' :: cs => return ([(key, item)], cs)
        | _ => none
      | _ => none
    | _ => none

end

def ofChars? (cs : List Char) : Option Json :=
  match value (cs.length + 1) cs with
  | some (v, rest) => if skip rest = [] then some v else none
  | none => none

def ofString? (text : String) : Option Json := ofChars? text.toList

end Json

end VehicleLink
