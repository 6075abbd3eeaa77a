import VehicleLink.Json.Reader

/-! Sections of settings.  A section is read from an object with any of its keys, in any
order and among any others, or from an array that gives values in the order of the settings.
What is not given keeps its value. -/

namespace VehicleLink

structure Setting (σ : Type) where
  key : String
  assign : Json → σ → Option σ

namespace Setting

variable {σ : Type}

/-- A known key may be given once. -/
def readMembers (settings : List (Setting σ)) :
    List String → List (Option String × Json) → σ → Option σ
  | _, [], start => some start
  | _, (none, _) :: _, _ => none
  | seen, (some key, v) :: rest, start =>
    match settings.find? (·.key == key) with
    | none => readMembers settings seen rest start
    | some s =>
      if key ∈ seen then none
      else (s.assign v start).bind (readMembers settings (key :: seen) rest)

def readItems : List (Setting σ) → List Json → σ → Option σ
  | _, [], start => some start
  | [], _ :: _, _ => none
  | s :: settings, v :: rest, start => (s.assign v start).bind (readItems settings rest)

def read (settings : List (Setting σ)) (start : σ) : Json → Option σ
  | .object entries => readMembers settings [] entries start
  | .array items => readItems settings items start
  | _ => none

end Setting

namespace Json

def below? (bound : Nat) : Json → Option Nat
  | .number (some n) => if n < bound then some n else none
  | _ => none

def text? : Json → Option String
  | .string text => text
  | _ => none

def optionalText? : Json → Option (Option String)
  | .null => some none
  | .string (some s) => some (some s)
  | _ => none

end Json

end VehicleLink
