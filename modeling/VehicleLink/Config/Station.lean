import VehicleLink.Config.Engine
import VehicleLink.Link.Address
import VehicleLink.Text.Utf8

namespace VehicleLink

structure Station where
  master : String := "127.0.0.1:14550"
  /-- Where to send; whoever sent to us last, when unset. -/
  remote : Option String := none
  baud : UInt32 := 57600
  /-- The dialect document; the built-in dialect, when unset. -/
  dialect : Option String := none
  log : String := "info"
  engine : EngineConfig := {}
  deriving DecidableEq, Repr

inductive ConfigError
  | unreadable
  | invalid
  deriving DecidableEq, Repr

namespace Station

def settings : List (Setting Station) :=
  [ ⟨"master", fun v s => return { s with master := ← v.text? }⟩,
    ⟨"remote", fun v s => return { s with remote := ← v.optionalText? }⟩,
    ⟨"baud", fun v s => return { s with baud := .ofNat (← v.below? UInt32.size) }⟩,
    ⟨"schema", fun v s => return { s with dialect := ← v.optionalText? }⟩,
    ⟨"log", fun v s => return { s with log := ← v.text? }⟩,
    ⟨"engine", fun v s => return { s with engine := ← EngineConfig.ofJson? v }⟩ ]

def ofString? (text : String) : Option Station := do
  Setting.read settings {} (← Json.ofString? text)

def ofBytes (bytes : List UInt8) : Except ConfigError Station :=
  match Utf8.decode? bytes with
  | none => .error .unreadable
  | some text =>
    match ofString? text with
    | none => .error .invalid
    | some s => .ok s

def link (s : Station) : Link := .ofAddress s.master

end Station

end VehicleLink
