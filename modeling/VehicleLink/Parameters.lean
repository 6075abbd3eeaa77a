import Std.Data.TreeMap
import Std.Data.TreeSet
import VehicleLink.Number.Notation
import VehicleLink.WireError

namespace VehicleLink

inductive ParamError
  | notFound (name : String)
  | setFailed (name : String) (expected actual : Single)
  | unavailable (index : UInt16)
  | transport (cause : WireError)
  deriving DecidableEq

def ParamError.message : ParamError → String
  | .notFound name => "Parameter not found: " ++ name
  | .setFailed name expected actual =>
    "Parameter " ++ name ++ " found, but failed to update: expected " ++ expected.plain
      ++ ", got " ++ actual.plain
  | .unavailable index => "Could not retrieve parameter at index " ++ toString index
  | .transport cause => "Transport error: " ++ cause.message

structure Parameters where
  /-- As announced last. -/
  total : Option UInt16
  byName : Std.TreeMap String Single
  byIndex : Std.TreeMap UInt16 Single
  arrived : Std.TreeSet UInt16
  forced : Bool
  startedAt : Option Nat

namespace Parameters

def empty : Parameters := ⟨none, .empty, .empty, .empty, false, none⟩

/-- The index of a parameter that is addressed by name only. -/
def noIndex : UInt16 := 0xFFFF

def begin (p : Parameters) (total : UInt16) : Parameters := { p with total := some total }

def record (p : Parameters) (index : UInt16) (name : String) (value : Single) : Parameters :=
  { p with
    byName := p.byName.insert name value
    byIndex := if index = noIndex then p.byIndex else p.byIndex.insert index value
    arrived := if index = noIndex then p.arrived else p.arrived.insert index }

def get? (p : Parameters) (name : String) : Option Single := p.byName[name]?

def atIndex? (p : Parameters) (index : UInt16) : Option Single := p.byIndex[index]?

def indices (total : UInt16) : List UInt16 := (List.range total.toNat).map UInt16.ofNat

def missing (p : Parameters) : List UInt16 :=
  match p.total with
  | some total => (indices total).filter fun i => !p.arrived.contains i
  | none => []

def received (p : Parameters) : Nat :=
  match p.total with
  | some total => p.arrived.toList.countP (· < total)
  | none => 0

def force (p : Parameters) : Parameters := { p with forced := true }

def isComplete (p : Parameters) : Bool :=
  p.forced || (p.total.isSome && p.missing.isEmpty)

def markStarted (p : Parameters) (now : Nat) : Parameters := { p with startedAt := some now }

def isStarted (p : Parameters) : Bool := p.startedAt.isSome

def percentage (p : Parameters) : UInt8 :=
  match p.total with
  | some total => if total = 0 then 100 else UInt8.ofNat (p.received * 100 / total.toNat)
  | none => 0

def progress (p : Parameters) : Nat := p.percentage.toNat

structure Snapshot where
  total : Option UInt16
  /-- How many indices below the total have arrived. -/
  received : Nat
  values : List (String × Single)
  missing : List UInt16
  forced : Bool
  deriving DecidableEq

def snapshot (p : Parameters) : Snapshot :=
  ⟨p.total, p.received, p.byName.toList, p.missing, p.forced⟩

/-- Gives up on what is missing once the round has lasted longer than `timeout`; the result
lists what was given up, if that happens now. -/
def expire (p : Parameters) (now timeout : Nat) : Parameters × Option (List UInt16) :=
  match p.startedAt with
  | none => (p, none)
  | some started =>
    if p.forced ∨ now - started ≤ timeout then (p, none)
    else if p.total.isSome ∧ p.missing.isEmpty then (p, none)
    else (p.force, some p.missing)

end Parameters

end VehicleLink
