namespace VehicleLink

inductive FlightMode
  | manual
  | stabilized
  | acro
  | rattitude
  | altitude
  | position
  | hold
  | follow
  | rtl
  | auto
  | mission
  | takeoff
  | land
  deriving DecidableEq, Repr

namespace ModeFlag

def customMode : UInt8 := 1

def autonomous : UInt8 := 4

def guided : UInt8 := 8

def stabilize : UInt8 := 16

def manualInput : UInt8 := 64

def armed : UInt8 := 128

end ModeFlag

namespace FlightMode

def all : List FlightMode :=
  [.manual, .stabilized, .acro, .rattitude, .altitude, .position, .hold, .follow, .rtl, .auto,
   .mission, .takeoff, .land]

def name : FlightMode → String
  | .manual => "Manual"
  | .stabilized => "Stabilized"
  | .acro => "Acro"
  | .rattitude => "RAttitude"
  | .altitude => "Altitude"
  | .position => "Position"
  | .hold => "Hold"
  | .follow => "Follow"
  | .rtl => "RTL"
  | .auto => "Auto"
  | .mission => "Mission"
  | .takeoff => "Takeoff"
  | .land => "Land"

def words : FlightMode → UInt8 × UInt8
  | .manual => (1, 0)
  | .altitude => (2, 0)
  | .position => (3, 0)
  | .auto => (4, 1)
  | .takeoff => (4, 2)
  | .hold => (4, 3)
  | .mission => (4, 4)
  | .rtl => (4, 5)
  | .land => (4, 6)
  | .follow => (4, 8)
  | .acro => (5, 0)
  | .stabilized => (7, 0)
  | .rattitude => (8, 0)

/-- The base mode bits a mode implies, the armed bit apart. -/
def baseFlags : FlightMode → UInt8
  | .manual | .stabilized | .rattitude => ModeFlag.manualInput ||| ModeFlag.stabilize
  | .acro => ModeFlag.manualInput
  | .altitude | .position =>
    ModeFlag.manualInput ||| ModeFlag.stabilize ||| ModeFlag.guided
  | _ => ModeFlag.autonomous ||| ModeFlag.guided ||| ModeFlag.stabilize

def word (main sub : UInt8) : UInt32 := (sub.toUInt32 <<< 24) ||| (main.toUInt32 <<< 16)

def mainOf (word : UInt32) : UInt8 := (word >>> 16).toUInt8

def subOf (word : UInt32) : UInt8 := (word >>> 24).toUInt8

/-- The sub mode counts only for the automatic modes. -/
def ofWords? (main sub : UInt8) : Option FlightMode :=
  match main.toNat, sub.toNat with
  | 1, _ => some .manual
  | 2, _ => some .altitude
  | 3, _ => some .position
  | 4, 1 => some .auto
  | 4, 2 => some .takeoff
  | 4, 3 => some .hold
  | 4, 4 => some .mission
  | 4, 5 => some .rtl
  | 4, 6 => some .land
  | 4, 8 => some .follow
  | 5, _ => some .acro
  | 7, _ => some .stabilized
  | 8, _ => some .rattitude
  | _, _ => none

def ofWord? (word : UInt32) : Option FlightMode := ofWords? (mainOf word) (subOf word)

def ofName? (name : String) : Option FlightMode := all.find? (·.name == name)

def parse? (text : String) : Option FlightMode :=
  let fold (s : String) := s.toList.map Char.toLower
  all.find? fun m => fold m.name == fold text

def parseError (text : String) : String := "Unknown flight mode: " ++ text

end FlightMode

end VehicleLink
