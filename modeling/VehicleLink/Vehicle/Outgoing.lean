import VehicleLink.Command.Queue
import VehicleLink.Message
import VehicleLink.Vehicle.Mode

namespace VehicleLink

structure Target where
  system : UInt8
  component : UInt8
  deriving DecidableEq, Repr

abbrev Channels := Vector UInt16 8

inductive Outgoing
  | command (opcode : UInt16) (arguments : Arguments) (confirmation : UInt8)
  | requestParameters
  | requestParameter (index : UInt16)
  | setParameter (name : String) (value : Single)
  | overrideChannels (channels : Channels)
  deriving DecidableEq

namespace Outgoing

def name : Outgoing → String
  | .command _ _ _ => "COMMAND_LONG"
  | .requestParameters => "PARAM_REQUEST_LIST"
  | .requestParameter _ => "PARAM_REQUEST_READ"
  | .setParameter _ _ => "PARAM_SET"
  | .overrideChannels _ => "RC_CHANNELS_OVERRIDE"

def realParameter : UInt8 := 9

def numbered (before after : String) (values : List Value) : List (String × Value) :=
  values.mapIdx fun i v => (before ++ toString (i + 1) ++ after, v)

/-- The fields apart from the address.  A parameter index goes out as the signed number with
the same bits. -/
def content : Outgoing → List (String × Value)
  | .command opcode arguments confirmation =>
    ("command", .u16 opcode) :: ("confirmation", .u8 confirmation) ::
      numbered "param" "" (arguments.toList.map .single)
  | .requestParameters => []
  | .requestParameter index => [("param_id", .text []), ("param_index", .i16 index)]
  | .setParameter name value =>
    [("param_id", .ofString name), ("param_value", .single value),
     ("param_type", .u8 realParameter)]
  | .overrideChannels channels => numbered "chan" "_raw" (channels.toList.map .u16)

def fields (m : Outgoing) (target : Target) : Fields :=
  .ofList (("target_system", .u8 target.system) :: ("target_component", .u8 target.component) ::
    m.content)

end Outgoing

namespace Opcode

def setMode : UInt16 := 176

def setHome : UInt16 := 179

def requestCapabilities : UInt16 := 520

end Opcode

namespace Arguments

def setMode (mode : Option FlightMode) (armed : Bool) : Arguments :=
  let base := ModeFlag.customMode ||| (if armed then ModeFlag.armed else 0)
  let base := match mode with
    | some m => base ||| m.baseFlags
    | none => base
  let (main, sub) := (mode.map FlightMode.words).getD (0, 0)
  #v[.ofNat base.toNat, .ofNat main.toNat, .ofNat sub.toNat, .zero, .zero, .zero, .zero]

def setHome (latitude longitude altitude : Single) (relative : Bool) : Arguments :=
  #v[if relative then .one else .zero, .zero, .zero, .zero, latitude, longitude, altitude]

def requestCapabilities : Arguments := #v[.one, .zero, .zero, .zero, .zero, .zero, .zero]

end Arguments

end VehicleLink
