namespace VehicleLink

inductive Subsystem
  | gps
  | estimator
  | controller
  | radioControl
  | motors
  | opticalFlow
  | rangeFinder
  | imu
  deriving DecidableEq, Repr

namespace Subsystem

def all : List Subsystem :=
  [.gps, .estimator, .controller, .radioControl, .motors, .opticalFlow, .rangeFinder, .imu]

def messages : Subsystem → List String
  | .gps => ["GPS_RAW_INT"]
  | .estimator => ["ATTITUDE", "LOCAL_POSITION_NED", "GLOBAL_POSITION_INT"]
  | .controller =>
    ["ATTITUDE_TARGET", "POSITION_TARGET_LOCAL_NED", "POSITION_TARGET_GLOBAL_INT"]
  | .radioControl => ["RC_CHANNELS"]
  | .motors => ["SERVO_OUTPUT_RAW"]
  | .opticalFlow => ["OPTICAL_FLOW_RAD"]
  | .rangeFinder => ["DISTANCE_SENSOR"]
  | .imu => ["HIGHRES_IMU"]

end Subsystem

end VehicleLink
