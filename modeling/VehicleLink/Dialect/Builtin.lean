import VehicleLink.Schema.Registry

namespace VehicleLink.Dialect

def builtinDefinitions : List Definition :=
  [ .make 0 "HEARTBEAT" [
      .scalar "type" .u8,
      .scalar "autopilot" .u8,
      .scalar "base_mode" .u8,
      .scalar "custom_mode" .u32,
      .scalar "system_status" .u8,
      .scalar "mavlink_version" .u8] none,
    .make 1 "SYS_STATUS" [
      .scalar "onboard_control_sensors_present" .u32,
      .scalar "onboard_control_sensors_enabled" .u32,
      .scalar "onboard_control_sensors_health" .u32,
      .scalar "load" .u16,
      .scalar "voltage_battery" .u16,
      .scalar "current_battery" .i16,
      .scalar "battery_remaining" .i8,
      .scalar "drop_rate_comm" .u16,
      .scalar "errors_comm" .u16,
      .scalar "errors_count1" .u16,
      .scalar "errors_count2" .u16,
      .scalar "errors_count3" .u16,
      .scalar "errors_count4" .u16] none,
    .make 4 "PING" [
      .scalar "time_usec" .u64,
      .scalar "seq" .u32,
      .scalar "target_system" .u8,
      .scalar "target_component" .u8] none,
    .make 20 "PARAM_REQUEST_READ" [
      .scalar "target_system" .u8,
      .scalar "target_component" .u8,
      .array "param_id" .char 16,
      .scalar "param_index" .i16] none,
    .make 21 "PARAM_REQUEST_LIST" [
      .scalar "target_system" .u8,
      .scalar "target_component" .u8] none,
    .make 22 "PARAM_VALUE" [
      .array "param_id" .char 16,
      .scalar "param_value" .single,
      .scalar "param_type" .u8,
      .scalar "param_count" .u16,
      .scalar "param_index" .u16] none,
    .make 23 "PARAM_SET" [
      .scalar "target_system" .u8,
      .scalar "target_component" .u8,
      .array "param_id" .char 16,
      .scalar "param_value" .single,
      .scalar "param_type" .u8] none,
    .make 24 "GPS_RAW_INT" [
      .scalar "time_usec" .u64,
      .scalar "fix_type" .u8,
      .scalar "lat" .i32,
      .scalar "lon" .i32,
      .scalar "alt" .i32,
      .scalar "eph" .u16,
      .scalar "epv" .u16,
      .scalar "vel" .u16,
      .scalar "cog" .u16,
      .scalar "satellites_visible" .u8] none,
    .make 30 "ATTITUDE" [
      .scalar "time_boot_ms" .u32,
      .scalar "roll" .single,
      .scalar "pitch" .single,
      .scalar "yaw" .single,
      .scalar "rollspeed" .single,
      .scalar "pitchspeed" .single,
      .scalar "yawspeed" .single] none,
    .make 32 "LOCAL_POSITION_NED" [
      .scalar "time_boot_ms" .u32,
      .scalar "x" .single,
      .scalar "y" .single,
      .scalar "z" .single,
      .scalar "vx" .single,
      .scalar "vy" .single,
      .scalar "vz" .single] none,
    .make 33 "GLOBAL_POSITION_INT" [
      .scalar "time_boot_ms" .u32,
      .scalar "lat" .i32,
      .scalar "lon" .i32,
      .scalar "alt" .i32,
      .scalar "relative_alt" .i32,
      .scalar "vx" .i16,
      .scalar "vy" .i16,
      .scalar "vz" .i16,
      .scalar "hdg" .u16] none,
    .make 36 "SERVO_OUTPUT_RAW" [
      .scalar "time_usec" .u32,
      .scalar "port" .u8,
      .scalar "servo1_raw" .u16,
      .scalar "servo2_raw" .u16,
      .scalar "servo3_raw" .u16,
      .scalar "servo4_raw" .u16,
      .scalar "servo5_raw" .u16,
      .scalar "servo6_raw" .u16,
      .scalar "servo7_raw" .u16,
      .scalar "servo8_raw" .u16] none,
    .make 65 "RC_CHANNELS" [
      .scalar "time_boot_ms" .u32,
      .scalar "chancount" .u8,
      .scalar "chan1_raw" .u16,
      .scalar "chan2_raw" .u16,
      .scalar "chan3_raw" .u16,
      .scalar "chan4_raw" .u16,
      .scalar "chan5_raw" .u16,
      .scalar "chan6_raw" .u16,
      .scalar "chan7_raw" .u16,
      .scalar "chan8_raw" .u16,
      .scalar "chan9_raw" .u16,
      .scalar "chan10_raw" .u16,
      .scalar "chan11_raw" .u16,
      .scalar "chan12_raw" .u16,
      .scalar "chan13_raw" .u16,
      .scalar "chan14_raw" .u16,
      .scalar "chan15_raw" .u16,
      .scalar "chan16_raw" .u16,
      .scalar "chan17_raw" .u16,
      .scalar "chan18_raw" .u16,
      .scalar "rssi" .u8] none,
    .make 70 "RC_CHANNELS_OVERRIDE" [
      .scalar "target_system" .u8,
      .scalar "target_component" .u8,
      .scalar "chan1_raw" .u16,
      .scalar "chan2_raw" .u16,
      .scalar "chan3_raw" .u16,
      .scalar "chan4_raw" .u16,
      .scalar "chan5_raw" .u16,
      .scalar "chan6_raw" .u16,
      .scalar "chan7_raw" .u16,
      .scalar "chan8_raw" .u16] none,
    .make 74 "VFR_HUD" [
      .scalar "airspeed" .single,
      .scalar "groundspeed" .single,
      .scalar "heading" .i16,
      .scalar "throttle" .u16,
      .scalar "alt" .single,
      .scalar "climb" .single] none,
    .make 76 "COMMAND_LONG" [
      .scalar "target_system" .u8,
      .scalar "target_component" .u8,
      .scalar "command" .u16,
      .scalar "confirmation" .u8,
      .scalar "param1" .single,
      .scalar "param2" .single,
      .scalar "param3" .single,
      .scalar "param4" .single,
      .scalar "param5" .single,
      .scalar "param6" .single,
      .scalar "param7" .single] none,
    .make 77 "COMMAND_ACK" [
      .scalar "command" .u16,
      .scalar "result" .u8] none,
    .make 83 "ATTITUDE_TARGET" [
      .scalar "time_boot_ms" .u32,
      .scalar "type_mask" .u8,
      .array "q" .single 4,
      .scalar "body_roll_rate" .single,
      .scalar "body_pitch_rate" .single,
      .scalar "body_yaw_rate" .single,
      .scalar "thrust" .single] none,
    .make 85 "POSITION_TARGET_LOCAL_NED" [
      .scalar "time_boot_ms" .u32,
      .scalar "coordinate_frame" .u8,
      .scalar "type_mask" .u16,
      .scalar "x" .single,
      .scalar "y" .single,
      .scalar "z" .single,
      .scalar "vx" .single,
      .scalar "vy" .single,
      .scalar "vz" .single,
      .scalar "afx" .single,
      .scalar "afy" .single,
      .scalar "afz" .single,
      .scalar "yaw" .single,
      .scalar "yaw_rate" .single] none,
    .make 87 "POSITION_TARGET_GLOBAL_INT" [
      .scalar "time_boot_ms" .u32,
      .scalar "coordinate_frame" .u8,
      .scalar "type_mask" .u16,
      .scalar "lat_int" .i32,
      .scalar "lon_int" .i32,
      .scalar "alt" .single,
      .scalar "vx" .single,
      .scalar "vy" .single,
      .scalar "vz" .single,
      .scalar "afx" .single,
      .scalar "afy" .single,
      .scalar "afz" .single,
      .scalar "yaw" .single,
      .scalar "yaw_rate" .single] none,
    .make 105 "HIGHRES_IMU" [
      .scalar "time_usec" .u64,
      .scalar "xacc" .single,
      .scalar "yacc" .single,
      .scalar "zacc" .single,
      .scalar "xgyro" .single,
      .scalar "ygyro" .single,
      .scalar "zgyro" .single,
      .scalar "xmag" .single,
      .scalar "ymag" .single,
      .scalar "zmag" .single,
      .scalar "abs_pressure" .single,
      .scalar "diff_pressure" .single,
      .scalar "pressure_alt" .single,
      .scalar "temperature" .single,
      .scalar "fields_updated" .u16] none,
    .make 106 "OPTICAL_FLOW_RAD" [
      .scalar "time_usec" .u64,
      .scalar "sensor_id" .u8,
      .scalar "integration_time_us" .u32,
      .scalar "integrated_x" .single,
      .scalar "integrated_y" .single,
      .scalar "integrated_xgyro" .single,
      .scalar "integrated_ygyro" .single,
      .scalar "integrated_zgyro" .single,
      .scalar "temperature" .i16,
      .scalar "quality" .u8,
      .scalar "time_delta_distance_us" .u32,
      .scalar "distance" .single] none,
    .make 132 "DISTANCE_SENSOR" [
      .scalar "time_boot_ms" .u32,
      .scalar "min_distance" .u16,
      .scalar "max_distance" .u16,
      .scalar "current_distance" .u16,
      .scalar "type" .u8,
      .scalar "id" .u8,
      .scalar "orientation" .u8,
      .scalar "covariance" .u8] none,
    .make 148 "AUTOPILOT_VERSION" [
      .scalar "capabilities" .u64,
      .scalar "flight_sw_version" .u32,
      .scalar "middleware_sw_version" .u32,
      .scalar "os_sw_version" .u32,
      .scalar "board_version" .u32,
      .array "flight_custom_version" .u8 8,
      .array "middleware_custom_version" .u8 8,
      .array "os_custom_version" .u8 8,
      .scalar "vendor_id" .u16,
      .scalar "product_id" .u16,
      .scalar "uid" .u64] none,
    .make 242 "HOME_POSITION" [
      .scalar "latitude" .i32,
      .scalar "longitude" .i32,
      .scalar "altitude" .i32,
      .scalar "x" .single,
      .scalar "y" .single,
      .scalar "z" .single,
      .array "q" .single 4,
      .scalar "approach_x" .single,
      .scalar "approach_y" .single,
      .scalar "approach_z" .single] none,
    .make 245 "EXTENDED_SYS_STATE" [
      .scalar "vtol_state" .u8,
      .scalar "landed_state" .u8] none,
    .make 253 "STATUSTEXT" [
      .scalar "severity" .u8,
      .array "text" .char 50] none ]

def builtin : Registry := ⟨builtinDefinitions, by decide⟩

end VehicleLink.Dialect
