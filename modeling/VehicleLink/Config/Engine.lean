import VehicleLink.Config.Setting

/-! Timing and identity of an engine.  All times are in milliseconds. -/

namespace VehicleLink

structure EngineConfig where
  tick : UInt64 := 500
  /-- Parameter synchronization goes on without what is missing after this long. -/
  paramTimeout : UInt64 := 10000
  /-- Resends of a command after its first attempt. -/
  commandRetries : UInt32 := 5
  paramRequestSpacing : UInt64 := 5
  paramSettle : UInt64 := 250
  paramReadAttempts : UInt32 := 10
  paramReadDelay : UInt64 := 30
  system : UInt8 := 255
  component : UInt8 := 190
  /-- The link counts as down after this long without a heartbeat. -/
  heartbeatTimeout : UInt64 := 3000
  telemetryTimeout : UInt64 := 2000
  overrideResend : UInt64 := 200
  deriving DecidableEq, Repr

namespace EngineConfig

def times : Nat := UInt64.size

def settings : List (Setting EngineConfig) :=
  [ ⟨"tick_ms", fun v c => return { c with tick := .ofNat (← v.below? times) }⟩,
    ⟨"param_timeout_ms", fun v c => return { c with paramTimeout := .ofNat (← v.below? times) }⟩,
    ⟨"command_retries", fun v c => return { c with commandRetries := .ofNat (← v.below? UInt32.size) }⟩,
    ⟨"param_request_spacing_ms", fun v c =>
      return { c with paramRequestSpacing := .ofNat (← v.below? times) }⟩,
    ⟨"param_settle_ms", fun v c => return { c with paramSettle := .ofNat (← v.below? times) }⟩,
    ⟨"param_read_attempts", fun v c =>
      return { c with paramReadAttempts := .ofNat (← v.below? UInt32.size) }⟩,
    ⟨"param_read_delay_ms", fun v c =>
      return { c with paramReadDelay := .ofNat (← v.below? times) }⟩,
    ⟨"system_id", fun v c => return { c with system := .ofNat (← v.below? UInt8.size) }⟩,
    ⟨"component_id", fun v c => return { c with component := .ofNat (← v.below? UInt8.size) }⟩,
    ⟨"heartbeat_timeout_ms", fun v c =>
      return { c with heartbeatTimeout := .ofNat (← v.below? times) }⟩,
    ⟨"telemetry_timeout_ms", fun v c =>
      return { c with telemetryTimeout := .ofNat (← v.below? times) }⟩,
    ⟨"rc_resend_ms", fun v c => return { c with overrideResend := .ofNat (← v.below? times) }⟩ ]

def ofJson? (v : Json) : Option EngineConfig := Setting.read settings {} v

def ofString? (text : String) : Option EngineConfig := do ofJson? (← Json.ofString? text)

end EngineConfig

end VehicleLink
