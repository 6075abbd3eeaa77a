namespace VehicleLink

inductive AckStatus
  | pending
  | accepted
  | temporarilyRejected
  | denied
  | unsupported
  | failed
  | unknown
  deriving DecidableEq, Repr

namespace AckStatus

def ofResultCode (code : UInt8) : AckStatus :=
  match code.toNat with
  | 0 => .accepted
  | 1 => .temporarilyRejected
  | 2 => .denied
  | 3 => .unsupported
  | 4 => .failed
  | _ => .unknown

/-- Final refusals; a command refused so is not sent again. -/
def isRejection : AckStatus → Bool
  | .denied | .unsupported | .failed => true
  | _ => false

def description : AckStatus → String
  | .accepted => "Command accepted."
  | .failed => "Command was received, but failed."
  | .unsupported => "Command is not supported."
  | .denied => "Command was rejected by the vehicle."
  | .temporarilyRejected => "Command was rejected by the vehicle, but is supported."
  | .pending | .unknown => "Command unknown."

end AckStatus

inductive CommandError
  | rejected (opcode : UInt16) (status : AckStatus)
  | timedOut (opcode : UInt16) (attempts : Nat)
  | cancelled
  deriving DecidableEq, Repr

def CommandError.message : CommandError → String
  | .rejected opcode status => "Command " ++ toString opcode ++ " rejected: " ++ status.description
  | .timedOut opcode attempts =>
    "Command " ++ toString opcode ++ " not acknowledged after " ++ toString attempts ++ " attempts"
  | .cancelled => "Command was discarded before completion"

inductive Outcome
  | accepted
  | failed (cause : CommandError)
  deriving DecidableEq, Repr

end VehicleLink
