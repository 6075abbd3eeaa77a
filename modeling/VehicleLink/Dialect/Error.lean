namespace VehicleLink

inductive DialectError
  | unreadable (reason : String)
  | malformed
  | missingAttribute (element key : String)
  | invalidAttribute (key value : String)
  | unknownType (message field type : String)
  | duplicateId (id : UInt8) (first second : String)
  | payloadTooLarge (name : String) (length : Nat)
  deriving DecidableEq, Repr

def DialectError.message : DialectError → String
  | .unreadable reason => "I/O error: " ++ reason
  | .malformed => "XML parsing error"
  | .missingAttribute element key => "Missing attribute '" ++ key ++ "' on <" ++ element ++ ">"
  | .invalidAttribute key value => "Invalid value '" ++ value ++ "' for attribute '" ++ key ++ "'"
  | .unknownType message field type =>
    "Unknown field type '" ++ type ++ "' for " ++ message ++ "." ++ field
  | .duplicateId id first second =>
    "Duplicate message id " ++ toString id ++ " (" ++ first ++ " and " ++ second ++ ")"
  | .payloadTooLarge name length =>
    "Message " ++ name ++ " payload of " ++ toString length ++ " bytes exceeds 255"

end VehicleLink
