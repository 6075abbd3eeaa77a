import VehicleLink.Text.DecimalDigit

namespace VehicleLink

inductive Link
  | udp (address : String)
  | serial (device : String)
  deriving DecidableEq, Repr

namespace Link

def isHostChar (c : Char) : Bool := c.isAlphanum || c == '.' || c == '-'

def isHexDigit (c : Char) : Bool :=
  c.isDigit || ('a' ≤ c && c ≤ 'f') || ('A' ≤ c && c ≤ 'F')

def isHost : List Char → Bool
  | '[' :: cs =>
    let inner := cs.dropLast
    cs.getLast? == some ']' && !inner.isEmpty && inner.all fun c => isHexDigit c || c == ':'
  | cs => !cs.isEmpty && cs.all isHostChar

def isSocket (cs : List Char) : Bool :=
  let reversed := cs.reverse
  let number := reversed.takeWhile DecimalDigit.isDigit
  match reversed.dropWhile DecimalDigit.isDigit with
  | ':' :: host => !number.isEmpty && number.length ≤ 5 && isHost host.reverse
  | _ => false

def ofAddress (address : String) : Link :=
  if isSocket address.toList then .udp address else .serial address

end Link

end VehicleLink
