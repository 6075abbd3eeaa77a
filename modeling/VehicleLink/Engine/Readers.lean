import VehicleLink.Engine.Receive

namespace VehicleLink.Engine

def openReader (e : Engine) (id : Nat) : Engine :=
  let e := { e with readers := e.readers.insert id ⟨[], e.cancelled, false⟩ }
  if e.cancelled then e.finish id (.read (.ok ())) else e

def endReader (e : Engine) (id : Nat) (r : Reader) (result : Except WireError Unit) : Engine :=
  { e with readers := e.readers.insert id { r with ended := true } }.finish id (.read result)

def feed (e : Engine) (id : Nat) (r : Reader) (bytes : List UInt8) : Engine :=
  let (items, buffer) := Stream.drain e.registry false (r.buffer ++ bytes)
  { e with readers := e.readers.insert id { r with buffer } }.receiveAll items

def drainReader (e : Engine) (id : Nat) (r : Reader) : Engine :=
  (e.receiveAll (Stream.drain e.registry true r.buffer).1).endReader id { r with buffer := [] }
    (.ok ())

/-- Delivers one read; nothing read is the end of the stream.  The answer is whether somebody
still reads, if the stream may be written to at all. -/
def chunk (e : Engine) (id : Nat) (bytes : List UInt8) : Engine × Option Bool :=
  match e.readers.get? id with
  | none => (e, none)
  | some r =>
    if r.closed then (e, none)
    else if r.ended then (e, some false)
    else if bytes.isEmpty then (e.drainReader id r, some true)
    else (e.feed id r bytes, some true)

def failRead (e : Engine) (id : Nat) (reason : String) : Engine × Option Bool :=
  match e.readers.get? id with
  | none => (e, none)
  | some r =>
    if r.closed then (e, none)
    else if r.ended then (e, some false)
    else (e.endReader id r (.error (.unreadable reason)), some true)

def closeReader (e : Engine) (id : Nat) : Engine × Bool :=
  match e.readers.get? id with
  | none => (e, false)
  | some r =>
    if r.closed then (e, false)
    else
      let r := { r with closed := true }
      if r.ended then ({ e with readers := e.readers.insert id r }, true)
      else (e.drainReader id r, true)

def endAllReaders (e : Engine) : Engine :=
  e.readers.entries.foldl (fun e (id, r) => if r.ended then e else e.endReader id r (.ok ())) e

end VehicleLink.Engine
