import VehicleLink.Config.Station
import VehicleLink.Dialect.Builtin
import VehicleLink.Dialect.Reader
import VehicleLink.Engine.Session

/-! Runs an engine on a vehicle link.  A serial device is opened as a file; the datagrams of a
UDP link are taken from standard input and given to standard output, for a relay to carry. -/

namespace VehicleLink.Main

def readFile? (path : String) : IO (Option (List UInt8)) := do
  try
    return some (← IO.FS.readBinFile path).toList
  catch
    | .noFileOrDirectory _ _ _ => return none
    | e => throw e

def loadStation (path : String) : IO Station := do
  match ← readFile? path with
  | none =>
    IO.eprintln "Config file not found, using defaults"
    return {}
  | some bytes =>
    match Station.ofBytes bytes with
    | .ok s => return s
    | .error .unreadable => throw (IO.userError ("Failed to read " ++ path))
    | .error .invalid => throw (IO.userError "Invalid configuration")

def loadRegistry (s : Station) : IO Registry := do
  match s.dialect with
  | none => return Dialect.builtin
  | some path =>
    let some bytes ← readFile? path
      | throw (IO.userError ("Failed to load dialect " ++ path))
    match Dialect.loadBytes bytes with
    | .ok r => return r
    | .error e => throw (IO.userError ("Failed to load dialect " ++ path ++ ": " ++ e.message))

structure Ends where
  receive : IO ByteArray
  send : ByteArray → IO Unit

def datagramSize : USize := 2048

def openLink : Link → IO Ends
  | .udp _ => do
    let input ← IO.getStdin
    let output ← IO.getStdout
    return ⟨input.read datagramSize, fun bytes => do output.write bytes; output.flush⟩
  | .serial device => do
    let handle ← IO.FS.Handle.mk device .readWrite
    return ⟨handle.read datagramSize, fun bytes => do handle.write bytes; handle.flush⟩

def transmit (ends : Ends) (before after : Engine) : IO Unit := do
  let count := after.outbound.sent.length - before.outbound.sent.length
  for t in (after.outbound.sent.take count).reverse do
    ends.send ⟨t.frame.toArray⟩

partial def pump (ends : Ends) (link : Link) (begun : Nat) (engine : Engine)
    (pending : Task (Except IO.Error ByteArray)) : IO Unit := do
  let now ← IO.monoMsNow
  let (engine', _) := engine.handle (.advance (now - begun - engine.now))
  transmit ends engine engine'
  if ← IO.hasFinished pending then
    let bytes ← IO.ofExcept pending.get
    if bytes.isEmpty then
      IO.eprintln "Link closed"
    else
      let request := match link with
        | .udp _ => .datagram bytes.toList
        | .serial _ => .chunk 0 bytes.toList
      let (engine'', _) := engine'.handle request
      transmit ends engine' engine''
      pump ends link begun engine'' (← IO.asTask ends.receive)
  else
    IO.sleep 1
    pump ends link begun engine' pending

def run (path : String) : IO Unit := do
  let station ← loadStation path
  let registry ← loadRegistry station
  let ends ← openLink station.link
  let engine := Engine.launch registry station.engine .ready
  let (engine, _) := engine.handle .openReader
  pump ends station.link (← IO.monoMsNow) engine (← IO.asTask ends.receive)

end VehicleLink.Main

def main : List String → IO UInt32
  | [] => do
    VehicleLink.Main.run "config.json"
    return 0
  | [path] => do
    VehicleLink.Main.run path
    return 0
  | _ => do
    IO.eprintln "usage: give at most one path, that of the configuration"
    return 2
