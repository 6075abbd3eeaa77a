import VehicleLink.Engine.Receive

namespace VehicleLink.Engine

/-- Goes on with a pass: one request, then a pause, also behind the last one.  Without pauses
all requests go out at once. -/
def requestMissing (e : Engine) (target : Target) : List UInt16 → Engine
  | [] => { e with handler.pass := none }
  | index :: rest =>
    if e.cancelled then { e with handler.pass := none }
    else
      let e := (e.sendTo target (.requestParameter index)).1
      let pause := e.config.paramRequestSpacing.toNat
      if pause = 0 then requestMissing e target rest
      else { e with handler.pass := some ⟨target, rest, e.now + Timer.span pause⟩ }

def syncParameters (e : Engine) : Engine :=
  if !e.params.isStarted then
    ({ e with params := e.params.markStarted e.now }.send .requestParameters).1
  else
    match e.params.expire e.now e.config.paramTimeout.toNat with
    | (params, some _) => { e with params }
    | (_, none) =>
      if e.params.total.isNone then (e.send .requestParameters).1
      else e.requestMissing e.target e.params.missing

def confirmation (attempts : Nat) : UInt8 := UInt8.ofNat (min attempts 255)

def dispatch (e : Engine) : Engine :=
  let (e, delivered) := match e.queue.due? with
    | some c =>
      let (e, result) := e.send (.command c.opcode c.arguments (confirmation c.attempts))
      (e, result.isOk)
    | none => (e, false)
  let (queue, tick, settled) := e.queue.tick delivered
  let e := { e with queue }
  match settled.bind Command.handle, tick.outcome? with
  | some id, some outcome => e.finish id (.command outcome)
  | _, _ => e

def advancePhase (e : Engine) : Engine :=
  { e with vehicle := e.vehicle.advance e.params.isComplete }

def actOnPhase (e : Engine) : Engine :=
  match e.vehicle.phase with
  | .offline => e
  | .awaitingCapabilities =>
    (e.send (.command Opcode.requestCapabilities Arguments.requestCapabilities 0)).1
  | .syncingParameters => e.syncParameters
  | .ready => e.dispatch

def tickHandler (e : Engine) (t : Timer) : Engine :=
  { e with handler.timer := some (t.next e.now) }.advancePhase.actOnPhase

/-- Handles the ticks that are due and not held up by a pass.  At most
`Timer.tolerance + 1` ticks can be due at one time: a tick later than the tolerance moves the
next one behind the present. -/
def runTicks : Nat → Engine → Engine
  | 0, e => e
  | fuel + 1, e =>
    match e.handler.pass, e.handler.timer with
    | none, some t => if t.due ≤ e.now then runTicks fuel (e.tickHandler t) else e
    | _, _ => e

def resumePass (e : Engine) : Engine :=
  match e.handler.pass with
  | some p => if p.wake ≤ e.now then e.requestMissing p.target p.rest else e
  | none => e

def runHandler (e : Engine) : Engine := runTicks (Timer.tolerance + 1) e.resumePass

end VehicleLink.Engine
