import VehicleLink.Engine.Errands
import VehicleLink.Engine.Handler
import VehicleLink.Engine.Override
import VehicleLink.Engine.Readers
import VehicleLink.Health.Session

namespace VehicleLink.Engine

def checkHealth (e : Engine) : Engine :=
  let (monitor, events) := e.monitor.fire e.now
  { e with monitor, events := e.events ++ events }

def settle (e : Engine) : Engine :=
  e.checkHealth.runHandler.runOverride.runJobs.applyEvents

/-- The times for which something is scheduled.  While a pass is asleep, ticks of the handler
wait for it. -/
def due (e : Engine) : List Nat :=
  let handler := match e.handler.pass with
    | some p => [p.wake]
    | none => (e.handler.timer.map Timer.due).toList
  e.monitor.due ++ handler ++ (e.overrideTimer.map Timer.due).toList ++ e.jobs.map Job.wake

def runTo (target now : Nat) (e : Engine) : Engine :=
  match _h : earliest? e.due now target with
  | some t => runTo target t { e with now := t }.settle
  | none => { e with now := target }
termination_by target - now
decreasing_by
  have := lt_and_le_of_earliest? _h
  omega

def advance (e : Engine) (ms : Nat) : Engine := e.runTo (e.now + ms) e.now

def shutdown (e : Engine) : Engine :=
  { e with
    monitor := e.monitor.cancel
    handler := ⟨none, none⟩
    overrideTimer := none
    cancelled := true }.endAllReaders

end VehicleLink.Engine
