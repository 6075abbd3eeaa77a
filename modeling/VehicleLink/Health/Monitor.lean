import VehicleLink.Assoc
import VehicleLink.Health.Watchdog

namespace VehicleLink

structure Monitor where
  watchdogs : Assoc UInt8 Watchdog
  /-- Once the monitor is cancelled, new watchdogs are retired from the start. -/
  cancelled : Bool
  deriving DecidableEq

namespace Monitor

def empty : Monitor := ⟨.empty, false⟩

/-- A kind that is tracked already gets a fresh watchdog. -/
def track (m : Monitor) (kind : UInt8) (interval now : Nat) : Monitor :=
  let w := Watchdog.spawn kind interval now
  { m with watchdogs := m.watchdogs.insert kind (if m.cancelled then w.stop else w) }

def health? (m : Monitor) (kind : UInt8) : Option Health :=
  (m.watchdogs.get? kind).map Watchdog.health

def isTracked (m : Monitor) (kind : UInt8) : Bool := (m.watchdogs.get? kind).isSome

def update (m : Monitor) (kind : UInt8) (now : Nat) : Monitor × List HealthEvent :=
  match m.watchdogs.get? kind with
  | some w =>
    let (w, events) := w.update now
    ({ m with watchdogs := m.watchdogs.insert kind w }, events)
  | none => (m, [])

def stopAll (m : Monitor) : Monitor := { m with watchdogs := m.watchdogs.mapValues Watchdog.stop }

def cancel (m : Monitor) : Monitor := { m.stopAll with cancelled := true }

def due (m : Monitor) : List Nat := m.watchdogs.values.filterMap Watchdog.due?

def fire (m : Monitor) (now : Nat) : Monitor × List HealthEvent :=
  ({ m with watchdogs := m.watchdogs.mapValues fun w => (w.fire now).1 },
    m.watchdogs.values.flatMap fun w => (w.fire now).2)

end Monitor

end VehicleLink
