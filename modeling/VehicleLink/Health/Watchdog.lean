import VehicleLink.Timer

/-! Liveness of one message kind.  A watchdog reports a kind as down once when nothing was
seen of it for longer than the interval, and as up when it is seen again. -/

namespace VehicleLink

inductive Health
  | unknown
  | up
  | down
  deriving DecidableEq, Repr

def Health.aggregate (members : List Health) : Health :=
  if .up ∈ members then .up else if .down ∈ members then .down else .unknown

structure HealthEvent where
  kind : UInt8
  health : Health
  deriving DecidableEq, Repr

structure Watchdog where
  kind : UInt8
  interval : Nat
  lastSeen : Nat
  health : Health
  /-- Absent once the watchdog is retired. -/
  timer : Option Timer
  deriving DecidableEq, Repr

namespace Watchdog

def spawn (kind : UInt8) (interval now : Nat) : Watchdog :=
  ⟨kind, interval, now, .unknown, Timer.start? interval now⟩

def update (w : Watchdog) (now : Nat) : Watchdog × List HealthEvent :=
  ({ w with lastSeen := now, health := .up },
    if w.health = .up then [] else [⟨w.kind, .up⟩])

def stop (w : Watchdog) : Watchdog := { w with timer := none }

def isStale (w : Watchdog) (now : Nat) : Bool := w.health ≠ .down && w.interval < now - w.lastSeen

def check (w : Watchdog) (now : Nat) : Watchdog × List HealthEvent :=
  if w.isStale now then ({ w with health := .down }, [⟨w.kind, .down⟩]) else (w, [])

def due? (w : Watchdog) : Option Nat := w.timer.map Timer.due

def fire (w : Watchdog) (now : Nat) : Watchdog × List HealthEvent :=
  match w.timer with
  | some t =>
    if t.due ≤ now then { w with timer := some (t.next now) }.check t.due else (w, [])
  | none => (w, [])

end Watchdog

end VehicleLink
