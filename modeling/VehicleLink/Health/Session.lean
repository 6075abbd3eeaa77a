import VehicleLink.Health.Monitor

namespace VehicleLink

def earliest? (times : List Nat) (now target : Nat) : Option Nat :=
  (times.filter fun t => now < t && t ≤ target).min?

theorem lt_and_le_of_earliest? {times : List Nat} {now target t : Nat}
    (h : earliest? times now target = some t) : now < t ∧ t ≤ target := by
  have := List.min?_mem h
  simpa using (List.mem_filter.mp this).2

structure Stamped where
  time : Nat
  event : HealthEvent
  deriving DecidableEq, Repr

def stamp (time : Nat) (events : List HealthEvent) (log : List Stamped) : List Stamped :=
  (events.map (⟨time, ·⟩)).reverse ++ log

namespace Watchdog

inductive Action
  | advance (ms : Nat)
  | update
  | stop
  /-- Whoever started the watchdog is cancelled, and with it all that it started. -/
  | cancel
  | drop
  deriving DecidableEq

structure Session where
  now : Nat
  /-- Absent once dropped. -/
  watchdog : Option Watchdog
  /-- Newest first. -/
  log : List Stamped
  deriving DecidableEq

namespace Session

def start (kind : UInt8) (interval : Nat) : Session := ⟨0, some (.spawn kind interval 0), []⟩

def settle (s : Session) : Session :=
  match s.watchdog with
  | some w =>
    let (w, events) := w.fire s.now
    { s with watchdog := some w, log := stamp s.now events s.log }
  | none => s

def due (s : Session) : List Nat := (s.watchdog.bind Watchdog.due?).toList

def runTo (target : Nat) (s : Session) : Session :=
  match _h : earliest? s.due s.now target with
  | some t => runTo target (settle { s with now := t })
  | none => { s with now := max s.now target }
termination_by target - s.now
decreasing_by
  have h := lt_and_le_of_earliest? _h
  have hn : (settle { s with now := t }).now = t := by unfold settle; split <;> rfl
  omega

def step (s : Session) : Action → Session
  | .advance ms => (s.settle).runTo (s.now + ms)
  | .update =>
    match s.watchdog with
    | some w =>
      let (w, events) := w.update s.now
      { s with watchdog := some w, log := stamp s.now events s.log }
    | none => s
  | .stop | .cancel => { s with watchdog := s.watchdog.map Watchdog.stop }
  | .drop => { s with watchdog := none }

def run (s : Session) (actions : List Action) : Session := actions.foldl step s

end Session

end Watchdog

namespace Monitor

inductive Action
  | track (kind : UInt8) (interval : Nat)
  | update (kind : UInt8)
  | advance (ms : Nat)
  | stopAll
  | cancel
  deriving DecidableEq

structure Session where
  now : Nat
  monitor : Monitor
  /-- Newest first. -/
  log : List Stamped
  deriving DecidableEq

namespace Session

def start : Session := ⟨0, .empty, []⟩

def settle (s : Session) : Session :=
  let (monitor, events) := s.monitor.fire s.now
  { s with monitor, log := stamp s.now events s.log }

def runTo (target : Nat) (s : Session) : Session :=
  match _h : earliest? s.monitor.due s.now target with
  | some t => runTo target (settle { s with now := t })
  | none => { s with now := max s.now target }
termination_by target - s.now
decreasing_by
  have h := lt_and_le_of_earliest? _h
  have hn : (settle { s with now := t }).now = t := rfl
  omega

def step (s : Session) : Action → Session
  | .track kind interval => { s with monitor := s.monitor.track kind interval s.now }
  | .update kind =>
    let (monitor, events) := s.monitor.update kind s.now
    { s with monitor, log := stamp s.now events s.log }
  | .advance ms => (s.settle).runTo (s.now + ms)
  | .stopAll => { s with monitor := s.monitor.stopAll }
  | .cancel => { s with monitor := s.monitor.cancel }

def run (s : Session) (actions : List Action) : Session := actions.foldl step s

end Session

end Monitor

end VehicleLink
