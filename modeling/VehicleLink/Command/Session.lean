import VehicleLink.Command.Queue

namespace VehicleLink.Queue

inductive Action
  | push (opcode : UInt16) (arguments : Arguments)
  | acknowledge (opcode : UInt16) (status : AckStatus)
  | tick (delivered : Bool)
  | clearLast
  | release (arrival : Nat)
  | close

inductive Reply
  | nothing
  | pushed (arrival : Nat) (opcode : UInt16)
  | acknowledged (matched : Bool)
  | ticked (tick : Tick) (sent : Option Command)

structure Resolution where
  arrival : Nat
  outcome : Outcome
  deriving DecidableEq

structure Session where
  queue : Queue
  closed : Bool
  /-- Commands as they were when sent, newest first. -/
  sent : List Command
  /-- Newest first. -/
  resolved : List Resolution
  released : List Nat
  deriving DecidableEq

namespace Session

def start (retries : Nat) : Session := ⟨.empty retries, false, [], [], []⟩

def tick (s : Session) (delivered : Bool) : Session × Reply :=
  let due := s.queue.due?
  let (queue, tick, settled) := s.queue.tick delivered
  let resolved := match settled, tick.outcome? with
    | some c, some outcome => ⟨c.arrival, outcome⟩ :: s.resolved
    | _, _ => s.resolved
  ({ s with queue, sent := due.toList ++ s.sent, resolved }, .ticked tick due)

def close (s : Session) : Session :=
  { s with
    closed := true
    queue := { s.queue with pending := [] }
    resolved := s.queue.pending.map (⟨·.arrival, .failed .cancelled⟩) ++ s.resolved }

def step (s : Session) (action : Action) : Session × Reply :=
  if s.closed then (s, .nothing)
  else
    match action with
    | .push opcode arguments =>
      ({ s with queue := s.queue.push opcode arguments none }, .pushed s.queue.arrivals opcode)
    | .acknowledge opcode status =>
      let (queue, matched) := s.queue.acknowledge opcode status
      ({ s with queue }, .acknowledged matched)
    | .tick delivered => s.tick delivered
    | .clearLast => ({ s with queue := s.queue.clearLast }, .nothing)
    | .release arrival => ({ s with released := arrival :: s.released }, .nothing)
    | .close => (s.close, .nothing)

def run (s : Session) (actions : List Action) : Session :=
  actions.foldl (fun s a => (s.step a).1) s

end Session

end VehicleLink.Queue
