import VehicleLink.Command.Status
import VehicleLink.Number.Binary

/-! Commands waiting for their acknowledgement, lowest opcode first and in order of arrival
among equal ones.  Only the first is ever in flight: every tick sends it again until an
acknowledgement settles it or its attempts are used up. -/

namespace VehicleLink

abbrev Arguments := Vector Single 7

structure Command where
  opcode : UInt16
  arguments : Arguments
  attempts : Nat
  status : AckStatus
  /-- How many commands were queued before this one. -/
  arrival : Nat
  /-- Under what to report the outcome, if anybody waits for it. -/
  handle : Option Nat
  deriving DecidableEq

structure LastCommand where
  opcode : UInt16
  status : AckStatus
  deriving DecidableEq, Repr

inductive Tick
  | idle
  | sent (opcode : UInt16) (attempt : Nat)
  | sendFailed (opcode : UInt16) (attempt : Nat)
  | completed (opcode : UInt16)
  | rejected (opcode : UInt16) (status : AckStatus)
  | exhausted (opcode : UInt16) (attempts : Nat)
  deriving DecidableEq, Repr

def Tick.outcome? : Tick → Option Outcome
  | .completed _ => some .accepted
  | .rejected opcode status => some (.failed (.rejected opcode status))
  | .exhausted opcode attempts => some (.failed (.timedOut opcode attempts))
  | _ => none

/-- What becomes of a command at the head; `none` if it is to be sent. -/
def Command.verdict? (c : Command) (retries : Nat) : Option Tick :=
  if c.status = .accepted then some (.completed c.opcode)
  else if c.status.isRejection then some (.rejected c.opcode c.status)
  else if retries < c.attempts then some (.exhausted c.opcode c.attempts)
  else none

structure Queue where
  retries : Nat
  pending : List Command
  arrivals : Nat
  last : Option LastCommand
  deriving DecidableEq

namespace Queue

def empty (retries : Nat) : Queue := ⟨retries, [], 0, none⟩

/-- Puts a command behind all those that go before or beside it. -/
def enqueue (c : Command) : List Command → List Command
  | [] => [c]
  | d :: rest => if d.opcode ≤ c.opcode then d :: enqueue c rest else c :: d :: rest

def push (q : Queue) (opcode : UInt16) (arguments : Arguments) (handle : Option Nat) : Queue :=
  { q with
    pending := enqueue ⟨opcode, arguments, 0, .pending, q.arrivals, handle⟩ q.pending
    arrivals := q.arrivals + 1 }

def head? (q : Queue) : Option Command := q.pending.head?

/-- Records an acknowledgement, unless it is not for the head; says whether it was. -/
def acknowledge (q : Queue) (opcode : UInt16) (status : AckStatus) : Queue × Bool :=
  match q.pending with
  | c :: rest =>
    if c.opcode = opcode then ({ q with pending := { c with status } :: rest }, true)
    else (q, false)
  | [] => (q, false)

def due? (q : Queue) : Option Command :=
  q.head?.bind fun c => if (c.verdict? q.retries).isNone then some c else none

/-- Settles the head, or else counts an attempt to send it, whose success is `delivered`.
The last part is the command that is settled, if one is. -/
def tick (q : Queue) (delivered : Bool) : Queue × Tick × Option Command :=
  match q.pending with
  | [] => (q, .idle, none)
  | c :: rest =>
    let last := some ⟨c.opcode, c.status⟩
    match c.verdict? q.retries with
    | some verdict => ({ q with pending := rest, last }, verdict, some c)
    | none =>
      let attempts := c.attempts + 1
      ({ q with pending := { c with attempts } :: rest, last },
        if delivered then .sent c.opcode attempts else .sendFailed c.opcode attempts, none)

def clearLast (q : Queue) : Queue := { q with last := none }

end Queue

end VehicleLink
