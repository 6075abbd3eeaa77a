import VehicleLink.Command.Session

namespace VehicleLink

def AckStatus.Settles (status : AckStatus) : Prop :=
  status = .accepted ∨ status.isRejection = true

instance (status : AckStatus) : Decidable status.Settles :=
  inferInstanceAs (Decidable (_ ∨ _))

def Outcome.answer? : Outcome → Option AckStatus
  | .accepted => some .accepted
  | .failed (.rejected _ status) => some status
  | _ => none

theorem Command.verdict?_of_settles {c : Command} (retries : Nat) (h : c.status.Settles) :
    ∃ verdict outcome, c.verdict? retries = some verdict ∧ verdict.outcome? = some outcome
      ∧ outcome.answer? = some c.status := by
  by_cases accepted : c.status = .accepted
  · exact ⟨.completed c.opcode, .accepted, by simp [verdict?, accepted], rfl,
      by simp [Outcome.answer?, accepted]⟩
  · have rejected : c.status.isRejection := h.resolve_left accepted
    exact ⟨.rejected c.opcode c.status, .failed (.rejected c.opcode c.status),
      by simp [verdict?, accepted, rejected], rfl, rfl⟩

theorem Command.verdict?_of_not_settles {c : Command} (retries : Nat) (h : ¬ c.status.Settles) :
    c.verdict? retries =
      if retries < c.attempts then some (.exhausted c.opcode c.attempts) else none := by
  obtain ⟨accepted, rejected⟩ := not_or.mp h
  simp [verdict?, accepted, rejected]

theorem Command.outcome_of_verdict {c : Command} {retries verdict}
    (h : c.verdict? retries = some verdict) :
    ∃ outcome, verdict.outcome? = some outcome
      ∧ outcome.answer? = if c.status.Settles then some c.status else none := by
  by_cases settles : c.status.Settles
  · obtain ⟨verdict', outcome, same, ends, answer⟩ := verdict?_of_settles retries settles
    rw [h, Option.some.injEq] at same
    exact ⟨outcome, same ▸ ends, by simp [answer, settles]⟩
  · rw [verdict?_of_not_settles _ settles] at h
    split at h
    · cases h
      exact ⟨_, rfl, by simp [Outcome.answer?, settles]⟩
    · cases h

namespace Queue

theorem enqueue_perm (c : Command) (l : List Command) : (enqueue c l).Perm (c :: l) := by
  induction l with
  | nil => rfl
  | cons d rest ih =>
    rw [enqueue]
    split
    · exact (ih.cons d).trans (.swap c d rest)
    · rfl

namespace Session

/-- Everything an action can do to a session. -/
inductive Move (s : Session) : Action → Session → Prop
  | closed {action} : s.closed = true → Move s action s
  | pushed {opcode arguments} : s.closed = false →
    Move s (.push opcode arguments) { s with queue := s.queue.push opcode arguments none }
  | answered {c rest status} : s.closed = false → s.queue.pending = c :: rest →
    Move s (.acknowledge c.opcode status)
      { s with queue := { s.queue with pending := { c with status } :: rest } }
  | unmatched {opcode status} : s.closed = false → (∀ c ∈ s.queue.head?, c.opcode ≠ opcode) →
    Move s (.acknowledge opcode status) s
  | idle {delivered} : s.closed = false → s.queue.pending = [] → Move s (.tick delivered) s
  | settled {c rest verdict outcome delivered} : s.closed = false → s.queue.pending = c :: rest →
    c.verdict? s.queue.retries = some verdict → verdict.outcome? = some outcome →
    Move s (.tick delivered)
      { s with
        queue := { s.queue with pending := rest, last := some ⟨c.opcode, c.status⟩ }
        resolved := ⟨c.arrival, outcome⟩ :: s.resolved }
  | sent {c rest delivered} : s.closed = false → s.queue.pending = c :: rest →
    c.verdict? s.queue.retries = none →
    Move s (.tick delivered)
      { s with
        queue :=
          { s.queue with
            pending := { c with attempts := c.attempts + 1 } :: rest
            last := some ⟨c.opcode, c.status⟩ }
        sent := c :: s.sent }
  | forgotten : s.closed = false → Move s .clearLast { s with queue := s.queue.clearLast }
  | released {arrival} : s.closed = false →
    Move s (.release arrival) { s with released := arrival :: s.released }
  | cancelled : s.closed = false → Move s .close s.close

theorem move_acknowledge {s : Session} (isOpen : s.closed = false) (opcode status) :
    Move s (.acknowledge opcode status) (s.step (.acknowledge opcode status)).1 := by
  rw [step, if_neg (by simp [isOpen]), acknowledge.eq_def]
  cases pending : s.queue.pending with
  | nil => exact .unmatched isOpen (by simp [head?, pending])
  | cons c rest =>
    by_cases same : c.opcode = opcode
    · subst same
      simpa using Move.answered isOpen pending
    · simpa [same] using Move.unmatched isOpen (by simpa [head?, pending] using same)

theorem move_tick {s : Session} (isOpen : s.closed = false) (delivered) :
    Move s (.tick delivered) (s.step (.tick delivered)).1 := by
  rw [step, if_neg (by simp [isOpen])]
  simp only [tick, Queue.tick.eq_def, due?, head?]
  cases pending : s.queue.pending with
  | nil => simpa [pending] using Move.idle isOpen pending
  | cons c rest =>
    cases verdict : c.verdict? s.queue.retries with
    | none => simpa [verdict] using Move.sent isOpen pending verdict
    | some v =>
      obtain ⟨outcome, ends, _⟩ := Command.outcome_of_verdict verdict
      simpa [verdict, ends] using Move.settled isOpen pending verdict ends

theorem move_step (s : Session) (action : Action) : Move s action (s.step action).1 := by
  cases isOpen : s.closed with
  | true => simpa [step, isOpen] using Move.closed isOpen
  | false =>
    cases action with
    | push opcode arguments => simpa [step, isOpen] using Move.pushed isOpen
    | acknowledge opcode status => exact move_acknowledge isOpen opcode status
    | tick delivered => exact move_tick isOpen delivered
    | clearLast => simpa [step, isOpen] using Move.forgotten isOpen
    | release arrival => simpa [step, isOpen] using Move.released isOpen
    | close => simpa [step, isOpen] using Move.cancelled isOpen

end Session

end Queue

end VehicleLink
