import VehicleLink.Proofs.Command.Outcomes

namespace VehicleLink

theorem Command.of_exhausted {c : Command} {retries attempts : Nat} {opcode : UInt16}
    (h : c.verdict? retries = some (.exhausted opcode attempts)) :
    c.opcode = opcode ∧ c.attempts = attempts ∧ retries < c.attempts := by
  rw [verdict?] at h
  split at h
  · cases h
  split at h
  · cases h
  split at h
  · next spent =>
    cases h
    exact ⟨rfl, rfl, spent⟩
  · cases h

namespace Queue.Session

/-- How many attempts had been made each time a command was sent, in order of time. -/
def trials (sent : List Command) (arrival : Nat) : List Nat :=
  ((sent.filter (·.arrival = arrival)).map Command.attempts).reverse

theorem trials_cons (c : Command) (sent : List Command) (arrival : Nat) :
    trials (c :: sent) arrival =
      if c.arrival = arrival then trials sent arrival ++ [c.attempts] else trials sent arrival := by
  by_cases same : c.arrival = arrival <;> simp [trials, same]

theorem trials_of_not_wasSent {s : Session} {arrival : Nat} (h : ¬ s.WasSent arrival) :
    trials s.sent arrival = [] := by
  have none : s.sent.filter (·.arrival = arrival) = [] :=
    List.filter_eq_nil_iff.mpr fun c isSent => by simpa using fun same => h ⟨c, isSent, same⟩
  rw [trials, none]
  rfl

structure Counts (s : Session) (retries : Nat) (orders : List (UInt16 × Arguments)) : Prop where
  budget : s.queue.retries = retries
  arrivals : s.closed = false → s.queue.arrivals = orders.length
  pending : ∀ c ∈ s.queue.pending, orders[c.arrival]? = some (c.opcode, c.arguments)
    ∧ trials s.sent c.arrival = List.range c.attempts
  sent : ∀ c ∈ s.sent, orders[c.arrival]? = some (c.opcode, c.arguments)
  counted : ∀ arrival, ∃ n ≤ retries + 1, trials s.sent arrival = List.range n
  timedOut : ∀ res ∈ s.resolved, ∀ opcode attempts,
    res.outcome = .failed (.timedOut opcode attempts) →
      attempts = retries + 1 ∧ trials s.sent res.arrival = List.range (retries + 1)

theorem counts_start (retries : Nat) : (start retries).Counts retries [] where
  budget := rfl
  arrivals _ := rfl
  pending := by simp [start, Queue.empty]
  sent := by simp [start]
  counted _ := ⟨0, Nat.zero_le _, rfl⟩
  timedOut := by simp [start]

namespace Counts

variable {s s' : Session} {retries : Nat} {ordered : List (UInt16 × Arguments)}
  {log : List Receipt} {c : Command} {rest : List Command}

theorem attempts_le (h : s.Counts retries ordered) (isPending : c ∈ s.queue.pending) :
    c.attempts ≤ retries + 1 := by
  obtain ⟨n, bounded, counted⟩ := h.counted c.arrival
  have same := congrArg List.length ((h.pending c isPending).2.symm.trans counted)
  rw [List.length_range, List.length_range] at same
  exact same ▸ bounded

theorem push (h : s.Counts retries ordered) (isOpen : s.closed = false)
    (accounted : s.Accounted log) (opcode : UInt16) (arguments : Arguments) :
    Counts { s with queue := s.queue.push opcode arguments none } retries
      (ordered ++ [(opcode, arguments)]) := by
  have arrivals := h.arrivals isOpen
  refine ⟨h.budget, fun _ => ?_, ?_, fun c isSent => getElem?_append_of_eq_some _ (h.sent c isSent),
    h.counted, h.timedOut⟩
  · rw [List.length_append, ← arrivals]
    rfl
  · intro c isPending
    rcases List.mem_cons.mp ((enqueue_perm _ _).mem_iff.mp isPending) with rfl | old
    · refine ⟨?_, trials_of_not_wasSent (accounted.unused _ (Nat.le_refl _)).notSent⟩
      rw [arrivals, List.getElem?_concat_length]
    · exact (h.pending c old).imp_left (getElem?_append_of_eq_some _)

theorem acknowledge (h : s.Counts retries ordered) (pending : s.queue.pending = c :: rest)
    (status : AckStatus) :
    Counts { s with queue := { s.queue with pending := { c with status } :: rest } } retries
      ordered := by
  have counted := h.pending
  rw [pending] at counted
  exact ⟨h.budget, h.arrivals, by simpa using counted, h.sent, h.counted, h.timedOut⟩

theorem settle {verdict : Tick} {outcome : Outcome} (h : s.Counts retries ordered)
    (pending : s.queue.pending = c :: rest) (ends : c.verdict? s.queue.retries = some verdict)
    (becomes : verdict.outcome? = some outcome) (last : Option LastCommand) :
    Counts
      { s with
        queue := { s.queue with pending := rest, last }
        resolved := ⟨c.arrival, outcome⟩ :: s.resolved } retries ordered := by
  have isPending : c ∈ s.queue.pending := by simp [pending]
  have counted := h.pending
  rw [pending] at counted
  refine ⟨h.budget, h.arrivals, (List.forall_mem_cons.mp counted).2, h.sent, h.counted,
    List.forall_mem_cons.mpr ⟨?_, h.timedOut⟩⟩
  intro opcode attempts givenUp
  have spent : c.attempts = attempts ∧ retries < c.attempts := by
    rcases Command.outcome_cases ends becomes with ⟨-, same⟩ | ⟨-, same⟩ | ⟨-, spent, same⟩
    · cases same.symm.trans givenUp
    · cases same.symm.trans givenUp
    · cases same.symm.trans givenUp
      exact ⟨rfl, h.budget ▸ spent⟩
  -- The head is given up once it exceeds the budget, which it can do by one at most.
  have most := h.attempts_le isPending
  have all : c.attempts = retries + 1 := by omega
  exact ⟨spent.1.symm.trans all, all ▸ (h.pending c isPending).2⟩

theorem send (h : s.Counts retries ordered) (accounted : s.Accounted log)
    (pending : s.queue.pending = c :: rest) (goes : c.verdict? s.queue.retries = none)
    (last : Option LastCommand) :
    Counts
      { s with
        queue :=
          { s.queue with pending := { c with attempts := c.attempts + 1 } :: rest, last }
        sent := c :: s.sent } retries ordered := by
  have counted := h.pending
  rw [pending] at counted
  obtain ⟨⟨own, head⟩, tail⟩ := List.forall_mem_cons.mp counted
  obtain ⟨restDistinct, resolvedDistinct⟩ := accounted.head_distinct pending
  have again : trials (c :: s.sent) c.arrival = List.range (c.attempts + 1) := by
    rw [trials_cons, if_pos rfl, head, List.range_succ]
  have kept {arrival : Nat} (other : arrival ≠ c.arrival) :
      trials (c :: s.sent) arrival = trials s.sent arrival := by
    rw [trials_cons, if_neg other.symm]
  have within := c.attempts_le_of_verdict goes
  rw [h.budget] at within
  refine ⟨h.budget, h.arrivals, List.forall_mem_cons.mpr ⟨⟨own, again⟩, fun d isRest => ?_⟩,
    List.forall_mem_cons.mpr ⟨own, h.sent⟩, fun arrival => ?_, ?_⟩
  · exact (tail d isRest).imp_right (kept (restDistinct d isRest)).trans
  · by_cases other : arrival = c.arrival
    · exact ⟨c.attempts + 1, Nat.succ_le_succ within, other ▸ again⟩
    · obtain ⟨n, bounded, counted⟩ := h.counted arrival
      exact ⟨n, bounded, (kept other).trans counted⟩
  · intro res isResolved opcode attempts givenUp
    refine (h.timedOut res isResolved opcode attempts givenUp).imp_right ?_
    exact (kept (resolvedDistinct res isResolved)).trans

theorem append (h : s.Counts retries ordered) (isClosed : s.closed = true)
    (ignored : List (UInt16 × Arguments)) : s.Counts retries (ordered ++ ignored) where
  budget := h.budget
  arrivals isOpen := by cases isClosed.symm.trans isOpen
  pending c isPending := (h.pending c isPending).imp_left (getElem?_append_of_eq_some ignored)
  sent c isSent := getElem?_append_of_eq_some ignored (h.sent c isSent)
  counted := h.counted
  timedOut := h.timedOut

theorem close (h : s.Counts retries ordered) : s.close.Counts retries ordered where
  budget := h.budget
  arrivals := nofun
  pending := nofun
  sent := h.sent
  counted := h.counted
  timedOut := by
    intro res isResolved opcode attempts givenUp
    rcases List.mem_append.mp isResolved with cancelled | old
    · obtain ⟨c, -, rfl⟩ := List.mem_map.mp cancelled
      cases givenUp
    · exact h.timedOut res old opcode attempts givenUp

theorem step (h : s.Counts retries ordered) (accounted : s.Accounted log) (action : Action) :
    (s.step action).1.Counts retries (ordered ++ orders [action]) := by
  generalize moved : (s.step action).1 = s'
  have move : s.Move action s' := moved ▸ s.move_step action
  have unpushed {s' : Session} (h' : s'.Counts retries ordered) :
      s'.Counts retries (ordered ++ []) := (List.append_nil ordered).symm ▸ h'
  cases move with
  | closed isClosed => exact h.append isClosed _
  | pushed isOpen => exact h.push isOpen accounted _ _
  | answered _ pending => exact unpushed (h.acknowledge pending _)
  | unmatched => exact unpushed h
  | idle => exact unpushed h
  | settled _ pending ends becomes => exact unpushed (h.settle pending ends becomes _)
  | sent _ pending goes => exact unpushed (h.send accounted pending goes _)
  | forgotten =>
    exact unpushed ⟨h.budget, h.arrivals, h.pending, h.sent, h.counted, h.timedOut⟩
  | released => exact unpushed ⟨h.budget, h.arrivals, h.pending, h.sent, h.counted, h.timedOut⟩
  | cancelled => exact unpushed h.close

theorem run (h : s.Counts retries ordered) (accounted : s.Accounted log) (actions : List Action) :
    (s.run actions).Counts retries (ordered ++ orders actions) := by
  induction actions generalizing s ordered log with
  | nil =>
    rw [show orders [] = [] from rfl, List.append_nil]
    exact h
  | cons action rest ih =>
    rw [orders_cons, ← List.append_assoc]
    exact ih (h.step accounted action) (accounted.step action)

end Counts

theorem of_exhausted {s : Session} {delivered : Bool} {opcode : UInt16} {attempts : Nat}
    {sent : Option Command}
    (h : (s.step (.tick delivered)).2 = .ticked (.exhausted opcode attempts) sent) :
    ∃ c ∈ s.queue.pending, c.opcode = opcode ∧ c.attempts = attempts
      ∧ s.queue.retries < c.attempts := by
  rw [Session.step] at h
  split at h
  · cases h
  · simp only [tick, Queue.tick.eq_def, Reply.ticked.injEq] at h
    cases pending : s.queue.pending with
    | nil => simp [pending] at h
    | cons c rest =>
      cases verdict : c.verdict? s.queue.retries with
      | none => cases delivered <;> simp [pending, verdict] at h
      | some v =>
        obtain rfl : v = .exhausted opcode attempts := by simpa [pending, verdict] using h.1
        exact ⟨c, List.mem_cons_self, Command.of_exhausted verdict⟩

structure WithinBudget (s : Session) (retries : Nat) (orders : List (UInt16 × Arguments)) :
    Prop where
  sent : ∀ c ∈ s.sent, orders[c.arrival]? = some (c.opcode, c.arguments)
  counted : ∀ arrival, ∃ n ≤ retries + 1, trials s.sent arrival = List.range n
  timedOut : ∀ res ∈ s.resolved, ∀ opcode attempts,
    res.outcome = .failed (.timedOut opcode attempts) →
      attempts = retries + 1 ∧ Session.trials s.sent res.arrival = List.range (retries + 1)
  exhausted : ∀ delivered opcode attempts sent,
    (s.step (.tick delivered)).2 = .ticked (.exhausted opcode attempts) sent →
      attempts = retries + 1 ∧ ∃ c ∈ s.queue.pending, c.opcode = opcode
        ∧ Session.trials s.sent c.arrival = List.range (retries + 1)

/-- Each command is sent with zero, one, two and so on attempts before, at most once more than it
may be sent again, and it is given up only after that. -/
theorem withinBudget_run (retries : Nat) (actions : List Action) :
    ((start retries).run actions).WithinBudget retries (orders actions) := by
  have h := (counts_start retries).run (accounted_start retries) actions
  rw [List.nil_append] at h
  refine ⟨h.sent, h.counted, h.timedOut, fun delivered opcode attempts sent givenUp => ?_⟩
  obtain ⟨c, isPending, same, rfl, spent⟩ := of_exhausted givenUp
  rw [h.budget] at spent
  have most := h.attempts_le isPending
  have all : c.attempts = retries + 1 := by omega
  exact ⟨all, c, isPending, same, all ▸ (h.pending c isPending).2⟩

end Queue.Session

end VehicleLink
