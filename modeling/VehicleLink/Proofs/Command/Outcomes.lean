import VehicleLink.Proofs.Command.Receipts

namespace VehicleLink

/-- The outcome is the one that the last acknowledgement taken for a command calls for, of which
there need not be any. -/
structure Outcome.Follows (outcome : Outcome) (retries : Nat) (opcode : UInt16)
    (last : Option AckStatus) : Prop where
  accepted : outcome = .accepted ↔ last = some .accepted
  rejected : ∀ status,
    outcome = .failed (.rejected opcode status) ↔ last = some status ∧ status.isRejection = true
  timedOut : outcome = .failed (.timedOut opcode (retries + 1)) ↔ ∀ status ∈ last, ¬ status.Settles

namespace Outcome.Follows

variable {retries : Nat} {opcode : UInt16}

theorem completed : Outcome.accepted.Follows retries opcode (some .accepted) where
  accepted := by simp
  rejected _ := ⟨nofun, fun ⟨same, refused⟩ => by cases same; cases refused⟩
  timedOut := ⟨nofun, fun inert => absurd (.inl rfl) (inert _ rfl)⟩

theorem refused {status : AckStatus} (h : status.isRejection = true) :
    (Outcome.failed (.rejected opcode status)).Follows retries opcode (some status) where
  accepted := ⟨nofun, fun same => by cases same; cases h⟩
  rejected _ := by
    constructor
    · intro same
      cases same
      exact ⟨rfl, h⟩
    · rintro ⟨same, _⟩
      cases same
      rfl
  timedOut := ⟨nofun, fun inert => absurd (.inr h) (inert _ rfl)⟩

theorem exhausted {last : Option AckStatus} (inert : ∀ status ∈ last, ¬ status.Settles) :
    (Outcome.failed (.timedOut opcode (retries + 1))).Follows retries opcode last where
  accepted := ⟨nofun, fun same => absurd (.inl rfl) (inert _ same)⟩
  rejected _ := ⟨nofun, fun ⟨same, refused⟩ => absurd (.inr refused) (inert _ same)⟩
  timedOut := ⟨fun _ => inert, fun _ => rfl⟩

end Outcome.Follows

namespace Command

variable {c : Command} {retries : Nat} {verdict : Tick} {outcome : Outcome}

theorem attempts_le_of_verdict (goes : c.verdict? retries = none) : c.attempts ≤ retries := by
  rw [verdict?] at goes
  split at goes
  · cases goes
  split at goes
  · cases goes
  split at goes
  · cases goes
  · omega

theorem outcome_cases (ends : c.verdict? retries = some verdict)
    (becomes : verdict.outcome? = some outcome) :
    (c.status = .accepted ∧ outcome = .accepted)
      ∨ (c.status.isRejection = true ∧ outcome = .failed (.rejected c.opcode c.status))
      ∨ (¬ c.status.Settles ∧ retries < c.attempts
          ∧ outcome = .failed (.timedOut c.opcode c.attempts)) := by
  rw [verdict?] at ends
  split at ends
  · next accepted =>
    cases ends
    exact .inl ⟨accepted, (Option.some.inj becomes).symm⟩
  split at ends
  · next refused =>
    cases ends
    exact .inr (.inl ⟨refused, (Option.some.inj becomes).symm⟩)
  split at ends
  · next notAccepted notRefused spent =>
    cases ends
    exact .inr (.inr ⟨not_or.mpr ⟨notAccepted, notRefused⟩, spent, (Option.some.inj becomes).symm⟩)
  · cases ends

theorem follows_of_verdict {last : Option AckStatus} (status : c.status = last.getD .pending)
    (tried : c.attempts ≤ retries + 1) (ends : c.verdict? retries = some verdict)
    (becomes : verdict.outcome? = some outcome) : outcome.Follows retries c.opcode last := by
  have known (settles : c.status.Settles) : last = some c.status := by
    cases last with
    | none =>
      rw [status] at settles
      exact absurd settles (by decide)
    | some answer => rw [status, Option.getD_some]
  rcases outcome_cases ends becomes with ⟨accepted, rfl⟩ | ⟨refused, rfl⟩ | ⟨inert, spent, rfl⟩
  · rw [known (.inl accepted), accepted]
    exact .completed
  · rw [known (.inr refused)]
    exact .refused refused
  · rw [show c.attempts = retries + 1 by omega]
    refine .exhausted ?_
    rintro answer rfl
    rwa [status] at inert

end Command

namespace Queue.Session

def orders (actions : List Action) : List (UInt16 × Arguments) :=
  actions.filterMap fun
    | .push opcode arguments => some (opcode, arguments)
    | _ => none

def pushed (actions : List Action) : List UInt16 := (orders actions).map Prod.fst

theorem orders_append (first rest : List Action) :
    orders (first ++ rest) = orders first ++ orders rest :=
  List.filterMap_append

theorem orders_cons (action : Action) (rest : List Action) :
    orders (action :: rest) = orders [action] ++ orders rest :=
  orders_append [action] rest

theorem pushed_append (first rest : List Action) :
    pushed (first ++ rest) = pushed first ++ pushed rest := by
  rw [pushed, orders_append, List.map_append]
  rfl

theorem pushed_cons (action : Action) (rest : List Action) :
    pushed (action :: rest) = pushed [action] ++ pushed rest :=
  pushed_append [action] rest

theorem getElem?_append_of_eq_some {α : Type} {l : List α} {i : Nat} {a : α} (more : List α)
    (known : l[i]? = some a) : (l ++ more)[i]? = some a := by
  rw [List.getElem?_append_left (List.getElem?_eq_some_iff.mp known).1, known]

/-- What is known of the commands of a session that is open.  The `opcodes` are those of the
commands pushed, and the `log` holds the acknowledgements taken for them. -/
structure Enrolled (s : Session) (retries : Nat) (opcodes : List UInt16) (log : List Receipt) :
    Prop where
  isOpen : s.closed = false
  budget : s.queue.retries = retries
  arrivals : s.queue.arrivals = opcodes.length
  accounted : s.Accounted log
  once : (s.queue.pending.map Command.arrival ++ s.resolved.map Resolution.arrival).Perm
    (List.range opcodes.length)
  opcode : ∀ c ∈ s.queue.pending, opcodes[c.arrival]? = some c.opcode
  attempts : ∀ c ∈ s.queue.pending, c.attempts ≤ retries + 1
  outcome : ∀ res ∈ s.resolved, ∃ opcode ∈ opcodes[res.arrival]?,
    res.outcome.Follows retries opcode ((latest? log res.arrival).map Receipt.status)

theorem enrolled_start (retries : Nat) : (start retries).Enrolled retries [] [] where
  isOpen := rfl
  budget := rfl
  arrivals := rfl
  accounted := accounted_start retries
  once := .nil
  opcode := by simp [start, empty]
  attempts := by simp [start, empty]
  outcome := by simp [start]

namespace Enrolled

variable {s s' : Session} {retries : Nat} {opcodes : List UInt16} {log log' : List Receipt}

theorem frame (h : s.Enrolled retries opcodes log)
    (queue : s'.queue = { s.queue with last := s'.queue.last })
    (closed : s'.closed = s.closed) (resolved : s'.resolved = s.resolved)
    (accounted : s'.Accounted log) : s'.Enrolled retries opcodes log where
  isOpen := closed.trans h.isOpen
  budget := by rw [queue]; exact h.budget
  arrivals := by rw [queue]; exact h.arrivals
  accounted := accounted
  once := by rw [queue, resolved]; exact h.once
  opcode := by rw [queue]; exact h.opcode
  attempts := by rw [queue]; exact h.attempts
  outcome := by rw [resolved]; exact h.outcome

theorem push (h : s.Enrolled retries opcodes log) (opcode : UInt16) (arguments : Arguments)
    (accounted : Accounted { s with queue := s.queue.push opcode arguments none } log) :
    Enrolled { s with queue := s.queue.push opcode arguments none } retries (opcodes ++ [opcode])
      log := by
  have members := enqueue_perm ⟨opcode, arguments, 0, .pending, s.queue.arrivals, none⟩
    s.queue.pending
  refine ⟨h.isOpen, h.budget, ?_, accounted, ?_, ?_, ?_, ?_⟩
  · simp [Queue.push, h.arrivals]
  · rw [List.length_append, List.length_singleton, List.range_succ]
    refine ((members.map Command.arrival).append_right _).trans ?_
    rw [List.map_cons, List.cons_append, h.arrivals]
    exact (h.once.cons _).trans (List.perm_append_singleton _ _).symm
  · intro c isPending
    rcases List.mem_cons.mp (members.mem_iff.mp isPending) with rfl | old
    · simp [h.arrivals]
    · exact getElem?_append_of_eq_some _ (h.opcode c old)
  · intro c isPending
    rcases List.mem_cons.mp (members.mem_iff.mp isPending) with rfl | old
    · exact Nat.zero_le _
    · exact h.attempts c old
  · intro res isResolved
    obtain ⟨code, known, follows⟩ := h.outcome res isResolved
    exact ⟨code, getElem?_append_of_eq_some _ known, follows⟩

theorem acknowledge {c : Command} {rest : List Command} (h : s.Enrolled retries opcodes log)
    (pending : s.queue.pending = c :: rest) (status : AckStatus) (early : Bool)
    (accounted : Accounted
      { s with queue := { s.queue with pending := { c with status } :: rest } }
      (⟨c.arrival, status, early⟩ :: log)) :
    Enrolled { s with queue := { s.queue with pending := { c with status } :: rest } } retries
      opcodes (⟨c.arrival, status, early⟩ :: log) := by
  have once := h.once
  have opcode := h.opcode
  have attempts := h.attempts
  rw [pending] at once opcode attempts
  refine ⟨h.isOpen, h.budget, h.arrivals, accounted, by simpa using once, by simpa using opcode,
    by simpa using attempts, ?_⟩
  intro res isResolved
  rw [latest?_cons, if_neg ((h.accounted.head_distinct pending).2 res isResolved).symm]
  exact h.outcome res isResolved

theorem send {c : Command} {rest : List Command} (h : s.Enrolled retries opcodes log)
    (pending : s.queue.pending = c :: rest) (goes : c.verdict? s.queue.retries = none)
    (last : Option LastCommand)
    (accounted : Accounted
      { s with
        queue :=
          { s.queue with pending := { c with attempts := c.attempts + 1 } :: rest, last }
        sent := c :: s.sent } log) :
    Enrolled
      { s with
        queue :=
          { s.queue with pending := { c with attempts := c.attempts + 1 } :: rest, last }
        sent := c :: s.sent } retries opcodes log := by
  have once := h.once
  have opcode := h.opcode
  have attempts := h.attempts
  rw [pending] at once opcode attempts
  refine ⟨h.isOpen, h.budget, h.arrivals, accounted, by simpa using once, by simpa using opcode,
    ?_, h.outcome⟩
  intro d isPending
  rcases List.mem_cons.mp isPending with rfl | isRest
  · have within := c.attempts_le_of_verdict goes
    rw [h.budget] at within
    exact Nat.succ_le_succ within
  · exact attempts d (by simp [isRest])

theorem settle {c : Command} {rest : List Command} {verdict : Tick} {outcome : Outcome}
    (h : s.Enrolled retries opcodes log) (pending : s.queue.pending = c :: rest)
    (ends : c.verdict? s.queue.retries = some verdict) (becomes : verdict.outcome? = some outcome)
    (last : Option LastCommand)
    (accounted : Accounted
      { s with
        queue := { s.queue with pending := rest, last }
        resolved := ⟨c.arrival, outcome⟩ :: s.resolved } log) :
    Enrolled
      { s with
        queue := { s.queue with pending := rest, last }
        resolved := ⟨c.arrival, outcome⟩ :: s.resolved } retries opcodes log := by
  have once := h.once
  have opcode := h.opcode
  have attempts := h.attempts
  rw [pending] at once opcode attempts
  refine ⟨h.isOpen, h.budget, h.arrivals, accounted, List.perm_middle.trans once, ?_, ?_, ?_⟩
  · exact fun d isRest => opcode d (by simp [isRest])
  · exact fun d isRest => attempts d (by simp [isRest])
  · intro res isResolved
    rcases List.mem_cons.mp isResolved with rfl | old
    · have status := (h.accounted.head_tracked pending).1.status
      refine ⟨c.opcode, opcode c (by simp), ?_⟩
      refine Command.follows_of_verdict ?_ (attempts c (by simp)) (h.budget ▸ ends) becomes
      cases last : latest? log c.arrival <;> simpa [last] using status
    · exact h.outcome res old

theorem step (h : s.Enrolled retries opcodes log) {action : Action} (goesOn : action ≠ .close) :
    (s.step action).1.Enrolled retries (opcodes ++ pushed [action])
      ((s.receipt? action).toList ++ log) := by
  have accounted := h.accounted.step action
  generalize moved : (s.step action).1 = s' at accounted ⊢
  have move : s.Move action s' := moved ▸ s.move_step action
  have unpushed {log'} (h' : s'.Enrolled retries opcodes log') :
      s'.Enrolled retries (opcodes ++ []) log' := (List.append_nil opcodes).symm ▸ h'
  cases move with
  | closed isClosed => simp [h.isOpen] at isClosed
  | pushed => exact h.push _ _ accounted
  | answered isOpen pending =>
    rw [receipt?_answered isOpen pending] at accounted ⊢
    exact unpushed (h.acknowledge pending _ _ accounted)
  | unmatched _ other =>
    rw [receipt?_unmatched other]
    exact unpushed h
  | idle => exact unpushed h
  | settled _ pending ends becomes => exact unpushed (h.settle pending ends becomes _ accounted)
  | sent _ pending goes => exact unpushed (h.send pending goes _ accounted)
  | forgotten => exact unpushed (h.frame rfl rfl rfl accounted)
  | released => exact unpushed (h.frame rfl rfl rfl accounted)
  | cancelled => exact absurd rfl goesOn

theorem run (h : s.Enrolled retries opcodes log) {actions : List Action}
    (goesOn : .close ∉ actions) :
    (s.run actions).Enrolled retries (opcodes ++ pushed actions) (s.receipts actions ++ log) := by
  induction actions generalizing s opcodes log with
  | nil =>
    rw [show pushed [] = [] from rfl, List.append_nil]
    exact h
  | cons action rest ih =>
    obtain ⟨first, later⟩ := not_or.mp (mt List.mem_cons.mpr goesOn)
    rw [pushed_cons, receipts, ← List.append_assoc opcodes, List.append_assoc _ _ log]
    exact ih (h.step (Ne.symm first)) later

end Enrolled

theorem resolved_step (s : Session) {action : Action} (goesOn : action ≠ .close) :
    ∃ res : Option Resolution, (s.step action).1.resolved = res.toList ++ s.resolved
      ∧ (res.isSome → ∃ delivered, action = .tick delivered) := by
  generalize moved : (s.step action).1 = s'
  have move : s.Move action s' := moved ▸ s.move_step action
  cases move with
  | settled => exact ⟨some _, rfl, fun _ => ⟨_, rfl⟩⟩
  | cancelled => exact absurd rfl goesOn
  | _ => exact ⟨none, rfl, nofun⟩

structure ResolvesOnce (s : Session) (retries : Nat) (opcodes : List UInt16) (log : List Receipt) :
    Prop where
  /-- Every command is pending or resolved, not both, and resolved no more than once. -/
  once : (s.queue.pending.map Command.arrival ++ s.resolved.map Resolution.arrival).Perm
    (List.range opcodes.length)
  /-- A tick resolves at most one command, and no other action resolves any, the end apart. -/
  single : ∀ action, action ≠ .close → ∃ res : Option Resolution,
    (s.step action).1.resolved = res.toList ++ s.resolved
      ∧ (res.isSome → ∃ delivered, action = .tick delivered)
  outcome : ∀ res ∈ s.resolved, ∃ opcode ∈ opcodes[res.arrival]?,
    res.outcome.Follows retries opcode ((latest? log res.arrival).map Receipt.status)
  /-- The end cancels exactly what is pending, whatever its last acknowledgement. -/
  cancelled : (s.step .close).1.queue.pending = []
    ∧ (s.step .close).1.resolved =
      s.queue.pending.map (⟨·.arrival, .failed .cancelled⟩) ++ s.resolved
  attempts : ∀ c ∈ s.queue.pending, c.attempts ≤ retries + 1

theorem resolvesOnce (retries : Nat) (actions : List Action) (goesOn : .close ∉ actions) :
    ((start retries).run actions).ResolvesOnce retries (pushed actions)
      ((start retries).receipts actions) := by
  have h := (enrolled_start retries).run goesOn
  rw [List.nil_append, List.append_nil] at h
  refine ⟨h.once, fun action goesOn => resolved_step _ goesOn, h.outcome, ?_, h.attempts⟩
  simp [Session.step, h.isOpen, Session.close]

def mixed : List Action :=
  let push (opcode : UInt16) : Action := .push opcode (.replicate 7 .zero)
  [push 300, .tick false, push 176, .tick true, .acknowledge 176 .denied,
    .acknowledge 176 .accepted, .release 0, .tick true, .acknowledge 300 .temporarilyRejected,
    .tick true, .clearLast, .tick true, push 520]

theorem resolvesOnce_mixed :
    Action.close ∉ mixed
      ∧ ((start 1).run mixed).ResolvesOnce 1 [300, 176, 520] ((start 1).receipts mixed)
      ∧ ((start 1).run mixed).resolved = [⟨0, .failed (.timedOut 300 2)⟩, ⟨1, .accepted⟩] :=
  have goesOn : Action.close ∉ mixed := by simp [mixed]
  ⟨goesOn, resolvesOnce 1 mixed goesOn, by decide⟩

end Queue.Session

end VehicleLink
