import VehicleLink.Proofs.Command.Moves

namespace VehicleLink.Queue

structure Receipt where
  arrival : Nat
  status : AckStatus
  early : Bool
  deriving DecidableEq

def latest? (log : List Receipt) (arrival : Nat) : Option Receipt :=
  log.find? (·.arrival == arrival)

theorem latest?_cons (receipt : Receipt) (log : List Receipt) (arrival : Nat) :
    latest? (receipt :: log) arrival =
      if receipt.arrival = arrival then some receipt else latest? log arrival := by
  by_cases same : receipt.arrival = arrival <;> simp [latest?, same]

namespace Session

def WasSent (s : Session) (arrival : Nat) : Prop :=
  ∃ c ∈ s.sent, c.arrival = arrival

instance (s : Session) (arrival : Nat) : Decidable (s.WasSent arrival) :=
  inferInstanceAs (Decidable (∃ c ∈ s.sent, c.arrival = arrival))

def receipt? (s : Session) : Action → Option Receipt
  | .acknowledge opcode status =>
    if s.closed then none
    else s.queue.head?.bind fun c =>
      if c.opcode = opcode then some ⟨c.arrival, status, !decide (s.WasSent c.arrival)⟩ else none
  | _ => none

def receipts (s : Session) : List Action → List Receipt
  | [] => []
  | action :: rest => receipts (s.step action).1 rest ++ (s.receipt? action).toList

theorem receipt?_answered {s : Session} {c rest status} (isOpen : s.closed = false)
    (pending : s.queue.pending = c :: rest) :
    s.receipt? (.acknowledge c.opcode status) =
      some ⟨c.arrival, status, !decide (s.WasSent c.arrival)⟩ := by
  simp [receipt?, isOpen, head?, pending]

theorem receipt?_unmatched {s : Session} {opcode status}
    (other : ∀ c ∈ s.queue.head?, c.opcode ≠ opcode) :
    s.receipt? (.acknowledge opcode status) = none := by
  rw [receipt?]
  split
  · rfl
  · cases head : s.queue.head? with
    | none => rfl
    | some c => exact if_neg (other c head)

structure Tracked (s : Session) (log : List Receipt) (c : Command) : Prop where
  attempted : s.WasSent c.arrival ↔ 0 < c.attempts
  status : c.status = (latest? log c.arrival).elim .pending Receipt.status
  early : ∀ receipt ∈ latest? log c.arrival, receipt.status.Settles →
    (receipt.early = true ↔ c.attempts = 0)

/-- The answer is that of the last acknowledgement, and not early if the command was sent. -/
def Answered (s : Session) (log : List Receipt) (res : Resolution) : Prop :=
  ∀ status ∈ res.outcome.answer?, ∃ receipt ∈ latest? log res.arrival,
    receipt.status = status ∧ (s.WasSent res.arrival ↔ receipt.early = false)

structure Unused (s : Session) (log : List Receipt) (arrival : Nat) : Prop where
  notPending : ∀ c ∈ s.queue.pending, c.arrival ≠ arrival
  notResolved : ∀ res ∈ s.resolved, res.arrival ≠ arrival
  notSent : ¬ s.WasSent arrival
  noReceipt : latest? log arrival = none

structure Accounted (s : Session) (log : List Receipt) : Prop where
  distinct : (s.queue.pending.map Command.arrival ++ s.resolved.map Resolution.arrival).Nodup
  unused : ∀ arrival, s.queue.arrivals ≤ arrival → s.Unused log arrival
  tracked : ∀ c ∈ s.queue.pending, s.Tracked log c
  answered : ∀ res ∈ s.resolved, s.Answered log res

theorem accounted_start (retries : Nat) : (start retries).Accounted [] where
  distinct := .nil
  unused _ _ := ⟨by simp [start, empty], by simp [start], by simp [WasSent, start], rfl⟩
  tracked := by simp [start, empty]
  answered := by simp [start]

section Steps

variable {s s' : Session} {log log' : List Receipt}

theorem Tracked.congr {c : Command} (h : s.Tracked log c)
    (sent : s'.WasSent c.arrival ↔ s.WasSent c.arrival)
    (last : latest? log' c.arrival = latest? log c.arrival) : s'.Tracked log' c where
  attempted := sent.trans h.attempted
  status := last ▸ h.status
  early := last ▸ h.early

theorem Answered.congr {res : Resolution} (h : s.Answered log res)
    (sent : s'.WasSent res.arrival ↔ s.WasSent res.arrival)
    (last : latest? log' res.arrival = latest? log res.arrival) : s'.Answered log' res := by
  intro status isAnswer
  rw [last, sent]
  exact h status isAnswer

theorem Tracked.answered {c : Command} {verdict outcome} (h : s.Tracked log c)
    (ends : c.verdict? s.queue.retries = some verdict) (becomes : verdict.outcome? = some outcome) :
    s.Answered log ⟨c.arrival, outcome⟩ := by
  obtain ⟨outcome', same, answer⟩ := Command.outcome_of_verdict ends
  obtain rfl : outcome = outcome' := by simpa [becomes] using same
  intro status isAnswer
  rw [answer] at isAnswer
  split at isAnswer
  · next settles =>
    obtain rfl : c.status = status := by simpa using isAnswer
    cases last : latest? log c.arrival with
    | none =>
      have pending : c.status = .pending := by simpa [last] using h.status
      simp [pending, AckStatus.Settles, AckStatus.isRejection] at settles
    | some receipt =>
      have status : c.status = receipt.status := by simpa [last] using h.status
      have early := h.early receipt last (status ▸ settles)
      refine ⟨receipt, rfl, status.symm, ?_⟩
      rw [h.attempted, Nat.pos_iff_ne_zero, Ne, ← early, Bool.not_eq_true]
  · cases isAnswer

theorem Accounted.head_distinct {c : Command} {rest} (h : s.Accounted log)
    (pending : s.queue.pending = c :: rest) :
    (∀ d ∈ rest, d.arrival ≠ c.arrival) ∧ ∀ res ∈ s.resolved, res.arrival ≠ c.arrival := by
  have distinct := h.distinct
  rw [pending, List.map_cons, List.cons_append, List.nodup_cons] at distinct
  constructor
  · intro d isRest same
    exact distinct.1 (List.mem_append_left _ (List.mem_map.mpr ⟨d, isRest, same⟩))
  · intro res isResolved same
    exact distinct.1 (List.mem_append_right _ (List.mem_map.mpr ⟨res, isResolved, same⟩))

theorem Accounted.head_tracked {c : Command} {rest} (h : s.Accounted log)
    (pending : s.queue.pending = c :: rest) :
    s.Tracked log c ∧ ∀ d ∈ rest, s.Tracked log d :=
  ⟨h.tracked c (by simp [pending]), fun d isRest => h.tracked d (by simp [pending, isRest])⟩

theorem Unused.head_ne {c : Command} {rest arrival} (h : s.Unused log arrival)
    (pending : s.queue.pending = c :: rest) : c.arrival ≠ arrival :=
  h.notPending c (by simp [pending])

theorem Accounted.frame (h : s.Accounted log) (pending : s'.queue.pending = s.queue.pending)
    (arrivals : s'.queue.arrivals = s.queue.arrivals) (sent : s'.sent = s.sent)
    (resolved : s'.resolved = s.resolved) : s'.Accounted log := by
  have wasSent (arrival) : s'.WasSent arrival ↔ s.WasSent arrival := by rw [WasSent, sent, WasSent]
  constructor
  · rw [pending, resolved]
    exact h.distinct
  · intro arrival notYet
    have unused := h.unused arrival (arrivals ▸ notYet)
    exact ⟨pending ▸ unused.notPending, resolved ▸ unused.notResolved,
      mt (wasSent arrival).mp unused.notSent, unused.noReceipt⟩
  · intro c isPending
    exact (h.tracked c (pending ▸ isPending)).congr (wasSent _) rfl
  · intro res isResolved
    exact (h.answered res (resolved ▸ isResolved)).congr (wasSent _) rfl

theorem Accounted.push (h : s.Accounted log) (opcode arguments) :
    Accounted { s with queue := s.queue.push opcode arguments none } log := by
  have fresh := h.unused s.queue.arrivals (Nat.le_refl _)
  have members := enqueue_perm ⟨opcode, arguments, 0, .pending, s.queue.arrivals, none⟩
    s.queue.pending
  constructor
  · refine (((members.map Command.arrival).append_right _).nodup_iff).mpr ?_
    refine List.nodup_cons.mpr ⟨?_, h.distinct⟩
    intro used
    rcases List.mem_append.mp used with used | used
    · obtain ⟨c, isPending, same⟩ := List.mem_map.mp used
      exact fresh.notPending c isPending same
    · obtain ⟨res, isResolved, same⟩ := List.mem_map.mp used
      exact fresh.notResolved res isResolved same
  · intro arrival notYet
    have later : s.queue.arrivals + 1 ≤ arrival := notYet
    have unused := h.unused arrival (by omega)
    refine ⟨?_, unused.notResolved, unused.notSent, unused.noReceipt⟩
    intro c isPending
    rcases List.mem_cons.mp (members.mem_iff.mp isPending) with rfl | old
    · exact Nat.ne_of_lt later
    · exact unused.notPending c old
  · intro c isPending
    rcases List.mem_cons.mp (members.mem_iff.mp isPending) with rfl | old
    · refine ⟨⟨fun sent => absurd sent fresh.notSent, fun tried => absurd tried (by simp)⟩, ?_, ?_⟩
      · simp [fresh.noReceipt]
      · simp [fresh.noReceipt]
    · exact (h.tracked c old).congr .rfl rfl
  · intro res isResolved
    exact (h.answered res isResolved).congr .rfl rfl

theorem Accounted.acknowledge {c : Command} {rest} (h : s.Accounted log)
    (pending : s.queue.pending = c :: rest) (status : AckStatus) :
    Accounted { s with queue := { s.queue with pending := { c with status } :: rest } }
      (⟨c.arrival, status, !decide (s.WasSent c.arrival)⟩ :: log) := by
  obtain ⟨restDistinct, resolvedDistinct⟩ := h.head_distinct pending
  obtain ⟨tracked, restTracked⟩ := h.head_tracked pending
  constructor
  · simpa [pending] using h.distinct
  · intro arrival notYet
    have unused := h.unused arrival notYet
    refine ⟨?_, unused.notResolved, unused.notSent, ?_⟩
    · simpa [pending] using unused.notPending
    · rw [latest?_cons, if_neg (unused.head_ne pending), unused.noReceipt]
  · intro d isPending
    rcases List.mem_cons.mp isPending with rfl | isRest
    · refine ⟨tracked.attempted, by simp [latest?_cons], ?_⟩
      intro receipt last _
      obtain rfl : _ = receipt := by simpa [latest?_cons] using last
      simp [tracked.attempted]
    · exact (restTracked d isRest).congr .rfl
        (by rw [latest?_cons, if_neg (restDistinct d isRest).symm])
  · intro res isResolved
    exact (h.answered res isResolved).congr .rfl
      (by rw [latest?_cons, if_neg (resolvedDistinct res isResolved).symm])

theorem Accounted.settle {c : Command} {rest verdict outcome} (h : s.Accounted log)
    (pending : s.queue.pending = c :: rest) (ends : c.verdict? s.queue.retries = some verdict)
    (becomes : verdict.outcome? = some outcome) (last : Option LastCommand) :
    Accounted
      { s with
        queue := { s.queue with pending := rest, last }
        resolved := ⟨c.arrival, outcome⟩ :: s.resolved } log := by
  obtain ⟨tracked, restTracked⟩ := h.head_tracked pending
  constructor
  · have distinct := h.distinct
    rw [pending] at distinct
    exact List.perm_middle.nodup_iff.mpr distinct
  · intro arrival notYet
    have unused := h.unused arrival notYet
    refine ⟨?_, ?_, unused.notSent, unused.noReceipt⟩
    · intro d isRest
      exact unused.notPending d (by simp [pending, isRest])
    · simpa using ⟨unused.head_ne pending, unused.notResolved⟩
  · intro d isRest
    exact (restTracked d isRest).congr .rfl rfl
  · intro res isResolved
    rcases List.mem_cons.mp isResolved with rfl | old
    · exact (tracked.answered ends becomes).congr .rfl rfl
    · exact (h.answered res old).congr .rfl rfl

theorem Accounted.send {c : Command} {rest} (h : s.Accounted log)
    (pending : s.queue.pending = c :: rest) (goes : c.verdict? s.queue.retries = none)
    (last : Option LastCommand) :
    Accounted
      { s with
        queue :=
          { s.queue with pending := { c with attempts := c.attempts + 1 } :: rest, last }
        sent := c :: s.sent } log := by
  obtain ⟨restDistinct, resolvedDistinct⟩ := h.head_distinct pending
  obtain ⟨tracked, restTracked⟩ := h.head_tracked pending
  have wasSent {arrival} (other : c.arrival ≠ arrival) :
      (∃ d ∈ c :: s.sent, d.arrival = arrival) ↔ s.WasSent arrival := by
    simp [WasSent, other]
  constructor
  · simpa [pending] using h.distinct
  · intro arrival notYet
    have unused := h.unused arrival notYet
    refine ⟨?_, unused.notResolved, ?_, unused.noReceipt⟩
    · simpa [pending] using unused.notPending
    · exact mt (wasSent (unused.head_ne pending)).mp unused.notSent
  · intro d isPending
    rcases List.mem_cons.mp isPending with rfl | isRest
    · refine ⟨⟨fun _ => Nat.succ_pos _, fun _ => ⟨c, by simp, rfl⟩⟩, tracked.status, ?_⟩
      -- The head would not be sent if its last acknowledgement settled it.
      intro receipt isLast settles
      have status : c.status = receipt.status := by
        rw [tracked.status, show latest? log c.arrival = some receipt from isLast, Option.elim_some]
      obtain ⟨verdict, _, ends, _⟩ :=
        Command.verdict?_of_settles s.queue.retries (status ▸ settles)
      rw [goes] at ends
      cases ends
    · exact (restTracked d isRest).congr (wasSent (restDistinct d isRest).symm) rfl
  · intro res isResolved
    exact (h.answered res isResolved).congr (wasSent (resolvedDistinct res isResolved).symm) rfl

theorem Accounted.close (h : s.Accounted log) : s.close.Accounted log := by
  constructor
  · simpa [Session.close, Function.comp_def] using h.distinct
  · intro arrival notYet
    have unused := h.unused arrival notYet
    refine ⟨by simp [Session.close], ?_, unused.notSent, unused.noReceipt⟩
    intro res isResolved
    rcases List.mem_append.mp isResolved with cancelled | old
    · obtain ⟨c, isPending, rfl⟩ := List.mem_map.mp cancelled
      exact unused.notPending c isPending
    · exact unused.notResolved res old
  · simp [Session.close]
  · intro res isResolved
    rcases List.mem_append.mp isResolved with cancelled | old
    · obtain ⟨c, _, rfl⟩ := List.mem_map.mp cancelled
      exact fun status isAnswer => nomatch isAnswer
    · exact (h.answered res old).congr .rfl rfl

theorem Accounted.step (h : s.Accounted log) (action : Action) :
    (s.step action).1.Accounted ((s.receipt? action).toList ++ log) := by
  generalize moved : (s.step action).1 = s'
  have move : s.Move action s' := moved ▸ s.move_step action
  cases move with
  | closed isClosed =>
    have none : s.receipt? action = none := by cases action <;> simp [receipt?, isClosed]
    simpa [none] using h
  | pushed => exact h.push _ _
  | answered isOpen pending =>
    rw [receipt?_answered isOpen pending]
    exact h.acknowledge pending _
  | unmatched _ other =>
    rw [receipt?_unmatched other]
    exact h
  | idle => exact h
  | settled _ pending ends becomes => exact h.settle pending ends becomes _
  | sent _ pending goes => exact h.send pending goes _
  | forgotten => exact h.frame rfl rfl rfl rfl
  | released => exact h.frame rfl rfl rfl rfl
  | cancelled => exact h.close

theorem Accounted.run (h : s.Accounted log) (actions : List Action) :
    (s.run actions).Accounted (s.receipts actions ++ log) := by
  induction actions generalizing s log with
  | nil => exact h
  | cons action rest ih =>
    rw [receipts, List.append_assoc]
    exact ih (h.step action)

end Steps

/-- A command that resolves as accepted or rejected has been sent if and only if the last
acknowledgement taken for it was not early. -/
theorem sent_iff_of_answered (retries : Nat) (actions : List Action) {res : Resolution} {status}
    (resolved : res ∈ ((start retries).run actions).resolved)
    (answered : res.outcome.answer? = some status) :
    ∃ receipt ∈ latest? ((start retries).receipts actions) res.arrival,
      receipt.status = status
        ∧ (((start retries).run actions).WasSent res.arrival ↔ receipt.early = false) := by
  have accounted := (accounted_start retries).run actions
  rw [List.append_nil] at accounted
  exact accounted.answered res resolved status answered

def duplicate : List Action :=
  let push : Action := .push 176 (.replicate 7 .zero)
  [push, push, .tick true, .tick true, .acknowledge 176 .accepted, .tick true,
    .acknowledge 176 .accepted, .tick true]

theorem first_sent_of_duplicate :
    ⟨0, .accepted⟩ ∈ ((start 5).run duplicate).resolved
      ∧ Outcome.accepted.answer? = some .accepted
      ∧ ∃ receipt ∈ latest? ((start 5).receipts duplicate) 0, receipt.status = .accepted
        ∧ (((start 5).run duplicate).WasSent 0 ↔ receipt.early = false) :=
  have resolved : ⟨0, .accepted⟩ ∈ ((start 5).run duplicate).resolved := by decide
  ⟨resolved, rfl, sent_iff_of_answered 5 duplicate resolved rfl⟩

theorem second_unsent_of_duplicate :
    ¬ ∀ (retries : Nat) (actions : List Action) (res : Resolution) (status : AckStatus),
      res ∈ ((start retries).run actions).resolved → res.outcome.answer? = some status →
        ((start retries).run actions).WasSent res.arrival := by
  intro claim
  have sent : ((start 5).run duplicate).WasSent 1 :=
    claim 5 duplicate ⟨1, .accepted⟩ .accepted (by decide) rfl
  revert sent
  decide

end Session

end VehicleLink.Queue
